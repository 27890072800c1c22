import Amqp.Proofs.Decoder.Depth
import Amqp.Proofs.Machine.Tracking

/-!
# The nesting limit

The limit on nesting decides whether a value is read, and never what is read: with a higher limit
a decoder comes to the same, unless the lower one refused a level. The machine shows how the
limit is kept. Its counter never exceeds it and is back at zero behind every operation, failed or
not, so that the next one has all the levels again. And no value that is read lies deeper than the
limit.
-/

namespace Amqp.Decoder

open Coupling

/-- A higher limit changes nothing but the refusal of a level. The source is coupled with itself
by equality, and only that refusal is excused, so every other outcome is the same, the state
behind it included. -/
theorem decodeValue_raised {σ : Type} [Source σ] (text : TextDecoder) {limit more : Nat}
    (le : limit ≤ more) (source : σ) :
    (∃ after, decodeValue ⟨text, limit⟩ source = .error (.nestingTooDeep limit) after) ∨
      decodeValue ⟨text, limit⟩ source = decodeValue ⟨text, more⟩ source := by
  have sound := (mirrors_self (σ := σ) (· = .nestingTooDeep limit)).aligned.toSound
  have covers : Covers (· = .nestingTooDeep limit) ⟨text, limit⟩ ⟨text, more⟩ :=
    ⟨fun _ => .inl rfl, .inr ⟨le, rfl⟩⟩
  have follows := tracks_decodeValue sound covers source source rfl
  cases ran : decodeValue ⟨text, limit⟩ source with
  | ok value after =>
    rw [ran] at follows
    obtain ⟨_, same, rfl⟩ := follows
    exact .inr same.symm
  | error error after =>
    rw [ran] at follows
    rcases follows with rfl | ⟨_, same, rfl⟩
    · exact .inl ⟨after, rfl⟩
    · exact .inr same.symm

/-- Every value that is read up to the end is read as a value, in some state on the way. What is
known of values that are read from any state is therefore known of them. -/
theorem exists_of_decodeUntilEnd {σ : Type} [Source σ] {settings : DecoderSettings} {bound : Nat}
    {earlier values : List Value} {source after : σ}
    (ran : decodeUntilEnd settings bound earlier source = .ok values after) {value : Value}
    (member : value ∈ values) : value ∈ earlier ∨
      ∃ before behind : σ, decodeValue settings before = .ok value behind := by
  induction bound generalizing earlier source with
  | zero =>
    cases ran
    exact .inl (List.mem_reverse.mp member)
  | succ bound inductionHypothesis =>
    obtain ⟨more, middle, _, going⟩ := ok_of_bind ran
    cases more with
    | false =>
      cases going
      exact .inl (List.mem_reverse.mp member)
    | true =>
      obtain ⟨first, behind, read, later⟩ := ok_of_bind going
      rcases inductionHypothesis later with found | found
      · rcases List.mem_cons.mp found with rfl | found
        · exact .inr ⟨middle, behind, read⟩
        · exact .inl found
      · exact .inr found

/-- The limit on nesting, as it is kept on sources of one type in any state. -/
structure Limited (σ : Type) [Source σ] (text : TextDecoder) (limit : Nat) : Prop where
  /-- A higher limit changes nothing but the refusal of a level. -/
  raised {more : Nat} {source : σ} : limit ≤ more →
    (∃ after, decodeValue ⟨text, limit⟩ source = .error (.nestingTooDeep limit) after) ∨
      decodeValue ⟨text, limit⟩ source = decodeValue ⟨text, more⟩ source
  /-- The machine does what the readers do with all the levels for each operation. Its counter
  is never above the limit, and back at zero behind any operations. -/
  counted (beyond : Machine.Beyond σ) (operations : List Operation) (source : σ) :
    let ran := Machine.session ⟨text, limit⟩ beyond operations (Machine.start source)
    ran.1 = (session ⟨text, limit⟩ operations source).1 ∧
      ran.2.source = (session ⟨text, limit⟩ operations source).2 ∧
      ran.2.depth = 0 ∧ ran.2.deepest ≤ limit
  /-- No value is read that is deeper than the limit. -/
  value {source after : σ} {value : Value} :
    decodeValue ⟨text, limit⟩ source = .ok value after → value.depth false ≤ limit
  described {source after : σ} {contained : Described} :
    decodeDescribed ⟨text, limit⟩ source = .ok contained after →
      (Value.described contained).depth false ≤ limit
  all {source after : σ} {values : List Value} :
    decodeAll ⟨text, limit⟩ source = .ok values after →
      ∀ value ∈ values, value.depth false ≤ limit

/-- The limit is kept on sources whose position never falls, and that count what is read. The
first premise is for the machine, which takes differences of positions; the second one says that
a value is encoded in what it took, and encodings within some levels are no deeper. -/
theorem limited_of_consumes {σ : Type} [Source σ] [Source.Advances σ] {text : TextDecoder}
    {limit : Nat}
    (value : Consumes (Grammar.Encoding text limit) (decodeValue ⟨text, limit⟩ : Fetch σ _))
    (described : Consumes (fun bytes contained =>
      Grammar.Encoding text limit bytes (.described contained))
      (decodeDescribed ⟨text, limit⟩ : Fetch σ _)) : Limited σ text limit := by
  have shallow {source after : σ} {found : Value}
      (ran : decodeValue ⟨text, limit⟩ source = .ok found after) : found.depth false ≤ limit := by
    obtain ⟨_, _, encoding⟩ := value ran
    exact encoding.depth_le
  refine ⟨fun le => decodeValue_raised text le _, fun beyond operations source => ?_, shallow,
    fun ran => ?_, fun ran found member => ?_⟩
  · obtain ⟨same, tied⟩ := Machine.tied_session ⟨text, limit⟩ beyond operations
      (Machine.tied_start _ source)
    exact ⟨same, tied.source_eq, tied.depth_eq, tied.deepest_le⟩
  · obtain ⟨_, _, encoding⟩ := described ran
    exact encoding.depth_le
  · rcases exists_of_decodeUntilEnd ran member with none | ⟨_, _, read⟩
    · cases none
    · exact shallow read

/-- The limit on nesting is kept on buffers, and on streams over any reader, in any state: it
decides whether a value is read and not what is read, its counter is never above it and back at
zero behind every operation, and no value is deeper than it.

Proof: The three parts are shown by different means. A source that is coupled with itself gives
the first, with the refusal of a level as the only excuse; the machine, which does what the
readers do and counts, gives the second; and the grammar, in which the levels are a bound on the
depth, gives the third. -/
theorem decoder_limited (text : TextDecoder) (limit : Nat) :
    Limited Buffer text limit ∧ Limited Stream text limit :=
  ⟨limited_of_consumes (consumes_decodeValue_buffer ⟨text, limit⟩)
      (consumes_decodeDescribed_buffer ⟨text, limit⟩),
    limited_of_consumes (consumes_decodeValue_stream ⟨text, limit⟩)
      (consumes_decodeDescribed_stream ⟨text, limit⟩)⟩

end Amqp.Decoder
