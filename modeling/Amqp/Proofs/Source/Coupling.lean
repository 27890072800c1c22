import Amqp.Proofs.Decoder.Prefixes

/-!
# Two sources side by side

Two sources that are asked the same are coupled by a relation of their states. A right
computation tracks a left one if it gives the same result in corresponding states, or the
same failure; a coupling may excuse some failures of the left computation, after which
nothing is asked of the right one. Corresponding states are told apart as sources are:
settled while no byte is held, facing while one may be, and failed behind a failure.

A coupling is sound if the requests of a source track themselves. What is proved of
decoders from this alone holds of every two sources so coupled: of a buffer and a stream
with the same bytes, where the early refusal of the buffer is excused, and of two sources
of one type that differ in the byte they hold.
-/

namespace Amqp

/-- How the states of two sources correspond, and which failures are excused. -/
structure Coupling (σ τ : Type) where
  settled : σ → τ → Prop
  facing : σ → τ → Prop
  failed : σ → τ → Prop
  excused : Error → Prop

namespace Coupling

variable {σ τ α β : Type} (coupling : Coupling σ τ)

/-- What a right computation comes to, given what the left one came to. -/
def Follows (after : σ → τ → Prop) (left : EStateM.Result Error σ α)
    (right : EStateM.Result Error τ α) : Prop :=
  match left with
  | .ok result source => ∃ target, right = .ok result target ∧ after source target
  | .error error source =>
    coupling.excused error ∨ ∃ target, right = .error error target ∧ coupling.failed source target

/-- The right computation follows the left one from all corresponding states. -/
def Tracks (before after : σ → τ → Prop) (left : Fetch σ α) (right : Fetch τ α) : Prop :=
  ∀ source target, before source target → coupling.Follows after (left source) (right target)

/-- Corresponding states whose next byte has been looked at and can be taken. -/
def Shown [Source σ] [Source τ] (source : σ) (target : τ) : Prop :=
  coupling.facing source target ∧
    coupling.Follows coupling.settled (Source.skip 1 source) (Source.skip 1 target)

/-- A coupling under which the requests of the sources track themselves. -/
structure Sound [Source σ] [Source τ] : Prop where
  facing_of_settled {source : σ} {target : τ} :
    coupling.settled source target → coupling.facing source target
  failed_of_facing {source : σ} {target : τ} :
    coupling.facing source target → coupling.failed source target
  position_eq {source : σ} {target : τ} :
    coupling.facing source target → Source.position source = Source.position target
  next {source : σ} {target : τ} : coupling.facing source target →
    (∃ error after, Source.peek source = .error error after ∧ (coupling.excused error ∨
      ∃ behind, Source.peek target = .error error behind ∧ coupling.failed after behind)) ∨
    (∃ after, Source.peek source = .ok none after ∧ (coupling.excused .unexpectedEof ∨
      ∃ behind, Source.peek target = .ok none behind ∧ coupling.failed after behind)) ∨
    ∃ byte after behind, Source.peek source = .ok (some byte) after ∧
      Source.peek target = .ok (some byte) behind ∧ coupling.Shown after behind
  read (length : Nat) :
    coupling.Tracks coupling.settled coupling.settled (Source.read length) (Source.read length)
  take (length : Nat) :
    coupling.Tracks coupling.settled coupling.settled (Source.take length) (Source.take length)
  skip (length : Nat) :
    coupling.Tracks coupling.settled coupling.settled (Source.skip length) (Source.skip length)
  ensures (declared : Nat) : coupling.Tracks coupling.settled coupling.settled
    (Decoder.ensureAvailable declared) (Decoder.ensureAvailable declared)

/-- A coupling under which looking at the next byte tracks itself as well, also where none
is left, and under which as many bytes can still arrive on both sides. -/
structure Aligned [Source σ] [Source τ] : Prop extends coupling.Sound where
  peek : coupling.Tracks coupling.facing coupling.facing Source.peek Source.peek
  pending_eq {source : σ} {target : τ} :
    coupling.facing source target → Source.pending source = Source.pending target

section Tracking

variable {coupling} {before between after : σ → τ → Prop}

/-- Giving the same result tracks itself. -/
theorem tracks_pure (result : α) :
    coupling.Tracks before before (pure result) (pure result) :=
  fun _ target related => ⟨target, rfl, related⟩

/-- The same refusal tracks itself. -/
theorem tracks_throw (fails : ∀ source target, before source target → coupling.failed source target)
    (error : Error) :
    coupling.Tracks before after (throw error : Fetch σ α) (throw error) :=
  fun source target related => .inr ⟨target, rfl, fails source target related⟩

/-- An excused refusal is tracked by anything. -/
theorem tracks_excused {error : Error} (excuse : coupling.excused error) (right : Fetch τ α) :
    coupling.Tracks before after (throw error) right :=
  fun _ _ _ => .inl excuse

/-- Computations in a row track each other one after the other. A success of the first leads to
related states, in which the second is tracked; its failure is either excused, and then that of
the two in a row is, or it is the same failure on the right. -/
theorem Tracks.bind {left : Fetch σ α} {right : Fetch τ α} {next : α → Fetch σ β}
    {next' : α → Fetch τ β} (first : coupling.Tracks before between left right)
    (each : ∀ result, coupling.Tracks between after (next result) (next' result)) :
    coupling.Tracks before after (left >>= next) (right >>= next') := by
  intro source target related
  have follows := first source target related
  cases ran : left source with
  | ok result middle =>
    rw [ran] at follows
    obtain ⟨behind, same, related⟩ := follows
    rw [bind_of_ok ran, bind_of_ok same]
    exact each result middle behind related
  | error error middle =>
    rw [ran] at follows
    rw [bind_of_error ran]
    rcases follows with excuse | ⟨behind, same, failed⟩
    · exact .inl excuse
    · rw [bind_of_error same]
      exact .inr ⟨behind, rfl, failed⟩

/-- A result computed from another is tracked as that one is. -/
theorem Tracks.map {left : Fetch σ α} {right : Fetch τ α}
    (tracks : coupling.Tracks before after left right) (finish : α → β) :
    coupling.Tracks before after (left >>= fun result => pure (finish result))
      (right >>= fun result => pure (finish result)) :=
  tracks.bind fun _ => tracks_pure _

/-- Tracking from some states is tracking from fewer, and to some states to more. Behind a
failure nothing changes, since the relation of failed states belongs to the coupling. -/
theorem Tracks.imp {before' after' : σ → τ → Prop} {left : Fetch σ α} {right : Fetch τ α}
    (tracks : coupling.Tracks before after left right)
    (stronger : ∀ source target, before' source target → before source target)
    (weaker : ∀ source target, after source target → after' source target) :
    coupling.Tracks before' after' left right := by
  intro source target related
  have follows := tracks source target (stronger source target related)
  cases ran : left source with
  | ok result middle =>
    rw [ran] at follows
    obtain ⟨behind, same, related⟩ := follows
    exact ⟨behind, same, weaker _ _ related⟩
  | error error middle =>
    rw [ran] at follows
    exact follows

/-- Choices that depend on the same condition track each other branch by branch. -/
theorem tracks_ite {condition : Prop} [Decidable condition] {left other : Fetch σ α}
    {right other' : Fetch τ α} (yes : condition → coupling.Tracks before after left right)
    (no : ¬condition → coupling.Tracks before after other other') :
    coupling.Tracks before after (if condition then left else other)
      (if condition then right else other') := by
  by_cases holds : condition
  · rw [if_pos holds, if_pos holds]
    exact yes holds
  · rw [if_neg holds, if_neg holds]
    exact no holds

/-- A refusal under a condition, before going on, tracks itself. -/
theorem tracks_unless {condition : Prop} [Decidable condition] {error : Error}
    {next : Unit → Fetch σ α} {next' : Unit → Fetch τ α}
    (fails : ∀ source target, before source target → coupling.failed source target)
    (going : ¬condition → coupling.Tracks before after (next ()) (next' ())) :
    coupling.Tracks before after (if condition then throw error >>= next else next ())
      (if condition then throw error >>= next' else next' ()) :=
  have refused : coupling.Tracks before (fun _ _ => False) (throw error : Fetch σ Unit)
      (throw error) := tracks_throw fails error
  tracks_ite (fun _ => refused.bind fun _ _ _ => False.elim) going

end Tracking

section Bytes

open Source (Lawful)
open Source.Lawful (Settled Facing)

variable {σ τ α : Type} [Source σ] [Lawful σ] [Source τ] [Lawful τ]

/-- Two sources with the same bytes to come and the same number of bytes taken, of which
something holds. -/
def ofBytes (holds : Bytes → Nat → Prop) (failed : σ → τ → Prop) (excused : Error → Prop) :
    Coupling σ τ where
  settled source target := ∃ rest taken, holds rest taken ∧ Settled source rest taken ∧
    Settled target rest taken
  facing source target := ∃ rest taken, holds rest taken ∧ Facing source rest taken ∧
    Facing target rest taken
  failed := failed
  excused := excused

/-- Something that holds of the bytes to come and the number of bytes taken, and still
does when some are taken. -/
def Kept (holds : Bytes → Nat → Prop) : Prop :=
  ∀ front rest taken, holds (front ++ rest) taken → holds rest (taken + front.length)

variable {holds : Bytes → Nat → Prop} {failed : σ → τ → Prop} {excused : Error → Prop}

/-- Two requests that fail alike where there are too few bytes. -/
def FailAlike (holds : Bytes → Nat → Prop) (failed : σ → τ → Prop) {shape : Nat → Type}
    (request : (length : Nat) → Fetch σ (shape length))
    (request' : (length : Nat) → Fetch τ (shape length)) : Prop :=
  ∀ ⦃length rest taken source target⦄, rest.length < length → holds rest taken →
    Settled source rest taken → Settled target rest taken → ∃ error after behind,
      request length source = .error error after ∧
      request' length target = .error error behind ∧ failed after behind

/-- Requests for so many bytes fail alike if nothing is asked of the states behind a failure. -/
theorem failAlike_of_answers {shape : Nat → Type}
    {request : (length : Nat) → Fetch σ (shape length)}
    {request' : (length : Nat) → Fetch τ (shape length)}
    {given : (front : Bytes) → shape front.length} (answers : Lawful.Answers request given)
    (answers' : Lawful.Answers request' given) :
    FailAlike holds (fun _ _ => True) request request' := by
  intro length rest taken source target few _ settled settled'
  obtain ⟨_, _, _, fails⟩ := answers.short few
  obtain ⟨_, _, _, fails'⟩ := answers'.short few
  obtain ⟨after, ran, _⟩ := fails source settled
  obtain ⟨behind, ran', _⟩ := fails' target settled'
  exact ⟨_, after, behind, ran, ran', trivial⟩

/-- Requests that give the same where there are enough bytes, and fail alike where there are too
few, track each other. Which of the two is the case depends on the bytes to come alone, and these
are the same on both sides. -/
theorem tracks_request {shape : Nat → Type} {request : (length : Nat) → Fetch σ (shape length)}
    {request' : (length : Nat) → Fetch τ (shape length)}
    {given : (front : Bytes) → shape front.length} (kept : Kept holds)
    (answers : Lawful.Answers request given) (answers' : Lawful.Answers request' given)
    (short : FailAlike holds failed request request') (length : Nat) :
    (ofBytes holds failed excused).Tracks (ofBytes holds failed excused).settled
      (ofBytes holds failed excused).settled (request length) (request' length) := by
  rintro source target ⟨rest, taken, held, settled, settled'⟩
  rcases Nat.lt_or_ge rest.length length with few | many
  · obtain ⟨error, after, behind, ran, ran', apart⟩ := short few held settled settled'
    rw [ran, ran']
    exact .inr ⟨behind, rfl, apart⟩
  · obtain ⟨front, back, rfl, rfl⟩ := Bytes.exists_append_of_le many
    obtain ⟨after, ran, left⟩ := answers.settled settled
    obtain ⟨behind, ran', left'⟩ := answers'.settled settled'
    rw [ran, ran']
    exact ⟨behind, rfl, back, _, kept _ _ _ held, left, left'⟩

/-- A coupling by bytes is sound if its requests fail alike where bytes are too few, and the
check of a declared length is tracked. All else follows from the laws of a source. The check is a
premise of its own because here the sources may differ: one knows how much is left, and the other
does not. -/
theorem sound_ofBytes (kept : Kept holds)
    (fails : ∀ {rest taken source target}, holds rest taken → Facing source rest taken →
      Facing target rest taken → failed source target)
    (readShort : FailAlike holds failed (@Source.read σ _) (@Source.read τ _))
    (takeShort : FailAlike holds failed (@Source.take σ _) (@Source.take τ _))
    (skipShort : FailAlike holds failed (@Source.skip σ _) (@Source.skip τ _))
    (ensures : ∀ declared, (ofBytes holds failed excused).Tracks
      (ofBytes holds failed excused).settled (ofBytes holds failed excused).settled
      (Decoder.ensureAvailable declared) (Decoder.ensureAvailable declared)) :
    (ofBytes holds failed excused).Sound where
  facing_of_settled := by
    rintro source target ⟨rest, taken, held, settled, settled'⟩
    exact ⟨rest, taken, held, Lawful.facing settled, Lawful.facing settled'⟩
  failed_of_facing := by
    rintro source target ⟨rest, taken, held, faces, faces'⟩
    exact fails held faces faces'
  position_eq := by
    rintro source target ⟨rest, taken, held, faces, faces'⟩
    rw [Lawful.position_eq faces, Lawful.position_eq faces']
  next := by
    rintro source target ⟨rest, taken, held, faces, faces'⟩
    obtain ⟨after, shown, faces⟩ := Lawful.peek_facing faces
    obtain ⟨behind, shown', faces'⟩ := Lawful.peek_facing faces'
    cases rest with
    | nil => exact .inr (.inl ⟨after, shown, .inr ⟨behind, shown', fails held faces faces'⟩⟩)
    | cons byte rest =>
      obtain ⟨last, skipped, settled⟩ := Lawful.skip_facing faces
      obtain ⟨last', skipped', settled'⟩ := Lawful.skip_facing faces'
      refine .inr (.inr ⟨byte, after, behind, shown, shown', ⟨_, taken, held, faces, faces'⟩, ?_⟩)
      rw [skipped, skipped']
      exact ⟨last', rfl, rest, taken + 1, kept [byte] rest taken held, settled, settled'⟩
  read := tracks_request kept Lawful.answers_read Lawful.answers_read readShort
  take := tracks_request kept Lawful.answers_take Lawful.answers_take takeShort
  skip := tracks_request kept Lawful.answers_skip Lawful.answers_skip skipShort
  ensures := ensures

/-- Sources with the same bytes to come are aligned if their coupling is sound. -/
theorem aligned_ofBytes (sound : (ofBytes holds failed excused).Sound) :
    (ofBytes holds failed excused).Aligned where
  toSound := sound
  peek := by
    rintro source target ⟨rest, taken, held, faces, faces'⟩
    obtain ⟨after, shown, faces⟩ := Lawful.peek_facing faces
    obtain ⟨behind, shown', faces'⟩ := Lawful.peek_facing faces'
    rw [shown, shown']
    exact ⟨behind, rfl, rest, taken, held, faces, faces'⟩
  pending_eq := by
    rintro source target ⟨rest, taken, held, faces, faces'⟩
    rw [Lawful.pending_eq faces, Lawful.pending_eq faces']

end Bytes

/-- A failure of the check of a declared length, which only some sources can make. -/
def IsEarly (error : Error) : Prop :=
  ∃ declared remaining, error = .lengthExceedsRemaining declared remaining

/-- A buffer and a stream with the same bytes to come. The early refusals of the buffer
are excused, and nothing is said of states behind a failure. -/
def bufferStream : Coupling Buffer Stream :=
  ofBytes (fun _ _ => True) (fun _ _ => True) IsEarly

/-- A buffer and a stream with the same bytes answer requests alike. The check of a declared
length is the only place where they part: the buffer may refuse early, which this coupling
excuses, and the stream always goes on. -/
theorem aligned_bufferStream : bufferStream.Aligned := by
  apply aligned_ofBytes
  apply sound_ofBytes (fun _ _ _ _ => trivial) (fun _ _ _ => trivial)
    (failAlike_of_answers Source.Lawful.answers_read Source.Lawful.answers_read)
    (failAlike_of_answers Source.Lawful.answers_take Source.Lawful.answers_take)
    (failAlike_of_answers Source.Lawful.answers_skip Source.Lawful.answers_skip)
  intro declared source target related
  have checked : Decoder.ensureAvailable declared source =
      if source.remaining < declared then
        .error (.lengthExceedsRemaining declared source.remaining) source
      else .ok () source := Decoder.ensureAvailable_eq declared source
  rw [checked]
  split
  · exact .inl ⟨_, _, rfl⟩
  · exact ⟨target, rfl, related⟩

section Mirrored

variable {σ τ : Type} [Source σ] [Source τ] {related : σ → τ → Prop} {excused : Error → Prop}

/-- Two sources that correspond in one and the same way, whatever they are asked. -/
def mirror (related : σ → τ → Prop) (excused : Error → Prop) : Coupling σ τ :=
  ⟨related, related, related, excused⟩

/-- A correspondence that every request keeps, with the same answer. -/
structure Mirrors (related : σ → τ → Prop) (excused : Error → Prop) : Prop where
  remaining_eq {source : σ} {target : τ} :
    related source target → Source.remaining source = Source.remaining target
  position_eq {source : σ} {target : τ} :
    related source target → Source.position source = Source.position target
  pending_eq {source : σ} {target : τ} :
    related source target → Source.pending source = Source.pending target
  peek : (mirror related excused).Tracks related related Source.peek Source.peek
  read (length : Nat) :
    (mirror related excused).Tracks related related (Source.read length) (Source.read length)
  take (length : Nat) :
    (mirror related excused).Tracks related related (Source.take length) (Source.take length)
  skip (length : Nat) :
    (mirror related excused).Tracks related related (Source.skip length) (Source.skip length)

/-- A computation tracks itself on one source in one state. -/
theorem tracks_self {σ α : Type} (excused : Error → Prop) (compute : Fetch σ α) :
    (mirror (fun source target : σ => source = target) excused).Tracks (· = ·) (· = ·) compute
      compute := by
  rintro source target rfl
  cases ran : compute source with
  | ok result after => exact ⟨after, rfl, rfl⟩
  | error error after => exact .inr ⟨after, rfl, rfl⟩

/-- A source in one state is a mirror of itself. -/
theorem mirrors_self (excused : Error → Prop) :
    Mirrors (fun source target : σ => source = target) excused where
  remaining_eq := congrArg _
  position_eq := congrArg _
  pending_eq := congrArg _
  peek := tracks_self excused _
  read _ := tracks_self excused _
  take _ := tracks_self excused _
  skip _ := tracks_self excused _

/-- Sources that mirror each other answer requests alike. There is one relation for settled,
facing and failed states, so each field is what the correspondence keeps, and the check of a
declared length is computed from what both sources say is left. -/
theorem Mirrors.aligned (mirrors : Mirrors related excused) :
    (mirror related excused).Aligned where
  facing_of_settled := id
  failed_of_facing := id
  position_eq := mirrors.position_eq
  next {source target} same := by
    have follows := mirrors.peek source target same
    cases shown : Source.peek source with
    | error error after =>
      rw [shown] at follows
      exact .inl ⟨error, after, rfl, follows⟩
    | ok result after =>
      rw [shown] at follows
      obtain ⟨behind, shown', same⟩ := follows
      cases result with
      | none => exact .inr (.inl ⟨after, rfl, .inr ⟨behind, shown', same⟩⟩)
      | some byte =>
        exact .inr (.inr ⟨byte, after, behind, rfl, shown', same, mirrors.skip 1 after behind same⟩)
  read := mirrors.read
  take := mirrors.take
  skip := mirrors.skip
  ensures declared := by
    intro source target same
    rw [Decoder.ensureAvailable_eq, Decoder.ensureAvailable_eq, ← mirrors.remaining_eq same]
    cases Source.remaining source with
    | none => exact ⟨target, rfl, same⟩
    | some remaining =>
      simp only
      split
      · exact .inr ⟨target, rfl, same⟩
      · exact ⟨target, rfl, same⟩
  peek := mirrors.peek
  pending_eq := mirrors.pending_eq

end Mirrored

section Twins

open Source (Lawful)
open Source.Lawful (Settled Facing)

variable {σ : Type} [Source σ] [Lawful σ]

/-- Two sources of one type that face the same bytes, of which something holds unless
none are left. -/
def Alike (holds : Bytes → Nat → Prop) (source target : σ) : Prop :=
  ∃ rest taken, (rest = [] ∨ holds rest taken) ∧ Facing source rest taken ∧
    Facing target rest taken

/-- Two sources of one type with the same bytes to come. No failure is excused, and
behind a failure they are still alike. -/
def twins (holds : Bytes → Nat → Prop) : Coupling σ σ :=
  ofBytes holds (Alike holds) fun _ => False

/-- Two sources of one type with the same bytes answer requests alike. Unlike a buffer and a
stream, they also fail alike: a refused request loses all bytes or none, in both of them, and
what was held of the bytes to come is still held or there are none. So they can be compared
behind failures too. -/
theorem aligned_twins {holds : Bytes → Nat → Prop} (kept : Kept holds) :
    (twins holds : Coupling σ σ).Aligned := by
  have lost {rest rest' : Bytes} {taken taken' : Nat} (held : holds rest taken)
      (fallen : rest' = [] ∨ rest' = rest ∧ taken' = taken) : rest' = [] ∨ holds rest' taken' := by
    rcases fallen with empty | ⟨rfl, rfl⟩
    · exact .inl empty
    · exact .inr held
  have alike {shape : Nat → Type} {request : (length : Nat) → Fetch σ (shape length)}
      {given : (front : Bytes) → shape front.length} (answers : Lawful.Answers request given) :
      FailAlike holds (Alike holds) request request := by
    intro length rest taken source target few held settled settled'
    obtain ⟨rest', taken', fallen, fails⟩ := answers.short few
    obtain ⟨after, ran, faces⟩ := fails source settled
    obtain ⟨behind, ran', faces'⟩ := fails target settled'
    exact ⟨_, after, behind, ran, ran', rest', taken', lost held fallen, faces, faces'⟩
  apply aligned_ofBytes
  apply sound_ofBytes kept (fun held faces faces' => ⟨_, _, .inr held, faces, faces'⟩)
    (alike Lawful.answers_read) (alike Lawful.answers_take) (alike Lawful.answers_skip)
  rintro declared source target ⟨rest, taken, held, settled, settled'⟩
  rcases Nat.lt_or_ge rest.length declared with few | many
  · have both := Lawful.known_iff source target
    rw [Decoder.ensureAvailable_eq, Decoder.ensureAvailable_eq]
    cases known : Source.remaining source with
    | none =>
      rw [known, Option.isSome_none] at both
      rw [Option.isSome_eq_false_iff.mp both.symm |> Option.isNone_iff_eq_none.mp]
      exact ⟨target, rfl, rest, taken, held, settled, settled'⟩
    | some left =>
      rw [known, Option.isSome_some] at both
      obtain ⟨left', known'⟩ := Option.isSome_iff_exists.mp both.symm
      obtain rfl := Lawful.remaining_eq settled known
      obtain rfl := Lawful.remaining_eq settled' known'
      simp only [known', if_pos few]
      exact .inr ⟨target, rfl, rest, taken, .inr held, Lawful.facing settled,
        Lawful.facing settled'⟩
  · rw [Decoder.ensureAvailable_of_le settled many, Decoder.ensureAvailable_of_le settled' many]
    exact ⟨target, rfl, rest, taken, held, settled, settled'⟩

end Twins

end Coupling

end Amqp
