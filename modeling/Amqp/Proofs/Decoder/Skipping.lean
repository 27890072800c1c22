import Amqp.Proofs.Decoder.Acceptance
import Amqp.Proofs.Decoder.Passing
import Amqp.Proofs.Decoder.Tracking
import Amqp.Proofs.Source.Advance

/-!
# Passing over what can be read

A value is read where one of its encodings leads the source on, and it is passed over where
a word does that need not be an encoding. Every encoding is such a word: its scalars have
the width of their constructor, its containers announce the bytes they take and no more
elements than bytes, and what is described nests in both in the same way. So wherever a
value is read, it is passed over from the same state, and the source is left in the same
state. The converse fails, because nothing inside of a container is looked at.
-/

namespace Amqp

open Source (Steady)
open Source.Lawful (Facing)

namespace Grammar

/-- What is behind the constructor of a descriptor is passed over within any levels. -/
theorem Label.passage {text : TextDecoder} {below : Option (Code → Bytes → Unit → Prop)}
    {code : Code} {content : Bytes} {descriptor : Descriptor}
    (label : Label text code content descriptor) : Passage below code content () := by
  cases label with
  | code scalar => exact .fixed scalar.category
  | symbol category _ fits => exact .counted category fits

/-- Payloads are passed over if those one level further down are. The rules of the grammar are
taken one by one; only a described value uses the premise, for nothing else is looked inside of.
-/
theorem Payload.passage {text : TextDecoder} {below : Option (Code → Bytes → Value → Prop)}
    {above : Option (Code → Bytes → Unit → Prop)}
    (deeper : ∀ inside, below = some inside → ∃ further, above = some (Passage further) ∧
      ∀ code content value, inside code content value → Passage further code content ())
    {code : Code} {content : Bytes} {value : Value}
    (payload : Payload text below code content value) : Passage above code content () := by
  cases payload with
  | scalar scalar => exact .fixed scalar.category
  | binary category _ fits => exact .counted category fits
  | string category _ fits => exact .counted category fits
  | symbol category _ fits => exact .counted category fits
  | list category _ _ sequence fits =>
    exact .compound category (sequence.length_le fun _ _ coded => coded.ne_nil) fits
  | map category _ _ sequence fits =>
    exact .compound category (Decoder.length_le_of_paired sequence) fits
  | noArray category => exact .compound category (Nat.le_refl 0) (Nat.lt_pow_self (by decide))
  | array category _ _ _ _ fits paid => exact .compound category paid fits
  | described level label encoded _ =>
    obtain ⟨further, rfl, passes⟩ := deeper _ level
    obtain ⟨_, _, rfl, label⟩ := label
    obtain ⟨_, _, rfl, encoded⟩ := encoded
    exact .described rfl ⟨_, _, rfl, label.passage⟩ ⟨_, _, rfl, passes _ _ _ encoded⟩

/-- Payloads within some levels are passed over within as many. The content of a list, a map or
an array is passed over by its size, and only described values take a level. -/
theorem passage_of_payload {text : TextDecoder} {levels : Nat} {code : Code} {content : Bytes}
    {value : Value} (within : payload text levels code content value) :
    passage levels code content () := by
  induction levels generalizing code content value with
  | zero => exact Payload.passage (by simp) within
  | succ levels inductionHypothesis =>
    refine Payload.passage (fun inside same => ⟨passageBelow levels, ?_, ?_⟩) within
    · rw [← passage_eq]
    · cases same
      intro code content value inside
      rw [← passage_eq]
      exact inductionHypothesis inside

/-- An encoding within some levels is passed over within as many. -/
theorem Encoding.passable {text : TextDecoder} {levels : Nat} {bytes : Bytes} {value : Value}
    (encoding : Encoding text levels bytes value) : Passable levels bytes () := by
  obtain ⟨code, content, rfl, within⟩ := encoding
  exact ⟨code, content, rfl, passage_of_payload within⟩

end Grammar

namespace Decoder

/-- A computation succeeds, from any state, exactly where a word of a language leads the source
on. It then gives what the word stands for, and the source stands where the word leads. -/
def Reads {σ α : Type} [Source σ] [Steady σ] (compute : Fetch σ α)
    (language : Bytes → α → Prop) : Prop :=
  ∀ ⦃source after : σ⦄ ⦃result : α⦄, compute source = .ok result after ↔
    ∃ word, language word result ∧ Steady.Leads source word after

section Reading

variable {α : Type} {language : Bytes → α → Prop}

/-- What a buffer of some bytes gives is given by a source that the bytes lead on, and what is
left of them leads it on from there. -/
theorem exists_of_ahead {σ : Type} [Source σ] [Steady σ] {compute : Fetch Buffer α}
    {compute' : Fetch σ α} {source goal : σ} {buffer rest : Buffer} {result : α}
    (tracks : (Coupling.ahead goal).Tracks (Coupling.ahead goal).facing
      (Coupling.ahead goal).settled compute compute')
    (leads : Steady.Leads source buffer.rest goal)
    (position : buffer.position = Source.position source)
    (ran : compute buffer = .ok result rest) :
    ∃ behind, compute' source = .ok result behind ∧ Steady.Bare behind ∧
      Steady.Leads behind rest.rest goal ∧ rest.position = Source.position behind := by
  have follows := tracks buffer source ⟨leads, position⟩
  rw [ran] at follows
  exact follows

/-- A computation that a buffer carries out on a word is carried out alike where the word leads
a source on. -/
theorem ok_of_leads {σ : Type} [Source σ] [Steady σ] {compute : Fetch Buffer α}
    {compute' : Fetch σ α} (tracks : ∀ goal, (Coupling.ahead goal).Tracks
      (Coupling.ahead goal).facing (Coupling.ahead goal).settled compute compute')
    (parses : ParsesFrom Facing compute language) {source after : σ} {word : Bytes} {result : α}
    (accepted : language word result) (leads : Steady.Leads source word after) :
    compute' source = .ok result after := by
  let buffer : Buffer := ⟨word, Source.position source, word.length, rfl⟩
  have faces : Facing buffer (word ++ []) buffer.position := ⟨(List.append_nil _).symm, rfl⟩
  obtain ⟨rest, ran, settled⟩ := parses.complete faces accepted
  obtain ⟨behind, same, bare, last, -⟩ := exists_of_ahead (tracks after) leads rfl ran
  rw [settled.1] at last
  rw [same, Steady.nothing bare last]

/-- A buffer in any state reads the language that a computation accepts. Bytes that lead a buffer
on are simply the first of those that it holds. -/
theorem reads_buffer {compute : Fetch Buffer α} (parses : ParsesFrom Facing compute language) :
    Reads compute language := by
  intro source after result
  constructor
  · intro ran
    obtain ⟨word, back, rest, accepted, settled⟩ := parses.sound source.holds_self ran
    exact ⟨word, accepted, rest.trans (congrArg _ settled.1.symm), settled.2⟩
  · rintro ⟨word, accepted, leads⟩
    have holds := source.holds_self
    rw [leads.1] at holds
    obtain ⟨behind, ran, settled⟩ := parses.complete (σ := Buffer) holds accepted
    have same : source.Leads word behind := ⟨leads.1.trans (by rw [settled.1]), settled.2⟩
    rw [ran, Buffer.Leads.eq_advance leads, same.eq_advance]

/-- A stream in any state, over any reader, reads the language that a computation accepts. In one
direction a buffer of the word is put ahead of it. In the other the stream is put beside one that
delivers the same bytes undisturbed, which shows a word, and keeps count of what it hands out
itself; since both are followed by the same bytes, they are the same. -/
theorem reads_stream {compute : Fetch Buffer α} {compute' : Fetch Stream α}
    (ahead : ∀ goal, (Coupling.ahead goal).Tracks (Coupling.ahead goal).facing
      (Coupling.ahead goal).settled compute compute')
    (traced : ∀ start, (Coupling.traced start).Tracks (Coupling.traced start).facing
      (Coupling.traced start).settled compute' compute')
    (parses : ParsesFrom Facing compute language) (parses' : ParsesFrom Facing compute' language) :
    Reads compute' language := by
  intro source after result
  refine ⟨fun ran => ?_, fun ⟨word, accepted, leads⟩ => ok_of_leads ahead parses accepted leads⟩
  have faces := Stream.faces_of_holds source.holds_undisturbed
  have onward : Coupling.Onward source source := ⟨[], fun _ _ _ leads => leads⟩
  have follows := traced source source source.undisturbed ⟨onward, faces⟩
  rw [ran] at follows
  obtain ⟨behind, same, ⟨bytes, keeps, leads⟩, _, holds⟩ := follows
  obtain ⟨word, back, split, accepted, settled⟩ := parses'.sound faces same
  -- both the word and the bytes handed out are followed by what is still to come
  have later : back = after.upcoming := settled.2.1.2.symm.trans holds.2.1.2
  rw [later, leads.upcoming keeps] at split
  rw [List.append_cancel_right split] at leads
  exact ⟨word, accepted, leads⟩

end Reading

variable (settings : DecoderSettings)

/-- A value is read from a buffer where one of its encodings leads it on. -/
theorem reads_decodeValue_buffer : Reads (decodeValue settings : Fetch Buffer _)
    (Grammar.Encoding settings.text settings.maxDepth) :=
  reads_buffer (parsesFrom_decodeValue settings)

/-- A value is read from a stream where one of its encodings leads it on. -/
theorem reads_decodeValue_stream : Reads (decodeValue settings : Fetch Stream _)
    (Grammar.Encoding settings.text settings.maxDepth) :=
  reads_stream (fun goal => tracks_decodeValue (Coupling.sound_ahead goal) (.refl _ settings))
    (fun start => tracks_decodeValue (Coupling.sound_traced start) (.refl _ settings))
    (parsesFrom_decodeValue settings) (parsesFrom_decodeValue settings)

/-- A buffer passes over what can be passed over. -/
theorem reads_skipValue_buffer : Reads (skipValue settings : Fetch Buffer _)
    (Grammar.Passable settings.maxDepth) :=
  reads_buffer (parsesFrom_skipValue settings)

/-- A stream passes over what can be passed over. -/
theorem reads_skipValue_stream : Reads (skipValue settings : Fetch Stream _)
    (Grammar.Passable settings.maxDepth) :=
  reads_stream (fun goal => tracks_skipValue (Coupling.sound_ahead goal) (.refl _ settings))
    (fun start => tracks_skipValue (Coupling.sound_traced start) (.refl _ settings))
    (parsesFrom_skipValue settings) (parsesFrom_skipValue settings)

/-- A computation that reads the same words without their values succeeds wherever one that
reads the values does, and leaves the source in the same state. -/
theorem Reads.ok_of_ok {σ α : Type} [Source σ] [Steady σ] {compute : Fetch σ α}
    {pass : Fetch σ Unit} {language : Bytes → α → Prop} {passable : Bytes → Unit → Prop}
    (reads : Reads compute language) (passes : Reads pass passable)
    (wider : ∀ word result, language word result → passable word ()) {source after : σ}
    {result : α} (ran : compute source = .ok result after) : pass source = .ok () after := by
  obtain ⟨word, accepted, leads⟩ := reads.mp ran
  exact passes.mpr ⟨word, wider word result accepted, leads⟩

/-- Wherever a value is read, from a buffer or from a stream over any reader and in any state, it
is passed over from the same state, and the source is left in the same state, also with what its
reader will do later.

Proof: Both computations read languages, in the sense that a success is a word which leads the
source to where it then stands. Every encoding within some levels can be passed over within as
many, so the same word leads the other computation to the same place. -/
theorem skipValue_of_decodeValue :
    (∀ {source after : Buffer} {value : Value}, decodeValue settings source = .ok value after →
      skipValue settings source = .ok () after) ∧
    (∀ {source after : Stream} {value : Value}, decodeValue settings source = .ok value after →
      skipValue settings source = .ok () after) :=
  ⟨(reads_decodeValue_buffer settings).ok_of_ok (reads_skipValue_buffer settings)
      fun _ _ encoding => encoding.passable,
    (reads_decodeValue_stream settings).ok_of_ok (reads_skipValue_stream settings)
      fun _ _ encoding => encoding.passable⟩

/-- An array of a described element without a payload is passed over from a stream that holds its
first byte, and whose reader is interrupted inside of it and fails behind it. The failure is not
met, and is still to come in the state that both leave. -/
theorem skipValue_of_decodeValue_interrupted :
    let failing : Reader := [.stuck ⟨.other, "gone"⟩]
    let source : Stream := ⟨.piece [0x04, 0x01, 0x00] :: .interrupted ::
      .piece [0x44, 0x45] :: failing, some 0xe0, 7⟩
    let after : Stream := ⟨.piece [] :: failing, none, 13⟩
    decodeValue .standard source =
        .ok (.array [.described (.unknown (.code 0) (.list []))]) after ∧
      skipValue .standard source = .ok () after := by
  intro failing source after
  have read : decodeValue .standard source =
      .ok (.array [.described (.unknown (.code 0) (.list []))]) after := by
    rfl
  exact ⟨read, (skipValue_of_decodeValue .standard).2 read⟩

end Decoder

end Amqp
