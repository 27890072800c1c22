import Amqp.Proofs.Decoder.Failures
import Amqp.Proofs.Decoder.Tracking
import Amqp.Proofs.Source.Breaks

/-!
# A failing reader is an input that ends

A reader may fail at any byte of a value: where its constructor is looked at, inside a number or a
payload, or among bytes that are passed over. Whatever has arrived until then is all that a
decoder knows. So it comes to the same as if the input had ended there, a value or a failure,
unless it would have asked for more. There it is told of the reader's failure instead of the end,
and passes it on.

In particular a decoder takes no part of a value for a whole one, and it calls no input malformed
that is merely cut short. This needs of the text hook that it does not itself report an early end.
-/

namespace Amqp

open Coupling (sound_gaps)
open Decoder

namespace Decoder

/-- An early end is reported by the source, unless the text hook reports one. No check that a
decoder makes by itself has this error. -/
theorem refused_of_cause {σ : Type} [Source σ] {settings : DecoderSettings} {facing : σ → Prop}
    {refuses : Error → σ → Prop} {error : Error} {source : σ}
    (cause : Cause settings facing refuses error source) (early : error.isEof = true)
    (honest : ∀ content, settings.text content ≠ .error error) : refuses error source := by
  cases cause with
  | refused refused => exact refused
  | garbled _ refused => exact absurd refused (honest _)
  | mismatched _ mismatched =>
    rw [(Error.eq_false_of_isMismatch mismatched).1] at early
    cases early
  | _ => cases early

end Decoder

/-- Text that is read as UTF-8 is not refused for an early end. -/
theorem TextDecoder.ne_error_of_isEof {text : TextDecoder} (builtIn : text = strict ∨ text = lossy)
    {error : Error} (early : error.isEof = true) (content : Bytes) :
    text content ≠ .error error := by
  intro refused
  obtain ⟨fault, rfl⟩ := exists_fault_of_error builtIn refused
  cases early

/-- A computation that any two coupled streams do alike, and that fails for known causes only. -/
structure Explained (settings : DecoderSettings) {α : Type} (compute : Fetch Stream α) : Prop where
  tracks {coupling : Coupling Stream Stream} (sound : coupling.Sound) :
    coupling.Tracks coupling.facing coupling.settled compute compute
  explains {footing : Footing Stream} (firm : footing.Firm) :
    Explains settings footing footing.facing footing.settled compute

/-- Reading a value is explained. -/
theorem explained_decodeValue (settings : DecoderSettings) :
    Explained settings (decodeValue settings) where
  tracks sound := tracks_decodeValue sound (.refl _ settings)
  explains := explains_decodeValue

/-- Passing over a value is explained. -/
theorem explained_skipValue (settings : DecoderSettings) :
    Explained settings (skipValue settings) where
  tracks sound := tracks_skipValue sound (.refl _ settings)
  explains := explains_skipValue

namespace Explained

variable {settings : DecoderSettings} {α : Type} {compute : Fetch Stream α}
  {bytes : Bytes} {gap : Gap} {ended broken : Reader}

/-- Where the bytes before a gap are too few, a computation is refused at the gap, or it reports
an early end for another reason. The two streams are coupled the other way round here than one
would expect: a result before the gap would have to be one where the input ends as well, and
there is none. -/
theorem exists_error_of_dry (explained : Explained settings compute) (ends : ended.Delivers bytes)
    (breaks : broken.DeliversUpTo gap bytes) {after : Stream}
    (dry : compute (.ofReader ended) = .error .unexpectedEof after) :
    ∃ error behind, compute (.ofReader broken) = .error error behind ∧
      (gap.Reports error ∨ error = .unexpectedEof) := by
  have holds := Stream.holdsUpTo_ofReader breaks
  have holds' := Stream.holdsUpTo_ofReader (Reader.deliversUpTo_end ends)
  -- What the broken input gives without being refused at the gap, the ended one gives as well.
  have follows := explained.tracks (sound_gaps gap ⟨none, []⟩) _ _
    ⟨bytes, 0, holds.2, holds'.2⟩
  rw [dry] at follows
  cases ran : compute (.ofReader broken) with
  | ok result behind =>
    rw [ran] at follows
    obtain ⟨_, ⟨⟩, _⟩ := follows
  | error error behind =>
    rw [ran] at follows
    refine ⟨error, behind, rfl, ?_⟩
    rcases follows with reports | ⟨_, ⟨⟩, _⟩
    · exact .inl reports
    · exact .inr rfl

/-- An early end before a gap is the gap, unless the text hook reports one. -/
theorem refuses_of_isEof (explained : Explained settings compute)
    (breaks : broken.DeliversUpTo gap bytes) {error : Error} {behind : Stream}
    (failed : compute (.ofReader broken) = .error error behind) (early : error.isEof = true)
    (honest : ∀ content, settings.text content ≠ .error error) : gap.Refuses error behind := by
  have cause := explained.explains (Stream.firm_footingUpTo gap) _
    ⟨bytes, 0, (Stream.holdsUpTo_ofReader breaks).2⟩
  rw [failed] at cause
  exact refused_of_cause cause early honest

end Explained

/-- A reader that delivers exactly these bytes, in pieces of any size and interrupted at will, and
then fails, for once or for good. -/
inductive Reader.FailsAfter (bytes : Bytes) (failure : IoFailure) : Reader → Prop
  | once {plain : Reader} (delivers : plain.Delivers bytes) (later : Reader) :
      FailsAfter bytes failure (plain ++ .failed failure :: later)
  | forGood {plain : Reader} (delivers : plain.Delivers bytes) (later : Reader) :
      FailsAfter bytes failure (plain ++ .stuck failure :: later)

/-- A reader that fails has a gap where it does. -/
theorem Reader.FailsAfter.exists_gap {bytes : Bytes} {failure : IoFailure} {reader : Reader}
    (fails : reader.FailsAfter bytes failure) :
    ∃ gap : Gap, gap.failure = failure ∧ reader.DeliversUpTo gap bytes := by
  cases fails with
  | once delivers later => exact ⟨⟨failure, later⟩, rfl, _, _, rfl, delivers, fun _ => rfl⟩
  | forGood delivers later =>
    exact ⟨⟨failure, .stuck failure :: later⟩, rfl, _, _, rfl, delivers, fun _ => rfl⟩

/-- What is read over a failing reader, compared with what is read where the input ends. It is the
same result or the same failure at the same position, unless the end of the input is reported.
Then it is an early end exactly if the reader's failure is of that kind, and that failure itself
if it is of another kind. -/
inductive LikeEnd (failure : IoFailure) {α : Type} :
    EStateM.Result Error Stream α → EStateM.Result Error Stream α → Prop
  | ok {result : α} {after behind : Stream} (level : behind.position = after.position) :
      LikeEnd failure (.ok result after) (.ok result behind)
  | error {error : Error} {after behind : Stream} (settled : error ≠ .unexpectedEof)
      (level : behind.position = after.position) :
      LikeEnd failure (.error error after) (.error error behind)
  | dry {error : Error} {after behind : Stream}
      (early : error.isEof = true ↔ failure.kind = .unexpectedEof)
      (passed : failure.kind ≠ .unexpectedEof → error = .io failure) :
      LikeEnd failure (.error .unexpectedEof after) (.error error behind)

/-- An error that is reported for a reader's failure passes it on. -/
theorem LikeEnd.of_reports {failure : IoFailure} {α : Type} {error : Error} {after behind : Stream}
    (reported : error = .io failure ∨ error = .ofIo failure) :
    LikeEnd failure (.error .unexpectedEof after : EStateM.Result Error Stream α)
      (.error error behind) := by
  rcases reported with rfl | rfl
  · exact .dry (by simp [Error.isEof]) fun _ => rfl
  · exact .dry (Error.isEof_ofIo failure) fun other => if_neg other

/-- An explained computation takes a failing reader for the end of the input. Both inputs are a
gap behind the same bytes, so up to the gap they are read alike. What the ended one reports at
its gap is an early end, and the failing one is then refused at its own gap, for the reader's
failure. -/
theorem Explained.likeEnd {settings : DecoderSettings} {α : Type} {compute : Fetch Stream α}
    (explained : Explained settings compute)
    (honest : ∀ content, settings.text content ≠ .error .unexpectedEof) {bytes : Bytes}
    {failure : IoFailure} {ended failing : Reader} (ends : ended.Delivers bytes)
    (fails : failing.FailsAfter bytes failure) :
    LikeEnd failure (compute (.ofReader ended)) (compute (.ofReader failing)) := by
  obtain ⟨gap, same, breaks⟩ := fails.exists_gap
  have reported {error : Error} (reports : gap.Reports error) :
      error = .io failure ∨ error = .ofIo failure := by
    rwa [Gap.Reports, same] at reports
  have follows := explained.tracks (sound_gaps ⟨none, []⟩ gap) _ _ ⟨bytes, 0,
    (Stream.holdsUpTo_ofReader (Reader.deliversUpTo_end ends)).2,
    (Stream.holdsUpTo_ofReader breaks).2⟩
  cases ran : compute (.ofReader ended) with
  | ok result after =>
    rw [ran] at follows
    obtain ⟨behind, same, settled⟩ := follows
    obtain ⟨_, _, ⟨_, _, _, _, counted⟩, _, _, _, _, counted'⟩ := settled
    rw [same]
    exact .ok (counted'.trans counted.symm)
  | error error after =>
    rw [ran] at follows
    by_cases dry : error = .unexpectedEof
    · subst dry
      obtain ⟨error, behind, failed, reports | rfl⟩ := explained.exists_error_of_dry ends breaks ran
      · rw [failed]
        exact .of_reports (reported reports)
      · rw [failed]
        exact .of_reports (reported (explained.refuses_of_isEof breaks failed rfl honest).1)
    · obtain ⟨behind, same, level⟩ := follows.resolve_left dry
      rw [same]
      exact .error dry level.symm

/-- A reader that fails behind some bytes acts like the end of the input there: what is read or
passed over of a value is the same, and where the input would end too early, it is the failure of
the reader that is reported. It does not matter where the bytes are cut into pieces, or if the
reader fails once or from then on. The premise on text excludes hooks that report an early end
themselves; without it such a report could not be told from that of the input.

Proof: Two streams with the same bytes before a gap are coupled until the left one is refused at
its gap, and reading and passing over are computations that every coupling tracks. That they fail
for known causes only is what says of an early end that the gap has caused it. -/
theorem failing_reader_like_end (settings : DecoderSettings)
    (honest : ∀ content, settings.text content ≠ .error .unexpectedEof) {bytes : Bytes}
    {failure : IoFailure} {ended failing : Reader} (ends : ended.Delivers bytes)
    (fails : failing.FailsAfter bytes failure) :
    LikeEnd failure (decodeValue settings (.ofReader ended))
      (decodeValue settings (.ofReader failing)) ∧
    LikeEnd failure (skipValue settings (.ofReader ended))
      (skipValue settings (.ofReader failing)) :=
  ⟨(explained_decodeValue settings).likeEnd honest ends fails,
    (explained_skipValue settings).likeEnd honest ends fails⟩

/-- A string of three bytes of which one arrives, in the second of two pieces. Where the input
ends this is an early end, and where the reader has nothing to give yet, that is reported. -/
theorem failing_reader_like_end_in_string : ∃ after behind : Stream,
    decodeValue .standard (.ofReader [.piece [0xa1], .piece [0x03, 0x61]]) =
      .error .unexpectedEof after ∧
    decodeValue .standard (.ofReader ([.piece [0xa1], .piece [0x03, 0x61]] ++
      .failed ⟨.wouldBlock, "not yet"⟩ :: [])) = .error (.io ⟨.wouldBlock, "not yet"⟩) behind ∧
    LikeEnd ⟨.wouldBlock, "not yet"⟩ (.error .unexpectedEof after : EStateM.Result _ _ Value)
      (.error (.io ⟨.wouldBlock, "not yet"⟩) behind) := by
  have delivers : Reader.Delivers [.piece [0xa1], .piece [0x03, 0x61]] [0xa1, 0x03, 0x61] :=
    ⟨by simp [Reader.Plain], rfl⟩
  exact ⟨_, _, rfl, rfl, (failing_reader_like_end .standard
    (TextDecoder.ne_error_of_isEof (.inl rfl) rfl) delivers (.once delivers [])).1⟩

end Amqp
