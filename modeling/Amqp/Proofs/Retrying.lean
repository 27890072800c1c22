import Amqp.Proofs.BrokenInput
import Amqp.Proofs.Canonical.Shortest
import Amqp.Proofs.Decoder.MoreInput
import Amqp.Proofs.Decoder.Offset

/-!
# Reading again after an early end

A stream that runs dry inside a value reports an early end, and more bytes may arrive later. A
stream keeps no bytes but the one it looks at, so what had arrived of the value is gone by then,
its constructor first of all. Reading again on the same stream does not go on with the value. It
takes the bytes that arrive later for a value of their own.

So reading again helps where the input ended in front of the value, when nothing had been taken of
it. Where it ended inside, the bytes that are left are read as whatever they are: as another
value, as malformed input, or as another early end. They give the same value only if they begin
with an encoding of it themselves, which is then shorter than the broken one. A value that is
encoded as short as possible is never got back.
-/

namespace Amqp

open Decoder
open Grammar (Encoding)
open Source (Lawful)

/-- An event by which a reader says once that the input has ended. -/
def ReaderEvent.SaysEnd : ReaderEvent → Prop
  | .ended => True
  | .failed failure => failure.kind = .unexpectedEof
  | _ => False

/-- Where a reader says that the input has ended there is a gap, with later bytes behind it, and
it is reported as an early end. A reader may say so by handing out nothing or by a failure of
that kind, and a decoder cannot tell the two apart. -/
theorem exists_gap_of_saysEnd {before : Reader} {front : Bytes} {event : ReaderEvent}
    (delivers : before.Delivers front) (ends : event.SaysEnd) (later : Reader) :
    ∃ gap : Gap, gap.after = later ∧ (before ++ event :: later).DeliversUpTo gap front ∧
      ∀ error, gap.Reports error → error.isEof = true := by
  cases event with
  | ended =>
    refine ⟨⟨none, later⟩, rfl, ⟨before, _, rfl, delivers, fun _ => rfl⟩, ?_⟩
    rintro error rfl
    rfl
  | failed failure =>
    refine ⟨⟨failure, later⟩, rfl, ⟨before, _, rfl, delivers, fun _ => rfl⟩, ?_⟩
    rintro error (rfl | rfl)
    · exact decide_eq_true ends
    · exact (Error.isEof_ofIo failure).mpr ends
  | piece | interrupted | stuck => exact ends.elim

/-- A stream that comes to a gap before the first byte of a value stays at its position. -/
theorem exists_decodeValue_of_nil {settings : DecoderSettings} {stream : Stream} {gap : Gap}
    {taken : Nat} (faces : stream.FacesUpTo gap [] taken) :
    ∃ error, decodeValue settings stream = .error error ⟨gap.after, none, taken⟩ := by
  obtain ⟨error, refused⟩ :
      ∃ error, (peekCode : Fetch Stream _) stream = .error error ⟨gap.after, none, taken⟩ := by
    rcases Stream.peek_upTo_of_nil faces with ⟨error, ran, _⟩ | ⟨ran, _⟩
    · exact ⟨error, bind_of_error ran⟩
    · exact ⟨.unexpectedEof, (bind_of_ok ran).trans rfl⟩
  exact ⟨error, bind_of_error (bind_of_error refused)⟩

/-- A value is read from a source with an encoding of it to come, up to its end. -/
theorem exists_decodeValue_of_encoding {σ : Type} [Source σ] [Lawful σ]
    {settings : DecoderSettings} {source : σ} {bytes : Bytes} {taken : Nat} {value : Value}
    (faces : Lawful.Facing source bytes taken)
    (encoding : Encoding settings.text settings.maxDepth bytes value) :
    ∃ after, decodeValue settings source = .ok value after ∧
      Source.position after = taken + bytes.length := by
  rw [← List.append_nil bytes] at faces
  obtain ⟨after, ran, settled⟩ := (parsesFrom_decodeValue settings).complete faces encoding
  exact ⟨after, ran, Lawful.position_eq (Lawful.facing settled)⟩

/-- What a value is read as does not depend on how many bytes a stream has handed out before. -/
theorem concur_decodeValue (settings : DecoderSettings) {source source' : Stream} {rest : Bytes}
    {start start' : Nat} (holds : source.Holds rest start) (holds' : source'.Holds rest start') :
    Concur start start' (decodeValue settings source) (decodeValue settings source') := by
  have sound := @Coupling.sound_level Stream _ _ start' start
  exact concur_of_tracks (unmoved_decodeValue settings) (unmoved_decodeValue settings)
    ((tracks_decodeValue sound (.refl _ settings)).imp (fun _ _ => sound.facing_of_settled)
      fun _ _ => id) holds holds'

/-- What reading again comes to on a stream on which a value has been broken off. -/
structure StartsOver (settings : DecoderSettings) (front back : Bytes) (value : Value)
    (broken : Stream) : Prop where
  /-- The bytes behind the gap are read as they would be if they were all of the input. -/
  again {fresh : Reader} : fresh.Delivers back →
    Concur broken.position 0 (decodeValue settings broken) (decodeValue settings (.ofReader fresh))
  /-- If none of its bytes had arrived, the value is read, up to its end. -/
  untouched : front = [] → ∃ after, decodeValue settings broken = .ok value after ∧
    after.position = (front ++ back).length
  /-- If some had, the value is only read where there is a shorter encoding of it. -/
  lost : front ≠ [] → ∀ after, decodeValue settings broken = .ok value after →
    ∃ shorter, Encoding settings.text settings.maxDepth shorter value ∧
      shorter.length < (front ++ back).length

/-- A stream that holds the bytes behind the gap starts over with them. That the value cannot be
had from them unless they encode it themselves is read off the grammar: whatever is read is
encoded in some of the bytes behind the gap, and these are fewer than all. -/
theorem startsOver_of_holds {settings : DecoderSettings} {front back : Bytes} {value : Value}
    {broken : Stream} (holds : broken.Holds back broken.position)
    (encoding : Encoding settings.text settings.maxDepth (front ++ back) value)
    (unmoved : front = [] → broken.position = 0) :
    StartsOver settings front back value broken where
  again delivers := concur_decodeValue settings holds (Stream.holds_ofReader delivers)
  untouched := by
    rintro rfl
    rw [unmoved rfl] at holds
    obtain ⟨after, ran, position⟩ :=
      exists_decodeValue_of_encoding (Lawful.facing (σ := Stream) holds) encoding
    exact ⟨after, ran, position.trans (Nat.zero_add _)⟩
  lost some after ran := by
    obtain ⟨shorter, rest, rfl, encoding, _⟩ :=
      (parsesFrom_decodeValue settings).sound (Lawful.facing holds) ran
    have positive := List.length_pos_iff.mpr some
    refine ⟨shorter, encoding, ?_⟩
    rw [List.length_append, List.length_append]
    omega

/-- A stream that runs dry inside a value, or in front of it, reports an early end. Reading again
on it when the other bytes have arrived starts over with those, wherever the value breaks off and
in whatever pieces its bytes come. The premise on text is that the hook does not report an early
end of its own, which would be taken for that of the input.

Proof: The value is read from all of its bytes, so from the first of them alone a reading that
ended for good would come to an early end. The stream with a gap answers as that one until it is
refused, and it is refused for what the gap reports. A refusal at a gap keeps no byte and leaves
the reader behind the gap, so what is read next are the bytes that arrive later and no others. -/
theorem reading_starts_over {settings : DecoderSettings}
    (honest : ∀ error, error.isEof = true → ∀ content, settings.text content ≠ .error error)
    {front back : Bytes} {value : Value} (whole : ReadWhole settings (front ++ back) value)
    (unfinished : back ≠ []) {before later : Reader} {event : ReaderEvent}
    (delivers : before.Delivers front) (ends : event.SaysEnd) (resumes : later.Delivers back) :
    ∃ error broken, decodeValue settings (.ofReader (before ++ event :: later)) =
        .error error broken ∧
      error.isEof = true ∧ StartsOver settings front back value broken := by
  have encoding := whole.encoding
  -- On all of the bytes the value is read, so on the first of them alone the input is too short.
  have delivers' : Reader.Delivers [.piece (front ++ back)] (front ++ back) :=
    ⟨by simp [Reader.Plain], by simp [Reader.undelivered]⟩
  obtain ⟨after, ran, position⟩ := exists_decodeValue_of_encoding
    (Lawful.facing (σ := Stream) (Stream.holds_ofReader delivers')) encoding
  have settles : Settles (decodeValue settings) front back :=
    settles_of_tracks (fun sound => tracks_decodeValue sound (.refl _ settings)) front back
  obtain ⟨_, _, dry, rfl⟩ := settles.cutStream delivers delivers' unfinished value after ran
    (position.trans (Nat.zero_add _))
  obtain ⟨gap, rfl, breaks, early⟩ := exists_gap_of_saysEnd delivers ends later
  have explained := explained_decodeValue settings
  obtain ⟨error, broken, failed, reported⟩ := explained.exists_error_of_dry delivers breaks dry
  have isEof : error.isEof = true := by
    rcases reported with reports | rfl
    · exact early error reports
    · rfl
  obtain ⟨_, nothing, behind⟩ := explained.refuses_of_isEof breaks failed isEof (honest error isEof)
  refine ⟨error, broken, failed, isEof, startsOver_of_holds ⟨nothing, behind ▸ resumes, rfl⟩
    encoding ?_⟩
  rintro rfl
  obtain ⟨_, failed'⟩ :=
    @exists_decodeValue_of_nil settings _ _ _ (Stream.holdsUpTo_ofReader breaks).2
  rw [failed'] at failed
  cases failed
  rfl

/-- A number that breaks off behind its constructor. The byte that arrives later is the
constructor of another value, and this is what is read when reading starts over, at the same
position and without any failure that would tell. -/
theorem reading_starts_over_behind_constructor : ∃ error broken,
    ReadWhole .standard [0x52, 0x41] (.uint 65) ∧
    decodeValue .standard (.ofReader ([.piece [0x52]] ++ .ended :: [.piece [0x41]])) =
      .error error broken ∧
    error.isEof = true ∧ StartsOver .standard [0x52] [0x41] (.uint 65) broken := by
  have ran : decodeValue .standard (Buffer.ofBytes [0x52, 0x41]) =
    .ok (.uint 65) ⟨[], 2, 0, rfl⟩ := rfl
  have whole : ReadWhole .standard ([0x52] ++ [0x41]) (.uint 65) := .fromBuffer ran rfl
  have delivers : Reader.Delivers [.piece [0x52]] [0x52] := ⟨by simp [Reader.Plain], rfl⟩
  have ends : ReaderEvent.SaysEnd .ended := trivial
  have resumes : Reader.Delivers [.piece [0x41]] [0x41] := ⟨by simp [Reader.Plain], rfl⟩
  obtain ⟨error, broken, failed, early, startsOver⟩ := reading_starts_over
    (fun _ early => TextDecoder.ne_error_of_isEof (.inl rfl) early) whole (List.cons_ne_nil _ _)
    delivers ends resumes
  exact ⟨error, broken, whole, failed, early, startsOver⟩

/-- Reading again may give another value, without any failure and at the position where the broken
one would have ended. -/
theorem decodeValue_again_ne : ∃ after broken after' : Stream,
    decodeValue .standard (.ofReader [.piece [0x52], .piece [0x41]]) = .ok (.uint 65) after ∧
    decodeValue .standard (.ofReader [.piece [0x52], .ended, .piece [0x41]]) =
      .error .unexpectedEof broken ∧
    decodeValue .standard broken = .ok (.boolean true) after' ∧ after'.position = after.position :=
  ⟨_, _, _, rfl, rfl, rfl, rfl⟩

end Amqp
