import Amqp.Proofs.Decoder.Tracking

/-!
# More input

A caller that reads from a connection has some of the bytes and may get more. What a decoder
made of the bytes so far is settled: a success stays the same success, and a failure stays the
same failure unless it says that bytes are missing. Bytes are missing where the input ends
inside a value, and on a source that knows its end also where a length reaches beyond it.

The proof puts a source beside one of the same type with more bytes behind the same ones. The
two are coupled while the first one has what is asked for, and where it has not, its failure
is excused. So a value that takes all of the longer input is never read from the shorter one.
-/

namespace Amqp

open Source (Lawful)
open Source.Lawful (Facing Settled)
open Decoder (decodeValue skipValue)

namespace Coupling

variable {σ : Type} [Source σ] [Lawful σ]

/-- A source of so many bytes in all, beside one that has more bytes behind them. Where bytes
are missing, the failure of the first one is excused. -/
def lengthened (total : Nat) (suffix : Bytes) (missing : Error → Prop) : Coupling σ σ where
  settled source longer := ∃ rest taken, taken + rest.length = total ∧
    Settled source rest taken ∧ Settled longer (rest ++ suffix) taken
  facing source longer := ∃ rest taken, taken + rest.length = total ∧
    Facing source rest taken ∧ Facing longer (rest ++ suffix) taken
  failed _ _ := True
  excused := missing

variable {total : Nat} {suffix : Bytes} {missing : Error → Prop}

/-- Requests that give the first bytes and report an end where there are too few track themselves
on a longer source. The end is excused. Nothing is said of a request that only the longer source
can meet: the shorter one has failed there. -/
theorem tracks_lengthened {shape : Nat → Type} {request : (length : Nat) → Fetch σ (shape length)}
    {given : (front : Bytes) → shape front.length} (answers : Lawful.Answers request given)
    (ended : missing .unexpectedEof) (length : Nat) :
    (lengthened total suffix missing).Tracks (lengthened total suffix missing).settled
      (lengthened total suffix missing).settled (request length) (request length) := by
  rintro source longer ⟨rest, taken, whole, settled, settled'⟩
  rcases Nat.lt_or_ge rest.length length with few | many
  · obtain ⟨_, _, _, fails⟩ := answers.short few
    obtain ⟨after, ran, _⟩ := fails source settled
    rw [ran]
    exact .inl ended
  · obtain ⟨front, back, rfl, rfl⟩ := Bytes.exists_append_of_le many
    rw [List.append_assoc] at settled'
    obtain ⟨after, ran, left⟩ := answers.settled settled
    obtain ⟨behind, ran', left'⟩ := answers.settled settled'
    rw [ran, ran']
    rw [List.length_append] at whole
    exact ⟨behind, rfl, back, taken + front.length, by omega, left, left'⟩

/-- The check of a declared length tracks itself on a longer source, if its refusal counts as
missing bytes wherever it can arise. On a source that does not know its end it never arises, and
on one that does it may be made on the shorter source only. -/
theorem tracks_ensureAvailable_lengthened
    (early : ∀ (source : σ) (left declared : Nat), Source.remaining source = some left →
      missing (.lengthExceedsRemaining declared left)) (declared : Nat) :
    (lengthened total suffix missing).Tracks (lengthened total suffix missing).settled
      (lengthened total suffix missing).settled (Decoder.ensureAvailable declared : Fetch σ Unit)
      (Decoder.ensureAvailable declared) := by
  rintro source longer ⟨rest, taken, whole, settled, settled'⟩
  rcases Nat.lt_or_ge rest.length declared with few | many
  · have both := Lawful.known_iff source longer
    rw [Decoder.ensureAvailable_eq, Decoder.ensureAvailable_eq]
    cases known : Source.remaining source with
    | none =>
      rw [known, Option.isSome_none] at both
      rw [Option.isSome_eq_false_iff.mp both.symm |> Option.isNone_iff_eq_none.mp]
      exact ⟨longer, rfl, rest, taken, whole, settled, settled'⟩
    | some left =>
      obtain rfl := Lawful.remaining_eq settled known
      simp only [if_pos few]
      exact .inl (early source _ declared known)
  · have enough : declared ≤ (rest ++ suffix).length := by
      rw [List.length_append]
      omega
    rw [Decoder.ensureAvailable_of_le settled many, Decoder.ensureAvailable_of_le settled' enough]
    exact ⟨longer, rfl, rest, taken, whole, settled, settled'⟩

/-- A source answers every request as a longer one does, as long as it has the bytes. The number
of bytes of the shorter source is fixed in the coupling, so that what is taken and what is left
always add up to it. -/
theorem sound_lengthened (ended : missing .unexpectedEof)
    (early : ∀ (source : σ) (left declared : Nat), Source.remaining source = some left →
      missing (.lengthExceedsRemaining declared left)) :
    (lengthened total suffix missing : Coupling σ σ).Sound where
  facing_of_settled := by
    rintro source longer ⟨rest, taken, whole, settled, settled'⟩
    exact ⟨rest, taken, whole, Lawful.facing settled, Lawful.facing settled'⟩
  failed_of_facing _ := trivial
  position_eq := by
    rintro source longer ⟨rest, taken, whole, faces, faces'⟩
    rw [Lawful.position_eq faces, Lawful.position_eq faces']
  next := by
    rintro source longer ⟨rest, taken, whole, faces, faces'⟩
    obtain ⟨after, shown, faces⟩ := Lawful.peek_facing faces
    obtain ⟨behind, shown', faces'⟩ := Lawful.peek_facing faces'
    cases rest with
    | nil => exact .inr (.inl ⟨after, shown, .inl ended⟩)
    | cons byte rest =>
      obtain ⟨last, skipped, settled⟩ := Lawful.skip_facing faces
      obtain ⟨last', skipped', settled'⟩ := Lawful.skip_facing faces'
      refine .inr (.inr ⟨byte, after, behind, shown, shown', ⟨_, taken, whole, faces, faces'⟩, ?_⟩)
      rw [skipped, skipped']
      rw [List.length_cons] at whole
      exact ⟨last', rfl, rest, taken + 1, by omega, settled, settled'⟩
  read := tracks_lengthened Lawful.answers_read ended
  take := tracks_lengthened Lawful.answers_take ended
  skip := tracks_lengthened Lawful.answers_skip ended
  ensures := tracks_ensureAvailable_lengthened early

end Coupling

section Answers

variable {σ α : Type} [Source σ]

/-- What a computation comes to on some bytes is what it comes to on more: a success gives the
same result and has taken as many bytes, and a failure that does not say that bytes are missing
is the same failure. -/
def Lasts (missing : Error → Prop) (shorter longer : EStateM.Result Error σ α) : Prop :=
  match shorter with
  | .ok answer after => ∃ behind, longer = .ok answer behind ∧
    Source.position behind = Source.position after
  | .error error _ => missing error ∨ ∃ behind, longer = .error error behind

/-- A computation that succeeds only with all of so many bytes on the longer input fails on the
shorter one, because bytes are missing. -/
def CutShort (missing : Error → Prop) (total : Nat)
    (shorter longer : EStateM.Result Error σ α) : Prop :=
  ∀ answer after, longer = .ok answer after → Source.position after = total →
    ∃ error behind, shorter = .error error behind ∧ missing error

variable [Lawful σ]

/-- A computation that tracks itself on a longer source comes to the same on it, and takes all of
the longer input only where the shorter one cuts it short. The second half is the first one read
backwards: a success on the shorter input stops within it, on both. -/
theorem lasts_of_tracks {missing : Error → Prop} {bytes suffix : Bytes} {compute : Fetch σ α}
    (tracks : (Coupling.lengthened bytes.length suffix missing).Tracks
      (Coupling.lengthened bytes.length suffix missing).facing
      (Coupling.lengthened bytes.length suffix missing).settled compute compute)
    {source longer : σ} (faces : Facing source bytes 0)
    (faces' : Facing longer (bytes ++ suffix) 0) :
    Lasts missing (compute source) (compute longer) ∧
      (suffix ≠ [] → CutShort missing (bytes ++ suffix).length (compute source)
        (compute longer)) := by
  have follows := tracks source longer ⟨bytes, 0, Nat.zero_add _, faces, faces'⟩
  cases ran : compute source with
  | ok answer after =>
    rw [ran] at follows
    obtain ⟨behind, same, rest, taken, whole, settled, settled'⟩ := follows
    have position := Lawful.position_eq (Lawful.facing settled)
    have position' := Lawful.position_eq (Lawful.facing settled')
    refine ⟨⟨behind, same, by rw [position, position']⟩, fun more answer' after' ran' all => ?_⟩
    -- The longer run stops where the shorter one does, so bytes are left behind it.
    rw [same] at ran'
    cases ran'
    have positive := List.length_pos_iff.mpr more
    rw [position', List.length_append] at all
    omega
  | error error after =>
    rw [ran] at follows
    rcases follows with lacking | ⟨behind, same, _⟩
    · exact ⟨.inl lacking, fun _ _ _ _ _ => ⟨error, after, rfl, lacking⟩⟩
    · refine ⟨.inr ⟨behind, same⟩, fun _ answer after' ran' _ => ?_⟩
      rw [same] at ran'
      cases ran'

end Answers

/-- The failures of a buffer that say that bytes are missing. -/
def LacksBytes (error : Error) : Prop := error = .unexpectedEof ∨ Coupling.IsEarly error

/-- More input does not change what a computation has settled, neither on a buffer over the
bytes nor on streams whose readers deliver them in pieces of any size; and if it takes all of
the longer input, then it waits for the rest of it on the shorter one. -/
structure Settles {α : Type} (compute : {σ : Type} → [Source σ] → Fetch σ α)
    (bytes suffix : Bytes) : Prop where
  onBuffer : Lasts LacksBytes (compute (Buffer.ofBytes bytes))
    (compute (Buffer.ofBytes (bytes ++ suffix)))
  onStream {reader longer : Reader} : reader.Delivers bytes → longer.Delivers (bytes ++ suffix) →
    Lasts (· = .unexpectedEof) (compute (Stream.ofReader reader))
      (compute (Stream.ofReader longer))
  cutBuffer : suffix ≠ [] → CutShort LacksBytes (bytes ++ suffix).length
    (compute (Buffer.ofBytes bytes)) (compute (Buffer.ofBytes (bytes ++ suffix)))
  cutStream {reader longer : Reader} : reader.Delivers bytes → longer.Delivers (bytes ++ suffix) →
    suffix ≠ [] → CutShort (· = .unexpectedEof) (bytes ++ suffix).length
      (compute (Stream.ofReader reader)) (compute (Stream.ofReader longer))

/-- A computation that tracks itself on all sound couplings of sources of one type settles. The
couplings are the same for buffers and streams but for what counts as missing bytes: a stream
only reports that the input has ended, and a buffer may also tell that a length reaches beyond
its end. -/
theorem settles_of_tracks {α : Type} {compute : {σ : Type} → [Source σ] → Fetch σ α}
    (tracks : ∀ {σ : Type} [Source σ] [Lawful σ] {coupling : Coupling σ σ}, coupling.Sound →
      coupling.Tracks coupling.facing coupling.settled compute compute)
    (bytes suffix : Bytes) : Settles compute bytes suffix := by
  have onBuffer : (Coupling.lengthened bytes.length suffix LacksBytes : Coupling Buffer _).Sound :=
    Coupling.sound_lengthened (.inl rfl) fun _ left declared _ => .inr ⟨declared, left, rfl⟩
  have onStream : (Coupling.lengthened bytes.length suffix (· = .unexpectedEof) :
      Coupling Stream _).Sound :=
    Coupling.sound_lengthened rfl fun _ _ _ known => by cases known
  have buffer := lasts_of_tracks (tracks onBuffer) (Buffer.holds_ofBytes bytes)
    (Buffer.holds_ofBytes (bytes ++ suffix))
  have stream {reader longer : Reader} (delivers : reader.Delivers bytes)
      (delivers' : longer.Delivers (bytes ++ suffix)) :=
    lasts_of_tracks (tracks onStream) (Stream.faces_of_holds (Stream.holds_ofReader delivers))
      (Stream.faces_of_holds (Stream.holds_ofReader delivers'))
  exact ⟨buffer.1, fun delivers delivers' => (stream delivers delivers').1, buffer.2,
    fun delivers delivers' => (stream delivers delivers').2⟩

/-- More input never changes a settled answer, whether a value is read or passed over. A success
stays the same success at the same position, a failure stays the same failure unless it says that
bytes are missing, and an operation that takes all of the longer input reports on every shorter
one that bytes are missing.

Proof: A source is coupled with one of its type that has more bytes behind the same ones, and the
failures for missing bytes are excused. Both operations track themselves under every coupling, so
what is left is to read the three parts off one run of each. -/
theorem settles_decodeValue_skipValue (settings : DecoderSettings) (bytes suffix : Bytes) :
    Settles (decodeValue settings) bytes suffix ∧ Settles (skipValue settings) bytes suffix := by
  constructor
  · exact settles_of_tracks (fun sound => Decoder.tracks_decodeValue sound (.refl _ settings))
      bytes suffix
  · exact settles_of_tracks (fun sound => Decoder.tracks_skipValue sound (.refl _ settings))
      bytes suffix

end Amqp
