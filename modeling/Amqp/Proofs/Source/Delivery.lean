import Amqp.Proofs.Source.Coupling

/-!
# Streams over any reader

A reader may fail at any point of its script, for once or for good, and it may say that the
input has ended before more of it arrives. Whatever it does, a request that succeeds hands out
the first of the bytes that are still to come. So a stream over any reader, wherever it
stands, is put beside a stream over a reader that delivers the same bytes without a failure:
as long as the requests of the first one succeed, those of the second give the same.
-/

namespace Amqp

open Source (Lawful)

namespace Stream

/-- The bytes that a stream can still hand out: the one it has looked at, and those that its
reader has not delivered. -/
def upcoming (stream : Stream) : Bytes :=
  stream.peeked.toList ++ stream.reader.undelivered

/-- The reader that delivers the bytes a stream can still hand out, in one piece. -/
def undisturbed (stream : Stream) : Stream :=
  ⟨[.piece stream.upcoming], none, stream.position⟩

/-- An undisturbed stream holds what the stream can still hand out. -/
theorem holds_undisturbed (stream : Stream) :
    stream.undisturbed.Holds stream.upcoming stream.position := by
  refine ⟨rfl, ⟨?_, by simp [undisturbed, Reader.undelivered]⟩, rfl⟩
  intro event member
  exact .inr ⟨_, List.mem_singleton.mp member⟩

/-- What a stream draws is the first of the bytes to come, unless it wants none and lets the
byte go that it has looked at. -/
theorem draw_append_undelivered {stream : Stream} {wanted : Nat}
    (keeps : stream.peeked = none ∨ 0 < wanted) :
    (stream.draw wanted).bytes ++ (stream.draw wanted).after.undelivered = stream.upcoming := by
  obtain ⟨reader, peeked, position⟩ := stream
  cases wanted with
  | zero =>
    obtain rfl : peeked = none := keeps.resolve_right (Nat.lt_irrefl 0)
    exact Reader.undelivered_pull 0 reader
  | succ wanted =>
    cases peeked with
    | none => exact Reader.undelivered_pull (wanted + 1) reader
    | some byte => exact congrArg (byte :: ·) (Reader.undelivered_pull wanted reader)

/-- A request that, where it succeeds, counts and hands out as many bytes as it was asked for,
the first of those to come. -/
def HandsOut {shape : Nat → Type} (request : (length : Nat) → Fetch Stream (shape length))
    (given : (front : Bytes) → shape front.length) : Prop :=
  ∀ ⦃length : Nat⦄ ⦃stream after : Stream⦄ ⦃result : shape length⦄,
    request length stream = .ok result after → (stream.peeked = none ∨ 0 < length) →
      ∃ (front : Bytes) (full : front.length = length), result = full ▸ given front ∧
        stream.upcoming = front ++ after.upcoming ∧ after.peeked = none ∧
        after.position = stream.position + length

/-- A request that sees what it draws hands out the first of the bytes to come. What is drawn
comes off the front of them, and of the three ends of a drawing only that of a request in full is
a success. -/
theorem Asks.handsOut {shape : Nat → Type}
    {request : (length : Nat) → Fetch Stream (shape length)}
    {given : (front : Bytes) → shape front.length} {counted : Nat → Nat}
    (asks : Asks request given counted) : HandsOut request given := by
  intro length stream after result ran keeps
  have split := draw_append_undelivered keeps
  rcases stream.cases_draw length with ⟨front, left, rfl, drawn⟩ | ⟨bytes, left, few, drawn⟩ |
    ⟨bytes, failure, left, drawn⟩
  · rw [asks.met drawn] at ran
    rw [drawn] at split
    cases ran
    exact ⟨front, rfl, rfl, split.symm, rfl, rfl⟩
  · rw [asks.ended few drawn] at ran
    cases ran
  · rw [asks.failed drawn] at ran
    cases ran

/-- Looking at the next byte keeps the bytes to come in place, and holds the byte it shows. A
byte that has just arrived moves from the reader into the stream, where it is still the first to
come. -/
theorem upcoming_peek {stream after : Stream} {shown : Option UInt8}
    (ran : peek stream = .ok shown after) :
    after.upcoming = stream.upcoming ∧ after.position = stream.position ∧
      after.peeked = shown := by
  have peeks := stream.peeks
  have split := Reader.undelivered_pull 1 stream.reader
  rw [ran] at peeks
  cases peeks with
  | held held => exact ⟨rfl, rfl, held⟩
  | arrived nothing pulled =>
    rw [pulled] at split
    exact ⟨by rw [upcoming, upcoming, nothing, ← split]; rfl, rfl, rfl⟩
  | ended nothing pulled =>
    rw [pulled] at split
    exact ⟨by rw [upcoming, upcoming, nothing, ← split]; rfl, rfl, rfl⟩

end Stream

namespace Coupling

/-- A stream over any reader, beside one whose reader delivers the same bytes. Every failure of
the first one is excused. -/
def disturbed : Coupling Stream Stream where
  settled source target := source.peeked = none ∧ target.Holds source.upcoming source.position
  facing source target := target.Faces source.upcoming source.position
  failed _ _ := True
  excused _ := True

/-- Requests that hand out the first bytes to come are tracked by a stream that has them. Every
failure of the left request is excused, and where it succeeds, the bytes that it handed out show
that there were enough. -/
theorem tracks_disturbed {shape : Nat → Type}
    {request : (length : Nat) → Fetch Stream (shape length)}
    {given : (front : Bytes) → shape front.length} (handsOut : Stream.HandsOut request given)
    (answers : Lawful.Answers request given) (length : Nat) :
    disturbed.Tracks disturbed.settled disturbed.settled (request length) (request length) := by
  rintro source target ⟨nothing, holds⟩
  cases ran : request length source with
  | error error after => exact .inl trivial
  | ok result after =>
    obtain ⟨front, rfl, rfl, split, settled, position⟩ := handsOut ran (.inl nothing)
    rw [split] at holds
    obtain ⟨behind, same, holds⟩ := answers.settled holds
    exact ⟨behind, same, settled, position ▸ holds⟩

/-- A stream over any reader answers as one does whose reader delivers the same bytes, as long as
it succeeds. Nothing is assumed of the reader, not even that an end of the input lasts: what it
does where it does not deliver is only seen by requests that fail. -/
theorem sound_disturbed : disturbed.Sound where
  facing_of_settled related := Stream.faces_of_holds related.2
  failed_of_facing _ := trivial
  position_eq {source target} faces := (Lawful.position_eq (σ := Stream) faces).symm
  next {source target} faces := by
    cases ran : Source.peek source with
    | error error after => exact .inl ⟨error, after, rfl, .inl trivial⟩
    | ok shown after =>
      cases shown with
      | none => exact .inr (.inl ⟨after, rfl, .inl trivial⟩)
      | some byte =>
        obtain ⟨same, position, held⟩ := Stream.upcoming_peek ran
        have head : source.upcoming = byte :: after.reader.undelivered := by
          rw [← same, Stream.upcoming, held]
          rfl
        obtain ⟨behind, shown, faces⟩ := Lawful.peek_facing (σ := Stream) faces
        rw [head] at shown
        refine .inr (.inr ⟨byte, after, behind, rfl, shown, ?_, ?_⟩)
        · change behind.Faces after.upcoming after.position
          rwa [same, position]
        · cases skipped : Source.skip 1 after with
          | error error last => exact .inl trivial
          | ok result last =>
            obtain ⟨front, full, _, split, settled, counted⟩ :=
              Stream.asks_skip.handsOut skipped (.inr Nat.one_pos)
            obtain ⟨first, rfl⟩ := List.length_eq_one_iff.mp full
            rw [← same, split] at faces
            obtain ⟨last', skipped', holds⟩ := Lawful.skip_facing (σ := Stream) faces
            refine ⟨last', skipped', settled, ?_⟩
            rw [counted, position]
            exact holds
  read := tracks_disturbed Stream.asks_read.handsOut Lawful.answers_read
  take := tracks_disturbed Stream.asks_take.handsOut Lawful.answers_take
  skip := tracks_disturbed Stream.asks_skip.handsOut Lawful.answers_skip
  ensures _ _ target related := ⟨target, rfl, related⟩

end Coupling

end Amqp
