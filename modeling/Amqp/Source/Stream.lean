import Amqp.Source
import Amqp.Source.Reader

/-!
# Bytes that arrive from a reader

A stream keeps at most one byte that it has looked at. Every other request takes that
byte first and asks the reader for the rest, and lets the byte go even when it wants
none. The reader's failure is an early end if its kind says so; while merely looking
at the next byte, a failure is reported as it is.

A request for exactly so many bytes that is cut short leaves the position where it
was, although the bytes it got are gone. A payload or a passage that is cut short by
the end of the input counts as taken in full, and is refused all the same.

The three kinds of request differ in the shape of what they give and in what they count
where the input ends. `Asks` says all that they have in common, `Peeks` what a look at the
next byte comes to.
-/

namespace Amqp

/-- A reader, the byte looked at, and the number of bytes counted as taken. -/
@[ext] structure Stream where
  reader : Reader
  peeked : Option UInt8
  position : Nat

namespace Stream

/-- A stream over a reader, at its beginning. -/
def ofReader (reader : Reader) : Stream := ⟨reader, none, 0⟩

/-- Ask for so many bytes, the byte looked at first. -/
def draw (stream : Stream) : (wanted : Nat) → Reader.Delivery
  | 0 => Reader.pull 0 stream.reader
  | wanted + 1 =>
    match stream.peeked with
    | none => Reader.pull (wanted + 1) stream.reader
    | some byte =>
      let later := Reader.pull wanted stream.reader
      ⟨byte :: later.bytes, later.stop, later.after⟩

/-- Look at the next byte. -/
def peek : Fetch Stream (Option UInt8) := fun stream =>
  match stream.peeked with
  | some byte => .ok (some byte) stream
  | none =>
    let asked := Reader.pull 1 stream.reader
    match asked.stop with
    | .failed failure => .error (.io failure) ⟨asked.after, none, stream.position⟩
    | _ => .ok asked.bytes.head? ⟨asked.after, asked.bytes.head?, stream.position⟩

/-- Exactly so many bytes. -/
def read (length : Nat) : Fetch Stream (Vector UInt8 length) := fun stream =>
  let asked := stream.draw length
  match asked.stop with
  | .failed failure => .error (.ofIo failure) ⟨asked.after, none, stream.position⟩
  | _ =>
    if full : asked.bytes.length = length then
      .ok ⟨asked.bytes.toArray, by simpa using full⟩
        ⟨asked.after, none, stream.position + length⟩
    else .error .unexpectedEof ⟨asked.after, none, stream.position⟩

/-- A payload of a length. -/
def take (length : Nat) : Fetch Stream Bytes := fun stream =>
  let asked := stream.draw length
  match asked.stop with
  | .failed failure => .error (.ofIo failure) ⟨asked.after, none, stream.position⟩
  | _ =>
    let after : Stream := ⟨asked.after, none, stream.position + length⟩
    if asked.bytes.length = length then .ok asked.bytes after else .error .unexpectedEof after

/-- Pass over so many bytes. -/
def skip (length : Nat) : Fetch Stream Unit := discard (take length)

instance : Source Stream where
  remaining _ := none
  position := position
  pending stream := stream.peeked.toList.length + stream.reader.undelivered.length
  peek := peek
  read := read
  take := take
  skip := skip

/-- A stream that holds no byte asks its reader for everything. -/
theorem draw_of_nothing {stream : Stream} (nothing : stream.peeked = none) (wanted : Nat) :
    stream.draw wanted = Reader.pull wanted stream.reader := by
  cases wanted with
  | zero => rfl
  | succ wanted => simp [draw, nothing]

/-- A stream draws as much as was asked for where it is satisfied, and nowhere else. What it
draws short of that is followed by a gap. -/
theorem length_draw_eq_iff {stream : Stream} {wanted : Nat} :
    (stream.draw wanted).bytes.length = wanted ↔ (stream.draw wanted).stop = .satisfied := by
  have plain {wanted : Nat} {reader : Reader} : (Reader.pull wanted reader).bytes.length = wanted ↔
      (Reader.pull wanted reader).stop = .satisfied :=
    ⟨Reader.satisfied_of_length_pull, Reader.length_pull_of_satisfied⟩
  obtain ⟨reader, peeked, position⟩ := stream
  cases wanted with
  | zero => exact plain
  | succ wanted =>
    cases peeked with
    | none => exact plain
    | some byte => simpa [draw] using plain

/-- What a stream draws is what was asked for, or fewer bytes because the input ends or the
reader fails. -/
theorem cases_draw (stream : Stream) (wanted : Nat) :
    (∃ front after, front.length = wanted ∧ stream.draw wanted = ⟨front, .satisfied, after⟩) ∨
    (∃ bytes after, bytes.length ≠ wanted ∧ stream.draw wanted = ⟨bytes, .ended, after⟩) ∨
    ∃ bytes failure after, stream.draw wanted = ⟨bytes, .failed failure, after⟩ := by
  have whole := @length_draw_eq_iff stream wanted
  generalize stream.draw wanted = delivery at whole ⊢
  obtain ⟨bytes, stop, after⟩ := delivery
  cases stop with
  | satisfied => exact .inl ⟨bytes, after, whole.mpr rfl, rfl⟩
  | ended => exact .inr (.inl ⟨bytes, after, mt whole.mp nofun, rfl⟩)
  | failed failure => exact .inr (.inr ⟨bytes, failure, after, rfl⟩)

/-- What looking at the next byte comes to: the byte that is held or that arrives is shown and
kept, or there is none because the input ends or the reader fails. -/
inductive Peeks (stream : Stream) : EStateM.Result Error Stream (Option UInt8) → Prop
  | held {byte : UInt8} : stream.peeked = some byte → Peeks stream (.ok (some byte) stream)
  | arrived {byte : UInt8} {after : Reader} : stream.peeked = none →
      stream.reader.pull 1 = ⟨[byte], .satisfied, after⟩ →
      Peeks stream (.ok (some byte) ⟨after, some byte, stream.position⟩)
  | ended {after : Reader} : stream.peeked = none → stream.reader.pull 1 = ⟨[], .ended, after⟩ →
      Peeks stream (.ok none ⟨after, none, stream.position⟩)
  | failed {bytes : Bytes} {failure : IoFailure} {after : Reader} : stream.peeked = none →
      stream.reader.pull 1 = ⟨bytes, .failed failure, after⟩ →
      Peeks stream (.error (.io failure) ⟨after, none, stream.position⟩)

/-- A byte that is held is shown. -/
theorem peek_of_held {stream : Stream} {byte : UInt8} (held : stream.peeked = some byte) :
    peek stream = .ok (some byte) stream := by
  simp only [peek, held]

/-- Looking at the next byte asks the reader for one only where none is held. A request for one
byte that does not get it gets none, so the three ends of the request are the three other
outcomes. -/
theorem peeks (stream : Stream) : Peeks stream (peek stream) := by
  obtain ⟨reader, peeked, position⟩ := stream
  cases peeked with
  | some byte => exact .held rfl
  | none =>
    have asked := cases_draw ⟨reader, none, position⟩ 1
    have few := Reader.length_pull_le 1 reader
    rw [draw_of_nothing rfl] at asked
    rcases asked with ⟨front, after, full, pulled⟩ | ⟨bytes, after, short, pulled⟩ |
      ⟨bytes, failure, after, pulled⟩
    · obtain ⟨byte, rfl⟩ := List.length_eq_one_iff.mp full
      simpa [peek, pulled] using Peeks.arrived rfl pulled
    · replace few : bytes.length ≤ 1 := by simpa only [pulled] using few
      obtain rfl : bytes = [] := List.eq_nil_of_length_eq_zero (by omega)
      simpa [peek, pulled] using Peeks.ended rfl pulled
    · simpa [peek, pulled] using Peeks.failed rfl pulled

/-- Passing over bytes is taking them without looking. -/
theorem skip_eq (length : Nat) (stream : Stream) :
    skip length stream =
      match take length stream with
      | .ok _ after => .ok () after
      | .error error after => .error error after := by
  change EStateM.map (fun _ => ()) (take length) stream = _
  unfold EStateM.map
  cases take length stream <;> rfl

/-- A request that sees of the stream only what it draws. It gives the bytes in some shape,
or it is refused because the input ends or the reader fails; where the input ends, it may count
bytes as taken all the same. -/
structure Asks {shape : Nat → Type} (request : (length : Nat) → Fetch Stream (shape length))
    (given : (front : Bytes) → shape front.length) (counted : Nat → Nat) : Prop where
  met {stream : Stream} {front : Bytes} {after : Reader} :
    stream.draw front.length = ⟨front, .satisfied, after⟩ → request front.length stream =
      .ok (given front) ⟨after, none, stream.position + front.length⟩
  ended {stream : Stream} {bytes : Bytes} {after : Reader} {wanted : Nat} :
    bytes.length ≠ wanted → stream.draw wanted = ⟨bytes, .ended, after⟩ →
      request wanted stream =
        .error .unexpectedEof ⟨after, none, stream.position + counted wanted⟩
  failed {stream : Stream} {bytes : Bytes} {failure : IoFailure} {after : Reader} {wanted : Nat} :
    stream.draw wanted = ⟨bytes, .failed failure, after⟩ → request wanted stream =
      .error (.ofIo failure) ⟨after, none, stream.position⟩

/-- A request for exactly so many bytes counts none where it is cut short. -/
theorem asks_read : Asks read (fun front => ⟨front.toArray, rfl⟩) fun _ => 0 where
  met drawn := by simp [read, drawn]
  ended few drawn := by simp [read, drawn, few]
  failed drawn := by simp [read, drawn]

/-- A payload that the end of the input cuts short counts as taken in full. -/
theorem asks_take : Asks take (fun front => front) fun wanted => wanted where
  met drawn := by simp [take, drawn]
  ended few drawn := by simp [take, drawn, few]
  failed drawn := by simp [take, drawn]

/-- A passage that the end of the input cuts short counts as taken in full. -/
theorem asks_skip : Asks skip (fun _ => ()) fun wanted => wanted where
  met drawn := by rw [skip_eq, asks_take.met drawn]
  ended few drawn := by rw [skip_eq, asks_take.ended few drawn]
  failed drawn := by rw [skip_eq, asks_take.failed drawn]

end Stream

end Amqp
