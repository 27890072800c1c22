import Amqp.Source.Buffer
import Amqp.Source.Stream

/-!
# What a decoder may rely on

The bytes that a source has still to hand out and the number it has handed out are all
that a decoder can learn from it. A source is settled while it holds no byte that it has
only looked at. Looking at the next byte keeps bytes and position, and taking that byte
settles the source again. A settled source hands out exactly the bytes asked for, or
reports an end of input if there are too few. Where it then stands depends on its bytes,
on its position and on the request alone: it has lost all of its bytes, or none.

A buffer is such a source, and so is a stream whose reader delivers its bytes in pieces,
interrupted at will, before it ends for good.
-/

namespace Amqp

namespace Source

/-- The laws of a source. `Settled` and `Facing` say which bytes are still to come and
how many have been handed out; a source that faces them may hold the next byte. -/
class Lawful (σ : Type) [Source σ] where
  Settled : σ → Bytes → Nat → Prop
  Facing : σ → Bytes → Nat → Prop
  facing {source : σ} {rest : Bytes} {taken : Nat} :
    Settled source rest taken → Facing source rest taken
  position_eq {source : σ} {rest : Bytes} {taken : Nat} :
    Facing source rest taken → position source = taken
  remaining_eq {source : σ} {rest : Bytes} {taken left : Nat} :
    Settled source rest taken → remaining source = some left → left = rest.length
  known_iff (source other : σ) : (remaining source).isSome = (remaining other).isSome
  pending_eq {source : σ} {rest : Bytes} {taken : Nat} :
    Facing source rest taken → pending source = rest.length
  peek_facing {source : σ} {rest : Bytes} {taken : Nat} : Facing source rest taken →
    ∃ after, peek source = .ok rest.head? after ∧ Facing after rest taken
  skip_facing {source : σ} {byte : UInt8} {rest : Bytes} {taken : Nat} :
    Facing source (byte :: rest) taken →
      ∃ after, skip 1 source = .ok () after ∧ Settled after rest (taken + 1)
  read_settled {source : σ} {front rest : Bytes} {taken : Nat} :
    Settled source (front ++ rest) taken →
      ∃ after, read front.length source = .ok ⟨front.toArray, rfl⟩ after ∧
        Settled after rest (taken + front.length)
  take_settled {source : σ} {front rest : Bytes} {taken : Nat} :
    Settled source (front ++ rest) taken →
      ∃ after, take front.length source = .ok front after ∧
        Settled after rest (taken + front.length)
  skip_settled {source : σ} {front rest : Bytes} {taken : Nat} :
    Settled source (front ++ rest) taken →
      ∃ after, skip front.length source = .ok () after ∧
        Settled after rest (taken + front.length)
  read_short {rest : Bytes} {taken wanted : Nat} (short : rest.length < wanted) :
    ∃ rest' taken', (rest' = [] ∨ rest' = rest ∧ taken' = taken) ∧
      ∀ source : σ, Settled source rest taken →
        ∃ after, read wanted source = .error .unexpectedEof after ∧ Facing after rest' taken'
  take_short {rest : Bytes} {taken wanted : Nat} (short : rest.length < wanted) :
    ∃ rest' taken', (rest' = [] ∨ rest' = rest ∧ taken' = taken) ∧
      ∀ source : σ, Settled source rest taken →
        ∃ after, take wanted source = .error .unexpectedEof after ∧ Facing after rest' taken'
  skip_short {rest : Bytes} {taken wanted : Nat} (short : rest.length < wanted) :
    ∃ rest' taken', (rest' = [] ∨ rest' = rest ∧ taken' = taken) ∧
      ∀ source : σ, Settled source rest taken →
        ∃ after, skip wanted source = .error .unexpectedEof after ∧ Facing after rest' taken'

namespace Lawful

variable {σ : Type} [Source σ] [Lawful σ]

/-- What the three ways of asking for so many bytes have in common. Where there are enough,
the first of them are given in some shape, and where there are too few, an end of input is
reported. -/
structure Answers {shape : Nat → Type} (request : (length : Nat) → Fetch σ (shape length))
    (given : (front : Bytes) → shape front.length) : Prop where
  settled {source : σ} {front rest : Bytes} {taken : Nat} :
    Settled source (front ++ rest) taken →
      ∃ after, request front.length source = .ok (given front) after ∧
        Settled after rest (taken + front.length)
  short {rest : Bytes} {taken wanted : Nat} : rest.length < wanted →
    ∃ rest' taken', (rest' = [] ∨ rest' = rest ∧ taken' = taken) ∧
      ∀ source : σ, Settled source rest taken →
        ∃ after, request wanted source = .error .unexpectedEof after ∧ Facing after rest' taken'

/-- Bytes that are read are given as a vector. -/
theorem answers_read : Answers (@read σ _) fun front => ⟨front.toArray, rfl⟩ :=
  ⟨read_settled, read_short⟩

/-- Bytes that are taken are given as they are. -/
theorem answers_take : Answers (@take σ _) fun front => front :=
  ⟨take_settled, take_short⟩

/-- Bytes that are passed over are not given. -/
theorem answers_skip : Answers (@skip σ _) fun _ => () :=
  ⟨skip_settled, skip_short⟩

end Lawful

end Source

namespace Buffer

/-- A buffer with these bytes left, of which so many are taken. -/
def Holds (buffer : Buffer) (rest : Bytes) (taken : Nat) : Prop :=
  buffer.rest = rest ∧ buffer.position = taken

/-- A buffer over some bytes holds all of them. -/
theorem holds_ofBytes (bytes : Bytes) : (ofBytes bytes).Holds bytes 0 := ⟨rfl, rfl⟩

/-- Taking the first bytes leaves the others. -/
theorem holds_advance {buffer : Buffer} {front rest : Bytes} {taken : Nat}
    (holds : buffer.Holds (front ++ rest) taken) :
    (buffer.advance front.length).Holds rest (taken + front.length) := by
  obtain ⟨bytes, position⟩ := holds
  exact ⟨by simp [advance, bytes], by simp [advance, position]⟩

/-- A buffer that holds some bytes knows that it does. -/
theorem remaining_of_holds {buffer : Buffer} {rest : Bytes} {taken : Nat}
    (holds : buffer.Holds rest taken) : buffer.remaining = rest.length := by
  rw [buffer.remaining_eq, holds.1]

/-- A buffer holds enough for a request for its first bytes. -/
theorem length_le_remaining {buffer : Buffer} {front rest : Bytes} {taken : Nat}
    (holds : buffer.Holds (front ++ rest) taken) : front.length ≤ buffer.remaining := by
  rw [remaining_of_holds holds, List.length_append]
  omega

/-- A buffer follows the laws of a source; it has nothing to hold apart. -/
instance : Source.Lawful Buffer where
  Settled := Holds
  Facing := Holds
  facing holds := holds
  position_eq holds := holds.2
  remaining_eq holds left := by
    rw [← Option.some.inj left]
    exact remaining_of_holds holds
  known_iff _ _ := rfl
  pending_eq := remaining_of_holds
  peek_facing {buffer _ _} holds := ⟨buffer, by rw [← holds.1]; rfl, holds⟩
  skip_facing {buffer byte rest taken} holds := by
    have split : buffer.Holds ([byte] ++ rest) taken := holds
    exact ⟨buffer.advance 1, if_pos (length_le_remaining split), holds_advance split⟩
  read_settled {buffer front rest taken} holds := by
    refine ⟨buffer.advance front.length, ?_, holds_advance holds⟩
    have whole : buffer.first front.length (length_le_remaining holds) = ⟨front.toArray, rfl⟩ := by
      simp [first, holds.1]
    rw [← whole]
    exact dif_pos (length_le_remaining holds)
  take_settled {buffer front rest taken} holds := by
    refine ⟨buffer.advance front.length, ?_, holds_advance holds⟩
    have whole : buffer.rest.take front.length = front := by simp [holds.1]
    exact (if_pos (length_le_remaining holds)).trans (by rw [whole])
  skip_settled {buffer front rest taken} holds :=
    ⟨buffer.advance front.length, if_pos (length_le_remaining holds), holds_advance holds⟩
  read_short {rest taken wanted} short := by
    refine ⟨rest, taken, .inr ⟨rfl, rfl⟩, fun buffer holds => ⟨buffer, dif_neg ?_, holds⟩⟩
    rw [remaining_of_holds holds]
    omega
  take_short {rest taken wanted} short := by
    refine ⟨rest, taken, .inr ⟨rfl, rfl⟩, fun buffer holds => ⟨buffer, if_neg ?_, holds⟩⟩
    rw [remaining_of_holds holds]
    omega
  skip_short {rest taken wanted} short := by
    refine ⟨rest, taken, .inr ⟨rfl, rfl⟩, fun buffer holds => ⟨buffer, if_neg ?_, holds⟩⟩
    rw [remaining_of_holds holds]
    omega

end Buffer

namespace Reader

/-- A reader that only delivers pieces and is interrupted, until it ends for good. -/
def Plain (reader : Reader) : Prop :=
  ∀ event ∈ reader, event = .interrupted ∨ ∃ bytes, event = .piece bytes

/-- A reader that delivers exactly these bytes, in pieces of any size, and may be
interrupted any number of times between them. -/
def Delivers (reader : Reader) (bytes : Bytes) : Prop :=
  reader.Plain ∧ reader.undelivered = bytes

/-- What remains of a plain reader is plain. A request leaves a later part of the script, behind
at most one piece that it has cut. -/
theorem plain_after_pull {reader : Reader} (plain : reader.Plain) (wanted : Nat) :
    (pull wanted reader).after.Plain := by
  induction reader generalizing wanted with
  | nil => cases wanted <;> simpa [pull] using plain
  | cons event script inductionHypothesis =>
    have later : Plain script := fun other member => plain other (List.mem_cons_of_mem _ member)
    cases wanted with
    | zero => simpa [pull] using plain
    | succ wanted =>
      rcases plain event List.mem_cons_self with rfl | ⟨bytes, rfl⟩
      · exact inductionHypothesis later (wanted + 1)
      · rw [pull]
        split
        · intro other member
          rcases List.mem_cons.mp member with rfl | member
          · exact .inr ⟨_, rfl⟩
          · exact later other member
        · exact inductionHypothesis later _

/-- A plain reader never fails, and ends a request early only when nothing is left. An
interruption is passed over, and a piece that is too short is delivered in full before the
request goes on, so the script is used up when the request ends early. -/
theorem stop_of_plain {reader : Reader} (plain : reader.Plain) (wanted : Nat) :
    (pull wanted reader).stop = .satisfied ∨
      (pull wanted reader).stop = .ended ∧ (pull wanted reader).bytes.length < wanted ∧
        (pull wanted reader).after.undelivered = [] := by
  induction reader generalizing wanted with
  | nil => cases wanted <;> simp [pull, undelivered]
  | cons event script inductionHypothesis =>
    have later : Plain script := fun other member => plain other (List.mem_cons_of_mem _ member)
    cases wanted with
    | zero => exact .inl rfl
    | succ wanted =>
      rcases plain event List.mem_cons_self with rfl | ⟨bytes, rfl⟩
      · exact inductionHypothesis later (wanted + 1)
      · rw [pull]
        split
        · exact .inl rfl
        · next partial' =>
          rcases inductionHypothesis later (wanted + 1 - (bytes.take (wanted + 1)).length) with
            satisfied | ⟨ended, short, drained⟩
          · exact .inl satisfied
          · refine .inr ⟨ended, ?_, drained⟩
            simp only [List.length_append]
            omega

/-- Asked for no more than is left, a plain reader delivers the first bytes of it. What is
delivered and what remains are together what was left, and a request that ended early would have
drained it, which is less than was asked for. -/
theorem pull_of_le {reader : Reader} {front rest : Bytes}
    (delivers : reader.Delivers (front ++ rest)) :
    ∃ after, pull front.length reader = ⟨front, .satisfied, after⟩ ∧ after.Delivers rest := by
  obtain ⟨plain, left⟩ := delivers
  have split := undelivered_pull front.length reader
  rw [left] at split
  have satisfied : (pull front.length reader).stop = .satisfied := by
    rcases stop_of_plain plain front.length with satisfied | ⟨_, short, drained⟩
    · exact satisfied
    · rw [drained, List.append_nil] at split
      rw [split, List.length_append] at short
      omega
  obtain ⟨same, remains⟩ := List.append_inj split (length_pull_of_satisfied satisfied)
  exact ⟨_, Delivery.eq_mk same satisfied, plain_after_pull plain _, remains⟩

/-- Asked for more than is left, a plain reader delivers all of it and ends. It cannot satisfy
the request by the number of bytes, and a plain reader that does not has nothing left. -/
theorem pull_of_lt {reader : Reader} {rest : Bytes} {wanted : Nat}
    (delivers : reader.Delivers rest) (short : rest.length < wanted) :
    ∃ after, pull wanted reader = ⟨rest, .ended, after⟩ ∧ after.Delivers [] := by
  obtain ⟨plain, left⟩ := delivers
  have split := undelivered_pull wanted reader
  rw [left] at split
  rcases stop_of_plain plain wanted with satisfied | ⟨ended, _, drained⟩
  · have length := length_pull_of_satisfied satisfied
    have total := congrArg List.length split
    rw [List.length_append] at total
    omega
  · rw [drained, List.append_nil] at split
    exact ⟨_, Delivery.eq_mk split ended, plain_after_pull plain _, drained⟩

end Reader

namespace Stream

/-- A stream with these bytes to come, none of them held, of which so many are taken. -/
def Holds (stream : Stream) (rest : Bytes) (taken : Nat) : Prop :=
  stream.peeked = none ∧ stream.reader.Delivers rest ∧ stream.position = taken

/-- A stream with these bytes to come, the first of them perhaps held already. -/
def Faces (stream : Stream) (rest : Bytes) (taken : Nat) : Prop :=
  ∃ behind, stream.reader.Delivers behind ∧ stream.peeked.toList ++ behind = rest ∧
    stream.position = taken

/-- A stream over a reader holds what the reader delivers. -/
theorem holds_ofReader {reader : Reader} {bytes : Bytes} (delivers : reader.Delivers bytes) :
    (ofReader reader).Holds bytes 0 := ⟨rfl, delivers, rfl⟩

/-- A stream that holds no byte faces what is to come. -/
theorem faces_of_holds {stream : Stream} {rest : Bytes} {taken : Nat}
    (holds : stream.Holds rest taken) : stream.Faces rest taken := by
  obtain ⟨nothing, delivers, position⟩ := holds
  exact ⟨rest, delivers, by simp [nothing], position⟩

/-- Asked for no more than is to come, a stream draws the first bytes of it. -/
theorem draw_of_le {stream : Stream} {front rest : Bytes} {taken : Nat}
    (holds : stream.Holds (front ++ rest) taken) :
    ∃ after, stream.draw front.length = ⟨front, .satisfied, after⟩ ∧ after.Delivers rest := by
  rw [draw_of_nothing holds.1]
  exact Reader.pull_of_le holds.2.1

/-- Asked for more than is to come, a stream draws all of it and ends. -/
theorem draw_of_lt {stream : Stream} {rest : Bytes} {taken wanted : Nat}
    (holds : stream.Holds rest taken) (short : rest.length < wanted) :
    ∃ after, stream.draw wanted = ⟨rest, .ended, after⟩ ∧ after.Delivers [] := by
  rw [draw_of_nothing holds.1]
  exact Reader.pull_of_lt holds.2.1 short

/-- Looking at the next byte shows it and keeps everything in place. Whether the byte was held
already, arrives now or is missing makes no difference to the bytes to come, and a plain reader
that is asked at its end is at its end again. -/
theorem peek_of_faces {stream : Stream} {rest : Bytes} {taken : Nat}
    (faces : stream.Faces rest taken) :
    ∃ after, stream.peek = .ok rest.head? after ∧ after.Faces rest taken := by
  obtain ⟨reader, peeked, position⟩ := stream
  obtain ⟨behind, delivers, rfl, rfl⟩ := faces
  cases peeked with
  | some byte => exact ⟨_, rfl, behind, delivers, rfl, rfl⟩
  | none =>
    cases behind with
    | nil =>
      obtain ⟨after, pulled, drained⟩ := Reader.pull_of_lt delivers Nat.zero_lt_one
      exact ⟨⟨after, none, position⟩, by simp [peek, pulled], [], drained, rfl, rfl⟩
    | cons byte behind =>
      obtain ⟨after, pulled, remains⟩ := @Reader.pull_of_le reader [byte] behind delivers
      rw [List.length_singleton] at pulled
      exact ⟨⟨after, some byte, position⟩, by simp [peek, pulled], behind, remains, rfl, rfl⟩

/-- Taking the next byte settles a stream, whether the byte was held or not. In either case
exactly this byte is drawn; in the first the reader is not asked for anything. -/
theorem skip_of_faces {stream : Stream} {byte : UInt8} {rest : Bytes} {taken : Nat}
    (faces : stream.Faces (byte :: rest) taken) :
    ∃ after, skip 1 stream = .ok () after ∧ after.Holds rest (taken + 1) := by
  obtain ⟨reader, peeked, position⟩ := stream
  obtain ⟨behind, delivers, shown, rfl⟩ := faces
  have drawn : ∃ after, (⟨reader, peeked, position⟩ : Stream).draw [byte].length =
      ⟨[byte], .satisfied, after⟩ ∧ after.Delivers rest := by
    cases peeked with
    | some held =>
      obtain ⟨rfl, rfl⟩ := List.cons.inj shown
      exact ⟨reader, by simp [draw, Reader.pull], delivers⟩
    | none =>
      obtain rfl : behind = [byte] ++ rest := shown
      exact draw_of_le ⟨rfl, delivers, rfl⟩
  obtain ⟨after, drawn, remains⟩ := drawn
  exact ⟨_, asks_skip.met drawn, rfl, remains, rfl⟩

section Requests

variable {shape : Nat → Type} {request : (length : Nat) → Fetch Stream (shape length)}
  {given : (front : Bytes) → shape front.length} {counted : Nat → Nat}

/-- A request for no more than is to come is met. -/
theorem Asks.settled (asks : Asks request given counted) {stream : Stream} {front rest : Bytes}
    {taken : Nat} (holds : stream.Holds (front ++ rest) taken) :
    ∃ after, request front.length stream = .ok (given front) after ∧
      after.Holds rest (taken + front.length) := by
  obtain ⟨after, drawn, remains⟩ := draw_of_le holds
  exact ⟨_, asks.met drawn, rfl, remains, by rw [← holds.2.2]⟩

/-- A request for more than is to come ends early, and nothing is left. -/
theorem Asks.short (asks : Asks request given counted) {rest : Bytes} {taken wanted : Nat}
    (short : rest.length < wanted) :
    ∃ rest' taken', (rest' = [] ∨ rest' = rest ∧ taken' = taken) ∧
      ∀ stream : Stream, stream.Holds rest taken →
        ∃ after, request wanted stream = .error .unexpectedEof after ∧
          after.Faces rest' taken' := by
  refine ⟨[], taken + counted wanted, .inl rfl, fun stream holds => ?_⟩
  obtain ⟨after, drawn, drained⟩ := draw_of_lt holds short
  exact ⟨_, asks.ended (Nat.ne_of_lt short) drawn, [], drained, rfl, by rw [← holds.2.2]⟩

end Requests

/-- A stream over a plain reader follows the laws of a source. -/
instance : Source.Lawful Stream where
  Settled := Holds
  Facing := Faces
  facing := faces_of_holds
  position_eq faces := by
    obtain ⟨_, _, _, position⟩ := faces
    exact position
  remaining_eq _ left := nomatch left
  known_iff _ _ := rfl
  pending_eq faces := by
    obtain ⟨behind, delivers, rfl, _⟩ := faces
    rw [List.length_append, ← delivers.2]
    rfl
  peek_facing := peek_of_faces
  skip_facing := skip_of_faces
  read_settled := asks_read.settled
  take_settled := asks_take.settled
  skip_settled := asks_skip.settled
  read_short := asks_read.short
  take_short := asks_take.short
  skip_short := asks_skip.short

end Stream

end Amqp
