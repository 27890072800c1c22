import Amqp.Proofs.Conversation
import Amqp.Proofs.Source.Breaks

/-!
# Two sources of the same bytes

A buffer stands at places of its bytes and answers by what is to come there, whatever it is asked.
So does a stream whose reader delivers the bytes in pieces and then ends, but for one thing: it
takes the byte that it has looked at out of its hands for every request, and a request for no
bytes does not put it anywhere. That byte lapses.

So the two have the same careful conversations, with the same replies at the same positions, and
these hand out exactly the bytes in front of the position. A conversation that is not careful goes
through on the stream as well, and no failure tells that a byte is missing.
-/

namespace Amqp

open Source (Lawful)

namespace Buffer

/-- A buffer stands in front of the bytes that it holds. -/
def Stands (buffer : Buffer) (place : Place) : Prop := buffer.Holds place.rest place.taken

/-- What a buffer is asked for is met by its first bytes. -/
theorem met_of_answers {shape : Nat → Type} {request : (length : Nat) → Fetch Buffer (shape length)}
    {given : (front : Bytes) → shape front.length} (answers : Lawful.Answers request given) :
    Met Stands false request given where
  enough {buffer front rest taken held} stood := by
    obtain ⟨after, ran, settled⟩ := answers.settled stood
    have holds : after.Holds rest (taken + front.length) := settled
    refine ⟨after, ran, ?_⟩
    simpa [Stands, Place.pass] using holds
  short few stood := by
    obtain ⟨_, _, _, fails⟩ := answers.short few
    obtain ⟨after, failed, _⟩ := fails _ stood
    exact ⟨_, after, failed⟩

/-- A buffer answers by the bytes that it holds, and none of them lapses. -/
theorem placed : Placed Stands false where
  position_eq stood := stood.2
  peek stood := Lawful.peek_facing (σ := Buffer) stood
  read := met_of_answers Lawful.answers_read
  take := met_of_answers Lawful.answers_take
  skip := met_of_answers Lawful.answers_skip

end Buffer

namespace Stream

/-- A stream stands in front of the bytes that it faces before its reader ends for good, and it may
hold the first of them. -/
def Stands (stream : Stream) (place : Place) : Prop :=
  stream.FacesUpTo ⟨none, []⟩ place.rest place.taken ∧ stream.peeked.isSome = place.held

/-- A request for no bytes takes out the byte that a stream holds, and lets it go. -/
theorem draw_zero (stream : Stream) : stream.draw 0 = ⟨[], .satisfied, stream.reader⟩ := by
  obtain ⟨reader, peeked, position⟩ := stream
  cases reader <;> rfl

/-- What a stream is asked for is met by the first bytes to come. A held byte lapses. The case
that lapses is taken first, by itself: nothing is drawn there, and the byte is no longer among
those to come. In every other case the held byte is the first of those that are drawn. -/
theorem met_of_draws {shape : Nat → Type} {request : (length : Nat) → Fetch Stream (shape length)}
    {given : (front : Bytes) → shape front.length} (draws : Draws request given) :
    Met Stands true request given where
  enough {stream front rest taken held} stood := by
    obtain ⟨faces, holding⟩ := stood
    by_cases lapsing : held = true ∧ front = []
    · obtain ⟨rfl, rfl⟩ := lapsing
      obtain ⟨byte, peeked⟩ := Option.isSome_iff_exists.mp holding
      obtain ⟨behind, delivers, whole, counted⟩ := faces
      obtain rfl : byte :: behind = rest := by simpa [peeked] using whole
      refine ⟨_, draws.enough (draw_zero stream), ⟨behind, delivers, rfl, ?_⟩, rfl⟩
      exact counted
    · have keeps : stream.peeked = none ∨ front ≠ [] := by
        cases held with
        | false => exact .inl (Option.isNone_iff_eq_none.mp (Option.isSome_eq_false_iff.mp holding))
        | true => exact .inr fun empty => lapsing ⟨rfl, empty⟩
      obtain ⟨after, ran, nothing, faces⟩ := draws.of_le faces keeps
      have passed : (front ++ rest).drop
          (if true && held && front.length == 0 then 1 else front.length) = rest := by
        rw [if_neg (by simpa using lapsing), List.drop_left]
      refine ⟨after, ran, ?_, by rw [nothing]; rfl⟩
      simpa only [Place.pass, passed] using faces
  short few stood := by
    obtain ⟨error, after, failed, _⟩ := draws.of_lt stood.1 few
    exact ⟨error, after, failed⟩

/-- A look at the next byte shows it or that there is none, and then it is held. At the end of
the input a look cannot fail, because the gap that stands for a lasting end reports no failure of
a reader. -/
theorem peek_of_stands {stream : Stream} {place : Place} (stood : stream.Stands place) :
    ∃ after, peek stream = .ok place.rest.head? after ∧ after.Stands place.look := by
  obtain ⟨rest, taken, held⟩ := place
  obtain ⟨faces, _⟩ := stood
  cases rest with
  | nil =>
    rcases peek_upTo_of_nil faces with ⟨error, failed, reports⟩ | ⟨shown, _⟩
    · obtain ⟨failure, rfl⟩ := exists_io_of_peek failed
      cases reports
    · have ended : Reader.DeliversUpTo [] ⟨none, []⟩ [] :=
        Reader.deliversUpTo_end ⟨by simp [Reader.Plain], rfl⟩
      exact ⟨_, shown, ⟨[], ended, rfl, rfl⟩, rfl⟩
  | cons byte rest =>
    obtain ⟨after, shown, _, faces⟩ := peek_upTo_of_cons faces
    obtain ⟨_, _, held⟩ := upcoming_peek shown
    exact ⟨after, shown, faces, by rw [held]; rfl⟩

/-- A stream answers by the bytes that its reader delivers, but a held byte lapses. -/
theorem placed : Placed Stands true where
  position_eq stood := by
    obtain ⟨⟨_, _, _, counted⟩, _⟩ := stood
    exact counted
  peek := peek_of_stands
  read := met_of_draws asks_read.draws
  take := met_of_draws asks_take.draws
  skip := met_of_draws asks_skip.draws

/-- What a stream can still hand out is what it stands in front of. -/
theorem upcoming_of_stands {stream : Stream} {place : Place} (stood : stream.Stands place) :
    stream.upcoming = place.rest := by
  obtain ⟨⟨behind, ⟨plain, script, same, ⟨_, left⟩, opens⟩, whole, _⟩, _⟩ := stood
  have nothing : script.undelivered = [] := by
    rw [← Reader.undelivered_pull 1 script, opens 0]
    rfl
  have undelivered : stream.reader.undelivered = behind := by
    rw [same, Reader.undelivered, List.flatMap_append]
    change plain.undelivered ++ script.undelivered = behind
    rw [left, nothing, List.append_nil]
  rw [upcoming, undelivered, whole]

end Stream

/-- A conversation that the bytes call for without a lapse conveys those in front of the position
that it leads to. -/
theorem conveyed_of_start {requests : List Request} {bytes : Bytes} {last : Place}
    {record : List Exchange}
    (recited : recite false requests (.start bytes) = some (record, last)) :
    Conveyed record bytes last.rest last.taken := by
  obtain ⟨fronts, conveys, split, counted⟩ := conveyed_of_recite recited
  have whole : bytes = fronts.flatten ++ last.rest := split
  have position : last.taken = fronts.flatten.length := counted.trans (Nat.zero_add _)
  refine ⟨fronts, conveys, ?_, ?_, ?_⟩
  · rw [whole, position, List.take_left]
  · rw [whole, position, List.length_append]
    exact Nat.le_add_right ..
  · rw [whole, position, List.drop_left]

/-- Conversations with a buffer are those that its bytes call for, and conversations with a
stream over the same bytes those that they call for if held bytes lapse. So the careful ones are
the same, and they hand out and pass over exactly the bytes in front of the position, in order.
This is exact: of a conversation that is not careful it says what the stream replies instead, and
that it does not fail.

Proof: Each source is related to places in its bytes, and one step of a conversation is one move
of the place, with the lapse as the only difference. By induction on the requests both records
are computed from the bytes alone, and in a careful conversation no move lapses. -/
theorem conversations_agree {reader : Reader} {bytes : Bytes} (delivers : reader.Delivers bytes)
    (requests : List Request) :
    (converse requests).run' (Buffer.ofBytes bytes) =
      (recite false requests (.start bytes)).map Prod.fst ∧
    (converse requests).run' (Stream.ofReader reader) =
      (recite true requests (.start bytes)).map Prod.fst ∧
    ∀ record, Careful record →
      ((converse requests).run' (Buffer.ofBytes bytes) = some record ↔
        (converse requests).run' (Stream.ofReader reader) = some record) ∧
      (∀ after, converse requests (Buffer.ofBytes bytes) = .ok record after →
        Conveyed record bytes after.rest after.position) ∧
      ∀ after, converse requests (Stream.ofReader reader) = .ok record after →
        Conveyed record bytes after.upcoming after.position := by
  have onBuffer : (Buffer.ofBytes bytes).Stands (.start bytes) := Buffer.holds_ofBytes bytes
  have onStream : (Stream.ofReader reader).Stands (.start bytes) :=
    ⟨(Stream.holdsUpTo_ofReader (Reader.deliversUpTo_end delivers)).2, rfl⟩
  have fromBuffer := Buffer.placed.run'_converse onBuffer requests
  have fromStream := Stream.placed.run'_converse onStream requests
  refine ⟨fromBuffer, fromStream, fun record careful => ?_⟩
  -- nothing is held at the start, so the first request cannot let a byte go
  have same {last : Place} : recite true requests (.start bytes) = some (record, last) ↔
      recite false requests (.start bytes) = some (record, last) :=
    recite_of_careful careful fun _ _ held => nomatch held
  refine ⟨?_, fun after ran => ?_, fun after ran => ?_⟩
  · simp only [fromBuffer, fromStream, Option.map_eq_some_iff, Prod.exists, exists_eq_right, same,
      exists_and_right]
  · obtain ⟨last, recited, stood⟩ := Buffer.placed.recite_of_converse onBuffer ran
    have conveyed := conveyed_of_start recited
    rwa [← stood.1, ← stood.2] at conveyed
  · obtain ⟨last, recited, stood⟩ := Stream.placed.recite_of_converse onStream ran
    have conveyed := conveyed_of_start (same.mp recited)
    rwa [← Stream.upcoming_of_stands stood, ← Stream.placed.position_eq stood] at conveyed

/-- A number whose first byte has been looked at, read from two pieces with an interruption
between them. The conversation is careful, since the request behind the look is for four bytes,
so what is known of the buffer holds of the stream. -/
theorem conversations_agree_peeked :
    Reader.Delivers [.piece [0], .interrupted, .piece [0, 1, 0]] [0, 0, 1, 0] ∧
    Careful [⟨.peek, .next (some 0), 0⟩, ⟨.uint32, .number 256, 4⟩] ∧
    (converse [.peek, .uint32]).run' (Buffer.ofBytes [0, 0, 1, 0]) =
      some [⟨.peek, .next (some 0), 0⟩, ⟨.uint32, .number 256, 4⟩] ∧
    (converse [.peek, .uint32]).run'
        (Stream.ofReader [.piece [0], .interrupted, .piece [0, 1, 0]]) =
      some [⟨.peek, .next (some 0), 0⟩, ⟨.uint32, .number 256, 4⟩] := by
  have delivers : Reader.Delivers [.piece [0], .interrupted, .piece [0, 1, 0]] [0, 0, 1, 0] :=
    ⟨by simp [Reader.Plain], rfl⟩
  have careful : Careful [⟨.peek, .next (some 0), 0⟩, ⟨.uint32, .number 256, 4⟩] := by decide
  obtain ⟨fromBuffer, _, same⟩ := conversations_agree delivers [.peek, .uint32]
  have onBuffer : (converse [.peek, .uint32]).run' (Buffer.ofBytes [0, 0, 1, 0]) =
      some [⟨.peek, .next (some 0), 0⟩, ⟨.uint32, .number 256, 4⟩] := fromBuffer
  exact ⟨delivers, careful, onBuffer, (same _ careful).1.mp onBuffer⟩

/-- A byte is lost where a request for no bytes follows a look at it. The buffer goes on with that
byte, and the stream with the next one, at the same position. -/
theorem held_byte_lapses :
    Reader.Delivers [.piece [1, 2]] [1, 2] ∧
    (converse [.peek, .skip 0, .uint8]).run' (Buffer.ofBytes [1, 2]) =
      some [⟨.peek, .next (some 1), 0⟩, ⟨.skip 0, .passed, 0⟩, ⟨.uint8, .number 1, 1⟩] ∧
    (converse [.peek, .skip 0, .uint8]).run' (Stream.ofReader [.piece [1, 2]]) =
      some [⟨.peek, .next (some 1), 0⟩, ⟨.skip 0, .passed, 0⟩, ⟨.uint8, .number 2, 1⟩] :=
  ⟨⟨by simp [Reader.Plain], rfl⟩, rfl, rfl⟩

end Amqp
