import Amqp.Proofs.Source.Advance
import Amqp.Proofs.Source.Footing

/-!
# Readers that break off

A reader delivers some bytes in pieces, and then there is a gap: it says that the input has ended,
or it fails, for once or for good. Behind the gap it may go on. A request that is met by the bytes
in front of the gap sees nothing of it. A request for more gets them all, is refused for the
reason that the gap gives, and keeps none of them: the stream holds no byte then, and its reader
stands behind the gap.

So two streams with the same bytes in front of a gap answer alike, whatever the gaps are, until
one of them is refused. And where a stream is refused, it is known where it stands.
-/

namespace Amqp

/-- A gap in the input: the failure of the reader there, unless it says that the input has ended,
and what it goes on with. -/
structure Gap where
  failure : Option IoFailure
  after : Reader

/-- What a request that comes to a gap is told. -/
def Gap.stop (gap : Gap) : Reader.Stop := gap.failure.elim .ended .failed

namespace Reader

/-- A script that begins with a gap. Whoever wants a byte gets none. -/
def Opens (script : Reader) (gap : Gap) : Prop :=
  ∀ wanted, pull (wanted + 1) script = ⟨[], gap.stop, gap.after⟩

/-- A reader that delivers exactly these bytes, in pieces of any size and interrupted at will,
and then comes to a gap. -/
def DeliversUpTo (reader : Reader) (gap : Gap) (bytes : Bytes) : Prop :=
  ∃ plain script : Reader, reader = plain ++ script ∧ plain.Delivers bytes ∧ script.Opens gap

/-- Where a reader ends for good there is a gap with nothing behind it. -/
theorem deliversUpTo_end {reader : Reader} {bytes : Bytes} (delivers : reader.Delivers bytes) :
    reader.DeliversUpTo ⟨none, []⟩ bytes :=
  ⟨reader, [], (List.append_nil reader).symm, delivers, fun _ => rfl⟩

/-- A satisfied request sees nothing of what the reader does later. The induction is on the
script in front: an event that would end the request early contradicts that it is satisfied, and
every other one either completes it or leaves a shorter script that still satisfies what is
missing. -/
theorem pull_append_of_satisfied {wanted : Nat} {reader : Reader} (script : Reader)
    (satisfied : (pull wanted reader).stop = .satisfied) : pull wanted (reader ++ script) =
      ⟨(pull wanted reader).bytes, .satisfied, (pull wanted reader).after ++ script⟩ := by
  induction reader generalizing wanted with
  | nil => cases wanted <;> simp_all [pull]
  | cons event reader inductionHypothesis =>
    cases wanted with
    | zero => simp [pull]
    | succ wanted =>
      cases event with
      | piece bytes =>
        rw [List.cons_append]
        rcases Nat.lt_or_ge bytes.length (wanted + 1) with short | enough
        · rw [pull_piece_of_lt _ short] at satisfied
          rw [pull_piece_of_lt _ short, pull_piece_of_lt _ short, inductionHypothesis satisfied]
        · rw [pull_piece_of_le _ wanted.succ_pos enough, pull_piece_of_le _ wanted.succ_pos enough]
          rfl
      | interrupted => exact inductionHypothesis satisfied
      | ended | failed | stuck => simp [pull] at satisfied

/-- A request for more than a plain reader delivers goes on with what follows it. Since no event
of the front ends the request, all of its bytes are delivered, and what is still wanted is asked
of the script behind. -/
theorem pull_append_of_lt {wanted : Nat} {reader : Reader} {bytes : Bytes} (script : Reader)
    (delivers : reader.Delivers bytes) (short : bytes.length < wanted) :
    pull wanted (reader ++ script) =
      ⟨bytes ++ (pull (wanted - bytes.length) script).bytes,
        (pull (wanted - bytes.length) script).stop,
        (pull (wanted - bytes.length) script).after⟩ := by
  obtain ⟨plain, rfl⟩ := delivers
  induction reader generalizing wanted with
  | nil => rfl
  | cons event reader inductionHypothesis =>
    have later : Plain reader := fun other member => plain other (List.mem_cons_of_mem _ member)
    rcases plain event List.mem_cons_self with rfl | ⟨piece, rfl⟩
    · obtain ⟨wanted, rfl⟩ := Nat.exists_eq_succ_of_ne_zero (Nat.ne_zero_of_lt short)
      exact inductionHypothesis later short
    · have whole : undelivered (.piece piece :: reader) = piece ++ undelivered reader := rfl
      rw [whole, List.length_append] at short
      rw [whole, List.cons_append, pull_piece_of_lt _ (by omega),
        inductionHypothesis later (by omega), List.length_append, ← Nat.sub_sub,
        List.append_assoc]

variable {reader : Reader} {gap : Gap} {front rest : Bytes} {wanted : Nat}

/-- Asked for no more than comes before the gap, a reader delivers the first bytes of it. -/
theorem pull_upTo_of_le (delivers : reader.DeliversUpTo gap (front ++ rest)) :
    ∃ after, pull front.length reader = ⟨front, .satisfied, after⟩ ∧
      after.DeliversUpTo gap rest := by
  obtain ⟨plain, script, rfl, delivers, opens⟩ := delivers
  obtain ⟨after, pulled, remains⟩ := pull_of_le delivers
  refine ⟨after ++ script, ?_, after, script, rfl, remains, opens⟩
  rw [pull_append_of_satisfied script (by rw [pulled]), pulled]

/-- Asked for more, a reader delivers all that comes before the gap, and none of it is left. -/
theorem pull_upTo_of_lt (delivers : reader.DeliversUpTo gap rest) (short : rest.length < wanted) :
    pull wanted reader = ⟨rest, gap.stop, gap.after⟩ := by
  obtain ⟨plain, script, rfl, delivers, opens⟩ := delivers
  obtain ⟨more, missing⟩ := Nat.exists_eq_succ_of_ne_zero (Nat.sub_ne_zero_of_lt short)
  rw [pull_append_of_lt script delivers short, missing, opens, List.append_nil]

end Reader

namespace Gap

/-- The errors that a request is refused with at a gap. A reader's own failure is passed on as it
is by a look at the next byte, and as an early end by other requests if its kind says so. -/
def Reports (gap : Gap) (error : Error) : Prop :=
  match gap.failure with
  | some failure => error = .io failure ∨ error = .ofIo failure
  | none => error = .unexpectedEof

/-- A stream that a request has been refused on at a gap. It holds no byte, and its reader stands
behind the gap. -/
def Refuses (gap : Gap) (error : Error) (stream : Stream) : Prop :=
  gap.Reports error ∧ stream.peeked = none ∧ stream.reader = gap.after

end Gap

namespace Stream

/-- A stream with these bytes to come before a gap, the first of them perhaps held already, of
which so many are taken. -/
def FacesUpTo (stream : Stream) (gap : Gap) (rest : Bytes) (taken : Nat) : Prop :=
  ∃ behind, stream.reader.DeliversUpTo gap behind ∧ stream.peeked.toList ++ behind = rest ∧
    stream.position = taken

/-- A stream with these bytes to come before a gap, none of them held. -/
def HoldsUpTo (stream : Stream) (gap : Gap) (rest : Bytes) (taken : Nat) : Prop :=
  stream.peeked = none ∧ stream.FacesUpTo gap rest taken

/-- A stream over a reader holds what the reader delivers before a gap. -/
theorem holdsUpTo_ofReader {reader : Reader} {gap : Gap} {bytes : Bytes}
    (delivers : reader.DeliversUpTo gap bytes) : (ofReader reader).HoldsUpTo gap bytes 0 :=
  ⟨rfl, bytes, delivers, rfl, rfl⟩

section Draws

variable {stream : Stream} {gap : Gap} {front rest : Bytes} {taken wanted : Nat}

/-- Asked for some of the bytes before a gap, a stream draws the first of them, and keeps the
others in front of the same gap. A held byte is the first of the bytes to come and shortens the
request by one. A request for none would let it go, which the premise excludes. -/
theorem draw_upTo_of_le (faces : stream.FacesUpTo gap (front ++ rest) taken)
    (keeps : stream.peeked = none ∨ front ≠ []) :
    ∃ after, stream.draw front.length = ⟨front, .satisfied, after⟩ ∧
      after.DeliversUpTo gap rest := by
  obtain ⟨reader, peeked, position⟩ := stream
  obtain ⟨behind, delivers, whole, _⟩ := faces
  cases peeked with
  | none =>
    obtain rfl : behind = front ++ rest := whole
    rw [draw_of_nothing rfl]
    exact Reader.pull_upTo_of_le delivers
  | some byte =>
    cases front with
    | nil => exact absurd rfl (keeps.resolve_left (by simp))
    | cons first front =>
      obtain ⟨rfl, rfl⟩ : byte = first ∧ behind = front ++ rest := List.cons.inj whole
      obtain ⟨after, pulled, delivers⟩ := Reader.pull_upTo_of_le delivers
      exact ⟨after, by simp [draw, pulled], delivers⟩

/-- Asked for more than the bytes before a gap, a stream draws them all and is told of the gap. -/
theorem draw_upTo_of_lt (faces : stream.FacesUpTo gap rest taken) (short : rest.length < wanted) :
    stream.draw wanted = ⟨rest, gap.stop, gap.after⟩ := by
  obtain ⟨reader, peeked, position⟩ := stream
  obtain ⟨behind, delivers, rfl, _⟩ := faces
  cases peeked with
  | none =>
    rw [draw_of_nothing rfl]
    exact Reader.pull_upTo_of_lt delivers short
  | some byte =>
    obtain ⟨wanted, rfl⟩ := Nat.exists_eq_succ_of_ne_zero (Nat.ne_zero_of_lt short)
    simp [draw, Reader.pull_upTo_of_lt delivers (Nat.lt_of_succ_lt_succ short)]

/-- Looking at the next byte before a gap shows it and keeps everything in place. A second look
shows the same byte again without asking the reader, since the first one holds it. -/
theorem peek_upTo_of_cons {byte : UInt8} (faces : stream.FacesUpTo gap (byte :: rest) taken) :
    ∃ after, peek stream = .ok (some byte) after ∧ peek after = .ok (some byte) after ∧
      after.FacesUpTo gap (byte :: rest) taken := by
  obtain ⟨reader, peeked, position⟩ := stream
  cases peeked with
  | some held =>
    obtain ⟨behind, delivers, whole, counted⟩ := faces
    obtain ⟨rfl, rfl⟩ : held = byte ∧ behind = rest := List.cons.inj whole
    exact ⟨_, rfl, rfl, behind, delivers, rfl, counted⟩
  | none =>
    obtain ⟨_, delivers, rfl, counted⟩ := faces
    obtain ⟨after, pulled, delivers⟩ := @Reader.pull_upTo_of_le _ _ [byte] rest delivers
    rw [List.length_singleton] at pulled
    refine ⟨⟨after, some byte, position⟩, ?_, rfl, rest, delivers, rfl, counted⟩
    simp [peek, pulled]

/-- A look at the next byte is refused at a gap, or shows that there is none. The position stays
where it was. -/
theorem peek_upTo_of_nil (faces : stream.FacesUpTo gap [] taken) :
    (∃ error, peek stream = .error error ⟨gap.after, none, taken⟩ ∧ gap.Reports error) ∨
      peek stream = .ok none ⟨gap.after, none, taken⟩ ∧ gap.Reports .unexpectedEof := by
  obtain ⟨reader, peeked, position⟩ := stream
  obtain ⟨behind, delivers, whole, rfl⟩ := faces
  obtain ⟨held, rfl⟩ := List.append_eq_nil_iff.mp whole
  obtain rfl : peeked = none := Option.toList_eq_nil_iff.mp held
  have pulled := Reader.pull_upTo_of_lt delivers Nat.zero_lt_one
  obtain ⟨failure, after⟩ := gap
  cases failure with
  | some failure => exact .inl ⟨.io failure, by simp [peek, pulled, Gap.stop], .inl rfl⟩
  | none => exact .inr ⟨by simp [peek, pulled, Gap.stop], rfl⟩

end Draws

/-- A request for so many bytes that sees of the source only what it draws. Where this is cut
short by a gap, the request is refused for it. -/
structure Draws {shape : Nat → Type} (request : (length : Nat) → Fetch Stream (shape length))
    (given : (front : Bytes) → shape front.length) : Prop where
  enough {stream : Stream} {front : Bytes} {after : Reader} :
    stream.draw front.length = ⟨front, .satisfied, after⟩ →
      request front.length stream =
        .ok (given front) ⟨after, none, stream.position + front.length⟩
  short {stream : Stream} {gap : Gap} {bytes : Bytes} {wanted : Nat} :
    stream.draw wanted = ⟨bytes, gap.stop, gap.after⟩ → bytes.length < wanted →
      ∃ error after, request wanted stream = .error error after ∧ gap.Refuses error after

section Requests

variable {shape : Nat → Type} {request : (length : Nat) → Fetch Stream (shape length)}
  {given : (front : Bytes) → shape front.length} {stream : Stream} {gap : Gap}
  {front rest : Bytes} {taken wanted : Nat}

/-- A request that sees what it draws is refused at a gap for the reason that the gap gives. -/
theorem Asks.draws {counted : Nat → Nat} (asks : Asks request given counted) :
    Draws request given where
  enough := asks.met
  short {stream gap bytes wanted} drawn short := by
    obtain ⟨failure, after⟩ := gap
    cases failure with
    | some failure => exact ⟨_, _, asks.failed drawn, .inr rfl, rfl, rfl⟩
    | none => exact ⟨_, _, asks.ended (Nat.ne_of_lt short) drawn, rfl, rfl, rfl⟩

/-- A request for some of the bytes before a gap is met by the first of them. -/
theorem Draws.of_le (draws : Draws request given)
    (faces : stream.FacesUpTo gap (front ++ rest) taken)
    (keeps : stream.peeked = none ∨ front ≠ []) :
    ∃ after, request front.length stream = .ok (given front) after ∧
      after.HoldsUpTo gap rest (taken + front.length) := by
  obtain ⟨after, drawn, delivers⟩ := draw_upTo_of_le faces keeps
  obtain ⟨_, _, _, rfl⟩ := faces
  exact ⟨_, draws.enough drawn, rfl, rest, delivers, rfl, rfl⟩

/-- A request for more than the bytes before a gap is refused. -/
theorem Draws.of_lt (draws : Draws request given) (faces : stream.FacesUpTo gap rest taken)
    (short : rest.length < wanted) :
    ∃ error after, request wanted stream = .error error after ∧ gap.Refuses error after :=
  draws.short (draw_upTo_of_lt faces short) short

/-- Streams with some bytes to come before a gap. At the gap they are refused. -/
def footingUpTo (gap : Gap) : Footing Stream where
  settled stream := ∃ rest taken, stream.HoldsUpTo gap rest taken
  facing stream := ∃ rest taken, stream.FacesUpTo gap rest taken
  refuses := gap.Refuses

/-- A request is met, or refused at the gap. In the first case the gap is still to come. -/
theorem Draws.accounted (draws : Draws request given) {length : Nat}
    (faces : (footingUpTo gap).facing stream) (keeps : stream.peeked = none ∨ 0 < length) :
    Accounted gap.Refuses (footingUpTo gap).settled (request length stream) := by
  obtain ⟨rest, taken, faces⟩ := faces
  rcases Nat.lt_or_ge rest.length length with short | enough
  · obtain ⟨error, after, ran, refuses⟩ := draws.of_lt faces short
    rw [ran]
    exact refuses
  · obtain ⟨front, back, rfl, rfl⟩ := Bytes.exists_append_of_le enough
    obtain ⟨after, ran, holds⟩ := draws.of_le faces (keeps.imp_right List.length_pos_iff.mp)
    rw [ran]
    exact ⟨back, _, holds⟩

end Requests

/-- A stream before a gap is refused nothing but at the gap. Each request either finds enough
bytes in front of the gap and stays before it, or comes to the gap and is refused for the reason
that the gap gives; a look is refused there only where no byte is left in front. -/
theorem firm_footingUpTo (gap : Gap) : (footingUpTo gap).Firm where
  facing_of_settled := by
    rintro stream ⟨rest, taken, _, faces⟩
    exact ⟨rest, taken, faces⟩
  next := by
    rintro stream ⟨rest, taken, faces⟩
    cases rest with
    | nil =>
      rcases peek_upTo_of_nil faces with ⟨error, ran, reports⟩ | ⟨ran, reports⟩
      · exact .inl ⟨error, _, ran, reports, rfl, rfl⟩
      · exact .inr (.inl ⟨_, ran, reports, rfl, rfl⟩)
    | cons byte rest =>
      obtain ⟨after, ran, again, faces⟩ := peek_upTo_of_cons faces
      exact .inr (.inr ⟨byte, after, ran, again, ⟨_, taken, faces⟩,
        asks_skip.draws.accounted ⟨_, taken, faces⟩ (.inr Nat.one_pos)⟩)
  read length := by
    rintro stream ⟨rest, taken, nothing, faces⟩
    exact asks_read.draws.accounted ⟨rest, taken, faces⟩ (.inl nothing)
  take length := by
    rintro stream ⟨rest, taken, nothing, faces⟩
    exact asks_take.draws.accounted ⟨rest, taken, faces⟩ (.inl nothing)
  skip length := by
    rintro stream ⟨rest, taken, nothing, faces⟩
    exact asks_skip.draws.accounted ⟨rest, taken, faces⟩ (.inl nothing)

end Stream

namespace Coupling

/-- Two streams with the same bytes to come, each before a gap of its own. Whatever the left one
is refused with at its gap is excused, and behind any other failure they stand level. -/
def gaps (left right : Gap) : Coupling Stream Stream where
  settled source target :=
    ∃ rest taken, source.HoldsUpTo left rest taken ∧ target.HoldsUpTo right rest taken
  facing source target :=
    ∃ rest taken, source.FacesUpTo left rest taken ∧ target.FacesUpTo right rest taken
  failed source target := source.position = target.position
  excused := left.Reports

variable {left right : Gap} {shape : Nat → Type}
  {request : (length : Nat) → Fetch Stream (shape length)}
  {given : (front : Bytes) → shape front.length}

/-- A request that is met before the gap on the left is met alike before the gap on the right.
Both streams have the same bytes in front, so whether there are enough of them is the same
question on both sides, and the gaps are not seen where there are. -/
theorem follows_gaps (draws : Stream.Draws request given) {source target : Stream} {rest : Bytes}
    {taken length : Nat}
    (faces : source.FacesUpTo left rest taken) (faces' : target.FacesUpTo right rest taken)
    (keeps : source.peeked = none ∧ target.peeked = none ∨ 0 < length) :
    (gaps left right).Follows (gaps left right).settled (request length source)
      (request length target) := by
  rcases Nat.lt_or_ge rest.length length with short | enough
  · obtain ⟨error, after, ran, reports, _⟩ := draws.of_lt faces short
    rw [ran]
    exact .inl reports
  · obtain ⟨front, back, rfl, rfl⟩ := Bytes.exists_append_of_le enough
    obtain ⟨after, ran, holds⟩ :=
      draws.of_le faces (keeps.imp And.left List.length_pos_iff.mp)
    obtain ⟨behind, ran', holds'⟩ :=
      draws.of_le faces' (keeps.imp And.right List.length_pos_iff.mp)
    rw [ran, ran']
    exact ⟨behind, rfl, back, _, holds, holds'⟩

/-- A request tracks itself between settled streams before two gaps. -/
theorem tracks_gaps (draws : Stream.Draws request given) (length : Nat) :
    (gaps left right).Tracks (gaps left right).settled (gaps left right).settled (request length)
      (request length) := by
  rintro source target ⟨rest, taken, ⟨nothing, faces⟩, nothing', faces'⟩
  exact follows_gaps draws faces faces' (.inl ⟨nothing, nothing'⟩)

/-- Two streams with the same bytes before their gaps answer alike until the left one is refused
at its gap. What is excused is exactly what the left gap reports, so nothing need be known of the
right one behind it: it may end, fail or go on. -/
theorem sound_gaps (left right : Gap) : (gaps left right).Sound where
  facing_of_settled := by
    rintro source target ⟨rest, taken, ⟨_, faces⟩, _, faces'⟩
    exact ⟨rest, taken, faces, faces'⟩
  failed_of_facing := by
    rintro source target ⟨rest, taken, ⟨_, _, _, counted⟩, _, _, _, counted'⟩
    exact counted.trans counted'.symm
  position_eq := by
    rintro source target ⟨rest, taken, ⟨_, _, _, counted⟩, _, _, _, counted'⟩
    exact counted.trans counted'.symm
  next := by
    rintro source target ⟨rest, taken, faces, faces'⟩
    cases rest with
    | nil =>
      rcases Stream.peek_upTo_of_nil faces with ⟨error, ran, reports⟩ | ⟨ran, reports⟩
      · exact .inl ⟨error, _, ran, .inl reports⟩
      · exact .inr (.inl ⟨_, ran, .inl reports⟩)
    | cons byte rest =>
      obtain ⟨after, ran, _, faces⟩ := Stream.peek_upTo_of_cons faces
      obtain ⟨behind, ran', _, faces'⟩ := Stream.peek_upTo_of_cons faces'
      exact .inr (.inr ⟨byte, after, behind, ran, ran', ⟨_, taken, faces, faces'⟩,
        follows_gaps Stream.asks_skip.draws faces faces' (.inr Nat.one_pos)⟩)
  read := tracks_gaps Stream.asks_read.draws
  take := tracks_gaps Stream.asks_take.draws
  skip := tracks_gaps Stream.asks_skip.draws
  ensures _ _ target related := ⟨target, rfl, related⟩

end Coupling

end Amqp
