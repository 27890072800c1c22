import Amqp.Proofs.Sequencing
import Amqp.Source
import Mathlib.Data.List.Chain
import Mathlib.Data.List.Forall2

/-!
# Conversations with a source

A source is asked one request after the other: for a look at its next byte, for a number, for so
many bytes, or to pass over some. The record of a conversation has one exchange for each request,
with the reply and the position behind it.

What the replies should be can be read off the bytes of the source. A place in them says which
bytes are still to come, how many are taken, and whether the next one has been looked at. A look
shows the next byte and takes none. Any other request takes as many bytes as it wants and replies
by them, or goes no further where there are too few.

A byte that has been looked at may lapse. Then a request for no bytes at all, made while that byte
is held, lets it go: nothing is handed out and nothing is counted, but the byte is not among those
to come. A source has this flaw or has it not, and the conversations in which it does not show are
the careful ones. In these the replies hand out exactly the bytes in front of the position.
-/

namespace Amqp

/-- What can be asked of a source. -/
inductive Request where
  | hasRemaining
  | peek
  | uint8
  | uint16
  | uint32
  | uint64
  | read (length : Nat)
  | take (length : Nat)
  | skip (length : Nat)
  deriving DecidableEq

/-- What a source replies. -/
inductive Reply where
  | present (more : Bool)
  | next (byte : Option UInt8)
  | number (value : Nat)
  | bytes (bytes : Bytes)
  | passed
  deriving DecidableEq

/-- Whether a reply shows that there is a next byte, which is then held. -/
def Reply.shows : Reply → Bool
  | present more => more
  | next byte => byte.isSome
  | _ => false

namespace Request

/-- Make a request. -/
def ask {σ : Type} [Source σ] : Request → Fetch σ Reply
  | hasRemaining => return .present (← Source.hasRemaining)
  | peek => return .next (← Source.peek)
  | uint8 => return .number (← Source.readUInt8).toNat
  | uint16 => return .number (← Source.readUInt16).toNat
  | uint32 => return .number (← Source.readUInt32).toNat
  | uint64 => return .number (← Source.readUInt64).toNat
  | read length => return .bytes (← Source.read length).toList
  | take length => return .bytes (← Source.take length)
  | skip length => do
    Source.skip length
    return .passed

/-- Whether a request only looks at what comes next. -/
def looks : Request → Bool
  | hasRemaining | peek => true
  | _ => false

/-- The number of bytes that a request takes. -/
def length : Request → Nat
  | hasRemaining | peek => 0
  | uint8 => 1
  | uint16 => 2
  | uint32 => 4
  | uint64 => 8
  | read length | take length | skip length => length

/-- Whether a request is for bytes, but for none. -/
def takesNothing (request : Request) : Bool := !request.looks && request.length == 0

/-- The reply that the bytes to come call for, if there are enough of them. -/
def replyTo (bytes : Bytes) : Request → Reply
  | hasRemaining => .present bytes.head?.isSome
  | peek => .next bytes.head?
  | uint8 => .number (Bytes.beValue (bytes.take 1))
  | uint16 => .number (Bytes.beValue (bytes.take 2))
  | uint32 => .number (Bytes.beValue (bytes.take 4))
  | uint64 => .number (Bytes.beValue (bytes.take 8))
  | read length | take length => .bytes (bytes.take length)
  | skip _ => .passed

end Request

/-- A request, the reply to it, and the position behind it. -/
structure Exchange where
  request : Request
  reply : Reply
  position : Nat
  deriving DecidableEq

/-- Make requests one after the other until one fails, and record them. -/
def converse {σ : Type} [Source σ] : List Request → Fetch σ (List Exchange)
  | [] => return []
  | request :: later => do
    let reply ← request.ask
    let position ← Source.getPosition
    let record ← converse later
    return ⟨request, reply, position⟩ :: record

/-- A place in a byte string: the bytes to come, the number of bytes taken, and whether the next
one is held because it has been looked at. -/
structure Place where
  rest : Bytes
  taken : Nat
  held : Bool

namespace Place

/-- The place in front of all bytes. -/
def start (bytes : Bytes) : Place := ⟨bytes, 0, false⟩

/-- Where a look at the next byte leads. -/
def look (place : Place) : Place := { place with held := place.rest.head?.isSome }

/-- Where a request for so many bytes leads. If held bytes lapse, a request for none lets one go
that is held. -/
def pass (lapses : Bool) (place : Place) (length : Nat) : Place where
  rest := place.rest.drop (if lapses && place.held && length == 0 then 1 else length)
  taken := place.taken + length
  held := false

/-- Where a request leads. -/
def move (lapses : Bool) (place : Place) (request : Request) : Place :=
  if request.looks then place.look else place.pass lapses request.length

end Place

/-- The record of a conversation as the bytes call for it, and the place that it leads to. There is
none if a request wants more bytes than there are. -/
def recite (lapses : Bool) : List Request → Place → Option (List Exchange × Place)
  | [], place => some ([], place)
  | request :: later, place =>
    if request.length ≤ place.rest.length then
      (recite lapses later (place.move lapses request)).map fun (record, last) =>
        (⟨request, request.replyTo place.rest, place.taken + request.length⟩ :: record, last)
    else none

/-- No request for zero bytes comes right behind a look that has shown one. -/
def Careful (record : List Exchange) : Prop :=
  record.IsChain fun exchange next =>
    exchange.reply.shows = true → next.request.takesNothing = false

instance (record : List Exchange) : Decidable (Careful record) := by
  unfold Careful
  infer_instance

/-- An exchange hands out these bytes, or passes over them. -/
def Exchange.Conveys (exchange : Exchange) (front : Bytes) : Prop :=
  front.length = exchange.request.length ∧
    match exchange.reply with
    | .number value => front = .be exchange.request.length value
    | .bytes bytes => front = bytes
    | .present _ | .next _ | .passed => True

/-- The exchanges of a record convey, one after the other, the bytes in front of a position, and
the bytes behind it are left. -/
def Conveyed (record : List Exchange) (bytes left : Bytes) (position : Nat) : Prop :=
  ∃ fronts, List.Forall₂ Exchange.Conveys record fronts ∧ fronts.flatten = bytes.take position ∧
    position ≤ bytes.length ∧ left = bytes.drop position

namespace Place

variable {lapses : Bool} {place : Place}

/-- Every request that is met counts the bytes that it wants. -/
theorem taken_move (request : Request) :
    (place.move lapses request).taken = place.taken + request.length := by
  cases request <;> rfl

/-- Behind a request a byte is held if the reply has just shown it. -/
theorem held_move (request : Request) :
    (place.move lapses request).held = (request.replyTo place.rest).shows := by
  cases request <;> rfl

/-- Where no byte lapses, a request leads behind the bytes that it wants. -/
theorem rest_move (request : Request) :
    (place.move false request).rest = place.rest.drop request.length := by
  cases request <;> rfl

/-- A byte lapses only where one is held and a request for no bytes is made. -/
theorem move_of_not_lapsing {request : Request}
    (keeps : place.held = true → request.takesNothing = false) :
    place.move true request = place.move false request := by
  by_cases looks : request.looks = true
  · simp [move, looks]
  · simp only [Request.takesNothing, looks] at keeps
    cases held : place.held <;> simp_all [move, pass]

end Place

/-- The record of a conversation begins with the first request, if there is one. Every statement
about a record is read off this one: it says when the first request is met, what is replied and
where the others begin. -/
theorem recite_cons {lapses : Bool} {request : Request} {later : List Request} {place last : Place}
    {record : List Exchange} :
    recite lapses (request :: later) place = some (record, last) ↔
      request.length ≤ place.rest.length ∧ ∃ behind,
        recite lapses later (place.move lapses request) = some (behind, last) ∧ record =
          ⟨request, request.replyTo place.rest, place.taken + request.length⟩ :: behind := by
  by_cases enough : request.length ≤ place.rest.length
  · rw [recite, if_pos enough, Option.map_eq_some_iff, and_iff_right enough]
    constructor
    · rintro ⟨⟨behind, reached⟩, recited, same⟩
      obtain ⟨rfl, rfl⟩ := Prod.mk.inj same
      exact ⟨behind, recited, rfl⟩
    · rintro ⟨behind, recited, rfl⟩
      exact ⟨(behind, last), recited, rfl⟩
  · simp [recite, enough]

/-- In a careful conversation it does not matter whether held bytes lapse. The second premise is
that of a chain at its beginning: if a byte is held there, the first request must not be for no
bytes. It is handed on because behind a request a byte is held exactly if the reply has shown it.
-/
theorem recite_of_careful {requests : List Request} {place last : Place} {record : List Exchange}
    (careful : Careful record)
    (begins : ∀ first ∈ record.head?, place.held = true → first.request.takesNothing = false) :
    recite true requests place = some (record, last) ↔
      recite false requests place = some (record, last) := by
  induction requests generalizing place record with
  | nil => exact Iff.rfl
  | cons request later inductionHypothesis =>
    rw [recite_cons, recite_cons]
    refine and_congr_right fun _ => exists_congr fun behind => and_congr_left ?_
    rintro rfl
    obtain ⟨next, careful⟩ := List.isChain_cons.mp careful
    rw [Place.move_of_not_lapsing (begins _ rfl)]
    refine inductionHypothesis careful fun first member held => next first member ?_
    rwa [Place.held_move] at held

/-- The reply to a request that is met conveys the bytes that it wants. -/
theorem conveys_replyTo {request : Request} {bytes : Bytes} {position : Nat}
    (enough : request.length ≤ bytes.length) :
    Exchange.Conveys ⟨request, request.replyTo bytes, position⟩ (bytes.take request.length) := by
  have width : (bytes.take request.length).length = request.length :=
    List.length_take_of_le enough
  have spelled := Bytes.be_beValue (bytes.take request.length)
  rw [width] at spelled
  refine ⟨width, ?_⟩
  cases request <;> first | trivial | rfl | exact spelled.symm

/-- Where no byte lapses, a conversation conveys the bytes from where it begins to where it ends.
Each reply conveys what its request wants, and the next request begins right behind it, so
nothing is handed out twice and nothing is left out. -/
theorem conveyed_of_recite {requests : List Request} {place last : Place} {record : List Exchange}
    (recited : recite false requests place = some (record, last)) :
    ∃ fronts, List.Forall₂ Exchange.Conveys record fronts ∧
      place.rest = fronts.flatten ++ last.rest ∧
      last.taken = place.taken + fronts.flatten.length := by
  induction requests generalizing place record with
  | nil =>
    cases recited
    exact ⟨[], .nil, rfl, rfl⟩
  | cons request later inductionHypothesis =>
    obtain ⟨enough, behind, later, rfl⟩ := recite_cons.mp recited
    obtain ⟨fronts, conveys, split, counted⟩ := inductionHypothesis later
    refine ⟨place.rest.take request.length :: fronts, .cons (conveys_replyTo enough) conveys,
      ?_, ?_⟩
    · rw [List.flatten_cons, List.append_assoc, ← split, Place.rest_move, List.take_append_drop]
    · rw [counted, Place.taken_move, List.flatten_cons, List.length_append,
        List.length_take_of_le enough, Nat.add_assoc]

section Sources

variable {σ : Type} [Source σ]

/-- A request of a source that stands at places of its input. It is met by the first of the bytes
to come, in some shape, and fails where there are too few. -/
structure Met (stands : σ → Place → Prop) (lapses : Bool) {shape : Nat → Type}
    (request : (length : Nat) → Fetch σ (shape length))
    (given : (front : Bytes) → shape front.length) : Prop where
  enough {source : σ} {front rest : Bytes} {taken : Nat} {held : Bool} :
    stands source ⟨front ++ rest, taken, held⟩ →
      ∃ after, request front.length source = .ok (given front) after ∧
        stands after (Place.pass lapses ⟨front ++ rest, taken, held⟩ front.length)
  short {source : σ} {place : Place} {length : Nat} : place.rest.length < length →
    stands source place → ∃ error after, request length source = .error error after

/-- A source that stands at places of its input, and answers by what is to come there. -/
structure Placed (stands : σ → Place → Prop) (lapses : Bool) : Prop where
  position_eq {source : σ} {place : Place} : stands source place →
    Source.position source = place.taken
  peek {source : σ} {place : Place} : stands source place →
    ∃ after, Source.peek source = .ok place.rest.head? after ∧ stands after place.look
  read : Met stands lapses (@Source.read σ _) fun front => ⟨front.toArray, rfl⟩
  take : Met stands lapses (@Source.take σ _) fun front => front
  skip : Met stands lapses (@Source.skip σ _) fun _ => ()

namespace Placed

variable {stands : σ → Place → Prop} {lapses : Bool} (placed : Placed stands lapses)

include placed

/-- A number is read from the first bytes to come. -/
theorem readNat_of_append {source : σ} {front rest : Bytes} {taken : Nat} {held : Bool}
    (stood : stands source ⟨front ++ rest, taken, held⟩) :
    ∃ after, Source.readNat front.length source = .ok (Bytes.beValue front) after ∧
      stands after (Place.pass lapses ⟨front ++ rest, taken, held⟩ front.length) := by
  obtain ⟨after, ran, stood⟩ := placed.read.enough stood
  exact ⟨after, bind_of_ok ran, stood⟩

/-- A number of some width is replied as it stands there, since it fits the width. The four
widths differ in the type of the number alone, so what is asked of the type is that it keeps
numbers of so many bytes. -/
theorem reply_number {ω : Type} {ofNat : Nat → ω} {toNat : ω → Nat} {width : Nat}
    (exact : ∀ number < 256 ^ width, toNat (ofNat number) = number) {source : σ}
    {front rest : Bytes} {taken : Nat} {held : Bool}
    (stood : stands source ⟨front ++ rest, taken, held⟩) (full : front.length = width) :
    ∃ after, ((do return ofNat (← Source.readNat width)) >>= fun number =>
        pure (Reply.number (toNat number))) source =
          .ok (.number (Bytes.beValue ((front ++ rest).take width))) after ∧
      stands after (Place.pass lapses ⟨front ++ rest, taken, held⟩ width) := by
  obtain ⟨after, ran, stood⟩ := placed.readNat_of_append stood
  have small := Bytes.beValue_lt front
  rw [full] at ran stood small
  have number : (do return ofNat (← Source.readNat width) : Fetch σ ω) source =
      .ok (ofNat (Bytes.beValue front)) after := bind_of_ok ran
  refine ⟨after, (bind_of_ok number).trans ?_, stood⟩
  rw [List.take_left' full, exact _ small]
  rfl

/-- A request for no more than is to come is met with the reply that the bytes call for, and
leads the source to the place that they call for. The cases are those of the requests; the ones
for bytes cut what is to come behind as many as they want. -/
theorem ask_of_le {source : σ} {place : Place} {request : Request} (stood : stands source place)
    (enough : request.length ≤ place.rest.length) :
    ∃ after, request.ask source = .ok (request.replyTo place.rest) after ∧
      stands after (place.move lapses request) := by
  obtain ⟨rest, taken, held⟩ := place
  have many : request.length ≤ rest.length := enough
  obtain ⟨front, back, rfl, full⟩ := Bytes.exists_append_of_le many
  cases request with
  | hasRemaining =>
    obtain ⟨after, shown, stood⟩ := placed.peek stood
    exact ⟨after, bind_of_ok (bind_of_ok shown), stood⟩
  | peek =>
    obtain ⟨after, shown, stood⟩ := placed.peek stood
    exact ⟨after, bind_of_ok shown, stood⟩
  | uint8 => exact placed.reply_number (fun _ => UInt8.toNat_ofNat_of_lt) stood full
  | uint16 => exact placed.reply_number (fun _ => UInt16.toNat_ofNat_of_lt) stood full
  | uint32 => exact placed.reply_number (fun _ => UInt32.toNat_ofNat_of_lt) stood full
  | uint64 => exact placed.reply_number (fun _ => UInt64.toNat_ofNat_of_lt) stood full
  | read length =>
    obtain rfl : front.length = length := full
    obtain ⟨after, ran, stood⟩ := placed.read.enough stood
    refine ⟨after, (bind_of_ok ran).trans ?_, stood⟩
    rw [Request.replyTo, List.take_left]
    rfl
  | take length =>
    obtain rfl : front.length = length := full
    obtain ⟨after, ran, stood⟩ := placed.take.enough stood
    refine ⟨after, (bind_of_ok ran).trans ?_, stood⟩
    rw [Request.replyTo, List.take_left]
    rfl
  | skip length =>
    obtain rfl : front.length = length := full
    obtain ⟨after, ran, stood⟩ := placed.skip.enough stood
    exact ⟨after, bind_of_ok ran, stood⟩

/-- A request for more than is to come fails. Requests that only look want no byte and cannot be
short. -/
theorem ask_of_lt {source : σ} {place : Place} {request : Request} (stood : stands source place)
    (short : place.rest.length < request.length) :
    ∃ error after, request.ask source = .error error after := by
  have number {width : Nat} (short : place.rest.length < width) :
      ∃ error after, Source.readNat width source = .error error after := by
    obtain ⟨error, after, failed⟩ := placed.read.short short stood
    exact ⟨error, after, bind_of_error failed⟩
  cases request with
  | hasRemaining | peek => exact absurd short (Nat.not_lt_zero _)
  | uint8 | uint16 | uint32 | uint64 =>
    obtain ⟨error, after, failed⟩ := number short
    exact ⟨error, after, bind_of_error (bind_of_error failed)⟩
  | read length =>
    obtain ⟨error, after, failed⟩ := placed.read.short short stood
    exact ⟨error, after, bind_of_error failed⟩
  | take length =>
    obtain ⟨error, after, failed⟩ := placed.take.short short stood
    exact ⟨error, after, bind_of_error failed⟩
  | skip length =>
    obtain ⟨error, after, failed⟩ := placed.skip.short short stood
    exact ⟨error, after, bind_of_error failed⟩

/-- A conversation has the record that the bytes call for, and leads the source to the place that
they lead to. Where the bytes give none, a request fails. Induction follows the requests, and the
invariant is that the source stands at the place that the bytes have led to so far. -/
theorem converse_follows {source : σ} {place : Place} (stood : stands source place)
    (requests : List Request) :
    match recite lapses requests place with
    | some (record, last) => ∃ after, converse requests source = .ok record after ∧
        stands after last
    | none => ∃ error after, converse requests source = .error error after := by
  induction requests generalizing source place with
  | nil => exact ⟨source, rfl, stood⟩
  | cons request later inductionHypothesis =>
    rw [recite]
    by_cases enough : request.length ≤ place.rest.length
    · obtain ⟨middle, asked, stood⟩ := placed.ask_of_le stood enough
      have counted : Source.getPosition middle = .ok (place.taken + request.length) middle := by
        rw [← Place.taken_move, ← placed.position_eq stood]
        rfl
      have follows := inductionHypothesis stood
      rw [if_pos enough]
      cases recited : recite lapses later (place.move lapses request) with
      | none =>
        rw [recited] at follows
        obtain ⟨error, after, failed⟩ := follows
        exact ⟨error, after,
          (bind_of_ok asked).trans ((bind_of_ok counted).trans (bind_of_error failed))⟩
      | some found =>
        rw [recited] at follows
        obtain ⟨after, ran, stood⟩ := follows
        exact ⟨after, (bind_of_ok asked).trans ((bind_of_ok counted).trans (bind_of_ok ran)), stood⟩
    · obtain ⟨error, after, failed⟩ := placed.ask_of_lt stood (Nat.lt_of_not_le enough)
      rw [if_neg enough]
      exact ⟨error, after, bind_of_error failed⟩

/-- What a conversation is recorded as is what the bytes call for. No premise says that it
succeeds: a conversation without a record is one that the bytes give no record. -/
theorem run'_converse {source : σ} {place : Place} (stood : stands source place)
    (requests : List Request) :
    (converse requests).run' source = (recite lapses requests place).map Prod.fst := by
  have follows := placed.converse_follows stood requests
  cases recited : recite lapses requests place with
  | none =>
    rw [recited] at follows
    obtain ⟨error, after, failed⟩ := follows
    exact run'_of_error failed
  | some found =>
    rw [recited] at follows
    obtain ⟨after, ran, _⟩ := follows
    exact run'_of_ok ran

/-- Behind a conversation the source stands where the bytes lead. A record shows that no request
failed, so it is the one that the bytes call for. -/
theorem recite_of_converse {source after : σ} {place : Place} (stood : stands source place)
    {requests : List Request} {record : List Exchange}
    (ran : converse requests source = .ok record after) :
    ∃ last, recite lapses requests place = some (record, last) ∧ stands after last := by
  have follows := placed.converse_follows stood requests
  cases recited : recite lapses requests place with
  | none =>
    rw [recited] at follows
    obtain ⟨error, other, failed⟩ := follows
    rw [failed] at ran
    cases ran
  | some found =>
    obtain ⟨record', last⟩ := found
    rw [recited] at follows
    obtain ⟨other, ran', stood⟩ := follows
    rw [ran'] at ran
    cases ran
    exact ⟨last, rfl, stood⟩

end Placed

end Sources

end Amqp
