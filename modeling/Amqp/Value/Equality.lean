import Amqp.Value.View

/-!
# When two values count as equal

Programs compare values by meaning: floating point numbers by the rules of their
standard, so that no NaN equals itself and the two zeros are equal, and typed maps
without regard to order. Plain maps are lists of pairs, and their order counts. Only
the slots and contents of described types hold typed maps.

Names, byte strings, identifiers and times also have an order, byte by byte and by
number.
-/

namespace Amqp

namespace Value

/-- Whether 32 bits are a number, and not a NaN. -/
def isNumber32 (bits : UInt32) : Bool := bits &&& 0x7fffffff ≤ 0x7f800000

/-- Whether 64 bits are a number, and not a NaN. -/
def isNumber64 (bits : UInt64) : Bool := bits &&& 0x7fffffffffffffff ≤ 0x7ff0000000000000

/-- Equality of two 32-bit floating point numbers. -/
def floatEqual (left right : UInt32) : Bool :=
  isNumber32 left && isNumber32 right &&
    (left = right || (left ||| right) &&& 0x7fffffff = 0)

/-- Equality of two 64-bit floating point numbers. -/
def doubleEqual (left right : UInt64) : Bool :=
  isNumber64 left && isNumber64 right &&
    (left = right || (left ||| right) &&& 0x7fffffffffffffff = 0)

/-- The value of a key among the pairs of a typed map. -/
def lookup (key : Value) : Entries → Option Value
  | [] => none
  | (present, value) :: rest =>
    if MapKey.ofValue? present = MapKey.ofValue? key then some value else lookup key rest

mutual

/-- Whether two values count as equal. The mark says that a map here is a typed map,
whose order does not count; it is no matter for the values inside. -/
def equal (typed : Bool) : Value → Value → Bool
  | null, null => true
  | boolean left, boolean right => left = right
  | ubyte left, ubyte right => left = right
  | ushort left, ushort right => left = right
  | uint left, uint right => left = right
  | ulong left, ulong right => left = right
  | byte left, byte right => left = right
  | short left, short right => left = right
  | int left, int right => left = right
  | long left, long right => left = right
  | float left, float right => floatEqual left right
  | double left, double right => doubleEqual left right
  | decimal32 left, decimal32 right => left = right
  | decimal64 left, decimal64 right => left = right
  | decimal128 left, decimal128 right => left = right
  | char left, char right => left = right
  | timestamp left, timestamp right => left = right
  | uuid left, uuid right => left = right
  | binary left, binary right => left = right
  | string left, string right => left = right
  | symbol left, symbol right => left = right
  | list left, list right => itemsEqual left right
  | map left, map right =>
    if typed then left.length = right.length && entriesWithin left right
    else entriesEqual left right
  | array left, array right => itemsEqual left right
  | described left, described right => describedEqual left right
  | _, _ => false
termination_by structural left => left

/-- Whether two described values count as equal. -/
def describedEqual : Described → Described → Bool
  | .composite form slots, .composite form' slots' =>
    form = form' && slotsEqual (form.fields.map fun field => field.type.isTypedMap) slots slots'
  | .content part body, .content part' body' =>
    part = part' && equal part.type.isTypedMap body body'
  | .unknown descriptor body, .unknown descriptor' body' =>
    descriptor = descriptor' && equal false body body'
  | _, _ => false
termination_by structural left => left

/-- Whether two lists of values count as equal. -/
def itemsEqual : List Value → List Value → Bool
  | [], [] => true
  | left :: lefts, right :: rights => equal false left right && itemsEqual lefts rights
  | _, _ => false
termination_by structural left => left

/-- Whether two lists of slots count as equal, with a mark for each typed map. -/
def slotsEqual (typed : List Bool) : List Value → List Value → Bool
  | [], [] => true
  | left :: lefts, right :: rights =>
    equal (typed.headD false) left right && slotsEqual typed.tail lefts rights
  | _, _ => false
termination_by structural left => left

/-- Whether two lists of pairs count as equal. -/
def entriesEqual : Entries → Entries → Bool
  | [], [] => true
  | (key, left) :: lefts, (key', right) :: rights =>
    equal false key key' && equal false left right && entriesEqual lefts rights
  | _, _ => false
termination_by structural left => left

/-- Whether every key of the first list has an equal value in the second. -/
def entriesWithin : Entries → Entries → Bool
  | [], _ => true
  | (key, left) :: lefts, rights =>
    (match lookup key rights with
      | some right => equal false left right
      | none => false) && entriesWithin lefts rights
termination_by structural left => left

end

instance : BEq Value := ⟨equal false⟩

/-- The order of two byte strings: by the first byte that differs, a prefix before
what it begins. -/
def compareBytes : Bytes → Bytes → Ordering
  | [], [] => .eq
  | [], _ :: _ => .lt
  | _ :: _, [] => .gt
  | left :: lefts, right :: rights => (compare left right).then (compareBytes lefts rights)

/-- The order of two symbols, two byte strings, two identifiers or two times. Other
values have none. -/
def compare? : Value → Value → Option Ordering
  | symbol left, symbol right => some (compareBytes (Utf8.encode left) (Utf8.encode right))
  | binary left, binary right => some (compareBytes left right)
  | uuid left, uuid right => some (compareBytes left.toList right.toList)
  | timestamp left, timestamp right => some (compare left.toInt right.toInt)
  | _, _ => none

end Value

end Amqp
