import Amqp.Bytes
import Amqp.Traversal

/-!
# UTF-8, and where it goes wrong

A byte string is cut from the left into characters and faults. A fault is the
longest run of bytes that could begin a character but is then continued wrongly, or
one byte that can begin none; the cut goes on with the byte after it. A character
that the end of the input interrupts is a fault of its own sort, because more bytes
could still complete it. The bounds on the byte after the lead exclude overlong
forms, surrogates and numbers beyond the last code point.

Strict reading refuses at the first fault and says where it begins. Lossy reading
puts one replacement character in the place of each fault. Both are defined over the
same cut, so they agree on every text without a fault.
-/

namespace Amqp.Utf8

/-- The bytes of a text. -/
def encode (text : String) : Bytes := text.toByteArray.data.toList

/-- A character of which some bytes are read. The next byte must lie between `low`
and `high`, and `left` more follow that one; `value` holds the bits read so far and
`seen` the number of bytes. -/
structure Pending where
  low : UInt8
  high : UInt8
  left : Nat
  value : Nat
  seen : Nat
  deriving Repr, DecidableEq

/-- What a byte can be at the beginning of a character. -/
inductive Lead where
  | character (char : Char)
  | opens (pending : Pending)
  | stray
  deriving Repr, DecidableEq

/-- The role of a byte at the beginning of a character. -/
def lead (byte : UInt8) : Lead :=
  let n := byte.toNat
  if n < 0x80 then .character (Char.ofNat n)
  else if n < 0xC2 then .stray
  else if n < 0xE0 then .opens ⟨0x80, 0xBF, 0, n - 0xC0, 1⟩
  else if n = 0xE0 then .opens ⟨0xA0, 0xBF, 1, 0, 1⟩
  else if n = 0xED then .opens ⟨0x80, 0x9F, 1, n - 0xE0, 1⟩
  else if n < 0xF0 then .opens ⟨0x80, 0xBF, 1, n - 0xE0, 1⟩
  else if n = 0xF0 then .opens ⟨0x90, 0xBF, 2, 0, 1⟩
  else if n < 0xF4 then .opens ⟨0x80, 0xBF, 2, n - 0xF0, 1⟩
  else if n = 0xF4 then .opens ⟨0x80, 0x8F, 2, 4, 1⟩
  else .stray

/-- A piece of the cut: a character, or a fault of so many bytes. -/
inductive Segment where
  | character (char : Char)
  | invalid (length : Nat)
  | truncated (length : Nat)
  deriving Repr, DecidableEq

/-- The state of the cut: the character begun, if any, and the pieces behind it,
latest first. -/
abbrev Cut := Option Pending × List Segment

/-- Continue the cut with a byte that begins a character. -/
def startWith (byte : UInt8) (done : List Segment) : Cut :=
  match lead byte with
  | .character char => (none, .character char :: done)
  | .opens pending => (some pending, done)
  | .stray => (none, .invalid 1 :: done)

/-- Continue the cut with one byte. A byte that does not fit the character begun
ends it as a fault and is looked at afresh. -/
def feed : Cut → UInt8 → Cut
  | (none, done), byte => startWith byte done
  | (some pending, done), byte =>
    if pending.low ≤ byte ∧ byte ≤ pending.high then
      let value := pending.value * 64 + byte.toNat % 64
      match pending.left with
      | 0 => (none, .character (Char.ofNat value) :: done)
      | left + 1 => (some ⟨0x80, 0xBF, left, value, pending.seen + 1⟩, done)
    else
      startWith byte (.invalid pending.seen :: done)

/-- The pieces in order once the input has ended. -/
def finish : Cut → List Segment
  | (none, done) => done.reverse
  | (some pending, done) => (.truncated pending.seen :: done).reverse

/-- The cut of a byte string into characters and faults. -/
def segments (bytes : Bytes) : List Segment := finish (bytes.foldl feed (none, []))

/-- The first fault of a byte string: the index of its first byte, and its length
unless the end of the input is what interrupts it. -/
structure Fault where
  index : Nat
  length : Option Nat
  deriving Repr, DecidableEq

/-- The wording of a fault. -/
def Fault.message (fault : Fault) : String :=
  match fault.length with
  | some length => s!"invalid utf-8 sequence of {length} bytes from index {fault.index}"
  | none => s!"incomplete utf-8 byte sequence from index {fault.index}"

/-- The characters of a cut, or its first fault. The index counts the bytes of the
characters before, which are held latest first. -/
def characters : (index : Nat) → (before : List Char) → List Segment → Except Fault (List Char)
  | _, before, [] => .ok before.reverse
  | index, before, .character char :: rest =>
    characters (index + char.utf8Size) (char :: before) rest
  | index, _, .invalid length :: _ => .error ⟨index, some length⟩
  | index, _, .truncated _ :: _ => .error ⟨index, none⟩

/-- The text of a byte string, refused at its first fault. -/
def decode (bytes : Bytes) : Except Fault String :=
  (characters 0 [] (segments bytes)).map String.ofList

/-- The character shown for a piece when faults are repaired. -/
def Segment.repaired : Segment → Char
  | .character char => char
  | .invalid _ | .truncated _ => Char.ofNat 0xFFFD

/-- The text of a byte string with every fault replaced by one character. -/
def decodeLossy (bytes : Bytes) : String :=
  String.ofList ((segments bytes).map Segment.repaired)

/-- Characters that are read without a fault are the pieces themselves. -/
theorem characters_eq_ok {index : Nat} {before result : List Char} {pieces : List Segment}
    (read : characters index before pieces = .ok result) :
    result = before.reverse ++ pieces.map Segment.repaired := by
  induction pieces generalizing index before with
  | nil => cases read; simp
  | cons piece rest inductionHypothesis =>
    cases piece with
    | character char => simpa [characters, Segment.repaired] using inductionHypothesis read
    | invalid length => cases read
    | truncated length => cases read

/-- Repairing changes nothing in a text that strict reading accepts. -/
theorem decodeLossy_of_decode {bytes : Bytes} {text : String} (read : decode bytes = .ok text) :
    decodeLossy bytes = text := by
  obtain ⟨found, ran, rfl⟩ := map_eq_ok_iff.mp read
  rw [characters_eq_ok ran]
  rfl

end Amqp.Utf8
