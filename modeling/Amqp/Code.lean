import Amqp.Kind

/-!
# Constructor bytes

Every encoded value begins with one byte that fixes its kind and the width of what
follows. Forty of the 256 bytes are assigned. The high half of the byte gives the
width class: a payload of fixed width, a length and that many bytes, or a size and
a count and then elements. The byte zero announces a descriptor instead.

The two directions between bytes and constructors are inverse to one another, and
widening changes neither the kind nor the class, only the width of the prefix.
-/

namespace Amqp

/-- What follows a constructor byte. The number is the width in bytes of the
payload, of the length, or of the size and the count each. -/
inductive Category where
  | fixed (width : Nat)
  | variable (width : Nat)
  | compound (width : Nat)
  | described
  deriving DecidableEq, Repr

/-- The assigned constructor bytes. A number in a name is the number of bits of the
length or the count; `small` forms hold their payload in one byte, and forms that
end in zero hold none. -/
inductive Code where
  | described
  | null
  | booleanTrue
  | booleanFalse
  | uint0
  | ulong0
  | list0
  | ubyte
  | byte
  | smallUint
  | smallUlong
  | smallInt
  | smallLong
  | boolean
  | ushort
  | short
  | uint
  | int
  | float
  | char
  | decimal32
  | ulong
  | long
  | double
  | timestamp
  | decimal64
  | decimal128
  | uuid
  | binary8
  | string8
  | symbol8
  | binary32
  | string32
  | symbol32
  | list8
  | map8
  | list32
  | map32
  | array8
  | array32
  deriving DecidableEq, Repr, Inhabited

namespace Code

/-- The byte of a constructor. -/
def toByte : Code → UInt8
  | described => 0x00
  | null => 0x40
  | booleanTrue => 0x41
  | booleanFalse => 0x42
  | uint0 => 0x43
  | ulong0 => 0x44
  | list0 => 0x45
  | ubyte => 0x50
  | byte => 0x51
  | smallUint => 0x52
  | smallUlong => 0x53
  | smallInt => 0x54
  | smallLong => 0x55
  | boolean => 0x56
  | ushort => 0x60
  | short => 0x61
  | uint => 0x70
  | int => 0x71
  | float => 0x72
  | char => 0x73
  | decimal32 => 0x74
  | ulong => 0x80
  | long => 0x81
  | double => 0x82
  | timestamp => 0x83
  | decimal64 => 0x84
  | decimal128 => 0x94
  | uuid => 0x98
  | binary8 => 0xa0
  | string8 => 0xa1
  | symbol8 => 0xa3
  | binary32 => 0xb0
  | string32 => 0xb1
  | symbol32 => 0xb3
  | list8 => 0xc0
  | map8 => 0xc1
  | list32 => 0xd0
  | map32 => 0xd1
  | array8 => 0xe0
  | array32 => 0xf0

/-- The constructor a byte stands for, or nothing for an unassigned byte. -/
def ofByte? : UInt8 → Option Code
  | 0x00 => some described
  | 0x40 => some null
  | 0x41 => some booleanTrue
  | 0x42 => some booleanFalse
  | 0x43 => some uint0
  | 0x44 => some ulong0
  | 0x45 => some list0
  | 0x50 => some ubyte
  | 0x51 => some byte
  | 0x52 => some smallUint
  | 0x53 => some smallUlong
  | 0x54 => some smallInt
  | 0x55 => some smallLong
  | 0x56 => some boolean
  | 0x60 => some ushort
  | 0x61 => some short
  | 0x70 => some uint
  | 0x71 => some int
  | 0x72 => some float
  | 0x73 => some char
  | 0x74 => some decimal32
  | 0x80 => some ulong
  | 0x81 => some long
  | 0x82 => some double
  | 0x83 => some timestamp
  | 0x84 => some decimal64
  | 0x94 => some decimal128
  | 0x98 => some uuid
  | 0xa0 => some binary8
  | 0xa1 => some string8
  | 0xa3 => some symbol8
  | 0xb0 => some binary32
  | 0xb1 => some string32
  | 0xb3 => some symbol32
  | 0xc0 => some list8
  | 0xc1 => some map8
  | 0xd0 => some list32
  | 0xd1 => some map32
  | 0xe0 => some array8
  | 0xf0 => some array32
  | _ => none

/-- Reading a written constructor byte gives the constructor back. -/
@[simp] theorem ofByte?_toByte (code : Code) : ofByte? code.toByte = some code := by
  cases code <;> rfl

/-- Only its own byte stands for a constructor. -/
theorem toByte_of_ofByte? {byte : UInt8} {code : Code} (assigned : ofByte? byte = some code) :
    code.toByte = byte := by
  unfold ofByte? at assigned
  split at assigned <;> first | (cases assigned; rfl) | cases assigned

/-- The width class of a constructor. -/
def category : Code → Category
  | described => .described
  | null | booleanTrue | booleanFalse | uint0 | ulong0 | list0 => .fixed 0
  | ubyte | byte | smallUint | smallUlong | smallInt | smallLong | boolean => .fixed 1
  | ushort | short => .fixed 2
  | uint | int | float | char | decimal32 => .fixed 4
  | ulong | long | double | timestamp | decimal64 => .fixed 8
  | decimal128 | uuid => .fixed 16
  | binary8 | string8 | symbol8 => .variable 1
  | binary32 | string32 | symbol32 => .variable 4
  | list8 | map8 | array8 => .compound 1
  | list32 | map32 | array32 => .compound 4

/-- The kind of value a constructor introduces. -/
def kind : Code → Kind
  | described => .described
  | null => .null
  | booleanTrue | booleanFalse | boolean => .boolean
  | ubyte => .ubyte
  | ushort => .ushort
  | uint0 | smallUint | uint => .uint
  | ulong0 | smallUlong | ulong => .ulong
  | byte => .byte
  | short => .short
  | smallInt | int => .int
  | smallLong | long => .long
  | float => .float
  | double => .double
  | decimal32 => .decimal32
  | decimal64 => .decimal64
  | decimal128 => .decimal128
  | char => .char
  | timestamp => .timestamp
  | uuid => .uuid
  | binary8 | binary32 => .binary
  | string8 | string32 => .string
  | symbol8 | symbol32 => .symbol
  | list0 | list8 | list32 => .list
  | map8 | map32 => .map
  | array8 | array32 => .array

/-- The constructor of the same kind with four-byte lengths, sizes and counts. A
constructor without a one-byte prefix stays as it is. -/
def widen : Code → Code
  | binary8 => binary32
  | string8 => string32
  | symbol8 => symbol32
  | list8 => list32
  | map8 => map32
  | array8 => array32
  | code => code

/-- Widening keeps the kind. -/
@[simp] theorem kind_widen (code : Code) : code.widen.kind = code.kind := by
  cases code <;> rfl

/-- Widening twice is widening once. -/
@[simp] theorem widen_widen (code : Code) : code.widen.widen = code.widen := by
  cases code <;> rfl

end Code

end Amqp
