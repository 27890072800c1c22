/-!
# The kinds of values

A value of the type system has one of twenty-five kinds. The kind decides which
constructor bytes may introduce it, whether elements may share an array, and the
word that a type mismatch uses for it. Described values form one kind here; which
described type they belong to is a separate question.
-/

namespace Amqp

/-- The kinds of values, one for each variant of `Value`. -/
inductive Kind where
  | null
  | boolean
  | ubyte
  | ushort
  | uint
  | ulong
  | byte
  | short
  | int
  | long
  | float
  | double
  | decimal32
  | decimal64
  | decimal128
  | char
  | timestamp
  | uuid
  | binary
  | string
  | symbol
  | list
  | map
  | array
  | described
  deriving DecidableEq, Repr, Inhabited

namespace Kind

/-- The name the type system gives a kind, as it appears in error texts. -/
def name : Kind → String
  | null => "null"
  | boolean => "boolean"
  | ubyte => "ubyte"
  | ushort => "ushort"
  | uint => "uint"
  | ulong => "ulong"
  | byte => "byte"
  | short => "short"
  | int => "int"
  | long => "long"
  | float => "float"
  | double => "double"
  | decimal32 => "decimal32"
  | decimal64 => "decimal64"
  | decimal128 => "decimal128"
  | char => "char"
  | timestamp => "timestamp"
  | uuid => "uuid"
  | binary => "binary"
  | string => "string"
  | symbol => "symbol"
  | list => "list"
  | map => "map"
  | array => "array"
  | described => "described"

end Kind

end Amqp
