import Amqp.Source

/-!
# Bytes that are all at hand

A buffer holds every byte there will be, so it knows how many are left and refuses a
request for more before it takes any. A refused request changes nothing.
-/

namespace Amqp

/-- The bytes not yet taken, and the number of bytes taken. The count of the former
is kept beside them. -/
@[ext] structure Buffer where
  rest : Bytes
  position : Nat
  remaining : Nat
  remaining_eq : remaining = rest.length

namespace Buffer

/-- A buffer over some bytes, at their beginning. -/
def ofBytes (bytes : Bytes) : Buffer := ⟨bytes, 0, bytes.length, rfl⟩

/-- The buffer after its first bytes are taken. -/
def advance (buffer : Buffer) (length : Nat) : Buffer where
  rest := buffer.rest.drop length
  position := buffer.position + length
  remaining := buffer.remaining - length
  remaining_eq := by simp [buffer.remaining_eq]

/-- The first bytes of a buffer that holds enough of them. -/
def first (buffer : Buffer) (length : Nat) (enough : length ≤ buffer.remaining) :
    Vector UInt8 length :=
  ⟨(buffer.rest.take length).toArray, by
    have counted := buffer.remaining_eq
    simp only [List.size_toArray, List.length_take]
    omega⟩

instance : Source Buffer where
  remaining buffer := some buffer.remaining
  position := position
  pending := remaining
  peek := fun buffer => .ok buffer.rest.head? buffer
  read length := fun buffer =>
    if enough : length ≤ buffer.remaining then
      .ok (buffer.first length enough) (buffer.advance length)
    else .error .unexpectedEof buffer
  take length := fun buffer =>
    if length ≤ buffer.remaining then .ok (buffer.rest.take length) (buffer.advance length)
    else .error .unexpectedEof buffer
  skip length := fun buffer =>
    if length ≤ buffer.remaining then .ok () (buffer.advance length)
    else .error .unexpectedEof buffer

end Buffer

end Amqp
