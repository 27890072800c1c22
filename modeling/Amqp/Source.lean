import Amqp.Error

/-!
# Sources of bytes

A decoder asks a source for its next byte without taking it, for exactly so many
bytes, for a payload, or to pass over some bytes. A source knows how many bytes it
has handed out, and some sources know how many are left. A refused request is an
ordinary result: the source goes on in the state that the refusal left it in.
-/

namespace Amqp

/-- A computation on a source. The state survives a failure. -/
abbrev Fetch (σ : Type) := EStateM Error σ

/-- The requests a source of bytes answers. -/
class Source (σ : Type) where
  /-- The number of bytes left, for sources that know it. -/
  remaining : σ → Option Nat
  /-- The number of bytes handed out or passed over. -/
  position : σ → Nat
  /-- A bound on the bytes that can still be handed out. -/
  pending : σ → Nat
  /-- The next byte, which stays in place. -/
  peek : Fetch σ (Option UInt8)
  /-- Exactly so many bytes. -/
  read : (length : Nat) → Fetch σ (Vector UInt8 length)
  /-- A payload of a length. -/
  take : (length : Nat) → Fetch σ Bytes
  /-- Pass over so many bytes. -/
  skip : (length : Nat) → Fetch σ Unit

namespace Source

variable {σ : Type} [Source σ]

/-- Whether there is a next byte. -/
def hasRemaining : Fetch σ Bool := return (← peek).isSome

/-- The number whose bytes come next. -/
def readNat (width : Nat) : Fetch σ Nat := return Bytes.beValue (← read width).toList

/-- The next byte. -/
def readUInt8 : Fetch σ UInt8 := return UInt8.ofNat (← readNat 1)

/-- The next two bytes as a number. -/
def readUInt16 : Fetch σ UInt16 := return UInt16.ofNat (← readNat 2)

/-- The next four bytes as a number. -/
def readUInt32 : Fetch σ UInt32 := return UInt32.ofNat (← readNat 4)

/-- The next eight bytes as a number. -/
def readUInt64 : Fetch σ UInt64 := return UInt64.ofNat (← readNat 8)

/-- The position of the source at this point of a computation. -/
def getPosition : Fetch σ Nat := return position (← get)

end Source

end Amqp
