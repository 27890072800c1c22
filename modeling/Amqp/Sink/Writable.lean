import Amqp.Sink

/-!
# What can be written to

Whoever writes needs of a sink only its operations: how much is written, and ways to add bytes, to
replace some of them, to open a gap among them, and to cut back. A sink has these operations, and so
has a loan of something that has them: what is done to the loan is done to its owner.
-/

namespace Amqp

/-- The operations on something that bytes are written to. A refused operation has no result. -/
class Writable (σ : Type) where
  /-- The bytes written. -/
  content : σ → Bytes
  /-- The number of bytes written. -/
  written : σ → Nat
  /-- Write bytes at the end. -/
  put : σ → Bytes → σ
  /-- Replace bytes from an offset on. -/
  patch? : σ → Nat → Bytes → Option σ
  /-- Open a gap of zeros of a length at an offset. -/
  widen? : σ → Nat → Nat → Option σ
  /-- Cut back to a length. -/
  truncate : σ → Nat → σ

instance : Writable Sink where
  content := Sink.toBytes
  written := Sink.written
  put := Sink.put
  patch? := Sink.patch?
  widen? := Sink.widen?
  truncate := Sink.truncate

/-- A loan of something to write to. -/
structure Loan (σ : Type) where
  owner : σ

instance {σ : Type} [Writable σ] : Writable (Loan σ) where
  content loan := Writable.content loan.owner
  written loan := Writable.written loan.owner
  put loan bytes := ⟨Writable.put loan.owner bytes⟩
  patch? loan offset bytes := (Writable.patch? loan.owner offset bytes).map Loan.mk
  widen? loan offset length := (Writable.widen? loan.owner offset length).map Loan.mk
  truncate loan length := ⟨Writable.truncate loan.owner length⟩

end Amqp
