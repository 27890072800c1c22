import Amqp.Kind
import Amqp.Text.Utf8

/-!
# Why reading or writing fails

Every failure is one of thirteen causes, and its wording is a function of the cause.
Callers act on two classes. An end of input may be cured by more bytes. Malformed
input never is. A value that is well formed but not of the expected type belongs to
neither class, and no cause belongs to both.
-/

namespace Amqp

/-- The kinds of failures of an underlying reader that callers tell apart. -/
inductive IoKind where
  | unexpectedEof
  | wouldBlock
  | other
  deriving DecidableEq, Repr

/-- A failure reported by an underlying reader. -/
structure IoFailure where
  kind : IoKind
  message : String
  deriving DecidableEq, Repr

/-- The cause of a failure. -/
inductive Error where
  /-- The underlying reader failed. -/
  | io (failure : IoFailure)
  /-- The input ended inside a value. -/
  | unexpectedEof
  /-- No constructor has this byte. -/
  | unknownCode (byte : UInt8)
  /-- A length or size exceeds what is known to be left. -/
  | lengthExceedsRemaining (declared remaining : Nat)
  /-- A map holds a key without a value. -/
  | oddMapCount (count : Nat)
  /-- The elements of a container take more or fewer bytes than it declares. -/
  | sizeMismatch (container : Kind) (declared consumed : Nat)
  /-- Any other breach of the encoding rules. -/
  | malformed (reason : String)
  /-- A value is nested deeper than the limit. -/
  | nestingTooDeep (limit : Nat)
  /-- A value is not of the expected type. -/
  | unexpectedType (expected got : String)
  /-- A field of a described list is at fault. -/
  | invalidField (field : String) (cause : Error)
  /-- A string or symbol is not valid text. -/
  | invalidUtf8 (fault : Utf8.Fault)
  /-- A length, size or count does not fit its prefix. -/
  | tooLong
  /-- The elements of an array cannot share one constructor. -/
  | invalidArray (reason : String)
  deriving DecidableEq, Repr

namespace Error

/-- The wording of a failure. -/
def message : Error → String
  | io failure => s!"io error: {failure.message}"
  | unexpectedEof => "unexpected end of input"
  | unknownCode byte => "unknown encoding code: 0x" ++ Bytes.hex [byte]
  | lengthExceedsRemaining declared remaining =>
    s!"declared length {declared} exceeds the {remaining} remaining bytes"
  | oddMapCount count => s!"map has an odd element count: {count}"
  | sizeMismatch container declared consumed =>
    container.name ++ s!" size mismatch: declared {declared} bytes, consumed {consumed} bytes"
  | malformed reason => s!"malformed encoding: {reason}"
  | nestingTooDeep limit => s!"values are nested deeper than {limit} levels"
  | unexpectedType expected got => s!"unexpected type: expected {expected}, got {got}"
  | invalidField field cause => s!"invalid field {field}: " ++ message cause
  | invalidUtf8 fault => "invalid utf-8: " ++ fault.message
  | tooLong => "element is too long: number too large to fit in target type"
  | invalidArray reason => s!"cannot encode array: {reason}"

/-- Whether the input ended too early, so that more bytes may cure the failure. -/
def isEof : Error → Bool
  | unexpectedEof => true
  | io failure => failure.kind = .unexpectedEof
  | invalidField _ cause => isEof cause
  | _ => false

/-- Whether the input breaks the encoding rules, so that no more bytes cure it. -/
def isMalformed : Error → Bool
  | unknownCode _ | lengthExceedsRemaining .. | oddMapCount _ | sizeMismatch .. | malformed _
  | nestingTooDeep _ | invalidUtf8 _ => true
  | invalidField _ cause => isMalformed cause
  | _ => false

/-- A reader's failure as seen by a read that wanted bytes: one of the end-of-input
kind is an end of input. -/
def ofIo (failure : IoFailure) : Error :=
  if failure.kind = .unexpectedEof then .unexpectedEof else .io failure

/-- No failure is both an early end and malformed input. -/
theorem not_isMalformed_of_isEof {error : Error} (early : error.isEof = true) :
    error.isMalformed = false := by
  induction error <;> simp_all [isEof, isMalformed]

/-- Seen by a read, a reader's failure is an early end exactly when its kind says so. -/
theorem isEof_ofIo (failure : IoFailure) :
    (ofIo failure).isEof = true ↔ failure.kind = .unexpectedEof := by
  by_cases kind : failure.kind = .unexpectedEof <;> simp [ofIo, isEof, kind]

end Error

end Amqp
