import Amqp.Error

/-!
# How text becomes bytes and bytes become text

Strings travel as bytes, and a session chooses how the two correspond. A reading
hook turns the bytes of a string or symbol into text or refuses them. A writing hook
answers with the bytes of a string and may have a memory: its answer may depend on
the strings it was asked for before, so both the number and the order of the
questions matter to it. Symbols are always written in UTF-8.
-/

namespace Amqp

/-- How the bytes of a string or symbol are read as text. -/
abbrev TextDecoder := Bytes → Except Error String

namespace TextDecoder

/-- Valid UTF-8 only. -/
def strict : TextDecoder := fun bytes => (Utf8.decode bytes).mapError .invalidUtf8

/-- UTF-8 in which every fault is replaced by one character. -/
def lossy : TextDecoder := fun bytes => .ok (Utf8.decodeLossy bytes)

/-- Lossy reading agrees with strict reading wherever the latter succeeds. -/
theorem lossy_of_strict {bytes : Bytes} {text : String} (read : strict bytes = .ok text) :
    lossy bytes = .ok text := by
  rw [lossy, Utf8.decodeLossy_of_decode (mapError_eq_ok_iff.mp read)]

/-- Text that is read as UTF-8 is refused for a fault of the encoding only. -/
theorem exists_fault_of_error {text : TextDecoder}
    (builtIn : text = strict ∨ text = lossy) {content : Bytes} {error : Error}
    (refused : text content = .error error) : ∃ fault, error = .invalidUtf8 fault := by
  rcases builtIn with rfl | rfl
  · obtain ⟨fault, _, rfl⟩ := mapError_eq_error_iff.mp refused
    exact ⟨fault, rfl⟩
  · cases refused

end TextDecoder

/-- How a string is written: the answer to a question, given the earlier questions,
latest first. -/
abbrev TextEncoder := (earlier : List String) → (text : String) → Bytes

namespace TextEncoder

/-- A hook without memory gives one answer per string. -/
def ofPure (answer : String → Bytes) : TextEncoder := fun _ text => answer text

/-- UTF-8. -/
def strict : TextEncoder := ofPure Utf8.encode

end TextEncoder

end Amqp
