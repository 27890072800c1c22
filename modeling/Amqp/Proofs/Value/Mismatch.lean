import Amqp.Proofs.Resolution

/-!
# Values of another type than expected

A value is refused because it, or a value inside it, is not of the type expected there, and for no
other reason. The body of a known described type may also be refused because of one of its
fields. Then the error names this field around the cause, and the cause is not a field in turn,
because what a field holds has been read by then.

Such a failure is neither an early end nor malformed input.
-/

namespace Amqp

namespace Error

/-- Whether a value is well formed but not of the expected type, by itself or as a field. -/
def isMismatch : Error → Bool
  | unexpectedType .. | invalidField _ (unexpectedType ..) => true
  | _ => false

/-- A value of another type is neither an early end nor malformed. -/
theorem eq_false_of_isMismatch {error : Error} (mismatched : error.isMismatch = true) :
    error.isEof = false ∧ error.isMalformed = false := by
  unfold isMismatch at mismatched
  split at mismatched
  · exact ⟨rfl, rfl⟩
  · exact ⟨rfl, rfl⟩
  · cases mismatched

/-- A field that is not of the expected type is blamed for this, and not for a field in turn. -/
theorem eq_unexpectedType_of_isMismatch {field : String} {cause : Error}
    (mismatched : (invalidField field cause).isMismatch = true) :
    ∃ expected got, cause = .unexpectedType expected got := by
  cases cause <;> cases mismatched
  exact ⟨_, _, rfl⟩

end Error

variable {value : Value} {error : Error}

/-- A key is refused because it is not of the expected type. -/
theorem KeyType.eq_mismatch_of_read {type : KeyType} (refused : type.read value = .error error) :
    error = value.mismatch type.name := by
  unfold KeyType.read at refused
  split at refused
  · split at refused <;> cases refused
    rfl
  · cases refused
    rfl

/-- A value is refused because it, or a value inside it, is not of the expected type. The value
inside is a symbol of an array, a key of a map or a value of one, and it is the one that is
named. -/
theorem Ty.exists_mismatch_of_read {type : Ty} (refused : type.read value = .error error) :
    ∃ (inside : Value) (expected : String), error = inside.mismatch expected := by
  induction type generalizing value error with
  | any => cases refused
  | kinds admitted name =>
    rw [Ty.read] at refused
    split at refused <;> cases refused
    exact ⟨_, _, rfl⟩
  | symbols =>
    simp only [Ty.read] at refused
    split at refused
    · cases refused
    · split at refused <;> cases refused
      exact ⟨_, _, rfl⟩
    · cases refused
      exact ⟨_, _, rfl⟩
  | typedMap keys values inductionHypothesis =>
    simp only [Ty.read] at refused
    split at refused
    · next entries =>
      -- the refusal is that of one entry, of its key if not of its value
      have failed := map_eq_error_iff.mp (read_map.symm.trans refused)
      obtain ⟨entry, _, blamed⟩ := exists_of_mapM_error failed
      rcases readEntry_eq_error_iff.mp blamed with first | ⟨_, second⟩
      · exact ⟨_, _, KeyType.eq_mismatch_of_read first⟩
      · exact inductionHypothesis second
    · cases refused
      exact ⟨_, _, rfl⟩
  | forms admitted name =>
    simp only [Ty.read] at refused
    split at refused
    · split at refused
      · split at refused <;> cases refused
        exact ⟨_, _, rfl⟩
      · cases refused
        exact ⟨_, _, rfl⟩
    · cases refused
      exact ⟨_, _, rfl⟩
  | optional inner inductionHypothesis =>
    cases value with
    | null => cases refused
    | _ => exact inductionHypothesis refused

/-- A value that is not of a type is refused as such. -/
theorem Ty.isMismatch_of_read {type : Ty} (refused : type.read value = .error error) :
    error.isMismatch = true := by
  obtain ⟨inside, expected, rfl⟩ := exists_mismatch_of_read refused
  rfl

/-- A field is refused for a value of another type, and names itself around the cause. -/
theorem Field.isMismatch_of_read {field : Field} (refused : field.read value = .error error) :
    error.isMismatch = true := by
  have set : value ≠ .null := by
    rintro rfl
    cases refused
  rw [read_of_ne_null set, mapError_eq_error_iff] at refused
  obtain ⟨cause, refused, rfl⟩ := refused
  obtain ⟨inside, expected, rfl⟩ := Ty.exists_mismatch_of_read refused
  rfl

/-- The body of a known described type is refused for a value of another type. For a composite
this is a field, or the body as a whole if it is no list. -/
theorem Form.isMismatch_of_readBody {form : Form} (refused : form.readBody value = .error error) :
    error.isMismatch = true := by
  cases form with
  | composite form =>
    cases value with
    | list values =>
      obtain ⟨index, field, _, blamed, _⟩ :=
        Field.readAll_eq_error_iff.mp (readBody_eq_error_iff.mp refused)
      exact Field.isMismatch_of_read blamed
    | _ =>
      cases refused
      rfl
  | content part => exact Ty.isMismatch_of_read (map_eq_error_iff.mp refused)

/-- A described value is refused for a value of another type, by itself or as a field. -/
theorem Registry.isMismatch_of_resolve {registry : Registry} {descriptor : Descriptor}
    (refused : registry.resolve descriptor value = .error error) : error.isMismatch = true := by
  unfold resolve at refused
  split at refused
  · exact Form.isMismatch_of_readBody refused
  · cases refused

end Amqp
