import Amqp.Proofs.Value.Positions

/-!
# How a list becomes a composite

A descriptor that finds a composite makes a list of values its fields by position. Each value is
accepted or refused by the field at its index, whatever the other values are. A list may be too
short, because missing values are as good as nulls, and it may be too long, because values
without a field are not looked at, so that peers with fewer or more fields are understood. The
rule is the same for every composite of a registry and for both of its descriptors.

Reading stops at the first refused value. Nothing is said of the values behind it.
-/

namespace Amqp

namespace Field

variable {field : Field} {value slot : Value} {value? : Option Value} {error : Error}

/-- A field accepts null, and every value in which a datum of its type is found. -/
def Accepts (field : Field) (value : Value) : Prop :=
  value = .null ∨ ∃ datum, field.type.ofValue value = .ok datum

/-- A field refuses a value for a cause if its type does, unless the value is null. -/
structure Refuses (field : Field) (value : Value) (cause : Error) : Prop where
  set : value ≠ .null
  refused : field.type.ofValue value = .error cause

/-- What becomes of a field whose value is missing, null, or the value of a datum. A field that
is set is never taken for one that is not. -/
inductive Fills (field : Field) : Option Value → Value → Prop
  | missing : field.Fills none .null
  | unset : field.Fills (some .null) .null
  | set {value : Value} {datum : field.type.Datum} : value ≠ .null →
    field.type.ofValue value = .ok datum → field.type.toValue datum ≠ .null →
      field.Fills (some value) (field.type.toValue datum)

/-- A field reads what fills it. Null leaves it unset, and anything else must be of its type. -/
theorem fills_of_read (read : field.read (value?.getD .null) = .ok slot) :
    field.Fills value? slot := by
  cases value? with
  | none => cases read; exact .missing
  | some value =>
    rcases cases_of_read read with ⟨null, rfl⟩ | ⟨set, shown⟩
    · obtain rfl : value = .null := null
      exact .unset
    · have kept := Ty.ne_null_of_read shown set
      obtain ⟨datum, found, rfl⟩ := Ty.exists_datum_of_read shown
      exact .set set found kept

/-- A field reads every value that it accepts, and no other. What accepts is said with the data
of its type, and what is read with their values, so the two directions go through the datum that
a value shows. -/
theorem exists_read_iff : (∃ slot, field.read (value?.getD .null) = .ok slot) ↔
    ∀ value, value? = some value → field.Accepts value := by
  cases value? with
  | none => exact ⟨fun _ => nofun, fun _ => ⟨.null, rfl⟩⟩
  | some value =>
    constructor
    · rintro ⟨slot, read⟩ other present
      cases present
      rcases cases_of_read read with ⟨null, _⟩ | ⟨_, shown⟩
      · exact .inl null
      · exact .inr ((Ty.exists_datum_of_read shown).imp fun _ found => found.1)
    · intro accepts
      rcases accepts value rfl with rfl | ⟨datum, found⟩
      · exact ⟨.null, rfl⟩
      · by_cases null : value = .null
        · subst null
          exact ⟨.null, rfl⟩
        · refine ⟨field.type.toValue datum, ?_⟩
          rw [Option.getD_some, read_of_ne_null null, Ty.read_eq_ofValue, found]
          rfl

/-- The error of a field is its own name around the cause for which it refuses the value. A
missing value is never refused, so there is one. -/
theorem refuses_of_read (read : field.read (value?.getD .null) = .error error) :
    ∃ value cause, value? = some value ∧ field.Refuses value cause ∧
      error = .invalidField field.name cause := by
  cases value? with
  | none => cases read
  | some value =>
    have set : value ≠ .null := by
      rintro rfl
      cases read
    rw [Option.getD_some, read_of_ne_null set, mapError_eq_error_iff] at read
    obtain ⟨cause, refused, rfl⟩ := read
    rw [Ty.read_eq_ofValue, map_eq_error_iff] at refused
    exact ⟨value, cause, rfl, ⟨set, refused⟩, rfl⟩

end Field

/-- The rule by which values become the fields of a composite. A list is accepted if every value
that has a field is. Then there is a slot for each field, and the field is set exactly if there
is a value for it other than null. Otherwise the lowest refused value decides the error. Nulls
at the end and values without a field make no difference, and only lists are accepted. -/
structure Composite.ReadByPosition (form : Composite) (read : Value → Except Error Described) :
    Prop where
  accepted (values : List Value) : (∃ described, read (.list values) = .ok described) ↔
    ∀ (index : Nat) (field : Field) (value : Value), form.fields[index]? = some field →
      values[index]? = some value → field.Accepts value
  filled {values : List Value} {described : Described} :
    read (.list values) = .ok described → ∃ slots, described = .composite form slots ∧
      slots.length = form.fields.length ∧ ∀ (index : Nat) (field : Field) (slot : Value),
        form.fields[index]? = some field → slots[index]? = some slot →
          field.Fills values[index]? slot
  refused {values : List Value} {error : Error} : read (.list values) = .error error →
    ∃ (index : Nat) (field : Field) (value : Value) (cause : Error),
      form.fields[index]? = some field ∧ values[index]? = some value ∧
        field.Refuses value cause ∧ error = .invalidField field.name cause ∧
          ∀ earlier < index, ∀ (field : Field) (value : Value),
            form.fields[earlier]? = some field → values[earlier]? = some value →
              field.Accepts value
  padded (values : List Value) (count : Nat) :
    read (.list (values ++ List.replicate count .null)) = read (.list values)
  surplus {values others : List Value} :
    values.take form.fields.length = others.take form.fields.length →
      read (.list values) = read (.list others)
  mismatched {body : Value} : (∀ values, body ≠ .list values) →
    read body = .error (.unexpectedType "list" body.typeName)

namespace Form

variable {form : Composite} {values : List Value}

/-- The body of a composite is its slots if they are read. -/
theorem readBody_eq_ok_iff {described : Described} :
    readBody (.composite form) (.list values) = .ok described ↔
      ∃ slots, Field.readAll form.fields values = .ok slots ∧
        described = .composite form slots := by
  refine map_eq_ok_iff.trans (exists_congr fun slots => and_congr_right fun _ => ?_)
  exact eq_comm

/-- The body of a composite is refused as its slots are. -/
theorem readBody_eq_error_iff {error : Error} :
    readBody (.composite form) (.list values) = .error error ↔
      Field.readAll form.fields values = .error error := map_eq_error_iff

/-- What a composite makes of a list depends on the values that have a field, and there a missing
value is as good as null. -/
theorem readBody_congr {others : List Value} (same : ∀ index < form.fields.length,
    values[index]?.getD .null = others[index]?.getD .null) :
    readBody (.composite form) (.list values) = readBody (.composite form) (.list others) :=
  congrArg (Except.map _) (Field.readAll_congr same)

/-- Every composite reads its bodies by position. A list is read field by field from the front,
and stops at the first refusal, so what is accepted and what is refused are read off the same
traversal; that padding and surplus make no difference is one congruence of it. -/
theorem readByPosition_readBody (form : Composite) :
    form.ReadByPosition (readBody (.composite form)) where
  accepted values := by
    constructor
    · rintro ⟨described, read⟩ index field value there present
      obtain ⟨slots, all, _⟩ := readBody_eq_ok_iff.mp read
      obtain ⟨long, each⟩ := Field.readAll_eq_ok_iff.mp all
      have inside : index < slots.length := long ▸ (List.getElem?_eq_some_iff.mp there).1
      have made := each index field _ there (List.getElem?_eq_getElem inside)
      exact Field.exists_read_iff.mp ⟨_, made⟩ value present
    · intro accepts
      cases read : readBody (.composite form) (.list values) with
      | ok described => exact ⟨described, rfl⟩
      | error error =>
        obtain ⟨index, field, there, refused, _⟩ :=
          Field.readAll_eq_error_iff.mp (readBody_eq_error_iff.mp read)
        obtain ⟨slot, made⟩ := Field.exists_read_iff.mpr (accepts index field · there)
        rw [refused] at made
        cases made
  filled read := by
    obtain ⟨slots, all, rfl⟩ := readBody_eq_ok_iff.mp read
    obtain ⟨long, each⟩ := Field.readAll_eq_ok_iff.mp all
    exact ⟨slots, rfl, long, fun index field slot there shown =>
      Field.fills_of_read (each index field slot there shown)⟩
  refused read := by
    obtain ⟨index, field, there, refused, before⟩ :=
      Field.readAll_eq_error_iff.mp (readBody_eq_error_iff.mp read)
    obtain ⟨value, cause, present, refuses, rfl⟩ := Field.refuses_of_read refused
    refine ⟨index, field, value, cause, there, present, refuses, rfl, ?_⟩
    intro earlier lower field value there
    exact Field.exists_read_iff.mp (before earlier lower field there) value
  padded values count := by
    apply readBody_congr
    intro index _
    rw [List.getElem?_append]
    split
    · rfl
    · next behind =>
      rw [List.getElem?_eq_none (Nat.le_of_not_lt behind), List.getElem?_replicate]
      split <;> rfl
  surplus {values others} same := by
    apply readBody_congr
    intro index inside
    rw [← List.getElem?_take_of_lt inside, same, List.getElem?_take_of_lt inside]
  mismatched {body} other := by
    cases body with
    | list values => exact absurd rfl (other values)
    | _ => rfl

end Form

namespace Registry

variable {registry : Registry} {descriptor : Descriptor} {form : Composite}

/-- A descriptor that finds a composite resolves bodies by position. The registry may be any, not
only the standard one, and the descriptor the code or the symbol: all that is used is what it
finds.

Proof: Resolving is then the reading of the body as this composite. The traversal of the fields
reads the value at the index of each field, or null if there is none, which gives all six parts
of the rule without a look at which composite it is. -/
theorem resolve_byPosition (known : registry.find? descriptor = some (.composite form)) :
    form.ReadByPosition (registry.resolve descriptor) := by
  have same : registry.resolve descriptor = Form.readBody (.composite form) := by
    funext body
    rw [resolve, known]
  rw [same]
  exact Form.readByPosition_readBody form

/-- A value without a field is not looked at, a missing one is not missed, and of two refused
values the first one is named. The descriptor is the symbol of the form, which the premise asks
to be found. -/
theorem resolve_byPosition_received :
    let resolve := standard.resolve (.symbol "amqp:received:list")
    resolve (.list [.uint 1, .ulong 2, .string "more"]) = resolve (.list [.uint 1, .ulong 2]) ∧
      resolve (.list ([.null] ++ [.null])) = resolve (.list [.null]) ∧
      resolve (.list [.boolean true, .string "offset"]) =
        .error (.invalidField "section-number" (.unexpectedType "uint" "boolean")) := by
  have rule := resolve_byPosition (find?_symbol (.composite .received))
  exact ⟨rule.surplus rfl, rule.padded [.null] 1, rfl⟩

end Registry

end Amqp
