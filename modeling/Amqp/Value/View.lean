import Amqp.Error
import Amqp.Traversal
import Amqp.TypedMap
import Amqp.Value

/-!
# Values read as types

Reading a value as a type either refuses it, with the word of the type and the word
of the value, or gives the value as the type shows it. For most types that is the
value itself. A single symbol read as a list of symbols becomes an array, and a map
read as a typed map loses its repeated keys. Reading again changes nothing more.

Keys of typed maps are compared, so they are read as keys and not as values.
-/

namespace Amqp

/-- A key of a typed map. Keys must equal themselves, so floating point numbers are none, and
neither are values that contain values. -/
inductive MapKey where
  | boolean (value : Bool)
  | ubyte (value : UInt8)
  | ushort (value : UInt16)
  | uint (value : UInt32)
  | ulong (value : UInt64)
  | byte (value : Int8)
  | short (value : Int16)
  | int (value : Int32)
  | long (value : Int64)
  | decimal32 (bytes : Vector UInt8 4)
  | decimal64 (bytes : Vector UInt8 8)
  | decimal128 (bytes : Vector UInt8 16)
  | char (value : Char)
  | timestamp (milliseconds : Int64)
  | uuid (bytes : Vector UInt8 16)
  | binary (bytes : Bytes)
  | string (text : String)
  | symbol (name : String)
  deriving DecidableEq, Repr

namespace MapKey

/-- A key as a value. -/
def toValue : MapKey → Value
  | boolean value => .boolean value
  | ubyte value => .ubyte value
  | ushort value => .ushort value
  | uint value => .uint value
  | ulong value => .ulong value
  | byte value => .byte value
  | short value => .short value
  | int value => .int value
  | long value => .long value
  | decimal32 bytes => .decimal32 bytes
  | decimal64 bytes => .decimal64 bytes
  | decimal128 bytes => .decimal128 bytes
  | char value => .char value
  | timestamp milliseconds => .timestamp milliseconds
  | uuid bytes => .uuid bytes
  | binary bytes => .binary bytes
  | string text => .string text
  | symbol name => .symbol name

/-- A value as a key, if it is of a kind that keys have. -/
def ofValue? : Value → Option MapKey
  | .boolean value => some (boolean value)
  | .ubyte value => some (ubyte value)
  | .ushort value => some (ushort value)
  | .uint value => some (uint value)
  | .ulong value => some (ulong value)
  | .byte value => some (byte value)
  | .short value => some (short value)
  | .int value => some (int value)
  | .long value => some (long value)
  | .decimal32 bytes => some (decimal32 bytes)
  | .decimal64 bytes => some (decimal64 bytes)
  | .decimal128 bytes => some (decimal128 bytes)
  | .char value => some (char value)
  | .timestamp milliseconds => some (timestamp milliseconds)
  | .uuid bytes => some (uuid bytes)
  | .binary bytes => some (binary bytes)
  | .string text => some (string text)
  | .symbol name => some (symbol name)
  | _ => none

/-- A key shown as a value is found again. -/
@[simp] theorem ofValue?_toValue (key : MapKey) : ofValue? key.toValue = some key := by
  cases key <;> rfl

/-- A value read as a key is that key shown as a value. -/
theorem toValue_of_ofValue? {value : Value} {key : MapKey} (read : ofValue? value = some key) :
    key.toValue = value := by
  cases value <;> cases read <;> rfl

end MapKey

/-- The refusal of a value where a named type is expected. -/
def Value.mismatch (value : Value) (expected : String) : Error :=
  .unexpectedType expected value.typeName

/-- Read a value as a key of a given type. -/
def KeyType.read (type : KeyType) (value : Value) : Except Error MapKey :=
  match MapKey.ofValue? value with
  | some key => if value.kind ∈ type.kinds then .ok key else .error (value.mismatch type.name)
  | none => .error (value.mismatch type.name)

/-- A value that is read as a key is the key shown as a value, and of a kind of the type. So
reading a key never changes it. -/
theorem KeyType.read_eq_ok_iff {type : KeyType} {value : Value} {key : MapKey} :
    type.read value = .ok key ↔ key.toValue = value ∧ value.kind ∈ type.kinds := by
  unfold KeyType.read
  constructor
  · intro read
    split at read
    · next found present =>
      split at read
      · next admitted =>
        cases read
        exact ⟨MapKey.toValue_of_ofValue? present, admitted⟩
      · cases read
    · cases read
  · rintro ⟨rfl, admitted⟩
    rw [MapKey.ofValue?_toValue]
    exact if_pos admitted

/-- A key shown as a value reads as that key. -/
theorem KeyType.read_toValue {type : KeyType} {value : Value} {key : MapKey}
    (read : type.read value = .ok key) : type.read key.toValue = .ok key := by
  obtain ⟨rfl, _⟩ := KeyType.read_eq_ok_iff.mp read
  exact read

namespace Ty

/-- Read a value as a type. -/
def read : Ty → Value → Except Error Value
  | any, value => .ok value
  | kinds admitted name, value =>
    if value.kind ∈ admitted then .ok value else .error (value.mismatch name)
  | symbols, value =>
    match value with
    | .symbol name => .ok (.ofSymbols [name])
    | .array items =>
      match items.find? fun item => item.kind ≠ .symbol with
      | some item => .error (item.mismatch "symbol")
      | none => .ok (.array items)
    | other => .error (other.mismatch "symbol")
  | typedMap keys values, value =>
    match value with
    | .map entries => do
      let pairs ← entries.mapM fun entry => do
        let key ← keys.read entry.1
        let shown ← read values entry.2
        pure (key, shown)
      .ok (.map ((TypedMap.ofPairs pairs).map fun pair => (pair.1.toValue, pair.2)))
    | other => .error (other.mismatch "map")
  | forms admitted name, value =>
    match value with
    | .described described =>
      match described.form? with
      | some form =>
        if form ∈ admitted then .ok value else .error (value.mismatch name)
      | none => .error (value.mismatch name)
    | other => .error (other.mismatch name)
  | optional inner, value =>
    match value with
    | .null => .ok .null
    | other => read inner other

section Entries

variable {keys : KeyType} {values : Ty} {entry : Value × Value} {entries : Entries}

/-- Read an entry of a typed map, its key ahead of its value. -/
def readEntry (keys : KeyType) (values : Ty) (entry : Value × Value) :
    Except Error (MapKey × Value) := do
  let key ← keys.read entry.1
  let shown ← values.read entry.2
  pure (key, shown)

/-- A map is read as a typed map entry by entry. -/
theorem read_map : (typedMap keys values).read (.map entries) =
    (entries.mapM (readEntry keys values)).map fun pairs =>
      .map ((TypedMap.ofPairs pairs).map fun pair => (pair.1.toValue, pair.2)) := by
  rw [read]
  change entries.mapM (readEntry keys values) >>= _ = _
  cases entries.mapM (readEntry keys values) <;> rfl

/-- An entry is read if both sides of it are. -/
theorem readEntry_eq_ok_iff {pair : MapKey × Value} : readEntry keys values entry = .ok pair ↔
    keys.read entry.1 = .ok pair.1 ∧ values.read entry.2 = .ok pair.2 := pair_eq_ok_iff

/-- An entry is refused for its key, or for its value behind a key that is read. -/
theorem readEntry_eq_error_iff {error : Error} : readEntry keys values entry = .error error ↔
    keys.read entry.1 = .error error ∨
      (∃ key, keys.read entry.1 = .ok key) ∧ values.read entry.2 = .error error :=
  pair_eq_error_iff

/-- What is read as a typed map is a map, and is shown as the pairs that its entries are read as
without the repetitions of their keys. Entries are read before repetitions are dropped, so an
entry that is refused is refused even if another one replaces it. -/
theorem read_typedMap_eq_ok_iff {value shown : Value} :
    (typedMap keys values).read value = .ok shown ↔ ∃ entries pairs, value = .map entries ∧
      entries.mapM (readEntry keys values) = .ok pairs ∧
      shown = .map ((TypedMap.ofPairs pairs).map fun pair => (pair.1.toValue, pair.2)) := by
  constructor
  · intro read
    cases value <;> try cases read
    next entries =>
      obtain ⟨pairs, ran, rfl⟩ := map_eq_ok_iff.mp (read_map.symm.trans read)
      exact ⟨entries, pairs, rfl, ran, rfl⟩
  · rintro ⟨entries, pairs, rfl, ran, rfl⟩
    rw [read_map, ran]
    rfl

end Entries

section Results

variable {value shown : Value}

/-- Where the kind is all that counts, a value of an admitted kind is shown as it is. -/
theorem read_kinds_eq_ok_iff {admitted : List Kind} {name : String} :
    (kinds admitted name).read value = .ok shown ↔ value.kind ∈ admitted ∧ shown = value := by
  rw [read]
  split
  · next member =>
    constructor
    · rintro ⟨⟩
      exact ⟨member, rfl⟩
    · rintro ⟨_, rfl⟩
      rfl
  · next refused =>
    constructor
    · nofun
    · exact fun ⟨member, _⟩ => absurd member refused

/-- A list of symbols is made of a single symbol, or is an array that holds nothing else. An
array that is empty is one too. -/
theorem read_symbols_eq_ok_iff : symbols.read value = .ok shown ↔
    (∃ name, value = .symbol name ∧ shown = .ofSymbols [name]) ∨
      ∃ items, value = .array items ∧ (∀ item ∈ items, item.kind = .symbol) ∧ shown = value := by
  constructor
  · intro read
    cases value <;> try cases read
    · next name => exact .inl ⟨name, rfl, rfl⟩
    · next items =>
      simp only [Ty.read] at read
      split at read
      · cases read
      · next none =>
        cases read
        refine .inr ⟨items, rfl, fun item member => ?_, rfl⟩
        simpa using List.find?_eq_none.mp none item member
  · rintro (⟨name, rfl, rfl⟩ | ⟨items, rfl, each, rfl⟩)
    · rfl
    · have none : (items.find? fun item => item.kind ≠ .symbol) = .none :=
        List.find?_eq_none.mpr fun item member => by simp [each item member]
      simp only [read, none]

/-- Where the form is all that counts, a described value of an admitted form is shown as it is.
One of no known form is of none that is admitted. -/
theorem read_forms_eq_ok_iff {admitted : List Form} {name : String} :
    (forms admitted name).read value = .ok shown ↔ shown = value ∧
      ∃ described form, value = .described described ∧ described.form? = some form ∧
        form ∈ admitted := by
  constructor
  · intro read
    cases value <;> try cases read
    next described =>
      simp only [Ty.read] at read
      split at read
      · next form known =>
        split at read
        · next member =>
          cases read
          exact ⟨rfl, described, form, rfl, known, member⟩
        · cases read
      · cases read
  · rintro ⟨rfl, described, form, rfl, known, member⟩
    simp only [read, known, if_pos member]

/-- What may be missing is null, or is of the type that it has if it is there. A null never
reaches the type, which might take it for a value of its own. -/
theorem read_optional_eq_ok_iff {inner : Ty} : (optional inner).read value = .ok shown ↔
    value = .null ∧ shown = .null ∨ value ≠ .null ∧ inner.read value = .ok shown := by
  by_cases null : value = .null
  · subst null
    constructor
    · rintro ⟨⟩
      exact .inl ⟨rfl, rfl⟩
    · rintro (⟨_, rfl⟩ | ⟨set, _⟩)
      · rfl
      · exact absurd rfl set
  · have inside : (optional inner).read value = inner.read value := by
      cases value <;> first | rfl | exact absurd rfl null
    rw [inside]
    exact ⟨fun read => .inr ⟨null, read⟩, fun either => either.elim (absurd ·.1 null) And.right⟩

end Results

/-- A type makes null of nothing but null. So a field that is set stays set when it is read. -/
theorem ne_null_of_read {type : Ty} {value shown : Value} (read : type.read value = .ok shown)
    (set : value ≠ .null) : shown ≠ .null := by
  induction type generalizing value shown with
  | any => cases read; exact set
  | kinds admitted name =>
    obtain ⟨_, rfl⟩ := read_kinds_eq_ok_iff.mp read
    exact set
  | symbols =>
    rcases read_symbols_eq_ok_iff.mp read with ⟨name, rfl, rfl⟩ | ⟨items, rfl, _, rfl⟩
    · nofun
    · nofun
  | typedMap keys values =>
    obtain ⟨entries, pairs, rfl, _, rfl⟩ := read_typedMap_eq_ok_iff.mp read
    nofun
  | forms admitted name =>
    obtain ⟨rfl, _⟩ := read_forms_eq_ok_iff.mp read
    exact set
  | optional inner inductionHypothesis =>
    rcases read_optional_eq_ok_iff.mp read with ⟨null, _⟩ | ⟨_, read⟩
    · exact absurd null set
    · exact inductionHypothesis read set

/-- Reading again changes nothing more. A single symbol has become an array and repeated keys are
gone, so the second reading finds nothing to do. -/
theorem read_read {type : Ty} {value shown : Value} (read : type.read value = .ok shown) :
    type.read shown = .ok shown := by
  induction type generalizing value shown with
  | any => rfl
  | kinds admitted name =>
    obtain ⟨_, rfl⟩ := read_kinds_eq_ok_iff.mp read
    exact read
  | symbols =>
    rcases read_symbols_eq_ok_iff.mp read with ⟨name, rfl, rfl⟩ | ⟨items, rfl, _, rfl⟩
    · rfl
    · exact read
  | typedMap keys values inductionHypothesis =>
    obtain ⟨entries, pairs, rfl, ran, rfl⟩ := read_typedMap_eq_ok_iff.mp read
    have each : ∀ pair ∈ TypedMap.ofPairs pairs,
        readEntry keys values (pair.1.toValue, pair.2) = .ok pair := by
      intro pair member
      obtain ⟨entry, _, computed⟩ := exists_of_mapM ran (TypedMap.mem_ofPairs member)
      obtain ⟨key, shown⟩ := readEntry_eq_ok_iff.mp computed
      exact readEntry_eq_ok_iff.mpr ⟨KeyType.read_toValue key, inductionHypothesis shown⟩
    refine read_typedMap_eq_ok_iff.mpr ⟨_, _, rfl, mapM_map_of_forall each, ?_⟩
    rw [TypedMap.ofPairs_of_nodup (TypedMap.nodup_ofPairs pairs)]
  | forms admitted name =>
    obtain ⟨rfl, _⟩ := read_forms_eq_ok_iff.mp read
    exact read
  | optional inner inductionHypothesis =>
    refine read_optional_eq_ok_iff.mpr ?_
    rcases read_optional_eq_ok_iff.mp read with ⟨_, rfl⟩ | ⟨set, read⟩
    · exact .inl ⟨rfl, rfl⟩
    · exact .inr ⟨ne_null_of_read read set, inductionHypothesis read⟩

end Ty

namespace Field

/-- Read a value as a field. Null leaves the field unset, and a refusal names the
field. -/
def read (field : Field) (value : Value) : Except Error Value :=
  match value with
  | .null => .ok .null
  | set => (field.type.read set).mapError (.invalidField field.name)

/-- A value other than null is read as the type of the field. -/
theorem read_of_ne_null {field : Field} {value : Value} (set : value ≠ .null) :
    field.read value = (field.type.read value).mapError (.invalidField field.name) := by
  cases value <;> first | rfl | exact absurd rfl set

end Field

/-- Take the next of some values as a field. A missing value leaves the field unset,
and a refused value is taken all the same. -/
def Field.next (field : Field) : List Value → Except Error Value × List Value
  | [] => (.ok .null, [])
  | value :: rest => (field.read value, rest)

/-- Read values as fields, first value for first field. Missing values leave fields
unset and extra values are ignored; the first refusal counts. -/
def Field.readAll : List Field → List Value → Except Error (List Value)
  | [], _ => .ok []
  | field :: fields, values =>
    match field.next values with
    | (.ok slot, rest) => (readAll fields rest).map (slot :: ·)
    | (.error error, _) => .error error

/-- Fields are read one after the other, and the first refusal counts. -/
theorem Field.readAll_cons_eq (field : Field) (fields : List Field) (values : List Value) :
    Field.readAll (field :: fields) values =
      (field.read (values.headD .null)).bind fun slot =>
        (Field.readAll fields values.tail).map (slot :: ·) := by
  have next : field.next values = (field.read (values.headD .null), values.tail) := by
    cases values <;> rfl
  rw [Field.readAll, next]
  cases field.read (values.headD .null) <;> rfl

/-- The first slot is made of the first value, or of null if there is none. The other slots are
made of the other values, if any. -/
theorem Field.readAll_cons_eq_ok_iff {field : Field} {fields : List Field}
    {values slots : List Value} : Field.readAll (field :: fields) values = .ok slots ↔
    ∃ slot later, slots = slot :: later ∧ field.read (values.headD .null) = .ok slot ∧
      Field.readAll fields values.tail = .ok later := by
  rw [Field.readAll_cons_eq]
  refine bind_eq_ok_iff.trans ?_
  simp only [map_eq_ok_iff]
  constructor
  · rintro ⟨slot, shown, later, others, rfl⟩
    exact ⟨slot, later, rfl, shown, others⟩
  · rintro ⟨slot, later, rfl, shown, others⟩
    exact ⟨slot, shown, later, others, rfl⟩

/-- Values are refused for the first of them, or for the others if the first is read. A value
that is missing is never refused, since every field may be unset. -/
theorem Field.readAll_cons_eq_error_iff {field : Field} {fields : List Field}
    {values : List Value} {error : Error} :
    Field.readAll (field :: fields) values = .error error ↔
      field.read (values.headD .null) = .error error ∨
        (∃ slot, field.read (values.headD .null) = .ok slot) ∧
          Field.readAll fields values.tail = .error error := by
  rw [Field.readAll_cons_eq]
  refine bind_eq_error_iff.trans (or_congr_right ?_)
  simp only [map_eq_error_iff]
  constructor
  · rintro ⟨slot, shown, refused⟩
    exact ⟨⟨slot, shown⟩, refused⟩
  · rintro ⟨⟨slot, shown⟩, refused⟩
    exact ⟨slot, shown, refused⟩

/-- Reading fills one slot per field. -/
theorem Field.length_readAll {fields : List Field} {values slots : List Value}
    (read : Field.readAll fields values = .ok slots) : slots.length = fields.length := by
  induction fields generalizing values slots with
  | nil =>
    cases read
    rfl
  | cons field fields inductionHypothesis =>
    obtain ⟨slot, later, rfl, _, others⟩ := Field.readAll_cons_eq_ok_iff.mp read
    rw [List.length_cons, List.length_cons, inductionHypothesis others]

/-- The number of leading marks needed to keep every true one. -/
def trailingCount : List Bool → Nat
  | [] => 0
  | present :: rest =>
    match trailingCount rest with
    | 0 => if present then 1 else 0
    | count + 1 => count + 2

/-- A count never exceeds the number of marks. -/
theorem trailingCount_le (marks : List Bool) : trailingCount marks ≤ marks.length := by
  induction marks with
  | nil => simp [trailingCount]
  | cons present rest inductionHypothesis =>
    simp only [trailingCount, List.length_cons]
    split
    · split <;> omega
    · omega

/-- The number of slots that must be written to keep every set field. -/
def setSlots (slots : List Value) : Nat := trailingCount (slots.map fun slot => !slot.isNull)

/-- Whether a set field makes the whole field list use four-byte prefixes. -/
def needsWideList : List Field → List Value → Bool
  | field :: fields, slot :: slots =>
    (field.type.wide && !slot.isNull) || needsWideList fields slots
  | _, _ => false

end Amqp
