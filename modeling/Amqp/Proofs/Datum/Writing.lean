import Amqp.Proofs.Datum.Reading
import Amqp.Proofs.Encoder.AnyHook
import Amqp.Proofs.Encoder.Guards

/-!
# Data are written as the values that they become

A list of symbols, a typed map and a described type are written by loops of their own, and all
three come to what the writing of arrays, maps and described values comes to, in the bytes and in
the refusals. Only a list without symbols does not: it names the constructor of symbols, where an
array without elements names that of null. Typed maps that hold such lists differ in the same way.
No described type does, because the writing of described values knows which slots are lists of
symbols.
-/

namespace Amqp

open Canonical (entryNestings nesting)
open Grammar (Encoding Paired Sequence)

namespace Ty

/-- Whether a datum is a list without symbols or a typed map that holds one. -/
def hasEmptySymbols : (type : Ty) → type.Datum → Bool
  | symbols, names => names.isEmpty
  | typedMap _ values, entries => entries.pairs.any fun pair => values.hasEmptySymbols pair.2
  | _, _ => false

/-- Whether the data of a type are lists of symbols, or typed maps that hold such lists. -/
def isSymbolic : Ty → Bool
  | symbols => true
  | typedMap _ values => values.isSymbolic
  | _ => false

/-- Only data that are lists of symbols or hold them can lack symbols. -/
theorem hasEmptySymbols_eq_false {type : Ty} (plain : type.isSymbolic = false)
    (datum : type.Datum) : type.hasEmptySymbols datum = false := by
  induction type with
  | symbols => cases plain
  | typedMap keys values inductionHypothesis =>
    rw [hasEmptySymbols, List.any_eq_false]
    intro pair _
    rw [inductionHypothesis plain pair.2]
    exact Bool.false_ne_true
  | _ => rfl

end Ty

/-- The types that slots can have: their data are never missing, and they are lists of symbols or
hold none. -/
structure Ty.OfSlots (type : Ty) : Prop where
  definite : type.isDefinite = true
  listed : type = .symbols ∨ type.isSymbolic = false

/-- The fields of composites are of types that slots can have. -/
theorem Composite.ofSlots_of_mem {form : Composite} {field : Field}
    (member : field ∈ form.fields) : field.type.OfSlots := by
  have all : form.fields.all (fun field => field.type.isDefinite &&
      (field.type = .symbols || !field.type.isSymbolic)) = true := by
    cases form <;> decide
  have here := List.all_eq_true.mp all field member
  simp only [Bool.and_eq_true, Bool.or_eq_true, decide_eq_true_eq, Bool.not_eq_true'] at here
  exact ⟨here.1, here.2⟩

/-- The contents of sections are of definite types and hold no lists of symbols. -/
theorem Section.definite_type (part : Section) :
    part.type.isDefinite = true ∧ part.type.isSymbolic = false := by
  cases part <;> exact ⟨rfl, rfl⟩

namespace Encoder

variable {hook : TextEncoder}

section Symbols

variable (below : BodyWriter)

/-- The elements of an array of symbols are written as the symbols of a list are. -/
theorem writeElements_symbols (shared : Code) (names : List String) :
    writeElements below hook shared (names.map .symbol) = putSymbolElements shared names := by
  induction names with
  | nil => rfl
  | cons name names inductionHypothesis =>
    rw [List.map_cons, writeElements, putSymbolElements, inductionHypothesis, writeElement]

/-- An array of symbols shares the constructor that a list of them names: the narrow one if all
symbols fit it, and the wide one otherwise. -/
theorem elementCode_symbols (name : String) (names : List String) :
    elementCode hook ((name :: names).map .symbol) =
      pure (Canonical.symbolCode (name :: names)) := by
  have same : ((name :: names).map Value.symbol).any
      (fun item => item.kind ≠ (Value.symbol name).kind) = false := by
    simp [Value.kind]
  have fits : ((name :: names).map Value.symbol).all payloadFits =
      (name :: names).all fun name => (Utf8.encode name).length ≤ 255 := by
    rw [List.all_map]
    rfl
  rw [List.map_cons] at same fits ⊢
  rw [elementCode, same, fits]
  rfl

/-- An array of symbols that is not empty is written as a list of symbols is. The empty one is
the only exception, since an array without elements does not know of what kind they would be. -/
theorem writeValue_ofSymbols {names : List String} (some : names ≠ []) :
    writeValue below hook (.ofSymbols names) = putSymbolArray names := by
  obtain ⟨name, names, rfl⟩ := List.exists_cons_of_ne_nil some
  have laidOut (raw : Unit → Except Failure (Option Descriptor × List Value)) :
      arrayLayout hook ((name :: names).map .symbol) raw =
        pure ⟨Canonical.symbolCode (name :: names), none⟩ := by
    change (do return ArrayLayout.mk (← elementCode hook _) none) = _
    rw [elementCode_symbols, pure_bind]
  rw [Value.ofSymbols, writeValue, laidOut, pure_bind]
  simp only [putArrayPayload, writeElements_symbols, List.length_map]
  rfl

end Symbols

/-- A key and a value beside it that is written as its type shows it. -/
theorem appends_writePair (hook : TextEncoder) (values : Ty) (entry : Value × Value) :
    Appends (do
      encodeDirect hook entry.1
      writeAs hook values entry.2) :=
  (appendsValue_standard hook entry.1).whole.bind fun _ => appends_writeAs hook values entry.2

/-- A value that is written as its type shows it is written as any value, unless it is a list
without symbols or holds one. Both may refuse, and then for the same reason; what they leave in
the sink behind a refusal is cut back by whoever calls them. -/
theorem coincide_writeAs {type : Ty} (definite : type.isDefinite = true) (datum : type.Datum)
    (some : type.hasEmptySymbols datum = false) :
    Coincide (writeAs hook type (type.toValue datum))
      (writeValue standardBodies hook (type.toValue datum)) := by
  induction type with
  | any => exact coincide_atomic _
  | kinds => rfl
  | symbols =>
    have some : datum ≠ [] := by
      rintro rfl
      cases some
    refine congrArg atomic ?_
    change putSymbolArray (Value.symbolNames (datum.map .symbol)) = _
    rw [Value.symbolNames_map_symbol]
    exact (writeValue_ofSymbols _ some).symm
  | typedMap keys values inductionHypothesis =>
    rw [Ty.hasEmptySymbols, List.any_eq_false] at some
    rw [Ty.toValue, writeAs, writeValue, writeEntries_eq_putEach]
    refine coincide_container (coincide_putEach (fun entry member => ?_) fun entry _ => ?_) ?_
      .map8 _ false
    · obtain ⟨pair, listed, rfl⟩ := List.mem_map.mp member
      have mapped := inductionHypothesis definite pair.2 (eq_false_of_ne_true (some pair listed))
      exact Coincide.bind (coincide_atomic _).symm (appendsValue_standard hook _).whole.keepsFront
        fun _ => mapped.trans (coincide_atomic _).symm
    · exact (appends_writePair hook values entry).keepsFront
    · exact (stepwise_appends.putEach fun entry _ => appends_writePair hook values entry).keepsFront
  | forms => rfl
  | optional => cases definite

/-- A value of an optional type that is not null is written as the type itself shows it. -/
theorem writeAs_optional {inner : Ty} {value : Value} (set : value ≠ .null) :
    writeAs hook (.optional inner) value = writeAs hook inner value := by
  cases value <;> first | rfl | exact absurd rfl set

/-- A slot that its field shows is written as any value, or as a list of symbols if the field is
one. The writing of described values makes the same distinction by the type of the field, which
is why composites need no exception for lists without symbols. -/
theorem encodeAs_slot {field : Field} {slot : Value} (ofSlots : field.type.OfSlots)
    (typed : field.read slot = .ok slot) :
    encodeAs hook (.optional field.type) slot = match slotSymbols? field.type slot with
      | some names => atomic (putSymbolArray names)
      | none => atomic (writeValue standardBodies hook slot) := by
  obtain ⟨name, type⟩ := field
  obtain ⟨definite, listed⟩ := ofSlots
  simp only at definite listed ⊢
  rcases Field.cases_of_read typed with ⟨_, rfl⟩ | ⟨set, shown⟩
  · cases type <;> rfl
  rw [encodeAs, writeAs_optional set]
  rcases listed with rfl | plain
  · obtain ⟨datum, -, rfl⟩ := Ty.exists_datum_of_read shown
    rfl
  · have unlisted : slotSymbols? type slot = none := by
      cases type with
      | symbols => cases plain
      | _ => rfl
    rw [unlisted]
    obtain ⟨datum, -, rfl⟩ := Ty.exists_datum_of_read shown
    exact coincide_writeAs definite datum (Ty.hasEmptySymbols_eq_false plain datum)

/-- Slots that their fields show are written field by field as they are written in a described
value. Beyond the number of set slots neither of them writes anything. -/
theorem writeFields_eq_writeSlots {fields : List Field} {slots : List Value}
    (each : ∀ field ∈ fields, field.type.OfSlots)
    (typed : Field.readAll fields slots = .ok slots) (count : Nat) :
    writeFields hook fields count slots = writeSlots standardBodies hook fields count slots := by
  induction fields generalizing slots count with
  | nil =>
    cases typed
    cases count <;> rfl
  | cons field fields inductionHypothesis =>
    obtain ⟨slot, later, rfl, -, -⟩ := Field.readAll_cons_eq_ok_iff.mp typed
    obtain ⟨first, others⟩ := Field.readAll_cons typed
    obtain ⟨ofSlots, remaining⟩ := List.forall_mem_cons.mp each
    cases count with
    | zero => rfl
    | succ count =>
      rw [writeFields, writeSlots, encodeAs_slot ofSlots first,
        inductionHypothesis remaining others]
      simp only [List.head?_cons, Option.bind_some, List.tail_cons]
      cases slotSymbols? field.type slot <;> rfl

/-- What a described type holds is written as the described value is. Sections differ from
composites here: their content is a value of a type without lists of symbols. -/
theorem coincide_writeForm (form : Form) (body : form.Body)
    (typed : (Value.described (form.toDescribed body)).Typed) :
    Coincide (writeForm hook form body)
      (writeDescribed standardBodies hook (form.toDescribed body)) := by
  cases form with
  | composite form =>
    have content (count : Nat) : writeFields hook form.fields count body =
        writeSlots standardBodies hook form.fields count body :=
      writeFields_eq_writeSlots (fun _ => Composite.ofSlots_of_mem) typed count
    rw [writeForm, Form.toDescribed, writeDescribed]
    simp only [content]
    rfl
  | content part =>
    have content : Coincide (writeAs hook part.type body) (if part = .amqpValue
        then atomic (writeValue standardBodies hook body)
        else writeValue standardBodies hook body) := by
      obtain ⟨definite, plain⟩ := part.definite_type
      obtain ⟨datum, -, shown⟩ := Ty.exists_datum_of_read typed
      rw [← shown]
      refine (coincide_writeAs definite datum (Ty.hasEmptySymbols_eq_false plain datum)).trans ?_
      split
      · exact (coincide_atomic _).symm
      · rfl
    exact Coincide.bind rfl (appends_put _).keepsFront fun _ =>
      Coincide.bind rfl (stepwise_appends.putDescriptor _).keepsFront fun _ => content

/-- The content of a kind is written as the value of the kind that holds it. -/
theorem writeContent_eq_encodeDirect (kind : Kind) (content : kind.Content) :
    writeContent hook kind content = encodeDirect hook (kind.toValue content) := by
  cases kind <;> rfl

/-- A datum is written as the value it becomes is written as the type shows it. There is no
exception here for lists without symbols, since the value is written as its type shows it. -/
theorem coincide_writeDatum {type : Ty} (definite : type.isDefinite = true) (datum : type.Datum)
    (plain : (type.toValue datum).Everywhere Value.Plain) :
    Coincide (writeDatum hook type datum) (writeAs hook type (type.toValue datum)) := by
  induction type with
  | any => rfl
  | kinds => exact congrArg atomic (writeContent_eq_encodeDirect datum.kind datum.content)
  | symbols =>
    refine congrArg (fun names => atomic (putSymbolArray names)) ?_
    exact (Value.symbolNames_map_symbol datum).symm
  | typedMap keys values inductionHypothesis =>
    rw [Ty.toValue] at plain ⊢
    rw [writeDatum, writeAs, List.length_map, putEach_map]
    refine Eq.symm (coincide_container (coincide_putEach (fun pair member => ?_)
      fun pair _ => ?_) ?_ .map8 _ false)
    · have mapped := plain.mapped (List.mem_map_of_mem member)
      exact Coincide.bind rfl (appendsValue_standard hook _).whole.keepsFront
        fun _ => (inductionHypothesis definite pair.2 mapped).symm
    · exact (appends_writePair hook values (pair.1.toValue, values.toValue pair.2)).keepsFront
    · exact (stepwise_appends.putEach fun pair _ =>
        appends_writePair hook values (pair.1.toValue, values.toValue pair.2)).keepsFront
  | forms => exact coincide_writeForm datum.form datum.body plain.here.typed
  | optional => cases definite

/-- A datum is written as the value it becomes, unless it is a list without symbols or holds
one. -/
theorem encodeDatum_eq_encodeValue {type : Ty} (definite : type.isDefinite = true)
    (datum : type.Datum) (plain : (type.toValue datum).Everywhere Value.Plain)
    (some : type.hasEmptySymbols datum = false) :
    encodeDatum hook type datum = encodeValue hook (type.toValue datum) :=
  (coincide_writeDatum definite datum plain).trans (coincide_writeAs definite datum some)

section Strict

variable {levels : Nat}

/-- A plain value that is written in the usual way is written as one of its encodings. -/
theorem yields_writeValue_strict {value : Value} (plain : value.Everywhere Value.Plain)
    (within : nesting value ≤ levels) :
    Yields (writeValue standardBodies .strict value) fun _ bytes =>
      Encoding .strict levels bytes value := by
  have written :=
    written_of_plain (reaches_bodyWriter (Nat.le_refl _)) (Nat.le_refl _) value plain
  refine (written.whole Utf8.encode).yields.imp ?_
  rintro _ _ ⟨checked, _, rfl⟩
  exact @encoding_of_checked ⟨.strict, levels⟩ rfl _ plain checked within

/-- A key and a value beside it that is written as its type shows it are written as encodings
of the two if the value is. -/
theorem yields_writePair {values : Ty} {entry : Value × Value}
    (key : entry.1.Everywhere Value.Plain) (within : nesting entry.1 ≤ levels)
    (mapped : Yields (writeAs .strict values entry.2) fun _ bytes =>
      Encoding .strict levels bytes entry.2) :
    Yields (do
      encodeDirect .strict entry.1
      writeAs .strict values entry.2) fun _ bytes => Paired (Encoding .strict levels) bytes entry :=
  (yields_writeValue_strict key within).bind fun _ front isKey =>
    mapped.imp fun _ back isValue => ⟨front, back, rfl, isKey, isValue⟩

/-- The value of a datum that is written as its type shows it is written as one of its encodings,
also if it is a list without symbols or holds one. In a typed map the levels go down by one, and
the pair of a key and such a list is a pair of encodings as any other. -/
theorem yields_writeAs {type : Ty} (definite : type.isDefinite = true) (datum : type.Datum)
    (plain : (type.toValue datum).Everywhere Value.Plain)
    (within : nesting (type.toValue datum) ≤ levels) :
    Yields (writeAs .strict type (type.toValue datum)) fun _ bytes =>
      Encoding .strict levels bytes (type.toValue datum) := by
  induction type generalizing levels with
  | any => exact (yields_writeValue_strict plain within).atomic
  | kinds => exact yields_writeValue_strict plain within
  | symbols =>
    change Yields (putSymbolArray (Value.symbolNames (datum.map .symbol))) _
    rw [Value.symbolNames_map_symbol]
    refine (writes_putSymbolArray Utf8.encode datum).yields.imp ?_
    rintro _ _ ⟨checked, _, rfl⟩
    exact (Canonical.coded_symbolArray TextDecoder.strict_encode checked).mono within
  | typedMap keys values inductionHypothesis =>
    rw [Ty.toValue] at plain within ⊢
    rw [nesting] at within
    obtain ⟨further, rfl⟩ := Nat.exists_eq_add_one_of_ne_zero (Nat.ne_zero_of_lt within)
    have within := Nat.le_of_succ_le_succ within
    have each : ∀ entry ∈ datum.pairs.map fun pair => (pair.1.toValue, values.toValue pair.2),
        Yields (do
          encodeDirect .strict entry.1
          writeAs .strict values entry.2) fun _ bytes =>
            Paired (Encoding .strict further) bytes entry := by
      intro entry member
      have bounds := Canonical.nesting_le_entryNestings member
      obtain ⟨pair, listed, rfl⟩ := List.mem_map.mp member
      exact yields_writePair (plain.key member) (Nat.le_trans bounds.1 within)
        (inductionHypothesis definite pair.2 (plain.mapped member) (Nat.le_trans bounds.2 within))
    refine (yields_container .map8 false (yields_putEach each) fun _ sequence => ?_).imp ?_
    · rw [Nat.mul_comm]
      exact Decoder.length_le_of_paired sequence
    · rintro _ _ ⟨content, sequence, fits, rfl⟩
      exact Canonical.coded_mapContainer sequence fits
  | forms => exact yields_writeValue_strict plain within
  | optional => cases definite

end Strict

end Encoder

end Amqp
