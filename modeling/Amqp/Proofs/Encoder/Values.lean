import Amqp.Proofs.Encoder.Arrays
import Amqp.Proofs.Encoder.RawParts

/-!
# Writing values

Writing a value appends its canonical encoding. It succeeds only if the checks that writing
makes hold everywhere in the value, and it succeeds if they hold and if the raw bodies that
are read back do not need more levels than the usual reader has. The two conditions differ in
the levels because a value without described elements may be nested as deeply as it likes.

The induction is on the value, for a fixed writer of raw bodies. That writer is a writer of
elements again, with one level less, so what is said of it follows by induction on its levels.
-/

namespace Amqp.Encoder

open Canonical (Behind Checked Fits LabelFits Sound bodyNesting element elementNesting
  elementNestings encoding encodings entryEncodings entryNestings nesting nestings rawNesting
  simpleEncoding simplePayload slotEncodings)

/-- What is enough of a part of a value: it is checked as it is written, and as it is written
to be read back. -/
structure Ready (text : String → Bytes) (part : Value) : Prop where
  checked : Checked text part
  readable : Checked Utf8.encode part

/-- A writer of raw bodies that writes those that need fewer levels than some number. -/
def Reaches (levels : Nat) (below : BodyWriter) : Prop :=
  ∀ (text : String → Bytes) (shared : Code) (value : Value), value.Everywhere Value.Plain →
    Behind text shared value →
      Writes (below (.ofPure text) shared value)
        (value.Everywhere (Ready text) ∧ elementNesting value < levels)
        (value.Everywhere (Checked text)) () (element text shared value)

/-- What is enough for a value to be written, given the levels of the writer of raw bodies. -/
def Enough (text : String → Bytes) (levels : Nat) (value : Value) : Prop :=
  value.Everywhere (Ready text) ∧ nesting value ≤ levels

/-- What is to be shown of a value: how it is written, how it is written as an element, and
what is written of it as an element if it may be described. A raw body is written one level
further down. -/
structure Written (below : BodyWriter) (levels : Nat) (value : Value) : Prop where
  whole (text : String → Bytes) :
    Writes (writeValue below (.ofPure text) value) (Enough text levels value)
      (value.Everywhere (Checked text)) () (encoding text value)
  asElement (text : String → Bytes) {shared : Code} (behind : Behind text shared value) :
    Writes (writeElement below (.ofPure text) shared value)
      (value.Everywhere (Ready text) ∧ elementNesting value ≤ levels)
      (value.Everywhere (Checked text)) () (element text shared value)
  bare (text : String → Bytes) {shared : Code} (behind : Behind text shared value.bare) :
    Writes (writeHeld below Described.rawBody (.ofPure text) shared value)
      (value.Everywhere (Ready text) ∧ elementNesting value < levels)
      (value.bare.Everywhere (Checked text)) () (element text shared value)

/-- A value that is not described is written as an element where it may be described: it is held
by an array as it is. -/
theorem Written.of_bare {below : BodyWriter} {levels : Nat} {value : Value}
    (plain : value.kind ≠ .described)
    (whole : ∀ text, Writes (writeValue below (.ofPure text) value) (Enough text levels value)
      (value.Everywhere (Checked text)) () (encoding text value))
    (asElement : ∀ text shared, Behind text shared value →
      Writes (writeElement below (.ofPure text) shared value)
        (value.Everywhere (Ready text) ∧ elementNesting value ≤ levels)
        (value.Everywhere (Checked text)) () (element text shared value)) :
    Written below levels value := by
  refine ⟨whole, fun text _ behind => asElement text _ behind, fun text shared behind => ?_⟩
  cases value with
  | described described => exact absurd rfl plain
  | _ =>
    exact (asElement text shared behind).imp (fun given => ⟨given.1, Nat.le_of_lt given.2⟩) id

section Simple

variable (below : BodyWriter) {text : String → Bytes} {value : Value}

/-- A value that contains no values is written if its length fits, and only then. Of a number
nothing is asked. -/
theorem writes_writeValue_simple (simple : value.isSimple = true) :
    Writes (writeValue below (.ofPure text) value) (Fits text value) (Fits text value) ()
      (simpleEncoding text value) := by
  have pair (code : Code) (bytes : Bytes) : Writes (do putCode code; put bytes) True True ()
      (code.toByte :: bytes) :=
    ((writes_putCode code).bind (writes_put bytes)).imp (fun _ => ⟨trivial, trivial⟩)
      fun _ => trivial
  cases value with
  | null => exact writes_putCode .null
  | boolean value => exact writes_putCode _
  | uint => exact writes_putUnsigned _ _ _ _ _
  | ulong => exact writes_putUnsigned _ _ _ _ _
  | int => exact writes_putSigned _ _ _ _ _ _
  | long => exact writes_putSigned _ _ _ _ _ _
  | binary bytes => exact writes_putPayload .binary8 bytes
  | string value => exact writes_putString text value
  | symbol name => exact writes_putSymbol name
  | list | map | array | described => cases simple
  | _ => exact pair _ _

/-- The payload of a value that contains no values is written if its length fits. A constructor
with a one-byte length can be shared only if the length fits that, so no more is asked than of
the value. -/
theorem writes_writeElement_simple (simple : value.isSimple = true) {shared : Code}
    (behind : Behind text shared value) :
    Writes (writeElement below (.ofPure text) shared value) (Fits text value) (Fits text value) ()
      (simplePayload text shared value) := by
  have measured (narrow : Code) {bytes : Bytes}
      (width : narrow.category = .variable 1 ∧ narrow.widen.category = .variable 4)
      (behind : shared = narrow ∧ bytes.length < 256 ∨ shared = narrow.widen) :
      Writes (putElementPayload shared bytes) (bytes.length < 256 ^ 4) (bytes.length < 256 ^ 4) ()
        (Canonical.measuredAs shared bytes) := by
    have fits : bytes.length < 256 ^ Canonical.lengthWidth shared ↔ bytes.length < 256 ^ 4 := by
      unfold Canonical.lengthWidth
      rcases behind with ⟨rfl, small⟩ | rfl
      · rw [if_pos width.1]
        omega
      · rw [width.2]
        exact Iff.rfl
    exact (writes_putElementPayload shared bytes).imp fits.mpr fits.mp
  cases value with
  | null => cases behind
  | binary bytes => exact measured .binary8 ⟨rfl, rfl⟩ behind
  | string value =>
    exact ((writes_ask text value).bind (measured .string8 ⟨rfl, rfl⟩ behind)).imp
      (fun fits => ⟨trivial, fits⟩) fun held => held.2
  | symbol name => exact measured .symbol8 ⟨rfl, rfl⟩ behind
  | list | map | array | described => cases simple
  | _ => exact writes_put _

end Simple

section Sequences

variable {below : BodyWriter} {hook : TextEncoder} {text : String → Bytes}
  {enough so : Value → Prop} {bytes : Value → Bytes}

/-- Items are written one after the other. -/
theorem writes_writeItems {items : List Value} (each : ∀ item ∈ items,
    Writes (writeValue below hook item) (enough item) (so item) () (bytes item)) :
    Writes (writeItems below hook items) (∀ item ∈ items, enough item) (∀ item ∈ items, so item) ()
      (items.flatMap bytes) := by
  rw [writeItems_eq_putEach]
  exact writes_putEach fun item member => (each item member).atomic

/-- Keys and values are written one after the other. -/
theorem writes_writeEntries {entries : Entries} (each : ∀ entry ∈ entries,
    Writes (writeValue below hook entry.1) (enough entry.1) (so entry.1) () (bytes entry.1) ∧
      Writes (writeValue below hook entry.2) (enough entry.2) (so entry.2) () (bytes entry.2)) :
    Writes (writeEntries below hook entries)
      (∀ entry ∈ entries, enough entry.1 ∧ enough entry.2)
      (∀ entry ∈ entries, so entry.1 ∧ so entry.2) ()
      (entries.flatMap fun entry => bytes entry.1 ++ bytes entry.2) := by
  rw [writeEntries_eq_putEach]
  refine writes_putEach fun entry member => ?_
  obtain ⟨key, mapped⟩ := each entry member
  exact key.atomic.bind mapped.atomic

/-- Slots are written one after the other, lists of symbols as arrays of symbols. Only the slots
up to the last set one are checked, because the others are not written. -/
theorem writes_writeSlots {fields : List Field} {slots : List Value} {count : Nat}
    (typed : Field.readAll fields slots = .ok slots) (within : count ≤ slots.length)
    (ready : ∀ slot, enough slot → slot.Everywhere (Checked text))
    (each : ∀ slot ∈ slots, Writes (writeValue below hook slot) (enough slot)
      (slot.Everywhere (Checked text)) () (encoding text slot)) :
    Writes (writeSlots below hook fields count slots) (∀ slot ∈ slots, enough slot)
      (∀ slot ∈ slots.take count, slot.Everywhere (Checked text)) ()
      (slotEncodings text fields count slots) := by
  induction slots generalizing fields count with
  | nil =>
    obtain rfl : count = 0 := Nat.le_zero.mp within
    exact (writes_pure ()).imp (fun _ => trivial) fun _ => nofun
  | cons slot rest inductionHypothesis =>
    cases count with
    | zero => exact (writes_pure ()).imp (fun _ => trivial) fun _ => nofun
    | succ count =>
      cases fields with
      | nil => cases typed
      | cons field fields =>
        obtain ⟨first, later⟩ := Field.readAll_cons typed
        have others := inductionHypothesis later (Nat.le_of_succ_le_succ within)
          fun other member => each other (List.mem_cons_of_mem _ member)
        rw [writeSlots, slotEncodings, List.take_succ_cons]
        simp only [List.forall_mem_cons, List.head?_cons, Option.bind_some, List.tail_cons]
        cases symbols : slotSymbols? field.type slot with
        | some names =>
          obtain rfl := eq_array_of_slotSymbols first symbols
          exact ((writes_putSymbolArray text names).atomic.imp (ready _) id).bind others
        | none => exact (each slot List.mem_cons_self).atomic.bind others

end Sequences

section Described

variable {below : BodyWriter} {text : String → Bytes} {levels : Nat}

/-- A descriptor is written in front of a body. -/
theorem writes_described (descriptor : Descriptor) {write : Emit Unit} {enough so : Prop}
    {bytes : Bytes} (writes : Writes write enough so () bytes) :
    Writes (do
        putCode .described
        putDescriptor descriptor
        write) (LabelFits descriptor ∧ enough) (LabelFits descriptor ∧ so) ()
      (Code.described.toByte :: Canonical.label descriptor ++ bytes) :=
  ((writes_putCode .described).bind ((writes_putDescriptor descriptor).bind writes)).imp
    (fun given => ⟨trivial, given⟩) fun held => held.2

/-- A composite is written if its slots are. A form without fields is an empty list, and any
other is a frame of slots, which may have to be wide. -/
theorem writes_composite {form : Composite} {slots : List Value} {enough : Value → Prop}
    (typed : Field.readAll form.fields slots = .ok slots)
    (ready : ∀ slot, enough slot → slot.Everywhere (Checked text))
    (each : ∀ slot ∈ slots, Writes (writeValue below (.ofPure text) slot) (enough slot)
      (slot.Everywhere (Checked text)) () (encoding text slot)) :
    Writes (writeDescribed below (.ofPure text) (.composite form slots))
      ((∀ slot ∈ slots, enough slot) ∧ Fits text (.described (.composite form slots)))
      ((Value.described (.composite form slots)).Everywhere (Checked text)) ()
      (encoding text (.described (.composite form slots))) := by
  have within := Canonical.setSlots_le slots
  have body : Writes
      (if form.fields.isEmpty then putCode .list0
      else do
        let mark ← openContainer .list8
        writeSlots below (.ofPure text) form.fields (setSlots slots) slots
        closeContainer mark (setSlots slots) (needsWideList form.fields slots))
      ((∀ slot ∈ slots, enough slot) ∧ Fits text (.described (.composite form slots)))
      ((∀ slot ∈ slots.take (setSlots slots), slot.Everywhere (Checked text)) ∧
        Fits text (.described (.composite form slots))) ()
      (Canonical.bodyEncoding text (.composite form slots)) := by
    rw [Canonical.bodyEncoding, Fits, ← Canonical.length_slotEncodings typed]
    split
    · next none =>
      have empty : slots = [] := by
        rw [List.isEmpty_iff.mp none] at typed
        cases typed
        rfl
      subst empty
      have small : (4 : Nat) < 256 ^ 4 := by decide
      have none (slot : Value) : slot ∉ [].take (setSlots []) := List.not_mem_nil
      exact (writes_putCode .list0).imp (fun _ => trivial) fun _ =>
        ⟨fun slot member => absurd member (none slot), small⟩
    · exact writes_container .list8 (needsWideList form.fields slots)
        (writes_writeSlots typed within ready each)
        (Canonical.le_length_slotEncodings form.fields within)
  refine (writes_described (.code form.code) body).imp ?_ ?_
  · exact fun given => ⟨Canonical.labelFits_code _, given⟩
  · rintro ⟨_, each, fits⟩
    refine Canonical.checked_of_rawBody (.of_list ⟨?_, trivial, trivial⟩ each)
      (Canonical.labelFits_code _)
    rwa [Fits, ← Canonical.firstEncodings_eq]

end Described

section Arrays

variable {below : BodyWriter} {text : String → Bytes} {levels : Nat} {items : List Value}

/-- Elements that are laid out can share the constructor that is chosen for them. -/
theorem LaidOut.behind {raw : Described → Value} (laid : LaidOut below raw items) {item : Value}
    (member : item ∈ items) :
    Behind text (Canonical.sharedCode text (items.map (held raw))) (held raw item) := by
  obtain ⟨kind, notNull, notDescribed, same⟩ := laid.alike
  exact Canonical.behind_sharedCode notNull notDescribed same (List.mem_map_of_mem member)

/-- Elements are laid out with their own raw bodies exactly if they are uniform, none is held as
null, and their parts are found. -/
theorem laidOut_iff : LaidOut below Described.rawBody items ↔
    ((Value.array items).Uniform ∧ (Value.array items).NoNull) ∧
      PartsFound below Described.rawBody items := by
  rw [uniform_iff, ← held_rawBody]
  exact ⟨fun ⟨labelled, alike, found⟩ => ⟨⟨labelled, alike⟩, found⟩,
    fun ⟨⟨labelled, alike⟩, found⟩ => ⟨labelled, alike, found⟩⟩

/-- Whatever is found of the described elements of a plain array is their descriptors and raw
bodies. An element that is written at all is sound, and what is read back of it is its own parts.
-/
theorem partsSound_of_plain (plain : (Value.array items).Everywhere Value.Plain)
    (each : ∀ item ∈ items, Written below levels item) :
    PartsSound below Described.rawBody items := by
  intro described member parts found
  refine eq_of_rawParts ((each _ member).whole Utf8.encode) (fun checked => ?_) found
  exact fun part inside => ⟨plain.element member part inside, checked part inside⟩

/-- The descriptors and raw bodies of the described elements of a sound array are found, if the
usual reader has the levels that the elements need. A raw body that is not described needs no
fewer levels as an element than as a body, which is where the bound comes from. -/
theorem partsFound_of_ready (plain : (Value.array items).Everywhere Value.Plain)
    (each : ∀ item ∈ items, Written below levels item) (few : levels ≤ defaultMaxDepth)
    (ready : (Value.array items).Everywhere (Ready text))
    (within : elementNestings items < levels) :
    PartsFound below Described.rawBody items := by
  intro described member
  have readable : (Value.described described).Everywhere (Ready Utf8.encode) :=
    (ready.element member).imp fun _ ready => ⟨ready.readable, ready.readable⟩
  have sound : (Value.described described).Everywhere (Sound Utf8.encode) := fun part inside =>
    ⟨plain.element member part inside, (readable part inside).checked⟩
  obtain ⟨_, kind, notDescribed, same⟩ := ready.here.checked.uniform
  have bare : described.rawBody.kind ≠ .described := by
    rw [show described.rawBody.kind = kind from (same _ member).2]
    exact notDescribed
  have bound : elementNesting (.described described) < levels :=
    Nat.lt_of_le_of_lt (Canonical.elementNesting_le_elementNestings member) within
  have shallow : bodyNesting described < levels :=
    Nat.lt_of_le_of_lt (Canonical.bodyNesting_le_rawNesting bare) bound
  exact rawParts_of_sound ((each _ member).whole Utf8.encode) ⟨readable, shallow⟩ sound
    (Nat.lt_of_lt_of_le shallow few)

/-- A plain array is written into a frame. It is laid out exactly if it is uniform and the parts
of its elements are found, and then all elements can share the constructor and pay for their
count. -/
theorem writes_array_of_plain (finish : Emit Unit → Emit Unit) {framed : Bytes}
    (plain : (Value.array items).Everywhere Value.Plain)
    (each : ∀ item ∈ items, Written below levels item) (few : levels ≤ defaultMaxDepth)
    (frames : items.length ≤ (Canonical.arrayHead text items ++
        Canonical.elements text (Canonical.sharedCode text (items.map .bare)) items).length →
      ∀ {write : Emit Unit} {enough so : Prop}, Writes write enough so ()
        (Canonical.arrayHead text items ++
          Canonical.elements text (Canonical.sharedCode text (items.map .bare)) items) →
      Writes (finish write) (enough ∧ Fits text (.array items)) (so ∧ Fits text (.array items)) ()
        framed) :
    Writes (do
        let layout ← arrayLayout (.ofPure text) items fun _ => rawBodies below none [] items
        finish (putArrayPayload layout (fun code => writeElements below (.ofPure text) code items)
          fun code bodies => writeRawElements below (.ofPure text) code bodies items))
      ((Value.array items).Everywhere (Ready text) ∧ elementNestings items < levels)
      ((Value.array items).Everywhere (Checked text)) () framed := by
  have behind (laid : LaidOut below Described.rawBody items) {item : Value}
      (member : item ∈ items) :
      Behind text (Canonical.sharedCode text (items.map .bare)) item.bare := by
    have shares := @laid.behind _ text _ _ item member
    rwa [held_rawBody] at shares
  have paid (laid : LaidOut below Described.rawBody items) :
      items.length ≤ (Canonical.arrayHead text items ++
        Canonical.elements text (Canonical.sharedCode text (items.map .bare)) items).length := by
    have few := @Canonical.length_le_elements text _ _ fun item member => behind laid member
    rw [List.length_append]
    omega
  refine (@writes_array below Described.rawBody items
    (fun item => item.Everywhere (Ready text) ∧ elementNesting item < levels)
    (fun item => item.bare.Everywhere (Checked text))
    (element text (Canonical.sharedCode text (items.map .bare))) text finish framed
    (Fits text (.array items)) (partsSound_of_plain plain each) (fun laid => ?_) ?_).imp ?_ ?_
  · rw [layoutHead_layout, ← Canonical.elements_eq]
    exact frames (paid laid)
  · intro laid item member
    rw [held_rawBody]
    exact (each item member).bare text (behind laid member)
  · rintro ⟨ready, within⟩
    have here := ready.here.checked
    have found := partsFound_of_ready plain each few ready within
    refine ⟨laidOut_iff.mpr ⟨⟨here.uniform, here.noNull⟩, found⟩,
      ⟨?_, fun item member => ⟨ready.element member, ?_⟩⟩, here.fits⟩
    · intro item member descriptor label
      cases item with
      | described described =>
        cases label
        exact (ready.element member).here.checked.fits.descriptor
      | _ => cases label
    · exact Nat.lt_of_le_of_lt (Canonical.elementNesting_le_elementNestings member) within
  · rintro ⟨laid, ⟨labels, checked⟩, fits⟩
    obtain ⟨⟨uniform, noNull⟩, _⟩ := laidOut_iff.mp laid
    refine .of_array ⟨fits, uniform, noNull⟩ fun item member => ?_
    cases item with
    | described described =>
      exact Canonical.checked_of_rawBody (checked _ member) (labels _ member _ rfl)
    | _ => exact checked _ member

end Arrays

section Induction

variable {below : BodyWriter} {levels : Nat}

/-- The raw body of a described element of a known form is written as an element. That the levels
suffice for the raw body is implied by their sufficing for the element. -/
theorem writes_rawBody (reaches : Reaches levels below) {described : Described}
    (plain : (Value.described described).Everywhere Value.Plain)
    (top : described.rawBody.Plain) {text : String → Bytes} {shared : Code}
    (behind : Behind text shared described.rawBody) :
    Writes (below (.ofPure text) shared described.rawBody)
      ((Value.described described).Everywhere (Ready text) ∧
        elementNesting (.described described) < levels)
      (described.rawBody.Everywhere (Checked text)) ()
      (element text shared (.described described)) := by
  refine ((reaches text shared _ (Canonical.everywhere_rawBody plain top) behind).imp ?_ id).of_eq
    (Canonical.element_rawBody shared described)
  rintro ⟨ready, within⟩
  have checked := Canonical.checked_rawBody (ready.imp fun _ ready => ready.checked)
  have readable := Canonical.checked_rawBody (ready.imp fun _ ready => ready.readable)
  exact ⟨fun part inside => ⟨checked part inside, readable part inside⟩,
    Nat.lt_of_le_of_lt (Canonical.elementNesting_rawBody_le described) within⟩

/-- A value that contains no values is written, in its own form and as an element. -/
theorem written_simple {value : Value} (simple : value.isSimple = true) :
    Written below levels value := by
  refine .of_bare (fun described => ?_) (fun text => ?_) fun text shared behind => ?_
  · cases value with
    | described => cases simple
    | _ => cases described
  · rw [Canonical.encoding_of_isSimple simple]
    exact (writes_writeValue_simple below simple).imp (fun given => given.1.here.checked.fits)
      (Canonical.checked_of_isSimple simple)
  · rw [Canonical.element_of_isSimple simple]
    exact (writes_writeElement_simple below simple behind).imp
      (fun given => given.1.here.checked.fits) (Canonical.checked_of_isSimple simple)

/-- A list is written if its items are. An empty one needs no frame, except as an element. -/
theorem written_list {items : List Value} (each : ∀ item ∈ items, Written below levels item) :
    Written below levels (.list items) := by
  have whole (text : String → Bytes) :=
    (writes_writeItems fun item member => (each item member).whole text).of_eq
      (Canonical.encodings_eq items).symm
  have counted (text : String → Bytes) := @Canonical.length_le_encodings text items
  have enough {text : String → Bytes}
      (given : (Value.list items).Everywhere (Ready text) ∧ nestings items + 1 ≤ levels) :
      (∀ item ∈ items, Enough text levels item) ∧ Fits text (.list items) := by
    obtain ⟨ready, within⟩ := given
    refine ⟨fun item member => ⟨ready.item member, ?_⟩, ready.here.checked.fits⟩
    exact Nat.le_trans (Canonical.nesting_le_nestings member) (Nat.le_of_succ_le within)
  have checked {text : String → Bytes}
      (held : (∀ item ∈ items, item.Everywhere (Checked text)) ∧ Fits text (.list items)) :
      (Value.list items).Everywhere (Checked text) :=
    .of_list ⟨held.2, trivial, trivial⟩ held.1
  refine .of_bare (by intro described; cases described) (fun text => ?_) fun text shared _ => ?_
  · cases items with
    | nil =>
      have small : (4 : Nat) < 256 ^ 4 := by decide
      refine (writes_putCode .list0).imp (fun _ => trivial) fun _ => checked ⟨?_, small⟩
      exact fun item member => absurd member List.not_mem_nil
    | cons item rest =>
      exact (writes_container .list8 false (whole text) (counted text)).imp enough checked
  · exact (writes_putWideBody (whole text) (counted text)).imp enough checked

/-- A map is written if its keys and values are, in a frame that counts both. -/
theorem written_map {entries : Entries}
    (each : ∀ entry ∈ entries, Written below levels entry.1 ∧ Written below levels entry.2) :
    Written below levels (.map entries) := by
  have whole (text : String → Bytes) := (writes_writeEntries fun entry member =>
    And.intro ((each entry member).1.whole text) ((each entry member).2.whole text)).of_eq
      (Canonical.entryEncodings_eq entries).symm
  have counted (text : String → Bytes) := @Canonical.length_le_entryEncodings text entries
  have enough {text : String → Bytes}
      (given : (Value.map entries).Everywhere (Ready text) ∧ entryNestings entries + 1 ≤ levels) :
      (∀ entry ∈ entries, Enough text levels entry.1 ∧ Enough text levels entry.2) ∧
        Fits text (.map entries) := by
    obtain ⟨ready, within⟩ := given
    refine ⟨fun entry member => ?_, ready.here.checked.fits⟩
    have bounds := Canonical.nesting_le_entryNestings member
    exact ⟨⟨ready.key member, by omega⟩, ready.mapped member, by omega⟩
  have checked {text : String → Bytes} (held : (∀ entry ∈ entries,
      entry.1.Everywhere (Checked text) ∧ entry.2.Everywhere (Checked text)) ∧
        Fits text (.map entries)) : (Value.map entries).Everywhere (Checked text) :=
    .of_map ⟨held.2, trivial, trivial⟩ held.1
  refine .of_bare (by intro described; cases described) (fun text => ?_) fun text shared _ => ?_
  · exact (writes_container .map8 false (whole text) (counted text)).imp enough checked
  · exact (writes_putWideBody (whole text) (counted text)).imp enough checked

/-- A plain array is written if its elements are, in a container of its own and as an element of
another array. -/
theorem written_array {items : List Value} (few : levels ≤ defaultMaxDepth)
    (plain : (Value.array items).Everywhere Value.Plain)
    (each : ∀ item ∈ items, Written below levels item) : Written below levels (.array items) := by
  refine .of_bare (by intro described; cases described) (fun text => ?_) fun text shared _ => ?_
  · rw [writeValue]
    refine writes_array_of_plain (fun write => do
      let mark ← openContainer .array8
      write
      closeContainer mark items.length false) plain each few fun paid _ _ _ writes => ?_
    exact writes_container .array8 false writes paid
  · exact writes_array_of_plain (putWideBody items.length) plain each few
      fun paid _ _ _ writes => writes_putWideBody writes paid

/-- A plain composite is written if its slots are, and as an element by its raw body. Slots
behind the last set one are null and need no levels. -/
theorem written_composite (reaches : Reaches levels below) {form : Composite}
    {slots : List Value}
    (plain : (Value.described (.composite form slots)).Everywhere Value.Plain)
    (each : ∀ slot ∈ slots, Written below levels slot) :
    Written below levels (.described (.composite form slots)) := by
  refine ⟨fun text => ?_, fun _ _ behind => behind.elim, fun text shared behind => ?_⟩
  · refine (writes_composite plain.here.typed (fun _ enough => enough.1.imp fun _ ready =>
      ready.checked) fun slot member => (each slot member).whole text).imp ?_ id
    rintro ⟨ready, within⟩
    refine ⟨fun slot member => ⟨ready.contents member, ?_⟩, ready.here.checked.fits⟩
    exact Nat.le_trans (Canonical.nesting_le_bodyNesting plain.here.typed member)
      (Nat.le_of_succ_le within)
  · exact writes_rawBody reaches plain ⟨trivial, trivial⟩ behind

/-- A plain section is written if its content is. A value section guards its content and the
others do not, which makes no difference where the section is written. -/
theorem written_content (reaches : Reaches levels below) {portion : Section} {body : Value}
    (plain : (Value.described (.content portion body)).Everywhere Value.Plain)
    (written : Written below levels body) :
    Written below levels (.described (.content portion body)) := by
  refine ⟨fun text => ?_, fun _ _ behind => behind.elim, fun text shared behind => ?_⟩
  · have body : Writes (if portion = .amqpValue then atomic (writeValue below (.ofPure text) body)
        else writeValue below (.ofPure text) body) (Enough text levels body)
        (body.Everywhere (Checked text)) () (encoding text body) := by
      split
      · exact (written.whole text).atomic
      · exact written.whole text
    refine (writes_described (.code portion.code) body).imp ?_ ?_
    · rintro ⟨ready, within⟩
      exact ⟨Canonical.labelFits_code _, ready.contents List.mem_cons_self,
        Nat.le_of_succ_le within⟩
    · rintro ⟨_, checked⟩
      exact .of_content ⟨trivial, trivial, trivial⟩ checked
  · exact writes_rawBody reaches plain (plain.contents List.mem_cons_self).here behind

/-- A described value of no known form is written if its body is. As an element it is its body,
and nothing is read back. -/
theorem written_unknown {descriptor : Descriptor} {body : Value}
    (written : Written below levels body) :
    Written below levels (.described (.unknown descriptor body)) := by
  refine ⟨fun text => ?_, fun _ _ behind => behind.elim, fun text shared behind => ?_⟩
  · refine (writes_described descriptor (written.whole text).atomic).imp ?_ ?_
    · rintro ⟨ready, within⟩
      exact ⟨ready.here.checked.fits.descriptor, ready.contents List.mem_cons_self,
        Nat.le_of_succ_le within⟩
    · rintro ⟨label, checked⟩
      exact @Canonical.checked_of_rawBody text (.unknown descriptor body) checked label
  · refine (written.asElement text behind).imp ?_ id
    rintro ⟨ready, within⟩
    exact ⟨ready.contents List.mem_cons_self, Nat.le_of_lt within⟩

/-- A plain value is written as its canonical encoding, and so is what an array holds of it. The
induction is on the value, for a writer of raw bodies that reaches some number of levels. -/
theorem written_of_plain (reaches : Reaches levels below) (few : levels ≤ defaultMaxDepth)
    (value : Value) (plain : value.Everywhere Value.Plain) : Written below levels value := by
  induction value using Value.induction with
  | simple value simple => exact written_simple simple
  | list items inductionHypothesis =>
    apply written_list
    intro item member
    exact inductionHypothesis item member (plain.item member)
  | map entries inductionHypothesis =>
    apply written_map
    intro entry member
    obtain ⟨key, mapped⟩ := inductionHypothesis entry member
    exact ⟨key (plain.key member), mapped (plain.mapped member)⟩
  | array items inductionHypothesis =>
    apply written_array few plain
    intro item member
    exact inductionHypothesis item member (plain.element member)
  | described contained inductionHypothesis =>
    have each (value : Value) (member : value ∈ contained.contents) : Written below levels value :=
      inductionHypothesis value member (plain.contents member)
    cases contained with
    | composite form slots => exact written_composite reaches plain each
    | content portion body => exact written_content reaches plain (each body List.mem_cons_self)
    | unknown descriptor body => exact written_unknown (each body List.mem_cons_self)

/-- The writer of raw bodies with so many levels writes those that need fewer. It is a writer of
elements over the one with a level less, and without levels it refuses everything. -/
theorem reaches_bodyWriter (few : levels ≤ defaultMaxDepth) :
    Reaches levels (bodyWriter levels) := by
  induction levels with
  | zero =>
    intro text shared value _ _
    exact (writes_throw _ _ _).imp (fun given => Nat.not_lt_zero _ given.2) False.elim
  | succ levels inductionHypothesis =>
    intro text shared value plain behind
    have fewer := Nat.le_of_succ_le few
    have written := written_of_plain (inductionHypothesis fewer) fewer value plain
    refine (written.asElement text behind).imp ?_ id
    rintro ⟨ready, within⟩
    exact ⟨ready, Nat.le_of_lt_succ within⟩

end Induction

/-- A plain value is written as its canonical encoding, whole or not at all. It is written
only if what is checked holds everywhere in it, and then it is, unless it needs more levels
than the usual reader has. -/
theorem writes_encodeValue (text : String → Bytes) {value : Value}
    (plain : value.Everywhere Value.Plain) :
    Writes (encodeValue (.ofPure text) value)
      (value.Everywhere (Ready text) ∧ nesting value ≤ defaultMaxDepth)
      (value.Everywhere (Checked text)) () (encoding text value) :=
  (written_of_plain (reaches_bodyWriter (Nat.le_refl _)) (Nat.le_refl _) value plain).whole text
    |>.atomic

end Amqp.Encoder
