import Amqp.Proofs.Encoder.Layout
import Amqp.Proofs.Encoder.Values
import Amqp.Proofs.Legibility
import Amqp.Proofs.RoundTrip

/-!
# Whatever the text hook answers

A text hook may answer differently each time it is asked for the same string. Nothing can then be
said of which bytes are written, but what is written is still framed: whenever a value is written
at all, a reader that takes any bytes for text reads one value from it, of the same outline.

What is written of a string stands behind a length that it has, because the answer that is measured
is the answer that is written. In an array the constructor is chosen after one round of questions
and the elements are the answers of another. An answer that outgrows the constructor is refused,
since its length does not fit the width of the constructor, and all others are legible behind it.

Of a computation it is said here only what is so if it succeeds. The induction is on the value, for
a fixed writer of raw bodies, and then on the levels of that writer.
-/

namespace Amqp

open Canonical (Checked symbolArray)
open Grammar (Coded Element Legible LegibleElements Paired Sequence legible_of_coded
  legible_of_encoding legible_string)

namespace Encoder

section Layout

variable {hook : TextEncoder} {items : List Value}

/-- Nothing is written to find out whether strings are short. What the answers are, and how many
questions are asked, does not matter. -/
theorem yields_stringsFit (items : List Value) :
    Yields (stringsFit hook items) fun _ bytes => bytes = [] := by
  induction items with
  | nil => exact yields_pure rfl
  | cons item rest inductionHypothesis =>
    cases item with
    | string text =>
      refine yields_ask hook text fun answer => ?_
      split
      · exact inductionHypothesis
      · exact yields_pure rfl
    | _ => exact inductionHypothesis

/-- Nothing is written to find the constructor that elements share. Only for strings is the hook
asked, and all other elements are treated as under any hook without a memory. -/
theorem yields_elementCode (items : List Value) :
    Yields (elementCode hook items) fun _ bytes => bytes = [] := by
  cases items with
  | nil => exact yields_pure rfl
  | cons first rest =>
    by_cases strings : first.kind = .string
    · simp only [elementCode, strings]
      split
      · exact yields_throw _
      · refine (yields_stringsFit _).bind fun fits _ nothing => ?_
        subst nothing
        exact yields_pure rfl
    · rw [elementCode_unasked rest strings]
      exact (writes_elementCode Utf8.encode (first :: rest)).yields.imp fun _ _ holds => holds.2.2

/-- Whatever layout is found of an array, it is one of the elements, and nothing is written to
find it. That it is the right layout of the strings that are written later is not said: the
answers to come are not known. -/
theorem yields_arrayLayout {below : BodyWriter} {raw : Described → Value}
    (sound : PartsSound below raw items) :
    Yields (arrayLayout hook items fun _ => rawBodies below none [] items) fun layout bytes =>
      bytes = [] ∧ LaysOut raw items layout := by
  have silent : Yields (arrayLayout hook items fun _ => rawBodies below none [] items)
      fun _ bytes => bytes = [] := by
    have found {items : List Value} {finish : Code → ArrayLayout} :
        Yields (do return finish (← elementCode hook items)) fun _ bytes => bytes = [] := by
      refine (yields_elementCode items).bind fun _ _ nothing => ?_
      subst nothing
      exact yields_pure rfl
    cases items with
    | nil => exact found
    | cons first rest =>
      cases first with
      | described contained =>
        rw [arrayLayout]
        cases rawBodies below none [] (.described contained :: rest) with
        | error failure => exact yields_throw failure
        | ok parts => exact found
      | _ => exact found
  intro state after layout ran
  obtain ⟨_, appended, nothing⟩ := silent ran
  exact ⟨_, appended, nothing, laysOut_of_arrayLayout sound ran⟩

end Layout

section Sequences

variable {below : BodyWriter} {hook : TextEncoder} {raw : Described → Value} {shared : Code}
  {one : Bytes → Value → Prop}

/-- An item in front of others that are written one after the other. -/
theorem Yields.before {κ : Type} {one : Bytes → κ → Prop} {item : κ} {rest : List κ}
    {write later : Emit Unit} (first : Yields write fun _ front => one front item)
    (others : Yields later fun _ back => Sequence one back rest) :
    Yields (do write; later) fun _ bytes => Sequence one bytes (item :: rest) :=
  first.bind fun _ _ here => others.imp fun _ _ remaining => .cons here remaining

/-- Things are written one after the other. -/
theorem yields_putEach {κ : Type} {one : Bytes → κ → Prop} {write : κ → Emit Unit}
    {items : List κ} (each : ∀ item ∈ items, Yields (write item) fun _ bytes => one bytes item) :
    Yields (putEach write items) fun _ bytes => Sequence one bytes items := by
  induction items with
  | nil => exact yields_pure .nil
  | cons item rest inductionHypothesis =>
    obtain ⟨first, later⟩ := List.forall_mem_cons.mp each
    exact first.before (inductionHypothesis later)

/-- Items are written one after the other. -/
theorem yields_writeItems {items : List Value}
    (each : ∀ item ∈ items, Yields (writeValue below hook item) fun _ bytes => one bytes item) :
    Yields (writeItems below hook items) fun _ bytes => Sequence one bytes items := by
  rw [writeItems_eq_putEach]
  exact yields_putEach fun item member => (each item member).atomic

/-- Keys and values are written one after the other. -/
theorem yields_writeEntries {entries : Entries} (each : ∀ entry ∈ entries,
    (Yields (writeValue below hook entry.1) fun _ bytes => one bytes entry.1) ∧
      Yields (writeValue below hook entry.2) fun _ bytes => one bytes entry.2) :
    Yields (writeEntries below hook entries) fun _ bytes =>
      Sequence (Paired one) bytes entries := by
  rw [writeEntries_eq_putEach]
  refine yields_putEach fun entry member => ?_
  obtain ⟨key, mapped⟩ := each entry member
  exact key.atomic.bind fun _ front isKey => mapped.atomic.imp fun _ back isValue =>
    ⟨front, back, rfl, isKey, isValue⟩

/-- Elements that are not described are written one after the other. -/
theorem yields_writeElements {items : List Value} (plain : ∀ item ∈ items, item.label? = none)
    (each : ∀ item ∈ items,
      Yields (writeHeld below raw hook shared item) fun _ bytes => one bytes item) :
    Yields (writeElements below hook shared items) fun _ bytes => Sequence one bytes items := by
  rw [writeElements_eq_held raw plain]
  exact yields_putEach each

/-- The raw bodies of elements that are described are written one after the other. -/
theorem yields_writeRawElements {items : List Value}
    (described : ∀ item ∈ items, item.kind = .described)
    (each : ∀ item ∈ items,
      Yields (writeHeld below raw hook shared item) fun _ bytes => one bytes item) :
    Yields (writeRawElements below hook shared (items.map (held raw)) items) fun _ bytes =>
      Sequence one bytes items := by
  rw [writeRawElements_eq_held described]
  exact yields_putEach each

/-- An array of symbols is legible, also if it has none. -/
theorem legible_symbolArray {names : List String}
    (checked : (Value.array (names.map .symbol)).Everywhere (Checked Utf8.encode)) :
    Coded Legible (symbolArray names) (.array (names.map .symbol)) :=
  legible_of_encoding (Canonical.coded_symbolArray TextDecoder.lossy_encode checked)

/-- Slots are written one after the other, up to the last one that is set. The hook is not asked
about lists of symbols, which are legible in their own writing, with or without symbols. -/
theorem yields_writeSlots {fields : List Field} {slots : List Value} {count : Nat}
    (typed : Field.readAll fields slots = .ok slots)
    (each : ∀ slot ∈ slots,
      Yields (writeValue below hook slot) fun _ bytes => Coded Legible bytes slot) :
    Yields (writeSlots below hook fields count slots) fun _ bytes =>
      Sequence (Coded Legible) bytes (slots.take count) := by
  induction slots generalizing fields count with
  | nil =>
    rw [writeSlots, List.take_nil]
    split
    · exact yields_pure .nil
    · exact yields_throw _
  | cons slot rest inductionHypothesis =>
    cases count with
    | zero => exact yields_pure .nil
    | succ count =>
      cases fields with
      | nil => cases typed
      | cons field fields =>
        obtain ⟨first, later⟩ := Field.readAll_cons typed
        obtain ⟨here, others⟩ := List.forall_mem_cons.mp each
        have remaining := @inductionHypothesis fields count later others
        rw [writeSlots, List.take_succ_cons]
        simp only [List.head?_cons, Option.bind_some, List.tail_cons]
        cases symbols : slotSymbols? field.type slot with
        | some names =>
          obtain rfl := eq_array_of_slotSymbols first symbols
          refine Yields.before ?_ remaining
          refine (writes_putSymbolArray Utf8.encode names).atomic.yields.imp ?_
          rintro _ _ ⟨checked, _, rfl⟩
          exact legible_symbolArray checked
        | none => exact here.atomic.before remaining

end Sequences

section Values

variable {below : BodyWriter} {hook : TextEncoder} {value : Value}

/-- What is to be shown of a value: that it is legible where it is written, as an element behind
every constructor that it shares, and so is what an array holds of it. -/
structure WrittenLegibly (below : BodyWriter) (hook : TextEncoder) (value : Value) : Prop where
  whole : Yields (writeValue below hook value) fun _ bytes => Coded Legible bytes value
  asElement {shared : Code} (shares : Shares shared value) :
    Yields (writeElement below hook shared value) fun _ content => Legible shared content value
  bare {shared : Code} (shares : Shares shared value.bare) :
    Yields (writeHeld below Described.rawBody hook shared value) fun _ content =>
      Legible shared content value.bare

/-- A writer of raw bodies that writes them legibly. -/
def LegibleBodies (below : BodyWriter) (hook : TextEncoder) : Prop :=
  ∀ shared value, value.Everywhere Value.Plain → Shares shared value →
    Yields (below hook shared value) fun _ content => Legible shared content value

/-- An array holds a value that is not described as it is. -/
theorem WrittenLegibly.of_element (plain : value.kind ≠ .described)
    (whole : Yields (writeValue below hook value) fun _ bytes => Coded Legible bytes value)
    (asElement : ∀ shared, Shares shared value →
      Yields (writeElement below hook shared value) fun _ content => Legible shared content value) :
    WrittenLegibly below hook value := by
  refine ⟨whole, asElement _, fun shares => ?_⟩
  cases value with
  | described contained => exact absurd rfl plain
  | _ => exact asElement _ shares

/-- A string is legible whatever the hook answers, if its length fits. One answer is both
measured and written, and a lossy reader takes it for some text. -/
theorem writtenLegibly_string (text : String) : WrittenLegibly below hook (.string text) := by
  refine .of_element nofun ?_ fun shared shares => ?_
  · refine yields_ask hook text fun answer => (writes_putPayload .string8 answer).yields.imp ?_
    rintro _ _ ⟨fits, _, rfl⟩
    exact Canonical.coded_measured .string8 (fun small => legible_string rfl rfl small text)
      (legible_string rfl rfl fits text)
  · refine yields_ask hook text fun answer =>
      (writes_putElementPayload shared answer).yields.imp ?_
    rintro _ _ ⟨fits, _, rfl⟩
    rcases shares with rfl | rfl
    · exact legible_string rfl rfl fits text
    · exact legible_string rfl rfl fits text

/-- A value that contains no values is legible. If it is not a string, the hook is not asked, and
what is written is the canonical encoding of the value, which a lossy reader takes for the value
itself. -/
theorem writtenLegibly_simple (simple : value.isSimple = true) :
    WrittenLegibly below hook value := by
  by_cases textual : value.kind = .string
  · cases value with
    | string text => exact writtenLegibly_string text
    | _ => cases textual
  · have plain : value.kind ≠ .described := by
      cases value with
      | described => cases simple
      | _ => exact nofun
    have unasked : writeValue below hook value = writeValue below (.ofPure Utf8.encode) value ∧
        ∀ shared, writeElement below hook shared value =
          writeElement below (.ofPure Utf8.encode) shared value := by
      cases value with
      | string => exact absurd rfl textual
      | list | map | array | described => cases simple
      | _ => exact ⟨rfl, fun _ => rfl⟩
    refine .of_element plain ?_ fun shared shares => ?_
    · rw [unasked.1]
      refine (writes_writeValue_simple below simple).yields.imp ?_
      rintro _ _ ⟨fits, _, rfl⟩
      exact legible_of_coded (Canonical.coded_simpleEncoding TextDecoder.lossy_encode simple fits)
    · rw [unasked.2]
      have behind := shares.behind textual
      refine (writes_writeElement_simple below simple behind).yields.imp ?_
      rintro _ _ ⟨fits, _, rfl⟩
      exact .of_payload
        (Canonical.payload_simplePayload TextDecoder.lossy_encode simple fits behind)

/-- An empty list has a constructor of its own. -/
theorem yields_list0 : Yields (putCode .list0) fun _ bytes => Coded Legible bytes (.list []) := by
  refine (writes_putCode .list0).yields.imp ?_
  rintro _ _ ⟨_, _, rfl⟩
  exact legible_of_coded ⟨.list0, [], rfl, .scalar .list0⟩

/-- A list is legible if its items are, in a frame of its own and as an element. The frame may be
short or wide. It counts the items, and each takes a byte at least, so the count is paid for. -/
theorem writtenLegibly_list {items : List Value}
    (each : ∀ item ∈ items, WrittenLegibly below hook item) :
    WrittenLegibly below hook (.list items) := by
  have content := yields_writeItems fun item member => (each item member).whole
  refine .of_element nofun ?_ fun shared shares => ?_
  · cases items with
    | nil => exact yields_list0
    | cons item rest =>
      refine (yields_container .list8 false content fun _ sequence =>
        sequence.length_le fun _ _ => Coded.ne_nil).imp ?_
      rintro _ _ ⟨content, sequence, fits, rfl⟩
      exact legible_of_coded (Canonical.coded_listContainer false sequence fits)
  · obtain rfl : shared = .list32 := shares
    refine (yields_putWideBody content).imp ?_
    rintro _ _ ⟨content, sequence, fits, rfl⟩
    exact .of_payload (.list rfl rfl rfl sequence fits)

/-- A map is legible if its keys and values are. The frame counts keys and values together, and
these are read in pairs. -/
theorem writtenLegibly_map {entries : Entries} (each : ∀ entry ∈ entries,
    WrittenLegibly below hook entry.1 ∧ WrittenLegibly below hook entry.2) :
    WrittenLegibly below hook (.map entries) := by
  have content := yields_writeEntries fun entry member =>
    ⟨(each entry member).1.whole, (each entry member).2.whole⟩
  refine .of_element nofun ?_ fun shared shares => ?_
  · rw [writeValue]
    refine (yields_container .map8 false content fun _ sequence => ?_).imp ?_
    · rw [Nat.mul_comm]
      exact Decoder.length_le_of_paired sequence
    · rintro _ _ ⟨content, sequence, fits, rfl⟩
      exact legible_of_coded (Canonical.coded_mapContainer sequence fits)
  · obtain rfl : shared = .map32 := shares
    rw [writeElement]
    refine (yields_putWideBody content).imp ?_
    rintro _ _ ⟨content, sequence, fits, rfl⟩
    rw [Nat.mul_comm]
    exact .of_payload (.map rfl rfl rfl sequence fits)

/-- What an array holds is legible if its elements are. A constructor that was found by other
answers than those which are written is still the constructor of the elements. Each element is
legible behind it as its bare value, and the shared descriptor resolves it. -/
theorem yields_putArrayPayload {items : List Value} {layout : ArrayLayout}
    (laid : LaysOut Described.rawBody items layout) (plain : ∀ item ∈ items, item.Plain)
    (each : ∀ item ∈ items, WrittenLegibly below hook item) :
    Yields (putArrayPayload layout (fun code => writeElements below hook code items)
        fun code bodies => writeRawElements below hook code bodies items) fun _ content =>
      LegibleElements content items := by
  obtain ⟨⟨label, raw, labelled⟩, shares, notDescribed⟩ := laid
  rw [held_rawBody] at shares
  have elements (item : Value) (member : item ∈ items) :
      Yields (writeHeld below Described.rawBody hook layout.code item) fun _ content =>
        Element Legible label layout.code content item :=
    ((each item member).bare (shares item member)).imp fun _ _ legible =>
      ⟨item.bare, legible, Canonical.resolves_bare (plain item member) (labelled item member)⟩
  have paid {back : Bytes} (sequence : Sequence (Element Legible label layout.code) back items)
      (front : Bytes) : items.length ≤ (front ++ back).length := by
    cases items with
    | nil => exact Nat.zero_le _
    | cons first rest =>
      have takes := (shares first List.mem_cons_self).takes.2
      have few := sequence.length_le fun _ _ element => by
        obtain ⟨_, ⟨_, _, _, within⟩, _⟩ := element
        exact Grammar.payload_ne_nil within takes
      rw [List.length_append]
      omega
  unfold putArrayPayload
  rw [raw]
  cases label with
  | none =>
    refine (writes_putCode layout.code).followed fun _ => ?_
    exact (yields_writeElements labelled elements).imp fun _ back sequence =>
      ⟨_, back, none, layout.code, rfl, .plain notDescribed, sequence, paid sequence _⟩
  | some descriptor =>
    have described (item : Value) (member : item ∈ items) : item.kind = .described :=
      kind_of_label (labelled item member)
    refine (writes_putCode .described).followed fun _ =>
      (writes_putDescriptor descriptor).followed fun fits =>
        (writes_putCode layout.code).followed fun _ => ?_
    refine (yields_writeRawElements described elements).imp fun _ back sequence => ?_
    have constructor' := Grammar.Constructor.described
      (Canonical.coded_label TextDecoder.lossy_encode fits) notDescribed
    rw [← List.append_assoc, ← List.append_assoc]
    exact ⟨_, back, some descriptor, layout.code, rfl, constructor', sequence, paid sequence _⟩

/-- A plain array is legible if its elements are. The layout is found first, and what is written
behind it depends on the elements alone. -/
theorem writtenLegibly_array {items : List Value}
    (sound : PartsSound below Described.rawBody items)
    (plain : (Value.array items).Everywhere Value.Plain)
    (each : ∀ item ∈ items, WrittenLegibly below hook item) :
    WrittenLegibly below hook (.array items) := by
  have content {layout : ArrayLayout} (laid : LaysOut Described.rawBody items layout) :=
    yields_putArrayPayload laid (fun item member => (plain.element member).here) each
  refine .of_element nofun ?_ fun shared shares => ?_
  · rw [writeValue]
    refine (yields_arrayLayout sound).bind fun layout _ holds => ?_
    obtain ⟨rfl, laid⟩ := holds
    refine (yields_container .array8 false (content laid) fun _ legible => ?_).imp ?_
    · obtain ⟨_, _, _, _, _, _, _, paid⟩ := legible
      exact paid
    · rintro _ _ ⟨_, ⟨front, back, label, shared, rfl, constructor', sequence, paid⟩, fits, rfl⟩
      exact legible_of_coded (Canonical.coded_arrayContainer constructor' sequence paid fits)
  · obtain rfl : shared = .array32 := shares
    rw [writeElement]
    refine (yields_arrayLayout sound).bind fun layout _ holds => ?_
    obtain ⟨rfl, laid⟩ := holds
    refine (yields_putWideBody (content laid)).imp ?_
    rintro _ _ ⟨_, ⟨front, back, label, shared, rfl, constructor', sequence, paid⟩, fits, rfl⟩
    exact .of_payload (.array rfl rfl rfl constructor' sequence fits paid)

/-- A body behind a descriptor that finds its form is legible as the described value. What was
written of the body may be read as another body of the outline, and that makes a described value
of the outline too. -/
theorem yields_described {descriptor : Descriptor} {body : Value} {contained : Described}
    {write : Emit Unit} (yields : Yields write fun _ bytes => Coded Legible bytes body)
    (resolved : Registry.standard.resolve descriptor body = .ok contained) :
    Yields (do
        putCode .described
        putDescriptor descriptor
        write) fun _ bytes => Coded Legible bytes (.described contained) := by
  refine (writes_putCode .described).followed fun _ =>
    (writes_putDescriptor descriptor).followed fun fits => yields.imp fun _ back encoded => ?_
  have label := Canonical.coded_label TextDecoder.lossy_encode fits
  exact legible_of_coded ⟨.described, Canonical.label descriptor ++ back, rfl,
    .described rfl label encoded resolved⟩

/-- The body of a composite is legible as the list of its slots up to the last one that is set.
Slots that are typed are read back in full, so the list resolves to the composite again. -/
theorem yields_compositeBody {form : Composite} {slots : List Value}
    (typed : Field.readAll form.fields slots = .ok slots)
    (each : ∀ slot ∈ slots, WrittenLegibly below hook slot) :
    Yields (if form.fields.isEmpty then putCode .list0
      else do
        let mark ← openContainer .list8
        writeSlots below hook form.fields (setSlots slots) slots
        closeContainer mark (setSlots slots) (needsWideList form.fields slots)) fun _ bytes =>
      Coded Legible bytes (.list (slots.take (setSlots slots))) := by
  split
  · next none =>
    rw [List.isEmpty_iff.mp none] at typed
    cases typed
    exact yields_list0
  · have content := @yields_writeSlots below hook form.fields slots (setSlots slots) typed
      fun slot member => (each slot member).whole
    have counted : (slots.take (setSlots slots)).length = setSlots slots := by
      rw [List.length_take, Nat.min_eq_left (Canonical.setSlots_le slots)]
    refine (yields_container .list8 (needsWideList form.fields slots) content
      fun _ sequence => ?_).imp ?_
    · rw [← counted]
      exact sequence.length_le fun _ _ => Coded.ne_nil
    · rintro _ _ ⟨content, sequence, fits, rfl⟩
      have legible := legible_of_coded
        (Canonical.coded_listContainer (needsWideList form.fields slots) sequence fits)
      rwa [counted] at legible

/-- A plain described value is legible if what it contains is, and if raw bodies are. As an
element it is its raw body behind the shared constructor, which for a descriptor without a known
form is the body itself. -/
theorem writtenLegibly_described (bodies : LegibleBodies below hook) {contained : Described}
    (plain : (Value.described contained).Everywhere Value.Plain)
    (each : ∀ value ∈ contained.contents, WrittenLegibly below hook value) :
    WrittenLegibly below hook (.described contained) := by
  have resolved := Registry.resolve_rawBody plain.here.typed plain.here.foreign
  refine ⟨?_, fun shares => shares.elim, fun {shared} shares => ?_⟩
  · cases contained with
    | composite form slots =>
      exact yields_described (yields_compositeBody plain.here.typed each) resolved
    | content portion body =>
      have body := (each body List.mem_cons_self).whole
      refine @yields_described (.code portion.code) _ _ _ ?_ resolved
      split
      · exact body.atomic
      · exact body
    | unknown descriptor body =>
      exact yields_described (each body List.mem_cons_self).whole.atomic resolved
  · cases contained with
    | composite form slots =>
      exact bodies shared _ (Canonical.everywhere_rawBody plain ⟨trivial, trivial⟩) shares
    | content portion body =>
      exact bodies shared _ (plain.contents List.mem_cons_self) shares
    | unknown descriptor body => exact (each body List.mem_cons_self).asElement shares

/-- A plain value is legible if it is written, for any writer of raw bodies that is legible and
reaches as far as its levels. The elements of arrays are sound parts because each of them is
written in full, under a hook that is no longer asked, to find its raw body. -/
theorem writtenLegibly {levels : Nat} (reaches : Reaches levels below)
    (few : levels ≤ defaultMaxDepth) (bodies : LegibleBodies below hook) (value : Value)
    (plain : value.Everywhere Value.Plain) : WrittenLegibly below hook value := by
  induction value using Value.induction with
  | simple value simple => exact writtenLegibly_simple simple
  | list items inductionHypothesis =>
    apply writtenLegibly_list
    intro item member
    exact inductionHypothesis item member (plain.item member)
  | map entries inductionHypothesis =>
    apply writtenLegibly_map
    intro entry member
    obtain ⟨key, mapped⟩ := inductionHypothesis entry member
    exact ⟨key (plain.key member), mapped (plain.mapped member)⟩
  | array items inductionHypothesis =>
    have sound := partsSound_of_plain plain fun item member =>
      written_of_plain reaches few item (plain.element member)
    apply writtenLegibly_array sound plain
    intro item member
    exact inductionHypothesis item member (plain.element member)
  | described contained inductionHypothesis =>
    apply writtenLegibly_described bodies plain
    intro value member
    exact inductionHypothesis value member (plain.contents member)

end Values

/-- The writers of raw bodies write them legibly. -/
theorem legibleBodies_bodyWriter (hook : TextEncoder) {levels : Nat}
    (few : levels ≤ defaultMaxDepth) : LegibleBodies (bodyWriter levels) hook := by
  induction levels with
  | zero => exact fun _ _ _ _ => yields_throw _
  | succ levels inductionHypothesis =>
    intro shared value plain shares
    have fewer := Nat.le_of_succ_le few
    exact (writtenLegibly (reaches_bodyWriter fewer) fewer (inductionHypothesis fewer) value
      plain).asElement shares

end Encoder

open Encoder (State encodeValue)

/-- What was appended for a plain value is, to a lossy reader with levels enough, an encoding of
some value of the same outline.

The writer of every value yields what is legible as it, whatever the hook answers; the hook may
have a memory, so nothing is said of which bytes these are. -/
theorem exists_encoding_of_encodeValue (hook : TextEncoder) {value : Value}
    (plain : value.Everywhere Value.Plain) {state after : State}
    (written : encodeValue hook value state = .ok () after) :
    ∃ bytes levels other, after.sink.toBytes = state.sink.toBytes ++ bytes ∧
      other.outline = value.outline ∧ Grammar.Encoding .lossy levels bytes other := by
  have few := Nat.le_refl defaultMaxDepth
  have legibly := Encoder.writtenLegibly (Encoder.reaches_bodyWriter few) few
    (Encoder.legibleBodies_bodyWriter hook few) value plain
  obtain ⟨bytes, appended, legible⟩ := legibly.whole.atomic written
  obtain ⟨levels, other, same, encoding⟩ := legible.exists_encoding
  exact ⟨bytes, levels, other, by rw [appended, Sink.toBytes_put], same, encoding⟩

/-- A value without strings and described values is read back as it was, whatever the hook
answers: nothing but strings is left to it. It is the only value of its outline. -/
theorem readsBack_of_no_strings (hook : TextEncoder) {value : Value}
    (kept : value.Everywhere fun part => part.kind ≠ .string ∧ part.kind ≠ .described)
    {state after : State} (written : encodeValue hook value state = .ok () after) :
    ∃ bytes levels, after.sink.toBytes = state.sink.toBytes ++ bytes ∧
      ∀ maxDepth, levels ≤ maxDepth → ∀ suffix,
        ReadsBack ⟨.lossy, maxDepth⟩ bytes suffix value := by
  have plain : value.Everywhere Value.Plain := kept.imp fun part held =>
    Value.plain_of_not_described held.2
  obtain ⟨bytes, levels, other, appended, same, encoding⟩ :=
    exists_encoding_of_encodeValue hook plain written
  obtain rfl := Value.eq_of_outline_of_everywhere kept same
  exact ⟨bytes, levels, appended, fun maxDepth enough suffix =>
    readsBack_iff_encoding.mpr (encoding.mono enough)⟩

/-- Output is well framed under any text hook. Whenever a plain value is written, a reader that
takes any bytes for text, and has levels enough, reads exactly one value from what was appended,
of the same outline, and leaves what comes behind. The hook may have a memory and may answer with
bytes that are no text, so the strings that are read need not be those of the value.

Proof: What a writer yields is legible as its value, by induction on the value and on the levels
of the writer of raw bodies. A string is measured and written by one answer, and an answer that
outgrows the constructor of an array is refused. What is legible is an encoding of some value of
the outline, and an encoding is what is read back. -/
theorem encodeValue_wellFramed (hook : TextEncoder) {value : Value}
    (plain : value.Everywhere Value.Plain) {state after : State}
    (written : encodeValue hook value state = .ok () after) :
    ∃ bytes other levels, after.sink.toBytes = state.sink.toBytes ++ bytes ∧
      other.outline = value.outline ∧ ∀ maxDepth, levels ≤ maxDepth → ∀ suffix,
        ReadsBack ⟨.lossy, maxDepth⟩ bytes suffix other := by
  obtain ⟨bytes, levels, other, appended, same, encoding⟩ :=
    exists_encoding_of_encodeValue hook plain written
  refine ⟨bytes, other, levels, appended, same, ?_⟩
  intro maxDepth enough suffix
  exact readsBack_iff_encoding.mpr (encoding.mono enough)

/-- Two strings in an array, for a hook that answers the first question with nothing and each
later one with one byte more, none of which is text: the constructor is chosen by other answers
than those that are written. -/
theorem encodeValue_wellFramed_counting :
    let hook : TextEncoder := fun earlier _ => List.replicate earlier.length 0xff
    let value : Value := .array [.string "one", .string "two"]
    ∃ after : State, encodeValue hook value (.fresh .splice) = .ok () after ∧
      after.sink.toBytes = [0xe0, 9, 2, 0xa1, 2, 0xff, 0xff, 3, 0xff, 0xff, 0xff] ∧
      ∃ other levels, other.outline = value.outline ∧
        ∀ suffix, ReadsBack ⟨.lossy, levels⟩ after.sink.toBytes suffix other := by
  intro hook value
  have plain : value.Everywhere Value.Plain := by
    refine .of_array ⟨trivial, trivial⟩ (List.forall_mem_cons.mpr ⟨?_, ?_⟩)
    · exact Value.plain_of_isSimple rfl
    · exact List.forall_mem_singleton.mpr (Value.plain_of_isSimple rfl)
  refine ⟨_, rfl, by decide, ?_⟩
  obtain ⟨bytes, other, levels, appended, same, reads⟩ :=
    @encodeValue_wellFramed hook value plain (.fresh .splice) _ rfl
  rw [appended]
  exact ⟨other, levels, same, reads levels (Nat.le_refl levels)⟩

end Amqp
