import Amqp.Proofs.Decoder.Regularity
import Amqp.Proofs.Encoder.Values

/-!
# Patching comes to a plain recursion

A container is opened with a prefix that is not known yet, and when its content is written the
prefix is patched or widened in place, with everything behind it moved. What is in the sink in the
end is nevertheless what a plain recursion appends, in which the content of a container is known
before its prefix is chosen. This holds of every value that is written, for every text hook
without memory.

An array holds the raw bodies of described elements. That of an element of a known form is what
a reader without knowledge of the form sees in the encoding of the element. Such a reader knows
the other forms, so it can find forms inside that the element does not show. The recursion
therefore goes over the value with these raw bodies put in. For a plain value nothing is found
that is not there already.
-/

namespace Amqp

open Canonical (encoding)

/-- The body that is read of an encoded described value without finding its form. -/
def untypedBody (encoded : Bytes) : Value :=
  match Decoder.decodeDescribedParts .standard (Buffer.ofBytes encoded) with
  | .ok parts _ => parts.2
  | .error _ _ => .null

/-- A described value without its form, as it is seen in its encoding. -/
def Described.formless : Described → Described
  | .unknown descriptor body => .unknown descriptor body
  | known => .unknown known.descriptor (untypedBody (encoding Utf8.encode (.described known)))

namespace Value

/-- A value without its form, if it is described. -/
def formless : Value → Value
  | described contained => described contained.formless
  | value => value

mutual

/-- A value in which the described elements of arrays have no forms. -/
def stripped : Value → Value
  | .list items => .list (strippedItems items)
  | .map entries => .map (strippedEntries entries)
  | .array items => .array (strippedElements items)
  | .described contained => .described (strippedContents contained)
  | value => value
termination_by structural value => value

/-- A described value in which the described elements of arrays have no forms. -/
def strippedContents : Described → Described
  | .composite form slots => .composite form (strippedItems slots)
  | .content portion body => .content portion (stripped body)
  | .unknown descriptor body => .unknown descriptor (stripped body)
termination_by structural contained => contained

/-- Values in which the described elements of arrays have no forms. -/
def strippedItems : List Value → List Value
  | [] => []
  | item :: rest => stripped item :: strippedItems rest
termination_by structural items => items

/-- Keys and values in which the described elements of arrays have no forms. -/
def strippedEntries : Entries → Entries
  | [] => []
  | (key, value) :: rest => (stripped key, stripped value) :: strippedEntries rest
termination_by structural entries => entries

/-- The elements of an array without forms. -/
def strippedElements : List Value → List Value
  | [] => []
  | item :: rest => (stripped item).formless :: strippedElements rest
termination_by structural items => items

end

section Equations

/-- A value that contains no values is left alone. -/
theorem stripped_of_isSimple {value : Value} (simple : value.isSimple = true) :
    value.stripped = value := by
  cases value <;> first | rfl | cases simple

/-- Only null becomes null. -/
theorem isNull_stripped (value : Value) : value.stripped.isNull = value.isNull := by
  cases value <;> rfl

/-- Items are stripped each on its own. -/
theorem strippedItems_eq (items : List Value) : strippedItems items = items.map stripped := by
  induction items with
  | nil => rfl
  | cons item rest inductionHypothesis => rw [strippedItems, inductionHypothesis, List.map_cons]

/-- Keys and values are stripped each on its own. -/
theorem strippedEntries_eq (entries : Entries) : strippedEntries entries =
    entries.map fun entry => (entry.1.stripped, entry.2.stripped) := by
  induction entries with
  | nil => rfl
  | cons entry rest inductionHypothesis =>
    rw [strippedEntries, inductionHypothesis, List.map_cons]

/-- Elements are stripped each on its own. -/
theorem strippedElements_eq (items : List Value) :
    strippedElements items = items.map fun item => item.stripped.formless := by
  induction items with
  | nil => rfl
  | cons item rest inductionHypothesis => rw [strippedElements, inductionHypothesis, List.map_cons]

/-- The descriptor of a value stays. -/
theorem label?_stripped (value : Value) : value.stripped.formless.label? = value.label? := by
  cases value with
  | described contained => cases contained <;> rfl
  | _ => rfl

/-- The symbols among some elements stay. -/
theorem symbolNames_stripped (items : List Value) :
    symbolNames (strippedElements items) = symbolNames items := by
  unfold symbolNames
  rw [strippedElements_eq, List.filterMap_map]
  congr 1
  funext item
  cases item <;> rfl

/-- A slot that is written as symbols is written as the same symbols. -/
theorem slotSymbols?_stripped (type : Ty) (slot : Value) :
    Encoder.slotSymbols? type slot.stripped = Encoder.slotSymbols? type slot := by
  cases slot with
  | array items =>
    cases type <;> first | rfl | exact congrArg some (symbolNames_stripped items)
  | _ => cases type <;> rfl

/-- As many slots are set. -/
theorem setSlots_stripped (slots : List Value) :
    setSlots (strippedItems slots) = setSlots slots := by
  unfold setSlots
  rw [strippedItems_eq, List.map_map]
  exact congrArg trailingCount (List.map_congr_left fun slot _ => by simp [isNull_stripped])

/-- The long prefix is demanded alike, since slots are unset in the same places. -/
theorem needsWideList_stripped (fields : List Field) (slots : List Value) :
    needsWideList fields (strippedItems slots) = needsWideList fields slots := by
  induction slots generalizing fields with
  | nil => rfl
  | cons slot slots inductionHypothesis =>
    cases fields with
    | nil => rfl
    | cons field fields =>
      rw [strippedItems, needsWideList, needsWideList, isNull_stripped, inductionHypothesis]

end Equations

end Value

namespace Encoder

open Canonical (Behind element encodings entryEncodings sharedCode stringFits slotEncodings)

section Puts

variable {write : Emit Unit} {enough so : Prop} {bytes : Bytes}

/-- A computation that appends some bytes whenever it succeeds. -/
abbrev Puts (write : Emit Unit) (bytes : Bytes) : Prop := Writes write False True () bytes

/-- What says when a computation succeeds may be left out. -/
theorem Writes.puts (writes : Writes write enough so () bytes) : Puts write bytes :=
  writes.imp False.elim fun _ => trivial

/-- What is appended one after the other. -/
theorem Puts.andThen {next : Emit Unit} {bytes' : Bytes} (first : Puts write bytes)
    (second : Puts next bytes') : Puts (do write; next) (bytes ++ bytes') :=
  (Writes.bind first second).imp False.elim fun _ => trivial

end Puts

section RawBodies

variable {text : String → Bytes}

/-- The raw body that is found of a described element: that of no known form has its own, and
that of a known form has the one that is read back. -/
def rawFound : Described → Value
  | .unknown _ body => body
  | known => untypedBody (encoding Utf8.encode (.described (Value.strippedContents known)))

/-- What a stripped element shows is what is found of the element, itself or stripped. -/
theorem bare_stripped (item : Value) :
    item.stripped.formless.bare = held rawFound item ∨
      item.stripped.formless.bare = (held rawFound item).stripped := by
  cases item with
  | described contained =>
    cases contained with
    | unknown descriptor body => exact .inr rfl
    | _ => exact .inl rfl
  | _ => exact .inr rfl

/-- Stripping an element changes nothing that its constructor depends on: the kind of what it
shows, whether a number fits a byte, and whether a string is short. -/
theorem shape_stripped (item : Value) :
    item.stripped.formless.bare.kind = (held rawFound item).kind ∧
      payloadFits item.stripped.formless.bare = payloadFits (held rawFound item) ∧
      stringFits text item.stripped.formless.bare = stringFits text (held rawFound item) := by
  have kept (value : Value) : value.stripped.kind = value.kind ∧
      payloadFits value.stripped = payloadFits value ∧
      stringFits text value.stripped = stringFits text value := by
    cases value <;> exact ⟨rfl, rfl, rfl⟩
  rcases bare_stripped item with same | same
  · rw [same]
    exact ⟨rfl, rfl, rfl⟩
  · rw [same]
    exact kept _

/-- Stripped elements share the constructor that is chosen for what is found of the elements. It
is chosen by the kind of the first one and by two conditions on all of them. -/
theorem sharedCode_stripped (items : List Value) :
    sharedCode text ((Value.strippedElements items).map Value.bare) =
      sharedCode text (items.map (held rawFound)) := by
  rw [Value.strippedElements_eq, List.map_map]
  cases items with
  | nil => rfl
  | cons first rest =>
    have shape := @shape_stripped text
    have payloads : ((first :: rest).map (Value.bare ∘ fun item => item.stripped.formless)).all
        payloadFits = ((first :: rest).map (held rawFound)).all payloadFits := by
      rw [List.all_map, List.all_map]
      exact congrArg _ (funext fun item => (shape item).2.1)
    have strings : ((first :: rest).map (Value.bare ∘ fun item => item.stripped.formless)).all
        (stringFits text) = ((first :: rest).map (held rawFound)).all (stringFits text) := by
      rw [List.all_map, List.all_map]
      exact congrArg _ (funext fun item => (shape item).2.2)
    simp only [List.map_cons, Function.comp_apply] at payloads strings
    simp only [List.map_cons, Function.comp_apply, sharedCode, payloads, strings, (shape first).1]

/-- Whatever body is read is plain, because all that is read is regular. Of bytes that hold no
described value the body is null. -/
theorem plain_untypedBody (encoded : Bytes) : (untypedBody encoded).Everywhere Value.Plain := by
  unfold untypedBody
  split
  · next parts after read =>
    have begun : Source.Lawful.Facing (Buffer.ofBytes encoded) encoded 0 :=
      Buffer.holds_ofBytes encoded
    obtain ⟨_, _, _, ⟨levels, _, _, _, _, _, word⟩, _⟩ :=
      (Decoder.parsesFrom_decodeDescribedParts .standard).sound begun read
    exact word.regular.imp fun _ regular => regular.toPlain
  · exact Value.plain_of_isSimple rfl

/-- The parts that are read of an encoded described value are its descriptor and its untyped
body. The value need not be sound here, only its descriptor must fit: the body is by definition
what is read. -/
theorem eq_of_decodeDescribedParts_encoding {described : Described}
    (fits : Canonical.LabelFits described.descriptor) {parts : Descriptor × Value} {after : Buffer}
    (read : Decoder.decodeDescribedParts .standard
      (Buffer.ofBytes (encoding Utf8.encode (.described described))) = .ok parts after) :
    parts = (described.descriptor, untypedBody (encoding Utf8.encode (.described described))) := by
  have begun : Source.Lawful.Facing (Buffer.ofBytes (encoding Utf8.encode (.described described)))
      (encoding Utf8.encode (.described described)) 0 := Buffer.holds_ofBytes _
  obtain ⟨_, rest, split, ⟨_, front, back, _, rfl, labelled, _⟩, _⟩ :=
    (Decoder.parsesFrom_decodeDescribedParts .standard).sound begun read
  have own : Grammar.Coded (Grammar.Label .strict) _ described.descriptor :=
    Canonical.coded_label TextDecoder.strict_encode fits
  have behind : Canonical.label described.descriptor ++
      Canonical.bodyEncoding Utf8.encode described = front ++ (back ++ rest) := by
    rw [← List.append_assoc]
    exact List.tail_eq_of_cons_eq split
  obtain ⟨_, same⟩ := Grammar.unambiguous_label .strict own labelled behind
  rw [untypedBody, read, same]

/-- What is found of a described element is its descriptor and its raw body, given what is
written of it. The element is written with all that it contains already stripped. -/
theorem eq_of_foundParts {below : BodyWriter} {described : Described}
    (puts : Puts (writeDescribed below .strict described)
      (encoding Utf8.encode (.described (Value.strippedContents described))))
    {parts : Descriptor × Value} (found : foundParts below described = .ok parts) :
    parts = (described.descriptor, rawFound described) := by
  unfold foundParts rawParts at found
  split at found
  · cases found
    rfl
  · next known =>
    have form : Canonical.LabelFits (Value.strippedContents described).descriptor ∧
        (Value.strippedContents described).descriptor = described.descriptor ∧
        rawFound described =
          untypedBody (encoding Utf8.encode (.described (Value.strippedContents described))) := by
      cases described with
      | unknown descriptor body => exact absurd rfl (known descriptor body)
      | _ => exact ⟨Canonical.labelFits_code _, rfl, rfl⟩
    obtain ⟨fits, label, raw⟩ := form
    split at found
    · cases found
    · next state ran =>
      obtain ⟨_, _, appended⟩ := puts.atomic.sound ran
      rw [toBytes_of_fresh appended] at found
      split at found
      · next parts' after read =>
        cases found
        rw [raw, ← label]
        exact eq_of_decodeDescribedParts_encoding fits read
      · cases found

end RawBodies

/-- What is to be shown of a value: what is written of it, of it as an element, and of it as an
element that may be described. -/
structure Recurses (below : BodyWriter) (value : Value) : Prop where
  whole (text : String → Bytes) :
    Puts (writeValue below (.ofPure text) value) (encoding text value.stripped)
  asElement (text : String → Bytes) {shared : Code} (behind : Behind text shared value.stripped) :
    Puts (writeElement below (.ofPure text) shared value) (element text shared value.stripped)
  asHeld (text : String → Bytes) {shared : Code}
    (behind : Behind text shared value.stripped.formless.bare) :
    Puts (writeHeld below rawFound (.ofPure text) shared value)
      (element text shared value.stripped.formless)

/-- A value that is not described is written as an element where it may be described. -/
theorem Recurses.of_element {below : BodyWriter} {value : Value} (plain : value.kind ≠ .described)
    (whole : ∀ text, Puts (writeValue below (.ofPure text) value) (encoding text value.stripped))
    (asElement : ∀ text shared, Behind text shared value.stripped →
      Puts (writeElement below (.ofPure text) shared value) (element text shared value.stripped)) :
    Recurses below value := by
  refine ⟨whole, fun text _ behind => asElement text _ behind, fun text shared behind => ?_⟩
  cases value with
  | described described => exact absurd rfl plain
  | _ => exact asElement text shared behind

section Sequences

variable {below : BodyWriter} {text : String → Bytes}

/-- Items are written as the recursion has them. -/
theorem puts_writeItems {items : List Value} (each : ∀ item ∈ items, Recurses below item) :
    Puts (writeItems below (.ofPure text) items)
      (encodings text (Value.strippedItems items)) := by
  refine (writes_writeItems fun item member => (each item member).whole text).puts.of_eq ?_
  rw [Canonical.encodings_eq, Value.strippedItems_eq, List.flatMap_map]

/-- Keys and values are written as the recursion has them. -/
theorem puts_writeEntries {entries : Entries}
    (each : ∀ entry ∈ entries, Recurses below entry.1 ∧ Recurses below entry.2) :
    Puts (writeEntries below (.ofPure text) entries)
      (entryEncodings text (Value.strippedEntries entries)) := by
  have pairs (entry : Value × Value) (member : entry ∈ entries) :=
    And.intro ((each entry member).1.whole text) ((each entry member).2.whole text)
  refine (@writes_writeEntries below _ (fun _ => False) (fun _ => True)
    (fun value => encoding text value.stripped) entries pairs).puts.of_eq ?_
  rw [Canonical.entryEncodings_eq, Value.strippedEntries_eq, List.flatMap_map]

/-- Slots are written as the recursion has them. The induction is for any fields, of which slots
can have more or fewer, and a slot of symbols is written as an array of them. -/
theorem puts_writeSlots {slots : List Value} (each : ∀ slot ∈ slots, Recurses below slot)
    (fields : List Field) (count : Nat) :
    Puts (writeSlots below (.ofPure text) fields count slots)
      (slotEncodings text fields count (Value.strippedItems slots)) := by
  induction slots generalizing fields count with
  | nil =>
    rw [writeSlots]
    split
    · exact (writes_pure ()).puts
    · exact (writes_throw _ _ _).puts
  | cons slot rest inductionHypothesis =>
    obtain ⟨first, later⟩ := List.forall_mem_cons.mp each
    cases count with
    | zero => exact (writes_pure ()).puts
    | succ count =>
      have others := inductionHypothesis later fields.tail count
      rw [writeSlots, Value.strippedItems, slotEncodings]
      have same : (fields.head?.bind fun field => slotSymbols? field.type slot.stripped) =
          fields.head?.bind fun field => slotSymbols? field.type slot := by
        simp only [Value.slotSymbols?_stripped]
      rw [same]
      cases fields.head?.bind fun field => slotSymbols? field.type slot with
      | some names => exact Puts.andThen (writes_putSymbolArray text names).puts.atomic others
      | none => exact Puts.andThen (first.whole text).atomic others

end Sequences

section Values

variable {below : BodyWriter}

/-- A value that contains no values is written as the recursion has it. Nothing of it is
stripped. -/
theorem recurses_simple {value : Value} (simple : value.isSimple = true) :
    Recurses below value := by
  have same := Value.stripped_of_isSimple simple
  refine .of_element ?_ (fun text => ?_) fun text shared behind => ?_
  · intro kind
    cases value with
    | described contained => cases simple
    | _ => cases kind
  · rw [same, Canonical.encoding_of_isSimple simple]
    exact (writes_writeValue_simple below simple).puts
  · rw [same] at behind ⊢
    rw [Canonical.element_of_isSimple simple]
    exact (writes_writeElement_simple below simple behind).puts

/-- A list is written as the recursion has it if its items are. An empty one has a constructor of
its own where it is not an element. -/
theorem recurses_list {items : List Value} (each : ∀ item ∈ items, Recurses below item) :
    Recurses below (.list items) := by
  have counted (text : String → Bytes) := @Canonical.length_le_encodings text
    (Value.strippedItems items)
  have length : (Value.strippedItems items).length = items.length := by
    rw [Value.strippedItems_eq, List.length_map]
  rw [length] at counted
  refine .of_element nofun (fun text => ?_) fun text shared _ => ?_
  · cases items with
    | nil => exact (writes_putCode .list0).puts
    | cons item rest =>
      rw [Value.stripped, encoding, length]
      exact (writes_container .list8 false (puts_writeItems each) (counted text)).puts
  · rw [Value.stripped, element, length]
    exact (writes_putWideBody (puts_writeItems each) (counted text)).puts

/-- A map is written as the recursion has it if its keys and values are. Keys and values are
counted together, so the count is twice that of the pairs. -/
theorem recurses_map {entries : Entries}
    (each : ∀ entry ∈ entries, Recurses below entry.1 ∧ Recurses below entry.2) :
    Recurses below (.map entries) := by
  have counted (text : String → Bytes) := @Canonical.length_le_entryEncodings text
    (Value.strippedEntries entries)
  have length : (Value.strippedEntries entries).length = entries.length := by
    rw [Value.strippedEntries_eq, List.length_map]
  rw [length] at counted
  refine .of_element nofun (fun text => ?_) fun text shared _ => ?_
  · rw [Value.stripped, encoding, length]
    exact (writes_container .map8 false (puts_writeEntries each) (counted text)).puts
  · rw [Value.stripped, element, length]
    exact (writes_putWideBody (puts_writeEntries each) (counted text)).puts

/-- Stripped elements are laid out behind the head of their array. The descriptor of the first
element stays, and so does the constructor that all share. -/
theorem layoutHead_stripped (text : String → Bytes) (items : List Value) :
    layoutHead (layout text rawFound items) =
      Canonical.arrayHead text (Value.strippedElements items) := by
  have label : (Value.strippedElements items).head?.bind Value.label? =
      items.head?.bind Value.label? := by
    cases items with
    | nil => rfl
    | cons item rest => exact Value.label?_stripped item
  rw [layoutHead, layout, Canonical.arrayHead, sharedCode_stripped, label]
  cases items.head?.bind Value.label? <;> rfl

/-- What an array holds: the head that its elements share, and the elements. -/
def arrayContent (text : String → Bytes) (items : List Value) : Bytes :=
  Canonical.arrayHead text items ++
    Canonical.elements text (sharedCode text (items.map Value.bare)) items

/-- Stripped elements can share the constructor that is chosen for them if the elements are laid
out. What is found of elements that are laid out is alike, and stripping keeps its kind. -/
theorem behind_stripped {text : String → Bytes} {items : List Value}
    (laid : LaidOut below rawFound items) : ∀ element ∈ Value.strippedElements items,
      Behind text (sharedCode text ((Value.strippedElements items).map Value.bare))
        element.bare := by
  obtain ⟨kind, notNull, notDescribed, same⟩ := laid.alike
  have kinds : ∀ body ∈ (Value.strippedElements items).map Value.bare, body.kind = kind := by
    intro body found
    rw [Value.strippedElements_eq, List.map_map] at found
    obtain ⟨item, member, rfl⟩ := List.mem_map.mp found
    exact ((@shape_stripped text item).1).trans (same _ (List.mem_map_of_mem member))
  intro element member
  exact Canonical.behind_sharedCode notNull notDescribed kinds (List.mem_map_of_mem member)

/-- An array is written into a frame as the recursion has it if its elements are. The frame may
rely on the count being paid for, because that is so of every array that is laid out. If the
array is not laid out, nothing is written and there is nothing to show. -/
theorem puts_array {items : List Value} (each : ∀ item ∈ items, Recurses below item)
    {text : String → Bytes} (finish : Emit Unit → Emit Unit) {framed : Bytes}
    (frames : items.length ≤ (arrayContent text (Value.strippedElements items)).length →
      ∀ {write : Emit Unit} {enough so : Prop},
        Writes write enough so () (arrayContent text (Value.strippedElements items)) →
        Writes (finish write)
          (enough ∧ 4 + (arrayContent text (Value.strippedElements items)).length < 256 ^ 4)
          (so ∧ 4 + (arrayContent text (Value.strippedElements items)).length < 256 ^ 4) ()
          framed) :
    Puts (do
        let layout ← arrayLayout (.ofPure text) items fun _ => rawBodies below none [] items
        finish (putArrayPayload layout (fun code => writeElements below (.ofPure text) code items)
          fun code bodies => writeRawElements below (.ofPure text) code bodies items)) framed := by
  have sound : PartsSound below rawFound items := fun described member parts found =>
    eq_of_foundParts ((each _ member).whole Utf8.encode) found
  have length : (Value.strippedElements items).length = items.length := by
    rw [Value.strippedElements_eq, List.length_map]
  refine (@writes_array below rawFound items (fun _ => False) (fun _ => True)
    (fun item => element text (sharedCode text (items.map (held rawFound)))
      item.stripped.formless) text finish framed
    (4 + (arrayContent text (Value.strippedElements items)).length < 256 ^ 4) sound
    (fun laid => ?_) ?_).puts
  · have content : layoutHead (layout text rawFound items) ++ items.flatMap (fun item =>
        element text (sharedCode text (items.map (held rawFound))) item.stripped.formless) =
          arrayContent text (Value.strippedElements items) := by
      rw [layoutHead_stripped, arrayContent, sharedCode_stripped, Canonical.elements_eq]
      rw [Value.strippedElements_eq, List.flatMap_map]
    have paid : items.length ≤ (arrayContent text (Value.strippedElements items)).length := by
      have few := Canonical.length_le_elements (@behind_stripped below text items laid)
      rw [length] at few
      rw [arrayContent, List.length_append]
      omega
    rw [content]
    intro write enough so writes
    exact frames paid writes
  · intro laid item member
    refine (each item member).asHeld text ?_
    rw [← sharedCode_stripped]
    refine behind_stripped laid _ ?_
    rw [Value.strippedElements_eq]
    exact List.mem_map_of_mem member

/-- An array is written as the recursion has it if its elements are, in a container of its own or
as an element of another one. -/
theorem recurses_array {items : List Value} (each : ∀ item ∈ items, Recurses below item) :
    Recurses below (.array items) := by
  have length : (Value.strippedElements items).length = items.length := by
    rw [Value.strippedElements_eq, List.length_map]
  refine .of_element nofun (fun text => ?_) fun text shared _ => ?_
  · rw [Value.stripped, encoding, length, writeValue]
    refine puts_array each (fun write => do
      let mark ← openContainer .array8
      write
      closeContainer mark items.length false) fun paid _ _ _ writes => ?_
    exact writes_container .array8 false writes paid
  · rw [Value.stripped, element, length]
    exact puts_array each (putWideBody items.length) fun paid _ _ _ writes =>
      writes_putWideBody writes paid

/-- The raw body of an element of a known form is written as the recursion has it. -/
theorem puts_rawBody {levels : Nat} (reaches : Reaches levels below) {encoded : Bytes}
    {text : String → Bytes} {shared : Code} (behind : Behind text shared (untypedBody encoded)) :
    Puts (below (.ofPure text) shared (untypedBody encoded))
      (element text shared (untypedBody encoded)) :=
  (reaches text shared _ (plain_untypedBody encoded) behind).puts

/-- A described value is written as the recursion has it if what it contains is. As an element,
one of a known form is written by the writer of raw bodies, which reaches every plain value. -/
theorem recurses_described {levels : Nat} (reaches : Reaches levels below) {contained : Described}
    (each : ∀ value ∈ contained.contents, Recurses below value) :
    Recurses below (.described contained) := by
  cases contained with
  | composite form slots =>
    refine ⟨fun text => ?_, fun _ _ behind => behind.elim, fun text shared behind =>
      puts_rawBody reaches behind⟩
    have body : Puts
        (if form.fields.isEmpty then putCode .list0
        else do
          let mark ← openContainer .list8
          writeSlots below (.ofPure text) form.fields (setSlots slots) slots
          closeContainer mark (setSlots slots) (needsWideList form.fields slots))
        (Canonical.bodyEncoding text (.composite form (Value.strippedItems slots))) := by
      rw [Canonical.bodyEncoding, Value.setSlots_stripped, Value.needsWideList_stripped]
      split
      · exact (writes_putCode .list0).puts
      · have within : setSlots slots ≤ (Value.strippedItems slots).length := by
          rw [← Value.setSlots_stripped]
          exact Canonical.setSlots_le _
        exact (writes_container .list8 (needsWideList form.fields slots)
          (puts_writeSlots each form.fields (setSlots slots))
          (Canonical.le_length_slotEncodings form.fields within)).puts
    exact (writes_described (.code form.code) body).puts
  | content portion body =>
    refine ⟨fun text => ?_, fun _ _ behind => behind.elim, fun text shared behind =>
      puts_rawBody reaches behind⟩
    have whole := (each body List.mem_cons_self).whole text
    have body : Puts (if portion = .amqpValue then atomic (writeValue below (.ofPure text) body)
        else writeValue below (.ofPure text) body) (encoding text body.stripped) := by
      split
      · exact whole.atomic
      · exact whole
    exact (writes_described (.code portion.code) body).puts
  | unknown descriptor body =>
    have inside := each body List.mem_cons_self
    exact ⟨fun text => (writes_described descriptor (inside.whole text).atomic).puts,
      fun _ _ behind => behind.elim, fun text _ behind => inside.asElement text behind⟩

/-- Every value is written as the recursion has it. -/
theorem recurses {levels : Nat} (reaches : Reaches levels below) (value : Value) :
    Recurses below value := by
  induction value using Value.induction with
  | simple value simple => exact recurses_simple simple
  | list items inductionHypothesis => exact recurses_list inductionHypothesis
  | map entries inductionHypothesis => exact recurses_map inductionHypothesis
  | array items inductionHypothesis => exact recurses_array inductionHypothesis
  | described contained inductionHypothesis =>
    exact recurses_described reaches inductionHypothesis

end Values

/-- Writing with patched prefixes comes to a plain recursion. Whatever value is written, with
whatever text hook without memory, what is appended is the canonical encoding of the value with
the raw bodies of described elements put in. For a plain value this is its own canonical
encoding.

Proof: The recursion is shown of the value as a whole, as an element and as a raw body at once,
by induction on the value. A container is closed by patching or widening, and both come to the
frame of its content. The raw body that an element is found to have is read back from its own
writing, which the induction provides. For a plain value the canonical encoding is known to be
what is written, and what is appended can only be one thing. -/
theorem toBytes_encodeValue {text : String → Bytes} {value : Value} {state after : State}
    (written : encodeValue (.ofPure text) value state = .ok () after) :
    after.sink.toBytes = state.sink.toBytes ++ encoding text value.stripped ∧
      (value.Everywhere Value.Plain → encoding text value.stripped = encoding text value) := by
  have recursion := (recurses (reaches_bodyWriter (Nat.le_refl _)) value).whole text |>.atomic
  obtain ⟨_, _, appended⟩ := recursion.sound written
  refine ⟨by rw [appended, Sink.toBytes_put], fun plain => ?_⟩
  obtain ⟨_, _, canonical⟩ := (writes_encodeValue text plain).sound written
  rw [appended] at canonical
  have same := congrArg Sink.toBytes canonical
  rw [Sink.toBytes_put, Sink.toBytes_put] at same
  exact List.append_cancel_left same

/-- An array of a section with a header inside that does not show its form. The form is found
when the raw body is read back, and its unset slot is left out. -/
def veiledHeader : Value :=
  .array [.described (.content .amqpSequence
    (.list [.described (.unknown (.code 0x70) (.list [.null]))]))]

/-- Of that array one byte less is written than the recursion over the array itself would have.
Its element is read back as a header, and this is written without the slot that is null. -/
theorem toBytes_encodeValue_veiledHeader :
    ∃ after : State, encodeValue .strict veiledHeader (.fresh .splice) = .ok () after ∧
      after.sink.toBytes = [] ++ encoding Utf8.encode veiledHeader.stripped ∧
      encoding Utf8.encode veiledHeader.stripped = [0xe0, 19, 1, 0x00, 0x53, 0x76, 0xd0, 0, 0, 0,
        10, 0, 0, 0, 1, 0x00, 0x53, 0x70, 0xc0, 1, 0] ∧
      encoding Utf8.encode veiledHeader = [0xe0, 20, 1, 0x00, 0x53, 0x76, 0xd0, 0, 0, 0,
        11, 0, 0, 0, 1, 0x00, 0x53, 0x70, 0xc0, 2, 1, 0x40] := by
  obtain ⟨after, written⟩ : ∃ after : State,
      encodeValue .strict veiledHeader (.fresh .splice) = .ok () after := ⟨_, rfl⟩
  exact ⟨after, written, (toBytes_encodeValue written).1, rfl, rfl⟩

end Encoder

end Amqp
