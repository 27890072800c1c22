import Amqp.Proofs.Encoder.Values
import Amqp.Proofs.Value.Homogeneity

/-!
# What is refused of arrays

A plain value whose sizes fit and that needs no more levels than the usual reader has is
refused for nothing but an array that is not homogeneous, and then it is refused as an invalid
array. What comes before such an array is written, because it is homogeneous throughout, so
the first thing that goes wrong is the array itself.

The levels are asked of every part. An element that is described twice is never laid out as an
element, but it is written as a value and read back, before the array is found to be invalid.
-/

namespace Amqp.Encoder

open Canonical (Behind Checked Fits Sound bodyNesting elementNesting nesting sharedCode)

variable {α β : Type}

/-- A computation that fails in every state, for an invalid array. -/
def Refuses (write : Emit α) : Prop :=
  ∀ state, ∃ reason after, write state = .error (.refused (.invalidArray reason)) after

section Refusals

variable {write : Emit α}

/-- What refuses at once is refused by what follows it. -/
theorem Refuses.first (refuses : Refuses write) (next : α → Emit β) : Refuses (write >>= next) := by
  intro state
  obtain ⟨reason, after, failed⟩ := refuses state
  exact ⟨reason, after, bind_of_error failed⟩

/-- What refuses behind something that is written is refused as a whole. -/
theorem Writes.refuses {enough so : Prop} {result : α} {bytes : Bytes} {next : α → Emit β}
    (writes : Writes write enough so result bytes) (given : enough)
    (refuses : Refuses (next result)) : Refuses (write >>= next) := by
  intro state
  obtain ⟨middle, ran, _⟩ := writes.complete given state
  obtain ⟨reason, after, failed⟩ := refuses middle
  exact ⟨reason, after, (bind_of_ok ran).trans failed⟩

/-- What is written whole or not at all is refused as it is without that guard. What was left
behind is cut off, and the reason stays. -/
theorem Refuses.atomic (refuses : Refuses write) : Refuses (atomic write) := by
  intro state
  obtain ⟨reason, after, failed⟩ := refuses state
  refine ⟨reason, { after with sink := after.sink.truncate state.sink.written }, ?_⟩
  rw [Encoder.atomic, orCutBack, failed]

/-- A container is refused for its content. -/
theorem Refuses.container {content : Emit Unit} (refuses : Refuses content) (narrow : Code)
    (count : Nat) (wide : Bool) : Refuses (do
      let mark ← openContainer narrow
      content
      closeContainer mark count wide) := by
  intro state
  obtain ⟨reason, after, failed⟩ :=
    refuses { state with sink := state.sink.put [narrow.toByte, 0, 0] }
  exact ⟨reason, after, (bind_of_ok (openContainer_eq narrow state)).trans (bind_of_error failed)⟩

/-- A container without a constructor is refused for its content, if its count fits. -/
theorem Refuses.wideBody {content : Emit Unit} (refuses : Refuses content) {count : Nat}
    (fits : count < 256 ^ 4) : Refuses (putWideBody count content) := by
  intro state
  obtain ⟨reason, after, failed⟩ :=
    refuses { state with sink := state.sink.put (Bytes.be 4 0 ++ Bytes.be 4 count) }
  exact ⟨reason, after, (putWideBody_eq fits state).trans (bind_of_error failed)⟩

/-- A refusal for an invalid array refuses. -/
theorem refuses_invalidArray (reason : String) :
    Refuses (refuse (.invalidArray reason) : Emit α) :=
  fun state => ⟨reason, state, rfl⟩

/-- Values that are not alike share no constructor. They differ from the first one, or all are
null or all described. -/
theorem refuses_elementCode (hook : TextEncoder) {items : List Value} (unlike : ¬Alike items) :
    Refuses (elementCode hook items) := by
  cases items with
  | nil => exact absurd ⟨.boolean, by decide, by decide, nofun⟩ unlike
  | cons first rest =>
    unfold elementCode
    by_cases differ : ((first :: rest).any fun item => decide (item.kind ≠ first.kind)) = true
    · simp only [if_pos differ]
      exact refuses_invalidArray _
    · simp only [if_neg differ]
      have same (item : Value) (member : item ∈ first :: rest) : item.kind = first.kind :=
        Decidable.byContradiction fun differs =>
          differ (List.any_eq_true.mpr ⟨item, member, decide_eq_true differs⟩)
      cases kind : first.kind with
      | null => exact refuses_invalidArray _
      | described => exact refuses_invalidArray _
      | _ => exact absurd ⟨_, (by rw [kind]; decide), (by rw [kind]; decide), same⟩ unlike

end Refusals

/-- A value that is refused for nothing but an array: it means what it seems to, its sizes fit,
and it needs no more levels than the usual reader has. -/
structure Regarded (value : Value) : Prop where
  plain : value.Plain
  fits : Fits Utf8.encode value
  shallow : nesting value ≤ defaultMaxDepth

section Written

variable {value : Value} (regarded : value.Everywhere Regarded)

include regarded

/-- A regarded value is written as its canonical encoding wherever its arrays are homogeneous. -/
theorem written_of_regarded : Written standardBodies defaultMaxDepth value :=
  written_of_plain (reaches_bodyWriter (Nat.le_refl _)) (Nat.le_refl _) value
    (regarded.imp fun _ part => part.plain)

/-- A regarded value of homogeneous arrays is ready to be written. -/
theorem ready_of_homogeneous (homogeneous : value.Everywhere Value.Homogeneous) :
    value.Everywhere (Ready Utf8.encode) := by
  intro part inside
  obtain ⟨uniform, noNull⟩ := Value.homogeneous_iff.mp (homogeneous part inside)
  have checked : Checked Utf8.encode part := ⟨(regarded part inside).fits, uniform, noNull⟩
  exact ⟨checked, checked⟩

end Written

/-- What is to be shown of a value with an array that is not homogeneous: it is refused as a
value, as an element, and as an element that may be described, if its raw body is found. -/
structure Refused (value : Value) : Prop where
  whole : Refuses (writeValue standardBodies .strict value)
  asElement {shared : Code} (behind : Behind Utf8.encode shared value) :
    Refuses (writeElement standardBodies .strict shared value)
  bare {shared : Code} (behind : Behind Utf8.encode shared value.bare)
    (found : PartsFound standardBodies Described.rawBody [value]) :
    Refuses (writeHeld standardBodies Described.rawBody .strict shared value)

/-- A value that is not described is refused as an element where it may be described. -/
theorem Refused.of_bare {value : Value} (plain : value.kind ≠ .described)
    (whole : Refuses (writeValue standardBodies .strict value))
    (asElement : ∀ shared, Behind Utf8.encode shared value →
      Refuses (writeElement standardBodies .strict shared value)) : Refused value := by
  refine ⟨whole, asElement _, fun behind _ => ?_⟩
  cases value with
  | described described => exact absurd rfl plain
  | _ => exact asElement _ behind

section Sequences

/-- What is known of the items of a value: they are regarded, and refused unless their arrays
are homogeneous. -/
def Judged (value : Value) : Prop :=
  value.Everywhere Regarded ∧ (¬value.Everywhere Value.Homogeneous → Refused value)

/-- A judged value of homogeneous arrays is written, and any other is refused, so that what
follows it matters only in the first case. -/
theorem Judged.step {item : Value} (judged : Judged item) {next : Unit → Emit β}
    (later : item.Everywhere Value.Homogeneous → Refuses (next ())) :
    Refuses (atomic (writeValue standardBodies .strict item) >>= next) := by
  by_cases homogeneous : item.Everywhere Value.Homogeneous
  · have writes := (written_of_regarded judged.1).whole Utf8.encode
    exact writes.atomic.refuses
      ⟨ready_of_homogeneous judged.1 homogeneous, judged.1.here.shallow⟩ (later homogeneous)
  · exact (judged.2 homogeneous).whole.atomic.first next

/-- If not all things are good, then one of them is bad. -/
theorem exists_of_not_all {good : α → Prop} {items : List α} (bad : ¬∀ item ∈ items, good item) :
    ∃ item ∈ items, ¬good item := by
  simpa only [Classical.not_forall, exists_prop] using bad

/-- What is bad among some things is the first of them, or among the others. -/
theorem exists_tail_of_good {good : α → Prop} {item : α} {rest : List α} (here : good item)
    (bad : ∃ other ∈ item :: rest, ¬good other) : ∃ other ∈ rest, ¬good other := by
  obtain ⟨other, member, fails⟩ := bad
  rcases List.mem_cons.mp member with rfl | member
  · exact absurd here fails
  · exact ⟨other, member, fails⟩

/-- Things of which one is bad are refused one after the other, if what follows any of them
matters only where it is good. The first bad one is the one that is refused. -/
theorem refuses_putEach {write : α → Emit Unit} {good : α → Prop} {items : List α}
    (step : ∀ item ∈ items, ∀ {next : Unit → Emit Unit}, (good item → Refuses (next ())) →
      Refuses (write item >>= next))
    (bad : ∃ item ∈ items, ¬good item) : Refuses (putEach write items) := by
  induction items with
  | nil => obtain ⟨_, ⟨⟩, _⟩ := bad
  | cons item rest inductionHypothesis =>
    obtain ⟨here, others⟩ := List.forall_mem_cons.mp step
    exact here fun isGood => inductionHypothesis others (exists_tail_of_good isGood bad)

/-- Items are refused if one of them is not homogeneous throughout. -/
theorem refuses_writeItems {items : List Value} (judged : ∀ item ∈ items, Judged item)
    (bad : ∃ item ∈ items, ¬item.Everywhere Value.Homogeneous) :
    Refuses (writeItems standardBodies .strict items) := by
  rw [writeItems_eq_putEach]
  exact refuses_putEach (fun item member _ => (judged item member).step) bad

/-- Keys and values are refused if one of them is not homogeneous throughout. The key of a pair
comes before its value. -/
theorem refuses_writeEntries {entries : Entries}
    (judged : ∀ entry ∈ entries, Judged entry.1 ∧ Judged entry.2)
    (bad : ∃ entry ∈ entries, ¬(entry.1.Everywhere Value.Homogeneous ∧
      entry.2.Everywhere Value.Homogeneous)) :
    Refuses (writeEntries standardBodies .strict entries) := by
  rw [writeEntries_eq_putEach]
  refine refuses_putEach (fun entry member next later => ?_) bad
  obtain ⟨key, value⟩ := judged entry member
  rw [bind_assoc]
  exact key.step fun first => value.step fun second => later ⟨first, second⟩

/-- An array of symbols is homogeneous. -/
theorem homogeneous_symbols (names : List String) :
    (Value.array (names.map .symbol)).Everywhere Value.Homogeneous := by
  have symbol (item : Value) (member : item ∈ names.map .symbol) : ∃ name, .symbol name = item :=
    let ⟨name, _, same⟩ := List.mem_map.mp member
    ⟨name, same⟩
  refine .of_array (.inr (.inl ⟨.symbol, by decide, by decide, fun item member => ?_⟩))
    fun item member => ?_
  · obtain ⟨name, rfl⟩ := symbol item member
    rfl
  · obtain ⟨name, rfl⟩ := symbol item member
    exact .of_simple rfl trivial

/-- The first slots of a composite are refused if one of them is not homogeneous throughout. A
slot of symbols is written as an array of them, which is always homogeneous. -/
theorem refuses_writeSlots {fields : List Field} {slots : List Value} {count : Nat}
    (typed : Field.readAll fields slots = .ok slots) (judged : ∀ slot ∈ slots, Judged slot)
    (bad : ∃ slot ∈ slots.take count, ¬slot.Everywhere Value.Homogeneous) :
    Refuses (writeSlots standardBodies .strict fields count slots) := by
  induction slots generalizing fields count with
  | nil =>
    obtain ⟨_, none, _⟩ := bad
    rw [List.take_nil] at none
    cases none
  | cons slot rest inductionHypothesis =>
    cases count with
    | zero => obtain ⟨_, ⟨⟩, _⟩ := bad
    | succ count =>
      cases fields with
      | nil => cases typed
      | cons field fields =>
        obtain ⟨first, later⟩ := Field.readAll_cons typed
        obtain ⟨here, others⟩ := List.forall_mem_cons.mp judged
        rw [List.take_succ_cons] at bad
        have next (homogeneous : slot.Everywhere Value.Homogeneous) :=
          inductionHypothesis later others (exists_tail_of_good homogeneous bad)
        rw [writeSlots]
        simp only [List.head?_cons, Option.bind_some, List.tail_cons]
        cases symbols : slotSymbols? field.type slot with
        | some names =>
          obtain rfl := eq_array_of_slotSymbols first symbols
          have ready := ready_of_homogeneous here.1 (homogeneous_symbols names)
          exact (writes_putSymbolArray Utf8.encode names).atomic.refuses
            (ready.imp fun _ ready => ready.checked) (next (homogeneous_symbols names))
        | none => exact here.step next

end Sequences

section Arrays

variable {items : List Value}

/-- The parts of a described element are found, or refused for an array in it. The element is
written in full to find its raw body, so an array deep inside is what goes wrong first. -/
theorem found_or_refused {described : Described} (judged : Judged (.described described)) :
    foundParts standardBodies described = .ok (described.descriptor, described.rawBody) ∨
      ∃ reason, foundParts standardBodies described = .error (.refused (.invalidArray reason)) := by
  have regarded := judged.1
  by_cases homogeneous : (Value.described described).Everywhere Value.Homogeneous
  · have ready := ready_of_homogeneous regarded homogeneous
    have sound : (Value.described described).Everywhere (Sound Utf8.encode) := fun part inside =>
      ⟨(regarded part inside).plain, (ready part inside).checked⟩
    have shallow : bodyNesting described + 1 ≤ defaultMaxDepth := regarded.here.shallow
    exact .inl (rawParts_of_sound ((written_of_regarded regarded).whole Utf8.encode)
      ⟨ready, regarded.here.shallow⟩ sound shallow)
  · obtain ⟨reason, after, failed⟩ := (judged.2 homogeneous).whole.atomic (.fresh .shift)
    unfold foundParts rawParts
    split
    · exact .inl rfl
    · next known =>
      have refused : atomic (writeDescribed standardBodies .strict described) (.fresh .shift) =
          .error (.refused (.invalidArray reason)) after := failed
      rw [refused]
      exact .inr ⟨reason, rfl⟩

/-- The raw bodies of described elements are found, or refused for an array. That is either one
inside an element or the array of the elements, because they differ in their descriptors. -/
theorem rawBodies_or_refused (judged : ∀ item ∈ items, Judged item) (shared : Option Descriptor)
    (front : List Value) :
    (∃ found, rawBodies standardBodies shared front items = .ok found) ∨
      ∃ reason, rawBodies standardBodies shared front items =
        .error (.refused (.invalidArray reason)) := by
  induction items generalizing shared front with
  | nil => exact .inl ⟨_, rfl⟩
  | cons item rest inductionHypothesis =>
    obtain ⟨here, others⟩ := List.forall_mem_cons.mp judged
    cases item with
    | described described =>
      rw [rawBodies]
      rcases found_or_refused here with found | ⟨reason, refused⟩
      · simp only [found]
        split
        · exact .inr ⟨_, rfl⟩
        · exact inductionHypothesis others _ _
      · simp only [refused]
        exact .inr ⟨reason, rfl⟩
    | _ => exact .inr ⟨_, rfl⟩

/-- Elements that cannot be laid out are refused. If all parts of described elements are found,
then it must be the raw bodies that are not alike. -/
theorem refuses_arrayLayout (judged : ∀ item ∈ items, Judged item)
    (sound : PartsSound standardBodies Described.rawBody items)
    (spread : ¬LaidOut standardBodies Described.rawBody items) :
    Refuses (arrayLayout .strict items fun _ => rawBodies standardBodies none [] items) := by
  cases items with
  | nil =>
    refine absurd ⟨⟨none, nofun⟩, ⟨.boolean, by decide, by decide, nofun⟩, nofun⟩ spread
  | cons first rest =>
    cases first with
    | described described =>
      rw [arrayLayout]
      rcases rawBodies_or_refused judged none [] with ⟨⟨shared, bodies⟩, ran⟩ | ⟨reason, refused⟩
      · obtain ⟨rfl, labelled, found, _⟩ := of_rawBodies sound ran
        simp only [ran]
        refine Refuses.first (refuses_elementCode .strict fun alike => ?_) _
        exact spread ⟨⟨shared, fun item member => (labelled item member).1⟩, alike, found⟩
      · simp only [refused]
        exact fun state => ⟨reason, state, rfl⟩
    | _ =>
      refine Refuses.first (refuses_elementCode .strict fun alike => ?_) _
      refine spread ⟨⟨none, alike.plain⟩, ?_, fun described member => ?_⟩
      · rwa [map_held_of_plain alike.plain]
      · cases alike.plain _ member

/-- A judged element of homogeneous arrays is written behind the shared constructor, and any
other is refused. -/
theorem Judged.stepHeld {item : Value} (judged : Judged item) {shared : Code}
    (behind : Behind Utf8.encode shared item.bare)
    (within : elementNesting item < defaultMaxDepth)
    (found : PartsFound standardBodies Described.rawBody [item]) {next : Unit → Emit β}
    (later : item.Everywhere Value.Homogeneous → Refuses (next ())) :
    Refuses (writeHeld standardBodies Described.rawBody .strict shared item >>= next) := by
  by_cases homogeneous : item.Everywhere Value.Homogeneous
  · have writes := (written_of_regarded judged.1).bare Utf8.encode behind
    exact writes.refuses ⟨ready_of_homogeneous judged.1 homogeneous, within⟩ (later homogeneous)
  · exact ((judged.2 homogeneous).bare behind found).first next

/-- Elements behind their shared constructor are refused if one of them is not homogeneous
throughout. -/
theorem refuses_held {shared : Code}
    (each : ∀ item ∈ items, Judged item ∧ Behind Utf8.encode shared item.bare ∧
      elementNesting item < defaultMaxDepth)
    (found : PartsFound standardBodies Described.rawBody items)
    (bad : ∃ item ∈ items, ¬item.Everywhere Value.Homogeneous) :
    Refuses (putEach (writeHeld standardBodies Described.rawBody .strict shared) items) := by
  refine refuses_putEach (fun item member next later => ?_) bad
  obtain ⟨judged, behind, within⟩ := each item member
  refine judged.stepHeld behind within (fun described same => ?_) later
  exact found described (List.mem_singleton.mp same ▸ member)

/-- What an array holds is refused if one of its elements is not homogeneous throughout. The
array itself is laid out at this point, and so its head is written before the element is reached.
-/
theorem refuses_putArrayPayload (laid : LaidOut standardBodies Described.rawBody items)
    (judged : ∀ item ∈ items, Judged item)
    (within : ∀ item ∈ items, elementNesting item < defaultMaxDepth)
    (bad : ∃ item ∈ items, ¬item.Everywhere Value.Homogeneous) :
    Refuses (putArrayPayload (layout Utf8.encode Described.rawBody items)
      (fun code => writeElements standardBodies .strict code items)
      fun code bodies => writeRawElements standardBodies .strict code bodies items) := by
  have each (item : Value) (member : item ∈ items) : Judged item ∧
      Behind Utf8.encode (sharedCode Utf8.encode (items.map (held Described.rawBody))) item.bare ∧
      elementNesting item < defaultMaxDepth := by
    have behind := @laid.behind _ Utf8.encode _ _ item member
    rw [held_rawBody] at behind ⊢
    exact ⟨judged item member, behind, within item member⟩
  have refuses := refuses_held each laid.found bad
  obtain ⟨label, labelled⟩ := laid.labelled
  obtain ⟨first, member⟩ : ∃ first, first ∈ items := let ⟨item, member, _⟩ := bad; ⟨item, member⟩
  have head : items.head?.bind Value.label? = label := by
    cases items with
    | nil => cases member
    | cons first rest => exact labelled first List.mem_cons_self
  unfold putArrayPayload layout
  rw [head]
  cases label with
  | none =>
    rw [← writeElements_eq_held Described.rawBody labelled] at refuses
    exact (writes_putCode _).refuses trivial refuses
  | some descriptor =>
    have described (item : Value) (member : item ∈ items) : item.kind = .described :=
      kind_of_label (labelled item member)
    obtain ⟨contained, rfl, rfl⟩ := Value.exists_of_label (labelled first member)
    have fits := (judged _ member).1.here.fits.descriptor
    rw [← writeRawElements_eq_held described] at refuses
    exact (writes_putCode .described).refuses trivial
      ((writes_putDescriptor contained.descriptor).refuses fits
        ((writes_putCode _).refuses trivial refuses))

/-- An array that is not homogeneous throughout is refused, whatever it is written into. Either
it cannot be laid out, or one of its elements is refused behind its head. That the count of
elements fits, which is checked before an element is written, follows from the size of the array.
-/
theorem refuses_array (finish : Emit Unit → Emit Unit)
    (frames : items.length < 256 ^ 4 → ∀ {write : Emit Unit}, Refuses write →
      Refuses (finish write))
    (regarded : (Value.array items).Everywhere Regarded) (judged : ∀ item ∈ items, Judged item)
    (bad : ¬(Value.array items).Everywhere Value.Homogeneous) :
    Refuses (do
      let layout ← arrayLayout .strict items fun _ => rawBodies standardBodies none [] items
      finish (putArrayPayload layout (fun code => writeElements standardBodies .strict code items)
        fun code bodies => writeRawElements standardBodies .strict code bodies items)) := by
  have sound : PartsSound standardBodies Described.rawBody items :=
    partsSound_of_plain (regarded.imp fun _ part => part.plain) fun item member =>
      written_of_regarded (judged item member).1
  by_cases laid : LaidOut standardBodies Described.rawBody items
  · have shallow : Canonical.elementNestings items < defaultMaxDepth := regarded.here.shallow
    have within (item : Value) (member : item ∈ items) : elementNesting item < defaultMaxDepth :=
      Nat.lt_of_le_of_lt (Canonical.elementNesting_le_elementNestings member) shallow
    have homogeneous := Value.homogeneous_iff.mpr (laidOut_iff.mp laid).1
    have inside := exists_of_not_all fun all => bad (.of_array homogeneous all)
    have few : items.length < 256 ^ 4 := by
      have fits := regarded.here.fits
      have paid := @Canonical.length_le_elements Utf8.encode _ _ fun item member => by
        have behind := @laid.behind _ Utf8.encode _ _ item member
        rwa [held_rawBody] at behind
      rw [Fits, List.length_append] at fits
      omega
    exact (writes_arrayLayout Utf8.encode sound).refuses laid
      (frames few (refuses_putArrayPayload laid judged within inside))
  · exact (refuses_arrayLayout judged sound laid).first _

end Arrays

section Induction

/-- Of a described value what it contains is refused. -/
theorem exists_contents {contained : Described}
    (bad : ¬(Value.described contained).Everywhere Value.Homogeneous) :
    ∃ value ∈ contained.contents, ¬value.Everywhere Value.Homogeneous :=
  exists_of_not_all fun all => bad (.of_described trivial all)

/-- A list is refused for its items. Its frame is begun before them and is never closed. -/
theorem refused_list {items : List Value} (regarded : (Value.list items).Everywhere Regarded)
    (judged : ∀ item ∈ items, Judged item)
    (bad : ¬(Value.list items).Everywhere Value.Homogeneous) : Refused (.list items) := by
  have inside := exists_of_not_all fun all => bad (.of_list trivial all)
  have refuses := refuses_writeItems judged inside
  refine .of_bare (by intro described; cases described) ?_ fun shared _ => ?_
  · cases items with
    | nil => obtain ⟨_, ⟨⟩, _⟩ := inside
    | cons item rest => exact refuses.container .list8 _ false
  · have fits : 4 + (Canonical.encodings Utf8.encode items).length < 256 ^ 4 := regarded.here.fits
    have paid := @Canonical.length_le_encodings Utf8.encode items
    exact refuses.wideBody (by omega)

/-- A map is refused for its keys and values. -/
theorem refused_map {entries : Entries} (regarded : (Value.map entries).Everywhere Regarded)
    (judged : ∀ entry ∈ entries, Judged entry.1 ∧ Judged entry.2)
    (bad : ¬(Value.map entries).Everywhere Value.Homogeneous) : Refused (.map entries) := by
  have refuses := refuses_writeEntries judged
    (exists_of_not_all fun all => bad (.of_map trivial all))
  refine .of_bare (by intro described; cases described) ?_ fun shared _ => ?_
  · exact refuses.container .map8 _ false
  · have fits : 4 + (Canonical.entryEncodings Utf8.encode entries).length < 256 ^ 4 :=
      regarded.here.fits
    have paid := @Canonical.length_le_entryEncodings Utf8.encode entries
    exact refuses.wideBody (by omega)

/-- An array is refused for itself or for its elements, in a container of its own and as an
element of another array. -/
theorem refused_array {items : List Value} (regarded : (Value.array items).Everywhere Regarded)
    (judged : ∀ item ∈ items, Judged item)
    (bad : ¬(Value.array items).Everywhere Value.Homogeneous) : Refused (.array items) := by
  refine .of_bare (by intro described; cases described) ?_ fun shared _ => ?_
  · rw [writeValue]
    exact refuses_array (fun write => do
      let mark ← openContainer .array8
      write
      closeContainer mark items.length false)
      (fun _ _ refuses => refuses.container .array8 _ false) regarded judged bad
  · exact refuses_array (putWideBody items.length) (fun few _ refuses => refuses.wideBody few)
      regarded judged bad

/-- A described value of a known form that is refused has no raw body to be found. So it is never
reached as an element, and nothing has to be shown of that. -/
theorem Refused.of_known {described : Described} (known : described.form?.isSome)
    (whole : Refuses (writeValue standardBodies .strict (.described described))) :
    Refused (.described described) := by
  refine ⟨whole, fun behind => behind.elim, fun _ found => ?_⟩
  have parts := found described List.mem_cons_self
  obtain ⟨reason, after, failed⟩ := whole.atomic (.fresh .shift)
  have refused : atomic (writeDescribed standardBodies .strict described) (.fresh .shift) =
      .error (.refused (.invalidArray reason)) after := failed
  unfold foundParts rawParts at parts
  split at parts
  · cases known
  · rw [refused] at parts
    cases parts

/-- A composite is refused for its slots. A slot that is not homogeneous is set, so it is among
those that are written. -/
theorem refused_composite {form : Composite} {slots : List Value}
    (regarded : (Value.described (.composite form slots)).Everywhere Regarded)
    (judged : ∀ slot ∈ slots, Judged slot)
    (bad : ¬(Value.described (.composite form slots)).Everywhere Value.Homogeneous) :
    Refused (.described (.composite form slots)) := by
  obtain ⟨slot, member, heterogeneous⟩ := exists_contents bad
  have typed : Field.readAll form.fields slots = .ok slots := regarded.here.plain.typed
  have fields : ¬form.fields.isEmpty := by
    intro none
    rw [List.isEmpty_iff.mp none] at typed
    cases typed
    cases member
  have set : slot ∈ slots.take (setSlots slots) := by
    refine (mem_take_or_eq_null member).resolve_right ?_
    rintro rfl
    exact heterogeneous (.of_simple rfl trivial)
  have content := refuses_writeSlots typed judged ⟨slot, set, heterogeneous⟩
  refine .of_known rfl ((writes_putCode .described).refuses trivial
    ((writes_putUnsigned _ _ _ _ form.code.toNat).refuses trivial ?_))
  rw [if_neg fields]
  exact content.container .list8 _ _

/-- A section is refused for its content. -/
theorem refused_content {portion : Section} {body : Value} (judged : Judged body)
    (bad : ¬body.Everywhere Value.Homogeneous) :
    Refused (.described (.content portion body)) := by
  have whole := (judged.2 bad).whole
  refine .of_known rfl ((writes_putCode .described).refuses trivial
    ((writes_putUnsigned _ _ _ _ portion.code.toNat).refuses trivial ?_))
  split
  · exact whole.atomic
  · exact whole

/-- A described value of no known form is refused for its body. -/
theorem refused_unknown {descriptor : Descriptor} {body : Value}
    (regarded : (Value.described (.unknown descriptor body)).Everywhere Regarded)
    (judged : Judged body) (bad : ¬body.Everywhere Value.Homogeneous) :
    Refused (.described (.unknown descriptor body)) := by
  have refused := judged.2 bad
  refine ⟨?_, fun behind => behind.elim, fun behind _ => refused.asElement behind⟩
  exact (writes_putCode .described).refuses trivial
    ((writes_putDescriptor descriptor).refuses regarded.here.fits.descriptor refused.whole.atomic)

/-- A regarded value is refused unless all of its arrays are homogeneous, whether it is written
as a value or as an element. The induction carries all three ways of writing at once, as each of
them occurs inside the others. -/
theorem refused_of_not_homogeneous (value : Value) (regarded : value.Everywhere Regarded)
    (bad : ¬value.Everywhere Value.Homogeneous) : Refused value := by
  induction value using Value.induction with
  | simple value simple =>
    refine absurd (.of_simple simple ?_) bad
    cases value <;> trivial
  | list items inductionHypothesis =>
    refine refused_list regarded (fun item member => ?_) bad
    exact ⟨regarded.item member, inductionHypothesis item member (regarded.item member)⟩
  | map entries inductionHypothesis =>
    refine refused_map regarded (fun entry member => ?_) bad
    obtain ⟨key, mapped⟩ := inductionHypothesis entry member
    exact ⟨⟨regarded.key member, key (regarded.key member)⟩,
      regarded.mapped member, mapped (regarded.mapped member)⟩
  | array items inductionHypothesis =>
    refine refused_array regarded (fun item member => ?_) bad
    exact ⟨regarded.element member, inductionHypothesis item member (regarded.element member)⟩
  | described contained inductionHypothesis =>
    have judged (value : Value) (member : value ∈ contained.contents) : Judged value :=
      ⟨regarded.contents member, inductionHypothesis value member (regarded.contents member)⟩
    cases contained with
    | composite form slots => exact refused_composite regarded judged bad
    | content portion body =>
      exact refused_content (judged body List.mem_cons_self)
        fun all => bad (.of_content trivial all)
    | unknown descriptor body =>
      exact refused_unknown regarded (judged body List.mem_cons_self) fun all =>
        bad (.of_unknown trivial all)

end Induction

/-- A regarded value is written if all of its arrays are homogeneous, and otherwise refused for
an invalid array. The first part is what is known of plain values, and for the second part the
value is refused by its first array that is not homogeneous. -/
theorem encodeValue_of_regarded {value : Value} (regarded : value.Everywhere Regarded) :
    (value.Everywhere Value.Homogeneous →
        ∀ state, ∃ after, encodeValue .strict value state = .ok () after) ∧
      (¬value.Everywhere Value.Homogeneous → Refuses (encodeValue .strict value)) := by
  refine ⟨fun homogeneous state => ?_, fun bad => ?_⟩
  · have writes := writes_encodeValue Utf8.encode (regarded.imp fun _ part => part.plain)
    obtain ⟨after, ran, _⟩ := writes.complete
      ⟨ready_of_homogeneous regarded homogeneous, regarded.here.shallow⟩ state
    exact ⟨after, ran⟩
  · exact (refused_of_not_homogeneous value regarded bad).whole.atomic

end Amqp.Encoder
