import Amqp.Proofs.Canonical.Sizes
import Amqp.Proofs.Encoder.Writing

/-!
# Writing arrays

The elements of an array are looked at before any of them is written, to find the constructor
that they share. It is found exactly if their bare values are of one kind that has payloads.
Elements that are described must share a descriptor as well, and their raw bodies are what is
looked at.

Nothing is said here of how one element is written. That is an assumption, which the induction
on values provides.
-/

namespace Amqp.Encoder

open Canonical (Checked LabelFits measuredAs sharedCode stringFits symbolCode symbolContent
  symbolArray lengthWidth)

/-- Values are of one kind that has payloads. -/
def Alike (items : List Value) : Prop :=
  ∃ kind : Kind, kind ≠ .null ∧ kind ≠ .described ∧ ∀ item ∈ items, item.kind = kind

/-- The elements of an array are of one kind exactly if they share a descriptor, or have none,
and their bare values are alike. Of no elements both are so: any descriptor and any kind will do.
-/
theorem uniform_iff (items : List Value) :
    (Value.array items).Uniform ∧ (Value.array items).NoNull ↔
      (∃ descriptor, ∀ item ∈ items, item.label? = descriptor) ∧
        Alike (items.map Value.bare) := by
  constructor
  · rintro ⟨⟨descriptor, kind, notDescribed, same⟩, noNull⟩
    refine ⟨⟨descriptor, fun item member => (same item member).1⟩, ?_⟩
    cases items with
    | nil => exact ⟨.boolean, by decide, by decide, fun _ member => nomatch member⟩
    | cons first rest =>
      refine ⟨kind, ?_, notDescribed, fun other found => ?_⟩
      · rintro rfl
        exact noNull first List.mem_cons_self
          (Value.eq_null_of_kind (same first List.mem_cons_self).2)
      · obtain ⟨item, member, rfl⟩ := List.mem_map.mp found
        exact (same item member).2
  · rintro ⟨⟨descriptor, labelled⟩, kind, notNull, notDescribed, same⟩
    refine ⟨⟨descriptor, kind, notDescribed, fun item member =>
      ⟨labelled item member, same _ (List.mem_map_of_mem member)⟩⟩, ?_⟩
    intro item member null
    have kind_eq : item.bare.kind = kind := same _ (List.mem_map_of_mem member)
    rw [null] at kind_eq
    exact notNull kind_eq.symm

section Constructor

variable (text : String → Bytes)

/-- Whether all strings fit a one-byte length is found without writing. The search stops at the
first one that does not. -/
theorem writes_stringsFit (items : List Value) :
    Writes (stringsFit (.ofPure text) items) True True (items.all (stringFits text)) [] := by
  induction items with
  | nil => exact writes_pure true
  | cons item rest inductionHypothesis =>
    cases item with
    | string value =>
      have next : Writes (if (text value).length ≤ 255 then stringsFit (.ofPure text) rest
          else pure false) True True ((Value.string value :: rest).all (stringFits text)) [] := by
        rw [List.all_cons, stringFits]
        by_cases short : (text value).length ≤ 255
        · rw [if_pos short, decide_eq_true short, Bool.true_and]
          exact inductionHypothesis
        · rw [if_neg short, decide_eq_false short, Bool.false_and]
          exact writes_pure false
      exact ((writes_ask text value).bind next).imp (fun _ => ⟨trivial, trivial⟩)
        fun _ => trivial
    | _ => exact inductionHypothesis

/-- The shared constructor is found exactly if the elements are alike. Null and described values
have no payload to share one for, so they are refused even if all elements are of that kind. -/
theorem writes_elementCode (items : List Value) :
    Writes (elementCode (.ofPure text) items) (Alike items) (Alike items)
      (sharedCode text items) [] := by
  cases items with
  | nil =>
    have alike : Alike [] := ⟨.boolean, by decide, by decide, fun _ member => nomatch member⟩
    exact (writes_pure Code.null).imp (fun _ => trivial) fun _ => alike
  | cons first rest =>
    unfold elementCode
    by_cases differ : ((first :: rest).any fun item => decide (item.kind ≠ first.kind)) = true
    · simp only [if_pos differ]
      refine (writes_throw _ _ _).imp ?_ False.elim
      rintro ⟨kind, _, _, same⟩
      obtain ⟨item, member, differs⟩ := List.any_eq_true.mp differ
      refine of_decide_eq_true differs ?_
      rw [same item member, same first List.mem_cons_self]
    · simp only [if_neg differ]
      have same (item : Value) (member : item ∈ first :: rest) : item.kind = first.kind :=
        Decidable.byContradiction fun differs =>
          differ (List.any_eq_true.mpr ⟨item, member, decide_eq_true differs⟩)
      have alike (notNull : first.kind ≠ .null) (notDescribed : first.kind ≠ .described) :
          Alike (first :: rest) := ⟨first.kind, notNull, notDescribed, same⟩
      have refused (kind : first.kind = .null ∨ first.kind = .described) :
          ¬Alike (first :: rest) := by
        rintro ⟨other, notNull, notDescribed, each⟩
        rw [each first List.mem_cons_self] at kind
        exact kind.elim notNull notDescribed
      rw [sharedCode]
      cases kind : first.kind with
      | null => exact (writes_throw _ _ _).imp (refused (.inl kind)) False.elim
      | described => exact (writes_throw _ _ _).imp (refused (.inr kind)) False.elim
      | string =>
        exact ((writes_stringsFit text (first :: rest)).map (choose .string8)).imp
          (fun _ => trivial) fun _ => alike (by rw [kind]; decide) (by rw [kind]; decide)
      | _ =>
        exact (writes_pure _).imp (fun _ => trivial) fun _ =>
          alike (by rw [kind]; decide) (by rw [kind]; decide)

end Constructor

section Symbols

/-- The symbols of an array behind the shared constructor. -/
theorem writes_putSymbolElements (shared : Code) (names : List String) :
    Writes (putSymbolElements shared names)
      (∀ name ∈ names, (Utf8.encode name).length < 256 ^ lengthWidth shared)
      (∀ name ∈ names, (Utf8.encode name).length < 256 ^ lengthWidth shared) ()
      (names.flatMap fun name => measuredAs shared (Utf8.encode name)) := by
  induction names with
  | nil => exact (writes_pure ()).imp (fun _ => trivial) fun _ _ member => nomatch member
  | cons name rest inductionHypothesis =>
    rw [putSymbolElements, List.flatMap_cons]
    simp only [List.forall_mem_cons]
    exact (writes_putElementPayload shared (Utf8.encode name)).bind inductionHypothesis

/-- The symbols of an array fit the constructor that is chosen for them if they fit any. The
narrow one is chosen only if all of them fit it. -/
theorem fits_symbolCode (names : List String) :
    (∀ name ∈ names, (Utf8.encode name).length < 256 ^ lengthWidth (symbolCode names)) ↔
      ∀ name ∈ names, (Utf8.encode name).length < 256 ^ 4 := by
  unfold symbolCode
  split
  · next all =>
    have short (name : String) (member : name ∈ names) : (Utf8.encode name).length < 256 := by
      have fits := of_decide_eq_true (List.all_eq_true.mp all name member)
      omega
    exact ⟨fun _ name member => Nat.lt_trans (short name member) (by decide),
      fun _ name member => short name member⟩
  · exact Iff.rfl

/-- What is checked of an array of symbols: each length, and the size of the whole. All else that
is checked of an array, symbols satisfy by what they are. -/
theorem checked_symbols {text : String → Bytes} (names : List String) :
    (Value.array (names.map .symbol)).Everywhere (Checked text) ↔
      (∀ name ∈ names, (Utf8.encode name).length < 256 ^ 4) ∧
        4 + (symbolContent names).length < 256 ^ 4 := by
  have size : 4 + (symbolContent names).length < 256 ^ 4 ↔
      Canonical.Fits text (.array (names.map .symbol)) := by
    cases names with
    | nil =>
      have small : (5 : Nat) < 256 ^ 4 := by decide
      exact ⟨fun _ => small, fun _ => small⟩
    | cons name names => rw [Canonical.Fits, @Canonical.symbolContent_cons text]
  constructor
  · intro checked
    refine ⟨fun name member => ?_, size.mpr checked.here.fits⟩
    exact (checked.element (List.mem_map_of_mem member)).here.fits
  · rintro ⟨each, fits⟩
    refine .of_array ⟨size.mp fits, ⟨none, .symbol, by decide, ?_⟩, ?_⟩ ?_
    · intro item member
      obtain ⟨name, _, rfl⟩ := List.mem_map.mp member
      exact ⟨rfl, rfl⟩
    · intro item member
      obtain ⟨name, _, rfl⟩ := List.mem_map.mp member
      intro bare
      cases bare
    · intro item member
      obtain ⟨name, found, rfl⟩ := List.mem_map.mp member
      exact .of_simple rfl ⟨each name found, trivial, trivial⟩

/-- An array of symbols is written exactly if the array of the same symbols is sound. It has a
writer of its own, which lays nothing out, and both come to the same bytes. -/
theorem writes_putSymbolArray (text : String → Bytes) (names : List String) :
    Writes (putSymbolArray names)
      ((Value.array (names.map .symbol)).Everywhere (Checked text))
      ((Value.array (names.map .symbol)).Everywhere (Checked text)) () (symbolArray names) := by
  have content : Writes (do
      putCode (symbolCode names)
      putSymbolElements (symbolCode names) names) _ _ () (symbolContent names) :=
    (writes_putCode (symbolCode names)).bind (writes_putSymbolElements (symbolCode names) names)
  rw [checked_symbols, ← fits_symbolCode]
  have paid := Canonical.length_le_symbolContent names
  refine (writes_container .array8 false content paid).imp ?_ ?_
  · rintro ⟨each, fits⟩
    exact ⟨⟨trivial, each⟩, fits⟩
  · rintro ⟨⟨_, each⟩, fits⟩
    exact ⟨each, fits⟩

end Symbols

section Layout

variable {below : BodyWriter} {raw : Described → Value} {items : List Value}

/-- What an array holds of an element, given the raw bodies of described ones. -/
def held (raw : Described → Value) : Value → Value
  | .described described => raw described
  | value => value

/-- With its own raw body a described value is held as its bare value. -/
theorem held_rawBody : held Described.rawBody = Value.bare := by
  funext value
  cases value <;> rfl

/-- How the parts of a described element are found. -/
abbrev foundParts (below : BodyWriter) (described : Described) :
    Except Failure (Descriptor × Value) :=
  rawParts described (writeDescribed below .strict described)

/-- Whatever is found of described elements is their descriptors and the raw bodies given. -/
def PartsSound (below : BodyWriter) (raw : Described → Value) (items : List Value) : Prop :=
  ∀ described, .described described ∈ items → ∀ parts, foundParts below described = .ok parts →
    parts = (described.descriptor, raw described)

/-- The descriptors and the raw bodies given of described elements are found. -/
def PartsFound (below : BodyWriter) (raw : Described → Value) (items : List Value) : Prop :=
  ∀ described, .described described ∈ items →
    foundParts below described = .ok (described.descriptor, raw described)

/-- The raw bodies of described elements are found only if all their parts are, and if their
descriptors are the same. The induction is for any bodies that were found in front, and for any
descriptor that these had. -/
theorem of_rawBodies (sound : PartsSound below raw items) {shared found : Option Descriptor}
    {front bodies : List Value} (ran : rawBodies below shared front items = .ok (found, bodies)) :
    bodies = front.reverse ++ items.map (held raw) ∧
      (∀ item ∈ items, item.label? = found ∧ item.kind = .described) ∧
      PartsFound below raw items ∧ (shared.isSome → found = shared) := by
  induction items generalizing shared front with
  | nil =>
    cases ran
    exact ⟨(List.append_nil _).symm, nofun, nofun, fun _ => rfl⟩
  | cons item rest inductionHypothesis =>
    cases item with
    | described described =>
      rw [rawBodies] at ran
      cases parts : foundParts below described with
      | error failure => simp only [parts] at ran; cases ran
      | ok found' =>
        obtain rfl := sound described List.mem_cons_self found' parts
        simp only [parts] at ran
        split at ran
        · cases ran
        · next agrees =>
          obtain ⟨rfl, labelled, others, kept⟩ := inductionHypothesis
            (fun other member => sound other (List.mem_cons_of_mem _ member)) ran
          obtain rfl : found = some described.descriptor := kept rfl
          refine ⟨by simp [held], ?_, ?_, ?_⟩
          · intro item member
            rcases List.mem_cons.mp member with rfl | member
            · exact ⟨rfl, rfl⟩
            · exact labelled item member
          · intro other member
            rcases List.mem_cons.mp member with same | member
            · cases same
              exact parts
            · exact others other member
          · intro given
            obtain ⟨descriptor, rfl⟩ := Option.isSome_iff_exists.mp given
            have same : descriptor = described.descriptor := by simpa using agrees
            rw [same]
    | _ => cases ran

/-- The raw bodies of described elements are found if all their parts are and their descriptors
are the same. The first element gives the descriptor that the others are held against. -/
theorem rawBodies_of_found (found : PartsFound below raw items) {descriptor : Descriptor}
    (labelled : ∀ item ∈ items, item.label? = some descriptor) {shared : Option Descriptor}
    (agrees : shared = none ∨ shared = some descriptor) (front : List Value) :
    ∃ found, rawBodies below shared front items =
      .ok (found, front.reverse ++ items.map (held raw)) ∧
        (items ≠ [] ∨ shared = some descriptor → found = some descriptor) := by
  induction items generalizing shared front with
  | nil =>
    refine ⟨shared, by rw [rawBodies, List.map_nil, List.append_nil], ?_⟩
    rintro (some | same)
    · exact absurd rfl some
    · exact same
  | cons item rest inductionHypothesis =>
    have label := labelled item List.mem_cons_self
    cases item with
    | described described =>
      obtain rfl : described.descriptor = descriptor := Option.some.inj label
      have parts := found described List.mem_cons_self
      have same : shared.any (fun other => decide (other ≠ described.descriptor)) = false := by
        rcases agrees with rfl | rfl <;> simp
      obtain ⟨last, ran, settled⟩ := inductionHypothesis
        (fun other member => found other (List.mem_cons_of_mem _ member))
        (fun other member => labelled other (List.mem_cons_of_mem _ member)) (.inr rfl)
        (raw described :: front)
      refine ⟨last, ?_, fun _ => settled (.inr rfl)⟩
      rw [rawBodies]
      simp only [parts, same]
      simpa [held] using ran
    | _ => cases label

/-- The layout of the elements of an array. -/
def layout (text : String → Bytes) (raw : Described → Value) (items : List Value) : ArrayLayout :=
  ⟨sharedCode text (items.map (held raw)),
    (items.head?.bind Value.label?).map (·, items.map (held raw))⟩

/-- What laying out the elements of an array checks. -/
structure LaidOut (below : BodyWriter) (raw : Described → Value) (items : List Value) : Prop where
  labelled : ∃ descriptor, ∀ item ∈ items, item.label? = descriptor
  alike : Alike (items.map (held raw))
  found : PartsFound below raw items

/-- Only a described value has a descriptor. -/
theorem kind_of_label {value : Value} {descriptor : Descriptor}
    (labelled : value.label? = some descriptor) : value.kind = .described := by
  cases value with
  | described => rfl
  | _ => cases labelled

/-- An element without a descriptor is held as it is. -/
theorem held_of_plain {item : Value} (plain : item.label? = none) : held raw item = item := by
  cases item with
  | described described => cases plain
  | _ => rfl

/-- Elements without a descriptor are held as they are. -/
theorem map_held_of_plain (plain : ∀ item ∈ items, item.label? = none) :
    items.map (held raw) = items := by
  rw [List.map_congr_left fun item member => held_of_plain (plain item member), List.map_id']

/-- Values that are alike are not described, so they have no descriptor. -/
theorem Alike.plain (alike : Alike items) : ∀ item ∈ items, item.label? = none := by
  obtain ⟨kind, _, notDescribed, same⟩ := alike
  intro item member
  cases item with
  | described described => exact absurd (same _ member).symm notDescribed
  | _ => rfl

/-- Elements of which the first one is not described are laid out exactly if they are alike. None
of the others is described then, so no raw body is looked for. -/
theorem writes_arrayLayout_plain (text : String → Bytes) {first : Value} {rest : List Value}
    (plain : first.kind ≠ .described) :
    Writes (do return ArrayLayout.mk (← elementCode (.ofPure text) (first :: rest)) none)
      (LaidOut below raw (first :: rest)) (LaidOut below raw (first :: rest))
      (layout text raw (first :: rest)) [] := by
  have alike_iff : LaidOut below raw (first :: rest) ↔ Alike (first :: rest) := by
    constructor
    · rintro ⟨⟨descriptor, labelled⟩, alike, _⟩
      have none : descriptor = none := by
        rw [← labelled first List.mem_cons_self]
        cases first with
        | described described => exact absurd rfl plain
        | _ => rfl
      rwa [map_held_of_plain fun item member => (labelled item member).trans none] at alike
    · intro alike
      refine ⟨⟨none, alike.plain⟩, ?_, fun _ member => nomatch alike.plain _ member⟩
      rwa [map_held_of_plain alike.plain]
  refine ((writes_elementCode text (first :: rest)).map fun code => ArrayLayout.mk code none).imp
    alike_iff.mp alike_iff.mpr |>.of_result fun laid => ?_
  have labelled := (alike_iff.mp laid).plain
  rw [layout, map_held_of_plain labelled, List.head?_cons, Option.bind_some,
    labelled first List.mem_cons_self]
  rfl

/-- Elements of which the first one is described are laid out exactly if their parts are found,
their descriptors are the same and their raw bodies are alike. The search for the bodies checks
the first two, and the search for the constructor the last. -/
theorem writes_arrayLayout_described (text : String → Bytes) {described : Described}
    {rest : List Value} (sound : PartsSound below raw (.described described :: rest)) :
    Writes (arrayLayout (.ofPure text) (.described described :: rest) fun _ =>
        rawBodies below none [] (.described described :: rest))
      (LaidOut below raw (.described described :: rest))
      (LaidOut below raw (.described described :: rest))
      (layout text raw (.described described :: rest)) [] := by
  rw [arrayLayout]
  cases ran : rawBodies below none [] (.described described :: rest) with
  | error failure =>
    refine (writes_throw failure _ _).imp ?_ False.elim
    rintro ⟨⟨descriptor, labelled⟩, _, parts⟩
    obtain rfl : some described.descriptor = descriptor := labelled _ List.mem_cons_self
    obtain ⟨_, found, _⟩ := rawBodies_of_found parts labelled (.inl rfl) []
    rw [ran] at found
    cases found
  | ok result =>
    obtain ⟨shared, bodies⟩ := result
    obtain ⟨rfl, labelled, found, _⟩ := of_rawBodies sound ran
    obtain rfl : some described.descriptor = shared := (labelled _ List.mem_cons_self).1
    exact ((writes_elementCode text _).map fun code => ArrayLayout.mk code
      (some (described.descriptor, (Value.described described :: rest).map (held raw)))).imp
        LaidOut.alike fun alike => ⟨⟨_, fun item member => (labelled item member).1⟩, alike, found⟩

/-- The elements of an array are laid out exactly if that is possible. -/
theorem writes_arrayLayout (text : String → Bytes) (sound : PartsSound below raw items) :
    Writes (arrayLayout (.ofPure text) items fun _ => rawBodies below none [] items)
      (LaidOut below raw items) (LaidOut below raw items) (layout text raw items) [] := by
  cases items with
  | nil =>
    have laid : LaidOut below raw [] :=
      ⟨⟨none, nofun⟩, ⟨.boolean, by decide, by decide, nofun⟩, nofun⟩
    exact (writes_pure (layout text raw [])).imp (fun _ => trivial) fun _ => laid
  | cons first rest =>
    cases first with
    | described described => exact writes_arrayLayout_described text sound
    | _ => exact writes_arrayLayout_plain text nofun

end Layout

section Payload

variable {below : BodyWriter} {raw : Described → Value} {hook : TextEncoder} {shared : Code}
  {items : List Value} {enough so : Value → Prop} {bytes : Value → Bytes}

/-- Write what an array holds of an element behind the constructor that it shares. -/
def writeHeld (below : BodyWriter) (raw : Described → Value) (hook : TextEncoder)
    (shared : Code) : Value → Emit Unit
  | .described (.unknown _ body) => writeElement below hook shared body
  | .described described => below hook shared (raw described)
  | value => writeElement below hook shared value

/-- Elements that are not described are what an array holds of them, one after the other. -/
theorem writeElements_eq_held (raw : Described → Value)
    (plain : ∀ item ∈ items, item.label? = none) :
    writeElements below hook shared items = putEach (writeHeld below raw hook shared) items := by
  induction items with
  | nil => rfl
  | cons item rest inductionHypothesis =>
    obtain ⟨here, others⟩ := List.forall_mem_cons.mp plain
    rw [writeElements, putEach, inductionHypothesis others]
    cases item with
    | described contained => cases here
    | _ => rfl

/-- Elements that are not described are written one after the other. -/
theorem writes_writeElements (plain : ∀ item ∈ items, item.label? = none)
    (each : ∀ item ∈ items,
      Writes (writeHeld below raw hook shared item) (enough item) (so item) () (bytes item)) :
    Writes (writeElements below hook shared items) (∀ item ∈ items, enough item)
      (∀ item ∈ items, so item) () (items.flatMap bytes) := by
  rw [writeElements_eq_held raw plain]
  exact writes_putEach each

/-- The raw bodies of described elements are what an array holds of them, one after the other.
The bodies that were found go along with the elements, one for each. -/
theorem writeRawElements_eq_held (described : ∀ item ∈ items, item.kind = .described) :
    writeRawElements below hook shared (items.map (held raw)) items =
      putEach (writeHeld below raw hook shared) items := by
  induction items with
  | nil => rfl
  | cons item rest inductionHypothesis =>
    obtain ⟨here, others⟩ := List.forall_mem_cons.mp described
    rw [putEach, ← inductionHypothesis others]
    cases item with
    | described contained => cases contained <;> rfl
    | _ => cases here

/-- The raw bodies of elements that are described are written one after the other. -/
theorem writes_writeRawElements (described : ∀ item ∈ items, item.kind = .described)
    (each : ∀ item ∈ items,
      Writes (writeHeld below raw hook shared item) (enough item) (so item) () (bytes item)) :
    Writes (writeRawElements below hook shared (items.map (held raw)) items)
      (∀ item ∈ items, enough item) (∀ item ∈ items, so item) () (items.flatMap bytes) := by
  rw [writeRawElements_eq_held described]
  exact writes_putEach each

/-- The descriptors of elements fit. -/
def LabelsFit (items : List Value) : Prop :=
  ∀ item ∈ items, ∀ descriptor, item.label? = some descriptor → LabelFits descriptor

/-- What stands in front of elements that are laid out. -/
def layoutHead (layout : ArrayLayout) : Bytes :=
  (match layout.raw with
  | some (descriptor, _) => Code.described.toByte :: Canonical.label descriptor
  | none => []) ++ [layout.code.toByte]

/-- With their own raw bodies, elements are laid out behind the head of their array. -/
theorem layoutHead_layout (text : String → Bytes) (items : List Value) :
    layoutHead (layout text Described.rawBody items) = Canonical.arrayHead text items := by
  rw [layoutHead, layout, Canonical.arrayHead, held_rawBody]
  cases items.head?.bind Value.label? <;> rfl

/-- What an array holds is written behind the head that its elements share. The descriptor of the
head fits exactly if the descriptors of all elements do, as there is only one. -/
theorem writes_putArrayPayload {text : String → Bytes} (laid : LaidOut below raw items)
    (each : ∀ item ∈ items,
      Writes (writeHeld below raw hook (sharedCode text (items.map (held raw))) item)
        (enough item) (so item) () (bytes item)) :
    Writes (putArrayPayload (layout text raw items)
        (fun code => writeElements below hook code items)
        fun code bodies => writeRawElements below hook code bodies items)
      (LabelsFit items ∧ ∀ item ∈ items, enough item) (LabelsFit items ∧ ∀ item ∈ items, so item) ()
      (layoutHead (layout text raw items) ++ items.flatMap bytes) := by
  obtain ⟨⟨label, labelled⟩, _⟩ := laid
  cases items with
  | nil =>
    exact ((writes_putCode .null).bind (writes_pure ())).imp (fun _ => ⟨trivial, trivial⟩)
      fun _ => ⟨nofun, nofun⟩
  | cons first rest =>
    have head : (first :: rest).head?.bind Value.label? = label := labelled first List.mem_cons_self
    unfold layoutHead putArrayPayload layout
    rw [head]
    cases label with
    | none =>
      have fits : LabelsFit (first :: rest) := fun item member descriptor some => by
        rw [labelled item member] at some
        cases some
      exact ((writes_putCode _).bind (writes_writeElements labelled each)).imp
        (fun given => ⟨trivial, given.2⟩) fun held => ⟨fits, held.2⟩
    | some descriptor =>
      have described (item : Value) (member : item ∈ first :: rest) : item.kind = .described :=
        kind_of_label (labelled item member)
      have fits : LabelsFit (first :: rest) ↔ LabelFits descriptor := by
        constructor
        · intro all
          exact all first List.mem_cons_self descriptor (labelled first List.mem_cons_self)
        · intro one item member other label
          rw [labelled item member] at label
          cases label
          exact one
      refine Writes.of_eq (((writes_putCode .described).bind ((writes_putDescriptor descriptor).bind
        ((writes_putCode _).bind (writes_writeRawElements described each)))).imp ?_ ?_) ?_
      · rintro ⟨labels, given⟩
        exact ⟨trivial, fits.mp labels, trivial, given⟩
      · rintro ⟨_, label, _, held⟩
        exact ⟨fits.mpr label, held⟩
      · simp

/-- An array is written by laying out its elements and writing them into a frame. The frame is
that of a value or that of an element, and how it is written is given. -/
theorem writes_array {text : String → Bytes} (finish : Emit Unit → Emit Unit) {framed : Bytes}
    {fits : Prop} (sound : PartsSound below raw items)
    (frames : LaidOut below raw items → ∀ {write : Emit Unit} {enough so : Prop},
      Writes write enough so () (layoutHead (layout text raw items) ++ items.flatMap bytes) →
      Writes (finish write) (enough ∧ fits) (so ∧ fits) () framed)
    (each : LaidOut below raw items → ∀ item ∈ items,
      Writes (writeHeld below raw (.ofPure text) (sharedCode text (items.map (held raw))) item)
        (enough item) (so item) () (bytes item)) :
    Writes (do
        let layout ← arrayLayout (.ofPure text) items fun _ => rawBodies below none [] items
        finish (putArrayPayload layout (fun code => writeElements below (.ofPure text) code items)
          fun code bodies => writeRawElements below (.ofPure text) code bodies items))
      (LaidOut below raw items ∧ (LabelsFit items ∧ ∀ item ∈ items, enough item) ∧ fits)
      (LaidOut below raw items ∧ (LabelsFit items ∧ ∀ item ∈ items, so item) ∧ fits) () framed :=
  (writes_arrayLayout text sound).bind_of fun laid =>
    frames laid (writes_putArrayPayload laid (each laid))

end Payload

end Amqp.Encoder
