import Amqp.Proofs.Canonical.Sizes
import Amqp.Proofs.Canonical.Slots
import Amqp.Text.Utf8.RoundTrip

/-!
# The canonical encoding is an encoding

For a reading hook that reads UTF-8 back, the canonical encoding of a sound value is one of
its encodings in the grammar, within the levels that its nesting says. The induction is on
the value, and carries along what the value is as an element of an array, because that is
another form of it.
-/

namespace Amqp.Canonical

open Grammar

variable {read : TextDecoder} {below : Option (Code → Bytes → Value → Prop)}

section Scalars

/-- An unsigned number in the shortest of its forms is read as itself, if each form is read. The
words are numbers, and a byte can be widened to a word: so a number below 256 is its own byte
widened, and zero is the byte zero. -/
theorem coded_unsigned {word : Type} {toNat : word → Nat} {widen : UInt8 → word}
    {behind : Code → Bytes → word → Prop} {zero small full : Code} {width : Nat}
    (injective : ∀ {left right}, toNat left = toNat right → left = right)
    (toNat_widen : ∀ byte, toNat (widen byte) = byte.toNat) (nothing : behind zero [] (widen 0))
    (narrow : ∀ byte : UInt8, behind small (.be 1 byte.toNat) (widen byte))
    (wide : ∀ value, behind full (.be width (toNat value)) value) (value : word) :
    Coded behind (unsigned zero small full width (toNat value)) value := by
  unfold unsigned
  split
  · next none =>
    obtain rfl : value = widen 0 := injective (none.trans (toNat_widen 0).symm)
    exact ⟨zero, [], rfl, nothing⟩
  · split
    · next fits =>
      have byte := UInt8.toNat_ofNat_of_lt' fits
      have same : widen (UInt8.ofNat (toNat value)) = value :=
        injective ((toNat_widen _).trans byte)
      have read := narrow (UInt8.ofNat (toNat value))
      rw [same, byte] at read
      exact ⟨small, _, rfl, read⟩
    · exact ⟨full, _, rfl, wide value⟩

/-- A signed number in the shorter of its forms is read as itself, if both forms are read. A
number between -128 and 127 is its own byte widened. -/
theorem coded_signed {word : Type} {toInt : word → Int} {toInt8 : word → Int8}
    {widen : Int8 → word} {behind : Code → Bytes → word → Prop} {small full : Code} {width : Nat}
    (toNat : word → Nat)
    (injective : ∀ {left right}, toInt left = toInt right → left = right)
    (toInt_toInt8 : ∀ value, (toInt8 value).toInt = (toInt value).bmod (2 ^ 8))
    (toInt_widen : ∀ byte, toInt (widen byte) = byte.toInt)
    (narrow : ∀ byte : Int8, behind small (.be 1 byte.toUInt8.toNat) (widen byte))
    (wide : ∀ value, behind full (.be width (toNat value)) value) (value : word) :
    Coded behind (signed small full width (toInt value) (toInt8 value) (toNat value)) value := by
  unfold signed
  split
  · next fits =>
    have byte : (toInt8 value).toInt = toInt value :=
      (toInt_toInt8 value).trans (Int.bmod_eq_of_le (by omega) (by omega))
    have same : widen (toInt8 value) = value := injective ((toInt_widen _).trans byte)
    have read := narrow (toInt8 value)
    rw [same] at read
    exact ⟨small, _, rfl, read⟩
  · exact ⟨full, _, rfl, wide value⟩

/-- An unsigned number of 32 bits in its shortest form. -/
theorem coded_shortUint (value : UInt32) :
    Coded (fun code content number => Scalar code content (.uint number)) (shortUint value)
      value :=
  coded_unsigned UInt32.toNat_inj.mp UInt8.toNat_toUInt32 .uint0 .smallUint .uint value

/-- An unsigned number of 64 bits in its shortest form. -/
theorem coded_shortUlong (value : UInt64) :
    Coded (fun code content number => Scalar code content (.ulong number)) (shortUlong value)
      value :=
  coded_unsigned UInt64.toNat_inj.mp UInt8.toNat_toUInt64 .ulong0 .smallUlong .ulong value

/-- A signed number of 32 bits in its shorter form. -/
theorem coded_shortInt (value : Int32) :
    Coded (fun code content number => Scalar code content (.int number)) (shortInt value) value :=
  coded_signed (fun value => value.toUInt32.toNat) Int32.toInt_inj.mp Int32.toInt_toInt8
    Int8.toInt_toInt32 .smallInt .int value

/-- A signed number of 64 bits in its shorter form. -/
theorem coded_shortLong (value : Int64) :
    Coded (fun code content number => Scalar code content (.long number)) (shortLong value)
      value :=
  coded_signed (fun value => value.toUInt64.toNat) Int64.toInt_inj.mp Int64.toInt_toInt8
    Int8.toInt_toInt64 .smallLong .long value

/-- A scalar behind a constructor is a payload behind it. -/
theorem coded_of_scalar {word : Type} {wrap : word → Value} {bytes : Bytes} {value : word}
    (coded : Coded (fun code content number => Scalar code content (wrap number)) bytes value) :
    Coded (Payload read below) bytes (wrap value) := by
  obtain ⟨code, content, same, scalar⟩ := coded
  exact ⟨code, content, same, .scalar scalar⟩

end Scalars

section Prefixes

/-- Bytes behind the shorter prefix are a payload of one of two constructors. -/
theorem coded_measured {α : Type} {behind : Code → Bytes → α → Prop} {item : α} {bytes : Bytes}
    (narrow : Code)
    (short : bytes.length < 256 ^ 1 → behind narrow (counted 1 bytes) item)
    (long : behind narrow.widen (counted 4 bytes) item) :
    Coded behind (measured narrow bytes) item := by
  unfold measured
  split
  · next small => exact ⟨narrow, _, rfl, short small⟩
  · exact ⟨narrow.widen, _, rfl, long⟩

/-- A descriptor whose name fits is read as what it is. A number is in the shortest of its forms,
which all mean the same. -/
theorem coded_label (reads : ∀ name, read (Utf8.encode name) = .ok name)
    {descriptor : Descriptor}
    (fits : LabelFits descriptor) :
    Coded (Label read) (label descriptor) descriptor := by
  cases descriptor with
  | code number =>
    obtain ⟨code, content, same, scalar⟩ := coded_shortUlong number
    exact ⟨code, content, same, .code scalar⟩
  | symbol name =>
    exact coded_measured .symbol8
      (fun small => .symbol rfl rfl small (reads name))
      (.symbol rfl rfl (fits name rfl) (reads name))

/-- The content of a list in a frame of either width is a payload. -/
theorem coded_listContainer {inside : Code → Bytes → Value → Prop} {content : Bytes}
    {items : List Value} (wide : Bool) (sequence : Sequence (Coded inside) content items)
    (fits : 4 + content.length < 256 ^ 4) :
    Coded (Payload read (some inside)) (container .list8 wide items.length content)
      (.list items) := by
  unfold container
  split
  · next small =>
    exact ⟨.list8, _, rfl, .list rfl rfl rfl sequence (by omega)⟩
  · exact ⟨.list32, _, rfl, .list rfl rfl rfl sequence fits⟩

/-- The content of a map in a frame of either width is a payload. -/
theorem coded_mapContainer {inside : Code → Bytes → Value → Prop} {content : Bytes}
    {entries : Entries} (sequence : Sequence (Paired (Coded inside)) content entries)
    (fits : 4 + content.length < 256 ^ 4) :
    Coded (Payload read (some inside)) (container .map8 false (entries.length * 2) content)
      (.map entries) := by
  rw [Nat.mul_comm]
  unfold container
  split
  · next small =>
    exact ⟨.map8, _, rfl, .map rfl rfl rfl sequence (by omega)⟩
  · exact ⟨.map32, _, rfl, .map rfl rfl rfl sequence fits⟩

/-- The content of an array in a frame of either width is a payload. The short frame is chosen if
the size fits it, and the condition on the number of elements is the same for both. -/
theorem coded_arrayContainer {inside : Code → Bytes → Value → Prop} {front content : Bytes}
    {descriptor : Option Descriptor} {shared : Code} {items : List Value}
    (constructor : Constructor read front descriptor shared)
    (sequence : Sequence (Element inside descriptor shared) content items)
    (paid : items.length ≤ (front ++ content).length)
    (fits : 4 + (front ++ content).length < 256 ^ 4) :
    Coded (Payload read (some inside)) (container .array8 false items.length (front ++ content))
      (.array items) := by
  unfold container
  split
  · next small =>
    exact ⟨.array8, _, rfl, .array rfl rfl rfl constructor sequence (by omega) paid⟩
  · exact ⟨.array32, _, rfl, .array rfl rfl rfl constructor sequence fits paid⟩

end Prefixes

section Simple

variable (reads : ∀ name, read (Utf8.encode name) = .ok name)

include reads

/-- A value that contains no values is encoded as itself. Numbers of 32 and 64 bits have several
forms and are the lemmas above; every other kind has one, or two by its length. -/
theorem coded_simpleEncoding {value : Value} (simple : value.isSimple = true)
    (fits : Fits Utf8.encode value) :
    Coded (Payload read below) (simpleEncoding Utf8.encode value) value := by
  cases value with
  | null => exact ⟨.null, [], rfl, .scalar .null⟩
  | boolean value =>
    cases value with
    | true => exact ⟨.booleanTrue, [], rfl, .scalar .booleanTrue⟩
    | false => exact ⟨.booleanFalse, [], rfl, .scalar .booleanFalse⟩
  | ubyte value => exact ⟨.ubyte, _, rfl, .scalar (.ubyte value)⟩
  | ushort value => exact ⟨.ushort, _, rfl, .scalar (.ushort value)⟩
  | uint value => exact coded_of_scalar (coded_shortUint value)
  | ulong value => exact coded_of_scalar (coded_shortUlong value)
  | byte value => exact ⟨.byte, _, rfl, .scalar (.byte value)⟩
  | short value => exact ⟨.short, _, rfl, .scalar (.short value)⟩
  | int value => exact coded_of_scalar (coded_shortInt value)
  | long value => exact coded_of_scalar (coded_shortLong value)
  | float bits => exact ⟨.float, _, rfl, .scalar (.float bits)⟩
  | double bits => exact ⟨.double, _, rfl, .scalar (.double bits)⟩
  | decimal32 bytes => exact ⟨.decimal32, _, rfl, .scalar (.decimal32 bytes)⟩
  | decimal64 bytes => exact ⟨.decimal64, _, rfl, .scalar (.decimal64 bytes)⟩
  | decimal128 bytes => exact ⟨.decimal128, _, rfl, .scalar (.decimal128 bytes)⟩
  | char value => exact ⟨.char, _, rfl, .scalar (.char value)⟩
  | timestamp value => exact ⟨.timestamp, _, rfl, .scalar (.timestamp value)⟩
  | uuid bytes => exact ⟨.uuid, _, rfl, .scalar (.uuid bytes)⟩
  | binary bytes =>
    exact coded_measured .binary8 (fun small => .binary rfl rfl small)
      (.binary rfl rfl fits)
  | string value =>
    exact coded_measured .string8
      (fun small => .string rfl rfl small (reads value))
      (.string rfl rfl fits (reads value))
  | symbol name =>
    exact coded_measured .symbol8
      (fun small => .symbol rfl rfl small (reads name))
      (.symbol rfl rfl fits (reads name))
  | list | map | array | described => cases simple

/-- A value that contains no values has its payload behind each constructor that it can share. As
an element a number has its full width and a boolean is a byte, so these are other forms than the
value has by itself. -/
theorem payload_simplePayload {value : Value} (simple : value.isSimple = true)
    (fits : Fits Utf8.encode value) {shared : Code} (behind : Behind Utf8.encode shared value) :
    Payload read below shared (simplePayload Utf8.encode shared value) value := by
  cases value with
  | null => cases behind
  | boolean value => obtain rfl := behind; exact .scalar (.boolean value)
  | ubyte value => obtain rfl := behind; exact .scalar (.ubyte value)
  | ushort value => obtain rfl := behind; exact .scalar (.ushort value)
  | uint value => obtain rfl := behind; exact .scalar (.uint value)
  | ulong value => obtain rfl := behind; exact .scalar (.ulong value)
  | byte value => obtain rfl := behind; exact .scalar (.byte value)
  | short value => obtain rfl := behind; exact .scalar (.short value)
  | int value => obtain rfl := behind; exact .scalar (.int value)
  | long value => obtain rfl := behind; exact .scalar (.long value)
  | float bits => obtain rfl := behind; exact .scalar (.float bits)
  | double bits => obtain rfl := behind; exact .scalar (.double bits)
  | decimal32 bytes => obtain rfl := behind; exact .scalar (.decimal32 bytes)
  | decimal64 bytes => obtain rfl := behind; exact .scalar (.decimal64 bytes)
  | decimal128 bytes => obtain rfl := behind; exact .scalar (.decimal128 bytes)
  | char value => obtain rfl := behind; exact .scalar (.char value)
  | timestamp value => obtain rfl := behind; exact .scalar (.timestamp value)
  | uuid bytes => obtain rfl := behind; exact .scalar (.uuid bytes)
  | binary bytes =>
    obtain ⟨rfl, small⟩ | rfl := behind
    · exact .binary rfl rfl small
    · exact .binary rfl rfl fits
  | string value =>
    obtain ⟨rfl, small⟩ | rfl := behind
    · exact .string rfl rfl small (reads value)
    · exact .string rfl rfl fits (reads value)
  | symbol name =>
    obtain ⟨rfl, small⟩ | rfl := behind
    · exact .symbol rfl rfl small (reads name)
    · exact .symbol rfl rfl fits (reads name)
  | list | map | array | described => cases simple

end Simple

/-- What is to be shown of a value: its encoding, and what it is as an element. -/
structure Encodes (read : TextDecoder) (value : Value) : Prop where
  whole : Encoding read (nesting value) (encoding Utf8.encode value) value
  element {shared : Code} : Behind Utf8.encode shared value.bare →
    payload read (elementNesting value) shared (element Utf8.encode shared value) value.bare

/-- A value that is encoded is itself the payload behind a constructor that it shares. -/
theorem Encodes.payload {value : Value} (encodes : Encodes read value) {shared : Code}
    (behind : Behind Utf8.encode shared value) :
    payload read (elementNesting value) shared (Canonical.element Utf8.encode shared value)
      value := by
  have bare := behind.bare_eq
  rw [← bare] at behind
  have word := encodes.element behind
  rwa [bare] at word

section Sequences

/-- Values that are encoded each on its own are a sequence of encodings. -/
theorem sequence_encodings {items : List Value} {levels : Nat}
    (each : ∀ item ∈ items, Encodes read item) (within : nestings items ≤ levels) :
    Sequence (Encoding read levels) (encodings Utf8.encode items) items := by
  rw [encodings_eq]
  refine Sequence.flatMap fun item member => (each item member).whole.mono ?_
  exact Nat.le_trans (nesting_le_nestings member) within

/-- Entries that are encoded each on its own are a sequence of pairs. -/
theorem sequence_entryEncodings {entries : Entries}
    (each : ∀ entry ∈ entries, Encodes read entry.1 ∧ Encodes read entry.2) :
    Sequence (Paired (Encoding read (entryNestings entries)))
      (entryEncodings Utf8.encode entries) entries := by
  rw [entryEncodings_eq]
  apply Sequence.flatMap
  intro entry member
  obtain ⟨key, mapped⟩ := each entry member
  have bounds := nesting_le_entryNestings member
  exact ⟨_, _, rfl, key.whole.mono bounds.1, mapped.whole.mono bounds.2⟩

/-- An array of no symbols is an encoding of an empty array. -/
theorem coded_noSymbols {levels : Nat} (within : nesting (.array []) ≤ levels) :
    Encoding read levels (symbolArray []) (.array []) := by
  cases levels with
  | zero => cases within
  | succ levels =>
    exact @coded_arrayContainer read _ _ [] none .symbol8 [] (.plain (by decide)) .nil
      (Nat.zero_le _) (by decide)

/-- Slots are a sequence of what they are encoded as, where an empty array can also be an array
of no symbols. What the sequence is one of is left open, because it is used for encodings within
some levels and for the canonical ones. -/
theorem sequence_slotEncodings {one : Bytes → Value → Prop} {fields : List Field}
    {slots : List Value} (typed : Field.readAll fields slots = .ok slots)
    (each : ∀ slot ∈ slots, one (encoding Utf8.encode slot) slot)
    (empty : .array [] ∈ slots → one (symbolArray []) (.array [])) (count : Nat) :
    Sequence one (slotEncodings Utf8.encode fields count slots) (slots.take count) := by
  induction slots generalizing fields count with
  | nil =>
    rw [List.take_nil]
    exact .nil
  | cons slot slots inductionHypothesis =>
    cases count with
    | zero => exact .nil
    | succ count =>
      cases fields with
      | nil => cases typed
      | cons field fields =>
        obtain ⟨first, later⟩ := Field.readAll_cons typed
        have encodes := each slot List.mem_cons_self
        rw [slotEncodings, List.take_succ_cons, List.tail_cons]
        refine .cons ?_ (inductionHypothesis later
          (fun other member => each other (List.mem_cons_of_mem _ member))
          (fun member => empty (List.mem_cons_of_mem _ member)) count)
        simp only [List.head?_cons, Option.bind_some]
        split
        · next names symbols =>
          obtain rfl := eq_array_of_slotSymbols first symbols
          cases names with
          | nil => exact empty List.mem_cons_self
          | cons name names =>
            rw [@symbolArray_cons Utf8.encode]
            exact encodes
        · exact encodes

/-- A value is found again from its descriptor, if it has one, and what an array holds of it. -/
theorem resolves_bare {item : Value} {descriptor : Option Descriptor} (plain : item.Plain)
    (labelled : item.label? = descriptor) : Resolves descriptor item.bare item := by
  cases item with
  | described contained =>
    cases labelled
    exact ⟨contained, Registry.resolve_rawBody plain.typed plain.foreign, rfl⟩
  | _ =>
    cases labelled
    rfl

/-- A value as an element behind the constructor and the descriptor that it shares. -/
theorem element_of_encodes {item : Value} {descriptor : Option Descriptor} {shared : Code}
    (sound : item.Everywhere (Sound Utf8.encode)) (labelled : item.label? = descriptor)
    (encodes : Encodes read item) (behind : Behind Utf8.encode shared item.bare) :
    Element (payload read (elementNesting item)) descriptor shared
      (element Utf8.encode shared item) item := by
  exact ⟨item.bare, encodes.element behind, resolves_bare sound.here.toPlain labelled⟩

/-- The elements of a sound array have the constructor and the descriptor that they share. That
they share them is what uniformity says; that the constructor is neither null nor described is
what the other conditions on arrays are for. -/
theorem array_elements (reads : ∀ name, read (Utf8.encode name) = .ok name) {items : List Value}
    (sound : (Value.array items).Everywhere (Sound Utf8.encode))
    (each : ∀ item ∈ items, Encodes read item) :
    ∃ descriptor, Constructor read (arrayHead Utf8.encode items) descriptor
        (sharedCode Utf8.encode (items.map Value.bare)) ∧
      ∀ item ∈ items, Behind Utf8.encode (sharedCode Utf8.encode (items.map Value.bare)) item.bare ∧
        Element (payload read (elementNesting item)) descriptor
          (sharedCode Utf8.encode (items.map Value.bare))
          (element Utf8.encode (sharedCode Utf8.encode (items.map Value.bare)) item) item := by
  cases items with
  | nil => exact ⟨none, @Constructor.plain read .null (by decide), fun _ => nofun⟩
  | cons first rest =>
    obtain ⟨descriptor, kind, notDescribed, same⟩ := sound.here.uniform
    have notNull : kind ≠ .null := by
      intro null
      have firstKind := (same first List.mem_cons_self).2
      rw [null] at firstKind
      exact sound.here.noNull first List.mem_cons_self (Value.eq_null_of_kind firstKind)
    have behind (item : Value) (member : item ∈ first :: rest) :
        Behind Utf8.encode (sharedCode Utf8.encode ((first :: rest).map Value.bare)) item.bare := by
      refine behind_sharedCode notNull notDescribed (fun other found => ?_)
        (List.mem_map_of_mem member)
      obtain ⟨item, member, rfl⟩ := List.mem_map.mp found
      exact (same item member).2
    refine ⟨descriptor, ?_, fun item member => ⟨behind item member, ?_⟩⟩
    · have labelled := (same first List.mem_cons_self).1
      have local' := (sound.element (@List.mem_cons_self _ first rest)).here
      have plain := (behind first List.mem_cons_self).ne_described
      rw [arrayHead]
      simp only [List.head?_cons, Option.bind_some, labelled]
      cases first with
      | described contained =>
        cases labelled
        exact .described (coded_label reads local'.fits.descriptor) plain
      | _ =>
        cases labelled
        exact .plain plain
    · exact element_of_encodes (sound.element member) (same item member).1 (each item member)
        (behind item member)

/-- Elements that are encoded each on its own are a sequence of elements. -/
theorem sequence_elements {descriptor : Option Descriptor} {shared : Code} {items : List Value}
    (each : ∀ item ∈ items, Element (payload read (elementNesting item)) descriptor shared
      (element Utf8.encode shared item) item) :
    Sequence (Element (payload read (elementNestings items)) descriptor shared)
      (elements Utf8.encode shared items) items := by
  rw [elements_eq]
  apply Sequence.flatMap
  intro item member
  obtain ⟨body, word, resolves⟩ := each item member
  exact ⟨body, payload_mono (elementNesting_le_elementNestings member) word, resolves⟩

end Sequences

/-- The body of a described value needs no more levels than its raw body as an element. An empty
list is where the two differ: by itself it is a constructor, and as an element it is a container.
-/
theorem bodyNesting_le_rawNesting {described : Described}
    (plain : described.rawBody.kind ≠ .described) :
    bodyNesting described ≤ rawNesting described := by
  have single (value : Value) (plain : value.kind ≠ .described) :
      nesting value ≤ elementNesting value := by
    cases value with
    | list items =>
      rw [nesting, elementNesting]
      split <;> omega
    | described contained => exact absurd rfl plain
    | _ => exact Nat.le_refl _
  cases described with
  | composite form slots =>
    rw [bodyNesting, rawNesting]
    split <;> omega
  | content portion body => exact single body plain
  | unknown descriptor body => exact single body plain

section Described

variable {described : Described}
  (sound : (Value.described described).Everywhere (Sound Utf8.encode))
  (each : ∀ value ∈ described.contents, Encodes read value)

include sound each

/-- The body of a described value is encoded as its raw body. The list of slots is cut behind the
last set one, and a composite without fields is the empty list. -/
theorem coded_bodyEncoding :
    Encoding read (bodyNesting described) (bodyEncoding Utf8.encode described)
      described.rawBody := by
  cases described with
  | content portion body => exact (each body List.mem_cons_self).whole
  | unknown descriptor body => exact (each body List.mem_cons_self).whole
  | composite form slots =>
    have typed : Field.readAll form.fields slots = .ok slots := sound.here.typed
    rw [bodyEncoding, bodyNesting]
    cases fields : form.fields with
    | nil =>
      rw [fields] at typed
      cases typed
      exact ⟨.list0, [], rfl, .scalar .list0⟩
    | cons field rest =>
      rw [fields] at typed
      have fits := sound.here.fits
      rw [Fits, ← length_slotEncodings typed] at fits
      have sequence := @sequence_slotEncodings (Encoding read (nestings slots)) _ _ typed
        (fun slot member => (each slot member).whole.mono (nesting_le_nestings member))
        (fun member => coded_noSymbols (nesting_le_nestings member)) (setSlots slots)
      have counted : (slots.take (setSlots slots)).length = setSlots slots := by
        rw [List.length_take, Nat.min_eq_left (setSlots_le slots)]
      have coded := @coded_listContainer read _ _ _ (needsWideList (field :: rest) slots)
        sequence fits
      rw [counted] at coded
      exact coded

/-- A described value is encoded as its descriptor and its raw body. -/
theorem coded_described (reads : ∀ name, read (Utf8.encode name) = .ok name) :
    Encoding read (nesting (.described described)) (encoding Utf8.encode (.described described))
      (.described described) :=
  ⟨.described, _, rfl, .described rfl (coded_label reads sound.here.fits.descriptor)
    (coded_bodyEncoding sound each)
    (Registry.resolve_rawBody sound.here.typed sound.here.foreign)⟩

/-- A described value is an element as its raw body. The slots of a composite are written as
values here, and not as their types show them. -/
theorem payload_rawElement {shared : Code}
    (behind : Behind Utf8.encode shared described.rawBody) :
    payload read (rawNesting described) shared (rawElement Utf8.encode shared described)
      described.rawBody := by
  cases described with
  | content portion body => exact (each body List.mem_cons_self).payload behind
  | unknown descriptor body => exact (each body List.mem_cons_self).payload behind
  | composite form slots =>
    obtain rfl : shared = .list32 := behind
    have sequence := sequence_encodings
      (fun slot member => each slot (List.mem_of_mem_take member))
      (nestings_take_le (setSlots slots) slots)
    have fits := sound.here.fits
    rw [Fits, firstEncodings_eq] at fits
    rw [← element_rawBody]
    exact .list rfl rfl rfl sequence fits

end Described

/-- A sound value has its canonical encoding, and is an element of arrays. The induction is on
the value and carries both halves, since an array needs its parts as elements and a described
value needs its slots in both ways. -/
theorem encodes_of_sound (reads : ∀ name, read (Utf8.encode name) = .ok name) (value : Value)
    (sound : value.Everywhere (Sound Utf8.encode)) : Encodes read value := by
  induction value using Value.induction with
  | simple value simple =>
    have fits := sound.here.fits
    constructor
    · rw [encoding_of_isSimple simple, nesting_of_isSimple simple]
      exact coded_simpleEncoding reads simple fits
    · intro shared behind
      rw [bare_of_isSimple simple] at behind ⊢
      rw [element_of_isSimple simple, elementNesting_of_isSimple simple]
      exact payload_simplePayload reads simple fits behind
  | list items inductionHypothesis =>
    have each (item : Value) (member : item ∈ items) : Encodes read item :=
      inductionHypothesis item member (sound.item member)
    have sequence := sequence_encodings each (Nat.le_refl _)
    constructor
    · rw [encoding, nesting]
      cases items with
      | nil => exact ⟨.list0, [], rfl, .scalar .list0⟩
      | cons item rest => exact coded_listContainer false sequence sound.here.fits
    · intro shared behind
      obtain rfl : shared = .list32 := behind
      exact .list rfl rfl rfl sequence sound.here.fits
  | map entries inductionHypothesis =>
    have each (entry : Value × Value) (member : entry ∈ entries) :
        Encodes read entry.1 ∧ Encodes read entry.2 :=
      ⟨(inductionHypothesis entry member).1 (sound.key member),
        (inductionHypothesis entry member).2 (sound.mapped member)⟩
    have sequence := sequence_entryEncodings each
    constructor
    · exact coded_mapContainer sequence sound.here.fits
    · intro shared behind
      obtain rfl : shared = .map32 := behind
      rw [element, Nat.mul_comm]
      exact .map rfl rfl rfl sequence sound.here.fits
  | array items inductionHypothesis =>
    have each (item : Value) (member : item ∈ items) : Encodes read item :=
      inductionHypothesis item member (sound.element member)
    obtain ⟨descriptor, constructor', shares⟩ := array_elements reads sound each
    have sequence := sequence_elements fun item member => (shares item member).2
    have few := length_le_elements fun item member => (shares item member).1
    have paid : items.length ≤ (arrayHead Utf8.encode items ++
        elements Utf8.encode (sharedCode Utf8.encode (items.map Value.bare)) items).length := by
      rw [List.length_append]
      omega
    constructor
    · exact coded_arrayContainer constructor' sequence paid sound.here.fits
    · intro shared behind
      obtain rfl : shared = .array32 := behind
      exact .array rfl rfl rfl constructor' sequence sound.here.fits paid
  | described contained inductionHypothesis =>
    have each (value : Value) (member : value ∈ contained.contents) : Encodes read value :=
      inductionHypothesis value member (sound.contents member)
    constructor
    · exact coded_described sound each reads
    · intro shared behind
      exact payload_rawElement sound each behind

/-- An array of symbols is an encoding of the array, also if it has none. Then it has a
constructor of symbols where the array itself would have that of null. -/
theorem coded_symbolArray (reads : ∀ name, read (Utf8.encode name) = .ok name)
    {names : List String}
    (checked : (Value.array (names.map .symbol)).Everywhere (Checked Utf8.encode)) :
    Encoding read (nesting (.array (names.map .symbol))) (symbolArray names)
      (.array (names.map .symbol)) := by
  cases names with
  | nil => exact coded_noSymbols (Nat.le_refl _)
  | cons name names =>
    have plain : (Value.array ((name :: names).map .symbol)).Everywhere Value.Plain := by
      refine .of_array ⟨trivial, trivial⟩ fun item member => ?_
      obtain ⟨_, _, rfl⟩ := List.mem_map.mp member
      exact Value.plain_of_isSimple rfl
    rw [@symbolArray_cons Utf8.encode]
    exact (encodes_of_sound reads _
      fun part inside => ⟨plain part inside, checked part inside⟩).whole

/-- A sound described value is its descriptor and its raw body. Whether the descriptor finds a
form does not matter for this. -/
theorem coded_parts (reads : ∀ name, read (Utf8.encode name) = .ok name) {described : Described}
    (sound : (Value.described described).Everywhere (Sound Utf8.encode)) :
    Coded (Label read) (label described.descriptor) described.descriptor ∧
      Encoding read (bodyNesting described) (bodyEncoding Utf8.encode described)
        described.rawBody := by
  constructor
  · exact coded_label reads sound.here.fits.descriptor
  · apply coded_bodyEncoding sound
    intro value member
    exact encodes_of_sound reads value (sound.contents member)

end Amqp.Canonical
