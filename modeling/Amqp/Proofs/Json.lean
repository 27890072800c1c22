import Amqp.Proofs.Json.Numeral
import Amqp.Proofs.Value.Parts

/-!
# What is shown as JSON is JSON

The grammar of JSON is stated here for texts as lists of characters, with no spaces between the
tokens because none are written. A value is shown as a text of the grammar whenever it is shown at
all, whatever is inside: texts with quotes, control characters or any other characters, numbers of
every size, and described values whose bodies are read back first.

A quoted text is stated together with the text that it spells, because well-formedness would not
tell one text from another. Every character is spelled in one of four ways, no spelling begins as
another does, and so a quoted text spells one text only.
-/

namespace Amqp.Json

section Quoting

/-- The characters that a backslash and a letter stand for. -/
def shortEscapes : List (Char × Char) :=
  [('"', '"'), ('\\', '\\'), ('/', '/'), ('b', '\x08'), ('f', '\x0c'), ('n', '\n'), ('r', '\r'),
    ('t', '\t')]

/-- The hexadecimal digits in the order of their values. -/
def hexDigits : List Char :=
  ['0', '1', '2', '3', '4', '5', '6', '7', '8', '9', 'a', 'b', 'c', 'd', 'e', 'f']

/-- A hexadecimal digit, in lowercase or in uppercase. -/
def IsHex (char : Char) : Prop := char.toLower ∈ hexDigits

/-- The number that hexadecimal digits stand for, most significant first. -/
def hexValue (digits : List Char) : Nat :=
  digits.foldl (fun value digit => 16 * value + hexDigits.idxOf digit.toLower) 0

/-- What stands between the quotes of a string, and the text that it spells. -/
inductive Spells : List Char → List Char → Prop
  | done : Spells [] []
  | plain {char : Char} {body text : List Char} (quote : char ≠ '"') (backslash : char ≠ '\\')
      (control : 0x20 ≤ char.toNat) (rest : Spells body text) :
      Spells (char :: body) (char :: text)
  | short {letter char : Char} {body text : List Char} (named : (letter, char) ∈ shortEscapes)
      (rest : Spells body text) : Spells ('\\' :: letter :: body) (char :: text)
  | unicode {first second third fourth char : Char} {body text : List Char}
      (hex : ∀ digit ∈ [first, second, third, fourth], IsHex digit)
      (value : hexValue [first, second, third, fourth] = char.toNat) (rest : Spells body text) :
      Spells ('\\' :: 'u' :: first :: second :: third :: fourth :: body) (char :: text)

/-- A digit that is written is a hexadecimal digit of its value. -/
theorem hexDigit_spec : ∀ digit < 16, (Bytes.hexDigit digit).toLower ∈ hexDigits ∧
    hexDigits.idxOf (Bytes.hexDigit digit).toLower = digit := by
  decide

/-- The two digits of a byte behind two zeros are its number. Control characters are bytes, so no
other number is ever spelled. -/
theorem hexValue_hexByte (byte : UInt8) :
    (∀ digit ∈ '0' :: '0' :: Bytes.hexByte byte, IsHex digit) ∧
      hexValue ('0' :: '0' :: Bytes.hexByte byte) = byte.toNat := by
  have bound := byte.toNat_lt
  obtain ⟨high, first⟩ := hexDigit_spec (byte.toNat / 16) (by omega)
  obtain ⟨low, second⟩ := hexDigit_spec (byte.toNat % 16) (by omega)
  constructor
  · simp only [Bytes.hexByte, List.forall_mem_cons]
    exact ⟨List.mem_cons_self, List.mem_cons_self, high, low, nofun⟩
  · simp only [hexValue, Bytes.hexByte, List.foldl_cons, List.foldl_nil, first, second]
    have zero : hexDigits.idxOf ('0' : Char).toLower = 0 := rfl
    omega

/-- A character is spelled by its form inside a quoted text. The cases are those of the writer:
seven characters have a letter, the other control characters have their number, and all others
stand for themselves. -/
theorem spells_escape (char : Char) {body text : List Char} (rest : Spells body text) :
    Spells (escape char ++ body) (char :: text) := by
  have numbered {other : Char} (number : char.toNat = other.toNat) : char = other :=
    Char.toNat_inj.mp number
  unfold escape
  split
  · next quote => subst quote; exact .short (by decide) rest
  split
  · next backslash => subst backslash; exact .short (by decide) rest
  split
  · next line => subst line; exact .short (by decide) rest
  split
  · next back => subst back; exact .short (by decide) rest
  split
  · next tab => subst tab; exact .short (by decide) rest
  split
  · next backspace =>
    obtain rfl : char = '\x08' := numbered backspace
    exact .short (by decide) rest
  split
  · next feed =>
    obtain rfl : char = '\x0c' := numbered feed
    exact .short (by decide) rest
  split
  · next control =>
    obtain ⟨hex, value⟩ := hexValue_hexByte (UInt8.ofNat char.toNat)
    have small : (UInt8.ofNat char.toNat).toNat = char.toNat :=
      UInt8.toNat_ofNat_of_lt' (Nat.lt_trans control (by decide))
    rw [small] at value
    exact .unicode hex value rest
  · next quote backslash _ _ _ _ _ control =>
    exact .plain quote backslash (Nat.le_of_not_lt control) rest

/-- A text is spelled by the forms of its characters in a row. -/
theorem spells_flatMap (text : List Char) : Spells (text.flatMap escape) text := by
  induction text with
  | nil => exact .done
  | cons char rest inductionHypothesis => exact spells_escape char inductionHypothesis

/-- What stands between quotes spells one text only. The first character of a spelling, and the
one behind a backslash, tell the four ways apart, and no letter stands for two characters. -/
theorem Spells.unique {body text other : List Char} (spells : Spells body text)
    (spells' : Spells body other) : text = other := by
  have function : ∀ one ∈ shortEscapes, ∀ other ∈ shortEscapes,
      one.1 = other.1 → one.2 = other.2 := by decide
  have letters : ∀ one ∈ shortEscapes, one.1 ≠ 'u' := by decide
  induction spells generalizing other with
  | done => cases spells'; rfl
  | plain quote backslash control rest inductionHypothesis =>
    cases spells' with
    | plain _ _ _ rest' => rw [inductionHypothesis rest']
    | short => exact absurd rfl backslash
    | unicode => exact absurd rfl backslash
  | short named rest inductionHypothesis =>
    cases spells' with
    | plain _ backslash => exact absurd rfl backslash
    | short named' rest' =>
      rw [inductionHypothesis rest']
      exact congrArg (· :: _) (function _ named _ named' rfl)
    | unicode => exact absurd rfl (letters _ named)
  | unicode hex value rest inductionHypothesis =>
    cases spells' with
    | plain _ backslash => exact absurd rfl backslash
    | short named' => exact absurd rfl (letters _ named')
    | unicode _ value' rest' =>
      rw [inductionHypothesis rest', Char.toNat_inj.mp (value.symm.trans value')]

/-- A quoted text between its quotes. -/
theorem toList_quote (text : String) :
    (quote text).toList = '"' :: text.toList.flatMap escape ++ ['"'] := String.toList_ofList

/-- Different texts are quoted differently, as what stands between the quotes spells one of them
only. -/
theorem quote_inj {text other : String} : quote text = quote other ↔ text = other := by
  constructor
  · intro same
    have quoted := congrArg String.toList same
    rw [toList_quote, toList_quote, List.append_left_inj, List.cons_inj_right] at quoted
    exact String.toList_inj.mp ((spells_flatMap text.toList).unique (quoted ▸ spells_flatMap _))
  · exact congrArg quote

end Quoting

section Grammar

/-- A quoted text of JSON. -/
inductive IsString : List Char → Prop
  | mk {body text : List Char} (spells : Spells body text) : IsString ('"' :: body ++ ['"'])

mutual

/-- A text of JSON without spaces between its tokens. -/
inductive IsText : List Char → Prop
  | null : IsText ['n', 'u', 'l', 'l']
  | yes : IsText ['t', 'r', 'u', 'e']
  | no : IsText ['f', 'a', 'l', 's', 'e']
  | number {text : List Char} {number : ℚ} (numeral : Numeral text number) : IsText text
  | string {text : List Char} (string : IsString text) : IsText text
  | array {items : List (List Char)} (each : ∀ item ∈ items, IsText item) :
      IsText ('[' :: [','].intercalate items ++ [']'])
  | object {members : List (List Char)} (each : ∀ member ∈ members, IsMember member) :
      IsText ('\x7b' :: [','].intercalate members ++ ['\x7d'])

/-- A member of an object: its name and its value. -/
inductive IsMember : List Char → Prop
  | mk {name value : List Char} (string : IsString name) (inside : IsText value) :
      IsMember (name ++ ':' :: value)

end

/-- A quoted text is a string of JSON. -/
theorem isString_quote (text : String) : IsString (quote text).toList := by
  rw [toList_quote]
  exact .mk (spells_flatMap _)

/-- A bracketed list of texts is an array. -/
theorem isText_bracket {parts : List String} (each : ∀ part ∈ parts, IsText part.toList) :
    IsText (bracket parts).toList := by
  have list : (bracket parts).toList =
      '[' :: [','].intercalate (parts.map String.toList) ++ [']'] := by
    simp [bracket, String.toList_intercalate]
  rw [list]
  exact .array (List.forall_mem_map.mpr each)

/-- A name and a value are shown as a member. -/
theorem isMember_of_parts {name value : String} (string : IsString name.toList)
    (inside : IsText value.toList) : IsMember (name ++ ":" ++ value).toList := by
  have parts : (name ++ ":" ++ value).toList = name.toList ++ ':' :: value.toList := by simp
  exact parts ▸ .mk string inside

/-- A braced list of members is an object. -/
theorem isText_brace {parts : List String} (each : ∀ part ∈ parts, IsMember part.toList) :
    IsText (brace parts).toList := by
  have list : (brace parts).toList =
      '\x7b' :: [','].intercalate (parts.map String.toList) ++ ['\x7d'] := by
    simp [brace, String.toList_intercalate]
  rw [list]
  exact .object (List.forall_mem_map.mpr each)

/-- A descriptor is shown as a number or as a string. -/
theorem isText_ofDescriptor (descriptor : Descriptor) :
    IsText (ofDescriptor descriptor).toList := by
  cases descriptor with
  | code number => exact .number (.plain (unsigned_toString number.toNat))
  | symbol name => exact .string (isString_quote name)

/-- A descriptor and a body are shown as an object. -/
theorem isText_object (descriptor : Descriptor) {body : String} (inside : IsText body.toList) :
    IsText (object descriptor body).toList := by
  refine isText_brace (List.forall_mem_cons.mpr ⟨?_, List.forall_mem_singleton.mpr ?_⟩)
  · exact isMember_of_parts (isString_quote _) (isText_ofDescriptor descriptor)
  · exact isMember_of_parts (isString_quote _) inside

/-- A byte string is shown as an array of numbers. -/
theorem isText_ofBytes (bytes : Bytes) : IsText (ofBytes bytes).toList :=
  isText_bracket (List.forall_mem_map.mpr fun _ _ => .number (.plain (unsigned_toString _)))

/-- A floating point number is shown as a number, or as null if it is none. -/
theorem isText_ofFloat (format : FloatFormat) (bits : Nat) :
    IsText (ofFloat format bits).toList := by
  unfold ofFloat
  cases shown : format.text? bits with
  | none => exact .null
  | some text => exact .number (numeral_text? shown)

/-- A floating point number is shown as a string where it is a key. -/
theorem isString_floatKey {format : FloatFormat} {bits : Nat} {text : String}
    (shown : key.floatKey format bits = .ok text) : IsString text.toList := by
  unfold key.floatKey at shown
  split at shown
  · cases shown
    exact isString_quote _
  · cases shown

/-- A key is shown as a string. This holds of every kind of value that is shown as a key at all,
numbers among them. -/
theorem isString_key {value : Value} {text : String} (shown : key value = .ok text) :
    IsString text.toList := by
  cases value with
  | float bits => exact isString_floatKey shown
  | double bits => exact isString_floatKey shown
  | described contained =>
    simp only [key] at shown
    split at shown <;> cases shown
  | null | decimal32 | decimal64 | decimal128 | binary | list | map | array => cases shown
  | boolean | ubyte | ushort | uint | ulong | byte | short | int | long | timestamp | char | string
  | symbol | uuid =>
    obtain rfl := Except.ok.inj shown
    exact isString_quote _

end Grammar

section Values

variable {below : Value → Except String String}

/-- Values are shown as texts if each of them is. They are collected in front of those that were
shown before, which is what the induction is about. -/
theorem isText_of_ofItems {items : List Value} {done parts : List String}
    (shown : ofItems below done items = .ok parts)
    (before : ∀ part ∈ done, IsText part.toList)
    (each : ∀ item ∈ items, ∀ text, ofValue below item = .ok text → IsText text.toList) :
    ∀ part ∈ parts, IsText part.toList := by
  induction items generalizing done with
  | nil =>
    cases shown
    exact fun part member => before part (List.mem_reverse.mp member)
  | cons item rest inductionHypothesis =>
    rw [ofItems] at shown
    split at shown
    · cases shown
    · next text found =>
      refine inductionHypothesis shown (List.forall_mem_cons.mpr ⟨?_, before⟩) fun other member =>
        each other (List.mem_cons_of_mem _ member)
      exact each item List.mem_cons_self text found

/-- Pairs are shown as members if the value of each is shown as a text. The key needs no
assumption: it contains no values. -/
theorem isMember_of_ofEntries {entries : Entries} {done parts : List String}
    (shown : ofEntries below done entries = .ok parts)
    (before : ∀ part ∈ done, IsMember part.toList)
    (each : ∀ entry ∈ entries, ∀ text, ofValue below entry.2 = .ok text → IsText text.toList) :
    ∀ part ∈ parts, IsMember part.toList := by
  induction entries generalizing done with
  | nil =>
    cases shown
    exact fun part member => before part (List.mem_reverse.mp member)
  | cons entry rest inductionHypothesis =>
    rw [ofEntries] at shown
    split at shown
    · cases shown
    · next name string =>
      split at shown
      · cases shown
      · next text found =>
        refine inductionHypothesis shown (List.forall_mem_cons.mpr ⟨?_, before⟩) fun other member =>
          each other (List.mem_cons_of_mem _ member)
        exact isMember_of_parts (isString_key string) (each entry List.mem_cons_self text found)

/-- A described value of a known form is shown as an object, if the body that is read back is
shown as a text. The body is no part of the value, so the induction on the value does not reach
it. -/
theorem isText_of_raw {described : Described} {text : String}
    (inside : ∀ value text, below value = .ok text → IsText text.toList)
    (shown : (match Encoder.raw described with
      | .error failure => .error (failureText failure)
      | .ok (descriptor, body) => (below body).map (object descriptor)) = Except.ok text) :
    IsText text.toList := by
  split at shown
  · cases shown
  · next descriptor body found =>
    obtain ⟨part, found, rfl⟩ := map_eq_ok_iff.mp shown
    exact isText_object descriptor (inside body part found)

/-- A value is shown as a text of JSON, if the bodies that are read back are. The induction is on
the value, and what it does not reach is left to the assumption. -/
theorem isText_of_ofValue
    (inside : ∀ value text, below value = .ok text → IsText text.toList) (value : Value) :
    ∀ text, ofValue below value = .ok text → IsText text.toList := by
  induction value using Value.induction with
  | simple value simple =>
    intro text shown
    cases value with
    | list | map | array | described => cases simple
    | null =>
      obtain rfl := Except.ok.inj shown
      exact .null
    | boolean value =>
      obtain rfl := Except.ok.inj shown
      cases value <;> constructor
    | ubyte | ushort | uint | ulong =>
      obtain rfl := Except.ok.inj shown
      exact .number (.plain (unsigned_toString _))
    | byte | short | int | long | timestamp =>
      obtain rfl := Except.ok.inj shown
      exact .number (numeral_toString _)
    | float | double =>
      obtain rfl := Except.ok.inj shown
      exact isText_ofFloat _ _
    | decimal32 | decimal64 | decimal128 | binary =>
      obtain rfl := Except.ok.inj shown
      exact isText_ofBytes _
    | char | uuid | string | symbol =>
      obtain rfl := Except.ok.inj shown
      exact .string (isString_quote _)
  | list items each =>
    intro text shown
    obtain ⟨parts, found, rfl⟩ := map_eq_ok_iff.mp shown
    exact isText_bracket (isText_of_ofItems found nofun each)
  | array items each =>
    intro text shown
    obtain ⟨parts, found, rfl⟩ := map_eq_ok_iff.mp shown
    exact isText_bracket (isText_of_ofItems found nofun each)
  | map entries each =>
    intro text shown
    obtain ⟨parts, found, rfl⟩ := map_eq_ok_iff.mp shown
    exact isText_brace (isMember_of_ofEntries found nofun fun entry member => (each entry member).2)
  | described contained each =>
    intro text shown
    cases contained with
    | unknown descriptor body =>
      obtain ⟨part, found, rfl⟩ := map_eq_ok_iff.mp shown
      exact isText_object descriptor (each body List.mem_cons_self part found)
    | composite form slots => exact isText_of_raw inside shown
    | content part body => exact isText_of_raw inside shown

/-- Bodies that are read back are shown as texts, however many levels are left. With each level
the bodies inside a body have one level less, and without levels nothing is shown. -/
theorem isText_of_bodyText (levels : Nat) (value : Value) (text : String)
    (shown : bodyText levels value = .ok text) : IsText text.toList := by
  induction levels generalizing value text with
  | zero => cases shown
  | succ levels inductionHypothesis =>
    exact isText_of_ofValue inductionHypothesis value text shown

end Values

/-- Whatever is shown is a text of JSON.

Proof: Every piece is shown as the grammar has it. By induction on a value this gives the whole,
apart from the bodies that are read back, and for these by induction on their levels. -/
theorem isText_of_render {value : Value} {text : String} (shown : render value = .ok text) :
    IsText text.toList :=
  isText_of_ofValue (isText_of_bodyText defaultMaxDepth) value text shown

end Amqp.Json
