import Amqp.Proofs.Decoder.Consumption
import Amqp.Proofs.Decoder.Nesting

/-!
# What is read is paid for

A few bytes never make many values. Constructors without a payload are the danger: one such
constructor in front of an array stands for any number of elements. But a container announces
no more elements than bytes, and where the elements take none, the shared constructor has to
take the bytes that were announced. So a value read from some bytes has at most two nodes for
each byte.

The induction is on the payloads of the grammar. A payload with bytes pays for two nodes with
each of them, and one without bytes, for two nodes in all. One of these is left over in each case,
because a single symbol in the place of a list of symbols makes two nodes of one.
-/

namespace Amqp

mutual

/-- The nodes of a value: itself, and those of the values that it contains. -/
def Value.nodes : Value → Nat
  | .list items => allNodes items + 1
  | .map entries => entryNodes entries + 1
  | .array items => allNodes items + 1
  | .described contained => contained.nodes + 1
  | _ => 1
termination_by structural value => value

/-- The nodes of what a described value contains: the fields that are present, the content of
a section, or the body. -/
def Described.nodes : Described → Nat
  | .composite _ slots => slotNodes slots
  | .content _ body => body.nodes
  | .unknown _ body => body.nodes
termination_by structural contained => contained

/-- The nodes of some values together. -/
def allNodes : List Value → Nat
  | [] => 0
  | item :: rest => item.nodes + allNodes rest
termination_by structural items => items

/-- The nodes of some keys and values together. -/
def entryNodes : Entries → Nat
  | [] => 0
  | (key, value) :: rest => key.nodes + value.nodes + entryNodes rest
termination_by structural entries => entries

/-- The nodes of the slots that are set. -/
def slotNodes : List Value → Nat
  | [] => 0
  | slot :: rest => if slot.isNull then slotNodes rest else slot.nodes + slotNodes rest
termination_by structural slots => slots

end

section Types

/-- A value that contains no values is one node. -/
theorem Value.nodes_of_isSimple {value : Value} (simple : value.isSimple = true) :
    value.nodes = 1 := by
  cases value <;> first | rfl | cases simple

section Sums

-- The zero that an empty sum comes to is the literal, whatever else is imported.
attribute [local instance (2000)] Zero.ofOfNat0

/-- Entries have the nodes of their keys and values. -/
theorem entryNodes_eq (entries : Entries) :
    entryNodes entries = (entries.map fun entry => entry.1.nodes + entry.2.nodes).sum := by
  induction entries with
  | nil => rfl
  | cons entry rest inductionHypothesis =>
    rw [entryNodes, inductionHypothesis, List.map_cons, List.sum_cons]

/-- A pair that is inserted adds its weight at most. Where its key is already there, the weight
of the old value goes, which is why this is no equation. -/
theorem TypedMap.sum_insert_le {κ β : Type} [DecidableEq κ] (weight : κ × β → Nat) (key : κ)
    (value : β) (built : List (κ × β)) :
    ((TypedMap.insert key value built).map weight).sum ≤
      weight (key, value) + (built.map weight).sum := by
  induction built with
  | nil => simp [TypedMap.insert]
  | cons pair rest inductionHypothesis =>
    obtain ⟨present, old⟩ := pair
    rw [TypedMap.insert]
    split
    · next same =>
      subst same
      simp only [List.map_cons, List.sum_cons]
      omega
    · simp only [List.map_cons, List.sum_cons]
      omega

/-- A typed map weighs no more than the pairs that it is made of. Of pairs with one key only the
last value is kept. -/
theorem TypedMap.sum_ofPairs_le {κ β : Type} [DecidableEq κ] (weight : κ × β → Nat)
    (pairs : List (κ × β)) :
    ((TypedMap.ofPairs pairs).map weight).sum ≤ (pairs.map weight).sum := by
  have general (built : List (κ × β)) :
      ((pairs.foldl (fun built pair => TypedMap.insert pair.1 pair.2 built) built).map
        weight).sum ≤ (built.map weight).sum + (pairs.map weight).sum := by
    induction pairs generalizing built with
    | nil => exact Nat.le_refl _
    | cons pair rest inductionHypothesis =>
      have bound := inductionHypothesis (TypedMap.insert pair.1 pair.2 built)
      have first : _ ≤ weight pair + _ := TypedMap.sum_insert_le weight pair.1 pair.2 built
      simp only [List.foldl_cons, List.map_cons, List.sum_cons]
      omega
  simpa [TypedMap.ofPairs] using general []

end Sums

/-- What a flat type makes of a value has no more nodes, unless it is a list of one symbol, which
has one node more than the symbol it was made of. -/
theorem Value.ReadAs.nodes_le {value shown : Value} (made : value.ReadAs shown) :
    shown.nodes ≤ value.nodes ∨ ∃ name, value = .symbol name ∧ shown = .array [.symbol name] := by
  cases made with
  | same => exact .inl (Nat.le_refl _)
  | single name => exact .inr ⟨name, rfl, rfl⟩
  | typedMap pairs =>
    have bound := TypedMap.sum_ofPairs_le
      (fun pair => pair.1.toValue.nodes + pair.2.nodes) pairs
    refine .inl (Nat.succ_le_succ ?_)
    rw [entryNodes_eq, entryNodes_eq, List.map_map, List.map_map]
    exact bound

/-- The slots that are made of some values have a node more than each of these, at most. The one
node more is that of a list of symbols that is made of a single symbol, and a field can be such a
list. A field without a value is unset and has no nodes. -/
theorem Field.slotNodes_le_of_readAll {fields : List Field} {values slots : List Value}
    (flat : ∀ field ∈ fields, field.type.isFlat = true)
    (read : Field.readAll fields values = .ok slots) :
    slotNodes slots ≤ allNodes values + values.length := by
  induction fields generalizing values slots with
  | nil =>
    cases read
    exact Nat.zero_le _
  | cons field fields inductionHypothesis =>
    obtain ⟨slot, later, rfl, shown, others⟩ := Field.readAll_cons_eq_ok_iff.mp read
    obtain ⟨here, further⟩ := List.forall_mem_cons.mp flat
    have bound := inductionHypothesis further others
    rw [slotNodes]
    cases values with
    | nil =>
      rcases Field.cases_of_read shown with ⟨_, rfl⟩ | ⟨set, _⟩
      · exact bound
      · exact absurd rfl set
    | cons value rest =>
      rw [allNodes, List.length_cons]
      simp only [List.tail_cons] at bound
      split
      · omega
      · next present =>
        rcases Field.cases_of_read shown with ⟨_, rfl⟩ | ⟨_, made⟩
        · exact absurd rfl present
        · rcases (Ty.readAs_of_read here made).nodes_le with fewer | ⟨name, same, rfl⟩
          · simp only [List.headD_cons] at fewer
            omega
          · change value = .symbol name at same
            subst same
            change 2 + _ ≤ 1 + _ + _
            omega

end Types

/-- A value that is paid for: there is a node to spare, and if it is a list, one for each of its
items as well. -/
structure Value.Paid (budget : Nat) (value : Value) : Prop where
  whole : value.nodes + 1 ≤ budget
  listed {items : List Value} : value = .list items → allNodes items + items.length + 1 ≤ budget

namespace Value.Paid

variable {budget : Nat}

/-- A value that contains no values costs two. -/
theorem of_simple {value : Value} (simple : value.isSimple = true) : value.Paid 2 := by
  constructor
  · exact Nat.le_of_eq (congrArg (· + 1) (nodes_of_isSimple simple))
  · rintro items rfl
    cases simple

/-- What is paid for is so with more. -/
theorem mono {value : Value} {more : Nat} (paid : value.Paid budget) (le : budget ≤ more) :
    value.Paid more :=
  ⟨Nat.le_trans paid.whole le, fun same => Nat.le_trans (paid.listed same) le⟩

/-- A described value that is found in the registry costs what its body costs. A list of fields
is where the nodes for its items are spent: each of them may become a list of symbols. -/
theorem nodes_of_resolve {descriptor : Descriptor} {body : Value} {described : Described}
    (resolved : Registry.standard.resolve descriptor body = .ok described)
    (paid : body.Paid budget) : described.nodes + 1 ≤ budget := by
  rcases Registry.resolve_eq_ok_iff.mp resolved with ⟨_, rfl⟩ |
    ⟨form, values, slots, _, rfl, read, rfl⟩ | ⟨portion, content, _, read, rfl⟩
  · exact paid.whole
  · have bound := Field.slotNodes_le_of_readAll (fun _ => Composite.isFlat_of_mem) read
    have listed := paid.listed rfl
    change slotNodes slots + 1 ≤ budget
    omega
  · have flat : portion.type.isFlat = true := by cases portion <;> rfl
    have kept := Section.kind_of_read read
    rcases (Ty.readAs_of_read flat read).nodes_le with fewer | ⟨name, rfl, rfl⟩
    · have whole := paid.whole
      change content.nodes + 1 ≤ budget
      omega
    · cases kept

end Value.Paid

namespace Grammar

variable {inside : Code → Bytes → Value → Prop} {text : TextDecoder}

/-- What some bytes pay for behind a constructor: two nodes with each of them, and two if there
are none. -/
def budget (content : Bytes) : Nat := max 2 (2 * content.length)

/-- Payloads stand for values that they pay for, and take no bytes behind the constructors
without a payload only. -/
structure Pays (inside : Code → Bytes → Value → Prop) : Prop where
  paid {code : Code} {content : Bytes} {value : Value} :
    inside code content value → value.Paid (budget content)
  nil_iff {code : Code} {content : Bytes} {value : Value} :
    inside code content value → (content = [] ↔ code.category = .fixed 0)

namespace Pays

variable (pays : Pays inside)

include pays

/-- A constructor and a payload pay for a value. -/
theorem coded {bytes : Bytes} {value : Value} (coded : Coded inside bytes value) :
    value.Paid (2 * bytes.length) := by
  obtain ⟨code, content, rfl, word⟩ := coded
  apply (pays.paid word).mono
  rw [budget, List.length_cons]
  omega

/-- The items of a sequence cost a node less each than is paid for them. -/
theorem items {content : Bytes} {items : List Value}
    (sequence : Sequence (Coded inside) content items) :
    allNodes items + items.length ≤ 2 * content.length := by
  induction sequence with
  | nil => exact Nat.le_refl 0
  | cons first _ inductionHypothesis =>
    have paid := (pays.coded first).whole
    rw [allNodes, List.length_cons, List.length_append]
    omega

/-- The keys and values of a sequence are paid for. -/
theorem entries {content : Bytes} {entries : Entries}
    (sequence : Sequence (Paired (Coded inside)) content entries) :
    entryNodes entries ≤ 2 * content.length := by
  induction sequence with
  | nil => exact Nat.le_refl 0
  | cons first _ inductionHypothesis =>
    obtain ⟨front, back, rfl, key, value⟩ := first
    have keyPaid := (pays.coded key).whole
    have valuePaid := (pays.coded value).whole
    rw [entryNodes]
    simp only [List.length_append]
    omega

variable {descriptor : Option Descriptor} {shared : Code} {content : Bytes}

/-- An element behind a shared constructor costs what its body costs. -/
theorem element {value : Value} (element : Element inside descriptor shared content value) :
    value.nodes ≤ budget content := by
  obtain ⟨body, word, resolves⟩ := element
  have paid := pays.paid word
  cases descriptor with
  | none =>
    obtain rfl : value = body := resolves
    exact Nat.le_of_succ_le paid.whole
  | some descriptor =>
    obtain ⟨described, resolved, rfl⟩ := resolves
    exact Value.Paid.nodes_of_resolve resolved paid

variable {members : List Value}
  (sequence : Sequence (Element inside descriptor shared) content members)

include sequence

/-- Elements that take bytes are paid for with these. -/
theorem members_of_payload (filled : shared.category ≠ .fixed 0) :
    allNodes members ≤ 2 * content.length := by
  induction sequence with
  | nil => exact Nat.le_refl 0
  | @cons front back _ _ first _ inductionHypothesis =>
    obtain ⟨body, word, _⟩ := id first
    have positive := List.length_pos_iff.mpr (mt (pays.nil_iff word).mp filled)
    have paid := pays.element first
    rw [budget] at paid
    rw [allNodes, List.length_append]
    omega

/-- Elements that take no bytes cost two each. Such an element is a value of no width or a
described value around one, and so has two nodes at most. -/
theorem members_of_empty (empty : shared.category = .fixed 0) :
    content = [] ∧ allNodes members ≤ 2 * members.length := by
  induction sequence with
  | nil => exact ⟨rfl, Nat.le_refl 0⟩
  | cons first _ inductionHypothesis =>
    obtain ⟨body, word, _⟩ := id first
    obtain rfl := (pays.nil_iff word).mpr empty
    have paid : _ ≤ 2 := pays.element first
    obtain ⟨rfl, bound⟩ := inductionHypothesis
    rw [allNodes, List.length_cons]
    exact ⟨rfl, by omega⟩

/-- The elements of an array are paid for with the bytes that the container announces, because
there are no more of them than such bytes. -/
theorem array {front : Bytes} (paid : members.length ≤ (front ++ content).length) :
    allNodes members ≤ 2 * (front ++ content).length := by
  by_cases empty : shared.category = .fixed 0
  · have bound := (pays.members_of_empty sequence empty).2
    omega
  · have bound := pays.members_of_payload sequence empty
    rw [List.length_append]
    omega

end Pays

/-- A prefix of a container is not empty. -/
theorem length_frame (width count : Nat) (content : Bytes) :
    (frame width count content).length = 2 * width + content.length := by
  simp only [frame, List.length_append, Bytes.length_be]
  omega

/-- The width of a prefix is not zero. -/
theorem width_pos {code : Code} {width : Nat} (category : code.category = .compound width) :
    0 < width := by
  cases code <;> simp [Code.category] at category <;> omega

/-- A payload pays for its value if those one level further down do. The cases are the rules of
the grammar. A container is paid for by its prefix, which is at least two bytes, and by what its
elements take; an array of elements without bytes is paid for by the bytes of the constructor
that they share, because the announced number is no more than these. -/
theorem Payload.paid {below : Option (Code → Bytes → Value → Prop)}
    (deeper : ∀ inside, below = some inside → Pays inside) {code : Code} {content : Bytes}
    {value : Value} (word : Payload text below code content value) :
    value.Paid (budget content) := by
  have least : 2 ≤ budget content := Nat.le_max_left _ _
  cases word with
  | scalar scalar =>
    refine Value.Paid.mono ?_ least
    cases scalar with
    | list0 => exact ⟨Nat.le_refl 2, fun same => by cases same; exact Nat.le_succ 1⟩
    | _ => exact .of_simple rfl
  | binary | string | symbol => exact (Value.Paid.of_simple rfl).mono least
  | @list _ width _ content items category _ level sequence =>
    have paid := (deeper _ level).items sequence
    have positive := width_pos category
    have length := length_frame width items.length content
    refine ⟨?_, fun same => ?_⟩
    · rw [Value.nodes, budget]
      omega
    · cases same
      rw [budget]
      omega
  | @map _ width _ content entries category _ level sequence =>
    have paid := (deeper _ level).entries sequence
    have positive := width_pos category
    have length := length_frame width (2 * entries.length) content
    refine ⟨?_, nofun⟩
    rw [Value.nodes, budget]
    omega
  | noArray category => exact ⟨least, nofun⟩
  | @array _ _ width _ front content _ items category _ level _ sequence _ counted =>
    have paid := (deeper _ level).array sequence counted
    have positive := width_pos category
    have length := length_frame width items.length (front ++ content)
    refine ⟨?_, nofun⟩
    rw [Value.nodes, budget]
    omega
  | @described _ front back _ _ described level label encoded resolved =>
    have paid := Value.Paid.nodes_of_resolve resolved ((deeper _ level).coded encoded)
    have positive := List.length_pos_iff.mpr label.ne_nil
    refine ⟨?_, nofun⟩
    rw [Value.nodes, budget, List.length_append]
    omega

/-- Payloads pay for their values if those one level further down do. Besides, a payload is empty
only behind a constructor of no width. -/
theorem Payload.pays {below : Option (Code → Bytes → Value → Prop)}
    (deeper : ∀ inside, below = some inside → Pays inside) : Pays (Payload text below) where
  paid word := word.paid deeper
  nil_iff {code content value} word := by
    constructor
    · intro empty
      by_cases fixed : code.category = .fixed 0
      · exact fixed
      · exact absurd empty (word.ne_nil fixed)
    · intro empty
      exact List.eq_nil_of_length_eq_zero (word.length_of_fixed empty)

/-- Payloads within any levels pay for their values. -/
theorem pays_payload (text : TextDecoder) (levels : Nat) : Pays (payload text levels) := by
  induction levels with
  | zero => exact Payload.pays nofun
  | succ levels inductionHypothesis =>
    apply Payload.pays
    intro inside level
    cases level
    exact inductionHypothesis

/-- A value has at most two nodes for each byte of an encoding. -/
theorem Encoding.nodes_le {levels : Nat} {bytes : Bytes} {value : Value}
    (encoding : Encoding text levels bytes value) : value.nodes ≤ 2 * bytes.length :=
  Nat.le_of_succ_le ((pays_payload text levels).coded encoding).whole

end Grammar

namespace Decoder

variable {σ : Type}

/-- Results that are collected are as many as the computation is repeated. -/
theorem length_of_collect {α : Type} {compute : Fetch σ α} {times : Nat} {earlier results : List α}
    {source after : σ} (ran : collect compute times earlier source = .ok results after) :
    results.length = earlier.length + times := by
  induction times generalizing earlier source with
  | zero =>
    cases ran
    exact List.length_reverse
  | succ times inductionHypothesis =>
    obtain ⟨result, middle, _, later⟩ := ok_of_bind ran
    have length := inductionHypothesis later
    rw [List.length_cons] at length
    omega

variable [Source σ] {settings : DecoderSettings} {inner : Inner σ Value} {width : Nat}
  {source middle behind after : σ} {header : Header}

/-- An accepted prefix announces no more elements than bytes. The check is made before any
element is read, so a reader never loops longer than what was announced, even on a stream on
which nothing of it has arrived. -/
theorem count_le_of_readHeader (ran : readHeader width source = .ok header after) :
    header.count ≤ header.size := by
  rw [readHeader_eq] at ran
  obtain ⟨declared, _, _, ran⟩ := ok_of_bind ran
  obtain ⟨_, _, _, ran⟩ := ok_of_bind ran
  obtain ⟨_, _, _, ran⟩ := ok_of_bind ran
  obtain ⟨count, _, _, ran⟩ := ok_of_bind ran
  obtain ⟨_, _, checked, ran⟩ := ok_of_bind ran
  cases ran
  by_cases more : declared - width < count
  · rw [if_pos more] at checked
    cases checked
  · exact Nat.le_of_not_lt more

/-- What was consumed is what was announced if the check of a container succeeds. -/
theorem size_of_checkConsumed {kind : Kind} {start : Nat} {result : Unit}
    (ran : checkConsumed kind header start source = .ok result after) :
    Source.position source - start = header.size := by
  by_cases same : Source.position source - start = header.size
  · exact same
  · have failed : checkConsumed kind header start source =
        .error (.sizeMismatch kind header.size (Source.position source - start)) source := by
      change (if _ then _ else _ : Fetch σ Unit) source = _
      rw [if_pos same]
      rfl
    rw [failed] at ran
    cases ran

/-- An array of elements without a payload has no more of them than its constructor has bytes.
They take nothing, so that the content is consumed in full, which is checked, means that the
constructor took all of what was announced, and more elements than bytes are not announced. -/
theorem length_le_of_readArray {descriptor : Option Descriptor} {code : Code}
    {items : List Value} (announced : readHeader width source = .ok header middle)
    (shared : readArrayConstructor settings middle = .ok (descriptor, code) behind)
    (empty : code.category = .fixed 0)
    (ran : readArray settings inner width source = .ok (.array items) after) :
    items.length ≤ Source.position behind - Source.position middle := by
  unfold readArray at ran
  rw [bind_of_ok announced] at ran
  have counted := count_le_of_readHeader announced
  split at ran
  · cases ran
    exact Nat.zero_le _
  · rw [bind_of_ok (rfl : Source.getPosition middle = .ok (Source.position middle) middle)] at ran
    obtain ⟨collected, last, inside, ran⟩ := ok_of_bind ran
    obtain ⟨_, _, _, ran⟩ := ok_of_bind ran
    cases ran
    cases inner with
    | none => cases inside
    | some decode =>
      change (readArrayConstructor settings >>= _) middle = _ at inside
      rw [bind_of_ok shared] at inside
      simp only [if_pos empty] at inside
      obtain ⟨_, _, checked, elements⟩ := ok_of_bind inside
      have size := size_of_checkConsumed checked
      have length := length_of_collect elements
      rw [List.length_nil] at length
      omega

/-- Nothing comes of a source, whatever its state, that it was not paid for: at most two nodes
for each byte that is consumed, no prefix that announces more elements than bytes, and no more
elements without a payload than their constructor has bytes. -/
structure Economical (σ : Type) [Source σ] (settings : DecoderSettings) : Prop where
  value {source after : σ} {value : Value} : decodeValue settings source = .ok value after →
    ∃ consumed, Source.position after = Source.position source + consumed ∧
      value.nodes ≤ 2 * consumed
  prefixes {width : Nat} {source after : σ} {header : Header} :
    readHeader width source = .ok header after → header.count ≤ header.size
  arrays {inner : Inner σ Value} {width : Nat} {source middle behind after : σ} {header : Header}
    {descriptor : Option Descriptor} {code : Code} {items : List Value} :
    readHeader width source = .ok header middle →
    readArrayConstructor settings middle = .ok (descriptor, code) behind →
    code.category = .fixed 0 → readArray settings inner width source = .ok (.array items) after →
    items.length ≤ Source.position behind - Source.position middle

/-- A source is economical if the values that are read from it are encoded in what it
counts. -/
theorem economical_of_consumes (consumes : Consumes
    (Grammar.Encoding settings.text settings.maxDepth) (decodeValue settings : Fetch σ Value)) :
    Economical σ settings where
  value ran := by
    obtain ⟨word, position, encoding⟩ := consumes ran
    exact ⟨word.length, position, encoding.nodes_le⟩
  prefixes := count_le_of_readHeader
  arrays := length_le_of_readArray

/-- Nothing is amplified, neither from a buffer nor from a stream over any reader, and in any
state of them: a value has at most two nodes for each byte that it took, no prefix announces more
elements than bytes, and elements without a payload are no more than the bytes of their
constructor.

Proof: A value that is read is encoded in the bytes that the source has counted, whatever the
reader does. The bound is then one on encodings, by induction on the levels of the grammar, where
each rule spends the bytes of its own prefix. -/
theorem decodeValue_economical (settings : DecoderSettings) :
    Economical Buffer settings ∧ Economical Stream settings :=
  ⟨economical_of_consumes (consumes_decodeValue_buffer settings),
    economical_of_consumes (consumes_decodeValue_stream settings)⟩

end Decoder

end Amqp
