import Amqp.Proofs.Encoder.Atomicity
import Amqp.Proofs.Encoder.Layout
import Amqp.Proofs.Encoder.Recursion

/-!
# No defect comes up

The writers refuse what cannot be written. Besides, they take a few things for granted: that an
array element is of a kind that has an element form, that a composite has as many slots as are
written of it, that a container is not closed in front of the place where it was opened, and that
only bytes are patched or moved that stand in the sink already. Each of these is a defect in the
model if it is not so. None of them comes up, for no value and no text hook.

What rules a defect out stands far from it. That elements have an element form is found out when
their array is laid out, before any of them is written, and of described elements it is found out
from bodies that are read back. That containers are closed behind the place where they were opened
rests on the fact that everything in between only appends.

The same fact gives what is said of prefixes: a prefix that is filled in at the end holds the size
and the count as they are, whatever its width.
-/

namespace Amqp.Encoder

variable {α β : Type} {write : Emit α}

/-- A computation that is never stopped by a defect. -/
def Flawless (write : Emit α) : Prop :=
  ∀ state defect after, write state ≠ .error (.defect defect) after

section Combinators

/-- Giving a result is not stopped. -/
theorem flawless_pure (result : α) : Flawless (pure result) := nofun

/-- Writing bytes is not stopped. -/
theorem flawless_put (bytes : Bytes) : Flawless (put bytes) := nofun

/-- A refusal is no defect. -/
theorem flawless_refuse (error : Error) : Flawless (refuse error : Emit α) := nofun

/-- Asking the hook is not stopped. -/
theorem flawless_ask (hook : TextEncoder) (text : String) : Flawless (ask hook text) := nofun

/-- Computations in a row. The second one may rely on what the first one came to, so that what is
found in laying out an array is at hand when its elements are written. -/
theorem Flawless.bind_of {next : α → Emit β} (first : Flawless write)
    (second : ∀ state result after, write state = .ok result after → Flawless (next result)) :
    Flawless (write >>= next) := by
  intro state defect after stopped
  cases ran : write state with
  | ok result between =>
    rw [bind_of_ok ran] at stopped
    exact second state result between ran between defect after stopped
  | error failure between =>
    rw [bind_of_error ran] at stopped
    cases stopped
    exact first state defect _ ran

/-- Computations in a row. -/
theorem Flawless.bind {next : α → Emit β} (first : Flawless write)
    (second : ∀ result, Flawless (next result)) : Flawless (write >>= next) :=
  first.bind_of fun _ result _ _ => second result

/-- Cutting back after a failure does not turn it into a defect. -/
theorem Flawless.atomic (flawless : Flawless write) : Flawless (atomic write) := by
  intro state defect after stopped
  rw [Encoder.atomic, orCutBack] at stopped
  cases ran : write state with
  | ok result between =>
    rw [ran] at stopped
    cases stopped
  | error failure between =>
    rw [ran] at stopped
    cases stopped
    exact flawless state defect _ ran

/-- The single steps are not stopped, so nothing that is written step by step is. -/
theorem stepwise_flawless : Stepwise @Flawless where
  pure := flawless_pure
  refuse := flawless_refuse
  put := flawless_put
  ask := flawless_ask
  bind := Flawless.bind

end Combinators

section Containers

/-- Bytes that hold a number in some width, and hold it whole. -/
structure Holds (width number : Nat) (bytes : Bytes) : Prop where
  length : bytes.length = width
  value : Bytes.beValue bytes = number

/-- A number that fits a width is held whole by its bytes. -/
theorem holds_be {width number : Nat} (fits : number < 256 ^ width) :
    Holds width number (Bytes.be width number) :=
  ⟨Bytes.length_be width number, by rw [Bytes.beValue_be, Nat.mod_eq_of_lt fits]⟩

/-- A prefix in front of some content, of a width: it holds the size of what follows the size,
and the count of elements. -/
def Framed (width count : Nat) (content bytes : Bytes) : Prop :=
  ∃ size counted, Holds width (width + content.length) size ∧ Holds width count counted ∧
    bytes = size ++ counted ++ content

/-- The frame of some content is a prefix in front of it if its numbers fit. -/
theorem framed_frame {width count : Nat} {content : Bytes}
    (size : width + content.length < 256 ^ width) (few : count < 256 ^ width) :
    Framed width count content (Grammar.frame width count content) :=
  ⟨_, _, holds_be size, holds_be few, rfl⟩

variable {narrow : Code} {count : Nat}

/-- Closing a container that was filled either refuses it or puts a prefix in front of its
content. The prefix may be narrow or wide, and in either width it holds the size and the count.
-/
theorem cases_closeContainer (wide : Bool) (category : narrow.category = .compound 1)
    (sink : Sink) (content : Bytes) (asked : List String) :
    closeContainer ⟨sink.written, narrow⟩ count wide
        ⟨sink.put (narrow.toByte :: 0 :: 0 :: content), asked⟩ =
      .error (.refused .tooLong) ⟨sink.put (narrow.toByte :: 0 :: 0 :: content), asked⟩ ∨
    ∃ (code : Code) (width : Nat) (framed : Bytes), code.category = .compound width ∧
      Framed width count content framed ∧
      closeContainer ⟨sink.written, narrow⟩ count wide
          ⟨sink.put (narrow.toByte :: 0 :: 0 :: content), asked⟩ =
        .ok () ⟨sink.put (code.toByte :: framed), asked⟩ := by
  by_cases short : wide = false ∧ content.length < 255 ∧ count ≤ 255
  · exact .inr ⟨narrow, 1, _, category, framed_frame (by omega) (by omega),
      closeContainer_short rfl short⟩
  · by_cases fits : 4 + content.length < 256 ^ 4 ∧ count < 256 ^ 4
    · have widened : narrow.widen.category = .compound 4 := by
        cases narrow <;> first | rfl | cases category
      refine .inr ⟨narrow.widen, 4, _, widened, framed_frame fits.1 fits.2, ?_⟩
      rw [closeContainer_long rfl short, if_pos fits]
    · refine .inl ?_
      rw [closeContainer_long rfl short, if_neg fits]

variable {write : Emit Unit}

/-- What has been begun is filled and closed without being stopped if filling is not stopped, and
closing is not behind any content. What fills it appends, so the closing finds the front as it
was left. -/
theorem ne_defect_of_filled {close : Emit Unit} {sink : Sink} {front : Bytes}
    (appends : Appends write) (flawless : Flawless write)
    (closes : ∀ content asked defect after,
      close ⟨sink.put (front ++ content), asked⟩ ≠ .error (.defect defect) after)
    (asked : List String) (defect : Defect) (after : State) :
    (do write; close) ⟨sink.put front, asked⟩ ≠ .error (.defect defect) after := by
  intro stopped
  cases ran : write ⟨sink.put front, asked⟩ with
  | error failure behind =>
    rw [bind_of_error ran] at stopped
    cases stopped
    exact flawless _ defect _ ran
  | ok _ behind =>
    obtain ⟨content, asked', rfl⟩ := appends.eq_put ran
    rw [bind_of_ok ran, Sink.put_put] at stopped
    exact closes content asked' defect after stopped

/-- A container of something that only appends and is not stopped. Its mark stands in front of
all that is written, so the size that is computed from it is never negative. -/
theorem flawless_container (count : Nat) (wide : Bool) (category : narrow.category = .compound 1)
    (appends : Appends write) (flawless : Flawless write) :
    Flawless (do
      let mark ← openContainer narrow
      write
      closeContainer mark count wide) := by
  intro state
  rw [bind_of_ok (openContainer_eq narrow state)]
  refine ne_defect_of_filled appends flawless (fun content asked defect after stopped => ?_)
    state.asked
  rcases @cases_closeContainer narrow count wide category state.sink content asked with
    closed | ⟨_, _, _, _, _, closed⟩
  · cases closed.symm.trans stopped
  · cases closed.symm.trans stopped

/-- The body of a container without a constructor of something that only appends and is not
stopped. -/
theorem flawless_putWideBody (count : Nat) (appends : Appends write) (flawless : Flawless write) :
    Flawless (putWideBody count write) := by
  intro state defect after
  by_cases few : count < 256 ^ 4
  · rw [putWideBody_eq few]
    refine ne_defect_of_filled appends flawless (fun content asked defect after => ?_) state.asked
      defect after
    rw [patch_wideBody rfl]
    split <;> nofun
  · rw [putWideBody_of_ge (Nat.le_of_not_lt few)]
    nofun

/-- An array of symbols. -/
theorem flawless_putSymbolArray (names : List String) : Flawless (putSymbolArray names) :=
  flawless_container names.length false rfl
    ((appends_put _).bind fun _ => stepwise_appends.putSymbolElements _ _)
    ((flawless_put _).bind fun _ => stepwise_flawless.putSymbolElements _ _)

end Containers

section Values

/-- A writer of raw bodies that is not stopped behind a constructor that can be shared. -/
def FlawlessBodies (below : BodyWriter) : Prop :=
  ∀ hook shared value, Shares shared value → Flawless (below hook shared value)

/-- What is to be shown of a value: that it is written without being stopped, also as an element
behind a constructor that it can share, and as an element that may be described, if what is written
then can share the constructor. -/
structure FlawlessValue (below : BodyWriter) (value : Value) : Prop where
  whole (hook : TextEncoder) : Flawless (writeValue below hook value)
  asElement (hook : TextEncoder) {shared : Code} :
    Shares shared value → Flawless (writeElement below hook shared value)
  asHeld (hook : TextEncoder) {shared : Code} :
    Shares shared (held rawFound value) → Flawless (writeHeld below rawFound hook shared value)

variable {below : BodyWriter} {hook : TextEncoder} {items : List Value}

/-- A value that is not described is the same as an element, where it may be described. -/
theorem FlawlessValue.of_element {value : Value} (plain : value.kind ≠ .described)
    (whole : ∀ hook, Flawless (writeValue below hook value))
    (asElement : ∀ hook {shared}, Shares shared value →
      Flawless (writeElement below hook shared value)) : FlawlessValue below value := by
  refine ⟨whole, asElement, fun hook shared shares => ?_⟩
  cases value with
  | described contained => exact absurd rfl plain
  | _ => exact asElement hook shares

/-- Items one after the other. -/
theorem flawless_writeItems (hook : TextEncoder)
    (each : ∀ item ∈ items, FlawlessValue below item) :
    Flawless (writeItems below hook items) := by
  rw [writeItems_eq_putEach]
  exact stepwise_flawless.putEach fun item member => ((each item member).whole hook).atomic

/-- Keys and values one after the other. -/
theorem flawless_writeEntries (hook : TextEncoder) {entries : Entries} (each : ∀ entry ∈ entries,
    FlawlessValue below entry.1 ∧ FlawlessValue below entry.2) :
    Flawless (writeEntries below hook entries) := by
  rw [writeEntries_eq_putEach]
  refine stepwise_flawless.putEach fun entry member => ?_
  obtain ⟨key, mapped⟩ := each entry member
  exact (key.whole hook).atomic.bind fun _ => (mapped.whole hook).atomic

/-- As many slots as there are at most, one after the other. More would be a defect. -/
theorem flawless_writeSlots (hook : TextEncoder) {slots : List Value}
    (each : ∀ slot ∈ slots, FlawlessValue below slot) (fields : List Field) {count : Nat}
    (within : count ≤ slots.length) : Flawless (writeSlots below hook fields count slots) := by
  induction slots generalizing fields count with
  | nil =>
    rw [writeSlots, if_pos (Nat.le_zero.mp within)]
    exact flawless_pure ()
  | cons slot rest inductionHypothesis =>
    obtain ⟨first, later⟩ := List.forall_mem_cons.mp each
    cases count with
    | zero => exact flawless_pure ()
    | succ count =>
      have others := inductionHypothesis later fields.tail (Nat.le_of_succ_le_succ within)
      rw [writeSlots]
      split
      · exact (flawless_putSymbolArray _).atomic.bind fun _ => others
      · exact (first.whole hook).atomic.bind fun _ => others

/-- Elements that can share a constructor, one after the other. -/
theorem flawless_writeElements (hook : TextEncoder) {shared : Code}
    (each : ∀ item ∈ items, FlawlessValue below item)
    (shares : ∀ item ∈ items, Shares shared item) :
    Flawless (writeElements below hook shared items) := by
  rw [writeElements_eq_putEach]
  exact stepwise_flawless.putEach fun item member =>
    (each item member).asElement hook (shares item member)

/-- Raw bodies that can share a constructor, one after the other. -/
theorem flawless_writeRawElements (hook : TextEncoder) {shared : Code}
    (each : ∀ item ∈ items, FlawlessValue below item)
    (described : ∀ item ∈ items, item.kind = .described)
    (shares : ∀ item ∈ items, Shares shared (held rawFound item)) :
    Flawless (writeRawElements below hook shared (items.map (held rawFound)) items) := by
  rw [writeRawElements_eq_held described]
  exact stepwise_flawless.putEach fun item member =>
    (each item member).asHeld hook (shares item member)

/-- Finding the parts of a described value is not stopped if writing it is not. Reading back can
fail, but a failure of the reader is a refusal. -/
theorem rawParts_ne_defect {described : Described} {write : Emit Unit} (flawless : Flawless write)
    (defect : Defect) : rawParts described write ≠ .error (.defect defect) := by
  intro stopped
  unfold rawParts at stopped
  split at stopped
  · cases stopped
  · split at stopped
    · next failure state ran =>
      cases stopped
      exact flawless.atomic _ defect state ran
    · split at stopped <;> cases stopped

/-- Finding raw bodies is not stopped. Elements are written to find them, and a failure of that
is handed on as it is. -/
theorem rawBodies_ne_defect (each : ∀ item ∈ items, FlawlessValue below item)
    (shared : Option Descriptor) (front : List Value) (defect : Defect) :
    rawBodies below shared front items ≠ .error (.defect defect) := by
  induction items generalizing shared front with
  | nil => exact nofun
  | cons item rest inductionHypothesis =>
    obtain ⟨first, later⟩ := List.forall_mem_cons.mp each
    cases item with
    | described contained =>
      intro stopped
      rw [rawBodies] at stopped
      split at stopped
      · next failure parts =>
        cases stopped
        exact rawParts_ne_defect (first.whole .strict) defect parts
      · split at stopped
        · cases stopped
        · exact inductionHypothesis later _ _ stopped
    | _ => intro stopped; cases stopped

/-- A layout is found, or the elements are refused. The search itself runs into no element
without an element form, since it writes none. -/
theorem flawless_arrayLayout (hook : TextEncoder)
    (each : ∀ item ∈ items, FlawlessValue below item) :
    Flawless (arrayLayout hook items fun _ => rawBodies below none [] items) := by
  have plain : Flawless (do return ArrayLayout.mk (← elementCode hook items) none) :=
    (stepwise_flawless.elementCode hook items).bind fun _ => flawless_pure _
  cases items with
  | nil => exact plain
  | cons first rest =>
    cases first with
    | described contained =>
      rw [arrayLayout]
      cases parts : rawBodies below none [] (.described contained :: rest) with
      | error failure =>
        intro state defect after stopped
        cases stopped
        exact rawBodies_ne_defect each none [] defect parts
      | ok found => exact (stepwise_flawless.elementCode hook _).bind fun _ => flawless_pure _
    | _ => exact plain

/-- What an array holds is written without being stopped in a layout of its elements. Every
element, or raw body of one, can share the constructor of the layout, and so it has an element
form. -/
theorem flawless_putArrayPayload (hook : TextEncoder)
    (each : ∀ item ∈ items, FlawlessValue below item) {layout : ArrayLayout}
    (lays : LaysOut rawFound items layout) :
    Flawless (putArrayPayload layout (fun code => writeElements below hook code items)
      fun code bodies => writeRawElements below hook code bodies items) := by
  obtain ⟨code, raw⟩ := layout
  obtain ⟨⟨label, rfl, labelled⟩, shares, _⟩ := lays
  cases label with
  | none =>
    refine (flawless_put _).bind fun _ => flawless_writeElements hook each fun item member => ?_
    have held := shares item member
    rwa [held_of_plain (labelled item member)] at held
  | some descriptor =>
    refine (flawless_put _).bind fun _ => (stepwise_flawless.putDescriptor descriptor).bind fun _ =>
      (flawless_put _).bind fun _ => flawless_writeRawElements hook each (fun item member => ?_)
        shares
    exact kind_of_label (labelled item member)

/-- A described value is written without being stopped if what it contains is. Of a composite the
slots up to the last set one are written, and these are no more than it has. -/
theorem flawless_writeDescribed (appends : AppendsBodies below) (hook : TextEncoder)
    {contained : Described} (each : ∀ value ∈ contained.contents, FlawlessValue below value) :
    Flawless (writeDescribed below hook contained) := by
  cases contained with
  | composite form slots =>
    have filled := flawless_writeSlots hook each form.fields (Canonical.setSlots_le slots)
    have appended := appends_writeSlots (fun slot (_ : slot ∈ slots) =>
      appendsValue appends hook slot) form.fields (setSlots slots)
    exact stepwise_flawless.labelled (.code form.code)
      (holds_ite (flawless_put _) (flawless_container _ _ rfl appended filled))
  | content portion body =>
    have body := (each body List.mem_cons_self).whole hook
    exact stepwise_flawless.labelled (.code portion.code) (holds_ite body.atomic body)
  | unknown descriptor body =>
    exact stepwise_flawless.labelled descriptor
      ((each body List.mem_cons_self).whole hook).atomic

/-- No value is stopped, given a writer of raw bodies that is not. The induction is on the value.
In an array, the layout that was found is what the elements rely on, whatever the hook answers
later. -/
theorem flawlessValue {levels : Nat} (reaches : Reaches levels below)
    (appends : AppendsBodies below) (bodies : FlawlessBodies below) (value : Value) :
    FlawlessValue below value := by
  induction value using Value.induction with
  | simple value simple =>
    refine .of_element ?_ (fun hook => stepwise_flawless.writeValue_simple below hook simple)
      fun hook shared shares => stepwise_flawless.writeElement_simple below hook shared simple
        fun null => absurd (congrArg Value.kind null) shares.ne_null
    intro kind
    cases value with
    | described contained => cases simple
    | _ => cases kind
  | list items each =>
    have written (hook : TextEncoder) := appends_writeItems fun item (_ : item ∈ items) =>
      appendsValue appends hook item
    refine .of_element nofun (fun hook => ?_) fun hook shared _ =>
      flawless_putWideBody _ (written hook) (flawless_writeItems hook each)
    cases items with
    | nil => exact flawless_put _
    | cons item rest =>
      exact flawless_container _ false rfl (written hook) (flawless_writeItems hook each)
  | map entries each =>
    have written (hook : TextEncoder) := appends_writeEntries fun entry (_ : entry ∈ entries) =>
      ⟨appendsValue appends hook entry.1, appendsValue appends hook entry.2⟩
    exact .of_element nofun
      (fun hook => flawless_container _ false rfl (written hook) (flawless_writeEntries hook each))
      fun hook shared _ =>
        flawless_putWideBody _ (written hook) (flawless_writeEntries hook each)
  | array items each =>
    have sound : PartsSound below rawFound items := fun described _ parts found =>
      eq_of_foundParts ((recurses reaches (.described described)).whole Utf8.encode) found
    have written (hook : TextEncoder) (layout : ArrayLayout) := appends_putArrayPayload layout
      (appends_writeElements fun item (_ : item ∈ items) => appendsValue appends hook item)
      (appends_writeRawElements appends fun item (_ : item ∈ items) =>
        appendsValue appends hook item)
    have payload (hook : TextEncoder) {layout : ArrayLayout}
        (lays : LaysOut rawFound items layout) :=
      flawless_putArrayPayload hook each lays
    exact .of_element nofun
      (fun hook => (flawless_arrayLayout hook each).bind_of fun state layout after ran =>
        flawless_container _ false rfl (written hook layout)
          (payload hook (laysOut_of_arrayLayout sound ran)))
      fun hook shared _ => (flawless_arrayLayout hook each).bind_of fun state layout after ran =>
        flawless_putWideBody _ (written hook layout)
          (payload hook (laysOut_of_arrayLayout sound ran))
  | described contained each =>
    refine ⟨fun hook => flawless_writeDescribed appends hook each,
      fun hook shared shares => shares.elim, fun hook shared shares => ?_⟩
    cases contained with
    | unknown descriptor body => exact (each body List.mem_cons_self).asElement hook shares
    | _ => exact bodies hook shared _ shares

end Values

/-- The writers of raw bodies are not stopped, as far down as the usual reader goes. -/
theorem flawlessBodies_bodyWriter {levels : Nat} (few : levels ≤ defaultMaxDepth) :
    FlawlessBodies (bodyWriter levels) := by
  induction levels with
  | zero => exact fun _ _ _ _ => flawless_refuse _
  | succ levels inductionHypothesis =>
    intro hook shared value shares
    have fewer := Nat.le_of_succ_le few
    exact (flawlessValue (reaches_bodyWriter fewer) (appendsBodies_bodyWriter levels)
      (inductionHypothesis fewer) value).asElement hook shares

/-- No value is stopped when it is written in the usual way. -/
theorem flawlessValue_standard (value : Value) : FlawlessValue standardBodies value :=
  flawlessValue (reaches_bodyWriter (Nat.le_refl _)) (appendsBodies_bodyWriter _)
    (flawlessBodies_bodyWriter (Nat.le_refl _)) value

/-- A value that is written as its type shows it is not stopped. Where the value is not of the
type, it is written as it is. -/
theorem flawless_writeAs (hook : TextEncoder) (type : Ty) (value : Value) :
    Flawless (writeAs hook type value) := by
  have direct (value : Value) := (flawlessValue_standard value).whole hook
  induction type generalizing value with
  | any => exact (direct value).atomic
  | symbols =>
    cases value with
    | array items => exact flawless_putSymbolArray _
    | _ => exact direct _
  | typedMap keys values inductionHypothesis =>
    cases value with
    | map entries =>
      refine flawless_container _ false rfl (stepwise_appends.putEach fun entry _ => ?_)
        (stepwise_flawless.putEach fun entry _ => (direct entry.1).bind fun _ =>
          inductionHypothesis entry.2)
      exact (appendsValue_standard hook entry.1).whole.bind fun _ =>
        appends_writeAs hook values entry.2
    | _ => exact direct _
  | optional inner inductionHypothesis =>
    cases value with
    | null => exact flawless_put _
    | _ => exact inductionHypothesis _
  | kinds | forms => exact direct value

/-- Whatever is written with a text hook, no defect comes up. Of a composite no more slots may be
asked for than there are. -/
structure Unstopped (hook : TextEncoder) : Prop where
  value (value : Value) : Flawless (encodeValue hook value)
  typed (type : Ty) (value : Value) : Flawless (encodeAs hook type value)
  direct (value : Value) : Flawless (encodeDirect hook value)
  symbols (names : List String) : Flawless (putSymbolArray names)
  labelled (descriptor : Descriptor) (body : Value) :
    Flawless (encodeDescribedValue hook descriptor body)
  labelledAs (descriptor : Descriptor) (type : Ty) (body : Value) :
    Flawless (describeAs hook descriptor type body)
  slots (form : Composite) {slots : List Value} {count : Nat} :
    count ≤ slots.length → Flawless (encodeSlots hook form slots count)
  raw (described : Described) (defect : Defect) : raw described ≠ .error (.defect defect)

/-- No defect comes up with any text hook, whichever entry point is used. -/
theorem unstopped (hook : TextEncoder) : Unstopped hook := by
  have direct (value : Value) := (flawlessValue_standard value).whole hook
  exact {
    value := fun value => (direct value).atomic
    typed := fun type value => (flawless_writeAs hook type value).atomic
    direct := direct
    symbols := flawless_putSymbolArray
    labelled := fun descriptor body =>
      stepwise_flawless.labelled descriptor (direct body).atomic
    labelledAs := fun descriptor type body =>
      stepwise_flawless.labelled descriptor (flawless_writeAs hook type body)
    slots := fun form _ _ within =>
      flawless_writeSlots hook (fun slot _ => flawlessValue_standard slot) form.fields within
    raw := fun described => rawParts_ne_defect
      ((flawlessValue_standard (.described described)).whole .strict) }

/-- Sizes, counts and lengths are in their prefixes as they are, if what they are of is written at
all. This is said of each of the writers of prefixes, for whatever is written between or behind. -/
structure Lossless : Prop where
  container {narrow : Code} {count : Nat} {wide : Bool} {write : Emit Unit} {state after : State} :
    narrow.category = .compound 1 → Appends write →
    (do
      let mark ← openContainer narrow
      write
      closeContainer mark count wide) state = .ok () after →
    ∃ (code : Code) (width : Nat) (content framed : Bytes) (inside : State),
      write { state with sink := state.sink.put [narrow.toByte, 0, 0] } = .ok () inside ∧
      inside.sink = (state.sink.put [narrow.toByte, 0, 0]).put content ∧
      code.category = .compound width ∧ Framed width count content framed ∧
      after.sink = state.sink.put (code.toByte :: framed)
  body {count : Nat} {write : Emit Unit} {state after : State} :
    Appends write → putWideBody count write state = .ok () after →
    ∃ (content framed : Bytes) (inside : State),
      write { state with sink := state.sink.put (Bytes.be 4 0 ++ Bytes.be 4 count) } =
        .ok () inside ∧
      inside.sink = (state.sink.put (Bytes.be 4 0 ++ Bytes.be 4 count)).put content ∧
      Framed 4 count content framed ∧ after.sink = state.sink.put framed
  payload {narrow : Code} {payload : Bytes} {state after : State} :
    narrow.category = .variable 1 → putPayload narrow payload state = .ok () after →
    ∃ (code : Code) (width : Nat) (length : Bytes),
      code.category = .variable width ∧ Holds width payload.length length ∧
      after.sink = state.sink.put (code.toByte :: length ++ payload)
  element {shared : Code} {payload : Bytes} {state after : State} :
    putElementPayload shared payload state = .ok () after →
    ∃ length, Holds (Canonical.lengthWidth shared) payload.length length ∧
      after.sink = state.sink.put (length ++ payload)

/-- Prefixes lose nothing. A frame is known to hold its numbers whole if they fit, and no writer
of a prefix succeeds if they do not. -/
theorem lossless : Lossless where
  container {narrow count wide write state after} category appends ran := by
    rw [bind_of_ok (openContainer_eq narrow state)] at ran
    obtain ⟨_, inside, wrote, ran⟩ := ok_of_bind ran
    obtain ⟨content, asked, rfl⟩ := appends.eq_put wrote
    simp only [Sink.put_put] at ran
    rcases @cases_closeContainer narrow count wide category state.sink content asked with
      closed | ⟨code, width, framed, wider, holds, closed⟩
    · cases closed.symm.trans ran
    · cases closed.symm.trans ran
      exact ⟨code, width, content, framed, _, wrote, rfl, wider, holds, rfl⟩
  body {count write state after} appends ran := by
    by_cases few : count < 256 ^ 4
    · rw [putWideBody_eq few] at ran
      obtain ⟨_, inside, wrote, ran⟩ := ok_of_bind ran
      obtain ⟨content, asked, rfl⟩ := appends.eq_put wrote
      simp only [Sink.put_put] at ran
      have closed := @patch_wideBody content
        ⟨state.sink.put (Bytes.be 4 0 ++ Bytes.be 4 count ++ content), asked⟩ state.sink count rfl
      replace ran := closed.symm.trans ran
      split at ran
      · next fits =>
        cases ran
        exact ⟨content, _, _, wrote, rfl, framed_frame fits few, rfl⟩
      · cases ran
    · rw [putWideBody_of_ge (Nat.le_of_not_lt few)] at ran
      cases ran
  payload {narrow payload state after} category ran := by
    obtain ⟨fits, _, appended⟩ := (writes_putPayload narrow payload).sound ran
    unfold Canonical.measured at appended
    split at appended
    · next short =>
      exact ⟨narrow, 1, _, category, holds_be short, appended⟩
    · have widened : narrow.widen.category = .variable 4 := by
        cases narrow <;> first | rfl | cases category
      exact ⟨narrow.widen, 4, _, widened, holds_be fits, appended⟩
  element {shared payload state after} ran := by
    obtain ⟨fits, _, appended⟩ := (writes_putElementPayload shared payload).sound ran
    exact ⟨_, holds_be fits, appended⟩

end Amqp.Encoder
