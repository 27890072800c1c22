import Amqp.Proofs.Encoder.Steps

/-!
# Whole or not at all

What a computation writes does not depend on what is in the sink. It appends, and the bytes that
it appends, its result and the questions that it asks are the same for every sink, also when it
fails. So cutting a failed computation back to where it began restores the sink, and no byte in
front of it is ever touched, although prefixes are patched and widened at every level.

This holds for hooks with a memory as well: the memory is part of what a computation starts with,
and its answers are part of what it comes to.
-/

namespace Amqp.Encoder

variable {α β : Type}

/-- What a computation comes to apart from the sink: its result, the bytes that it appends, and
the questions that are asked behind it. -/
structure Outcome (α : Type) where
  result : Except Failure α
  bytes : Bytes
  asked : List String

/-- What a computation comes to in a sink, given the rest. -/
def Outcome.into (outcome : Outcome α) (sink : Sink) : EStateM.Result Failure State α :=
  match outcome.result with
  | .ok result => .ok result ⟨sink.put outcome.bytes, outcome.asked⟩
  | .error failure => .error failure ⟨sink.put outcome.bytes, outcome.asked⟩

/-- A computation that only appends, and comes to the same whatever the sink holds. -/
def Appends (write : Emit α) : Prop :=
  ∀ asked, ∃ outcome : Outcome α, ∀ sink, write ⟨sink, asked⟩ = outcome.into sink

/-- A computation that appends the same bytes to every sink, or fails on every sink and leaves
it as it was. -/
def WholeOrNothing (write : Emit Unit) : Prop :=
  ∀ asked,
    (∃ bytes asked', ∀ sink, write ⟨sink, asked⟩ = .ok () ⟨sink.put bytes, asked'⟩) ∨
    ∃ failure asked', ∀ sink, write ⟨sink, asked⟩ = .error failure ⟨sink, asked'⟩

/-- A computation that leaves the bytes in front of it as they are, whether it succeeds or
fails. -/
def KeepsFront (write : Emit α) : Prop :=
  ∀ state, match write state with
    | .ok _ after | .error _ after =>
      after.sink.toBytes.take state.sink.written = state.sink.toBytes

section Combinators

/-- Giving a result appends nothing. -/
theorem appends_pure (result : α) : Appends (pure result) :=
  fun asked => ⟨⟨.ok result, [], asked⟩, fun sink => by
    rw [Outcome.into, Sink.put_nil]
    rfl⟩

/-- A failure appends nothing. -/
theorem appends_throw (failure : Failure) : Appends (throw failure : Emit α) :=
  fun asked => ⟨⟨.error failure, [], asked⟩, fun sink => by
    rw [Outcome.into, Sink.put_nil]
    rfl⟩

/-- Writing bytes appends them. -/
theorem appends_put (bytes : Bytes) : Appends (put bytes) :=
  fun asked => ⟨⟨.ok (), bytes, asked⟩, fun _ => rfl⟩

/-- Asking the hook appends nothing. -/
theorem appends_ask (hook : TextEncoder) (text : String) : Appends (ask hook text) :=
  fun asked => ⟨⟨.ok (hook asked text), [], text :: asked⟩, fun sink => by
    rw [Outcome.into, Sink.put_nil]
    rfl⟩

/-- Computations in a row append in a row. The first one hands on its result and the questions
that were asked, and neither depends on the sink. -/
theorem Appends.bind {write : Emit α} {next : α → Emit β} (first : Appends write)
    (second : ∀ result, Appends (next result)) : Appends (write >>= next) := by
  intro asked
  obtain ⟨⟨result, bytes, between⟩, ran⟩ := first asked
  cases result with
  | error failure => exact ⟨⟨.error failure, bytes, between⟩, fun sink => bind_of_error (ran sink)⟩
  | ok result =>
    obtain ⟨⟨final, more, after⟩, ran'⟩ := second result between
    refine ⟨⟨final, bytes ++ more, after⟩, fun sink => ?_⟩
    rw [bind_of_ok (ran sink), ran', Outcome.into, Outcome.into, Sink.put_put]

/-- The single steps append, so all that is written step by step does. Closing a container is none
of them: it looks back. -/
theorem stepwise_appends : Stepwise @Appends where
  pure := appends_pure
  refuse error := appends_throw (.refused error)
  put := appends_put
  ask := appends_ask
  bind := Appends.bind

/-- Cutting back what was appended restores the sink. -/
theorem truncate_put (sink : Sink) (bytes : Bytes) :
    (sink.put bytes).truncate sink.written = sink := by
  refine Sink.eq_of_toBytes rfl ?_
  rw [Sink.toBytes_truncate, Sink.take_toBytes_put]

/-- A computation that appends is whole or nothing once its failures are cut back. What it left
behind is exactly what it put behind the sink, whatever that was, and that is what is cut. -/
theorem Appends.atomic {write : Emit Unit} (appends : Appends write) :
    WholeOrNothing (atomic write) := by
  intro asked
  obtain ⟨⟨result, bytes, after⟩, ran⟩ := appends asked
  cases result with
  | ok result =>
    refine .inl ⟨bytes, after, fun sink => ?_⟩
    rw [Encoder.atomic, orCutBack, ran]
    rfl
  | error failure =>
    refine .inr ⟨failure, after, fun sink => ?_⟩
    rw [Encoder.atomic, orCutBack, ran]
    simp only [Outcome.into, truncate_put]

/-- What is whole or nothing appends. -/
theorem WholeOrNothing.appends {write : Emit Unit} (whole : WholeOrNothing write) :
    Appends write := by
  intro asked
  rcases whole asked with ⟨bytes, after, ran⟩ | ⟨failure, after, ran⟩
  · exact ⟨⟨.ok (), bytes, after⟩, ran⟩
  · refine ⟨⟨.error failure, [], after⟩, fun sink => ?_⟩
    rw [ran, Outcome.into, Sink.put_nil]

/-- What appends has put something behind the sink if it succeeds. Here the sink is given, so the
bytes are not said to be the same for others. -/
theorem Appends.eq_put {write : Emit α} (appends : Appends write) {state after : State}
    {result : α} (ran : write state = .ok result after) :
    ∃ bytes asked, after = ⟨state.sink.put bytes, asked⟩ := by
  obtain ⟨⟨result, bytes, asked⟩, same⟩ := appends state.asked
  have ran := (same state.sink).symm.trans ran
  cases result with
  | error failure => cases ran
  | ok result =>
    cases ran
    exact ⟨bytes, asked, rfl⟩

/-- What appends keeps the bytes in front of it, also if it fails half way. -/
theorem Appends.keepsFront {write : Emit α} (appends : Appends write) : KeepsFront write := by
  rintro ⟨sink, asked⟩
  obtain ⟨⟨result, bytes, after⟩, ran⟩ := appends asked
  rw [ran]
  cases result with
  | ok result => exact Sink.take_toBytes_put sink bytes
  | error failure => exact Sink.take_toBytes_put sink bytes

end Combinators

section Containers

variable {write : Emit Unit}

/-- What has been begun comes to the same in every sink once it is filled and closed, if filling
it and closing it do. The place where it was begun moves with the sink, so this does not follow
from appending in a row: closing looks back. -/
theorem exists_filled {close : Sink → Emit Unit} {front : Bytes} (appends : Appends write)
    (closes : ∀ content asked, ∃ outcome : Outcome Unit, ∀ sink : Sink,
      close sink ⟨sink.put (front ++ content), asked⟩ = outcome.into sink)
    (asked : List String) : ∃ outcome : Outcome Unit, ∀ sink : Sink,
      (do write; close sink) ⟨sink.put front, asked⟩ = outcome.into sink := by
  obtain ⟨⟨result, content, between⟩, ran⟩ := appends asked
  have begun (sink : Sink) : write ⟨sink.put front, asked⟩ =
      Outcome.into ⟨result, front ++ content, between⟩ sink := by
    rw [ran, Outcome.into, Outcome.into, Sink.put_put]
  cases result with
  | error failure =>
    exact ⟨⟨.error failure, front ++ content, between⟩, fun sink => bind_of_error (begun sink)⟩
  | ok result =>
    obtain ⟨outcome, closed⟩ := closes content between
    exact ⟨outcome, fun sink => (bind_of_ok (begun sink)).trans (closed sink)⟩

/-- Closing a container comes to the same in every sink that holds the same behind its mark. The
prefix is patched, or widened and patched, or the content is too long. Which of these it is, the
content and the count tell. -/
theorem exists_closeContainer (narrow : Code) (count : Nat) (wide : Bool) (content : Bytes)
    (asked : List String) : ∃ outcome : Outcome Unit, ∀ sink : Sink,
      closeContainer ⟨sink.written, narrow⟩ count wide
        ⟨sink.put (narrow.toByte :: 0 :: 0 :: content), asked⟩ = outcome.into sink := by
  by_cases short : wide = false ∧ content.length < 255 ∧ count ≤ 255
  · exact ⟨⟨.ok (), _, asked⟩, fun sink => closeContainer_short rfl short⟩
  · by_cases fits : 4 + content.length < 256 ^ 4 ∧ count < 256 ^ 4
    · refine ⟨⟨.ok (), narrow.widen.toByte :: Grammar.frame 4 count content, asked⟩,
        fun sink => ?_⟩
      rw [closeContainer_long rfl short, if_pos fits]
      rfl
    · refine ⟨⟨.error (.refused .tooLong), narrow.toByte :: 0 :: 0 :: content, asked⟩,
        fun sink => ?_⟩
      rw [closeContainer_long rfl short, if_neg fits]
      rfl

/-- A container comes to the same in every sink if what is written into it does: the mark moves
with the sink, and nothing in front of it is patched or widened. -/
theorem appends_container (narrow : Code) (count : Nat) (wide : Bool) (appends : Appends write) :
    Appends (do
      let mark ← openContainer narrow
      write
      closeContainer mark count wide) := by
  intro asked
  obtain ⟨outcome, filled⟩ := @exists_filled write
    (fun sink => closeContainer ⟨sink.written, narrow⟩ count wide) [narrow.toByte, 0, 0] appends
    (exists_closeContainer narrow count wide) asked
  exact ⟨outcome, fun sink => (bind_of_ok (openContainer_eq narrow _)).trans (filled sink)⟩

/-- A container without a constructor comes to the same in every sink if what is written into it
does. Its size is patched into the gap that was left for it, and too many items are refused
before any is written. -/
theorem appends_putWideBody (count : Nat) (appends : Appends write) :
    Appends (putWideBody count write) := by
  intro asked
  by_cases few : count < 256 ^ 4
  · simp only [putWideBody_eq few]
    refine exists_filled appends (fun content asked => ?_) asked
    by_cases fits : 4 + content.length < 256 ^ 4
    · exact ⟨⟨.ok (), Grammar.frame 4 count content, asked⟩, fun sink =>
        (patch_wideBody rfl).trans (if_pos fits)⟩
    · exact ⟨⟨.error (.refused .tooLong), Bytes.be 4 0 ++ Bytes.be 4 count ++ content, asked⟩,
        fun sink => (patch_wideBody rfl).trans (if_neg fits)⟩
  · exact ⟨⟨.error (.refused .tooLong), Bytes.be 4 0, asked⟩,
      fun sink => putWideBody_of_ge (Nat.le_of_not_lt few) ⟨sink, asked⟩⟩

/-- An array of symbols. -/
theorem appends_putSymbolArray (names : List String) : Appends (putSymbolArray names) :=
  appends_container .array8 names.length false
    ((appends_put _).bind fun _ => stepwise_appends.putSymbolElements _ _)

end Containers

section Arrays

variable {below : BodyWriter} {hook : TextEncoder}

/-- The elements of an array are laid out without regard to the sink: raw bodies are found in a
sink of their own, before the array is begun. -/
theorem appends_arrayLayout (items : List Value)
    (raw : Unit → Except Failure (Option Descriptor × List Value)) :
    Appends (arrayLayout hook items raw) := by
  have plain : Appends (do return ArrayLayout.mk (← elementCode hook items) none) :=
    (stepwise_appends.elementCode hook items).bind fun _ => appends_pure _
  cases items with
  | nil => exact plain
  | cons first rest =>
    cases first with
    | described described =>
      rw [arrayLayout]
      cases raw () with
      | error failure => exact appends_throw failure
      | ok found => exact (stepwise_appends.elementCode hook _).bind fun _ => appends_pure _
    | _ => exact plain

/-- What an array holds. -/
theorem appends_putArrayPayload (layout : ArrayLayout) {own : Code → Emit Unit}
    {raw : Code → List Value → Emit Unit} (appends : ∀ code, Appends (own code))
    (appends' : ∀ code bodies, Appends (raw code bodies)) :
    Appends (putArrayPayload layout own raw) := by
  unfold putArrayPayload
  split
  · exact (appends_put _).bind fun _ => (stepwise_appends.putDescriptor _).bind fun _ =>
      (appends_put _).bind fun _ => appends' _ _
  · exact (appends_put _).bind fun _ => appends _

end Arrays

section Values

/-- What is to be shown of a value: that it is written, that it is written as an element, and,
if it is described without a known form, that its body is written as an element. -/
structure AppendsValue (below : BodyWriter) (hook : TextEncoder) (value : Value) : Prop where
  whole : Appends (writeValue below hook value)
  element (shared : Code) : Appends (writeElement below hook shared value)
  body {descriptor : Descriptor} {body : Value} :
    value = .described (.unknown descriptor body) → ∀ shared,
      Appends (writeElement below hook shared body)

variable {below : BodyWriter} {hook : TextEncoder}

/-- Items are written one after the other. -/
theorem appends_writeItems {items : List Value}
    (each : ∀ item ∈ items, AppendsValue below hook item) :
    Appends (writeItems below hook items) := by
  rw [writeItems_eq_putEach]
  exact stepwise_appends.putEach fun item member => (each item member).whole.atomic.appends

/-- Keys and values are written one after the other. -/
theorem appends_writeEntries {entries : Entries} (each : ∀ entry ∈ entries,
    AppendsValue below hook entry.1 ∧ AppendsValue below hook entry.2) :
    Appends (writeEntries below hook entries) := by
  rw [writeEntries_eq_putEach]
  refine stepwise_appends.putEach fun entry member => ?_
  obtain ⟨key, mapped⟩ := each entry member
  exact key.whole.atomic.appends.bind fun _ => mapped.whole.atomic.appends

/-- Slots are written one after the other, each of them whole or not at all. -/
theorem appends_writeSlots {slots : List Value}
    (each : ∀ slot ∈ slots, AppendsValue below hook slot) (fields : List Field) (count : Nat) :
    Appends (writeSlots below hook fields count slots) := by
  induction slots generalizing fields count with
  | nil => exact holds_ite (appends_pure ()) (appends_throw _)
  | cons slot rest inductionHypothesis =>
    obtain ⟨first, later⟩ := List.forall_mem_cons.mp each
    cases count with
    | zero => exact appends_pure ()
    | succ count =>
      rw [writeSlots]
      split
      · exact (appends_putSymbolArray _).atomic.appends.bind fun _ => inductionHypothesis later _ _
      · exact first.whole.atomic.appends.bind fun _ => inductionHypothesis later _ _

/-- Elements are written one after the other. -/
theorem appends_writeElements {items : List Value}
    (each : ∀ item ∈ items, AppendsValue below hook item) (shared : Code) :
    Appends (writeElements below hook shared items) := by
  rw [writeElements_eq_putEach]
  exact stepwise_appends.putEach fun item member => (each item member).element shared

/-- A writer of raw bodies that only appends. -/
def AppendsBodies (below : BodyWriter) : Prop :=
  ∀ hook shared value, Appends (below hook shared value)

variable (bodies : AppendsBodies below)

include bodies

/-- Raw bodies are written one after the other. The induction is on the elements and takes any
list of bodies: that there is one for each element is not needed here. -/
theorem appends_writeRawElements {items : List Value}
    (each : ∀ item ∈ items, AppendsValue below hook item) (shared : Code) (found : List Value) :
    Appends (writeRawElements below hook shared found items) := by
  induction items generalizing found with
  | nil => exact appends_pure ()
  | cons item rest inductionHypothesis =>
    obtain ⟨first, later⟩ := List.forall_mem_cons.mp each
    cases found with
    | nil =>
      have others := inductionHypothesis later []
      cases item with
      | described contained =>
        cases contained with
        | unknown descriptor body => exact (first.body rfl shared).bind fun _ => others
        | _ => exact others
      | _ => exact others
    | cons held more =>
      have others := inductionHypothesis later more
      cases item with
      | described contained =>
        cases contained with
        | unknown descriptor body => exact (first.body rfl shared).bind fun _ => others
        | _ => exact (bodies hook shared held).bind fun _ => others
      | _ => exact (bodies hook shared held).bind fun _ => others

omit bodies in
/-- What a described value writes is appended if what it contains is. The descriptor stands in
front, and the body behind it may be a frame of slots. -/
theorem appends_writeDescribed {contained : Described}
    (each : ∀ value ∈ contained.contents, AppendsValue below hook value) :
    Appends (writeDescribed below hook contained) := by
  cases contained with
  | composite form slots =>
    exact stepwise_appends.labelled (.code form.code) (holds_ite (appends_put _)
      (appends_container .list8 _ _ (appends_writeSlots each form.fields (setSlots slots))))
  | content portion body =>
    have body := (each body List.mem_cons_self).whole
    exact stepwise_appends.labelled (.code portion.code) (holds_ite body.atomic.appends body)
  | unknown descriptor body =>
    exact stepwise_appends.labelled descriptor (each body List.mem_cons_self).whole.atomic.appends

/-- Every value is written without regard to the sink, whatever its size and shape, if raw bodies
are. The induction is on the value, for a fixed writer of raw bodies. -/
theorem appendsValue (hook : TextEncoder) (value : Value) : AppendsValue below hook value := by
  induction value using Value.induction with
  | simple value simple =>
    refine ⟨stepwise_appends.writeValue_simple below hook simple, fun shared =>
      stepwise_appends.writeElement_simple below hook shared simple fun _ => appends_throw _, ?_⟩
    rintro descriptor body rfl
    cases simple
  | list items each =>
    refine ⟨?_, fun shared => appends_putWideBody _ (appends_writeItems each), nofun⟩
    cases items with
    | nil => exact appends_put _
    | cons item rest => exact appends_container .list8 _ false (appends_writeItems each)
  | map entries each =>
    exact ⟨appends_container .map8 _ false (appends_writeEntries each),
      fun shared => appends_putWideBody _ (appends_writeEntries each), nofun⟩
  | array items each =>
    have payload (layout : ArrayLayout) := appends_putArrayPayload layout
      (appends_writeElements each) (appends_writeRawElements bodies each)
    exact ⟨(appends_arrayLayout items _).bind fun layout =>
        appends_container .array8 _ false (payload layout),
      fun shared => (appends_arrayLayout items _).bind fun layout =>
        appends_putWideBody _ (payload layout), nofun⟩
  | described contained each =>
    refine ⟨appends_writeDescribed each, fun shared => appends_throw _, ?_⟩
    rintro descriptor body same
    cases same
    exact (each body List.mem_cons_self).element

end Values

/-- The writers of raw bodies only append, whatever their levels. -/
theorem appendsBodies_bodyWriter (levels : Nat) : AppendsBodies (bodyWriter levels) := by
  induction levels with
  | zero => exact fun _ _ _ => appends_throw _
  | succ levels inductionHypothesis =>
    intro hook shared value
    exact (appendsValue inductionHypothesis hook value).element shared

/-- Every value is written in the usual way without regard to the sink. -/
theorem appendsValue_standard (hook : TextEncoder) (value : Value) :
    AppendsValue standardBodies hook value :=
  appendsValue (appendsBodies_bodyWriter _) hook value

/-- A value is written as its type shows it without regard to the sink. Where the value is not of
the type, it is written as it is. -/
theorem appends_writeAs (hook : TextEncoder) (type : Ty) (value : Value) :
    Appends (writeAs hook type value) := by
  have direct (value : Value) := (appendsValue_standard hook value).whole
  induction type generalizing value with
  | any => exact (direct value).atomic.appends
  | symbols =>
    cases value with
    | array items => exact appends_putSymbolArray _
    | _ => exact direct _
  | typedMap keys values inductionHypothesis =>
    cases value with
    | map entries =>
      refine appends_container .map8 _ false (stepwise_appends.putEach fun entry _ => ?_)
      exact (direct entry.1).bind fun _ => inductionHypothesis entry.2
    | _ => exact direct _
  | optional inner inductionHypothesis =>
    cases value with
    | null => exact appends_put _
    | _ => exact inductionHypothesis _
  | kinds | forms => exact direct value

/-- Encoding is atomic and never touches earlier bytes. A value, also one that is written as a
type shows it, is appended whole to every sink alike, or refused alike with nothing left behind.
What is written without that guard, under a descriptor or by the form of its own kind, may leave
something behind, but the bytes in front of it stay as they are.

Proof: Every writer appends, which is to say that its result, its bytes and its questions are
functions of the questions asked before and not of the sink. This is shown by induction on the
value. A frame is closed by patching or widening behind the place where it was begun, and that
place moves with the sink. What appends is whole or nothing once a failure is cut back to where
the writer began. -/
theorem encode_wholeOrNothing (hook : TextEncoder) :
    (∀ value, WholeOrNothing (encodeValue hook value)) ∧
    (∀ type value, WholeOrNothing (encodeAs hook type value)) ∧
    (∀ value, KeepsFront (encodeDirect hook value)) ∧
    (∀ names, KeepsFront (putSymbolArray names)) ∧
    (∀ descriptor body, KeepsFront (encodeDescribedValue hook descriptor body)) ∧
    ∀ descriptor type body, KeepsFront (describeAs hook descriptor type body) := by
  have values (value : Value) : WholeOrNothing (encodeValue hook value) :=
    (appendsValue_standard hook value).whole.atomic
  exact ⟨values, fun type value => (appends_writeAs hook type value).atomic,
    fun value => (appendsValue_standard hook value).whole.keepsFront,
    fun names => (appends_putSymbolArray names).keepsFront,
    fun descriptor body =>
      (stepwise_appends.labelled descriptor (values body).appends).keepsFront,
    fun descriptor type body =>
      (stepwise_appends.labelled descriptor (appends_writeAs hook type body)).keepsFront⟩

end Amqp.Encoder
