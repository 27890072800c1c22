import Amqp.Encoder
import Amqp.Proofs.Canonical.Conditions
import Amqp.Proofs.Sequencing

/-!
# Computations that append

What is said of a computation that writes: under one condition it succeeds, and if it
succeeds then another condition holds, it gives one result, and it has appended certain
bytes to the sink. The two conditions are the same for most of what is written. They differ
where a value is read back while it is written, because there success says less than is
asked for.

A container is written out of order, since its prefix is patched or widened once its content
is known. The sink ends up as if the whole had been appended.
-/

namespace Amqp

namespace Sink

/-- A sink is its bytes and its way of opening gaps. -/
theorem eq_of_toBytes {sink other : Sink} (growth : sink.growth = other.growth)
    (bytes : sink.toBytes = other.toBytes) : sink = other := by
  obtain ⟨_, _⟩ := sink
  obtain ⟨_, _⟩ := other
  cases growth
  cases Array.toList_inj.mp bytes
  rfl

/-- Writing nothing changes nothing. -/
theorem put_nil (sink : Sink) : sink.put [] = sink :=
  eq_of_toBytes rfl (by simp)

/-- Writing twice is writing both at once. -/
theorem put_put (sink : Sink) (bytes more : Bytes) :
    (sink.put bytes).put more = sink.put (bytes ++ more) :=
  eq_of_toBytes rfl (by simp)

/-- Writing adds to the number of bytes written. -/
theorem written_put (sink : Sink) (bytes : Bytes) :
    (sink.put bytes).written = sink.written + bytes.length := by
  rw [written_eq_length, written_eq_length, toBytes_put, List.length_append]

/-- Bytes that were just written are replaced by as many others. What was in the sink before and
what stands behind them is left alone. -/
theorem patch_put (sink : Sink) {front middle back bytes : Bytes}
    (same : middle.length = bytes.length) :
    (sink.put (front ++ middle ++ back)).patch (sink.written + front.length) bytes =
      sink.put (front ++ bytes ++ back) := by
  refine eq_of_toBytes rfl ?_
  have split : (sink.put (front ++ middle ++ back)).content.toList =
      (sink.toBytes ++ front) ++ middle ++ back := by
    have written := toBytes_put sink (front ++ middle ++ back)
    rw [toBytes] at written
    rw [written]
    simp
  have offset : sink.written + front.length = (sink.toBytes ++ front).length := by
    rw [written_eq_length, List.length_append]
  rw [offset]
  change (overwrite _ _ _).toList = _
  rw [toList_overwrite split same, toBytes_put]
  simp

/-- A gap of zeros is opened among bytes that were just written. Both ways of opening it come to
this, as the place lies within the sink. -/
theorem widen_put (sink : Sink) (front back : Bytes) (length : Nat) :
    (sink.put (front ++ back)).widen (sink.written + front.length) length =
      sink.put (front ++ List.replicate length 0 ++ back) := by
  have within : sink.written + front.length ≤ (sink.put (front ++ back)).content.size := by
    have total := written_put sink (front ++ back)
    rw [List.length_append] at total
    unfold written at total ⊢
    omega
  have opened : (sink.put (front ++ back)).widen (sink.written + front.length) length =
      { sink.put (front ++ back) with
        content := spliced (sink.put (front ++ back)).content (sink.written + front.length)
          length } := by
    unfold widen
    split
    · rfl
    · rw [shifted_eq_spliced within]
  refine eq_of_toBytes (by rw [opened]; rfl) ?_
  have split : (sink.put (front ++ back)).content.toList = (sink.toBytes ++ front) ++ back := by
    have written := toBytes_put sink (front ++ back)
    rw [toBytes] at written
    rw [written]
    simp
  have offset : sink.written + front.length = (sink.toBytes ++ front).length := by
    rw [written_eq_length, List.length_append]
  rw [opened, toBytes, toList_spliced, split, offset, List.take_left, List.drop_left, toBytes_put]
  simp

end Sink

namespace Encoder

variable {α β : Type}

/-- What is written whole or not at all succeeds only as it does without that guard. -/
theorem ok_of_atomic {write : Emit α} {state after : State} {result : α}
    (ran : atomic write state = .ok result after) : write state = .ok result after := by
  rw [atomic, orCutBack] at ran
  cases written : write state with
  | ok found middle => rwa [written] at ran
  | error failure middle =>
    rw [written] at ran
    cases ran

/-- A computation that succeeds if there is enough, and only if something is so, with one
result and with certain bytes appended. -/
structure Writes (write : Emit α) (enough so : Prop) (result : α) (bytes : Bytes) : Prop where
  complete : enough → ∀ state, ∃ after, write state = .ok result after ∧
    after.sink = state.sink.put bytes
  sound {state after : State} {other : α} : write state = .ok other after →
    so ∧ other = result ∧ after.sink = state.sink.put bytes

namespace Writes

variable {write : Emit α} {enough so : Prop} {result : α} {bytes : Bytes}

/-- What is enough may be more, and what is so may be less. -/
theorem imp {enough' so' : Prop} (writes : Writes write enough so result bytes)
    (stronger : enough' → enough) (weaker : so → so') : Writes write enough' so' result bytes where
  complete given := writes.complete (stronger given)
  sound ran := by
    obtain ⟨held, same, appended⟩ := writes.sound ran
    exact ⟨weaker held, same, appended⟩

/-- What is appended may be written in another way. -/
theorem of_eq {bytes' : Bytes} (writes : Writes write enough so result bytes)
    (same : bytes = bytes') : Writes write enough so result bytes' := same ▸ writes

/-- Computations in a row append in a row. The second one may rely on what the success of the
first one says. The conditions of both are joined, and so are the bytes. -/
theorem bind_of {next : α → Emit β} {enough' so' : Prop} {result' : β} {bytes' : Bytes}
    (first : Writes write enough so result bytes)
    (second : so → Writes (next result) enough' so' result' bytes') :
    Writes (write >>= next) (enough ∧ enough') (so ∧ so') result' (bytes ++ bytes') where
  complete := by
    rintro ⟨given, given'⟩ state
    obtain ⟨middle, ran, appended⟩ := first.complete given state
    have held := (first.sound ran).1
    obtain ⟨after, ran', appended'⟩ := (second held).complete given' middle
    exact ⟨after, (bind_of_ok ran).trans ran', by rw [appended', appended, Sink.put_put]⟩
  sound ran := by
    obtain ⟨between, middle, ran, ran'⟩ := ok_of_bind ran
    obtain ⟨held, rfl, appended⟩ := first.sound ran
    obtain ⟨held', same, appended'⟩ := (second held).sound ran'
    exact ⟨⟨held, held'⟩, same, by rw [appended', appended, Sink.put_put]⟩

/-- Computations in a row append in a row. -/
theorem bind {next : α → Emit β} {enough' so' : Prop} {result' : β} {bytes' : Bytes}
    (first : Writes write enough so result bytes)
    (second : Writes (next result) enough' so' result' bytes') :
    Writes (write >>= next) (enough ∧ enough') (so ∧ so') result' (bytes ++ bytes') :=
  first.bind_of fun _ => second

/-- What a success says may be used to write its result in another way. -/
theorem of_result {result' : α} (writes : Writes write enough so result bytes)
    (same : so → result = result') : Writes write enough so result' bytes where
  complete given state := by
    obtain ⟨after, ran, appended⟩ := writes.complete given state
    obtain rfl := same (writes.sound ran).1
    exact ⟨after, ran, appended⟩
  sound ran := by
    obtain ⟨held, rfl, appended⟩ := writes.sound ran
    exact ⟨held, same held, appended⟩

/-- What is written whole or not at all is written the same if it succeeds. -/
theorem atomic (writes : Writes write enough so result bytes) :
    Writes (atomic write) enough so result bytes where
  complete given state := by
    obtain ⟨after, ran, appended⟩ := writes.complete given state
    refine ⟨after, ?_, appended⟩
    rw [Encoder.atomic, orCutBack, ran]
  sound ran := writes.sound (ok_of_atomic ran)

end Writes

/-- Giving a result appends nothing. -/
theorem writes_pure (result : α) : Writes (pure result) True True result [] where
  complete _ state := ⟨state, rfl, (Sink.put_nil _).symm⟩
  sound ran := by
    cases ran
    exact ⟨trivial, rfl, (Sink.put_nil _).symm⟩

/-- A result computed from another appends nothing more. -/
theorem Writes.map {write : Emit α} {enough so : Prop} {result : α} {bytes : Bytes}
    (writes : Writes write enough so result bytes) (finish : α → β) :
    Writes (write >>= fun result => pure (finish result)) enough so (finish result) bytes :=
  ((writes.bind (writes_pure (finish result))).imp (fun given => ⟨given, trivial⟩)
    fun held => held.1).of_eq (List.append_nil bytes)

/-- A refusal appends nothing, because it never succeeds. -/
theorem writes_throw (failure : Failure) (result : α) (bytes : Bytes) :
    Writes (throw failure) False False result bytes where
  complete := False.elim
  sound ran := by cases ran

/-- Things that are written one after the other append one after the other. -/
theorem writes_putEach {write : α → Emit Unit} {enough so : α → Prop} {bytes : α → Bytes}
    {items : List α} (each : ∀ item ∈ items,
      Writes (write item) (enough item) (so item) () (bytes item)) :
    Writes (putEach write items) (∀ item ∈ items, enough item) (∀ item ∈ items, so item) ()
      (items.flatMap bytes) := by
  induction items with
  | nil => exact (writes_pure ()).imp (fun _ => trivial) fun _ => nofun
  | cons item rest inductionHypothesis =>
    rw [putEach, List.flatMap_cons]
    simp only [List.forall_mem_cons] at each ⊢
    exact each.1.bind (inductionHypothesis each.2)

/-- Writing bytes appends them. -/
theorem writes_put (bytes : Bytes) : Writes (put bytes) True True () bytes where
  complete _ state := ⟨_, rfl, rfl⟩
  sound ran := by
    cases ran
    exact ⟨trivial, rfl, rfl⟩

/-- A constructor is one byte. -/
theorem writes_putCode (code : Code) : Writes (putCode code) True True () [code.toByte] :=
  writes_put _

/-- Asking a hook without memory appends nothing. -/
theorem writes_ask (text : String → Bytes) (value : String) :
    Writes (ask (.ofPure text) value) True True (text value) [] where
  complete _ state := ⟨_, rfl, (Sink.put_nil _).symm⟩
  sound ran := by
    cases ran
    exact ⟨trivial, rfl, (Sink.put_nil _).symm⟩

/-- A number that fits its prefix has its bytes. -/
theorem writes_sized (width number : Nat) :
    Writes (sized width number) (number < 256 ^ width) (number < 256 ^ width) (.be width number)
      [] := by
  unfold sized
  split
  · next fits => exact (writes_pure _).imp (fun _ => trivial) fun _ => fits
  · next large => exact (writes_throw _ _ _).imp large False.elim

/-- A constructor and a number. -/
theorem writes_putNumber (code : Code) (width number : Nat) :
    Writes (putNumber code width number) True True () (Canonical.numbered code width number) :=
  ((writes_putCode code).bind (writes_put _)).imp (fun _ => ⟨trivial, trivial⟩) fun _ => trivial

/-- A payload behind the shorter prefix that fits. -/
theorem writes_putPayload (narrow : Code) (bytes : Bytes) :
    Writes (putPayload narrow bytes) (bytes.length < 256 ^ 4) (bytes.length < 256 ^ 4) ()
      (Canonical.measured narrow bytes) := by
  unfold putPayload Canonical.measured
  by_cases small : bytes.length < 256
  · simp only [if_pos small]
    exact ((writes_putNumber narrow 1 bytes.length).bind (writes_put bytes)).imp
      (fun _ => ⟨trivial, trivial⟩) fun _ => by omega
  · simp only [if_neg small]
    exact ((writes_sized 4 bytes.length).bind ((writes_putCode narrow.widen).bind
      ((writes_put _).bind (writes_put bytes)))).imp
        (fun fits => ⟨fits, trivial, trivial, trivial⟩) fun held => held.1

/-- A string as the hook writes it. -/
theorem writes_putString (text : String → Bytes) (value : String) :
    Writes (putString (.ofPure text) value) ((text value).length < 256 ^ 4)
      ((text value).length < 256 ^ 4) () (Canonical.measured .string8 (text value)) :=
  ((writes_ask text value).bind (writes_putPayload .string8 (text value))).imp
    (fun fits => ⟨trivial, fits⟩) fun held => held.2

/-- A symbol. -/
theorem writes_putSymbol (name : String) :
    Writes (putSymbol name) ((Utf8.encode name).length < 256 ^ 4)
      ((Utf8.encode name).length < 256 ^ 4) () (Canonical.measured .symbol8 (Utf8.encode name)) :=
  writes_putPayload .symbol8 _

/-- An unsigned number in the shortest of its forms. -/
theorem writes_putUnsigned (zero small full : Code) (width number : Nat) :
    Writes (putUnsigned zero small full width number) True True ()
      (Canonical.unsigned zero small full width number) := by
  unfold putUnsigned Canonical.unsigned
  split
  · exact writes_putCode _
  · split
    · exact writes_putNumber _ _ _
    · exact writes_putNumber _ _ _

/-- A signed number in the shorter of its forms. -/
theorem writes_putSigned (small full : Code) (width : Nat) (number : Int) (byte : Int8)
    (pattern : Nat) :
    Writes (putSigned small full width number byte pattern) True True ()
      (Canonical.signed small full width number byte pattern) := by
  unfold putSigned Canonical.signed
  split
  · exact writes_putNumber _ _ _
  · exact writes_putNumber _ _ _

/-- A descriptor is written if its name fits its prefix. A number always fits. -/
theorem writes_putDescriptor (descriptor : Descriptor) :
    Writes (putDescriptor descriptor) (Canonical.LabelFits descriptor)
      (Canonical.LabelFits descriptor) ()
      (Canonical.label descriptor) := by
  cases descriptor with
  | code number =>
    exact (writes_putUnsigned _ _ _ _ _).imp (fun _ => trivial)
      fun _ => Canonical.labelFits_code number
  | symbol name =>
    apply (writes_putSymbol name).imp (fun fits => fits name rfl)
    intro fits _ symbolic
    cases symbolic
    exact fits

/-- The payload of an element is written behind a length of the width that is shared. -/
theorem putElementPayload_eq (shared : Code) (bytes : Bytes) :
    putElementPayload shared bytes = (do
      put (← sized (Canonical.lengthWidth shared) bytes.length)
      put bytes) := by
  unfold putElementPayload Canonical.lengthWidth
  split
  · next narrow => rw [if_pos narrow]
  · next other => rw [if_neg other]

/-- The payload of an element behind a length of the width that is shared. -/
theorem writes_putElementPayload (shared : Code) (bytes : Bytes) :
    Writes (putElementPayload shared bytes) (bytes.length < 256 ^ Canonical.lengthWidth shared)
      (bytes.length < 256 ^ Canonical.lengthWidth shared) ()
      (Canonical.measuredAs shared bytes) := by
  rw [putElementPayload_eq]
  refine Writes.of_eq (((writes_sized _ bytes.length).bind ((writes_put _).bind
    (writes_put bytes))).imp ?_ ?_) rfl
  · exact fun fits => ⟨fits, trivial, trivial⟩
  · exact fun held => held.1

/-- If a computation succeeds, then it has appended bytes that are as they should be for its
result. -/
def Yields (write : Emit α) (so : α → Bytes → Prop) : Prop :=
  ∀ ⦃state after result⦄, write state = .ok result after →
    ∃ bytes, after.sink = state.sink.put bytes ∧ so result bytes

section Combinators

variable {write : Emit α} {so so' : α → Bytes → Prop}

/-- What is known to be appended is appended. -/
theorem Writes.yields {enough held : Prop} {result : α} {bytes : Bytes}
    (writes : Writes write enough held result bytes) :
    Yields write fun other written => held ∧ other = result ∧ written = bytes := by
  intro state after other ran
  obtain ⟨holds, same, appended⟩ := writes.sound ran
  exact ⟨bytes, appended, holds, same, rfl⟩

/-- What follows from what is so is so as well. -/
theorem Yields.imp (yields : Yields write so)
    (each : ∀ result bytes, so result bytes → so' result bytes) : Yields write so' := by
  intro state after result ran
  obtain ⟨bytes, appended, holds⟩ := yields ran
  exact ⟨bytes, appended, each _ _ holds⟩

/-- Computations in a row append in a row. The second one may rely on what the first one came
to. -/
theorem Yields.bind {next : α → Emit β} {final : β → Bytes → Prop} (first : Yields write so)
    (second : ∀ result front, so result front →
      Yields (next result) fun last back => final last (front ++ back)) :
    Yields (write >>= next) final := by
  intro state after last ran
  obtain ⟨result, middle, ran, ran'⟩ := ok_of_bind ran
  obtain ⟨front, appended, holds⟩ := first ran
  obtain ⟨back, appended', holds'⟩ := second result front holds ran'
  exact ⟨front ++ back, by rw [appended', appended, Sink.put_put], holds'⟩

/-- Behind what is known to be appended stands what is appended next. -/
theorem Writes.followed {enough held : Prop} {result : α} {front : Bytes} {next : α → Emit β}
    {final : β → Bytes → Prop} (first : Writes write enough held result front)
    (second : held → Yields (next result) fun last back => final last (front ++ back)) :
    Yields (write >>= next) final := by
  refine first.yields.bind fun other written holds => ?_
  obtain ⟨holds, rfl, rfl⟩ := holds
  exact second holds

/-- What is written whole or not at all is written the same if it succeeds. -/
theorem Yields.atomic (yields : Yields write so) : Yields (atomic write) so :=
  fun _ _ _ ran => yields (ok_of_atomic ran)

/-- Giving a result appends nothing. -/
theorem yields_pure {result : α} (holds : so result []) : Yields (pure result) so := by
  intro state after other ran
  cases ran
  exact ⟨[], (Sink.put_nil _).symm, holds⟩

/-- What fails has nothing to be said of it. -/
theorem yields_throw (failure : Failure) : Yields (throw failure : Emit α) so := nofun

/-- The answer of the hook may be any. -/
theorem yields_ask {next : Bytes → Emit β} {final : β → Bytes → Prop} (hook : TextEncoder)
    (text : String) (second : ∀ answer, Yields (next answer) final) :
    Yields (ask hook text >>= next) final := by
  intro state after last ran
  have answered : ask hook text state =
      .ok (hook state.asked text) { state with asked := text :: state.asked } := rfl
  rw [bind_of_ok answered] at ran
  obtain ⟨bytes, appended, holds⟩ := second (hook state.asked text) ran
  exact ⟨bytes, appended, holds⟩

end Combinators

section Containers

variable {write : Emit Unit} {enough so : Prop} {content : Bytes}

/-- The number of bytes written behind some sink. -/
theorem written_of_sink {state : State} {sink : Sink} {bytes : Bytes}
    (appended : state.sink = sink.put bytes) :
    written state = .ok (sink.written + bytes.length) state := by
  change EStateM.Result.ok state.sink.written state = _
  rw [appended, Sink.written_put]

/-- Bytes written behind some sink are replaced by as many others. -/
theorem patch_of_sink {state : State} {sink : Sink} {front middle back bytes : Bytes}
    (appended : state.sink = sink.put (front ++ middle ++ back))
    (same : middle.length = bytes.length) :
    patch (sink.written + front.length) bytes state =
      .ok () { state with sink := sink.put (front ++ bytes ++ back) } := by
  have covered : state.sink.covers (sink.written + front.length) bytes.length = true := by
    rw [appended, Sink.covers, Sink.written_put]
    simp only [List.length_append, decide_eq_true_eq]
    omega
  rw [patch, if_pos covered, appended, Sink.patch_put sink same]

/-- A gap is opened among bytes written behind some sink. -/
theorem widen_of_sink {state : State} {sink : Sink} {front back : Bytes} {length : Nat}
    (appended : state.sink = sink.put (front ++ back)) :
    widen (sink.written + front.length) length state =
      .ok () { state with sink := sink.put (front ++ List.replicate length 0 ++ back) } := by
  have covered : state.sink.covers (sink.written + front.length) 0 = true := by
    rw [appended, Sink.covers, Sink.written_put]
    simp only [List.length_append, decide_eq_true_eq]
    omega
  rw [widen, if_pos covered, appended, Sink.widen_put]

/-- A number that fits its prefix is not refused. -/
theorem sized_of_lt {width number : Nat} (fits : number < 256 ^ width) (state : State) :
    sized width number state = .ok (.be width number) state := by
  rw [sized, if_pos fits]
  rfl

/-- A number that does not fit its prefix is refused. -/
theorem sized_of_ge {width number : Nat} (large : 256 ^ width ≤ number) (state : State) :
    sized width number state = .error (.refused .tooLong) state := by
  rw [sized, if_neg (Nat.not_lt.mpr large)]
  rfl

/-- Closing a container finds out how much stands behind its prefix, and fills the prefix in or
widens it. The checks on lengths that are made on the way cannot fail here. -/
theorem closeContainer_of_appended {state : State} {sink : Sink} {narrow : Code} {count : Nat}
    {wide : Bool} (appended : state.sink = sink.put (narrow.toByte :: 0 :: 0 :: content)) :
    closeContainer ⟨sink.written, narrow⟩ count wide state =
      (if wide = false ∧ content.length < 255 ∧ count ≤ 255 then
        patch (sink.written + 1) [UInt8.ofNat (content.length + 1), UInt8.ofNat count]
      else do
        let size ← sized 4 (content.length + 4)
        let counted ← sized 4 count
        widen (sink.written + 1) 6
        patch sink.written (narrow.widen.toByte :: size ++ counted) : Emit Unit) state := by
  have total : (narrow.toByte :: 0 :: 0 :: content).length = content.length + 3 := rfl
  have enough : ¬sink.written + (content.length + 3) < sink.written + 3 := by omega
  have payload : sink.written + (content.length + 3) - sink.written - 3 = content.length := by
    omega
  have short : (!wide && decide (content.length < 255) && decide (count ≤ 255)) = true ↔
      wide = false ∧ content.length < 255 ∧ count ≤ 255 := by
    simp only [Bool.and_eq_true, Bool.not_eq_true', decide_eq_true_eq, and_assoc]
  unfold closeContainer
  rw [bind_of_ok (written_of_sink appended), total]
  simp only [if_neg enough, payload, short]

/-- Closing a container with both prefixes at hand keeps the short one. The two bytes that were
left for it are filled in where they stand. -/
theorem closeContainer_short {state : State} {sink : Sink} {narrow : Code} {count : Nat}
    {wide : Bool} (appended : state.sink = sink.put (narrow.toByte :: 0 :: 0 :: content))
    (short : wide = false ∧ content.length < 255 ∧ count ≤ 255) :
    closeContainer ⟨sink.written, narrow⟩ count wide state =
      .ok () { state with sink := sink.put (narrow.toByte :: Grammar.frame 1 count content) } := by
  have patched := @patch_of_sink state sink [narrow.toByte] [0, 0] content
    [UInt8.ofNat (content.length + 1), UInt8.ofNat count] appended rfl
  have prefix_eq : [narrow.toByte] ++ [UInt8.ofNat (content.length + 1), UInt8.ofNat count] ++
      content = narrow.toByte :: Grammar.frame 1 count content := by
    simp [Grammar.frame, Bytes.be, Nat.add_comm]
  rw [prefix_eq] at patched
  rw [closeContainer_of_appended appended, if_pos short]
  exact patched

/-- Closing a container that needs the long prefix widens it, if its size and its count fit. Six
bytes are made room for, the constructor is changed to the wide one, and the prefix is written
over the gap. If either number does not fit, nothing has been moved yet. -/
theorem closeContainer_long {state : State} {sink : Sink} {narrow : Code} {count : Nat}
    {wide : Bool} (appended : state.sink = sink.put (narrow.toByte :: 0 :: 0 :: content))
    (long : ¬(wide = false ∧ content.length < 255 ∧ count ≤ 255)) :
    closeContainer ⟨sink.written, narrow⟩ count wide state =
      if 4 + content.length < 256 ^ 4 ∧ count < 256 ^ 4 then
        .ok () { state with
          sink := sink.put (narrow.widen.toByte :: Grammar.frame 4 count content) }
      else .error (.refused .tooLong) state := by
  rw [closeContainer_of_appended appended, if_neg long]
  split
  · next fits =>
    have gap : widen (sink.written + 1) 6 state = .ok () { state with
        sink := sink.put ([narrow.toByte] ++ List.replicate 6 0 ++ 0 :: 0 :: content) } :=
      @widen_of_sink state sink [narrow.toByte] (0 :: 0 :: content) 6 appended
    have final := @patch_of_sink
      ⟨sink.put ([narrow.toByte] ++ List.replicate 6 0 ++ 0 :: 0 :: content), state.asked⟩ sink []
      (narrow.toByte :: List.replicate 8 0) content
      (narrow.widen.toByte :: Bytes.be 4 (content.length + 4) ++ Bytes.be 4 count) rfl (by simp)
    have prefix_eq : [] ++ (narrow.widen.toByte :: Bytes.be 4 (content.length + 4) ++
        Bytes.be 4 count) ++ content = narrow.widen.toByte :: Grammar.frame 4 count content := by
      simp [Grammar.frame, Nat.add_comm]
    rw [prefix_eq] at final
    rw [bind_of_ok (sized_of_lt (by omega) state), bind_of_ok (sized_of_lt fits.2 state)]
    exact (bind_of_ok gap).trans final
  · next large =>
    by_cases size : content.length + 4 < 256 ^ 4
    · rw [bind_of_ok (sized_of_lt size state)]
      exact bind_of_error (sized_of_ge (by omega) state)
    · exact bind_of_error (sized_of_ge (by omega) state)

/-- Opening a container writes its constructor and room for the short prefix. -/
theorem openContainer_eq (narrow : Code) (state : State) :
    openContainer narrow state = .ok ⟨state.sink.written, narrow⟩
      { state with sink := state.sink.put [narrow.toByte, 0, 0] } := by
  have opened : openContainer narrow state = .ok ⟨state.sink.written, narrow⟩
      { state with sink := (state.sink.put [narrow.toByte]).put [0, 0] } := rfl
  rw [opened, Sink.put_put]
  rfl

/-- Closing a container that was filled leaves it behind its prefix, if its size fits. Its count
is no larger than its content, so it fits whenever the size does. -/
theorem closeContainer_eq {state : State} {sink : Sink} {narrow : Code} {count : Nat}
    (wide : Bool) (appended : state.sink = sink.put (narrow.toByte :: 0 :: 0 :: content))
    (paid : count ≤ content.length) :
    closeContainer ⟨sink.written, narrow⟩ count wide state =
      if 4 + content.length < 256 ^ 4 then
        .ok () { state with sink := sink.put (Canonical.container narrow wide count content) }
      else .error (.refused .tooLong) state := by
  unfold Canonical.container
  by_cases short : wide = false ∧ content.length < 255 ∧ count ≤ 255
  · have fits : 4 + content.length < 256 ^ 4 := by omega
    rw [if_pos short, if_pos fits]
    exact closeContainer_short appended short
  · have counted : (4 + content.length < 256 ^ 4 ∧ count < 256 ^ 4) ↔
        4 + content.length < 256 ^ 4 := and_iff_left_of_imp fun fits => by omega
    rw [if_neg short, closeContainer_long appended short]
    simp only [counted]

/-- A container is whatever was written into it, behind its prefix. What was written need not be
known, only that it pays for the count. -/
theorem yields_container {count : Nat} {holds : Bytes → Prop} (narrow : Code) (wide : Bool)
    (yields : Yields write fun _ => holds)
    (paid : ∀ content, holds content → count ≤ content.length) :
    Yields (do
        let mark ← openContainer narrow
        write
        closeContainer mark count wide) fun _ bytes => ∃ content, holds content ∧
          4 + content.length < 256 ^ 4 ∧ bytes = Canonical.container narrow wide count content := by
  intro state after last ran
  rw [bind_of_ok (openContainer_eq narrow state)] at ran
  obtain ⟨_, middle, ran, closed⟩ := ok_of_bind ran
  obtain ⟨content, appended, given⟩ := yields ran
  rw [Sink.put_put] at appended
  rw [@closeContainer_eq content middle state.sink narrow count wide appended
    (paid content given)] at closed
  split at closed
  · next fits =>
    cases closed
    exact ⟨_, rfl, content, given, fits, rfl⟩
  · cases closed

/-- A container is what was written into it, behind its prefix. It is written exactly if the
content is and the size fits. -/
theorem writes_container (narrow : Code) {count : Nat} (wide : Bool)
    (writes : Writes write enough so () content) (paid : count ≤ content.length) :
    Writes (do
        let mark ← openContainer narrow
        write
        closeContainer mark count wide)
      (enough ∧ 4 + content.length < 256 ^ 4) (so ∧ 4 + content.length < 256 ^ 4) ()
      (Canonical.container narrow wide count content) where
  complete := by
    rintro ⟨given, fits⟩ state
    obtain ⟨middle, ran, appended⟩ := writes.complete given
      { state with sink := state.sink.put [narrow.toByte, 0, 0] }
    rw [Sink.put_put] at appended
    have closed := @closeContainer_eq content middle state.sink narrow count wide appended paid
    rw [if_pos fits] at closed
    refine ⟨{ middle with
      sink := state.sink.put (Canonical.container narrow wide count content) }, ?_, rfl⟩
    rw [bind_of_ok (openContainer_eq narrow state), bind_of_ok ran]
    exact closed
  sound ran := by
    have yields := writes.yields.imp fun _ _ given => (⟨given.1, given.2.2⟩ : so ∧ _ = content)
    obtain ⟨_, appended, _, ⟨held, rfl⟩, fits, rfl⟩ := yields_container narrow wide yields
      (by rintro _ ⟨_, rfl⟩; exact paid) ran
    exact ⟨⟨held, fits⟩, rfl, appended⟩

/-- The size of a container without a constructor is filled in at its front, if it fits. It
counts the four bytes of the count. -/
theorem patch_wideBody {state : State} {sink : Sink} {count : Nat}
    (appended : state.sink = sink.put (Bytes.be 4 0 ++ Bytes.be 4 count ++ content)) :
    (do
      let stop ← written
      if stop < sink.written + 4 then throw (.defect .payloadUnderflow)
      patch sink.written (← sized 4 (stop - sink.written - 4)) : Emit Unit) state =
      if 4 + content.length < 256 ^ 4 then
        .ok () { state with sink := sink.put (Grammar.frame 4 count content) }
      else .error (.refused .tooLong) state := by
  have total : (Bytes.be 4 0 ++ Bytes.be 4 count ++ content).length = 8 + content.length := by
    simp only [List.length_append, Bytes.length_be]
  have enough : ¬sink.written + (8 + content.length) < sink.written + 4 := by omega
  have payload : sink.written + (8 + content.length) - sink.written - 4 =
      4 + content.length := by omega
  rw [bind_of_ok (written_of_sink appended), total]
  simp only [if_neg enough, payload]
  split
  · next fits =>
    have patched := @patch_of_sink state sink [] (Bytes.be 4 0) (Bytes.be 4 count ++ content)
      (Bytes.be 4 (4 + content.length)) (by rw [appended, List.append_assoc]; rfl)
      (by simp only [Bytes.length_be])
    refine (bind_of_ok (sized_of_lt fits state)).trans (patched.trans ?_)
    simp [Grammar.frame]
  · next large => exact bind_of_error (sized_of_ge (by omega) state)

/-- Before the content of a container without a constructor stand room for its size and its
count. Unlike the size, the count is known in front and is never patched. -/
theorem putWideBody_eq {count : Nat} (fits : count < 256 ^ 4) (state : State) :
    putWideBody count write state = (do
      write
      let stop ← written
      if stop < state.sink.written + 4 then throw (.defect .payloadUnderflow)
      patch state.sink.written (← sized 4 (stop - state.sink.written - 4)) : Emit Unit)
        { state with sink := state.sink.put (Bytes.be 4 0 ++ Bytes.be 4 count) } := by
  rw [← Sink.put_put]
  exact bind_of_ok (sized_of_lt fits { state with sink := state.sink.put (Bytes.be 4 0) })

/-- A container without a constructor is refused if its count does not fit. -/
theorem putWideBody_of_ge {count : Nat} (many : 256 ^ 4 ≤ count) (state : State) :
    putWideBody count write state =
      .error (.refused .tooLong) { state with sink := state.sink.put (Bytes.be 4 0) } := by
  have marked : written state = .ok state.sink.written state := rfl
  have begun : put (Bytes.be 4 0) state =
      .ok () { state with sink := state.sink.put (Bytes.be 4 0) } := rfl
  exact (bind_of_ok marked).trans ((bind_of_ok begun).trans (bind_of_error (sized_of_ge many _)))

/-- A container without a constructor is whatever was written into it, behind its size and count.
A count that does not fit is refused before anything is written into it. -/
theorem yields_putWideBody {count : Nat} {holds : Bytes → Prop}
    (yields : Yields write fun _ => holds) :
    Yields (putWideBody count write) fun _ bytes => ∃ content, holds content ∧
      4 + content.length < 256 ^ 4 ∧ bytes = Grammar.frame 4 count content := by
  intro state after last ran
  by_cases few : count < 256 ^ 4
  · rw [putWideBody_eq few] at ran
    obtain ⟨_, middle, ran, closed⟩ := ok_of_bind ran
    obtain ⟨content, appended, given⟩ := yields ran
    rw [Sink.put_put] at appended
    rw [patch_wideBody appended] at closed
    split at closed
    · next fits =>
      cases closed
      exact ⟨_, rfl, content, given, fits, rfl⟩
    · cases closed
  · rw [putWideBody_of_ge (Nat.le_of_not_lt few)] at ran
    cases ran

/-- A container without a constructor is what was written into it, behind its size and count. As
for any container, the count fits if the size does. -/
theorem writes_putWideBody {count : Nat} (writes : Writes write enough so () content)
    (paid : count ≤ content.length) :
    Writes (putWideBody count write) (enough ∧ 4 + content.length < 256 ^ 4)
      (so ∧ 4 + content.length < 256 ^ 4) () (Grammar.frame 4 count content) where
  complete := by
    rintro ⟨given, fits⟩ state
    obtain ⟨middle, ran, appended⟩ := writes.complete given
      { state with sink := state.sink.put (Bytes.be 4 0 ++ Bytes.be 4 count) }
    rw [Sink.put_put] at appended
    have closed := patch_wideBody appended
    rw [if_pos fits] at closed
    refine ⟨{ middle with sink := state.sink.put (Grammar.frame 4 count content) }, ?_, rfl⟩
    rw [putWideBody_eq (by omega), bind_of_ok ran]
    exact closed
  sound ran := by
    have yields := writes.yields.imp fun _ _ given => (⟨given.1, given.2.2⟩ : so ∧ _ = content)
    obtain ⟨_, appended, _, ⟨held, rfl⟩, fits, rfl⟩ := yields_putWideBody yields ran
    exact ⟨⟨held, fits⟩, rfl, appended⟩

end Containers

end Encoder

end Amqp
