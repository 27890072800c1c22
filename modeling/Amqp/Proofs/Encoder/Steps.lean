import Amqp.Proofs.Encoder.Writing

/-!
# Writing step by step

What is written in front of other things and not looked at again is put together from a few steps:
to write bytes, to ask the text hook, to give a result and to refuse. So whatever holds of these
steps, and of computations in a row if it holds of each, holds of numbers, payloads, descriptors
and values that contain no values, and of the search for the constructor of an array.

Containers are not among them. A container looks back at the place where it was opened, and what is
said of it depends on what is said.
-/

namespace Amqp.Encoder

/-- A property of computations that the single steps have, and that computations in a row have if
each of them has it. -/
structure Stepwise (holds : ∀ {α : Type}, Emit α → Prop) : Prop where
  pure {α : Type} (result : α) : holds (pure result)
  refuse {α : Type} (error : Error) : holds (refuse error : Emit α)
  put (bytes : Bytes) : holds (put bytes)
  ask (hook : TextEncoder) (text : String) : holds (ask hook text)
  bind {α β : Type} {write : Emit α} {next : α → Emit β} :
    holds write → (∀ result, holds (next result)) → holds (write >>= next)

/-- What holds of both branches holds of a choice. -/
theorem holds_ite {α : Type} {holds : Emit α → Prop} {condition : Prop} [Decidable condition]
    {write other : Emit α} (yes : holds write) (no : holds other) :
    holds (if condition then write else other) := by
  split
  · exact yes
  · exact no

namespace Stepwise

variable {holds : ∀ {α : Type}, Emit α → Prop} (steps : Stepwise @holds)

include steps

/-- Things that are written one after the other. -/
theorem putEach {α : Type} {write : α → Emit Unit} {items : List α}
    (each : ∀ item ∈ items, holds (write item)) : holds (putEach write items) := by
  induction items with
  | nil => exact steps.pure ()
  | cons item rest inductionHypothesis =>
    obtain ⟨first, later⟩ := List.forall_mem_cons.mp each
    exact steps.bind first fun _ => inductionHypothesis later

/-- A number that does not fit its prefix is refused. -/
theorem sized (width number : Nat) : holds (sized width number) :=
  holds_ite (steps.pure _) (steps.refuse _)

/-- A constructor and a number. -/
theorem putNumber (code : Code) (width number : Nat) : holds (putNumber code width number) :=
  steps.bind (steps.put _) fun _ => steps.put _

/-- An unsigned number: its constructor alone, with one byte, or with all of them. -/
theorem putUnsigned (zero small full : Code) (width number : Nat) :
    holds (putUnsigned zero small full width number) :=
  holds_ite (steps.put _) (holds_ite (steps.putNumber _ _ _) (steps.putNumber _ _ _))

/-- A signed number: its constructor with one byte, or with all of them. -/
theorem putSigned (small full : Code) (width : Nat) (number : Int) (byte : Int8)
    (pattern : Nat) : holds (putSigned small full width number byte pattern) :=
  holds_ite (steps.putNumber _ _ _) (steps.putNumber _ _ _)

/-- A payload behind the shorter prefix that fits. -/
theorem putPayload (narrow : Code) (payload : Bytes) : holds (putPayload narrow payload) := by
  unfold Encoder.putPayload
  refine holds_ite (steps.bind (steps.putNumber _ _ _) fun _ => steps.put _) ?_
  exact steps.bind (steps.sized _ _) fun _ => steps.bind (steps.put _) fun _ =>
    steps.bind (steps.put _) fun _ => steps.put _

/-- A descriptor. -/
theorem putDescriptor (descriptor : Descriptor) : holds (putDescriptor descriptor) := by
  cases descriptor with
  | code number => exact steps.putUnsigned _ _ _ _ _
  | symbol name => exact steps.putPayload _ _

/-- A descriptor in front of something. -/
theorem labelled (descriptor : Descriptor) {write : Emit Unit} (behind : holds write) :
    holds (do putCode .described; Encoder.putDescriptor descriptor; write) :=
  steps.bind (steps.put _) fun _ => steps.bind (steps.putDescriptor descriptor) fun _ => behind

/-- The payload of an element of an array. -/
theorem putElementPayload (shared : Code) (payload : Bytes) :
    holds (putElementPayload shared payload) := by
  rw [putElementPayload_eq]
  exact steps.bind (steps.sized _ _) fun _ => steps.bind (steps.put _) fun _ => steps.put _

/-- The symbols of an array behind the shared constructor. -/
theorem putSymbolElements (shared : Code) (names : List String) :
    holds (putSymbolElements shared names) := by
  induction names with
  | nil => exact steps.pure ()
  | cons name rest inductionHypothesis =>
    exact steps.bind (steps.putElementPayload _ _) fun _ => inductionHypothesis

/-- A value that contains no values. For a string the hook is asked. -/
theorem writeValue_simple (below : BodyWriter) (hook : TextEncoder) {value : Value}
    (simple : value.isSimple = true) : holds (writeValue below hook value) := by
  cases value with
  | null | boolean => exact steps.put _
  | uint | ulong => exact steps.putUnsigned _ _ _ _ _
  | int | long => exact steps.putSigned _ _ _ _ _ _
  | binary bytes => exact steps.putPayload _ _
  | string text => exact steps.bind (steps.ask hook text) fun _ => steps.putPayload _ _
  | symbol name => exact steps.putPayload _ _
  | list | map | array | described => cases simple
  | _ => exact steps.bind (steps.put _) fun _ => steps.put _

/-- A value that contains no values, as an element. Null has no element form. What becomes of it is
no step of these, and is left to whoever comes across it. -/
theorem writeElement_simple (below : BodyWriter) (hook : TextEncoder) (shared : Code)
    {value : Value} (simple : value.isSimple = true)
    (null : value = .null → holds (writeElement below hook shared .null)) :
    holds (writeElement below hook shared value) := by
  cases value with
  | null => exact null rfl
  | binary bytes => exact steps.putElementPayload _ _
  | string text => exact steps.bind (steps.ask hook text) fun _ => steps.putElementPayload _ _
  | symbol name => exact steps.putElementPayload _ _
  | list | map | array | described => cases simple
  | _ => exact steps.put _

/-- Whether strings are short is asked of the hook, one string after the other. -/
theorem stringsFit (hook : TextEncoder) (items : List Value) : holds (stringsFit hook items) := by
  induction items with
  | nil => exact steps.pure true
  | cons item rest inductionHypothesis =>
    cases item with
    | string text =>
      exact steps.bind (steps.ask hook text) fun _ =>
        holds_ite inductionHypothesis (steps.pure false)
    | _ => exact inductionHypothesis

/-- A constructor is found, or the elements are refused. -/
theorem elementCode (hook : TextEncoder) (items : List Value) :
    holds (elementCode hook items) := by
  cases items with
  | nil => exact steps.pure _
  | cons first rest =>
    refine holds_ite (steps.refuse _) ?_
    cases first.kind with
    | null | described => exact steps.refuse _
    | string => exact steps.bind (steps.stringsFit hook _) fun _ => steps.pure _
    | _ => exact steps.pure _

end Stepwise

end Amqp.Encoder
