import Amqp.Proofs.Encoder.Atomicity

/-!
# Guards inside a guard

A writer may guard each part of what it writes, so that nothing of a part is left behind, or
guard the whole only. Under a guard of the whole there is no difference: whatever a failure of a
part leaves behind is cut off in the end. Two computations therefore coincide if they come to
the same under a guard, and what is put together from parts that coincide coincides again.

The parts in front must leave the sink as long as they find it. Without that the inner guard
would cut deeper than the outer one.
-/

namespace Amqp

namespace Sink

/-- Cutting back twice is cutting back to the shorter length. -/
theorem truncate_truncate (sink : Sink) {length more : Nat} (le : length ≤ more) :
    (sink.truncate more).truncate length = sink.truncate length := by
  refine eq_of_toBytes rfl ?_
  rw [toBytes_truncate, toBytes_truncate, toBytes_truncate, List.take_take, Nat.min_eq_left le]

end Sink

namespace Encoder

variable {α β : Type}

/-- Two computations that come to the same once what a failure leaves behind is cut off. -/
def Coincide (write other : Emit α) : Prop := atomic write = atomic other

/-- Only what a computation comes to in the state at hand matters for what is cut back. -/
theorem orCutBack_congr {write other : Emit α} {state : State} (same : write state = other state)
    (length : Nat) : orCutBack length write state = orCutBack length other state := by
  rw [orCutBack, orCutBack, same]

/-- A guard inside a guard that cuts deeper makes no difference. -/
theorem orCutBack_orCutBack (write : Emit α) {length more : Nat} (le : length ≤ more) :
    orCutBack length (orCutBack more write) = orCutBack length write := by
  funext state
  rw [orCutBack, orCutBack, orCutBack]
  cases write state with
  | ok result after => rfl
  | error failure after => simp only [Sink.truncate_truncate after.sink le]

/-- A guarded computation coincides with the computation itself. -/
theorem coincide_atomic (write : Emit α) : Coincide (atomic write) write := by
  funext state
  exact congrFun (orCutBack_orCutBack write (Nat.le_refl _)) state

/-- What keeps the bytes in front of it does not shorten the sink. -/
theorem KeepsFront.written_le {write : Emit α} (keeps : KeepsFront write) {state after : State}
    {result : α} (ran : write state = .ok result after) :
    state.sink.written ≤ after.sink.written := by
  have kept := keeps state
  rw [ran] at kept
  rw [Sink.written_eq_length, Sink.written_eq_length, ← kept]
  exact List.length_take_le' _ _

/-- Computations in a row coincide if each is, and the first does not shorten the sink. The
second one is guarded where the first one ended, and that guard lies inside the guard of both,
because the first one ended no further in front than it began. -/
theorem Coincide.bind {write write' : Emit α} {next next' : α → Emit β}
    (first : Coincide write write') (keeps : KeepsFront write)
    (second : ∀ result, Coincide (next result) (next' result)) :
    Coincide (write >>= next) (write' >>= next') := by
  funext state
  have first : orCutBack state.sink.written write state =
      orCutBack state.sink.written write' state := congrFun first state
  rw [atomic, atomic]
  cases ran : write state with
  | error failure after =>
    rw [orCutBack, orCutBack, ran] at first
    cases ran' : write' state with
    | ok result after' => rw [ran'] at first; cases first
    | error failure' after' =>
      rw [ran'] at first
      obtain ⟨rfl, same⟩ := EStateM.Result.error.inj first
      rw [orCutBack, orCutBack, bind_of_error ran, bind_of_error ran']
      exact congrArg (EStateM.Result.error failure) same
  | ok result middle =>
    have longer := keeps.written_le ran
    rw [orCutBack, orCutBack, ran] at first
    cases ran' : write' state with
    | error failure after' => rw [ran'] at first; cases first
    | ok result' middle' =>
      rw [ran'] at first
      obtain ⟨rfl, rfl⟩ := EStateM.Result.ok.inj first
      -- The inner guard cuts back to the middle, which the outer one reaches as well.
      have second : orCutBack middle.sink.written (next result) middle =
          orCutBack middle.sink.written (next' result) middle := congrFun (second result) middle
      calc orCutBack state.sink.written (write >>= next) state
          = orCutBack state.sink.written (next result) middle := by
            rw [orCutBack, bind_of_ok ran]; rfl
        _ = orCutBack state.sink.written (orCutBack middle.sink.written (next result)) middle := by
            rw [orCutBack_orCutBack _ longer]
        _ = orCutBack state.sink.written (orCutBack middle.sink.written (next' result)) middle :=
            orCutBack_congr second _
        _ = orCutBack state.sink.written (next' result) middle := by
            rw [orCutBack_orCutBack _ longer]
        _ = orCutBack state.sink.written (write' >>= next') state := by
            rw [orCutBack, orCutBack, bind_of_ok ran']

/-- Opening a container keeps the bytes in front of it. -/
theorem keepsFront_openContainer (narrow : Code) : KeepsFront (openContainer narrow) := by
  intro state
  rw [openContainer_eq]
  exact Sink.take_toBytes_put _ _

/-- Containers coincide if what is written into them is. The mark is the same for both, as
nothing that is guarded stands in front of it. -/
theorem coincide_container {write other : Emit Unit} (coincides : Coincide write other)
    (keeps : KeepsFront write) (narrow : Code) (count : Nat) (wide : Bool) :
    Coincide (do
        let mark ← openContainer narrow
        write
        closeContainer mark count wide) (do
        let mark ← openContainer narrow
        other
        closeContainer mark count wide) :=
  Coincide.bind rfl (keepsFront_openContainer narrow) fun _ => coincides.bind keeps fun _ => rfl

/-- Things that are written one after the other coincide if each of them is. -/
theorem coincide_putEach {write other : α → Emit Unit} {items : List α}
    (each : ∀ item ∈ items, Coincide (write item) (other item))
    (keeps : ∀ item ∈ items, KeepsFront (write item)) :
    Coincide (putEach write items) (putEach other items) := by
  induction items with
  | nil => rfl
  | cons item rest inductionHypothesis =>
    obtain ⟨first, later⟩ := List.forall_mem_cons.mp each
    obtain ⟨keeps, kept⟩ := List.forall_mem_cons.mp keeps
    exact first.bind keeps fun _ => inductionHypothesis later kept

end Encoder

end Amqp
