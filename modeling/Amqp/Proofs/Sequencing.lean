/-!
# Computations in a row

A computation with a state either gives a result or fails, and its state survives both.
Two computations in a row run the second one in the state that the first one left, unless
the first one fails.
-/

namespace Amqp

/-- A computation goes on with the result of the one before it. -/
theorem bind_of_ok {ε σ α β : Type} {first : EStateM ε σ α} {next : α → EStateM ε σ β}
    {state after : σ} {result : α} (ran : first state = .ok result after) :
    (first >>= next) state = next result after := by
  change (match first state with
    | .ok result after => next result after
    | .error error after => .error error after) = _
  rw [ran]

/-- A failed computation is not gone on with. -/
theorem bind_of_error {ε σ α β : Type} {first : EStateM ε σ α} {next : α → EStateM ε σ β}
    {state after : σ} {error : ε} (failed : first state = .error error after) :
    (first >>= next) state = .error error after := by
  change (match first state with
    | .ok result after => next result after
    | .error error after => .error error after) = _
  rw [failed]

/-- Two computations in a row succeed only one after the other. -/
theorem ok_of_bind {ε σ α β : Type} {first : EStateM ε σ α} {next : α → EStateM ε σ β}
    {state after : σ} {result : β} (ran : (first >>= next) state = .ok result after) :
    ∃ between middle, first state = .ok between middle ∧
      next between middle = .ok result after := by
  cases front : first state with
  | ok between middle => exact ⟨between, middle, rfl, by rwa [bind_of_ok front] at ran⟩
  | error error middle => rw [bind_of_error front] at ran; cases ran

/-- What a computation is run for is its result. -/
theorem run'_of_ok {ε σ α : Type} {computation : EStateM ε σ α} {state after : σ} {result : α}
    (ran : computation state = .ok result after) : computation.run' state = some result := by
  change (match computation state with
    | .ok result _ => some result
    | .error _ _ => none) = _
  rw [ran]

/-- A failed computation has no result. -/
theorem run'_of_error {ε σ α : Type} {computation : EStateM ε σ α} {state after : σ} {error : ε}
    (failed : computation state = .error error after) : computation.run' state = none := by
  change (match computation state with
    | .ok result _ => some result
    | .error _ _ => none) = _
  rw [failed]

end Amqp
