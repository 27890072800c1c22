import Amqp.Error

/-!
# Readers, which deliver bytes piece by piece

What a reader will do is a script of events: pieces of bytes, interruptions, an end
of input that may be followed by more, and failures that pass or stay. Asked for so
many bytes, a reader goes through its script until it has them, ends or fails. An
interruption is never seen by the one who asks. Where the pieces are cut is not seen
either, but bytes delivered before an end or a failure are gone from the script.
-/

namespace Amqp

/-- One event in the script of a reader. -/
inductive ReaderEvent where
  /-- Some bytes arrive. -/
  | piece (bytes : Bytes)
  /-- A read is interrupted and has to be tried again. -/
  | interrupted
  /-- The reader says once that the input has ended. -/
  | ended
  /-- A read fails once. -/
  | failed (failure : IoFailure)
  /-- Every read from here on fails. -/
  | stuck (failure : IoFailure)
  deriving DecidableEq, Repr

/-- A reader, given by its script. After the script the input has ended for good. -/
abbrev Reader := List ReaderEvent

namespace Reader

/-- Why a request for bytes came to its end. -/
inductive Stop where
  | satisfied
  | ended
  | failed (failure : IoFailure)
  deriving DecidableEq, Repr

/-- The outcome of a request: the bytes delivered, why no more were, and what is left
of the script. -/
structure Delivery where
  bytes : Bytes
  stop : Stop
  after : Reader

/-- A delivery by the bytes delivered and the reason why no more were. -/
theorem Delivery.eq_mk {delivery : Delivery} {bytes : Bytes} {stop : Stop}
    (same : delivery.bytes = bytes) (stopped : delivery.stop = stop) :
    delivery = ⟨bytes, stop, delivery.after⟩ := by
  subst same stopped
  rfl

/-- Ask a reader for so many bytes. -/
def pull : (wanted : Nat) → Reader → Delivery
  | 0, script => ⟨[], .satisfied, script⟩
  | _ + 1, [] => ⟨[], .ended, []⟩
  | wanted + 1, .piece bytes :: script =>
    let got := bytes.take (wanted + 1)
    if got.length = wanted + 1 then
      ⟨got, .satisfied, .piece (bytes.drop (wanted + 1)) :: script⟩
    else
      let later := pull (wanted + 1 - got.length) script
      ⟨got ++ later.bytes, later.stop, later.after⟩
  | wanted + 1, .interrupted :: script => pull (wanted + 1) script
  | _ + 1, .ended :: script => ⟨[], .ended, script⟩
  | _ + 1, .failed failure :: script => ⟨[], .failed failure, script⟩
  | _ + 1, .stuck failure :: script => ⟨[], .failed failure, .stuck failure :: script⟩
termination_by structural _ script => script

/-- The bytes that a reader has not delivered. -/
def undelivered (reader : Reader) : Bytes :=
  reader.flatMap fun
    | .piece bytes => bytes
    | _ => []

/-- A request never delivers more than was asked for. A piece is cut where the request is
complete, and otherwise the induction hypothesis is about what is still wanted. -/
theorem length_pull_le (wanted : Nat) (reader : Reader) :
    (pull wanted reader).bytes.length ≤ wanted := by
  induction reader generalizing wanted with
  | nil => cases wanted <;> simp [pull]
  | cons event script inductionHypothesis =>
    cases wanted with
    | zero => simp [pull]
    | succ wanted =>
      cases event with
      | piece bytes =>
        rw [pull]
        split
        · simp_all
        · have bound := inductionHypothesis (wanted + 1 - (bytes.take (wanted + 1)).length)
          have short : (bytes.take (wanted + 1)).length ≤ wanted + 1 :=
            List.length_take_le _ _
          simp only [List.length_append]
          omega
      | interrupted => rw [pull]; exact inductionHypothesis _
      | ended => simp [pull]
      | failed failure => simp [pull]
      | stuck failure => simp [pull]

/-- A satisfied request delivers as much as was asked for. The pieces on the way add up: each of
them lowers what is still wanted by its length, until one completes the request. -/
theorem length_pull_of_satisfied {wanted : Nat} {reader : Reader}
    (satisfied : (pull wanted reader).stop = .satisfied) :
    (pull wanted reader).bytes.length = wanted := by
  induction reader generalizing wanted with
  | nil => cases wanted <;> simp_all [pull]
  | cons event script inductionHypothesis =>
    cases wanted with
    | zero => simp [pull]
    | succ wanted =>
      cases event with
      | piece bytes =>
        rw [pull] at satisfied ⊢
        split
        · next full => simpa using full
        · next short =>
          simp only [short, if_false] at satisfied
          have bound := inductionHypothesis satisfied
          have within : (bytes.take (wanted + 1)).length ≤ wanted + 1 :=
            List.length_take_le _ _
          simp only [List.length_append, bound]
          omega
      | interrupted => rw [pull] at satisfied ⊢; exact inductionHypothesis satisfied
      | ended => simp [pull] at satisfied
      | failed failure => simp [pull] at satisfied
      | stuck failure => simp [pull] at satisfied

/-- A request that is not cut short is satisfied. So the number of bytes alone tells whether a
request was met, which is how the requests of a stream tell it. -/
theorem satisfied_of_length_pull {wanted : Nat} {reader : Reader}
    (full : (pull wanted reader).bytes.length = wanted) :
    (pull wanted reader).stop = .satisfied := by
  induction reader generalizing wanted with
  | nil => cases wanted <;> simp_all [pull]
  | cons event script inductionHypothesis =>
    cases wanted with
    | zero => simp [pull]
    | succ wanted =>
      cases event with
      | piece bytes =>
        rw [pull] at full ⊢
        split
        · rfl
        · next short =>
          simp only [short, if_false, List.length_append] at full
          exact inductionHypothesis (by omega)
      | interrupted => exact inductionHypothesis full
      | ended | failed | stuck => simp [pull] at full

/-- What is delivered comes off the front of what was undelivered, whatever the reader does on
the way and however the request ends. The law is without a premise because no byte is ever
dropped by a reader: only those that were delivered to a request that fails are gone. -/
theorem undelivered_pull (wanted : Nat) (reader : Reader) :
    (pull wanted reader).bytes ++ undelivered (pull wanted reader).after =
      undelivered reader := by
  induction reader generalizing wanted with
  | nil => cases wanted <;> simp [pull, undelivered]
  | cons event script inductionHypothesis =>
    cases wanted with
    | zero => simp [pull]
    | succ wanted =>
      cases event with
      | piece bytes =>
        rw [pull]
        split
        · simp only [undelivered, List.flatMap_cons, ← List.append_assoc,
            List.take_append_drop]
        · next short =>
          have whole : bytes.take (wanted + 1) = bytes := by
            apply List.take_of_length_le
            simp only [List.length_take] at short
            omega
          simp only [whole, List.append_assoc, inductionHypothesis]
          simp [undelivered]
      | interrupted => rw [pull, inductionHypothesis]; simp [undelivered]
      | ended => simp [pull, undelivered]
      | failed failure => simp [pull, undelivered]
      | stuck failure => simp [pull, undelivered]

end Reader

end Amqp
