import Amqp.Proofs.Decoder.Containers

/-!
# Passing over values

Passing over a value trusts the announced sizes and looks inside nothing but a described
value. The byte strings that are passed over are therefore more than the encodings: the
same frames, around any content of the announced size.
-/

namespace Amqp

namespace Grammar

/-- What is passed over behind a constructor, given what is passed over one level further
down, if there is a level. -/
inductive Passage (below : Option (Code → Bytes → Unit → Prop)) : Code → Bytes → Unit → Prop
  | fixed {code : Code} {content : Bytes} (category : code.category = .fixed content.length) :
      Passage below code content ()
  | counted {code : Code} {width : Nat} {content : Bytes}
      (category : code.category = .variable width) (fits : content.length < 256 ^ width) :
      Passage below code (Grammar.counted width content) ()
  | compound {code : Code} {width count : Nat} {content : Bytes}
      (category : code.category = .compound width) (paid : count ≤ content.length)
      (fits : width + content.length < 256 ^ width) :
      Passage below code (frame width count content) ()
  | described {inside : Code → Bytes → Unit → Prop} {front back : Bytes}
      (level : below = some inside) (label : Coded inside front ()) (body : Coded inside back ()) :
      Passage below .described (front ++ back) ()

/-- What is passed over behind a constructor within so many levels. -/
def passage : (levels : Nat) → Code → Bytes → Unit → Prop
  | 0 => Passage none
  | levels + 1 => Passage (some (passage levels))

/-- What is passed one level further down, if a level is left. -/
def passageBelow : (levels : Nat) → Option (Code → Bytes → Unit → Prop)
  | 0 => none
  | levels + 1 => some (passage levels)

/-- What is passed within so many levels contains what is passed one level further down. -/
theorem passage_eq (levels : Nat) : passage levels = Passage (passageBelow levels) := by
  cases levels <;> rfl

/-- What is passed over as a value within so many levels. -/
def Passable (levels : Nat) : Bytes → Unit → Prop := Coded (passage levels)

end Grammar

namespace Decoder

open Source (Lawful)
open Source.Lawful (Settled Facing)
open Grammar

variable {σ : Type} [Source σ] [Lawful σ]

/-- A way of passing over contained values and what it passes over, unless no level is
left. -/
inductive InnerPasses : Inner σ Unit → Option (Code → Bytes → Unit → Prop) → Prop
  | exhausted : InnerPasses none none
  | deeper {skip : Code → Fetch σ Unit} {inside : Code → Bytes → Unit → Prop}
      (parses : ∀ code, Parses (skip code) (inside code)) : InnerPasses (some skip) (some inside)

/-- Passing over what is behind a constructor accepts the passages of that constructor. The cases
are the classes of constructors, and within a case the passages of the other classes are ruled
out by the class itself. -/
theorem parses_skipWith {settings : DecoderSettings} {inner : Inner σ Unit}
    {below : Option (Code → Bytes → Unit → Prop)} (deeper : InnerPasses inner below)
    (code : Code) : Parses (skipWith settings inner code) (Passage below code) := by
  unfold skipWith
  cases category : code.category with
  | fixed width =>
    apply (parses_skip width).congr
    intro bytes result
    constructor
    · rintro rfl
      exact .fixed category
    · intro passage
      cases passage with
      | fixed category' => rw [category] at category'; exact (Category.fixed.inj category').symm
      | described => cases category
      | _ => simp_all
  | «variable» width =>
    refine ((parses_readNat width).bind fun length => parses_ensured (parses_skip length)
      fun bytes _ word => Nat.le_of_eq word.symm).congr fun bytes result => ?_
    constructor
    · rintro ⟨_, content, _, rfl, ⟨fits, rfl⟩, rfl⟩
      exact .counted category fits
    · intro passage
      cases passage with
      | counted category' fits =>
        rw [category] at category'
        cases category'
        exact ⟨_, _, _, rfl, ⟨fits, rfl⟩, rfl⟩
      | described => cases category
      | _ => simp_all
  | compound width =>
    refine (parses_readHeader (fun header => parses_skip header.size) fun header content _ word =>
      word).congr fun bytes result => ?_
    constructor
    · rintro ⟨count, content, rfl, _, fits, paid, _⟩
      exact .compound category paid fits
    · intro passage
      cases passage with
      | compound category' paid fits =>
        rw [category] at category'
        cases category'
        exact ⟨_, _, rfl, by omega, fits, paid, rfl⟩
      | described => cases category
      | _ => simp_all
  | described =>
    obtain rfl : code = .described := by cases code <;> first | rfl | cases category
    cases deeper with
    | exhausted =>
      refine (parses_throw _).congr fun bytes result => ⟨False.elim, fun passage => ?_⟩
      cases passage <;> contradiction
    | deeper parses =>
      refine ((parses_coded parses).bind fun _ => parses_coded parses).congr
        fun bytes result => ?_
      constructor
      · rintro ⟨front, back, _, rfl, label, body⟩
        exact .described rfl label body
      · intro passage
        cases passage with
        | described level label body =>
          cases level
          exact ⟨_, _, (), rfl, label, body⟩
        | fixed category => cases category
        | counted category => cases category
        | compound category => cases category

/-- The way of passing one level further down passes over what that level has. -/
theorem innerPasses (settings : DecoderSettings) (levels : Nat) :
    InnerPasses (innerSkip settings levels : Inner σ Unit) (passageBelow levels) := by
  induction levels with
  | zero => exact .exhausted
  | succ levels deeper =>
    apply InnerPasses.deeper
    intro code
    rw [passage_eq]
    exact parses_skipWith deeper code

/-- Passing over a value, whether its first byte is held already or not, accepts exactly
what is passable within the levels of the session. -/
theorem parsesFrom_skipValue (settings : DecoderSettings) :
    ParsesFrom Facing (skipValue settings : Fetch σ Unit) (Passable settings.maxDepth) := by
  have deeper := @innerPasses σ _ _ settings settings.maxDepth
  unfold Passable
  rw [passage_eq]
  exact parsesFrom_readCode.coded fun code => parses_skipWith deeper code

end Decoder

end Amqp
