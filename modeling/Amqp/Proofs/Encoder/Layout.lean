import Amqp.Proofs.Encoder.Arrays

/-!
# Laying out an array with any hook

A hook may answer differently each time it is asked. So the constructor that an array of strings
is laid out with says nothing of how long the strings are when they are written, only that it is
one of strings. Of other elements the constructor is the one that they always share, because no
hook is asked about them.
-/

namespace Amqp.Encoder

open Canonical (Behind fullCode)

/-- The constructors that a value can share as an element, whatever the hook answers. -/
def Shares (shared : Code) : Value → Prop
  | .string _ => shared = .string8 ∨ shared = .string32
  | value => Behind Utf8.encode shared value

/-- A constructor that is shared is not the announcing byte, and has a width. So behind it every
element takes a byte at least, and the count of an array is paid for. -/
theorem Shares.takes {shared : Code} {value : Value} (shares : Shares shared value) :
    shared ≠ .described ∧ shared.category ≠ .fixed 0 := by
  cases value with
  | null | described => cases shares
  | string text =>
    rcases shares with rfl | rfl
    all_goals exact ⟨by decide, by decide⟩
  | binary bytes =>
    obtain ⟨rfl, _⟩ | rfl := shares
    all_goals exact ⟨by decide, by decide⟩
  | symbol name =>
    obtain ⟨rfl, _⟩ | rfl := shares
    all_goals exact ⟨by decide, by decide⟩
  | _ =>
    obtain rfl := shares
    exact ⟨nofun, nofun⟩

/-- Null has no constructor to share. -/
theorem Shares.ne_null {shared : Code} {value : Value} (shares : Shares shared value) :
    value.kind ≠ .null := by
  cases value with
  | null => cases shares
  | _ => exact nofun

/-- Of a value that is not a string the hook has no say. -/
theorem Shares.behind {shared : Code} {value : Value} (shares : Shares shared value)
    (textless : value.kind ≠ .string) : Behind Utf8.encode shared value := by
  cases value with
  | string => exact absurd rfl textless
  | _ => exact shares

/-- A value that shares a constructor is not described. -/
theorem Shares.label {shared : Code} {value : Value} (shares : Shares shared value) :
    value.label? = none := by
  cases value with
  | described => cases shares
  | _ => rfl

variable {hook : TextEncoder} {items : List Value}

/-- The hook is not asked about elements that are not strings, so any other hook would do. -/
theorem elementCode_unasked {first : Value} (rest : List Value) (others : first.kind ≠ .string) :
    elementCode hook (first :: rest) = elementCode (.ofPure Utf8.encode) (first :: rest) := by
  unfold elementCode
  simp only
  split
  · rfl
  · cases kind : first.kind <;> first | rfl | contradiction

/-- A constructor is found only of elements that are alike, and then all of them can share it. Of
strings this is no promise about their lengths. -/
theorem shares_of_elementCode {state after : State} {code : Code}
    (ran : elementCode hook items state = .ok code after) : ∀ item ∈ items, Shares code item := by
  intro item member
  cases items with
  | nil => cases member
  | cons first rest =>
    by_cases strings : first.kind = .string
    · simp only [elementCode, strings] at ran
      split at ran
      · cases ran
      · next alike =>
        obtain ⟨fits, between, _, chosen⟩ := ok_of_bind ran
        cases chosen
        have kind : item.kind = .string := Decidable.byContradiction fun other =>
          alike (List.any_eq_true.mpr ⟨item, member, decide_eq_true other⟩)
        cases item with
        | string text =>
          cases fits with
          | true => exact .inl rfl
          | false => exact .inr rfl
        | _ => cases kind
    · rw [elementCode_unasked rest strings] at ran
      obtain ⟨⟨kind, notNull, notDescribed, same⟩, rfl, _⟩ :=
        (writes_elementCode Utf8.encode (first :: rest)).sound ran
      have behind := @Canonical.behind_sharedCode Utf8.encode _ kind notNull notDescribed same item
        member
      cases item with
      | string text =>
        exact absurd ((same first List.mem_cons_self).trans (same _ member).symm) strings
      | _ => exact behind

/-- A layout of an array: the elements have one descriptor, or none, and what is held of them, which
is a raw body of a described element, can share the constructor. -/
structure LaysOut (raw : Described → Value) (items : List Value) (layout : ArrayLayout) :
    Prop where
  labelled : ∃ label, layout.raw = label.map (·, items.map (held raw)) ∧
    ∀ item ∈ items, item.label? = label
  shares : ∀ item ∈ items, Shares layout.code (held raw item)
  plain : layout.code ≠ .described

variable {below : BodyWriter} {raw : Described → Value}

/-- Whatever layout is found, it is one of the elements. An array without elements has a
constructor that nothing shares, and one of described elements holds their raw bodies. -/
theorem laysOut_of_arrayLayout (sound : PartsSound below raw items) {state after : State}
    {layout : ArrayLayout}
    (ran : arrayLayout hook items (fun _ => rawBodies below none [] items) state =
      .ok layout after) : LaysOut raw items layout := by
  cases items with
  | nil =>
    cases ran
    exact ⟨⟨none, rfl, nofun⟩, nofun, nofun⟩
  | cons first rest =>
    have plain {state : State} (ran :
        (do return ArrayLayout.mk (← elementCode hook (first :: rest)) none : Emit _) state =
          .ok layout after) : LaysOut raw (first :: rest) layout := by
      obtain ⟨code, between, found, ran⟩ := ok_of_bind ran
      cases ran
      have shares := shares_of_elementCode found
      have labelled (item : Value) (member : item ∈ first :: rest) := (shares item member).label
      refine ⟨⟨none, rfl, labelled⟩, fun item member => ?_,
        (shares first List.mem_cons_self).takes.1⟩
      rw [held_of_plain (labelled item member)]
      exact shares item member
    cases first with
    | described contained =>
      rw [arrayLayout] at ran
      cases parts : rawBodies below none [] (.described contained :: rest) with
      | error failure =>
        rw [parts] at ran
        cases ran
      | ok found =>
        obtain ⟨shared, bodies⟩ := found
        rw [parts] at ran
        obtain ⟨code, between, found, ran⟩ := ok_of_bind ran
        cases ran
        obtain ⟨rfl, labelled, _, _⟩ := of_rawBodies sound parts
        have shares := shares_of_elementCode found
        exact ⟨⟨shared, rfl, fun item member => (labelled item member).1⟩,
          fun item member => shares _ (List.mem_map_of_mem member),
          (shares _ (List.mem_map_of_mem List.mem_cons_self)).takes.1⟩
    | _ => exact plain ran

end Amqp.Encoder
