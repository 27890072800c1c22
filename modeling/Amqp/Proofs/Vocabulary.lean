import Amqp.Vocabulary
import Mathlib.Data.List.Nodup

/-!
# Numbers are shown apart

What a number of an enumeration is shown as tells the number, whether it has a name or not. A name
is shown behind two colons and a number without a name in brackets, so neither is taken for the
other. Names tell their numbers because the standard gives no name twice, and digits do because
numbers can be read back from them.
-/

namespace Amqp.OpenEnumeration

/-- No name of the standard is given to two numbers. This is looked up in the tables, one
enumeration after the other. -/
theorem names_nodup {enumeration : OpenEnumeration} (member : enumeration ∈ all) :
    (enumeration.names.map Prod.snd).Nodup := by
  have each : all.all fun enumeration => decide (enumeration.names.map Prod.snd).Nodup := by
    decide +kernel
  exact of_decide_eq_true (List.all_eq_true.mp each enumeration member)

/-- A number that has a name is listed with it. -/
theorem mem_of_lookup {names : List (Nat × String)} {number : Nat} {name : String}
    (found : names.lookup number = some name) : (number, name) ∈ names := by
  obtain ⟨before, after, rfl, -⟩ := List.lookup_eq_some_iff.mp found
  exact List.mem_append_right _ List.mem_cons_self

/-- Behind one title, names are never shown as bracketed numbers are: the next character is a
colon or a bracket. -/
theorem named_ne_bracketed (title name : String) (number : Nat) :
    title ++ "::" ++ name ≠ title ++ "(" ++ toString number ++ ")" := by
  intro same
  rw [String.append_assoc, String.append_assoc, String.append_assoc,
    String.append_right_inj] at same
  have first := congrArg (·.toList.head?) same
  simp at first

/-- Numbers are shown apart: two of them are shown alike only if they are one number. No more is
asked of an enumeration than that its names are distinct.

Proof: Two names that are alike belong to one number, since names are distinct. A name is never
shown as a bracketed number is. And two numbers in brackets have the same digits, from which they
are read back. -/
theorem display_injective {enumeration : OpenEnumeration}
    (distinct : (enumeration.names.map Prod.snd).Nodup) :
    Function.Injective enumeration.display := by
  intro one other same
  unfold display at same
  split at same
  · next name found =>
    split at same
    · next name' found' =>
      have alike : name = name' := (String.append_right_inj _).mp same
      exact congrArg Prod.fst (List.inj_on_of_nodup_map distinct (mem_of_lookup found)
        (mem_of_lookup found') alike)
    · exact absurd same (named_ne_bracketed _ _ _)
  · split at same
    · exact absurd same.symm (named_ne_bracketed _ _ _)
    · rw [String.append_left_inj, String.append_right_inj] at same
      have digits : Nat.toDigits 10 one = Nat.toDigits 10 other := by
        rw [← Nat.toList_repr, ← Nat.toList_repr]
        exact congrArg String.toList same
      rw [← Nat.ofDigitChars_ten_toDigits (n := one), digits, Nat.ofDigitChars_ten_toDigits]

end Amqp.OpenEnumeration
