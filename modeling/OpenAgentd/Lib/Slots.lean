import Mathlib.Tactic.Lemma
import Mathlib.Tactic.TypeStar

/-!
# Slots

Lists whose places are names: a place is filled anew, or a place is added at the end.
-/

namespace OpenAgentd.Lib

section
variable {α : Type*} {xs : List α} {x y z : α} {i j : Nat}

/-- A place is filled anew. -/
lemma getElem?_set_iff (here : xs[i]? = some x) : (xs.set i y)[j]? = some z ↔ j = i ∧ z = y ∨ j ≠ i ∧ xs[j]? = some z := by
  by_cases own : j = i
  · rw [own, List.getElem?_set_self (List.getElem?_eq_some_iff.mp here).1]
    constructor
    · intro e
      cases e
      exact .inl ⟨rfl, rfl⟩
    · intro either
      cases either with
      | inl new => rw [new.2]
      | inr old => exact absurd rfl old.1
  · rw [List.getElem?_set_ne (Ne.symm own)]
    constructor
    · exact fun old => .inr ⟨own, old⟩
    · intro either
      cases either with
      | inl new => exact absurd new.1 own
      | inr old => exact old.2

/-- A place is added. -/
lemma getElem?_snoc_iff : (xs ++ [y])[j]? = some z ↔ xs[j]? = some z ∨ j = xs.length ∧ z = y := by
  rw [List.getElem?_append]
  split
  next inside =>
    refine (or_iff_left fun new => ?_).symm
    rw [new.1] at inside
    exact Nat.lt_irrefl _ inside
  next beyond =>
    have none : xs[j]? = none := List.getElem?_eq_none (Nat.not_lt.mp beyond)
    rw [none]
    cases gap : j - xs.length with
    | zero =>
      have last : j = xs.length := Nat.le_antisymm (Nat.sub_eq_zero_iff_le.mp gap) (Nat.not_lt.mp beyond)
      constructor
      · intro e
        cases e
        exact .inr ⟨last, rfl⟩
      · intro either
        cases either with
        | inl old => cases old
        | inr new => rw [new.2]; rfl
    | succ k =>
      constructor
      · intro e
        cases e
      · intro either
        cases either with
        | inl old => cases old
        | inr new =>
          rw [new.1, Nat.sub_self] at gap
          cases gap

end

end OpenAgentd.Lib
