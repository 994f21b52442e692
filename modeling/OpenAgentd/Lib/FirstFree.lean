import Mathlib.Data.List.Nodup
import Mathlib.Data.List.Perm.Subperm
import Mathlib.Tactic.Lemma
import Mathlib.Tactic.TypeStar

/-!
# The first free candidate

Candidates are numbered from zero and tried one after the other until one is not taken. When the candidates behind
the first one differ and only finitely many names are taken, one is found (`firstFree_spec`).
-/

namespace OpenAgentd.Lib

section
variable {α : Type*} {taken : α → Bool} {candidate : Nat → α} {fuel start i j : Nat}

/-- The number of the first candidate from `start` on that is not taken. -/
def firstFree (taken : α → Bool) (candidate : Nat → α) : Nat → Nat → Nat
  | 0, start => start
  | fuel + 1, start => if taken (candidate start) then firstFree taken candidate fuel (start + 1) else start

/-- The candidate with the number `i` is free, and all in front of it are taken. -/
structure IsFirstFree (taken : α → Bool) (candidate : Nat → α) (i : Nat) : Prop where
  free : taken (candidate i) = false
  before : ∀ j, j < i → taken (candidate j) = true

/-- There is one first free candidate. -/
lemma IsFirstFree.unique (hi : IsFirstFree taken candidate i) (hj : IsFirstFree taken candidate j) : i = j := by
  rcases Nat.lt_trichotomy i j with less | same | more
  · have earlier := hj.before i less
    rw [hi.free] at earlier
    cases earlier
  · exact same
  · have earlier := hi.before j more
    rw [hj.free] at earlier
    cases earlier

/-- The search stops at a free candidate or has found all it tried to be taken. -/
lemma firstFree_cases (taken : α → Bool) (candidate : Nat → α) (fuel start : Nat) :
    start ≤ firstFree taken candidate fuel start ∧
      (∀ j, start ≤ j → j < firstFree taken candidate fuel start → taken (candidate j) = true) ∧
        (taken (candidate (firstFree taken candidate fuel start)) = false ∨
          firstFree taken candidate fuel start = start + fuel) := by
  induction fuel generalizing start with
  | zero => exact ⟨Nat.le_refl _, fun j low high => absurd high (Nat.not_lt.mpr low), .inr rfl⟩
  | succ fuel ih =>
    rw [firstFree]
    split
    next here =>
      obtain ⟨low, before, either⟩ := ih (start + 1)
      refine ⟨by omega, fun j from_ high => ?_, ?_⟩
      · rcases Nat.eq_or_lt_of_le from_ with rfl | later
        · exact here
        · exact before j later high
      · cases either with
        | inl free => exact .inl free
        | inr all => exact .inr (by omega)
    next free =>
      rw [Bool.not_eq_true] at free
      exact ⟨Nat.le_refl _, fun j low high => absurd high (Nat.not_lt.mpr low), .inl free⟩

/-- Among more candidates than there are names one is free. -/
lemma firstFree_spec {names : List α} (all : ∀ x, taken x = true → x ∈ names)
    (distinct : ∀ i j, candidate (i + 1) = candidate (j + 1) → i = j) :
    IsFirstFree taken candidate (firstFree taken candidate (names.length + 2) 0) := by
  obtain ⟨_, before, either⟩ := firstFree_cases taken candidate (names.length + 2) 0
  refine ⟨?_, fun j => before j (Nat.zero_le j)⟩
  cases either with
  | inl free => exact free
  | inr full =>
    -- the candidates from one on are more than the names
    have nodup : ((List.range (names.length + 1)).map fun i => candidate (i + 1)).Nodup :=
      List.Nodup.map (fun i j e => distinct i j e) List.nodup_range
    have inside : ((List.range (names.length + 1)).map fun i => candidate (i + 1)) ⊆ names := by
      intro x mem
      obtain ⟨i, tried, rfl⟩ := List.mem_map.mp mem
      apply all
      apply before (i + 1) (Nat.zero_le _)
      rw [full]
      have := List.mem_range.mp tried
      omega
    have len := (nodup.subperm inside).length_le
    rw [List.length_map, List.length_range] at len
    exact absurd len (Nat.not_succ_le_self _)

end

end OpenAgentd.Lib
