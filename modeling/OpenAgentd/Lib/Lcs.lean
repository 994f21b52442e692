import Mathlib.Data.List.Basic
import Mathlib.Order.Lattice.Nat
import Mathlib.Tactic.Lemma
import Mathlib.Tactic.TypeStar

/-!
# Longest common subsequences

`lcs a b` is the length of a longest list that is a sublist of `a` and of `b`: no common sublist is longer
(`length_le_lcs`) and there is one of that length (`exists_common`). What two lists share in front or behind counts in
full (`lcs_append_left`, `lcs_append_right`). `rowFrom` computes one row of the usual table from the row above it, and
the rows hold the lengths for the heads of the lists (`rowFrom_entries`, `getElem?_entries`).
-/

namespace OpenAgentd.Lib
variable {α : Type*} {a b c : List α} {x y : α}

/-- What is left of a common sublist behind one item. -/
lemma tail_sublist (sub : c.Sublist (x :: a)) : c.tail.Sublist a := by
  cases sub with
  | cons _ sub => exact (List.tail_sublist c).trans sub
  | cons_cons _ sub => exact sub

/-- Lists that begin with different items share what one of them shares without its first item. -/
lemma sublist_of_ne (ne : x ≠ y) (left : c.Sublist (x :: a)) (right : c.Sublist (y :: b)) :
    c.Sublist a ∨ c.Sublist b := by
  cases left with
  | cons _ left => exact .inl left
  | cons_cons _ left =>
    cases right with
    | cons _ right => exact .inr right
    | cons_cons _ right => exact absurd rfl ne

variable [DecidableEq α]

/-- The length of a longest common subsequence. -/
def lcs : List α → List α → Nat
  | [], _ => 0
  | _ :: _, [] => 0
  | x :: a, y :: b => if x = y then lcs a b + 1 else max (lcs a (y :: b)) (lcs (x :: a) b)
termination_by a b => a.length + b.length

/-- Nothing in common. -/
@[simp] lemma lcs_nil_left : lcs [] b = 0 := by rw [lcs]

/-- Nothing in common. -/
@[simp] lemma lcs_nil_right : lcs a [] = 0 := by cases a <;> rw [lcs]

/-- The recursion. -/
lemma lcs_cons : lcs (x :: a) (y :: b) = if x = y then lcs a b + 1 else max (lcs a (y :: b)) (lcs (x :: a) b) := by
  rw [lcs]

/-- No common sublist is longer. -/
lemma length_le_lcs (left : c.Sublist a) (right : c.Sublist b) : c.length ≤ lcs a b := by
  induction a, b using lcs.induct generalizing c with
  | case1 b =>
    rw [List.sublist_nil.mp left]
    exact Nat.zero_le _
  | case2 x a =>
    rw [List.sublist_nil.mp right]
    exact Nat.zero_le _
  | case3 a x b ih =>
    have rest := ih (tail_sublist left) (tail_sublist right)
    rw [List.length_tail] at rest
    rw [lcs_cons, if_pos rfl]
    omega
  | case4 x a y b ne ihl ihr =>
    rw [lcs_cons, if_neg ne]
    cases sublist_of_ne ne left right with
    | inl left => exact le_max_of_le_left (ihl left right)
    | inr right => exact le_max_of_le_right (ihr left right)

/-- Some common sublist has this length. -/
lemma exists_common (a b : List α) : ∃ c : List α, c.Sublist a ∧ c.Sublist b ∧ c.length = lcs a b := by
  induction a, b using lcs.induct with
  | case1 b => exact ⟨[], .slnil, List.nil_sublist b, lcs_nil_left.symm⟩
  | case2 x a => exact ⟨[], List.nil_sublist _, .slnil, lcs_nil_right.symm⟩
  | case3 a x b ih =>
    obtain ⟨c, left, right, len⟩ := ih
    refine ⟨x :: c, left.cons_cons x, right.cons_cons x, ?_⟩
    rw [lcs_cons, if_pos rfl, List.length_cons, len]
  | case4 x a y b ne ihl ihr =>
    rw [lcs_cons, if_neg ne]
    cases le_total (lcs a (y :: b)) (lcs (x :: a) b) with
    | inl le =>
      obtain ⟨c, left, right, len⟩ := ihr
      exact ⟨c, left, right.cons y, by rw [max_eq_right le, len]⟩
    | inr le =>
      obtain ⟨c, left, right, len⟩ := ihl
      exact ⟨c, left.cons x, right, by rw [max_eq_left le, len]⟩

/-- One more element. -/
lemma lcs_le_cons : lcs a b ≤ lcs (x :: a) b := by
  obtain ⟨c, left, right, len⟩ := exists_common a b
  rw [← len]
  exact length_le_lcs (left.cons x) right

/-- Backwards it is no shorter. -/
lemma lcs_le_reverse (a b : List α) : lcs a b ≤ lcs a.reverse b.reverse := by
  obtain ⟨c, left, right, len⟩ := exists_common a b
  rw [← len, ← List.length_reverse]
  exact length_le_lcs left.reverse right.reverse

/-- The direction in which the lists are read does not matter. -/
lemma lcs_reverse (a b : List α) : lcs a.reverse b.reverse = lcs a b := by
  apply le_antisymm
  · have back := lcs_le_reverse a.reverse b.reverse
    rwa [List.reverse_reverse, List.reverse_reverse] at back
  · exact lcs_le_reverse a b

/-- A common front. -/
lemma lcs_append_left (p a b : List α) : lcs (p ++ a) (p ++ b) = p.length + lcs a b := by
  induction p with
  | nil => exact (Nat.zero_add _).symm
  | cons x p ih =>
    rw [List.cons_append, List.cons_append, lcs_cons, if_pos rfl, ih, List.length_cons]
    omega

/-- A common end. -/
lemma lcs_append_right (a b s : List α) : lcs (a ++ s) (b ++ s) = lcs a b + s.length := by
  have back := lcs_append_left s.reverse a.reverse b.reverse
  rw [← List.reverse_append, ← List.reverse_append, lcs_reverse, lcs_reverse, List.length_reverse] at back
  omega

/-! ## The table -/

/-- The entries of the row of `a` from the list `b` on, behind the list `d`. The lists `a` and `d` come last item
first. -/
def entries (a : List α) : List α → List α → List Nat
  | _, [] => []
  | d, y :: b => lcs a (y :: d) :: entries a (y :: d) b

/-- The rest of a row from the row above: `diag` stands above and before it, `left` before it. -/
def rowFrom (x : α) : List α → Nat → List Nat → Nat → List Nat
  | y :: b, diag, above :: row, left =>
    let entry := if x = y then diag + 1 else max above left
    entry :: rowFrom x b above row entry
  | _, _, _, _ => []

/-- From the row of a list to the row of the list with one more item. -/
lemma rowFrom_entries (x : α) (a d b : List α) :
    rowFrom x b (lcs a d) (entries a d b) (lcs (x :: a) d) = entries (x :: a) d b := by
  induction b generalizing d with
  | nil => rfl
  | cons y b ih =>
    have entry : (if x = y then lcs a d + 1 else max (lcs a (y :: d)) (lcs (x :: a) d)) = lcs (x :: a) (y :: d) :=
      lcs_cons.symm
    rw [entries, rowFrom, entries, entry, ih]

/-- An entry of the row. -/
lemma getElem?_entries {n : Nat} (a d b : List α) (within : n < b.length) :
    (entries a d b)[n]? = some (lcs a ((b.take (n + 1)).reverse ++ d)) := by
  induction b generalizing d n with
  | nil => exact absurd within (Nat.not_lt_zero n)
  | cons y b ih =>
    cases n with
    | zero => rfl
    | succ n =>
      rw [entries, List.getElem?_cons_succ, ih (y :: d) (Nat.lt_of_succ_lt_succ within), List.take_succ_cons,
        List.reverse_cons, List.append_assoc]
      rfl

/-- The first row. -/
lemma entries_nil (d b : List α) : entries [] d b = List.replicate b.length 0 := by
  induction b generalizing d with
  | nil => rfl
  | cons y b ih => rw [entries, ih, lcs_nil_left, List.length_cons, List.replicate_succ]

end OpenAgentd.Lib
