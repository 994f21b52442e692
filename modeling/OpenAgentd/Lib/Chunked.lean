import Mathlib.Data.List.Infix
import Mathlib.Data.List.Nodup
import Mathlib.Tactic.Lemma
import Mathlib.Tactic.TypeStar

/-!
# A search in blocks

A list that comes in blocks is searched for some needles, one block at a time, with the end of what was read before in
front of it. When that end is as long as the longest needle but for one element, the search finds what stands in the
whole list (`searchBlocks_iff`), wherever the blocks are cut.
-/

namespace OpenAgentd.Lib

section
variable {α : Type*}

/-- The last elements, `n` of them if there are that many. -/
def lastN (n : Nat) (l : List α) : List α := l.drop (l.length - n)

/-- The blocks that reads of `n` elements return. -/
def blocksOf (n : Nat) (l : List α) : List (List α) :=
  (List.range ((l.length + n - 1) / n)).map fun i => (l.drop (i * n)).take n

/-- The search, with the end of what was read before. -/
def searchBlocks [DecidableEq α] (overlap : Nat) (needles : List (List α)) : List α → List (List α) → Bool
  | _, [] => false
  | tail, block :: blocks =>
    if needles.any fun needle => needle <:+: tail ++ block then true
    else searchBlocks overlap needles (lastN overlap (tail ++ block)) blocks

variable {n overlap : Nat} {l a b : List α} {needle : List α} {needles blocks : List (List α)}

/-- The blocks make the list. -/
lemma flatten_blocksOf (pos : 0 < n) (l : List α) : (blocksOf n l).flatten = l := by
  have front : ∀ k, ((List.range k).map fun i => (l.drop (i * n)).take n).flatten = l.take (k * n) := by
    intro k
    induction k with
    | zero => simp
    | succ k ih =>
      rw [List.range_succ, List.map_append, List.flatten_append, ih, Nat.succ_mul, List.take_add]
      simp
  have enough : l.length ≤ (l.length + n - 1) / n * n := by
    have up := Nat.div_add_mod (l.length + n - 1) n
    have low := Nat.mod_lt (l.length + n - 1) pos
    rw [Nat.mul_comm]
    omega
  rw [blocksOf, front, List.take_of_length_le enough]

/-- The last of the last and more. -/
lemma lastN_append (n : Nat) (a b : List α) : lastN n (lastN n a ++ b) = lastN n (a ++ b) := by
  unfold lastN
  rw [List.length_append, List.length_append, List.length_drop, ← List.drop_append_of_le_length (Nat.sub_le _ _),
    List.drop_drop]
  congr 1
  omega

/-- What is new behind some elements stands at their end and the rest. -/
lemma infix_lastN (new : needle <:+: a ++ b) (old : ¬ needle <:+: a) (short : needle.length ≤ overlap + 1) :
    needle <:+: lastN overlap a ++ b := by
  obtain ⟨front, back, e⟩ := new
  have behind : a.length - overlap ≤ front.length := by
    by_contra early
    apply old
    have inside : front ++ needle <+: a := by
      have whole : front ++ needle <+: a ++ b := ⟨back, e⟩
      apply List.prefix_of_prefix_length_le whole (List.prefix_append a b)
      rw [List.length_append]
      omega
    exact (List.suffix_append front needle).isInfix.trans inside.isInfix
  rw [lastN, ← List.drop_append_of_le_length (Nat.sub_le _ _), ← e, List.append_assoc,
    List.drop_append_of_le_length behind]
  exact ⟨front.drop (a.length - overlap), back, by rw [List.append_assoc]⟩

/-- The front and the last. -/
lemma take_append_lastN (n : Nat) (l : List α) : l.take (l.length - n) ++ lastN n l = l := List.take_append_drop _ l

/-- A short list is its last. -/
lemma lastN_eq_self (short : l.length ≤ n) : lastN n l = l := by
  rw [lastN, Nat.sub_eq_zero_of_le short, List.drop_zero]

/-- The last are a suffix. -/
lemma lastN_suffix (n : Nat) (l : List α) : lastN n l <:+ l := List.drop_suffix _ l

variable [DecidableEq α]

/-- What is not among the last elements stands before them. -/
lemma filter_notMem_lastN (nodup : l.Nodup) : l.filter (· ∉ lastN n l) = l.take (l.length - n) := by
  have parts := take_append_lastN n l
  have apart : ∀ x ∈ l.take (l.length - n), x ∉ lastN n l := by
    rw [← parts] at nodup
    intro x front back
    exact (List.disjoint_of_nodup_append nodup) front back
  have whole : (l.take (l.length - n) ++ lastN n l).filter (· ∉ lastN n l) = l.take (l.length - n) := by
    rw [List.filter_append, List.filter_eq_self.mpr (by simpa using apart), List.filter_eq_nil_iff.mpr (by simp),
      List.append_nil]
  rwa [parts] at whole

/-- The search behind some elements without a needle. -/
lemma searchBlocks_behind (short : ∀ needle ∈ needles, needle.length ≤ overlap + 1) :
    ∀ read : List α, (∀ needle ∈ needles, ¬ needle <:+: read) →
      (searchBlocks overlap needles (lastN overlap read) blocks = true ↔
        ∃ needle ∈ needles, needle <:+: read ++ blocks.flatten) := by
  induction blocks with
  | nil =>
    intro read none
    simp only [searchBlocks, Bool.false_eq_true, List.flatten_nil, List.append_nil, false_iff]
    rintro ⟨needle, mem, found⟩
    exact none needle mem found
  | cons block blocks ih =>
    intro read none
    have here : ∀ needle ∈ needles, needle <:+: lastN overlap read ++ block ↔ needle <:+: read ++ block := by
      intro needle mem
      constructor
      · intro found
        have whole : lastN overlap read ++ block <:+ read ++ block := by
          obtain ⟨front, e⟩ := lastN_suffix overlap read
          exact ⟨front, by rw [← List.append_assoc, e]⟩
        exact found.trans whole.isInfix
      · intro found
        exact infix_lastN found (none needle mem) (short needle mem)
    rw [searchBlocks, List.flatten_cons, ← List.append_assoc]
    split
    next found =>
      obtain ⟨needle, mem, found⟩ := List.any_eq_true.mp found
      have found := (here needle mem).mp (of_decide_eq_true found)
      exact iff_of_true rfl ⟨needle, mem, found.trans (List.prefix_append _ _).isInfix⟩
    next missed =>
      rw [lastN_append]
      apply ih
      intro needle mem found
      exact missed (List.any_eq_true.mpr ⟨needle, mem, decide_eq_true ((here needle mem).mpr found)⟩)

/-- The search finds what stands in the whole list. -/
lemma searchBlocks_iff (short : ∀ needle ∈ needles, needle.length ≤ overlap + 1) (proper : [] ∉ needles) :
    searchBlocks overlap needles [] blocks = true ↔ ∃ needle ∈ needles, needle <:+: blocks.flatten := by
  have start : ∀ needle ∈ needles, ¬ needle <:+: [] := by
    intro needle mem found
    rw [List.infix_nil.mp found] at mem
    exact proper mem
  have found : searchBlocks overlap needles (lastN overlap []) blocks = true ↔ _ := searchBlocks_behind short [] start
  rwa [lastN, List.drop_nil, List.nil_append] at found

end

end OpenAgentd.Lib
