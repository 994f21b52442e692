import Mathlib.Data.List.Basic
import Mathlib.Data.List.TakeWhile
import Mathlib.Tactic.Lemma
import Mathlib.Tactic.TypeStar

/-!
# Suffixes of names

`splitext` cuts a name at its last dot, unless only dots stand in front of that one. The two parts together are the
name (`splitext_append`). A suffix that is put behind a name with more than dots in it is the one that is cut off
again (`splitext_of_suffix`).
-/

namespace OpenAgentd.Lib

section
variable {α : Type*} [DecidableEq α] {dot c : α} {s a w : List α}

/-- A name without its suffix, and the suffix. -/
def splitext (dot : α) (s : List α) : List α × List α :=
  match s.reverse.dropWhile (· ≠ dot) with
  | [] => (s, [])
  | _ :: before =>
    if before.all (· = dot) then (s, []) else (before.reverse, dot :: (s.reverse.takeWhile (· ≠ dot)).reverse)

/-- A name that has no suffix: it has no dot behind another character. -/
def Bare (dot : α) (s : List α) : Prop := (splitext dot s).2 = []

instance : Decidable (Bare dot s) := inferInstanceAs (Decidable (_ = _))

/-- A name ends in its suffix. -/
lemma splitext_cases (dot : α) (s : List α) : splitext dot s = (s, []) ∨
    ∃ a w, s = a ++ dot :: w ∧ (∃ c ∈ a, c ≠ dot) ∧ dot ∉ w ∧ splitext dot s = (a, dot :: w) := by
  have whole := (List.takeWhile_append_dropWhile (p := (· ≠ dot)) (l := s.reverse)).symm
  unfold splitext
  cases e : s.reverse.dropWhile (· ≠ dot) with
  | nil => exact .inl rfl
  | cons d before =>
    have d_eq : d = dot := by
      have head := List.head?_dropWhile_not (· ≠ dot) s.reverse
      rw [e] at head
      simpa using head
    dsimp only
    split
    next => exact .inl rfl
    next dots =>
      refine .inr ⟨before.reverse, (s.reverse.takeWhile (· ≠ dot)).reverse, ?_, ?_, ?_, rfl⟩
      · rw [e, d_eq] at whole
        have back := congrArg List.reverse whole
        rw [List.reverse_reverse, List.reverse_append, List.reverse_cons, List.append_assoc] at back
        exact back
      · obtain ⟨c, mem, other⟩ := List.all_eq_false.mp (Bool.eq_false_iff.mpr dots)
        exact ⟨c, List.mem_reverse.mpr mem, by simpa using other⟩
      · intro mem
        have passed := List.mem_takeWhile_imp (List.mem_reverse.mp mem)
        simp at passed

/-- The parts of a name make the name. -/
lemma splitext_append : (splitext dot s).1 ++ (splitext dot s).2 = s := by
  cases splitext_cases dot s with
  | inl bare => rw [bare, List.append_nil]
  | inr cut =>
    obtain ⟨a, w, e, _, _, cut⟩ := cut
    rw [cut, e]

/-- A suffix is cut off. -/
lemma splitext_of_suffix (named : ∃ c ∈ a, c ≠ dot) (last : dot ∉ w) :
    splitext dot (a ++ dot :: w) = (a, dot :: w) := by
  have passes : ∀ c ∈ w.reverse, decide (c ≠ dot) = true := by
    intro c mem
    refine decide_eq_true fun here => last ?_
    rw [← here]
    exact List.mem_reverse.mp mem
  have rev : (a ++ dot :: w).reverse = w.reverse ++ dot :: a.reverse := by
    rw [List.reverse_append, List.reverse_cons, List.append_assoc]
    rfl
  have dropped : (dot :: a.reverse).dropWhile (· ≠ dot) = dot :: a.reverse := by simp
  have taken : (dot :: a.reverse).takeWhile (· ≠ dot) = [] := by simp
  have dots : a.reverse.all (· = dot) = false := by
    obtain ⟨c, mem, other⟩ := named
    exact List.all_eq_false.mpr ⟨c, List.mem_reverse.mpr mem, by simpa using other⟩
  unfold splitext
  rw [rev, List.dropWhile_append_of_pos passes, List.takeWhile_append_of_pos passes, dropped, taken, List.append_nil,
    List.reverse_reverse]
  dsimp only
  rw [dots, if_neg Bool.false_ne_true, List.reverse_reverse]

/-- What stands in front of the suffix is the name if and only if there is none. -/
lemma bare_iff : Bare dot s ↔ (splitext dot s).1 = s := by
  unfold Bare
  constructor
  · intro none
    have whole : (splitext dot s).1 ++ (splitext dot s).2 = s := splitext_append
    rwa [none, List.append_nil] at whole
  · intro same
    have whole : (splitext dot s).1 ++ (splitext dot s).2 = s := splitext_append
    rw [same] at whole
    exact List.append_right_eq_self.mp whole

/-- A name of more than dots keeps another character than a dot. -/
lemma exists_mem_stem (named : ∃ c ∈ s, c ≠ dot) : ∃ c ∈ (splitext dot s).1, c ≠ dot := by
  cases splitext_cases dot s with
  | inl bare => rwa [bare]
  | inr cut =>
    obtain ⟨a, w, _, named, _, cut⟩ := cut
    rwa [cut]

/-- The part in front of the suffix begins as the name does. -/
lemma stem_front : (splitext dot s).1 <+: s := ⟨_, splitext_append⟩

end

end OpenAgentd.Lib
