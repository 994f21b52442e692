import Mathlib.Data.List.Basic
import Mathlib.Tactic.Lemma

/-!
# Parts between separators

`List.splitOn` and `List.intercalate` on one separator: some parts of a text, joined again, are a text of these parts
(`splitOn_intercalate_part`), and a text is its first parts, a separator and its last ones (`intercalate_append_append`).
-/

namespace OpenAgentd.Lib

section
variable {α : Type*} [DecidableEq α] {sep : α} {s l : List α} {ls ms : List (List α)}

/-- The parts between separators have none. -/
lemma notMem_splitOn (mem : l ∈ s.splitOn sep) : sep ∉ l := by
  induction s generalizing l with
  | nil =>
    rw [List.splitOn_nil] at mem
    rw [List.mem_singleton.mp mem]
    exact List.not_mem_nil
  | cons c s ih =>
    rw [List.splitOn_cons_eq_if_modifyHead] at mem
    split at mem
    next =>
      cases List.mem_cons.mp mem with
      | inl e =>
        rw [e]
        exact List.not_mem_nil
      | inr mem => exact ih mem
    next other =>
      cases split : s.splitOn sep with
      | nil => exact absurd split (List.splitOn_ne_nil _ _)
      | cons first more =>
        rw [split, List.modifyHead_cons] at mem
        rw [split] at ih
        cases List.mem_cons.mp mem with
        | inl e =>
          rw [e]
          intro here
          cases List.mem_cons.mp here with
          | inl e => exact other (beq_iff_eq.mpr e.symm)
          | inr here => exact ih List.mem_cons_self here
        | inr mem => exact ih (List.mem_cons_of_mem _ mem)

/-- Some parts of a text, joined. -/
lemma splitOn_intercalate_part (parts : ∀ l ∈ ls, l ∈ s.splitOn sep) (some : ls ≠ []) :
    ([sep].intercalate ls).splitOn sep = ls :=
  List.splitOn_intercalate sep (fun l mem => notMem_splitOn (parts l mem)) some

omit [DecidableEq α] in
/-- Joined parts behind joined parts. -/
lemma intercalate_append_append (front : ls ≠ []) (back : ms ≠ []) :
    [sep].intercalate (ls ++ ms) = [sep].intercalate ls ++ sep :: [sep].intercalate ms := by
  induction ls with
  | nil => exact absurd rfl front
  | cons l ls ih =>
    by_cases last : ls = []
    · rw [last, List.singleton_append, List.intercalate_cons_of_ne_nil back, List.intercalate_singleton,
        List.append_assoc]
      rfl
    · have more : ls ++ ms ≠ [] := fun none => last (List.append_eq_nil_iff.mp none).1
      rw [List.cons_append, List.intercalate_cons_of_ne_nil more, ih last, List.intercalate_cons_of_ne_nil last,
        List.append_assoc (l ++ [sep])]

end

end OpenAgentd.Lib
