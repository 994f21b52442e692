import Mathlib.Data.List.DropRight
import Mathlib.Data.List.Infix
import Mathlib.Tactic.Lemma
import Mathlib.Tactic.TypeStar

/-!
# Lines from chunks

A text comes in chunks and is cut into lines as it comes. What stands behind the last line end waits for the next chunk.
However the text is cut into chunks, the lines are the lines of the text (`linesOfChunks_eq`).

White space at the ends of a line is taken off with `trimEnd` and `trim`.
-/

namespace OpenAgentd.Lib

section
variable {α : Type*} [BEq α] {sep : α} {l s t buf : List α}

/-- The lines that end in the text, and what stands behind the last line end. -/
def cutLines (sep : α) (s : List α) : List (List α) × List α :=
  ((s.splitOn sep).dropLast, (s.splitOn sep).getLastD [])

/-- The lines that end in the chunks, the rest of each chunk put in front of the next. -/
def linesOfChunks (sep : α) : List α → List (List α) → List (List α) × List α
  | buf, [] => ([], buf)
  | buf, chunk :: chunks =>
    let cut := cutLines sep (buf ++ chunk)
    let later := linesOfChunks sep cut.2 chunks
    (cut.1 ++ later.1, later.2)

variable [LawfulBEq α]

/-- A text without a line end is all rest. -/
lemma cutLines_open (clean : sep ∉ l) : cutLines sep l = ([], l) := by
  rw [cutLines, List.splitOn_eq_singleton clean]
  rfl

/-- The first line is cut off. -/
lemma cutLines_line (clean : sep ∉ l) :
    cutLines sep (l ++ sep :: s) = (l :: (cutLines sep s).1, (cutLines sep s).2) := by
  have split : (l ++ sep :: s).splitOn sep = l :: s.splitOn sep := by
    rw [List.splitOn_append_cons_self, List.splitOn_eq_singleton clean]
    rfl
  have some_ := List.splitOn_ne_nil sep s
  rw [cutLines, cutLines, split, List.dropLast_cons_of_ne_nil some_]
  cases h : s.splitOn sep with
  | nil => exact absurd h some_
  | cons a as => rfl

/-- A text is open or has a first line. -/
lemma open_or_line (sep : α) (s : List α) : sep ∉ s ∨ ∃ l t, sep ∉ l ∧ s = l ++ sep :: t := by
  by_cases mem : sep ∈ s
  · obtain ⟨l, t, clean, e⟩ := List.eq_append_cons_of_mem mem
    exact .inr ⟨l, t, e, clean⟩
  · exact .inl mem

/-- Lines come off one by one. -/
lemma cutLines_induction (sep : α) {P : List α → Prop} (rest : ∀ s, sep ∉ s → P s)
    (line : ∀ l t, sep ∉ l → P t → P (l ++ sep :: t)) (s : List α) : P s := by
  induction h : s.length using Nat.strong_induction_on generalizing s with
  | h n ih =>
    subst h
    cases open_or_line sep s with
    | inl clean => exact rest s clean
    | inr lines =>
      obtain ⟨l, t, clean, e⟩ := lines
      subst e
      exact line l t clean (ih _ (by rw [List.length_append, List.length_cons]; omega) t rfl)

/-- The rest has no separator. -/
lemma rest_clean (s : List α) : sep ∉ (cutLines sep s).2 := by
  induction s using cutLines_induction sep with
  | rest s clean =>
    rw [cutLines_open clean]
    exact clean
  | line l t clean ih =>
    rw [cutLines_line clean]
    exact ih

/-- The lines of a text that goes on. -/
lemma cutLines_append (s t : List α) :
    cutLines sep (s ++ t) =
      ((cutLines sep s).1 ++ (cutLines sep ((cutLines sep s).2 ++ t)).1, (cutLines sep ((cutLines sep s).2 ++ t)).2) := by
  induction s using cutLines_induction sep with
  | rest s clean =>
    rw [cutLines_open clean]
    rfl
  | line l s clean ih =>
    rw [List.append_assoc, List.cons_append, cutLines_line clean, cutLines_line clean, ih]
    rfl

/-- However a text is cut into chunks, its lines come out. -/
lemma linesOfChunks_eq {chunks : List (List α)} (clean : sep ∉ buf) :
    linesOfChunks sep buf chunks = cutLines sep (buf ++ chunks.flatten) := by
  induction chunks generalizing buf with
  | nil =>
    rw [linesOfChunks, List.flatten_nil, List.append_nil, cutLines_open clean]
  | cons chunk chunks ih =>
    rw [linesOfChunks, ih (rest_clean _), List.flatten_cons, ← List.append_assoc, cutLines_append (buf ++ chunk)]

end

/-- What ends a line in front of its line feed. -/
def carriage (crlf : Bool) : List Char := if crlf then ['\r'] else []

/-- Only a CR. -/
lemma mem_carriage {crlf : Bool} {c : Char} (mem : c ∈ carriage crlf) : c = '\r' := by
  cases crlf with
  | false => cases mem
  | true => exact List.mem_singleton.mp mem

section
variable {α : Type*} {space : α → Bool} {l w t : List α}

/-- A text that starts a longer one stops inside the first part or goes on behind it. -/
lemma prefix_append_cases {a b r : List α} (h : r <+: a ++ b) : r <+: a ∨ ∃ r', r = a ++ r' ∧ r' <+: b := by
  cases List.prefix_or_prefix_of_prefix h (List.prefix_append a b) with
  | inl short => exact .inl short
  | inr long =>
    obtain ⟨r', e⟩ := long
    subst e
    exact .inr ⟨r', rfl, (List.prefix_append_right_inj a).mp h⟩

def trimEnd (space : α → Bool) (l : List α) : List α := l.rdropWhile space

def trim (space : α → Bool) (l : List α) : List α := trimEnd space (l.dropWhile space)

/-- The text neither starts nor ends with white space. -/
structure Trimmed (space : α → Bool) (l : List α) : Prop where
  first : ∀ c, l.head? = some c → space c = false
  last : ∀ c, l.getLast? = some c → space c = false

/-- White space at the end. -/
lemma trimEnd_append (white : ∀ c ∈ w, space c = true) : trimEnd space (l ++ w) = trimEnd space l := by
  induction w using List.reverseRecOn with
  | nil => rw [List.append_nil]
  | append_singleton w c ih =>
    rw [trimEnd, ← List.append_assoc, List.rdropWhile_concat_pos _ _ _ (white c (by simp))]
    exact ih fun d mem => white d (by simp [mem])

/-- Nothing to trim. -/
lemma trimEnd_eq_self (last : ∀ c, l.getLast? = some c → space c = false) : trimEnd space l = l := by
  rw [trimEnd, List.rdropWhile_eq_self_iff]
  intro some_
  rw [last _ (List.getLast?_eq_some_getLast some_)]
  exact Bool.false_ne_true

/-- Nothing to drop. -/
lemma dropWhile_eq_self (first : ∀ c, l.head? = some c → space c = false) : l.dropWhile space = l := by
  cases l with
  | nil => rfl
  | cons c l => rw [List.dropWhile_cons_of_neg (by rw [first c rfl]; exact Bool.false_ne_true)]

/-- A trimmed text. -/
lemma Trimmed.trim (h : Trimmed space l) : trim space l = l := by
  rw [Lib.trim, dropWhile_eq_self h.first, trimEnd_eq_self h.last]

/-- Trimming leaves a front. -/
lemma trimEnd_start (space : α → Bool) (l : List α) : trimEnd space l <+: l := List.rdropWhile_prefix _ l

/-- No white space is last. -/
lemma trimEnd_last (l : List α) : ∀ c, (trimEnd space l).getLast? = some c → space c = false := by
  intro c last
  have some_ : trimEnd space l ≠ [] := by
    intro e
    rw [e] at last
    cases last
  have e := List.getLast?_eq_some_getLast some_
  rw [last] at e
  have no := List.rdropWhile_last_not space l some_
  cases e
  exact Bool.eq_false_iff.mpr no

/-- What is left of the start of a text is trimmed if the text is. -/
lemma trimEnd_trimmed (first : ∀ c, l.head? = some c → space c = false) : Trimmed space (trimEnd space l) := by
  refine ⟨?_, trimEnd_last l⟩
  intro c h
  obtain ⟨t, e⟩ := trimEnd_start space l
  apply first c
  rw [← e]
  cases h' : trimEnd space l with
  | nil =>
    rw [h'] at h
    cases h
  | cons d ds =>
    rw [h'] at h
    exact h

/-- White space at the end. -/
lemma trim_append (white : ∀ c ∈ w, space c = true) : trim space (l ++ w) = trim space l := by
  rw [trim, trim, List.dropWhile_append]
  split
  next all =>
    rw [List.isEmpty_iff.mp all, List.dropWhile_eq_nil_iff.mpr white]
  next => exact trimEnd_append white

/-- White space comes off on either side of what is not white. -/
lemma trim_middle {c : α} (solid : space c = false) (l t : List α) :
    trim space (l ++ c :: t) = l.dropWhile space ++ c :: trimEnd space t := by
  have front : (l ++ c :: t).dropWhile space = l.dropWhile space ++ c :: t := by
    rw [List.dropWhile_append]
    split
    next all =>
      rw [List.isEmpty_iff.mp all, dropWhile_eq_self fun d head => by cases head; exact solid]
      rfl
    next => rfl
  have back : (c :: t).rdropWhile space = c :: t.rdropWhile space := by
    rw [List.rdropWhile, List.reverse_cons, List.dropWhile_append]
    split
    next all =>
      have white : t.rdropWhile space = [] := by rw [List.rdropWhile, List.isEmpty_iff.mp all, List.reverse_nil]
      rw [white, List.dropWhile_cons_of_neg (by rw [solid]; exact Bool.false_ne_true)]
      rfl
    next => rw [List.reverse_append, List.rdropWhile]; rfl
  rw [trim, front, trimEnd, List.rdropWhile, List.reverse_append, List.dropWhile_append]
  split
  next all =>
    have none_ : (c :: t).rdropWhile space = [] := by rw [List.rdropWhile, List.isEmpty_iff.mp all, List.reverse_nil]
    rw [back] at none_
    cases none_
  next =>
    rw [List.reverse_append, List.reverse_reverse, ← List.rdropWhile, back]
    rfl

/-- White space in front. -/
lemma trim_dropWhile (l : List α) : trim space (l.dropWhile space) = trim space l := by
  rw [trim, trim, List.dropWhile_idempotent]

/-- Trimming the end first. -/
lemma trim_trimEnd (l : List α) : trim space (trimEnd space l) = trim space l := by
  have white : ∀ c ∈ (l.reverse.takeWhile space).reverse, space c = true :=
    fun c mem => List.mem_takeWhile_imp (List.mem_reverse.mp mem)
  have whole : trimEnd space l ++ (l.reverse.takeWhile space).reverse = l := by
    rw [trimEnd, List.rdropWhile, ← List.reverse_append, List.takeWhile_append_dropWhile, List.reverse_reverse]
  rw [← trim_append white, whole]

end

end OpenAgentd.Lib
