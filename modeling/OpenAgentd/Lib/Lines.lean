import Mathlib.Data.List.Forall2
import Mathlib.Tactic.Lemma
import Mathlib.Tactic.TypeStar

/-!
# The lines of a text

`linesOf` cuts a text into its lines, each with the end it has: a line feed, a carriage return with or without one, or,
for the last line only, the end of the text. The last line is empty when the text ends with a line end. Texts whose
line ends are one are cut by their lines (`linesOf_lines`), and the lines of any text are those of the text with its
line ends made line feeds (`splitOn_normalize`).
-/

namespace OpenAgentd.Lib

/-- How a line ends. -/
inductive LineEnd where
  | lf
  | crlf
  | cr
  | eof
  deriving DecidableEq

/-- The text of an end. -/
def LineEnd.text : LineEnd → List Char
  | .lf => ['\n']
  | .crlf => ['\r', '\n']
  | .cr => ['\r']
  | .eof => []

/-- A character before the first line. -/
def startWith (c : Char) : List (List Char × LineEnd) → List (List Char × LineEnd)
  | [] => [([c], .eof)]
  | (l, e) :: ls => (c :: l, e) :: ls

/-- The lines with their ends. -/
def linesOf : List Char → List (List Char × LineEnd)
  | [] => [([], .eof)]
  | '\r' :: '\n' :: s => ([], .crlf) :: linesOf s
  | c :: s =>
    if c = '\n' then ([], .lf) :: linesOf s
    else if c = '\r' then ([], .cr) :: linesOf s
    else startWith c (linesOf s)

/-- A text without line ends. -/
def Plain (l : List Char) : Prop := '\n' ∉ l ∧ '\r' ∉ l

instance (l : List Char) : Decidable (Plain l) := inferInstanceAs (Decidable (_ ∧ _))

/-- `s.replace("\r\n", "\n")`. -/
def replaceCrlf : List Char → List Char
  | '\r' :: '\n' :: s => '\n' :: replaceCrlf s
  | c :: s => c :: replaceCrlf s
  | [] => []

/-- `s.replace("\r\n", "\n").replace("\r", "\n")`. -/
def normalize (s : List Char) : List Char := (replaceCrlf s).map fun c => if c = '\r' then '\n' else c

/-- Lines with one end. -/
def endWith (e : LineEnd) (ls : List (List Char)) : List Char := ls.flatMap fun l => l ++ e.text

section
variable {s l : List Char} {ls : List (List Char)} {e : LineEnd} {p : List Char × LineEnd}

/-- A part of a plain text. -/
lemma Plain.sublist {l' : List Char} (h : Plain l) (sub : l'.Sublist l) : Plain l' :=
  ⟨fun mem => h.1 (sub.subset mem), fun mem => h.2 (sub.subset mem)⟩

/-- Plain texts in a row. -/
lemma Plain.append {l' : List Char} (h : Plain l) (h' : Plain l') : Plain (l ++ l') :=
  ⟨fun mem => (List.mem_append.mp mem).elim h.1 h'.1, fun mem => (List.mem_append.mp mem).elim h.2 h'.2⟩

/-- The empty text. -/
lemma Plain.nil : Plain [] := ⟨by simp, by simp⟩

/-- A character that begins no `"\r\n"`. -/
lemma no_crlf {c : Char} (h : c = '\r' → s.head? ≠ some '\n') : ∀ t, c = '\r' → s = '\n' :: t → False := by
  rintro t rfl rfl
  exact h rfl rfl

/-- An LF ends a line. -/
lemma linesOf_lf : linesOf ('\n' :: s) = ([], .lf) :: linesOf s := by
  rw [linesOf, if_pos rfl]
  exact no_crlf (by simp)

/-- A CRLF ends a line. -/
lemma linesOf_crlf : linesOf ('\r' :: '\n' :: s) = ([], .crlf) :: linesOf s := rfl

/-- A CR ends a line. -/
lemma linesOf_cr (h : s.head? ≠ some '\n') : linesOf ('\r' :: s) = ([], .cr) :: linesOf s := by
  rw [linesOf, if_neg (by decide), if_pos rfl]
  exact no_crlf fun _ => h

/-- Another character goes on. -/
lemma linesOf_char {c : Char} (lf : c ≠ '\n') (cr : c ≠ '\r') : linesOf (c :: s) = startWith c (linesOf s) := by
  rw [linesOf, if_neg lf, if_neg cr]
  exact no_crlf fun e => absurd e cr

/-- The recursion of `linesOf`. -/
lemma linesOf_induction {P : List Char → Prop} (nil : P []) (lf : ∀ s, P s → P ('\n' :: s))
    (crlf : ∀ s, P s → P ('\r' :: '\n' :: s)) (cr : ∀ s, s.head? ≠ some '\n' → P s → P ('\r' :: s))
    (char : ∀ c s, c ≠ '\n' → c ≠ '\r' → P s → P (c :: s)) : ∀ s, P s
  | [] => nil
  | [c] => by
    by_cases h : c = '\n'
    · exact h ▸ lf [] nil
    · by_cases h' : c = '\r'
      · exact h' ▸ cr [] (by simp) nil
      · exact char c [] h h' nil
  | c :: d :: s => by
    by_cases h : c = '\n'
    · exact h ▸ lf _ (linesOf_induction nil lf crlf cr char (d :: s))
    · by_cases h' : c = '\r'
      · by_cases h'' : d = '\n'
        · exact h' ▸ h'' ▸ crlf s (linesOf_induction nil lf crlf cr char s)
        · exact h' ▸ cr _ (by simpa using h'') (linesOf_induction nil lf crlf cr char (d :: s))
      · exact char c _ h h' (linesOf_induction nil lf crlf cr char (d :: s))

/-- There is a line. -/
lemma startWith_ne_nil {c : Char} {ls : List (List Char × LineEnd)} : startWith c ls ≠ [] := by
  cases ls with
  | nil => simp [startWith]
  | cons p ls => simp [startWith]

/-- There is a line. -/
lemma linesOf_ne_nil : ∀ s, linesOf s ≠ [] := by
  apply linesOf_induction
  · exact List.cons_ne_nil _ _
  · intro s _
    rw [linesOf_lf]
    exact List.cons_ne_nil _ _
  · intro s _
    rw [linesOf_crlf]
    exact List.cons_ne_nil _ _
  · intro s h _
    rw [linesOf_cr h]
    exact List.cons_ne_nil _ _
  · intro c s lf cr _
    rw [linesOf_char lf cr]
    exact startWith_ne_nil

/-- Only the last line ends with the text. -/
lemma linesOf_eof : ∀ s, ∃ ls l, linesOf s = ls ++ [(l, .eof)] ∧ ∀ p ∈ ls, p.2 ≠ .eof := by
  apply linesOf_induction
  · exact ⟨[], [], rfl, by simp⟩
  · rintro s ⟨ls, l, e, ends⟩
    exact ⟨([], .lf) :: ls, l, by rw [linesOf_lf, e, List.cons_append], by simpa using ends⟩
  · rintro s ⟨ls, l, e, ends⟩
    exact ⟨([], .crlf) :: ls, l, by rw [linesOf_crlf, e, List.cons_append], by simpa using ends⟩
  · rintro s h ⟨ls, l, e, ends⟩
    exact ⟨([], .cr) :: ls, l, by rw [linesOf_cr h, e, List.cons_append], by simpa using ends⟩
  · rintro c s lf cr ⟨ls, l, e, ends⟩
    cases ls with
    | nil => exact ⟨[], c :: l, by rw [linesOf_char lf cr, e]; rfl, by simp⟩
    | cons p ls => exact ⟨(c :: p.1, p.2) :: ls, l, by rw [linesOf_char lf cr, e]; rfl, by simpa using ends⟩

/-- The lines hold no line ends. -/
lemma plain_of_mem : ∀ s, ∀ p ∈ linesOf s, Plain p.1 := by
  apply linesOf_induction
  · intro p h
    rw [List.mem_singleton.mp h]
    exact .nil
  · intro s ih p h
    rw [linesOf_lf] at h
    cases List.mem_cons.mp h with
    | inl e => exact e ▸ .nil
    | inr h => exact ih p h
  · intro s ih p h
    rw [linesOf_crlf] at h
    cases List.mem_cons.mp h with
    | inl e => exact e ▸ .nil
    | inr h => exact ih p h
  · intro s head ih p h
    rw [linesOf_cr head] at h
    cases List.mem_cons.mp h with
    | inl e => exact e ▸ .nil
    | inr h => exact ih p h
  · intro c s lf cr ih p h
    rw [linesOf_char lf cr] at h
    cases e : linesOf s with
    | nil => exact absurd e (linesOf_ne_nil s)
    | cons q ls =>
      rw [e] at h ih
      cases List.mem_cons.mp h with
      | inl e' =>
        have plain := ih q List.mem_cons_self
        rw [e']
        exact ⟨List.not_mem_cons_of_ne_of_not_mem (Ne.symm lf) plain.1,
          List.not_mem_cons_of_ne_of_not_mem (Ne.symm cr) plain.2⟩
      | inr h => exact ih p (List.mem_cons_of_mem q h)

/-- One character more. -/
lemma replaceCrlf_cons {c : Char} (h : c = '\r' → s.head? ≠ some '\n') :
    replaceCrlf (c :: s) = c :: replaceCrlf s := by
  rw [replaceCrlf]
  exact no_crlf h

/-- The lines are those of the text whose line ends are line feeds. -/
lemma splitOn_normalize : ∀ s, (normalize s).splitOn '\n' = (linesOf s).map Prod.fst := by
  apply linesOf_induction
  · rfl
  · intro s ih
    rw [linesOf_lf, List.map_cons, ← ih, normalize, replaceCrlf_cons (by simp), List.map_cons,
      List.splitOn_cons_eq_if_modifyHead]
    rfl
  · intro s ih
    rw [linesOf_crlf, List.map_cons, ← ih, normalize, replaceCrlf, List.map_cons,
      List.splitOn_cons_eq_if_modifyHead]
    rfl
  · intro s h ih
    rw [linesOf_cr h, List.map_cons, ← ih, normalize, replaceCrlf_cons (fun _ => h), List.map_cons,
      List.splitOn_cons_eq_if_modifyHead]
    rfl
  · intro c s lf cr ih
    have ne : ¬ (c == '\n') = true := by simpa using lf
    rw [linesOf_char lf cr, normalize, replaceCrlf_cons (fun e => absurd e cr), List.map_cons, if_neg cr,
      List.splitOn_cons_eq_if_modifyHead, if_neg ne, ← normalize, ih]
    cases e : linesOf s with
    | nil => exact absurd e (linesOf_ne_nil s)
    | cons p ls => rfl

/-- One line behind another. -/
lemma linesOf_append (plain : Plain l) (h : e = .lf ∨ e = .crlf) :
    linesOf (l ++ (e.text ++ s)) = (l, e) :: linesOf s := by
  induction l with
  | nil =>
    cases h with
    | inl h => rw [h]; exact linesOf_lf
    | inr h => rw [h]; exact linesOf_crlf
  | cons c l ih =>
    have lf : c ≠ '\n' := fun e => plain.1 (e ▸ List.mem_cons_self)
    have cr : c ≠ '\r' := fun e => plain.2 (e ▸ List.mem_cons_self)
    rw [List.cons_append, linesOf_char lf cr,
      ih ⟨fun h => plain.1 (List.mem_cons_of_mem c h), fun h => plain.2 (List.mem_cons_of_mem c h)⟩]
    rfl

/-- A line alone. -/
lemma linesOf_plain (plain : Plain l) : linesOf l = [(l, .eof)] := by
  induction l with
  | nil => rfl
  | cons c l ih =>
    have lf : c ≠ '\n' := fun e => plain.1 (e ▸ List.mem_cons_self)
    have cr : c ≠ '\r' := fun e => plain.2 (e ▸ List.mem_cons_self)
    rw [linesOf_char lf cr, ih ⟨fun h => plain.1 (List.mem_cons_of_mem c h), fun h => plain.2 (List.mem_cons_of_mem c h)⟩]
    rfl

/-- The lines of lines with one end. -/
lemma linesOf_lines (plain : ∀ l ∈ ls, Plain l) (last : Plain l) (h : e = .lf ∨ e = .crlf) :
    linesOf (endWith e ls ++ l) = ls.map (fun l => (l, e)) ++ [(l, .eof)] := by
  induction ls with
  | nil => exact linesOf_plain last
  | cons k ls ih =>
    have rest := ih fun l hl => plain l (List.mem_cons_of_mem k hl)
    rw [endWith, List.flatMap_cons, List.append_assoc, List.append_assoc,
      linesOf_append (plain k List.mem_cons_self) h, ← endWith, rest]
    rfl

/-- Lines joined by line feeds. -/
lemma intercalate_append : ['\n'].intercalate (ls ++ [l]) = endWith .lf ls ++ l := by
  induction ls with
  | nil => simp [endWith]
  | cons k ls ih =>
    have step : ['\n'].intercalate (k :: (ls ++ [l])) = k ++ ('\n' :: ['\n'].intercalate (ls ++ [l])) := by
      cases e : ls ++ [l] with
      | nil => simp at e
      | cons a b => simp [List.intercalate]
    rw [List.cons_append, step, ih]
    simp [endWith, LineEnd.text]

/-- Lines in a row. -/
lemma endWith_append {ks : List (List Char)} : endWith e (ls ++ ks) = endWith e ls ++ endWith e ks :=
  List.flatMap_append

/-- Joined lines with a final line feed. -/
lemma intercalate_closed (h : ls ≠ []) : ['\n'].intercalate ls ++ ['\n'] = endWith .lf ls := by
  cases List.eq_nil_or_concat ls with
  | inl e => exact absurd e h
  | inr h =>
    obtain ⟨ks, k, rfl⟩ := h
    rw [List.concat_eq_append, intercalate_append, endWith_append, List.append_assoc]
    simp [endWith, LineEnd.text]

end

end OpenAgentd.Lib
