import Mathlib.Data.List.Basic
import Mathlib.Tactic.Lemma

/-!
# Excerpts

A text is shown with some of its passages cut out and a note in the place of each. `Account text shown` says that
`shown` is such an excerpt of `text`, and that every note covers the passage it stands for. A cut that lies wholly
inside a kept passage leaves an excerpt (`Account.excise`); one that takes a note away may not.
-/

namespace OpenAgentd.Lib

/-- A part of a text: shown as it is, or cut out with a note in its place. -/
inductive Passage (α ν : Type*) where
  | kept (s : List α)
  | cut (note : ν) (missing : List α)

section
variable {α ν : Type*} (render : ν → List α) (Covers : ν → List α → Prop)

/-- The text of a passage. -/
def Passage.whole : Passage α ν → List α
  | .kept s => s
  | .cut _ missing => missing

/-- What is shown of a passage. -/
def Passage.shown : Passage α ν → List α
  | .kept s => s
  | .cut note _ => render note

/-- The text of some passages. -/
def wholeText (ps : List (Passage α ν)) : List α := ps.flatMap Passage.whole

/-- What is shown of some passages. -/
def shownText (ps : List (Passage α ν)) : List α := ps.flatMap (Passage.shown render)

/-- The passages make the text, and what is shown of them is `shown`. -/
structure Accounts (text shown : List α) (ps : List (Passage α ν)) : Prop where
  whole : wholeText ps = text
  shown : shownText render ps = shown
  covers : ∀ note missing, .cut note missing ∈ ps → Covers note missing

/-- Every difference between `text` and `shown` is a note that covers what is missing. -/
def Account (text shown : List α) : Prop := ∃ ps : List (Passage α ν), Accounts render Covers text shown ps

/-- What is shown of `ps` is `a ++ x ++ b`, `x` lies wholly inside one kept passage, and `ps'` has it cut out. -/
def Excise (ps : List (Passage α ν)) (a x b : List α) (note : ν) (ps' : List (Passage α ν)) : Prop :=
  ∃ front p q back, ps = front ++ .kept (p ++ x ++ q) :: back ∧ shownText render front ++ p = a ∧
    q ++ shownText render back = b ∧ ps' = front ++ .kept p :: .cut note x :: .kept q :: back

end

section
variable {α ν : Type*} {render : ν → List α} {Covers : ν → List α → Prop} {text shown a x b : List α} {note : ν}
  {ps ps' qs : List (Passage α ν)}

/-- No passages. -/
@[simp] lemma wholeText_nil : wholeText ([] : List (Passage α ν)) = [] := rfl

/-- One passage more. -/
@[simp] lemma wholeText_cons (p : Passage α ν) : wholeText (p :: ps) = p.whole ++ wholeText ps := rfl

/-- Passages in a row. -/
@[simp] lemma wholeText_append : wholeText (ps ++ qs) = wholeText ps ++ wholeText qs := List.flatMap_append

/-- No passages. -/
@[simp] lemma shownText_nil : shownText render ([] : List (Passage α ν)) = [] := rfl

/-- One passage more. -/
@[simp] lemma shownText_cons (p : Passage α ν) : shownText render (p :: ps) = p.shown render ++ shownText render ps :=
  rfl

/-- Passages in a row. -/
@[simp] lemma shownText_append : shownText render (ps ++ qs) = shownText render ps ++ shownText render qs :=
  List.flatMap_append

/-- A text that is shown as it is. -/
lemma accounts_kept (text : List α) : Accounts render Covers text text [.kept text] where
  whole := List.append_nil text
  shown := List.append_nil text
  covers _ _ mem := by cases List.mem_singleton.mp mem

/-- A passage between two others is cut out. -/
lemma accounts_cut (covers : Covers note x) :
    Accounts render Covers (a ++ x ++ b) (a ++ render note ++ b) [.kept a, .cut note x, .kept b] where
  whole := by simp [Passage.whole]
  shown := by simp [Passage.shown]
  covers note' missing mem := by
    simp only [List.mem_cons, Passage.cut.injEq, List.not_mem_nil, or_false, reduceCtorEq, false_or] at mem
    obtain ⟨rfl, rfl⟩ := mem
    exact covers

/-- What was shown before a cut. -/
lemma Excise.shown_before (cut : Excise render ps a x b note ps') : shownText render ps = a ++ x ++ b := by
  obtain ⟨front, p, q, back, rfl, rfl, rfl, -⟩ := cut
  simp [Passage.shown]

/-- A cut inside a kept passage leaves an excerpt. -/
lemma Accounts.excise (account : Accounts render Covers text shown ps) (cut : Excise render ps a x b note ps')
    (covers : Covers note x) : Accounts render Covers text (a ++ render note ++ b) ps' := by
  obtain ⟨front, p, q, back, rfl, rfl, rfl, rfl⟩ := cut
  constructor
  · rw [← account.whole]
    simp [Passage.whole]
  · simp [Passage.shown]
  · intro note' missing mem
    rw [List.mem_append, List.mem_cons, List.mem_cons, List.mem_cons] at mem
    rcases mem with mem | same | same | same | mem
    · exact account.covers note' missing (List.mem_append_left _ mem)
    · cases same
    · cases same
      exact covers
    · cases same
    · exact account.covers note' missing (List.mem_append_right _ (List.mem_cons_of_mem _ mem))

/-! ## Counting -/

/-- The notes of an excerpt. -/
def notes : List (Passage α ν) → List ν
  | [] => []
  | .kept _ :: ps => notes ps
  | .cut note _ :: ps => note :: notes ps

/-- The passages cut out of a text, together. -/
def missingText : List (Passage α ν) → List α
  | [] => []
  | .kept _ :: ps => missingText ps
  | .cut _ missing :: ps => missing ++ missingText ps

/-- Elements that no text has are shown in the notes only. -/
lemma filter_shownText {other : α → Bool} (text : ∀ c ∈ wholeText ps, other c = false)
    (all : ∀ note ∈ notes ps, ∀ c ∈ render note, other c = true) :
    (shownText render ps).filter other = (notes ps).flatMap render := by
  induction ps with
  | nil => rfl
  | cons p ps ih =>
    rw [wholeText_cons] at text
    have rest := fun c mem => text c (List.mem_append_right _ mem)
    cases p with
    | kept s =>
      rw [shownText_cons, List.filter_append, ih rest all]
      have none : s.filter other = [] := List.filter_eq_nil_iff.mpr fun c mem => by
        rw [text c (List.mem_append_left _ mem)]
        exact Bool.false_ne_true
      rw [Passage.shown, none]
      rfl
    | cut note missing =>
      rw [shownText_cons, List.filter_append, ih rest fun n mem => all n (List.mem_cons_of_mem _ mem)]
      have every : (render note).filter other = render note := List.filter_eq_self.mpr (all note List.mem_cons_self)
      rw [Passage.shown, every]
      rfl

/-- An excerpt of a text has as many elements of the text as the text, less those cut out. -/
lemma length_wholeText {other : α → Bool} (text : ∀ c ∈ wholeText ps, other c = false)
    (all : ∀ note ∈ notes ps, ∀ c ∈ render note, other c = true) :
    (wholeText ps).length = ((shownText render ps).filter fun c => !other c).length + (missingText ps).length := by
  induction ps with
  | nil => rfl
  | cons p ps ih =>
    rw [wholeText_cons] at text
    have rest := fun c mem => text c (List.mem_append_right _ mem)
    cases p with
    | kept s =>
      have every : (s.filter fun c => !other c) = s := List.filter_eq_self.mpr fun c mem => by
        rw [text c (List.mem_append_left _ mem)]
        rfl
      rw [wholeText_cons, shownText_cons, List.filter_append, List.length_append, List.length_append, ih rest all,
        Passage.shown, every, Passage.whole, missingText, Nat.add_assoc]
    | cut note missing =>
      have none : ((render note).filter fun c => !other c) = [] := List.filter_eq_nil_iff.mpr fun c mem => by
        rw [all note List.mem_cons_self c mem]
        exact Bool.false_ne_true
      rw [wholeText_cons, shownText_cons, List.filter_append, List.length_append, List.length_append,
        ih rest fun n mem => all n (List.mem_cons_of_mem _ mem), Passage.shown, none, Passage.whole, missingText,
        List.length_append, List.length_nil, Nat.zero_add]
      exact Nat.add_left_comm _ _ _

/-- What is cut out of a text is a part of it. -/
lemma mem_wholeText {c : α} (mem : c ∈ missingText ps) : c ∈ wholeText ps := by
  induction ps with
  | nil => exact mem
  | cons p ps ih =>
    rw [wholeText_cons]
    cases p with
    | kept s => exact List.mem_append_right _ (ih mem)
    | cut note missing =>
      cases List.mem_append.mp mem with
      | inl mem => exact List.mem_append_left _ mem
      | inr mem => exact List.mem_append_right _ (ih mem)

/-- The passage of an excerpt with one note. -/
lemma cut_of_notes (one : notes ps = [note]) : .cut note (missingText ps) ∈ ps := by
  induction ps with
  | nil => cases one
  | cons p ps ih =>
    cases p with
    | kept s => exact List.mem_cons_of_mem _ (ih one)
    | cut note' missing =>
      obtain ⟨rfl, none⟩ := List.cons.inj one
      have gone : ∀ qs : List (Passage α ν), notes qs = [] → missingText qs = [] := by
        intro qs none
        induction qs with
        | nil => rfl
        | cons q qs ih =>
          cases q with
          | kept s => exact ih none
          | cut note missing => cases none
      rw [missingText, gone ps none, List.append_nil]
      exact List.mem_cons_self

end

end OpenAgentd.Lib
