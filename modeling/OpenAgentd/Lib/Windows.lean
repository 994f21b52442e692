import Mathlib.Data.List.Forall2
import Mathlib.Tactic.Lemma
import Mathlib.Tactic.TypeStar

/-!
# Lists with replaced windows

`Edited Same i j ws l l'`: the list `l'` is the list `l` with the windows `ws` replaced one behind the other, and what
stands between them is the same up to `Same`. The windows carry their places, counted from `i` in the one list and from
`j` in the other (`Edited.at_places`, `Edited.ordered`).
-/

namespace OpenAgentd.Lib

/-- A window of a list, what it is replaced by, and where both stand. -/
structure Window (α : Type*) where
  oldStart : Nat
  newStart : Nat
  old : List α
  new : List α

/-- A list with replaced windows. -/
inductive Edited {α : Type*} (Same : α → α → Prop) : Nat → Nat → List (Window α) → List α → List α → Prop where
  | done {i j l l'} :
    List.Forall₂ Same l l' →
    Edited Same i j [] l l'
  | window {i j k k' l l' w ws} :
    List.Forall₂ Same k k' →
    w.oldStart = i + k.length →
    w.newStart = j + k.length →
    Edited Same (w.oldStart + w.old.length) (w.newStart + w.new.length) ws l l' →
    Edited Same i j (w :: ws) (k ++ (w.old ++ l)) (k' ++ (w.new ++ l'))

/-- One window ends before the other begins, in both lists. -/
def Window.Before {α : Type*} (w w' : Window α) : Prop :=
  w.oldStart + w.old.length ≤ w'.oldStart ∧ w.newStart + w.new.length ≤ w'.newStart

section
variable {α β : Type*} {Same : α → α → Prop} {Same' : β → β → Prop} {S : α → β → Prop} {i j : Nat}
  {ws : List (Window α)} {w : Window α} {l l' k : List α} {m m' : List β}

/-- A part cut out again. -/
lemma take_drop_append (pre : List α) : ((pre ++ (k ++ l)).drop pre.length).take k.length = k := by
  rw [List.drop_left, List.take_left]

/-- Partners of an append are an append. -/
lemma forall₂_append (h : List.Forall₂ S (k ++ l) m) :
    ∃ m₁ m₂, m = m₁ ++ m₂ ∧ List.Forall₂ S k m₁ ∧ List.Forall₂ S l m₂ := by
  induction k generalizing m with
  | nil => exact ⟨[], m, rfl, .nil, h⟩
  | cons a k ih =>
    cases h with
    | cons hab h =>
      obtain ⟨m₁, m₂, rfl, hk, hl⟩ := ih h
      exact ⟨_ :: m₁, m₂, rfl, .cons hab hk, hl⟩

/-- The partner of the member at an index. -/
lemma forall₂_getElem? (h : List.Forall₂ S l m) {n : Nat} {a : α} (e : l[n]? = some a) :
    ∃ b, m[n]? = some b ∧ S a b := by
  induction h generalizing n with
  | nil => cases e
  | @cons _ b _ _ hab _ ih =>
    cases n with
    | zero =>
      cases e
      exact ⟨b, rfl, hab⟩
    | succ n => exact ih e

namespace Edited

/-- Nothing is replaced. -/
lemma refl (h : ∀ a, Same a a) : Edited Same i j [] l l := .done (List.forall₂_same.mpr fun a _ => h a)

/-- What is kept behind the last window. -/
lemma append (h : ∀ a, Same a a) (E : Edited Same i j ws l l') (k : List α) :
    Edited Same i j ws (l ++ k) (l' ++ k) := by
  induction E with
  | done same => exact .done (List.rel_append same (List.forall₂_same.mpr fun a _ => h a))
  | window between old new _ ih =>
    rw [List.append_assoc, List.append_assoc, List.append_assoc, List.append_assoc]
    exact .window between old new ih

/-- The windows stand behind the places counted from. -/
lemma starts (E : Edited Same i j ws l l') : ∀ w ∈ ws, i ≤ w.oldStart ∧ j ≤ w.newStart := by
  induction E with
  | done => exact fun _ h => by cases h
  | @window i j k k' l l' w ws between old new _ ih =>
    intro w' h
    cases List.mem_cons.mp h with
    | inl e =>
      rw [e]
      omega
    | inr h =>
      have := ih w' h
      omega

/-- One window is replaced. -/
lemma single (E : Edited Same i j [w] l l') : ∃ k k' r r', l = k ++ (w.old ++ r) ∧ l' = k' ++ (w.new ++ r') ∧
    List.Forall₂ Same k k' ∧ List.Forall₂ Same r r' := by
  cases E with
  | window between _ _ rest =>
    cases rest with
    | done behind => exact ⟨_, _, _, _, rfl, rfl, between, behind⟩

/-- Every window ends before the next begins. -/
lemma ordered (E : Edited Same i j ws l l') : ws.Pairwise Window.Before := by
  induction E with
  | done => exact .nil
  | window _ _ _ rest ih => exact .cons (fun w' h => rest.starts w' h) ih

/-- The windows stand at their places. -/
lemma at_places (E : Edited Same i j ws l l') : ∀ w ∈ ws,
    (l.drop (w.oldStart - i)).take w.old.length = w.old ∧ (l'.drop (w.newStart - j)).take w.new.length = w.new := by
  induction E with
  | done => exact fun _ h => by cases h
  | @window i j k k' l l' w ws between old new rest ih =>
    intro w' h
    cases List.mem_cons.mp h with
    | inl e =>
      have len := between.length_eq
      have oldAt : w.oldStart - i = k.length := by omega
      have newAt : w.newStart - j = k'.length := by omega
      rw [e, oldAt, newAt]
      exact ⟨take_drop_append k, take_drop_append k'⟩
    | inr h =>
      have behind := rest.starts w' h
      have len := between.length_eq
      have oldAt : w'.oldStart - i = (k ++ w.old).length + (w'.oldStart - (w.oldStart + w.old.length)) := by
        rw [List.length_append]
        omega
      have newAt : w'.newStart - j = (k' ++ w.new).length + (w'.newStart - (w.newStart + w.new.length)) := by
        rw [List.length_append]
        omega
      rw [oldAt, newAt, ← List.append_assoc, ← List.append_assoc, ← List.drop_drop, ← List.drop_drop, List.drop_left,
        List.drop_left]
      exact ih w' h

/-- An edit of one kind of list is one of another kind whose members are related. -/
lemma lift (E : Edited Same i j ws l l') (imp : ∀ {a a' b b'}, Same a a' → S a b → S a' b' → Same' b b')
    (h : List.Forall₂ S l m) (h' : List.Forall₂ S l' m') :
    ∃ ws', Edited Same' i j ws' m m' ∧
      List.Forall₂ (fun w w' => List.Forall₂ S w.old w'.old ∧ List.Forall₂ S w.new w'.new) ws ws' := by
  have related : ∀ {l l' : List α} {m m' : List β}, List.Forall₂ Same l l' → List.Forall₂ S l m → List.Forall₂ S l' m' →
      List.Forall₂ Same' m m' := by
    intro l l' m m' same h h'
    induction same generalizing m m' with
    | nil =>
      cases h
      cases h'
      exact .nil
    | cons hab _ ih =>
      cases h with
      | cons hb h =>
        cases h' with
        | cons hb' h' => exact .cons (imp hab hb hb') (ih h h')
  induction E generalizing m m' with
  | done same => exact ⟨[], .done (related same h h'), .nil⟩
  | @window i j k k' l l' w ws between old new _ ih =>
    obtain ⟨mk, mr, rfl, hk, hr⟩ := forall₂_append h
    obtain ⟨mo, ml, rfl, ho, hl⟩ := forall₂_append hr
    obtain ⟨mk', mr', rfl, hk', hr'⟩ := forall₂_append h'
    obtain ⟨mn, ml', rfl, hn, hl'⟩ := forall₂_append hr'
    obtain ⟨ws', rest, partners⟩ := ih hl hl'
    rw [ho.length_eq, hn.length_eq] at rest
    refine ⟨⟨w.oldStart, w.newStart, mo, mn⟩ :: ws', ?_, .cons ⟨ho, hn⟩ partners⟩
    refine .window (related between hk hk') ?_ ?_ rest
    · rw [← hk.length_eq]
      exact old
    · rw [← hk.length_eq]
      exact new

end Edited
end

end OpenAgentd.Lib
