import Mathlib.Data.List.Basic
import Mathlib.Tactic.Lemma

/-!
# Texts with a marker

A text that is cut from the front gets a marker in the place of what is gone. `Marked` keeps apart what stands before
the last marker put in and what stands behind it, so that a later cut can be told from one that splits the marker
(`Marked.Splits`): a cut that does not leaves a text of the same kind (`Marked.text_cut`), and one right behind a
separator that only ends the marker never does (`Marked.not_splits`). The separators of a text are counted from its
end (`nthLast`).
-/

namespace OpenAgentd.Lib

/-! ## Separators from the end -/

section
variable {α : Type*} [DecidableEq α] (c : α) (s : List α)

/-- The last place before `k` where `c` stands. -/
def rfind : Nat → Option Nat
  | 0 => none
  | k + 1 => if s[k]? = some c then some k else rfind k

/-- The place that is found after looking `n` times, each time from the place before. -/
def nthLast (find : Nat → Option Nat) : Nat → Nat → Option Nat
  | 0, index => some index
  | n + 1, index => (find index).bind (nthLast find n)

end

section
variable {α : Type*} [DecidableEq α] {c : α} {s : List α} {i k n : Nat} {find find' : Nat → Option Nat}

/-- One element more. -/
lemma count_take_succ : (s.take (k + 1)).count c = (s.take k).count c + if s[k]? = some c then 1 else 0 := by
  rw [List.take_add_one, List.count_append]
  cases s[k]? with
  | none => rfl
  | some d =>
    rw [Option.toList_some, List.count_singleton]
    by_cases e : d = c
    · rw [e, if_pos rfl]
      simp
    · rw [if_neg fun same => e (Option.some.inj same)]
      simp [e]

/-- What is found is a separator, and no other stands behind it. -/
lemma rfind_spec (some : 0 < (s.take k).count c) :
    ∃ i, rfind c s k = .some i ∧ i < k ∧ s[i]? = .some c ∧ (s.take k).count c = (s.take i).count c + 1 := by
  induction k with
  | zero =>
    rw [List.take_zero] at some
    cases some
  | succ k ih =>
    rw [rfind]
    rw [count_take_succ] at some ⊢
    split
    next here => exact ⟨k, rfl, Nat.lt_succ_self k, here, rfl⟩
    next other =>
      rw [if_neg other, Nat.add_zero] at some
      obtain ⟨i, found, lt, here, count⟩ := ih some
      exact ⟨i, found, Nat.lt_succ_of_lt lt, here, count⟩

/-- As many separators as are looked for are found. -/
lemma nthLast_spec (many : n ≤ (s.take k).count c) (pos : 0 < n) :
    ∃ i, nthLast (rfind c s) n k = some i ∧ i < k ∧ s[i]? = some c ∧ (s.take k).count c = (s.take i).count c + n := by
  induction n generalizing k with
  | zero => cases pos
  | succ n ih =>
    obtain ⟨i, found, lt, here, count⟩ := rfind_spec (Nat.lt_of_lt_of_le (Nat.succ_pos n) many)
    rw [nthLast, found, Option.bind_some]
    by_cases last : n = 0
    · rw [last, nthLast]
      exact ⟨i, rfl, lt, here, count⟩
    · have rest : n ≤ (s.take i).count c := by omega
      obtain ⟨j, found', lt', here', count'⟩ := ih rest (Nat.pos_of_ne_zero last)
      exact ⟨j, found', Nat.lt_trans lt' lt, here', by omega⟩

/-- Another way to look that finds the same as long as there is something to find. -/
lemma nthLast_congr (same : ∀ k, 0 < k → find k = rfind c s k) (many : n ≤ (s.take k).count c) :
    nthLast find n k = nthLast (rfind c s) n k := by
  induction n generalizing k with
  | zero => rfl
  | succ n ih =>
    have some : 0 < (s.take k).count c := Nat.lt_of_lt_of_le (Nat.succ_pos n) many
    have pos : 0 < k := by
      apply Nat.pos_of_ne_zero
      rintro rfl
      rw [List.take_zero] at some
      cases some
    obtain ⟨i, found, -, -, count⟩ := rfind_spec some
    have rest : n ≤ (s.take i).count c := by omega
    rw [nthLast, nthLast, same k pos, found, Option.bind_some, Option.bind_some, ih rest]

/-- Behind the last but `n` separators there is one less than `n`. -/
lemma count_drop_nthLast (many : n ≤ s.count c) (pos : 0 < n) :
    ∃ i, nthLast (rfind c s) n s.length = some i ∧ s[i]? = some c ∧ (s.drop (i + 1)).count c = n - 1 := by
  obtain ⟨i, found, -, here, count⟩ := nthLast_spec (k := s.length) (by rwa [List.take_length]) pos
  refine ⟨i, found, here, ?_⟩
  have split := congrArg (List.count c) (List.take_append_drop (i + 1) s)
  rw [List.count_append, count_take_succ, if_pos here] at split
  rw [List.take_length] at count
  omega

end

/-! ## Markers -/

/-- A text, and what stands in it before the last marker that was put in. -/
structure Marked (α : Type*) where
  front : Option (List α)
  tail : List α
  deriving DecidableEq

namespace Marked
variable {α β : Type*} (m : List α)

/-- A text without a marker. -/
def plain (s : List α) : Marked α := ⟨none, s⟩

def text (x : Marked α) : List α := x.front.elim x.tail fun p => p ++ (m ++ x.tail)

/-- One text behind another. -/
def join (x y : Marked α) : Marked α :=
  match y.front with
  | none => ⟨x.front, x.tail ++ y.tail⟩
  | some p => ⟨some (x.text m ++ p), y.tail⟩

/-- The marker in the place of the first `k` elements. -/
def cut (k : Nat) (x : Marked α) : Marked α :=
  match x.front with
  | none => ⟨some [], x.tail.drop k⟩
  | some p => if k ≤ p.length then ⟨some (m ++ p.drop k), x.tail⟩ else ⟨some [], x.tail.drop (k - (p.length + m.length))⟩

/-- A cut after `k` elements goes through the marker. -/
def Splits (k : Nat) (x : Marked α) : Prop :=
  ∃ p ∈ x.front, p.length < k ∧ k < p.length + m.length

instance (k : Nat) (x : Marked α) : Decidable (x.Splits m k) :=
  inferInstanceAs (Decidable (∃ p ∈ x.front, p.length < k ∧ k < p.length + m.length))

/-- Element by element. -/
def flatMap (f : α → List β) (x : Marked α) : Marked β := ⟨x.front.map (·.flatMap f), x.tail.flatMap f⟩

section
variable {m} {x y : Marked α} {k : Nat} {f : α → List β}

/-- The text of two parts. -/
lemma text_join : (x.join m y).text m = x.text m ++ y.text m := by
  cases e : y.front with
  | none =>
    rw [join, e, text, text, text, e]
    cases x.front with
    | none => rfl
    | some p => exact ((List.append_assoc p _ _).trans (congrArg (p ++ ·) (List.append_assoc m _ _))).symm
  | some p =>
    rw [join, e]
    have text_y : y.text m = p ++ (m ++ y.tail) := by rw [text, e]; rfl
    rw [text_y, ← List.append_assoc]
    rfl

/-- Without a mark the tail goes on. -/
lemma tail_join_of_none (none : y.front = none) : (x.join m y).tail = x.tail ++ y.tail := by
  rw [join, none]

/-- A mark begins a new tail. -/
lemma tail_join_of_some (some : y.front ≠ none) : (x.join m y).tail = y.tail := by
  rw [join]
  split
  next none => exact absurd none some
  next => rfl

/-- The text, element by element. -/
lemma text_flatMap : (x.flatMap f).text (m.flatMap f) = (x.text m).flatMap f := by
  rw [text, text, flatMap]
  cases x.front with
  | none => rfl
  | some p => exact (List.flatMap_append.trans (congrArg (p.flatMap f ++ ·) List.flatMap_append)).symm

/-- The mark stays. -/
lemma front_flatMap : (x.flatMap f).front = none ↔ x.front = none := Option.map_eq_none_iff

/-- The tail, element by element. -/
lemma tail_flatMap : (x.flatMap f).tail = x.tail.flatMap f := rfl

/-- What is left behind a cut, where the marker is whole. -/
lemma text_cut (whole : ¬ x.Splits m k) : (x.cut m k).text m = m ++ (x.text m).drop k := by
  cases e : x.front with
  | none =>
    rw [cut, e, text, text, e]
    rfl
  | some p =>
    have text_x : x.text m = p ++ (m ++ x.tail) := by rw [text, e]; rfl
    rw [cut, e, text_x]
    by_cases front : k ≤ p.length
    · simp only [if_pos front]
      rw [List.drop_append_of_le_length front, text, ← List.append_assoc]
      rfl
    · have behind : p.length + m.length ≤ k := by
        by_contra inside
        exact whole ⟨p, e, by omega, by omega⟩
      simp only [if_neg front]
      have gone : (p ++ (m ++ x.tail)).drop k = x.tail.drop (k - (p.length + m.length)) := by
        rw [← List.append_assoc, List.drop_append, List.drop_of_length_le, List.nil_append, List.length_append]
        rw [List.length_append]
        exact behind
      rw [gone, text]
      rfl

/-- A cut leaves an end of the tail. -/
lemma tail_cut : (x.cut m k).tail <:+ x.tail := by
  rw [cut]
  split
  · exact List.drop_suffix _ _
  · split
    · exact List.suffix_refl _
    · exact List.drop_suffix _ _

/-- A cut that leaves as much as stands behind the marker. -/
lemma tail_cut_eq (short : k + x.tail.length ≤ (x.text m).length) : (x.cut m k).tail = x.tail := by
  cases e : x.front with
  | none =>
    have text_x : x.text m = x.tail := by rw [text, e]; rfl
    have none : k = 0 := by
      rw [text_x] at short
      omega
    rw [cut, e, none]
    rfl
  | some p =>
    have text_x : x.text m = p ++ (m ++ x.tail) := by rw [text, e]; rfl
    rw [text_x, List.length_append, List.length_append] at short
    rw [cut, e]
    by_cases front : k ≤ p.length
    · simp only [if_pos front]
    · have all : k - (p.length + m.length) = 0 := by omega
      simp only [if_neg front, all]
      exact List.drop_zero

/-- A cut leaves a mark. -/
lemma front_cut : (x.cut m k).front ≠ none := by
  rw [cut]
  split
  · exact Option.some_ne_none _
  · split
    · exact Option.some_ne_none _
    · exact Option.some_ne_none _

/-- A cut behind an element that only ends the marker. -/
lemma not_splits {c : α} {m' : List α} (ends : m = m' ++ [c]) (inner : c ∉ m')
    (here : (x.text m)[k]? = some c) : ¬ x.Splits m (k + 1) := by
  rintro ⟨p, e, lt, gt⟩
  have text_x : x.text m = p ++ (m ++ x.tail) := by rw [text, e]; rfl
  rw [ends, List.length_append, List.length_singleton] at gt
  rw [text_x, ends, List.getElem?_append_right (by omega), List.append_assoc, List.getElem?_append_left (by omega)]
    at here
  exact inner (List.mem_of_getElem? here)

/-- As many separators behind a cut as behind the marker and one more: the cut is not behind the marker. -/
lemma short_of_count [DecidableEq α] {c : α} (here : (x.text m)[k]? = some c)
    (few : x.tail.count c ≤ ((x.text m).drop (k + 1)).count c) : k + 1 + x.tail.length ≤ (x.text m).length := by
  by_contra behind
  have lt : k < (x.text m).length := by
    by_contra ge
    rw [List.getElem?_eq_none (Nat.not_lt.mp ge)] at here
    cases here
  -- the separator at the cut stands in the tail
  have split : ∃ a, x.text m = a ++ x.tail := by
    rw [text]
    cases x.front with
    | none => exact ⟨[], rfl⟩
    | some p => exact ⟨p ++ m, (List.append_assoc p m x.tail).symm⟩
  obtain ⟨a, e⟩ := split
  rw [e, List.length_append] at behind lt
  rw [e, List.getElem?_append_right (by omega)] at here
  rw [e, List.drop_append, List.drop_of_length_le (by omega), List.nil_append] at few
  have parts := congrArg (List.count c) (List.take_append_drop (k + 1 - a.length) x.tail)
  have place : k + 1 - a.length = k - a.length + 1 := by omega
  rw [List.count_append, place, count_take_succ, if_pos here] at parts
  rw [place] at few
  omega

end

end Marked

end OpenAgentd.Lib
