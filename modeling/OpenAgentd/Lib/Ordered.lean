import Mathlib.Data.List.Sort
import Mathlib.Tactic.Lemma

/-!
# Lists ordered by a key

A table is a set of rows; a query orders the rows it selects by a key. `sortOn f l` is the list `l`
ordered by the key `f`. With keys that are pairwise different the result is determined by its members
(`sortOn_eq_iff`), so that filters move through it (`sortOn_filter`).

The hypothesis is always `(l.map f).Nodup`: the keys of different members differ, which is what a
primary key gives.
-/

namespace OpenAgentd.Lib
open List

/-- The list `l` ordered by `f`, smallest first. -/
def sortOn {α κ : Type*} [LinearOrder κ] (f : α → κ) (l : List α) : List α :=
  l.insertionSort (fun a b => f a ≤ f b)

/-- Different keys stay different under a filter. -/
lemma nodup_map_filter {α κ : Type*} {f : α → κ} {l : List α} {p : α → Bool}
    (nd : (l.map f).Nodup) : ((l.filter p).map f).Nodup :=
  nd.sublist (List.filter_sublist.map f)

/-- Members with one key are one, when the keys that exist are different. -/
lemma eq_of_filterMap_nodup {α κ : Type*} {f : α → Option κ} {l : List α} {a b : α} {k : κ}
    (nd : (l.filterMap f).Nodup) (ha : a ∈ l) (hb : b ∈ l) (ea : f a = some k) (eb : f b = some k) :
    a = b := by
  induction l with
  | nil => cases ha
  | cons c l ih =>
    have tail : (l.filterMap f).Nodup := nd.sublist ((List.sublist_cons_self c l).filterMap f)
    have fresh : f c = some k → ∀ d ∈ l, f d ≠ some k := by
      intro ec d hd ed
      rw [List.filterMap_cons_some ec, List.nodup_cons] at nd
      exact nd.1 (List.mem_filterMap.mpr ⟨d, hd, ed⟩)
    cases List.mem_cons.mp ha with
    | inl ea' =>
      cases List.mem_cons.mp hb with
      | inl eb' => rw [ea', eb']
      | inr hb' => exact absurd eb (fresh (ea' ▸ ea) b hb')
    | inr ha' =>
      cases List.mem_cons.mp hb with
      | inl eb' => exact absurd ea (fresh (eb' ▸ eb) a ha')
      | inr hb' => exact ih tail ha' hb'

/-- Every member on the right has a partner on the left. -/
lemma forall₂_left {α β : Type*} {R : α → β → Prop} {l : List α} {l' : List β} {b : β}
    (h : List.Forall₂ R l l') (hb : b ∈ l') : ∃ a ∈ l, R a b := by
  induction h with
  | nil => cases hb
  | cons hab _ ih =>
    cases List.mem_cons.mp hb with
    | inl e => exact ⟨_, List.mem_cons_self, e ▸ hab⟩
    | inr hb' =>
      obtain ⟨a, ha, h⟩ := ih hb'
      exact ⟨a, List.mem_cons_of_mem _ ha, h⟩

/-- Every member on the left has a partner on the right. -/
lemma forall₂_right {α β : Type*} {R : α → β → Prop} {l : List α} {l' : List β} {a : α}
    (h : List.Forall₂ R l l') (ha : a ∈ l) : ∃ b ∈ l', R a b :=
  forall₂_left h.flip ha

/-- Partners that are members are related by more. -/
lemma forall₂_imp_mem {α β : Type*} {R S : α → β → Prop} {l : List α} {l' : List β}
    (h : List.Forall₂ R l l') (imp : ∀ a ∈ l, ∀ b ∈ l', R a b → S a b) : List.Forall₂ S l l' := by
  induction h with
  | nil => exact .nil
  | cons hab _ ih =>
    refine .cons (imp _ List.mem_cons_self _ List.mem_cons_self hab) (ih ?_)
    intro a ha b hb
    exact imp a (List.mem_cons_of_mem _ ha) b (List.mem_cons_of_mem _ hb)

/-- Dropping members on the right drops their partners. -/
lemma forall₂_filter_right {α β : Type*} {R : α → β → Prop} {l : List α} {l' : List β} {p : β → Bool}
    (h : List.Forall₂ R l l') : ∃ k, k.Sublist l ∧ List.Forall₂ R k (l'.filter p) := by
  induction h with
  | nil => exact ⟨[], .slnil, .nil⟩
  | @cons a b l l' hab _ ih =>
    obtain ⟨k, sub, hk⟩ := ih
    cases e : p b with
    | true =>
      rw [List.filter_cons_of_pos e]
      exact ⟨a :: k, sub.cons_cons a, .cons hab hk⟩
    | false =>
      rw [List.filter_cons_of_neg (by simp [e])]
      exact ⟨k, sub.cons a, hk⟩

/-- Lists with the same partners are equal when partners determine members. -/
lemma forall₂_left_unique {α β : Type*} {R : α → β → Prop} {l k : List α} {l' : List β}
    (h : List.Forall₂ R l l') (h' : List.Forall₂ R k l')
    (uniq : ∀ a ∈ l, ∀ b ∈ k, ∀ c, R a c → R b c → a = b) : l = k := by
  induction h generalizing k with
  | nil =>
    cases h'
    rfl
  | cons hab _ ih =>
    cases h' with
    | cons hcb h' =>
      have e := uniq _ List.mem_cons_self _ List.mem_cons_self _ hab hcb
      rw [e, ih h' fun a ha b hb =>
        uniq a (List.mem_cons_of_mem _ ha) b (List.mem_cons_of_mem _ hb)]

section
variable {α κ : Type*} [LinearOrder κ] {f : α → κ} {l l' : List α} {a b x : α} {p : α → Bool}

/-- Ordering keeps the members. -/
@[simp] lemma mem_sortOn : x ∈ sortOn f l ↔ x ∈ l :=
  List.mem_insertionSort _

/-- Ordering is a permutation. -/
lemma sortOn_perm : (sortOn f l).Perm l :=
  List.perm_insertionSort _ _

/-- Nothing to sort. -/
@[simp] lemma sortOn_nil : sortOn f ([] : List α) = [] := rfl

/-- The ordered list is ordered. -/
lemma sortOn_pairwise_le : (sortOn f l).Pairwise (fun a b => f a ≤ f b) := by
  have : Std.Total (fun a b : α => f a ≤ f b) := ⟨fun a b => le_total _ _⟩
  have : IsTrans α (fun a b : α => f a ≤ f b) := ⟨fun a b c => le_trans⟩
  exact List.pairwise_insertionSort _ _

/-- With pairwise different keys the order is strict. -/
lemma sortOn_pairwise (nd : (l.map f).Nodup) :
    (sortOn f l).Pairwise (fun a b => f a < f b) := by
  have nd' : ((sortOn f l).map f).Nodup := (sortOn_perm.map f).nodup_iff.mpr nd
  have ne : (sortOn f l).Pairwise (fun a b => f a ≠ f b) := List.pairwise_map.mp nd'
  exact (sortOn_pairwise_le.and ne).imp (fun h => lt_of_le_of_ne h.1 h.2)

/-- A strictly ordered list is determined by its members. -/
lemma ordered_ext (h : l.Pairwise (fun a b => f a < f b))
    (h' : l'.Pairwise (fun a b => f a < f b)) (mem : ∀ x, x ∈ l ↔ x ∈ l') : l = l' := by
  have : Std.Irrefl (fun a b : α => f a < f b) := ⟨fun a => lt_irrefl _⟩
  have : Std.Antisymm (fun a b : α => f a < f b) := ⟨fun a b h h' => absurd h' h.asymm⟩
  exact List.Pairwise.eq_of_mem_iff h h' mem

/-- The ordered list is the strictly ordered list with the same members. -/
lemma sortOn_eq_iff (nd : (l.map f).Nodup) :
    sortOn f l = l' ↔ l'.Pairwise (fun a b => f a < f b) ∧ ∀ x, x ∈ l ↔ x ∈ l' := by
  constructor
  · rintro rfl
    exact ⟨sortOn_pairwise nd, fun x => mem_sortOn.symm⟩
  · rintro ⟨h, mem⟩
    exact ordered_ext (sortOn_pairwise nd) h (fun x => mem_sortOn.trans (mem x))

/-- Filtering commutes with ordering. -/
lemma sortOn_filter (nd : (l.map f).Nodup) :
    sortOn f (l.filter p) = (sortOn f l).filter p := by
  rw [sortOn_eq_iff (nodup_map_filter nd)]
  refine ⟨(sortOn_pairwise nd).filter p, ?_⟩
  intro x
  simp

/-- The first of the ordered list is the least member. -/
lemma sortOn_head?_eq_some (nd : (l.map f).Nodup) :
    (sortOn f l).head? = some a ↔ a ∈ l ∧ ∀ b ∈ l, f a ≤ f b := by
  have ord := sortOn_pairwise nd
  constructor
  · intro h
    obtain ⟨l', e⟩ := List.head?_eq_some_iff.mp h
    rw [e, List.pairwise_cons] at ord
    have mem : ∀ b, b ∈ l ↔ b = a ∨ b ∈ l' := by
      intro b
      rw [← mem_sortOn (f := f), e, List.mem_cons]
    refine ⟨(mem a).mpr (.inl rfl), ?_⟩
    intro b hb
    rcases (mem b).mp hb with rfl | hb'
    · exact le_rfl
    · exact (ord.1 b hb').le
  · rintro ⟨ha, least⟩
    cases h : sortOn f l with
    | nil =>
      have := mem_sortOn (f := f).mpr ha
      rw [h] at this
      cases this
    | cons c l' =>
      rw [h, List.pairwise_cons] at ord
      have hc : c ∈ l := by
        rw [← mem_sortOn (f := f), h]
        exact List.mem_cons_self
      have hin : a ∈ c :: l' := by
        rw [← h]
        exact mem_sortOn.mpr ha
      rcases List.mem_cons.mp hin with rfl | h'
      · rfl
      · exact absurd (least c hc) (not_le_of_gt (ord.1 a h'))

/-- Ordering a list that is already strictly ordered changes nothing. -/
lemma sortOn_eq_self (h : l.Pairwise (fun a b => f a < f b)) : sortOn f l = l := by
  have nd : (l.map f).Nodup := List.pairwise_map.mpr (h.imp ne_of_lt)
  rw [sortOn_eq_iff nd]
  exact ⟨h, fun _ => Iff.rfl⟩

/-- Ordering moves through a map. -/
lemma sortOn_map {β : Type*} {g : β → α} {k : List β} :
    (sortOn (fun b => f (g b)) k).map g = sortOn f (k.map g) :=
  List.map_insertionSort _ _ _ _ fun _ _ _ _ => Iff.rfl

/-- The last of an ordered list is its greatest member. -/
lemma sortOn_getLast?_eq_some (nd : (l.map f).Nodup) :
    (sortOn f l).getLast? = some a ↔ a ∈ l ∧ ∀ b ∈ l, f b ≤ f a := by
  have ord := sortOn_pairwise nd
  constructor
  · intro h
    obtain ⟨l', e⟩ := List.getLast?_eq_some_iff.mp h
    have mem : ∀ b, b ∈ l ↔ b ∈ l' ++ [a] := by
      intro b
      rw [← e, mem_sortOn]
    refine ⟨(mem a).mpr (by simp), ?_⟩
    intro b hb
    rw [e, List.pairwise_append] at ord
    cases List.mem_append.mp ((mem b).mp hb) with
    | inl h' => exact (ord.2.2 b h' a (by simp)).le
    | inr h' => rw [List.mem_singleton.mp h']
  · rintro ⟨ha, greatest⟩
    cases h : (sortOn f l).getLast? with
    | none =>
      rw [List.getLast?_eq_none_iff] at h
      have := mem_sortOn (f := f).mpr ha
      rw [h] at this
      cases this
    | some c =>
      obtain ⟨l', e⟩ := List.getLast?_eq_some_iff.mp h
      have hc : c ∈ l := by
        rw [← mem_sortOn (f := f), e]
        simp
      rw [e, List.pairwise_append] at ord
      have hin : a ∈ l' ++ [c] := by
        rw [← e]
        exact mem_sortOn.mpr ha
      cases List.mem_append.mp hin with
      | inl h' => exact absurd (greatest c hc) (not_le_of_gt (ord.2.2 a h' c (by simp)))
      | inr h' => rw [List.mem_singleton.mp h']

/-- In a strictly descending list the members before position `i` are those with a greater f. -/
lemma filter_gt_eq_take (h : l.Pairwise (fun a b => f b < f a)) {i : Nat} (e : l[i]? = some a) :
    l.filter (fun b => f a < f b) = l.take i := by
  induction l generalizing i with
  | nil => simp at e
  | cons c l ih =>
    rw [List.pairwise_cons] at h
    cases i with
    | zero =>
      obtain rfl : c = a := by simpa using e
      have none : l.filter (fun b => f c < f b) = [] := by
        rw [List.filter_eq_nil_iff]
        intro b hb
        simpa using (h.1 b hb).le
      simp [none]
    | succ i =>
      rw [List.getElem?_cons_succ] at e
      have lt := h.1 a (List.mem_of_getElem? e)
      simp [lt, ih h.2 e]

/-- In a strictly descending list the members behind position `i` are those with a smaller f. -/
lemma filter_lt_eq_drop (h : l.Pairwise (fun a b => f b < f a)) {i : Nat} (e : l[i]? = some a) :
    l.filter (fun b => f b < f a) = l.drop (i + 1) := by
  induction l generalizing i with
  | nil => simp at e
  | cons c l ih =>
    rw [List.pairwise_cons] at h
    cases i with
    | zero =>
      obtain rfl : c = a := by simpa using e
      have all : l.filter (fun b => f b < f c) = l := by
        rw [List.filter_eq_self]
        intro b hb
        simpa using h.1 b hb
      simp [all]
    | succ i =>
      rw [List.getElem?_cons_succ] at e
      have lt := h.1 a (List.mem_of_getElem? e)
      simp [lt.not_gt, ih h.2 e]

/-- Members that no other member comes between stand in one block. -/
lemma ordered_block (h : l.Pairwise (fun a b => f a < f b)) (h' : l'.Pairwise (fun a b => f a < f b))
    (ne : l' ≠ []) (sub : ∀ x ∈ l', x ∈ l)
    (tight : ∀ x ∈ l, x ∈ l' ∨ (∀ k ∈ l', f x < f k) ∨ ∀ k ∈ l', f k < f x) :
    ∃ l₁ l₂, l = l₁ ++ (l' ++ l₂) := by
  obtain ⟨k, hk⟩ := List.exists_mem_of_ne_nil l' ne
  refine ⟨l.filter fun x => ∀ k ∈ l', f x < f k, l.filter fun x => ∀ k ∈ l', f k < f x,
    ordered_ext h ?_ ?_⟩
  · rw [List.pairwise_append, List.pairwise_append]
    refine ⟨h.filter _, ⟨h', h.filter _, ?_⟩, ?_⟩
    · intro a ha b hb
      exact of_decide_eq_true (List.mem_filter.mp hb).2 a ha
    · intro a ha b hb
      have before : ∀ k ∈ l', f a < f k := of_decide_eq_true (List.mem_filter.mp ha).2
      cases List.mem_append.mp hb with
      | inl hb => exact before b hb
      | inr hb =>
        exact (before k hk).trans (of_decide_eq_true (List.mem_filter.mp hb).2 k hk)
  · intro x
    simp only [List.mem_append, List.mem_filter, decide_eq_true_eq]
    constructor
    · intro hx
      rcases tight x hx with h | h | h
      · exact .inr (.inl h)
      · exact .inl ⟨hx, h⟩
      · exact .inr (.inr ⟨hx, h⟩)
    · rintro (h | h | h)
      · exact h.1
      · exact sub x h
      · exact h.1

end

end OpenAgentd.Lib
