import OpenAgentd.Lib.Ordered

/-!
# Pages behind a cursor

A list in descending order is read in pages of `size`; the cursor of the next page is the key of the last member of a
page (`Cursors`). The pages of the list itself are the list (`Cursors.own`). A second list can be read with the cursors
of the first: its pages are the second list if and only if both lists are cut at the same places (`Cursors.other`).
-/

namespace OpenAgentd.Lib

section
variable {α κ : Type*} [LinearOrder κ] (f : α → κ) (size : Nat)

/-- What comes before a cursor. -/
def beforeCursor (cursor : Option κ) (x : α) : Bool := cursor.all fun c => decide (f x < c)

/-- What is left of a list at a cursor. -/
def leftAt (l : List α) (cursor : Option κ) : List α := l.filter (beforeCursor f cursor)

/-- The page of a list at a cursor. -/
def pageAt (l : List α) (cursor : Option κ) : List α := (leftAt f l cursor).take size

/-- The cursors at which a list is read, from one on. -/
inductive Cursors (l : List α) : Option κ → List (Option κ) → Prop where
  | last {c} :
    (leftAt f l c).length ≤ size →
    Cursors l c [c]
  | more {c b cs} :
    size < (leftAt f l c).length →
    (leftAt f l c)[size - 1]? = some b →
    Cursors l (some (f b)) cs →
    Cursors l c (c :: cs)

/-- What is left of `D` is cut where what is left of `l` is, and is no longer than the pages of `l`. -/
structure CutAlike (l D : List α) (c : Option κ) : Prop where
  cuts : ∀ k b, size * (k + 1) < (leftAt f l c).length → (leftAt f l c)[size * (k + 1) - 1]? = some b →
    leftAt f D (some (f b)) = (leftAt f D c).drop (size * (k + 1))
  pages : (leftAt f D c).length ≤ size * (((leftAt f l c).length - 1) / size + 1)

end

section
variable {α κ : Type*} [LinearOrder κ] {f : α → κ} {size : Nat} {l D : List α} {c : Option κ} {cs : List (Option κ)}
  {a b : α}

/-- Without a cursor all is left. -/
lemma leftAt_none : leftAt f l none = l := by
  unfold leftAt beforeCursor
  simp

/-- What is left at a cursor. -/
lemma mem_leftAt : a ∈ leftAt f l c ↔ a ∈ l ∧ ∀ k, c = some k → f a < k := by
  unfold leftAt beforeCursor
  cases c with
  | none => simp
  | some k => simp

/-- A member that is left is a cursor further on. -/
lemma leftAt_leftAt (h : b ∈ leftAt f l c) : leftAt f (leftAt f D c) (some (f b)) = leftAt f D (some (f b)) := by
  unfold leftAt
  rw [List.filter_filter]
  refine List.filter_congr fun a _ => ?_
  have lt := (mem_leftAt.mp h).2
  unfold beforeCursor
  cases c with
  | none => simp
  | some k =>
    have lt := lt k rfl
    by_cases less : f a < f b
    · simp [less, less.trans lt]
    · simp [less]

/-- What is left at the last member of a page. -/
lemma leftAt_next (h : l.Pairwise fun a b => f b < f a) (pos : 0 < size)
    (e : (leftAt f l c)[size - 1]? = some b) : leftAt f l (some (f b)) = (leftAt f l c).drop size := by
  have order : (leftAt f l c).Pairwise fun a b => f b < f a := h.filter _
  have cut := filter_lt_eq_drop order e
  rw [Nat.sub_add_cancel pos] at cut
  rw [← cut, ← leftAt_leftAt (List.mem_of_getElem? e)]
  rfl

/-- What is left is the end of the list. -/
lemma leftAt_suffix (h : l.Pairwise fun a b => f b < f a) : leftAt f l c <:+ l := by
  induction l with
  | nil => exact List.suffix_refl _
  | cons a l ih =>
    obtain ⟨less, h⟩ := List.pairwise_cons.mp h
    by_cases before : beforeCursor f c a = true
    · have all : leftAt f (a :: l) c = a :: l := by
        unfold leftAt
        rw [List.filter_eq_self]
        intro b hb
        cases List.mem_cons.mp hb with
        | inl e => exact e ▸ before
        | inr hb =>
          unfold beforeCursor at before ⊢
          rw [Option.all_eq_true] at before ⊢
          intro k hk
          have lt := before k hk
          simp only [decide_eq_true_eq] at lt ⊢
          exact (less b hb).trans lt
      exact ⟨[], all⟩
    · have skip : leftAt f (a :: l) c = leftAt f l c := List.filter_cons_of_neg before
      rw [skip]
      exact (ih h).trans (List.suffix_cons a l)

namespace Cursors

/-- There are cursors to the end. -/
lemma exist (h : l.Pairwise fun a b => f b < f a) (pos : 0 < size) (c : Option κ) :
    ∃ cs, Cursors f size l c cs := by
  generalize len : (leftAt f l c).length = n
  induction n using Nat.strongRecOn generalizing c with
  | ind n ih =>
    by_cases more : size < (leftAt f l c).length
    · have in_range : size - 1 < (leftAt f l c).length := by omega
      have e := List.getElem?_eq_getElem in_range
      have shorter : (leftAt f l (some (f (leftAt f l c)[size - 1]))).length = n - size := by
        rw [leftAt_next h pos e, List.length_drop, len]
      obtain ⟨cs, C⟩ := ih (n - size) (by omega) _ shorter
      exact ⟨_, .more more e C⟩
    · exact ⟨_, .last (not_lt.mp more)⟩

/-- Pages begin at their cursor. -/
lemma head (C : Cursors f size l c cs) : ∃ cs', cs = c :: cs' := by
  cases C with
  | last => exact ⟨_, rfl⟩
  | more => exact ⟨_, rfl⟩

/-- The pages of the list are the list. -/
theorem own (h : l.Pairwise fun a b => f b < f a) (pos : 0 < size) (C : Cursors f size l c cs) :
    cs.flatMap (pageAt f size l) = leftAt f l c := by
  induction C with
  | last le => rw [List.flatMap_singleton, pageAt, List.take_of_length_le le]
  | more _ e _ ih => rw [List.flatMap_cons, ih, leftAt_next h pos e, pageAt, List.take_append_drop]

/-- The pages of another list have only what is left of it. -/
lemma mem_other (C : Cursors f size l c cs) (ha : a ∈ cs.flatMap (pageAt f size D)) : a ∈ leftAt f D c := by
  induction C with
  | last _ =>
    rw [List.flatMap_singleton] at ha
    exact List.mem_of_mem_take ha
  | more _ e _ ih =>
    rw [List.flatMap_cons, List.mem_append] at ha
    cases ha with
    | inl here => exact List.mem_of_mem_take here
    | inr later =>
      have later := ih later
      rw [← leftAt_leftAt (List.mem_of_getElem? e)] at later
      exact List.mem_of_mem_filter later

/-- In a descending list what follows a member is determined. -/
lemma tail_unique {t t' : List α} (h : l.Pairwise fun a b => f b < f a) (s : a :: t <:+ l) (s' : a :: t' <:+ l) :
    t = t' := by
  have go : ∀ {t}, a :: t <:+ l → l.filter (fun b => f b < f a) = t := by
    rintro t ⟨p, rfl⟩
    rw [filter_lt_eq_drop h (i := p.length) (by simp), List.drop_append]
    simp
  rw [← go s, ← go s']

/-- If the pages behind a page are what is behind it, the cursor cuts there. -/
lemma cut_of_pages (h : D.Pairwise fun a b => f b < f a) (pos : 0 < size) (C : Cursors f size l (some (f b)) cs)
    (inside : leftAt f D (some (f b)) <:+ leftAt f D c)
    (e : cs.flatMap (pageAt f size D) = (leftAt f D c).drop size) :
    leftAt f D (some (f b)) = (leftAt f D c).drop size := by
  have order : (leftAt f D c).Pairwise fun a b => f b < f a := h.filter _
  cases left : leftAt f D (some (f b)) with
  | nil =>
    rw [← e]
    refine (List.eq_nil_iff_forall_not_mem.mpr fun a ha => ?_).symm
    have mem := C.mem_other ha
    rw [left] at mem
    cases mem
  | cons x t =>
    obtain ⟨cs', rfl⟩ := C.head
    obtain ⟨n, rfl⟩ := Nat.exists_eq_succ_of_ne_zero pos.ne'
    rw [List.flatMap_cons, pageAt, left, List.take_succ_cons, List.cons_append] at e
    rw [left] at inside
    have same := tail_unique order inside (e ▸ List.drop_suffix _ _)
    rw [← e, ← same]

/-- A second list is read completely with the cursors of the first if and only if they are cut alike. -/
theorem other (h : l.Pairwise fun a b => f b < f a) (h' : D.Pairwise fun a b => f b < f a) (pos : 0 < size)
    (C : Cursors f size l c cs) : cs.flatMap (pageAt f size D) = leftAt f D c ↔ CutAlike f size l D c := by
  induction C with
  | @last c le =>
    have one : ((leftAt f l c).length - 1) / size = 0 := Nat.div_eq_of_lt (by omega)
    rw [List.flatMap_singleton, pageAt]
    constructor
    · intro all
      have le' : (leftAt f D c).length ≤ size := by
        rw [← all]
        exact List.length_take_le _ _
      refine ⟨fun k b lt _ => absurd lt ?_, ?_⟩
      · have grows : size ≤ size * (k + 1) := Nat.le_mul_of_pos_right _ (Nat.succ_pos k)
        omega
      · rw [one]
        omega
    · intro A
      have pages := A.pages
      rw [one] at pages
      exact List.take_of_length_le (by omega)
  | @more c b cs more e C ih =>
    have next := leftAt_next h pos e
    have inside : leftAt f D (some (f b)) <:+ leftAt f D c := by
      rw [← leftAt_leftAt (List.mem_of_getElem? e)]
      exact leftAt_suffix (h'.filter _)
    -- the pages of the first list behind this one
    have count : ((leftAt f l (some (f b))).length - 1) / size + 1 = ((leftAt f l c).length - 1) / size := by
      rw [next, List.length_drop]
      have split_ : (leftAt f l c).length - 1 = (leftAt f l c).length - size - 1 + size := by omega
      rw [split_, Nat.add_div_right _ pos]
    have place : ∀ k, (leftAt f l (some (f b)))[size * (k + 1) - 1]? = (leftAt f l c)[size * (k + 2) - 1]? := by
      intro k
      have there : size + (size * (k + 1) - 1) = size * (k + 2) - 1 := by
        have grows : size ≤ size * (k + 1) := Nat.le_mul_of_pos_right _ (Nat.succ_pos k)
        have more : size * (k + 2) = size * (k + 1) + size := Nat.mul_succ size (k + 1)
        omega
      rw [next, List.getElem?_drop, there]
    have longer : ∀ k, size * (k + 1) < (leftAt f l (some (f b))).length ↔
        size * (k + 2) < (leftAt f l c).length := by
      intro k
      have more : size * (k + 2) = size * (k + 1) + size := Nat.mul_succ size (k + 1)
      rw [next, List.length_drop]
      omega
    rw [List.flatMap_cons]
    constructor
    · intro all
      have behind : cs.flatMap (pageAt f size D) = (leftAt f D c).drop size := by
        have whole := all.trans (List.take_append_drop size (leftAt f D c)).symm
        exact List.append_cancel_left whole
      have cut := cut_of_pages h' pos C inside behind
      have A := ih.mp (behind.trans cut.symm)
      refine ⟨fun k b' lt e' => ?_, ?_⟩
      · cases k with
        | zero =>
          rw [Nat.zero_add, Nat.mul_one] at e' ⊢
          rw [e] at e'
          obtain rfl := Option.some.inj e'
          exact cut
        | succ k =>
          rw [A.cuts k b' ((longer k).mpr lt) ((place k).trans e'), cut, List.drop_drop]
          congr 1
          rw [Nat.mul_succ size (k + 1), Nat.add_comm]
      · have pages := A.pages
        rw [count, cut, List.length_drop] at pages
        rw [Nat.mul_succ]
        omega
    · intro A
      have cut : leftAt f D (some (f b)) = (leftAt f D c).drop size := by
        have here := A.cuts 0 b (by omega) (by simpa using e)
        simpa using here
      have behind := ih.mpr ⟨fun k b' lt e' => ?_, ?_⟩
      · rw [behind, cut, pageAt, List.take_append_drop]
      · rw [A.cuts (k + 1) b' ((longer k).mp lt) ((place k).symm.trans e'), cut, List.drop_drop]
        congr 1
        rw [Nat.mul_succ size (k + 1), Nat.add_comm]
      · have pages := A.pages
        rw [Nat.mul_succ] at pages
        rw [count, cut, List.length_drop]
        omega

end Cursors

end

end OpenAgentd.Lib
