import Mathlib.Data.List.Nodup
import Mathlib.Data.List.Perm.Subperm
import Mathlib.Tactic.Lemma

/-!
# Forests from parents

Nodes know their parents, and the rows of the forest list each node in front of the nodes below it, with its depth. A node
has a row when the way up from it ends (`mem_forest_iff`), it has one row only (`forest_nodup`), the rows of the children
of a node keep their order (`filter_forest`), and the parent of a row is the nearest row above it that is less deep
(`nested_forest`), so that the rows say again who is whose parent.
-/

namespace OpenAgentd.Lib

section
variable {α : Type*} (parent : α → Option α)

/-- The depth of the nodes below `p`, when the way up from there ends. -/
inductive Level : Option α → Nat → Prop where
  | top : Level none 0
  | under {x : α} {d : Nat} (above : Level (parent x) d) : Level (some x) (d + 1)

/-- The node `n` steps up. -/
def up : Nat → α → Option α
  | 0, x => some x
  | n + 1, x => (up n x).bind parent

/-- The parent of a row that is deeper than `d` is the nearest row above it that is less deep. -/
def NestedFrom (d : Nat) (rows : List (α × Nat)) : Prop :=
  ∀ front y e back, d ≤ e → rows = front ++ (y, e + 1) :: back →
    ∃ before x between, front = before ++ (x, e) :: between ∧ parent y = some x ∧ ∀ r ∈ between, e < r.2

/-- The rows below `p`, at most `k` deep. -/
def rowsBelow (below : Option α → List α) : Nat → Nat → Option α → List (α × Nat)
  | 0, _, _ => []
  | k + 1, d, p => (below p).flatMap fun x => (x, d) :: rowsBelow below k (d + 1) (some x)

/-- The children of each node, and the nodes without a parent. -/
structure Family (nodes : List α) (below : Option α → List α) : Prop where
  mem : ∀ {p x}, x ∈ below p ↔ x ∈ nodes ∧ parent x = p
  once : ∀ p, (below p).Nodup
  known : ∀ {x y}, x ∈ nodes → parent x = some y → y ∈ nodes

variable {parent} {nodes : List α} {below : Option α → List α} {p q : Option α} {x y z : α} {d e e' k : Nat}

/-- A node has one level. -/
lemma Level.unique (h : Level parent p d) (h' : Level parent p e) : d = e := by
  induction h generalizing e with
  | top =>
    cases h'
    rfl
  | under _ ih =>
    cases h' with
    | under above => rw [ih above]

/-- A row: a child, or below one. -/
lemma mem_rowsBelow_succ : (y, e) ∈ rowsBelow below (k + 1) d p ↔
    ∃ x ∈ below p, (y, e) = (x, d) ∨ (y, e) ∈ rowsBelow below k (d + 1) (some x) := by
  rw [rowsBelow, List.mem_flatMap]
  simp only [List.mem_cons]

/-- Rows below are no higher. -/
lemma le_of_row (mem : (y, e) ∈ rowsBelow below k d p) : d ≤ e := by
  induction k generalizing d p with
  | zero => cases mem
  | succ k ih =>
    obtain ⟨x, _, same | deeper⟩ := mem_rowsBelow_succ.mp mem
    · cases same
      exact Nat.le_refl _
    · exact Nat.le_of_succ_le (ih deeper)

/-- A node below a row has a row. -/
lemma row_below (mem : (x, e) ∈ rowsBelow below k d p) (room : e + 1 < d + k) (child : y ∈ below (some x)) :
    (y, e + 1) ∈ rowsBelow below k d p := by
  induction k generalizing d p with
  | zero => cases mem
  | succ k ih =>
    obtain ⟨z, here, same | deeper⟩ := mem_rowsBelow_succ.mp mem
    · cases same
      cases k with
      | zero => omega
      | succ k => exact mem_rowsBelow_succ.mpr ⟨x, here, .inr (mem_rowsBelow_succ.mpr ⟨y, child, .inl rfl⟩)⟩
    · exact mem_rowsBelow_succ.mpr ⟨z, here, .inr (ih deeper (by omega))⟩

/-- No rows are nested. -/
lemma nestedFrom_nil : NestedFrom parent d [] := by
  intro front y e back _ split
  exact absurd split.symm (List.append_ne_nil_of_right_ne_nil _ (List.cons_ne_nil _ _))

/-- Nested rows in a row. -/
lemma nestedFrom_append {rows rows' : List (α × Nat)} (front : NestedFrom parent d rows)
    (back : NestedFrom parent d rows') : NestedFrom parent d (rows ++ rows') := by
  intro before y e after low split
  rcases List.append_eq_append_iff.mp split with ⟨before', e₁, e₂⟩ | ⟨after', e₁, e₂⟩
  · obtain ⟨before, z, between, e₃, rest⟩ := back before' y e after low e₂
    exact ⟨rows ++ before, z, between, by rw [e₁, e₃, List.append_assoc], rest⟩
  · cases after' with
    | nil =>
      obtain ⟨before', z, between, e₃, rest⟩ := back [] y e after low e₂.symm
      exact absurd e₃.symm (List.append_ne_nil_of_right_ne_nil _ (List.cons_ne_nil _ _))
    | cons r after' =>
      obtain ⟨same, _⟩ := List.cons.inj e₂
      subst same
      exact front before y e after' low e₁

variable (family : Family parent nodes below)
include family

/-- Children are a level lower. -/
lemma Family.level (level : Level parent p d) (mem : x ∈ below p) : Level parent (some x) (d + 1) := by
  have own := (family.mem.mp mem).2
  exact .under (own ▸ level)

/-- What a row says of its node. -/
lemma Family.row (level : Level parent p d) (mem : (y, e) ∈ rowsBelow below k d p) :
    y ∈ nodes ∧ Level parent (parent y) e ∧ d ≤ e ∧ e < d + k := by
  induction k generalizing d p with
  | zero => cases mem
  | succ k ih =>
    obtain ⟨x, here, same | deeper⟩ := mem_rowsBelow_succ.mp mem
    · cases same
      obtain ⟨known, own⟩ := family.mem.mp here
      exact ⟨known, own ▸ level, Nat.le_refl _, by omega⟩
    · obtain ⟨known, own, low, high⟩ := ih (family.level level here) deeper
      exact ⟨known, own, by omega, by omega⟩

/-- The rows of a node are below it. -/
lemma Family.up_row (mem : (y, e) = (x, d) ∨ (y, e) ∈ rowsBelow below k (d + 1) (some x)) :
    d ≤ e ∧ up parent (e - d) y = some x := by
  induction k generalizing d x with
  | zero =>
    rcases mem with same | deeper
    · cases same
      exact ⟨Nat.le_refl _, by rw [Nat.sub_self, up]⟩
    · cases deeper
  | succ k ih =>
    rcases mem with same | deeper
    · cases same
      exact ⟨Nat.le_refl _, by rw [Nat.sub_self, up]⟩
    · obtain ⟨z, here, row⟩ := mem_rowsBelow_succ.mp deeper
      obtain ⟨low, above⟩ := ih row
      refine ⟨by omega, ?_⟩
      rw [show e - d = (e - (d + 1)) + 1 by omega, up, above, Option.bind_some, (family.mem.mp here).2]

/-- A node is below one node of each depth. -/
lemma Family.apart (level : Level parent p d) (here : x ∈ below p) (here' : z ∈ below p)
    (row : (y, e) = (x, d) ∨ (y, e) ∈ rowsBelow below k (d + 1) (some x))
    (row' : (y, e') = (z, d) ∨ (y, e') ∈ rowsBelow below k (d + 1) (some z)) : x = z := by
  have own : ∀ {x e}, x ∈ below p → ((y, e) = (x, d) ∨ (y, e) ∈ rowsBelow below k (d + 1) (some x)) →
      Level parent (parent y) e := by
    intro x e here row
    rcases row with same | deeper
    · cases same
      exact (family.mem.mp here).2 ▸ level
    · exact (family.row (family.level level here) deeper).2.1
  have above := (family.up_row row).2
  rw [(own here row).unique (own here' row'), (family.up_row row').2] at above
  exact (Option.some.inj above).symm

/-- The parent of a row has a row, or the row is at the top. -/
lemma Family.row_above (mem : (y, e) ∈ rowsBelow below k d p) :
    parent y = p ∨ ∃ z, parent y = some z ∧ ∃ e', (z, e') ∈ rowsBelow below k d p := by
  induction k generalizing d p with
  | zero => cases mem
  | succ k ih =>
    obtain ⟨x, here, same | deeper⟩ := mem_rowsBelow_succ.mp mem
    · cases same
      exact .inl (family.mem.mp here).2
    · rcases ih deeper with own | ⟨z, own, e', row⟩
      · exact .inr ⟨x, own, d, mem_rowsBelow_succ.mpr ⟨x, here, .inl rfl⟩⟩
      · exact .inr ⟨z, own, e', mem_rowsBelow_succ.mpr ⟨x, here, .inr row⟩⟩

/-! ### How deep the forest is -/

/-- The way up has as many nodes as the depth says. -/
lemma Family.ancestors (known : x ∈ nodes) (level : Level parent (parent x) d) :
    ∃ l : List α, l.Nodup ∧ l.length = d + 1 ∧ l ⊆ nodes ∧ ∀ y ∈ l, ∃ e ≤ d, Level parent (parent y) e := by
  generalize own : parent x = p at level
  induction level generalizing x with
  | top =>
    refine ⟨[x], List.nodup_singleton x, rfl, List.cons_subset.mpr ⟨known, List.nil_subset _⟩, ?_⟩
    intro y mem
    rw [List.mem_singleton.mp mem, own]
    exact ⟨0, Nat.le_refl 0, .top⟩
  | @under z d above ih =>
    obtain ⟨l, nodup, length, sub, levels⟩ := ih (family.known known own) rfl
    refine ⟨x :: l, List.nodup_cons.mpr ⟨?_, nodup⟩, by rw [List.length_cons, length], List.cons_subset.mpr ⟨known, sub⟩, ?_⟩
    · intro mem
      obtain ⟨e, le, level⟩ := levels x mem
      rw [own] at level
      have same := (Level.under above).unique level
      omega
    · intro y mem
      cases mem with
      | head => exact ⟨d + 1, Nat.le_refl _, own ▸ .under above⟩
      | tail _ mem =>
        obtain ⟨e, le, level⟩ := levels y mem
        exact ⟨e, Nat.le_succ_of_le le, level⟩

/-- Levels are bounded by the nodes. -/
lemma Family.level_lt (known : x ∈ nodes) (level : Level parent (parent x) d) : d < nodes.length := by
  obtain ⟨l, nodup, length, sub, _⟩ := family.ancestors known level
  have le := (List.subperm_of_subset nodup sub).length_le
  omega

/-! ### The rows of the forest -/

/-- The rows are the nodes from which the way up ends. -/
lemma Family.mem_forest_iff (enough : nodes.length ≤ k) :
    (x, d) ∈ rowsBelow below k 0 none ↔ x ∈ nodes ∧ Level parent (parent x) d := by
  constructor
  · intro mem
    obtain ⟨known, level, _⟩ := family.row .top mem
    exact ⟨known, level⟩
  · rintro ⟨known, level⟩
    have room : d < k := Nat.lt_of_lt_of_le (family.level_lt known level) enough
    generalize own : parent x = p at level
    induction level generalizing x with
    | top =>
      cases k with
      | zero => omega
      | succ k => exact mem_rowsBelow_succ.mpr ⟨x, family.mem.mpr ⟨known, own⟩, .inl rfl⟩
    | @under z d above ih =>
      have row := ih (family.known known own) (by omega) rfl
      exact row_below row (by omega) (family.mem.mpr ⟨known, own⟩)

/-- No node has two rows. -/
lemma Family.rows_nodup (level : Level parent p d) : ((rowsBelow below k d p).map Prod.fst).Nodup := by
  induction k generalizing d p with
  | zero => exact List.nodup_nil
  | succ k ih =>
    rw [rowsBelow, List.map_flatMap, List.nodup_flatMap]
    refine ⟨fun x here => ?_, (List.nodup_iff_pairwise_ne.mp (family.once p)).imp_of_mem ?_⟩
    · rw [List.map_cons, List.nodup_cons]
      refine ⟨fun mem => ?_, ih (family.level level here)⟩
      obtain ⟨⟨y, e⟩, row, same⟩ := List.mem_map.mp mem
      obtain ⟨_, own, low, _⟩ := family.row (family.level level here) row
      rw [show y = x from same, (family.mem.mp here).2] at own
      have := own.unique level
      omega
    · intro x x' here here' ne y mem mem'
      rw [List.mem_map] at mem mem'
      obtain ⟨⟨z, e⟩, row, same⟩ := mem
      obtain ⟨⟨z', e'⟩, row', same'⟩ := mem'
      cases same
      cases same'
      exact ne (family.apart level here here' (List.mem_cons.mp row) (List.mem_cons.mp row'))

/-- Each node has one row. -/
lemma Family.forest_nodup : ((rowsBelow below k 0 none).map Prod.fst).Nodup := family.rows_nodup .top

/-! ### The order of the rows -/

/-- A node in front of the rows below it. -/
lemma Family.nestedFrom_cons (rows : NestedFrom parent (d + 1) (rowsBelow below k (d + 1) (some x))) :
    NestedFrom parent d ((x, d) :: rowsBelow below k (d + 1) (some x)) := by
  intro front y e back low split
  cases front with
  | nil =>
    have := congrArg Prod.snd (List.cons.inj split).1
    dsimp only at this
    omega
  | cons r front =>
    obtain ⟨same, later⟩ := List.cons.inj split
    cases same
    cases Nat.lt_or_eq_of_le low with
    | inl deep =>
      obtain ⟨before, z, between, e₁, rest⟩ := rows front y e back deep later
      exact ⟨(x, d) :: before, z, between, by rw [e₁, List.cons_append], rest⟩
    | inr same =>
      subst same
      have inside : ∀ r ∈ front ++ (y, d + 1) :: back, r ∈ rowsBelow below k (d + 1) (some x) := fun r mem => later ▸ mem
      have own := (family.up_row (.inr (inside _ (List.mem_append_right _ List.mem_cons_self)))).2
      rw [Nat.add_sub_cancel_left, up, up, Option.bind_some] at own
      exact ⟨[], x, front, rfl, own, fun r mem => le_of_row (inside r (List.mem_append_left _ mem))⟩

/-- The rows are nested. -/
lemma Family.nestedFrom (k d : Nat) (p : Option α) : NestedFrom parent d (rowsBelow below k d p) := by
  induction k generalizing d p with
  | zero => exact nestedFrom_nil
  | succ k ih =>
    rw [rowsBelow]
    generalize below p = xs
    induction xs with
    | nil => exact nestedFrom_nil
    | cons x xs ihx =>
      rw [List.flatMap_cons]
      exact nestedFrom_append (family.nestedFrom_cons (ih (d + 1) (some x))) ihx

/-- The parent of a row is the nearest row above it that is less deep. -/
lemma Family.nested_forest : NestedFrom parent 0 (rowsBelow below k 0 none) :=
  family.nestedFrom k 0 none

/-! ### Children -/

omit family in
/-- Only one element adds. -/
lemma flatMap_single {β : Type*} {l : List α} {f : α → List β} (once : l.Nodup) (mem : x ∈ l)
    (others : ∀ y ∈ l, y ≠ x → f y = []) : l.flatMap f = f x := by
  obtain ⟨front, back, e⟩ := List.append_of_mem mem
  subst e
  obtain ⟨_, tail, apart⟩ := List.nodup_append.mp once
  have before : front.flatMap f = [] := by
    refine List.flatMap_eq_nil_iff.mpr fun y here => others y (List.mem_append_left _ here) ?_
    exact fun same => apart y here x List.mem_cons_self same
  have after : back.flatMap f = [] := by
    refine List.flatMap_eq_nil_iff.mpr fun y here => others y (List.mem_append_right _ (List.mem_cons_of_mem _ here)) ?_
    exact fun same => (List.nodup_cons.mp tail).1 (same ▸ here)
  rw [List.flatMap_append, List.flatMap_cons, before, after, List.nil_append, List.append_nil]

variable [DecidableEq α]

/-- The rows of the children of `q`. -/
def childRows (parent : α → Option α) (q : Option α) (rows : List (α × Nat)) : List α :=
  (rows.map Prod.fst).filter fun y => parent y = q

omit family in
/-- The child rows, one level more. -/
lemma childRows_succ (p : Option α) : childRows parent q (rowsBelow below (k + 1) d p) =
    (below p).flatMap fun x =>
      (if parent x = q then [x] else []) ++ childRows parent q (rowsBelow below k (d + 1) (some x)) := by
  rw [childRows, rowsBelow, List.map_flatMap, List.filter_flatMap]
  refine List.flatMap_congr fun x _ => ?_
  rw [List.map_cons, List.filter_cons]
  split
  next same => rw [if_pos (of_decide_eq_true same), childRows, List.singleton_append]
  next other => rw [if_neg fun same => other (decide_eq_true same), childRows, List.nil_append]

/-- A node that has no row has no rows below it. -/
lemma Family.childRows_eq_nil (top : p ≠ some z) (none_ : ∀ e, (z, e) ∉ rowsBelow below k d p) :
    childRows parent (some z) (rowsBelow below k d p) = [] := by
  refine List.filter_eq_nil_iff.mpr fun y mem own => ?_
  obtain ⟨⟨y', e⟩, row, same⟩ := List.mem_map.mp mem
  cases same
  have own := of_decide_eq_true own
  rcases family.row_above row with same | ⟨x, above, e', row'⟩
  · exact top (same.symm.trans own)
  · rw [own] at above
    cases above
    exact none_ e' row'

/-- The children of the top. -/
lemma Family.childRows_self (level : Level parent p d) : childRows parent p (rowsBelow below (k + 1) d p) = below p := by
  rw [childRows_succ]
  have each : ∀ x ∈ below p,
      (if parent x = p then [x] else []) ++ childRows parent p (rowsBelow below k (d + 1) (some x)) = [x] := by
    intro x here
    have deeper : childRows parent p (rowsBelow below k (d + 1) (some x)) = [] := by
      refine List.filter_eq_nil_iff.mpr fun y mem own => ?_
      obtain ⟨⟨y', e⟩, row, same⟩ := List.mem_map.mp mem
      cases same
      obtain ⟨_, level', low, _⟩ := family.row (family.level level here) row
      rw [of_decide_eq_true own] at level'
      have := level'.unique level
      omega
    rw [if_pos (family.mem.mp here).2, deeper, List.append_nil]
  rw [List.flatMap_congr each]
  exact List.flatMap_singleton' _

/-- The children of a row. -/
lemma Family.childRows_row (level : Level parent p d) (mem : (z, e) ∈ rowsBelow below k d p) (room : e + 1 < d + k) :
    childRows parent (some z) (rowsBelow below k d p) = below (some z) := by
  induction k generalizing d p with
  | zero => cases mem
  | succ k ih =>
    obtain ⟨x, here, row⟩ := mem_rowsBelow_succ.mp mem
    obtain ⟨_, own, low, _⟩ := family.row level mem
    have top : p ≠ some z := by
      intro same
      rw [same] at level
      have := level.unique (.under own)
      omega
    have own' : ∀ y ∈ below p, (if parent y = some z then [y] else []) = [] := by
      intro y child
      rw [(family.mem.mp child).2, if_neg top]
    rw [childRows_succ, flatMap_single (family.once p) here, own' x here, List.nil_append]
    · rcases row with same | deeper
      · cases same
        cases k with
        | zero => omega
        | succ k => exact family.childRows_self (family.level level here)
      · exact ih (family.level level here) deeper (by omega)
    · intro y child ne
      rw [own' y child, List.nil_append]
      refine family.childRows_eq_nil ?_ fun e' row' => ne (family.apart level child here (.inr row') row)
      intro same
      cases same
      exact ne (family.apart level child here (.inl rfl) row)

/-- The rows at the top keep their order. -/
lemma Family.filter_top : childRows parent none (rowsBelow below (k + 1) 0 none) = below none :=
  family.childRows_self .top

/-- The rows of the children of a node keep their order. -/
lemma Family.filter_forest (enough : nodes.length < k) (mem : (z, e) ∈ rowsBelow below k 0 none) :
    childRows parent (some z) (rowsBelow below k 0 none) = below (some z) := by
  obtain ⟨known, level, _⟩ := family.row .top mem
  have := family.level_lt known level
  exact family.childRows_row .top mem (by omega)

end

end OpenAgentd.Lib
