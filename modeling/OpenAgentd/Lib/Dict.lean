import Mathlib.Data.List.Nodup
import Mathlib.Tactic.Lemma

/-!
# Dicts

A Python dict keeps its entries in the order in which their keys came in: a new key goes to the end, a known
one keeps its place. `Dict` is that list of entries with the invariant that the keys differ. Lookup is
described by `get?_set` and `get?_erase`, the order of the keys by `keys_set` and `keys_erase`.
-/

namespace OpenAgentd.Lib

/-- A dict, with its entries in insertion order. -/
structure Dict (κ α : Type*) where
  entries : List (κ × α)
  distinct : (entries.map Prod.fst).Nodup

namespace Dict
variable {κ α : Type*} [DecidableEq κ] {d : Dict κ α} {j k : κ} {v : α}

/-- The dict without entries. -/
def empty : Dict κ α := ⟨[], List.nodup_nil⟩

/-- The keys in insertion order. -/
def keys (d : Dict κ α) : List κ := d.entries.map Prod.fst

/-- The value under a key. -/
def get? (d : Dict κ α) (k : κ) : Option α := (d.entries.find? fun e => e.1 = k).map Prod.snd

/-- The entry of `k` replaced by `v`. -/
def replace (k : κ) (v : α) (e : κ × α) : κ × α := if e.1 = k then (k, v) else e

/-- Replacing keeps the key. -/
lemma replace_fst {e : κ × α} : (replace k v e).1 = e.1 := by
  unfold replace
  split
  · rename_i h
    exact h.symm
  · rfl

/-- Assignment to a key. -/
def set (d : Dict κ α) (k : κ) (v : α) : Dict κ α :=
  if h : k ∈ d.keys then
    { entries := d.entries.map (replace k v)
      distinct := by
        rw [List.map_map, show Prod.fst ∘ replace k v = Prod.fst from funext fun _ => replace_fst]
        exact d.distinct }
  else
    { entries := d.entries ++ [(k, v)]
      distinct := by
        rw [List.map_append, List.nodup_append]
        refine ⟨d.distinct, by simp, ?_⟩
        intro a ha b hb
        rw [List.map_singleton, List.mem_singleton] at hb
        rw [hb]
        rintro rfl
        exact h ha }

/-- `pop` with a default. -/
def erase (d : Dict κ α) (k : κ) : Dict κ α where
  entries := d.entries.filter fun e => e.1 ≠ k
  distinct := d.distinct.sublist (List.filter_sublist.map _)

/-- A lookup finds the entries. -/
lemma get?_eq_some : d.get? k = some v ↔ (k, v) ∈ d.entries := by
  unfold get?
  constructor
  · intro h
    obtain ⟨e, he, rfl⟩ := Option.map_eq_some_iff.mp h
    have key : e.1 = k := by simpa using List.find?_some he
    rw [← key]
    exact List.mem_of_find?_eq_some he
  · intro h
    cases e : d.entries.find? (fun e => e.1 = k) with
    | none =>
      have := List.find?_eq_none.mp e _ h
      simp at this
    | some e' =>
      have key : e'.1 = k := by simpa using List.find?_some e
      rw [List.inj_on_of_nodup_map d.distinct (List.mem_of_find?_eq_some e) h key]
      rfl

/-- No value, no key. -/
lemma get?_eq_none : d.get? k = none ↔ k ∉ d.keys := by
  unfold get? keys
  rw [Option.map_eq_none_iff, List.find?_eq_none]
  simp only [decide_eq_true_eq, List.mem_map, not_exists, not_and]

/-- The keys are what a lookup finds. -/
lemma mem_keys : k ∈ d.keys ↔ ∃ v, d.get? k = some v := by
  rw [← Option.isSome_iff_exists, Option.isSome_iff_ne_none, Ne, get?_eq_none, not_not]

/-- The empty dictionary. -/
@[simp] lemma get?_empty : (empty : Dict κ α).get? k = none := rfl

/-- Lookup after an assignment. -/
lemma get?_set : (d.set k v).get? j = if j = k then some v else d.get? j := by
  have key : ∀ {e e' : κ × α}, replace k v e = e' → e.1 = e'.1 := fun h => h ▸ replace_fst.symm
  ext w
  rw [get?_eq_some]
  unfold set
  split
  · rename_i h
    rw [List.mem_map]
    constructor
    · rintro ⟨e, he, rep⟩
      unfold replace at rep
      split at rep
      · obtain ⟨rfl, rfl⟩ := Prod.mk.inj rep
        simp
      · rename_i ne
        rw [rep] at ne he
        rw [if_neg ne]
        exact get?_eq_some.mpr he
    · intro hw
      split at hw
      · rename_i e
        obtain ⟨v', hv'⟩ := mem_keys.mp h
        refine ⟨(k, v'), get?_eq_some.mp hv', ?_⟩
        rw [replace, if_pos rfl, e, Option.some.inj hw]
      · rename_i ne
        exact ⟨(j, w), get?_eq_some.mp hw, by rw [replace, if_neg ne]⟩
  · rename_i h
    rw [List.mem_append, List.mem_singleton, Prod.mk.injEq, ← get?_eq_some]
    split
    · rename_i e
      rw [e, get?_eq_none.mpr h]
      simp [eq_comm]
    · rename_i ne
      simp [ne]

/-- A new key goes to the end. -/
lemma keys_set : (d.set k v).keys = if k ∈ d.keys then d.keys else d.keys ++ [k] := by
  unfold set
  split
  · show (d.entries.map (replace k v)).map Prod.fst = _
    rw [List.map_map, show Prod.fst ∘ replace k v = Prod.fst from funext fun _ => replace_fst]
    rfl
  · show (d.entries ++ [(k, v)]).map Prod.fst = _
    rw [List.map_append]
    rfl

/-- A known key keeps its place. -/
lemma entries_set_of_mem (h : k ∈ d.keys) : (d.set k v).entries = d.entries.map (replace k v) := by
  unfold set
  rw [dif_pos h]

/-- A new key comes last. -/
lemma entries_set_of_not_mem (h : k ∉ d.keys) : (d.set k v).entries = d.entries ++ [(k, v)] := by
  unfold set
  rw [dif_neg h]

/-- Lookup after a removal. -/
lemma get?_erase : (d.erase k).get? j = if j = k then none else d.get? j := by
  ext w
  rw [get?_eq_some, erase, List.mem_filter]
  split
  · rename_i e
    simp [e]
  · rename_i ne
    simp [ne, get?_eq_some]

/-- Removing a key that is not there changes nothing. -/
lemma erase_of_not_mem (h : k ∉ d.keys) : d.erase k = d := by
  have e : d.entries.filter (fun e => e.1 ≠ k) = d.entries := by
    rw [List.filter_eq_self]
    intro e he
    have ne : e.1 ≠ k := by
      rintro rfl
      exact h (List.mem_map_of_mem he)
    simpa using ne
  unfold erase
  congr

/-- The entry an iterator comes to. -/
lemma get?_of_getElem? {i : Nat} {e : κ × α} (h : d.entries[i]? = some e) : d.get? e.1 = some e.2 :=
  get?_eq_some.mpr (List.mem_of_getElem? h)

/-- Items gathered under their keys: what stands under a key comes from the items with that key alone. -/
lemma get?_gather {ι : Type*} {key : ι → κ} {u : Option α → ι → α} {xs : List ι} {d : Dict κ α} :
    (xs.foldl (fun d x => d.set (key x) (u (d.get? (key x)) x)) d).get? k =
      (xs.filter fun x => key x = k).foldl (fun o x => some (u o x)) (d.get? k) := by
  induction xs generalizing d with
  | nil => rfl
  | cons x xs ih =>
    rw [List.foldl_cons, ih, get?_set]
    by_cases e : key x = k
    · rw [List.filter_cons_of_pos (by simpa using e), List.foldl_cons, if_pos e.symm, e]
    · rw [List.filter_cons_of_neg (by simpa using e), if_neg (Ne.symm e)]

/-- The items of a list under their keys: `setdefault(key, []).append(item)`. -/
def groups {ι : Type*} (key : ι → κ) (xs : List ι) : Dict κ (List ι) :=
  xs.foldl (fun d x => d.set (key x) ((d.get? (key x)).getD [] ++ [x])) empty

/-- Under a key stand its items, in order. -/
lemma getD_get?_groups {ι : Type*} {key : ι → κ} {xs : List ι} :
    ((groups key xs).get? k).getD [] = xs.filter fun x => key x = k := by
  have gathered : ∀ (l : List ι) (o : Option (List ι)),
      (l.foldl (fun o x => some (o.getD [] ++ [x])) o).getD [] = o.getD [] ++ l := by
    intro l
    induction l with
    | nil => simp
    | cons x l ih =>
      intro o
      rw [List.foldl_cons, ih, Option.getD_some, List.append_assoc, List.singleton_append]
  rw [groups, get?_gather (u := fun o x => o.getD [] ++ [x]), gathered]
  rfl

/-- A group has the items of its key. -/
lemma of_mem_groups {ι : Type*} {key : ι → κ} {xs : List ι} {e : κ × List ι} (mem : e ∈ (groups key xs).entries) :
    e.2 = xs.filter fun x => key x = e.1 := by
  rw [← getD_get?_groups, get?_eq_some.mpr mem]
  rfl

/-- The items of a key among all that stand in the dict. -/
lemma filter_flatMap_groups {ι : Type*} {key : ι → κ} {xs : List ι} :
    ((groups key xs).entries.flatMap Prod.snd).filter (fun x => key x = k) = xs.filter fun x => key x = k := by
  have own : ∀ e ∈ (groups key xs).entries, e.2.filter (fun x => key x = k) = if e.1 = k then e.2 else [] := by
    intro e mem
    have items := of_mem_groups mem
    split
    next same =>
      rw [List.filter_eq_self]
      intro x hx
      rw [items] at hx
      rw [← same]
      exact (List.mem_filter.mp hx).2
    next other =>
      rw [List.filter_eq_nil_iff]
      intro x hx
      rw [items] at hx
      have key : key x = e.1 := by simpa using (List.mem_filter.mp hx).2
      simpa [key] using other
  have entry : ∀ l : List (κ × List ι), (l.map Prod.fst).Nodup →
      (l.flatMap fun e => if e.1 = k then e.2 else []) = ((l.find? fun e => e.1 = k).map Prod.snd).getD [] := by
    intro l nodup
    induction l with
    | nil => rfl
    | cons e l ih =>
      obtain ⟨new, nodup⟩ := List.nodup_cons.mp nodup
      rw [List.flatMap_cons, ih nodup, List.find?_cons]
      split
      next same =>
        have rest : (l.find? fun e => e.1 = k) = none := by
          rw [List.find?_eq_none]
          intro e' mem
          have ne : e'.1 ≠ k := by
            rintro rfl
            exact new (same ▸ List.mem_map_of_mem mem)
          simpa using ne
        simp [same, rest]
      next other => simp [other]
  rw [List.filter_flatMap, List.flatMap_congr own, entry _ (groups key xs).distinct]
  exact getD_get?_groups

end Dict

end OpenAgentd.Lib
