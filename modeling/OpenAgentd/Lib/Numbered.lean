import OpenAgentd.Lib.Dict
import OpenAgentd.Lib.Ordered

/-!
# Numbered keys

Keys get numbers in the order in which they come in (`Numbers`), and a second dict holds a value under every number
(`Filled`). A new key gets the next number and its value goes to the end; a known key keeps its number, and a new
value takes the place of the old one.
-/

namespace OpenAgentd.Lib

section
variable {κ α : Type*} {d : Dict κ Int} {b : Dict Int α} {keys : List κ} {values : List α} {k : κ} {i : Nat}

/-- Every key with its place. -/
def Numbers (d : Dict κ Int) (keys : List κ) : Prop := d.entries = keys.mapIdx fun i k => (k, (i : Int))

/-- Every place with its value. -/
def Filled (b : Dict Int α) (values : List α) : Prop := b.entries = values.mapIdx fun i v => ((i : Int), v)

/-- The keys in order. -/
lemma Numbers.keys_eq (N : Numbers d keys) : d.keys = keys := by
  rw [Dict.keys, N]
  exact List.ext_getElem (by simp) fun i _ _ => by simp

variable [DecidableEq κ]

/-- A new key has no number. -/
lemma Numbers.unknown (N : Numbers d keys) (new : k ∉ keys) : d.get? k = none := by
  rw [Dict.get?_eq_none, N.keys_eq]
  exact new

/-- A key has its place as number. -/
lemma Numbers.known (N : Numbers d keys) (h : keys[i]? = some k) : d.get? k = some (i : Int) := by
  rw [Dict.get?_eq_some, N]
  refine List.mem_of_getElem? (i := i) ?_
  rw [List.getElem?_mapIdx, h]
  rfl

/-- A new key gets the next number. -/
lemma Numbers.snoc (N : Numbers d keys) (new : k ∉ keys) : Numbers (d.set k keys.length) (keys ++ [k]) := by
  have unknown : k ∉ d.keys := by
    rw [N.keys_eq]
    exact new
  rw [Numbers, Dict.entries_set_of_not_mem unknown, N, List.mapIdx_append]
  simp

/-- The numbers in order. -/
lemma Filled.keys_eq (F : Filled b values) : b.keys = (List.range values.length).map Int.ofNat := by
  rw [Dict.keys, F]
  exact List.ext_getElem (by simp) fun i _ _ => by simp

/-- A number has its value. -/
lemma Filled.get?_eq (F : Filled b values) : b.get? (i : Int) = values[i]? := by
  cases e : values[i]? with
  | some v =>
    rw [Dict.get?_eq_some, F]
    refine List.mem_of_getElem? (i := i) ?_
    rw [List.getElem?_mapIdx, e]
    rfl
  | none =>
    rw [Dict.get?_eq_none, F.keys_eq]
    intro mem
    obtain ⟨j, lt, same⟩ := List.mem_map.mp mem
    have bound := List.mem_range.mp lt
    have far := List.getElem?_eq_none_iff.mp e
    have : j = i := Int.ofNat.inj same
    omega

/-- The value of a new number goes to the end. -/
lemma Filled.snoc (F : Filled b values) (v : α) : Filled (b.set values.length v) (values ++ [v]) := by
  have free : (values.length : Int) ∉ b.keys := by
    rw [← Dict.get?_eq_none, F.get?_eq]
    exact List.getElem?_eq_none le_rfl
  rw [Filled, Dict.entries_set_of_not_mem free, F, List.mapIdx_append]
  simp

/-- The value of a known number takes its place. -/
lemma Filled.set (F : Filled b values) (lt : i < values.length) (v : α) : Filled (b.set i v) (values.set i v) := by
  have known : (i : Int) ∈ b.keys := by
    rw [Dict.mem_keys, F.get?_eq]
    exact ⟨values[i], List.getElem?_eq_getElem lt⟩
  rw [Filled, Dict.entries_set_of_mem known, F]
  refine List.ext_getElem (by simp) fun j hj _ => ?_
  rw [List.getElem_map, List.getElem_mapIdx, List.getElem_mapIdx, Dict.replace, List.getElem_set]
  split
  next same =>
    have e : i = j := (Int.ofNat.inj same).symm
    rw [if_pos e, e]
  next other =>
    have ne : i ≠ j := fun e => other (congrArg Int.ofNat e).symm
    rw [if_neg ne]

/-- The values in the order of their numbers. -/
lemma Filled.sorted (F : Filled b values) : (sortOn Prod.fst b.entries).map Prod.snd = values := by
  have asc : b.entries.Pairwise fun a c => a.1 < c.1 := by
    rw [F, List.pairwise_iff_getElem]
    intro j k hj hk lt
    simpa using lt
  rw [sortOn_eq_self asc, F]
  exact List.ext_getElem (by simp) fun i _ _ => by simp

end

end OpenAgentd.Lib
