import Mathlib.Data.List.Induction
import Mathlib.Data.List.Nodup
import Mathlib.Data.List.Perm.Subperm
import Mathlib.Tactic.Lemma

/-!
# First occurrences

A list read item by item, where an item that was there before is left out: `again a b` says that `b` is `a` once
more. `firsts_congr` compares two ways of telling, `firsts_eq_self` says when nothing is left out, and with a key
(`sameKey`) the keys of what is left are those of the list, each once. `firstsUpTo` stops at the first `n` different
items.
-/

namespace OpenAgentd.Lib

section
variable {α κ : Type*} {again again' : α → α → Bool} {l : List α} {a : α}

/-- An item joins what was found, unless it is there again. -/
def joinNew (again : α → α → Bool) (found : List α) (a : α) : List α :=
  if found.any fun b => again b a then found else found ++ [a]

/-- The items at their first occurrences. -/
def firsts (again : α → α → Bool) (l : List α) : List α := l.foldl (joinNew again) []

/-- One more at the end. -/
lemma firsts_snoc (l : List α) (a : α) : firsts again (l ++ [a]) = joinNew again (firsts again l) a := by
  rw [firsts, List.foldl_append]
  rfl

/-- The firsts come in order. -/
lemma firsts_sublist (l : List α) : (firsts again l).Sublist l := by
  induction l using List.reverseRecOn with
  | nil => exact .slnil
  | append_singleton l a ih =>
    rw [firsts_snoc, joinNew]
    split
    · exact ih.trans (List.sublist_append_left l [a])
    · exact ih.append (List.Sublist.refl [a])

/-- Two ways of telling that agree on the items of a list. -/
lemma firsts_congr (same : ∀ a ∈ l, ∀ b ∈ l, again a b = again' a b) : firsts again l = firsts again' l := by
  induction l using List.reverseRecOn with
  | nil => rfl
  | append_singleton l b ih =>
    have before : ∀ a ∈ l, ∀ c ∈ l, again a c = again' a c := fun a ha c hc =>
      same a (List.mem_append_left _ ha) c (List.mem_append_left _ hc)
    have last : ∀ a ∈ firsts again' l, again a b = again' a b := fun a ha =>
      same a (List.mem_append_left _ ((firsts_sublist l).subset ha)) b List.mem_concat_self
    have found : ((firsts again' l).any fun a => again a b) = (firsts again' l).any fun a => again' a b := by
      rw [Bool.eq_iff_iff, List.any_eq_true, List.any_eq_true]
      exact exists_congr fun a => and_congr_right fun mem => by rw [last a mem]
    rw [firsts_snoc, firsts_snoc, ih before, joinNew, joinNew, found]

/-- Nothing is left out when no item is there again. -/
lemma firsts_eq_self : firsts again l = l ↔ l.Pairwise fun a b => again a b = false := by
  induction l using List.reverseRecOn with
  | nil => exact iff_of_true rfl .nil
  | append_singleton l b ih =>
    rw [firsts_snoc, joinNew, List.pairwise_append]
    split
    next found =>
      obtain ⟨a, mem, known⟩ := List.any_eq_true.mp found
      refine iff_of_false (fun e => ?_) fun apart => ?_
      · have short : (firsts again l).length ≤ l.length := (firsts_sublist l).length_le
        rw [e, List.length_append, List.length_singleton] at short
        omega
      · have new := apart.2.2 a ((firsts_sublist l).subset mem) b (List.mem_singleton_self b)
        rw [new] at known
        exact Bool.false_ne_true known
    next new =>
      rw [List.append_cancel_right_eq, ih]
      refine ⟨fun apart => ⟨apart, List.pairwise_singleton _ b, fun a mem c mem' => ?_⟩, fun apart => apart.1⟩
      rw [List.mem_singleton.mp mem']
      rw [ih.mpr apart] at new
      exact Bool.eq_false_iff.mpr fun known => new (List.any_eq_true.mpr ⟨a, mem, known⟩)

variable [DecidableEq κ] {key : α → κ}

/-- Items are the same when their keys are. -/
def sameKey (key : α → κ) (a b : α) : Bool := key a = key b

/-- A key found before. -/
lemma any_sameKey {found : List α} : (found.any fun b => sameKey key b a) = true ↔ key a ∈ found.map key := by
  simp [sameKey, List.any_eq_true]

/-- A known key is passed over. -/
lemma joinNew_of_mem {found : List α} (mem : key a ∈ found.map key) : joinNew (sameKey key) found a = found :=
  if_pos (any_sameKey.mpr mem)

/-- A new key is added. -/
lemma joinNew_of_not_mem {found : List α} (new : key a ∉ found.map key) :
    joinNew (sameKey key) found a = found ++ [a] :=
  if_neg fun known => new (any_sameKey.mp known)

/-- The key of every item stands. -/
lemma mem_firsts (mem : a ∈ l) : key a ∈ (firsts (sameKey key) l).map key := by
  induction l using List.reverseRecOn with
  | nil => cases mem
  | append_singleton l b ih =>
    have stays : (firsts (sameKey key) l).map key ⊆ (firsts (sameKey key) (l ++ [b])).map key := by
      rw [firsts_snoc, joinNew]
      split
      · exact List.Subset.refl _
      · exact List.map_subset key (List.subset_append_left _ [b])
    cases List.mem_append.mp mem with
    | inl before => exact stays (ih before)
    | inr last =>
      rw [List.mem_singleton.mp last, firsts_snoc]
      by_cases known : key b ∈ (firsts (sameKey key) l).map key
      · rw [joinNew_of_mem known]
        exact known
      · rw [joinNew_of_not_mem known]
        exact List.mem_map_of_mem List.mem_concat_self

/-- Different keys are what it takes for nothing to be left out. -/
lemma firsts_sameKey_eq_self : firsts (sameKey key) l = l ↔ (l.map key).Nodup := by
  rw [firsts_eq_self, List.Nodup, List.pairwise_map]
  simp [sameKey]

/-- Each key stands once. -/
lemma firsts_distinct (l : List α) : ((firsts (sameKey key) l).map key).Nodup := by
  induction l using List.reverseRecOn with
  | nil => exact .nil
  | append_singleton l a ih =>
    rw [firsts_snoc]
    by_cases known : key a ∈ (firsts (sameKey key) l).map key
    · rw [joinNew_of_mem known]
      exact ih
    · rw [joinNew_of_not_mem known, List.map_append]
      exact ih.append (List.nodup_singleton _) (by simpa using known)

end

/-! ## The first of them -/

section
variable {α : Type*} [DecidableEq α] {n : Nat} {l l' found : List α} {a : α}

/-- An item joins what was found, unless it is there or `n` items are. -/
def joinUpTo (n : Nat) (found : List α) (a : α) : List α :=
  if n ≤ found.length ∨ a ∈ found then found else found ++ [a]

/-- The first `n` different items. -/
def firstsUpTo (n : Nat) (l : List α) : List α := l.foldl (joinUpTo n) []

/-- One more at the end. -/
lemma firstsUpTo_snoc : firstsUpTo n (l ++ [a]) = joinUpTo n (firstsUpTo n l) a := by
  rw [firstsUpTo, List.foldl_append]
  rfl

/-- What was found stays in front. -/
lemma joinUpTo_prefix : found <+: l.foldl (joinUpTo n) found := by
  induction l generalizing found with
  | nil => exact List.prefix_refl found
  | cons a l ih =>
    rw [List.foldl_cons]
    apply List.IsPrefix.trans _ ih
    rw [joinUpTo]
    split
    · exact List.prefix_refl found
    · exact List.prefix_append found [a]

/-- Nothing joins a full list. -/
lemma joinUpTo_of_full (full : n ≤ found.length) : l.foldl (joinUpTo n) found = found := by
  induction l with
  | nil => rfl
  | cons a l ih =>
    have stays : joinUpTo n found a = found := if_pos (.inl full)
    rw [List.foldl_cons, stays, ih]

/-- An item is found, unless there are enough. -/
lemma mem_joinUpTo (mem : a ∈ l) : a ∈ l.foldl (joinUpTo n) found ∨ n ≤ (l.foldl (joinUpTo n) found).length := by
  induction l generalizing found with
  | nil => cases mem
  | cons b l ih =>
    rw [List.foldl_cons]
    cases List.mem_cons.mp mem with
    | inr later => exact ih later
    | inl e =>
      have now : a ∈ joinUpTo n found b ∨ n ≤ (joinUpTo n found b).length := by
        rw [e, joinUpTo]
        split
        next either => exact either.symm
        next => exact .inl List.mem_concat_self
      apply now.imp
      · exact fun here => joinUpTo_prefix.subset here
      · exact fun full => Nat.le_trans full joinUpTo_prefix.length_le

omit [DecidableEq α] in
/-- One more item stands at its first place only. -/
lemma eraseDups_snoc [BEq α] [LawfulBEq α] :
    (l ++ [a]).eraseDups = if l.contains a then l.eraseDups else l.eraseDups ++ [a] := by
  rw [List.eraseDups_append]
  split
  next known =>
    have gone : [a].removeAll l = [] := by simpa [List.removeAll] using known
    rw [gone, List.eraseDups_nil, List.append_nil]
  next new =>
    rw [List.contains_iff_mem] at new
    have fresh : ([a].removeAll l).eraseDups = [a] := by simp [List.removeAll, new, List.eraseDups_cons]
    rw [fresh]

/-- They are the items without the repetitions, as many as are asked for. -/
lemma take_eraseDups [BEq α] [LawfulBEq α] : l.eraseDups.take n = firstsUpTo n l := by
  induction l using List.reverseRecOn with
  | nil => exact List.take_nil
  | append_singleton l a ih =>
    rw [firstsUpTo_snoc, ← ih, eraseDups_snoc, joinUpTo, List.length_take]
    by_cases known : a ∈ l
    · rw [if_pos (List.contains_iff_mem.mpr known)]
      split
      · rfl
      next new =>
        rw [not_or] at new
        have all : l.eraseDups.length ≤ n := by omega
        rw [List.take_of_length_le all] at new
        exact absurd (List.mem_eraseDups.mpr known) new.2
    · rw [if_neg (fun h => known (List.contains_iff_mem.mp h))]
      by_cases full : n ≤ l.eraseDups.length
      · rw [if_pos (.inl (by omega)), List.take_append_of_le_length full]
      · have all : l.eraseDups.length ≤ n := by omega
        have out : a ∉ l.eraseDups := fun mem => known (List.mem_eraseDups.mp mem)
        have more : (l.eraseDups ++ [a]).length ≤ n := by
          rw [List.length_append, List.length_singleton]
          omega
        rw [List.take_of_length_le more, List.take_of_length_le all, if_neg (not_or.mpr ⟨by omega, out⟩)]

omit [DecidableEq α] in
/-- Without doubles each comes once. -/
lemma nodup_eraseDups [BEq α] [LawfulBEq α] : l.eraseDups.Nodup := by
  induction l using List.reverseRecOn with
  | nil => exact .nil
  | append_singleton l a ih =>
    rw [eraseDups_snoc]
    split
    next => exact ih
    next known =>
      apply ih.append (List.nodup_singleton a)
      intro b mem mem'
      rw [List.mem_singleton.mp mem'] at mem
      exact known (List.contains_iff_mem.mpr (List.mem_eraseDups.mp mem))

/-- Only the first different items of a list join. -/
lemma joinUpTo_firstsUpTo : (firstsUpTo n l).foldl (joinUpTo n) found = l.foldl (joinUpTo n) found := by
  induction l using List.reverseRecOn with
  | nil => rfl
  | append_singleton l a ih =>
    rw [firstsUpTo_snoc, List.foldl_append, ← ih, joinUpTo]
    split
    next either =>
      have stays : n ≤ ((firstsUpTo n l).foldl (joinUpTo n) found).length ∨ a ∈ (firstsUpTo n l).foldl (joinUpTo n) found := by
        cases either with
        | inr mem => exact (mem_joinUpTo mem).symm
        | inl full =>
          left
          by_contra short
          have all : firstsUpTo n l ⊆ (firstsUpTo n l).foldl (joinUpTo n) found := by
            intro b mem
            exact (mem_joinUpTo mem).resolve_right short
          have nodup : (firstsUpTo n l).Nodup := by
            rw [← take_eraseDups]
            exact nodup_eraseDups.sublist (List.take_sublist n _)
          exact short (Nat.le_trans full (nodup.subperm all).length_le)
      exact (if_pos stays).symm
    next => rw [List.foldl_append]

/-- Lists with the same first items are the same for those that join. -/
lemma joinUpTo_congr (same : firstsUpTo n l = firstsUpTo n l') : l.foldl (joinUpTo n) found = l'.foldl (joinUpTo n) found := by
  rw [← joinUpTo_firstsUpTo, same, joinUpTo_firstsUpTo]

/-- The firsts of two parts. -/
lemma firstsUpTo_append (same : firstsUpTo n l = firstsUpTo n l') {m m' : List α} (same' : firstsUpTo n m = firstsUpTo n m') :
    firstsUpTo n (l ++ m) = firstsUpTo n (l' ++ m') := by
  rw [firstsUpTo, firstsUpTo, List.foldl_append, List.foldl_append, joinUpTo_congr same']
  exact congrArg (fun found => m'.foldl (joinUpTo n) found) same

/-- The firsts of the firsts. -/
lemma firstsUpTo_self : firstsUpTo n (firstsUpTo n l) = firstsUpTo n l := joinUpTo_firstsUpTo

end

end OpenAgentd.Lib
