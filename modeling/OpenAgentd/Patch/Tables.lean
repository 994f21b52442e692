import OpenAgentd.Patch.Locking
import Mathlib.Data.Finset.Card

/-!
# The tables of the path locks

`Tables` says what the two tables have to do with the calls: a checked out path has the lock object of the
table, two paths have different objects, and the reference count of a path is the number of calls that
have it checked out. `Tables.checkout` and `Tables.checkin` say that `checkoutLock` and `checkinLock` keep
it. The count needs the finite set of the calls that have something checked out (`users`).
-/

namespace OpenAgentd.Patch
open OpenAgentd.Lib Function

section
variable {P : Type*} [LinearOrder P]

/-- The number of calls in `A` that have `p` checked out. -/
def users (A : Finset ℕ) (slots : ℕ → List (P × ℕ)) (p : P) : ℕ :=
  (A.filter fun c => p ∈ (slots c).map Prod.fst).card

/-- The tables agree with what the calls have checked out. -/
structure Tables (pathLocks pathLockRefs : P → Option ℕ) (nextLock : ℕ)
    (slots : ℕ → List (P × ℕ)) : Prop where
  entry : ∀ {c p l}, (p, l) ∈ slots c → pathLocks p = some l
  inj : ∀ {p p' l}, pathLocks p = some l → pathLocks p' = some l → p = p'
  fresh : ∀ {p l}, pathLocks p = some l → l < nextLock
  sorted : ∀ c, (slots c).Pairwise (fun a b => a.1 < b.1)
  absent : ∀ {p}, pathLockRefs p = none → pathLocks p = none
  counted : ∃ A : Finset ℕ, (∀ c, c ∉ A → slots c = []) ∧
    ∀ p, pathLockRefs p = if users A slots p = 0 then none else some (users A slots p)

section
variable {A : Finset ℕ} {slots : ℕ → List (P × ℕ)} {c : ℕ} {v : List (P × ℕ)} {p : P}

/-- A call that has nothing checked out is no user. -/
private lemma users_insert (out : ∀ c, c ∉ A → slots c = []) :
    users (insert c A) slots p = users A slots p := by
  rw [users, users]
  congr 1
  ext d
  rw [Finset.mem_filter, Finset.mem_filter, Finset.mem_insert]
  constructor
  · rintro ⟨hd, hp⟩
    refine ⟨?_, hp⟩
    by_contra h
    simp [out d h] at hp
  · rintro ⟨hd, hp⟩
    exact ⟨.inr hd, hp⟩

/-- The other users of a path when one call changes. -/
private lemma users_erase :
    (((insert c A).filter fun d => p ∈ (update slots c v d).map Prod.fst).erase c) =
      (((insert c A).filter fun d => p ∈ (slots d).map Prod.fst).erase c) := by
  ext d
  by_cases hd : d = c
  · simp [hd]
  · simp [hd]

/-- The same paths are used. -/
private lemma users_same (out : ∀ c, c ∉ A → slots c = [])
    (h : p ∈ v.map Prod.fst ↔ p ∈ (slots c).map Prod.fst) :
    users (insert c A) (update slots c v) p = users A slots p := by
  rw [← users_insert (c := c) out, users, users]
  congr 1
  ext d
  by_cases hd : d = c
  · subst hd
    simp only [Finset.mem_filter, update_self, h]
  · simp [hd]

/-- One more user. -/
private lemma users_add (out : ∀ c, c ∉ A → slots c = []) (new : p ∉ (slots c).map Prod.fst)
    (h : p ∈ v.map Prod.fst) :
    users (insert c A) (update slots c v) p = users A slots p + 1 := by
  have mem : c ∈ (insert c A).filter fun d => p ∈ (update slots c v d).map Prod.fst := by
    simpa using h
  have not_mem : c ∉ (insert c A).filter fun d => p ∈ (slots d).map Prod.fst := by
    simpa using new
  rw [← users_insert (c := c) out, users, users, ← Finset.card_erase_add_one mem, users_erase,
    Finset.erase_eq_of_notMem not_mem]

/-- One user less. -/
private lemma users_sub (out : ∀ c, c ∉ A → slots c = []) (h : p ∈ (slots c).map Prod.fst)
    (gone : p ∉ v.map Prod.fst) :
    users (insert c A) (update slots c v) p + 1 = users A slots p := by
  have mem : c ∈ (insert c A).filter fun d => p ∈ (slots d).map Prod.fst := by
    simpa using h
  have not_mem : c ∉ (insert c A).filter fun d => p ∈ (update slots c v d).map Prod.fst := by
    simpa using gone
  rw [← users_insert (c := c) out, users, users, ← Finset.card_erase_add_one mem, ← users_erase (v := v),
    Finset.erase_eq_of_notMem not_mem]

end

namespace Tables
variable {pathLocks refs : P → Option ℕ} {nextLock : ℕ} {slots : ℕ → List (P × ℕ)} {c l : ℕ} {p : P}
  {rest : List (P × ℕ)}

/-- No path is checked out. -/
lemma start : Tables (fun _ : P => none) (fun _ => none) 0 (fun _ => []) where
  entry := by simp
  inj := by simp
  fresh := by simp
  sorted := by simp
  absent := by simp
  counted := ⟨∅, by simp, by simp [users]⟩

/-- The paths of a call are different. -/
lemma nodup_paths (T : Tables pathLocks refs nextLock slots) (c : ℕ) :
    ((slots c).map Prod.fst).Nodup :=
  List.pairwise_map.mpr ((T.sorted c).imp ne_of_lt)

/-- The locks of a call are different. -/
lemma nodup_locks (T : Tables pathLocks refs nextLock slots) (c : ℕ) :
    ((slots c).map Prod.snd).Nodup := by
  apply List.Nodup.map_on _ ((T.nodup_paths c).of_map _)
  rintro ⟨p, l⟩ h ⟨p', l'⟩ h' rfl
  have e : p = p' := T.inj (T.entry h) (T.entry h')
  rw [e]

/-- A path has no reference exactly when no call has it checked out. -/
lemma refs_eq_none (T : Tables pathLocks refs nextLock slots) :
    refs p = none ↔ ∀ c, p ∉ (slots c).map Prod.fst := by
  obtain ⟨A, out, count⟩ := T.counted
  rw [count p]
  constructor
  · intro h c hp
    by_cases hc : c ∈ A
    · have pos : users A slots p ≠ 0 :=
        Finset.card_ne_zero_of_mem (Finset.mem_filter.mpr ⟨hc, hp⟩)
      simp [pos] at h
    · simp [out c hc] at hp
  · intro h
    have zero : users A slots p = 0 := by
      rw [users, Finset.card_eq_zero, Finset.filter_eq_empty_iff]
      exact fun c _ => h c
    simp [zero]

/-- The lock of another path is not the one `p` gets. -/
private lemma ne_getD (T : Tables pathLocks refs nextLock slots) {q : P} (hq : q ≠ p)
    (h : pathLocks q = some l) : l ≠ (pathLocks p).getD nextLock := by
  intro e
  cases hp : pathLocks p with
  | none =>
    have := T.fresh h
    simp only [hp, Option.getD_none] at e
    omega
  | some m =>
    simp only [hp, Option.getD_some] at e
    exact hq (T.inj h (e ▸ hp))

/-- The entries after a checkout. -/
private lemma entry_checkout (T : Tables pathLocks refs nextLock slots) {d : ℕ} {q : P}
    (h : (q, l) ∈ update slots c (slots c ++ [(p, (pathLocks p).getD nextLock)]) d) :
    update pathLocks p (some ((pathLocks p).getD nextLock)) q = some l := by
  have keep : (q, l) ∈ slots d →
      update pathLocks p (some ((pathLocks p).getD nextLock)) q = some l := by
    intro old
    by_cases hq : q = p
    · subst hq
      rw [update_self, T.entry old, Option.getD_some]
    · rw [update_of_ne hq, T.entry old]
  by_cases hd : d = c
  · subst hd
    rw [update_self, List.mem_append, List.mem_singleton] at h
    rcases h with h | h
    · exact keep h
    · obtain ⟨rfl, rfl⟩ := Prod.mk.inj h
      rw [update_self]
  · rw [update_of_ne hd] at h
    exact keep h

/-- Locks tell their paths apart. -/
private lemma inj_checkout (T : Tables pathLocks refs nextLock slots) {q q' : P}
    (h : update pathLocks p (some ((pathLocks p).getD nextLock)) q = some l)
    (h' : update pathLocks p (some ((pathLocks p).getD nextLock)) q' = some l) : q = q' := by
  by_cases hq : q = p
  · subst hq
    by_cases hq' : q' = q
    · exact hq'.symm
    · rw [update_self] at h
      rw [update_of_ne hq'] at h'
      exact absurd (Option.some.inj h).symm (T.ne_getD hq' h')
  · rw [update_of_ne hq] at h
    by_cases hq' : q' = p
    · subst hq'
      rw [update_self] at h'
      exact absurd (Option.some.inj h').symm (T.ne_getD hq h)
    · rw [update_of_ne hq'] at h'
      exact T.inj h h'

/-- Locks are numbered below. -/
private lemma fresh_checkout (T : Tables pathLocks refs nextLock slots) {q : P}
    (h : update pathLocks p (some ((pathLocks p).getD nextLock)) q = some l) : l < nextLock + 1 := by
  by_cases hq : q = p
  · subst hq
    rw [update_self, Option.some.injEq] at h
    cases hp : pathLocks q with
    | none =>
      simp only [hp, Option.getD_none] at h
      omega
    | some m =>
      simp only [hp, Option.getD_some] at h
      exact Nat.lt_succ_of_lt (T.fresh (h ▸ hp))
  · rw [update_of_ne hq] at h
    exact Nat.lt_succ_of_lt (T.fresh h)

/-- `checkoutLock` on the tables. -/
lemma checkout (T : Tables pathLocks refs nextLock slots) (last : ∀ a ∈ slots c, a.1 < p) :
    Tables (update pathLocks p (some ((pathLocks p).getD nextLock)))
      (update refs p (some ((refs p).getD 0 + 1))) (nextLock + 1)
      (update slots c (slots c ++ [(p, (pathLocks p).getD nextLock)])) := by
  obtain ⟨A, out, count⟩ := T.counted
  have new : p ∉ (slots c).map Prod.fst := by
    intro h
    obtain ⟨a, ha, e⟩ := List.mem_map.mp h
    exact absurd (last a ha) (by simp [e])
  refine ⟨T.entry_checkout, T.inj_checkout, T.fresh_checkout, ?_, ?_, insert c A, ?_, ?_⟩
  · intro d
    by_cases hd : d = c
    · subst hd
      rw [update_self, List.pairwise_append]
      refine ⟨T.sorted d, by simp, ?_⟩
      intro a ha b hb
      rw [List.mem_singleton.mp hb]
      exact last a ha
    · rw [update_of_ne hd]
      exact T.sorted d
  · intro q h
    by_cases hq : q = p
    · subst hq
      simp at h
    · rw [update_of_ne hq] at h ⊢
      exact T.absent h
  · intro d hd
    rw [Finset.mem_insert, not_or] at hd
    rw [update_of_ne hd.1]
    exact out d hd.2
  · intro q
    by_cases hq : q = p
    · subst hq
      rw [update_self, users_add out new (by simp), count q]
      by_cases hz : users A slots q = 0
      · simp [hz]
      · simp [hz]
    · rw [update_of_ne hq, users_same out (by simp [hq]), count q]

/-- `checkinLock` on the tables. -/
lemma checkin (T : Tables pathLocks refs nextLock slots) (head : slots c = (p, l) :: rest) :
    (if (refs p).getD 0 - 1 = 0 then
      Tables (update pathLocks p none) (update refs p none) nextLock (update slots c rest)
    else
      Tables pathLocks (update refs p (some ((refs p).getD 0 - 1))) nextLock
        (update slots c rest)) := by
  obtain ⟨A, out, count⟩ := T.counted
  have hs := T.sorted c
  rw [head, List.pairwise_cons] at hs
  have gone : p ∉ rest.map Prod.fst := by
    intro h
    obtain ⟨a, ha, e⟩ := List.mem_map.mp h
    exact absurd (hs.1 a ha) (by simp [e])
  have sub : ∀ {d a}, a ∈ update slots c rest d → a ∈ slots d := by
    intro d a h
    by_cases hd : d = c
    · subst hd
      rw [update_self] at h
      rw [head]
      exact List.mem_cons_of_mem _ h
    · rwa [update_of_ne hd] at h
  have sorted : ∀ d, (update slots c rest d).Pairwise (fun a b => a.1 < b.1) := by
    intro d
    by_cases hd : d = c
    · subst hd
      rw [update_self]
      exact hs.2
    · rw [update_of_ne hd]
      exact T.sorted d
  have out' : ∀ d, d ∉ insert c A → update slots c rest d = [] := by
    intro d hd
    rw [Finset.mem_insert, not_or] at hd
    rw [update_of_ne hd.1]
    exact out d hd.2
  have less : users (insert c A) (update slots c rest) p = users A slots p - 1 := by
    have := users_sub out (by simp [head] : p ∈ (slots c).map Prod.fst) gone
    omega
  have refs' : ∀ q ≠ p, refs q = if users (insert c A) (update slots c rest) q = 0 then none
      else some (users (insert c A) (update slots c rest) q) := by
    intro q hq
    rw [users_same out (by simp [head, hq]), count q]
  have get : (refs p).getD 0 = users A slots p := by
    rw [count p]
    by_cases hz : users A slots p = 0
    · simp [hz]
    · simp [hz]
  rw [get]
  split
  · rename_i zero
    refine ⟨?_, ?_, ?_, sorted, ?_, insert c A, out', ?_⟩
    · intro d q m h
      have hq : q ≠ p := by
        rintro rfl
        have hd : d ∈ insert c A := by
          by_contra hd
          simp [out' d hd] at h
        have mem : d ∈ (insert c A).filter fun d => q ∈ (update slots c rest d).map Prod.fst :=
          Finset.mem_filter.mpr ⟨hd, List.mem_map_of_mem h⟩
        exact Finset.card_ne_zero_of_mem mem (less.trans zero)
      rw [update_of_ne hq]
      exact T.entry (sub h)
    · intro q q' m h h'
      by_cases hq : q = p
      · subst hq
        simp at h
      · by_cases hq' : q' = p
        · subst hq'
          simp at h'
        · rw [update_of_ne hq] at h
          rw [update_of_ne hq'] at h'
          exact T.inj h h'
    · intro q m h
      by_cases hq : q = p
      · subst hq
        simp at h
      · rw [update_of_ne hq] at h
        exact T.fresh h
    · intro q h
      by_cases hq : q = p
      · subst hq
        simp
      · rw [update_of_ne hq] at h ⊢
        exact T.absent h
    · intro q
      by_cases hq : q = p
      · subst hq
        simp [less, zero]
      · rw [update_of_ne hq]
        exact refs' q hq
  · rename_i pos
    refine ⟨fun h => T.entry (sub h), T.inj, T.fresh, sorted, ?_, insert c A, out', ?_⟩
    · intro q h
      by_cases hq : q = p
      · subst hq
        simp at h
      · rw [update_of_ne hq] at h
        exact T.absent h
    · intro q
      by_cases hq : q = p
      · subst hq
        rw [update_self, less, if_neg pos]
      · rw [update_of_ne hq]
        exact refs' q hq

end Tables
end

end OpenAgentd.Patch
