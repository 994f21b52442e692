import OpenAgentd.Lib.FairLock
import Mathlib.Data.Finset.Max
import Mathlib.Logic.Function.Basic

/-!
# Tasks that hold and await fair locks

Tasks and locks are numbered. `held c` are the locks the task `c` holds, oldest first, and `awaits c`
the lock it is queued for. `Holding` ties them to the lock objects: a lock is locked iff some task holds
it, no two tasks hold one lock, and the queue of a lock is made of the tasks that await it.

One lemma for every operation says that it is kept. `Holding.not_deadlocked` is the theorem about
ordered acquisition: when every task awaits a lock greater than those it holds, no set of tasks is
deadlocked.
-/

namespace OpenAgentd.Lib
open Function

/-- Locks, their holders and their waiters agree. -/
structure Holding (locks : ℕ → Lock) (held : ℕ → List ℕ) (awaits : ℕ → Option ℕ) : Prop where
  ok : ∀ l, (locks l).Ok
  holder : ∀ l, (locks l).locked = true ↔ ∃ c, l ∈ held c
  unique : ∀ {l c d}, l ∈ held c → l ∈ held d → c = d
  waiter : ∀ l c, c ∈ (locks l).waiters.map Prod.fst ↔ awaits c = some l

/-- The task `b` has to act before a waiter of `l` can go on: it holds `l`, or `l` is free and `b` is the
next to have it. -/
def Unblocks (locks : ℕ → Lock) (held : ℕ → List ℕ) (l b : ℕ) : Prop :=
  (locks l).locked = true ∧ l ∈ held b ∨
    (locks l).locked = false ∧ (locks l).waiters.head?.map Prod.fst = some b

/-- Every task of `D` sleeps in a queue, and only tasks of `D` could wake it. -/
def Deadlocked (locks : ℕ → Lock) (held : ℕ → List ℕ) (awaits : ℕ → Option ℕ) (D : Finset ℕ) : Prop :=
  D.Nonempty ∧ ∀ c ∈ D, ∃ l, awaits c = some l ∧ (c, Fut.pending) ∈ (locks l).waiters ∧
    ∀ b, Unblocks locks held l b → b ∈ D

namespace Holding
variable {locks : ℕ → Lock} {held : ℕ → List ℕ} {awaits : ℕ → Option ℕ} {c l : ℕ} {hs : List ℕ}

/-- Nobody holds or awaits anything. -/
lemma start : Holding (fun _ => {}) (fun _ => []) (fun _ => none) where
  ok := fun _ => .new
  holder := by simp
  unique := by simp
  waiter := by simp

/-- A lock replaced by one in order. -/
private lemma ok_update {k : Lock} (H : Holding locks held awaits) (h : k.Ok) (m : ℕ) :
    (update locks l k m).Ok := by
  by_cases hm : m = l
  · subst hm
    rwa [update_self]
  · rw [update_of_ne hm]
    exact H.ok m

/-- A lock replaced by one that is locked or not as before. -/
private lemma holder_keep {k : Lock} (H : Holding locks held awaits)
    (h : k.locked = (locks l).locked) (m : ℕ) :
    (update locks l k m).locked = true ↔ ∃ d, m ∈ held d := by
  by_cases hm : m = l
  · subst hm
    rw [update_self, h]
    exact H.holder m
  · rw [update_of_ne hm]
    exact H.holder m

/-- A lock replaced by one with the waiters as before. -/
private lemma waiter_keep {k : Lock} (H : Holding locks held awaits)
    (h : k.waiters.map Prod.fst = (locks l).waiters.map Prod.fst) (m d : ℕ) :
    d ∈ (update locks l k m).waiters.map Prod.fst ↔ awaits d = some m := by
  by_cases hm : m = l
  · subst hm
    rw [update_self, h]
    exact H.waiter m d
  · rw [update_of_ne hm]
    exact H.waiter m d

/-- The waiters of a lock after `c` has started or stopped to await it. -/
private lemma waiter_update {k : Lock} {v : Option ℕ} (H : Holding locks held awaits)
    (at_l : ∀ d, d ∈ k.waiters.map Prod.fst ↔ update awaits c v d = some l)
    (other : ∀ m, m ≠ l → (awaits c = some m ↔ v = some m)) (m d : ℕ) :
    d ∈ (update locks l k m).waiters.map Prod.fst ↔ update awaits c v d = some m := by
  by_cases hm : m = l
  · subst hm
    rw [update_self]
    exact at_l d
  · rw [update_of_ne hm, H.waiter m d]
    by_cases hd : d = c
    · subst hd
      rw [update_self]
      exact other m hm
    · rw [update_of_ne hd]

/-- The holders of a lock after `c` has taken it. -/
private lemma holder_take {k : Lock} (H : Holding locks held awaits) (locked : k.locked = true)
    (m : ℕ) : (update locks l k m).locked = true ↔ ∃ d, m ∈ update held c (held c ++ [l]) d := by
  by_cases hm : m = l
  · subst hm
    rw [update_self]
    refine ⟨fun _ => ⟨c, by simp⟩, fun _ => locked⟩
  · rw [update_of_ne hm, H.holder m]
    refine exists_congr fun d => ?_
    by_cases hd : d = c
    · subst hd
      simp [hm]
    · rw [update_of_ne hd]

/-- A lock that was free has no second holder. -/
private lemma unique_take (H : Holding locks held awaits) (free : (locks l).locked = false) {m d e : ℕ}
    (hd : m ∈ update held c (held c ++ [l]) d) (he : m ∈ update held c (held c ++ [l]) e) : d = e := by
  have no : ∀ d, l ∉ held d := by
    intro d h
    have := (H.holder l).mpr ⟨d, h⟩
    rw [free] at this
    cases this
  have split : ∀ {d}, m ∈ update held c (held c ++ [l]) d → m ∈ held d ∨ (m = l ∧ d = c) := by
    intro d hd
    by_cases h : d = c
    · subst h
      simpa using hd
    · rw [update_of_ne h] at hd
      exact .inl hd
  rcases split hd with hd | ⟨rfl, rfl⟩
  · rcases split he with he | ⟨hm, -⟩
    · exact H.unique hd he
    · exact absurd (hm ▸ hd) (no d)
  · rcases split he with he | ⟨-, rfl⟩
    · exact absurd he (no e)
    · rfl

/-- Taking a free lock at once. -/
lemma take (H : Holding locks held awaits) (free : (locks l).free = true) :
    Holding (update locks l (locks l).take) (update held c (held c ++ [l])) awaits where
  ok := H.ok_update ((H.ok l).take free)
  holder := H.holder_take rfl
  unique := by
    refine fun hd he => H.unique_take ?_ hd he
    simp only [Lock.free, Bool.and_eq_true, Bool.not_eq_true'] at free
    exact free.1
  waiter := H.waiter_keep rfl

/-- Queueing for a lock that is not free. -/
lemma enqueue (H : Holding locks held awaits) (busy : (locks l).free = false) (idle : awaits c = none) :
    Holding (update locks l ((locks l).enqueue c)) held (update awaits c (some l)) where
  ok := H.ok_update ((H.ok l).enqueue busy (by simp [H.waiter, idle]))
  holder := H.holder_keep rfl
  unique := H.unique
  waiter := by
    refine H.waiter_update ?_ ?_
    · intro d
      rw [Lock.enqueue_owners, List.mem_append, H.waiter, List.mem_singleton]
      by_cases hd : d = c
      · subst hd
        simp
      · rw [update_of_ne hd]
        simp [hd]
    · intro m hm
      simp [idle, hm.symm]

/-- A woken task takes the lock. -/
lemma resume (H : Holding locks held awaits) (wait : awaits c = some l)
    (woken : (c, Fut.woken) ∈ (locks l).waiters) :
    Holding (update locks l ((locks l).resume c)) (update held c (held c ++ [l]))
      (update awaits c none) where
  ok := H.ok_update ((H.ok l).resume woken)
  holder := H.holder_take rfl
  unique := fun hd he => H.unique_take ((H.ok l).of_woken woken).1 hd he
  waiter := by
    refine H.waiter_update ?_ ?_
    · intro d
      rw [Lock.mem_resume_owners, H.waiter]
      by_cases hd : d = c
      · simp [hd]
      · simp [hd]
    · intro m hm
      simp [wait, hm.symm]

/-- A cancelled task leaves the queue. -/
lemma abandon (H : Holding locks held awaits) (wait : awaits c = some l) :
    Holding (update locks l ((locks l).abandon c)) held (update awaits c none) where
  ok := H.ok_update ((H.ok l).abandon)
  holder := H.holder_keep Lock.abandon_locked
  unique := H.unique
  waiter := by
    refine H.waiter_update ?_ ?_
    · intro d
      rw [Lock.mem_abandon_owners, H.waiter]
      by_cases hd : d = c
      · simp [hd]
      · simp [hd]
    · intro m hm
      simp [wait, hm.symm]

/-- Releasing the lock taken last. -/
lemma release (H : Holding locks held awaits) (last : held c = hs ++ [l]) (once : l ∉ hs) :
    Holding (update locks l (locks l).release) (update held c hs) awaits where
  ok := H.ok_update ((H.ok l).release)
  holder := by
    intro m
    by_cases hm : m = l
    · subst hm
      rw [update_self, Lock.release_locked]
      refine ⟨nofun, ?_⟩
      rintro ⟨d, hd⟩
      by_cases h : d = c
      · subst h
        rw [update_self] at hd
        exact absurd hd once
      · rw [update_of_ne h] at hd
        exact absurd (H.unique hd (c := d) (d := c) (by simp [last])) h
    · rw [update_of_ne hm, H.holder m]
      refine exists_congr fun d => ?_
      by_cases hd : d = c
      · subst hd
        simp [last, hm]
      · rw [update_of_ne hd]
  unique := by
    intro m d e hd he
    have keep : ∀ {d}, m ∈ update held c hs d → m ∈ held d := by
      intro d h
      by_cases hd : d = c
      · subst hd
        rw [update_self] at h
        simp [last, h]
      · rwa [update_of_ne hd] at h
    exact H.unique (keep hd) (keep he)
  waiter := H.waiter_keep Lock.release_owners

/-- Cancelling the future of a waiter. -/
lemma cancel (H : Holding locks held awaits) :
    Holding (update locks l ((locks l).cancel c)) held awaits where
  ok := H.ok_update ((H.ok l).cancel)
  holder := H.holder_keep rfl
  unique := H.unique
  waiter := H.waiter_keep Lock.cancel_owners

/-- Ordered acquisition: when every task awaits a lock greater than those it holds, no set of tasks is
deadlocked. -/
theorem not_deadlocked {κ : Type*} [LinearOrder κ] (H : Holding locks held awaits) (rank : ℕ → κ)
    (order : ∀ c l, awaits c = some l → ∀ h ∈ held c, rank h < rank l) (D : Finset ℕ) :
    ¬ Deadlocked locks held awaits D := by
  rintro ⟨ne, stuck⟩
  choose! l wait pend closed using stuck
  obtain ⟨c, hc, max⟩ := D.exists_max_image (fun c => rank (l c)) ne
  cases e : (locks (l c)).locked with
  | true =>
    -- the holder is in `D` as well and awaits a greater lock
    obtain ⟨b, hb⟩ := (H.holder (l c)).mp e
    have mem := closed c hc b (.inl ⟨e, hb⟩)
    exact absurd (max b mem) (not_le_of_gt (order b (l b) (wait b mem) (l c) hb))
  | false =>
    -- the first waiter of a free lock is not asleep
    cases h : (locks (l c)).waiters.head? with
    | none =>
      have := pend c hc
      rw [List.head?_eq_none_iff.mp h] at this
      cases this
    | some w =>
      have mem := closed c hc w.1 (.inr ⟨e, by simp [h]⟩)
      have hw := List.mem_of_head? h
      have e' : l w.1 = l c := by
        have := (H.waiter (l c) w.1).mp (List.mem_map_of_mem hw)
        rw [wait w.1 mem] at this
        exact Option.some.inj this
      have hp := pend w.1 mem
      rw [e'] at hp
      exact (H.ok (l c)).prompt e w h ((H.ok (l c)).unique hw hp)

end Holding

end OpenAgentd.Lib
