import Mathlib.Data.List.Nodup
import Mathlib.Tactic.Lemma

/-!
# The fair lock of a cooperative scheduler

`asyncio.Lock`: a flag and a queue of waiters, each with the future it awaits. A free lock is handed to
the first waiter by resolving its future; the waiter takes the lock when it runs again. A cancelled
waiter leaves the queue when it runs again and passes an unclaimed lock on.

`Lock.Ok` is what every operation keeps: only the first waiter of a free lock is resolved, and the
first waiter of a free lock is never left pending, so that no wakeup is lost.
-/

namespace OpenAgentd.Lib

/-- The future of a waiter. -/
inductive Fut where
  | pending
  | woken
  | cancelled
  deriving DecidableEq

/-- The lock, with the waiters by the name of their task. -/
structure Lock where
  locked : Bool := false
  waiters : List (ℕ × Fut) := []

/-- `_wake_up_first`. -/
def Lock.wakeUpFirst (k : Lock) : Lock :=
  match k.waiters with
  | (c, .pending) :: ws => { k with waiters := (c, .woken) :: ws }
  | _ => k

/-- The check of `acquire` that takes the lock at once. -/
def Lock.free (k : Lock) : Bool := !k.locked && k.waiters.all (fun w => w.2 = .cancelled)

/-- `acquire` on a lock that is free. -/
def Lock.take (k : Lock) : Lock := { k with locked := true }

/-- `acquire` on a lock that is not: the task `c` queues up. -/
def Lock.enqueue (k : Lock) (c : ℕ) : Lock := { k with waiters := k.waiters ++ [(c, .pending)] }

/-- The task `c` leaves the queue. -/
def Lock.remove (k : Lock) (c : ℕ) : Lock := { k with waiters := k.waiters.filter (fun w => w.1 ≠ c) }

/-- The rest of `acquire` in a task that was woken. -/
def Lock.resume (k : Lock) (c : ℕ) : Lock := (k.remove c).take

/-- The rest of `acquire` in a task that was cancelled. -/
def Lock.abandon (k : Lock) (c : ℕ) : Lock :=
  if (k.remove c).locked then k.remove c else (k.remove c).wakeUpFirst

/-- `release`. -/
def Lock.release (k : Lock) : Lock := ({ k with locked := false } : Lock).wakeUpFirst

/-- `cancel` of the future of `c`, which has no effect on one that is done. -/
def Lock.cancel (k : Lock) (c : ℕ) : Lock :=
  { k with waiters := k.waiters.map fun w => if w = (c, .pending) then (c, .cancelled) else w }

/-- What every operation keeps. -/
structure Lock.Ok (k : Lock) : Prop where
  once : (k.waiters.map Prod.fst).Nodup
  first : ∀ w ∈ k.waiters.tail, w.2 ≠ .woken
  quiet : k.locked = true → ∀ w ∈ k.waiters, w.2 ≠ .woken
  prompt : k.locked = false → ∀ w ∈ k.waiters.head?, w.2 ≠ .pending

section
variable {k : Lock} {c d : ℕ} {f : Fut}

/-- Waking leaves the lock. -/
@[simp] lemma Lock.wakeUpFirst_locked : k.wakeUpFirst.locked = k.locked := by
  unfold Lock.wakeUpFirst
  split <;> rfl

/-- Waking leaves the queue. -/
@[simp] lemma Lock.wakeUpFirst_owners :
    k.wakeUpFirst.waiters.map Prod.fst = k.waiters.map Prod.fst := by
  unfold Lock.wakeUpFirst
  split
  · rename_i h
    simp [h]
  · rfl

/-- A taken lock is locked. -/
@[simp] lemma Lock.take_locked : k.take.locked = true := rfl

/-- Taking leaves the queue. -/
@[simp] lemma Lock.take_waiters : k.take.waiters = k.waiters := rfl

/-- A released lock is open. -/
@[simp] lemma Lock.release_locked : k.release.locked = false := Lock.wakeUpFirst_locked

/-- Releasing leaves the queue. -/
@[simp] lemma Lock.release_owners : k.release.waiters.map Prod.fst = k.waiters.map Prod.fst :=
  Lock.wakeUpFirst_owners

/-- Waiting leaves the lock. -/
@[simp] lemma Lock.enqueue_locked : (k.enqueue c).locked = k.locked := rfl

/-- Who waits comes last. -/
@[simp] lemma Lock.enqueue_owners :
    (k.enqueue c).waiters.map Prod.fst = k.waiters.map Prod.fst ++ [c] := by
  simp [Lock.enqueue]

/-- Who resumes has the lock. -/
@[simp] lemma Lock.resume_locked : (k.resume c).locked = true := rfl

/-- Giving up leaves the lock. -/
@[simp] lemma Lock.abandon_locked : (k.abandon c).locked = k.locked := by
  unfold Lock.abandon
  split
  · rfl
  · exact Lock.wakeUpFirst_locked

/-- A cancel leaves the lock. -/
@[simp] lemma Lock.cancel_locked : (k.cancel c).locked = k.locked := rfl

/-- A cancel leaves the queue. -/
@[simp] lemma Lock.cancel_owners : (k.cancel c).waiters.map Prod.fst = k.waiters.map Prod.fst := by
  simp only [Lock.cancel, List.map_map]
  apply List.map_congr_left
  rintro ⟨d, f⟩ _
  by_cases h : (d, f) = (c, Fut.pending)
  · obtain ⟨rfl, rfl⟩ := Prod.mk.inj h
    simp
  · simp [h]

/-- Who waits after `c` has left the queue. -/
lemma Lock.mem_remove_owners :
    d ∈ (k.remove c).waiters.map Prod.fst ↔ d ∈ k.waiters.map Prod.fst ∧ d ≠ c := by
  simp only [Lock.remove, List.mem_map, List.mem_filter]
  constructor
  · rintro ⟨w, ⟨hw, hc⟩, rfl⟩
    exact ⟨⟨w, hw, rfl⟩, by simpa using hc⟩
  · rintro ⟨⟨w, hw, rfl⟩, hc⟩
    exact ⟨w, ⟨hw, by simpa using hc⟩, rfl⟩

/-- Who resumes waits no more. -/
lemma Lock.mem_resume_owners :
    d ∈ (k.resume c).waiters.map Prod.fst ↔ d ∈ k.waiters.map Prod.fst ∧ d ≠ c :=
  Lock.mem_remove_owners

/-- Who gives up waits no more. -/
lemma Lock.mem_abandon_owners :
    d ∈ (k.abandon c).waiters.map Prod.fst ↔ d ∈ k.waiters.map Prod.fst ∧ d ≠ c := by
  unfold Lock.abandon
  split
  · exact Lock.mem_remove_owners
  · rw [Lock.wakeUpFirst_owners]
    exact Lock.mem_remove_owners

/-- A new lock. -/
lemma Lock.Ok.new : ({} : Lock).Ok where
  once := List.nodup_nil
  first := by simp
  quiet := by simp
  prompt := by simp

/-- Waking the first waiter of a free lock nobody was woken for. -/
lemma Lock.Ok.of_wakeUpFirst (once : (k.waiters.map Prod.fst).Nodup)
    (first : ∀ w ∈ k.waiters.tail, w.2 ≠ .woken) (free : k.locked = false) : k.wakeUpFirst.Ok := by
  refine ⟨by simpa using once, ?_, by simp [free], ?_⟩
  · unfold Lock.wakeUpFirst
    split
    · rename_i h
      rw [h] at first
      exact first
    · exact first
  · intro _ w hw
    unfold Lock.wakeUpFirst at hw
    split at hw
    · obtain rfl : _ = w := by simpa using hw
      simp
    · rename_i h
      intro e
      obtain ⟨ws, hws⟩ := List.head?_eq_some_iff.mp hw
      exact h w.1 ws (by rw [hws, ← e])

/-- Taking a free lock. -/
lemma Lock.Ok.take (ok : k.Ok) (free : k.free = true) : k.take.Ok := by
  simp only [Lock.free, Bool.and_eq_true, List.all_eq_true, decide_eq_true_eq] at free
  refine ⟨ok.once, ok.first, ?_, by simp⟩
  intro _ w hw
  simp [free.2 w hw]

/-- Releasing. -/
lemma Lock.Ok.release (ok : k.Ok) : k.release.Ok :=
  .of_wakeUpFirst ok.once ok.first rfl

/-- Waiting for a busy lock. -/
lemma Lock.Ok.enqueue (ok : k.Ok) (busy : k.free = false)
    (new : c ∉ k.waiters.map Prod.fst) : (k.enqueue c).Ok := by
  refine ⟨?_, ?_, ?_, ?_⟩
  · rw [Lock.enqueue_owners, List.nodup_append]
    refine ⟨ok.once, by simp, ?_⟩
    intro a ha b hb e
    rw [List.mem_singleton.mp hb] at e
    exact new (e ▸ ha)
  · intro w hw
    cases h : k.waiters with
    | nil => simp [Lock.enqueue, h] at hw
    | cons v vs =>
      simp only [Lock.enqueue, h, List.cons_append, List.tail_cons, List.mem_append,
        List.mem_singleton] at hw
      rcases hw with hw | rfl
      · exact ok.first w (by simpa [h] using hw)
      · simp
  · intro locked w hw
    rcases List.mem_append.mp hw with hw | hw
    · exact ok.quiet locked w hw
    · simp [List.mem_singleton.mp hw]
  · intro unlocked w hw
    have unlocked' : k.locked = false := unlocked
    cases h : k.waiters with
    | nil => simp [Lock.free, unlocked', h] at busy
    | cons v vs =>
      obtain rfl : v = w := by simpa [Lock.enqueue, h] using hw
      exact ok.prompt unlocked' v (by simp [h])

/-- Leaving the queue keeps that nobody but the first was woken. -/
lemma Lock.Ok.remove_first (ok : k.Ok) : ∀ w ∈ (k.remove c).waiters.tail, w.2 ≠ .woken := by
  intro w hw
  cases h : k.waiters with
  | nil => simp [Lock.remove, h] at hw
  | cons v vs =>
    have hvs : ∀ w ∈ vs, w.2 ≠ Fut.woken := by simpa [h] using ok.first
    apply hvs
    by_cases hv : v.1 = c
    · simp only [Lock.remove, h, hv, List.filter_cons, ne_eq, not_true_eq_false, decide_false,
        Bool.false_eq_true, if_false] at hw
      exact List.mem_of_mem_filter (List.mem_of_mem_tail hw)
    · simp only [Lock.remove, h, hv, List.filter_cons, ne_eq, not_false_eq_true, decide_true,
        if_true, List.tail_cons] at hw
      exact List.mem_of_mem_filter hw

/-- Who is left waits once. -/
lemma Lock.Ok.remove_once (ok : k.Ok) : ((k.remove c).waiters.map Prod.fst).Nodup :=
  ok.once.sublist (List.filter_sublist.map _)

/-- Two entries of one task are one. -/
lemma Lock.Ok.unique {f' : Fut} (ok : k.Ok) (h : (c, f) ∈ k.waiters) (h' : (c, f') ∈ k.waiters) :
    f = f' :=
  (Prod.mk.inj (List.inj_on_of_nodup_map ok.once h h' rfl)).2

/-- A woken task finds the lock free and itself first. -/
lemma Lock.Ok.of_woken (ok : k.Ok) (h : (c, Fut.woken) ∈ k.waiters) :
    k.locked = false ∧ k.waiters.head? = some (c, .woken) := by
  constructor
  · cases e : k.locked with
    | false => rfl
    | true => exact absurd rfl (ok.quiet e _ h)
  · cases e : k.waiters with
    | nil => simp [e] at h
    | cons v vs =>
      rw [e, List.mem_cons] at h
      rcases h with h | h
      · rw [h]; rfl
      · exact absurd rfl (ok.first (c, .woken) (by simpa [e] using h))

/-- Resuming when woken. -/
lemma Lock.Ok.resume (ok : k.Ok) (woken : (c, Fut.woken) ∈ k.waiters) : (k.resume c).Ok := by
  refine ⟨ok.remove_once, ok.remove_first, ?_, by simp⟩
  rintro _ ⟨d, f⟩ hw rfl
  obtain ⟨hw, hd⟩ := List.mem_filter.mp hw
  have e := (ok.of_woken woken).2.symm.trans (ok.of_woken hw).2
  simp only [Option.some.injEq, Prod.mk.injEq, and_true] at e
  simp [e] at hd

/-- Giving up. -/
lemma Lock.Ok.abandon (ok : k.Ok) : (k.abandon c).Ok := by
  unfold Lock.abandon
  split
  · rename_i h
    refine ⟨ok.remove_once, ok.remove_first, ?_, by simp [h]⟩
    intro _ w hw
    exact ok.quiet h w (List.mem_of_mem_filter hw)
  · rename_i h
    exact .of_wakeUpFirst ok.remove_once ok.remove_first (by simpa using h)

/-- Being cancelled. -/
lemma Lock.Ok.cancel (ok : k.Ok) : (k.cancel c).Ok := by
  have keep : ∀ w : ℕ × Fut, (if w = (c, Fut.pending) then (c, Fut.cancelled) else w).2 = .woken →
      w.2 = .woken := by
    intro w h
    by_cases hc : w = (c, Fut.pending)
    · simp [hc] at h
    · simpa [hc] using h
  refine ⟨by simpa using ok.once, ?_, ?_, ?_⟩
  · intro w hw
    simp only [Lock.cancel, ← List.map_tail, List.mem_map] at hw
    obtain ⟨v, hv, rfl⟩ := hw
    exact fun h => ok.first v hv (keep v h)
  · intro locked w hw
    obtain ⟨v, hv, rfl⟩ := List.mem_map.mp hw
    exact fun h => ok.quiet locked v hv (keep v h)
  · intro unlocked w hw
    simp only [Lock.cancel, List.head?_map, Option.mem_def, Option.map_eq_some_iff] at hw
    obtain ⟨v, hv, rfl⟩ := hw
    have hp := ok.prompt unlocked v hv
    by_cases hc : v = (c, Fut.pending)
    · simp [hc]
    · simpa [hc] using hp

end

end OpenAgentd.Lib
