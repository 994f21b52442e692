import OpenAgentd.Patch.Tables

/-!
# The invariant of the path locks

The invariant `Inv` has three parts: `Tables`, `Holding` for the lock objects, and `Shape`, which says
what a call between two of its steps looks like. Every step keeps it (`Inv.step`), whatever is cancelled.
While a call runs the invariant holds of the others (`Mid`); the loops of `_patch_file` keep that.

Three things follow from it: no set of calls is deadlocked (`Inv.deadlockFree`), the tables are empty when
everything has finished (`Inv.drained`), and workers whose calls still wait for them are on different
paths (`Inv.exclusive`).
-/

namespace OpenAgentd.Patch
open OpenAgentd.Lib Function

section
variable {P : Type*}

/-- What the calls have checked out. -/
def State.slots (s : State P) (c : ℕ) : List (P × ℕ) := (s.callers c).slots

/-- What the calls hold. -/
def State.heldBy (s : State P) (c : ℕ) : List ℕ := (s.callers c).heldLocks

/-- What the calls are queued for. -/
def State.awaiting (s : State P) (c : ℕ) : Option ℕ := (s.callers c).awaits

variable {s : State P} {c l : ℕ} {k : Caller P}

/-- The caller that is set. -/
@[simp] lemma setCaller_self : (s.setCaller c k).callers c = k := update_self ..

/-- The other callers. -/
lemma setCaller_of_ne {d : ℕ} (h : d ≠ c) : (s.setCaller c k).callers d = s.callers d :=
  update_of_ne h ..

/-- The slots after a set. -/
@[simp] lemma setCaller_slots : (s.setCaller c k).slots = update s.slots c k.slots := by
  funext d
  by_cases hd : d = c
  · subst hd
    simp [State.slots]
  · simp [State.slots, setCaller_of_ne hd, hd]

/-- The held locks after a set. -/
@[simp] lemma setCaller_heldBy : (s.setCaller c k).heldBy = update s.heldBy c k.heldLocks := by
  funext d
  by_cases hd : d = c
  · subst hd
    simp [State.heldBy]
  · simp [State.heldBy, setCaller_of_ne hd, hd]

/-- Who waits after a set. -/
@[simp] lemma setCaller_awaiting : (s.setCaller c k).awaiting = update s.awaiting c k.awaits := by
  funext d
  by_cases hd : d = c
  · subst hd
    simp [State.awaiting]
  · simp [State.awaiting, setCaller_of_ne hd, hd]

/-- A running caller awaits nothing. -/
lemma awaits_of_running (h : k.phase = .running) : k.awaits = none := by
  simp [Caller.awaits, h]

/-- A phase holds nothing. -/
@[simp] lemma heldLocks_setPhase {f : Phase} : (k.setPhase f).heldLocks = k.heldLocks := rfl

/-- A worker holds nothing. -/
@[simp] lemma heldLocks_setWorker {w : Worker} : (k.setWorker w).heldLocks = k.heldLocks := rfl

/-- A worker awaits nothing. -/
@[simp] lemma awaits_setWorker {w : Worker} : (k.setWorker w).awaits = k.awaits := rfl

/-- A mark awaits nothing. -/
@[simp] lemma awaits_mark : k.mark.awaits = k.awaits := rfl

/-- A mark holds nothing. -/
@[simp] lemma heldLocks_mark : k.mark.heldLocks = k.heldLocks := rfl

/-- Taking one more lock. -/
lemma heldLocks_succ {p : P} (h : k.slots[k.held]? = some (p, l)) :
    (k.setHeld (k.held + 1)).heldLocks = k.heldLocks ++ [l] := by
  simp [Caller.heldLocks, Caller.setHeld, List.take_add_one, h]

/-- Nothing changes. -/
@[simp] lemma update_slots : update s.slots c (s.callers c).slots = s.slots := update_eq_self ..

/-- Nothing changes. -/
@[simp] lemma update_heldBy : update s.heldBy c (s.callers c).heldLocks = s.heldBy :=
  update_eq_self ..

/-- Nothing changes. -/
@[simp] lemma update_awaiting : update s.awaiting c (s.callers c).awaits = s.awaiting :=
  update_eq_self ..

end

section
variable {P : Type*}

/-- What a call looks like between two of its steps. -/
def Shape (k : Caller P) : Prop :=
  match k.phase with
  | .idle => k.slots = [] ∧ k.worker = .none
  | .running => False
  | .waiting => k.slots.map Prod.fst = k.paths ∧ k.held < k.slots.length ∧ k.worker = .none
  | .working => k.slots.map Prod.fst = k.paths ∧ k.held = k.slots.length
  | .finished => k.slots = [] ∧ k.worker ≠ .queued

/-- The invariant. -/
structure Inv [LinearOrder P] (s : State P) : Prop where
  tables : Tables s.pathLocks s.pathLockRefs s.nextLock s.slots
  holding : Holding s.locks s.heldBy s.awaiting
  shape : ∀ c, Shape (s.callers c)

/-- The invariant while the call `c` runs. -/
structure Mid [LinearOrder P] (s : State P) (c : ℕ) : Prop where
  tables : Tables s.pathLocks s.pathLockRefs s.nextLock s.slots
  holding : Holding s.locks s.heldBy s.awaiting
  shape : ∀ d, d ≠ c → Shape (s.callers d)
  phase : (s.callers c).phase = .running

/-- No two workers run on a common path. -/
def Exclusive (s : State P) : Prop :=
  ∀ c d, c ≠ d → (s.callers c).worker = .running → (s.callers d).worker = .running →
    ∀ p ∈ (s.callers c).paths, p ∉ (s.callers d).paths

/-- No set of calls is deadlocked. -/
def DeadlockFree (s : State P) : Prop := ∀ D, ¬ Deadlocked s.locks s.heldBy s.awaiting D

/-- Every call and every worker has finished. -/
def Done (s : State P) : Prop :=
  ∀ c, ((s.callers c).phase = .idle ∨ (s.callers c).phase = .finished) ∧
    (s.callers c).worker ≠ .queued ∧ (s.callers c).worker ≠ .running

/-- A running worker belongs to a call that waits for it. -/
def Tied (s : State P) : Prop :=
  ∀ c, (s.callers c).worker = .running → (s.callers c).phase = .working

variable {s : State P} {c l : ℕ} {k : Caller P} {p : P} {ps : List P}

/-- The shapes of the calls when one of them changes. -/
lemma shape_update (others : ∀ d, d ≠ c → Shape (s.callers d)) (sh : Shape k) (d : ℕ) :
    Shape ((s.setCaller c k).callers d) := by
  by_cases hd : d = c
  · subst hd
    rwa [setCaller_self]
  · rw [setCaller_of_ne hd]
    exact others d hd

/-- A running call is queued for nothing, before and after. -/
lemma awaiting_running (k : Caller P) (h : (s.callers c).phase = .running) (h' : k.phase = .running) :
    update s.awaiting c k.awaits = s.awaiting := by
  rw [awaits_of_running h', ← awaits_of_running h]
  exact update_awaiting

variable [LinearOrder P]

/-- A change of the running call after which it still runs. -/
lemma mid_setCaller (T : Tables s.pathLocks s.pathLockRefs s.nextLock (update s.slots c k.slots))
    (H : Holding s.locks (update s.heldBy c k.heldLocks) (update s.awaiting c k.awaits))
    (others : ∀ d, d ≠ c → Shape (s.callers d)) (run : k.phase = .running) :
    Mid (s.setCaller c k) c where
  tables := by rwa [setCaller_slots]
  holding := by rwa [setCaller_heldBy, setCaller_awaiting]
  shape := by
    intro d hd
    rw [setCaller_of_ne hd]
    exact others d hd
  phase := by rwa [setCaller_self]

/-- A change of the running call after which it does not run. -/
lemma inv_setCaller (T : Tables s.pathLocks s.pathLockRefs s.nextLock (update s.slots c k.slots))
    (H : Holding s.locks (update s.heldBy c k.heldLocks) (update s.awaiting c k.awaits))
    (others : ∀ d, d ≠ c → Shape (s.callers d)) (sh : Shape k) : Inv (s.setCaller c k) where
  tables := by rwa [setCaller_slots]
  holding := by rwa [setCaller_heldBy, setCaller_awaiting]
  shape := shape_update others sh

/-- A call that starts to run. -/
lemma Inv.mid (I : Inv s) (slots : k.slots = (s.callers c).slots)
    (H : Holding s.locks (update s.heldBy c k.heldLocks) (update s.awaiting c none))
    (run : k.phase = .running) : Mid (s.setCaller c k) c := by
  refine mid_setCaller ?_ ?_ (fun d _ => I.shape d) run
  · rw [slots, update_slots]
    exact I.tables
  · rwa [awaits_of_running run]

/-- `_acquire_all` over the locks behind those the call holds. -/
lemma Mid.acquireAll {rest : List (P × ℕ)} (M : Mid s c) (pre : List (P × ℕ))
    (split : (s.callers c).slots = pre ++ rest) (held : (s.callers c).held = pre.length)
    (paths : (s.callers c).slots.map Prod.fst = (s.callers c).paths)
    (worker : (s.callers c).worker = .none) : Inv (acquireAll s c rest) := by
  induction rest generalizing s pre with
  | nil =>
    refine inv_setCaller ?_ ?_ M.shape ⟨paths, ?_⟩
    · show Tables s.pathLocks s.pathLockRefs s.nextLock (update s.slots c (s.callers c).slots)
      rw [update_slots]
      exact M.tables
    · rw [heldLocks_setWorker, heldLocks_setPhase, update_heldBy,
        show (((s.callers c).setPhase .working).setWorker .queued).awaits = none from rfl,
        ← awaits_of_running M.phase, update_awaiting]
      exact M.holding
    · show (s.callers c).held = (s.callers c).slots.length
      simp [split, held]
  | cons a rest ih =>
    obtain ⟨p, l⟩ := a
    have at_held : (s.callers c).slots[(s.callers c).held]? = some (p, l) := by
      simp [split, held]
    rw [Patch.acquireAll]
    by_cases free : (s.locks l).free = true
    · rw [if_pos free]
      refine ih (mid_setCaller ?_ ?_ M.shape M.phase) (pre ++ [(p, l)]) ?_ ?_ ?_ ?_
      · show Tables s.pathLocks s.pathLockRefs s.nextLock (update s.slots c (s.callers c).slots)
        rw [update_slots]
        exact M.tables
      · show Holding (update s.locks l _) (update s.heldBy c _) (update s.awaiting c _)
        rw [heldLocks_succ at_held,
          awaiting_running ((s.callers c).setHeld ((s.callers c).held + 1)) M.phase M.phase]
        exact M.holding.take free
      · rw [setCaller_self]
        simpa [Caller.setHeld] using split
      · rw [setCaller_self]
        simp [Caller.setHeld, held]
      · rw [setCaller_self]
        exact paths
      · rw [setCaller_self]
        exact worker
    · rw [if_neg free]
      have lt : (s.callers c).held < (s.callers c).slots.length := by
        simp [split, held]
      refine inv_setCaller ?_ ?_ M.shape ⟨paths, lt, worker⟩
      · show Tables s.pathLocks s.pathLockRefs s.nextLock (update s.slots c (s.callers c).slots)
        rw [update_slots]
        exact M.tables
      · show Holding (update s.locks l _) (update s.heldBy c _) (update s.awaiting c _)
        have aw : ((s.callers c).setPhase .waiting).awaits = some l := by
          simp [Caller.awaits, Caller.setPhase, at_held]
        rw [heldLocks_setPhase, update_heldBy, aw]
        exact M.holding.enqueue (by simpa using free) (awaits_of_running M.phase)

/-- The release of the locks a call holds. -/
lemma Mid.releaseAll {n : ℕ} (M : Mid s c) (held : (s.callers c).held = n)
    (le : n ≤ (s.callers c).slots.length) :
    Mid (releaseAll s c n) c ∧ (releaseAll s c n).callers c = (s.callers c).setHeld 0 := by
  induction n generalizing s with
  | zero =>
    refine ⟨M, ?_⟩
    rw [Patch.releaseAll, Caller.setHeld, ← held]
  | succ n ih =>
    obtain ⟨⟨p, l⟩, e⟩ : ∃ a, (s.callers c).slots[n]? = some a := ⟨_, List.getElem?_eq_getElem le⟩
    have last : s.heldBy c = ((s.callers c).setHeld n).heldLocks ++ [l] := by
      simp [State.heldBy, Caller.heldLocks, Caller.setHeld, held, List.take_add_one, e]
    have once : l ∉ ((s.callers c).setHeld n).heldLocks := by
      have nd : (s.heldBy c).Nodup :=
        (M.tables.nodup_locks c).sublist ((List.take_sublist _ _).map _)
      rw [last, List.nodup_append] at nd
      intro h
      exact nd.2.2 l h l (by simp) rfl
    have M' : Mid ((s.setLock l (s.locks l).release).setCaller c ((s.callers c).setHeld n)) c := by
      refine mid_setCaller ?_ ?_ M.shape M.phase
      · show Tables s.pathLocks s.pathLockRefs s.nextLock (update s.slots c (s.callers c).slots)
        rw [update_slots]
        exact M.tables
      · show Holding (update s.locks l _) (update s.heldBy c _) (update s.awaiting c _)
        rw [awaiting_running ((s.callers c).setHeld n) M.phase M.phase]
        exact M.holding.release last once
    obtain ⟨h, h'⟩ := ih M' (by rw [setCaller_self]; rfl)
      (by rw [setCaller_self]; exact Nat.le_of_succ_le le)
    rw [setCaller_self] at h'
    rw [Patch.releaseAll, e]
    exact ⟨h, h'⟩

/-- The check-in of the paths of a call that holds nothing. -/
lemma Mid.checkinAll (M : Mid s c) (held : (s.callers c).held = 0)
    (paths : (s.callers c).slots.map Prod.fst = ps) :
    Mid (checkinAll s c ps) c ∧ (checkinAll s c ps).callers c = (s.callers c).setSlots [] := by
  induction ps generalizing s with
  | nil =>
    refine ⟨M, ?_⟩
    rw [List.map_eq_nil_iff] at paths
    rw [Patch.checkinAll, Caller.setSlots, ← paths]
  | cons p ps ih =>
    obtain ⟨⟨q, l⟩, rest, e, rfl, rest_paths⟩ := List.map_eq_cons_iff.mp paths
    have H : Holding s.locks
        (update s.heldBy c ((s.callers c).setSlots (s.callers c).slots.tail).heldLocks)
        (update s.awaiting c ((s.callers c).setSlots (s.callers c).slots.tail).awaits) := by
      have none : ∀ v, ((s.callers c).setSlots v).heldLocks = (s.callers c).heldLocks := by
        intro v
        simp [Caller.heldLocks, Caller.setSlots, held]
      rw [none, update_heldBy,
        awaiting_running ((s.callers c).setSlots (s.callers c).slots.tail) M.phase M.phase]
      exact M.holding
    have T := M.tables.checkin e
    have M' : Mid (checkinLock s c q) c ∧
        (checkinLock s c q).callers c = (s.callers c).setSlots rest := by
      have tail : (s.callers c).slots.tail = rest := by rw [e]; rfl
      rw [tail] at H
      by_cases zero : (s.pathLockRefs q).getD 0 - 1 = 0
      · simp only [checkinLock, zero, if_true, tail] at T ⊢
        exact ⟨mid_setCaller T H M.shape M.phase, setCaller_self⟩
      · simp only [checkinLock, zero, if_false, tail] at T ⊢
        exact ⟨mid_setCaller T H M.shape M.phase, setCaller_self⟩
    obtain ⟨h, h'⟩ := ih M'.1 (by rw [M'.2]; exact held) (by rw [M'.2]; exact rest_paths)
    rw [M'.2] at h'
    exact ⟨h, h'⟩

/-- The end of a call. -/
lemma Mid.finish (M : Mid s c) (le : (s.callers c).held ≤ (s.callers c).slots.length)
    (paths : (s.callers c).slots.map Prod.fst = (s.callers c).paths)
    (worker : (s.callers c).worker ≠ .queued) : Inv (finish s c) := by
  have e : s.setCaller c ((s.callers c).setPhase .running) = s := by
    rw [Caller.setPhase, ← M.phase, State.setCaller, update_eq_self]
  obtain ⟨R, r⟩ := M.releaseAll rfl le
  simp only [Patch.finish, e]
  generalize Patch.releaseAll s c (s.callers c).held = t at R r ⊢
  obtain ⟨K, k⟩ := R.checkinAll (by rw [r]; rfl)
    (show (t.callers c).slots.map Prod.fst = (t.callers c).paths by rw [r]; exact paths)
  generalize Patch.checkinAll t c (t.callers c).paths = u at K k ⊢
  refine inv_setCaller ?_ ?_ K.shape ?_
  · show Tables u.pathLocks u.pathLockRefs u.nextLock (update u.slots c (u.callers c).slots)
    rw [update_slots]
    exact K.tables
  · rw [heldLocks_setPhase, update_heldBy,
      show ((u.callers c).setPhase .finished).awaits = none from rfl, ← awaits_of_running K.phase,
      update_awaiting]
    exact K.holding
  · rw [k, r]
    exact ⟨rfl, worker⟩

/-- The checkout of the paths of a call that holds nothing. -/
lemma Mid.checkoutAll (M : Mid s c) (held : (s.callers c).held = 0) (sorted : ps.Pairwise (· < ·))
    (last : ∀ a ∈ (s.callers c).slots, ∀ p ∈ ps, a.1 < p) :
    Mid (checkoutAll s c ps) c ∧
      ∃ v, (checkoutAll s c ps).callers c = (s.callers c).setSlots v ∧
        v.map Prod.fst = (s.callers c).slots.map Prod.fst ++ ps := by
  induction ps generalizing s with
  | nil => exact ⟨M, (s.callers c).slots, rfl, by simp⟩
  | cons p ps ih =>
    rw [List.pairwise_cons] at sorted
    have M' : Mid (checkoutLock s c p) c := by
      refine mid_setCaller (M.tables.checkout (fun a ha => last a ha p (by simp))) ?_ M.shape M.phase
      show Holding s.locks (update s.heldBy c _) (update s.awaiting c _)
      have none : ∀ v, ((s.callers c).setSlots v).heldLocks = (s.callers c).heldLocks := by
        intro v
        simp [Caller.heldLocks, Caller.setSlots, held]
      have quiet : ∀ v, ((s.callers c).setSlots v).awaits = (s.callers c).awaits := by
        intro v
        rw [awaits_of_running M.phase]
        exact awaits_of_running M.phase
      rw [none, update_heldBy, quiet, update_awaiting]
      exact M.holding
    have k : (checkoutLock s c p).callers c =
        (s.callers c).setSlots ((s.callers c).slots ++ [(p, (s.pathLocks p).getD s.nextLock)]) :=
      setCaller_self
    rw [Patch.checkoutAll]
    generalize checkoutLock s c p = t at M' k ⊢
    have last' : ∀ a ∈ (t.callers c).slots, ∀ q ∈ ps, a.1 < q := by
      intro a ha q hq
      rw [k] at ha
      rcases List.mem_append.mp ha with ha | ha
      · exact last a ha q (List.mem_cons_of_mem _ hq)
      · rw [List.mem_singleton.mp ha]
        exact sorted.1 q hq
    obtain ⟨K, v, e, paths⟩ := ih M' (by rw [k]; exact held) sorted.2 last'
    refine ⟨K, v, by rw [e, k]; rfl, ?_⟩
    rw [paths, k]
    simp [Caller.setSlots]

/-- The paths of an envelope are different and sorted. -/
lemma patchPaths_pairwise : (patchPaths ps).Pairwise (· < ·) :=
  sortOn_pairwise (f := id) (by simpa using ps.nodup_dedup)

/-- The first step of a call. -/
lemma Inv.patchFile (I : Inv s) (idle : (s.callers c).phase = .idle) : Inv (patchFile s c ps) := by
  have sh := I.shape c
  simp only [Shape, idle] at sh
  have M : Mid (s.setCaller c { paths := patchPaths ps, phase := .running }) c := by
    refine I.mid sh.1.symm ?_ rfl
    have h : (s.callers c).heldLocks = [] := by simp [Caller.heldLocks, sh.1]
    have a : (s.callers c).awaits = none := by simp [Caller.awaits, idle]
    rw [← a, update_awaiting,
      show ({ paths := patchPaths ps, phase := .running } : Caller P).heldLocks =
        (s.callers c).heldLocks from h.symm, update_heldBy]
    exact I.holding
  have k : (s.setCaller c { paths := patchPaths ps, phase := .running }).callers c =
      { paths := patchPaths ps, phase := .running } := setCaller_self
  simp only [Patch.patchFile]
  generalize s.setCaller c { paths := patchPaths ps, phase := .running } = t at M k ⊢
  obtain ⟨K, v, e, paths⟩ := M.checkoutAll (by rw [k]) patchPaths_pairwise (by simp [k])
  refine K.acquireAll [] rfl ?_ ?_ ?_
  · rw [e, k]
    rfl
  · rw [e, k] at *
    simpa [Caller.setSlots] using paths
  · rw [e, k]
    rfl

/-- A call that waits for the lock `l`. -/
lemma Inv.waiting (I : Inv s) (wait : (s.callers c).awaits = some l) :
    (s.callers c).phase = .waiting ∧ (∃ p, (s.callers c).slots[(s.callers c).held]? = some (p, l)) ∧
      Shape (s.callers c) := by
  have ph : (s.callers c).phase = .waiting := by
    by_contra h
    simp [Caller.awaits, h] at wait
  refine ⟨ph, ?_, I.shape c⟩
  simpa [Caller.awaits, ph] using wait

/-- The step of a woken call. -/
lemma Inv.acquired (I : Inv s) (wait : (s.callers c).awaits = some l)
    (woken : (c, Fut.woken) ∈ (s.locks l).waiters) : Inv (acquired s c l) := by
  obtain ⟨ph, ⟨p, at_held⟩, sh⟩ := I.waiting wait
  simp only [Shape, ph] at sh
  have M : Mid ((s.setLock l ((s.locks l).resume c)).setCaller c
      (((s.callers c).setHeld ((s.callers c).held + 1)).setPhase .running)) c := by
    refine mid_setCaller ?_ ?_ (fun d _ => I.shape d) rfl
    · show Tables s.pathLocks s.pathLockRefs s.nextLock (update s.slots c (s.callers c).slots)
      rw [update_slots]
      exact I.tables
    · show Holding (update s.locks l _) (update s.heldBy c _) (update s.awaiting c none)
      rw [heldLocks_setPhase, heldLocks_succ at_held]
      exact I.holding.resume wait woken
  refine M.acquireAll ((s.callers c).slots.take ((s.callers c).held + 1)) ?_ ?_ ?_ ?_
  · rw [setCaller_self]
    exact (List.take_append_drop _ _).symm
  · rw [setCaller_self]
    show (s.callers c).held + 1 = _
    rw [List.length_take]
    omega
  · rw [setCaller_self]
    exact sh.1
  · rw [setCaller_self]
    exact sh.2.2

/-- The step of a call that is cancelled in a queue. -/
lemma Inv.interrupted (I : Inv s) (wait : (s.callers c).awaits = some l) :
    Inv (interrupted s c l) := by
  obtain ⟨ph, -, sh⟩ := I.waiting wait
  simp only [Shape, ph] at sh
  have M : Mid ((s.setLock l ((s.locks l).abandon c)).setCaller c
      ((s.callers c).setPhase .running)) c := by
    refine mid_setCaller ?_ ?_ (fun d _ => I.shape d) rfl
    · show Tables s.pathLocks s.pathLockRefs s.nextLock (update s.slots c (s.callers c).slots)
      rw [update_slots]
      exact I.tables
    · show Holding (update s.locks l _) (update s.heldBy c _) (update s.awaiting c none)
      rw [heldLocks_setPhase, update_heldBy]
      exact I.holding.abandon wait
  apply M.finish
  · rw [setCaller_self]
    exact sh.2.1.le
  · rw [setCaller_self]
    exact sh.1
  · rw [setCaller_self]
    show (s.callers c).worker ≠ .queued
    simp [sh.2.2]

/-- Running or not, it finishes alike. -/
lemma finish_running : finish (s.setCaller c ((s.callers c).setPhase .running)) c = finish s c := by
  have e : (s.setCaller c ((s.callers c).setPhase .running)).setCaller c
      (((s.callers c).setPhase .running).setPhase .running) =
        s.setCaller c ((s.callers c).setPhase .running) := by
    simp only [State.setCaller, update_idem]
    rfl
  simp only [finish, setCaller_self, e]
  rfl

/-- The step of a call that comes back from its worker. -/
lemma Inv.returned (I : Inv s) (ph : (s.callers c).phase = .working) : Inv (returned s c) := by
  have sh := I.shape c
  simp only [Shape, ph] at sh
  simp only [Patch.returned]
  generalize hw : (if (s.callers c).worker = Worker.queued then Worker.cancelled
    else (s.callers c).worker) = w
  have busy : w ≠ .queued := by
    subst hw
    split
    · simp
    · assumption
  rw [← finish_running, setCaller_self, State.setCaller, State.setCaller, update_idem]
  have M : Mid (s.setCaller c (((s.callers c).setWorker w).setPhase .running)) c := by
    refine I.mid rfl ?_ rfl
    have a : (s.callers c).awaits = none := by simp [Caller.awaits, ph]
    rw [heldLocks_setPhase, heldLocks_setWorker, update_heldBy, ← a, update_awaiting]
    exact I.holding
  apply M.finish
  · rw [setCaller_self]
    exact sh.2.le
  · rw [setCaller_self]
    exact sh.1
  · rw [setCaller_self]
    exact busy

/-- A change of a call that no table and no lock sees. -/
lemma Inv.keep (I : Inv s) (slots : k.slots = (s.callers c).slots)
    (held : k.heldLocks = (s.callers c).heldLocks) (awaits : k.awaits = (s.callers c).awaits)
    (sh : Shape k) : Inv (s.setCaller c k) := by
  refine inv_setCaller ?_ ?_ (fun d _ => I.shape d) sh
  · rw [slots, update_slots]
    exact I.tables
  · rw [held, awaits, update_heldBy, update_awaiting]
    exact I.holding

/-- A mark keeps the invariant. -/
lemma Inv.mark (I : Inv s) : Inv (s.setCaller c (s.callers c).mark) := by
  exact I.keep rfl rfl rfl (I.shape c)

/-- The cancellation of a call. -/
lemma Inv.cancelTask (I : Inv s) : Inv (cancelTask s c) := by
  unfold Patch.cancelTask
  split
  · split
    · exact ⟨I.tables, I.holding.cancel, I.shape⟩
    · exact I.mark
  · exact I.mark

/-- The invariant is kept by every step. -/
lemma Inv.step {a : Act P} {t : State P} (I : Inv s) (st : Step s a t) : Inv t := by
  cases st with
  | call idle => exact I.patchFile idle
  | cancel _ => exact I.cancelTask
  | acquired wait woken _ => exact I.acquired wait woken
  | interrupted wait _ => exact I.interrupted wait
  | returned ph _ => exact I.returned ph
  | @workerStart c w =>
    refine I.keep rfl rfl rfl ?_
    have sh := I.shape c
    cases ph : (s.callers c).phase with
    | working =>
      simp only [Shape, ph] at sh
      simpa [Shape, Caller.setWorker, ph] using sh
    | _ => simp [Shape, ph, w] at sh
  | @workerEnd c w =>
    refine I.keep rfl rfl rfl ?_
    have sh := I.shape c
    cases ph : (s.callers c).phase with
    | working =>
      simp only [Shape, ph] at sh
      simpa [Shape, Caller.setWorker, ph] using sh
    | finished =>
      simp only [Shape, ph] at sh
      simpa [Shape, Caller.setWorker, ph] using sh.1
    | _ => simp [Shape, ph, w] at sh

/-- The invariant holds of the empty tables. -/
lemma Inv.start : Inv ({} : State P) where
  tables := .start
  holding := .start
  shape := fun _ => ⟨rfl, rfl⟩

/-- The path of a lock. -/
noncomputable def rank (s : State P) (l : ℕ) : WithBot P :=
  open Classical in if h : ∃ p, s.pathLocks p = some l then ↑h.choose else ⊥

/-- A lock's rank is its path. -/
lemma Inv.rank_eq (I : Inv s) (h : s.pathLocks p = some l) : rank s l = p := by
  have ex : ∃ p, s.pathLocks p = some l := ⟨p, h⟩
  rw [rank, dif_pos ex, I.tables.inj ex.choose_spec h]

/-- No set of calls is deadlocked: the locks are taken in the order of their paths. -/
lemma Inv.deadlockFree (I : Inv s) : DeadlockFree s := by
  refine I.holding.not_deadlocked (rank s) ?_
  intro c l wait h hh
  obtain ⟨-, ⟨p, at_held⟩, -⟩ := I.waiting wait
  obtain ⟨⟨q, m⟩, hq, rfl⟩ := List.mem_map.mp hh
  have sorted : (s.callers c).slots.Pairwise (fun a b => a.1 < b.1) := I.tables.sorted c
  have lt : q < p := by
    obtain ⟨i, hi, e⟩ := List.mem_take_iff_getElem.mp hq
    obtain ⟨hl, e'⟩ := List.getElem?_eq_some_iff.mp at_held
    have h := List.pairwise_iff_getElem.mp sorted i (s.callers c).held (by omega) hl (by omega)
    rwa [e, e'] at h
  rw [I.rank_eq (I.tables.entry (List.mem_of_mem_take hq)),
    I.rank_eq (I.tables.entry (List.mem_of_getElem? at_held))]
  exact WithBot.coe_lt_coe.mpr lt

/-- The tables are empty when every call and every worker has finished. -/
lemma Inv.drained (I : Inv s) (done : Done s) (p : P) :
    s.pathLocks p = none ∧ s.pathLockRefs p = none := by
  have out : s.pathLockRefs p = none := by
    rw [I.tables.refs_eq_none]
    intro c
    have sh := I.shape c
    have empty : (s.callers c).slots = [] := by
      rcases (done c).1 with ph | ph
      · simp only [Shape, ph] at sh
        exact sh.1
      · simp only [Shape, ph] at sh
        exact sh.1
    simp [State.slots, empty]
  exact ⟨I.tables.absent out, out⟩

/-- Workers whose calls wait for them are on different paths. -/
lemma Inv.exclusive (I : Inv s) (T : Tied s) : Exclusive s := by
  intro c d ne hc hd p pc pd
  have holds : ∀ c, (s.callers c).worker = .running → p ∈ (s.callers c).paths →
      ∃ l, s.pathLocks p = some l ∧ l ∈ s.heldBy c := by
    intro c hc pc
    have sh := I.shape c
    simp only [Shape, T c hc] at sh
    rw [← sh.1] at pc
    obtain ⟨⟨q, l⟩, h, rfl⟩ := List.mem_map.mp pc
    refine ⟨l, I.tables.entry h, ?_⟩
    rw [State.heldBy, Caller.heldLocks, sh.2, List.take_length]
    exact List.mem_map_of_mem h
  obtain ⟨l, e, h⟩ := holds c hc pc
  obtain ⟨l', e', h'⟩ := holds d hd pd
  rw [e, Option.some.injEq] at e'
  exact ne (I.holding.unique h (e' ▸ h'))

end

end OpenAgentd.Patch
