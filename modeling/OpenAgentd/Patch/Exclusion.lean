import OpenAgentd.Patch.Invariant

/-!
# Mutual exclusion of patches

A worker is alone on its paths only while its call holds the locks (`Tied`). A cancellation that is
delivered to a call under its running worker releases the locks while the worker goes on; the other steps
keep the workers tied (`Undisturbed`), and `mutual_exclusion` is the theorem about their runs.
`cancelled_caller_overlaps` is a run in which a cancelled call lets another one in.
-/

namespace OpenAgentd.Patch
open OpenAgentd.Lib Function

section
variable {P : Type*}

/-- The steps that do not run a call on while its worker runs: no cancellation is delivered to it. -/
def Undisturbed (s : State P) : Act P → Prop
  | .resume c => (s.callers c).worker ≠ .running
  | _ => True

variable {s : State P} {c d l : ℕ} {p : P} {ps : List P}

/-- Acquiring leaves the others. -/
lemma acquireAll_of_ne {rest : List (P × ℕ)} (h : d ≠ c) :
    (acquireAll s c rest).callers d = s.callers d := by
  induction rest generalizing s with
  | nil => exact setCaller_of_ne h
  | cons a rest ih =>
    rw [acquireAll]
    split
    · rw [ih]
      exact setCaller_of_ne h
    · exact setCaller_of_ne h

/-- Acquiring starts no worker. -/
lemma acquireAll_worker {rest : List (P × ℕ)} (h : (s.callers c).worker ≠ .running) :
    ((acquireAll s c rest).callers c).worker ≠ .running := by
  induction rest generalizing s with
  | nil => simp [acquireAll, Caller.setWorker]
  | cons a rest ih =>
    rw [acquireAll]
    split
    · apply ih
      rw [setCaller_self]
      exact h
    · rw [setCaller_self]
      exact h

/-- Releasing leaves the others. -/
lemma releaseAll_of_ne {n : ℕ} (h : d ≠ c) : (releaseAll s c n).callers d = s.callers d := by
  induction n generalizing s with
  | zero => rfl
  | succ n ih =>
    rw [releaseAll]
    split
    · rfl
    · rw [ih]
      exact setCaller_of_ne h

/-- Releasing leaves the worker. -/
lemma releaseAll_worker {n : ℕ} :
    ((releaseAll s c n).callers c).worker = (s.callers c).worker := by
  induction n generalizing s with
  | zero => rfl
  | succ n ih =>
    rw [releaseAll]
    split
    · rfl
    · rw [ih, setCaller_self]
      rfl

/-- A cancel leaves the worker. -/
lemma cancelTask_worker : ((cancelTask s c).callers d).worker = (s.callers d).worker := by
  have mark : ((s.setCaller c (s.callers c).mark).callers d).worker = (s.callers d).worker := by
    by_cases h : d = c
    · subst h
      rw [setCaller_self]
      rfl
    · rw [setCaller_of_ne h]
  unfold cancelTask
  split
  · split
    · rfl
    · exact mark
  · exact mark

/-- A cancel leaves the phase. -/
lemma cancelTask_phase : ((cancelTask s c).callers d).phase = (s.callers d).phase := by
  have mark : ((s.setCaller c (s.callers c).mark).callers d).phase = (s.callers d).phase := by
    by_cases h : d = c
    · subst h
      rw [setCaller_self]
      rfl
    · rw [setCaller_of_ne h]
  unfold cancelTask
  split
  · split
    · rfl
    · exact mark
  · exact mark

/-- A step that leaves the other calls alone and runs no worker keeps the workers tied. -/
lemma Tied.of_ne {t : State P} (T : Tied s) (other : ∀ d, d ≠ c → t.callers d = s.callers d)
    (own : (t.callers c).worker ≠ .running) : Tied t := by
  intro d hd
  by_cases h : d = c
  · subst h
    exact absurd hd own
  · rw [other d h] at hd ⊢
    exact T d hd

variable [LinearOrder P]

/-- Checking in leaves the others. -/
lemma checkinLock_of_ne (h : d ≠ c) : (checkinLock s c p).callers d = s.callers d := by
  simp only [checkinLock]
  split
  · exact setCaller_of_ne h
  · exact setCaller_of_ne h

/-- Checking in leaves the worker. -/
lemma checkinLock_worker : ((checkinLock s c p).callers c).worker = (s.callers c).worker := by
  simp only [checkinLock]
  split
  · rw [setCaller_self]
    rfl
  · rw [setCaller_self]
    rfl

/-- Checking all in leaves the others. -/
lemma checkinAll_of_ne (h : d ≠ c) : (checkinAll s c ps).callers d = s.callers d := by
  induction ps generalizing s with
  | nil => rfl
  | cons p ps ih => rw [checkinAll, ih, checkinLock_of_ne h]

/-- Checking all in leaves the worker. -/
lemma checkinAll_worker : ((checkinAll s c ps).callers c).worker = (s.callers c).worker := by
  induction ps generalizing s with
  | nil => rfl
  | cons p ps ih => rw [checkinAll, ih, checkinLock_worker]

/-- Checking out leaves the others. -/
lemma checkoutAll_of_ne (h : d ≠ c) : (checkoutAll s c ps).callers d = s.callers d := by
  induction ps generalizing s with
  | nil => rfl
  | cons p ps ih =>
    rw [checkoutAll, ih]
    exact setCaller_of_ne h

/-- Checking out leaves the worker. -/
lemma checkoutAll_worker : ((checkoutAll s c ps).callers c).worker = (s.callers c).worker := by
  induction ps generalizing s with
  | nil => rfl
  | cons p ps ih =>
    rw [checkoutAll, ih, checkoutLock, setCaller_self]
    rfl

/-- Finishing leaves the others. -/
lemma finish_of_ne (h : d ≠ c) : (finish s c).callers d = s.callers d := by
  simp only [finish]
  rw [setCaller_of_ne h, checkinAll_of_ne h, releaseAll_of_ne h, setCaller_of_ne h]

/-- Finishing leaves the worker. -/
lemma finish_worker : ((finish s c).callers c).worker = (s.callers c).worker := by
  simp only [finish]
  rw [setCaller_self]
  show ((checkinAll _ c _).callers c).worker = _
  rw [checkinAll_worker, releaseAll_worker, setCaller_self]
  rfl

/-- Undisturbed steps keep the workers tied to their calls. -/
lemma Tied.step {a : Act P} {t : State P} (I : Inv s) (T : Tied s) (ok : Undisturbed s a)
    (st : Step s a t) : Tied t := by
  cases st with
  | @call c ps idle =>
    refine T.of_ne (c := c) ?_ ?_
    · intro d h
      simp only [patchFile]
      rw [acquireAll_of_ne h, checkoutAll_of_ne h, setCaller_of_ne h]
    · apply acquireAll_worker
      rw [checkoutAll_worker, setCaller_self]
      simp
  | @cancel c _ =>
    intro d hd
    rw [cancelTask_worker] at hd
    rw [cancelTask_phase]
    exact T d hd
  | @acquired c l wait _ _ =>
    obtain ⟨ph, -, sh⟩ := I.waiting wait
    simp only [Shape, ph] at sh
    refine T.of_ne (c := c) ?_ ?_
    · intro d h
      simp only [acquired]
      rw [acquireAll_of_ne h, setCaller_of_ne h]
      rfl
    · apply acquireAll_worker
      rw [setCaller_self]
      show (s.callers c).worker ≠ .running
      simp [sh.2.2]
  | @interrupted c l wait _ =>
    obtain ⟨ph, -, sh⟩ := I.waiting wait
    simp only [Shape, ph] at sh
    refine T.of_ne (c := c) ?_ ?_
    · intro d h
      rw [interrupted, finish_of_ne h, setCaller_of_ne h]
      rfl
    · rw [interrupted, finish_worker, setCaller_self]
      show (s.callers c).worker ≠ .running
      simp [sh.2.2]
  | @returned c ph _ =>
    refine T.of_ne (c := c) ?_ ?_
    · intro d h
      rw [returned, finish_of_ne h, setCaller_of_ne h]
    · rw [returned, finish_worker, setCaller_self]
      show (if (s.callers c).worker = .queued then Worker.cancelled else (s.callers c).worker) ≠ _
      split
      · simp
      · exact ok
  | @workerStart c w =>
    have sh := I.shape c
    intro d hd
    by_cases h : d = c
    · subst h
      rw [setCaller_self]
      show (s.callers d).phase = .working
      cases ph : (s.callers d).phase with
      | working => rfl
      | _ => simp [Shape, ph, w] at sh
    · rw [setCaller_of_ne h] at hd ⊢
      exact T d hd
  | @workerEnd c w =>
    refine T.of_ne (c := c) (fun d h => setCaller_of_ne h) ?_
    rw [setCaller_self]
    simp [Caller.setWorker]

/-- Patches exclude each other: in every run in which no cancellation is delivered to a call under its
running worker, no two running workers share a path, no set of calls is deadlocked, and the tables are
empty when everything has finished. -/
theorem mutual_exclusion {as : List (Act P)} {s : State P}
    (rn : Run (Guarded Undisturbed Step) {} as s) :
    Exclusive s ∧ DeadlockFree s ∧
      (Done s → ∀ p, s.pathLocks p = none ∧ s.pathLockRefs p = none) := by
  have h : Inv s ∧ Tied s :=
    rn.invariant (I := fun s => Inv s ∧ Tied s) ⟨.start, by intro c h; cases h⟩
      (fun h st => ⟨h.1.step st.2, h.2.step h.1 st.1 st.2⟩)
  exact ⟨h.1.exclusive h.2, h.1.deadlockFree, h.1.drained⟩

end

/-- Two calls with a common path: the second waits for the worker of the first. -/
def overlappingCalls : List (Act ℕ) :=
  [.call 0 [2, 1], .call 1 [2, 3], .workerStart 0]

/-- The overlapping calls exclude each other. -/
theorem mutual_exclusion_overlappingCalls :
    ∃ s : State ℕ, Run (Guarded Undisturbed Step) {} overlappingCalls s ∧
      (s.callers 0).worker = .running ∧ (s.callers 1).phase = .waiting ∧
      (Exclusive s ∧ DeadlockFree s ∧
        (Done s → ∀ p, s.pathLocks p = none ∧ s.pathLockRefs p = none)) := by
  have rn : ∃ s : State ℕ, Run (Guarded Undisturbed Step) {} overlappingCalls s ∧
      (s.callers 0).worker = .running ∧ (s.callers 1).phase = .waiting :=
    ⟨_, .cons ⟨trivial, .call rfl⟩ (.cons ⟨trivial, .call rfl⟩
      (.cons ⟨trivial, .workerStart rfl⟩ .nil)), rfl, rfl⟩
  obtain ⟨s, rn, w, ph⟩ := rn
  exact ⟨s, rn, w, ph, mutual_exclusion rn⟩

/-- A call is cancelled while its worker runs, and a second one starts on the same path. -/
def cancelledCaller : List (Act ℕ) :=
  [.call 0 [1], .workerStart 0, .cancel 0, .resume 0, .call 1 [1], .workerStart 1]

/-- Both workers run on the path. -/
theorem cancelled_caller_overlaps :
    ∃ s : State ℕ, Run Step {} cancelledCaller s ∧ ¬ Exclusive s := by
  have rn : ∃ s : State ℕ, Run Step {} cancelledCaller s ∧
      (s.callers 0).worker = .running ∧ (s.callers 1).worker = .running ∧
      (s.callers 0).paths = [1] ∧ (s.callers 1).paths = [1] :=
    ⟨_, .cons (.call rfl) (.cons (.workerStart rfl) (.cons (.cancel (.inr rfl))
      (.cons (.returned rfl (.inr rfl)) (.cons (.call rfl) (.cons (.workerStart rfl) .nil))))),
      rfl, rfl, rfl, rfl⟩
  obtain ⟨s, rn, w, w', e, e'⟩ := rn
  refine ⟨s, rn, ?_⟩
  intro excl
  have h := excl 0 1 (by decide) w w' 1
  simp [e, e'] at h

end OpenAgentd.Patch
