import OpenAgentd.Scheduler.Engine

/-!
# Coroutines and tasks by number

What holds of the states of the scheduler whatever it does: coroutines get new numbers and tasks get new ids, and a
coroutine or an operation about a task has its id (`Numbered`). Every part of a step keeps it, and so does every step.
-/

namespace OpenAgentd.Scheduler

/-! ## Rows -/

section
variable (cron : Croniter) (now : Int) (task : ScheduledTask) (error : Option String)

/-- Planning keeps id, count and limit. -/
lemma reschedule_same : (task.reschedule cron now).id = task.id ∧ (task.reschedule cron now).runCount = task.runCount ∧
    (task.reschedule cron now).maxRuns = task.maxRuns := by
  unfold ScheduledTask.reschedule
  split
  · exact ⟨rfl, rfl, rfl⟩
  · exact ⟨rfl, rfl, rfl⟩

/-- Halting keeps id, count and limit. -/
lemma halt_same : task.halt.id = task.id ∧ task.halt.runCount = task.runCount ∧ task.halt.maxRuns = task.maxRuns := by
  unfold ScheduledTask.halt
  split
  · exact ⟨rfl, rfl, rfl⟩
  · exact ⟨rfl, rfl, rfl⟩

/-- Replanning keeps id, count and limit. -/
lemma updated_same : (task.updated cron now).id = task.id ∧ (task.updated cron now).runCount = task.runCount ∧
    (task.updated cron now).maxRuns = task.maxRuns := by
  obtain ⟨i, r, m⟩ := halt_same task
  rw [← i, ← r, ← m]
  exact reschedule_same cron now task.halt

/-- Counting adds one and keeps id and limit. -/
lemma counted_same : (task.counted cron now error).id = task.id ∧
    (task.counted cron now error).runCount = task.runCount + 1 ∧
    (task.counted cron now error).maxRuns = task.maxRuns := by
  unfold ScheduledTask.counted
  dsimp only
  split
  · exact ⟨rfl, rfl, rfl⟩
  · split
    · exact ⟨rfl, rfl, rfl⟩
    · split
      · exact ⟨rfl, rfl, rfl⟩
      · split
        · exact ⟨rfl, rfl, rfl⟩
        · exact ⟨rfl, rfl, rfl⟩

end

/-! ## Coroutines -/

/-- Every coroutine is as `P` says. -/
def State.All (s : State) (P : Nat → Job → Prop) : Prop := ∀ j job, s.jobs j = some job → P j job

section
variable {s : State} {P : Nat → Job → Prop} {i j : Nat} {job job' : Job} {slug : String}

/-- The jobs after one is set. -/
lemma jobs_setJob : (s.setJob j job).jobs i = if i = j then some job else s.jobs i := Function.update_apply _ _ _ _

/-- The jobs after one more. -/
lemma jobs_createTask : (s.createTask job).jobs i = if i = s.nextJob then some job else s.jobs i :=
  Function.update_apply _ _ _ _

/-- A coroutine behind `_cancel_timer`. -/
lemma of_cancelTimer (h : (s.cancelTimer slug).jobs i = some job') :
    ∃ job, s.jobs i = some job ∧ (s.tasks slug ≠ some i ∧ job' = job ∨ s.tasks slug = some i ∧ job' = job.cancel) := by
  change (if s.tasks slug = some i then (s.jobs i).map Job.cancel else s.jobs i) = some job' at h
  split at h
  · rename_i here
    obtain ⟨job, hj, e⟩ := Option.map_eq_some_iff.mp h
    exact ⟨job, hj, .inr ⟨here, e.symm⟩⟩
  · rename_i other
    exact ⟨job', h, .inl ⟨other, rfl⟩⟩

/-- One job replaced by one that fits. -/
lemma State.All.setJob (A : s.All P) (h : P j job) : (s.setJob j job).All P := by
  intro i k hk
  rw [jobs_setJob] at hk
  split at hk
  · rename_i e
    cases hk
    exact e ▸ h
  · exact A i k hk

/-- One more job that fits. -/
lemma State.All.createTask (A : s.All P) (h : P s.nextJob job) : (s.createTask job).All P := by
  intro i k hk
  rw [jobs_createTask] at hk
  split at hk
  · rename_i e
    cases hk
    exact e ▸ h
  · exact A i k hk

/-- A timer that fits when cancelled. -/
lemma State.All.cancelTimer (A : s.All P)
    (h : ∀ i job, s.tasks slug = some i → s.jobs i = some job → P i job.cancel) : (s.cancelTimer slug).All P := by
  intro i k hk
  obtain ⟨job, hj, ⟨-, rfl⟩ | ⟨here, rfl⟩⟩ := of_cancelTimer hk
  · exact A i k hj
  · exact h i job here hj

end

/-! ## Numbers -/

/-- The tasks of a coroutine have ids below `n`. -/
def Job.Below (n : Nat) (job : Job) : Prop :=
  job.task.id < n ∧ ∀ task, job.pc = .reloaded (some task) → task.id < n

/-- A job that carries no reloaded row. -/
lemma Job.Below.of_plain {n : Nat} {job : Job} (lt : job.task.id < n) (plain : ∀ t, job.pc ≠ .reloaded (some t)) :
    job.Below n :=
  ⟨lt, fun t e => absurd e (plain t)⟩

/-- The tasks of an operation have its id. -/
def Op.Same (o : Op) : Prop :=
  ∀ task, o.row = some task ∨ o.restart = some task ∨ o.spawn = some task → task.id = o.id

/-- The numbers of the coroutines and the ids of the tasks are used once. -/
structure Numbered (s : State) : Prop where
  jobs : ∀ j, s.nextJob ≤ j → s.jobs j = none
  rows : ∀ i row, s.rows i = some row → row.id = i ∧ i < s.nextId
  below : s.All fun _ job => job.Below s.nextId
  op : ∀ o, s.op = some o → o.id < s.nextId ∧ o.Same
  adding : ∀ id ∈ s.adding, id < s.nextId
  refreshed : ∀ task ∈ s.refreshed, task.id < s.nextId
  unsent : ∀ id, s.nextId ≤ id → s.sent id = 0

section
variable {cron : Croniter} {s s' : State} {e : Event} {i j id : Nat} {job job' : Job} {task row : ScheduledTask}
  {slug : String} {kind : JobKind} {pc : Pc} {o : Op} {entry : Option Nat} {error : Option String}
  {fresh : Option ScheduledTask} {r : State.Resolved} {d : State.Dispatched}

namespace Numbered

/-- Every job is below the next number. -/
lemma lt (N : Numbered s) (h : s.jobs j = some job) : j < s.nextJob := by
  by_contra le
  rw [N.jobs j (Nat.le_of_not_lt le)] at h
  cases h

/-- A job keeps its number. -/
lemma setJob (N : Numbered s) (h : s.jobs j = some job) (b : job'.Below s.nextId) : Numbered (s.setJob j job') where
  jobs := by
    intro i le
    have ne : i ≠ j := fun e => absurd (N.lt h) (Nat.not_lt.mpr (e ▸ le))
    rw [jobs_setJob, if_neg ne]
    exact N.jobs i le
  rows := N.rows
  below := N.below.setJob b
  op := N.op
  adding := N.adding
  refreshed := N.refreshed
  unsent := N.unsent

/-- A new job takes the next number. -/
lemma createTask (N : Numbered s) (b : job.Below s.nextId) : Numbered (s.createTask job) where
  jobs := by
    intro i le
    have lt : s.nextJob < i := le
    rw [jobs_createTask, if_neg lt.ne']
    exact N.jobs i lt.le
  rows := N.rows
  below := N.below.createTask b
  op := N.op
  adding := N.adding
  refreshed := N.refreshed
  unsent := N.unsent

/-- Cancelling a timer numbers nothing. -/
lemma cancelTimer (N : Numbered s) (slug : String) : Numbered (s.cancelTimer slug) where
  jobs := by
    intro i le
    show (if s.tasks slug = some i then (s.jobs i).map Job.cancel else s.jobs i) = none
    rw [N.jobs i le]
    exact ite_self _
  rows := N.rows
  below := N.below.cancelTimer fun i job _ h => N.below i job h
  op := N.op
  adding := N.adding
  refreshed := N.refreshed
  unsent := N.unsent

/-- A row with a number given out. -/
lemma setRow (N : Numbered s) (lt : row.id < s.nextId) : Numbered (s.setRow row) :=
  { N with
    rows := by
      intro i k hk
      change Function.update s.rows row.id (some row) i = some k at hk
      rw [Function.update_apply] at hk
      split at hk
      · rename_i e
        cases hk
        exact ⟨e.symm, e ▸ lt⟩
      · exact N.rows i k hk }

/-- The lock's holder names a given number. -/
lemma setOp (N : Numbered s) {op : Option Op} (h : ∀ o, op = some o → o.id < s.nextId ∧ o.Same) :
    Numbered (s.setOp op) := { N with op := h }

/-- Giving the lock back numbers nothing. -/
lemma unlock (N : Numbered s) : Numbered (s.setOp none) := by
  refine N.setOp fun o h => ?_
  cases h

/-- The table of timers numbers nothing. -/
lemma register (N : Numbered s) : Numbered (s.register slug entry) := { N with }

/-- Invalidating a firing numbers nothing. -/
lemma invalidateFire (N : Numbered s) : Numbered (s.invalidateFire id) := { N with }

/-- A claim numbers nothing. -/
lemma claim (N : Numbered s) : Numbered (s.claim id) := { N with }

/-- A release numbers nothing. -/
lemma release (N : Numbered s) : Numbered (s.release id) := { N with }

/-- A halt numbers nothing. -/
lemma halt (N : Numbered s) : Numbered (s.halt id slug) := N.invalidateFire.cancelTimer slug

/-- A timer of a numbered task. -/
lemma startTimer (N : Numbered s) (lt : task.id < s.nextId) : Numbered (s.startTimer task) :=
  ((N.cancelTimer _).createTask (.of_plain lt (by simp))).register

/-- A firing of a numbered task. -/
lemma spawnFire (N : Numbered s) (lt : task.id < s.nextId) : Numbered (s.spawnFire kind task) :=
  have N' : Numbered (s.createTask { kind, task, version := s.fireVersions task.id }) :=
    N.createTask (.of_plain lt (by simp))
  { N' with }

/-- A prompt of a numbered task. -/
lemma send (N : Numbered s) (lt : id < s.nextId) : Numbered (s.send id) :=
  { N with
    unsent := by
      intro i le
      have ne : i ≠ id := fun e => absurd lt (Nat.not_lt.mpr (e ▸ le))
      show Function.update s.sent id _ i = 0
      rw [Function.update_of_ne ne]
      exact N.unsent i le }

/-- The end of a firing carries no row. -/
lemma endFire (N : Numbered s) (h : s.jobs j = some job) (plain : ∀ t, pc ≠ .reloaded (some t)) :
    Numbered (s.endFire j job pc) :=
  release (N.setJob h (.of_plain (N.below j job h).1 plain))

/-- Behind a firing no row is carried. -/
lemma plain_afterFire (t : ScheduledTask) : State.afterFire kind ≠ .reloaded (some t) := by
  cases kind with
  | _ => exact nofun

/-- The entry of a firing numbers nothing. -/
lemma fireTask (N : Numbered s) (h : s.jobs j = some job) (lt : job'.task.id < s.nextId) :
    Numbered (s.fireTask j job') := by
  unfold State.fireTask
  split
  · exact N.setJob h (.of_plain lt plain_afterFire)
  · exact claim (N.setJob h (.of_plain lt (by simp)))

/-- Leaving the loop numbers nothing. -/
lemma leaveLoop (N : Numbered s) (h : s.jobs j = some job) (lt : job'.task.id < s.nextId) :
    Numbered (s.leaveLoop j job') := register (N.setJob h (.of_plain lt (by simp)))

/-- The head of the loop numbers nothing. -/
lemma timerLoop (N : Numbered s) (h : s.jobs j = some job) (lt : job'.task.id < s.nextId) :
    Numbered (s.timerLoop j job' cron) := by
  unfold State.timerLoop
  split
  · exact N.setJob h (.of_plain lt (by simp))
  · exact N.leaveLoop h lt
  · split
    · exact N.setJob h (.of_plain lt (by simp))
    · exact N.fireTask h lt

/-- The start of an update numbers nothing. -/
lemma beginUpdate (N : Numbered s) : Numbered (s.beginUpdate row task) := by
  unfold State.beginUpdate
  split
  · exact N.halt
  · exact N.halt.halt

/-- A change of a row names that row. -/
lemma rowOp_same : (State.rowOp row).Same := by
  intro t h
  have e : row = t := by
    unfold State.rowOp at h
    split at h
    · simpa using h
    · simpa using h
  rw [← e]
  rfl

/-- A restart with a numbered row. -/
lemma restart (N : Numbered s) (h : ∀ t, fresh = some t → t.id < s.nextId) : Numbered (s.restart fresh) := by
  cases fresh with
  | none => exact N
  | some t => exact N.startTimer (h t rfl)

/-- A firing spawned for a numbered row. -/
lemma spawn (N : Numbered s) (h : ∀ t, fresh = some t → t.id < s.nextId) : Numbered (s.spawn fresh) := by
  cases fresh with
  | none => exact N
  | some t => exact N.spawnFire (h t rfl)

/-- Every step keeps the numbers. -/
theorem step (N : Numbered s) (st : Step cron s e s') : Numbered s' := by
  cases st with
  | tick => exact { N with }
  | begin w _ =>
    have lt := (N.below _ _ w.1).1
    unfold State.begin
    split
    · exact N.timerLoop w.1 lt
    · exact N.fireTask w.1 lt
  | wake w _ _ => exact N.fireTask w.1 (N.below _ _ w.1).1
  | @mark j job w _ _ =>
    have lt := (N.below _ _ w.1).1
    unfold State.markRunning
    split
    · exact N.endFire w.1 plain_afterFire
    · rename_i row found
      split
      · exact N.endFire w.1 plain_afterFire
      · have same := (N.rows _ _ found).1
        have N' : Numbered (s.setRow { row with status := .running }) := N.setRow (by rw [same]; exact lt)
        refine N'.setJob w.1 ?_
        exact .of_plain lt (by simp)
  | resolve w _ =>
    have lt := (N.below _ _ w.1).1
    unfold State.resolved
    split
    · exact N.endFire w.1 plain_afterFire
    · split
      · exact N.setJob w.1 (.of_plain lt (by simp))
      · split
        · exact N.setJob w.1 (.of_plain lt (by simp))
        · exact N.setJob w.1 (.of_plain lt (by simp))
  | @dispatch j job d w _ =>
    have lt := (N.below _ _ w.1).1
    cases d with
    | started => exact (N.send lt).setJob w.1 (.of_plain lt (by simp))
    | returned => exact N.setJob w.1 (.of_plain lt (by simp))
    | raised error => exact N.setJob w.1 (.of_plain lt (by simp))
    | questionPending => exact N.setJob w.1 (.of_plain lt (by simp))
  | endDispatch w _ => exact N.setJob w.1 (.of_plain (N.below _ _ w.1).1 (by simp))
  | reschedule w _ _ =>
    have lt := (N.below _ _ w.1).1
    unfold State.rescheduleWithoutFiring
    split
    · exact N.endFire w.1 plain_afterFire
    · rename_i row found
      split
      · split
        · have same := (N.rows _ _ found).1
          have N' : Numbered (s.setRow (row.skipped cron s.now)) := N.setRow (by rw [← same] at lt; exact lt)
          exact N'.endFire w.1 plain_afterFire
        · split
          · exact N.endFire w.1 (by simp)
          · exact N.setJob w.1 (.of_plain lt (by simp))
      · exact N.endFire w.1 plain_afterFire
  | @count j job b error w _ _ =>
    have lt := (N.below _ _ w.1).1
    unfold State.countRun
    split
    · exact N.endFire w.1 plain_afterFire
    · rename_i row found
      split
      · exact N.endFire w.1 (by simp)
      · have same := (N.rows _ _ found).1
        have N' : Numbered (s.setRow (row.counted cron s.now error)) :=
          N.setRow (by rw [(counted_same _ _ _ _).1, same]; exact lt)
        exact N'.endFire w.1 plain_afterFire
  | reload w _ found _ =>
    have lt := (N.below _ _ w.1).1
    refine N.setJob w.1 ⟨lt, fun t e => ?_⟩
    cases e
    exact (N.rows _ _ found).2
  | reloadNone w _ _ => exact N.setJob w.1 (.of_plain (N.below _ _ w.1).1 (by simp))
  | @go j job fresh w pc =>
    have lt := (N.below _ _ w.1).1
    have ended : Numbered (s.setJob j { job with pc := .finished }) := N.setJob w.1 (.of_plain lt (by simp))
    unfold State.reloaded
    split
    · exact N.leaveLoop w.1 lt
    · rename_i task _
      have lt' := (N.below _ _ w.1).2 task pc
      split
      · exact N.leaveLoop w.1 lt'
      · exact N.timerLoop w.1 lt'
    · exact ended
    · rename_i task _
      split
      · exact ended.startTimer ((N.below _ _ w.1).2 task pc)
      · exact ended
  | @thrown j job found _ _ =>
    have lt := (N.below _ _ found).1
    unfold State.thrown
    split
    · exact release (N.setJob found (.of_plain lt (by simp)))
    · exact N.setJob found (.of_plain lt (by simp))
    · exact N.setJob found (.of_plain lt (by simp))
  | markCancelled w _ _ =>
    have lt := (N.below _ _ w.1).1
    unfold State.markFireCancelled
    split
    · exact N.endFire w.1 (by simp)
    · rename_i row found
      split
      · have same := (N.rows _ _ found).1
        have N' : Numbered (s.setRow (row.interrupted cron s.now)) := N.setRow (by rw [← same] at lt; exact lt)
        exact N'.endFire w.1 (by simp)
      · exact N.endFire w.1 (by simp)
  | @discard j job found _ _ =>
    refine { N with jobs := fun i le => ?_, below := fun i k hk => ?_ }
    · show Function.update s.jobs j none i = none
      rw [Function.update_apply, N.jobs i le]
      exact ite_self _
    · change Function.update s.jobs j none i = some k at hk
      rw [Function.update_apply] at hk
      split at hk
      · cases hk
      · exact N.below i k hk
  | @add task id _ _ =>
    have up : ∀ {i}, i < s.nextId → i < s.nextId + 1 := Nat.lt_succ_of_lt
    refine ⟨N.jobs, fun i row hi => ?_, fun i k hk => ?_, fun o ho => ⟨up (N.op o ho).1, (N.op o ho).2⟩,
      fun i hi => ?_, fun t ht => up (N.refreshed t ht), fun i le => N.unsent i (Nat.le_of_succ_le le)⟩
    · change Function.update s.rows s.nextId _ i = some row at hi
      rw [Function.update_apply] at hi
      split at hi
      · rename_i here
        cases hi
        rw [(reschedule_same _ _ _).1, id, here]
        exact ⟨rfl, Nat.lt_succ_self _⟩
      · exact ⟨(N.rows i row hi).1, up (N.rows i row hi).2⟩
    · obtain ⟨lt, fresh⟩ := N.below i k hk
      exact ⟨up lt, fun t e => up (fresh t e)⟩
    · cases List.mem_cons.mp hi with
      | inl e => exact e ▸ Nat.lt_succ_self _
      | inr old => exact up (N.adding i old)
  | refresh mem found =>
    refine { N with adding := fun i hi => N.adding i (List.mem_of_mem_erase hi), refreshed := fun t ht => ?_ }
    cases List.mem_cons.mp ht with
    | inl e =>
      obtain ⟨same, lt⟩ := N.rows _ _ found
      rw [e, same]
      exact lt
    | inr old => exact N.refreshed t old
  | refreshGone _ _ => exact { N with adding := fun i hi => N.adding i (List.mem_of_mem_erase hi) }
  | @startAdded task mem =>
    have N' : Numbered { s with refreshed := s.refreshed.erase task } :=
      { N with refreshed := fun t ht => N.refreshed t (List.mem_of_mem_erase ht) }
    unfold State.startAdded
    split
    · exact N'.startTimer (N.refreshed task mem)
    · exact N'
  | pause _ found =>
    refine N.halt.setOp fun o ho => ?_
    cases ho
    exact ⟨(N.rows _ _ found).2, by simp [Op.Same, ScheduledTask.paused]⟩
  | remove _ found =>
    refine N.halt.setOp fun o ho => ?_
    cases ho
    exact ⟨(N.rows _ _ found).2, by simp [Op.Same]⟩
  | notFound _ _ => exact N.cancelTimer _
  | @resume row _ found _ =>
    refine N.invalidateFire.setOp fun o ho => ?_
    cases ho
    have same : (row.resumed cron s.now).id = row.id := (reschedule_same _ _ _).1
    exact ⟨same.symm ▸ (N.rows _ _ found).2, rowOp_same⟩
  | resumeRefused _ _ _ _ => exact N.invalidateFire
  | @trigger row _ found _ =>
    refine N.setOp fun o ho => ?_
    cases ho
    have lt := (N.rows _ _ found).2
    unfold State.triggerOp
    split
    · exact ⟨lt, by simp [Op.Same, ScheduledTask.complete]⟩
    · split
      · exact ⟨lt, by simp [Op.Same, ScheduledTask.triggered]⟩
      · exact ⟨lt, by simp [Op.Same]⟩
  | @update row body _ found _ =>
    refine N.beginUpdate.setOp fun o ho => ?_
    cases ho
    have same : ((body.apply row).updated cron s.now).id = row.id := (updated_same _ _ _).1
    refine ⟨?_, rowOp_same⟩
    have nextId : (s.beginUpdate row (body.apply row)).nextId = s.nextId := by
      unfold State.beginUpdate
      split
      · rfl
      · rfl
    show ((body.apply row).updated cron s.now).id < _
    rw [same, nextId]
    exact (N.rows _ _ found).2
  | updateRefused _ _ _ _ => exact N.beginUpdate
  | @commit o ho _ _ =>
    obtain ⟨lt, same⟩ := N.op o ho
    refine { N with rows := fun i row hi => ?_, op := fun o' ho' => ?_ }
    rotate_left
    · cases ho'
      exact ⟨lt, same⟩
    · change Function.update s.rows o.id o.row i = some row at hi
      rw [Function.update_apply] at hi
      split at hi
      · rename_i here
        have e := same row (.inl hi)
        exact ⟨e.trans here.symm, here ▸ lt⟩
      · exact N.rows i row hi
  | commitTaken _ _ _ _ => exact N.unlock
  | @finish o ho _ =>
    obtain ⟨lt, same⟩ := N.op o ho
    have N' : Numbered (s.setOp none) := N.unlock
    have N₁ : Numbered ((s.setOp none).restart o.restart) := by
      refine N'.restart fun t ht => ?_
      rw [same t (.inr (.inl ht))]
      exact lt
    have nextId : ((s.setOp none).restart o.restart).nextId = s.nextId := by
      cases o.restart with
      | none => rfl
      | some _ => rfl
    unfold State.finish
    refine N₁.spawn fun t ht => ?_
    rw [nextId, same t (.inr (.inr ht))]
    exact lt
  | stop =>
    refine { N with jobs := fun i le => ?_, below := fun i k hk => ?_ }
    · show Option.map _ (s.jobs i) = none
      rw [N.jobs i le]
      rfl
    · obtain ⟨job, hj, rfl⟩ := Option.map_eq_some_iff.mp hk
      have b := N.below i job hj
      split
      · exact b
      · exact b

end Numbered

end

end OpenAgentd.Scheduler
