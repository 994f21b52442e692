import OpenAgentd.Scheduler.Numbered

/-!
# One firing at a time

A coroutine between the beginning and the end of `_fire_task` has its task among `_firing_ids`, and no other
coroutine fires that task (`Exclusive`).
-/

namespace OpenAgentd.Scheduler

/-- The place of a firing. -/
def Pc.isFiring : Pc → Bool
  | .firing _ => true
  | _ => false

/-- The firings of a task exclude each other. -/
structure Exclusive (s : State) : Prop where
  claims : s.All fun _ job => job.pc.isFiring = true → job.task.id ∈ s.firingIds
  alone : ∀ i j job job', s.jobs i = some job → s.jobs j = some job' → job.pc.isFiring = true →
    job'.pc.isFiring = true → job.task.id = job'.task.id → i = j

/-- Behind a firing the job is not firing. -/
lemma isFiring_afterFire {kind : JobKind} : (State.afterFire kind).isFiring = false := by
  cases kind with
  | _ => rfl

section
variable {cron : Croniter} {s s' : State} {e : Event} {i j id : Nat} {job job' : Job} {task row : ScheduledTask}
  {slug : String} {kind : JobKind} {pc : Pc} {o : Op} {entry : Option Nat} {error : Option String}
  {fresh : Option ScheduledTask}

namespace Exclusive

/-- Where every firing behind a step was one before it, and no claim is given up, nothing changes. -/
lemma of_old (X : Exclusive s) (sub : s.firingIds ⊆ s'.firingIds)
    (old : ∀ i k, s'.jobs i = some k → k.pc.isFiring = true →
      ∃ k', s.jobs i = some k' ∧ k'.pc.isFiring = true ∧ k.task.id = k'.task.id) : Exclusive s' := by
  refine ⟨fun i k hk f => ?_, fun a b k k' hk hk' f f' same => ?_⟩
  · obtain ⟨l, hl, fl, e⟩ := old i k hk f
    rw [e]
    exact sub (X.claims i l hl fl)
  · obtain ⟨l, hl, fl, e⟩ := old a k hk f
    obtain ⟨l', hl', fl', e'⟩ := old b k' hk' f'
    exact X.alone a b l l' hl hl' fl fl' (e ▸ e' ▸ same)

/-- A coroutine goes on and does not begin to fire. -/
lemma setJob (X : Exclusive s) (h : s.jobs j = some job)
    (firing : job'.pc.isFiring = true → job.pc.isFiring = true ∧ job'.task.id = job.task.id) :
    Exclusive (s.setJob j job') := by
  refine X.of_old (Finset.Subset.refl _) fun i k hk f => ?_
  rw [jobs_setJob] at hk
  split at hk
  · rename_i e
    cases hk
    obtain ⟨f', same⟩ := firing f
    exact ⟨job, e ▸ h, f', same⟩
  · exact ⟨k, hk, f, rfl⟩

/-- A coroutine goes on without firing. -/
lemma idle (X : Exclusive s) (h : s.jobs j = some job) (after : job'.pc.isFiring = false) :
    Exclusive (s.setJob j job') := by
  refine X.setJob h fun f => ?_
  rw [after] at f
  cases f

/-- An idle job claims nothing. -/
lemma createTask (X : Exclusive s) (idle : job.pc.isFiring = false) : Exclusive (s.createTask job) := by
  refine X.of_old (Finset.Subset.refl _) fun i k hk f => ?_
  rw [jobs_createTask] at hk
  split at hk
  · cases hk
    rw [idle] at f
    cases f
  · exact ⟨k, hk, f, rfl⟩

/-- Cancelling a timer claims nothing. -/
lemma cancelTimer (X : Exclusive s) : Exclusive (s.cancelTimer slug) := by
  refine X.of_old (Finset.Subset.refl _) fun i k hk f => ?_
  obtain ⟨l, hl, ⟨-, rfl⟩ | ⟨-, rfl⟩⟩ := of_cancelTimer hk
  · exact ⟨k, hl, f, rfl⟩
  · exact ⟨l, hl, f, rfl⟩

/-- Rows claim nothing. -/
lemma setRow (X : Exclusive s) : Exclusive (s.setRow row) := { X with }

/-- The lock's holder claims nothing. -/
lemma setOp (X : Exclusive s) {op : Option Op} : Exclusive (s.setOp op) := { X with }

/-- The table of timers claims nothing. -/
lemma register (X : Exclusive s) : Exclusive (s.register slug entry) := { X with }

/-- Invalidating a firing claims nothing. -/
lemma invalidateFire (X : Exclusive s) : Exclusive (s.invalidateFire id) := { X with }

/-- A prompt claims nothing. -/
lemma send (X : Exclusive s) : Exclusive (s.send id) := { X with }

/-- A coroutine takes a task that no other coroutine fires. -/
lemma claim (X : Exclusive s) (free : job'.task.id ∉ s.firingIds) :
    Exclusive ((s.setJob j job').claim job'.task.id) := by
  have other : ∀ {i k}, ((s.setJob j job').claim job'.task.id).jobs i = some k →
      i = j ∧ k = job' ∨ i ≠ j ∧ s.jobs i = some k := by
    intro i k hk
    change (s.setJob j job').jobs i = some k at hk
    rw [jobs_setJob] at hk
    split at hk
    · rename_i e
      cases hk
      exact .inl ⟨e, rfl⟩
    · rename_i ne
      exact .inr ⟨ne, hk⟩
  refine ⟨fun i k hk f => ?_, fun a b k k' hk hk' f f' same => ?_⟩
  · rcases other hk with ⟨-, rfl⟩ | ⟨-, hk⟩
    · exact Finset.mem_insert_self _ _
    · exact Finset.mem_insert_of_mem (X.claims i k hk f)
  · rcases other hk with ⟨rfl, rfl⟩ | ⟨ne, here⟩
    · rcases other hk' with ⟨rfl, -⟩ | ⟨-, here'⟩
      · rfl
      · rw [same] at free
        exact absurd (X.claims b k' here' f') free
    · rcases other hk' with ⟨rfl, rfl⟩ | ⟨-, here'⟩
      · rw [← same] at free
        exact absurd (X.claims a k here f) free
      · exact X.alone a b k k' here here' f f' same

/-- A coroutine begins to fire, or finds that it shall not. -/
lemma fireTask (X : Exclusive s) (h : s.jobs j = some job) : Exclusive (s.fireTask j job') := by
  unfold State.fireTask
  split
  · exact X.idle h isFiring_afterFire
  · rename_i free
    rw [not_or] at free
    exact claim X free.2

/-- A firing ends. -/
lemma endFire (X : Exclusive s) (h : s.jobs j = some job) (firing : job.pc.isFiring = true)
    (idle : pc.isFiring = false) (same : job'.task.id = job.task.id) : Exclusive (s.endFire j job' pc) := by
  have other : ∀ {i k}, (s.endFire j job' pc).jobs i = some k → k.pc.isFiring = true → i ≠ j ∧ s.jobs i = some k := by
    intro i k hk f
    change (s.setJob j _).jobs i = some k at hk
    rw [jobs_setJob] at hk
    split at hk
    · cases hk
      rw [show ({ job' with pc } : Job).pc = pc from rfl, idle] at f
      cases f
    · rename_i ne
      exact ⟨ne, hk⟩
  refine ⟨fun i k hk f => ?_, fun a b k k' hk hk' f f' e => ?_⟩
  · obtain ⟨ne, hk⟩ := other hk f
    refine Finset.mem_erase.mpr ⟨fun e => ?_, X.claims i k hk f⟩
    exact ne (X.alone i j k job hk h f firing (e.trans same))
  · exact X.alone a b k k' (other hk f).2 (other hk' f').2 f f' e

/-- The firing that goes on to `afterFire` ends. -/
lemma leave (X : Exclusive s) (h : s.jobs j = some job) (firing : job.pc.isFiring = true) :
    Exclusive (s.endFire j job (State.afterFire kind)) := X.endFire h firing isFiring_afterFire rfl

/-- Leaving the loop claims nothing. -/
lemma leaveLoop (X : Exclusive s) (h : s.jobs j = some job) : Exclusive (s.leaveLoop j job') :=
  register (X.idle h rfl)

/-- The head of the loop claims nothing. -/
lemma timerLoop (X : Exclusive s) (h : s.jobs j = some job) : Exclusive (s.timerLoop j job' cron) := by
  unfold State.timerLoop
  split
  · exact X.idle h rfl
  · exact X.leaveLoop h
  · split
    · exact X.idle h rfl
    · exact X.fireTask h

/-- A started timer claims nothing yet. -/
lemma startTimer (X : Exclusive s) : Exclusive (s.startTimer task) := register (createTask X.cancelTimer rfl)

/-- A manual firing claims nothing yet. -/
lemma spawnFire (X : Exclusive s) : Exclusive (s.spawnFire kind task) :=
  have X' : Exclusive (s.createTask { kind, task, version := s.fireVersions task.id }) := X.createTask rfl
  { X' with }

/-- A halt claims nothing. -/
lemma halt (X : Exclusive s) : Exclusive (s.halt id slug) := cancelTimer X.invalidateFire

/-- The start of an update claims nothing. -/
lemma beginUpdate (X : Exclusive s) : Exclusive (s.beginUpdate row task) := by
  unfold State.beginUpdate
  split
  · exact X.halt
  · exact X.halt.halt

/-- A restarted timer claims nothing yet. -/
lemma restart (X : Exclusive s) : Exclusive (s.restart fresh) := by
  cases fresh with
  | none => exact X
  | some t => exact X.startTimer

/-- A spawned firing claims nothing yet. -/
lemma spawn (X : Exclusive s) : Exclusive (s.spawn fresh) := by
  cases fresh with
  | none => exact X
  | some t => exact X.spawnFire

/-- Every step keeps the firings of a task apart. -/
theorem step (X : Exclusive s) (st : Step cron s e s') : Exclusive s' := by
  have firing : ∀ {job : Job} {phase}, job.pc = .firing phase → job.pc.isFiring = true := by
    intro job phase pc
    rw [pc]
    rfl
  cases st with
  | tick => exact { X with }
  | begin w _ =>
    unfold State.begin
    split
    · exact X.timerLoop w.1
    · exact X.fireTask w.1
  | wake w _ _ => exact X.fireTask w.1
  | mark w pc _ =>
    unfold State.markRunning
    split
    · exact X.leave w.1 (firing pc)
    · split
      · exact X.leave w.1 (firing pc)
      · exact X.setRow.setJob w.1 fun _ => ⟨firing pc, rfl⟩
  | resolve w pc =>
    unfold State.resolved
    split
    · exact X.leave w.1 (firing pc)
    · split
      · exact X.setJob w.1 fun _ => ⟨firing pc, rfl⟩
      · split
        · exact X.setJob w.1 fun _ => ⟨firing pc, rfl⟩
        · exact X.setJob w.1 fun _ => ⟨firing pc, rfl⟩
  | @dispatch _ _ r w pc =>
    cases r with
    | started => exact X.send.setJob w.1 fun _ => ⟨firing pc, rfl⟩
    | _ => exact X.setJob w.1 fun _ => ⟨firing pc, rfl⟩
  | endDispatch w pc => exact X.setJob w.1 fun _ => ⟨firing pc, rfl⟩
  | reschedule w pc _ =>
    unfold State.rescheduleWithoutFiring
    split
    · exact X.leave w.1 (firing pc)
    · split
      · split
        · exact X.setRow.leave w.1 (firing pc)
        · split
          · exact X.endFire w.1 (firing pc) rfl rfl
          · exact X.setJob w.1 fun _ => ⟨firing pc, rfl⟩
      · exact X.leave w.1 (firing pc)
  | count w pc _ =>
    unfold State.countRun
    split
    · exact X.leave w.1 (firing pc)
    · split
      · exact X.endFire w.1 (firing pc) rfl rfl
      · exact X.setRow.leave w.1 (firing pc)
  | reload w _ _ _ => exact X.idle w.1 rfl
  | reloadNone w _ _ => exact X.idle w.1 rfl
  | go w _ =>
    unfold State.reloaded
    split
    · exact X.leaveLoop w.1
    · split
      · exact X.leaveLoop w.1
      · exact X.timerLoop w.1
    · exact X.idle w.1 rfl
    · split
      · exact startTimer (X.idle w.1 rfl)
      · exact X.idle w.1 rfl
  | thrown found _ _ =>
    unfold State.thrown
    split
    · rename_i pc
      exact X.endFire found (firing pc) rfl rfl
    · rename_i pc
      exact X.setJob found fun _ => ⟨firing pc, rfl⟩
    · exact X.idle found rfl
  | markCancelled w pc _ =>
    unfold State.markFireCancelled
    split
    · exact X.endFire w.1 (firing pc) rfl rfl
    · split
      · exact X.setRow.endFire w.1 (firing pc) rfl rfl
      · exact X.endFire w.1 (firing pc) rfl rfl
  | @discard j job _ _ _ =>
    refine X.of_old (Finset.Subset.refl _) fun i k hk f => ⟨k, ?_, f, rfl⟩
    change Function.update s.jobs j none i = some k at hk
    rw [Function.update_apply] at hk
    split at hk
    · cases hk
    · exact hk
  | add _ _ _ => exact { X with }
  | refresh _ _ => exact { X with }
  | refreshGone _ _ => exact { X with }
  | @startAdded task _ =>
    have X' : Exclusive { s with refreshed := s.refreshed.erase task } := { X with }
    unfold State.startAdded
    split
    · exact X'.startTimer
    · exact X'
  | pause _ _ => exact X.halt.setOp
  | remove _ _ => exact X.halt.setOp
  | notFound _ _ => exact X.cancelTimer
  | resume _ _ _ => exact X.invalidateFire.setOp
  | resumeRefused _ _ _ _ => exact X.invalidateFire
  | trigger _ _ _ => exact X.setOp
  | update _ _ _ => exact X.beginUpdate.setOp
  | updateRefused _ _ _ _ => exact X.beginUpdate
  | commit _ _ _ => exact { X with }
  | commitTaken _ _ _ _ => exact X.setOp
  | finish _ _ => exact X.setOp.restart.spawn
  | stop =>
    refine X.of_old (Finset.Subset.refl _) fun i k hk f => ?_
    obtain ⟨l, hl, rfl⟩ := Option.map_eq_some_iff.mp hk
    refine ⟨l, hl, ?_⟩
    split at f
    · rename_i cancels
      rw [if_pos cancels]
      exact ⟨f, rfl⟩
    · rename_i other
      rw [if_neg other]
      exact ⟨f, rfl⟩

end Exclusive

end

end OpenAgentd.Scheduler
