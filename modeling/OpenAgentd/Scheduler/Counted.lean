import OpenAgentd.Lib.Run
import OpenAgentd.Scheduler.Exclusive

/-!
# Every prompt is counted

A firing that has started a turn is counted when its row is written at the end. What is owed in between is at most
one prompt for each task (`Counting`), as the firings of a task exclude each other. An exception that reaches a
firing in between takes the count away: the timer in which it runs is cancelled by an operation, or everything is by
`stop`, or `next_fire` raises behind the count. In a run in which no exception falls there every prompt is counted
(`sent_counted`).
-/

namespace OpenAgentd.Scheduler
open OpenAgentd.Lib

/-- A turn has been started and is not counted. -/
def Pc.owes : Pc → Bool
  | .firing .sent => true
  | .firing (.counting sent _) => sent
  | _ => false

/-- A firing that owes a count is under way. -/
lemma Pc.isFiring_of_owes {pc : Pc} (h : pc.owes = true) : pc.isFiring = true := by
  unfold Pc.owes at h
  split at h
  · rfl
  · rfl
  · cases h

/-- A prompt of the task is not counted. -/
def State.Owes (s : State) (id : Nat) : Prop := ∃ j job, s.jobs j = some job ∧ job.task.id = id ∧ job.pc.owes = true

/-- What is sent is counted or owed. -/
structure Counting (s : State) : Prop extends Exclusive s where
  kept : s.All fun _ job => job.pc.owes = true → job.cancelled = false
  counted : ∀ id row, s.rows id = some row →
    s.sent id ≤ row.runCount ∨ s.sent id ≤ row.runCount + 1 ∧ s.Owes id
  op : ∀ o row, s.op = some o → o.row = some row → ∃ old, s.rows o.id = some old ∧ old.runCount ≤ row.runCount

section
variable {cron : Croniter} {s s' : State} {e : Event} {i j id : Nat} {job job' : Job} {task row : ScheduledTask}
  {slug : String} {kind : JobKind} {pc : Pc} {o : Op} {entry : Option Nat} {error : Option String}
  {fresh : Option ScheduledTask}

namespace Counting

/-- A coroutine goes on: it does not begin to fire, and what it owes it owes further. -/
lemma setJob (C : Counting s) (h : s.jobs j = some job)
    (firing : job'.pc.isFiring = true → job.pc.isFiring = true ∧ job'.task.id = job.task.id)
    (kept : job'.pc.owes = true → job'.cancelled = false)
    (owes : job.pc.owes = true → job'.pc.owes = true ∧ job'.task.id = job.task.id) : Counting (s.setJob j job') where
  toExclusive := C.toExclusive.setJob h firing
  kept := C.kept.setJob kept
  counted := by
    intro id row hr
    refine (C.counted id row hr).imp_right fun ⟨le, i, k, hk, same, due⟩ => ⟨le, ?_⟩
    cases Classical.em (i = j) with
    | inl e =>
      rw [e, h] at hk
      cases hk
      obtain ⟨due', same'⟩ := owes due
      exact ⟨j, job', by rw [jobs_setJob, if_pos rfl], same'.trans same, due'⟩
    | inr ne => exact ⟨i, k, by rw [jobs_setJob, if_neg ne, hk], same, due⟩
  op := C.op

/-- A coroutine that does not fire goes on without firing. -/
lemma idle (C : Counting s) (h : s.jobs j = some job) (before : job.pc.isFiring = false)
    (after : job'.pc.isFiring = false) : Counting (s.setJob j job') := by
  have noOwe : ∀ {pc : Pc}, pc.isFiring = false → pc.owes ≠ true := by
    intro pc no yes
    rw [Pc.isFiring_of_owes yes] at no
    cases no
  refine C.setJob h (fun f => ?_) (fun due => absurd due (noOwe after)) fun due => absurd due (noOwe before)
  rw [after] at f
  cases f

/-- An idle new job owes nothing. -/
lemma createTask (C : Counting s) (N : Numbered s) (idle : job.pc.isFiring = false) :
    Counting (s.createTask job) := by
  have old : ∀ {i k}, s.jobs i = some k → i ≠ s.nextJob := fun hk => (N.lt hk).ne
  refine ⟨C.toExclusive.createTask idle, C.kept.createTask fun due => ?_, fun id row hr => ?_, C.op⟩
  · have f := Pc.isFiring_of_owes due
    rw [idle] at f
    cases f
  · refine (C.counted id row hr).imp_right fun ⟨le, i, k, hk, same, due⟩ => ⟨le, i, k, ?_, same, due⟩
    rw [jobs_createTask, if_neg (old hk), hk]

/-- `_cancel_timer` where the timer owes nothing. -/
lemma cancelTimer (C : Counting s) (free : ∀ j job, s.tasks slug = some j → s.jobs j = some job → job.pc.owes = false) :
    Counting (s.cancelTimer slug) := by
  refine ⟨C.toExclusive.cancelTimer, C.kept.cancelTimer fun i job here h due => ?_, fun id row hr => ?_, C.op⟩
  · have no := free i job here h
    rw [show job.cancel.pc = job.pc from rfl, no] at due
    cases due
  · refine (C.counted id row hr).imp_right fun ⟨le, i, k, hk, same, due⟩ => ⟨le, i, k, ?_, same, due⟩
    show (if s.tasks slug = some i then (s.jobs i).map Job.cancel else s.jobs i) = some k
    rw [if_neg, hk]
    intro here
    rw [free i k here hk] at due
    cases due

/-- A row may only count up. -/
lemma setRow (C : Counting s) (free : s.op = none)
    (grows : ∀ old, s.rows row.id = some old → old.runCount ≤ row.runCount) (there : (s.rows row.id).isSome) :
    Counting (s.setRow row) :=
  { C with
    op := by
      intro o row h
      change s.op = some o at h
      rw [free] at h
      cases h
    counted := by
      intro id r hr
      change Function.update s.rows row.id (some row) id = some r at hr
      rw [Function.update_apply] at hr
      split at hr
      · rename_i e
        cases hr
        obtain ⟨old, found⟩ := Option.isSome_iff_exists.mp there
        rw [e]
        have le := grows old found
        refine (C.counted row.id old found).imp (fun h => h.trans le) fun h => ⟨?_, h.2⟩
        exact h.1.trans (Nat.succ_le_succ le)
      · exact C.counted id r hr }

/-- A row is written over. -/
lemma rewrite (C : Counting s) (N : Numbered s) (free : s.op = none) (found : s.rows id = some task)
    (same : row.id = task.id) (grows : task.runCount ≤ row.runCount) : Counting (s.setRow row) := by
  rw [← (N.rows _ _ found).1, ← same] at found
  refine C.setRow free (fun old h => ?_) (Option.isSome_iff_exists.mpr ⟨task, found⟩)
  cases found.symm.trans h
  exact grows

/-- A held change counts no lower than its row. -/
lemma setOp (C : Counting s) {op : Option Op} (h : ∀ o row, op = some o → o.row = some row →
    ∃ old, s.rows o.id = some old ∧ old.runCount ≤ row.runCount) : Counting (s.setOp op) := { C with op := h }

/-- Giving the lock back keeps the counts. -/
lemma unlock (C : Counting s) : Counting (s.setOp none) := by
  refine C.setOp fun o row h => ?_
  cases h

/-- The table of timers counts nothing. -/
lemma register (C : Counting s) : Counting (s.register slug entry) := { C with }

/-- Invalidating a firing counts nothing. -/
lemma invalidateFire (C : Counting s) : Counting (s.invalidateFire id) := { C with }

/-- A coroutine takes a task that no other coroutine fires. -/
lemma claim (C : Counting s) (h : s.jobs j = some job) (idle : job.pc.isFiring = false)
    (free : job'.task.id ∉ s.firingIds) (new : job'.pc.owes = false) :
    Counting ((s.setJob j job').claim job'.task.id) := by
  refine ⟨C.toExclusive.claim free, C.kept.setJob fun due => ?_, fun id row hr => ?_, C.op⟩
  · rw [new] at due
    cases due
  · refine (C.counted id row hr).imp_right fun ⟨le, i, k, hk, same, due⟩ => ⟨le, i, k, ?_, same, due⟩
    have ne : i ≠ j := by
      rintro rfl
      have f := Pc.isFiring_of_owes due
      rw [h] at hk
      cases hk
      rw [idle] at f
      cases f
    show (s.setJob j job').jobs i = some k
    rw [jobs_setJob, if_neg ne, hk]

/-- A coroutine begins to fire, or finds that it shall not. -/
lemma fireTask (C : Counting s) (h : s.jobs j = some job) (idle : job.pc.isFiring = false) :
    Counting (s.fireTask j job') := by
  unfold State.fireTask
  split
  · exact C.idle h idle isFiring_afterFire
  · rename_i free
    rw [not_or] at free
    exact claim C h idle free.2 rfl

/-- A firing ends that owes nothing, or whose prompt is counted. -/
lemma endFire (C : Counting s) (h : s.jobs j = some job) (firing : job.pc.isFiring = true) (idle : pc.isFiring = false)
    (same : job'.task.id = job.task.id)
    (paid : job.pc.owes = true → ∀ row, s.rows job.task.id = some row → s.sent job.task.id ≤ row.runCount) :
    Counting (s.endFire j job' pc) := by
  refine ⟨C.toExclusive.endFire h firing idle same, C.kept.setJob fun due => ?_, fun id row hr => ?_, C.op⟩
  · have f := Pc.isFiring_of_owes due
    rw [show ({ job' with pc } : Job).pc = pc from rfl, idle] at f
    cases f
  · rcases C.counted id row hr with le | ⟨le, i, k, hk, e, due⟩
    · exact .inl le
    · cases Classical.em (i = j) with
      | inl here =>
        rw [here, h] at hk
        cases hk
        rw [← e] at hr ⊢
        exact .inl (paid due row hr)
      | inr ne =>
        refine .inr ⟨le, i, k, ?_, e, due⟩
        show (s.setJob j _).jobs i = some k
        rw [jobs_setJob, if_neg ne, hk]

/-- A loop that ends idle counts nothing. -/
lemma leaveLoop (C : Counting s) (h : s.jobs j = some job) (idle : job.pc.isFiring = false) :
    Counting (s.leaveLoop j job') := register (C.idle h idle rfl)

/-- The head of the loop counts nothing. -/
lemma timerLoop (C : Counting s) (h : s.jobs j = some job) (idle : job.pc.isFiring = false) :
    Counting (s.timerLoop j job' cron) := by
  unfold State.timerLoop
  split
  · exact C.idle h idle rfl
  · exact C.leaveLoop h idle
  · split
    · exact C.idle h idle rfl
    · exact C.fireTask h idle

/-- A new timer may replace one that owes nothing. -/
lemma startTimer (C : Counting s) (N : Numbered s)
    (free : ∀ j job, s.tasks task.slug = some j → s.jobs j = some job → job.pc.owes = false) :
    Counting (s.startTimer task) := register (createTask (C.cancelTimer free) (N.cancelTimer _) rfl)

/-- A manual firing starts with nothing owed. -/
lemma spawnFire (C : Counting s) (N : Numbered s) : Counting (s.spawnFire kind task) :=
  have C' : Counting (s.createTask { kind, task, version := s.fireVersions task.id }) := C.createTask N rfl
  { C' with }

end Counting

end

/-! ## Cancellations -/

/-- The coroutines a step cancels. -/
def State.Cancels (s : State) (j : Nat) : Event → Prop
  | .pause row => s.tasks row.slug = some j
  | .remove row => s.tasks row.slug = some j
  | .notFound slug => s.tasks slug = some j
  | .update row body => s.tasks row.slug = some j ∨ s.tasks (body.apply row).slug = some j
  | .finish => ∃ o task, s.op = some o ∧ o.restart = some task ∧ s.tasks task.slug = some j
  | .startAdded task => task.enabled = true ∧ s.tasks task.slug = some j
  | .go i => ∃ job task, s.jobs i = some job ∧ job.kind ≠ .timer ∧ job.pc = .reloaded (some task) ∧
      task.enabled = true ∧ task.scheduleType ≠ .at ∧ s.tasks task.slug = some j
  | .stop => ∃ job, s.jobs j = some job ∧ (job.kind ≠ .timer ∨ s.tasks job.task.slug = some j)
  | _ => False

/-- The coroutine whose count a step rolls back: `next_fire` raises behind it. -/
def State.Uncounted (cron : Croniter) (s : State) (j : Nat) : Event → Prop
  | .count i => i = j ∧ ∃ job row, s.jobs i = some job ∧ s.rows job.task.id = some row ∧ row.wasDisabled = false ∧
      refused cron s.now (row.ran none) = true
  | _ => False

/-- No step cancels a firing between the start of its turn and its count, or rolls the count back. -/
def CountsFirst (cron : Croniter) (s : State) (e : Event) : Prop :=
  ∀ j job, s.Cancels j e ∨ s.Uncounted cron j e → s.jobs j = some job → job.pc.owes = false

section
variable {cron : Croniter} {s s' : State} {e : Event} {i j id n : Nat} {job job' : Job} {task row : ScheduledTask}

namespace Counting

/-- The start of an update writes no row. -/
lemma rows_beginUpdate : (s.beginUpdate row task).rows = s.rows := by
  unfold State.beginUpdate
  split
  · rfl
  · rfl

/-- An update may cancel timers that owe nothing. -/
lemma beginUpdate (C : Counting s)
    (old : ∀ j job, s.tasks row.slug = some j → s.jobs j = some job → job.pc.owes = false)
    (new : ∀ j job, s.tasks task.slug = some j → s.jobs j = some job → job.pc.owes = false) :
    Counting (s.beginUpdate row task) := by
  have halted : Counting (s.halt row.id row.slug) := cancelTimer C.invalidateFire old
  unfold State.beginUpdate
  split
  · exact cancelTimer C.invalidateFire new
  · rename_i ne
    refine cancelTimer halted.invalidateFire fun j job here hj => ?_
    have entry : s.tasks task.slug = some j := by
      change Function.update s.tasks row.slug none task.slug = some j at here
      rwa [Function.update_of_ne ne] at here
    obtain ⟨k, hk, ⟨-, rfl⟩ | ⟨-, rfl⟩⟩ := of_cancelTimer hj
    · exact new j job entry hk
    · exact new j k entry hk

/-- The firing of a task starts a turn, where none is owed. -/
lemma send (C : Counting s) (h : s.jobs j = some job) (firing : job.pc.isFiring = true)
    (free : job.pc.owes = false) (same : job'.task.id = job.task.id) (kept : job'.cancelled = false)
    (due : job'.pc.owes = true) : Counting ((s.send job.task.id).setJob j job') := by
  have settled : ¬ s.Owes job.task.id := by
    rintro ⟨i, k, hk, e, owes⟩
    rw [C.alone i j k job hk h (Pc.isFiring_of_owes owes) firing e, h] at hk
    cases hk
    rw [free] at owes
    cases owes
  have C' : Counting (s.setJob j job') :=
    C.setJob h (fun _ => ⟨firing, same⟩) (fun _ => kept) fun owes => ⟨due, same⟩
  refine ⟨⟨C'.claims, C'.alone⟩, C'.kept, fun id row hr => ?_, C.op⟩
  show Function.update s.sent job.task.id _ id ≤ _ ∨ Function.update s.sent job.task.id _ id ≤ _ ∧ _
  rw [Function.update_apply]
  split
  · rename_i e
    have le := (C.counted id row hr).resolve_right fun h => settled (e ▸ h.2)
    rw [e] at le
    exact .inr ⟨Nat.succ_le_succ le, j, job', by rw [jobs_setJob, if_pos rfl], same.trans e.symm, due⟩
  · exact C'.counted id row hr

/-- Every step keeps the account, unless it cancels what is owed or rolls its count back. -/
theorem step (C : Counting s) (N : Numbered s) (ok : CountsFirst cron s e) (st : Step cron s e s') : Counting s' := by
  have X := C.toExclusive.step st
  have cancels : ∀ j job, s.Cancels j e → s.jobs j = some job → job.pc.owes = false :=
    fun j job here => ok j job (.inl here)
  cases st with
  | tick => exact { C with }
  | @begin j job w pc =>
    have idle : job.pc.isFiring = false := by rw [pc]; rfl
    unfold State.begin
    split
    · exact C.timerLoop w.1 idle
    · exact C.fireTask w.1 idle
  | @wake j job due w pc _ => exact C.fireTask w.1 (by rw [pc]; rfl)
  | @mark j job w pc op =>
    have firing : job.pc.isFiring = true := by rw [pc]; rfl
    have free : job.pc.owes = true → False := by rw [pc]; nofun
    unfold State.markRunning
    split
    · exact C.endFire w.1 firing isFiring_afterFire rfl fun due => absurd due free
    · rename_i row found
      split
      · exact C.endFire w.1 firing isFiring_afterFire rfl fun due => absurd due free
      · have same := (N.rows _ _ found).1
        have C' : Counting (s.setRow { row with status := .running }) := C.rewrite N op found rfl le_rfl
        refine C'.setJob w.1 (fun _ => ⟨firing, rfl⟩) nofun fun due => absurd due free
  | @resolve j job r w pc =>
    have firing : job.pc.isFiring = true := by rw [pc]; rfl
    have free : job.pc.owes = true → False := by rw [pc]; nofun
    unfold State.resolved
    split
    · exact C.endFire w.1 firing isFiring_afterFire rfl fun due => absurd due free
    · split
      · exact C.setJob w.1 (fun _ => ⟨firing, rfl⟩) nofun fun due => absurd due free
      · split
        · exact C.setJob w.1 (fun _ => ⟨firing, rfl⟩) nofun fun due => absurd due free
        · exact C.setJob w.1 (fun _ => ⟨firing, rfl⟩) nofun fun due => absurd due free
  | @dispatch j job d w pc =>
    have firing : job.pc.isFiring = true := by rw [pc]; rfl
    have free : job.pc.owes = true → False := by rw [pc]; nofun
    cases d with
    | started => exact C.send w.1 firing (by rw [pc]; rfl) rfl w.2 rfl
    | returned => exact C.setJob w.1 (fun _ => ⟨firing, rfl⟩) nofun fun due => absurd due free
    | raised error => exact C.setJob w.1 (fun _ => ⟨firing, rfl⟩) nofun fun due => absurd due free
    | questionPending => exact C.setJob w.1 (fun _ => ⟨firing, rfl⟩) nofun fun due => absurd due free
  | @endDispatch j job error w pc =>
    have firing : job.pc.isFiring = true := by rw [pc]; rfl
    exact C.setJob w.1 (fun _ => ⟨firing, rfl⟩) (fun _ => w.2) fun _ => ⟨rfl, rfl⟩
  | @reschedule j job question w pc op =>
    have firing : job.pc.isFiring = true := by rw [pc]; rfl
    have free : job.pc.owes = true → False := by rw [pc]; nofun
    unfold State.rescheduleWithoutFiring
    split
    · exact C.endFire w.1 firing isFiring_afterFire rfl fun due => absurd due free
    · rename_i row found
      split
      · split
        · have C' : Counting (s.setRow (row.skipped cron s.now)) := C.rewrite N op found rfl le_rfl
          exact C'.endFire w.1 firing isFiring_afterFire rfl fun due => absurd due free
        · split
          · exact C.endFire w.1 firing rfl rfl fun due => absurd due free
          · exact C.setJob w.1 (fun _ => ⟨firing, rfl⟩) nofun fun due => absurd due free
      · exact C.endFire w.1 firing isFiring_afterFire rfl fun due => absurd due free
  | @count j job b error w pc op =>
    have firing : job.pc.isFiring = true := by rw [pc]; rfl
    unfold State.countRun
    split
    · rename_i gone
      refine C.endFire w.1 firing isFiring_afterFire rfl fun _ row found => ?_
      rw [gone] at found
      cases found
    · rename_i row found
      split
      · rename_i raises
        rw [Bool.and_eq_true, Bool.not_eq_true'] at raises
        refine C.endFire w.1 firing rfl rfl fun due => ?_
        have free := ok j job (.inr ⟨rfl, job, row, w.1, found, raises.1, raises.2⟩) w.1
        rw [due] at free
        cases free
      · obtain ⟨sameId, more, -⟩ := counted_same cron s.now row error
        have C' : Counting (s.setRow (row.counted cron s.now error)) :=
          C.rewrite N op found sameId (by rw [more]; exact Nat.le_succ _)
        refine C'.endFire w.1 firing isFiring_afterFire rfl fun _ row' found' => ?_
        -- the row that is written counts the prompt
        have e : row' = row.counted cron s.now error := by
          change Function.update s.rows _ _ job.task.id = some row' at found'
          rw [sameId, (N.rows _ _ found).1, Function.update_self] at found'
          exact (Option.some.inj found').symm
        rw [e, more]
        exact (C.counted _ row found).elim (fun le => le.trans (Nat.le_succ _)) And.left
  | @reload j job row w pc _ _ => exact C.idle w.1 (by rw [pc]; rfl) rfl
  | @reloadNone j job w pc _ => exact C.idle w.1 (by rw [pc]; rfl) rfl
  | @go j job fresh w pc =>
    have idle : job.pc.isFiring = false := by rw [pc]; rfl
    have ended : Counting (s.setJob j { job with pc := .finished }) := C.idle w.1 idle rfl
    unfold State.reloaded
    split
    · exact C.leaveLoop w.1 idle
    · split
      · exact C.leaveLoop w.1 idle
      · exact C.timerLoop w.1 idle
    · exact ended
    · rename_i task other
      split
      · rename_i restarts
        have N' : Numbered (s.setJob j { job with pc := .finished }) :=
          N.setJob w.1 (.of_plain (N.below _ _ w.1).1 (by simp))
        refine ended.startTimer N' fun i k here hk => ?_
        rw [jobs_setJob] at hk
        split at hk
        · cases hk
          rfl
        · rw [Bool.and_eq_true, decide_eq_true_eq] at restarts
          exact cancels i k ⟨job, task, w.1, other, pc, restarts.1, restarts.2, here⟩ hk
      · exact ended
  | @thrown j job found cancelled _ =>
    have free : job.pc.owes = true → False := by
      intro due
      have no := C.kept j job found due
      rw [cancelled] at no
      cases no
    unfold State.thrown
    split
    · rename_i pc
      exact C.endFire found (by rw [pc]; rfl) rfl rfl fun due => absurd due free
    · rename_i pc
      exact C.setJob found (fun _ => ⟨by rw [pc]; rfl, rfl⟩) nofun fun due => absurd due free
    · exact C.setJob found nofun nofun fun due => absurd due free
  | @markCancelled j job w pc op =>
    have firing : job.pc.isFiring = true := by rw [pc]; rfl
    have free : job.pc.owes = true → False := by rw [pc]; nofun
    unfold State.markFireCancelled
    split
    · exact C.endFire w.1 firing rfl rfl fun due => absurd due free
    · rename_i row found
      split
      · have C' : Counting (s.setRow (row.interrupted cron s.now)) := C.rewrite N op found rfl le_rfl
        exact C'.endFire w.1 firing rfl rfl fun due => absurd due free
      · exact C.endFire w.1 firing rfl rfl fun due => absurd due free
  | @discard j job found pc _ =>
    have kept : ∀ {i k}, (s.discard j job).jobs i = some k → s.jobs i = some k := by
      intro i k hk
      change Function.update s.jobs j none i = some k at hk
      rw [Function.update_apply] at hk
      split at hk
      · cases hk
      · exact hk
    refine ⟨X, fun i k hk => C.kept i k (kept hk), fun id row hr => ?_, C.op⟩
    refine (C.counted id row hr).imp_right fun ⟨le, i, k, hk, same, due⟩ => ⟨le, i, k, ?_, same, due⟩
    have ne : i ≠ j := by
      rintro rfl
      rw [found] at hk
      cases hk
      rw [pc] at due
      cases due
    show Function.update s.jobs j none i = some k
    rw [Function.update_of_ne ne, hk]
  | @add task id _ _ =>
    refine { C with counted := fun i row hr => ?_, op := fun o row ho hr => ?_ }
    rotate_left
    · obtain ⟨old, found, le⟩ := C.op o row ho hr
      refine ⟨old, ?_, le⟩
      show Function.update s.rows s.nextId _ o.id = some old
      rw [Function.update_of_ne (N.op o ho).1.ne, found]
    change Function.update s.rows s.nextId _ i = some row at hr
    rw [Function.update_apply] at hr
    split at hr
    · rename_i here
      refine .inl ?_
      show s.sent i ≤ _
      rw [N.unsent i here.symm.le]
      exact Nat.zero_le _
    · exact C.counted i row hr
  | refresh _ _ => exact { C with }
  | refreshGone _ _ => exact { C with }
  | @startAdded task mem =>
    have N' : Numbered { s with refreshed := s.refreshed.erase task } :=
      { N with refreshed := fun t ht => N.refreshed t (List.mem_of_mem_erase ht) }
    have C' : Counting { s with refreshed := s.refreshed.erase task } := { C with }
    unfold State.startAdded
    split
    · rename_i enabled
      exact C'.startTimer N' fun j job here => cancels j job ⟨enabled, here⟩
    · exact C'
  | @pause row _ found =>
    have C' : Counting (s.halt row.id row.slug) := cancelTimer C.invalidateFire fun j job here => cancels j job here
    refine C'.setOp fun o r e hr => ?_
    cases e
    cases hr
    exact ⟨row, found, le_rfl⟩
  | @remove row _ found =>
    have C' : Counting (s.halt row.id row.slug) := cancelTimer C.invalidateFire fun j job here => cancels j job here
    refine C'.setOp fun o r e hr => ?_
    cases e
    cases hr
  | notFound _ _ => exact C.cancelTimer fun j job here => cancels j job here
  | @resume row _ found _ =>
    have same := reschedule_same cron s.now { row with enabled := true, status := .pending }
    refine setOp C.invalidateFire fun o r e hr => ?_
    cases e
    cases hr
    exact ⟨row, by rw [← found]; exact congrArg s.rows same.1, same.2.1.symm.le⟩
  | resumeRefused _ _ _ _ => exact C.invalidateFire
  | @trigger row _ found _ =>
    refine C.setOp fun o r e hr => ?_
    cases e
    unfold State.triggerOp at hr ⊢
    split at hr
    · cases hr
      rename_i done
      rw [if_pos done]
      exact ⟨row, found, le_rfl⟩
    · rename_i open_
      rw [if_neg open_]
      split at hr
      · rename_i disabled
        cases hr
        rw [if_pos disabled]
        exact ⟨row, found, le_rfl⟩
      · rename_i enabled
        cases hr
        rw [if_neg enabled]
        exact ⟨row, found, le_rfl⟩
  | @update row body _ found _ =>
    have C' : Counting (s.beginUpdate row (body.apply row)) :=
      C.beginUpdate (fun j job here => cancels j job (.inl here)) fun j job here => cancels j job (.inr here)
    have same := updated_same cron s.now (body.apply row)
    refine C'.setOp fun o r e hr => ?_
    cases e
    cases hr
    refine ⟨row, ?_, same.2.1.symm.le⟩
    rw [rows_beginUpdate, ← found]
    exact congrArg s.rows same.1
  | updateRefused _ _ _ _ =>
    exact C.beginUpdate (fun j job here => cancels j job (.inl here)) fun j job here => cancels j job (.inr here)
  | @commit o ho _ _ =>
    refine { C with counted := fun i row hr => ?_, op := fun o' row ho' hr => ?_ }
    rotate_left
    · cases ho'
      refine ⟨row, ?_, le_rfl⟩
      show Function.update s.rows o.id o.row o.id = some row
      rw [Function.update_self]
      exact hr
    change Function.update s.rows o.id o.row i = some row at hr
    rw [Function.update_apply] at hr
    split at hr
    · rename_i here
      obtain ⟨old, found, le⟩ := C.op o row ho hr
      rw [here]
      exact (C.counted o.id old found).imp (fun h => h.trans le) fun h => ⟨h.1.trans (Nat.succ_le_succ le), h.2⟩
    · exact C.counted i row hr
  | commitTaken _ _ _ _ => exact C.unlock
  | @finish o ho _ =>
    have N₁ : Numbered (s.setOp none) := N.unlock
    have C₁ : Counting (s.setOp none) := C.unlock
    unfold State.finish
    cases restart : o.restart with
    | none =>
      cases o.spawn with
      | none => exact C₁
      | some task => exact C₁.spawnFire N₁
    | some task =>
      have C₂ : Counting ((s.setOp none).startTimer task) :=
        C₁.startTimer N₁ fun j job here => cancels j job ⟨o, task, ho, restart, here⟩
      cases o.spawn with
      | none => exact C₂
      | some task' =>
        have lt : task.id < s.nextId := by
          rw [(N.op o ho).2 task (.inr (.inl restart))]
          exact (N.op o ho).1
        exact C₂.spawnFire (N₁.startTimer lt)
  | stop =>
    have old : ∀ {i k}, s.stop.jobs i = some k → ∃ job, s.jobs i = some job ∧ k.pc = job.pc ∧ k.task = job.task ∧
        (job.pc.owes = true → k.cancelled = job.cancelled) := by
      intro i k hk
      obtain ⟨job, hj, rfl⟩ := Option.map_eq_some_iff.mp hk
      refine ⟨job, hj, ?_⟩
      split
      · rename_i stops
        refine ⟨rfl, rfl, fun due => ?_⟩
        have no := cancels i job ⟨job, hj, stops⟩ hj
        rw [due] at no
        cases no
      · exact ⟨rfl, rfl, fun _ => rfl⟩
    refine ⟨X, fun i k hk due => ?_, fun id row hr => ?_, C.op⟩
    · obtain ⟨job, hj, pc, -, kept⟩ := old hk
      rw [pc] at due
      rw [kept due]
      exact C.kept i job hj due
    · refine (C.counted id row hr).imp_right fun ⟨le, i, k, hk, same, due⟩ => ⟨le, i, ?_⟩
      have entry : s.stop.jobs i = some (if k.kind ≠ .timer ∨ s.tasks k.task.slug = some i then k.cancel else k) := by
        show Option.map _ (s.jobs i) = _
        rw [hk]
        rfl
      obtain ⟨job, hj, pc, task, -⟩ := old entry
      rw [hk] at hj
      cases hj
      exact ⟨_, entry, (congrArg ScheduledTask.id task).trans same, (congrArg Pc.owes pc).trans due⟩

end Counting

end

/-! ## The limit -/

/-- A firing that may still start a turn. -/
def Pc.isEarly : Pc → Bool
  | .firing .resolving => true
  | .firing .dispatching => true
  | _ => false

/-- Before the prompt a firing is under way. -/
lemma Pc.isFiring_of_isEarly {pc : Pc} (h : pc.isEarly = true) : pc.isFiring = true := by
  unfold Pc.isEarly at h
  split at h
  · rfl
  · rfl
  · cases h

/-- The task has the limit `n`, and a firing that may still start a turn leaves it room for one. -/
structure Within (id n : Nat) (s : State) : Prop where
  limit : ∀ row, s.rows id = some row → row.maxRuns = some n
  op : ∀ o row, s.op = some o → o.row = some row → o.id = id → row.maxRuns = some n
  early : s.All fun _ job => job.task.id = id → job.pc.isEarly = true → s.sent id < n
  bound : s.sent id ≤ n

/-- The events keep the limit of a task. -/
def Event.KeepsLimit (id n : Nat) : Event → Prop
  | .add task => task.id = id → task.maxRuns = some n
  | .update row body => row.id = id → ∀ maxRuns, body.maxRuns = some maxRuns → maxRuns = some n
  | _ => True

section
variable {cron : Croniter} {s s' : State} {e : Event} {i j id n : Nat} {job job' : Job} {task row : ScheduledTask}
  {slug : String} {entry : Option Nat} {pc : Pc} {kind : JobKind}

namespace Within

/-- A job comes before its prompt only below the limit. -/
lemma setJob (W : Within id n s) (early : job'.task.id = id → job'.pc.isEarly = true → s.sent id < n) :
    Within id n (s.setJob j job') := { W with early := W.early.setJob early }

/-- A new job is not in front of a prompt. -/
lemma createTask (W : Within id n s) (late : job.pc.isEarly = false) : Within id n (s.createTask job) :=
  { W with
    early := W.early.createTask fun _ early => by
      rw [late] at early
      cases early }

/-- Cancelling a timer sends nothing. -/
lemma cancelTimer (W : Within id n s) : Within id n (s.cancelTimer slug) :=
  { W with early := W.early.cancelTimer fun i job _ h => W.early i job h }

/-- The table of timers sends nothing. -/
lemma register (W : Within id n s) : Within id n (s.register slug entry) := { W with }

/-- Invalidating a firing sends nothing. -/
lemma invalidateFire (W : Within id n s) {i : Nat} : Within id n (s.invalidateFire i) := { W with }

/-- A row keeps its limit. -/
lemma setRow (W : Within id n s) (limit : row.id = id → row.maxRuns = some n) : Within id n (s.setRow row) :=
  { W with
    limit := by
      intro r hr
      change Function.update s.rows row.id (some row) id = some r at hr
      rw [Function.update_apply] at hr
      split at hr
      · rename_i e
        cases hr
        exact limit e.symm
      · exact W.limit r hr }

/-- A row is written over. -/
lemma rewrite (W : Within id n s) (N : Numbered s) (found : s.rows i = some task) (same : row.id = task.id)
    (limit : row.maxRuns = task.maxRuns) : Within id n (s.setRow row) := by
  refine W.setRow fun e => ?_
  rw [limit]
  refine W.limit task ?_
  rw [← e, same, (N.rows _ _ found).1]
  exact found

/-- A held change keeps the limit. -/
lemma setOp (W : Within id n s) {op : Option Op}
    (h : ∀ o row, op = some o → o.row = some row → o.id = id → row.maxRuns = some n) : Within id n (s.setOp op) :=
  { W with op := h }

/-- Giving the lock back keeps the limit. -/
lemma unlock (W : Within id n s) : Within id n (s.setOp none) := by
  refine W.setOp fun o row h => ?_
  cases h

/-- The end of a firing sends nothing. -/
lemma endFire (W : Within id n s) (late : pc.isEarly = false) : Within id n (s.endFire j job pc) := by
  have W' : Within id n (s.setJob j { job with pc }) := W.setJob fun _ early => by
    rw [show ({ job with pc } : Job).pc = pc from rfl, late] at early
    cases early
  exact { W' with }

/-- Behind a firing no prompt is ahead. -/
lemma isEarly_afterFire : (State.afterFire kind).isEarly = false := by
  cases kind with
  | _ => rfl

/-- The entry of a firing sends nothing. -/
lemma fireTask (W : Within id n s) : Within id n (s.fireTask j job) := by
  unfold State.fireTask
  split
  · refine W.setJob fun _ early => ?_
    change (State.afterFire job.kind).isEarly = true at early
    rw [isEarly_afterFire] at early
    cases early
  · have W' : Within id n (s.setJob j { job with version := s.fireVersion job, pc := .firing .claimed }) :=
      W.setJob nofun
    exact { W' with }

/-- Leaving the loop sends nothing. -/
lemma leaveLoop (W : Within id n s) : Within id n (s.leaveLoop j job) := register (W.setJob nofun)

/-- The head of the loop sends nothing. -/
lemma timerLoop (W : Within id n s) : Within id n (s.timerLoop j job cron) := by
  unfold State.timerLoop
  split
  · exact W.setJob nofun
  · exact W.leaveLoop
  · split
    · exact W.setJob nofun
    · exact W.fireTask

/-- Starting a timer sends nothing. -/
lemma startTimer (W : Within id n s) : Within id n (s.startTimer task) := register (createTask W.cancelTimer rfl)

/-- A manual firing has sent nothing yet. -/
lemma spawnFire (W : Within id n s) : Within id n (s.spawnFire kind task) :=
  have W' : Within id n (s.createTask { kind, task, version := s.fireVersions task.id }) := W.createTask rfl
  { W' with }

/-- The start of an update sends nothing. -/
lemma beginUpdate (W : Within id n s) : Within id n (s.beginUpdate row task) := by
  unfold State.beginUpdate
  split
  · exact cancelTimer W.invalidateFire
  · exact cancelTimer (invalidateFire (cancelTimer W.invalidateFire))

/-- A trigger keeps id and limit. -/
lemma triggerOp_same {r : ScheduledTask} (h : (s.triggerOp cron row).row = some r) :
    (s.triggerOp cron row).id = row.id ∧ r.maxRuns = row.maxRuns := by
  unfold State.triggerOp at h ⊢
  split at h
  · rename_i done
    rw [if_pos done]
    cases h
    exact ⟨rfl, rfl⟩
  · rename_i more
    rw [if_neg more]
    split at h
    · rename_i disabled
      rw [if_pos disabled]
      cases h
      exact ⟨rfl, rfl⟩
    · rename_i enabled
      rw [if_neg enabled]
      cases h
      exact ⟨rfl, rfl⟩

/-- Every step that keeps the limit keeps within it. -/
theorem step (W : Within id n s) (N : Numbered s) (C : Counting s) (keeps : e.KeepsLimit id n)
    (st : Step cron s e s') : Within id n s' := by
  cases st with
  | tick => exact { W with }
  | begin _ _ =>
    unfold State.begin
    split
    · exact W.timerLoop
    · exact W.fireTask
  | wake _ _ _ => exact W.fireTask
  | @mark j job w pc _ =>
    unfold State.markRunning
    split
    · exact W.endFire isEarly_afterFire
    · rename_i row found
      split
      · exact W.endFire isEarly_afterFire
      · rename_i runs
        have W' : Within id n (s.setRow { row with status := .running }) := W.rewrite N found rfl rfl
        refine W'.setJob fun e _ => ?_
        subst e
        -- nothing is owed while the firing begins, and the row has a run left
        have settled : ¬ s.Owes job.task.id := by
          rintro ⟨i, k, hk, e, owes⟩
          have f : job.pc.isFiring = true := by rw [pc]; rfl
          rw [C.alone i j k job hk w.1 (Pc.isFiring_of_owes owes) f e, w.1] at hk
          cases hk
          rw [pc] at owes
          cases owes
        have le := (C.counted _ row found).resolve_right fun h => settled h.2
        have left : row.runCount < n := by
          by_contra full
          refine runs ?_
          rw [scheduleExhausted, W.limit row found]
          simpa using .inr (Nat.le_of_not_lt full)
        exact lt_of_le_of_lt le left
  | @resolve j job r w pc =>
    have room : job.task.id = id → s.sent id < n := fun e => W.early j job w.1 e (by rw [pc]; rfl)
    unfold State.resolved
    split
    · exact W.endFire isEarly_afterFire
    · split
      · exact W.setJob nofun
      · split
        · exact W.setJob nofun
        · exact W.setJob fun e _ => room e
  | @dispatch j job d w pc =>
    cases d with
    | started =>
      have f : job.pc.isFiring = true := by rw [pc]; rfl
      by_cases e : job.task.id = id
      · have room := W.early j job w.1 e (by rw [pc]; rfl)
        -- no other firing of the task may start a turn
        refine { W with early := fun i k hk same early => ?_, bound := ?_ }
        · change (s.setJob j _).jobs i = some k at hk
          rw [jobs_setJob] at hk
          split at hk
          · cases hk
            cases early
          · rename_i ne
            exact absurd (C.alone i j k job hk w.1 (Pc.isFiring_of_isEarly early) f (same.trans e.symm)) ne
        · show Function.update s.sent job.task.id _ id ≤ n
          rw [e, Function.update_self]
          exact room
      · have unsent : Function.update s.sent job.task.id (s.sent job.task.id + 1) id = s.sent id :=
          Function.update_of_ne (Ne.symm e) _ _
        have W' : Within id n (s.setJob j { job with pc := .firing .sent }) := W.setJob nofun
        refine { W' with early := fun i k hk same early => ?_, bound := ?_ }
        · show Function.update s.sent job.task.id _ id < n
          rw [unsent]
          exact W'.early i k hk same early
        · show Function.update s.sent job.task.id _ id ≤ n
          rw [unsent]
          exact W.bound
    | returned => exact W.setJob nofun
    | raised error => exact W.setJob nofun
    | questionPending => exact W.setJob nofun
  | endDispatch _ _ => exact W.setJob nofun
  | @reschedule j job w _ _ =>
    unfold State.rescheduleWithoutFiring
    split
    · exact W.endFire isEarly_afterFire
    · rename_i row found
      split
      · split
        · have W' : Within id n (s.setRow (row.skipped cron s.now)) := W.rewrite N found rfl rfl
          exact W'.endFire isEarly_afterFire
        · split
          · exact W.endFire rfl
          · exact W.setJob nofun
      · exact W.endFire isEarly_afterFire
  | @count j job b error w _ _ =>
    unfold State.countRun
    split
    · exact W.endFire isEarly_afterFire
    · rename_i row found
      split
      · exact W.endFire rfl
      · obtain ⟨sameId, -, sameLimit⟩ := counted_same cron s.now row error
        have W' : Within id n (s.setRow (row.counted cron s.now error)) := W.rewrite N found sameId sameLimit
        exact W'.endFire isEarly_afterFire
  | reload _ _ _ _ => exact W.setJob nofun
  | reloadNone _ _ _ => exact W.setJob nofun
  | @go j job fresh _ _ =>
    have ended : Within id n (s.setJob j { job with pc := .finished }) := W.setJob nofun
    unfold State.reloaded
    split
    · exact W.leaveLoop
    · split
      · exact W.leaveLoop
      · exact W.timerLoop
    · exact ended
    · split
      · exact ended.startTimer
      · exact ended
  | thrown _ _ _ =>
    unfold State.thrown
    split
    · exact W.endFire rfl
    · exact W.setJob nofun
    · exact W.setJob nofun
  | @markCancelled j job w _ _ =>
    unfold State.markFireCancelled
    split
    · exact W.endFire rfl
    · rename_i row found
      split
      · have W' : Within id n (s.setRow (row.interrupted cron s.now)) := W.rewrite N found rfl rfl
        exact W'.endFire rfl
      · exact W.endFire rfl
  | @discard j job _ _ _ =>
    refine { W with early := fun i k hk => ?_ }
    change Function.update s.jobs j none i = some k at hk
    rw [Function.update_apply] at hk
    split at hk
    · cases hk
    · exact W.early i k hk
  | @add task new _ _ =>
    obtain ⟨sameId, -, sameLimit⟩ := reschedule_same cron s.now task
    refine { W with limit := fun row hr => ?_ }
    change Function.update s.rows s.nextId _ id = some row at hr
    rw [Function.update_apply] at hr
    split at hr
    · rename_i here
      cases hr
      rw [sameLimit]
      exact keeps (new.trans here.symm)
    · exact W.limit row hr
  | refresh _ _ => exact { W with }
  | refreshGone _ _ => exact { W with }
  | @startAdded task _ =>
    have W' : Within id n { s with refreshed := s.refreshed.erase task } := { W with }
    unfold State.startAdded
    split
    · exact W'.startTimer
    · exact W'
  | @pause row _ found =>
    refine setOp (cancelTimer W.invalidateFire) fun o r e hr here => ?_
    cases e
    cases hr
    exact W.limit row (here ▸ found)
  | @remove row _ found =>
    refine setOp (cancelTimer W.invalidateFire) fun o r e hr _ => ?_
    cases e
    cases hr
  | notFound _ _ => exact W.cancelTimer
  | @resume row _ found _ =>
    obtain ⟨sameId, -, sameLimit⟩ := reschedule_same cron s.now { row with enabled := true, status := .pending }
    refine setOp W.invalidateFire fun o r e hr here => ?_
    cases e
    cases hr
    exact sameLimit.trans (W.limit row (by rw [← here, ← found]; exact congrArg s.rows sameId))
  | resumeRefused _ _ _ _ => exact W.invalidateFire
  | @trigger row _ found _ =>
    refine W.setOp fun o r e hr here => ?_
    cases e
    obtain ⟨sameId, sameLimit⟩ := triggerOp_same hr
    rw [sameLimit]
    exact W.limit row (by rw [← here, sameId]; exact found)
  | @update row body _ found _ =>
    obtain ⟨sameId, -, sameLimit⟩ := updated_same cron s.now (body.apply row)
    refine setOp W.beginUpdate fun o r e hr here => ?_
    cases e
    cases hr
    have here : row.id = id := sameId.symm.trans here
    rw [sameLimit]
    show body.maxRuns.getD row.maxRuns = some n
    cases given : body.maxRuns with
    | none => exact W.limit row (here ▸ found)
    | some maxRuns => exact keeps here maxRuns given
  | updateRefused _ _ _ _ => exact W.beginUpdate
  | @commit o ho _ _ =>
    refine { W with limit := fun row hr => ?_, op := fun o' row ho' hr here => ?_ }
    rotate_left
    · cases ho'
      exact W.op o row ho hr here
    change Function.update s.rows o.id o.row id = some row at hr
    rw [Function.update_apply] at hr
    split at hr
    · rename_i here
      exact W.op o row ho hr here.symm
    · exact W.limit row hr
  | commitTaken _ _ _ _ => exact W.unlock
  | @finish o _ _ =>
    have W₁ : Within id n (s.setOp none) := W.unlock
    unfold State.finish
    cases o.restart with
    | none =>
      cases o.spawn with
      | none => exact W₁
      | some task => exact W₁.spawnFire
    | some task =>
      cases o.spawn with
      | none => exact W₁.startTimer
      | some task' => exact W₁.startTimer.spawnFire
  | stop =>
    refine { W with early := fun i k hk => ?_ }
    obtain ⟨job, hj, rfl⟩ := Option.map_eq_some_iff.mp hk
    split
    · exact W.early i job hj
    · exact W.early i job hj

end Within

end

/-! ## Runs -/

/-- A table that `start` reads, with the prompts that were sent before: they are counted. -/
structure Stored (rows : Nat → Option ScheduledTask) (nextId : Nat) (sent : Nat → Nat) (tasks : List ScheduledTask) :
    Prop where
  ids : ∀ i row, rows i = some row → row.id = i ∧ i < nextId
  listed : ∀ task ∈ tasks, rows task.id = some task
  counted : ∀ i row, rows i = some row → sent i ≤ row.runCount
  unsent : ∀ i, nextId ≤ i → sent i = 0

section
variable {cron : Croniter} {s s₀ : State} {now : Int} {rows : Nat → Option ScheduledTask} {nextId : Nat}
  {sent : Nat → Nat} {tasks : List ScheduledTask} {task : ScheduledTask} {es : List Event}

/-- Loaded rows are numbered. -/
lemma numbered_loaded (T : Stored rows nextId sent tasks) : Numbered (loaded now rows nextId sent) where
  jobs _ _ := rfl
  rows := T.ids
  below _ _ h := by cases h
  op _ h := by cases h
  adding _ h := by cases h
  refreshed _ h := by cases h
  unsent := T.unsent

/-- Loaded rows count what was sent. -/
lemma counting_loaded (T : Stored rows nextId sent tasks) : Counting (loaded now rows nextId sent) where
  claims _ _ h := by cases h
  alone _ _ _ _ h := by cases h
  kept _ _ h := by cases h
  counted id row h := .inl (T.counted id row h)
  op _ _ h := by cases h

/-- No coroutine has begun. -/
def State.Fresh (s : State) : Prop := s.All fun _ job => job.pc = .created

/-- `start` starts a task. -/
lemma startOne_keeps (N : Numbered s) (C : Counting s) (F : s.Fresh) (lt : task.id < s.nextId) :
    Numbered (s.startOne task) ∧ Counting (s.startOne task) ∧ (s.startOne task).Fresh ∧
      (s.startOne task).nextId = s.nextId ∧ (s.startOne task).sent = s.sent ∧ (s.startOne task).rows = s.rows ∧
      (s.startOne task).op = s.op := by
  have spawned : ∀ kind, (s.spawnFire kind task).Fresh :=
    fun kind => State.All.createTask F rfl
  have timer : (s.startTimer task).Fresh := by
    have cancelled : (s.cancelTimer task.slug).Fresh := F.cancelTimer fun i job _ h => F i job h
    exact State.All.createTask cancelled rfl
  unfold State.startOne
  split
  · exact ⟨N.spawnFire lt, C.spawnFire N, spawned _, rfl, rfl, rfl, rfl⟩
  · split
    · exact ⟨N.spawnFire lt, C.spawnFire N, spawned _, rfl, rfl, rfl, rfl⟩
    · refine ⟨N.startTimer lt, C.startTimer N fun j job _ h => ?_, timer, rfl, rfl, rfl, rfl⟩
      rw [F j job h]
      rfl

/-- The scheduler behind `start`. -/
lemma started_keeps (now : Int) (T : Stored rows nextId sent tasks) :
    Numbered (started now rows nextId sent tasks) ∧ Counting (started now rows nextId sent tasks) ∧
      (started now rows nextId sent tasks).Fresh ∧ (started now rows nextId sent tasks).sent = sent ∧
      (started now rows nextId sent tasks).rows = rows ∧ (started now rows nextId sent tasks).op = none := by
  have fold : ∀ (ts : List ScheduledTask) (s : State), (∀ t ∈ ts, t.id < s.nextId) → Numbered s → Counting s →
      s.Fresh → Numbered (ts.foldl State.startOne s) ∧ Counting (ts.foldl State.startOne s) ∧
        (ts.foldl State.startOne s).Fresh ∧ (ts.foldl State.startOne s).sent = s.sent ∧
        (ts.foldl State.startOne s).rows = s.rows ∧ (ts.foldl State.startOne s).op = s.op := by
    intro ts
    induction ts with
    | nil =>
      intro s _ N C F
      exact ⟨N, C, F, rfl, rfl, rfl⟩
    | cons t ts ih =>
      intro s lt N C F
      obtain ⟨N', C', F', nextId, sent, rows, op⟩ := startOne_keeps N C F (lt t List.mem_cons_self)
      obtain ⟨N'', C'', F'', sent', rows', op'⟩ :=
        ih (s.startOne t) (fun t' ht' => nextId ▸ lt t' (List.mem_cons_of_mem _ ht')) N' C' F'
      exact ⟨N'', C'', F'', sent'.trans sent, rows'.trans rows, op'.trans op⟩
  refine fold tasks _ (fun t ht => ?_) (numbered_loaded T) (counting_loaded T) fun _ _ h => by cases h
  exact (T.ids _ _ (T.listed t ht)).2

/-- In a run in which no step cancels a firing between the start of its turn and its count, or rolls the count back,
every prompt is counted, and a task with a limit is sent no more often. -/
theorem sent_counted (T : Stored rows nextId sent tasks)
    (rn : Run (Guarded (CountsFirst cron) (Step cron)) (started now rows nextId sent tasks) es s) :
    (∀ id row, s.rows id = some row →
      (∀ j job, s.jobs j = some job → job.task.id = id → job.pc.isFiring = false) → s.sent id ≤ row.runCount) ∧
    ∀ id n, (∀ row, rows id = some row → row.maxRuns = some n) → sent id ≤ n → (∀ e ∈ es, e.KeepsLimit id n) →
      s.sent id ≤ n := by
  obtain ⟨N₀, C₀, F₀, sent₀, rows₀, op₀⟩ := started_keeps now T
  have numbered : ∀ {s e s'}, Numbered s ∧ Counting s → Guarded (CountsFirst cron) (Step cron) s e s' →
      Numbered s' ∧ Counting s' :=
    fun K st => ⟨K.1.step st.2, K.2.step K.1 st.1 st.2⟩
  obtain ⟨N, C⟩ := rn.invariant ⟨N₀, C₀⟩ numbered
  refine ⟨fun id row found quiet => ?_, fun id n limit bound keeps => ?_⟩
  · refine (C.counted id row found).resolve_right ?_
    rintro ⟨-, j, job, hj, same, owes⟩
    have firing := Pc.isFiring_of_owes owes
    rw [quiet j job hj same] at firing
    cases firing
  · have W₀ : Within id n (started now rows nextId sent tasks) := by
      refine ⟨fun row found => limit row (rows₀ ▸ found), fun o row h => ?_, fun j job hj _ early => ?_, ?_⟩
      · rw [op₀] at h
        cases h
      · rw [F₀ j job hj] at early
        cases early
      · rw [sent₀]
        exact bound
    have W := (rn.meet keeps).invariant_of (I := Within id n) (J := fun s => Numbered s ∧ Counting s) W₀ ⟨N₀, C₀⟩
      (fun K st => numbered K ⟨st.1.1, st.2⟩) fun K W st => W.step K.1 K.2 st.1.2 st.2
    exact W.bound

end

/-! ## A prompt that is sent twice -/

/-- A calendar without expressions, in which every zone is UTC. -/
def noCron : Croniter := ⟨fun _ => .ok false, fun _ _ _ => .error "invalid expression"⟩

/-- A task that shall run once, in a minute. -/
def onceAMinute : ScheduledTask :=
  { id := 0, slug := "report", name := "report", scheduleType := .every, everySeconds := some 60, maxRuns := some 1
    nextFireAt := some 60 }

/-- The table with one task. -/
def oneRow (task : ScheduledTask) (i : Nat) : Option ScheduledTask := if i = 0 then some task else none

/-- One stored row. -/
lemma oneRow_stored (task : ScheduledTask) (id : task.id = 0) : Stored (oneRow task) 1 (fun _ => 0) [task] := by
  refine ⟨fun i row h => ?_, fun t ht => ?_, fun _ _ _ => Nat.zero_le _, fun _ _ => rfl⟩
  · unfold oneRow at h
    split at h
    · rename_i zero
      cases h
      exact ⟨id.trans zero.symm, zero ▸ Nat.zero_lt_one⟩
    · cases h
  · rw [List.mem_singleton.mp ht, oneRow, if_pos id]

/-- The minute passes, the timer fires, and a turn starts. -/
def firesOnce : List Event :=
  [.begin 0, .tick 60, .wake 0, .mark 0, .resolve 0 (.agent false), .dispatch 0 .started, .endDispatch 0 none]

/-- The task while it fires. -/
def onceRunning : ScheduledTask := { onceAMinute with status := .running }

/-- A run in which a task is sent once, and counted. -/
theorem sent_counted_once : ∃ s row, Run (Guarded (CountsFirst noCron) (Step noCron))
    (started 0 (oneRow onceAMinute) 1 (fun _ => 0) [onceAMinute]) (firesOnce ++ [.count 0]) s ∧
      s.rows 0 = some row ∧ row.runCount = 1 ∧ s.sent 0 = 1 ∧ s.sent 0 ≤ row.runCount ∧ s.sent 0 ≤ 1 := by
  have rn : ∃ s row, Run (Guarded (CountsFirst noCron) (Step noCron))
      (started 0 (oneRow onceAMinute) 1 (fun _ => 0) [onceAMinute]) (firesOnce ++ [.count 0]) s ∧
        s.rows 0 = some row ∧ row.runCount = 1 ∧ s.sent 0 = 1 ∧ ∀ j job, s.jobs j = some job →
          job.pc.isFiring = false := by
    refine ⟨_, _, .cons ⟨fun _ _ h => h.elim False.elim False.elim, .begin ⟨rfl, rfl⟩ rfl⟩ <| .cons ⟨fun _ _ h => h.elim False.elim False.elim, .tick⟩ <|
      .cons ⟨fun _ _ h => h.elim False.elim False.elim, .wake ⟨rfl, rfl⟩ rfl (by decide)⟩ <|
      .cons ⟨fun _ _ h => h.elim False.elim False.elim, .mark ⟨rfl, rfl⟩ rfl rfl⟩ <|
      .cons ⟨fun _ _ h => h.elim False.elim False.elim, .resolve ⟨rfl, rfl⟩ rfl⟩ <|
      .cons ⟨fun _ _ h => h.elim False.elim False.elim, .dispatch ⟨rfl, rfl⟩ rfl⟩ <|
      .cons ⟨fun _ _ h => h.elim False.elim False.elim, .endDispatch ⟨rfl, rfl⟩ rfl⟩ <|
      .cons ⟨?_, .count ⟨rfl, rfl⟩ rfl rfl⟩ .nil, rfl, rfl, rfl, fun j job h => ?_⟩
    · -- `next_fire` gives the next minute
      intro j job h
      rcases h with no | raised
      · exact no.elim
      · obtain ⟨-, job, row, hj, found, -, raises⟩ := raised
        cases hj
        cases found
        cases raises
    · cases j with
      | zero =>
        cases h
        rfl
      | succ j => cases h
  obtain ⟨s, row, rn, found, one, sent, quiet⟩ := rn
  obtain ⟨counted, limited⟩ := sent_counted (oneRow_stored onceAMinute rfl) rn
  refine ⟨s, row, rn, found, one, sent, counted 0 row found fun j job h _ => quiet j job h, ?_⟩
  refine limited 0 1 (fun row h => ?_) (Nat.zero_le _) fun e he => ?_
  · cases h
    rfl
  · simp only [firesOnce, List.mem_append, List.mem_cons, List.not_mem_nil, or_false] at he
    rcases he with (rfl | rfl | rfl | rfl | rfl | rfl | rfl) | rfl <;> exact trivial

/-- The task after the pause. -/
def oncePaused : ScheduledTask := onceRunning.paused

/-- The task is paused behind the dispatch, which cancels its timer, and resumed later. -/
def firesTwice : List Event :=
  firesOnce ++ [.pause onceRunning, .commit, .finish, .thrown 0, .markCancelled 0, .resume oncePaused, .commit,
    .finish, .begin 1, .tick 60, .wake 1, .mark 1, .resolve 1 (.agent false), .dispatch 1 .started]

/-- A task that may run once is sent once and not counted, with no firing in flight, and then it is sent again. -/
theorem sent_twice : ∃ s s' row, Run (Step noCron)
    (started 0 (oneRow onceAMinute) 1 (fun _ => 0) [onceAMinute]) (firesTwice.take 12) s ∧
      (∀ j job, s.jobs j = some job → job.pc.isFiring = false) ∧ s.rows 0 = some row ∧ row.runCount = 0 ∧
      s.sent 0 = 1 ∧ Run (Step noCron) s (firesTwice.drop 12) s' ∧ s'.sent 0 = 2 := by
  -- there is no other row
  have alone : ∀ {s : State} {task : ScheduledTask}, (∀ i, s.rows (i + 1) = none) → task.id = 0 → ¬ s.Taken task := by
    rintro s task none zero ⟨i, row, found, ne, -⟩
    cases i with
    | zero => exact ne zero.symm
    | succ i =>
      rw [none i] at found
      cases found
  refine ⟨_, _, _, .cons (.begin ⟨rfl, rfl⟩ rfl) <| .cons .tick <| .cons (.wake ⟨rfl, rfl⟩ rfl (by decide)) <|
    .cons (.mark ⟨rfl, rfl⟩ rfl rfl) <| .cons (.resolve ⟨rfl, rfl⟩ rfl) <| .cons (.dispatch ⟨rfl, rfl⟩ rfl) <|
    .cons (.endDispatch ⟨rfl, rfl⟩ rfl) <| .cons (.pause rfl rfl) <| .cons (.commit rfl rfl ?_) <|
    .cons (.finish rfl rfl) <| .cons (.thrown rfl rfl fun h => by cases h) <|
    .cons (.markCancelled ⟨rfl, rfl⟩ rfl rfl) .nil, ?_, rfl, rfl, rfl,
    .cons (.resume rfl rfl (.inr rfl)) <| .cons (.commit rfl rfl ?_) <| .cons (.finish rfl rfl) <|
    .cons (.begin ⟨rfl, rfl⟩ rfl) <| .cons .tick <| .cons (.wake ⟨rfl, rfl⟩ rfl (by decide)) <|
    .cons (.mark ⟨rfl, rfl⟩ rfl rfl) <| .cons (.resolve ⟨rfl, rfl⟩ rfl) <| .cons (.dispatch ⟨rfl, rfl⟩ rfl) .nil, rfl⟩
  · intro row h
    cases h
    exact alone (fun _ => rfl) rfl
  · intro j job h
    cases j with
    | zero =>
      cases h
      rfl
    | succ j => cases h
  · intro row h
    cases h
    exact alone (fun _ => rfl) rfl

end OpenAgentd.Scheduler
