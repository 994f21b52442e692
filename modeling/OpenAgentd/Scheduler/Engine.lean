import Mathlib.Data.Finset.Erase
import Mathlib.Data.Finset.Insert
import Mathlib.Logic.Function.Basic
import OpenAgentd.Scheduler.Task

/-!
# The task scheduler

`TaskScheduler` (`app/scheduler/scheduler.py`) as a step relation. A step is what a coroutine does from one `await`
to the next. The coroutines are the timer loops and the firings that are not in a timer (`Job`), and the operations
of the API. `_state_lock` is held by an operation from its first step to its last (`State.op`); a coroutine of a
firing takes it for one step at a time, as between taking and leaving it it does nothing but read and write its row.

`cancel` marks a coroutine, and the exception reaches it in its next step (`Step.thrown`). What the agent does with a
dispatch is not modelled: it starts a turn or not, it returns or it raises. The calls of the database succeed; a
commit is refused for a slug or a name that is taken. Where `next_fire` raises behind a change of the row, the change
is rolled back: an operation ends without it, and so does a firing, and the timer that it is in.
-/

namespace OpenAgentd.Scheduler

/-- A coroutine that fires: a timer loop, `_fire_overdue_and_restart`, or `_fire_task` on its own. -/
inductive JobKind where
  | timer
  | overdue
  | fire
  deriving DecidableEq

/-- Where a firing waits. A skipped one has found a turn or a question. -/
inductive Phase where
  | claimed
  | resolving
  | skipping (question : Bool)
  | dispatching
  | sent
  | counting (sent : Bool) (error : Option String)
  | cancelled
  deriving DecidableEq

/-- Where a coroutine waits. -/
inductive Pc where
  | created
  | asleep (due : Int)
  | firing (phase : Phase)
  | reload
  | reloaded (fresh : Option ScheduledTask)
  | finished
  deriving DecidableEq

/-- A coroutine with its local variables. `cancelled`: an exception is on its way. -/
structure Job where
  kind : JobKind
  task : ScheduledTask
  version : Nat := 0
  pc : Pc := .created
  cancelled : Bool := false

/-- `cancel()`. -/
def Job.cancel (job : Job) : Job := { job with cancelled := true }

/-- An operation that holds the lock: the task it is about, the row it writes (none: it deletes), and what it starts
at its end. -/
structure Op where
  id : Nat
  row : Option ScheduledTask
  committed : Bool := false
  restart : Option ScheduledTask := none
  spawn : Option ScheduledTask := none

/-- The scheduler and its table. `adding` and `refreshed`: the tasks that `add` has committed, and has read again,
and not yet started. `sent`: the prompts whose turn was started. -/
structure State where
  now : Int
  rows : Nat → Option ScheduledTask
  nextId : Nat
  jobs : Nat → Option Job
  nextJob : Nat
  tasks : String → Option Nat
  firingIds : Finset Nat
  fireVersions : Nat → Nat
  pendingFireCounts : Nat → Nat
  op : Option Op
  adding : List Nat
  refreshed : List ScheduledTask
  sent : Nat → Nat
  stopped : Bool

namespace State
variable (s : State) (j : Nat) (job : Job)

/-- A coroutine goes on to its next `await`. -/
def setJob : State := { s with jobs := Function.update s.jobs j (some job) }

/-- A row is written. -/
def setRow (row : ScheduledTask) : State := { s with rows := Function.update s.rows row.id (some row) }

/-- The lock is taken or left. -/
def setOp (op : Option Op) : State := { s with op }

/-- `_cancel_timer`. -/
def cancelTimer (slug : String) : State :=
  { s with
    tasks := Function.update s.tasks slug none
    jobs := fun i => if s.tasks slug = some i then (s.jobs i).map Job.cancel else s.jobs i }

/-- A new coroutine. -/
def createTask : State := { s.setJob s.nextJob job with nextJob := s.nextJob + 1 }

/-- The registered timer of a slug. -/
def register (slug : String) (entry : Option Nat) : State := { s with tasks := Function.update s.tasks slug entry }

/-- `_start_timer`. -/
def startTimer (task : ScheduledTask) : State :=
  ((s.cancelTimer task.slug).createTask { kind := .timer, task }).register task.slug (some s.nextJob)

/-- `_spawn_fire`, with the version that is current. -/
def spawnFire (kind : JobKind) (task : ScheduledTask) : State :=
  { s.createTask { kind, task, version := s.fireVersions task.id } with
    pendingFireCounts := Function.update s.pendingFireCounts task.id (s.pendingFireCounts task.id + 1) }

/-- `_invalidate_fire`. -/
def invalidateFire (id : Nat) : State :=
  { s with
    fireVersions := Function.update s.fireVersions id
      (if id ∉ s.firingIds ∧ s.pendingFireCounts id = 0 then 0 else s.fireVersions id + 1) }

/-- Where a coroutine waits behind `_fire_task`. -/
def afterFire : JobKind → Pc
  | .timer => .reload
  | .overdue => .reload
  | .fire => .finished

/-- The id of a firing is claimed. -/
def claim (id : Nat) : State := { s with firingIds := insert id s.firingIds }

/-- The version of a firing: the one it was spawned with, or the current one in a timer. -/
def fireVersion : Nat := if job.kind = .timer then s.fireVersions job.task.id else job.version

/-- `_fire_task` up to its first `await`. -/
def fireTask : State :=
  if s.fireVersions job.task.id ≠ s.fireVersion job ∨ job.task.id ∈ s.firingIds then
    s.setJob j { job with version := s.fireVersion job, pc := afterFire job.kind }
  else
    (s.setJob j { job with version := s.fireVersion job, pc := .firing .claimed }).claim job.task.id

/-- The `finally` of `_fire_task`. -/
def release (id : Nat) : State :=
  { s with
    firingIds := s.firingIds.erase id
    fireVersions := if s.pendingFireCounts id = 0 then Function.update s.fireVersions id 0 else s.fireVersions }

/-- A firing ends. -/
def endFire (pc : Pc) : State := (s.setJob j { job with pc }).release job.task.id

/-- `_fire_task_locked` up to the search for an agent. -/
def markRunning : State :=
  match s.rows job.task.id with
  | none => s.endFire j job (afterFire job.kind)
  | some row =>
    if !row.enabled || scheduleExhausted row then s.endFire j job (afterFire job.kind)
    else
      (s.setRow { row with status := .running }).setJob j { job with pc := .firing .resolving }

/-- The firing is older than an operation on its task. -/
def stale : Bool := s.fireVersions job.task.id ≠ job.version

/-- What the search for an agent gives: an error, or a session with or without a turn. -/
inductive Resolved where
  | failed (error : String)
  | agent (hasActiveTurn : Bool)

/-- `_fire_task_locked` between the search for an agent and the dispatch. -/
def resolved (r : Resolved) : State :=
  if s.stale job then s.endFire j job (afterFire job.kind)
  else
    match r with
    | .failed error => s.setJob j { job with pc := .firing (.counting false (some error)) }
    | .agent hasActiveTurn =>
      if job.task.sessionId.isSome && hasActiveTurn then s.setJob j { job with pc := .firing (.skipping false) }
      else s.setJob j { job with pc := .firing .dispatching }

/-- What `dispatch_user_message` does first: it starts a turn, returns without, raises, or finds a question. -/
inductive Dispatched where
  | started
  | returned
  | raised (error : String)
  | questionPending

/-- One more prompt of a task. -/
def send (id : Nat) : State := { s with sent := Function.update s.sent id (s.sent id + 1) }

/-- The dispatch. -/
def dispatched : Dispatched → State
  | .started => (s.send job.task.id).setJob j { job with pc := .firing .sent }
  | .returned => s.setJob j { job with pc := .firing (.counting false none) }
  | .raised error => s.setJob j { job with pc := .firing (.counting false (some error)) }
  | .questionPending => s.setJob j { job with pc := .firing (.skipping true) }

variable (cron : Croniter)

/-- `_reschedule_without_firing`. What it raises ends the firing behind a question; behind a turn it is caught. -/
def rescheduleWithoutFiring (question : Bool) : State :=
  match s.rows job.task.id with
  | none => s.endFire j job (afterFire job.kind)
  | some row =>
    if row.enabled && row.status ≠ .paused && !s.stale job then
      match nextFire cron s.now row with
      | .ok _ => (s.setRow (row.skipped cron s.now)).endFire j job (afterFire job.kind)
      | .error error =>
        if question then s.endFire j job .finished
        else s.setJob j { job with pc := .firing (.counting false (some error)) }
    else s.endFire j job (afterFire job.kind)

/-- The end of `_fire_task_locked`. -/
def countRun (error : Option String) : State :=
  match s.rows job.task.id with
  | none => s.endFire j job (afterFire job.kind)
  | some row =>
    if !row.wasDisabled && refused cron s.now (row.ran error) then s.endFire j job .finished
    else (s.setRow (row.counted cron s.now error)).endFire j job (afterFire job.kind)

/-- `_mark_fire_cancelled`, and the exception goes on. -/
def markFireCancelled : State :=
  match s.rows job.task.id with
  | none => s.endFire j job .finished
  | some row =>
    if row.status = .running && !(row.enabled && refused cron s.now row) then
      (s.setRow (row.interrupted cron s.now)).endFire j job .finished
    else s.endFire j job .finished

/-- A timer loop ends. -/
def leaveLoop : State := (s.setJob j { job with pc := .finished }).register job.task.slug none

/-- The top of `_timer_loop`. An exception ends the coroutine, which stays registered. -/
def timerLoop : State :=
  match nextFire cron s.now job.task with
  | .error _ => s.setJob j { job with pc := .finished }
  | .ok none => s.leaveLoop j job
  | .ok (some due) => if s.now < due then s.setJob j { job with pc := .asleep due } else s.fireTask j job

/-- A coroutine begins. -/
def begin : State := if job.kind = .timer then s.timerLoop j job cron else s.fireTask j job

/-- Behind the reload: a timer goes on or ends, an overdue firing starts the timer. -/
def reloaded (fresh : Option ScheduledTask) : State :=
  match job.kind, fresh with
  | .timer, none => s.leaveLoop j job
  | .timer, some task =>
    if !task.enabled || scheduleExhausted task || task.scheduleType = .at then s.leaveLoop j { job with task }
    else s.timerLoop j { job with task } cron
  | _, none => s.setJob j { job with pc := .finished }
  | _, some task =>
    if task.enabled && task.scheduleType ≠ .at then (s.setJob j { job with pc := .finished }).startTimer task
    else s.setJob j { job with pc := .finished }

/-- `CancelledError`. A firing goes on to `_mark_fire_cancelled`; everything else ends. -/
def thrown : State :=
  match job.pc with
  | .firing .cancelled => s.endFire j { job with cancelled := false } .finished
  | .firing _ => s.setJob j { job with pc := .firing .cancelled, cancelled := false }
  | _ => s.setJob j { job with pc := .finished, cancelled := false }

/-- `_discard`, the callback of a coroutine of `_spawn_fire`. -/
def discard : State :=
  let remaining := s.pendingFireCounts job.task.id - 1
  { s with
    jobs := Function.update s.jobs j none
    pendingFireCounts := Function.update s.pendingFireCounts job.task.id remaining
    fireVersions :=
      if remaining = 0 ∧ job.task.id ∉ s.firingIds then Function.update s.fireVersions job.task.id 0
      else s.fireVersions }

/-- `start` for one of the enabled tasks. -/
def startOne (task : ScheduledTask) : State :=
  if task.nextFireAt.any fun t => t ≤ s.now then s.spawnFire .overdue task
  else if task.scheduleType = .at && task.runCount = 0 && task.atDatetime.any fun t => t ≤ s.now then
    s.spawnFire .fire task
  else s.startTimer task

/-- The end of `add`. -/
def startAdded (task : ScheduledTask) : State :=
  if task.enabled then { s with refreshed := s.refreshed.erase task }.startTimer task
  else { s with refreshed := s.refreshed.erase task }

/-- `stop`: the timers that are registered and the coroutines of `_spawn_fire` are cancelled. -/
def stop : State :=
  { s with
    tasks := fun _ => none
    jobs := fun i => (s.jobs i).map fun job =>
      if job.kind ≠ .timer ∨ s.tasks job.task.slug = some i then job.cancel else job
    stopped := true }

/-! ## The operations -/

/-- `trigger` on a task, with the lock. -/
def triggerOp (row : ScheduledTask) : Op :=
  if scheduleExhausted row then { id := row.id, row := some row.complete }
  else if row.wasDisabled then
    { id := row.id
      row := some (row.triggered cron s.now)
      restart := some (row.triggered cron s.now)
      spawn := some (row.triggered cron s.now) }
  else { id := row.id, row := some row, spawn := some row }

/-- An operation that writes a row and starts its timer if it is enabled. -/
def rowOp (row : ScheduledTask) : Op :=
  { id := row.id, row := some row, restart := if row.enabled then some row else none }

/-- The commit of an operation. -/
def commit (o : Op) : State :=
  { s with op := some { o with committed := true }, rows := Function.update s.rows o.id o.row }

/-- `_start_timer` at the end of an operation. -/
def restart : Option ScheduledTask → State
  | none => s
  | some task => s.startTimer task

/-- `_spawn_fire` at the end of `trigger`. -/
def spawn : Option ScheduledTask → State
  | none => s
  | some task => s.spawnFire .fire task

/-- The end of an operation. -/
def finish (o : Op) : State := (((s.setOp none).restart o.restart).spawn o.spawn)

/-- An operation that keeps its task from firing. -/
def halt (id : Nat) (slug : String) : State := (s.invalidateFire id).cancelTimer slug

/-- `update` up to its commit: the timers of the old slug, if the slug changes, and of the new one are cancelled. -/
def beginUpdate (row task : ScheduledTask) : State :=
  if task.slug = row.slug then s.halt row.id task.slug else (s.halt row.id row.slug).halt row.id task.slug

end State

/-- What happens. -/
inductive Event where
  | tick (seconds : Nat)
  | begin (j : Nat)
  | wake (j : Nat)
  | mark (j : Nat)
  | resolve (j : Nat) (r : State.Resolved)
  | dispatch (j : Nat) (r : State.Dispatched)
  | endDispatch (j : Nat) (error : Option String)
  | reschedule (j : Nat)
  | count (j : Nat)
  | reload (j : Nat)
  | go (j : Nat)
  | thrown (j : Nat)
  | markCancelled (j : Nat)
  | discard (j : Nat)
  | add (task : ScheduledTask)
  | refresh (id : Nat)
  | startAdded (task : ScheduledTask)
  | pause (row : ScheduledTask)
  | remove (row : ScheduledTask)
  | notFound (slug : String)
  | resume (row : ScheduledTask)
  | trigger (row : ScheduledTask)
  | update (row : ScheduledTask) (body : ScheduledTaskUpdate)
  | commit
  | finish
  | stop

/-- A coroutine waits at `pc` and is not cancelled. -/
def State.Waits (s : State) (j : Nat) (job : Job) : Prop := s.jobs j = some job ∧ job.cancelled = false

/-- The slug or the name of a row is that of another row. -/
def State.Taken (s : State) (task : ScheduledTask) : Prop :=
  ∃ i row, s.rows i = some row ∧ i ≠ task.id ∧ (row.slug = task.slug ∨ row.name = task.name)

variable (cron : Croniter)

/-- The steps of the scheduler. -/
inductive Step : State → Event → State → Prop where
  | tick {s d} :
    Step s (.tick d) { s with now := s.now + d }
  | begin {s j job} :
    s.Waits j job →
    job.pc = .created →
    Step s (.begin j) (s.begin j job cron)
  | wake {s j job due} :
    s.Waits j job →
    job.pc = .asleep due →
    due ≤ s.now →
    Step s (.wake j) (s.fireTask j job)
  | mark {s j job} :
    s.Waits j job →
    job.pc = .firing .claimed →
    s.op = none →
    Step s (.mark j) (s.markRunning j job)
  | resolve {s j job r} :
    s.Waits j job →
    job.pc = .firing .resolving →
    Step s (.resolve j r) (s.resolved j job r)
  | dispatch {s j job r} :
    s.Waits j job →
    job.pc = .firing .dispatching →
    Step s (.dispatch j r) (s.dispatched j job r)
  | endDispatch {s j job error} :
    s.Waits j job →
    job.pc = .firing .sent →
    Step s (.endDispatch j error) (s.setJob j { job with pc := .firing (.counting true error) })
  | reschedule {s j job question} :
    s.Waits j job →
    job.pc = .firing (.skipping question) →
    s.op = none →
    Step s (.reschedule j) (s.rescheduleWithoutFiring j job cron question)
  | count {s j job b error} :
    s.Waits j job →
    job.pc = .firing (.counting b error) →
    s.op = none →
    Step s (.count j) (s.countRun j job cron error)
  | reload {s j job row} :
    s.Waits j job →
    job.pc = .reload →
    s.rows row.id = some row →
    row.slug = job.task.slug →
    Step s (.reload j) (s.setJob j { job with pc := .reloaded (some row) })
  | reloadNone {s j job} :
    s.Waits j job →
    job.pc = .reload →
    (∀ i row, s.rows i = some row → row.slug ≠ job.task.slug) →
    Step s (.reload j) (s.setJob j { job with pc := .reloaded none })
  | go {s j job fresh} :
    s.Waits j job →
    job.pc = .reloaded fresh →
    Step s (.go j) (s.reloaded j job cron fresh)
  | thrown {s j job} :
    s.jobs j = some job →
    job.cancelled = true →
    job.pc ≠ .finished →
    Step s (.thrown j) (s.thrown j job)
  | markCancelled {s j job} :
    s.Waits j job →
    job.pc = .firing .cancelled →
    s.op = none →
    Step s (.markCancelled j) (s.markFireCancelled j job cron)
  | discard {s j job} :
    s.jobs j = some job →
    job.pc = .finished →
    job.kind ≠ .timer →
    Step s (.discard j) (s.discard j job)
  | add {s} {task : ScheduledTask} :
    task.id = s.nextId →
    ¬ s.Taken task →
    (scheduleExhausted task = true ∨ refused cron s.now task = false) →
    Step s (.add task)
      { s with
        rows := Function.update s.rows s.nextId (some (task.reschedule cron s.now))
        nextId := s.nextId + 1
        adding := s.nextId :: s.adding }
  | refresh {s id row} :
    id ∈ s.adding →
    s.rows id = some row →
    Step s (.refresh id) { s with adding := s.adding.erase id, refreshed := row :: s.refreshed }
  | refreshGone {s id} :
    id ∈ s.adding →
    s.rows id = none →
    Step s (.refresh id) { s with adding := s.adding.erase id }
  | startAdded {s task} :
    task ∈ s.refreshed →
    Step s (.startAdded task) (s.startAdded task)
  | pause {s row} :
    s.op = none →
    s.rows row.id = some row →
    Step s (.pause row)
      ((s.halt row.id row.slug).setOp (some { id := row.id, row := some row.paused }))
  | remove {s row} :
    s.op = none →
    s.rows row.id = some row →
    Step s (.remove row)
      ((s.halt row.id row.slug).setOp (some { id := row.id, row := none }))
  | notFound {s slug} :
    s.op = none →
    (∀ i row, s.rows i = some row → row.slug ≠ slug) →
    Step s (.notFound slug) (s.cancelTimer slug)
  | resume {s row} :
    s.op = none →
    s.rows row.id = some row →
    (scheduleExhausted row = true ∨ refused cron s.now row = false) →
    Step s (.resume row)
      ((s.invalidateFire row.id).setOp (some (State.rowOp (row.resumed cron s.now))))
  | resumeRefused {s row} :
    s.op = none →
    s.rows row.id = some row →
    scheduleExhausted row = false →
    refused cron s.now row = true →
    Step s (.resume row) (s.invalidateFire row.id)
  | trigger {s row} :
    s.op = none →
    s.rows row.id = some row →
    (scheduleExhausted row = true ∨ row.wasDisabled = false ∨ refused cron s.now row = false) →
    Step s (.trigger row) (s.setOp (some (s.triggerOp cron row)))
  | update {s row body} :
    s.op = none →
    s.rows row.id = some row →
    (scheduleExhausted (body.apply row) = true ∨ refused cron s.now (body.apply row) = false) →
    Step s (.update row body)
      ((s.beginUpdate row (body.apply row)).setOp (some (State.rowOp ((body.apply row).updated cron s.now))))
  | updateRefused {s row body} :
    s.op = none →
    s.rows row.id = some row →
    scheduleExhausted (body.apply row) = false →
    refused cron s.now (body.apply row) = true →
    Step s (.update row body) (s.beginUpdate row (body.apply row))
  | commit {s o} :
    s.op = some o →
    o.committed = false →
    (∀ row, o.row = some row → ¬ s.Taken row) →
    Step s .commit (s.commit o)
  | commitTaken {s o row} :
    s.op = some o →
    o.committed = false →
    o.row = some row →
    s.Taken row →
    Step s .commit (s.setOp none)
  | finish {s o} :
    s.op = some o →
    o.committed = true →
    Step s .finish (s.finish o)
  | stop {s} :
    Step s .stop s.stop

/-- The scheduler before `start`, with what is stored. -/
def loaded (now : Int) (rows : Nat → Option ScheduledTask) (nextId : Nat) (sent : Nat → Nat) : State where
  now := now
  rows := rows
  nextId := nextId
  jobs _ := none
  nextJob := 0
  tasks _ := none
  firingIds := ∅
  fireVersions _ := 0
  pendingFireCounts _ := 0
  op := none
  adding := []
  refreshed := []
  sent := sent
  stopped := false

/-- The scheduler behind `start`: the tasks that were enabled have been started one after another. -/
def started (now : Int) (rows : Nat → Option ScheduledTask) (nextId : Nat) (sent : Nat → Nat)
    (tasks : List ScheduledTask) : State :=
  tasks.foldl State.startOne (loaded now rows nextId sent)

end OpenAgentd.Scheduler
