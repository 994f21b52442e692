import Mathlib.Tactic.Lemma

/-!
# Scheduled tasks

A row of `scheduled_task` (`app/scheduler/models.py`), the next time it is due (`app/scheduler/cron.py`), and what
the operations of the scheduler make of it. Times are seconds since 1970. The time zones and the calendar of a cron
expression are those of `zoneinfo` and of the library `croniter` (`Croniter`).
-/

namespace OpenAgentd.Scheduler

/-- `schedule_type`. -/
inductive ScheduleType where
  | at
  | every
  | cron
  deriving DecidableEq

/-- `status`. -/
inductive Status where
  | pending
  | running
  | paused
  | completed
  | failed
  deriving DecidableEq

/-- `ScheduledTask`, without the workspace and the prompt. -/
structure ScheduledTask where
  id : Nat
  slug : String
  name : String
  scheduleType : ScheduleType
  atDatetime : Option Int := none
  everySeconds : Option Int := none
  cronExpression : Option String := none
  timezone : String := "UTC"
  sessionId : Option String := none
  enabled : Bool := true
  status : Status := .pending
  runCount : Nat := 0
  maxRuns : Option Nat := none
  lastError : Option String := none
  nextFireAt : Option Int := none
  deriving DecidableEq

/-- `_schedule_exhausted`. -/
def scheduleExhausted (task : ScheduledTask) : Bool := task.maxRuns.any fun maxRuns => maxRuns ≤ task.runCount

/-- What `next_fire` uses of `zoneinfo` and `croniter`. -/
structure Croniter where
  /-- `ZoneInfo`: whether the name is that of a zone. It raises for a name that cannot be one. -/
  zoneInfo : String → Except String Bool
  /-- The next date of an expression behind a time, in a zone or in UTC. It raises for an expression that it does not
  read, and where no date follows. -/
  getNext : String → Option String → Int → Except String Int

/-- `datetime.min` and `datetime.max`. -/
def minTime : Int := -62135596800
def maxTime : Int := 253402300799

/-- A time, if a `datetime` can hold it. -/
def dateOf (time : Int) : Except String Int :=
  if time < minTime ∨ maxTime < time then .error "date value out of range" else .ok time

variable (cron : Croniter)

/-- `next_fire`. -/
def nextFire (now : Int) (task : ScheduledTask) : Except String (Option Int) :=
  match task.scheduleType with
  | .at =>
    if 0 < task.runCount then .ok none
    else
      match task.atDatetime with
      | none => .ok none
      | some time => (dateOf time).map some
  | .every =>
    match task.everySeconds with
    | none => .ok none
    | some everySeconds => if everySeconds ≤ 0 then .ok none else (dateOf (now + everySeconds)).map some
  | .cron =>
    match task.cronExpression with
    | none => .ok none
    | some expression =>
      if expression = "" then .ok none
      else
        match cron.zoneInfo task.timezone with
        | .error error => .error error
        | .ok known => (cron.getNext expression (if known then some task.timezone else none) now).map some

/-- `next_fire` raises. -/
def refused (now : Int) (task : ScheduledTask) : Bool := !(nextFire cron now task).isOk

/-- What `next_fire` returns, where it does not raise. -/
def nextTime (now : Int) (task : ScheduledTask) : Option Int := (nextFire cron now task).toOption.join

/-- An exhausted task as every operation leaves it. -/
def ScheduledTask.complete (task : ScheduledTask) : ScheduledTask :=
  { task with enabled := false, status := .completed, nextFireAt := none }

/-- An exhausted task is closed, another one gets its next time. -/
def ScheduledTask.reschedule (now : Int) (task : ScheduledTask) : ScheduledTask :=
  if scheduleExhausted task then task.complete else { task with nextFireAt := nextTime cron now task }

/-- `ScheduledTaskUpdate`: the fields that are set. -/
structure ScheduledTaskUpdate where
  slug : Option String := none
  scheduleType : Option ScheduleType := none
  atDatetime : Option Int := none
  everySeconds : Option Int := none
  cronExpression : Option String := none
  timezone : Option String := none
  sessionId : Option String := none
  maxRuns : Option (Option Nat) := none
  enabled : Option Bool := none

/-- The fields of an update on a task. A new schedule type takes the old schedule away. -/
def ScheduledTaskUpdate.apply (body : ScheduledTaskUpdate) (task : ScheduledTask) : ScheduledTask :=
  { task with
    slug := body.slug.getD task.slug
    scheduleType := body.scheduleType.getD task.scheduleType
    atDatetime := body.atDatetime.or (if body.scheduleType.isSome then none else task.atDatetime)
    everySeconds := body.everySeconds.or (if body.scheduleType.isSome then none else task.everySeconds)
    cronExpression := body.cronExpression.or (if body.scheduleType.isSome then none else task.cronExpression)
    timezone := body.timezone.getD task.timezone
    sessionId := body.sessionId.or task.sessionId
    maxRuns := body.maxRuns.getD task.maxRuns
    enabled := body.enabled.getD task.enabled }

/-- A task that was running is not any more. -/
def ScheduledTask.halt (task : ScheduledTask) : ScheduledTask :=
  if task.status = .running then { task with status := if task.enabled then .pending else .paused } else task

/-- The row `_update_locked` commits. -/
def ScheduledTask.updated (now : Int) (task : ScheduledTask) : ScheduledTask := task.halt.reschedule cron now

/-- The row `pause` commits. -/
def ScheduledTask.paused (task : ScheduledTask) : ScheduledTask := { task with enabled := false, status := .paused }

/-- The row `resume` commits. -/
def ScheduledTask.resumed (now : Int) (task : ScheduledTask) : ScheduledTask :=
  ScheduledTask.reschedule cron now { task with enabled := true, status := .pending }

/-- `was_disabled` of `trigger`. -/
def ScheduledTask.wasDisabled (task : ScheduledTask) : Bool := !task.enabled || task.status = .paused

/-- The row `trigger` commits for a task that was disabled. -/
def ScheduledTask.triggered (now : Int) (task : ScheduledTask) : ScheduledTask :=
  { task with enabled := true, status := .pending, nextFireAt := nextTime cron now task }

/-- The row `_reschedule_without_firing` commits. -/
def ScheduledTask.skipped (now : Int) (task : ScheduledTask) : ScheduledTask :=
  { task with status := .pending, nextFireAt := nextTime cron now task }

/-- The row `_mark_fire_cancelled` commits for a task that is running. -/
def ScheduledTask.interrupted (now : Int) (task : ScheduledTask) : ScheduledTask :=
  { task with
    status := if task.enabled then .pending else .paused
    nextFireAt := if task.enabled then nextTime cron now task else none }

/-- A task with one more run. -/
def ScheduledTask.ran (error : Option String) (task : ScheduledTask) : ScheduledTask :=
  { task with runCount := task.runCount + 1, lastError := error }

/-- The row a firing commits at its end. An error without a text counts as none. -/
def ScheduledTask.counted (now : Int) (error : Option String) (task : ScheduledTask) : ScheduledTask :=
  let failed := error.any fun text => text ≠ ""
  let task' := task.ran error
  if task.wasDisabled then task'
  else
    let finiteComplete := !failed && scheduleExhausted task'
    let nextFireAt := if finiteComplete then none else nextTime cron now task'
    if failed then { task' with nextFireAt, status := .failed }
    else if finiteComplete then { task' with nextFireAt, enabled := false, status := .completed }
    else if task.scheduleType = .at then { task' with nextFireAt, status := .completed }
    else { task' with nextFireAt, status := .pending }

end OpenAgentd.Scheduler
