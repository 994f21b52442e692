import OpenAgentd.Scheduler.Numbered

/-!
# Rows with a next time

What the operations and the firings leave in the row of a task. A row that is enabled and not exhausted has a next
time when its schedule gives one (`ScheduledTask.Planned`), and a firing never gives a row a time that had none
(`ScheduledTask.Follows`).
-/

namespace OpenAgentd.Scheduler

/-- The schedule gives a next time. -/
def hasNext (task : ScheduledTask) : Bool :=
  match task.scheduleType with
  | .at => task.runCount = 0 && task.atDatetime.isSome
  | .every => task.everySeconds.any fun everySeconds => 0 < everySeconds
  | .cron => task.cronExpression.any fun expression => expression ≠ ""

/-- The task is enabled, not exhausted and has a next time. -/
def ScheduledTask.due (task : ScheduledTask) : Bool :=
  task.enabled && !scheduleExhausted task && task.nextFireAt.isSome

/-- A row as every operation leaves it. -/
structure ScheduledTask.Planned (row : ScheduledTask) : Prop where
  timed : row.enabled = true → scheduleExhausted row = false → row.nextFireAt = none → hasNext row = false
  recurs : row.enabled = true → row.nextFireAt.isSome → row.scheduleType ≠ .at → hasNext row = true

/-- A firing writes `row` over `old`. -/
structure ScheduledTask.Follows (old row : ScheduledTask) : Prop where
  id : row.id = old.id
  slug : row.slug = old.slug
  scheduleType : row.scheduleType = old.scheduleType
  due : row.due = true → old.due = true
  paused : row.due = true → row.status = .paused → old.status = .paused

section
variable {cron : Croniter} {now : Int} {task row : ScheduledTask} {error : Option String}

/-- `next_fire` gives a time for the schedules that have one, where it does not raise. -/
lemma nextTime_isSome (h : refused cron now task = false) : (nextTime cron now task).isSome = hasNext task := by
  unfold refused at h
  unfold nextTime hasNext
  unfold nextFire at h ⊢
  cases type : task.scheduleType with
  | «at» =>
    simp only [type] at h ⊢
    cases runs : task.runCount with
    | zero =>
      simp only [runs] at h ⊢
      cases time : task.atDatetime with
      | none => rfl
      | some time' =>
        simp only [time] at h ⊢
        cases date : dateOf time' with
        | error _ =>
          rw [date] at h
          cases h
        | ok _ => rfl
    | succ n => rfl
  | every =>
    simp only [type] at h ⊢
    cases period : task.everySeconds with
    | none => rfl
    | some seconds =>
      simp only [period, Option.any_some] at h ⊢
      split
      · rename_i le
        simp [Except.toOption, Int.not_lt.mpr le]
      · rename_i lt
        rw [if_neg lt] at h
        cases date : dateOf (now + seconds) with
        | error _ =>
          rw [date] at h
          cases h
        | ok _ => simpa [Except.map, Except.toOption] using lt
  | cron =>
    simp only [type] at h ⊢
    cases text : task.cronExpression with
    | none => rfl
    | some expression =>
      simp only [text, Option.any_some] at h ⊢
      split
      · rename_i empty
        simp [empty, Except.toOption]
      · rename_i given
        rw [if_neg given] at h
        cases zone : cron.zoneInfo task.timezone with
        | error _ =>
          rw [zone] at h
          cases h
        | ok known =>
          simp only [zone] at h ⊢
          cases next : cron.getNext expression (if known then some task.timezone else none) now with
          | error _ =>
            rw [next] at h
            cases h
          | ok _ => simp [Except.map, Except.toOption, given]

/-- A time that `next_fire` gives is one of the schedule. -/
lemma hasNext_of_nextTime (h : (nextTime cron now task).isSome = true) : hasNext task = true := by
  have returns : refused cron now task = false := by
    unfold refused
    unfold nextTime at h
    cases fire : nextFire cron now task with
    | error _ =>
      rw [fire] at h
      cases h
    | ok _ => rfl
  rw [← nextTime_isSome returns]
  exact h

/-- When a row is due. -/
lemma due_iff : row.due = true ↔ row.enabled = true ∧ scheduleExhausted row = false ∧ row.nextFireAt.isSome = true := by
  simp [ScheduledTask.due, and_assoc]

namespace ScheduledTask

/-- An enabled row with a schedule that goes on is due. -/
lemma Planned.due (P : row.Planned) (enabled : row.enabled = true) (more : scheduleExhausted row = false)
    (next : hasNext row = true) : row.due = true := by
  refine due_iff.mpr ⟨enabled, more, ?_⟩
  cases h : row.nextFireAt with
  | some t => rfl
  | none =>
    rw [P.timed enabled more h] at next
    cases next

/-- A row whose next time is what its schedule gives. -/
lemma Planned.of_nextTime (returns : row.enabled = true → refused cron now row = false)
    (h : row.enabled = true → row.nextFireAt = nextTime cron now row) : row.Planned := by
  refine ⟨fun enabled _ none => ?_, fun enabled some _ => ?_⟩
  · rw [h enabled] at none
    rw [← nextTime_isSome (returns enabled), none]
    rfl
  · rw [h enabled] at some
    exact hasNext_of_nextTime some

/-- An exhausted row is disabled. -/
lemma Planned.complete : row.complete.Planned := ⟨nofun, nofun⟩

/-- A paused row is disabled. -/
lemma Planned.paused : row.paused.Planned := ⟨nofun, nofun⟩

/-- A row with its next time, where `next_fire` does not raise. -/
lemma Planned.reschedule (h : scheduleExhausted task = true ∨ refused cron now task = false) :
    (task.reschedule cron now).Planned := by
  unfold ScheduledTask.reschedule
  split
  · exact .complete
  · rename_i more
    exact .of_nextTime (fun _ => h.resolve_left more) fun _ => rfl

/-- A row that `trigger` enables, where `next_fire` does not raise. -/
lemma Planned.triggered (h : refused cron now task = false) : (task.triggered cron now).Planned :=
  .of_nextTime (fun _ => h) fun _ => rfl

/-- A row that is due behind an operation has a schedule that goes on. -/
lemma hasNext_of_due_reschedule (h : (task.reschedule cron now).due = true) :
    hasNext (task.reschedule cron now) = true := by
  obtain ⟨enabled, -, next⟩ := due_iff.mp h
  unfold ScheduledTask.reschedule at enabled next ⊢
  split at enabled
  · cases enabled
  · rename_i more
    rw [if_neg more] at next ⊢
    exact @hasNext_of_nextTime cron now _ next

/-- A row that is due behind `trigger` has a schedule that goes on. -/
lemma hasNext_of_due_triggered (h : (task.triggered cron now).due = true) : hasNext (task.triggered cron now) = true :=
  @hasNext_of_nextTime cron now _ (due_iff.mp h).2.2

/-! ## What a firing writes -/

/-- A firing marks its row. -/
lemma Follows.running : row.Follows { row with status := .running } := ⟨rfl, rfl, rfl, fun h => h, nofun⟩

/-- A running row keeps its time. -/
lemma Planned.running (P : row.Planned) : ({ row with status := .running } : ScheduledTask).Planned :=
  ⟨P.timed, P.recurs⟩

/-- A skipped row has its next time, where `next_fire` does not raise. -/
lemma Planned.skipped (h : refused cron now row = false) : (row.skipped cron now).Planned :=
  .of_nextTime (fun _ => h) fun _ => rfl

/-- A skipped row is due only if it was. -/
lemma Follows.skipped (P : row.Planned) : row.Follows (row.skipped cron now) := by
  refine ⟨rfl, rfl, rfl, fun h => ?_, nofun⟩
  obtain ⟨enabled, more, next⟩ := due_iff.mp h
  exact P.due enabled more (@hasNext_of_nextTime cron now _ next)

/-- A row whose firing is interrupted has its next time, where `next_fire` does not raise. -/
lemma Planned.interrupted (h : row.enabled = true → refused cron now row = false) :
    (row.interrupted cron now).Planned := by
  refine .of_nextTime h fun enabled => ?_
  exact if_pos (show row.enabled = true from enabled)

/-- A row whose firing is interrupted is due only if it was. -/
lemma Follows.interrupted (P : row.Planned) : row.Follows (row.interrupted cron now) := by
  have next : (row.interrupted cron now).due = true → row.enabled = true ∧ row.due = true := by
    intro h
    obtain ⟨enabled, more, next⟩ := due_iff.mp h
    have on : row.enabled = true := enabled
    refine ⟨on, P.due on more ?_⟩
    rw [show (row.interrupted cron now).nextFireAt = nextTime cron now row from if_pos on] at next
    exact hasNext_of_nextTime next
  refine ⟨rfl, rfl, rfl, fun h => (next h).2, fun h paused => ?_⟩
  change (if row.enabled = true then Status.pending else .paused) = .paused at paused
  rw [if_pos (next h).1] at paused
  cases paused

/-- One more run leaves no more times than there were. -/
lemma hasNext_of_more {old : ScheduledTask} (h : hasNext (old.ran error) = true) : hasNext old = true := by
  unfold hasNext ScheduledTask.ran at h
  unfold hasNext
  cases type : old.scheduleType with
  | «at» =>
    simp only [type] at h
    cases h
  | every => simpa only [type] using h
  | cron => simpa only [type] using h

/-- A row that has runs left behind one more had some before. -/
lemma more_of_exhausted_more (h : scheduleExhausted (row.ran error) = false) : scheduleExhausted row = false := by
  unfold scheduleExhausted ScheduledTask.ran at h
  unfold scheduleExhausted
  cases limit : row.maxRuns with
  | none => rfl
  | some n =>
    simp only [limit, Option.any_some, decide_eq_false_iff_not, not_le] at h ⊢
    exact Nat.lt_of_succ_lt h

/-- A row that is disabled by then is counted and nothing else. -/
lemma counted_disabled (h : row.wasDisabled = true) : row.counted cron now error = row.ran error := by
  unfold ScheduledTask.counted
  dsimp only
  rw [if_pos h]

/-- A counted row has the next time of its schedule, if it was enabled. -/
lemma counted_enabled (h : row.wasDisabled = false) :
    (row.counted cron now error).status ≠ .paused ∧ ((row.counted cron now error).enabled = true →
      (row.counted cron now error).nextFireAt = nextTime cron now (row.counted cron now error)) := by
  unfold ScheduledTask.counted
  dsimp only
  rw [if_neg (by rw [h]; nofun)]
  split
  · rename_i failed
    refine ⟨nofun, fun _ => ?_⟩
    rw [failed]
    rfl
  · split
    · exact ⟨nofun, nofun⟩
    · split
      · exact ⟨nofun, fun _ => rfl⟩
      · exact ⟨nofun, fun _ => rfl⟩

/-- What a firing leaves of a row it counts. -/
lemma counted_schedule : (row.counted cron now error).slug = row.slug ∧
    (row.counted cron now error).scheduleType = row.scheduleType ∧
    refused cron now (row.counted cron now error) = refused cron now (row.ran error) ∧
    (hasNext (row.counted cron now error) = true → hasNext row = true) ∧
    (row.scheduleType = .at → hasNext (row.counted cron now error) = false) ∧
    ((row.counted cron now error).enabled = true → row.enabled = true) ∧
    (scheduleExhausted (row.counted cron now error) = false → scheduleExhausted row = false) := by
  have later : row.scheduleType = .at → hasNext (row.ran error) = false := by
    intro type
    unfold hasNext ScheduledTask.ran
    simp [type]
  have more := @hasNext_of_more error row
  have full := @more_of_exhausted_more row error
  unfold ScheduledTask.counted
  dsimp only
  split
  · exact ⟨rfl, rfl, rfl, more, later, fun h => h, full⟩
  · split
    · exact ⟨rfl, rfl, rfl, more, later, fun h => h, full⟩
    · split
      · exact ⟨rfl, rfl, rfl, more, later, nofun, full⟩
      · split
        · exact ⟨rfl, rfl, rfl, more, later, fun h => h, full⟩
        · exact ⟨rfl, rfl, rfl, more, later, fun h => h, full⟩

/-- A counted row has its next time, where `next_fire` does not raise. -/
lemma Planned.counted (P : row.Planned) (h : row.wasDisabled = false → refused cron now (row.ran error) = false) :
    (row.counted cron now error).Planned := by
  obtain ⟨-, -, same, -, -, on, -⟩ := @counted_schedule cron now row error
  cases was : row.wasDisabled with
  | false => exact .of_nextTime (fun _ => same.trans (h was)) (counted_enabled was).2
  | true =>
    rw [counted_disabled was]
    refine ⟨fun enabled more none => ?_, fun enabled some recurs => ?_⟩
    · by_contra next
      rw [Bool.not_eq_false] at next
      have no := P.timed enabled (more_of_exhausted_more more) none
      rw [hasNext_of_more next] at no
      cases no
    · have next := P.recurs enabled some recurs
      change row.scheduleType ≠ .at at recurs
      unfold hasNext at next
      unfold hasNext ScheduledTask.ran
      cases type : row.scheduleType with
      | «at» => exact absurd type recurs
      | every => simpa only [type] using next
      | cron => simpa only [type] using next

/-- A counted row is due only if it was. -/
lemma Follows.counted (P : row.Planned) : row.Follows (row.counted cron now error) := by
  obtain ⟨slug, type, -, next, -, on, more⟩ := @counted_schedule cron now row error
  refine ⟨(counted_same cron now row error).1, slug, type, fun h => ?_, fun _ paused => ?_⟩
  · obtain ⟨enabled, left, time⟩ := due_iff.mp h
    cases was : row.wasDisabled with
    | false =>
      rw [(counted_enabled was).2 enabled] at time
      exact P.due (on enabled) (more left) (next (hasNext_of_nextTime time))
    | true =>
      rw [counted_disabled was] at time
      exact due_iff.mpr ⟨on enabled, more left, time⟩
  · cases was : row.wasDisabled with
    | false => exact absurd paused (counted_enabled was).1
    | true =>
      rw [counted_disabled was] at paused
      exact paused

/-- A one-shot that ran has no next time. -/
lemma not_due_of_counted (type : row.scheduleType = .at) (runs : row.status ≠ .paused) :
    (row.counted cron now error).due = false := by
  obtain ⟨-, -, -, -, last, on, -⟩ := @counted_schedule cron now row error
  by_contra h
  obtain ⟨enabled, -, time⟩ := due_iff.mp (Bool.not_eq_false _ ▸ h)
  have was : row.wasDisabled = false := by
    unfold ScheduledTask.wasDisabled
    rw [on enabled]
    simpa using runs
  rw [(counted_enabled was).2 enabled] at time
  have next := hasNext_of_nextTime time
  rw [last type] at next
  cases next

/-- A one-shot without a next time is skipped without one. -/
lemma not_due_of_skipped (h : hasNext row = false) : (row.skipped cron now).due = false := by
  by_contra due
  obtain ⟨-, -, time⟩ := due_iff.mp (Bool.not_eq_false _ ▸ due)
  have next : hasNext row = true := @hasNext_of_nextTime cron now _ time
  rw [h] at next
  cases next

end ScheduledTask

end

end OpenAgentd.Scheduler
