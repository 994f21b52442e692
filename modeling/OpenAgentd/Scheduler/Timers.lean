import OpenAgentd.Scheduler.Counted
import OpenAgentd.Scheduler.Timed

/-!
# No task is left without a timer

In a run in which no one-shot is skipped or finds its task being fired, no update fails behind its cancellations, and
no timer is started from a row that has changed, every task that is due has one timer, or a firing that restarts it
(`timers_kept`). A one-shot whose session is busy is left without (`skipped_for_ever`).
-/

namespace OpenAgentd.Scheduler
open OpenAgentd.Lib

/-- The row a timer is started from is the stored one, and no operation is about to change it. -/
def State.Startable (s : State) (task : ScheduledTask) : Prop :=
  (∃ row, s.rows task.id = some row ∧ row.slug = task.slug ∧ (row.due = true → hasNext task = true)) ∧
    ∀ o, s.op = some o → o.id ≠ task.id

/-- The timer of a row that is due. -/
def State.Serves (s : State) (j : Nat) (job : Job) (row : ScheduledTask) : Prop :=
  s.jobs j = some job ∧ job.kind = .timer ∧ s.rows job.task.id = some row ∧ row.due = true

/-- The timer of a one-shot that is due. -/
def State.OneShot (s : State) (j : Nat) (job : Job) (row : ScheduledTask) : Prop :=
  s.Serves j job row ∧ row.scheduleType = .at

/-- A firing that a timer goes on behind. -/
def State.Recurs (s : State) (j : Nat) (job : Job) (row : ScheduledTask) : Prop :=
  s.jobs j = some job ∧ job.kind ≠ .fire ∧ s.rows job.task.id = some row

/-- No step leaves a task without a timer, or gives it two. -/
def KeepsTimers (cron : Croniter) (s : State) : Event → Prop
  | .begin j =>
    (∀ job row, s.Serves j job row → refused cron s.now job.task = false) ∧
      ∀ job row t, s.OneShot j job row → nextFire cron s.now job.task = .ok (some t) → t ≤ s.now →
        job.task.id ∉ s.firingIds
  | .wake j => ∀ job row, s.OneShot j job row → job.task.id ∉ s.firingIds
  | .reschedule j =>
    (∀ job row, s.OneShot j job row → hasNext row = false) ∧
      ∀ job row, s.Recurs j job row → job.pc = .firing (.skipping true) → row.enabled = true →
        refused cron s.now row = false
  | .count j => ∀ job row, s.Recurs j job row → row.wasDisabled = false → refused cron s.now (row.ran none) = false
  | .go j =>
    (∀ job row task, s.Serves j job row → job.pc = .reloaded (some task) → refused cron s.now task = false) ∧
      ∀ job task, s.jobs j = some job → job.kind ≠ .timer → job.pc = .reloaded (some task) → task.enabled = true →
        task.scheduleType ≠ .at → s.Startable task
  | .startAdded task => task.enabled = true → s.Startable task
  | .resume row => row.due = true → refused cron s.now row = false
  | .update row body => ¬ s.Taken (body.apply row) ∧
      (scheduleExhausted (body.apply row) = true ∨ refused cron s.now (body.apply row) = false)
  | .commit => ∀ o row, s.op = some o → o.row = some row → ¬ s.Taken row
  | .stop => False
  | _ => True

/-- All rows that are due have a timer. -/
abbrev AllTimed : State → Prop := Timed fun _ => False

section
variable {cron : Croniter} {s s' : State} {e : Event} {i j id : Nat} {job job' : Job} {task row : ScheduledTask}
  {slug : String} {kind : JobKind} {pc : Pc} {o : Op} {entry : Option Nat} {error : Option String}
  {fresh : Option ScheduledTask} {phase : Phase}

namespace Timed

/-- A job begins. -/
lemma begin (T : AllTimed s) (N : Numbered s) (ok : KeepsTimers cron s (.begin j)) (w : s.Waits j job)
    (pc : job.pc = .created) : AllTimed (s.begin j job cron) := by
  have before : job.pc ≠ .finished ∧ job.pc ≠ .firing .cancelled := by
    rw [pc]
    exact ⟨nofun, nofun⟩
  unfold State.begin
  split
  · rename_i timer
    have live : job.Live := ⟨timer, w.2, before⟩
    refine T.timerLoop N w.1 live rfl rfl rfl rfl (fun row found due => ?_) (fun row found due => ?_)
      fun t row time now found due type => ?_
    · exact .inl (ok.1 job row ⟨w.1, timer, found, due⟩)
    · refine (T.ready j job w.1 live row found due).imp_left fun ready => ?_
      unfold State.Ready at ready
      rwa [pc] at ready
    · exact .inl (ok.2 job row t ⟨⟨w.1, timer, found, due⟩, type⟩ time now)
  · rename_i other
    exact T.fireTask N w.1 rfl rfl rfl rfl before fun l => absurd l.1 other

/-- A firing writes that it runs. -/
lemma mark (T : AllTimed s) (N : Numbered s) (X : Exclusive s) (w : s.Waits j job) (pc : job.pc = .firing .claimed)
    (free : s.op = none) : AllTimed (s.markRunning j job) := by
  unfold State.markRunning
  split
  · rename_i none
    refine T.endFire N X w.1 pc nofun fun _ row found => ?_
    rw [none] at found
    cases found
  · rename_i row found
    split
    · rename_i closed
      refine T.endFire N X w.1 pc nofun fun _ row' found' due => ?_
      cases found.symm.trans found'
      obtain ⟨enabled, more, -⟩ := due_iff.mp due
      rw [enabled, more] at closed
      cases closed
    · have T' := T.setRow N free found .running (T.planned _ _ found).running
      have N' : Numbered (s.setRow { row with status := .running }) :=
        N.setRow (by rw [show row.id = job.task.id from (N.rows _ _ found).1]; exact (N.below _ _ w.1).1)
      refine T'.onward N' w.1 rfl rfl rfl rfl (pc ▸ ⟨nofun, nofun⟩) ⟨nofun, nofun⟩ (fun _ e => by cases e)
        fun l row' found' due => ?_
      refine (T'.ready j job w.1 l row' found' due).imp_left fun ready => ?_
      unfold State.Ready at ready
      rw [pc] at ready
      refine ⟨ready, ?_⟩
      -- the row is the one that was written
      change Function.update s.rows row.id _ job.task.id = some row' at found'
      rw [(N.rows _ _ found).1, Function.update_self] at found'
      cases found'
      exact nofun

/-- What a firing has that has marked its row. -/
lemma ready_firing (T : AllTimed s) (h : s.jobs j = some job) (pc : job.pc = .firing phase)
    (new : phase ≠ .claimed) (l : job.Live) (found : s.rows job.task.id = some row) (due : row.due = true) :
    s.stale job = false ∧ row.status ≠ .paused ∨ s.Held job.task.id := by
  refine (T.ready j job h l row found due).imp_left fun ready => ?_
  unfold State.Ready at ready
  rw [pc] at ready
  cases phase with
  | claimed => exact absurd rfl new
  | _ => exact ready

/-- A firing has found its agent. -/
lemma resolve (T : AllTimed s) (N : Numbered s) (X : Exclusive s) (w : s.Waits j job)
    (pc : job.pc = .firing .resolving) (r : State.Resolved) : AllTimed (s.resolved j job r) := by
  unfold State.resolved
  split
  · rename_i stale
    refine T.endFire N X w.1 pc nofun fun l row found due => .inr ?_
    refine (T.ready_firing w.1 pc nofun l found due).resolve_left fun ready => ?_
    rw [ready.1] at stale
    cases stale
  · split
    · exact T.goOn N w.1 pc ⟨nofun, nofun⟩ ⟨nofun, nofun⟩
    · split
      · exact T.goOn N w.1 pc ⟨nofun, nofun⟩ ⟨nofun, nofun⟩
      · exact T.goOn N w.1 pc ⟨nofun, nofun⟩ ⟨nofun, nofun⟩

/-- A firing writes its row and ends. -/
lemma writeRow (T : AllTimed s) (N : Numbered s) (X : Exclusive s) (free : s.op = none) {old : ScheduledTask}
    (found : s.rows job.task.id = some old) (follows : old.Follows row) (planned : row.Planned)
    (h : s.jobs j = some job) (pc : job.pc = .firing phase) (alive : phase ≠ .cancelled)
    (ends : job.Live → row.due = true → row.scheduleType ≠ .at) :
    AllTimed ((s.setRow row).endFire j job (State.afterFire job.kind)) := by
  have here : row.id = job.task.id := follows.id.trans (N.rows _ _ found).1
  have N' : Numbered (s.setRow row) := N.setRow (by rw [here]; exact (N.below _ _ h).1)
  refine (T.setRow N free found follows planned).endFire N' X.setRow h pc alive fun l row' found' due => .inl ?_
  change Function.update s.rows row.id _ job.task.id = some row' at found'
  rw [here, Function.update_self] at found'
  cases found'
  exact ends l due

/-- A coroutine whose firing ends at an exception, where none that goes on does. -/
lemma raised (T : AllTimed s) (N : Numbered s) (X : Exclusive s) (w : s.Waits j job) (pc : job.pc = .firing phase)
    (ok : job.kind ≠ .fire → False) : AllTimed (s.endFire j job .finished) := by
  refine T.aborted N X w.1 (by rw [pc]; rfl) ?_
  by_contra other
  exact ok other

/-- A run is skipped. -/
lemma reschedule (T : AllTimed s) (N : Numbered s) (X : Exclusive s) (ok : KeepsTimers cron s (.reschedule j))
    (w : s.Waits j job) {question : Bool} (pc : job.pc = .firing (.skipping question)) (free : s.op = none) :
    AllTimed (s.rescheduleWithoutFiring j job cron question) := by
  unfold State.rescheduleWithoutFiring
  split
  · rename_i none
    refine T.endFire N X w.1 pc (fun e => by cases e) fun _ row found => ?_
    rw [none] at found
    cases found
  · rename_i row found
    have planned := T.planned _ _ found
    split
    · rename_i skips
      split
      · rename_i time returns
        have accepted : refused cron s.now row = false := by
          rw [refused, returns]
          rfl
        refine T.writeRow N X free found (.skipped planned) (.skipped accepted) w.1 pc (fun e => by cases e)
          fun l due type => ?_
        have no := ok.1 job row ⟨⟨w.1, l.1, found, (ScheduledTask.Follows.skipped planned).due due⟩, type⟩
        rw [ScheduledTask.not_due_of_skipped no] at due
        cases due
      · rename_i raises
        split
        · rename_i asked
          refine T.raised N X w pc fun other => ?_
          simp only [Bool.and_eq_true] at skips
          have accepted := ok.2 job row ⟨w.1, other, found⟩ (by rw [pc, asked]) skips.1.1
          rw [refused, raises] at accepted
          cases accepted
        · exact T.goOn N w.1 pc ⟨fun e => (by cases e), fun e => (by cases e)⟩
            ⟨fun e => (by cases e), fun e => (by cases e)⟩
    · rename_i kept
      refine T.endFire N X w.1 pc (fun e => by cases e) fun l row' found' due => .inr ?_
      cases found.symm.trans found'
      refine (T.ready_firing w.1 pc (fun e => by cases e) l found due).resolve_left fun both => kept ?_
      obtain ⟨fresh, runs⟩ := both
      rw [(due_iff.mp due).1, fresh]
      simpa using runs

/-- A run is counted. -/
lemma count (T : AllTimed s) (N : Numbered s) (X : Exclusive s) (ok : KeepsTimers cron s (.count j))
    (w : s.Waits j job) {sent : Bool} (pc : job.pc = .firing (.counting sent error)) (free : s.op = none) :
    AllTimed (s.countRun j job cron error) := by
  unfold State.countRun
  split
  · rename_i none
    refine T.endFire N X w.1 pc nofun fun _ row found => ?_
    rw [none] at found
    cases found
  · rename_i row found
    have planned := T.planned _ _ found
    split
    · rename_i raises
      refine T.raised N X w pc fun other => ?_
      rw [Bool.and_eq_true, Bool.not_eq_true'] at raises
      have accepted := ok job row ⟨w.1, other, found⟩ raises.1
      exact absurd (accepted.symm.trans raises.2) nofun
    · rename_i returns
      have accepted : row.wasDisabled = false → refused cron s.now (row.ran error) = false := by
        intro enabled
        rw [enabled] at returns
        simpa using returns
      have follows : row.Follows (row.counted cron s.now error) := .counted planned
      refine T.writeRow N X free found follows (planned.counted accepted) w.1 pc nofun fun l due type => ?_
      rcases T.ready_firing w.1 pc nofun l found (follows.due due) with ⟨-, runs⟩ | ⟨o, ho, -⟩
      · rw [ScheduledTask.not_due_of_counted (follows.scheduleType ▸ type) runs] at due
        cases due
      · rw [free] at ho
        cases ho

/-- A coroutine reads the row that is stored under its slug. -/
lemma reload (T : AllTimed s) (N : Numbered s) (w : s.Waits j job) (pc : job.pc = .reload)
    (found : s.rows row.id = some row) (slug : row.slug = job.task.slug) :
    AllTimed (s.setJob j { job with pc := .reloaded (some row) }) := by
  have going : job.pc ≠ .finished ∧ job.pc ≠ .firing .cancelled := by
    rw [pc]
    exact ⟨nofun, nofun⟩
  have live : Job.Live { job with pc := .reloaded (some row) } → job.Live := fun l => ⟨l.1, l.2.1, going⟩
  refine T.setJob w.1 rfl (fun l => ⟨live l, rfl, rfl⟩) (fun l task e => ?_) (fun l row' found' due => ?_)
    (fun r stored due c => .inl ?_) N
  · cases e
    exact ⟨(T.id_of_live w.1 (live l) found slug).symm, slug⟩
  · have same : job.task.id = row.id := T.id_of_live w.1 (live l) found slug
    change s.rows job.task.id = some row' at found'
    rw [same, found] at found'
    cases found'
    have stored : s.rows job.task.id = some row := same ▸ found
    refine (T.ready j job w.1 (live l) row stored due).imp_left fun ready => ?_
    unfold State.Ready at ready
    rw [pc] at ready
    obtain ⟨enabled, more, time⟩ := due_iff.mp due
    exact ⟨ready, row, rfl, enabled, more, ready, (T.planned _ _ found).recurs enabled time ready⟩
  · refine c.imp (fun ⟨l, same⟩ => ⟨⟨l.1, l.2.1, nofun, nofun⟩, same⟩) fun c => ?_
    obtain ⟨kind, alive, -, -, slug', type, -⟩ := c
    refine ⟨kind, alive, nofun, nofun, slug', type, fun fresh e => ?_⟩
    cases e
    have same := T.slugs _ _ row r found stored (slug.trans slug')
    rw [same, stored] at found
    cases found
    exact ⟨row, rfl, rfl, (due_iff.mp due).1, type⟩

/-- No row is stored under the slug of a coroutine. -/
lemma reloadNone (T : AllTimed s) (N : Numbered s) (w : s.Waits j job) (pc : job.pc = .reload)
    (none : ∀ i row, s.rows i = some row → row.slug ≠ job.task.slug) :
    AllTimed (s.setJob j { job with pc := .reloaded .none }) := by
  have going : job.pc ≠ .finished ∧ job.pc ≠ .firing .cancelled := by
    rw [pc]
    exact ⟨nofun, nofun⟩
  have dead : ¬ job.Live := by
    intro l
    obtain ⟨-, row, found, slug⟩ := T.timers j job w.1 l
    exact none _ row found slug
  have live : Job.Live { job with pc := .reloaded .none } → job.Live := fun l => ⟨l.1, l.2.1, going⟩
  refine T.setJob w.1 rfl (fun l => absurd (live l) dead) (fun l => absurd (live l) dead)
    (fun l => absurd (live l) dead) (fun r stored due c => ?_) N
  rcases c with ⟨l, -⟩ | c
  · exact absurd l dead
  · exact absurd c.2.2.2.2.1.symm (none _ r stored)

/-- `_start_timer` on a task whose row is the stored one. -/
lemma start (T : Timed (fun i => i = task.id) s) (N : Numbered s) (ok : s.Startable task) :
    AllTimed (s.startTimer task) := by
  obtain ⟨⟨row, found, slug, next⟩, free⟩ := ok
  exact (T.startTimer N found slug next fun o ho same => absurd same (free o ho)).mono fun i w => w.2 w.1

/-- A timer goes on with the row it reloaded. -/
lemma go (T : AllTimed s) (N : Numbered s) (ok : KeepsTimers cron s (.go j)) (w : s.Waits j job)
    (pc : job.pc = .reloaded fresh) : AllTimed (s.reloaded j job cron fresh) := by
  have going : job.pc ≠ .finished ∧ job.pc ≠ .firing .cancelled := by
    rw [pc]
    exact ⟨fun e => (by cases e), fun e => by cases e⟩
  have ready : job.Live → ∀ row, s.rows job.task.id = some row → row.due = true →
      (row.scheduleType ≠ .at ∧ ∃ task, fresh = some task ∧ task.enabled = true ∧
        scheduleExhausted task = false ∧ task.scheduleType ≠ .at ∧ hasNext task = true) ∨ s.Held job.task.id := by
    intro l row found due
    refine (T.ready j job w.1 l row found due).imp_left fun ready => ?_
    unfold State.Ready at ready
    rwa [pc] at ready
  have dead : ¬ Job.Live { job with pc := .finished } := fun l => l.2.2.1 rfl
  unfold State.reloaded
  split
  · rename_i timer
    have live : job.Live := ⟨timer, w.2, going⟩
    refine T.leaveLoop N w.1 live rfl rfl fun row found due => (ready live row found due).resolve_left ?_
    rintro ⟨-, task, e, -⟩
    cases e
  · rename_i task timer
    have live : job.Live := ⟨timer, w.2, going⟩
    obtain ⟨id, slug⟩ := T.reads j job w.1 live task pc
    split
    · rename_i ends
      refine T.leaveLoop N w.1 live rfl slug fun row found due => (ready live row found due).resolve_left ?_
      rintro ⟨-, t, e, enabled, more, type, -⟩
      cases e
      rw [enabled, more] at ends
      simp [type] at ends
    · refine T.timerLoop N w.1 live rfl id slug rfl (fun row found due => ?_) (fun row found due => ?_)
        fun t row _ _ found due type => ?_
      · exact .inl (ok.1 job row task ⟨w.1, timer, found, due⟩ pc)
      · refine (ready live row found due).imp_left ?_
        rintro ⟨-, t, e, -, -, -, next⟩
        cases e
        exact next
      · exact .inr ((ready live row found due).resolve_left fun ready => ready.1 type)
  · rename_i other
    refine T.idle N w.1 rfl dead ?_
    rintro row (⟨l, -⟩ | c)
    · exact other l.1
    · obtain ⟨task, e, -⟩ := c.2.2.2.2.2.2 _ pc
      cases e
  · rename_i task other
    split
    · rename_i restarts
      simp only [Bool.and_eq_true, decide_eq_true_eq] at restarts
      have ok : s.Startable task := ok.2 job task w.1 other pc restarts.1 restarts.2
      have N' : Numbered (s.setJob j { job with pc := .finished }) :=
        N.setJob w.1 (.of_plain (N.below _ _ w.1).1 fun _ e => by cases e)
      refine start (s := s.setJob j { job with pc := .finished }) ?_ N' ok
      have T' : Timed (fun i => i = task.id) s := T.mono fun _ no => no.elim
      refine T'.setJob w.1 rfl (fun l => absurd l dead) (fun l => absurd l dead) (fun l => absurd l dead)
        (fun row found due c => .inr (.inr ?_)) N
      rcases c with ⟨l, -⟩ | c
      · exact absurd l.1 other
      · obtain ⟨t, e, id, -⟩ := c.2.2.2.2.2.2 _ pc
        cases e
        exact id.symm
    · rename_i stays
      refine T.idle N w.1 rfl dead ?_
      rintro row (⟨l, -⟩ | c)
      · exact other l.1
      · obtain ⟨t, e, -, enabled, type⟩ := c.2.2.2.2.2.2 _ pc
        cases e
        rw [enabled] at stays
        simp [type] at stays

/-- A cancelled job ends. -/
lemma thrown (T : AllTimed s) (N : Numbered s) (X : Exclusive s) (h : s.jobs j = some job)
    (cancelled : job.cancelled = true) : AllTimed (s.thrown j job) := by
  have dead : ∀ row, ¬ job.Covers row := by
    rintro row (⟨⟨-, c, -⟩, -⟩ | ⟨-, c, -⟩)
    · rw [cancelled] at c
      cases c
    · rw [cancelled] at c
      cases c
  unfold State.thrown
  split
  · rename_i pc
    exact T.dropped N X h (by rw [pc]; rfl) dead rfl rfl
  · exact T.idle N h rfl (fun l => l.2.2.2 rfl) dead
  · exact T.idle N h rfl (fun l => l.2.2.1 rfl) dead

/-- A cancelled firing writes that it ends. -/
lemma markCancelled (T : AllTimed s) (N : Numbered s) (X : Exclusive s) (w : s.Waits j job)
    (pc : job.pc = .firing .cancelled) (free : s.op = none) : AllTimed (s.markFireCancelled j job cron) := by
  have firing : job.pc.isFiring = true := by
    rw [pc]
    rfl
  have dead : ∀ row, ¬ job.Covers row := by
    rintro row (⟨⟨-, -, -, no⟩, -⟩ | ⟨-, -, -, no, -⟩)
    · exact no pc
    · exact no pc
  unfold State.markFireCancelled
  split
  · exact T.dropped N X w.1 firing dead rfl rfl
  · rename_i row found
    have planned := T.planned _ _ found
    split
    · rename_i running
      have accepted : row.enabled = true → refused cron s.now row = false := by
        intro enabled
        rw [enabled] at running
        rw [Bool.and_eq_true, Bool.not_eq_true', Bool.true_and] at running
        exact running.2
      have here : (row.interrupted cron s.now).id = job.task.id := (N.rows _ _ found).1
      have N' : Numbered (s.setRow (row.interrupted cron s.now)) := N.setRow (by rw [here]; exact (N.below _ _ w.1).1)
      have T' : AllTimed (s.setRow (row.interrupted cron s.now)) :=
        T.setRow N free found (.interrupted planned) (.interrupted accepted)
      exact T'.dropped N' X.setRow w.1 firing dead rfl rfl
    · exact T.dropped N X w.1 firing dead rfl rfl

/-- Planning keeps the slug. -/
lemma slug_reschedule : (task.reschedule cron s.now).slug = task.slug := by
  unfold ScheduledTask.reschedule
  split
  · rfl
  · rfl

/-- A task is added. -/
lemma add (T : AllTimed s) (N : Numbered s) (new : task.id = s.nextId) (free : ¬ s.Taken task)
    (accepted : scheduleExhausted task = true ∨ refused cron s.now task = false) :
    AllTimed
      { s with
        rows := Function.update s.rows s.nextId (some (task.reschedule cron s.now))
        nextId := s.nextId + 1
        adding := s.nextId :: s.adding } := by
  have rows : ∀ {i r}, Function.update s.rows s.nextId (some (task.reschedule cron s.now)) i = some r →
      i = s.nextId ∧ r = task.reschedule cron s.now ∨ i ≠ s.nextId ∧ s.rows i = some r := by
    intro i r hr
    rw [Function.update_apply] at hr
    split at hr
    · rename_i e
      cases hr
      exact .inl ⟨e, rfl⟩
    · rename_i ne
      exact .inr ⟨ne, hr⟩
  have keep : ∀ {i}, i < s.nextId → Function.update s.rows s.nextId (some (task.reschedule cron s.now)) i = s.rows i :=
    fun lt => Function.update_of_ne lt.ne _ _
  -- no other row has the slug
  have other : ∀ {i r}, i ≠ s.nextId → s.rows i = some r → r.slug ≠ (task.reschedule cron s.now).slug := by
    intro i r ne hr same
    rw [slug_reschedule] at same
    exact free ⟨i, r, hr, new ▸ ne, .inl same⟩
  refine ⟨fun i k r r' hr hr' same => ?_, fun i r hr => ?_, T.entries, fun j job h l => ?_, T.reads,
    fun j job h l r hr due => ?_, fun o ho => ?_, T.keeps, fun i r hr due => ?_⟩
  · rcases rows hr with ⟨rfl, rfl⟩ | ⟨ne, hr⟩
    · rcases rows hr' with ⟨rfl, -⟩ | ⟨ne, hr'⟩
      · rfl
      · exact absurd same.symm (other ne hr')
    · rcases rows hr' with ⟨rfl, rfl⟩ | ⟨-, hr'⟩
      · exact absurd same (other ne hr)
      · exact T.slugs i k r r' hr hr' same
  · rcases rows hr with ⟨-, rfl⟩ | ⟨-, hr⟩
    · exact .reschedule accepted
    · exact T.planned i r hr
  · obtain ⟨entry, r, hr, slug⟩ := T.timers j job h l
    exact ⟨entry, r, (keep (N.below j job h).1).trans hr, slug⟩
  · exact T.ready j job h l r ((keep (N.below j job h).1).symm.trans hr) due
  · obtain ⟨settles, committed, rest⟩ := T.op o ho
    have e := keep (N.op o ho).1
    exact ⟨settles.imp_right e.trans, fun done => e.trans (committed done), rest⟩
  · rcases rows hr with ⟨rfl, -⟩ | ⟨-, hr⟩
    · exact .inr (.inr (.inl (.inl List.mem_cons_self)))
    · refine (T.covered i r hr due).imp_right fun c => c.imp_right fun c => c.imp_left fun adding => ?_
      exact adding.imp_left (List.mem_cons_of_mem _)

/-- A new row is read again. -/
lemma refresh (T : AllTimed s) (N : Numbered s) (found : s.rows id = some row) :
    AllTimed { s with adding := s.adding.erase id, refreshed := row :: s.refreshed } :=
  { T with
    covered := by
      intro i r hr due
      refine (T.covered i r hr due).imp_right fun c => c.imp_right fun c => c.imp_left fun adding => ?_
      rcases adding with mem | ⟨t, mem, rest⟩
      · cases Classical.em (i = id) with
        | inl e =>
          rw [e] at hr
          cases found.symm.trans hr
          exact .inr ⟨row, List.mem_cons_self, (N.rows id row found).1.trans e.symm, (due_iff.mp due).1⟩
        | inr ne => exact .inl ((List.mem_erase_of_ne ne).mpr mem)
      · exact .inr ⟨t, List.mem_cons_of_mem _ mem, rest⟩ }

/-- A new row was deleted meanwhile. -/
lemma refreshGone (T : AllTimed s) (gone : s.rows id = none) :
    AllTimed { s with adding := s.adding.erase id } :=
  { T with
    covered := by
      intro i r hr due
      refine (T.covered i r hr due).imp_right fun c => c.imp_right fun c => c.imp_left fun adding => ?_
      refine adding.imp_left (List.mem_erase_of_ne ?_).mpr
      rintro rfl
      cases gone.symm.trans hr }

/-- The timer of a new row starts. -/
lemma startAdded (T : AllTimed s) (N : Numbered s) (ok : KeepsTimers cron s (.startAdded task)) :
    AllTimed (s.startAdded task) := by
  have N' : Numbered { s with refreshed := s.refreshed.erase task } :=
    { N with refreshed := fun t ht => N.refreshed t (List.mem_of_mem_erase ht) }
  -- the task that is started is not waited for any more
  have T' : ∀ {W : Nat → Prop}, (task.enabled = true → W task.id) →
      Timed W { s with refreshed := s.refreshed.erase task } := by
    intro W waits
    refine { T with covered := fun i r hr due => ?_ }
    rcases T.covered i r hr due with c | held | (mem | ⟨t, mem, id, enabled⟩) | no
    · exact .inl c
    · exact .inr (.inl held)
    · exact .inr (.inr (.inl (.inl mem)))
    · cases Classical.em (t = task) with
      | inl e =>
        subst e
        exact .inr (.inr (.inr (id ▸ waits enabled)))
      | inr ne => exact .inr (.inr (.inl (.inr ⟨t, (List.mem_erase_of_ne ne).mpr mem, id, enabled⟩)))
    · exact no.elim
  unfold State.startAdded
  split
  · rename_i enabled
    have ok : State.Startable { s with refreshed := s.refreshed.erase task } task := ok enabled
    exact start (T' fun _ => rfl) N' ok
  · rename_i disabled
    exact T' fun enabled => absurd enabled disabled

/-! ## Operations -/

/-- A change of a row settles its timer. -/
lemma settles_rowOp : (State.rowOp row).Settles := by
  intro r e due
  cases e
  exact if_pos (due_iff.mp due).1

/-- The row a change restarts is its own. -/
lemma restart_rowOp (next : row.due = true → hasNext row = true) (h : (State.rowOp row).restart = some task) :
    (State.rowOp row).row = some task ∧ (task.due = true → hasNext task = true) := by
  have e : row = task := by
    unfold State.rowOp at h
    dsimp only at h
    split at h
    · exact Option.some.inj h
    · cases h
  subst e
  exact ⟨rfl, next⟩

/-- An operation that has cancelled the timer of its task takes the lock. -/
lemma lockHalted (T : Timed (fun i => False ∨ i = id) s) (free : s.op = none)
    (gone : ∀ j job, s.jobs j = some job → job.Live → job.task.id ≠ id) (here : o.id = id)
    (before : o.committed = false) (settles : o.Settles) (planned : ∀ row, o.row = some row → row.Planned)
    (restart : ∀ task, o.restart = some task → o.row = some task ∧ (task.due = true → hasNext task = true)) :
    AllTimed (s.setOp (some o)) := by
  refine T.lock free before (.inl settles) planned restart (fun j job h l same => ?_) fun i w => ?_
  · exact absurd (same.trans here) (gone j job h l)
  · exact .inr ⟨(w.resolve_left fun no => no).trans here.symm, settles⟩

/-- A task is paused. -/
lemma pause (T : AllTimed s) (N : Numbered s) (free : s.op = none) (found : s.rows row.id = some row) :
    AllTimed ((s.halt row.id row.slug).setOp (some { id := row.id, row := some row.paused })) := by
  obtain ⟨T', gone⟩ := T.halt N found
  refine T'.lockHalted free gone rfl rfl (fun r e due => ?_) (fun r e => ?_) fun _ e => by cases e
  · cases e
    cases due
  · cases e
    exact .paused

/-- A task is removed. -/
lemma remove (T : AllTimed s) (N : Numbered s) (free : s.op = none) (found : s.rows row.id = some row) :
    AllTimed ((s.halt row.id row.slug).setOp (some { id := row.id, row := none })) := by
  obtain ⟨T', gone⟩ := T.halt N found
  exact T'.lockHalted free gone rfl rfl (fun r e => by cases e) (fun r e => by cases e) fun _ e => by cases e

/-- A slug that no row has. -/
lemma notFound (T : AllTimed s) (N : Numbered s) (none : ∀ i row, s.rows i = some row → row.slug ≠ slug) :
    AllTimed (s.cancelTimer slug) := by
  refine (T.cancelTimer N slug).mono fun i w => ?_
  obtain ⟨row, found, same⟩ := w.resolve_left fun no => no
  exact none i row found same

/-- The row of a live timer keeps its slug in an operation that does. -/
lemma keeps_slug (T : AllTimed s) (found : s.rows row.id = some row) (h : s.jobs j = some job) (l : job.Live)
    (here : job.task.id = row.id) : row.slug = job.task.slug := by
  obtain ⟨-, r, hr, slug⟩ := T.timers j job h l
  rw [here, found] at hr
  cases hr
  exact slug

/-- A task is resumed. -/
lemma resume (T : AllTimed s) (free : s.op = none) (found : s.rows row.id = some row)
    (accepted : scheduleExhausted row = true ∨ refused cron s.now row = false) :
    AllTimed ((s.invalidateFire row.id).setOp (some (State.rowOp (row.resumed cron s.now)))) := by
  have id : (State.rowOp (row.resumed cron s.now)).id = row.id := (reschedule_same cron s.now _).1
  have T' : AllTimed (s.setOp (some (State.rowOp (row.resumed cron s.now)))) := by
    refine T.lock free rfl (.inl settles_rowOp) (fun r e => ?_)
      (fun t => restart_rowOp ScheduledTask.hasNext_of_due_reschedule) (fun j job h l here => ?_) fun _ no => no.elim
    · cases e
      exact .reschedule accepted
    · refine ⟨_, rfl, ?_⟩
      rw [← T.keeps_slug found h l (here.trans id)]
      exact slug_reschedule
  exact T'.invalidateFire _ fun _ _ _ _ _ _ _ _ => ⟨_, rfl, id, settles_rowOp⟩

/-- A resume that raises. -/
lemma resumeRefused (T : AllTimed s) (ok : KeepsTimers cron s (.resume row)) (found : s.rows row.id = some row)
    (raises : refused cron s.now row = true) : AllTimed (s.invalidateFire row.id) := by
  refine T.invalidateFire _ fun j job _ _ _ r hr due => ?_
  cases found.symm.trans hr
  exact absurd ((ok due).symm.trans raises) nofun

/-- A task is triggered. -/
lemma trigger (T : AllTimed s) (free : s.op = none) (found : s.rows row.id = some row)
    (accepted : scheduleExhausted row = true ∨ row.wasDisabled = false ∨ refused cron s.now row = false) :
    AllTimed (s.setOp (some (s.triggerOp cron row))) := by
  have keeps : ∀ r : ScheduledTask, r.slug = row.slug → ∀ j job, s.jobs j = some job → job.Live →
      job.task.id = row.id → ∃ r', some r = some r' ∧ r'.slug = job.task.slug :=
    fun r same j job h l here => ⟨r, rfl, same.trans (T.keeps_slug found h l here)⟩
  unfold State.triggerOp
  split
  · refine T.lock free rfl (.inl fun r e due => ?_) (fun r e => ?_) (fun _ e => by cases e) (keeps _ rfl)
      fun _ no => no.elim
    · cases e
      cases due
    · cases e
      exact .complete
  · rename_i more
    split
    · rename_i disabled
      refine T.lock free rfl (.inl fun r e _ => e) (fun r e => ?_) (fun t e => ?_) (keeps _ rfl) fun _ no => no.elim
      · cases e
        refine .triggered ((accepted.resolve_left more).resolve_left ?_)
        rw [disabled]
        exact nofun
      · cases e
        exact ⟨rfl, ScheduledTask.hasNext_of_due_triggered⟩
    · refine T.lock free rfl (.inr found) (fun r e => ?_) (fun _ e => by cases e) (keeps _ rfl) fun _ no => no.elim
      cases e
      exact T.planned _ _ found

/-- A task is updated. -/
lemma update (T : AllTimed s) (N : Numbered s) {body : ScheduledTaskUpdate}
    (ok : KeepsTimers cron s (.update row body)) (free : s.op = none) (found : s.rows row.id = some row) :
    AllTimed ((s.beginUpdate row (body.apply row)).setOp
      (some (State.rowOp ((body.apply row).updated cron s.now)))) := by
  obtain ⟨open_, accepted⟩ := ok
  have begun : Timed (fun i => False ∨ i = row.id) (s.beginUpdate row (body.apply row)) ∧
      ∀ j job, (s.beginUpdate row (body.apply row)).jobs j = some job → job.Live → job.task.id ≠ row.id := by
    obtain ⟨T', gone⟩ := T.halt N found
    unfold State.beginUpdate
    split
    · rename_i same
      rw [same]
      exact ⟨T', gone⟩
    · have gone' : ∀ j job, ((s.halt row.id row.slug).cancelTimer (body.apply row).slug).jobs j = some job →
          job.Live → job.task.id ≠ row.id :=
        fun j job h l => gone j job (T'.of_cancelTimer_live h l).1 l
      have T'' := (T'.cancelTimer N.halt (body.apply row).slug).invalidateFire row.id
        fun j job h l same => absurd same (gone' j job h l)
      refine ⟨T''.mono fun i w => ?_, gone'⟩
      refine w.elim (fun w => w) fun ⟨r, hr, same⟩ => .inr ?_
      -- no other row has the new slug
      by_contra ne
      exact open_ ⟨i, r, hr, ne, .inl same⟩
  obtain ⟨T', gone⟩ := begun
  have free' : (s.beginUpdate row (body.apply row)).op = none := by
    unfold State.beginUpdate
    split
    · exact free
    · exact free
  refine T'.lockHalted free' gone (updated_same cron s.now (body.apply row)).1 rfl settles_rowOp (fun r e => ?_)
    fun t => restart_rowOp ScheduledTask.hasNext_of_due_reschedule
  cases e
  refine .reschedule ?_
  unfold ScheduledTask.halt
  split
  · exact accepted
  · exact accepted

/-- A change is committed. -/
lemma commit (T : AllTimed s) (N : Numbered s) (ho : s.op = some o)
    (free : ∀ row, o.row = some row → ¬ s.Taken row) : AllTimed (s.commit o) := by
  obtain ⟨settles, -, planned, restart⟩ := T.op o ho
  have held : ∀ {i}, s.Held i → (s.commit o).Held i := by
    rintro i ⟨o', ho', here, settles⟩
    rw [ho] at ho'
    cases ho'
    exact ⟨_, rfl, here, settles⟩
  -- a row behind the commit is an old one, or the one of the operation
  have rows : ∀ {i r}, (s.commit o).rows i = some r → i = o.id ∧ o.row = some r ∨ i ≠ o.id ∧ s.rows i = some r := by
    intro i r hr
    change Function.update s.rows o.id o.row i = some r at hr
    rw [Function.update_apply] at hr
    split at hr
    · rename_i e
      exact .inl ⟨e, hr⟩
    · rename_i ne
      exact .inr ⟨ne, hr⟩
  have id : ∀ {r}, o.row = some r → r.id = o.id := fun h => (N.op o ho).2 _ (.inl h)
  have other : ∀ {i r r'}, i ≠ o.id → s.rows i = some r → o.row = some r' → r.slug ≠ r'.slug :=
    fun ne hr hr' same => free _ hr' ⟨_, _, hr, fun e => ne (e.trans (id hr')), .inl same⟩
  refine ⟨fun i k r r' hr hr' same => ?_, fun i r hr => ?_, T.entries, fun j job h l => ?_, T.reads,
    fun j job h l r hr due => ?_, fun o' ho' => ?_, fun j job h l o' ho' here => ?_, fun i r hr due => ?_⟩
  · rcases rows hr with ⟨rfl, new⟩ | ⟨ne, old⟩
    · rcases rows hr' with ⟨rfl, -⟩ | ⟨ne, old⟩
      · rfl
      · exact absurd same.symm (other ne old new)
    · rcases rows hr' with ⟨rfl, new⟩ | ⟨-, old'⟩
      · exact absurd same (other ne old new)
      · exact T.slugs i k r r' old old' same
  · rcases rows hr with ⟨-, hr⟩ | ⟨-, hr⟩
    · exact planned r hr
    · exact T.planned i r hr
  · obtain ⟨entry, r, hr, slug⟩ := T.timers j job h l
    refine ⟨entry, ?_⟩
    show ∃ r, Function.update s.rows o.id o.row job.task.id = some r ∧ _
    rw [Function.update_apply]
    split
    · rename_i here
      exact T.keeps j job h l o ho here.symm
    · exact ⟨r, hr, slug⟩
  · rcases rows hr with ⟨here, hr⟩ | ⟨-, hr⟩
    · rcases settles with settles | same
      · exact .inr ⟨_, rfl, here.symm, settles⟩
      · exact (T.ready j job h l r (by rw [here, same, hr]) due).imp_right held
    · exact (T.ready j job h l r hr due).imp_right held
  · cases ho'
    exact ⟨.inr (Function.update_self _ _ _), fun _ => Function.update_self _ _ _, planned, restart⟩
  · cases ho'
    exact T.keeps j job h l o ho here
  · rcases rows hr with ⟨here, hr⟩ | ⟨-, hr⟩
    · rcases settles with settles | same
      · exact .inr (.inl ⟨_, rfl, here.symm, settles⟩)
      · exact (T.covered i r (by rw [here, same, hr]) due).imp_right fun c => c.imp_left held
    · exact (T.covered i r hr due).imp_right fun c => c.imp_left held

/-- A change ends and restarts its timer. -/
lemma finish (T : AllTimed s) (N : Numbered s) (ho : s.op = some o) (done : o.committed = true) :
    AllTimed (s.finish o) := by
  obtain ⟨-, committed, -, restart⟩ := T.op o ho
  have stored := committed done
  -- the timer is started, and the lock is left
  have T' : AllTimed ((s.setOp none).restart o.restart) := by
    cases starts : o.restart with
    | none =>
      have not_held : s.Held o.id → ∀ row, s.rows o.id = some row → row.due = true → False := by
        rintro ⟨o', ho', -, settles⟩ row found due
        rw [ho] at ho'
        cases ho'
        have e := settles row (stored.symm.trans found) due
        rw [starts] at e
        cases e
      refine T.unlock ho (fun j job h l here row found due => ?_) fun row found due => ?_
      · refine (T.ready j job h l row (here ▸ found) due).resolve_right fun held => ?_
        exact not_held (here ▸ held) row found due
      · rcases T.covered o.id row found due with c | held | adding | no
        · exact .inl c
        · exact (not_held held row found due).elim
        · exact .inr (.inl adding)
        · exact no.elim
    | some task =>
      obtain ⟨row, next⟩ := restart task starts
      have here : task.id = o.id := (N.op o ho).2 task (.inr (.inl starts))
      have found : s.rows task.id = some task := by rw [here, stored, row]
      have T₁ : AllTimed (s.startTimer task) := by
        refine (T.startTimer N found rfl next fun o' ho' _ => ?_).mono fun i w => w.1
        rw [ho] at ho'
        cases ho'
        exact ⟨task, row, rfl⟩
      have live : Job.Live { kind := .timer, task } := ⟨rfl, rfl, nofun, nofun⟩
      have new : (s.startTimer task).jobs s.nextJob = some { kind := .timer, task } := by
        show ((s.cancelTimer task.slug).createTask { kind := .timer, task }).jobs s.nextJob = _
        rw [jobs_createTask]
        exact if_pos rfl
      refine T₁.unlock ho (fun j job h l same r hr due => ?_) fun r hr _ => .inl ⟨s.nextJob, _, new, .inl ⟨live, ?_⟩⟩
      · rcases T.of_startTimer found rfl h l with rfl | ⟨-, ne⟩
        · rw [← same] at hr
          cases found.symm.trans hr
          exact next due
        · exact absurd (same.trans here.symm) ne
      · rw [← here] at hr
        cases found.symm.trans hr
        rfl
  have N' : Numbered ((s.setOp none).restart o.restart) :=
    N.unlock.restart fun t e => by
      rw [(N.op o ho).2 t (.inr (.inl e))]
      exact (N.op o ho).1
  unfold State.finish
  cases o.spawn with
  | none => exact T'
  | some task => exact T'.spawnFire N' nofun

/-- Every step that keeps the timers keeps every task timed. -/
theorem step (T : AllTimed s) (N : Numbered s) (X : Exclusive s) (ok : KeepsTimers cron s e)
    (st : Step cron s e s') : AllTimed s' := by
  cases st with
  | tick => exact { T with }
  | begin w pc => exact T.begin N ok w pc
  | @wake j job _ w pc _ =>
    refine T.fireTask N w.1 rfl rfl rfl rfl (pc ▸ ⟨nofun, nofun⟩) fun l row found due type => .inl ?_
    exact ok job row ⟨⟨w.1, l.1, found, due⟩, type⟩
  | mark w pc free => exact T.mark N X w pc free
  | @resolve _ _ r w pc => exact T.resolve N X w pc r
  | @dispatch j job d w pc =>
    cases d with
    | started =>
      have T' : AllTimed (s.send job.task.id) := { T with }
      exact T'.goOn (N.send (N.below _ _ w.1).1) w.1 pc ⟨nofun, nofun⟩ ⟨nofun, nofun⟩
    | _ => exact T.goOn N w.1 pc ⟨nofun, nofun⟩ ⟨nofun, nofun⟩
  | endDispatch w pc => exact T.goOn N w.1 pc ⟨nofun, nofun⟩ ⟨nofun, nofun⟩
  | reschedule w pc free => exact T.reschedule N X ok w pc free
  | count w pc free => exact T.count N X ok w pc free
  | reload w pc found slug => exact T.reload N w pc found slug
  | reloadNone w pc none => exact T.reloadNone N w pc none
  | go w pc => exact T.go N ok w pc
  | thrown h cancelled _ => exact T.thrown N X h cancelled
  | markCancelled w pc free => exact T.markCancelled N X w pc free
  | discard h pc kind => exact T.discard X h pc kind
  | add new free accepted => exact T.add N new free accepted
  | refresh _ found => exact T.refresh N found
  | refreshGone _ gone => exact T.refreshGone gone
  | startAdded _ => exact T.startAdded N ok
  | pause free found => exact T.pause N free found
  | remove free found => exact T.remove N free found
  | notFound _ none => exact T.notFound N none
  | resume free found accepted => exact T.resume free found accepted
  | resumeRefused _ found _ raises => exact T.resumeRefused ok found raises
  | trigger free found accepted => exact T.trigger free found accepted
  | update free found _ => exact T.update N ok free found
  | updateRefused _ _ more refused =>
    rcases ok.2 with full | accepted
    · rw [more] at full
      cases full
    · rw [refused] at accepted
      cases accepted
  | commit ho _ free => exact T.commit N ho free
  | commitTaken ho _ row taken => exact absurd taken (ok _ _ ho row)
  | finish ho done => exact T.finish N ho done
  | stop => exact ok.elim

end Timed

end

/-! ## Runs -/

/-- A table as the scheduler leaves it, without a one-shot that is overdue, and the tasks that are enabled. -/
structure Timetable (now : Int) (rows : Nat → Option ScheduledTask) (nextId : Nat)
    (tasks : List ScheduledTask) : Prop where
  ids : ∀ i row, rows i = some row → row.id = i ∧ i < nextId
  slugs : ∀ i k row row', rows i = some row → rows k = some row' → row.slug = row'.slug → i = k
  planned : ∀ i row, rows i = some row → row.Planned
  next : ∀ i row, rows i = some row → row.due = true → hasNext row = true
  ahead : ∀ i row t, rows i = some row → row.due = true → row.scheduleType = .at →
    row.nextFireAt = some t ∨ row.atDatetime = some t → now < t
  listed : ∀ task ∈ tasks, rows task.id = some task
  enabled : ∀ i row, rows i = some row → row.enabled = true → row ∈ tasks

/-- No operation on the task is under way, and it is not being added. -/
def State.Settled (s : State) (id : Nat) : Prop :=
  (∀ o, s.op = some o → o.id ≠ id) ∧ id ∉ s.adding ∧ ∀ task ∈ s.refreshed, task.id ≠ id

section
variable {cron : Croniter} {s : State} {now : Int} {rows : Nat → Option ScheduledTask} {nextId : Nat}
  {tasks : List ScheduledTask} {task row : ScheduledTask} {es : List Event}

/-- A timetable is stored. -/
lemma Timetable.stored (A : Timetable now rows nextId tasks) : Stored rows nextId (fun _ => 0) tasks :=
  ⟨A.ids, A.listed, fun _ _ _ => Nat.zero_le _, fun _ _ => rfl⟩

/-- Loaded rows wait for their timers. -/
lemma timed_loaded (A : Timetable now rows nextId tasks) :
    Timed (fun i => ∃ task ∈ tasks, task.id = i) (loaded now rows nextId fun _ => 0) where
  slugs := A.slugs
  planned := A.planned
  entries _ _ h := by cases h
  timers _ _ h := by cases h
  reads _ _ h := by cases h
  ready _ _ h := by cases h
  op _ h := by cases h
  keeps _ _ h := by cases h
  covered i row found due :=
    .inr (.inr (.inr ⟨row, A.enabled i row found (due_iff.mp due).1, (A.ids i row found).1⟩))

/-- `start` starts a task of the table. -/
lemma Timed.startOne {W : Nat → Prop} (T : Timed W s) (N : Numbered s) (free : s.op = none)
    (A : Timetable now s.rows s.nextId tasks) (clock : s.now = now) (mem : task ∈ tasks) :
    Timed (fun i => W i ∧ i ≠ task.id) (s.startOne task) := by
  have found := A.listed task mem
  unfold State.startOne
  split
  · rename_i overdue
    -- the firing of an overdue task starts its timer again, as the task is no one-shot
    have T' : Timed W (s.spawnFire .overdue task) := T.spawnFire N nofun
    refine { T' with covered := fun i row hr due => ?_ }
    cases Classical.em (i = task.id) with
    | inl e =>
      rw [e] at hr
      cases found.symm.trans hr
      refine .inl ⟨s.nextJob, { kind := .overdue, task, version := s.fireVersions task.id }, ?_, .inr ?_⟩
      · show (s.createTask _).jobs s.nextJob = _
        rw [jobs_createTask]
        exact if_pos rfl
      · refine ⟨rfl, rfl, nofun, nofun, rfl, fun type => ?_, fun _ e => by cases e⟩
        obtain ⟨t, time, le⟩ := Option.any_eq_true _ _ |>.mp overdue
        have lt := A.ahead _ _ t found due type (.inl time)
        rw [decide_eq_true_eq, clock] at le
        exact absurd le (not_le.mpr lt)
    | inr ne =>
      refine (T'.covered i row hr due).imp_right fun c => c.imp_right fun c => c.imp_right fun w => ⟨w, ne⟩
  · split
    · rename_i overdue
      -- a one-shot that is overdue is not due any more
      have T' : Timed W (s.spawnFire .fire task) := T.spawnFire N nofun
      refine { T' with covered := fun i row hr due => ?_ }
      cases Classical.em (i = task.id) with
      | inl e =>
        rw [e] at hr
        cases found.symm.trans hr
        simp only [Bool.and_eq_true, decide_eq_true_eq] at overdue
        obtain ⟨t, time, le⟩ := Option.any_eq_true _ _ |>.mp overdue.2
        have lt := A.ahead _ _ t found due overdue.1.1 (.inr time)
        rw [decide_eq_true_eq, clock] at le
        exact absurd le (not_le.mpr lt)
      | inr ne =>
        refine (T'.covered i row hr due).imp_right fun c => c.imp_right fun c => c.imp_right fun w => ⟨w, ne⟩
    · refine T.startTimer N found rfl (A.next _ _ found) fun o ho => ?_
      rw [free] at ho
      cases ho

/-- Starting a timer takes no time. -/
lemma now_startOne : (s.startOne task).now = s.now := by
  unfold State.startOne
  split
  · rfl
  · split
    · rfl
    · rfl

/-- After the start every due row has its timer. -/
lemma timed_started (A : Timetable now rows nextId tasks) :
    AllTimed (started now rows nextId (fun _ => 0) tasks) := by
  have fold : ∀ (ts : List ScheduledTask) (s : State), (∀ t ∈ ts, t ∈ tasks) → Numbered s → Counting s → s.Fresh →
      s.rows = rows → s.nextId = nextId → s.now = now → s.op = none →
      Timed (fun i => ∃ task ∈ ts, task.id = i) s → AllTimed (ts.foldl State.startOne s) := by
    intro ts
    induction ts with
    | nil =>
      intro s _ _ _ _ _ _ _ _ T
      show AllTimed s
      refine T.mono ?_
      rintro i ⟨_, mem, -⟩
      cases mem
    | cons t ts ih =>
      intro s sub N C F rows' nextId' clock free T
      have mem := sub t List.mem_cons_self
      have lt : t.id < s.nextId := nextId' ▸ (A.ids _ _ (A.listed t mem)).2
      obtain ⟨N', C', F', nextId'', -, rows'', free'⟩ := startOne_keeps N C F lt
      refine ih (s.startOne t) (fun t' h => sub t' (List.mem_cons_of_mem _ h)) N' C' F' (rows''.trans rows')
        (nextId''.trans nextId') (now_startOne.trans clock) (free'.trans free) ?_
      have T' := T.startOne N free (rows' ▸ nextId' ▸ A) clock mem
      refine T'.mono ?_
      rintro i ⟨⟨t', h, here⟩, ne⟩
      refine ⟨t', ?_, here⟩
      exact (List.mem_cons.mp h).resolve_left fun e => ne (e ▸ here.symm)
  exact fold tasks _ (fun _ h => h) (numbered_loaded A.stored) (counting_loaded A.stored) (fun _ _ h => by cases h)
    rfl rfl rfl rfl (timed_loaded A)

/-- Every task that is due has a timer under its slug, or a firing that restarts it, and no task has two timers. -/
theorem timers_kept (A : Timetable now rows nextId tasks)
    (rn : Run (Guarded (KeepsTimers cron) (Step cron)) (started now rows nextId (fun _ => 0) tasks) es s) :
    (∀ id row, s.rows id = some row → row.due = true → s.Settled id →
      (∃ j job, s.jobs j = some job ∧ job.Live ∧ job.task.id = id ∧ s.tasks row.slug = some j) ∨
      ∃ j job, s.jobs j = some job ∧ job.Restarts row) ∧
    ∀ i j job job', s.jobs i = some job → s.jobs j = some job' → job.Live → job'.Live →
      job.task.id = job'.task.id → i = j := by
  obtain ⟨N₀, C₀, -⟩ := started_keeps now A.stored
  have keep : ∀ {s e s'}, Numbered s ∧ Exclusive s ∧ AllTimed s →
      Guarded (KeepsTimers cron) (Step cron) s e s' → Numbered s' ∧ Exclusive s' ∧ AllTimed s' :=
    fun ⟨N, X, T⟩ st => ⟨N.step st.2, X.step st.2, T.step N X st.1 st.2⟩
  obtain ⟨N, -, T⟩ := rn.invariant ⟨N₀, C₀.toExclusive, timed_started A⟩ keep
  refine ⟨fun id row found due settled => ?_, fun i j job job' h h' l l' same => T.one h h' l l' same⟩
  have here := (N.rows id row found).1
  rcases T.covered id row found due with ⟨j, job, h, ⟨l, same⟩ | restarts⟩ | ⟨o, ho, e, -⟩ | (mem | ⟨t, mem, e, -⟩) | no
  · obtain ⟨entry, row', found', slug⟩ := T.timers j job h l
    rw [same, here, found] at found'
    cases found'
    exact .inl ⟨j, job, h, l, same.trans here, slug ▸ entry⟩
  · exact .inr ⟨j, job, h, restarts⟩
  · exact absurd e (settled.1 o ho)
  · exact absurd mem settled.2.1
  · exact absurd e (settled.2.2 t mem)
  · exact no.elim

/-- One row as a timetable. -/
lemma oneRow_timetable (id : task.id = 0) (planned : task.Planned) (next : task.due = true → hasNext task = true)
    (ahead : ∀ t, task.nextFireAt = some t ∨ task.atDatetime = some t → now < t) :
    Timetable now (oneRow task) 1 [task] := by
  have only : ∀ {i row}, oneRow task i = some row → i = 0 ∧ row = task := by
    intro i row h
    unfold oneRow at h
    split at h
    · rename_i zero
      cases h
      exact ⟨zero, rfl⟩
    · cases h
  refine ⟨(oneRow_stored task id).ids, fun i k row row' h h' _ => (only h).1.trans (only h').1.symm, fun i row h => ?_,
    fun i row h => ?_, fun i row t h _ _ => ?_, (oneRow_stored task id).listed, fun i row h _ => ?_⟩
  · exact (only h).2 ▸ planned
  · exact (only h).2 ▸ next
  · exact (only h).2 ▸ ahead t
  · exact List.mem_singleton.mpr (only h).2

end

/-- A coroutine reads the row of its own task. -/
lemma Step.reloadOwn {cron : Croniter} {s : State} {j : Nat} {job : Job} {row : ScheduledTask} (w : s.Waits j job)
    (pc : job.pc = .reload) (found : s.rows job.task.id = some row) (id : row.id = job.task.id)
    (slug : row.slug = job.task.slug) :
    Step cron s (.reload j) (s.setJob j { job with pc := .reloaded (some row) }) :=
  .reload w pc (id ▸ found) slug

/-- A task that runs every minute. -/
def everyMinute : ScheduledTask := { onceAMinute with maxRuns := none }

/-- It fires, and its timer goes on. -/
theorem timers_kept_everyMinute : ∃ s row, Run (Guarded (KeepsTimers noCron) (Step noCron))
    (started 0 (oneRow everyMinute) 1 (fun _ => 0) [everyMinute]) (firesOnce ++ [.count 0, .reload 0, .go 0]) s ∧
      s.rows 0 = some row ∧ row.due = true ∧ row.runCount = 1 ∧
      ((∃ j job, s.jobs j = some job ∧ job.Live ∧ job.task.id = 0 ∧ s.tasks row.slug = some j) ∨
        ∃ j job, s.jobs j = some job ∧ job.Restarts row) := by
  have A : Timetable 0 (oneRow everyMinute) 1 [everyMinute] := by
    have planned : everyMinute.Planned := @ScheduledTask.Planned.of_nextTime noCron 0 _ (fun _ => rfl) fun _ => rfl
    refine oneRow_timetable rfl planned (fun _ => rfl) fun t h => ?_
    rcases h with h | h
    · cases h
      decide
    · cases h
  have rn : ∃ s row, Run (Guarded (KeepsTimers noCron) (Step noCron))
      (started 0 (oneRow everyMinute) 1 (fun _ => 0) [everyMinute]) (firesOnce ++ [.count 0, .reload 0, .go 0]) s ∧
        s.rows 0 = some row ∧ row.due = true ∧ row.runCount = 1 ∧ s.Settled 0 := by
    refine ⟨_, _, .cons ⟨?_, .begin ⟨rfl, rfl⟩ rfl⟩ <| .cons ⟨trivial, .tick⟩ <|
      .cons ⟨?_, .wake ⟨rfl, rfl⟩ rfl (by decide)⟩ <| .cons ⟨trivial, .mark ⟨rfl, rfl⟩ rfl rfl⟩ <|
      .cons ⟨trivial, .resolve ⟨rfl, rfl⟩ rfl⟩ <| .cons ⟨trivial, .dispatch ⟨rfl, rfl⟩ rfl⟩ <|
      .cons ⟨trivial, .endDispatch ⟨rfl, rfl⟩ rfl⟩ <| .cons ⟨?_, .count ⟨rfl, rfl⟩ rfl rfl⟩ <|
      .cons ⟨trivial, .reloadOwn ⟨rfl, rfl⟩ rfl rfl rfl rfl⟩ <| .cons ⟨?_, .go ⟨rfl, rfl⟩ rfl⟩ .nil, rfl, rfl, rfl, ?_⟩
    · refine ⟨fun job row serves => ?_, fun job row t once => ?_⟩
      · obtain ⟨h, -⟩ := serves
        cases h
        rfl
      · obtain ⟨⟨h, -, found, -⟩, type⟩ := once
        cases h
        cases found
        cases type
    · rintro job row ⟨⟨h, -, found, -⟩, type⟩
      cases h
      cases found
      cases type
    · rintro job row ⟨h, -, found⟩ -
      cases h
      cases found
      rfl
    · refine ⟨fun job row task serves pc => ?_, fun job task h other => ?_⟩
      · obtain ⟨h, -⟩ := serves
        cases h
        cases pc
        rfl
      · cases h
        exact absurd rfl other
    · exact ⟨fun o h => (by cases h), fun h => (by cases h), fun t h => by cases h⟩
  obtain ⟨s, row, rn, found, due, one, settled⟩ := rn
  exact ⟨s, row, rn, found, due, one, (timers_kept A rn).1 0 row found due settled⟩

/-- A one-shot in the session of an agent, in a minute. -/
def onceBusy : ScheduledTask :=
  { id := 0, slug := "report", name := "report", scheduleType := .at, atDatetime := some 60, sessionId := some "auto"
    nextFireAt := some 60 }

/-- The session is busy when its time comes. -/
def skips : List Event :=
  [.begin 0, .tick 60, .wake 0, .mark 0, .resolve 0 (.agent true), .reschedule 0, .reload 0, .go 0]

/-- A one-shot that is skipped keeps its next time, and no timer. -/
theorem skipped_for_ever : Timetable 0 (oneRow onceBusy) 1 [onceBusy] ∧ ∃ s row,
    Run (Step noCron) (started 0 (oneRow onceBusy) 1 (fun _ => 0) [onceBusy]) skips s ∧ s.rows 0 = some row ∧
      row.due = true ∧ s.Settled 0 ∧ ∀ j job, s.jobs j = some job → ¬ job.Live ∧ ¬ job.Restarts row := by
  have A : Timetable 0 (oneRow onceBusy) 1 [onceBusy] := by
    have planned : onceBusy.Planned := @ScheduledTask.Planned.of_nextTime noCron 0 _ (fun _ => rfl) fun _ => rfl
    refine oneRow_timetable rfl planned (fun _ => rfl) fun t h => ?_
    rcases h with h | h
    · cases h
      decide
    · cases h
      decide
  refine ⟨A, _, _, .cons (.begin ⟨rfl, rfl⟩ rfl) <| .cons .tick <| .cons (.wake ⟨rfl, rfl⟩ rfl (by decide)) <|
    .cons (.mark ⟨rfl, rfl⟩ rfl rfl) <| .cons (.resolve ⟨rfl, rfl⟩ rfl) <| .cons (.reschedule ⟨rfl, rfl⟩ rfl rfl) <|
    .cons (.reloadOwn ⟨rfl, rfl⟩ rfl rfl rfl rfl) <| .cons (.go ⟨rfl, rfl⟩ rfl) .nil, rfl, rfl, ?_, ?_⟩
  · exact ⟨fun o h => (by cases h), fun h => (by cases h), fun t h => by cases h⟩
  · intro j job h
    cases j with
    | zero =>
      cases h
      exact ⟨fun l => l.2.2.1 rfl, fun c => by cases c.1⟩
    | succ j => cases h

end OpenAgentd.Scheduler
