import OpenAgentd.Scheduler.Exclusive
import OpenAgentd.Scheduler.Planned

/-!
# Every task that is due has a timer

The invariant behind it (`Timed`), and what each part of a step does to it. A timer that lives is registered under the
slug of its row. It leaves its loop when its schedule gives no time or when the row it reads is not to be fired again;
until then it is ready for its row (`State.Ready`), unless an operation on the row is under way (`State.Held`).
-/

namespace OpenAgentd.Scheduler

/-- A timer that is neither over nor cancelled. -/
def Job.Live (job : Job) : Prop :=
  job.kind = .timer ∧ job.cancelled = false ∧ job.pc ≠ .finished ∧ job.pc ≠ .firing .cancelled

/-- A firing that starts the timer of a row at its end. -/
def Job.Restarts (job : Job) (row : ScheduledTask) : Prop :=
  job.kind = .overdue ∧ job.cancelled = false ∧ job.pc ≠ .finished ∧ job.pc ≠ .firing .cancelled ∧
    job.task.slug = row.slug ∧ row.scheduleType ≠ .at ∧
    ∀ fresh, job.pc = .reloaded fresh →
      ∃ task, fresh = some task ∧ task.id = row.id ∧ task.enabled = true ∧ task.scheduleType ≠ .at

/-- What a timer has seen of its row does not end it. -/
def State.Ready (s : State) (job : Job) (row : ScheduledTask) : Prop :=
  match job.pc with
  | .created => hasNext job.task = true
  | .asleep _ => True
  | .firing .claimed => s.stale job = false
  | .firing _ => s.stale job = false ∧ row.status ≠ .paused
  | .reload => row.scheduleType ≠ .at
  | .reloaded fresh => row.scheduleType ≠ .at ∧ ∃ task, fresh = some task ∧ task.enabled = true ∧
      scheduleExhausted task = false ∧ task.scheduleType ≠ .at ∧ hasNext task = true
  | .finished => False

/-- The operation starts a timer at its end, or leaves a row that is not due. -/
def Op.Settles (o : Op) : Prop := ∀ row, o.row = some row → row.due = true → o.restart = some row

/-- An operation that settles the task is under way. -/
def State.Held (s : State) (id : Nat) : Prop := ∃ o, s.op = some o ∧ o.id = id ∧ o.Settles

/-- The task is being added. -/
def State.Adding (s : State) (id : Nat) : Prop :=
  id ∈ s.adding ∨ ∃ task ∈ s.refreshed, task.id = id ∧ task.enabled = true

/-- A coroutine that fires the row again. -/
def Job.Covers (job : Job) (row : ScheduledTask) : Prop := job.Live ∧ job.task.id = row.id ∨ job.Restarts row

/-- Every row that is due, those in `Waits` apart, has a timer. -/
structure Timed (Waits : Nat → Prop) (s : State) : Prop where
  slugs : ∀ i k row row', s.rows i = some row → s.rows k = some row' → row.slug = row'.slug → i = k
  planned : ∀ i row, s.rows i = some row → row.Planned
  entries : ∀ slug j, s.tasks slug = some j →
    ∃ job, s.jobs j = some job ∧ job.kind = .timer ∧ (job.Live → job.task.slug = slug)
  timers : s.All fun j job => job.Live →
    s.tasks job.task.slug = some j ∧ ∃ row, s.rows job.task.id = some row ∧ row.slug = job.task.slug
  reads : s.All fun _ job => job.Live → ∀ task, job.pc = .reloaded (some task) →
    task.id = job.task.id ∧ task.slug = job.task.slug
  ready : s.All fun _ job => job.Live → ∀ row, s.rows job.task.id = some row → row.due = true →
    s.Ready job row ∨ s.Held job.task.id
  op : ∀ o, s.op = some o → (o.Settles ∨ s.rows o.id = o.row) ∧ (o.committed = true → s.rows o.id = o.row) ∧
    (∀ row, o.row = some row → row.Planned) ∧
    ∀ task, o.restart = some task → o.row = some task ∧ (task.due = true → hasNext task = true)
  keeps : s.All fun _ job => job.Live → ∀ o, s.op = some o → o.id = job.task.id →
    ∃ row, o.row = some row ∧ row.slug = job.task.slug
  covered : ∀ id row, s.rows id = some row → row.due = true →
    (∃ j job, s.jobs j = some job ∧ job.Covers row) ∨ s.Held id ∨ s.Adding id ∨ Waits id

section
variable {cron : Croniter} {W W' : Nat → Prop} {s s' : State} {e : Event} {i j id : Nat} {job job' : Job}
  {task row old : ScheduledTask} {slug : String} {kind : JobKind} {pc : Pc} {o : Op} {entry : Option Nat}
  {error : Option String} {fresh : Option ScheduledTask} {phase phase' : Phase}

/-- A cancelled job is not live. -/
lemma Job.not_live_cancel : ¬ job.cancel.Live := fun h => by cases h.2.1

/-- A job about to restart is not live. -/
lemma Job.Restarts.not_live (h : job.Restarts row) : ¬ job.Live := fun l => by
  have timer := l.1
  rw [h.1] at timer
  cases timer

/-- A timer stays ready while the version of its task does. -/
lemma State.Ready.of_version (h : s.Ready job row)
    (same : job.pc.isFiring = true → s'.fireVersions job.task.id = s.fireVersions job.task.id) :
    s'.Ready job row := by
  unfold State.Ready State.stale at h ⊢
  cases pc : job.pc with
  | firing phase =>
    rw [pc] at h
    rw [same (by rw [pc]; rfl)]
    exact h
  | _ =>
    rw [pc] at h
    exact h

/-- A timer stays ready when a firing writes its row. -/
lemma State.Ready.of_follows (h : s.Ready job old) (follows : old.Follows row) (due : row.due = true) :
    s.Ready job row := by
  have type := follows.scheduleType
  have runs : old.status ≠ .paused → row.status ≠ .paused := fun runs paused => runs (follows.paused due paused)
  unfold State.Ready at h ⊢
  cases pc : job.pc with
  | firing phase =>
    rw [pc] at h
    cases phase with
    | claimed => exact h
    | _ => exact ⟨h.1, runs h.2⟩
  | reload =>
    rw [pc] at h
    exact type ▸ h
  | reloaded fresh =>
    rw [pc] at h
    exact ⟨type ▸ h.1, h.2⟩
  | _ =>
    rw [pc] at h
    exact h

namespace Timed

/-- More rows may be waited for. -/
lemma mono (T : Timed W s) (h : ∀ i, W i → W' i) : Timed W' s :=
  { T with
    covered := fun id row found due =>
      (T.covered id row found due).imp_right fun c => c.imp_right fun c => c.imp_right (h id) }

/-- The timer of a row that is stored under its slug. -/
lemma id_of_live (T : Timed W s) (h : s.jobs j = some job) (live : job.Live)
    (found : s.rows i = some row) (same : row.slug = job.task.slug) : job.task.id = i := by
  obtain ⟨-, row', found', same'⟩ := T.timers j job h live
  exact T.slugs _ _ row' row found' found (same'.trans same.symm)

/-- A task has one timer. -/
lemma one (T : Timed W s) (h : s.jobs i = some job) (h' : s.jobs j = some job') (live : job.Live)
    (live' : job'.Live) (same : job.task.id = job'.task.id) : i = j := by
  obtain ⟨entry, row, found, slug⟩ := T.timers i job h live
  obtain ⟨entry', row', found', slug'⟩ := T.timers j job' h' live'
  rw [same, found'] at found
  cases found
  rw [← slug] at entry
  rw [← slug', entry] at entry'
  exact Option.some.inj entry'

/-! ## Coroutines -/

/-- A coroutine goes on. -/
lemma setJob (T : Timed W s) (h : s.jobs j = some job) (kind : job'.kind = job.kind)
    (live : job'.Live → job.Live ∧ job'.task.id = job.task.id ∧ job'.task.slug = job.task.slug)
    (reads : job'.Live → ∀ task, job'.pc = .reloaded (some task) →
      task.id = job'.task.id ∧ task.slug = job'.task.slug)
    (ready : job'.Live → ∀ row, s.rows job'.task.id = some row → row.due = true →
      s.Ready job' row ∨ s.Held job'.task.id)
    (covers : ∀ row, s.rows row.id = some row → row.due = true → job.Covers row →
      job'.Covers row ∨ s.Held row.id ∨ W row.id)
    (N : Numbered s) : Timed W (s.setJob j job') where
  slugs := T.slugs
  planned := T.planned
  entries := by
    intro slug i here
    obtain ⟨k, hk, timer, slug'⟩ := T.entries slug i here
    cases Classical.em (i = j) with
    | inl e =>
      rw [e, h] at hk
      cases hk
      refine ⟨job', by rw [jobs_setJob, if_pos e], kind.trans timer, fun l => ?_⟩
      rw [(live l).2.2]
      exact slug' (live l).1
    | inr ne => exact ⟨k, by rw [jobs_setJob, if_neg ne, hk], timer, slug'⟩
  timers := T.timers.setJob fun l => by
    obtain ⟨l', id, slug⟩ := live l
    rw [id, slug]
    exact T.timers j job h l'
  reads := T.reads.setJob reads
  ready := T.ready.setJob ready
  op := T.op
  keeps := T.keeps.setJob fun l o ho here => by
    obtain ⟨l', id, slug⟩ := live l
    rw [slug]
    exact T.keeps j job h l' o ho (here.trans id)
  covered := by
    intro id row found due
    refine (T.covered id row found due).elim (fun ⟨i, k, hk, c⟩ => ?_) .inr
    cases Classical.em (i = j) with
    | inl e =>
      rw [e, h] at hk
      cases hk
      have same := (N.rows id row found).1
      rw [← same] at found ⊢
      rcases covers row found due c with c | held | w
      · exact .inl ⟨j, job', by rw [jobs_setJob, if_pos rfl], c⟩
      · exact .inr (.inl held)
      · exact .inr (.inr (.inr w))
    | inr ne => exact .inl ⟨i, k, by rw [jobs_setJob, if_neg ne, hk], c⟩

/-- A coroutine goes on that keeps no timer, and ends or stays so. -/
lemma idle (T : Timed W s) (N : Numbered s) (h : s.jobs j = some job) (kind : job'.kind = job.kind)
    (no : ¬ job'.Live) (before : ∀ row, ¬ job.Covers row) : Timed W (s.setJob j job') :=
  T.setJob h kind (fun l => absurd l no) (fun l => absurd l no) (fun l => absurd l no)
    (fun row _ _ c => absurd c (before row)) N

/-- A new coroutine that is no timer. -/
lemma createTask (T : Timed W s) (N : Numbered s) (no : ¬ job.Live) : Timed W (s.createTask job) where
  slugs := T.slugs
  planned := T.planned
  entries := by
    intro slug i here
    obtain ⟨k, hk, timer⟩ := T.entries slug i here
    exact ⟨k, by rw [jobs_createTask, if_neg (N.lt hk).ne, hk], timer⟩
  timers := T.timers.createTask fun l => absurd l no
  reads := T.reads.createTask fun l => absurd l no
  ready := T.ready.createTask fun l => absurd l no
  op := T.op
  keeps := T.keeps.createTask fun l => absurd l no
  covered := by
    intro id row found due
    refine (T.covered id row found due).imp_left fun ⟨i, k, hk, c⟩ => ⟨i, k, ?_, c⟩
    rw [jobs_createTask, if_neg (N.lt hk).ne, hk]

/-- A timer that lives behind `_cancel_timer`. -/
lemma of_cancelTimer_live (T : Timed W s) (hk : (s.cancelTimer slug).jobs j = some job) (l : job.Live) :
    s.jobs j = some job ∧ s.tasks slug ≠ some j ∧ job.task.slug ≠ slug := by
  obtain ⟨k', hk', ⟨other, rfl⟩ | ⟨-, rfl⟩⟩ := of_cancelTimer hk
  · refine ⟨hk', other, fun e => other ?_⟩
    rw [← e]
    exact (T.timers j job hk' l).1
  · exact absurd l Job.not_live_cancel

/-- `_cancel_timer` takes the timer of the row with the slug. -/
lemma cancelTimer (T : Timed W s) (N : Numbered s) (slug : String) :
    Timed (fun i => W i ∨ ∃ row, s.rows i = some row ∧ row.slug = slug) (s.cancelTimer slug) := by
  refine ⟨T.slugs, T.planned, fun slug' i here => ?_, fun j k hk l => ?_, fun j k hk l => ?_, fun j k hk l => ?_,
    T.op, fun j k hk l => ?_, fun id row found due => ?_⟩
  · change Function.update s.tasks slug none slug' = some i at here
    rw [Function.update_apply] at here
    split at here
    · cases here
    · obtain ⟨k, hk, timer, same⟩ := T.entries slug' i here
      cases Classical.em (s.tasks slug = some i) with
      | inl e =>
        refine ⟨k.cancel, ?_, timer, fun l => absurd l Job.not_live_cancel⟩
        show (if s.tasks slug = some i then (s.jobs i).map Job.cancel else s.jobs i) = _
        rw [if_pos e, hk]
        rfl
      | inr ne =>
        refine ⟨k, ?_, timer, same⟩
        show (if s.tasks slug = some i then (s.jobs i).map Job.cancel else s.jobs i) = _
        rw [if_neg ne, hk]
  · obtain ⟨hk, -, ne⟩ := T.of_cancelTimer_live hk l
    obtain ⟨entry, stored⟩ := T.timers j k hk l
    refine ⟨?_, stored⟩
    show Function.update s.tasks slug none k.task.slug = some j
    rw [Function.update_of_ne ne, entry]
  · exact T.reads j k (T.of_cancelTimer_live hk l).1 l
  · exact T.ready j k (T.of_cancelTimer_live hk l).1 l
  · exact T.keeps j k (T.of_cancelTimer_live hk l).1 l
  · change s.rows id = some row at found
    rcases T.covered id row found due with ⟨j, k, hk, c⟩ | held | adding | waits
    · cases Classical.em (s.tasks slug = some j) with
      | inl here =>
        -- the coroutine is a timer, and that of the row with the slug
        obtain ⟨k', hk', timer, same⟩ := T.entries slug j here
        rw [hk] at hk'
        cases hk'
        rcases c with ⟨l, id'⟩ | restarts
        · obtain ⟨-, row', found', slug'⟩ := T.timers j k hk l
          rw [id', (N.rows id row found).1, found] at found'
          cases found'
          exact .inr (.inr (.inr (.inr ⟨row, found, slug'.trans (same l)⟩)))
        · rw [restarts.1] at timer
          cases timer
      | inr ne =>
        refine .inl ⟨j, k, ?_, c⟩
        show (if s.tasks slug = some j then (s.jobs j).map Job.cancel else s.jobs j) = some k
        rw [if_neg ne, hk]
    · exact .inr (.inl held)
    · exact .inr (.inr (.inl adding))
    · exact .inr (.inr (.inr (.inl waits)))

/-- A release takes no timer away. -/
lemma release (T : Timed W s)
    (ends : ∀ j job, s.jobs j = some job → job.pc.isFiring = true → job.task.id ≠ id) :
    Timed W (s.release id) :=
  { T with
    ready := by
      intro j job h l row found due
      refine (T.ready j job h l row found due).imp_left fun ready => ready.of_version fun firing => ?_
      unfold State.release
      dsimp only
      split
      · rw [Function.update_of_ne (ends j job h firing)]
      · rfl }

/-- `_invalidate_fire` on a task whose timer lives only while an operation settles it. -/
lemma invalidateFire (T : Timed W s) (id : Nat)
    (held : ∀ j job, s.jobs j = some job → job.Live → job.task.id = id → ∀ row, s.rows id = some row →
      row.due = true → s.Held id) : Timed W (s.invalidateFire id) :=
  { T with
    ready := by
      intro j job h l row found due
      cases Classical.em (job.task.id = id) with
      | inl e =>
        rw [e] at found ⊢
        exact .inr (held j job h l e row found due)
      | inr ne =>
        refine (T.ready j job h l row found due).imp_left fun ready => ready.of_version fun _ => ?_
        exact Function.update_of_ne ne _ _ }

/-- The registered timer of a slug without one. -/
lemma unregister (T : Timed W s) (free : ∀ j job, s.jobs j = some job → job.Live → job.task.slug ≠ slug) :
    Timed W (s.register slug none) :=
  { T with
    entries := by
      intro slug' i here
      change Function.update s.tasks slug none slug' = some i at here
      rw [Function.update_apply] at here
      split at here
      · cases here
      · exact T.entries slug' i here
    timers := by
      intro j job h l
      obtain ⟨entry, stored⟩ := T.timers j job h l
      refine ⟨?_, stored⟩
      show Function.update s.tasks slug none job.task.slug = some j
      rw [Function.update_of_ne (free j job h l), entry] }

/-- A firing writes its row. -/
lemma setRow (T : Timed W s) (N : Numbered s) (free : s.op = none) (found : s.rows id = some old)
    (follows : old.Follows row) (planned : row.Planned) : Timed W (s.setRow row) := by
  have here : row.id = id := follows.id.trans (N.rows id old found).1
  have rows : ∀ {i r}, (s.setRow row).rows i = some r → i = id ∧ r = row ∨ i ≠ id ∧ s.rows i = some r := by
    intro i r hr
    change Function.update s.rows row.id (some row) i = some r at hr
    rw [here, Function.update_apply] at hr
    split at hr
    · rename_i e
      cases hr
      exact .inl ⟨e, rfl⟩
    · rename_i ne
      exact .inr ⟨ne, hr⟩
  -- there is a row where there was one, with its slug
  have before : ∀ {i r}, (s.setRow row).rows i = some r → ∃ r', s.rows i = some r' ∧ r.slug = r'.slug := by
    intro i r hr
    rcases rows hr with ⟨rfl, rfl⟩ | ⟨-, hr⟩
    · exact ⟨old, found, follows.slug⟩
    · exact ⟨r, hr, rfl⟩
  have after : ∀ {i r}, s.rows i = some r → ∃ r', (s.setRow row).rows i = some r' ∧ r'.slug = r.slug := by
    intro i r hr
    show ∃ r', Function.update s.rows row.id (some row) i = some r' ∧ _
    rw [here, Function.update_apply]
    split
    · rename_i e
      rw [e, found] at hr
      cases hr
      exact ⟨row, rfl, follows.slug⟩
    · exact ⟨r, hr, rfl⟩
  refine ⟨fun i k r r' hr hr' same => ?_, fun i r hr => ?_, T.entries, fun j job h l => ?_, T.reads,
    fun j job h l r hr due => ?_, fun o ho => ?_, T.keeps, fun i r hr due => ?_⟩
  · obtain ⟨q, hq, e⟩ := before hr
    obtain ⟨q', hq', e'⟩ := before hr'
    exact T.slugs i k q q' hq hq' (e.symm.trans (same.trans e'))
  · rcases rows hr with ⟨-, rfl⟩ | ⟨-, hr⟩
    · exact planned
    · exact T.planned i r hr
  · obtain ⟨entry, r, hr, slug⟩ := T.timers j job h l
    obtain ⟨r', hr', slug'⟩ := after hr
    exact ⟨entry, r', hr', slug'.trans slug⟩
  · rcases rows hr with ⟨e, rfl⟩ | ⟨-, hr⟩
    · refine (T.ready j job h l old (e ▸ found) (follows.due due)).imp_left fun ready => ready.of_follows follows due
    · exact T.ready j job h l r hr due
  · rw [show (s.setRow row).op = s.op from rfl, free] at ho
    cases ho
  · rcases rows hr with ⟨e, rfl⟩ | ⟨-, hr⟩
    · refine (T.covered i old (e ▸ found) (follows.due due)).imp_left fun ⟨j, job, h, c⟩ => ⟨j, job, h, ?_⟩
      refine c.imp (fun ⟨l, e⟩ => ⟨l, e.trans follows.id.symm⟩) fun c => ?_
      obtain ⟨kind, alive, unfinished, uncancelled, slug, type, fresh⟩ := c
      refine ⟨kind, alive, unfinished, uncancelled, slug.trans follows.slug.symm, follows.scheduleType ▸ type, ?_⟩
      rw [follows.id]
      exact fresh
    · exact T.covered i r hr due

/-! ## Operations -/

/-- An operation takes the lock. -/
lemma lock (T : Timed W s) (free : s.op = none) (before : o.committed = false)
    (settles : o.Settles ∨ s.rows o.id = o.row) (planned : ∀ row, o.row = some row → row.Planned)
    (restart : ∀ task, o.restart = some task → o.row = some task ∧ (task.due = true → hasNext task = true))
    (keeps : ∀ j job, s.jobs j = some job → job.Live → job.task.id = o.id →
      ∃ row, o.row = some row ∧ row.slug = job.task.slug)
    (waits : ∀ i, W i → W' i ∨ i = o.id ∧ o.Settles) : Timed W' (s.setOp (some o)) := by
  have none_held : ∀ {i}, ¬ s.Held i := by
    rintro i ⟨o', ho', -⟩
    rw [free] at ho'
    cases ho'
  refine ⟨T.slugs, T.planned, T.entries, T.timers, T.reads, fun j job h l row found due => ?_, fun o' ho' => ?_,
    fun j job h l o' ho' same => ?_, fun id row found due => ?_⟩
  · exact .inl ((T.ready j job h l row found due).resolve_right none_held)
  · cases ho'
    refine ⟨settles, fun done => ?_, planned, restart⟩
    rw [before] at done
    cases done
  · cases ho'
    exact keeps j job h l same.symm
  · rcases T.covered id row found due with c | held | adding | w
    · exact .inl c
    · exact absurd held none_held
    · exact .inr (.inr (.inl adding))
    · rcases waits id w with w | ⟨here, settles⟩
      · exact .inr (.inr (.inr w))
      · exact .inr (.inl ⟨o, rfl, here.symm, settles⟩)

/-- An operation leaves the lock. -/
lemma unlock (T : Timed W s) (ho : s.op = some o)
    (ready : ∀ j job, s.jobs j = some job → job.Live → job.task.id = o.id → ∀ row, s.rows o.id = some row →
      row.due = true → s.Ready job row)
    (covers : ∀ row, s.rows o.id = some row → row.due = true →
      (∃ j job, s.jobs j = some job ∧ job.Covers row) ∨ s.Adding o.id ∨ W o.id) : Timed W (s.setOp none) := by
  have held : ∀ {i}, s.Held i → i = o.id := by
    rintro i ⟨o', ho', here, -⟩
    rw [ho] at ho'
    cases ho'
    exact here.symm
  refine ⟨T.slugs, T.planned, T.entries, T.timers, T.reads, fun j job h l row found due => ?_, fun o' ho' => ?_,
    fun j job h l o' ho' => ?_, fun id row found due => ?_⟩
  · refine .inl ((T.ready j job h l row found due).elim (fun ready => ready) fun here => ?_)
    rw [held here] at found
    exact ready j job h l (held here) row found due
  · cases ho'
  · cases ho'
  · rcases T.covered id row found due with c | here | adding | w
    · exact .inl c
    · have e := held here
      subst e
      exact (covers row found due).imp_right .inr
    · exact .inr (.inr (.inl adding))
    · exact .inr (.inr (.inr w))

/-- A new timer under a slug without one. -/
lemma newTimer (T : Timed W s) (N : Numbered s) (empty : s.tasks task.slug = none)
    (found : s.rows task.id = some row) (slug : row.slug = task.slug) (ready : row.due = true → hasNext task = true)
    (keeps : ∀ o, s.op = some o → o.id = task.id → ∃ r, o.row = some r ∧ r.slug = task.slug) :
    Timed (fun i => W i ∧ i ≠ task.id)
      ((s.createTask { kind := .timer, task }).register task.slug (some s.nextJob)) := by
  have live : Job.Live { kind := .timer, task } := ⟨rfl, rfl, nofun, nofun⟩
  have new : (s.createTask { kind := .timer, task }).jobs s.nextJob = some { kind := .timer, task } := by
    rw [jobs_createTask, if_pos rfl]
  have jobs : ∀ {i k}, s.jobs i = some k → (s.createTask { kind := .timer, task }).jobs i = some k := by
    intro i k hk
    rw [jobs_createTask, if_neg (N.lt hk).ne, hk]
  refine ⟨T.slugs, T.planned, fun slug' i here => ?_, fun j k hk l => ?_,
    T.reads.createTask (fun _ t e => by cases e), T.ready.createTask fun _ r hr due => ?_, T.op,
    T.keeps.createTask fun _ => keeps, fun id r hr due => ?_⟩
  · change Function.update s.tasks task.slug _ slug' = some i at here
    rw [Function.update_apply] at here
    split at here
    · rename_i e
      cases here
      exact ⟨{ kind := .timer, task }, new, rfl, fun _ => e.symm⟩
    · obtain ⟨k, hk, timer⟩ := T.entries slug' i here
      exact ⟨k, jobs hk, timer⟩
  · change (s.createTask _).jobs j = some k at hk
    rw [jobs_createTask] at hk
    show Function.update s.tasks task.slug (some s.nextJob) k.task.slug = some j ∧ _
    split at hk
    · rename_i e
      cases hk
      exact ⟨by rw [Function.update_self, e], row, found, slug⟩
    · obtain ⟨entry, stored⟩ := T.timers j k hk l
      refine ⟨?_, stored⟩
      rw [Function.update_of_ne, entry]
      intro e
      rw [e, empty] at entry
      cases entry
  · cases found.symm.trans hr
    exact .inl (ready due)
  · cases Classical.em (id = task.id) with
    | inl e => exact .inl ⟨s.nextJob, _, new, .inl ⟨live, e.symm.trans (N.rows id r hr).1.symm⟩⟩
    | inr ne =>
      rcases T.covered id r hr due with ⟨j, k, hk, c⟩ | held | adding | w
      · exact .inl ⟨j, k, jobs hk, c⟩
      · exact .inr (.inl held)
      · exact .inr (.inr (.inl adding))
      · exact .inr (.inr (.inr ⟨w, ne⟩))

/-- `_start_timer` on a row that is stored. -/
lemma startTimer (T : Timed W s) (N : Numbered s) (found : s.rows task.id = some row)
    (slug : row.slug = task.slug) (ready : row.due = true → hasNext task = true)
    (keeps : ∀ o, s.op = some o → o.id = task.id → ∃ r, o.row = some r ∧ r.slug = task.slug) :
    Timed (fun i => W i ∧ i ≠ task.id) (s.startTimer task) := by
  have T' := (T.cancelTimer N task.slug).newTimer (N.cancelTimer _)
    (Function.update_self _ _ _) found slug ready keeps
  refine T'.mono fun i ⟨w, ne⟩ => ⟨w.resolve_right ?_, ne⟩
  rintro ⟨row', found', slug'⟩
  exact ne (T.slugs _ _ row' row found' found (slug'.trans slug.symm))

/-- The timers behind `_start_timer`: the new one, and those of other tasks. -/
lemma of_startTimer (T : Timed W s) (found : s.rows task.id = some row)
    (slug : row.slug = task.slug) (h : (s.startTimer task).jobs j = some job) (live : job.Live) :
    job = { kind := .timer, task } ∨ s.jobs j = some job ∧ job.task.id ≠ task.id := by
  change (s.cancelTimer task.slug |>.createTask { kind := .timer, task }).jobs j = some job at h
  rw [jobs_createTask] at h
  split at h
  · cases h
    exact .inl rfl
  · obtain ⟨k, hk, ⟨other, rfl⟩ | ⟨-, rfl⟩⟩ := of_cancelTimer h
    · refine .inr ⟨hk, fun same => other ?_⟩
      obtain ⟨entry, row', found', slug'⟩ := T.timers j job hk live
      rw [same, found] at found'
      cases found'
      rw [← slug, slug', entry]
    · exact absurd live Job.not_live_cancel

/-! ## Firings -/

/-- A coroutine goes on to a place where it is still at work. -/
lemma onward (T : Timed W s) (N : Numbered s) (h : s.jobs j = some job) (kind : job'.kind = job.kind)
    (id : job'.task.id = job.task.id) (slug : job'.task.slug = job.task.slug)
    (cancelled : job'.cancelled = job.cancelled) (before : job.pc ≠ .finished ∧ job.pc ≠ .firing .cancelled)
    (after : job'.pc ≠ .finished ∧ job'.pc ≠ .firing .cancelled) (plain : ∀ fresh, job'.pc ≠ .reloaded fresh)
    (ready : job.Live → ∀ row, s.rows job.task.id = some row → row.due = true →
      s.Ready job' row ∨ s.Held job.task.id) : Timed W (s.setJob j job') := by
  have live : job'.Live → job.Live := fun ⟨k, c, _⟩ => ⟨kind ▸ k, cancelled ▸ c, before⟩
  refine T.setJob h kind (fun l => ⟨live l, id, slug⟩) (fun _ t e => absurd e (plain _)) (fun l => ?_)
    (fun row _ _ c => .inl ?_) N
  · rw [id]
    exact ready (live l)
  · refine c.imp (fun ⟨⟨k, c, _⟩, same⟩ => ⟨⟨kind.trans k, cancelled.trans c, after⟩, id.trans same⟩) fun r => ?_
    obtain ⟨k, c, -, -, slug', type, -⟩ := r
    exact ⟨kind.trans k, cancelled.trans c, after.1, after.2, slug.trans slug', type, fun f e => absurd e (plain f)⟩

/-- A manual firing covers no row. -/
lemma not_covers_of_fire (kind : job.kind = .fire) : ¬ job.Covers row := by
  rintro (⟨⟨timer, -⟩, -⟩ | ⟨overdue, -⟩)
  · rw [kind] at timer
    cases timer
  · rw [kind] at overdue
    cases overdue

/-- The firing of a task is over. -/
lemma released (T : Timed W (s.setJob j job')) (X : Exclusive s) (h : s.jobs j = some job)
    (firing : job.pc.isFiring = true) (ends : job'.pc.isFiring = false) :
    Timed W ((s.setJob j job').release job.task.id) := by
  refine T.release fun i k hk f same => ?_
  rw [jobs_setJob] at hk
  split at hk
  · cases hk
    rw [ends] at f
    cases f
  · rename_i ne
    exact ne (X.alone i j k job hk h f firing same)

/-- A firing ends and its coroutine goes on. -/
lemma endFire (T : Timed W s) (N : Numbered s) (X : Exclusive s) (h : s.jobs j = some job)
    (pc : job.pc = .firing phase) (alive : phase ≠ .cancelled)
    (ends : job.Live → ∀ row, s.rows job.task.id = some row → row.due = true →
      row.scheduleType ≠ .at ∨ s.Held job.task.id) :
    Timed W (s.endFire j job (State.afterFire job.kind)) := by
  have before : job.pc ≠ .finished ∧ job.pc ≠ .firing .cancelled := by
    rw [pc]
    exact ⟨nofun, fun e => alive (Pc.firing.inj e)⟩
  have firing : job.pc.isFiring = true := by
    rw [pc]
    rfl
  cases Classical.em (job.kind = .fire) with
  | inl fire =>
    have T' : Timed W (s.setJob j { job with pc := State.afterFire job.kind }) := by
      refine T.idle N h rfl (fun l => ?_) fun row => not_covers_of_fire fire
      have timer : job.kind = .timer := l.1
      rw [fire] at timer
      cases timer
    exact T'.released X h firing isFiring_afterFire
  | inr other =>
    have after : State.afterFire job.kind = .reload := by
      cases kind : job.kind with
      | fire => exact absurd kind other
      | _ => rfl
    rw [after]
    have T' : Timed W (s.setJob j { job with pc := .reload }) :=
      T.onward N h rfl rfl rfl rfl before ⟨nofun, nofun⟩ (fun _ e => by cases e) ends
    exact T'.released X h firing rfl

/-- A firing that was cancelled ends. -/
lemma dropped (T : Timed W s) (N : Numbered s) (X : Exclusive s) (h : s.jobs j = some job)
    (firing : job.pc.isFiring = true) (dead : ∀ row, ¬ job.Covers row) (kind : job'.kind = job.kind)
    (task : job'.task = job.task) : Timed W (s.endFire j job' .finished) := by
  have T' : Timed W (s.setJob j { job' with pc := .finished }) := T.idle N h kind (fun l => l.2.2.1 rfl) dead
  have T'' := T'.released X h firing rfl
  rwa [← task] at T''

/-- A firing ends at an exception, and its coroutine with it. -/
lemma aborted (T : Timed W s) (N : Numbered s) (X : Exclusive s) (h : s.jobs j = some job)
    (firing : job.pc.isFiring = true) (fire : job.kind = .fire) : Timed W (s.endFire j job .finished) := by
  have T' : Timed W (s.setJob j { job with pc := .finished }) :=
    T.idle N h rfl (fun l => l.2.2.1 rfl) fun row => not_covers_of_fire fire
  exact T'.released X h firing rfl

/-- A coroutine begins to fire, or finds that it shall not. -/
lemma fireTask (T : Timed W s) (N : Numbered s) (h : s.jobs j = some job) (kind : job'.kind = job.kind)
    (id : job'.task.id = job.task.id) (slug : job'.task.slug = job.task.slug)
    (cancelled : job'.cancelled = job.cancelled) (before : job.pc ≠ .finished ∧ job.pc ≠ .firing .cancelled)
    (free : job.Live → ∀ row, s.rows job.task.id = some row → row.due = true → row.scheduleType = .at →
      job.task.id ∉ s.firingIds ∨ s.Held job.task.id) : Timed W (s.fireTask j job') := by
  unfold State.fireTask
  split
  · rename_i refused
    cases Classical.em (job'.kind = .fire) with
    | inl fire =>
      refine T.idle N h kind (fun l => ?_) fun row => not_covers_of_fire (kind ▸ fire)
      have timer : job'.kind = .timer := l.1
      rw [fire] at timer
      cases timer
    | inr other =>
      have after : State.afterFire job'.kind = .reload := by
        cases k : job'.kind with
        | fire => exact absurd k other
        | _ => rfl
      rw [after]
      refine T.onward N h kind id slug cancelled before ⟨nofun, nofun⟩ (fun _ e => by cases e) fun l row found due => ?_
      -- the version of a timer is the current one, so that its task is being fired
      have timer : job'.kind = .timer := kind.trans l.1
      rw [State.fireVersion, if_pos timer, id] at refused
      have firing := refused.resolve_left fun ne => ne rfl
      cases Classical.em (row.scheduleType = .at) with
      | inl type => exact .inr ((free l row found due type).resolve_left fun free => free firing)
      | inr type => exact .inl type
  · have T' : Timed W (s.setJob j { job' with version := s.fireVersion job', pc := .firing .claimed }) := by
      refine T.onward N h kind id slug cancelled before ⟨nofun, nofun⟩ (fun _ e => by cases e) fun l row found due => ?_
      have timer : job'.kind = .timer := kind.trans l.1
      refine .inl ?_
      show s.stale { job' with version := s.fireVersion job', pc := .firing .claimed } = false
      rw [State.stale, State.fireVersion, if_pos timer]
      simp
    exact { T' with }

/-- A timer ends at an exception. -/
lemma broken (T : Timed W s) (N : Numbered s) (h : s.jobs j = some job) (live : job.Live) (kind : job'.kind = job.kind)
    (gone : ∀ row, s.rows job.task.id = some row → row.due = true → s.Held job.task.id) :
    Timed W (s.setJob j { job' with pc := .finished }) := by
  have dead : ¬ Job.Live { job' with pc := .finished } := fun l => l.2.2.1 rfl
  refine T.setJob h kind (fun l => absurd l dead) (fun l => absurd l dead) (fun l => absurd l dead)
    (fun row found due c => ?_) N
  rcases c with ⟨-, same⟩ | r
  · rw [← same] at found ⊢
    exact .inr (.inl (gone row found due))
  · exact absurd live r.not_live

/-- A timer leaves its loop. -/
lemma leaveLoop (T : Timed W s) (N : Numbered s) (h : s.jobs j = some job) (live : job.Live)
    (kind : job'.kind = job.kind) (slug : job'.task.slug = job.task.slug)
    (gone : ∀ row, s.rows job.task.id = some row → row.due = true → s.Held job.task.id) :
    Timed W (s.leaveLoop j job') := by
  have T' : Timed W (s.setJob j { job' with pc := .finished }) := T.broken N h live kind gone
  refine T'.unregister fun i k hk l same => ?_
  rw [jobs_setJob] at hk
  split at hk
  · cases hk
    exact l.2.2.1 rfl
  · rename_i ne
    -- the slug has one timer, and that is the one that leaves
    have here := (T.timers i k hk l).1
    rw [same, slug, (T.timers j job h live).1] at here
    exact ne (Option.some.inj here).symm

/-- A timer waits for its next time, or fires, or leaves. -/
lemma timerLoop (T : Timed W s) (N : Numbered s) (h : s.jobs j = some job) (live : job.Live)
    (kind : job'.kind = job.kind) (id : job'.task.id = job.task.id) (slug : job'.task.slug = job.task.slug)
    (cancelled : job'.cancelled = job.cancelled)
    (returns : ∀ row, s.rows job.task.id = some row → row.due = true →
      refused cron s.now job'.task = false ∨ s.Held job.task.id)
    (next : ∀ row, s.rows job.task.id = some row → row.due = true → hasNext job'.task = true ∨ s.Held job.task.id)
    (free : ∀ t row, nextFire cron s.now job'.task = .ok (some t) → t ≤ s.now → s.rows job.task.id = some row →
      row.due = true → row.scheduleType = .at → job.task.id ∉ s.firingIds ∨ s.Held job.task.id) :
    Timed W (s.timerLoop j job' cron) := by
  have before := live.2.2
  unfold State.timerLoop
  split
  · rename_i raises
    refine T.broken N h live kind fun row found due => (returns row found due).resolve_left fun ok => ?_
    rw [refused, raises] at ok
    cases ok
  · rename_i none
    refine T.leaveLoop N h live kind slug fun row found due => (next row found due).resolve_left fun some => ?_
    have ok : refused cron s.now job'.task = false := by
      rw [refused, none]
      rfl
    rw [← nextTime_isSome ok, nextTime, none] at some
    cases some
  · rename_i t time
    split
    · exact T.onward N h kind id slug cancelled before ⟨nofun, nofun⟩ (fun _ e => by cases e)
        fun _ _ _ _ => .inl trivial
    · rename_i now
      exact T.fireTask N h kind id slug cancelled before fun _ row => free t row time (not_lt.mp now)

/-- A new coroutine that is no timer. -/
lemma spawnFire (T : Timed W s) (N : Numbered s) (other : kind ≠ .timer) : Timed W (s.spawnFire kind task) :=
  have T' : Timed W (s.createTask { kind, task, version := s.fireVersions task.id }) :=
    T.createTask N fun l => other l.1
  { T' with }

/-- A firing goes on that has begun. -/
lemma goOn (T : Timed W s) (N : Numbered s) (h : s.jobs j = some job) (pc : job.pc = .firing phase)
    (before : phase ≠ .claimed ∧ phase ≠ .cancelled) (after : phase' ≠ .claimed ∧ phase' ≠ .cancelled) :
    Timed W (s.setJob j { job with pc := .firing phase' }) := by
  have going : ∀ {p : Phase}, p ≠ .cancelled → Pc.firing p ≠ .finished ∧ Pc.firing p ≠ .firing .cancelled :=
    fun ne => ⟨fun e => (by cases e), fun e => ne (Pc.firing.inj e)⟩
  refine T.onward N h rfl rfl rfl rfl (pc ▸ going before.2) (going after.2) (fun _ e => by cases e)
    fun l row found due => ?_
  refine (T.ready j job h l row found due).imp_left fun ready => ?_
  have state : s.stale job = false ∧ row.status ≠ .paused := by
    unfold State.Ready at ready
    rw [pc] at ready
    cases phase with
    | claimed => exact absurd rfl before.1
    | _ => exact ready
  cases phase' with
  | claimed => exact absurd rfl after.1
  | _ => exact state

/-- `_discard`. -/
lemma discard (T : Timed W s) (X : Exclusive s) (h : s.jobs j = some job) (pc : job.pc = .finished)
    (kind : job.kind ≠ .timer) : Timed W (s.discard j job) := by
  have kept : ∀ {i k}, (s.discard j job).jobs i = some k → s.jobs i = some k := by
    intro i k hk
    change Function.update s.jobs j none i = some k at hk
    rw [Function.update_apply] at hk
    split at hk
    · cases hk
    · exact hk
  have keeps : ∀ {i k}, s.jobs i = some k → (k.kind = .timer ∨ k.pc ≠ .finished) →
      (s.discard j job).jobs i = some k := by
    intro i k hk other
    show Function.update s.jobs j none i = some k
    rw [Function.update_of_ne, hk]
    rintro rfl
    rw [h] at hk
    cases hk
    exact other.elim kind fun ne => ne pc
  refine ⟨T.slugs, T.planned, fun slug i here => ?_, fun i k hk => T.timers i k (kept hk),
    fun i k hk => T.reads i k (kept hk), fun i k hk l row found due => ?_, T.op, fun i k hk => T.keeps i k (kept hk),
    fun id row found due => ?_⟩
  · obtain ⟨k, hk, timer, same⟩ := T.entries slug i here
    exact ⟨k, keeps hk (.inl timer), timer, same⟩
  · refine (T.ready i k (kept hk) l row found due).imp_left fun ready => ready.of_version fun firing => ?_
    have claimed := X.claims i k (kept hk) firing
    unfold State.discard
    dsimp only
    split
    · rename_i free
      rw [Function.update_of_ne]
      intro e
      rw [e] at claimed
      exact free.2 claimed
    · rfl
  · refine (T.covered id row found due).imp_left fun ⟨i, k, hk, c⟩ => ⟨i, k, keeps hk ?_, c⟩
    exact .inr (c.elim (fun c => c.1.2.2.1) fun c => c.2.2.1)

/-- An operation keeps its task from firing: no timer of it lives. -/
lemma halt (T : Timed W s) (N : Numbered s) (found : s.rows row.id = some row) :
    Timed (fun i => W i ∨ i = row.id) (s.halt row.id row.slug) ∧
      ∀ j job, (s.halt row.id row.slug).jobs j = some job → job.Live → job.task.id ≠ row.id := by
  have gone : ∀ j job, (s.cancelTimer row.slug).jobs j = some job → job.Live → job.task.id ≠ row.id := by
    intro j job h l same
    obtain ⟨old, -, other⟩ := T.of_cancelTimer_live h l
    obtain ⟨-, row', found', slug⟩ := T.timers j job old l
    rw [same, found] at found'
    cases found'
    exact other slug.symm
  have T' := (T.cancelTimer N row.slug).invalidateFire row.id fun j job h l same =>
    absurd same (gone j job h l)
  refine ⟨T'.mono fun i w => w.imp_right ?_, gone⟩
  rintro ⟨row', found', slug⟩
  exact T.slugs _ _ row' row found' found slug

end Timed

end

end OpenAgentd.Scheduler
