import OpenAgentd.Session.OneTurn

/-!
# Stopping a turn

`handle_stop` sets the event, cancels the task and then awaits the database. `Apart` is the condition under which the
event stays set until the stop is done: no entry point, which would clear it, is under way meanwhile. `Stopping` is
what holds of the cancelled tasks and of the event along such runs, `Calls` what each segment of a call may change.
-/

namespace OpenAgentd.Session
open OpenAgentd.Lib

/-- A stop between its cancellation and its end. -/
def Proc.halting : Proc → Bool
  | .call .haltRead | .call (.haltResolve _) | .call .haltIdle => true
  | _ => false

/-- A dismissal between its commit and the end of the turn. -/
def Proc.dismissing : Proc → Bool
  | .call .dismissEmit | .call .dismissActivating => true
  | _ => false

/-- A stop sets the event. -/
def Halts (p : Proc) (out : List Proc) : Prop := p = .call .stopBusy ∧ out ≠ []

/-- A question is dismissed: the turn that it parked is to end. -/
def Dismisses (p : Proc) (out : List Proc) : Prop :=
  p = .call .dismissed ∧ out ≠ [] ∨ ∃ q, p = .call (.questionDismiss q)

/-- No entry point is under way while a turn is being stopped. -/
def Apart (_ : System) : Act → Prop
  | .arrives _ => True
  | .runs before p after out =>
    (Halts p out → ∀ o ∈ before ++ after, o.underWay = false) ∧
      (Begins p out → ∀ o ∈ before ++ after, o.halting = false)

/-- What a call may change. -/
structure Calls (l : Live) (db : Db) (c : Call) (l' : Live) (db' : Db) (out : List Proc) : Prop where
  cancel : l'.cancel = l.cancel ∨ l'.cancel = true ∧ Halts (.call c) out ∨ l'.cancel = false ∧ c.underWay = true
  cancelled : l'.cancelled = l.cancelled ∨
    l'.cancelled = l.cancelled ++ l.activeTask.toList ∧ Halts (.call c) out
  next : l'.next = l.next ∧ l'.activeTask = l.activeTask ∨
    l'.next = l.next + 1 ∧ l'.activeTask = some l.next ∧ c.underWay = true
  state : l'.state = l.state ∨
    l'.state = .working ∧ (c.underWay = true ∨ Begins (.call c) out) ∨
    l'.state = .idle ∧ ((Proc.call c).halting = true ∨ Dismisses (.call c) out)
  hasActive : l'.hasActive = l.hasActive ∨ l'.hasActive = true ∨ (Proc.call c).dismissing = true
  queued : db'.queued = db.queued ∨ db'.queued = [] ∨ (∃ id, c = .chatQueueing id) ∧ out ≠ [] ∨
    ∃ id, db'.queued = db.queued.filter (· ≠ id)
  halting : ∀ o ∈ out, o.halting = true → (Proc.call c).halting = true ∨ Halts (.call c) out
  dismissing : ∀ o ∈ out, o.dismissing = true → (Proc.call c).dismissing = true ∨ Dismisses (.call c) out
  turns : ∀ t, .turn t ∈ out → t = ⟨l.next, .created⟩ ∧ l'.cancelled = l.cancelled ∧ l'.activeTask = some l.next
  underWay : ∀ o ∈ out, o.underWay = true → c.underWay = true ∨ Begins (.call c) out
  stops : Halts (.call c) out → l'.cancel = true ∧ l'.cancelled = l.cancelled ++ l.activeTask.toList
  still : (Proc.call c).halting = true ∨ Halts (.call c) out → c.underWay = false ∧ ¬ Begins (.call c) out

section
variable {l l' : Live} {db db' : Db} {c : Call} {out : List Proc}

/-- What a call does to the queue. -/
lemma CallAdv.queued (h : CallAdv l db c l' db' out) : db'.queued = db.queued ∨ db'.queued = [] ∨
    (∃ id, c = .chatQueueing id) ∧ out ≠ [] ∨ ∃ id, db'.queued = db.queued.filter (· ≠ id) := by
  cases h with
  | superseded r => exact .inl r.queued
  | answerWins r => exact .inl r.queued
  | methodAnswers r => exact .inl r.queued
  | dismissWins r => exact .inl r.queued
  | methodDismisses r => exact .inl r.queued
  | stopResolves r => exact .inl r.queued
  | haltResolves r => exact .inl r.queued
  | commits => exact .inr (.inr (.inl ⟨⟨_, rfl⟩, List.cons_ne_nil _ _⟩))
  | unqueues => exact .inr (.inr (.inr ⟨_, rfl⟩))
  | _ => simp

/-- What a call may do. -/
lemma CallAdv.calls (h : CallAdv l db c l' db' out) : Calls l db c l' db' out := by
  have queued := h.queued
  cases h with
  | dismisses =>
    -- the turn of the question was waiting for it, or the state stays
    by_cases waits : l.state = .waitingInput <;> constructor <;> first
      | exact queued
      | simp_all [Begins, Proc.takesTurn, Proc.isTurn, Proc.underWay, Call.underWay, Halts, Dismisses, Proc.halting,
          Proc.dismissing]
  | chatFails which =>
    obtain rfl | ⟨id, rfl⟩ | rfl := which <;> constructor <;> first
      | exact queued
      | simp_all [Begins, Proc.takesTurn, Proc.isTurn, Proc.underWay, Call.underWay, Halts, Dismisses, Proc.halting,
          Proc.dismissing]
  | _ =>
    constructor <;> first
      | exact queued
      | simp_all [Begins, Proc.takesTurn, Proc.isTurn, Proc.underWay, Call.underWay, Live.launch, Live.halt, Halts,
          Dismisses, Proc.halting, Proc.dismissing]

/-- The tasks that are asked to cancel, and the active one, were created. -/
lemma Calls.fresh (h : Calls l db c l' db' out) (fresh : ∀ i ∈ l.cancelled ++ l.activeTask.toList, i < l.next) :
    ∀ i ∈ l'.cancelled ++ l'.activeTask.toList, i < l'.next := by
  have old (i : Nat) (hi : i ∈ l'.cancelled) : i < l.next := by
    apply fresh
    cases h.cancelled with
    | inl same =>
      rw [same] at hi
      exact List.mem_append_left _ hi
    | inr more =>
      rw [more.1] at hi
      exact hi
  intro i hi
  rw [List.mem_append] at hi
  obtain ⟨next, active⟩ | ⟨next, active, _⟩ := h.next
  · rw [next]
    rw [active] at hi
    exact hi.elim (old i) fun h => fresh i (List.mem_append_right _ h)
  · rw [next]
    rw [active] at hi
    cases hi with
    | inl hi => exact Nat.lt_succ_of_lt (old i hi)
    | inr hi =>
      rw [List.mem_singleton.mp hi]
      exact Nat.lt_succ_self _

end

/-! ## Turns -/

section
variable {l l' : Live} {db db' : Db} {t : Turn} {ts : List Turn} {i : Nat} {pc : TurnPc}

/-- A segment of a turn leaves the event alone and goes on with the task, or starts the task for what was queued. -/
inductive Goes (l : Live) (t : Turn) (l' : Live) (ts : List Turn) : Prop where
  | on :
    l'.cancel = l.cancel →
    l'.activeTask = l.activeTask →
    l'.next = l.next →
    (∀ i ∈ l'.cancelled, i ∈ l.cancelled) →
    (∀ u ∈ ts, u.id = t.id ∧ (u.pc = .draining → l.cancel = false)) →
    Goes l t l' ts
  | queued :
    t.pc = .draining →
    t.id ∉ l.cancelled →
    l' = l.launch →
    ts = [⟨l.next, .created⟩] →
    Goes l t l' ts

/-- A turn that goes on as one. -/
lemma Goes.one (cancel : l'.cancel = l.cancel) (active : l'.activeTask = l.activeTask) (next : l'.next = l.next)
    (cancelled : ∀ i ∈ l'.cancelled, i ∈ l.cancelled) (drain : pc = .draining → l.cancel = false) :
    Goes l t l' [⟨t.id, pc⟩] := by
  refine .on cancel active next cancelled fun u h => ?_
  rw [List.mem_singleton.mp h]
  exact ⟨rfl, drain⟩

/-- A turn whose final part goes on. -/
lemma Final.goes {m : Live} (h : Final m l' pc) (cancel : m.cancel = l.cancel) (active : m.activeTask = l.activeTask)
    (next : m.next = l.next) (cancelled : ∀ i ∈ m.cancelled, i ∈ l.cancelled) : Goes l t l' [⟨t.id, pc⟩] := by
  cases h with
  | drain _ _ off => exact .one cancel active next cancelled fun _ => cancel.symm.trans off
  | park _ _ => exact .one cancel active next cancelled nofun
  | stopped _ _ _ => exact .one cancel active next cancelled nofun
  | failed _ => exact .one cancel active next cancelled nofun

/-- What a turn may do. -/
lemma TurnAdv.goes (h : TurnAdv l db t l' db' ts) : Goes l t l' ts := by
  cases h with
  | returns _ _ final => exact final.goes rfl rfl rfl fun _ h => h
  | suspends _ _ final => exact final.goes rfl rfl rfl fun _ h => h
  | finishes _ _ final => exact final.goes rfl rfl rfl fun _ h => h
  | unwinds _ _ final => exact final.goes rfl rfl rfl fun _ h => List.mem_of_mem_erase h
  | swallows _ => exact .one rfl rfl rfl (fun _ h => List.mem_of_mem_erase h) nofun
  | activates alive _ => exact .queued rfl alive rfl rfl
  | dies _ _ => exact .on rfl rfl rfl (fun _ h => List.mem_of_mem_erase h) fun _ h => absurd h List.not_mem_nil
  | parks _ => exact .on rfl rfl rfl (fun _ h => h) fun _ h => absurd h List.not_mem_nil
  | closes _ => exact .on rfl rfl rfl (fun _ h => h) fun _ h => absurd h List.not_mem_nil
  | breaks => exact .on rfl rfl rfl (fun _ h => h) fun _ h => absurd h List.not_mem_nil
  | _ => exact .one rfl rfl rfl (fun _ h => h) nofun

end

/-! ## Who else runs -/

section
variable {s : System}

/-- Of the coroutines that take turns there is one. -/
lemma OneTurn.only {before after : List Proc} {p o q : Proc} (h : OneTurn s) (here : s.procs = before ++ p :: after)
    (still : p.takesTurn = false) (ho : o ∈ before ++ after) (hq : q ∈ before ++ after)
    (takes : o.takesTurn = true) (takes' : q.takesTurn = true) : o = q := by
  have single := h.single
  rw [here, List.countP_append, List.countP_cons, if_neg (by rw [still]; exact Bool.false_ne_true), Nat.add_zero,
    ← List.countP_append, List.countP_eq_length_filter] at single
  have mem : ∀ r ∈ before ++ after, r.takesTurn = true → r ∈ (before ++ after).filter Proc.takesTurn :=
    fun r hr takes => List.mem_filter.mpr ⟨hr, takes⟩
  have ho := mem o ho takes
  have hq := mem q hq takes'
  match e : (before ++ after).filter Proc.takesTurn with
  | [] =>
    rw [e] at ho
    cases ho
  | [r] =>
    rw [e, List.mem_singleton] at ho hq
    rw [ho, hq]
  | _ :: _ :: _ =>
    rw [e] at single
    simp at single

/-- Next to a coroutine that takes a turn there is no other. -/
lemma OneTurn.others {before after : List Proc} {p o : Proc} (h : OneTurn s) (here : s.procs = before ++ p :: after)
    (takes : p.takesTurn = true) (ho : o ∈ before ++ after) : o.takesTurn = false := by
  have single := h.single
  rw [here, List.countP_append, List.countP_cons, if_pos takes] at single
  have none : (before ++ after).countP Proc.takesTurn = 0 := by
    rw [List.countP_append]
    omega
  have zero := List.countP_eq_zero.mp none o ho
  rwa [Bool.not_eq_true] at zero

/-- The coroutines of the new state are the new ones and those that stay. -/
lemma mem_runs {before after out : List Proc} {o : Proc} (h : o ∈ before ++ out ++ after) :
    o ∈ out ∨ o ∈ before ++ after := by
  rw [List.mem_append, List.mem_append] at h
  rw [List.mem_append]
  grind

/-- The other processes stay. -/
lemma mem_stays {before after : List Proc} {p o : Proc} (here : s.procs = before ++ p :: after)
    (h : o ∈ before ++ after) : o ∈ s.procs := by
  rw [here, List.mem_append, List.mem_cons]
  rw [List.mem_append] at h
  grind

end

/-! ## The invariant -/

/-- What holds of the tasks that are asked to cancel. -/
structure Stopping (s : System) : Prop where
  fresh : ∀ i ∈ s.live.cancelled ++ s.live.activeTask.toList, i < s.live.next
  active : ∀ t, .turn t ∈ s.procs → s.live.activeTask = some t.id
  cancelled : ∀ t, .turn t ∈ s.procs → t.id ∈ s.live.cancelled → s.live.cancel = true
  draining : s.live.cancel = true → ∀ t, .turn t ∈ s.procs → t.pc = .draining → t.id ∈ s.live.cancelled
  halting : ∀ p ∈ s.procs, p.halting = true → s.live.cancel = true ∧ ∀ o ∈ s.procs, o.underWay = false

section
variable {s t : System} {a : Act} {before after out : List Proc} {c : Call} {live : Live} {db : Db}

/-- A fresh call is still. -/
lemma Call.Fresh.still (h : c.Fresh) : (Proc.call c).halting = false ∧ (Proc.call c).dismissing = false ∧
    (Proc.call c).underWay = false := by
  cases c <;> first | exact ⟨rfl, rfl, rfl⟩ | exact h.elim

/-- A call comes in. -/
lemma Stopping.arrives (inv : Stopping s) (fresh : c.Fresh) : Stopping { s with procs := s.procs ++ [.call c] } := by
  have old {o : Proc} {P : Prop} (h : o ∈ s.procs ++ [.call c]) (new : o = .call c → P)
      (stays : o ∈ s.procs → P) : P := by
    rw [List.mem_append, List.mem_singleton] at h
    exact h.elim stays new
  obtain ⟨notHalting, _, notUnder⟩ := fresh.still
  refine ⟨inv.fresh, fun t h => old h nofun (inv.active t), fun t h => old h nofun (inv.cancelled t),
    fun on t h => old h nofun (inv.draining on t), fun p h halting => old h (fun e => ?_) fun stays => ?_⟩
  · rw [e, notHalting] at halting
    cases halting
  · obtain ⟨on, still⟩ := inv.halting p stays halting
    refine ⟨on, fun o ho => old ho (fun e => ?_) (still o)⟩
    rw [e]
    exact notUnder

/-- A turn goes on. -/
lemma Stopping.turns {u : Turn} {ts : List Turn} (inv : Stopping s) (one : OneTurn s)
    (here : s.procs = before ++ .turn u :: after) (goes : Goes s.live u live ts) :
    Stopping ⟨live, db, before ++ ts.map .turn ++ after⟩ := by
  have mem : Proc.turn u ∈ s.procs := by
    rw [here]
    exact List.mem_append_right _ List.mem_cons_self
  -- the only turn is what this one goes on with
  have only {t : Turn} {P : Prop} (h : .turn t ∈ before ++ ts.map .turn ++ after) (new : t ∈ ts → P) : P := by
    cases mem_runs h with
    | inl h =>
      obtain ⟨t', ht, e⟩ := List.mem_map.mp h
      exact new (Proc.turn.inj e ▸ ht)
    | inr h => cases one.others here rfl h
  have halts {p : Proc} (h : p ∈ before ++ ts.map .turn ++ after) (halting : p.halting = true) :
      s.live.cancel = true ∧ ∀ o ∈ before ++ ts.map .turn ++ after, o.underWay = false := by
    have turns (o : Proc) (h : o ∈ ts.map .turn) : ∃ t : Turn, o = .turn t := by
      obtain ⟨t, _, e⟩ := List.mem_map.mp h
      exact ⟨t, e.symm⟩
    cases mem_runs h with
    | inl h =>
      obtain ⟨t, rfl⟩ := turns p h
      cases halting
    | inr h =>
      obtain ⟨on, still⟩ := inv.halting p (mem_stays here h) halting
      refine ⟨on, fun o ho => ?_⟩
      cases mem_runs ho with
      | inl ho =>
        obtain ⟨t, rfl⟩ := turns o ho
        rfl
      | inr ho => exact still o (mem_stays here ho)
  cases goes with
  | on cancel active next cancelled same =>
    refine ⟨fun i hi => ?_, fun t h => only h fun ht => ?_, fun t h stopped => only h fun ht => ?_,
      fun on t h drains => only h fun ht => ?_, fun p h halting => ?_⟩
    · show i < live.next
      rw [next]
      apply inv.fresh
      cases List.mem_append.mp hi with
      | inl h => exact List.mem_append_left _ (cancelled i h)
      | inr h =>
        replace h : i ∈ live.activeTask.toList := h
        rw [active] at h
        exact List.mem_append_right _ h
    · rw [(same t ht).1]
      exact active.trans (inv.active u mem)
    · have stopped := cancelled _ stopped
      rw [(same t ht).1] at stopped
      exact cancel.trans (inv.cancelled u mem stopped)
    · have off := (same t ht).2 drains
      rw [← cancel] at off
      exact absurd (on.symm.trans off) nofun
    · obtain ⟨on, still⟩ := halts h halting
      exact ⟨cancel.trans on, still⟩
  | queued drains alive new one' =>
    subst new one'
    have calm : s.live.cancel ≠ true := fun on => alive (inv.draining on u mem drains)
    refine ⟨fun i hi => ?_, fun t h => only h fun ht => ?_, fun t h stopped => only h fun ht => ?_, nofun,
      fun p h halting => absurd (halts h halting).1 calm⟩
    · show i < s.live.next + 1
      cases List.mem_append.mp hi with
      | inl h => exact Nat.lt_succ_of_lt (inv.fresh i (List.mem_append_left _ h))
      | inr h =>
        rw [List.mem_singleton.mp h]
        exact Nat.lt_succ_self _
    · rw [List.mem_singleton.mp ht]
      rfl
    · rw [List.mem_singleton.mp ht] at stopped
      exact absurd (inv.fresh _ (List.mem_append_left _ stopped)) (Nat.lt_irrefl _)

/-- A call goes on. -/
lemma Stopping.calls (inv : Stopping s) (one : OneTurn s) (here : s.procs = before ++ .call c :: after)
    (calls : Calls s.live s.db c live db out) (apart : Apart s (.runs before (.call c) after out)) :
    Stopping ⟨live, db, before ++ out ++ after⟩ := by
  obtain ⟨halts, begins⟩ := apart
  have mem : Proc.call c ∈ s.procs := by
    rw [here]
    exact List.mem_append_right _ List.mem_cons_self
  have notUnder (t : Turn) (h : .turn t ∈ before ++ after) : c.underWay = false := by
    by_contra under
    rw [Bool.not_eq_false] at under
    cases one.others here (show (Proc.call c).takesTurn = true from under) h
  have kept (on : s.live.cancel = true) (under : c.underWay = false) : live.cancel = true := by
    obtain same | ⟨now, _⟩ | ⟨_, under'⟩ := calls.cancel
    · exact same.trans on
    · exact now
    · rw [under] at under'
      cases under'
  refine ⟨calls.fresh inv.fresh, fun t h => ?_, fun t h stopped => ?_, fun on t h drains => ?_, fun p h halting => ?_⟩
  · cases mem_runs h with
    | inl new =>
      obtain ⟨rfl, _, active⟩ := calls.turns t new
      exact active
    | inr old =>
      have active := inv.active t (mem_stays here old)
      obtain ⟨_, same⟩ | ⟨_, _, under⟩ := calls.next
      · exact same.trans active
      · rw [notUnder t old] at under
        cases under
  · cases mem_runs h with
    | inl new =>
      obtain ⟨rfl, same, _⟩ := calls.turns t new
      replace stopped : s.live.next ∈ live.cancelled := stopped
      rw [same] at stopped
      exact absurd (inv.fresh _ (List.mem_append_left _ stopped)) (Nat.lt_irrefl _)
    | inr old =>
      cases calls.cancelled with
      | inl same =>
        replace stopped : t.id ∈ live.cancelled := stopped
        rw [same] at stopped
        exact kept (inv.cancelled t (mem_stays here old) stopped) (notUnder t old)
      | inr halted => exact (calls.stops halted.2).1
  · cases mem_runs h with
    | inl new =>
      obtain ⟨rfl, _⟩ := calls.turns t new
      cases drains
    | inr old =>
      show t.id ∈ live.cancelled
      obtain same | ⟨_, halted⟩ | ⟨off, _⟩ := calls.cancel
      · have stopped := inv.draining (same.symm.trans on) t (mem_stays here old) drains
        cases calls.cancelled with
        | inl same =>
          rw [same]
          exact stopped
        | inr more =>
          rw [more.1]
          exact List.mem_append_left _ stopped
      · rw [(calls.stops halted).2, inv.active t (mem_stays here old)]
        exact List.mem_append_right _ List.mem_cons_self
      · exact absurd (on.symm.trans off) nofun
  · cases mem_runs h with
    | inl new =>
      have which := calls.halting p new halting
      obtain ⟨under, notBegins⟩ := calls.still which
      have news (o : Proc) (ho : o ∈ out) : o.underWay = false := by
        by_contra under'
        rw [Bool.not_eq_false] at under'
        cases calls.underWay o ho under' with
        | inl under' =>
          rw [under] at under'
          cases under'
        | inr begun => exact notBegins begun
      cases which with
      | inl was =>
        obtain ⟨on, still⟩ := inv.halting _ mem was
        exact ⟨kept on under, fun o ho => (mem_runs ho).elim (news o) fun ho => still o (mem_stays here ho)⟩
      | inr now => exact ⟨(calls.stops now).1, fun o ho => (mem_runs ho).elim (news o) (halts now o)⟩
    | inr old =>
      obtain ⟨on, still⟩ := inv.halting p (mem_stays here old) halting
      have under : c.underWay = false := still _ mem
      refine ⟨kept on under, fun o ho => ?_⟩
      cases mem_runs ho with
      | inl new =>
        by_contra under'
        rw [Bool.not_eq_false] at under'
        cases calls.underWay o new under' with
        | inl under' =>
          rw [under] at under'
          cases under'
        | inr begun =>
          rw [begins begun p old] at halting
          cases halting
      | inr ho => exact still o (mem_stays here ho)

/-- A step where the entry points keep apart. -/
lemma Stopping.step (inv : Stopping s) (one : OneTurn s) (apart : Apart s a) (st : Step s a t) : Stopping t := by
  cases st with
  | arrives fresh => exact inv.arrives fresh
  | runs here adv =>
    cases adv with
    | turn adv => exact inv.turns one here adv.goes
    | call adv => exact inv.calls one here adv.calls apart

end
end OpenAgentd.Session
