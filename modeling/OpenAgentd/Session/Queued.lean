import OpenAgentd.Session.Stopping

/-!
# Queued messages

A queued message is carried by the turn that is running, or by what ends a parked one. `Prompt` is the condition under
which none is left behind: a row is queued only where something will look at the queue (`Carried`), and a turn fails
or is stopped and a question is dismissed only while nothing is queued. In a run of such steps nothing is queued in a
session without a turn and without a question (`none_stranded`). A turn that fails leaves its queue (`stranded`).
-/

namespace OpenAgentd.Session
open OpenAgentd.Lib

/-- No turn is active and no question is open. -/
def Quiet (s : System) : Prop := s.live.hasActive = false ∧ (s.live.state = .idle ∨ s.live.state = .error)

/-- A turn that will still look at the queue, or park. -/
def TurnPc.drains : TurnPc → Bool
  | .created | .opening | .running | .asked _ | .draining => true
  | _ => false

/-- A row that is queued now is not left behind: nobody stops the session, and a turn will look at the queue, or the
session waits for an answer. -/
def Carried (s : System) (others : List Proc) : Prop :=
  s.live.cancel = false ∧
    ((∃ t, .turn t ∈ others ∧ t.pc.drains = true ∧ t.id ∉ s.live.cancelled) ∨
      s.live.state = .waitingInput ∧ (∀ o ∈ others, o.dismissing = false) ∧
        ∀ t, .turn t ∈ others → t.pc = .parking ∧ t.id ∉ s.live.cancelled)

/-- A turn fails. -/
def Fails (p : Proc) (out : List Proc) : Prop :=
  (∃ t, p = .turn t ∧ t.pc ≠ .failing) ∧ ∃ i, out = [.turn ⟨i, .failing⟩]

/-- A row is queued only where something will look at the queue. A turn fails or is stopped, and a question is
dismissed, only while nothing is queued. -/
def Prompt (s : System) : Act → Prop
  | .arrives _ => True
  | .runs before p after out =>
    (∀ id, p = .call (.chatQueueing id) → out ≠ [] → Carried s (before ++ after)) ∧
    (Fails p out → s.db.queued = []) ∧
    (Halts p out → s.db.queued = []) ∧
    (Dismisses p out → s.db.queued = [])

/-- Entry points do not overtake each other or a stop, and what is queued is served. -/
def Served (s : System) (a : Act) : Prop := Calm s a ∧ Apart s a ∧ Prompt s a

/-! ## The invariant -/

/-- While messages are queued a turn is neither stopped nor past its last look at the queue. -/
structure TurnOk (l : Live) (db : Db) (t : Turn) : Prop where
  alive : t.pc = .opening ∨ t.pc = .running ∨ (∃ q, t.pc = .asked q) → l.state ≠ .error
  unstopped : db.queued ≠ [] → t.id ∉ l.cancelled ∧ t.pc ≠ .finishing ∧ t.pc ≠ .failing ∧ t.pc ≠ .closing
  parked : db.queued ≠ [] → t.pc = .parking → l.state = .waitingInput

/-- While messages are queued the session is not stopped, and not quiet. -/
structure Flagged (l : Live) (db : Db) : Prop where
  cancel : db.queued ≠ [] → l.cancel = false
  busy : db.queued ≠ [] → l.hasActive = true ∨ l.state = .working ∨ l.state = .waitingInput

/-- Nothing is left in the queue. -/
structure Drained (s : System) : Prop where
  one : OneTurn s
  stopping : Stopping s
  turn : ∀ t, .turn t ∈ s.procs → TurnOk s.live s.db t
  flagged : Flagged s.live s.db
  dismissing : ∀ p ∈ s.procs, p.dismissing = true → s.db.queued = []
  halting : ∀ p ∈ s.procs, p.halting = true → s.db.queued = []

section
variable {l l' : Live} {db db' : Db} {t : Turn} {c : Call} {p : Proc} {ts : List Turn} {out : List Proc}
  {i : Nat} {pc : TurnPc}

/-- A turn whose loop ends while messages are queued parks or looks at the queue. -/
lemma Final.turnOk (h : Final l l' pc) (flagged : Flagged l db) (alive : l.state ≠ .error)
    (unstopped : db.queued ≠ [] → i ∉ l.cancelled) : TurnOk l' db ⟨i, pc⟩ ∧ Flagged l' db := by
  cases h with
  | park _ _ =>
    refine ⟨⟨nofun, fun some => ⟨unstopped some, nofun, nofun, nofun⟩, fun _ _ => rfl⟩, ?_⟩
    exact ⟨flagged.cancel, fun _ => .inr (.inr rfl)⟩
  | drain _ _ _ =>
    exact ⟨⟨nofun, fun some => ⟨unstopped some, nofun, nofun, nofun⟩, nofun⟩, flagged⟩
  | stopped _ _ on =>
    have empty : db.queued = [] := by
      by_contra some
      rw [flagged.cancel some] at on
      cases on
    exact ⟨⟨nofun, fun some => absurd empty some, nofun⟩, flagged.cancel, fun some => absurd empty some⟩
  | failed error => exact absurd error alive

/-- Where a final part goes on. -/
lemma Final.leaves (h : Final l l' pc) : pc = .parking ∨ pc = .draining ∨ pc = .closing := by
  cases h with
  | park _ _ => exact .inl rfl
  | drain _ _ _ => exact .inr (.inl rfl)
  | stopped _ _ _ => exact .inr (.inr rfl)
  | failed _ => exact .inr (.inr rfl)

/-- With an empty queue only the state is of interest. -/
lemma TurnOk.empty (none : db.queued = []) (alive : pc = .opening ∨ pc = .running ∨ (∃ q, pc = .asked q) →
    l.state ≠ .error) : TurnOk l db ⟨i, pc⟩ :=
  ⟨alive, fun some => absurd none some, fun some => absurd none some⟩

/-- An empty queue needs no flag. -/
lemma Flagged.empty (none : db.queued = []) : Flagged l db :=
  ⟨fun some => absurd none some, fun some => absurd none some⟩

/-- A turn that is not stopped and will look at the queue. -/
lemma TurnOk.going (alive : i ∉ l.cancelled) (state : l.state ≠ .error) (drains : pc.drains = true) :
    TurnOk l db ⟨i, pc⟩ := by
  refine ⟨fun _ => state, fun _ => ⟨alive, ?_, ?_, ?_⟩, fun _ h => ?_⟩
  · rintro rfl
    cases drains
  · rintro rfl
    cases drains
  · rintro rfl
    cases drains
  · cases h
    cases drains

/-- The loop is left while nothing is queued. -/
lemma Final.empty (h : Final l l' pc) (none : db.queued = []) : TurnOk l' db ⟨i, pc⟩ ∧ Flagged l' db := by
  refine ⟨.empty none fun alive => ?_, .empty none⟩
  obtain rfl | rfl | rfl := h.leaves <;> simp at alive

/-- What a segment of a turn keeps: `TurnOk` for what it goes on with, and the rest of the session. -/
structure Keeps (db : Db) (l' : Live) (db' : Db) (ts : List Turn) : Prop where
  turn : ∀ t ∈ ts, TurnOk l' db' t
  flagged : Flagged l' db'
  queued : db'.queued = db.queued ∨ db'.queued = []

/-- A segment that leaves one turn. -/
lemma Keeps.one (ok : TurnOk l' db' t) (flagged : Flagged l' db')
    (queued : db'.queued = db.queued ∨ db'.queued = []) : Keeps db l' db' [t] := by
  refine ⟨fun t' h => ?_, flagged, queued⟩
  rw [List.mem_singleton.mp h]
  exact ok

/-- A segment that ends the turn. -/
lemma Keeps.ends (flagged : Flagged l' db) : Keeps db l' db [] :=
  ⟨fun _ h => absurd h List.not_mem_nil, flagged, .inl rfl⟩

/-- The cases are the segments. Where a turn is past its last look at the queue, or stopped, nothing is queued. -/
lemma TurnAdv.keeps (h : TurnAdv l db t l' db' ts) (ok : TurnOk l db t) (flagged : Flagged l db)
    (fails : Fails (.turn t) (ts.map .turn) → db.queued = []) : Keeps db l' db' ts := by
  have empty (h : db.queued ≠ [] → False) : db.queued = [] := by
    by_contra some
    exact h some
  have unset (on : l.cancel = true) : db.queued = [] := empty fun some => by
    rw [flagged.cancel some] at on
    cases on
  have spared (stopped : t.id ∈ l.cancelled) : db.queued = [] := empty fun some => (ok.unstopped some).1 stopped
  cases h with
  | opens alive =>
    refine .one (.going alive nofun rfl) ?_ (.inl rfl)
    exact ⟨flagged.cancel, fun _ => .inr (.inl rfl)⟩
  | begins alive => exact .one (.going alive (ok.alive (.inl rfl)) rfl) flagged (.inl rfl)
  | requests alive =>
    refine .one (.going alive (ok.alive (.inr (.inl rfl))) rfl) ?_ (.inl rfl)
    exact ⟨flagged.cancel, flagged.busy⟩
  | injects alive => exact .one (.empty rfl ok.alive) (.empty rfl) (.inr rfl)
  | writes alive _ _ =>
    refine .one (.going alive (ok.alive (.inr (.inl rfl))) rfl) ?_ (.inl rfl)
    exact ⟨flagged.cancel, flagged.busy⟩
  | asks alive _ _ _ =>
    refine .one (.going alive (ok.alive (.inr (.inl rfl))) rfl) ?_ (.inl rfl)
    exact ⟨flagged.cancel, flagged.busy⟩
  | returns alive _ final =>
    obtain ⟨ok', flagged'⟩ := final.turnOk flagged (ok.alive (.inr (.inl rfl))) fun _ => alive
    exact .one ok' flagged' (.inl rfl)
  | returnsStopped _ on =>
    exact .one (.empty (unset on) (by simp)) flagged (.inl rfl)
  | @suspends _ q _ _ alive _ final =>
    have remembered : Flagged { l with suspended := l.suspended.or (some q) } db :=
      ⟨flagged.cancel, flagged.busy⟩
    obtain ⟨ok', flagged'⟩ := final.turnOk remembered (ok.alive (.inr (.inr ⟨q, rfl⟩))) fun _ => alive
    exact .one ok' flagged' (.inl rfl)
  | suspendsStopped _ on =>
    exact .one (.empty (unset on) (by simp)) (.empty (unset on)) (.inl rfl)
  | raises alive where_ =>
    have none : db.queued = [] := by
      refine fails ⟨⟨_, rfl, ?_⟩, _, rfl⟩
      obtain rfl | ⟨q, rfl⟩ := where_
      · exact nofun
      · exact nofun
    exact .one (.empty none (by simp)) (.empty none) (.inl rfl)
  | finishes _ which final =>
    have none : db.queued = [] := by
      refine empty fun some => ?_
      obtain ⟨_, finishing, failing, _⟩ := ok.unstopped some
      exact which.elim finishing failing
    obtain ⟨ok', flagged'⟩ := final.empty none
    exact .one ok' flagged' (.inl rfl)
  | parks _ =>
    refine .ends ?_
    exact ⟨flagged.cancel, fun some => .inr (.inr (ok.parked some rfl))⟩
  | activates _ _ => exact .one (.empty rfl (by simp)) (.empty rfl) (.inr rfl)
  | drained _ none => exact .one (.empty none (by simp)) (.empty none) (.inl rfl)
  | closes _ =>
    have none : db.queued = [] := empty fun some => (ok.unstopped some).2.2.2 rfl
    exact .ends (.empty none)
  | unwinds stopped _ final =>
    obtain ⟨ok', flagged'⟩ := final.empty (spared stopped)
    exact .one ok' flagged' (.inl rfl)
  | swallows stopped =>
    have none := spared stopped
    exact .one (.empty none ok.alive) (.empty none) (.inl rfl)
  | dies stopped _ => exact .ends (.empty (spared stopped))
  | breaks => exact .ends flagged

end

section
variable {s t : System} {a : Act} {as : List Act}

/-- A dismissal takes the turn. -/
lemma Proc.takesTurn_of_dismissing {p : Proc} (h : p.dismissing = true) : p.takesTurn = true := by
  cases p with
  | turn t => cases h
  | call c => cases c <;> first | rfl | cases h

/-- A call comes in. -/
lemma Drained.arrives {c : Call} (inv : Drained s) (fresh : c.Fresh) :
    Drained { s with procs := s.procs ++ [.call c] } := by
  have old {o : Proc} {P : Prop} (h : o ∈ s.procs ++ [.call c]) (new : o = .call c → P)
      (stays : o ∈ s.procs → P) : P := by
    rw [List.mem_append, List.mem_singleton] at h
    exact h.elim stays new
  obtain ⟨notHalting, notDismissing, _⟩ := fresh.still
  refine ⟨inv.one.step ⟨.arrives, .arrives fresh⟩, inv.stopping.arrives fresh, fun t h => old h nofun (inv.turn t),
    inv.flagged, fun p h dismissing => ?_, fun p h halting => ?_⟩
  · refine old h (fun e => ?_) fun stays => inv.dismissing p stays dismissing
    rw [e, notDismissing] at dismissing
    cases dismissing
  · refine old h (fun e => ?_) fun stays => inv.halting p stays halting
    rw [e, notHalting] at halting
    cases halting

/-- A turn goes on. -/
lemma Drained.turns {before after : List Proc} {u : Turn} {live : Live} {db : Db} {ts : List Turn} (inv : Drained s)
    (one : OneTurn ⟨live, db, before ++ ts.map .turn ++ after⟩)
    (stopping : Stopping ⟨live, db, before ++ ts.map .turn ++ after⟩) (here : s.procs = before ++ .turn u :: after)
    (adv : TurnAdv s.live s.db u live db ts) (fails : Fails (.turn u) (ts.map .turn) → s.db.queued = []) :
    Drained ⟨live, db, before ++ ts.map .turn ++ after⟩ := by
  have mem : Proc.turn u ∈ s.procs := by
    rw [here]
    exact List.mem_append_right _ List.mem_cons_self
  have keeps := adv.keeps (inv.turn u mem) inv.flagged fails
  have others (o : Proc) (ho : o ∈ before ++ after) : o.takesTurn = false := inv.one.others here rfl ho
  have stays (none : s.db.queued = []) : db.queued = [] := keeps.queued.elim (fun same => same.trans none) id
  have notNew {o : Proc} {P : Prop} (h : o ∈ ts.map .turn) (P_of : ∀ t ∈ ts, o = .turn t → P) : P := by
    obtain ⟨t, ht, rfl⟩ := List.mem_map.mp h
    exact P_of t ht rfl
  refine ⟨one, stopping, fun t h => ?_, keeps.flagged, fun p h dismissing => ?_, fun p h halting => ?_⟩
  · cases mem_runs h with
    | inl h => exact notNew h fun t' ht e => Proc.turn.inj e ▸ keeps.turn t' ht
    | inr h => cases others _ h
  · cases mem_runs h with
    | inl h => exact notNew h fun _ _ e => by rw [e] at dismissing; cases dismissing
    | inr h => exact stays (inv.dismissing p (mem_stays here h) dismissing)
  · cases mem_runs h with
    | inl h => exact notNew h fun _ _ e => by rw [e] at halting; cases halting
    | inr h => exact stays (inv.halting p (mem_stays here h) halting)

/-- A row is queued where something will look at the queue. -/
lemma Drained.commits {before after : List Proc} {id : Nat} (inv : Drained s)
    (one : OneTurn ⟨s.live, { s.db with queued := s.db.queued ++ [id] }, before ++ [.call .chatQueued] ++ after⟩)
    (stopping : Stopping ⟨s.live, { s.db with queued := s.db.queued ++ [id] }, before ++ [.call .chatQueued] ++ after⟩)
    (here : s.procs = before ++ .call (.chatQueueing id) :: after) (carried : Carried s (before ++ after)) :
    Drained ⟨s.live, { s.db with queued := s.db.queued ++ [id] }, before ++ [.call .chatQueued] ++ after⟩ := by
  obtain ⟨off, carried⟩ := carried
  have stays {o : Proc} {P : Prop} (h : o ∈ before ++ [.call .chatQueued] ++ after) (old : o ∈ before ++ after → P)
      (new : o = .call .chatQueued → P) : P := (mem_runs h).elim (fun h => new (List.mem_singleton.mp h)) old
  have halting (p : Proc) (h : p ∈ before ++ [.call .chatQueued] ++ after) (halting : p.halting = true) : False := by
    refine stays h (fun old => ?_) fun e => ?_
    · rw [(inv.stopping.halting p (mem_stays here old) halting).1] at off
      cases off
    · rw [e] at halting
      cases halting
  cases carried with
  | inl turn =>
    obtain ⟨t, ht, drains, alive⟩ := turn
    have only (o : Proc) (ho : o ∈ before ++ after) (takes : o.takesTurn = true) : o = .turn t :=
      inv.one.only here rfl ho ht takes rfl
    have pcs : t.pc ≠ .finishing ∧ t.pc ≠ .failing ∧ t.pc ≠ .closing ∧ t.pc ≠ .parking := by
      refine ⟨?_, ?_, ?_, ?_⟩ <;> intro h <;> rw [h] at drains <;> cases drains
    obtain ⟨notFinishing, notFailing, notClosing, notParking⟩ := pcs
    refine ⟨one, stopping, fun u h => ?_, ⟨fun _ => off, fun _ => .inl ?_⟩, fun p h dismissing => ?_,
      fun p h on => (halting p h on).elim⟩
    · refine stays h (fun old => ?_) nofun
      obtain rfl : u = t := Proc.turn.inj (only _ old rfl)
      have ok := inv.turn u (mem_stays here old)
      exact ⟨ok.alive, fun _ => ⟨alive, notFinishing, notFailing, notClosing⟩, fun _ h => absurd h notParking⟩
    · exact inv.one.active (List.any_eq_true.mpr ⟨_, mem_stays here ht, rfl⟩)
    · refine stays h (fun old => ?_) fun e => ?_
      · rw [only p old (Proc.takesTurn_of_dismissing dismissing)] at dismissing
        cases dismissing
      · rw [e] at dismissing
        cases dismissing
  | inr waiting =>
    obtain ⟨waiting, undismissed, parks⟩ := waiting
    refine ⟨one, stopping, fun u h => ?_, ⟨fun _ => off, fun _ => .inr (.inr waiting)⟩, fun p h dismissing => ?_,
      fun p h on => (halting p h on).elim⟩
    · refine stays h (fun old => ?_) nofun
      obtain ⟨parking, alive⟩ := parks u old
      have ok := inv.turn u (mem_stays here old)
      refine ⟨ok.alive, fun _ => ⟨alive, ?_⟩, fun _ _ => waiting⟩
      rw [parking]
      exact ⟨nofun, nofun, nofun⟩
    · refine stays h (fun old => ?_) fun e => ?_
      · rw [undismissed p old] at dismissing
        cases dismissing
      · rw [e] at dismissing
        cases dismissing

/-- A call goes on, and queues nothing. -/
lemma Drained.calls {before after out : List Proc} {c : Call} {live : Live} {db : Db} (inv : Drained s)
    (one : OneTurn ⟨live, db, before ++ out ++ after⟩) (stopping : Stopping ⟨live, db, before ++ out ++ after⟩)
    (here : s.procs = before ++ .call c :: after)
    (calls : Calls s.live s.db c live db out) (grown : db.queued ≠ [] → s.db.queued ≠ [])
    (calm : Calm s (.runs before (.call c) after out)) (prompt : Prompt s (.runs before (.call c) after out)) :
    Drained ⟨live, db, before ++ out ++ after⟩ := by
  obtain ⟨_, _, halts, dismisses⟩ := prompt
  have mem : Proc.call c ∈ s.procs := by
    rw [here]
    exact List.mem_append_right _ List.mem_cons_self
  have stays (none : s.db.queued = []) : db.queued = [] := by
    by_contra some
    exact grown some none
  -- while messages are queued nothing is stopped or dismissed
  have unhalted (some : s.db.queued ≠ []) : ¬ Halts (.call c) out := fun h => some (halts h)
  have undismissed (some : s.db.queued ≠ []) : (Proc.call c).dismissing ≠ true ∧ (Proc.call c).halting ≠ true ∧
      ¬ Dismisses (.call c) out :=
    ⟨fun h => some (inv.dismissing _ mem h), fun h => some (inv.halting _ mem h), fun h => some (dismisses h)⟩
  have free (u : Turn) (hu : .turn u ∈ before ++ after) : c.underWay = false ∧ ¬ Begins (.call c) out := by
    refine ⟨?_, fun h => ?_⟩
    · by_contra under
      rw [Bool.not_eq_false] at under
      have others := inv.one.others here (show (Proc.call c).takesTurn = true from under) hu
      cases others
    · have busy := inv.one.busy (List.any_eq_true.mpr ⟨_, mem_stays here hu, rfl⟩)
      cases (calm h).2 busy _ hu
  refine ⟨one, stopping, fun u h => ?_, ⟨fun some => ?_, fun some => ?_⟩, fun p h dismissing => ?_,
    fun p h halting => ?_⟩
  · cases mem_runs h with
    | inl new =>
      obtain ⟨rfl, same, _⟩ := calls.turns u new
      refine ⟨by simp, fun some => ⟨?_, nofun, nofun, nofun⟩, nofun⟩
      show s.live.next ∉ live.cancelled
      rw [same]
      intro h
      exact absurd (inv.stopping.fresh _ (List.mem_append_left _ h)) (Nat.lt_irrefl _)
    | inr old =>
      have ok := inv.turn u (mem_stays here old)
      obtain ⟨notUnder, notBegins⟩ := free u old
      refine ⟨fun where_ => ?_, fun some => ?_, fun some where_ => ?_⟩
      · obtain same | ⟨now, _⟩ | ⟨now, _⟩ := calls.state
        · rw [same]
          exact ok.alive where_
        · rw [now]
          exact nofun
        · rw [now]
          exact nofun
      · have some := grown some
        obtain ⟨alive, pcs⟩ := ok.unstopped some
        refine ⟨?_, pcs⟩
        rw [calls.cancelled.resolve_right fun h => unhalted some h.2]
        exact alive
      · have some := grown some
        obtain ⟨_, notHalting, notDismisses⟩ := undismissed some
        obtain same | ⟨_, under | begun⟩ | ⟨_, halting | dismissed⟩ := calls.state
        · rw [same]
          exact ok.parked some where_
        · rw [notUnder] at under
          cases under
        · exact absurd begun notBegins
        · exact absurd halting notHalting
        · exact absurd dismissed notDismisses
  · have some := grown some
    obtain same | ⟨_, halted⟩ | ⟨off, _⟩ := calls.cancel
    · exact same.trans (inv.flagged.cancel some)
    · exact absurd halted (unhalted some)
    · exact off
  · have some := grown some
    obtain ⟨notDismissing, notHalting, notDismisses⟩ := undismissed some
    cases inv.flagged.busy some with
    | inl on =>
      refine .inl ?_
      obtain same | on' | dismissing := calls.hasActive
      · exact same.trans on
      · exact on'
      · exact absurd dismissing notDismissing
    | inr state =>
      refine .inr ?_
      obtain same | ⟨now, _⟩ | ⟨_, halting | dismissed⟩ := calls.state
      · show live.state = _ ∨ live.state = _
        rw [same]
        exact state
      · exact .inl now
      · exact absurd halting notHalting
      · exact absurd dismissed notDismisses
  · cases mem_runs h with
    | inl new =>
      refine stays ?_
      cases calls.dismissing p new dismissing with
      | inl was => exact inv.dismissing _ mem was
      | inr now => exact dismisses now
    | inr old => exact stays (inv.dismissing p (mem_stays here old) dismissing)
  · cases mem_runs h with
    | inl new =>
      refine stays ?_
      cases calls.halting p new halting with
      | inl was => exact inv.halting _ mem was
      | inr now => exact halts now
    | inr old => exact stays (inv.halting p (mem_stays here old) halting)

/-- A calm and prompt step. -/
lemma Drained.step (inv : Drained s) (st : Guarded Served Step s a t) : Drained t := by
  obtain ⟨⟨calm, apart, prompt⟩, st⟩ := st
  have one : OneTurn t := inv.one.step ⟨calm, st⟩
  have stopping : Stopping t := inv.stopping.step inv.one apart st
  cases st with
  | arrives fresh => exact inv.arrives fresh
  | @runs _ _ _ _ _ out here adv =>
    cases adv with
    | turn adv => exact inv.turns one stopping here adv prompt.2.1
    | @call c _ _ _ adv =>
      have calls := adv.calls
      by_cases now : (∃ id, c = .chatQueueing id) ∧ out ≠ []
      · obtain ⟨⟨id, rfl⟩, some⟩ := now
        have carried := prompt.1 id rfl some
        cases adv with
        | commits => exact inv.commits one stopping here carried
        | chatFails _ => exact absurd rfl some
      · refine inv.calls one stopping here calls (fun some => ?_) calm prompt
        obtain same | none | now' | ⟨id, less⟩ := calls.queued
        · rwa [same] at some
        · exact absurd none some
        · exact absurd now' now
        · intro none
          apply some
          rw [less, none]
          rfl

/-- In a run of calm and prompt steps no message is left in the queue of a session without a turn and without a
question, in every state that is reached. -/
theorem none_stranded (rn : Run (Guarded Served Step) ⟨{}, {}, []⟩ as t)
    (quiet : Quiet t) : t.db.queued = [] := by
  have inv : Drained t := by
    refine rn.invariant ⟨⟨Nat.zero_le _, nofun⟩, ?_, nofun, .empty rfl, nofun, nofun⟩ Drained.step
    exact ⟨fun _ h => absurd h List.not_mem_nil, nofun, nofun, nofun, nofun⟩
  by_contra some
  obtain ⟨off, state⟩ := quiet
  obtain on | working | waiting := inv.flagged.busy some
  · rw [off] at on
    cases on
  · rw [working] at state
    exact state.elim nofun nofun
  · rw [waiting] at state
    exact state.elim nofun nofun

/-- The calls that queue nothing, stop nothing and dismiss nothing at this point. -/
def Call.plain : Call → Bool
  | .chatQueueing _ | .stopBusy | .dismissed | .questionDismiss _ => false
  | _ => true

/-- A plain call is prompt. -/
lemma Prompt.call {before after out : List Proc} {c : Call} (plain : c.plain = true) :
    Prompt s (.runs before (.call c) after out) := by
  refine ⟨fun id h => ?_, fun h => ?_, fun h => ?_, fun h => ?_⟩
  · rw [Proc.call.inj h] at plain
    cases plain
  · obtain ⟨⟨_, h, _⟩, _⟩ := h
    cases h
  · rw [Proc.call.inj h.1] at plain
    cases plain
  · obtain ⟨h, _⟩ | ⟨_, h⟩ := h
    · rw [Proc.call.inj h] at plain
      cases plain
    · rw [Proc.call.inj h] at plain
      cases plain

/-- A turn that does not fail is prompt. -/
lemma Prompt.turn {before after out : List Proc} {u : Turn} (goes : ∀ i, .turn ⟨i, .failing⟩ ∉ out) :
    Prompt s (.runs before (.turn u) after out) := by
  refine ⟨nofun, fun h => ?_, fun h => ?_, fun h => ?_⟩
  · obtain ⟨_, i, rfl⟩ := h
    exact absurd (List.mem_singleton.mpr rfl) (goes i)
  · cases h.1
  · obtain ⟨h, _⟩ | ⟨_, h⟩ := h <;> cases h

/-- A commit that is carried is prompt. -/
lemma Prompt.commits {before after out : List Proc} {id : Nat} (carried : Carried s (before ++ after)) :
    Prompt s (.runs before (.call (.chatQueueing id)) after out) := by
  refine ⟨fun _ _ _ => carried, fun h => ?_, fun h => ?_, fun h => ?_⟩
  · obtain ⟨⟨_, h, _⟩, _⟩ := h
    cases h
  · cases h.1
  · obtain ⟨h, _⟩ | ⟨_, h⟩ := h <;> cases h

/-- A single process is apart. -/
lemma Apart.alone {p : Proc} {out : List Proc} : Apart s (.runs [] p [] out) :=
  ⟨fun _ _ h => absurd h List.not_mem_nil, fun _ _ h => absurd h List.not_mem_nil⟩

/-- A call of a coroutine that is alone is served. -/
lemma Served.call {c : Call} {out : List Proc} (plain : c.plain = true) : Served s (.runs [] (.call c) [] out) :=
  ⟨.alone, .alone, .call plain⟩

/-- A single turn that goes on is served. -/
lemma Served.turn {u : Turn} {out : List Proc} (goes : ∀ i, .turn ⟨i, .failing⟩ ∉ out) :
    Served s (.runs [] (.turn u) [] out) :=
  ⟨.alone, .alone, .turn goes⟩

/-- What begins nothing and stops nothing is calm and apart. -/
lemma Served.goes {before after out : List Proc} {p : Proc} (starts : out.any Proc.takesTurn = false)
    (halts : p ≠ .call .stopBusy) (prompt : Prompt s (.runs before p after out)) :
    Served s (.runs before p after out) := by
  have not (begins : Begins p out) : False := by
    rw [begins.2] at starts
    cases starts
  exact ⟨fun h => (not h).elim, ⟨fun h => absurd h.1 halts, fun h => (not h).elim⟩, prompt⟩

/-- A message that comes while a turn is running is queued; the turn injects it and ends. -/
theorem none_stranded_message : ∃ as t, Run (Guarded Served Step) ⟨{}, {}, []⟩ as t ∧ t.procs = [] ∧
    t.db.queued = [] := by
  have came : Run (Guarded Served Step) ⟨{}, {}, []⟩ _ _ :=
    .single ⟨⟨.arrives, trivial, trivial⟩, .arrives (show Call.chat.Fresh from trivial)⟩
  have locked := came.snoc ⟨.call rfl, .alone (.call (.locks rfl))⟩
  have tested := locked.snoc ⟨.call rfl, .alone (.call (.dispatches (.inl rfl)))⟩
  have checked := tested.snoc ⟨.call rfl, .alone (.call (.noQuestion rfl))⟩
  have started := checked.snoc ⟨.call rfl, .alone (.call .starts)⟩
  have opened := started.snoc ⟨.turn (by simp), .alone (.turn (.opens List.not_mem_nil))⟩
  have begun := opened.snoc ⟨.turn (by simp), .alone (.turn (.begins List.not_mem_nil))⟩
  -- the second message is queued
  have second := begun.snoc ⟨⟨.arrives, trivial, trivial⟩, .arrives (show Call.chat.Fresh from trivial)⟩
  have locked' := second.snoc ⟨.goes rfl (by simp) (.call rfl), .second (.call (.locks rfl))⟩
  have tested' := locked'.snoc ⟨.goes rfl (by simp) (.call rfl), .second (.call (.queues 7 rfl nofun))⟩
  have carried : ∃ t : Turn, .turn t ∈ [Proc.turn ⟨0, .running⟩] ∧ t.pc.drains = true ∧ t.id ∉ ([] : List Nat) :=
    ⟨_, List.mem_singleton.mpr rfl, rfl, List.not_mem_nil⟩
  have committed := tested'.snoc ⟨.goes rfl (by simp) (.commits ⟨rfl, .inl carried⟩), .second (.call .commits)⟩
  have answered := committed.snoc ⟨.goes rfl (by simp) (.call rfl), .ends (.call (.leaves rfl))⟩
  have requested := answered.snoc ⟨.turn (by simp), .alone (.turn (.requests List.not_mem_nil))⟩
  have injected := requested.snoc ⟨.turn (by simp), .alone (.turn (.injects List.not_mem_nil))⟩
  have returned := injected.snoc ⟨.turn (by simp),
    .alone (.turn (.returns List.not_mem_nil rfl (.drain nofun rfl rfl)))⟩
  have drained := returned.snoc ⟨.turn (by simp), .alone (.turn (.drained List.not_mem_nil rfl))⟩
  have closed := drained.snoc ⟨.turn (by simp), .alone (.turn (.closes List.not_mem_nil))⟩
  exact ⟨_, _, closed, rfl, none_stranded closed ⟨rfl, .inl rfl⟩⟩

/-- A message that is queued for a turn that fails stays in the queue. -/
theorem stranded : ¬ ∀ as t, Run Step ⟨{}, {}, []⟩ as t → Quiet t → t.db.queued = [] := by
  intro none
  have came : Run Step ⟨{}, {}, []⟩ _ _ := .single (.arrives (c := .chat) trivial)
  have locked := came.snoc (.alone (.call (.locks rfl)))
  have tested := locked.snoc (.alone (.call (.dispatches (.inl rfl))))
  have checked := tested.snoc (.alone (.call (.noQuestion rfl)))
  have started := checked.snoc (.alone (.call .starts))
  have opened := started.snoc (.alone (.turn (.opens List.not_mem_nil)))
  have begun := opened.snoc (.alone (.turn (.begins List.not_mem_nil)))
  -- the second message is queued
  have second := begun.snoc (.arrives (c := .chat) trivial)
  have locked' := second.snoc (.second (.call (.locks rfl)))
  have tested' := locked'.snoc (.second (.call (.queues 7 rfl nofun)))
  have committed := tested'.snoc (.second (.call .commits))
  have answered := committed.snoc (.ends (.call (.leaves rfl)))
  -- the provider fails
  have raised := answered.snoc (.alone (.turn (.raises List.not_mem_nil (.inl rfl))))
  have failed := raised.snoc (.alone (.turn (.finishes List.not_mem_nil (.inr rfl) (.failed rfl))))
  have closed := failed.snoc (.alone (.turn (.closes List.not_mem_nil)))
  exact absurd (none _ _ closed ⟨rfl, .inr rfl⟩) nofun

end
end OpenAgentd.Session
