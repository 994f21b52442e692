import OpenAgentd.Lib.Run

/-!
# The runtime of a session

One `AgentSession` (`app/agent/session.py`) with the coroutines that work on it: the turns (`_run_turn`), and the
calls that start, queue, stop and resume them. `Live` is what the object holds in memory, `Db` what the database
holds of its queue and its questions. A coroutine runs from one await to the next without a break; `Adv` says what
each of these segments does, and `Step` lets the coroutines take turns in any order.
-/

namespace OpenAgentd.Session
open OpenAgentd.Lib

/-! ## The object -/

/-- `AgentSession.state`. -/
inductive AgentState where
  | idle
  | working
  | waitingInput
  | offline
  | error
  deriving DecidableEq

/-- An `AgentSession` in memory, with the tasks that were asked to cancel. -/
structure Live where
  state : AgentState := .idle
  cancel : Bool := false
  hasActive : Bool := false
  activeTask : Option Nat := none
  suspended : Option Nat := none
  locked : Bool := false
  cancelled : List Nat := []
  next : Nat := 0

namespace Live

/-- `is_busy`, which `has_active_user_turn` agrees with. -/
def busy (l : Live) : Bool := l.state = .working || l.state = .waitingInput || l.hasActive

/-- A task is created: it is the active one. -/
def launch (l : Live) : Live :=
  { l with cancel := false, hasActive := true, activeTask := some l.next, next := l.next + 1 }

/-- `handle_stop` sets the event and cancels the active task. -/
def halt (l : Live) : Live := { l with cancel := true, cancelled := l.cancelled ++ l.activeTask.toList }

/-- The cancellation of a task is delivered. -/
def delivered (l : Live) (id : Nat) : Live := { l with cancelled := l.cancelled.erase id }

end Live

/-! ## The rows -/

/-- How a question ends. -/
inductive Outcome where
  | answered (answers : List (List String))
  | dismissed
  | superseded
  | expired
  deriving DecidableEq

/-- A row of `pending_questions`; one without an outcome is pending. -/
structure Question where
  id : Nat
  toolCallId : String
  payload : List String
  outcome : Option Outcome := none
  deriving DecidableEq

/-- A tool row of the session. -/
structure ToolRow where
  id : Nat
  toolCallId : String
  content : String
  pendingQuestion : Bool := false
  deriving DecidableEq

/-- What happened to the questions, and the requests to the provider, each with whether a question was pending. -/
inductive Event where
  | resolved (q : Nat) (o : Outcome)
  | rewrote (q row : Nat)
  | resumed (q : Nat)
  | request (pending : Bool)
  deriving DecidableEq

structure Db where
  queued : List Nat := []
  questions : List Question := []
  rows : List ToolRow := []
  log : List Event := []

/-- `PLACEHOLDER_RESULT`. -/
def placeholderResult : String :=
  "Waiting for the user to answer. Do not continue until their reply arrives."

/-- The reply to one question. -/
def answerPart (question : String) (selected : List String) : String :=
  let rendered := if selected = [] then "Unanswered" else ", ".intercalate selected
  "\"" ++ question ++ "\"=\"" ++ rendered ++ "\""

/-- `format_answers_for_model`. -/
def formatAnswersForModel (questions : List String) (answers : List (List String)) : String :=
  let parts := questions.mapIdx fun i question => answerPart question (answers.getD i [])
  "User has answered your questions: " ++ ", ".intercalate parts ++ ". Continue with the user's answers in mind."

/-- What the placeholder is rewritten to. -/
def Outcome.text (questions : List String) : Outcome → String
  | .answered answers => formatAnswersForModel questions answers
  | .dismissed => "Question(s) being dismissed."
  | .superseded => "Superseded — the user sent a new instruction instead of answering."
  | .expired => "This question is no longer relevant and was discarded."

namespace Db

/-- `get_pending_question`. -/
def pending (db : Db) : Option Question := db.questions.find? fun q => q.outcome = none

/-- `create_pending_question`: the question and the placeholder for its tool call. -/
def ask (db : Db) (question row : Nat) (toolCallId : String) (payload : List String) : Db :=
  { db with
    questions := db.questions ++ [{ id := question, toolCallId, payload }]
    rows := db.rows ++ [{ id := row, toolCallId, content := placeholderResult, pendingQuestion := true }] }

/-- The guarded update of a question. -/
def close (db : Db) (q : Nat) (o : Outcome) : Db :=
  { db with
    questions := db.questions.map fun r => if r.id = q then { r with outcome := some o } else r
    log := .resolved q o :: db.log }

/-- A tool row gets the outcome as its content. -/
def rewrite (db : Db) (q row : Nat) (content : String) : Db :=
  { db with
    rows := db.rows.map fun r => if r.id = row then { r with content, pendingQuestion := false } else r
    log := .rewrote q row :: db.log }

/-- `resolve_pending_question`, and whether it resolved the question. The row that is rewritten is the first one with
the tool call of the question, in whatever order the database finds them. -/
inductive Resolve : Db → Nat → Outcome → Db → Bool → Prop where
  | won {db : Db} {q o r row} :
    r ∈ db.questions →
    r.id = q →
    r.outcome = none →
    row ∈ db.rows →
    row.toolCallId = r.toolCallId →
    Resolve db q o ((db.close q o).rewrite q row.id (o.text r.payload)) true
  | missing {db : Db} {q o r} :
    r ∈ db.questions →
    r.id = q →
    r.outcome = none →
    (∀ row ∈ db.rows, row.toolCallId ≠ r.toolCallId) →
    Resolve db q o (db.close q o) true
  | lost {db : Db} {q o} :
    (∀ r ∈ db.questions, r.id = q → r.outcome ≠ none) →
    Resolve db q o db false

/-- A resolution leaves the queue alone. -/
lemma Resolve.queued {db db' : Db} {q : Nat} {o : Outcome} {won : Bool} (h : Resolve db q o db' won) :
    db'.queued = db.queued := by
  cases h <;> rfl

end Db

/-! ## Coroutines -/

/-- Where a turn is: its task is created; it has set the state; it is in the agent loop; it has asked a question; the
agent loop is left; its error is reported; it parks; it looks for queued messages; it closes. -/
inductive TurnPc where
  | created
  | opening
  | running
  | asked (q : Nat)
  | finishing
  | failing
  | parking
  | draining
  | closing
  deriving DecidableEq

/-- A task of `_run_turn`. -/
structure Turn where
  id : Nat
  pc : TurnPc := .created
  deriving DecidableEq

/-- Who sends a message. -/
inductive Origin where
  | user
  | scheduler
  deriving DecidableEq

/-- Where `handle_user_message` is. -/
inductive MessagePc where
  | checking
  | dismissing
  | superseding (q : Nat)
  | saving
  deriving DecidableEq

/-- The calls, with what they do next. -/
inductive Call where
  -- `POST /chat`
  | chat
  | chatReady
  | chatQueueing (id : Nat)
  | chatQueued
  | chatActivating
  -- the scheduler before it dispatches, for a task that names the session or one that is given it
  | scheduled (named : Bool)
  -- `handle_user_message`
  | message (origin : Origin) (pc : MessagePc)
  -- `handle_compact` and `handle_continue`
  | command
  | commandInit
  -- `answer_question`, `handle_question_answer` and what they go on with, `resume_after_question_answer`
  | answer (q : Nat) (answers : List (List String))
  | answerResolve (q : Nat) (answers : List (List String))
  | questionAnswer (q : Nat) (answers : List (List String))
  | answered (q : Nat)
  | resuming (q : Nat)
  -- `dismiss_question`, with `end_turn_after_question_dismissed`, and `handle_question_dismiss`
  | dismiss (q : Nat)
  | dismissResolve (q : Nat)
  | dismissed
  | dismissEmit
  | dismissActivating
  | questionDismiss (q : Nat)
  -- `interrupt_agent`
  | stop
  | stopRead
  | stopResolve (q : Nat)
  | stopBusy
  | haltRead
  | haltResolve (q : Nat)
  | haltIdle
  -- `cancel_queued_message`
  | unqueue (id : Nat)
  deriving DecidableEq

inductive Proc where
  | turn (t : Turn)
  | call (c : Call)
  deriving DecidableEq

/-- How a call begins. -/
def Call.Fresh : Call → Prop
  | .chat | .scheduled _ | .command | .answer _ _ | .questionAnswer _ _ | .dismiss _ | .questionDismiss _ | .stop
  | .unqueue _ => True
  | _ => False

/-- The `finally` block of `_run_turn` up to its first await. -/
inductive Final : Live → Live → TurnPc → Prop where
  | park {l : Live} {q} :
    l.state ≠ .error →
    l.suspended = some q →
    Final l { l with state := .waitingInput } .parking
  | drain {l : Live} :
    l.state ≠ .error →
    l.suspended = none →
    l.cancel = false →
    Final l l .draining
  | stopped {l : Live} :
    l.state ≠ .error →
    l.suspended = none →
    l.cancel = true →
    Final l { l with state := .idle } .closing
  | failed {l : Live} :
    l.state = .error →
    Final l l .closing

/-- The segments of a turn. -/
inductive TurnAdv : Live → Db → Turn → Live → Db → List Turn → Prop where
  /-- `init_turn` is done. -/
  | opens {l db i} :
    i ∉ l.cancelled →
    TurnAdv l db ⟨i, .created⟩ { l with state := .working, suspended := none } db [⟨i, .opening⟩]
  | begins {l db i} :
    i ∉ l.cancelled →
    TurnAdv l db ⟨i, .opening⟩ l db [⟨i, .running⟩]
  /-- A request to the provider. -/
  | requests {l db i} :
    i ∉ l.cancelled →
    TurnAdv l db ⟨i, .running⟩ l { db with log := .request db.pending.isSome :: db.log } [⟨i, .running⟩]
  /-- `QueuedMessageInjectionHook`. -/
  | injects {l db i} :
    i ∉ l.cancelled →
    TurnAdv l db ⟨i, .running⟩ l { db with queued := [] } [⟨i, .running⟩]
  /-- `ask_user`. A session has one pending question at most. -/
  | asks {l db i q row tc payload} :
    i ∉ l.cancelled →
    db.pending = none →
    (∀ r ∈ db.questions, r.id ≠ q) →
    (∀ r ∈ db.rows, r.id ≠ row) →
    TurnAdv l db ⟨i, .running⟩ l (db.ask q row tc payload) [⟨i, .asked q⟩]
  /-- The result of another tool. -/
  | writes {l db i} {row : ToolRow} :
    i ∉ l.cancelled →
    row.pendingQuestion = false →
    (∀ r ∈ db.rows, r.id ≠ row.id) →
    TurnAdv l db ⟨i, .running⟩ l { db with rows := db.rows ++ [row] } [⟨i, .running⟩]
  /-- The loop ends. Where the event is set, the last message is marked as interrupted first. -/
  | returns {l db i l' pc'} :
    i ∉ l.cancelled →
    l.cancel = false →
    Final l l' pc' →
    TurnAdv l db ⟨i, .running⟩ l' db [⟨i, pc'⟩]
  | returnsStopped {l db i} :
    i ∉ l.cancelled →
    l.cancel = true →
    TurnAdv l db ⟨i, .running⟩ l db [⟨i, .finishing⟩]
  /-- The loop reports the question, and the session remembers it. -/
  | suspends {l db i q l' pc'} :
    i ∉ l.cancelled →
    l.cancel = false →
    Final { l with suspended := l.suspended.or (some q) } l' pc' →
    TurnAdv l db ⟨i, .asked q⟩ l' db [⟨i, pc'⟩]
  | suspendsStopped {l db i q} :
    i ∉ l.cancelled →
    l.cancel = true →
    TurnAdv l db ⟨i, .asked q⟩ { l with suspended := l.suspended.or (some q) } db [⟨i, .finishing⟩]
  | raises {l db i pc} :
    i ∉ l.cancelled →
    pc = .running ∨ (∃ q, pc = .asked q) →
    TurnAdv l db ⟨i, pc⟩ { l with state := .error } db [⟨i, .failing⟩]
  | finishes {l db i pc l' pc'} :
    i ∉ l.cancelled →
    pc = .finishing ∨ pc = .failing →
    Final l l' pc' →
    TurnAdv l db ⟨i, pc⟩ l' db [⟨i, pc'⟩]
  | parks {l db i} :
    i ∉ l.cancelled →
    TurnAdv l db ⟨i, .parking⟩ { l with hasActive := false } db []
  /-- `_activate_queued_user_messages` starts a turn for the queued messages. -/
  | activates {l db i} :
    i ∉ l.cancelled →
    db.queued ≠ [] →
    TurnAdv l db ⟨i, .draining⟩ l.launch { db with queued := [] } [⟨l.next, .created⟩]
  | drained {l db i} :
    i ∉ l.cancelled →
    db.queued = [] →
    TurnAdv l db ⟨i, .draining⟩ { l with state := .idle } db [⟨i, .closing⟩]
  | closes {l db i} :
    i ∉ l.cancelled →
    TurnAdv l db ⟨i, .closing⟩ { l with hasActive := false } db []
  /-- A cancellation reaches the agent loop or what follows it, and the `finally` block runs. -/
  | unwinds {l db i pc l' pc'} :
    i ∈ l.cancelled →
    (∃ q, pc = .asked q) ∨ pc = .running ∨ pc = .finishing ∨ pc = .failing →
    Final (l.delivered i) l' pc' →
    TurnAdv l db ⟨i, pc⟩ l' db [⟨i, pc'⟩]
  /-- The loop swallows a cancellation. -/
  | swallows {l db i} :
    i ∈ l.cancelled →
    TurnAdv l db ⟨i, .running⟩ (l.delivered i) db [⟨i, .running⟩]
  /-- Before the `try` and in the `finally` block nothing catches a cancellation. -/
  | dies {l db i pc} :
    i ∈ l.cancelled →
    pc = .created ∨ pc = .opening ∨ pc = .parking ∨ pc = .draining ∨ pc = .closing →
    TurnAdv l db ⟨i, pc⟩ (l.delivered i) db []
  /-- The database fails in the `finally` block. -/
  | breaks {l db i} :
    TurnAdv l db ⟨i, .draining⟩ l db []

/-- The segments of the calls. -/
inductive CallAdv : Live → Db → Call → Live → Db → List Proc → Prop where
  -- `POST /chat` holds `user_message_lock`
  | locks {l db} :
    l.locked = false →
    CallAdv l db .chat { l with locked := true } db [.call .chatReady]
  | queues {l db} (id : Nat) :
    l.busy = true →
    l.state ≠ .waitingInput →
    CallAdv l db .chatReady l db [.call (.chatQueueing id)]
  | dispatches {l db} :
    l.busy = false ∨ l.state = .waitingInput →
    CallAdv l db .chatReady l db [.call (.message .user .checking)]
  /-- The queued row is committed. -/
  | commits {l db id} :
    CallAdv l db (.chatQueueing id) l { db with queued := db.queued ++ [id] } [.call .chatQueued]
  | leaves {l db} :
    l.busy = true →
    CallAdv l db .chatQueued { l with locked := false } db []
  | retests {l db} :
    l.busy = false →
    CallAdv l db .chatQueued l db [.call .chatActivating]
  | chatActivates {l db} :
    db.queued ≠ [] →
    CallAdv l db .chatActivating { l.launch with locked := false } { db with queued := [] }
      [.turn ⟨l.next, .created⟩]
  | chatEmpty {l db} :
    db.queued = [] →
    CallAdv l db .chatActivating { l with locked := false } db []
  /-- A call of the route fails before it starts anything. -/
  | chatFails {l db c} :
    c = .chatReady ∨ (∃ id, c = .chatQueueing id) ∨ c = .chatActivating →
    CallAdv l db c { l with locked := false } db []
  -- the scheduler takes no lock, and tests only a session that the task names
  | skips {l db} :
    l.busy = true →
    CallAdv l db (.scheduled true) l db []
  | schedules {l db named} :
    (named = true → l.busy = false) →
    CallAdv l db (.scheduled named) l db [.call (.message .scheduler .checking)]
  -- `handle_user_message`
  | noQuestion {l db o} :
    db.pending = none →
    CallAdv l db (.message o .checking) l db [.call (.message o .saving)]
  | defers {l db q} :
    db.pending = some q →
    CallAdv l db (.message .scheduler .checking) l db []
  | supersedes {l db q} :
    db.pending = some q →
    CallAdv l db (.message .user .checking) l db [.call (.message .user .dismissing)]
  | finds {l db o q} :
    db.pending = some q →
    CallAdv l db (.message o .dismissing) l db [.call (.message o (.superseding q.id))]
  | findsNone {l db o} :
    db.pending = none →
    CallAdv l db (.message o .dismissing) l db [.call (.message o .saving)]
  | superseded {l db o q db' won} :
    db.Resolve q .superseded db' won →
    CallAdv l db (.message o (.superseding q)) l db' [.call (.message o .saving)]
  | starts {l : Live} {db o} :
    CallAdv l db (.message o .saving)
      { l.launch with state := .working, locked := if o = .user then false else l.locked } db
      [.turn ⟨l.next, .created⟩]
  | messageFails {l : Live} {db o pc} :
    CallAdv l db (.message o pc) { l with locked := if o = .user then false else l.locked } db []
  -- `handle_compact`, `handle_continue`
  | refuses {l db} :
    l.busy = true →
    CallAdv l db .command l db []
  | accepts {l db} :
    l.busy = false →
    CallAdv l db .command l db [.call .commandInit]
  | commands {l : Live} {db} :
    CallAdv l db .commandInit { l.launch with state := .working } db [.turn ⟨l.next, .created⟩]
  -- `answer_question`
  | answerOpen {l db q answers r} :
    r ∈ db.questions →
    r.id = q →
    r.outcome = none →
    CallAdv l db (.answer q answers) l db [.call (.answerResolve q answers)]
  | answerClosed {l db q answers} :
    CallAdv l db (.answer q answers) l db []
  | answerWins {l db q answers db'} :
    db.Resolve q (.answered answers) db' true →
    CallAdv l db (.answerResolve q answers) l db' [.call (.answered q)]
  | answerLoses {l db q answers} :
    db.Resolve q (.answered answers) db false →
    CallAdv l db (.answerResolve q answers) l db []
  -- `handle_question_answer` goes on whether it resolved the question or not
  | methodAnswers {l db q answers db' won} :
    db.Resolve q (.answered answers) db' won →
    CallAdv l db (.questionAnswer q answers) l db' [.call (.answered q)]
  | resumes {l : Live} {db q} :
    CallAdv l db (.answered q) { l with suspended := none, state := .working } db [.call (.resuming q)]
  /-- No object serves the session. -/
  | notResumed {l db q} :
    CallAdv l db (.answered q) l db []
  | resumed {l db q} :
    CallAdv l db (.resuming q) l.launch { db with log := .resumed q :: db.log } [.turn ⟨l.next, .created⟩]
  -- `dismiss_question`
  | dismissOpen {l db q r} :
    r ∈ db.questions →
    r.id = q →
    r.outcome = none →
    CallAdv l db (.dismiss q) l db [.call (.dismissResolve q)]
  | dismissClosed {l db q} :
    CallAdv l db (.dismiss q) l db []
  | dismissWins {l db q db'} :
    db.Resolve q .dismissed db' true →
    CallAdv l db (.dismissResolve q) l db' [.call .dismissed]
  | dismissLoses {l db q} :
    db.Resolve q .dismissed db false →
    CallAdv l db (.dismissResolve q) l db []
  | dismisses {l : Live} {db} :
    CallAdv l db .dismissed
      { l with suspended := none, state := if l.state = .waitingInput then .idle else l.state } db
      [.call .dismissEmit]
  /-- No object serves the session. -/
  | notDismissed {l db} :
    CallAdv l db .dismissed l db []
  | dismissDrains {l db} :
    l.cancel = false →
    CallAdv l db .dismissEmit l db [.call .dismissActivating]
  | dismissStopped {l : Live} {db} :
    l.cancel = true →
    CallAdv l db .dismissEmit { l with hasActive := false } db []
  | dismissActivates {l db} :
    db.queued ≠ [] →
    CallAdv l db .dismissActivating l.launch { db with queued := [] } [.turn ⟨l.next, .created⟩]
  | dismissEmpty {l : Live} {db} :
    db.queued = [] →
    CallAdv l db .dismissActivating { l with hasActive := false } db []
  | methodDismisses {l : Live} {db q db' won} :
    db.Resolve q .dismissed db' won →
    CallAdv l db (.questionDismiss q) { l with suspended := none, state := .idle } db' []
  -- `interrupt_agent`
  | releases {l db} :
    CallAdv l db .stop l { db with queued := [] } [.call .stopRead]
  | stopFinds {l db q} :
    db.pending = some q →
    CallAdv l db .stopRead l db [.call (.stopResolve q.id)]
  | stopNone {l db} :
    db.pending = none →
    CallAdv l db .stopRead l db [.call .stopBusy]
  | stopResolves {l db q db' won} :
    db.Resolve q .dismissed db' won →
    CallAdv l db (.stopResolve q) l db' [.call .stopBusy]
  | notBusy {l db} :
    l.busy = false →
    CallAdv l db .stopBusy l db []
  | halts {l db} :
    l.busy = true →
    CallAdv l db .stopBusy l.halt db [.call .haltRead]
  | haltFinds {l db q} :
    db.pending = some q →
    CallAdv l db .haltRead l db [.call (.haltResolve q.id)]
  | haltNone {l db} :
    db.pending = none →
    CallAdv l db .haltRead l db [.call .haltIdle]
  | haltResolves {l db q db' won} :
    db.Resolve q .dismissed db' won →
    CallAdv l db (.haltResolve q) l db' [.call .haltIdle]
  | idles {l : Live} {db} :
    CallAdv l db .haltIdle { l with state := .idle } db []
  -- `cancel_queued_message`
  | unqueues {l db id} :
    CallAdv l db (.unqueue id) l { db with queued := db.queued.filter (· ≠ id) } []

/-- One segment of a coroutine. -/
inductive Adv : Live → Db → Proc → Live → Db → List Proc → Prop where
  | turn {l db t l' db' out} :
    TurnAdv l db t l' db' out →
    Adv l db (.turn t) l' db' (out.map .turn)
  | call {l db c l' db' out} :
    CallAdv l db c l' db' out →
    Adv l db (.call c) l' db' out

/-! ## Runs -/

structure System where
  live : Live
  db : Db
  procs : List Proc := []

/-- A call comes in, or a coroutine runs to its next await and leaves others behind. -/
inductive Act where
  | arrives (c : Call)
  | runs (before : List Proc) (p : Proc) (after out : List Proc)

inductive Step : System → Act → System → Prop where
  | arrives {s c} :
    c.Fresh →
    Step s (.arrives c) { s with procs := s.procs ++ [.call c] }
  | runs {s : System} {before p after live db out} :
    s.procs = before ++ p :: after →
    Adv s.live s.db p live db out →
    Step s (.runs before p after out) ⟨live, db, before ++ out ++ after⟩

end OpenAgentd.Session
