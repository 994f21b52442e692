import OpenAgentd.Lib.Dict
import OpenAgentd.Session.OneTurn
import Mathlib.Data.List.Sort

/-!
# The registry of live sessions

`app/services/agent_manager.py`: the live `AgentSession` objects by workspace and session, when each was last used,
and a lock under each key while its object is made. Everything between two awaits is one segment; `_lock` guards no
await and is left out. An entry point of a turn attaches its object to the session it is called for, which need not be
the one that the object was made for. `Step` lets the calls, the evictions and the objects' own coroutines take turns
in any order. The parser of session ids is a parameter.
-/

namespace OpenAgentd.Manager
open OpenAgentd.Lib OpenAgentd.Session

/-- `(resolved, session_id or "")`. -/
structure Key where
  workspace : String
  sid : String
  deriving DecidableEq

/-- The order of keys as tuples. -/
def Key.le (a b : Key) : Bool := a.workspace < b.workspace || a.workspace = b.workspace && a.sid ≤ b.sid

/-- The session row that an id names. -/
def sessionOf {υ : Type*} (uuid : String → Option υ) (sid : String) : Option υ := if sid = "" then none else uuid sid

/-- The session row that a key names. -/
def Key.session {υ : Type*} (uuid : String → Option υ) (k : Key) : Option υ := sessionOf uuid k.sid

/-- An `AgentSession` object: what it was made for, its `session_id` (empty while it is one of its own), its
coroutines, and whether `stop` has returned. -/
structure Object where
  key : Key
  sid : String := key.sid
  sys : Session.System
  stopped : Bool := false

namespace Object

/-- The session row that the object is attached to. -/
def session {υ : Type*} (uuid : String → Option υ) (ob : Object) : Option υ := sessionOf uuid ob.sid

/-- `_session_is_evictable`. -/
def evictable (ob : Object) : Bool := !ob.sys.live.busy

/-- A turn is active on it. -/
def active (ob : Object) : Bool := ob.sys.procs.any Proc.isTurn

/-- Its `_active_task` is not done. -/
def unfinished (ob : Object) : Bool := ob.sys.procs.any fun
  | .turn t => ob.sys.live.activeTask = some t.id
  | .call _ => false

/-- `stop` sets the event and cancels the active task. -/
def cancel (ob : Object) : Object := { ob with sys := { ob.sys with live := ob.sys.live.halt } }

/-- `stop` returns. -/
def offline (ob : Object) : Object :=
  { ob with
    sys := { ob.sys with live := { ob.sys.live with cancel := true, state := .offline } }
    stopped := true }

end Object

/-- What was handed to a caller, with what others that overlap with it were handed; and what was stopped, with whether
by an eviction and whether a turn was active. -/
inductive Event where
  | received (o : Nat) (seen : List Nat)
  | stopped (evicted active : Bool)

/-- The module's state, with the objects that were made. -/
structure Registry where
  sessions : Dict Key Nat := .empty
  lastUsed : Dict Key Int := .empty
  startLocks : Dict Key Nat := .empty
  held : List Nat := []
  nextLock : Nat := 0
  objects : List Object := []
  log : List Event := []

namespace Registry

/-- `_SESSION_IDLE_SECONDS`. -/
def idleSeconds : Int := 30 * 60

/-- The entry's object can be stopped without interrupting a turn. -/
def evictable (m : Registry) (e : Key × Nat) : Bool := m.objects[e.2]?.any Object.evictable

/-- What `evict_idle_sessions` evicts, ordered by key. -/
def idle (m : Registry) (now : Int) : List (Key × Nat) :=
  (m.sessions.entries.filter fun e => (m.lastUsed.get? e.1).any (· ≤ now - idleSeconds) && m.evictable e).insertionSort
    fun a b => a.1.le b.1 = true

/-- What `evict_sessions` evicts. -/
def named (m : Registry) (ids : List String) : List (Key × Nat) :=
  m.sessions.entries.filter fun e =>
    (e.1.sid ∈ ids || m.objects[e.2]?.any fun ob => ob.sid ≠ "" && ob.sid ∈ ids) && m.evictable e

/-- The entries leave the three tables. -/
def pop (m : Registry) : List (Key × Nat) → Registry
  | [] => m
  | e :: es =>
    { m with
      sessions := m.sessions.erase e.1
      lastUsed := m.lastUsed.erase e.1
      startLocks := m.startLocks.erase e.1 }.pop es

/-- The objects are stopped one after the other, up to one whose task has to end first. -/
def stopAll (evicted : Bool) : Registry → List Nat → Registry × List Nat
  | m, [] => (m, [])
  | m, o :: rest => match m.objects[o]? with
    | none => m.stopAll evicted rest
    | some ob =>
      let m := { m with log := .stopped evicted ob.active :: m.log }
      if ob.unfinished then ({ m with objects := m.objects.set o ob.cancel }, o :: rest)
      else { m with objects := m.objects.set o ob.offline }.stopAll evicted rest

/-- The task has ended, and `stop` returns. -/
def ended (m : Registry) (o : Nat) : Registry := { m with objects := m.objects.modify o Object.offline }

/-- A new object. -/
def made (m : Registry) (k : Key) (db : Db) : Registry :=
  { m with objects := m.objects ++ [{ key := k, sys := ⟨{}, db, []⟩ }] }

end Registry

/-- Where `get_or_start_agent_session` is: it awaits the lock; it holds the lock and awaits the end of what it evicted;
it attaches the new object. -/
inductive CallPc where
  | waiting
  | evicting (now : Int) (todo : List Nat)
  | attaching (now : Int) (o : Nat)

/-- A call, with the lock that it found and what overlapping calls for the same session were handed. -/
structure Caller where
  key : Key
  lock : Nat
  pc : CallPc := .waiting
  seen : List Nat := []

inductive Job where
  | call (c : Caller)
  | evict (todo : List Nat)
  | stop (todo : List Nat)

/-- The call is handed the object: the lock is released. -/
def Registry.hand (m : Registry) (c : Caller) (now : Int) (o : Nat) : Registry :=
  { m with
    sessions := m.sessions.set c.key o
    lastUsed := m.lastUsed.set c.key now
    held := m.held.filter (· ≠ c.lock)
    log := .received o c.seen :: m.log }

/-- What a call does once it has evicted: it finds the object, or makes one. -/
inductive Enter (m : Registry) (c : Caller) (now : Int) : Registry → List Job → Option Nat → Prop where
  | found {o} :
    m.sessions.get? c.key = some o →
    Enter m c now (m.hand c now o) [] (some o)
  /-- No agent is configured. -/
  | missing :
    m.sessions.get? c.key = none →
    Enter m c now { m with held := m.held.filter (· ≠ c.lock) } [] none
  | starts {d} :
    m.sessions.get? c.key = none →
    c.key.sid = "" →
    Enter m c now ((m.made c.key d).hand c now m.objects.length) [] (some m.objects.length)
  | attaches {d} :
    m.sessions.get? c.key = none →
    c.key.sid ≠ "" →
    Enter m c now (m.made c.key d) [.call { c with pc := .attaching now m.objects.length }] none

/-- The segments of the jobs, with the object that is handed out. -/
inductive Adv (now : Int) : Registry → Job → Registry → List Job → Option Nat → Prop where
  | enters {m c m' m'' out ret} :
    c.pc = .waiting →
    c.lock ∉ m.held →
    (({ m with held := c.lock :: m.held }.pop (m.idle now)).stopAll true ((m.idle now).map Prod.snd)) = (m', []) →
    Enter m' c now m'' out ret →
    Adv now m (.call c) m'' out ret
  | evicts {m c m' o todo} :
    c.pc = .waiting →
    c.lock ∉ m.held →
    (({ m with held := c.lock :: m.held }.pop (m.idle now)).stopAll true ((m.idle now).map Prod.snd)) =
      (m', o :: todo) →
    Adv now m (.call c) m' [.call { c with pc := .evicting now (o :: todo) }] none
  | resumes {m c then_ o todo ob m' m'' out ret} :
    c.pc = .evicting then_ (o :: todo) →
    m.objects[o]? = some ob →
    ob.unfinished = false →
    (m.ended o).stopAll true todo = (m', []) →
    Enter m' c then_ m'' out ret →
    Adv now m (.call c) m'' out ret
  | evictsMore {m c then_ o todo ob m' o' todo'} :
    c.pc = .evicting then_ (o :: todo) →
    m.objects[o]? = some ob →
    ob.unfinished = false →
    (m.ended o).stopAll true todo = (m', o' :: todo') →
    Adv now m (.call c) m' [.call { c with pc := .evicting then_ (o' :: todo') }] none
  | attached {m c then_ o} :
    c.pc = .attaching then_ o →
    Adv now m (.call c) (m.hand c then_ o) [] (some o)
  | evict {m o todo ob m' todo'} :
    m.objects[o]? = some ob →
    ob.unfinished = false →
    (m.ended o).stopAll true todo = (m', todo') →
    Adv now m (.evict (o :: todo)) m' (if todo' = [] then [] else [.evict todo']) none
  | stop {m o todo ob m' todo'} :
    m.objects[o]? = some ob →
    ob.unfinished = false →
    (m.ended o).stopAll false todo = (m', todo') →
    Adv now m (.stop (o :: todo)) m' (if todo' = [] then [] else [.stop todo']) none

structure System where
  reg : Registry
  jobs : List Job := []

/-- A call begins; an eviction of the idle sessions or of some sessions, or the stop of all begins; a job goes on; an
entry point of a turn attaches an object to its session; a coroutine of an object takes a step. -/
inductive Act where
  | begins (k : Key)
  | evictIdle (now : Int)
  | evictSessions (ids : List String)
  | stop
  | runs (now : Int) (before : List Job) (j : Job) (after out : List Job)
  | attach (o : Nat) (sid : String)
  | acts (o : Nat) (a : Session.Act)

/-- Two requests for the same workspace and session. -/
def Key.Same {υ : Type*} (uuid : String → Option υ) (k k' : Key) : Prop :=
  k = k' ∨ k.workspace = k'.workspace ∧ k.session uuid = k'.session uuid ∧ k.session uuid ≠ none

instance {υ : Type*} [DecidableEq υ] (uuid : String → Option υ) (k k' : Key) : Decidable (k.Same uuid k') :=
  inferInstanceAs (Decidable (_ ∨ _))

/-- What a call is handed is noted with the calls for the same session that it overlaps with. -/
def Job.note {υ : Type*} [DecidableEq υ] (uuid : String → Option υ) (k : Key) (ret : Option Nat) : Job → Job
  | .call c => .call { c with seen := if c.key.Same uuid k then c.seen ++ ret.toList else c.seen }
  | j => j

/-- The key for which a job is handed an object. -/
def Job.noted {υ : Type*} [DecidableEq υ] (uuid : String → Option υ) (j : Job) (ret : Option Nat) : Job → Job :=
  match j with
  | .call c => Job.note uuid c.key ret
  | _ => id

inductive Step {υ : Type*} [DecidableEq υ] (uuid : String → Option υ) : System → Act → System → Prop where
  /-- The lock is found, or made. -/
  | known {s k l} :
    s.reg.startLocks.get? k = some l →
    Step uuid s (.begins k) { s with jobs := s.jobs ++ [.call ⟨k, l, .waiting, []⟩] }
  | fresh {s k} :
    s.reg.startLocks.get? k = none →
    Step uuid s (.begins k)
      ⟨{ s.reg with startLocks := s.reg.startLocks.set k s.reg.nextLock, nextLock := s.reg.nextLock + 1 },
        s.jobs ++ [.call ⟨k, s.reg.nextLock, .waiting, []⟩]⟩
  | evictIdle {s now m todo} :
    (s.reg.pop (s.reg.idle now)).stopAll true ((s.reg.idle now).map Prod.snd) = (m, todo) →
    Step uuid s (.evictIdle now) ⟨m, s.jobs ++ if todo = [] then [] else [.evict todo]⟩
  | evictSessions {s ids m todo} :
    (s.reg.pop (s.reg.named ids)).stopAll true ((s.reg.named ids).map Prod.snd) = (m, todo) →
    Step uuid s (.evictSessions ids) ⟨m, s.jobs ++ if todo = [] then [] else [.evict todo]⟩
  /-- The objects are stopped in some order. -/
  | stop {s all m todo} :
    all.Nodup →
    (∀ o, o ∈ all ↔ ∃ k, s.reg.sessions.get? k = some o) →
    { s.reg with sessions := .empty, lastUsed := .empty, startLocks := .empty }.stopAll false all = (m, todo) →
    Step uuid s .stop ⟨m, s.jobs ++ if todo = [] then [] else [.stop todo]⟩
  | runs {s now before j after m out ret} :
    s.jobs = before ++ j :: after →
    Adv now s.reg j m out ret →
    Step uuid s (.runs now before j after out)
      ⟨m, before.map (j.noted uuid ret) ++ out ++ after.map (j.noted uuid ret)⟩
  /-- `attach_to_session`, of `handle_user_message`, `handle_continue`, `handle_compact` and the answer of a question. -/
  | attach {s : System} {o ob sid} :
    s.reg.objects[o]? = some ob →
    sid ≠ "" →
    Step uuid s (.attach o sid) { s with reg := { s.reg with objects := s.reg.objects.set o { ob with sid } } }
  /-- The database may have changed. -/
  | acts {s : System} {o ob db a sys} :
    s.reg.objects[o]? = some ob →
    Session.Step ⟨ob.sys.live, db, ob.sys.procs⟩ a sys →
    Step uuid s (.acts o a) { s with reg := { s.reg with objects := s.reg.objects.set o { ob with sys } } }

end OpenAgentd.Manager
