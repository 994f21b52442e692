import OpenAgentd.Lsp.Client

/-!
# Handing out language server clients

`LspManager` (`services/lsp/manager.py`): `get_clients` and the calls that ask for clients, the cleanup loop, and
`stop`. All of them stop or replace the clients of a root and a language under its lock. Requests are not tied to
calls: any client may be sent any message at any time.
-/

namespace OpenAgentd.Lsp
open OpenAgentd.Lib

/-- Where a call is: in `get_clients` with the commands still to do and the clients so far, or with the clients that it
was given. -/
inductive CallPhase where
  | waiting
  | detecting
  | checking (commands : List Command) (clients : List Nat)
  | replacing (client : Nat) (stage : Stage) (command : Command) (commands : List Command) (clients : List Nat)
  | starting (command : Command) (commands : List Command) (clients : List Nat)
  | initializing (client : Nat) (command : Command) (commands : List Command) (clients : List Nat)
  | dropping (client : Nat) (stage : Stage) (command : Command) (commands : List Command) (clients : List Nat)
  | served (clients : List Nat)
  | finished
deriving DecidableEq

/-- The clients that `get_clients` has so far. -/
def CallPhase.listed : CallPhase → List Nat
  | .checking _ clients => clients
  | .replacing _ _ _ _ clients => clients
  | .starting _ _ clients => clients
  | .initializing _ _ _ clients => clients
  | .dropping _ _ _ _ clients => clients
  | _ => []

/-- The commands that it has not done. -/
def CallPhase.rest : CallPhase → List Command
  | .checking commands _ => commands
  | .replacing _ _ command commands _ => command :: commands
  | .starting command commands _ => command :: commands
  | .initializing _ command commands _ => command :: commands
  | .dropping _ _ command commands _ => command :: commands
  | _ => []

/-- Where `LspManager.stop` is. -/
inductive StopPhase where
  | cancelling
  | locking (inits : List Init)
  | holding (init : Init) (todo : List Nat) (inits : List Init)
  | stopping (client : Nat) (stage : Stage) (init : Init) (todo : List Nat) (inits : List Init)
  | finished
deriving DecidableEq

inductive Task where
  | call (init : Init) (phase : CallPhase)
  | stop (phase : StopPhase)
deriving DecidableEq

/-- A pass of the cleanup: its time, the clients that it has seen, and the locks that it has not taken yet. -/
structure Pass where
  now : Nat
  clients : List Nat
  inits : List Init
deriving DecidableEq

/-- Where `_cleanup_loop` is, with the clients of the lock still to do and those to remove. -/
inductive Cleanup where
  | none
  | sleeping
  | locking (pass : Pass)
  | holding (init : Init) (todo gone : List Nat) (pass : Pass)
  | stopping (client : Nat) (stage : Stage) (init : Init) (todo gone : List Nat) (pass : Pass)
deriving DecidableEq

/-- `LspManager`, with all clients that were made, all tasks, and the clients that `get_clients` has just returned. -/
structure LspManager where
  clients : List LspClient := []
  cached : Dict Key Nat := .empty
  locks : List Init := []
  stopping : Bool := false
  cleanup : Cleanup := .none
  tasks : List Task := []
  now : Nat := 0
  returned : List Nat := []

inductive TaskEvent where
  | lock
  | detect (commands : List Command)
  | go
  | spawn (succeeds : Bool)
  | initialized (succeeds : Bool)
  | finish

inductive CleanupEvent where
  | wake
  | lock
  | go
  | abort

inductive Event where
  | tick (now : Nat)
  | client (c : Nat) (e : ClientEvent)
  | start
  | call (init : Init)
  | stop
  | task (k : Nat) (e : TaskEvent)
  | cleanup (e : CleanupEvent)

/-- The lock that a task holds. -/
def Task.holds : Task → Option Init
  | .call init (.detecting) => some init
  | .call init (.checking _ _) => some init
  | .call init (.replacing _ _ _ _ _) => some init
  | .call init (.starting _ _ _) => some init
  | .call init (.initializing _ _ _ _) => some init
  | .call init (.dropping _ _ _ _ _) => some init
  | .stop (.holding init _ _) => some init
  | .stop (.stopping _ _ init _ _) => some init
  | _ => none

def Cleanup.holds : Cleanup → Option Init
  | .holding init _ _ _ => some init
  | .stopping _ _ init _ _ _ => some init
  | _ => Option.none

namespace LspManager

def locked (m : LspManager) (init : Init) : Bool :=
  m.tasks.any (fun t => t.holds = some init) || m.cleanup.holds = some init

def setTask (m : LspManager) (k : Nat) (t : Task) : LspManager := { m with tasks := m.tasks.set k t }

def setClient (m : LspManager) (c : Nat) (client : LspClient) : LspManager := { m with clients := m.clients.set c client }

/-- The clients of a root and a language. -/
def ofInit (m : LspManager) (init : Init) (clients : List Nat) : List Nat :=
  clients.filter fun c => (m.clients[c]?).any fun client => client.key.init = init

/-- `if self._clients.get(key) is client: self._clients.pop(key, None)` -/
def pop (m : LspManager) (c : Nat) : LspManager :=
  match m.clients[c]? with
  | some client => if m.cached.get? client.key = some c then { m with cached := m.cached.erase client.key } else m
  | none => m

/-- A stage of a client's `stop`. -/
def stopClient (m : LspManager) (c : Nat) (stage : Stage) : Option (LspManager × Option Stage) :=
  ((m.clients[c]?).bind (·.stopStep stage)).map fun after => (m.setClient c after.1, after.2)

/-- A step of a call. -/
def callStep (m : LspManager) (k : Nat) (init : Init) : CallPhase → TaskEvent → Option LspManager
  | .waiting, .lock =>
    if m.locked init then none
    else if m.stopping then some (m.setTask k (.call init .finished))
    else some (m.setTask k (.call init .detecting))
  -- the commands of a language are different ones
  | .detecting, .detect commands =>
    if commands.Nodup then some (m.setTask k (.call init (.checking commands []))) else none
  | .checking [] clients, .go => some { m.setTask k (.call init (.served clients)) with returned := clients }
  | .checking (command :: commands) clients, .go =>
    match m.cached.get? ⟨init, command⟩ with
    | some c =>
      if (m.clients[c]?).any LspClient.alive then
        some (m.setTask k (.call init (.checking commands (clients ++ [c]))))
      else some (m.setTask k (.call init (.replacing c .graceful command commands clients)))
    | none => some (m.setTask k (.call init (.starting command commands clients)))
  | .replacing c stage command commands clients, .go =>
    match m.stopClient c stage with
    | some (m, some stage) => some (m.setTask k (.call init (.replacing c stage command commands clients)))
    | some (m, none) =>
      some ({ m with cached := m.cached.erase ⟨init, command⟩ }.setTask k (.call init (.starting command commands clients)))
    | none => none
  | .starting command commands clients, .spawn true =>
    some ({ m with clients := m.clients ++ [LspClient.spawned ⟨init, command⟩ m.now] }.setTask k
      (.call init (.initializing m.clients.length command commands clients)))
  | .starting _ commands clients, .spawn false => some (m.setTask k (.call init (.checking commands clients)))
  | .initializing c command commands clients, .initialized true =>
    some ({ m with cached := m.cached.set ⟨init, command⟩ c }.setTask k (.call init (.checking commands (clients ++ [c]))))
  | .initializing c command commands clients, .initialized false =>
    some (m.setTask k (.call init (.dropping c .graceful command commands clients)))
  | .dropping c stage command commands clients, .go =>
    match m.stopClient c stage with
    | some (m, some stage) => some (m.setTask k (.call init (.dropping c stage command commands clients)))
    | some (m, none) => some (m.setTask k (.call init (.checking commands clients)))
    | none => none
  | .served _, .finish => some (m.setTask k (.call init .finished))
  | _, _ => none

/-- A step of `LspManager.stop`. -/
def managerStopStep (m : LspManager) (k : Nat) : StopPhase → TaskEvent → Option LspManager
  | .cancelling, .go => if m.cleanup = .none then some (m.setTask k (.stop (.locking m.locks))) else none
  | .locking [], .go => some { m.setTask k (.stop .finished) with stopping := false }
  | .locking (init :: inits), .lock =>
    if m.locked init then none
    else some (m.setTask k (.stop (.holding init (m.ofInit init (m.cached.entries.map Prod.snd)) inits)))
  | .holding _ [] inits, .go => some (m.setTask k (.stop (.locking inits)))
  | .holding init (c :: todo) inits, .go => some (m.setTask k (.stop (.stopping c .graceful init todo inits)))
  | .stopping c stage init todo inits, .go =>
    match m.stopClient c stage with
    | some (m, some stage) => some (m.setTask k (.stop (.stopping c stage init todo inits)))
    | some (m, none) => some ((m.pop c).setTask k (.stop (.holding init todo inits)))
    | none => none
  | _, _ => none

/-- A client that the cleanup stops: no message for five minutes, or no process any more. -/
def idle (pass : Pass) (client : LspClient) : Bool := 300 < pass.now - client.lastUsedAt || client.died

/-- A step of `_cleanup_loop`. It is cancelled by `stop` where it waits; the join of a read task takes a cancellation
for its own. -/
def cleanupStep (m : LspManager) : Cleanup → CleanupEvent → Option LspManager
  | .sleeping, .wake => some { m with cleanup := .locking ⟨m.now, m.cached.entries.map Prod.snd, m.locks⟩ }
  | .locking ⟨now, clients, init :: inits⟩, .lock =>
    if m.locked init then none
    else if m.stopping then some { m with cleanup := .none }
    else some { m with cleanup := .holding init (m.ofInit init clients) [] ⟨now, clients, inits⟩ }
  | .locking ⟨_, _, []⟩, .go => some { m with cleanup := .sleeping }
  | .holding _ [] gone pass, .go => some { gone.foldl pop m with cleanup := .locking pass }
  | .holding init (c :: todo) gone pass, .go =>
    match m.clients[c]? with
    | some client =>
      if m.cached.get? client.key = some c ∧ idle pass client then
        some { m with cleanup := .stopping c .graceful init todo gone pass }
      else some { m with cleanup := .holding init todo gone pass }
    | none => some { m with cleanup := .holding init todo gone pass }
  | .stopping c stage init todo gone pass, .go =>
    match m.stopClient c stage with
    | some (m, some stage) => some { m with cleanup := .stopping c stage init todo gone pass }
    | some (m, none) => some { m with cleanup := .holding init todo (gone ++ [c]) pass }
    | none => none
  | .none, .abort => none
  | .stopping _ .joining _ _ _ _, .abort => none
  | _, .abort => if m.tasks.contains (.stop .cancelling) then some { m with cleanup := .none } else none
  | _, _ => none

def next (m : LspManager) : Event → Option LspManager
  | .tick now => if m.now ≤ now then some { m with now } else none
  | .client c e => ((m.clients[c]?).bind (·.step m.now e)).map (m.setClient c)
  | .start => some (if m.cleanup = .none then { m with cleanup := .sleeping } else m)
  | .call init =>
    some { m with
      tasks := m.tasks ++ [.call init .waiting]
      locks := if m.locks.contains init then m.locks else m.locks ++ [init] }
  | .stop => some { m with tasks := m.tasks ++ [.stop .cancelling], stopping := true }
  | .task k e =>
    match m.tasks[k]? with
    | some (.call init phase) => m.callStep k init phase e
    | some (.stop phase) => m.managerStopStep k phase e
    | none => none
  | .cleanup e => m.cleanupStep m.cleanup e

def Step (m : LspManager) (e : Event) (m' : LspManager) : Prop := { m with returned := [] }.next e = some m'

/-- A `get_clients` that has not returned yet has the client in its list. -/
def Listed (m : LspManager) (c : Nat) : Prop :=
  ∃ (k : Nat) (init : Init) (phase : CallPhase), m.tasks[k]? = some (.call init phase) ∧ c ∈ phase.listed

/-- A call that has not ended was given the client. -/
def InUse (m : LspManager) (c : Nat) : Prop :=
  ∃ (k : Nat) (init : Init) (clients : List Nat), m.tasks[k]? = some (.call init (.served clients)) ∧ c ∈ clients

/-- The clients are usable. -/
structure Usable (m : LspManager) : Prop where
  /-- With the read loop at its end no request waits for ever. -/
  answered : ∀ (c : Nat) (client : LspClient), m.clients[c]? = some client → client.Answered
  /-- The read loops of the clients that `get_clients` returns have not ended. -/
  handed : ∀ c ∈ m.returned, ∃ client, m.clients[c]? = some client ∧ client.readLoop = .reading
  /-- No client is in use that the cleanup stops. -/
  kept : ∀ c stage init todo gone pass, m.cleanup = .stopping c stage init todo gone pass → ¬ m.InUse c
  /-- One server runs for a root, a language and a command. -/
  single : ∀ (c d : Nat) (client other : LspClient), m.clients[c]? = some client → m.clients[d]? = some other →
    client.key = other.key → client.process = .running → other.process = .running → c = d

/-- What a step has to meet: no message of a request goes through after the read loop has ended; a cached client whose
process runs is still read, and so is a client that has just been initialised, and one that waits in the list of a
`get_clients`; and the cleanup finds the clients that are in use with their processes and with a message in the last
five minutes. -/
def Careful (m : LspManager) : Event → Prop
  | .client c (.sent i) => ∀ client r, m.clients[c]? = some client → client.requests[i]? = some r →
    client.readLoop = .ended → r.done = true
  | .client c .readEnds => ¬ m.Listed c
  | .task k .go => ∀ init command commands clients c client,
    m.tasks[k]? = some (.call init (.checking (command :: commands) clients)) →
    m.cached.get? ⟨init, command⟩ = some c → m.clients[c]? = some client → client.alive → client.readLoop = .reading
  | .task k (.initialized true) => ∀ init command commands clients c client,
    m.tasks[k]? = some (.call init (.initializing c command commands clients)) → m.clients[c]? = some client →
    client.readLoop = .reading
  | .cleanup .go => ∀ init c todo gone pass client, m.cleanup = .holding init (c :: todo) gone pass →
    m.clients[c]? = some client → m.cached.get? client.key = some c → m.InUse c → idle pass client = false
  | _ => True

end LspManager
end OpenAgentd.Lsp
