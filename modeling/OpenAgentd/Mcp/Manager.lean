import OpenAgentd.Lib.Dict
import OpenAgentd.Lib.Run

/-!
# MCP servers

`MCPManager` (`agent/mcp/manager.py`). Each configured server has a runner, and each enabled one a task that opens a
session, publishes its tools and waits for its shutdown. The administrative operations hold one lock; an operation that
waits for tasks holds it meanwhile. A runner's task goes on at its own pace: it may fail or be cancelled wherever it
waits, and what it writes on the way out it writes after its contexts are closed.
-/

namespace OpenAgentd.Mcp
open OpenAgentd.Lib

/-! ## Runners -/

/-- `StdioServerConfig` and `HttpServerConfig`, with all that a launch needs as one text. -/
structure ServerConfig where
  enabled : Bool
  launch : String
deriving DecidableEq

/-- `mcp.json` -/
abbrev McpConfig := Dict String ServerConfig

/-- `status.state` -/
inductive ServerState where
  | stopped
  | starting
  | ready
  | error
  | authRequired
deriving DecidableEq

/-- How a task leaves its contexts: through the end of the block, cancelled, or with an exception. -/
inductive Exit where
  | normal
  | cancelled
  | authRequired
  | error
deriving DecidableEq

/-- Where a runner's task is. A disabled server has none. -/
inductive Phase where
  | disabled
  | created
  | opening
  | serving
  | leaving (exit : Exit)
  | done (exit : Exit)
deriving DecidableEq

/-- A session, with the tools that its server lists. -/
structure ClientSession where
  id : Nat
  tools : List String
deriving DecidableEq

structure MCPTool where
  serverName : String
  remoteName : String
deriving DecidableEq

/-- `f"{server_name}_{mcp_tool.name}"` -/
def MCPTool.name (t : MCPTool) : String := t.serverName ++ "_" ++ t.remoteName

/-- `_ServerRunner`, with the name and the configuration that it was made for and what the file had for the name when
it was registered. -/
structure ServerRunner where
  name : String
  config : ServerConfig
  onDisk : Option ServerConfig
  phase : Phase
  shutdown : Bool
  ready : Bool
  session : Option ClientSession := none
  state : ServerState
  toolNames : List String := []
  tools : List MCPTool := []
deriving DecidableEq

/-- `task is not None and not task.done()` -/
def Phase.unfinished : Phase → Bool
  | .created => true
  | .opening => true
  | .serving => true
  | .leaving _ => true
  | .disabled => false
  | .done _ => false

/-- What happens to a runner's task. -/
inductive RunnerEvent where
  | begin
  | connect (session : ClientSession)
  | leave (exit : Exit)
  | finish
deriving DecidableEq

namespace ServerRunner

/-- The `except` branches of `_run_server`. -/
def close (r : ServerRunner) : Exit → ServerRunner
  | .normal => r
  | .cancelled => { r with state := .stopped, ready := true }
  | .authRequired => { r with session := none, tools := [], state := .authRequired, toolNames := [], ready := true }
  | .error => { r with session := none, tools := [], state := .error, toolNames := [], ready := true }

/-- One step of `_run_server`. A task that is cancelled before it begins runs none of it. -/
def step (r : ServerRunner) : RunnerEvent → Option ServerRunner
  | .begin => if r.phase = .created then some { r with phase := .opening } else none
  | .connect session =>
    if r.phase = .opening then
      let tools := session.tools.map (MCPTool.mk r.name)
      some { r with phase := .serving, session, tools, state := .ready, toolNames := tools.map MCPTool.name, ready := true }
    else none
  | .leave .normal =>
    if r.phase = .serving ∧ r.shutdown then some { r with phase := .leaving .normal, session := none } else none
  | .leave .cancelled =>
    if r.phase = .created then some { r with phase := .done .cancelled }
    else if r.phase.unfinished then some { r with phase := .leaving .cancelled }
    else none
  | .leave exit =>
    if r.phase ≠ .created ∧ r.phase.unfinished then some { r with phase := .leaving exit } else none
  | .finish =>
    match r.phase with
    | .leaving exit => some ({ r with phase := .done exit }.close exit)
    | _ => none

end ServerRunner

/-! ## The manager -/

/-- The operation that holds the lock while it waits for tasks. -/
inductive Holder where
  | restart (name : String) (config : ServerConfig) (runner : Nat) (timedOut : Bool)
  | remove (name : String) (runner : Nat) (timedOut : Bool)
  | stop (tasks : List Nat)
  | reload (tasks : List Nat)
deriving DecidableEq

/-- The tasks that the holder waits for. -/
def Holder.tasks : Holder → List Nat
  | .restart _ _ i _ => [i]
  | .remove _ i _ => [i]
  | .stop tasks => tasks
  | .reload tasks => tasks

/-- `MCPManager`, the file, all runners that were made, and the restarts that have read the file and wait for the lock. -/
structure Manager where
  disk : Option McpConfig
  runners : List ServerRunner := []
  registered : Dict String Nat := .empty
  started : Bool := false
  waiting : List (String × ServerConfig) := []
  holder : Option Holder := none
  /-- `stop` has just returned. -/
  stopped : Bool := false

inductive Event where
  | edit (disk : Option McpConfig)
  | start
  | stop
  | reload
  | remove (name : String)
  | restart (name : String)
  | lockRestart (call : Nat)
  | dropRestart (call : Nat)
  | timeout
  | resume
  | abandon
  | runner (i : Nat) (e : RunnerEvent)

namespace Manager

/-- `self._runners.get(name)` -/
def runner? (m : Manager) (name : String) : Option ServerRunner := (m.registered.get? name).bind (m.runners[·]?)

/-- `get_tools_for_server` -/
def getToolsForServer (m : Manager) (name : String) : Option (List MCPTool) :=
  (m.runner? name).map fun r => if r.state = .ready then r.tools else []

/-- What the file has for a name. -/
def onDisk (m : Manager) (name : String) : Option ServerConfig := m.disk.bind (·.get? name)

/-- `_make_disabled_runner` and `_spawn_runner` -/
def makeRunner (m : Manager) (name : String) (config : ServerConfig) : ServerRunner :=
  if config.enabled then
    { name, config, onDisk := m.onDisk name, phase := .created, shutdown := false, ready := false, state := .starting }
  else { name, config, onDisk := m.onDisk name, phase := .disabled, shutdown := true, ready := true, state := .stopped }

/-- A runner is made and takes the name. -/
def register (m : Manager) (name : String) (config : ServerConfig) : Manager :=
  { m with runners := m.runners ++ [m.makeRunner name config], registered := m.registered.set name m.runners.length }

/-- `_start_locked` -/
def startLocked (m : Manager) : Manager :=
  match m.disk with
  | none => { m with started := true }
  | some cfg => cfg.entries.foldl (fun m e => m.register e.1 e.2) { m with started := true }

/-- `runner.shutdown.set()` -/
def signal (m : Manager) (i : Nat) : Manager :=
  { m with runners := m.runners.modify i fun r => { r with shutdown := true } }

def signalAll (m : Manager) : Manager := m.registered.entries.foldl (fun m e => m.signal e.2) m

def unfinished (m : Manager) (i : Nat) : Bool := (m.runners[i]?).any (·.phase.unfinished)

/-- The tasks that are not done. -/
def pending (m : Manager) : List Nat := (m.registered.entries.map Prod.snd).filter m.unfinished

/-- The task that `_stop_runner` waits for. -/
def awaited (m : Manager) (name : String) : Option Nat := (m.registered.get? name).filter m.unfinished

/-- `self._runners.clear()` -/
def clear (m : Manager) : Manager := { m with registered := .empty, started := false }

/-- `self._runners.pop(name, None)` -/
def unregister (m : Manager) (name : String) : Manager := { m with registered := m.registered.erase name }

/-- The end of a holder's wait. A task that was cancelled by someone else raises into `_stop_runner`. -/
def goOn (m : Manager) : Holder → Option Manager
  | .restart name config i timedOut =>
    if timedOut ∨ (m.runners[i]?).all (·.phase ≠ .done .cancelled) then some (m.register name config) else none
  | .remove name i timedOut =>
    if timedOut ∨ (m.runners[i]?).all (·.phase ≠ .done .cancelled) then some (m.unregister name) else none
  | .stop _ => some { m.clear with stopped := true }
  | .reload _ => some m.clear.startLocked

/-- One step. Operations need the lock, but that a restart reads the file before it asks for it. -/
def next (m : Manager) : Event → Option Manager
  | .edit disk => some { m with disk }
  | .start => if m.holder ≠ none then none else if m.started then some m else some m.startLocked
  | .stop =>
    if m.holder ≠ none then none
    else if ¬ m.started then some { m with stopped := true }
    else if m.pending = [] then m.signalAll.goOn (.stop [])
    else some { m.signalAll with holder := some (.stop m.pending) }
  | .reload =>
    if m.holder ≠ none then none
    else if m.pending = [] then m.signalAll.goOn (.reload [])
    else some { m.signalAll with holder := some (.reload m.pending) }
  | .remove name =>
    if m.holder ≠ none then none
    else
      match m.awaited name with
      | some i => some { m.signal i with holder := some (.remove name i false) }
      | none => some (m.unregister name)
  | .restart name =>
    match m.onDisk name with
    | some config => some { m with waiting := m.waiting ++ [(name, config)] }
    | none => some m
  | .lockRestart call =>
    if m.holder ≠ none then none
    else
      match m.waiting[call]? with
      | none => none
      | some (name, config) =>
        let m := { m with waiting := m.waiting.eraseIdx call }
        match m.awaited name with
        | some i => some { m.signal i with holder := some (.restart name config i false) }
        | none => some (m.register name config)
  | .dropRestart call => some { m with waiting := m.waiting.eraseIdx call }
  | .timeout =>
    match m.holder with
    | some (.restart name config i false) => some { m with holder := some (.restart name config i true) }
    | some (.remove name i false) => some { m with holder := some (.remove name i true) }
    | _ => none
  | .resume =>
    match m.holder with
    | some h => if h.tasks.any m.unfinished then none else { m with holder := none }.goOn h
    | none => none
  | .abandon =>
    match m.holder with
    | some h => if h.tasks.any m.unfinished then none else some { m with holder := none }
    | none => none
  | .runner i e => ((m.runners[i]?).bind (·.step e)).map fun r => { m with runners := m.runners.set i r }

/-- The manager goes from one state to another with an event. -/
def Step (m : Manager) (e : Event) (m' : Manager) : Prop := { m with stopped := false }.next e = some m'

/-- What the manager tells is true. -/
structure Truthful (m : Manager) : Prop where
  /-- A server that is reported as ready has a live session, and its tools are offered. -/
  ready : ∀ name r, m.runner? name = some r → r.state = .ready → ∃ session, r.session = some session ∧
    r.phase = .serving ∧ m.getToolsForServer name = some (session.tools.map (MCPTool.mk name))
  /-- A server in any other state offers no tools. -/
  idle : ∀ name r, m.runner? name = some r → r.state ≠ .ready → m.getToolsForServer name = some []
  /-- Each name has one unfinished task at most. -/
  single : ∀ (i j : Nat) (r q : ServerRunner), m.runners[i]? = some r → m.runners[j]? = some q → r.name = q.name → r.phase.unfinished →
    q.phase.unfinished → i = j
  /-- The runner of a name was started from what the file had then. -/
  configured : ∀ name r, m.runner? name = some r → r.onDisk = some r.config
  /-- When `stop` returns no task is left. -/
  silent : m.stopped → ∀ (i : Nat) (r : ServerRunner), m.runners[i]? = some r → r.phase.unfinished = false

/-- A restart takes the lock while the manager is started. -/
def Started (m : Manager) : Event → Prop
  | .lockRestart _ => m.started
  | _ => True

/-- A restart registers what it has read from the file while that is still what the file has, and no task leaves its
wait for the shutdown. -/
def Orderly (m : Manager) : Event → Prop
  | .lockRestart call =>
    ∀ name config, m.waiting[call]? = some (name, config) → m.awaited name = none → m.onDisk name = some config
  | .resume => ∀ name config i timedOut, m.holder = some (.restart name config i timedOut) → m.onDisk name = some config
  | .runner i (.leave _) => ∀ r, m.runners[i]? = some r → r.phase ≠ .serving
  | _ => True

end Manager
end OpenAgentd.Mcp
