import OpenAgentd.Lib.Dict
import OpenAgentd.Lib.Run

/-!
# Terminals in the browser

`web/src/stores/useTerminalStore.ts`: the sessions that are listed, and for each of them the renderer and the socket that
outlive the component that shows them. A session is connected by a task that may wait twice, for the code of the renderer
and for the handshake, while the session is closed, reaped or connected again.

Each session is always in one of the states of `Shape`. So no renderer and no socket is left behind by a session that is
gone, no session has two, output reaches the renderer of its session alone, and the reaper leaves what is shown
(`terminals_sound`).
-/

namespace OpenAgentd.Web.Terminals
open OpenAgentd.Lib

inductive Status where
  | connecting
  | connected
  | exited
  | error
  deriving DecidableEq

inductive ClosedReason where
  | exit
  | idle
  deriving DecidableEq

/-- An xterm instance, with the session it was made for. -/
structure Handle where
  owner : Nat
  number : Nat
  deriving DecidableEq

/-- A socket, with the session whose callbacks it has and the terminal it writes to. -/
structure Socket where
  owner : Nat
  number : Nat
  term : Handle
  deriving DecidableEq

/-- `TerminalSessionMeta`, without what only the views show. -/
structure SessionMeta where
  status : Status
  closedReason : Option ClosedReason
  errorMsg : Option (List Char)
  handleReady : Bool

/-- `TerminalRuntime` -/
structure Runtime where
  handle : Option Handle
  socket : Option Socket
  lastActivityAt : Int
  attached : Bool

/-- What a `connect` waits for. -/
inductive Phase where
  | loading
  | handshake (term : Handle)

/-- A `connect` that waits. -/
structure Task where
  id : Nat
  phase : Phase

/-- The store, the map of runtimes and what the browser holds for them: `handles` are not disposed, `openSockets` neither
closed nor ended by the server. A socket in `closing` was closed and has its last event to come. -/
structure Store where
  sessions : Dict Nat SessionMeta
  runtimes : Dict Nat Runtime
  nextOrder : Nat
  reaper : Bool
  tasks : List Task
  openSockets : List Socket
  closing : List Socket
  handles : List Handle
  nextHandle : Nat
  nextSocket : Nat

def Store.empty : Store := ⟨Dict.empty, Dict.empty, 0, false, [], [], [], [], 0, 0⟩

/-- `TERMINAL_IDLE_CLOSE_MS` -/
def terminalIdleCloseMs : Int := 15 * 60 * 1000

/-! ### Connecting -/

/-- A change of a session that is still there. -/
def Store.patch (s : Store) (id : Nat) (change : SessionMeta → SessionMeta) : Store :=
  match s.sessions.get? id with
  | none => s
  | some m => { s with sessions := s.sessions.set id (change m) }

/-- `socket.close()` -/
def Store.closeSocket (s : Store) : Option Socket → Store
  | none => s
  | some k =>
    { s with
      openSockets := s.openSockets.filter (· ≠ k)
      closing := s.closing ++ s.openSockets.filter (· = k) }

/-- `handle.term.dispose()` -/
def Store.dispose (s : Store) : Option Handle → Store
  | none => s
  | some h => { s with handles := s.handles.filter (· ≠ h) }

/-- `teardownRuntime` -/
def Store.teardownRuntime (s : Store) (rt : Runtime) : Store := (s.closeSocket rt.socket).dispose rt.handle

/-- `connect`, to its first wait. -/
def Store.connect (s : Store) (id : Nat) : Store :=
  match s.runtimes.get? id with
  | none => s
  | some rt =>
    match rt.handle with
    | none => { s with tasks := s.tasks ++ [(⟨id, .loading⟩ : Task)] }
    | some term => { s with tasks := s.tasks ++ [(⟨id, .handshake term⟩ : Task)] }

/-- `connect`, when the renderer's code is there. -/
def Store.loaded (s : Store) (id : Nat) : Store :=
  match s.runtimes.get? id with
  | none => s
  | some rt =>
    let term : Handle := ⟨id, s.nextHandle⟩
    let made := { s with
      runtimes := s.runtimes.set id { rt with handle := some term }
      handles := s.handles ++ [term]
      nextHandle := s.nextHandle + 1
      tasks := s.tasks ++ [(⟨id, .handshake term⟩ : Task)] }
    made.patch id fun m => { m with handleReady := true }

/-- The handshake is done. No id is given twice, so a runtime under the id is the one that was connected. -/
def Store.resolved (s : Store) (id : Nat) (term : Handle) (now : Int) : Store :=
  let socket : Socket := ⟨id, s.nextSocket, term⟩
  match s.runtimes.get? id with
  | none => { s with closing := s.closing ++ [socket], nextSocket := s.nextSocket + 1 }
  | some rt =>
    let held := { s with
      runtimes := s.runtimes.set id { rt with socket := some socket, lastActivityAt := now }
      openSockets := s.openSockets ++ [socket]
      nextSocket := s.nextSocket + 1 }
    held.patch id fun m => { m with status := .connected, closedReason := none, errorMsg := none }

def Store.rejected (s : Store) (id : Nat) (message : List Char) : Store :=
  s.patch id fun m => { m with status := .error, errorMsg := some message }

/-! ### What a socket calls -/

def Store.onExit (s : Store) (id : Nat) : Store :=
  s.patch id fun m => { m with status := .exited, closedReason := some .exit }

def Store.onError (s : Store) (id : Nat) : Store :=
  s.patch id fun m =>
    if m.status = .connected then
      { m with status := .error, errorMsg := some "Terminal connection error".toList }
    else m

def Store.onClose (s : Store) (id : Nat) : Store :=
  s.patch id fun m => if m.status = .connected then { m with status := .exited, closedReason := some .exit } else m

/-! ### The store -/

def Store.open_ (s : Store) (now : Int) : Store :=
  let id := s.nextOrder + 1
  let opened := { s with
    nextOrder := id
    runtimes := s.runtimes.set id ⟨none, none, now, false⟩
    sessions := s.sessions.set id ⟨.connecting, none, none, false⟩
    reaper := true }
  opened.connect id

def Store.reconnect (s : Store) (id : Nat) (now : Int) : Store :=
  match s.runtimes.get? id, s.sessions.get? id with
  | some rt, some m =>
    if m.status = .connected ∨ m.status = .connecting then s
    else
      let closed := s.closeSocket rt.socket
      let again := { closed with
        runtimes := closed.runtimes.set id { rt with socket := none, lastActivityAt := now }
        sessions := closed.sessions.set id { m with status := .connecting, closedReason := none, errorMsg := none } }
      again.connect id
  | _, _ => s

def Store.close (s : Store) (id : Nat) : Store :=
  let torn := match s.runtimes.get? id with
    | none => s
    | some rt => s.teardownRuntime rt
  let sessions := torn.sessions.erase id
  { torn with
    runtimes := torn.runtimes.erase id
    sessions
    reaper := if sessions.keys = [] then false else torn.reaper }

def Store.changeRuntime (s : Store) (id : Nat) (change : Runtime → Runtime) : Store :=
  match s.runtimes.get? id with
  | none => s
  | some rt => { s with runtimes := s.runtimes.set id (change rt) }

/-- `sendInput`, without what is sent. -/
def Store.sendInput (s : Store) (id : Nat) (now : Int) : Store :=
  s.changeRuntime id fun rt => if rt.socket.isSome then { rt with lastActivityAt := now } else rt

def Store.setAttached (s : Store) (id : Nat) (attached : Bool) (now : Int) : Store :=
  s.changeRuntime id fun rt =>
    { rt with attached, lastActivityAt := if attached then rt.lastActivityAt else now }

def Store.noteActivity (s : Store) (id : Nat) (now : Int) : Store :=
  s.changeRuntime id fun rt => { rt with lastActivityAt := now }

/-- A round of the loop of `reapIdle`. -/
def Store.reap (s : Store) (now : Int) (id : Nat) : Store :=
  match s.runtimes.get? id, s.sessions.get? id with
  | some rt, some m =>
    if m.status ≠ .connected then s
    else if rt.attached then s
    else if now - rt.lastActivityAt ≤ terminalIdleCloseMs then s
    else
      let torn := s.teardownRuntime rt
      let bare := { torn with runtimes := torn.runtimes.set id { rt with socket := none, handle := none } }
      bare.patch id fun m => { m with status := .exited, closedReason := some .idle }
  | _, _ => s

def Store.reapIdle (s : Store) (now : Int) : Store := s.runtimes.keys.foldl (fun s id => s.reap now id) s

/-! ### Steps -/

inductive Action where
  | open_
  | reconnect (id : Nat)
  | close (id : Nat)
  | sendInput (id : Nat)
  | setAttached (id : Nat) (attached : Bool)
  | noteActivity (id : Nat)
  | reapIdle
  | loaded (id : Nat)
  | loadFails (id : Nat)
  | resolved (id : Nat)
  | rejected (id : Nat)
  | refused (id : Nat)
  | exitFrame (socket : Socket)
  | errorEvent (socket : Socket)
  | closeEvent (socket : Socket)

inductive Step : Store → Action → Store → Prop where
  | open_ (s : Store) (now : Int) : Step s .open_ (s.open_ now)
  | reconnect (s : Store) (id : Nat) (now : Int) : Step s (.reconnect id) (s.reconnect id now)
  | close (s : Store) (id : Nat) : Step s (.close id) (s.close id)
  | sendInput (s : Store) (id : Nat) (now : Int) : Step s (.sendInput id) (s.sendInput id now)
  | setAttached (s : Store) (id : Nat) (attached : Bool) (now : Int) :
    Step s (.setAttached id attached) (s.setAttached id attached now)
  | noteActivity (s : Store) (id : Nat) (now : Int) : Step s (.noteActivity id) (s.noteActivity id now)
  | reapIdle (s : Store) (now : Int) : Step s .reapIdle (s.reapIdle now)
  | loaded (s : Store) (id : Nat) (before after : List Task) (waits : s.tasks = before ++ ⟨id, .loading⟩ :: after) :
    Step s (.loaded id) (({ s with tasks := before ++ after } : Store).loaded id)
  /-- The code of the renderer is not delivered; nobody hears of the exception. -/
  | loadFails (s : Store) (id : Nat) (before after : List Task) (waits : s.tasks = before ++ ⟨id, .loading⟩ :: after) :
    Step s (.loadFails id) { s with tasks := before ++ after }
  | resolved (s : Store) (id : Nat) (term : Handle) (now : Int) (before after : List Task)
      (waits : s.tasks = before ++ ⟨id, .handshake term⟩ :: after) :
    Step s (.resolved id) (({ s with tasks := before ++ after } : Store).resolved id term now)
  | rejected (s : Store) (id : Nat) (term : Handle) (message : List Char) (before after : List Task)
      (waits : s.tasks = before ++ ⟨id, .handshake term⟩ :: after) :
    Step s (.rejected id) (({ s with tasks := before ++ after } : Store).rejected id message)
  /-- The socket was not let in. -/
  | refused (s : Store) (id : Nat) (term : Handle) (message : List Char) (before after : List Task)
      (waits : s.tasks = before ++ ⟨id, .handshake term⟩ :: after) :
    Step s (.refused id) (((({ s with tasks := before ++ after } : Store).onError id).onClose id).rejected id message)
  | exitFrame (s : Store) (k : Socket) (here : k ∈ s.openSockets) : Step s (.exitFrame k) (s.onExit k.owner)
  | errorEvent (s : Store) (k : Socket) (here : k ∈ s.openSockets ∨ k ∈ s.closing) :
    Step s (.errorEvent k) (s.onError k.owner)
  /-- The server ended the socket. -/
  | ended (s : Store) (k : Socket) (here : k ∈ s.openSockets) :
    Step s (.closeEvent k) (({ s with openSockets := s.openSockets.filter (· ≠ k) } : Store).onClose k.owner)
  /-- The last event of a socket that was closed here. -/
  | closed (s : Store) (k : Socket) (before after : List Socket) (here : s.closing = before ++ k :: after) :
    Step s (.closeEvent k) (({ s with closing := before ++ after } : Store).onClose k.owner)

/-! ### One session -/

/-- What a session has. -/
structure View where
  session : Option SessionMeta
  runtime : Option Runtime
  waiting : List Phase
  sockets : List Socket
  handles : List Handle

/-- What the waits of a session are for. -/
def waiting (tasks : List Task) (id : Nat) : List Phase := (tasks.filter (·.id = id)).map Task.phase

def Store.view (s : Store) (id : Nat) : View where
  session := s.sessions.get? id
  runtime := s.runtimes.get? id
  waiting := waiting s.tasks id
  sockets := s.openSockets.filter (·.owner = id)
  handles := s.handles.filter (·.owner = id)

/-- The states a session can be in. -/
inductive Shape (id : Nat) : View → Prop where
  /-- Not opened yet, or closed; a `connect` may still wait. -/
  | gone (tasks : List Phase) (few : tasks.length ≤ 1) : Shape id ⟨none, none, tasks, [], []⟩
  /-- Without a task the code of the renderer was not delivered. -/
  | loading (m : SessionMeta) (rt : Runtime) (tasks : List Phase) (status : m.status = .connecting)
      (handle : rt.handle = none) (socket : rt.socket = none) (waits : tasks = [] ∨ tasks = [.loading]) :
    Shape id ⟨some m, some rt, tasks, [], []⟩
  | handshake (m : SessionMeta) (rt : Runtime) (term : Handle) (status : m.status = .connecting)
      (handle : rt.handle = some term) (socket : rt.socket = none) (owner : term.owner = id) :
    Shape id ⟨some m, some rt, [.handshake term], [], [term]⟩
  /-- The event of a socket that was closed before may have ended the session, not its socket. -/
  | live (m : SessionMeta) (rt : Runtime) (k : Socket) (status : m.status ≠ .connecting)
      (handle : rt.handle = some k.term) (socket : rt.socket = some k) (owner : k.owner = id)
      (owner' : k.term.owner = id) :
    Shape id ⟨some m, some rt, [], [k], [k.term]⟩
  | finished (m : SessionMeta) (rt : Runtime) (status : m.status = .exited ∨ m.status = .error)
      (sockets : ∀ k, rt.socket = some k → k.owner = id) (handles : ∀ h, rt.handle = some h → h.owner = id) :
    Shape id ⟨some m, some rt, [], [], rt.handle.toList⟩

section
variable {s t u : Store} {id j : Nat}

/-- Tasks in a row. -/
@[simp] lemma waiting_append {xs ys : List Task} : waiting (xs ++ ys) id = waiting xs id ++ waiting ys id := by
  simp [waiting]

/-- One task more. -/
@[simp] lemma waiting_cons {x : Task} {xs : List Task} :
    waiting (x :: xs) id = if x.id = id then x.phase :: waiting xs id else waiting xs id := by
  by_cases h : x.id = id
  · simp [waiting, h]
  · simp [waiting, h]

/-- No tasks. -/
@[simp] lemma waiting_nil : waiting [] id = [] := rfl

/-- A patched session. -/
lemma view_patch {change : SessionMeta → SessionMeta} :
    (s.patch id change).view j =
      { s.view j with session := if j = id then (s.sessions.get? id).map change else s.sessions.get? j } := by
  unfold Store.patch
  split
  next h =>
    rcases Decidable.em (j = id) with rfl | ne
    · simp [Store.view, h]
    · simp [Store.view, ne]
  next m h =>
    rcases Decidable.em (j = id) with rfl | ne
    · simp [Store.view, Dict.get?_set, h]
    · simp [Store.view, Dict.get?_set, ne]

/-- The other sessions. -/
lemma view_patch_ne {change : SessionMeta → SessionMeta} (ne : j ≠ id) : (s.patch id change).view j = s.view j := by
  rw [view_patch, if_neg ne]
  rfl

/-- A connect waits. -/
lemma view_connect {rt : Runtime} (h : s.runtimes.get? id = some rt) :
    (s.connect id).view j =
      { s.view j with
        waiting := (s.view j).waiting ++
          if id = j then [match rt.handle with | none => .loading | some term => .handshake term] else [] } := by
  unfold Store.connect
  rw [h]
  rcases Decidable.em (id = j) with rfl | ne
  · cases hh : rt.handle <;> simp [hh, Store.view]
  · cases hh : rt.handle <;> simp [hh, Store.view, ne]

/-- A socket is closed. -/
lemma view_closeSocket {k : Option Socket} :
    (s.closeSocket k).view j =
      { s.view j with sockets := (s.view j).sockets.filter fun x => k ≠ some x } := by
  cases k with
  | none => simp [Store.closeSocket, Store.view]
  | some k =>
    simp only [Store.view, Store.closeSocket, List.filter_filter, ne_eq, Option.some.injEq, View.mk.injEq, true_and,
      and_true]
    apply List.filter_congr
    intro x _
    simp only [Bool.and_comm, eq_comm]

/-- A renderer is disposed. -/
lemma view_dispose {h : Option Handle} :
    (s.dispose h).view j = { s.view j with handles := (s.view j).handles.filter fun x => h ≠ some x } := by
  cases h with
  | none => simp [Store.dispose, Store.view]
  | some h =>
    simp only [Store.view, Store.dispose, List.filter_filter, ne_eq, Option.some.injEq, View.mk.injEq, true_and]
    apply List.filter_congr
    intro x _
    simp only [Bool.and_comm, eq_comm]

/-- What is closed for one session is nothing of another. -/
lemma view_teardown_ne {rt : Runtime} (sockets : ∀ k, rt.socket = some k → k.owner = id)
    (handles : ∀ h, rt.handle = some h → h.owner = id) (ne : j ≠ id) : (s.teardownRuntime rt).view j = s.view j := by
  have hs : (s.view j).sockets.filter (fun x => rt.socket ≠ some x) = (s.view j).sockets := by
    apply List.filter_eq_self.2
    intro x hx
    have ow : x.owner = j := by simpa [Store.view] using (List.mem_filter.1 hx).2
    simpa using fun e => ne (ow.symm.trans (sockets x e))
  have hh : (s.view j).handles.filter (fun x => rt.handle ≠ some x) = (s.view j).handles := by
    apply List.filter_eq_self.2
    intro x hx
    have ow : x.owner = j := by simpa [Store.view] using (List.mem_filter.1 hx).2
    simpa using fun e => ne (ow.symm.trans (handles x e))
  rw [Store.teardownRuntime, view_dispose, view_closeSocket]
  rw [show ({ s.view j with sockets := (s.view j).sockets.filter fun x => rt.socket ≠ some x } : View) = s.view j by
    rw [hs], hh]

/-- The other sessions. -/
lemma view_closeSocket_ne {k : Option Socket} (sockets : ∀ k', k = some k' → k'.owner = id) (ne : j ≠ id) :
    (s.closeSocket k).view j = s.view j := by
  have torn : (s.teardownRuntime ⟨none, k, 0, false⟩).view j = s.view j := view_teardown_ne sockets (by simp) ne
  exact torn

/-! ### What a step leaves alone -/

/-- A step of one session that neither opens nor closes it. -/
structure Frame (id : Nat) (s t : Store) : Prop where
  other : ∀ j, j ≠ id → t.view j = s.view j
  order : t.nextOrder = s.nextOrder
  reaper : t.reaper = s.reaper
  keys : t.sessions.keys = s.sessions.keys

/-- Nothing changes. -/
lemma Frame.refl : Frame id s s := ⟨fun _ _ => rfl, rfl, rfl, rfl⟩

/-- One change after the other. -/
lemma Frame.trans (f : Frame id s t) (g : Frame id t u) : Frame id s u where
  other j ne := (g.other j ne).trans (f.other j ne)
  order := g.order.trans f.order
  reaper := g.reaper.trans f.reaper
  keys := g.keys.trans f.keys

/-- Patching a session. -/
lemma frame_patch {change : SessionMeta → SessionMeta} : Frame id s (s.patch id change) where
  other j ne := view_patch_ne ne
  order := by unfold Store.patch; split <;> rfl
  reaper := by unfold Store.patch; split <;> rfl
  keys := by
    unfold Store.patch
    split
    next => rfl
    next m h => rw [Dict.keys_set, if_pos (Dict.mem_keys.2 ⟨m, h⟩)]

/-- A task that is done. -/
lemma frame_drop {before after : List Task} {p : Phase} (waits : s.tasks = before ++ ⟨id, p⟩ :: after) :
    Frame id s { s with tasks := before ++ after } where
  other j ne := by simp [Store.view, waits, ne.symm]
  order := rfl
  reaper := rfl
  keys := rfl

/-- A new runtime. -/
lemma frame_runtime {rt : Runtime} : Frame id s { s with runtimes := s.runtimes.set id rt } where
  other j ne := by simp [Store.view, Dict.get?_set, ne]
  order := rfl
  reaper := rfl
  keys := rfl

/-- A changed runtime. -/
lemma frame_changeRuntime {change : Runtime → Runtime} : Frame id s (s.changeRuntime id change) := by
  unfold Store.changeRuntime
  split
  next => exact .refl
  next => exact frame_runtime

/-- Connecting. -/
lemma frame_connect : Frame id s (s.connect id) := by
  unfold Store.connect
  split
  next => exact .refl
  next rt _ =>
    cases rt.handle with
    | none => exact ⟨fun j ne => by simp [Store.view, ne.symm], rfl, rfl, rfl⟩
    | some term => exact ⟨fun j ne => by simp [Store.view, ne.symm], rfl, rfl, rfl⟩

/-- The renderer is there. -/
lemma frame_loaded : Frame id s (s.loaded id) := by
  unfold Store.loaded
  split
  next => exact .refl
  next rt _ =>
    have made : Frame id s
        { s with
          runtimes := s.runtimes.set id { rt with handle := some ⟨id, s.nextHandle⟩ }
          handles := s.handles ++ [⟨id, s.nextHandle⟩]
          nextHandle := s.nextHandle + 1
          tasks := s.tasks ++ [(⟨id, .handshake ⟨id, s.nextHandle⟩⟩ : Task)] } :=
      ⟨fun j ne => by simp [Store.view, Dict.get?_set, ne, ne.symm], rfl, rfl, rfl⟩
    exact made.trans frame_patch

/-- The socket is there. -/
lemma frame_resolved {term : Handle} {now : Int} : Frame id s (s.resolved id term now) := by
  unfold Store.resolved
  split
  next => exact ⟨fun _ _ => rfl, rfl, rfl, rfl⟩
  next rt _ =>
    have held : Frame id s
        { s with
          runtimes := s.runtimes.set id { rt with socket := some ⟨id, s.nextSocket, term⟩, lastActivityAt := now }
          openSockets := s.openSockets ++ [⟨id, s.nextSocket, term⟩]
          nextSocket := s.nextSocket + 1 } :=
      ⟨fun j ne => by simp [Store.view, Dict.get?_set, ne, ne.symm], rfl, rfl, rfl⟩
    exact held.trans frame_patch

/-- Closing a socket. -/
lemma frame_closeSocket {k : Option Socket} (sockets : ∀ k', k = some k' → k'.owner = id) :
    Frame id s (s.closeSocket k) := by
  refine ⟨fun _ ne => view_closeSocket_ne sockets ne, ?_, ?_, ?_⟩ <;> cases k <;> rfl

/-- Tearing a runtime down. -/
lemma frame_teardown {rt : Runtime} (sockets : ∀ k, rt.socket = some k → k.owner = id)
    (handles : ∀ h, rt.handle = some h → h.owner = id) : Frame id s (s.teardownRuntime rt) := by
  refine ⟨fun _ ne => view_teardown_ne sockets handles ne, ?_, ?_, ?_⟩ <;>
    cases hs : rt.socket <;> cases hh : rt.handle <;> simp [Store.teardownRuntime, Store.closeSocket, Store.dispose, hs, hh]

/-- What a session's runtime holds is its own. -/
lemma Shape.owned {v : View} (h : Shape id v) {rt : Runtime} (e : v.runtime = some rt) :
    (∀ k, rt.socket = some k → k.owner = id) ∧ ∀ h, rt.handle = some h → h.owner = id := by
  cases h with
  | gone => simp at e
  | loading m rt' tasks status handle socket waits =>
    cases e
    simp [handle, socket]
  | handshake m rt' term status handle socket owner =>
    cases e
    simp [handle, socket, owner]
  | live m rt' k status handle socket owner owner' =>
    cases e
    simp [handle, socket, owner, owner']
  | finished m rt' status sockets handles =>
    cases e
    exact ⟨sockets, handles⟩

/-- Reconnecting. -/
lemma frame_reconnect {now : Int} (shape : Shape id (s.view id)) : Frame id s (s.reconnect id now) := by
  unfold Store.reconnect
  split
  next rt m hr hm =>
    split
    next => exact .refl
    next =>
      have own := shape.owned hr
      have closed : Frame id s (s.closeSocket rt.socket) := frame_closeSocket own.1
      refine closed.trans (.trans ?_ frame_connect)
      refine ⟨fun j ne => ?_, rfl, rfl, ?_⟩
      · simp [Store.view, Dict.get?_set, ne]
      · have key : id ∈ (s.closeSocket rt.socket).sessions.keys := by
          rw [closed.keys]
          exact Dict.mem_keys.2 ⟨m, hm⟩
        rw [Dict.keys_set, if_pos key]
  next => exact .refl

/-- Reaping. -/
lemma frame_reap {now : Int} (shape : Shape id (s.view id)) : Frame id s (s.reap now id) := by
  unfold Store.reap
  split
  next rt m hr hm =>
    split
    next => exact .refl
    next =>
      split
      next => exact .refl
      next =>
        split
        next => exact .refl
        next =>
          have own := shape.owned hr
          exact ((frame_teardown own.1 own.2).trans frame_runtime).trans frame_patch
  next => exact .refl

/-! ### What a step does to its session -/

/-- What becomes of one session: it is in a state again, and what is gone waits for no more. -/
def Becomes (id : Nat) (v w : View) : Prop := Shape id w ∧ (v.session = none → w.waiting.length ≤ v.waiting.length)

/-- The patched session. -/
lemma view_patch_self {change : SessionMeta → SessionMeta} :
    (s.patch id change).view id = { s.view id with session := (s.view id).session.map change } := by
  rw [view_patch, if_pos rfl]
  rfl

/-- The changed runtime. -/
lemma view_changeRuntime_self {change : Runtime → Runtime} :
    (s.changeRuntime id change).view id = { s.view id with runtime := (s.view id).runtime.map change } := by
  unfold Store.changeRuntime
  split
  next h => simp [Store.view, h]
  next rt h => simp [Store.view, Dict.get?_set, h]

/-- What is neither is over. -/
lemma Status.ended {status : Status} (h : status ≠ .connecting) (h' : status ≠ .connected) :
    status = .exited ∨ status = .error := by
  cases status with
  | connecting => contradiction
  | connected => contradiction
  | exited => exact .inl rfl
  | error => exact .inr rfl

/-- A change that ends at most what is connected, as the events of a socket do. -/
lemma becomes_patch {v : View} {change : SessionMeta → SessionMeta} (shape : Shape id v)
    (quiet : ∀ m, (change m).status = m.status ∨ m.status = .connected ∧ (change m).status ≠ .connecting) :
    Becomes id v { v with session := v.session.map change } := by
  have same : ∀ m, m.status ≠ .connected → (change m).status = m.status := by
    intro m h
    rcases quiet m with e | e
    · exact e
    · exact absurd e.1 h
  refine ⟨?_, fun _ => Nat.le_refl _⟩
  cases shape with
  | gone tasks few => exact .gone tasks few
  | loading m rt tasks status handle socket waits =>
    exact .loading _ rt tasks ((same m (by simp [status])).trans status) handle socket waits
  | handshake m rt term status handle socket owner =>
    exact .handshake _ rt term ((same m (by simp [status])).trans status) handle socket owner
  | live m rt k status handle socket owner owner' =>
    refine .live _ rt k ?_ handle socket owner owner'
    rcases quiet m with e | e
    · exact e ▸ status
    · exact e.2
  | finished m rt status sockets handles =>
    have ne : m.status ≠ .connected := by rcases status with e | e <;> simp [e]
    exact .finished _ rt (same m ne ▸ status) sockets handles

/-- The socket fails. -/
lemma becomes_onError {v : Store} (shape : Shape id (v.view id)) : Becomes id (v.view id) ((v.onError id).view id) := by
  rw [Store.onError, view_patch_self]
  refine becomes_patch shape fun m => ?_
  split
  next h => exact .inr ⟨h, by simp⟩
  next => exact .inl rfl

/-- The socket closes. -/
lemma becomes_onClose {v : Store} (shape : Shape id (v.view id)) : Becomes id (v.view id) ((v.onClose id).view id) := by
  rw [Store.onClose, view_patch_self]
  refine becomes_patch shape fun m => ?_
  split
  next h => exact .inr ⟨h, by simp⟩
  next => exact .inl rfl

/-- A socket that is open is the one of its session. -/
lemma Shape.open_socket {v : View} {k : Socket} (shape : Shape id v) (h : k ∈ v.sockets) :
    ∃ m rt, v = ⟨some m, some rt, [], [k], [k.term]⟩ ∧ m.status ≠ .connecting ∧ rt.handle = some k.term ∧
      rt.socket = some k ∧ k.owner = id ∧ k.term.owner = id := by
  cases shape with
  | gone => simp at h
  | loading => simp at h
  | handshake => simp at h
  | live m rt k' status handle socket owner owner' =>
    rw [List.mem_singleton.1 h]
    exact ⟨m, rt, rfl, status, handle, socket, owner, owner'⟩
  | finished => simp at h

/-- The process ends. -/
lemma becomes_onExit {k : Socket} (shape : Shape k.owner (s.view k.owner)) (h : k ∈ s.openSockets) :
    Becomes k.owner (s.view k.owner) ((s.onExit k.owner).view k.owner) := by
  have here : k ∈ (s.view k.owner).sockets := by simp [Store.view, h]
  obtain ⟨m, rt, e, status, handle, socket, owner, owner'⟩ := shape.open_socket here
  rw [Store.onExit, view_patch_self, e]
  exact ⟨.live _ rt k (by simp) handle socket owner owner', by simp⟩

/-- The server ends a socket. -/
lemma becomes_ended {k : Socket} (shape : Shape k.owner (s.view k.owner)) (h : k ∈ s.openSockets) :
    Becomes k.owner (s.view k.owner)
      ((({ s with openSockets := s.openSockets.filter (· ≠ k) } : Store).onClose k.owner).view k.owner) := by
  have here : k ∈ (s.view k.owner).sockets := by simp [Store.view, h]
  obtain ⟨m, rt, e, status, handle, socket, owner, owner'⟩ := shape.open_socket here
  have v : ({ s with openSockets := s.openSockets.filter (· ≠ k) } : Store).view k.owner =
      ⟨some m, some rt, [], [], rt.handle.toList⟩ := by
    have closed : ({ s with openSockets := s.openSockets.filter (· ≠ k) } : Store).view k.owner =
        (s.closeSocket (some k)).view k.owner := rfl
    rw [closed, view_closeSocket, e, handle]
    simp
  rw [Store.onClose, view_patch_self, v]
  refine ⟨?_, by simp⟩
  refine .finished _ rt ?_ (fun k' h' => ?_) (fun h' e' => ?_)
  · dsimp only
    split
    next => exact .inl rfl
    next ne => exact Status.ended status ne
  · cases socket.symm.trans h'
    exact owner
  · cases handle.symm.trans e'
    exact owner'

/-- A change of flags. -/
lemma becomes_changeRuntime {change : Runtime → Runtime} (shape : Shape id (s.view id))
    (handle : ∀ rt, (change rt).handle = rt.handle) (socket : ∀ rt, (change rt).socket = rt.socket) :
    Becomes id (s.view id) ((s.changeRuntime id change).view id) := by
  rw [view_changeRuntime_self]
  refine ⟨?_, fun _ => Nat.le_refl _⟩
  generalize s.view id = v at shape
  cases shape with
  | gone tasks few => exact .gone tasks few
  | loading m rt tasks status h k waits =>
    exact .loading m _ tasks status ((handle rt).trans h) ((socket rt).trans k) waits
  | handshake m rt term status h k owner =>
    exact .handshake m _ term status ((handle rt).trans h) ((socket rt).trans k) owner
  | live m rt k status h h' owner owner' =>
    exact .live m _ k status ((handle rt).trans h) ((socket rt).trans h') owner owner'
  | finished m rt status sockets handles =>
    have finished := Shape.finished m (change rt) status (by rwa [socket]) (by rwa [handle])
    rwa [handle] at finished

/-- A waiting task is the only one of its session. -/
lemma Shape.single {v : View} {p : Phase} (shape : Shape id v) (h : p ∈ v.waiting) : v.waiting = [p] := by
  cases shape with
  | gone tasks few =>
    cases tasks with
    | nil => simp at h
    | cons q qs =>
      have none : qs = [] := by simpa using few
      subst none
      rw [List.mem_singleton.1 h]
  | loading m rt tasks status handle socket waits =>
    rcases waits with e | e
    · simp [e] at h
    · subst e
      rw [List.mem_singleton.1 h]
  | handshake => rw [List.mem_singleton.1 h]
  | live => simp at h
  | finished => simp at h

/-- While the renderer loads. -/
lemma Shape.at_loading {v : View} (shape : Shape id v) (h : .loading ∈ v.waiting) :
    v = ⟨none, none, [.loading], [], []⟩ ∨
      ∃ m rt, v = ⟨some m, some rt, [.loading], [], []⟩ ∧ m.status = .connecting ∧ rt.handle = none ∧
        rt.socket = none := by
  have one := shape.single h
  cases shape with
  | gone => exact .inl (by simpa using one)
  | loading m rt tasks status handle socket waits => exact .inr ⟨m, rt, by simpa using one, status, handle, socket⟩
  | handshake => simp at one
  | live => simp at one
  | finished => simp at one

/-- While the socket opens. -/
lemma Shape.at_handshake {v : View} {term : Handle} (shape : Shape id v) (h : .handshake term ∈ v.waiting) :
    v = ⟨none, none, [.handshake term], [], []⟩ ∨
      ∃ m rt, v = ⟨some m, some rt, [.handshake term], [], [term]⟩ ∧ m.status = .connecting ∧
        rt.handle = some term ∧ rt.socket = none ∧ term.owner = id := by
  have one := shape.single h
  cases shape with
  | gone => exact .inl (by simpa using one)
  | loading m rt tasks status handle socket waits =>
    rcases waits with e | e
    · simp [e] at h
    · simp [e] at h
  | handshake m rt term' status handle socket owner =>
    have e : term' = term := by simpa using one
    subst e
    exact .inr ⟨m, rt, rfl, status, handle, socket, owner⟩
  | live => simp at one
  | finished => simp at one

/-- At most one task waits. -/
lemma Shape.few {v : View} (shape : Shape id v) : v.waiting.length ≤ 1 := by
  cases h : v.waiting with
  | nil => simp
  | cons p ps =>
    have one := shape.single (p := p) (by simp [h])
    rw [← h, one]
    simp

/-- The view without the task that goes on. -/
lemma view_drop {before after : List Task} {p : Phase} (shape : Shape id (s.view id))
    (waits : s.tasks = before ++ ⟨id, p⟩ :: after) :
    p ∈ (s.view id).waiting ∧ ({ s with tasks := before ++ after } : Store).view id = { s.view id with waiting := [] } := by
  have here : p ∈ (s.view id).waiting := by simp [Store.view, waits]
  have one : waiting before id ++ p :: waiting after id = [p] := by
    simpa [Store.view, waits] using shape.single here
  have none : waiting before id = [] ∧ waiting after id = [] := by
    cases hb : waiting before id with
    | nil => simpa [hb] using one
    | cons q qs => simp [hb] at one
  refine ⟨here, ?_⟩
  simp [Store.view, none.1, none.2]

/-- The renderer does not load. -/
lemma becomes_loadFails {before after : List Task} (shape : Shape id (s.view id))
    (waits : s.tasks = before ++ ⟨id, .loading⟩ :: after) :
    Becomes id (s.view id) (({ s with tasks := before ++ after } : Store).view id) := by
  obtain ⟨here, e⟩ := view_drop shape waits
  rw [e]
  rcases shape.at_loading here with v | ⟨m, rt, v, status, handle, socket⟩
  · rw [v]
    exact ⟨.gone [] (by simp), by simp⟩
  · rw [v]
    exact ⟨.loading m rt [] status handle socket (.inl rfl), by simp⟩

/-- The handshake fails. -/
lemma becomes_rejected {before after : List Task} {term : Handle} {message : List Char} {q : Store}
    (shape : Shape id (s.view id)) (waits : s.tasks = before ++ ⟨id, .handshake term⟩ :: after)
    (h : q.view id = ({ s with tasks := before ++ after } : Store).view id) :
    Becomes id (s.view id) ((q.rejected id message).view id) := by
  obtain ⟨here, e⟩ := view_drop shape waits
  rw [Store.rejected, view_patch_self, h, e]
  rcases shape.at_handshake here with v | ⟨m, rt, v, status, handle, socket, owner⟩
  · rw [v]
    exact ⟨.gone [] (by simp), by simp⟩
  · rw [v]
    have finished := @Shape.finished id { m with status := .error, errorMsg := some message } rt (.inr rfl)
      (by simp [socket]) (by simp [handle, owner])
    rw [handle] at finished
    exact ⟨finished, by simp⟩

/-- The renderer loads. -/
lemma becomes_loaded {before after : List Task} (shape : Shape id (s.view id))
    (waits : s.tasks = before ++ ⟨id, .loading⟩ :: after) :
    Becomes id (s.view id) ((({ s with tasks := before ++ after } : Store).loaded id).view id) := by
  obtain ⟨here, e⟩ := view_drop shape waits
  generalize hd : ({ s with tasks := before ++ after } : Store) = d at e ⊢
  rcases shape.at_loading here with v | ⟨m, rt, v, status, handle, socket⟩
  · rw [v] at e ⊢
    have hr : d.runtimes.get? id = none := congrArg View.runtime e
    rw [Store.loaded, hr, e]
    exact ⟨.gone [] (by simp), by simp⟩
  · rw [v] at e ⊢
    simp only [Store.view, View.mk.injEq] at e
    obtain ⟨hm, hr, ht, hs, hh⟩ := e
    rw [Store.loaded, hr]
    dsimp only
    rw [view_patch_self]
    refine ⟨?_, by simp⟩
    simp only [Store.view, hm, Dict.get?_set, if_true, waiting_append, ht, waiting_cons, waiting_nil, hs,
      List.filter_append, hh, List.nil_append, Option.map_some, List.filter_cons, decide_true, List.filter_nil]
    exact .handshake _ _ _ status rfl socket rfl

/-- The socket opens. -/
lemma becomes_resolved {before after : List Task} {term : Handle} {now : Int} (shape : Shape id (s.view id))
    (waits : s.tasks = before ++ ⟨id, .handshake term⟩ :: after) :
    Becomes id (s.view id) ((({ s with tasks := before ++ after } : Store).resolved id term now).view id) := by
  obtain ⟨here, e⟩ := view_drop shape waits
  generalize hd : ({ s with tasks := before ++ after } : Store) = d at e ⊢
  rcases shape.at_handshake here with v | ⟨m, rt, v, status, handle, socket, owner⟩
  · rw [v] at e ⊢
    have hr : d.runtimes.get? id = none := congrArg View.runtime e
    rw [Store.resolved, hr]
    have same : ({ d with closing := d.closing ++ [⟨id, d.nextSocket, term⟩], nextSocket := d.nextSocket + 1 } :
        Store).view id = d.view id := rfl
    rw [same, e]
    exact ⟨.gone [] (by simp), by simp⟩
  · rw [v] at e ⊢
    simp only [Store.view, View.mk.injEq] at e
    obtain ⟨hm, hr, ht, hs, hh⟩ := e
    rw [Store.resolved, hr]
    dsimp only
    rw [view_patch_self]
    refine ⟨?_, by simp⟩
    simp only [Store.view, hm, Dict.get?_set, if_true, ht, hs, List.filter_append, hh, List.nil_append,
      Option.map_some, List.filter_cons, decide_true, List.filter_nil]
    exact .live _ _ ⟨id, d.nextSocket, term⟩ (by simp) handle rfl rfl owner

/-- Nothing changes. -/
lemma Becomes.refl {v : View} (shape : Shape id v) : Becomes id v v := ⟨shape, fun _ => Nat.le_refl _⟩

/-- Nothing is open but what the runtime holds. -/
lemma Shape.torn {v : View} {rt : Runtime} (shape : Shape id v) (hr : v.runtime = some rt) :
    v.sockets.filter (fun k => rt.socket ≠ some k) = [] ∧ v.handles.filter (fun h => rt.handle ≠ some h) = [] := by
  cases shape with
  | gone => simp at hr
  | loading => simp
  | handshake m rt' term status handle socket owner =>
    cases hr
    simp [handle]
  | live m rt' k status handle socket owner owner' =>
    cases hr
    simp [handle, socket]
  | finished m rt' status sockets handles =>
    cases hr
    cases rt.handle <;> simp

/-- A session that is not connecting waits for nothing, and its renderer is the runtime's. -/
lemma Shape.at_end {v : View} {m : SessionMeta} {rt : Runtime} (shape : Shape id v) (hm : v.session = some m)
    (hr : v.runtime = some rt) (status : m.status ≠ .connecting) : v.waiting = [] ∧ v.handles = rt.handle.toList := by
  cases shape with
  | gone => simp at hm
  | loading m' rt' tasks status' handle socket waits =>
    cases hm
    contradiction
  | handshake m' rt' term status' handle socket owner =>
    cases hm
    contradiction
  | live m' rt' k status' handle socket owner owner' =>
    cases hr
    simp [handle]
  | finished m' rt' status' sockets handles =>
    cases hr
    simp

/-- The session after a teardown. -/
lemma view_teardown {rt : Runtime} (shape : Shape id (s.view id)) (hr : s.runtimes.get? id = some rt) :
    (s.teardownRuntime rt).view id = { s.view id with sockets := [], handles := [] } := by
  rw [Store.teardownRuntime, view_dispose, view_closeSocket]
  rw [(shape.torn hr).1]
  dsimp only
  rw [(shape.torn hr).2]

/-- A reconnect. -/
lemma becomes_reconnect {now : Int} (shape : Shape id (s.view id)) :
    Becomes id (s.view id) ((s.reconnect id now).view id) := by
  unfold Store.reconnect
  split
  next rt m hr hm =>
    split
    next => exact .refl shape
    next ne =>
      obtain ⟨waits, handles⟩ := shape.at_end hm hr fun e => ne (.inr e)
      have v : (s.closeSocket rt.socket).view id = { s.view id with sockets := [] } := by
        rw [view_closeSocket, (shape.torn hr).1]
      generalize s.closeSocket rt.socket = d at v ⊢
      simp only [Store.view, View.mk.injEq] at v
      obtain ⟨dm, dr, dt, ds, dh⟩ := v
      -- The renderer is kept, and with it there is nothing to load.
      have kept {r : Dict Nat Runtime} : (r.set id { rt with socket := none, lastActivityAt := now }).get? id =
          some { rt with socket := none, lastActivityAt := now } := by simp [Dict.get?_set]
      rw [view_connect kept]
      refine ⟨?_, fun none => by simp [Store.view, hm] at none⟩
      have wt : waiting d.tasks id = [] := dt.trans waits
      have hh : d.handles.filter (·.owner = id) = rt.handle.toList := dh.trans handles
      simp only [Store.view, Dict.get?_set, if_true, wt, ds, hh, List.nil_append]
      cases h : rt.handle with
      | none => exact .loading _ _ _ rfl rfl rfl (.inr rfl)
      | some term => exact .handshake _ _ term rfl rfl rfl ((shape.owned hr).2 term h)
  next => exact .refl shape

/-- Whether `reapIdle` ends a session. -/
def Idle (now : Int) (v : View) : Prop :=
  ∃ m rt, v.session = some m ∧ v.runtime = some rt ∧ m.status = .connected ∧ ¬rt.attached ∧
    terminalIdleCloseMs < now - rt.lastActivityAt

/-- An ended session. -/
def Reaped (v w : View) : Prop :=
  w.session = v.session.map (fun m => { m with status := .exited, closedReason := some .idle }) ∧ w.sockets = [] ∧
    w.handles = []

/-- What is not idle stays. -/
lemma reap_of_not_idle {now : Int} (h : ¬Idle now (s.view id)) : s.reap now id = s := by
  unfold Store.reap
  split
  next rt m hr hm =>
    split
    next => rfl
    next status =>
      split
      next => rfl
      next att =>
        split
        next => rfl
        next idle => exact absurd ⟨m, rt, hm, hr, Decidable.not_not.1 status, att, Int.not_le.1 idle⟩ h
  next => rfl

/-- What is idle goes. -/
lemma view_reap {now : Int} (shape : Shape id (s.view id)) (h : Idle now (s.view id)) :
    Becomes id (s.view id) ((s.reap now id).view id) ∧ Reaped (s.view id) ((s.reap now id).view id) := by
  obtain ⟨m, rt, hm, hr, status, att, idle⟩ := h
  have sm : s.sessions.get? id = some m := hm
  have sr : s.runtimes.get? id = some rt := hr
  obtain ⟨waits, -⟩ := shape.at_end hm hr (by simp [status])
  have v := view_teardown shape sr
  rw [Store.reap, sr, sm]
  dsimp only
  rw [if_neg (by simpa using status), if_neg att, if_neg (Int.not_le.2 idle), view_patch_self]
  generalize s.teardownRuntime rt = d at v ⊢
  simp only [Store.view, View.mk.injEq] at v
  obtain ⟨dm, dr, dt, ds, dh⟩ := v
  have wt : waiting d.tasks id = [] := dt.trans waits
  simp only [Store.view, Dict.get?_set, if_true, dm, sm, wt, ds, dh]
  refine ⟨⟨?_, by simp⟩, by simp [Reaped]⟩
  exact .finished _ { rt with socket := none, handle := none } (.inl rfl) (by simp) (by simp)

/-- A reap. -/
lemma becomes_reap {now : Int} (shape : Shape id (s.view id)) : Becomes id (s.view id) ((s.reap now id).view id) := by
  rcases Classical.em (Idle now (s.view id)) with h | h
  · exact (view_reap shape h).1
  · rw [reap_of_not_idle h]
    exact .refl shape

/-- A refused socket's events change nothing but what `rejected` changes. -/
lemma view_quiet {before after : List Task} {term : Handle} (shape : Shape id (s.view id))
    (waits : s.tasks = before ++ ⟨id, .handshake term⟩ :: after) :
    ((({ s with tasks := before ++ after } : Store).onError id).onClose id).view id =
      ({ s with tasks := before ++ after } : Store).view id := by
  obtain ⟨here, e⟩ := view_drop shape waits
  rw [Store.onClose, view_patch_self, Store.onError, view_patch_self, e]
  rcases shape.at_handshake here with v | ⟨m, rt, v, status, -⟩
  · rw [v]
    rfl
  · have ne : m.status ≠ .connected := by simp [status]
    rw [v]
    simp only [Option.map_some, if_neg ne]

/-! ### The store as a whole -/

structure Inv (s : Store) : Prop where
  shape : ∀ id, Shape id (s.view id)
  fresh : ∀ id, s.nextOrder < id → s.sessions.get? id = none ∧ waiting s.tasks id = []
  reaper : s.reaper = true ↔ s.sessions.keys ≠ []

/-- Equal keys, equal gaps. -/
lemma get?_eq_none_of_keys {α β : Type} {d : Dict Nat α} {e : Dict Nat β} (h : e.keys = d.keys) :
    e.get? id = none ↔ d.get? id = none := by
  rw [Dict.get?_eq_none, Dict.get?_eq_none, h]

/-- The empty store. -/
lemma Inv.empty : Inv .empty where
  shape _ := .gone [] (by simp)
  fresh _ _ := ⟨rfl, rfl⟩
  reaper := by simp [Store.empty, Dict.empty, Dict.keys]

/-- A step of one session. -/
lemma Inv.step (inv : Inv s) (f : Frame id s t) (b : Becomes id (s.view id) (t.view id)) : Inv t where
  shape j := by
    rcases Decidable.em (j = id) with rfl | ne
    · exact b.1
    · exact f.other j ne ▸ inv.shape j
  fresh j h := by
    obtain ⟨none, waits⟩ := inv.fresh j (f.order ▸ h)
    refine ⟨(get?_eq_none_of_keys f.keys).2 none, ?_⟩
    rcases Decidable.em (j = id) with rfl | ne
    · have le := b.2 none
      simpa [Store.view, waits] using le
    · exact (congrArg View.waiting (f.other j ne)).trans waits
  reaper := by rw [f.reaper, f.keys, inv.reaper]

/-- No id is given again. -/
lemma Inv.new (inv : Inv s) : s.view (s.nextOrder + 1) = ⟨none, none, [], [], []⟩ := by
  obtain ⟨none, waits⟩ := inv.fresh (s.nextOrder + 1) (Nat.lt_succ_self _)
  have shape := inv.shape (s.nextOrder + 1)
  generalize hv : s.view (s.nextOrder + 1) = v at shape ⊢
  have hs : v.session = Option.none := hv ▸ none
  have hw : v.waiting = [] := hv ▸ waits
  cases shape with
  | gone tasks few => rw [show tasks = [] from hw]
  | loading => cases hs
  | handshake => cases hs
  | live => cases hs
  | finished => cases hs

/-- What `open` and `close` do to the others. -/
structure Around (id : Nat) (s t : Store) : Prop where
  other : ∀ j, j ≠ id → t.view j = s.view j
  order : s.nextOrder ≤ t.nextOrder
  shape : Shape id (t.view id)
  fresh : t.nextOrder < id → s.nextOrder < id ∧ ((t.view id).session = none ∧ (t.view id).waiting = (s.view id).waiting)
  reaper : t.reaper = true ↔ t.sessions.keys ≠ []

/-- A step that opens a session. -/
lemma Inv.around (inv : Inv s) (a : Around id s t) : Inv t where
  shape j := by
    rcases Decidable.em (j = id) with rfl | ne
    · exact a.shape
    · exact a.other j ne ▸ inv.shape j
  fresh j h := by
    rcases Decidable.em (j = id) with rfl | ne
    · obtain ⟨lt, none, waits⟩ := a.fresh h
      exact ⟨none, waits.trans (inv.fresh j lt).2⟩
    · have v := a.other j ne
      obtain ⟨none, waits⟩ := inv.fresh j (Nat.lt_of_le_of_lt a.order h)
      exact ⟨(congrArg View.session v).trans none, (congrArg View.waiting v).trans waits⟩
  reaper := a.reaper

/-- Opening a session. -/
lemma Inv.open_ {now : Int} (inv : Inv s) : Around (s.nextOrder + 1) s (s.open_ now) := by
  have v := inv.new
  simp only [Store.view, View.mk.injEq] at v
  obtain ⟨hm, hr, ht, hs, hh⟩ := v
  unfold Store.open_
  dsimp only
  generalize ho : ({ s with
    nextOrder := s.nextOrder + 1
    runtimes := s.runtimes.set (s.nextOrder + 1) ⟨none, none, now, false⟩
    sessions := s.sessions.set (s.nextOrder + 1) ⟨.connecting, none, none, false⟩
    reaper := true } : Store) = o
  have runtime : o.runtimes.get? (s.nextOrder + 1) = some ⟨none, none, now, false⟩ := by simp [← ho, Dict.get?_set]
  have conn : Frame (s.nextOrder + 1) o (o.connect (s.nextOrder + 1)) := frame_connect
  refine ⟨fun j ne => ?_, ?_, ?_, fun lt => ?_, ?_⟩
  · rw [conn.other j ne]
    simp [← ho, Store.view, Dict.get?_set, ne]
  · rw [conn.order, ← ho]
    exact Nat.le_succ _
  · rw [view_connect runtime]
    have e : o.view (s.nextOrder + 1) =
        ⟨some ⟨.connecting, none, none, false⟩, some ⟨none, none, now, false⟩, [], [], []⟩ := by
      simp [← ho, Store.view, Dict.get?_set, ht, hs, hh]
    rw [e]
    exact .loading _ _ _ rfl rfl rfl (.inr (by simp))
  · rw [conn.order, ← ho] at lt
    exact absurd lt (Nat.lt_irrefl _)
  · rw [conn.reaper, conn.keys, ← ho]
    have key : s.nextOrder + 1 ∈ (s.sessions.set (s.nextOrder + 1) ⟨.connecting, none, none, false⟩).keys :=
      Dict.mem_keys.2 ⟨_, by rw [Dict.get?_set, if_pos rfl]⟩
    simpa using List.ne_nil_of_mem key

/-- Closing, after the runtime is torn down. -/
lemma Inv.close (inv : Inv s) : Around id s (s.close id) := by
  have torn : ∃ d, s.close id =
      { d with
        runtimes := d.runtimes.erase id
        sessions := d.sessions.erase id
        reaper := if (d.sessions.erase id).keys = [] then false else d.reaper } ∧
      Frame id s d ∧ ((d.view id).sockets = [] ∧ (d.view id).handles = []) ∧ (d.view id).waiting = (s.view id).waiting := by
    unfold Store.close
    cases hr : s.runtimes.get? id with
    | none =>
      refine ⟨s, rfl, .refl, ?_, rfl⟩
      have shape := inv.shape id
      generalize hv : s.view id = v at shape ⊢
      have none : v.runtime = none := hv ▸ hr
      cases shape with
      | gone => exact ⟨rfl, rfl⟩
      | loading => cases none
      | handshake => cases none
      | live => cases none
      | finished => cases none
    | some rt =>
      have own := (inv.shape id).owned hr
      refine ⟨s.teardownRuntime rt, rfl, frame_teardown own.1 own.2, ?_⟩
      rw [view_teardown (inv.shape id) hr]
      exact ⟨⟨rfl, rfl⟩, rfl⟩
  obtain ⟨d, e, f, ⟨hs, hh⟩, ht⟩ := torn
  rw [e]
  have here : ({ d with
      runtimes := d.runtimes.erase id
      sessions := d.sessions.erase id
      reaper := if (d.sessions.erase id).keys = [] then false else d.reaper } : Store).view id =
      ⟨none, none, (s.view id).waiting, [], []⟩ := by
    rw [← ht, ← hs, ← hh]
    simp [Store.view, Dict.get?_erase]
  refine ⟨fun j ne => ?_, Nat.le_of_eq f.order.symm, ?_, fun lt => ?_, ?_⟩
  · rw [← f.other j ne]
    simp [Store.view, Dict.get?_erase, ne]
  · rw [here]
    exact .gone _ (inv.shape id).few
  · rw [here]
    exact ⟨f.order ▸ lt, rfl, rfl⟩
  · dsimp only
    split
    next none => simp [none]
    next some =>
      obtain ⟨j, hj⟩ := List.exists_mem_of_ne_nil _ some
      have key : j ∈ d.sessions.keys := by
        obtain ⟨m, hm⟩ := Dict.mem_keys.1 hj
        rw [Dict.get?_erase] at hm
        split at hm
        next => cases hm
        next => exact Dict.mem_keys.2 ⟨m, hm⟩
      rw [f.reaper, inv.reaper, ← f.keys]
      exact iff_of_true (List.ne_nil_of_mem key) some

/-- Reaping one session. -/
lemma Inv.reap (inv : Inv s) (now : Int) (id : Nat) : Frame id s (s.reap now id) ∧ Inv (s.reap now id) :=
  ⟨frame_reap (inv.shape id), inv.step (frame_reap (inv.shape id)) (becomes_reap (inv.shape id))⟩

/-- Reaping all. -/
lemma Inv.reapAll (inv : Inv s) (now : Int) (ids : List Nat) :
    Inv (ids.foldl (fun s id => s.reap now id) s) ∧
      (ids.foldl (fun s id => s.reap now id) s).nextOrder = s.nextOrder ∧
      (ids.foldl (fun s id => s.reap now id) s).sessions.keys = s.sessions.keys := by
  induction ids generalizing s with
  | nil => exact ⟨inv, rfl, rfl⟩
  | cons id ids ih =>
    obtain ⟨f, next⟩ := inv.reap now id
    obtain ⟨inv', order, keys⟩ := ih next
    exact ⟨inv', order.trans f.order, keys.trans f.keys⟩

/-- The others stay. -/
lemma reapAll_other {now : Int} {ids : List Nat} (inv : Inv s) (h : j ∉ ids) :
    (ids.foldl (fun s id => s.reap now id) s).view j = s.view j := by
  induction ids generalizing s with
  | nil => rfl
  | cons id ids ih =>
    obtain ⟨f, next⟩ := inv.reap now id
    rw [List.mem_cons, not_or] at h
    exact (ih next h.2).trans (f.other j h.1)

/-- A round of the reaper ends what is idle and changes nothing else. -/
lemma reapAll_view {now : Int} {ids : List Nat} (inv : Inv s) (distinct : ids.Nodup) (h : j ∈ ids) :
    (Idle now (s.view j) → Reaped (s.view j) ((ids.foldl (fun s id => s.reap now id) s).view j)) ∧
      (¬Idle now (s.view j) → (ids.foldl (fun s id => s.reap now id) s).view j = s.view j) := by
  induction ids generalizing s with
  | nil => simp at h
  | cons id ids ih =>
    obtain ⟨f, next⟩ := inv.reap now id
    obtain ⟨new, distinct⟩ := List.nodup_cons.1 distinct
    rw [List.foldl_cons]
    rcases Decidable.em (j = id) with rfl | ne
    · rw [reapAll_other next new]
      refine ⟨fun idle => (view_reap (inv.shape j) idle).2, fun idle => ?_⟩
      rw [reap_of_not_idle idle]
    · have spec := ih next distinct ((List.mem_cons.1 h).resolve_left ne)
      rwa [f.other j ne] at spec

/-- The steps but for the reaper's. -/
lemma Inv.moves {a : Action} (inv : Inv s) (st : Step s a t) :
    (∃ id, Frame id s t ∧ Becomes id (s.view id) (t.view id)) ∨
      (∃ id, Around id s t ∧ (s.nextOrder < id ∨ t.sessions.get? id = none)) ∨ ∃ now, t = s.reapIdle now := by
  cases st with
  | open_ now => exact .inr (.inl ⟨_, inv.open_, .inl (Nat.lt_succ_self _)⟩)
  | reconnect id now => exact .inl ⟨id, frame_reconnect (inv.shape id), becomes_reconnect (inv.shape id)⟩
  | close id =>
    have gone : (s.close id).sessions.get? id = none := by simp [Store.close, Dict.get?_erase]
    exact .inr (.inl ⟨id, inv.close, .inr gone⟩)
  | sendInput id now =>
    refine .inl ⟨id, frame_changeRuntime, becomes_changeRuntime (inv.shape id) (fun rt => ?_) fun rt => ?_⟩
    · split <;> rfl
    · split <;> rfl
  | setAttached id attached now =>
    exact .inl ⟨id, frame_changeRuntime, becomes_changeRuntime (inv.shape id) (fun _ => rfl) fun _ => rfl⟩
  | noteActivity id now =>
    exact .inl ⟨id, frame_changeRuntime, becomes_changeRuntime (inv.shape id) (fun _ => rfl) fun _ => rfl⟩
  | reapIdle now => exact .inr (.inr ⟨now, rfl⟩)
  | loaded id before after waits =>
    exact .inl ⟨id, (frame_drop waits).trans frame_loaded, becomes_loaded (inv.shape id) waits⟩
  | loadFails id before after waits => exact .inl ⟨id, frame_drop waits, becomes_loadFails (inv.shape id) waits⟩
  | resolved id term now before after waits =>
    exact .inl ⟨id, (frame_drop waits).trans frame_resolved, becomes_resolved (inv.shape id) waits⟩
  | rejected id term message before after waits =>
    exact .inl ⟨id, (frame_drop waits).trans frame_patch, becomes_rejected (inv.shape id) waits rfl⟩
  -- The events of the socket come before its promise is rejected.
  | refused id term message before after waits =>
    refine .inl ⟨id, (((frame_drop waits).trans frame_patch).trans frame_patch).trans frame_patch,
      becomes_rejected (inv.shape id) waits ?_⟩
    exact view_quiet (inv.shape id) waits
  | exitFrame k here => exact .inl ⟨k.owner, frame_patch, becomes_onExit (inv.shape k.owner) here⟩
  | errorEvent k here => exact .inl ⟨k.owner, frame_patch, becomes_onError (inv.shape k.owner)⟩
  | ended k here =>
    have closed : Frame k.owner s { s with openSockets := s.openSockets.filter (· ≠ k) } := by
      refine ⟨fun j ne => ?_, rfl, rfl, rfl⟩
      exact view_closeSocket_ne (k := some k) (by simp) ne
    exact .inl ⟨k.owner, closed.trans frame_patch, becomes_ended (inv.shape k.owner) here⟩
  | closed k before after here =>
    have dropped : Frame k.owner s { s with closing := before ++ after } := ⟨fun _ _ => rfl, rfl, rfl, rfl⟩
    exact .inl ⟨k.owner, dropped.trans frame_patch,
      becomes_onClose (v := { s with closing := before ++ after }) (inv.shape k.owner)⟩

/-- Any step. -/
lemma Inv.next {a : Action} (inv : Inv s) (st : Step s a t) : Inv t := by
  rcases inv.moves st with ⟨id, f, b⟩ | ⟨id, around, -⟩ | ⟨now, rfl⟩
  · exact inv.step f b
  · exact inv.around around
  · exact (inv.reapAll now _).1

/-- No id is given twice. -/
lemma gone_next {a : Action} (inv : Inv s) (st : Step s a t) (gone : id ≤ s.nextOrder ∧ s.sessions.get? id = none) :
    id ≤ t.nextOrder ∧ t.sessions.get? id = none := by
  rcases inv.moves st with ⟨_, f, -⟩ | ⟨j, around, new⟩ | ⟨now, rfl⟩
  · exact ⟨f.order ▸ gone.1, (get?_eq_none_of_keys f.keys).2 gone.2⟩
  · refine ⟨Nat.le_trans gone.1 around.order, ?_⟩
    rcases Decidable.em (id = j) with rfl | ne
    · exact new.resolve_left (Nat.not_lt.2 gone.1)
    · exact (congrArg View.session (around.other id ne)).trans gone.2
  · obtain ⟨-, order, keys⟩ := inv.reapAll now s.runtimes.keys
    exact ⟨order.symm ▸ gone.1, (get?_eq_none_of_keys keys).2 gone.2⟩

/-- What holds of the store between any two steps. -/
structure Sound (s : Store) : Prop where
  listed : ∀ id, (s.sessions.get? id).isSome = (s.runtimes.get? id).isSome
  /-- An open socket is the one its session holds, and writes to the renderer of its session, which is not disposed. -/
  sockets : ∀ k ∈ s.openSockets, ∃ rt, s.runtimes.get? k.owner = some rt ∧ rt.socket = some k ∧
    rt.handle = some k.term ∧ k.term ∈ s.handles
  handles : ∀ h ∈ s.handles, ∃ rt, s.runtimes.get? h.owner = some rt ∧ rt.handle = some h
  connected : ∀ id m, s.sessions.get? id = some m → m.status = .connected →
    ∃ rt k, s.runtimes.get? id = some rt ∧ rt.socket = some k ∧ k ∈ s.openSockets
  waits : ∀ id, (waiting s.tasks id).length ≤ 1
  connecting : ∀ id m, s.sessions.get? id = some m → waiting s.tasks id ≠ [] → m.status = .connecting
  reaper : s.reaper = true ↔ ∃ id, (s.sessions.get? id).isSome

/-- What the invariant gives. -/
lemma Inv.sound (inv : Inv s) : Sound s where
  listed id := by
    have shape := inv.shape id
    generalize hv : s.view id = v at shape
    have e : (s.sessions.get? id).isSome = v.session.isSome := hv ▸ rfl
    have e' : (s.runtimes.get? id).isSome = v.runtime.isSome := hv ▸ rfl
    rw [e, e']
    cases shape <;> rfl
  sockets k hk := by
    have here : k ∈ (s.view k.owner).sockets := by simp [Store.view, hk]
    obtain ⟨m, rt, e, -, handle, socket, -, -⟩ := (inv.shape k.owner).open_socket here
    refine ⟨rt, congrArg View.runtime e, socket, handle, ?_⟩
    have mem : k.term ∈ (s.view k.owner).handles := by simp [e]
    exact (List.mem_filter.1 mem).1
  handles h hh := by
    have here : h ∈ (s.view h.owner).handles := by simp [Store.view, hh]
    have shape := inv.shape h.owner
    generalize hv : s.view h.owner = v at shape here
    have hr : s.runtimes.get? h.owner = v.runtime := hv ▸ rfl
    cases shape with
    | gone => simp at here
    | loading => simp at here
    | handshake m rt term status handle socket owner => exact ⟨rt, hr, List.mem_singleton.1 here ▸ handle⟩
    | live m rt k status handle socket owner owner' => exact ⟨rt, hr, List.mem_singleton.1 here ▸ handle⟩
    | finished m rt status sockets handles => exact ⟨rt, hr, by simpa using here⟩
  connected id m hm status := by
    have shape := inv.shape id
    generalize hv : s.view id = v at shape
    have e : v.session = some m := hv ▸ hm
    cases shape with
    | gone => cases e
    | loading m' rt tasks status' =>
      cases e
      simp [status] at status'
    | handshake m' rt term status' =>
      cases e
      simp [status] at status'
    | live m' rt k status' handle socket owner owner' =>
      have hk : k ∈ (s.view id).sockets := by simp [hv]
      exact ⟨rt, k, congrArg View.runtime hv, socket, (List.mem_filter.1 hk).1⟩
    | finished m' rt status' =>
      cases e
      simp [status] at status'
  waits id := (inv.shape id).few
  connecting id m hm waits := by
    have shape := inv.shape id
    generalize hv : s.view id = v at shape
    have e : v.session = some m := hv ▸ hm
    have w : v.waiting ≠ [] := hv ▸ waits
    cases shape with
    | gone => cases e
    | loading m' rt tasks status =>
      cases e
      exact status
    | handshake m' rt term status =>
      cases e
      exact status
    | live => simp at w
    | finished => simp at w
  reaper := by
    rw [inv.reaper]
    refine ⟨fun some => ?_, fun listed => ?_⟩
    · obtain ⟨id, hid⟩ := List.exists_mem_of_ne_nil _ some
      obtain ⟨m, hm⟩ := Dict.mem_keys.1 hid
      exact ⟨id, by simp [hm]⟩
    · obtain ⟨id, h⟩ := listed
      obtain ⟨m, hm⟩ := Option.isSome_iff_exists.1 h
      exact List.ne_nil_of_mem (Dict.mem_keys.2 ⟨m, hm⟩)

end

/-- Whatever the order of the actions, the waits and the events: no socket and no renderer is left by a session that is
gone or has another one, a session that is shown as connected is, the reaper ends what is connected, hidden and idle
and nothing else, and a closed session never comes back. -/
theorem terminals_sound {actions : List Action} {s : Store} (rn : Run Step .empty actions s) :
    Sound s ∧
      (∀ now id, (Idle now (s.view id) → Reaped (s.view id) ((s.reapIdle now).view id)) ∧
        (¬Idle now (s.view id) → (s.reapIdle now).view id = s.view id)) ∧
      ∀ id later t, id ≤ s.nextOrder → s.sessions.get? id = none → Run Step s later t →
        t.sessions.get? id = none ∧ (∀ k ∈ t.openSockets, k.owner ≠ id) ∧ ∀ h ∈ t.handles, h.owner ≠ id := by
  have inv : Inv s := rn.invariant .empty Inv.next
  refine ⟨inv.sound, fun now id => ?_, fun id later t known none rn' => ?_⟩
  · rcases Decidable.em (id ∈ s.runtimes.keys) with h | h
    · exact reapAll_view inv s.runtimes.distinct h
    · refine ⟨fun idle => ?_, fun _ => reapAll_other inv h⟩
      obtain ⟨m, rt, -, hr, -⟩ := idle
      exact absurd (Dict.mem_keys.2 ⟨rt, hr⟩) h
  · have last : Inv t ∧ id ≤ t.nextOrder ∧ t.sessions.get? id = Option.none := by
      refine rn'.invariant (I := fun t => Inv t ∧ id ≤ t.nextOrder ∧ t.sessions.get? id = Option.none)
        ⟨inv, known, none⟩ fun h st => ?_
      exact ⟨h.1.next st, gone_next h.1 st h.2⟩
    have bare : t.runtimes.get? id = Option.none := by
      have e := last.1.sound.listed id
      rw [last.2.2] at e
      simpa using e
    refine ⟨last.2.2, fun k hk ow => ?_, fun h hh ow => ?_⟩
    · obtain ⟨rt, hr, -⟩ := last.1.sound.sockets k hk
      rw [ow, bare] at hr
      cases hr
    · obtain ⟨rt, hr, -⟩ := last.1.sound.handles h hh
      rw [ow, bare] at hr
      cases hr

/-- A terminal that is shown once, then hidden. -/
def shown : Store :=
  let opened := Store.empty.open_ 0
  let ready := ({ opened with tasks := [] } : Store).loaded 1
  ({ ready with tasks := [] } : Store).resolved 1 ⟨1, 0⟩ 0

/-- A run, and an idle session reaped. -/
theorem terminals_sound_idle : Sound shown ∧ Reaped (shown.view 1) ((shown.reapIdle 900001).view 1) := by
  have rn : Run Step .empty [.open_, .loaded 1, .resolved 1] shown :=
    .snoc (.snoc (.single (.open_ _ 0)) (.loaded _ 1 [] [] rfl)) (.resolved _ 1 ⟨1, 0⟩ 0 [] [] rfl)
  refine ⟨(terminals_sound rn).1, ((terminals_sound rn).2.1 900001 1).1 ?_⟩
  exact ⟨_, _, rfl, rfl, rfl, by decide, by decide⟩

end OpenAgentd.Web.Terminals
