import OpenAgentd.Lib.Run
import OpenAgentd.Stream.Turn

/-!
# Attaching to a turn

`attach` (`app/services/memory_stream_store.py`) registers a queue and replays the state of the turn as
events before it drains the queue. It is a generator: `Pc` is the place where it stands, `Attached.next` runs it
to the next place. Producers run only while it is suspended at a `yield` or waits for its queue (`paused`).

Its loops over dicts hold an iterator. When the keys of the dict have changed, Python leaves open whether
the iterator raises `RuntimeError`, which ends the generator, or goes on somewhere (`Step.goOn`).
-/

namespace OpenAgentd.Stream
open OpenAgentd.Lib

/-- The loops of `attach` over dicts. -/
inductive Loop where
  | statuses
  | summaries
  | thinking
  | content
  deriving DecidableEq

/-- The keys of the dict of a loop. -/
def TurnState.keysOf (t : TurnState) : Loop → List String
  | .statuses => t.agentStatuses.keys
  | .summaries => t.summarization.keys
  | .thinking => t.thinking.keys
  | .content => t.content.keys

/-- A dict iterator: the keys when the loop began and the number of entries it has passed. -/
structure Iter where
  keys : List String
  pos : Nat

/-- Where the generator stands. -/
inductive Pc where
  | loop (l : Loop) (it : Iter)
  | notConfigured
  | summaryContent (it : Iter) (agent : String) (ref : Nat)
  | summaryEnd (it : Iter) (agent : String) (ref : Nat) (text : String)
  | queuedTurns (pos : Nat)
  | toolCalls (list pos : Nat)
  | toolStart (list pos ref : Nat)
  | toolEnd (list pos ref : Nat)
  | live
  | ended

/-- A turn with an attached client. A queued `none` is the sentinel; `received` is what the client got,
`pushed` what was pushed since it attached and before the stream was terminated. -/
structure Attached where
  turn : TurnState
  subscribed : Bool := true
  queue : List (Option Event) := []
  pc : Pc
  paused : Bool := false
  received : List Event := []
  pushed : List Event := []
  terminated : Bool := false

/-- The size of a subscriber queue. -/
def maxsize : Nat := 2048

/-- The place at the head of a loop. -/
def TurnState.enter (t : TurnState) (l : Loop) : Pc := .loop l { keys := t.keysOf l, pos := 0 }

/-- `attach` up to its replay. -/
def attach (t : TurnState) : Option Attached :=
  if t.isStreaming then some { turn := t, pc := t.enter .statuses } else none

/-- `_REPLAYABLE_AGENT_STATUSES`. -/
def replayableAgentStatuses : List String := ["idle", "working", "waiting_input", "offline", "error"]

/-- Going on at `pc`. -/
def Attached.goto (s : Attached) (pc : Pc) : Attached := { s with pc, paused := false }

/-- Yielding `e` and standing at `pc`. -/
def Attached.yield (s : Attached) (e : Event) (pc : Pc) : Attached :=
  { s with received := s.received ++ [e], pc, paused := true }

/-- The end of the generator, with its `finally` block. -/
def Attached.close (s : Attached) : Attached :=
  { s with pc := .ended, subscribed := false, queue := [], paused := true }

/-- The body of a loop over a dict, for the next entry. -/
def Attached.nextEntry (s : Attached) (it : Iter) : Loop → Attached
  | .statuses =>
    match s.turn.agentStatuses.entries[it.pos]? with
    | none => s.goto .notConfigured
    | some (agent, status) =>
      let pc := .loop .statuses { it with pos := it.pos + 1 }
      if agent = "" ∨ status ∉ replayableAgentStatuses then s.goto pc
      else s.yield (.agentStatus agent status ((s.turn.agentErrors.get? agent).getD "\x7b\x7d")) pc
  | .summaries =>
    match s.turn.summarization.entries[it.pos]? with
    | none => s.goto (.queuedTurns 0)
    | some (agent, ref) =>
      let it' := { it with pos := it.pos + 1 }
      if agent = "" then s.goto (.loop .summaries it')
      else s.yield (.summarizationStart agent) (.summaryContent it' agent ref)
  | .thinking =>
    match s.turn.thinking.entries[it.pos]? with
    | none => s.goto (s.turn.enter .content)
    | some (agent, chunks) =>
      let pc := .loop .thinking { it with pos := it.pos + 1 }
      if chunks = [] then s.goto pc else s.yield (.thinking agent (join chunks)) pc
  | .content =>
    match s.turn.content.entries[it.pos]? with
    | none => s.goto (.toolCalls s.turn.toolCalls 0)
    | some (agent, chunks) =>
      let pc := .loop .content { it with pos := it.pos + 1 }
      if chunks = [] then s.goto pc else s.yield (.message agent (join chunks)) pc

/-- One step of the generator. -/
def Attached.next (s : Attached) : Attached :=
  match s.pc with
  | .loop l it => if s.turn.keysOf l = it.keys then s.nextEntry it l else s.close
  | .notConfigured =>
    match s.turn.agentNotConfigured with
    | none => s.goto (s.turn.enter .summaries)
    | some data => s.yield (.agentNotConfigured data) (s.turn.enter .summaries)
  | .summaryContent it agent ref =>
    let entry := s.turn.summaryHeap.getD ref {}
    let pc := .summaryEnd it agent ref entry.text
    if entry.text ≠ "" ∧ entry.done = false then s.yield (.summarizationContent agent entry.text) pc
    else s.goto pc
  | .summaryEnd it agent ref text =>
    let entry := s.turn.summaryHeap.getD ref {}
    if entry.done then s.yield (.summarizationEnd agent text entry.error) (.loop .summaries it)
    else s.goto (.loop .summaries it)
  | .queuedTurns pos =>
    match s.turn.queuedTurns[pos]? with
    | none => s.goto (s.turn.enter .thinking)
    | some data => s.yield (.queuedTurnStart data) (.queuedTurns (pos + 1))
  | .toolCalls list pos =>
    match (s.turn.toolLists.getD list [])[pos]? with
    | none => s.goto .live
    | some ref =>
      match s.turn.toolHeap[ref]? with
      | none => s.goto (.toolCalls list (pos + 1))
      | some tc => s.yield (.toolCall tc.agent tc.toolCallId tc.name) (.toolStart list pos ref)
  | .toolStart list pos ref =>
    match s.turn.toolHeap[ref]?.filter ToolEntry.started with
    | none => s.goto (.toolEnd list pos ref)
    | some tc => s.yield (.toolStart tc.agent tc.toolCallId tc.name tc.arguments) (.toolEnd list pos ref)
  | .toolEnd list pos ref =>
    match s.turn.toolHeap[ref]?.filter ToolEntry.done with
    | none => s.goto (.toolCalls list (pos + 1))
    | some tc => s.yield (.toolEnd tc.agent tc.toolCallId tc.name tc.result) (.toolCalls list (pos + 1))
  | .live =>
    match s.queue with
    | [] => { s with paused := true }
    | none :: _ => s.close
    | some e :: queue => { s.yield e .live with queue }
  | .ended => s

/-- `push_event`. -/
def Attached.pushEvent (s : Attached) (e : Event) : Attached :=
  let s := { s with turn := s.turn.record e, pushed := if s.terminated then s.pushed else s.pushed ++ [e] }
  if s.subscribed = false then s
  else if s.queue.length < maxsize then { s with queue := s.queue ++ [some e] }
  else { s with queue := s.queue.tail ++ [none], subscribed := false }

/-- `commit_agent_content`. -/
def Attached.commitAgentContent (s : Attached) (agent : String) : Attached :=
  { s with turn := s.turn.commitAgentContent agent }

/-- `mark_done`. -/
def Attached.markDone (s : Attached) : Attached :=
  let s := { s with turn := { s.turn with isStreaming := false }, terminated := true }
  if s.subscribed = false then s
  else { s with queue := (if s.queue.length < maxsize then s.queue else s.queue.tail) ++ [none] }

/-- What happens to an attached stream. -/
inductive Act where
  | next
  | push (e : Event)
  | commit (agent : String)
  | done

/-- The steps of an attached stream. -/
inductive Step : Attached → Act → Attached → Prop where
  | next {s} :
    Step s .next s.next
  | goOn {s l it pos} :
    s.pc = .loop l it →
    s.turn.keysOf l ≠ it.keys →
    Step s .next (s.goto (.loop l { keys := s.turn.keysOf l, pos }))
  | push {s e} :
    s.paused = true →
    Step s (.push e) (s.pushEvent e)
  | commit {s agent} :
    s.paused = true →
    Step s (.commit agent) (s.commitAgentContent agent)
  | done {s} :
    s.paused = true →
    Step s .done s.markDone

end OpenAgentd.Stream
