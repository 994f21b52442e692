import OpenAgentd.Lib.Dict
import Mathlib.Tactic.Common

/-!
# The state of a streaming turn

`_TurnState` and its write side (`app/services/memory_stream_store.py`): `push_event` records an event,
`commit_agent_content` drops what has become durable. Tool calls and summaries are dicts that are changed in
place while a reader may hold them, and a commit replaces the list of tool calls by a new one; these objects
live in the heaps of the state (`toolHeap`, `toolLists`, `summaryHeap`) and are named by their index.

Only what a reader replays is recorded. Usage, errors and the events that are merely passed on are the
event `other`.
-/

namespace OpenAgentd.Stream
open OpenAgentd.Lib

/-- `StreamEnvelope`, with the payloads of the typed events; free-form payloads are their JSON text. -/
inductive Event where
  | message (agent text : String)
  | thinking (agent text : String)
  | toolCall (agent : String) (toolCallId : Option String) (name : String)
  | toolStart (agent : String) (toolCallId : Option String) (name : String) (arguments : Option String)
  | toolEnd (agent : String) (toolCallId : Option String) (name : String) (result : Option String)
  | agentStatus (agent status metadata : String)
  | agentNotConfigured (data : String)
  | queuedTurnStart (data : String)
  | summarizationStart (agent : String)
  | summarizationContent (agent text : String)
  | summarizationEnd (agent summary : String) (error : Bool)
  | done
  | other (event : String)
  deriving DecidableEq

/-- The dict of one tool call. -/
structure ToolEntry where
  toolCallId : Option String
  name : String
  arguments : Option String := none
  agent : String
  started : Bool := false
  done : Bool := false
  result : Option String := none

/-- The dict of one summarization. -/
structure SummaryEntry where
  text : String := ""
  done : Bool := false
  error : Bool := false

/-- `_TurnState`, without its subscribers. -/
structure TurnState where
  isStreaming : Bool := true
  content : Dict String (List String) := .empty
  thinking : Dict String (List String) := .empty
  toolHeap : List ToolEntry := []
  toolLists : List (List Nat) := [[]]
  toolCalls : Nat := 0
  agentStatuses : Dict String String := .empty
  agentErrors : Dict String String := .empty
  summaryHeap : List SummaryEntry := []
  summarization : Dict String Nat := .empty
  agentNotConfigured : Option String := none
  queuedTurns : List String := []

/-- `d.setdefault(agent, []).append(text)`. -/
def appendChunk (d : Dict String (List String)) (agent text : String) : Dict String (List String) :=
  d.set agent ((d.get? agent).getD [] ++ [text])

/-- The references in the list `state.tool_calls`. -/
def TurnState.toolRefs (t : TurnState) : List Nat := t.toolLists.getD t.toolCalls []

/-- `state.tool_calls.append`. -/
def TurnState.appendTool (t : TurnState) (tc : ToolEntry) : TurnState :=
  { t with toolHeap := t.toolHeap ++ [tc]
           toolLists := t.toolLists.modify t.toolCalls fun refs => refs ++ [t.toolHeap.length] }

/-- The last tool call of the list with the property `q`. -/
def TurnState.findTool (t : TurnState) (q : ToolEntry → Bool) : Option Nat :=
  t.toolRefs.reverse.find? fun ref => t.toolHeap[ref]?.any q

/-- `if agent and not tc.get("agent"): tc["agent"] = agent`. -/
def ToolEntry.attribute (tc : ToolEntry) (agent : String) : ToolEntry :=
  if agent ≠ "" ∧ tc.agent = "" then { tc with agent } else tc

/-- `match_tool_start`. -/
def TurnState.matchToolStart (t : TurnState) (toolCallId : Option String) (name : String)
    (arguments : Option String) (agent : String) : TurnState :=
  let named := toolCallId.any fun id => id ≠ ""
  match t.findTool fun tc => (named && tc.toolCallId = toolCallId) ||
      (!named && tc.name = name && !tc.started) with
  | some ref => { t with toolHeap := t.toolHeap.modify ref fun tc =>
      { tc with arguments, started := true }.attribute agent }
  | none => t.appendTool { toolCallId, name, arguments, agent, started := true }

/-- `match_tool_end`. -/
def TurnState.matchToolEnd (t : TurnState) (toolCallId : Option String) (name : String)
    (result : Option String) (agent : String) : TurnState :=
  let named := toolCallId.any fun id => id ≠ ""
  let byId := if named then t.findTool fun tc => tc.toolCallId = toolCallId else none
  match byId.or (t.findTool fun tc => tc.name = name && !tc.done) with
  | some ref => { t with toolHeap := t.toolHeap.modify ref fun tc =>
      { tc with done := true, result }.attribute agent }
  | none => t.appendTool { toolCallId, name, agent, started := true, done := true, result }

/-- `state.summarization.setdefault(agent, …)`, with the reference of the entry. -/
def TurnState.summaryEntry (t : TurnState) (agent : String) : TurnState × Nat :=
  match t.summarization.get? agent with
  | some ref => (t, ref)
  | none =>
    ({ t with summaryHeap := t.summaryHeap ++ [{}]
              summarization := t.summarization.set agent t.summaryHeap.length }, t.summaryHeap.length)

/-- The state part of `push_event`. -/
def TurnState.record (t : TurnState) : Event → TurnState
  | .message agent text =>
    if text ≠ "" then { t with content := appendChunk t.content agent text } else t
  | .thinking agent text =>
    if text ≠ "" then { t with thinking := appendChunk t.thinking agent text } else t
  | .toolCall agent toolCallId name => t.appendTool { toolCallId, name, agent }
  | .toolStart agent toolCallId name arguments => t.matchToolStart toolCallId name arguments agent
  | .toolEnd agent toolCallId name result => t.matchToolEnd toolCallId name result agent
  | .agentStatus agent status metadata =>
    if agent ≠ "" ∧ status ≠ "" then
      { t with agentStatuses := t.agentStatuses.set agent status
               agentErrors := if status = "error" then t.agentErrors.set agent metadata
                 else t.agentErrors.erase agent }
    else t
  | .agentNotConfigured data => { t with agentNotConfigured := some data }
  | .queuedTurnStart data => { t with queuedTurns := t.queuedTurns ++ [data] }
  | .summarizationStart agent =>
    if agent ≠ "" then
      { t with summaryHeap := t.summaryHeap ++ [{}]
               summarization := t.summarization.set agent t.summaryHeap.length }
    else t
  | .summarizationContent agent text =>
    if agent ≠ "" ∧ text ≠ "" then
      let (t, ref) := t.summaryEntry agent
      { t with summaryHeap := t.summaryHeap.modify ref fun e => { e with text := e.text ++ text } }
    else t
  | .summarizationEnd agent summary error =>
    if agent ≠ "" then
      let (t, ref) := t.summaryEntry agent
      { t with summaryHeap := t.summaryHeap.modify ref fun e =>
          { text := if summary ≠ "" then summary else e.text, done := true, error := error || e.error } }
    else t
  | .done => { t with isStreaming := false }
  | .other _ => t

/-- A summary whose row is durable. -/
def TurnState.durableSummary (t : TurnState) (agent : String) : Bool :=
  (t.summarization.get? agent).any fun ref => t.summaryHeap[ref]?.any fun e => e.done && !e.error

/-- `commit_agent_content`. -/
def TurnState.commitAgentContent (t : TurnState) (agent : String) : TurnState :=
  { t with
    content := t.content.erase agent
    thinking := t.thinking.erase agent
    summarization := if t.durableSummary agent then t.summarization.erase agent else t.summarization
    toolLists := t.toolLists ++
      [t.toolRefs.filter fun ref => t.toolHeap[ref]?.any fun tc => tc.agent ≠ agent]
    toolCalls := t.toolLists.length }

/-! ## Text -/

/-- The two kinds of text a turn streams. -/
inductive Channel where
  | message
  | thinking
  deriving DecidableEq

/-- The accumulated text of a channel. -/
def TurnState.chunks (t : TurnState) : Channel → Dict String (List String)
  | .message => t.content
  | .thinking => t.thinking

/-- `"".join`. -/
def join (chunks : List String) : String := chunks.foldr (· ++ ·) ""

/-- The accumulated text of an agent. -/
def TurnState.text (t : TurnState) (c : Channel) (agent : String) : String :=
  join (((t.chunks c).get? agent).getD [])

/-- The text an event carries on a channel for an agent. -/
def Event.text (c : Channel) (agent : String) : Event → String
  | .message a text => if c = .message ∧ a = agent then text else ""
  | .thinking a text => if c = .thinking ∧ a = agent then text else ""
  | _ => ""

/-- The text of a sequence of events. -/
def textOf (c : Channel) (agent : String) (events : List Event) : String :=
  join (events.map (Event.text c agent))

section
variable {t : TurnState} {e : Event} {c : Channel} {agent a : String} {xs ys : List String}

/-- Joining two lists. -/
lemma join_append : join (xs ++ ys) = join xs ++ join ys := by
  induction xs with
  | nil => simp [join]
  | cons x xs ih =>
    simp only [join, List.cons_append, List.foldr_cons] at ih ⊢
    rw [ih, String.append_assoc]

/-- No events say nothing. -/
@[simp] lemma textOf_nil : textOf c agent [] = "" := rfl

/-- What two lists of events say. -/
lemma textOf_append {es es' : List Event} :
    textOf c agent (es ++ es') = textOf c agent es ++ textOf c agent es' := by
  rw [textOf, List.map_append, join_append]
  rfl

/-- What one event says. -/
@[simp] lemma textOf_singleton : textOf c agent [e] = e.text c agent := by
  simp [textOf, join]

/-- The text of one agent after a chunk is appended. -/
lemma join_appendChunk {d : Dict String (List String)} {text : String} :
    join (((appendChunk d a text).get? agent).getD []) =
      join ((d.get? agent).getD []) ++ if a = agent then text else "" := by
  rw [appendChunk, Dict.get?_set]
  by_cases e : agent = a
  · rw [if_pos e, if_pos e.symm, e, Option.getD_some, join_append]
    simp [join]
  · rw [if_neg e, if_neg (Ne.symm e)]
    simp

/-- A tool entry adds no chunk. -/
lemma TurnState.appendTool_chunks {tc : ToolEntry} : (t.appendTool tc).chunks c = t.chunks c := by
  cases c with
  | message => rfl
  | thinking => rfl

/-- A summary entry adds no chunk. -/
lemma TurnState.summaryEntry_chunks : (t.summaryEntry a).1.chunks c = t.chunks c := by
  unfold TurnState.summaryEntry
  split
  · rfl
  · cases c with
    | message => rfl
    | thinking => rfl

end

end OpenAgentd.Stream
