import OpenAgentd.Schemas.Chat
import Mathlib.Tactic.Common

/-!
# Dispatch of tool calls

`gather_or_cancel` (`app/agent/agent_loop/tool_dispatch.py`) with `_run_tool`, `_dispatch_tools`,
`_dispatch_question` and `_skip_tool_dispatch_for_interrupt` (`app/agent/agent_loop/core.py`). How a tool call
ends, and what happens to the run meanwhile, is input (`Tools`). The interrupt event is `none` where the run
has none, else whether it is set.

`merge` stands for the JSON part of `_merge_question_calls`: the arguments of the primary call with the
questions of the others folded in.
-/

namespace OpenAgentd.Loop

/-- `ASK_USER`. -/
def askUser : String := "ask_user"

/-- `ASK_MERGED_INTO_PRIMARY`. -/
def askMergedIntoPrimary : String :=
  "Merged into your other ask_user call — the user sees a single card with every question."

/-- How the hook chain of a tool call ends. -/
inductive ToolOutcome where
  | returned (result : String)
  | failed (error : String)
  | suspended
  | cancelled

/-- The task of a tool call when the results are built. It is still running only after an interrupt. -/
inductive TaskEnd where
  | finished (outcome : ToolOutcome)
  | stillRunning

/-- The exceptions that `gather_or_cancel` hands back as results. -/
inductive ToolException where
  | questionSuspended
  | cancelledError

/-- The result of one task, `_run_tool` included. -/
def taskResult (event : Option Bool) (tc : ToolCall) : TaskEnd → Except ToolException (ToolCall × String)
  | .finished (.returned result) => .ok (tc, result)
  | .finished (.failed error) => .ok (tc, "Error: " ++ error)
  | .finished .suspended => .error .questionSuspended
  | .finished .cancelled =>
    match event with
    | none => .error .cancelledError
    | some _ => .ok (tc, "Cancelled by user.")
  | .stillRunning => .ok (tc, "Cancellation requested; tool is still stopping.")

/-- What happens while a batch is dispatched: the end of each ordinary call, whether the run's own task is
cancelled, whether the event is set by the end of the batch, the end of the `ask_user` call. -/
structure Tools where
  ends : Nat → TaskEnd := fun _ => .finished (.returned "")
  callerCancelled : Bool := false
  interrupted : Bool := false
  question : ToolOutcome := .suspended

/-- `gather_or_cancel`, and `none` where the cancellation of the run propagates. -/
def gatherOrCancel (event : Option Bool) (tools : Tools) (calls : List ToolCall) :
    Option (List (Except ToolException (ToolCall × String))) :=
  if calls = [] then some []
  else if tools.callerCancelled then
    event.map fun _ => calls.map fun tc => .ok (tc, "Cancelled by user.")
  else some (calls.mapIdx fun i tc => taskResult event tc (tools.ends i))

/-- The identity of a new object: no message of the list has it. -/
def newOid (messages : List ChatMessage) : Nat := messages.foldr (fun m n => max (m.oid + 1) n) 0

/-- `messages.append` with a new object. -/
def append (messages : List ChatMessage) (m : ChatMessage) : List ChatMessage :=
  messages ++ [{ m with oid := newOid messages }]

/-- `ToolMessage(content=…, tool_call_id=tc.id, name=tc.function.name)`. -/
def toolMessage (content : String) (tc : ToolCall) : ChatMessage where
  oid := 0
  role := .tool
  content := some content
  toolCallId := tc.id
  name := some tc.name

/-- `_append_tool_results`. -/
def appendToolResults (messages : List ChatMessage)
    (results : List (Except ToolException (ToolCall × String))) : List ChatMessage :=
  results.foldl (fun messages item =>
    match item with
    | .error _ => messages
    | .ok (tc, result) => append messages (toolMessage result tc)) messages

/-- `_skip_tool_dispatch_for_interrupt`. -/
def skipToolDispatchForInterrupt (messages : List ChatMessage) (calls : List ToolCall) : List ChatMessage :=
  calls.foldl (fun messages tc => append messages (toolMessage "Cancelled by user." tc)) messages

/-- `_merge_question_calls`: the first `ask_user` call of the message `oid` gets the merged arguments. -/
def mergeQuestionCalls (merge : String → List String → String) (oid : Nat) (duplicates : List ToolCall)
    (messages : List ChatMessage) : List ChatMessage :=
  messages.map fun m =>
    if m.oid = oid then
      { m with
        toolCalls := m.toolCalls.modify (m.toolCalls.findIdx fun tc => tc.name = askUser) fun tc =>
          { tc with arguments := merge tc.arguments (duplicates.map ToolCall.arguments) } }
    else m

/-- How a dispatch ends. -/
inductive Dispatch where
  | ok
  | cancelled
  | suspended (primary : ToolCall)
  | raised

/-- `_dispatch_question`. -/
def dispatchQuestion (merge : String → List String → String) (oid : Nat) (question : ToolOutcome)
    (primary : ToolCall) (duplicates : List ToolCall) (messages : List ChatMessage) :
    List ChatMessage × Dispatch :=
  let messages :=
    if duplicates = [] then messages
    else duplicates.foldl (fun messages tc => append messages (toolMessage askMergedIntoPrimary tc))
      (mergeQuestionCalls merge oid duplicates messages)
  match question with
  | .suspended => (messages, .suspended primary)
  | .returned result => (append messages (toolMessage result primary), .ok)
  | .failed error => (append messages (toolMessage ("Error: " ++ error) primary), .ok)
  | .cancelled => (messages, .raised)

/-- `event.set()`, if there is an event and `b` says so. -/
def fire (b : Bool) (event : Option Bool) : Option Bool := event.map fun set => set || b

/-- `_dispatch_tools` on the calls of the message `a`. -/
def dispatchTools (merge : String → List String → String) (event : Option Bool) (tools : Tools)
    (a : ChatMessage) (messages : List ChatMessage) : List ChatMessage × Dispatch :=
  let ask := a.toolCalls.filter fun tc => tc.name = askUser
  let other := a.toolCalls.filter fun tc => tc.name ≠ askUser
  match gatherOrCancel event tools other with
  | none => (messages, .raised)
  | some results =>
    let messages := appendToolResults messages results
    if fire tools.interrupted event = some true then (messages, .cancelled)
    else
      match ask with
      | [] => (messages, .ok)
      | primary :: duplicates => dispatchQuestion merge a.oid tools.question primary duplicates messages

end OpenAgentd.Loop
