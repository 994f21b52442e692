import OpenAgentd.Loop.Dispatch
import OpenAgentd.Lib.Run
import OpenAgentd.Transcript.Summarise

/-!
# The agent loop

`Agent.run` (`app/agent/agent_loop/core.py`), one pass of its loop at a time (`iterate`), with the hooks that
change the transcript: queued messages are injected before the model is called, and a compaction runs inside
`wrap_model_call`. What the outside does in a pass is input (`Iteration`): the user's interrupts, the queued
rows, the text of the summariser, the answer of the provider, the ends of the tools.

The run logs what it sends to a provider (`requests`). Checkpoints, usage and the other hooks do not touch the
messages.
-/

namespace OpenAgentd.Loop
open OpenAgentd.Lib OpenAgentd.Transcript

/-- What is fixed for a run. -/
structure Config where
  loads : String → Option Json
  merge : String → List String → String
  keepLastAssistants : Nat := 3
  summaryPrompt : String := ""
  maxIterations : Nat := 5000
  stopAfterBeforeModel : Bool := false

/-- Whether and how a run has ended. -/
inductive Status where
  | running
  | returned
  | suspended (primary : ToolCall)
  | raised

/-- The state of a run: `state.messages`, the interrupt event and `_IterationBookkeeping`. -/
structure RunState where
  messages : List ChatMessage
  event : Option Bool
  requests : List (List ChatMessage) := []
  iteration : Nat := 0
  emptyResponseRetries : Nat := 0
  providerResumeAttempts : Nat := 0
  status : Status := .running

/-- How a call of the model ends: with an assembled answer, with a transient network error, with another
error. -/
inductive ModelCall where
  | answered (content reasoningContent : Option String) (toolCalls : List ToolCall)
      (finishReason : Option String) (droppedToolCalls : Bool)
  | unreachable
  | failed

/-- What the outside does in one pass of the loop. The event may be set before the pass, and by the end of
the call of the model. -/
structure Iteration where
  interruptedBefore : Bool := false
  queued : List (Option String × Extra) := []
  summary : Option String := none
  systemPrompt : String := ""
  call : ModelCall
  interruptedCall : Bool := false
  tools : Tools := {}
  endTurn : Bool := false

/-- `MAX_PROVIDER_RESUME_ATTEMPTS`. -/
def maxProviderResumeAttempts : Nat := 3

/-- `max_empty_response_retries`. -/
def maxEmptyResponseRetries : Nat := 3

/-- `str.strip`. -/
def strip (s : String) : String :=
  String.ofList ((s.toList.dropWhile pyIsSpace).reverse.dropWhile pyIsSpace).reverse

/-! ## Requests -/

/-- `SystemMessage(content=…)`. -/
def systemMessage (content : String) : ChatMessage where
  oid := 0
  role := .system
  content := some content

/-- `HumanMessage(content=…, extra=…)`. -/
def humanMessage (content : String) (extra : Extra) : ChatMessage where
  oid := 0
  role := .user
  content := some content
  extra

/-- Two adjacent messages that `_merge_consecutive_user_messages` joins. -/
def canMerge (prev m : ChatMessage) : Bool :=
  decide (m.role = .user) && m.parts.isEmpty && decide (prev.role = .user) && prev.parts.isEmpty

/-- `_merge_consecutive_user_messages`, from the last merged message on. -/
def mergeFrom (prev : ChatMessage) : List ChatMessage → List ChatMessage
  | [] => [prev]
  | m :: ms =>
    if canMerge prev m then
      mergeFrom (humanMessage (strip (prev.content.getD "" ++ "\n\n" ++ m.content.getD "")) prev.extra) ms
    else prev :: mergeFrom m ms

/-- The messages `stream_and_assemble` sends. -/
def providerMessages (systemPrompt : String) (messages : List ChatMessage) : List ChatMessage :=
  mergeFrom (systemMessage systemPrompt) messages

/-- `_MERGE_REQUEST`. -/
def mergeRequest : String :=
  "Update the anchored summary in the conversation above using the newer " ++
  "conversation history above. Preserve still-true details, remove stale " ++
  "details, and merge in the new facts."

/-- `_SUMMARISE_REQUEST`. -/
def summariseRequest : String :=
  "Please summarise the conversation above according to your instructions. " ++
  "Return only the requested summary, not the raw transcript."

/-- The messages `_summarise_inner` sends to the summariser. -/
def summariserMessages (cfg : Config) (systemPrompt : String) (p : Plan) (messages : List ChatMessage) :
    List ChatMessage :=
  let toSummarise := (eligible messages).filter fun m => m.oid ∈ p.toSummarise
  let requestLine := if toSummarise.any ChatMessage.isSummary then mergeRequest else summariseRequest
  (if systemPrompt = "" then [] else [systemMessage systemPrompt]) ++ toSummarise ++
    [humanMessage (requestLine ++ "\n\n" ++ cfg.summaryPrompt) {}]

/-! ## One pass of the loop -/

/-- The end of a run. -/
def RunState.finish (s : RunState) (status : Status) : RunState := { s with status }

/-- `QueuedMessageInjectionHook.before_model`. -/
def RunState.inject (s : RunState) (queued : List (Option String × Extra)) : RunState :=
  { s with
    messages := queued.foldl (fun messages row => append messages (humanMessage (row.1.getD "") row.2))
      s.messages }

/-- `SummarizationHook.wrap_model_call` when a compaction is pending and the summariser returns `text`. -/
def RunState.summarise (cfg : Config) (systemPrompt text : String) (s : RunState) : RunState :=
  match compactionPlan cfg.loads cfg.keepLastAssistants s.messages with
  | none => s
  | some p =>
    { s with
      messages := summariseInner cfg.loads cfg.keepLastAssistants (newOid s.messages) text s.messages
      requests := s.requests ++ [summariserMessages cfg systemPrompt p s.messages] }

/-- The pass up to the request. -/
def RunState.beforeModel (cfg : Config) (it : Iteration) (s : RunState) : RunState :=
  let s := { s with iteration := s.iteration + 1 }.inject it.queued
  match it.summary with
  | none => s
  | some text => s.summarise cfg it.systemPrompt text

/-- The transient network error of `_call_model_with_resume`. -/
def RunState.resume (s : RunState) : RunState :=
  let s := { s with providerResumeAttempts := s.providerResumeAttempts + 1 }
  if s.providerResumeAttempts > maxProviderResumeAttempts then s.finish .raised
  else if s.event = some true then s.finish .returned
  else { s with iteration := s.iteration - 1 }

/-- The decision of `_finish_model_iteration` about an empty answer: `some true` retries, `some false` raises,
`none` appends the answer. -/
def RunState.emptyAnswer (s : RunState) (a : ChatMessage) (finishReason : Option String) (dropped : Bool) :
    Option Bool :=
  let payload := hasText a.content || hasText a.reasoningContent || !a.toolCalls.isEmpty
  let aborted := decide (finishReason.getD "" = "")
  let previousWasTool := s.messages.getLast?.any fun m => m.role = .tool
  if !payload && !dropped && (aborted || previousWasTool) then
    if s.emptyResponseRetries + 1 ≤ maxEmptyResponseRetries then some true
    else if aborted then some false
    else none
  else none

/-- `empty_response_retries` after an answer. -/
def RunState.countEmpty (s : RunState) (a : ChatMessage) (finishReason : Option String) (dropped : Bool) : Nat :=
  let payload := hasText a.content || hasText a.reasoningContent || !a.toolCalls.isEmpty
  let aborted := decide (finishReason.getD "" = "")
  let previousWasTool := s.messages.getLast?.any fun m => m.role = .tool
  if payload then 0
  else if !dropped && (aborted || previousWasTool) then s.emptyResponseRetries + 1
  else s.emptyResponseRetries

/-- The recovery prompts of `_handle_finish_reason`. -/
def recoveryPrompt (dropped : Bool) : String :=
  if dropped then
    "Error: Your tool call was truncated and could not be executed " ++
    "because you exceeded the maximum output token limit (max_tokens). " ++
    "Please retry by breaking the task into smaller steps, or use a " ++
    "more precise tool (like edit/patch instead of writing/patching a huge block)."
  else
    "Error: Your response was cut off because you exceeded the maximum " ++
    "output token limit (max_tokens). Please continue your response from where you left off."

/-- `_handle_finish_reason` for an answer without tool calls. -/
def RunState.handleFinishReason (s : RunState) (finishReason : Option String) (dropped : Bool) : RunState :=
  if finishReason = some "pause_turn" then s
  else if finishReason = some "max_tokens" ∨ finishReason = some "length" then
    { s with messages := append s.messages (humanMessage (recoveryPrompt dropped) { hiddenFromUser := true }) }
  else s.finish .returned

/-- The pass from the tool calls of the answer `a` on. -/
def RunState.runTools (cfg : Config) (it : Iteration) (a : ChatMessage) (s : RunState) : RunState :=
  if s.event = some true then
    { s with messages := skipToolDispatchForInterrupt s.messages a.toolCalls }.finish .returned
  else
    let d := dispatchTools cfg.merge s.event it.tools a s.messages
    let s := { s with messages := d.1, event := fire it.tools.interrupted s.event }
    match d.2 with
    | .cancelled => s.finish .returned
    | .suspended primary => s.finish (.suspended primary)
    | .raised => s.finish .raised
    | .ok =>
      let sleep := strip (a.content.getD "") = "<sleep>" ∨ strip (a.content.getD "") = "[sleep]"
      if it.endTurn ∨ sleep then s.finish .returned else s

/-- The pass from the answer `a` on. -/
def RunState.answer (cfg : Config) (it : Iteration) (a : ChatMessage) (finishReason : Option String)
    (dropped : Bool) (s : RunState) : RunState :=
  let decision := s.emptyAnswer a finishReason dropped
  let s := { s with
    providerResumeAttempts := 0
    emptyResponseRetries := s.countEmpty a finishReason dropped }
  match decision with
  | some true => s
  | some false => s.finish .raised
  | none =>
    let a := { a with oid := newOid s.messages }
    let s := { s with messages := s.messages ++ [a] }
    if a.toolCalls = [] then s.handleFinishReason finishReason dropped else s.runTools cfg it a

/-- The assembled answer. -/
def assistantMessage (content reasoningContent : Option String) (toolCalls : List ToolCall) : ChatMessage where
  oid := 0
  role := .assistant
  content
  reasoningContent
  toolCalls

/-- The pass from the request on. -/
def RunState.callModel (cfg : Config) (it : Iteration) (s : RunState) : RunState :=
  let s := { s with
    requests := s.requests ++ [providerMessages it.systemPrompt (messagesForLlm s.messages)]
    event := fire it.interruptedCall s.event }
  match it.call with
  | .failed => s.finish .raised
  | .unreachable => s.resume
  | .answered content reasoningContent toolCalls finishReason dropped =>
    s.answer cfg it (assistantMessage content reasoningContent toolCalls) finishReason dropped

/-- One pass of the loop of `Agent.run`. -/
def RunState.iterate (cfg : Config) (it : Iteration) (s : RunState) : RunState :=
  if cfg.maxIterations ≤ s.iteration then s.finish .returned
  else
    let s := { s with event := fire it.interruptedBefore s.event }
    if s.event = some true then s.finish .returned
    else
      let s := s.beforeModel cfg it
      if cfg.stopAfterBeforeModel then s.finish .returned else s.callModel cfg it

/-- The state `_setup_run` hands to the loop. -/
def RunState.setup (history : List ChatMessage) (event : Option Bool) : RunState where
  messages := history.filter fun m => m.role ≠ .system
  event

/-- The passes of a run. -/
inductive Step (cfg : Config) : RunState → Iteration → RunState → Prop where
  | pass {s it} :
    s.status = .running →
    Step cfg s it (s.iterate cfg it)

end OpenAgentd.Loop
