import OpenAgentd.Schemas.Chat
import OpenAgentd.Lib.Dict
import OpenAgentd.Lib.Ordered

/-!
# Assembling an answer

The loop of `stream_and_assemble` (`app/agent/agent_loop/streaming.py`) over the chunks of a provider. Texts are
concatenated, the fragments of a tool call are gathered under its index (`CallBuffer`), and a restart of the
stream drops what there is. At the end the calls are put in the order of their indexes, without those that
have no name or whose arguments do not parse (`executable`).

An interrupt ends the loop after some of the chunks, so the chunks of an assembly are a prefix of those the
provider would have sent.
-/

namespace OpenAgentd.Loop
open OpenAgentd.Lib

/-- `FunctionCallDelta`. -/
structure FunctionDelta where
  name : Option String := none
  arguments : Option String := none
  thought : Option Thought := none
  thoughtSignature : Option String := none

/-- `ToolCallDelta`. -/
structure ToolCallDelta where
  index : Option Int := none
  id : Option String := none
  function : Option FunctionDelta := none

/-- `ChatCompletionDelta`. -/
structure Delta where
  content : Option String := none
  reasoningContent : Option String := none
  reasoningSignature : Option String := none
  redactedThinkingBlock : Option RawBlock := none
  anthropicRawBlocks : Option (List RawBlock) := none
  reasoningItem : Option EncryptedReasoningItem := none
  toolCalls : List ToolCallDelta := []

/-- What the stream yields: a restart, a chunk without choices, or the first choice of a chunk. -/
inductive StreamItem where
  | restart
  | usage
  | choice (delta : Delta) (finishReason : Option String)

/-- An entry of `tool_calls_buffer`. -/
structure CallBuffer where
  id : String := ""
  name : String := ""
  arguments : String := ""
  thought : Option Thought := none
  thoughtSignature : Option String := none

/-- `bool(thought)`. -/
def Thought.truthy : Thought → Bool
  | .flag b => b
  | .text s => s ≠ ""

/-- The first fragment of a call. -/
def ToolCallDelta.open (tc : ToolCallDelta) : CallBuffer :=
  match tc.function with
  | none => { id := tc.id.getD "" }
  | some f =>
    { id := tc.id.getD ""
      name := f.name.getD ""
      arguments := f.arguments.getD ""
      thought := f.thought.filter Thought.truthy
      thoughtSignature := f.thoughtSignature.filter fun s => s ≠ "" }

/-- A further fragment of a call: the first id and the first name win. -/
def CallBuffer.extend (buf : CallBuffer) (tc : ToolCallDelta) : CallBuffer :=
  let buf := if buf.id = "" then { buf with id := tc.id.getD "" } else buf
  match tc.function with
  | none => buf
  | some f =>
    { buf with
      name := if buf.name = "" then f.name.getD "" else buf.name
      arguments := buf.arguments ++ f.arguments.getD ""
      thought := (f.thought.filter Thought.truthy).or buf.thought
      thoughtSignature :=
        match f.thoughtSignature.filter fun s => s ≠ "" with
        | none => buf.thoughtSignature
        | some s => some (buf.thoughtSignature.getD "" ++ s) }

/-- One fragment of a tool call. -/
def bufferCall (buffer : Dict Int CallBuffer) (tc : ToolCallDelta) : Dict Int CallBuffer :=
  let idx := tc.index.getD 0
  buffer.set idx <|
    match buffer.get? idx with
    | none => tc.open
    | some buf => buf.extend tc

/-- The local variables of `stream_and_assemble`. -/
structure Assembly where
  fullContent : String := ""
  reasoning : String := ""
  reasoningSignature : String := ""
  redactedThinkingBlocks : List RawBlock := []
  rawContentBlocks : List RawBlock := []
  reasoningItems : List EncryptedReasoningItem := []
  buffer : Dict Int CallBuffer := .empty
  finishReason : Option String := none

/-- One chunk. -/
def Assembly.step (s : Assembly) : StreamItem → Assembly
  | .restart => {}
  | .usage => s
  | .choice delta finishReason =>
    { fullContent := s.fullContent ++ delta.content.getD ""
      reasoning := s.reasoning ++ delta.reasoningContent.getD ""
      reasoningSignature := s.reasoningSignature ++ delta.reasoningSignature.getD ""
      redactedThinkingBlocks := s.redactedThinkingBlocks ++ delta.redactedThinkingBlock.toList
      rawContentBlocks := delta.anthropicRawBlocks.getD s.rawContentBlocks
      reasoningItems := s.reasoningItems ++ delta.reasoningItem.toList
      buffer := delta.toolCalls.foldl bufferCall s.buffer
      finishReason := (finishReason.filter fun r => r ≠ "").or s.finishReason }

/-- The calls that are not left half-formed. -/
def executable (loads : String → Option Json) (buf : CallBuffer) : Bool :=
  buf.name ≠ "" && (buf.arguments = "" || (loads buf.arguments).isSome)

/-- The buffered calls in the order of their indexes. -/
def Assembly.calls (s : Assembly) : List CallBuffer := (sortOn Prod.fst s.buffer.entries).map Prod.snd

/-- `ToolCall(**buf)`. -/
def CallBuffer.toolCall (buf : CallBuffer) : ToolCall where
  id := buf.id
  name := buf.name
  arguments := buf.arguments
  thought := buf.thought
  thoughtSignature := buf.thoughtSignature

/-- `s or None`. -/
def orNone (s : String) : Option String := if s = "" then none else some s

/-- The message `stream_and_assemble` returns. -/
def Assembly.message (loads : String → Option Json) (s : Assembly) : ChatMessage where
  oid := 0
  role := .assistant
  content := orNone s.fullContent
  reasoningContent := orNone s.reasoning
  toolCalls := (s.calls.filter (executable loads)).map CallBuffer.toolCall
  reasoningSignature := orNone s.reasoningSignature
  redactedThinkingBlocks := s.redactedThinkingBlocks
  rawContentBlocks := s.rawContentBlocks
  reasoningItems := s.reasoningItems
  extra :=
    { finishReason := s.finishReason
      droppedToolCalls := s.calls.any fun buf => !executable loads buf
      reasoningSignature := orNone s.reasoningSignature
      redactedThinkingBlocks := s.redactedThinkingBlocks
      rawContentBlocks := s.rawContentBlocks
      reasoningItems := s.reasoningItems }

/-- `stream_and_assemble` on the chunks it consumes. -/
def assemble (loads : String → Option Json) (items : List StreamItem) : ChatMessage :=
  (items.foldl Assembly.step {}).message loads

/-- A call of an assembled message has a name, and arguments that are empty or parse. -/
lemma mem_toolCalls_message {loads : String → Option Json} {s : Assembly} {tc : ToolCall}
    (h : tc ∈ (s.message loads).toolCalls) :
    tc.name ≠ "" ∧ (tc.arguments = "" ∨ (loads tc.arguments).isSome) := by
  obtain ⟨buf, hbuf, rfl⟩ := List.mem_map.mp h
  have ok := (List.mem_filter.mp hbuf).2
  simpa [executable, CallBuffer.toolCall] using ok

end OpenAgentd.Loop
