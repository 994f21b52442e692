import Mathlib.Tactic.Lemma

/-!
# Chat messages

The in-memory messages of a run (`app/agent/schemas/chat.py`). The four message classes share one
record, tagged by `role`; a field that a class does not have keeps its default. `oid` is the identity
of the Python object (`id(msg)`), by which the hooks and the checkpointer track messages.

`Extra` holds the keys of the `extra` dict that the modelled functions read. A missing key and a
falsy value are the same to all of them.
-/

namespace OpenAgentd

/-- The roles of the message union. -/
inductive Role where
  | system
  | user
  | assistant
  | tool
  deriving DecidableEq

/-- `MessageKind`: what a row is. -/
inductive MessageKind where
  | chat
  | note
  | queued
  | summary
  | reverted
  deriving DecidableEq

/-- `FunctionCall.thought`: a bool or a text. -/
inductive Thought where
  | flag (b : Bool)
  | text (s : String)
  deriving DecidableEq

/-- `ToolCall`, with the fields of its `FunctionCall`. -/
structure ToolCall where
  id : String
  name : String
  arguments : String
  thought : Option Thought := none
  thoughtSignature : Option String := none
  deriving DecidableEq

/-- `EncryptedReasoningItem`. -/
structure EncryptedReasoningItem where
  id : Option String
  summary : List String
  encryptedContent : String
  deriving DecidableEq

/-- The dicts of `raw_content_blocks` and `redacted_thinking_blocks`. The input of a `tool_use` block is its
JSON text. -/
inductive RawBlock where
  | thinking (thinking signature : String)
  | redactedThinking (data : String)
  | text (text : String)
  | toolUseRef (id : String)
  | toolUse (id name input : String)
  deriving DecidableEq

/-- The meta dict of one stored attachment. -/
structure Attachment where
  category : Option String
  originalName : Option String
  filename : Option String
  deriving DecidableEq

/-- The keys of `extra` that are read. -/
structure Extra where
  hiddenFromUser : Bool := false
  hiddenFromSummary : Bool := false
  fromAgent : Option String := none
  attachments : List Attachment := []
  attachmentForMessageId : Option Nat := none
  mentionContext : Bool := false
  queueStatus : Option String := none
  snapshot : Option String := none
  reasoningItems : List EncryptedReasoningItem := []
  reasoningEncryptedContent : Option String := none
  reasoningItemId : Option String := none
  reasoningSignature : Option String := none
  redactedThinkingBlocks : List RawBlock := []
  rawContentBlocks : List RawBlock := []
  finishReason : Option String := none
  droppedToolCalls : Bool := false
  deriving DecidableEq

/-- One message of the transcript. -/
structure ChatMessage where
  oid : Nat
  role : Role
  content : Option String := none
  reasoningContent : Option String := none
  toolCalls : List ToolCall := []
  toolCallId : String := ""
  name : Option String := none
  parts : List String := []
  excludeFromContext : Bool := false
  isSummary : Bool := false
  kind : MessageKind := .chat
  pinned : Bool := false
  extra : Extra := {}
  dbId : Option Nat := none
  reasoningSignature : Option String := none
  redactedThinkingBlocks : List RawBlock := []
  rawContentBlocks : List RawBlock := []
  reasoningItems : List EncryptedReasoningItem := []
  deriving DecidableEq

/-- The characters `str.strip` removes. -/
def pyIsSpace (c : Char) : Bool :=
  let n := c.toNat
  (9 ≤ n && n ≤ 13) || (28 ≤ n && n ≤ 32) || n == 0x85 || n == 0xa0 || n == 0x1680 ||
    (0x2000 ≤ n && n ≤ 0x200a) || n == 0x2028 || n == 0x2029 || n == 0x202f || n == 0x205f ||
    n == 0x3000

/-- `bool(s and s.strip())`. -/
def hasText (s : Option String) : Bool :=
  s.any (fun s => s.toList.any (fun c => !pyIsSpace c))

/-- `AgentState.messages_for_llm`: neither excluded nor a system message. -/
def messagesForLlm (messages : List ChatMessage) : List ChatMessage :=
  messages.filter (fun m => !m.excludeFromContext && decide (m.role ≠ .system))

section
variable {ms : List ChatMessage} {m : ChatMessage}

/-- What the model sees. -/
lemma mem_messagesForLlm :
    m ∈ messagesForLlm ms ↔ m ∈ ms ∧ m.excludeFromContext = false ∧ m.role ≠ .system := by
  simp [messagesForLlm]

/-- Messages in a row. -/
lemma messagesForLlm_append (ms ms' : List ChatMessage) :
    messagesForLlm (ms ++ ms') = messagesForLlm ms ++ messagesForLlm ms' :=
  List.filter_append ..

end

/-- `json.loads` on the texts that are parsed: a dict with the strings under its keys, some other
value, or a decode error (`none`). The string under `""` is never looked up. -/
inductive Json where
  | dict (get : String → Option String)
  | other

end OpenAgentd
