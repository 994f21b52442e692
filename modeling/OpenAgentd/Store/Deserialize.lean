import OpenAgentd.Store.Revert

/-!
# Rows as messages

`_chat_message_from_row` (`app/services/chat_service_messages.py`) projects a row into a runtime message
and `save_message` (`app/services/chat_service.py`) a message into a row. Both go by the role and drop
what the class of the role does not have. `ChatMessage.body` is what a message and its row have in common;
`Stores` is the relation between them.
-/

namespace OpenAgentd.Store
open OpenAgentd.Lib

/-- The encrypted reasoning of an assistant row: the items, or the singular keys of older rows. -/
def storedReasoningItems (r : Row) : List EncryptedReasoningItem :=
  if r.extra.reasoningItems ≠ [] then r.extra.reasoningItems
  else
    match nonEmpty r.extra.reasoningEncryptedContent with
    | none => []
    | some encryptedContent =>
      [{ id := nonEmpty r.extra.reasoningItemId
         summary := (nonEmpty r.reasoningContent).toList
         encryptedContent }]

/-- `_chat_message_from_row`, as the object `oid`. -/
def chatMessageFromRow (oid : Nat) (r : Row) : ChatMessage where
  oid
  role := r.role
  content := r.content
  reasoningContent := if r.role = .assistant then r.reasoningContent else none
  toolCalls := if r.role = .assistant then r.toolCalls else []
  toolCallId := if r.role = .tool then r.toolCallId.getD "" else ""
  name := if r.role = .tool then r.name else none
  parts := if r.role = .tool then r.parts else []
  isSummary := r.kind = .summary
  kind := r.kind
  pinned := r.pinned
  extra := r.extra
  dbId := some r.id
  reasoningSignature := if r.role = .assistant then nonEmpty r.extra.reasoningSignature else none
  redactedThinkingBlocks := if r.role = .assistant then r.extra.redactedThinkingBlocks else []
  rawContentBlocks := if r.role = .assistant then r.extra.rawContentBlocks else []
  reasoningItems := if r.role = .assistant then storedReasoningItems r else []

/-- What is stored of a message: not its identity, not its kind, not its flags in memory, and only the
fields its class has. The reasoning that a provider wants back is stored with `extra`. -/
def body (m : ChatMessage) : ChatMessage where
  oid := 0
  role := m.role
  content := m.content
  reasoningContent := if m.role = .assistant then m.reasoningContent else none
  toolCalls := if m.role = .assistant then m.toolCalls else []
  toolCallId := if m.role = .tool then m.toolCallId else ""
  name := if m.role = .tool then m.name else none
  parts := if m.role = .tool then m.parts else []
  isSummary := m.isSummary
  pinned := m.pinned
  extra := m.extra
  dbId := m.dbId

/-- What is stored of a message, apart from the name of its row. -/
def stored (m : ChatMessage) : ChatMessage := { body m with dbId := none }

/-- The row `r` stores the message `m`. -/
def Stores (r : Row) (m : ChatMessage) : Prop := body (chatMessageFromRow 0 r) = body m

instance (r : Row) (m : ChatMessage) : Decidable (Stores r m) :=
  inferInstanceAs (Decidable (body (chatMessageFromRow 0 r) = body m))

/-- The kind `save_message` derives. -/
def savedKind (m : ChatMessage) (isSummary : Bool) : MessageKind :=
  if isSummary then .summary else if m.extra.hiddenFromUser then .note else .chat

/-- The row `save_message` makes of a message. -/
def messageRow (m : ChatMessage) (isSummary : Bool) (seq : Nat) : Row where
  id := 0
  role := m.role
  content := m.content
  reasoningContent := if m.role = .assistant then m.reasoningContent else none
  toolCalls := if m.role = .assistant then m.toolCalls else []
  toolCallId := if m.role = .tool then some m.toolCallId else none
  name := if m.role = .tool then m.name else none
  parts := if m.role = .tool then m.parts else []
  seq
  kind := savedKind m isSummary
  pinned := m.pinned
  extra := m.extra

section
variable {m : ChatMessage} {r : Row} {b : Bool} {seq id : Nat}

/-- A stored message has its row's id. -/
lemma Stores.dbId (h : Stores r m) : m.dbId = some r.id := (congrArg ChatMessage.dbId h).symm

/-- A stored message is pinned as its row. -/
lemma Stores.pinned (h : Stores r m) : m.pinned = r.pinned := (congrArg ChatMessage.pinned h).symm

/-- A stored message has its row's role. -/
lemma Stores.role (h : Stores r m) : m.role = r.role := (congrArg ChatMessage.role h).symm

/-- A stored message has its row's extra. -/
lemma Stores.extra (h : Stores r m) : m.extra = r.extra := (congrArg ChatMessage.extra h).symm

/-- Summaries are stored as such. -/
lemma Stores.isSummary (h : Stores r m) : m.isSummary = decide (r.kind = .summary) :=
  (congrArg ChatMessage.isSummary h).symm

/-- When a message is saved as a summary. -/
lemma savedKind_eq_summary : savedKind m b = .summary ↔ b = true := by
  unfold savedKind
  cases b with
  | true => simp
  | false =>
    simp only [Bool.false_eq_true, if_false, iff_false]
    split
    · simp
    · simp

/-- The kinds a message is saved as. -/
lemma savedKind_cases : savedKind m b = .chat ∨ savedKind m b = .note ∨ savedKind m b = .summary := by
  unfold savedKind
  split_ifs <;> simp

/-- A saved message is stored by its row. -/
lemma stores_messageRow (sum : m.isSummary = b) :
    Stores { messageRow m b seq with id } { m with dbId := some id } := by
  have kind : decide (savedKind m b = .summary) = m.isSummary := by
    rw [sum, Bool.eq_iff_iff, decide_eq_true_iff, savedKind_eq_summary]
  unfold Stores body chatMessageFromRow messageRow
  simp only [kind]
  cases m.role with
  | tool => simp
  | _ => simp

/-- Setting the pin of a row and of its message. -/
lemma Stores.setPinned (h : Stores r m) (v : Bool) :
    Stores { r with pinned := v } { m with pinned := v } := by
  have e := congrArg (fun k : ChatMessage => { k with pinned := v }) h
  exact e

end

end OpenAgentd.Store
