import OpenAgentd.Loop.Assemble

/-!
# The Anthropic provider

`AnthropicProvider.stream` and `_split_messages` (`app/agent/providers/anthropic/anthropic.py`). The stream turns
the frames of the wire into chunks and keeps, beside them, every content block under its index; the blocks leave
with the last chunk, in the order of their starts. A request sends an assistant message back from these blocks
when they are there (`blocksFromRawContent`), otherwise from the flat fields.

A frame without an index has the index `0`; a `content_block_start` of a type that is not listed does nothing and
is a frame like any other. Usage, cache marks and images are left out.
-/

namespace OpenAgentd.Provider
open OpenAgentd.Lib OpenAgentd.Loop

/-- The `content_block` of a `content_block_start` frame. -/
inductive ContentBlock where
  | thinking
  | redactedThinking (data : String)
  | text
  | toolUse (id name : String)
  deriving DecidableEq

/-- A frame of the wire. -/
inductive Frame where
  | blockStart (index : Int) (block : ContentBlock)
  | thinkingDelta (index : Int) (thinking : String)
  | signatureDelta (index : Int) (signature : String)
  | textDelta (index : Int) (text : String)
  | inputJsonDelta (index : Int) (partialJson : String)
  | messageDelta (stopReason : Option String)
  | other

/-- The local variables of `stream`. -/
structure StreamState where
  toolCallIndexes : Dict Int Int := .empty
  rawBlocks : Dict Int RawBlock := .empty
  rawBlockOrder : List Int := []

/-- `dict.setdefault`. -/
def setDefault (d : Dict Int Int) (k v : Int) : Int × Dict Int Int :=
  match d.get? k with
  | some v => (v, d)
  | none => (v, d.set k v)

/-- `_finish_reason`. -/
def finishReason (stopReason : Option String) : Option String :=
  if stopReason = some "tool_use" then some "tool_calls" else stopReason

/-- The empty block of a start. -/
def ContentBlock.raw : ContentBlock → RawBlock
  | .thinking => .thinking "" ""
  | .redactedThinking data => .redactedThinking data
  | .text => .text ""
  | .toolUse id _ => .toolUseRef id

/-- `block["thinking"] += …` on a thinking block. -/
def addThinking (s : String) : RawBlock → RawBlock
  | .thinking thinking signature => .thinking (thinking ++ s) signature
  | block => block

/-- `block["signature"] += …` on a thinking block. -/
def addSignature (s : String) : RawBlock → RawBlock
  | .thinking thinking signature => .thinking thinking (signature ++ s)
  | block => block

/-- `block["text"] += …` on a text block. -/
def addText (s : String) : RawBlock → RawBlock
  | .text text => .text (text ++ s)
  | block => block

/-- A change of the block under an index. -/
def StreamState.modify (st : StreamState) (index : Int) (f : RawBlock → RawBlock) : StreamState :=
  match st.rawBlocks.get? index with
  | some block => { st with rawBlocks := st.rawBlocks.set index (f block) }
  | none => st

/-- One frame, with the delta of the chunk it yields. -/
def StreamState.frame (st : StreamState) : Frame → StreamState × Option StreamItem
  | .blockStart index block =>
    let st := { st with
      rawBlocks := st.rawBlocks.set index block.raw
      rawBlockOrder := st.rawBlockOrder ++ [index] }
    match block with
    | .thinking => (st, none)
    | .text => (st, none)
    | .redactedThinking data =>
      (st, some (.choice { redactedThinkingBlock := some (.redactedThinking data) } none))
    | .toolUse id name =>
      let (toolIndex, indexes) := setDefault st.toolCallIndexes index st.toolCallIndexes.entries.length
      ({ st with toolCallIndexes := indexes },
        some (.choice { toolCalls := [{ index := some toolIndex, id := some id, function := some {
          name := some name, arguments := some "" } }] } none))
  | .thinkingDelta index s =>
    (st.modify index (addThinking s), some (.choice { reasoningContent := some s } none))
  | .signatureDelta index s =>
    (st.modify index (addSignature s), some (.choice { reasoningSignature := some s } none))
  | .textDelta index s => (st.modify index (addText s), some (.choice { content := some s } none))
  | .inputJsonDelta index s =>
    let (toolIndex, indexes) := setDefault st.toolCallIndexes index st.toolCallIndexes.entries.length
    ({ st with toolCallIndexes := indexes },
      some (.choice { toolCalls := [{ index := some toolIndex, function := some { arguments := some s } }] } none))
  | .messageDelta stopReason => (st, some (.choice {} (finishReason stopReason)))
  | .other => (st, none)

/-- The state behind some frames. -/
def StreamState.after (st : StreamState) (frames : List Frame) : StreamState :=
  frames.foldl (fun st f => (st.frame f).1) st

/-- The chunks of some frames. -/
def StreamState.chunks (st : StreamState) : List Frame → List StreamItem
  | [] => []
  | f :: frames => (st.frame f).2.toList ++ (st.frame f).1.chunks frames

/-- The last chunk: all blocks in the order of their starts. -/
def StreamState.lastChunk (st : StreamState) : Option StreamItem :=
  if st.rawBlockOrder = [] then none
  else some (.choice { anthropicRawBlocks := some (st.rawBlockOrder.filterMap st.rawBlocks.get?) } none)

/-- `AnthropicProvider.stream`. -/
def stream (frames : List Frame) : List StreamItem :=
  StreamState.chunks {} frames ++ (StreamState.after {} frames).lastChunk.toList

/-- `json.loads(arguments or "{}")`, as its text. -/
def argumentsOr (arguments : String) : String := if arguments = "" then "\x7b\x7d" else arguments

/-- The `tool_use` block of a call. -/
def toolUseBlock (tc : ToolCall) : RawBlock := .toolUse tc.id tc.name (argumentsOr tc.arguments)

/-- `tool_by_id.get(id)`: of calls with one id the last. -/
def toolById (m : ChatMessage) (id : String) : Option ToolCall :=
  m.toolCalls.reverse.find? fun tc => tc.id ≠ "" ∧ tc.id = id

/-- One block under `_blocks_from_raw_content`. -/
def blockFromRaw (m : ChatMessage) (valid : List String) : RawBlock → Option RawBlock
  | .thinking thinking signature => if signature ≠ "" then some (.thinking thinking signature) else none
  | .redactedThinking data => some (.redactedThinking data)
  | .text text => if text ≠ "" then some (.text text) else none
  | .toolUseRef id =>
    match toolById m id with
    | some tc => if tc.id ∈ valid then some (toolUseBlock tc) else none
    | none => none
  | .toolUse id name input =>
    if id = "" ∨ id ∉ valid then none
    else
      match toolById m id with
      | some tc => some (toolUseBlock tc)
      | none => some (.toolUse id name input)

/-- `_blocks_from_raw_content`. -/
def blocksFromRawContent (m : ChatMessage) (valid : List String) : List RawBlock :=
  m.rawContentBlocks.filterMap (blockFromRaw m valid)

/-- The thinking block of the flat fields. -/
def flatThinking (m : ChatMessage) : Option RawBlock :=
  match m.reasoningContent, m.reasoningSignature with
  | some thinking, some signature =>
    if thinking ≠ "" ∧ signature ≠ "" then some (.thinking thinking signature) else none
  | _, _ => none

/-- The text block of a content. -/
def textBlock (content : Option String) : Option RawBlock :=
  match content with
  | some text => if text ≠ "" then some (.text text) else none
  | none => none

/-- The content of an assistant message in a request. Without calls the branches of the source differ in nothing:
thinking, then the redacted blocks, then the text. -/
def assistantContent (valid : List String) (m : ChatMessage) : List RawBlock :=
  if m.rawContentBlocks ≠ [] then blocksFromRawContent m valid
  else
    (flatThinking m).toList ++ m.redactedThinkingBlocks ++ (textBlock m.content).toList ++
      (m.toolCalls.filter fun tc => tc.id ∈ valid).map toolUseBlock

/-- A block of the payload. The content of a result is a text or a list of texts. -/
inductive WireBlock where
  | block (b : RawBlock)
  | toolResult (toolUseId : String) (content : String ⊕ List String) (isError : Bool)
  deriving DecidableEq

/-- An entry of the payload. -/
structure Turn where
  role : Role
  content : List WireBlock
  deriving DecidableEq

/-- `valid_tool_result_ids`. -/
def validToolResultIds (messages : List ChatMessage) : List String :=
  (messages.filter fun m => m.role = .tool ∧ m.toolCallId ≠ "").map ChatMessage.toolCallId

/-- The text blocks of the parts. -/
def partBlocks (m : ChatMessage) : List WireBlock :=
  (m.parts.filter fun text => text ≠ "").map fun text => .block (.text text)

/-- The content of a message of the user. -/
def userContent (m : ChatMessage) : List WireBlock :=
  if partBlocks m ≠ [] then partBlocks m else (textBlock m.content).toList.map .block

/-- The block of a tool message. -/
def resultBlock (m : ChatMessage) : WireBlock :=
  let content := m.content.getD ""
  let texts := m.parts.filter fun text => text ≠ ""
  .toolResult m.toolCallId (if texts = [] then .inl content else .inr texts) (content.startsWith "Error:")

/-- An entry that gathers tool results. -/
def Turn.gathers (t : Turn) : Bool :=
  match t.role, t.content with
  | .user, .toolResult .. :: _ => true
  | _, _ => false

/-- Consecutive results go into one entry. -/
def pushResult (out : List Turn) (b : WireBlock) : List Turn :=
  match out.getLast? with
  | some t =>
    if t.gathers then out.dropLast ++ [{ t with content := t.content ++ [b] }] else out ++ [⟨.user, [b]⟩]
  | none => out ++ [⟨.user, [b]⟩]

/-- An entry, unless it is empty. -/
def pushTurn (out : List Turn) (role : Role) (content : List WireBlock) : List Turn :=
  if content = [] then out else out ++ [⟨role, content⟩]

/-- One message. -/
def splitMessage (valid : List String) (acc : List String × List Turn) (m : ChatMessage) :
    List String × List Turn :=
  match m.role with
  | .system => (acc.1 ++ (m.content.filter fun text => text ≠ "").toList, acc.2)
  | .user => (acc.1, pushTurn acc.2 .user (userContent m))
  | .assistant => (acc.1, pushTurn acc.2 .assistant ((assistantContent valid m).map .block))
  | .tool => (acc.1, pushResult acc.2 (resultBlock m))

/-- A block that may stand in the last entry of a request. -/
def WireBlock.prefill : WireBlock → Bool
  | .block (.thinking ..) => false
  | .block (.redactedThinking _) => false
  | _ => true

/-- The last entry of a request that ends with an answer. -/
def stripPrefill (out : List Turn) : List Turn :=
  match out.getLast? with
  | some t =>
    if t.role = .assistant then pushTurn out.dropLast .assistant (t.content.filter WireBlock.prefill) else out
  | none => out

/-- `_split_messages`. -/
def splitMessages (messages : List ChatMessage) : Option String × List Turn :=
  let (systemParts, out) := messages.foldl (splitMessage (validToolResultIds messages)) ([], [])
  let systemText := "\n\n".intercalate systemParts
  (if systemText = "" then none else some systemText,
    if messages.getLast?.any fun m => m.role = .assistant then stripPrefill out else out)

/-! ## The turns of a request -/

/-- The turns of the model in a payload. -/
def assistantTurns (out : List Turn) : List Turn := out.filter fun t => t.role = .assistant

/-- The turns that stand for some messages. -/
def turnsOf (valid : List String) (messages : List ChatMessage) : List Turn :=
  (messages.filter fun m => m.role = .assistant).flatMap fun m =>
    pushTurn [] .assistant ((assistantContent valid m).map .block)

section
variable {valid : List String} {out : List Turn} {m : ChatMessage} {messages : List ChatMessage}

/-- A turn at the end. -/
lemma pushTurn_eq (out : List Turn) (role : Role) (content : List WireBlock) :
    pushTurn out role content = out ++ pushTurn [] role content := by
  unfold pushTurn
  split
  · exact (List.append_nil out).symm
  · rfl

/-- Turns in a row. -/
lemma assistantTurns_append (out out' : List Turn) :
    assistantTurns (out ++ out') = assistantTurns out ++ assistantTurns out' :=
  List.filter_append ..

/-- A turn that is pushed. -/
lemma assistantTurns_pushTurn {role : Role} {content : List WireBlock} :
    assistantTurns (pushTurn [] role content) =
      if role = .assistant then pushTurn [] .assistant content else [] := by
  by_cases assistant : role = .assistant
  · rw [assistant, if_pos rfl]
    refine List.filter_eq_self.mpr fun t ht => ?_
    unfold pushTurn at ht
    split at ht
    · cases ht
    · rw [List.mem_singleton.mp ht]
      rfl
  · rw [if_neg assistant]
    refine List.filter_eq_nil_iff.mpr fun t ht => ?_
    unfold pushTurn at ht
    split at ht
    · cases ht
    · rw [List.mem_singleton.mp ht]
      simpa using assistant

/-- A result changes no turn of the model. -/
lemma assistantTurns_pushResult (out : List Turn) (b : WireBlock) :
    assistantTurns (pushResult out b) = assistantTurns out := by
  have new : assistantTurns (out ++ [⟨.user, [b]⟩]) = assistantTurns out := by
    rw [assistantTurns_append]
    exact List.append_nil _
  unfold pushResult
  split
  · rename_i t last
    split
    · rename_i gathers
      have user : t.role = .user := by
        unfold Turn.gathers at gathers
        split at gathers
        · assumption
        · cases gathers
      have whole : out = out.dropLast ++ [t] := (List.dropLast_append_getLast? t last).symm
      rw [assistantTurns_append]
      conv_rhs => rw [whole, assistantTurns_append]
      simp [assistantTurns, user]
    · exact new
  · exact new

/-- The turns of the model, message by message. -/
lemma assistantTurns_foldl (valid : List String) (messages : List ChatMessage) (out : List Turn)
    (parts : List String) :
    assistantTurns (messages.foldl (splitMessage valid) (parts, out)).2 =
      assistantTurns out ++ turnsOf valid messages := by
  induction messages generalizing parts out with
  | nil => exact (List.append_nil _).symm
  | cons m messages ih =>
    have skip : m.role ≠ .assistant → turnsOf valid (m :: messages) = turnsOf valid messages := by
      intro other
      rw [turnsOf, List.filter_cons_of_neg (by simpa using other)]
      rfl
    rw [List.foldl_cons]
    cases role : m.role with
    | system =>
      simp only [splitMessage, role]
      rw [ih, skip (by simp [role])]
    | user =>
      simp only [splitMessage, role]
      rw [ih, skip (by simp [role]), pushTurn_eq, assistantTurns_append, assistantTurns_pushTurn,
        if_neg (by simp), List.append_nil]
    | tool =>
      simp only [splitMessage, role]
      rw [ih, skip (by simp [role]), assistantTurns_pushResult]
    | assistant =>
      simp only [splitMessage, role]
      rw [ih, pushTurn_eq, assistantTurns_append, assistantTurns_pushTurn, if_pos rfl, List.append_assoc]
      conv_rhs => rw [turnsOf, List.filter_cons_of_pos (by simp [role]), List.flatMap_cons]
      rfl

/-- Where a request does not end with an answer every answer is sent with its content. -/
theorem assistantTurns_splitMessages (other : ¬ messages.getLast?.any fun m => m.role = .assistant) :
    assistantTurns (splitMessages messages).2 = turnsOf (validToolResultIds messages) messages := by
  have all := assistantTurns_foldl (validToolResultIds messages) messages [] []
  simp only [splitMessages, other]
  exact all

end

end OpenAgentd.Provider
