import OpenAgentd.Store.Deserialize
import OpenAgentd.Store.Revert

/-!
# The history for the model

`get_messages_for_llm` (`app/services/chat_service.py`) reads the derived window and makes messages of its
rows. Tool calls whose arguments do not parse are dropped with their results (`deserialize_messages`), an
assistant message keeps its calls only if all of them are answered directly behind it
(`sanitize_tool_message_pairs`), and attachments become hints (`apply_llm_content_overrides`).

`sanitizeToolMessagePairs_block` is the fact about the second step: an exchange whose results stand directly
behind its calls is kept, whatever is around it.
-/

namespace OpenAgentd.Store
open OpenAgentd.Lib

/-- `_attachment_hint_parts`. -/
def attachmentHintParts (message : String) (attachments : List Attachment) : List String :=
  attachments.map (fun att =>
    let category := att.category.getD "file"
    let originalName := att.originalName.getD (att.filename.getD "file")
    let filename := att.filename.getD ""
    let pathHint := if filename ≠ "" then "./uploads/" ++ filename else originalName
    "[Attached " ++ category ++ ": " ++ originalName ++ " — available at " ++ pathHint ++ "]") ++
  [message]

/-- The tool calls of a message after those that do not parse are dropped. -/
def dropPartialCalls (loads : String → Option Json) (m : ChatMessage) : ChatMessage :=
  { m with toolCalls := m.toolCalls.filter fun tc => (loads tc.arguments).isSome }

/-- `bad_tool_call_ids`. -/
def badToolCallIds (loads : String → Option Json) (messages : List ChatMessage) : List String :=
  messages.flatMap fun m =>
    (m.toolCalls.filter fun tc => (loads tc.arguments).isNone).map ToolCall.id

/-- The ids of the tool messages at the head of a list. -/
def followingToolIds : List ChatMessage → List String
  | [] => []
  | m :: ms =>
    if m.role = .tool then
      if m.toolCallId ≠ "" then m.toolCallId :: followingToolIds ms else followingToolIds ms
    else []

/-- The loop of `sanitize_tool_message_pairs`, with `expected_tool_ids`. -/
def sanitizeLoop : List String → List ChatMessage → List ChatMessage
  | _, [] => []
  | expected, m :: ms =>
    match m.role with
    | .assistant =>
      if m.toolCalls = [] then m :: sanitizeLoop [] ms
      else
        let toolCallIds := (m.toolCalls.map ToolCall.id).filter (fun id => id ≠ "")
        if toolCallIds ≠ [] ∧ ∀ id ∈ toolCallIds, id ∈ followingToolIds ms then
          m :: sanitizeLoop toolCallIds ms
        else if m.content.any (fun c => c ≠ "") then { m with toolCalls := [] } :: sanitizeLoop [] ms
        else sanitizeLoop [] ms
    | .tool =>
      if m.toolCallId ≠ "" ∧ m.toolCallId ∈ expected then
        m :: sanitizeLoop (expected.filter fun id => id ≠ m.toolCallId) ms
      else sanitizeLoop expected ms
    | _ => m :: sanitizeLoop [] ms

/-- `sanitize_tool_message_pairs`. -/
def sanitizeToolMessagePairs (messages : List ChatMessage) : List ChatMessage := sanitizeLoop [] messages

/-- The message of a row, as a new object named by the row. -/
def rowMessage (r : Row) : ChatMessage := chatMessageFromRow r.id r

/-- `deserialize_messages` with `sanitize_tool_pairs`. -/
def deserializeMessages (loads : String → Option Json) (rows : List Row) : List ChatMessage :=
  let result := rows.map rowMessage
  let bad := badToolCallIds loads result
  sanitizeToolMessagePairs <| (result.map (dropPartialCalls loads)).filter fun m =>
    !(decide (m.role = .tool) && decide (m.toolCallId ∈ bad))

/-- One message under `apply_llm_content_overrides`. -/
def llmContentOverride (m : ChatMessage) : Option ChatMessage :=
  if m.role = .user then
    if m.extra.attachmentForMessageId.isSome ∧ m.extra.mentionContext = false then none
    else if m.extra.attachments ≠ [] then
      some { m with parts := attachmentHintParts (m.content.getD "") m.extra.attachments }
    else some m
  else some m

/-- `apply_llm_content_overrides`. -/
def applyLlmContentOverrides (messages : List ChatMessage) : List ChatMessage :=
  messages.filterMap llmContentOverride

/-- `get_messages_for_llm`. -/
def getMessagesForLlm (loads : String → Option Json) (s : ChatSession) : List ChatMessage :=
  applyLlmContentOverrides <|
    deserializeMessages loads (llmWindowRows s.table.rows (revertBoundary s) true)

/-- The results `ts` answer the tool calls of `a`, each once. -/
structure Answers (a : ChatMessage) (ts : List ChatMessage) : Prop where
  assistant : a.role = .assistant
  calls : a.toolCalls ≠ []
  named : ∀ tc ∈ a.toolCalls, tc.id ≠ ""
  tools : ∀ t ∈ ts, t.role = .tool
  once : (ts.map ChatMessage.toolCallId).Nodup
  ids : ∀ id, id ∈ ts.map ChatMessage.toolCallId ↔ id ∈ a.toolCalls.map ToolCall.id

section
variable {a : ChatMessage} {ts : List ChatMessage}

/-- Whatever is before a suffix, the loop reaches it. -/
lemma sanitizeLoop_append (expected : List String) (pre post : List ChatMessage) :
    ∃ pre' expected', sanitizeLoop expected (pre ++ post) = pre' ++ sanitizeLoop expected' post := by
  induction pre generalizing expected with
  | nil => exact ⟨[], expected, rfl⟩
  | cons m pre ih =>
    have step : ∀ (expected : List String) (ms : List ChatMessage), ∃ pre' expected',
        ms ++ sanitizeLoop expected (pre ++ post) = pre' ++ sanitizeLoop expected' post := by
      intro expected ms
      obtain ⟨pre', expected', e⟩ := ih expected
      exact ⟨ms ++ pre', expected', by rw [e, List.append_assoc]⟩
    rw [List.cons_append, sanitizeLoop]
    cases m.role with
    | assistant =>
      dsimp only
      split
      · exact step [] [m]
      · split
        · exact step _ [m]
        · split
          · exact step [] [_]
          · exact step [] []
    | tool =>
      dsimp only
      split
      · exact step _ [m]
      · exact step expected []
    | user => exact step [] [m]
    | system => exact step [] [m]

/-- The tool messages at the head of a list are found. -/
lemma followingToolIds_append (post : List ChatMessage) (tools : ∀ t ∈ ts, t.role = .tool)
    (named : ∀ t ∈ ts, t.toolCallId ≠ "") :
    followingToolIds (ts ++ post) = ts.map ChatMessage.toolCallId ++ followingToolIds post := by
  induction ts with
  | nil => rfl
  | cons t ts ih =>
    rw [List.cons_append, followingToolIds, if_pos (tools t List.mem_cons_self),
      if_pos (named t List.mem_cons_self),
      ih (fun k hk => tools k (List.mem_cons_of_mem _ hk))
        (fun k hk => named k (List.mem_cons_of_mem _ hk))]
    rfl

/-- Results that are expected are kept. -/
lemma sanitizeLoop_results (expected : List String) (post : List ChatMessage)
    (tools : ∀ t ∈ ts, t.role = .tool) (named : ∀ t ∈ ts, t.toolCallId ≠ "")
    (once : (ts.map ChatMessage.toolCallId).Nodup) (exp : ∀ t ∈ ts, t.toolCallId ∈ expected) :
    ∃ expected', sanitizeLoop expected (ts ++ post) = ts ++ sanitizeLoop expected' post := by
  induction ts generalizing expected with
  | nil => exact ⟨expected, rfl⟩
  | cons t ts ih =>
    rw [List.map_cons, List.nodup_cons] at once
    obtain ⟨expected', e⟩ := ih (expected.filter fun id => id ≠ t.toolCallId)
      (fun k hk => tools k (List.mem_cons_of_mem _ hk))
      (fun k hk => named k (List.mem_cons_of_mem _ hk)) once.2 (by
        intro k hk
        refine List.mem_filter.mpr ⟨exp k (List.mem_cons_of_mem _ hk), ?_⟩
        have ne : k.toolCallId ≠ t.toolCallId := by
          intro e
          exact once.1 (e ▸ List.mem_map_of_mem hk)
        simpa using ne)
    refine ⟨expected', ?_⟩
    have here : t.toolCallId ≠ "" ∧ t.toolCallId ∈ expected :=
      ⟨named t List.mem_cons_self, exp t List.mem_cons_self⟩
    rw [List.cons_append, sanitizeLoop, tools t List.mem_cons_self]
    simp only [if_pos here, e, List.cons_append]

/-- The loop keeps an exchange whose results stand directly behind its calls. -/
lemma sanitizeLoop_exchange (ex : Answers a ts) (expected : List String) (post : List ChatMessage) :
    ∃ expected', sanitizeLoop expected (a :: (ts ++ post)) = a :: (ts ++ sanitizeLoop expected' post) := by
  have named : ∀ t ∈ ts, t.toolCallId ≠ "" := by
    intro t ht
    obtain ⟨tc, htc, e⟩ := List.mem_map.mp ((ex.ids _).mp (List.mem_map_of_mem ht))
    rw [← e]
    exact ex.named tc htc
  have all : (a.toolCalls.map ToolCall.id).filter (fun id => id ≠ "") = a.toolCalls.map ToolCall.id := by
    rw [List.filter_eq_self]
    intro id hid
    obtain ⟨tc, htc, rfl⟩ := List.mem_map.mp hid
    simpa using ex.named tc htc
  have answered : a.toolCalls.map ToolCall.id ≠ [] ∧
      ∀ id ∈ a.toolCalls.map ToolCall.id, id ∈ followingToolIds (ts ++ post) := by
    refine ⟨by simpa using ex.calls, ?_⟩
    intro id hid
    rw [followingToolIds_append post ex.tools named]
    exact List.mem_append_left _ ((ex.ids id).mpr hid)
  obtain ⟨expected', e'⟩ := sanitizeLoop_results (a.toolCalls.map ToolCall.id) post ex.tools
    named ex.once (fun t ht => (ex.ids _).mp (List.mem_map_of_mem ht))
  refine ⟨expected', ?_⟩
  rw [sanitizeLoop, ex.assistant]
  simp only [if_neg ex.calls, all, if_pos answered, e']

/-- An exchange whose results stand directly behind its calls is kept. -/
theorem sanitizeToolMessagePairs_block (ex : Answers a ts) (pre post : List ChatMessage) :
    ∃ pre' post', sanitizeToolMessagePairs (pre ++ a :: (ts ++ post)) = pre' ++ a :: (ts ++ post') := by
  obtain ⟨pre', expected, e⟩ := sanitizeLoop_append [] pre (a :: (ts ++ post))
  obtain ⟨expected', e'⟩ := sanitizeLoop_exchange ex expected post
  exact ⟨pre', sanitizeLoop expected' post, by rw [sanitizeToolMessagePairs, e, e']⟩

end

section
variable {loads : String → Option Json} {a : Row} {ts : List Row}

/-- A message whose calls parse is left alone. -/
lemma dropPartialCalls_eq {m : ChatMessage} (h : ∀ tc ∈ m.toolCalls, (loads tc.arguments).isSome) :
    dropPartialCalls loads m = m := by
  have e : m.toolCalls.filter (fun tc => (loads tc.arguments).isSome) = m.toolCalls := by
    rw [List.filter_eq_self]
    exact h
  rw [dropPartialCalls, e]

/-- An exchange that stands in one block of the window is in the history for the model. -/
theorem deserializeMessages_block (loads : String → Option Json)
    (ex : Answers (rowMessage a) (ts.map rowMessage)) (pre post : List Row) (parses : ∀ r ∈ pre ++ a :: (ts ++ post), ∀ tc ∈ (rowMessage r).toolCalls,
      tc.id ∈ (rowMessage a).toolCalls.map ToolCall.id → (loads tc.arguments).isSome) :
    ∃ pre' post', applyLlmContentOverrides (deserializeMessages loads (pre ++ a :: (ts ++ post))) =
      pre' ++ rowMessage a :: (ts.map rowMessage ++ post') := by
  have good : ∀ id ∈ (rowMessage a).toolCalls.map ToolCall.id,
      id ∉ badToolCallIds loads ((pre ++ a :: (ts ++ post)).map rowMessage) := by
    intro id hid bad
    obtain ⟨m, hm, h⟩ := List.mem_flatMap.mp bad
    obtain ⟨r, hr, rfl⟩ := List.mem_map.mp hm
    obtain ⟨tc, htc, rfl⟩ := List.mem_map.mp h
    obtain ⟨htc, none⟩ := List.mem_filter.mp htc
    have some := parses r hr tc htc hid
    rw [Option.isSome_iff_ne_none] at some
    exact some (Option.isNone_iff_eq_none.mp none)
  have keep : ∀ q : ChatMessage → Bool,
      q (rowMessage a) = true → (∀ t ∈ ts, q (rowMessage t) = true) →
      (((pre ++ a :: (ts ++ post)).map rowMessage).map (dropPartialCalls loads)).filter q =
        ((pre.map rowMessage).map (dropPartialCalls loads)).filter q ++ rowMessage a ::
          (ts.map rowMessage ++ ((post.map rowMessage).map (dropPartialCalls loads)).filter q) := by
    intro q ha ht
    have tools : (ts.map rowMessage).map (dropPartialCalls loads) = ts.map rowMessage := by
      conv_rhs => rw [← List.map_id (ts.map rowMessage)]
      refine List.map_congr_left fun t h => dropPartialCalls_eq ?_
      obtain ⟨r, -, rfl⟩ := List.mem_map.mp h
      have role := ex.tools _ h
      intro tc htc
      unfold rowMessage chatMessageFromRow at htc role
      dsimp only at htc role
      rw [role] at htc
      simp at htc
    have calls : dropPartialCalls loads (rowMessage a) = rowMessage a :=
      dropPartialCalls_eq fun tc h => parses a (by simp) tc h (List.mem_map_of_mem h)
    have results : (ts.map rowMessage).filter q = ts.map rowMessage := by
      rw [List.filter_eq_self]
      intro t h
      obtain ⟨r, hr, rfl⟩ := List.mem_map.mp h
      exact ht r hr
    simp only [List.map_append, List.map_cons, List.filter_append, calls, tools, results,
      List.filter_cons_of_pos ha]
  have role : (rowMessage a).role ≠ .tool := by
    rw [ex.assistant]
    exact nofun
  rw [deserializeMessages, keep]
  · obtain ⟨pre', post', e⟩ := sanitizeToolMessagePairs_block ex
      ((((pre.map rowMessage).map (dropPartialCalls loads)).filter fun m =>
        !(decide (m.role = .tool) && decide (m.toolCallId ∈
          badToolCallIds loads ((pre ++ a :: (ts ++ post)).map rowMessage)))))
      ((((post.map rowMessage).map (dropPartialCalls loads)).filter fun m =>
        !(decide (m.role = .tool) && decide (m.toolCallId ∈
          badToolCallIds loads ((pre ++ a :: (ts ++ post)).map rowMessage)))))
    refine ⟨applyLlmContentOverrides pre', applyLlmContentOverrides post', ?_⟩
    have tools : applyLlmContentOverrides (ts.map rowMessage) = ts.map rowMessage := by
      rw [applyLlmContentOverrides, ← List.filterMap_some (l := ts.map rowMessage), List.filterMap_filterMap]
      refine List.filterMap_congr fun t h => ?_
      simp [llmContentOverride, ex.tools t h]
    have calls : llmContentOverride (rowMessage a) = some (rowMessage a) := by
      simp [llmContentOverride, ex.assistant]
    rw [e, applyLlmContentOverrides, List.filterMap_append, List.filterMap_cons_some calls,
      List.filterMap_append]
    rw [applyLlmContentOverrides] at tools
    rw [tools]
    rfl
  · simp [role]
  · intro t ht
    have mem := (ex.ids _).mp (List.mem_map_of_mem (List.mem_map_of_mem ht))
    have out := good _ mem
    simp only [out, decide_false, Bool.and_false, Bool.not_false]

end

section
variable {a m : ChatMessage} {ts ms : List ChatMessage} {r : Row}

/-- A row stores its message. -/
lemma stored_rowMessage (h : Stores r m) : stored (rowMessage r) = stored m :=
  congrArg (fun k : ChatMessage => { k with dbId := none }) h

/-- Rows store their messages. -/
lemma stored_rowMessages {ks : List Row} (h : List.Forall₂ Stores ks ms) :
    (ks.map rowMessage).map stored = ms.map stored := by
  induction h with
  | nil => rfl
  | cons hs _ ih => rw [List.map_cons, List.map_cons, List.map_cons, stored_rowMessage hs, ih]

/-- The role is stored. -/
lemma stored_role (m : ChatMessage) : (stored m).role = m.role := rfl

/-- What is stored of an exchange is an exchange. -/
lemma Answers.of_stored {a' : ChatMessage} {ts' : List ChatMessage} (ex : Answers a ts)
    (calls : stored a' = stored a) (results : ts'.map stored = ts.map stored) : Answers a' ts' := by
  have role : a'.role = .assistant := by
    rw [← stored_role a', calls]
    exact ex.assistant
  have toolCalls : a'.toolCalls = a.toolCalls := by
    have h := congrArg ChatMessage.toolCalls calls
    simpa [stored, body, role, ex.assistant] using h
  have tools : ∀ t ∈ ts', t.role = .tool := by
    intro t ht
    have mem : stored t ∈ ts.map stored := by
      rw [← results]
      exact List.mem_map_of_mem ht
    obtain ⟨t', ht', e⟩ := List.mem_map.mp mem
    rw [← stored_role t, ← e]
    exact ex.tools t' ht'
  have ofTool : ∀ l : List ChatMessage, (∀ t ∈ l, t.role = .tool) →
      l.map ChatMessage.toolCallId = (l.map stored).map ChatMessage.toolCallId := by
    intro l h
    rw [List.map_map]
    refine List.map_congr_left fun t ht => ?_
    simp [stored, body, h t ht]
  have ids : ts'.map ChatMessage.toolCallId = ts.map ChatMessage.toolCallId := by
    rw [ofTool ts' tools, results, ← ofTool ts ex.tools]
  refine ⟨role, ?_, ?_, tools, ?_, ?_⟩
  · rw [toolCalls]
    exact ex.calls
  · rw [toolCalls]
    exact ex.named
  · rw [ids]
    exact ex.once
  · rw [ids, toolCalls]
    exact ex.ids

end

end OpenAgentd.Store
