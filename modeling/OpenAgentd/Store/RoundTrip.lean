import OpenAgentd.Loop.Assemble
import OpenAgentd.Loop.Blocks

/-!
# Storing and reading back

`save_message` for every message of a turn in order, then `deserialize_messages` with `sanitize_tool_pairs`. What
comes back is compared by what a provider sees of a message (`providerView`); the reasoning of an assistant
message takes the way over `extra`.

The reader has its own rule for half-formed tool calls: it parses the arguments, where the assembler lets empty
arguments pass as a call without arguments (`empty_arguments_are_lost`). It also wants ids, and an id only once
behind an assistant message. For everything else the round trip is the identity (`reload_iff`).
-/

namespace OpenAgentd.Store
open OpenAgentd.Lib OpenAgentd.Loop

/-- What a provider sees of a message: the fields of its class that are sent. -/
def providerView (m : ChatMessage) : ChatMessage where
  oid := 0
  role := m.role
  content := m.content
  reasoningContent := if m.role = .assistant then m.reasoningContent else none
  toolCalls := if m.role = .assistant then m.toolCalls else []
  toolCallId := if m.role = .tool then m.toolCallId else ""
  name := if m.role = .tool then m.name else none
  parts := if m.role = .tool ∨ m.role = .user then m.parts else []
  reasoningSignature := if m.role = .assistant then m.reasoningSignature else none
  redactedThinkingBlocks := if m.role = .assistant then m.redactedThinkingBlocks else []
  rawContentBlocks := if m.role = .assistant then m.rawContentBlocks else []
  reasoningItems := if m.role = .assistant then m.reasoningItems else []

/-- `save_message` with its defaults. -/
def saveMessage (tb : Table) (m : ChatMessage) : Table :=
  tb.insert
    { messageRow m false (nextSeq tb.rows) with
      pinned := decide (savedKind m false = .note) && m.extra.hiddenFromSummary }

/-- Saving a list in order. -/
def saveMessages (tb : Table) (ms : List ChatMessage) : Table := ms.foldl saveMessage tb

/-- The rows that saving a list adds, in position order. -/
def savedRows (tb : Table) (ms : List ChatMessage) : List Row :=
  orderByPos ((saveMessages tb ms).rows.drop tb.rows.length)

/-- Saving a list and reading it back. -/
def reload (loads : String → Option Json) (tb : Table) (ms : List ChatMessage) : List ChatMessage :=
  deserializeMessages loads (savedRows tb ms)

/-- An assistant message as the assembler produced it. -/
def Assembled (loads : String → Option Json) (a : ChatMessage) : Prop :=
  ∃ items, { a with oid := 0 } = assemble loads items

/-- The messages a turn can store: messages of the user without parts, and assembled answers, each with one
result for every call. -/
inductive TurnMessages (loads : String → Option Json) : List ChatMessage → Prop where
  | nil :
    TurnMessages loads []
  | user {m ms} :
    m.role = .user →
    m.parts = [] →
    TurnMessages loads ms →
    TurnMessages loads (m :: ms)
  | answer {a ts ms} :
    Assembled loads a →
    (∀ t ∈ ts, t.role = .tool) →
    (ts.map ChatMessage.toolCallId).Perm (a.toolCalls.map ToolCall.id) →
    TurnMessages loads ms →
    TurnMessages loads (a :: (ts ++ ms))

/-- The calls of a message that the reader accepts. -/
structure Acceptable (m : ChatMessage) : Prop where
  arguments : ∀ tc ∈ m.toolCalls, tc.arguments ≠ ""
  named : ∀ tc ∈ m.toolCalls, tc.id ≠ ""
  distinct : (m.toolCalls.map ToolCall.id).Nodup

/-! ## The rows of a list -/

/-- The row under which a list entry is saved. -/
def SavedAs (r : Row) (m : ChatMessage) : Prop :=
  ∃ id seq pinned, r = { messageRow m false seq with id, pinned }

section
variable {loads : String → Option Json} {tb : Table} {ms L : List ChatMessage} {m k a : ChatMessage} {r : Row}

/-- Saving appends one row for each message, in ascending positions. -/
lemma saveMessages_rows (tb : Table) (ms : List ChatMessage) :
    ∃ news, (saveMessages tb ms).rows = tb.rows ++ news ∧ news.Pairwise (fun a b => a.pos < b.pos) ∧
      (∀ k ∈ tb.rows, ∀ r ∈ news, k.seq < r.seq) ∧ List.Forall₂ SavedAs news ms := by
  induction ms generalizing tb with
  | nil => exact ⟨[], (List.append_nil _).symm, .nil, by simp, .nil⟩
  | cons m ms ih =>
    obtain ⟨news, e, asc, above, each⟩ := ih (saveMessage tb m)
    obtain ⟨row, here, seq, saved⟩ : ∃ row, (saveMessage tb m).rows = tb.rows ++ [row] ∧
        row.seq = nextSeq tb.rows ∧ SavedAs row m := ⟨_, rfl, rfl, _, _, _, rfl⟩
    rw [here] at e above
    refine ⟨row :: news, ?_, .cons (fun r hr => ?_) asc, fun k hk r hr => ?_, .cons saved each⟩
    · exact e.trans (List.append_assoc ..)
    · exact Row.pos_lt.mpr (.inl (above row (by simp) r hr))
    · cases List.mem_cons.mp hr with
      | inl e =>
        rw [e, seq]
        exact lt_nextSeq hk
      | inr hr => exact above k (List.mem_append_left _ hk) r hr

/-- Messages are saved one by one. -/
lemma savedRows_savedAs (tb : Table) (ms : List ChatMessage) : List.Forall₂ SavedAs (savedRows tb ms) ms := by
  obtain ⟨news, e, asc, -, each⟩ := saveMessages_rows tb ms
  rw [savedRows, e, List.drop_left, orderByPos, sortOn_eq_self asc]
  exact each

/-- A message whose class fields are stored: a message of the user without parts, a result, or an assembled
answer. -/
def Storable (loads : String → Option Json) (m : ChatMessage) : Prop :=
  m.role = .user ∧ m.parts = [] ∨ m.role = .tool ∨ Assembled loads m

/-- Messages of a turn are storable. -/
lemma TurnMessages.storable (T : TurnMessages loads ms) : ∀ m ∈ ms, Storable loads m := by
  induction T with
  | nil => simp
  | user role parts _ ih =>
    intro m hm
    cases List.mem_cons.mp hm with
    | inl e => exact e ▸ .inl ⟨role, parts⟩
    | inr hm => exact ih m hm
  | answer made tools _ _ ih =>
    intro m hm
    cases List.mem_cons.mp hm with
    | inl e => exact e ▸ .inr (.inr made)
    | inr hm =>
      cases List.mem_append.mp hm with
      | inl ht => exact .inr (.inl (tools m ht))
      | inr hm => exact ih m hm

/-- Empty texts are stored as none. -/
lemma nonEmpty_orNone (s : String) : nonEmpty (orNone s) = orNone s := by
  unfold nonEmpty orNone
  split
  · rfl
  · rename_i some
    simp [some]

/-- A stored message comes back as the provider saw it. -/
lemma providerView_rowMessage (ok : Storable loads m) (h : SavedAs r m) :
    providerView (rowMessage r) = providerView m := by
  obtain ⟨id, seq, pinned, rfl⟩ := h
  rcases ok with ⟨role, parts⟩ | role | ⟨items, made⟩
  · simp [providerView, rowMessage, chatMessageFromRow, messageRow, role, parts]
  · simp [providerView, rowMessage, chatMessageFromRow, messageRow, role]
  · have e : m = { assemble loads items with oid := m.oid } := by rw [← made]
    rw [e]
    simp only [providerView, rowMessage, chatMessageFromRow, messageRow, storedReasoningItems, assemble,
      Assembly.message, if_true, nonEmpty_orNone]
    simp [nonEmpty]

end

/-! ## What the reader keeps -/

section
variable {loads : String → Option Json} {ms L ts : List ChatMessage} {m k a : ChatMessage}
  {expected : List String}

/-- Calls a reader accepts, with one result each, make blocks. -/
lemma TurnMessages.blocks (T : TurnMessages loads ms)
    (ok : ∀ m ∈ ms, m.role = .assistant → Acceptable m) : Blocks Answers ms := by
  induction T with
  | nil => exact .nil
  | user role _ _ ih => exact .single (.inl role) (ih fun m hm => ok m (List.mem_cons_of_mem _ hm))
  | @answer a ts ms made tools all _ ih =>
    have rest : Blocks Answers ms :=
      ih fun m hm => ok m (List.mem_cons_of_mem _ (List.mem_append_right _ hm))
    have role : a.role = .assistant := by
      obtain ⟨items, made⟩ := made
      exact congrArg ChatMessage.role made
    obtain ⟨-, named, distinct⟩ := ok a List.mem_cons_self role
    cases calls : a.toolCalls with
    | nil =>
      rw [calls] at all
      have none : ts = [] := List.map_eq_nil_iff.mp (List.perm_nil.mp all)
      rw [none]
      exact .single (.inr ⟨role, calls⟩) rest
    | cons tc tcs =>
      refine .exchange ⟨role, by simp [calls], named, tools, ?_, fun id => all.mem_iff⟩ rest
      exact all.nodup_iff.mpr distinct

/-- The view shows the calls. -/
lemma view_toolCalls (e : providerView k = providerView m) (role : m.role = .assistant) :
    k.role = .assistant ∧ k.toolCalls = m.toolCalls := by
  have same : k.role = m.role := congrArg (fun v => v.role) e
  have calls := congrArg ChatMessage.toolCalls e
  simp only [providerView, same, role, if_true] at calls
  exact ⟨same.trans role, calls⟩

/-- The view shows the answered call. -/
lemma view_toolCallId (e : providerView k = providerView m) (role : m.role = .tool) :
    k.role = .tool ∧ k.toolCallId = m.toolCallId := by
  have same : k.role = m.role := congrArg (fun v => v.role) e
  have id := congrArg ChatMessage.toolCallId e
  simp only [providerView, same, role, if_true] at id
  exact ⟨same.trans role, id⟩

/-- Results that look the same answer the same. -/
lemma view_toolCallIds {ts' : List ChatMessage} (e : ts'.map providerView = ts.map providerView)
    (tools : ∀ t ∈ ts, t.role = .tool) :
    (∀ t ∈ ts', t.role = .tool) ∧ ts'.map ChatMessage.toolCallId = ts.map ChatMessage.toolCallId := by
  induction ts generalizing ts' with
  | nil =>
    rw [List.map_eq_nil_iff.mp e]
    exact ⟨by simp, rfl⟩
  | cons t ts ih =>
    obtain ⟨t', rest, rfl, here, more⟩ := List.map_eq_cons_iff.mp e
    obtain ⟨tool, id⟩ := view_toolCallId here (tools t List.mem_cons_self)
    obtain ⟨tools', ids⟩ := ih more fun t ht => tools t (List.mem_cons_of_mem _ ht)
    refine ⟨fun k hk => ?_, by rw [List.map_cons, List.map_cons, id, ids]⟩
    cases List.mem_cons.mp hk with
    | inl e => exact e ▸ tool
    | inr hk => exact tools' k hk

/-- A list that looks like blocks is in blocks. -/
lemma blocks_of_view (B : Blocks Answers ms) (e : L.map providerView = ms.map providerView) :
    Blocks Answers L := by
  induction B generalizing L with
  | nil =>
    rw [List.map_eq_nil_iff.mp e]
    exact .nil
  | @single m ms h _ ih =>
    obtain ⟨k, L, rfl, here, more⟩ := List.map_eq_cons_iff.mp e
    refine .single ?_ (ih more)
    cases h with
    | inl user => exact .inl ((congrArg ChatMessage.role here).trans user)
    | inr plain =>
      obtain ⟨role, calls⟩ := view_toolCalls here plain.1
      exact .inr ⟨role, calls.trans plain.2⟩
  | @exchange a ts ms X _ ih =>
    obtain ⟨k, L', rfl, here, more⟩ := List.map_eq_cons_iff.mp e
    rw [List.map_append] at more
    obtain ⟨ts', L, rfl, results, more⟩ := List.map_eq_append_iff.mp more
    obtain ⟨role, calls⟩ := view_toolCalls here X.assistant
    obtain ⟨tools, ids⟩ := view_toolCallIds results X.tools
    refine .exchange ⟨role, ?_, ?_, tools, ?_, fun id => ?_⟩ (ih more)
    · rw [calls]
      exact X.calls
    · rw [calls]
      exact X.named
    · rw [ids]
      exact X.once
    · rw [ids, calls]
      exact X.ids id

/-- Blocks pass the loop. -/
lemma sanitizeLoop_blocks (B : Blocks Answers L) (expected : List String) : sanitizeLoop expected L = L := by
  induction B generalizing expected with
  | nil => rfl
  | @single m ms h _ ih =>
    rw [sanitizeLoop]
    cases h with
    | inl user => simp only [user, ih]
    | inr plain => simp only [plain.1, plain.2, if_true, ih]
  | @exchange a ts ms X _ ih =>
    obtain ⟨expected', e⟩ := sanitizeLoop_exchange X expected ms
    rw [e, ih]

/-- Where all arguments parse the reader drops no call. -/
lemma badToolCallIds_eq_nil (h : ∀ m ∈ L, ∀ tc ∈ m.toolCalls, (loads tc.arguments).isSome) :
    badToolCallIds loads L = [] := by
  rw [badToolCallIds, List.flatMap_eq_nil_iff]
  intro m hm
  rw [List.map_eq_nil_iff, List.filter_eq_nil_iff]
  intro tc htc
  rw [Option.isNone_iff_eq_none]
  exact Option.isSome_iff_ne_none.mp (h m hm tc htc)

/-! ## What comes out of the reader -/

/-- The results at the head of a list. -/
def leading (ms : List ChatMessage) : List ChatMessage := ms.takeWhile fun m => m.role = .tool

/-- The calls of a message that leaves the loop have come in, and a result that leaves it has an id. -/
lemma mem_sanitizeLoop (h : m ∈ sanitizeLoop expected L) :
    (∀ tc ∈ m.toolCalls, ∃ k ∈ L, tc ∈ k.toolCalls) ∧ (m.role = .tool → m.toolCallId ≠ "") := by
  induction L generalizing expected with
  | nil => cases h
  | cons k L ih =>
    have later : ∀ {expected}, m ∈ sanitizeLoop expected L →
        (∀ tc ∈ m.toolCalls, ∃ k' ∈ k :: L, tc ∈ k'.toolCalls) ∧ (m.role = .tool → m.toolCallId ≠ "") := by
      intro expected h
      obtain ⟨calls, named⟩ := ih h
      refine ⟨fun tc htc => ?_, named⟩
      obtain ⟨k', hk', mem⟩ := calls tc htc
      exact ⟨k', List.mem_cons_of_mem _ hk', mem⟩
    have here : ∀ {expected}, k.role ≠ .tool → m ∈ k :: sanitizeLoop expected L →
        (∀ tc ∈ m.toolCalls, ∃ k' ∈ k :: L, tc ∈ k'.toolCalls) ∧ (m.role = .tool → m.toolCallId ≠ "") := by
      intro expected other h
      cases List.mem_cons.mp h with
      | inl e =>
        subst e
        exact ⟨fun tc htc => ⟨m, List.mem_cons_self, htc⟩, fun tool => absurd tool other⟩
      | inr h => exact later h
    rw [sanitizeLoop] at h
    cases role : k.role with
    | user =>
      rw [role] at h
      exact here (by simp [role]) h
    | system =>
      rw [role] at h
      exact here (by simp [role]) h
    | assistant =>
      rw [role] at h
      dsimp only at h
      split at h
      · exact here (by simp [role]) h
      · split at h
        · exact here (by simp [role]) h
        · split at h
          · cases List.mem_cons.mp h with
            | inl e =>
              rw [e]
              exact ⟨by simp, by simp⟩
            | inr h => exact later h
          · exact later h
    | tool =>
      rw [role] at h
      dsimp only at h
      split at h
      · rename_i known
        cases List.mem_cons.mp h with
        | inl e =>
          subst e
          exact ⟨fun tc htc => ⟨m, List.mem_cons_self, htc⟩, fun _ => known.1⟩
        | inr h => exact later h
      · exact later h

/-- The results in front. -/
lemma leading_cons : leading (m :: ms) = if m.role = .tool then m :: leading ms else [] := by
  rw [leading, List.takeWhile_cons]
  by_cases tool : m.role = .tool
  · simp [tool, leading]
  · simp [tool]

/-- The results at the head of what leaves the loop carry expected ids, each once. -/
lemma leading_sanitizeLoop (expected : List String) (L : List ChatMessage) :
    ((leading (sanitizeLoop expected L)).map ChatMessage.toolCallId).Nodup ∧
    ∀ t ∈ leading (sanitizeLoop expected L), t.toolCallId ∈ expected := by
  induction L generalizing expected with
  | nil => simp [sanitizeLoop, leading]
  | cons k L ih =>
    -- a message that is no result ends the head
    have stop : ∀ {m : ChatMessage} {ms : List ChatMessage}, m.role ≠ .tool → leading (m :: ms) = [] := by
      intro m ms other
      rw [leading_cons, if_neg other]
    have fresh : ∀ {expected : List String},
        ((leading (sanitizeLoop [] L)).map ChatMessage.toolCallId).Nodup ∧
          ∀ t ∈ leading (sanitizeLoop [] L), t.toolCallId ∈ expected := by
      intro expected
      obtain ⟨nodup, none⟩ := ih []
      exact ⟨nodup, fun t ht => absurd (none t ht) List.not_mem_nil⟩
    rw [sanitizeLoop]
    cases role : k.role with
    | user => simp [stop (m := k) (by simp [role])]
    | system => simp [stop (m := k) (by simp [role])]
    | assistant =>
      dsimp only
      split
      · simp [stop (m := k) (by simp [role])]
      · split
        · simp [stop (m := k) (by simp [role])]
        · split
          · rw [stop (by simp)]
            simp
          · exact fresh
    | tool =>
      dsimp only
      split
      · rename_i known
        obtain ⟨nodup, rest⟩ := ih (expected.filter fun id => id ≠ k.toolCallId)
        rw [leading_cons, if_pos role, List.map_cons, List.nodup_cons]
        refine ⟨⟨fun again => ?_, nodup⟩, fun t ht => ?_⟩
        · obtain ⟨t, ht, e⟩ := List.mem_map.mp again
          have other := (List.mem_filter.mp (rest t ht)).2
          simp [e] at other
        · cases List.mem_cons.mp ht with
          | inl e => exact e ▸ known.2
          | inr ht => exact (List.mem_filter.mp (rest t ht)).1
      · exact ih expected

/-- Behind every message that leaves the loop the ids of the results are distinct. -/
lemma leading_suffix (h : ms <:+ sanitizeLoop expected L) :
    ((leading ms).map ChatMessage.toolCallId).Nodup := by
  induction L generalizing expected with
  | nil =>
    rw [List.suffix_nil.mp h]
    exact List.nodup_nil
  | cons k L ih =>
    have split_ : ∀ {m : ChatMessage} {expected' : List String}, sanitizeLoop expected (k :: L) =
        m :: sanitizeLoop expected' L → ((leading ms).map ChatMessage.toolCallId).Nodup := by
      intro m expected' e
      cases List.suffix_cons_iff.mp (e ▸ h) with
      | inl whole =>
        rw [whole, ← e]
        exact (leading_sanitizeLoop _ _).1
      | inr later => exact ih later
    have skip : ∀ {expected' : List String}, sanitizeLoop expected (k :: L) = sanitizeLoop expected' L →
        ((leading ms).map ChatMessage.toolCallId).Nodup := fun e => ih (e ▸ h)
    rw [sanitizeLoop] at split_ skip
    cases role : k.role with
    | user => exact split_ (by rw [role])
    | system => exact split_ (by rw [role])
    | assistant =>
      rw [role] at split_ skip
      dsimp only at split_ skip
      split_ifs at split_ skip
      · exact split_ rfl
      · exact split_ rfl
      · exact split_ rfl
      · exact skip rfl
    | tool =>
      rw [role] at split_ skip
      dsimp only at split_ skip
      split_ifs at split_ skip
      · exact split_ rfl
      · exact skip rfl

end

/-! ## The round trip -/

section
variable {loads : String → Option Json} {tb : Table} {ms L : List ChatMessage}

/-- Saved rows read back. -/
lemma map_rowMessage_savedRows (tb : Table) (T : TurnMessages loads ms) :
    ((savedRows tb ms).map rowMessage).map providerView = ms.map providerView := by
  have each := savedRows_savedAs tb ms
  have ok := T.storable
  clear T
  generalize savedRows tb ms = rows at each ⊢
  induction each with
  | nil => rfl
  | cons saved _ ih =>
    rw [List.map_cons, List.map_cons, List.map_cons,
      providerView_rowMessage (ok _ List.mem_cons_self) saved,
      ih fun m hm => ok m (List.mem_cons_of_mem _ hm)]

/-- The reader on the messages of its rows. -/
lemma deserializeMessages_eq {rows : List Row} (e : rows.map rowMessage = L) :
    deserializeMessages loads rows = sanitizeToolMessagePairs
      ((L.map (dropPartialCalls loads)).filter fun m =>
        !(decide (m.role = .tool) && decide (m.toolCallId ∈ badToolCallIds loads L))) := by
  rw [← e]
  rfl

/-- Blocks whose arguments parse pass the reader. -/
lemma deserializeMessages_blocks {rows : List Row} (B : Blocks Answers (rows.map rowMessage))
    (parses : ∀ m ∈ rows.map rowMessage, ∀ tc ∈ m.toolCalls, (loads tc.arguments).isSome) :
    deserializeMessages loads rows = rows.map rowMessage := by
  have whole : (rows.map rowMessage).map (dropPartialCalls loads) = rows.map rowMessage := by
    conv_rhs => rw [← List.map_id (rows.map rowMessage)]
    exact List.map_congr_left fun m hm => dropPartialCalls_eq (parses m hm)
  rw [deserializeMessages_eq rfl, whole, badToolCallIds_eq_nil parses]
  simp only [List.not_mem_nil, decide_false, Bool.and_false, Bool.not_false, List.filter_true]
  exact sanitizeLoop_blocks B []

/-- What the reader returns: calls whose arguments parse, results with ids, and behind every message results
with distinct ids. -/
structure Clean (loads : String → Option Json) (ms : List ChatMessage) : Prop where
  parses : ∀ m ∈ ms, ∀ tc ∈ m.toolCalls, (loads tc.arguments).isSome
  named : ∀ m ∈ ms, m.role = .tool → m.toolCallId ≠ ""
  once : ∀ post, post <:+ ms → ((leading post).map ChatMessage.toolCallId).Nodup

/-- Loaded messages are clean. -/
lemma deserializeMessages_clean (loads : String → Option Json) (rows : List Row) :
    Clean loads (deserializeMessages loads rows) where
  parses := by
    intro m hm tc htc
    obtain ⟨k, hk, mem⟩ := (mem_sanitizeLoop hm).1 tc htc
    obtain ⟨k', -, rfl⟩ := List.mem_map.mp (List.mem_of_mem_filter hk)
    exact (List.mem_filter.mp mem).2
  named := fun m hm => (mem_sanitizeLoop hm).2
  once := fun post h => leading_suffix h

/-- A turn that looks like what the reader returns has acceptable calls. -/
lemma TurnMessages.acceptable (T : TurnMessages loads ms) (empty : loads "" = none) (C : Clean loads L)
    (e : L.map providerView = ms.map providerView) : ∀ m ∈ ms, m.role = .assistant → Acceptable m := by
  induction T generalizing L with
  | nil => simp
  | user user _ _ ih =>
    obtain ⟨k, L, rfl, -, more⟩ := List.map_eq_cons_iff.mp e
    have C' : Clean loads L :=
      ⟨fun m hm => C.parses m (List.mem_cons_of_mem _ hm), fun m hm => C.named m (List.mem_cons_of_mem _ hm),
        fun post h => C.once post (h.trans (List.suffix_cons _ _))⟩
    intro m hm role
    cases List.mem_cons.mp hm with
    | inl e =>
      rw [e, user] at role
      cases role
    | inr hm => exact ih C' more m hm role
  | @answer a ts ms made tools all _ ih =>
    obtain ⟨k, L', rfl, here, more⟩ := List.map_eq_cons_iff.mp e
    rw [List.map_append] at more
    obtain ⟨ts', L, rfl, results, more⟩ := List.map_eq_append_iff.mp more
    have C' : Clean loads L :=
      ⟨fun m hm => C.parses m (List.mem_cons_of_mem _ (List.mem_append_right _ hm)),
        fun m hm => C.named m (List.mem_cons_of_mem _ (List.mem_append_right _ hm)),
        fun post h => C.once post ((h.trans (List.suffix_append _ _)).trans (List.suffix_cons _ _))⟩
    intro m hm role
    cases List.mem_cons.mp hm with
    | inr hm =>
      cases List.mem_append.mp hm with
      | inl ht => cases (tools m ht).symm.trans role
      | inr hm => exact ih C' more m hm role
    | inl e =>
      subst e
      obtain ⟨-, calls⟩ := view_toolCalls here role
      obtain ⟨tools', ids⟩ := view_toolCallIds results tools
      have behind : (leading (ts' ++ L)).map ChatMessage.toolCallId =
          ts'.map ChatMessage.toolCallId ++ (leading L).map ChatMessage.toolCallId := by
        rw [leading, List.takeWhile_append_of_pos fun t ht => by simpa using tools' t ht, List.map_append]
        rfl
      refine ⟨fun tc htc none => ?_, fun tc htc none => ?_, ?_⟩
      · have some := C.parses k List.mem_cons_self tc (calls ▸ htc)
        rw [none, empty] at some
        cases some
      · have mem : tc.id ∈ ts'.map ChatMessage.toolCallId := by
          rw [ids]
          exact all.mem_iff.mpr (List.mem_map_of_mem htc)
        obtain ⟨t, ht, e⟩ := List.mem_map.mp mem
        exact C.named t (List.mem_cons_of_mem _ (List.mem_append_left _ ht)) (tools' t ht) (e.trans none)
      · have nodup := C.once _ (List.suffix_cons k (ts' ++ L))
        rw [behind, ids] at nodup
        exact all.nodup_iff.mp nodup.of_append_left

/-- Storing and reading back: the messages of a turn come back as the provider saw them if and only if every
call has arguments and an id, and the ids of an answer are distinct. -/
theorem reload_iff (empty : loads "" = none) (T : TurnMessages loads ms) :
    (reload loads tb ms).map providerView = ms.map providerView ↔
      ∀ m ∈ ms, m.role = .assistant → Acceptable m := by
  constructor
  · exact T.acceptable empty (deserializeMessages_clean loads _)
  · intro ok
    have e := map_rowMessage_savedRows tb T
    have B : Blocks Answers ((savedRows tb ms).map rowMessage) := blocks_of_view (T.blocks ok) e
    have parses : ∀ m ∈ (savedRows tb ms).map rowMessage, ∀ tc ∈ m.toolCalls, (loads tc.arguments).isSome := by
      intro k hk tc htc
      have role : k.role = .assistant := by
        by_contra other
        obtain ⟨r, -, rfl⟩ := List.mem_map.mp hk
        have other : r.role ≠ .assistant := other
        simp [rowMessage, chatMessageFromRow, other] at htc
      obtain ⟨m, hm, view⟩ := List.mem_map.mp (e ▸ List.mem_map_of_mem hk : providerView k ∈ ms.map providerView)
      obtain ⟨role', calls⟩ := view_toolCalls view role
      have full := (ok m hm role').arguments tc (calls ▸ htc)
      rcases T.storable m hm with ⟨user, -⟩ | tool | ⟨items, made⟩
      · cases user.symm.trans role'
      · cases tool.symm.trans role'
      · have mem : tc ∈ (assemble loads items).toolCalls := by
          rw [← made]
          exact calls ▸ htc
        exact (mem_toolCalls_message mem).2.resolve_left full
    rw [reload, deserializeMessages_blocks B parses]
    exact e

end

/-- A parser that takes every text but the empty one. -/
def parsesText (s : String) : Option Json := if s = "" then none else some .other

/-- No rows are fresh. -/
lemma fresh_nil : ∀ r ∈ ([] : List Row), r.id < 0 := fun _ mem => absurd mem List.not_mem_nil

/-- No rows are distinct. -/
lemma distinct_nil : (([] : List Row).map Row.id).Nodup := List.nodup_nil

/-- A session without rows. -/
def noRows : Table := { rows := [], clock := 0, fresh := fresh_nil, distinct := distinct_nil }

/-- A call of `ls`, in two fragments. -/
def lsItems (arguments : String) : List StreamItem :=
  [.choice { toolCalls := [{ index := some 0, id := some "c1", function := some { name := some "ls" } }] } none,
    .choice { toolCalls := [{ index := some 0, function := some { arguments := some arguments } }] }
      (some "tool_calls")]

/-- The answer with the call and its result. -/
def listing (arguments : String) : List ChatMessage :=
  [assemble parsesText (lsItems arguments),
    { oid := 0, role := .tool, content := some "README.md", toolCallId := "c1", name := some "ls" }]

/-- The listing is a turn. -/
lemma listing_turn {arguments : String} (calls : (assemble parsesText (lsItems arguments)).toolCalls =
    [{ id := "c1", name := "ls", arguments }]) : TurnMessages parsesText (listing arguments) := by
  refine @TurnMessages.answer _ _ [_] [] ⟨lsItems arguments, rfl⟩ (by simp) ?_ .nil
  rw [calls]
  exact .refl _

/-- A listing with arguments comes back. -/
theorem reload_iff_listing :
    (reload parsesText noRows (listing "\x7b\x7d")).map providerView = (listing "\x7b\x7d").map providerView := by
  refine (reload_iff rfl (listing_turn (by decide))).mpr fun m hm role => ?_
  cases List.mem_cons.mp hm with
  | inl e =>
    subst e
    exact ⟨by decide, by decide, by decide⟩
  | inr hm =>
    rw [List.mem_singleton.mp hm] at role
    cases role

/-- A listing without arguments is executed and lost. -/
theorem empty_arguments_are_lost :
    TurnMessages parsesText (listing "") ∧ (assemble parsesText (lsItems "")).toolCalls.length = 1 ∧
      (reload parsesText noRows (listing "")).map providerView ≠ (listing "").map providerView := by
  refine ⟨listing_turn (by decide), by decide, ?_⟩
  have lost : ∀ m ∈ reload parsesText noRows (listing ""), m.role ≠ .tool := by decide
  intro e
  have mem : providerView
      { oid := 0, role := .tool, content := some "README.md", toolCallId := "c1", name := some "ls" } ∈
        (reload parsesText noRows (listing "")).map providerView := by
    rw [e]
    exact List.mem_map_of_mem (List.mem_cons_of_mem _ List.mem_cons_self)
  obtain ⟨k, hk, view⟩ := List.mem_map.mp mem
  exact lost k hk (view_toolCallId view rfl).1

end OpenAgentd.Store
