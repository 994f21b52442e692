import OpenAgentd.Store.Kept
import OpenAgentd.Store.Redo

/-!
# Healing interrupted exchanges

`heal_orphaned_tool_calls` (`app/services/chat_service.py`) inserts a stub for every call of the window that no tool
row of the window answers. It looks for the answers by id in the whole window, while the reader wants them directly
behind the calls. `heals_iff` says for which windows the two agree: a stub stands behind its row if there is room for
it (`Room`), and it is there at all if no other row has its id.
-/

namespace OpenAgentd.Store
open OpenAgentd.Lib

/-- `_INTERRUPTED_TOOL_RESULT`. -/
def interruptedToolResult : String := "Tool execution was interrupted before a result could be recorded."

/-- The stub of a tool call. -/
def stubMessage (tc : ToolCall) : ChatMessage where
  oid := 0
  role := .tool
  content := some interruptedToolResult
  toolCallId := tc.id
  name := some tc.name

/-- `upper`: the next `seq` that is taken, or some room behind the last one. -/
def upperSeq (rows : List Row) (seq : Nat) : Nat :=
  ((rows.map Row.seq).filter fun n => seq < n).min?.getD (seq + 2 * seqStep)

/-- One round of the inner loop of `heal_orphaned_tool_calls`. -/
def saveStub (upper : Nat) (st : Nat × Table) (tc : ToolCall) : Nat × Table :=
  let anchorSeq := max (seqBetween st.1 upper) st.1
  (anchorSeq, st.2.insert (messageRow (stubMessage tc) false anchorSeq))

/-- One round of the outer loop of `heal_orphaned_tool_calls`. -/
def healRow (tb : Table) (x : Row × List ToolCall) : Table :=
  (x.2.foldl (saveStub (upperSeq tb.rows x.1.seq)) (x.1.seq, tb)).2

/-- `llm_tool_pair_stmt`, narrowed to the rows of exchanges. -/
def toolPairRows (s : ChatSession) : List Row :=
  (llmWindowRows s.table.rows (revertBoundary s) false).filter fun r =>
    r.role = .assistant && r.toolCalls ≠ [] || r.role = .tool && r.toolCallId.isSome

/-- `expected_ids`. -/
def expectedIds (rows : List Row) : List String :=
  rows.flatMap fun r => (r.toolCalls.map ToolCall.id).filter fun id => id ≠ ""

/-- `matched_ids`. -/
def matchedIds (rows : List Row) : List String :=
  (rows.filterMap Row.toolCallId).filter fun id => id ∈ expectedIds rows

/-- `missing_by_row`. -/
def missingByRow (rows : List Row) : List (Row × List ToolCall) :=
  (rows.filter fun r => r.toolCalls ≠ []).filterMap fun r =>
    let missing := r.toolCalls.filter fun tc => tc.id ∉ matchedIds rows
    if missing = [] then none else some (r, missing)

/-- `heal_orphaned_tool_calls`, with the number of rows it inserted. -/
def healOrphanedToolCalls (s : ChatSession) : Nat × ChatSession :=
  let rows := toolPairRows s
  if expectedIds rows = [] then (0, s)
  else
    let missing := missingByRow rows
    ((missing.flatMap fun x => x.2).length, { s with table := missing.foldl healRow s.table })

/-! ## What healing is for -/

/-- The tool rows at the head of a list. -/
def run (rows : List Row) : List Row := rows.takeWhile fun r => r.role = .tool

/-- What comes behind them. -/
def afterRun (rows : List Row) : List Row := rows.dropWhile fun r => r.role = .tool

/-- The calls of `a` without a result directly behind it. -/
def missingCalls (a : Row) (rest : List Row) : List ToolCall :=
  a.toolCalls.filter fun tc => some tc.id ∉ (run rest).map Row.toolCallId

/-- The number of missing results in a window. -/
def missingCount : List Row → Nat
  | [] => 0
  | r :: rest => ((missingCalls r rest).map ToolCall.id).dedup.length + missingCount rest

/-- What the writers of rows keep to: a row has what its role has, only messages of the user are queued, no result is
a summary. -/
structure Written (rows : List Row) : Prop where
  calls : ∀ r ∈ rows, r.toolCalls ≠ [] → r.role = .assistant
  results : ∀ r ∈ rows, r.toolCallId.isSome → r.role = .tool
  queued : ∀ r ∈ rows, r.kind = .queued → r.role = .user
  summaries : ∀ r ∈ rows, r.kind = .summary → r.role ≠ .tool

/-- A window as interruptions leave it: each result stands in the run behind the answer with its call, all calls have
ids, and a staged boundary was made before. -/
structure Interrupted (s : ChatSession) : Prop where
  written : Written s.table.rows
  staged : ∀ v, s.revert = some v → ∀ id, v.messageId = some id → id < s.table.clock
  named : ∀ r ∈ derivedWindow s, ∀ tc ∈ r.toolCalls, tc.id ≠ ""
  placed : ∀ pre t post, derivedWindow s = pre ++ t :: post → t.role = .tool →
    ∃ front a results, pre = front ++ a :: results ∧ a.role = .assistant ∧ (∀ k ∈ results, k.role = .tool) ∧
      ∃ tc ∈ a.toolCalls, t.toolCallId = some tc.id

/-- The exchanges of a window are complete after healing, and nothing else is changed. -/
structure Completed (loads : String → Option Json) (s : ChatSession) : Prop where
  -- the rows that were there are in the window as before
  order : (derivedWindow (healOrphanedToolCalls s).2).filter (fun r => r ∈ s.table.rows) = derivedWindow s
  -- behind each answer come its old results and one stub for each that was missing, for the model too
  exchange : ∀ pre a rest, derivedWindow s = pre ++ a :: rest → a.toolCalls ≠ [] →
    ∃ pre' results post', derivedWindow (healOrphanedToolCalls s).2 = pre' ++ a :: (results ++ post') ∧
      (∀ t ∈ results, t.role = .tool) ∧
      results.filter (fun r => r ∈ s.table.rows) = run rest ∧
      (∀ t ∈ results, t ∈ s.table.rows ∨ t.content = some interruptedToolResult) ∧
      (∀ tc ∈ a.toolCalls, (results.map Row.toolCallId).count (some tc.id) = 1) ∧
      ∃ front back, getMessagesForLlm loads (healOrphanedToolCalls s).2 =
        front ++ rowMessage a :: (results.map rowMessage ++ back)
  count : (healOrphanedToolCalls s).1 = missingCount (derivedWindow s)
  again : healOrphanedToolCalls (healOrphanedToolCalls s).2 = (0, (healOrphanedToolCalls s).2)

/-- There is room for stubs behind `a`: it is not below the summary, and what comes behind its results and the staged
boundary have a greater `seq`. -/
structure Room (s : ChatSession) (a : Row) (rest : List Row) : Prop where
  distinct : ((missingCalls a rest).map ToolCall.id).Nodup
  summary : ∀ k, getActiveSummary s.table.rows (revertBoundary s) = some k → k.pos ≤ a.pos
  behind : ∀ k ∈ afterRun rest, a.seq < k.seq
  boundary : ∀ b, revertBoundary s = some b → a.seq < b.seq

/-- The answer `a` can be healed in front of `rest`. -/
structure HealsAt (loads : String → Option Json) (s : ChatSession) (a : Row) (rest : List Row) : Prop where
  parses : ∀ tc ∈ a.toolCalls, (loads tc.arguments).isSome
  once : ((run rest).map Row.toolCallId).Nodup
  elsewhere : ∀ tc ∈ missingCalls a rest, ∀ t ∈ derivedWindow s, t.toolCallId ≠ some tc.id
  room : missingCalls a rest ≠ [] → Room s a rest

/-- Every answer of the window can be healed. -/
def Healable (loads : String → Option Json) (s : ChatSession) : Prop :=
  ∀ pre a rest, derivedWindow s = pre ++ a :: rest → a.toolCalls ≠ [] → HealsAt loads s a rest

/-! ## The stubs -/

/-- A stub for `tc` behind `a`, in a table that had `rows` and a clock at `clock`. -/
structure StubFor (rows : List Row) (clock : Nat) (a : Row) (tc : ToolCall) (g : Row) : Prop where
  role : g.role = .tool
  kind : g.kind = .chat
  pinned : g.pinned = false
  calls : g.toolCalls = []
  id : g.toolCallId = some tc.id
  content : g.content = some interruptedToolResult
  late : clock ≤ g.id
  above : a.seq ≤ g.seq
  below : ∀ r ∈ rows, a.seq < r.seq → g.seq < r.seq

section
variable {rows : List Row} {tb tb' : Table} {a r : Row} {tc : ToolCall} {tcs : List ToolCall} {n upper seq : Nat}

/-- The bound is above. -/
lemma lt_upperSeq (rows : List Row) (seq : Nat) : seq < upperSeq rows seq := by
  unfold upperSeq
  cases h : ((rows.map Row.seq).filter fun n => seq < n).min? with
  | none =>
    show seq < seq + 2 * seqStep
    unfold seqStep
    omega
  | some n => simpa using (List.mem_filter.mp (List.min?_mem h)).2

/-- No row lies below the bound. -/
lemma upperSeq_le (hr : r ∈ rows) (lt : seq < r.seq) : upperSeq rows seq ≤ r.seq := by
  have mem : r.seq ∈ (rows.map Row.seq).filter fun n => seq < n :=
    List.mem_filter.mpr ⟨List.mem_map_of_mem hr, by simpa using lt⟩
  unfold upperSeq
  cases h : ((rows.map Row.seq).filter fun n => seq < n).min? with
  | none =>
    rw [List.min?_eq_none_iff.mp h] at mem
    cases mem
  | some n => exact (List.min?_eq_some_iff.mp h).2 _ mem

/-- The inner loop. -/
lemma saveStub_spec (tb : Table) (tcs : List ToolCall) (between : seq < upper) (late : n ≤ tb.clock)
    (le : a.seq ≤ seq) (below : ∀ r ∈ rows, a.seq < r.seq → upper ≤ r.seq) :
    ∃ stubs, (tcs.foldl (saveStub upper) (seq, tb)).2.rows = tb.rows ++ stubs ∧
      tb.clock ≤ (tcs.foldl (saveStub upper) (seq, tb)).2.clock ∧
      List.Forall₂ (StubFor rows n a) tcs stubs := by
  induction tcs generalizing seq tb with
  | nil => exact ⟨[], by simp, le_rfl, .nil⟩
  | cons tc tcs ih =>
    set anchor := max (seqBetween seq upper) seq with ha
    have lower : seq ≤ anchor := le_max_right _ _
    have higher : anchor < upper := max_lt (seqBetween_lt between) between
    set stub := messageRow (stubMessage tc) false anchor with hs
    obtain ⟨stubs, e, clock, all⟩ := ih (tb.insert stub) higher (late.trans (Nat.le_succ _)) (le.trans lower)
    refine ⟨{ stub with id := tb.clock } :: stubs, ?_, ?_, .cons ?_ all⟩
    · rw [List.foldl_cons]
      show (tcs.foldl (saveStub upper) (anchor, tb.insert stub)).2.rows = _
      rw [e, Table.insert_rows, List.append_assoc]
      rfl
    · exact (Nat.le_succ _).trans clock
    · exact ⟨rfl, rfl, rfl, rfl, rfl, rfl, late, le.trans lower, fun r hr lt => higher.trans_le (below r hr lt)⟩

/-- A stub with the row it is for. -/
abbrev Stub := Row × Row

/-- What the outer loop inserts for `l`. -/
structure Inserted (rows : List Row) (clock : Nat) (l : List (Row × List ToolCall)) (stubs : List Stub) : Prop where
  each : ∀ g ∈ stubs, ∃ x ∈ l, g.1 = x.1 ∧ ∃ tc ∈ x.2, StubFor rows clock x.1 tc g.2
  all : ∀ x ∈ l, ((stubs.filter fun g => g.1 = x.1).map fun g => g.2.toolCallId) = x.2.map fun tc => some tc.id

variable {l : List (Row × List ToolCall)}

/-- Stubs answer the calls one by one. -/
lemma forall₂_stub_ids {stubs : List Row} (h : List.Forall₂ (StubFor rows n a) tcs stubs) :
    stubs.map Row.toolCallId = tcs.map fun tc => some tc.id := by
  induction h with
  | nil => rfl
  | cons g _ ih => rw [List.map_cons, List.map_cons, g.id, ih]

/-- The outer loop. -/
lemma healRow_spec (distinct : (l.map Prod.fst).Nodup) (sub : rows ⊆ tb.rows) (late : n ≤ tb.clock) :
    ∃ stubs, (l.foldl healRow tb).rows = tb.rows ++ stubs.map Prod.snd ∧ Inserted rows n l stubs := by
  induction l generalizing tb with
  | nil => exact ⟨[], by simp, ⟨by simp, by simp⟩⟩
  | cons x l ih =>
    obtain ⟨fresh, distinct⟩ := List.nodup_cons.mp distinct
    obtain ⟨here, e, clock, each⟩ := saveStub_spec tb x.2 (lt_upperSeq tb.rows x.1.seq) late
      (le_refl x.1.seq) fun r hr lt => upperSeq_le (sub hr) lt
    have e : (healRow tb x).rows = tb.rows ++ here := e
    obtain ⟨stubs, e', I⟩ := @ih (healRow tb x) distinct
      (fun r hr => e ▸ List.mem_append_left _ (sub hr)) (late.trans clock)
    refine ⟨here.map (fun g => (x.1, g)) ++ stubs, ?_, ?_, ?_⟩
    · rw [List.foldl_cons, e', e, List.append_assoc, List.map_append, List.map_map]
      simp [Function.comp_def]
    · intro g hg
      cases List.mem_append.mp hg with
      | inl new =>
        obtain ⟨k, hk, rfl⟩ := List.mem_map.mp new
        obtain ⟨tc, htc, is⟩ := forall₂_left each hk
        exact ⟨x, List.mem_cons_self, rfl, tc, htc, is⟩
      | inr later =>
        obtain ⟨y, hy, e, is⟩ := I.each g later
        exact ⟨y, List.mem_cons_of_mem _ hy, e, is⟩
    · intro y hy
      rw [List.filter_append, List.map_append]
      cases List.mem_cons.mp hy with
      | inl same =>
        subst same
        have none : stubs.filter (fun g => g.1 = y.1) = [] := by
          rw [List.filter_eq_nil_iff]
          intro g hg is
          obtain ⟨z, hz, e, -⟩ := I.each g hg
          have is : g.1 = y.1 := by simpa using is
          exact fresh (is ▸ e ▸ List.mem_map_of_mem hz)
        have all : (here.map fun g => (y.1, g)).filter (fun g => g.1 = y.1) = here.map fun g => (y.1, g) := by
          rw [List.filter_eq_self]
          intro g hg
          obtain ⟨k, -, rfl⟩ := List.mem_map.mp hg
          simp
        rw [none, all, List.map_nil, List.append_nil, List.map_map]
        exact forall₂_stub_ids each
      | inr later =>
        have none : (here.map fun g => (x.1, g)).filter (fun g => g.1 = y.1) = [] := by
          rw [List.filter_eq_nil_iff]
          intro g hg is
          obtain ⟨k, -, rfl⟩ := List.mem_map.mp hg
          have is : x.1 = y.1 := by simpa using is
          exact fresh (is ▸ List.mem_map_of_mem later)
        rw [none, List.map_nil, List.nil_append]
        exact I.all y later

end

/-! ## The healed session -/

/-- What is healed: the rows that miss something, with the calls they miss. -/
def healList (s : ChatSession) : List (Row × List ToolCall) :=
  if expectedIds (toolPairRows s) = [] then [] else missingByRow (toolPairRows s)

/-- The calls of `a` whose ids are in no tool row of the window. -/
def unmatched (s : ChatSession) (a : Row) : List ToolCall :=
  a.toolCalls.filter fun tc => tc.id ∉ matchedIds (toolPairRows s)

section
variable {s : ChatSession} {r t a : Row} {tc : ToolCall} {pre rest : List Row}

/-- The session after healing. -/
def healed (s : ChatSession) : ChatSession := (healOrphanedToolCalls s).2

/-- Healing row by row. -/
lemma heal_eq : healOrphanedToolCalls s =
    (((healList s).flatMap fun x => x.2).length, { s with table := (healList s).foldl healRow s.table }) := by
  unfold healOrphanedToolCalls healList
  dsimp only
  split
  · rfl
  · rfl

/-- The healed table. -/
lemma healed_table : (healed s).table = (healList s).foldl healRow s.table := by
  rw [healed, heal_eq]

/-- Healing leaves the revert point. -/
lemma healed_revert : (healed s).revert = s.revert := by
  rw [healed, heal_eq]

/-- When a row is in the window. -/
lemma mem_derivedWindow : r ∈ derivedWindow s ↔ r ∈ s.table.rows ∧
    inLlmWindow (getActiveSummary s.table.rows (revertBoundary s)) (revertBoundary s) true r = true :=
  mem_llmWindowRows

/-- The window is in order. -/
lemma derivedWindow_pairwise (s : ChatSession) : (derivedWindow s).Pairwise (fun a b => a.pos < b.pos) :=
  llmWindowRows_pairwise s.table.distinct

/-- Queued rows are left out. -/
lemma inLlmWindow_queued {summary boundary : Option Row} :
    inLlmWindow summary boundary true r = (inLlmWindow summary boundary false r && decide (r.kind ≠ .queued)) := by
  unfold inLlmWindow
  cases h : decide (r.kind ≠ .queued) <;> simp

/-- The window that is read is the one that is healed, without the queued rows. -/
lemma derivedWindow_eq : derivedWindow s =
    (llmWindowRows s.table.rows (revertBoundary s) false).filter fun r => r.kind ≠ .queued := by
  unfold derivedWindow llmWindowRows applyLlmWindow orderByPos
  rw [← sortOn_filter (nodup_map_filter (pos_nodup s.table.distinct)), List.filter_filter]
  congr 1
  refine List.filter_congr fun r _ => ?_
  rw [inLlmWindow_queued, Bool.and_comm]

/-- Which rows healing reads. -/
lemma mem_toolPairRows (w : Written s.table.rows) (x : r.toolCalls ≠ [] ∨ r.toolCallId.isSome = true) :
    r ∈ toolPairRows s ↔ r ∈ derivedWindow s := by
  unfold toolPairRows
  rw [derivedWindow_eq, List.mem_filter, List.mem_filter]
  refine and_congr_right fun mem => ?_
  have hr := (mem_llmWindowRows.mp mem).1
  have unqueued : r.kind ≠ .queued := by
    intro queued
    have user := w.queued r hr queued
    cases x with
    | inl calls => rw [w.calls r hr calls] at user; cases user
    | inr result => rw [w.results r hr result] at user; cases user
  cases x with
  | inl calls => simp [unqueued, w.calls r hr calls, calls]
  | inr result => simp [unqueued, w.results r hr result, result]

/-- The ids of the tool rows of the window are matched. -/
lemma mem_matchedIds (w : Written s.table.rows) (ha : a ∈ derivedWindow s) (htc : tc ∈ a.toolCalls)
    (named : tc.id ≠ "") : tc.id ∈ matchedIds (toolPairRows s) ↔ ∃ t ∈ derivedWindow s, t.toolCallId = some tc.id := by
  have expected : tc.id ∈ expectedIds (toolPairRows s) := by
    refine List.mem_flatMap.mpr ⟨a, (mem_toolPairRows w (.inl (List.ne_nil_of_mem htc))).mpr ha, ?_⟩
    exact List.mem_filter.mpr ⟨List.mem_map_of_mem htc, by simpa using named⟩
  unfold matchedIds
  rw [List.mem_filter, List.mem_filterMap]
  constructor
  · rintro ⟨⟨t, ht, e⟩, -⟩
    exact ⟨t, (mem_toolPairRows w (.inr (by simp [e]))).mp ht, e⟩
  · rintro ⟨t, ht, e⟩
    exact ⟨⟨t, (mem_toolPairRows w (.inr (by simp [e]))).mpr ht, e⟩, by simpa using expected⟩

/-- When calls of a row are missing. -/
lemma mem_missingByRow {rows : List Row} {x : Row × List ToolCall} : x ∈ missingByRow rows ↔
    x.1 ∈ rows ∧ x.2 = x.1.toolCalls.filter (fun tc => tc.id ∉ matchedIds rows) ∧ x.2 ≠ [] := by
  unfold missingByRow
  simp only [List.mem_filterMap, List.mem_filter]
  constructor
  · rintro ⟨r, ⟨mem, -⟩, h⟩
    split at h
    · cases h
    · rename_i ne
      cases h
      exact ⟨mem, rfl, ne⟩
  · rintro ⟨mem, e, ne⟩
    refine ⟨x.1, ⟨mem, ?_⟩, ?_⟩
    · have calls : x.1.toolCalls ≠ [] := by
        intro none
        rw [e, none] at ne
        exact ne rfl
      simpa using calls
    · rw [← e, if_neg ne]

/-- The rows that are healed. -/
lemma mem_healList (I : Interrupted s) {x : Row × List ToolCall} :
    x ∈ healList s ↔ x.1 ∈ derivedWindow s ∧ x.2 = unmatched s x.1 ∧ x.2 ≠ [] := by
  have calls : x.2 = unmatched s x.1 → x.2 ≠ [] → x.1.toolCalls ≠ [] := by
    intro e ne none
    rw [e, unmatched, none] at ne
    exact ne rfl
  unfold healList
  split
  · rename_i nothing
    refine ⟨fun h => absurd h List.not_mem_nil, fun ⟨mem, e, ne⟩ => ?_⟩
    exfalso
    obtain ⟨tc, htc⟩ := List.exists_mem_of_ne_nil _ (calls e ne)
    have here : tc.id ∈ expectedIds (toolPairRows s) := by
      refine List.mem_flatMap.mpr ⟨x.1, (mem_toolPairRows I.written (.inl (calls e ne))).mpr mem, ?_⟩
      exact List.mem_filter.mpr ⟨List.mem_map_of_mem htc, by simpa using I.named x.1 mem tc htc⟩
    rw [nothing] at here
    cases here
  · rw [mem_missingByRow]
    constructor
    · rintro ⟨mem, e, ne⟩
      exact ⟨(mem_toolPairRows I.written (.inl (calls e ne))).mp mem, e, ne⟩
    · rintro ⟨mem, e, ne⟩
      exact ⟨(mem_toolPairRows I.written (.inl (calls e ne))).mpr mem, e, ne⟩

/-- The rows come in order. -/
lemma fst_missingByRow (rows : List Row) : ((missingByRow rows).map Prod.fst).Sublist rows := by
  have go : ∀ l : List Row, ((l.filterMap fun r =>
      let missing := r.toolCalls.filter fun tc => tc.id ∉ matchedIds rows
      if missing = [] then none else some (r, missing)).map Prod.fst).Sublist l := by
    intro l
    induction l with
    | nil => exact .slnil
    | cons r l ih =>
      rw [List.filterMap_cons]
      dsimp only
      split
      · exact ih.cons _
      · rename_i e
        split at e
        · cases e
        · cases e
          exact ih.cons_cons _
  exact (go _).trans List.filter_sublist

/-- Each row is healed once. -/
lemma healList_nodup (s : ChatSession) : ((healList s).map Prod.fst).Nodup := by
  have nodup : (toolPairRows s).Nodup := by
    refine List.Nodup.sublist List.filter_sublist ?_
    exact (llmWindowRows_pairwise s.table.distinct).imp fun lt e => absurd (e ▸ lt) (lt_irrefl _)
  unfold healList
  split
  · exact List.nodup_nil
  · exact nodup.sublist (fst_missingByRow _)

/-- The rows that healing adds. -/
lemma healed_rows (s : ChatSession) : ∃ stubs, (healed s).table.rows = s.table.rows ++ stubs.map Prod.snd ∧
    Inserted s.table.rows s.table.clock (healList s) stubs := by
  rw [healed_table]
  exact healRow_spec (healList_nodup s) (List.Subset.refl _) le_rfl

/-- A stub is no row that was there. -/
lemma Inserted.new {l : List (Row × List ToolCall)} {stubs : List Stub} {g : Stub}
    (I : Inserted s.table.rows s.table.clock l stubs) (hg : g ∈ stubs) : g.2 ∉ s.table.rows := by
  intro old
  obtain ⟨x, -, -, tc, -, is⟩ := I.each g hg
  exact absurd (s.table.fresh g.2 old) (Nat.not_lt.mpr is.late)

/-- The boundary is what it was. -/
lemma healed_boundary (I : Interrupted s) : revertBoundary (healed s) = revertBoundary s := by
  obtain ⟨stubs, e, ins⟩ := healed_rows s
  unfold revertBoundary
  rw [healed_revert]
  cases hv : s.revert with
  | none => rfl
  | some v =>
    cases hid : v.messageId with
    | none => simp [hid]
    | some id =>
      have lt := I.staged v hv id hid
      have out : (stubs.map Prod.snd).find? (fun r => r.id = id) = none := by
        rw [List.find?_eq_none]
        intro k hk same
        obtain ⟨g, hg, rfl⟩ := List.mem_map.mp hk
        obtain ⟨x, -, -, tc, -, is⟩ := ins.each g hg
        have same : g.2.id = id := by simpa using same
        have late := is.late
        omega
      simp only [Option.bind_some, hid, Table.get?, e, List.find?_append, out, Option.or_none]

/-- The active summary is what it was. -/
lemma healed_summary (boundary : Option Row) :
    getActiveSummary (healed s).table.rows boundary = getActiveSummary s.table.rows boundary := by
  obtain ⟨stubs, e, ins⟩ := healed_rows s
  have none : (stubs.map Prod.snd).filter (fun r => r.kind = .summary && beforeBoundary boundary r) = [] := by
    rw [List.filter_eq_nil_iff]
    intro k hk
    obtain ⟨g, hg, rfl⟩ := List.mem_map.mp hk
    obtain ⟨x, -, -, tc, -, is⟩ := ins.each g hg
    simp [is.kind]
  unfold getActiveSummary
  rw [e, List.filter_append, none, List.append_nil]

/-- The window after healing has the rows it had, and stubs. -/
lemma mem_healed_window (I : Interrupted s) : r ∈ derivedWindow (healed s) ↔ r ∈ (healed s).table.rows ∧
    inLlmWindow (getActiveSummary s.table.rows (revertBoundary s)) (revertBoundary s) true r = true := by
  rw [mem_derivedWindow, healed_boundary I, healed_summary]

/-- Healing keeps the order of the window. -/
lemma healed_order (I : Interrupted s) :
    (derivedWindow (healed s)).filter (fun r => r ∈ s.table.rows) = derivedWindow s := by
  obtain ⟨stubs, e, -⟩ := healed_rows s
  apply ordered_ext ((derivedWindow_pairwise _).filter _) (derivedWindow_pairwise s)
  intro r
  rw [List.mem_filter, mem_healed_window I, mem_derivedWindow, e]
  simp only [List.mem_append, decide_eq_true_eq]
  tauto

/-- A stub in the window: it is not below the summary and before the boundary. -/
lemma stub_in_window {l : List (Row × List ToolCall)} {stubs : List Stub} {g : Stub} {summary boundary : Option Row}
    (I : Inserted s.table.rows s.table.clock l stubs) (hg : g ∈ stubs) :
    inLlmWindow summary boundary true g.2 = true ↔
      (∀ k, summary = some k → k.pos ≤ g.2.pos) ∧ ∀ b, boundary = some b → g.2.pos < b.pos := by
  obtain ⟨x, -, -, tc, -, is⟩ := I.each g hg
  cases summary <;> cases boundary <;>
    simp [inLlmWindow, beforeBoundary, beforePos, atOrAfterPos, is.kind, is.pinned]

/-- A row in front of a stub. -/
lemma StubFor.pos_lt {rows : List Row} {n : Nat} {g : Row} (is : StubFor rows n a tc g) (old : a.id < n) :
    a.pos < g.pos := by
  have above := is.above
  have late := is.late
  rw [Row.pos_lt]
  omega

/-- A row that is further than its answer is behind a stub. -/
lemma StubFor.pos_lt_of_seq {rows : List Row} {n : Nat} {g : Row} (is : StubFor rows n a tc g) (hr : r ∈ rows)
    (lt : a.seq < r.seq) : g.pos < r.pos := by
  rw [Row.pos_lt]
  exact .inl (is.below r hr lt)

/-! ## Runs -/

/-- The results, and what follows. -/
lemma run_append (rest : List Row) : run rest ++ afterRun rest = rest := List.takeWhile_append_dropWhile

/-- A run is results. -/
lemma mem_run (h : r ∈ run rest) : r.role = .tool := by
  simpa using List.mem_takeWhile_imp h

/-- A row that is no result is behind the run. -/
lemma mem_afterRun (h : r ∈ rest) (role : r.role ≠ .tool) : r ∈ afterRun rest := by
  rw [← run_append rest] at h
  exact (List.mem_append.mp h).resolve_left fun front => role (mem_run front)

/-- A row in front of results is the last one that is no result. -/
lemma last_answer {a a' : Row} {l l' pre pre' : List Row} (e : pre ++ a :: l = pre' ++ a' :: l')
    (ha : a.role ≠ .tool) (ha' : a'.role ≠ .tool) (tools : ∀ t ∈ l, t.role = .tool)
    (tools' : ∀ t ∈ l', t.role = .tool) : a = a' ∧ l = l' := by
  have go : ∀ (l l' pre pre' : List Row), l ++ a :: pre = l' ++ a' :: pre' →
      (∀ t ∈ l, t.role = .tool) → (∀ t ∈ l', t.role = .tool) → a = a' ∧ l = l' := by
    intro l
    induction l with
    | nil =>
      intro l' pre pre' e _ tools'
      cases l' with
      | nil => exact ⟨(List.cons.inj e).1, rfl⟩
      | cons t l' => exact absurd (tools' t List.mem_cons_self) ((List.cons.inj e).1 ▸ ha)
    | cons t l ih =>
      intro l' pre pre' e tools tools'
      cases l' with
      | nil => exact absurd (tools t List.mem_cons_self) ((List.cons.inj e).1 ▸ ha')
      | cons t' l' =>
        obtain ⟨here, e⟩ := List.cons.inj e
        obtain ⟨same, el⟩ := ih l' pre pre' e (fun k hk => tools k (List.mem_cons_of_mem _ hk))
          fun k hk => tools' k (List.mem_cons_of_mem _ hk)
        exact ⟨same, by rw [here, el]⟩
  have rev := congrArg List.reverse e
  simp only [List.reverse_append, List.reverse_cons, List.append_assoc, List.cons_append, List.nil_append] at rev
  obtain ⟨same, el⟩ := go l.reverse l'.reverse pre.reverse pre'.reverse rev
    (fun t ht => tools t (List.mem_reverse.mp ht)) fun t ht => tools' t (List.mem_reverse.mp ht)
  exact ⟨same, List.reverse_injective el⟩

/-- A result behind an answer is one of its calls. -/
lemma Interrupted.of_run (I : Interrupted s) (e : derivedWindow s = pre ++ a :: rest) (calls : a.toolCalls ≠ [])
    (ht : t ∈ run rest) : ∃ tc ∈ a.toolCalls, t.toolCallId = some tc.id := by
  obtain ⟨l, l', el⟩ := List.append_of_mem ht
  have mem : a ∈ derivedWindow s := by simp [e]
  have role : a.role = .assistant := I.written.calls a (mem_derivedWindow.mp mem).1 calls
  have whole : derivedWindow s = (pre ++ a :: l) ++ t :: (l' ++ afterRun rest) := by
    rw [e]
    conv_lhs => rw [← run_append rest, el]
    simp
  obtain ⟨front, a', results, er, role', tools, tc, htc, id⟩ := I.placed _ t _ whole (mem_run ht)
  have tools' : ∀ k ∈ l, k.role = .tool := fun k hk => mem_run (el ▸ List.mem_append_left _ hk)
  obtain ⟨same, -⟩ := last_answer er (by simp [role]) (by simp [role']) tools' tools
  exact ⟨tc, same ▸ htc, id⟩

end

/-! ## Healable windows are completed -/

section
variable {loads : String → Option Json} {s : ChatSession} {r t a : Row} {tc : ToolCall} {pre rest : List Row}
  {stubs : List Stub}

/-- What the code misses are the calls without a result behind them. -/
lemma unmatched_eq (I : Interrupted s) (e : derivedWindow s = pre ++ a :: rest)
    (elsewhere : ∀ tc ∈ missingCalls a rest, ∀ t ∈ derivedWindow s, t.toolCallId ≠ some tc.id) :
    unmatched s a = missingCalls a rest := by
  have mem : a ∈ derivedWindow s := by simp [e]
  refine List.filter_congr fun tc htc => decide_eq_decide.mpr ?_
  rw [mem_matchedIds I.written mem htc (I.named a mem tc htc)]
  constructor
  · intro none here
    obtain ⟨t, ht, id⟩ := List.mem_map.mp here
    refine none ⟨t, ?_, id⟩
    rw [e, ← run_append rest]
    simp [ht]
  · rintro missing ⟨t, ht, id⟩
    exact elsewhere tc (List.mem_filter.mpr ⟨htc, by simpa using missing⟩) t ht id

/-- What is unmatched is missing behind. -/
lemma HealsAt.unmatched_eq (h : HealsAt loads s a rest) (I : Interrupted s) (e : derivedWindow s = pre ++ a :: rest) :
    unmatched s a = missingCalls a rest :=
  Store.unmatched_eq I e h.elsewhere

/-- The stubs of a row. -/
def stubsOf (stubs : List Stub) (a : Row) : List Row := (stubs.filter fun g => g.1 = a).map Prod.snd

/-- When a stub is a message's. -/
lemma mem_stubsOf : r ∈ stubsOf stubs a ↔ (a, r) ∈ stubs := by
  unfold stubsOf
  simp only [List.mem_map, List.mem_filter, decide_eq_true_eq]
  constructor
  · rintro ⟨g, ⟨hg, rfl⟩, rfl⟩
    exact hg
  · exact fun h => ⟨(a, r), ⟨h, rfl⟩, rfl⟩

/-- A row has the stubs that it misses. -/
lemma stubsOf_ids (I : Interrupted s) (ins : Inserted s.table.rows s.table.clock (healList s) stubs)
    (mem : a ∈ derivedWindow s) :
    (stubsOf stubs a).map Row.toolCallId = (unmatched s a).map fun tc => some tc.id := by
  unfold stubsOf
  rw [List.map_map]
  by_cases none : unmatched s a = []
  · rw [none, List.map_nil, List.map_eq_nil_iff, List.filter_eq_nil_iff]
    intro g hg is
    obtain ⟨x, hx, e, -⟩ := ins.each g hg
    obtain ⟨-, e', ne⟩ := (mem_healList I).mp hx
    have is : g.1 = a := by simpa using is
    rw [← e, is] at e'
    exact ne (e'.trans none)
  · exact ins.all (a, unmatched s a) ((mem_healList I).mpr ⟨mem, rfl, none⟩)

/-- A stub is for a row that misses something. -/
lemma stub_inv (I : Interrupted s) (ins : Inserted s.table.rows s.table.clock (healList s) stubs)
    (h : (a, r) ∈ stubs) : a ∈ derivedWindow s ∧ a.toolCalls ≠ [] ∧ unmatched s a ≠ [] ∧
      ∃ tc ∈ unmatched s a, StubFor s.table.rows s.table.clock a tc r := by
  obtain ⟨x, hx, e, tc, htc, is⟩ := ins.each _ h
  obtain ⟨mem, e', ne⟩ := (mem_healList I).mp hx
  dsimp only at e is
  subst e
  rw [e'] at ne htc
  refine ⟨mem, fun none => ne ?_, ne, tc, htc, is⟩
  rw [unmatched, none]
  rfl

/-- A healable window with its stubs. -/
structure Healing (loads : String → Option Json) (s : ChatSession) (stubs : List Stub) : Prop where
  interrupted : Interrupted s
  healable : Healable loads s
  rows : (healed s).table.rows = s.table.rows ++ stubs.map Prod.snd
  inserted : Inserted s.table.rows s.table.clock (healList s) stubs

namespace Healing
variable (H : Healing loads s stubs)
include H

/-- Behind a row with stubs there is room. -/
lemma room (e : derivedWindow s = pre ++ a :: rest) (h : (a, r) ∈ stubs) : Room s a rest := by
  obtain ⟨-, calls, ne, -⟩ := stub_inv H.interrupted H.inserted h
  have at_ := H.healable pre a rest e calls
  exact at_.room (at_.unmatched_eq H.interrupted e ▸ ne)

/-- The stubs are in the window. -/
lemma stub_mem (h : (a, r) ∈ stubs) : r ∈ derivedWindow (healed s) := by
  obtain ⟨mem, calls, -, tc, -, is⟩ := stub_inv H.interrupted H.inserted h
  obtain ⟨pre, rest, e⟩ := List.append_of_mem mem
  have room := H.room e h
  have here := mem_derivedWindow.mp mem
  rw [mem_healed_window H.interrupted, stub_in_window H.inserted h, H.rows]
  refine ⟨List.mem_append_right _ (List.mem_map_of_mem h), fun k hk => ?_, fun b hb => ?_⟩
  · exact (room.summary k hk).trans (is.pos_lt (s.table.fresh a here.1)).le
  · exact is.pos_lt_of_seq (mem_of_revertBoundary hb) (room.boundary b hb)

/-- Rows stay in the window. -/
lemma old_mem (h : r ∈ derivedWindow s) : r ∈ derivedWindow (healed s) := by
  rw [← healed_order H.interrupted] at h
  exact (List.mem_filter.mp h).1

/-- The window has old rows and stubs. -/
lemma mem_window (h : r ∈ derivedWindow (healed s)) : r ∈ derivedWindow s ∨ ∃ a, (a, r) ∈ stubs := by
  obtain ⟨mem, here⟩ := (mem_healed_window H.interrupted).mp h
  rw [H.rows] at mem
  cases List.mem_append.mp mem with
  | inl old => exact .inl (mem_derivedWindow.mpr ⟨old, here⟩)
  | inr new =>
    obtain ⟨g, hg, rfl⟩ := List.mem_map.mp new
    exact .inr ⟨g.1, hg⟩

/-- Stubs come behind their call. -/
lemma pos_lt (h : (a, r) ∈ stubs) : a.pos < r.pos := by
  obtain ⟨mem, -, -, tc, -, is⟩ := stub_inv H.interrupted H.inserted h
  exact is.pos_lt (s.table.fresh a (mem_derivedWindow.mp mem).1)

/-- A stub is in front of what is further than its row. -/
lemma pos_lt_of_seq (h : (a, r) ∈ stubs) (ht : t ∈ derivedWindow s) (lt : a.seq < t.seq) : r.pos < t.pos := by
  obtain ⟨-, -, -, tc, -, is⟩ := stub_inv H.interrupted H.inserted h
  exact is.pos_lt_of_seq (mem_derivedWindow.mp ht).1 lt

/-- A row with calls is no result. -/
lemma assistant (h : a ∈ derivedWindow s) (calls : a.toolCalls ≠ []) : a.role ≠ .tool := by
  rw [H.interrupted.written.calls a (mem_derivedWindow.mp h).1 calls]
  exact Role.noConfusion

end Healing

/-- The results behind `a` after healing. -/
def resultsOf (stubs : List Stub) (a : Row) (rest : List Row) : List Row :=
  orderByPos (run rest ++ stubsOf stubs a)

/-- The results: old ones and stubs. -/
lemma mem_resultsOf : r ∈ resultsOf stubs a rest ↔ r ∈ run rest ∨ (a, r) ∈ stubs := by
  unfold resultsOf orderByPos
  rw [mem_sortOn, List.mem_append, mem_stubsOf]

namespace Healing
variable (H : Healing loads s stubs)
include H

/-- Results come once. -/
lemma nodup (e : derivedWindow s = pre ++ a :: rest) : ((run rest ++ stubsOf stubs a).map Row.id).Nodup := by
  have ids := (healed s).table.distinct
  rw [H.rows, List.map_append] at ids
  obtain ⟨-, new, apart⟩ := List.nodup_append.mp ids
  have sub : (stubsOf stubs a).Sublist (stubs.map Prod.snd) := List.filter_sublist.map _
  have old : ∀ r ∈ run rest, r ∈ s.table.rows := by
    intro r hr
    refine (mem_derivedWindow.mp (?_ : r ∈ derivedWindow s)).1
    rw [e, ← run_append rest]
    simp [hr]
  have window : ((derivedWindow s).map Row.id).Nodup :=
    (sortOn_perm.map Row.id).nodup_iff.mpr (nodup_map_filter s.table.distinct)
  have part : (run rest).Sublist (derivedWindow s) := by
    rw [e]
    refine List.Sublist.trans ?_ (List.sublist_append_right _ _)
    exact (List.takeWhile_prefix _).sublist.cons _
  rw [List.map_append, List.nodup_append]
  refine ⟨window.sublist (part.map _), new.sublist (sub.map _), fun x hx y hy => ?_⟩
  obtain ⟨r, hr, rfl⟩ := List.mem_map.mp hx
  obtain ⟨g, hg, rfl⟩ := List.mem_map.mp hy
  exact apart _ (List.mem_map_of_mem (old r hr)) _ (List.mem_map_of_mem (sub.subset hg))

/-- Results come in order. -/
lemma sorted (e : derivedWindow s = pre ++ a :: rest) :
    (a :: resultsOf stubs a rest).Pairwise (fun a b => a.pos < b.pos) := by
  refine List.pairwise_cons.mpr ⟨fun r hr => ?_, sortOn_pairwise (pos_nodup (H.nodup e))⟩
  cases mem_resultsOf.mp hr with
  | inl old =>
    have order := e ▸ derivedWindow_pairwise s
    have here := (List.pairwise_append.mp order).2.1
    rw [← run_append rest] at here
    exact (List.pairwise_cons.mp here).1 r (List.mem_append_left _ old)
  | inr stub => exact H.pos_lt stub

/-- Nothing comes between an answer and its results. -/
lemma tight (e : derivedWindow s = pre ++ a :: rest) (calls : a.toolCalls ≠ [])
    (h : r ∈ derivedWindow (healed s)) : r ∈ a :: resultsOf stubs a rest ∨
      (∀ k ∈ a :: resultsOf stubs a rest, r.pos < k.pos) ∨ ∀ k ∈ a :: resultsOf stubs a rest, k.pos < r.pos := by
  have mem : a ∈ derivedWindow s := by simp [e]
  have order := e ▸ derivedWindow_pairwise s
  obtain ⟨-, behind, front⟩ := List.pairwise_append.mp order
  have block := List.pairwise_cons.mp (H.sorted e)
  have role := H.assistant mem calls
  -- what is further than the results
  have further : ∀ k ∈ afterRun rest, ∀ x ∈ a :: resultsOf stubs a rest, x.pos < k.pos := by
    intro k hk x hx
    have inRest : k ∈ rest := run_append rest ▸ List.mem_append_right _ hk
    have hk' : k ∈ derivedWindow s := by simp [e, inRest]
    cases List.mem_cons.mp hx with
    | inl same => exact same ▸ (List.pairwise_cons.mp behind).1 k inRest
    | inr hx =>
      cases mem_resultsOf.mp hx with
      | inl old =>
        have parts := (List.pairwise_cons.mp behind).2
        rw [← run_append rest] at parts
        exact (List.pairwise_append.mp parts).2.2 x old k hk
      | inr stub => exact H.pos_lt_of_seq stub hk' ((H.room e stub).behind k hk)
  have before : r.pos < a.pos → ∀ k ∈ a :: resultsOf stubs a rest, r.pos < k.pos := by
    intro lt k hk
    cases List.mem_cons.mp hk with
    | inl same => exact same ▸ lt
    | inr hk => exact lt.trans (block.1 k hk)
  cases H.mem_window h with
  | inl old =>
    rw [e, ← run_append rest] at old
    simp only [List.mem_append, List.mem_cons] at old
    rcases old with inPre | same | inRun | inAfter
    · exact .inr (.inl (before (front r inPre a List.mem_cons_self)))
    · exact .inl (List.mem_cons.mpr (.inl same))
    · exact .inl (List.mem_cons_of_mem _ (mem_resultsOf.mpr (.inl inRun)))
    · exact .inr (.inr (further r inAfter))
  | inr stub =>
    obtain ⟨a', stub⟩ := stub
    obtain ⟨mem', calls', -⟩ := stub_inv H.interrupted H.inserted stub
    have role' := H.assistant mem' calls'
    have there := mem'
    rw [e] at there
    cases List.mem_append.mp there with
    | inl inPre =>
      -- a stub of an earlier answer
      obtain ⟨front', back', ep⟩ := List.append_of_mem inPre
      have e' : derivedWindow s = front' ++ a' :: (back' ++ a :: rest) := by rw [e, ep]; simp
      have lt := (H.room e' stub).behind a (mem_afterRun (by simp) role)
      exact .inr (.inl (before (H.pos_lt_of_seq stub mem lt)))
    | inr rest' =>
      cases List.mem_cons.mp rest' with
      | inl same => exact .inl (List.mem_cons_of_mem _ (mem_resultsOf.mpr (.inr (same ▸ stub))))
      | inr later =>
        have after := further a' (mem_afterRun later role')
        exact .inr (.inr fun k hk => (after k hk).trans (H.pos_lt stub))

/-- The exchange stands in one block. -/
lemma block (e : derivedWindow s = pre ++ a :: rest) (calls : a.toolCalls ≠ []) :
    ∃ pre' post', derivedWindow (healed s) = pre' ++ a :: (resultsOf stubs a rest ++ post') := by
  have mem : a ∈ derivedWindow s := by simp [e]
  refine ordered_block (derivedWindow_pairwise _) (H.sorted e) (List.cons_ne_nil _ _) (fun r hr => ?_)
    fun r hr => H.tight e calls hr
  cases List.mem_cons.mp hr with
  | inl same => exact same ▸ H.old_mem mem
  | inr hr =>
    cases mem_resultsOf.mp hr with
    | inl old =>
      refine H.old_mem ?_
      rw [e, ← run_append rest]
      simp [old]
    | inr stub => exact H.stub_mem stub

/-- Results are results. -/
lemma results_tools (h : r ∈ resultsOf stubs a rest) : r.role = .tool := by
  cases mem_resultsOf.mp h with
  | inl old => exact mem_run old
  | inr stub =>
    obtain ⟨-, -, -, tc, -, is⟩ := stub_inv H.interrupted H.inserted stub
    exact is.role

/-- The old results are the run. -/
lemma results_old (e : derivedWindow s = pre ++ a :: rest) :
    (resultsOf stubs a rest).filter (fun r => r ∈ s.table.rows) = run rest := by
  have part : (run rest).Pairwise (fun a b => a.pos < b.pos) := by
    have order := e ▸ derivedWindow_pairwise s
    have behind := (List.pairwise_cons.mp (List.pairwise_append.mp order).2.1).2
    exact behind.sublist (List.takeWhile_prefix _).sublist
  apply ordered_ext ((sortOn_pairwise (pos_nodup (H.nodup e))).filter _) part
  intro r
  rw [List.mem_filter]
  constructor
  · rintro ⟨h, old⟩
    refine (mem_resultsOf.mp h).resolve_right fun stub => ?_
    exact H.inserted.new stub (by simpa using old)
  · intro h
    have mem : r ∈ derivedWindow s := by
      rw [e, ← run_append rest]
      simp [h]
    exact ⟨mem_resultsOf.mpr (.inl h), by simpa using (mem_derivedWindow.mp mem).1⟩

/-- What a result says. -/
lemma results_content (e : derivedWindow s = pre ++ a :: rest) (h : r ∈ resultsOf stubs a rest) :
    r ∈ s.table.rows ∨ r.content = some interruptedToolResult := by
  cases mem_resultsOf.mp h with
  | inl old =>
    refine .inl (mem_derivedWindow.mp (?_ : r ∈ derivedWindow s)).1
    rw [e, ← run_append rest]
    simp [old]
  | inr stub =>
    obtain ⟨-, -, -, tc, -, is⟩ := stub_inv H.interrupted H.inserted stub
    exact .inr is.content

/-- The ids behind an answer: those that were there and those that were missing. -/
lemma results_perm (e : derivedWindow s = pre ++ a :: rest) (calls : a.toolCalls ≠ []) :
    ((resultsOf stubs a rest).map Row.toolCallId).Perm
      ((run rest).map Row.toolCallId ++ (missingCalls a rest).map fun tc => some tc.id) := by
  have mem : a ∈ derivedWindow s := by simp [e]
  rw [← (H.healable pre a rest e calls).unmatched_eq H.interrupted e, ← stubsOf_ids H.interrupted H.inserted mem,
    ← List.map_append]
  exact sortOn_perm.map _

/-- The results answer the calls. -/
lemma results_ids (e : derivedWindow s = pre ++ a :: rest) (calls : a.toolCalls ≠ []) {x : Option String} :
    x ∈ (resultsOf stubs a rest).map Row.toolCallId ↔ ∃ tc ∈ a.toolCalls, x = some tc.id := by
  rw [(H.results_perm e calls).mem_iff, List.mem_append]
  constructor
  · intro h
    cases h with
    | inl old =>
      obtain ⟨t, ht, rfl⟩ := List.mem_map.mp old
      exact H.interrupted.of_run e calls ht
    | inr missing =>
      obtain ⟨tc, htc, rfl⟩ := List.mem_map.mp missing
      exact ⟨tc, (List.mem_filter.mp htc).1, rfl⟩
  · rintro ⟨tc, htc, rfl⟩
    by_cases here : some tc.id ∈ (run rest).map Row.toolCallId
    · exact .inl here
    · exact .inr (List.mem_map_of_mem (List.mem_filter.mpr ⟨htc, by simpa using here⟩))

/-- No call is answered twice. -/
lemma results_nodup (e : derivedWindow s = pre ++ a :: rest) (calls : a.toolCalls ≠ []) :
    ((resultsOf stubs a rest).map Row.toolCallId).Nodup := by
  have at_ := H.healable pre a rest e calls
  rw [(H.results_perm e calls).nodup_iff, List.nodup_append]
  refine ⟨at_.once, ?_, fun x hx y hy same => ?_⟩
  · by_cases none : missingCalls a rest = []
    · simp [none]
    · have distinct := (at_.room none).distinct
      have some_ := distinct.map (Option.some_injective String)
      rwa [List.map_map] at some_
  · obtain ⟨tc, htc, rfl⟩ := List.mem_map.mp hy
    have out := (List.mem_filter.mp htc).2
    rw [same] at hx
    simp [hx] at out

/-- The calls of the window parse. -/
lemma parses (h : r ∈ derivedWindow (healed s)) : ∀ tc ∈ (rowMessage r).toolCalls, (loads tc.arguments).isSome := by
  intro tc htc
  have mem : tc ∈ r.toolCalls := by
    unfold rowMessage chatMessageFromRow at htc
    dsimp only at htc
    split at htc
    · exact htc
    · cases htc
  cases H.mem_window h with
  | inl old =>
    obtain ⟨pre, rest, e⟩ := List.append_of_mem old
    exact (H.healable pre r rest e (List.ne_nil_of_mem mem)).parses tc mem
  | inr stub =>
    obtain ⟨a, stub⟩ := stub
    obtain ⟨-, -, -, tc, -, is⟩ := stub_inv H.interrupted H.inserted stub
    rw [is.calls] at mem
    cases mem

/-- An answer with its results. -/
lemma answers (e : derivedWindow s = pre ++ a :: rest) (calls : a.toolCalls ≠ []) :
    Answers (rowMessage a) ((resultsOf stubs a rest).map rowMessage) := by
  have mem : a ∈ derivedWindow s := by simp [e]
  have role := H.interrupted.written.calls a (mem_derivedWindow.mp mem).1 calls
  have toolCalls : (rowMessage a).toolCalls = a.toolCalls := if_pos role
  have ids : ((resultsOf stubs a rest).map rowMessage).map ChatMessage.toolCallId =
      ((resultsOf stubs a rest).map Row.toolCallId).map (Option.getD · "") := by
    rw [List.map_map, List.map_map]
    refine List.map_congr_left fun r hr => ?_
    exact if_pos (H.results_tools hr)
  have known : ∀ x ∈ (resultsOf stubs a rest).map Row.toolCallId, ∃ tc ∈ a.toolCalls, x = some tc.id :=
    fun x hx => (H.results_ids e calls).mp hx
  refine ⟨role, toolCalls ▸ calls, toolCalls ▸ H.interrupted.named a mem, fun t ht => ?_, ?_, fun id => ?_⟩
  · obtain ⟨r, hr, rfl⟩ := List.mem_map.mp ht
    exact H.results_tools hr
  · rw [ids]
    refine List.Nodup.map_on (fun x hx y hy same => ?_) (H.results_nodup e calls)
    obtain ⟨tc, -, rfl⟩ := known x hx
    obtain ⟨tc', -, rfl⟩ := known y hy
    exact congrArg some same
  · rw [ids, toolCalls, List.mem_map, List.mem_map]
    constructor
    · rintro ⟨x, hx, rfl⟩
      obtain ⟨tc, htc, rfl⟩ := known x hx
      exact ⟨tc, htc, rfl⟩
    · rintro ⟨tc, htc, rfl⟩
      exact ⟨some tc.id, (H.results_ids e calls).mpr ⟨tc, htc, rfl⟩, rfl⟩

/-- The healed table is well written. -/
lemma written : Written (healed s).table.rows := by
  have w := H.interrupted.written
  have cases_ : ∀ r ∈ (healed s).table.rows, r ∈ s.table.rows ∨ r.role = .tool ∧ r.kind = .chat ∧ r.toolCalls = [] := by
    intro r hr
    rw [H.rows] at hr
    cases List.mem_append.mp hr with
    | inl old => exact .inl old
    | inr new =>
      obtain ⟨g, hg, rfl⟩ := List.mem_map.mp new
      obtain ⟨-, -, -, tc, -, is⟩ := stub_inv H.interrupted H.inserted hg
      exact .inr ⟨is.role, is.kind, is.calls⟩
  constructor
  · intro r hr calls
    exact (cases_ r hr).elim (fun old => w.calls r old calls) fun new => absurd new.2.2 calls
  · intro r hr result
    exact (cases_ r hr).elim (fun old => w.results r old result) fun new => new.1
  · intro r hr queued
    refine (cases_ r hr).elim (fun old => w.queued r old queued) fun new => ?_
    rw [new.2.1] at queued
    cases queued
  · intro r hr summary
    refine (cases_ r hr).elim (fun old => w.summaries r old summary) fun new => ?_
    rw [new.2.1] at summary
    cases summary

/-- Nothing is missing any more. -/
lemma again : healOrphanedToolCalls (healed s) = (0, healed s) := by
  have none : healList (healed s) = [] := by
    rw [List.eq_nil_iff_forall_not_mem]
    intro x hx
    unfold healList at hx
    split at hx
    · cases hx
    · obtain ⟨mem, missing, ne⟩ := mem_missingByRow.mp hx
      obtain ⟨tc, htc⟩ := List.exists_mem_of_ne_nil _ ne
      rw [missing] at htc
      obtain ⟨htc, out⟩ := List.mem_filter.mp htc
      have calls := List.ne_nil_of_mem htc
      have inWindow := (mem_toolPairRows H.written (.inl calls)).mp mem
      cases H.mem_window inWindow with
      | inl old =>
        obtain ⟨pre, rest, e⟩ := List.append_of_mem old
        obtain ⟨pre', post', whole⟩ := H.block e calls
        obtain ⟨t, ht, id⟩ := List.mem_map.mp ((H.results_ids e calls).mpr ⟨tc, htc, rfl⟩)
        have there : t ∈ derivedWindow (healed s) := by
          rw [whole]
          simp [ht]
        have matched := (mem_matchedIds H.written inWindow htc (H.interrupted.named x.1 old tc htc)).mpr ⟨t, there, id⟩
        simp [matched] at out
      | inr stub =>
        obtain ⟨a, stub⟩ := stub
        obtain ⟨-, -, -, tc', -, is⟩ := stub_inv H.interrupted H.inserted stub
        exact calls is.calls
  rw [heal_eq, none]
  rfl

end Healing

/-! ## The number of stubs -/

/-- The healed rows, in the order of the window. -/
lemma fst_healList (I : Interrupted s) :
    (healList s).map Prod.fst = (derivedWindow s).filter fun r => unmatched s r ≠ [] := by
  have part : ((healList s).map Prod.fst).Pairwise (fun a b => a.pos < b.pos) := by
    have order : (llmWindowRows s.table.rows (revertBoundary s) false).Pairwise fun a b => a.pos < b.pos :=
      llmWindowRows_pairwise s.table.distinct
    unfold healList
    split
    · exact .nil
    · exact order.sublist ((fst_missingByRow _).trans List.filter_sublist)
  apply ordered_ext part ((derivedWindow_pairwise s).filter _)
  intro r
  rw [List.mem_map, List.mem_filter]
  constructor
  · rintro ⟨x, hx, rfl⟩
    obtain ⟨mem, e, ne⟩ := (mem_healList I).mp hx
    exact ⟨mem, by simpa [← e] using ne⟩
  · rintro ⟨mem, ne⟩
    exact ⟨(r, unmatched s r), (mem_healList I).mpr ⟨mem, rfl, by simpa using ne⟩, rfl⟩

/-- Dropping what adds nothing. -/
lemma flatMap_filter {l : List Row} {f : Row → List ToolCall} {q : Row → Bool}
    (none : ∀ r ∈ l, q r = false → f r = []) : (l.filter q).flatMap f = l.flatMap f := by
  induction l with
  | nil => rfl
  | cons r l ih =>
    have later := ih fun k hk => none k (List.mem_cons_of_mem _ hk)
    cases keep : q r with
    | true => rw [List.filter_cons_of_pos keep, List.flatMap_cons, List.flatMap_cons, later]
    | false =>
      rw [List.filter_cons_of_neg (by simp [keep]), List.flatMap_cons, none r List.mem_cons_self keep, later]
      rfl

/-- Healing counts what is unmatched. -/
lemma heal_count (I : Interrupted s) :
    (healOrphanedToolCalls s).1 = ((derivedWindow s).flatMap (unmatched s)).length := by
  have missing : (healList s).flatMap (fun x => x.2) = ((healList s).map Prod.fst).flatMap (unmatched s) := by
    rw [List.flatMap_map]
    refine List.flatMap_congr fun x hx => ?_
    exact ((mem_healList I).mp hx).2.1
  rw [heal_eq]
  dsimp only
  rw [missing, fst_healList I]
  congr 1
  refine flatMap_filter fun r _ none => ?_
  simpa using none

/-- The missing results of a window, with a bound for each row. -/
lemma missingCount_le {f : Row → List ToolCall} (rows : List Row)
    (le : ∀ pre r rest, rows = pre ++ r :: rest →
      ((missingCalls r rest).map ToolCall.id).dedup.length ≤ (f r).length) :
    missingCount rows ≤ (rows.flatMap f).length ∧ (missingCount rows = (rows.flatMap f).length →
      ∀ pre r rest, rows = pre ++ r :: rest →
        ((missingCalls r rest).map ToolCall.id).dedup.length = (f r).length) := by
  induction rows with
  | nil => exact ⟨le_rfl, fun _ pre r rest e => by simp at e⟩
  | cons x l ih =>
    have here := le [] x l rfl
    obtain ⟨later, same⟩ := ih fun pre r rest e => le (x :: pre) r rest (by rw [e]; rfl)
    rw [missingCount, List.flatMap_cons, List.length_append]
    refine ⟨Nat.add_le_add here later, fun total pre r rest e => ?_⟩
    cases pre with
    | nil =>
      obtain ⟨rfl, rfl⟩ := List.cons.inj e
      omega
    | cons y pre => exact same (by omega) pre r rest (List.cons.inj e).2

/-- Missing ids are missing calls. -/
lemma length_missingCalls (a : Row) (rest : List Row) :
    ((missingCalls a rest).map ToolCall.id).dedup.length ≤ (missingCalls a rest).length := by
  have le := (List.dedup_sublist ((missingCalls a rest).map ToolCall.id)).length_le
  rwa [List.length_map] at le

/-- Without calls nothing is missing. -/
lemma missingCalls_nil (none : a.toolCalls = []) : missingCalls a rest = [] := by
  unfold missingCalls
  rw [none]
  rfl

/-- Without calls nothing is unmatched. -/
lemma unmatched_nil (none : a.toolCalls = []) : unmatched s a = [] := by
  unfold unmatched
  rw [none]
  rfl

/-- If no id is elsewhere, healing counts the missing calls. -/
lemma length_unmatched (I : Interrupted s) (e : derivedWindow s = pre ++ a :: rest)
    (elsewhere : a.toolCalls ≠ [] → ∀ tc ∈ missingCalls a rest, ∀ t ∈ derivedWindow s, t.toolCallId ≠ some tc.id) :
    (unmatched s a).length = (missingCalls a rest).length := by
  by_cases calls : a.toolCalls = []
  · rw [unmatched_nil calls, missingCalls_nil calls]
  · rw [unmatched_eq I e (elsewhere calls)]

/-- How many stubs are reported. -/
lemma Healing.count (H : Healing loads s stubs) :
    (healOrphanedToolCalls s).1 = missingCount (derivedWindow s) := by
  rw [heal_count H.interrupted]
  have each : ∀ pre r rest, derivedWindow s = pre ++ r :: rest →
      (unmatched s r).length = ((missingCalls r rest).map ToolCall.id).dedup.length := by
    intro pre r rest e
    rw [length_unmatched H.interrupted e fun calls => (H.healable pre r rest e calls).elsewhere]
    by_cases none : missingCalls r rest = []
    · rw [none]
      rfl
    · have calls : r.toolCalls ≠ [] := fun nil => none (missingCalls_nil nil)
      have distinct := ((H.healable pre r rest e calls).room none).distinct
      rw [List.dedup_eq_self.mpr distinct, List.length_map]
  have go : ∀ l pre, derivedWindow s = pre ++ l → (l.flatMap (unmatched s)).length = missingCount l := by
    intro l
    induction l with
    | nil => exact fun _ _ => rfl
    | cons r l ih =>
      intro pre e
      rw [List.flatMap_cons, List.length_append, each pre r l e, ih (pre ++ [r]) (by rw [e]; simp), missingCount]
  exact go _ [] rfl

/-- A healable window is completed. -/
lemma Healing.completed (H : Healing loads s stubs) : Completed loads s where
  order := healed_order H.interrupted
  exchange := by
    intro pre a rest e calls
    obtain ⟨pre', post', whole⟩ := H.block e calls
    refine ⟨pre', resultsOf stubs a rest, post', whole, fun t ht => H.results_tools ht, H.results_old e,
      fun t ht => H.results_content e ht, fun tc htc => ?_, ?_⟩
    · exact List.count_eq_one_of_mem (H.results_nodup e calls) ((H.results_ids e calls).mpr ⟨tc, htc, rfl⟩)
    · have window : getMessagesForLlm loads (healed s) =
        applyLlmContentOverrides (deserializeMessages loads (derivedWindow (healed s))) := rfl
      rw [← healed, window, whole]
      refine deserializeMessages_block loads (H.answers e calls) pre' post' fun r hr tc htc _ => ?_
      exact H.parses (whole ▸ hr) tc htc
  count := H.count
  again := H.again

/-! ## Completed windows were healable -/

/-- The calls that the model sees parse. -/
lemma parses_of_mem {m : ChatMessage} (h : m ∈ getMessagesForLlm loads s) (role : m.role = .assistant) :
    ∀ tc ∈ m.toolCalls, (loads tc.arguments).isSome := by
  obtain ⟨k, hk, e⟩ := List.mem_filterMap.mp h
  have same : k = m := by
    have user : k.role ≠ .user := by
      intro user
      unfold llmContentOverride at e
      rw [if_pos user] at e
      split at e
      · cases e
      · split at e
        · cases e
          rw [user] at role
          cases role
        · cases e
          rw [user] at role
          cases role
    unfold llmContentOverride at e
    rw [if_neg user] at e
    exact Option.some.inj e
  exact same ▸ (deserializeMessages_clean loads _).parses k hk

/-- The exchange of `a` after healing. -/
structure Behind (s : ChatSession) (stubs : List Stub) (a : Row) (rest results : List Row) : Prop where
  written : Interrupted s
  rows : (healed s).table.rows = s.table.rows ++ stubs.map Prod.snd
  inserted : Inserted s.table.rows s.table.clock (healList s) stubs
  window : ∃ pre, derivedWindow s = pre ++ a :: rest
  whole : ∃ pre' post', derivedWindow (healed s) = pre' ++ a :: (results ++ post')
  tools : ∀ t ∈ results, t.role = .tool
  old : results.filter (fun r => r ∈ s.table.rows) = run rest
  once : ∀ tc ∈ a.toolCalls, (results.map Row.toolCallId).count (some tc.id) = 1

namespace Behind
variable {results : List Row} (B : Behind s stubs a rest results)
include B

/-- The results that are new are stubs. -/
lemma stub (h : r ∈ results) (new : r ∉ run rest) : ∃ a', (a', r) ∈ stubs := by
  obtain ⟨pre', post', whole⟩ := B.whole
  have mem : r ∈ derivedWindow (healed s) := by
    rw [whole]
    simp [h]
  have row := (mem_derivedWindow.mp mem).1
  rw [B.rows] at row
  cases List.mem_append.mp row with
  | inl old =>
    refine absurd ?_ new
    rw [← B.old]
    exact List.mem_filter.mpr ⟨h, by simpa using old⟩
  | inr stub =>
    obtain ⟨g, hg, rfl⟩ := List.mem_map.mp stub
    exact ⟨g.1, hg⟩

/-- A missing call has a stub behind the answer. -/
lemma stub_of_missing (h : tc ∈ missingCalls a rest) :
    ∃ g ∈ results, g.toolCallId = some tc.id ∧ ∃ a', (a', g) ∈ stubs := by
  obtain ⟨htc, out⟩ := List.mem_filter.mp h
  have here : some tc.id ∈ results.map Row.toolCallId := by
    rw [← List.count_pos_iff, B.once tc htc]
    exact Nat.one_pos
  obtain ⟨g, hg, id⟩ := List.mem_map.mp here
  refine ⟨g, hg, id, B.stub hg fun old => ?_⟩
  have there := List.mem_map_of_mem (f := Row.toolCallId) old
  rw [id] at there
  simp [there] at out

/-- A call that is missing is nowhere in the window. -/
lemma elsewhere (h : tc ∈ missingCalls a rest) (ht : t ∈ derivedWindow s) : t.toolCallId ≠ some tc.id := by
  intro id
  obtain ⟨g, -, gid, a', stub⟩ := B.stub_of_missing h
  obtain ⟨mem, -, -, tc', htc', is⟩ := stub_inv B.written B.inserted stub
  obtain ⟨htc', out⟩ := List.mem_filter.mp htc'
  have same : tc'.id = tc.id := by
    rw [is.id] at gid
    exact Option.some.inj gid
  have matched := (mem_matchedIds B.written.written mem htc' (B.written.named a' mem tc' htc')).mpr
    ⟨t, ht, same ▸ id⟩
  simp [matched] at out

/-- The results that were there answer different calls. -/
lemma run_once (calls : a.toolCalls ≠ []) : ((run rest).map Row.toolCallId).Nodup := by
  obtain ⟨pre, e⟩ := B.window
  rw [List.nodup_iff_count_le_one]
  intro x
  by_cases mem : x ∈ (run rest).map Row.toolCallId
  · obtain ⟨t, ht, rfl⟩ := List.mem_map.mp mem
    obtain ⟨tc, htc, id⟩ := B.written.of_run e calls ht
    have part : ((run rest).map Row.toolCallId).Sublist (results.map Row.toolCallId) := by
      rw [← B.old]
      exact List.filter_sublist.map _
    rw [id, ← B.once tc htc]
    exact part.count_le _
  · rw [List.count_eq_zero_of_not_mem mem]
    exact Nat.zero_le 1

/-- A stub stands in front of what comes behind the results that were there. -/
lemma pos_lt_behind (h : r ∈ results) (ht : t ∈ afterRun rest) : r.pos < t.pos := by
  obtain ⟨pre, e⟩ := B.window
  obtain ⟨pre', post', whole⟩ := B.whole
  have inRest : t ∈ rest := run_append rest ▸ List.mem_append_right _ ht
  have old : t ∈ derivedWindow s := by simp [e, inRest]
  have order := e ▸ derivedWindow_pairwise s
  have behind := List.pairwise_cons.mp (List.pairwise_append.mp order).2.1
  have further : a.pos < t.pos := behind.1 t inRest
  have order' := whole ▸ derivedWindow_pairwise (healed s)
  obtain ⟨-, block, front⟩ := List.pairwise_append.mp order'
  have mem : t ∈ derivedWindow (healed s) := by
    rw [← healed_order B.written] at old
    exact (List.mem_filter.mp old).1
  rw [whole] at mem
  simp only [List.mem_append, List.mem_cons] at mem
  rcases mem with before | same | result | after
  · exact absurd (front t before a List.mem_cons_self) (lt_asymm further)
  · exact absurd (same ▸ further) (lt_irrefl _)
  · -- a result that was there stands in the run
    have run_ : t ∈ run rest := by
      rw [← B.old]
      exact List.mem_filter.mpr ⟨result, by simpa using (mem_derivedWindow.mp old).1⟩
    have parts := behind.2
    rw [← run_append rest] at parts
    exact absurd ((List.pairwise_append.mp parts).2.2 t run_ t ht) (lt_irrefl _)
  · exact (List.pairwise_append.mp (List.pairwise_cons.mp block).2).2.2 r h t after

/-- There is room behind an answer that misses something. -/
lemma room (missing : missingCalls a rest ≠ []) (distinct : ((missingCalls a rest).map ToolCall.id).Nodup) :
    Room s a rest := by
  obtain ⟨pre, e⟩ := B.window
  obtain ⟨pre', post', whole⟩ := B.whole
  obtain ⟨tc, htc⟩ := List.exists_mem_of_ne_nil _ missing
  obtain ⟨g, hg, -, a', stub⟩ := B.stub_of_missing htc
  obtain ⟨-, -, -, tc', -, is⟩ := stub_inv B.written B.inserted stub
  have mem : a ∈ derivedWindow s := by simp [e]
  have there : g ∈ derivedWindow (healed s) := by
    rw [whole]
    simp [hg]
  have inWindow := ((mem_healed_window B.written).mp there).2
  rw [stub_in_window B.inserted stub] at inWindow
  have order' := whole ▸ derivedWindow_pairwise (healed s)
  have above : a.pos < g.pos :=
    (List.pairwise_cons.mp (List.pairwise_append.mp order').2.1).1 g (List.mem_append_left _ hg)
  have le : a.seq ≤ g.seq := (Row.pos_lt.mp above).elim Nat.le_of_lt fun same => same.1.le
  -- a stub is newer than every row, so that it is in front of a row only by `seq`
  have front : ∀ k ∈ s.table.rows, g.pos < k.pos → a.seq < k.seq := by
    intro k hk lt
    have fresh := s.table.fresh k hk
    have late := is.late
    rw [Row.pos_lt] at lt
    omega
  refine ⟨distinct, fun k hk => ?_, fun k hk => ?_, fun b hb => ?_⟩
  · by_contra lt
    have further : a.pos < k.pos := not_le.mp lt
    obtain ⟨⟨hkr, kind, before⟩, -⟩ := (getActiveSummary_eq_some s.table.distinct).mp hk
    have inWindow' : k ∈ derivedWindow s := by
      rw [mem_derivedWindow]
      refine ⟨hkr, ?_⟩
      rw [hk]
      simp [inLlmWindow, atOrAfterPos, kind, before]
    have behind : k ∈ afterRun rest := by
      refine mem_afterRun ?_ (B.written.written.summaries k hkr kind)
      rw [e] at inWindow'
      have order := e ▸ derivedWindow_pairwise s
      cases List.mem_append.mp inWindow' with
      | inl early =>
        exact absurd ((List.pairwise_append.mp order).2.2 k early a List.mem_cons_self) (lt_asymm further)
      | inr h =>
        refine (List.mem_cons.mp h).resolve_left fun same => ?_
        exact absurd (same ▸ further) (lt_irrefl _)
    exact absurd (B.pos_lt_behind hg behind) (not_lt.mpr (inWindow.1 k hk))
  · have inRest : k ∈ rest := run_append rest ▸ List.mem_append_right _ hk
    refine front k (mem_derivedWindow.mp (?_ : k ∈ derivedWindow s)).1 (B.pos_lt_behind hg hk)
    simp [e, inRest]
  · exact front b (mem_of_revertBoundary hb) (inWindow.2 b hb)

end Behind

/-- A completed window was healable. -/
lemma Completed.healable (I : Interrupted s) (C : Completed loads s) : Healable loads s := by
  obtain ⟨stubs, rows, inserted⟩ := healed_rows s
  have behind : ∀ pre a rest, derivedWindow s = pre ++ a :: rest → a.toolCalls ≠ [] →
      ∃ results, Behind s stubs a rest results := by
    intro pre a rest e calls
    obtain ⟨pre', results, post', whole, tools, old, -, once, -⟩ := C.exchange pre a rest e calls
    exact ⟨results, I, rows, inserted, ⟨pre, e⟩, ⟨pre', post', whole⟩, tools, old, once⟩
  have elsewhere : ∀ pre a rest, derivedWindow s = pre ++ a :: rest → a.toolCalls ≠ [] →
      ∀ tc ∈ missingCalls a rest, ∀ t ∈ derivedWindow s, t.toolCallId ≠ some tc.id := by
    intro pre a rest e calls tc htc t ht
    obtain ⟨results, B⟩ := behind pre a rest e calls
    exact B.elsewhere htc ht
  -- the stubs are counted with repetitions, the missing ids without
  have total : missingCount (derivedWindow s) = ((derivedWindow s).flatMap (unmatched s)).length :=
    C.count.symm.trans (heal_count I)
  have exact_ := (missingCount_le (f := unmatched s) (derivedWindow s) fun pre r rest e =>
    (length_missingCalls r rest).trans (length_unmatched I e (elsewhere pre r rest e)).ge).2 total
  intro pre a rest e calls
  obtain ⟨results, B⟩ := behind pre a rest e calls
  have distinct : ((missingCalls a rest).map ToolCall.id).Nodup := by
    have same := exact_ pre a rest e
    rw [length_unmatched I e (elsewhere pre a rest e), ← List.length_map (f := ToolCall.id)] at same
    rw [← List.dedup_eq_self]
    exact (List.dedup_sublist _).eq_of_length same
  refine ⟨?_, B.run_once calls, elsewhere pre a rest e calls, fun missing => B.room missing distinct⟩
  obtain ⟨_, results, _, -, -, -, -, -, front, back, reader⟩ := C.exchange pre a rest e calls
  have mem : a ∈ derivedWindow s := by simp [e]
  have role := I.written.calls a (mem_derivedWindow.mp mem).1 calls
  have there : rowMessage a ∈ getMessagesForLlm loads (healOrphanedToolCalls s).2 := by
    rw [reader]
    simp
  have toolCalls : (rowMessage a).toolCalls = a.toolCalls := if_pos role
  exact toolCalls ▸ parses_of_mem there role

end

/-- Healing completes the exchanges of an interrupted window if and only if each answer can be healed: its calls
parse, its results answer different calls, the ids that it misses are in no other row of the window, and there is
room behind it. -/
theorem heals_iff {loads : String → Option Json} {s : ChatSession} (I : Interrupted s) :
    Completed loads s ↔ Healable loads s := by
  constructor
  · exact Completed.healable I
  · intro healable
    obtain ⟨stubs, rows, inserted⟩ := healed_rows s
    exact Healing.completed ⟨I, healable, rows, inserted⟩

/-- The answer `id` with the calls `ids`. -/
def callsRow (id seq : Nat) (ids : List String) : Row where
  id
  seq
  role := .assistant
  toolCalls := ids.map fun tc => { id := tc, name := "shell", arguments := "\x7b\x7d" }

/-- The result `id` of the call `tc`. -/
def resultRow (id seq : Nat) (tc : String) : Row where
  id
  seq
  role := .tool
  content := some "done"
  toolCallId := some tc

/-- A session whose process died with one of two calls answered. -/
def diedBetween : ChatSession where
  table :=
    { rows := [userRow 0 1024, callsRow 1 2048 ["a", "b"], resultRow 2 3072 "a", userRow 3 4096]
      clock := 4
      fresh := by decide
      distinct := by decide }
  revert := none

/-- A session whose process died in a turn that used the id of an earlier turn again. -/
def diedAgain : ChatSession where
  table :=
    { rows := [userRow 0 1024, callsRow 1 2048 ["a"], resultRow 2 3072 "a", userRow 3 4096, callsRow 4 5120 ["a"],
        userRow 5 6144]
      clock := 6
      fresh := by decide
      distinct := by decide }
  revert := none

/-- Its window. -/
lemma diedBetween_window : derivedWindow diedBetween = diedBetween.table.rows := by decide

/-- Its window. -/
lemma diedAgain_window : derivedWindow diedAgain = diedAgain.table.rows := by decide

/-- Where the results of a window stand, by their places. -/
lemma placed_of {l : List Row} (h : ∀ i < l.length, ∀ t ∈ l[i]?, t.role = .tool → ∃ k < i, ∃ a ∈ l[k]?,
      a.role = .assistant ∧ (∀ r ∈ (l.take i).drop (k + 1), r.role = .tool) ∧
      ∃ tc ∈ a.toolCalls, t.toolCallId = some tc.id)
    (pre : List Row) (t : Row) (post : List Row) (e : l = pre ++ t :: post) (role : t.role = .tool) :
    ∃ front a results, pre = front ++ a :: results ∧ a.role = .assistant ∧ (∀ k ∈ results, k.role = .tool) ∧
      ∃ tc ∈ a.toolCalls, t.toolCallId = some tc.id := by
  subst e
  obtain ⟨k, lt, a, ha, role', tools, call⟩ := h pre.length (by simp) t (by simp) role
  have here : pre[k]? = some a := by
    rw [← ha, List.getElem?_append_left lt]
  refine ⟨pre.take k, a, pre.drop (k + 1), ?_, role', ?_, call⟩
  · obtain ⟨lt, rfl⟩ := List.getElem?_eq_some_iff.mp here
    rw [List.getElem_cons_drop, List.take_append_drop]
  · rwa [List.take_left'] at tools
    rfl

/-- It was interrupted. -/
lemma diedBetween_interrupted : Interrupted diedBetween where
  written := ⟨by decide, by decide, by decide, by decide⟩
  staged := by
    intro v h
    cases h
  named := by
    rw [diedBetween_window]
    decide
  placed := by
    rw [diedBetween_window]
    exact placed_of (by decide)

/-- It was interrupted. -/
lemma diedAgain_interrupted : Interrupted diedAgain where
  written := ⟨by decide, by decide, by decide, by decide⟩
  staged := by
    intro v h
    cases h
  named := by
    rw [diedAgain_window]
    decide
  placed := by
    rw [diedAgain_window]
    exact placed_of (by decide)

/-- It can be healed. -/
lemma diedBetween_healable : Healable parsesText diedBetween := by
  intro pre a rest e calls
  rw [diedBetween_window] at e
  rcases pre with _ | ⟨x, _ | ⟨y, pre⟩⟩
  · obtain ⟨rfl, -⟩ := List.cons.inj e
    exact absurd rfl calls
  · obtain ⟨-, e⟩ := List.cons.inj e
    obtain ⟨rfl, rfl⟩ := List.cons.inj e
    exact ⟨by decide, by decide, by rw [diedBetween_window]; decide,
      fun _ => ⟨by decide, by decide, by decide, by decide⟩⟩
  · obtain ⟨-, e⟩ := List.cons.inj e
    obtain ⟨-, e⟩ := List.cons.inj e
    have mem : a ∈ [resultRow 2 3072 "a", userRow 3 4096] := e ▸ by simp
    simp only [List.mem_cons, List.not_mem_nil, or_false] at mem
    rcases mem with rfl | rfl
    · exact absurd rfl calls
    · exact absurd rfl calls

/-- The call without a result gets its stub. -/
theorem diedBetween_heals : Completed parsesText diedBetween :=
  (heals_iff diedBetween_interrupted).mpr diedBetween_healable

/-- The second use of an id gets no stub, because the first one has a result. -/
theorem diedAgain_unhealed : Interrupted diedAgain ∧ ¬ Completed parsesText diedAgain := by
  refine ⟨diedAgain_interrupted, fun completed => ?_⟩
  have answer := completed.healable diedAgain_interrupted
    [userRow 0 1024, callsRow 1 2048 ["a"], resultRow 2 3072 "a", userRow 3 4096] (callsRow 4 5120 ["a"])
    [userRow 5 6144] diedAgain_window (by decide)
  refine answer.elsewhere { id := "a", name := "shell", arguments := "\x7b\x7d" } (by decide) (resultRow 2 3072 "a") ?_ rfl
  rw [diedAgain_window]
  decide

end OpenAgentd.Store
