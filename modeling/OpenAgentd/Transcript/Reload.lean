import OpenAgentd.Transcript.Summarise
import OpenAgentd.Transcript.Flush

/-!
# Compaction and reload

A compaction changes the transcript in memory: exclusion flags, pins and an inserted summary. The window
that is derived from the rows after the next sync goes by positions, pins and the newest summary. The two
agree (`Reloads`) exactly when the row the summary is anchored at cuts off the rows of the kept tail
(`compaction_reloads_iff`).

The anchor is the first message of the kept tail that is not pinned, so a note at the head of the tail
ends up on the other side of the summary (`compaction_reorders_note`).
-/

namespace OpenAgentd.Transcript
open OpenAgentd.Lib OpenAgentd.Store

/-- The window derived from the rows, with no boundary staged and queued rows left out, is what the
transcript shows the model. -/
def Reloads (s : Session) : Prop :=
  List.Forall₂ Stores (llmWindowRows s.table.rows none true) (messagesForLlm s.messages)

instance (s : Session) : Decidable (Reloads s) :=
  inferInstanceAs (Decidable (List.Forall₂ _ _ _))

/-- A compaction, with the summary as the object `oid`. -/
def compact (loads : String → Option Json) (keepLast oid : Nat) (text : String) (s : Session) :
    Session :=
  { s with messages := summariseInner loads keepLast oid text s.messages }

/-- A session whose transcript was loaded from the database and is synced. -/
structure Settled (s : Session) : Prop where
  reloads : Reloads s
  ids : (s.messages.filterMap ChatMessage.dbId).Nodup
  seen : ∀ m ∈ s.messages, m.oid ∈ s.cp.persisted
  stored : ∀ m ∈ s.messages, m.role = .system ∧ m.dbId = none ∨
    m.role ≠ .system ∧ ∃ r ∈ s.table.rows, Stores r m ∧ s.cp.flushedPinned r.id = some r.pinned

/-- The anchor of a summary before `tail` cuts off the rows of `tail`: the rows of messages at or above
its `seq` are those of `tail`. Without an anchor nothing may be behind the summary. -/
def Anchored (rows : List Row) (tail : List ChatMessage) : Prop :=
  (firstAnchor tail = none → messagesForLlm tail = []) ∧
  ∀ a ∈ rows, firstAnchor tail = some a.id → 0 < a.seq ∧
    ∀ r ∈ rows, r.kind = .chat ∨ r.kind = .note →
      (a.seq ≤ r.seq ↔ some r.id ∈ tail.map ChatMessage.dbId)

instance (rows : List Row) (tail : List ChatMessage) : Decidable (Anchored rows tail) :=
  inferInstanceAs (Decidable (_ ∧ _))

/-- A compaction that retains no summary and whose summary is anchored right. -/
structure Plan.Clean (p : Plan) (s : Session) : Prop where
  summaries : ∀ m ∈ messagesForLlm s.messages, m.isSummary = true →
    ¬ (m.oid ∈ p.toSummarise ∧ m.oid ∈ p.retained)
  anchored : Anchored s.table.rows (p.keptTail s.messages)

/-! ## The sync after a compaction -/

section
variable {seen : List Nat} {anchored : Nat → Option Nat} {f : Flush} {ms ks : List ChatMessage}
  {cp : Checkpointer} {tb : Table} {head tail : List ChatMessage} {oid : Nat} {text : String}

/-- Saved messages are passed over. -/
lemma flushNew_seen (old : ∀ m ∈ ms, m.oid ∈ seen) : flushNew seen anchored f ms = (f, ms) := by
  induction ms with
  | nil => rfl
  | cons m ms ih =>
    simp only [flushNew, old m List.mem_cons_self, if_true,
      ih fun k hk => old k (List.mem_cons_of_mem _ hk)]

/-- Flushing in two parts. -/
lemma flushNew_append : flushNew seen anchored f (ms ++ ks) =
    ((flushNew seen anchored (flushNew seen anchored f ms).1 ks).1,
      (flushNew seen anchored f ms).2 ++ (flushNew seen anchored (flushNew seen anchored f ms).1 ks).2) := by
  induction ms generalizing f with
  | nil => rfl
  | cons m ms ih => simp only [List.cons_append, flushNew, ih]

/-- Saved messages anchor nothing new. -/
lemma summaryAnchorIds_seen {k : List ChatMessage} (old : ∀ m ∈ ms, m.oid ∈ seen) :
    summaryAnchorIds seen (ms ++ k) = summaryAnchorIds seen k := by
  induction ms with
  | nil => rfl
  | cons m ms ih =>
    simp [summaryAnchorIds, old m List.mem_cons_self,
      ih fun m' hm => old m' (List.mem_cons_of_mem _ hm)]

/-- The position a new summary before `tail` takes. -/
def summarySeq (tb : Table) (tail : List ChatMessage) : Nat :=
  ((firstAnchor tail).bind fun id => (tb.get? id).map (seqBeforeRow tb.rows)).getD (nextSeq tb.rows)

/-- Pinning takes no seq. -/
lemma nextSeq_map_pinRow {pins : List (Nat × Bool)} {rows : List Row} :
    nextSeq (rows.map (pinRow pins)) = nextSeq rows := by
  rw [nextSeq, nextSeq, maxSeq, maxSeq, List.map_map]
  rfl

/-- The row of the summary. -/
def summaryRowOf (tb : Table) (tail : List ChatMessage) (oid : Nat) (text : String) : Row :=
  { messageRow (summaryMessage oid text) true (summarySeq tb tail) with id := tb.clock }

variable (tb text) in
/-- The sync after a compaction writes the summary and the pins that changed. -/
lemma sync_summary (oldHead : ∀ m ∈ head, m.oid ∈ cp.persisted) (new : oid ∉ cp.persisted)
    (oldTail : ∀ m ∈ tail, m.oid ∈ cp.persisted) :
    (sync false ⟨tb, cp, head ++ summaryMessage oid text :: tail⟩).table.rows =
      tb.rows.map (pinRow (pinUpdates cp (head ++ summaryMessage oid text :: tail))) ++
        [summaryRowOf tb tail oid text] ∧
    (sync false ⟨tb, cp, head ++ summaryMessage oid text :: tail⟩).messages =
      head ++ { summaryMessage oid text with dbId := some tb.clock } :: tail := by
  have out : (summaryMessage oid text).oid ∉ cp.persisted := new
  have work : newMessages ⟨tb, cp, head ++ summaryMessage oid text :: tail⟩ ≠ [] := by
    apply List.ne_nil_of_mem (a := summaryMessage oid text)
    simp [newMessages, out]
  have anchors : summaryAnchorIds cp.persisted (head ++ summaryMessage oid text :: tail) =
      ((firstAnchor tail).map fun id => (oid, id)).toList := by
    have rest : summaryAnchorIds cp.persisted tail = [] := by
      have := summaryAnchorIds_seen oldTail (k := [])
      rwa [List.append_nil] at this
    rw [summaryAnchorIds_seen oldHead, summaryAnchorIds, rest]
    cases firstAnchor tail with
    | none => simp [summaryMessage, new]
    | some id => simp [summaryMessage, new]
  have seqs : (resolveSummarySeqs tb (summaryAnchorIds cp.persisted
      (head ++ summaryMessage oid text :: tail))).lookup oid =
      (firstAnchor tail).bind fun id => (tb.get? id).map (seqBeforeRow tb.rows) := by
    rw [anchors, resolveSummarySeqs]
    cases firstAnchor tail with
    | none => rfl
    | some id =>
      cases h : tb.get? id with
      | none => simp [h]
      | some a => simp [h]
  have idle : ¬ (newMessages ⟨tb, cp, head ++ summaryMessage oid text :: tail⟩ = [] ∧
      pinUpdates cp (head ++ summaryMessage oid text :: tail) = []) := fun h => work h.1
  rw [sync, if_neg idle]
  simp only [Bool.false_eq_true, if_false, syncTransaction, flushNew_append, flushNew_seen oldHead,
    flushNew, out, flushNew_seen oldTail]
  have save : ∀ (an : Nat → Option Nat) (f : Flush), flushMessage an f (summaryMessage oid text) =
      f.save (summaryMessage oid text) true (an oid) := fun _ _ => rfl
  have atTail : ∀ (pins : List (Nat × Bool)) (cp : Checkpointer),
      Flush.nextTail { table := tb.update (pinRow pins) (fun _ => rfl), cp } = nextSeq tb.rows :=
    fun _ _ => nextSeq_map_pinRow
  rw [save, Flush.save, seqs, atTail]
  exact ⟨rfl, rfl⟩

end

/-! ## The window before the compaction -/

section
variable {s : Session} {m : ChatMessage} {r r' : Row} {p : Plan}

/-- Rows of one message are one. -/
lemma row_eq_of_stores {tb : Table} (hr : r ∈ tb.rows) (hr' : r' ∈ tb.rows) (h : Stores r m)
    (h' : Stores r' m) : r = r' := by
  refine List.inj_on_of_nodup_map tb.distinct hr hr' ?_
  have e : some r.id = some r'.id := by rw [← h.dbId, ← h'.dbId]
  exact Option.some.inj e

/-- A message the model sees has a row in the window. -/
lemma Settled.row_of_visible (st : Settled s) (hm : m ∈ messagesForLlm s.messages) :
    ∃ r ∈ s.table.rows, inLlmWindow (getActiveSummary s.table.rows none) none true r = true ∧
      Stores r m := by
  obtain ⟨r, hr, hs⟩ := forall₂_left st.reloads hm
  obtain ⟨mem, win⟩ := mem_llmWindowRows.mp hr
  exact ⟨r, mem, win, hs⟩

/-- A row in the window is that of a message the model sees. -/
lemma Settled.visible_of_row (st : Settled s) (hr : r ∈ s.table.rows)
    (win : inLlmWindow (getActiveSummary s.table.rows none) none true r = true) :
    ∃ m ∈ messagesForLlm s.messages, Stores r m :=
  forall₂_right st.reloads (mem_llmWindowRows.mpr ⟨hr, win⟩)

/-- The message of a row. -/
lemma Settled.stored_of_dbId (st : Settled s) (hm : m ∈ s.messages) (hr : r ∈ s.table.rows)
    (e : m.dbId = some r.id) :
    m.role ≠ .system ∧ Stores r m ∧ s.cp.flushedPinned r.id = some r.pinned := by
  cases st.stored m hm with
  | inl h =>
    rw [h.2] at e
    cases e
  | inr h =>
    obtain ⟨role, r', hr', hs, fl⟩ := h
    have same : r' = r := by
      refine List.inj_on_of_nodup_map s.table.distinct hr' hr ?_
      rw [hs.dbId] at e
      exact Option.some.inj e
    exact ⟨role, same ▸ hs, same ▸ fl⟩

/-- The tail is not excluded. -/
lemma not_excluded_of_keptTail (hm : m ∈ p.keptTail s.messages) :
    m.excludeFromContext = false ∧ m.isSummary = false := by
  have h := Plan.keptTail_not_covers hm
  simp only [Plan.covers, Bool.or_eq_false_iff] at h
  exact ⟨h.1.1.1, h.2⟩

/-- The tail is of the messages. -/
lemma mem_of_keptTail (hm : m ∈ p.keptTail s.messages) : m ∈ s.messages :=
  List.mem_of_mem_drop hm

/-- The row of a message of the kept tail that the model sees. -/
lemma Settled.row_of_keptTail (st : Settled s) (hm : m ∈ p.keptTail s.messages)
    (role : m.role ≠ .system) :
    ∃ r ∈ s.table.rows, (r.kind = .chat ∨ r.kind = .note) ∧ Stores r m := by
  obtain ⟨ne, ns⟩ := not_excluded_of_keptTail hm
  obtain ⟨r, hr, win, hs⟩ :=
    st.row_of_visible (mem_messagesForLlm.mpr ⟨mem_of_keptTail hm, ne, role⟩)
  refine ⟨r, hr, kind_of_window win ?_, hs⟩
  rw [hs.isSummary] at ns
  simpa using ns

/-- The summary cuts off the rows of `tail`. -/
def Cuts (tb : Table) (tail : List ChatMessage) : Prop :=
  ∀ r ∈ tb.rows, r.kind = .chat ∨ r.kind = .note →
    (summarySeq tb tail < r.seq ↔ some r.id ∈ tail.map ChatMessage.dbId)

/-- Where the summary goes in terms of the anchor. -/
lemma Settled.cuts_iff (st : Settled s) :
    Cuts s.table (p.keptTail s.messages) ↔ Anchored s.table.rows (p.keptTail s.messages) := by
  unfold Anchored Cuts summarySeq
  cases e : firstAnchor (p.keptTail s.messages) with
  | none =>
    simp only [Option.bind_none, Option.getD_none, true_imp_iff, reduceCtorEq, false_imp_iff,
      implies_true, and_true]
    constructor
    · intro cuts
      rw [List.eq_nil_iff_forall_not_mem]
      intro m hm
      obtain ⟨hm, -, role⟩ := mem_messagesForLlm.mp hm
      obtain ⟨r, hr, kind, hs⟩ := st.row_of_keptTail hm role
      have behind := (cuts r hr kind).mpr (List.mem_map.mpr ⟨m, hm, hs.dbId⟩)
      exact absurd (lt_nextSeq hr) behind.not_gt
    · intro empty r hr _
      refine ⟨fun behind => absurd (lt_nextSeq hr) behind.not_gt, ?_⟩
      intro mem
      obtain ⟨m, hm, hid⟩ := List.mem_map.mp mem
      have role := (st.stored_of_dbId (mem_of_keptTail hm) hr hid).1
      have visible := mem_messagesForLlm.mpr ⟨hm, (not_excluded_of_keptTail hm).1, role⟩
      rw [empty] at visible
      cases visible
  | some id =>
    obtain ⟨m, hm, anchor⟩ := List.exists_of_findSome?_eq_some e
    have hid : m.dbId = some id := by
      split at anchor
      · exact anchor
      · cases anchor
    have role : m.role ≠ .system := by
      cases st.stored m (mem_of_keptTail hm) with
      | inl h =>
        rw [h.2] at hid
        cases hid
      | inr h => exact h.1
    obtain ⟨a, ha, kind, hs⟩ := st.row_of_keptTail hm role
    obtain rfl : id = a.id := by
      rw [hs.dbId] at hid
      exact (Option.some.inj hid).symm
    have get : s.table.get? a.id = some a := Table.get?_eq_some.mpr ⟨ha, rfl⟩
    simp only [Option.bind_some, get, Option.map_some, Option.getD_some, reduceCtorEq, false_imp_iff,
      true_and, Option.some.injEq]
    have cut : 0 < a.seq → ∀ r ∈ s.table.rows, seqBeforeRow s.table.rows a < r.seq ↔ a.seq ≤ r.seq := by
      intro pos r hr
      constructor
      · intro behind
        by_contra lt
        exact absurd (le_seqBeforeRow hr (not_le.mp lt)) behind.not_ge
      · exact (seqBeforeRow_lt pos).trans_le
    constructor
    · intro cuts a' ha' e'
      obtain rfl : a' = a := List.inj_on_of_nodup_map s.table.distinct ha' ha e'.symm
      have pos : 0 < a'.seq := by
        rw [Nat.pos_iff_ne_zero]
        intro zero
        have behind := (cuts a' ha kind).mpr (List.mem_map.mpr ⟨m, hm, hid⟩)
        rw [seqBeforeRow_zero zero, zero] at behind
        exact absurd behind (lt_irrefl 0)
      exact ⟨pos, fun r hr k => (cut pos r hr).symm.trans (cuts r hr k)⟩
    · intro anchored r hr k
      obtain ⟨pos, h⟩ := anchored a ha rfl
      exact (cut pos r hr).trans (h r hr k)

end

/-! ## The window after the compaction -/

/-- A message above the summary after the compaction. -/
def Plan.settle (p : Plan) (m : ChatMessage) : ChatMessage := pinKept (p.flag m)

/-- The message is still seen after the compaction, above the summary. -/
def Plan.keeps (p : Plan) (m : ChatMessage) : Bool := !(p.flag m).excludeFromContext

section
variable {s : Session} {m : ChatMessage} {r : Row} {p : Plan} {oid : Nat} {text : String}
  {pins : List (Nat × Bool)} {ms head tail : List ChatMessage}

/-- Settling keeps the object. -/
@[simp] lemma Plan.settle_oid : (p.settle m).oid = m.oid := by
  unfold Plan.settle pinKept
  split
  · exact Plan.flag_oid
  · exact Plan.flag_oid

/-- Settling keeps the row. -/
@[simp] lemma Plan.settle_dbId : (p.settle m).dbId = m.dbId := by
  unfold Plan.settle pinKept Plan.flag
  split_ifs <;> rfl

/-- Settling keeps the role. -/
@[simp] lemma Plan.settle_role : (p.settle m).role = m.role := by
  unfold Plan.settle pinKept Plan.flag
  split_ifs <;> rfl

/-- What settling excludes. -/
lemma Plan.settle_excluded : (p.settle m).excludeFromContext = !p.keeps m := by
  unfold Plan.settle pinKept Plan.keeps
  split <;> simp

/-- What is kept above the summary is pinned and otherwise as it was. -/
lemma Plan.settle_of_keeps (h : p.keeps m = true) (role : m.role ≠ .system) :
    p.settle m = { m with pinned := true } ∧ m.excludeFromContext = false := by
  have e : p.flag m = m := by
    unfold Plan.keeps Plan.flag at *
    split_ifs at * <;> simp_all
  unfold Plan.keeps at h
  rw [e] at h
  unfold Plan.settle pinKept
  rw [e]
  simp_all

/-- What is not kept is unpinned, a summary, or was excluded before. -/
lemma Plan.settle_of_not_keeps (h : p.keeps m = false) :
    (p.settle m).pinned = false ∨ m.isSummary = true ∨
      m.excludeFromContext = true ∧ (p.settle m).pinned = m.pinned := by
  have e : p.settle m = p.flag m := by
    unfold Plan.keeps at h
    unfold Plan.settle pinKept
    simp_all
  rw [e]
  unfold Plan.keeps Plan.flag at *
  split_ifs at * <;> simp_all

/-- What the model sees above the summary. -/
lemma messagesForLlm_settle : messagesForLlm (head.map p.settle) =
    ((messagesForLlm head).filter p.keeps).map p.settle := by
  rw [messagesForLlm, messagesForLlm, List.filter_map, List.filter_filter]
  congr 1
  apply List.filter_congr
  intro m _
  simp only [Function.comp_apply, Plan.settle_excluded, Plan.settle_role, Bool.not_not]
  by_cases role : m.role = .system
  · simp [role]
  · cases h : p.keeps m with
    | false => simp
    | true => simp [role, (Plan.settle_of_keeps h role).2]

/-- Pinning changes one flag. -/
lemma pinRow_eq (pins : List (Nat × Bool)) (r : Row) :
    pinRow pins r = { r with pinned := (pinRow pins r).pinned } := rfl

/-- Pinning keeps the place. -/
@[simp] lemma pinRow_pos : (pinRow pins r).pos = r.pos := rfl
/-- Pinning keeps the id. -/
@[simp] lemma pinRow_id : (pinRow pins r).id = r.id := rfl
/-- Pinning keeps the seq. -/
@[simp] lemma pinRow_seq : (pinRow pins r).seq = r.seq := rfl
/-- Pinning keeps the kind. -/
@[simp] lemma pinRow_kind : (pinRow pins r).kind = r.kind := rfl

/-- The row of a message gets the pin of the message. -/
lemma pinRow_pinned_of_message {cp : Checkpointer} (nd : (ms.filterMap ChatMessage.dbId).Nodup)
    (hm : m ∈ ms) (hid : m.dbId = some r.id) (seen : m.oid ∈ cp.persisted) (role : m.role ≠ .system)
    (flushed : cp.flushedPinned r.id = some r.pinned) :
    (pinRow (pinUpdates cp ms) r).pinned = m.pinned :=
  pinOf_message nd hm hid seen role flushed

/-- A row without a message keeps its pin. -/
lemma pinRow_of_no_message {cp : Checkpointer} (nd : (ms.filterMap ChatMessage.dbId).Nodup)
    (none : ∀ m ∈ ms, m.dbId ≠ some r.id) : pinRow (pinUpdates cp ms) r = r := by
  have h : pinOf (pinUpdates cp ms) r.id = Option.none := by
    cases e : pinOf (pinUpdates cp ms) r.id with
    | none => rfl
    | some v =>
      rw [pinOf_eq_some (pinUpdates_nodup nd)] at e
      obtain ⟨m, hm, hu⟩ := List.mem_filterMap.mp e
      exact absurd (pinUpdate_eq_some.mp hu).1 (none m hm)
  rw [pinRow, h]
  rfl

end

/-- The pins the sync after a compaction changes, when `head` is above the summary. -/
def newPins (p : Plan) (s : Session) (head : List ChatMessage) (oid : Nat) (text : String) :
    List (Nat × Bool) :=
  pinUpdates s.cp (head.map p.settle ++ summaryMessage oid text :: p.keptTail s.messages)

section
variable {s : Session} {m : ChatMessage} {r : Row} {p : Plan} {oid : Nat} {text : String}
  {head : List ChatMessage}

/-- The ids of the saved rows. -/
lemma dbIds_after (split : s.messages = head ++ p.keptTail s.messages) :
    (head.map p.settle ++ summaryMessage oid text :: p.keptTail s.messages).filterMap
      ChatMessage.dbId = s.messages.filterMap ChatMessage.dbId := by
  conv_rhs => rw [split]
  rw [List.filterMap_append, List.filterMap_append, List.filterMap_map]
  congr 1
  exact List.filterMap_congr fun m _ => Plan.settle_dbId

/-- The pins after the sync: above the summary, in the kept tail, and of the other rows. -/
lemma Settled.pin_above (st : Settled s) (split : s.messages = head ++ p.keptTail s.messages)
    (hm : m ∈ head) (hr : r ∈ s.table.rows) (hid : m.dbId = some r.id) :
    (pinRow (newPins p s head oid text) r).pinned = (p.settle m).pinned := by
  have mem : m ∈ s.messages := by
    rw [split]
    exact List.mem_append_left _ hm
  obtain ⟨role, -, fl⟩ := st.stored_of_dbId mem hr hid
  refine pinRow_pinned_of_message ?_ (List.mem_append_left _ (List.mem_map_of_mem hm)) ?_ ?_ ?_ fl
  · rw [dbIds_after split]
    exact st.ids
  · rwa [Plan.settle_dbId]
  · rw [Plan.settle_oid]
    exact st.seen m mem
  · rwa [Plan.settle_role]

/-- Pins of the tail. -/
lemma Settled.pin_tail (st : Settled s) (split : s.messages = head ++ p.keptTail s.messages)
    (hm : m ∈ p.keptTail s.messages) (hr : r ∈ s.table.rows) (hid : m.dbId = some r.id) :
    (pinRow (newPins p s head oid text) r).pinned = m.pinned := by
  obtain ⟨role, -, fl⟩ := st.stored_of_dbId (mem_of_keptTail hm) hr hid
  refine pinRow_pinned_of_message ?_ (List.mem_append_right _ (List.mem_cons_of_mem _ hm)) hid
    (st.seen m (mem_of_keptTail hm)) role fl
  rw [dbIds_after split]
  exact st.ids

/-- Other rows are not pinned. -/
lemma Settled.pin_other (st : Settled s) (split : s.messages = head ++ p.keptTail s.messages)
    (none : ∀ m ∈ s.messages, m.dbId ≠ some r.id) : pinRow (newPins p s head oid text) r = r := by
  refine pinRow_of_no_message ?_ ?_
  · rw [dbIds_after split]
    exact st.ids
  · intro k hk
    rcases List.mem_append.mp hk with hk | hk
    · obtain ⟨m, hm, rfl⟩ := List.mem_map.mp hk
      rw [Plan.settle_dbId]
      apply none m
      rw [split]
      exact List.mem_append_left _ hm
    · cases List.mem_cons.mp hk with
      | inl e =>
        rw [e]
        exact fun h => nomatch h
      | inr hk => exact none k (mem_of_keptTail hk)

/-- The summary is the active one. -/
lemma getActiveSummary_after {tb : Table} {pins : List (Nat × Bool)} {tail : List ChatMessage}
    (nd : ((tb.rows.map (pinRow pins) ++ [summaryRowOf tb tail oid text]).map Row.id).Nodup) :
    getActiveSummary (tb.rows.map (pinRow pins) ++ [summaryRowOf tb tail oid text]) none =
      some (summaryRowOf tb tail oid text) := by
  refine (getActiveSummary_eq_some nd).mpr ⟨⟨by simp, rfl, rfl⟩, ?_⟩
  intro r hr _ _
  rcases List.mem_append.mp hr with hr | hr
  · obtain ⟨r', hr', rfl⟩ := List.mem_map.mp hr
    exact (tb.fresh r' hr').le
  · rw [List.mem_singleton.mp hr]

/-- An old row in the window after the compaction. -/
lemma inLlmWindow_after {tb : Table} {pins : List (Nat × Bool)} {tail : List ChatMessage}
    (hr : r ∈ tb.rows) :
    inLlmWindow (some (summaryRowOf tb tail oid text)) none true (pinRow pins r) = true ↔
      (r.kind = .chat ∨ r.kind = .note) ∧
        ((pinRow pins r).pinned = true ∨ summarySeq tb tail < r.seq) := by
  have lt : r.id < tb.clock := tb.fresh r hr
  have at_ : atOrAfterPos (summaryRowOf tb tail oid text) (pinRow pins r) = true ↔
      summarySeq tb tail < r.seq := by
    simp only [atOrAfterPos, decide_eq_true_eq, Row.pos_le]
    constructor
    · rintro (h | ⟨-, h⟩)
      · exact h
      · exact absurd lt (not_lt.mpr h)
    · exact .inl
  have ne : r.id ≠ (summaryRowOf tb tail oid text).id := lt.ne
  cases e : r.kind with
  | _ => simp [inLlmWindow, beforeBoundary, at_, ne, e]

/-- The order of the rows around the summary. -/
lemma pos_lt_summary {tb : Table} {tail : List ChatMessage} (hr : r ∈ tb.rows) :
    r.pos < (summaryRowOf tb tail oid text).pos ↔ ¬ summarySeq tb tail < r.seq := by
  have lt : r.id < tb.clock := tb.fresh r hr
  rw [Row.pos_lt, not_lt, le_iff_lt_or_eq]
  constructor
  · exact Or.imp_right And.left
  · exact Or.imp_right fun e => ⟨e, lt⟩

/-- Which rows are behind the summary. -/
lemma summary_pos_lt {tb : Table} {tail : List ChatMessage} (hr : r ∈ tb.rows) :
    (summaryRowOf tb tail oid text).pos < r.pos ↔ summarySeq tb tail < r.seq := by
  have lt : r.id < tb.clock := tb.fresh r hr
  rw [Row.pos_lt]
  constructor
  · rintro (h | ⟨-, h⟩)
    · exact h
    · exact absurd lt h.not_gt
  · exact .inl

end

/-! ## Reloading -/

section
variable {s : Session} {p : Plan} {oid : Nat} {text : String} {head : List ChatMessage}

/-- The rows of what the model sees after the compaction: of what is kept above the summary, the summary,
and of the kept tail. -/
structure Rows (p : Plan) (s : Session) (head : List ChatMessage) (above below : List Row) : Prop where
  window : ∃ rest, llmWindowRows s.table.rows none true = rest ++ below ∧ above.Sublist rest
  above : List.Forall₂ Stores above ((messagesForLlm head).filter p.keeps)
  below : List.Forall₂ Stores below (messagesForLlm (p.keptTail s.messages))

/-- The rows above and below. -/
lemma Settled.rows (st : Settled s) (split : s.messages = head ++ p.keptTail s.messages) :
    ∃ above below, Rows p s head above below := by
  have h : List.Forall₂ Stores (llmWindowRows s.table.rows none true)
      (messagesForLlm head ++ messagesForLlm (p.keptTail s.messages)) := by
    have e : messagesForLlm s.messages =
        messagesForLlm head ++ messagesForLlm (p.keptTail s.messages) := by
      conv_lhs => rw [split]
      exact List.filter_append _ _
    rw [← e]
    exact st.reloads
  obtain ⟨above, sub, ha⟩ :=
    forall₂_filter_right (p := p.keeps) (List.forall₂_take_append _ _ _ h)
  exact ⟨above, _, ⟨_, (List.take_append_drop _ _).symm, sub⟩, ha, List.forall₂_drop_append _ _ _ h⟩

section
variable {above below : List Row} (st : Settled s) (R : Rows p s head above below)
  (split : s.messages = head ++ p.keptTail s.messages)
include R

/-- Rows above are in the window. -/
lemma Rows.mem_above {r : Row} (h : r ∈ above) : r ∈ s.table.rows ∧
    inLlmWindow (getActiveSummary s.table.rows none) none true r = true := by
  obtain ⟨rest, e, sub⟩ := R.window
  rw [← mem_llmWindowRows, e]
  exact List.mem_append_left _ (sub.subset h)

/-- Rows below are in the window. -/
lemma Rows.mem_below {r : Row} (h : r ∈ below) : r ∈ s.table.rows ∧
    inLlmWindow (getActiveSummary s.table.rows none) none true r = true := by
  obtain ⟨rest, e, -⟩ := R.window
  rw [← mem_llmWindowRows, e]
  exact List.mem_append_right _ h

/-- Rows come in order. -/
lemma Rows.ordered : (above ++ below).Pairwise (fun a b => a.pos < b.pos) := by
  obtain ⟨rest, e, sub⟩ := R.window
  have ord : (llmWindowRows s.table.rows none true).Pairwise (fun a b => a.pos < b.pos) :=
    llmWindowRows_pairwise s.table.distinct
  rw [e] at ord
  exact ord.sublist (sub.append (List.Sublist.refl _))

/-- Rows below are chats or notes. -/
lemma Rows.kind_below {r : Row} (h : r ∈ below) : r.kind = .chat ∨ r.kind = .note := by
  obtain ⟨m, hm, hs⟩ := forall₂_right R.below h
  have ns := (not_excluded_of_keptTail (mem_messagesForLlm.mp hm).1).2
  rw [hs.isSummary] at ns
  exact kind_of_window (R.mem_below h).2 (by simpa using ns)

include st

/-- A row of the kept tail, and the rest of the chat and note rows. -/
lemma Rows.mem_below_iff {r : Row} (hr : r ∈ s.table.rows) :
    r ∈ below ↔ some r.id ∈ (p.keptTail s.messages).map ChatMessage.dbId := by
  constructor
  · intro h
    obtain ⟨m, hm, hs⟩ := forall₂_right R.below h
    exact List.mem_map.mpr ⟨m, (mem_messagesForLlm.mp hm).1, hs.dbId⟩
  · intro h
    obtain ⟨m, hm, hid⟩ := List.mem_map.mp h
    obtain ⟨role, hs, -⟩ := st.stored_of_dbId (mem_of_keptTail hm) hr hid
    obtain ⟨r', hr', hs'⟩ := forall₂_left R.below
      (mem_messagesForLlm.mpr ⟨hm, (not_excluded_of_keptTail hm).1, role⟩)
    rwa [row_eq_of_stores hr (R.mem_below hr').1 hs hs']

include split

/-- The rows above the summary are pinned. -/
lemma Rows.pinned_above {r : Row} (hr : r ∈ above) :
    (pinRow (newPins p s head oid text) r).pinned = true := by
  obtain ⟨m, hm, hs⟩ := forall₂_right R.above hr
  obtain ⟨hm, keep⟩ := List.mem_filter.mp hm
  obtain ⟨hm, -, role⟩ := mem_messagesForLlm.mp hm
  rw [st.pin_above split hm (R.mem_above hr).1 hs.dbId, (Plan.settle_of_keeps keep role).1]

/-- The rows above store the head. -/
lemma Rows.stores_above :
    List.Forall₂ Stores (above.map (pinRow (newPins p s head oid text)))
      (messagesForLlm (head.map p.settle)) := by
  rw [messagesForLlm_settle, List.forall₂_map_left_iff, List.forall₂_map_right_iff]
  refine forall₂_imp_mem R.above ?_
  intro r hr m hm hs
  obtain ⟨hm, keep⟩ := List.mem_filter.mp hm
  obtain ⟨-, -, role⟩ := mem_messagesForLlm.mp hm
  rw [pinRow_eq, R.pinned_above st split hr, (Plan.settle_of_keeps keep role).1]
  exact hs.setPinned true

variable (oid text) in
/-- The rows of the kept tail are as they were. -/
lemma Rows.pinRow_below {r : Row} (hr : r ∈ below) : pinRow (newPins p s head oid text) r = r := by
  obtain ⟨m, hm, hs⟩ := forall₂_right R.below hr
  have pin : (pinRow (newPins p s head oid text) r).pinned = m.pinned :=
    st.pin_tail split (mem_messagesForLlm.mp hm).1 (R.mem_below hr).1 hs.dbId
  rw [pinRow_eq, pin, hs.pinned]

variable (oid text) in
/-- The rows of what the model sees, in its order. -/
lemma Rows.stores : List.Forall₂ Stores
    (above.map (pinRow (newPins p s head oid text)) ++
      summaryRowOf s.table (p.keptTail s.messages) oid text :: below)
    (messagesForLlm (head.map p.settle ++
      { summaryMessage oid text with dbId := some s.table.clock } :: p.keptTail s.messages)) := by
  rw [messagesForLlm, List.filter_append, List.filter_cons_of_pos (by rfl)]
  exact List.rel_append (R.stores_above st split) (.cons (stores_messageRow rfl) R.below)

/-- A pinned row after the sync, or one in the window before it, is a row of what the model sees. -/
lemma Rows.mem_of_pinned {r : Row} (hr : r ∈ s.table.rows) (kind : r.kind = .chat ∨ r.kind = .note)
    (pin : (pinRow (newPins p s head oid text) r).pinned = true) : r ∈ above ∨ r ∈ below := by
  by_cases known : ∃ m ∈ s.messages, m.dbId = some r.id
  · obtain ⟨m, hm, hid⟩ := known
    have hm' := hm
    rw [split] at hm'
    rcases List.mem_append.mp hm' with hm' | hm'
    · obtain ⟨role, hs, -⟩ := st.stored_of_dbId hm hr hid
      rw [st.pin_above split hm' hr hid] at pin
      cases keep : p.keeps m with
      | true =>
        refine .inl ?_
        have vis := mem_messagesForLlm.mpr ⟨hm', (Plan.settle_of_keeps keep role).2, role⟩
        obtain ⟨r', hr', hs'⟩ := forall₂_left R.above (List.mem_filter.mpr ⟨vis, keep⟩)
        rwa [row_eq_of_stores hr (R.mem_above hr').1 hs hs']
      | false =>
        exfalso
        rcases Plan.settle_of_not_keeps keep with h | h | ⟨ex, h⟩
        · rw [h] at pin
          cases pin
        · rw [hs.isSummary, decide_eq_true_eq] at h
          cases kind with
          | inl e => simp [e] at h
          | inr e => simp [e] at h
        · -- an excluded message whose row is in the window would be seen
          rw [h, hs.pinned] at pin
          obtain ⟨k, hk, hks⟩ := st.visible_of_row hr (inLlmWindow_pinned kind pin)
          obtain ⟨hk, nex, -⟩ := mem_messagesForLlm.mp hk
          rw [eq_of_filterMap_nodup st.ids hm hk hid hks.dbId, nex] at ex
          cases ex
    · exact .inr ((R.mem_below_iff st hr).mpr (List.mem_map.mpr ⟨m, hm', hid⟩))
  · push Not at known
    rw [st.pin_other split known] at pin
    obtain ⟨m, hm, hs⟩ := st.visible_of_row hr (inLlmWindow_pinned kind pin)
    exact absurd hs.dbId (known m (mem_messagesForLlm.mp hm).1)

/-- The window after the sync is what the model sees exactly when the summary cuts off the rows of the
kept tail. -/
lemma Rows.window_iff
    (nd : ((s.table.rows.map (pinRow (newPins p s head oid text)) ++
      [summaryRowOf s.table (p.keptTail s.messages) oid text]).map Row.id).Nodup) :
    llmWindowRows (s.table.rows.map (pinRow (newPins p s head oid text)) ++
        [summaryRowOf s.table (p.keptTail s.messages) oid text]) none true =
      above.map (pinRow (newPins p s head oid text)) ++
        summaryRowOf s.table (p.keptTail s.messages) oid text :: below ↔
    (∀ r ∈ above, r.kind ≠ .summary) ∧ Cuts s.table (p.keptTail s.messages) := by
  have act := getActiveSummary_after nd
  have win : ∀ r ∈ s.table.rows, pinRow (newPins p s head oid text) r ∈
      llmWindowRows (s.table.rows.map (pinRow (newPins p s head oid text)) ++
        [summaryRowOf s.table (p.keptTail s.messages) oid text]) none true ↔
      (r.kind = .chat ∨ r.kind = .note) ∧ ((pinRow (newPins p s head oid text) r).pinned = true ∨
        summarySeq s.table (p.keptTail s.messages) < r.seq) := by
    intro r hr
    rw [mem_llmWindowRows, act, inLlmWindow_after hr]
    exact and_iff_right (List.mem_append_left _ (List.mem_map_of_mem hr))
  constructor
  · intro e
    have ord := @llmWindowRows_pairwise _ none true nd
    rw [e, List.pairwise_append, List.pairwise_cons] at ord
    obtain ⟨-, ⟨below_ord, -⟩, above_ord⟩ := ord
    have front : ∀ r ∈ above, ¬ summarySeq s.table (p.keptTail s.messages) < r.seq := by
      intro r hr
      have lt := above_ord _ (List.mem_map_of_mem hr) _ List.mem_cons_self
      exact (pos_lt_summary (R.mem_above hr).1).mp lt
    refine ⟨?_, ?_⟩
    · intro r hr sum
      have mem : pinRow (newPins p s head oid text) r ∈ above.map (pinRow (newPins p s head oid text)) ++
          summaryRowOf s.table (p.keptTail s.messages) oid text :: below :=
        List.mem_append_left _ (List.mem_map_of_mem hr)
      rw [← e, win r (R.mem_above hr).1, sum] at mem
      simp at mem
    · intro r hr kind
      rw [← R.mem_below_iff st hr]
      constructor
      · intro behind
        have mem := (win r hr).mpr ⟨kind, .inr behind⟩
        rw [e] at mem
        rcases List.mem_append.mp mem with mem | mem
        · obtain ⟨r', hr', e'⟩ := List.mem_map.mp mem
          have seq : (pinRow (newPins p s head oid text) r').seq =
              (pinRow (newPins p s head oid text) r).seq := congrArg Row.seq e'
          rw [pinRow_seq, pinRow_seq] at seq
          exact absurd (seq ▸ behind) (front r' hr')
        · cases List.mem_cons.mp mem with
          | inl e' =>
            have kind' : r.kind = .summary := congrArg Row.kind e'
            simp [kind'] at kind
          | inr mem =>
            have same : r = pinRow (newPins p s head oid text) r :=
              List.inj_on_of_nodup_map s.table.distinct hr (R.mem_below mem).1 rfl
            rwa [← same] at mem
      · intro mem
        exact (summary_pos_lt hr).mp (below_ord r mem)
  · rintro ⟨ns, cuts⟩
    have cut : ∀ r ∈ s.table.rows, r.kind = .chat ∨ r.kind = .note →
        (summarySeq s.table (p.keptTail s.messages) < r.seq ↔ r ∈ below) :=
      fun r hr kind => (cuts r hr kind).trans (R.mem_below_iff st hr).symm
    have kind_above : ∀ r ∈ above, r.kind = .chat ∨ r.kind = .note :=
      fun r hr => kind_of_window (R.mem_above hr).2 (ns r hr)
    have ord := R.ordered
    rw [List.pairwise_append] at ord
    obtain ⟨above_ord, below_ord, between⟩ := ord
    have front : ∀ r ∈ above, r.pos < (summaryRowOf s.table (p.keptTail s.messages) oid text).pos := by
      intro r hr
      rw [pos_lt_summary (R.mem_above hr).1, cut r (R.mem_above hr).1 (kind_above r hr)]
      intro hb
      exact absurd (between r hr r hb) (lt_irrefl _)
    refine llmWindowRows_ext nd ?_ ?_
    · rw [List.pairwise_append, List.pairwise_cons, List.pairwise_map]
      refine ⟨above_ord, ⟨?_, below_ord⟩, ?_⟩
      · intro r hr
        rw [summary_pos_lt (R.mem_below hr).1, cut r (R.mem_below hr).1 (R.kind_below hr)]
        exact hr
      · intro a ha b hb
        obtain ⟨r, hr, rfl⟩ := List.mem_map.mp ha
        cases List.mem_cons.mp hb with
        | inl e => exact e ▸ front r hr
        | inr hb => exact between r hr b hb
    · intro k
      rw [act]
      constructor
      · intro hk
        rcases List.mem_append.mp hk with hk | hk
        · obtain ⟨r, hr, rfl⟩ := List.mem_map.mp hk
          refine ⟨List.mem_append_left _ (List.mem_map_of_mem (R.mem_above hr).1), ?_⟩
          rw [inLlmWindow_after (R.mem_above hr).1]
          exact ⟨kind_above r hr, .inl (R.pinned_above st split hr)⟩
        · cases List.mem_cons.mp hk with
          | inl e =>
            rw [e]
            refine ⟨by simp, ?_⟩
            simp [inLlmWindow, beforeBoundary, atOrAfterPos, summaryRowOf, messageRow, savedKind]
          | inr hk =>
            have hr := (R.mem_below hk).1
            rw [← R.pinRow_below oid text st split hk]
            refine ⟨List.mem_append_left _ (List.mem_map_of_mem hr), ?_⟩
            rw [inLlmWindow_after hr]
            exact ⟨R.kind_below hk, .inr ((cut k hr (R.kind_below hk)).mpr hk)⟩
      · rintro ⟨hk, w⟩
        rcases List.mem_append.mp hk with hk | hk
        · obtain ⟨r, hr, rfl⟩ := List.mem_map.mp hk
          rw [inLlmWindow_after hr] at w
          obtain ⟨kind, w⟩ := w
          have mem : r ∈ above ∨ r ∈ below := by
            cases w with
            | inl pin => exact R.mem_of_pinned st split hr kind pin
            | inr behind => exact .inr ((cut r hr kind).mp behind)
          cases mem with
          | inl ha => exact List.mem_append_left _ (List.mem_map_of_mem ha)
          | inr hb =>
            rw [R.pinRow_below oid text st split hb]
            exact List.mem_append_right _ (List.mem_cons_of_mem _ hb)
        · rw [List.mem_singleton.mp hk]
          exact List.mem_append_right _ List.mem_cons_self

omit st in
/-- No row above the summary is itself a summary. -/
lemma Rows.no_summary_iff : (∀ r ∈ above, r.kind ≠ .summary) ↔
    ∀ m ∈ messagesForLlm s.messages, m.isSummary = true →
      ¬ (m.oid ∈ p.toSummarise ∧ m.oid ∈ p.retained) := by
  constructor
  · intro ns m hm sum both
    obtain ⟨hm, ex, role⟩ := mem_messagesForLlm.mp hm
    rw [split] at hm
    have above_ : m ∈ head := by
      cases List.mem_append.mp hm with
      | inl h => exact h
      | inr h =>
        have := (not_excluded_of_keptTail h).2
        rw [sum] at this
        cases this
    have keep : p.keeps m = true := by
      rw [Plan.keeps, Plan.flag_excluded]
      simp [ex, both]
    obtain ⟨r, hr, hs⟩ := forall₂_left R.above
      (List.mem_filter.mpr ⟨mem_messagesForLlm.mpr ⟨above_, ex, role⟩, keep⟩)
    rw [hs.isSummary, decide_eq_true_eq] at sum
    exact ns r hr sum
  · intro ns r hr kind
    obtain ⟨m, hm, hs⟩ := forall₂_right R.above hr
    obtain ⟨hm, keep⟩ := List.mem_filter.mp hm
    have sum : m.isSummary = true := by
      rw [hs.isSummary, decide_eq_true_eq]
      exact kind
    obtain ⟨mem, ex, role⟩ := mem_messagesForLlm.mp hm
    refine ns m (mem_messagesForLlm.mpr ⟨?_, ex, role⟩) sum ?_
    · rw [split]
      exact List.mem_append_left _ mem
    · rw [Plan.keeps, Plan.flag_excluded] at keep
      have keep' := keep
      simp only [ex, sum, Bool.false_or, Bool.and_true, Bool.not_or, Bool.and_eq_true, Bool.not_and,
        Bool.or_eq_true, Bool.not_eq_true', decide_eq_false_iff_not, not_not] at keep'
      exact ⟨keep'.2, keep'.1.resolve_left fun out => out keep'.2⟩

end

end

/-- A session whose transcript is settled has nothing to write. -/
lemma Settled.sync_eq {s : Session} (st : Settled s) : sync false s = s := by
  have idle : newMessages s = [] := by
    rw [newMessages, List.filter_eq_nil_iff]
    intro m hm
    simpa using st.seen m hm
  have pins : pinUpdates s.cp s.messages = [] := by
    rw [pinUpdates, List.filterMap_eq_nil_iff]
    intro m hm
    cases st.stored m hm with
    | inl h => simp [pinUpdate, h.2]
    | inr h =>
      obtain ⟨-, r, -, hs, fl⟩ := h
      simp [pinUpdate, hs.dbId, fl, hs.pinned]
  rw [sync, if_pos ⟨idle, pins⟩]

/-- A compaction survives a reload exactly when it retains no summary and the row its summary is anchored
at cuts off the rows of the kept tail. -/
theorem compaction_reloads_iff {loads : String → Option Json} {keepLast oid : Nat} {text : String}
    {s : Session} (st : Settled s) (new : oid ∉ s.cp.persisted) (some_text : text ≠ "") :
    Reloads (sync false (compact loads keepLast oid text s)) ↔
      ∀ p, compactionPlan loads keepLast s.messages = some p → p.Clean s := by
  rw [compact, summariseInner]
  cases plan : compactionPlan loads keepLast s.messages with
  | none => simpa [st.sync_eq] using st.reloads
  | some p =>
    obtain ⟨head, split, after⟩ := p.applySummary_eq s.messages oid text
    obtain ⟨above, below, R⟩ := st.rows split
    have old : ∀ m ∈ head.map p.settle, m.oid ∈ s.cp.persisted := by
      intro k hk
      obtain ⟨m, hm, rfl⟩ := List.mem_map.mp hk
      rw [Plan.settle_oid]
      apply st.seen
      rw [split]
      exact List.mem_append_left _ hm
    obtain ⟨rows, messages⟩ := sync_summary s.table text old new
      fun m hm => st.seen m (mem_of_keptTail hm)
    simp only [some_text, if_false, after, Option.some.injEq, forall_eq']
    have nd := (sync false ⟨s.table, s.cp, head.map p.settle ++
      summaryMessage oid text :: p.keptTail s.messages⟩).table.distinct
    have clean : p.Clean s ↔ (∀ r ∈ above, r.kind ≠ .summary) ∧ Cuts s.table (p.keptTail s.messages) := by
      rw [R.no_summary_iff split, st.cuts_iff]
      exact ⟨fun h => ⟨h.summaries, h.anchored⟩, fun h => ⟨h.1, h.2⟩⟩
    rw [clean]
    have stores := R.stores oid text st split
    unfold Reloads
    change List.Forall₂ Stores (llmWindowRows (sync false ⟨s.table, s.cp, head.map p.settle ++
      summaryMessage oid text :: p.keptTail s.messages⟩).table.rows none true)
      (messagesForLlm (sync false ⟨s.table, s.cp, head.map p.settle ++
        summaryMessage oid text :: p.keptTail s.messages⟩).messages) ↔ _
    rw [messages]
    rw [rows] at nd ⊢
    rw [← R.window_iff st split nd]
    constructor
    · intro h
      refine forall₂_left_unique h stores ?_
      intro a ha b hb c hac hbc
      refine List.inj_on_of_nodup_map nd (mem_llmWindowRows.mp ha).1 ?_ ?_
      · rcases List.mem_append.mp hb with hb | hb
        · obtain ⟨r, hr, rfl⟩ := List.mem_map.mp hb
          exact List.mem_append_left _ (List.mem_map_of_mem (R.mem_above hr).1)
        · cases List.mem_cons.mp hb with
          | inl e =>
            rw [e]
            exact List.mem_append_right _ (List.mem_singleton_self _)
          | inr hb =>
            rw [← R.pinRow_below oid text st split hb]
            exact List.mem_append_left _ (List.mem_map_of_mem (R.mem_below hb).1)
      · have e : some a.id = some b.id := by rw [← hac.dbId, ← hbc.dbId]
        exact Option.some.inj e
    · intro e
      rw [newPins] at e
      rw [e]
      exact stores

/-- A session with the given rows, freshly loaded. -/
def loadedSession (tb : Table) : Session where
  table := tb
  cp := markLoaded {} ((llmWindowRows tb.rows none true).map fun r => chatMessageFromRow r.id r)
  messages := (llmWindowRows tb.rows none true).map fun r => chatMessageFromRow r.id r

/-- A question and its answer. -/
def answered : Table where
  rows := [{ id := 1, role := .user, content := some "hello", seq := 1024 },
    { id := 2, role := .assistant, content := some "hi", seq := 2048 }]
  clock := 3
  fresh := by decide
  distinct := by decide

/-- A question with a note on what it mentions, and its answer. -/
def answeredWithNote : Table where
  rows := [{ id := 1, role := .user, content := some "hello @file", seq := 1024 },
    { id := 2, role := .user, content := some "file", seq := 2048, kind := .note, pinned := true,
      extra := { hiddenFromSummary := true } },
    { id := 3, role := .assistant, content := some "hi", seq := 3072 }]
  clock := 4
  fresh := by decide
  distinct := by decide

/-- A loaded session is settled. -/
lemma loadedSession_settled {tb : Table} (roles : ∀ r ∈ tb.rows, r.role ≠ .system) :
    Settled (loadedSession tb) := by
  have mem : ∀ r, r ∈ llmWindowRows tb.rows none true → r ∈ tb.rows :=
    fun r hr => (mem_llmWindowRows.mp hr).1
  have ids : ((loadedSession tb).messages.filterMap ChatMessage.dbId).Nodup := by
    have e : ((loadedSession tb).messages.filterMap ChatMessage.dbId) =
        (llmWindowRows tb.rows none true).map Row.id := by
      rw [loadedSession, List.filterMap_map, ← List.filterMap_eq_map]
      rfl
    rw [e]
    exact (sortOn_perm.map Row.id).nodup_iff.mpr (nodup_map_filter tb.distinct)
  have visible : messagesForLlm (loadedSession tb).messages = (loadedSession tb).messages := by
    rw [messagesForLlm, List.filter_eq_self]
    intro m hm
    obtain ⟨r, hr, rfl⟩ := List.mem_map.mp hm
    have role := roles r (mem r hr)
    simp [chatMessageFromRow, role]
  refine ⟨?_, ids, ?_, ?_⟩
  · rw [Reloads, visible, loadedSession, List.forall₂_map_right_iff, List.forall₂_same]
    exact fun _ _ => rfl
  · intro m hm
    exact markLoaded_persisted.mpr (.inr (List.mem_map_of_mem hm))
  · intro m hm
    have hm' := hm
    obtain ⟨r, hr, rfl⟩ := List.mem_map.mp hm
    exact .inr ⟨roles r (mem r hr), r, mem r hr, rfl, markLoaded_pin ids hm' rfl⟩

/-- The compaction of a question with its answer kept. -/
theorem compaction_reloads_answered :
    Reloads (sync false (compact (fun _ => none) 1 9 "greetings" (loadedSession answered))) := by
  refine (compaction_reloads_iff (loadedSession_settled (by decide)) (by decide) (by decide)).mpr ?_
  intro p plan
  obtain rfl : p = ⟨{1}, ∅⟩ := by
    have e : compactionPlan (fun _ => none) 1 (loadedSession answered).messages = some ⟨{1}, ∅⟩ := by
      decide
    rw [e] at plan
    exact (Option.some.inj plan).symm
  exact ⟨by decide, by decide⟩

/-- The summary goes before the note in memory and behind it in the database. -/
theorem compaction_reorders_note :
    Settled (loadedSession answeredWithNote) ∧
    (∀ m ∈ (loadedSession answeredWithNote).messages, m.role ≠ .tool ∧ m.toolCalls = []) ∧
    ¬ Reloads (sync false (compact (fun _ => none) 1 9 "greetings" (loadedSession answeredWithNote))) :=
  ⟨loadedSession_settled (by decide), by decide, by decide⟩

end OpenAgentd.Transcript
