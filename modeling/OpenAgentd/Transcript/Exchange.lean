import OpenAgentd.Lib.Run
import OpenAgentd.Store.Pairing
import OpenAgentd.Store.Queue
import OpenAgentd.Transcript.Flush

/-!
# Tool exchanges and the queue

A running turn stores an assistant message with tool calls (`sync`), runs the tools and stores their
results. Meanwhile the transactions of the queue write to the same session: whatever they append between
the two ends up between the calls and the results, and `sanitize_tool_message_pairs` then drops the
exchange from the history (`mention_breaks_exchange`).

An exchange is kept in every run in which nothing but queued rows stands behind the calls at the moment the
results are stored (`exchange_kept`). `Placed` and `Tight` are the invariants: where the rows of the exchange
are, and that nothing comes between them.
-/

namespace OpenAgentd.Transcript
open OpenAgentd.Lib OpenAgentd.Store

/-- The state of the turn. -/
inductive Phase where
  | before
  | asked
  | answered
  deriving DecidableEq

/-- A session with a running turn. -/
structure Turn where
  session : Session
  revert : Option Revert := none
  phase : Phase := .before

/-- The history for the model. -/
def Turn.history (loads : String → Option Json) (t : Turn) : List ChatMessage :=
  getMessagesForLlm loads { table := t.session.table, revert := t.revert }

/-- A transaction on the queue. -/
def Turn.queue (t : Turn) (op : QueueOp) : Turn :=
  { t with session := { t.session with table := op.run t.session.table } }

/-- New messages and the sync after them. -/
def Turn.store (t : Turn) (ms : List ChatMessage) (phase : Phase) : Turn :=
  { t with session := sync false { t.session with messages := t.session.messages ++ ms }, phase }

/-- What happens to the session. -/
inductive TurnAct where
  | queue (op : QueueOp)
  | calls
  | results

/-- The steps of a turn that stores the calls `a` and then the results `ts`, and of the queue. -/
inductive TurnStep (a : ChatMessage) (ts : List ChatMessage) : Turn → TurnAct → Turn → Prop where
  | queue {t op} :
    TurnStep a ts t (.queue op) (t.queue op)
  | calls {t} :
    t.phase = .before →
    TurnStep a ts t .calls (t.store [a] .asked)
  | results {t} :
    t.phase = .asked →
    TurnStep a ts t .results (t.store ts .answered)

/-- The session is synced. -/
structure UpToDate (s : Session) : Prop where
  seen : ∀ m ∈ s.messages, m.oid ∈ s.cp.persisted
  pins : pinUpdates s.cp s.messages = []
  ids : ∀ m ∈ s.messages, ∀ i, m.dbId = some i → i < s.table.clock

/-- A message the turn has made and not stored yet. -/
structure New (s : Session) (m : ChatMessage) : Prop where
  unseen : m.oid ∉ s.cp.persisted
  noRow : m.dbId = none
  noSummary : m.isSummary = false
  own : m.extra.attachmentForMessageId = none

/-- A complete exchange that starts in the session `t`: a synced transcript, no undo staged, new messages of
which the results answer the calls, and calls that parse. -/
structure Exchange (loads : String → Option Json) (t : Turn) (a : ChatMessage) (ts : List ChatMessage) :
    Prop where
  phase : t.phase = .before
  revert : t.revert = none
  synced : UpToDate t.session
  new : ∀ m ∈ a :: ts, New t.session m
  objects : ((a :: ts).map ChatMessage.oid).Nodup
  answers : Answers a ts
  parses : ∀ tc ∈ a.toolCalls, (loads tc.arguments).isSome
  others : ∀ r ∈ t.session.table.rows, ∀ tc ∈ (rowMessage r).toolCalls,
    tc.id ∈ a.toolCalls.map ToolCall.id → (loads tc.arguments).isSome

/-- Results are stored when nothing but queued rows stands behind the calls. -/
def Unbroken (a : ChatMessage) (t : Turn) : TurnAct → Prop
  | .results => ∀ m ∈ t.session.messages, m.oid = a.oid → ∀ k ∈ t.session.table.rows,
      m.dbId = some k.id → ∀ r ∈ t.session.table.rows, k.pos < r.pos → r.kind = .queued
  | _ => True

instance (a : ChatMessage) (t : Turn) : (act : TurnAct) → Decidable (Unbroken a t act)
  | .results => inferInstanceAs (Decidable (∀ m ∈ t.session.messages, m.oid = a.oid →
      ∀ k ∈ t.session.table.rows, m.dbId = some k.id →
        ∀ r ∈ t.session.table.rows, k.pos < r.pos → r.kind = .queued))
  | .calls => instDecidableTrue
  | .queue _ => instDecidableTrue

/-- The history has the calls with all the results directly behind them. -/
def Kept (loads : String → Option Json) (a : ChatMessage) (ts : List ChatMessage) (t : Turn) : Prop :=
  ∃ pre exchange post, t.history loads = pre ++ exchange ++ post ∧
    exchange.map stored = (a :: ts).map stored

/-! ## What a sync appends -/

section
variable {s : Session} {ks : List ChatMessage} {m : ChatMessage}

/-- No new summary, no anchor. -/
lemma summaryAnchorIds_eq_nil {seen : List Nat} {ms : List ChatMessage}
    (h : ∀ m ∈ ms, m.oid ∈ seen ∨ m.isSummary = false) : summaryAnchorIds seen ms = [] := by
  induction ms with
  | nil => rfl
  | cons m ms ih =>
    rw [summaryAnchorIds, if_neg, ih fun k hk => h k (List.mem_cons_of_mem _ hk)]
    intro new
    simp only [Bool.and_eq_true, decide_eq_true_eq] at new
    cases h m List.mem_cons_self with
    | inl seen => exact new.2 seen
    | inr no => simp [no] at new

/-- Nothing to pin. -/
lemma pinRow_nil (r : Row) : pinRow [] r = r := rfl

/-- The rows and the messages after new messages are synced. -/
structure Appends (s : Session) (ks : List ChatMessage) (s' : Session) (ns : List Row)
    (ks' : List ChatMessage) : Prop where
  rows : s'.table.rows = s.table.rows ++ ns
  messages : s'.messages = s.messages ++ ks'
  stores : List.Forall₂ Stores ns ks'
  same : List.Forall₂ (fun k k' => k' = { k with dbId := k'.dbId }) ks ks'
  sorted : ns.Pairwise (fun a b => a.pos < b.pos)
  behind : ∀ r ∈ s.table.rows, ∀ n ∈ ns, r.pos < n.pos
  kinds : ∀ n ∈ ns, n.kind = .chat ∨ n.kind = .note
  persisted : ∀ o, o ∈ s'.cp.persisted ↔ o ∈ s.cp.persisted ∨ o ∈ ks.map ChatMessage.oid
  synced : UpToDate s'

/-- A sync appends the new messages at the end. -/
lemma sync_appends (ks : List ChatMessage) (S : UpToDate s) (new : ∀ k ∈ ks, New s k) (st : ∀ k ∈ ks, storable k = true)
    (ne : ks ≠ []) :
    ∃ ns ks', Appends s ks (sync false { s with messages := s.messages ++ ks }) ns ks' := by
  have pins : pinUpdates s.cp (s.messages ++ ks) = [] := by
    rw [pinUpdates, List.filterMap_append]
    have h : ks.filterMap (pinUpdate s.cp) = [] := by
      rw [List.filterMap_eq_nil_iff]
      intro k hk
      simp [pinUpdate, (new k hk).noRow]
    rw [h, List.append_nil]
    exact S.pins
  have anchors : summaryAnchorIds s.cp.persisted (s.messages ++ ks) = [] := by
    apply summaryAnchorIds_eq_nil
    intro m hm
    cases List.mem_append.mp hm with
    | inl h => exact .inl (S.seen m h)
    | inr h => exact .inr (new m h).noSummary
  have work : newMessages { s with messages := s.messages ++ ks } ≠ [] := by
    obtain ⟨k, hk⟩ := List.exists_mem_of_ne_nil ks ne
    apply List.ne_nil_of_mem (a := k)
    simp [newMessages, hk, (new k hk).unseen]
  rw [sync, if_neg fun h => work h.1]
  simp only [Bool.false_eq_true, if_false]
  have fresh : ∀ m ∈ s.messages ++ ks, Fresh s.cp.persisted (fun oid =>
      (resolveSummarySeqs s.table []).lookup oid) m := by
    intro m hm unseen
    cases List.mem_append.mp hm with
    | inl h => exact absurd (S.seen m h) unseen
    | inr h => exact ⟨(new m h).noRow, fun _ => rfl, fun _ => (new m h).noSummary⟩
  obtain ⟨ns, F⟩ := flushNew_spec
    (f := { table := s.table.update (pinRow []) (fun _ => rfl), cp := flushPins s.cp [] })
    (.start rfl) fresh
  have e : syncTransaction { s with messages := s.messages ++ ks } =
      flushNew s.cp.persisted (fun oid => (resolveSummarySeqs s.table []).lookup oid)
        { table := s.table.update (pinRow []) (fun _ => rfl), cp := flushPins s.cp [] }
        (s.messages ++ ks) := by
    simp only [syncTransaction, pins, anchors]
  rw [e]
  generalize flushNew s.cp.persisted _ _ (s.messages ++ ks) = t at F ⊢
  obtain ⟨⟨tb, cp, tail⟩, ms'⟩ := t
  obtain ⟨ks', rfl, K⟩ := keeps_prefix F.keeps fun m hm => by simp [unsaved, S.seen m hm]
  have rows : tb.rows = s.table.rows ++ ns := by
    have h : tb.rows = s.table.rows.map (pinRow []) ++ ns := F.rows
    rwa [List.map_congr_left fun r _ => pinRow_nil r, List.map_id'] at h
  have stores : List.Forall₂ Stores ns ks' := by
    have h := F.stores
    have old : s.messages.filter (unsaved s.cp.persisted) = [] := by
      rw [List.filter_eq_nil_iff]
      intro m hm
      simp [unsaved, S.seen m hm]
    have new : ks'.filter (unsaved s.cp.persisted) = ks' := by
      rw [List.filter_eq_self]
      intro k' hk'
      obtain ⟨k, hk, keep⟩ := forall₂_left K hk'
      simp [unsaved, keep.oid, keep.storable, (new k hk).unseen, st k hk]
    rwa [List.filter_append, old, new, List.nil_append] at h
  have of_row : ∀ k' ∈ ks', ∃ n ∈ ns, Stores n k' := fun k' hk' => forall₂_left stores hk'
  have distinct : ∀ n ∈ ns, ∀ n' ∈ ns, n'.id = n.id → n' = n := by
    intro n hn n' hn' e
    apply List.inj_on_of_nodup_map tb.distinct _ _ e
    · rw [rows]
      exact List.mem_append_right _ hn'
    · rw [rows]
      exact List.mem_append_right _ hn
  have persisted : ∀ o, o ∈ cp.persisted ↔ o ∈ s.cp.persisted ∨ o ∈ ks.map ChatMessage.oid := by
    intro o
    rw [F.persisted]
    refine or_congr_right' fun unseen => ?_
    constructor
    · rintro ⟨m, hm, rfl, -, -⟩
      cases List.mem_append.mp hm with
      | inl h => exact absurd (S.seen m h) unseen
      | inr h => exact List.mem_map_of_mem h
    · intro h
      obtain ⟨k, hk, rfl⟩ := List.mem_map.mp h
      exact ⟨k, List.mem_append_right _ hk, rfl, unseen, .inl (st k hk)⟩
  refine ⟨ns, ks', rows, rfl, stores, K.imp fun _ _ h => h.1, F.sorted, ?_, ?_, persisted, ?_, ?_, ?_⟩
  · intro r hr n hn
    exact F.behind r (List.mem_map.mpr ⟨r, hr, pinRow_nil r⟩) n hn
  · intro n hn
    obtain ⟨k', hk', hs⟩ := forall₂_right stores hn
    obtain ⟨k, hk, keep⟩ := forall₂_left K hk'
    have no := (new k hk).noSummary
    rw [show k.isSummary = k'.isSummary from by rw [keep.1], hs.isSummary, decide_eq_false_iff_not] at no
    rcases F.kinds n hn with h | h | h
    · exact .inl h
    · exact .inr h
    · exact absurd h no
  · intro m hm
    rw [persisted]
    cases List.mem_append.mp hm with
    | inl h => exact .inl (S.seen m h)
    | inr h =>
      obtain ⟨k, hk, keep⟩ := forall₂_left K h
      rw [keep.oid]
      exact .inr (List.mem_map_of_mem hk)
  · rw [pinUpdates, List.filterMap_eq_nil_iff]
    intro m hm
    cases List.mem_append.mp hm with
    | inl h =>
      have old := List.filterMap_eq_nil_iff.mp S.pins m h
      cases hid : m.dbId with
      | none => simp [pinUpdate, hid]
      | some i =>
        have flushed : cp.flushedPinned i = s.cp.flushedPinned i := by
          have none : ns.reverse.find? (fun n => n.id = i) = none := by
            rw [List.find?_eq_none]
            intro n hn
            have lt := (S.ids m h i hid).trans_le (F.ids n (List.mem_reverse.mp hn))
            simpa using lt.ne'
          rw [F.pins, none]
          rfl
        simp only [pinUpdate, hid, ite_eq_right_iff, reduceCtorEq, imp_false, not_and, not_not] at old ⊢
        intro _ role
        rw [flushed]
        exact old (S.seen m h) role
    | inr h =>
      obtain ⟨n, hn, hs⟩ := of_row m h
      have flushed : cp.flushedPinned n.id = some n.pinned := by
        rw [F.pins]
        cases e : ns.reverse.find? (fun k => k.id = n.id) with
        | none =>
          have := List.find?_eq_none.mp e n (List.mem_reverse.mpr hn)
          simp at this
        | some n' =>
          have hid : n'.id = n.id := by simpa using List.find?_some e
          rw [distinct n hn n' (List.mem_reverse.mp (List.mem_of_find?_eq_some e)) hid]
          rfl
      simp [pinUpdate, hs.dbId, flushed, hs.pinned]
  · intro m hm i hid
    cases List.mem_append.mp hm with
    | inl h => exact (S.ids m h i hid).trans_le F.clock
    | inr h =>
      obtain ⟨n, hn, hs⟩ := of_row m h
      rw [hs.dbId] at hid
      rw [← Option.some.inj hid]
      apply tb.fresh
      rw [rows]
      exact List.mem_append_right _ hn

end

/-! ## Where the rows of an exchange are -/

/-- The rows `ks` are in the window, in this order, whatever is queued or cancelled. -/
structure Placed (tb : Table) (ks : List Row) : Prop where
  rows : ∀ k ∈ ks, k ∈ tb.rows
  kinds : ∀ k ∈ ks, k.kind = .chat ∨ k.kind = .note
  own : ∀ k ∈ ks, k.extra.attachmentForMessageId = none
  sorted : ks.Pairwise (fun a b => a.pos < b.pos)
  summaries : ∀ r ∈ tb.rows, r.kind = .summary → ∀ k ∈ ks, r.pos < k.pos

/-- No row of the window comes between the rows `ks`. -/
def Tight (tb : Table) (ks : List Row) : Prop :=
  ∀ r ∈ tb.rows, r ∈ ks ∨ r.kind = .queued ∨ (∀ k ∈ ks, r.pos < k.pos) ∨ ∀ k ∈ ks, k.pos < r.pos

section
variable {tb tb' : Table} {ks ns : List Row} {r k : Row}

/-- Chats and notes are not queued. -/
lemma not_queued (h : k.kind = .chat ∨ k.kind = .note) : k.kind ≠ .queued := by
  cases h with
  | inl e =>
    rw [e]
    exact nofun
  | inr e =>
    rw [e]
    exact nofun

/-- A lower seq is in front. -/
lemma pos_lt_of_seq (h : k.seq < r.seq) : k.pos < r.pos := Row.pos_lt.mpr (.inl h)

/-- The transactions of the queue leave the rows of an exchange where they are. -/
lemma Placed.queue (P : Placed tb ks) (E : QueueEffect tb tb') : Placed tb' ks where
  rows := fun k hk => E.stays k (P.rows k hk) (not_queued (P.kinds k hk)) (P.own k hk)
  kinds := P.kinds
  own := P.own
  sorted := P.sorted
  summaries := by
    intro r hr sum k hk
    cases E.source r hr with
    | inl old => exact P.summaries r old sum k hk
    | inr new => exact absurd sum new.2.1

/-- The queue comes behind. -/
lemma Tight.queue (P : Placed tb ks) (T : Tight tb ks) (E : QueueEffect tb tb') : Tight tb' ks := by
  intro r hr
  cases E.source r hr with
  | inl old => exact T r old
  | inr new => exact .inr (.inr (.inr fun k hk => pos_lt_of_seq (new.1 k (P.rows k hk))))

/-- Rows that are appended. -/
lemma Placed.append (P : Placed tb ks) (rows : tb'.rows = tb.rows ++ ns)
    (behind : ∀ r ∈ tb.rows, ∀ n ∈ ns, r.pos < n.pos)
    (sorted : ns.Pairwise (fun a b => a.pos < b.pos)) (kinds : ∀ n ∈ ns, n.kind = .chat ∨ n.kind = .note)
    (own : ∀ n ∈ ns, n.extra.attachmentForMessageId = none) : Placed tb' (ks ++ ns) where
  rows := by
    intro k hk
    rw [rows]
    exact (List.mem_append.mp hk).elim (fun h => List.mem_append_left _ (P.rows k h))
      (fun h => List.mem_append_right _ h)
  kinds := fun k hk => (List.mem_append.mp hk).elim (P.kinds k) (kinds k)
  own := fun k hk => (List.mem_append.mp hk).elim (P.own k) (own k)
  sorted := by
    rw [List.pairwise_append]
    exact ⟨P.sorted, sorted, fun a ha b hb => behind a (P.rows a ha) b hb⟩
  summaries := by
    intro r hr sum k hk
    rw [rows] at hr
    cases List.mem_append.mp hr with
    | inl hr =>
      cases List.mem_append.mp hk with
      | inl hk => exact P.summaries r hr sum k hk
      | inr hk => exact behind r hr k hk
    | inr hr =>
      cases kinds r hr with
      | inl e => simp [e] at sum
      | inr e => simp [e] at sum

/-- No rows are in place. -/
lemma Placed.nil : Placed tb [] := ⟨by simp, by simp, by simp, .nil, by simp⟩

/-- Placed rows without others between them are one block of the window. -/
lemma Placed.window (P : Placed tb ks) (T : Tight tb ks) (ne : ks ≠ []) :
    ∃ pre post, llmWindowRows tb.rows none true = pre ++ (ks ++ post) := by
  refine ordered_block (llmWindowRows_pairwise tb.distinct) P.sorted ne ?_ ?_
  · intro k hk
    refine mem_llmWindowRows.mpr ⟨P.rows k hk, ?_⟩
    refine (inLlmWindow_iff (P.kinds k hk)).mpr fun s e => .inr ?_
    obtain ⟨⟨hs, sum, -⟩, -⟩ := (getActiveSummary_eq_some tb.distinct).mp e
    exact (P.summaries s hs sum k hk).le
  · intro r hr
    obtain ⟨mem, win⟩ := mem_llmWindowRows.mp hr
    rcases T r mem with h | h | h | h
    · exact .inl h
    · exact absurd h (window_kind win).2.1
    · exact .inr (.inl h)
    · exact .inr (.inr h)

end

/-! ## The runs of a turn -/

section
variable {loads : String → Option Json} {a m : ChatMessage} {ts ms : List ChatMessage} {r : Row}

/-- The row's id is not stored. -/
lemma stored_setDbId {k : ChatMessage} (h : k = { m with dbId := k.dbId }) : stored k = stored m := by
  rw [h]
  rfl

/-- The rows' ids are not stored. -/
lemma stored_setDbIds (h : List.Forall₂ (fun m k => k = { m with dbId := k.dbId }) ts ms) :
    ms.map stored = ts.map stored := by
  induction h with
  | nil => rfl
  | cons hk _ ih => rw [List.map_cons, List.map_cons, stored_setDbId hk, ih]

/-- How far the turn is. -/
inductive Progress (a : ChatMessage) (ts : List ChatMessage) (t : Turn) : Prop where
  | before :
    t.phase = .before →
    UpToDate t.session →
    (∀ m ∈ a :: ts, New t.session m) →
    Progress a ts t
  | asked {m k} :
    t.phase = .asked →
    UpToDate t.session →
    (∀ m ∈ ts, New t.session m) →
    m ∈ t.session.messages →
    m.oid = a.oid →
    stored m = stored a →
    Stores k m →
    Placed t.session.table [k] →
    Progress a ts t
  | answered {ms ks} :
    t.phase = .answered →
    ms.map stored = (a :: ts).map stored →
    List.Forall₂ Stores ks ms →
    Placed t.session.table ks →
    Tight t.session.table ks →
    Progress a ts t

/-- The rows whose calls share an id with the exchange parse. -/
def Parses (loads : String → Option Json) (a : ChatMessage) (tb : Table) : Prop :=
  ∀ r ∈ tb.rows, ∀ tc ∈ (rowMessage r).toolCalls,
    tc.id ∈ a.toolCalls.map ToolCall.id → (loads tc.arguments).isSome

/-- The invariant of a turn. -/
structure Kept.Inv (loads : String → Option Json) (a : ChatMessage) (ts : List ChatMessage) (t : Turn) :
    Prop where
  revert : t.revert = none
  parses : Parses loads a t.session.table
  progress : Progress a ts t

variable {t t' : Turn}

/-- A row that is not of an assistant calls no tool. -/
lemma rowMessage_toolCalls_eq_nil (h : r.role ≠ .assistant) : (rowMessage r).toolCalls = [] :=
  if_neg h

/-- The queue keeps what parses. -/
lemma Parses.queue {tb tb' : Table} (P : Parses loads a tb) (E : QueueEffect tb tb') :
    Parses loads a tb' := by
  intro r hr tc htc
  cases E.source r hr with
  | inl old => exact P r old tc htc
  | inr new =>
    rw [rowMessage_toolCalls_eq_nil (by simp [new.2.2])] at htc
    cases htc

/-- The queue saves no new message. -/
lemma New.queue {op : QueueOp} (N : New t.session m) : New (t.queue op).session m := ⟨N.1, N.2, N.3, N.4⟩

/-- The queue leaves nothing behind. -/
lemma UpToDate.queue {op : QueueOp} (S : UpToDate t.session) : UpToDate (t.queue op).session :=
  ⟨S.seen, S.pins, fun m hm i hi => (S.ids m hm i hi).trans_le (op.effect t.session.table).clock⟩

/-- The transactions of the queue keep the invariant. -/
lemma Kept.Inv.queue {op : QueueOp} (I : Kept.Inv loads a ts t) : Kept.Inv loads a ts (t.queue op) := by
  have E := op.effect t.session.table
  refine ⟨I.revert, I.parses.queue E, ?_⟩
  cases I.progress with
  | before ph S N => exact .before ph S.queue fun m hm => (N m hm).queue
  | asked ph S N hm oid st hs P =>
    exact .asked ph S.queue (fun m hm => (N m hm).queue) hm oid st hs (P.queue E)
  | answered ph st hs P T => exact .answered ph st hs (P.queue E) (T.queue P E)

/-- Storing the calls keeps the invariant. -/
lemma Kept.Inv.calls {t₀ : Turn} (X : Exchange loads t₀ a ts) (I : Kept.Inv loads a ts t)
    (ph : t.phase = .before) : Kept.Inv loads a ts (t.store [a] .asked) := by
  cases I.progress with
  | asked ph' => simp [ph] at ph'
  | answered ph' => simp [ph] at ph'
  | before _ S N =>
    have na := N a List.mem_cons_self
    obtain ⟨ns, ks', A⟩ := sync_appends [a] S (by simpa using na)
      (by simp [storable, X.answers.assistant, hasContent, X.answers.calls]) (by simp)
    obtain ⟨a', rfl, same⟩ : ∃ a', ks' = [a'] ∧ a' = { a with dbId := a'.dbId } := by
      have h := A.same
      cases h with
      | cons h tail =>
        cases tail
        exact ⟨_, rfl, h⟩
    obtain ⟨k, rfl, hs⟩ : ∃ k, ns = [k] ∧ Stores k a' := by
      have h := A.stores
      cases h with
      | cons h tail =>
        cases tail
        exact ⟨_, rfl, h⟩
    have st := stored_setDbId same
    have P : Placed (t.store [a] .asked).session.table [k] := by
      refine Placed.nil.append A.rows A.behind A.sorted A.kinds ?_
      intro n hn
      rw [List.mem_singleton.mp hn, ← hs.extra, same]
      exact na.own
    refine ⟨I.revert, ?_, .asked rfl A.synced ?_ ?_ ?_ st hs P⟩
    · intro r hr tc htc
      rw [show (t.store [a] .asked).session.table.rows = _ from A.rows] at hr
      cases List.mem_append.mp hr with
      | inl old => exact I.parses r old tc htc
      | inr new =>
        rw [List.mem_singleton.mp new] at htc
        intro _
        have e : stored (rowMessage k) = stored a := (stored_rowMessage hs).trans st
        have role : (rowMessage k).role = .assistant := by
          rw [← stored_role, e]
          exact X.answers.assistant
        have calls := congrArg ChatMessage.toolCalls e
        simp only [stored, body, role, X.answers.assistant, if_true] at calls
        rw [calls] at htc
        exact X.parses tc htc
    · intro m hm
      have nm := N m (List.mem_cons_of_mem _ hm)
      refine ⟨?_, nm.2, nm.3, nm.4⟩
      have objects := X.objects
      rw [List.map_cons, List.nodup_cons] at objects
      intro mem
      cases (A.persisted _).mp mem with
      | inl old => exact nm.unseen old
      | inr new =>
        rw [List.map_singleton, List.mem_singleton] at new
        exact objects.1 (new ▸ List.mem_map_of_mem hm)
    · show a' ∈ (sync false _).messages
      rw [A.messages]
      simp
    · rw [same]

/-- Storing the results directly behind the calls keeps the invariant. -/
lemma Kept.Inv.results {t₀ : Turn} (X : Exchange loads t₀ a ts) (I : Kept.Inv loads a ts t)
    (ph : t.phase = .asked) (ok : Unbroken a t .results) :
    Kept.Inv loads a ts (t.store ts .answered) := by
  cases I.progress with
  | before ph' => simp [ph] at ph'
  | answered ph' => simp [ph] at ph'
  | @asked m k _ S N hm oid st hs P =>
    have ne : ts ≠ [] := by
      intro e
      obtain ⟨tc, htc⟩ := List.exists_mem_of_ne_nil _ X.answers.calls
      have mem := (X.answers.ids tc.id).mpr (List.mem_map_of_mem htc)
      rw [e] at mem
      cases mem
    obtain ⟨ns, ts', A⟩ := sync_appends ts S N
      (fun m hm => by simp [storable, X.answers.tools m hm]) ne
    have hk : k ∈ t.session.table.rows := P.rows k List.mem_cons_self
    have roles : ∀ n ∈ ns, n.role = .tool := by
      intro n hn
      obtain ⟨t', ht', hs'⟩ := forall₂_right A.stores hn
      obtain ⟨t₁, ht₁, e⟩ := forall₂_left A.same ht'
      rw [← hs'.role, e]
      exact X.answers.tools t₁ ht₁
    have rows : List.Forall₂ Stores (k :: ns) (m :: ts') := .cons hs A.stores
    refine ⟨I.revert, ?_, .answered rfl ?_ rows ?_ ?_⟩
    · intro r hr tc htc
      rw [show (t.store ts .answered).session.table.rows = _ from A.rows] at hr
      cases List.mem_append.mp hr with
      | inl old => exact I.parses r old tc htc
      | inr new =>
        rw [rowMessage_toolCalls_eq_nil (by simp [roles r new])] at htc
        cases htc
    · rw [List.map_cons, List.map_cons, st, stored_setDbIds A.same]
    · refine P.append A.rows A.behind A.sorted A.kinds ?_
      intro n hn
      obtain ⟨t', ht', hs'⟩ := forall₂_right A.stores hn
      obtain ⟨t₁, ht₁, e⟩ := forall₂_left A.same ht'
      rw [← hs'.extra, e]
      exact (N t₁ ht₁).own
    · intro r hr
      rw [show (t.store ts .answered).session.table.rows = _ from A.rows] at hr
      cases List.mem_append.mp hr with
      | inr new => exact .inl (List.mem_cons_of_mem _ new)
      | inl old =>
        rcases lt_trichotomy r.pos k.pos with lt | e | gt
        · refine .inr (.inr (.inl ?_))
          intro n hn
          cases List.mem_cons.mp hn with
          | inl e => rwa [e]
          | inr hn => exact A.behind r old n hn
        · rw [List.inj_on_of_nodup_map t.session.table.distinct old hk (Row.id_of_pos e)]
          exact .inl List.mem_cons_self
        · exact .inr (.inl (ok m hm oid k hk hs.dbId r old gt))

/-- Every step keeps the invariant. -/
lemma Kept.Inv.step {t₀ : Turn} {act : TurnAct} (X : Exchange loads t₀ a ts)
    (I : Kept.Inv loads a ts t) (ok : Unbroken a t act) (st : TurnStep a ts t act t') :
    Kept.Inv loads a ts t' := by
  cases st with
  | queue => exact I.queue
  | calls ph => exact I.calls X ph
  | results ph => exact I.results X ph ok

/-- In a turn that has stored the results the invariant is what was to be shown. -/
lemma Kept.Inv.kept (ex : Answers a ts) (I : Kept.Inv loads a ts t) (done : t.phase = .answered) :
    Kept loads a ts t := by
  cases I.progress with
  | before ph => simp [done] at ph
  | asked ph => simp [done] at ph
  | @answered ms ks _ st hs P T =>
    cases hs with
    | nil => cases st
    | @cons k m ks ms hk hs =>
      rw [List.map_cons, List.map_cons, List.cons.injEq] at st
      obtain ⟨pre, post, win⟩ := P.window T (List.cons_ne_nil k ks)
      have ex' : Answers (rowMessage k) (ks.map rowMessage) :=
        ex.of_stored ((stored_rowMessage hk).trans st.1) ((stored_rowMessages hs).trans st.2)
      have calls : (rowMessage k).toolCalls = a.toolCalls := by
        have h := congrArg ChatMessage.toolCalls ((stored_rowMessage hk).trans st.1)
        simpa [stored, body, ex.assistant, ex'.assistant] using h
      obtain ⟨pre', post', e⟩ := deserializeMessages_block loads ex' pre post (by
        intro r hr tc htc hid
        rw [← List.cons_append, ← win] at hr
        rw [calls] at hid
        exact I.parses r (mem_llmWindowRows.mp hr).1 tc htc hid)
      refine ⟨pre', rowMessage k :: ks.map rowMessage, post', ?_, ?_⟩
      · have boundary : revertBoundary { table := t.session.table, revert := t.revert } = none := by
          rw [I.revert]
          rfl
        rw [Turn.history, getMessagesForLlm, boundary]
        show applyLlmContentOverrides (deserializeMessages loads
          (llmWindowRows t.session.table.rows none true)) = _
        rw [win, List.cons_append, e]
        simp
      · rw [List.map_cons, stored_rowMessage hk, st.1, stored_rowMessages hs, st.2, List.map_cons]

end

/-- An exchange is kept: in every run of the turn and the queue in which nothing but queued rows stands
behind the calls when the results are stored, the history has the calls with all their results from then
on. -/
theorem exchange_kept {loads : String → Option Json} {a : ChatMessage} {ts : List ChatMessage}
    {t₀ t : Turn} {acts : List TurnAct} (X : Exchange loads t₀ a ts)
    (rn : Run (Guarded (Unbroken a) (TurnStep a ts)) t₀ acts t) (done : t.phase = .answered) :
    Kept loads a ts t := by
  have I : Kept.Inv loads a ts t := by
    refine rn.invariant (I := Kept.Inv loads a ts) ⟨X.revert, X.others, ?_⟩ ?_
    · exact .before X.phase X.synced X.new
    · exact fun I st => I.step X st.1 st.2
  exact I.kept X.answers done

/-- A session with one message of the user, loaded. -/
def asking : Turn where
  session :=
    { table :=
        { rows := [{ id := 1, role := .user, content := some "list the files", seq := 1024 }]
          clock := 2
          fresh := by decide
          distinct := by decide }
      cp := markLoaded {} [{ oid := 1, role := .user, content := some "list the files", dbId := some 1 }]
      messages := [{ oid := 1, role := .user, content := some "list the files", dbId := some 1 }] }

/-- A message that calls a tool. -/
def shellCall : ChatMessage where
  oid := 2
  role := .assistant
  toolCalls := [{ id := "call_1", name := "shell", arguments := "\x7b\x7d" }]

/-- The result of the call. -/
def shellResult : ChatMessage where
  oid := 3
  role := .tool
  content := some "README"
  toolCallId := "call_1"
  name := some "shell"

/-- Arguments that parse to an empty dict. -/
def emptyDict : String → Option Json := fun _ => some (.dict fun _ => none)

/-- Asking and its result. -/
lemma asking_exchange : Exchange emptyDict asking shellCall [shellResult] where
  phase := rfl
  revert := rfl
  synced := ⟨by decide, by decide, by
    intro m hm i hi
    obtain rfl := List.mem_singleton.mp hm
    cases hi
    decide⟩
  new := by
    intro m hm
    rcases List.mem_cons.mp hm with rfl | hm
    · exact ⟨by decide, rfl, rfl, rfl⟩
    · rw [List.mem_singleton.mp hm]
      exact ⟨by decide, rfl, rfl, rfl⟩
  objects := by decide
  answers := ⟨rfl, by decide, by decide, by decide, by decide, by simp [shellCall, shellResult]⟩
  parses := by decide
  others := by decide

/-- A message is queued while the tool runs and released when the result is stored. -/
def queuedMeanwhile : List TurnAct :=
  [.calls, .queue (.persist "and then stop" {} []), .results, .queue .pop]

/-- The exchange is kept. -/
theorem exchange_kept_queuedMeanwhile :
    ∃ t : Turn, Run (Guarded (Unbroken shellCall) (TurnStep shellCall [shellResult])) asking
      queuedMeanwhile t ∧ t.history emptyDict ≠ [] ∧ Kept emptyDict shellCall [shellResult] t := by
  have rn : ∃ t : Turn, Run (Guarded (Unbroken shellCall) (TurnStep shellCall [shellResult])) asking
      queuedMeanwhile t ∧ t.phase = .answered ∧ t.history emptyDict ≠ [] := by
    refine ⟨_, .cons ⟨trivial, .calls rfl⟩ (.cons ⟨trivial, .queue⟩ (.cons ⟨?_, .results rfl⟩
      (.cons ⟨trivial, .queue⟩ .nil))), rfl, by decide⟩
    decide
  obtain ⟨t, rn, done, ne⟩ := rn
  exact ⟨t, rn, ne, exchange_kept asking_exchange rn done⟩

/-- A message that mentions a file is queued while the tool runs. -/
def mentionMeanwhile : List TurnAct :=
  [.calls, .queue (.persist "see @notes" {} ["notes"]), .results]

/-- The note on the file stands between the calls and the results, and the exchange is lost. -/
theorem mention_breaks_exchange :
    Exchange emptyDict asking shellCall [shellResult] ∧
    ∃ t : Turn, Run (TurnStep shellCall [shellResult]) asking mentionMeanwhile t ∧
      t.phase = .answered ∧ ¬ Kept emptyDict shellCall [shellResult] t := by
  refine ⟨asking_exchange, _, .cons (.calls rfl) (.cons .queue (.cons (.results rfl) .nil)), rfl, ?_⟩
  rintro ⟨pre, exchange, post, e, st⟩
  cases exchange with
  | nil => cases st
  | cons m exchange =>
    rw [List.map_cons, List.map_cons, List.cons.injEq] at st
    have lost : ∀ k ∈ pre ++ m :: exchange ++ post, stored k ≠ stored shellCall := by
      rw [← e]
      decide
    exact lost m (by simp) st.1

end OpenAgentd.Transcript
