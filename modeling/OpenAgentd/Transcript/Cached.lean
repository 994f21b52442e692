import OpenAgentd.Lib.Run
import OpenAgentd.Lib.Stamped
import OpenAgentd.Store.Healed
import OpenAgentd.Store.Queue
import OpenAgentd.Transcript.Flush
import Mathlib.Order.WithBot

/-!
# The cache of the checkpointer

`SQLiteCheckpointer.load` (`app/agent/checkpointer.py`) keeps the history it has read and gives out copies of it as long
as the revision of the session and the position of its newest row are what they were (`Stamp`). `bump_history_revision`
(`app/services/chat_service.py`) is called by most mutations; the others have to move the newest row. A copy consists
of new objects, which `sync` does not know: `load_iff` says when that matters.
-/

namespace OpenAgentd.Transcript
open OpenAgentd.Lib OpenAgentd.Store

/-- The rows of a session with its `history_revision` and `history_structure_revision`. -/
structure History where
  session : ChatSession
  revision : Nat × Nat := (0, 0)

/-- `bump_history_revision` with `structural`. -/
def History.bump (h : History) : History := { h with revision := (h.revision.1 + 1, h.revision.2 + 1) }

/-- The bump of a mutation that has changed something. -/
def History.bumpIf (changed : Bool) (h : History) : History := if changed then h.bump else h

/-- `get_history_cursor`: the position of the newest row. -/
def getHistoryCursor (rows : List Row) : WithBot (ℕ ×ₗ ℕ) :=
  match (orderByPosDesc rows).head? with
  | none => ⊥
  | some r => r.pos

/-! ## Mutations -/

/-- `save_message`: the row at its position, or at the end. -/
def History.saveMessage (row : Row) (seq : Option Nat) (h : History) : History :=
  let tb := h.session.table
  { h with session := { h.session with table := tb.insert { row with seq := seq.getD (nextSeq tb.rows) } } }.bumpIf
    (row.kind = MessageKind.summary)

/-- The transaction changes a row that is there. -/
def queueChanges (tb : Table) : QueueOp → Bool
  | .persist _ _ _ => false
  | .pop => queuedRows tb.rows ≠ []
  | .release => queuedRows tb.rows ≠ []
  | .cancel messageId => (tb.get? messageId).any fun r => r.kind = .queued

/-- The rows that `exclude_messages_before_summary` counts. -/
def coverCandidates (rows : List Row) (summary : Row) : List Row :=
  rows.filter fun r => (r.kind = .chat || r.kind = .note) && beforePos summary r &&
    (getActiveSummary rows none).all fun p => p.id = summary.id || r.pinned || atOrAfterPos p r

/-- The row under `exclude_messages_before_summary`, which moves the summary to `seq`. -/
def coverRow (summary : Row) (seq : Nat) (r : Row) : Row :=
  if r.id = summary.id then { r with seq }
  else if r.pinned && beforePos { summary with seq } r then { r with pinned := false }
  else r

/-- Covering keeps the id. -/
lemma coverRow_id (summary : Row) (seq : Nat) (r : Row) : (coverRow summary seq r).id = r.id := by
  unfold coverRow
  split
  · rfl
  · split
    · rfl
    · rfl

/-- `exclude_messages_before_summary`. -/
def excludeMessagesBeforeSummary (s : ChatSession) (summaryId keepLastN : Nat) : Nat × ChatSession :=
  match s.table.get? summaryId with
  | none => (0, s)
  | some summary =>
    let candidates := coverCandidates s.table.rows summary
    let firstKept :=
      if keepLastN = 0 then none else (orderByPosDesc candidates)[min keepLastN candidates.length - 1]?
    let seq := firstKept.elim summary.seq fun kept => seqBeforeRow s.table.rows kept
    (candidates.length - keepLastN, { s with table := s.table.update (coverRow summary seq) (coverRow_id summary seq) })

/-- `_rewrite_placeholder`. -/
def History.rewritePlaceholder (toolCallId content : String) (h : History) : History :=
  match h.session.table.rows.find? fun r => r.toolCallId = some toolCallId with
  | none => h
  | some placeholder =>
    let rewrite := fun r : Row => if r.id = placeholder.id then { r with content := some content } else r
    { h with session := { h.session with
        table := h.session.table.update rewrite fun r => by dsimp only [rewrite]; split <;> rfl } }.bump

/-- The mutations of the chat services. -/
inductive ChatOp where
  | saveMessage (row : Row) (seq : Option Nat)
  | heal
  | queue (op : QueueOp)
  | undo (io : SnapshotCalls)
  | redo (io : SnapshotCalls)
  | redoAll (io : SnapshotCalls)
  | cleanup
  | exclude (summaryId keepLastN : Nat)
  | rewritePlaceholder (toolCallId content : String)

/-- A mutation of the chat services, committed. -/
def ChatOp.run (h : History) : ChatOp → History
  | .saveMessage row seq => h.saveMessage row seq
  | .heal => { h with session := (healOrphanedToolCalls h.session).2 }
  | .queue op =>
    { h with session := { h.session with table := op.run h.session.table } }.bumpIf (queueChanges h.session.table op)
  | .undo io =>
    let r := undoSessionMessages io h.session
    { h with session := r.2 }.bumpIf r.1.applied
  | .redo io =>
    let r := redoSessionMessages io h.session
    { h with session := r.2 }.bumpIf r.1.applied
  | .redoAll io =>
    let r := redoAllSessionMessages io h.session
    { h with session := r.2 }.bumpIf r.1.applied
  | .cleanup =>
    let r := cleanupRevertedTail h.session
    { h with session := r.2 }.bumpIf (r.1 ≠ 0)
  | .exclude summaryId keepLastN =>
    let r := excludeMessagesBeforeSummary h.session summaryId keepLastN
    { h with session := r.2 }.bumpIf (r.1 ≠ 0)
  | .rewritePlaceholder toolCallId content => h.rewritePlaceholder toolCallId content

/-- `saved_summary`, or pins that are written. -/
def syncBumps (s : Session) : Bool :=
  pinUpdates s.cp s.messages ≠ [] ||
    (newMessages s).any fun m => m.isSummary && (m.role = .assistant || m.role = .user)

/-- A sync of the messages of a run by the checkpointer `cp`, committed. -/
def History.sync (cp : Checkpointer) (messages : List ChatMessage) (h : History) : History :=
  let s : Session := ⟨h.session.table, cp, messages⟩
  { h with session := { h.session with table := (Transcript.sync false s).table } }.bumpIf (syncBumps s)

/-! ## Loading -/

/-- An entry of `_loaded`, `_loaded_revision` and `_loaded_cursor`. -/
structure CacheEntry where
  messages : List ChatMessage
  revision : Nat × Nat
  cursor : WithBot (ℕ ×ₗ ℕ)

/-- A session, a checkpointer for it, and how many message objects there are. -/
structure LoadWorld where
  history : History
  cp : Checkpointer := {}
  loaded : Option CacheEntry := none
  objects : Nat := 0

/-- New objects with the contents of `messages`. -/
def newObjects (n : Nat) (messages : List ChatMessage) : List ChatMessage :=
  messages.mapIdx fun i m => { m with oid := n + i }

/-- The entry is taken for the present history. -/
def LoadWorld.hit (w : LoadWorld) : Option CacheEntry :=
  w.loaded.filter fun c => c.revision = w.history.revision &&
    c.cursor = getHistoryCursor w.history.session.table.rows

/-- `SQLiteCheckpointer.load`. -/
def LoadWorld.load (loads : String → Option Json) (w : LoadWorld) : Option (List ChatMessage) × LoadWorld :=
  match w.hit with
  | some cached =>
    (some (newObjects w.objects cached.messages), { w with objects := w.objects + cached.messages.length })
  | none =>
    let read := getMessagesForLlm loads w.history.session
    if read = [] then (none, w)
    else
      let messages := newObjects w.objects read
      (some messages,
        { w with
          cp := markLoaded w.cp messages
          loaded := some ⟨messages, w.history.revision, getHistoryCursor w.history.session.table.rows⟩
          objects := w.objects + messages.length })

/-- `SQLiteCheckpointer.sync`. -/
def LoadWorld.sync (messages : List ChatMessage) (objects : Nat) (w : LoadWorld) : LoadWorld :=
  let s : Session := ⟨w.history.session.table, w.cp, messages⟩
  { history := w.history.sync w.cp messages
    cp := (Transcript.sync false s).cp
    loaded := if newMessages s = [] ∧ pinUpdates w.cp messages = [] then w.loaded else none
    objects }

/-- What happens to a session and its checkpointer. -/
inductive LoadAction where
  | mutate (op : ChatOp)
  | load
  | sync (messages : List ChatMessage)
  | syncOther (cp : Checkpointer) (messages : List ChatMessage)

/-- Messages with one identity are one object. -/
def Objects (messages : List ChatMessage) : Prop :=
  ∀ m ∈ messages, ∀ m' ∈ messages, m.oid = m'.oid → m = m'

/-- The steps of a session and its checkpointer. -/
inductive LoadStep (loads : String → Option Json) : LoadWorld → LoadAction → LoadWorld → Prop where
  | mutate {w op} :
    LoadStep loads w (.mutate op) { w with history := op.run w.history }
  | load {w} :
    LoadStep loads w .load (w.load loads).2
  | sync {w messages objects} :
    Objects messages →
    w.objects ≤ objects →
    (∀ m ∈ messages, m.oid < objects) →
    LoadStep loads w (.sync messages) (w.sync messages objects)
  | syncOther {w cp messages} :
    Objects messages →
    LoadStep loads w (.syncOther cp messages) { w with history := w.history.sync cp messages }

/-- A message without its identity. -/
def unnamed (m : ChatMessage) : ChatMessage := { m with oid := 0 }

/-- A load gives what the database has, and a sync of what it gives inserts no row. -/
structure Transparent (loads : String → Option Json) (w : LoadWorld) : Prop where
  messages : ((w.load loads).1.getD []).map unnamed = (getMessagesForLlm loads w.history.session).map unnamed
  synced : (Transcript.sync false ⟨w.history.session.table, (w.load loads).2.cp,
    (w.load loads).1.getD []⟩).table.rows.length = w.history.session.table.rows.length

/-- The mutation is seen by the cache: a row that is inserted at a position, by a heal too, is the newest one unless
there is no entry to be hit, and a summary that is moved covers something unless there is no entry of the revision. -/
def Announced (w : LoadWorld) : LoadAction → Prop
  | .mutate (.saveMessage row (some seq)) =>
    row.kind = .summary ∨ (∀ r ∈ w.history.session.table.rows, r.seq ≤ seq) ∨ w.hit = none
  | .mutate .heal =>
    healList w.history.session = [] ∨
      (∃ x ∈ healList w.history.session, ∀ r ∈ w.history.session.table.rows, r.pos ≤ x.1.pos) ∨ w.hit = none
  | .mutate (.exclude summaryId keepLastN) =>
    (excludeMessagesBeforeSummary w.history.session summaryId keepLastN).1 ≠ 0 ∨
      (excludeMessagesBeforeSummary w.history.session summaryId keepLastN).2 = w.history.session ∨
      ∀ c, w.loaded = some c → c.revision ≠ w.history.revision
  | _ => True

/-! ## What the cache goes by -/

/-- What `load` compares: the revision, and the cursor. -/
def stampOf (revision : Nat × Nat) (cursor : WithBot (ℕ ×ₗ ℕ)) : ℕ ×ₗ ℕ ×ₗ WithBot (ℕ ×ₗ ℕ) :=
  toLex (revision.1, toLex (revision.2, cursor))

def History.stamp (h : History) : ℕ ×ₗ ℕ ×ₗ WithBot (ℕ ×ₗ ℕ) :=
  stampOf h.revision (getHistoryCursor h.session.table.rows)

/-- What a load without the cache gives. -/
def History.fresh (loads : String → Option Json) (h : History) : List ChatMessage :=
  (getMessagesForLlm loads h.session).map unnamed

section
variable {rows rows' : List Row} {r : Row} {rev rev' : Nat × Nat} {cur cur' : WithBot (ℕ ×ₗ ℕ)}

/-- Stamps tell revision and cursor. -/
lemma stampOf_inj : stampOf rev cur = stampOf rev' cur' ↔ rev = rev' ∧ cur = cur' := by
  simp [stampOf, Prod.ext_iff, and_assoc]

/-- Stamps grow with the cursor. -/
lemma stampOf_le (le : cur ≤ cur') : stampOf rev cur ≤ stampOf rev cur' := by
  simp [stampOf, Prod.Lex.toLex_le_toLex, le]

/-- A later cursor, a later stamp. -/
lemma stampOf_lt_cursor (lt : cur < cur') : stampOf rev cur < stampOf rev cur' := by
  simp [stampOf, Prod.Lex.toLex_lt_toLex, lt]

/-- A bump outweighs the cursor. -/
lemma stampOf_bump : stampOf rev cur < stampOf (rev.1 + 1, rev.2 + 1) cur' := by
  simp [stampOf, Prod.Lex.toLex_lt_toLex]

/-- An older revision outweighs the cursor. -/
lemma stampOf_lt_of_ne (le : stampOf rev cur ≤ stampOf rev' cur') (ne : rev ≠ rev') {cur₂ : WithBot (ℕ ×ₗ ℕ)} :
    stampOf rev cur < stampOf rev' cur₂ := by
  simp only [stampOf, Prod.Lex.toLex_le_toLex, Prod.Lex.toLex_lt_toLex] at le ⊢
  rcases le with lt | ⟨e, lt | ⟨e', -⟩⟩
  · exact .inl lt
  · exact .inr ⟨e, .inl lt⟩
  · exact absurd (Prod.ext e e') ne

/-- The cursor is the position of the newest row. -/
lemma le_getHistoryCursor (h : r ∈ rows) : (r.pos : WithBot (ℕ ×ₗ ℕ)) ≤ getHistoryCursor rows := by
  have mem : r ∈ orderByPosDesc rows := by simpa [orderByPosDesc, orderByPos] using h
  have ordered : (orderByPosDesc rows).Pairwise fun a b => b.pos ≤ a.pos := by
    rw [orderByPosDesc, List.pairwise_reverse]
    exact sortOn_pairwise_le
  unfold getHistoryCursor
  cases e : orderByPosDesc rows with
  | nil => simp [e] at mem
  | cons newest older =>
    rw [e] at mem ordered
    cases List.mem_cons.mp mem with
    | inl same => rw [same]; exact le_rfl
    | inr old => exact WithBot.coe_le_coe.mpr (List.rel_of_pairwise_cons ordered old)

/-- The cursor is a row's place. -/
lemma getHistoryCursor_cases (rows : List Row) :
    getHistoryCursor rows = ⊥ ∨ ∃ r ∈ rows, getHistoryCursor rows = (r.pos : WithBot (ℕ ×ₗ ℕ)) := by
  unfold getHistoryCursor
  cases e : (orderByPosDesc rows).head? with
  | none => exact .inl rfl
  | some newest =>
    have mem := List.mem_of_head? e
    simp only [orderByPosDesc, orderByPos, List.mem_reverse, mem_sortOn] at mem
    exact .inr ⟨newest, mem, rfl⟩

/-- More rows. -/
lemma getHistoryCursor_mono (sub : rows ⊆ rows') : getHistoryCursor rows ≤ getHistoryCursor rows' := by
  cases getHistoryCursor_cases rows with
  | inl none => rw [none]; exact bot_le
  | inr newest =>
    obtain ⟨r, hr, e⟩ := newest
    rw [e]
    exact le_getHistoryCursor (sub hr)

/-- A row behind all others. -/
lemma getHistoryCursor_lt (behind : ∀ k ∈ rows, k.pos < r.pos) (new : r ∈ rows') :
    getHistoryCursor rows < getHistoryCursor rows' := by
  apply lt_of_lt_of_le _ (le_getHistoryCursor new)
  cases getHistoryCursor_cases rows with
  | inl none => rw [none]; exact WithBot.bot_lt_coe _
  | inr newest =>
    obtain ⟨k, hk, e⟩ := newest
    rw [e]
    exact WithBot.coe_lt_coe.mpr (behind k hk)

end

/-! ## Mutations and the stamp -/

/-- The stamp did not fall from `h` to `h'`, and where it stayed the messages did. -/
structure Moves (loads : String → Option Json) (h h' : History) : Prop where
  up : h.stamp ≤ h'.stamp
  same : h.stamp = h'.stamp → h.fresh loads = h'.fresh loads

section
variable {loads : String → Option Json} {h h' : History} {s s' : ChatSession} {r : Row}

/-- Staying. -/
lemma Moves.refl : Moves loads h h := ⟨le_rfl, fun _ => rfl⟩

/-- A later stamp. -/
lemma Moves.of_lt (lt : h.stamp < h'.stamp) : Moves loads h h' := ⟨lt.le, fun e => absurd e lt.ne⟩

/-- A bumped revision. -/
lemma Moves.bump (e : h'.revision = h.revision) : Moves loads h h'.bump := by
  apply Moves.of_lt
  rw [History.stamp, History.stamp, History.bump, e]
  exact stampOf_bump

/-- A mutation that bumps what it changes. -/
lemma Moves.bumpIf {changed : Bool} (e : h'.revision = h.revision) (quiet : changed = false → Moves loads h h') :
    Moves loads h (h'.bumpIf changed) := by
  cases changed with
  | false => exact quiet rfl
  | true => exact .bump e

/-- A new row behind all others. -/
lemma Moves.grow (e : h'.revision = h.revision) (behind : ∀ k ∈ h.session.table.rows, k.pos < r.pos)
    (new : r ∈ h'.session.table.rows) : Moves loads h h' := by
  apply Moves.of_lt
  rw [History.stamp, History.stamp, e]
  exact stampOf_lt_cursor (getHistoryCursor_lt behind new)

/-- The window is what it was. -/
lemma Moves.keep (e : h'.revision = h.revision) (rows : h'.session.table.rows = h.session.table.rows)
    (window : derivedWindow h'.session = derivedWindow h.session) : Moves loads h h' where
  up := by rw [History.stamp, History.stamp, e, rows]
  same := fun _ => by
    unfold derivedWindow at window
    simp only [History.fresh, getMessagesForLlm, window]

/-- The window comes from the rows and the boundary. -/
lemma derivedWindow_congr (rows : s'.table.rows = s.table.rows) (revert : s'.revert = s.revert) :
    derivedWindow s' = derivedWindow s := by
  have get : s'.table.get? = s.table.get? := funext fun id => by rw [Table.get?, Table.get?, rows]
  simp only [derivedWindow, revertBoundary, get, rows, revert]

/-- A row that is inserted not below any other. -/
lemma pos_lt_inserted {tb : Table} {seq : Nat} (row : Row) (above : ∀ k ∈ tb.rows, k.seq ≤ seq) :
    ∀ k ∈ tb.rows, k.pos < ({ row with seq, id := tb.clock } : Row).pos := by
  intro k hk
  rw [Row.pos_lt]
  cases (above k hk).lt_or_eq with
  | inl lt => exact .inl lt
  | inr e => exact .inr ⟨e, tb.fresh k hk⟩

/-- Saving a message. -/
lemma saveMessage_moves (row : Row) {seq : Option Nat}
    (above : row.kind = .summary ∨ ∀ k ∈ h.session.table.rows, k.seq ≤ seq.getD (nextSeq h.session.table.rows)) :
    Moves loads h (h.saveMessage row seq) := by
  apply Moves.bumpIf
  · rfl
  · intro plain
    cases above with
    | inl summary => simp [summary] at plain
    | inr above =>
      refine .grow rfl (pos_lt_inserted row above) ?_
      exact List.mem_append_right _ (List.mem_singleton.mpr rfl)

/-- A heal that gives the newest row a stub. -/
lemma heal_moves (newest : healList h.session = [] ∨
    ∃ x ∈ healList h.session, ∀ k ∈ h.session.table.rows, k.pos ≤ x.1.pos) :
    Moves loads h { h with session := healed h.session } := by
  cases newest with
  | inl none =>
    have rows : (healed h.session).table = h.session.table := by rw [healed_table, none, List.foldl_nil]
    exact .keep rfl (by rw [rows]) (derivedWindow_congr (by rw [rows]) healed_revert)
  | inr newest =>
    obtain ⟨x, hx, last⟩ := newest
    obtain ⟨stubs, e, ins⟩ := healed_rows h.session
    obtain ⟨mem, ne⟩ : x.1 ∈ h.session.table.rows ∧ x.2 ≠ [] := by
      unfold healList at hx
      split at hx
      · cases hx
      · obtain ⟨r, hr, found⟩ := List.mem_filterMap.mp hx
        dsimp only at found
        split at found
        · cases found
        · rename_i ne
          cases found
          have hr := (List.mem_filter.mp (List.mem_filter.mp hr).1).1
          exact ⟨(mem_llmWindowRows.mp hr).1, ne⟩
    obtain ⟨g, hg, is⟩ : ∃ g ∈ stubs, g.1 = x.1 := by
      by_contra none
      have out : (stubs.filter fun g => g.1 = x.1) = [] :=
        List.filter_eq_nil_iff.mpr fun g hg is => none ⟨g, hg, by simpa using is⟩
      have all := ins.all x hx
      rw [out, List.map_nil] at all
      exact ne (List.map_eq_nil_iff.mp all.symm)
    obtain ⟨y, hy, same, tc, -, stub⟩ := ins.each g hg
    rw [← same, is] at stub
    refine .grow (r := g.2) rfl ?_ ?_
    · intro k hk
      exact (last k hk).trans_lt (stub.pos_lt (h.session.table.fresh _ mem))
    · show g.2 ∈ (healed h.session).table.rows
      rw [e]
      exact List.mem_append_right _ (List.mem_map_of_mem hg)

/-- Mentions drop no row. -/
lemma mem_saveMentionContext {owner : Nat} {blocks : List String} {tb : Table} (hr : r ∈ tb.rows) :
    r ∈ (blocks.foldl (saveMentionContext owner) tb).rows := by
  induction blocks generalizing tb with
  | nil => exact hr
  | cons b blocks ih => exact ih (List.mem_append_left _ hr)

/-- Nothing to promote. -/
lemma promoteQueued_nil (tb : Table) : (promoteQueued tb []).rows = tb.rows := by
  have same : promoteRow (nextSeq tb.rows) [] = id := funext fun r => by simp [promoteRow]
  rw [promoteQueued, Table.update_rows, same, List.map_id]

/-- An operation on the queue. -/
lemma queue_moves (op : QueueOp) : Moves loads h
    ({ h with session := { h.session with table := op.run h.session.table } }.bumpIf
      (queueChanges h.session.table op)) := by
  apply Moves.bumpIf
  · rfl
  · intro quiet
    have keeps : (op.run h.session.table).rows = h.session.table.rows → Moves loads h
        { h with session := { h.session with table := op.run h.session.table } } :=
      fun rows => .keep rfl rows (derivedWindow_congr rows rfl)
    cases op with
    | persist content extra blocks =>
      set row : Row := { id := 0, role := .user, content := some content, seq := 0, kind := .queued,
                         extra := { extra with queueStatus := some "queued" } }
      refine .grow rfl (pos_lt_inserted row fun k hk => (lt_nextSeq hk).le) ?_
      exact mem_saveMentionContext (List.mem_append_right _ (List.mem_singleton.mpr rfl))
    | pop =>
      have none : queuedRows h.session.table.rows = [] := by simpa [queueChanges] using quiet
      exact keeps (by rw [QueueOp.run, popQueuedUserMessages, none, promoteQueued_nil])
    | release =>
      have none : queuedRows h.session.table.rows = [] := by simpa [queueChanges] using quiet
      exact keeps (by rw [QueueOp.run, releaseQueuedUserMessages, none, promoteQueued_nil])
    | cancel messageId =>
      apply keeps
      rw [QueueOp.run, cancelQueuedUserMessage]
      unfold queueChanges at quiet
      cases found : h.session.table.get? messageId with
      | none => rfl
      | some row =>
        have other : row.kind ≠ .queued := by simpa [found] using quiet
        simp [other]

/-- Rows at the boundary that are all queued do not matter. -/
lemma cleanup_window {b : Row}
    (none : ∀ k ∈ s.table.rows, atOrAfterPos b k = true → k.kind = .queued) :
    llmWindowRows s.table.rows (some b) true = llmWindowRows s.table.rows Option.none true := by
  have before : ∀ k ∈ s.table.rows, k.kind ≠ .queued → beforePos b k = true := by
    intro k hk shown
    have := mt (none k hk) shown
    simpa [atOrAfterPos, beforePos] using this
  have active : getActiveSummary s.table.rows (some b) = getActiveSummary s.table.rows Option.none := by
    unfold getActiveSummary
    congr 2
    apply List.filter_congr
    intro k hk
    by_cases summary : k.kind = .summary
    · simp [beforeBoundary, before k hk (by simp [summary])]
    · simp [summary]
  unfold llmWindowRows applyLlmWindow
  rw [active]
  congr 1
  apply List.filter_congr
  intro k hk
  by_cases queued : k.kind = .queued
  · simp [inLlmWindow, queued]
  · simp only [inLlmWindow, beforeBoundary, Option.all_some, Option.all_none, before k hk queued]

/-- Clearing the reverted tail. -/
lemma cleanup_moves : Moves loads h ({ h with session := (cleanupRevertedTail h.session).2 }.bumpIf
    ((cleanupRevertedTail h.session).1 ≠ 0)) := by
  apply Moves.bumpIf
  · rfl
  · intro quiet
    have none : (cleanupRevertedTail h.session).1 = 0 := by simpa using quiet
    unfold cleanupRevertedTail at none ⊢
    cases staged : revertBoundary h.session with
    | none => exact .refl
    | some b =>
      rw [staged] at none
      have queued : ∀ k ∈ h.session.table.rows, atOrAfterPos b k = true → k.kind = .queued := by
        have nil := List.eq_nil_of_length_eq_zero none
        intro k hk behind
        have := List.filter_eq_nil_iff.mp nil k hk
        simpa [behind] using this
      have rows : h.session.table.rows.map (revertRow b) = h.session.table.rows := by
        apply (List.map_congr_left fun k hk => ?_).trans (List.map_id _)
        rw [revertRow, if_neg, id]
        simpa using queued k hk
      refine .keep rfl rows ?_
      rw [derivedWindow, derivedWindow, staged, cleanup_window queued]
      show llmWindowRows (h.session.table.rows.map (revertRow b)) Option.none true = _
      rw [rows]

/-- A shift of the boundary that is not applied. -/
lemma undo_moves (io : SnapshotCalls) : Moves loads h ({ h with session := (undoSessionMessages io h.session).2 }.bumpIf
    (undoSessionMessages io h.session).1.applied) := by
  apply Moves.bumpIf
  · rfl
  · intro quiet
    unfold undoSessionMessages at quiet ⊢
    cases found : undoTarget h.session.table.rows (revertBoundary h.session) with
    | none => exact .refl
    | some target => simp [found] at quiet

/-- Redoing. -/
lemma redo_moves (io : SnapshotCalls) : Moves loads h ({ h with session := (redoSessionMessages io h.session).2 }.bumpIf
    (redoSessionMessages io h.session).1.applied) := by
  apply Moves.bumpIf
  · rfl
  · intro quiet
    unfold redoSessionMessages at quiet ⊢
    cases staged : revertBoundary h.session with
    | none => exact .refl
    | some b => cases found : nextUser h.session.table.rows b <;> simp [staged, found] at quiet

/-- Redoing all. -/
lemma redoAll_moves (io : SnapshotCalls) : Moves loads h
    ({ h with session := (redoAllSessionMessages io h.session).2 }.bumpIf
      (redoAllSessionMessages io h.session).1.applied) := by
  apply Moves.bumpIf
  · rfl
  · intro quiet
    unfold redoAllSessionMessages at quiet ⊢
    cases staged : revertBoundary h.session with
    | none => exact .refl
    | some b => simp [staged] at quiet

/-- Covering rows. -/
lemma exclude_moves {summaryId keepLastN : Nat}
    (told : (excludeMessagesBeforeSummary h.session summaryId keepLastN).1 ≠ 0 ∨
      (excludeMessagesBeforeSummary h.session summaryId keepLastN).2 = h.session) :
    Moves loads h ({ h with session := (excludeMessagesBeforeSummary h.session summaryId keepLastN).2 }.bumpIf
      ((excludeMessagesBeforeSummary h.session summaryId keepLastN).1 ≠ 0)) := by
  apply Moves.bumpIf
  · rfl
  · intro quiet
    have none : (excludeMessagesBeforeSummary h.session summaryId keepLastN).1 = 0 := by simpa using quiet
    cases told with
    | inl some => exact absurd none some
    | inr same => rw [same]; exact .refl

/-- Rewriting a placeholder. -/
lemma rewritePlaceholder_moves (toolCallId content : String) :
    Moves loads h (h.rewritePlaceholder toolCallId content) := by
  unfold History.rewritePlaceholder
  split
  · exact .refl
  · exact .bump rfl

end

/-! ## Syncs -/

section
variable {seen : List Nat} {anchored : Nat → Option Nat} {f : Flush} {m : ChatMessage} {ms : List ChatMessage}
  {loads : String → Option Json} {h : History} {cp : Checkpointer} {o : Nat}

/-- A message that `sync` writes is saved, at the tail unless it has an anchor. -/
lemma flushMessage_save (st : storable m = true) :
    ∃ isSummary anchor, flushMessage anchored f m = f.save m isSummary anchor ∧
      ((m.role ≠ .tool → anchored m.oid = none) → anchor = none) := by
  unfold storable at st
  unfold flushMessage
  cases role : m.role with
  | assistant =>
    simp only [role] at st
    exact ⟨m.isSummary, anchored m.oid, by simp [st], fun free => free (by simp)⟩
  | tool => exact ⟨false, none, rfl, fun _ => rfl⟩
  | user =>
    simp only [role] at st
    exact ⟨m.isSummary, anchored m.oid, by simp [st], fun free => free (by simp)⟩
  | system => simp [role] at st

/-- The loop of `sync` appends a row for every message that is to be saved, behind all others if none has an
anchor. -/
lemma flushNew_rows : ∃ ns, (flushNew seen anchored f ms).1.table.rows = f.table.rows ++ ns ∧
    ns.length = (ms.filter (unsaved seen)).length ∧
    (TailOk f → (∀ m ∈ ms, unsaved seen m = true → m.role ≠ .tool → anchored m.oid = none) →
      ∀ r ∈ f.table.rows, ∀ n ∈ ns, r.seq < n.seq) := by
  induction ms generalizing f with
  | nil => exact ⟨[], by simp [flushNew], rfl, by simp⟩
  | cons m ms ih =>
    rw [flushNew]
    by_cases new : unsaved seen m = true
    · obtain ⟨out, st⟩ : m.oid ∉ seen ∧ storable m = true := by simpa [unsaved] using new
      obtain ⟨isSummary, anchor, e, tail⟩ := @flushMessage_save anchored f m st
      rw [if_neg out, e]
      obtain ⟨ns, rows, len, behind⟩ := @ih (f.save m isSummary anchor).1
      have saved : (f.save m isSummary anchor).1.table.rows =
        f.table.rows ++ [{ messageRow m isSummary (anchor.getD f.nextTail) with id := f.table.clock }] := rfl
      refine ⟨_ :: ns, by rw [rows, saved, List.append_assoc]; rfl, by simp [new, len], fun ok free r hr n hn => ?_⟩
      have none : anchor = none := tail (free m List.mem_cons_self new)
      subst none
      have free' := fun k hk => free k (List.mem_cons_of_mem _ hk)
      cases List.mem_cons.mp hn with
      | inl first => rw [first]; exact ok r hr
      | inr later => exact behind ok.save free' r (saved ▸ List.mem_append_left _ hr) n later
    · have skips : (if m.oid ∈ seen then (f, m) else flushMessage anchored f m).1.table = f.table ∧
          (if m.oid ∈ seen then (f, m) else flushMessage anchored f m).1.tail = f.tail := by
        split
        · exact ⟨rfl, rfl⟩
        · rename_i out
          rw [flushMessage_unstorable (by simpa [unsaved, out] using new)]
          exact ⟨rfl, rfl⟩
      obtain ⟨ns, rows, len, behind⟩ := @ih (if m.oid ∈ seen then (f, m) else flushMessage anchored f m).1
      refine ⟨ns, by rw [rows, skips.1], by simp [new, len], fun ok free r hr n hn => ?_⟩
      refine behind ?_ (fun k hk => free k (List.mem_cons_of_mem _ hk)) r (skips.1 ▸ hr) n hn
      unfold TailOk Flush.nextTail at ok ⊢
      rwa [skips.1, skips.2]

/-- What the loop of `sync` marks are messages it was given. -/
lemma mem_flushNew_persisted (marked : o ∈ (flushNew seen anchored f ms).1.cp.persisted) :
    o ∈ f.cp.persisted ∨ ∃ m ∈ ms, m.oid = o := by
  induction ms generalizing f with
  | nil => exact .inl marked
  | cons m ms ih =>
    rw [flushNew] at marked
    cases ih marked with
    | inr later =>
      obtain ⟨k, hk, e⟩ := later
      exact .inr ⟨k, List.mem_cons_of_mem _ hk, e⟩
    | inl here =>
      split at here
      · exact .inl here
      · cases st : storable m with
        | true =>
          obtain ⟨isSummary, anchor, e, -⟩ := @flushMessage_save anchored f m st
          rw [e] at here
          cases List.mem_cons.mp here with
          | inl e => exact .inr ⟨m, List.mem_cons_self, e.symm⟩
          | inr old => exact .inl old
        | false =>
          rw [flushMessage_unstorable st] at here
          by_cases user : m.role = .user
          · have marks : (f.cp.mark m).persisted = m.oid :: f.cp.persisted := by
              unfold Checkpointer.mark
              cases m.dbId with
              | none => rfl
              | some id => rfl
            simp only [user, if_true, marks] at here
            cases List.mem_cons.mp here with
            | inl e => exact .inr ⟨m, List.mem_cons_self, e.symm⟩
            | inr old => exact .inl old
          · simp only [user, if_false] at here
            exact .inl here

/-- The rows of the transaction. -/
lemma syncTransaction_rows (s : Session) : ∃ ns,
    (syncTransaction s).1.table.rows = s.table.rows.map (pinRow (pinUpdates s.cp s.messages)) ++ ns ∧
    ns.length = (s.messages.filter (unsaved s.cp.persisted)).length ∧
    ((∀ m ∈ s.messages, unsaved s.cp.persisted m = true → m.role ≠ .tool →
        (resolveSummarySeqs s.table (summaryAnchorIds s.cp.persisted s.messages)).lookup m.oid = none) →
      ∀ r ∈ s.table.rows.map (pinRow (pinUpdates s.cp s.messages)), ∀ n ∈ ns, r.seq < n.seq) := by
  unfold syncTransaction
  obtain ⟨ns, rows, len, behind⟩ := @flushNew_rows s.cp.persisted
    (fun oid => (resolveSummarySeqs s.table (summaryAnchorIds s.cp.persisted s.messages)).lookup oid)
    ⟨s.table.update (pinRow (pinUpdates s.cp s.messages)) (fun r => rfl),
      flushPins s.cp (pinUpdates s.cp s.messages), none⟩ s.messages
  exact ⟨ns, rows, len, behind (TailOk.start rfl)⟩

/-- The rows that a sync inserts. -/
lemma sync_rows (s : Session) : (Transcript.sync false s).table.rows.length =
    s.table.rows.length + (s.messages.filter (unsaved s.cp.persisted)).length := by
  unfold Transcript.sync
  split
  · rename_i idle
    have none : s.messages.filter (unsaved s.cp.persisted) = [] := by
      rw [List.filter_eq_nil_iff]
      intro m hm new
      have old := List.filter_eq_nil_iff.mp idle.1 m hm
      simp only [unsaved, Bool.and_eq_true] at new
      exact old new.1
    rw [none, List.length_nil, Nat.add_zero]
  · obtain ⟨ns, rows, len, -⟩ := syncTransaction_rows s
    show (syncTransaction s).1.table.rows.length = _
    rw [rows, List.length_append, len, List.length_map]

/-- What a sync marks. -/
lemma mem_sync_persisted {s : Session} (marked : o ∈ (Transcript.sync false s).cp.persisted) :
    o ∈ s.cp.persisted ∨ ∃ m ∈ s.messages, m.oid = o := by
  unfold Transcript.sync at marked
  split at marked
  · exact .inl marked
  · exact mem_flushNew_persisted marked

/-- What is no summary has no anchor. -/
lemma lookup_resolveSummarySeqs {tb : Table} (one : Objects ms) (hm : m ∈ ms) (plain : m.isSummary = false) :
    (resolveSummarySeqs tb (summaryAnchorIds seen ms)).lookup m.oid = none := by
  cases found : (resolveSummarySeqs tb (summaryAnchorIds seen ms)).lookup m.oid with
  | none => rfl
  | some seq =>
    obtain ⟨l₁, l₂, e, -⟩ := List.lookup_eq_some_iff.mp found
    have mem : (m.oid, seq) ∈ resolveSummarySeqs tb (summaryAnchorIds seen ms) := by simp [e]
    obtain ⟨⟨o, a⟩, ha, resolved⟩ := List.mem_filterMap.mp mem
    obtain ⟨row, -, e⟩ := Option.map_eq_some_iff.mp resolved
    obtain ⟨pre, k, post, split, same, summary, -⟩ := mem_summaryAnchorIds ha
    have same : k.oid = m.oid := same.trans (Prod.mk.inj e).1
    have is : k = m := one k (by simp [split]) m hm same
    rw [is, plain] at summary
    cases summary

/-- A sync that does not bump adds its rows behind all others. -/
lemma sync_moves (one : Objects ms) : Moves loads h (h.sync cp ms) := by
  apply Moves.bumpIf
  · rfl
  · intro quiet
    simp only [syncBumps, Bool.or_eq_false_iff, decide_eq_false_iff_not, not_not] at quiet
    obtain ⟨pins, plain⟩ := quiet
    unfold Transcript.sync
    split
    · exact .refl
    · obtain ⟨ns, rows, -, behind⟩ := syncTransaction_rows ⟨h.session.table, cp, ms⟩
      have same : pinRow (pinUpdates cp ms) = id := funext fun r => by simp [pins, pinRow, pinOf]
      rw [same, List.map_id] at rows behind
      have behind := behind fun m hm new tool => lookup_resolveSummarySeqs one hm (by
        obtain ⟨out, st⟩ : m.oid ∉ cp.persisted ∧ storable m = true := by simpa [unsaved] using new
        have mem : m ∈ newMessages ⟨h.session.table, cp, ms⟩ := List.mem_filter.mpr ⟨hm, by simpa using out⟩
        have none := List.any_eq_false.mp plain m mem
        unfold storable at st
        cases role : m.role with
        | assistant => simpa [role] using none
        | user => simpa [role] using none
        | tool => exact absurd role tool
        | system => simp [role] at st)
      cases ns with
      | nil =>
        refine .keep rfl ?_ (derivedWindow_congr ?_ rfl)
        · exact rows.trans (List.append_nil _)
        · exact rows.trans (List.append_nil _)
      | cons n ns =>
        refine .grow (r := n) rfl (fun k hk => Row.pos_lt.mpr (.inl (behind k hk n List.mem_cons_self))) ?_
        show n ∈ (syncTransaction ⟨h.session.table, cp, ms⟩).1.table.rows
        rw [rows]
        exact List.mem_append_right _ List.mem_cons_self

end

/-! ## Runs -/

/-- The entry as a value under a stamp. -/
def CacheEntry.entry (c : CacheEntry) : Stamped (ℕ ×ₗ ℕ ×ₗ WithBot (ℕ ×ₗ ℕ)) (List ChatMessage) :=
  ⟨stampOf c.revision c.cursor, c.messages.map unnamed⟩

/-- What is persisted has an object, and the entry is not taken for another history. -/
structure LoadInv (loads : String → Option Json) (w : LoadWorld) : Prop where
  objects : ∀ o ∈ w.cp.persisted, o < w.objects
  cache : ∀ c, w.loaded = some c → c.entry.Valid w.history.stamp (w.history.fresh loads)

section
variable {loads : String → Option Json} {w w' : LoadWorld} {c : CacheEntry} {as : List LoadAction}
  {ms : List ChatMessage} {n : Nat}

/-- New objects say the same. -/
@[simp] lemma unnamed_newObjects : (newObjects n ms).map unnamed = ms.map unnamed := by
  apply List.ext_getElem
  · simp [newObjects]
  · intro i _ _
    simp [newObjects, unnamed]

/-- As many new objects. -/
@[simp] lemma length_newObjects : (newObjects n ms).length = ms.length := by simp [newObjects]

/-- New objects have new ids. -/
lemma oid_newObjects {m : ChatMessage} (h : m ∈ newObjects n ms) : n ≤ m.oid ∧ m.oid < n + ms.length := by
  obtain ⟨i, lt, rfl⟩ := List.mem_mapIdx.mp h
  exact ⟨Nat.le_add_right n i, Nat.add_lt_add_left lt n⟩

/-- A hit is an entry of the present stamp. -/
lemma hit_eq_some : w.hit = some c ↔ w.loaded = some c ∧ c.entry.stamp = w.history.stamp := by
  unfold LoadWorld.hit
  rw [Option.filter_eq_some_iff]
  simp only [Bool.and_eq_true, decide_eq_true_eq]
  exact and_congr_right fun _ => stampOf_inj.symm

/-- What is given out is what the database has. -/
lemma LoadInv.messages (I : LoadInv loads w) :
    ((w.load loads).1.getD []).map unnamed = (getMessagesForLlm loads w.history.session).map unnamed := by
  unfold LoadWorld.load
  cases h : w.hit with
  | some c =>
    obtain ⟨entry, stamp⟩ := hit_eq_some.mp h
    exact unnamed_newObjects.trans ((I.cache c entry).present stamp)
  | none =>
    dsimp only
    split
    · rename_i nil
      rw [nil]
      rfl
    · exact unnamed_newObjects

/-- The rows that a sync of a load inserts: none of what is read from the database, all of a copy. -/
lemma LoadInv.inserted (I : LoadInv loads w) : (Transcript.sync false ⟨w.history.session.table, (w.load loads).2.cp,
      (w.load loads).1.getD []⟩).table.rows.length = w.history.session.table.rows.length +
    if w.hit = none then 0 else ((getMessagesForLlm loads w.history.session).filter storable).length := by
  rw [sync_rows]
  congr 1
  have messages := I.messages
  unfold LoadWorld.load at messages ⊢
  cases h : w.hit with
  | some c =>
    rw [h] at messages
    have new : (newObjects w.objects c.messages).filter (unsaved w.cp.persisted) =
        (newObjects w.objects c.messages).filter storable := by
      apply List.filter_congr
      intro m hm
      have out : m.oid ∉ w.cp.persisted := fun old =>
        absurd (I.objects _ old) (Nat.not_lt.mpr (oid_newObjects hm).1)
      simp [unsaved, out]
    have count : ∀ l : List ChatMessage, (l.filter storable).length = ((l.map unnamed).filter storable).length := by
      intro l
      rw [List.filter_map, List.length_map]
      rfl
    show ((newObjects w.objects c.messages).filter (unsaved w.cp.persisted)).length = _
    rw [new, count]
    show (((some (newObjects w.objects c.messages)).getD []).map unnamed |>.filter storable).length = _
    rw [messages, ← count, if_neg (by simp)]
  | none =>
    dsimp only
    rw [if_pos rfl, List.length_eq_zero_iff, List.filter_eq_nil_iff]
    split
    · exact fun m hm => absurd hm List.not_mem_nil
    · intro m hm
      have marked : m.oid ∈ (markLoaded w.cp
          (newObjects w.objects (getMessagesForLlm loads w.history.session))).persisted :=
        markLoaded_persisted.mpr (.inr (List.mem_map_of_mem hm))
      simp [unsaved, marked]

/-- When a state that keeps the invariant is transparent. -/
lemma LoadInv.transparent_iff (I : LoadInv loads w) : Transparent loads w ↔
    (w.hit ≠ none → ∀ m ∈ getMessagesForLlm loads w.history.session, storable m = false) := by
  constructor
  · intro t hit m hm
    have same := I.inserted.symm.trans t.synced
    rw [if_neg hit, Nat.add_eq_left, List.length_eq_zero_iff, List.filter_eq_nil_iff] at same
    simpa using same m hm
  · intro none
    refine ⟨I.messages, I.inserted.trans ?_⟩
    by_cases hit : w.hit = Option.none
    · rw [if_pos hit, Nat.add_zero]
    · rw [if_neg hit, List.filter_eq_nil_iff.mpr fun m hm => by simp [none hit m hm], List.length_nil, Nat.add_zero]

/-- The start. -/
lemma LoadInv.start (session : ChatSession) (revision : Nat × Nat) :
    LoadInv loads { history := ⟨session, revision⟩ } := by
  refine ⟨fun o h => absurd h List.not_mem_nil, fun c h => ?_⟩
  cases h

/-- A mutation that the cache sees. -/
lemma LoadInv.mutate {op : ChatOp} (I : LoadInv loads w) (ok : Announced w (.mutate op)) :
    LoadInv loads { w with history := op.run w.history } := by
  refine ⟨I.objects, fun c entry => ?_⟩
  have valid := I.cache c entry
  have moved : Moves loads w.history (op.run w.history) →
      c.entry.Valid (op.run w.history).stamp ((op.run w.history).fresh loads) :=
    fun h => valid.move h.up h.same
  -- Rows that are inserted leave an entry that is out of date as it is.
  have stale : (op.run w.history).revision = w.history.revision → w.hit = none →
      w.history.session.table.rows ⊆ (op.run w.history).session.table.rows →
      c.entry.Valid (op.run w.history).stamp ((op.run w.history).fresh loads) := by
    intro e missed sub
    have other : c.entry.stamp ≠ w.history.stamp := by
      intro stamp
      have hit : w.hit = some c := hit_eq_some.mpr ⟨entry, stamp⟩
      rw [hit] at missed
      cases missed
    refine .stale ((valid.past.lt_of_ne other).trans_le ?_)
    rw [History.stamp, History.stamp, e]
    exact stampOf_le (getHistoryCursor_mono sub)
  cases op with
  | saveMessage row seq =>
    cases seq with
    | none => exact moved (saveMessage_moves row (.inr fun k hk => (lt_nextSeq hk).le))
    | some seq =>
      rcases ok with summary | above | missed
      · exact moved (saveMessage_moves row (.inl summary))
      · exact moved (saveMessage_moves row (.inr above))
      · by_cases summary : row.kind = .summary
        · exact moved (saveMessage_moves row (.inl summary))
        · refine stale ?_ missed ?_
          · simp [ChatOp.run, History.saveMessage, History.bumpIf, summary]
          · simp only [ChatOp.run, History.saveMessage, History.bumpIf, summary]
            exact List.subset_append_left _ _
  | heal =>
    rcases ok with none | newest | missed
    · exact moved (heal_moves (.inl none))
    · exact moved (heal_moves (.inr newest))
    · obtain ⟨stubs, e, -⟩ := healed_rows w.history.session
      refine stale rfl missed ?_
      show w.history.session.table.rows ⊆ (healed w.history.session).table.rows
      rw [e]
      exact List.subset_append_left _ _
  | queue op => exact moved (queue_moves op)
  | undo io => exact moved (undo_moves io)
  | redo io => exact moved (redo_moves io)
  | redoAll io => exact moved (redoAll_moves io)
  | cleanup => exact moved cleanup_moves
  | exclude summaryId keepLastN =>
    rcases ok with covers | same | older
    · exact moved (exclude_moves (.inl covers))
    · exact moved (exclude_moves (.inr same))
    · by_cases covers : (excludeMessagesBeforeSummary w.history.session summaryId keepLastN).1 ≠ 0
      · exact moved (exclude_moves (.inl covers))
      · refine .stale ?_
        simp only [ChatOp.run, History.bumpIf, covers, decide_false]
        exact stampOf_lt_of_ne valid.past (older c entry)
  | rewritePlaceholder toolCallId content => exact moved (rewritePlaceholder_moves toolCallId content)

/-- A load. -/
lemma LoadInv.load (I : LoadInv loads w) : LoadInv loads (w.load loads).2 := by
  unfold LoadWorld.load
  split
  · exact ⟨fun o old => (I.objects o old).trans_le (Nat.le_add_right _ _), I.cache⟩
  · dsimp only
    split
    · exact I
    · refine ⟨fun o marked => ?_, fun c h => ?_⟩
      · show o < w.objects + (newObjects w.objects _).length
        cases markLoaded_persisted.mp marked with
        | inl old => exact (I.objects o old).trans_le (Nat.le_add_right _ _)
        | inr new =>
          obtain ⟨m, hm, rfl⟩ := List.mem_map.mp new
          rw [length_newObjects]
          exact (oid_newObjects hm).2
      · cases h
        have read := Stamped.Valid.read w.history.stamp (w.history.fresh loads)
        unfold CacheEntry.entry
        dsimp only
        rw [unnamed_newObjects]
        exact read

/-- A sync. -/
lemma LoadInv.sync {objects : Nat} (I : LoadInv loads w) (le : w.objects ≤ objects)
    (known : ∀ m ∈ ms, m.oid < objects) : LoadInv loads (w.sync ms objects) where
  objects := fun o marked => by
    cases mem_sync_persisted marked with
    | inl old => exact (I.objects o old).trans_le le
    | inr given =>
      obtain ⟨m, hm, rfl⟩ := given
      exact known m hm
  cache := fun c entry => by
    unfold LoadWorld.sync at entry ⊢
    dsimp only at entry ⊢
    split at entry
    · rename_i idle
      have same : w.history.sync w.cp ms = w.history := by
        have quiet : syncBumps ⟨w.history.session.table, w.cp, ms⟩ = false := by
          simp [syncBumps, idle.1, idle.2]
        simp [History.sync, quiet, History.bumpIf, Transcript.sync, idle.1, idle.2]
      rw [same]
      exact I.cache c entry
    · cases entry

/-- One step. -/
lemma LoadInv.step {a : LoadAction} (I : LoadInv loads w) (st : Guarded Announced (LoadStep loads) w a w') :
    LoadInv loads w' := by
  obtain ⟨ok, st⟩ := st
  cases st with
  | mutate => exact I.mutate ok
  | load => exact I.load
  | sync one le known => exact I.sync le known
  | @syncOther cp messages one =>
    refine ⟨I.objects, fun c entry => ?_⟩
    have moves : Moves loads w.history (w.history.sync cp messages) := sync_moves one
    exact (I.cache c entry).move moves.up moves.same

/-- The cache of a checkpointer is transparent as long as it has no entry for the present history, or the history has
nothing that `sync` stores. -/
theorem load_iff (session : ChatSession) (revision : Nat × Nat)
    (rn : Run (Guarded Announced (LoadStep loads)) { history := ⟨session, revision⟩ } as w) :
    Transparent loads w ↔
      (w.hit ≠ none → ∀ m ∈ getMessagesForLlm loads w.history.session, storable m = false) := by
  have I : LoadInv loads w := rn.invariant (.start session revision) .step
  exact I.transparent_iff

end

/-! ## A session that is loaded twice -/

/-- A question with its answer. -/
def answeredOnce : ChatSession where
  table :=
    { rows := [{ id := 0, role := .user, content := some "hi", seq := 1024 },
        { id := 1, role := .assistant, content := some "hello", seq := 2048 }]
      clock := 2
      fresh := by decide
      distinct := by decide }
  revert := none

/-- The session after a load. -/
def loadedOnce : LoadWorld := (LoadWorld.load (fun _ => none) { history := ⟨answeredOnce, (0, 0)⟩ }).2

/-- The next answer. -/
def reply : ChatMessage := { oid := 7, role := .assistant, content := some "and hello again" }

/-- The session after the sync of that answer. -/
def repliedOnce : LoadWorld := loadedOnce.sync [reply] 8

/-- A history with a new answer is loaded as it is. -/
theorem repliedOnce_transparent : Transparent (fun _ => none) repliedOnce := by
  have rn : Run (Guarded Announced (LoadStep fun _ => none)) { history := ⟨answeredOnce, (0, 0)⟩ }
      [.load, .sync [reply]] repliedOnce := by
    refine .cons ⟨trivial, .load⟩ (.single ⟨trivial, .sync ?_ (by decide) ?_⟩)
    · intro m hm m' hm' _
      rw [List.mem_singleton.mp hm, List.mem_singleton.mp hm']
    · intro m hm
      rw [List.mem_singleton.mp hm]
      decide
  exact (load_iff answeredOnce (0, 0) rn).mpr fun hit => absurd rfl hit

/-- The second load of a session that has not changed gives copies that a sync inserts again. -/
theorem loadedOnce_reinserted : ¬ ∀ (loads : String → Option Json) (session : ChatSession) (revision : Nat × Nat)
    (as : List LoadAction) (w : LoadWorld),
    Run (LoadStep loads) { history := ⟨session, revision⟩ } as w → Transparent loads w := by
  intro all
  have t := all (fun _ => none) answeredOnce (0, 0) [.load] loadedOnce (.single .load)
  exact absurd t.synced (by decide)

end OpenAgentd.Transcript
