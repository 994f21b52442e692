import OpenAgentd.Store.Row

/-!
# Queued messages

A message that arrives while a turn is running is stored as a `queued` row
(`persist_queued_user_message`, `app/api/routes/agent/_helpers.py`), with a note for each file it mentions.
A queued row is promoted to a `chat` row at the end of the session (`_promote_queued`,
`app/services/chat_service_queue.py`) or deleted together with its notes. Each of these is one transaction.

`QueueEffect` is what every one of them does to the rows: it moves or adds rows of the user at the end and
deletes queued rows and rows that belong to another one.
-/

namespace OpenAgentd.Store
open OpenAgentd.Lib

/-- `save_queued_user_message`. -/
def saveQueuedUserMessage (tb : Table) (content : String) (extra : Extra) : Table :=
  tb.insert
    { id := 0, role := .user, content := some content, seq := nextSeq tb.rows, kind := .queued,
      extra := { extra with queueStatus := some "queued" } }

/-- The note of `persist_queued_user_message` on one file the queued message `owner` mentions. -/
def saveMentionContext (owner : Nat) (tb : Table) (content : String) : Table :=
  tb.insert
    { id := 0, role := .user, content := some content, seq := nextSeq tb.rows, kind := .note,
      pinned := true,
      extra := { hiddenFromUser := true, hiddenFromSummary := true,
                 attachmentForMessageId := some owner, mentionContext := true } }

/-- `persist_queued_user_message`, as far as the rows go. -/
def persistQueuedUserMessage (tb : Table) (content : String) (extra : Extra) (blocks : List String) :
    Table :=
  blocks.foldl (saveMentionContext tb.clock) (saveQueuedUserMessage tb content extra)

/-- `_queued_rows_stmt`. -/
def queuedRows (rows : List Row) : List Row :=
  orderByPos (rows.filter fun r => r.role = .user && r.kind = .queued)

/-- The row under `_promote_queued`. -/
def promoteRow (base : Nat) (queued : List Row) (r : Row) : Row :=
  match queued.findIdx? (fun q => q.id = r.id) with
  | none => r
  | some i => { r with kind := .chat, seq := base + i * seqStep,
                       extra := { r.extra with queueStatus := none } }

/-- Promoting keeps the id. -/
lemma promoteRow_id {base : Nat} {queued : List Row} (r : Row) : (promoteRow base queued r).id = r.id := by
  unfold promoteRow
  split
  · rfl
  · rfl

/-- `_promote_queued`. -/
def promoteQueued (tb : Table) (queued : List Row) : Table :=
  tb.update (promoteRow (nextSeq tb.rows) queued) promoteRow_id

/-- `release_queued_user_messages`. -/
def releaseQueuedUserMessages (tb : Table) : Table := promoteQueued tb (queuedRows tb.rows)

/-- `pop_queued_user_messages`. -/
def popQueuedUserMessages (tb : Table) : Table := promoteQueued tb (queuedRows tb.rows)

/-- `cancel_queued_user_message`, as far as the rows go. -/
def cancelQueuedUserMessage (tb : Table) (messageId : Nat) : Table :=
  match tb.get? messageId with
  | none => tb
  | some row =>
    if row.kind = .queued then
      tb.delete fun r => r.extra.attachmentForMessageId = some messageId || r.id = messageId
    else tb

/-- The transactions on the queue. -/
inductive QueueOp where
  | persist (content : String) (extra : Extra) (blocks : List String)
  | pop
  | release
  | cancel (messageId : Nat)

/-- The rows after a transaction on the queue. -/
def QueueOp.run (tb : Table) : QueueOp → Table
  | .persist content extra blocks => persistQueuedUserMessage tb content extra blocks
  | .pop => popQueuedUserMessages tb
  | .release => releaseQueuedUserMessages tb
  | .cancel messageId => cancelQueuedUserMessage tb messageId

/-- What a transaction on the queue does. Old rows stay where they are unless they are queued or belong to
another row; rows that are new or moved are behind all old ones, rows of the user and no summaries. -/
structure QueueEffect (tb tb' : Table) : Prop where
  clock : tb.clock ≤ tb'.clock
  stays : ∀ r ∈ tb.rows, r.kind ≠ .queued → r.extra.attachmentForMessageId = none → r ∈ tb'.rows
  source : ∀ r ∈ tb'.rows, r ∈ tb.rows ∨
    (∀ k ∈ tb.rows, k.seq < r.seq) ∧ r.kind ≠ .summary ∧ r.role = .user

section
variable {tb tb' tb'' : Table} {r : Row}

/-- No effect is one. -/
lemma QueueEffect.refl : QueueEffect tb tb :=
  ⟨le_rfl, fun _ h _ _ => h, fun _ h => .inl h⟩

/-- Effects one after the other. -/
lemma QueueEffect.trans (h : QueueEffect tb tb') (h' : QueueEffect tb' tb'')
    (all : ∀ r ∈ tb.rows, r ∈ tb'.rows) : QueueEffect tb tb'' where
  clock := h.clock.trans h'.clock
  stays := fun r hr q att => h'.stays r (h.stays r hr q att) q att
  source := by
    intro r hr
    cases h'.source r hr with
    | inl old => exact h.source r old
    | inr new =>
      exact .inr ⟨fun k hk => new.1 k (all k hk), new.2⟩

/-- Appending a row of the user. -/
lemma QueueEffect.insert (seq : r.seq = nextSeq tb.rows) (ns : r.kind ≠ .summary)
    (role : r.role = .user) : QueueEffect tb (tb.insert r) where
  clock := Nat.le_succ _
  stays := fun _ h _ _ => List.mem_append_left _ h
  source := by
    intro k hk
    cases List.mem_append.mp hk with
    | inl old => exact .inl old
    | inr new =>
      rw [List.mem_singleton.mp new]
      exact .inr ⟨fun _ h => seq ▸ lt_nextSeq h, ns, role⟩

/-- Queueing a message. -/
lemma persistQueuedUserMessage_effect (tb : Table) (content : String) (extra : Extra)
    (blocks : List String) :
    QueueEffect tb (persistQueuedUserMessage tb content extra blocks) := by
  have notes : ∀ (owner : Nat) (blocks : List String) (t : Table),
      QueueEffect t (blocks.foldl (saveMentionContext owner) t) := by
    intro owner blocks
    induction blocks with
    | nil => exact fun _ => .refl
    | cons b blocks ih =>
      intro t
      have one : QueueEffect t (saveMentionContext owner t b) := .insert rfl (nofun) rfl
      exact one.trans (ih _) fun _ h => List.mem_append_left _ h
  have one : QueueEffect tb (saveQueuedUserMessage tb content extra) := .insert rfl (nofun) rfl
  exact one.trans (notes _ _ _) fun _ h => List.mem_append_left _ h

/-- When a row is queued. -/
lemma mem_queuedRows {rows : List Row} :
    r ∈ queuedRows rows ↔ r ∈ rows ∧ r.role = .user ∧ r.kind = .queued := by
  simp [queuedRows, orderByPos]

/-- Promotion moves the queued rows and no others. -/
lemma promoteRow_cases {base : Nat} (nd : (tb.rows.map Row.id).Nodup) (hr : r ∈ tb.rows) :
    promoteRow base (queuedRows tb.rows) r = r ∨
      (r.role = .user ∧ r.kind = .queued) ∧ ∃ i, promoteRow base (queuedRows tb.rows) r =
        { r with kind := .chat, seq := base + i * seqStep,
                 extra := { r.extra with queueStatus := none } } := by
  unfold promoteRow
  cases e : (queuedRows tb.rows).findIdx? (fun q => q.id = r.id) with
  | none => exact .inl rfl
  | some i =>
    obtain ⟨hi, same, -⟩ := List.findIdx?_eq_some_iff_getElem.mp e
    obtain ⟨mem, queued⟩ := mem_queuedRows.mp (List.getElem_mem hi)
    rw [List.inj_on_of_nodup_map nd mem hr (by simpa using same)] at queued
    exact .inr ⟨queued, i, rfl⟩

/-- Promoting the queue. -/
lemma promoteQueued_effect (tb : Table) : QueueEffect tb (promoteQueued tb (queuedRows tb.rows)) where
  clock := le_rfl
  stays := by
    intro r hr nq _
    refine List.mem_map.mpr ⟨r, hr, ?_⟩
    cases promoteRow_cases tb.distinct hr with
    | inl e => exact e
    | inr h => exact absurd h.1.2 nq
  source := by
    intro r' hr'
    obtain ⟨r, hr, rfl⟩ := List.mem_map.mp hr'
    cases promoteRow_cases tb.distinct hr with
    | inl e =>
      rw [e]
      exact .inl hr
    | inr h =>
      obtain ⟨⟨role, -⟩, i, e⟩ := h
      rw [e]
      refine .inr ⟨fun k hk => ?_, nofun, role⟩
      exact (lt_nextSeq hk).trans_le (Nat.le_add_right _ _)

/-- Cancelling a queued message. -/
lemma cancelQueuedUserMessage_effect (tb : Table) (messageId : Nat) :
    QueueEffect tb (cancelQueuedUserMessage tb messageId) := by
  unfold cancelQueuedUserMessage
  cases h : tb.get? messageId with
  | none => exact .refl
  | some row =>
    obtain ⟨hrow, hid⟩ := Table.get?_eq_some.mp h
    dsimp only
    split
    · rename_i kind
      refine ⟨le_rfl, ?_, fun r hr => .inl (List.mem_of_mem_filter hr)⟩
      intro r hr nq att
      refine List.mem_filter.mpr ⟨hr, ?_⟩
      have ne : r.id ≠ messageId := by
        intro e
        rw [List.inj_on_of_nodup_map tb.distinct hr hrow (e.trans hid.symm)] at nq
        exact nq kind
      simp [att, ne]
    · exact .refl

/-- Every transaction on the queue. -/
theorem QueueOp.effect (tb : Table) (op : QueueOp) : QueueEffect tb (op.run tb) := by
  cases op with
  | persist content extra blocks => exact persistQueuedUserMessage_effect tb content extra blocks
  | pop => exact promoteQueued_effect tb
  | release => exact promoteQueued_effect tb
  | cancel messageId => exact cancelQueuedUserMessage_effect tb messageId

end

end OpenAgentd.Store
