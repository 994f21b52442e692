import OpenAgentd.Store.Deserialize

/-!
# The checkpointer

`SQLiteCheckpointer` (`app/agent/checkpointer.py`) keeps what it knows of the database next to it: the
identities of the messages it has written (`_persisted`) and the pins it has written
(`_flushed_pinned`). `sync` writes what is new in one transaction and changes this bookkeeping, and the
`db_id` of the messages, on the way. When the flush or the commit fails the transaction is rolled back
and the bookkeeping stays as it is.

`sync` is translated with its transaction as a parameter `fails`. Writing goes message by message
(`flushNew`); the append position is allocated once and then counted on (`Flush.nextTail`).
-/

namespace OpenAgentd.Transcript
open OpenAgentd.Lib OpenAgentd.Store

/-- The bookkeeping of `SQLiteCheckpointer` for one session. -/
structure Checkpointer where
  persisted : List Nat := []
  flushedPinned : Nat → Option Bool := fun _ => none

/-- An entry of `_flushed_pinned`. -/
def Checkpointer.flushPin (cp : Checkpointer) (id : Nat) (v : Bool) : Checkpointer :=
  { cp with flushedPinned := fun i => if i = id then some v else cp.flushedPinned i }

/-- `persisted_ids.add(id(msg))`, with the pin of the row if the message has one. -/
def Checkpointer.mark (cp : Checkpointer) (m : ChatMessage) : Checkpointer :=
  let cp := { cp with persisted := m.oid :: cp.persisted }
  match m.dbId with
  | none => cp
  | some id => cp.flushPin id m.pinned

/-- `mark_loaded`, without the token seed. -/
def markLoaded (cp : Checkpointer) : List ChatMessage → Checkpointer
  | [] => cp
  | m :: ms =>
    let cp' : Checkpointer := { cp with persisted := m.oid :: cp.persisted }
    markLoaded (match m.dbId with
      | none => cp'
      | some id => if (cp.flushedPinned id).isSome then cp' else cp'.flushPin id m.pinned) ms

/-- The content test of `sync` for an assistant message. -/
def hasContent (m : ChatMessage) : Bool :=
  hasText m.content || hasText m.reasoningContent || !m.toolCalls.isEmpty ||
    !m.extra.reasoningItems.isEmpty || m.isSummary

/-- The messages `sync` writes a row for. -/
def storable (m : ChatMessage) : Bool :=
  match m.role with
  | .assistant => hasContent m
  | .tool => true
  | .user => m.isSummary || m.extra.hiddenFromUser
  | .system => false

/-- The first message of a list a summary can be anchored at. -/
def firstAnchor (ms : List ChatMessage) : Option Nat :=
  ms.findSome? fun m => if !m.excludeFromContext && !m.pinned then m.dbId else none

/-- `_summary_anchor_ids`: the new summaries with the rows they must sort ahead of. -/
def summaryAnchorIds (persisted : List Nat) : List ChatMessage → List (Nat × Nat)
  | [] => []
  | m :: ms =>
    match if m.isSummary && decide (m.oid ∉ persisted) then firstAnchor ms else none with
    | none => summaryAnchorIds persisted ms
    | some anchor => (m.oid, anchor) :: summaryAnchorIds persisted ms

/-- `_resolve_summary_seqs`. -/
def resolveSummarySeqs (tb : Table) (anchors : List (Nat × Nat)) : List (Nat × Nat) :=
  anchors.filterMap fun a => (tb.get? a.2).map fun row => (a.1, seqBeforeRow tb.rows row)

/-- The update of the pin of a written message, when it differs from what was written. -/
def pinUpdate (cp : Checkpointer) (m : ChatMessage) : Option (Nat × Bool) :=
  match m.dbId with
  | none => none
  | some id =>
    if m.oid ∈ cp.persisted ∧ m.role ≠ .system ∧ (cp.flushedPinned id).getD false ≠ m.pinned then
      some (id, m.pinned)
    else none

/-- The pin updates of `sync`, in message order. -/
def pinUpdates (cp : Checkpointer) (messages : List ChatMessage) : List (Nat × Bool) :=
  messages.filterMap (pinUpdate cp)

/-- The value of a dict built from `pins`: the last entry of a key counts. -/
def pinOf (pins : List (Nat × Bool)) (id : Nat) : Option Bool := pins.reverse.lookup id

/-- The row under the pin updates. -/
def pinRow (pins : List (Nat × Bool)) (r : Row) : Row :=
  { r with pinned := (pinOf pins r.id).getD r.pinned }

/-- The transaction of `sync` while it runs. -/
structure Flush where
  table : Table
  cp : Checkpointer
  tail : Option Nat := none

/-- `_next_tail`. -/
def Flush.nextTail (f : Flush) : Nat :=
  match f.tail with
  | none => nextSeq f.table.rows
  | some t => t + seqStep

/-- Saving the message `m`, at the anchored position or at the tail. -/
def Flush.save (f : Flush) (m : ChatMessage) (isSummary : Bool) (anchored : Option Nat) :
    Flush × ChatMessage :=
  let seq := anchored.getD f.nextTail
  let m' := { m with dbId := some f.table.clock }
  ({ table := f.table.insert (messageRow m isSummary seq)
     cp := f.cp.mark m'
     tail := if anchored.isSome then f.tail else some seq }, m')

/-- The branches of `sync` for one new message. -/
def flushMessage (anchored : Nat → Option Nat) (f : Flush) (m : ChatMessage) : Flush × ChatMessage :=
  match m.role with
  | .assistant => if hasContent m then f.save m m.isSummary (anchored m.oid) else (f, m)
  | .tool => f.save m false none
  | .user =>
    if m.isSummary || m.extra.hiddenFromUser then f.save m m.isSummary (anchored m.oid)
    else ({ f with cp := f.cp.mark m }, m)
  | .system => (f, m)

/-- The loop of `sync` over the messages that are not in `seen`. -/
def flushNew (seen : List Nat) (anchored : Nat → Option Nat) :
    Flush → List ChatMessage → Flush × List ChatMessage
  | f, [] => (f, [])
  | f, m :: ms =>
    let fm := if m.oid ∈ seen then (f, m) else flushMessage anchored f m
    let rest := flushNew seen anchored fm.1 ms
    (rest.1, fm.2 :: rest.2)

/-- The session as `sync` sees it. -/
structure Session where
  table : Table
  cp : Checkpointer
  messages : List ChatMessage

/-- The messages `sync` has not seen. -/
def newMessages (s : Session) : List ChatMessage :=
  s.messages.filter fun m => decide (m.oid ∉ s.cp.persisted)

/-- The bookkeeping after the pin updates. -/
def flushPins (cp : Checkpointer) (pins : List (Nat × Bool)) : Checkpointer :=
  { cp with flushedPinned := fun id => (pinOf pins id).or (cp.flushedPinned id) }

/-- The transaction of `sync` before its commit, with the messages as it leaves them. -/
def syncTransaction (s : Session) : Flush × List ChatMessage :=
  let pins := pinUpdates s.cp s.messages
  let seqs := resolveSummarySeqs s.table (summaryAnchorIds s.cp.persisted s.messages)
  flushNew s.cp.persisted (fun oid => seqs.lookup oid)
    { table := s.table.update (pinRow pins) (fun _ => rfl), cp := flushPins s.cp pins } s.messages

section
variable {seen : List Nat} {anchored : Nat → Option Nat} {f : Flush} {m : ChatMessage}
  {ms : List ChatMessage}

/-- Ids are not given back. -/
lemma clock_le_flushMessage : f.table.clock ≤ (flushMessage anchored f m).1.table.clock := by
  unfold flushMessage
  split
  · split
    · exact Nat.le_succ _
    · exact le_rfl
  · exact Nat.le_succ _
  · split
    · exact Nat.le_succ _
    · exact le_rfl
  · exact le_rfl

/-- Ids are not given back. -/
lemma clock_le_flushNew : f.table.clock ≤ (flushNew seen anchored f ms).1.table.clock := by
  induction ms generalizing f with
  | nil => exact le_rfl
  | cons m ms ih =>
    rw [flushNew]
    split
    · exact ih
    · exact clock_le_flushMessage.trans ih

end

/-- Ids are not given back. -/
lemma clock_le_syncTransaction (s : Session) :
    s.table.clock ≤ (syncTransaction s).1.table.clock := by
  refine le_trans ?_ clock_le_flushNew
  exact le_rfl

/-- `sync`, whose transaction is committed or fails at its end. -/
def sync (fails : Bool) (s : Session) : Session :=
  if newMessages s = [] ∧ pinUpdates s.cp s.messages = [] then s
  else
    let t := syncTransaction s
    { table := if fails then s.table.rollback t.1.table (clock_le_syncTransaction s) else t.1.table
      cp := t.1.cp
      messages := t.2 }

end OpenAgentd.Transcript
