import OpenAgentd.Store.Window

/-!
# Undo and redo

The undo boundary of a session is a message row named by the session's `revert` dict
(`app/services/chat_service_revert.py`). Undo moves it to the newest target before it, redo to the next
message of the user after it, and `cleanup_reverted_tail` materialises it by reverting the rows at or
after it. None of the three adds, deletes or moves a row.

The snapshot service is the environment of undo and redo: `SnapshotCalls` holds what `track` returns
and what `restore` reports. It does not touch the rows.
-/

namespace OpenAgentd.Store
open OpenAgentd.Lib

/-- The `revert` dict of a session. `messageId` is `none` when the text under the key is no UUID. -/
structure Revert where
  messageId : Option Nat
  snapshot : Option String
  deriving DecidableEq

/-- `ChatSession`, with its message rows. -/
structure ChatSession where
  table : Table
  revert : Option Revert

/-- The paths a workspace restore reports. -/
structure Changes where
  added : List String := []
  modified : List String := []
  removed : List String := []
  deriving DecidableEq

/-- The outcomes of the snapshot service during one call. -/
structure SnapshotCalls where
  track : Option String
  restore : String → Changes

/-- `BoundaryShift`. -/
structure BoundaryShift where
  applied : Bool
  target : Option Row := none
  changes : Changes := {}
  deriving DecidableEq

/-- `revert_boundary`: the staged boundary row. -/
def revertBoundary (s : ChatSession) : Option Row :=
  s.revert.bind fun v => v.messageId.bind s.table.get?

/-- A string that is present and not empty. -/
def nonEmpty (v : Option String) : Option String := v.filter (fun s => s ≠ "")

/-- `redo_anchor`. -/
def redoAnchor (s : ChatSession) : Option String := s.revert.bind fun v => nonEmpty v.snapshot

/-- `message_snapshot`. -/
def messageSnapshot (r : Row) : Option String := nonEmpty r.extra.snapshot

/-- `_real_user_predicate`: a row the human user wrote. -/
def realUser (r : Row) : Bool :=
  r.role = .user && (r.extra.fromAgent = none || r.extra.fromAgent = some "user")

/-- `is_undo_target`. -/
def isUndoTarget (r : Row) : Bool :=
  (r.kind = .chat || r.kind = .summary) &&
    (r.extra.fromAgent = none || r.extra.fromAgent = some "user")

/-- The rows undo looks at, newest position first. -/
def undoCandidates (rows : List Row) (boundary : Option Row) : List Row :=
  let active := getActiveSummary rows none
  orderByPosDesc <| rows.filter fun r =>
    realUser r && (r.kind = .chat || r.kind = .summary) &&
      (r.kind = .summary || active.all (fun a => atOrAfterPos a r)) && beforeBoundary boundary r

/-- The row undo moves the boundary to. -/
def undoTarget (rows : List Row) (boundary : Option Row) : Option Row :=
  (undoCandidates rows boundary).head?.filter isUndoTarget

/-- The changes of a restore to a snapshot, if there is one. -/
def restoreTo (io : SnapshotCalls) (snapshot : Option String) : Changes :=
  snapshot.elim {} io.restore

/-- `undo_session_messages`. -/
def undoSessionMessages (io : SnapshotCalls) (s : ChatSession) : BoundaryShift × ChatSession :=
  match undoTarget s.table.rows (revertBoundary s) with
  | none => ({ applied := false }, s)
  | some target =>
    let anchor := match redoAnchor s with
      | some a => some a
      | none => nonEmpty io.track
    ({ applied := true, target := some target, changes := restoreTo io (messageSnapshot target) },
      { s with revert := some { messageId := some target.id, snapshot := anchor } })

/-- The next message of the user after the boundary. -/
def nextUser (rows : List Row) (boundary : Row) : Option Row :=
  (orderByPos (rows.filter fun r =>
    realUser r && r.kind = .chat && afterPos boundary r)).head?

/-- `redo_session_messages`. -/
def redoSessionMessages (io : SnapshotCalls) (s : ChatSession) : BoundaryShift × ChatSession :=
  match revertBoundary s with
  | none => ({ applied := false }, s)
  | some boundary =>
    let anchor := redoAnchor s
    match nextUser s.table.rows boundary with
    | none =>
      ({ applied := true, target := none, changes := restoreTo io anchor }, { s with revert := none })
    | some next =>
      ({ applied := true, target := some next, changes := restoreTo io (messageSnapshot next) },
        { s with revert := some { messageId := some next.id, snapshot := anchor } })

/-- `redo_all_session_messages`. -/
def redoAllSessionMessages (io : SnapshotCalls) (s : ChatSession) : BoundaryShift × ChatSession :=
  match revertBoundary s with
  | none => ({ applied := false }, s)
  | some _ =>
    ({ applied := true, target := none, changes := restoreTo io (redoAnchor s) },
      { s with revert := none })

/-- The row `cleanup_reverted_tail` makes of `r` under the boundary `b`. -/
def revertRow (b r : Row) : Row :=
  if atOrAfterPos b r && r.kind ≠ .queued then { r with kind := .reverted } else r

/-- Reverting keeps the id. -/
@[simp] lemma revertRow_id (b r : Row) : (revertRow b r).id = r.id := by
  unfold revertRow
  split <;> rfl

/-- `cleanup_reverted_tail`, with the number of rows it reverted. -/
def cleanupRevertedTail (s : ChatSession) : Nat × ChatSession :=
  match revertBoundary s with
  | none => (0, s)
  | some b =>
    ((s.table.rows.filter fun r => atOrAfterPos b r && r.kind ≠ .queued).length,
      { table := s.table.update (revertRow b) (revertRow_id b), revert := none })

/-- The history a load would hand to the model: the window under the staged boundary. -/
def derivedWindow (s : ChatSession) : List Row :=
  llmWindowRows s.table.rows (revertBoundary s) true

section
variable {s : ChatSession} {io : SnapshotCalls} {rows : List Row} {b r t : Row}

/-- A revert dict that names a row of the session stages that row. -/
lemma revertBoundary_of_mem {snapshot} (h : t ∈ s.table.rows)
    (e : s.revert = some { messageId := some t.id, snapshot }) : revertBoundary s = some t := by
  simp [revertBoundary, e, Table.get?_eq_some, h]

/-- The staged boundary is a row of the session. -/
lemma mem_of_revertBoundary (h : revertBoundary s = some b) : b ∈ s.table.rows := by
  obtain ⟨v, -, h⟩ := Option.bind_eq_some_iff.mp h
  obtain ⟨id, -, h⟩ := Option.bind_eq_some_iff.mp h
  exact (Table.get?_eq_some.mp h).1

/-- The members of the undo candidates without a boundary. -/
lemma mem_undoCandidates :
    t ∈ undoCandidates rows none ↔
      t ∈ rows ∧ realUser t = true ∧ (t.kind = .chat ∨ t.kind = .summary) ∧
        (t.kind = .summary ∨ (getActiveSummary rows none).all (fun a => atOrAfterPos a t) = true) := by
  simp [undoCandidates, orderByPosDesc, orderByPos, beforeBoundary, and_assoc]

/-- The undo candidates are in descending position order. -/
lemma undoCandidates_pairwise {boundary} (nd : (rows.map Row.id).Nodup) :
    (undoCandidates rows boundary).Pairwise (fun a b => b.pos < a.pos) := by
  rw [undoCandidates, orderByPosDesc, List.pairwise_reverse]
  exact sortOn_pairwise (nodup_map_filter (pos_nodup nd))

/-- A boundary cuts the list of candidates. -/
lemma undoCandidates_boundary (nd : (rows.map Row.id).Nodup) :
    undoCandidates rows (some b) = (undoCandidates rows none).filter (beforePos b) := by
  rw [undoCandidates, undoCandidates, orderByPosDesc, orderByPosDesc, orderByPos, orderByPos,
    List.filter_reverse, ← sortOn_filter (nodup_map_filter (pos_nodup nd)), List.filter_filter]
  congr 2
  apply List.filter_congr
  intro r _
  simp [beforeBoundary, Bool.and_comm]

/-- Every undo candidate is a target, so undo takes the first. -/
lemma undoTarget_eq_head? {boundary} :
    undoTarget rows boundary = (undoCandidates rows boundary).head? := by
  unfold undoTarget
  cases h : (undoCandidates rows boundary).head? with
  | none => rfl
  | some t =>
    have ht := List.mem_of_head? h
    simp only [undoCandidates, orderByPosDesc, orderByPos, List.mem_reverse, mem_sortOn,
      List.mem_filter, Bool.and_eq_true, realUser] at ht
    simp only [Option.filter_some, isUndoTarget, ht.2.1.1.2, ht.2.1.1.1.2, Bool.and_self, if_true]

/-- Redo looks at the user's chat rows after the boundary. -/
lemma nextUser_eq_some (nd : (rows.map Row.id).Nodup) :
    nextUser rows b = some t ↔
      (t ∈ rows ∧ realUser t = true ∧ t.kind = .chat ∧ b.pos < t.pos) ∧
        ∀ r ∈ rows, realUser r = true → r.kind = .chat → b.pos < r.pos → t.pos ≤ r.pos := by
  have nd' := nodup_map_filter (p := fun r => realUser r && r.kind = .chat && afterPos b r)
    (pos_nodup nd)
  rw [nextUser, orderByPos, sortOn_head?_eq_some nd']
  simp [afterPos, and_assoc]

end

end OpenAgentd.Store
