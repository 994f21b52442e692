import OpenAgentd.Lib.Resume
import OpenAgentd.Store.Window

/-!
# The migration to positions

`upgrade` of `app/migrations/versions/00000019_message_seq_kind.py`: the flags `is_summary` and
`exclude_from_context` of `session_messages` and the keys `hidden_from_user` and `queue_status` of `extra` become the
columns `seq`, `kind` and `pinned`. A statement is executed whole (`Db.exec`), and which statements are executed
follows from the columns and indexes that are there (`upgrade`).
-/

namespace OpenAgentd.Migration
open OpenAgentd.Lib OpenAgentd.Store

/-- What `json_extract` gives for a key of `extra`; `other` is equal to no constant of the migration. -/
inductive Extracted where
  | null
  | bool (b : Bool)
  | int (n : Int)
  | text (s : String)
  | other
  deriving DecidableEq

/-- The keys of `extra` that the migration reads. -/
structure LegacyExtra where
  queueStatus : Extracted := .null
  hiddenFromUser : Extracted := .null
  deriving DecidableEq

/-- A row of `session_messages` before the migration. -/
structure LegacyRow where
  id : Nat
  sessionId : Nat
  createdAt : Nat
  role : Role
  content : Option String := none
  toolCalls : List ToolCall := []
  toolCallId : Option String := none
  name : Option String := none
  extra : Option LegacyExtra := none
  isSummary : Bool := false
  excludeFromContext : Bool := false
  deriving DecidableEq

/-- A row with the new columns. -/
structure Message where
  old : LegacyRow
  seq : Nat := 0
  kind : MessageKind := .chat
  pinned : Bool := false
  deriving DecidableEq

namespace LegacyRow
variable (b : LegacyRow)

/-- The legacy order. -/
def pos : ℕ ×ₗ ℕ := toLex (b.createdAt, b.id)

/-- `queue_status` is `'queued'`. -/
def queued : Bool := b.extra.any fun extra => extra.queueStatus = .text "queued"

/-- `_HIDDEN`. -/
def hidden : Bool :=
  b.extra.any fun extra =>
    extra.hiddenFromUser ∈ [.bool true, .int 1, .text "1", .text "true"]

/-- The `CASE` of the kind backfill. -/
def kind : MessageKind :=
  if b.queued then .queued
  else if b.isSummary && b.hidden then .reverted
  else if b.isSummary then .summary
  else if b.hidden && b.excludeFromContext then .reverted
  else if b.hidden then .note
  else .chat

end LegacyRow

/-- `kind IN ('chat', 'note')`. -/
def isTalk (kind : MessageKind) : Bool := kind = .chat || kind = .note

/-- `(seq, id)`. -/
def Message.pos (m : Message) : ℕ ×ₗ ℕ := toLex (m.seq, m.old.id)

/-- The database: the rows, which columns there are, and which indexes. -/
structure Db where
  rows : List Message
  seq : Bool
  kind : Bool
  pinned : Bool
  isSummary : Bool
  excludeFromContext : Bool
  sessionCreatedId : Bool
  sessionSeqId : Bool
  activeSummary : Bool

/-- `ROW_NUMBER() OVER (PARTITION BY session_id ORDER BY created_at, id)`. -/
def rowNumber (rows : List LegacyRow) (b : LegacyRow) : Nat :=
  (rows.filter fun k => k.sessionId = b.sessionId && k.pos ≤ b.pos).length

/-- The subquery of the active summary of a session. -/
def newestSummary (rows : List Message) (sessionId : Nat) : Option Message :=
  (sortOn (fun s => s.old.id) (rows.filter fun s => s.old.sessionId = sessionId && s.kind = .summary)).getLast?

/-- The seq backfill. -/
def setSeq (rows : List Message) (m : Message) : Message :=
  { m with seq := rowNumber (rows.map Message.old) m.old * 1024 }

/-- The kind backfill. -/
def setKind (m : Message) : Message :=
  if m.old.isSummary || m.old.extra.isSome then { m with kind := m.old.kind } else m

/-- The positional repair. -/
def repair (rows : List Message) (m : Message) : Message :=
  match newestSummary rows m.old.sessionId with
  | none => m
  | some s =>
    if isTalk m.kind && m.old.excludeFromContext && m.old.id < s.old.id && s.pos < m.pos then { m with seq := s.seq }
    else m

/-- The residual excluded rows. -/
def revertResidual (rows : List Message) (m : Message) : Message :=
  if isTalk m.kind && m.old.excludeFromContext && (newestSummary rows m.old.sessionId).all fun s => s.pos < m.pos then
    { m with kind := .reverted }
  else m

/-- The pinned backfill. -/
def pin (rows : List Message) (m : Message) : Message :=
  if isTalk m.kind && !m.old.excludeFromContext &&
      (newestSummary rows m.old.sessionId).any fun s => m.seq < s.seq then
    { m with pinned := true }
  else m

/-- The statements. -/
inductive Statement where
  | addSeq
  | addKind
  | addPinned
  | setSeq
  | setKind
  | createActiveSummary
  | repair
  | revertResidual
  | pin
  | dropIsSummary
  | dropExcludeFromContext
  | dropSessionCreatedId
  | createSessionSeqId

/-- A statement is executed. A column that is dropped reads as unset. -/
def Db.exec (db : Db) : Statement → Db
  | .addSeq => { db with rows := db.rows.map fun m => { m with seq := 0 }, seq := true }
  | .addKind => { db with rows := db.rows.map fun m => { m with kind := .chat }, kind := true }
  | .addPinned => { db with rows := db.rows.map fun m => { m with pinned := false }, pinned := true }
  | .setSeq => { db with rows := db.rows.map (Migration.setSeq db.rows) }
  | .setKind => { db with rows := db.rows.map Migration.setKind }
  | .createActiveSummary => { db with activeSummary := true }
  | .repair => { db with rows := db.rows.map (Migration.repair db.rows) }
  | .revertResidual => { db with rows := db.rows.map (Migration.revertResidual db.rows) }
  | .pin => { db with rows := db.rows.map (Migration.pin db.rows) }
  | .dropIsSummary =>
    { db with rows := db.rows.map fun m => { m with old := { m.old with isSummary := false } }, isSummary := false }
  | .dropExcludeFromContext =>
    { db with
      rows := db.rows.map fun m => { m with old := { m.old with excludeFromContext := false } }
      excludeFromContext := false }
  | .dropSessionCreatedId => { db with sessionCreatedId := false }
  | .createSessionSeqId => { db with sessionSeqId := true }

/-- A part of the migration that looks at the database and executes statements. -/
abbrev Part := Db → List Statement

/-- The columns that are missing. -/
def addColumns : Part := fun db =>
  (if db.seq then [] else [.addSeq]) ++ (if db.kind then [] else [.addKind]) ++
    if db.pinned then [] else [.addPinned]

/-- `_backfill_derived_state`. -/
def backfillDerivedState : Part := fun db =>
  [.setSeq, .setKind] ++ (if db.activeSummary then [] else [.createActiveSummary]) ++ [.repair, .revertResidual, .pin]

/-- `_drop_legacy_columns`. -/
def dropLegacyColumns : Part := fun db =>
  (if db.isSummary then [.dropIsSummary] else []) ++
    if db.excludeFromContext then [.dropExcludeFromContext] else []

/-- What is done with the legacy columns. -/
def convert : Part := fun db =>
  if db.isSummary && db.excludeFromContext then inTurn Db.exec backfillDerivedState dropLegacyColumns db
  else if db.isSummary || db.excludeFromContext then dropLegacyColumns db
  else []

/-- `_ensure_indexes`. -/
def ensureIndexes : Part := fun db =>
  (if db.sessionCreatedId then [.dropSessionCreatedId] else []) ++
    (if db.sessionSeqId then [] else [.createSessionSeqId]) ++
    if db.activeSummary then [] else [.createActiveSummary]

/-- `upgrade`. -/
def upgrade : Part := inTurn Db.exec (inTurn Db.exec addColumns convert) ensureIndexes

/-- The database behind `upgrade`. -/
def upgraded (db : Db) : Db := runAll Db.exec db (upgrade db)

/-- The rows of a session as the application reads them. -/
def Message.row (m : Message) : Row where
  id := m.old.id
  role := m.old.role
  content := m.old.content
  toolCalls := m.old.toolCalls
  toolCallId := m.old.toolCallId
  name := m.old.name
  seq := m.seq
  kind := m.kind
  pinned := m.pinned

/-- The rows of a session. -/
def Db.session (db : Db) (sessionId : Nat) : List Row :=
  (db.rows.filter fun m => m.old.sessionId = sessionId).map Message.row

end OpenAgentd.Migration
