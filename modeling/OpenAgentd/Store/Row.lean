import OpenAgentd.Lib.Ordered
import OpenAgentd.Schemas.Chat
import Mathlib.Data.Prod.Lex
import Mathlib.Tactic.Common

/-!
# Rows of one session

`SessionMessage` (`app/models/chat.py`): the rows of one session, as a table. The position of a row is
the pair `(seq, id)`, and every read orders by it. `seq` is sparse; appends take `max + SEQ_STEP` and
anchored rows the midpoint of the gap before their anchor (`nextSeq`, `seqBetween`, `seqBeforeRow` in
`app/services/chat_service.py`).

A `Table` carries what the database and the id generator guarantee: the ids are a primary key and the
clock of `uuid7` is ahead of every id it gave out.
-/

namespace OpenAgentd.Store
open OpenAgentd.Lib

/-- `SEQ_STEP`. -/
def seqStep : Nat := 1024

/-- `SessionMessage`. -/
structure Row where
  id : Nat
  role : Role
  content : Option String := none
  reasoningContent : Option String := none
  toolCalls : List ToolCall := []
  toolCallId : Option String := none
  name : Option String := none
  parts : List String := []
  seq : Nat
  kind : MessageKind := .chat
  pinned : Bool := false
  extra : Extra := {}
  deriving DecidableEq

/-- `_pos`: the ordering key `(seq, id)`. -/
def Row.pos (r : Row) : ℕ ×ₗ ℕ := toLex (r.seq, r.id)

/-- Positions compare by `seq`, ties by `id`. -/
lemma Row.pos_lt {a b : Row} : a.pos < b.pos ↔ a.seq < b.seq ∨ a.seq = b.seq ∧ a.id < b.id := by
  simp [Row.pos, Prod.Lex.toLex_lt_toLex]

/-- The non-strict comparison of positions. -/
lemma Row.pos_le {a b : Row} : a.pos ≤ b.pos ↔ a.seq < b.seq ∨ a.seq = b.seq ∧ a.id ≤ b.id := by
  simp [Row.pos, Prod.Lex.toLex_le_toLex]

/-- A position determines the id. -/
lemma Row.id_of_pos {a b : Row} (e : a.pos = b.pos) : a.id = b.id := by
  have h : (a.seq, a.id) = (b.seq, b.id) := toLex_inj.mp e
  exact (Prod.mk.inj h).2

/-- The rows of one session and the clock of the id generator. -/
structure Table where
  rows : List Row
  clock : Nat
  fresh : ∀ r ∈ rows, r.id < clock
  distinct : (rows.map Row.id).Nodup

/-- `order_by_pos`. -/
def orderByPos (rows : List Row) : List Row := sortOn Row.pos rows

/-- The newest first form of `order_by_pos`. -/
def orderByPosDesc (rows : List Row) : List Row := (orderByPos rows).reverse

/-- Different ids make different positions. -/
lemma pos_nodup {rows : List Row} (nd : (rows.map Row.id).Nodup) : (rows.map Row.pos).Nodup := by
  have h : rows.map Row.id = (rows.map Row.pos).map (fun p => (ofLex p).2) := by
    simp [Row.pos, Function.comp_def]
  rw [h] at nd
  exact nd.of_map _

/-- `db.get(SessionMessage, id)` on the rows of the session. -/
def Table.get? (tb : Table) (id : Nat) : Option Row := tb.rows.find? (fun r => r.id = id)

/-- Looking for the id of a row finds the row. -/
lemma find?_id {rows : List Row} {r : Row} (nd : (rows.map Row.id).Nodup) (h : r ∈ rows) :
    rows.find? (fun k => k.id = r.id) = some r := by
  cases e : rows.find? (fun k => k.id = r.id) with
  | none =>
    have := List.find?_eq_none.mp e r h
    simp at this
  | some k =>
    have hid : k.id = r.id := by simpa using List.find?_some e
    rw [List.inj_on_of_nodup_map nd (List.mem_of_find?_eq_some e) h hid]

/-- A lookup finds exactly the row with the id. -/
lemma Table.get?_eq_some {tb : Table} {id : Nat} {r : Row} :
    tb.get? id = some r ↔ r ∈ tb.rows ∧ r.id = id := by
  constructor
  · intro h
    refine ⟨List.mem_of_find?_eq_some h, ?_⟩
    simpa using List.find?_some h
  · rintro ⟨hr, rfl⟩
    exact find?_id tb.distinct hr

/-- `db.add`: the row `r` under the next id of `uuid7`. -/
def Table.insert (tb : Table) (r : Row) : Table where
  rows := tb.rows ++ [{ r with id := tb.clock }]
  clock := tb.clock + 1
  fresh := by
    intro r' h
    rcases List.mem_append.mp h with h | h
    · exact Nat.lt_succ_of_lt (tb.fresh r' h)
    · rw [List.mem_singleton.mp h]
      exact Nat.lt_succ_self _
  distinct := by
    rw [List.map_append, List.nodup_append]
    refine ⟨tb.distinct, by simp, ?_⟩
    intro a ha b hb
    obtain ⟨r', hr', rfl⟩ := List.mem_map.mp ha
    rw [List.map_singleton, List.mem_singleton] at hb
    rw [hb]
    exact (tb.fresh r' hr').ne

/-- An `UPDATE` that leaves the ids alone. -/
def Table.update (tb : Table) (f : Row → Row) (keeps : ∀ r, (f r).id = r.id) : Table where
  rows := tb.rows.map f
  clock := tb.clock
  fresh := by
    intro r h
    obtain ⟨r', hr', rfl⟩ := List.mem_map.mp h
    rw [keeps]
    exact tb.fresh r' hr'
  distinct := by
    have e : Row.id ∘ f = Row.id := funext keeps
    rw [List.map_map, e]
    exact tb.distinct

/-- A `DELETE` of the rows that `p` selects. -/
def Table.delete (tb : Table) (p : Row → Bool) : Table where
  rows := tb.rows.filter (fun r => !p r)
  clock := tb.clock
  fresh := fun r h => tb.fresh r (List.mem_of_mem_filter h)
  distinct := nodup_map_filter tb.distinct

/-- The rows of `old` with the clock of `new`: ids given out in a rolled back transaction are not
given out again. -/
def Table.rollback (old new : Table) (le : old.clock ≤ new.clock) : Table where
  rows := old.rows
  clock := new.clock
  fresh := fun r h => (old.fresh r h).trans_le le
  distinct := old.distinct

/-- The rows after an insert. -/
@[simp] lemma Table.insert_rows (tb : Table) (r : Row) :
    (tb.insert r).rows = tb.rows ++ [{ r with id := tb.clock }] := rfl

/-- An insert takes an id. -/
@[simp] lemma Table.insert_clock (tb : Table) (r : Row) : (tb.insert r).clock = tb.clock + 1 := rfl

/-- The rows after an update. -/
@[simp] lemma Table.update_rows (tb : Table) (f keeps) :
    (tb.update f keeps).rows = tb.rows.map f := rfl

/-- An update takes no id. -/
@[simp] lemma Table.update_clock (tb : Table) (f keeps) :
    (tb.update f keeps).clock = tb.clock := rfl

/-- The rows after a delete. -/
@[simp] lemma Table.delete_rows (tb : Table) (p : Row → Bool) :
    (tb.delete p).rows = tb.rows.filter (fun r => !p r) := rfl

/-- A delete takes no id. -/
@[simp] lemma Table.delete_clock (tb : Table) (p : Row → Bool) :
    (tb.delete p).clock = tb.clock := rfl

/-- A rollback restores the rows. -/
@[simp] lemma Table.rollback_rows (old new : Table) (le) : (old.rollback new le).rows = old.rows := rfl

/-- A rollback gives no id back. -/
@[simp] lemma Table.rollback_clock (old new : Table) (le) :
    (old.rollback new le).clock = new.clock := rfl

/-! ## Allocation of positions -/

/-- `SELECT max(seq)`, or `0` when no row is selected. -/
def maxSeq (rows : List Row) : Nat := (rows.map Row.seq).foldr max 0

/-- Every selected row is at most the maximum. -/
lemma le_maxSeq {rows : List Row} {r : Row} (h : r ∈ rows) : r.seq ≤ maxSeq rows := by
  induction rows with
  | nil => cases h
  | cons r' rows ih =>
    simp only [maxSeq, List.map_cons, List.foldr_cons, List.mem_cons] at h ih ⊢
    rcases h with rfl | h
    · exact le_max_left _ _
    · exact (ih h).trans (le_max_right _ _)

/-- The maximum is below a positive bound when every selected row is. -/
lemma maxSeq_lt {rows : List Row} {n : Nat} (pos : 0 < n) (h : ∀ r ∈ rows, r.seq < n) :
    maxSeq rows < n := by
  induction rows with
  | nil => exact pos
  | cons r rows ih =>
    simp only [maxSeq, List.map_cons, List.foldr_cons, Nat.max_lt] at ih ⊢
    exact ⟨h r (by simp), ih (fun r' h' => h r' (by simp [h']))⟩

/-- `next_seq`: the next append position. -/
def nextSeq (rows : List Row) : Nat := maxSeq rows + seqStep

/-- `seq_between`: the midpoint of a gap, the lower end when it is exhausted. -/
def seqBetween (prev next : Nat) : Nat :=
  if next - prev ≥ 2 then prev + (next - prev) / 2 else prev

/-- `seq_before_row`: the position directly before `anchor`. -/
def seqBeforeRow (rows : List Row) (anchor : Row) : Nat :=
  seqBetween (maxSeq (rows.filter (fun r => r.seq < anchor.seq))) anchor.seq

/-- Every row is before the next append position. -/
lemma lt_nextSeq {rows : List Row} {r : Row} (h : r ∈ rows) : r.seq < nextSeq rows := by
  have := le_maxSeq h
  simp only [nextSeq, seqStep]
  omega

/-- The midpoint is not before the lower end. -/
lemma le_seqBetween (prev next : Nat) : prev ≤ seqBetween prev next := by
  unfold seqBetween
  split <;> omega

/-- The midpoint is before the upper end of a gap. -/
lemma seqBetween_lt {prev next : Nat} (h : prev < next) : seqBetween prev next < next := by
  unfold seqBetween
  split <;> omega

/-- A row directly before a positive `anchor` sorts behind every row below the anchor. -/
lemma le_seqBeforeRow {rows : List Row} {r anchor : Row} (h : r ∈ rows) (lt : r.seq < anchor.seq) :
    r.seq ≤ seqBeforeRow rows anchor := by
  refine le_trans ?_ (le_seqBetween _ _)
  exact le_maxSeq (List.mem_filter.mpr ⟨h, by simpa using lt⟩)

/-- A row directly before a positive `anchor` has a smaller `seq`. -/
lemma seqBeforeRow_lt {rows : List Row} {anchor : Row} (pos : 0 < anchor.seq) :
    seqBeforeRow rows anchor < anchor.seq := by
  refine seqBetween_lt (maxSeq_lt pos ?_)
  intro r h
  simpa using (List.mem_filter.mp h).2

/-- Before an anchor at `0` there is no room. -/
lemma seqBeforeRow_zero {rows : List Row} {anchor : Row} (e : anchor.seq = 0) :
    seqBeforeRow rows anchor = 0 := by
  simp [seqBeforeRow, e, seqBetween, maxSeq]

end OpenAgentd.Store
