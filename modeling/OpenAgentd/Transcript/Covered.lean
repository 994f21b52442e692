import OpenAgentd.Lib.Chunked
import OpenAgentd.Transcript.Cached

/-!
# What a manual compaction keeps

`exclude_messages_before_summary` moves a freshly saved summary directly before the `keep_last_n`-th chat or note row
from the end. It means to restrict these rows to what an earlier summary has left in the window, but the fresh summary
is already the active one when it asks, so that rows compacted long ago are counted and come back. `keepsLast_iff` says
when the window keeps its last rows all the same.
-/

namespace OpenAgentd.Transcript
open OpenAgentd.Lib OpenAgentd.Store

/-- A chat or note row before the summary. -/
def coverable (summary r : Row) : Bool := (r.kind = .chat || r.kind = .note) && beforePos summary r

/-- The chat and note rows before the summary, in order. -/
def rowsBefore (s : ChatSession) (summary : Row) : List Row := orderByPos (s.table.rows.filter (coverable summary))

/-- Those of them that were in the window without the summary. -/
def windowRows (s : ChatSession) (summary : Row) : List Row :=
  (llmWindowRows (s.table.rows.filter fun r => r.id ≠ summary.id) (revertBoundary s) true).filter (coverable summary)

/-- The newest summary, saved after everything that stands before it. -/
structure FreshSummary (s : ChatSession) (summary : Row) : Prop where
  mem : summary ∈ s.table.rows
  kind : summary.kind = .summary
  newest : ∀ r ∈ s.table.rows, r.kind = .summary → r.id ≤ summary.id
  saved : ∀ r ∈ s.table.rows, r.pos < summary.pos → r.id < summary.id

/-- The session after the compaction. -/
def compactedSession (s : ChatSession) (summary : Row) (n : Nat) : ChatSession :=
  (excludeMessagesBeforeSummary s summary.id n).2

/-- After the compaction the window has the summary, what it had behind the summary and, of what stood before it, the
last `n` rows of the window. The count is that of the rows that left. -/
structure KeepsLast (s : ChatSession) (summary : Row) (n : Nat) : Prop where
  summarised : summary.id ∈ (derivedWindow (compactedSession s summary n)).map Row.id
  kept : ((derivedWindow (compactedSession s summary n)).filter fun r => r.id ≠ summary.id && beforePos summary r).map
    Row.id = (lastN n (windowRows s summary)).map Row.id
  behind : ((derivedWindow (compactedSession s summary n)).filter fun r => beforePos r summary).map Row.id =
    ((derivedWindow s).filter fun r => beforePos r summary).map Row.id
  count : (excludeMessagesBeforeSummary s summary.id n).1 =
    ((windowRows s summary).filter fun r => r.id ∉ (derivedWindow (compactedSession s summary n)).map Row.id).length

/-- The rows from the `n`-th one from the end on can be told from those before them by their `seq`, and the summary has
room below an undo boundary. -/
structure Separable (s : ChatSession) (summary : Row) (n : Nat) : Prop where
  room : ∀ b, revertBoundary s = some b → summary.pos < b.pos ∨
    ∃ first ∈ (lastN n (rowsBefore s summary)).head?, b.pos < summary.pos ∧ first.seq ≤ b.seq ∧ b.seq ≠ 0
  rows :
    (windowRows s summary = rowsBefore s summary ∧ ∀ first ∈ (lastN n (rowsBefore s summary)).head?,
      first.seq ≠ 0 ∧ ∀ r ∈ rowsBefore s summary, r.pos < first.pos → r.seq ≠ first.seq) ∨
    ((rowsBefore s summary).length ≤ n ∧ ∀ r ∈ rowsBefore s summary,
      r ∈ windowRows s summary ↔ r.seq ≠ 0 ∧ beforeBoundary (revertBoundary s) r = true)

section
variable {s : ChatSession} {summary r : Row} {n : Nat}

/-! ## The call -/

/-- A fresh summary is active. -/
lemma getActiveSummary_fresh (fresh : FreshSummary s summary) :
    getActiveSummary s.table.rows none = some summary := by
  rw [getActiveSummary_eq_some s.table.distinct]
  exact ⟨⟨fresh.mem, fresh.kind, rfl⟩, fun r mem kind _ => fresh.newest r mem kind⟩

/-- The restriction to an earlier summary is never made. -/
lemma coverCandidates_fresh (fresh : FreshSummary s summary) :
    coverCandidates s.table.rows summary = s.table.rows.filter (coverable summary) := by
  unfold coverCandidates
  rw [getActiveSummary_fresh fresh]
  apply List.filter_congr
  intro r _
  simp [coverable]

/-- The `n`-th row from the end, or the first one if there are fewer. -/
lemma nthFromEnd (l : List Row) (n : Nat) :
    (if n = 0 then none else l.reverse[min n l.length - 1]?) = (lastN n l).head? := by
  unfold lastN
  split
  next zero => simp [zero]
  next pos =>
    rw [List.head?_drop]
    cases l with
    | nil => rfl
    | cons a l =>
      have some_ : 0 < (a :: l).length := Nat.succ_pos _
      rw [List.getElem?_reverse (by omega)]
      congr 1
      omega

/-- The `seq` that the summary gets. -/
def newSeq (s : ChatSession) (summary : Row) (n : Nat) : Nat :=
  (lastN n (rowsBefore s summary)).head?.elim summary.seq fun first => seqBeforeRow s.table.rows first

/-- The summary at its new place. -/
def movedSummary (s : ChatSession) (summary : Row) (n : Nat) : Row := { summary with seq := newSeq s summary n }

/-- Covering below a fresh summary. -/
lemma exclude_fresh (fresh : FreshSummary s summary) (n : Nat) :
    excludeMessagesBeforeSummary s summary.id n = ((rowsBefore s summary).length - n,
      { s with table := s.table.update (coverRow summary (newSeq s summary n)) (coverRow_id _ _) }) := by
  have found : s.table.get? summary.id = some summary := Table.get?_eq_some.mpr ⟨fresh.mem, rfl⟩
  have length : (coverCandidates s.table.rows summary).length = (rowsBefore s summary).length := by
    rw [coverCandidates_fresh fresh]
    exact sortOn_perm.length_eq.symm
  have first : (if n = 0 then none else (orderByPosDesc (coverCandidates s.table.rows summary))[min n
      (coverCandidates s.table.rows summary).length - 1]?) = (lastN n (rowsBefore s summary)).head? := by
    rw [length, ← nthFromEnd, coverCandidates_fresh fresh]
    rfl
  unfold excludeMessagesBeforeSummary
  rw [found]
  simp only [first]
  exact Prod.ext (congrArg (· - n) length) rfl

/-- When a row can be covered. -/
lemma mem_rowsBefore : r ∈ rowsBefore s summary ↔ r ∈ s.table.rows ∧ coverable summary r = true := by
  simp [rowsBefore, orderByPos]

/-- What can be covered. -/
lemma coverable_iff : coverable summary r = true ↔ (r.kind = .chat ∨ r.kind = .note) ∧ r.pos < summary.pos := by
  simp [coverable, beforePos]

/-- The rows before come in order. -/
lemma rowsBefore_pairwise (s : ChatSession) (summary : Row) :
    (rowsBefore s summary).Pairwise fun a b => a.pos < b.pos :=
  sortOn_pairwise (nodup_map_filter (pos_nodup s.table.distinct))

/-- The rows that the summary stays before are told by their `seq`. -/
lemma moved_le (fresh : FreshSummary s summary) (mem : r ∈ s.table.rows) (before : r.pos < summary.pos) :
    (movedSummary s summary n).pos ≤ r.pos ↔
      ∃ first ∈ (lastN n (rowsBefore s summary)).head?, first.seq ≤ r.seq ∧ r.seq ≠ 0 := by
  have older := fresh.saved r mem before
  unfold movedSummary newSeq
  cases (lastN n (rowsBefore s summary)).head? with
  | none =>
    refine iff_of_false (not_le.mpr before) ?_
    rintro ⟨first, none, -⟩
    cases none
  | some first =>
    simp only [Option.elim_some, Option.mem_def, Option.some.injEq, exists_eq_left']
    rw [Row.pos_le]
    show seqBeforeRow s.table.rows first < r.seq ∨ seqBeforeRow s.table.rows first = r.seq ∧ summary.id ≤ r.id ↔ _
    constructor
    · intro le
      have lt : seqBeforeRow s.table.rows first < r.seq := by omega
      refine ⟨?_, by omega⟩
      by_contra below
      have up : r.seq ≤ seqBeforeRow s.table.rows first := le_seqBeforeRow mem (by omega)
      omega
    · rintro ⟨le, pos⟩
      left
      cases zero : first.seq with
      | zero =>
        rw [seqBeforeRow_zero zero]
        omega
      | succ k =>
        have below : seqBeforeRow s.table.rows first < first.seq := seqBeforeRow_lt (by omega)
        omega

/-! ## The window afterwards -/

variable {b : Row}

/-- The row under the compaction. -/
def coveredRow (s : ChatSession) (summary : Row) (n : Nat) : Row → Row := coverRow summary (newSeq s summary n)

/-- The rows after compaction. -/
lemma compacted_rows (fresh : FreshSummary s summary) :
    (compactedSession s summary n).table.rows = s.table.rows.map (coveredRow s summary n) := by
  rw [compactedSession, exclude_fresh fresh]
  rfl

/-- Covering keeps the id. -/
lemma coveredRow_id (r : Row) : (coveredRow s summary n r).id = r.id := coverRow_id _ _ r

/-- Rows are told by id. -/
lemma eq_of_id {a : Row} (hr : r ∈ s.table.rows) (ha : a ∈ s.table.rows) (e : r.id = a.id) : r = a :=
  List.inj_on_of_nodup_map s.table.distinct hr ha e

/-- The summary is moved. -/
lemma coveredRow_summary : coveredRow s summary n summary = movedSummary s summary n := if_pos rfl

/-- Another row stays where it is. -/
lemma coveredRow_other (ne : r.id ≠ summary.id) :
    (coveredRow s summary n r).pos = r.pos ∧ (coveredRow s summary n r).kind = r.kind := by
  unfold coveredRow coverRow
  rw [if_neg ne]
  split
  · exact ⟨rfl, rfl⟩
  · exact ⟨rfl, rfl⟩

/-- What is below the summary has no pin. -/
lemma coveredRow_pinned (ne : r.id ≠ summary.id) :
    (coveredRow s summary n r).pinned = true ∨ (movedSummary s summary n).pos ≤ r.pos ↔
      (movedSummary s summary n).pos ≤ r.pos ∨ r.pinned = true ∧ ¬ r.pos < (movedSummary s summary n).pos := by
  unfold coveredRow coverRow
  rw [if_neg ne]
  split
  next below =>
    have below : r.pinned = true ∧ r.pos < (movedSummary s summary n).pos := by
      simpa [beforePos, movedSummary] using below
    simp [below.2]
  next not =>
    have not : ¬ (r.pinned = true ∧ r.pos < (movedSummary s summary n).pos) := by
      simpa [beforePos, movedSummary] using not
    constructor
    · rintro (pin | le)
      · exact .inr ⟨pin, fun lt => not ⟨pin, lt⟩⟩
      · exact .inl le
    · rintro (le | pin)
      · exact .inr le
      · exact .inl pin.1

/-- The boundary is the same row. -/
lemma compacted_boundary (fresh : FreshSummary s summary) :
    revertBoundary (compactedSession s summary n) = (revertBoundary s).map (coveredRow s summary n) := by
  have revert : (compactedSession s summary n).revert = s.revert := by
    rw [compactedSession, exclude_fresh fresh]
  have found : ∀ id, (compactedSession s summary n).table.get? id = (s.table.get? id).map (coveredRow s summary n) := by
    intro id
    have same : (fun r : Row => decide (r.id = id)) ∘ coveredRow s summary n = fun r => decide (r.id = id) :=
      funext fun r => by rw [Function.comp_apply, coveredRow_id]
    rw [Table.get?, Table.get?, compacted_rows fresh, List.find?_map, same]
  unfold revertBoundary
  rw [revert]
  cases s.revert with
  | none => rfl
  | some v =>
    cases e : v.messageId with
    | none => simp [e]
    | some id => simp [e, found]

/-- The revert point is a row. -/
lemma mem_of_boundary (staged : revertBoundary s = some b) : b ∈ s.table.rows := by
  unfold revertBoundary at staged
  obtain ⟨v, -, staged⟩ := Option.bind_eq_some_iff.mp staged
  obtain ⟨id, -, staged⟩ := Option.bind_eq_some_iff.mp staged
  exact (Table.get?_eq_some.mp staged).1

/-- The summary does not move up. -/
lemma moved_le_self : (movedSummary s summary n).pos ≤ summary.pos := by
  unfold movedSummary newSeq
  cases e : (lastN n (rowsBefore s summary)).head? with
  | none => exact le_refl _
  | some first =>
    have here := List.mem_of_mem_head? e
    have before := (coverable_iff.mp (mem_rowsBefore.mp ((lastN_suffix _ _).subset here)).2).2
    rw [Row.pos_le]
    show seqBeforeRow s.table.rows first < summary.seq ∨
      seqBeforeRow s.table.rows first = summary.seq ∧ summary.id ≤ summary.id
    have le : first.seq ≤ summary.seq := by
      rcases Row.pos_lt.mp before with lt | eq
      · exact lt.le
      · exact eq.1.le
    have up : seqBeforeRow s.table.rows first ≤ first.seq := by
      cases zero : first.seq with
      | zero => rw [seqBeforeRow_zero zero]
      | succ k => exact zero ▸ (seqBeforeRow_lt (by omega)).le
    omega

/-- The moved summary is before the boundary when there is room for it. -/
lemma moved_before (fresh : FreshSummary s summary) :
    beforeBoundary (revertBoundary (compactedSession s summary n)) (movedSummary s summary n) = true ↔
      ∀ b, revertBoundary s = some b → summary.pos < b.pos ∨
        ∃ first ∈ (lastN n (rowsBefore s summary)).head?, b.pos < summary.pos ∧ first.seq ≤ b.seq ∧ b.seq ≠ 0 := by
  rw [compacted_boundary fresh]
  cases staged : revertBoundary s with
  | none => simp [beforeBoundary]
  | some b =>
    have mem := mem_of_boundary staged
    simp only [Option.map_some, beforeBoundary, Option.all_some, beforePos, decide_eq_true_eq, Option.some.injEq,
      forall_eq']
    by_cases same : b.id = summary.id
    · have e := eq_of_id mem fresh.mem same
      rw [e, coveredRow_summary]
      simp
    · rw [(coveredRow_other same).1]
      by_cases behind : summary.pos < b.pos
      · exact iff_of_true (lt_of_le_of_lt moved_le_self behind) (.inl behind)
      · have before : b.pos < summary.pos := by
          refine lt_of_le_of_ne (not_lt.mp behind) fun e => same (Row.id_of_pos e)
        have ne : (movedSummary s summary n).pos ≠ b.pos := fun e => same (Row.id_of_pos e).symm
        rw [lt_iff_le_and_ne, moved_le fresh mem before]
        simp [before, behind, ne]

/-- The summary is the active one at its new place. -/
lemma compacted_active (fresh : FreshSummary s summary)
    (before : beforeBoundary (revertBoundary (compactedSession s summary n)) (movedSummary s summary n) = true) :
    getActiveSummary (compactedSession s summary n).table.rows (revertBoundary (compactedSession s summary n)) =
      some (movedSummary s summary n) := by
  rw [getActiveSummary_eq_some (compactedSession s summary n).table.distinct]
  refine ⟨⟨?_, fresh.kind, before⟩, ?_⟩
  · rw [compacted_rows fresh, List.mem_map]
    exact ⟨summary, fresh.mem, coveredRow_summary⟩
  · intro x mem kind _
    rw [compacted_rows fresh] at mem
    obtain ⟨r, here, rfl⟩ := List.mem_map.mp mem
    rw [coveredRow_id]
    by_cases same : r.id = summary.id
    · exact same.le
    · rw [(coveredRow_other same).2] at kind
      exact fresh.newest r here kind

/-- When the summary is in the window. -/
lemma summary_in_window (fresh : FreshSummary s summary) :
    summary.id ∈ (derivedWindow (compactedSession s summary n)).map Row.id ↔
      beforeBoundary (revertBoundary (compactedSession s summary n)) (movedSummary s summary n) = true := by
  constructor
  · intro mem
    obtain ⟨x, mem, e⟩ := List.mem_map.mp mem
    obtain ⟨mem, inside⟩ := mem_llmWindowRows.mp mem
    rw [compacted_rows fresh] at mem
    obtain ⟨r, here, rfl⟩ := List.mem_map.mp mem
    rw [coveredRow_id] at e
    rw [eq_of_id here fresh.mem e, coveredRow_summary] at inside
    unfold inLlmWindow at inside
    exact (Bool.and_eq_true _ _ ▸ inside : _ ∧ _).2
  · intro before
    refine List.mem_map.mpr ⟨movedSummary s summary n, mem_llmWindowRows.mpr ⟨?_, ?_⟩, rfl⟩
    · rw [compacted_rows fresh, List.mem_map]
      exact ⟨summary, fresh.mem, coveredRow_summary⟩
    · rw [compacted_active fresh before]
      have kind : (movedSummary s summary n).kind = .summary := fresh.kind
      simp [inLlmWindow, before, atOrAfterPos, kind]

/-- The other rows are where they were to the boundary. -/
lemma before_same (fresh : FreshSummary s summary)
    (before : beforeBoundary (revertBoundary (compactedSession s summary n)) (movedSummary s summary n) = true)
    (ne : r.id ≠ summary.id) :
    beforeBoundary (revertBoundary (compactedSession s summary n)) (coveredRow s summary n r) =
      beforeBoundary (revertBoundary s) r := by
  rw [compacted_boundary fresh] at before ⊢
  cases staged : revertBoundary s with
  | none => rfl
  | some b =>
    rw [staged] at before
    have other : b.id ≠ summary.id := by
      intro same
      have e := eq_of_id (mem_of_boundary staged) fresh.mem same
      rw [e, Option.map_some, coveredRow_summary] at before
      simp [beforeBoundary, beforePos] at before
    simp only [Option.map_some, beforeBoundary, Option.all_some, beforePos]
    rw [(coveredRow_other other).1, (coveredRow_other ne).1]

/-- The row stands behind the summary and before the boundary. -/
def staysVisible (s : ChatSession) (summary : Row) (n : Nat) (r : Row) : Bool :=
  (movedSummary s summary n).pos ≤ r.pos && beforeBoundary (revertBoundary s) r

/-- A row of the window that is not the summary. -/
lemma inLlmWindow_other {k : Row} {boundary : Option Row} (ne : r.id ≠ k.id) :
    inLlmWindow (some k) boundary true r = true ↔
      (r.kind = .chat ∨ r.kind = .note) ∧ (r.pinned = true ∨ k.pos ≤ r.pos) ∧ beforeBoundary boundary r = true := by
  cases e : r.kind <;> simp [inLlmWindow, atOrAfterPos, ne, e]

/-- What the window has of the rows that stood before the summary. -/
lemma window_before (fresh : FreshSummary s summary)
    (before : beforeBoundary (revertBoundary (compactedSession s summary n)) (movedSummary s summary n) = true) :
    (derivedWindow (compactedSession s summary n)).filter (fun r => r.id ≠ summary.id && beforePos summary r) =
      ((rowsBefore s summary).filter (staysVisible s summary n)).map (coveredRow s summary n) := by
  have ne_of_before : ∀ {r : Row}, r ∈ s.table.rows → r.pos < summary.pos → r.id ≠ summary.id := by
    intro r mem lt e
    rw [eq_of_id mem fresh.mem e] at lt
    exact lt_irrefl _ lt
  apply ordered_ext (f := Row.pos)
  · exact (llmWindowRows_pairwise (compactedSession s summary n).table.distinct).filter _
  · rw [List.pairwise_map]
    refine List.Pairwise.imp_of_mem ?_ ((rowsBefore_pairwise s summary).filter _)
    intro a b ha hb lt
    obtain ⟨hra, ca⟩ := mem_rowsBefore.mp (List.mem_of_mem_filter ha)
    obtain ⟨hrb, cb⟩ := mem_rowsBefore.mp (List.mem_of_mem_filter hb)
    rw [(coveredRow_other (ne_of_before hra (coverable_iff.mp ca).2)).1,
      (coveredRow_other (ne_of_before hrb (coverable_iff.mp cb).2)).1]
    exact lt
  · intro x
    rw [List.mem_filter, List.mem_map, derivedWindow, mem_llmWindowRows, compacted_active fresh before,
      compacted_rows fresh, List.mem_map]
    simp only [List.mem_filter, mem_rowsBefore, Bool.and_eq_true, decide_eq_true_eq, beforePos, staysVisible]
    constructor
    · rintro ⟨⟨⟨r, mem, rfl⟩, inside⟩, ne, lt⟩
      rw [coveredRow_id] at ne
      rw [(coveredRow_other ne).1] at lt
      rw [inLlmWindow_other (by rw [coveredRow_id]; exact ne), (coveredRow_other ne).1, (coveredRow_other ne).2,
        coveredRow_pinned ne, before_same fresh before ne] at inside
      obtain ⟨kind, le, visible⟩ := inside
      refine ⟨r, ⟨⟨mem, coverable_iff.mpr ⟨kind, lt⟩⟩, ?_, visible⟩, rfl⟩
      exact le.elim id fun pin => not_lt.mp pin.2
    · rintro ⟨r, ⟨⟨mem, cover⟩, le, visible⟩, rfl⟩
      obtain ⟨kind, lt⟩ := coverable_iff.mp cover
      have ne := ne_of_before mem lt
      refine ⟨⟨⟨r, mem, rfl⟩, ?_⟩, ?_, ?_⟩
      · rw [inLlmWindow_other (by rw [coveredRow_id]; exact ne), (coveredRow_other ne).1, (coveredRow_other ne).2,
          coveredRow_pinned ne, before_same fresh before ne]
        exact ⟨kind, .inl le, visible⟩
      · rw [coveredRow_id]
        exact ne
      · rw [(coveredRow_other ne).1]
        exact lt

/-- The chat and note rows behind the summary and before the boundary. -/
def rowsBehind (s : ChatSession) (summary : Row) : List Row :=
  orderByPos (s.table.rows.filter fun r =>
    (r.kind = .chat || r.kind = .note) && beforePos r summary && beforeBoundary (revertBoundary s) r)

/-- When a row is behind the summary. -/
lemma mem_rowsBehind : r ∈ rowsBehind s summary ↔
    r ∈ s.table.rows ∧ (r.kind = .chat ∨ r.kind = .note) ∧ summary.pos < r.pos ∧
      beforeBoundary (revertBoundary s) r = true := by
  simp [rowsBehind, orderByPos, beforePos, and_assoc]

/-- The rows behind come in order. -/
lemma rowsBehind_pairwise (s : ChatSession) (summary : Row) :
    (rowsBehind s summary).Pairwise fun a b => a.pos < b.pos :=
  sortOn_pairwise (nodup_map_filter (pos_nodup s.table.distinct))

/-- Where a row behind the summary can be seen, the summary is the active one. -/
lemma active_of_behind (fresh : FreshSummary s summary) (behind : summary.pos < r.pos)
    (visible : beforeBoundary (revertBoundary s) r = true) :
    getActiveSummary s.table.rows (revertBoundary s) = some summary := by
  rw [getActiveSummary_eq_some s.table.distinct]
  refine ⟨⟨fresh.mem, fresh.kind, ?_⟩, fun x mem kind _ => fresh.newest x mem kind⟩
  cases staged : revertBoundary s with
  | none => rfl
  | some b =>
    rw [staged] at visible
    simp only [beforeBoundary, Option.all_some, beforePos, decide_eq_true_eq] at visible ⊢
    exact behind.trans visible

/-- What the window has behind the summary. -/
lemma window_behind (fresh : FreshSummary s summary) :
    (derivedWindow s).filter (fun r => beforePos r summary) = rowsBehind s summary := by
  apply ordered_ext (f := Row.pos)
  · exact (llmWindowRows_pairwise s.table.distinct).filter _
  · exact rowsBehind_pairwise s summary
  · intro r
    rw [List.mem_filter, derivedWindow, mem_llmWindowRows, mem_rowsBehind]
    simp only [beforePos, decide_eq_true_eq]
    constructor
    · rintro ⟨⟨mem, inside⟩, behind⟩
      have visible : beforeBoundary (revertBoundary s) r = true := by
        unfold inLlmWindow at inside
        exact (Bool.and_eq_true _ _ ▸ inside : _ ∧ _).2
      have ne : r.id ≠ summary.id := fun e => behind.ne' (congrArg Row.pos (eq_of_id mem fresh.mem e))
      rw [active_of_behind fresh behind visible, inLlmWindow_other ne] at inside
      exact ⟨mem, inside.1, behind, visible⟩
    · rintro ⟨mem, kind, behind, visible⟩
      have ne : r.id ≠ summary.id := fun e => behind.ne' (congrArg Row.pos (eq_of_id mem fresh.mem e))
      rw [active_of_behind fresh behind visible, inLlmWindow_other ne]
      exact ⟨⟨mem, kind, .inr behind.le, visible⟩, behind⟩

/-- The window has the same rows behind the summary's old place afterwards. -/
lemma compacted_behind (fresh : FreshSummary s summary)
    (before : beforeBoundary (revertBoundary (compactedSession s summary n)) (movedSummary s summary n) = true) :
    (derivedWindow (compactedSession s summary n)).filter (fun r => beforePos r summary) =
      (rowsBehind s summary).map (coveredRow s summary n) := by
  have ne_of_behind : ∀ {r : Row}, r ∈ s.table.rows → summary.pos < r.pos → r.id ≠ summary.id :=
    fun mem behind e => behind.ne' (congrArg Row.pos (eq_of_id mem fresh.mem e))
  apply ordered_ext (f := Row.pos)
  · exact (llmWindowRows_pairwise (compactedSession s summary n).table.distinct).filter _
  · rw [List.pairwise_map]
    refine List.Pairwise.imp_of_mem ?_ (rowsBehind_pairwise s summary)
    intro a b ha hb lt
    obtain ⟨hra, -, ca, -⟩ := mem_rowsBehind.mp ha
    obtain ⟨hrb, -, cb, -⟩ := mem_rowsBehind.mp hb
    rw [(coveredRow_other (ne_of_behind hra ca)).1, (coveredRow_other (ne_of_behind hrb cb)).1]
    exact lt
  · intro x
    rw [List.mem_filter, List.mem_map, derivedWindow, mem_llmWindowRows, compacted_active fresh before,
      compacted_rows fresh, List.mem_map]
    simp only [mem_rowsBehind, beforePos, decide_eq_true_eq]
    constructor
    · rintro ⟨⟨⟨r, mem, rfl⟩, inside⟩, behind⟩
      have ne : r.id ≠ summary.id := by
        intro e
        rw [eq_of_id mem fresh.mem e, coveredRow_summary] at behind
        exact absurd behind (not_lt.mpr moved_le_self)
      rw [(coveredRow_other ne).1] at behind
      rw [inLlmWindow_other (by rw [coveredRow_id]; exact ne), (coveredRow_other ne).2, before_same fresh before ne] at inside
      exact ⟨r, ⟨mem, inside.1, behind, inside.2.2⟩, rfl⟩
    · rintro ⟨r, ⟨mem, kind, behind, visible⟩, rfl⟩
      have ne := ne_of_behind mem behind
      rw [inLlmWindow_other (by rw [coveredRow_id]; exact ne), (coveredRow_other ne).1, (coveredRow_other ne).2,
        before_same fresh before ne]
      exact ⟨⟨⟨r, mem, rfl⟩, kind, .inr (moved_le_self.trans behind.le), visible⟩, behind⟩

/-! ## The last rows -/

/-- The rows that were in the window. -/
def wasInWindow (s : ChatSession) (summary r : Row) : Bool :=
  inLlmWindow (getActiveSummary (s.table.rows.filter fun r => r.id ≠ summary.id) (revertBoundary s)) (revertBoundary s)
    true r

/-- The rows that were in the window. -/
lemma windowRows_eq (fresh : FreshSummary s summary) :
    windowRows s summary = (rowsBefore s summary).filter (wasInWindow s summary) := by
  apply ordered_ext (f := Row.pos)
  · exact (llmWindowRows_pairwise (nodup_map_filter s.table.distinct)).filter _
  · exact (rowsBefore_pairwise s summary).filter _
  · intro r
    rw [windowRows, List.mem_filter, mem_llmWindowRows, List.mem_filter, List.mem_filter, mem_rowsBefore]
    constructor
    · rintro ⟨⟨⟨mem, -⟩, inside⟩, cover⟩
      exact ⟨⟨mem, cover⟩, inside⟩
    · rintro ⟨⟨mem, cover⟩, inside⟩
      refine ⟨⟨⟨mem, ?_⟩, inside⟩, cover⟩
      rw [decide_eq_true_eq]
      intro e
      have lt := (coverable_iff.mp cover).2
      rw [eq_of_id mem fresh.mem e] at lt
      exact lt_irrefl _ lt

/-- They come in order. -/
lemma windowRows_sublist (fresh : FreshSummary s summary) : (windowRows s summary).Sublist (rowsBefore s summary) := by
  rw [windowRows_eq fresh]
  exact List.filter_sublist

/-- A row of the window is before the boundary. -/
lemma visible_of_window (fresh : FreshSummary s summary) (mem : r ∈ windowRows s summary) :
    beforeBoundary (revertBoundary s) r = true := by
  rw [windowRows_eq fresh] at mem
  have inside := (List.mem_filter.mp mem).2
  unfold wasInWindow inLlmWindow at inside
  exact (Bool.and_eq_true _ _ ▸ inside : _ ∧ _).2

/-- Rows that stand from one of them on. -/
lemma mem_lastN_iff {l : List Row} {first : Row} (ord : l.Pairwise fun a b => a.pos < b.pos)
    (head : first ∈ (lastN n l).head?) (mem : r ∈ l) : r ∈ lastN n l ↔ first.pos ≤ r.pos := by
  obtain ⟨rest, e⟩ := List.head?_eq_some_iff.mp head
  have parts := take_append_lastN n l
  rw [e] at parts ⊢
  rw [← parts] at ord mem
  obtain ⟨-, back, across⟩ := List.pairwise_append.mp ord
  constructor
  · intro here
    cases List.mem_cons.mp here with
    | inl same => exact same ▸ le_refl _
    | inr later => exact ((List.pairwise_cons.mp back).1 r later).le
  · intro le
    cases List.mem_append.mp mem with
    | inl front => exact absurd (across r front first List.mem_cons_self) (not_lt.mpr le)
    | inr here => exact here

/-- The last rows are those that stay visible. -/
def Stays (s : ChatSession) (summary : Row) (n : Nat) : Prop :=
  (rowsBefore s summary).filter (staysVisible s summary n) = lastN n (windowRows s summary)

/-- Rows of the table with the same ids are the same. -/
lemma eq_of_ids {l l' : List Row} (h : ∀ r ∈ l, r ∈ s.table.rows) (h' : ∀ r ∈ l', r ∈ s.table.rows) :
    l.map Row.id = l'.map Row.id ↔ l = l' := by
  refine ⟨fun e => ?_, fun e => e ▸ rfl⟩
  induction l generalizing l' with
  | nil => exact (List.map_eq_nil_iff.mp e.symm).symm
  | cons r l ih =>
    cases l' with
    | nil => cases e
    | cons r' l' =>
      obtain ⟨id, rest⟩ := List.cons.inj e
      rw [eq_of_id (h r List.mem_cons_self) (h' r' List.mem_cons_self) id,
        ih (fun a mem => h a (List.mem_cons_of_mem _ mem)) (fun a mem => h' a (List.mem_cons_of_mem _ mem)) rest]

/-- They stand before the summary. -/
lemma mem_of_windowRows (fresh : FreshSummary s summary) (mem : r ∈ windowRows s summary) :
    r ∈ s.table.rows ∧ r.pos < summary.pos := by
  obtain ⟨here, cover⟩ := mem_rowsBefore.mp ((windowRows_sublist fresh).subset mem)
  exact ⟨here, (coverable_iff.mp cover).2⟩

/-- When just the last rows are kept. -/
lemma kept_iff (fresh : FreshSummary s summary)
    (before : beforeBoundary (revertBoundary (compactedSession s summary n)) (movedSummary s summary n) = true) :
    ((derivedWindow (compactedSession s summary n)).filter fun r => r.id ≠ summary.id && beforePos summary r).map
      Row.id = (lastN n (windowRows s summary)).map Row.id ↔ Stays s summary n := by
  rw [window_before fresh before, List.map_map]
  have ids : Row.id ∘ coveredRow s summary n = Row.id := funext fun r => coveredRow_id r
  rw [ids, Stays, eq_of_ids]
  · exact fun r mem => (mem_rowsBefore.mp (List.mem_of_mem_filter mem)).1
  · exact fun r mem => (mem_of_windowRows fresh ((lastN_suffix _ _).subset mem)).1

/-- The rows that leave the window are those before the last ones. -/
lemma length_left (fresh : FreshSummary s summary)
    (kept : ((derivedWindow (compactedSession s summary n)).filter fun r => r.id ≠ summary.id && beforePos summary r).map
      Row.id = (lastN n (windowRows s summary)).map Row.id) :
    ((windowRows s summary).filter fun r => r.id ∉ (derivedWindow (compactedSession s summary n)).map Row.id).length =
      (windowRows s summary).length - n := by
  have stays : ∀ r ∈ windowRows s summary,
      r.id ∈ (derivedWindow (compactedSession s summary n)).map Row.id ↔ r ∈ lastN n (windowRows s summary) := by
    intro r mem
    obtain ⟨here, lt⟩ := mem_of_windowRows fresh mem
    have ne : r.id ≠ summary.id := by
      intro e
      rw [eq_of_id here fresh.mem e] at lt
      exact lt_irrefl _ lt
    constructor
    · intro inside
      obtain ⟨x, hx, e⟩ := List.mem_map.mp inside
      have covered : x = coveredRow s summary n r := by
        have mem := (mem_llmWindowRows.mp hx).1
        rw [compacted_rows fresh] at mem
        obtain ⟨r', here', rfl⟩ := List.mem_map.mp mem
        rw [coveredRow_id] at e
        rw [eq_of_id here' here e]
      have among : r.id ∈ (lastN n (windowRows s summary)).map Row.id := by
        rw [← kept, List.mem_map]
        refine ⟨x, List.mem_filter.mpr ⟨hx, ?_⟩, e⟩
        rw [covered, coveredRow_id]
        simpa [beforePos, ne, (coveredRow_other (n := n) (s := s) ne).1] using lt
      obtain ⟨r', here', id⟩ := List.mem_map.mp among
      have same := eq_of_id (mem_of_windowRows fresh ((lastN_suffix _ _).subset here')).1 here id
      exact same ▸ here'
    · intro last
      have among := List.mem_map_of_mem (f := Row.id) last
      rw [← kept] at among
      obtain ⟨x, hx, e⟩ := List.mem_map.mp among
      exact List.mem_map.mpr ⟨x, List.mem_of_mem_filter hx, e⟩
  have nodup : (windowRows s summary).Nodup := by
    have ord := (rowsBefore_pairwise s summary).sublist (windowRows_sublist fresh)
    apply List.Pairwise.imp ?_ ord
    intro a b lt e
    rw [e] at lt
    exact lt_irrefl _ lt
  have left : ((windowRows s summary).filter fun r => r.id ∉ (derivedWindow (compactedSession s summary n)).map Row.id) =
      (windowRows s summary).filter fun r => r ∉ lastN n (windowRows s summary) := by
    apply List.filter_congr
    intro r mem
    simp only [stays r mem]
  rw [left, filter_notMem_lastN nodup, List.length_take]
  omega

/-- A row stays visible when its `seq` says so. -/
lemma staysVisible_iff (fresh : FreshSummary s summary) (mem : r ∈ rowsBefore s summary) :
    staysVisible s summary n r = true ↔
      (∃ first ∈ (lastN n (rowsBefore s summary)).head?, first.seq ≤ r.seq ∧ r.seq ≠ 0) ∧
        beforeBoundary (revertBoundary s) r = true := by
  obtain ⟨here, cover⟩ := mem_rowsBefore.mp mem
  rw [← moved_le fresh here (coverable_iff.mp cover).2]
  simp [staysVisible]

/-- The rows that stay visible are the last ones of the window, and as many leave as the call says, exactly when the
rows can be told apart. -/
lemma stays_iff (fresh : FreshSummary s summary) :
    Stays s summary n ∧ (rowsBefore s summary).length - n = (windowRows s summary).length - n ↔
      (windowRows s summary = rowsBefore s summary ∧ ∀ first ∈ (lastN n (rowsBefore s summary)).head?,
        first.seq ≠ 0 ∧ ∀ r ∈ rowsBefore s summary, r.pos < first.pos → r.seq ≠ first.seq) ∨
      ((rowsBefore s summary).length ≤ n ∧ ∀ r ∈ rowsBefore s summary,
        r ∈ windowRows s summary ↔ r.seq ≠ 0 ∧ beforeBoundary (revertBoundary s) r = true) := by
  have ord := rowsBefore_pairwise s summary
  have sub := windowRows_sublist fresh
  constructor
  · rintro ⟨stays, count⟩
    by_cases short : (rowsBefore s summary).length ≤ n
    · right
      refine ⟨short, fun r mem => ?_⟩
      have all : lastN n (windowRows s summary) = windowRows s summary :=
        lastN_eq_self (Nat.le_trans sub.length_le short)
      rw [Stays, all] at stays
      rw [← stays, List.mem_filter, staysVisible_iff fresh mem, lastN_eq_self short]
      obtain ⟨first, rest, e⟩ := List.exists_cons_of_ne_nil (List.ne_nil_of_mem mem)
      have le : first.seq ≤ r.seq := by
        rw [e] at mem ord
        cases List.mem_cons.mp mem with
        | inl same => exact same ▸ Nat.le_refl _
        | inr later =>
          rcases Row.pos_lt.mp ((List.pairwise_cons.mp ord).1 r later) with lt | eq
          · exact lt.le
          · exact eq.1.le
      have here : r = first ∨ r ∈ rest := List.mem_cons.mp (e ▸ mem)
      simp [e, le, here]
    · left
      have same : windowRows s summary = rowsBefore s summary := by
        apply sub.eq_of_length_le
        omega
      refine ⟨same, fun first head => ?_⟩
      rw [Stays, same] at stays
      have firstMem := List.mem_of_mem_head? head
      have firstHere := (lastN_suffix _ _).subset firstMem
      rw [← stays, List.mem_filter, staysVisible_iff fresh firstHere] at firstMem
      obtain ⟨-, ⟨_, -, -, pos⟩, -⟩ := firstMem
      refine ⟨pos, fun r mem lt tie => ?_⟩
      have visible := visible_of_window fresh (same ▸ mem)
      have kept : r ∈ lastN n (rowsBefore s summary) := by
        rw [← stays, List.mem_filter, staysVisible_iff fresh mem]
        exact ⟨mem, ⟨first, head, tie.ge, tie ▸ pos⟩, visible⟩
      exact absurd ((mem_lastN_iff ord head mem).mp kept) (not_le.mpr lt)
  · rintro (⟨same, apart⟩ | ⟨short, rows⟩)
    · refine ⟨?_, by rw [same]⟩
      rw [Stays, same]
      have lastOrd : (lastN n (rowsBefore s summary)).Pairwise fun a b => a.pos < b.pos :=
        ord.sublist (lastN_suffix _ _).sublist
      apply ordered_ext (f := Row.pos) (ord.filter _) lastOrd
      intro r
      rw [List.mem_filter]
      constructor
      · rintro ⟨mem, stays⟩
        obtain ⟨⟨first, head, le, -⟩, -⟩ := (staysVisible_iff fresh mem).mp stays
        rw [mem_lastN_iff ord head mem]
        by_contra lt
        have lt := not_le.mp lt
        apply (apart first head).2 r mem lt
        rcases Row.pos_lt.mp lt with less | eq
        · omega
        · exact eq.1
      · intro last
        have mem := (lastN_suffix _ _).subset last
        obtain ⟨first, head⟩ : ∃ first, first ∈ (lastN n (rowsBefore s summary)).head? := by
          cases e : lastN n (rowsBefore s summary) with
          | nil =>
            rw [e] at last
            cases last
          | cons first rest => exact ⟨first, rfl⟩
        refine ⟨mem, (staysVisible_iff fresh mem).mpr ⟨⟨first, head, ?_⟩, visible_of_window fresh (same ▸ mem)⟩⟩
        have pos := (apart first head).1
        rcases Row.pos_le.mp ((mem_lastN_iff ord head mem).mp last) with less | eq
        · exact ⟨less.le, by omega⟩
        · exact ⟨eq.1.le, by omega⟩
    · have all : lastN n (windowRows s summary) = windowRows s summary :=
        lastN_eq_self (Nat.le_trans sub.length_le short)
      have less := sub.length_le
      refine ⟨?_, by omega⟩
      rw [Stays, all]
      apply ordered_ext (f := Row.pos) (ord.filter _) (ord.sublist sub)
      intro r
      rw [List.mem_filter]
      constructor
      · rintro ⟨mem, stays⟩
        obtain ⟨⟨_, -, -, pos⟩, visible⟩ := (staysVisible_iff fresh mem).mp stays
        exact (rows r mem).mpr ⟨pos, visible⟩
      · intro inside
        have mem := sub.subset inside
        obtain ⟨pos, visible⟩ := (rows r mem).mp inside
        refine ⟨mem, (staysVisible_iff fresh mem).mpr ⟨?_, visible⟩⟩
        rw [lastN_eq_self short]
        obtain ⟨first, rest, e⟩ := List.exists_cons_of_ne_nil (List.ne_nil_of_mem mem)
        refine ⟨first, by rw [e]; rfl, ?_, pos⟩
        rw [e] at mem ord
        cases List.mem_cons.mp mem with
        | inl same => exact same ▸ Nat.le_refl _
        | inr later =>
          rcases Row.pos_lt.mp ((List.pairwise_cons.mp ord).1 r later) with lt | eq
          · exact lt.le
          · exact eq.1.le

/-- After a compaction the window keeps its last rows, exactly when the rows before the summary can be told apart: all
of them were in the window and no earlier one shares the `seq` of the first to be kept, or there is nothing to drop. -/
theorem keepsLast_iff (fresh : FreshSummary s summary) (n : Nat) :
    KeepsLast s summary n ↔ Separable s summary n := by
  have count : (excludeMessagesBeforeSummary s summary.id n).1 = (rowsBefore s summary).length - n := by
    rw [exclude_fresh fresh]
  constructor
  · intro keeps
    have before := (summary_in_window fresh).mp keeps.summarised
    have stays := (kept_iff fresh before).mp keeps.kept
    have left := keeps.count
    rw [count, length_left fresh keeps.kept] at left
    exact ⟨(moved_before fresh).mp before, (stays_iff fresh).mp ⟨stays, left⟩⟩
  · intro separable
    have before := (moved_before fresh).mpr separable.room
    obtain ⟨stays, left⟩ := (stays_iff fresh).mpr separable.rows
    have kept := (kept_iff fresh before).mpr stays
    refine ⟨(summary_in_window fresh).mpr before, kept, ?_, ?_⟩
    · have ids : Row.id ∘ coveredRow s summary n = Row.id := funext fun r => coveredRow_id r
      rw [window_behind fresh, compacted_behind fresh before, List.map_map, ids]
    · rw [count, length_left fresh kept]
      exact left

end

/-! ## Two sessions -/

/-- A row of a session. -/
def plainRow (id : Nat) (kind : MessageKind) : Row := { id, role := .user, seq := id * 1024, kind }

/-- Two questions and the summary that was just saved. -/
def firstCompaction : ChatSession where
  table :=
    { rows := [plainRow 1 .chat, plainRow 2 .chat, plainRow 3 .summary]
      clock := 4
      fresh := by decide
      distinct := by decide }
  revert := none

/-- Its summary is fresh. -/
lemma firstCompaction_fresh : FreshSummary firstCompaction (plainRow 3 .summary) where
  mem := by decide
  kind := rfl
  newest := by decide
  saved := by decide

/-- Its rows. -/
lemma firstCompaction_rows : rowsBefore firstCompaction (plainRow 3 .summary) = [plainRow 1 .chat, plainRow 2 .chat] ∧
    windowRows firstCompaction (plainRow 3 .summary) = [plainRow 1 .chat, plainRow 2 .chat] := by
  decide

/-- It keeps the last row. -/
theorem firstCompaction_keepsLast : KeepsLast firstCompaction (plainRow 3 .summary) 1 := by
  obtain ⟨rows, window⟩ := firstCompaction_rows
  refine (keepsLast_iff firstCompaction_fresh 1).mpr ⟨?_, .inl ⟨by rw [rows, window], ?_⟩⟩
  · intro b staged
    cases staged
  · rw [rows]
    intro first head
    cases head
    decide

/-- A question that an earlier summary covers, that summary, another question and the new summary. -/
def secondCompaction : ChatSession where
  table :=
    { rows := [plainRow 1 .chat, plainRow 2 .summary, plainRow 3 .chat, plainRow 4 .summary]
      clock := 5
      fresh := by decide
      distinct := by decide }
  revert := none

/-- Its summary is fresh. -/
lemma secondCompaction_fresh : FreshSummary secondCompaction (plainRow 4 .summary) where
  mem := by decide
  kind := rfl
  newest := by decide
  saved := by decide

/-- Its window. -/
lemma secondCompaction_window :
    ((derivedWindow (compactedSession secondCompaction (plainRow 4 .summary) 2)).filter fun r =>
      r.id ≠ (plainRow 4 .summary).id && beforePos (plainRow 4 .summary) r).map Row.id = [1, 3] ∧
    (lastN 2 (windowRows secondCompaction (plainRow 4 .summary))).map Row.id = [3] := by
  decide

/-- The row that was compacted before comes back. -/
theorem secondCompaction_resurrects : ¬ ∀ (s : ChatSession) (summary : Row) (n : Nat), FreshSummary s summary →
    KeepsLast s summary n := by
  intro all
  have kept := (all secondCompaction (plainRow 4 .summary) 2 secondCompaction_fresh).kept
  rw [secondCompaction_window.1, secondCompaction_window.2] at kept
  cases kept

end OpenAgentd.Transcript
