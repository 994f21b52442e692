import OpenAgentd.Store.Row

/-!
# The derived window

Context membership is derived (`app/services/chat_service_revert.py`): the active summary is the
newest created summary row, restricted to the rows before a staged undo boundary, and the window is
made of the pinned rows, the rows at or after the active summary and the active summary itself.
Reverted rows and other summaries are never in it.

The queries are read through two lemmas: `getActiveSummary_eq_some` (the active summary is the summary
row with the greatest id) and `mem_llmWindowRows`.
-/

namespace OpenAgentd.Store
open OpenAgentd.Lib

/-- `before_pos`. -/
def beforePos (row r : Row) : Bool := r.pos < row.pos

/-- `at_or_after_pos`. -/
def atOrAfterPos (row r : Row) : Bool := row.pos ≤ r.pos

/-- `after_pos`. -/
def afterPos (row r : Row) : Bool := row.pos < r.pos

/-- The restriction of a query to the rows before a boundary. -/
def beforeBoundary (boundary : Option Row) (r : Row) : Bool :=
  boundary.all (fun b => beforePos b r)

/-- `get_active_summary`. -/
def getActiveSummary (rows : List Row) (boundary : Option Row) : Option Row :=
  (sortOn Row.id
    (rows.filter (fun r => r.kind = .summary && beforeBoundary boundary r))).getLast?

/-- The row filters of `_apply_llm_window`. -/
def inLlmWindow (summary boundary : Option Row) (excludeQueued : Bool) (r : Row) : Bool :=
  r.kind ≠ .reverted &&
  (!excludeQueued || r.kind ≠ .queued) &&
  (match summary with
    | some s => (r.pinned || atOrAfterPos s r) && (r.kind ≠ .summary || r.id = s.id)
    | none => r.kind ≠ .summary) &&
  beforeBoundary boundary r

/-- `_apply_llm_window`. -/
def applyLlmWindow (rows : List Row) (summary boundary : Option Row) (excludeQueued : Bool) :
    List Row :=
  orderByPos (rows.filter (inLlmWindow summary boundary excludeQueued))

/-- `_llm_window_rows`: the window under the given boundary. -/
def llmWindowRows (rows : List Row) (boundary : Option Row) (excludeQueued : Bool) : List Row :=
  applyLlmWindow rows (getActiveSummary rows boundary) boundary excludeQueued

section
variable {rows : List Row} {boundary : Option Row} {q : Bool} {r s : Row}

/-- The active summary is the summary before the boundary with the greatest id. -/
lemma getActiveSummary_eq_some (nd : (rows.map Row.id).Nodup) :
    getActiveSummary rows boundary = some s ↔
      (s ∈ rows ∧ s.kind = .summary ∧ beforeBoundary boundary s = true) ∧
        ∀ r ∈ rows, r.kind = .summary → beforeBoundary boundary r = true → r.id ≤ s.id := by
  rw [getActiveSummary, sortOn_getLast?_eq_some (nodup_map_filter nd)]
  simp only [List.mem_filter, Bool.and_eq_true, decide_eq_true_eq, and_imp]

/-- The window holds the rows its filters select. -/
lemma mem_llmWindowRows :
    r ∈ llmWindowRows rows boundary q ↔
      r ∈ rows ∧ inLlmWindow (getActiveSummary rows boundary) boundary q r = true := by
  simp [llmWindowRows, applyLlmWindow, orderByPos]

/-- The window is in position order. -/
lemma llmWindowRows_pairwise (nd : (rows.map Row.id).Nodup) :
    (llmWindowRows rows boundary q).Pairwise (fun a b => a.pos < b.pos) :=
  sortOn_pairwise (nodup_map_filter (pos_nodup nd))

/-- A list in position order with the members of the window is the window. -/
lemma llmWindowRows_ext {l : List Row} (nd : (rows.map Row.id).Nodup)
    (ord : l.Pairwise (fun a b => a.pos < b.pos))
    (mem : ∀ r, r ∈ l ↔
      r ∈ rows ∧ inLlmWindow (getActiveSummary rows boundary) boundary q r = true) :
    llmWindowRows rows boundary q = l :=
  ordered_ext (llmWindowRows_pairwise nd) ord (fun r => mem_llmWindowRows.trans (mem r).symm)

/-- The rows of the window without queued ones. -/
lemma window_kind {b : Option Row} (h : inLlmWindow b none true r = true) :
    r.kind ≠ .reverted ∧ r.kind ≠ .queued ∧ (r.kind ≠ .summary ∨ ∃ k, b = some k ∧ r.id = k.id) := by
  simp only [inLlmWindow, Bool.and_eq_true, Bool.not_true, Bool.false_or, decide_eq_true_eq] at h
  obtain ⟨⟨⟨rev, que⟩, sum⟩, -⟩ := h
  refine ⟨rev, que, ?_⟩
  cases b with
  | none => exact .inl (by simpa using sum)
  | some k =>
    simp only [Bool.and_eq_true, Bool.or_eq_true, decide_eq_true_eq] at sum
    exact sum.2.imp id fun e => ⟨k, rfl, e⟩

/-- A row that is no summary and in the window is a chat or note row. -/
lemma kind_of_window {b : Option Row} (h : inLlmWindow b none true r = true) (ns : r.kind ≠ .summary) :
    r.kind = .chat ∨ r.kind = .note := by
  obtain ⟨rev, que, -⟩ := window_kind h
  cases e : r.kind with
  | chat => exact .inl rfl
  | note => exact .inr rfl
  | queued => exact absurd e que
  | summary => exact absurd e ns
  | reverted => exact absurd e rev

/-- A chat or note row is in the window when it is pinned or not before the summary. -/
lemma inLlmWindow_iff {b : Option Row} (kind : r.kind = .chat ∨ r.kind = .note) :
    inLlmWindow b none true r = true ↔ ∀ k, b = some k → r.pinned = true ∨ k.pos ≤ r.pos := by
  have notSummary : r.kind ≠ .summary ∧ r.kind ≠ .queued ∧ r.kind ≠ .reverted := by
    cases kind with
    | inl e => simp [e]
    | inr e => simp [e]
  cases b with
  | none => simp [inLlmWindow, beforeBoundary, notSummary]
  | some k => simp [inLlmWindow, beforeBoundary, atOrAfterPos, notSummary]

/-- A pinned chat or note row is in the window. -/
lemma inLlmWindow_pinned {b : Option Row} (kind : r.kind = .chat ∨ r.kind = .note)
    (pin : r.pinned = true) : inLlmWindow b none true r = true :=
  (inLlmWindow_iff kind).mpr fun _ _ => .inl pin

end

end OpenAgentd.Store
