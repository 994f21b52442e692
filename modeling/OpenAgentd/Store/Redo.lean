import OpenAgentd.Store.Revert

/-!
# Redo against undo

A chain of undos walks down the list of undo targets, newest first, and a chain of redos walks back up
over the messages of the user. The two walks use different rows: a summary is a target of undo and not
of redo. `redo_inverts_undo` says for which sessions the walks agree: the summaries have to be so old
that only the last undo can reach one.

`undoTargets` is the walk of undo over a fixed set of rows and `boundaryAt` the boundary after a number
of undos. Undo goes one target further (`undoChain_boundary`) and redo goes to `nextUser`, so that
redo inverts undo iff the next message of the user is the previous target (`nextUser_iff`).
-/

namespace OpenAgentd.Store
open OpenAgentd.Lib

/-- A row at which undo stops: a message of the user in the window or a summary. -/
def undoStop (rows : List Row) (r : Row) : Bool :=
  realUser r && (r.kind = .chat || r.kind = .summary) &&
    (r.kind = .summary || (getActiveSummary rows none).all (fun a => atOrAfterPos a r))

/-- The stops of undo behind `t`. -/
def newerStops (rows : List Row) (t : Row) : List Row :=
  rows.filter (fun r => undoStop rows r && afterPos t r)

/-- The rows for which `k` redos invert `k` undos. -/
structure Redoable (rows : List Row) (k : Nat) : Prop where
  /-- At least `k - 1` stops are newer than any summary. -/
  shallow : ∀ r ∈ rows, realUser r = true → r.kind = .summary → k ≤ (newerStops rows r).length + 1
  /-- No message hidden by the active summary is newer than one of the `k` newest stops. -/
  visible : ∀ t ∈ rows, undoStop rows t = true → (newerStops rows t).length < k →
    ∀ r ∈ rows, realUser r = true → r.kind = .chat → t.pos < r.pos → undoStop rows r = true

/-- `n` calls of undo. -/
def undoChain (io : Nat → SnapshotCalls) (s : ChatSession) : Nat → ChatSession
  | 0 => s
  | n + 1 => (undoSessionMessages (io n) (undoChain io s n)).2

/-- `n` calls of redo. -/
def redoChain (io : Nat → SnapshotCalls) (s : ChatSession) : Nat → ChatSession
  | 0 => s
  | n + 1 => (redoSessionMessages (io n) (redoChain io s n)).2

/-- After `i` of `k` redos the session is as it was after `k - i` undos: the same boundary is staged
and the same window is derived. -/
def RedoInvertsUndo (io io' : Nat → SnapshotCalls) (s : ChatSession) (k : Nat) : Prop :=
  ∀ i ≤ k,
    revertBoundary (redoChain io' (undoChain io s k) i) = revertBoundary (undoChain io s (k - i)) ∧
    derivedWindow (redoChain io' (undoChain io s k) i) = derivedWindow (undoChain io s (k - i))

/-- The stops of undo, newest first. -/
def undoTargets (rows : List Row) : List Row := undoCandidates rows none

/-- The boundary after `n` undos. -/
def boundaryAt (rows : List Row) : Nat → Option Row
  | 0 => none
  | n + 1 => (undoTargets rows)[n]?

section
variable {rows : List Row} {io io' : Nat → SnapshotCalls} {s : ChatSession} {r t : Row} {k m n : Nat}

/-- The walk visits the stops. -/
lemma mem_undoTargets : t ∈ undoTargets rows ↔ t ∈ rows ∧ undoStop rows t = true := by
  simp only [undoTargets, mem_undoCandidates, undoStop, Bool.and_eq_true, Bool.or_eq_true,
    decide_eq_true_eq, and_assoc]

/-- The walk visits them newest first. -/
lemma undoTargets_pairwise (nd : (rows.map Row.id).Nodup) :
    (undoTargets rows).Pairwise (fun a b => b.pos < a.pos) :=
  undoCandidates_pairwise nd

/-- Before the target with number `m` the walk visits `m` stops. -/
lemma length_newerStops (nd : (rows.map Row.id).Nodup) (e : (undoTargets rows)[m]? = some t) :
    (newerStops rows t).length = m := by
  have perm : (undoTargets rows).Perm (rows.filter (undoStop rows)) := by
    have h : undoTargets rows = (orderByPos (rows.filter (undoStop rows))).reverse := by
      simp only [undoTargets, undoCandidates, orderByPosDesc, beforeBoundary, Option.all_none,
        Bool.and_true]
      rfl
    rw [h]
    exact (List.reverse_perm _).trans sortOn_perm
  have lt : m < (undoTargets rows).length := (List.getElem?_eq_some_iff.mp e).1
  have take := filter_gt_eq_take (undoTargets_pairwise nd) e
  have len := (perm.filter (fun r => t.pos < r.pos)).length_eq
  rw [take, List.length_take_of_le lt.le, List.filter_filter] at len
  rw [len]
  simp only [newerStops, afterPos]
  congr 1
  apply List.filter_congr
  intro r _
  exact Bool.and_comm _ _

/-- A target has a number. -/
lemma getElem?_of_undoStop (ht : t ∈ rows) (st : undoStop rows t = true) :
    ∃ m : Nat, (undoTargets rows)[m]? = some t :=
  List.getElem?_of_mem (mem_undoTargets.mpr ⟨ht, st⟩)

/-- The targets in front of target `m` are at least as new as target `m - 1`. -/
lemma pos_le_of_newer (nd : (rows.map Row.id).Nodup) {t' : Row}
    (e : (undoTargets rows)[m + 1]? = some t) (e' : (undoTargets rows)[m]? = some t')
    (hr : r ∈ undoTargets rows) (lt : t.pos < r.pos) : t'.pos ≤ r.pos := by
  by_contra h
  have hdrop : r ∈ (undoTargets rows).drop (m + 1) := by
    rw [← filter_lt_eq_drop (undoTargets_pairwise nd) e']
    exact List.mem_filter.mpr ⟨hr, by simpa using h⟩
  have htake : r ∈ (undoTargets rows).take (m + 1) := by
    rw [← filter_gt_eq_take (undoTargets_pairwise nd) e]
    exact List.mem_filter.mpr ⟨hr, by simpa using lt⟩
  have nd' : (undoTargets rows).Nodup :=
    (undoTargets_pairwise nd).imp (fun h e => absurd h (by rw [e]; exact lt_irrefl _))
  exact List.disjoint_take_drop nd' le_rfl htake hdrop

/-- Nothing is newer than the first target. -/
lemma not_newer_of_first (nd : (rows.map Row.id).Nodup) (e : (undoTargets rows)[0]? = some t)
    (hr : r ∈ undoTargets rows) : ¬ t.pos < r.pos := by
  intro lt
  have h : r ∈ (undoTargets rows).take 0 := by
    rw [← filter_gt_eq_take (undoTargets_pairwise nd) e]
    exact List.mem_filter.mpr ⟨hr, by simpa using lt⟩
  simp at h

/-- Without a message of the user behind the boundary redo removes the boundary. -/
lemma nextUser_eq_none {b : Row} :
    nextUser rows b = none ↔ ∀ r ∈ rows, realUser r = true → r.kind = .chat → ¬ b.pos < r.pos := by
  rw [nextUser, List.head?_eq_none_iff, List.eq_nil_iff_forall_not_mem]
  simp [orderByPos, afterPos]

/-- Redo from every of the first `k` targets goes to the previous one iff the rows are redoable. -/
lemma nextUser_iff (nd : (rows.map Row.id).Nodup) (le : k ≤ (undoTargets rows).length) :
    (∀ m t, m < k → (undoTargets rows)[m]? = some t → nextUser rows t = boundaryAt rows m) ↔
      Redoable rows k := by
  constructor
  · intro next
    refine ⟨?_, ?_⟩
    · intro r hr ru rk
      obtain ⟨m, e⟩ := getElem?_of_undoStop hr (by simp [undoStop, ru, rk])
      rw [length_newerStops nd e]
      by_contra h
      have lt : m + 1 < (undoTargets rows).length := by omega
      have e' := List.getElem?_eq_getElem lt
      have h' := next (m + 1) _ (by omega) e'
      rw [boundaryAt, e, nextUser_eq_some nd] at h'
      rw [h'.1.2.2.1] at rk
      cases rk
    · intro t ht st len r hr ru rk lt
      obtain ⟨m, e⟩ := getElem?_of_undoStop ht st
      rw [length_newerStops nd e] at len
      -- upwards along the targets: redo from target `m` skips no message of the user
      suffices h : r ∈ undoTargets rows from (mem_undoTargets.mp h).2
      clear ht st
      induction m generalizing t with
      | zero =>
        have h := next 0 t len e
        rw [boundaryAt, nextUser_eq_none] at h
        exact absurd lt (h r hr ru rk)
      | succ m ih =>
        have hm : m < (undoTargets rows).length := by omega
        have e' := List.getElem?_eq_getElem hm
        have h := next (m + 1) t len e
        rw [boundaryAt, e', nextUser_eq_some nd] at h
        rcases (h.2 r hr ru rk lt).lt_or_eq with h' | h'
        · exact ih _ h' (by omega) e'
        · have hmem := List.getElem_mem hm
          rw [← List.inj_on_of_nodup_map nd (mem_undoTargets.mp hmem).1 hr (Row.id_of_pos h')]
          exact hmem
  · intro ok m t hm e
    have mem := mem_undoTargets.mp (List.mem_of_getElem? e)
    have vis := ok.visible t mem.1 mem.2 (by rw [length_newerStops nd e]; exact hm)
    cases m with
    | zero =>
      rw [boundaryAt, nextUser_eq_none]
      intro r hr ru rk lt
      exact not_newer_of_first nd e (mem_undoTargets.mpr ⟨hr, vis r hr ru rk lt⟩) lt
    | succ m =>
      have lt : m < (undoTargets rows).length := by omega
      have e' := List.getElem?_eq_getElem lt
      have mem' := mem_undoTargets.mp (List.getElem_mem lt)
      have st := mem'.2
      simp only [undoStop, Bool.and_eq_true, Bool.or_eq_true, decide_eq_true_eq] at st
      rw [boundaryAt, e', nextUser_eq_some nd]
      refine ⟨⟨mem'.1, st.1.1, ?_, ?_⟩, ?_⟩
      · rcases st.1.2 with h | h
        · exact h
        · have := ok.shallow _ mem'.1 st.1.1 h
          rw [length_newerStops nd e'] at this
          omega
      · have h : (undoTargets rows)[m] ∈ (undoTargets rows).take (m + 1) :=
          List.mem_take_iff_getElem.mpr ⟨m, by omega, rfl⟩
        rw [← filter_gt_eq_take (undoTargets_pairwise nd) e] at h
        simpa using (List.mem_filter.mp h).2
      · intro r hr ru rk h
        exact pos_le_of_newer nd e e' (mem_undoTargets.mpr ⟨hr, vis r hr ru rk h⟩) h

/-- Undo leaves the rows alone. -/
@[simp] lemma undoSessionMessages_table {io : SnapshotCalls} :
    (undoSessionMessages io s).2.table = s.table := by
  unfold undoSessionMessages
  split <;> rfl

/-- Redo leaves the rows alone. -/
@[simp] lemma redoSessionMessages_table {io : SnapshotCalls} :
    (redoSessionMessages io s).2.table = s.table := by
  unfold redoSessionMessages
  split
  · rfl
  · split <;> rfl

/-- Undo keeps the rows. -/
@[simp] lemma undoChain_table : (undoChain io s n).table = s.table := by
  induction n with
  | zero => rfl
  | succ n ih => rw [undoChain, undoSessionMessages_table, ih]

/-- Redo keeps the rows. -/
@[simp] lemma redoChain_table : (redoChain io s n).table = s.table := by
  induction n with
  | zero => rfl
  | succ n ih => rw [redoChain, redoSessionMessages_table, ih]

/-- An undo that is applied stages its target. -/
lemma undo_boundary {io : SnapshotCalls} (ok : (undoSessionMessages io s).1.applied = true) :
    revertBoundary (undoSessionMessages io s).2 = undoTarget s.table.rows (revertBoundary s) ∧
      (undoTarget s.table.rows (revertBoundary s)).isSome = true := by
  cases e : undoTarget s.table.rows (revertBoundary s) with
  | none => simp [undoSessionMessages, e] at ok
  | some t =>
    refine ⟨?_, rfl⟩
    have mem : t ∈ s.table.rows := by
      rw [undoTarget_eq_head?] at e
      have h := List.mem_of_head? e
      simp only [undoCandidates, orderByPosDesc, orderByPos, List.mem_reverse, mem_sortOn,
        List.mem_filter] at h
      exact h.1
    simp only [undoSessionMessages, e]
    exact revertBoundary_of_mem (s := { s with revert := _ }) mem rfl

/-- A redo from a staged boundary stages the next message of the user. -/
lemma redo_boundary {io : SnapshotCalls} {b : Row} (e : revertBoundary s = some b) :
    revertBoundary (redoSessionMessages io s).2 = nextUser s.table.rows b := by
  cases e' : nextUser s.table.rows b with
  | none =>
    simp only [redoSessionMessages, e, e']
    rfl
  | some t =>
    have mem : t ∈ s.table.rows := ((nextUser_eq_some s.table.distinct).mp e').1.1
    simp only [redoSessionMessages, e, e']
    exact revertBoundary_of_mem (s := { s with revert := _ }) mem rfl

/-- The boundary after `n` undos that are applied, and that there are as many targets. -/
lemma undoChain_boundary (start : revertBoundary s = none)
    (ok : ∀ i < n, (undoSessionMessages (io i) (undoChain io s i)).1.applied = true) :
    revertBoundary (undoChain io s n) = boundaryAt s.table.rows n ∧
      n ≤ (undoTargets s.table.rows).length := by
  induction n with
  | zero => exact ⟨start, Nat.zero_le _⟩
  | succ n ih =>
    obtain ⟨ihb, ihl⟩ := ih (fun i h => ok i (by omega))
    obtain ⟨hb, hsome⟩ := undo_boundary (ok n (by omega))
    have nd := s.table.distinct
    have tgt : undoTarget s.table.rows (boundaryAt s.table.rows n) =
        (undoTargets s.table.rows)[n]? := by
      cases n with
      | zero => rw [undoTarget_eq_head?, List.head?_eq_getElem?]; rfl
      | succ n =>
        have e := List.getElem?_eq_getElem (l := undoTargets s.table.rows) ihl
        rw [undoTarget_eq_head?, boundaryAt, e, undoCandidates_boundary nd]
        rw [show (undoCandidates s.table.rows none).filter (beforePos _) = _ from
          filter_lt_eq_drop (undoTargets_pairwise nd) e]
        simp [List.head?_drop]
    rw [undoChain_table, ihb, tgt] at hb hsome
    refine ⟨hb, ?_⟩
    exact (List.getElem?_eq_some_iff.mp (Option.isSome_iff_exists.mp hsome).choose_spec).1

/-- The window is a function of the rows and the staged boundary. -/
lemma derivedWindow_congr {s' : ChatSession} (tb : s.table = s'.table)
    (b : revertBoundary s = revertBoundary s') : derivedWindow s = derivedWindow s' := by
  simp only [derivedWindow, tb, b]

end

/-- Redo inverts undo exactly on the redoable rows: from a session with no boundary staged and `k`
undos that are applied, every redo steps back to the boundary that was staged before the corresponding
undo, with the same window. -/
theorem redo_inverts_undo {s : ChatSession} {k : Nat} (io io' : Nat → SnapshotCalls)
    (start : revertBoundary s = none)
    (ok : ∀ n < k, (undoSessionMessages (io n) (undoChain io s n)).1.applied = true) :
    RedoInvertsUndo io io' s k ↔ Redoable s.table.rows k := by
  have bound : ∀ n ≤ k, revertBoundary (undoChain io s n) = boundaryAt s.table.rows n :=
    fun n h => (undoChain_boundary start (fun i hi => ok i (by omega))).1
  have len : k ≤ (undoTargets s.table.rows).length := (undoChain_boundary start ok).2
  rw [← nextUser_iff s.table.distinct len]
  constructor
  · intro inv m t hm e
    have h := (inv (k - m - 1) (by omega)).1
    rw [show k - (k - m - 1) = m + 1 from by omega, bound _ (by omega), boundaryAt, e] at h
    have h' := (inv (k - m - 1 + 1) (by omega)).1
    rw [show k - (k - m - 1 + 1) = m from by omega, bound _ (by omega), redoChain,
      redo_boundary h] at h'
    simpa using h'
  · intro next i hi
    suffices h : revertBoundary (redoChain io' (undoChain io s k) i) =
        revertBoundary (undoChain io s (k - i)) from
      ⟨h, derivedWindow_congr (by simp) h⟩
    induction i with
    | zero => rfl
    | succ i ih =>
      have h := ih (by omega)
      rw [show k - i = k - (i + 1) + 1 from by omega, bound _ (by omega), boundaryAt,
        List.getElem?_eq_getElem (by omega)] at h
      rw [redoChain, redo_boundary h, bound _ (by omega)]
      simpa using next _ _ (by omega) (List.getElem?_eq_getElem (by omega))

/-- A workspace without snapshots. -/
def noSnapshots : SnapshotCalls where
  track := none
  restore := fun _ => {}

/-- A row the user wrote. -/
def userRow (id seq : Nat) : Row := { id, role := .user, content := some "go on", seq }

/-- A summary row. -/
def summaryRow (id seq : Nat) : Row := { id, role := .user, content := some "so far", seq, kind := .summary }

/-- A session compacted once, before its last two messages. -/
def compactedOnce : ChatSession where
  table :=
    { rows := [userRow 1 1024, userRow 2 2048, userRow 3 3072, summaryRow 4 1536]
      clock := 5
      fresh := by decide
      distinct := by decide }
  revert := none

/-- Three undos down to the summary and three redos back. -/
theorem redo_inverts_undo_compactedOnce :
    RedoInvertsUndo (fun _ => noSnapshots) (fun _ => noSnapshots) compactedOnce 3 :=
  (redo_inverts_undo _ _ (by decide) (by decide)).mpr
    ⟨by decide, by
      intro t ht st len r hr
      revert r t
      decide⟩

/-- A session compacted twice, with one message of the user between the summaries. -/
def compactedTwice : ChatSession where
  table :=
    { rows := [userRow 1 1024, summaryRow 2 2048, userRow 3 3072, summaryRow 4 4096, userRow 5 5120]
      clock := 6
      fresh := by decide
      distinct := by decide }
  revert := none

/-- Three undos stage the last message, the second summary and the first summary; the first redo does
not go back to the second summary. -/
theorem redo_skips_summary :
    revertBoundary compactedTwice = none ∧
    (∀ n < 3, (undoSessionMessages noSnapshots
      (undoChain (fun _ => noSnapshots) compactedTwice n)).1.applied = true) ∧
    ¬ RedoInvertsUndo (fun _ => noSnapshots) (fun _ => noSnapshots) compactedTwice 3 := by
  refine ⟨by decide, by decide, ?_⟩
  intro inv
  have h := (inv 1 (by decide)).1
  revert h
  decide

end OpenAgentd.Store
