import OpenAgentd.Migration.Legacy

/-!
# The rows behind the migration

The migration makes a function of the legacy columns of the whole table (`final`): a row keeps its place in the legacy
order, except that an excluded row before whose creation the active summary is positioned ties with that summary
(`moved`); an excluded row that no summary covers is reverted (`residual`); a row that was kept through a compaction is
pinned (`retained`).

What an interrupted run leaves is one of two things (`Midway`). As long as both legacy flags are there, a kind or a pin
that the next run does not write again is already the final one (`Filling`); and a flag is only dropped when every row
is final (`Done`). The statements are taken in their order, each from what the one before it leaves.
-/

namespace OpenAgentd.Migration
open OpenAgentd.Lib OpenAgentd.Store

/-! ## The rows as a function of the legacy columns -/

section
variable (rows : List LegacyRow) (b : LegacyRow)

/-- The newest summary of a session. -/
def newest (sessionId : Nat) : Option LegacyRow :=
  (sortOn LegacyRow.id (rows.filter fun s => s.sessionId = sessionId && s.kind = .summary)).getLast?

/-- The place in the legacy order. -/
def position : Nat := rowNumber rows b * 1024

/-- The summary is newer and stands before the excluded row. -/
def moved : Bool :=
  isTalk b.kind && b.excludeFromContext && (newest rows b.sessionId).any fun s => b.id < s.id && s.pos < b.pos

/-- No summary covers the excluded row. -/
def residual : Bool :=
  isTalk b.kind && b.excludeFromContext && (newest rows b.sessionId).all fun s => s.id ≤ b.id && s.pos < b.pos

/-- The row before the summary was not excluded. -/
def retained : Bool :=
  isTalk b.kind && !b.excludeFromContext && (newest rows b.sessionId).any fun s => b.pos < s.pos

/-- The final position. -/
def finalSeq : Nat := position rows (if moved rows b then (newest rows b.sessionId).getD b else b)

/-- The final kind. -/
def finalKind : MessageKind := if residual rows b then .reverted else b.kind

/-- The final row. -/
def final : Message where
  old := b
  seq := finalSeq rows b
  kind := finalKind rows b
  pinned := retained rows b

end

section
variable {rows : List LegacyRow} {b c s : LegacyRow} {sessionId : Nat}

/-- Rows are told by their place. -/
lemma LegacyRow.id_of_pos (e : b.pos = c.pos) : b.id = c.id := by
  have h : (b.createdAt, b.id) = (c.createdAt, c.id) := toLex_inj.mp e
  exact (Prod.mk.inj h).2

/-- The newest summary is a summary of the session. -/
lemma mem_newest (h : newest rows sessionId = some s) :
    s ∈ rows ∧ s.sessionId = sessionId ∧ s.kind = .summary := by
  have mem := mem_sortOn.mp (List.mem_of_getLast? h)
  obtain ⟨mem, p⟩ := List.mem_filter.mp mem
  rw [Bool.and_eq_true, decide_eq_true_eq, decide_eq_true_eq] at p
  exact ⟨mem, p⟩

/-- A row that is no summary, and without flags in `extra`, is a chat row. -/
lemma LegacyRow.kind_plain (sum : b.isSummary = false) (none : b.extra = none) : b.kind = .chat := by
  simp [LegacyRow.kind, LegacyRow.queued, LegacyRow.hidden, sum, none]

/-- A summary is neither moved nor reverted nor pinned. -/
lemma final_summary (k : isTalk b.kind = false) :
    moved rows b = false ∧ residual rows b = false ∧ retained rows b = false := by
  simp [moved, residual, retained, k]

/-- A moved row is not residual. -/
lemma not_residual (h : moved rows b = true) : residual rows b = false := by
  cases e : newest rows b.sessionId with
  | none => simp [moved, e] at h
  | some s =>
    simp only [moved, e, Option.any_some, Bool.and_eq_true, decide_eq_true_eq] at h
    have : ¬ s.id ≤ b.id := Nat.not_le_of_gt h.2.1
    simp [residual, e, this]

/-- Rows of one session are numbered in the legacy order. -/
lemma position_mono (hc : c ∈ rows) (sess : b.sessionId = c.sessionId) (lt : b.pos < c.pos) :
    position rows b < position rows c := by
  have sub : (rows.filter fun k => k.sessionId = b.sessionId && k.pos ≤ b.pos).Sublist
      (rows.filter fun k => k.sessionId = c.sessionId && k.pos ≤ c.pos) := by
    refine List.monotone_filter_right rows fun k hk => ?_
    rw [Bool.and_eq_true, decide_eq_true_eq, decide_eq_true_eq] at hk ⊢
    exact ⟨hk.1.trans sess, hk.2.trans lt.le⟩
  have ne : rowNumber rows b ≠ rowNumber rows c := by
    intro e
    have mem : c ∈ rows.filter fun k => k.sessionId = c.sessionId && k.pos ≤ c.pos := by
      simp [hc]
    rw [← sub.eq_of_length e] at mem
    have le := (List.mem_filter.mp mem).2
    rw [Bool.and_eq_true, decide_eq_true_eq, decide_eq_true_eq] at le
    exact absurd le.2 lt.not_ge
  have le : rowNumber rows b ≤ rowNumber rows c := sub.length_le
  unfold position
  omega

/-- The position decides as the legacy order does. -/
lemma position_lt (nd : (rows.map LegacyRow.id).Nodup) (hb : b ∈ rows) (hc : c ∈ rows)
    (sess : b.sessionId = c.sessionId) : position rows b < position rows c ↔ b.pos < c.pos := by
  refine ⟨fun h => ?_, position_mono hc sess⟩
  rcases lt_trichotomy b.pos c.pos with lt | eq | gt
  · exact lt
  · rw [List.inj_on_of_nodup_map nd hb hc (LegacyRow.id_of_pos eq)] at h
    exact absurd h (lt_irrefl _)
  · exact absurd (position_mono hb sess.symm gt) h.not_gt

/-- The same with the id behind the position. -/
lemma position_id_lt (nd : (rows.map LegacyRow.id).Nodup) (hb : b ∈ rows) (hc : c ∈ rows)
    (sess : b.sessionId = c.sessionId) :
    toLex (position rows b, b.id) < toLex (position rows c, c.id) ↔ b.pos < c.pos := by
  rw [Prod.Lex.toLex_lt_toLex, position_lt nd hb hc sess]
  refine ⟨fun h => ?_, .inl⟩
  cases h with
  | inl lt => exact lt
  | inr h =>
    rcases lt_trichotomy b.pos c.pos with lt | eq | gt
    · exact lt
    · exact absurd (LegacyRow.id_of_pos eq) h.2.ne
    · exact absurd h.1 (position_mono hb sess.symm gt).ne'

/-- Where a moved row goes. -/
lemma finalSeq_moved (h : moved rows b = true) (e : newest rows b.sessionId = some s) :
    finalSeq rows b = position rows s := by
  simp [finalSeq, h, e]

/-- Other rows keep their place. -/
lemma finalSeq_not_moved (h : moved rows b = false) : finalSeq rows b = position rows b := by
  simp [finalSeq, h]

end

/-! ## One statement after another -/

/-- Every column is there, and the rows are those of `rows` with `P`. -/
structure Stage (rows : List LegacyRow) (P : Message → Prop) (db : Db) : Prop where
  rows : db.rows.map Message.old = rows
  columns : db.seq = true ∧ db.kind = true ∧ db.pinned = true
  flags : db.isSummary = true ∧ db.excludeFromContext = true
  each : ∀ m ∈ db.rows, P m

/-- What the next run does not write again is final. -/
structure Fits (rows : List LegacyRow) (m : Message) : Prop where
  kind : m.old.isSummary = false → m.old.extra = none → m.kind = .chat ∨ m.kind = finalKind rows m.old
  pinned : m.pinned = true → retained rows m.old = true

/-- The kinds are set and the positions are `seq`. -/
structure Derived (rows : List LegacyRow) (seq : LegacyRow → Nat) (m : Message) : Prop where
  seq : m.seq = seq m.old
  kind : m.kind = m.old.kind ∨ residual rows m.old = true ∧ m.kind = .reverted
  pinned : m.pinned = true → retained rows m.old = true

section
variable {rows : List LegacyRow} {seq : LegacyRow → Nat} {m : Message} {db : Db} {P Q : Message → Prop}

/-- A derived message fits. -/
lemma Derived.fits (h : Derived rows seq m) : Fits rows m where
  kind sum none := by
    rw [← LegacyRow.kind_plain sum none, finalKind]
    cases h.kind with
    | inl e => exact .inl e
    | inr r =>
      rw [if_pos r.1]
      exact .inr r.2
  pinned := h.pinned

/-- Setting the kinds makes no summary and hides none. -/
lemma Derived.summary (h : Derived rows seq m) : m.kind = .summary ↔ m.old.kind = .summary := by
  cases h.kind with
  | inl e => rw [e]
  | inr r =>
    refine ⟨fun e => ?_, fun e => ?_⟩
    · rw [r.2] at e
      cases e
    · have := r.1
      simp [residual, isTalk, e] at this

/-- An update of the rows. -/
lemma Stage.update {f : Message → Message} (h : Stage rows P db) (keeps : ∀ m, (f m).old = m.old)
    (each : ∀ m ∈ db.rows, P m → Q (f m)) : Stage rows Q { db with rows := db.rows.map f } where
  rows := by
    rw [← h.rows, List.map_map]
    exact List.map_congr_left fun m _ => keeps m
  columns := h.columns
  flags := h.flags
  each m hm := by
    obtain ⟨m', hm', rfl⟩ := List.mem_map.mp hm
    exact each m' hm' (h.each m' hm')

/-- A stage implies a weaker one. -/
lemma Stage.mono (h : Stage rows P db) (imp : ∀ m, P m → Q m) : Stage rows Q db :=
  { h with each := fun m hm => imp m (h.each m hm) }

/-- A message is of an old row. -/
lemma Stage.mem (h : Stage rows P db) (hm : m ∈ db.rows) : m.old ∈ rows :=
  h.rows ▸ List.mem_map_of_mem hm

/-- The active summary of the statements is the newest summary. -/
lemma Stage.newestSummary (h : Stage rows (Derived rows seq) db) (sessionId : Nat) :
    (newestSummary db.rows sessionId).map Message.old = newest rows sessionId := by
  have e : db.rows.filter (fun m => m.old.sessionId = sessionId && m.kind = .summary) =
      db.rows.filter ((fun b => b.sessionId = sessionId && b.kind = .summary) ∘ Message.old) := by
    apply List.filter_congr
    intro m hm
    simp [(h.each m hm).summary]
  rw [Migration.newestSummary, newest, ← List.getLast?_map, e, ← h.rows, List.filter_map,
    sortOn_map (f := LegacyRow.id) (g := Message.old)]

/-- The active summary, when there is one. -/
lemma Stage.newestSummary_cases (h : Stage rows (Derived rows seq) db) (sessionId : Nat) :
    Migration.newestSummary db.rows sessionId = none ∧ newest rows sessionId = none ∨
      ∃ s, Migration.newestSummary db.rows sessionId = some s ∧ newest rows sessionId = some s.old ∧
        s ∈ db.rows ∧ s.old.sessionId = sessionId ∧ s.old.kind = .summary := by
  have e := h.newestSummary sessionId
  cases e' : Migration.newestSummary db.rows sessionId with
  | none =>
    rw [e', Option.map_none] at e
    exact .inl ⟨rfl, e.symm⟩
  | some s =>
    rw [e', Option.map_some] at e
    have mem : s ∈ db.rows := List.mem_of_mem_filter (mem_sortOn.mp (List.mem_of_getLast? e'))
    exact .inr ⟨s, rfl, e.symm, mem, (mem_newest e.symm).2⟩

/-- The positions. -/
lemma Stage.setSeq (h : Stage rows (Fits rows) db) :
    Stage rows (fun m => Fits rows m ∧ m.seq = position rows m.old) (db.exec .setSeq) := by
  refine h.update (fun _ => rfl) fun m hm fits => ⟨⟨fits.kind, fits.pinned⟩, ?_⟩
  rw [Migration.setSeq, h.rows, position]

/-- The kinds. -/
lemma Stage.setKind (h : Stage rows (fun m => Fits rows m ∧ m.seq = position rows m.old) db) :
    Stage rows (Derived rows (position rows)) (db.exec .setKind) := by
  refine h.update (fun m => ?_) fun m hm fits => ?_
  · unfold Migration.setKind
    split
    · rfl
    · rfl
  · cases e : m.old.isSummary || m.old.extra.isSome with
    | true =>
      rw [Migration.setKind, if_pos e]
      exact ⟨fits.2, .inl rfl, fits.1.pinned⟩
    | false =>
      rw [Migration.setKind, e, if_neg (by simp)]
      refine ⟨fits.2, ?_, fits.1.pinned⟩
      rw [Bool.or_eq_false_iff, Option.isSome_eq_false_iff, Option.isNone_iff_eq_none] at e
      have plain := LegacyRow.kind_plain e.1 e.2
      have kind := fits.1.kind e.1 e.2
      rw [finalKind, plain] at kind
      rw [plain]
      cases r : residual rows m.old with
      | true =>
        rw [r, if_pos rfl] at kind
        exact kind.imp id fun e => ⟨rfl, e⟩
      | false =>
        rw [r, if_neg Bool.false_ne_true, or_self] at kind
        exact .inl kind

/-- The positional repair. -/
lemma Stage.repair (nd : (rows.map LegacyRow.id).Nodup) (h : Stage rows (Derived rows (position rows)) db) :
    Stage rows (Derived rows (finalSeq rows)) (db.exec .repair) := by
  refine h.update (fun m => ?_) fun m hm d => ?_
  · unfold Migration.repair
    split
    · rfl
    · split
      · rfl
      · rfl
  · rcases h.newestSummary_cases m.old.sessionId with ⟨e, e'⟩ | ⟨s, e, e', hs, sess, kind⟩
    · have stays : moved rows m.old = false := by simp [moved, e']
      simp only [Migration.repair, e]
      exact ⟨d.seq.trans (finalSeq_not_moved stays).symm, d.kind, d.pinned⟩
    · have pos : s.pos < m.pos ↔ s.old.pos < m.old.pos := by
        rw [Message.pos, Message.pos, (h.each s hs).seq, d.seq]
        exact position_id_lt nd (h.mem hs) (h.mem hm) sess
      have cond : (isTalk m.kind && m.old.excludeFromContext && decide (m.old.id < s.old.id) &&
          decide (s.pos < m.pos)) = moved rows m.old := by
        cases d.kind with
        | inl k => simp [moved, e', pos, k, Bool.and_assoc]
        | inr r =>
          cases mv : moved rows m.old with
          | true => exact absurd r.1 (by simp [not_residual mv])
          | false => simp [isTalk, r.2]
      simp only [Migration.repair, e, cond]
      cases mv : moved rows m.old with
      | true =>
        rw [if_pos rfl]
        exact ⟨(h.each s hs).seq.trans (finalSeq_moved mv e').symm, d.kind, d.pinned⟩
      | false =>
        rw [if_neg Bool.false_ne_true]
        exact ⟨d.seq.trans (finalSeq_not_moved mv).symm, d.kind, d.pinned⟩

/-- A summary keeps its place. -/
lemma finalSeq_summary {s : LegacyRow} (k : s.kind = .summary) : finalSeq rows s = position rows s :=
  finalSeq_not_moved (final_summary (by simp [isTalk, k])).1

/-- The residual excluded rows. -/
lemma Stage.revertResidual (nd : (rows.map LegacyRow.id).Nodup)
    (h : Stage rows (Derived rows (finalSeq rows)) db) :
    Stage rows (fun m => Derived rows (finalSeq rows) m ∧ m.kind = finalKind rows m.old)
      (db.exec .revertResidual) := by
  refine h.update (fun m => ?_) fun m hm d => ?_
  · unfold Migration.revertResidual
    split
    · rfl
    · rfl
  · have cond : isTalk m.old.kind = true →
        (m.old.excludeFromContext && (Migration.newestSummary db.rows m.old.sessionId).all fun s => s.pos < m.pos) =
          residual rows m.old := by
      intro talk
      rcases h.newestSummary_cases m.old.sessionId with ⟨e, e'⟩ | ⟨s, e, e', hs, sess, kind⟩
      · simp [residual, e, e', talk]
      · have hseq : s.seq = position rows s.old := (h.each s hs).seq.trans (finalSeq_summary kind)
        have pos : m.old.excludeFromContext = true →
            (s.pos < m.pos ↔ s.old.id ≤ m.old.id ∧ s.old.pos < m.old.pos) := by
          intro excl
          rw [Message.pos, Message.pos, hseq, d.seq]
          cases mv : moved rows m.old with
          | true =>
            have lt : m.old.id < s.old.id ∧ s.old.pos < m.old.pos := by
              simpa [moved, e', talk, excl] using mv
            rw [finalSeq_moved mv e', Prod.Lex.toLex_lt_toLex]
            exact ⟨fun h => by omega, fun h => absurd h.1 (by omega)⟩
          | false =>
            rw [finalSeq_not_moved mv, position_id_lt nd (h.mem hs) (h.mem hm) sess]
            have not : s.old.pos < m.old.pos → ¬ m.old.id < s.old.id := by
              intro lt id
              simp [moved, e', talk, excl, lt, id] at mv
            exact ⟨fun h => ⟨Nat.le_of_not_lt (not h), h⟩, And.right⟩
        cases excl : m.old.excludeFromContext with
        | true => simp [residual, e, e', talk, excl, pos excl]
        | false => simp [residual, excl]
    cases d.kind with
    | inl k =>
      cases talk : isTalk m.old.kind with
      | true =>
        rw [Migration.revertResidual, k, talk, Bool.true_and, cond talk]
        cases r : residual rows m.old with
        | true =>
          rw [if_pos rfl, finalKind, if_pos r]
          exact ⟨⟨d.seq, .inr ⟨r, rfl⟩, d.pinned⟩, rfl⟩
        | false =>
          rw [if_neg Bool.false_ne_true, finalKind, if_neg (by simp [r])]
          exact ⟨d, k⟩
      | false =>
        have r : residual rows m.old = false := (final_summary talk).2.1
        rw [Migration.revertResidual, k, talk, Bool.false_and, Bool.false_and, if_neg Bool.false_ne_true, finalKind,
          if_neg (by simp [r])]
        exact ⟨d, k⟩
    | inr r =>
      have untouched : isTalk m.kind = false := by simp [isTalk, r.2]
      rw [Migration.revertResidual, untouched, Bool.false_and, Bool.false_and, if_neg Bool.false_ne_true, finalKind,
        if_pos r.1]
      exact ⟨d, r.2⟩

/-- The pins. -/
lemma Stage.pin (nd : (rows.map LegacyRow.id).Nodup)
    (h : Stage rows (fun m => Derived rows (finalSeq rows) m ∧ m.kind = finalKind rows m.old) db) :
    Stage rows (fun m => m = final rows m.old) (db.exec .pin) := by
  have derived : Stage rows (Derived rows (finalSeq rows)) db := h.mono fun m => And.left
  refine h.update (fun m => ?_) fun m hm ⟨d, kind⟩ => ?_
  · unfold Migration.pin
    split
    · rfl
    · rfl
  · have cond : (isTalk m.kind && !m.old.excludeFromContext &&
        (Migration.newestSummary db.rows m.old.sessionId).any fun s => m.seq < s.seq) = retained rows m.old := by
      cases excl : m.old.excludeFromContext with
      | true => simp [retained, excl]
      | false =>
        have stays : moved rows m.old = false := by simp [moved, excl]
        have same : m.kind = m.old.kind := by simp [kind, finalKind, residual, excl]
        rcases derived.newestSummary_cases m.old.sessionId with ⟨e, e'⟩ | ⟨s, e, e', hs, sess, sum⟩
        · simp [retained, e, e']
        · have lt : m.seq < s.seq ↔ m.old.pos < s.old.pos := by
            rw [d.seq, (h.each s hs).1.seq, finalSeq_not_moved stays, finalSeq_summary sum]
            exact position_lt nd (h.mem hm) (h.mem hs) sess.symm
          simp [retained, e, e', excl, same, lt]
    have pinned : (Migration.pin db.rows m).pinned = retained rows m.old ∧
        Migration.pin db.rows m = { m with pinned := (Migration.pin db.rows m).pinned } := by
      rw [Migration.pin, cond]
      cases r : retained rows m.old with
      | true => exact ⟨rfl, rfl⟩
      | false =>
        refine ⟨?_, rfl⟩
        cases p : m.pinned with
        | true => exact absurd (d.pinned p) (by simp [r])
        | false => simp [p]
    rw [pinned.2, pinned.1, final, ← kind, ← d.seq]

end

end OpenAgentd.Migration
