import OpenAgentd.Migration.Backfill

/-!
# The history behind the migration

The window of a session behind `upgrade` is its legacy history in the legacy order, whatever was broken off before
(`history_kept`): every state that an interrupted run can leave is `Midway`, and from every such state the migration
leads to the one database `target`.
-/

namespace OpenAgentd.Migration
open OpenAgentd.Lib OpenAgentd.Store

/-- A database before the migration. -/
structure Db.Legacy (db : Db) : Prop where
  seq : db.seq = false
  kind : db.kind = false
  pinned : db.pinned = false
  isSummary : db.isSummary = true
  excludeFromContext : db.excludeFromContext = true
  ids : (db.rows.map fun m => m.old.id).Nodup

/-- `upgrade` is broken off. -/
abbrev BrokenOff : Db → Db → Prop := Relation.ReflTransGen (Interrupted Db.exec upgrade)

/-! ## Interrupted runs -/

/-- The backfill is not finished. -/
structure Filling (rows : List LegacyRow) (db : Db) : Prop where
  olds : db.rows.map Message.old = rows
  flags : db.isSummary = true ∧ db.excludeFromContext = true
  kind : db.kind = true → ∀ m ∈ db.rows, m.old.isSummary = false → m.old.extra = none →
    m.kind = .chat ∨ m.kind = finalKind rows m.old
  pinned : db.pinned = true → ∀ m ∈ db.rows, m.pinned = true → retained rows m.old = true

/-- A row as it reads when columns may be dropped. -/
def dropped (isSummary excludeFromContext : Bool) (m : Message) : Message :=
  { m with
    old := { m.old with
      isSummary := isSummary && m.old.isSummary
      excludeFromContext := excludeFromContext && m.old.excludeFromContext } }

/-- Every row is final. -/
structure Done (rows : List LegacyRow) (db : Db) : Prop where
  rows : db.rows = rows.map fun b => dropped db.isSummary db.excludeFromContext (final rows b)
  columns : db.seq = true ∧ db.kind = true ∧ db.pinned = true

/-- What an interrupted run leaves. -/
def Midway (rows : List LegacyRow) (db : Db) : Prop := Filling rows db ∨ Done rows db

/-- What a finished run leaves. -/
def target (rows : List LegacyRow) : Db where
  rows := rows.map fun b => dropped false false (final rows b)
  seq := true
  kind := true
  pinned := true
  isSummary := false
  excludeFromContext := false
  sessionCreatedId := false
  sessionSeqId := true
  activeSummary := true

section
variable {rows : List LegacyRow} {db : Db} {P : Message → Prop} {I Q R : Db → Prop} {c : Bool} {st : Statement}

/-- A statement that is executed under a condition. -/
lemma leads_if (i : I db) (yes : c = true → I (db.exec st) ∧ Q (db.exec st)) (no : c = false → Q db) :
    Leads Db.exec I db (if c then [st] else []) Q := by
  cases e : c with
  | true => exact .single i (yes e).1 (yes e).2
  | false => exact .nil i (no e)

/-- A statement that is executed unless a condition holds. -/
lemma leads_unless (i : I db) (yes : c = true → Q db) (no : c = false → I (db.exec st) ∧ Q (db.exec st)) :
    Leads Db.exec I db (if c then [] else [st]) Q := by
  cases e : c with
  | true => exact .nil i (yes e)
  | false => exact .single i (no e).1 (no e).2

/-- Nothing is filled yet. -/
lemma Db.Legacy.filling (h : db.Legacy) : Filling (db.rows.map Message.old) db where
  olds := rfl
  flags := ⟨h.isSummary, h.excludeFromContext⟩
  kind e := by
    rw [h.kind] at e
    cases e
  pinned e := by
    rw [h.pinned] at e
    cases e

/-- Every stage of the backfill is one that the next run begins from. -/
lemma Stage.filling (h : Stage rows P db) (fits : ∀ m, P m → Fits rows m) : Filling rows db where
  olds := h.rows
  flags := h.flags
  kind _ m hm := (fits m (h.each m hm)).kind
  pinned _ m hm := (fits m (h.each m hm)).pinned

/-- All columns are filled. -/
lemma Filling.stage (h : Filling rows db) (columns : db.seq = true ∧ db.kind = true ∧ db.pinned = true) :
    Stage rows (Fits rows) db where
  rows := h.olds
  columns := columns
  flags := h.flags
  each m hm := ⟨h.kind columns.2.1 m hm, h.pinned columns.2.2 m hm⟩

/-- With both flags there the final rows are rows of the backfill. -/
lemma Done.filling (h : Done rows db) (flags : db.isSummary = true ∧ db.excludeFromContext = true) :
    Filling rows db := by
  have e := h.rows
  rw [flags.1, flags.2] at e
  have old : db.rows.map Message.old = rows := by
    rw [e, List.map_map]
    exact List.map_id _
  refine ⟨old, flags, fun _ m hm _ _ => .inr ?_, fun _ m hm p => ?_⟩
  · rw [e] at hm
    obtain ⟨b, hb, rfl⟩ := List.mem_map.mp hm
    rfl
  · rw [e] at hm
    obtain ⟨b, hb, rfl⟩ := List.mem_map.mp hm
    exact p

/-- The backfill ends in the final rows. -/
lemma Stage.done (h : Stage rows (fun m => m = final rows m.old) db) : Done rows db := by
  refine ⟨?_, h.columns⟩
  rw [h.flags.1, h.flags.2, ← h.rows, List.map_map]
  refine (List.map_id _).symm.trans (List.map_congr_left fun m hm => ?_)
  rw [h.rows]
  exact h.each m hm

/-- A column is added. -/
lemma Filling.added {f : Message → Message} {db' : Db} (h : Filling rows db) (e : db'.rows = db.rows.map f)
    (flags : db'.isSummary = db.isSummary ∧ db'.excludeFromContext = db.excludeFromContext)
    (keeps : ∀ m, (f m).old = m.old)
    (kind : (∀ m, (f m).kind = .chat) ∨ db'.kind = db.kind ∧ ∀ m, (f m).kind = m.kind)
    (pinned : (∀ m, (f m).pinned = false) ∨ db'.pinned = db.pinned ∧ ∀ m, (f m).pinned = m.pinned) :
    Filling rows db' where
  olds := by
    rw [e, List.map_map, ← h.olds]
    exact List.map_congr_left fun m _ => keeps m
  flags := by
    rw [flags.1, flags.2]
    exact h.flags
  kind c m hm sum none := by
    rw [e] at hm
    obtain ⟨k, hk, rfl⟩ := List.mem_map.mp hm
    rw [keeps] at sum none ⊢
    cases kind with
    | inl all => exact .inl (all k)
    | inr same =>
      rw [same.2]
      exact h.kind (same.1 ▸ c) k hk sum none
  pinned c m hm p := by
    rw [e] at hm
    obtain ⟨k, hk, rfl⟩ := List.mem_map.mp hm
    rw [keeps]
    cases pinned with
    | inl all =>
      rw [all] at p
      cases p
    | inr same =>
      rw [same.2] at p
      exact h.pinned (same.1 ▸ c) k hk p

/-- The columns are added. -/
lemma Filling.addColumns (h : Filling rows db) :
    Leads Db.exec (Midway rows) db (addColumns db) fun t =>
      Filling rows t ∧ t.seq = true ∧ t.kind = true ∧ t.pinned = true := by
  have seq : Leads Db.exec (Midway rows) db (if db.seq then [] else [.addSeq]) fun t =>
      Filling rows t ∧ t.seq = true ∧ t.kind = db.kind ∧ t.pinned = db.pinned := by
    have added : Filling rows (db.exec .addSeq) :=
      h.added rfl ⟨rfl, rfl⟩ (fun _ => rfl) (.inr ⟨rfl, fun _ => rfl⟩) (.inr ⟨rfl, fun _ => rfl⟩)
    exact leads_unless (.inl h) (fun e => ⟨h, e, rfl, rfl⟩) fun _ => ⟨.inl added, added, rfl, rfl, rfl⟩
  have kind : ∀ t, (Filling rows t ∧ t.seq = true ∧ t.kind = db.kind ∧ t.pinned = db.pinned) →
      Leads Db.exec (Midway rows) t (if db.kind then [] else [.addKind]) fun t =>
        Filling rows t ∧ t.seq = true ∧ t.kind = true ∧ t.pinned = db.pinned := by
    rintro t ⟨ht, sq, kd, pn⟩
    have added : Filling rows (t.exec .addKind) :=
      ht.added rfl ⟨rfl, rfl⟩ (fun _ => rfl) (.inl fun _ => rfl) (.inr ⟨rfl, fun _ => rfl⟩)
    rw [← kd]
    exact leads_unless (.inl ht) (fun e => ⟨ht, sq, e, pn⟩) fun _ => ⟨.inl added, added, sq, rfl, pn⟩
  have pinned : ∀ t, (Filling rows t ∧ t.seq = true ∧ t.kind = true ∧ t.pinned = db.pinned) →
      Leads Db.exec (Midway rows) t (if db.pinned then [] else [.addPinned]) fun t =>
        Filling rows t ∧ t.seq = true ∧ t.kind = true ∧ t.pinned = true := by
    rintro t ⟨ht, sq, kd, pn⟩
    have added : Filling rows (t.exec .addPinned) :=
      ht.added rfl ⟨rfl, rfl⟩ (fun _ => rfl) (.inr ⟨rfl, fun _ => rfl⟩) (.inl fun _ => rfl)
    rw [← pn]
    exact leads_unless (.inl ht) (fun e => ⟨ht, sq, kd, e⟩) fun _ => ⟨.inl added, added, sq, kd, rfl⟩
  exact (seq.append kind).append pinned

/-- The backfill makes every row final. -/
lemma Stage.backfill (nd : (rows.map LegacyRow.id).Nodup) (h : Stage rows (Fits rows) db) :
    Leads Db.exec (Midway rows) db (backfillDerivedState db) (fun t => Done rows t) := by
  have midway : ∀ {P : Message → Prop} {t}, (∀ m, P m → Fits rows m) → Stage rows P t → Midway rows t :=
    fun fits st => .inl (st.filling fits)
  have positioned := midway (P := fun m => Fits rows m ∧ m.seq = position rows m.old) (fun m => And.left) h.setSeq
  have derived := h.setSeq.setKind
  have index : Leads Db.exec (Midway rows) ((db.exec .setSeq).exec .setKind)
      (if db.activeSummary then [] else [.createActiveSummary]) (Stage rows (Derived rows (position rows))) := by
    have created : Stage rows (Derived rows (position rows))
        (((db.exec .setSeq).exec .setKind).exec .createActiveSummary) := { derived with }
    have fits : ∀ m, Derived rows (position rows) m → Fits rows m := fun m h => h.fits
    exact leads_unless (midway fits derived) (fun _ => derived) fun _ => ⟨midway fits created, created⟩
  have rest : ∀ t, Stage rows (Derived rows (position rows)) t →
      Leads Db.exec (Midway rows) t [.repair, .revertResidual, .pin] (fun t => Done rows t) := by
    intro t ht
    have repaired := ht.repair nd
    have reverted := repaired.revertResidual nd
    have pinned := reverted.pin nd
    exact .cons (midway (fun m => Derived.fits) ht) <| .cons (midway (fun m => Derived.fits) repaired) <|
      .single (midway (fun m d => d.1.fits) reverted) (.inr pinned.done) pinned.done
  exact ((index.cons positioned).cons (midway (fun m => id) h)).append rest

end

section
variable {rows : List LegacyRow} {db db' : Db}

/-- A flag that is dropped twice reads as one that is dropped once. -/
lemma Done.dropIsSummary (h : Done rows db) : Done rows (db.exec .dropIsSummary) := by
  refine ⟨?_, h.columns⟩
  change db.rows.map _ = _
  rw [h.rows, List.map_map]
  exact List.map_congr_left fun b _ => rfl

/-- Dropping the old column. -/
lemma Done.dropExcludeFromContext (h : Done rows db) : Done rows (db.exec .dropExcludeFromContext) := by
  refine ⟨?_, h.columns⟩
  change db.rows.map _ = _
  rw [h.rows, List.map_map]
  exact List.map_congr_left fun b _ => rfl

/-- The flags are dropped. -/
lemma Done.dropLegacyColumns (h : Done rows db) :
    Leads Db.exec (Midway rows) db (dropLegacyColumns db) fun t =>
      Done rows t ∧ t.isSummary = false ∧ t.excludeFromContext = false := by
  have summary : Leads Db.exec (Midway rows) db (if db.isSummary then [.dropIsSummary] else []) fun t =>
      Done rows t ∧ t.isSummary = false ∧ t.excludeFromContext = db.excludeFromContext :=
    leads_if (.inr h) (fun _ => ⟨.inr h.dropIsSummary, h.dropIsSummary, rfl, rfl⟩) fun e => ⟨h, e, rfl⟩
  refine summary.append ?_
  rintro t ⟨ht, sum, exc⟩
  rw [← exc]
  exact leads_if (.inr ht)
    (fun _ => ⟨.inr ht.dropExcludeFromContext, ht.dropExcludeFromContext, sum, rfl⟩) fun e => ⟨ht, sum, e⟩

/-- The indexes are normalised. -/
lemma Done.ensureIndexes (h : Done rows db) (flags : db.isSummary = false ∧ db.excludeFromContext = false) :
    Leads Db.exec (Midway rows) db (ensureIndexes db) (· = target rows) := by
  have created : Leads Db.exec (Midway rows) db (if db.sessionCreatedId then [.dropSessionCreatedId] else []) fun t =>
      t = { db with sessionCreatedId := false } := by
    refine leads_if (.inr h) (fun _ => ⟨.inr ⟨h.rows, h.columns⟩, rfl⟩) fun e => ?_
    rw [← e]
  have seqId : ∀ t : Db, t = { db with sessionCreatedId := false } →
      Leads Db.exec (Midway rows) t (if db.sessionSeqId then [] else [.createSessionSeqId]) fun t =>
        t = { db with sessionCreatedId := false, sessionSeqId := true } := by
    rintro t rfl
    refine leads_unless (.inr ⟨h.rows, h.columns⟩) (fun e => ?_) fun _ => ⟨.inr ⟨h.rows, h.columns⟩, rfl⟩
    rw [← e]
  have active : ∀ t : Db, t = { db with sessionCreatedId := false, sessionSeqId := true } →
      Leads Db.exec (Midway rows) t (if db.activeSummary then [] else [.createActiveSummary]) fun t =>
        t = { db with sessionCreatedId := false, sessionSeqId := true, activeSummary := true } := by
    rintro t rfl
    refine leads_unless (.inr ⟨h.rows, h.columns⟩) (fun e => ?_) fun _ => ⟨.inr ⟨h.rows, h.columns⟩, rfl⟩
    rw [← e]
  refine ((created.append seqId).append active).mono ?_
  rintro t rfl
  have e := h.rows
  rw [flags.1, flags.2] at e
  rw [e, flags.1, flags.2, h.columns.1, h.columns.2.1, h.columns.2.2, target]

/-- From every state of an interrupted run the migration leads to one database. -/
lemma Midway.upgrade (nd : (rows.map LegacyRow.id).Nodup) (h : Midway rows db) :
    Leads Db.exec (Midway rows) db (upgrade db) (· = target rows) := by
  have converted : ∀ t, (Filling rows t ∧ t.seq = true ∧ t.kind = true ∧ t.pinned = true) ∨
      Done rows t ∧ ¬ (t.isSummary = true ∧ t.excludeFromContext = true) →
      Leads Db.exec (Midway rows) t (convert t) fun t =>
        Done rows t ∧ t.isSummary = false ∧ t.excludeFromContext = false := by
    intro t ht
    unfold convert
    cases ht with
    | inl ht =>
      rw [ht.1.flags.1, ht.1.flags.2]
      exact ((ht.1.stage ht.2).backfill nd).inTurn fun t ht => ht.dropLegacyColumns
    | inr ht =>
      rw [if_neg (by rw [Bool.and_eq_true]; exact ht.2)]
      cases c : t.isSummary || t.excludeFromContext with
      | true => exact ht.1.dropLegacyColumns
      | false => exact .nil (.inr ht.1) ⟨ht.1, Bool.or_eq_false_iff.mp c⟩
  have added : Leads Db.exec (Midway rows) db (addColumns db) fun t =>
      (Filling rows t ∧ t.seq = true ∧ t.kind = true ∧ t.pinned = true) ∨
        Done rows t ∧ ¬ (t.isSummary = true ∧ t.excludeFromContext = true) := by
    have fill : Filling rows db → Leads Db.exec (Midway rows) db (addColumns db) fun t =>
        (Filling rows t ∧ t.seq = true ∧ t.kind = true ∧ t.pinned = true) ∨
          Done rows t ∧ ¬ (t.isSummary = true ∧ t.excludeFromContext = true) :=
      fun hf => hf.addColumns.mono fun t => .inl
    cases h with
    | inl hf => exact fill hf
    | inr hd =>
      by_cases flags : db.isSummary = true ∧ db.excludeFromContext = true
      · exact fill (hd.filling flags)
      · have nothing : addColumns db = [] := by
          simp [addColumns, hd.columns.1, hd.columns.2.1, hd.columns.2.2]
        rw [nothing]
        exact .nil (.inr hd) (.inr ⟨hd, flags⟩)
  exact (added.inTurn converted).inTurn fun t ht => ht.1.ensureIndexes ht.2

/-- However often the migration is broken off, the database behind it is one. -/
lemma upgraded_eq (legacy : db.Legacy) (off : BrokenOff db db') :
    upgraded db' = target (db.rows.map Message.old) := by
  have nd : ((db.rows.map Message.old).map LegacyRow.id).Nodup := by
    rw [List.map_map]
    exact legacy.ids
  have midway : Midway (db.rows.map Message.old) db := .inl legacy.filling
  exact Interrupted.rerun (fun t ht => Midway.upgrade nd ht) midway off

end

/-! ## The window -/

/-- The legacy history: the rows that are not excluded, and of the summaries the newest that is shown. -/
def LegacyRow.inHistory (rows : List LegacyRow) (b : LegacyRow) : Bool :=
  !b.queued &&
    if b.isSummary then
      (sortOn LegacyRow.id (rows.filter fun s =>
        s.sessionId = b.sessionId && s.isSummary && !s.hidden && !s.queued)).getLast? = some b
    else !b.excludeFromContext

/-- The legacy history of a session, in the legacy order. -/
def legacyHistory (rows : List LegacyRow) (sessionId : Nat) : List LegacyRow :=
  (sortOn LegacyRow.pos (rows.filter fun b => b.sessionId = sessionId)).filter fun b => b.inHistory rows

/-- What a row says, apart from its place. -/
structure Said where
  id : Nat
  role : Role
  content : Option String
  toolCalls : List ToolCall
  toolCallId : Option String
  name : Option String
  deriving DecidableEq

/-- What a legacy row says. -/
def LegacyRow.said (b : LegacyRow) : Said := ⟨b.id, b.role, b.content, b.toolCalls, b.toolCallId, b.name⟩

/-- What a row says. -/
def said (r : Row) : Said := ⟨r.id, r.role, r.content, r.toolCalls, r.toolCallId, r.name⟩

section
variable {rows : List LegacyRow} {b s : LegacyRow} {db db' : Db} {sessionId : Nat}

/-- When a row becomes a summary. -/
lemma LegacyRow.kind_summary : b.kind = .summary ↔ (b.isSummary && !b.hidden && !b.queued) = true := by
  cases q : b.queued <;> cases sum : b.isSummary <;> cases h : b.hidden <;> cases e : b.excludeFromContext <;>
    simp [LegacyRow.kind, q, sum, h, e]

/-- A row that is no summary is a chat or note row unless it is queued, or hidden and excluded. -/
lemma LegacyRow.isTalk_kind :
    isTalk b.kind = (!b.queued && !b.isSummary && !(b.hidden && b.excludeFromContext)) := by
  cases q : b.queued <;> cases sum : b.isSummary <;> cases h : b.hidden <;> cases e : b.excludeFromContext <;>
    simp [LegacyRow.kind, isTalk, q, sum, h, e]

/-- The legacy history by kinds. -/
lemma LegacyRow.inHistory_iff : b.inHistory rows = true ↔
    isTalk b.kind = true ∧ b.excludeFromContext = false ∨
      b.kind = .summary ∧ newest rows b.sessionId = some b := by
  have e : newest rows b.sessionId = (sortOn LegacyRow.id (rows.filter fun s =>
      s.sessionId = b.sessionId && s.isSummary && !s.hidden && !s.queued)).getLast? := by
    rw [newest]
    congr 2
    apply List.filter_congr
    intro s _
    rw [Bool.eq_iff_iff]
    simp only [Bool.and_eq_true, decide_eq_true_eq, LegacyRow.kind_summary, and_assoc]
  rw [LegacyRow.inHistory, ← e, LegacyRow.isTalk_kind]
  cases sum : b.isSummary with
  | false => simp [LegacyRow.kind_summary, sum]; grind
  | true =>
    rw [if_pos rfl, Bool.and_eq_true, decide_eq_true_eq]
    constructor
    · intro h
      exact .inr ⟨(mem_newest h.2).2.2, h.2⟩
    · rintro (h | h)
      · simp at h
      · have := LegacyRow.kind_summary.mp h.1
        simp only [Bool.and_eq_true] at this
        exact ⟨this.2, h.2⟩

/-- The rows of a session behind the migration. -/
lemma target_session : (target rows).session sessionId =
    (rows.filter fun b => b.sessionId = sessionId).map fun b => (final rows b).row := by
  rw [Db.session, target, List.filter_map, List.map_map]
  rfl

/-- The active summary behind the migration is the newest summary. -/
lemma target_activeSummary : getActiveSummary ((target rows).session sessionId) none =
    (newest rows sessionId).map fun s => (final rows s).row := by
  have summaries : ((target rows).session sessionId).filter (fun r => r.kind = .summary && beforeBoundary none r) =
      (rows.filter fun s => s.sessionId = sessionId && s.kind = .summary).map fun s => (final rows s).row := by
    rw [target_session, List.filter_map, List.filter_filter]
    congr 1
    apply List.filter_congr
    intro s _
    have kind : (final rows s).row.kind = .summary ↔ s.kind = .summary := by
      rw [Message.row, final, finalKind]
      cases r : residual rows s with
      | false => simp
      | true =>
        have : s.kind ≠ .summary := by
          intro k
          simp [residual, isTalk, k] at r
        simp [this]
    simp [beforeBoundary, kind, Bool.and_comm]
  rw [getActiveSummary, summaries, ← sortOn_map (f := Row.id) (g := fun s => (final rows s).row), List.getLast?_map]
  rfl

/-- A row is in the window behind the migration when it is in the legacy history. -/
lemma inLlmWindow_final (nd : (rows.map LegacyRow.id).Nodup) (hb : b ∈ rows) :
    inLlmWindow ((newest rows b.sessionId).map fun s => (final rows s).row) none true (final rows b).row = true ↔
      b.inHistory rows = true := by
  have kind : (final rows b).row.kind = finalKind rows b := rfl
  rw [LegacyRow.inHistory_iff]
  cases talk : isTalk b.kind with
  | false =>
    have plain : (final rows b).row.kind = b.kind := by
      rw [kind, finalKind, (final_summary talk).2.1, if_neg Bool.false_ne_true]
    have ne : b.kind ≠ .chat ∧ b.kind ≠ .note := by simpa [isTalk] using talk
    constructor
    · intro h
      obtain ⟨rev, que, sum⟩ := window_kind h
      rw [plain] at rev que sum
      have summary : b.kind = .summary := by
        cases e : b.kind with
        | chat => exact absurd e ne.1
        | note => exact absurd e ne.2
        | queued => exact absurd e que
        | summary => rfl
        | reverted => exact absurd e rev
      obtain ⟨k, e, id⟩ := sum.resolve_left (fun n => n summary)
      obtain ⟨s, e', rfl⟩ := Option.map_eq_some_iff.mp e
      have same : b = s := List.inj_on_of_nodup_map nd hb (mem_newest e').1 id
      exact .inr ⟨summary, same ▸ e'⟩
    · rintro (h | ⟨summary, e⟩)
      · cases h.1
      · rw [e, Option.map_some]
        simp [inLlmWindow, plain, summary, atOrAfterPos, beforeBoundary]
  | true =>
    have noSummary : b.kind ≠ .summary := by
      intro k
      simp [isTalk, k] at talk
    have order : ∀ s, newest rows b.sessionId = some s → (s.pos < b.pos ∨ b.pos < s.pos) ∧
        (position rows s < position rows b ↔ s.pos < b.pos) ∧ (position rows b < position rows s ↔ b.pos < s.pos) := by
      intro s e
      obtain ⟨hs, sess, sum⟩ := mem_newest e
      refine ⟨?_, position_lt nd hs hb sess, position_lt nd hb hs sess.symm⟩
      refine lt_or_gt_of_ne fun e => noSummary ?_
      rw [← List.inj_on_of_nodup_map nd hs hb (LegacyRow.id_of_pos e)]
      exact sum
    have seq : ∀ s, newest rows b.sessionId = some s → (final rows s).row.pos = toLex (position rows s, s.id) := by
      intro s e
      rw [Row.pos, Message.row, final, finalSeq_summary (mem_newest e).2.2]
    cases r : residual rows b with
    | true =>
      have excl : b.excludeFromContext = true := by
        simp only [residual, Bool.and_eq_true] at r
        exact r.1.2
      have reverted : (final rows b).row.kind = .reverted := by rw [kind, finalKind, r, if_pos rfl]
      simp [excl, noSummary, inLlmWindow, reverted]
    | false =>
      have same : (final rows b).row.kind = .chat ∨ (final rows b).row.kind = .note := by
        rw [kind, finalKind, r, if_neg Bool.false_ne_true]
        simpa [isTalk] using talk
      rw [inLlmWindow_iff same]
      cases excl : b.excludeFromContext with
      | true =>
        -- the newest summary covers the row, at its own place or at the place it was moved to
        simp only [noSummary, Bool.true_eq_false, and_false, false_and, or_self, iff_false]
        intro h
        cases e : newest rows b.sessionId with
        | none => simp [residual, talk, excl, e] at r
        | some s =>
          have h := h _ (by rw [e, Option.map_some])
          have unpinned : (final rows b).row.pinned = false := by
            simp [Message.row, final, retained, excl]
          rw [unpinned, seq s e, Row.pos, Message.row, final, Prod.Lex.toLex_le_toLex] at h
          have h := h.resolve_left Bool.false_ne_true
          obtain ⟨-, lt, gt⟩ := order s e
          cases mv : moved rows b with
          | true =>
            have id : b.id < s.id ∧ s.pos < b.pos := by simpa [moved, talk, excl, e] using mv
            simp only [finalSeq_moved mv e] at h
            omega
          | false =>
            have covered : ¬ s.pos < b.pos := by
              intro lt
              have le : s.id ≤ b.id := by simpa [moved, talk, excl, e, lt] using mv
              simp [residual, talk, excl, e, lt, le] at r
            have before := gt.mpr ((order s e).1.resolve_left covered)
            simp only [finalSeq_not_moved mv] at h
            omega
      | false =>
        refine iff_of_true ?_ (.inl ⟨rfl, rfl⟩)
        intro k hk
        obtain ⟨s, e, rfl⟩ := Option.map_eq_some_iff.mp hk
        have stays : moved rows b = false := by simp [moved, excl]
        cases (order s e).1 with
        | inr before =>
          left
          simp [Message.row, final, retained, talk, excl, e, before]
        | inl behind =>
          right
          rw [seq s e, Row.pos, Message.row, final, finalSeq_not_moved stays, Prod.Lex.toLex_le_toLex]
          exact .inl ((order s e).2.1.mpr behind)

/-- A row of the legacy history keeps its place. -/
lemma finalSeq_inHistory (h : b.inHistory rows = true) : finalSeq rows b = position rows b := by
  cases LegacyRow.inHistory_iff.mp h with
  | inl talk => exact finalSeq_not_moved (by simp [moved, talk.2])
  | inr sum => exact finalSeq_summary sum.1

/-- The window behind the migration. -/
lemma target_window (nd : (rows.map LegacyRow.id).Nodup) :
    llmWindowRows ((target rows).session sessionId) none true =
      (legacyHistory rows sessionId).map fun b => (final rows b).row := by
  have nd' : ((rows.filter fun b => b.sessionId = sessionId).map LegacyRow.id).Nodup := nodup_map_filter nd
  have ndPos : ((rows.filter fun b => b.sessionId = sessionId).map LegacyRow.pos).Nodup := by
    refine List.Nodup.of_map (fun p => (ofLex p).2) ?_
    rw [List.map_map]
    exact nd'
  have mem : ∀ b, b ∈ legacyHistory rows sessionId ↔
      (b ∈ rows ∧ b.sessionId = sessionId) ∧ b.inHistory rows = true := by
    intro b
    rw [legacyHistory, List.mem_filter, mem_sortOn, List.mem_filter, decide_eq_true_eq]
  apply llmWindowRows_ext
  · rw [target_session, List.map_map]
    exact nd'
  · rw [List.pairwise_map]
    refine List.Pairwise.imp_of_mem ?_ ((sortOn_pairwise ndPos).filter _)
    intro b c hb hc lt
    obtain ⟨⟨hb, sess⟩, inb⟩ := (mem b).mp hb
    obtain ⟨⟨hc, sess'⟩, inc⟩ := (mem c).mp hc
    rw [Row.pos, Row.pos, Message.row, Message.row, final, final, finalSeq_inHistory inb, finalSeq_inHistory inc]
    exact (position_id_lt nd hb hc (sess.trans sess'.symm)).mpr lt
  · intro r
    rw [target_activeSummary, target_session, List.mem_map, List.mem_map]
    constructor
    · rintro ⟨b, hb, rfl⟩
      obtain ⟨⟨row, rfl⟩, inb⟩ := (mem b).mp hb
      exact ⟨⟨b, List.mem_filter.mpr ⟨row, decide_eq_true rfl⟩, rfl⟩, (inLlmWindow_final nd row).mpr inb⟩
    · rintro ⟨⟨b, hb, rfl⟩, h⟩
      obtain ⟨row, sess⟩ := List.mem_filter.mp hb
      obtain rfl := of_decide_eq_true sess
      exact ⟨b, (mem b).mpr ⟨⟨row, rfl⟩, (inLlmWindow_final nd row).mp h⟩, rfl⟩

/-- However often the migration is broken off, it ends in one database, and the window of every session is its legacy
history in the legacy order. -/
theorem history_kept (legacy : db.Legacy) (off : BrokenOff db db') :
    upgraded db' = upgraded db ∧ ∀ sessionId,
      (llmWindowRows ((upgraded db').session sessionId) none true).map said =
        (legacyHistory (db.rows.map Message.old) sessionId).map LegacyRow.said := by
  have nd : ((db.rows.map Message.old).map LegacyRow.id).Nodup := by
    rw [List.map_map]
    exact legacy.ids
  refine ⟨(upgraded_eq legacy off).trans (upgraded_eq legacy .refl).symm, fun sessionId => ?_⟩
  rw [upgraded_eq legacy off, target_window nd, List.map_map]
  rfl

/-- A question, its answer, the summary anchored before the answer, and an excluded hint behind it. -/
def compacted : Db where
  rows := [
    { old := { id := 1, sessionId := 0, createdAt := 1, role := .user, excludeFromContext := true } },
    { old := { id := 4, sessionId := 0, createdAt := 2, role := .user, isSummary := true } },
    { old := { id := 2, sessionId := 0, createdAt := 3, role := .assistant } },
    { old := { id := 3, sessionId := 0, createdAt := 4, role := .user, excludeFromContext := true } }]
  seq := false
  kind := false
  pinned := false
  isSummary := true
  excludeFromContext := true
  sessionCreatedId := true
  sessionSeqId := false
  activeSummary := false

/-- The run that is broken off behind the positional repair. -/
theorem history_kept_compacted :
    upgraded (runAll Db.exec compacted ((upgrade compacted).take 7)) = upgraded compacted ∧ ∀ sessionId,
      (llmWindowRows ((upgraded (runAll Db.exec compacted ((upgrade compacted).take 7))).session sessionId) none
        true).map said = (legacyHistory (compacted.rows.map Message.old) sessionId).map LegacyRow.said :=
  history_kept ⟨rfl, rfl, rfl, rfl, rfl, by decide⟩ (.single ⟨7, rfl⟩)

end

end OpenAgentd.Migration
