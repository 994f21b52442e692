import OpenAgentd.Snapshot.Undone
import OpenAgentd.Store.Revert

/-!
# The workspace under undo and redo

Undo, redo and redo all move the boundary of a session and restore a snapshot: that of the message at the new
boundary, or the anchor that the first undo took. `handle_user_message` takes no snapshot, so that no message has
one, and the files never move with the boundary: `follows_iff` says that they are those of a message exactly when
the turns behind it have left them alone. No path begins with a colon, which git would not read as a path.
-/

namespace OpenAgentd.Snapshot
open Lib

/-- The `revert` dict of a session, with the tree that its `snapshot` names. -/
structure Revert (C : Type*) where
  messageId : Nat
  snapshot : Option (Files C)

/-- A session with its workspace. -/
structure World (C : Type*) where
  table : Store.Table
  revert : Option (Revert C) := none
  repo : Repo C

/-- `BoundaryShift` -/
structure BoundaryShift where
  applied : Bool
  target : Option Store.Row := none
  added : Finset Path := ∅
  modified : Finset Path := ∅
  removed : Finset Path := ∅

namespace World
variable {C : Type*} [DecidableEq C] (git : Git C) (tree : String → Files C) (w : World C)

/-- `revert_boundary` -/
def boundary : Option Store.Row := w.revert.bind fun v => w.table.get? v.messageId

/-- `redo_anchor` -/
def anchor : Option (Files C) := w.revert.bind Revert.snapshot

/-- A restore of a snapshot, if there is one. -/
def restoreTo (r : Repo C) (snapshot : Option (Files C)) (skipStage : Bool) : RestoreResult × Repo C :=
  snapshot.elim ({ ok := false }, r) fun h => restore git r h skipStage

/-- A boundary was moved to `target`, with what a restore did. -/
def shifted (target : Option Store.Row) (revert : Option (Revert C)) (restored : RestoreResult × Repo C) :
    BoundaryShift × World C :=
  ({ applied := true, target := target, added := restored.1.added, modified := restored.1.modified,
     removed := restored.1.removed },
    { w with revert := revert, repo := restored.2 })

/-- The anchor of an undo: the one there is, or a new one, with whether it has just been taken. -/
def undoAnchor : Files C × Repo C × Bool :=
  match w.anchor with
  | some anchor => (anchor, w.repo, false)
  | none => ((track git w.repo).1, (track git w.repo).2, true)

/-- `undo_session_messages` -/
def undoSessionMessages : BoundaryShift × World C :=
  match Store.undoTarget w.table.rows w.boundary with
  | none => ({ applied := false }, w)
  | some target =>
    let (anchor, repo, justTracked) := w.undoAnchor git
    w.shifted (some target) (some { messageId := target.id, snapshot := some anchor })
      (restoreTo git repo ((Store.messageSnapshot target).map tree) justTracked)

/-- `redo_session_messages` -/
def redoSessionMessages : BoundaryShift × World C :=
  match w.boundary with
  | none => ({ applied := false }, w)
  | some boundary =>
    match Store.nextUser w.table.rows boundary with
    | none => w.shifted none none (restoreTo git w.repo w.anchor false)
    | some nextUser =>
      w.shifted (some nextUser) (some { messageId := nextUser.id, snapshot := w.anchor })
        (restoreTo git w.repo ((Store.messageSnapshot nextUser).map tree) false)

/-- `redo_all_session_messages` -/
def redoAllSessionMessages : BoundaryShift × World C :=
  match w.boundary with
  | none => ({ applied := false }, w)
  | some _ => w.shifted none none (restoreTo git w.repo w.anchor false)

end World

/-- The session of a world, with hashes for trees. -/
def World.session {C : Type*} (name : Files C → String) (w : World C) : Store.ChatSession where
  table := w.table
  revert := w.revert.map fun v => { messageId := some v.messageId, snapshot := v.snapshot.map name }

section
variable {C : Type*} [DecidableEq C] {git : Git C} {tree : String → Files C} {w : World C} {name : Files C → String}

omit [DecidableEq C] in
/-- The same revert point. -/
lemma World.session_boundary : Store.revertBoundary (w.session name) = w.boundary := by
  unfold Store.revertBoundary World.session World.boundary
  cases w.revert with
  | none => rfl
  | some v => rfl

omit [DecidableEq C] in
/-- The same anchor. -/
lemma World.session_anchor (named : ∀ h, name h ≠ "") :
    Store.redoAnchor (w.session name) = w.anchor.map name := by
  unfold Store.redoAnchor World.session World.anchor Store.nonEmpty
  cases w.revert with
  | none => rfl
  | some v =>
    cases snapshot : v.snapshot with
    | none => simp [snapshot]
    | some h => simp [snapshot, named h]

/-- The commands move the boundary as the session's own do, whatever a restore reports. -/
theorem World.session_shift (named : ∀ h, name h ≠ "") (restore : String → Store.Changes) :
    let io : Store.SnapshotCalls := { track := some (name (track git w.repo).1), restore := restore }
    (w.undoSessionMessages git tree).2.session name = (Store.undoSessionMessages io (w.session name)).2 ∧
      (w.redoSessionMessages git tree).2.session name = (Store.redoSessionMessages io (w.session name)).2 ∧
      (w.redoAllSessionMessages git).2.session name = (Store.redoAllSessionMessages io (w.session name)).2 := by
  refine ⟨?_, ?_, ?_⟩
  · unfold World.undoSessionMessages Store.undoSessionMessages
    rw [World.session_boundary, World.session_anchor named]
    have table : (w.session name).table = w.table := rfl
    rw [table]
    cases Store.undoTarget w.table.rows w.boundary with
    | none => rfl
    | some target =>
      unfold World.undoAnchor
      cases w.anchor with
      | none =>
        have kept : Store.nonEmpty (some (name (track git w.repo).1)) = some (name (track git w.repo).1) := by
          simp [Store.nonEmpty, Option.filter, named]
        simp [World.shifted, World.session, kept]
      | some h => rfl
  · unfold World.redoSessionMessages Store.redoSessionMessages
    rw [World.session_boundary, World.session_anchor named]
    cases w.boundary with
    | none => rfl
    | some b =>
      have table : (w.session name).table = w.table := rfl
      dsimp only
      rw [table]
      cases Store.nextUser w.table.rows b with
      | none => rfl
      | some m => rfl
  · unfold World.redoAllSessionMessages Store.redoAllSessionMessages
    rw [World.session_boundary]
    cases w.boundary with
    | none => rfl
    | some b => rfl

end

/-- A session, with the messages that were sent, each beside the workspace of that moment, and the workspace when
the first undo was requested. -/
structure History (C : Type*) where
  world : World C
  sent : List (Nat × Folder C) := []
  first : Option (Folder C) := none

/-- A session without messages. -/
def History.start {C : Type*} [DecidableEq C] (worktree : Folder C) : History C where
  world := { table := { rows := [], clock := 0, fresh := by decide, distinct := by decide }
             repo := (Session.start worktree).repo }

/-- What the user does, and the agent in a turn. -/
inductive Deed (C : Type*) where
  | send (content : String) (attachments : List Attachment)
  | queue (content : String) (attachments : List Attachment)
  | turn (table : Store.Table) (worktree : Folder C)
  | undo
  | redo
  | redoAll

section
variable {C : Type*} [DecidableEq C] (git : Git C) (tree : String → Files C)

/-- The row that `handle_user_message` saves. -/
def userRow (content : String) (attachments : List Attachment) (seq : Nat) : Store.Row :=
  { id := 0, role := .user, content := some content, seq := seq, extra := { attachments := attachments } }

/-- The row that `persist_queued_user_message` saves. -/
def queuedRow (content : String) (attachments : List Attachment) (seq : Nat) : Store.Row :=
  { userRow content attachments seq with
    kind := .queued, extra := { attachments := attachments, queueStatus := some "queued" } }

/-- A message is saved. -/
def History.save (s : History C) (row : Nat → Store.Row) : History C :=
  { s with
    world := { s.world with table := s.world.table.insert (row (Store.nextSeq s.world.table.rows)) }
    sent := (s.world.table.clock, s.world.repo.worktree) :: s.sent }

/-- The rows and the files that a turn leaves. -/
def History.write (s : History C) (table : Store.Table) (worktree : Folder C) : History C :=
  { s with world := { s.world with table := table, repo := { s.world.repo with worktree := worktree } } }

/-- The boundary is moved. -/
def History.move (s : History C) (world : World C) : History C :=
  { s with world := world, first := some (s.first.getD s.world.repo.worktree) }

/-- Messages and their turns, then undo and redo. No writer of rows stores a snapshot, and no path that a turn writes
begins with a colon. -/
inductive Does : History C → Deed C → History C → Prop where
  | send {s content attachments} :
    s.first = none →
    Does s (.send content attachments) (s.save (userRow content attachments))
  | queue {s content attachments} :
    s.first = none →
    Does s (.queue content attachments) (s.save (queuedRow content attachments))
  | turn {s table worktree} :
    s.first = none →
    s.world.table.clock ≤ table.clock →
    (∀ r ∈ table.rows, r.extra.snapshot = none) →
    Literal worktree.files →
    Does s (.turn table worktree) (s.write table worktree)
  | undo {s} :
    Does s .undo (s.move (s.world.undoSessionMessages git tree).2)
  | redo {s} :
    Does s .redo (s.move (s.world.redoSessionMessages git tree).2)
  | redoAll {s} :
    Does s .redoAll (s.move (s.world.redoAllSessionMessages git).2)

/-- The tracked files of a workspace. -/
def trackedFiles (worktree : Folder C) : Files C :=
  worktree.files.filter fun p => Visible git worktree.files p ∧ Small git worktree.files p

/-- The workspace follows the boundary. -/
structure Follows (s : History C) : Prop where
  staged : ∀ b w, s.world.boundary = some b → b.kind = .chat → (b.id, w) ∈ s.sent →
    trackedFiles git s.world.repo.worktree = trackedFiles git w
  back : ∀ w, s.world.boundary = none → s.first = some w →
    trackedFiles git s.world.repo.worktree = trackedFiles git w

/-- From the message at the boundary to the first undo the tracked files have not changed. -/
def Untouched (s : History C) : Prop :=
  ∀ b w w', s.world.boundary = some b → b.kind = .chat → (b.id, w) ∈ s.sent → s.first = some w' →
    trackedFiles git w' = trackedFiles git w

end

section
variable {C : Type*} [DecidableEq C] {git : Git C} {tree : String → Files C} {r : Repo C} {a : Files C} {w : Folder C}
  {s t : History C} {p : Path}

/-! ### A repository at rest -/

/-- The index is the workspace's own, and the cache is of the index. -/
structure AtRest (git : Git C) (r : Repo C) : Prop where
  clean : listCandidatePaths git r.index r.worktree.files = ∅
  cache : ∀ h, r.lastHash = some h → h = r.index

/-- Behind staging there is nothing left to stage. -/
lemma staged_clean (plain : r.Plain) : listCandidatePaths git (r.staged git) r.worktree.files = ∅ := by
  rw [Finset.eq_empty_iff_forall_notMem]
  intro p mem
  cases mem_listCandidatePaths.mp mem with
  | inl tracked => exact tracked.2 ((records_staged plain).part p tracked.1).symm
  | inr new =>
    obtain ⟨visible, unlisted, small⟩ := new
    rw [staged_of_tracked plain (.covered (Literal.listed plain.1 plain.2) visible small)] at unlisted
    exact visible.1 unlisted

/-- Taking a snapshot brings the repository to rest, and the snapshot is its index. -/
lemma track_atRest (plain : r.Plain) (cache : ∀ h, r.lastHash = some h → h = r.index) :
    AtRest git (track git r).2 ∧ (track git r).1 = (track git r).2.index := by
  have index : (track git r).2.index = r.staged git := by
    unfold track
    dsimp only
    split
    next clean =>
      rw [staged_of_clean clean]
      split
      next => rfl
      next => rfl
    next => rfl
  refine ⟨⟨?_, ?_⟩, ?_⟩
  · rw [index, track_snd.1]
    exact staged_clean plain
  · rw [index]
    unfold track
    dsimp only
    split
    next clean =>
      rw [staged_of_clean clean]
      split
      next h cached =>
        intro h' e
        exact cache h' e
      next =>
        intro h e
        exact (Option.some.inj e).symm
    next =>
      intro h e
      exact (Option.some.inj e).symm
  · rw [index]
    exact track_fst fun _ => cache

/-- Putting back what the index is leaves the workspace alone. -/
lemma putBack_self : putBack a a w = w := by
  have checked : (a.filter (· ∈ addedPaths a a ∪ modifiedPaths a a)).paths = ∅ := by
    refine Finset.filter_false_of_mem fun p _ mem => ?_
    exact (mem_checkedOut.mp mem).2 rfl
  have deleted : deletedPaths a a = ∅ := by
    refine Finset.filter_false_of_mem fun p mem none => ?_
    exact (a.mem_paths p).mp mem none
  have dirs : parentDirs (∅ : Finset Path) = ∅ := rfl
  unfold putBack deleteExtras checkoutIndex
  rw [Folder.lay_none checked, deleted, dirs, Folder.rmdirs_empty]
  apply Folder.ext
  · ext1 p
    exact Files.filter_of (Finset.notMem_empty p)
  · rfl

/-- At rest, restoring the index changes nothing. -/
lemma AtRest.restore (rest : AtRest git r) : (restore git r r.index false).2 = r := by
  unfold Snapshot.restore
  split
  next => rfl
  next =>
    have same : { r with index := r.staged git } = r := by rw [staged_of_clean rest.clean]
    simp only [Bool.false_eq_true, if_false, same]
    split
    next => rfl
    next =>
      have worktree : putBack r.index r.index r.worktree = r.worktree := putBack_self
      unfold putBack at worktree
      rw [worktree]

/-! ### Sessions without stored snapshots -/

/-- What holds of a session throughout: no row has a snapshot, no path begins with a colon, the files are those of the
first undo, and under a boundary the anchor is the index. -/
structure Still (git : Git C) (s : History C) : Prop where
  literal : s.world.repo.Plain
  plain : ∀ r ∈ s.world.table.rows, r.extra.snapshot = none
  cache : ∀ h, s.world.repo.lastHash = some h → h = s.world.repo.index
  files : ∀ w, s.first = some w → s.world.repo.worktree = w
  staged : ∀ v, s.world.revert = some v →
    s.first ≠ none ∧ v.snapshot = some s.world.repo.index ∧ AtRest git s.world.repo

/-- A session without messages. -/
lemma still_start (literal : Literal w.files) : Still git (History.start w) where
  literal := ⟨fun _ listed => absurd rfl listed, literal⟩
  plain _ mem := absurd mem List.not_mem_nil
  cache _ e := by cases e
  files _ e := by cases e
  staged _ e := by cases e

/-- Before the first undo no boundary is staged. -/
lemma Still.unstaged (still : Still git s) (first : s.first = none) : s.world.revert = none := by
  by_contra some
  obtain ⟨v, e⟩ := Option.ne_none_iff_exists'.mp some
  exact (still.staged v e).1 first

/-- A message is saved before the first undo. -/
lemma Still.save {row : Nat → Store.Row} (still : Still git s) (first : s.first = none)
    (plain : ∀ seq, (row seq).extra.snapshot = none) : Still git (s.save row) where
  literal := still.literal
  plain r mem := by
    cases List.mem_append.mp mem with
    | inl old => exact still.plain r old
    | inr new =>
      rw [List.mem_singleton.mp new]
      exact plain _
  cache := still.cache
  files := still.files
  staged v e := absurd ((still.unstaged first).symm.trans e) (by simp)

/-- A turn runs before the first undo. -/
lemma Still.write {table : Store.Table} (still : Still git s) (first : s.first = none)
    (plain : ∀ r ∈ table.rows, r.extra.snapshot = none) (literal : Literal w.files) : Still git (s.write table w) where
  literal := ⟨still.literal.1, literal⟩
  plain := plain
  cache := still.cache
  files w' e := absurd (first.symm.trans e) (by simp)
  staged v e := absurd ((still.unstaged first).symm.trans e) (by simp)

/-- The boundary is moved without a change to the rows and the files. -/
lemma Still.move {world : World C} (still : Still git s) (table : world.table = s.world.table)
    (worktree : world.repo.worktree = s.world.repo.worktree) (index : Literal world.repo.index)
    (cache : ∀ h, world.repo.lastHash = some h → h = world.repo.index)
    (staged : ∀ v, world.revert = some v → v.snapshot = some world.repo.index ∧ AtRest git world.repo) :
    Still git (s.move world) where
  literal := ⟨index, worktree ▸ still.literal.2⟩
  plain r mem := still.plain r (table ▸ mem)
  cache := cache
  files w e := by
    rw [← Option.some.inj e]
    cases first : s.first with
    | none => exact worktree
    | some w' => exact worktree.trans (still.files w' first)
  staged v e := ⟨Option.some_ne_none _, staged v e⟩

/-- A call that stages nothing. -/
lemma Still.rest (still : Still git s) : Still git (s.move s.world) :=
  still.move rfl rfl still.literal.1 still.cache fun v e => (still.staged v e).2

/-- Without a snapshot there is nothing to restore. -/
lemma Still.messageSnapshot {m : Store.Row} (still : Still git s) (mem : m ∈ s.world.table.rows) :
    Store.messageSnapshot m = none := by
  rw [Store.messageSnapshot, still.plain m mem]
  rfl

/-- The anchor of a staged boundary is the index. -/
lemma Still.anchor {b : Store.Row} (still : Still git s) (staged : s.world.boundary = some b) :
    s.world.anchor = some s.world.repo.index ∧ AtRest git s.world.repo := by
  obtain ⟨v, e, _⟩ := Option.bind_eq_some_iff.mp staged
  rw [World.anchor, e]
  exact (still.staged v e).2

/-- Restoring the anchor changes nothing. -/
lemma Still.restoreTo {b : Store.Row} (still : Still git s) (staged : s.world.boundary = some b) :
    (World.restoreTo git s.world.repo s.world.anchor false).2 = s.world.repo := by
  obtain ⟨anchor, rest⟩ := still.anchor staged
  rw [anchor]
  exact rest.restore

/-- The anchor of an undo is the index of a repository at rest. -/
lemma Still.undoAnchor (still : Still git s) :
    (s.world.undoAnchor git).1 = (s.world.undoAnchor git).2.1.index ∧ AtRest git (s.world.undoAnchor git).2.1 ∧
      (s.world.undoAnchor git).2.1.worktree = s.world.repo.worktree ∧
      Literal (s.world.undoAnchor git).2.1.index := by
  unfold World.undoAnchor
  split
  next h e =>
    obtain ⟨v, staged, snapshot⟩ := Option.bind_eq_some_iff.mp e
    obtain ⟨_, index, rest⟩ := still.staged v staged
    exact ⟨Option.some.inj (snapshot.symm.trans index), rest, rfl, still.literal.1⟩
  next =>
    obtain ⟨rest, index⟩ : AtRest git (track git s.world.repo).2 ∧ _ := track_atRest still.literal still.cache
    obtain ⟨worktree, old | staged, -⟩ : (track git s.world.repo).2.worktree = s.world.repo.worktree ∧ _ := track_snd
    · exact ⟨index, rest, worktree, old ▸ still.literal.1⟩
    · exact ⟨index, rest, worktree, staged ▸ literal_staged still.literal⟩

/-- The target is a row. -/
lemma mem_of_undoTarget {rows : List Store.Row} {boundary : Option Store.Row} {m : Store.Row}
    (e : Store.undoTarget rows boundary = some m) : m ∈ rows := by
  have mem := List.mem_of_mem_head? (Option.filter_eq_some_iff.mp e).1
  rw [Store.undoCandidates, Store.orderByPosDesc, List.mem_reverse, Store.orderByPos, mem_sortOn] at mem
  exact List.mem_of_mem_filter mem

/-- Undo keeps it. -/
lemma Still.undo (still : Still git s) : Still git (s.move (s.world.undoSessionMessages git tree).2) := by
  unfold World.undoSessionMessages
  split
  next => exact still.rest
  next target e =>
    obtain ⟨index, rest, worktree, literal⟩ := still.undoAnchor
    rw [still.messageSnapshot (mem_of_undoTarget e)]
    apply still.move
    · rfl
    · exact worktree
    · exact literal
    · exact rest.cache
    · intro v e
      rw [← Option.some.inj e]
      exact ⟨congrArg some index, rest⟩

/-- Redo keeps it. -/
lemma Still.redo (still : Still git s) : Still git (s.move (s.world.redoSessionMessages git tree).2) := by
  unfold World.redoSessionMessages
  split
  next => exact still.rest
  next boundary staged =>
    split
    next =>
      rw [World.shifted, still.restoreTo staged]
      exact still.move rfl rfl still.literal.1 still.cache fun v e => by cases e
    next m e =>
      have mem : m ∈ s.world.table.rows := by
        have mem := List.mem_of_mem_head? e
        rw [Store.orderByPos, mem_sortOn] at mem
        exact List.mem_of_mem_filter mem
      obtain ⟨anchor, rest⟩ := still.anchor staged
      rw [still.messageSnapshot mem]
      refine still.move rfl rfl still.literal.1 still.cache fun v e => ?_
      rw [← Option.some.inj e]
      exact ⟨anchor, rest⟩

/-- Redoing all keeps it. -/
lemma Still.redoAll (still : Still git s) : Still git (s.move (s.world.redoAllSessionMessages git).2) := by
  unfold World.redoAllSessionMessages
  split
  next => exact still.rest
  next boundary staged =>
    rw [World.shifted, still.restoreTo staged]
    exact still.move rfl rfl still.literal.1 still.cache fun v e => by cases e

/-- A step keeps it. -/
lemma Still.step {d : Deed C} (still : Still git s) (st : Does git tree s d t) : Still git t := by
  cases st with
  | send first => exact still.save first fun _ => rfl
  | queue first => exact still.save first fun _ => rfl
  | turn first _ plain literal => exact still.write first plain literal
  | undo => exact still.undo
  | redo => exact still.redo
  | redoAll => exact still.redoAll

/-- Undo and redo move the workspace with the boundary exactly when there is nothing to move: the tracked files are
at the first undo as they were when the message at the boundary was sent. -/
theorem follows_iff {w₀ : Folder C} {ds : List (Deed C)} (literal : Literal w₀.files)
    (run : Run (Does git tree) (History.start w₀) ds s) : Follows git s ↔ Untouched git s := by
  have still : Still git s := run.invariant (still_start literal) Still.step
  constructor
  · intro follows b w w' staged chat sent first
    rw [← still.files w' first]
    exact follows.staged b w staged chat sent
  · intro untouched
    constructor
    · intro b w staged chat sent
      obtain ⟨v, e, _⟩ := Option.bind_eq_some_iff.mp staged
      obtain ⟨w', first⟩ := Option.ne_none_iff_exists'.mp (still.staged v e).1
      rw [still.files w' first]
      exact untouched b w w' staged chat sent first
    · intro w _ first
      rw [still.files w first]

end

/-! ### Two sessions -/

/-- A message was sent, and its turn left the content `c`. -/
def answered (c : Nat) : History Nat :=
  let asked := (History.start (only 1)).save (userRow "go on" [])
  asked.write asked.world.table (only c)

/-- The message is undone. -/
def undone (c : Nat) : History Nat :=
  (answered c).move ((answered c).world.undoSessionMessages plain fun _ => (only 0).files).2

/-- The name of the file does not begin with a colon. -/
lemma literal_only (c : Nat) : Literal (only c).files := by
  intro p stands
  have mem : p ∈ ({["f"]} : Finset Path) := ((only c).files.mem_paths p).mpr stands
  rw [Finset.mem_singleton.mp mem]
  decide

/-- A message, its turn, and an undo. -/
lemma undone_run (c : Nat) : Run (Does plain fun _ => (only 0).files) (History.start (only 1))
    [.send "go on" [], .turn (answered c).world.table (only c), .undo] (undone c) := by
  apply Run.cons (t := (History.start (only 1)).save (userRow "go on" []))
  · exact .send rfl
  · apply Run.cons (t := answered c)
    · refine .turn rfl le_rfl (fun r mem => ?_) (literal_only c)
      rw [List.mem_singleton.mp mem]
      rfl
    · exact .single .undo

/-- A turn without a change to the files is undone. -/
theorem idleTurn_follows : Follows plain (undone 1) ↔ Untouched plain (undone 1) :=
  follows_iff (by decide) (undone_run 1)

/-- The files of a turn that changed them stay as they are. -/
theorem undo_leavesFiles : ¬ ∀ (git : Git Nat) (tree : String → Files Nat) (w₀ : Folder Nat) (ds : List (Deed Nat))
    (s : History Nat), Run (Does git tree) (History.start w₀) ds s → Follows git s := by
  intro all
  have follows := all plain (fun _ => (only 0).files) (only 1) _ (undone 2) (undone_run 2)
  have same := follows.staged { userRow "go on" [] 1024 with id := 0 } (only 1) (by decide) rfl (by decide)
  exact absurd (congrArg (fun a => a.get? ["f"]) same) (by decide)

end OpenAgentd.Snapshot
