import OpenAgentd.Lib.Folder

/-!
# The snapshot service

`track` stages the workspace into the index of the session's snapshot repository and writes the index as a tree,
`restore` stages once more and makes the workspace differ from the tree no more than it has to, and removes the
directories that this empties. A hash stands for the tree it names. What git reads off its ignore files and how it
expands a pathspec are its own.
-/

namespace OpenAgentd.Snapshot
open Lib

/-- What git decides about paths: those its ignore files hide, the wildcards of a pathspec, and what a list of
pathspecs selects in which one begins with a colon. -/
structure Git (C : Type*) where
  ignored : Files C → Path → Bool
  glob : Path → Path → Bool
  magic : Finset Path → Path → Bool
  size : C → Nat

/-- `_MAX_FILE_SIZE` -/
def maxFileSize : Nat := 2 * 1024 * 1024

section
variable {C : Type*} (git : Git C) (index worktree : Files C)

/-- A file that the ignore files do not hide. -/
def Visible (p : Path) : Prop := worktree.get? p ≠ none ∧ git.ignored worktree p = false

instance (p : Path) : Decidable (Visible git worktree p) :=
  inferInstanceAs (Decidable (_ ∧ git.ignored worktree p = false))

/-- A file of at most `_MAX_FILE_SIZE`. -/
def Small (p : Path) : Prop := ∃ c ∈ worktree.get? p, git.size c ≤ maxFileSize

instance (p : Path) : Decidable (Small git worktree p) :=
  inferInstanceAs (Decidable (∃ c ∈ worktree.get? p, _))

/-- `diff-files --name-only`: the paths of the index whose file is another one or gone. -/
def diffFiles [DecidableEq C] : Finset Path := index.paths.filter fun p => worktree.get? p ≠ index.get? p

/-- `ls-files --others --exclude-standard`: the files that are neither in the index nor hidden. -/
def lsOthers : Finset Path :=
  worktree.paths.filter fun p => index.get? p = none ∧ git.ignored worktree p = false

/-- `_list_candidate_paths` -/
def listCandidatePaths [DecidableEq C] : Finset Path :=
  diffFiles index worktree ∪ (lsOthers git index worktree).filter (Small git worktree)

/-- A path that begins with a colon. -/
def Magic (p : Path) : Prop := ∃ name ∈ p.getLast?, name.toList.head? = some ':'

instance (p : Path) : Decidable (Magic p) := inferInstanceAs (Decidable (∃ name ∈ p.getLast?, _))

/-- No path of the files begins with a colon. -/
def Literal : Prop := ∀ p, worktree.get? p ≠ none → ¬ Magic p

instance : Decidable (Literal worktree) :=
  decidable_of_iff (∀ p ∈ worktree.paths, ¬ Magic p) (forall_congr' fun p => imp_congr_left (worktree.mem_paths p))

/-- The paths that a list of pathspecs selects: those named, all below them, and those a wildcard matches. -/
def Selected (specs : Finset Path) (p : Path) : Prop :=
  if ∃ c ∈ specs, Magic c then git.magic specs p = true else ∃ c ∈ specs, c <:+ p ∨ git.glob c p = true

instance (specs : Finset Path) (p : Path) : Decidable (Selected git specs p) :=
  inferInstanceAs (Decidable (if ∃ c ∈ specs, Magic c then git.magic specs p = true else ∃ c ∈ specs, _))

/-- `git add --all`: what is selected and in the index already, or not hidden, goes into the index as it stands. -/
def add (specs : Finset Path) : Files C :=
  (index.filter fun p => ¬ Selected git specs p).lay
    (worktree.filter fun p => Selected git specs p ∧ (index.get? p ≠ none ∨ git.ignored worktree p = false))

/-- `_stage` -/
def stage (paths : Finset Path) : Files C := if paths = ∅ then index else add git index worktree paths

end

/-- The repository of a session beside its workspace, and `_last_hashes` of the two. -/
structure Repo (C : Type*) where
  worktree : Folder C
  initialised : Bool
  index : Files C
  trees : List (Files C)
  lastHash : Option (Files C)

/-- `RestoreResult` -/
structure RestoreResult where
  ok : Bool
  added : Finset Path := ∅
  modified : Finset Path := ∅
  removed : Finset Path := ∅

section
variable {C : Type*} [DecidableEq C]

/-- `git write-tree`, with the cache filled. -/
def Repo.writeTree (r : Repo C) : Files C × Repo C :=
  (r.index, { r with trees := r.index :: r.trees, lastHash := some r.index })

/-- The index with the paths that `_list_candidate_paths` lists staged. -/
def Repo.staged (git : Git C) (r : Repo C) : Files C :=
  stage git r.index r.worktree.files (listCandidatePaths git r.index r.worktree.files)

/-- `track` -/
def track (git : Git C) (r : Repo C) : Files C × Repo C :=
  let r := { r with initialised := true }
  if listCandidatePaths git r.index r.worktree.files = ∅ then
    match r.lastHash with
    | some snapshotHash => (snapshotHash, r)
    | none => r.writeTree
  else Repo.writeTree { r with index := r.staged git }

/-- The paths of `diff-index -R --cached` with the status `A`. -/
def addedPaths (snapshot index : Files C) : Finset Path := snapshot.paths.filter fun p => index.get? p = none

/-- The paths with the status `M` or `T`. -/
def modifiedPaths (snapshot index : Files C) : Finset Path :=
  snapshot.paths.filter fun p => index.get? p ≠ none ∧ index.get? p ≠ snapshot.get? p

/-- The paths with the status `D`. -/
def deletedPaths (snapshot index : Files C) : Finset Path := index.paths.filter fun p => snapshot.get? p = none

/-- `checkout-index -f` of paths of a tree. -/
def checkoutIndex (snapshot : Files C) (worktree : Folder C) (paths : Finset Path) : Folder C :=
  worktree.lay (snapshot.filter (· ∈ paths))

/-- `parent_dirs` -/
def parentDirs (extras : Finset Path) : Finset Path := (Folder.above extras).erase []

/-- `_delete_extras`. What is a directory by now is not unlinked. -/
def deleteExtras (worktree : Folder C) (extras : Finset Path) : Folder C :=
  (worktree.unlink extras).rmdirs (parentDirs extras) ((parentDirs extras).sup List.length)

/-- `restore` -/
def restore (git : Git C) (r : Repo C) (snapshot : Files C) (skipStage : Bool) : RestoreResult × Repo C :=
  if r.initialised = false then ({ ok := false }, r)
  else
    let r := if skipStage then r else { r with index := r.staged git }
    if snapshot ∉ r.trees then ({ ok := false }, r)
    else
      let added := addedPaths snapshot r.index
      let modified := modifiedPaths snapshot r.index
      let toDelete := deletedPaths snapshot r.index
      let checkedOut := checkoutIndex snapshot r.worktree (added ∪ modified)
      ({ ok := true, added := added, modified := modified, removed := toDelete },
        { r with worktree := deleteExtras checkedOut toDelete })

end

section
variable {C : Type*} [DecidableEq C] {git : Git C} {index worktree snapshot : Files C} {p : Path} {r : Repo C}
  {specs : Finset Path}

/-- What differs from the index. -/
lemma mem_diffFiles : p ∈ diffFiles index worktree ↔ index.get? p ≠ none ∧ worktree.get? p ≠ index.get? p := by
  rw [diffFiles, Finset.mem_filter, index.mem_paths]

omit [DecidableEq C] in
/-- What the index has not. -/
lemma mem_lsOthers : p ∈ lsOthers git index worktree ↔ Visible git worktree p ∧ index.get? p = none := by
  rw [lsOthers, Finset.mem_filter, worktree.mem_paths, Visible]
  tauto

/-- What is listed: changes, and new files within the limit. -/
lemma mem_listCandidatePaths : p ∈ listCandidatePaths git index worktree ↔
    index.get? p ≠ none ∧ worktree.get? p ≠ index.get? p ∨
      Visible git worktree p ∧ index.get? p = none ∧ Small git worktree p := by
  rw [listCandidatePaths, Finset.mem_union, Finset.mem_filter, mem_diffFiles, mem_lsOthers, and_assoc]

omit [DecidableEq C] in
/-- Without a colon in front a path selects itself. -/
lemma Selected.self (literal : ∀ c ∈ specs, ¬ Magic c) (mem : p ∈ specs) : Selected git specs p := by
  unfold Selected
  rw [if_neg fun ⟨c, h, magic⟩ => literal c h magic]
  exact ⟨p, mem, .inl List.suffix_rfl⟩

omit [DecidableEq C] in
/-- An empty list selects nothing. -/
lemma not_selected_empty : ¬ Selected git ∅ p := by
  unfold Selected
  rw [if_neg fun ⟨c, mem, _⟩ => Finset.notMem_empty c mem]
  rintro ⟨c, mem, _⟩
  exact Finset.notMem_empty c mem

/-- What is listed begins with no colon, where no path does. -/
lemma Literal.listed (index_ : Literal index) (worktree_ : Literal worktree) :
    ∀ c ∈ listCandidatePaths git index worktree, ¬ Magic c := by
  intro c mem
  cases mem_listCandidatePaths.mp mem with
  | inl changed => exact index_ c changed.1
  | inr new => exact worktree_ c new.1.1

/-- The paths of which the index has a file behind staging. -/
def Tracked (git : Git C) (index worktree : Files C) (p : Path) : Prop :=
  index.get? p ≠ none ∨ Visible git worktree p ∧ Selected git (listCandidatePaths git index worktree) p

/-- What is in the index and not listed stands in the workspace as it is in the index. -/
lemma get?_of_not_selected (literal : ∀ c ∈ listCandidatePaths git index worktree, ¬ Magic c) (unlisted : ¬ Selected git (listCandidatePaths git index worktree) p)
    (listed : index.get? p ≠ none) : worktree.get? p = index.get? p := by
  by_contra differs
  apply unlisted
  apply Selected.self literal
  exact mem_listCandidatePaths.mpr (.inl ⟨listed, differs⟩)

/-- Adding puts the workspace's own files at the tracked paths. -/
lemma add_of_tracked (literal : ∀ c ∈ listCandidatePaths git index worktree, ¬ Magic c) (tracked : Tracked git index worktree p) :
    (add git index worktree (listCandidatePaths git index worktree)).get? p = worktree.get? p := by
  unfold add
  by_cases selected : Selected git (listCandidatePaths git index worktree) p
  · have taken : index.get? p ≠ none ∨ git.ignored worktree p = false := tracked.imp_right fun h => h.1.2
    by_cases gone : worktree.get? p = none
    · rw [gone]
      rw [Files.lay]
      dsimp only
      split
      · rw [Files.filter_of ⟨selected, taken⟩, gone]
      · exact Files.filter_of_not (not_not.mpr selected)
    · rw [Files.lay_of_mem (Files.filter_ne_none.mpr ⟨⟨selected, taken⟩, gone⟩)]
      exact Files.filter_of ⟨selected, taken⟩
  · have listed : index.get? p ≠ none := tracked.resolve_right fun h => selected h.2
    have same := get?_of_not_selected literal selected listed
    rw [Files.lay_of_not_meets, Files.filter_of selected, same]
    intro meets
    -- A new file in the way of `p` would stand in the way of the workspace's own file.
    have new := Files.Meets.mem (fun q h => (Files.filter_ne_none.mp h).2) (same ▸ listed) meets
    exact selected (Files.filter_ne_none.mp new).1.1

/-- Adding leaves nothing at the other paths. -/
lemma add_of_not_tracked (untracked : ¬ Tracked git index worktree p) :
    (add git index worktree (listCandidatePaths git index worktree)).get? p = none := by
  have unlisted : index.get? p = none := not_not.mp fun h => untracked (.inl h)
  unfold add
  rw [Files.lay]
  dsimp only
  split
  · by_contra new
    obtain ⟨⟨selected, taken⟩, stands⟩ := Files.filter_ne_none.mp new
    exact untracked (.inr ⟨⟨stands, taken.resolve_left (not_not.mpr unlisted)⟩, selected⟩)
  · rw [Files.get?_filter, unlisted, ite_self]

/-- No path of the workspace or of the index begins with a colon. -/
def Repo.Plain (r : Repo C) : Prop := Literal r.index ∧ Literal r.worktree.files

/-- Staging leaves in the index the workspace's own files at the tracked paths. -/
lemma staged_of_tracked (plain : r.Plain) (tracked : Tracked git r.index r.worktree.files p) :
    (r.staged git).get? p = r.worktree.files.get? p := by
  have literal : ∀ c ∈ listCandidatePaths git r.index r.worktree.files, ¬ Magic c := Literal.listed plain.1 plain.2
  unfold Repo.staged stage
  split
  next clean =>
    have unselected : ¬ Selected git (listCandidatePaths git r.index r.worktree.files) p := by
      rw [clean]
      exact not_selected_empty
    exact (get?_of_not_selected literal unselected (tracked.resolve_right fun h => unselected h.2)).symm
  next => exact add_of_tracked literal tracked

/-- Staging leaves nothing in the index at the other paths. -/
lemma staged_of_not_tracked (untracked : ¬ Tracked git r.index r.worktree.files p) : (r.staged git).get? p = none := by
  unfold Repo.staged stage
  split
  next => exact not_not.mp fun h => untracked (.inl h)
  next => exact add_of_not_tracked untracked

/-- Staging leaves in the index the tracked paths that stand. -/
lemma staged_ne_none (plain : r.Plain) : (r.staged git).get? p ≠ none ↔
    Tracked git r.index r.worktree.files p ∧ r.worktree.files.get? p ≠ none := by
  by_cases tracked : Tracked git r.index r.worktree.files p
  · rw [staged_of_tracked plain tracked]
    exact ⟨fun h => ⟨tracked, h⟩, And.right⟩
  · rw [staged_of_not_tracked tracked]
    exact ⟨fun h => absurd rfl h, fun h => absurd h.1 tracked⟩

/-- A visible file within the limit is tracked. -/
lemma Tracked.covered (literal : ∀ c ∈ listCandidatePaths git index worktree, ¬ Magic c)
    (visible : Visible git worktree p) (small : Small git worktree p) : Tracked git index worktree p := by
  by_cases unlisted : index.get? p = none
  · apply Or.inr
    refine ⟨visible, .self literal ?_⟩
    exact mem_listCandidatePaths.mpr (.inr ⟨visible, unlisted, small⟩)
  · exact .inl unlisted

end

end OpenAgentd.Snapshot
