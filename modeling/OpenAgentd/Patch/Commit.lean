import Mathlib.Data.List.Sort
import OpenAgentd.Lib.Attempt
import OpenAgentd.Patch.Envelope

/-!
# Committing an envelope

The second half of `_apply_patch`: the changed files are staged beside their places, every path that was read is
checked again, the deleted files go, and the staged ones are moved to their places. Each of the four keeps a record
of its own (`Commit`), and an exception anywhere undoes what the records say (`rollback`): `_stage_file`,
`_ensure_parent`, `_assert_snapshot`, `_cleanup_paths`, `_atomic_write` and `_cleanup_empty_dirs` of the source.

The rollback's own calls succeed: there `fails` is not asked.
-/

namespace OpenAgentd.Patch
open OpenAgentd.Lib

/-- The names `tempfile.mkstemp` finds beside a path: they are not taken. -/
structure TempNames where
  name : FileTree VirtualFile → Path → String
  fresh : ∀ (t : FileTree VirtualFile) (path : Path), t.get? (name t path :: path.tail) = none

/-- The temporary file beside a path. -/
def TempNames.beside (temps : TempNames) (t : FileTree VirtualFile) (path : Path) : Path :=
  temps.name t path :: path.tail

/-- The tree and the records of the `try` block. -/
structure Commit where
  tree : FileTree VirtualFile
  staged : List (Path × Path) := []
  createdDirs : List Path := []
  applied : List Path := []

/-- `_ensure_parent`. -/
def ensureParent (fails : Call → Bool) (path : Path) (c : Commit) : Commit × Option PatchError :=
  let missing := c.tree.missing path.tail
  match FileTree.mkdirs (fun d => fails (.mkdir d)) c.tree path.tail with
  | (t, true) => ({ c with tree := t, createdDirs := c.createdDirs ++ missing }, none)
  | (t, false) => ({ c with tree := t }, some .os)

/-- `_stage_file`: the tree, and the temporary file unless it has raised. -/
def stageFile (temps : TempNames) (fails : Call → Bool) (path : Path) (file : VirtualFile)
    (t : FileTree VirtualFile) : FileTree VirtualFile × Option Path :=
  match FileTree.mkdirs (fun d => fails (.mkdir d)) t path.tail with
  | (t, false) => (t, none)
  | (t, true) =>
    let tmp := temps.beside t path
    if fails (.mkstemp path) then (t, none)
    else
      match t.write { content := .empty, mode := 0o600 } tmp with
      | none => (t, none)
      | some made =>
        -- the handle is open: a failed write removes the file again
        if fails (.writeTemp path) then ((made.unlink tmp).getD made, none)
        else
          match made.write file tmp with
          | none => ((made.unlink tmp).getD made, none)
          | some written => (written, some tmp)

/-- The loop that stages the changed files. -/
def stageOne (temps : TempNames) (fails : Call → Bool) (v : Path × VirtualFile) (c : Commit) :
    Commit × Option PatchError :=
  andThen (ensureParent fails v.1 c) fun c =>
    match stageFile temps fails v.1 v.2 c.tree with
    | (t, some tmp) => ({ c with tree := t, staged := c.staged ++ [(v.1, tmp)] }, none)
    | (t, none) => ({ c with tree := t }, some .os)

/-- `_assert_snapshot`. -/
def assertSnapshot (fails : Call → Bool) (t : FileTree VirtualFile) (path : Path) (expected : Option VirtualFile) :
    Option PatchError :=
  match expected, t.get? path with
  | none, none => none
  | none, some _ => some (.created path)
  | some f, some (.file g) =>
    if fails (.recheck path) then some .os else if g = f then none else some (.changed path)
  | some _, _ => some (.removed path)

/-- The loop that checks what was read. -/
def recheckOne (fails : Call → Bool) (e : Path × Option VirtualFile) (c : Commit) : Commit × Option PatchError :=
  (c, assertSnapshot fails c.tree e.1 e.2)

/-- The loop that removes the old names. -/
def removeOne (fails : Call → Bool) (path : Path) (c : Commit) : Commit × Option PatchError :=
  if c.tree.get? path = none then (c, none)
  else if fails (.unlink path) then (c, some .os)
  else
    match c.tree.unlink path with
    | none => (c, some .os)
    | some t => ({ c with tree := t, applied := c.applied ++ [path] }, none)

/-- The loop that moves the staged files to their places. -/
def installOne (fails : Call → Bool) (e : Path × Path) (c : Commit) : Commit × Option PatchError :=
  if fails (.replace e.1) then (c, some .os)
  else
    match c.tree.replace e.2 e.1 with
    | none => (c, some .os)
    | some t => ({ c with tree := t, applied := c.applied ++ [e.1] }, none)

/-- The `try` block. -/
def commit (temps : TempNames) (fails : Call → Bool) (P : Planning) (c : Commit) : Commit × Option PatchError :=
  andThen (forEach (stageOne temps fails) P.writes c) fun c =>
    andThen (forEach (recheckOne fails) P.original.entries c) fun c =>
      andThen (forEach (removeOne fails) P.deletes c) fun c =>
        forEach (installOne fails) c.staged c

/-- `_cleanup_paths`. -/
def cleanupPaths (paths : List Path) (t : FileTree VirtualFile) : FileTree VirtualFile :=
  paths.foldl (fun t path => (t.unlink path).getD t) t

/-- `_atomic_write` of the rollback. -/
def atomicWrite (temps : TempNames) (path : Path) (file : VirtualFile) (t : FileTree VirtualFile) :
    FileTree VirtualFile :=
  match stageFile temps (fun _ => false) path file t with
  | (t, none) => t
  | (t, some tmp) => (t.replace tmp path).getD ((t.unlink tmp).getD t)

/-- One path of the rollback. -/
def restore (temps : TempNames) (P : Planning) (t : FileTree VirtualFile) (path : Path) : FileTree VirtualFile :=
  match P.before path with
  | none => (t.unlink path).getD t
  | some file => atomicWrite temps path file t

/-- `_cleanup_empty_dirs`: the deepest directories first. -/
def cleanupEmptyDirs (paths : List Path) (t : FileTree VirtualFile) : FileTree VirtualFile :=
  (paths.insertionSort fun a b => b.length ≤ a.length).foldl (fun t path => (t.rmdir path).getD t) t

/-- The `except` block. -/
def rollback (temps : TempNames) (P : Planning) (c : Commit) : FileTree VirtualFile :=
  cleanupEmptyDirs c.createdDirs <|
    c.applied.reverse.foldl (restore temps P) (cleanupPaths (c.staged.map Prod.snd) c.tree)

/-- How a patch ends: the tree, the paths that were removed or replaced, and the exception. -/
structure Outcome where
  tree : FileTree VirtualFile
  applied : List Path
  error : Option PatchError

end OpenAgentd.Patch
