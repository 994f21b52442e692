import OpenAgentd.Lib.Written

/-!
# Moving a configuration

`export_config` (`cli/commands/export.py`) and `import_config` (`cli/commands/importcmd.py`). The export packs the
files of some directories and some files beside them; a file is one if its path leads to one, and it is stored as what
the path itself is. The import keeps the regular members of an archive, and writes each to the path that its name
resolves to.
-/

namespace OpenAgentd.Transfer
open OpenAgentd.Lib

/-- `ARCHIVE_ROOT` -/
def archiveRoot : List Char := "openagentd-export".toList

/-- `_TREE_DIRS` -/
def treeDirs : List String := ["agents", "skills", "commands", "plugins"]

/-- `_ROOT_FILES` -/
def rootFiles : List String := ["mcp.json", "settings.yaml", "server.yaml", "multimodal.yaml", ".env"]

/-- `_EXCLUDED_FILES` -/
def excludedFiles : List String := [".skill-lock.json", ".DS_Store"]

/-- A file with its inode and the number of the inode's names. -/
structure FileData where
  inode : Nat
  links : Nat
  content : List UInt8
deriving DecidableEq

/-- The tree that is exported, with names as a file system has them, and one file for each inode. -/
structure SourceTree extends LinkTree FileData where
  slashFree : ∀ n p, toLinkTree.get? (n :: p) ≠ none → '/' ∉ n.toList
  shared : ∀ p q f g, toLinkTree.get? p = some (.file (.file f)) → toLinkTree.get? q = some (.file (.file g)) →
    f.inode = g.inode → f = g

inductive MemberType where
  | regular
  | symlink
  | hardlink
  | other
deriving DecidableEq

/-- A member of an archive. -/
structure Member where
  name : List Char
  type : MemberType
  content : List UInt8
deriving DecidableEq

/-! ## Export -/

/-- `rel.as_posix()` -/
def asPosix (rel : Path) : List Char := ['/'].intercalate (rel.reverse.map String.toList)

/-- `f"{ARCHIVE_ROOT}/{rel.as_posix()}"` -/
def arcName (rel : Path) : List Char := archiveRoot ++ '/' :: asPosix rel

/-- `os.path.abspath` of an absolute path. -/
def absPath : Path → Path
  | [] => []
  | n :: p => if n = "" ∨ n = "." then absPath p else if n = ".." then (absPath p).tail else n :: absPath p

/-- The archive that is being written: its members, and the names that inodes were stored under. -/
structure TarFile where
  members : List Member := []
  inodes : Dict Nat (List Char) := .empty

namespace SourceTree

/-- `src.is_file()` -/
def isFile (src : SourceTree) (limit : Nat) (path : Path) : Bool := (src.open? limit path).isSome

/-- What `lstat` finds at a path. -/
def lstat (src : SourceTree) (limit : Nat) : Path → Option (Node (Entry FileData))
  | [] => some .dir
  | n :: p => (src.dir? limit p).bind fun d => src.get? (n :: d)

/-- `tf.add(path, arcname=name)`, for what is a file. The archive does not add itself. -/
def add (src : SourceTree) (limit : Nat) (archive path : Path) (name : List Char) (tf : TarFile) : TarFile :=
  if absPath path = archive then tf
  else
    match src.lstat limit path with
    | some (.file (.file data)) =>
      match tf.inodes.get? data.inode with
      | some other =>
        if 1 < data.links ∧ name ≠ other then { tf with members := tf.members ++ [⟨name, .hardlink, []⟩] }
        else { members := tf.members ++ [⟨name, .regular, data.content⟩], inodes := tf.inodes.set data.inode name }
      | none => { members := tf.members ++ [⟨name, .regular, data.content⟩], inodes := tf.inodes.set data.inode name }
    | some (.file (.link _)) => { tf with members := tf.members ++ [⟨name, .symlink, []⟩] }
    | _ => tf

/-- The nodes below a directory, by their paths from there. -/
def below (src : SourceTree) (d : Path) : List Path :=
  src.tree.nodes.keys.filterMap fun q => if d <:+ q ∧ q ≠ d then some (q.take (q.length - d.length)) else none

/-- `sorted(src_dir.rglob("*"))`, where links to directories are not followed. -/
def rglob (src : SourceTree) (d : Path) : List Path :=
  (src.below d).mergeSort fun p q => ¬ q.reverse < p.reverse

/-- The files of a tree directory that are packed. -/
def treeFiles (src : SourceTree) (limit : Nat) (configDir : Path) (dirName : String) : List Path :=
  match src.dir? limit (dirName :: configDir) with
  | none => []
  | some d =>
    ((src.rglob d).filter fun rel =>
      src.isFile limit (rel ++ dirName :: configDir) && !(rel ++ dirName :: configDir).contains "__pycache__" &&
        !(rel.head?.any fun name => ".pyc".toList.isSuffixOf name.toList)).map (· ++ [dirName])

/-- The files that are packed, in their order. -/
def packed (src : SourceTree) (limit : Nat) (configDir : Path) : List Path :=
  treeDirs.flatMap (src.treeFiles limit configDir) ++
    ((rootFiles.filter fun name => !excludedFiles.contains name && src.isFile limit (name :: configDir)).map fun name => [name])

/-- One packed file, redacted where it has secrets. -/
def packOne (src : SourceTree) (limit : Nat) (archive configDir : Path) (includeSecrets : Bool)
    (redact : String → List UInt8 → List UInt8) (tf : TarFile) (rel : Path) : TarFile :=
  let secret : Option String := if rel = [".env"] then some ".env" else if rel = ["server.yaml"] then some "server.yaml" else none
  match secret, src.open? limit (rel ++ configDir) with
  | some filename, some data =>
    if includeSecrets then src.add limit archive (rel ++ configDir) (arcName rel) tf
    else { tf with members := tf.members ++ [⟨arcName rel, .regular, redact filename data.content⟩] }
  | _, _ => src.add limit archive (rel ++ configDir) (arcName rel) tf

end SourceTree

structure ExportResult where
  members : List Member
  filesPacked : List Path

/-- `export_config`, with the archive already in the tree if it is written into it. -/
def exportConfig (src : SourceTree) (limit : Nat) (archive configDir : Path) (includeSecrets : Bool)
    (redact : String → List UInt8 → List UInt8) : ExportResult :=
  let packed := src.packed limit configDir
  { members := (packed.foldl (src.packOne limit archive configDir includeSecrets redact) {}).members
    filesPacked := packed.mergeSort fun p q => ¬ asPosix q < asPosix p }

/-! ## Import -/

/-- `m.name[len(ARCHIVE_ROOT) + 1:]` -/
def Member.relStr (m : Member) : List Char := m.name.drop (archiveRoot.length + 1)

/-- The names between the slashes. -/
def relNames (rel : List Char) : List String := (rel.splitOn '/').map String.ofList

/-- `(config_dir / rel_str).resolve()`: an absolute path replaces the directory. -/
def target (t : LinkTree (List UInt8)) (root : Path) (rel : List Char) : Path :=
  if rel.head? = some '/' then t.realpath (relNames rel) else t.realpath (root.reverse ++ relNames rel)

/-- Why an archive is rejected. -/
def Rejects (t : LinkTree (List UInt8)) (root : Path) (files : List Member) : Prop :=
  files = [] ∨ (∃ m ∈ files, ¬ archiveRoot ++ ['/'] <+: m.name) ∨
    ∃ m ∈ files, ".." ∈ relNames m.relStr ∨ ¬ root <:+ target t root m.relStr

instance (t : LinkTree (List UInt8)) (root : Path) (files : List Member) : Decidable (Rejects t root files) :=
  inferInstanceAs (Decidable (_ ∨ _ ∨ _))

/-- The extraction so far. -/
structure Extraction where
  tree : LinkTree (List UInt8)
  filesWritten : List (List Char) := []
  filesSkipped : List (List Char) := []
  failed : Bool := false

/-- `target.parent.mkdir(parents=True, exist_ok=True)` and `target.write_bytes(f.read())`. -/
def writeMember (s : Extraction) (m : Member) (target : Path) : Extraction :=
  if (s.tree.mkdirs target.tail).2 then
    match (s.tree.mkdirs target.tail).1.write m.content target with
    | some tree => { s with tree, filesWritten := s.filesWritten ++ [m.relStr] }
    | none => { s with tree := (s.tree.mkdirs target.tail).1, failed := true }
  else { s with tree := (s.tree.mkdirs target.tail).1, failed := true }

/-- One member, unless the system has refused one before. -/
def extractOne (limit : Nat) (root : Path) (force : Bool) (s : Extraction) (m : Member) : Extraction :=
  if s.failed then s
  else if (s.tree.stat? limit (target s.tree root m.relStr)).isSome && !force then
    { s with filesSkipped := s.filesSkipped ++ [m.relStr] }
  else writeMember s m (target s.tree root m.relStr)

/-- How an import ends: with a `ValueError`, with an error of the system, or with its result. -/
inductive Outcome where
  | rejected
  | failed
  | done (filesWritten filesSkipped : List (List Char))
deriving DecidableEq

/-- The regular members, extracted one by one. -/
def extraction (t : LinkTree (List UInt8)) (limit : Nat) (root : Path) (force : Bool) (files : List Member) : Extraction :=
  files.foldl (extractOne limit root force) { tree := t }

/-- `[m for m in members if m.isfile()]` -/
def fileMembers (members : List Member) : List Member := members.filter (·.type = .regular)

/-- `import_config`. What is no archive has no members. -/
def importConfig (t : LinkTree (List UInt8)) (limit : Nat) (archive : Option (List Member)) (configDir : Path)
    (force : Bool) : LinkTree (List UInt8) × Outcome :=
  match archive with
  | none => (t, .rejected)
  | some members =>
    let root := t.realpath configDir.reverse
    if Rejects t root (fileMembers members) then (t, .rejected)
    else
      let s := extraction t limit root force (fileMembers members)
      (s.tree, if s.failed then .failed else .done s.filesWritten s.filesSkipped)

end OpenAgentd.Transfer
