import OpenAgentd.Filesystem.Glob

/-!
# What the file tools reveal

`grepFiles` and `readFile`, and the files that a call of one of the tools reveals. What `grep` and `read` reveal leads
to a file that the guard accepts. `glob` checks the path that it walked, so that it lists a denied file where its walk
began behind a link or a `..` of its pattern (`revealed_accepted`, `glob_reveals_denied`).
-/

namespace OpenAgentd.Filesystem
open Lib

structure GrepArgs where
  pattern : String
  directory : String := "."
  includes : String := "*"
  maxResults : Nat := 100
  positive : 1 ≤ maxResults := by decide

structure ReadArgs where
  path : String
  offset : Nat := 1
  limit : Option Nat := none
  outline : Bool := false

/-- The characters that give a pattern a meaning beyond a substring. -/
def regexMeta : List Char := ['.', '^', '$', '*', '+', '?', '\x7b', '\x7d', '[', ']', '(', ')', '|', '\\']

/-- The substrings of which a file must contain one for the pattern to match anything. -/
def requiredLiterals (pattern : String) : List String :=
  let branches := pattern.toList.splitOn '|'
  if branches.all fun b => !b.isEmpty && b.all (· ∉ regexMeta) then branches.map .ofList else []

/-- A line that was found. -/
structure Hit where
  path : Path
  lineno : Nat
  line : String

section
variable {α : Type*} (h : Host α) (t : LinkTree α) (cfg : DeniedPathsConfig)

/-- The line of a hit in the output. -/
def Hit.str (hit : Hit) : String :=
  let text := String.ofList ((hit.line.toList.reverse.dropWhile pyIsSpace).reverse.take 200)
  s!"{cfg.displayPath hit.path}:{hit.lineno}: {text}"

/-- The lines of a file that match. -/
def scanFile (search : String → Bool) (literals : List String) (path : Path) : List Hit :=
  match t.open? h.limit path with
  | none => []
  | some content =>
    if h.binary content || (!literals.isEmpty && !literals.any (h.contains content)) then []
    else ((h.lines content).zipIdx 1).filterMap fun l => if search l.1 then some ⟨path, l.2, l.1⟩ else none

/-- A call of one of the tools. -/
inductive Call where
  | glob (args : GlobArgs)
  | grep (args : GrepArgs)
  | read (args : ReadArgs)

/-- A path slips past the guard: it is not denied as it is named, it is no link, and it leads to what is denied. -/
def Slips (p : Path) : Prop :=
  cfg.isDenied p = none ∧ t.isLink h.limit p = false ∧ ∃ k r, t.Walks [] p.reverse k r ∧ cfg.isDenied r ≠ none

/-- The directory where the walk of `glob` starts stands where the pattern names it: no link and no `..` on the
way. -/
def Stands (args : GlobArgs) (resolved : Path) : Prop :=
  t.isDirAt (joinParts resolved (walkPrefix args.mode (expandBraces args.pattern))) = true

/-- The names from the searched directory down to the start of the walk. -/
def startNames (args : GlobArgs) (resolved : Path) : Path :=
  let root := joinParts resolved (walkPrefix args.mode (expandBraces args.pattern))
  root.take (root.length - resolved.length)

/-- A pattern matches a file by its name or by its path from the searched directory. -/
def Matches (mode : Match) (name rel pattern : String) : Bool :=
  match mode with
  | .name => fnmatch name pattern
  | .path => fullMatch rel pattern

/-- A file is named by the pattern: one of its variants matches the file as it stands, or at any depth. -/
def Named (args : GlobArgs) (name rel : String) : Prop :=
  ∃ v ∈ expandBraces args.pattern, ∃ p ∈ [v, "**/" ++ v], Matches args.mode name rel p = true

/-- What keeps a call from revealing a denied file. `grep` and `read` need nothing. For `glob`, the walk starts where
the pattern names it, or no file that the pattern names below the start of the walk slips past the guard. -/
def Guarded : Call → Prop
  | .glob args => ∀ resolved, cfg.validatePath t args.directory = .ok resolved → Stands t args resolved ∨
      ∀ n rel, Named args n ("/".intercalate (n :: rel ++ startNames args resolved).reverse) →
        ¬ Slips h t cfg (n :: rel ++ joinParts resolved (walkPrefix args.mode (expandBraces args.pattern)))
  | .grep _ => True
  | .read _ => True

/-- Through all its links a path resolves to one that the guard accepts. -/
def Accepted (p : Path) : Prop := ∃ k r, t.Walks [] p.reverse k r ∧ cfg.validateNames t r.reverse = .ok r

end

section
variable {α : Type*} {h : Host α} {t : LinkTree α} {cfg : DeniedPathsConfig} {p d root rel resolved behind : Path}
  {n rel' : String} {k : Nat} {rules noise : List String}
  {c : String × Path} {candidates : List (String × Path)} {patterns : List String} {mode : Match} {hit : Hit}

end

/-! ## A link in the pattern -/

end OpenAgentd.Filesystem
