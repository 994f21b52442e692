import OpenAgentd.Filesystem.Denied
import OpenAgentd.Lib.Ordered
import OpenAgentd.Schemas.Chat
import Mathlib.Data.Prod.Lex
import Mathlib.Data.String.Basic

/-!
# The glob tool

`globFiles` lists the files below a directory that a pattern selects. The walk starts at the literal prefix of the
pattern, prunes what is ignored, and its files are matched by name; only what is listed in the end is checked against
the guard.
-/

namespace OpenAgentd.Filesystem
open Lib

/-- What the kind of a file is told from. -/
inductive Category where
  | image
  | document
  | text
  deriving DecidableEq

/-- What the tools use of the host: the number of links the system follows, decoders, engines and converters. -/
structure Host (α : Type*) where
  limit : Nat
  /-- The lines of a file that is valid UTF-8. -/
  text : α → Option (List String)
  /-- The lines of a file, with invalid bytes replaced. -/
  lines : α → List String
  /-- A NUL in the first block. -/
  binary : α → Bool
  contains : α → String → Bool
  size : α → Nat
  /-- `PathSpec.match_file` of the lines of a `.gitignore`. -/
  pathspec : List String → String → Bool
  /-- `re.compile`, and the search of a line. -/
  regex : String → Option (String → Bool)
  /-- `repr` of a text. -/
  quoted : String → String
  outline : α → Except String String
  /-- What `read` makes of the content of a file of a category, from a line on and for so many lines. -/
  render : Category → Nat → Option Nat → α → Except String String

/-- Trees that are machine-generated and never searched. -/
def noiseDirNames : List String :=
  [".git", "node_modules", ".venv", "venv", "__pycache__", ".mypy_cache", ".ruff_cache", ".pytest_cache", ".tox",
    ".nox", ".next", ".nuxt", ".svelte-kit", ".turbo", ".parcel-cache", ".gradle", ".terraform"]

/-- A line of a `.gitignore` that is a rule. -/
def isRule (line : String) : Bool :=
  match line.toList.dropWhile pyIsSpace with
  | [] => false
  | '#' :: _ => false
  | '!' :: s => s.any fun c => !pyIsSpace c
  | _ => true

section
variable {α : Type*} (h : Host α) (t : LinkTree α)

/-- The rules of the `.gitignore` in a directory. -/
def loadGitignoreRules (root : Path) : List String :=
  match (t.open? h.limit (".gitignore" :: root)).bind h.text with
  | some lines => lines.filter isRule
  | none => []

/-- Whether the rules ignore a path. -/
def isGitignored (rules : List String) (rel : String) (isDir : Bool) : Bool :=
  if rel = "" ∨ rules = [] then false
  else h.pathspec rules (if isDir && rel.toList.getLast? ≠ some '/' then rel ++ "/" else rel)

end

/-! ## Patterns -/

/-- How a pattern is matched. -/
inductive Match where
  | path
  | name
  deriving DecidableEq

structure GlobArgs where
  pattern : String
  directory : String := "."
  mode : Match := .path
  maxResults : Nat := 200
  positive : 1 ≤ maxResults := by decide

/-- `_MAX_BRACE_VARIANTS`. -/
def maxBraceVariants : Nat := 64

/-- The body of a brace that is opened `depth` deep and what follows the closing one. -/
def braceBody : Nat → List Char → Option (List Char × List Char)
  | _, [] => none
  | depth, c :: s =>
    if c = '\x7d' ∧ depth = 1 then some ([], s)
    else
      let depth := if c = '\x7b' then depth + 1 else if c = '\x7d' then depth - 1 else depth
      (braceBody depth s).map fun b => (c :: b.1, b.2)

/-- The options between the commas that stand in no brace. -/
def braceOptions : Nat → List Char → List Char → List (List Char)
  | _, current, [] => [current]
  | depth, current, c :: s =>
    let depth := if c = '\x7b' then depth + 1 else if c = '\x7d' then depth - 1 else depth
    if c = ',' ∧ depth = 0 then current :: braceOptions depth [] s
    else braceOptions depth (current ++ [c]) s

/-- The concrete patterns of one with alternations, of which there are at most `k` left. -/
def expandBracesOf : Nat → List Char → List (List Char)
  | 0, pattern => [pattern]
  | k + 1, pattern =>
    let before := pattern.takeWhile (· ≠ '\x7b')
    match (pattern.drop (before.length + 1) |> braceBody 1) with
    | none => [pattern]
    | some (body, suffix) =>
      let options := braceOptions 0 [] body
      if options.length = 1 then [pattern]
      else
        let expanded := options.flatMap fun option => expandBracesOf k (before ++ option ++ suffix)
        expanded.eraseDups.take maxBraceVariants

/-- Shell-style alternations expanded into concrete patterns. -/
def expandBraces (pattern : String) : List String :=
  (expandBracesOf (pattern.toList.count '\x7b') pattern.toList).map .ofList

/-- The parts of a path text, with the root as the first one. -/
def purePathParts (s : String) : List String :=
  (match s.toList with
    | '/' :: '/' :: '/' :: _ => ["/"]
    | '/' :: '/' :: _ => ["//"]
    | '/' :: _ => ["/"]
    | _ => []) ++ pathParts s

/-- The generated directories that the patterns name. -/
def explicitlyNamedNoiseDirs (patterns : List String) : List String :=
  (patterns.flatMap purePathParts).filter (· ∈ noiseDirNames)

/-- A part of a pattern without a wildcard. -/
def isLiteral (part : String) : Bool := part.toList.all fun c => c ∉ ['*', '?', '[', ']']

/-- The leading directories of a pattern that have no wildcard. -/
def literalDirPrefix (pattern : String) : List String :=
  let parts := purePathParts pattern
  if parts.all isLiteral then parts.dropLast else parts.takeWhile isLiteral

/-- The parts that two paths have in common at their beginning. -/
def commonParts : List String → List String → List String
  | a :: s, b :: s' => if a = b then a :: commonParts s s' else []
  | _, _ => []

/-- The deepest directory common to all variants. -/
def sharedPrefix : List (List String) → List String
  | [] => []
  | p :: ps => ps.foldl commonParts p

/-- Dot-prefixed paths come last. -/
def rank (dotted : Bool) (s : String) : Nat ×ₗ String := toLex (dotted.toNat, s)

/-- A path is dotted if one of its parts is. -/
def isDotted (rel : String) : Bool := (rel.toList.splitOn '/').any fun part => part.head? = some '.'

section
variable {α : Type*} (h : Host α) (t : LinkTree α) (cfg : DeniedPathsConfig)

/-- Every directory on the way down to the prefix is visible. -/
def prefixIsReachable (rules allowedNoise parts : List String) : Bool :=
  (List.range parts.length).all fun i =>
    !(parts[i]?.any fun name => name ∈ noiseDirNames ∧ name ∉ allowedNoise) &&
      !isGitignored h rules ("/".intercalate (parts.take (i + 1))) true

/-- `base / parts`. -/
def joinParts (base : Path) (parts : List String) : Path :=
  if parts.head? = some "/" ∨ parts.head? = some "//" then parts.tail.reverse else parts.reverse ++ base

/-- The files below `root`, which leads to the directory `d`, that may be reported: their paths from the search root,
whose names down to `root` are `behind`, and the paths as they were walked. -/
def visibleFiles (rules allowedNoise : List String) (behind root d : Path) : List (String × Path) :=
  let relName := fun (rel : Path) (name : String) => "/".intercalate (name :: rel ++ behind).reverse
  let keep := fun rel (names : List String) =>
    sortOn (fun name => rank (name.toList.head? = some '.') name) <| names.filter fun name =>
      (name ∉ noiseDirNames ∨ name ∈ allowedNoise) ∧ !isGitignored h rules (relName rel name) true
  (t.walk h.limit keep d t.tree.nodes.keys.length []).flatMap fun dir =>
    ((sortOn id dir.2).filter fun name => !isGitignored h rules (relName dir.1 name) false).map fun name =>
      (relName dir.1 name, name :: dir.1 ++ root)

/-- The candidates that match one of the patterns. -/
def select (mode : Match) (candidates : List (String × Path)) (patterns : List String) : List (String × Path) :=
  let hit :=
    match mode with
    | .name => candidates.filter fun c => patterns.any fun p => (c.2.head?.any fun name => fnmatch name p)
    | .path =>
      if patterns.any fun p => p.toList.getLast? = some '/' then []
      else candidates.filter fun c => patterns.any (fullMatch c.1)
  sortOn (fun c => rank (isDotted c.1) c.1) hit

/-- The directory where the walk starts, and its parts behind the search root. -/
def walkPrefix (mode : Match) (variants : List String) : List String :=
  match mode with
  | .path => sharedPrefix (variants.map literalDirPrefix)
  | .name => []

/-- The files that the pattern selects, best first, and the candidates they are selected from. -/
def selected (args : GlobArgs) (resolved : Path) : Except String (List (String × Path) × List (String × Path)) :=
  let rules := loadGitignoreRules h t resolved
  let variants := expandBraces args.pattern
  let allowedNoise := (explicitlyNamedNoiseDirs variants).filter (· ≠ ".git")
  let parts := walkPrefix args.mode variants
  let root := joinParts resolved parts
  if !prefixIsReachable h rules allowedNoise parts then .ok ([], [])
  else
    match t.dir? h.limit root with
    | none => .ok ([], [])
    | some d =>
      -- `relative_to` raises on what does not lie in the search root
      if parts.head? = some "//" ∨ !pathIsUnder root resolved then
        .error s!"{pathStr root} is not in the subpath of {pathStr resolved}"
      else
        let candidates := visibleFiles h t rules allowedNoise (root.take (root.length - resolved.length)) root d
        let matched := select args.mode candidates variants
        let widened := (variants.filter fun p => '/' ∉ p.toList ∧ p.toList.take 2 ≠ ['*', '*']).map ("**/" ++ ·)
        -- a pattern without a separator is tried once more at any depth
        .ok (if matched.isEmpty ∧ !widened.isEmpty then select args.mode candidates widened else matched, candidates)

/-- Whether a path that was selected is listed: it leads to a file and the guard does not deny it. -/
def passes (path : Path) : Bool := (t.open? h.limit path).isSome && !cfg.isDeniedPath t h.limit path

end

example : expandBraces "src/\x7ba,b\x7bc,d\x7d\x7d/*.py" = ["src/a/*.py", "src/bc/*.py", "src/bd/*.py"] ∧
    expandBraces "\x7b../x,../y\x7d/*" = ["../x/*", "../y/*"] := by decide

end OpenAgentd.Filesystem
