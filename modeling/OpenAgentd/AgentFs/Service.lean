import Mathlib.Data.List.Sort
import OpenAgentd.Filesystem.Glob
import OpenAgentd.Lib.Lines
import OpenAgentd.Lib.Suffix

/-!
# Agent files

The store of agent profiles: a directory with one Markdown file for each agent. A name is checked part by part and
becomes a path when `.md` takes the place of its suffix, a path becomes a name when its suffix is cut off. The tree
is the agents directory, without links; a directory that is not there is one without files.
-/

namespace OpenAgentd.AgentFs
open Lib Filesystem

/-- The errors of the service; `os` is what the system refuses. -/
inductive AgentFsError where
  | path (message : String)
  | notFound (message : String)
  | conflict (message : String)
  | os
deriving DecidableEq

/-- An agent file as it is handed out, the path from the agents directory on. -/
structure AgentFileRecord where
  name : String
  path : Path
  content : String
deriving DecidableEq

/-- `PurePath.stem` -/
def stem (name : String) : String := .ofList (splitext '.' name.toList).1

/-- `PurePath.with_suffix`; the stem of a name is never empty. -/
def withSuffix (suffix : String) : Path → Path
  | [] => []
  | name :: parent => (stem name ++ suffix) :: parent

/-- `PurePath.as_posix` -/
def asPosix (p : Path) : String := "/".intercalate p.reverse

def isNameChar (c : Char) : Bool := c.isAlphanum || c = '.' || c = '_' || c = '-'

/-- `_NAME_RE.match`; the end of the pattern also stands before a line feed that ends the text. -/
def matchesNameRe (name : String) : Bool :=
  let chars := name.toList
  match if chars.getLast? = some '\n' then chars.dropLast else chars with
  | [] => false
  | c :: rest => c.isAlphanum && rest.all isNameChar && rest.length ≤ 63

/-- `_validate_name` -/
def validateName (name : String) : Except AgentFsError String :=
  if matchesNameRe name then .ok name
  else
    .error (.path (s!"Invalid name '{name}'. Use letters, digits, '.', '_', '-' only " ++
      "(1-64 chars, must start with letter/digit)."))

/-- The parts of a name, each of them checked. -/
def validateParts : List String → Except AgentFsError (List String)
  | [] => .ok []
  | part :: parts => do
    let part ← validateName part
    let parts ← validateParts parts
    return part :: parts

/-- `_validate_agent_name` -/
def validateAgentName (name : String) : Except AgentFsError Path :=
  match purePathParts name with
  | [] => .error (.path "Agent name cannot be empty.")
  | parts => (validateParts parts).map List.reverse

def md : String := ".md"

/-- `_agent_file`; a path of checked parts leads nowhere else when there are no links. -/
def agentFile (name : String) : Except AgentFsError Path := (validateAgentName name).map (withSuffix md)

/-- The name of the temporary file for `name`. -/
def tmpName (name random : String) : String := "." ++ name ++ "." ++ random ++ ".tmp"

/-- `_atomic_write`: the tree, and whether the file is written. The temporary file is a new one. -/
def atomicWrite (t : FileTree String) (random content : String) : Path → FileTree String × Bool
  | [] => (t, false)
  | name :: parent =>
    match t.mkdirs (fun _ => false) parent with
    | (t, false) => (t, false)
    | (t, true) =>
      if t.get? (tmpName name random :: parent) = none then
        match t.write content (tmpName name random :: parent) with
        | none => (t, false)
        | some t =>
          match t.replace (tmpName name random :: parent) (name :: parent) with
          -- a directory is not replaced, and the temporary file stays
          | none => (t, false)
          | some t => (t, true)
      else (t, false)

/-- The paths of `rglob("*.md")`, directories among them. -/
def mdPaths (t : FileTree String) : List Path :=
  t.nodes.keys.filter fun p => p.head?.any fun name => md.toList.isSuffixOf name.toList

/-- The name under which a path is listed. -/
def agentName (p : Path) : String := asPosix (withSuffix "" p)

/-- `list_agents` -/
def listAgents (t : FileTree String) : List String :=
  (((mdPaths t).map agentName).filter (· ≠ "")).insertionSort (· ≤ ·)

/-- The text of a file, with universal newlines. -/
def readText (content : String) : String := .ofList (normalize content.toList)

/-- `read_agent` -/
def readAgent (t : FileTree String) (name : String) : Except AgentFsError AgentFileRecord := do
  let file ← agentFile name
  match t.get? file with
  | some (.file content) => return ⟨name, file, readText content⟩
  | _ => .error (.notFound s!"Agent '{name}' not found.")

/-- `write_agent` -/
def writeAgent (t : FileTree String) (random name content : String) (create : Bool) :
    FileTree String × Except AgentFsError AgentFileRecord :=
  match agentFile name with
  | .error e => (t, .error e)
  | .ok file =>
    if create ∧ t.get? file ≠ none then (t, .error (.conflict s!"Agent '{name}' already exists."))
    else
      match atomicWrite t random content file with
      | (t, true) => (t, .ok ⟨name, file, content⟩)
      | (t, false) => (t, .error .os)

/-- `delete_agent` -/
def deleteAgent (t : FileTree String) (name : String) : FileTree String × Except AgentFsError Unit :=
  match agentFile name with
  | .error e => (t, .error e)
  | .ok file =>
    match t.unlink file with
    | some t => (t, .ok ())
    | none => (t, .error (.notFound s!"Agent '{name}' not found."))

end OpenAgentd.AgentFs
