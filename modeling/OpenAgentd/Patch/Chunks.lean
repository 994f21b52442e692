import OpenAgentd.Lib.Lines
import OpenAgentd.Patch.Envelope
import OpenAgentd.Schemas.Chat

/-!
# Applying the chunks of an update

`_apply_chunks_with_meta` (`app/agent/tools/builtin/filesystem/patch.py`): the chunks are taken one after another on the
lines of the file. A chunk whose old and new lines are the same only moves the cursor. The old lines of another chunk
are looked for behind the cursor in five ways (`matchChunk`), and the window that is found is replaced; the lines of
context stay as the file has them.

The character classes of Python that go beyond white space are parameters. What the messages of the errors quote is kept
(`ApplyError`), their wording is not.
-/

namespace OpenAgentd.Patch
open OpenAgentd.Lib

/-- `str.isalnum`, and `\d` of a pattern. -/
structure CharClasses where
  isAlnum : Char → Bool
  isDecimal : Char → Bool

/-- What `_apply_chunks_with_meta` raises. -/
inductive ApplyError where
  | anchorMissing (anchor : String)
  | anchorAmbiguous (starts : List Nat) (literal : Bool)
  | contextMiss (lines old : List String)
  | contextAmbiguous (starts : List Nat) (old : List String)
  deriving DecidableEq

/-- `str.rstrip`. -/
def rstrip (s : String) : String := .ofList (s.toList.reverse.dropWhile pyIsSpace).reverse

/-- `str.strip`. -/
def strip (s : String) : String := .ofList ((rstrip s).toList.dropWhile pyIsSpace)

/-- `len(s) - len(s.lstrip())`. -/
def indent (s : String) : Nat := (s.toList.takeWhile pyIsSpace).length

/-- `xs or ys`. -/
def orElse (xs ys : List Nat) : List Nat := if xs = [] then ys else xs

/-- `_LINE_NUMBER_PREFIX_RE`: what stands behind the match of `^\s*\d+:\s?`. -/
def dropLineNumber (cc : CharClasses) (line : String) : Option String :=
  let digits := line.toList.dropWhile pyIsSpace
  match digits.takeWhile cc.isDecimal, digits.dropWhile cc.isDecimal with
  | _ :: _, ':' :: rest => some (.ofList (if rest.head?.any pyIsSpace then rest.tail else rest))
  | _, _ => none

/-- `_strip_line_number_prefixes`. -/
def stripLineNumberPrefixes (cc : CharClasses) (lines : List String) : Option (List String) :=
  if lines = [] then none else lines.mapM (dropLineNumber cc)

/-- `_find_line_matches`. -/
def findLineMatches (lines old : List String) (trimmed : Bool) : List Nat :=
  if old = [] then []
  else
    let target := if trimmed then old.map rstrip else old
    (List.range (lines.length + 1 - old.length)).filter fun i =>
      let window := (lines.drop i).take old.length
      (if trimmed then window.map rstrip else window) = target

/-- `_find_indentation_tolerant_matches`. -/
def findIndentationTolerantMatches (lines old : List String) : List Nat :=
  if old = [] ∨ lines.length < old.length ∨ old.all (fun l => strip l = "") then []
  else
    (List.range (lines.length + 1 - old.length)).filter fun i =>
      let window := (lines.drop i).take old.length
      let deltas := ((window.zip old).filter fun p => strip p.1 ≠ "" && strip p.2 ≠ "").map fun p =>
        (indent p.1 : Int) - indent p.2
      window.map strip = old.map strip && deltas.dedup.length = 1

/-- `_adjust_new_lines_indentation`. -/
def adjustNewLinesIndentation (window old new : List String) : List String :=
  match (window.zip old).find? fun p => strip p.1 ≠ "" && strip p.2 ≠ "" with
  | none => new
  | some (c, o) =>
    if indent o < indent c then
      new.map fun line =>
        if strip line = "" then line else .ofList (List.replicate (indent c - indent o) ' ' ++ line.toList)
    else if indent c < indent o then
      let trim := indent o - indent c
      new.map fun line =>
        if (List.replicate trim ' ').isPrefixOf line.toList then .ofList (line.toList.drop trim) else line
    else new

/-- A header names a line when it is followed by no letter, digit or underscore. -/
def headerMatches (cc : CharClasses) (needle line : String) : Bool :=
  let rest := (strip line).toList.drop needle.length
  needle.toList.isPrefixOf (strip line).toList && !(rest.head?.any fun c => cc.isAlnum c || c = '_')

/-- The one place of an anchor. -/
def uniqueAnchor (anchor : String) (literal : Bool) : List Nat → Except ApplyError Nat
  | [] => .error (.anchorMissing anchor)
  | [start] => .ok start
  | starts => .error (.anchorAmbiguous starts literal)

/-- `_find_header_anchor`. -/
def findHeaderAnchor (cc : CharClasses) (lines : List String) (anchor : String) (scopeStart : Nat) :
    Except ApplyError Nat :=
  let exact := (findLineMatches lines [anchor] false).filter (scopeStart ≤ ·)
  let trimmed := (List.range lines.length).filter fun i =>
    scopeStart ≤ i && (lines[i]?).any fun line => rstrip line = rstrip anchor
  let named := (List.range lines.length).filter fun i =>
    scopeStart ≤ i && (lines[i]?).any fun line => headerMatches cc (strip anchor) line
  uniqueAnchor anchor false (orElse (orElse exact trimmed) named)

/-- `_find_scope_anchor`. -/
def findScopeAnchor (lines : List String) (anchor : String) (scopeStart : Nat) : Except ApplyError Nat :=
  uniqueAnchor anchor true <| orElse ((findLineMatches lines [anchor] false).filter (scopeStart ≤ ·))
    ((findLineMatches lines [anchor] true).filter (scopeStart ≤ ·))

/-- The places in scope: the whole lines, or else up to white space at their ends. -/
def findInScope (lines : List String) (scopeStart : Nat) (old : List String) : List Nat :=
  orElse ((findLineMatches lines old false).filter (scopeStart ≤ ·))
    ((findLineMatches lines old true).filter (scopeStart ≤ ·))

/-- The places of the lines as they stand in the envelope, when these are others. -/
def findRawInScope (lines : List String) (scopeStart : Nat) (chunk : Chunk) : List Nat :=
  if chunk.rawOld ≠ chunk.old then findInScope lines scopeStart chunk.rawOld else []

/-- `starts`, `old_lines` and `new_lines` behind the five tiers. -/
structure Matched where
  starts : List Nat
  old : List String
  new : List String

/-- The tiers. -/
def matchChunk (cc : CharClasses) (lines : List String) (scopeStart : Nat) (chunk : Chunk) : Matched :=
  let whole := findInScope lines scopeStart chunk.old
  if whole ≠ [] then ⟨whole, chunk.old, chunk.new⟩
  else
    let raw := findRawInScope lines scopeStart chunk
    if raw ≠ [] then ⟨raw, chunk.rawOld, chunk.rawNew⟩
    else
      let bareOld := (stripLineNumberPrefixes cc chunk.old).getD []
      let bare := findInScope lines scopeStart bareOld
      if bare ≠ [] then ⟨bare, bareOld, (stripLineNumberPrefixes cc chunk.new).getD chunk.new⟩
      else
        match (findIndentationTolerantMatches lines chunk.old).filter (scopeStart ≤ ·) with
        | [start] =>
          let window := (lines.drop start).take chunk.old.length
          ⟨[start], window, adjustNewLinesIndentation window chunk.old chunk.new⟩
        | _ => ⟨[], chunk.old, chunk.new⟩

/-- The context lines as the file has them. -/
def preserveContext (window new : List String) (pairs : List (Nat × Nat)) : List String :=
  pairs.foldl (fun new p => (window[p.1]?).elim new fun line => new.set p.2 line) new

/-- What a chunk does: it moves the cursor, or replaces so many lines from `start` on. -/
inductive Action where
  | locator (cursor : Nat)
  | change (start old : Nat) (new : List String)

/-- The one place of the old lines. -/
def uniqueStart (lines old : List String) : List Nat → Except ApplyError Nat
  | [] => .error (.contextMiss lines old)
  | [start] => .ok start
  | starts => .error (.contextAmbiguous starts old)

/-- `scope_start`. -/
def scopeStart (cc : CharClasses) (lines : List String) (cursor : Nat) (chunk : Chunk) : Except ApplyError Nat :=
  match chunk.scopeAnchor with
  | none => .ok cursor
  | some anchor =>
    (if chunk.scopeIsLiteral then findScopeAnchor lines anchor cursor else findHeaderAnchor cc lines anchor cursor).map
      (· + 1)

/-- A chunk in its scope. -/
def Chunk.inScope (cc : CharClasses) (lines : List String) (scopeStart : Nat) (chunk : Chunk) :
    Except ApplyError Action :=
  if chunk.old = chunk.new then
    if chunk.old = [] then .ok (.locator scopeStart)
    else
      let starts := orElse (findInScope lines scopeStart chunk.old) (findRawInScope lines scopeStart chunk)
      (uniqueStart lines chunk.old starts).map fun start => .locator (start + chunk.old.length)
  else if chunk.old = [] then .ok (.change scopeStart 0 chunk.new)
  else
    let m := matchChunk cc lines scopeStart chunk
    (uniqueStart lines chunk.old m.starts).map fun start =>
      .change start m.old.length
        (preserveContext ((lines.drop start).take m.old.length) m.new chunk.contextPairs)

/-- An entry of `hunks`. -/
structure Hunk where
  oldStart : Int
  newStart : Int
  deriving DecidableEq

/-- The local variables of the loop. -/
structure Applying where
  lines : List String
  lineDelta : Int := 0
  cursor : Nat := 0
  hunks : List Hunk := []

/-- What a chunk does to the lines as they are. -/
def Applying.action (cc : CharClasses) (s : Applying) (chunk : Chunk) : Except ApplyError Action :=
  (scopeStart cc s.lines s.cursor chunk).bind fun start => chunk.inScope cc s.lines start

/-- An action. -/
def Applying.perform (s : Applying) : Action → Applying
  | .locator cursor => { s with cursor }
  | .change start old new =>
    { lines := s.lines.take start ++ (new ++ s.lines.drop (start + old))
      lineDelta := s.lineDelta + (new.length - old)
      cursor := start + new.length
      hunks := s.hunks ++ [{ oldStart := start + 1 - s.lineDelta, newStart := start + 1 }] }

/-- The loop. -/
def Applying.run (cc : CharClasses) : Applying → List Chunk → Except ApplyError Applying
  | s, [] => .ok s
  | s, chunk :: chunks => (s.action cc chunk).bind fun action => (s.perform action).run cc chunks

/-- `has_trailing_newline`. -/
def hasTrailingNewline (content : String) : Bool :=
  let normalized := normalize content.toList
  normalized.getLast? = some '\n' || normalized = []

/-- `content_lines`. -/
def contentLines (content : String) : List String :=
  let lines := ((normalize content.toList).splitOn '\n').map String.ofList
  if hasTrailingNewline content && lines.getLast? = some "" then lines.dropLast else lines

/-- `uses_crlf`. -/
def usesCrlf (content : String) : Bool := ['\r', '\n'] <:+: content.toList

/-- `next_content`. -/
def nextContent (content : String) (lines : List String) : String :=
  let joined := ['\n'].intercalate (lines.map String.toList)
  let closed := if hasTrailingNewline content && lines ≠ [] then joined ++ ['\n'] else joined
  .ofList (if usesCrlf content then closed.flatMap fun c => if c = '\n' then ['\r', '\n'] else [c] else closed)

/-- `_apply_chunks_with_meta`. -/
def applyChunksWithMeta (cc : CharClasses) (content : String) (chunks : List Chunk) :
    Except ApplyError (String × List Hunk) :=
  (Applying.run cc { lines := contentLines content } chunks).map fun s => (nextContent content s.lines, s.hunks)

end OpenAgentd.Patch
