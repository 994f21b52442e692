import OpenAgentd.Patch.Chunks

/-!
# The text of an envelope

`_clean_patch_text` and `_parse_patch` (`app/agent/tools/builtin/filesystem/patch.py`). The text is stripped, a code
fence around it is dropped, and what stands between the first begin marker and the last end marker is read line by
line. `repr` is Python's, which one message quotes a line with.
-/

namespace OpenAgentd.Patch
open OpenAgentd.Lib

/-- `*** Begin Patch`. -/
def beginMarker : List Char := "*** Begin Patch".toList

/-- `*** End Patch`. -/
def endMarker : List Char := "*** End Patch".toList

/-- A code fence. -/
def fence : List Char := "```".toList

/-- `s.find(pattern)`. -/
def find (pattern : List Char) : List Char → Option Nat
  | [] => if pattern = [] then some 0 else none
  | c :: s => if pattern.isPrefixOf (c :: s) then some 0 else (find pattern s).map (· + 1)

/-- `s.rfind(pattern)`. -/
def rfind (pattern : List Char) : List Char → Option Nat
  | [] => if pattern = [] then some 0 else none
  | c :: s =>
    match rfind pattern s with
    | some i => some (i + 1)
    | none => if pattern.isPrefixOf (c :: s) then some 0 else none

/-- `str.strip` on characters. -/
def stripChars (s : List Char) : List Char := (s.reverse.dropWhile pyIsSpace).reverse.dropWhile pyIsSpace

/-- The lines without the fence. -/
def dropFence (lines : List (List Char)) : List (List Char) :=
  let lines := if (lines.head?).any fence.isPrefixOf then lines.tail else lines
  if (lines.getLast?).any (fun l => fence.isPrefixOf (stripChars l)) then lines.dropLast else lines

/-- What stands between the markers. -/
def extract (text : List Char) : List Char :=
  match find beginMarker text, rfind endMarker text with
  | some b, some e => if b ≤ e then (text.take (e + endMarker.length)).drop b else text
  | _, _ => text

/-- `_clean_patch_text`. -/
def cleanPatchText (patchText : List Char) : List Char :=
  let text := stripChars patchText
  extract <|
    if fence.isPrefixOf text then stripChars (['\n'].intercalate (dropFence (text.splitOn '\n'))) else text

/-- `line.startswith(pre)`, with what stands behind it. -/
def behind (pre : String) (line : List Char) : Option (List Char) :=
  if pre.toList.isPrefixOf line then some (line.drop pre.toList.length) else none

/-- `patches` without the current one, `current` and `chunk`. -/
structure Parsing where
  done : List FilePatch := []
  current : Option FilePatch := none
  chunk : Option Chunk := none

/-- `finish_chunk`. -/
def Parsing.finishChunk (s : Parsing) : Parsing :=
  match s.chunk with
  | none => s
  | some chunk =>
    { s with current := s.current.map fun p => { p with chunks := p.chunks ++ [chunk] }, chunk := none }

/-- `patches`. -/
def Parsing.patches (s : Parsing) : List FilePatch := s.done ++ s.current.toList

/-- A header. -/
def Parsing.begin (s : Parsing) (kind : PatchKind) (path : List Char) : Parsing :=
  { done := s.finishChunk.patches, current := some { kind, path := .ofList (stripChars path) } }

/-- A line of context. -/
def Chunk.pushContext (c : Chunk) (text raw : List Char) : Chunk :=
  { c with
    old := c.old ++ [.ofList text]
    new := c.new ++ [.ofList text]
    contextPairs := c.contextPairs ++ [(c.old.length, c.new.length)]
    rawOld := c.rawOld ++ [.ofList raw]
    rawNew := c.rawNew ++ [.ofList raw] }

/-- A line of a hunk. -/
def Chunk.line (c : Chunk) : List Char → Chunk
  | '+' :: text => { c with new := c.new ++ [.ofList text], rawNew := c.rawNew ++ [.ofList text] }
  | '-' :: text => { c with old := c.old ++ [.ofList text], rawOld := c.rawOld ++ [.ofList text] }
  | ' ' :: text => c.pushContext text (' ' :: text)
  | line => c.pushContext line line

/-- A line that is no header, in an operation. -/
def Parsing.body (repr : List Char → String) (s : Parsing) (p : FilePatch) (line : List Char) :
    Except PatchError Parsing :=
  if let some path := behind "*** Move to: " line then
    if p.kind ≠ .update then .error (.parse "Move is only valid inside an update operation.")
    else .ok { s with current := some { p with moveTo := some (.ofList (stripChars path)) } }
  else if let some anchor := behind "@@ in:" line then
    if stripChars anchor = [] then .error (.parse "A scoped hunk must include an anchor after '@@ in:'.")
    else
      .ok { s.finishChunk with
        chunk := some { scopeAnchor := some (.ofList (stripChars anchor)), scopeIsLiteral := true } }
  else if let some anchor := behind "@@" line then
    let anchor := stripChars (if anchor.head? = some ' ' then anchor.tail else anchor)
    .ok { s.finishChunk with
      chunk := some { scopeAnchor := if anchor = [] then none else some (.ofList anchor) } }
  else
    match p.kind, s.chunk with
    | .add, _ =>
      if line.head? = some '+' then .ok { s with current := some { p with contents := p.contents ++ [.ofList line.tail] } }
      else if line.head? = some '*' then
        .error (.parse ("Unexpected '*'-prefixed line inside an Add File section (malformed header?): " ++ repr line ++
          ". Prefix content lines with '+'."))
      else .ok { s with current := some { p with contents := p.contents ++ [.ofList line] } }
    | .delete, _ => .error (.parse "Delete file operations must not include content.")
    | .update, none => .error (.parse "Update operations must include an '@@' hunk before changes.")
    | .update, some chunk => .ok { s with chunk := some (chunk.line line) }

/-- The loop body. -/
def Parsing.step (repr : List Char → String) (s : Parsing) (line : List Char) : Except PatchError Parsing :=
  if let some path := behind "*** Add File: " line then .ok (s.begin .add path)
  else if let some path := behind "*** Update File: " line then .ok (s.begin .update path)
  else if let some path := behind "*** Delete File: " line then .ok (s.begin .delete path)
  else
    match s.current with
    | none => .error (.parse "Patch content must follow a file operation header.")
    | some p => s.body repr p line

/-- The loop. -/
def Parsing.run (repr : List Char → String) : Parsing → List (List Char) → Except PatchError Parsing
  | s, [] => .ok s
  | s, line :: lines => (s.step repr line).bind fun s => s.run repr lines

/-- `_reject_no_op_update`. -/
def rejectNoOpUpdate (patch : FilePatch) : Except PatchError Unit :=
  if patch.kind ≠ .update ∨ patch.moveTo.isSome ∨ patch.chunks.any fun c => c.old ≠ c.new then .ok ()
  else
    .error <| .parse <| "Update section for " ++ patch.path ++ " would change nothing: " ++
      (if patch.chunks = [] then "it has no '@@' hunk"
        else "no hunk line starts with '-' or '+', so every line reads as unchanged context") ++
      ". Prefix every line you want removed with '-' and every line you want added with '+', or use " ++
      "'*** Move to: <path>' to rename the file."

/-- `_parse_patch`. -/
def parsePatch (repr : List Char → String) (patchText : String) : Except PatchError (List FilePatch) :=
  let lines := (normalize (cleanPatchText patchText.toList)).splitOn '\n'
  let lines := if lines.getLast? = some [] then lines.dropLast else lines
  if (lines.head?).any (fun l => stripChars l = beginMarker) && (lines.getLast?).any (fun l => stripChars l = endMarker)
  then
    (Parsing.run repr {} lines.tail.dropLast).bind fun s =>
      if s.finishChunk.patches = [] then .error (.parse "Patch contains no file operations.")
      else (s.finishChunk.patches.forM rejectNoOpUpdate).map fun _ => s.finishChunk.patches
  else .error (.parse "Patch must start with '*** Begin Patch' and end with '*** End Patch'.")

/-- What an envelope says and does. -/
def texts (repr : List Char → String) (cc : CharClasses) (report : ApplyError → String)
    (validatePath : String → Except PatchError Path) : Texts where
  parsePatch := parsePatch repr
  validatePath := validatePath
  applyChunks content chunks _ :=
    match applyChunksWithMeta cc content chunks with
    | .ok (out, _) => .ok out
    | .error exc => .error (.hunk (report exc))

end OpenAgentd.Patch
