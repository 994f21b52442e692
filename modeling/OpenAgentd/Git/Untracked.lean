import OpenAgentd.Filesystem.ReadText
import OpenAgentd.Lib.NewFiles

/-!
# The diff of untracked files

`get_coding_workspace_git_diff` and `_untracked_diff` (`routes/agent/files.py`). Git lists the untracked files, one name
on a line, with unusual names in quotes. For each line a section is made from the file that the line leads to:
`difflib.unified_diff` of nothing and the lines that `str.splitlines` finds in its text.
-/

namespace OpenAgentd.Git
open OpenAgentd.Lib OpenAgentd.Filesystem

/-- `_MAX_GIT_DIFF_CHARS` -/
def maxGitDiffChars : Nat := 512 * 1024

/-- `_MAX_UNTRACKED_DIFF_BYTES` -/
def maxUntrackedDiffBytes : Nat := 256 * 1024

/-! ## What git lists -/

/-- A byte that git escapes in a name. -/
def unusual (b : UInt8) : Bool := b < 0x20 || 0x7f ≤ b || b = 0x22 || b = 0x5c

/-- What stands for it behind a backslash. -/
def escaped : UInt8 → List Char
  | 0x07 => ['a']
  | 0x08 => ['b']
  | 0x09 => ['t']
  | 0x0a => ['n']
  | 0x0b => ['v']
  | 0x0c => ['f']
  | 0x0d => ['r']
  | 0x22 => ['"']
  | 0x5c => ['\\']
  | b => [Nat.digitChar (b.toNat / 64), Nat.digitChar (b.toNat / 8 % 8), Nat.digitChar (b.toNat % 8)]

/-- A byte of a name. -/
def escapeByte (b : UInt8) : List Char := if unusual b then '\\' :: escaped b else [Char.ofNat b.toNat]

/-- A name as git writes it. -/
def quotePath (name : List UInt8) : List Char :=
  if name.any unusual then '"' :: name.flatMap escapeByte ++ ['"'] else name.flatMap escapeByte

structure UntrackedFile where
  name : List UInt8
  text : List Char
deriving DecidableEq

/-- The untracked files of a workspace, in git's order, and the bytes of the regular file that a relative path leads
to inside of its root. -/
structure Workspace where
  untracked : List UntrackedFile
  disk : List UInt8 → Option (List UInt8)
  distinct : (untracked.map UntrackedFile.name).Nodup
  stored : ∀ f ∈ untracked, disk f.name = some (utf8Encode f.text)

namespace Workspace

/-- `git ls-files --others --exclude-standard` -/
def lsFiles (ws : Workspace) : List Char := ws.untracked.flatMap fun f => quotePath f.name ++ ['\n']

end Workspace

/-- A line without its end. -/
def withoutEnd (line : List Char) : List Char :=
  match line.reverse with
  | '\n' :: '\r' :: front => front.reverse
  | c :: front => if isLineBoundary c then front.reverse else line
  | [] => []

/-- `text.splitlines()` -/
def plainLines (text : List Char) : List (List Char) := (splitlines text).map withoutEnd

/-! ## The sections -/

/-- The paths that `_safe_resolve` refuses before it looks at the disk: blank ones, absolute ones, and those with a
drive letter. -/
def refused (rel : List Char) : Bool := rel.all pyIsSpace || rel.head? = some '/' || rel[1]? = some ':'

/-- `_safe_resolve`, and the file there. -/
def Workspace.safeResolve (ws : Workspace) (rel : List Char) : Option (List UInt8) :=
  if refused rel then none else ws.disk (utf8Encode rel)

/-- What is shown of a file. -/
inductive Shown where
  | unreadable
  | large
  | lines (lines : List (List Char))
deriving DecidableEq

/-- The file at a path, read as UTF-8 with universal newlines. -/
def Workspace.shown (ws : Workspace) (path : List Char) : Shown :=
  match ws.safeResolve path with
  | none => .unreadable
  | some raw =>
    if raw.length > maxUntrackedDiffBytes then .large
    else
      match decodeStrict raw with
      | none => .unreadable
      | some text => .lines (splitlines (normalize text))

/-- `_format_range_unified` -/
def formatRangeUnified (start stop : Nat) : List Char :=
  let beginning := start + 1
  let length := stop - start
  if length = 1 then Nat.toDigits 10 beginning
  else Nat.toDigits 10 (if length = 0 then beginning - 1 else beginning) ++ ',' :: Nat.toDigits 10 length

def unreadableNotice : List Char := "Binary or unreadable file not shown: ".toList
def largeNotice : List Char := "Binary or large file not shown: ".toList
def fromFile : List Char := "--- /dev/null\n".toList
def toFile : List Char := "+++ b/".toList
def rangeFront : List Char := "@@ -".toList
def rangeMiddle : List Char := " +".toList
def rangeBack : List Char := " @@\n".toList
def sectionFront : List Char := "\ndiff --git a/".toList
def sectionMiddle : List Char := " b/".toList
def sectionMode : List Char := "\nnew file mode 100644\n".toList

/-- The header of the hunk that makes a file of `n` lines. -/
def hunkHeader (n : Nat) : List Char :=
  rangeFront ++ formatRangeUnified 0 0 ++ rangeMiddle ++ formatRangeUnified 0 n ++ rangeBack

/-- `unified_diff([], lines, fromfile="/dev/null", tofile=f"b/{path}")` -/
def unifiedDiff (path : List Char) (lines : List (List Char)) : List Char :=
  if lines = [] then []
  else
    fromFile ++ (toFile ++ path ++ ['\n']) ++ hunkHeader lines.length ++ lines.flatMap ('+' :: ·)

/-- What stands behind the header of a section. -/
def sectionBody (path : List Char) : Shown → List Char
  | .unreadable => unreadableNotice ++ path ++ ['\n']
  | .large => largeNotice ++ path ++ ['\n']
  | .lines lines => unifiedDiff path lines

/-- The section of a path. -/
def Workspace.section_ (ws : Workspace) (path : List Char) : List Char :=
  sectionFront ++ path ++ sectionMiddle ++ path ++ sectionMode ++ sectionBody path (ws.shown path)

/-- The loop over the paths, with the size of the sections so far. -/
def Workspace.chunks (ws : Workspace) : Nat → List (List Char) → List (List Char)
  | _, [] => []
  | size, path :: paths =>
    if size > maxGitDiffChars then []
    else ws.section_ path :: ws.chunks (size + (ws.section_ path).length) paths

/-- `_untracked_diff` -/
def Workspace.untrackedDiff (ws : Workspace) (paths : List (List Char)) : List Char :=
  (ws.chunks 0 paths).flatten.take (maxGitDiffChars + 1)

structure GitDiffResponse where
  diff : List Char
  untracked : List (List Char)
  truncated : Bool
deriving DecidableEq

/-- `get_coding_workspace_git_diff` without `paths`, with the diff of the tracked files. -/
def Workspace.gitDiff (ws : Workspace) (trackedDiff : List Char) (trackedTruncated : Bool) : GitDiffResponse :=
  let untracked := if trackedTruncated then [] else plainLines ws.lsFiles
  let fullDiff := if trackedTruncated then trackedDiff else trackedDiff ++ ws.untrackedDiff untracked
  { diff := fullDiff.take maxGitDiffChars
    untracked
    truncated := trackedTruncated || fullDiff.length > maxGitDiffChars }

/-- The patch makes the untracked files, each from one section. -/
def Workspace.Survives (ws : Workspace) (patch : List Char) : Prop :=
  ∃ files, readPatch patch = some files ∧
    (files.map fun f => (utf8Encode f.1, f.2)).Perm (ws.untracked.map fun f => (f.name, f.text))

section
variable {ws : Workspace} {b : UInt8} {name : List UInt8} {path : List Char} {paths : List (List Char)}

/-! ## Names -/

/-- A line without its end. -/
lemma withoutEnd_line {line : List Char} (clean : ∀ c ∈ line, isLineBoundary c = false) : withoutEnd (line ++ ['\n']) = line := by
  unfold withoutEnd
  rw [List.reverse_append]
  cases e : line.reverse with
  | nil =>
    rw [List.reverse_eq_nil_iff.mp e]
    rfl
  | cons c front =>
    have other : c ≠ '\r' := by
      intro cr
      have mem : c ∈ line := List.mem_reverse.mp (e ▸ List.mem_cons_self)
      have plain := clean c mem
      rw [cr] at plain
      cases plain
    show (match '\n' :: c :: front with | '\n' :: '\r' :: front => _ | c :: front => _ | [] => _) = _
    split
    next same =>
      cases same
      exact absurd rfl other
    next same =>
      cases same
      rw [if_pos (by decide), ← e, List.reverse_reverse]
    next same => cases same

/-- What git writes is printable ASCII. -/
def Printable (c : Char) : Prop := 0x20 ≤ c.toNat ∧ c.toNat ≤ 0x7e

instance (c : Char) : Decidable (Printable c) := inferInstanceAs (Decidable (_ ∧ _))

/-- Escaped bytes are printable. -/
lemma printable_escapeByte (b : UInt8) : ∀ c ∈ escapeByte b, Printable c := by
  have all : ∀ n < 256, (escapeByte (UInt8.ofNat n)).all (fun c => Printable c) = true := by decide +kernel
  have here := all b.toNat b.toNat_lt
  rw [UInt8.ofNat_toNat] at here
  intro c mem
  exact of_decide_eq_true (List.all_eq_true.mp here c mem)

/-- A usual byte stays. -/
lemma escapeByte_usual (usual : unusual b = false) : escapeByte b = [Char.ofNat b.toNat] := by
  rw [escapeByte, if_neg (Bool.eq_false_iff.mp usual)]

/-- An escape is not empty. -/
lemma length_escapeByte (b : UInt8) : 1 ≤ (escapeByte b).length := by
  unfold escapeByte
  split
  · exact Nat.le_add_left 1 _
  · exact Nat.le_refl 1

/-- Quoted paths are printable. -/
lemma printable_quotePath (name : List UInt8) : ∀ c ∈ quotePath name, Printable c := by
  have inner : ∀ c ∈ name.flatMap escapeByte, Printable c := by
    intro c mem
    obtain ⟨b, _, mem⟩ := List.mem_flatMap.mp mem
    exact printable_escapeByte b c mem
  have quote : Printable '"' := by decide
  intro c mem
  unfold quotePath at mem
  split at mem
  · cases List.mem_append.mp mem with
    | inl mem =>
      cases List.mem_cons.mp mem with
      | inl e => exact e ▸ quote
      | inr mem => exact inner c mem
    | inr mem => exact List.mem_singleton.mp mem ▸ quote
  · exact inner c mem

/-- Printable text ends no line. -/
lemma not_boundary_of_printable {c : Char} (printable : Printable c) : isLineBoundary c = false := by
  have all : ∀ n < 0x7f, 0x20 ≤ n → isLineBoundary (Char.ofNat n) = false := by decide
  have here := all c.toNat (Nat.lt_succ_of_le printable.2) printable.1
  rwa [Char.ofNat_toNat] at here

/-- ASCII is one byte. -/
lemma encodeChar_ascii {c : Char} (ascii : c.toNat < 128) : String.utf8EncodeChar c = [UInt8.ofNat c.toNat] := by
  have low : c.val ≤ 127 := by
    rw [UInt32.le_iff_toNat_le]
    exact Nat.le_of_lt_succ ascii
  rw [String.utf8EncodeChar_eq_singleton (Char.utf8Size_eq_one_iff.mpr low)]
  rfl

/-- Printable text is one byte a character. -/
lemma length_encode_printable {s : List Char} (printable : ∀ c ∈ s, Printable c) : (utf8Encode s).length = s.length := by
  induction s with
  | nil => rfl
  | cons c s ih =>
    have ascii : c.toNat < 128 := Nat.lt_of_le_of_lt (printable c List.mem_cons_self).2 (by decide)
    have rest := ih fun c mem => printable c (List.mem_cons_of_mem _ mem)
    unfold utf8Encode at rest ⊢
    rw [List.flatMap_cons, encodeChar_ascii ascii, List.length_append, rest, List.length_cons, Nat.add_comm]
    rfl

/-- No byte is unusual. -/
lemma usual_of_any (usual : name.any unusual = false) : ∀ b ∈ name, unusual b = false :=
  fun b mem => Bool.eq_false_iff.mpr (List.any_eq_false.mp usual b mem)

/-- A byte that is not quoted is the code of its character. -/
lemma toNat_ofNat_usual (usual : unusual b = false) : (Char.ofNat b.toNat).toNat = b.toNat ∧ b.toNat < 128 := by
  simp only [unusual, Bool.or_eq_false_iff, decide_eq_false_iff_not, UInt8.not_le] at usual
  have low : b.toNat < 0x7f := usual.1.1.2
  have valid : b.toNat.isValidChar := .inl (Nat.lt_trans low (by decide))
  exact ⟨by rw [Char.ofNat, dif_pos valid]; rfl, Nat.lt_trans low (by decide)⟩

/-- A name that is not quoted is as it is. -/
lemma encode_usual (usual : name.any unusual = false) : utf8Encode (quotePath name) = name := by
  have plain : ∀ b ∈ name, String.utf8EncodeChar (Char.ofNat b.toNat) = [b] := by
    intro b mem
    have same := toNat_ofNat_usual (usual_of_any usual b mem)
    rw [encodeChar_ascii (Nat.lt_of_le_of_lt (Nat.le_of_eq same.1) same.2), same.1, UInt8.ofNat_toNat]
  have clean := usual_of_any usual
  rw [quotePath, if_neg (Bool.eq_false_iff.mp usual)]
  clear usual
  induction name with
  | nil => rfl
  | cons b name ih =>
    have rest := ih (fun b mem => plain b (List.mem_cons_of_mem _ mem)) fun b mem => clean b (List.mem_cons_of_mem _ mem)
    rw [List.flatMap_cons, escapeByte_usual (clean b List.mem_cons_self), utf8Encode_append, rest]
    show String.utf8EncodeChar _ ++ [] ++ name = _
    rw [plain b List.mem_cons_self]
    rfl

/-- Escaping does not shorten. -/
lemma length_flatMap_escapeByte (name : List UInt8) : name.length ≤ (name.flatMap escapeByte).length := by
  induction name with
  | nil => exact Nat.le_refl 0
  | cons b name ih =>
    have pos := length_escapeByte b
    rw [List.flatMap_cons, List.length_append, List.length_cons]
    omega

/-- A name in quotes is longer. -/
lemma length_quotePath (name : List UInt8) :
    name.length ≤ (quotePath name).length ∧ (name.any unusual = true → name.length < (quotePath name).length) := by
  have inner := length_flatMap_escapeByte name
  unfold quotePath
  split
  next quoted =>
    have more : name.length < ('"' :: name.flatMap escapeByte ++ ['"']).length := by
      rw [List.length_append, List.length_cons]
      omega
    exact ⟨Nat.le_of_lt more, fun _ => more⟩
  next usual => exact ⟨inner, fun quoted => absurd quoted usual⟩

/-- The listing is read back. -/
lemma plainLines_lsFiles : plainLines ws.lsFiles = ws.untracked.map fun f => quotePath f.name := by
  have each : ∀ files : List UntrackedFile,
      plainLines (files.flatMap fun f => quotePath f.name ++ ['\n']) = files.map fun f => quotePath f.name := by
    intro files
    induction files with
    | nil => rfl
    | cons f files ih =>
      have clean : ∀ c ∈ quotePath f.name, isLineBoundary c = false :=
        fun c mem => not_boundary_of_printable (printable_quotePath _ c mem)
      unfold plainLines splitlines at ih ⊢
      rw [List.flatMap_cons, List.append_assoc, List.map_cons, List.singleton_append,
        keepLines_line (by decide) (by decide) clean, List.map_cons, ih, withoutEnd_line clean]
  exact each ws.untracked

end

end OpenAgentd.Git
