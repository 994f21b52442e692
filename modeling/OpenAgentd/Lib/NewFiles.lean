import OpenAgentd.Lib.Lines

/-!
# Patches of new files

A reader for the patches that git makes of new files. A patch is a text of lines ended by line feeds. A section
begins with `diff --git`, and one with a text goes on with `--- /dev/null`, `+++` and a hunk header that tells how many
lines follow, each behind a `+`. A text without a line feed at its end has the note `noNewline` behind its hunk. Lines
between the sections mean nothing.
-/

namespace OpenAgentd.Lib

def diffGit : List Char := "diff --git ".toList
def fromNothing : List Char := "--- /dev/null".toList
def toName : List Char := "+++ b/".toList
def hunkFront : List Char := "@@ -0,0 +1".toList
def hunkBack : List Char := " @@".toList
def noNewline : List Char := "\\ No newline at end of file".toList

/-- Between sections, in a header, behind its `---` and its `+++` line, before some lines of a hunk, and behind it. -/
inductive Place where
  | outside
  | header
  | removed
  | added
  | hunk (left : Nat)
  | ended
deriving DecidableEq

/-- A place where the next section may begin. -/
def Place.free : Place → Bool
  | .outside => true
  | .header => true
  | .ended => true
  | _ => false

/-- The files so far with their texts, the last one first. -/
structure PatchReader where
  files : List (List Char × List Char) := []
  place : Place := .outside
deriving DecidableEq

/-- The name in the rest of a `diff --git` line. -/
def headerName (rest : List Char) : Option (List Char) :=
  let name := (rest.drop 2).take ((rest.length - 5) / 2)
  if rest = 'a' :: '/' :: name ++ ' ' :: 'b' :: '/' :: name then some name else none

/-- How many lines a hunk of a new file has. -/
def hunkCount (line : List Char) : Option Nat :=
  let count := (line.drop hunkFront.length).take (line.length - hunkFront.length - hunkBack.length)
  if line = hunkFront ++ count ++ hunkBack then
    match count with
    | [] => some 1
    | ',' :: digits => if digits.all Char.isDigit then some (Nat.ofDigitChars 10 digits 0) else none
    | _ => none
  else none

namespace PatchReader

/-- A line of the text. -/
def addLine (r : PatchReader) (line : List Char) : List (List Char × List Char) :=
  match r.files with
  | (name, text) :: files => (name, text ++ line ++ ['\n']) :: files
  | [] => []

/-- The text loses the line feed at its end. -/
def chop (r : PatchReader) : List (List Char × List Char) :=
  match r.files with
  | (name, text) :: files => (name, text.dropLast) :: files
  | [] => []

/-- A line at a place where a section may begin. -/
def readFree (r : PatchReader) (line : List Char) : Option PatchReader :=
  if diffGit <+: line then
    (headerName (line.drop diffGit.length)).map fun name => { files := (name, []) :: r.files, place := .header }
  else if r.place = .header ∧ line = fromNothing then some { r with place := .removed }
  else if r.place = .ended ∧ line = noNewline then some { files := r.chop, place := .outside }
  else some { r with place := if r.place = .ended then .outside else r.place }

/-- A line in a hunk. -/
def readHunk (r : PatchReader) (left : Nat) (line : List Char) : Option PatchReader :=
  match line with
  | '+' :: text => some { files := r.addLine text, place := if left ≤ 1 then .ended else .hunk (left - 1) }
  | _ => none

/-- A line. -/
def step (r : PatchReader) (line : List Char) : Option PatchReader :=
  match r.place with
  | .hunk left => r.readHunk left line
  | .removed => if (r.files.head?.map fun f => toName ++ f.1) = some line then some { r with place := .added } else none
  | .added =>
    match hunkCount line with
    | some (left + 1) => some { r with place := .hunk (left + 1) }
    | _ => none
  | _ => r.readFree line

/-- Some lines. -/
def read (r : PatchReader) (lines : List (List Char)) : Option PatchReader := lines.foldlM step r

end PatchReader

/-- The files that a patch adds to an empty tree. -/
def readPatch (patch : List Char) : Option (List (List Char × List Char)) :=
  match PatchReader.read {} (patch.splitOn '\n') with
  | some r => if r.place.free then some r.files.reverse else none
  | none => none

section
variable {r r' : PatchReader} {name text line : List Char} {lines : List (List Char)}
  {files : List (List Char × List Char)} {n : Nat} {p : Place}

namespace PatchReader

/-- One line more. -/
lemma read_cons : r.read (line :: lines) = (r.step line).bind fun r => r.read lines := List.foldlM_cons

/-- Lines in a row. -/
lemma read_append (ls ms : List (List Char)) : r.read (ls ++ ms) = (r.read ls).bind fun r => r.read ms :=
  List.foldlM_append

/-- A line between files. -/
lemma step_free (free : r.place.free = true) : r.step line = r.readFree line := by
  unfold step
  cases e : r.place with
  | outside => rfl
  | header => rfl
  | ended => rfl
  | removed =>
    rw [e] at free
    cases free
  | added =>
    rw [e] at free
    cases free
  | hunk left =>
    rw [e] at free
    cases free

/-! ## Headers -/

/-- The name in a header. -/
lemma headerName_eq (name : List Char) : headerName ('a' :: '/' :: name ++ ' ' :: 'b' :: '/' :: name) = some name := by
  have len : ('a' :: '/' :: name ++ ' ' :: 'b' :: '/' :: name).length - 5 = 2 * name.length := by
    simp only [List.cons_append, List.length_cons, List.length_append]
    omega
  have cut : (('a' :: '/' :: name ++ ' ' :: 'b' :: '/' :: name).drop 2).take
      ((('a' :: '/' :: name ++ ' ' :: 'b' :: '/' :: name).length - 5) / 2) = name := by
    rw [len, Nat.mul_div_cancel_left _ (by decide)]
    exact List.take_left
  unfold headerName
  simp only [cut, if_true]

/-- The line that begins a section. -/
def headerLine (name : List Char) : List Char := diffGit ++ ('a' :: '/' :: name ++ ' ' :: 'b' :: '/' :: name)

/-- A header begins a file. -/
lemma step_header (free : r.place.free = true) : r.step (headerLine name) = some ⟨(name, []) :: r.files, .header⟩ := by
  rw [step_free free, readFree, headerLine, if_pos (List.prefix_append _ _), List.drop_left, headerName_eq]
  rfl

/-- A line that means nothing. -/
lemma step_other (free : r.place.free = true) (noHeader : ¬ diffGit <+: line) (noFile : line ≠ fromNothing)
    (noNote : line ≠ noNewline) : ∃ p : Place, p.free = true ∧ r.step line = some ⟨r.files, p⟩ ∧ (r.place = .header → p = .header) := by
  rw [step_free free, readFree, if_neg noHeader, if_neg fun h => noFile h.2, if_neg fun h => noNote h.2]
  split
  next ended => exact ⟨.outside, rfl, rfl, fun header => by rw [ended] at header; cases header⟩
  next => exact ⟨r.place, free, rfl, id⟩

/-- The old side is nothing. -/
lemma step_removed (place : r.place = .header) : r.step fromNothing = some ⟨r.files, .removed⟩ := by
  have free : r.place.free = true := place ▸ rfl
  rw [step_free free, readFree, if_neg (by decide), if_pos ⟨place, rfl⟩]

/-- The new side has the name. -/
lemma step_added (text : List Char) : step ⟨(name, text) :: files, .removed⟩ (toName ++ name) = some ⟨(name, text) :: files, .added⟩ :=
  if_pos rfl

/-! ## Hunks -/

/-- The range of a hunk. -/
def hunkRange (n : Nat) : List Char := if n = 1 then [] else ',' :: Nat.toDigits 10 n

/-- The count of a hunk. -/
lemma hunkCount_eq (n : Nat) : hunkCount (hunkFront ++ hunkRange n ++ hunkBack) = some n := by
  have cut : ((hunkFront ++ hunkRange n ++ hunkBack).drop hunkFront.length).take
      ((hunkFront ++ hunkRange n ++ hunkBack).length - hunkFront.length - hunkBack.length) = hunkRange n := by
    rw [List.append_assoc, List.drop_left, List.length_append, List.length_append, Nat.add_sub_cancel_left,
      Nat.add_sub_cancel]
    exact List.take_left
  have digits : (Nat.toDigits 10 n).all Char.isDigit = true := by
    rw [List.all_eq_true]
    intro c mem
    exact Nat.isDigit_of_mem_toDigits (by decide) (by decide) mem
  unfold hunkCount
  simp only [cut, if_true]
  by_cases one : n = 1
  · rw [hunkRange, if_pos one, one]
  · rw [hunkRange, if_neg one]
    show (if _ then _ else _) = _
    rw [if_pos digits, Nat.ofDigitChars_ten_toDigits]

/-- A hunk begins. -/
lemma step_range (pos : 0 < n) : step ⟨files, .added⟩ (hunkFront ++ hunkRange n ++ hunkBack) = some ⟨files, .hunk n⟩ := by
  obtain ⟨left, rfl⟩ : ∃ left, n = left + 1 := ⟨n - 1, by omega⟩
  show (match hunkCount _ with | some (left + 1) => _ | _ => none) = _
  rw [hunkCount_eq]

/-- A line of a hunk. -/
lemma step_line (line : List Char) : step ⟨(name, text) :: files, .hunk n⟩ ('+' :: line) =
    some ⟨(name, text ++ line ++ ['\n']) :: files, if n ≤ 1 then .ended else .hunk (n - 1)⟩ := rfl

/-- A hunk has added lines only. -/
lemma readHunk_eq_some (h : r.readHunk n line = some r') : ∃ l, line = '+' :: l ∧
    r' = ⟨r.addLine l, if n ≤ 1 then .ended else .hunk (n - 1)⟩ := by
  unfold readHunk at h
  split at h
  next l => exact ⟨l, rfl, (Option.some.inj h).symm⟩
  next => cases h

/-- A section that begins in a hunk. -/
lemma step_header_hunk (place : r.place = .hunk n) : r.step (headerLine name) = none := by
  have read : r.step (headerLine name) = r.readHunk n (headerLine name) := by
    unfold step
    rw [place]
  cases e : r.readHunk n (headerLine name) with
  | none => rw [read, e]
  | some r' =>
    have first : (headerLine name).head? = some 'd' := by
      rw [headerLine, List.head?_append, show diffGit.head? = some 'd' by decide]
      rfl
    obtain ⟨l, line, _⟩ := readHunk_eq_some e
    rw [line] at first
    cases first

/-- All lines of a hunk. -/
lemma read_hunk (ls : List (List Char)) (some_ : ls ≠ []) (text : List Char) :
    read ⟨(name, text) :: files, .hunk ls.length⟩ (ls.map ('+' :: ·)) =
      some ⟨(name, text ++ endWith .lf ls) :: files, .ended⟩ := by
  induction ls generalizing text with
  | nil => exact absurd rfl some_
  | cons l ls ih =>
    rw [List.map_cons, read_cons, step_line, Option.bind_some]
    by_cases last : ls = []
    · rw [last]
      show some _ = some _
      simp [endWith, LineEnd.text]
    · have more : ¬ (l :: ls).length ≤ 1 := by
        have pos := List.length_pos_iff.mpr last
        rw [List.length_cons]
        omega
      rw [if_neg more, List.length_cons, Nat.add_sub_cancel, ih last]
      simp [endWith, LineEnd.text]

/-- Lines that are read in a hunk, no more than it has. -/
lemma of_read_hunk (pos : 0 < n) (few : lines.length ≤ n) (clean : ∀ l ∈ lines, '\n' ∉ l)
    (h : read ⟨(name, text) :: files, .hunk n⟩ lines = some r') :
    ∃ t, r'.files = (name, text ++ t) :: files ∧ t.count '\n' = lines.length ∧
      r'.place = if lines.length = n then .ended else .hunk (n - lines.length) := by
  induction lines generalizing text n with
  | nil =>
    cases h
    refine ⟨[], by rw [List.append_nil], rfl, ?_⟩
    rw [List.length_nil, if_neg (Nat.ne_of_lt pos), Nat.sub_zero]
  | cons line lines ih =>
    rw [read_cons] at h
    obtain ⟨mid, st, h⟩ := Option.bind_eq_some_iff.mp h
    obtain ⟨l, rfl, rfl⟩ := readHunk_eq_some st
    have one : (l ++ ['\n']).count '\n' = 1 := by
      have noLf : '\n' ∉ l := fun mem => clean _ List.mem_cons_self (List.mem_cons_of_mem _ mem)
      rw [List.count_append, List.count_eq_zero.mpr noLf]
      rfl
    rw [List.length_cons] at few
    by_cases last : n ≤ 1
    · have none : lines = [] := List.eq_nil_of_length_eq_zero (by omega)
      rw [none, if_pos last] at h
      cases h
      refine ⟨l ++ ['\n'], ?_, ?_, ?_⟩
      · show (name, text ++ l ++ ['\n']) :: files = _
        rw [List.append_assoc]
      · rw [one, none]
        rfl
      · rw [none, List.length_singleton, if_pos (by omega)]
    · rw [if_neg last] at h
      obtain ⟨t, read, count, place⟩ := ih (by omega) (by omega) (fun l mem => clean l (List.mem_cons_of_mem _ mem)) h
      refine ⟨l ++ ['\n'] ++ t, ?_, ?_, ?_⟩
      · rw [read]
        simp
      · rw [List.count_append, one, count, List.length_cons, Nat.add_comm]
      · rw [place, List.length_cons]
        by_cases all : lines.length + 1 = n
        · rw [if_pos all, if_pos (by omega)]
        · rw [if_neg all, if_neg (by omega)]
          congr 1
          omega

/-! ## Sections -/

/-- A line that means nothing where a section may begin. -/
structure Idle (line : List Char) : Prop where
  header : ¬ diffGit <+: line
  file : line ≠ fromNothing
  note : line ≠ noNewline

/-- Notes say nothing. -/
lemma read_idle {notes : List (List Char)} (idle : ∀ l ∈ notes, Idle l) (place : r.place = .header) :
    r.read notes = some r := by
  induction notes with
  | nil => rfl
  | cons note notes ih =>
    have is := idle note List.mem_cons_self
    obtain ⟨p, _, st, header⟩ := step_other (r := r) (place ▸ rfl) is.header is.file is.note
    rw [header place, ← place] at st
    rw [read_cons, st]
    exact ih fun l mem => idle l (List.mem_cons_of_mem _ mem)

/-- A section without a text. -/
lemma read_section {notes : List (List Char)} (idle : ∀ l ∈ notes, Idle l) (free : r.place.free = true) :
    r.read (headerLine name :: notes) = some ⟨(name, []) :: r.files, .header⟩ := by
  rw [read_cons, step_header free]
  exact read_idle idle rfl

/-- A section with a hunk. -/
lemma read_section_hunk {notes : List (List Char)} (idle : ∀ l ∈ notes, Idle l) (free : r.place.free = true) (pos : 0 < n) :
    r.read (headerLine name :: notes ++ [fromNothing, toName ++ name, hunkFront ++ hunkRange n ++ hunkBack] ++ lines) =
      read ⟨(name, []) :: r.files, .hunk n⟩ lines := by
  rw [List.append_assoc, read_append, read_section idle free, Option.bind_some, List.cons_append, read_cons,
    step_removed rfl, Option.bind_some, List.cons_append, read_cons, step_added, Option.bind_some, List.cons_append,
    read_cons, step_range pos]
  rfl

end PatchReader

end

end OpenAgentd.Lib
