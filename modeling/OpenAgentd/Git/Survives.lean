import OpenAgentd.Git.Untracked
import OpenAgentd.Lib.Joined
import Mathlib.Data.List.Nodup

/-!
# Untracked files in the diff view

When the diff of untracked files is a patch that makes them. A section is made from a listed name and from the lines of
`str.splitlines`, and read by git's rules. `survives_iff`: the files are made if and only if no name is quoted and each
text is empty, or closed under a name that `_safe_resolve` does not refuse.
-/

namespace OpenAgentd.Git
open OpenAgentd.Lib OpenAgentd.Filesystem

/-- The diff keeps the file. -/
structure Kept (f : UntrackedFile) : Prop where
  name : f.name.any unusual = false
  text : f.text = [] ∨ refused (quotePath f.name) = false ∧ Closed isLineBoundary f.text

section
variable {ws : Workspace} {path : List Char} {paths : List (List Char)} {shown : Shown} {r r' : PatchReader}
  {text : List Char} {f : UntrackedFile}

/-! ## The lines of a section -/

def newFileMode : List Char := "new file mode 100644".toList

/-- A section without its first line feed. -/
def content (path : List Char) (shown : Shown) : List Char :=
  PatchReader.headerLine path ++ '\n' :: (newFileMode ++ '\n' :: sectionBody path shown)

/-- A section of the diff. -/
lemma section_eq (path : List Char) : ws.section_ path = '\n' :: content path (ws.shown path) := by
  have front : sectionFront = '\n' :: (diffGit ++ ['a', '/']) := by decide
  have middle : sectionMiddle = [' ', 'b', '/'] := by decide
  have back : sectionMode = '\n' :: (newFileMode ++ ['\n']) := by decide
  unfold Workspace.section_ content PatchReader.headerLine
  rw [front, middle, back]
  simp

/-- The lines of a section. -/
def sectionLines (path : List Char) (shown : Shown) : List (List Char) :=
  PatchReader.headerLine path :: newFileMode :: (sectionBody path shown).splitOn '\n'

/-- A section by its lines. -/
lemma splitOn_content (clean : '\n' ∉ path) : (content path shown).splitOn '\n' = sectionLines path shown := by
  have header : '\n' ∉ PatchReader.headerLine path := by
    unfold PatchReader.headerLine
    simp [clean, show '\n' ∉ diffGit by decide]
  rw [content, List.splitOn_append_cons_self_of_not_mem header,
    List.splitOn_append_cons_self_of_not_mem (by decide)]
  rfl

/-- The lines of some sections. -/
lemma splitOn_sections (clean : ∀ path ∈ paths, '\n' ∉ path) : ∀ front : List Char,
    (front ++ paths.flatMap ws.section_).splitOn '\n' =
      front.splitOn '\n' ++ paths.flatMap fun path => sectionLines path (ws.shown path) := by
  induction paths with
  | nil => simp
  | cons path paths ih =>
    intro front
    have rest := ih (fun p mem => clean p (List.mem_cons_of_mem _ mem)) (content path (ws.shown path))
    rw [List.flatMap_cons, section_eq, List.cons_append, List.splitOn_append_cons_self, rest,
      splitOn_content (clean path List.mem_cons_self)]
    rfl

/-! ## Reading a section -/

/-- A line that says nothing. -/
lemma idle_of_head {line : List Char} {c : Char} (head : line.head? = some c) (d : c ≠ 'd') (dash : c ≠ '-')
    (back : c ≠ '\\') : PatchReader.Idle line where
  header := by
    rintro ⟨rest, rfl⟩
    rw [List.head?_append, show diffGit.head? = some 'd' by decide] at head
    exact d (Option.some.inj head).symm
  file := by
    rintro rfl
    rw [show fromNothing.head? = some '-' by decide] at head
    exact dash (Option.some.inj head).symm
  note := by
    rintro rfl
    rw [show noNewline.head? = some '\\' by decide] at head
    exact back (Option.some.inj head).symm

/-- An empty line says nothing. -/
lemma idle_nil : PatchReader.Idle [] where
  header := by decide
  file := by decide
  note := by decide

/-- The mode says nothing. -/
lemma idle_mode : PatchReader.Idle newFileMode := idle_of_head (c := 'n') (by decide) (by decide) (by decide) (by decide)

/-- A body of one line that means nothing. -/
lemma read_notice (notice : List Char) (clean : '\n' ∉ notice ++ path) (head : notice.head? = some 'B')
    (body : sectionBody path shown = notice ++ path ++ ['\n']) (free : r.place.free = true) :
    r.read (sectionLines path shown) = some ⟨(path, []) :: r.files, .header⟩ := by
  have idle : PatchReader.Idle (notice ++ path) := by
    apply idle_of_head (c := 'B') _ (by decide) (by decide) (by decide)
    rw [List.head?_append, head]
    rfl
  rw [sectionLines, body, List.splitOn_append_cons_self_of_not_mem clean, List.splitOn_nil]
  apply PatchReader.read_section _ free
  intro line mem
  simp only [List.mem_cons, List.not_mem_nil, or_false] at mem
  rcases mem with rfl | rfl | rfl
  · exact idle_mode
  · exact idle
  · exact idle_nil

/-- A file that is not shown is read as an empty one. -/
lemma read_hidden (clean : '\n' ∉ path) (hidden : shown = .unreadable ∨ shown = .large ∨ shown = .lines [])
    (free : r.place.free = true) : r.read (sectionLines path shown) = some ⟨(path, []) :: r.files, .header⟩ := by
  rcases hidden with rfl | rfl | rfl
  · apply read_notice unreadableNotice _ (by decide) _ free
    · rw [List.mem_append, not_or]
      exact ⟨by decide, clean⟩
    · rw [sectionBody]
  · apply read_notice largeNotice _ (by decide) _ free
    · rw [List.mem_append, not_or]
      exact ⟨by decide, clean⟩
    · rw [sectionBody]
  · apply PatchReader.read_section _ free
    intro line mem
    simp only [sectionBody, unifiedDiff, if_true, List.splitOn_nil, List.mem_cons, List.not_mem_nil, or_false] at mem
    rcases mem with rfl | rfl
    · exact idle_mode
    · exact idle_nil

/-- The header of a hunk. -/
lemma hunkHeader_eq {n : Nat} (pos : 0 < n) :
    hunkHeader n = hunkFront ++ PatchReader.hunkRange n ++ hunkBack ++ ['\n'] := by
  have nothing : formatRangeUnified 0 0 = ['0', ',', '0'] := by decide
  have one : Nat.toDigits 10 1 = ['1'] := by decide
  have front : hunkFront = rangeFront ++ ['0', ',', '0'] ++ rangeMiddle ++ ['1'] := by decide
  have back : rangeBack = hunkBack ++ ['\n'] := by decide
  have range : formatRangeUnified 0 n = '1' :: PatchReader.hunkRange n := by
    unfold formatRangeUnified PatchReader.hunkRange
    simp only [Nat.sub_zero]
    split
    · exact one
    · rw [if_neg (Nat.ne_of_gt pos), one]
      rfl
  rw [hunkHeader, nothing, front, back, range]
  simp

/-- A range is one line. -/
lemma lf_notMem_hunkRange (n : Nat) : '\n' ∉ PatchReader.hunkRange n := by
  unfold PatchReader.hunkRange
  split
  · exact List.not_mem_nil
  · apply List.not_mem_cons_of_ne_of_not_mem (by decide)
    intro mem
    have digit := Nat.isDigit_of_mem_toDigits (by decide) (by decide) mem
    revert digit
    decide

/-- A file that is shown is read from the lines of its hunk. -/
lemma read_lines {lines : List (List Char)} (clean : '\n' ∉ path) (some_ : lines ≠ []) (free : r.place.free = true) :
    r.read (sectionLines path (.lines lines)) =
      PatchReader.read ⟨(path, []) :: r.files, .hunk lines.length⟩ ((lines.flatMap ('+' :: ·)).splitOn '\n') := by
  have pos : 0 < lines.length := List.length_pos_iff.mpr some_
  have first : '\n' ∉ fromNothing := by decide
  have second : '\n' ∉ toName ++ path := by
    rw [List.mem_append, not_or]
    exact ⟨by decide, clean⟩
  have third : '\n' ∉ hunkFront ++ PatchReader.hunkRange lines.length ++ hunkBack := by
    rw [List.mem_append, List.mem_append, not_or, not_or]
    exact ⟨⟨by decide, lf_notMem_hunkRange _⟩, by decide⟩
  have body : sectionBody path (.lines lines) = fromNothing ++ '\n' :: (toName ++ path ++ '\n' ::
      (hunkFront ++ PatchReader.hunkRange lines.length ++ hunkBack ++ '\n' :: lines.flatMap ('+' :: ·))) := by
    have nothing : fromFile = fromNothing ++ ['\n'] := by decide
    have name : toFile = toName := by decide
    rw [sectionBody, unifiedDiff, if_neg some_, hunkHeader_eq pos, nothing, name]
    simp
  have whole : sectionLines path (.lines lines) = PatchReader.headerLine path :: [newFileMode] ++
      [fromNothing, toName ++ path, hunkFront ++ PatchReader.hunkRange lines.length ++ hunkBack] ++
      (lines.flatMap ('+' :: ·)).splitOn '\n' := by
    rw [sectionLines, body, List.splitOn_append_cons_self_of_not_mem first,
      List.splitOn_append_cons_self_of_not_mem second, List.splitOn_append_cons_self_of_not_mem third]
    rfl
  rw [whole]
  apply PatchReader.read_section_hunk _ free pos
  intro line mem
  rw [List.mem_singleton.mp mem]
  exact idle_mode

/-- As many line feeds. -/
lemma count_plus (lines : List (List Char)) : (lines.flatMap ('+' :: ·)).count '\n' = lines.flatten.count '\n' := by
  induction lines with
  | nil => rfl
  | cons l lines ih =>
    rw [List.flatMap_cons, List.count_append, List.count_cons_of_ne (by decide), ih, List.flatten_cons, List.count_append]

/-- A closed text is read as it is. -/
lemma read_closed (clean : '\n' ∉ path) (closed : Closed isLineBoundary text) (some_ : text ≠ [])
    (free : r.place.free = true) :
    r.read (sectionLines path (.lines (splitlines text))) = some ⟨(path, text) :: r.files, .outside⟩ := by
  obtain ⟨xs, kept, noLf⟩ := keepLines_closed (by decide) (by decide) closed
  have whole : (splitlines text).flatten = text := flatten_keepLines text
  have some_ : splitlines text ≠ [] := fun none => some_ (keepLines_eq_nil.mp none)
  have lines : splitlines text = xs.map (· ++ ['\n']) := kept
  have body : ((splitlines text).flatMap ('+' :: ·)).splitOn '\n' = xs.map ('+' :: ·) ++ [[]] := by
    rw [lines]
    clear kept lines some_ whole
    induction xs with
    | nil => rfl
    | cons x xs ih =>
      have plus : '\n' ∉ '+' :: x := List.not_mem_cons_of_ne_of_not_mem (by decide) (noLf x List.mem_cons_self)
      rw [List.map_cons, List.flatMap_cons, List.map_cons]
      show (('+' :: x ++ ['\n']) ++ _).splitOn '\n' = _
      rw [List.append_assoc, List.singleton_append, List.splitOn_append_cons_self_of_not_mem plus,
        ih fun y mem => noLf y (List.mem_cons_of_mem _ mem)]
      rfl
  have text_eq : endWith .lf xs = text := by
    rw [← whole, lines]
    rfl
  have some_' : xs ≠ [] := by
    rintro rfl
    exact some_ lines
  have len : (splitlines text).length = xs.length := by rw [lines, List.length_map]
  rw [read_lines clean some_ free, body, len, PatchReader.read_append, PatchReader.read_hunk xs some_', Option.bind_some,
    text_eq, List.nil_append]
  rfl

/-- What the section of a file may be read as. -/
def Reads (text : List Char) : Shown → Prop
  | .lines lines =>
    text = lines.flatten ∧ lines.flatten.count '\n' = lines.length ∨ lines.flatten.count '\n' < text.count '\n'
  | _ => text = []

/-- A shown text has no carriage return. -/
def Plain (shown : Shown) : Prop := ∀ lines, shown = .lines lines → ∃ text, '\r' ∉ text ∧ lines = splitlines text

/-- A section makes its file, or the hunk goes on behind it. -/
lemma of_read_section (clean : '\n' ∉ path) (plain : Plain shown) (free : r.place.free = true)
    (h : r.read (sectionLines path shown) = some r') :
    (r'.place.free = true ∧ ∃ text, r'.files = (path, text) :: r.files ∧ Reads text shown) ∨
      ∃ left, r'.place = .hunk left := by
  cases shown with
  | unreadable =>
    rw [read_hidden clean (.inl rfl) free] at h
    cases h
    exact .inl ⟨rfl, [], rfl, rfl⟩
  | large =>
    rw [read_hidden clean (.inr (.inl rfl)) free] at h
    cases h
    exact .inl ⟨rfl, [], rfl, rfl⟩
  | lines lines =>
    obtain ⟨text, noCr, rfl⟩ := plain lines rfl
    have whole : (splitlines text).flatten = text := flatten_keepLines text
    have bound : text.count '\n' ≤ (splitlines text).length ∧
        (text.count '\n' = (splitlines text).length → Closed isLineBoundary text) := count_le_keepLines (by decide) noCr
    obtain ⟨le, closed⟩ := bound
    by_cases none : text = []
    · rw [none] at h ⊢
      rw [show splitlines [] = [] from rfl, read_hidden clean (.inr (.inr rfl)) free] at h
      cases h
      exact .inl ⟨rfl, [], rfl, .inl ⟨rfl, rfl⟩⟩
    by_cases all : text.count '\n' = (splitlines text).length
    · rw [read_closed clean (closed all) none free] at h
      cases h
      exact .inl ⟨rfl, text, rfl, .inl ⟨whole.symm, by rw [whole, all]⟩⟩
    · have some_ : splitlines text ≠ [] := fun e => none (keepLines_eq_nil.mp e)
      rw [read_lines clean some_ free] at h
      have len : (((splitlines text).flatMap ('+' :: ·)).splitOn '\n').length = text.count '\n' + 1 := by
        rw [length_splitOn_lf, count_plus, whole]
      have parts : ∀ l ∈ ((splitlines text).flatMap ('+' :: ·)).splitOn '\n', '\n' ∉ l := fun l mem => notMem_splitOn mem
      obtain ⟨t, files, count, place⟩ := PatchReader.of_read_hunk (by omega) (by omega) parts h
      rw [len] at count place
      by_cases last : text.count '\n' + 1 = (splitlines text).length
      · rw [if_pos last] at place
        refine .inl ⟨by rw [place]; rfl, t, files, .inr ?_⟩
        rw [whole, count]
        exact Nat.lt_succ_self _
      · rw [if_neg last] at place
        exact .inr ⟨_, place⟩

/-- Sections that are read make their files in order. -/
lemma of_read_sections (clean : ∀ path ∈ paths, '\n' ∉ path) (plain : ∀ path ∈ paths, Plain (ws.shown path))
    (free : r.place.free = true) (end_ : r'.place.free = true)
    (h : r.read (paths.flatMap fun path => sectionLines path (ws.shown path)) = some r') :
    ∃ files, r'.files = files.reverse ++ r.files ∧
      List.Forall₂ (fun path file => file.1 = path ∧ Reads file.2 (ws.shown path)) paths files := by
  induction paths generalizing r with
  | nil =>
    cases h
    exact ⟨[], rfl, .nil⟩
  | cons path paths ih =>
    rw [List.flatMap_cons, PatchReader.read_append] at h
    obtain ⟨mid, here, rest⟩ := Option.bind_eq_some_iff.mp h
    cases of_read_section (clean path List.mem_cons_self) (plain path List.mem_cons_self) free here with
    | inl made =>
      obtain ⟨free, text, made, reads⟩ := made
      obtain ⟨files, e, each⟩ := ih (fun p mem => clean p (List.mem_cons_of_mem _ mem))
        (fun p mem => plain p (List.mem_cons_of_mem _ mem)) free rest
      refine ⟨(path, text) :: files, ?_, .cons ⟨rfl, reads⟩ each⟩
      rw [e, made, List.reverse_cons, List.append_assoc]
      rfl
    | inr stuck =>
      obtain ⟨left, stuck⟩ := stuck
      cases paths with
      | nil =>
        cases rest
        rw [stuck] at end_
        cases end_
      | cons next paths =>
        rw [List.flatMap_cons, sectionLines, List.cons_append, PatchReader.read_cons,
          PatchReader.step_header_hunk stuck] at rest
        cases rest

/-! ## The files of a workspace -/

/-- What is shown is plain. -/
lemma plain_shown (path : List Char) : Plain (ws.shown path) := by
  intro lines e
  unfold Workspace.shown at e
  split at e
  · cases e
  split at e
  · cases e
  split at e
  · cases e
  next text _ =>
    cases e
    exact ⟨normalize text, cr_notMem_normalize text, rfl⟩

/-- A quoted path is one line. -/
lemma lf_notMem_quotePath (name : List UInt8) : '\n' ∉ quotePath name := by
  intro mem
  have boundary := not_boundary_of_printable (printable_quotePath name _ mem)
  cases boundary

/-- What is shown under a name that is not quoted. -/
lemma shown_eq (mem : f ∈ ws.untracked) (usual : f.name.any unusual = false)
    (small : (utf8Encode f.text).length ≤ maxUntrackedDiffBytes) : ws.shown (quotePath f.name) =
      if refused (quotePath f.name) then .unreadable else .lines (splitlines (normalize f.text)) := by
  unfold Workspace.shown Workspace.safeResolve
  split
  next gone =>
    split at gone
    next is => rw [if_pos is]
    next =>
      rw [encode_usual usual, ws.stored f mem] at gone
      cases gone
  next raw found =>
    split at found
    next => cases found
    next fine =>
      rw [encode_usual usual, ws.stored f mem] at found
      cases found
      rw [if_neg (Nat.not_lt.mpr small), if_neg fine, decodeStrict_encode]

/-- A kept file is made by its section. -/
lemma read_kept (kept : Kept f) (mem : f ∈ ws.untracked) (small : (utf8Encode f.text).length ≤ maxUntrackedDiffBytes)
    (free : r.place.free = true) : ∃ p : Place, p.free = true ∧
      r.read (sectionLines (quotePath f.name) (ws.shown (quotePath f.name))) =
        some ⟨(quotePath f.name, f.text) :: r.files, p⟩ := by
  have clean := lf_notMem_quotePath f.name
  rw [shown_eq mem kept.name small]
  by_cases none : f.text = []
  · refine ⟨.header, rfl, ?_⟩
    rw [none]
    split
    · exact read_hidden clean (.inl rfl) free
    · exact read_hidden clean (.inr (.inr rfl)) free
  · obtain ⟨fine, closed⟩ := kept.text.resolve_left none
    have noCr : '\r' ∉ f.text := fun mem => absurd (closed.only _ mem rfl) (by decide)
    refine ⟨.outside, rfl, ?_⟩
    rw [fine, if_neg Bool.false_ne_true, normalize_of_notMem noCr]
    exact read_closed clean closed none free

/-- All files are read back. -/
lemma read_all {files : List UntrackedFile} (kept : ∀ f ∈ files, Kept f) (mem : ∀ f ∈ files, f ∈ ws.untracked)
    (small : ∀ f ∈ files, (utf8Encode f.text).length ≤ maxUntrackedDiffBytes) (free : r.place.free = true) :
    ∃ p : Place, p.free = true ∧
      r.read ((files.map fun f => quotePath f.name).flatMap fun path => sectionLines path (ws.shown path)) =
        some ⟨(files.map fun f => (quotePath f.name, f.text)).reverse ++ r.files, p⟩ := by
  induction files generalizing r with
  | nil => exact ⟨r.place, free, rfl⟩
  | cons f files ih =>
    obtain ⟨p, free, here⟩ := read_kept (kept f List.mem_cons_self) (mem f List.mem_cons_self)
      (small f List.mem_cons_self) free
    obtain ⟨p', free', rest⟩ := ih (fun g h => kept g (List.mem_cons_of_mem _ h))
      (fun g h => mem g (List.mem_cons_of_mem _ h)) (fun g h => small g (List.mem_cons_of_mem _ h))
      (show (PatchReader.mk ((quotePath f.name, f.text) :: r.files) p).place.free = true from free)
    refine ⟨p', free', ?_⟩
    rw [List.map_cons, List.flatMap_cons, PatchReader.read_append, here, Option.bind_some, rest]
    simp

/-- A kept file is what its section is read as. -/
lemma kept_of_reads (mem : f ∈ ws.untracked) (usual : f.name.any unusual = false)
    (small : (utf8Encode f.text).length ≤ maxUntrackedDiffBytes)
    (reads : Reads f.text (ws.shown (quotePath f.name))) : Kept f := by
  refine ⟨usual, ?_⟩
  rw [shown_eq mem usual small] at reads
  split at reads
  next => exact .inl reads
  next fine =>
    right
    refine ⟨Bool.eq_false_iff.mpr fine, ?_⟩
    have whole : (splitlines (normalize f.text)).flatten = normalize f.text := flatten_keepLines _
    have reads : f.text = (splitlines (normalize f.text)).flatten ∧
        (splitlines (normalize f.text)).flatten.count '\n' = (splitlines (normalize f.text)).length ∨
        (splitlines (normalize f.text)).flatten.count '\n' < f.text.count '\n' := reads
    rw [whole] at reads
    cases reads with
    | inl same =>
      obtain ⟨same, all⟩ := same
      rw [← same] at all
      exact (count_le_keepLines (by decide) (normalize_eq_iff.mp same.symm)).2 all
    | inr fewer => exact absurd (count_le_normalize f.text) (Nat.not_le.mpr fewer)

/-- Names of equal length in all are the names as they are. -/
lemma usual_of_length {files : List UntrackedFile}
    (same : (files.flatMap fun f => utf8Encode (quotePath f.name)).length = (files.flatMap fun f => f.name).length) :
    ∀ f ∈ files, f.name.any unusual = false := by
  have bound : ∀ f : UntrackedFile, f.name.length ≤ (utf8Encode (quotePath f.name)).length ∧
      (f.name.any unusual = true → f.name.length < (utf8Encode (quotePath f.name)).length) := by
    intro f
    rw [length_encode_printable (printable_quotePath f.name)]
    exact length_quotePath f.name
  have total : ∀ files : List UntrackedFile,
      (files.flatMap fun f => f.name).length ≤ (files.flatMap fun f => utf8Encode (quotePath f.name)).length := by
    intro files
    induction files with
    | nil => exact Nat.le_refl 0
    | cons f files ih =>
      rw [List.flatMap_cons, List.flatMap_cons, List.length_append, List.length_append]
      exact Nat.add_le_add (bound f).1 ih
  induction files with
  | nil => nofun
  | cons f files ih =>
    rw [List.flatMap_cons, List.flatMap_cons, List.length_append, List.length_append] at same
    have here := bound f
    have rest := total files
    intro g mem
    cases List.mem_cons.mp mem with
    | inl e =>
      rw [e, Bool.eq_false_iff]
      intro quoted
      have more := here.2 quoted
      omega
    | inr mem => exact ih (by omega) g mem

/-- The one that belongs to it. -/
lemma exists_of_forall₂ {α β : Type*} {R : α → β → Prop} {l : List α} {m : List β} {a : α} (each : List.Forall₂ R l m)
    (mem : a ∈ l) : ∃ b ∈ m, R a b := by
  induction each with
  | nil => cases mem
  | cons here _ ih =>
    cases List.mem_cons.mp mem with
    | inl e => exact ⟨_, List.mem_cons_self, e ▸ here⟩
    | inr mem =>
      obtain ⟨b, mem, r⟩ := ih mem
      exact ⟨b, List.mem_cons_of_mem _ mem, r⟩

/-- Files that are made as they are, are kept. -/
lemma kept_of_made {files : List (List Char × List Char)}
    (small : ∀ f ∈ ws.untracked, (utf8Encode f.text).length ≤ maxUntrackedDiffBytes)
    (each : List.Forall₂ (fun path file => file.1 = path ∧ Reads file.2 (ws.shown path))
      (ws.untracked.map fun f => quotePath f.name) files)
    (same : (files.map fun f => (utf8Encode f.1, f.2)).Perm (ws.untracked.map fun f => (f.name, f.text))) :
    ∀ f ∈ ws.untracked, Kept f := by
  have names : files.map Prod.fst = ws.untracked.map fun f => quotePath f.name := by
    clear same
    generalize ws.untracked.map (fun f => quotePath f.name) = paths at each
    induction each with
    | nil => rfl
    | cons here _ ih => rw [List.map_cons, here.1, ih]
  have usual : ∀ f ∈ ws.untracked, f.name.any unusual = false := by
    apply usual_of_length
    have total := (same.flatMap_right Prod.fst).length_eq
    rw [List.flatMap_map, List.flatMap_map] at total
    rw [← total]
    have paths := congrArg (List.flatMap utf8Encode) names
    rw [List.flatMap_map, List.flatMap_map] at paths
    rw [paths]
  intro f mem
  obtain ⟨file, made, name, reads⟩ := exists_of_forall₂ each (List.mem_map_of_mem mem)
  have here : (utf8Encode file.1, file.2) ∈ ws.untracked.map fun f => (f.name, f.text) :=
    same.subset (List.mem_map_of_mem made)
  obtain ⟨g, there, e⟩ := List.mem_map.mp here
  rw [name, encode_usual (usual f mem)] at e
  obtain ⟨name', text⟩ := Prod.mk.inj e
  have one : g = f := List.inj_on_of_nodup_map ws.distinct there mem name'
  rw [← text, one] at reads
  exact kept_of_reads mem (usual f mem) (small f mem) reads

/-! ## The whole diff -/

/-- Sections under the limit are all there. -/
lemma chunks_eq : ∀ (paths : List (List Char)) (size : Nat),
    size + (ws.chunks size paths).flatten.length ≤ maxGitDiffChars → ws.chunks size paths = paths.map ws.section_ := by
  intro paths
  induction paths with
  | nil => exact fun _ _ => rfl
  | cons path paths ih =>
    intro size fits
    have under : ¬ size > maxGitDiffChars := by omega
    rw [Workspace.chunks, if_neg under] at fits ⊢
    rw [List.flatten_cons, List.length_append] at fits
    rw [ih _ (by omega), List.map_cons]

/-- A diff that is not cut has all its sections. -/
lemma untrackedDiff_eq (fits : (ws.untrackedDiff paths).length ≤ maxGitDiffChars) :
    ws.untrackedDiff paths = paths.flatMap ws.section_ := by
  unfold Workspace.untrackedDiff at fits ⊢
  rw [List.length_take] at fits
  have short : (ws.chunks 0 paths).flatten.length ≤ maxGitDiffChars := by omega
  rw [List.take_of_length_le (by omega), chunks_eq paths 0 (by omega), List.flatMap]

/-- The diff behind the tracked part. -/
lemma gitDiff_drop {tracked : List Char} {cut : Bool} (whole : (ws.gitDiff tracked cut).truncated = false) :
    (ws.gitDiff tracked cut).diff.drop tracked.length =
      (ws.untracked.map fun f => quotePath f.name).flatMap ws.section_ := by
  unfold Workspace.gitDiff at whole ⊢
  cases cut with
  | true => cases whole
  | false =>
    simp only [Bool.false_or, Bool.false_eq_true, if_false, decide_eq_false_iff_not, Nat.not_lt] at whole ⊢
    have fits : (ws.untrackedDiff (plainLines ws.lsFiles)).length ≤ maxGitDiffChars := by
      rw [List.length_append] at whole
      omega
    rw [List.take_of_length_le whole, List.drop_left, untrackedDiff_eq fits, plainLines_lsFiles]

/-- The untracked part of a whole diff makes the untracked files if and only if they are kept. -/
theorem survives_iff (trackedDiff : List Char) (trackedTruncated : Bool)
    (small : ∀ f ∈ ws.untracked, (utf8Encode f.text).length ≤ maxUntrackedDiffBytes)
    (whole : (ws.gitDiff trackedDiff trackedTruncated).truncated = false) :
    ws.Survives ((ws.gitDiff trackedDiff trackedTruncated).diff.drop trackedDiff.length) ↔ ∀ f ∈ ws.untracked, Kept f := by
  have clean : ∀ path ∈ ws.untracked.map fun f => quotePath f.name, '\n' ∉ path := by
    intro path mem
    obtain ⟨f, _, rfl⟩ := List.mem_map.mp mem
    exact lf_notMem_quotePath f.name
  have lines : ((ws.untracked.map fun f => quotePath f.name).flatMap ws.section_).splitOn '\n' =
      [] :: (ws.untracked.map fun f => quotePath f.name).flatMap fun path => sectionLines path (ws.shown path) :=
    splitOn_sections clean []
  have blank : PatchReader.step {} [] = some {} := by decide
  rw [gitDiff_drop whole]
  unfold Workspace.Survives readPatch
  rw [lines, PatchReader.read_cons, blank, Option.bind_some]
  constructor
  · rintro ⟨files, read, same⟩
    split at read
    next r' lines_read =>
      split at read
      next free =>
        cases read
        obtain ⟨files, e, each⟩ := of_read_sections clean (fun path _ => plain_shown path) rfl free lines_read
        rw [e, List.append_nil, List.reverse_reverse] at same
        exact kept_of_made small each same
      next => cases read
    next => cases read
  · intro kept
    obtain ⟨p, free, read⟩ := read_all kept (fun f mem => mem) small (show (PatchReader.mk [] .outside).place.free = true from rfl)
    refine ⟨ws.untracked.map fun f => (quotePath f.name, f.text), ?_, ?_⟩
    · rw [read]
      simp [free]
    · rw [List.map_map]
      apply List.Perm.of_eq
      apply List.map_congr_left
      intro f mem
      exact congrArg (·, f.text) (encode_usual (kept f mem).name)

end

/-- A file with one line. -/
def oneLine : Workspace where
  untracked := [⟨[97], ['x', '\n']⟩]
  disk name := if name = [97] then some [120, 10] else none
  distinct := List.nodup_singleton _
  stored f mem := by
    rw [List.mem_singleton.mp mem]
    decide

/-- It survives. -/
theorem oneLine_survives : oneLine.Survives ((oneLine.gitDiff [] false).diff.drop 0) := by
  refine (survives_iff [] false ?_ (by decide)).mpr ?_
  · intro f mem
    rw [List.mem_singleton.mp mem]
    decide
  · intro f mem
    rw [List.mem_singleton.mp mem]
    refine ⟨by decide, .inr ⟨by decide, .inr rfl, ?_⟩⟩
    intro c mem boundary
    cases List.mem_cons.mp mem with
    | inl x =>
      rw [x] at boundary
      cases boundary
    | inr lf => exact List.mem_singleton.mp lf

/-- A file without a line feed at its end. -/
def noLineFeed : Workspace where
  untracked := [⟨[97], ['x']⟩]
  disk name := if name = [97] then some [120] else none
  distinct := List.nodup_singleton _
  stored f mem := by
    rw [List.mem_singleton.mp mem]
    decide

/-- Not every workspace survives. -/
theorem noLineFeed_not_survives : ¬ ∀ (ws : Workspace) (trackedDiff : List Char) (trackedTruncated : Bool),
    (∀ f ∈ ws.untracked, (utf8Encode f.text).length ≤ maxUntrackedDiffBytes) →
    (ws.gitDiff trackedDiff trackedTruncated).truncated = false →
    ws.Survives ((ws.gitDiff trackedDiff trackedTruncated).diff.drop trackedDiff.length) := by
  intro all
  have small : ∀ f ∈ noLineFeed.untracked, (utf8Encode f.text).length ≤ maxUntrackedDiffBytes := by
    intro f mem
    rw [List.mem_singleton.mp mem]
    decide
  obtain ⟨files, read, same⟩ := all noLineFeed [] false small (by decide)
  have made : readPatch ((noLineFeed.gitDiff [] false).diff.drop 0) = some [(['a'], ['x', '\n'])] := by decide
  rw [show ([] : List Char).length = 0 from rfl, made] at read
  cases read
  have text : ([97], ['x', '\n']) ∈ noLineFeed.untracked.map fun f => (f.name, f.text) :=
    same.subset (by decide)
  revert text
  decide

end OpenAgentd.Git
