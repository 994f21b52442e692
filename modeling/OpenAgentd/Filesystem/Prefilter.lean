import OpenAgentd.Filesystem.ReadText
import OpenAgentd.Lib.Chunked

/-!
# The literal prefilter

`_scan_file` of `_grep_files` (`filesystem/grep.py`). A pattern without regex syntax is an alternation of literals, and
a file that has the bytes of none of them is ruled out before it is decoded. Lines are matched in decoded text, where
an ill-formed part has become U+FFFD and every line end a line feed, so that a literal with one of these can match what
has other bytes: `invisible_iff` says when the hits are those of the plain scan.
-/

namespace OpenAgentd.Filesystem.Prefilter
open OpenAgentd.Lib

def literalScanChunk : Nat := 262144

/-- `_REGEX_META` -/
def regexMeta : List Char :=
  ['.', '^', '$', '*', '+', '?', '\x7b', '\x7d', '[', ']', '(', ')', '|', '\\']

/-- `pattern.split("|")` -/
def branches (pattern : List Char) : List (List Char) := pattern.splitOn '|'

/-- A pattern without regex syntax but for the bars between its branches, none of which is empty. -/
def IsLiteral (pattern : List Char) : Prop := ∀ branch ∈ branches pattern, branch ≠ [] ∧ ∀ c ∈ branch, c ∉ regexMeta

instance (pattern : List Char) : Decidable (IsLiteral pattern) :=
  @List.decidableBAll _ _ (fun _ => @instDecidableAnd _ _ inferInstance (List.decidableBAll _ _)) _

/-- `_required_literals` -/
def requiredLiterals (pattern : List Char) : List (List UInt8) :=
  if IsLiteral pattern then (branches pattern).map utf8Encode else []

/-- `_stream_contains_literal` -/
def streamContainsLiteral (raw : List UInt8) (literals : List (List UInt8)) : Bool :=
  let overlap := (literals.map List.length).foldr max 0 - 1
  searchBlocks overlap literals [] (blocksOf literalScanChunk raw)

/-- `compiled.search(line)`: a literal pattern is found where one of its branches stands, for the others the regex
engine is asked. -/
def search (regex : List Char → List Char → Bool) (pattern line : List Char) : Bool :=
  if IsLiteral pattern then (branches pattern).any fun branch => branch <:+: line else regex pattern line

/-- A hit as it is reported. -/
def hitText (displayPath : List Char) (lineno : Nat) (line : List Char) : List Char :=
  displayPath ++ ':' :: (toString lineno).toList ++ ':' :: ' ' :: ((line.reverse.dropWhile pyIsSpace).reverse.take 200)

/-- The loop over the lines: the hits, and whether there are enough of them. -/
def scanText (found : List Char → Bool) (displayPath : List Char) (maxResults : Nat) :
    Nat → List (List Char) → List (List Char) → List (List Char) × Bool
  | _, [], hits => (hits, false)
  | lineno, line :: lines, hits =>
    if found line then
      let hits := hits ++ [hitText displayPath lineno line]
      if hits.length ≥ maxResults then (hits, true) else scanText found displayPath maxResults (lineno + 1) lines hits
    else scanText found displayPath maxResults (lineno + 1) lines hits

/-- `_scan_file` on a file that can be read, with the literals that it is ruled out by. -/
def scanFile (literals : List (List UInt8)) (found : List Char → Bool) (displayPath : List Char) (maxResults : Nat)
    (raw : List UInt8) (hits : List (List Char)) : List (List Char) × Bool :=
  if 0 ∈ raw.take binarySniffBytes then (hits, false)
  else if literals ≠ [] ∧ streamContainsLiteral raw literals = false then (hits, false)
  else scanText found displayPath maxResults 1 (streamLines raw) hits

/-- The scan reports what it would report without the prefilter. -/
def Invisible (regex : List Char → List Char → Bool) (pattern displayPath : List Char) (maxResults : Nat)
    (raw : List UInt8) (hits : List (List Char)) : Prop :=
  scanFile (requiredLiterals pattern) (search regex pattern) displayPath maxResults raw hits =
    scanFile [] (search regex pattern) displayPath maxResults raw hits

instance (regex : List Char → List Char → Bool) (pattern displayPath : List Char) (maxResults : Nat)
    (raw : List UInt8) (hits : List (List Char)) :
    Decidable (Invisible regex pattern displayPath maxResults raw hits) :=
  inferInstanceAs (Decidable (_ = _))

/-- A literal with a character that the decoder puts in, or with the line feed that ends a decoded line. -/
def Altered (branch : List Char) : Prop := '\uFFFD' ∈ branch ∨ branch.getLast? = some '\n'

section
variable {raw : List UInt8} {pattern branch line : List Char} {lines hits : List (List Char)}

/-! ## The byte scan -/

/-- No literal is longer. -/
lemma length_le_max {l : List UInt8} {literals : List (List UInt8)} (mem : l ∈ literals) :
    l.length ≤ (literals.map List.length).foldr max 0 := by
  induction literals with
  | nil => cases mem
  | cons k literals ih =>
    rw [List.map_cons, List.foldr_cons]
    cases List.mem_cons.mp mem with
    | inl e => exact e ▸ Nat.le_max_left _ _
    | inr later => exact Nat.le_trans (ih later) (Nat.le_max_right _ _)

/-- The chunks hide no literal. -/
lemma streamContainsLiteral_iff {literals : List (List UInt8)} (proper : [] ∉ literals) :
    streamContainsLiteral raw literals = true ↔ ∃ l ∈ literals, l <:+: raw := by
  unfold streamContainsLiteral
  rw [searchBlocks_iff _ proper, flatten_blocksOf (by decide)]
  intro l mem
  have le := length_le_max mem
  omega

/-- Something is encoded. -/
lemma utf8Encode_ne_nil (some_ : branch ≠ []) : utf8Encode branch ≠ [] := by
  intro none
  have len := length_le_encode branch
  rw [none] at len
  exact some_ (List.eq_nil_of_length_eq_zero (Nat.le_zero.mp len))

/-- There is a branch. -/
lemma branches_ne_nil : branches pattern ≠ [] := List.splitOn_ne_nil _ _

/-- When literals are required. -/
lemma requiredLiterals_ne_nil : requiredLiterals pattern ≠ [] ↔ IsLiteral pattern := by
  unfold requiredLiterals
  split
  next is => simp [is, branches_ne_nil]
  next other => simp [other]

/-- A file is ruled out when it has the bytes of no branch. -/
lemma contains_iff (is : IsLiteral pattern) :
    streamContainsLiteral raw (requiredLiterals pattern) = true ↔
      ∃ branch ∈ branches pattern, utf8Encode branch <:+: raw := by
  have proper : [] ∉ requiredLiterals pattern := by
    rw [requiredLiterals, if_pos is]
    intro mem
    obtain ⟨branch, mem, none⟩ := List.mem_map.mp mem
    exact utf8Encode_ne_nil (is branch mem).1 none
  rw [streamContainsLiteral_iff proper, requiredLiterals, if_pos is]
  simp

/-! ## The line scan -/

/-- A scan that finds nothing leaves the hits as they are, and one that finds something does not. -/
lemma scanText_eq_iff {found : List Char → Bool} {displayPath : List Char} {maxResults lineno : Nat} :
    scanText found displayPath maxResults lineno lines hits = (hits, false) ↔ ∀ line ∈ lines, found line = false := by
  have grows : ∀ lines lineno hits,
      hits.length ≤ (scanText found displayPath maxResults lineno lines hits).1.length := by
    intro lines
    induction lines with
    | nil => exact fun _ _ => Nat.le_refl _
    | cons line lines ih =>
      intro lineno hits
      rw [scanText]
      split
      · have more := ih (lineno + 1) (hits ++ [hitText displayPath lineno line])
        rw [List.length_append] at more
        simp only
        split
        · rw [List.length_append]
          omega
        · omega
      · exact ih _ _
  induction lines generalizing lineno with
  | nil => simp [scanText]
  | cons line lines ih =>
    rw [scanText, List.forall_mem_cons]
    split
    next is =>
      rw [is]
      refine iff_of_false (fun same => ?_) fun none => Bool.noConfusion none.1
      have more := grows lines (lineno + 1) (hits ++ [hitText displayPath lineno line])
      simp only at same
      split at same
      · have lengths := congrArg (fun r => r.1.length) same
        simp at lengths
      · rw [same, List.length_append, List.length_singleton] at more
        exact absurd more (Nat.not_succ_le_self _)
    next other =>
      refine ih.trans ?_
      simp [other]

/-- What a line of the file has, the file has, unless the decoder put it there. -/
lemma encode_of_line (mem : line ∈ streamLines raw) (inside : branch <:+: line) (plain : ¬ Altered branch) :
    utf8Encode branch <:+: raw := by
  obtain ⟨clean, last⟩ := not_or.mp plain
  have noLf : '\n' ∉ branch := by
    intro lf
    obtain ⟨front, back, e⟩ := List.append_of_mem lf
    obtain ⟨before, behind, whole⟩ := inside
    have nothing : back ++ behind = [] := by
      apply lf_last rfl _ line mem (before ++ front)
      rw [← whole, e]
      simp
    rw [(List.append_eq_nil_iff.mp nothing).1] at e
    apply last
    rw [e]
    simp
  have text : branch <:+: normalize (decodeWith ['\uFFFD'] raw) := by
    rw [← @flatten_keepLines isLf (normalize _)]
    exact inside.trans (List.infix_of_mem_flatten mem)
  exact encode_infix_of_decode clean raw (infix_of_normalize noLf _ text)

/-! ## The prefilter -/

/-- The prefilter is invisible, if and only if a literal pattern with a branch that has U+FFFD or ends in a line feed
and that stands in a line of a text file has the bytes of one of its branches in the file. -/
theorem invisible_iff (regex : List Char → List Char → Bool) (pattern displayPath : List Char) (maxResults : Nat)
    (raw : List UInt8) (hits : List (List Char)) :
    Invisible regex pattern displayPath maxResults raw hits ↔
      (IsLiteral pattern → 0 ∉ raw.take binarySniffBytes →
        (∃ branch ∈ branches pattern, Altered branch ∧ ∃ line ∈ streamLines raw, branch <:+: line) →
        ∃ branch ∈ branches pattern, utf8Encode branch <:+: raw) := by
  unfold Invisible scanFile
  by_cases binary : 0 ∈ raw.take binarySniffBytes
  · simp [binary]
  by_cases is : IsLiteral pattern
  · rw [if_neg binary, if_neg binary, if_neg (fun h : [] ≠ [] ∧ _ => h.1 rfl)]
    have found : ∀ line, search regex pattern line = true ↔ ∃ branch ∈ branches pattern, branch <:+: line := by
      intro line
      rw [search, if_pos is]
      simp
    by_cases contained : streamContainsLiteral raw (requiredLiterals pattern) = true
    · rw [if_neg (by simp [contained])]
      exact iff_of_true rfl fun _ _ _ => (contains_iff is).mp contained
    · have missing : ¬ ∃ branch ∈ branches pattern, utf8Encode branch <:+: raw := fun h =>
        contained ((contains_iff is).mpr h)
      rw [if_pos ⟨requiredLiterals_ne_nil.mpr is, Bool.eq_false_iff.mpr contained⟩, eq_comm, scanText_eq_iff]
      constructor
      · rintro none _ _ ⟨branch, mem, -, line, here, inside⟩
        have hit := (found line).mpr ⟨branch, mem, inside⟩
        rw [none line here] at hit
        cases hit
      · intro altered line here
        rw [Bool.eq_false_iff]
        intro hit
        obtain ⟨branch, mem, inside⟩ := (found line).mp hit
        by_cases plain : Altered branch
        · exact missing (altered is binary ⟨branch, mem, plain, line, here, inside⟩)
        · exact missing ⟨branch, mem, encode_of_line here inside plain⟩
  · rw [requiredLiterals, if_neg is]
    exact iff_of_true rfl fun literal => absurd literal is

/-- `"a\n"` in a file with the line `"a\r\n"`. -/
theorem crlf_loses_hit : ¬ ∀ (regex : List Char → List Char → Bool) (pattern displayPath : List Char) (maxResults : Nat)
    (raw : List UInt8) (hits : List (List Char)), Invisible regex pattern displayPath maxResults raw hits := by
  intro all
  have same := all (fun _ _ => false) ['a', '\n'] ['f'] 100 [97, 13, 10] []
  have is : IsLiteral ['a', '\n'] := by decide
  have ruledOut : streamContainsLiteral [97, 13, 10] (requiredLiterals ['a', '\n']) = false := by
    rw [Bool.eq_false_iff]
    intro contained
    have found := (contains_iff is).mp contained
    revert found
    decide
  have hit : scanText (search (fun _ _ => false) ['a', '\n']) ['f'] 100 1 (streamLines [97, 13, 10]) [] ≠ ([], false) := by
    decide
  unfold Invisible scanFile at same
  rw [if_neg (by decide), if_pos ⟨requiredLiterals_ne_nil.mpr is, ruledOut⟩, if_neg (by decide), if_neg (by simp)] at same
  exact hit same.symm

end

end OpenAgentd.Filesystem.Prefilter
