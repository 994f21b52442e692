import OpenAgentd.Lib.Joined
import OpenAgentd.Upload.Service

/-!
# Stored names

The names under which uploads are stored. A sanitised name and its numbered variants have no separators and are more
than dots and blanks, so the route serves them if the second character is no colon (`getUploadedFile_variant_iff`).
How long they get is a matter of the extension, which is never cut (`length_sanitize_iff`, `length_variant_iff`).
The variants of a name differ in their numbers (`variant_inj`).
-/

namespace OpenAgentd.Upload
open Lib

/-- A text without separators of directories. -/
def Flat (s : List Char) : Prop := ∀ c ∈ s, c ≠ '/' ∧ c ≠ '\\'

/-- The length of what stands behind the stem in the numbered name. -/
def tailLength (filename : List Char) (index : Nat) : Nat := (pathSuffix filename).length + (numberSuffix index).length

/-- The stem that is numbered. -/
def numberedStem (filename : List Char) : List Char := orElse (pathStem filename) uploadWord

section
variable {s x y rawName filename : List Char} {category : Category} {c : Char} {i j k : Nat}

/-! ## Blanks -/

/-- A front is left. -/
lemma rstrip_front : rstrip s <+: s := by
  unfold rstrip
  rw [← List.reverse_suffix, List.reverse_reverse]
  exact List.dropWhile_suffix _

/-- Nothing is left of blanks. -/
lemma rstrip_eq_nil_iff : rstrip s = [] ↔ ∀ c ∈ s, pyIsSpace c = true := by
  unfold rstrip
  rw [List.reverse_eq_nil_iff, List.dropWhile_eq_nil_iff]
  exact forall_congr' fun c => by rw [List.mem_reverse]

/-- A character that is no blank stays where it is. -/
lemma getElem?_rstrip (here : s[i]? = some c) (other : pyIsSpace c = false) : (rstrip s)[i]? = some c := by
  obtain ⟨behind, e⟩ := rstrip_front (s := s)
  have blank : ∀ b ∈ behind, pyIsSpace b = true := by
    have parts := List.takeWhile_append_dropWhile (p := pyIsSpace) (l := s.reverse)
    have same : (rstrip s).reverse = s.reverse.dropWhile pyIsSpace := List.reverse_reverse _
    rw [← same, ← List.reverse_inj, List.reverse_append, List.reverse_reverse, List.reverse_reverse] at parts
    rw [List.append_cancel_left (e.trans parts.symm)]
    intro b mem
    exact List.mem_takeWhile_imp (List.mem_reverse.mp mem)
  have split := here
  rw [← e, List.getElem?_append] at split
  split at split
  next => exact split
  next =>
    rw [blank c (List.mem_of_getElem? split)] at other
    cases other

/-- The first, if there is one. -/
lemma orElse_eq_left (some : x ≠ []) : orElse x y = x := if_neg some

/-- Else the second. -/
lemma orElse_nil : orElse [] y = y := if_pos rfl

/-- One of them is there. -/
lemma orElse_ne_nil (some : y ≠ []) : orElse x y ≠ [] := by
  unfold orElse
  split
  next => exact some
  next other => exact other

/-! ## Separators -/

/-- A part of a flat name. -/
lemma Flat.of_subset (flat : Flat s) (sub : x ⊆ s) : Flat x := fun c mem => flat c (sub mem)

/-- Flat names in a row. -/
lemma Flat.append (hx : Flat x) (hy : Flat y) : Flat (x ++ y) := by
  intro c mem
  cases List.mem_append.mp mem with
  | inl mem => exact hx c mem
  | inr mem => exact hy c mem

/-- One or the other. -/
lemma Flat.orElse (hx : Flat x) (hy : Flat y) : Flat (orElse x y) := by
  unfold Upload.orElse
  split
  next => exact hy
  next => exact hx

/-- No slashes. -/
lemma flat_iff : Flat s ↔ '/' ∉ s ∧ '\\' ∉ s := by
  constructor
  · intro flat
    exact ⟨fun mem => (flat _ mem).1 rfl, fun mem => (flat _ mem).2 rfl⟩
  · intro none c mem
    exact ⟨fun e => none.1 (e ▸ mem), fun e => none.2 (e ▸ mem)⟩

/-- A default name. -/
lemma flat_uploadWord : Flat uploadWord := flat_iff.mpr ⟨by decide, by decide⟩

/-- A default extension. -/
lemma flat_defaultExt : Flat (defaultExt category) := by
  rw [flat_iff]
  cases category <;> exact ⟨by decide, by decide⟩

/-- The unsafe characters are gone. -/
lemma flat_subUnsafe (inRun : Bool) : Flat (subUnsafe inRun s) := by
  induction s generalizing inRun with
  | nil => exact fun c mem => absurd mem List.not_mem_nil
  | cons d s ih =>
    have cons : ∀ {b : Char} {r}, b ≠ '/' ∧ b ≠ '\\' → Flat r → Flat (b :: r) :=
      fun first rest => List.forall_mem_cons.mpr ⟨first, rest⟩
    rw [subUnsafe]
    split
    next =>
      split
      next => exact ih true
      next => exact cons ⟨by decide, by decide⟩ (ih true)
    next safe =>
      refine cons ⟨?_, ?_⟩ (ih false)
      · rintro rfl
        exact safe (by decide)
      · rintro rfl
        exact safe (by decide)

/-- A part is left. -/
lemma strip_subset {p : Char → Bool} : strip p s ⊆ s := by
  intro c mem
  have mem := (List.dropWhile_suffix p).subset (List.mem_reverse.mp mem)
  exact (List.dropWhile_suffix p).subset (List.mem_reverse.mp mem)

/-- A front is left. -/
lemma beforeAnchor_front : beforeAnchor s <+: s := by
  induction s with
  | nil => exact List.nil_prefix
  | cons d s ih =>
    unfold beforeAnchor
    split
    next => exact List.nil_prefix
    next e =>
      cases e
      exact List.cons_prefix_cons.mpr ⟨rfl, ih⟩
    next e => cases e

/-- A cleaned name is flat. -/
lemma flat_cleanName : Flat (cleanName rawName category) := by
  refine Flat.orElse ?_ (flat_uploadWord.append flat_defaultExt)
  exact (flat_subUnsafe false).of_subset (List.Subset.trans strip_subset strip_subset)

/-- A text without separators is its own name, unless it is a dot. -/
lemma pathName_of_flat (flat : Flat s) (some : s ≠ []) (other : s ≠ ['.']) : pathName s = s := by
  unfold pathName
  have kept : decide (s ≠ [] ∧ s ≠ ['.']) = true := decide_eq_true ⟨some, other⟩
  rw [List.splitOn_eq_singleton (flat_iff.mp flat).1, List.filter_cons, kept]
  rfl

/-- A front is left. -/
lemma pathName_front (flat : Flat s) : pathName s <+: s := by
  by_cases none : s = []
  · rw [none]
    exact List.nil_prefix
  · by_cases dot : s = ['.']
    · rw [dot]
      exact List.nil_prefix
    · exact ⟨[], by rw [List.append_nil, pathName_of_flat flat none dot]⟩

/-- The stem of a flat name. -/
lemma Flat.pathStem (flat : Flat s) : Flat (pathStem s) :=
  flat.of_subset (List.Subset.trans stem_front.subset (pathName_front flat).subset)

/-- The suffix of a flat name. -/
lemma Flat.pathSuffix (flat : Flat s) : Flat (pathSuffix s) := by
  refine flat.of_subset (List.Subset.trans ?_ (pathName_front flat).subset)
  have whole : (splitext '.' (pathName s)).1 ++ (splitext '.' (pathName s)).2 = pathName s := splitext_append
  intro c mem
  rw [← whole]
  exact List.mem_append_right _ mem

/-- A front of a flat name. -/
lemma Flat.rstrip_take (flat : Flat s) : Flat (rstrip (s.take k)) :=
  flat.of_subset (List.Subset.trans rstrip_front.subset (List.take_subset k s))

/-! ## Sanitised names -/

/-- The extension begins with a dot. -/
lemma uploadExt_dot : ∃ w, uploadExt rawName category = '.' :: w := by
  have default : ∃ w, defaultExt category = '.' :: w := by
    cases category <;> exact ⟨_, rfl⟩
  unfold uploadExt
  cases splitext_cases '.' (pathName (beforeAnchor (cleanName rawName category))) with
  | inl bare =>
    have none : pathSuffix (beforeAnchor (cleanName rawName category)) = [] := congrArg Prod.snd bare
    rwa [none, orElse_nil]
  | inr cut =>
    obtain ⟨a, w, _, _, _, cut⟩ := cut
    have some : pathSuffix (beforeAnchor (cleanName rawName category)) = '.' :: w := congrArg Prod.snd cut
    rw [some, orElse_eq_left (List.cons_ne_nil _ _)]
    exact ⟨w, rfl⟩

/-- A stripped text does not begin with what is stripped. -/
lemma head?_strip {p : Char → Bool} (head : (strip p s).head? = some c) : p c = false := by
  have front : strip p s <+: s.dropWhile p := by
    unfold strip
    rw [← List.reverse_suffix, List.reverse_reverse]
    exact List.dropWhile_suffix p
  obtain ⟨rest, e⟩ := List.head?_eq_some_iff.mp head
  obtain ⟨behind, whole⟩ := front
  have stop := List.head?_dropWhile_not p s
  rw [← whole, e] at stop
  simpa using stop

/-- The clean name does not begin with a dot. -/
lemma head?_cleanName : (cleanName rawName category).head? ≠ some '.' := by
  unfold cleanName
  dsimp only
  generalize strip pyIsSpace (subUnsafe false (pathName (orElse rawName uploadWord))) = x
  unfold orElse
  split
  next =>
    rw [List.head?_append]
    exact fun e => absurd (Option.some.inj e) (by decide)
  next =>
    intro dot
    exact absurd (head?_strip dot) (by decide)

/-- A front of a text that begins with no dot, or else the word. -/
lemma orElse_uploadWord (front : x <+: s) (head : s.head? ≠ some '.') :
    ∃ c w, orElse x uploadWord = c :: w ∧ c ≠ '.' ∧ (c :: w <+: s ∨ c :: w = uploadWord) := by
  cases x with
  | nil => exact ⟨'u', _, orElse_nil, by decide, .inr rfl⟩
  | cons c w =>
    refine ⟨c, w, orElse_eq_left (List.cons_ne_nil c w), ?_, .inl front⟩
    rintro rfl
    obtain ⟨behind, rfl⟩ := front
    exact head rfl

/-- The stem of the stored name is never empty and begins with no dot. -/
lemma uploadStem_spec : ∃ c w, uploadStem rawName category = c :: w ∧ c ≠ '.' ∧
    (c :: w).length ≤ filenameStemMaxLen := by
  have flat : Flat (beforeAnchor (cleanName rawName category)) := flat_cleanName.of_subset beforeAnchor_front.subset
  have front : pathStem (beforeAnchor (cleanName rawName category)) <+: cleanName rawName category :=
    (stem_front.trans (pathName_front flat)).trans beforeAnchor_front
  obtain ⟨c, w, e, other, _⟩ := orElse_uploadWord front head?_cleanName
  have cut : rstrip ((c :: w).take filenameStemMaxLen) <+: (c :: w).take filenameStemMaxLen := rstrip_front
  have head : ((c :: w).take filenameStemMaxLen).head? ≠ some '.' := by
    intro dot
    exact other (Option.some.inj dot)
  obtain ⟨d, v, e', other', inside⟩ := orElse_uploadWord cut head
  refine ⟨d, v, ?_, other', ?_⟩
  · unfold uploadStem
    dsimp only
    rw [e, e']
  · cases inside with
    | inl front =>
      have len := front.length_le
      rw [List.length_take] at len
      exact Nat.le_trans len (Nat.min_le_left _ _)
    | inr word =>
      rw [word]
      decide

/-- A sanitised name is flat. -/
lemma flat_sanitize : Flat (sanitizeUploadFilename rawName category) := by
  have flat : Flat (beforeAnchor (cleanName rawName category)) := flat_cleanName.of_subset beforeAnchor_front.subset
  have ext : Flat (uploadExt rawName category) := flat.pathSuffix.orElse flat_defaultExt
  have stem : Flat (uploadStem rawName category) :=
    (flat.pathStem.orElse flat_uploadWord).rstrip_take.orElse flat_uploadWord
  unfold sanitizeUploadFilename
  dsimp only
  split
  next => exact stem.append ext
  next => exact stem.rstrip_take.append ext

/-- The sanitised name is no dots and not blank. -/
lemma sanitize_spec : '.' ∈ sanitizeUploadFilename rawName category ∧
    ∃ c w, sanitizeUploadFilename rawName category = c :: w ∧ (c ≠ '.' ∨ 1 < w.length) := by
  obtain ⟨c, w, stem, other, short⟩ := @uploadStem_spec rawName category
  obtain ⟨v, ext⟩ := @uploadExt_dot rawName category
  unfold sanitizeUploadFilename
  dsimp only
  rw [stem, ext]
  split
  next => exact ⟨List.mem_append_right _ List.mem_cons_self, c, _, rfl, .inl other⟩
  next long =>
    refine ⟨List.mem_append_right _ List.mem_cons_self, ?_⟩
    cases cut : rstrip ((c :: w).take (max 1 (maxFilenameLen - ('.' :: v).length))) with
    | nil =>
      refine ⟨'.', v, rfl, .inr ?_⟩
      simp only [List.length_append, List.length_cons, filenameStemMaxLen, maxFilenameLen] at short long
      omega
    | cons d u =>
      refine ⟨d, _, rfl, .inl ?_⟩
      have front : d :: u <+: c :: w := (cut ▸ rstrip_front).trans (List.take_prefix _ _)
      rw [(List.cons_prefix_cons.mp front).1]
      exact other

/-- The extension leaves room in a name. -/
def Roomy (rawName : List Char) (category : Category) : Prop :=
  (uploadExt rawName category).length < maxFilenameLen ∨
    (uploadExt rawName category).length = maxFilenameLen ∧ ∀ c ∈ (uploadStem rawName category).head?, pyIsSpace c = true

/-- A sanitised name is short enough if and only if the extension leaves room. -/
lemma length_sanitize_iff :
    (sanitizeUploadFilename rawName category).length ≤ maxFilenameLen ↔ Roomy rawName category := by
  obtain ⟨c, w, stem, _, _⟩ := @uploadStem_spec rawName category
  unfold sanitizeUploadFilename Roomy
  dsimp only
  rw [stem]
  generalize uploadExt rawName category = ext
  split
  next fits =>
    refine iff_of_true fits (.inl ?_)
    rw [List.length_append, List.length_cons] at fits
    omega
  next long =>
    rw [List.length_append]
    have cut : (rstrip ((c :: w).take (max 1 (maxFilenameLen - ext.length)))).length ≤
        max 1 (maxFilenameLen - ext.length) :=
      Nat.le_trans rstrip_front.length_le (List.length_take_le _ _)
    by_cases less : ext.length < maxFilenameLen
    · exact iff_of_true (by omega) (.inl less)
    · have one : max 1 (maxFilenameLen - ext.length) = 1 := by omega
      rw [one] at cut ⊢
      by_cases blank : pyIsSpace c = true
      · have none : rstrip ((c :: w).take 1) = [] :=
          rstrip_eq_nil_iff.mpr fun b mem => by rw [List.mem_singleton.mp mem]; exact blank
        rw [none, List.length_nil, Nat.zero_add]
        constructor
        · intro short
          exact .inr ⟨Nat.le_antisymm short (Nat.not_lt.mp less), fun b mem => Option.mem_some_iff.mp mem ▸ blank⟩
        · intro either
          exact Nat.le_of_eq (either.resolve_left less).1
      · have some : rstrip ((c :: w).take 1) ≠ [] := fun none =>
          blank (rstrip_eq_nil_iff.mp none c (List.mem_cons_self))
        have pos := List.length_pos_iff.mpr some
        refine iff_of_false (by omega) fun either => ?_
        exact blank ((either.resolve_left less).2 c (Option.mem_some_self c))

/-! ## Numbered names -/

/-- A number is flat. -/
lemma flat_numberSuffix : Flat (numberSuffix i) := by
  have digits : Flat (Nat.toDigits 10 i) := by
    intro c mem
    have digit := Nat.isDigit_of_mem_toDigits (by decide) (by decide) mem
    constructor
    · rintro rfl
      exact absurd digit (by decide)
    · rintro rfl
      exact absurd digit (by decide)
  have front : Flat [' ', '('] := flat_iff.mpr ⟨by decide, by decide⟩
  have back : Flat [')'] := flat_iff.mpr ⟨by decide, by decide⟩
  exact (front.append digits).append back

/-- The next variant. -/
lemma variant_succ : variant filename (i + 1) =
    orElse (rstrip ((numberedStem filename).take (max 1 (maxFilenameLen - tailLength filename (i + 1))))) uploadWord ++
      numberSuffix (i + 1) ++ pathSuffix filename := by
  rw [variant, tailLength, numberedStem, Nat.sub_sub]

/-- Variants are flat. -/
lemma flat_variant (flat : Flat filename) : Flat (variant filename i) := by
  cases i with
  | zero => exact flat
  | succ i =>
    rw [variant_succ]
    have stem : Flat (numberedStem filename) := flat.pathStem.orElse flat_uploadWord
    exact ((stem.rstrip_take.orElse flat_uploadWord).append flat_numberSuffix).append flat.pathSuffix

/-- There is always a stem in front of the number. -/
lemma stem_ne_nil : orElse x uploadWord ≠ [] := orElse_ne_nil (List.cons_ne_nil _ _)

/-- A numbered name is short enough if and only if number and extension leave room, for the word where the stem is
blank. -/
lemma length_variant_iff : (variant filename (i + 1)).length ≤ maxFilenameLen ↔
    tailLength filename (i + 1) < maxFilenameLen ∧
      (tailLength filename (i + 1) + uploadWord.length ≤ maxFilenameLen ∨
        ∃ c ∈ (numberedStem filename).take (maxFilenameLen - tailLength filename (i + 1)), pyIsSpace c = false) := by
  have total : (variant filename (i + 1)).length =
      (orElse (rstrip ((numberedStem filename).take (max 1 (maxFilenameLen - tailLength filename (i + 1)))))
        uploadWord).length + tailLength filename (i + 1) := by
    rw [variant_succ, List.length_append, List.length_append, tailLength]
    omega
  rw [total]
  generalize tailLength filename (i + 1) = k
  generalize numberedStem filename = stem
  by_cases room : k < maxFilenameLen
  · have allowed : max 1 (maxFilenameLen - k) = maxFilenameLen - k := by omega
    rw [allowed]
    by_cases blank : rstrip (stem.take (maxFilenameLen - k)) = []
    · rw [blank, orElse_nil]
      refine ⟨fun short => ⟨room, .inl (by omega)⟩, fun both => ?_⟩
      cases both.2 with
      | inl short => omega
      | inr other =>
        obtain ⟨c, mem, other⟩ := other
        rw [rstrip_eq_nil_iff.mp blank c mem] at other
        cases other
    · rw [orElse_eq_left blank]
      have cut := Nat.le_trans rstrip_front.length_le (List.length_take_le (maxFilenameLen - k) stem)
      refine iff_of_true (by omega) ⟨room, .inr ?_⟩
      by_contra none
      refine blank (rstrip_eq_nil_iff.mpr fun c mem => ?_)
      by_contra other
      exact none ⟨c, mem, by simpa using other⟩
  · have pos := List.length_pos_iff.mpr
      (stem_ne_nil (x := rstrip (stem.take (max 1 (maxFilenameLen - k)))))
    exact iff_of_false (by omega) fun both => room both.1

/-- The second character of a numbered name is a colon if and only if that of the stem is one that is kept. -/
lemma colon_variant_iff : (variant filename (i + 1))[1]? = some ':' ↔
    (numberedStem filename)[1]? = some ':' ∧ tailLength filename (i + 1) + 2 ≤ maxFilenameLen := by
  rw [variant_succ, List.append_assoc]
  generalize tailLength filename (i + 1) = k
  generalize numberedStem filename = stem
  constructor
  · intro colon
    by_cases blank : rstrip (stem.take (max 1 (maxFilenameLen - k))) = []
    · rw [blank, orElse_nil] at colon
      exact absurd (Option.some.inj colon) (by decide)
    · rw [orElse_eq_left blank, List.getElem?_append] at colon
      split at colon
      next inside =>
        obtain ⟨behind, e⟩ := rstrip_front (s := stem.take (max 1 (maxFilenameLen - k)))
        have there : (stem.take (max 1 (maxFilenameLen - k)))[1]? = some ':' := by
          rw [← e, List.getElem?_append_left inside, colon]
        rw [List.getElem?_take] at there
        split at there
        next => exact ⟨there, by omega⟩
        next => cases there
      next outside =>
        have one : (rstrip (stem.take (max 1 (maxFilenameLen - k)))).length = 1 := by
          have pos := List.length_pos_iff.mpr blank
          omega
        rw [one] at colon
        exact absurd (Option.some.inj colon) (by decide)
  · rintro ⟨colon, room⟩
    have there : (stem.take (max 1 (maxFilenameLen - k)))[1]? = some ':' := by
      rw [List.getElem?_take, if_pos (by omega)]
      exact colon
    have kept := getElem?_rstrip there (by decide)
    have some : rstrip (stem.take (max 1 (maxFilenameLen - k))) ≠ [] := by
      intro none
      rw [none] at kept
      cases kept
    rw [orElse_eq_left some, List.getElem?_append_left (List.getElem?_eq_some_iff.mp kept).1]
    exact kept

/-- Numbered names differ in their numbers. -/
lemma variant_inj (same : variant filename (i + 1) = variant filename (j + 1)) : i = j := by
  rw [variant_succ, variant_succ] at same
  have same := List.append_cancel_right same
  generalize orElse (rstrip _) uploadWord = x at same
  generalize orElse (rstrip _) uploadWord = y at same
  have digits : ∀ (n : Nat) (z : List Char),
      ((z ++ numberSuffix n).reverse.drop 1).takeWhile Char.isDigit = (Nat.toDigits 10 n).reverse := by
    intro n z
    have rev : (z ++ numberSuffix n).reverse = ')' :: ((Nat.toDigits 10 n).reverse ++ '(' :: ' ' :: z.reverse) := by
      simp [numberSuffix]
    have all : ∀ c ∈ (Nat.toDigits 10 n).reverse, c.isDigit = true := fun c mem =>
      Nat.isDigit_of_mem_toDigits (by decide) (by decide) (List.mem_reverse.mp mem)
    have stop : ('(' :: ' ' :: z.reverse).takeWhile Char.isDigit = [] := rfl
    rw [rev, List.drop_succ_cons, List.drop_zero, List.takeWhile_append_of_pos all, stop, List.append_nil]
  have numbers := congrArg (fun s : List Char => (s.reverse.drop 1).takeWhile Char.isDigit) same
  rw [digits, digits, List.reverse_inj] at numbers
  have values := congrArg (fun ds => Nat.ofDigitChars 10 ds 0) numbers
  rw [Nat.ofDigitChars_ten_toDigits, Nat.ofDigitChars_ten_toDigits] at values
  exact Nat.succ.inj values

/-! ## Serving -/

/-- A name without separators that is more than dots and blanks is served unless it begins like a drive. -/
lemma getUploadedFile_iff {d : Uploads} {data : List UInt8} {name : List Char}
    (file : d.node? name = some (.file data))
    (flat : Flat name) (text : ∃ c ∈ name, pyIsSpace c = false)
    (named : ∃ c w, name = c :: w ∧ (c ≠ '.' ∨ 1 < w.length)) :
    getUploadedFile d name = .ok data ↔ name[1]? ≠ some ':' := by
  have accepted : ¬ ('/' ∈ name ∨ '\\' ∈ name ∨ name = [] ∨ name = ['.'] ∨ name = ['.', '.']) := by
    obtain ⟨c, w, e, other⟩ := named
    have dots : ∀ v, w = v → v.length < 2 → c ≠ '.' := by
      rintro v rfl short
      exact other.resolve_right (by omega)
    rintro (slash | back | none | dot | two)
    · exact (flat_iff.mp flat).1 slash
    · exact (flat_iff.mp flat).2 back
    · exact List.cons_ne_nil c w (e.symm.trans none)
    · obtain ⟨here, rest⟩ := List.cons.inj (e.symm.trans dot)
      exact dots [] rest (by decide) here
    · obtain ⟨here, rest⟩ := List.cons.inj (e.symm.trans two)
      exact dots ['.'] rest (by decide) here
  have blank : ¬ name.all pyIsSpace = true := by
    intro all
    obtain ⟨b, mem, other⟩ := text
    rw [List.all_eq_true.mp all b mem] at other
    cases other
  rw [getUploadedFile, if_neg accepted, safeResolve, if_neg blank, file]
  split
  next colon => exact iff_of_false nofun fun other => other colon
  next other => exact iff_of_true rfl other

/-- A numbered name is more than dots and blanks. -/
lemma variant_text (h : ∃ c ∈ filename, pyIsSpace c = false) : ∃ c ∈ variant filename i, pyIsSpace c = false := by
  cases i with
  | zero => exact h
  | succ i =>
    have mem : '(' ∈ variant filename (i + 1) := by
      rw [variant_succ, List.append_assoc]
      exact List.mem_append_right _ (List.mem_append_left _ (List.mem_cons_of_mem _ List.mem_cons_self))
    exact ⟨'(', mem, by decide⟩

/-- Variants are names. -/
lemma variant_named (h : ∃ c w, filename = c :: w ∧ (c ≠ '.' ∨ 1 < w.length)) :
    ∃ c w, variant filename i = c :: w ∧ (c ≠ '.' ∨ 1 < w.length) := by
  cases i with
  | zero => exact h
  | succ i =>
    rw [variant_succ, List.append_assoc]
    generalize rstrip (List.take _ _) = x
    obtain ⟨c, w, e⟩ := List.exists_cons_of_ne_nil (@stem_ne_nil x)
    refine ⟨c, w ++ (numberSuffix (i + 1) ++ pathSuffix filename), by rw [e, List.cons_append], .inr ?_⟩
    simp only [numberSuffix, List.length_append, List.length_cons]
    omega

/-- The route serves a stored name if and only if its second character is no colon. -/
lemma getUploadedFile_variant_iff {d : Uploads} {data : List UInt8}
    (file : d.node? (variant (sanitizeUploadFilename rawName category) i) = some (.file data)) :
    getUploadedFile d (variant (sanitizeUploadFilename rawName category) i) = .ok data ↔
      (variant (sanitizeUploadFilename rawName category) i)[1]? ≠ some ':' := by
  obtain ⟨dot, named⟩ := @sanitize_spec rawName category
  have flat := @flat_sanitize rawName category
  generalize sanitizeUploadFilename rawName category = filename at *
  have text : ∃ c ∈ filename, pyIsSpace c = false := ⟨'.', dot, by decide⟩
  exact getUploadedFile_iff file (flat_variant flat) (variant_text text) (variant_named named)

end

end OpenAgentd.Upload
