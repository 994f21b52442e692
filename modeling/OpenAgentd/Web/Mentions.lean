import Mathlib.Data.List.DropRight
import Mathlib.Data.List.Sort
import Mathlib.Tactic.Lemma

/-!
# Mentions in a message

`web/src/components/InputComposer.mentions.ts`: where a text mentions files with `@path`. With the list of the mentions
that were picked, the text is searched for the token of each path, longest path first; without it, the text is scanned
for tokens. A text is the list of its UTF-16 units, by which the source counts and compares; it holds no surrogates, so
each unit is a character.

The test that keeps a new range off the ranges that are there asks for the ends of the new range only. A range that lies
inside the new one would pass it, but no range is so much shorter than a token that comes after it (`Taken.room`). So
the ranges never overlap, and in the search no mention is passed over (`mentions_committed`).
-/

namespace OpenAgentd.Web

/-- A part of a text. -/
structure TextRange where
  start : Nat
  stop : Nat
  deriving DecidableEq

/-- `MentionRange`. -/
structure MentionRange extends TextRange where
  path : List Char
  deriving DecidableEq

/-- `MentionLookup`. -/
structure MentionLookup where
  valid : List (List Char)
  validLineBases : List (List Char)

/-- `/\s/`, and what `trim` removes. -/
def isSpace (c : Char) : Bool :=
  c ∈ ['\t', '\n', '\x0b', '\x0c', '\r', ' ', '\u00a0', '\u1680', '\u2028', '\u2029', '\u202f', '\u205f', '\u3000',
    '\ufeff'] || ('\u2000' ≤ c && c ≤ '\u200a')

/-- A text that is `\d+` as a whole. -/
def isNumber (s : List Char) : Bool := s ≠ [] && s.all Char.isDigit

/-- A text that is `#L\d+(?:-L?\d+)?` as a whole. -/
def isLineRef (s : List Char) : Bool :=
  match s with
  | '#' :: 'L' :: s =>
    let number := s.takeWhile Char.isDigit
    isNumber number &&
      match s.drop number.length with
      | [] => true
      | '-' :: 'L' :: more => isNumber more
      | '-' :: more => isNumber more
      | _ => false
  | _ => false

/-- `token.replace(/#L\d+(?:-L?\d+)?$/, '')`. -/
def stripLineRef (token : List Char) : List Char :=
  match token with
  | [] => []
  | c :: s => if isLineRef (c :: s) then [] else c :: stripLineRef s

def resolvesInLookup (token : List Char) (lookup : MentionLookup) : Bool :=
  lookup.valid.contains token || lookup.valid.contains (token ++ ['/']) ||
    (stripLineRef token ≠ token && lookup.validLineBases.contains (stripLineRef token))

/-! ## The search -/

/-- The indices that `indexOf(token)` and then `indexOf(token, idx + 1)` find, in a text from the index `i` on. -/
def occurrences (token : List Char) (i : Nat) : List Char → List Nat
  | [] => []
  | c :: s =>
    let rest := occurrences token (i + 1) s
    if token.isPrefixOf (c :: s) then i :: rest else rest

/-- `/\s|["'([{,]/.test(before)`, or the start of the text. -/
def validBefore (value : List Char) (idx : Nat) : Bool :=
  match idx with
  | 0 => true
  | idx + 1 => value[idx]?.any fun c => isSpace c || c ∈ ['"', '\'', '(', '[', '{', ',']

/-- The token ends with a slash, the text ends behind it, or `/[\s#"')\]},]/.test(charAfter)`. -/
def validAfter (value token : List Char) (stop : Nat) : Bool :=
  token.getLast? = some '/' ||
    value[stop]?.all fun c => isSpace c || c ∈ ['#', '"', '\'', ')', ']', '}', ',']

/-- The test against the ranges that are there. -/
def overlaps (ranges : List MentionRange) (idx stop : Nat) : Bool :=
  ranges.any fun r => (r.start ≤ idx && idx < r.stop) || (r.start < stop && stop ≤ r.stop)

/-- The body of the loop over the indices of a token. -/
def addRange (value path token : List Char) (ranges : List MentionRange) (idx : Nat) : List MentionRange :=
  let stop := idx + token.length
  if validBefore value idx && validAfter value token stop && !overlaps ranges idx stop then
    ranges ++ [⟨⟨idx, stop⟩, path⟩]
  else ranges

/-- The two tokens of a path, the directory first. -/
def tokens (path : List Char) : List (List Char) := ['@' :: path ++ ['/'], '@' :: path]

/-- The paths with their tokens in the order of the search. -/
def searches (paths : List (List Char)) : List (List Char × List Char) :=
  (paths.insertionSort fun a b => b.length ≤ a.length).flatMap fun path => (tokens path).map (path, ·)

/-- The ranges before they are sorted. -/
def foundRanges (value : List Char) (paths : List (List Char)) : List MentionRange :=
  (searches paths).foldl (fun ranges s => (occurrences s.2 0 value).foldl (addRange value s.1 s.2) ranges) []

def getExplicitMentionRanges (value : List Char) (paths : List (List Char)) : List MentionRange :=
  (foundRanges value paths).insertionSort fun a b => a.start ≤ b.start

/-! ## The scan -/

/-- `/[,.;:!?)]/`. -/
def isClosing (c : Char) : Bool := c ∈ [',', '.', ';', ':', '!', '?', ')']

/-- The scan of a text from the index `i` on, behind the character `before`. -/
def scanMentions (lookup : Option MentionLookup) (active : Option TextRange) (before : Option Char) (i : Nat) :
    List Char → List TextRange
  | [] => []
  | c :: s =>
    let word := s.takeWhile fun c => !isSpace c
    let body := word.rdropWhile isClosing
    if c ≠ '@' || !before.all isSpace || body = [] then scanMentions lookup active (some c) (i + 1) s
    else
      let rest :=
        match h : s.drop word.length with
        | [] => []
        | d :: rest => scanMentions lookup active (some d) (i + 1 + word.length + 1) rest
      if active.any (·.start = i) || !lookup.all (resolvesInLookup ('@' :: body)) then rest
      else ⟨i, i + 1 + body.length⟩ :: rest
termination_by s => s.length
decreasing_by
  · exact Nat.lt_succ_self s.length
  · have len := congrArg List.length h
    rw [List.length_drop, List.length_cons] at len
    exact Nat.lt_succ_of_le (by omega)

def findCommittedMentions (value : List Char) (active : Option TextRange) (lookup : Option MentionLookup)
    (mentions : Option (List (List Char))) : List TextRange :=
  match mentions with
  | some paths =>
    let validated := (getExplicitMentionRanges value paths).filter fun r =>
      lookup.all (resolvesInLookup ('@' :: r.path))
    (validated.filter fun r => !active.any fun a => r.start ≤ a.start && a.start < r.stop).map (·.toTextRange)
  | none => scanMentions lookup active none 0 value

/-! ## The ranges of the search -/

/-- The ranges lie in the text one behind the other, each at a sign. -/
structure Committed (value : List Char) (ranges : List TextRange) : Prop where
  apart : ranges.Pairwise fun a b => a.stop ≤ b.start
  inside : ∀ r ∈ ranges, r.start < r.stop ∧ r.stop ≤ value.length ∧ value[r.start]? = some '@'

/-- A token of a picked path stands in the text where a mention may begin and end. -/
def Mentioned (value : List Char) (paths : List (List Char)) (idx stop : Nat) : Prop :=
  ∃ s ∈ searches paths, s.2 <+: value.drop idx ∧ stop = idx + s.2.length ∧ validBefore value idx = true ∧
    validAfter value s.2 stop = true

/-- The ranges share a place with each mention. -/
def Complete (value : List Char) (paths : List (List Char)) (ranges : List MentionRange) : Prop :=
  ∀ idx stop, Mentioned value paths idx stop → ∃ r ∈ ranges, r.start < stop ∧ idx < r.stop

section
variable {value path token : List Char} {paths : List (List Char)} {ranges : List MentionRange} {idx stop n : Nat}
  {s : List Char × List Char}

/-- Where a token occurs. -/
lemma mem_occurrences (some : token ≠ []) (i : Nat) (value : List Char) :
    idx ∈ occurrences token i value ↔ i ≤ idx ∧ token <+: value.drop (idx - i) := by
  induction value generalizing i with
  | nil =>
    rw [occurrences, List.drop_nil, List.prefix_nil]
    exact iff_of_false List.not_mem_nil fun wrong => some wrong.2
  | cons c value ih =>
    have later : i + 1 ≤ idx → value.drop (idx - (i + 1)) = (c :: value).drop (idx - i) := by
      intro le
      rw [show idx - i = idx - (i + 1) + 1 by omega, List.drop_succ_cons]
    rw [occurrences]
    by_cases here : idx = i
    · subst here
      rw [Nat.sub_self, List.drop_zero]
      split
      next found => exact iff_of_true List.mem_cons_self ⟨le_rfl, List.isPrefixOf_iff_prefix.mp found⟩
      next missing =>
        rw [ih]
        exact iff_of_false (fun wrong => Nat.not_succ_le_self _ wrong.1) fun wrong =>
          missing (List.isPrefixOf_iff_prefix.mpr wrong.2)
    · have behind : idx ∈ occurrences token (i + 1) value ↔ i ≤ idx ∧ token <+: (c :: value).drop (idx - i) := by
        rw [ih]
        constructor
        · intro found
          exact ⟨Nat.le_of_succ_le found.1, later found.1 ▸ found.2⟩
        · intro found
          have le : i + 1 ≤ idx := by omega
          exact ⟨le, (later le).symm ▸ found.2⟩
      split
      · rw [List.mem_cons, behind]
        exact or_iff_right here
      · exact behind

/-- The ranges that are there when the next token is `n` characters long: they do not overlap, and none is shorter by
more than one. -/
structure Taken (value : List Char) (n : Nat) (ranges : List MentionRange) : Prop where
  apart : ranges.Pairwise fun a b => a.stop ≤ b.start ∨ b.stop ≤ a.start
  room : ∀ r ∈ ranges, r.start + n ≤ r.stop + 1
  inside : ∀ r ∈ ranges, r.start < r.stop ∧ r.stop ≤ value.length ∧ value[r.start]? = some '@'

/-- A range that passes the test overlaps none that is there, and leaves room for tokens longer by one. -/
lemma Taken.add (t : Taken value token.length ranges) (next : Taken value n ranges) (le : n ≤ token.length + 1)
    (sign : token.head? = some '@') (found : token <+: value.drop idx) :
    Taken value n (addRange value path token ranges idx) := by
  have some : 0 < token.length := by
    rw [List.length_pos_iff]
    rintro rfl
    cases sign
  unfold addRange
  dsimp only
  split
  next free =>
    rw [Bool.and_eq_true, Bool.not_eq_true', overlaps, List.any_eq_false] at free
    have clear : ∀ r ∈ ranges, r.stop ≤ idx ∨ idx + token.length ≤ r.start := by
      intro r mem
      have test := free.2 r mem
      simp only [Bool.or_eq_true, Bool.and_eq_true, decide_eq_true_eq] at test
      have room := t.room r mem
      have own := (t.inside r mem).1
      omega
    have len := found.length_le
    rw [List.length_drop] at len
    refine ⟨?_, ?_, ?_⟩
    · rw [List.pairwise_append]
      refine ⟨t.apart, List.pairwise_singleton _ _, fun r mem x mem' => ?_⟩
      rw [List.mem_singleton.mp mem']
      exact clear r mem
    · intro r mem
      rw [List.mem_append, List.mem_singleton] at mem
      cases mem with
      | inl mem => exact next.room r mem
      | inr new =>
        rw [new]
        change idx + n ≤ idx + token.length + 1
        omega
    · intro r mem
      rw [List.mem_append, List.mem_singleton] at mem
      cases mem with
      | inl mem => exact t.inside r mem
      | inr new =>
        rw [new]
        refine ⟨Nat.lt_add_of_pos_right some, by change idx + token.length ≤ value.length; omega, ?_⟩
        obtain ⟨rest, e⟩ := found
        change value[idx]? = _
        rw [← List.head?_drop, ← e, List.head?_append, sign]
        rfl
  · exact next

/-- A place where the test fails is taken, and one where it does not fail is taken afterwards. -/
lemma covered_add (some : 0 < token.length) (before : validBefore value idx = true)
    (after : validAfter value token (idx + token.length) = true) :
    ∃ r ∈ addRange value path token ranges idx, r.start < idx + token.length ∧ idx < r.stop := by
  unfold addRange
  dsimp only
  rw [before, after, Bool.true_and, Bool.true_and]
  split
  · refine ⟨_, List.mem_append_right _ (List.mem_singleton_self _), ?_⟩
    exact ⟨Nat.lt_add_of_pos_right some, Nat.lt_add_of_pos_right some⟩
  next taken =>
    rw [Bool.not_eq_true', Bool.not_eq_false, overlaps, List.any_eq_true] at taken
    obtain ⟨r, mem, test⟩ := taken
    simp only [Bool.or_eq_true, Bool.and_eq_true, decide_eq_true_eq] at test
    exact ⟨r, mem, by omega⟩

/-- Ranges stay. -/
lemma subset_add : ranges ⊆ addRange value path token ranges idx := by
  unfold addRange
  dsimp only
  split
  · exact List.subset_append_left _ _
  · exact List.Subset.refl _

/-- Ranges stay. -/
lemma subset_foldl (indices : List Nat) : ranges ⊆ indices.foldl (addRange value path token) ranges := by
  induction indices generalizing ranges with
  | nil => exact List.Subset.refl _
  | cons idx indices ih => exact List.Subset.trans subset_add ih

/-- The ranges of one token more. -/
lemma Taken.addAll {indices : List Nat} (t : Taken value token.length ranges) (next : Taken value n ranges)
    (le : n ≤ token.length + 1) (sign : token.head? = some '@') (found : ∀ idx ∈ indices, token <+: value.drop idx) :
    Taken value n (indices.foldl (addRange value path token) ranges) := by
  induction indices generalizing ranges with
  | nil => exact next
  | cons idx indices ih =>
    have here := found idx List.mem_cons_self
    exact ih (t.add t (Nat.le_succ _) sign here) (t.add next le sign here) fun i mem =>
      found i (List.mem_cons_of_mem _ mem)

/-- An occurrence is covered. -/
lemma covered_addAll {indices : List Nat} (some : 0 < token.length) (mem : idx ∈ indices)
    (before : validBefore value idx = true) (after : validAfter value token (idx + token.length) = true) :
    ∃ r ∈ indices.foldl (addRange value path token) ranges, r.start < idx + token.length ∧ idx < r.stop := by
  induction indices generalizing ranges with
  | nil => cases mem
  | cons i indices ih =>
    cases mem with
    | head =>
      have here : ∃ r ∈ addRange value path token ranges idx, r.start < idx + token.length ∧ idx < r.stop :=
        covered_add some before after
      obtain ⟨r, mem, shared⟩ := here
      exact ⟨r, subset_foldl indices mem, shared⟩
    | tail _ mem => exact ih mem

/-! ## All tokens -/

/-- The searches of one token. -/
def searchOne (value : List Char) (ranges : List MentionRange) (s : List Char × List Char) : List MentionRange :=
  (occurrences s.2 0 value).foldl (addRange value s.1 s.2) ranges

/-- What is searched. -/
lemma mem_searches : s ∈ searches paths ↔ s.1 ∈ paths ∧ s.2 ∈ tokens s.1 := by
  rw [searches, List.mem_flatMap]
  constructor
  · intro found
    obtain ⟨path, mem, pair⟩ := found
    obtain ⟨token, mem', rfl⟩ := List.mem_map.mp pair
    exact ⟨(List.mem_insertionSort _).mp mem, mem'⟩
  · intro found
    exact ⟨s.1, (List.mem_insertionSort _).mpr found.1, List.mem_map_of_mem found.2⟩

/-- A token begins with its sign. -/
lemma head?_of_searches (mem : s ∈ searches paths) : s.2.head? = some '@' := by
  have token := (mem_searches.mp mem).2
  rw [tokens, List.mem_pair] at token
  cases token with
  | inl e =>
    rw [e]
    rfl
  | inr e =>
    rw [e]
    rfl

/-- A token comes only after tokens that are shorter by one at most. -/
lemma searches_pairwise (paths : List (List Char)) :
    (searches paths).Pairwise fun s t => t.2.length ≤ s.2.length + 1 := by
  have bounds : ∀ {path token : List Char}, token ∈ tokens path →
      path.length + 1 ≤ token.length ∧ token.length ≤ path.length + 2 := by
    intro path token mem
    rw [tokens, List.mem_pair] at mem
    cases mem with
    | inl e =>
      rw [e, List.length_append, List.length_cons, List.length_singleton]
      omega
    | inr e =>
      rw [e, List.length_cons]
      omega
  rw [searches, List.pairwise_flatMap]
  constructor
  · intro path _
    rw [List.pairwise_map]
    apply List.pairwise_of_forall_mem_list
    intro token mem token' mem'
    have bound := bounds mem
    have bound' := bounds mem'
    change token'.length ≤ token.length + 1
    omega
  · have sorted := List.pairwise_insertionSort (fun a b : List Char => b.length ≤ a.length) paths
    refine sorted.imp fun {a b} le s mem t mem' => ?_
    obtain ⟨token, own, rfl⟩ := List.mem_map.mp mem
    obtain ⟨token', own', rfl⟩ := List.mem_map.mp mem'
    have bound := bounds own
    have bound' := bounds own'
    change token'.length ≤ token.length + 1
    omega

/-- Over the searches in their order, each token finds the room it needs. -/
lemma taken_foldl {l : List (List Char × List Char)} (order : l.Pairwise fun s t => t.2.length ≤ s.2.length + 1)
    (signs : ∀ s ∈ l, s.2.head? = some '@') (t : Taken value 0 ranges) (room : ∀ s ∈ l, Taken value s.2.length ranges) :
    Taken value 0 (l.foldl (searchOne value) ranges) := by
  induction l generalizing ranges with
  | nil => exact t
  | cons s l ih =>
    obtain ⟨first, rest⟩ := List.pairwise_cons.mp order
    have sign := signs s List.mem_cons_self
    have some : s.2 ≠ [] := by
      intro none
      rw [none] at sign
      cases sign
    have found : ∀ idx ∈ occurrences s.2 0 value, s.2 <+: value.drop idx := fun idx mem =>
      ((mem_occurrences some 0 value).mp mem).2
    have own := room s List.mem_cons_self
    refine ih rest (fun t mem => signs t (List.mem_cons_of_mem _ mem)) ?_ fun t mem => ?_
    · exact own.addAll t (Nat.zero_le _) sign found
    · exact own.addAll (room t (List.mem_cons_of_mem _ mem)) (first t mem) sign found

/-- Ranges stay. -/
lemma subset_searches (l : List (List Char × List Char)) : ranges ⊆ l.foldl (searchOne value) ranges := by
  induction l generalizing ranges with
  | nil => exact List.Subset.refl _
  | cons s l ih => exact List.Subset.trans (subset_foldl _) ih

/-- Token by token. -/
lemma foundRanges_eq (value : List Char) (paths : List (List Char)) :
    foundRanges value paths = (searches paths).foldl (searchOne value) [] := rfl

/-- The ranges do not overlap. -/
lemma taken_foundRanges (value : List Char) (paths : List (List Char)) : Taken value 0 (foundRanges value paths) := by
  have none : ∀ n, Taken value n [] := fun n => ⟨.nil, nofun, nofun⟩
  rw [foundRanges_eq]
  exact taken_foldl (searches_pairwise paths) (fun s mem => head?_of_searches mem) (none 0) fun s _ => none _

/-- Apart, and in the order of their starts, ranges lie one behind the other. -/
lemma committed_explicit (value : List Char) (paths : List (List Char)) :
    Committed value ((getExplicitMentionRanges value paths).map (·.toTextRange)) := by
  have t := taken_foundRanges value paths
  have perm := List.perm_insertionSort (fun a b : MentionRange => a.start ≤ b.start) (foundRanges value paths)
  have inside : ∀ r ∈ getExplicitMentionRanges value paths,
      r.start < r.stop ∧ r.stop ≤ value.length ∧ value[r.start]? = some '@' := fun r mem =>
    t.inside r (perm.mem_iff.mp mem)
  refine ⟨?_, ?_⟩
  · have sorted := List.pairwise_insertionSort (fun a b : MentionRange => a.start ≤ b.start) (foundRanges value paths)
    have apart : (getExplicitMentionRanges value paths).Pairwise fun a b => a.stop ≤ b.start ∨ b.stop ≤ a.start :=
      (perm.pairwise_iff fun h => h.symm).mpr t.apart
    rw [List.pairwise_map]
    refine (sorted.and apart).imp_of_mem fun {a b} mem mem' both => ?_
    have own := (inside b mem').1
    obtain ⟨le, clear⟩ := both
    change a.stop ≤ b.start
    omega
  · intro _ mem
    obtain ⟨r, own, rfl⟩ := List.mem_map.mp mem
    exact inside r own

/-- Each mention is found, or meets a range that was found before. -/
lemma complete_foundRanges (value : List Char) (paths : List (List Char)) :
    Complete value paths (foundRanges value paths) := by
  rintro idx stop ⟨s, mem, found, rfl, before, after⟩
  have sign := head?_of_searches mem
  have some : s.2 ≠ [] := by
    intro none
    rw [none] at sign
    cases sign
  obtain ⟨l, l', e⟩ := List.append_of_mem mem
  have here : idx ∈ occurrences s.2 0 value := (mem_occurrences some 0 value).mpr ⟨Nat.zero_le _, found⟩
  have covered : ∃ r ∈ (occurrences s.2 0 value).foldl (addRange value s.1 s.2) (l.foldl (searchOne value) []),
      r.start < idx + s.2.length ∧ idx < r.stop :=
    covered_addAll (List.length_pos_iff.mpr some) here before after
  obtain ⟨r, mem', shared⟩ := covered
  refine ⟨r, ?_, shared⟩
  rw [foundRanges_eq, e, List.foldl_append, List.foldl_cons]
  exact subset_searches l' mem'

end

/-! ## The ranges of the scan -/

section
variable {lookup : Option MentionLookup} {active : Option TextRange}

/-- What a scan from `i` on finds lies in the rest of the text. -/
structure ScannedFrom (i : Nat) (s : List Char) (ranges : List TextRange) : Prop where
  apart : ranges.Pairwise fun a b => a.stop ≤ b.start
  inside : ∀ r ∈ ranges, i ≤ r.start ∧ r.start < r.stop ∧ r.stop ≤ i + s.length ∧ s[r.start - i]? = some '@'

/-- Nothing is found. -/
lemma ScannedFrom.none {i : Nat} {s : List Char} : ScannedFrom i s [] := ⟨.nil, nofun⟩

/-- What was found behind `n` characters. -/
lemma ScannedFrom.behind {i n : Nat} {s : List Char} {ranges : List TextRange} (le : n ≤ s.length)
    (found : ScannedFrom (i + n) (s.drop n) ranges) : ScannedFrom i s ranges where
  apart := found.apart
  inside r mem := by
    obtain ⟨start, some, stop, sign⟩ := found.inside r mem
    rw [List.length_drop] at stop
    rw [List.getElem?_drop, show n + (r.start - (i + n)) = r.start - i by omega] at sign
    exact ⟨by omega, some, by omega, sign⟩

/-- Found behind a word. -/
lemma ScannedFrom.behindWord {i n : Nat} {c : Char} {s : List Char} {ranges : List TextRange} (le : n ≤ s.length)
    (found : ScannedFrom (i + 1 + n) (s.drop n) ranges) : ScannedFrom i (c :: s) ranges := by
  refine .behind (n := n + 1) (Nat.succ_le_succ le) ?_
  rw [show i + (n + 1) = i + 1 + n by omega]
  exact found

/-- The scan goes on behind the space that ends a word. -/
lemma scanned_rest {i n : Nat} {s : List Char} (later : ∀ d rest, s.drop n = d :: rest →
    ScannedFrom (i + 1) rest (scanMentions lookup active (some d) (i + 1) rest)) :
    ScannedFrom i (s.drop n) (match _h : s.drop n with
      | [] => []
      | d :: rest => scanMentions lookup active (some d) (i + 1) rest) := by
  split
  · exact .none
  next d rest e =>
    have found := later d rest e
    refine .behind (n := 1) (by rw [e]; exact Nat.succ_le_succ (Nat.zero_le _)) ?_
    rw [e]
    exact found

/-- What the scan finds. -/
lemma scanned (lookup : Option MentionLookup) (active : Option TextRange) (before : Option Char) (i : Nat)
    (s : List Char) : ScannedFrom i s (scanMentions lookup active before i s) := by
  induction before, i, s using scanMentions.induct lookup active with
  | case1 before i =>
    rw [scanMentions]
    exact .none
  | case2 before i c s word body skip ih =>
    rw [scanMentions, if_pos skip]
    exact .behind (n := 1) (Nat.succ_le_succ (Nat.zero_le _)) ih
  | case3 before i c s word body go hidden ih =>
    rw [scanMentions, if_neg go]
    dsimp only
    rw [if_pos hidden]
    exact (scanned_rest (i := i + 1 + word.length) ih).behindWord (List.takeWhile_sublist _).length_le
  | case4 before i c s word body go shown ih =>
    rw [scanMentions, if_neg go]
    dsimp only
    rw [if_neg shown]
    have len : word.length ≤ s.length := (List.takeWhile_sublist _).length_le
    have short : body.length ≤ word.length := (List.rdropWhile_prefix _ _).length_le
    have rest := scanned_rest (i := i + 1 + word.length) ih
    have sign : c = '@' := by
      by_contra other
      exact go (by rw [decide_eq_true other]; rfl)
    refine ⟨List.pairwise_cons.mpr ⟨fun r mem => ?_, rest.apart⟩, fun r mem => ?_⟩
    · have start := (rest.inside r mem).1
      change i + 1 + body.length ≤ r.start
      omega
    · cases mem with
      | head =>
        refine ⟨le_rfl, ?_, ?_, ?_⟩
        · change i < i + 1 + body.length
          omega
        · change i + 1 + body.length ≤ i + (s.length + 1)
          omega
        · rw [Nat.sub_self, sign]
          rfl
      | tail _ mem => exact (rest.behindWord len).inside r mem

end

/-- The mentions of a text lie in it one behind the other, and with the picked paths none is passed over. -/
theorem mentions_committed (value : List Char) (active : Option TextRange) (lookup : Option MentionLookup)
    (mentions : Option (List (List Char))) :
    Committed value (findCommittedMentions value active lookup mentions) ∧
      ∀ paths, Complete value paths (getExplicitMentionRanges value paths) := by
  refine ⟨?_, fun paths idx stop mentioned => ?_⟩
  · cases mentions with
    | some paths =>
      have whole := committed_explicit value paths
      have sub : (findCommittedMentions value active lookup (some paths)).Sublist
          ((getExplicitMentionRanges value paths).map (·.toTextRange)) :=
        (List.filter_sublist.trans List.filter_sublist).map _
      exact ⟨whole.apart.sublist sub, fun r mem => whole.inside r (sub.subset mem)⟩
    | none =>
      have found := scanned lookup active none 0 value
      refine ⟨found.apart, fun r mem => ?_⟩
      obtain ⟨_, some, stop, sign⟩ := found.inside r mem
      rw [Nat.zero_add] at stop
      exact ⟨some, stop, sign⟩
  · obtain ⟨r, mem, shared⟩ := complete_foundRanges value paths idx stop mentioned
    exact ⟨r, (List.mem_insertionSort _).mpr mem, shared⟩

end OpenAgentd.Web
