import OpenAgentd.Lib.Lcs
import OpenAgentd.Lib.Lines

/-!
# The lines of a diff

`web/src/components/ToolCall/diffUtils.ts`: `diffLines` sets two texts against each other line by line. What the texts
share in front and behind is cut off, and the middle is compared over the table of longest common subsequences, or, when
the table would be too large, shown as removed and added whole.

The removed and equal lines of the result are the old text and the added and equal ones the new text, no line is removed
right behind one that was added, and within the limit no other diff changes fewer lines (`diffLines_minimal`).
-/

namespace OpenAgentd.Web
open Lib

/-- `DiffLine.type`. -/
inductive DiffType where
  | added
  | removed
  | equal
  deriving DecidableEq

/-- `DiffLine`, as `diffLines` fills it. -/
structure DiffLine where
  type : DiffType
  value : List Char
  deriving DecidableEq

def MAX_LCS_CELLS : Nat := 1000000

/-- The row of the table for one more old line, from the row above. -/
def nextRow (newLines : List (List Char)) (row : List Nat) (oldLine : List Char) : List Nat :=
  match row with
  | diag :: row => 0 :: rowFrom oldLine newLines diag row 0
  | [] => []

/-- The table of `diffLinesExact`, row by row. -/
def dpRows (oldLines newLines : List (List Char)) : List (List Nat) :=
  oldLines.scanl (nextRow newLines) (List.replicate (newLines.length + 1) 0)

/-- The way back through the table `dp`. The lists are the first `i` old and the first `j` new lines, last line first. -/
def backtrack (dp : List (List Nat)) : List (List Char) → List (List Char) → List DiffLine
  | [], [] => []
  | old :: olds, [] => ⟨.removed, old⟩ :: backtrack dp olds []
  | [], new :: news => ⟨.added, new⟩ :: backtrack dp [] news
  | old :: olds, new :: news =>
    let i := olds.length + 1
    let j := news.length + 1
    if old = new then ⟨.equal, old⟩ :: backtrack dp olds news
    else if (dp.getD (i - 1) []).getD j 0 ≤ (dp.getD i []).getD (j - 1) 0 then
      ⟨.added, new⟩ :: backtrack dp (old :: olds) news
    else ⟨.removed, old⟩ :: backtrack dp olds (new :: news)
termination_by olds news => olds.length + news.length

def diffLinesExact (oldLines newLines : List (List Char)) : List DiffLine :=
  (backtrack (dpRows oldLines newLines) oldLines.reverse newLines.reverse).reverse

def diffLinesBlock (oldLines newLines : List (List Char)) : List DiffLine :=
  oldLines.map (DiffLine.mk .removed) ++ newLines.map (DiffLine.mk .added)

/-- The loops over a common prefix: how many of the first `cap` lines agree. -/
def commonUpTo : Nat → List (List Char) → List (List Char) → Nat
  | cap + 1, x :: a, y :: b => if x = y then commonUpTo cap a b + 1 else 0
  | _, _, _ => 0

/-- The lines of a text: `replace(/\r\n/g, '\n').split('\n')`. -/
def textLines (s : List Char) : List (List Char) := (replaceCrlf s).splitOn '\n'

/-- How many lines the texts share in front. -/
def prefixLines (oldLines newLines : List (List Char)) : Nat :=
  commonUpTo (min oldLines.length newLines.length) oldLines newLines

/-- How many lines they share behind, apart from those in front. -/
def suffixLines (oldLines newLines : List (List Char)) : Nat :=
  commonUpTo (min oldLines.length newLines.length - prefixLines oldLines newLines) oldLines.reverse newLines.reverse

/-- `oldLines.slice(prefix, oldLines.length - suffix)`. -/
def middle (front back : Nat) (ls : List (List Char)) : List (List Char) := (ls.take (ls.length - back)).drop front

def diffLines (oldStr newStr : List Char) : List DiffLine :=
  let oldLines := textLines oldStr
  let newLines := textLines newStr
  let front := prefixLines oldLines newLines
  let back := suffixLines oldLines newLines
  let oldMid := middle front back oldLines
  let newMid := middle front back newLines
  let mid :=
    if oldMid.length * newMid.length > MAX_LCS_CELLS then diffLinesBlock oldMid newMid
    else diffLinesExact oldMid newMid
  (oldLines.take front).map (DiffLine.mk .equal) ++ mid ++
    (oldLines.drop (oldLines.length - back)).map (DiffLine.mk .equal)

/-! ## What a diff shows -/

/-- The old text of a diff. -/
def oldSide (ls : List DiffLine) : List (List Char) := (ls.filter (·.type ≠ .added)).map DiffLine.value

/-- The new text of a diff. -/
def newSide (ls : List DiffLine) : List (List Char) := (ls.filter (·.type ≠ .removed)).map DiffLine.value

/-- The lines that are shown as equal. -/
def equalLines (ls : List DiffLine) : List (List Char) := (ls.filter (·.type = .equal)).map DiffLine.value

/-- The number of lines that are shown as changed. -/
def changes (ls : List DiffLine) : Nat := (ls.filter (·.type ≠ .equal)).length

/-- The second line may stand behind the first one. -/
def Follows (a b : DiffLine) : Prop := a.type = .added → b.type ≠ .removed

/-- A diff of two lists of lines. -/
structure DiffOf (olds news : List (List Char)) (ls : List DiffLine) : Prop where
  old : oldSide ls = olds
  new : newSide ls = news
  order : ls.IsChain Follows

section
variable {ls ls' : List DiffLine} {l : DiffLine} {olds news a b c : List (List Char)} {dp : List (List Nat)}

/-- Lines in a row. -/
lemma oldSide_append : oldSide (ls ++ ls') = oldSide ls ++ oldSide ls' := by
  rw [oldSide, List.filter_append, List.map_append]
  rfl

/-- Lines in a row. -/
lemma newSide_append : newSide (ls ++ ls') = newSide ls ++ newSide ls' := by
  rw [newSide, List.filter_append, List.map_append]
  rfl

/-- Lines in a row. -/
lemma equalLines_append : equalLines (ls ++ ls') = equalLines ls ++ equalLines ls' := by
  rw [equalLines, List.filter_append, List.map_append]
  rfl

/-- Backwards. -/
lemma oldSide_reverse : oldSide ls.reverse = (oldSide ls).reverse := by
  rw [oldSide, List.filter_reverse, List.map_reverse]
  rfl

/-- Backwards. -/
lemma newSide_reverse : newSide ls.reverse = (newSide ls).reverse := by
  rw [newSide, List.filter_reverse, List.map_reverse]
  rfl

/-- Backwards. -/
lemma equalLines_reverse : equalLines ls.reverse = (equalLines ls).reverse := by
  rw [equalLines, List.filter_reverse, List.map_reverse]
  rfl

/-- Lines that stand on both sides. -/
lemma sides_equal (ls : List (List Char)) : oldSide (ls.map (DiffLine.mk .equal)) = ls ∧
    newSide (ls.map (DiffLine.mk .equal)) = ls ∧ equalLines (ls.map (DiffLine.mk .equal)) = ls := by
  induction ls with
  | nil => exact ⟨rfl, rfl, rfl⟩
  | cons l ls ih =>
    obtain ⟨old, new, equal⟩ := ih
    exact ⟨congrArg (l :: ·) old, congrArg (l :: ·) new, congrArg (l :: ·) equal⟩

/-- What is equal stands on both sides. -/
lemma equalLines_sublist (ls : List DiffLine) :
    (equalLines ls).Sublist (oldSide ls) ∧ (equalLines ls).Sublist (newSide ls) := by
  induction ls with
  | nil => exact ⟨.slnil, .slnil⟩
  | cons l ls ih =>
    obtain ⟨type, value⟩ := l
    cases type with
    | added => exact ⟨ih.1, ih.2.cons value⟩
    | removed => exact ⟨ih.1.cons value, ih.2⟩
    | equal => exact ⟨ih.1.cons_cons value, ih.2.cons_cons value⟩

/-- Each line that is not equal stands on one side only. -/
lemma changes_eq (ls : List DiffLine) :
    changes ls + 2 * (equalLines ls).length = (oldSide ls).length + (newSide ls).length := by
  induction ls with
  | nil => rfl
  | cons l ls ih =>
    obtain ⟨type, value⟩ := l
    cases type with
    | added =>
      change changes ls + 1 + 2 * (equalLines ls).length = (oldSide ls).length + ((newSide ls).length + 1)
      omega
    | removed =>
      change changes ls + 1 + 2 * (equalLines ls).length = (oldSide ls).length + 1 + (newSide ls).length
      omega
    | equal =>
      change changes ls + 2 * ((equalLines ls).length + 1) = (oldSide ls).length + 1 + ((newSide ls).length + 1)
      omega

/-! ## The way back -/

/-- The entry of the table for the first `i` old and the first `j` new lines. -/
def entry (dp : List (List Nat)) (i j : Nat) : Nat := (dp.getD i []).getD j 0

/-- The entries are those of the heads of the lists, which stand here last line first. -/
def Filled (dp : List (List Nat)) (a b : List (List Char)) : Prop :=
  ∀ a' b', a' <:+ a → b' <:+ b → entry dp a'.length b'.length = lcs a' b'

/-- One old line less. -/
lemma Filled.left {x : List Char} (f : Filled dp (x :: a) b) : Filled dp a b := fun a' b' ha hb =>
  f a' b' (ha.trans (List.suffix_cons x a)) hb

/-- One new line less. -/
lemma Filled.right {x : List Char} (f : Filled dp a (x :: b)) : Filled dp a b := fun a' b' ha hb =>
  f a' b' ha (hb.trans (List.suffix_cons x b))

/-- An entry is a longest length. -/
lemma Filled.entry_eq (f : Filled dp a b) : entry dp a.length b.length = lcs a b :=
  f a b List.suffix_rfl List.suffix_rfl

/-- Whatever the table holds, the way back goes over each line once. -/
lemma sides_backtrack (dp : List (List Nat)) (a b : List (List Char)) :
    oldSide (backtrack dp a b) = a ∧ newSide (backtrack dp a b) = b := by
  induction a, b using backtrack.induct dp with
  | case1 =>
    rw [backtrack]
    exact ⟨rfl, rfl⟩
  | case2 old olds ih =>
    rw [backtrack]
    exact ⟨congrArg (old :: ·) ih.1, ih.2⟩
  | case3 new news ih =>
    rw [backtrack]
    exact ⟨ih.1, congrArg (new :: ·) ih.2⟩
  | case4 olds new news ih =>
    rw [backtrack, if_pos rfl]
    exact ⟨congrArg (new :: ·) ih.1, congrArg (new :: ·) ih.2⟩
  | case5 old olds new news i j ne le ih =>
    rw [backtrack, if_neg ne, if_pos le]
    exact ⟨ih.1, congrArg (new :: ·) ih.2⟩
  | case6 old olds new news i j ne lt ih =>
    rw [backtrack, if_neg ne, if_neg lt]
    exact ⟨congrArg (old :: ·) ih.1, ih.2⟩

/-- Over the filled table the way back meets as many equal lines as can be. -/
lemma equalLines_backtrack (f : Filled dp a b) : (equalLines (backtrack dp a b)).length = lcs a b := by
  induction a, b using backtrack.induct dp with
  | case1 =>
    rw [backtrack, lcs_nil_left]
    rfl
  | case2 old olds ih =>
    rw [backtrack, lcs_nil_right]
    exact (ih f.left).trans lcs_nil_right
  | case3 new news ih =>
    rw [backtrack, lcs_nil_left]
    exact (ih f.right).trans lcs_nil_left
  | case4 olds new news ih =>
    rw [backtrack, if_pos rfl, lcs_cons, if_pos rfl, ← ih f.left.right]
    rfl
  | case5 old olds new news i j ne le ih =>
    have most : lcs olds (new :: news) ≤ lcs (old :: olds) news := by
      rw [← f.left.entry_eq, ← f.right.entry_eq]
      exact le
    rw [backtrack, if_neg ne, if_pos le, lcs_cons, if_neg ne, max_eq_right most, ← ih f.right]
    rfl
  | case6 old olds new news i j ne lt ih =>
    have most : lcs (old :: olds) news ≤ lcs olds (new :: news) := by
      rw [← f.left.entry_eq, ← f.right.entry_eq]
      exact le_of_not_ge lt
    rw [backtrack, if_neg ne, if_neg lt, lcs_cons, if_neg ne, max_eq_left most, ← ih f.left]
    rfl

/-- The second line may stand in front of the first one. -/
def Precedes (a b : DiffLine) : Prop := a.type = .removed → b.type ≠ .added

/-- Behind a removed line the way back goes on with a removed or an equal one: an added one would have come first. -/
lemma head_backtrack {old : List Char} (f : Filled dp (old :: a) b) (short : ∀ new news, b = new :: news →
    lcs (old :: a) news < lcs a b) : ∀ l ∈ (backtrack dp a b).head?, l.type ≠ .added := by
  intro l head
  cases a with
  | nil =>
    cases b with
    | nil =>
      rw [backtrack] at head
      cases head
    | cons new news =>
      have less := short new news rfl
      rw [lcs_nil_left] at less
      exact absurd less (Nat.not_lt_zero _)
  | cons o a =>
    cases b with
    | nil =>
      rw [backtrack] at head
      cases head
      exact nofun
    | cons new news =>
      rw [backtrack] at head
      split at head
      · cases head
        exact nofun
      next ne =>
      split at head
      next le =>
        have other : lcs a (new :: news) ≤ lcs (o :: a) news := by
          rw [← f.left.left.entry_eq, ← f.left.right.entry_eq]
          exact le
        have same : lcs (o :: a) (new :: news) = lcs (o :: a) news := by rw [lcs_cons, if_neg ne, max_eq_right other]
        have more : lcs (o :: a) news ≤ lcs (old :: o :: a) news := lcs_le_cons
        have less := short new news rfl
        omega
      · cases head
        exact nofun

/-- Removed lines come first. -/
lemma isChain_backtrack (f : Filled dp a b) : (backtrack dp a b).IsChain Precedes := by
  induction a, b using backtrack.induct dp with
  | case1 =>
    rw [backtrack]
    exact .nil
  | case2 old olds ih =>
    rw [backtrack]
    refine List.isChain_cons.mpr ⟨fun l head _ => ?_, ih f.left⟩
    exact head_backtrack f (fun new news wrong => by cases wrong) l head
  | case3 new news ih =>
    rw [backtrack]
    exact List.isChain_cons.mpr ⟨fun l _ => nofun, ih f.right⟩
  | case4 olds new news ih =>
    rw [backtrack, if_pos rfl]
    exact List.isChain_cons.mpr ⟨fun l _ => nofun, ih f.left.right⟩
  | case5 old olds new news i j ne le ih =>
    rw [backtrack, if_neg ne, if_pos le]
    exact List.isChain_cons.mpr ⟨fun l _ => nofun, ih f.right⟩
  | case6 old olds new news i j ne lt ih =>
    have less : lcs (old :: olds) news < lcs olds (new :: news) := by
      rw [← f.left.entry_eq, ← f.right.entry_eq]
      exact lt_of_not_ge lt
    rw [backtrack, if_neg ne, if_neg lt]
    refine List.isChain_cons.mpr ⟨fun l head _ => ?_, ih f.left⟩
    refine head_backtrack f (fun new' news' e => ?_) l head
    cases e
    exact less

/-! ## The table -/

/-- The last row. -/
lemma foldl_nextRow (news olds : List (List Char)) :
    olds.foldl (nextRow news) (List.replicate (news.length + 1) 0) = 0 :: entries olds.reverse [] news := by
  induction olds using List.reverseRecOn with
  | nil => rw [List.foldl_nil, List.reverse_nil, entries_nil, List.replicate_succ]
  | append_singleton olds old ih =>
    have next := rowFrom_entries old olds.reverse [] news
    rw [lcs_nil_right, lcs_nil_right] at next
    rw [List.foldl_concat, ih, nextRow, next, List.reverse_concat]

/-- An entry of the table. -/
lemma entry_dpRows (i j : Nat) (hi : i ≤ olds.length) (hj : j ≤ news.length) :
    entry (dpRows olds news) i j = lcs (olds.take i).reverse (news.take j).reverse := by
  have row : (dpRows olds news).getD i [] = 0 :: entries (olds.take i).reverse [] news := by
    rw [List.getD_eq_getElem?_getD, dpRows, List.getElem?_scanl, if_pos hi, foldl_nextRow]
    rfl
  rw [entry, row]
  cases j with
  | zero =>
    rw [List.take_zero, List.reverse_nil, lcs_nil_right]
    rfl
  | succ j =>
    rw [List.getD_cons_succ, List.getD_eq_getElem?_getD, getElem?_entries _ _ _ hj, List.append_nil]
    rfl

/-- The table is filled. -/
lemma filled_dpRows (olds news : List (List Char)) : Filled (dpRows olds news) olds.reverse news.reverse := by
  intro a b ha hb
  have head : ∀ {c ls : List (List Char)}, c <:+ ls.reverse → c = (ls.take c.length).reverse ∧ c.length ≤ ls.length := by
    intro c ls hc
    refine ⟨?_, hc.length_le.trans_eq List.length_reverse⟩
    have length : c.length = c.reverse.length := List.length_reverse.symm
    rw [← List.reverse_eq_iff, length]
    exact List.prefix_iff_eq_take.mp (List.reverse_suffix.mp (by rwa [List.reverse_reverse]))
  obtain ⟨ea, la⟩ := head ha
  obtain ⟨eb, lb⟩ := head hb
  rw [entry_dpRows _ _ la lb, ← ea, ← eb]

/-! ## The middle -/

/-- The exact diff is a diff. -/
lemma DiffOf.exact (olds news : List (List Char)) : DiffOf olds news (diffLinesExact olds news) where
  old := by rw [diffLinesExact, oldSide_reverse, (sides_backtrack _ _ _).1, List.reverse_reverse]
  new := by rw [diffLinesExact, newSide_reverse, (sides_backtrack _ _ _).2, List.reverse_reverse]
  order := by
    rw [diffLinesExact, List.isChain_reverse]
    refine (isChain_backtrack (filled_dpRows olds news)).imp fun a b precedes => ?_
    exact fun added removed => precedes removed added

/-- It keeps a longest part. -/
lemma length_equal_exact (olds news : List (List Char)) : (equalLines (diffLinesExact olds news)).length = lcs olds news := by
  rw [diffLinesExact, equalLines_reverse, List.length_reverse, equalLines_backtrack (filled_dpRows olds news), lcs_reverse]

/-- Removed lines are old. -/
lemma sides_removed (ls : List (List Char)) :
    oldSide (ls.map (DiffLine.mk .removed)) = ls ∧ newSide (ls.map (DiffLine.mk .removed)) = [] := by
  induction ls with
  | nil => exact ⟨rfl, rfl⟩
  | cons l ls ih => exact ⟨congrArg (l :: ·) ih.1, ih.2⟩

/-- Added lines are new. -/
lemma sides_added (ls : List (List Char)) :
    oldSide (ls.map (DiffLine.mk .added)) = [] ∧ newSide (ls.map (DiffLine.mk .added)) = ls := by
  induction ls with
  | nil => exact ⟨rfl, rfl⟩
  | cons l ls ih => exact ⟨ih.1, congrArg (l :: ·) ih.2⟩

/-- Lines of one type follow each other. -/
lemma isChain_type (type : DiffType) (ls : List (List Char)) : (ls.map (DiffLine.mk type)).IsChain Follows := by
  rw [List.isChain_map]
  apply List.Pairwise.isChain
  apply List.pairwise_of_forall
  intro a b added removed
  change type = .added at added
  rw [added] at removed
  cases removed

/-- The block diff is a diff. -/
lemma DiffOf.block (olds news : List (List Char)) : DiffOf olds news (diffLinesBlock olds news) where
  old := by rw [diffLinesBlock, oldSide_append, (sides_removed olds).1, (sides_added news).1, List.append_nil]
  new := by rw [diffLinesBlock, newSide_append, (sides_removed olds).2, (sides_added news).2, List.nil_append]
  order := by
    rw [diffLinesBlock, List.isChain_append]
    refine ⟨isChain_type .removed olds, isChain_type .added news, fun a last b _ added => ?_⟩
    obtain ⟨old, _, e⟩ := List.mem_map.mp (List.mem_of_getLast? last)
    rw [← e] at added
    cases added

/-! ## What the texts share -/

/-- No more than the cap. -/
lemma commonUpTo_le (cap : Nat) (a b : List (List Char)) : commonUpTo cap a b ≤ cap := by
  induction cap, a, b using commonUpTo.induct with
  | case1 cap a y b ih =>
    rw [commonUpTo, if_pos rfl]
    exact Nat.succ_le_succ ih
  | case2 cap x a y b ne =>
    rw [commonUpTo, if_neg ne]
    exact Nat.zero_le _
  | case3 cap a b over_ =>
    rw [commonUpTo.eq_2 cap a b over_]
    exact Nat.zero_le _

/-- The common front. -/
lemma take_commonUpTo (cap : Nat) (a b : List (List Char)) :
    a.take (commonUpTo cap a b) = b.take (commonUpTo cap a b) := by
  induction cap, a, b using commonUpTo.induct with
  | case1 cap a y b ih => rw [commonUpTo, if_pos rfl, List.take_succ_cons, List.take_succ_cons, ih]
  | case2 cap x a y b ne => rw [commonUpTo, if_neg ne, List.take_zero, List.take_zero]
  | case3 cap a b over_ => rw [commonUpTo.eq_2 cap a b over_, List.take_zero, List.take_zero]

/-- The ends that are cut off do not overlap in either text. -/
lemma prefixLines_add_suffixLines_le (olds news : List (List Char)) :
    prefixLines olds news + suffixLines olds news ≤ min olds.length news.length := by
  have front : prefixLines olds news ≤ min olds.length news.length := commonUpTo_le _ olds news
  have back : suffixLines olds news ≤ min olds.length news.length - prefixLines olds news :=
    commonUpTo_le _ olds.reverse news.reverse
  omega

/-- A text is what is cut off in front, the middle and what is cut off behind. -/
lemma take_middle_drop {front back : Nat} {ls : List (List Char)} (within : front + back ≤ ls.length) :
    ls.take front ++ middle front back ls ++ ls.drop (ls.length - back) = ls := by
  have head : ls.take front = (ls.take (ls.length - back)).take front := by
    rw [List.take_take, min_eq_left (by omega)]
  rw [middle, head, List.take_append_drop, List.take_append_drop]

/-- The common front. -/
lemma take_prefixLines (olds news : List (List Char)) :
    olds.take (prefixLines olds news) = news.take (prefixLines olds news) := take_commonUpTo _ olds news

/-- The common end. -/
lemma drop_suffixLines (olds news : List (List Char)) :
    olds.drop (olds.length - suffixLines olds news) = news.drop (news.length - suffixLines olds news) := by
  have back : olds.reverse.take (suffixLines olds news) = news.reverse.take (suffixLines olds news) :=
    take_commonUpTo _ olds.reverse news.reverse
  rw [List.take_reverse, List.take_reverse, List.reverse_inj] at back
  exact back

/-- A diff of the middles between equal lines. -/
lemma DiffOf.between {p s : List (List Char)} (d : DiffOf olds news ls) :
    DiffOf (p ++ olds ++ s) (p ++ news ++ s)
      (p.map (DiffLine.mk .equal) ++ ls ++ s.map (DiffLine.mk .equal)) where
  old := by rw [oldSide_append, oldSide_append, (sides_equal p).1, d.old, (sides_equal s).1]
  new := by rw [newSide_append, newSide_append, (sides_equal p).2.1, d.new, (sides_equal s).2.1]
  order := by
    have equal : ∀ {p : List (List Char)}, ∀ l ∈ p.map (DiffLine.mk .equal), l.type = .equal := by
      intro p l mem
      obtain ⟨_, _, rfl⟩ := List.mem_map.mp mem
      rfl
    rw [List.isChain_append, List.isChain_append]
    refine ⟨⟨isChain_type .equal p, d.order, fun a last b _ added => ?_⟩, isChain_type .equal s, fun a _ b head _ => ?_⟩
    · rw [equal a (List.mem_of_getLast? last)] at added
      cases added
    · rw [equal b (List.mem_of_mem_head? head)]
      exact nofun

/-- Equal lines around. -/
lemma equal_between {p s : List (List Char)} :
    (equalLines (p.map (DiffLine.mk .equal) ++ ls ++ s.map (DiffLine.mk .equal))).length =
      p.length + (equalLines ls).length + s.length := by
  rw [equalLines_append, equalLines_append, (sides_equal p).2.2, (sides_equal s).2.2, List.length_append,
    List.length_append]

/-- The middles are compared over the table. -/
def WithinLimit (olds news : List (List Char)) : Prop :=
  (middle (prefixLines olds news) (suffixLines olds news) olds).length *
    (middle (prefixLines olds news) (suffixLines olds news) news).length ≤ MAX_LCS_CELLS

/-- The texts around their middles. -/
lemma around (olds news : List (List Char)) : ∃ p s o n, olds = p ++ o ++ s ∧ news = p ++ n ++ s ∧
    o = middle (prefixLines olds news) (suffixLines olds news) olds ∧
    n = middle (prefixLines olds news) (suffixLines olds news) news ∧
    p = olds.take (prefixLines olds news) ∧ s = olds.drop (olds.length - suffixLines olds news) := by
  have le := prefixLines_add_suffixLines_le olds news
  refine ⟨_, _, _, _, (take_middle_drop ?_).symm, ?_, rfl, rfl, rfl, rfl⟩
  · exact le.trans (min_le_left _ _)
  · rw [take_prefixLines, drop_suffixLines]
    exact (take_middle_drop (le.trans (min_le_right _ _))).symm

/-- Within the limit as many lines are equal as the texts have in common. -/
lemma length_equalLines {oldStr newStr : List Char} (limit : WithinLimit (textLines oldStr) (textLines newStr)) :
    (equalLines (diffLines oldStr newStr)).length = lcs (textLines oldStr) (textLines newStr) := by
  obtain ⟨p, s, o, n, old, new, mid, mid', front, back⟩ := around (textLines oldStr) (textLines newStr)
  rw [WithinLimit, ← mid, ← mid'] at limit
  rw [diffLines, ← mid, ← mid', ← front, ← back, if_neg (Nat.not_lt.mpr limit), equal_between, length_equal_exact, old,
    new, lcs_append_right, lcs_append_left]

/-- The result shows both texts, with the removed lines of a change before the added ones, and within the limit no diff
of the texts changes fewer lines. -/
theorem diffLines_minimal (oldStr newStr : List Char) :
    DiffOf (textLines oldStr) (textLines newStr) (diffLines oldStr newStr) ∧
    (WithinLimit (textLines oldStr) (textLines newStr) →
      ∀ ls, oldSide ls = textLines oldStr → newSide ls = textLines newStr → changes (diffLines oldStr newStr) ≤ changes ls) := by
  have valid : DiffOf (textLines oldStr) (textLines newStr) (diffLines oldStr newStr) := by
    obtain ⟨p, s, o, n, old, new, mid, mid', front, back⟩ := around (textLines oldStr) (textLines newStr)
    rw [diffLines, ← mid, ← mid', ← front, ← back, old, new]
    apply DiffOf.between
    split
    · exact .block o n
    · exact .exact o n
  refine ⟨valid, fun limit ls old new => ?_⟩
  have most : (equalLines ls).length ≤ lcs (textLines oldStr) (textLines newStr) := by
    obtain ⟨left, right⟩ := equalLines_sublist ls
    rw [old] at left
    rw [new] at right
    exact length_le_lcs left right
  have own := changes_eq (diffLines oldStr newStr)
  have other := changes_eq ls
  rw [valid.old, valid.new, length_equalLines limit] at own
  rw [old, new] at other
  omega

end

end OpenAgentd.Web
