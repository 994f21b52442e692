import OpenAgentd.Lib.Pages
import OpenAgentd.Store.Row

/-!
# Pages of the history

`get_agent_history` (`app/services/chat_service.py`) returns the newest page of a session and of each child session.
The cursor of the next page is the oldest row of the page of the root, and the children are read with it too, although
`seq` counts in each session for itself. `history_iff` says for which trees nothing is lost or read twice.
-/

namespace OpenAgentd.Store
open OpenAgentd.Lib

/-- A session with its child sessions. -/
structure SessionTree where
  root : Table
  children : List Table

/-- `_HISTORY_PAGE_SIZE`. -/
def historyPageSize : Nat := 100

/-- A page has room. -/
lemma historyPageSize_pos : 0 < historyPageSize := by decide

/-- `user_visible_predicate`. -/
def userVisible (r : Row) : Bool := r.kind ≠ .note && r.kind ≠ .reverted

/-- `_before_cursor_predicate`. -/
def beforeCursorPredicate (beforeSeq beforeId : Option Nat) (r : Row) : Bool :=
  match beforeSeq, beforeId with
  | none, _ => true
  | some seq, none => r.seq < seq
  | some seq, some id => r.pos < toLex (seq, id)

/-- The newest rows in front of a cursor, one more than a page. -/
def newestRows (tb : Table) (beforeSeq beforeId : Option Nat) : List Row :=
  (orderByPosDesc (tb.rows.filter fun r => userVisible r && beforeCursorPredicate beforeSeq beforeId r)).take
    (historyPageSize + 1)

/-- `AgentHistoryData`. -/
structure AgentHistoryData where
  leadMessages : List Row
  members : List (List Row)
  hasMore : Bool
  nextCursor : Option Nat
  nextCursorId : Option Nat

/-- The rows of the child `j` on a page. -/
def AgentHistoryData.memberMessages (j : Nat) (page : AgentHistoryData) : List Row := page.members[j]?.getD []

/-- `_fetch_member_pages`. -/
def fetchMemberPages (subSessions : List Table) (beforeSeq beforeId : Option Nat) : List (List Row) :=
  subSessions.map fun sub => ((newestRows sub beforeSeq beforeId).take historyPageSize).reverse

/-- `get_agent_history`. -/
def getAgentHistory (tree : SessionTree) (beforeSeq beforeId : Option Nat) : AgentHistoryData :=
  let rawLead := newestRows tree.root beforeSeq beforeId
  let hasMore := decide (rawLead.length > historyPageSize)
  let leadMessages := (rawLead.take historyPageSize).reverse
  let boundary := if hasMore then leadMessages.head? else none
  { leadMessages
    members := fetchMemberPages tree.children beforeSeq beforeId
    hasMore
    nextCursor := boundary.map Row.seq
    nextCursorId := boundary.map Row.id }

/-- The pages of a client that follows the cursors from one on until `has_more` is false. -/
inductive Followed (tree : SessionTree) : Option Nat → Option Nat → List AgentHistoryData → Prop where
  | last {seq id} :
    (getAgentHistory tree seq id).hasMore = false →
    Followed tree seq id [getAgentHistory tree seq id]
  | more {seq id pages} :
    (getAgentHistory tree seq id).hasMore = true →
    Followed tree (getAgentHistory tree seq id).nextCursor (getAgentHistory tree seq id).nextCursorId pages →
    Followed tree seq id (getAgentHistory tree seq id :: pages)

/-- What a transcript shows of a session. -/
def visibleRows (tb : Table) : List Row := orderByPos (tb.rows.filter userVisible)

/-- Older pages in front of newer ones give each transcript: every row once, in order. -/
structure Partitioned (tree : SessionTree) (pages : List AgentHistoryData) : Prop where
  lead : pages.reverse.flatMap AgentHistoryData.leadMessages = visibleRows tree.root
  members : ∀ j sub, tree.children[j]? = some sub →
    pages.reverse.flatMap (AgentHistoryData.memberMessages j) = visibleRows sub

/-- What a transcript shows, newest first. -/
def newestFirst (tb : Table) : List Row := (visibleRows tb).reverse

/-- The pages of the root fit a child: in front of the last row of each full page of the root that is not the last one
the child has exactly what is behind its own pages, and the child has no more pages than the root. -/
structure Aligned (root sub : Table) : Prop where
  cuts : ∀ k r, historyPageSize * (k + 1) < (newestFirst root).length →
    (newestFirst root)[historyPageSize * (k + 1) - 1]? = some r →
    (newestFirst sub).filter (fun x => x.pos < r.pos) = (newestFirst sub).drop (historyPageSize * (k + 1))
  pages : (newestFirst sub).length ≤ historyPageSize * (((newestFirst root).length - 1) / historyPageSize + 1)

/-! ## Pages and cursors -/

/-- The cursor of a position. -/
def cursorOf (cursor : Option (ℕ ×ₗ ℕ)) : Option Nat × Option Nat :=
  (cursor.map fun p => (ofLex p).1, cursor.map fun p => (ofLex p).2)

/-- The page at a cursor. -/
def historyAt (tree : SessionTree) (cursor : Option (ℕ ×ₗ ℕ)) : AgentHistoryData :=
  getAgentHistory tree (cursorOf cursor).1 (cursorOf cursor).2

section
variable {tree : SessionTree} {tb sub : Table} {cursor : Option (ℕ ×ₗ ℕ)} {cs : List (Option (ℕ ×ₗ ℕ))} {r : Row}
  {pages pages' : List AgentHistoryData} {seq id : Option Nat}

/-- Newest rows first. -/
lemma newestFirst_pairwise (tb : Table) : (newestFirst tb).Pairwise fun a b => b.pos < a.pos := by
  unfold newestFirst
  rw [List.pairwise_reverse]
  exact sortOn_pairwise (pos_nodup (nodup_map_filter tb.distinct))

/-- The cursor is a row's place. -/
lemma beforeCursorPredicate_cursorOf :
    beforeCursorPredicate (cursorOf cursor).1 (cursorOf cursor).2 r = beforeCursor Row.pos cursor r := by
  cases cursor with
  | none => rfl
  | some p => rfl

/-- The newest rows are what is left of the transcript. -/
lemma newestRows_cursorOf : newestRows tb (cursorOf cursor).1 (cursorOf cursor).2 =
    (leftAt Row.pos (newestFirst tb) cursor).take (historyPageSize + 1) := by
  have split_ : tb.rows.filter (fun r => userVisible r &&
      beforeCursorPredicate (cursorOf cursor).1 (cursorOf cursor).2 r) =
        (tb.rows.filter userVisible).filter (beforeCursor Row.pos cursor) := by
    rw [List.filter_filter]
    refine List.filter_congr fun r _ => ?_
    rw [beforeCursorPredicate_cursorOf, Bool.and_comm]
  unfold newestRows orderByPosDesc
  rw [split_, orderByPos, sortOn_filter (pos_nodup (nodup_map_filter tb.distinct)), ← List.filter_reverse]
  rfl

/-- A page of a session. -/
lemma take_newestRows : (newestRows tb (cursorOf cursor).1 (cursorOf cursor).2).take historyPageSize =
    pageAt Row.pos historyPageSize (newestFirst tb) cursor := by
  rw [newestRows_cursorOf, List.take_take, Nat.min_eq_left (Nat.le_succ _)]
  rfl

/-- The lead's page. -/
lemma historyAt_lead : (historyAt tree cursor).leadMessages =
    (pageAt Row.pos historyPageSize (newestFirst tree.root) cursor).reverse := by
  rw [← take_newestRows]
  rfl

/-- A member's page. -/
lemma historyAt_member {j : Nat} (h : tree.children[j]? = some sub) :
    (historyAt tree cursor).memberMessages j =
      (pageAt Row.pos historyPageSize (newestFirst sub) cursor).reverse := by
  have e : (historyAt tree cursor).members[j]? =
      some ((newestRows sub (cursorOf cursor).1 (cursorOf cursor).2).take historyPageSize).reverse := by
    unfold historyAt getAgentHistory fetchMemberPages
    rw [List.getElem?_map, h]
    rfl
  rw [AgentHistoryData.memberMessages, e, take_newestRows]
  rfl

/-- When more is left. -/
lemma historyAt_hasMore : (historyAt tree cursor).hasMore =
    decide (historyPageSize < (leftAt Row.pos (newestFirst tree.root) cursor).length) := by
  have e : (historyAt tree cursor).hasMore =
      decide ((newestRows tree.root (cursorOf cursor).1 (cursorOf cursor).2).length > historyPageSize) := rfl
  rw [e, newestRows_cursorOf, List.length_take]
  exact decide_eq_decide.mpr (by omega)

/-- The cursor of the next page is the last row of the page. -/
lemma historyAt_next (more : historyPageSize < (leftAt Row.pos (newestFirst tree.root) cursor).length)
    (e : (leftAt Row.pos (newestFirst tree.root) cursor)[historyPageSize - 1]? = some r) :
    ((historyAt tree cursor).nextCursor, (historyAt tree cursor).nextCursorId) = cursorOf (some r.pos) := by
  have has : (historyAt tree cursor).hasMore = true := by
    rw [historyAt_hasMore]
    exact decide_eq_true more
  have head : (historyAt tree cursor).leadMessages.head? = some r := by
    have len : (pageAt Row.pos historyPageSize (newestFirst tree.root) cursor).length = historyPageSize := by
      rw [pageAt, List.length_take, Nat.min_eq_left more.le]
    have lt : historyPageSize - 1 < historyPageSize := Nat.sub_lt historyPageSize_pos Nat.one_pos
    rw [historyAt_lead, List.head?_reverse, List.getLast?_eq_getElem?, len, pageAt, List.getElem?_take_of_lt lt, e]
  have next : (historyAt tree cursor).nextCursor =
      (if (historyAt tree cursor).hasMore then (historyAt tree cursor).leadMessages.head? else none).map Row.seq := rfl
  have nextId : (historyAt tree cursor).nextCursorId =
      (if (historyAt tree cursor).hasMore then (historyAt tree cursor).leadMessages.head? else none).map Row.id := rfl
  rw [next, nextId, has, head]
  rfl

/-- The pages of a client are those at the cursors of the root. -/
lemma Followed.of_cursors (C : Cursors Row.pos historyPageSize (newestFirst tree.root) cursor cs) :
    Followed tree (cursorOf cursor).1 (cursorOf cursor).2 (cs.map (historyAt tree)) := by
  induction C with
  | last le =>
    refine .last ?_
    exact (@historyAt_hasMore tree _).trans (decide_eq_false (not_lt.mpr le))
  | more more e _ ih =>
    have next := Prod.mk.inj (historyAt_next more e)
    refine .more ((@historyAt_hasMore tree _).trans (decide_eq_true more)) ?_
    have first : (getAgentHistory tree (cursorOf _).1 (cursorOf _).2).nextCursor = _ := next.1
    have second : (getAgentHistory tree (cursorOf _).1 (cursorOf _).2).nextCursorId = _ := next.2
    rw [first, second]
    exact ih

/-- A client has no choice. -/
lemma Followed.unique (F : Followed tree seq id pages) (F' : Followed tree seq id pages') : pages' = pages := by
  induction F generalizing pages' with
  | last none =>
    cases F' with
    | last _ => rfl
    | more some _ =>
      rw [none] at some
      cases some
  | more some _ ih =>
    cases F' with
    | last none =>
      rw [none] at some
      cases some
    | more _ F' => rw [ih F']

/-- Pages in reverse order. -/
lemma pages_reverse {g : AgentHistoryData → List Row} {l : List Row}
    (h : ∀ cursor, g (historyAt tree cursor) = (pageAt Row.pos historyPageSize l cursor).reverse) :
    (cs.map (historyAt tree)).reverse.flatMap g = (cs.flatMap (pageAt Row.pos historyPageSize l)).reverse := by
  induction cs with
  | nil => rfl
  | cons c cs ih =>
    rw [List.map_cons, List.reverse_cons, List.flatMap_append, ih, List.flatMap_singleton, h, List.flatMap_cons,
      List.reverse_append]

/-- There are pages to the end. -/
lemma Followed.exist (tree : SessionTree) : ∃ pages, Followed tree none none pages := by
  obtain ⟨cs, C⟩ := Cursors.exist (newestFirst_pairwise tree.root) historyPageSize_pos none
  exact ⟨_, Followed.of_cursors C⟩

/-- The pages of a child are its transcript if and only if those of the root fit it. -/
lemma member_iff {j : Nat} (C : Cursors Row.pos historyPageSize (newestFirst tree.root) none cs)
    (h : tree.children[j]? = some sub) :
    (cs.map (historyAt tree)).reverse.flatMap (AgentHistoryData.memberMessages j) = visibleRows sub ↔
      Aligned tree.root sub := by
  have whole : visibleRows sub = (newestFirst sub).reverse := (List.reverse_reverse _).symm
  have other := C.other (newestFirst_pairwise _) (newestFirst_pairwise sub) historyPageSize_pos
  rw [leftAt_none] at other
  rw [pages_reverse (fun _ => historyAt_member h), whole, List.reverse_inj, other]
  constructor
  · intro A
    have cuts := A.cuts
    have pages := A.pages
    rw [leftAt_none, leftAt_none] at cuts pages
    exact ⟨fun k r lt e => cuts k r lt e, pages⟩
  · intro A
    constructor
    · rw [leftAt_none, leftAt_none]
      exact fun k r lt e => A.cuts k r lt e
    · rw [leftAt_none, leftAt_none]
      exact A.pages

/-- When pages partition the history. -/
lemma Followed.partitioned_iff (F : Followed tree none none pages) :
    Partitioned tree pages ↔ ∀ sub ∈ tree.children, Aligned tree.root sub := by
  have order := newestFirst_pairwise tree.root
  obtain ⟨cs, C⟩ := Cursors.exist order historyPageSize_pos none
  rw [(Followed.of_cursors C).unique F]
  constructor
  · intro P sub hsub
    obtain ⟨j, h⟩ := List.mem_iff_getElem?.mp hsub
    exact (member_iff C h).mp (P.members j sub h)
  · intro A
    refine ⟨?_, fun j sub h => (member_iff C h).mpr (A sub (List.mem_of_getElem? h))⟩
    rw [pages_reverse fun _ => historyAt_lead, C.own order historyPageSize_pos, leftAt_none, newestFirst, List.reverse_reverse]

end

/-- A client that follows the cursors reads each visible row of the root and of the children once, in order, if and
only if the pages of the root fit the children. -/
theorem history_iff (tree : SessionTree) : ∃ pages, (∀ other, Followed tree none none other ↔ other = pages) ∧
    (Partitioned tree pages ↔ ∀ sub ∈ tree.children, Aligned tree.root sub) := by
  obtain ⟨pages, F⟩ := Followed.exist tree
  exact ⟨pages, fun other => ⟨fun F' => F.unique F', fun e => e ▸ F⟩, F.partitioned_iff⟩

/-- The row `i` of a transcript without gaps. -/
def plainRow (i : Nat) : Row := { id := i, role := .user, content := some "go on", seq := (i + 1) * seqStep }

/-- A transcript of `n` messages. -/
def plainTable (n : Nat) : Table where
  rows := (List.range n).map plainRow
  clock := n
  fresh := by simp [plainRow]
  distinct := by
    rw [List.map_map]
    exact (List.nodup_range).map fun _ _ e => e

/-- Plain rows, newest first. -/
lemma newestFirst_plainTable (n : Nat) : newestFirst (plainTable n) = ((List.range n).map plainRow).reverse := by
  have visible : ((List.range n).map plainRow).filter userVisible = (List.range n).map plainRow := by
    rw [List.filter_eq_self]
    intro r hr
    obtain ⟨i, -, rfl⟩ := List.mem_map.mp hr
    rfl
  have order : ((List.range n).map plainRow).Pairwise fun a b => a.pos < b.pos := by
    rw [List.pairwise_map]
    refine List.pairwise_lt_range.imp fun {i j} lt => ?_
    rw [Row.pos_lt]
    exact .inl (Nat.mul_lt_mul_of_pos_right (Nat.succ_lt_succ lt) (by decide))
  have whole : newestFirst (plainTable n) = (orderByPos (((List.range n).map plainRow).filter userVisible)).reverse :=
    rfl
  rw [whole, visible, orderByPos, sortOn_eq_self order]

/-- A page and one message in the root, one message in a child: the message of the child is on both pages. -/
theorem member_twice : ∃ pages, Followed ⟨plainTable 101, [plainTable 1]⟩ none none pages ∧
    ¬ Partitioned ⟨plainTable 101, [plainTable 1]⟩ pages := by
  obtain ⟨pages, F⟩ := Followed.exist ⟨plainTable 101, [plainTable 1]⟩
  refine ⟨pages, F, fun P => ?_⟩
  have A := F.partitioned_iff.mp P (plainTable 1) List.mem_cons_self
  have cut := A.cuts 0 (plainRow 1)
  rw [newestFirst_plainTable, newestFirst_plainTable] at cut
  have cut := cut (by decide) (by decide)
  revert cut
  decide

end OpenAgentd.Store
