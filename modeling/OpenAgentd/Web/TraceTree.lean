import Mathlib.Order.Lattice
import OpenAgentd.Lib.Dict
import OpenAgentd.Lib.Forest

/-!
# The rows of a trace

`web/src/utils/traceTree.ts`: `buildSpanTree` makes a forest of the spans of a trace, which come in any order, with parents
that may be missing, and `flattenTree` lists it for the waterfall.

Of spans with one id the last counts. A span has a row when its parents end at a root, and then one row; spans whose parents
go round in a circle have none. Roots and the spans below one parent stand by their start, and the parent of a row is the
nearest row above it that is less deep (`flattenTree_waterfall`).
-/

namespace OpenAgentd.Web
open OpenAgentd.Lib

universe u
variable {T : Type u}

/-- What the forest depends on of a span. -/
structure SpanDetail (T : Type u) where
  spanId : List Char
  parentSpanId : Option (List Char)
  startMs : T
  deriving DecidableEq

inductive SpanNode (T : Type u) where
  | node (span : SpanDetail T) (depth : Nat) (children : List (SpanNode T))

def SpanNode.span : SpanNode T → SpanDetail T
  | .node span _ _ => span

def SpanNode.depth : SpanNode T → Nat
  | .node _ depth _ => depth

/-- The map `byId`: an id keeps the place where it came first. -/
def byId (spans : List (SpanDetail T)) : Dict (List Char) (SpanDetail T) :=
  spans.foldl (fun map span => map.set span.spanId span) Dict.empty

/-- `byId.values()` -/
def spanValues (spans : List (SpanDetail T)) : List (SpanDetail T) := (byId spans).entries.map Prod.snd

/-- The parent of a span, when it is known; an empty id is none. -/
def parentSpan (spans : List (SpanDetail T)) (span : SpanDetail T) : Option (SpanDetail T) :=
  match span.parentSpanId with
  | none => none
  | some parentId => if parentId = [] then none else (byId spans).get? parentId

section
variable [LinearOrder T]

/-- `sort(sortByStart)`, which is stable. -/
def sortByStart (spans : List (SpanDetail T)) : List (SpanDetail T) := spans.mergeSort fun a b => a.startMs ≤ b.startMs

/-- The children of a span, and the roots, as they are sorted. -/
def spansBelow (spans : List (SpanDetail T)) (parent : Option (SpanDetail T)) : List (SpanDetail T) :=
  sortByStart ((spanValues spans).filter fun span => parentSpan spans span = parent)

/-- `assignDepth`, as deep as there are spans: no way up is longer. -/
def assignDepth (spans : List (SpanDetail T)) : Nat → Nat → SpanDetail T → SpanNode T
  | 0, depth, span => .node span depth []
  | k + 1, depth, span => .node span depth ((spansBelow spans (some span)).map (assignDepth spans k (depth + 1)))

def buildSpanTree (spans : List (SpanDetail T)) : List (SpanNode T) :=
  (spansBelow spans none).map (assignDepth spans (spanValues spans).length 0)

end

/-- `walk` -/
def SpanNode.walk : SpanNode T → List (SpanNode T)
  | .node span depth children => .node span depth children :: children.flatMap fun child => child.walk

def flattenTree (roots : List (SpanNode T)) : List (SpanNode T) := roots.flatMap SpanNode.walk

/-! ### What is shown -/

/-- The last span of its id. -/
def LastOfId (spans : List (SpanDetail T)) (span : SpanDetail T) : Prop :=
  (spans.filter fun s => s.spanId = span.spanId).getLast? = some span

/-- What a row shows. -/
def SpanNode.row (node : SpanNode T) : SpanDetail T × Nat := (node.span, node.depth)

structure Waterfall [LinearOrder T] (spans : List (SpanDetail T)) (rows : List (SpanDetail T × Nat)) : Prop where
  shown : ∀ span depth, (span, depth) ∈ rows ↔ LastOfId spans span ∧ Level (parentSpan spans) (parentSpan spans span) depth
  once : (rows.map fun row => row.1.spanId).Nodup
  nested : NestedFrom (parentSpan spans) 0 rows
  roots : childRows (parentSpan spans) none rows = spansBelow spans none
  children : ∀ row ∈ rows, childRows (parentSpan spans) (some row.1) rows = spansBelow spans (some row.1)
  sorted : ∀ parent, (spansBelow spans parent).Pairwise fun a b => a.startMs ≤ b.startMs

section
variable {spans : List (SpanDetail T)} {span parent : SpanDetail T} {id : List Char}

/-- The last span of an id. -/
lemma get?_byId : (byId spans).get? id = (spans.filter fun s => s.spanId = id).getLast? := by
  have last : ∀ (l : List (SpanDetail T)) (o : Option (SpanDetail T)),
      l.foldl (fun _ s => some s) o = l.getLast?.or o := by
    intro l
    induction l with
    | nil => exact fun o => rfl
    | cons s l ih =>
      intro o
      rw [List.foldl_cons, ih, List.getLast?_cons]
      cases l.getLast? <;> rfl
  rw [byId, Dict.get?_gather (u := fun _ s => s), last, Dict.get?_empty, Option.or_none]

/-- A span is found by its id. -/
lemma spanId_of_get? (h : (byId spans).get? id = some span) : span.spanId = id := by
  rw [get?_byId] at h
  exact of_decide_eq_true (List.mem_filter.mp (List.mem_of_getLast? h)).2

/-- The last spans. -/
lemma mem_spanValues : span ∈ spanValues spans ↔ LastOfId spans span := by
  rw [spanValues, List.mem_map, LastOfId, ← get?_byId]
  constructor
  · rintro ⟨⟨id, s⟩, mem, same⟩
    cases same
    have here := Dict.get?_eq_some.mpr mem
    rwa [spanId_of_get? here]
  · intro here
    exact ⟨_, Dict.get?_eq_some.mp here, rfl⟩

/-- Their ids. -/
lemma spanIds_values : (spanValues spans).map SpanDetail.spanId = (byId spans).keys := by
  rw [spanValues, List.map_map, Dict.keys]
  refine List.map_congr_left fun entry mem => ?_
  exact spanId_of_get? (Dict.get?_eq_some.mpr mem)

/-- Each id once. -/
lemma spanIds_nodup : ((spanValues spans).map SpanDetail.spanId).Nodup := by
  rw [spanIds_values]
  exact (byId spans).distinct

/-- A parent is a span. -/
lemma parentSpan_mem (h : parentSpan spans span = some parent) : parent ∈ spanValues spans := by
  unfold parentSpan at h
  split at h
  · cases h
  · split at h
    · cases h
    · exact List.mem_map.mpr ⟨_, Dict.get?_eq_some.mp h, rfl⟩

variable [LinearOrder T]

/-- The spans are a family. -/
lemma family_spans : Family (parentSpan spans) (spanValues spans) (spansBelow spans) where
  mem := by
    intro p x
    rw [spansBelow, sortByStart, List.mem_mergeSort, List.mem_filter, decide_eq_true_eq]
  once p := by
    rw [spansBelow, sortByStart]
    exact (List.mergeSort_perm _ _).nodup_iff.mpr (spanIds_nodup.of_map _ |>.filter _)
  known _ h := parentSpan_mem h

/-- Siblings by their starts. -/
lemma sorted_spansBelow (p : Option (SpanDetail T)) :
    (spansBelow spans p).Pairwise fun a b => a.startMs ≤ b.startMs := by
  have trans : ∀ a b c : SpanDetail T, decide (a.startMs ≤ b.startMs) = true → decide (b.startMs ≤ c.startMs) = true →
      decide (a.startMs ≤ c.startMs) = true := by
    intro a b c ab bc
    exact decide_eq_true (le_trans (of_decide_eq_true ab) (of_decide_eq_true bc))
  have total : ∀ a b : SpanDetail T, (decide (a.startMs ≤ b.startMs) || decide (b.startMs ≤ a.startMs)) = true := by
    intro a b
    rw [Bool.or_eq_true, decide_eq_true_eq, decide_eq_true_eq]
    exact le_total _ _
  exact (List.pairwise_mergeSort trans total _).imp of_decide_eq_true

/-- The rows of a node and of what is below it. -/
lemma walk_assignDepth (k depth : Nat) (span : SpanDetail T) : (assignDepth spans k depth span).walk.map SpanNode.row =
    (span, depth) :: rowsBelow (spansBelow spans) k (depth + 1) (some span) := by
  induction k generalizing depth span with
  | zero =>
    rw [assignDepth, SpanNode.walk]
    rfl
  | succ k ih =>
    rw [assignDepth, SpanNode.walk, List.map_cons, List.flatMap_map, List.map_flatMap, rowsBelow]
    exact congrArg _ (List.flatMap_congr fun child _ => ih (depth + 1) child)

/-- The rows from the top down. -/
lemma rows_flattenTree : (flattenTree (buildSpanTree spans)).map SpanNode.row =
    rowsBelow (spansBelow spans) ((spanValues spans).length + 1) 0 none := by
  rw [flattenTree, buildSpanTree, List.flatMap_map, List.map_flatMap, rowsBelow]
  exact List.flatMap_congr fun span _ => walk_assignDepth _ 0 span

/-- The rows of a trace are its forest. -/
theorem flattenTree_waterfall (spans : List (SpanDetail T)) :
    Waterfall spans ((flattenTree (buildSpanTree spans)).map SpanNode.row) := by
  rw [rows_flattenTree]
  have family : Family (parentSpan spans) (spanValues spans) (spansBelow spans) := family_spans
  refine ⟨fun span depth => ?_, ?_, family.nested_forest, family.filter_top, fun row mem => ?_, sorted_spansBelow⟩
  · rw [family.mem_forest_iff (Nat.le_succ _), mem_spanValues]
  · have known : ∀ s ∈ (rowsBelow (spansBelow spans) ((spanValues spans).length + 1) 0 none).map Prod.fst,
        s ∈ spanValues spans := by
      intro s mem
      obtain ⟨⟨s', depth⟩, row, same⟩ := List.mem_map.mp mem
      cases same
      exact (family.row .top row).1
    have ids : ((rowsBelow (spansBelow spans) ((spanValues spans).length + 1) 0 none).map Prod.fst
        |>.map SpanDetail.spanId).Nodup := by
      refine List.Nodup.map_on ?_ family.forest_nodup
      intro a memA b memB same
      exact List.inj_on_of_nodup_map spanIds_nodup (known a memA) (known b memB) same
    rwa [List.map_map] at ids
  -- No way up is longer than there are spans, so the fuel lasts to the leaves.
  · exact family.filter_forest (Nat.lt_succ_self _) mem

end

end OpenAgentd.Web
