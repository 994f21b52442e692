import OpenAgentd.Web.Messages

/-!
# Turns

`web/src/utils/turns.ts`: the blocks of a chat as items, one for each block of the user and one for each run of other
blocks. While a turn streams, `appendCurrentTurns` adds the live blocks to the items of the finished ones.

A block in front of a list is one item more, or joins the run that the items begin with (`partitionFrom_cons`), and that
does not look at the other end of the items (`join_push`). So the items of two lists joined at the seam are the items of
both (`appendCurrentTurns_eq`).
-/

namespace OpenAgentd.Web

/-- `TurnItem`. -/
inductive TurnItem where
  | user (block : ContentBlock) (index : Nat)
  | assistant (blocks : List ContentBlock) (startIndex : Nat)
  deriving DecidableEq

/-- The block is not the user's. -/
def inTurn (b : ContentBlock) : Bool := b.type ≠ .user

/-- The loop of `partitionTurns`, from the index `i` on. -/
def partitionFrom (i : Nat) : List ContentBlock → List TurnItem
  | [] => []
  | b :: blocks =>
    if b.type = .user then .user b i :: partitionFrom (i + 1) blocks
    else
      let turnBlocks := b :: blocks.takeWhile inTurn
      .assistant turnBlocks i :: partitionFrom (i + turnBlocks.length) (blocks.dropWhile inTurn)
termination_by blocks => blocks.length
decreasing_by
  · exact Nat.lt_succ_self blocks.length
  · exact Nat.lt_succ_of_le (List.dropWhile_sublist inTurn).length_le

def partitionTurns (blocks : List ContentBlock) : List TurnItem := partitionFrom 0 blocks

/-- The item with its index moved. -/
def TurnItem.shift (n : Nat) : TurnItem → TurnItem
  | .user block index => .user block (index + n)
  | .assistant blocks startIndex => .assistant blocks (startIndex + n)

/-- Items behind items, as one where a run goes over the seam. -/
def join (finalized current : List TurnItem) : List TurnItem :=
  match finalized.getLast?, current with
  | some (.assistant blocks startIndex), .assistant more _ :: rest =>
    finalized.dropLast ++ .assistant (blocks ++ more) startIndex :: rest
  | _, _ => finalized ++ current

def appendCurrentTurns (finalizedTurns : List TurnItem) (finalizedBlockCount : Nat)
    (currentBlocks : List ContentBlock) : List TurnItem :=
  if currentBlocks = [] then finalizedTurns
  else join finalizedTurns ((partitionTurns currentBlocks).map (TurnItem.shift finalizedBlockCount))

/-! ## A block in front -/

section
variable {b : ContentBlock} {a blocks : List ContentBlock} {x : TurnItem} {xs ys : List TurnItem} {i n : Nat}

/-- A block in front of items. -/
def push (i : Nat) (b : ContentBlock) (items : List TurnItem) : List TurnItem :=
  if b.type = .user then .user b i :: items
  else
    match items with
    | .assistant blocks _ :: rest => .assistant (b :: blocks) i :: rest
    | items => .assistant [b] i :: items

/-- A user's block is its own turn. -/
lemma push_user (h : b.type = .user) : push i b xs = .user b i :: xs := if_pos h

/-- A block goes on with its turn. -/
lemma push_assistant (h : b.type ≠ .user) : push i b (.assistant blocks n :: xs) = .assistant (b :: blocks) i :: xs :=
  if_neg h

/-- The first block. -/
lemma push_nil (h : b.type ≠ .user) : push i b [] = [.assistant [b] i] := if_neg h

/-- A block behind a user's. -/
lemma push_other {u : ContentBlock} (h : b.type ≠ .user) :
    push i b (.user u n :: xs) = .assistant [b] i :: .user u n :: xs := if_neg h

/-- No blocks. -/
lemma partitionFrom_nil : partitionFrom i [] = [] := by rw [partitionFrom]

/-- A user's block. -/
lemma partitionFrom_user (h : b.type = .user) :
    partitionFrom i (b :: blocks) = .user b i :: partitionFrom (i + 1) blocks := by rw [partitionFrom, if_pos h]

/-- A run of blocks. -/
lemma partitionFrom_run (h : b.type ≠ .user) : partitionFrom i (b :: blocks) =
    .assistant (b :: blocks.takeWhile inTurn) i ::
      partitionFrom (i + (b :: blocks.takeWhile inTurn).length) (blocks.dropWhile inTurn) := by
  rw [partitionFrom, if_neg h]

/-- A block in front of a list. -/
lemma partitionFrom_cons : partitionFrom i (b :: blocks) = push i b (partitionFrom (i + 1) blocks) := by
  by_cases h : b.type = .user
  · rw [partitionFrom_user h, push_user h]
  · rw [partitionFrom_run h]
    cases blocks with
    | nil => rw [List.takeWhile_nil, List.dropWhile_nil, partitionFrom_nil, partitionFrom_nil, push_nil h]
    | cons c blocks =>
      by_cases h' : c.type = .user
      · have out : ¬ inTurn c = true := by simp [inTurn, h']
        rw [List.takeWhile_cons_of_neg out, List.dropWhile_cons_of_neg out, List.length_singleton, partitionFrom_user h',
          push_other h]
      · have run : inTurn c = true := by simp [inTurn, h']
        have same : i + (b :: c :: blocks.takeWhile inTurn).length = i + 1 + (c :: blocks.takeWhile inTurn).length := by
          rw [List.length_cons]
          omega
        rw [List.takeWhile_cons_of_pos run, List.dropWhile_cons_of_pos run, partitionFrom_run h', push_assistant h, same]

/-! ## The seam -/

/-- Nothing to join. -/
lemma join_nil : join xs [] = xs := by
  unfold join
  split
  · rename_i e
    cases e
  · exact List.append_nil xs

/-- Only the last item is at the seam. -/
lemma join_cons (some : xs ≠ []) : join (x :: xs) ys = x :: join xs ys := by
  have last : (x :: xs).getLast? = xs.getLast? := by rw [List.getLast?_cons_of_ne_nil some]
  unfold join
  rw [last, List.dropLast_cons_of_ne_nil some]
  split
  · rfl
  · rfl

/-- A single run at the seam takes over the run behind it. -/
lemma join_assistant : join [.assistant (b :: blocks) i] ys =
    match ys with
    | .assistant more _ :: rest => .assistant (b :: (blocks ++ more)) i :: rest
    | ys => .assistant (b :: blocks) i :: ys := by
  cases ys with
  | nil => rfl
  | cons y ys =>
    cases y with
    | user u n => rfl
    | assistant more n => rfl

/-- A block in front does not meet the seam. -/
lemma join_push : join (push i b xs) ys = push i b (join xs ys) := by
  by_cases h : b.type = .user
  · rw [push_user h, push_user h]
    cases xs with
    | nil => rfl
    | cons x xs => rw [join_cons (List.cons_ne_nil x xs)]
  · cases xs with
    | nil =>
      rw [push_nil h, join_assistant]
      cases ys with
      | nil => rw [join_nil, push_nil h]
      | cons y ys =>
        cases y with
        | user u n => exact (push_other h).symm
        | assistant more n => exact (push_assistant h).symm
    | cons x xs =>
      cases x with
      | user u n =>
        rw [push_other h, join_cons (List.cons_ne_nil _ xs)]
        cases xs with
        | nil => exact (push_other h).symm
        | cons x xs => rw [join_cons (List.cons_ne_nil x xs), push_other h]
      | assistant blocks n =>
        rw [push_assistant h]
        cases xs with
        | nil =>
          rw [join_assistant]
          cases ys with
          | nil => rw [join_nil, push_assistant h]
          | cons y ys =>
            cases y with
            | user u n => exact (push_assistant h).symm
            | assistant more n => exact (push_assistant h).symm
        | cons x xs => rw [join_cons (List.cons_ne_nil x xs), join_cons (List.cons_ne_nil x xs), push_assistant h]

/-- Blocks in a row. -/
lemma partitionFrom_append : partitionFrom i (a ++ blocks) = join (partitionFrom i a) (partitionFrom (i + a.length) blocks) := by
  induction a generalizing i with
  | nil =>
    rw [partitionFrom_nil]
    rfl
  | cons b a ih =>
    have same : i + 1 + a.length = i + (b :: a).length := by
      rw [List.length_cons]
      omega
    rw [List.cons_append, partitionFrom_cons, ih, partitionFrom_cons, join_push, same]

/-! ## Indices -/

/-- The numbers shifted. -/
lemma push_map : (push i b xs).map (TurnItem.shift n) = push (i + n) b (xs.map (TurnItem.shift n)) := by
  by_cases h : b.type = .user
  · rw [push_user h, push_user h]
    rfl
  · cases xs with
    | nil =>
      rw [push_nil h, List.map_nil, push_nil h]
      rfl
    | cons x xs =>
      cases x with
      | user u k =>
        rw [push_other h]
        exact (push_other h).symm
      | assistant more k =>
        rw [push_assistant h]
        exact (push_assistant h).symm

/-- The numbers shifted. -/
lemma partitionFrom_map : (partitionFrom i blocks).map (TurnItem.shift n) = partitionFrom (i + n) blocks := by
  induction blocks generalizing i with
  | nil =>
    rw [partitionFrom_nil, partitionFrom_nil]
    rfl
  | cons b blocks ih =>
    have same : i + 1 + n = i + n + 1 := by omega
    rw [partitionFrom_cons, partitionFrom_cons, push_map, ih, same]

end

/-- The items of live blocks behind finished ones are the items of all. -/
theorem appendCurrentTurns_eq (a b : List ContentBlock) :
    appendCurrentTurns (partitionTurns a) a.length b = partitionTurns (a ++ b) := by
  rw [partitionTurns, partitionTurns, partitionFrom_append]
  unfold appendCurrentTurns
  split
  next none =>
    rw [none, partitionFrom_nil, join_nil]
  next =>
    rw [partitionTurns, partitionFrom_map]

/-! ## What the items are -/

/-- The blocks of an item. -/
def TurnItem.blocks : TurnItem → List ContentBlock
  | .user block _ => [block]
  | .assistant blocks _ => blocks

/-- Where an item begins. -/
def TurnItem.start : TurnItem → Nat
  | .user _ index => index
  | .assistant _ startIndex => startIndex

/-- The items have all blocks in their order. -/
theorem partitionFrom_blocks (i : Nat) (blocks : List ContentBlock) :
    (partitionFrom i blocks).flatMap TurnItem.blocks = blocks := by
  induction i, blocks using partitionFrom.induct with
  | case1 i => rw [partitionFrom_nil, List.flatMap_nil]
  | case2 i b blocks h ih =>
    rw [partitionFrom_user h, List.flatMap_cons, ih]
    rfl
  | case3 i b blocks h turnBlocks ih =>
    rw [partitionFrom_run h, List.flatMap_cons, ih, TurnItem.blocks, List.cons_append, List.takeWhile_append_dropWhile]

/-- An item begins where the items in front of it end. -/
theorem partitionFrom_start {i : Nat} {blocks : List ContentBlock} {before after : List TurnItem} {x : TurnItem}
    (e : partitionFrom i blocks = before ++ x :: after) : x.start = i + (before.flatMap TurnItem.blocks).length := by
  induction i, blocks using partitionFrom.induct generalizing before with
  | case1 i =>
    rw [partitionFrom_nil] at e
    exact absurd e.symm (List.append_ne_nil_of_right_ne_nil before (List.cons_ne_nil x after))
  | case2 i b blocks h ih =>
    rw [partitionFrom_user h] at e
    cases before with
    | nil =>
      cases e
      rfl
    | cons y before =>
      obtain ⟨first, rest⟩ := List.cons.inj e
      rw [ih rest, ← first, List.flatMap_cons, List.length_append, TurnItem.blocks, List.length_singleton]
      omega
  | case3 i b blocks h turnBlocks =>
    rename_i ih
    rw [partitionFrom_run h] at e
    cases before with
    | nil =>
      cases e
      rfl
    | cons y before =>
      obtain ⟨first, rest⟩ := List.cons.inj e
      have run : turnBlocks = b :: blocks.takeWhile inTurn := rfl
      rw [ih rest, ← first, List.flatMap_cons, List.length_append, TurnItem.blocks, run]
      omega

end OpenAgentd.Web
