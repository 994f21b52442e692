import OpenAgentd.Lib.Marked
import OpenAgentd.Shell.Foreground

/-!
# Live output

What a running command prints on its way to the chat: `buffer_live` and `flush_pending` of `_shell`
(`builtin/shell.py`) on the server, `appendToolOutput` (`utils/blocks.ts`) on the client, whose strings are UTF-16.
-/

namespace OpenAgentd.Shell
open OpenAgentd.Lib

def liveOutputMaxChars : Nat := 100000
def liveOutputMaxLines : Nat := 100
def liveOutputTruncated : List Char := "... [truncated live output] ...\n".toList

/-! ## The server -/

/-- `_live_output_window` -/
def liveOutputWindow (text : List Char) : List Char × Bool :=
  let lines :=
    if text.count '\n' > liveOutputMaxLines then
      match nthLast (rfind '\n' text) liveOutputMaxLines text.length with
      | some index => (text.drop (index + 1), true)
      | none => (text, false)
    else (text, false)
  if lines.1.length > liveOutputMaxChars then (lastOf liveOutputMaxChars lines.1, true) else lines

/-- `_emit_tool_output`: the text that is pushed, if there is any. -/
def emitToolOutput (text : List Char) : Option (List Char) :=
  let text := stripAnsi text
  if text = [] then none
  else
    let window := liveOutputWindow text
    some (if window.2 then liveOutputTruncated ++ window.1 else window.1)

/-- What waits for the next flush. -/
structure LiveBuffer where
  pending : List (List Char) := []
  pendingChars : Nat := 0
  deriving DecidableEq

/-- `buffer_live` -/
def LiveBuffer.bufferLive (b : LiveBuffer) (chunk : List UInt8) : LiveBuffer :=
  let decoded := decodeWith ['\uFFFD'] chunk
  let pending := b.pending ++ [decoded]
  let pendingChars := b.pendingChars + decoded.length
  if pendingChars > 2 * liveOutputMaxChars then
    let kept := (liveOutputWindow pending.flatten).1
    { pending := [liveOutputTruncated, kept], pendingChars := liveOutputTruncated.length + kept.length }
  else { pending, pendingChars }

/-- `flush_pending`: the text that is pushed, and an empty buffer. -/
def LiveBuffer.flushPending (b : LiveBuffer) : Option (List Char) × LiveBuffer :=
  if b.pending = [] then (none, b) else (emitToolOutput b.pending.flatten, {})

/-! ## The client -/

/-- The code units of a character. -/
def utf16Char (c : Char) : List UInt16 :=
  if c.toNat < 0x10000 then [UInt16.ofNat c.toNat]
  else [UInt16.ofNat (0xd800 + (c.toNat - 0x10000) / 0x400), UInt16.ofNat (0xdc00 + (c.toNat - 0x10000) % 0x400)]

def utf16 (s : List Char) : List UInt16 := s.flatMap utf16Char

def lineFeed : UInt16 := 10

/-- The marker in the client's strings. -/
def truncatedMarker : List UInt16 := utf16 liveOutputTruncated

def countNewlinesAtLeast : List UInt16 → Nat → Nat
  | _, 0 => 0
  | [], _ => 0
  | c :: s, limit + 1 => if c = lineFeed then countNewlinesAtLeast s limit + 1 else countNewlinesAtLeast s (limit + 1)

/-- `lastNLines`. A start below the text counts as its first place, so `lastIndexOf('\n', idx - 1)` looks at the places
up to `idx - 1`, and at the first one if there are none. -/
def lastNLines (s : List UInt16) (n : Nat) : List UInt16 :=
  match nthLast (fun idx => rfind lineFeed s (idx - 1 + 1)) n s.length with
  | some idx => s.drop (idx + 1)
  | none => s

/-- The output of a card with a text behind it, cut to the limits. -/
def appendOutput (toolOutput : Option (List UInt16)) (text : List UInt16) : List UInt16 :=
  let output := toolOutput.getD [] ++ text
  let output :=
    if countNewlinesAtLeast output liveOutputMaxLines ≥ liveOutputMaxLines then
      truncatedMarker ++ lastNLines output liveOutputMaxLines
    else output
  if output.length > liveOutputMaxChars then truncatedMarker ++ lastOf liveOutputMaxChars output else output

structure ContentBlock where
  isTool : Bool
  toolName : String
  toolCallId : Option String
  toolDone : Bool
  toolOutput : Option (List UInt16)
  deriving DecidableEq

/-- The card that the output of a call is shown in. -/
def ContentBlock.isCard (name : String) (toolCallId : Option String) (block : ContentBlock) : Bool :=
  let given := toolCallId ≠ none ∧ toolCallId ≠ some ""
  block.isTool ∧ ((given ∧ block.toolCallId = toolCallId) ∨ (¬ given ∧ block.toolName = name ∧ block.toolDone = false))

/-- The last element that meets a condition is replaced. -/
def updateLast {α : Type*} (p : α → Bool) (f : α → α) : List α → List α
  | [] => []
  | b :: bs => if bs.any p then b :: updateLast p f bs else if p b then f b :: bs else b :: bs

/-- `appendToolOutput` -/
def appendToolOutput (blocks : List ContentBlock) (name : String) (toolCallId : Option String) (text : List UInt16) :
    List ContentBlock :=
  updateLast (ContentBlock.isCard name toolCallId)
    (fun block => { block with toolOutput := some (appendOutput block.toolOutput text) }) blocks

/-! ## Runs -/

/-- The command prints a chunk, or the flusher wakes up. -/
inductive LiveEvent where
  | read (chunk : List UInt8)
  | flush
  deriving DecidableEq

/-- The server's buffer and the client's blocks. -/
structure LiveState where
  buffer : LiveBuffer := {}
  blocks : List ContentBlock
  deriving DecidableEq

section
variable (name : String) (toolCallId : Option String)

def LiveState.step (s : LiveState) : LiveEvent → LiveState
  | .read chunk => { s with buffer := s.buffer.bufferLive chunk }
  | .flush =>
    let flushed := s.buffer.flushPending
    { buffer := flushed.2
      blocks := flushed.1.elim s.blocks fun text => appendToolOutput s.blocks name toolCallId (utf16 text) }

/-- A run from some blocks to the last flush, when the flusher is cancelled. -/
def LiveState.run (blocks : List ContentBlock) (events : List LiveEvent) : LiveState :=
  (events ++ [LiveEvent.flush]).foldl (LiveState.step name toolCallId) { blocks }

/-- The card of a call. -/
def cardOf (blocks : List ContentBlock) : Option ContentBlock :=
  (blocks.filter (ContentBlock.isCard name toolCallId)).getLast?

/-- What the client holds of a call's output. -/
def heldOutput (blocks : List ContentBlock) : List UInt16 :=
  ((cardOf name toolCallId blocks).bind ContentBlock.toolOutput).getD []

end

/-- What the command has printed. -/
def printed : List LiveEvent → List UInt8
  | [] => []
  | .read chunk :: events => chunk ++ printed events
  | .flush :: events => printed events

section
variable {name : String} {toolCallId : Option String} {blocks : List ContentBlock} {block : ContentBlock}
  {text s : List UInt16}

/-- The last one is updated. -/
lemma getLast?_updateLast {α : Type*} {p : α → Bool} {f : α → α} (same : ∀ b, p (f b) = p b) (bs : List α) :
    ((updateLast p f bs).filter p).getLast? = ((bs.filter p).getLast?).map f := by
  induction bs with
  | nil => rfl
  | cons b bs ih =>
    rw [updateLast]
    split
    next later =>
      have some : bs.filter p ≠ [] := by
        obtain ⟨c, mem, is⟩ := List.any_eq_true.mp later
        exact List.ne_nil_of_mem (List.mem_filter.mpr ⟨mem, is⟩)
      have some' : (updateLast p f bs).filter p ≠ [] := by
        intro none
        rw [none] at ih
        have last := Option.map_eq_none_iff.mp ih.symm
        exact some (List.getLast?_eq_none_iff.mp last)
      by_cases is : p b = true
      · rw [List.filter_cons_of_pos is, List.filter_cons_of_pos is, List.getLast?_cons_of_ne_nil some', ih,
          List.getLast?_cons_of_ne_nil some]
      · rw [List.filter_cons_of_neg is, List.filter_cons_of_neg is, ih]
    next none =>
      have last : bs.filter p = [] := List.filter_eq_nil_iff.mpr fun c mem is => none (List.any_eq_true.mpr ⟨c, mem, is⟩)
      split
      next is =>
        rw [List.filter_cons_of_pos (by rw [same, is]), List.filter_cons_of_pos is, last]
        rfl
      next other =>
        rw [List.filter_cons_of_neg other, last]
        rfl

/-- The card of a call takes the text; it stays the card. -/
lemma cardOf_appendToolOutput (text : List UInt16) (card : cardOf name toolCallId blocks = some block) :
    cardOf name toolCallId (appendToolOutput blocks name toolCallId text) =
      some { block with toolOutput := some (appendOutput block.toolOutput text) } := by
  rw [cardOf] at card
  have last := getLast?_updateLast (p := ContentBlock.isCard name toolCallId)
    (f := fun b => { b with toolOutput := some (appendOutput b.toolOutput text) }) (fun _ => rfl) blocks
  rw [cardOf, appendToolOutput, last, card]
  rfl

/-- The card's output. -/
lemma heldOutput_eq (card : cardOf name toolCallId blocks = some block) :
    heldOutput name toolCallId blocks = block.toolOutput.getD [] := by
  rw [heldOutput, card]
  rfl

/-! ### The windows -/

/-- Counting up to a limit. -/
lemma countNewlinesAtLeast_eq (s : List UInt16) (limit : Nat) :
    countNewlinesAtLeast s limit = min (s.count lineFeed) limit := by
  induction s generalizing limit with
  | nil =>
    cases limit with
    | zero => rfl
    | succ limit => exact (Nat.zero_min _).symm
  | cons c s ih =>
    cases limit with
    | zero => exact (Nat.min_zero _).symm
    | succ limit =>
      rw [countNewlinesAtLeast, List.count_cons]
      split
      next e =>
        rw [ih, e]
        simp
      next other =>
        rw [ih]
        simp [other]

/-- What the client leaves of too many lines. -/
lemma lastNLines_spec {n : Nat} (many : n ≤ s.count lineFeed) (pos : 0 < n) :
    ∃ idx, nthLast (rfind lineFeed s) n s.length = some idx ∧ lastNLines s n = s.drop (idx + 1) ∧
      s[idx]? = some lineFeed ∧ (s.drop (idx + 1)).count lineFeed = n - 1 := by
  obtain ⟨idx, found, here, count⟩ := count_drop_nthLast many pos
  refine ⟨idx, found, ?_, here, count⟩
  have same : ∀ k, 0 < k → rfind lineFeed s (k - 1 + 1) = rfind lineFeed s k := fun k pos => by
    rw [Nat.sub_add_cancel pos]
  rw [lastNLines, nthLast_congr same (by rwa [List.take_length]), found]

/-- The last characters. -/
lemma lastOf_eq {α : Type*} {n : Nat} {t : List α} (pos : n ≠ 0) : lastOf n t = t.drop (t.length - n) := if_neg pos

/-- How much the server's window leaves out in front. -/
def windowStart (text : List Char) : Nat :=
  let lines :=
    if text.count '\n' > liveOutputMaxLines then
      (nthLast (rfind '\n' text) liveOutputMaxLines text.length).elim 0 (· + 1)
    else 0
  lines + ((text.drop lines).length - liveOutputMaxChars)

/-- The window of a text. -/
lemma liveOutputWindow_eq (text : List Char) :
    liveOutputWindow text = (text.drop (windowStart text), decide (windowStart text ≠ 0)) := by
  have chars : ∀ (k : Nat) (cut : Bool), (cut = decide (k ≠ 0)) →
      (if (text.drop k).length > liveOutputMaxChars then (lastOf liveOutputMaxChars (text.drop k), true)
        else (text.drop k, cut)) =
      (text.drop (k + ((text.drop k).length - liveOutputMaxChars)),
        decide (k + ((text.drop k).length - liveOutputMaxChars) ≠ 0)) := by
    intro k cut is
    split
    next long =>
      rw [lastOf_eq (by decide), List.drop_drop, decide_eq_true (by omega)]
    next short =>
      rw [Nat.sub_eq_zero_of_le (Nat.not_lt.mp short), Nat.add_zero, is]
  rw [liveOutputWindow, windowStart]
  split
  next many =>
    obtain ⟨i, found, -, -⟩ := count_drop_nthLast (Nat.le_of_lt many) (by decide)
    rw [found]
    exact chars (i + 1) true (decide_eq_true (Nat.succ_ne_zero i)).symm
  next few => exact chars 0 false rfl

/-- What is left is within the limit. -/
lemma le_windowStart (text : List Char) : text.length - liveOutputMaxChars ≤ windowStart text := by
  rw [windowStart]
  simp only [List.length_drop]
  omega

/-- Where it starts. -/
lemma windowStart_eq {text : List Char} (few : text.count '\n' ≤ liveOutputMaxLines) :
    windowStart text = text.length - liveOutputMaxChars := by
  rw [windowStart, if_neg (Nat.not_lt.mpr few)]
  simp only [List.drop_zero, Nat.zero_add]

end

end OpenAgentd.Shell
