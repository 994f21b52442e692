import OpenAgentd.Lib.Utf8
import OpenAgentd.Shell.Ansi

/-!
# Foreground output

`_tail_text` and `_ForegroundOutput` (`builtin/shell.py`), without disk errors. After any chunks the buffers hold the
first bytes and the last bytes of the output, and the spill file holds everything with the escape sequences of each
piece removed, up to its cap (`holds_run`).
-/

namespace OpenAgentd.Shell
open OpenAgentd.Lib

def outputMaxLines : Nat := 300
def outputMaxBytes : Nat := 131072
def spillMaxBytes : Nat := 10 * 1024 * 1024

/-! ## Cutting a text -/

/-- What a marker says is left out. -/
inductive Omitted where
  | lines (n : Nat)
  | bytes (n : Nat)
  deriving DecidableEq

/-- A truncation marker. The one for bytes brings its line feeds, the one for lines is a line. -/
def Omitted.marker : Omitted → List Char
  | .lines n => "...output truncated (".toList ++ Nat.toDigits 10 n ++ " lines omitted)...".toList
  | .bytes n => "\n...output truncated (".toList ++ Nat.toDigits 10 n ++ " bytes omitted)...\n".toList

/-- `"\n".join(lines)` -/
def joinLines (lines : List (List Char)) : List Char := ['\n'].intercalate lines

/-- `s[-n:]` -/
def lastOf {α : Type*} (n : Nat) (s : List α) : List α := if n = 0 then s else s.drop (s.length - n)

def markerProbe : List UInt8 := utf8Encode "\n...output truncated (000000000 bytes omitted)...\n".toList

/-- The first and the last lines, with a marker line between them, if there are too many. -/
def cutLines (text : List Char) (maxLines : Nat) : List Char :=
  let lines := text.splitOn '\n'
  if lines.length > maxLines then
    let headLimit := maxLines / 2
    let tailLimit := maxLines - headLimit
    let omitted := lines.length - headLimit - tailLimit
    joinLines (lines.take headLimit ++ [(Omitted.lines omitted).marker] ++ lastOf tailLimit lines)
  else text

/-- The first and the last bytes, with a marker between them, if there are too many. -/
def cutBytes (text : List Char) (maxBytes : Nat) : List Char :=
  let encoded := utf8Encode text
  if encoded.length ≤ maxBytes then text
  else if maxBytes ≤ markerProbe.length then decodeWith [] (lastOf maxBytes encoded)
  else
    let contentBytes := maxBytes - markerProbe.length
    let headBytes := contentBytes / 2
    let tailBytes := contentBytes - headBytes
    let head := decodeWith [] (encoded.take headBytes)
    let tail := decodeWith [] (lastOf tailBytes encoded)
    head ++ (Omitted.bytes (encoded.length - headBytes - tailBytes)).marker ++ tail

/-- `_tail_text` -/
def tailText (text : List Char) (maxLines maxBytes : Nat) : List Char × Bool :=
  if (text.splitOn '\n').length ≤ maxLines ∧ (utf8Encode text).length ≤ maxBytes then (text, false)
  else (cutBytes (cutLines text maxLines) maxBytes, true)

/-! ## The buffers -/

/-- `_ForegroundOutput` -/
structure ForegroundOutput where
  totalBytes : Nat := 0
  head : List (List UInt8) := []
  headBytes : Nat := 0
  tail : List (List UInt8) := []
  tailBytes : Nat := 0
  /-- What the file at `spill_path` holds. -/
  spill : Option (List UInt8) := none
  spillBytes : Nat := 0
  spillCapped : Bool := false
  deriving DecidableEq

namespace ForegroundOutput

/-- The head takes what fits of a chunk; the rest is returned. -/
def keepHead (o : ForegroundOutput) (chunk : List UInt8) : ForegroundOutput × List UInt8 :=
  if o.headBytes < outputMaxBytes then
    let take := min chunk.length (outputMaxBytes - o.headBytes)
    ({ o with head := o.head ++ [chunk.take take], headBytes := o.headBytes + take }, chunk.drop take)
  else (o, chunk)

/-- `_open_spill` -/
def openSpill (o : ForegroundOutput) : ForegroundOutput :=
  let head := stripAnsiBytes o.head.flatten
  { o with
    spill := some (head.take spillMaxBytes)
    spillBytes := min head.length spillMaxBytes
    spillCapped := head.length > spillMaxBytes }

/-- A write to the spill file. -/
def writeSpill (o : ForegroundOutput) (rest : List UInt8) : ForegroundOutput :=
  let payload := stripAnsiBytes rest
  let remaining := spillMaxBytes - o.spillBytes
  if remaining = 0 then { o with spillCapped := true }
  else
    { o with
      spill := o.spill.map (· ++ payload.take remaining)
      spillBytes := o.spillBytes + min payload.length remaining
      spillCapped := o.spillCapped || payload.length > remaining }

/-- The chunks that stay in the tail, and their length. -/
def trimTail : List (List UInt8) → Nat → List (List UInt8) × Nat
  | first :: second :: chunks, n =>
    if n > outputMaxBytes then trimTail (second :: chunks) (n - first.length) else (first :: second :: chunks, n)
  | chunks, n => (chunks, n)

/-- The rest of a chunk goes behind the tail. -/
def keepTail (o : ForegroundOutput) (rest : List UInt8) : ForegroundOutput :=
  let kept := trimTail (o.tail ++ [rest]) (o.tailBytes + rest.length)
  { o with tail := kept.1, tailBytes := kept.2 }

/-- What does not fit into the head is spilled and kept in the tail. -/
def overflow (o : ForegroundOutput) (rest : List UInt8) : ForegroundOutput :=
  if rest = [] then o
  else
    let o := if o.spill = none then o.openSpill else o
    (o.writeSpill rest).keepTail rest

/-- `add` -/
def add (o : ForegroundOutput) (chunk : List UInt8) : ForegroundOutput :=
  let kept := { o with totalBytes := o.totalBytes + chunk.length }.keepHead chunk
  kept.1.overflow kept.2

/-- The bytes that are in no buffer. -/
def dropped (o : ForegroundOutput) : Nat := o.totalBytes - o.headBytes - o.tailBytes

/-- The text of some bytes: `_strip_ansi(data.decode("utf-8", errors="replace"))` -/
def textOf (data : List UInt8) : List Char := stripAnsi (decodeWith ['\uFFFD'] data)

/-- `_inline_text` -/
def inlineText (o : ForegroundOutput) : List Char × Bool :=
  if o.dropped = 0 then tailText (textOf (o.head.flatten ++ o.tail.flatten)) outputMaxLines outputMaxBytes
  else
    let combined := textOf o.head.flatten ++ (Omitted.bytes o.dropped).marker ++ textOf o.tail.flatten
    ((tailText combined outputMaxLines outputMaxBytes).1, true)

/-- `finalize`: the inline text, whether it is cut, and the object it leaves. -/
def finalize (o : ForegroundOutput) : (List Char × Bool) × ForegroundOutput :=
  let inline := o.inlineText
  if inline.2 ∧ o.spill = none then
    let payload := stripAnsiBytes (o.head.flatten ++ o.tail.flatten)
    (inline, { o with
      spill := some (payload.take spillMaxBytes)
      spillBytes := min payload.length spillMaxBytes
      spillCapped := payload.length > spillMaxBytes })
  else (inline, o)

/-- The object after some chunks. -/
def run (chunks : List (List UInt8)) : ForegroundOutput := chunks.foldl add {}

/-! ## What the buffers hold -/

section
variable {o : ForegroundOutput} {whole chunk rest : List UInt8}

/-- The file holds every piece of the output, without its escape sequences, up to the cap. -/
def Spilled (spill : Option (List UInt8)) (whole : List UInt8) : Prop :=
  ∃ pieces : List (List UInt8),
    pieces.flatten = whole ∧ spill = some ((pieces.flatMap stripAnsiBytes).take spillMaxBytes)

/-- The object after the bytes `whole`, up to the total. -/
structure Holds (o : ForegroundOutput) (whole : List UInt8) : Prop where
  head : o.head.flatten = whole.take outputMaxBytes
  headBytes : o.headBytes = min outputMaxBytes whole.length
  middle : ∃ D, whole = o.head.flatten ++ D ++ o.tail.flatten
  tailBytes : o.tailBytes = o.tail.flatten.length
  closed : o.spill = none → o.tail = [] ∧ whole.length ≤ outputMaxBytes
  spilled : o.spill ≠ none → outputMaxBytes < whole.length ∧ ∃ pieces : List (List UInt8),
    pieces.flatten = whole ∧ o.spill = some ((pieces.flatMap stripAnsiBytes).take spillMaxBytes) ∧
      o.spillBytes = min spillMaxBytes (pieces.flatMap stripAnsiBytes).length

/-- Nothing is held. -/
lemma holds_empty : Holds {} [] where
  head := rfl
  headBytes := rfl
  middle := ⟨[], rfl⟩
  tailBytes := rfl
  closed _ := ⟨rfl, Nat.zero_le _⟩
  spilled spilled := absurd rfl spilled

/-- The head takes the first bytes, and passes nothing on before it is full. -/
lemma Holds.keepHead (holds : Holds o whole) (chunk : List UInt8) :
    ∃ taken, chunk = taken ++ (o.keepHead chunk).2 ∧ Holds (o.keepHead chunk).1 (whole ++ taken) ∧
      ((o.keepHead chunk).2 ≠ [] → outputMaxBytes ≤ (whole ++ taken).length) := by
  by_cases room : o.headBytes < outputMaxBytes
  · have len : o.headBytes = whole.length := by
      have h := holds.headBytes
      omega
    have closed : o.spill = none := by
      by_contra spilled
      have long := (holds.spilled spilled).1
      omega
    have front : whole.take outputMaxBytes = whole := List.take_of_length_le (by omega)
    obtain ⟨noTail, -⟩ := holds.closed closed
    rw [ForegroundOutput.keepHead, if_pos room]
    refine ⟨chunk.take (min chunk.length (outputMaxBytes - o.headBytes)), (List.take_append_drop _ _).symm, ?_, ?_⟩
    · have short : (chunk.take (min chunk.length (outputMaxBytes - o.headBytes))).length =
          min chunk.length (outputMaxBytes - o.headBytes) := by
        rw [List.length_take]
        omega
      constructor
      · rw [List.flatten_append, List.flatten_singleton, holds.head, front]
        refine (List.take_of_length_le ?_).symm
        rw [List.length_append, short]
        omega
      · rw [List.length_append, short]
        simp only
        omega
      · refine ⟨[], ?_⟩
        simp only [noTail, List.flatten_append, List.flatten_singleton, List.flatten_nil, List.append_nil]
        rw [holds.head, front]
      · exact holds.tailBytes
      · intro _
        refine ⟨noTail, ?_⟩
        rw [List.length_append, short]
        omega
      · exact fun spilled => absurd closed spilled
    · intro some
      have more : 0 < (chunk.drop (min chunk.length (outputMaxBytes - o.headBytes))).length :=
        List.length_pos_iff.mpr some
      rw [List.length_drop] at more
      rw [List.length_append, List.length_take]
      omega
  · rw [ForegroundOutput.keepHead, if_neg room]
    refine ⟨[], rfl, ?_, fun _ => ?_⟩
    · rw [List.append_nil]
      exact holds
    · have h := holds.headBytes
      rw [List.append_nil]
      omega

/-- What is trimmed is taken from the front, and the length is kept up. -/
lemma trimTail_spec (chunks : List (List UInt8)) {n : Nat} (len : n = chunks.flatten.length) :
    (∃ gone, gone ++ (trimTail chunks n).1.flatten = chunks.flatten) ∧
      (trimTail chunks n).2 = (trimTail chunks n).1.flatten.length := by
  induction chunks generalizing n with
  | nil => exact ⟨⟨[], rfl⟩, len⟩
  | cons first chunks ih =>
    cases chunks with
    | nil => exact ⟨⟨[], rfl⟩, len⟩
    | cons second chunks =>
      rw [trimTail]
      split
      · have rest : n - first.length = (second :: chunks).flatten.length := by
          rw [len, List.flatten_cons, List.length_append, Nat.add_sub_cancel_left]
        obtain ⟨⟨gone, e⟩, same⟩ := ih rest
        refine ⟨⟨first ++ gone, ?_⟩, same⟩
        rw [List.append_assoc, e]
        rfl
      · exact ⟨⟨[], rfl⟩, len⟩

/-- A file is opened with the head. -/
lemma Holds.openSpill (holds : Holds o whole) (closed : o.spill = none) :
    ∃ pieces : List (List UInt8), pieces.flatten = whole ∧
      o.openSpill.spill = some ((pieces.flatMap stripAnsiBytes).take spillMaxBytes) ∧
      o.openSpill.spillBytes = min spillMaxBytes (pieces.flatMap stripAnsiBytes).length := by
  have front : o.head.flatten = whole := by
    rw [holds.head, List.take_of_length_le (holds.closed closed).2]
  refine ⟨[whole], List.flatten_singleton, ?_, ?_⟩
  · rw [ForegroundOutput.openSpill, front, List.flatMap_singleton]
  · rw [ForegroundOutput.openSpill, front, List.flatMap_singleton]
    exact Nat.min_comm _ _

/-- A piece is written behind the others. -/
lemma writeSpill_spec {pieces : List (List UInt8)}
    (spill : o.spill = some ((pieces.flatMap stripAnsiBytes).take spillMaxBytes))
    (bytes : o.spillBytes = min spillMaxBytes (pieces.flatMap stripAnsiBytes).length) (rest : List UInt8) :
    (o.writeSpill rest).spill = some (((pieces ++ [rest]).flatMap stripAnsiBytes).take spillMaxBytes) ∧
      (o.writeSpill rest).spillBytes = min spillMaxBytes ((pieces ++ [rest]).flatMap stripAnsiBytes).length := by
  have left : spillMaxBytes - o.spillBytes = spillMaxBytes - (pieces.flatMap stripAnsiBytes).length := by omega
  rw [List.flatMap_append, List.flatMap_singleton, List.take_append, List.length_append, writeSpill]
  split
  next full =>
    rw [left] at full
    refine ⟨?_, ?_⟩
    · rw [full, List.take_zero, List.append_nil]
      exact spill
    · simp only
      omega
  next room =>
    refine ⟨?_, ?_⟩
    · simp only [spill, Option.map_some, left]
    · simp only
      omega

/-- Spilling keeps the rest. -/
lemma writeSpill_keeps (o : ForegroundOutput) (rest : List UInt8) :
    (o.writeSpill rest).head = o.head ∧ (o.writeSpill rest).headBytes = o.headBytes ∧
      (o.writeSpill rest).tail = o.tail ∧ (o.writeSpill rest).tailBytes = o.tailBytes ∧
      (o.writeSpill rest).totalBytes = o.totalBytes := by
  rw [writeSpill]
  split
  · exact ⟨rfl, rfl, rfl, rfl, rfl⟩
  · exact ⟨rfl, rfl, rfl, rfl, rfl⟩

/-- A full head leaves the rest to the file and the tail. -/
lemma Holds.overflow (holds : Holds o whole) (full : rest ≠ [] → outputMaxBytes ≤ whole.length) :
    Holds (o.overflow rest) (whole ++ rest) := by
  rw [ForegroundOutput.overflow]
  split
  next none =>
    rw [none, List.append_nil]
    exact holds
  next some =>
    have full := full some
    have pos : 0 < rest.length := List.length_pos_iff.mpr some
    -- the file is open before the write, and the buffers are as they were
    obtain ⟨o', e, keeps, pieces, flat, spill, bytes⟩ : ∃ o', o' = (if o.spill = none then o.openSpill else o) ∧
        (o'.head = o.head ∧ o'.headBytes = o.headBytes ∧ o'.tail = o.tail ∧ o'.tailBytes = o.tailBytes) ∧
        ∃ pieces : List (List UInt8), pieces.flatten = whole ∧
          o'.spill = Option.some ((pieces.flatMap stripAnsiBytes).take spillMaxBytes) ∧
          o'.spillBytes = min spillMaxBytes (pieces.flatMap stripAnsiBytes).length := by
      refine ⟨_, rfl, ?_⟩
      split
      next closed => exact ⟨⟨rfl, rfl, rfl, rfl⟩, holds.openSpill closed⟩
      next spilled => exact ⟨⟨rfl, rfl, rfl, rfl⟩, (holds.spilled spilled).2⟩
    rw [← e]
    obtain ⟨head, headBytes, tail, tailBytes⟩ := keeps
    obtain ⟨head', headBytes', tail', tailBytes', -⟩ := writeSpill_keeps o' rest
    obtain ⟨spill', bytes'⟩ := writeSpill_spec spill bytes rest
    have len : (o'.writeSpill rest).tailBytes + rest.length =
        ((o'.writeSpill rest).tail ++ [rest]).flatten.length := by
      rw [tailBytes', tailBytes, tail', tail, holds.tailBytes, List.flatten_append, List.length_append,
        List.flatten_singleton]
    obtain ⟨⟨gone, trimmed⟩, same⟩ := trimTail_spec _ len
    constructor
    · rw [keepTail, head', head, holds.head, List.take_append_of_le_length full]
    · have h := holds.headBytes
      rw [keepTail, headBytes', headBytes, List.length_append]
      omega
    · obtain ⟨D, e⟩ := holds.middle
      refine ⟨D ++ gone, ?_⟩
      rw [tail', tail, List.flatten_append, List.flatten_singleton] at trimmed
      rw [keepTail, head', head, tail', tail, e]
      simp only [List.append_assoc] at trimmed ⊢
      rw [← trimmed]
    · exact same
    · intro closed
      rw [keepTail, spill'] at closed
      cases closed
    · intro _
      rw [List.length_append]
      refine ⟨by omega, pieces ++ [rest], ?_, spill', bytes'⟩
      rw [List.flatten_append, flat, List.flatten_singleton]

/-- One chunk. -/
lemma Holds.add (holds : Holds o whole) (chunk : List UInt8) : Holds (o.add chunk) (whole ++ chunk) := by
  have counted : Holds { o with totalBytes := o.totalBytes + chunk.length } whole :=
    ⟨holds.head, holds.headBytes, holds.middle, holds.tailBytes, holds.closed, holds.spilled⟩
  obtain ⟨taken, e, kept, full⟩ := counted.keepHead chunk
  rw [ForegroundOutput.add]
  have both := kept.overflow full
  rwa [List.append_assoc, ← e] at both

/-- The head counts nothing. -/
lemma keepHead_totalBytes : (o.keepHead chunk).1.totalBytes = o.totalBytes := by
  rw [keepHead]
  split <;> rfl

/-- The overflow counts nothing. -/
lemma overflow_totalBytes : (o.overflow rest).totalBytes = o.totalBytes := by
  rw [overflow]
  split
  · rfl
  · rw [keepTail, (writeSpill_keeps _ rest).2.2.2.2]
    split <;> rfl

/-- A chunk is counted. -/
lemma add_totalBytes (o : ForegroundOutput) (chunk : List UInt8) :
    (o.add chunk).totalBytes = o.totalBytes + chunk.length := by
  rw [add, overflow_totalBytes, keepHead_totalBytes]

/-- A chunk that fits into the head. -/
lemma add_fits (room : o.headBytes < outputMaxBytes) (fits : o.headBytes + chunk.length ≤ outputMaxBytes) :
    o.add chunk = { o with
      totalBytes := o.totalBytes + chunk.length
      head := o.head ++ [chunk]
      headBytes := o.headBytes + chunk.length } := by
  have all : min chunk.length (outputMaxBytes - o.headBytes) = chunk.length := by omega
  rw [add, keepHead, if_pos room]
  simp only [all, List.take_length, List.drop_length]
  rw [overflow, if_pos rfl]

/-- A chunk behind a full head. -/
lemma add_full (full : outputMaxBytes ≤ o.headBytes) (some : chunk ≠ []) :
    (o.add chunk).headBytes = o.headBytes ∧
      (o.add chunk).tail = (trimTail (o.tail ++ [chunk]) (o.tailBytes + chunk.length)).1 ∧
      (o.add chunk).tailBytes = (trimTail (o.tail ++ [chunk]) (o.tailBytes + chunk.length)).2 := by
  rw [add, keepHead, if_neg (Nat.not_lt.mpr full), overflow, if_neg some]
  simp only
  split
  · obtain ⟨-, headBytes, tail, tailBytes, -⟩ := writeSpill_keeps
      (openSpill { o with totalBytes := o.totalBytes + chunk.length }) chunk
    rw [keepTail, headBytes, tail, tailBytes]
    exact ⟨rfl, rfl, rfl⟩
  · obtain ⟨-, headBytes, tail, tailBytes, -⟩ := writeSpill_keeps
      { o with totalBytes := o.totalBytes + chunk.length } chunk
    rw [keepTail, headBytes, tail, tailBytes]
    exact ⟨rfl, rfl, rfl⟩

/-- Any chunks. -/
lemma holds_run (chunks : List (List UInt8)) :
    Holds (run chunks) chunks.flatten ∧ (run chunks).totalBytes = chunks.flatten.length := by
  have go : ∀ (chunks : List (List UInt8)) (o : ForegroundOutput) (whole : List UInt8), Holds o whole →
      o.totalBytes = whole.length → Holds (chunks.foldl ForegroundOutput.add o) (whole ++ chunks.flatten) ∧
        (chunks.foldl ForegroundOutput.add o).totalBytes = (whole ++ chunks.flatten).length := by
    intro chunks
    induction chunks with
    | nil =>
      intro o whole holds total
      rw [List.flatten_nil, List.append_nil]
      exact ⟨holds, total⟩
    | cons chunk chunks ih =>
      intro o whole holds total
      rw [List.flatten_cons, ← List.append_assoc]
      refine ih _ _ (holds.add chunk) ?_
      rw [add_totalBytes, total, List.length_append]
  exact go chunks {} [] holds_empty rfl

end

end ForegroundOutput

end OpenAgentd.Shell
