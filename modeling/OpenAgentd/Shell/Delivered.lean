import OpenAgentd.Shell.Live

/-!
# What the client holds of live output

A run of live output is traced: what is read, told and waiting, and where the last marker put in stands in the server's
buffer and in the client's output. As long as no read splits a character, no flush or compaction an escape sequence and
no cut a marker, the client's output is the traced one (`Follows.step`), and what stands behind its last marker is the
end of the whole output (`live_output_shows`).
-/

namespace OpenAgentd.Shell
open OpenAgentd.Lib ForegroundOutput

/-! ## What the client should hold -/

/-- The output is within the limits of the server's windows and of the client's. -/
structure WithinLimits (text : List Char) : Prop where
  serverLines : text.count '\n' ≤ liveOutputMaxLines
  serverChars : text.length ≤ liveOutputMaxChars
  clientLines : (utf16 text).count lineFeed < liveOutputMaxLines
  clientChars : (utf16 text).length ≤ liveOutputMaxChars

instance (text : List Char) : Decidable (WithinLimits text) :=
  decidable_of_iff (text.count '\n' ≤ liveOutputMaxLines ∧ text.length ≤ liveOutputMaxChars ∧
    (utf16 text).count lineFeed < liveOutputMaxLines ∧ (utf16 text).length ≤ liveOutputMaxChars)
    ⟨fun h => ⟨h.1, h.2.1, h.2.2.1, h.2.2.2⟩, fun h => ⟨h.serverLines, h.serverChars, h.clientLines, h.clientChars⟩⟩

/-- What stands behind a marker in the client's output, or all of it, is the end of the text; it is the whole text if that
is within the limits. -/
def Shows (text : List Char) (output : List UInt16) : Prop :=
  ∃ front tail, output = front ++ tail ∧ (front = [] ∨ truncatedMarker <:+ front) ∧ tail <:+ utf16 text ∧
    (WithinLimits text → tail = utf16 text)

/-! ## Traced runs -/

def decoded (chunk : List UInt8) : List Char := decodeWith ['\uFFFD'] chunk

/-- A run so far: the bytes read, their characters that are flushed and those that are not, what is left of these in the
buffer, and the client's output. -/
structure Traced where
  raw : List UInt8 := []
  told : List Char := []
  waiting : List Char := []
  held : Marked Char := .plain []
  shown : Marked UInt16 := .plain []
  deriving DecidableEq

/-- The characters a compaction has left out since the last flush. -/
def Traced.lost (t : Traced) : List Char := t.waiting.take (t.waiting.length - t.held.tail.length)

def Traced.read (t : Traced) (chunk : List UInt8) : Traced :=
  let held : Marked Char := ⟨t.held.front, t.held.tail ++ decoded chunk⟩
  let text := held.text liveOutputTruncated
  { t with
    raw := t.raw ++ chunk
    waiting := t.waiting ++ decoded chunk
    held := if text.length > 2 * liveOutputMaxChars then held.cut liveOutputTruncated (windowStart text) else held }

/-- The buffer without its escape sequences. -/
def stripped (held : Marked Char) : Marked Char := ⟨held.front, stripAnsi held.tail⟩

/-- What a flush of a buffer pushes. -/
def emitted (held : Marked Char) : Marked Char :=
  let text := (stripped held).text liveOutputTruncated
  if windowStart text = 0 then stripped held else (stripped held).cut liveOutputTruncated (windowStart text)

/-- The client's cut of the lines. -/
def cutShownLines (x : Marked UInt16) : Marked UInt16 :=
  let text := x.text truncatedMarker
  if liveOutputMaxLines ≤ text.count lineFeed then
    (nthLast (rfind lineFeed text) liveOutputMaxLines text.length).elim x fun idx => x.cut truncatedMarker (idx + 1)
  else x

/-- The client's cut of the characters. -/
def cutShownChars (x : Marked UInt16) : Marked UInt16 :=
  let text := x.text truncatedMarker
  if text.length > liveOutputMaxChars then x.cut truncatedMarker (text.length - liveOutputMaxChars) else x

/-- The client's output with what is pushed behind it, before the cut of the characters. -/
def Traced.pushed (t : Traced) : Marked UInt16 :=
  cutShownLines (t.shown.join truncatedMarker ((emitted t.held).flatMap utf16Char))

def Traced.flush (t : Traced) : Traced :=
  { t with
    told := t.told ++ t.waiting
    waiting := []
    held := .plain []
    shown := if (emitted t.held).text liveOutputTruncated = [] then t.shown else cutShownChars t.pushed }

def Traced.step (t : Traced) : LiveEvent → Traced
  | .read chunk => t.read chunk
  | .flush => t.flush

/-- A flush splits nothing: no escape sequence goes over it or over the cut of a compaction, no marker stands in a cut
of the characters, and a compaction puts a marker into a text within the limits only in front of it. -/
structure SteadyFlush (t : Traced) : Prop where
  sequences : stripAnsi (t.told ++ t.waiting) = stripAnsi t.told ++ stripAnsi t.waiting
  compacted : stripAnsi t.waiting = stripAnsi t.lost ++ stripAnsi t.held.tail
  small : WithinLimits (stripAnsi (t.told ++ t.waiting)) → t.held.front ≠ none →
    stripAnsi t.lost = [] ∧ stripAnsi t.told = []
  server : ¬ (stripped t.held).Splits liveOutputTruncated
    (windowStart ((stripped t.held).text liveOutputTruncated))
  client : (emitted t.held).text liveOutputTruncated ≠ [] →
    ¬ t.pushed.Splits truncatedMarker ((t.pushed.text truncatedMarker).length - liveOutputMaxChars)

instance (t : Traced) : Decidable (SteadyFlush t) :=
  decidable_of_iff (stripAnsi (t.told ++ t.waiting) = stripAnsi t.told ++ stripAnsi t.waiting ∧
    stripAnsi t.waiting = stripAnsi t.lost ++ stripAnsi t.held.tail ∧
    (WithinLimits (stripAnsi (t.told ++ t.waiting)) → t.held.front ≠ none →
      stripAnsi t.lost = [] ∧ stripAnsi t.told = []) ∧
    (¬ (stripped t.held).Splits liveOutputTruncated
      (windowStart ((stripped t.held).text liveOutputTruncated))) ∧
    ((emitted t.held).text liveOutputTruncated ≠ [] →
      ¬ t.pushed.Splits truncatedMarker ((t.pushed.text truncatedMarker).length - liveOutputMaxChars)))
    ⟨fun h => ⟨h.1, h.2.1, h.2.2.1, h.2.2.2.1, h.2.2.2.2⟩,
      fun h => ⟨h.sequences, h.compacted, h.small, h.server, h.client⟩⟩

/-- A read splits no character. -/
def Traced.Steady (t : Traced) : LiveEvent → Prop
  | .read chunk => decoded (t.raw ++ chunk) = decoded t.raw ++ decoded chunk
  | .flush => SteadyFlush t

instance (t : Traced) (event : LiveEvent) : Decidable (t.Steady event) :=
  match event with
  | .read chunk => inferInstanceAs (Decidable (decoded (t.raw ++ chunk) = decoded t.raw ++ decoded chunk))
  | .flush => inferInstanceAs (Decidable (SteadyFlush t))

/-- Every step from a traced run on is steady. -/
def SteadyRun : Traced → List LiveEvent → Prop
  | _, [] => True
  | t, event :: events => t.Steady event ∧ SteadyRun (t.step event) events

instance instDecidableSteadyRun : ∀ (t : Traced) (events : List LiveEvent), Decidable (SteadyRun t events)
  | _, [] => isTrue trivial
  | t, event :: events =>
    have := instDecidableSteadyRun (t.step event) events
    inferInstanceAs (Decidable (t.Steady event ∧ SteadyRun (t.step event) events))

/-! ## Texts and markers -/

section
variable {held : Marked Char} {x : Marked UInt16} {s t : List Char}

/-- Texts in a row. -/
lemma utf16_append (s t : List Char) : utf16 (s ++ t) = utf16 s ++ utf16 t := List.flatMap_append

/-- An end of a text. -/
lemma utf16_suffix (h : s <:+ t) : utf16 s <:+ utf16 t := by
  obtain ⟨a, rfl⟩ := h
  rw [utf16_append]
  exact List.suffix_append _ _

/-- A front is within the limits. -/
lemma WithinLimits.left (h : WithinLimits (s ++ t)) : WithinLimits s := by
  obtain ⟨serverLines, serverChars, clientLines, clientChars⟩ := h
  rw [List.count_append] at serverLines
  rw [List.length_append] at serverChars
  rw [utf16_append, List.count_append] at clientLines
  rw [utf16_append, List.length_append] at clientChars
  constructor <;> omega

/-- An end is within the limits. -/
lemma WithinLimits.right (h : WithinLimits (s ++ t)) : WithinLimits t := by
  obtain ⟨serverLines, serverChars, clientLines, clientChars⟩ := h
  rw [List.count_append] at serverLines
  rw [List.length_append] at serverChars
  rw [utf16_append, List.count_append] at clientLines
  rw [utf16_append, List.length_append] at clientChars
  constructor <;> omega

/-- The line feeds of a character. -/
lemma count_utf16Char (c : Char) : (utf16Char c).count lineFeed = if c = '\n' then 1 else 0 := by
  have unit : ∀ n : Nat, UInt16.ofNat n = lineFeed ↔ n % 65536 = 10 := by
    intro n
    rw [← UInt16.toNat_inj, UInt16.toNat_ofNat']
    rfl
  have isLf : c = '\n' ↔ c.toNat = 10 := ⟨fun e => by rw [e]; rfl, fun e => Char.toNat_inj.mp e⟩
  have bound : c.toNat < 0x110000 := by
    cases c.valid with
    | inl small => exact Nat.lt_trans small (by decide)
    | inr large => exact large.2
  rw [utf16Char]
  split
  next small =>
    have same : UInt16.ofNat c.toNat = lineFeed ↔ c = '\n' := by
      rw [unit, isLf]
      omega
    rw [List.count_singleton]
    by_cases lf : c = '\n'
    · rw [if_pos lf, same.mpr lf]
      rfl
    · rw [if_neg lf, if_neg fun e => lf (same.mp (beq_iff_eq.mp e))]
  next large =>
    have other : c ≠ '\n' := fun e => by
      rw [isLf.mp e] at large
      exact large (by decide)
    rw [if_neg other, List.count_eq_zero, List.mem_cons, List.mem_singleton]
    rintro (e | e)
    · have low := (unit _).mp e.symm
      omega
    · have low := (unit _).mp e.symm
      omega

/-- Line feeds are line feeds in UTF-16. -/
lemma count_utf16 (s : List Char) : (utf16 s).count lineFeed = s.count '\n' := by
  induction s with
  | nil => rfl
  | cons c s ih =>
    rw [utf16, List.flatMap_cons, List.count_append, count_utf16Char, List.count_cons, Nat.add_comm]
    simp only [beq_iff_eq]
    exact congrArg (· + _) ih

/-- The marker's size. -/
lemma length_marker : liveOutputTruncated.length = 32 ∧ liveOutputTruncated.count '\n' = 1 := by decide

/-- The marker ends with its only line feed. -/
lemma marker_ends : truncatedMarker = truncatedMarker.dropLast ++ [lineFeed] ∧ lineFeed ∉ truncatedMarker.dropLast := by
  decide

/-- The marker is no escape. -/
lemma strip_marker (s : List Char) : stripAnsi (liveOutputTruncated ++ s) = liveOutputTruncated ++ stripAnsi s :=
  strip_append fun c mem => by
    have plain : liveOutputTruncated.all (fun c => c.toNat != esc) = true := by decide
    exact bne_iff_ne.mp (List.all_eq_true.mp plain c mem)

/-- The buffer has no marker, or one in front. -/
def Fronted (held : Marked Char) : Prop := held.front = none ∨ held.front = some []

/-- Without a mark. -/
lemma text_of_none (held : Marked Char) (h : held.front = none) : held.text liveOutputTruncated = held.tail := by
  rw [Marked.text, h]
  rfl

/-- With a mark in front. -/
lemma text_of_front (held : Marked Char) (h : held.front = some []) : held.text liveOutputTruncated = liveOutputTruncated ++ held.tail := by
  rw [Marked.text, h]
  rfl

/-- The text, stripped. -/
lemma text_stripped (fronted : Fronted held) :
    (stripped held).text liveOutputTruncated = stripAnsi (held.text liveOutputTruncated) := by
  cases fronted with
  | inl h => rw [text_of_none (stripped held) h, text_of_none held h, stripped]
  | inr h => rw [text_of_front (stripped held) h, text_of_front held h, strip_marker, stripped]

/-- What a flush pushes. -/
lemma emitToolOutput_eq (fronted : Fronted held)
    (whole : ¬ (stripped held).Splits liveOutputTruncated (windowStart ((stripped held).text liveOutputTruncated))) :
    emitToolOutput (held.text liveOutputTruncated) =
      if (emitted held).text liveOutputTruncated = [] then none
      else some ((emitted held).text liveOutputTruncated) := by
  have marker : liveOutputTruncated ≠ [] := by decide
  rw [emitToolOutput, ← text_stripped fronted, liveOutputWindow_eq, emitted]
  by_cases start : windowStart ((stripped held).text liveOutputTruncated) = 0
  · simp only [start, if_true, ne_eq, not_true_eq_false, decide_false, List.drop_zero, Bool.false_eq_true, if_false]
  · simp only [start, if_false, ne_eq, not_false_eq_true, decide_true, if_true]
    rw [Marked.text_cut whole]
    by_cases none : (stripped held).text liveOutputTruncated = []
    · rw [none] at start
      exact absurd (by decide) start
    · rw [if_neg none, if_neg fun empty => marker (List.append_eq_nil_iff.mp empty).1]

/-- An end is emitted. -/
lemma tail_emitted : (emitted held).tail <:+ stripAnsi held.tail := by
  rw [emitted]
  split
  · exact List.suffix_refl _
  · exact Marked.tail_cut

/-- Without a marker everything is pushed. -/
lemma emitted_of_none (none : (emitted held).front = none) : held.front = .none ∧ emitted held = stripped held := by
  rw [emitted] at none ⊢
  split
  next start =>
    rw [if_pos start] at none
    exact ⟨none, rfl⟩
  next start =>
    rw [if_neg start] at none
    exact absurd none Marked.front_cut

/-- Within the limits nothing is left out, and a marker is put in only by a compaction. -/
lemma emitted_of_within (fronted : Fronted held) (small : WithinLimits (stripAnsi held.tail)) :
    (emitted held).tail = stripAnsi held.tail ∧ (held.front = none → (emitted held).front = none) := by
  have marker := length_marker
  have lines := small.clientLines
  have serverLines := small.serverLines
  have chars := small.serverChars
  rw [emitted]
  cases fronted with
  | inl none =>
    have text : (stripped held).text liveOutputTruncated = stripAnsi held.tail := text_of_none (stripped held) none
    have start : windowStart ((stripped held).text liveOutputTruncated) = 0 := by
      rw [text, windowStart_eq serverLines]
      omega
    rw [if_pos start]
    exact ⟨rfl, fun _ => none⟩
  | inr front =>
    refine ⟨?_, fun none => by rw [front] at none; cases none⟩
    split
    · rfl
    · apply Marked.tail_cut_eq
      have text : (stripped held).text liveOutputTruncated = liveOutputTruncated ++ stripAnsi held.tail :=
        text_of_front (stripped held) front
      have few : (liveOutputTruncated ++ stripAnsi held.tail).count '\n' ≤ liveOutputMaxLines := by
        rw [count_utf16] at lines
        rw [List.count_append, marker.2]
        omega
      have same : (stripped held).tail = stripAnsi held.tail := rfl
      rw [text, windowStart_eq few, List.length_append, marker.1, same]
      omega

/-! ### The client's cuts -/

/-- The lines are cut behind a line feed, so never through a marker. -/
lemma cutShownLines_many (many : liveOutputMaxLines ≤ (x.text truncatedMarker).count lineFeed) :
    ∃ idx, cutShownLines x = x.cut truncatedMarker (idx + 1) ∧
      (cutShownLines x).text truncatedMarker =
        truncatedMarker ++ lastNLines (x.text truncatedMarker) liveOutputMaxLines ∧
      (x.tail.count lineFeed < liveOutputMaxLines → (cutShownLines x).tail = x.tail) := by
  obtain ⟨idx, found, last, here, count⟩ := lastNLines_spec many (by decide)
  have cut : cutShownLines x = x.cut truncatedMarker (idx + 1) := by
    rw [cutShownLines]
    simp only [if_pos many, found, Option.elim_some]
  refine ⟨idx, cut, ?_, fun few => ?_⟩
  · rw [cut, Marked.text_cut (Marked.not_splits marker_ends.1 marker_ends.2 here), last]
  · rw [cut]
    apply Marked.tail_cut_eq
    apply Marked.short_of_count here
    rw [count]
    omega

/-- Few lines are not cut. -/
lemma cutShownLines_few (few : (x.text truncatedMarker).count lineFeed < liveOutputMaxLines) : cutShownLines x = x := by
  rw [cutShownLines]
  exact if_neg (Nat.not_le.mpr few)

/-- What the client makes of a text behind its output. -/
lemma appendOutput_eq {output : Option (List UInt16)} {y : Marked UInt16} {text : List UInt16}
    (e : output.getD [] ++ text = y.text truncatedMarker)
    (whole : ¬ (cutShownLines y).Splits truncatedMarker
      (((cutShownLines y).text truncatedMarker).length - liveOutputMaxChars)) :
    appendOutput output text = (cutShownChars (cutShownLines y)).text truncatedMarker := by
  have lines : (if countNewlinesAtLeast (y.text truncatedMarker) liveOutputMaxLines ≥ liveOutputMaxLines then
      truncatedMarker ++ lastNLines (y.text truncatedMarker) liveOutputMaxLines else y.text truncatedMarker) =
      (cutShownLines y).text truncatedMarker := by
    rw [countNewlinesAtLeast_eq]
    by_cases many : liveOutputMaxLines ≤ (y.text truncatedMarker).count lineFeed
    · obtain ⟨idx, -, text, -⟩ := cutShownLines_many many
      rw [text, if_pos (Nat.le_min.mpr ⟨many, Nat.le_refl _⟩)]
    · rw [cutShownLines_few (Nat.not_le.mp many), if_neg fun both => many (Nat.le_min.mp both).1]
  rw [appendOutput, e]
  simp only [lines]
  rw [cutShownChars]
  split
  · rw [Marked.text_cut whole, lastOf_eq (by decide)]
  · rfl

/-- An end is left. -/
lemma tail_cutShownLines : (cutShownLines x).tail <:+ x.tail := by
  by_cases many : liveOutputMaxLines ≤ (x.text truncatedMarker).count lineFeed
  · obtain ⟨idx, cut, -, -⟩ := cutShownLines_many many
    rw [cut]
    exact Marked.tail_cut
  · exact ⟨[], by rw [cutShownLines_few (Nat.not_le.mp many), List.nil_append]⟩

/-- An end is left. -/
lemma tail_cutShownChars : (cutShownChars x).tail <:+ x.tail := by
  rw [cutShownChars]
  split
  · exact Marked.tail_cut
  · exact List.suffix_refl _

/-- Within the limits both cuts leave what stands behind the marker. -/
lemma tail_cut_within (few : x.tail.count lineFeed < liveOutputMaxLines) (short : x.tail.length ≤ liveOutputMaxChars) :
    (cutShownChars (cutShownLines x)).tail = x.tail := by
  have lines : (cutShownLines x).tail = x.tail := by
    by_cases many : liveOutputMaxLines ≤ (x.text truncatedMarker).count lineFeed
    · obtain ⟨idx, -, -, same⟩ := cutShownLines_many many
      exact same few
    · rw [cutShownLines_few (Nat.not_le.mp many)]
  rw [cutShownChars]
  split
  next long =>
    rw [← lines] at short ⊢
    apply Marked.tail_cut_eq
    omega
  next => exact lines

end

/-! ## The invariant -/

section
variable {name : String} {toolCallId : Option String} {t : Traced} {s : LiveState} {chunk : List UInt8}

/-- The server's buffer is the traced one. -/
structure Buffered (b : LiveBuffer) (t : Traced) : Prop where
  characters : decoded t.raw = t.told ++ t.waiting
  fronted : Fronted t.held
  left : t.held.tail <:+ t.waiting
  all : t.held.front = none → t.held.tail = t.waiting
  text : b.pending.flatten = t.held.text liveOutputTruncated
  chars : b.pendingChars = (t.held.text liveOutputTruncated).length
  empty : b.pending = [] → t.waiting = []

/-- The client's output is the traced one, and what stands in it behind the last marker is the end of what is told. -/
structure Displayed (name : String) (toolCallId : Option String) (blocks : List ContentBlock) (t : Traced) : Prop where
  card : ∃ block, cardOf name toolCallId blocks = some block
  text : heldOutput name toolCallId blocks = t.shown.text truncatedMarker
  left : t.shown.tail <:+ utf16 (stripAnsi t.told)
  all : WithinLimits (stripAnsi t.told) → t.shown.tail = utf16 (stripAnsi t.told)

/-- A read. -/
lemma Buffered.read {b : LiveBuffer} (buffered : Buffered b t) (steady : t.Steady (.read chunk)) :
    Buffered (b.bufferLive chunk) (t.read chunk) := by
  obtain ⟨held, e⟩ : ∃ held : Marked Char, held = ⟨t.held.front, t.held.tail ++ decoded chunk⟩ := ⟨_, rfl⟩
  have text : (b.pending ++ [decoded chunk]).flatten = held.text liveOutputTruncated := by
    rw [List.flatten_append, List.flatten_singleton, buffered.text, e, Marked.text, Marked.text]
    cases t.held.front with
    | none => rfl
    | some p => exact (List.append_assoc p _ _).trans (congrArg (p ++ ·) (List.append_assoc _ _ _))
  have chars : b.pendingChars + (decoded chunk).length = (held.text liveOutputTruncated).length := by
    rw [buffered.chars, ← text, List.flatten_append, List.flatten_singleton, List.length_append, buffered.text]
  have fronted : Fronted held := by
    rw [e]
    exact buffered.fronted
  have left : held.tail <:+ t.waiting ++ decoded chunk := by
    obtain ⟨a, same⟩ := buffered.left
    refine ⟨a, ?_⟩
    rw [e, ← same, List.append_assoc]
  have all : held.front = none → held.tail = t.waiting ++ decoded chunk := by
    rw [e]
    exact fun none => congrArg (· ++ _) (buffered.all none)
  have read : decoded (t.raw ++ chunk) = t.told ++ (t.waiting ++ decoded chunk) := by
    rw [steady, buffered.characters, List.append_assoc]
  have after : b.bufferLive chunk = if b.pendingChars + (decoded chunk).length > 2 * liveOutputMaxChars then
      { pending := [liveOutputTruncated, (liveOutputWindow (b.pending ++ [decoded chunk]).flatten).1],
        pendingChars := liveOutputTruncated.length +
          ((liveOutputWindow (b.pending ++ [decoded chunk]).flatten).1).length }
      else { pending := b.pending ++ [decoded chunk], pendingChars := b.pendingChars + (decoded chunk).length } := rfl
  rw [after, chars, text, Traced.read, ← e]
  split
  next long =>
    -- a compaction leaves out more than the marker
    have start := le_windowStart (held.text liveOutputTruncated)
    have marker := length_marker.1
    have limit : liveOutputMaxChars = 100000 := rfl
    have front : (held.cut liveOutputTruncated (windowStart (held.text liveOutputTruncated))).front = some [] := by
      cases fronted with
      | inl none => rw [Marked.cut, none]
      | inr some =>
        rw [Marked.cut, some]
        simp only [List.length_nil]
        rw [if_neg (by omega)]
    have whole : ¬ held.Splits liveOutputTruncated (windowStart (held.text liveOutputTruncated)) := by
      rintro ⟨p, some, -, lt⟩
      cases fronted with
      | inl none =>
        rw [none] at some
        cases some
      | inr front =>
        rw [front] at some
        cases some
        rw [List.length_nil] at lt
        omega
    have cut := Marked.text_cut whole
    constructor
    · exact read
    · exact .inr front
    · exact Marked.tail_cut.trans left
    · intro none
      rw [front] at none
      cases none
    · rw [cut, liveOutputWindow_eq]
      rw [List.flatten_cons, List.flatten_singleton]
    · rw [cut, liveOutputWindow_eq, List.length_append]
    · exact fun none => absurd none (List.cons_ne_nil _ _)
  next =>
    exact ⟨read, fronted, left, all, text, rfl, fun none =>
      absurd (List.append_eq_nil_iff.mp none).2 (List.cons_ne_nil _ _)⟩

/-- A flush empties the buffer. -/
lemma Buffered.flush {b : LiveBuffer} (buffered : Buffered b t) (steady : SteadyFlush t) :
    Buffered b.flushPending.2 t.flush ∧
      b.flushPending.1 = if (emitted t.held).text liveOutputTruncated = [] then none
        else some ((emitted t.held).text liveOutputTruncated) := by
  refine ⟨?_, ?_⟩
  · have empty : b.flushPending.2 = {} := by
      rw [LiveBuffer.flushPending]
      split
      next none =>
        have chars : b.pendingChars = 0 := by
          rw [buffered.chars, ← buffered.text, none]
          rfl
        cases b
        cases none
        cases chars
        rfl
      next => rfl
    rw [empty]
    constructor
    · rw [Traced.flush, buffered.characters]
      exact (List.append_nil _).symm
    · exact .inl rfl
    · exact List.suffix_refl _
    · exact fun _ => rfl
    · rfl
    · rfl
    · exact fun _ => rfl
  · rw [LiveBuffer.flushPending, ← emitToolOutput_eq buffered.fronted steady.server, ← buffered.text]
    split
    next none => rw [none]; rfl
    next => rfl

/-- What a flush shows. -/
lemma flush_shown : t.flush.shown =
    if (emitted t.held).text liveOutputTruncated = [] then t.shown else cutShownChars t.pushed := by rw [Traced.flush]

/-- A flush tells what waits. -/
lemma flush_told : t.flush.told = t.told ++ t.waiting := by rw [Traced.flush]

/-- What the client holds after a flush. -/
lemma Displayed.flush {b : LiveBuffer} {blocks : List ContentBlock} (displayed : Displayed name toolCallId blocks t)
    (buffered : Buffered b t) (steady : SteadyFlush t) :
    Displayed name toolCallId
      ((if (emitted t.held).text liveOutputTruncated = [] then none
        else some ((emitted t.held).text liveOutputTruncated)).elim blocks
          fun text => appendToolOutput blocks name toolCallId (utf16 text)) t.flush := by
  obtain ⟨block, card⟩ := displayed.card
  have told : stripAnsi (t.told ++ t.waiting) = stripAnsi t.told ++ stripAnsi t.waiting := steady.sequences
  have left : stripAnsi t.held.tail <:+ stripAnsi t.waiting := ⟨_, steady.compacted.symm⟩
  by_cases none : (emitted t.held).text liveOutputTruncated = []
  · -- nothing is pushed: what waits has no character besides escape sequences
    have front : (emitted t.held).front = .none := by
      cases e : (emitted t.held).front with
      | none => rfl
      | some p =>
        rw [Marked.text, e] at none
        have marker := (List.append_eq_nil_iff.mp (List.append_eq_nil_iff.mp none).2).1
        exact absurd marker (by decide)
    obtain ⟨unmarked, same⟩ := emitted_of_none front
    have nothing : stripAnsi t.waiting = [] := by
      rw [same, text_of_none (stripped t.held) unmarked, stripped, buffered.all unmarked] at none
      exact none
    rw [nothing, List.append_nil] at told
    have same : t.flush.shown = t.shown ∧ t.flush.told = t.told ++ t.waiting := by
      rw [flush_shown, if_pos none, flush_told]
      exact ⟨rfl, rfl⟩
    rw [if_pos none]
    constructor
    · exact ⟨block, card⟩
    · rw [same.1]
      exact displayed.text
    · rw [same.1, same.2, told]
      exact displayed.left
    · rw [same.1, same.2, told]
      exact displayed.all
  · obtain ⟨y, pushed⟩ : ∃ y, y = t.shown.join truncatedMarker ((emitted t.held).flatMap utf16Char) := ⟨_, rfl⟩
    have whole := steady.client none
    rw [Traced.pushed, ← pushed] at whole
    have same : t.flush.shown = cutShownChars (cutShownLines y) ∧ t.flush.told = t.told ++ t.waiting := by
      rw [flush_shown, if_neg none, flush_told, Traced.pushed, pushed]
      exact ⟨rfl, rfl⟩
    have text : block.toolOutput.getD [] ++ utf16 ((emitted t.held).text liveOutputTruncated) =
        y.text truncatedMarker := by
      rw [pushed, Marked.text_join, ← displayed.text, heldOutput_eq card, utf16, ← Marked.text_flatMap]
      rfl
    have suffix : (cutShownChars (cutShownLines y)).tail <:+ y.tail := tail_cutShownChars.trans tail_cutShownLines
    have card' := cardOf_appendToolOutput (utf16 ((emitted t.held).text liveOutputTruncated)) card
    rw [if_neg none]
    constructor
    · exact ⟨_, card'⟩
    · have output := heldOutput_eq card'
      rw [Option.elim_some, output, same.1]
      exact appendOutput_eq text whole
    · rw [same.1, same.2, told]
      refine suffix.trans ?_
      rw [pushed]
      by_cases front : (emitted t.held).front = .none
      · obtain ⟨unmarked, whole⟩ := emitted_of_none front
        have mapped : ((emitted t.held).flatMap utf16Char).front = .none := Marked.front_flatMap.mpr front
        rw [Marked.tail_join_of_none mapped, utf16_append, whole, Marked.tail_flatMap, stripped, buffered.all unmarked]
        obtain ⟨a, e⟩ := displayed.left
        exact ⟨a, by rw [← e, List.append_assoc]; rfl⟩
      · have mapped : ((emitted t.held).flatMap utf16Char).front ≠ .none := fun e => front (Marked.front_flatMap.mp e)
        have pushedTail : utf16 (emitted t.held).tail <:+ utf16 (stripAnsi t.waiting) :=
          utf16_suffix (tail_emitted.trans left)
        rw [Marked.tail_join_of_some mapped, utf16_append, Marked.tail_flatMap]
        exact pushedTail.trans (List.suffix_append _ _)
    · rw [same.1, same.2, told]
      intro small
      have tail : y.tail = utf16 (stripAnsi t.told ++ stripAnsi t.waiting) := by
        rw [pushed]
        by_cases unmarked : t.held.front = .none
        · have small' : WithinLimits (stripAnsi t.held.tail) := by
            rw [buffered.all unmarked]
            exact small.right
          obtain ⟨tail, front⟩ := emitted_of_within buffered.fronted small'
          have mapped : ((emitted t.held).flatMap utf16Char).front = .none := Marked.front_flatMap.mpr (front unmarked)
          rw [Marked.tail_join_of_none mapped, displayed.all small.left, utf16_append, Marked.tail_flatMap, tail,
            buffered.all unmarked]
          rfl
        · obtain ⟨nothing, first⟩ := steady.small (told ▸ small) unmarked
          have all : stripAnsi t.waiting = stripAnsi t.held.tail := by
            rw [steady.compacted, nothing, List.nil_append]
          have small' : WithinLimits (stripAnsi t.held.tail) := by
            rw [← all]
            exact small.right
          obtain ⟨tail, -⟩ := emitted_of_within buffered.fronted small'
          have mapped : ((emitted t.held).flatMap utf16Char).front ≠ .none := fun e =>
            unmarked (emitted_of_none (Marked.front_flatMap.mp e)).1
          rw [Marked.tail_join_of_some mapped, Marked.tail_flatMap, tail, first, List.nil_append, all]
          rfl
      rw [tail_cut_within, tail]
      · rw [tail]
        exact small.clientLines
      · rw [tail]
        exact small.clientChars

/-! ## Runs -/

/-- The server and the client are where the traced run is. -/
structure Follows (name : String) (toolCallId : Option String) (s : LiveState) (t : Traced) : Prop where
  buffered : Buffered s.buffer t
  displayed : Displayed name toolCallId s.blocks t

/-- A steady step. -/
lemma Follows.step (follows : Follows name toolCallId s t) (event : LiveEvent) (steady : t.Steady event) :
    Follows name toolCallId (s.step name toolCallId event) (t.step event) := by
  obtain ⟨buffered, displayed⟩ := follows
  cases event with
  | read chunk =>
    exact ⟨buffered.read steady, displayed.card, displayed.text, displayed.left, displayed.all⟩
  | flush =>
    obtain ⟨after, pushed⟩ := buffered.flush steady
    refine ⟨after, ?_⟩
    rw [LiveState.step]
    simp only [pushed]
    exact displayed.flush buffered steady

/-- A steady run. -/
lemma Follows.run {events : List LiveEvent} (follows : Follows name toolCallId s t) (steady : SteadyRun t events) :
    Follows name toolCallId (events.foldl (LiveState.step name toolCallId) s) (events.foldl Traced.step t) := by
  induction events generalizing s t with
  | nil => exact follows
  | cons event events ih => exact ih (follows.step event steady.1) steady.2

/-- What a traced run has read. -/
lemma raw_run (events : List LiveEvent) (t : Traced) : (events.foldl Traced.step t).raw = t.raw ++ printed events := by
  induction events generalizing t with
  | nil => exact (List.append_nil _).symm
  | cons event events ih =>
    rw [List.foldl_cons, ih]
    cases event with
    | read chunk => exact List.append_assoc _ _ _
    | flush => rfl

/-- Events in a row. -/
lemma printed_append (events events' : List LiveEvent) :
    printed (events ++ events') = printed events ++ printed events' := by
  induction events with
  | nil => rfl
  | cons event events ih =>
    cases event with
    | read chunk => rw [List.cons_append, printed, printed, ih, List.append_assoc]
    | flush => exact ih

/-- The client's card is empty at first. -/
lemma follows_start {blocks : List ContentBlock} {block : ContentBlock}
    (card : cardOf name toolCallId blocks = some block) (fresh : block.toolOutput = none) :
    Follows name toolCallId { blocks } {} where
  buffered := ⟨rfl, .inl rfl, List.suffix_refl _, fun _ => rfl, rfl, rfl, fun _ => rfl⟩
  displayed := ⟨⟨block, card⟩, by rw [heldOutput_eq card, fresh]; rfl, List.suffix_refl _, fun _ => rfl⟩

end

/-- A text with a marker shows what stands behind the marker. -/
lemma shows_of_marked {text : List Char} {x : Marked UInt16} (left : x.tail <:+ utf16 text)
    (all : WithinLimits text → x.tail = utf16 text) : Shows text (x.text truncatedMarker) := by
  cases e : x.front with
  | none =>
    refine ⟨[], x.tail, ?_, .inl rfl, left, all⟩
    rw [Marked.text, e]
    rfl
  | some p =>
    refine ⟨p ++ truncatedMarker, x.tail, ?_, .inr (List.suffix_append _ _), left, all⟩
    rw [Marked.text, e, List.append_assoc]
    rfl

/-- After any steady run the client shows the output, however it was cut into chunks and flushed. -/
theorem live_output_shows (name : String) (toolCallId : Option String) (blocks : List ContentBlock)
    (block : ContentBlock) (events : List LiveEvent) (card : cardOf name toolCallId blocks = some block)
    (fresh : block.toolOutput = none) (steady : SteadyRun {} (events ++ [.flush])) :
    Shows (textOf (printed events))
      (heldOutput name toolCallId (LiveState.run name toolCallId blocks events).blocks) := by
  obtain ⟨buffered, displayed⟩ := (follows_start card fresh).run steady
  obtain ⟨t, e⟩ : ∃ t, t = (events ++ [LiveEvent.flush]).foldl Traced.step {} := ⟨_, rfl⟩
  rw [← e] at buffered displayed
  have raw : t.raw = printed events := by
    rw [e, raw_run, printed_append]
    exact (List.nil_append _).trans (List.append_nil _)
  have waiting : t.waiting = [] := by
    rw [e, List.foldl_append]
    rfl
  have told : textOf (printed events) = stripAnsi t.told := by
    have characters := buffered.characters
    rw [raw, waiting, List.append_nil] at characters
    rw [← characters]
    rfl
  rw [told, LiveState.run, displayed.text]
  exact shows_of_marked displayed.left displayed.all

/-- The card of a shell call that has just started. -/
def startedCard : ContentBlock where
  isTool := true
  toolName := "shell"
  toolCallId := some "call"
  toolDone := false
  toolOutput := none

/-- More lines than the windows hold, and a word after a flush. -/
def manyLines : List LiveEvent := [.read (List.replicate 120 10), .flush, .read [111, 107]]

/-- Its lines show. -/
theorem manyLines_show : Shows (textOf (printed manyLines))
    (heldOutput "shell" (some "call") (LiveState.run "shell" (some "call") [startedCard] manyLines).blocks) :=
  live_output_shows "shell" (some "call") [startedCard] startedCard manyLines (by decide) rfl
    (by decide +kernel)

/-- One character in two reads. -/
def splitChar : List LiveEvent := [.read [0xc3], .read [0xa9]]

/-- Each half becomes a replacement character. -/
theorem splitChar_garbled : ¬ Shows (textOf (printed splitChar))
    (heldOutput "shell" (some "call") (LiveState.run "shell" (some "call") [startedCard] splitChar).blocks) := by
  have output : heldOutput "shell" (some "call")
      (LiveState.run "shell" (some "call") [startedCard] splitChar).blocks = [0xfffd, 0xfffd] := by decide
  have text : textOf (printed splitChar) = ['é'] := by decide
  rw [output, text]
  rintro ⟨front, tail, e, -, -, all⟩
  rw [all (by decide)] at e
  have last := congrArg List.getLast? e
  have unit : (utf16 ['é']).getLast? = some 0xe9 := by decide
  rw [List.getLast?_append, unit, Option.some_or] at last
  exact absurd (Option.some.inj last) (by decide)

end OpenAgentd.Shell
