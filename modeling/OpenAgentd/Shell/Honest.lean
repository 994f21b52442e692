import OpenAgentd.Lib.Excerpt
import OpenAgentd.Lib.Joined
import OpenAgentd.Shell.Foreground

/-!
# Honest foreground output

The inline text of a foreground command is cut up to three times: the bytes between head and tail are dropped, then
the lines are cut, then the bytes of what is left, markers included. `foreground_honest` says when every marker
accounts for what it stands for: the cuts lie clear of each other and fall between characters.
-/

namespace OpenAgentd.Shell
open OpenAgentd.Lib ForegroundOutput

/-! ## What the markers say -/

/-- What a marker says is what is missing. -/
def Omitted.Covers : Omitted → List Char → Prop
  | .lines n, missing => (missing.splitOn '\n').length = n
  | .bytes n, missing => (utf8Encode missing).length = n

/-- `inline` is a part of `text` from its start and a part from its end, around markers that account for all that is
missing. -/
def Accounted (text inline : List Char) : Prop := Account Omitted.marker Omitted.Covers text inline

/-- The result of some chunks: an uncut text is the whole text; a cut one is short, accounts for what is missing, and
leaves the whole output in the spill file. -/
structure Honest (chunks : List (List UInt8)) : Prop where
  uncut : (run chunks).finalize.1.2 = false → (run chunks).finalize.1.1 = textOf chunks.flatten
  short : (run chunks).finalize.1.2 = true → (utf8Encode (run chunks).finalize.1.1).length ≤ outputMaxBytes
  accounted : (run chunks).finalize.1.2 = true → Accounted (textOf chunks.flatten) (run chunks).finalize.1.1
  spilled : (run chunks).finalize.1.2 = true → Spilled (run chunks).finalize.2.spill chunks.flatten

/-! ## Cuts that lie clear of each other -/

/-- How many lines and bytes are kept at either end. -/
def headLines : Nat := outputMaxLines / 2
def tailLines : Nat := outputMaxLines - headLines
def headContent : Nat := (outputMaxBytes - markerProbe.length) / 2
def tailContent : Nat := outputMaxBytes - markerProbe.length - headContent

/-- The lines that are kept in front, those that are left out, and those that are kept behind. -/
def linesBefore (text : List Char) : List Char := joinLines ((text.splitOn '\n').take headLines) ++ ['\n']

def linesCut (text : List Char) : List (List Char) :=
  let lines := text.splitOn '\n'
  (lines.drop headLines).take (lines.length - headLines - tailLines)

def linesBehind (text : List Char) : List Char :=
  let lines := text.splitOn '\n'
  '\n' :: joinLines (lines.drop (lines.length - tailLines))

/-- If the text has too many bytes, both ends of the cut fall between characters, it takes no marker away, and the
number fits. -/
def ClearBytes (ps : List (Passage Char Omitted)) : Prop :=
  (utf8Encode (shownText Omitted.marker ps)).length ≤ outputMaxBytes ∨
    ∃ a x b ps', Excise Omitted.marker ps a x b (.bytes (utf8Encode x).length) ps' ∧
      (utf8Encode a).length = headContent ∧ (utf8Encode b).length = tailContent ∧ (utf8Encode x).length < 1000000000

/-- If the text has too many lines, their cut takes no marker away; and so does the cut of the bytes after it. -/
def ClearLines (ps : List (Passage Char Omitted)) : Prop :=
  let text := shownText Omitted.marker ps
  (text.splitOn '\n').length ≤ outputMaxLines ∧ ClearBytes ps ∨
    outputMaxLines < (text.splitOn '\n').length ∧
      ∃ ps', Excise Omitted.marker ps (linesBefore text) (joinLines (linesCut text)) (linesBehind text)
        (.lines (linesCut text).length) ps' ∧ ClearBytes ps'

/-- Bytes dropped between head and tail are a text of their own with no escape sequence, and all cuts lie clear. -/
def Clear (chunks : List (List UInt8)) : Prop :=
  let o := run chunks
  o.dropped = 0 ∧ ClearLines [.kept (textOf chunks.flatten)] ∨
    o.dropped ≠ 0 ∧ ∃ D, chunks.flatten = o.head.flatten ++ D ++ o.tail.flatten ∧
      textOf chunks.flatten = textOf o.head.flatten ++ textOf D ++ textOf o.tail.flatten ∧
      (utf8Encode (textOf D)).length = D.length ∧
      ClearLines [.kept (textOf o.head.flatten), .cut (.bytes o.dropped) (textOf D), .kept (textOf o.tail.flatten)]

/-! ## Lines -/

section
variable {text a x b : List Char} {ps : List (Passage Char Omitted)}

/-- How many lines are cut. -/
lemma length_linesCut : (linesCut text).length = (text.splitOn '\n').length - headLines - tailLines := by
  rw [linesCut, List.length_take, List.length_drop]
  exact Nat.min_eq_left (Nat.sub_le _ _)

/-- Head, middle and tail are there. -/
lemma ne_nil_of_many (many : outputMaxLines < (text.splitOn '\n').length) :
    (text.splitOn '\n').take headLines ≠ [] ∧ linesCut text ≠ [] ∧
      (text.splitOn '\n').drop ((text.splitOn '\n').length - tailLines) ≠ [] := by
  have sizes : headLines = 150 ∧ tailLines = 150 ∧ outputMaxLines = 300 := by decide
  refine ⟨?_, ?_, ?_⟩
  · apply List.ne_nil_of_length_pos
    rw [List.length_take]
    omega
  · apply List.ne_nil_of_length_pos
    rw [length_linesCut]
    omega
  · apply List.ne_nil_of_length_pos
    rw [List.length_drop]
    omega

/-- The marker line stands for the lines between. -/
lemma cutLines_many (many : outputMaxLines < (text.splitOn '\n').length) :
    cutLines text outputMaxLines =
      linesBefore text ++ (Omitted.lines (linesCut text).length).marker ++ linesBehind text := by
  obtain ⟨front, -, back⟩ := ne_nil_of_many many
  have marked : ∀ m : List Char, joinLines ((text.splitOn '\n').take headLines ++ [m] ++
      (text.splitOn '\n').drop ((text.splitOn '\n').length - tailLines)) = linesBefore text ++ m ++ linesBehind text := by
    intro m
    simp only [joinLines, linesBefore, linesBehind, List.append_assoc, List.singleton_append]
    rw [intercalate_append_append front (List.cons_ne_nil _ _), List.intercalate_cons_of_ne_nil back, List.append_assoc,
      List.singleton_append, List.cons_append]
  have head : outputMaxLines / 2 = headLines := rfl
  have tail : outputMaxLines - headLines = tailLines := rfl
  rw [cutLines, if_pos many, ← marked, length_linesCut]
  simp only [head, tail, lastOf]
  rw [if_neg (by decide)]

/-- Few lines are not cut. -/
lemma cutLines_few (few : (text.splitOn '\n').length ≤ outputMaxLines) : cutLines text outputMaxLines = text :=
  if_neg (Nat.not_lt.mpr few)

/-- The marker covers the cut lines. -/
lemma covers_lines (many : outputMaxLines < (text.splitOn '\n').length) :
    (Omitted.lines (linesCut text).length).Covers (joinLines (linesCut text)) := by
  obtain ⟨-, middle, -⟩ := ne_nil_of_many many
  have parts : ∀ l ∈ linesCut text, l ∈ text.splitOn '\n' := fun l mem =>
    List.mem_of_mem_drop (List.mem_of_mem_take mem)
  exact congrArg List.length (splitOn_intercalate_part parts middle)

/-! ## Bytes -/

/-- ASCII takes one byte each. -/
lemma length_encode_ascii {s : List Char} (ascii : ∀ c ∈ s, c.utf8Size = 1) : (utf8Encode s).length = s.length := by
  induction s with
  | nil => rfl
  | cons c s ih =>
    rw [utf8Encode, List.flatMap_cons, List.length_append, String.length_utf8EncodeChar, ascii c List.mem_cons_self,
      List.length_cons, Nat.add_comm]
    exact congrArg (· + 1) (ih fun c mem => ascii c (List.mem_cons_of_mem _ mem))

/-- The marker of cut bytes. -/
lemma marker_bytes (n : Nat) : (Omitted.bytes n).marker =
    "\n...output truncated (".toList ++ Nat.toDigits 10 n ++ " bytes omitted)...\n".toList := rfl

/-- A marker has 41 characters besides the number. -/
lemma length_encode_marker (n : Nat) :
    (utf8Encode (Omitted.bytes n).marker).length = 41 + (Nat.toDigits 10 n).length := by
  have digits : ∀ c ∈ Nat.toDigits 10 n, c.utf8Size = 1 := by
    intro c mem
    have digit := Nat.isDigit_of_mem_toDigits (by decide) (by decide) mem
    rw [Char.isDigit, Bool.and_eq_true, decide_eq_true_eq, decide_eq_true_eq] at digit
    rw [Char.utf8Size_eq_one_iff]
    exact Nat.le_trans digit.2 (by decide)
  have before : (utf8Encode "\n...output truncated (".toList).length = 22 := by decide
  have behind : (utf8Encode " bytes omitted)...\n".toList).length = 19 := by decide
  rw [marker_bytes, utf8Encode_append, utf8Encode_append, List.length_append, List.length_append,
    length_encode_ascii digits, before, behind]
  omega

/-- The marker stands for the bytes between, where the cuts fall between characters. -/
lemma cutBytes_long (e : text = a ++ x ++ b) (head : (utf8Encode a).length = headContent)
    (tail : (utf8Encode b).length = tailContent) (long : outputMaxBytes < (utf8Encode text).length) :
    cutBytes text outputMaxBytes = a ++ (Omitted.bytes (utf8Encode x).length).marker ++ b := by
  have parts : utf8Encode text = utf8Encode a ++ (utf8Encode x ++ utf8Encode b) := by
    rw [e, utf8Encode_append, utf8Encode_append, List.append_assoc]
  have front : (utf8Encode text).take headContent = utf8Encode a := by
    rw [parts, ← head, List.take_left]
  have back : lastOf tailContent (utf8Encode text) = utf8Encode b := by
    have place : (utf8Encode text).length - tailContent = (utf8Encode a ++ utf8Encode x).length := by
      rw [parts, List.length_append, List.length_append, List.length_append, tail]
      omega
    rw [lastOf, if_neg (by decide), place, parts, ← List.append_assoc, List.drop_left]
  have omitted : (utf8Encode text).length - headContent - tailContent = (utf8Encode x).length := by
    rw [parts, List.length_append, List.length_append, tail, head]
    omega
  rw [cutBytes, if_neg (Nat.not_le.mpr long), if_neg (by decide)]
  simp only
  rw [← headContent, ← tailContent, front, back, omitted, decodeWith_encode, decodeWith_encode]

/-- A short text is not cut. -/
lemma cutBytes_short (short : (utf8Encode text).length ≤ outputMaxBytes) : cutBytes text outputMaxBytes = text :=
  if_pos short

/-! ## Accounts -/

/-- A cut of the bytes keeps an account, and makes the text short. -/
lemma ClearBytes.accounted {whole : List Char} (clear : ClearBytes ps)
    (account : Accounts Omitted.marker Omitted.Covers whole text ps) :
    Accounted whole (cutBytes text outputMaxBytes) ∧
      (utf8Encode (cutBytes text outputMaxBytes)).length ≤ outputMaxBytes := by
  rw [ClearBytes, account.shown] at clear
  by_cases short : (utf8Encode text).length ≤ outputMaxBytes
  · rw [cutBytes_short short]
    exact ⟨⟨ps, account⟩, short⟩
  · obtain ⟨a, x, b, ps', cut, head, tail, small⟩ := clear.resolve_left short
    have e : text = a ++ x ++ b := by rw [← account.shown, cut.shown_before]
    rw [cutBytes_long e head tail (Nat.not_le.mp short)]
    refine ⟨⟨ps', account.excise cut rfl⟩, ?_⟩
    have digits : (Nat.toDigits 10 (utf8Encode x).length).length ≤ 9 :=
      (Nat.length_toDigits_le_iff (by decide) (by decide)).mpr small
    have sizes : headContent + tailContent + 50 = outputMaxBytes := by decide
    rw [utf8Encode_append, utf8Encode_append, List.length_append, List.length_append, head, tail, length_encode_marker]
    omega

/-- All cuts of `_tail_text` keep an account. -/
lemma ClearLines.accounted {whole : List Char} (clear : ClearLines ps)
    (account : Accounts Omitted.marker Omitted.Covers whole text ps) :
    Accounted whole (tailText text outputMaxLines outputMaxBytes).1 ∧
      (utf8Encode (tailText text outputMaxLines outputMaxBytes).1).length ≤ outputMaxBytes := by
  rw [tailText]
  split
  next fits => exact ⟨⟨ps, account⟩, fits.2⟩
  next =>
    rw [ClearLines, account.shown] at clear
    rcases clear with ⟨few, clear⟩ | ⟨many, ps', cut, clear⟩
    · simp only
      rw [cutLines_few few]
      exact clear.accounted account
    · simp only
      rw [cutLines_many many]
      exact clear.accounted (account.excise cut (covers_lines many))

/-- An uncut tail. -/
lemma tailText_uncut {whole : List Char} (uncut : (tailText whole outputMaxLines outputMaxBytes).2 = false) :
    (tailText whole outputMaxLines outputMaxBytes).1 = whole := by
  rw [tailText] at uncut ⊢
  split
  · rfl
  next long =>
    rw [if_neg long] at uncut
    cases uncut

end

/-! ## The result -/

section
variable {o : ForegroundOutput} {whole : List UInt8}

/-- The text that is shown. -/
lemma finalize_inline : o.finalize.1 = o.inlineText := by
  rw [finalize]
  split <;> rfl

/-- Where nothing is dropped, the buffers hold the output. -/
lemma kept_of_dropped (holds : Holds o whole) (total : o.totalBytes = whole.length) (none : o.dropped = 0) :
    o.head.flatten ++ o.tail.flatten = whole := by
  obtain ⟨D, e⟩ := holds.middle
  have headLen : o.headBytes = o.head.flatten.length := by
    rw [holds.head, List.length_take, holds.headBytes]
  have sizes : whole.length = o.head.flatten.length + D.length + o.tail.flatten.length := by
    conv_lhs => rw [e]
    rw [List.length_append, List.length_append]
  have tailLen := holds.tailBytes
  rw [dropped] at none
  have gone : D = [] := List.length_eq_zero_iff.mp (by omega)
  rw [gone, List.append_nil] at e
  exact e.symm

/-- As many bytes are dropped as lie between the buffers. -/
lemma length_of_dropped (holds : Holds o whole) (total : o.totalBytes = whole.length) {D : List UInt8}
    (e : whole = o.head.flatten ++ D ++ o.tail.flatten) : D.length = o.dropped := by
  have headLen : o.headBytes = o.head.flatten.length := by
    rw [holds.head, List.length_take, holds.headBytes]
  have sizes : whole.length = o.head.flatten.length + D.length + o.tail.flatten.length := by
    conv_lhs => rw [e]
    rw [List.length_append, List.length_append]
  have tailLen := holds.tailBytes
  rw [dropped]
  omega

/-- A cut output is in the spill file. -/
lemma spilled_of_cut (holds : Holds o whole) (cut : o.finalize.1.2 = true) : Spilled o.finalize.2.spill whole := by
  rw [finalize_inline] at cut
  rw [finalize]
  split
  next closed =>
    obtain ⟨noTail, short⟩ := holds.closed closed.2
    refine ⟨[whole], List.flatten_singleton, ?_⟩
    rw [noTail, List.flatten_nil, List.append_nil, holds.head, List.take_of_length_le short, List.flatMap_singleton]
  next other =>
    obtain ⟨-, pieces, flat, spill, -⟩ := holds.spilled fun closed => other ⟨cut, closed⟩
    exact ⟨pieces, flat, spill⟩

end

/-- The foreground output of any chunks is honest, if its cuts lie clear of each other. -/
theorem foreground_honest (chunks : List (List UInt8)) (clear : Clear chunks) : Honest chunks := by
  obtain ⟨holds, total⟩ := holds_run chunks
  rcases clear with ⟨none, clear⟩ | ⟨none, D, e, texts, size, clear⟩
  · have inline : (run chunks).finalize.1 = tailText (textOf chunks.flatten) outputMaxLines outputMaxBytes := by
      rw [finalize_inline, inlineText, if_pos none, kept_of_dropped holds total none]
    obtain ⟨account, short⟩ := clear.accounted (accounts_kept (textOf chunks.flatten))
    constructor
    · rw [inline]
      exact tailText_uncut
    · rw [inline]
      exact fun _ => short
    · rw [inline]
      exact fun _ => account
    · exact spilled_of_cut holds
  · have covers : (Omitted.bytes (run chunks).dropped).Covers (textOf D) :=
      size.trans (length_of_dropped holds total e)
    have account : Accounts Omitted.marker Omitted.Covers _ _ _ :=
      accounts_cut (a := textOf (run chunks).head.flatten) (b := textOf (run chunks).tail.flatten) covers
    rw [← texts] at account
    obtain ⟨account, short⟩ := clear.accounted account
    have inline : (run chunks).finalize.1 = ((tailText (textOf (run chunks).head.flatten ++
        (Omitted.bytes (run chunks).dropped).marker ++ textOf (run chunks).tail.flatten) outputMaxLines
          outputMaxBytes).1, true) := by
      rw [finalize_inline, inlineText, if_neg none]
    constructor
    · rw [inline]
      exact fun uncut => absurd uncut.symm Bool.false_ne_true
    · rw [inline]
      exact fun _ => short
    · rw [inline]
      exact fun _ => account
    · exact spilled_of_cut holds

/-! ## Blocks of one letter -/

section
variable {ν : Omitted} {νs : List Omitted} {n m : Nat} {b : List UInt8}

/-- The marker of cut lines. -/
lemma marker_lines (n : Nat) : (Omitted.lines n).marker =
    "...output truncated (".toList ++ Nat.toDigits 10 n ++ " lines omitted)...".toList := rfl

/-- No digit is any other character. -/
lemma not_mem_toDigits {c : Char} (other : c.isDigit = false) (n : Nat) : c ∉ Nat.toDigits 10 n := by
  intro mem
  have digit := Nat.isDigit_of_mem_toDigits (by decide) (by decide) mem
  exact Bool.false_ne_true (other.symm.trans digit)

/-- Each marker has one opening parenthesis. -/
lemma count_marker (ν : Omitted) : ν.marker.count '(' = 1 := by
  have digits : ∀ n, (Nat.toDigits 10 n).count '(' = 0 := fun n =>
    List.count_eq_zero.mpr (not_mem_toDigits (by decide) n)
  cases ν with
  | lines n =>
    rw [marker_lines, List.count_append, List.count_append, digits]
    decide
  | bytes n =>
    rw [marker_bytes, List.count_append, List.count_append, digits]
    decide

/-- No marker has an x. -/
lemma x_not_mem_marker (ν : Omitted) : 'x' ∉ ν.marker := by
  cases ν with
  | lines n =>
    rw [marker_lines, List.mem_append, List.mem_append, not_or, not_or]
    exact ⟨⟨by decide, not_mem_toDigits (by decide) n⟩, by decide⟩
  | bytes n =>
    rw [marker_bytes, List.mem_append, List.mem_append, not_or, not_or]
    exact ⟨⟨by decide, not_mem_toDigits (by decide) n⟩, by decide⟩

/-- A marker for bytes shows its number. -/
lemma eq_of_marker (same : ν.marker = (Omitted.bytes n).marker) : ν = .bytes n := by
  cases ν with
  | lines k =>
    have first : (Omitted.lines k).marker.head? = some '.' := by
      have dots : "...output truncated (".toList.head? = some '.' := by decide
      rw [marker_lines, List.append_assoc, List.head?_append, dots]
      rfl
    have other : (Omitted.bytes n).marker.head? = some '\n' := by
      have lf : "\n...output truncated (".toList.head? = some '\n' := by decide
      rw [marker_bytes, List.append_assoc, List.head?_append, lf]
      rfl
    rw [same, other] at first
    exact absurd (Option.some.inj first) (by decide)
  | bytes k =>
    rw [marker_bytes, marker_bytes] at same
    have digits := List.append_cancel_left (List.append_cancel_right same)
    rw [← Nat.ofDigitChars_ten_toDigits (n := k), digits, Nat.ofDigitChars_ten_toDigits]

/-- Markers that are one marker together are that one. -/
lemma eq_singleton_of_flatMap (same : νs.flatMap Omitted.marker = (Omitted.bytes n).marker) : νs = [.bytes n] := by
  have total : ∀ νs : List Omitted, (νs.flatMap Omitted.marker).count '(' = νs.length := by
    intro νs
    induction νs with
    | nil => rfl
    | cons ν νs ih => rw [List.flatMap_cons, List.count_append, count_marker, ih, List.length_cons, Nat.add_comm]
  have one : νs.length = 1 := by rw [← total νs, same, count_marker]
  obtain ⟨ν, rfl⟩ := List.length_eq_one_iff.mp one
  rw [List.flatMap_singleton] at same
  rw [eq_of_marker same]

/-! ### Letters -/

/-- The bytes of a row of x. -/
lemma encode_xs (n : Nat) : utf8Encode (List.replicate n 'x') = List.replicate n 0x78 := by
  rw [utf8Encode, List.flatMap_replicate]
  exact List.flatten_replicate_singleton

/-- Their text. -/
lemma textOf_xs (n : Nat) : textOf (List.replicate n 0x78) = List.replicate n 'x' := by
  rw [textOf, ← encode_xs, decodeWith_encode]
  exact strip_eq_self fun c mem => by
    rw [List.eq_of_mem_replicate mem]
    decide

/-- One line. -/
lemma splitOn_xs (n : Nat) : (List.replicate n 'x').splitOn '\n' = [List.replicate n 'x'] :=
  List.splitOn_eq_singleton fun mem => absurd (List.eq_of_mem_replicate mem) (by decide)

/-- A marker for bytes is a line between two others. -/
lemma length_splitOn_marker (s t : List Char) : ((s ++ (Omitted.bytes n).marker ++ t).splitOn '\n').length =
    (s.splitOn '\n').length + (1 + (t.splitOn '\n').length) := by
  have front : "\n...output truncated (".toList = '\n' :: "...output truncated (".toList := by decide
  have back : " bytes omitted)...\n".toList = " bytes omitted)...".toList ++ ['\n'] := by decide
  have line : '\n' ∉ "...output truncated (".toList ++ Nat.toDigits 10 n ++ " bytes omitted)...".toList := by
    rw [List.mem_append, List.mem_append, not_or, not_or]
    exact ⟨⟨by decide, not_mem_toDigits (by decide) n⟩, by decide⟩
  have parts : s ++ (Omitted.bytes n).marker ++ t = s ++ '\n' :: (("...output truncated (".toList ++
      Nat.toDigits 10 n ++ " bytes omitted)...".toList) ++ '\n' :: t) := by
    rw [marker_bytes, front, back]
    simp only [List.append_assoc, List.cons_append, List.nil_append]
  rw [parts, List.splitOn_append_cons_self, List.splitOn_append_cons_self, List.splitOn_eq_singleton line,
    List.length_append, List.length_append, List.length_singleton]

/-- An account of letters only, with one marker between letters: the number is that of the missing letters. -/
lemma length_of_accounted {whole front back : Nat} (account : Accounted (List.replicate whole 'x')
    (List.replicate front 'x' ++ (Omitted.bytes n).marker ++ List.replicate back 'x')) : whole = front + back + n := by
  obtain ⟨ps, account⟩ := account
  have text : ∀ c ∈ wholeText ps, decide (c ≠ 'x') = false := by
    intro c mem
    rw [account.whole] at mem
    exact decide_eq_false (not_not.mpr (List.eq_of_mem_replicate mem))
  have marks : ∀ ν : Omitted, ∀ c ∈ ν.marker, decide (c ≠ 'x') = true := fun ν c mem =>
    decide_eq_true fun e => x_not_mem_marker ν (e ▸ mem)
  have letters : ∀ k, (List.replicate k 'x').filter (fun c => decide (c ≠ 'x')) = [] := fun k =>
    List.filter_eq_nil_iff.mpr fun c mem => by
      rw [List.eq_of_mem_replicate mem]
      decide
  have keep : ∀ k, (List.replicate k 'x').filter (fun c => !decide (c ≠ 'x')) = List.replicate k 'x' := fun k =>
    List.filter_eq_self.mpr fun c mem => by
      rw [List.eq_of_mem_replicate mem]
      decide
  have shown := filter_shownText text fun ν _ => marks ν
  rw [account.shown, List.filter_append, List.filter_append, letters, letters, List.nil_append, List.append_nil,
    List.filter_eq_self.mpr (marks _)] at shown
  have one := eq_singleton_of_flatMap shown.symm
  have covers : (utf8Encode (missingText ps)).length = n := account.covers _ _ (cut_of_notes one)
  have ascii : ∀ c ∈ missingText ps, c.utf8Size = 1 := by
    intro c mem
    have letter := mem_wholeText mem
    rw [account.whole] at letter
    rw [List.eq_of_mem_replicate letter]
    decide
  rw [length_encode_ascii ascii] at covers
  have sizes := length_wholeText text fun ν _ => marks ν
  have none : (Omitted.bytes n).marker.filter (fun c => !decide (c ≠ 'x')) = [] :=
    List.filter_eq_nil_iff.mpr fun c mem => by
      rw [marks _ c mem]
      decide
  rw [account.shown, account.whole, List.filter_append, List.filter_append, keep, keep, none, List.append_nil,
    List.length_append, List.length_replicate, List.length_replicate, List.length_replicate, covers] at sizes
  exact sizes

/-- Two blocks as large as a buffer, and one behind them that is no larger: the one in the middle is dropped. -/
lemma run_blocks (len : b.length = outputMaxBytes) {c : List UInt8} (some : c ≠ []) (short : c.length ≤ outputMaxBytes) :
    (run [b, b, c]).dropped = outputMaxBytes ∧ (run [b, b, c]).head.flatten = b ∧ (run [b, b, c]).tail.flatten = c := by
  have filled : b ≠ [] := List.ne_nil_of_length_pos (by rw [len]; decide)
  have first : ({} : ForegroundOutput).add b =
      { totalBytes := 0 + b.length, head := [] ++ [b], headBytes := 0 + b.length } :=
    add_fits (by decide) (by rw [len]; exact Nat.le_of_eq (Nat.zero_add _))
  have full : outputMaxBytes ≤ (({} : ForegroundOutput).add b).headBytes := by
    rw [first, len]
    exact Nat.le_of_eq (Nat.zero_add _).symm
  obtain ⟨headBytes, tail, tailBytes⟩ := add_full full filled
  have single : trimTail ((({} : ForegroundOutput).add b).tail ++ [b]) ((({} : ForegroundOutput).add b).tailBytes +
      b.length) = ([b], b.length) := by
    rw [first]
    exact congrArg (Prod.mk [b]) (Nat.zero_add b.length)
  rw [single] at tail tailBytes
  obtain ⟨-, tail', tailBytes'⟩ := add_full (headBytes ▸ full) some
  have double : trimTail ([b] ++ [c]) (b.length + c.length) = ([c], c.length) := by
    have large : b.length + c.length > outputMaxBytes := by
      have more := List.length_pos_of_ne_nil some
      omega
    rw [List.singleton_append, trimTail, if_pos large, Nat.add_sub_cancel_left]
    rfl
  rw [tail, tailBytes, double] at tail' tailBytes'
  obtain ⟨holds, total⟩ := holds_run [b, b, c]
  have size : [b, b, c].flatten.length = outputMaxBytes + (outputMaxBytes + c.length) := by
    simp only [List.flatten_cons, List.flatten_nil, List.length_append, len]
    rfl
  refine ⟨?_, ?_, ?_⟩
  · have tailBytes : (run [b, b, c]).tailBytes = c.length := tailBytes'
    rw [dropped, total, holds.headBytes, size, tailBytes]
    omega
  · rw [holds.head, List.flatten_cons, ← len, List.take_left]
  · have tail : (run [b, b, c]).tail = [c] := tail'
    rw [tail, List.flatten_singleton]

end

/-- Their number. -/
lemma length_encode_xs (n : Nat) : (utf8Encode (List.replicate n 'x')).length = n := by
  rw [encode_xs, List.length_replicate]

/-- Two blocks of one letter, each as large as a buffer, and a letter behind them. -/
def twoBlocks : List (List UInt8) :=
  [List.replicate outputMaxBytes 0x78, List.replicate outputMaxBytes 0x78, List.replicate 1 0x78]

/-- The second block is dropped, and bytes of the first one are cut, clear of the marker. -/
lemma twoBlocks_clear : Clear twoBlocks := by
  obtain ⟨middle, head, tail⟩ := run_blocks (b := List.replicate outputMaxBytes 0x78) List.length_replicate
    (c := List.replicate 1 0x78) (by decide) (by decide)
  have sizes : headContent = 65511 ∧ tailContent = 65511 ∧ outputMaxBytes = 131072 := by decide
  have digits : (Nat.toDigits 10 outputMaxBytes).length = 6 := by decide
  refine .inr ⟨?_, List.replicate outputMaxBytes 0x78, ?_, ?_, ?_, ?_⟩
  · rw [twoBlocks, middle]
    decide
  · rw [twoBlocks, head, tail]
    simp only [List.flatten_cons, List.flatten_nil, List.append_nil, List.append_assoc]
  · rw [twoBlocks, head, tail, List.flatten_cons, List.flatten_cons, List.flatten_singleton,
      List.replicate_append_replicate, List.replicate_append_replicate, textOf_xs, textOf_xs, textOf_xs,
      List.replicate_append_replicate, List.replicate_append_replicate, Nat.add_assoc]
  · rw [textOf_xs, length_encode_xs, List.length_replicate]
  · rw [twoBlocks, middle, head, tail, textOf_xs, textOf_xs]
    refine .inl ⟨?_, .inr ?_⟩
    · simp only [shownText_cons, shownText_nil, Passage.shown, List.append_nil, ← List.append_assoc]
      rw [length_splitOn_marker, splitOn_xs, splitOn_xs]
      decide
    · have parts : List.replicate outputMaxBytes 'x' =
          List.replicate 65511 'x' ++ List.replicate 98 'x' ++ List.replicate 65463 'x' := by
        rw [List.replicate_append_replicate, List.replicate_append_replicate]
        rfl
      refine ⟨List.replicate 65511 'x', List.replicate 98 'x', List.replicate 65463 'x' ++
        shownText Omitted.marker [.cut (.bytes outputMaxBytes) (List.replicate outputMaxBytes 'x'),
          .kept (List.replicate 1 'x')], _, ⟨[], List.replicate 65511 'x', List.replicate 65463 'x', _, ?_, rfl, rfl, rfl⟩,
        ?_, ?_, ?_⟩
      · rw [← parts]
        rfl
      · rw [length_encode_xs, sizes.1]
      · simp only [shownText_cons, shownText_nil, Passage.shown, List.append_nil]
        rw [utf8Encode_append, utf8Encode_append, List.length_append, List.length_append, length_encode_xs,
          length_encode_xs, length_encode_marker, digits, sizes.2.1]
      · rw [length_encode_xs]
        decide

/-- Cut bytes, and honest. -/
theorem twoBlocks_honest : (run twoBlocks).dropped = outputMaxBytes ∧ Honest twoBlocks := by
  obtain ⟨middle, _, _⟩ := run_blocks (b := List.replicate outputMaxBytes 0x78) List.length_replicate
    (c := List.replicate 1 0x78) (by decide) (by decide)
  exact ⟨middle, foreground_honest twoBlocks twoBlocks_clear⟩

/-- Three blocks of one letter, each as large as a buffer. -/
def threeBlocks : List (List UInt8) :=
  [List.replicate outputMaxBytes 0x78, List.replicate outputMaxBytes 0x78, List.replicate outputMaxBytes 0x78]

/-- The marker for the cut bytes does not count those that the marker it swallows stands for. -/
theorem threeBlocks_swallow : ¬ Honest threeBlocks := by
  intro honest
  obtain ⟨middle, head, tail⟩ := run_blocks (b := List.replicate outputMaxBytes 0x78) List.length_replicate
    (c := List.replicate outputMaxBytes 0x78) (by rw [Ne, List.replicate_eq_nil_iff]; decide)
    (Nat.le_of_eq List.length_replicate)
  have some : (run threeBlocks).dropped ≠ 0 := by
    rw [threeBlocks, middle]
    decide
  have sizes : headContent = 65511 ∧ tailContent = 65511 ∧ outputMaxBytes = 131072 := by decide
  -- what `_tail_text` is given, and what it leaves out of it
  obtain ⟨combined, shown⟩ : ∃ combined, combined = List.replicate outputMaxBytes 'x' ++
      (Omitted.bytes outputMaxBytes).marker ++ List.replicate outputMaxBytes 'x' := ⟨_, rfl⟩
  obtain ⟨missing, gone⟩ : ∃ missing, missing = List.replicate (outputMaxBytes - headContent) 'x' ++
      (Omitted.bytes outputMaxBytes).marker ++ List.replicate (outputMaxBytes - tailContent) 'x' := ⟨_, rfl⟩
  have e : combined = List.replicate headContent 'x' ++ missing ++ List.replicate tailContent 'x' := by
    have front : List.replicate headContent 'x' ++ List.replicate (outputMaxBytes - headContent) 'x' =
        List.replicate outputMaxBytes 'x' := by
      rw [List.replicate_append_replicate, Nat.add_sub_cancel' (by omega)]
    have back : List.replicate (outputMaxBytes - tailContent) 'x' ++ List.replicate tailContent 'x' =
        List.replicate outputMaxBytes 'x' := by
      rw [List.replicate_append_replicate, Nat.sub_add_cancel (by omega)]
    calc combined = (List.replicate headContent 'x' ++ List.replicate (outputMaxBytes - headContent) 'x') ++
          (Omitted.bytes outputMaxBytes).marker ++
            (List.replicate (outputMaxBytes - tailContent) 'x' ++ List.replicate tailContent 'x') := by
          rw [shown, front, back]
      _ = List.replicate headContent 'x' ++ missing ++ List.replicate tailContent 'x' := by
        rw [gone]
        simp only [List.append_assoc]
  have digits : (Nat.toDigits 10 outputMaxBytes).length = 6 := by decide
  have missingBytes : (utf8Encode missing).length = 131169 := by
    rw [gone, utf8Encode_append, utf8Encode_append, List.length_append, List.length_append, encode_xs, encode_xs,
      length_encode_marker, List.length_replicate, List.length_replicate, digits]
    omega
  have long : outputMaxBytes < (utf8Encode combined).length := by
    rw [e, utf8Encode_append, utf8Encode_append, List.length_append, List.length_append, missingBytes, length_encode_xs,
      length_encode_xs]
    omega
  have few : (combined.splitOn '\n').length ≤ outputMaxLines := by
    rw [shown, length_splitOn_marker, splitOn_xs]
    decide
  have inline : (run threeBlocks).finalize.1 = (List.replicate headContent 'x' ++ (Omitted.bytes 131169).marker ++
      List.replicate tailContent 'x', true) := by
    rw [finalize_inline, inlineText, if_neg some, threeBlocks, middle, head, tail, textOf_xs, ← shown]
    simp only
    rw [tailText, if_neg fun fits => Nat.not_le.mpr long fits.2, cutLines_few few,
      cutBytes_long e (length_encode_xs _) (length_encode_xs _) long, missingBytes]
  have account := honest.accounted (by rw [inline])
  have whole : textOf threeBlocks.flatten = List.replicate (outputMaxBytes + (outputMaxBytes + outputMaxBytes)) 'x' := by
    rw [threeBlocks, List.flatten_cons, List.flatten_cons, List.flatten_singleton, List.replicate_append_replicate,
      List.replicate_append_replicate, textOf_xs]
  rw [inline, whole] at account
  have counts := length_of_accounted account
  omega

end OpenAgentd.Shell
