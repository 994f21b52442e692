import Mathlib.Data.List.TakeWhile
import OpenAgentd.Lib.LineBuffer
import OpenAgentd.Lib.Utf8
import OpenAgentd.Schemas.Chat

/-!
# Messages on the wire

`send_message` and `_read_loop` of `LspClient` (`services/lsp/client.py`): a message is a block of header lines, an empty
line, and as many bytes as the header `Content-Length` says. The loop reads lines until one is blank, takes the last
`Content-Length` that it met, and reads the body.

A server may send other headers, in any order and with any spelling of the names. The loop handles the messages that
came whole, each once and in order, and nothing of the one that the output broke off in (`readLoop_received`).
-/

namespace OpenAgentd.Lsp.Framing
open OpenAgentd.Lib

universe u
variable {J : Type u}

/-- The decimal digits of Unicode, those of ASCII among them. -/
structure Decimals where
  value : Char → Option Nat
  ascii : ∀ c : Char, c.isDigit = true → value c = some (c.toNat - '0'.toNat)

/-- The digits of a number, with single underscores between them. -/
def digitsValue (decimals : Decimals) (s : List Char) : Option Nat :=
  if [] ∈ s.splitOn '_' then none
  else ((s.filter (· ≠ '_')).mapM decimals.value).map fun ds => ds.foldl (fun n d => 10 * n + d) 0

/-- `int`. -/
def pyInt (decimals : Decimals) (s : List Char) : Option Int :=
  match trim pyIsSpace s with
  | '-' :: t => (digitsValue decimals t).map fun n => -(n : Int)
  | '+' :: t => (digitsValue decimals t).map Int.ofNat
  | t => (digitsValue decimals t).map Int.ofNat

/-- What `readline` returns; `b""` at the end, and an error for a line over the limit of the reader. -/
inductive LineRead where
  | eof
  | overrun
  | line (bytes rest : List UInt8)

def readline (limit : Nat) (s : List UInt8) : LineRead :=
  if s = [] then .eof
  else
    let body := s.takeWhile (· ≠ 10)
    if limit < body.length then .overrun
    else
      match s.dropWhile (· ≠ 10) with
      | [] => .line body []
      | newline :: rest => .line (body ++ [newline]) rest

def readexactly (n : Nat) (s : List UInt8) : Option (List UInt8 × List UInt8) :=
  if s.length < n then none else some (s.take n, s.drop n)

/-- What the reading side does not define: its buffer limit, `orjson.loads`, and whether `_handle_message` returns. -/
structure Peer (J : Type u) where
  limit : Nat
  decimals : Decimals
  loads : List UInt8 → Option J
  handles : J → Bool

inductive HeaderEnd where
  | eof
  | failed
  | ended (contentLength : Option Int) (rest : List UInt8)

inductive LoopEnd where
  | exited
  | eof
  | incomplete
  | failed
  deriving DecidableEq

/-- What a header line says. -/
inductive HeaderLine where
  | blank
  | contentLength (length : Int)
  | other
  | failed

/-- The body of the header loop, for one line. -/
def headerLine (decimals : Decimals) (line : List UInt8) : HeaderLine :=
  let lineStr := trim pyIsSpace (decodeWith ['\uFFFD'] line)
  if lineStr = [] then .blank
  else if ':' ∈ lineStr then
    let key := lineStr.takeWhile (· ≠ ':')
    let val := (lineStr.dropWhile (· ≠ ':')).drop 1
    if (trim pyIsSpace key).map Char.toLower = "content-length".toList then
      match pyInt decimals (trim pyIsSpace val) with
      | none => .failed
      | some n => .contentLength n
    else .other
  else .other

/-- A line takes some bytes. -/
lemma length_readline {limit : Nat} {s bytes rest : List UInt8} (read : readline limit s = .line bytes rest) :
    rest.length < s.length := by
  have behind := (List.dropWhile_suffix (· ≠ (10 : UInt8)) (l := s)).length_le
  unfold readline at read
  split at read
  next => cases read
  next filled =>
    dsimp only at read
    split at read
    next => cases read
    next =>
      cases tail : s.dropWhile (· ≠ 10) with
      | nil =>
        rw [tail] at read
        cases read
        exact List.length_pos_of_ne_nil filled
      | cons newline later =>
        rw [tail] at read behind
        cases read
        exact behind

section
variable (peer : Peer J)

/-- The header loop, with the length that was met last. -/
def readHeaders (contentLength : Option Int) (s : List UInt8) : HeaderEnd :=
  match _read : readline peer.limit s with
  | .eof => .eof
  | .overrun => .failed
  | .line bytes rest =>
    match headerLine peer.decimals bytes with
    | .blank => .ended contentLength rest
    | .contentLength n => readHeaders (some n) rest
    | .other => readHeaders contentLength rest
    | .failed => .failed
termination_by s.length
decreasing_by all_goals exact length_readline _read

end

/-! ### What is read -/

section
variable {peer : Peer J} {contentLength : Option Int} {s t bytes rest : List UInt8} {limit : Nat}

/-- Headers take some bytes. -/
lemma length_readHeaders {length : Option Int} (read : readHeaders peer contentLength s = .ended length rest) :
    rest.length < s.length := by
  fun_induction readHeaders peer contentLength s with
  | case1 => cases read
  | case2 => cases read
  | case3 contentLength s bytes rest' line =>
    cases read
    exact length_readline line
  | case4 contentLength s bytes rest' line _ _ ih => exact (ih read).trans (length_readline line)
  | case5 contentLength s bytes rest' line _ ih => exact (ih read).trans (length_readline line)
  | case6 => cases read

end

/-- `_read_loop`, with the messages that it hands to `_handle_message`. `exited i` says whether the process has a return
code when the loop comes round for the `i`-th time. -/
def readLoop (peer : Peer J) (exited : Nat → Bool) (i : Nat) (s : List UInt8) : List J × LoopEnd :=
  if exited i then ([], .exited)
  else
    match headers : readHeaders peer none s with
    | .eof => ([], .eof)
    | .failed => ([], .failed)
    | .ended none rest => readLoop peer exited (i + 1) rest
    | .ended (some length) rest =>
      if length < 0 then ([], .failed)
      else
        match _body : readexactly length.toNat rest with
        | none => ([], .incomplete)
        | some (body, rest') =>
          if body = [] then ([], .eof)
          else
            match peer.loads body with
            | none => ([], .failed)
            | some message =>
              if peer.handles message then
                let later := readLoop peer exited (i + 1) rest'
                (message :: later.1, later.2)
              else ([message], .failed)
termination_by s.length
decreasing_by
  · exact length_readHeaders headers
  · have first := length_readHeaders headers
    unfold readexactly at _body
    split at _body
    · cases _body
    · cases _body
      rw [List.length_drop]
      omega

/-- `send_message`. -/
def sendMessage (body : List UInt8) : List UInt8 :=
  utf8Encode ("Content-Length: ".toList ++ Nat.toDigits 10 body.length ++ "\r\n\r\n".toList) ++ body

/-! ### What a server sends -/

/-- A header field. -/
structure Header where
  name : List Char
  value : List Char
  nameLine : '\n' ∉ name
  valueLine : '\n' ∉ value
  colon : ':' ∉ name

def Header.line (h : Header) : List Char := h.name ++ ':' :: h.value

/-- The name is `Content-Length`, in whatever case. -/
def Header.IsLength (h : Header) : Prop := (trim pyIsSpace h.name).map Char.toLower = "content-length".toList

def lineBytes (crlf : Bool) (l : List Char) : List UInt8 := utf8Encode (l ++ carriage crlf) ++ [10]

/-- A message of the server, with the headers it sends in front of it. -/
structure Message (peer : Peer J) where
  before : List Header
  length : Header
  after : List Header
  crlf : Bool
  body : List UInt8
  message : J
  others : ∀ h ∈ before ++ after, ¬ h.IsLength
  named : length.IsLength
  numbered : trim pyIsSpace length.value = Nat.toDigits 10 body.length
  short : ∀ h ∈ before ++ length :: after, (utf8Encode (h.line ++ carriage crlf)).length ≤ peer.limit
  filled : body ≠ []
  loaded : peer.loads body = some message
  handled : peer.handles message = true

variable {peer : Peer J}

/-- The header lines and the empty line. -/
def Message.block (m : Message peer) : List UInt8 :=
  (m.before ++ m.length :: m.after).flatMap (fun h => lineBytes m.crlf h.line) ++ lineBytes m.crlf []

def Message.wire (m : Message peer) : List UInt8 := m.block ++ m.body

/-! ### One line -/

section
variable {limit : Nat} {decimals : Decimals} {l s t bytes rest : List UInt8} {crlf : Bool} {text : List Char}
  {length : Option Int} {contentLength : Option Int} {h : Header} {hs : List Header}

/-- A line is read. -/
lemma readline_line (clean : 10 ∉ l) (short : l.length ≤ limit) : readline limit (l ++ 10 :: s) = .line (l ++ [10]) s := by
  have solid : ∀ b ∈ l, decide (b ≠ 10) = true := fun b mem => decide_eq_true fun e => clean (e ▸ mem)
  have front : (l ++ 10 :: s).takeWhile (· ≠ 10) = l := by
    rw [List.takeWhile_append_of_pos solid, List.takeWhile_cons_of_neg (by simp), List.append_nil]
  have back : (l ++ 10 :: s).dropWhile (· ≠ 10) = 10 :: s := by
    rw [List.dropWhile_append_of_pos solid, List.dropWhile_cons_of_neg (by simp)]
  rw [readline, if_neg (by simp)]
  simp only [front, back, if_neg (Nat.not_lt.mpr short)]

/-- A line that was read is read the same way when more follows. -/
lemma readline_append (read : readline limit s = .line bytes rest) (more : rest ≠ []) :
    readline limit (s ++ t) = .line bytes (rest ++ t) := by
  have whole := List.takeWhile_append_dropWhile (p := (· ≠ (10 : UInt8))) (l := s)
  have clean : (10 : UInt8) ∉ s.takeWhile (· ≠ 10) := by
    intro mem
    have no := List.mem_takeWhile_imp mem
    exact of_decide_eq_true no rfl
  unfold readline at read
  split at read
  next => cases read
  next filled =>
    dsimp only at read
    split at read
    next => cases read
    next short =>
      cases tail : s.dropWhile (· ≠ 10) with
      | nil =>
        rw [tail] at read
        cases read
        exact absurd rfl more
      | cons newline later =>
        have head : newline = 10 := by
          have no := List.head?_dropWhile_not (· ≠ (10 : UInt8)) s
          rw [tail] at no
          simpa using no
        rw [tail] at read whole
        cases read
        subst head
        rw [← whole, List.append_assoc, List.cons_append, whole]
        exact readline_line clean (Nat.le_of_not_lt short)

/-- A high byte is no line feed. -/
lemma ofNat_ne_newline {k : Nat} (high : 128 ≤ k) (byte : k < 256) : (10 : UInt8) ≠ UInt8.ofNat k := by
  intro e
  have e := congrArg UInt8.toNat e
  rw [UInt8.toNat_ofNat', Nat.mod_eq_of_lt byte] at e
  have ten : (10 : UInt8).toNat = 10 := rfl
  omega

/-- Only the line feed has its byte. -/
lemma newline_notMem {c : Char} (other : c ≠ '\n') : (10 : UInt8) ∉ String.utf8EncodeChar c := by
  unfold String.utf8EncodeChar
  dsimp only
  split
  next low =>
    rw [List.mem_singleton]
    intro e
    have e := congrArg UInt8.toNat e
    rw [UInt8.toNat_ofNat', Nat.mod_eq_of_lt (by omega)] at e
    exact other (Char.ext (UInt32.toNat_inj.mp e.symm))
  next =>
    split
    · simp only [List.mem_cons, List.not_mem_nil, or_false, not_or]
      exact ⟨ofNat_ne_newline (by omega) (by omega), ofNat_ne_newline (by omega) (by omega)⟩
    · split
      · simp only [List.mem_cons, List.not_mem_nil, or_false, not_or]
        exact ⟨ofNat_ne_newline (by omega) (by omega), ofNat_ne_newline (by omega) (by omega),
          ofNat_ne_newline (by omega) (by omega)⟩
      · simp only [List.mem_cons, List.not_mem_nil, or_false, not_or]
        exact ⟨ofNat_ne_newline (by omega) (by omega), ofNat_ne_newline (by omega) (by omega),
          ofNat_ne_newline (by omega) (by omega), ofNat_ne_newline (by omega) (by omega)⟩

/-- A line has no line feed. -/
lemma encode_clean (line : '\n' ∉ text) : 10 ∉ utf8Encode (text ++ carriage crlf) := by
  intro mem
  obtain ⟨c, here, byte⟩ := List.mem_flatMap.mp mem
  refine newline_notMem ?_ byte
  intro e
  subst e
  cases List.mem_append.mp here with
  | inl inText => exact line inText
  | inr inEnd => cases crlf <;> simp [carriage] at inEnd

/-- A line of the server is read as a line. -/
lemma readline_lineBytes (line : '\n' ∉ text) (short : (utf8Encode (text ++ carriage crlf)).length ≤ limit) :
    readline limit (lineBytes crlf text ++ s) = .line (lineBytes crlf text) s := by
  rw [lineBytes, List.append_assoc, List.singleton_append, readline_line (encode_clean line) short]

/-- What the loop sees of a line. -/
lemma trim_decode (crlf : Bool) (text : List Char) :
    trim pyIsSpace (decodeWith ['\uFFFD'] (lineBytes crlf text)) = trim pyIsSpace text := by
  have newline : ([10] : List UInt8) = utf8Encode ['\n'] := by decide
  rw [lineBytes, newline, ← utf8Encode_append, decodeWith_encode, List.append_assoc]
  apply trim_append
  intro c mem
  rcases List.mem_append.mp mem with carriage | newline
  · rw [mem_carriage carriage]
    rfl
  · rw [List.mem_singleton.mp newline]
    rfl

/-- A blank line. -/
lemma headerLine_blank : headerLine decimals (lineBytes crlf []) = .blank := by
  unfold headerLine
  rw [trim_decode]
  rfl

/-! ### Numbers -/

/-- Digits have values. -/
lemma mapM_ascii {cs : List Char} (digits : ∀ c ∈ cs, c.isDigit = true) :
    cs.mapM decimals.value = some (cs.map fun c => c.toNat - '0'.toNat) := by
  induction cs with
  | nil => rfl
  | cons c cs ih =>
    rw [List.mapM_cons, decimals.ascii c (digits c List.mem_cons_self), ih fun d mem => digits d (List.mem_cons_of_mem _ mem)]
    rfl

/-- Decimal digits are digits. -/
lemma isDigit_of_toDigits {n : Nat} {c : Char} (mem : c ∈ Nat.toDigits 10 n) : c.isDigit = true :=
  Nat.isDigit_of_mem_toDigits (by decide) (by decide) mem

/-- The number is read back. -/
lemma digitsValue_toDigits (n : Nat) : digitsValue decimals (Nat.toDigits 10 n) = some n := by
  have underscore : '_' ∉ Nat.toDigits 10 n := Nat.underscore_not_in_toDigits
  have filled : [] ∉ [Nat.toDigits 10 n] := by
    rw [List.mem_singleton]
    exact Nat.toDigits_ne_nil.symm
  have plain : (Nat.toDigits 10 n).filter (· ≠ '_') = Nat.toDigits 10 n :=
    List.filter_eq_self.mpr fun c mem => decide_eq_true fun e => underscore (e ▸ mem)
  rw [digitsValue, List.splitOn_eq_singleton underscore, if_neg filled, plain,
    mapM_ascii fun c mem => isDigit_of_toDigits mem, Option.map_some, List.foldl_map]
  exact congrArg some Nat.ofDigitChars_ten_toDigits

/-- A digit is no space or sign. -/
lemma isDigit_solid {c : Char} (digit : c.isDigit = true) : pyIsSpace c = false ∧ c ≠ '-' ∧ c ≠ '+' := by
  have range : ∀ n < 58, 48 ≤ n → pyIsSpace (Char.ofNat n) = false ∧ Char.ofNat n ≠ '-' ∧ Char.ofNat n ≠ '+' := by decide
  simp only [Char.isDigit, Bool.and_eq_true, decide_eq_true_eq] at digit
  have low : 48 ≤ c.toNat := digit.1
  have high : c.toNat ≤ 57 := digit.2
  have here := range c.toNat (by omega) low
  rwa [Char.ofNat_toNat] at here

/-- A number is trimmed. -/
lemma trimmed_toDigits (n : Nat) : Trimmed pyIsSpace (Nat.toDigits 10 n) where
  first _ head := (isDigit_solid (isDigit_of_toDigits (List.mem_of_mem_head? head))).1
  last _ last := (isDigit_solid (isDigit_of_toDigits (List.mem_of_mem_getLast? last))).1

/-- The number is read back. -/
lemma pyInt_toDigits (n : Nat) : pyInt decimals (Nat.toDigits 10 n) = some (n : Int) := by
  unfold pyInt
  rw [(trimmed_toDigits n).trim]
  split
  next t e =>
    have digit : '-' ∈ Nat.toDigits 10 n := e ▸ List.mem_cons_self
    exact absurd rfl (isDigit_solid (isDigit_of_toDigits digit)).2.1
  next t e =>
    have digit : '+' ∈ Nat.toDigits 10 n := e ▸ List.mem_cons_self
    exact absurd rfl (isDigit_solid (isDigit_of_toDigits digit)).2.2
  next =>
    rw [digitsValue_toDigits]
    rfl

/-! ### One header -/

/-- A header line, trimmed. -/
lemma trim_line (h : Header) :
    trim pyIsSpace h.line = h.name.dropWhile pyIsSpace ++ ':' :: trimEnd pyIsSpace h.value := trim_middle (by decide) _ _

/-- The name of a header. -/
lemma key_line (h : Header) : (trim pyIsSpace h.line).takeWhile (· ≠ ':') = h.name.dropWhile pyIsSpace := by
  rw [trim_line, List.takeWhile_append_of_pos, List.takeWhile_cons_of_neg (by simp), List.append_nil]
  intro c mem
  exact decide_eq_true fun e => h.colon (e ▸ (List.dropWhile_suffix _).subset mem)

/-- The value of a header. -/
lemma val_line (h : Header) :
    ((trim pyIsSpace h.line).dropWhile (· ≠ ':')).drop 1 = trimEnd pyIsSpace h.value := by
  rw [trim_line, List.dropWhile_append_of_pos, List.dropWhile_cons_of_neg (by simp)]
  · rfl
  · intro c mem
    exact decide_eq_true fun e => h.colon (e ▸ (List.dropWhile_suffix _).subset mem)

/-- What a header says. -/
lemma headerLine_header (h : Header) :
    headerLine decimals (lineBytes crlf h.line) =
      if (trim pyIsSpace h.name).map Char.toLower = "content-length".toList then
        match pyInt decimals (trim pyIsSpace h.value) with
        | none => .failed
        | some n => .contentLength n
      else .other := by
  have filled : trim pyIsSpace h.line ≠ [] := by
    rw [trim_line]
    simp
  have colon : ':' ∈ trim pyIsSpace h.line := by
    rw [trim_line]
    simp
  unfold headerLine
  simp only [trim_decode, if_neg filled, if_pos colon, key_line, val_line, trim_dropWhile, trim_trimEnd]

/-- A header is one line. -/
lemma line_clean (h : Header) : '\n' ∉ h.line := by
  rw [Header.line, List.mem_append, List.mem_cons, not_or, not_or]
  exact ⟨h.nameLine, by decide, h.valueLine⟩

/-! ### The headers of a message -/

/-- One line of the headers. -/
lemma readHeaders_line (read : readline peer.limit s = .line bytes rest) :
    readHeaders peer contentLength s =
      match headerLine peer.decimals bytes with
      | .blank => .ended contentLength rest
      | .contentLength n => readHeaders peer (some n) rest
      | .other => readHeaders peer contentLength rest
      | .failed => .failed := by
  rw [readHeaders]
  split
  next e =>
    rw [read] at e
    cases e
  next e =>
    rw [read] at e
    cases e
  next bytes' rest' e =>
    rw [read] at e
    cases e
    rfl

/-- The stream ends. -/
lemma readHeaders_nil : readHeaders peer contentLength [] = .eof := by
  rw [readHeaders]
  rfl

/-- Headers that are not the length are passed over. -/
lemma readHeaders_others (others : ∀ h ∈ hs, ¬ h.IsLength)
    (short : ∀ h ∈ hs, (utf8Encode (h.line ++ carriage crlf)).length ≤ peer.limit) :
    readHeaders peer contentLength (hs.flatMap (fun h => lineBytes crlf h.line) ++ s) =
      readHeaders peer contentLength s := by
  induction hs with
  | nil => rfl
  | cons h hs ih =>
    have here : headerLine peer.decimals (lineBytes crlf h.line) = .other := by
      rw [headerLine_header]
      exact if_neg (others h List.mem_cons_self)
    rw [List.flatMap_cons, List.append_assoc,
      readHeaders_line (readline_lineBytes (line_clean h) (short h List.mem_cons_self)), here]
    exact ih (fun h mem => others h (List.mem_cons_of_mem _ mem)) fun h mem => short h (List.mem_cons_of_mem _ mem)

/-- The headers of a message give its length, and end in front of its body. -/
lemma readHeaders_block (m : Message peer) (s : List UInt8) :
    readHeaders peer none (m.block ++ s) = .ended (some (m.body.length : Int)) s := by
  have number : headerLine peer.decimals (lineBytes m.crlf m.length.line) = .contentLength m.body.length := by
    rw [headerLine_header, m.numbered, pyInt_toDigits]
    exact if_pos m.named
  have shortLength := m.short m.length (by simp)
  have shortBlank : (utf8Encode ([] ++ carriage m.crlf)).length ≤ peer.limit := by
    rw [utf8Encode_append, List.length_append] at shortLength
    rw [List.nil_append]
    omega
  rw [Message.block, List.flatMap_append, List.flatMap_cons, List.append_assoc, List.append_assoc, List.append_assoc,
    readHeaders_others (fun h mem => m.others h (by simp [mem])) fun h mem => m.short h (by simp [mem]),
    readHeaders_line (readline_lineBytes (line_clean m.length) shortLength), number]
  dsimp only
  rw [readHeaders_others (fun h mem => m.others h (by simp [mem])) fun h mem => m.short h (by simp [mem]),
    readHeaders_line (readline_lineBytes List.not_mem_nil shortBlank), headerLine_blank]

/-- Headers that end before what was read ends are the same when more follows. -/
lemma readHeaders_append (read : readHeaders peer contentLength s = .ended length rest) (more : rest ≠ []) :
    readHeaders peer contentLength (s ++ t) = .ended length (rest ++ t) := by
  -- a line behind which headers were read had something behind it
  have later : ∀ {c : Option Int} {rest' : List UInt8}, readHeaders peer c rest' = .ended length rest → rest' ≠ [] := by
    intro c rest' read e
    subst e
    rw [readHeaders_nil] at read
    cases read
  fun_induction readHeaders peer contentLength s with
  | case1 => cases read
  | case2 => cases read
  | case3 contentLength s bytes rest' line here =>
    cases read
    rw [readHeaders_line (readline_append line more), here]
  | case4 contentLength s bytes rest' line n here ih =>
    rw [readHeaders_line (readline_append line (later read)), here]
    exact ih read
  | case5 contentLength s bytes rest' line here ih =>
    rw [readHeaders_line (readline_append line (later read)), here]
    exact ih read
  | case6 => cases read

/-! ### The loop -/

variable {exited : Nat → Bool} {i : Nat} {m : Message peer} {ms : List (Message peer)} {output : List UInt8}

/-- After the exit nothing is read. -/
lemma readLoop_exited (gone : exited i = true) : readLoop peer exited i s = ([], .exited) := by
  rw [readLoop, if_pos gone]

/-- A message that came whole is handled. -/
lemma readLoop_message (stays : exited i = false) (m : Message peer) (s : List UInt8) :
    readLoop peer exited i (m.wire ++ s) =
      (m.message :: (readLoop peer exited (i + 1) s).1, (readLoop peer exited (i + 1) s).2) := by
  have headers := readHeaders_block m (m.body ++ s)
  have body : readexactly (m.body.length : Int).toNat (m.body ++ s) = some (m.body, s) := by
    rw [readexactly, Int.toNat_natCast, if_neg (by simp), List.take_left, List.drop_left]
  rw [Message.wire, List.append_assoc, readLoop, if_neg (by rw [stays]; exact Bool.false_ne_true)]
  split
  next e =>
    rw [headers] at e
    cases e
  next e =>
    rw [headers] at e
    cases e
  next rest e =>
    rw [headers] at e
    cases e
  next length rest e =>
    rw [headers] at e
    cases e
    rw [if_neg (Int.not_lt.mpr (Int.natCast_nonneg _))]
    split
    next e =>
      rw [body] at e
      cases e
    next body' rest' e =>
      rw [body] at e
      cases e
      rw [if_neg m.filled, m.loaded]
      dsimp only
      rw [if_pos m.handled]

/-- With nothing to read nothing is handled. -/
lemma readLoop_nil : (readLoop peer exited i []).1 = [] := by
  rw [readLoop]
  split
  next => rfl
  next =>
    rw [readHeaders_nil]

/-- Without a body nothing is handled. -/
lemma readLoop_none (headers : ∀ length rest, readHeaders peer none s = .ended length rest →
    rest = [] ∨ ∃ n : Nat, length = some (n : Int) ∧ rest.length < n) : (readLoop peer exited i s).1 = [] := by
  rw [readLoop]
  split
  next => rfl
  next =>
    split
    next => rfl
    next => rfl
    next rest e =>
      cases headers none rest e with
      | inl nothing =>
        rw [nothing]
        exact readLoop_nil
      | inr short =>
        obtain ⟨n, e, _⟩ := short
        cases e
    next length rest e =>
      split
      next => rfl
      next natural =>
        split
        next => rfl
        next body rest' read =>
          cases headers (some length) rest e with
          | inl nothing =>
            subst nothing
            rw [readexactly] at read
            split at read
            next => cases read
            next =>
              rw [List.take_nil] at read
              cases read
              rw [if_pos rfl]
          | inr short =>
            obtain ⟨n, e, short⟩ := short
            cases e
            rw [readexactly, Int.toNat_natCast, if_pos short] at read
            cases read

/-- Of a message that the output broke off in, nothing is handled. -/
lemma readLoop_broken (part : s <+: m.wire) (broken : s ≠ m.wire) : (readLoop peer exited i s).1 = [] := by
  apply readLoop_none
  intro length rest read
  cases prefix_append_cases part with
  | inl inBlock =>
    by_cases nothing : rest = []
    · exact .inl nothing
    · obtain ⟨t, e⟩ := inBlock
      have whole := readHeaders_block m []
      rw [List.append_nil, ← e, readHeaders_append read nothing] at whole
      injection whole with _ none_
      exact .inl (List.append_eq_nil_iff.mp none_).1
  | inr behind =>
    obtain ⟨body, e, inBody⟩ := behind
    subst e
    rw [readHeaders_block] at read
    cases read
    refine .inr ⟨m.body.length, rfl, ?_⟩
    apply Nat.lt_of_le_of_ne inBody.length_le
    intro e
    apply broken
    rw [Message.wire, inBody.eq_of_length e]

/-- The loop handles the messages that came whole, in order. -/
lemma readLoop_whole (received : output <+: ms.flatMap Message.wire) :
    ∃ n ≤ ms.length, (readLoop peer exited i output).1 = (ms.take n).map Message.message ∧
      (ms.take n).flatMap Message.wire <+: output ∧
      (n = ms.length ∨ exited (i + n) = true ∨ ¬ (ms.take (n + 1)).flatMap Message.wire <+: output) := by
  induction ms generalizing output i with
  | nil =>
    rw [List.flatMap_nil, List.prefix_nil] at received
    subst received
    exact ⟨0, Nat.le_refl 0, readLoop_nil, List.prefix_rfl, .inl rfl⟩
  | cons m ms ih =>
    cases gone : exited i with
    | true =>
      refine ⟨0, Nat.zero_le _, ?_, List.nil_prefix, .inr (.inl gone)⟩
      rw [readLoop_exited gone]
      rfl
    | false =>
      by_cases whole : m.wire <+: output
      · obtain ⟨later, e⟩ := whole
        subst e
        have received : later <+: ms.flatMap Message.wire := (List.prefix_append_right_inj m.wire).mp received
        obtain ⟨n, most, handled, came, stops⟩ := ih (i := i + 1) received
        refine ⟨n + 1, Nat.succ_le_succ most, ?_, ?_, ?_⟩
        · rw [readLoop_message gone, handled]
          rfl
        · exact (List.prefix_append_right_inj m.wire).mpr came
        · rw [Nat.add_right_comm] at stops
          cases stops with
          | inl all => exact .inl (congrArg Nat.succ all)
          | inr stops =>
            cases stops with
            | inl gone => exact .inr (.inl gone)
            | inr next => exact .inr (.inr fun came => next ((List.prefix_append_right_inj m.wire).mp came))
      · have part : output <+: m.wire := by
          cases prefix_append_cases received with
          | inl inside => exact inside
          | inr behind =>
            obtain ⟨r, e, _⟩ := behind
            exact absurd ⟨r, e.symm⟩ whole
        refine ⟨0, Nat.zero_le _, ?_, List.nil_prefix, .inr (.inr ?_)⟩
        · exact readLoop_broken part fun e => whole (e ▸ List.prefix_rfl)
        · rw [List.take_succ_cons, List.take_zero, List.flatMap_cons, List.flatMap_nil, List.append_nil]
          exact whole

/-! ### What is sent -/

/-- What `send_message` writes is a message. -/
def sentMessage (peer : Peer J) (body : List UInt8) (message : J) (filled : body ≠ [])
    (loaded : peer.loads body = some message) (handled : peer.handles message = true)
    (short : (utf8Encode ("Content-Length: ".toList ++ Nat.toDigits 10 body.length ++ ['\r'])).length ≤ peer.limit) :
    Message peer where
  before := []
  length :=
    { name := "Content-Length".toList
      value := ' ' :: Nat.toDigits 10 body.length
      nameLine := by decide
      valueLine := by
        rw [List.mem_cons, not_or]
        refine ⟨by decide, fun mem => ?_⟩
        have solid := (isDigit_solid (isDigit_of_toDigits mem)).1
        revert solid
        decide
      colon := by decide }
  after := []
  crlf := true
  body
  message
  others h mem := absurd mem List.not_mem_nil
  named := (by decide : (trim pyIsSpace "Content-Length".toList).map Char.toLower = "content-length".toList)
  numbered := by
    have space : trim pyIsSpace (' ' :: Nat.toDigits 10 body.length) = trim pyIsSpace (Nat.toDigits 10 body.length) := by
      rw [trim, List.dropWhile_cons_of_pos (by decide), ← trim]
    rw [space, (trimmed_toDigits _).trim]
  short h mem := by
    cases List.mem_singleton.mp mem
    exact short
  filled
  loaded
  handled

/-- A sent message on the wire. -/
lemma wire_sentMessage {body : List UInt8} {message : J} {filled : body ≠ []} {loaded : peer.loads body = some message}
    {handled : peer.handles message = true}
    {short : (utf8Encode ("Content-Length: ".toList ++ Nat.toDigits 10 body.length ++ ['\r'])).length ≤ peer.limit} :
    (sentMessage peer body message filled loaded handled short).wire = sendMessage body := by
  have blank : utf8Encode "\r\n\r\n".toList = [13, 10, 13, 10] := by decide
  have carriageBytes : utf8Encode ['\r'] = [13] := by decide
  rw [Message.wire, Message.block, sendMessage, utf8Encode_append, blank]
  simp only [sentMessage, List.nil_append, List.flatMap_cons, List.flatMap_nil, List.append_nil, lineBytes, carriage,
    if_true, utf8Encode_append, carriageBytes, List.append_assoc, Header.line]
  simp [utf8Encode]

/-- The loop handles the messages that came whole, each once and in order, until the process has a return code; whatever
else came is no message. What `send_message` writes is such a message, where its line is within the limit of a read. -/
theorem readLoop_received (received : output <+: ms.flatMap Message.wire) :
    (∃ n ≤ ms.length, (readLoop peer exited i output).1 = (ms.take n).map Message.message ∧
      (ms.take n).flatMap Message.wire <+: output ∧
      (n = ms.length ∨ exited (i + n) = true ∨ ¬ (ms.take (n + 1)).flatMap Message.wire <+: output)) ∧
    ∀ (body : List UInt8) (message : J), body ≠ [] → peer.loads body = some message → peer.handles message = true →
      (utf8Encode ("Content-Length: ".toList ++ Nat.toDigits 10 body.length ++ ['\r'])).length ≤ peer.limit →
      ∃ m : Message peer, m.message = message ∧ m.wire = sendMessage body := by
  refine ⟨readLoop_whole received, ?_⟩
  intro body message filled loaded handled short
  exact ⟨sentMessage peer body message filled loaded handled short, rfl, wire_sentMessage⟩

end

/-- A peer that sends one object. -/
def emptyObjects : Peer Unit where
  limit := 65536
  decimals := ⟨fun c => if c.isDigit then some (c.toNat - '0'.toNat) else none, fun _ digit => if_pos digit⟩
  loads body := if body = [123, 125] then some () else none
  handles _ := true

/-- The object as it is sent. -/
def emptyObject : Message emptyObjects :=
  sentMessage emptyObjects [123, 125] () (List.cons_ne_nil _ _) (by simp [emptyObjects]) rfl (by decide)

/-- It is as sent. -/
lemma wire_emptyObject : emptyObject.wire = sendMessage [123, 125] := wire_sentMessage

/-- The output breaks off in the second message. -/
theorem readLoop_received_break :
    (∃ n ≤ [emptyObject, emptyObject].length,
      (readLoop emptyObjects (fun _ => false) 0 (sendMessage [123, 125] ++ [67, 111])).1 =
        ([emptyObject, emptyObject].take n).map Message.message ∧
      ([emptyObject, emptyObject].take n).flatMap Message.wire <+: sendMessage [123, 125] ++ [67, 111] ∧
      (n = [emptyObject, emptyObject].length ∨ (fun _ => false) (0 + n) = true ∨
        ¬ ([emptyObject, emptyObject].take (n + 1)).flatMap Message.wire <+: sendMessage [123, 125] ++ [67, 111])) ∧
    ∃ m : Message emptyObjects, m.message = () ∧ m.wire = sendMessage [123, 125] := by
  have sent : sendMessage [123, 125] ++ [67, 111] <+: [emptyObject, emptyObject].flatMap Message.wire := by
    rw [List.flatMap_cons, List.flatMap_cons, List.flatMap_nil, wire_emptyObject]
    decide
  obtain ⟨whole, writes⟩ := @readLoop_received _ _ (fun _ => false) 0 _ _ sent
  exact ⟨whole, writes [123, 125] () (List.cons_ne_nil _ _) (by simp [emptyObjects]) rfl (by decide)⟩

end OpenAgentd.Lsp.Framing
