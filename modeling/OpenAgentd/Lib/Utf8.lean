import Mathlib.Data.List.Basic
import Mathlib.Tactic.Lemma

/-!
# UTF-8 with errors

Bytes are cut into characters and ill-formed parts (`utf8Parts`): at a byte that starts no character the longest part
that could have started one is taken as one error. The decoders differ in what they make of an error: `decodeStrict`
fails, `decodeWith bad` puts `bad` in its place. Encoded text is decoded as it was, whatever comes behind it
(`utf8Parts_encode_append`), and only encoded text is decoded without an error (`decodeStrict_eq_some`).
-/

namespace OpenAgentd.Lib

/-- `s.encode()` -/
def utf8Encode (s : List Char) : List UInt8 := s.flatMap String.utf8EncodeChar

/-- The character whose encoding the bytes start with. -/
def firstChar (bytes : List UInt8) : Option Char := bytes.toByteArray.utf8DecodeChar? 0

/-- A byte that may follow the first byte of a character. -/
def mayFollow (first second : UInt8) : Bool :=
  if first = 0xe0 then 0xa0 ≤ second && second ≤ 0xbf
  else if first = 0xed then 0x80 ≤ second && second ≤ 0x9f
  else if first = 0xf0 then 0x90 ≤ second && second ≤ 0xbf
  else if first = 0xf4 then 0x80 ≤ second && second ≤ 0x8f
  else 0xc2 ≤ first && first ≤ 0xf4 && 0x80 ≤ second && second ≤ 0xbf

/-- How many bytes the error at the start of some bytes has. -/
def illFormed : List UInt8 → Nat
  | first :: second :: rest =>
    if first < 0xe0 || !mayFollow first second then 1
    else if first < 0xf0 then 2
    else match rest with
      | third :: _ => if 0x80 ≤ third && third ≤ 0xbf then 3 else 2
      | [] => 2
  | _ => 1

/-- The characters and the errors, behind some bytes that are read already. -/
def utf8PartsFrom : Nat → List UInt8 → List (Option Char)
  | _, [] => []
  | k + 1, _ :: bytes => utf8PartsFrom k bytes
  | 0, b :: bytes =>
    match firstChar (b :: bytes) with
    | some c => some c :: utf8PartsFrom (c.utf8Size - 1) bytes
    | none => none :: utf8PartsFrom (illFormed (b :: bytes) - 1) bytes

def utf8Parts (bytes : List UInt8) : List (Option Char) := utf8PartsFrom 0 bytes

/-- `decode("utf-8")` -/
def decodeStrict (bytes : List UInt8) : Option (List Char) :=
  if (utf8Parts bytes).all Option.isSome then some ((utf8Parts bytes).filterMap id) else none

/-- `decode("utf-8", errors=…)`, where an error becomes `bad`. -/
def decodeWith (bad : List Char) (bytes : List UInt8) : List Char :=
  (utf8Parts bytes).flatMap fun part => part.elim bad ([·])

section
variable {c : Char} {s t : List Char} {bytes rest : List UInt8}

/-- An encoded character is read. -/
lemma firstChar_encode_append (c : Char) (rest : List UInt8) :
    firstChar (String.utf8EncodeChar c ++ rest) = some c := by
  rw [firstChar, List.toByteArray_append]
  exact ByteArray.utf8DecodeChar?_utf8EncodeChar_append

/-- What is read was encoded. -/
lemma eq_of_firstChar (h : firstChar bytes = some c) : ∃ rest, bytes = String.utf8EncodeChar c ++ rest := by
  obtain ⟨l, e⟩ := ByteArray.exists_of_utf8DecodeChar?_eq_some h
  refine ⟨l.data.toList, ?_⟩
  have lists := congrArg (fun b => b.data.toList) e
  simpa using lists

/-- The parts from an offset. -/
lemma utf8PartsFrom_eq (k : Nat) (bytes : List UInt8) : utf8PartsFrom k bytes = utf8Parts (bytes.drop k) := by
  induction bytes generalizing k with
  | nil => rw [List.drop_nil, utf8Parts, utf8PartsFrom, utf8PartsFrom]
  | cons b bytes ih =>
    cases k with
    | zero => rfl
    | succ k =>
      rw [utf8PartsFrom, ih, List.drop_succ_cons]

/-- A character at the start is read. -/
lemma utf8Parts_char_append (c : Char) (rest : List UInt8) :
    utf8Parts (String.utf8EncodeChar c ++ rest) = some c :: utf8Parts rest := by
  have len := String.length_utf8EncodeChar c
  have first := firstChar_encode_append c rest
  cases e : String.utf8EncodeChar c with
  | nil =>
    rw [e] at len
    have pos := c.utf8Size_pos
    rw [← len] at pos
    cases pos
  | cons b bs =>
    rw [e] at first len
    rw [List.cons_append] at first ⊢
    rw [utf8Parts, utf8PartsFrom, first]
    simp only
    rw [utf8PartsFrom_eq, ← len, List.length_cons, Nat.add_sub_cancel, List.drop_left]

/-- Encoded text is read as it was. -/
lemma utf8Parts_encode_append (s : List Char) (rest : List UInt8) :
    utf8Parts (utf8Encode s ++ rest) = s.map some ++ utf8Parts rest := by
  induction s with
  | nil => rfl
  | cons c s ih =>
    rw [utf8Encode, List.flatMap_cons, List.append_assoc, utf8Parts_char_append]
    exact congrArg (some c :: ·) ih

/-- An encoded text is its characters. -/
lemma utf8Parts_encode (s : List Char) : utf8Parts (utf8Encode s) = s.map some := by
  have whole := utf8Parts_encode_append s []
  rwa [List.append_nil, show utf8Parts [] = [] from rfl, List.append_nil] at whole

/-- An encoded text is read back. -/
lemma decodeStrict_encode (s : List Char) : decodeStrict (utf8Encode s) = some s := by
  rw [decodeStrict, utf8Parts_encode, if_pos (by simp)]
  simp

/-- Encoded text in front. -/
lemma decodeWith_encode_append (bad : List Char) (s : List Char) (rest : List UInt8) :
    decodeWith bad (utf8Encode s ++ rest) = s ++ decodeWith bad rest := by
  rw [decodeWith, utf8Parts_encode_append, List.flatMap_append, List.flatMap_map]
  exact congrArg (· ++ _) (List.flatMap_singleton' s)

/-- An encoded text is read back. -/
lemma decodeWith_encode (bad : List Char) (s : List Char) : decodeWith bad (utf8Encode s) = s := by
  have whole := decodeWith_encode_append bad s []
  rwa [List.append_nil, show decodeWith bad [] = [] from rfl, List.append_nil] at whole

/-- Texts in a row. -/
lemma utf8Encode_append (s t : List Char) : utf8Encode (s ++ t) = utf8Encode s ++ utf8Encode t := List.flatMap_append

/-- A bad part is not empty. -/
lemma illFormed_pos (bytes : List UInt8) : 0 < illFormed bytes := by
  unfold illFormed
  split
  · split
    · decide
    · split
      · decide
      · split
        · split <;> decide
        · decide
  · decide

/-- An error at the start is read. -/
lemma utf8Parts_illFormed (some_ : bytes ≠ []) (bad : firstChar bytes = none) :
    utf8Parts bytes = none :: utf8Parts (bytes.drop (illFormed bytes)) := by
  cases bytes with
  | nil => exact absurd rfl some_
  | cons b bytes =>
    obtain ⟨k, len⟩ := Nat.exists_eq_succ_of_ne_zero (Nat.ne_of_gt (illFormed_pos (b :: bytes)))
    rw [utf8Parts, utf8PartsFrom, bad]
    simp only
    rw [utf8PartsFrom_eq, len, Nat.succ_sub_one, List.drop_succ_cons]

/-- The recursion of the decoder. -/
lemma utf8_induction {P : List UInt8 → Prop} (nil : P []) (char : ∀ c rest, P rest → P (String.utf8EncodeChar c ++ rest))
    (bad : ∀ bytes, bytes ≠ [] → firstChar bytes = none → P (bytes.drop (illFormed bytes)) → P bytes) :
    ∀ bytes, P bytes := by
  intro bytes
  induction len : bytes.length using Nat.strongRecOn generalizing bytes with
  | ind n ih =>
    by_cases empty : bytes = []
    · exact empty ▸ nil
    · cases first : firstChar bytes with
      | some c =>
        obtain ⟨rest, rfl⟩ := eq_of_firstChar first
        have shorter : rest.length < n := by
          have pos := c.utf8Size_pos
          rw [← len, List.length_append, String.length_utf8EncodeChar]
          omega
        exact char c rest (ih _ shorter rest rfl)
      | none =>
        have shorter : (bytes.drop (illFormed bytes)).length < n := by
          have pos := illFormed_pos bytes
          have some_ := List.length_pos_of_ne_nil empty
          rw [List.length_drop, ← len]
          omega
        exact bad bytes empty first (ih _ shorter _ rfl)

/-- A character in front. -/
lemma decodeWith_char_append (bad : List Char) (c : Char) (rest : List UInt8) :
    decodeWith bad (String.utf8EncodeChar c ++ rest) = c :: decodeWith bad rest := by
  rw [decodeWith, utf8Parts_char_append]
  rfl

/-- A bad part in front. -/
lemma decodeWith_illFormed (bad : List Char) (some_ : bytes ≠ []) (first : firstChar bytes = none) :
    decodeWith bad bytes = bad ++ decodeWith bad (bytes.drop (illFormed bytes)) := by
  rw [decodeWith, utf8Parts_illFormed some_ first]
  rfl

/-- Text at the start of what was decoded has its bytes at the start, unless it has the character that stands for the
errors. -/
lemma encode_prefix_of_decode {e : Char} : ∀ bytes, ∀ t : List Char, e ∉ t → t <+: decodeWith [e] bytes →
    utf8Encode t <+: bytes := by
  apply utf8_induction
  · intro t _ front
    rw [show decodeWith [e] [] = [] from rfl, List.prefix_nil] at front
    rw [front]
    exact List.nil_prefix
  · intro c rest ih t clean front
    rw [decodeWith_char_append] at front
    cases t with
    | nil => exact List.nil_prefix
    | cons d t =>
      obtain ⟨same, behind⟩ := List.cons_prefix_cons.mp front
      rw [same, utf8Encode, List.flatMap_cons, List.prefix_append_right_inj]
      exact ih t (fun mem => clean (List.mem_cons_of_mem _ mem)) behind
  · intro bytes some_ first ih t clean front
    rw [decodeWith_illFormed _ some_ first] at front
    cases t with
    | nil => exact List.nil_prefix
    | cons d t =>
      obtain ⟨rfl, -⟩ := List.cons_prefix_cons.mp front
      exact absurd List.mem_cons_self clean

/-- Text in what was decoded has its bytes there, unless it has the character that stands for the errors. -/
lemma encode_infix_of_decode {e : Char} {t : List Char} (clean : e ∉ t) :
    ∀ bytes, t <:+: decodeWith [e] bytes → utf8Encode t <:+: bytes := by
  apply utf8_induction
  · intro inside
    rw [show decodeWith [e] [] = [] from rfl, List.infix_nil] at inside
    rw [inside]
    exact List.nil_infix
  · intro c rest ih inside
    rw [decodeWith_char_append, List.infix_cons_iff] at inside
    cases inside with
    | inl front =>
      have front := encode_prefix_of_decode (String.utf8EncodeChar c ++ rest) t clean
        (by rw [decodeWith_char_append]; exact front)
      exact front.isInfix
    | inr later => exact (ih later).trans (List.suffix_append _ rest).isInfix
  · intro bytes some_ first ih inside
    rw [decodeWith_illFormed _ some_ first, List.singleton_append, List.infix_cons_iff] at inside
    cases inside with
    | inl front =>
      cases t with
      | nil => exact List.nil_infix
      | cons d t =>
        obtain ⟨rfl, -⟩ := List.cons_prefix_cons.mp front
        exact absurd List.mem_cons_self clean
    | inr later => exact (ih later).trans (List.drop_suffix _ bytes).isInfix

end

end OpenAgentd.Lib
