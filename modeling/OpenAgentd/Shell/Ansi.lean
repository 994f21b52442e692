import Mathlib.Data.List.Basic
import Mathlib.Tactic.Lemma

/-!
# Escape sequences

`_strip_ansi` and `_strip_ansi_bytes` (`builtin/shell.py`): one expression, on characters and on bytes.
-/

namespace OpenAgentd.Shell

def esc : Nat := 0x1b
def bel : Nat := 0x07

/-- `[0-?]` -/
def isParameter (c : Nat) : Bool := 0x30 ≤ c && c ≤ 0x3f

/-- From the space to the slash. -/
def isIntermediate (c : Nat) : Bool := 0x20 ≤ c && c ≤ 0x2f

/-- `[@-~]` -/
def isFinal (c : Nat) : Bool := 0x40 ≤ c && c ≤ 0x7e

/-- `[@-Z\\-_]` -/
def isFe (c : Nat) : Bool := (0x40 ≤ c && c ≤ 0x5a) || (0x5c ≤ c && c ≤ 0x5f)

/-- The length of parameters, intermediates and the final character. -/
def csiLength (s : List Nat) : Option Nat :=
  match (s.dropWhile isParameter).dropWhile isIntermediate with
  | c :: rest => if isFinal c then some (s.length - rest.length) else none
  | [] => none

/-- The length of `.*? (?: \x07 | \x1b \\ )` -/
def oscLength : List Nat → Option Nat
  | [] => none
  | c :: s =>
    if c = bel then some 1
    else if c = esc ∧ s.head? = some 0x5c then some 2
    else (oscLength s).map (· + 1)

/-- The length of the match of `_ANSI_ESCAPE_RE` at the start of a text; `0` where there is none. -/
def escapeLength : List Nat → Nat
  | first :: second :: s =>
    if first ≠ esc then 0
    else if second = 0x5b then (csiLength s).elim 0 (· + 2)
    -- an operating system command that does not end is still a two-byte escape
    else if second = 0x5d then (oscLength s).elim 2 (· + 2)
    else if isFe second then 2
    else 0
  | _ => 0

section
variable {α : Type*} (code : α → Nat)

/-- The text without its escape sequences, behind some characters that are removed. -/
def stripFrom : Nat → List α → List α
  | _, [] => []
  | k + 1, _ :: s => stripFrom k s
  | 0, c :: s =>
    match escapeLength ((c :: s).map code) with
    | 0 => c :: stripFrom 0 s
    | n + 1 => stripFrom n s

/-- `_ANSI_ESCAPE_RE.sub("", text)` -/
def strip (s : List α) : List α := stripFrom code 0 s

end

/-- `_strip_ansi` -/
def stripAnsi (text : List Char) : List Char := strip Char.toNat text

/-- `_strip_ansi_bytes` -/
def stripAnsiBytes (data : List UInt8) : List UInt8 := strip UInt8.toNat data

section
variable {α : Type*} {code : α → Nat} {c : α} {s t : List α}

/-- Other units begin no escape. -/
lemma escapeLength_of_ne {c : Nat} {s : List Nat} (other : c ≠ esc) : escapeLength (c :: s) = 0 := by
  cases s with
  | nil => rfl
  | cons d s => rw [escapeLength, if_pos other]

/-- The empty text. -/
lemma strip_nil : strip code [] = [] := rfl

/-- A plain unit stays. -/
lemma strip_cons (other : code c ≠ esc) : strip code (c :: s) = c :: strip code s := by
  rw [strip, stripFrom, List.map_cons, escapeLength_of_ne other]
  rfl

/-- A text without `ESC` in front is left alone. -/
lemma strip_append (none : ∀ c ∈ s, code c ≠ esc) : strip code (s ++ t) = s ++ strip code t := by
  induction s with
  | nil => rfl
  | cons c s ih =>
    rw [List.cons_append, strip_cons (none c List.mem_cons_self), ih fun c mem => none c (List.mem_cons_of_mem _ mem)]
    rfl

/-- Without escapes nothing changes. -/
lemma strip_eq_self (none : ∀ c ∈ s, code c ≠ esc) : strip code s = s := by
  have whole := strip_append (t := []) none
  rwa [List.append_nil, strip_nil, List.append_nil] at whole

end

/-- A link is removed with its address, and an unended command with its first two characters only. -/
example : stripAnsi "a\x1b[1;31mb\x1b]8;;u\x1b\\c\x1b]d".toList = "abcd".toList := by decide

end OpenAgentd.Shell
