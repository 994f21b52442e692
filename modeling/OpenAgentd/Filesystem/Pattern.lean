import Mathlib.Tactic.Lemma

/-!
# Wildcard patterns

The two wildcard languages of the file tools. `fnmatch` is that of the deny patterns and of file names: `*` crosses
every character. `fullMatch` is that of paths: `*` and `?` stay within a component and `**` spans components. Both
translate a pattern into tokens, which are matched against the whole text.
-/

namespace OpenAgentd.Filesystem

/-- What a pattern is translated into. -/
inductive Token where
  | lit (c : Char)
  /-- One character in a set of ranges, or outside of it. -/
  | set (negated : Bool) (ranges : List (Char × Char))
  /-- One character, but not `stop`. -/
  | one (stop : Option Char)
  /-- Any number of characters, but not `stop`. -/
  | many (stop : Option Char)
  /-- Any number of components with the slash behind them. -/
  | segments
  deriving DecidableEq

/-- The ranges between the brackets; a hyphen at either end stands for itself. -/
def setRanges : List Char → List (Char × Char)
  | a :: '-' :: b :: s => (a, b) :: setRanges s
  | a :: s => (a, a) :: setRanges s
  | [] => []

/-- The set behind an opening bracket and what follows it. The first character cannot close the set. -/
def setOf (s : List Char) : Option (Token × List Char) :=
  let (negated, s) := if s.head? = some '!' then (true, s.tail) else (false, s)
  match s with
  | [] => none
  | c :: s =>
    let body := s.takeWhile (· ≠ ']')
    match s.drop body.length with
    | [] => none
    | _ :: rest => some (.set negated (setRanges (c :: body)), rest)

/-- `fnmatch.translate` of at most so many characters, with the character that wildcards do not cross. -/
def translate (stop : Option Char) : Nat → List Char → List Token
  | 0, _ => []
  | _, [] => []
  | k + 1, '*' :: s => .many stop :: translate stop k s
  | k + 1, '?' :: s => .one stop :: translate stop k s
  | k + 1, '[' :: s =>
    match setOf s with
    | some (set, rest) => set :: translate stop k rest
    | none => .lit '[' :: translate stop k s
  | k + 1, c :: s => .lit c :: translate stop k s

/-- Any number of characters that are not `stop`, and then `k`. -/
def manyThen (k : List Char → Bool) (stop : Option Char) : List Char → Bool
  | [] => k []
  | c :: s => k (c :: s) || (some c ≠ stop && manyThen k stop s)

/-- Behind one of the slashes `k`. -/
def slashThen (k : List Char → Bool) : List Char → Bool
  | [] => false
  | c :: s => (c = '/' && k s) || slashThen k s

/-- One token, and then `k`. -/
def Token.andThen (k : List Char → Bool) : Token → List Char → Bool
  | .lit c, s => s.head? = some c && k s.tail
  | .set negated ranges, s =>
    s.head?.any (fun c => (ranges.any fun r => r.1 ≤ c ∧ c ≤ r.2) ≠ negated) && k s.tail
  | .one stop, s => s.head?.any (fun c => some c ≠ stop) && k s.tail
  | .many stop, s => manyThen k stop s
  | .segments, s => k s || (!s.isEmpty && slashThen k s.tail)

/-- The tokens match the whole text. -/
def accepts : List Token → List Char → Bool
  | [], s => s.isEmpty
  | t :: ts, s => t.andThen (accepts ts) s

/-- `fnmatch.fnmatchcase`. -/
def fnmatch (name pattern : String) : Bool := accepts (translate none pattern.length pattern.toList) name.toList

/-- The tokens of the components of a path pattern. -/
def translateParts : List (List Char) → List Token
  | [] => []
  | [part] =>
    if part = ['*'] then [.one (some '/'), .many (some '/')]
    else if part = ['*', '*'] then [.many none]
    else translate (some '/') part.length part
  | part :: next :: parts =>
    (if part = ['*'] then [.one (some '/'), .many (some '/'), .lit '/']
      else if part = ['*', '*'] then if next = ['*', '*'] then [] else [.segments]
      else translate (some '/') part.length part ++ [.lit '/']) ++ translateParts (next :: parts)

/-- `PurePath.full_match` of a relative path. -/
def fullMatch (rel pattern : String) : Bool := accepts (translateParts (pattern.toList.splitOn '/')) rel.toList

example : fullMatch "src/app/main.py" "src/**/*.py" = true ∧ fullMatch "src/app/main.py" "src/*.py" = false ∧
    fnmatch "/home/u/app/.env" "**/.env" = true ∧ fnmatch "a]b" "a[]!]b" = true := by decide

end OpenAgentd.Filesystem
