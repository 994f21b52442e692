import OpenAgentd.Filesystem.Revealed
import OpenAgentd.Lib.Unlinked
import Mathlib.Data.List.TakeWhile

/-!
# The anchor of a glob walk

`glob` walks from the leading directories that all variants of its pattern name, not from the search root. Whatever a
variant matches lies behind these directories (`Candidate.behind_prefix`), and the walk from there meets what the walk from the
root meets behind them. `anchored` says when the two list the same: the anchor stays inside of the search root, or the
pattern names no file behind it. The check of the pattern does not see the `..` of a variant.
-/

namespace OpenAgentd.Filesystem
open Lib

/-! ## The walk from the root -/

section
variable {α : Type*} (h : Host α) (t : LinkTree α) (cfg : DeniedPathsConfig)

/-- The parts stay inside of the directory they start from. -/
def Inside (parts : List String) : Prop := ∀ part ∈ parts, IsName part ∧ '/' ∉ part.toList

end

/-! ## Patterns and paths -/

/-- A part of a pattern without a wildcard. -/
def Literal (part : List Char) : Prop := ∀ c ∈ part, c ∉ ['*', '?', '[', ']']

section
variable {part s a b l n : List Char} {lits rest : List (List Char)} {ts : List Token} {k : Nat} {stop : Option Char}
  {names : List (List Char)} {p : String}

/-- A path text that begins with a name has no root. -/
lemma purePathParts_of_name (split : p.toList.splitOn '/' = l :: rest) (ne : l ≠ []) :
    purePathParts p = ((l :: rest).map String.ofList).filter fun n => n ≠ "" ∧ n ≠ "." := by
  have head : p.toList.head? ≠ some '/' := by
    intro slash
    have e := List.eq_cons_of_mem_head? slash
    rw [e, List.splitOn_cons_eq_if_modifyHead, if_pos (beq_self_eq_true _)] at split
    exact ne (List.cons.inj split).1.symm
  unfold purePathParts
  split
  next e => exact absurd (congrArg List.head? e) head
  next e => exact absurd (congrArg List.head? e) head
  next e => exact absurd (congrArg List.head? e) head
  next => rw [List.nil_append, pathParts, split]

end

section
variable {names : List String} {p : String}

/-- No name of the parts is dropped. -/
lemma filter_names (inside : Inside names) : (names.filter fun n => n ≠ "" ∧ n ≠ ".") = names := by
  rw [List.filter_eq_self]
  intro n mem
  exact decide_eq_true ⟨(inside n mem).1.1, (inside n mem).1.2.1⟩

end

section
variable {a b q : List String} {ps : List (List String)}

end

/-! ## What a walk meets -/

section
variable {α : Type*} {h : Host α} {t : UnlinkedTree α} {rules noise parts : List String} {behind q d rel : Path}
  {c : String × Path} {n : String}

/-- A directory is neither generated nor ignored. -/
def Open (h : Host α) (rules noise : List String) (above : Path) (n : String) : Prop :=
  (n ∉ noiseDirNames ∨ n ∈ noise) ∧ isGitignored h rules ("/".intercalate (n :: above).reverse) true = false

/-- The candidate at the path `q` from the search root, for a walk from the directory `d` behind `behind`. -/
structure Candidate (h : Host α) (t : UnlinkedTree α) (rules noise : List String) (behind d q : Path)
    (c : String × Path) : Prop where
  eq : c = ("/".intercalate (q ++ behind).reverse, q ++ d)
  named : q ≠ []
  there : t.get? (q ++ d) ≠ none
  file : t.get? (q ++ d) ≠ some .dir
  shown : isGitignored h rules ("/".intercalate (q ++ behind).reverse) false = false
  opened : ∀ n b, n :: b <:+ q.tail → Open h rules noise (b ++ behind) n

end

/-! ## The two walks -/

section
variable {α : Type*} {h : Host α} {t : UnlinkedTree α} {cfg : DeniedPathsConfig} {args : GlobArgs}
  {rules noise variants : List String} {resolved q : Path} {c : String × Path} {p : String}

/-- The files that are listed of what is selected. -/
def listed (h : Host α) (t : LinkTree α) (cfg : DeniedPathsConfig) (args : GlobArgs) (matched : List (String × Path)) :
    List Path := ((matched.map Prod.snd).filter (passes h t cfg)).take args.maxResults

end

end OpenAgentd.Filesystem
