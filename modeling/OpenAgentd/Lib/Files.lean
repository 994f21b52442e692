import Mathlib.Data.Finset.Basic
import Mathlib.Data.Finset.Filter
import Mathlib.Data.List.Infix
import OpenAgentd.Lib.FileTree

/-!
# Sets of files

Finitely many files at paths, none of which stands below another: what a directory holds, an index lists or a
snapshot stores. Directories are not kept apart from the files below them (`Folder` has them). `filter` takes some of
the files, and `lay` puts a set of files over another one, where what stands in the way of a new file goes.
-/

namespace OpenAgentd.Lib

/-- Files at paths. -/
structure Files (C : Type*) where
  get? : Path → Option C
  paths : Finset Path
  mem_paths : ∀ p, p ∈ paths ↔ get? p ≠ none
  root : get? [] = none
  apart : ∀ p q, get? p ≠ none → get? q ≠ none → p <:+ q → p = q

namespace Files
variable {C : Type*}

/-- Sets of files are equal that have the same file at every path. -/
@[ext]
lemma ext {a b : Files C} (h : ∀ p, a.get? p = b.get? p) : a = b := by
  have look : a.get? = b.get? := funext h
  have paths : a.paths = b.paths := by
    ext p
    rw [a.mem_paths, b.mem_paths, look]
  cases a
  cases b
  cases look
  cases paths
  rfl

instance [DecidableEq C] : DecidableEq (Files C) := fun a b =>
  decidable_of_iff (a.paths = b.paths ∧ ∀ p ∈ a.paths, a.get? p = b.get? p) <| by
    constructor
    · rintro ⟨paths, look⟩
      apply ext
      intro p
      by_cases mem : p ∈ a.paths
      · exact look p mem
      · have mem' := mem
        rw [paths, b.mem_paths, not_not] at mem'
        rw [a.mem_paths, not_not] at mem
        rw [mem, mem']
    · rintro rfl
      exact ⟨rfl, fun _ _ => rfl⟩

/-- No files. -/
def empty : Files C where
  get? _ := none
  paths := ∅
  mem_paths p := ⟨fun h => absurd h (Finset.notMem_empty p), fun h => absurd rfl h⟩
  root := rfl
  apart _ _ h := absurd rfl h

/-- One file. -/
def single (name : String) (dir : Path) (c : C) : Files C where
  get? q := if q = name :: dir then some c else none
  paths := {name :: dir}
  mem_paths q := by
    rw [Finset.mem_singleton]
    by_cases e : q = name :: dir
    · exact ⟨fun _ => by rw [if_pos e]; exact Option.some_ne_none c, fun _ => e⟩
    · exact ⟨fun h => absurd h e, fun h => absurd (if_neg e) h⟩
  root := if_neg (List.cons_ne_nil name dir).symm
  apart q r hq hr _ := by
    have eq : ∀ q, (if q = name :: dir then some c else none) ≠ none → q = name :: dir := fun q h => by
      by_contra e
      exact h (if_neg e)
    rw [eq q hq, eq r hr]

/-- The files at the paths that meet `P`. -/
def filter (P : Path → Prop) [DecidablePred P] (a : Files C) : Files C where
  get? p := if P p then a.get? p else none
  paths := a.paths.filter P
  mem_paths p := by
    rw [Finset.mem_filter, a.mem_paths]
    by_cases h : P p
    · rw [if_pos h]
      exact ⟨And.left, fun some => ⟨some, h⟩⟩
    · rw [if_neg h]
      exact ⟨fun some => absurd some.2 h, fun none => absurd rfl none⟩
  root := by rw [a.root, ite_self]
  apart p q hp hq below := by
    have some : ∀ p, (if P p then a.get? p else none) ≠ none → a.get? p ≠ none := fun p h none => by
      rw [none, ite_self] at h
      exact h rfl
    exact a.apart p q (some p hp) (some q hq) below

/-- The paths that are a file's, lead to one, or lie below one. -/
def Meets (a : Files C) (p : Path) : Prop := ∃ q ∈ a.paths, q <:+ p ∨ p <:+ q

instance (a : Files C) (p : Path) : Decidable (a.Meets p) := inferInstanceAs (Decidable (∃ q ∈ a.paths, _))

section
variable {a b old new : Files C} {p q : Path} {c : C}

/-- A file of a part. -/
lemma get?_filter {P : Path → Prop} [DecidablePred P] : (a.filter P).get? p = if P p then a.get? p else none := rfl

/-- A part has the files that it is made of. -/
lemma filter_of {P : Path → Prop} [DecidablePred P] (h : P p) : (a.filter P).get? p = a.get? p := if_pos h

/-- A part has no other file. -/
lemma filter_of_not {P : Path → Prop} [DecidablePred P] (h : ¬ P p) : (a.filter P).get? p = none := if_neg h

/-- The paths of a part. -/
lemma filter_ne_none {P : Path → Prop} [DecidablePred P] : (a.filter P).get? p ≠ none ↔ P p ∧ a.get? p ≠ none := by
  by_cases h : P p
  · rw [filter_of h]
    exact ⟨fun some => ⟨h, some⟩, And.right⟩
  · rw [filter_of_not h]
    exact ⟨fun none => absurd rfl none, fun some => absurd some.1 h⟩

/-- A file meets its own path. -/
lemma Meets.of_mem (h : a.get? p ≠ none) : a.Meets p :=
  ⟨p, (a.mem_paths p).mpr h, .inl List.suffix_rfl⟩

/-- Among the files of one set, the files of a part meet only themselves. -/
lemma Meets.mem (part : ∀ q, a.get? q ≠ none → b.get? q ≠ none) (h : b.get? p ≠ none) (meets : a.Meets p) :
    a.get? p ≠ none := by
  obtain ⟨q, mem, below⟩ := meets
  rw [a.mem_paths] at mem
  cases below with
  | inl below => rwa [← b.apart q p (part q mem) h below]
  | inr below => rwa [b.apart p q h (part q mem) below]

end

/-- The files of `new` over those of `old`: what stands in their way goes. -/
def lay (old new : Files C) : Files C where
  get? p := if new.Meets p then new.get? p else old.get? p
  paths := new.paths ∪ old.paths.filter fun p => ¬ new.Meets p
  mem_paths p := by
    rw [Finset.mem_union, Finset.mem_filter, new.mem_paths, old.mem_paths]
    by_cases h : new.Meets p
    · rw [if_pos h]
      exact ⟨fun some => some.elim id fun some => absurd h some.2, .inl⟩
    · rw [if_neg h]
      exact ⟨fun some => some.elim (fun some => absurd (.of_mem some) h) And.left, fun some => .inr ⟨some, h⟩⟩
  root := by rw [old.root, new.root, ite_self]
  apart p q hp hq below := by
    by_cases meets : new.Meets p
    · rw [if_pos meets] at hp
      have meets' : new.Meets q := ⟨p, (new.mem_paths p).mpr hp, .inl below⟩
      rw [if_pos meets'] at hq
      exact new.apart p q hp hq below
    · rw [if_neg meets] at hp
      by_cases meets' : new.Meets q
      · rw [if_pos meets'] at hq
        exact absurd ⟨q, (new.mem_paths q).mpr hq, .inr below⟩ meets
      · rw [if_neg meets'] at hq
        exact old.apart p q hp hq below

section
variable {a b old new : Files C} {p q : Path} {c : C}

/-- Where new files stand or lead to, there is what the new ones have. -/
lemma lay_of_meets (h : new.Meets p) : (old.lay new).get? p = new.get? p := if_pos h

/-- Elsewhere the old files stay. -/
lemma lay_of_not_meets (h : ¬ new.Meets p) : (old.lay new).get? p = old.get? p := if_neg h

/-- A new file stands. -/
lemma lay_of_mem (h : new.get? p ≠ none) : (old.lay new).get? p = new.get? p := lay_of_meets (.of_mem h)

end

end Files

end OpenAgentd.Lib
