import OpenAgentd.Lib.Links

/-!
# Forcing a file into a tree

`graft` puts a file or a link at a path whatever is there: what stands above becomes a directory, what stands below
goes. `unlink` takes a file or a link away.
-/

namespace OpenAgentd.Lib

namespace Dict
variable {κ α : Type*} [DecidableEq κ]

/-- The entries whose keys are kept. -/
def restrict (d : Dict κ α) (keep : κ → Bool) : Dict κ α where
  entries := d.entries.filter fun e => keep e.1
  distinct := d.distinct.sublist (List.filter_sublist.map _)

/-- A restricted dictionary. -/
lemma get?_restrict {d : Dict κ α} {keep : κ → Bool} {k : κ} :
    (d.restrict keep).get? k = if keep k then d.get? k else none := by
  apply Option.ext
  intro v
  rw [get?_eq_some, restrict, List.mem_filter]
  split
  next kept => rw [get?_eq_some, and_iff_left kept]
  next left => exact iff_of_false (fun both => left both.2) (Option.some_ne_none v).symm

/-- The path and what is above are directories. -/
def setDirs {F : Type*} (d : Dict Path (Node F)) : Path → Dict Path (Node F)
  | [] => d.set [] .dir
  | n :: p => (d.setDirs p).set (n :: p) .dir

/-- Directories set on the way. -/
lemma get?_setDirs {F : Type*} {d : Dict Path (Node F)} {p q : Path} :
    (d.setDirs p).get? q = if q <:+ p then some .dir else d.get? q := by
  induction p with
  | nil =>
    rw [setDirs, get?_set]
    by_cases root : q = []
    · rw [if_pos root, root, if_pos (List.suffix_refl _)]
    · rw [if_neg root, if_neg fun above => root (List.suffix_nil.mp above)]
  | cons n p ih =>
    rw [setDirs, get?_set, ih]
    by_cases own : q = n :: p
    · rw [if_pos own, own, if_pos (List.suffix_refl _)]
    rw [if_neg own]
    by_cases above : q <:+ p
    · rw [if_pos above, if_pos (above.trans (List.suffix_cons n p))]
    · rw [if_neg above, if_neg fun up => above ((List.suffix_cons_iff.mp up).resolve_left own)]

end Dict

namespace FileTree
variable {F : Type*} {t : FileTree F} {f : F} {n : String} {p q : Path}

/-- What is found after a file was put at the path. -/
def grafted (t : FileTree F) (f : F) (p q : Path) : Option (Node F) :=
  if q = p then some (.file f) else if q <:+ p then some .dir else if p <:+ q then none else t.get? q

/-- The nodes after a file was put at the path. -/
def graftNodes (t : FileTree F) (f : F) (n : String) (d : Path) : Dict Path (Node F) :=
  ((t.nodes.restrict fun q => !(n :: d).isSuffixOf q).setDirs d).set (n :: d) (.file f)

/-- The nodes after a graft. -/
lemma get?_graftNodes : (t.graftNodes f n p).get? q = t.grafted f (n :: p) q := by
  rw [graftNodes, Dict.get?_set, Dict.get?_setDirs, Dict.get?_restrict, grafted]
  by_cases own : q = n :: p
  · rw [if_pos own, if_pos own]
  rw [if_neg own, if_neg own]
  by_cases above : q <:+ p
  · rw [if_pos above, if_pos (above.trans (List.suffix_cons n p))]
  rw [if_neg above, if_neg fun up => above ((List.suffix_cons_iff.mp up).resolve_left own)]
  by_cases below : (n :: p) <:+ q
  · rw [if_pos below, if_neg]
    rw [List.isSuffixOf_iff_suffix.mpr below]
    exact Bool.false_ne_true
  · rw [if_neg below, if_pos]
    · rfl
    · rw [Bool.not_eq_true', ← Bool.not_eq_true, List.isSuffixOf_iff_suffix]
      exact below

/-- Above a node is a directory. -/
lemma grafted_closed {m : String} (there : t.grafted f (n :: p) (m :: q) ≠ none) : t.grafted f (n :: p) q = some .dir := by
  unfold grafted at there ⊢
  by_cases above : q <:+ p
  · have other : q ≠ n :: p := by
      intro e
      have len := above.length_le
      rw [e, List.length_cons] at len
      omega
    rw [if_neg other, if_pos (above.trans (List.suffix_cons n p))]
  have aside : ¬ m :: q <:+ n :: p := by
    intro up
    cases List.suffix_cons_iff.mp up with
    | inl e =>
      cases e
      exact above (List.suffix_refl _)
    | inr up => exact above ((List.suffix_cons m q).trans up)
  have own : m :: q ≠ n :: p := fun e => aside (e ▸ List.suffix_refl _)
  rw [if_neg own, if_neg aside] at there
  by_cases below : (n :: p) <:+ m :: q
  · rw [if_pos below] at there
    exact absurd rfl there
  rw [if_neg below] at there
  have apart : ¬ (n :: p) <:+ q := fun up => below (up.trans (List.suffix_cons m q))
  have other : q ≠ n :: p := fun e => apart (e ▸ List.suffix_refl q)
  rw [if_neg other, if_neg fun up => above ((List.suffix_cons_iff.mp up).resolve_left other), if_neg apart]
  exact t.closed m q there

/-- A file at the path, whatever was there. The root stays a directory. -/
def graft (t : FileTree F) (f : F) : Path → FileTree F
  | [] => t
  | n :: p =>
    { nodes := t.graftNodes f n p
      root := by
        rw [get?_graftNodes, grafted, if_neg (List.cons_ne_nil n p).symm, if_pos (List.nil_suffix)]
      closed := by
        intro m q there
        rw [get?_graftNodes] at there ⊢
        exact grafted_closed there }

/-- The tree after a graft. -/
lemma get?_graft (some : p ≠ []) : (t.graft f p).get? q = t.grafted f p q := by
  cases p with
  | nil => exact absurd rfl some
  | cons n p => exact get?_graftNodes

end FileTree

namespace LinkTree
variable {α : Type*} {t t' : LinkTree α} {e : Entry α} {p q : Path}

/-- What is no directory at a path that goes through no link. -/
def leaf? (t : LinkTree α) (p : Path) : Option (Entry α) :=
  match t.get? p with
  | some (.file e) => some e
  | _ => none

/-- A file or a link at the path, whatever was there. -/
def graft (t : LinkTree α) (e : Entry α) (p : Path) : LinkTree α :=
  if named : ∀ n ∈ p, IsName n then
    ⟨t.tree.graft e p, by
      intro n q there
      by_cases root : p = []
      · rw [root] at there
        exact t.named n q there
      rw [FileTree.get?_graft root, FileTree.grafted] at there
      split at there
      next own => exact named n (own ▸ List.mem_cons_self)
      split at there
      next above => exact named n (above.subset List.mem_cons_self)
      split at there
      · exact absurd rfl there
      · exact t.named n q there⟩
  else t

/-- Only the path is filled; what is in its way goes. -/
lemma leaf?_graft (named : ∀ n ∈ p, IsName n) (some_ : p ≠ []) :
    (t.graft e p).leaf? q = if q = p then some e else if q <:+ p ∨ p <:+ q then none else t.leaf? q := by
  have found : (t.graft e p).get? q = t.tree.grafted e p q := by
    rw [graft, dif_pos named]
    exact FileTree.get?_graft some_
  rw [leaf?, found, FileTree.grafted]
  by_cases own : q = p
  · rw [if_pos own, if_pos own]
  rw [if_neg own, if_neg own]
  by_cases above : q <:+ p
  · rw [if_pos above, if_pos (.inl above)]
  rw [if_neg above]
  by_cases below : p <:+ q
  · rw [if_pos below, if_pos (.inr below)]
  · rw [if_neg below, if_neg (not_or.mpr ⟨above, below⟩)]
    rfl

/-- `unlink` at a path that goes through no link. -/
def unlink (t : LinkTree α) (p : Path) : Option (LinkTree α) :=
  match h : t.tree.unlink p with
  | some tree => some ⟨tree, by
      intro n q there
      rw [(FileTree.unlink_some h).2] at there
      split at there
      · exact absurd rfl there
      · exact t.named n q there⟩
  | none => none

/-- What an unlink does. -/
lemma unlink_some (h : t.unlink p = some t') :
    t.leaf? p ≠ none ∧ t'.leaf? q = if q = p then none else t.leaf? q := by
  unfold unlink at h
  split at h
  next tree removed =>
    cases h
    obtain ⟨⟨f, file⟩, found⟩ := FileTree.unlink_some (q := q) removed
    have there : t.leaf? p = some f := by
      rw [leaf?, show t.get? p = some (.file f) from file]
    refine ⟨by rw [there]; exact Option.some_ne_none _, ?_⟩
    rw [leaf?, LinkTree.get?, found]
    by_cases own : q = p
    · rw [if_pos own, if_pos own]
    · rw [if_neg own, if_neg own]
      rfl
  next => cases h

/-- Two entries are not above one another. -/
lemma leaf?_apart (there : t.leaf? p ≠ none) (other : q ≠ p) (between : q <:+ p ∨ p <:+ q) : t.leaf? q = none := by
  have node : t.get? p ≠ none := by
    intro none
    rw [leaf?, none] at there
    exact there rfl
  have dirs : ∀ {q p : Path}, t.get? p ≠ none → q <:+ p → q ≠ p → t.get? q = some .dir := by
    intro q p node above other
    induction p with
    | nil => exact absurd (List.suffix_nil.mp above) other
    | cons n p ih =>
      have up := (List.suffix_cons_iff.mp above).resolve_left other
      have dir : t.get? p = some .dir := FileTree.dir_of_child node
      by_cases own : q = p
      · rw [own, dir]
      · exact ih (by rw [dir]; exact Option.some_ne_none _) up own
  cases between with
  | inl above => rw [leaf?, dirs node above other]
  | inr below =>
    cases found : t.get? q with
    | none => rw [leaf?, found]
    | some x =>
      have dir : t.get? p = some .dir := dirs (by rw [found]; exact Option.some_ne_none _) below other.symm
      rw [leaf?, dir] at there
      exact absurd rfl there

end LinkTree
end OpenAgentd.Lib
