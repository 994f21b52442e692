import OpenAgentd.Transfer.Archive

/-!
# What an import leaves alone

An import of any archive into any tree: it writes below the configuration directory (`Confined.outside`), it changes
nothing that is there unless it is forced (`Confined.kept`), and it writes nothing if it rejects the archive
(`Confined.rejected`). Members are checked against the tree before the extraction and resolved again in the tree as it
is then; the extraction makes no links, so that a member still goes where it was checked to go.
-/

namespace OpenAgentd.Transfer
open OpenAgentd.Lib LinkTree

/-- What an import does to a tree, whatever the archive. -/
structure Confined (t : LinkTree (List UInt8)) (limit : Nat) (archive : Option (List Member)) (configDir : Path)
    (force : Bool) : Prop where
  /-- Outside of the directory nothing changes, but that the missing directories above it are made. -/
  outside : ∀ q, ¬ t.realpath configDir.reverse <:+ q →
    (importConfig t limit archive configDir force).1.get? q = t.get? q ∨
      t.get? q = none ∧ q <:+ t.realpath configDir.reverse ∧
        (importConfig t limit archive configDir force).1.get? q = some .dir
  kept : force = false → ∀ q, t.get? q ≠ none → (importConfig t limit archive configDir force).1.get? q = t.get? q
  rejected : (importConfig t limit archive configDir force).2 = .rejected →
    (importConfig t limit archive configDir force).1 = t

section
variable {t t' : LinkTree (List UInt8)} {limit : Nat} {root q : Path} {force : Bool} {s : Extraction} {m : Member}
  {files : List Member}

/-! ## One member -/

/-- What an extraction does to a node: nothing, a directory above the target, or the target. -/
def Touches (s : Extraction) (target : Path) (content : List UInt8) (force : Bool) (q : Path)
    (after : Option (Node (Entry (List UInt8)))) : Prop :=
  after = s.tree.get? q ∨ s.tree.get? q = none ∧ q <:+ target.tail ∧ after = some .dir ∨
    q = target ∧ (force = false → s.tree.get? q = none) ∧ after = some (.file (.file content))

/-- What is no link exists for the system. -/
lemma stat?_of_plain (limit : Nat) {p : Path} (plain : t.Plain p) : (t.stat? limit p).isSome := by
  rw [stat?_eq_some.mpr ⟨0, Nat.zero_le _, walks_self plain⟩]
  rfl

/-- What writing a member touches. -/
lemma writeMember_touches (limit : Nat) {p : Path} (fresh : force = false → (s.tree.stat? limit p).isSome = false) (q : Path) :
    Touches s p m.content force q ((writeMember s m p).tree.get? q) := by
  have made : Touches s p m.content force q ((s.tree.mkdirs p.tail).1.get? q) := by
    cases get?_mkdirs s.tree p.tail q with
    | inl same => exact .inl same
    | inr new => exact .inr (.inl new)
  unfold writeMember
  split
  · split
    next tree written =>
      obtain ⟨_, noLink, found⟩ := write_eq written q
      show Touches s p m.content force q (tree.get? q)
      rw [found]
      split
      next here =>
        refine .inr (.inr ⟨here, fun unforced => ?_, rfl⟩)
        by_contra there
        rw [sameLinks_mkdirs s.tree p.tail p, ← here] at noLink
        have exists_ := stat?_of_plain limit ⟨there, noLink⟩
        rw [here, fresh unforced] at exists_
        cases exists_
      next => exact made
    next => exact made
  · exact made

/-- What extracting one touches. -/
lemma extractOne_touches (limit : Nat) (root : Path) (force : Bool) (s : Extraction) (m : Member) (q : Path) :
    Touches s (target s.tree root m.relStr) m.content force q ((extractOne limit root force s m).tree.get? q) := by
  unfold extractOne
  split
  · exact .inl rfl
  split
  · exact .inl rfl
  next goes =>
    apply writeMember_touches limit
    intro unforced
    rw [unforced, Bool.not_false, Bool.and_true] at goes
    exact Bool.eq_false_iff.mpr goes

/-- Links stay. -/
lemma extractOne_links : SameLinks s.tree (extractOne limit root force s m).tree := by
  have made := sameLinks_mkdirs s.tree (target s.tree root m.relStr).tail
  unfold extractOne
  split
  · exact fun _ => rfl
  split
  · exact fun _ => rfl
  unfold writeMember
  split
  · split
    next written => exact fun l => (sameLinks_write written l).trans (made l)
    next => exact made
  · exact made

/-! ## All members -/

/-- What holds during the extraction. -/
structure Leaves (t : LinkTree (List UInt8)) (root : Path) (force : Bool) (s : Extraction) : Prop where
  links : SameLinks t s.tree
  outside : ∀ q, ¬ root <:+ q → s.tree.get? q = t.get? q ∨ t.get? q = none ∧ q <:+ root ∧ s.tree.get? q = some .dir
  kept : force = false → ∀ q, t.get? q ≠ none → s.tree.get? q = t.get? q

/-- A path is resolved as in the tree before. -/
lemma Leaves.target_eq (leaves : Leaves t root force s) (rel : List Char) : target s.tree root rel = target t root rel := by
  unfold target
  rw [realpath_congr leaves.links, realpath_congr leaves.links]

/-- One member more. -/
lemma Leaves.extractOne (leaves : Leaves t root force s) (inside : root <:+ target t root m.relStr) :
    Leaves t root force (extractOne limit root force s m) where
  links l := (extractOne_links l).trans (leaves.links l)
  outside q out := by
    have before := leaves.outside q out
    rw [← leaves.target_eq] at inside
    rcases extractOne_touches limit root force s m q with
      same | ⟨absent, above, made⟩ | ⟨here, _, _⟩
    · rwa [same]
    · have up : q <:+ root := (List.suffix_or_suffix_of_suffix inside (above.trans (List.tail_suffix _))).resolve_left out
      cases before with
      | inl same => exact .inr ⟨same ▸ absent, up, made⟩
      | inr new => exact .inr ⟨new.1, up, made⟩
    · rw [here] at out
      exact absurd inside out
  kept unforced q there := by
    have before := leaves.kept unforced q there
    rcases extractOne_touches limit root force s m q with
      same | ⟨absent, _, _⟩ | ⟨_, fresh, _⟩
    · rw [same, before]
    · rw [before] at absent
      exact absurd absent there
    · have absent := fresh unforced
      rw [before] at absent
      exact absurd absent there

/-- Nothing is extracted yet. -/
lemma Leaves.start (t : LinkTree (List UInt8)) (root : Path) (force : Bool) : Leaves t root force { tree := t } where
  links _ := rfl
  outside _ _ := .inl rfl
  kept _ _ _ := rfl

/-- The rest of the tree is left. -/
lemma leaves_extraction (inside : ∀ m ∈ files, root <:+ target t root m.relStr) :
    Leaves t root force (extraction t limit root force files) := by
  have all : ∀ s, Leaves t root force s → Leaves t root force (files.foldl (extractOne limit root force) s) := by
    induction files with
    | nil => exact fun _ leaves => leaves
    | cons m files ih =>
      intro s leaves
      exact ih (fun m mem => inside m (List.mem_cons_of_mem _ mem)) _ (leaves.extractOne (inside m List.mem_cons_self))
  exact all _ (Leaves.start t root force)

/-- Members that are not rejected go below the directory. -/
lemma inside_of_accepted (accepted : ¬ Rejects t root files) : ∀ m ∈ files, root <:+ target t root m.relStr := by
  intro m mem
  by_contra out
  exact accepted (.inr (.inr ⟨m, mem, .inr out⟩))

/-- Every import is confined. -/
lemma importConfig_confined (t : LinkTree (List UInt8)) (limit : Nat) (archive : Option (List Member)) (configDir : Path)
    (force : Bool) : Confined t limit archive configDir force := by
  have untouched : (importConfig t limit archive configDir force).1 = t → Confined t limit archive configDir force :=
    fun same => ⟨fun _ _ => .inl (by rw [same]), fun _ _ _ => by rw [same], fun _ => same⟩
  cases archive with
  | none => exact untouched rfl
  | some members =>
    by_cases rejects : Rejects t (t.realpath configDir.reverse) (fileMembers members)
    · exact untouched (by rw [importConfig, if_pos rejects])
    · have leaves : Leaves t (t.realpath configDir.reverse) force
          (extraction t limit (t.realpath configDir.reverse) force (fileMembers members)) :=
        leaves_extraction (inside_of_accepted rejects)
      have tree : (importConfig t limit (some members) configDir force).1 =
          (extraction t limit (t.realpath configDir.reverse) force (fileMembers members)).tree := by
        rw [importConfig, if_neg rejects]
      refine ⟨fun q out => ?_, fun unforced q there => ?_, fun rejected => ?_⟩
      · rw [tree]
        exact leaves.outside q out
      · rw [tree]
        exact leaves.kept unforced q there
      · rw [importConfig, if_neg rejects] at rejected
        dsimp only at rejected
        split at rejected
        · cases rejected
        · cases rejected

end

end OpenAgentd.Transfer
