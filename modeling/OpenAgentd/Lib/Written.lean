import OpenAgentd.Lib.Links

/-!
# Writing into a tree with links

`mkdirs` and `write` on trees with links, at paths that go through no link. They leave the links as they are, and
trees with the same links resolve every path in the same way (`realpath_congr`). A path that meets no link is resolved
to itself (`realpath_free`).
-/

namespace OpenAgentd.Lib.LinkTree
variable {α : Type*}

section
variable {t t' : LinkTree α} {p q r l d : Path} {n : String} {g : Target} {rest names : List String} {k k' : Nat}
  {enter enter' : Seen → Path → List String → Path × Seen} {seen : Seen} {links : List Path}

/-! ## Resolution and links -/

/-- The links that were not met. -/
def unmet (links : List Path) (seen : Seen) : List Path := links.filter fun l => (seen.get? l).isNone

/-- What was met is still known. -/
def Kept (seen seen' : Seen) : Prop := ∀ l, seen.get? l ≠ none → seen'.get? l ≠ none

/-- Nothing new is seen. -/
lemma Kept.refl (seen : Seen) : Kept seen seen := fun _ h => h

/-- Seen and seen on. -/
lemma Kept.trans {a b c : Seen} (h : Kept a b) (h' : Kept b c) : Kept a c := fun l some => h' l (h l some)

/-- One more is seen. -/
lemma Kept.set (seen : Seen) (l : Path) (x : Option Path) : Kept seen (seen.set l x) := by
  intro m some
  rw [Dict.get?_set]
  split
  · exact Option.some_ne_none _
  · exact some

/-- No more links are unmet. -/
lemma Kept.unmet_le {seen' : Seen} (kept : Kept seen seen') : (unmet links seen').length ≤ (unmet links seen).length := by
  refine (List.monotone_filter_right _ fun l h => ?_).length_le
  rw [Option.isNone_iff_eq_none] at h ⊢
  exact not_not.mp fun ne => kept l ne h

/-- A link met. -/
lemma unmet_lt (fresh : seen.get? l = none) (mem : l ∈ links) :
    (unmet links (seen.set l none)).length < (unmet links seen).length := by
  have sub : (unmet links (seen.set l none)).Sublist (unmet links seen) := by
    refine List.monotone_filter_right _ fun m h => ?_
    rw [Option.isNone_iff_eq_none, Dict.get?_set] at h
    rw [Option.isNone_iff_eq_none]
    split at h
    · cases h
    · exact h
  refine Nat.lt_of_le_of_ne sub.length_le fun e => ?_
  have here : l ∈ unmet links seen := List.mem_filter.mpr ⟨mem, by rw [fresh]; rfl⟩
  rw [← sub.eq_of_length e] at here
  have none := (List.mem_filter.mp here).2
  rw [Dict.get?_set, if_pos rfl] at none
  cases none

/-- Two ways to enter a link give the same resolution if they agree on the links that it may enter. -/
lemma resolveWith_congr (all : ∀ l g, t.linkAt? l = some g → l ∈ links)
    (enters : ∀ seen l p names, l ∈ links → seen.get? l = none → (unmet links seen).length ≤ k →
      enter (seen.set l none) p names = enter' (seen.set l none) p names ∧
        Kept (seen.set l none) (enter (seen.set l none) p names).2)
    (few : (unmet links seen).length ≤ k) :
    t.resolveWith enter seen p names = t.resolveWith enter' seen p names ∧
      Kept seen (t.resolveWith enter seen p names).2 := by
  induction names generalizing p seen with
  | nil => exact ⟨rfl, Kept.refl seen⟩
  | cons n rest ih =>
    unfold resolveWith
    split
    · exact ih few
    split
    · exact ih few
    split
    · exact ih few
    next g link =>
      split
      · exact ih few
      · exact ih few
      next fresh =>
        obtain ⟨same, kept⟩ := enters seen (n :: p) (origin g p) g.names (all _ g link) fresh few
        rw [← same]
        generalize enter (seen.set (n :: p) none) (origin g p) g.names = res at kept
        obtain ⟨q, seen₁⟩ := res
        have later : Kept seen (seen₁.set (n :: p) (some q)) :=
          (Kept.set seen _ _).trans (kept.trans (Kept.set seen₁ _ _))
        obtain ⟨same, kept⟩ := ih (p := q) (Nat.le_trans later.unmet_le few)
        exact ⟨same, later.trans kept⟩

/-- With enough fuel the fuel does not matter. -/
lemma resolve_fuel (all : ∀ l g, t.linkAt? l = some g → l ∈ links) (enough : (unmet links seen).length ≤ k)
    (enough' : (unmet links seen).length ≤ k') :
    t.resolve k seen p names = t.resolve k' seen p names ∧ Kept seen (t.resolve k seen p names).2 := by
  induction k generalizing k' seen p names with
  | zero =>
    cases k' with
    | zero =>
      refine resolveWith_congr (k := 0) all ?_ enough
      intro seen l p names mem fresh few
      have less := unmet_lt fresh mem
      omega
    | succ k' =>
      refine resolveWith_congr (k := 0) all ?_ enough
      intro seen l p names mem fresh few
      have less := unmet_lt fresh mem
      omega
  | succ k ih =>
    cases k' with
    | zero =>
      have bound : (unmet links seen).length ≤ 0 := enough'
      refine resolveWith_congr (k := 0) all ?_ bound
      intro seen l p names mem fresh few
      have less := unmet_lt fresh mem
      omega
    | succ k' =>
      refine resolveWith_congr (k := min (k + 1) (k' + 1)) all ?_ (Nat.le_min.mpr ⟨enough, enough'⟩)
      intro seen l p names mem fresh few
      have less := unmet_lt fresh mem
      have few := Nat.le_min.mp few
      exact ih (by omega) (by omega)

/-- Trees with the same links. -/
def SameLinks (t t' : LinkTree α) : Prop := ∀ l, t'.linkAt? l = t.linkAt? l

/-- Only the links matter. -/
lemma resolveWith_links (same : SameLinks t t') :
    t'.resolveWith enter seen p names = t.resolveWith enter seen p names := by
  induction names generalizing p seen with
  | nil => rfl
  | cons n rest ih =>
    unfold resolveWith
    rw [same (n :: p)]
    simp only [ih]

/-- Only the links matter. -/
lemma resolve_links (same : SameLinks t t') : t'.resolve k = t.resolve k := by
  induction k with
  | zero =>
    funext seen p names
    exact resolveWith_links same
  | succ k ih =>
    funext seen p names
    show t'.resolveWith (t'.resolve k) seen p names = _
    rw [ih]
    exact resolveWith_links same

/-- A link is a node. -/
lemma mem_keys_of_link {g : Target} (link : t.linkAt? l = some g) : l ∈ t.tree.nodes.keys :=
  Dict.mem_keys.mpr (Option.ne_none_iff_exists'.mp (get?_of_link link))

/-- Trees with the same links resolve every path in the same way. -/
lemma realpath_congr (same : SameLinks t t') : t'.realpath names = t.realpath names := by
  have all : ∀ l g, t.linkAt? l = some g → l ∈ t.tree.nodes.keys := fun l g => mem_keys_of_link
  have all' : ∀ l g, t'.linkAt? l = some g → l ∈ t'.tree.nodes.keys := fun l g => mem_keys_of_link
  have first : t'.resolve t'.tree.nodes.keys.length .empty [] names =
      t'.resolve (max t.tree.nodes.keys.length t'.tree.nodes.keys.length) .empty [] names :=
    (resolve_fuel all' (List.length_filter_le _ _) (Nat.le_trans (List.length_filter_le _ _) (Nat.le_max_right _ _))).1
  have second : t.resolve (max t.tree.nodes.keys.length t'.tree.nodes.keys.length) .empty [] names =
      t.resolve t.tree.nodes.keys.length .empty [] names :=
    (resolve_fuel all (Nat.le_trans (List.length_filter_le _ _) (Nat.le_max_left _ _)) (List.length_filter_le _ _)).1
  unfold realpath
  rw [first, resolve_links same, second]

/-- A path that meets no link. -/
lemma resolveWith_free (named : ∀ n ∈ names, IsName n) (free : ∀ l, l <:+ names.reverse ++ p → t.linkAt? l = none) :
    t.resolveWith enter seen p names = (names.reverse ++ p, seen) := by
  induction names generalizing p with
  | nil => rfl
  | cons n rest ih =>
    have name := named n List.mem_cons_self
    rw [List.reverse_cons, List.append_assoc, List.singleton_append] at free ⊢
    have here := free (n :: p) (List.suffix_append _ _)
    rw [resolveWith, if_neg (not_or.mpr ⟨name.1, name.2.1⟩), if_neg name.2.2, here]
    exact ih (fun m mem => named m (List.mem_cons_of_mem _ mem)) free

/-- Without links a path is real. -/
lemma realpath_free (named : ∀ n ∈ names, IsName n) (free : ∀ l, l <:+ names.reverse → t.linkAt? l = none) :
    t.realpath names = names.reverse := by
  have free : ∀ l, l <:+ names.reverse ++ [] → t.linkAt? l = none := by rwa [List.append_nil]
  unfold realpath
  cases t.tree.nodes.keys.length with
  | zero =>
    show (t.resolveWith _ .empty [] names).1 = _
    rw [resolveWith_free named free, List.append_nil]
  | succ k =>
    show (t.resolveWith _ .empty [] names).1 = _
    rw [resolveWith_free named free, List.append_nil]

end

/-! ## Writing -/

section
variable [DecidableEq α] {t t' : LinkTree α} {p q : Path} {c : α}

/-- `Path.mkdir(parents=True, exist_ok=True)` at a path that goes through no link. -/
def mkdirs (t : LinkTree α) (p : Path) : LinkTree α × Bool :=
  if named : ∀ n ∈ p, IsName n then
    (⟨(t.tree.mkdirs (fun _ => false) p).1, by
      obtain ⟨rest, made, M⟩ := FileTree.mkdirs_made (fun _ => false) t.tree p
      intro n q some
      rw [M.get?] at some
      split at some
      next mem =>
        have missing : n :: q ∈ t.tree.missing p := by
          rw [M.missing]
          exact List.mem_append_right _ mem
        exact named n ((FileTree.mem_missing missing).2.subset List.mem_cons_self)
      next => exact t.named n q some⟩, (t.tree.mkdirs (fun _ => false) p).2)
  else (t, false)

/-- `Path.write_bytes` at a path that goes through no link. -/
def write (t : LinkTree α) (c : α) (p : Path) : Option (LinkTree α) :=
  if named : (∀ n ∈ p, IsName n) ∧ t.linkAt? p = none then
    match h : t.tree.write (.file c) p with
    | some tree => some ⟨tree, by
        intro n q some
        rw [(FileTree.write_some h).2] at some
        split at some
        next here => exact named.1 n (here ▸ List.mem_cons_self)
        next => exact t.named n q some⟩
    | none => none
  else none

/-- What is made is missing above the path. -/
lemma get?_mkdirs (t : LinkTree α) (p q : Path) :
    (t.mkdirs p).1.get? q = t.get? q ∨ t.get? q = none ∧ q <:+ p ∧ (t.mkdirs p).1.get? q = some .dir := by
  unfold mkdirs
  split
  next named =>
    obtain ⟨rest, made, M⟩ := FileTree.mkdirs_made (fun _ => false) t.tree p
    show (t.tree.mkdirs _ p).1.get? q = _ ∨ _ ∧ _ ∧ (t.tree.mkdirs _ p).1.get? q = _
    rw [M.get?]
    split
    next mem =>
      have missing : q ∈ t.tree.missing p := by
        rw [M.missing]
        exact List.mem_append_right _ mem
      exact .inr ⟨(FileTree.mem_missing missing).1, (FileTree.mem_missing missing).2, rfl⟩
    next => exact .inl rfl
  next => exact .inl rfl

/-- What is made is a directory. -/
lemma mkdirs_dir (ok : (t.mkdirs p).2 = true) : (t.mkdirs p).1.get? p = some .dir := by
  unfold mkdirs at ok ⊢
  split at ok
  next named =>
    rw [dif_pos named]
    obtain ⟨rest, made, M⟩ := FileTree.mkdirs_made (fun _ => false) t.tree p
    exact (M.done ok).2
  next => cases ok

/-- The directory is made if what is there above is one. -/
lemma mkdirs_ok (named : ∀ n ∈ p, IsName n) (above : ∀ q, q <:+ p → t.get? q ≠ none → t.get? q = some .dir) :
    (t.mkdirs p).2 = true := by
  obtain ⟨rest, made, M⟩ := FileTree.mkdirs_made (fun _ => false) t.tree p
  rw [mkdirs, dif_pos named]
  show (t.tree.mkdirs _ p).2 = true
  rw [← Bool.not_eq_false]
  intro no
  have anchored : ∀ p : Path, t.tree.anchor p <:+ p ∧ t.tree.get? (t.tree.anchor p) ≠ none := by
    intro p
    induction p with
    | nil =>
      refine ⟨List.suffix_refl _, ?_⟩
      rw [FileTree.anchor, show t.tree.get? [] = some .dir from t.tree.root]
      exact Option.some_ne_none _
    | cons n p ih =>
      by_cases absent : t.tree.get? (n :: p) = none
      · rw [FileTree.anchor_of_none absent]
        exact ⟨ih.1.trans (List.suffix_cons _ _), ih.2⟩
      · rw [FileTree.anchor_of_some absent]
        exact ⟨List.suffix_refl _, absent⟩
  have dir := above _ (anchored p).1 (anchored p).2
  cases made with
  | nil =>
    cases M.refused no rfl with
    | inl other => exact other dir
    | inr topmost =>
      obtain ⟨_, _, _, fails⟩ := topmost
      cases fails
  | cons d made =>
    obtain ⟨_, _, _, fails⟩ := M.stuck no (List.cons_ne_nil _ _)
    cases fails

/-- What a write does. -/
lemma write_eq (h : t.write c p = some t') (q : Path) :
    t.get? p ≠ some .dir ∧ t.linkAt? p = none ∧ t'.get? q = if q = p then some (.file (.file c)) else t.get? q := by
  unfold write at h
  split at h
  next named =>
    split at h
    next tree written =>
      cases h
      have found := FileTree.write_some (q := q) written
      exact ⟨found.1, named.2, found.2⟩
    next => cases h
  next => cases h

/-- When a write works. -/
lemma write_isSome {n : String} (named : ∀ m ∈ n :: p, IsName m) (parent : t.get? p = some .dir)
    (free : t.get? (n :: p) ≠ some .dir) (noLink : t.linkAt? (n :: p) = none) : (t.write c (n :: p)).isSome := by
  unfold write
  rw [dif_pos ⟨named, noLink⟩]
  split
  next => rfl
  next failed =>
    have some_ : (t.tree.write (.file c) (n :: p)).isSome := FileTree.write_isSome.mpr ⟨parent, free⟩
    rw [failed] at some_
    cases some_

omit [DecidableEq α] in
/-- Above a directory there are directories. -/
lemma dir_of_suffix (dir : t.get? p = some .dir) (above : q <:+ p) : t.get? q = some .dir := by
  induction p with
  | nil => rwa [List.suffix_nil.mp above]
  | cons n p ih =>
    cases List.suffix_cons_iff.mp above with
    | inl e => rwa [e]
    | inr above =>
      apply ih _ above
      apply dir_of_child (n := n)
      rw [dir]
      exact Option.some_ne_none _

/-- Neither touches a link. -/
lemma sameLinks_mkdirs (t : LinkTree α) (p : Path) : SameLinks t (t.mkdirs p).1 := by
  intro l
  unfold linkAt?
  cases get?_mkdirs t p l with
  | inl same => rw [same]
  | inr new =>
    rw [new.1, new.2.2]

/-- A write keeps the links. -/
lemma sameLinks_write (h : t.write c p = some t') : SameLinks t t' := by
  intro l
  obtain ⟨_, noLink, found⟩ := write_eq h l
  unfold linkAt? at noLink ⊢
  rw [found]
  by_cases here : l = p
  · rw [if_pos here, here, noLink]
  · rw [if_neg here]

end

end OpenAgentd.Lib.LinkTree
