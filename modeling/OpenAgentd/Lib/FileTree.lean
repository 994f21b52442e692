import OpenAgentd.Lib.Dict

/-!
# File trees

A tree of directories and files, as a dict from paths to nodes in which every node stands in a directory. The
operations are those of a file system, each with the condition under which it succeeds, and each is described by
what a lookup finds behind it. `mkdirs` makes a directory with its missing parents, from the top down; `fails`
says which directories the system refuses to make.
-/

namespace OpenAgentd.Lib

/-- A path: its names, the last one first. -/
abbrev Path := List String

/-- A node of a tree. -/
inductive Node (F : Type*) where
  | dir
  | file (f : F)
  deriving DecidableEq

/-- A tree of files. -/
structure FileTree (F : Type*) where
  nodes : Dict Path (Node F)
  root : nodes.get? [] = some .dir
  closed : ∀ n p, nodes.get? (n :: p) ≠ none → nodes.get? p = some .dir

namespace FileTree
variable {F : Type*}

/-- The node at a path. -/
def get? (t : FileTree F) (p : Path) : Option (Node F) := t.nodes.get? p

/-- The tree without files. -/
def empty : FileTree F where
  nodes := Dict.empty.set [] .dir
  root := by rw [Dict.get?_set, if_pos rfl]
  closed := by
    intro n p h
    rw [Dict.get?_set, if_neg (List.cons_ne_nil n p)] at h
    exact absurd rfl h

/-- A node under a directory. Only a directory can take the place of a directory. -/
def put (t : FileTree F) (n : String) (p : Path) (x : Node F) (parent : t.get? p = some .dir)
    (fits : t.get? (n :: p) = some .dir → x = .dir) : FileTree F where
  nodes := t.nodes.set (n :: p) x
  root := by
    rw [Dict.get?_set, if_neg (List.cons_ne_nil n p).symm]
    exact t.root
  closed := by
    intro m q h
    rw [Dict.get?_set] at h ⊢
    by_cases here : m :: q = n :: p
    · obtain ⟨rfl, rfl⟩ := List.cons.inj here
      rw [if_neg (List.cons_ne_self m q).symm]
      exact parent
    · rw [if_neg here] at h
      have dir := t.closed m q h
      by_cases above : q = n :: p
      · rw [if_pos above, fits (above ▸ dir)]
      · rw [if_neg above]
        exact dir

/-- A tree without a node that has none below it. -/
def remove (t : FileTree F) (n : String) (p : Path) (leaf : ∀ m, t.get? (m :: n :: p) = none) : FileTree F where
  nodes := t.nodes.erase (n :: p)
  root := by
    rw [Dict.get?_erase, if_neg (List.cons_ne_nil n p).symm]
    exact t.root
  closed := by
    intro m q h
    rw [Dict.get?_erase] at h ⊢
    by_cases here : m :: q = n :: p
    · rw [if_pos here] at h
      exact absurd rfl h
    · rw [if_neg here] at h
      by_cases above : q = n :: p
      · rw [above] at h
        exact absurd (leaf m) h
      · rw [if_neg above]
        exact t.closed m q h

section
variable {t t' : FileTree F} {n m : String} {p q d : Path} {x : Node F} {f : F}

/-- What stands below a node stands in a directory. -/
lemma dir_of_child (h : t.get? (n :: p) ≠ none) : t.get? p = some .dir := t.closed n p h

/-- Below what is no directory there is nothing. -/
lemma child_eq_none (h : t.get? p ≠ some .dir) : t.get? (n :: p) = none := by
  by_contra some
  exact h (dir_of_child some)

/-- Below what is not there is nothing, at any depth. -/
lemma below_eq_none (h : t.get? p = none) (below : p <:+ q) : t.get? q = none := by
  induction q with
  | nil => rwa [List.suffix_nil.mp below] at h
  | cons n q ih =>
    cases List.suffix_cons_iff.mp below with
    | inl e => rwa [← e]
    | inr below =>
      refine child_eq_none ?_
      rw [ih below]
      exact nofun

/-- What stands above a node is a directory. -/
lemma dir_of_above (above : p <:+ q) (other : p ≠ q) (h : t.get? q ≠ none) : t.get? p = some .dir := by
  induction q with
  | nil => exact absurd (List.suffix_nil.mp above) other
  | cons n q ih =>
    have parent := dir_of_child h
    have above := (List.suffix_cons_iff.mp above).resolve_left other
    by_cases e : p = q
    · rwa [e]
    · apply ih above e
      rw [parent]
      exact nofun

/-- A node put. -/
lemma get?_put {parent : t.get? p = some .dir} {fits : t.get? (n :: p) = some .dir → x = .dir} :
    (t.put n p x parent fits).get? q = if q = n :: p then some x else t.get? q := Dict.get?_set

/-- A node removed. -/
lemma get?_remove {leaf : ∀ m, t.get? (m :: n :: p) = none} :
    (t.remove n p leaf).get? q = if q = n :: p then none else t.get? q := Dict.get?_erase

end

/-- `mkdir`: a new directory. -/
def mkdir [DecidableEq F] (t : FileTree F) : Path → Option (FileTree F)
  | [] => none
  | n :: p =>
    if h : t.get? p = some .dir ∧ t.get? (n :: p) = none then some (t.put n p .dir h.1 fun _ => rfl) else none

/-- Writing a file, over an old one or in a new place. -/
def write [DecidableEq F] (t : FileTree F) (f : F) : Path → Option (FileTree F)
  | [] => none
  | n :: p =>
    if h : t.get? p = some .dir ∧ t.get? (n :: p) ≠ some .dir then
      some (t.put n p (.file f) h.1 fun dir => absurd dir h.2)
    else none

/-- `unlink`: a file goes. -/
def unlink (t : FileTree F) : Path → Option (FileTree F)
  | [] => none
  | n :: p =>
    match h : t.get? (n :: p) with
    | some (.file _) => some (t.remove n p fun m => child_eq_none (by rw [h]; exact nofun))
    | _ => none

/-- The paths directly below `p`. -/
def children (t : FileTree F) (p : Path) : List Path :=
  t.nodes.keys.filter fun q => q ≠ [] ∧ q.tail = p

/-- When nothing is below. -/
lemma children_eq_nil {t : FileTree F} {p : Path} : t.children p = [] ↔ ∀ n, t.get? (n :: p) = none := by
  unfold children
  rw [List.filter_eq_nil_iff]
  constructor
  · intro h n
    by_contra some
    have key : n :: p ∈ t.nodes.keys := Dict.mem_keys.mpr (Option.ne_none_iff_exists'.mp some)
    exact h _ key (by simp)
  · intro h q hq
    cases q with
    | nil => simp
    | cons n q =>
      have ne : q ≠ p := by
        rintro rfl
        exact Dict.get?_eq_none.mp (h n) hq
      simpa using ne

/-- `rmdir`: an empty directory goes. -/
def rmdir [DecidableEq F] (t : FileTree F) : Path → Option (FileTree F)
  | [] => none
  | n :: p =>
    if h : t.get? (n :: p) = some .dir ∧ t.children (n :: p) = [] then
      some (t.remove n p (children_eq_nil.mp h.2))
    else none

/-- `os.replace`: a file under a new name, over what was there. -/
def replace [DecidableEq F] (t : FileTree F) (src dst : Path) : Option (FileTree F) :=
  match t.get? src with
  | some (.file f) => (t.unlink src).bind fun t => t.write f dst
  | _ => none

section
variable {t t' : FileTree F} {n : String} {p q : Path} {f : F}

/-- What an unlink does. -/
lemma unlink_some (h : t.unlink p = some t') :
    (∃ f, t.get? p = some (.file f)) ∧ t'.get? q = if q = p then none else t.get? q := by
  cases p with
  | nil => cases h
  | cons n p =>
    rw [unlink] at h
    split at h
    · rename_i f file
      cases h
      exact ⟨⟨f, file⟩, get?_remove⟩
    · cases h

/-- A file can be unlinked. -/
lemma unlink_isSome (h : t.get? p = some (.file f)) : (t.unlink p).isSome := by
  cases p with
  | nil =>
    have root : t.get? [] = some .dir := t.root
    rw [root] at h
    cases h
  | cons n p =>
    rw [unlink]
    split
    · rfl
    · rename_i no
      exact absurd h (no f)

end

section
variable [DecidableEq F] {t t' : FileTree F} {n m : String} {p q d src dst : Path} {x : Node F} {f g : F}

/-- What a mkdir does. -/
lemma mkdir_some (h : t.mkdir p = some t') :
    t.get? p = none ∧ t'.get? q = if q = p then some .dir else t.get? q := by
  cases p with
  | nil => cases h
  | cons n p =>
    rw [mkdir] at h
    split at h
    · rename_i ok
      cases h
      exact ⟨ok.2, get?_put⟩
    · cases h

/-- A directory is made if its parent is there and it is not. -/
lemma mkdir_isSome : (t.mkdir (n :: p)).isSome ↔ t.get? p = some .dir ∧ t.get? (n :: p) = none := by
  rw [mkdir]
  split
  · rename_i ok
    exact iff_of_true rfl ok
  · rename_i no
    exact iff_of_false nofun no

/-- What a write does. -/
lemma write_some (h : t.write f p = some t') :
    t.get? p ≠ some .dir ∧ t'.get? q = if q = p then some (.file f) else t.get? q := by
  cases p with
  | nil => cases h
  | cons n p =>
    rw [write] at h
    split at h
    · rename_i ok
      cases h
      exact ⟨ok.2, get?_put⟩
    · cases h

/-- A file is written if it has a directory and is none. -/
lemma write_isSome : (t.write f (n :: p)).isSome ↔ t.get? p = some .dir ∧ t.get? (n :: p) ≠ some .dir := by
  rw [write]
  split
  · rename_i ok
    exact iff_of_true rfl ok
  · rename_i no
    exact iff_of_false nofun no

/-- What a rmdir does. -/
lemma rmdir_some (h : t.rmdir p = some t') :
    t.get? p = some .dir ∧ t'.get? q = if q = p then none else t.get? q := by
  cases p with
  | nil => cases h
  | cons n p =>
    rw [rmdir] at h
    split at h
    · rename_i ok
      cases h
      exact ⟨ok.1, get?_remove⟩
    · cases h

/-- What a replace does. -/
lemma replace_some (h : t.replace src dst = some t') : ∃ f, t.get? src = some (.file f) ∧
    (dst = src ∨ t.get? dst ≠ some .dir) ∧
      t'.get? q = if q = dst then some (.file f) else if q = src then none else t.get? q := by
  unfold replace at h
  split at h
  · rename_i f file
    obtain ⟨t₁, unlinked, written⟩ := Option.bind_eq_some_iff.mp h
    obtain ⟨free, found⟩ := write_some (q := q) written
    refine ⟨f, file, ?_, ?_⟩
    · rw [(unlink_some (q := dst) unlinked).2] at free
      by_cases e : dst = src
      · exact .inl e
      · rw [if_neg e] at free
        exact .inr free
    · rw [found, (unlink_some unlinked).2]
  · cases h

/-- A file is moved over a file or into a free place of a directory. -/
lemma replace_isSome (file : t.get? src = some (.file f)) (parent : t.get? p = some .dir)
    (free : t.get? (n :: p) ≠ some .dir) : (t.replace src (n :: p)).isSome := by
  unfold replace
  rw [file]
  obtain ⟨t₁, unlinked⟩ := Option.isSome_iff_exists.mp (unlink_isSome file)
  show ((t.unlink src).bind fun t => t.write f (n :: p)).isSome
  rw [unlinked, Option.bind_some, write_isSome]
  have other : p ≠ src := by
    rintro rfl
    rw [file] at parent
    cases parent
  rw [(unlink_some unlinked).2, (unlink_some unlinked).2, if_neg other]
  refine ⟨parent, ?_⟩
  split
  · exact nofun
  · exact free

end

/-! ## Missing directories -/

/-- The directories that are missing for a path, the path itself first. -/
def missing (t : FileTree F) : Path → List Path
  | [] => []
  | n :: p => if (t.get? (n :: p)).isNone then (n :: p) :: t.missing p else []

/-- The nearest node that is there. -/
def anchor (t : FileTree F) : Path → Path
  | [] => []
  | n :: p => if (t.get? (n :: p)).isNone then t.anchor p else n :: p

/-- One directory, if it is not there. -/
def makeOne [DecidableEq F] (fails : Path → Bool) (t : FileTree F) (d : Path) : FileTree F × Bool :=
  if t.get? d = some .dir then (t, true)
  else if fails d then (t, false)
  else
    match t.mkdir d with
    | some t => (t, true)
    | none => (t, false)

/-- `Path.mkdir(parents=True, exist_ok=True)`: the tree, and whether the directory is there. -/
def mkdirs [DecidableEq F] (fails : Path → Bool) (t : FileTree F) : Path → FileTree F × Bool
  | [] => (t, true)
  | n :: p =>
    if (t.get? p).isNone then
      match mkdirs fails t p with
      | (t, true) => makeOne fails t (n :: p)
      | (t, false) => (t, false)
    else makeOne fails t (n :: p)

/-- Making the missing directories of `p` breaks off with some of them made: one below the topmost is refused. -/
def BreaksOff (fails : Path → Bool) (t : FileTree F) (p : Path) : Prop :=
  t.get? (t.anchor p) = some .dir ∧ ∃ lower d upper, t.missing p = lower ++ d :: upper ∧ upper ≠ [] ∧
    fails d = true ∧ ∀ u ∈ upper, fails u = false

/-- What `mkdirs` has made when it ends: the topmost of the missing directories, down to the first that fails. -/
structure Made (fails : Path → Bool) (t : FileTree F) (p : Path) (rest made : List Path) (res : FileTree F × Bool) :
    Prop where
  missing : t.missing p = rest ++ made
  get? : ∀ q, res.1.get? q = if q ∈ made then some .dir else t.get? q
  done : res.2 = true → rest = [] ∧ res.1.get? p = some .dir
  passed : ∀ u ∈ made, fails u = false
  anchored : made ≠ [] → t.get? (t.anchor p) = some .dir
  stuck : res.2 = false → made ≠ [] → ∃ lower d, rest = lower ++ [d] ∧ fails d = true
  refused : res.2 = false → made = [] →
    t.get? (t.anchor p) ≠ some .dir ∨ ∃ lower d, t.missing p = lower ++ [d] ∧ fails d = true

section
variable {t t' : FileTree F} {n m : String} {p q d : Path} {fails : Path → Bool} {rest made : List Path}

/-- A missing directory. -/
lemma missing_of_none (h : t.get? (n :: p) = none) : t.missing (n :: p) = (n :: p) :: t.missing p := by
  rw [missing, h]
  rfl

/-- Nothing is missing. -/
lemma missing_of_some (h : t.get? p ≠ none) : t.missing p = [] := by
  cases p with
  | nil => rfl
  | cons n p => rw [missing, if_neg (by simpa using h)]

/-- The anchor of a missing path. -/
lemma anchor_of_none (h : t.get? (n :: p) = none) : t.anchor (n :: p) = t.anchor p := by
  rw [anchor, h]
  rfl

/-- A path that is there. -/
lemma anchor_of_some (h : t.get? p ≠ none) : t.anchor p = p := by
  cases p with
  | nil => rfl
  | cons n p => rw [anchor, if_neg (by simpa using h)]

/-- The nearest node is there. -/
lemma anchor_ne_none : t.get? (t.anchor p) ≠ none := by
  induction p with
  | nil =>
    have root : t.get? [] = some .dir := t.root
    rw [anchor, root]
    exact nofun
  | cons n p ih =>
    by_cases none : t.get? (n :: p) = none
    · rwa [anchor_of_none none]
    · rwa [anchor_of_some none]

/-- The anchor is above. -/
lemma anchor_suffix : t.anchor p <:+ p := by
  induction p with
  | nil => exact List.suffix_refl _
  | cons n p ih =>
    by_cases none : t.get? (n :: p) = none
    · rw [anchor_of_none none]
      exact ih.trans (List.suffix_cons _ _)
    · exact ⟨[], by rw [List.nil_append, anchor_of_some none]⟩

/-- A missing directory is not there and stands above the path. -/
lemma mem_missing (h : d ∈ t.missing p) : t.get? d = none ∧ d <:+ p := by
  induction p with
  | nil => cases h
  | cons n p ih =>
    by_cases none : t.get? (n :: p) = none
    · rw [missing_of_none none] at h
      cases List.mem_cons.mp h with
      | inl e =>
        rw [e]
        exact ⟨none, List.suffix_refl _⟩
      | inr h =>
        obtain ⟨absent, above⟩ := ih h
        exact ⟨absent, above.trans (List.suffix_cons _ _)⟩
    · rw [missing_of_some none] at h
      cases h

/-- Whatever is not there and stands above the path is missing. -/
lemma mem_missing_of_none (h : t.get? d = none) (above : d <:+ p) : d ∈ t.missing p := by
  induction p with
  | nil =>
    have root : t.get? [] = some .dir := t.root
    rw [List.suffix_nil.mp above, root] at h
    cases h
  | cons n p ih =>
    rw [missing_of_none (below_eq_none h above)]
    cases List.suffix_cons_iff.mp above with
    | inl e => exact e ▸ List.mem_cons_self
    | inr above => exact List.mem_cons_of_mem _ (ih above)

/-- It breaks off if and only if it ends without the directory and has made another. -/
lemma Made.breaksOff_iff {res : FileTree F × Bool} (M : Made fails t p rest made res) :
    BreaksOff fails t p ↔ res.2 = false ∧ made ≠ [] := by
  constructor
  · rintro ⟨dir, lower, d, upper, e, some, no, yes⟩
    have unfinished : res.2 = false := by
      by_contra ok
      have none := (M.done (by simpa using ok)).1
      have all := M.missing
      rw [none, List.nil_append, e] at all
      have passed := M.passed d (by rw [← all]; simp)
      rw [no] at passed
      cases passed
    refine ⟨unfinished, fun none => ?_⟩
    cases M.refused unfinished none with
    | inl file => exact file dir
    | inr topmost =>
      obtain ⟨lower', d', e', no'⟩ := topmost
      have last : d' ∈ upper := by
        obtain ⟨upper', u, rfl⟩ := (List.eq_nil_or_concat' upper).resolve_left some
        have ends : (lower ++ d :: upper') ++ [u] = lower' ++ [d'] := by
          rw [← e', e, List.append_assoc]
          rfl
        rw [← List.singleton_inj.mp (List.append_inj' ends rfl).2]
        exact List.mem_append_right _ (List.mem_singleton_self u)
      rw [yes d' last] at no'
      cases no'
  · rintro ⟨no, some⟩
    obtain ⟨lower, d, e, fails_⟩ := M.stuck no some
    refine ⟨M.anchored some, lower, d, made, ?_, some, fails_, M.passed⟩
    rw [M.missing, e, List.append_assoc]
    rfl

variable [DecidableEq F]

/-- A directory that is there. -/
lemma makeOne_of_dir (h : t.get? d = some .dir) : makeOne fails t d = (t, true) := if_pos h

/-- What is there is not made again. -/
lemma mkdirs_of_dir (h : t.get? p = some .dir) : mkdirs fails t p = (t, true) := by
  cases p with
  | nil => rfl
  | cons n p =>
    have parent : t.get? p = some .dir := dir_of_child (by rw [h]; exact nofun)
    rw [mkdirs, if_neg (by simp [parent]), makeOne_of_dir h]

/-- A mkdir that fails. -/
lemma makeOne_of_fails (h : t.get? d ≠ some .dir) (no : fails d = true) : makeOne fails t d = (t, false) := by
  rw [makeOne, if_neg h, if_pos no]

/-- A mkdir that works. -/
lemma makeOne_of_mkdir (h : t.get? d ≠ some .dir) (yes : fails d = false) (new : t.mkdir d = some t') :
    makeOne fails t d = (t', true) := by
  rw [makeOne, if_neg h, yes, new]
  rfl

/-- A mkdir that cannot work. -/
lemma makeOne_of_none (h : t.get? d ≠ some .dir) (no : t.mkdir d = none) : makeOne fails t d = (t, false) := by
  rw [makeOne, if_neg h, no]
  split
  · rfl
  · rfl

/-- A directory below one that is there. -/
lemma makeOne_made (parent : t.get? p ≠ none) (absent : t.get? (n :: p) = none) :
    ∃ rest made, Made fails t (n :: p) rest made (makeOne fails t (n :: p)) := by
  have missing : t.missing (n :: p) = [n :: p] := by rw [missing_of_none absent, missing_of_some parent]
  have anchor : t.anchor (n :: p) = p := by rw [anchor_of_none absent, anchor_of_some parent]
  have other : t.get? (n :: p) ≠ some .dir := by
    rw [absent]
    exact nofun
  cases no : fails (n :: p) with
  | true =>
    rw [makeOne_of_fails other no]
    exact ⟨[n :: p], [], missing, fun q => rfl, nofun, by simp, by simp, by simp,
      fun _ _ => .inr ⟨[], n :: p, missing, no⟩⟩
  | false =>
    cases new : t.mkdir (n :: p) with
    | none =>
      rw [makeOne_of_none other new]
      refine ⟨[n :: p], [], missing, fun q => rfl, nofun, by simp, by simp, by simp, fun _ _ => .inl ?_⟩
      intro dir
      rw [anchor] at dir
      have some := mkdir_isSome.mpr ⟨dir, absent⟩
      rw [new] at some
      cases some
    | some t' =>
      rw [makeOne_of_mkdir other no new]
      have found : ∀ q, t'.get? q = if q = n :: p then some .dir else t.get? q := fun q => (mkdir_some new).2
      have dir := mkdir_isSome.mp (Option.isSome_iff_exists.mpr ⟨t', new⟩)
      refine ⟨[], [n :: p], missing, fun q => by simpa using found q, fun _ => ⟨rfl, by simp [found]⟩, ?_, ?_,
        nofun, nofun⟩
      · simpa using no
      · intro _
        rw [anchor]
        exact dir.1

/-- What `mkdirs` makes. -/
lemma mkdirs_made (fails : Path → Bool) (t : FileTree F) (p : Path) :
    ∃ rest made, Made fails t p rest made (mkdirs fails t p) := by
  induction p with
  | nil =>
    exact ⟨[], [], rfl, fun q => rfl, fun _ => ⟨rfl, t.root⟩, by simp, by simp, nofun, nofun⟩
  | cons n p ih =>
    by_cases absent : t.get? (n :: p) = none
    · by_cases parent : t.get? p = none
      · obtain ⟨rest, made, M⟩ := ih
        have missing : t.missing (n :: p) = ((n :: p) :: rest) ++ made := by
          rw [missing_of_none absent, M.missing]
          rfl
        have anchor := anchor_of_none absent
        rw [mkdirs, if_pos (by simpa using parent)]
        generalize mkdirs fails t p = res at M
        obtain ⟨t₁, ok⟩ := res
        cases ok with
        | false =>
          refine ⟨(n :: p) :: rest, made, missing, M.get?, nofun, M.passed, ?_, fun _ some => ?_, fun _ none => ?_⟩
          · rw [anchor]
            exact M.anchored
          · obtain ⟨lower, d, e, no⟩ := M.stuck rfl some
            exact ⟨(n :: p) :: lower, d, by rw [e]; rfl, no⟩
          · rw [anchor, missing_of_none absent]
            cases M.refused rfl none with
            | inl file => exact .inl file
            | inr topmost =>
              obtain ⟨lower, d, e, no⟩ := topmost
              exact .inr ⟨(n :: p) :: lower, d, by rw [e]; rfl, no⟩
        | true =>
          obtain ⟨none, dir⟩ := M.done rfl
          subst none
          have fresh : n :: p ∉ made := by
            intro mem
            have all : t.missing p = made := M.missing
            rw [← all] at mem
            have len := (mem_missing mem).2.length_le
            rw [List.length_cons] at len
            omega
          have some : made ≠ [] := by
            rintro rfl
            have found := M.get? p
            rw [if_neg List.not_mem_nil, dir, parent] at found
            cases found
          have other : t₁.get? (n :: p) = .none := by rw [M.get?, if_neg fresh, absent]
          have noDir : t₁.get? (n :: p) ≠ .some .dir := by
            rw [other]
            exact nofun
          show ∃ rest made, Made fails t (n :: p) rest made (makeOne fails t₁ (n :: p))
          cases no : fails (n :: p) with
          | true =>
            rw [makeOne_of_fails noDir no]
            refine ⟨[n :: p], made, missing, M.get?, nofun, M.passed, ?_, fun _ _ => ⟨[], n :: p, rfl, no⟩,
              fun _ e => absurd e some⟩
            rw [anchor]
            exact M.anchored
          | false =>
            obtain ⟨t₂, new⟩ := Option.isSome_iff_exists.mp (mkdir_isSome.mpr ⟨dir, other⟩)
            rw [makeOne_of_mkdir noDir no new]
            have found : ∀ q, t₂.get? q = if q = n :: p then .some .dir else t₁.get? q :=
              fun q => (mkdir_some new).2
            refine ⟨[], (n :: p) :: made, missing, fun q => ?_, fun _ => ⟨rfl, by simp [found]⟩, ?_, ?_, nofun, nofun⟩
            · show t₂.get? q = _
              rw [found, M.get?]
              by_cases e : q = n :: p
              · simp [e]
              · simp [e]
            · intro u hu
              cases List.mem_cons.mp hu with
              | inl e => exact e ▸ no
              | inr hu => exact M.passed u hu
            · intro _
              rw [anchor]
              exact M.anchored some
      · rw [mkdirs, if_neg (by simpa using parent)]
        exact makeOne_made parent absent
    · have parent : t.get? p ≠ none := by
        rw [dir_of_child absent]
        exact nofun
      have missing := missing_of_some absent
      rw [mkdirs, if_neg (by simpa using parent)]
      by_cases dir : t.get? (n :: p) = some .dir
      · rw [makeOne_of_dir dir]
        exact ⟨[], [], missing, fun q => rfl, fun _ => ⟨rfl, dir⟩, by simp, by simp, nofun, nofun⟩
      · have none : t.mkdir (n :: p) = none := by
          rw [Option.eq_none_iff_forall_ne_some]
          intro t' new
          exact absent (mkdir_some (q := p) new).1
        rw [makeOne_of_none dir none]
        refine ⟨[], [], missing, fun q => rfl, nofun, by simp, by simp, by simp, fun _ _ => .inl ?_⟩
        rwa [anchor_of_some absent]

end

end FileTree

end OpenAgentd.Lib
