import OpenAgentd.Transfer.Packed
import OpenAgentd.Transfer.Confined

/-!
# What an import restores

An export with its secrets and an import into an empty directory. The import writes the regular members, so that the
files that were packed are restored if and only if each was stored as itself: no symbolic link, no second name of an
inode, and not the archive (`restores_iff`).
-/

namespace OpenAgentd.Transfer
open OpenAgentd.Lib LinkTree

/-- A directory with nothing in it. -/
structure EmptyDir (t : LinkTree (List UInt8)) (root : Path) : Prop where
  dir : t.get? root = some .dir
  empty : ∀ n, t.get? (n :: root) = none

/-- What the import has written is the packed files with their bytes. -/
def Restores (src : SourceTree) (limit : Nat) (archive configDir : Path) (redact : String → List UInt8 → List UInt8)
    (t : LinkTree (List UInt8)) (limit' : Nat) (dir : Path) (force : Bool) : Prop :=
  let exported := exportConfig src limit archive configDir true redact
  let after := (importConfig t limit' (some exported.members) dir force).1
  ∀ q e, after.get? (q ++ t.realpath dir.reverse) = some (.file e) ↔
    q ∈ exported.filesPacked ∧ ∃ data, src.open? limit (q ++ configDir) = some data ∧ e = .file data.content

section
variable {t : LinkTree (List UInt8)} {limit : Nat} {root p q rel : Path} {force : Bool} {s : Extraction} {m : Member}
  {done files : List Member}

/-- Nothing is below. -/
lemma EmptyDir.below (empty : EmptyDir t root) (some : q ≠ []) : t.get? (q ++ root) = none := by
  induction q with
  | nil => exact absurd rfl some
  | cons n q ih =>
    by_cases first : q = []
    · rw [first]
      exact empty.empty n
    · by_contra there
      have dir : t.get? (q ++ root) = _ := dir_of_child there
      rw [ih first] at dir
      cases dir

/-- No file is below. -/
lemma EmptyDir.no_file (empty : EmptyDir t root) (q : Path) (e : Entry (List UInt8)) : t.get? (q ++ root) ≠ some (.file e) := by
  by_cases own : q = []
  · rw [own, List.nil_append, empty.dir]
    exact nofun
  · rw [empty.below own]
    exact nofun

/-! ## Where a member goes -/

/-- A member of a packed file. -/
def IsEntry (m : Member) (rel : Path) : Prop := Named rel ∧ m.name = arcName rel

/-- What stands below the directory is what was written there. -/
structure Filled (root : Path) (done : List Member) (s : Extraction) : Prop where
  dir : s.tree.get? root = some .dir
  files : ∀ q e, s.tree.get? (q ++ root) = some (.file e) → ∃ m ∈ done, IsEntry m q ∧ e = .file m.content

/-- No links inside. -/
lemma Filled.free (filled : Filled root done s) {l : Path} (inside : l <:+ p ++ root) : s.tree.linkAt? l = none := by
  have above : ∀ l : Path, l <:+ root → s.tree.linkAt? l = none := by
    intro l above
    rw [linkAt?, dir_of_suffix filled.dir above]
  cases List.suffix_or_suffix_of_suffix inside (List.suffix_append p root) with
  | inl up => exact above l up
  | inr below =>
    obtain ⟨front, rfl⟩ := below
    unfold linkAt?
    split
    next g link =>
      obtain ⟨m, _, _, e⟩ := filled.files front _ link
      cases e
    next => rfl

/-- The entry's path. -/
lemma relStr_of_entry (is : IsEntry m rel) : m.relStr = asPosix rel := by
  have e := relStr_arcName rel m.type m.content
  rwa [← is.2] at e

/-- A member of a packed file goes to the place of the file. -/
lemma Filled.target_eq (filled : Filled root done s) (is : IsEntry m rel) (names : ∀ n ∈ root, IsName n) :
    target s.tree root m.relStr = rel ++ root := by
  rw [relStr_of_entry is, target, if_neg (head?_asPosix is.1), relNames_asPosix is.1, ← List.reverse_append]
  rw [realpath_free]
  · rw [List.reverse_reverse]
  · intro n mem
    cases List.mem_append.mp (List.mem_reverse.mp mem) with
    | inl mem => exact (is.1.2 n mem).1
    | inr mem => exact names n mem
  · intro l inside
    rw [List.reverse_reverse] at inside
    exact filled.free inside

/-- A member fills its place, and nothing else. -/
lemma Filled.extractOne (filled : Filled root done s) (is : IsEntry m rel) (names : ∀ n ∈ root, IsName n) :
    Filled root (done ++ [m]) (extractOne limit root force s m) where
  dir := by
    have touches := extractOne_touches limit root force s m root
    rw [filled.target_eq is names] at touches
    rcases touches with same | ⟨absent, _, _⟩ | ⟨here, _, _⟩
    · rw [same, filled.dir]
    · rw [filled.dir] at absent
      cases absent
    · exact absurd (List.append_left_eq_self.mp here.symm) is.1.1
  files q e found := by
    have touches := extractOne_touches limit root force s m (q ++ root)
    rw [filled.target_eq is names, found] at touches
    rcases touches with same | ⟨_, _, dir⟩ | ⟨here, _, file⟩
    · obtain ⟨m', mem, rest⟩ := filled.files q e same.symm
      exact ⟨m', List.mem_append_left _ mem, rest⟩
    · cases dir
    · cases file
      refine ⟨m, by simp, ?_, rfl⟩
      rw [List.append_cancel_right here]
      exact is

/-- A member of each file that is to be packed. -/
structure Entries (files : List Member) : Prop where
  named : ∀ m ∈ files, ∃ rel, IsEntry m rel
  apart : ∀ m ∈ files, ∀ m' ∈ files, ∀ rel rel', IsEntry m rel → IsEntry m' rel' → rel <:+ rel' → rel = rel'
  single : ∀ m ∈ files, ∀ m' ∈ files, m.name = m'.name → m = m'

/-- The members so far are in their places, below directories that they need. -/
structure Laid (root : Path) (done : List Member) (s : Extraction) : Prop where
  filled : Filled root done s
  running : s.failed = false
  laid : ∀ m ∈ done, ∀ rel, IsEntry m rel → s.tree.get? (rel ++ root) = some (.file (.file m.content))
  dirs : ∀ q, s.tree.get? (q ++ root) = some .dir → q = [] ∨ ∃ m ∈ done, ∃ rel, IsEntry m rel ∧ q <:+ rel ∧ q ≠ rel

/-- One more member. -/
lemma mem_snoc {x y : Member} (mem : x ∈ done ++ [y]) : x ∈ done ∨ x = y := by
  cases List.mem_append.mp mem with
  | inl mem => exact .inl mem
  | inr mem => exact .inr (List.mem_singleton.mp mem)

/-- The place of a member is no directory. -/
lemma Laid.not_dir (laid : Laid root done s) (entries : Entries files) (part : ∀ m ∈ done, m ∈ files) (mem : m ∈ files)
    (is : IsEntry m rel) : s.tree.get? (rel ++ root) ≠ some .dir := by
  intro dir
  cases laid.dirs rel dir with
  | inl none => exact is.1.1 none
  | inr above =>
    obtain ⟨m', old, rel', is', above, other⟩ := above
    exact other (entries.apart m mem m' (part m' old) rel rel' is is' above)

/-- What stands above the place of a member are directories. -/
lemma Laid.above (laid : Laid root done s) (entries : Entries files) (part : ∀ m ∈ done, m ∈ files) (mem : m ∈ files)
    (is : IsEntry m rel) {l : Path} (above : l <:+ (rel ++ root).tail) (there : s.tree.get? l ≠ none) :
    s.tree.get? l = some .dir := by
  have tail : (rel ++ root).tail = rel.tail ++ root := List.tail_append_of_ne_nil is.1.1
  rw [tail] at above
  cases List.suffix_or_suffix_of_suffix above (List.suffix_append _ root) with
  | inl up => exact dir_of_suffix laid.filled.dir up
  | inr below =>
    obtain ⟨q, rfl⟩ := below
    cases node : s.tree.get? (q ++ root) with
    | none => exact absurd node there
    | some x =>
      cases x with
      | dir => rfl
      | file e =>
        obtain ⟨m', old, is', _⟩ := laid.filled.files q e node
        obtain ⟨front, e⟩ := above
        rw [← List.append_assoc] at e
        have short : q <:+ rel.tail := ⟨front, List.append_cancel_right e⟩
        have same := entries.apart m' (part m' old) m mem q rel is' is (short.trans (List.tail_suffix rel))
        have len := short.length_le
        have pos := List.length_pos_iff.mpr is.1.1
        rw [same, List.length_tail] at len
        omega

/-- A member that is written is there. -/
lemma writeMember_laid {n : String} (running : s.failed = false) (names : ∀ k ∈ n :: p, IsName k)
    (above : ∀ l, l <:+ p → s.tree.get? l ≠ none → s.tree.get? l = some .dir) (noDir : s.tree.get? (n :: p) ≠ some .dir)
    (noLink : s.tree.linkAt? (n :: p) = none) : (writeMember s m (n :: p)).failed = false ∧
      (writeMember s m (n :: p)).tree.get? (n :: p) = some (.file (.file m.content)) := by
  have ok := mkdirs_ok (fun k mem => names k (List.mem_cons_of_mem _ mem)) above
  have noDir' : (s.tree.mkdirs p).1.get? (n :: p) ≠ some .dir := by
    cases get?_mkdirs s.tree p (n :: p) with
    | inl same => rwa [same]
    | inr new =>
      have len := new.2.1.length_le
      rw [List.length_cons] at len
      omega
  have noLink' : (s.tree.mkdirs p).1.linkAt? (n :: p) = none := (sameLinks_mkdirs s.tree p _).trans noLink
  obtain ⟨tree, written⟩ := Option.isSome_iff_exists.mp (write_isSome (c := m.content) names (mkdirs_dir ok) noDir' noLink')
  unfold writeMember
  rw [List.tail_cons, if_pos ok, written]
  refine ⟨running, ?_⟩
  show tree.get? (n :: p) = _
  rw [(write_eq written (n :: p)).2.2, if_pos rfl]

/-- What the system finds at the place of a member is there. -/
lemma Filled.there (filled : Filled root done s) (names : ∀ n ∈ root, IsName n) (named : Named rel)
    (found : (s.tree.stat? limit (rel ++ root)).isSome) : s.tree.get? (rel ++ root) ≠ none := by
  obtain ⟨r, found⟩ := Option.isSome_iff_exists.mp found
  obtain ⟨k, _, walk⟩ := stat?_eq_some.mp found
  have own : s.tree.realpath (rel ++ root).reverse = rel ++ root := by
    rw [realpath_free, List.reverse_reverse]
    · intro n mem
      cases List.mem_append.mp (List.mem_reverse.mp mem) with
      | inl mem => exact (named.2 n mem).1
      | inr mem => exact names n mem
    · intro l inside
      rw [List.reverse_reverse] at inside
      exact filled.free inside
  have e := realpath_eq walk
  rw [own] at e
  rw [e]
  exact walk.plain_right.1

/-- A member is laid in its place. -/
lemma Laid.placed (laid : Laid root done s) (entries : Entries files) (part : ∀ m ∈ done, m ∈ files) (mem : m ∈ files)
    (is : IsEntry m rel) (names : ∀ n ∈ root, IsName n) : (extractOne limit root force s m).failed = false ∧
      (extractOne limit root force s m).tree.get? (rel ++ root) = some (.file (.file m.content)) := by
  have noDir := laid.not_dir entries part mem is
  have noLink : s.tree.linkAt? (rel ++ root) = none := laid.filled.free (List.suffix_refl _)
  unfold Transfer.extractOne
  rw [laid.filled.target_eq is names, laid.running, if_neg Bool.false_ne_true]
  split
  next skips =>
    have there := laid.filled.there names is.1 (Bool.and_eq_true_iff.mp skips).1
    refine ⟨rfl, ?_⟩
    show s.tree.get? (rel ++ root) = _
    cases node : s.tree.get? (rel ++ root) with
    | none => exact absurd node there
    | some x =>
      cases x with
      | dir => exact absurd node noDir
      | file e =>
        obtain ⟨m', old, is', rfl⟩ := laid.filled.files rel e node
        rw [entries.single m' (part m' old) m mem (is'.2.trans is.2.symm)]
  next =>
    obtain ⟨n, front, rfl⟩ := List.exists_cons_of_ne_nil is.1.1
    apply writeMember_laid laid.running _ _ noDir noLink
    · show ∀ k ∈ (n :: front) ++ root, IsName k
      intro k mem
      cases List.mem_append.mp mem with
      | inl mem => exact (is.1.2 k mem).1
      | inr mem => exact names k mem
    · exact fun l above there => laid.above entries part mem is above there

/-- Each member goes to its place, and the members before stay in theirs. -/
lemma Laid.extractOne (laid : Laid root done s) (entries : Entries files) (part : ∀ m ∈ done, m ∈ files) (mem : m ∈ files)
    (is : IsEntry m rel) (names : ∀ n ∈ root, IsName n) : Laid root (done ++ [m]) (extractOne limit root force s m) where
  filled := laid.filled.extractOne is names
  running := (laid.placed entries part mem is names).1
  laid m' mem' rel' is' := by
    cases mem_snoc mem' with
    | inl old =>
      have touches := extractOne_touches limit root force s m (rel' ++ root)
      rw [laid.filled.target_eq is names, Touches, laid.laid m' old rel' is'] at touches
      rcases touches with same | ⟨absent, _, _⟩ | ⟨here, _, file⟩
      · exact same
      · cases absent
      · have place : rel' = rel := List.append_cancel_right here
        rw [place] at is' ⊢
        rw [entries.single m' (part m' old) m mem (is'.2.trans is.2.symm)]
        exact (laid.placed entries part mem is names).2
    | inr new =>
      rw [new] at is' ⊢
      have place : rel' = rel := arcName_inj is'.1 is.1 (is'.2.symm.trans is.2)
      rw [place]
      exact (laid.placed entries part mem is names).2
  dirs q dir := by
    have touches := extractOne_touches limit root force s m (q ++ root)
    rw [laid.filled.target_eq is names, dir] at touches
    rcases touches with same | ⟨_, above, _⟩ | ⟨_, _, file⟩
    · cases laid.dirs q same.symm with
      | inl none => exact .inl none
      | inr above =>
        obtain ⟨m', old, rest⟩ := above
        exact .inr ⟨m', List.mem_append_left _ old, rest⟩
    · rw [List.tail_append_of_ne_nil is.1.1] at above
      obtain ⟨front, e⟩ := above
      rw [← List.append_assoc] at e
      have short : q <:+ rel.tail := ⟨front, List.append_cancel_right e⟩
      refine .inr ⟨m, by simp, rel, is, short.trans (List.tail_suffix rel), fun e => ?_⟩
      have len := short.length_le
      have pos := List.length_pos_iff.mpr is.1.1
      rw [e, List.length_tail] at len
      omega
    · cases file

/-! ## Where all members go -/

/-- Nothing is extracted yet. -/
lemma Laid.start (empty : EmptyDir t root) : Laid root [] { tree := t } where
  filled := ⟨empty.dir, fun q e found => absurd found (empty.no_file q e)⟩
  running := rfl
  laid m mem := absurd mem List.not_mem_nil
  dirs q dir := by
    by_cases own : q = []
    · exact .inl own
    · have none : t.get? (q ++ root) = none := empty.below own
      rw [show t.get? (q ++ root) = some .dir from dir] at none
      cases none

/-- All entries are laid. -/
lemma laid_extraction (entries : Entries files) (empty : EmptyDir t root) (names : ∀ n ∈ root, IsName n) :
    Laid root files (extraction t limit root force files) := by
  have all : ∀ done, (∀ m ∈ done, m ∈ files) → Laid root done (extraction t limit root force done) := by
    intro done
    induction done using List.reverseRecOn with
    | nil => exact fun _ => Laid.start empty
    | append_singleton done m ih =>
      intro part
      have before := ih fun m mem => part m (List.mem_append_left _ mem)
      have here := part m (by simp)
      obtain ⟨rel, is⟩ := entries.named m here
      unfold extraction
      rw [List.foldl_append, List.foldl_cons, List.foldl_nil]
      exact before.extractOne entries (fun m mem => part m (List.mem_append_left _ mem)) here is names
  exact all files fun _ mem => mem

/-- Members of packed files are accepted. -/
lemma accepted_of_entries (entries : Entries files) (empty : EmptyDir t root) (names : ∀ n ∈ root, IsName n)
    (some : files ≠ []) : ¬ Rejects t root files := by
  intro rejects
  rcases rejects with none | ⟨m, mem, outside⟩ | ⟨m, mem, bad⟩
  · exact some none
  · obtain ⟨rel, is⟩ := entries.named m mem
    apply outside
    rw [is.2, arcName]
    exact ⟨asPosix rel, by simp⟩
  · obtain ⟨rel, is⟩ := entries.named m mem
    cases bad with
    | inl up =>
      rw [relStr_of_entry is, relNames_asPosix is.1] at up
      exact (is.1.2 ".." (List.mem_reverse.mp up)).1.2.2 rfl
    | inr out =>
      apply out
      have goes := (Laid.start empty).filled.target_eq is names
      rw [show target t root m.relStr = rel ++ root from goes]
      exact List.suffix_append _ _

/-- What is below the directory after the import. -/
lemma file_iff {members : List Member} (entries : Entries (fileMembers members)) {dir : Path}
    (empty : EmptyDir t (t.realpath dir.reverse)) (e : Entry (List UInt8)) :
    (importConfig t limit (some members) dir force).1.get? (q ++ t.realpath dir.reverse) = some (.file e) ↔
      ∃ m ∈ fileMembers members, IsEntry m q ∧ e = .file m.content := by
  have names : ∀ n ∈ t.realpath dir.reverse, IsName n := by
    apply isName_of_mem
    rw [empty.dir]
    exact nofun
  have laid : Laid (t.realpath dir.reverse) (fileMembers members)
      (extraction t limit (t.realpath dir.reverse) force (fileMembers members)) := laid_extraction entries empty names
  have tree : (importConfig t limit (some members) dir force).1 =
      (extraction t limit (t.realpath dir.reverse) force (fileMembers members)).tree := by
    by_cases none : fileMembers members = []
    · rw [importConfig, if_pos (.inl none), none]
      rfl
    · rw [importConfig, if_neg (accepted_of_entries entries empty names none)]
  rw [tree]
  constructor
  · exact laid.filled.files q e
  · rintro ⟨m, mem, is, rfl⟩
    exact laid.laid m mem q is

end

/-! ## The round trip -/

section
variable {src : SourceTree} {limit : Nat} {archive configDir p q rel : Path} {m : Member}

/-- The members of an export that an import keeps. -/
def keptMembers (src : SourceTree) (limit : Nat) (archive configDir : Path) (redact : String → List UInt8 → List UInt8) :
    List Member := fileMembers (exportConfig src limit archive configDir true redact).members

/-- They are the packed files that are stored as themselves. -/
lemma kept_stored (redact : String → List UInt8 → List UInt8) (mem : m ∈ keptMembers src limit archive configDir redact) :
    ∃ rel ∈ src.packed limit configDir, ∃ data, Stored src limit archive configDir rel data ∧ m = entry rel data := by
  obtain ⟨mem, regular⟩ := List.mem_filter.mp mem
  have holds : Holds src limit archive configDir (src.packed limit configDir)
      (secretTar src limit archive configDir redact (src.packed limit configDir)) := holds_secretTar redact _
  obtain ⟨rel, packed, data, stored, e, _⟩ := holds.regular m mem (of_decide_eq_true regular)
  exact ⟨rel, packed, data, stored, e⟩

/-- An entry was packed. -/
lemma stored_of_entry (redact : String → List UInt8 → List UInt8) (mem : m ∈ keptMembers src limit archive configDir redact)
    (is : IsEntry m rel) :
    rel ∈ src.packed limit configDir ∧ ∃ data, Stored src limit archive configDir rel data ∧ m = entry rel data := by
  obtain ⟨rel', packed, data, stored, e⟩ := kept_stored redact mem
  have same : rel = rel' := by
    apply arcName_inj is.1 (named_packed packed).1
    rw [← is.2, e]
    rfl
  rw [same]
  exact ⟨packed, data, stored, e⟩

/-- The kept members are entries. -/
lemma entries_kept (redact : String → List UInt8 → List UInt8) :
    Entries (keptMembers src limit archive configDir redact) where
  named m mem := by
    obtain ⟨rel, packed, data, _, rfl⟩ := kept_stored redact mem
    exact ⟨rel, (named_packed packed).1, rfl⟩
  apart m mem m' mem' rel rel' is is' below := by
    have first := (stored_of_entry redact mem is).1
    have second := (stored_of_entry redact mem' is').1
    exact packed_apart first second below
  single m mem m' mem' same := by
    obtain ⟨rel, packed, data, stored, rfl⟩ := kept_stored redact mem
    have is' : IsEntry m' rel := ⟨(named_packed packed).1, same.symm⟩
    obtain ⟨_, data', stored', rfl⟩ := stored_of_entry redact mem' is'
    have found := stored.2
    rw [stored'.2] at found
    cases found
    rfl

/-- What is restored is portable. -/
lemma portable_of_kept (redact : String → List UInt8 → List UInt8)
    (all : ∀ rel ∈ src.packed limit configDir, ∃ m ∈ keptMembers src limit archive configDir redact, IsEntry m rel) :
    Portable src limit archive configDir where
  stored rel packed := by
    obtain ⟨m, mem, is⟩ := all rel packed
    obtain ⟨_, data, stored, _⟩ := stored_of_entry redact mem is
    exact ⟨data, stored⟩
  single p hp q hq other f g first second inode := by
    have member : ∀ rel ∈ src.packed limit configDir,
        ∃ m ∈ (secretTar src limit archive configDir redact (src.packed limit configDir)).members,
          m.type = .regular ∧ m.name = arcName rel := by
      intro rel packed
      obtain ⟨m, mem, is⟩ := all rel packed
      obtain ⟨mem, regular⟩ := List.mem_filter.mp mem
      exact ⟨m, mem, of_decide_eq_true regular, is.2⟩
    exact links_le_of_members (holds_secretTar redact _) (named_packed hp).1 (named_packed hq).1
      (fun rel packed => (named_packed packed).1) first second inode other (member p hp) (member q hq)

/-- What is portable is restored. -/
lemma kept_of_portable (portable : Portable src limit archive configDir) (redact : String → List UInt8 → List UInt8)
    {data : FileData} (packed : rel ∈ src.packed limit configDir) (file : src.open? limit (rel ++ configDir) = some data) :
    ∃ m ∈ keptMembers src limit archive configDir redact, IsEntry m rel ∧ m.content = data.content := by
  obtain ⟨data', stored, mem⟩ := mem_of_portable portable redact _ (fun _ mem => mem) rel packed
  have same := open?_of_lstat stored.2
  rw [file] at same
  cases same
  refine ⟨entry rel data, List.mem_filter.mpr ⟨mem, ?_⟩, ⟨(named_packed packed).1, rfl⟩, rfl⟩
  exact decide_eq_true rfl

/-- Which files are packed. -/
lemma mem_filesPacked (redact : String → List UInt8 → List UInt8) :
    rel ∈ (exportConfig src limit archive configDir true redact).filesPacked ↔ rel ∈ src.packed limit configDir :=
  List.mem_mergeSort

end

/-- An import into an empty directory restores what was packed if and only if every packed file is portable. It is
confined, whatever it reads. -/
theorem restores_iff (src : SourceTree) (limit : Nat) (archive configDir : Path) (redact : String → List UInt8 → List UInt8)
    (t : LinkTree (List UInt8)) (limit' : Nat) (dir : Path) (force : Bool) (empty : EmptyDir t (t.realpath dir.reverse)) :
    (Restores src limit archive configDir redact t limit' dir force ∧
      ∀ (t : LinkTree (List UInt8)) (limit : Nat) (archive : Option (List Member)) (dir : Path) (force : Bool),
        Confined t limit archive dir force) ↔ Portable src limit archive configDir := by
  constructor
  · rintro ⟨restores, _⟩
    apply portable_of_kept redact
    intro rel packed
    obtain ⟨data, file⟩ := (named_packed packed).2
    have there := (restores rel (.file data.content)).mpr ⟨(mem_filesPacked redact).mpr packed, data, file, rfl⟩
    obtain ⟨m, mem, is, _⟩ := (file_iff (entries_kept redact) empty _).mp there
    exact ⟨m, mem, is⟩
  · intro portable
    refine ⟨fun rel e => ?_, importConfig_confined⟩
    rw [file_iff (entries_kept redact) empty, mem_filesPacked]
    constructor
    · rintro ⟨m, mem, is, rfl⟩
      obtain ⟨packed, data, stored, rfl⟩ := stored_of_entry redact mem is
      exact ⟨packed, data, open?_of_lstat stored.2, rfl⟩
    · rintro ⟨packed, data, file, rfl⟩
      obtain ⟨m, mem, is, same⟩ := kept_of_portable portable redact packed file
      exact ⟨m, mem, is, by rw [same]⟩

/-! ## A settings file and a link to one -/

/-- A configuration directory with a file, and with the settings given. -/
def settingsNodes (settings : Entry FileData) : Dict Path (Node (Entry FileData)) :=
  (((Dict.empty.set [] .dir).set ["c"] .dir).set ["s", "c"] (.file (.file ⟨1, 1, [104]⟩))).set ["settings.yaml", "c"]
    (.file settings)

/-- Its paths. -/
lemma settingsNodes_mem {settings : Entry FileData} {p : Path} (there : (settingsNodes settings).get? p ≠ none) :
    p ∈ [[], ["c"], ["s", "c"], ["settings.yaml", "c"]] := by
  have keys : (settingsNodes settings).keys = [[], ["c"], ["s", "c"], ["settings.yaml", "c"]] := rfl
  rw [← keys]
  exact Dict.mem_keys.mpr (Option.ne_none_iff_exists'.mp there)

/-- Its directories. -/
lemma settingsNodes_closed (settings : Entry FileData) (n : String) (p : Path)
    (there : (settingsNodes settings).get? (n :: p) ≠ none) : (settingsNodes settings).get? p = some .dir := by
  have mem := settingsNodes_mem there
  rcases List.mem_cons.mp mem with e | mem
  · cases e
  have all : ∀ q ∈ [["c"], ["s", "c"], ["settings.yaml", "c"]], (settingsNodes settings).get? q.tail = some .dir :=
    List.forall_mem_cons.mpr ⟨rfl, List.forall_mem_cons.mpr ⟨rfl, List.forall_mem_singleton.mpr rfl⟩⟩
  exact all (n :: p) mem

/-- Its names. -/
lemma settingsNodes_named (settings : Entry FileData) (n : String) (p : Path)
    (there : (settingsNodes settings).get? (n :: p) ≠ none) : IsName n ∧ '/' ∉ n.toList := by
  have mem := settingsNodes_mem there
  rcases List.mem_cons.mp mem with e | mem
  · cases e
  have all : ∀ q ∈ [["c"], ["s", "c"], ["settings.yaml", "c"]], IsName (q.headD "c") ∧ '/' ∉ (q.headD "c").toList := by
    decide
  exact all (n :: p) mem

/-- A file that is no name of the first inode shares nothing. -/
lemma settingsNodes_shared {settings : Entry FileData} (own : ∀ f, settings = .file f → f.inode ≠ 1) (p q : Path)
    (f g : FileData) (first : (settingsNodes settings).get? p = some (.file (.file f)))
    (second : (settingsNodes settings).get? q = some (.file (.file g))) (same : f.inode = g.inode) : f = g := by
  have found : ∀ p f, (settingsNodes settings).get? p = some (.file (.file f)) → f = ⟨1, 1, [104]⟩ ∨ settings = .file f := by
    intro p f found
    unfold settingsNodes at found
    rw [Dict.get?_set, Dict.get?_set, Dict.get?_set, Dict.get?_set] at found
    split at found
    · cases found
      exact .inr rfl
    split at found
    · cases found
      exact .inl rfl
    split at found
    · cases found
    split at found
    · cases found
    · cases found
  cases found p f first with
  | inl e =>
    cases found q g second with
    | inl e' => rw [e, e']
    | inr other =>
      rw [e] at same
      exact absurd same.symm (own g other)
  | inr e =>
    cases found q g second with
    | inl e' =>
      rw [e'] at same
      exact absurd same (own f e)
    | inr e' =>
      rw [e] at e'
      cases e'
      rfl

def settingsTree (settings : Entry FileData) (own : ∀ f, settings = .file f → f.inode ≠ 1) : SourceTree where
  tree := { nodes := settingsNodes settings, root := rfl, closed := settingsNodes_closed settings }
  named n p there := (settingsNodes_named settings n p there).1
  slashFree n p there := (settingsNodes_named settings n p there).2
  shared := settingsNodes_shared own

/-- The settings are a file. -/
def plainSettings : SourceTree := settingsTree (.file ⟨2, 1, [109]⟩) fun f e => by cases e; decide

/-- The settings are a link to the file beside them. -/
def linkedSettings : SourceTree := settingsTree (.link ⟨false, ["s"]⟩) fun f e => by cases e

/-- An empty directory to import into. -/
def freshNodes : Dict Path (Node (Entry (List UInt8))) := (Dict.empty.set [] .dir).set ["d"] .dir

/-- Its paths. -/
lemma freshNodes_mem {n : String} {p : Path} (there : freshNodes.get? (n :: p) ≠ none) : n :: p = ["d"] := by
  have key := Dict.mem_keys.mpr (Option.ne_none_iff_exists'.mp there)
  rw [show freshNodes.keys = [[], ["d"]] from rfl] at key
  exact List.mem_singleton.mp ((List.mem_cons.mp key).resolve_left (List.cons_ne_nil n p))

/-- Its directories. -/
lemma freshNodes_closed (n : String) (p : Path) (there : freshNodes.get? (n :: p) ≠ none) : freshNodes.get? p = some .dir := by
  cases freshNodes_mem there
  rfl

/-- Its names. -/
lemma freshNodes_named (n : String) (p : Path) (there : freshNodes.get? (n :: p) ≠ none) : IsName n := by
  cases freshNodes_mem there
  decide

def freshTree : LinkTree (List UInt8) where
  tree := { nodes := freshNodes, root := rfl, closed := freshNodes_closed }
  named := freshNodes_named

/-- It is empty. -/
lemma fresh_empty : EmptyDir freshTree (freshTree.realpath ["d"].reverse) := by
  have own : freshTree.realpath ["d"].reverse = ["d"] := by decide
  rw [own]
  refine ⟨rfl, fun n => ?_⟩
  by_contra there
  cases freshNodes_mem (n := n) (p := ["d"]) there

/-- What is packed. -/
lemma plain_packed : plainSettings.packed 40 ["c"] = [["settings.yaml"]] := by decide

/-- It is portable. -/
lemma plain_portable : Portable plainSettings 40 ["b"] ["c"] where
  stored rel packed := by
    rw [plain_packed] at packed
    rw [List.mem_singleton.mp packed]
    exact ⟨⟨2, 1, [109]⟩, by decide, by decide⟩
  single p hp q hq other := by
    rw [plain_packed] at hp hq
    rw [List.mem_singleton.mp hp, List.mem_singleton.mp hq] at other
    exact absurd rfl other

/-- Settings that are a file are restored. -/
theorem plain_restored : Restores plainSettings 40 ["b"] ["c"] (fun _ d => d) freshTree 40 ["d"] false :=
  ((restores_iff plainSettings 40 ["b"] ["c"] (fun _ d => d) freshTree 40 ["d"] false fresh_empty).mpr plain_portable).1

/-- What is packed. -/
lemma linked_packed : linkedSettings.packed 40 ["c"] = [["settings.yaml"]] := by decide

/-- The link is followed. -/
lemma linked_open : linkedSettings.open? 40 ["settings.yaml", "c"] = some ⟨1, 1, [104]⟩ := by decide

/-- Nothing is kept. -/
lemma linked_kept : keptMembers linkedSettings 40 ["b"] ["c"] (fun _ d => d) = [] := by decide

/-- Settings that are a link are packed and not restored. -/
theorem linked_not_restored : ¬ ∀ (src : SourceTree) (limit : Nat) (archive configDir : Path)
    (redact : String → List UInt8 → List UInt8) (t : LinkTree (List UInt8)) (limit' : Nat) (dir : Path) (force : Bool),
    EmptyDir t (t.realpath dir.reverse) → Restores src limit archive configDir redact t limit' dir force ∧
      ∀ (t : LinkTree (List UInt8)) (limit : Nat) (archive : Option (List Member)) (dir : Path) (force : Bool),
        Confined t limit archive dir force := by
  intro all
  have restores := (all linkedSettings 40 ["b"] ["c"] (fun _ d => d) freshTree 40 ["d"] false fresh_empty).1
  have packed : ["settings.yaml"] ∈ (exportConfig linkedSettings 40 ["b"] ["c"] true (fun _ d => d)).filesPacked := by
    rw [mem_filesPacked, linked_packed]
    exact List.mem_singleton_self _
  have there := (restores ["settings.yaml"] _).mpr ⟨packed, _, linked_open, rfl⟩
  obtain ⟨m, mem, _⟩ := (file_iff (entries_kept _) fresh_empty _).mp there
  have none : m ∈ keptMembers linkedSettings 40 ["b"] ["c"] (fun _ d => d) := mem
  rw [linked_kept] at none
  cases none

end OpenAgentd.Transfer
