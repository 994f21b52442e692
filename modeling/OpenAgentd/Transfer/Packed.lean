import OpenAgentd.Transfer.Archive
import OpenAgentd.Lib.Joined
import Mathlib.Data.List.Induction

/-!
# What an export packs

The names of the packed files (`named_packed`), none of which stands below another (`packed_apart`), and the regular
members of the archive: each is a packed file (`regular_of_mem`), and each packed file is one if it is stored as itself
and shares no inode with another (`mem_of_portable`).
-/

namespace OpenAgentd.Transfer
open OpenAgentd.Lib LinkTree

/-- The path leads to a file as itself, not through a link at its end, and it is not the archive. -/
def Stored (src : SourceTree) (limit : Nat) (archive configDir rel : Path) (data : FileData) : Prop :=
  absPath (rel ++ configDir) ≠ archive ∧ src.lstat limit (rel ++ configDir) = some (.file (.file data))

/-- Each packed file is stored as itself, and no two are names of one inode. -/
structure Portable (src : SourceTree) (limit : Nat) (archive configDir : Path) : Prop where
  stored : ∀ rel ∈ src.packed limit configDir, ∃ data, Stored src limit archive configDir rel data
  single : ∀ p ∈ src.packed limit configDir, ∀ q ∈ src.packed limit configDir, p ≠ q → ∀ f g,
    src.lstat limit (p ++ configDir) = some (.file (.file f)) →
    src.lstat limit (q ++ configDir) = some (.file (.file g)) → f.inode = g.inode → f.links ≤ 1

section
variable {src : SourceTree} {limit : Nat} {archive configDir d p q rel : Path} {n : String} {data : FileData}
  {tf : TarFile}

/-! ## Names -/

/-- A name as file systems have them. -/
def Named (rel : Path) : Prop := rel ≠ [] ∧ ∀ n ∈ rel, IsName n ∧ '/' ∉ n.toList

/-- Names have no slash. -/
lemma name_of_mem (there : src.get? q ≠ none) (mem : n ∈ q) : IsName n ∧ '/' ∉ n.toList := by
  induction q with
  | nil => cases mem
  | cons m q ih =>
    cases List.mem_cons.mp mem with
    | inl e =>
      rw [e]
      exact ⟨src.named m q there, src.slashFree m q there⟩
    | inr mem =>
      apply ih _ mem
      rw [dir_of_child there]
      exact nofun

/-- What is below. -/
lemma mem_below : rel ∈ src.below d ↔ rel ≠ [] ∧ src.get? (rel ++ d) ≠ none := by
  unfold SourceTree.below
  rw [List.mem_filterMap]
  constructor
  · rintro ⟨q, key, found⟩
    split at found
    next under =>
      obtain ⟨⟨front, rfl⟩, other⟩ := under
      rw [List.length_append, Nat.add_sub_cancel, List.take_left] at found
      cases found
      refine ⟨fun none => other (by rw [none]; rfl), ?_⟩
      exact Option.ne_none_iff_exists'.mpr (Dict.mem_keys.mp key)
    next => cases found
  · rintro ⟨some, there⟩
    refine ⟨rel ++ d, Dict.mem_keys.mpr (Option.ne_none_iff_exists'.mp there), ?_⟩
    have other : rel ++ d ≠ d := fun e => some (List.append_left_eq_self.mp e)
    rw [if_pos ⟨List.suffix_append _ _, other⟩, List.length_append, Nat.add_sub_cancel, List.take_left]

/-- The files of a directory. -/
lemma mem_treeFiles {dirName : String} (mem : rel ∈ src.treeFiles limit configDir dirName) :
    ∃ q, Named q ∧ rel = q ++ [dirName] ∧ src.isFile limit (rel ++ configDir) = true := by
  unfold SourceTree.treeFiles at mem
  split at mem
  · cases mem
  next d dir =>
    obtain ⟨q, kept, rfl⟩ := List.mem_map.mp mem
    obtain ⟨found, keep⟩ := List.mem_filter.mp kept
    obtain ⟨some, there⟩ := mem_below.mp (List.mem_mergeSort.mp found)
    rw [Bool.and_eq_true, Bool.and_eq_true] at keep
    refine ⟨q, ⟨some, fun n mem => name_of_mem there (List.mem_append_left _ mem)⟩, rfl, ?_⟩
    rw [List.append_assoc, List.singleton_append]
    exact keep.1.1

/-- Packed files have names, and their paths lead to files. -/
lemma named_packed (mem : rel ∈ src.packed limit configDir) :
    Named rel ∧ ∃ data, src.open? limit (rel ++ configDir) = some data := by
  have roots : ∀ n ∈ rootFiles, IsName n ∧ '/' ∉ n.toList := by decide
  have trees : ∀ n ∈ treeDirs, IsName n ∧ '/' ∉ n.toList := by decide
  unfold SourceTree.packed at mem
  cases List.mem_append.mp mem with
  | inl mem =>
    obtain ⟨dirName, tree, mem⟩ := List.mem_flatMap.mp mem
    obtain ⟨q, named, rfl, file⟩ := mem_treeFiles mem
    refine ⟨⟨by simp, fun n mem => ?_⟩, Option.isSome_iff_exists.mp file⟩
    cases List.mem_append.mp mem with
    | inl mem => exact named.2 n mem
    | inr last =>
      rw [List.mem_singleton.mp last]
      exact trees dirName tree
  | inr mem =>
    obtain ⟨name, kept, rfl⟩ := List.mem_map.mp mem
    obtain ⟨root, keep⟩ := List.mem_filter.mp kept
    rw [Bool.and_eq_true] at keep
    refine ⟨⟨List.cons_ne_nil _ _, fun n mem => ?_⟩, Option.isSome_iff_exists.mp keep.2⟩
    rw [List.mem_singleton.mp mem]
    exact roots name root

/-! ## Files and what is below them -/

/-- A walk goes on from directories only. -/
lemma dir_of_walks {t : LinkTree FileData} {r : Path} {names : List String} {k : Nat} (named : ∀ n ∈ names, IsName n)
    (more : names ≠ []) (walk : t.Walks p names k r) : t.get? p = some .dir := by
  cases walk with
  | here _ => exact absurd rfl more
  | same dot _ _ => exact absurd dot (not_or.mpr ⟨(named _ List.mem_cons_self).1, (named _ List.mem_cons_self).2.1⟩)
  | up dir _ => exact dir
  | down _ plain _ => exact dir_of_child plain.1
  | link _ link _ => exact dir_of_child (get?_of_link link)

/-- Below a file there is none. -/
lemma packed_apart (hp : p ∈ src.packed limit configDir) (hq : q ∈ src.packed limit configDir) (below : p <:+ q) : p = q := by
  obtain ⟨front, rfl⟩ := below
  obtain ⟨_, f, first⟩ := named_packed hp
  obtain ⟨named, g, second⟩ := named_packed hq
  obtain ⟨r, first, file⟩ := open?_eq_some first
  obtain ⟨s, second, _⟩ := open?_eq_some second
  obtain ⟨k, _, walk⟩ := stat?_eq_some.mp first
  obtain ⟨j, _, longer⟩ := stat?_eq_some.mp second
  by_contra other
  have more : front.reverse ≠ [] := by
    intro none
    rw [List.reverse_eq_nil_iff.mp none] at other
    exact other rfl
  rw [List.append_assoc, List.reverse_append] at longer
  obtain ⟨_, _, m, left, right, _⟩ := longer.split
  have same : r = m := (walk.unique left).2
  have dir := dir_of_walks (fun n mem => (named.2 n (List.mem_append_left _ (List.mem_reverse.mp mem))).1) more right
  rw [← same, file] at dir
  cases dir

/-- What is stored as itself is what the path leads to. -/
lemma open?_of_lstat (file : src.lstat limit p = some (.file (.file data))) : src.open? limit p = some data := by
  cases p with
  | nil => cases file
  | cons n p =>
    obtain ⟨d, dir, here⟩ := Option.bind_eq_some_iff.mp file
    obtain ⟨k, few, walk⟩ := stat?_eq_some.mp (dir?_eq_some.mp dir).1
    have there : src.get? (n :: d) ≠ none := by
      rw [here]
      exact nofun
    have plain : src.Plain (n :: d) := ⟨there, by rw [linkAt?, here]⟩
    have found : src.stat? limit (n :: p) = some (n :: d) := by
      refine stat?_eq_some.mpr ⟨k, few, ?_⟩
      rw [List.reverse_cons]
      exact walk.append (.down (src.named n d there) plain (.here plain))
    rw [open?, found, Option.bind_some, here]

/-! ## Names in the archive -/

/-- The name of a packed file is read back. -/
lemma relNames_asPosix (named : Named rel) : relNames (asPosix rel) = rel.reverse := by
  have parts : ∀ l ∈ rel.reverse.map String.toList, '/' ∉ l := by
    intro l mem
    obtain ⟨n, here, rfl⟩ := List.mem_map.mp mem
    exact (named.2 n (List.mem_reverse.mp here)).2
  have some : rel.reverse.map String.toList ≠ [] := by simp [named.1]
  rw [relNames, asPosix, List.splitOn_intercalate _ parts some, List.map_map]
  have same : String.ofList ∘ String.toList = id := by
    funext n
    exact String.ofList_toList
  rw [same, List.map_id]

/-- Texts tell paths apart. -/
lemma asPosix_inj (hp : Named p) (hq : Named q) (same : asPosix p = asPosix q) : p = q := by
  have names := congrArg relNames same
  rw [relNames_asPosix hp, relNames_asPosix hq] at names
  exact List.reverse_inj.mp names

/-- Names tell paths apart. -/
lemma arcName_inj (hp : Named p) (hq : Named q) (same : arcName p = arcName q) : p = q := by
  apply asPosix_inj hp hq
  exact (List.cons.inj (List.append_cancel_left same)).2

/-- A name without its front. -/
lemma relStr_arcName (rel : Path) (type : MemberType) (content : List UInt8) :
    (Member.mk (arcName rel) type content).relStr = asPosix rel := by
  show (archiveRoot ++ '/' :: asPosix rel).drop _ = _
  rw [show archiveRoot ++ '/' :: asPosix rel = (archiveRoot ++ ['/']) ++ asPosix rel by simp]
  exact List.drop_left' (by rw [List.length_append]; rfl)

/-- A path does not begin with a slash. -/
lemma head?_asPosix (named : Named rel) : (asPosix rel).head? ≠ some '/' := by
  intro slash
  obtain ⟨rest, e⟩ : ∃ rest, asPosix rel = '/' :: rest := by
    cases e : asPosix rel with
    | nil =>
      rw [e] at slash
      cases slash
    | cons c rest =>
      rw [e] at slash
      cases slash
      exact ⟨rest, rfl⟩
  have names := relNames_asPosix named
  have first : "" ∈ relNames ('/' :: rest) := by
    rw [relNames, List.splitOn_cons_eq_if_modifyHead, if_pos (by decide)]
    exact List.mem_cons_self
  rw [← e, names] at first
  exact (named.2 "" (List.mem_reverse.mp first)).1.1 rfl

/-! ## Members -/

/-- The member of a file that is stored as itself. -/
def entry (rel : Path) (data : FileData) : Member := ⟨arcName rel, .regular, data.content⟩

/-- With its secrets a file is added as it is. -/
lemma packOne_secret (redact : String → List UInt8 → List UInt8) :
    src.packOne limit archive configDir true redact tf rel = src.add limit archive (rel ++ configDir) (arcName rel) tf := by
  unfold SourceTree.packOne
  dsimp only
  split
  · rfl
  · rfl

/-- What the archive holds of the files added so far. -/
structure Holds (src : SourceTree) (limit : Nat) (archive configDir : Path) (added : List Path) (tf : TarFile) : Prop where
  regular : ∀ m ∈ tf.members, m.type = .regular → ∃ rel ∈ added, ∃ data, Stored src limit archive configDir rel data ∧
    m = entry rel data ∧ (tf.inodes.get? data.inode).isSome ∧
      (1 < data.links → tf.inodes.get? data.inode = some (arcName rel))
  inodes : ∀ i name, tf.inodes.get? i = some name → ∃ rel ∈ added, ∃ data, Stored src limit archive configDir rel data ∧
    data.inode = i ∧ name = arcName rel

variable {added : List Path}

/-- An empty archive. -/
lemma Holds.start : Holds src limit archive configDir [] {} where
  regular _ mem := by cases mem
  inodes i name found := by cases found

/-- Two paths to files with one inode lead to one file. -/
lemma lstat_shared {f g : FileData} (first : src.lstat limit p = some (.file (.file f)))
    (second : src.lstat limit q = some (.file (.file g))) (same : f.inode = g.inode) : f = g := by
  cases p with
  | nil => cases first
  | cons n p =>
    cases q with
    | nil => cases second
    | cons m q =>
      obtain ⟨d, _, first⟩ := Option.bind_eq_some_iff.mp first
      obtain ⟨e, _, second⟩ := Option.bind_eq_some_iff.mp second
      exact src.shared _ _ f g first second same

/-- A member that is not regular changes nothing here. -/
lemma Holds.other (holds : Holds src limit archive configDir added tf) (m : Member) (type : m.type ≠ .regular) (rel : Path) :
    Holds src limit archive configDir (added ++ [rel]) { tf with members := tf.members ++ [m] } where
  regular m' mem is := by
    cases List.mem_append.mp mem with
    | inl mem =>
      obtain ⟨p, old, data, rest⟩ := holds.regular m' mem is
      exact ⟨p, List.mem_append_left _ old, data, rest⟩
    | inr new =>
      rw [List.mem_singleton.mp new] at is
      exact absurd is type
  inodes i name found := by
    obtain ⟨p, old, data, rest⟩ := holds.inodes i name found
    exact ⟨p, List.mem_append_left _ old, data, rest⟩

/-- A path that is left out. -/
lemma Holds.same (holds : Holds src limit archive configDir added tf) (rel : Path) :
    Holds src limit archive configDir (added ++ [rel]) tf where
  regular m mem is := by
    obtain ⟨p, old, data, rest⟩ := holds.regular m mem is
    exact ⟨p, List.mem_append_left _ old, data, rest⟩
  inodes i name found := by
    obtain ⟨p, old, data, rest⟩ := holds.inodes i name found
    exact ⟨p, List.mem_append_left _ old, data, rest⟩

/-- A regular member. The inode of a file with several names keeps the name that it has. -/
lemma Holds.entry (holds : Holds src limit archive configDir added tf) (stored : Stored src limit archive configDir rel data)
    (keeps : ∀ name, tf.inodes.get? data.inode = some name → 1 < data.links → name = arcName rel) :
    Holds src limit archive configDir (added ++ [rel])
      { members := tf.members ++ [entry rel data], inodes := tf.inodes.set data.inode (arcName rel) } where
  regular m mem is := by
    cases List.mem_append.mp mem with
    | inl mem =>
      obtain ⟨p, old, f, here, e, known, name⟩ := holds.regular m mem is
      refine ⟨p, List.mem_append_left _ old, f, here, e, ?_, fun several => ?_⟩
      · rw [Dict.get?_set]
        split
        · rfl
        · exact known
      · rw [Dict.get?_set]
        split
        next one =>
          have same : f = data := lstat_shared here.2 stored.2 one
          have before := name several
          rw [same] at before several
          rw [keeps _ before several]
        next => exact name several
    | inr new =>
      refine ⟨rel, by simp, data, stored, List.mem_singleton.mp new, ?_, fun _ => ?_⟩
      · rw [Dict.get?_set, if_pos rfl]
        rfl
      · rw [Dict.get?_set, if_pos rfl]
  inodes i name found := by
    rw [Dict.get?_set] at found
    split at found
    next one =>
      cases found
      exact ⟨rel, by simp, data, stored, one.symm, rfl⟩
    next =>
      obtain ⟨p, old, rest⟩ := holds.inodes i name found
      exact ⟨p, List.mem_append_left _ old, rest⟩

/-- A file is added. -/
lemma Holds.add (holds : Holds src limit archive configDir added tf) (rel : Path) :
    Holds src limit archive configDir (added ++ [rel]) (src.add limit archive (rel ++ configDir) (arcName rel) tf) := by
  unfold SourceTree.add
  split
  · exact holds.same rel
  next other =>
    split
    next data file =>
      have stored : Stored src limit archive configDir rel data := ⟨other, file⟩
      split
      next name known =>
        split
        · exact holds.other _ (by simp) rel
        next first =>
          refine holds.entry stored fun name' known' several => ?_
          rw [known] at known'
          cases known'
          by_contra differs
          exact first ⟨several, Ne.symm differs⟩
      next unknown =>
        refine holds.entry stored fun name' known' _ => ?_
        rw [unknown] at known'
        cases known'
    · exact holds.other _ (by simp) rel
    · exact holds.same rel

/-- The archive with its secrets. -/
def secretTar (src : SourceTree) (limit : Nat) (archive configDir : Path) (redact : String → List UInt8 → List UInt8)
    (rels : List Path) : TarFile := rels.foldl (src.packOne limit archive configDir true redact) {}

/-- One path more. -/
lemma secretTar_snoc (redact : String → List UInt8 → List UInt8) (rels : List Path) (rel : Path) :
    secretTar src limit archive configDir redact (rels ++ [rel]) =
      src.add limit archive (rel ++ configDir) (arcName rel) (secretTar src limit archive configDir redact rels) := by
  rw [secretTar, List.foldl_append, List.foldl_cons, List.foldl_nil, packOne_secret]
  rfl

/-- The archive holds the files. -/
lemma holds_secretTar (redact : String → List UInt8 → List UInt8) (rels : List Path) :
    Holds src limit archive configDir rels (secretTar src limit archive configDir redact rels) := by
  induction rels using List.reverseRecOn with
  | nil => exact Holds.start
  | append_singleton rels rel ih =>
    rw [secretTar_snoc]
    exact ih.add rel

/-- Of two names of one inode only one is stored as a file. -/
lemma links_le_of_members {f g : FileData} (holds : Holds src limit archive configDir added tf) (hp : Named p) (hq : Named q)
    (named : ∀ rel ∈ added, Named rel) (first : src.lstat limit (p ++ configDir) = some (.file (.file f)))
    (second : src.lstat limit (q ++ configDir) = some (.file (.file g))) (same : f.inode = g.inode) (other : p ≠ q)
    (mp : ∃ m ∈ tf.members, m.type = .regular ∧ m.name = arcName p)
    (mq : ∃ m ∈ tf.members, m.type = .regular ∧ m.name = arcName q) : f.links ≤ 1 := by
  have stored : ∀ {r : Path} {h : FileData}, Named r → src.lstat limit (r ++ configDir) = some (.file (.file h)) →
      (∃ m ∈ tf.members, m.type = .regular ∧ m.name = arcName r) → 1 < h.links →
      tf.inodes.get? h.inode = some (arcName r) := by
    intro r h named' file member several
    obtain ⟨m, mem, is, name⟩ := member
    obtain ⟨rel, old, data, here, rfl, _, known⟩ := holds.regular m mem is
    have e : rel = r := arcName_inj (named rel old) named' name
    rw [e] at here known
    have one : data = h := by
      have found := here.2
      rw [file] at found
      cases found
      rfl
    rw [one] at known
    exact known several
  have one : f = g := lstat_shared first second same
  by_contra several
  have several : 1 < f.links := Nat.not_le.mp several
  have atP := stored hp first mp several
  have atQ := stored hq second mq (one ▸ several)
  rw [← one, atP] at atQ
  exact other (arcName_inj hp hq (Option.some.inj atQ))

/-- A file is added as itself if its inode was not stored under another name. -/
lemma add_stored (name : List Char) (stored : Stored src limit archive configDir rel data)
    (keeps : ∀ other, tf.inodes.get? data.inode = some other → 1 < data.links → other = name) :
    (src.add limit archive (rel ++ configDir) name tf).members = tf.members ++ [⟨name, .regular, data.content⟩] := by
  rw [SourceTree.add, if_neg stored.1, stored.2]
  dsimp only
  split
  next other known =>
    rw [if_neg]
    intro several
    exact several.2 (keeps other known several.1).symm
  next => rfl

/-- A portable file is stored as itself. -/
lemma mem_of_portable (portable : Portable src limit archive configDir) (redact : String → List UInt8 → List UInt8)
    (rels : List Path) (part : ∀ rel ∈ rels, rel ∈ src.packed limit configDir) :
    ∀ rel ∈ rels, ∃ data, Stored src limit archive configDir rel data ∧
      entry rel data ∈ (secretTar src limit archive configDir redact rels).members := by
  induction rels using List.reverseRecOn with
  | nil => nofun
  | append_singleton rels last ih =>
    have holds : Holds src limit archive configDir rels (secretTar src limit archive configDir redact rels) :=
      holds_secretTar redact rels
    have old := ih fun rel mem => part rel (List.mem_append_left _ mem)
    have here := part last (by simp)
    obtain ⟨data, stored⟩ := portable.stored last here
    have added := add_stored (arcName last) stored fun name known several => by
      obtain ⟨rel, mem, f, there, inode, rfl⟩ := holds.inodes _ _ known
      by_contra differs
      have other : rel ≠ last := fun e => differs (by rw [e])
      have few := portable.single rel (part rel (List.mem_append_left _ mem)) last here other f data there.2 stored.2 inode
      have one : f = data := lstat_shared there.2 stored.2 inode
      rw [one] at few
      omega
    intro rel mem
    rw [secretTar_snoc, added]
    cases List.mem_append.mp mem with
    | inl mem =>
      obtain ⟨f, stored, mem⟩ := old rel mem
      exact ⟨f, stored, List.mem_append_left _ mem⟩
    | inr new =>
      rw [List.mem_singleton.mp new]
      exact ⟨data, stored, List.mem_append_right _ (List.mem_singleton_self _)⟩

end

end OpenAgentd.Transfer
