import OpenAgentd.AgentFs.Names

/-!
# One file for each name

What goes through a name touches one file, that of its path (`atomicWrite_frame`). Two names have files of their own,
every name that is written is listed, and every listed name is read, under the exact conditions of `addressed_iff`:
the check of names lets suffixes pass that the path of a name leaves out.
-/

namespace OpenAgentd.AgentFs
open Lib Filesystem

/-- A file can be written at a path: it is no directory, and nothing above it is a file. -/
def Writable (t : FileTree String) (p : Path) : Prop :=
  t.get? p ≠ some .dir ∧ ∀ d content, d <:+ p → d ≠ p → t.get? d ≠ some (.file content)

/-- The agents are addressed one to one, as far as the names `n` and `m` go. -/
structure Addressed (t : FileTree String) (n m : String) : Prop where
  written : ∀ random content create, readAgent (writeAgent t random n content create).1 m = readAgent t m
  deleted : readAgent (deleteAgent t n).1 m = readAgent t m
  listed : ∀ random content create record, (writeAgent t random n content create).2 = .ok record →
    n ∈ listAgents (writeAgent t random n content create).1
  readBack : ∀ p ∈ mdPaths t, ∃ content, t.get? p = some (.file content) ∧
    readAgent t (agentName p) = .ok ⟨agentName p, p, readText content⟩

/-- What the names and the files of the store must be like. -/
structure Orderly (t : FileTree String) (n m : String) : Prop where
  apart : withSuffix "" (purePathParts n).reverse = withSuffix "" (purePathParts m).reverse → ¬ Writable t (address n)
  plain : Writable t (address n) → Plain n
  files : ∀ p, IsMd p → t.get? p ≠ none → (∃ content, t.get? p = some (.file content)) ∧ Readable p

/-- For a reader at `q` nothing is different: the node is the same, or a directory where nothing was. -/
def Unread (t t' : FileTree String) (q : Path) : Prop := t'.get? q = t.get? q ∨ t.get? q = none ∧ t'.get? q = some .dir

section
variable {t t' : FileTree String} {n m name random content : String} {p q parent : Path} {create : Bool}

/-! ## Writing -/

/-- Making directories: they are there behind it, or a file is in the way and nothing is made. -/
lemma mkdirs_spec {ok : Bool} (h : t.mkdirs (fun _ => false) p = (t', ok)) :
    (∀ q, t'.get? q = t.get? q ∨ t.get? q = none ∧ t'.get? q = some .dir ∧ q <:+ p) ∧
      (ok = true ↔ ∀ d content, d <:+ p → t.get? d ≠ some (.file content)) ∧
        (ok = true → t'.get? p = some .dir) := by
  obtain ⟨rest, made, M⟩ := FileTree.mkdirs_made (fun _ => false) t p
  rw [h] at M
  have kept : ∀ q, t'.get? q = t.get? q ∨ t.get? q = none ∧ t'.get? q = some .dir ∧ q <:+ p := by
    intro q
    have found : t'.get? q = if q ∈ made then some .dir else t.get? q := M.get? q
    by_cases new : q ∈ made
    · have missing := FileTree.mem_missing (M.missing ▸ List.mem_append_right rest new)
      rw [if_pos new] at found
      exact .inr ⟨missing.1, found, missing.2⟩
    · rw [if_neg new] at found
      exact .inl found
  refine ⟨kept, ⟨?_, ?_⟩, fun done => (M.done done).2⟩
  · rintro rfl d content above file
    have dir := (M.done rfl).2
    cases kept d with
    | inl same =>
      have there : t'.get? d = some .dir := by
        by_cases e : d = p
        · rwa [e]
        · exact FileTree.dir_of_above above e (by rw [dir]; exact Option.some_ne_none _)
      rw [same, file] at there
      cases there
    | inr new =>
      rw [file] at new
      cases new.1
  · intro free
    by_contra no
    have none : made = [] := by
      by_contra some
      obtain ⟨_, d, _, fails⟩ := M.stuck (by simpa using no) some
      cases fails
    cases M.refused (by simpa using no) none with
    | inl other =>
      obtain ⟨x, there⟩ : ∃ x, t.get? (t.anchor p) = some x :=
        Option.ne_none_iff_exists'.mp FileTree.anchor_ne_none
      cases x with
      | dir => exact other there
      | file content => exact free _ content FileTree.anchor_suffix there
    | inr topmost =>
      obtain ⟨_, d, _, fails⟩ := topmost
      cases fails

/-- A path above a file to be written. -/
lemma writable_iff : Writable t (name :: parent) ↔
    t.get? (name :: parent) ≠ some .dir ∧ ∀ d content, d <:+ parent → t.get? d ≠ some (.file content) := by
  refine and_congr_right' ⟨fun free d content above => ?_, fun free d content above other => ?_⟩
  · apply free d content (above.trans (List.suffix_cons _ _))
    rintro rfl
    have len := above.length_le
    rw [List.length_cons] at len
    exact Nat.lt_irrefl _ len
  · exact free d content ((List.suffix_cons_iff.mp above).resolve_left other)

/-- A temporary name is another. -/
lemma tmpName_ne : tmpName name random ≠ name := by
  intro e
  have len := congrArg String.length e
  simp only [tmpName, String.length_append] at len
  have dot : ".".length = 1 := rfl
  omega

/-- How a write ends. The directories are made first, then the temporary file, then it takes its place. -/
inductive Outcome (t : FileTree String) (tmp p : Path) (content : String) : FileTree String × Bool → Prop
  | blocked {t₁} :
    t.mkdirs (fun _ => false) p.tail = (t₁, false) →
    Outcome t tmp p content (t₁, false)
  | taken {t₁} :
    t.mkdirs (fun _ => false) p.tail = (t₁, true) →
    t₁.get? tmp ≠ none →
    Outcome t tmp p content (t₁, false)
  | stays {t₁ t₂} :
    t.mkdirs (fun _ => false) p.tail = (t₁, true) →
    t₁.get? tmp = none →
    t₁.get? p = some .dir →
    (∀ q, t₂.get? q = if q = tmp then some (.file content) else t₁.get? q) →
    Outcome t tmp p content (t₂, false)
  | done {t₁ t₂} :
    t.mkdirs (fun _ => false) p.tail = (t₁, true) →
    t₁.get? tmp = none →
    t₁.get? p ≠ some .dir →
    (∀ q, t₂.get? q = if q = p then some (.file content) else t₁.get? q) →
    Outcome t tmp p content (t₂, true)

/-- What an atomic write leaves. -/
lemma atomicWrite_outcome (t : FileTree String) (random content name : String) (parent : Path) :
    Outcome t (tmpName name random :: parent) (name :: parent) content
      (atomicWrite t random content (name :: parent)) := by
  have other : name :: parent ≠ tmpName name random :: parent := fun e => tmpName_ne (List.cons.inj e).1.symm
  rw [atomicWrite]
  split
  next t₁ blocked => exact .blocked blocked
  next t₁ made =>
    have dir := (mkdirs_spec made).2.2 rfl
    split
    next fresh =>
      split
      next refused =>
        have vacant : t₁.get? (tmpName name random :: parent) ≠ some .dir := by
          rw [fresh]
          exact (Option.some_ne_none _).symm
        have some := (FileTree.write_isSome (f := content)).mpr ⟨dir, vacant⟩
        rw [refused] at some
        cases some
      next t₂ temp =>
        have found : ∀ q, t₂.get? q = if q = tmpName name random :: parent then some (.file content) else t₁.get? q :=
          fun q => (FileTree.write_some temp).2
        split
        next refused =>
          refine .stays made fresh ?_ found
          by_contra vacant
          have source := found (tmpName name random :: parent)
          rw [if_pos rfl] at source
          have above := found parent
          rw [if_neg (List.cons_ne_self _ _).symm, dir] at above
          have target := found (name :: parent)
          rw [if_neg other] at target
          have some := FileTree.replace_isSome source above (by rw [target]; exact vacant)
          rw [refused] at some
          cases some
        next t₃ moved =>
          obtain ⟨f, source, vacant, _⟩ := FileTree.replace_some (q := name :: parent) moved
          have target := found (name :: parent)
          rw [if_neg other] at target
          refine .done made fresh (by rw [← target]; exact vacant.resolve_left other) fun q => ?_
          rw [found, if_pos rfl] at source
          cases source
          obtain ⟨g, source, _, moved⟩ := FileTree.replace_some (q := q) moved
          rw [found, if_pos rfl] at source
          cases source
          rw [moved, found]
          split
          next => rfl
          next =>
            split
            next here => rw [here, fresh]
            next => rfl
    next taken => exact .taken made taken

/-- A write that succeeds was possible, and besides the file only directories are new. -/
lemma Outcome.ok {tmp : Path} (h : Outcome t tmp (name :: parent) content (t', true)) :
    Writable t (name :: parent) ∧ t'.get? (name :: parent) = some (.file content) ∧
      ∀ q, q ≠ name :: parent → t'.get? q = t.get? q ∨ t.get? q = none ∧ t'.get? q = some .dir ∧ q <:+ parent := by
  cases h with
  | done made fresh vacant found =>
    obtain ⟨kept, free, _⟩ := mkdirs_spec made
    refine ⟨writable_iff.mpr ⟨fun dir => ?_, free.mp rfl⟩, by rw [found, if_pos rfl], fun q other => ?_⟩
    · cases kept (name :: parent) with
      | inl same => exact vacant (same.trans dir)
      | inr new => exact vacant new.2.1
    · rw [found, if_neg other]
      exact kept q

/-- A write leaves every other path but the temporary one to its readers. -/
lemma Outcome.frame {tmp : Path} {ok : Bool} (h : Outcome t tmp p content (t', ok)) (temp : q ≠ tmp)
    (other : q ≠ p ∨ ok = false) : Unread t t' q := by
  have kept : ∀ {t₁ ok}, t.mkdirs (fun _ => false) p.tail = (t₁, ok) → Unread t t₁ q := by
    intro t₁ ok made
    cases (mkdirs_spec made).1 q with
    | inl same => exact .inl same
    | inr new => exact .inr ⟨new.1, new.2.1⟩
  cases h with
  | blocked made => exact kept made
  | taken made _ => exact kept made
  | stays made _ _ found =>
    unfold Unread
    rw [found, if_neg temp]
    exact kept made
  | done made _ _ found =>
    unfold Unread
    rw [found, if_neg (other.resolve_right Bool.false_ne_true.symm)]
    exact kept made

/-- A write that is possible succeeds with a new temporary name. -/
lemma Outcome.of_writable {tmp : Path} {ok : Bool} (h : Outcome t tmp (name :: parent) content (t', ok))
    (free : Writable t (name :: parent)) (fresh : t.get? tmp = none) (beside : ¬ tmp <:+ parent) : ok = true := by
  obtain ⟨vacant, free⟩ := writable_iff.mp free
  cases h with
  | blocked made => exact (mkdirs_spec made).2.1.mpr free
  | taken made there =>
    cases (mkdirs_spec made).1 tmp with
    | inl same => exact absurd (same.trans fresh) there
    | inr new => exact absurd new.2.2 beside
  | stays made _ dir _ =>
    cases (mkdirs_spec made).1 (name :: parent) with
    | inl same => exact absurd (same.symm.trans dir) vacant
    | inr new =>
      have len := new.2.2.length_le
      rw [List.tail_cons, List.length_cons] at len
      exact absurd len (Nat.not_succ_le_self _)
  | done _ _ _ _ => rfl

/-- There is always a new temporary name. -/
lemma exists_fresh (t : FileTree String) (name : String) (parent : Path) :
    ∃ random, t.get? (tmpName name random :: parent) = none := by
  have bound : ∀ keys : List Path, ∃ k, ∀ p ∈ keys, ∀ n ∈ p.head?, n.length < k := by
    intro keys
    induction keys with
    | nil => exact ⟨0, fun p mem => absurd mem List.not_mem_nil⟩
    | cons p keys ih =>
      obtain ⟨k, short⟩ := ih
      refine ⟨k + (p.headD "").length + 1, fun q mem n head => ?_⟩
      cases List.mem_cons.mp mem with
      | inl e =>
        have here : q.headD "" = n := by rw [List.headD_eq_head?_getD, Option.mem_def.mp head]; rfl
        rw [← e, here]
        omega
      | inr mem =>
        have := short q mem n head
        omega
  obtain ⟨k, short⟩ := bound t.nodes.keys
  refine ⟨String.ofList (List.replicate k 'x'), ?_⟩
  by_contra there
  have key := Dict.mem_keys.mpr (Option.ne_none_iff_exists'.mp there)
  have len := short _ key _ (Option.mem_some_self _)
  simp only [tmpName, String.length_append, String.length_ofList, List.length_replicate] at len
  omega

/-! ## Reading -/

/-- What is found under an accepted name. -/
lemma readAgent_of_accepted (ok : Accepted m) : readAgent t m =
    match t.get? (address m) with
    | some (.file content) => .ok ⟨m, address m, readText content⟩
    | _ => .error (.notFound s!"Agent '{m}' not found.") := by
  rw [readAgent, agentFile_of_accepted ok]
  rfl

/-- Only its own file is read. -/
lemma readAgent_congr (ok : Accepted m) (same : Unread t t' (address m)) : readAgent t' m = readAgent t m := by
  rw [readAgent_of_accepted ok, readAgent_of_accepted ok]
  cases same with
  | inl same => rw [same]
  | inr new => rw [new.1, new.2]

/-- The names in the list are those of the Markdown paths. -/
lemma mem_listAgents : n ∈ listAgents t ↔ n ≠ "" ∧ ∃ p ∈ mdPaths t, agentName p = n := by
  unfold listAgents
  rw [List.mem_insertionSort, List.mem_filter, List.mem_map, decide_eq_true_eq]
  exact and_comm

/-- The files with the suffix. -/
lemma mem_mdPaths : p ∈ mdPaths t ↔ t.get? p ≠ none ∧ IsMd p := by
  unfold mdPaths IsMd
  rw [List.mem_filter, Dict.mem_keys, ← Option.ne_none_iff_exists']
  refine and_congr_right' ?_
  cases p with
  | nil => exact iff_of_false (by simp) (by simp)
  | cons name parent => simp

/-! ## One file for each name -/

/-- A write through an accepted name. -/
lemma writeAgent_cases (ok : Accepted n) (t : FileTree String) (random content : String) (create : Bool) :
    (∃ e, writeAgent t random n content create = (t, .error e) ∧ create = true ∧ t.get? (address n) ≠ none) ∨
      ∃ t' done, atomicWrite t random content (address n) = (t', done) ∧ (writeAgent t random n content create).1 = t' ∧
        ((∃ record, (writeAgent t random n content create).2 = .ok record) ↔ done = true) := by
  unfold writeAgent
  rw [agentFile_of_accepted ok]
  dsimp only
  split
  next there => exact .inl ⟨_, rfl, there.1, there.2⟩
  next =>
    right
    cases written : atomicWrite t random content (address n) with
    | mk t' done =>
      refine ⟨t', done, rfl, ?_⟩
      cases done with
      | false => exact ⟨rfl, iff_of_false nofun Bool.false_ne_true⟩
      | true => exact ⟨rfl, iff_of_true ⟨_, rfl⟩ rfl⟩

/-- The path of an accepted name. -/
lemma address_cons (ok : Accepted n) : ∃ name parent, address n = (name ++ md) :: parent := by
  obtain ⟨last, parent, e, _⟩ := ok.split
  exact ⟨stem last, parent, by rw [address, e, withSuffix]⟩

/-- No path of a name is a temporary one. -/
lemma address_ne_tmp (ok : Accepted m) : address m ≠ tmpName name random :: parent := by
  obtain ⟨stem, above, e⟩ := address_cons ok
  rw [e]
  intro same
  have chars := String.toList_inj.mpr (List.cons.inj same).1
  rw [tmpName, String.toList_append, String.toList_append] at chars
  have last := congrArg List.getLast? chars
  have d : md.toList.getLast? = some 'd' := by decide
  have p : ".tmp".toList.getLast? = some 'p' := by decide
  rw [List.getLast?_append, List.getLast?_append, d, p, Option.some_or, Option.some_or] at last
  exact absurd (Option.some.inj last) (by decide)

/-- The name of a directory above the file has fewer parts. -/
lemma agentName_ne_of_above (ok : Accepted n) (path : address n = name :: parent) (above : q <:+ parent)
    (some : q ≠ []) : agentName q ≠ n := by
  obtain ⟨last, parts, e, valid⟩ := ok.split
  have same : parts = parent := by
    rw [address, e, withSuffix] at path
    exact (List.cons.inj path).2
  obtain ⟨front, rest, rfl⟩ := List.exists_cons_of_ne_nil some
  have valid' := valid_withSuffix fun part mem => valid part (List.mem_cons_of_mem _ (same ▸ above.subset mem))
  intro named
  have again := purePathParts_asPosix (inside_of_valid valid') (List.cons_ne_nil _ _)
  rw [← withSuffix_cons, ← agentName, named, withSuffix_cons, ← List.reverse_inj, List.reverse_reverse, e,
    same] at again
  have len := above.length_le
  rw [← (List.cons.inj again).2, List.length_cons] at len
  exact Nat.not_succ_le_self _ len

/-- Through `n` nothing changes for `m` if and only if they have different files, or `n` has none to write. -/
lemma frame_iff (hn : Accepted n) (hm : Accepted m) :
    ((∀ random content create, readAgent (writeAgent t random n content create).1 m = readAgent t m) ∧
      readAgent (deleteAgent t n).1 m = readAgent t m) ↔ (address n = address m → ¬ Writable t (address n)) := by
  obtain ⟨stem, parent, path⟩ := address_cons hn
  constructor
  · rintro ⟨written, deleted⟩ same free
    rw [readAgent_of_accepted hm, readAgent_of_accepted hm, ← same] at deleted
    cases there : t.get? (address n) with
    | none =>
      obtain ⟨random, fresh⟩ := exists_fresh t (stem ++ md) parent
      have new := written random "" false
      obtain ⟨_, _, create, _⟩ | ⟨t', done, wrote, e, _⟩ := writeAgent_cases hn t random "" false
      · cases create
      · rw [path] at wrote free
        have outcome := atomicWrite_outcome t random "" (stem ++ md) parent
        rw [wrote] at outcome
        have beside : ¬ tmpName (stem ++ md) random :: parent <:+ parent := by
          intro above
          exact absurd above.length_le (Nat.not_succ_le_self _)
        have ok := outcome.of_writable free fresh beside
        rw [ok] at outcome
        rw [e, readAgent_of_accepted hm, readAgent_of_accepted hm, ← same, there, path, outcome.ok.2.1] at new
        cases new
    | some x =>
      cases x with
      | dir => exact free.1 there
      | file content =>
        obtain ⟨t', gone⟩ := Option.isSome_iff_exists.mp (FileTree.unlink_isSome there)
        have e : (deleteAgent t n).1 = t' := by
          rw [deleteAgent, agentFile_of_accepted hn]
          dsimp only
          rw [gone]
        rw [e, (FileTree.unlink_some gone).2, if_pos rfl, there] at deleted
        cases deleted
  · intro apart
    constructor
    · intro random content create
      obtain ⟨_, e, _⟩ | ⟨t', done, wrote, e, _⟩ := writeAgent_cases hn t random content create
      · rw [e]
      · rw [e]
        have outcome := atomicWrite_outcome t random content (stem ++ md) parent
        rw [← path, wrote] at outcome
        apply readAgent_congr hm
        apply outcome.frame (address_ne_tmp hm)
        by_cases same : address n = address m
        · right
          by_contra ok
          rw [Bool.not_eq_false] at ok
          rw [ok, path] at outcome
          exact apart same (path ▸ outcome.ok.1)
        · exact .inl fun e => same e.symm
    · unfold deleteAgent
      rw [agentFile_of_accepted hn]
      dsimp only
      split
      next t' gone =>
        apply readAgent_congr hm
        by_cases same : address n = address m
        · obtain ⟨⟨content, file⟩, _⟩ := FileTree.unlink_some (q := []) gone
          refine absurd ⟨by rw [file]; exact nofun, fun d f above other there => ?_⟩ (apart same)
          have dir := FileTree.dir_of_above above other (by rw [file]; exact Option.some_ne_none _)
          rw [dir] at there
          cases there
        · left
          rw [(FileTree.unlink_some gone).2, if_neg fun e => same e.symm]
      next => rfl

/-- A written name is in the list if and only if it is plain, or another path has brought it in. -/
lemma listed_iff (hn : Accepted n) :
    (∀ random content create record, (writeAgent t random n content create).2 = .ok record →
      n ∈ listAgents (writeAgent t random n content create).1) ↔
        (Writable t (address n) → Plain n ∨ n ∈ listAgents t) := by
  obtain ⟨stem, parent, path⟩ := address_cons hn
  obtain ⟨inside, some, cut⟩ := hn.inside
  have nonempty : n ≠ "" := by
    rintro rfl
    obtain ⟨last, above, e, _⟩ := hn.split
    cases e
  have isMd : IsMd (address n) := ⟨_, _, path, by rw [String.toList_append]; exact List.suffix_append _ _⟩
  constructor
  · intro listed free
    obtain ⟨random, fresh⟩ := exists_fresh t (stem ++ md) parent
    obtain ⟨_, _, create, _⟩ | ⟨t', done, wrote, e, result⟩ := writeAgent_cases hn t random "" false
    · cases create
    · rw [path] at wrote free
      have outcome := atomicWrite_outcome t random "" (stem ++ md) parent
      rw [wrote] at outcome
      have beside : ¬ tmpName (stem ++ md) random :: parent <:+ parent := by
        intro above
        exact absurd above.length_le (Nat.not_succ_le_self _)
      have ok := outcome.of_writable free fresh beside
      rw [ok] at outcome
      obtain ⟨record, success⟩ := result.mpr ok
      have mem := listed random "" false record success
      rw [e, mem_listAgents] at mem
      obtain ⟨_, q, mem, named⟩ := mem
      obtain ⟨there, isMd⟩ := mem_mdPaths.mp mem
      by_cases own : q = address n
      · rw [own] at named
        exact .inl ((agentName_address_iff hn).mp named)
      · right
        rw [path] at own
        cases outcome.ok.2.2 q own with
        | inl old =>
          rw [old] at there
          exact mem_listAgents.mpr ⟨nonempty, q, mem_mdPaths.mpr ⟨there, isMd⟩, named⟩
        | inr new =>
          obtain ⟨front, rest, e, _⟩ := isMd
          exact absurd named (agentName_ne_of_above hn path new.2.2 (by rw [e]; exact List.cons_ne_nil _ _))
  · intro plain random content create record success
    obtain ⟨_, e, _⟩ | ⟨t', done, wrote, e, result⟩ := writeAgent_cases hn t random content create
    · rw [e] at success
      cases success
    · have ok := result.mp ⟨record, success⟩
      have outcome := atomicWrite_outcome t random content (stem ++ md) parent
      rw [← path, wrote, ok, path] at outcome
      obtain ⟨free, file, kept⟩ := outcome.ok
      rw [← path] at free file kept
      rw [e, mem_listAgents]
      refine ⟨nonempty, ?_⟩
      cases plain free with
      | inl plain =>
        refine ⟨address n, mem_mdPaths.mpr ⟨by rw [file]; exact Option.some_ne_none _, isMd⟩, ?_⟩
        exact (agentName_address_iff hn).mpr plain
      | inr before =>
        obtain ⟨_, q, mem, named⟩ := mem_listAgents.mp before
        obtain ⟨there, isMd⟩ := mem_mdPaths.mp mem
        refine ⟨q, mem_mdPaths.mpr ⟨?_, isMd⟩, named⟩
        by_cases own : q = address n
        · rw [own, file]
          exact Option.some_ne_none _
        · cases kept q own with
          | inl old => rwa [old]
          | inr new => exact absurd new.1 there

/-- Listed paths are read back if and only if they are files with readable names. -/
lemma readBack_iff : (∀ p ∈ mdPaths t, ∃ content, t.get? p = some (.file content) ∧
    readAgent t (agentName p) = .ok ⟨agentName p, p, readText content⟩) ↔
      ∀ p, IsMd p → t.get? p ≠ none → (∃ content, t.get? p = some (.file content)) ∧ Readable p := by
  refine forall_congr' fun p => ?_
  rw [mem_mdPaths, and_comm, and_imp]
  refine forall₂_congr fun isMd _ => ?_
  have readable := agentFile_agentName_iff isMd
  constructor
  · rintro ⟨content, file, read⟩
    refine ⟨⟨content, file⟩, readable.mp ?_⟩
    unfold readAgent at read
    cases named : agentFile (agentName p) with
    | error e =>
      rw [named] at read
      cases read
    | ok q =>
      rw [named] at read
      dsimp only [bind, Except.bind] at read
      split at read
      next => exact congrArg Except.ok (congrArg AgentFileRecord.path (Except.ok.inj read))
      next => cases read
  · rintro ⟨⟨content, file⟩, ok⟩
    refine ⟨content, file, ?_⟩
    rw [readAgent, readable.mpr ok]
    dsimp only [bind, Except.bind]
    rw [file]
    rfl

/-- A readable path that is listed under an accepted name is the path of that name. -/
lemma plain_of_listed (hn : Accepted n) (files : ∀ p, IsMd p → t.get? p ≠ none → Readable p) (mem : n ∈ listAgents t) :
    Plain n := by
  obtain ⟨_, p, mem, named⟩ := mem_listAgents.mp mem
  obtain ⟨there, isMd⟩ := mem_mdPaths.mp mem
  have own := (agentFile_agentName_iff isMd).mpr (files p isMd there)
  rw [named, agentFile_of_accepted hn] at own
  rw [← agentName_address_iff hn, Except.ok.inj own, named]

/-- Agent files are addressed one to one if and only if names and files are orderly. -/
theorem addressed_iff (hn : Accepted n) (hm : Accepted m) : Addressed t n m ↔ Orderly t n m := by
  have frame := frame_iff (t := t) hn hm
  rw [address_eq_iff] at frame
  constructor
  · intro h
    have files := readBack_iff.mp h.readBack
    refine ⟨frame.mp ⟨h.written, h.deleted⟩, fun free => ?_, files⟩
    cases (listed_iff hn).mp h.listed free with
    | inl plain => exact plain
    | inr before => exact plain_of_listed hn (fun p isMd there => (files p isMd there).2) before
  · intro h
    obtain ⟨written, deleted⟩ := frame.mpr h.apart
    exact ⟨written, deleted, (listed_iff hn).mpr fun free => .inl (h.plain free), readBack_iff.mpr h.files⟩

end

/-- A name that is its parts. -/
lemma plain_of_eq {n last : String} (joined : "/".intercalate (purePathParts n) = n)
    (tail : (purePathParts n).getLast? = some last) (bare : Bare '.' last.toList) : Plain n := by
  refine ⟨joined, fun part mem => ?_⟩
  rw [tail, Option.mem_some_iff] at mem
  rwa [← mem]

/-- A store with one agent. -/
def teamStore : FileTree String := (writeAgent .empty "0" "team/lead" "Plans." true).1

/-- Names without dots, one of them written. -/
theorem scout_addressed : Addressed teamStore "scout" "team/lead" := by
  refine (addressed_iff ⟨["scout"], by decide⟩ ⟨["lead", "team"], by decide⟩).mpr ⟨?_, ?_, ?_⟩
  · intro same
    exact absurd same (by decide)
  · intro _
    have tail : (purePathParts "scout").getLast? = some "scout" := by decide
    exact plain_of_eq (by decide) tail (by decide)
  · have one : mdPaths teamStore = [["lead.md", "team"]] := by decide +kernel
    intro p isMd there
    have mem := mem_mdPaths.mpr ⟨there, isMd⟩
    rw [one, List.mem_singleton] at mem
    subst mem
    exact ⟨⟨"Plans.", by decide +kernel⟩, by decide, by decide⟩

/-- Two versions of an agent share a file. -/
theorem versions_share : ¬ ∀ t n m, n ≠ m → Accepted n → Accepted m → Addressed t n m := by
  intro all
  have addressed := all .empty "scout.v1" "scout.v2" (by decide) ⟨["scout.v1"], by decide⟩
    ⟨["scout.v2"], by decide⟩
  exact absurd (addressed.written "x" "" false) (by decide)

end OpenAgentd.AgentFs
