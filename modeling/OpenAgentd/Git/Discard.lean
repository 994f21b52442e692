import OpenAgentd.Lib.Grafted
import OpenAgentd.Filesystem.Denied
import OpenAgentd.Git.Untracked
import OpenAgentd.Transfer.Archive
import Mathlib.Data.List.Induction

/-!
# Discarding a file

`discard_coding_workspace_file` (`routes/agent/files.py`) and the rows of the diff panel (`diff-helpers.ts`). An added
file is unlinked where its path resolves to; every other path is handed to `git checkout --` as a pathspec, which
restores what it matches from the index. A discard meets its purpose if it changes the named path only and the path
leaves the panel; `discards_iff` says when.
-/

namespace OpenAgentd.Git
open OpenAgentd.Lib OpenAgentd.Filesystem Transfer LinkTree

variable {α : Type*}

/-! ## A workspace -/

/-- What the index has for a path. -/
inductive Staged (α : Type*) where
  | merged (e : Entry α)
  | unmerged
deriving DecidableEq

/-- The index. No path in it is above another. -/
structure Index (α : Type*) where
  entries : Dict Path (Staged α)
  named : ∀ p, entries.get? p ≠ none → p ≠ [] ∧ ∀ n ∈ p, IsName n
  apart : ∀ p q, entries.get? p ≠ none → entries.get? q ≠ none → p <:+ q → p = q

/-- A repository below its root: the commit, the index, the paths of the index that a pathspec matches, the ignored
paths, and the added paths that git shows as renamed. -/
structure Repo (α : Type*) where
  root : Path
  head : Option (Dict Path (Entry α))
  index : Index α
  pathspec : List Char → Path → Bool
  ignored : Path → Bool
  renamed : Path → Bool

/-- A repository with its working tree. -/
structure Checkout (α : Type*) extends Repo α where
  tree : LinkTree α
  rooted : tree.get? root = some .dir

/-- `ChangedFileStatus` -/
inductive ChangedFileStatus where
  | A
  | M
  | D
deriving DecidableEq

/-- Where a text leads to from the root, by its names alone. -/
def place (path : List Char) : Path := (pathParts (String.ofList path)).reverse

namespace Repo

def staged (g : Repo α) (p : Path) : Option (Staged α) := g.index.entries.get? p

/-- What git sees at a path of the working tree. -/
def file? (g : Repo α) (t : LinkTree α) (p : Path) : Option (Entry α) := t.leaf? (p ++ g.root)

/-- The side of the diff that the working tree is compared with: the commit, or the index where there is none. -/
def base (g : Repo α) (p : Path) : Option (Entry α) :=
  match g.head with
  | some commit => commit.get? p
  | none =>
    match g.staged p with
    | some (.merged e) => some e
    | _ => none

/-- The other side of the diff. -/
def shown (g : Repo α) (t : LinkTree α) (p : Path) : Option (Entry α) := if (g.staged p).isSome then g.file? t p else none

end Repo

/-! ## The panel -/

def headerMiddle : List Char := [' ', 'b', '/']

/-- The text in front of the first ` b/` and the text behind it. -/
def cutHeader : List Char → Option (List Char × List Char)
  | [] => none
  | c :: line =>
    if headerMiddle.isPrefixOf (c :: line) then some ([], (c :: line).drop 3)
    else (cutHeader line).map fun parts => (c :: parts.1, parts.2)

def devNull : List Char := "dev/null".toList

/-- The path that is read from the header of a section, `/^diff --git a\/(.*?) b\/(.*)$/`. -/
def headerPath (name : List Char) : Option (List Char) :=
  match cutHeader (name ++ headerMiddle ++ name) with
  | some (old, new) => if old = [] ∨ new = [] then none else some (if new = devNull then old else new)
  | none => none

/-- The bytes of a name. -/
def nameBytes (p : Path) : List UInt8 := utf8Encode (asPosix p)

/-- The path of a tracked file's section. The header of a quoted name is not read. -/
def trackedPath (p : Path) : Option (List Char) :=
  if (nameBytes p).any unusual then none else headerPath (asPosix p)

def isLinkEntry : Entry α → Bool
  | .file _ => false
  | .link _ => true

namespace Repo
variable [DecidableEq α]

/-- The status of a tracked file's section. A file that became a link, or a link that became a file, is shown as
deleted and then as new. -/
def sectionStatus (g : Repo α) (t : LinkTree α) (p : Path) : ChangedFileStatus :=
  match g.base p, g.shown t p with
  | none, _ => if g.renamed p then .M else .A
  | _, none => .D
  | some old, some new => if isLinkEntry old = isLinkEntry new then .M else .A

/-- The rows of the panel that come from a path. -/
def rows (g : Repo α) (t : LinkTree α) (p : Path) : List (List Char × ChangedFileStatus) :=
  (if g.base p = g.shown t p then [] else (trackedPath p).toList.map fun path => (path, g.sectionStatus t p)) ++
    (if (g.staged p).isSome || (g.file? t p).isNone || g.ignored p then []
      else ((headerPath (quotePath (nameBytes p))).toList ++ [quotePath (nameBytes p)]).map fun path => (path, .A))

/-- The panel has the path. -/
def Contains (g : Repo α) (t : LinkTree α) (path : List Char) : Prop := ∃ p, path ∈ (g.rows t p).map Prod.fst

/-- The panel has the path with the status. -/
def Reports (g : Repo α) (t : LinkTree α) (path : List Char) (status : ChangedFileStatus) : Prop :=
  ∃ p, (path, status) ∈ g.rows t p

end Repo

/-! ## Discarding -/

namespace Checkout

/-- `abs_path.unlink(missing_ok=True)`. What cannot be looked up is an error, unless it is missing from a directory. -/
def unlinkMissingOk (w : Checkout α) (path : Path) : Option (LinkTree α) :=
  if w.tree.isDirAt (w.tree.tree.anchor path.tail) then
    match w.tree.get? path with
    | none => some w.tree
    | some .dir => none
    | some (.file _) => w.tree.unlink path
  else none

/-- The entries of the index that a pathspec matches. -/
def matched (w : Checkout α) (path : List Char) : List (Path × Staged α) :=
  w.index.entries.entries.filter fun e => w.pathspec path e.1

/-- One entry is written. -/
def restore (root : Path) (t : LinkTree α) : Path × Staged α → LinkTree α
  | (p, .merged e) => t.graft e (p ++ root)
  | (_, .unmerged) => t

/-- `git checkout -- path` -/
def checkout [DecidableEq α] (w : Checkout α) (path : List Char) : Option (LinkTree α) :=
  if w.matched path = [] ∨ ∃ e ∈ w.matched path, e.2 = .unmerged then none
  else some ((w.matched path).foldl (restore w.root) w.tree)

/-- Where the path resolves to. -/
def absPath (w : Checkout α) (path : List Char) : Path := w.tree.realpath (w.root.reverse ++ pathParts (String.ofList path))

/-- `discard_coding_workspace_file` -/
def discard [DecidableEq α] (w : Checkout α) (path : List Char) (status : ChangedFileStatus) : Option (LinkTree α) :=
  if path = [] then none
  else if path.head? = some '/' ∨ ".." ∈ pathParts (String.ofList path) then none
  else if ¬ w.tree.realpath w.root.reverse <:+ w.absPath path then none
  else
    match status with
    | .A => w.unlinkMissingOk (w.absPath path)
    | .M => w.checkout path
    | .D => w.checkout path

/-- What a discard is for: no other file or link has changed, and the path is no longer in the panel. -/
def Discards [DecidableEq α] (w : Checkout α) (path : List Char) (t : LinkTree α) : Prop :=
  (∀ q, q ≠ place path ++ w.root → t.leaf? q = w.tree.leaf? q) ∧ ¬ w.Contains t path

/-! ## When it does that -/

/-- Another path is in the panel under the same text. -/
def Elsewhere [DecidableEq α] (w : Checkout α) (path : List Char) : Prop :=
  ∃ p, p ≠ place path ∧ path ∈ (w.rows w.tree p).map Prod.fst

/-- With the entry in its place the path is as in the commit, and the text stands for no other path. -/
def Clean [DecidableEq α] (w : Checkout α) (path : List Char) (entry : Option (Entry α)) : Prop :=
  (trackedPath (place path) = some path → w.base (place path) = entry) ∧ ¬ w.Elsewhere path

/-- What the pathspec matches is as in the index, and nothing is in the way of the path itself. -/
def Single (w : Checkout α) (path : List Char) : Prop :=
  ∀ p e, w.staged p = some (.merged e) → w.pathspec path p = true →
    if p = place path then
      ∀ q, q ≠ p ++ w.root → q <:+ p ++ w.root ∨ p ++ w.root <:+ q → w.tree.leaf? q = none
    else w.tree.leaf? (p ++ w.root) = some e

/-- The entry of the index that the path is restored from. -/
def source (w : Checkout α) (path : List Char) : Option (Staged α) :=
  if w.pathspec path (place path) then w.staged (place path) else none

/-- When a discard that succeeds does what it is for. -/
def Safe [DecidableEq α] (w : Checkout α) (path : List Char) : ChangedFileStatus → Prop
  | .A =>
    match w.tree.leaf? (w.absPath path) with
    | none => ¬ w.Contains w.tree path
    | some _ => w.absPath path = place path ++ w.root ∧ w.Clean path none
  | _ =>
    w.Single path ∧
      match w.source path with
      | some (.merged e) => w.Clean path (some e)
      | _ => ¬ w.Contains w.tree path

end Checkout

section
variable [DecidableEq α] {w : Checkout α} {g : Repo α} {t t' : LinkTree α} {path : List Char} {p q root : Path}
  {status : ChangedFileStatus}

/-! ## Rows -/

/-- A path keeps its rows where the working tree has not changed. -/
lemma rows_congr (same : g.file? t' p = g.file? t p) : g.rows t' p = g.rows t p := by
  have shown : g.shown t' p = g.shown t p := by
    unfold Repo.shown
    rw [same]
  have status : g.sectionStatus t' p = g.sectionStatus t p := by
    unfold Repo.sectionStatus
    rw [shown]
  unfold Repo.rows
  rw [shown, status, same]

/-- When a path is listed as changed. -/
lemma mem_tracked : path ∈ (if g.base p = g.shown t p then []
    else (trackedPath p).toList.map fun path => (path, g.sectionStatus t p)).map Prod.fst ↔
      g.base p ≠ g.shown t p ∧ trackedPath p = some path := by
  split
  next same => exact iff_of_false (by simp) fun both => both.1 same
  next differs =>
    rw [List.map_map]
    simp [differs]

/-- A path that is no untracked file has the row of its section. -/
lemma mem_rows (known : (g.staged p).isSome ∨ g.file? t p = none) :
    path ∈ (g.rows t p).map Prod.fst ↔ g.base p ≠ g.shown t p ∧ trackedPath p = some path := by
  have untracked : ((g.staged p).isSome || (g.file? t p).isNone || g.ignored p) = true := by
    cases known with
    | inl staged => rw [staged, Bool.true_or, Bool.true_or]
    | inr missing => rw [missing, Option.isNone_none, Bool.or_true, Bool.true_or]
  rw [Repo.rows, if_pos untracked, List.append_nil, mem_tracked]

/-- When only one path has changed. -/
lemma contains_iff (same : ∀ p, p ≠ place path → w.file? t p = w.file? w.tree p) :
    w.Contains t path ↔ path ∈ (w.rows t (place path)).map Prod.fst ∨ w.Elsewhere path := by
  constructor
  · rintro ⟨p, mem⟩
    by_cases own : p = place path
    · rw [own] at mem
      exact .inl mem
    · rw [rows_congr (same p own)] at mem
      exact .inr ⟨p, own, mem⟩
  · intro either
    cases either with
    | inl mem => exact ⟨_, mem⟩
    | inr elsewhere =>
      obtain ⟨p, own, mem⟩ := elsewhere
      rw [← rows_congr (same p own)] at mem
      exact ⟨p, mem⟩

/-- The panel after the path was left with an entry that git knows, or without one. -/
lemma clean_iff {entry : Option (Entry α)} (same : ∀ p, p ≠ place path → w.file? t p = w.file? w.tree p)
    (after : w.shown t (place path) = entry) (known : (w.staged (place path)).isSome ∨ w.file? t (place path) = none) :
    ¬ w.Contains t path ↔ w.Clean path entry := by
  rw [contains_iff same, mem_rows known, after, not_or, Checkout.Clean]
  refine and_congr_left fun _ => ?_
  constructor
  · intro none spelled
    by_contra differs
    exact none ⟨differs, spelled⟩
  · rintro clean ⟨differs, spelled⟩
    exact differs (clean spelled)

/-! ## What is restored -/

variable {es : List (Path × Staged α)}

/-- Entries of an index, none of them unmerged. -/
structure Matched (es : List (Path × Staged α)) : Prop where
  named : ∀ x ∈ es, x.1 ≠ [] ∧ ∀ n ∈ x.1, IsName n
  apart : ∀ x ∈ es, ∀ y ∈ es, x.1 <:+ y.1 → x = y
  merged : ∀ x ∈ es, x.2 ≠ .unmerged

/-- Each entry is in its place, and what was in its way is gone. -/
structure Restored (root : Path) (t : LinkTree α) (es : List (Path × Staged α)) (t' : LinkTree α) : Prop where
  there : ∀ p e, (p, .merged e) ∈ es → t'.leaf? (p ++ root) = some e
  gone : ∀ q, (∀ x ∈ es, q ≠ x.1 ++ root) → (∃ x ∈ es, q <:+ x.1 ++ root ∨ x.1 ++ root <:+ q) → t'.leaf? q = none
  aside : ∀ q, (∀ x ∈ es, ¬ (q <:+ x.1 ++ root ∨ x.1 ++ root <:+ q)) → t'.leaf? q = t.leaf? q

omit [DecidableEq α] in
/-- The same under the root. -/
lemma suffix_of_append (up : p ++ root <:+ q ++ root) : p <:+ q := by
  obtain ⟨front, e⟩ := up
  rw [← List.append_assoc] at e
  exact ⟨front, List.append_cancel_right e⟩

omit [DecidableEq α] in
/-- One more entry. -/
lemma Restored.snoc {p : Path} {e : Entry α} (restored : Restored root t es t')
    (matched : Matched (es ++ [(p, .merged e)])) (names : ∀ n ∈ root, IsName n) :
    Restored root t (es ++ [(p, .merged e)]) (t'.graft e (p ++ root)) := by
  have last : (p, Staged.merged e) ∈ es ++ [(p, .merged e)] := by simp
  have full : ∀ n ∈ p ++ root, IsName n := by
    intro n mem
    cases List.mem_append.mp mem with
    | inl mem => exact (matched.named _ last).2 n mem
    | inr mem => exact names n mem
  have some_ : p ++ root ≠ [] := List.append_ne_nil_of_left_ne_nil (matched.named _ last).1 _
  constructor
  case there =>
    intro q f mem
    rw [leaf?_graft full some_]
    have same : q <:+ p ∨ p <:+ q → (q, Staged.merged f) = (p, .merged e) := by
      intro between
      cases between with
      | inl above => exact matched.apart _ mem _ last above
      | inr below => exact (matched.apart _ last _ mem below).symm
    split
    next own =>
      have place : q = p := List.append_cancel_right own
      cases same (.inl (place ▸ List.suffix_refl q))
      rfl
    split
    next other between =>
      cases same (between.imp suffix_of_append suffix_of_append)
      exact absurd rfl other
    next aside =>
      cases List.mem_append.mp mem with
      | inl old => exact restored.there q f old
      | inr new =>
        cases List.mem_singleton.mp new
        exact absurd (.inl (List.suffix_refl _)) aside
  case gone =>
    intro q other between
    rw [leaf?_graft full some_, if_neg (other _ last)]
    split
    · rfl
    next apart =>
      apply restored.gone q fun x mem => other x (List.mem_append_left _ mem)
      obtain ⟨x, mem, between⟩ := between
      cases List.mem_append.mp mem with
      | inl old => exact ⟨x, old, between⟩
      | inr new =>
        rw [List.mem_singleton.mp new] at between
        exact absurd between apart
  case aside =>
    intro q apart
    have here := apart _ last
    have other : q ≠ p ++ root := fun own => here (.inl (own ▸ List.suffix_refl q))
    rw [leaf?_graft full some_, if_neg other, if_neg here]
    exact restored.aside q fun x mem => apart x (List.mem_append_left _ mem)

omit [DecidableEq α] in
/-- All entries are restored. -/
lemma restored_foldl (matched : Matched es) (names : ∀ n ∈ root, IsName n) :
    Restored root t es (es.foldl (Checkout.restore root) t) := by
  induction es using List.reverseRecOn with
  | nil =>
    refine ⟨fun p e mem => absurd mem List.not_mem_nil, fun q _ between => ?_, fun q _ => rfl⟩
    obtain ⟨x, mem, _⟩ := between
    exact absurd mem List.not_mem_nil
  | append_singleton es x ih =>
    have before := ih ⟨fun y mem => matched.named y (List.mem_append_left _ mem),
      fun y mem z mem' => matched.apart y (List.mem_append_left _ mem) z (List.mem_append_left _ mem'),
      fun y mem => matched.merged y (List.mem_append_left _ mem)⟩
    rw [List.foldl_append, List.foldl_cons, List.foldl_nil]
    obtain ⟨p, s⟩ := x
    cases s with
    | unmerged => exact absurd rfl (matched.merged (p, .unmerged) (by simp))
    | merged e => exact before.snoc matched names

omit [DecidableEq α] in
/-- What a pathspec matches. -/
lemma mem_matched {s : Staged α} : (p, s) ∈ w.matched path ↔ w.staged p = some s ∧ w.pathspec path p = true := by
  rw [Checkout.matched, List.mem_filter, ← Dict.get?_eq_some]
  rfl

/-- What `git checkout` leaves when it succeeds. -/
lemma restored_checkout (done : w.checkout path = some t) : Restored w.root w.tree (w.matched path) t := by
  unfold Checkout.checkout at done
  split at done
  · cases done
  next ok =>
    cases done
    have here : ∀ x ∈ w.matched path, w.index.entries.get? x.1 = some x.2 := by
      intro x mem
      exact (mem_matched.mp mem).1
    apply restored_foldl
    · constructor
      case named =>
        intro x mem
        exact w.index.named x.1 (by rw [here x mem]; exact Option.some_ne_none _)
      case apart =>
        intro x mem y mem' above
        have same := w.index.apart x.1 y.1 (by rw [here x mem]; exact Option.some_ne_none _)
          (by rw [here y mem']; exact Option.some_ne_none _) above
        have first := here x mem
        rw [same, here y mem'] at first
        exact Prod.ext same (Option.some.inj first).symm
      case merged =>
        intro x mem conflict
        exact ok (.inr ⟨x, mem, conflict⟩)
    · apply LinkTree.isName_of_mem (t := w.tree)
      rw [w.rooted]
      exact Option.some_ne_none _

/-- A checkout has merged entries only. -/
lemma merged_of_checkout (done : w.checkout path = some t) {x : Path × Staged α} (mem : x ∈ w.matched path) :
    ∃ e, x.2 = .merged e := by
  unfold Checkout.checkout at done
  split at done
  · cases done
  next ok =>
    cases conflict : x.2 with
    | merged e => exact ⟨e, rfl⟩
    | unmerged => exact absurd (.inr ⟨x, mem, conflict⟩) ok

/-- Where the pathspec stands for the path alone, nothing changes but the path, if it is in the index. -/
lemma kept_of_single (done : w.checkout path = some t) (single : w.Single path)
    (other : q = place path ++ w.root → ∀ e, (place path, .merged e) ∉ w.matched path) : t.leaf? q = w.tree.leaf? q := by
  have restored := restored_checkout done
  -- what an entry that was matched asks for
  have asks : ∀ x ∈ w.matched path, ∃ e, x.2 = .merged e ∧ if x.1 = place path then
      ∀ q, q ≠ x.1 ++ w.root → q <:+ x.1 ++ w.root ∨ x.1 ++ w.root <:+ q → w.tree.leaf? q = none
    else w.tree.leaf? (x.1 ++ w.root) = some e := by
    intro x mem
    obtain ⟨e, merged⟩ := merged_of_checkout done mem
    obtain ⟨staged, spec⟩ := mem_matched.mp (show (x.1, x.2) ∈ w.matched path from mem)
    rw [merged] at staged
    exact ⟨e, merged, single x.1 e staged spec⟩
  by_cases own : ∃ x ∈ w.matched path, q = x.1 ++ w.root
  · obtain ⟨x, mem, rfl⟩ := own
    obtain ⟨e, merged, kept⟩ := asks x mem
    have mem : (x.1, .merged e) ∈ w.matched path := by rwa [← merged]
    rw [if_neg] at kept
    · rw [kept]
      exact restored.there x.1 e mem
    · intro here
      exact other (by rw [here]) e (here ▸ mem)
  by_cases between : ∃ x ∈ w.matched path, q <:+ x.1 ++ w.root ∨ x.1 ++ w.root <:+ q
  · rw [restored.gone q (fun x mem here => own ⟨x, mem, here⟩) between]
    obtain ⟨x, mem, between⟩ := between
    obtain ⟨e, merged, kept⟩ := asks x mem
    symm
    split at kept
    next => exact kept q (fun here => own ⟨x, mem, here⟩) between
    next =>
      apply LinkTree.leaf?_apart (p := x.1 ++ w.root) _ (fun here => own ⟨x, mem, here⟩) between
      rw [kept]
      exact Option.some_ne_none _
  · exact restored.aside q fun x mem here => between ⟨x, mem, here⟩

/-- Nothing else changes if the pathspec stands for the path alone. -/
lemma frame_checkout (done : w.checkout path = some t) :
    (∀ q, q ≠ place path ++ w.root → t.leaf? q = w.tree.leaf? q) ↔ w.Single path := by
  have restored := restored_checkout done
  constructor
  · intro frame p e staged spec
    have mem := mem_matched.mpr ⟨staged, spec⟩
    split
    next own =>
      intro q other between
      rw [← frame q (own ▸ other)]
      refine restored.gone q (fun x mem' here => ?_) ⟨_, mem, between⟩
      -- two entries of an index are not above one another
      obtain ⟨f, merged⟩ := merged_of_checkout done mem'
      have there := restored.there x.1 f (by rw [← merged]; exact mem')
      have here' := restored.there p e mem
      rw [← here] at there
      have none := LinkTree.leaf?_apart (by rw [here']; exact Option.some_ne_none _) other between
      rw [there] at none
      cases none
    next other =>
      rw [← frame (p ++ w.root) fun e => other (List.append_cancel_right e)]
      exact restored.there p e mem
  · exact fun single q other => kept_of_single done single fun here => absurd here other

/-! ## When a discard does what it is for -/

omit [DecidableEq α] in
/-- What the unlink does. -/
lemma unlinkMissingOk_some (done : w.unlinkMissingOk p = some t) :
    w.tree.leaf? p = none ∧ t = w.tree ∨
      w.tree.leaf? p ≠ none ∧ ∀ q, t.leaf? q = if q = p then none else w.tree.leaf? q := by
  unfold Checkout.unlinkMissingOk at done
  split at done
  · split at done
    next missing =>
      cases done
      left
      rw [leaf?, missing]
      exact ⟨rfl, rfl⟩
    · cases done
    next => exact .inr ⟨(unlink_some (q := p) done).1, fun q => (unlink_some done).2⟩
  · cases done

/-- An added file. -/
lemma unlink_discards (done : w.unlinkMissingOk (w.absPath path) = some t) : w.Discards path t ↔ w.Safe path .A := by
  unfold Checkout.Safe
  cases unlinkMissingOk_some done with
  | inl missing =>
    obtain ⟨none, rfl⟩ := missing
    rw [none]
    exact and_iff_right fun q _ => rfl
  | inr removed =>
    obtain ⟨there, found⟩ := removed
    obtain ⟨e, here⟩ := Option.ne_none_iff_exists'.mp there
    rw [here]
    have frame : (∀ q, q ≠ place path ++ w.root → t.leaf? q = w.tree.leaf? q) ↔ w.absPath path = place path ++ w.root := by
      constructor
      · intro same
        by_contra other
        have kept := same _ other
        rw [found, if_pos rfl, here] at kept
        cases kept
      · intro own q other
        rw [found, own, if_neg other]
    rw [Checkout.Discards, frame]
    refine and_congr_right fun own => ?_
    have gone : w.file? t (place path) = none := by
      rw [Repo.file?, found, if_pos own.symm]
    apply clean_iff
    · intro p other
      exact frame.mpr own _ fun e => other (List.append_cancel_right e)
    · rw [Repo.shown, gone, ite_self]
    · exact .inr gone

/-- A modified or deleted file. -/
lemma checkout_discards (done : w.checkout path = some t) : w.Discards path t ↔ w.Single path ∧
    match w.source path with
    | some (.merged e) => w.Clean path (some e)
    | _ => ¬ w.Contains w.tree path := by
  have restored := restored_checkout done
  rw [Checkout.Discards, frame_checkout done]
  refine and_congr_right fun single => ?_
  have frame := (frame_checkout done).mpr single
  have same : ∀ p, p ≠ place path → w.file? t p = w.file? w.tree p := by
    intro p other
    exact frame _ fun e => other (List.append_cancel_right e)
  by_cases own : ∃ e, (place path, .merged e) ∈ w.matched path
  · obtain ⟨e, mem⟩ := own
    obtain ⟨staged, spec⟩ := mem_matched.mp mem
    have source : w.source path = some (.merged e) := by
      rw [Checkout.source, if_pos spec, staged]
    rw [source]
    apply clean_iff same
    · rw [Repo.shown, staged, Option.isSome_some, if_pos rfl]
      exact restored.there _ e mem
    · rw [staged]
      exact .inl rfl
  · have unmatched : ∀ e, w.source path ≠ some (.merged e) := by
      intro e source
      unfold Checkout.source at source
      split at source
      next spec => exact own ⟨e, mem_matched.mpr ⟨source, spec⟩⟩
      next => cases source
    have all : ∀ p, w.file? t p = w.file? w.tree p :=
      fun p => kept_of_single done single fun _ e mem => own ⟨e, mem⟩
    have contains : w.Contains t path ↔ w.Contains w.tree path :=
      exists_congr fun p => by rw [rows_congr (all p)]
    split
    next e source => exact absurd source (unmatched e)
    next => rw [contains]

end

/-- A discard that succeeds changes the path alone and takes it out of the panel if and only if the path is safe: an
added file is found at the path itself and is no file of the commit, any other path is as in the commit with the entry of
the index in its place, and nothing else is matched or in the way that differs. -/
theorem discards_iff [DecidableEq α] (w : Checkout α) (path : List Char) (status : ChangedFileStatus) (t : LinkTree α)
    (done : w.discard path status = some t) : w.Discards path t ↔ w.Safe path status := by
  unfold Checkout.discard at done
  split at done
  · cases done
  split at done
  · cases done
  split at done
  · cases done
  cases status with
  | A => exact unlink_discards done
  | M => exact checkout_discards done
  | D => exact checkout_discards done

/-! ## A file and a link to it -/

/-- A workspace with the new file `f` and the new link `l` to it. -/
def linkNodes : Dict Path (Node (Entry String)) :=
  (((Dict.empty.set [] .dir).set ["w"] .dir).set ["f", "w"] (.file (.file "k"))).set ["l", "w"]
    (.file (.link ⟨false, ["f"]⟩))

/-- Its paths. -/
lemma linkNodes_mem {n : String} {p : Path} (there : linkNodes.get? (n :: p) ≠ none) :
    n :: p ∈ [["w"], ["f", "w"], ["l", "w"]] := by
  have key := Dict.mem_keys.mpr (Option.ne_none_iff_exists'.mp there)
  rw [show linkNodes.keys = [[], ["w"], ["f", "w"], ["l", "w"]] from rfl] at key
  exact (List.mem_cons.mp key).resolve_left (List.cons_ne_nil n p)

/-- Its directories. -/
lemma linkNodes_closed (n : String) (p : Path) (there : linkNodes.get? (n :: p) ≠ none) : linkNodes.get? p = some .dir := by
  have all : ∀ q ∈ [["w"], ["f", "w"], ["l", "w"]], linkNodes.get? q.tail = some .dir :=
    List.forall_mem_cons.mpr ⟨rfl, List.forall_mem_cons.mpr ⟨rfl, List.forall_mem_singleton.mpr rfl⟩⟩
  exact all (n :: p) (linkNodes_mem there)

/-- Its names. -/
lemma linkNodes_named (n : String) (p : Path) (there : linkNodes.get? (n :: p) ≠ none) : IsName n := by
  have all : ∀ q ∈ [["w"], ["f", "w"], ["l", "w"]], IsName (q.headD "w") := by decide
  exact all (n :: p) (linkNodes_mem there)

/-- Nothing to name. -/
lemma empty_named (p : Path) (there : (Dict.empty : Dict Path (Staged String)).get? p ≠ none) :
    p ≠ [] ∧ ∀ n ∈ p, IsName n := absurd rfl there

/-- Nothing to tell apart. -/
lemma empty_apart (p q : Path) (there : (Dict.empty : Dict Path (Staged String)).get? p ≠ none)
    (_ : (Dict.empty : Dict Path (Staged String)).get? q ≠ none) (_ : p <:+ q) : p = q := absurd rfl there

/-- The workspace before the first commit, with nothing added. -/
def linkCheckout : Checkout String where
  root := ["w"]
  head := none
  index := { entries := .empty, named := empty_named, apart := empty_apart }
  pathspec path p := asPosix p == path
  ignored _ := false
  renamed _ := false
  tree := { tree := { nodes := linkNodes, root := rfl, closed := linkNodes_closed }, named := linkNodes_named }
  rooted := rfl

/-- The link is not elsewhere. -/
lemma linkCheckout_elsewhere : ¬ linkCheckout.Elsewhere ['f'] := by
  rintro ⟨p, other, mem⟩
  have place : place ['f'] = ["f"] := by decide
  by_cases there : linkCheckout.file? linkCheckout.tree p = none
  · rw [mem_rows (.inr there)] at mem
    exact mem.1 rfl
  have node : linkNodes.get? (p ++ ["w"]) ≠ none := by
    intro none
    apply there
    show linkCheckout.tree.leaf? (p ++ ["w"]) = _
    rw [leaf?, show linkCheckout.tree.get? (p ++ ["w"]) = _ from none]
  cases p with
  | nil => exact there (by decide)
  | cons n p =>
    have keys := linkNodes_mem node
    have e : n :: p = ["f"] ∨ n :: p = ["l"] := by
      have cases_ : n :: p ++ ["w"] = [] ++ ["w"] ∨ n :: p ++ ["w"] = ["f"] ++ ["w"] ∨ n :: p ++ ["w"] = ["l"] ++ ["w"] := by
        simpa using keys
      rcases cases_ with e | e | e
      · cases List.append_cancel_right e
      · exact .inl (List.append_cancel_right e)
      · exact .inr (List.append_cancel_right e)
    cases e with
    | inl e =>
      rw [e, place] at other
      exact other rfl
    | inr e =>
      rw [e] at mem
      have rows : (linkCheckout.rows linkCheckout.tree ["l"]).map Prod.fst = [['l'], ['l']] := by decide
      rw [rows] at mem
      revert mem
      decide

/-- Discarding the file leaves the link. -/
theorem file_discarded : ∃ t, linkCheckout.discard ['f'] .A = some t ∧ linkCheckout.Discards ['f'] t := by
  have runs : (linkCheckout.discard ['f'] .A).isSome := by decide
  obtain ⟨t, done⟩ := Option.isSome_iff_exists.mp runs
  refine ⟨t, done, (discards_iff linkCheckout ['f'] .A t done).mpr ?_⟩
  have goes : linkCheckout.absPath ['f'] = ["f", "w"] := by decide
  have here : linkCheckout.tree.leaf? ["f", "w"] = some (.file "k") := by decide
  have place : place ['f'] = ["f"] := by decide
  unfold Checkout.Safe
  rw [goes, here, place]
  exact ⟨rfl, fun _ => rfl, linkCheckout_elsewhere⟩

/-- Discarding the link deletes the file. -/
theorem link_discards_file : ¬ ∀ (w : Checkout String) (path : List Char) (status : ChangedFileStatus) (t : LinkTree String),
    w.Reports w.tree path status → w.discard path status = some t → w.Discards path t := by
  intro all
  have runs : (linkCheckout.discard ['l'] .A).map (LinkTree.leaf? · ["f", "w"]) = some none := by decide
  obtain ⟨t, done, gone⟩ := Option.map_eq_some_iff.mp runs
  have reported : linkCheckout.Reports linkCheckout.tree ['l'] .A := ⟨["l"], by decide⟩
  have frame := (all linkCheckout ['l'] .A t reported done).1 ["f", "w"] (by decide)
  have here : linkCheckout.tree.leaf? ["f", "w"] = some (.file "k") := by decide
  rw [gone, here] at frame
  cases frame

end OpenAgentd.Git
