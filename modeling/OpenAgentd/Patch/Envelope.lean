import Mathlib
import OpenAgentd.Lib.FileTree

/-!
# Planning an envelope

The first half of `_apply_patch` (`app/agent/tools/builtin/filesystem/patch.py`): the sections of an envelope are
tried on a virtual overlay of the tree, which is read once for every path and not written. What the text of an
envelope says is not modelled here: the parser, the path check and the application of hunks are the functions of
`Texts`, and everything holds for whatever they return.

A file system call can fail for reasons of its own. `fails` says which calls do, by what they do and to which
path.
-/

namespace OpenAgentd.Patch
open OpenAgentd.Lib

/-- `PatchKind`. -/
inductive PatchKind where
  | add
  | update
  | delete
  deriving DecidableEq

/-- `Chunk`. -/
structure Chunk where
  old : List String := []
  new : List String := []
  rawOld : List String := []
  rawNew : List String := []
  scopeAnchor : Option String := none
  scopeIsLiteral : Bool := false
  contextPairs : List (Nat × Nat) := []
  deriving DecidableEq

/-- `FilePatch`. -/
structure FilePatch where
  kind : PatchKind
  path : String
  moveTo : Option String := none
  contents : List String := []
  chunks : List Chunk := []
  deriving DecidableEq

/-- `VirtualFile`, and `FileSnapshot` without the digest of its content. -/
structure VirtualFile where
  content : ByteArray
  mode : Nat
  deriving DecidableEq

/-- `DEFAULT_FILE_MODE`. -/
def defaultFileMode : Nat := 0o644

/-- What `_apply_patch` raises. -/
inductive PatchError where
  | parse (message : String)
  | denied (message : String)
  | isADirectory (path : Path)
  | pathExists (path : Path)
  | notFound (path : Path)
  | undecodable
  | hunk (message : String)
  | samePath (path : String)
  | destinationExists (path : Path)
  | created (path : Path)
  | removed (path : Path)
  | changed (path : Path)
  | os
  deriving DecidableEq

/-- A call of the file system that can fail. -/
inductive Call where
  | read (path : Path)
  | mkdir (path : Path)
  | mkstemp (path : Path)
  | writeTemp (path : Path)
  | recheck (path : Path)
  | unlink (path : Path)
  | replace (path : Path)
  deriving DecidableEq

/-- What an envelope says: `_parse_patch`, `validate_path` and the text of `_apply_chunks_with_meta`. -/
structure Texts where
  parsePatch : String → Except PatchError (List FilePatch)
  validatePath : String → Except PatchError Path
  applyChunks : String → List Chunk → String → Except PatchError String

/-- `_lines_to_text`. -/
def linesToText (lines : List String) : String :=
  if lines = [] then "" else "\n".intercalate lines ++ "\n"

/-- `_snapshot`. -/
def snapshot (fails : Call → Bool) (t : FileTree VirtualFile) (path : Path) :
    Except PatchError (Option VirtualFile) :=
  match t.get? path with
  | none => .ok none
  | some .dir => .error (.isADirectory path)
  | some (.file f) => if fails (.read path) then .error .os else .ok (some f)

/-- `original`, `virtual` and `touched`. -/
structure Planning where
  original : Dict Path (Option VirtualFile) := .empty
  overlay : Dict Path (Option VirtualFile) := .empty
  touched : List Path := []

/-- `virtual[path] = file`. -/
def Planning.assign (P : Planning) (path : Path) (file : Option VirtualFile) : Planning :=
  { P with overlay := P.overlay.set path file }

/-- `load`. -/
def Planning.load (fails : Call → Bool) (t : FileTree VirtualFile) (P : Planning) (path : Path) :
    Except PatchError (Option VirtualFile × Planning) :=
  match P.overlay.get? path with
  | some file => .ok (file, P)
  | none =>
    match snapshot fails t path with
    | .error e => .error e
    | .ok file =>
      .ok (file,
        { original := P.original.set path file
          overlay := P.overlay.set path file
          touched := P.touched ++ [path] })

/-- The path an update moves to, if it names one. -/
def moveTarget (tx : Texts) (patch : FilePatch) : Except PatchError (Option Path) :=
  match patch.moveTo with
  | none => .ok none
  | some moveTo =>
    if moveTo = "" then .ok none
    else
      match tx.validatePath moveTo with
      | .error e => .error e
      | .ok target => .ok (some target)

/-- The content an update gives a file. -/
def updatedContent (tx : Texts) (patch : FilePatch) (current : VirtualFile) : Except PatchError ByteArray :=
  match String.fromUTF8? current.content with
  | none => .error .undecodable
  | some content =>
    match tx.applyChunks content patch.chunks patch.path with
    | .error e => .error e
    | .ok newContent => .ok newContent.toUTF8

/-- One update section on a file. -/
def planUpdate (tx : Texts) (fails : Call → Bool) (t : FileTree VirtualFile) (P : Planning) (patch : FilePatch)
    (resolved : Path) (target : Option Path) (current : VirtualFile) : Except PatchError Planning :=
  match updatedContent tx patch current with
  | .error e => .error e
  | .ok content =>
    let updated : VirtualFile := { content, mode := current.mode }
    match target with
    | none => .ok (P.assign resolved (some updated))
    | some target =>
      if target = resolved then
        if updated.content = current.content then .error (.samePath patch.path)
        else .ok (P.assign resolved (some updated))
      else
        match P.load fails t target with
        | .error e => .error e
        | .ok (some _, _) => .error (.destinationExists target)
        | .ok (none, P) => .ok ((P.assign resolved none).assign target (some updated))

/-- One section. -/
def planSection (tx : Texts) (fails : Call → Bool) (t : FileTree VirtualFile) (P : Planning) (patch : FilePatch) :
    Except PatchError Planning :=
  match tx.validatePath patch.path with
  | .error e => .error e
  | .ok resolved =>
    match moveTarget tx patch with
    | .error e => .error e
    | .ok target =>
      match P.load fails t resolved with
      | .error e => .error e
      | .ok (current, P) =>
        match patch.kind, current with
        | .add, some _ => .error (.pathExists resolved)
        | .add, none =>
          .ok (P.assign resolved (some { content := (linesToText patch.contents).toUTF8, mode := defaultFileMode }))
        | .delete, none => .error (.notFound resolved)
        | .delete, some _ => .ok (P.assign resolved none)
        | .update, none => .error (.notFound resolved)
        | .update, some file => planUpdate tx fails t P patch resolved target file

/-- The sections of an envelope in order. -/
def plan (tx : Texts) (fails : Call → Bool) (t : FileTree VirtualFile) (patches : List FilePatch) :
    Except PatchError Planning :=
  patches.foldlM (planSection tx fails t) {}

/-- `virtual[path]`, where a missing key is no file. -/
def Planning.file (P : Planning) (path : Path) : Option VirtualFile := (P.overlay.get? path).getD none

/-- `original[path]`, where a missing key is no file. -/
def Planning.before (P : Planning) (path : Path) : Option VirtualFile := (P.original.get? path).getD none

/-- `is_changed`. -/
def Planning.isChanged (P : Planning) (path : Path) : Bool := P.before path ≠ P.file path

/-- The changed paths that end as files, with their files. -/
def Planning.writes (P : Planning) : List (Path × VirtualFile) :=
  (P.touched.filter P.isChanged).filterMap fun path => (P.file path).map (path, ·)

/-- The changed paths that end without a file. -/
def Planning.deletes (P : Planning) : List Path :=
  (P.touched.filter P.isChanged).filter fun path => (P.file path).isNone

/-! ## What planning keeps -/

/-- The dicts of a plan have the same keys, those of `touched`, and `original` is what the tree holds. -/
structure Planned (t : FileTree VirtualFile) (P : Planning) : Prop where
  distinct : P.touched.Nodup
  touched : ∀ p, p ∈ P.touched ↔ p ∈ P.overlay.keys
  original : ∀ p f, P.original.get? p = some f → t.get? p = f.map .file
  known : ∀ p, p ∈ P.touched ↔ p ∈ P.original.keys

section
variable {tx : Texts} {fails : Call → Bool} {t : FileTree VirtualFile} {P Q : Planning} {patch : FilePatch}
  {patches : List FilePatch} {p q : Path} {file current : Option VirtualFile}

/-- What was read is there. -/
lemma snapshot_ok (h : snapshot fails t p = .ok file) : t.get? p = file.map .file := by
  unfold snapshot at h
  split at h
  · rename_i none
    cases h
    exact none
  · cases h
  · rename_i f some
    split at h
    · cases h
    · cases h
      exact some

/-- What a load gives: the overlay's file, or the tree's under a new key. -/
lemma load_ok (h : P.load fails t p = .ok (file, Q)) :
    P.overlay.get? p = some file ∧ Q = P ∨
      P.overlay.get? p = none ∧ t.get? p = file.map .file ∧
        Q = { original := P.original.set p file, overlay := P.overlay.set p file, touched := P.touched ++ [p] } := by
  unfold Planning.load at h
  split at h
  · rename_i known
    cases h
    exact .inl ⟨known, rfl⟩
  · rename_i unknown
    split at h
    · cases h
    · rename_i snap
      cases h
      exact .inr ⟨unknown, snapshot_ok snap, rfl⟩

/-- The keys after a set. -/
lemma mem_keys_set {κ α : Type*} [DecidableEq κ] {d : Dict κ α} {j k : κ} {v : α} :
    j ∈ (d.set k v).keys ↔ j = k ∨ j ∈ d.keys := by
  rw [Dict.keys_set]
  split
  · rename_i known
    constructor
    · exact .inr
    · rintro (rfl | h)
      · exact known
      · exact h
  · rw [List.mem_append, List.mem_singleton, or_comm]

/-- Loading a file. -/
lemma Planned.load (T : Planned t P) (h : P.load fails t p = .ok (file, Q)) :
    Planned t Q ∧ p ∈ Q.touched ∧ Q.file p = file := by
  rcases load_ok h with ⟨known, rfl⟩ | ⟨unknown, here, rfl⟩
  · refine ⟨T, (T.touched p).mpr (Dict.mem_keys.mpr ⟨_, known⟩), ?_⟩
    rw [Planning.file, known]
    rfl
  · have new : p ∉ P.touched := by
      rw [T.touched]
      exact Dict.get?_eq_none.mp unknown
    have keys : ∀ q, q ∈ P.touched ++ [p] ↔ q = p ∨ q ∈ P.touched := by
      intro q
      rw [List.mem_append, List.mem_singleton, or_comm]
    refine ⟨⟨?_, fun q => ?_, fun q f hq => ?_, fun q => ?_⟩, (keys p).mpr (.inl rfl), ?_⟩
    · rw [List.nodup_append]
      refine ⟨T.distinct, List.nodup_singleton _, fun a ha c hc => ?_⟩
      rw [List.mem_singleton.mp hc]
      rintro rfl
      exact new ha
    · rw [keys, T.touched, mem_keys_set]
    · rw [Dict.get?_set] at hq
      split at hq
      · rename_i e
        cases hq
        rw [e]
        exact here
      · exact T.original q f hq
    · rw [keys, T.known, mem_keys_set]
    · rw [Planning.file, Dict.get?_set, if_pos rfl]
      rfl

/-- Assigning a loaded path. -/
lemma Planned.assign (T : Planned t P) (h : p ∈ P.touched) : Planned t (P.assign p file) := by
  refine ⟨T.distinct, fun q => ?_, T.original, T.known⟩
  rw [Planning.assign, mem_keys_set, ← T.touched]
  constructor
  · exact .inr
  · rintro (rfl | h')
    · exact h
    · exact h'

/-- Planning an update. -/
lemma Planned.planUpdate {resolved : Path} {target : Option Path} {current : VirtualFile} (T : Planned t P)
    (h : resolved ∈ P.touched) (ok : planUpdate tx fails t P patch resolved target current = .ok Q) :
    Planned t Q := by
  unfold Patch.planUpdate at ok
  split at ok
  · cases ok
  · dsimp only at ok
    split at ok
    · cases ok
      exact T.assign h
    · split at ok
      · split at ok
        · cases ok
        · cases ok
          exact T.assign h
      · split at ok
        · cases ok
        · cases ok
        · rename_i target _ R load
          cases ok
          obtain ⟨T', here, -⟩ := T.load load
          have mem : resolved ∈ R.touched := by
            rcases load_ok load with ⟨-, rfl⟩ | ⟨-, -, rfl⟩
            · exact h
            · exact List.mem_append_left _ h
          exact (T'.assign mem).assign here

/-- Planning a section. -/
lemma Planned.planSection (T : Planned t P) (ok : planSection tx fails t P patch = .ok Q) : Planned t Q := by
  unfold Patch.planSection at ok
  split at ok
  · cases ok
  · split at ok
    · cases ok
    · split at ok
      · cases ok
      · rename_i load
        obtain ⟨T', here, -⟩ := T.load load
        split at ok
        · cases ok
        · cases ok
          exact T'.assign here
        · cases ok
        · cases ok
          exact T'.assign here
        · cases ok
        · exact T'.planUpdate here ok

/-- Nothing is planned. -/
lemma Planned.empty : Planned t {} :=
  ⟨List.nodup_nil, fun p => by simp [Dict.empty, Dict.keys], fun p f h => by simp at h,
    fun p => by simp [Dict.empty, Dict.keys]⟩

/-- A plan that succeeds is in order. -/
theorem planned (ok : plan tx fails t patches = .ok P) : Planned t P := by
  have run : ∀ {Q : Planning}, Planned t Q → patches.foldlM (planSection tx fails t) Q = .ok P → Planned t P := by
    clear ok
    induction patches with
    | nil =>
      intro Q T h
      cases h
      exact T
    | cons patch patches ih =>
      intro Q T h
      rw [List.foldlM_cons] at h
      cases here : Patch.planSection tx fails t Q patch with
      | error e =>
        rw [here] at h
        cases h
      | ok R =>
        rw [here] at h
        exact ih (T.planSection here) h
  exact run .empty ok

/-- What is written. -/
lemma mem_writes {v : Path × VirtualFile} :
    v ∈ P.writes ↔ v.1 ∈ P.touched ∧ P.isChanged v.1 ∧ P.file v.1 = some v.2 := by
  rw [Planning.writes, List.mem_filterMap]
  constructor
  · rintro ⟨p, hp, e⟩
    obtain ⟨f, hf, rfl⟩ := Option.map_eq_some_iff.mp e
    obtain ⟨mem, changed⟩ := List.mem_filter.mp hp
    exact ⟨mem, changed, hf⟩
  · rintro ⟨mem, changed, file⟩
    exact ⟨v.1, List.mem_filter.mpr ⟨mem, changed⟩, by rw [file]; rfl⟩

/-- What is deleted. -/
lemma mem_deletes : p ∈ P.deletes ↔ p ∈ P.touched ∧ P.isChanged p ∧ P.file p = none := by
  rw [Planning.deletes, List.mem_filter, List.mem_filter, Option.isNone_iff_eq_none, and_assoc]

end

end OpenAgentd.Patch
