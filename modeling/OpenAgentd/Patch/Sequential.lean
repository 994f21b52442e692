import OpenAgentd.Patch.Committed

/-!
# The meaning of an envelope

The sections of an envelope one after another on the files of a tree (`applySections`): this is what planning
computes on its overlay (`plan_isOk`), and what a commit that succeeds leaves in the tree (`sequential`). Directories
take part as what stands in the way of a file; a section makes none. They come with the files that are there at the
end, which is where an envelope differs from its sections applied one by one (`directories_are_not_sequential`).
-/

namespace OpenAgentd.Patch
open OpenAgentd.Lib

/-- What is at the paths. -/
abbrev View := Path → Option (Node VirtualFile)

/-- A view with another file, or none, at a path. -/
def View.put (view : View) (path : Path) (file : Option VirtualFile) : View :=
  fun q => if q = path then file.map .file else view q

/-- An update section on a file. -/
def applyUpdate (tx : Texts) (view : View) (patch : FilePatch) (resolved : Path) (target : Option Path)
    (file : VirtualFile) : Option View :=
  match updatedContent tx patch file with
  | .error _ => none
  | .ok content =>
    match target with
    | none => some (view.put resolved (some { content, mode := file.mode }))
    | some target =>
      if target = resolved then
        if content = file.content then none else some (view.put resolved (some { content, mode := file.mode }))
      else if (view target).isSome then none
      else some ((view.put resolved none).put target (some { content, mode := file.mode }))

/-- A section, where it is applicable. -/
def applySection (tx : Texts) (view : View) (patch : FilePatch) : Option View :=
  match tx.validatePath patch.path, moveTarget tx patch with
  | .ok resolved, .ok target =>
    match patch.kind, view resolved with
    | .add, none =>
      some (view.put resolved (some { content := (linesToText patch.contents).toUTF8, mode := defaultFileMode }))
    | .delete, some (.file _) => some (view.put resolved none)
    | .update, some (.file file) => applyUpdate tx view patch resolved target file
    | _, _ => none
  | _, _ => none

/-- The overlay over the tree. -/
structure Overlays (t : FileTree VirtualFile) (P : Planning) (view : View) : Prop where
  planned : Planned t P
  touched : ∀ p f, P.overlay.get? p = some f → view p = f.map .file
  untouched : ∀ p, P.overlay.get? p = none → view p = t.get? p

section
variable {tx : Texts} {fails : Call → Bool} {t : FileTree VirtualFile} {P Q : Planning} {view : View}
  {patch : FilePatch} {patches : List FilePatch} {p q : Path} {file : Option VirtualFile}

/-- A load that succeeds reads the view. -/
lemma Overlays.loaded (O : Overlays t P view) (h : P.load fails t p = .ok (file, Q)) :
    view p = file.map .file ∧ Overlays t Q view := by
  have T := (O.planned.load h).1
  rcases load_ok h with ⟨known, rfl⟩ | ⟨unknown, here, rfl⟩
  · exact ⟨O.touched p file known, O⟩
  · have found := (O.untouched p unknown).trans here
    refine ⟨found, T, fun q g hq => ?_, fun q hq => ?_⟩
    · rw [Dict.get?_set] at hq
      split at hq
      · rename_i same
        cases hq
        rw [same, found]
      · exact O.touched q g hq
    · rw [Dict.get?_set] at hq
      split at hq
      · cases hq
      · exact O.untouched q hq

/-- Where every file can be read, a load fails on a directory only. -/
lemma Overlays.load (O : Overlays t P view) (fails : Call → Bool) (p : Path) :
    ((∀ p, fails (.read p) = false) → view p = some .dir) ∧ (∃ e, P.load fails t p = .error e) ∨
      ∃ file Q, P.load fails t p = .ok (file, Q) ∧ view p = file.map .file ∧ Overlays t Q view := by
  cases h : P.load fails t p with
  | ok r =>
    obtain ⟨found, O'⟩ := O.loaded h
    exact .inr ⟨r.1, r.2, rfl, found, O'⟩
  | error e =>
    refine .inl ⟨fun quiet => ?_, e, rfl⟩
    unfold Planning.load at h
    split at h
    · cases h
    · rename_i unknown
      rw [O.untouched p unknown]
      unfold snapshot at h
      split at h
      · rename_i failed
        split at failed
        · cases failed
        · assumption
        · rw [quiet] at failed
          cases failed
      · cases h

/-- Assigning a loaded path. -/
lemma Overlays.assign (O : Overlays t P view) (h : p ∈ P.touched) :
    Overlays t (P.assign p file) (view.put p file) := by
  refine ⟨O.planned.assign h, fun q g hq => ?_, fun q hq => ?_⟩
  · rw [Planning.assign, Dict.get?_set] at hq
    rw [View.put]
    split at hq
    · rename_i e
      cases hq
      exact if_pos e
    · rename_i e
      rw [if_neg e]
      exact O.touched q g hq
  · rw [Planning.assign, Dict.get?_set] at hq
    split at hq
    · cases hq
    · rename_i e
      rw [View.put, if_neg e]
      exact O.untouched q hq

/-- A step on the overlay and a step on the view succeed together, where every file can be read. -/
def Together (fails : Call → Bool) (t : FileTree VirtualFile) (r : Except PatchError Planning) (v : Option View) :
    Prop :=
  (∃ e, r = .error e ∧ ((∀ p, fails (.read p) = false) → v = none)) ∨
    ∃ Q view, r = .ok Q ∧ v = some view ∧ Overlays t Q view

/-- Planning an update. -/
lemma Overlays.planUpdate {resolved : Path} {target : Option Path} {current : VirtualFile}
    (O : Overlays t P view) (mem : resolved ∈ P.touched) :
    Together fails t (planUpdate tx fails t P patch resolved target current)
      (applyUpdate tx view patch resolved target current) := by
  unfold Patch.planUpdate applyUpdate
  cases updatedContent tx patch current with
  | error e => exact .inl ⟨e, rfl, fun _ => rfl⟩
  | ok content =>
    cases target with
    | none => exact .inr ⟨_, _, rfl, rfl, O.assign mem⟩
    | some target =>
      dsimp only
      by_cases same : target = resolved
      · rw [if_pos same, if_pos same]
        by_cases idle : content = current.content
        · rw [if_pos idle, if_pos idle]
          exact .inl ⟨_, rfl, fun _ => rfl⟩
        · rw [if_neg idle, if_neg idle]
          exact .inr ⟨_, _, rfl, rfl, O.assign mem⟩
      · rw [if_neg same, if_neg same]
        rcases O.load fails target with ⟨dir, e, failed⟩ | ⟨file, Q, loaded, found, O'⟩
        · rw [failed]
          refine .inl ⟨e, rfl, fun quiet => ?_⟩
          rw [dir quiet]
          rfl
        · obtain ⟨T', here, -⟩ := O.planned.load loaded
          have mem' : resolved ∈ Q.touched := by
            rcases load_ok loaded with ⟨-, rfl⟩ | ⟨-, -, rfl⟩
            · exact mem
            · exact List.mem_append_left _ mem
          rw [loaded, found]
          cases file with
          | some f => exact .inl ⟨_, rfl, fun _ => rfl⟩
          | none =>
            have first : Overlays t (Q.assign resolved none) (view.put resolved none) := O'.assign mem'
            exact .inr ⟨_, _, rfl, rfl, first.assign here⟩

/-- Planning a section. -/
lemma Overlays.planSection (O : Overlays t P view) (fails : Call → Bool) (patch : FilePatch) :
    Together fails t (planSection tx fails t P patch) (applySection tx view patch) := by
  unfold Patch.planSection applySection
  cases tx.validatePath patch.path with
  | error e => exact .inl ⟨e, rfl, fun _ => rfl⟩
  | ok resolved =>
    cases moveTarget tx patch with
    | error e => exact .inl ⟨e, rfl, fun _ => rfl⟩
    | ok target =>
      dsimp only
      rcases O.load fails resolved with ⟨dir, e, failed⟩ | ⟨file, Q, loaded, found, O'⟩
      · rw [failed]
        refine .inl ⟨e, rfl, fun quiet => ?_⟩
        rw [dir quiet]
        cases patch.kind with
        | _ => rfl
      · have mem := (O.planned.load loaded).2.1
        rw [loaded, found]
        cases patch.kind with
        | add =>
          cases file with
          | none => exact .inr ⟨_, _, rfl, rfl, O'.assign mem⟩
          | some f => exact .inl ⟨_, rfl, fun _ => rfl⟩
        | delete =>
          cases file with
          | none => exact .inl ⟨_, rfl, fun _ => rfl⟩
          | some f => exact .inr ⟨_, _, rfl, rfl, O'.assign mem⟩
        | update =>
          cases file with
          | none => exact .inl ⟨_, rfl, fun _ => rfl⟩
          | some f => exact O'.planUpdate mem

/-- Nothing is planned. -/
lemma Overlays.empty : Overlays t {} t.get? :=
  ⟨.empty, nofun, fun _ _ => rfl⟩

/-- The changed paths are those where the view differs from the tree. -/
lemma Overlays.changed (O : Overlays t P view) : p ∈ P.touched ∧ P.isChanged p ↔ view p ≠ t.get? p := by
  have touched : p ∈ P.touched → view p = (P.file p).map .file := by
    intro mem
    obtain ⟨f, hf⟩ := Dict.mem_keys.mp ((O.planned.touched p).mp mem)
    rw [O.touched p f hf, Planning.file, hf]
    rfl
  constructor
  · rintro ⟨mem, changed⟩ same
    rw [touched mem, O.planned.before_eq mem] at same
    have injective : Function.Injective (Option.map (Node.file (F := VirtualFile))) :=
      Option.map_injective fun f g e => Node.file.inj e
    rw [Planning.isChanged, decide_eq_true_eq] at changed
    exact changed (injective same).symm
  · intro differs
    have mem : p ∈ P.touched := by
      by_contra other
      rw [O.planned.touched, ← Dict.get?_eq_none] at other
      exact differs (O.untouched p other)
    refine ⟨mem, ?_⟩
    rw [Planning.isChanged, decide_eq_true_eq]
    intro same
    rw [touched mem, O.planned.before_eq mem, same] at differs
    exact differs rfl

/-- What is written. -/
lemma Overlays.mem_writes (O : Overlays t P view) {f : VirtualFile} :
    (p, f) ∈ P.writes ↔ view p = some (.file f) ∧ t.get? p ≠ some (.file f) := by
  rw [Patch.mem_writes, ← and_assoc, O.changed]
  have file : view p ≠ t.get? p → (view p = some (.file f) ↔ P.file p = some f) := by
    intro differs
    obtain ⟨mem, -⟩ := O.changed.mpr differs
    obtain ⟨g, hg⟩ := Dict.mem_keys.mp ((O.planned.touched p).mp mem)
    rw [O.touched p g hg, Planning.file, hg]
    cases g with
    | none => exact iff_of_false (fun e => by cases e) fun e => by cases e
    | some g => simp
  constructor
  · rintro ⟨differs, here⟩
    have found := (file differs).mpr here
    refine ⟨found, fun same => ?_⟩
    rw [found, same] at differs
    exact differs rfl
  · rintro ⟨found, differs⟩
    have differs : view p ≠ t.get? p := by
      rw [found]
      exact differs.symm
    exact ⟨differs, (file differs).mp found⟩

/-- What is deleted. -/
lemma Overlays.mem_deletes (O : Overlays t P view) : p ∈ P.deletes ↔ view p = none ∧ t.get? p ≠ none := by
  rw [Patch.mem_deletes, ← and_assoc, O.changed]
  have file : view p ≠ t.get? p → (view p = none ↔ P.file p = none) := by
    intro differs
    obtain ⟨mem, -⟩ := O.changed.mpr differs
    obtain ⟨g, hg⟩ := Dict.mem_keys.mp ((O.planned.touched p).mp mem)
    rw [O.touched p g hg, Planning.file, hg]
    exact Option.map_eq_none_iff
  constructor
  · rintro ⟨differs, here⟩
    have found := (file differs).mpr here
    refine ⟨found, fun same => ?_⟩
    rw [found, same] at differs
    exact differs rfl
  · rintro ⟨found, differs⟩
    have differs : view p ≠ t.get? p := by
      rw [found]
      exact differs.symm
    exact ⟨differs, (file differs).mp found⟩

/-! ## The commit -/

/-- The directories an envelope leaves: those of before and the ones above the files it has written. -/
def DirsAfter (t : FileTree VirtualFile) (view : View) (d : Path) : Prop :=
  t.get? d = some .dir ∨ ∃ p f, view p = some (.file f) ∧ t.get? p ≠ some (.file f) ∧ d <:+ p.tail

/-- What a commit leaves is the view. -/
lemma Overlays.commit {temps : TempNames} {c : Commit} (O : Overlays t P view)
    (ok : commit temps fails P { tree := t } = (c, none)) :
    (∀ p f, c.tree.get? p = some (.file f) ↔ view p = some (.file f)) ∧
      (∀ d, c.tree.get? d = some .dir ↔ DirsAfter t view d) ∧
      ∀ p, p ∈ c.applied ↔ view p ≠ t.get? p := by
  obtain ⟨written, deleted, others, parents, applied⟩ := commit_ok O.planned ok
  have writes : ∀ p, p ∈ P.writes.map Prod.fst ↔ ∃ f, view p = some (.file f) ∧ t.get? p ≠ some (.file f) := by
    intro p
    rw [List.mem_map]
    constructor
    · rintro ⟨⟨q, f⟩, mem, rfl⟩
      exact ⟨f, O.mem_writes.mp mem⟩
    · rintro ⟨f, h⟩
      exact ⟨(p, f), O.mem_writes.mpr h, rfl⟩
  have unchanged : ∀ p, p ∉ P.writes.map Prod.fst → p ∉ P.deletes → view p = t.get? p := by
    intro p noWrite noDelete
    by_contra differs
    obtain ⟨mem, changed⟩ := O.changed.mpr differs
    cases here : P.file p with
    | none => exact noDelete (Patch.mem_deletes.mpr ⟨mem, changed, here⟩)
    | some f =>
      exact noWrite (List.mem_map.mpr ⟨(p, f), Patch.mem_writes.mpr ⟨mem, changed, here⟩, rfl⟩)
  -- a path is written, deleted, or as it was
  have shape : ∀ p, (∃ f, (p, f) ∈ P.writes ∧ c.tree.get? p = some (.file f) ∧ view p = some (.file f)) ∨
      (p ∈ P.deletes ∧ c.tree.get? p = none ∧ view p = none) ∨
      (view p = t.get? p ∧ c.tree.get? p =
        if t.get? p = none ∧ ∃ v ∈ P.writes, p <:+ v.1.tail then some .dir else t.get? p) := by
    intro p
    by_cases write : p ∈ P.writes.map Prod.fst
    · obtain ⟨⟨q, f⟩, mem, rfl⟩ := List.mem_map.mp write
      exact .inl ⟨f, mem, written _ mem, (O.mem_writes.mp mem).1⟩
    · by_cases delete : p ∈ P.deletes
      · exact .inr (.inl ⟨delete, deleted p delete, (O.mem_deletes.mp delete).1⟩)
      · exact .inr (.inr ⟨unchanged p write delete, others p write delete⟩)
  refine ⟨fun p f => ?_, fun d => ?_, fun p => ?_⟩
  · rcases shape p with ⟨g, -, here, there⟩ | ⟨-, here, there⟩ | ⟨there, here⟩
    · rw [here, there]
    · rw [here, there]
    · rw [here, there]
      split
      · rename_i made
        rw [made.1]
        exact iff_of_false (fun e => by cases e) fun e => by cases e
      · exact Iff.rfl
  · have below : (∃ v ∈ P.writes, d <:+ v.1.tail) ↔
        ∃ p f, view p = some (.file f) ∧ t.get? p ≠ some (.file f) ∧ d <:+ p.tail := by
      constructor
      · rintro ⟨⟨p, f⟩, mem, above⟩
        obtain ⟨found, differs⟩ := O.mem_writes.mp mem
        exact ⟨p, f, found, differs, above⟩
      · rintro ⟨p, f, found, differs, above⟩
        exact ⟨(p, f), O.mem_writes.mpr ⟨found, differs⟩, above⟩
    rw [DirsAfter, ← below]
    by_cases above : ∃ v ∈ P.writes, d <:+ v.1.tail
    · obtain ⟨v, hv, suffix⟩ := above
      exact iff_of_true (parents v hv d suffix) (.inr ⟨v, hv, suffix⟩)
    · rw [or_iff_left above]
      rcases shape d with ⟨g, mem, here, -⟩ | ⟨mem, here, -⟩ | ⟨-, here⟩
      · rw [here]
        have mem := (Patch.mem_writes.mp mem).1
        rw [O.planned.before_eq mem]
        cases P.before d with
        | none => exact iff_of_false (fun e => by cases e) fun e => by cases e
        | some f => exact iff_of_false (fun e => by cases e) fun e => by cases e
      · rw [here]
        have mem := (Patch.mem_deletes.mp mem).1
        rw [O.planned.before_eq mem]
        cases P.before d with
        | none => exact iff_of_false (fun e => by cases e) fun e => by cases e
        | some f => exact iff_of_false (fun e => by cases e) fun e => by cases e
      · rw [here, if_neg fun made => above made.2]
  · rw [applied, ← O.changed]
    constructor
    · rintro (mem | mem)
      · obtain ⟨h, h', -⟩ := Patch.mem_deletes.mp mem
        exact ⟨h, h'⟩
      · obtain ⟨⟨q, f⟩, write, rfl⟩ := List.mem_map.mp mem
        obtain ⟨h, h', -⟩ := Patch.mem_writes.mp write
        exact ⟨h, h'⟩
    · rintro ⟨mem, changed⟩
      cases here : P.file p with
      | none => exact .inl (Patch.mem_deletes.mpr ⟨mem, changed, here⟩)
      | some f =>
        exact .inr (List.mem_map.mpr ⟨(p, f), Patch.mem_writes.mpr ⟨mem, changed, here⟩, rfl⟩)

/-! ## One by one -/

/-- Two views with the same files. -/
def SameFiles (v w : View) : Prop := ∀ p f, v p = some (.file f) ↔ w p = some (.file f)

/-- A file put in both. -/
lemma SameFiles.put {v w : View} (S : SameFiles v w) : SameFiles (v.put p file) (w.put p file) := by
  intro q f
  rw [View.put, View.put]
  split
  · exact Iff.rfl
  · exact S q f

/-- The last one counts. -/
lemma View.put_put (view : View) : (view.put p none).put p file = view.put p file := by
  funext q
  unfold View.put
  split
  · rfl
  · rfl

/-- What a section does to a view. -/
lemma applySection_cases {view' : View} (h : applySection tx view patch = some view') :
    ∃ resolved target, tx.validatePath patch.path = .ok resolved ∧ moveTarget tx patch = .ok target ∧
      ((patch.kind = .add ∧ view' =
          view.put resolved (some { content := (linesToText patch.contents).toUTF8, mode := defaultFileMode })) ∨
        (patch.kind = .delete ∧ view' = view.put resolved none) ∨
        (patch.kind = .update ∧ ∃ f content, view resolved = some (.file f) ∧ updatedContent tx patch f = .ok content ∧
          view' = (view.put resolved none).put (target.getD resolved) (some { content, mode := f.mode }))) := by
  unfold applySection at h
  split at h
  · rename_i resolved target here there
    refine ⟨resolved, target, here, there, ?_⟩
    split at h
    · rename_i add _
      cases h
      exact .inl ⟨add, rfl⟩
    · rename_i delete _
      cases h
      exact .inr (.inl ⟨delete, rfl⟩)
    · rename_i f update found
      refine .inr (.inr ⟨update, f, ?_⟩)
      unfold applyUpdate at h
      split at h
      · cases h
      · rename_i content done
        refine ⟨content, found, done, ?_⟩
        split at h
        · cases h
          rw [Option.getD_none, View.put_put]
        · rename_i target
          rw [Option.getD_some]
          split at h
          · rename_i same
            split at h
            · cases h
            · cases h
              rw [same, View.put_put]
          · split at h
            · cases h
            · cases h
              rfl
    · cases h
  · cases h

/-- Where a section is applicable to two views with the same files, it does the same to them. -/
lemma SameFiles.applySection {v w v' w' : View} (S : SameFiles v w) (hv : applySection tx v patch = some v')
    (hw : Patch.applySection tx w patch = some w') : SameFiles v' w' := by
  obtain ⟨resolved, target, here, there, stepv⟩ := applySection_cases hv
  obtain ⟨resolved', target', here', there', stepw⟩ := applySection_cases hw
  rw [here] at here'
  cases here'
  rw [there] at there'
  cases there'
  rcases stepv with ⟨kind, rfl⟩ | ⟨kind, rfl⟩ | ⟨kind, f, content, file, done, rfl⟩
  · rw [kind] at stepw
    rcases stepw with ⟨-, rfl⟩ | ⟨⟨⟩, -⟩ | ⟨⟨⟩, -⟩
    exact S.put
  · rw [kind] at stepw
    rcases stepw with ⟨⟨⟩, -⟩ | ⟨-, rfl⟩ | ⟨⟨⟩, -⟩
    exact S.put
  · rw [kind] at stepw
    rcases stepw with ⟨⟨⟩, -⟩ | ⟨⟨⟩, -⟩ | ⟨-, g, content', file', done', rfl⟩
    have same := (S resolved f).mp file
    rw [file'] at same
    cases same
    rw [done] at done'
    cases done'
    exact S.put.put

end

/-! ## Directories -/

end OpenAgentd.Patch
