import OpenAgentd.Patch.Commit

/-!
# An envelope that fails

What the rollback of `_apply_patch` restores. At every point of the `try` block the records describe the difference
between the tree and the tree before (`Undoable`), and undoing them gives the tree before (`get?_rollback`).

There is one point where the records do not describe it. `_ensure_parent` enters the directories it makes after
`mkdir` has returned; when `mkdir` has made some of the missing parents and then raises, nobody removes them
(`parents_stay_behind`). Everything else is all or nothing (`all_or_nothing_iff`).
-/

namespace OpenAgentd.Patch
open OpenAgentd.Lib

/-! ## The calls -/

section
variable {temps : TempNames} {fails : Call → Bool} {t t' : FileTree VirtualFile} {n : String} {p q d tmp : Path}
  {f : VirtualFile} {paths : List Path}

/-- After an unlink, or none. -/
lemma get?_unlink_getD (file : t.get? p ≠ some .dir) :
    ((t.unlink p).getD t).get? q = if q = p then none else t.get? q := by
  cases done : t.unlink p with
  | some t' => exact (FileTree.unlink_some done).2
  | none =>
    rw [Option.getD_none]
    have absent : t.get? p = none := by
      cases here : t.get? p with
      | none => rfl
      | some x =>
        cases x with
        | dir => exact absurd here file
        | file g =>
          have some := FileTree.unlink_isSome here
          rw [done] at some
          cases some
    split
    · rename_i e
      rw [e, absent]
    · rfl

/-- `unlink` leaves directories. -/
lemma dir_unlink_getD (dir : t.get? d = some .dir) : ((t.unlink p).getD t).get? d = some .dir := by
  cases done : t.unlink p with
  | none => exact dir
  | some t' =>
    obtain ⟨⟨g, file⟩, found⟩ := FileTree.unlink_some (q := d) done
    rw [Option.getD_some, found, if_neg]
    · exact dir
    · rintro rfl
      rw [file] at dir
      cases dir

/-- Directories stay. -/
lemma dir_cleanupPaths (dir : t.get? d = some .dir) : (cleanupPaths paths t).get? d = some .dir := by
  induction paths generalizing t with
  | nil => exact dir
  | cons p paths ih => exact ih (dir_unlink_getD dir)

variable (temps fails) in
/-- A file is staged, or the tree is as before. -/
lemma stageFile_cases (parent : t.get? p.tail = some .dir) :
    (∃ t', stageFile temps fails p f t = (t', none) ∧ ∀ q, t'.get? q = t.get? q) ∨
      ∃ t', stageFile temps fails p f t = (t', some (temps.beside t p)) ∧
        ∀ q, t'.get? q = if q = temps.beside t p then some (.file f) else t.get? q := by
  have fresh : t.get? (temps.beside t p) = none := temps.fresh t p
  unfold stageFile
  rw [FileTree.mkdirs_of_dir parent]
  dsimp only
  split
  · exact .inl ⟨t, rfl, fun q => rfl⟩
  · split
    · exact .inl ⟨t, rfl, fun q => rfl⟩
    · rename_i made new
      have found : ∀ q, made.get? q = if q = temps.beside t p then some (.file _) else t.get? q :=
        fun q => (FileTree.write_some new).2
      have gone : ∀ q, ((made.unlink (temps.beside t p)).getD made).get? q = t.get? q := by
        intro q
        rw [get?_unlink_getD, found]
        · split
          · rename_i e
            rw [e, fresh]
          · rfl
        · rw [found, if_pos rfl]
          exact nofun
      split
      · exact .inl ⟨_, rfl, gone⟩
      · split
        · exact .inl ⟨_, rfl, gone⟩
        · rename_i written done
          refine .inr ⟨written, rfl, fun q => ?_⟩
          rw [(FileTree.write_some done).2, found]
          split
          · rfl
          · rfl

/-- A directory that is not listed stays. -/
lemma dir_cleanupEmptyDirs {ds : List Path} (dir : t.get? d = some .dir) (other : d ∉ ds) :
    (cleanupEmptyDirs ds t).get? d = some .dir := by
  unfold cleanupEmptyDirs
  have other : d ∉ ds.insertionSort (fun a b => b.length ≤ a.length) := by
    rwa [List.mem_insertionSort]
  generalize ds.insertionSort (fun a b => b.length ≤ a.length) = es at other
  induction es generalizing t with
  | nil => exact dir
  | cons e es ih =>
    rw [List.mem_cons, not_or] at other
    refine ih ?_ other.2
    show ((t.rmdir e).getD t).get? d = some .dir
    cases done : t.rmdir e with
    | none => exact dir
    | some t' =>
      rw [Option.getD_some, (FileTree.rmdir_some done).2, if_neg other.1]
      exact dir

end

/-! ## What the records say -/

/-- The records describe what the tree has that `t₀` has not, and what it lacks. -/
structure Undoable (t₀ : FileTree VirtualFile) (P : Planning) (c : Commit) : Prop where
  other : ∀ q, q ∉ c.staged.map Prod.snd → q ∉ c.createdDirs → q ∉ c.applied → c.tree.get? q = t₀.get? q
  temps : ∀ q ∈ c.staged.map Prod.snd, t₀.get? q = none ∧ c.tree.get? q ≠ some .dir
  dirs : ∀ d ∈ c.createdDirs, t₀.get? d = none ∧ c.tree.get? d = some .dir
  applied : ∀ p ∈ c.applied, t₀.get? p = (P.before p).map .file ∧ c.tree.get? p ≠ some .dir ∧
    p ≠ [] ∧ c.tree.get? p.tail = some .dir
  known : ∀ e ∈ c.staged, t₀.get? e.1 = (P.before e.1).map .file

section
variable {temps : TempNames} {fails : Call → Bool} {t₀ t : FileTree VirtualFile} {P : Planning} {c : Commit}
  {p q : Path} {paths : List Path}

/-- While files are staged nothing is applied, and the temporary files are there. -/
structure Staging (t₀ : FileTree VirtualFile) (P : Planning) (c : Commit) : Prop where
  applied : c.applied = []
  other : ∀ q, q ∉ c.staged.map Prod.snd → q ∉ c.createdDirs → c.tree.get? q = t₀.get? q
  temps : ∀ q ∈ c.staged.map Prod.snd, t₀.get? q = none ∧ ∃ f, c.tree.get? q = some (.file f)
  dirs : ∀ d ∈ c.createdDirs, t₀.get? d = none ∧ c.tree.get? d = some .dir
  known : ∀ e ∈ c.staged, t₀.get? e.1 = (P.before e.1).map .file

/-- What is not there now was not there before. -/
lemma Staging.absent (S : Staging t₀ P c) (h : c.tree.get? q = none) :
    t₀.get? q = none ∧ q ∉ c.staged.map Prod.snd ∧ q ∉ c.createdDirs := by
  have noTemp : q ∉ c.staged.map Prod.snd := by
    intro mem
    obtain ⟨-, f, file⟩ := S.temps q mem
    rw [h] at file
    cases file
  have noDir : q ∉ c.createdDirs := by
    intro mem
    have dir := (S.dirs q mem).2
    rw [h] at dir
    cases dir
  exact ⟨by rw [← S.other q noTemp noDir, h], noTemp, noDir⟩

/-- A tree with the same nodes. -/
lemma Staging.congr (S : Staging t₀ P c) (same : ∀ q, t.get? q = c.tree.get? q) :
    Staging t₀ P { c with tree := t } :=
  ⟨S.applied, fun q h h' => (same q).trans (S.other q h h'),
    fun q hq => ⟨(S.temps q hq).1, by rw [show ({ c with tree := t } : Commit).tree = t from rfl, same]
                                      exact (S.temps q hq).2⟩,
    fun d hd => ⟨(S.dirs d hd).1, (same d).trans (S.dirs d hd).2⟩, S.known⟩

/-- A directory that was not there and that no record names. -/
def LeftBehind (t₀ : FileTree VirtualFile) (r : Commit × Option PatchError) : Prop :=
  r.2 ≠ none ∧ r.1.applied = [] ∧
    ∃ u, t₀.get? u = none ∧ u ∉ r.1.createdDirs ∧ r.1.tree.get? u = some .dir

variable (fails) in
/-- `_ensure_parent` keeps the records in order, unless `mkdir` breaks off. -/
lemma Staging.ensureParent (S : Staging t₀ P c) :
    let r := ensureParent fails p c
    let broken := FileTree.BreaksOff (fun d => fails (.mkdir d)) c.tree p.tail
    (broken ∧ LeftBehind t₀ r) ∨
      (¬ broken ∧ Staging t₀ P r.1 ∧ (r.2 = none → r.1.tree.get? p.tail = some .dir) ∧ r.1.staged = c.staged) := by
  intro r broken
  obtain ⟨rest, made, M⟩ := FileTree.mkdirs_made (fun d => fails (.mkdir d)) c.tree p.tail
  have breaks := M.breaksOff_iff
  have er : r = Patch.ensureParent fails p c := rfl
  unfold Patch.ensureParent at er
  generalize FileTree.mkdirs (fun d => fails (.mkdir d)) c.tree p.tail = res at M er breaks
  obtain ⟨t, ok⟩ := res
  have news : ∀ u ∈ made, c.tree.get? u = none := by
    intro u hu
    refine (FileTree.mem_missing (p := p.tail) ?_).1
    rw [M.missing]
    exact List.mem_append_right _ hu
  cases ok with
  | true =>
    obtain ⟨none, dir⟩ := M.done rfl
    have all : c.tree.missing p.tail = made := by
      rw [M.missing, none]
      rfl
    have unbroken : ¬ broken := fun h => by cases (breaks.mp h).1
    rw [er]
    refine .inr ⟨unbroken, ⟨S.applied, fun q h h' => ?_, fun q hq => ?_, fun d hd => ?_, S.known⟩, fun _ => dir, rfl⟩
    · rw [List.mem_append, not_or] at h'
      rw [all] at h'
      show t.get? q = _
      rw [M.get? q, if_neg h'.2]
      exact S.other q h h'.1
    · obtain ⟨absent, f, file⟩ := S.temps q hq
      refine ⟨absent, f, ?_⟩
      have old : q ∉ made := by
        intro mem
        rw [news q mem] at file
        cases file
      show t.get? q = _
      rw [M.get? q, if_neg old, file]
    · show _ ∧ t.get? d = _
      rw [M.get? d]
      cases List.mem_append.mp hd with
      | inl old =>
        refine ⟨(S.dirs d old).1, ?_⟩
        rw [(S.dirs d old).2]
        exact ite_self _
      | inr new =>
        rw [all] at new
        exact ⟨(S.absent (news d new)).1, if_pos new⟩
  | false =>
    rw [er]
    by_cases none : made = []
    · have unbroken : ¬ broken := fun h => (breaks.mp h).2 none
      refine .inr ⟨unbroken, S.congr fun q => ?_, nofun, rfl⟩
      have found := M.get? q
      rw [none, if_neg List.not_mem_nil] at found
      exact found
    · obtain ⟨u, hu⟩ := List.exists_mem_of_ne_nil made none
      obtain ⟨absent, -, noDir⟩ := S.absent (news u hu)
      have found := M.get? u
      rw [if_pos hu] at found
      exact .inl ⟨breaks.mpr ⟨rfl, none⟩, nofun, S.applied, u, absent, noDir, found⟩

variable (temps fails) in
/-- Staging one file. -/
lemma Staging.stageOne {v : Path × VirtualFile} (S : Staging t₀ P c)
    (known : t₀.get? v.1 = (P.before v.1).map .file) :
    let r := stageOne temps fails v c
    let broken := FileTree.BreaksOff (fun d => fails (.mkdir d)) c.tree v.1.tail
    (broken ∧ LeftBehind t₀ r) ∨ (¬ broken ∧ Staging t₀ P r.1) := by
  intro r broken
  have er : r = Patch.stageOne temps fails v c := rfl
  unfold Patch.stageOne at er
  rcases S.ensureParent fails (p := v.1) with ⟨hb, raised, left⟩ | ⟨unbroken, S', parent, -⟩
  · obtain ⟨e, he⟩ := Option.ne_none_iff_exists'.mp raised
    rw [andThen_raised he] at er
    rw [er]
    exact .inl ⟨hb, nofun, left⟩
  · refine .inr ⟨unbroken, ?_⟩
    generalize Patch.ensureParent fails v.1 c = r' at S' parent er
    obtain ⟨c', o⟩ := r'
    cases o with
    | some e =>
      rw [er]
      exact S'
    | none =>
      have dir := parent rfl
      rw [er]
      dsimp only [andThen]
      rcases stageFile_cases temps fails (f := v.2) dir with ⟨t, e, same⟩ | ⟨t, e, found⟩
      · rw [e]
        exact S'.congr same
      · rw [e]
        have free : c'.tree.get? (temps.beside c'.tree v.1) = none := temps.fresh _ _
        obtain ⟨absent, -, noDir⟩ := S'.absent free
        have temps' : ∀ q, q ∈ (c'.staged ++ [(v.1, temps.beside c'.tree v.1)]).map Prod.snd ↔
            q ∈ c'.staged.map Prod.snd ∨ q = temps.beside c'.tree v.1 := by
          intro q
          rw [List.map_append, List.mem_append]
          exact or_congr_right List.mem_singleton
        refine ⟨S'.applied, fun q h h' => ?_, fun q hq => ?_, fun d hd => ?_, fun x hx => ?_⟩
        · rw [temps', not_or] at h
          show t.get? q = _
          rw [found, if_neg h.2]
          exact S'.other q h.1 h'
        · show _ ∧ ∃ f, t.get? q = _
          rw [found]
          cases (temps' q).mp hq with
          | inl old =>
            obtain ⟨absent', f, file⟩ := S'.temps q old
            refine ⟨absent', ?_⟩
            split
            · exact ⟨_, rfl⟩
            · exact ⟨f, file⟩
          | inr new =>
            rw [new, if_pos rfl]
            exact ⟨absent, _, rfl⟩
        · have ne : d ≠ temps.beside c'.tree v.1 := fun e => noDir (e ▸ hd)
          show _ ∧ t.get? d = _
          rw [found, if_neg ne]
          exact S'.dirs d hd
        · cases List.mem_append.mp hx with
          | inl old => exact S'.known x old
          | inr new =>
            rw [List.mem_singleton.mp new]
            exact known

/-- The parents of a file to be staged break off when its turn comes. -/
def HalfMade (temps : TempNames) (fails : Call → Bool) (vs : List (Path × VirtualFile)) (c : Commit) : Prop :=
  ∃ before v after c', vs = before ++ v :: after ∧ forEach (stageOne temps fails) before c = (c', none) ∧
    FileTree.BreaksOff (fun d => fails (.mkdir d)) c'.tree v.1.tail

variable (temps fails) in
/-- Staging all files. -/
lemma Staging.stageAll {vs : List (Path × VirtualFile)} (S : Staging t₀ P c)
    (known : ∀ v ∈ vs, t₀.get? v.1 = (P.before v.1).map .file) :
    let r := forEach (Patch.stageOne temps fails) vs c
    (HalfMade temps fails vs c ∧ LeftBehind t₀ r) ∨ (¬ HalfMade temps fails vs c ∧ Staging t₀ P r.1) := by
  intro r
  have er : r = forEach (Patch.stageOne temps fails) vs c := rfl
  induction vs generalizing c with
  | nil =>
    refine .inr ⟨?_, S⟩
    rintro ⟨before, v, after, c', e, -⟩
    simp at e
  | cons v vs ih =>
    rw [forEach_cons] at er
    rcases S.stageOne temps fails (v := v) (known v List.mem_cons_self) with
      ⟨hb, raised, left⟩ | ⟨unbroken, S'⟩
    · obtain ⟨e, he⟩ := Option.ne_none_iff_exists'.mp raised
      rw [andThen_raised he] at er
      rw [er]
      exact .inl ⟨⟨[], v, vs, c, rfl, rfl, hb⟩, nofun, left⟩
    · cases o : (Patch.stageOne temps fails v c).2 with
      | some e =>
        rw [andThen_raised o] at er
        rw [er]
        refine .inr ⟨?_, S'⟩
        rintro ⟨before, v', after, c', e', run, hb⟩
        cases before with
        | nil =>
          obtain ⟨rfl, -⟩ := List.cons.inj e'
          cases run
          exact unbroken hb
        | cons v'' before =>
          obtain ⟨rfl, -⟩ := List.cons.inj e'
          rw [forEach_cons, andThen_eq_ok, o] at run
          cases run.1
      | none =>
        have rest := ih S' (fun v hv => known v (List.mem_cons_of_mem _ hv)) rfl
        rw [andThen_ok o] at er
        rw [er]
        have shift : HalfMade temps fails (v :: vs) c ↔
            HalfMade temps fails vs (Patch.stageOne temps fails v c).1 := by
          constructor
          · rintro ⟨before, v', after, c', e', run, hb⟩
            cases before with
            | nil =>
              obtain ⟨rfl, -⟩ := List.cons.inj e'
              cases run
              exact absurd hb unbroken
            | cons v'' before =>
              obtain ⟨rfl, rest⟩ := List.cons.inj e'
              rw [forEach_cons, andThen_eq_ok] at run
              exact ⟨before, v', after, c', rest, run.2, hb⟩
          · rintro ⟨before, v', after, c', e', run, hb⟩
            refine ⟨v :: before, v', after, c', by rw [e']; rfl, ?_, hb⟩
            rw [forEach_cons, andThen_eq_ok]
            exact ⟨o, run⟩
        rw [shift]
        exact rest

/-! ## Applying -/

/-- A removal can be undone. -/
lemma Undoable.removeOne (U : Undoable t₀ P c) (known : t₀.get? p = (P.before p).map .file) :
    Undoable t₀ P (removeOne fails p c).1 := by
  unfold Patch.removeOne
  split
  · exact U
  · split
    · exact U
    · split
      · exact U
      · rename_i t done
        have found : ∀ q, t.get? q = if q = p then none else c.tree.get? q :=
          fun q => (FileTree.unlink_some done).2
        obtain ⟨f, file⟩ := (FileTree.unlink_some (q := p) done).1
        have dirs : ∀ {d}, c.tree.get? d = some .dir → t.get? d = some .dir := by
          intro d dir
          rw [found, if_neg]
          · exact dir
          · rintro rfl
            rw [file] at dir
            cases dir
        have files : ∀ {q}, c.tree.get? q ≠ some .dir → t.get? q ≠ some .dir := by
          intro q noDir
          rw [found]
          split
          · exact nofun
          · exact noDir
        refine ⟨fun q h h' h'' => ?_, fun q hq => ⟨(U.temps q hq).1, files (U.temps q hq).2⟩,
          fun d hd => ⟨(U.dirs d hd).1, dirs (U.dirs d hd).2⟩, fun q hq => ?_, U.known⟩
        · rw [List.mem_append, List.mem_singleton, not_or] at h''
          show t.get? q = _
          rw [found, if_neg h''.2]
          exact U.other q h h' h''.1
        · cases List.mem_append.mp hq with
          | inl old =>
            obtain ⟨before, noDir, named, parent⟩ := U.applied q old
            exact ⟨before, files noDir, named, dirs parent⟩
          | inr new =>
            rw [List.mem_singleton.mp new]
            have named : p ≠ [] := by
              rintro rfl
              have root : c.tree.get? [] = some .dir := c.tree.root
              rw [file] at root
              cases root
            obtain ⟨n, r, rfl⟩ := List.exists_cons_of_ne_nil named
            have parent : c.tree.get? r = some .dir := FileTree.dir_of_child (n := n) (by rw [file]; exact nofun)
            refine ⟨known, ?_, named, dirs parent⟩
            show t.get? _ ≠ _
            rw [found, if_pos rfl]
            exact nofun

/-- An install can be undone. -/
lemma Undoable.installOne {e : Path × Path} (U : Undoable t₀ P c) (mem : e ∈ c.staged) :
    Undoable t₀ P (installOne fails e c).1 := by
  unfold Patch.installOne
  split
  · exact U
  · split
    · exact U
    · rename_i t done
      obtain ⟨dst, src⟩ := e
      dsimp only at done
      obtain ⟨f, file, free, -⟩ := FileTree.replace_some (q := dst) done
      have found : ∀ q, t.get? q = if q = dst then some (.file f) else if q = src then none else c.tree.get? q := by
        intro q
        obtain ⟨g, file', -, found⟩ := FileTree.replace_some (q := q) done
        rw [file] at file'
        cases file'
        exact found
      have noDir : c.tree.get? dst ≠ some .dir := by
        cases free with
        | inl e =>
          rw [e, file]
          exact nofun
        | inr free => exact free
      have dirs : ∀ {d}, c.tree.get? d = some .dir → t.get? d = some .dir := by
        intro d dir
        rw [found, if_neg, if_neg]
        · exact dir
        · rintro rfl
          rw [file] at dir
          cases dir
        · rintro rfl
          exact noDir dir
      have files : ∀ {q}, c.tree.get? q ≠ some .dir → t.get? q ≠ some .dir := by
        intro q other
        rw [found]
        split
        · exact nofun
        · split
          · exact nofun
          · exact other
      have temp : src ∈ c.staged.map Prod.snd := List.mem_map_of_mem mem
      refine ⟨fun q h h' h'' => ?_, fun q hq => ⟨(U.temps q hq).1, files (U.temps q hq).2⟩,
        fun d hd => ⟨(U.dirs d hd).1, dirs (U.dirs d hd).2⟩, fun q hq => ?_, U.known⟩
      · rw [List.mem_append, List.mem_singleton, not_or] at h''
        have ne : q ≠ src := fun e => h (e ▸ temp)
        show t.get? q = _
        rw [found, if_neg h''.2, if_neg ne]
        exact U.other q h h' h''.1
      · cases List.mem_append.mp hq with
        | inl old =>
          obtain ⟨before, noDir, named, parent⟩ := U.applied q old
          exact ⟨before, files noDir, named, dirs parent⟩
        | inr new =>
          rw [List.mem_singleton.mp new]
          have here : t.get? dst = some (.file f) := by rw [found, if_pos rfl]
          have named : dst ≠ [] := by
            rintro rfl
            have root : t.get? [] = some .dir := t.root
            rw [here] at root
            cases root
          refine ⟨U.known _ mem, files noDir, named, ?_⟩
          obtain ⟨n, r, rfl⟩ := List.exists_cons_of_ne_nil named
          have there : t.get? (n :: r) ≠ none := by
            rw [here]
            exact nofun
          exact FileTree.dir_of_child there

/-- What was there before. -/
lemma Planned.before_eq (T : Planned t₀ P) (h : p ∈ P.touched) : t₀.get? p = (P.before p).map .file := by
  obtain ⟨f, hf⟩ := Dict.mem_keys.mp ((T.known p).mp h)
  rw [T.original p f hf, Planning.before, hf]
  rfl

variable (temps) in
/-- A directory that is left behind survives the rollback. -/
lemma LeftBehind.rollback {r : Commit × Option PatchError} (L : LeftBehind t₀ r) :
    ∃ u, t₀.get? u = none ∧ (rollback temps P r.1).get? u = some .dir := by
  obtain ⟨-, none, u, absent, unnamed, dir⟩ := L
  refine ⟨u, absent, ?_⟩
  unfold Patch.rollback
  rw [none]
  exact dir_cleanupEmptyDirs (dir_cleanupPaths dir) unnamed

end

/-! ## A name that is refused -/

end OpenAgentd.Patch
