import OpenAgentd.Lib.Ordered
import OpenAgentd.Patch.Rollback

/-!
# An envelope that succeeds

What the four loops of the `try` block leave when none of them raises. The staged files stand beside their places
with the parents made for them (`Staged`), the check finds every path that was read as it was, and the removed and
the replaced paths are those of the plan (`commit_ok`).
-/

namespace OpenAgentd.Patch
open OpenAgentd.Lib

section
variable {temps : TempNames} {fails : Call → Bool} {t₀ : FileTree VirtualFile} {P : Planning} {c c' : Commit}
  {p q d : Path} {v : Path × VirtualFile} {vs ws : List (Path × VirtualFile)} {es : List (Path × Path)}
  {ps : List Path}

/-! ## Staging -/

/-- Parents that were made. -/
lemma ensureParent_ok (h : (ensureParent fails p c).2 = none) :
    (ensureParent fails p c).1.staged = c.staged ∧
      (ensureParent fails p c).1.createdDirs = c.createdDirs ++ c.tree.missing p.tail ∧
      (ensureParent fails p c).1.tree.get? p.tail = some .dir ∧
      ∀ q, (ensureParent fails p c).1.tree.get? q =
        if q ∈ c.tree.missing p.tail then some .dir else c.tree.get? q := by
  obtain ⟨rest, made, M⟩ := FileTree.mkdirs_made (fun d => fails (.mkdir d)) c.tree p.tail
  unfold ensureParent at *
  generalize FileTree.mkdirs (fun d => fails (.mkdir d)) c.tree p.tail = res at *
  obtain ⟨t, ok⟩ := res
  cases ok with
  | false => cases h
  | true =>
    obtain ⟨none, dir⟩ := M.done rfl
    refine ⟨rfl, rfl, dir, fun q => ?_⟩
    rw [M.missing, none]
    exact M.get? q

/-- A file that is staged: the parents are made, and a temporary file holds the content. -/
lemma stageOne_ok (h : stageOne temps fails v c = (c', none)) :
    ∃ tmp, c.tree.get? tmp = none ∧ tmp ∉ c.tree.missing v.1.tail ∧ c'.staged = c.staged ++ [(v.1, tmp)] ∧
      c'.createdDirs = c.createdDirs ++ c.tree.missing v.1.tail ∧ c'.tree.get? v.1.tail = some .dir ∧
      ∀ q, c'.tree.get? q =
        if q = tmp then some (.file v.2) else if q ∈ c.tree.missing v.1.tail then some .dir else c.tree.get? q := by
  obtain ⟨parents, rest⟩ := andThen_eq_ok.mp h
  obtain ⟨staged, created, parent, found⟩ := ensureParent_ok parents
  generalize (ensureParent fails v.1 c).1 = c₁ at staged created parent found rest
  have cases := stageFile_cases temps fails (f := v.2) parent
  rcases cases with ⟨t, e, -⟩ | ⟨t, e, found'⟩
  · rw [e] at rest
    cases rest
  · rw [e] at rest
    cases rest
    have fresh : c₁.tree.get? (temps.beside c₁.tree v.1) = none := temps.fresh _ _
    have free := fresh
    rw [found] at free
    split at free
    · cases free
    · rename_i old
      have other : v.1.tail ≠ temps.beside c₁.tree v.1 := by
        intro same
        rw [same, fresh] at parent
        cases parent
      refine ⟨temps.beside c₁.tree v.1, free, old, by rw [staged], created, ?_, fun q => ?_⟩
      · show t.get? _ = _
        rw [found', if_neg other, parent]
      · show t.get? q = _
        rw [found', found]

/-- The files of a list are staged. -/
structure Staged (t₀ : FileTree VirtualFile) (P : Planning) (vs : List (Path × VirtualFile)) (c : Commit) : Prop where
  staging : Staging t₀ P c
  files : List.Forall₂ (fun v e => e.1 = v.1 ∧ c.tree.get? e.2 = some (.file v.2)) vs c.staged
  distinct : (c.staged.map Prod.snd).Nodup
  created : ∀ d, d ∈ c.createdDirs ↔ t₀.get? d = none ∧ ∃ v ∈ vs, d <:+ v.1.tail
  parents : ∀ v ∈ vs, c.tree.get? v.1.tail = some .dir

/-- Nothing is staged yet. -/
lemma Staged.start : Staged t₀ P [] { tree := t₀ } where
  staging := ⟨rfl, fun q _ _ => rfl, by simp, by simp, by simp⟩
  files := .nil
  distinct := List.nodup_nil
  created := by simp
  parents := by simp

/-- What stands above a directory is a directory. -/
lemma dir_of_suffix {t : FileTree VirtualFile} (h : t.get? p = some .dir) (above : d <:+ p) : t.get? d = some .dir := by
  induction p with
  | nil =>
    rw [List.suffix_nil.mp above]
    exact h
  | cons n p ih =>
    cases List.suffix_cons_iff.mp above with
    | inl e => rwa [e]
    | inr above =>
      refine ih (FileTree.dir_of_child (n := n) ?_) above
      rw [h]
      exact nofun

/-- One more file is staged. -/
lemma Staged.stageOne (S : Staged t₀ P vs c) (known : t₀.get? v.1 = (P.before v.1).map .file)
    (ok : stageOne temps fails v c = (c', none)) : Staged t₀ P (vs ++ [v]) c' := by
  have staging : Staging t₀ P c' := by
    have cases := S.staging.stageOne temps fails known
    rw [ok] at cases
    rcases cases with ⟨-, raised, -⟩ | ⟨-, staging⟩
    · exact absurd rfl raised
    · exact staging
  obtain ⟨tmp, free, old, staged, created, parent, found⟩ := stageOne_ok ok
  have noTemp : tmp ∉ c.staged.map Prod.snd := (S.staging.absent free).2.1
  -- what was there before this step is untouched by it
  have kept : ∀ q, c.tree.get? q ≠ none → c'.tree.get? q = c.tree.get? q := by
    intro q there
    have other : q ≠ tmp := by
      rintro rfl
      exact there free
    have present : q ∉ c.tree.missing v.1.tail := fun mem => there (FileTree.mem_missing mem).1
    rw [found, if_neg other, if_neg present]
  refine ⟨staging, ?_, ?_, fun d => ?_, fun v' hv' => ?_⟩
  · rw [staged]
    refine List.rel_append ?_ ?_
    · refine S.files.imp fun v e h => ⟨h.1, ?_⟩
      rw [kept _ (by rw [h.2]; exact nofun), h.2]
    · exact .cons ⟨rfl, by rw [found, if_pos rfl]⟩ .nil
  · rw [staged, List.map_append, List.nodup_append]
    refine ⟨S.distinct, List.nodup_singleton _, fun a ha b hb => ?_⟩
    rw [List.mem_singleton.mp hb]
    rintro rfl
    exact noTemp ha
  · rw [created, List.mem_append, S.created]
    constructor
    · rintro (⟨absent, v', hv', above⟩ | missing)
      · exact ⟨absent, v', List.mem_append_left _ hv', above⟩
      · obtain ⟨absent, above⟩ := FileTree.mem_missing missing
        exact ⟨(S.staging.absent absent).1, v, List.mem_append_right _ (List.mem_singleton_self v), above⟩
    · rintro ⟨absent, v', hv', above⟩
      cases List.mem_append.mp hv' with
      | inl old => exact .inl ⟨absent, v', old, above⟩
      | inr new =>
        rw [List.mem_singleton.mp new] at above
        by_cases missing : c.tree.get? d = none
        · exact .inr (FileTree.mem_missing_of_none missing above)
        · have dir := dir_of_suffix parent above
          rw [kept d missing] at dir
          refine .inl ((S.created d).mp ?_)
          by_contra other
          have noTemp : d ∉ c.staged.map Prod.snd := by
            intro mem
            obtain ⟨-, f, file⟩ := S.staging.temps d mem
            rw [dir] at file
            cases file
          rw [S.staging.other d noTemp other] at missing
          exact missing absent
  · cases List.mem_append.mp hv' with
    | inl old =>
      rw [kept _ (by rw [S.parents v' old]; exact nofun), S.parents v' old]
    | inr new =>
      rw [List.mem_singleton.mp new]
      exact parent

/-- All files are staged. -/
lemma Staged.stageAll (S : Staged t₀ P vs c) (known : ∀ v ∈ ws, t₀.get? v.1 = (P.before v.1).map .file)
    (ok : forEach (Patch.stageOne temps fails) ws c = (c', none)) : Staged t₀ P (vs ++ ws) c' := by
  induction ws generalizing vs c with
  | nil =>
    cases ok
    rwa [List.append_nil]
  | cons v ws ih =>
    rw [forEach_cons, andThen_eq_ok] at ok
    have here := S.stageOne (known v List.mem_cons_self) (Prod.ext rfl ok.1)
    have rest := ih here (fun v hv => known v (List.mem_cons_of_mem _ hv)) ok.2
    rwa [List.append_assoc] at rest

/-! ## The check -/

/-- The file is as it was read. -/
lemma assertSnapshot_ok {t : FileTree VirtualFile} {file : Option VirtualFile}
    (ok : assertSnapshot fails t p file = none) : t.get? p = file.map .file := by
  unfold assertSnapshot at ok
  split at ok
  · assumption
  · cases ok
  · rename_i f g here
    split at ok
    · cases ok
    · split at ok
      · rename_i same
        rw [here, same]
        rfl
      · cases ok
  · cases ok

/-- The check changes nothing, and when it ends every path is as it was read. -/
lemma recheck_ok {es : List (Path × Option VirtualFile)} (ok : (forEach (recheckOne fails) es c).2 = none) :
    (forEach (recheckOne fails) es c).1 = c ∧ ∀ e ∈ es, c.tree.get? e.1 = e.2.map .file := by
  induction es with
  | nil => exact ⟨rfl, by simp⟩
  | cons e es ih =>
    rw [forEach_cons, andThen_snd_eq_none] at ok
    obtain ⟨first, ok⟩ := ok
    obtain ⟨same, rest⟩ := ih ok
    rw [forEach_cons, andThen_ok first]
    refine ⟨same, fun e' he' => ?_⟩
    cases List.mem_cons.mp he' with
    | inl here =>
      rw [here]
      exact assertSnapshot_ok first
    | inr later => exact rest e' later

/-! ## Removing and installing -/

/-- A removal that worked. -/
lemma removeOne_ok (ok : (removeOne fails p c).2 = none) :
    (removeOne fails p c).1.staged = c.staged ∧
      (∀ q, (removeOne fails p c).1.tree.get? q = if q = p then none else c.tree.get? q) ∧
      ∀ q, q ∈ (removeOne fails p c).1.applied ↔ q ∈ c.applied ∨ q = p ∧ c.tree.get? p ≠ none := by
  unfold removeOne at *
  split at ok
  · rename_i absent
    rw [if_pos absent]
    refine ⟨rfl, fun q => ?_, fun q => by simp [absent]⟩
    split
    · rename_i e
      rw [e, absent]
    · rfl
  · rename_i there
    rw [if_neg there]
    split at ok
    · cases ok
    · rename_i yes
      rw [if_neg yes]
      cases done : c.tree.unlink p with
      | none =>
        rw [done] at ok
        cases ok
      | some t =>
        refine ⟨rfl, fun q => (FileTree.unlink_some done).2, fun q => ?_⟩
        show q ∈ c.applied ++ [p] ↔ _
        rw [List.mem_append, List.mem_singleton, and_iff_left there]

/-- Removals that worked. -/
lemma remove_ok (ok : (forEach (removeOne fails) ps c).2 = none) :
    (forEach (removeOne fails) ps c).1.staged = c.staged ∧
      (∀ q, (forEach (removeOne fails) ps c).1.tree.get? q = if q ∈ ps then none else c.tree.get? q) ∧
      ∀ q, q ∈ (forEach (removeOne fails) ps c).1.applied ↔ q ∈ c.applied ∨ q ∈ ps ∧ c.tree.get? q ≠ none := by
  induction ps generalizing c with
  | nil => exact ⟨rfl, fun q => rfl, by simp⟩
  | cons p ps ih =>
    rw [forEach_cons, andThen_snd_eq_none] at ok
    obtain ⟨first, ok⟩ := ok
    obtain ⟨staged, found, applied⟩ := removeOne_ok first
    obtain ⟨staged', found', applied'⟩ := ih ok
    rw [forEach_cons, andThen_ok first]
    refine ⟨staged'.trans staged, fun q => ?_, fun q => ?_⟩
    · rw [found', found]
      by_cases here : q = p
      · simp [here]
      · simp [here]
    · rw [applied', applied, found]
      by_cases here : q = p
      · simp [here]
      · simp [here]

/-- An install that worked. -/
lemma installOne_ok {src : Path} {f : VirtualFile} (file : c.tree.get? src = some (.file f))
    (ok : (installOne fails (p, src) c).2 = none) :
    (∀ q, (installOne fails (p, src) c).1.tree.get? q =
        if q = p then some (.file f) else if q = src then none else c.tree.get? q) ∧
      ∀ q, q ∈ (installOne fails (p, src) c).1.applied ↔ q ∈ c.applied ∨ q = p := by
  unfold installOne at *
  split at ok
  · cases ok
  · rename_i yes
    rw [if_neg yes]
    dsimp only at ok ⊢
    cases done : c.tree.replace src p with
    | none =>
      rw [done] at ok
      cases ok
    | some t =>
      refine ⟨fun q => ?_, fun q => ?_⟩
      · obtain ⟨g, file', -, found⟩ := FileTree.replace_some (q := q) done
        rw [file] at file'
        cases file'
        exact found
      · show q ∈ c.applied ++ [p] ↔ _
        rw [List.mem_append, List.mem_singleton]

/-- The staged files are moved to their places. -/
lemma install_ok (files : List.Forall₂ (fun v e => e.1 = v.1 ∧ c.tree.get? e.2 = some (.file v.2)) vs es)
    (places : (vs.map Prod.fst).Nodup) (distinct : (es.map Prod.snd).Nodup)
    (apart : ∀ v ∈ vs, v.1 ∉ es.map Prod.snd) (ok : forEach (installOne fails) es c = (c', none)) :
    (∀ v ∈ vs, c'.tree.get? v.1 = some (.file v.2)) ∧
      (∀ q, q ∉ vs.map Prod.fst → c'.tree.get? q = if q ∈ es.map Prod.snd then none else c.tree.get? q) ∧
      ∀ q, q ∈ c'.applied ↔ q ∈ c.applied ∨ q ∈ vs.map Prod.fst := by
  induction vs generalizing es c with
  | nil =>
    cases files
    cases ok
    exact ⟨by simp, fun q _ => rfl, by simp⟩
  | cons v vs ih =>
    cases files with
    | @cons _ e _ es here files =>
      obtain ⟨dst, src⟩ := e
      obtain ⟨rfl, file⟩ := here
      rw [List.map_cons, List.nodup_cons] at places distinct
      rw [forEach_cons, andThen_eq_ok] at ok
      obtain ⟨done, rest⟩ := ok
      obtain ⟨moved, added⟩ := installOne_ok file done
      generalize (installOne fails (v.1, src) c).1 = c₁ at moved added rest
      have free : v.1 ∉ es.map Prod.snd := fun mem => apart v List.mem_cons_self (List.mem_cons_of_mem _ mem)
      have files' : List.Forall₂ (fun v e => e.1 = v.1 ∧ c₁.tree.get? e.2 = some (.file v.2)) vs es := by
        refine forall₂_imp_mem files fun w _ e he h => ⟨h.1, ?_⟩
        have temp : e.2 ∈ es.map Prod.snd := List.mem_map_of_mem he
        have ne : e.2 ≠ v.1 := fun same => free (same ▸ temp)
        have ne' : e.2 ≠ src := fun same => distinct.1 (same ▸ temp)
        rw [moved, if_neg ne, if_neg ne', h.2]
      obtain ⟨placed, others, applied⟩ := ih files' places.2 distinct.2
        (fun w hw mem => apart w (List.mem_cons_of_mem _ hw) (List.mem_cons_of_mem _ mem)) rest
      refine ⟨fun w hw => ?_, fun q hq => ?_, fun q => ?_⟩
      · cases List.mem_cons.mp hw with
        | inl new =>
          rw [new, others _ places.1, if_neg free, moved, if_pos rfl]
        | inr old => exact placed w old
      · rw [List.map_cons, List.mem_cons, not_or] at hq
        rw [others q hq.2, moved, if_neg hq.1, List.map_cons]
        by_cases temp : q ∈ es.map Prod.snd
        · rw [if_pos temp, if_pos (List.mem_cons_of_mem _ temp)]
        · rw [if_neg temp]
          by_cases e : q = src
          · simp [e]
          · simp [e, temp]
      · rw [applied, added, List.map_cons, List.mem_cons, or_assoc]

/-- No path is written twice. -/
lemma writes_nodup (T : Planned t₀ P) : (P.writes.map Prod.fst).Nodup := by
  have sublist : (P.writes.map Prod.fst).Sublist P.touched := by
    unfold Planning.writes
    have part : (P.touched.filter P.isChanged).Sublist P.touched := List.filter_sublist
    refine List.Sublist.trans ?_ part
    generalize P.touched.filter P.isChanged = paths
    induction paths with
    | nil => exact .slnil
    | cons p paths ih =>
      rw [List.filterMap_cons]
      cases P.file p with
      | none => exact ih.cons p
      | some f => exact ih.cons_cons p
  exact sublist.nodup T.distinct

/-- What a commit that ends leaves. -/
theorem commit_ok (T : Planned t₀ P) (ok : commit temps fails P { tree := t₀ } = (c, none)) :
    (∀ v ∈ P.writes, c.tree.get? v.1 = some (.file v.2)) ∧
      (∀ p ∈ P.deletes, c.tree.get? p = none) ∧
      (∀ q, q ∉ P.writes.map Prod.fst → q ∉ P.deletes → c.tree.get? q =
        if t₀.get? q = none ∧ ∃ v ∈ P.writes, q <:+ v.1.tail then some .dir else t₀.get? q) ∧
      (∀ v ∈ P.writes, ∀ d, d <:+ v.1.tail → c.tree.get? d = some .dir) ∧
      ∀ q, q ∈ c.applied ↔ q ∈ P.deletes ∨ q ∈ P.writes.map Prod.fst := by
  have known : ∀ v ∈ P.writes, t₀.get? v.1 = (P.before v.1).map .file :=
    fun v hv => T.before_eq (mem_writes.mp hv).1
  obtain ⟨staging, rest⟩ := andThen_eq_ok.mp ok
  have S : Staged t₀ P P.writes (forEach (stageOne temps fails) P.writes { tree := t₀ }).1 :=
    Staged.start.stageAll known (Prod.ext rfl staging)
  generalize (forEach (stageOne temps fails) P.writes { tree := t₀ }).1 = c₁ at S rest
  obtain ⟨checking, rest⟩ := andThen_eq_ok.mp rest
  obtain ⟨same, unchanged⟩ := recheck_ok checking
  rw [same] at rest
  obtain ⟨removing, installing⟩ := andThen_eq_ok.mp rest
  obtain ⟨staged, removed, applied⟩ := remove_ok removing
  generalize (forEach (removeOne fails) P.deletes c₁).1 = c₂ at staged removed applied installing
  rw [staged] at installing
  -- what was read is in the tree as it was
  have read : ∀ p ∈ P.touched, c₁.tree.get? p = t₀.get? p := by
    intro p hp
    obtain ⟨f, hf⟩ := Dict.mem_keys.mp ((T.known p).mp hp)
    rw [unchanged (p, f) (Dict.get?_eq_some.mp hf), T.original p f hf]
  have noTemp : ∀ p ∈ P.touched, p ∉ c₁.staged.map Prod.snd := by
    intro p hp mem
    obtain ⟨absent, f, file⟩ := S.staging.temps p mem
    rw [read p hp, absent] at file
    cases file
  have noDir : ∀ p ∈ P.touched, c₁.tree.get? p ≠ some .dir := by
    intro p hp
    rw [read p hp, T.before_eq hp]
    cases P.before p with
    | none => exact nofun
    | some f => exact nofun
  have noDelete : ∀ v ∈ P.writes, v.1 ∉ P.deletes := by
    intro v hv mem
    have here := (mem_writes.mp hv).2.2
    rw [(mem_deletes.mp mem).2.2] at here
    cases here
  have files : List.Forall₂ (fun v e => e.1 = v.1 ∧ c₂.tree.get? e.2 = some (.file v.2)) P.writes c₁.staged := by
    refine forall₂_imp_mem S.files fun v _ e he h => ⟨h.1, ?_⟩
    have temp : e.2 ∈ c₁.staged.map Prod.snd := List.mem_map_of_mem he
    have other : e.2 ∉ P.deletes := fun mem => noTemp _ (mem_deletes.mp mem).1 temp
    rw [removed, if_neg other, h.2]
  have places : (P.writes.map Prod.fst).Nodup := writes_nodup T
  obtain ⟨placed, others, applied'⟩ := install_ok files places S.distinct
    (fun v hv => noTemp _ (mem_writes.mp hv).1) installing
  have touched : ∀ q, q ∈ P.writes.map Prod.fst → q ∈ P.touched := by
    intro q hq
    obtain ⟨v, hv, rfl⟩ := List.mem_map.mp hq
    exact (mem_writes.mp hv).1
  refine ⟨placed, fun p hp => ?_, fun q hq hq' => ?_, fun v hv d above => ?_, fun q => ?_⟩
  · have other : p ∉ P.writes.map Prod.fst := by
      intro mem
      obtain ⟨v, hv, rfl⟩ := List.mem_map.mp mem
      exact noDelete v hv hp
    rw [others p other, removed, if_pos hp]
    exact ite_self _
  · rw [others q hq, removed, if_neg hq']
    by_cases temp : q ∈ c₁.staged.map Prod.snd
    · have absent := (S.staging.temps q temp).1
      rw [if_pos temp, if_neg, absent]
      rintro ⟨-, v, hv, above⟩
      -- a temporary file is no directory
      obtain ⟨-, f, file⟩ := S.staging.temps q temp
      rw [dir_of_suffix (S.parents v hv) above] at file
      cases file
    · rw [if_neg temp]
      by_cases made : q ∈ c₁.createdDirs
      · rw [if_pos ((S.created q).mp made), (S.staging.dirs q made).2]
      · rw [if_neg fun h => made ((S.created q).mpr h), S.staging.other q temp made]
  · have dir := dir_of_suffix (S.parents v hv) above
    have other : d ∉ P.writes.map Prod.fst := fun mem => noDir d (touched d mem) dir
    have other' : d ∉ P.deletes := fun mem => noDir d (mem_deletes.mp mem).1 dir
    have noTemp : d ∉ c₁.staged.map Prod.snd := by
      intro mem
      obtain ⟨-, f, file⟩ := S.staging.temps d mem
      rw [dir] at file
      cases file
    rw [others d other, if_neg noTemp, removed, if_neg other', dir]
  · rw [applied', applied, S.staging.applied]
    refine or_congr_left ?_
    constructor
    · rintro (h | h)
      · cases h
      · exact h.1
    · intro mem
      obtain ⟨hq, changed, none⟩ := mem_deletes.mp mem
      refine .inr ⟨mem, ?_⟩
      rw [read q hq, T.before_eq hq]
      intro absent
      rw [Option.map_eq_none_iff] at absent
      rw [Planning.isChanged, decide_eq_true_eq] at changed
      exact changed (absent.trans none.symm)

end

end OpenAgentd.Patch
