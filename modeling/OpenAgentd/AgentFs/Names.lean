import OpenAgentd.AgentFs.Service
import OpenAgentd.Filesystem.Anchored

/-!
# Names of agents

Checked parts, joined and taken apart, are the same parts (`purePathParts_asPosix`), so a name and its path determine
each other where the suffix does. The path of a name forgets the suffix of its last part (`address_eq_iff`), the name
of that path is the name if it had none (`agentName_address_iff`), and a listed path is read under its name if the
parts of the name pass the check and no suffix is left (`agentFile_agentName_iff`).
-/

namespace OpenAgentd.AgentFs
open Lib Filesystem

/-- A name that passes the check. -/
def Accepted (name : String) : Prop := ∃ p, validateAgentName name = .ok p

/-- The path of a name that passes the check. -/
def address (name : String) : Path := withSuffix md (purePathParts name).reverse

/-- A name that is its parts joined, the last of them without a suffix. -/
structure Plain (name : String) : Prop where
  joined : "/".intercalate (purePathParts name) = name
  bare : ∀ part ∈ (purePathParts name).getLast?, Bare '.' part.toList

/-- A path of a Markdown file. -/
def IsMd (p : Path) : Prop := ∃ name parent, p = name :: parent ∧ md.toList <:+ name.toList

/-- The parts of the listed name of a path pass the check, and no suffix is left. -/
structure Readable (p : Path) : Prop where
  valid : ∀ part ∈ withSuffix "" p, matchesNameRe part = true
  bare : ∀ part ∈ (withSuffix "" p).head?, Bare '.' part.toList

section
variable {name part last : String} {parts : List String} {parent p q : Path}

/-- What the pattern accepts: a letter or digit, characters of names, and perhaps a line feed. -/
lemma matchesNameRe_iff : matchesNameRe name = true ↔ ∃ c rest,
    (name.toList = c :: rest ∨ name.toList = c :: rest ++ ['\n']) ∧ c.isAlphanum = true ∧
      rest.all isNameChar = true ∧ rest.length ≤ 63 := by
  have plain : ∀ c rest, c.isAlphanum = true → rest.all isNameChar = true → (c :: rest).getLast? ≠ some '\n' := by
    intro c rest first others ends
    have mem := List.mem_of_getLast? ends
    cases List.mem_cons.mp mem with
    | inl e =>
      rw [← e] at first
      exact absurd first (by decide)
    | inr mem =>
      have char := List.all_eq_true.mp others _ mem
      exact absurd char (by decide)
  unfold matchesNameRe
  dsimp only
  constructor
  · intro ok
    split at ok
    next => cases ok
    next c rest e =>
      rw [Bool.and_eq_true, Bool.and_eq_true, decide_eq_true_eq] at ok
      refine ⟨c, rest, ?_, ok.1.1, ok.1.2, ok.2⟩
      split at e
      next ends =>
        right
        rw [← e, List.dropLast_append_getLast? '\n' ends]
      next => exact .inl e
  · rintro ⟨c, rest, either, first, others, short⟩
    have core : (if name.toList.getLast? = some '\n' then name.toList.dropLast else name.toList) = c :: rest := by
      cases either with
      | inl e => rw [e, if_neg (plain c rest first others)]
      | inr e => rw [e, if_pos List.getLast?_concat, List.dropLast_concat]
    rw [core]
    simp only [first, others, short, Bool.and_self, decide_true]

/-- A checked part begins with a letter or digit. -/
lemma head_of_valid (valid : matchesNameRe part = true) : ∃ c rest, part.toList = c :: rest ∧ c.isAlphanum = true := by
  obtain ⟨c, rest, e | e, first, _⟩ := matchesNameRe_iff.mp valid
  · exact ⟨c, rest, e, first⟩
  · exact ⟨c, rest ++ ['\n'], e, first⟩

/-- A checked part has more than dots. -/
lemma exists_ne_dot (valid : matchesNameRe part = true) : ∃ c ∈ part.toList, c ≠ '.' := by
  obtain ⟨c, rest, e, first⟩ := head_of_valid valid
  refine ⟨c, by rw [e]; exact List.mem_cons_self, ?_⟩
  intro dot
  rw [dot] at first
  exact absurd first (by decide)

/-- A checked part is a name of a directory. -/
lemma isName_of_valid (valid : matchesNameRe part = true) : IsName part ∧ '/' ∉ part.toList := by
  obtain ⟨c, mem, other⟩ := exists_ne_dot valid
  have more : ∀ dots : String, (∀ c ∈ dots.toList, c = '.') → part ≠ dots := by
    intro dots all e
    rw [e] at mem
    exact other (all c mem)
  refine ⟨⟨more _ (by simp), more _ (by simp), more _ (by simp)⟩, ?_⟩
  intro slash
  obtain ⟨c, rest, e | e, first, others, _⟩ := matchesNameRe_iff.mp valid
  · rw [e] at slash
    cases List.mem_cons.mp slash with
    | inl here =>
      rw [← here] at first
      exact absurd first (by decide)
    | inr later => exact absurd (List.all_eq_true.mp others _ later) (by decide)
  · rw [e] at slash
    cases List.mem_append.mp slash with
    | inl inside =>
      cases List.mem_cons.mp inside with
      | inl here =>
        rw [← here] at first
        exact absurd first (by decide)
      | inr later => exact absurd (List.all_eq_true.mp others _ later) (by decide)
    | inr feed => exact absurd (List.mem_singleton.mp feed) (by decide)

/-- The stem's characters. -/
lemma toList_stem : (stem part).toList = (splitext '.' part.toList).1 := String.toList_ofList

/-- A checked part is still one without its suffix. -/
lemma valid_stem (valid : matchesNameRe part = true) : matchesNameRe (stem part) = true := by
  cases splitext_cases '.' part.toList with
  | inl bare =>
    have same : stem part = part := by rw [stem, bare, String.ofList_toList]
    rwa [same]
  | inr cut =>
    obtain ⟨a, w, e, ⟨x, mem, _⟩, _, cut⟩ := cut
    obtain ⟨c, rest, either, first, others, short⟩ := matchesNameRe_iff.mp valid
    have front : a <+: c :: rest := by
      have whole : a <+: part.toList := by rw [e]; exact List.prefix_append _ _
      cases either with
      | inl e' => rwa [e'] at whole
      | inr e' =>
        have len : a.length ≤ (c :: rest).length := by
          have both := congrArg List.length (e.symm.trans e')
          simp only [List.length_append, List.length_cons, List.length_nil] at both ⊢
          omega
        rw [e'] at whole
        exact List.prefix_of_prefix_length_le whole (List.prefix_append _ _) len
    cases a with
    | nil => cases mem
    | cons d more =>
      obtain ⟨same, front⟩ := List.cons_prefix_cons.mp front
      refine matchesNameRe_iff.mpr ⟨d, more, .inl (by rw [toList_stem, cut]), same ▸ first, ?_, ?_⟩
      · exact List.all_eq_true.mpr fun y mem => List.all_eq_true.mp others y (front.subset mem)
      · exact Nat.le_trans front.length_le short

/-- `.md` behind a stem is a suffix. -/
lemma splitext_md (valid : matchesNameRe part = true) :
    splitext '.' (stem part ++ md).toList = ((stem part).toList, md.toList) := by
  rw [String.toList_append]
  refine splitext_of_suffix ?_ (w := ['m', 'd']) (by decide)
  rw [toList_stem]
  exact exists_mem_stem (exists_ne_dot valid)

/-- The suffix is taken off again. -/
lemma stem_md (valid : matchesNameRe part = true) : stem (stem part ++ md) = stem part := by
  rw [stem, splitext_md valid, String.ofList_toList]

/-- A Markdown file whose stem passes the check is the stem with `.md`. -/
lemma stem_append_md (valid : matchesNameRe (stem part) = true) (ends : md.toList <:+ part.toList) :
    stem part ++ md = part := by
  obtain ⟨b, e⟩ := ends
  obtain ⟨c, rest, head, first⟩ := head_of_valid valid
  rw [toList_stem] at head
  have front : c :: rest <+: b ++ md.toList := by
    rw [← head, e]
    exact stem_front
  have named : ∃ c ∈ b, c ≠ '.' := by
    cases b with
    | nil =>
      have dot := (List.cons_prefix_cons.mp front).1
      rw [dot] at first
      exact absurd first (by decide)
    | cons d b =>
      refine ⟨d, List.mem_cons_self, ?_⟩
      intro dot
      rw [(List.cons_prefix_cons.mp front).1, dot] at first
      exact absurd first (by decide)
  have cut : splitext '.' part.toList = (b, md.toList) := by
    rw [← e]
    exact splitext_of_suffix named (w := ['m', 'd']) (by decide)
  rw [stem, cut]
  apply String.toList_inj.mp
  rw [String.toList_append, String.toList_ofList, e]

/-- A name without a dot. -/
lemma bare_stem_iff : Bare '.' part.toList ↔ stem part = part := by
  rw [bare_iff, ← toList_stem]
  exact String.toList_inj

/-! ## Parts -/

/-- The check of the parts passes them on. -/
lemma validateParts_eq_ok {ps : List String} :
    validateParts parts = .ok ps ↔ ps = parts ∧ ∀ part ∈ parts, matchesNameRe part = true := by
  induction parts generalizing ps with
  | nil =>
    constructor
    · intro ok
      cases ok
      exact ⟨rfl, fun _ mem => absurd mem List.not_mem_nil⟩
    · intro all
      rw [all.1]
      rfl
  | cons part parts ih =>
    rw [validateParts, List.forall_mem_cons]
    cases valid : matchesNameRe part with
    | false =>
      have error : ∃ e, validateName part = .error e := ⟨_, if_neg (by rw [valid]; exact Bool.false_ne_true)⟩
      obtain ⟨e, error⟩ := error
      rw [error]
      exact iff_of_false nofun fun all => Bool.false_ne_true all.2.1
    | true =>
      have ok : validateName part = .ok part := if_pos valid
      rw [ok]
      cases others : validateParts parts with
      | error e =>
        refine iff_of_false nofun fun all => ?_
        have passed := ih.mpr ⟨rfl, all.2.2⟩
        rw [others] at passed
        cases passed
      | ok qs =>
        obtain ⟨rfl, rest⟩ := ih.mp others
        constructor
        · intro e
          cases e
          exact ⟨rfl, rfl, rest⟩
        · intro all
          rw [all.1]
          rfl

/-- A name passes the check if it has parts and all of them do. -/
lemma validateAgentName_eq_ok : validateAgentName name = .ok p ↔
    p = (purePathParts name).reverse ∧ p ≠ [] ∧ ∀ part ∈ p, matchesNameRe part = true := by
  unfold validateAgentName
  split
  next none =>
    rw [none]
    exact iff_of_false nofun fun all => all.2.1 all.1
  next parts some =>
    cases checked : validateParts (purePathParts name) with
    | error e =>
      refine iff_of_false nofun fun all => ?_
      have passed := validateParts_eq_ok.mpr
        ⟨rfl, fun part mem => all.2.2 part (by rw [all.1]; exact List.mem_reverse.mpr mem)⟩
      rw [checked] at passed
      cases passed
    | ok ps =>
      obtain ⟨e, valid⟩ := validateParts_eq_ok.mp checked
      rw [e]
      show Except.ok (purePathParts name).reverse = .ok p ↔ _
      constructor
      · intro e
        cases e
        exact ⟨rfl, fun none => some (List.reverse_eq_nil_iff.mp none),
          fun part mem => valid part (List.mem_reverse.mp mem)⟩
      · intro all
        rw [all.1]

/-- An accepted name has a last part, and all its parts pass the check. -/
lemma Accepted.split (ok : Accepted name) : ∃ last parent, (purePathParts name).reverse = last :: parent ∧
    ∀ part ∈ last :: parent, matchesNameRe part = true := by
  obtain ⟨p, ok⟩ := ok
  obtain ⟨rfl, some, valid⟩ := validateAgentName_eq_ok.mp ok
  obtain ⟨last, parent, e⟩ := List.exists_cons_of_ne_nil some
  rw [e] at valid
  exact ⟨last, parent, e, valid⟩

/-- An accepted name has its file. -/
lemma agentFile_of_accepted (ok : Accepted name) : agentFile name = .ok (address name) := by
  obtain ⟨p, ok⟩ := ok
  rw [agentFile, ok, (validateAgentName_eq_ok.mp ok).1]
  rfl

/-- Names of directories, joined and taken apart. -/
lemma purePathParts_asPosix (inside : Inside p) (some : p ≠ []) : purePathParts (asPosix p) = p.reverse := by
  have slashless : ∀ n ∈ p.reverse.map String.toList, '/' ∉ n := by
    intro n mem
    obtain ⟨part, named, rfl⟩ := List.mem_map.mp mem
    exact (inside part (List.mem_reverse.mp named)).2
  have some' : p.reverse.map String.toList ≠ [] := by simpa using some
  have back : (p.reverse.map String.toList).map String.ofList = p.reverse := by
    rw [List.map_map]
    exact List.map_id'' (fun _ => String.ofList_toList) _
  have split : (asPosix p).toList.splitOn '/' = p.reverse.map String.toList := by
    rw [asPosix, String.toList_intercalate]
    exact List.splitOn_intercalate '/' slashless some'
  have inside' : Inside p.reverse := fun part mem => inside part (List.mem_reverse.mp mem)
  cases e : p.reverse.map String.toList with
  | nil => exact absurd e some'
  | cons l rest =>
    have ne : l ≠ [] := by
      rintro rfl
      have empty : ([] : List Char) ∈ p.reverse.map String.toList := e ▸ List.mem_cons_self
      obtain ⟨part, mem, none⟩ := List.mem_map.mp empty
      exact (inside' part mem).1.1 (String.toList_eq_nil_iff.mp none)
    rw [e] at split
    rw [purePathParts_of_name split ne, ← e, back, filter_names inside']

/-- Valid names stay inside. -/
lemma inside_of_valid (valid : ∀ part ∈ p, matchesNameRe part = true) : Inside p :=
  fun part mem => isName_of_valid (valid part mem)

/-- Without its suffix the last part still passes the check. -/
lemma valid_withSuffix (valid : ∀ part ∈ last :: parent, matchesNameRe part = true) :
    ∀ part ∈ stem last :: parent, matchesNameRe part = true := by
  rw [List.forall_mem_cons] at valid ⊢
  exact ⟨valid_stem valid.1, valid.2⟩

/-- The last part loses its suffix. -/
lemma withSuffix_cons : withSuffix "" (last :: parent) = stem last :: parent := by
  rw [withSuffix, String.append_empty]

/-! ## Paths of names -/

/-- Two names have one path if and only if they differ in the suffix of the last part at most. -/
lemma address_eq_iff : address name = address part ↔
    withSuffix "" (purePathParts name).reverse = withSuffix "" (purePathParts part).reverse := by
  have same : ∀ {s p q}, withSuffix s p = withSuffix s q ↔ withSuffix "" p = withSuffix "" q := by
    intro s p q
    cases p with
    | nil =>
      cases q with
      | nil => exact iff_of_true rfl rfl
      | cons b q => exact iff_of_false nofun nofun
    | cons a p =>
      cases q with
      | nil => exact iff_of_false nofun nofun
      | cons b q =>
        rw [withSuffix_cons, withSuffix_cons, withSuffix, withSuffix, List.cons.injEq, List.cons.injEq]
        refine and_congr_left' ⟨fun e => ?_, fun e => by rw [e]⟩
        have chars := String.toList_inj.mpr e
        rw [String.toList_append, String.toList_append] at chars
        exact String.toList_inj.mp (List.append_cancel_right chars)
  exact same

/-- The parts of an accepted name without the last suffix are names of directories. -/
lemma Accepted.inside (ok : Accepted name) : Inside (withSuffix "" (address name)) ∧ withSuffix "" (address name) ≠ [] ∧
    withSuffix "" (address name) = withSuffix "" (purePathParts name).reverse := by
  obtain ⟨last, parent, e, valid⟩ := ok.split
  have cut : withSuffix "" (address name) = stem last :: parent := by
    rw [address, e, withSuffix, withSuffix_cons, stem_md (valid last List.mem_cons_self)]
  rw [cut, e, withSuffix_cons]
  exact ⟨inside_of_valid (valid_withSuffix valid), List.cons_ne_nil _ _, rfl⟩

/-- The path of an accepted name is listed as this name if and only if the name is plain. -/
lemma agentName_address_iff (ok : Accepted name) : agentName (address name) = name ↔ Plain name := by
  obtain ⟨inside, some, e⟩ := ok.inside
  obtain ⟨last, parent, parts, valid⟩ := ok.split
  have fwd : purePathParts name = parent.reverse ++ [last] := by
    rw [← List.reverse_reverse (purePathParts name), parts, List.reverse_cons]
  have tail : (purePathParts name).getLast? = .some last := by rw [fwd, List.getLast?_concat]
  rw [agentName, e, parts, withSuffix_cons]
  rw [e, parts, withSuffix_cons] at inside
  constructor
  · intro same
    have again := purePathParts_asPosix inside (List.cons_ne_nil _ _)
    rw [same, ← List.reverse_inj, List.reverse_reverse, parts] at again
    have bare := (List.cons.inj again).1
    refine ⟨?_, ?_⟩
    · rw [← bare, asPosix, ← parts, List.reverse_reverse] at same
      exact same
    · intro part mem
      rw [tail, Option.mem_some_iff] at mem
      rw [← mem]
      exact bare_stem_iff.mpr bare.symm
  · intro plain
    have bare := bare_stem_iff.mp (plain.bare last (by rw [tail]; exact Option.mem_some_self _))
    rw [bare, asPosix, ← parts, List.reverse_reverse]
    exact plain.joined

/-- A Markdown file is read under the name it is listed with if and only if that name is accepted and has no suffix. -/
lemma agentFile_agentName_iff (isMd : IsMd p) : agentFile (agentName p) = .ok p ↔ Readable p := by
  obtain ⟨name, parent, rfl, ends⟩ := isMd
  constructor
  · intro ok
    have accepted : Accepted (agentName (name :: parent)) := by
      cases checked : validateAgentName (agentName (name :: parent)) with
      | error e =>
        rw [agentFile, checked] at ok
        cases ok
      | ok q => exact ⟨q, checked⟩
    obtain ⟨last, above, parts, valid⟩ := accepted.split
    have path : (stem last ++ md) :: above = name :: parent := by
      rw [agentFile_of_accepted accepted, address, parts] at ok
      exact Except.ok.inj ok
    obtain ⟨rfl, rfl⟩ := List.cons.inj path
    have cut : withSuffix "" ((stem last ++ md) :: above) = stem last :: above := by
      rw [withSuffix_cons, stem_md (valid last List.mem_cons_self)]
    have valid' := valid_withSuffix valid
    have again := purePathParts_asPosix (inside_of_valid valid') (List.cons_ne_nil _ _)
    rw [agentName, cut, again, List.reverse_reverse] at parts
    have bare := (List.cons.inj parts).1
    refine ⟨?_, ?_⟩
    · rw [cut]
      exact valid'
    · intro part mem
      rw [cut, List.head?_cons, Option.mem_some_iff] at mem
      rw [← mem, bare_stem_iff, bare, bare]
  · intro readable
    have valid := readable.valid
    rw [withSuffix_cons] at valid
    have bare : stem (stem name) = stem name := by
      apply bare_stem_iff.mp
      apply readable.bare
      rw [withSuffix_cons]
      exact Option.mem_some_self _
    have parts := purePathParts_asPosix (inside_of_valid valid) (List.cons_ne_nil _ _)
    have accepted : validateAgentName (agentName (name :: parent)) = .ok (stem name :: parent) := by
      rw [validateAgentName_eq_ok, agentName, withSuffix_cons, parts, List.reverse_reverse]
      exact ⟨rfl, List.cons_ne_nil _ _, valid⟩
    rw [agentFile, accepted]
    show Except.ok ((stem (stem name) ++ md) :: parent) = _
    rw [bare, stem_append_md (valid _ List.mem_cons_self) ends]

end

end OpenAgentd.AgentFs
