import OpenAgentd.Filesystem.Glob
import OpenAgentd.Lib.Braces
import OpenAgentd.Lib.Firsts
import Mathlib.Data.List.TakeWhile

/-!
# What brace expansion returns

`expandBraces` against the grammar of braces. The reference reads a pattern from the left and takes each alternative in
the place of its group (`choices`); `expandBraces` does the same, but stops at the first brace that is literal
(`expandBracesOf_spec`). What it returns is right exactly when no alternatives come behind a literal brace, but for
those that come after enough patterns (`expandBraces_iff`).
-/

namespace OpenAgentd.Filesystem
open Lib Lib.Braces

/-- The braces differ. -/
lemma open_ne_close : '\x7b' ≠ '\x7d' := by decide

/-- A brace is no comma. -/
lemma open_ne_comma : '\x7b' ≠ ',' := by decide

/-- A brace is no comma. -/
lemma close_ne_comma : '\x7d' ≠ ',' := by decide

/-- The braces of a pattern. -/
def patternBraces : Braces Char where
  opening := '\x7b'
  closing := '\x7d'
  comma := ','
  opening_ne_closing := open_ne_close
  opening_ne_comma := open_ne_comma
  closing_ne_comma := close_ne_comma

/-- The alternatives of the group that a text begins in, and what follows the group. -/
def alternatives? (s : List Char) : Option (List (List Char) × List Char) :=
  match braceBody 1 s with
  | none => none
  | some (body, suffix) =>
    if (braceOptions 0 [] body).length = 1 then none else some (braceOptions 0 [] body, suffix)

section
variable {s t x body rest acc cur : List Char} {os : List (List Char)} {o : List Char} {c : Char} {d k n : Nat}

/-! ## Groups -/

/-- A deeper brace. -/
lemma braceBody_opening : braceBody (d + 1) ('\x7b' :: s) = (braceBody (d + 2) s).map fun b => ('\x7b' :: b.1, b.2) := rfl

/-- A deeper brace ends. -/
lemma braceBody_closing : braceBody (d + 2) ('\x7d' :: s) = (braceBody (d + 1) s).map fun b => ('\x7d' :: b.1, b.2) := rfl

/-- The body ends. -/
lemma braceBody_end : braceBody 1 ('\x7d' :: s) = some ([], s) := rfl

/-- Another character. -/
lemma braceBody_char (open_ : c ≠ '\x7b') (close : c ≠ '\x7d') :
    braceBody d (c :: s) = (braceBody d s).map fun b => (c :: b.1, b.2) := by
  rw [braceBody, if_neg fun both => close both.1, if_neg open_, if_neg close]

/-- A balanced text is inside. -/
lemma braceBody_balanced (balanced : patternBraces.Balanced x) :
    braceBody (d + 1) (x ++ s) = (braceBody (d + 1) s).map fun b => (x ++ b.1, b.2) := by
  induction balanced generalizing d s with
  | nil => exact Option.map_id.symm ▸ rfl
  | char open_ close _ ih =>
    rw [List.cons_append, braceBody_char open_ close, ih, Option.map_map]
    rfl
  | @group a b _ _ inner outer =>
    show braceBody (d + 1) ('\x7b' :: (a ++ '\x7d' :: b ++ s)) = _
    rw [List.append_assoc, braceBody_opening, inner, List.cons_append, braceBody_closing, outer, Option.map_map,
      Option.map_map, Option.map_map]
    congr 1
    funext b
    simp [patternBraces]

/-- A deeper brace. -/
lemma braceOptions_opening : braceOptions d cur ('\x7b' :: s) = braceOptions (d + 1) (cur ++ ['\x7b']) s := rfl

/-- A deeper brace ends. -/
lemma braceOptions_closing : braceOptions (d + 1) cur ('\x7d' :: s) = braceOptions d (cur ++ ['\x7d']) s := rfl

/-- The next option. -/
lemma braceOptions_comma : braceOptions 0 cur (',' :: s) = cur :: braceOptions 0 [] s := rfl

/-- Another character. -/
lemma braceOptions_char (open_ : c ≠ '\x7b') (close : c ≠ '\x7d') (other : c ≠ ',' ∨ d ≠ 0) :
    braceOptions d cur (c :: s) = braceOptions d (cur ++ [c]) s := by
  rw [braceOptions, if_neg open_, if_neg close, if_neg]
  rintro ⟨comma, zero⟩
  cases other with
  | inl not_ => exact not_ comma
  | inr not_ => exact not_ zero

/-- A balanced text inside a group stays together. -/
lemma braceOptions_inside (balanced : patternBraces.Balanced x) :
    braceOptions (d + 1) cur (x ++ s) = braceOptions (d + 1) (cur ++ x) s := by
  induction balanced generalizing d cur s with
  | nil => rw [List.append_nil, List.nil_append]
  | char open_ close _ ih =>
    rw [List.cons_append, braceOptions_char open_ close (.inr (Nat.succ_ne_zero d)), ih, List.append_assoc]
    rfl
  | @group a b _ _ inner outer =>
    show braceOptions (d + 1) cur ('\x7b' :: (a ++ '\x7d' :: b ++ s)) = _
    rw [List.append_assoc, braceOptions_opening, inner, List.cons_append, braceOptions_closing, outer]
    congr 1
    simp [patternBraces]

/-- A piece of an option. -/
lemma braceOptions_piece (piece : patternBraces.Piece x) :
    braceOptions 0 cur (x ++ s) = braceOptions 0 (cur ++ x) s := by
  induction piece generalizing cur s with
  | nil => rw [List.append_nil, List.nil_append]
  | char open_ close comma _ ih =>
    rw [List.cons_append, braceOptions_char open_ close (.inl comma), ih, List.append_assoc]
    rfl
  | @group a b inner _ ih =>
    show braceOptions 0 cur ('\x7b' :: (a ++ '\x7d' :: b ++ s)) = _
    rw [List.append_assoc, braceOptions_opening, braceOptions_inside inner, List.cons_append, braceOptions_closing, ih]
    congr 1
    simp [patternBraces]

/-- The options are the pieces. -/
lemma braceOptions_joined (pieces : ∀ x ∈ o :: os, patternBraces.Piece x) :
    braceOptions 0 [] (patternBraces.joined o os) = o :: os := by
  induction os generalizing o with
  | nil =>
    have whole : braceOptions 0 [] (o ++ []) = braceOptions 0 ([] ++ o) [] := braceOptions_piece (pieces o List.mem_cons_self)
    rw [List.append_nil] at whole
    rw [joined_nil, whole]
    rfl
  | cons x os ih =>
    rw [joined_cons, braceOptions_piece (pieces o List.mem_cons_self)]
    show braceOptions 0 ([] ++ o) (',' :: patternBraces.joined x os) = _
    rw [braceOptions_comma, ih fun y mem => pieces y (List.mem_cons_of_mem o mem), List.nil_append]

/-- The options of a group. -/
lemma alternatives?_joined (pieces : ∀ x ∈ o :: os, patternBraces.Piece x) :
    alternatives? (patternBraces.joined o os ++ patternBraces.closing :: rest) =
      if os = [] then none else some (o :: os, rest) := by
  have body : braceBody 1 (patternBraces.joined o os ++ patternBraces.closing :: rest) =
      some (patternBraces.joined o os, rest) := by
    rw [braceBody_balanced (balanced_joined pieces), show patternBraces.closing = '\x7d' from rfl, braceBody_end]
    simp
  unfold alternatives?
  rw [body]
  simp only [braceOptions_joined pieces, List.length_cons]
  cases os with
  | nil => rfl
  | cons x os => rfl

/-- A body is found when there is a closing brace for it. -/
lemma braceBody_isSome : (braceBody (d + 1) s).isSome = patternBraces.closes d s := by
  induction s generalizing d with
  | nil => rfl
  | cons c s ih =>
    by_cases open_ : c = '\x7b'
    · rw [open_, braceBody_opening, Option.isSome_map, ih]
      exact (closes_opening (k := patternBraces)).symm
    · by_cases close : c = '\x7d'
      · rw [close]
        cases d with
        | zero => exact (closes_zero (k := patternBraces)).symm
        | succ d =>
          rw [braceBody_closing, Option.isSome_map, ih]
          exact (closes_closing (k := patternBraces)).symm
      · rw [braceBody_char open_ close, Option.isSome_map, ih, closes_char open_ close]

/-- The brace in front of a text has no partner, or is literal with its partner, or has alternatives. -/
inductive Front : List Char → Option (List (List Char) × List Char) → Prop where
  | stray {s : List Char} : (∀ body rest, patternBraces.Balanced body → s ≠ body ++ patternBraces.closing :: rest) → Front s none
  | literal {body rest : List Char} : patternBraces.Piece body → Front (body ++ patternBraces.closing :: rest) none
  | choice {o rest : List Char} {os : List (List Char)} : (∀ x ∈ o :: os, patternBraces.Piece x) → os ≠ [] →
    Front (patternBraces.joined o os ++ patternBraces.closing :: rest) (some (o :: os, rest))

/-- What stands in front. -/
lemma front (s : List Char) : Front s (alternatives? s) := by
  cases closes : patternBraces.closes 0 s with
  | false =>
    have none_ : alternatives? s = none := by
      have body := braceBody_isSome (d := 0) (s := s)
      rw [closes, Option.isSome_eq_false_iff, Option.isNone_iff_eq_none] at body
      rw [alternatives?, body]
    rw [none_]
    apply Front.stray
    intro body rest balanced e
    rw [closes_iff.mpr ⟨body, rest, balanced, e⟩] at closes
    cases closes
  | true =>
    obtain ⟨body, rest, balanced, rfl⟩ := closes_iff.mp closes
    obtain ⟨o, os, pieces, rfl⟩ := balanced.pieces
    rw [alternatives?_joined pieces]
    split
    next none_ =>
      rw [none_, joined_nil]
      exact .literal (pieces o List.mem_cons_self)
    next more => exact .choice pieces more

/-- An option is part of the group. -/
lemma sublist_joined (mem : x ∈ o :: os) : x.Sublist (patternBraces.joined o os) := by
  rw [joined]
  cases List.mem_cons.mp mem with
  | inl e =>
    rw [e]
    exact List.sublist_append_left o _
  | inr mem =>
    obtain ⟨before, after, e⟩ := List.append_of_mem mem
    rw [e, List.flatMap_append, List.flatMap_cons]
    apply List.Sublist.trans _ (List.sublist_append_right o _)
    apply List.Sublist.trans _ (List.sublist_append_right _ _)
    exact (List.sublist_cons_self patternBraces.comma x).trans (List.sublist_append_left _ _)

/-- A pattern with an alternative in the place of its group is shorter. -/
lemma length_of_alternatives? {options : List (List Char)} (found : alternatives? s = some (options, rest))
    (mem : x ∈ options) : (x ++ rest).length < s.length := by
  have f := front s
  rw [found] at f
  cases f with
  | choice pieces more =>
    have inside := (sublist_joined mem).length_le
    simp only [List.length_append, List.length_cons]
    omega

end

/-! ## The reference -/

/-- The patterns that a text stands for, read from the left behind `acc`, with each alternative in turn, and whether
alternatives came behind a literal brace on the way. -/
def choices (acc : List Char) (blocked : Bool) : List Char → List (List Char × Bool)
  | [] => [(acc, blocked)]
  | c :: s =>
    if c = '\x7b' then
      match _found : alternatives? s with
      | none => choices (acc ++ [c]) blocked s
      | some (options, rest) =>
        options.attach.flatMap fun o => choices acc (blocked || acc.contains '\x7b') (o.1 ++ rest)
    else choices (acc ++ [c]) blocked s
termination_by s => s.length
decreasing_by
  · exact Nat.lt_succ_self s.length
  · exact Nat.lt_succ_of_lt (length_of_alternatives? _found o.2)
  · exact Nat.lt_succ_self s.length

section
variable {s t x body rest acc : List Char} {os : List (List Char)} {o : List Char} {c : Char} {d k n : Nat} {blocked : Bool}

/-- Nothing is left. -/
lemma choices_nil : choices acc blocked [] = [(acc, blocked)] := by rw [choices]

/-- Another character. -/
lemma choices_char (open_ : c ≠ '\x7b') : choices acc blocked (c :: s) = choices (acc ++ [c]) blocked s := by
  rw [choices, if_neg open_]

/-- A literal brace. -/
lemma choices_literal (none_ : alternatives? s = none) :
    choices acc blocked ('\x7b' :: s) = choices (acc ++ ['\x7b']) blocked s := by
  rw [choices, if_pos rfl]
  split
  · rfl
  next options rest found =>
    rw [none_] at found
    cases found

/-- A group with options. -/
lemma choices_alternatives {options : List (List Char)} (found : alternatives? s = some (options, rest)) :
    choices acc blocked ('\x7b' :: s) =
      options.flatMap fun o => choices acc (blocked || acc.contains '\x7b') (o ++ rest) := by
  rw [choices, if_pos rfl]
  split
  next none_ =>
    rw [none_] at found
    cases found
  next options' rest' found' =>
    rw [found] at found'
    cases found'
    rw [List.flatMap_subtype (g := fun o => choices acc (blocked || acc.contains '\x7b') (o ++ rest)) fun _ _ => rfl,
      List.unattach_attach]

/-- The texts of the choices are what the pattern denotes. -/
lemma mem_choices : (∃ b, (t, b) ∈ choices acc blocked s) ↔ ∃ u, t = acc ++ u ∧ patternBraces.Denotes s u := by
  induction h : s.length using Nat.strongRecOn generalizing s acc blocked with
  | ind n ih =>
    -- a character that stands for itself
    have passes : ∀ {c s}, s.length < n → (∀ v, patternBraces.Denotes (c :: s) v ↔ ∃ t, v = c :: t ∧ patternBraces.Denotes s t) →
        ((∃ b, (t, b) ∈ choices (acc ++ [c]) blocked s) ↔ ∃ u, t = acc ++ u ∧ patternBraces.Denotes (c :: s) u) := by
      intro c s shorter denotes
      rw [ih s.length shorter rfl]
      constructor
      · rintro ⟨u, rfl, more⟩
        exact ⟨c :: u, List.append_assoc acc [c] u, (denotes _).mpr ⟨u, rfl, more⟩⟩
      · rintro ⟨v, rfl, more⟩
        obtain ⟨u, rfl, inner⟩ := (denotes v).mp more
        exact ⟨u, (List.append_assoc acc [c] u).symm, inner⟩
    cases s with
    | nil =>
      rw [choices_nil]
      constructor
      · rintro ⟨b, mem⟩
        cases List.mem_singleton.mp mem
        exact ⟨[], (List.append_nil _).symm, .nil⟩
      · rintro ⟨u, e, denotes⟩
        cases denotes
        rw [e, List.append_nil]
        exact ⟨blocked, List.mem_singleton_self _⟩
    | cons c s =>
      have shorter : s.length < n := by
        rw [← h]
        exact Nat.lt_succ_self _
      by_cases open_ : c = '\x7b'
      · rw [open_]
        have f := front s
        generalize found : alternatives? s = result at f
        cases f with
        | stray alone =>
          rw [choices_literal found]
          exact passes shorter fun v => denotes_stray alone
        | literal piece =>
          rw [choices_literal found]
          exact passes shorter fun v => denotes_literal piece
        | @choice o rest os pieces more =>
          rw [choices_alternatives found]
          have denotes : ∀ v, patternBraces.Denotes ('\x7b' :: (patternBraces.joined o os ++ patternBraces.closing :: rest)) v ↔
              ∃ x ∈ o :: os, patternBraces.Denotes (x ++ rest) v := fun v => denotes_choice pieces more
          constructor
          · rintro ⟨b, mem⟩
            obtain ⟨x, option, mem⟩ := List.mem_flatMap.mp mem
            have less := Nat.lt_trans (length_of_alternatives? found option) shorter
            obtain ⟨u, rfl, inner⟩ := (ih _ less rfl).mp ⟨b, mem⟩
            exact ⟨u, rfl, (denotes u).mpr ⟨x, option, inner⟩⟩
          · rintro ⟨u, rfl, outer⟩
            obtain ⟨x, option, inner⟩ := (denotes u).mp outer
            have less := Nat.lt_trans (length_of_alternatives? found option) shorter
            have there : ∃ b, (acc ++ u, b) ∈ choices acc (blocked || acc.contains '\x7b') (x ++ rest) :=
              (ih _ less rfl).mpr ⟨u, rfl, inner⟩
            obtain ⟨b, mem⟩ := there
            exact ⟨b, List.mem_flatMap.mpr ⟨x, option, mem⟩⟩
      · rw [choices_char open_]
        exact passes shorter fun v => denotes_char open_

/-- The front of a text has alternatives. -/
lemma alternating_of_front {options : List (List Char)} (found : alternatives? s = some (options, rest)) :
    patternBraces.Alternating ('\x7b' :: s) := by
  have f := front s
  rw [found] at f
  cases f with
  | choice pieces more => exact ⟨[], _, _, rest, pieces, more, rfl⟩

/-- Behind a literal brace all choices are blocked if there are any, and else the text stands for itself. -/
lemma choices_behind (blocked : Bool) (behind : '\x7b' ∈ acc) :
    choices acc blocked s ≠ [] ∧ (patternBraces.Alternating s → ∀ e ∈ choices acc blocked s, e.2 = true) ∧
      (blocked = true → ∀ e ∈ choices acc blocked s, e.2 = true) ∧
      (¬ patternBraces.Alternating s → choices acc blocked s = [(acc ++ s, blocked)]) := by
  induction h : s.length using Nat.strongRecOn generalizing s acc blocked with
  | ind n ih =>
    cases s with
    | nil =>
      rw [choices_nil]
      refine ⟨List.cons_ne_nil _ _, fun alternating => absurd alternating not_alternating_nil, fun on e mem => ?_, fun _ => ?_⟩
      · rw [List.mem_singleton.mp mem]
        exact on
      · rw [List.append_nil]
    | cons c s =>
      have shorter : s.length < n := by
        rw [← h]
        exact Nat.lt_succ_self _
      have passes : alternatives? s = none ∨ c ≠ '\x7b' → choices acc blocked (c :: s) = choices (acc ++ [c]) blocked s := by
        intro either
        by_cases open_ : c = '\x7b'
        · rw [open_]
          exact choices_literal (either.resolve_right fun other => other open_)
        · exact choices_char open_
      have tail : alternatives? s = none ∨ c ≠ '\x7b' → patternBraces.Alternating (c :: s) → patternBraces.Alternating s := by
        intro either alternating
        rcases alternating_cons.mp alternating with ⟨open_, o, os, rest, pieces, more, e⟩ | tail
        · have found : alternatives? (patternBraces.joined o os ++ patternBraces.closing :: rest) = _ :=
            alternatives?_joined pieces
          rw [← e, if_neg more] at found
          have none_ := either.resolve_right fun other => other open_
          rw [none_] at found
          cases found
        · exact tail
      by_cases either : alternatives? s = none ∨ c ≠ '\x7b'
      · obtain ⟨some_, all, on, one⟩ := ih s.length shorter blocked (List.mem_append_left [c] behind) rfl
        rw [passes either]
        refine ⟨some_, fun alternating => all (tail either alternating), on, fun none_ => ?_⟩
        rw [one fun alternating => none_ (alternating_cons.mpr (.inr alternating)), List.append_assoc]
        rfl
      · rw [not_or, not_not] at either
        obtain ⟨⟨options, rest⟩, found⟩ := Option.ne_none_iff_exists'.mp either.1
        have now : acc.contains '\x7b' = true := by simpa using behind
        have all : ∀ e ∈ choices acc blocked (c :: s), e.2 = true := by
          rw [either.2, choices_alternatives found]
          intro e mem
          obtain ⟨x, option, mem⟩ := List.mem_flatMap.mp mem
          have less := Nat.lt_trans (length_of_alternatives? found option) shorter
          apply (ih _ less _ behind rfl).2.2.1 _ e mem
          rw [now, Bool.or_true]
        refine ⟨?_, fun _ => all, fun _ => all, fun none_ => absurd ?_ none_⟩
        · rw [either.2, choices_alternatives found]
          have f := front s
          rw [found] at f
          cases f with
          | @choice o _ os pieces more =>
            have less := Nat.lt_trans (length_of_alternatives? found List.mem_cons_self) shorter
            have some_ := (ih _ less (blocked || acc.contains '\x7b') behind rfl).1
            rw [List.flatMap_cons]
            exact List.append_ne_nil_of_left_ne_nil some_ _
        · rw [either.2]
          exact alternating_of_front found

/-! ## The expansion -/

/-- Up to the first literal brace with alternatives behind it the list has the texts of the choices, and then the text
that still has alternatives. -/
def Follows (entries : List (List Char × Bool)) (texts : List (List Char)) : Prop :=
  (∀ e ∈ entries, e.2 = false) ∧ texts = entries.map Prod.fst ∨
    ∃ before e after t more, entries = before ++ e :: after ∧ e.2 = true ∧ (∀ e ∈ before, e.2 = false) ∧
      texts = before.map Prod.fst ++ t :: more ∧ patternBraces.Alternating t

/-- One part after the other. -/
lemma Follows.append {entries entries' : List (List Char × Bool)} {texts texts' : List (List Char)}
    (first : Follows entries texts) (second : Follows entries' texts') : Follows (entries ++ entries') (texts ++ texts') := by
  rcases first with ⟨free, rfl⟩ | ⟨before, e, after, t, more, rfl, on, free, rfl, alternating⟩
  · rcases second with ⟨free', rfl⟩ | ⟨before, e, after, t, more, rfl, on, free', rfl, alternating⟩
    · refine .inl ⟨fun e mem => ?_, (List.map_append).symm⟩
      exact (List.mem_append.mp mem).elim (free e) (free' e)
    · refine .inr ⟨entries ++ before, e, after, t, more, (List.append_assoc _ _ _).symm, on, fun e mem => ?_, ?_, alternating⟩
      · exact (List.mem_append.mp mem).elim (free e) (free' e)
      · rw [List.map_append, List.append_assoc]
  · exact .inr ⟨before, e, after ++ entries', t, more ++ texts', by simp, on, free, by simp, alternating⟩

/-- What the options give, one after the other. -/
lemma Follows.flatMap {options : List (List Char)} {f : List Char → List (List Char × Bool)} {g : List Char → List (List Char)}
    (each : ∀ o ∈ options, ∃ texts, firstsUpTo n (g o) = firstsUpTo n texts ∧ Follows (f o) texts) :
    ∃ texts, firstsUpTo n (options.flatMap g) = firstsUpTo n texts ∧ Follows (options.flatMap f) texts := by
  induction options with
  | nil => exact ⟨[], rfl, .inl ⟨fun _ mem => absurd mem List.not_mem_nil, rfl⟩⟩
  | cons o options ih =>
    obtain ⟨texts, same, follows⟩ := each o List.mem_cons_self
    obtain ⟨texts', same', follows'⟩ := ih fun x mem => each x (List.mem_cons_of_mem o mem)
    rw [List.flatMap_cons, List.flatMap_cons]
    exact ⟨texts ++ texts', firstsUpTo_append same same', follows.append follows'⟩

/-- Without braces nothing expands. -/
lemma expandBracesOf_literal (none_ : '\x7b' ∉ x) : expandBracesOf k x = [x] := by
  cases k with
  | zero => rfl
  | succ k =>
    have all : x.takeWhile (· ≠ '\x7b') = x := by
      rw [List.takeWhile_eq_self_iff]
      intro c mem
      apply decide_eq_true
      intro e
      exact none_ (e ▸ mem)
    have behind : x.drop (x.length + 1) = [] := List.drop_eq_nil_of_le (Nat.le_succ _)
    rw [expandBracesOf]
    simp only [all, behind, braceBody]

/-- The firsts, option by option. -/
lemma firstsUpTo_flatMap {options : List (List Char)} {g : List Char → List (List Char)} :
    firstsUpTo n (options.flatMap g) = options.foldl (fun out o => (g o).foldl (joinUpTo n) out) [] := by
  rw [firstsUpTo, List.foldl_flatMap]

/-- The first brace of a pattern: alternatives in its place, one after the other, until there are enough patterns. -/
lemma expandBracesOf_brace (none_ : '\x7b' ∉ acc) : expandBracesOf (k + 1) (acc ++ '\x7b' :: s) =
    match alternatives? s with
    | none => [acc ++ '\x7b' :: s]
    | some (options, rest) =>
      options.foldl (fun out o => (expandBracesOf k (acc ++ o ++ rest)).foldl (joinUpTo maxBraceVariants) out) [] := by
  have front_ : (acc ++ '\x7b' :: s).takeWhile (· ≠ '\x7b') = acc := by
    rw [List.takeWhile_append_of_pos]
    · rw [List.takeWhile_cons_of_neg (by decide), List.append_nil]
    · intro c mem
      apply decide_eq_true
      intro e
      exact none_ (e ▸ mem)
  have behind : (acc ++ '\x7b' :: s).drop (acc.length + 1) = s := by
    rw [← List.singleton_append, ← List.append_assoc]
    exact List.drop_left' (by simp)
  rw [expandBracesOf]
  simp only [front_, behind, alternatives?]
  cases braceBody 1 s with
  | none => rfl
  | some b =>
    obtain ⟨body, rest⟩ := b
    simp only
    split
    · rfl
    · rw [take_eraseDups]
      exact firstsUpTo_flatMap

/-- What the expansion gives. -/
lemma expandBracesOf_spec (none_ : '\x7b' ∉ acc) (enough : s.count '\x7b' ≤ k) :
    ∃ texts, firstsUpTo maxBraceVariants (expandBracesOf k (acc ++ s)) = firstsUpTo maxBraceVariants texts ∧
      Follows (choices acc false s) texts := by
  induction h : s.length using Nat.strongRecOn generalizing s acc k with
  | ind n ih =>
    cases s with
    | nil =>
      rw [List.append_nil, expandBracesOf_literal none_, choices_nil]
      refine ⟨[acc], rfl, .inl ⟨fun e mem => ?_, rfl⟩⟩
      rw [List.mem_singleton.mp mem]
    | cons c s =>
      have shorter : s.length < n := by
        rw [← h]
        exact Nat.lt_succ_self _
      by_cases open_ : c = '\x7b'
      · rw [open_, List.count_cons_self] at enough
        obtain ⟨k, rfl⟩ := Nat.exists_eq_add_of_le' (Nat.le_trans (Nat.le_add_left 1 _) enough)
        rw [open_, expandBracesOf_brace none_]
        have f := front s
        generalize found : alternatives? s = result at f
        have literal : alternatives? s = none → ∃ texts, firstsUpTo maxBraceVariants [acc ++ '\x7b' :: s] =
            firstsUpTo maxBraceVariants texts ∧ Follows (choices acc false ('\x7b' :: s)) texts := by
          intro none_
          rw [choices_literal none_]
          have behind : '\x7b' ∈ acc ++ ['\x7b'] := List.mem_concat_self
          obtain ⟨some_, all, _, one⟩ := choices_behind (s := s) false behind
          refine ⟨[acc ++ '\x7b' :: s], rfl, ?_⟩
          by_cases alternating : patternBraces.Alternating s
          · obtain ⟨e, after, entries⟩ := List.exists_cons_of_ne_nil some_
            right
            refine ⟨[], e, after, acc ++ '\x7b' :: s, [], entries, ?_, fun _ mem => absurd mem List.not_mem_nil, rfl, ?_⟩
            · apply all alternating
              rw [entries]
              exact List.mem_cons_self
            · have whole := alternating.append (x := acc ++ ['\x7b']) (y := [])
              rw [List.append_nil, List.append_assoc] at whole
              exact whole
          · left
            rw [one alternating, List.append_assoc]
            refine ⟨fun e mem => ?_, rfl⟩
            rw [List.mem_singleton.mp mem]
        cases f with
        | stray _ => exact literal found
        | literal _ => exact literal found
        | @choice o rest os pieces more =>
          have free : acc.contains '\x7b' = false := by simpa using none_
          simp only
          rw [choices_alternatives found, free, Bool.or_false, ← firstsUpTo_flatMap, firstsUpTo_self]
          apply Follows.flatMap
          intro x option
          have less := Nat.lt_trans (length_of_alternatives? found option) shorter
          have fewer : (x ++ rest).count '\x7b' ≤ k := by
            have inside := (sublist_joined option).count_le '\x7b'
            rw [List.count_append, List.count_cons] at enough
            rw [List.count_append]
            omega
          rw [List.append_assoc]
          exact ih _ less none_ fewer rfl
      · have more : '\x7b' ∉ acc ++ [c] := by
          intro mem
          cases List.mem_append.mp mem with
          | inl before => exact none_ before
          | inr last => exact open_ (List.mem_singleton.mp last).symm
        have fewer : s.count '\x7b' ≤ k := by rwa [List.count_cons_of_ne open_] at enough
        have spec := ih s.length shorter more fewer rfl
        rw [List.append_assoc] at spec
        rw [choices_char open_]
        exact spec

/-- The expansion is right: it has different patterns, all of them denoted, and all that are denoted or 64. -/
def Expands (pattern : String) : Prop := ∃ all : List String, all.Nodup ∧
  (∀ t : String, t ∈ all ↔ patternBraces.Denotes pattern.toList t.toList) ∧ (expandBraces pattern).Nodup ∧
  (∀ t ∈ expandBraces pattern, t ∈ all) ∧
  (all.length ≤ maxBraceVariants → ∀ t ∈ all, t ∈ expandBraces pattern) ∧
  (maxBraceVariants < all.length → (expandBraces pattern).length = maxBraceVariants)

/-- A choice that has alternatives behind a literal brace comes after 64 different patterns. -/
def LiteralsLast (pattern : String) : Prop := ∀ before e after, choices [] false pattern.toList = before ++ e :: after →
  e.2 = true → maxBraceVariants ≤ (before.map Prod.fst).eraseDups.length

/-- The first choices decide, if there are 64 different ones or none behind them. -/
lemma firstsUpTo_of_full {l l' : List (List Char)} (full : n ≤ l.eraseDups.length) : firstsUpTo n (l ++ l') = firstsUpTo n l := by
  have enough : n ≤ (firstsUpTo n l).length := by
    rw [← take_eraseDups, List.length_take]
    exact Nat.le_min.mpr ⟨Nat.le_refl n, full⟩
  rw [firstsUpTo, List.foldl_append]
  exact joinUpTo_of_full enough

/-- With the literal braces last the expansion is the first 64 of the choices. -/
lemma firstsUpTo_choices {entries : List (List Char × Bool)} {texts : List (List Char)} (follows : Follows entries texts)
    (last : ∀ before e after, entries = before ++ e :: after → e.2 = true → n ≤ (before.map Prod.fst).eraseDups.length) :
    firstsUpTo n texts = firstsUpTo n (entries.map Prod.fst) := by
  rcases follows with ⟨_, rfl⟩ | ⟨before, e, after, t, more, rfl, on, _, rfl, _⟩
  · rfl
  · have full := last before e after rfl on
    rw [List.map_append, firstsUpTo_of_full full, firstsUpTo_of_full full]

/-- A text with alternatives is among the first, if the literal braces are not last. -/
lemma mem_firstsUpTo {entries before after : List (List Char × Bool)} {texts : List (List Char)} {e : List Char × Bool}
    (follows : Follows entries texts) (at_ : entries = before ++ e :: after) (on : e.2 = true)
    (few : (before.map Prod.fst).eraseDups.length < n) : ∃ t ∈ firstsUpTo n texts, patternBraces.Alternating t := by
  rcases follows with ⟨free, _⟩ | ⟨first, e', after', t, more, split_, on', free, rfl, alternating⟩
  · have off := free e (by rw [at_]; exact List.mem_append_right before List.mem_cons_self)
    rw [on] at off
    cases off
  · refine ⟨t, ?_, alternating⟩
    -- the first literal brace comes no later than this one
    have shorter : first <+: before := by
      rw [split_] at at_
      rcases List.append_eq_append_iff.mp at_ with ⟨between, e'', _⟩ | ⟨between, e'', rest⟩
      · exact ⟨between, e''.symm⟩
      · cases between with
        | nil => exact ⟨[], by rw [e'', List.append_nil, List.append_nil]⟩
        | cons x between =>
          have here : x = e := (List.cons.inj rest).1.symm
          have off := free e (by rw [e'', here]; exact List.mem_append_right before List.mem_cons_self)
          rw [on] at off
          cases off
    obtain ⟨between, rfl⟩ := shorter
    have less : (firstsUpTo n (first.map Prod.fst)).length < n := by
      rw [List.map_append, List.eraseDups_append, List.length_append] at few
      rw [← take_eraseDups, List.length_take]
      omega
    have grows : firstsUpTo n (first.map Prod.fst ++ t :: more) =
        more.foldl (joinUpTo n) (joinUpTo n (firstsUpTo n (first.map Prod.fst)) t) := by
      rw [firstsUpTo, List.foldl_append, List.foldl_cons]
      rfl
    rw [grows]
    apply joinUpTo_prefix.subset
    rw [joinUpTo]
    split
    next either => exact either.resolve_left (Nat.not_le.mpr less)
    next => exact List.mem_concat_self

end

/-- Strings are their characters. -/
lemma ofList_injective : Function.Injective String.ofList := fun _ _ e => String.ofList_inj.mp e

/-- The cap is met already. -/
lemma expandBracesOf_self (k : Nat) (x : List Char) :
    firstsUpTo maxBraceVariants (expandBracesOf k x) = expandBracesOf k x := by
  cases k with
  | zero => rfl
  | succ k =>
    rw [expandBracesOf]
    split
    · rfl
    · dsimp only
      split
      · rfl
      · rw [take_eraseDups, firstsUpTo_self]

/-- The expansion is right exactly when alternatives come behind literal braces only after 64 patterns. -/
theorem expandBraces_iff (pattern : String) : Expands pattern ↔ LiteralsLast pattern := by
  obtain ⟨texts, same, follows⟩ := expandBracesOf_spec (s := pattern.toList)
    (k := pattern.toList.count '\x7b') List.not_mem_nil (Nat.le_refl _)
  rw [expandBracesOf_self, List.nil_append] at same
  have returned : ∀ t, String.ofList t ∈ expandBraces pattern ↔ t ∈ firstsUpTo maxBraceVariants texts := by
    intro t
    rw [expandBraces, same]
    exact List.mem_map_of_injective ofList_injective
  constructor
  · rintro ⟨all, _, denoted, _, inside, _⟩ before e after at_ on
    by_contra few
    obtain ⟨t, mem, alternating⟩ := mem_firstsUpTo follows at_ on (Nat.not_le.mp few)
    have denotes := (denoted _).mp (inside _ ((returned t).mpr mem))
    rw [String.toList_ofList] at denotes
    exact denotes.not_alternating alternating
  · intro last
    have first := firstsUpTo_choices follows last
    rw [← take_eraseDups (l := (choices [] false pattern.toList).map Prod.fst)] at first
    have distinct : ((choices [] false pattern.toList).map Prod.fst).eraseDups.Nodup := nodup_eraseDups
    have denoted : ∀ t, t ∈ ((choices [] false pattern.toList).map Prod.fst).eraseDups ↔
        patternBraces.Denotes pattern.toList t := by
      intro t
      rw [List.mem_eraseDups, List.mem_map]
      constructor
      · rintro ⟨⟨t, b⟩, mem, rfl⟩
        obtain ⟨u, e, denotes⟩ := mem_choices.mp ⟨b, mem⟩
        rwa [e]
      · intro denotes
        obtain ⟨b, mem⟩ := mem_choices.mpr ⟨t, rfl, denotes⟩
        exact ⟨_, mem, rfl⟩
    generalize ((choices [] false pattern.toList).map Prod.fst).eraseDups = all at first distinct denoted
    rw [first] at same
    refine ⟨all.map .ofList, distinct.map ofList_injective, fun t => ?_, ?_, ?_, fun few => ?_, fun many => ?_⟩
    · rw [List.mem_map, ← denoted]
      constructor
      · rintro ⟨x, mem, rfl⟩
        rwa [String.toList_ofList]
      · exact fun mem => ⟨t.toList, mem, String.ofList_toList⟩
    · rw [expandBraces, same]
      exact (distinct.sublist (List.take_sublist _ all)).map ofList_injective
    · rw [expandBraces, same]
      exact fun t mem => List.map_subset _ (List.take_subset _ all) mem
    · rw [List.length_map] at few
      rw [expandBraces, same, List.take_of_length_le few]
      exact fun t mem => mem
    · rw [List.length_map] at many
      rw [expandBraces, same, List.length_map, List.length_take]
      exact Nat.min_eq_left (Nat.le_of_lt many)

/-- A group without a comma, and a group behind it. -/
def tagged : String := "\x7bfoo\x7d.\x7bts,tsx\x7d"

/-- The group behind it is not expanded. -/
theorem tagged_not_expanded : ¬ ∀ pattern : String, Expands pattern := by
  intro all
  obtain ⟨_, _, denoted, _, inside, _⟩ := all tagged
  have returned : tagged ∈ expandBraces tagged := by decide
  have denotes := (denoted _).mp (inside _ returned)
  apply denotes.not_alternating
  have ts : patternBraces.Piece ['t', 's'] :=
    .char (by decide) (by decide) (by decide) (.char (by decide) (by decide) (by decide) .nil)
  have tsx : patternBraces.Piece ['t', 's', 'x'] :=
    .char (by decide) (by decide) (by decide) (.char (by decide) (by decide) (by decide)
      (.char (by decide) (by decide) (by decide) .nil))
  refine ⟨['\x7b', 'f', 'o', 'o', '\x7d', '.'], ['t', 's'], [['t', 's', 'x']], [], fun x mem => ?_,
    List.cons_ne_nil _ _, by decide⟩
  cases List.mem_cons.mp mem with
  | inl e =>
    rw [e]
    exact ts
  | inr mem =>
    rw [List.mem_singleton.mp mem]
    exact tsx

end OpenAgentd.Filesystem
