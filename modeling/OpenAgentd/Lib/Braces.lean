import Mathlib.Data.List.Basic
import Mathlib.Tactic.Lemma
import Mathlib.Tactic.TypeStar

/-!
# Brace expansion

The grammar of braces over any alphabet: what stands between an opening and its closing mark is balanced, and commas of
its own level part it into pieces. Two pieces or more are alternatives. A group with one piece is literal, and so is a
mark without a partner (`Braces.Denotes`).

The mark that closes a group is unique (`Balanced.split_unique`), and so are its pieces (`pieces_unique`). A text that is
denoted has the same unmatched marks (`Denotes.closes_eq`) and no alternatives of its own (`Denotes.not_alternating`).
-/

namespace OpenAgentd.Lib

/-- The marks of the grammar. -/
structure Braces (α : Type*) where
  opening : α
  closing : α
  comma : α
  opening_ne_closing : opening ≠ closing
  opening_ne_comma : opening ≠ comma
  closing_ne_comma : closing ≠ comma

namespace Braces
variable {α : Type*} (k : Braces α)

/-- A text in which every mark has its partner. -/
inductive Balanced : List α → Prop where
  | nil : Balanced []
  | char {c s} : c ≠ k.opening → c ≠ k.closing → Balanced s → Balanced (c :: s)
  | group {s t} : Balanced s → Balanced t → Balanced (k.opening :: (s ++ k.closing :: t))

/-- A balanced text without a comma outside its groups. -/
inductive Piece : List α → Prop where
  | nil : Piece []
  | char {c s} : c ≠ k.opening → c ≠ k.closing → c ≠ k.comma → Piece s → Piece (c :: s)
  | group {s t} : k.Balanced s → Piece t → Piece (k.opening :: (s ++ k.closing :: t))

/-- Pieces with commas between them. -/
def joined (o : List α) (os : List (List α)) : List α := o ++ os.flatMap (k.comma :: ·)

/-- What a text stands for. -/
inductive Denotes : List α → List α → Prop where
  | nil : Denotes [] []
  | char {c s t} : c ≠ k.opening → Denotes s t → Denotes (c :: s) (c :: t)
  | stray {s t} : (∀ body rest, k.Balanced body → s ≠ body ++ k.closing :: rest) → Denotes s t →
    Denotes (k.opening :: s) (k.opening :: t)
  | plain {body rest t u} : k.Piece body → Denotes body t → Denotes rest u →
    Denotes (k.opening :: (body ++ k.closing :: rest)) (k.opening :: (t ++ k.closing :: u))
  | alternative {o os x rest t u} : (∀ x ∈ o :: os, k.Piece x) → os ≠ [] → x ∈ o :: os → Denotes x t → Denotes rest u →
    Denotes (k.opening :: (k.joined o os ++ k.closing :: rest)) (t ++ u)

/-- Somewhere in a text there are alternatives. -/
def Alternating (s : List α) : Prop := ∃ before o os rest, (∀ x ∈ o :: os, k.Piece x) ∧ os ≠ [] ∧
  s = before ++ k.opening :: (k.joined o os ++ k.closing :: rest)

section
variable {k : Braces α} {s t u v x y o body rest r r' : List α} {os : List (List α)} {c : α} {d : Nat}

/-! ## Balanced texts -/

/-- A piece is balanced. -/
lemma Piece.balanced (piece : k.Piece s) : k.Balanced s := by
  induction piece with
  | nil => exact .nil
  | char open_ close _ _ ih => exact .char open_ close ih
  | group inner _ ih => exact .group inner ih

/-- Balanced texts in a row. -/
lemma Balanced.append (first : k.Balanced s) (second : k.Balanced t) : k.Balanced (s ++ t) := by
  induction first with
  | nil => exact second
  | char open_ close _ ih => exact .char open_ close ih
  | @group a b inner _ _ ih =>
    rw [List.cons_append, List.append_assoc]
    exact .group inner ih

/-- Pieces in a row. -/
lemma Piece.append (first : k.Piece s) (second : k.Piece t) : k.Piece (s ++ t) := by
  induction first with
  | nil => exact second
  | char open_ close comma _ ih => exact .char open_ close comma ih
  | @group a b inner _ ih =>
    rw [List.cons_append, List.append_assoc]
    exact .group inner ih

/-- One more option. -/
lemma joined_cons : k.joined o (x :: os) = o ++ k.comma :: k.joined x os := by
  rw [joined, List.flatMap_cons]
  rfl

/-- A single option. -/
lemma joined_nil : k.joined o [] = o := by rw [joined, List.flatMap_nil, List.append_nil]

/-- Joined pieces are balanced. -/
lemma balanced_joined (pieces : ∀ x ∈ o :: os, k.Piece x) : k.Balanced (k.joined o os) := by
  induction os generalizing o with
  | nil =>
    rw [joined_nil]
    exact (pieces o List.mem_cons_self).balanced
  | cons x os ih =>
    rw [joined_cons]
    apply (pieces o List.mem_cons_self).balanced.append
    apply Balanced.char k.opening_ne_comma.symm k.closing_ne_comma.symm
    exact ih fun y mem => pieces y (List.mem_cons_of_mem o mem)

/-- A balanced text has pieces. -/
lemma Balanced.pieces (balanced : k.Balanced s) : ∃ o os, (∀ x ∈ o :: os, k.Piece x) ∧ s = k.joined o os := by
  induction balanced with
  | nil =>
    refine ⟨[], [], fun x mem => ?_, joined_nil.symm⟩
    rw [List.mem_singleton.mp mem]
    exact .nil
  | @char c s open_ close _ ih =>
    obtain ⟨o, os, pieces, rfl⟩ := ih
    by_cases comma : c = k.comma
    · refine ⟨[], o :: os, fun x mem => ?_, ?_⟩
      · cases List.mem_cons.mp mem with
        | inl e =>
          rw [e]
          exact .nil
        | inr mem => exact pieces x mem
      · rw [joined_cons, comma]
        rfl
    · refine ⟨c :: o, os, fun x mem => ?_, rfl⟩
      cases List.mem_cons.mp mem with
      | inl e =>
        rw [e]
        exact .char open_ close comma (pieces o List.mem_cons_self)
      | inr mem => exact pieces x (List.mem_cons_of_mem o mem)
  | @group a b inner _ _ ih =>
    obtain ⟨o, os, pieces, rfl⟩ := ih
    refine ⟨k.opening :: (a ++ k.closing :: o), os, fun x mem => ?_, ?_⟩
    · cases List.mem_cons.mp mem with
      | inl e =>
        rw [e]
        exact .group inner (pieces o List.mem_cons_self)
      | inr mem => exact pieces x (List.mem_cons_of_mem o mem)
    · rw [joined, joined, List.cons_append, List.append_assoc]
      rfl

/-- The first closing mark without a partner is where it is. -/
lemma Balanced.split_unique (first : k.Balanced x) (second : k.Balanced y)
    (e : x ++ k.closing :: r = y ++ k.closing :: r') : x = y ∧ r = r' := by
  induction first generalizing y r r' with
  | nil =>
    cases second with
    | nil => exact ⟨rfl, (List.cons.inj e).2⟩
    | char open_ close _ => exact absurd (List.cons.inj e).1.symm close
    | group _ _ => exact absurd (List.cons.inj e).1.symm k.opening_ne_closing
  | char open_ close _ ih =>
    cases second with
    | nil => exact absurd (List.cons.inj e).1 close
    | char _ _ more =>
      obtain ⟨head, tail⟩ := List.cons.inj e
      obtain ⟨same, rest⟩ := ih more tail
      exact ⟨by rw [head, same], rest⟩
    | group _ _ => exact absurd (List.cons.inj e).1 open_
  | @group a b _ _ inner outer =>
    cases second with
    | nil => exact absurd (List.cons.inj e).1 k.opening_ne_closing
    | char open_ _ _ => exact absurd (List.cons.inj e).1.symm open_
    | @group a' b' inner' outer' =>
      rw [List.cons_append, List.cons_append, List.append_assoc, List.append_assoc, List.cons_append, List.cons_append] at e
      have tail := (List.cons.inj e).2
      obtain ⟨same, more⟩ := inner inner' tail
      obtain ⟨same', rest⟩ := outer outer' more
      exact ⟨by rw [same, same'], rest⟩

/-- A piece ends where a comma or nothing follows. -/
lemma Piece.split_unique {end_ end' : List α} (first : k.Piece x) (second : k.Piece y) (e : x ++ end_ = y ++ end')
    (stop : ∀ c l, end_ = c :: l → c = k.comma) (stop' : ∀ c l, end' = c :: l → c = k.comma) : x = y ∧ end_ = end' := by
  induction first generalizing y with
  | nil =>
    cases second with
    | nil => exact ⟨rfl, e⟩
    | char _ _ comma _ => exact absurd (stop _ _ e) comma
    | group _ _ => exact absurd (stop _ _ e) k.opening_ne_comma
  | char open_ _ comma _ ih =>
    cases second with
    | nil => exact absurd (stop' _ _ e.symm) comma
    | char _ _ _ more =>
      obtain ⟨head, tail⟩ := List.cons.inj e
      obtain ⟨same, rest⟩ := ih more tail
      exact ⟨by rw [head, same], rest⟩
    | group _ _ => exact absurd (List.cons.inj e).1 open_
  | @group a b inner _ ih =>
    cases second with
    | nil => exact absurd (stop' _ _ e.symm) k.opening_ne_comma
    | char open_ _ _ _ => exact absurd (List.cons.inj e).1.symm open_
    | @group a' b' inner' more =>
      rw [List.cons_append, List.cons_append, List.append_assoc, List.append_assoc] at e
      have tail := (List.cons.inj e).2
      obtain ⟨same, after⟩ := inner.split_unique inner' tail
      obtain ⟨same', rest⟩ := ih more after
      exact ⟨by rw [same, same'], rest⟩

/-- Further options begin with a comma. -/
lemma stop_flatMap : ∀ c l, os.flatMap (k.comma :: ·) = c :: l → c = k.comma := by
  intro c l e
  cases os with
  | nil => cases e
  | cons o os =>
    rw [List.flatMap_cons] at e
    exact (List.cons.inj e).1.symm

/-- The pieces of a text are unique. -/
lemma pieces_unique {o' : List α} {os' : List (List α)} (pieces : ∀ x ∈ o :: os, k.Piece x)
    (pieces' : ∀ x ∈ o' :: os', k.Piece x) (e : k.joined o os = k.joined o' os') : o = o' ∧ os = os' := by
  induction os generalizing o o' os' with
  | nil =>
    obtain ⟨same, rest⟩ := (pieces o List.mem_cons_self).split_unique (pieces' o' List.mem_cons_self) e stop_flatMap
      stop_flatMap
    cases os' with
    | nil => exact ⟨same, rfl⟩
    | cons x os' => cases rest
  | cons x os ih =>
    obtain ⟨same, rest⟩ := (pieces o List.mem_cons_self).split_unique (pieces' o' List.mem_cons_self) e stop_flatMap
      stop_flatMap
    cases os' with
    | nil => cases rest
    | cons x' os' =>
      rw [List.flatMap_cons, List.flatMap_cons] at rest
      have tail : k.joined x os = k.joined x' os' := (List.cons.inj rest).2
      obtain ⟨head, more⟩ := ih (fun y mem => pieces y (List.mem_cons_of_mem o mem))
        (fun y mem => pieces' y (List.mem_cons_of_mem o' mem)) tail
      exact ⟨same, by rw [head, more]⟩

/-! ## What is denoted -/

/-- What a balanced text denotes is balanced, and what a piece denotes is a piece. -/
lemma Denotes.keeps (denotes : k.Denotes s t) : (k.Balanced s → k.Balanced t) ∧ (k.Piece s → k.Piece t) := by
  induction denotes with
  | nil => exact ⟨fun h => h, fun h => h⟩
  | char open_ _ ih =>
    constructor
    · intro balanced
      cases balanced with
      | char _ close more => exact .char open_ close (ih.1 more)
      | group _ _ => exact absurd rfl open_
    · intro piece
      cases piece with
      | char _ close comma more => exact .char open_ close comma (ih.2 more)
      | group _ _ => exact absurd rfl open_
  | stray alone _ _ =>
    constructor
    · intro balanced
      cases balanced with
      | char open_ _ _ => exact absurd rfl open_
      | @group a b inner _ => exact absurd rfl (alone a b inner)
    · intro piece
      cases piece with
      | char open_ _ _ _ => exact absurd rfl open_
      | @group a b inner _ => exact absurd rfl (alone a b inner)
  | @plain body rest t u piece _ _ inner outer =>
    constructor
    · intro balanced
      generalize e : k.opening :: (body ++ k.closing :: rest) = whole at balanced
      cases balanced with
      | nil => cases e
      | char open_ _ _ => exact absurd (List.cons.inj e).1.symm open_
      | group first second =>
        obtain ⟨_, same⟩ := piece.balanced.split_unique first (List.cons.inj e).2
        exact .group (inner.1 piece.balanced) (outer.1 (same ▸ second))
    · intro whole_
      generalize e : k.opening :: (body ++ k.closing :: rest) = whole at whole_
      cases whole_ with
      | nil => cases e
      | char open_ _ _ _ => exact absurd (List.cons.inj e).1.symm open_
      | group first second =>
        obtain ⟨_, same⟩ := piece.balanced.split_unique first (List.cons.inj e).2
        exact .group (inner.1 piece.balanced) (outer.2 (same ▸ second))
  | @alternative o os x rest t u pieces _ mem _ _ inner outer =>
    have piece := inner.2 (pieces x mem)
    constructor
    · intro balanced
      generalize e : k.opening :: (k.joined o os ++ k.closing :: rest) = whole at balanced
      cases balanced with
      | nil => cases e
      | char open_ _ _ => exact absurd (List.cons.inj e).1.symm open_
      | group first second =>
        obtain ⟨_, same⟩ := (balanced_joined pieces).split_unique first (List.cons.inj e).2
        exact piece.balanced.append (outer.1 (same ▸ second))
    · intro whole_
      generalize e : k.opening :: (k.joined o os ++ k.closing :: rest) = whole at whole_
      cases whole_ with
      | nil => cases e
      | char open_ _ _ _ => exact absurd (List.cons.inj e).1.symm open_
      | group first second =>
        obtain ⟨_, same⟩ := (balanced_joined pieces).split_unique first (List.cons.inj e).2
        exact piece.append (outer.2 (same ▸ second))

/-- A plain character denotes itself. -/
lemma denotes_char (open_ : c ≠ k.opening) : k.Denotes (c :: s) v ↔ ∃ t, v = c :: t ∧ k.Denotes s t := by
  constructor
  · intro denotes
    cases denotes with
    | char _ more => exact ⟨_, rfl, more⟩
    | stray _ _ => exact absurd rfl open_
    | plain _ _ _ => exact absurd rfl open_
    | alternative _ _ _ _ _ => exact absurd rfl open_
  · rintro ⟨t, rfl, more⟩
    exact .char open_ more

/-- A stray brace denotes itself. -/
lemma denotes_stray (alone : ∀ body rest, k.Balanced body → s ≠ body ++ k.closing :: rest) :
    k.Denotes (k.opening :: s) v ↔ ∃ t, v = k.opening :: t ∧ k.Denotes s t := by
  constructor
  · intro denotes
    cases denotes with
    | char open_ _ => exact absurd rfl open_
    | stray _ more => exact ⟨_, rfl, more⟩
    | plain piece _ _ => exact absurd rfl (alone _ _ piece.balanced)
    | alternative pieces _ _ _ _ => exact absurd rfl (alone _ _ (balanced_joined pieces))
  · rintro ⟨t, rfl, more⟩
    exact .stray alone more

/-- Braces without a choice stay. -/
lemma denotes_plain (piece : k.Piece body) : k.Denotes (k.opening :: (body ++ k.closing :: rest)) v ↔
    ∃ t u, v = k.opening :: (t ++ k.closing :: u) ∧ k.Denotes body t ∧ k.Denotes rest u := by
  constructor
  · intro denotes
    generalize e : k.opening :: (body ++ k.closing :: rest) = whole at denotes
    cases denotes with
    | nil => cases e
    | char open_ _ => exact absurd (List.cons.inj e).1.symm open_
    | stray alone _ => exact absurd (List.cons.inj e).2.symm (alone body rest piece.balanced)
    | plain piece' inner outer =>
      obtain ⟨rfl, rfl⟩ := piece.balanced.split_unique piece'.balanced (List.cons.inj e).2
      exact ⟨_, _, rfl, inner, outer⟩
    | alternative pieces more _ _ _ =>
      obtain ⟨same, _⟩ := piece.balanced.split_unique (balanced_joined pieces) (List.cons.inj e).2
      have single : ∀ x ∈ [body], k.Piece x := by
        intro x mem
        rw [List.mem_singleton.mp mem]
        exact piece
      exact absurd (pieces_unique single pieces (joined_nil.trans same)).2.symm more
  · rintro ⟨t, u, rfl, inner, outer⟩
    exact .plain piece inner outer

/-- A group of alternatives. -/
lemma denotes_group (pieces : ∀ x ∈ o :: os, k.Piece x) (more : os ≠ []) :
    k.Denotes (k.opening :: (k.joined o os ++ k.closing :: rest)) v ↔
      ∃ x ∈ o :: os, ∃ t u, v = t ++ u ∧ k.Denotes x t ∧ k.Denotes rest u := by
  have balanced := balanced_joined pieces
  constructor
  · intro denotes
    generalize e : k.opening :: (k.joined o os ++ k.closing :: rest) = whole at denotes
    cases denotes with
    | nil => cases e
    | char open_ _ => exact absurd (List.cons.inj e).1.symm open_
    | stray alone _ => exact absurd (List.cons.inj e).2.symm (alone _ rest balanced)
    | @plain body _ _ _ piece _ _ =>
      obtain ⟨same, _⟩ := balanced.split_unique piece.balanced (List.cons.inj e).2
      have single : ∀ x ∈ [body], k.Piece x := by
        intro x mem
        rw [List.mem_singleton.mp mem]
        exact piece
      exact absurd (pieces_unique pieces single (same.trans joined_nil.symm)).2 more
    | alternative pieces' _ mem inner outer =>
      obtain ⟨same, rfl⟩ := balanced.split_unique (balanced_joined pieces') (List.cons.inj e).2
      obtain ⟨rfl, rfl⟩ := pieces_unique pieces pieces' same
      exact ⟨_, mem, _, _, rfl, inner, outer⟩
  · rintro ⟨x, mem, t, u, rfl, inner, outer⟩
    exact .alternative pieces more mem inner outer

/-- A balanced text denotes on its own. -/
lemma Balanced.denotes_append (balanced : k.Balanced x) :
    k.Denotes (x ++ s) v ↔ ∃ t u, v = t ++ u ∧ k.Denotes x t ∧ k.Denotes s u := by
  induction balanced generalizing s v with
  | nil =>
    constructor
    · exact fun denotes => ⟨[], v, rfl, .nil, denotes⟩
    · rintro ⟨t, u, rfl, none_, denotes⟩
      cases none_
      exact denotes
  | char open_ close _ ih =>
    rw [List.cons_append, denotes_char open_]
    constructor
    · rintro ⟨w, rfl, denotes⟩
      obtain ⟨t, u, rfl, first, second⟩ := ih.mp denotes
      exact ⟨_ :: t, u, rfl, (denotes_char open_).mpr ⟨t, rfl, first⟩, second⟩
    · rintro ⟨w, u, rfl, first, second⟩
      obtain ⟨t, rfl, first'⟩ := (denotes_char open_).mp first
      exact ⟨t ++ u, rfl, ih.mpr ⟨t, u, rfl, first', second⟩⟩
  | @group a b inner _ _ outer =>
    rw [List.cons_append, List.append_assoc, List.cons_append]
    obtain ⟨o, os, pieces, rfl⟩ := inner.pieces
    by_cases more : os = []
    · have piece : k.Piece (k.joined o os) := by
        rw [more, joined_nil]
        exact pieces o List.mem_cons_self
      rw [denotes_plain piece]
      constructor
      · rintro ⟨t, w, rfl, first, second⟩
        obtain ⟨u, w, rfl, second, third⟩ := outer.mp second
        exact ⟨k.opening :: (t ++ k.closing :: u), w, by simp, (denotes_plain piece).mpr ⟨t, u, rfl, first, second⟩, third⟩
      · rintro ⟨_, w, rfl, both, third⟩
        obtain ⟨t, u, rfl, first, second⟩ := (denotes_plain piece).mp both
        exact ⟨t, u ++ w, by simp, first, outer.mpr ⟨u, w, rfl, second, third⟩⟩
    · rw [denotes_group pieces more]
      constructor
      · rintro ⟨x, mem, t, w, rfl, first, second⟩
        obtain ⟨u, w, rfl, second, third⟩ := outer.mp second
        exact ⟨t ++ u, w, (List.append_assoc t u w).symm, (denotes_group pieces more).mpr ⟨x, mem, t, u, rfl, first, second⟩,
          third⟩
      · rintro ⟨_, w, rfl, both, third⟩
        obtain ⟨x, mem, t, u, rfl, first, second⟩ := (denotes_group pieces more).mp both
        exact ⟨x, mem, t, u ++ w, List.append_assoc t u w, first, outer.mpr ⟨u, w, rfl, second, third⟩⟩

/-- A literal group, mark by mark. -/
lemma denotes_literal (piece : k.Piece body) : k.Denotes (k.opening :: (body ++ k.closing :: rest)) v ↔
    ∃ t, v = k.opening :: t ∧ k.Denotes (body ++ k.closing :: rest) t := by
  rw [denotes_plain piece]
  constructor
  · rintro ⟨t, u, rfl, inner, outer⟩
    refine ⟨t ++ k.closing :: u, rfl, piece.balanced.denotes_append.mpr ⟨t, k.closing :: u, rfl, inner, ?_⟩⟩
    exact .char k.opening_ne_closing.symm outer
  · rintro ⟨w, rfl, denotes⟩
    obtain ⟨t, v, rfl, inner, outer⟩ := piece.balanced.denotes_append.mp denotes
    obtain ⟨u, rfl, outer'⟩ := (denotes_char k.opening_ne_closing.symm).mp outer
    exact ⟨t, u, rfl, inner, outer'⟩

/-- Alternatives, each in the place of its group. -/
lemma denotes_choice (pieces : ∀ x ∈ o :: os, k.Piece x) (more : os ≠ []) :
    k.Denotes (k.opening :: (k.joined o os ++ k.closing :: rest)) v ↔ ∃ x ∈ o :: os, k.Denotes (x ++ rest) v := by
  rw [denotes_group pieces more]
  apply exists_congr
  intro x
  apply and_congr_right
  intro mem
  exact (pieces x mem).balanced.denotes_append.symm

/-! ## Nothing is left to choose -/

/-- The alternatives are at the front or behind. -/
lemma alternating_cons : k.Alternating (c :: s) ↔
    (c = k.opening ∧ ∃ o os rest, (∀ x ∈ o :: os, k.Piece x) ∧ os ≠ [] ∧ s = k.joined o os ++ k.closing :: rest) ∨
      k.Alternating s := by
  constructor
  · rintro ⟨before, o, os, rest, pieces, more, e⟩
    cases before with
    | nil =>
      obtain ⟨head, tail⟩ := List.cons.inj e
      exact .inl ⟨head, o, os, rest, pieces, more, tail⟩
    | cons x before => exact .inr ⟨before, o, os, rest, pieces, more, (List.cons.inj e).2⟩
  · rintro (⟨rfl, o, os, rest, pieces, more, rfl⟩ | ⟨before, o, os, rest, pieces, more, rfl⟩)
    · exact ⟨[], o, os, rest, pieces, more, rfl⟩
    · exact ⟨c :: before, o, os, rest, pieces, more, rfl⟩

/-- A choice with text around it. -/
lemma Alternating.append (alternating : k.Alternating s) : k.Alternating (x ++ s ++ y) := by
  obtain ⟨before, o, os, rest, pieces, more, rfl⟩ := alternating
  exact ⟨x ++ before, o, os, rest ++ y, pieces, more, by simp⟩

/-- The empty text has no choice. -/
lemma not_alternating_nil : ¬ k.Alternating [] := by
  rintro ⟨before, o, os, rest, _, _, e⟩
  exact absurd e.symm (List.append_ne_nil_of_right_ne_nil before (List.cons_ne_nil _ _))

/-- Balanced texts have their alternatives to themselves. -/
lemma Balanced.alternating_append (balanced : k.Balanced x) (alternating : k.Alternating (x ++ s)) :
    k.Alternating x ∨ k.Alternating s := by
  induction balanced generalizing s with
  | nil => exact .inr alternating
  | char open_ _ _ ih =>
    rcases alternating_cons.mp alternating with ⟨e, _⟩ | tail
    · exact absurd e open_
    · exact (ih tail).imp_left fun inside => alternating_cons.mpr (.inr inside)
  | @group a b first _ inner outer =>
    rw [List.cons_append, List.append_assoc, List.cons_append] at alternating
    rcases alternating_cons.mp alternating with ⟨_, o, os, rest, pieces, more, e⟩ | tail
    · left
      obtain ⟨same, _⟩ := first.split_unique (balanced_joined pieces) e
      exact ⟨[], o, os, b, pieces, more, by rw [same]; rfl⟩
    · rcases inner tail with inside | tail
      · left
        have whole := inside.append (x := [k.opening]) (y := k.closing :: b)
        rwa [List.append_assoc] at whole
      · rcases alternating_cons.mp tail with ⟨e, _⟩ | tail
        · exact absurd e k.opening_ne_closing.symm
        · apply (outer tail).imp_left
          intro inside
          have whole := inside.append (x := k.opening :: (a ++ [k.closing])) (y := [])
          rw [List.append_nil, List.cons_append, List.append_assoc] at whole
          exact whole


/-! ## Closing marks -/

/-- A closing mark has no partner, in a text behind `d` opening marks. -/
def closes [DecidableEq α] (k : Braces α) : Nat → List α → Bool
  | _, [] => false
  | 0, c :: s => if c = k.opening then closes k 1 s else if c = k.closing then true else closes k 0 s
  | d + 1, c :: s =>
    if c = k.opening then closes k (d + 2) s else if c = k.closing then closes k d s else closes k (d + 1) s

variable [DecidableEq α]

/-- An opening brace. -/
lemma closes_opening : k.closes d (k.opening :: s) = k.closes (d + 1) s := by
  cases d with
  | zero => rw [closes, if_pos rfl]
  | succ d => rw [closes, if_pos rfl]

/-- A closing brace. -/
lemma closes_closing : k.closes (d + 1) (k.closing :: s) = k.closes d s := by
  rw [closes, if_neg k.opening_ne_closing.symm, if_pos rfl]

/-- The closing brace that counts. -/
lemma closes_zero : k.closes 0 (k.closing :: s) = true := by
  rw [closes, if_neg k.opening_ne_closing.symm, if_pos rfl]

/-- A plain character. -/
lemma closes_char (open_ : c ≠ k.opening) (close : c ≠ k.closing) : k.closes d (c :: s) = k.closes d s := by
  cases d with
  | zero => rw [closes, if_neg open_, if_neg close]
  | succ d => rw [closes, if_neg open_, if_neg close]

/-- What is balanced does not matter. -/
lemma Balanced.closes_append (balanced : k.Balanced x) : k.closes d (x ++ s) = k.closes d s := by
  induction balanced generalizing d s with
  | nil => rfl
  | char open_ close _ ih => rw [List.cons_append, closes_char open_ close, ih]
  | group _ _ inner outer =>
    rw [List.cons_append, List.append_assoc, closes_opening, inner, List.cons_append, closes_closing, outer]

/-- The first closing mark without a partner has a balanced text in front of it. -/
lemma closes_split (closes : k.closes d s = true) :
    ∃ body rest, k.Balanced body ∧ s = body ++ k.closing :: rest ∧ ∀ d', d = d' + 1 → k.closes d' rest = true := by
  induction h : s.length using Nat.strongRecOn generalizing s d with
  | ind n ih =>
    cases s with
    | nil => cases closes
    | cons c s =>
      by_cases open_ : c = k.opening
      · rw [open_, closes_opening] at closes
        obtain ⟨inner, after, balanced, e, more⟩ := ih s.length (by rw [← h]; exact Nat.lt_succ_self _) closes rfl
        have shorter : after.length < n := by
          rw [← h, e]
          simp only [List.length_cons, List.length_append]
          omega
        obtain ⟨outer, rest, balanced', e', last⟩ := ih after.length shorter (more d rfl) rfl
        refine ⟨k.opening :: (inner ++ k.closing :: outer), rest, .group balanced balanced', ?_, last⟩
        rw [open_, e, e', List.cons_append, List.append_assoc]
        rfl
      · by_cases close : c = k.closing
        · refine ⟨[], s, .nil, by rw [close]; rfl, fun d' e => ?_⟩
          rw [close, e, closes_closing] at closes
          exact closes
        · rw [closes_char open_ close] at closes
          obtain ⟨body, rest, balanced, e, more⟩ := ih s.length (by rw [← h]; exact Nat.lt_succ_self _) closes rfl
          exact ⟨c :: body, rest, .char open_ close balanced, by rw [e]; rfl, more⟩

/-- When a brace is closed. -/
lemma closes_iff : k.closes 0 s = true ↔ ∃ body rest, k.Balanced body ∧ s = body ++ k.closing :: rest := by
  constructor
  · intro closes
    obtain ⟨body, rest, balanced, e, _⟩ := closes_split closes
    exact ⟨body, rest, balanced, e⟩
  · rintro ⟨body, rest, balanced, rfl⟩
    rw [balanced.closes_append, closes_zero]

/-- The closing marks without a partner stay. -/
lemma Denotes.closes_eq (denotes : k.Denotes s t) : k.closes d t = k.closes d s := by
  induction denotes generalizing d with
  | nil => rfl
  | @char c s t open_ _ ih =>
    by_cases close : c = k.closing
    · rw [close]
      cases d with
      | zero => rw [closes_zero, closes_zero]
      | succ d => rw [closes_closing, closes_closing, ih]
    · rw [closes_char open_ close, closes_char open_ close, ih]
  | stray _ _ ih => rw [closes_opening, closes_opening, ih]
  | plain piece inner _ _ outer =>
    have balanced := piece.balanced
    rw [closes_opening, closes_opening, (inner.keeps.1 balanced).closes_append, balanced.closes_append, closes_closing,
      closes_closing, outer]
  | alternative pieces _ mem inner _ _ outer =>
    rw [(inner.keeps.2 (pieces _ mem)).balanced.closes_append, closes_opening, (balanced_joined pieces).closes_append,
      closes_closing, outer]

omit [DecidableEq α] in
/-- What is denoted has no alternatives. -/
lemma Denotes.not_alternating (denotes : k.Denotes s t) : ¬ k.Alternating t := by
  classical
  induction denotes with
  | nil => exact not_alternating_nil
  | char open_ _ ih =>
    intro alternating
    rcases alternating_cons.mp alternating with ⟨e, _⟩ | tail
    · exact open_ e
    · exact ih tail
  | stray alone denotes ih =>
    intro alternating
    rcases alternating_cons.mp alternating with ⟨_, o, os, rest, pieces, _, e⟩ | tail
    · have closes := closes_iff.mpr ⟨_, rest, balanced_joined pieces, e⟩
      rw [denotes.closes_eq] at closes
      obtain ⟨body, rest, balanced, e⟩ := closes_iff.mp closes
      exact alone body rest balanced e
    · exact ih tail
  | @plain body rest t u piece denotes _ inner outer =>
    intro alternating
    have piece' : k.Piece t := denotes.keeps.2 piece
    rcases alternating_cons.mp alternating with ⟨_, o, os, rest, pieces, more, e⟩ | tail
    · obtain ⟨same, _⟩ := piece'.balanced.split_unique (balanced_joined pieces) e
      have single : ∀ x ∈ [t], k.Piece x := by
        intro x mem
        rw [List.mem_singleton.mp mem]
        exact piece'
      exact more (pieces_unique single pieces (joined_nil.trans same)).2.symm
    · rcases piece'.balanced.alternating_append tail with inside | tail
      · exact inner inside
      · rcases alternating_cons.mp tail with ⟨e, _⟩ | tail
        · exact k.opening_ne_closing.symm e
        · exact outer tail
  | alternative pieces _ mem denotes _ inner outer =>
    intro alternating
    rcases (denotes.keeps.2 (pieces _ mem)).balanced.alternating_append alternating with inside | tail
    · exact inner inside
    · exact outer tail

end

end Braces

end OpenAgentd.Lib
