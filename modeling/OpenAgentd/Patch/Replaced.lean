import OpenAgentd.Lib.Ordered
import OpenAgentd.Lib.Windows
import OpenAgentd.Patch.Chunks

/-!
# The windows the chunks replace

Behind the cursor the lines are those of the file, before it they are what the chunks made of them. So a run over the
chunks replaces windows of the file one behind the other (`Applying.run_edited`): every changing chunk one, as long as
its old lines, by as many lines as its new ones, with the lines of context as they were (`Fits`).
-/

namespace OpenAgentd.Patch
open OpenAgentd.Lib

/-- What the parser gives. -/
structure Chunk.WellFormed (c : Chunk) : Prop where
  rawOld : c.rawOld.length = c.old.length
  rawNew : c.rawNew.length = c.new.length
  pairs : ∀ p ∈ c.contextPairs, p.1 < c.old.length ∧ p.2 < c.new.length
  distinct : (c.contextPairs.map Prod.snd).Nodup
  plain : ∀ l, l ∈ c.new ∨ l ∈ c.rawNew → Plain l.toList

/-- The chunk changes lines. -/
def Chunk.changing (c : Chunk) : Bool := c.old ≠ c.new

/-- The window is the one of the chunk. -/
structure Fits (c : Chunk) (w : Window String) : Prop where
  old : w.old.length = c.old.length
  new : w.new.length = c.new.length
  context : ∀ p ∈ c.contextPairs, w.new[p.2]? = w.old[p.1]?

/-- The hunk that is reported for a window. -/
def hunkOf {α : Type*} (w : Window α) : Hunk where
  oldStart := w.oldStart + 1
  newStart := w.newStart + 1

/-- The lines a run replaces, and what they are replaced by. -/
def Applying.replaced (cc : CharClasses) : Applying → List Chunk → List (List String × List String)
  | _, [] => []
  | s, chunk :: chunks =>
    match s.action cc chunk with
    | .error _ => []
    | .ok (.locator cursor) => (s.perform (.locator cursor)).replaced cc chunks
    | .ok (.change start old new) =>
      ((s.lines.drop start).take old, new) :: (s.perform (.change start old new)).replaced cc chunks

section
variable {cc : CharClasses} {lines old new window : List String} {chunk : Chunk} {chunks : List Chunk}
  {s t : Applying} {i k start len : Nat} {trimmed : Bool} {xs ys : List Nat} {a : Action}

/-! ## Where the old lines are found -/

/-- One or the other. -/
lemma mem_orElse (h : i ∈ orElse xs ys) : i ∈ xs ∨ i ∈ ys := by
  unfold orElse at h
  split at h
  · exact .inr h
  · exact .inl h

/-- A window fits. -/
lemma mem_range_window (h : i ∈ List.range (lines.length + 1 - k)) : i + k ≤ lines.length := by
  have := List.mem_range.mp h
  omega

/-- A match fits. -/
lemma findLineMatches_le (h : i ∈ findLineMatches lines old trimmed) : i + old.length ≤ lines.length := by
  unfold findLineMatches at h
  split at h
  · cases h
  · exact mem_range_window (List.mem_of_mem_filter h)

/-- What is found in scope stands in scope. -/
lemma findInScope_le (h : i ∈ findInScope lines start old) : start ≤ i ∧ i + old.length ≤ lines.length := by
  cases mem_orElse h with
  | inl h =>
    obtain ⟨mem, le⟩ := List.mem_filter.mp h
    exact ⟨of_decide_eq_true le, findLineMatches_le mem⟩
  | inr h =>
    obtain ⟨mem, le⟩ := List.mem_filter.mp h
    exact ⟨of_decide_eq_true le, findLineMatches_le mem⟩

/-- A match fits its scope. -/
lemma findRawInScope_le (h : i ∈ findRawInScope lines start chunk) :
    start ≤ i ∧ i + chunk.rawOld.length ≤ lines.length := by
  unfold findRawInScope at h
  split at h
  · exact findInScope_le h
  · cases h

/-- A tolerant match fits. -/
lemma findIndentationTolerantMatches_le (h : i ∈ findIndentationTolerantMatches lines old) :
    i + old.length ≤ lines.length := by
  unfold findIndentationTolerantMatches at h
  split at h
  · cases h
  · exact mem_range_window (List.mem_of_mem_filter h)

/-- A line without its number is a part of the line. -/
lemma dropLineNumber_sublist {line bare : String} (h : dropLineNumber cc line = some bare) :
    bare.toList.Sublist line.toList := by
  unfold dropLineNumber at h
  dsimp only at h
  split at h
  · next rest digits colon =>
    rw [Option.some.injEq] at h
    rw [← h, String.toList_ofList]
    have whole : rest.Sublist line.toList := by
      have sub := (List.dropWhile_sublist (l := line.toList.dropWhile pyIsSpace) cc.isDecimal).trans
        (List.dropWhile_sublist pyIsSpace)
      rw [colon] at sub
      exact (List.sublist_cons_self _ _).trans sub
    split
    · exact (List.tail_sublist rest).trans whole
    · exact whole
  · cases h

/-- One by one. -/
lemma forall₂_of_mapM {α β : Type*} {f : α → Option β} {l : List α} {m : List β} (h : l.mapM f = some m) :
    List.Forall₂ (fun a b => f a = some b) l m := by
  induction l generalizing m with
  | nil =>
    cases h
    exact .nil
  | cons a l ih =>
    rw [List.mapM_cons] at h
    obtain ⟨b, hb, h⟩ := Option.bind_eq_some_iff.mp h
    obtain ⟨bs, hbs, h⟩ := Option.bind_eq_some_iff.mp h
    cases h
    exact .cons hb (ih hbs)

/-- The bare lines are as many, and parts of the lines. -/
lemma stripLineNumberPrefixes_spec {bare : List String} (h : stripLineNumberPrefixes cc lines = some bare) :
    bare.length = lines.length ∧ ∀ b ∈ bare, ∃ l ∈ lines, b.toList.Sublist l.toList := by
  unfold stripLineNumberPrefixes at h
  split at h
  · cases h
  · have partners := forall₂_of_mapM h
    refine ⟨partners.length_eq.symm, fun b hb => ?_⟩
    obtain ⟨l, hl, e⟩ := forall₂_left partners hb
    exact ⟨l, hl, dropLineNumber_sublist e⟩

/-- Re-indented lines are as many, and plain. -/
lemma adjustNewLinesIndentation_spec (window old : List String) (plain : ∀ l ∈ new, Plain l.toList) :
    (adjustNewLinesIndentation window old new).length = new.length ∧
      ∀ l ∈ adjustNewLinesIndentation window old new, Plain l.toList := by
  unfold adjustNewLinesIndentation
  split
  · exact ⟨rfl, plain⟩
  · next c o _ =>
    split
    · refine ⟨List.length_map _, fun l hl => ?_⟩
      obtain ⟨l', hl', rfl⟩ := List.mem_map.mp hl
      split
      · exact plain l' hl'
      · rw [String.toList_ofList]
        have := plain l' hl'
        constructor
        · simp [this.1]
        · simp [this.2]
    · split
      · refine ⟨List.length_map _, fun l hl => ?_⟩
        obtain ⟨l', hl', rfl⟩ := List.mem_map.mp hl
        split
        · rw [String.toList_ofList]
          exact (plain l' hl').sublist (List.drop_sublist _ _)
        · exact plain l' hl'
      · exact ⟨rfl, plain⟩

/-- What the tiers find is in scope, and as long as the chunk says. -/
lemma matchChunk_spec (cc : CharClasses) (lines : List String) (start : Nat) (wf : chunk.WellFormed) :
    let m := matchChunk cc lines start chunk
    (∀ i ∈ m.starts, start ≤ i ∧ i + m.old.length ≤ lines.length) ∧ m.old.length = chunk.old.length ∧
      m.new.length = chunk.new.length ∧ ∀ l ∈ m.new, Plain l.toList := by
  have plain : ∀ l ∈ chunk.new, Plain l.toList := fun l h => wf.plain l (.inl h)
  unfold matchChunk
  dsimp only
  split
  · exact ⟨fun i => findInScope_le, rfl, rfl, plain⟩
  · split
    · exact ⟨fun i => findRawInScope_le, wf.rawOld, wf.rawNew, fun l h => wf.plain l (.inr h)⟩
    · split
      · next bare =>
        refine ⟨fun i => findInScope_le, ?_, ?_, ?_⟩
        · cases e : stripLineNumberPrefixes cc chunk.old with
          | none => exact absurd (by rw [e]; rfl) bare
          | some lines => exact (stripLineNumberPrefixes_spec e).1
        · cases e : stripLineNumberPrefixes cc chunk.new with
          | none => rfl
          | some lines => exact (stripLineNumberPrefixes_spec e).1
        · intro l hl
          cases e : stripLineNumberPrefixes cc chunk.new with
          | none =>
            rw [e] at hl
            exact plain l hl
          | some lines =>
            rw [e] at hl
            obtain ⟨l', hl', sub⟩ := (stripLineNumberPrefixes_spec e).2 l hl
            exact (plain l' hl').sublist sub
      · split
        · next i e =>
          have mem : i ∈ (findIndentationTolerantMatches lines chunk.old).filter (start ≤ ·) := by
            rw [e]
            exact List.mem_singleton_self i
          obtain ⟨mem, le⟩ := List.mem_filter.mp mem
          have fits := findIndentationTolerantMatches_le mem
          have len : ((lines.drop i).take chunk.old.length).length = chunk.old.length := by
            rw [List.length_take, List.length_drop]
            omega
          have adjusted := adjustNewLinesIndentation_spec ((lines.drop i).take chunk.old.length) chunk.old plain
          refine ⟨fun i' h => ?_, len, adjusted⟩
          rw [List.mem_singleton.mp h, len]
          exact ⟨of_decide_eq_true le, fits⟩
        · exact ⟨fun i h => absurd h List.not_mem_nil, rfl, rfl, plain⟩

/-! ## What a chunk does -/

/-- Where a map comes from. -/
lemma map_ok {ε α β : Type*} {f : α → β} {x : Except ε α} {b : β} (h : x.map f = .ok b) :
    ∃ a, x = .ok a ∧ b = f a := by
  cases x with
  | error e => cases h
  | ok a =>
    cases h
    exact ⟨a, rfl, rfl⟩

/-- Where a bind comes from. -/
lemma bind_ok {ε α β : Type*} {f : α → Except ε β} {x : Except ε α} {b : β} (h : x.bind f = .ok b) :
    ∃ a, x = .ok a ∧ f a = .ok b := by
  cases x with
  | error e => cases h
  | ok a => exact ⟨a, rfl, h⟩

/-- The start is a match. -/
lemma uniqueStart_mem (h : uniqueStart lines old xs = .ok i) : i ∈ xs := by
  unfold uniqueStart at h
  split at h
  · cases h
  · cases h
    exact List.mem_singleton_self _
  · cases h

/-- The anchor is a match. -/
lemma uniqueAnchor_mem {anchor : String} {literal : Bool} (h : uniqueAnchor anchor literal xs = .ok i) : i ∈ xs := by
  unfold uniqueAnchor at h
  split at h
  · cases h
  · cases h
    exact List.mem_singleton_self _
  · cases h

/-- The header is a line. -/
lemma findHeaderAnchor_lt {anchor : String} (h : findHeaderAnchor cc lines anchor k = .ok i) :
    k ≤ i ∧ i < lines.length := by
  have scan : ∀ {p : String → Bool},
      (i ∈ (List.range lines.length).filter fun i => k ≤ i && (lines[i]?).any p) → k ≤ i ∧ i < lines.length := by
    intro p h
    obtain ⟨lt, h⟩ := List.mem_filter.mp h
    rw [Bool.and_eq_true, decide_eq_true_eq] at h
    exact ⟨h.1, List.mem_range.mp lt⟩
  cases mem_orElse (uniqueAnchor_mem h) with
  | inl h =>
    cases mem_orElse h with
    | inl h =>
      obtain ⟨mem, le⟩ := List.mem_filter.mp h
      have fits := findLineMatches_le mem
      exact ⟨of_decide_eq_true le, fits⟩
    | inr h => exact scan h
  | inr h => exact scan h

/-- The scope is a line. -/
lemma findScopeAnchor_lt {anchor : String} (h : findScopeAnchor lines anchor k = .ok i) :
    k ≤ i ∧ i < lines.length := by
  cases mem_orElse (uniqueAnchor_mem h) with
  | inl h =>
    obtain ⟨mem, le⟩ := List.mem_filter.mp h
    have fits := findLineMatches_le mem
    exact ⟨of_decide_eq_true le, fits⟩
  | inr h =>
    obtain ⟨mem, le⟩ := List.mem_filter.mp h
    have fits := findLineMatches_le mem
    exact ⟨of_decide_eq_true le, fits⟩

/-- The scope begins behind the cursor. -/
lemma scopeStart_le (cursor : k ≤ lines.length) (h : scopeStart cc lines k chunk = .ok i) :
    k ≤ i ∧ i ≤ lines.length := by
  unfold scopeStart at h
  split at h
  · cases h
    exact ⟨le_rfl, cursor⟩
  · next anchor _ =>
    obtain ⟨j, found, rfl⟩ := map_ok h
    have lt : k ≤ j ∧ j < lines.length := by
      split at found
      · exact findScopeAnchor_lt found
      · exact findHeaderAnchor_lt found
    exact ⟨Nat.le_succ_of_le lt.1, lt.2⟩

/-- The context lines are those of the window, and every other line is a new one. -/
lemma preserveContext_spec (window new : List String) {pairs : List (Nat × Nat)}
    (distinct : (pairs.map Prod.snd).Nodup)
    (bound : ∀ p ∈ pairs, p.1 < window.length ∧ p.2 < new.length) :
    (preserveContext window new pairs).length = new.length ∧
      (∀ p ∈ pairs, (preserveContext window new pairs)[p.2]? = window[p.1]?) ∧
      ∀ l ∈ preserveContext window new pairs, l ∈ window ∨ l ∈ new := by
  have others : ∀ (pairs : List (Nat × Nat)) (new : List String) (j : Nat), j ∉ pairs.map Prod.snd →
      (preserveContext window new pairs)[j]? = new[j]? := by
    intro pairs
    induction pairs with
    | nil => exact fun _ _ _ => rfl
    | cons p pairs ih =>
      intro new j h
      rw [List.map_cons, List.mem_cons, not_or] at h
      rw [preserveContext, List.foldl_cons, ← preserveContext, ih _ _ h.2]
      cases window[p.1]? with
      | none => rfl
      | some l => exact List.getElem?_set_ne (Ne.symm h.1)
  induction pairs generalizing new with
  | nil => exact ⟨rfl, fun _ h => absurd h List.not_mem_nil, fun l h => .inr h⟩
  | cons p pairs ih =>
    rw [List.map_cons, List.nodup_cons] at distinct
    have here := bound p List.mem_cons_self
    have e : window[p.1]? = some window[p.1] := List.getElem?_eq_getElem here.1
    have step : preserveContext window new (p :: pairs) = preserveContext window (new.set p.2 window[p.1]) pairs := by
      rw [preserveContext, List.foldl_cons, e]
      rfl
    have later : ∀ q ∈ pairs, q.1 < window.length ∧ q.2 < (new.set p.2 window[p.1]).length := by
      intro q hq
      rw [List.length_set]
      exact bound q (List.mem_cons_of_mem p hq)
    obtain ⟨len, context, mem⟩ := ih _ distinct.2 later
    rw [step]
    refine ⟨len.trans List.length_set, fun q hq => ?_, fun l hl => ?_⟩
    · cases List.mem_cons.mp hq with
      | inl e' =>
        rw [e', others pairs _ _ distinct.1, e, List.getElem?_set_self here.2]
      | inr hq => exact context q hq
    · cases mem l hl with
      | inl h => exact .inl h
      | inr h =>
        cases List.mem_or_eq_of_mem_set h with
        | inl h => exact .inr h
        | inr e' => exact .inl (e' ▸ List.getElem_mem here.1)

/-- What a chunk does to the lines behind the cursor. -/
def Does (s : Applying) (chunk : Chunk) : Action → Prop
  | .locator cursor => chunk.changing = false ∧ s.cursor ≤ cursor ∧ cursor ≤ s.lines.length
  | .change start old new =>
    chunk.changing = true ∧ s.cursor ≤ start ∧ start + old ≤ s.lines.length ∧ old = chunk.old.length ∧
      new.length = chunk.new.length ∧ (∀ p ∈ chunk.contextPairs, new[p.2]? = ((s.lines.drop start).take old)[p.1]?) ∧
      ∀ l ∈ new, l ∈ s.lines ∨ Plain l.toList

/-- What an action does. -/
lemma Applying.action_does (wf : chunk.WellFormed) (cursor : s.cursor ≤ s.lines.length)
    (h : s.action cc chunk = .ok a) : Does s chunk a := by
  obtain ⟨start, e, h⟩ := bind_ok h
  obtain ⟨low, high⟩ := scopeStart_le cursor e
  unfold Chunk.inScope at h
  split at h
  · next same =>
    have still : chunk.changing = false := by simp [Chunk.changing, same]
    split at h
    · cases h
      exact ⟨still, low, high⟩
    · obtain ⟨i, found, rfl⟩ := map_ok h
      have fits : start ≤ i ∧ i + chunk.old.length ≤ s.lines.length := by
        cases mem_orElse (uniqueStart_mem found) with
        | inl h => exact findInScope_le h
        | inr h =>
          have := findRawInScope_le h
          rw [wf.rawOld] at this
          exact this
      exact ⟨still, by omega, fits.2⟩
  · next differ =>
    have changes : chunk.changing = true := by simp [Chunk.changing, differ]
    split at h
    · next empty =>
      cases h
      have noPairs : ∀ p ∈ chunk.contextPairs, False := by
        intro p hp
        have := (wf.pairs p hp).1
        simp [empty] at this
      exact ⟨changes, low, high, by rw [empty]; rfl, rfl, fun p hp => (noPairs p hp).elim,
        fun l hl => .inr (wf.plain l (.inl hl))⟩
    · obtain ⟨places, oldLen, newLen, plain⟩ := matchChunk_spec cc s.lines start wf
      obtain ⟨i, found, rfl⟩ := map_ok h
      obtain ⟨le, fits⟩ := places i (uniqueStart_mem found)
      have windowLen : ((s.lines.drop i).take (matchChunk cc s.lines start chunk).old.length).length =
          chunk.old.length := by
        rw [List.length_take, List.length_drop]
        omega
      obtain ⟨len, context, mem⟩ := preserveContext_spec
        ((s.lines.drop i).take (matchChunk cc s.lines start chunk).old.length)
        (matchChunk cc s.lines start chunk).new wf.distinct
        (by rw [windowLen, newLen]; exact wf.pairs)
      refine ⟨changes, low.trans le, fits, oldLen, len.trans newLen, context, fun l hl => ?_⟩
      cases mem l hl with
      | inl h => exact .inl (List.mem_of_mem_drop (List.mem_of_mem_take h))
      | inr h => exact .inr (plain l h)

/-- A run replaces windows of what stands behind the cursor, one for every chunk that changes lines. -/
lemma Applying.run_edited {pre rest : List String} (wf : ∀ c ∈ chunks, c.WellFormed) (lines : s.lines = pre ++ rest)
    (low : pre.length ≤ s.cursor) (high : s.cursor ≤ s.lines.length) (delta : s.lineDelta = pre.length - i)
    (plain : ∀ l ∈ s.lines, Plain l.toList) (h : s.run cc chunks = .ok t) :
    ∃ ws rest', t.lines = pre ++ rest' ∧ Edited Eq i pre.length ws rest rest' ∧
      List.Forall₂ Fits (chunks.filter Chunk.changing) ws ∧ t.hunks = s.hunks ++ ws.map hunkOf ∧
      s.replaced cc chunks = ws.map (fun w => (w.old, w.new)) ∧ ∀ l ∈ t.lines, Plain l.toList := by
  induction chunks generalizing s pre rest i with
  | nil =>
    cases h
    exact ⟨[], rest, lines, .refl fun _ => rfl, .nil, (List.append_nil _).symm, rfl, plain⟩
  | cons c chunks ih =>
    obtain ⟨a, ha, h⟩ := bind_ok h
    have does := Applying.action_does (wf c List.mem_cons_self) high ha
    have wf' : ∀ c ∈ chunks, c.WellFormed := fun c h => wf c (List.mem_cons_of_mem _ h)
    cases a with
    | locator cursor =>
      obtain ⟨still, le, bound⟩ := does
      obtain ⟨ws, rest', e, edited, fits, hunks, replaced, plain'⟩ :=
        ih (s := s.perform (.locator cursor)) wf' lines (low.trans le) bound delta plain h
      refine ⟨ws, rest', e, edited, ?_, hunks, ?_, plain'⟩
      · rw [List.filter_cons_of_neg (by simp [still])]
        exact fits
      · rw [Applying.replaced, ha]
        exact replaced
    | change start old new =>
      obtain ⟨changes, le, bound, oldLen, newLen, context, kept⟩ := does
      obtain ⟨n, rfl⟩ := Nat.exists_eq_add_of_le (low.trans le)
      rw [lines, List.length_append] at bound
      have takeLen : (rest.take n).length = n := by
        rw [List.length_take]
        omega
      have window : (s.lines.drop (pre.length + n)).take old = (rest.drop n).take old := by
        rw [lines, List.drop_append, List.drop_eq_nil_of_le (by omega), Nat.add_sub_cancel_left, List.nil_append]
      have windowLen : ((rest.drop n).take old).length = old := by
        rw [List.length_take, List.length_drop]
        omega
      have split : rest = rest.take n ++ ((rest.drop n).take old ++ rest.drop (n + old)) := by
        rw [← List.drop_drop, List.take_append_drop, List.take_append_drop]
      have lines' : (s.perform (.change (pre.length + n) old new)).lines =
          (pre ++ (rest.take n ++ new)) ++ rest.drop (n + old) := by
        show s.lines.take _ ++ (new ++ s.lines.drop _) = _
        rw [lines, List.take_append, List.take_of_length_le (by omega), Nat.add_sub_cancel_left, List.drop_append,
          List.drop_eq_nil_of_le (by omega), Nat.add_assoc, Nat.add_sub_cancel_left]
        simp only [List.append_assoc, List.nil_append]
      have preLen : (pre ++ (rest.take n ++ new)).length = pre.length + n + new.length := by
        rw [List.length_append, List.length_append, takeLen, Nat.add_assoc]
      have plain' : ∀ l ∈ (s.perform (.change (pre.length + n) old new)).lines, Plain l.toList := by
        intro l hl
        cases List.mem_append.mp hl with
        | inl h => exact plain l (List.mem_of_mem_take h)
        | inr hl =>
          cases List.mem_append.mp hl with
          | inl h => exact (kept l h).elim (plain l) id
          | inr h => exact plain l (List.mem_of_mem_drop h)
      obtain ⟨ws, rest', e, edited, fits, hunks, replaced, plain''⟩ :=
        ih (s := s.perform (.change (pre.length + n) old new)) (i := i + n + old) wf' lines'
          (by rw [preLen]; exact le_rfl)
          (by
            rw [lines', List.length_append, preLen]
            exact Nat.le_add_right _ _)
          (by
            show s.lineDelta + (new.length - old) = _
            rw [delta, preLen]
            push_cast
            ring)
          plain' h
      let w : Window String := ⟨i + n, pre.length + n, (rest.drop n).take old, new⟩
      refine ⟨w :: ws, rest.take n ++ (new ++ rest'), ?_, ?_, ?_, ?_, ?_, plain''⟩
      · rw [e]
        simp only [List.append_assoc]
      · have same : List.Forall₂ Eq (rest.take n) (rest.take n) := List.forall₂_same.mpr fun _ _ => rfl
        rw [preLen, ← windowLen] at edited
        have whole := Edited.window (w := w) (i := i) (j := pre.length) same (by rw [takeLen]) (by rw [takeLen]) edited
        rw [windowLen, ← split] at whole
        exact whole
      · rw [List.filter_cons_of_pos changes]
        refine .cons ⟨windowLen.trans oldLen, newLen, fun p hp => ?_⟩ fits
        show new[p.2]? = ((rest.drop n).take old)[p.1]?
        rw [context p hp, window]
      · rw [hunks]
        show s.hunks ++ [_] ++ _ = _
        rw [List.append_assoc, List.map_cons, List.singleton_append]
        congr 3
        show ((pre.length + n : Nat) : Int) + 1 - s.lineDelta = ((i + n : Nat) : Int) + 1
        rw [delta]
        push_cast
        ring
      · rw [Applying.replaced, ha]
        simp only [window, replaced, List.map_cons]
        rfl

end

end OpenAgentd.Patch
