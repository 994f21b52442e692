import OpenAgentd.Patch.Replaced

/-!
# What an update leaves alone

The lines of the new text are the lines of the file with the windows of the chunks replaced (`applied`). So the hunks
that are reported name the windows in both texts (`hunks_exact`). The line ends are not taken from the lines: they are
all written as one kind, and an update leaves the lines outside of its hunks alone when the file has no other kind
(`framed_iff`).
-/

namespace OpenAgentd.Patch
open OpenAgentd.Lib

/-- The lines of a text. -/
def textLines (s : String) : List String := ((normalize s.toList).splitOn '\n').map String.ofList

/-- The kind of line end that is written. -/
def lineEnd (content : String) : LineEnd := if usesCrlf content then .crlf else .lf

/-- The file has no other kind of line end than the one that is written. -/
def Uniform (content : String) : Prop :=
  ∀ p ∈ linesOf content.toList, p.2 = .eof ∨ p.2 = lineEnd content

/-- The same line, with the same end unless it is or becomes the last line of a text without a final line end. -/
def SameLine (p q : List Char × LineEnd) : Prop := p.1 = q.1 ∧ (p.2 = q.2 ∨ p.2 = .eof ∨ q.2 = .eof)

/-- The window is the one of the chunk, with the lines of context as they were. -/
structure Keeps (c : Chunk) (w : Window (List Char × LineEnd)) : Prop where
  old : w.old.length = c.old.length
  new : w.new.length = c.new.length
  context : ∀ p ∈ c.contextPairs, ∃ x y, w.old[p.1]? = some x ∧ w.new[p.2]? = some y ∧ SameLine x y

/-- The new text is the old one with one window replaced for every chunk that changes lines. -/
def Framed (content out : String) (chunks : List Chunk) : Prop :=
  ∃ ws lines, (lines = linesOf out.toList ∨ lines = [] ∧ out = "") ∧
    Edited SameLine 0 0 ws (linesOf content.toList) lines ∧ List.Forall₂ Keeps (chunks.filter Chunk.changing) ws

/-- The empty line behind a final line end. -/
def closing (content : String) : List String := if hasTrailingNewline content then [""] else []

section
variable {cc : CharClasses} {content out : String} {chunks : List Chunk} {hunks : List Hunk} {lines : List String}

/-- The lines without their ends. -/
lemma textLines_eq : textLines content = (linesOf content.toList).map fun p => String.ofList p.1 := by
  rw [textLines, splitOn_normalize, List.map_map]
  rfl

/-- Lines have no end in them. -/
lemma textLines_plain : ∀ l ∈ textLines content, Plain l.toList := by
  intro l hl
  rw [textLines_eq] at hl
  obtain ⟨p, hp, rfl⟩ := List.mem_map.mp hl
  rw [String.toList_ofList]
  exact plain_of_mem _ p hp

/-- A text ends with a separator or is empty when its last part is empty. -/
lemma splitOn_getLast? (s : List Char) :
    (s.splitOn '\n').getLast? = some [] ↔ s.getLast? = some '\n' ∨ s = [] := by
  induction s with
  | nil => simp [List.splitOn_nil]
  | cons c s ih =>
    rw [List.splitOn_cons_eq_if_modifyHead]
    have ne := List.splitOn_ne_nil '\n' s
    split
    · next h =>
      rw [beq_iff_eq] at h
      rw [List.getLast?_cons_of_ne_nil ne, ih, h]
      cases s with
      | nil => simp
      | cons d s => simp
    · next h =>
      rw [beq_iff_eq] at h
      cases e : s.splitOn '\n' with
      | nil => exact absurd e ne
      | cons l ls =>
        rw [e] at ih
        rw [List.modifyHead_cons]
        cases s with
        | nil =>
          rw [List.splitOn_nil] at e
          cases e
          simp [h]
        | cons d s =>
          cases ls with
          | nil =>
            have single : l = d :: s := by
              have joined : ['\n'].intercalate ((d :: s).splitOn '\n') = d :: s := List.intercalate_splitOn '\n'
              rw [e] at joined
              simpa [List.intercalate] using joined
            rw [single] at ih ⊢
            simp at ih ⊢
            exact ih
          | cons l' ls =>
            rw [List.getLast?_cons_cons, List.getLast?_cons_cons] at *
            rw [ih]
            simp

/-- The lines of the file, with the empty line behind a final line end. -/
lemma contentLines_closing : textLines content = contentLines content ++ closing content := by
  have last : hasTrailingNewline content = decide ((textLines content).getLast? = some "") := by
    have e : (textLines content).getLast? = some "" ↔
        ((normalize content.toList).splitOn '\n').getLast? = some [] := by
      rw [textLines, List.getLast?_map]
      cases ((normalize content.toList).splitOn '\n').getLast? with
      | none => simp
      | some l => simp [← String.toList_inj]
    rw [hasTrailingNewline, Bool.eq_iff_iff]
    simp only [Bool.or_eq_true, decide_eq_true_eq]
    rw [e, splitOn_getLast?]
  have e : contentLines content = if hasTrailingNewline content && (textLines content).getLast? = some "" then
      (textLines content).dropLast else textLines content := rfl
  rw [e, closing, last, Bool.and_self]
  by_cases h : (textLines content).getLast? = some ""
  · simp only [h, decide_true, if_true]
    exact (List.dropLast_append_getLast? _ h).symm
  · simp [h]

/-- Lines joined with LF. -/
lemma joinLf (l : List Char) (plain : ∀ k ∈ lines, Plain k.toList) (last : Plain l) :
    (endWith .lf (lines.map String.toList) ++ l).flatMap (fun c => if c = '\n' then ['\r', '\n'] else [c]) =
      endWith .crlf (lines.map String.toList) ++ l := by
  have stays : ∀ l : List Char, '\n' ∉ l → l.flatMap (fun c => if c = '\n' then ['\r', '\n'] else [c]) = l := by
    intro l h
    induction l with
    | nil => rfl
    | cons c l ih =>
      have ne : c ≠ '\n' := by
        rintro rfl
        exact h List.mem_cons_self
      rw [List.flatMap_cons, ih fun mem => h (List.mem_cons_of_mem c mem), if_neg ne]
      rfl
  rw [List.flatMap_append, stays l last.1]
  congr 1
  induction lines with
  | nil => rfl
  | cons k lines ih =>
    have rest := ih fun k' h => plain k' (List.mem_cons_of_mem k h)
    rw [endWith, List.map_cons, List.flatMap_cons, List.flatMap_append, List.flatMap_append,
      stays _ (plain k List.mem_cons_self).1, ← endWith, rest]
    rfl

/-- The new text, when it has lines: every line with the end that is written. -/
lemma nextContent_snoc {l : String} (plain : ∀ k ∈ lines ++ closing content, Plain k.toList) {ls : List String}
    (e : lines ++ closing content = ls ++ [l]) :
    (nextContent content lines).toList = endWith (lineEnd content) (ls.map String.toList) ++ l.toList := by
  have closed : (if hasTrailingNewline content && lines ≠ [] then ['\n'].intercalate (lines.map String.toList) ++ ['\n']
      else ['\n'].intercalate (lines.map String.toList)) = endWith .lf (ls.map String.toList) ++ l.toList := by
    have mapped : (lines ++ closing content).map String.toList = ls.map String.toList ++ [l.toList] := by
      rw [e, List.map_append, List.map_singleton]
    rw [← intercalate_append, ← mapped, closing]
    cases h : hasTrailingNewline content with
    | false => simp
    | true =>
      cases lines with
      | nil => simp [List.intercalate]
      | cons k lines =>
        have some : (k :: lines).map String.toList ≠ [] := by simp
        rw [if_pos (by simp), if_pos rfl, List.map_append, intercalate_closed some, List.map_singleton,
          intercalate_append]
        exact (List.append_nil _).symm
  have plain' : ∀ k ∈ ls, Plain k.toList := fun k h => plain k (e ▸ List.mem_append_left _ h)
  have last : Plain l.toList := plain l (e ▸ List.mem_append_right _ (List.mem_singleton_self l))
  simp only [nextContent, lineEnd, closed, String.toList_ofList]
  split
  · exact joinLf _ plain' last
  · rfl

/-- The new text, when it has no line. -/
lemma nextContent_nil (e : lines ++ closing content = []) : nextContent content lines = "" := by
  obtain ⟨rfl, open'⟩ := List.append_eq_nil_iff.mp e
  have h : hasTrailingNewline content = false := by
    cases h : hasTrailingNewline content with
    | false => rfl
    | true => simp [closing, h] at open'
  simp [nextContent, h, List.intercalate]

/-- The new text has the lines the run leaves. -/
lemma nextContent_lines (plain : ∀ k ∈ lines ++ closing content, Plain k.toList) :
    (∃ ls l, lines ++ closing content = ls ++ [l] ∧
      linesOf (nextContent content lines).toList =
        ls.map (fun k => (k.toList, lineEnd content)) ++ [(l.toList, .eof)]) ∨
      lines ++ closing content = [] ∧ nextContent content lines = "" := by
  cases List.eq_nil_or_concat (lines ++ closing content) with
  | inl e => exact .inr ⟨e, nextContent_nil e⟩
  | inr h =>
    obtain ⟨ls, l, e⟩ := h
    rw [List.concat_eq_append] at e
    refine .inl ⟨ls, l, e, ?_⟩
    have plain' : ∀ k ∈ ls, Plain k.toList := fun k h => plain k (e ▸ List.mem_append_left _ h)
    have last : Plain l.toList := plain l (e ▸ List.mem_append_right _ (List.mem_singleton_self l))
    have kind : lineEnd content = .lf ∨ lineEnd content = .crlf := by
      unfold lineEnd
      split
      · exact .inr rfl
      · exact .inl rfl
    rw [nextContent_snoc plain e, linesOf_lines _ last kind, List.map_map]
    · rfl
    · intro k hk
      obtain ⟨k', hk', rfl⟩ := List.mem_map.mp hk
      exact plain' k' hk'

/-- A successful update replaces windows of the lines of the file. -/
lemma applied (wf : ∀ c ∈ chunks, c.WellFormed) (h : applyChunksWithMeta cc content chunks = .ok (out, hunks)) :
    ∃ ws lines, Edited Eq 0 0 ws (textLines content) (lines ++ closing content) ∧
      List.Forall₂ Fits (chunks.filter Chunk.changing) ws ∧ hunks = ws.map hunkOf ∧
      Applying.replaced cc { lines := contentLines content } chunks = ws.map (fun w => (w.old, w.new)) ∧
      out = nextContent content lines ∧ ∀ k ∈ lines ++ closing content, Plain k.toList := by
  obtain ⟨t, run, e⟩ := map_ok h
  obtain ⟨rfl, rfl⟩ := Prod.mk.inj e
  have plain : ∀ l ∈ contentLines content, Plain l.toList := by
    intro l hl
    have mem : l ∈ textLines content := by
      rw [contentLines_closing]
      exact List.mem_append_left _ hl
    exact textLines_plain l mem
  have whole : ({ lines := contentLines content } : Applying).lines = [] ++ contentLines content := rfl
  obtain ⟨ws, rest, lines, edited, fits, hunks, replaced, plain'⟩ :=
    Applying.run_edited (i := 0) wf whole (Nat.zero_le _) (Nat.zero_le _) rfl plain run
  rw [List.nil_append] at lines
  refine ⟨ws, t.lines, ?_, fits, hunks, replaced, rfl, fun k hk => ?_⟩
  · rw [contentLines_closing, lines]
    exact edited.append (fun _ => rfl) _
  · cases List.mem_append.mp hk with
    | inl h => exact plain' k h
    | inr h =>
      unfold closing at h
      split at h
      · rw [List.mem_singleton.mp h]
        exact .nil
      · cases h

/-! ## The hunks -/

/-- The lines of the new text are the lines the run leaves; an empty text has one empty line. -/
lemma textLines_nextContent (plain : ∀ k ∈ lines ++ closing content, Plain k.toList) :
    textLines (nextContent content lines) = lines ++ closing content ∨ lines ++ closing content = [] := by
  cases nextContent_lines plain with
  | inl h =>
    obtain ⟨ls, l, e, e'⟩ := h
    left
    rw [textLines_eq, e', e, List.map_append, List.map_map, List.map_singleton, String.ofList_toList]
    congr 1
    exact (List.map_congr_left fun k _ => String.ofList_toList).trans (List.map_id ls)
  | inr h => exact .inr h.1

/-- The windows a run replaces, with the hunks that are reported for them. -/
structure Reported (content out : String) (h : Hunk) (r : List String × List String) : Prop where
  old : ∃ i : Nat, h.oldStart = i + 1 ∧ ((textLines content).drop i).take r.1.length = r.1
  new : ∃ i : Nat, h.newStart = i + 1 ∧ ((textLines out).drop i).take r.2.length = r.2

/-- One window ends before the other begins, in both texts. -/
def HunkBefore (a b : Hunk × List String × List String) : Prop :=
  a.1.oldStart + a.2.1.length ≤ b.1.oldStart ∧ a.1.newStart + a.2.2.length ≤ b.1.newStart

/-- The hunks name the windows that the changing chunks replace, and what stands in their place. -/
theorem hunks_exact (wf : ∀ c ∈ chunks, c.WellFormed)
    (h : applyChunksWithMeta cc content chunks = .ok (out, hunks)) :
    let replaced := Applying.replaced cc { lines := contentLines content } chunks
    List.Forall₂ (fun c r => r.1.length = c.old.length ∧ r.2.length = c.new.length)
        (chunks.filter Chunk.changing) replaced ∧
      List.Forall₂ (Reported content out) hunks replaced ∧ (hunks.zip replaced).Pairwise HunkBefore := by
  intro replaced
  obtain ⟨ws, lines, edited, fits, rfl, e, rfl, plain⟩ := applied wf h
  have replaced_eq : replaced = ws.map fun w => (w.old, w.new) := e
  rw [replaced_eq]
  have places := edited.at_places
  refine ⟨?_, ?_, ?_⟩
  · rw [List.forall₂_map_right_iff]
    exact fits.imp fun c w fit => ⟨fit.old, fit.new⟩
  · rw [List.forall₂_map_left_iff, List.forall₂_map_right_iff, List.forall₂_same]
    intro w hw
    obtain ⟨old, new⟩ := places w hw
    refine ⟨⟨w.oldStart, rfl, old⟩, ⟨w.newStart, rfl, ?_⟩⟩
    cases textLines_nextContent plain with
    | inl e =>
      rw [e]
      exact new
    | inr e =>
      rw [e, List.drop_nil, List.take_nil] at new
      show List.take w.new.length _ = w.new
      rw [← new]
      rfl
  · rw [List.zip_map', List.pairwise_map]
    refine edited.ordered.imp fun {a b} before => ?_
    obtain ⟨old, new⟩ := before
    show (a.oldStart : Int) + 1 + a.old.length ≤ b.oldStart + 1 ∧ (a.newStart : Int) + 1 + a.new.length ≤ b.newStart + 1
    omega

/-- Two insertions at the beginning. -/
def insertions : List Chunk := [{ new := ["x"], rawNew := ["x"] }, { new := ["y"], rawNew := ["y"] }]

/-- The insertions are well formed. -/
lemma insertions_wellFormed : ∀ c ∈ insertions, c.WellFormed := by
  intro c hc
  have hc : c = { new := ["x"], rawNew := ["x"] } ∨ c = { new := ["y"], rawNew := ["y"] } := by
    simpa [insertions] using hc
  cases hc with
  | inl e =>
    rw [e]
    exact ⟨rfl, rfl, by simp, by simp, by simp [Plain]⟩
  | inr e =>
    rw [e]
    exact ⟨rfl, rfl, by simp, by simp, by simp [Plain]⟩

/-- The classes of ASCII characters. -/
def asciiClasses : CharClasses where
  isAlnum := Char.isAlphanum
  isDecimal := Char.isDigit

/-- What the insertions give. -/
lemma insertions_applied :
    applyChunksWithMeta asciiClasses "a\n" insertions =
      .ok ("x\ny\na\n", [{ oldStart := 1, newStart := 1 }, { oldStart := 1, newStart := 2 }]) := by
  decide

/-- Its hunks are exact. -/
theorem hunks_exact_insertions :
    let replaced := Applying.replaced asciiClasses { lines := contentLines "a\n" } insertions
    List.Forall₂ (fun c r => r.1.length = c.old.length ∧ r.2.length = c.new.length)
        (insertions.filter Chunk.changing) replaced ∧
      List.Forall₂ (Reported "a\n" "x\ny\na\n") [{ oldStart := 1, newStart := 1 }, { oldStart := 1, newStart := 2 }]
        replaced ∧
      (([{ oldStart := 1, newStart := 1 }, { oldStart := 1, newStart := 2 }] : List Hunk).zip replaced).Pairwise
        HunkBefore :=
  hunks_exact insertions_wellFormed insertions_applied

/-- Two empty windows can stand at the same line. -/
theorem hunks_same_start :
    ¬ ∀ chunks content out hunks, (∀ c ∈ chunks, c.WellFormed) →
      applyChunksWithMeta asciiClasses content chunks = .ok (out, hunks) →
        hunks.Pairwise fun a b => a.oldStart < b.oldStart ∧ a.newStart < b.newStart := by
  intro h
  have strict := h insertions "a\n" _ _ insertions_wellFormed insertions_applied
  rw [List.pairwise_pair] at strict
  exact absurd strict.1 (by decide)

end

/-! ## The frame -/

section
variable {cc : CharClasses} {content out : String} {chunks : List Chunk} {hunks : List Hunk} {lines : List String}

/-- The line with the end that is written, or the last line. -/
def Written (e : LineEnd) (l : String) (p : List Char × LineEnd) : Prop := p.1 = l.toList ∧ (p.2 = .eof ∨ p.2 = e)

/-- A uniform text is its lines. -/
lemma Uniform.written (h : Uniform content) :
    List.Forall₂ (Written (lineEnd content)) (textLines content) (linesOf content.toList) := by
  rw [textLines_eq, List.forall₂_map_left_iff, List.forall₂_same]
  exact fun p hp => ⟨String.toList_ofList.symm, h p hp⟩

/-- Equal lines are written alike. -/
lemma Written.same {e : LineEnd} {l l' : String} {p q : List Char × LineEnd} (eq : l = l') (h : Written e l p)
    (h' : Written e l' q) : SameLine p q := by
  refine ⟨by rw [h.1, h'.1, eq], ?_⟩
  cases h.2 with
  | inl eof => exact .inr (.inl eof)
  | inr end' =>
    cases h'.2 with
    | inl eof => exact .inr (.inr eof)
    | inr end'' => exact .inl (end'.trans end''.symm)

/-- The window of a chunk, with line ends. -/
lemma Fits.keeps {c : Chunk} {w : Window String} {w' : Window (List Char × LineEnd)} {e : LineEnd} (fit : Fits c w)
    (wf : c.WellFormed) (old : List.Forall₂ (Written e) w.old w'.old) (new : List.Forall₂ (Written e) w.new w'.new) :
    Keeps c w' where
  old := old.length_eq.symm.trans fit.old
  new := new.length_eq.symm.trans fit.new
  context p hp := by
    have lt : p.1 < w.old.length := by
      rw [fit.old]
      exact (wf.pairs p hp).1
    have here : w.old[p.1]? = some w.old[p.1] := List.getElem?_eq_getElem lt
    obtain ⟨x, hx, written⟩ := forall₂_getElem? old here
    obtain ⟨y, hy, written'⟩ := forall₂_getElem? new ((fit.context p hp).trans here)
    exact ⟨x, y, hx, hy, written.same rfl written'⟩

/-- A file with one kind of line end keeps its lines. -/
lemma Uniform.framed (uniform : Uniform content) (wf : ∀ c ∈ chunks, c.WellFormed)
    (h : applyChunksWithMeta cc content chunks = .ok (out, hunks)) : Framed content out chunks := by
  obtain ⟨ws, lines, edited, fits, -, -, rfl, plain⟩ := applied wf h
  have partners : ∃ lines', (lines' = linesOf (nextContent content lines).toList ∨
      lines' = [] ∧ nextContent content lines = "") ∧
      List.Forall₂ (Written (lineEnd content)) (lines ++ closing content) lines' := by
    cases nextContent_lines plain with
    | inl h =>
      obtain ⟨ls, l, e, e'⟩ := h
      refine ⟨_, .inl rfl, ?_⟩
      rw [e, e']
      refine List.rel_append ?_ (.cons ⟨rfl, .inl rfl⟩ .nil)
      rw [List.forall₂_map_right_iff, List.forall₂_same]
      exact fun k _ => ⟨rfl, .inr rfl⟩
    | inr h =>
      refine ⟨[], .inr ⟨rfl, h.2⟩, ?_⟩
      rw [h.1]
      exact .nil
  obtain ⟨lines', new, written⟩ := partners
  obtain ⟨ws', lifted, windows⟩ := edited.lift (S := Written (lineEnd content)) Written.same uniform.written written
  refine ⟨ws', lines', new, lifted, ?_⟩
  have wf' : ∀ c ∈ chunks.filter Chunk.changing, c.WellFormed := fun c hc => wf c (List.mem_of_mem_filter hc)
  clear edited lifted
  generalize chunks.filter Chunk.changing = changing at fits wf' ⊢
  induction fits generalizing ws' with
  | nil =>
    cases windows
    exact .nil
  | cons fit _ ih =>
    cases windows with
    | cons related rest =>
      refine .cons (fit.keeps (wf' _ List.mem_cons_self) related.1 related.2) ?_
      exact ih _ rest fun c hc => wf' c (List.mem_cons_of_mem _ hc)

/-- Only the last line ends with the text. -/
lemma eof_iff {s : List Char} {p : List Char × LineEnd} {i : Nat} (h : (linesOf s)[i]? = some p) :
    p.2 = .eof ↔ i + 1 = (linesOf s).length := by
  obtain ⟨ls, l, e, ends⟩ := linesOf_eof s
  rw [e] at h ⊢
  rw [List.length_append, List.length_singleton]
  rcases Nat.lt_or_ge i ls.length with lt | ge
  · rw [List.getElem?_append_left lt] at h
    refine iff_of_false (ends p (List.mem_of_getElem? h)) (by omega)
  · rw [List.getElem?_append_right ge] at h
    have zero : i - ls.length = 0 := by
      by_contra ne
      rw [List.getElem?_eq_none (by rw [List.length_singleton]; omega)] at h
      cases h
    rw [zero] at h
    cases h
    exact iff_of_true rfl (by omega)

/-- A line inserted at the beginning. -/
def insertion : Chunk := { new := ["x"], rawNew := ["x"] }

/-- The insertion is well formed. -/
lemma insertion_wellFormed : insertion.WellFormed :=
  ⟨rfl, rfl, by simp [insertion], by simp [insertion], by simp [insertion, Plain]⟩

/-- What the insertion gives. -/
lemma insertion_applied : applyChunksWithMeta cc content [insertion] =
    .ok (nextContent content ("x" :: contentLines content), [{ oldStart := 1, newStart := 1 }]) := rfl

/-- The ends of the new text are of one kind. -/
lemma insertion_ends {q : List Char × LineEnd}
    (h : q ∈ linesOf (nextContent content ("x" :: contentLines content)).toList) : q.2 = lineEnd content ∨ q.2 = .eof := by
  have plain : ∀ k ∈ ("x" :: contentLines content) ++ closing content, Plain k.toList := by
    intro k hk
    rw [List.cons_append, ← contentLines_closing] at hk
    cases List.mem_cons.mp hk with
    | inl e =>
      rw [e]
      simp [Plain]
    | inr h => exact textLines_plain k h
  cases nextContent_lines plain with
  | inl lines =>
    obtain ⟨ls, l, -, e⟩ := lines
    rw [e] at h
    cases List.mem_append.mp h with
    | inl h =>
      obtain ⟨k, -, rfl⟩ := List.mem_map.mp h
      exact .inl rfl
    | inr h =>
      rw [List.mem_singleton.mp h]
      exact .inr rfl
  | inr empty => cases empty.1

/-- An insertion writes the other line ends of the file anew. -/
lemma Framed.uniform
    (h : Framed content (nextContent content ("x" :: contentLines content)) [insertion]) : Uniform content := by
  obtain ⟨ws, lines', new, edited, windows⟩ := h
  have changes : [insertion].filter Chunk.changing = [insertion] := by decide
  rw [changes] at windows
  cases windows with
  | @cons _ w _ _ keeps rest =>
    cases rest
    obtain ⟨k, k', r, r', old, rfl, before, behind⟩ := edited.single
    have nothing : w.old = [] := List.eq_nil_of_length_eq_zero keeps.old
    have one : w.new.length = 1 := keeps.new
    have out : k' ++ (w.new ++ r') = linesOf (nextContent content ("x" :: contentLines content)).toList := by
      cases new with
      | inl e => exact e
      | inr e =>
        have := congrArg List.length e.1
        simp only [List.length_append, one, List.length_nil] at this
        omega
    rw [nothing, List.nil_append] at old
    have len := before.length_eq
    have len' := behind.length_eq
    intro p hp
    obtain ⟨i, hi⟩ := List.getElem?_of_mem hp
    -- the partner of the line stands one line further behind the insertion, and is last when the line is last
    have partner : ∃ q j, (linesOf (nextContent content ("x" :: contentLines content)).toList)[j]? = some q ∧
        SameLine p q ∧ (j + 1 = (k' ++ (w.new ++ r')).length → i + 1 = (k ++ r).length) := by
      have at' := hi
      rw [old] at at'
      rcases Nat.lt_or_ge i k.length with lt | ge
      · rw [List.getElem?_append_left lt] at at'
        obtain ⟨q, hq, same⟩ := forall₂_getElem? before at'
        refine ⟨q, i, ?_, same, ?_⟩
        · rw [← out, List.getElem?_append_left (by omega)]
          exact hq
        · simp only [List.length_append, one]
          omega
      · rw [List.getElem?_append_right ge] at at'
        obtain ⟨q, hq, same⟩ := forall₂_getElem? behind at'
        refine ⟨q, i + 1, ?_, same, ?_⟩
        · have shift : i + 1 - k'.length - w.new.length = i - k.length := by omega
          rw [← out, List.getElem?_append_right (by omega), List.getElem?_append_right (by omega), shift]
          exact hq
        · simp only [List.length_append, one]
          omega
    obtain ⟨q, j, hq, same, last⟩ := partner
    rw [out] at last
    rw [← old] at last
    cases same.2 with
    | inl e =>
      cases insertion_ends (List.mem_of_getElem? hq) with
      | inl written => exact .inr (e.trans written)
      | inr eof => exact .inl (e.trans eof)
    | inr e =>
      cases e with
      | inl eof => exact .inl eof
      | inr eof => exact .inl ((eof_iff hi).mpr (last ((eof_iff hq).mp eof)))

/-- The updates of a file leave alone what is outside of their hunks, whatever they are, when the file has one kind of
line end. -/
theorem framed_iff :
    (∀ chunks out hunks, (∀ c ∈ chunks, c.WellFormed) → applyChunksWithMeta cc content chunks = .ok (out, hunks) →
      Framed content out chunks) ↔ Uniform content := by
  constructor
  · intro h
    refine Framed.uniform (h _ _ _ ?_ insertion_applied)
    intro c hc
    rw [List.mem_singleton.mp hc]
    exact insertion_wellFormed
  · exact fun uniform chunks out hunks wf h => uniform.framed wf h

/-- The line feed of a line that no chunk names becomes a carriage return and a line feed. -/
theorem not_framed_mixed :
    applyChunksWithMeta asciiClasses "a\r\nb\n" [insertion] =
        .ok ("x\r\na\r\nb\r\n", [{ oldStart := 1, newStart := 1 }]) ∧
      ¬ Framed "a\r\nb\n" "x\r\na\r\nb\r\n" [insertion] := by
  have applied : applyChunksWithMeta asciiClasses "a\r\nb\n" [insertion] =
      .ok ("x\r\na\r\nb\r\n", [{ oldStart := 1, newStart := 1 }]) := by decide
  refine ⟨applied, fun framed => ?_⟩
  rw [insertion_applied] at applied
  have e := (Prod.mk.inj (Except.ok.inj applied)).1
  rw [← e] at framed
  have uniform := Framed.uniform framed (['b'], .lf) (by decide)
  revert uniform
  decide

end

end OpenAgentd.Patch
