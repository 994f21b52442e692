import OpenAgentd.Patch.Frame
import OpenAgentd.Patch.Parser

/-!
# Rendered envelopes

The documented format of an envelope, line by line (`Operation.lines`), and what the operations are as data
(`Operation.patch`). The parser gives the operations back (`parse_rendered`): from every state of the loop the lines of
an operation add its patch, whatever its payload imitates, since every line of payload begins with `+`, `-` or a space;
and what stands around an envelope is cut off as long as it holds no marker of its own.
-/

namespace OpenAgentd.Patch
open OpenAgentd.Lib

/-- A line of a hunk. -/
inductive HunkLine where
  | removed (text : String)
  | added (text : String)
  | context (text : String)

/-- The header of a hunk. -/
inductive Anchor where
  | none
  | header (anchor : String)
  | literal (anchor : String)

/-- A hunk. -/
structure HunkText where
  anchor : Anchor := .none
  lines : List HunkLine := []

/-- A file operation. -/
inductive Operation where
  | add (path : String) (contents : List String)
  | update (path : String) (moveTo : Option String) (hunks : List HunkText)
  | delete (path : String)

/-! ## The operations as data -/

/-- The line stands in the file. -/
def HunkLine.old : HunkLine → Option String
  | .removed text => some text
  | .added _ => none
  | .context text => some text

/-- The line stands in the new file. -/
def HunkLine.new : HunkLine → Option String
  | .removed _ => none
  | .added text => some text
  | .context text => some text

/-- The line as it is written, where context keeps its space. -/
def HunkLine.rawOld : HunkLine → Option String
  | .removed text => some text
  | .added _ => none
  | .context text => some (.ofList (' ' :: text.toList))

def HunkLine.rawNew : HunkLine → Option String
  | .removed _ => none
  | .added text => some text
  | .context text => some (.ofList (' ' :: text.toList))

/-- Where the lines of context stand in the old and in the new lines, counted from `i` and `j`. -/
def contextPairs (i j : Nat) : List HunkLine → List (Nat × Nat)
  | [] => []
  | .removed _ :: lines => contextPairs (i + 1) j lines
  | .added _ :: lines => contextPairs i (j + 1) lines
  | .context _ :: lines => (i, j) :: contextPairs (i + 1) (j + 1) lines

/-- A hunk as a chunk. -/
def HunkText.chunk (h : HunkText) : Chunk where
  old := h.lines.filterMap HunkLine.old
  new := h.lines.filterMap HunkLine.new
  rawOld := h.lines.filterMap HunkLine.rawOld
  rawNew := h.lines.filterMap HunkLine.rawNew
  scopeAnchor := match h.anchor with
    | .none => none
    | .header anchor => some anchor
    | .literal anchor => some anchor
  scopeIsLiteral := match h.anchor with
    | .literal _ => true
    | _ => false
  contextPairs := contextPairs 0 0 h.lines

/-- An operation as a patch. -/
def Operation.patch : Operation → FilePatch
  | .add path contents => { kind := .add, path, contents }
  | .update path moveTo hunks => { kind := .update, path, moveTo, chunks := hunks.map HunkText.chunk }
  | .delete path => { kind := .delete, path }

/-! ## The documented format -/

/-- A line of a hunk. -/
def HunkLine.render : HunkLine → List Char
  | .removed text => '-' :: text.toList
  | .added text => '+' :: text.toList
  | .context text => ' ' :: text.toList

/-- The header of a hunk. -/
def Anchor.render : Anchor → List Char
  | .none => "@@".toList
  | .header anchor => "@@ ".toList ++ anchor.toList
  | .literal anchor => "@@ in: ".toList ++ anchor.toList

/-- A hunk. -/
def HunkText.render (h : HunkText) : List (List Char) := h.anchor.render :: h.lines.map HunkLine.render

/-- A file operation. -/
def Operation.render : Operation → List (List Char)
  | .add path contents => ("*** Add File: ".toList ++ path.toList) :: contents.map fun l => '+' :: l.toList
  | .update path moveTo hunks =>
    ("*** Update File: ".toList ++ path.toList) ::
      ((moveTo.toList.map fun target => "*** Move to: ".toList ++ target.toList) ++ hunks.flatMap HunkText.render)
  | .delete path => ["*** Delete File: ".toList ++ path.toList]

/-- An envelope. -/
def envelope (ops : List Operation) : List Char :=
  endWith .lf (beginMarker :: ops.flatMap Operation.render) ++ endMarker

/-! ## What can be rendered -/

/-- A text without white space around it and without line breaks. -/
def Trimmed (s : String) : Prop := stripChars s.toList = s.toList ∧ Plain s.toList

instance (s : String) : Decidable (Trimmed s) := inferInstanceAs (Decidable (_ ∧ _))

/-- The text of a line. -/
def HunkLine.text : HunkLine → String
  | .removed text => text
  | .added text => text
  | .context text => text

/-- An anchor is not empty; a header is none that reads as a literal anchor. -/
def Anchor.Renderable : Anchor → Prop
  | .none => True
  | .header anchor => Trimmed anchor ∧ anchor ≠ "" ∧ ¬ "in:".toList <+: anchor.toList
  | .literal anchor => Trimmed anchor ∧ anchor ≠ ""

/-- A path is trimmed, a line is plain, and an update changes something or moves. -/
def Operation.Renderable : Operation → Prop
  | .add path contents => Trimmed path ∧ ∀ l ∈ contents, Plain l.toList
  | .update path moveTo hunks =>
    Trimmed path ∧ (∀ target ∈ moveTo, Trimmed target) ∧
      (∀ h ∈ hunks, h.anchor.Renderable ∧ ∀ l ∈ h.lines, Plain l.text.toList) ∧
      (moveTo.isSome = true ∨ ∃ h ∈ hunks, h.chunk.changing = true)
  | .delete path => Trimmed path

/-- Text before an envelope, on lines of its own. -/
structure Before (s : List Char) : Prop where
  line : s = [] ∨ s.getLast? = some '\n'
  marker : ¬ beginMarker <:+: s

/-- Text behind an envelope, on lines of its own. -/
structure Behind (s : List Char) : Prop where
  line : s = [] ∨ s.head? = some '\n'
  marker : ¬ endMarker <:+: s

/-! ## The lines of an operation -/

section
variable {q : List Char → String} {s : Parsing} {p : FilePatch} {c : Chunk} {h : HunkText} {op : Operation}
  {path : String} {l : HunkLine} {lines : List HunkLine} {x : Char} {text : List Char}

/-- A trimmed path is read as it is. -/
lemma Trimmed.ofList (h : Trimmed path) : String.ofList (stripChars path.toList) = path := by
  rw [h.1, String.ofList_toList]

/-- What follows a marker. -/
lemma behind_append (pre : String) (t : List Char) : behind pre (pre.toList ++ t) = some t := by
  rw [behind, if_pos (by simp), List.drop_left]

/-- A line of payload is no header. -/
lemma behind_payload {pre : String} (h : pre.toList.head? = some x) {y : Char} (ne : x ≠ y) :
    behind pre (y :: text) = none := by
  unfold behind
  cases e : pre.toList with
  | nil =>
    rw [e] at h
    cases h
  | cons z t =>
    rw [e] at h
    cases h
    simp [List.isPrefixOf, ne]

/-- The lines of payload. -/
def IsPayload (x : Char) : Prop := x = '+' ∨ x = '-' ∨ x = ' '

/-- A payload is no header. -/
lemma IsPayload.ne (h : IsPayload x) : '*' ≠ x ∧ '@' ≠ x := by
  rcases h with rfl | rfl | rfl
  · decide
  · decide
  · decide

/-- A line of payload begins with no header. -/
lemma IsPayload.headers (h : IsPayload x) (text : List Char) :
    (behind "*** Add File: " (x :: text) = none ∧ behind "*** Update File: " (x :: text) = none ∧
      behind "*** Delete File: " (x :: text) = none) ∧ behind "*** Move to: " (x :: text) = none ∧
      behind "@@ in:" (x :: text) = none ∧ behind "@@" (x :: text) = none := by
  obtain ⟨star, at'⟩ := h.ne
  exact ⟨⟨behind_payload rfl star, behind_payload rfl star, behind_payload rfl star⟩, behind_payload rfl star,
    behind_payload rfl at', behind_payload rfl at'⟩

/-- A line of content. -/
lemma Parsing.step_content (current : s.current = some p) (kind : p.kind = .add) :
    s.step q ('+' :: text) =
      .ok { s with current := some { p with contents := p.contents ++ [.ofList text] } } := by
  have plus : IsPayload '+' := .inl rfl
  obtain ⟨⟨add, update, delete⟩, move, literal, header⟩ := plus.headers text
  simp only [Parsing.step, add, update, delete, current, Parsing.body, move, literal, header, kind]
  rfl

/-- A line of a hunk. -/
lemma Parsing.step_hunkLine (h : IsPayload x) (current : s.current = some p) (kind : p.kind = .update)
    (chunk : s.chunk = some c) :
    s.step q (x :: text) = .ok { s with chunk := some (c.line (x :: text)) } := by
  obtain ⟨⟨add, update, delete⟩, move, literal, header⟩ := h.headers text
  simp only [Parsing.step, add, update, delete, current, Parsing.body, move, literal, header, kind, chunk]

/-- Lines in a row. -/
lemma Parsing.run_append {xs ys : List (List Char)} :
    s.run q (xs ++ ys) = (s.run q xs).bind fun s => s.run q ys := by
  induction xs generalizing s with
  | nil => rfl
  | cons x xs ih =>
    rw [List.cons_append, Parsing.run, Parsing.run]
    cases s.step q x with
    | error e => rfl
    | ok s' => exact ih

/-- One line more. -/
lemma Parsing.run_cons {xs : List (List Char)} {s' : Parsing} (h : s.step q text = .ok s') :
    s.run q (text :: xs) = s'.run q xs := by
  rw [Parsing.run, h]
  rfl

/-- The contents of a new file. -/
lemma Parsing.run_contents (contents : List String) (current : s.current = some p) (kind : p.kind = .add) :
    s.run q (contents.map fun l => '+' :: l.toList) =
      .ok { s with current := some { p with contents := p.contents ++ contents } } := by
  induction contents generalizing s p with
  | nil =>
    rw [List.append_nil, ← current]
    rfl
  | cons l contents ih =>
    rw [List.map_cons, Parsing.run_cons (Parsing.step_content current kind),
      ih (p := { p with contents := p.contents ++ [.ofList l.toList] }) rfl kind, String.ofList_toList]
    simp only [List.append_assoc, List.singleton_append]

/-- A chunk with some lines more. -/
def Chunk.extend (c : Chunk) (lines : List HunkLine) : Chunk :=
  { c with
    old := c.old ++ lines.filterMap HunkLine.old
    new := c.new ++ lines.filterMap HunkLine.new
    rawOld := c.rawOld ++ lines.filterMap HunkLine.rawOld
    rawNew := c.rawNew ++ lines.filterMap HunkLine.rawNew
    contextPairs := c.contextPairs ++ Patch.contextPairs c.old.length c.new.length lines }

/-- No lines. -/
lemma Chunk.extend_nil : c.extend [] = c := by
  simp [Chunk.extend, Patch.contextPairs]

/-- One line more. -/
lemma Chunk.extend_cons : (c.line l.render).extend lines = c.extend (l :: lines) := by
  cases l with
  | context text =>
    simp [Chunk.extend, HunkLine.render, Chunk.line, Chunk.pushContext, Patch.contextPairs, HunkLine.old, HunkLine.new,
      HunkLine.rawOld, HunkLine.rawNew]
  | _ =>
    simp [Chunk.extend, HunkLine.render, Chunk.line, Patch.contextPairs, HunkLine.old, HunkLine.new, HunkLine.rawOld,
      HunkLine.rawNew, List.filterMap_cons]

/-- A line begins with its sign. -/
lemma HunkLine.render_payload : ∃ x t, l.render = x :: t ∧ IsPayload x := by
  cases l with
  | removed text => exact ⟨_, _, rfl, .inr (.inl rfl)⟩
  | added text => exact ⟨_, _, rfl, .inl rfl⟩
  | context text => exact ⟨_, _, rfl, .inr (.inr rfl)⟩

/-- The lines of a hunk. -/
lemma Parsing.run_hunkLines (current : s.current = some p) (kind : p.kind = .update) (chunk : s.chunk = some c) :
    s.run q (lines.map HunkLine.render) = .ok { s with chunk := some (c.extend lines) } := by
  induction lines generalizing s c with
  | nil =>
    rw [Chunk.extend_nil, ← chunk]
    rfl
  | cons l lines ih =>
    obtain ⟨x, t, e, payload⟩ := HunkLine.render_payload (l := l)
    rw [List.map_cons, e, Parsing.run_cons (Parsing.step_hunkLine payload current kind chunk), ← e,
      ih (by exact current) rfl, Chunk.extend_cons]

/-- The chunk a header begins. -/
def Anchor.chunk (a : Anchor) : Chunk := HunkText.chunk { anchor := a }

/-- A hunk is its anchor and lines. -/
lemma HunkText.chunk_eq : h.anchor.chunk.extend h.lines = h.chunk := by
  simp [Chunk.extend, Anchor.chunk, HunkText.chunk, Patch.contextPairs]

/-- White space in front is stripped. -/
lemma stripChars_cons (h : pyIsSpace x = true) : stripChars (x :: text) = stripChars text := by
  unfold stripChars
  rw [List.reverse_cons, List.dropWhile_append]
  cases e : text.reverse.dropWhile pyIsSpace with
  | nil => simp [h]
  | cons y t => simp [h]

/-- The header of a hunk. -/
lemma Parsing.step_anchor {a : Anchor} (ok : a.Renderable) (current : s.current = some p) :
    s.step q a.render = .ok { s.finishChunk with chunk := some a.chunk } := by
  have star : ∀ t, behind "*** Add File: " ('@' :: t) = none ∧ behind "*** Update File: " ('@' :: t) = none ∧
      behind "*** Delete File: " ('@' :: t) = none ∧ behind "*** Move to: " ('@' :: t) = none := by
    intro t
    have ne : '*' ≠ '@' := by decide
    exact ⟨behind_payload rfl ne, behind_payload rfl ne, behind_payload rfl ne, behind_payload rfl ne⟩
  have step : ∀ t, s.step q ('@' :: t) = s.body q p ('@' :: t) := by
    intro t
    obtain ⟨add, update, delete, -⟩ := star t
    simp only [Parsing.step, add, update, delete, current]
  cases a with
  | none =>
    have literal : behind "@@ in:" ['@', '@'] = none := by decide
    have header : behind "@@" ['@', '@'] = some [] := by decide
    show s.step q ('@' :: ['@']) = _
    rw [step]
    simp only [Parsing.body, (star ['@']).2.2.2, literal, header]
    rfl
  | header anchor =>
    obtain ⟨trimmed, nonempty, other⟩ := ok
    have literal : behind "@@ in:" ('@' :: '@' :: ' ' :: anchor.toList) = none := by
      have e : "@@ in:".toList = ['@', '@', ' '] ++ "in:".toList := by decide
      unfold behind
      rw [e, if_neg]
      rw [List.isPrefixOf_iff_prefix]
      exact fun h => other ((List.prefix_append_right_inj ['@', '@', ' ']).mp h)
    have header : behind "@@" ('@' :: '@' :: ' ' :: anchor.toList) = some (' ' :: anchor.toList) :=
      behind_append "@@" _
    have some' : anchor.toList ≠ [] := fun e => nonempty (String.toList_inj.mp e)
    show s.step q ('@' :: '@' :: ' ' :: anchor.toList) = _
    rw [step]
    simp only [Parsing.body, (star _).2.2.2, literal, header, List.head?_cons, if_true, List.tail_cons, trimmed.1,
      if_neg some', String.ofList_toList]
    rfl
  | literal anchor =>
    obtain ⟨trimmed, nonempty⟩ := ok
    have literal : behind "@@ in:" ('@' :: '@' :: ' ' :: 'i' :: 'n' :: ':' :: ' ' :: anchor.toList) =
        some (' ' :: anchor.toList) := behind_append "@@ in:" _
    have some' : anchor.toList ≠ [] := fun e => nonempty (String.toList_inj.mp e)
    show s.step q ('@' :: '@' :: ' ' :: 'i' :: 'n' :: ':' :: ' ' :: anchor.toList) = _
    rw [step]
    simp only [Parsing.body, (star _).2.2.2, literal, stripChars_cons (by decide : pyIsSpace ' ' = true), trimmed.1,
      if_neg some', String.ofList_toList]
    rfl

/-- The hunks of an update. -/
lemma Parsing.run_hunks {hunks : List HunkText} (ok : ∀ h ∈ hunks, h.anchor.Renderable) (current : s.current = some p)
    (kind : p.kind = .update) :
    ∃ s' p', s.run q (hunks.flatMap HunkText.render) = .ok s' ∧ s'.current = some p' ∧
      s'.finishChunk = { s.finishChunk with
        current := some { p with chunks := p.chunks ++ s.chunk.toList ++ hunks.map HunkText.chunk } } := by
  induction hunks generalizing s p with
  | nil =>
    refine ⟨s, p, rfl, current, ?_⟩
    obtain ⟨done, _, chunk⟩ := s
    cases current
    cases chunk with
    | none => simp [Parsing.finishChunk]
    | some c => simp [Parsing.finishChunk]
  | cons h hunks ih =>
    have header := Parsing.step_anchor (q := q) (ok h List.mem_cons_self) current
    -- the chunk before is finished by the header
    obtain ⟨p₁, finished, update⟩ : ∃ p₁, s.finishChunk.current = some p₁ ∧
        p₁ = { p with chunks := p.chunks ++ s.chunk.toList } := by
      cases e : s.chunk with
      | none => exact ⟨p, by simp [Parsing.finishChunk, e, current], by simp⟩
      | some c => exact ⟨_, by simp [Parsing.finishChunk, e, current], rfl⟩
    have lines : Parsing.run q { s.finishChunk with chunk := some h.anchor.chunk } (h.lines.map HunkLine.render) = _ :=
      Parsing.run_hunkLines finished (by rw [update]; exact kind) rfl
    rw [HunkText.chunk_eq] at lines
    obtain ⟨s', p', run, last, patch⟩ := ih (s := { s.finishChunk with chunk := some h.chunk })
      (fun k hk => ok k (List.mem_cons_of_mem h hk)) finished (by rw [update]; exact kind)
    refine ⟨s', p', ?_, last, ?_⟩
    · rw [List.flatMap_cons, HunkText.render, List.cons_append, Parsing.run_cons header, Parsing.run_append, lines]
      exact run
    · rw [patch, update]
      cases e : s.chunk with
      | none => simp [Parsing.finishChunk, e]
      | some c => simp [Parsing.finishChunk, e]

/-! ## Operations and envelopes -/

/-- A header finishes the operation before. -/
lemma Parsing.step_header (trimmed : Trimmed path) :
    s.step q ("*** Add File: ".toList ++ path.toList) =
        .ok { done := s.finishChunk.patches, current := some { kind := .add, path } } ∧
      s.step q ("*** Update File: ".toList ++ path.toList) =
        .ok { done := s.finishChunk.patches, current := some { kind := .update, path } } ∧
      s.step q ("*** Delete File: ".toList ++ path.toList) =
        .ok { done := s.finishChunk.patches, current := some { kind := .delete, path } } := by
  have addUpdate : behind "*** Add File: " ("*** Update File: ".toList ++ path.toList) = none := rfl
  have addDelete : behind "*** Add File: " ("*** Delete File: ".toList ++ path.toList) = none := rfl
  have updateDelete : behind "*** Update File: " ("*** Delete File: ".toList ++ path.toList) = none := rfl
  refine ⟨?_, ?_, ?_⟩
  · simp only [Parsing.step, behind_append, Parsing.begin, trimmed.ofList]
  · simp only [Parsing.step, addUpdate, behind_append, Parsing.begin, trimmed.ofList]
  · simp only [Parsing.step, addDelete, updateDelete, behind_append, Parsing.begin, trimmed.ofList]

/-- The line of a move. -/
lemma Parsing.step_move {target : String} (trimmed : Trimmed target) (current : s.current = some p)
    (kind : p.kind = .update) : s.step q ("*** Move to: ".toList ++ target.toList) =
      .ok { s with current := some { p with moveTo := some target } } := by
  have add : behind "*** Add File: " ("*** Move to: ".toList ++ target.toList) = none := rfl
  have update : behind "*** Update File: " ("*** Move to: ".toList ++ target.toList) = none := rfl
  have delete : behind "*** Delete File: " ("*** Move to: ".toList ++ target.toList) = none := rfl
  simp only [Parsing.step, add, update, delete, current, Parsing.body, behind_append, kind, trimmed.ofList]
  rfl

/-- The lines of an operation add its patch. -/
lemma Parsing.run_operation (ok : op.Renderable) :
    ∃ s', s.run q op.render = .ok s' ∧ s'.finishChunk.patches = s.finishChunk.patches ++ [op.patch] := by
  cases op with
  | add path contents =>
    obtain ⟨trimmed, -⟩ := ok
    refine ⟨{ done := s.finishChunk.patches, current := some { kind := .add, path, contents } }, ?_, rfl⟩
    rw [Operation.render, Parsing.run_cons (Parsing.step_header trimmed).1, Parsing.run_contents contents rfl rfl,
      List.nil_append]
  | delete path =>
    refine ⟨{ done := s.finishChunk.patches, current := some { kind := .delete, path } }, ?_, rfl⟩
    rw [Operation.render, Parsing.run_cons (Parsing.step_header ok).2.2]
    rfl
  | update path moveTo hunks =>
    obtain ⟨trimmed, move, each, -⟩ := ok
    have run₁ : s.run q (("*** Update File: ".toList ++ path.toList) ::
          (moveTo.toList.map fun target => "*** Move to: ".toList ++ target.toList)) =
        .ok { done := s.finishChunk.patches, current := some { kind := .update, path, moveTo } } := by
      cases moveTo with
      | none =>
        rw [Parsing.run_cons (Parsing.step_header trimmed).2.1]
        rfl
      | some target =>
        rw [Parsing.run_cons (Parsing.step_header trimmed).2.1, Option.toList_some, List.map_singleton,
          Parsing.run_cons (Parsing.step_move (move target rfl) rfl rfl)]
        rfl
    obtain ⟨s₂, p', run₂, -, finished⟩ := Parsing.run_hunks (q := q)
      (s := { done := s.finishChunk.patches, current := some { kind := .update, path, moveTo } })
      (fun h hh => (each h hh).1) rfl rfl
    refine ⟨s₂, ?_, ?_⟩
    · rw [Operation.render, ← List.cons_append, Parsing.run_append, run₁]
      exact run₂
    · rw [finished]
      simp [Parsing.patches, Parsing.finishChunk, Operation.patch]

/-- The lines of the operations add their patches. -/
lemma Parsing.run_operations {ops : List Operation} (ok : ∀ op ∈ ops, op.Renderable) :
    ∃ s', s.run q (ops.flatMap Operation.render) = .ok s' ∧
      s'.finishChunk.patches = s.finishChunk.patches ++ ops.map Operation.patch := by
  induction ops generalizing s with
  | nil => exact ⟨s, rfl, (List.append_nil _).symm⟩
  | cons op ops ih =>
    obtain ⟨s₁, run₁, patches₁⟩ := Parsing.run_operation (q := q) (s := s) (ok op List.mem_cons_self)
    obtain ⟨s₂, run₂, patches₂⟩ := ih (s := s₁) fun op h => ok op (List.mem_cons_of_mem _ h)
    refine ⟨s₂, ?_, ?_⟩
    · rw [List.flatMap_cons, Parsing.run_append, run₁]
      exact run₂
    · rw [patches₂, patches₁, List.map_cons, List.append_assoc, List.singleton_append]

/-- An operation changes something. -/
lemma rejectNoOpUpdate_patch (ok : op.Renderable) : rejectNoOpUpdate op.patch = .ok () := by
  unfold rejectNoOpUpdate
  rw [if_pos]
  cases op with
  | add path contents => exact .inl (by simp [Operation.patch])
  | delete path => exact .inl (by simp [Operation.patch])
  | update path moveTo hunks =>
    cases ok.2.2.2 with
    | inl move => exact .inr (.inl move)
    | inr change =>
      obtain ⟨h, hh, changes⟩ := change
      refine .inr (.inr ?_)
      rw [List.any_eq_true]
      exact ⟨h.chunk, List.mem_map_of_mem hh, changes⟩

/-- No section is empty. -/
lemma forM_rejectNoOpUpdate {ops : List Operation} (ok : ∀ op ∈ ops, op.Renderable) :
    (ops.map Operation.patch).forM rejectNoOpUpdate = .ok () := by
  induction ops with
  | nil => rfl
  | cons op ops ih =>
    show (rejectNoOpUpdate op.patch).bind (fun _ => (ops.map Operation.patch).forM rejectNoOpUpdate) = _
    rw [rejectNoOpUpdate_patch (ok op List.mem_cons_self)]
    exact ih fun op h => ok op (List.mem_cons_of_mem _ h)

/-- An anchor is one line. -/
lemma Anchor.render_plain {a : Anchor} (ok : a.Renderable) : Plain a.render := by
  cases a with
  | none => exact ⟨by decide, by decide⟩
  | header anchor =>
    have pre : Plain "@@ ".toList := ⟨by decide, by decide⟩
    exact pre.append ok.1.2
  | literal anchor =>
    have pre : Plain "@@ in: ".toList := ⟨by decide, by decide⟩
    exact pre.append ok.1.2

/-- A line is one line. -/
lemma HunkLine.render_plain (plain : Plain l.text.toList) : Plain l.render := by
  have marked : ∀ x, x = '+' ∨ x = '-' ∨ x = ' ' → Plain [x] := by
    rintro x (rfl | rfl | rfl)
    · exact ⟨by decide, by decide⟩
    · exact ⟨by decide, by decide⟩
    · exact ⟨by decide, by decide⟩
  cases l with
  | removed text => exact (marked '-' (.inr (.inl rfl))).append plain
  | added text => exact (marked '+' (.inl rfl)).append plain
  | context text => exact (marked ' ' (.inr (.inr rfl))).append plain

/-- The lines of an operation hold no line breaks. -/
lemma Operation.render_plain (ok : op.Renderable) : ∀ k ∈ op.render, Plain k := by
  have add : Plain "*** Add File: ".toList := ⟨by decide, by decide⟩
  have update : Plain "*** Update File: ".toList := ⟨by decide, by decide⟩
  have delete : Plain "*** Delete File: ".toList := ⟨by decide, by decide⟩
  have move : Plain "*** Move to: ".toList := ⟨by decide, by decide⟩
  intro k hk
  cases op with
  | add path contents =>
    cases List.mem_cons.mp hk with
    | inl e => exact e ▸ add.append ok.1.2
    | inr hk =>
      obtain ⟨t, ht, rfl⟩ := List.mem_map.mp hk
      exact HunkLine.render_plain (l := .added t) (ok.2 t ht)
  | delete path => exact List.mem_singleton.mp hk ▸ delete.append ok.2
  | update path moveTo hunks =>
    obtain ⟨trimmed, moved, each, -⟩ := ok
    cases List.mem_cons.mp hk with
    | inl e => exact e ▸ update.append trimmed.2
    | inr hk =>
      cases List.mem_append.mp hk with
      | inl hk =>
        obtain ⟨target, ht, rfl⟩ := List.mem_map.mp hk
        exact move.append (moved target (Option.mem_toList.mp ht)).2
      | inr hk =>
        obtain ⟨h, hh, hk⟩ := List.mem_flatMap.mp hk
        cases List.mem_cons.mp hk with
        | inl e => exact e ▸ Anchor.render_plain (each h hh).1
        | inr hk =>
          obtain ⟨t, ht, rfl⟩ := List.mem_map.mp hk
          exact HunkLine.render_plain ((each h hh).2 t ht)

end

/-! ## What stands around an envelope -/

section
variable {s b a e text pattern : List Char} {p : Char → Bool} {x : Char} {ops : List Operation}

/-- An end of what is before. -/
lemma Before.suffix (h : Before s) (suf : text <:+ s) : Before text where
  line := by
    obtain ⟨t, rfl⟩ := suf
    cases text with
    | nil => exact .inl rfl
    | cons y text =>
      right
      cases h.line with
      | inl e => simp at e
      | inr last => rwa [List.getLast?_append_of_ne_nil _ (List.cons_ne_nil y text)] at last
  marker inf := h.marker (inf.trans suf.isInfix)

/-- A front of what is behind. -/
lemma Behind.prefix' (h : Behind s) (pre : text <+: s) : Behind text where
  line := by
    obtain ⟨t, rfl⟩ := pre
    cases text with
    | nil => exact .inl rfl
    | cons y text =>
      right
      cases h.line with
      | inl e => simp at e
      | inr first => exact first
  marker inf := h.marker (inf.trans pre.isInfix)

/-- Dropping in front of a character that stays drops from what is before it. -/
lemma dropWhile_before (stays : p x = false) : ∃ b', (b ++ x :: s).dropWhile p = b' ++ x :: s ∧ b' <:+ b := by
  refine ⟨b.dropWhile p, ?_, List.dropWhile_suffix p⟩
  rw [List.dropWhile_append]
  split
  · next empty =>
    rw [List.isEmpty_iff] at empty
    rw [empty, List.dropWhile_cons, stays]
    rfl
  · rfl

/-- Stripping takes from what is around a text without white space at its ends. -/
lemma stripChars_around {y : Char} {mid : List Char} (first : e = x :: mid) (last : ∃ init, e = init ++ [y])
    (hx : pyIsSpace x = false) (hy : pyIsSpace y = false) :
    ∃ b' a', stripChars (b ++ (e ++ a)) = b' ++ (e ++ a') ∧ b' <:+ b ∧ a' <+: a := by
  obtain ⟨init, snoc⟩ := last
  obtain ⟨r, dropped, suf⟩ := dropWhile_before (b := a.reverse) (s := (b ++ init).reverse) hy
  have right : (b ++ (e ++ a)).reverse = a.reverse ++ y :: (b ++ init).reverse := by
    rw [snoc]
    simp
  have kept : ((b ++ (e ++ a)).reverse.dropWhile pyIsSpace).reverse = b ++ (e ++ r.reverse) := by
    rw [right, dropped, snoc]
    simp
  obtain ⟨b', dropped', suf'⟩ := dropWhile_before (b := b) (s := mid ++ r.reverse) hx
  refine ⟨b', r.reverse, ?_, suf', ?_⟩
  · rw [stripChars, kept, first]
    exact dropped'
  · rw [← List.reverse_reverse a, List.reverse_prefix]
    exact suf

/-! ### The markers -/

/-- The first occurrence. -/
lemma find_append (here : pattern <+: e) (before : ∀ t, t <:+ b → t ≠ [] → ¬ pattern <+: t ++ e) :
    find pattern (b ++ e) = some b.length := by
  induction b with
  | nil =>
    cases e with
    | nil =>
      rw [List.prefix_nil] at here
      simp [find, here]
    | cons y e => simp [find, here]
  | cons y b ih =>
    have not : pattern.isPrefixOf (y :: (b ++ e)) = false := by
      rw [Bool.eq_false_iff, ne_eq, List.isPrefixOf_iff_prefix]
      exact before (y :: b) (List.suffix_refl _) (List.cons_ne_nil y b)
    rw [List.cons_append, find, not, if_neg Bool.false_ne_true,
      ih fun t suf => before t (suf.trans (List.suffix_cons y b))]
    rfl

/-- No occurrence. -/
lemma rfind_none (nonempty : pattern ≠ []) (none' : ∀ t, t <:+ s → ¬ pattern <+: t) : rfind pattern s = none := by
  induction s with
  | nil => simp [rfind, nonempty]
  | cons y s ih =>
    have not : pattern.isPrefixOf (y :: s) = false := by
      rw [Bool.eq_false_iff, ne_eq, List.isPrefixOf_iff_prefix]
      exact none' _ (List.suffix_refl _)
    rw [rfind, ih fun t suf => none' t (suf.trans (List.suffix_cons y s)), not]
    rfl

/-- The last occurrence. -/
lemma rfind_append (nonempty : pattern ≠ [])
    (later : ∀ t, t <:+ pattern ++ a → t ≠ pattern ++ a → ¬ pattern <+: t) :
    rfind pattern (b ++ (pattern ++ a)) = some b.length := by
  induction b with
  | nil =>
    cases e : pattern with
    | nil => exact absurd e nonempty
    | cons y rest =>
      rw [e] at later nonempty
      have none' : rfind (y :: rest) (rest ++ a) = none := by
        refine rfind_none nonempty fun t suf => later t (suf.trans (List.suffix_cons y _)) ?_
        rintro rfl
        have := suf.length_le
        simp at this
      rw [List.nil_append, List.cons_append, rfind, none']
      simp
  | cons y b ih =>
    rw [List.cons_append, rfind, ih]
    rfl

/-- A marker begins before an envelope only where what stands before it holds the marker. -/
lemma Before.no_marker (h : Before b) : ∀ t, t <:+ b → t ≠ [] → ¬ beginMarker <+: t ++ e := by
  intro t suf nonempty pre
  have h' := h.suffix suf
  have inside : beginMarker <+: t ∨ t <+: beginMarker := List.prefix_or_prefix_of_prefix pre (List.prefix_append t e)
  cases inside with
  | inl inside => exact h'.marker inside.isInfix
  | inr cut =>
    have last := h'.line.resolve_left nonempty
    have lf : '\n' ∈ beginMarker := cut.subset (List.mem_of_getLast? last)
    revert lf
    decide

/-- A marker stands behind the last line of an envelope only where what stands behind it holds the marker. -/
lemma Behind.no_marker (h : Behind a) : ∀ t, t <:+ endMarker ++ a → t ≠ endMarker ++ a → ¬ endMarker <+: t := by
  intro t suf ne pre
  cases List.suffix_or_suffix_of_suffix suf (List.suffix_append endMarker a) with
  | inl inside => exact h.marker (pre.isInfix.trans inside.isInfix)
  | inr over' =>
    obtain ⟨q, rfl⟩ := over'
    have tail : q <:+ endMarker := List.suffix_append_self_iff.mp suf
    cases List.prefix_or_prefix_of_prefix pre (List.prefix_append q a) with
    | inl all =>
      have e : q = endMarker := tail.eq_of_length_le all.length_le
      exact ne (by rw [e])
    | inr cut =>
      obtain ⟨z, e⟩ := cut
      rw [← e] at pre
      have front : z <+: a := (List.prefix_append_right_inj q).mp pre
      cases z with
      | nil =>
        rw [List.append_nil] at e
        exact ne (by rw [e])
      | cons y z =>
        obtain ⟨z', rfl⟩ := front
        have first : some y = some '\n' := h.line.resolve_left (by simp)
        have lf : '\n' ∈ endMarker := by
          rw [← e, ← Option.some.inj first]
          simp
        revert lf
        decide

/-- What stands between the markers is the envelope. -/
lemma extract_envelope (hb : Before b) (ha : Behind a) : extract (b ++ (envelope ops ++ a)) = envelope ops := by
  have begins : beginMarker <+: envelope ops ++ a := by
    rw [envelope, endWith, List.flatMap_cons, List.append_assoc, List.append_assoc, List.append_assoc]
    exact List.prefix_append _ _
  have ends : b ++ (envelope ops ++ a) =
      (b ++ endWith .lf (beginMarker :: ops.flatMap Operation.render)) ++ (endMarker ++ a) := by
    simp [envelope]
  have first : find beginMarker (b ++ (envelope ops ++ a)) = some b.length := find_append begins hb.no_marker
  have last : rfind endMarker (b ++ (envelope ops ++ a)) =
      some (b ++ endWith .lf (beginMarker :: ops.flatMap Operation.render)).length := by
    rw [ends]
    exact rfind_append (by decide) ha.no_marker
  have cut : (b ++ (envelope ops ++ a)).take
      ((b ++ endWith .lf (beginMarker :: ops.flatMap Operation.render)).length + endMarker.length) =
        b ++ envelope ops := by
    have whole : b ++ (envelope ops ++ a) = (b ++ envelope ops) ++ a := (List.append_assoc ..).symm
    have len : (b ++ endWith .lf (beginMarker :: ops.flatMap Operation.render)).length + endMarker.length =
        (b ++ envelope ops).length := by
      rw [← List.length_append, List.append_assoc]
      rfl
    rw [whole, len, List.take_left]
  simp only [extract, first, last, List.length_append, Nat.le_add_right, if_true]
  rw [← List.length_append, cut, List.drop_left]

/-! ### The fence -/

/-- Split at one LF. -/
lemma splitOn_lf : (s ++ '\n' :: text).splitOn '\n' = s.splitOn '\n' ++ text.splitOn '\n' :=
  List.splitOn_append_cons_self s text

/-- The first line, when it is dropped, stands before the envelope. -/
lemma drop_first {c : Bool} (hb : Before b) (nonempty : b ≠ []) :
    ∃ b', b' <:+ b ∧ (if c then ((b ++ e).splitOn '\n').tail else (b ++ e).splitOn '\n') = (b' ++ e).splitOn '\n' := by
  cases c with
  | false => exact ⟨b, List.suffix_refl b, rfl⟩
  | true =>
    have lf : '\n' ∈ b := List.mem_of_getLast? (hb.line.resolve_left nonempty)
    obtain ⟨first, b', rfl, fresh⟩ := List.eq_append_cons_of_mem lf
    refine ⟨b', (List.suffix_cons '\n' b').trans (List.suffix_append first _), ?_⟩
    rw [if_pos rfl, List.append_assoc, List.cons_append, splitOn_lf, List.splitOn_eq_singleton fresh]
    rfl

/-- The last line, when it is dropped, stands behind the envelope. -/
lemma drop_last {c : List Char → Bool} (init : List Char) (ha : Behind a) (stays : c endMarker = false) :
    ∃ a', a' <+: a ∧ (if ((init ++ '\n' :: (endMarker ++ a)).splitOn '\n').getLast?.any c then
        ((init ++ '\n' :: (endMarker ++ a)).splitOn '\n').dropLast
      else (init ++ '\n' :: (endMarker ++ a)).splitOn '\n') = (init ++ '\n' :: (endMarker ++ a')).splitOn '\n' := by
  cases ha.line with
  | inl empty =>
    refine ⟨[], List.nil_prefix, ?_⟩
    have single : endMarker.splitOn '\n' = [endMarker] := List.splitOn_eq_singleton (by decide)
    have last : (init ++ '\n' :: (endMarker ++ [])).splitOn '\n' = init.splitOn '\n' ++ [endMarker] := by
      rw [splitOn_lf, List.append_nil, single]
    rw [empty, last, List.getLast?_concat, Option.any_some, stays]
    rfl
  | inr first =>
    have lf : '\n' ∈ a.reverse := List.mem_reverse.mpr (List.mem_of_head? first)
    obtain ⟨last, rest, e, fresh⟩ := List.eq_append_cons_of_mem lf
    have cut : a = rest.reverse ++ '\n' :: last.reverse := by
      rw [← List.reverse_reverse a, e]
      simp
    split
    · refine ⟨rest.reverse, cut ▸ List.prefix_append _ _, ?_⟩
      have whole : init ++ '\n' :: (endMarker ++ a) =
          (init ++ '\n' :: (endMarker ++ rest.reverse)) ++ '\n' :: last.reverse := by
        rw [cut]
        simp
      rw [whole, splitOn_lf, List.splitOn_eq_singleton (fun h => fresh (List.mem_reverse.mp h)), List.dropLast_concat]
    · exact ⟨a, List.prefix_refl a, rfl⟩

/-- The text ends with LF. -/
lemma endWith_lf {ls : List (List Char)} (nonempty : ls ≠ []) : ∃ init, endWith .lf ls = init ++ ['\n'] := by
  cases List.eq_nil_or_concat ls with
  | inl e => exact absurd e nonempty
  | inr h =>
    obtain ⟨ks, k, rfl⟩ := h
    refine ⟨endWith .lf ks ++ k, ?_⟩
    rw [List.concat_eq_append, endWith_append]
    simp [endWith, LineEnd.text]

/-- Cleaning leaves the envelope, with a fence or text around it or without. -/
lemma cleanPatchText_envelope (hb : Before b) (ha : Behind a) :
    cleanPatchText (b ++ (envelope ops ++ a)) = envelope ops := by
  obtain ⟨init, close⟩ := endWith_lf (List.cons_ne_nil beginMarker (ops.flatMap Operation.render))
  have whole : envelope ops = init ++ '\n' :: endMarker := by
    rw [envelope, close, List.append_assoc]
    rfl
  have first : ∃ mid, envelope ops = '*' :: mid := ⟨_, rfl⟩
  have last : ∃ init, envelope ops = init ++ ['h'] := by
    refine ⟨init ++ '\n' :: endMarker.dropLast, ?_⟩
    rw [whole]
    simp only [List.append_assoc, List.cons_append]
    rfl
  have strips : ∀ b a, ∃ b' a', stripChars (b ++ (envelope ops ++ a)) = b' ++ (envelope ops ++ a') ∧ b' <:+ b ∧ a' <+: a := by
    intro b a
    obtain ⟨mid, first⟩ := first
    exact stripChars_around first last (by decide) (by decide)
  obtain ⟨b₁, a₁, stripped, suf, pre⟩ := strips b a
  have hb₁ := hb.suffix suf
  have ha₁ := ha.prefix' pre
  unfold cleanPatchText
  dsimp only
  rw [stripped]
  split
  · next fenced =>
    have nonempty : b₁ ≠ [] := by
      rintro rfl
      obtain ⟨mid, first⟩ := first
      have other : fence.isPrefixOf ('*' :: mid ++ a₁) = false := rfl
      rw [List.nil_append, first, other] at fenced
      cases fenced
    obtain ⟨b₂, suf₂, tail⟩ := drop_first (e := envelope ops ++ a₁)
      (c := ((b₁ ++ (envelope ops ++ a₁)).splitOn '\n').head?.any fence.isPrefixOf) hb₁ nonempty
    have shape : ∀ a, b₂ ++ (envelope ops ++ a) = (b₂ ++ init) ++ '\n' :: (endMarker ++ a) := by
      intro a
      rw [whole]
      simp
    obtain ⟨a₂, pre₂, cut⟩ := drop_last (c := fun l => fence.isPrefixOf (stripChars l)) (b₂ ++ init) ha₁
      (by decide)
    obtain ⟨b₃, a₃, stripped', suf₃, pre₃⟩ := strips b₂ a₂
    rw [← shape, ← shape] at cut
    rw [dropFence]
    simp only [tail, cut]
    rw [List.intercalate_splitOn, stripped']
    exact extract_envelope (hb₁.suffix (suf₃.trans suf₂)) (ha₁.prefix' (pre₃.trans pre₂))
  · exact extract_envelope hb₁ ha₁

end

/-! ## The round trip -/

section
variable {q : List Char → String} {ops : List Operation} {before behind' : List Char}

/-- The markers are trimmed. -/
lemma stripChars_marker : stripChars beginMarker = beginMarker ∧ stripChars endMarker = endMarker := by decide

/-- The parser gives back the operations of a rendered envelope. -/
theorem parse_rendered (nonempty : ops ≠ []) (ok : ∀ op ∈ ops, op.Renderable) (hb : Before before)
    (ha : Behind behind') :
    parsePatch q (.ofList (before ++ (envelope ops ++ behind'))) = .ok (ops.map Operation.patch) := by
  have plain : ∀ l ∈ beginMarker :: ops.flatMap Operation.render, Plain l := by
    intro l hl
    cases List.mem_cons.mp hl with
    | inl e =>
      rw [e]
      exact ⟨by decide, by decide⟩
    | inr hl =>
      obtain ⟨op, hop, hl⟩ := List.mem_flatMap.mp hl
      exact Operation.render_plain (ok op hop) l hl
  have marker : Plain endMarker := ⟨by decide, by decide⟩
  have lines : (normalize (envelope ops)).splitOn '\n' =
      beginMarker :: (ops.flatMap Operation.render ++ [endMarker]) := by
    rw [splitOn_normalize, envelope, linesOf_lines plain marker (.inl rfl), List.map_append, List.map_map,
      List.map_singleton]
    exact congrArg (· ++ [endMarker]) (List.map_id _)
  have last : (beginMarker :: (ops.flatMap Operation.render ++ [endMarker])).getLast? = some endMarker := by
    rw [← List.cons_append, List.getLast?_concat]
  have inner : (beginMarker :: (ops.flatMap Operation.render ++ [endMarker])).tail.dropLast =
      ops.flatMap Operation.render := by
    rw [List.tail_cons, List.dropLast_concat]
  obtain ⟨s, run, patches⟩ := Parsing.run_operations (q := q) (s := {}) ok
  have patches' : s.finishChunk.patches = ops.map Operation.patch := patches
  have some' : ops.map Operation.patch ≠ [] := fun e => nonempty (List.map_eq_nil_iff.mp e)
  have noEmpty : ¬ (some endMarker = some []) := by decide
  simp only [parsePatch, String.toList_ofList, cleanPatchText_envelope hb ha, lines, last, if_neg noEmpty,
    List.head?_cons, Option.any_some, stripChars_marker.1, stripChars_marker.2, decide_true, Bool.and_self, if_true,
    inner, run, Except.bind, patches', if_neg some', forM_rejectNoOpUpdate ok]
  rfl

/-- A line is added, scoped by a header. -/
def inScopeOf (anchor : String) : Operation := .update "f" none [{ anchor := .header anchor, lines := [.added "a"] }]

/-- It is renderable. -/
lemma inScopeOf_renderable : (inScopeOf "g").Renderable := by
  have trimmed : Trimmed "f" ∧ Trimmed "g" ∧ Plain "a".toList := by decide
  refine ⟨trimmed.1, by simp, ?_, .inr ⟨_, List.mem_singleton_self _, by decide⟩⟩
  intro h hh
  rw [List.mem_singleton.mp hh]
  refine ⟨⟨trimmed.2.1, by decide, by decide⟩, fun l hl => ?_⟩
  rw [List.mem_singleton.mp hl]
  exact trimmed.2.2

/-- The text before. -/
lemma before_fence : Before "Here it is:\n```patch\n".toList := ⟨.inr (by decide), by decide⟩

/-- The text behind. -/
lemma behind_fence : Behind "\n```\nDone.".toList := ⟨.inr (by decide), by decide⟩

/-- It is parsed back. -/
theorem parse_rendered_inScopeOf :
    parsePatch (fun _ => "") (.ofList ("Here it is:\n```patch\n".toList ++
      (envelope [inScopeOf "g"] ++ "\n```\nDone.".toList))) = .ok ([inScopeOf "g"].map Operation.patch) := by
  refine parse_rendered (by simp) (fun op h => ?_) before_fence behind_fence
  rw [List.mem_singleton.mp h]
  exact inScopeOf_renderable

/-- A header that reads as a literal anchor, a header with white space around it, and text that names the marker. -/
theorem parse_other :
    parsePatch (fun _ => "") (.ofList (envelope [inScopeOf "in: x"])) ≠ .ok ([inScopeOf "in: x"].map Operation.patch) ∧
      parsePatch (fun _ => "") (.ofList (envelope [inScopeOf " g"])) ≠ .ok ([inScopeOf " g"].map Operation.patch) ∧
      parsePatch (fun _ => "") (.ofList ("From *** Begin Patch on:\n".toList ++ envelope [inScopeOf "g"])) ≠
        .ok ([inScopeOf "g"].map Operation.patch) := by
  refine ⟨?_, ?_, ?_⟩
  · decide
  · decide
  · decide

end

/-! ## The chunks the parser gives -/

section
variable {q : List Char → String} {s t : Parsing} {c : Chunk} {line : List Char} {lines : List (List Char)}

/-- The chunks of a state. -/
structure Parsing.WellFormed (s : Parsing) : Prop where
  patches : ∀ p ∈ s.patches, ∀ c ∈ p.chunks, c.WellFormed
  chunk : ∀ c, s.chunk = some c → c.WellFormed

/-- A plain text. -/
lemma plain_ofList {l : List Char} (h : Plain l) : Plain (String.ofList l).toList := by
  rwa [String.toList_ofList]

/-- A context line more. -/
lemma Chunk.WellFormed.pushContext {text raw : List Char} (wf : c.WellFormed) (plain : Plain text) (plain' : Plain raw) :
    (c.pushContext text raw).WellFormed where
  rawOld := by simp [Chunk.pushContext, wf.rawOld]
  rawNew := by simp [Chunk.pushContext, wf.rawNew]
  pairs p hp := by
    have len : (c.pushContext text raw).old.length = c.old.length + 1 ∧
        (c.pushContext text raw).new.length = c.new.length + 1 := by simp [Chunk.pushContext]
    rw [len.1, len.2]
    cases List.mem_append.mp hp with
    | inl hp =>
      have := wf.pairs p hp
      omega
    | inr hp =>
      rw [List.mem_singleton.mp hp]
      exact ⟨Nat.lt_succ_self _, Nat.lt_succ_self _⟩
  distinct := by
    show ((c.contextPairs ++ [(c.old.length, c.new.length)]).map Prod.snd).Nodup
    rw [List.map_append, List.nodup_append]
    refine ⟨wf.distinct, by simp, ?_⟩
    intro j hj k hk
    obtain ⟨p, hp, rfl⟩ := List.mem_map.mp hj
    rw [List.map_singleton, List.mem_singleton] at hk
    rw [hk]
    exact (wf.pairs p hp).2.ne
  plain l hl := by
    cases hl with
    | inl hl =>
      cases List.mem_append.mp hl with
      | inl hl => exact wf.plain l (.inl hl)
      | inr hl => exact List.mem_singleton.mp hl ▸ plain_ofList plain
    | inr hl =>
      cases List.mem_append.mp hl with
      | inl hl => exact wf.plain l (.inr hl)
      | inr hl => exact List.mem_singleton.mp hl ▸ plain_ofList plain'

/-- A line of a hunk keeps the chunk well formed. -/
lemma Chunk.WellFormed.addLine (wf : c.WellFormed) (plain : Plain line) : (c.line line).WellFormed := by
  have tail : ∀ {x t}, line = x :: t → Plain t := fun e => plain.sublist (e ▸ List.sublist_cons_self _ _)
  unfold Chunk.line
  split
  · next text =>
    have text' := tail rfl
    refine ⟨wf.rawOld, by simp [wf.rawNew], fun p hp => ?_, wf.distinct, fun l hl => ?_⟩
    · exact ⟨(wf.pairs p hp).1, by rw [List.length_append]; exact Nat.lt_add_right _ (wf.pairs p hp).2⟩
    · cases hl with
      | inl hl =>
        cases List.mem_append.mp hl with
        | inl hl => exact wf.plain l (.inl hl)
        | inr hl => exact List.mem_singleton.mp hl ▸ plain_ofList text'
      | inr hl =>
        cases List.mem_append.mp hl with
        | inl hl => exact wf.plain l (.inr hl)
        | inr hl => exact List.mem_singleton.mp hl ▸ plain_ofList text'
  · refine ⟨by simp [wf.rawOld], wf.rawNew, fun p hp => ?_, wf.distinct, wf.plain⟩
    exact ⟨by rw [List.length_append]; exact Nat.lt_add_right _ (wf.pairs p hp).1, (wf.pairs p hp).2⟩
  · exact wf.pushContext (tail rfl) plain
  · exact wf.pushContext plain plain

/-- A chunk is finished. -/
lemma Parsing.WellFormed.finishChunk (wf : s.WellFormed) : s.finishChunk.WellFormed := by
  unfold Parsing.finishChunk
  cases e : s.chunk with
  | none => exact wf
  | some c =>
    refine ⟨fun p hp d hd => ?_, fun c h => by cases h⟩
    cases List.mem_append.mp hp with
    | inl hp => exact wf.patches p (List.mem_append_left _ hp) d hd
    | inr hp =>
      obtain ⟨q, hq, rfl⟩ := Option.map_eq_some_iff.mp (Option.mem_toList.mp hp)
      cases List.mem_append.mp hd with
      | inl hd => exact wf.patches q (List.mem_append_right _ (Option.mem_toList.mpr hq)) d hd
      | inr hd => exact List.mem_singleton.mp hd ▸ wf.chunk c e

/-- A header begins a patch without chunks. -/
lemma Parsing.WellFormed.begin (wf : s.WellFormed) {kind : PatchKind} : (s.begin kind line).WellFormed := by
  refine ⟨fun p hp c hc => ?_, fun c h => by cases h⟩
  cases List.mem_append.mp hp with
  | inl hp => exact wf.finishChunk.patches p hp c hc
  | inr hp =>
    rw [List.mem_singleton.mp hp] at hc
    cases hc

/-- The current patch keeps its chunks. -/
lemma Parsing.WellFormed.current {p q : FilePatch} (wf : s.WellFormed) (current : s.current = some p)
    (same : q.chunks = p.chunks) : Parsing.WellFormed { s with current := some q } := by
  refine ⟨fun r hr c hc => ?_, wf.chunk⟩
  cases List.mem_append.mp hr with
  | inl hr => exact wf.patches r (List.mem_append_left _ hr) c hc
  | inr hr =>
    rw [List.mem_singleton.mp hr, same] at hc
    exact wf.patches p (List.mem_append_right _ (Option.mem_toList.mpr current)) c hc

/-- A chunk is begun or extended. -/
lemma Parsing.WellFormed.setChunk (wf : s.WellFormed) (h : c.WellFormed) :
    Parsing.WellFormed { s with chunk := some c } :=
  ⟨wf.patches, fun _ e => Option.some.inj e ▸ h⟩

/-- An empty chunk. -/
lemma Chunk.wellFormed_empty {anchor : Option String} {literal : Bool} :
    Chunk.WellFormed { scopeAnchor := anchor, scopeIsLiteral := literal } :=
  ⟨rfl, rfl, fun _ h => absurd h List.not_mem_nil, List.nodup_nil, fun _ h => by simp at h⟩

/-- A line keeps the chunks well formed. -/
lemma Parsing.step_wellFormed (wf : s.WellFormed) (plain : Plain line) (h : s.step q line = .ok t) :
    t.WellFormed := by
  unfold Parsing.step at h
  split at h
  · cases h
    exact wf.begin
  · split at h
    · cases h
      exact wf.begin
    · split at h
      · cases h
        exact wf.begin
      · cases current : s.current with
        | none =>
          rw [current] at h
          cases h
        | some p =>
          simp only [current] at h
          unfold Parsing.body at h
          split at h
          · split at h
            · cases h
            · cases h
              exact wf.current current rfl
          · split at h
            · split at h
              · cases h
              · cases h
                exact wf.finishChunk.setChunk Chunk.wellFormed_empty
            · split at h
              · cases h
                exact wf.finishChunk.setChunk Chunk.wellFormed_empty
              · split at h
                · split at h
                  · cases h
                    exact wf.current current rfl
                  · split at h
                    · cases h
                    · cases h
                      exact wf.current current rfl
                · cases h
                · cases h
                · next chunk _ e =>
                  cases h
                  exact wf.setChunk ((wf.chunk chunk e).addLine plain)

/-- The chunks the parser gives are well formed. -/
theorem parsePatch_wellFormed {patchText : String} {patches : List FilePatch}
    (h : parsePatch q patchText = .ok patches) : ∀ p ∈ patches, ∀ c ∈ p.chunks, c.WellFormed := by
  have runs : ∀ {lines : List (List Char)} {s t : Parsing}, s.WellFormed → (∀ l ∈ lines, Plain l) →
      s.run q lines = .ok t → t.WellFormed := by
    intro lines
    induction lines with
    | nil =>
      intro s t wf _ h
      cases h
      exact wf
    | cons l lines ih =>
      intro s t wf plain h
      obtain ⟨s₁, h₁, h⟩ := bind_ok h
      exact ih (Parsing.step_wellFormed wf (plain l List.mem_cons_self) h₁)
        (fun k hk => plain k (List.mem_cons_of_mem l hk)) h
  have plain : ∀ l ∈ (normalize (cleanPatchText patchText.toList)).splitOn '\n', Plain l := by
    intro l hl
    rw [splitOn_normalize] at hl
    obtain ⟨p, hp, rfl⟩ := List.mem_map.mp hl
    exact plain_of_mem _ p hp
  unfold parsePatch at h
  dsimp only at h
  generalize (normalize (cleanPatchText patchText.toList)).splitOn '\n' = all at h plain
  have plain' : ∀ l ∈ (if all.getLast? = some [] then all.dropLast else all), Plain l := by
    intro l hl
    split at hl
    · exact plain l (List.mem_of_mem_dropLast hl)
    · exact plain l hl
  generalize (if all.getLast? = some [] then all.dropLast else all) = lines at h plain'
  split at h
  · obtain ⟨s, run, h⟩ := bind_ok h
    have wf : s.WellFormed := by
      refine runs ⟨fun p hp => absurd hp List.not_mem_nil, fun c h => ?_⟩ (fun l hl => plain' l ?_) run
      · cases h
      · exact List.mem_of_mem_tail (List.mem_of_mem_dropLast hl)
    split at h
    · cases h
    · obtain ⟨-, -, rfl⟩ := map_ok h
      exact wf.finishChunk.patches
  · cases h

end

end OpenAgentd.Patch
