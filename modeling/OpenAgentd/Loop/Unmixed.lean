import OpenAgentd.Loop.Assemble

/-!
# Calls that stay apart

The fragments of several tool calls come in any order (`Carries`). `bufferCall` gathers them by their index, so a
call is what the fragments of one slot say together (`buffer_get?`). The calls stay apart exactly when each has a
slot of its own (`unmixed_iff`): two calls that share an index, or leave it out, are run together.
-/

namespace OpenAgentd.Loop
open OpenAgentd.Lib

/-- A fragment, with the id of the call it belongs to. -/
structure Fragment where
  owner : String
  delta : ToolCallDelta

namespace ToolCallDelta

/-- The slot a fragment goes to. -/
def slot (tc : ToolCallDelta) : Int := tc.index.getD 0

/-- The id it announces. -/
def announced (tc : ToolCallDelta) : String := tc.id.getD ""

/-- The name it carries. -/
def name (tc : ToolCallDelta) : String := (tc.function.bind FunctionDelta.name).getD ""

/-- The piece of the arguments it carries. -/
def arguments (tc : ToolCallDelta) : String := (tc.function.bind FunctionDelta.arguments).getD ""

/-- The thought it carries. -/
def thought (tc : ToolCallDelta) : Option Thought := (tc.function.bind FunctionDelta.thought).filter Thought.truthy

/-- The piece of the signature it carries. -/
def signature (tc : ToolCallDelta) : Option String :=
  (tc.function.bind FunctionDelta.thoughtSignature).filter fun s => s ≠ ""

end ToolCallDelta

/-! ## What the fragments of one call say -/

/-- The first text that says something. -/
def firstText : List String → String
  | [] => ""
  | s :: ss => if s = "" then firstText ss else s

/-- The pieces of the arguments, one after the other. -/
def text : List ToolCallDelta → String
  | [] => ""
  | tc :: tcs => tc.arguments ++ text tcs

/-- The last thought. -/
def lastThought : List ToolCallDelta → Option Thought
  | [] => none
  | tc :: tcs => (lastThought tcs).or tc.thought

/-- Two pieces of a signature, each of which may be missing. -/
def joined : Option String → Option String → Option String
  | none, t => t
  | some s, t => some (s ++ t.getD "")

/-- The pieces of the signature, one after the other. -/
def signature : List ToolCallDelta → Option String
  | [] => none
  | tc :: tcs => joined tc.signature (signature tcs)

/-- The call that fragments make up. -/
def assembled (tcs : List ToolCallDelta) : CallBuffer where
  id := firstText (tcs.map ToolCallDelta.announced)
  name := firstText (tcs.map ToolCallDelta.name)
  arguments := text tcs
  thought := lastThought tcs
  thoughtSignature := signature tcs

/-- What is there, and then what comes. -/
def CallBuffer.before (b c : CallBuffer) : CallBuffer where
  id := if b.id = "" then c.id else b.id
  name := if b.name = "" then c.name else b.name
  arguments := b.arguments ++ c.arguments
  thought := c.thought.or b.thought
  thoughtSignature := joined b.thoughtSignature c.thoughtSignature

section
variable {s t u : Option String}

/-- Nothing to join. -/
@[simp] lemma joined_none : joined s none = s := by
  cases s <;> simp [joined]

/-- Joining is associative. -/
lemma joined_assoc : joined (joined s t) u = joined s (joined t u) := by
  cases s <;> cases t <;> cases u <;> simp [joined, String.append_assoc]

/-- A further piece, as the code adds it. -/
lemma joined_eq : joined s t = match t with
    | none => s
    | some t => some (s.getD "" ++ t) := by
  cases s <;> cases t <;> simp [joined]

end

section
variable {b c d : CallBuffer} {tc : ToolCallDelta} {tcs : List ToolCallDelta} {loads : String → Option Json}

/-- What comes in order. -/
lemma CallBuffer.before_assoc : (b.before c).before d = b.before (c.before d) := by
  unfold CallBuffer.before
  congr 1
  · by_cases hb : b.id = "" <;> simp [hb]
  · by_cases hb : b.name = "" <;> simp [hb]
  · exact String.append_assoc ..
  · exact (Option.or_assoc ..).symm
  · exact joined_assoc

/-- Nothing comes behind. -/
lemma CallBuffer.before_empty : b.before {} = b := by
  obtain ⟨id, name, arguments, thought, signature⟩ := b
  by_cases hi : id = "" <;> by_cases hn : name = "" <;> simp [CallBuffer.before, hi, hn]

/-- One more fragment in front. -/
lemma assembled_cons : assembled (tc :: tcs) = (assembled [tc]).before (assembled tcs) := by
  unfold assembled CallBuffer.before
  congr 1
  · by_cases h : tc.announced = "" <;> simp [firstText, h]
  · by_cases h : tc.name = "" <;> simp [firstText, h]
  · simp [text]
  · simp [signature]

/-- The first fragment opens the slot with what it says. -/
lemma open_eq : tc.open = assembled [tc] := by
  obtain ⟨index, id, function⟩ := tc
  cases function <;>
    simp [ToolCallDelta.open, assembled, firstText, text, lastThought, signature, ToolCallDelta.announced,
      ToolCallDelta.name, ToolCallDelta.arguments, ToolCallDelta.thought, ToolCallDelta.signature]

/-- A further fragment adds what it says. -/
lemma extend_eq : b.extend tc = b.before (assembled [tc]) := by
  rw [← open_eq]
  obtain ⟨id, name, arguments, thought, signature⟩ := b
  obtain ⟨index, announced, function⟩ := tc
  cases function with
  | none =>
    by_cases hb : id = "" <;> by_cases hn : name = "" <;>
      simp [CallBuffer.extend, CallBuffer.before, ToolCallDelta.open, hb, hn]
  | some f =>
    cases hs : f.thoughtSignature.filter fun s => !decide (s = "") <;> by_cases hb : id = "" <;>
      simp [CallBuffer.extend, CallBuffer.before, ToolCallDelta.open, hb, hs, joined_eq]

/-- An entry of the buffer after one more fragment. -/
def CallBuffer.update (o : Option CallBuffer) (tc : ToolCallDelta) : CallBuffer :=
  match o with
  | none => tc.open
  | some buf => buf.extend tc

/-- Fragments that extend an open slot. -/
lemma update_some : tcs.foldl (fun o tc => some (CallBuffer.update o tc)) (some b) = some (b.before (assembled tcs)) := by
  induction tcs generalizing b with
  | nil => exact congrArg some CallBuffer.before_empty.symm
  | cons tc tcs ih =>
    rw [List.foldl_cons, assembled_cons, ← CallBuffer.before_assoc, ← extend_eq]
    exact ih

/-- An entry that fragments make up, if there are any. -/
lemma update_none : tcs.foldl (fun o tc => some (CallBuffer.update o tc)) none =
    if tcs = [] then none else some (assembled tcs) := by
  cases tcs with
  | nil => rfl
  | cons tc tcs =>
    rw [List.foldl_cons, if_neg (List.cons_ne_nil _ _), assembled_cons, ← open_eq]
    exact update_some

/-- A slot holds what its own fragments say together. -/
lemma buffer_get? {i : Int} : (tcs.foldl bufferCall .empty).get? i =
    if tcs.filter (fun tc => tc.slot = i) = [] then none
    else some (assembled (tcs.filter fun tc => tc.slot = i)) := by
  rw [← update_none]
  exact Dict.get?_gather (u := CallBuffer.update)

end

/-! ## The stream -/

/-- The fragments that have come since the last restart. -/
def received (tcs : List ToolCallDelta) : StreamItem → List ToolCallDelta
  | .restart => []
  | .usage => tcs
  | .choice delta _ => tcs ++ delta.toolCalls

/-- The fragments of one call. -/
def owned (fs : List Fragment) (o : String) : List ToolCallDelta :=
  (fs.filter fun f => f.owner = o).map Fragment.delta

/-- The stream carries these fragments: each belongs to a call that has an id of its own, no fragment has the id of
another call, and each id comes with some fragment. -/
structure Carries (items : List StreamItem) (fs : List Fragment) : Prop where
  received : items.foldl received [] = fs.map Fragment.delta
  named : ∀ f ∈ fs, f.owner ≠ ""
  ids : ∀ f ∈ fs, f.delta.announced = "" ∨ f.delta.announced = f.owner
  announced : ∀ f ∈ fs, ∃ g ∈ fs, g.owner = f.owner ∧ g.delta.announced = f.owner

/-- The same calls under the same indexes, their texts cut at other points and the fragments in another order. -/
structure Refragments (fs gs : List Fragment) : Prop where
  slots : ∀ o i, (∃ f ∈ fs, f.owner = o ∧ f.delta.slot = i) ↔ ∃ g ∈ gs, g.owner = o ∧ g.delta.slot = i
  names : ∀ o, (assembled (owned gs o)).name = (assembled (owned fs o)).name
  texts : ∀ o, text (owned gs o) = text (owned fs o)
  thoughts : ∀ o, lastThought (owned gs o) = lastThought (owned fs o)
  signatures : ∀ o, signature (owned gs o) = signature (owned fs o)

/-- The calls of a stream are not mixed. -/
structure Unmixed (loads : String → Option Json) (items : List StreamItem) (fs : List Fragment) : Prop where
  -- no fragment is attributed to a call with another id
  own : ∀ f ∈ fs, ∃ buf, (items.foldl Assembly.step {}).buffer.get? f.delta.slot = some buf ∧ buf.id = f.owner
  -- no call is in two pieces
  once : ((items.foldl Assembly.step {}).calls.map CallBuffer.id).Nodup
  -- the arguments are the pieces of that call, in order
  exact : ∀ tc ∈ (assemble loads items).toolCalls, tc.arguments = text (owned fs tc.id)
  -- a call that came whole is there
  kept : ∀ f ∈ fs, executable loads (assembled (owned fs f.owner)) = true →
    ∃ tc ∈ (assemble loads items).toolCalls, tc.id = f.owner
  -- where the texts are cut does not matter
  recut : ∀ items' gs, Carries items' gs → Refragments fs gs →
    (assemble loads items').toolCalls = (assemble loads items).toolCalls

/-- Each call has a slot of its own. -/
def Apart (fs : List Fragment) : Prop := ∀ f ∈ fs, ∀ g ∈ fs, f.delta.slot = g.delta.slot ↔ f.owner = g.owner

section
variable {items items' : List StreamItem} {fs gs : List Fragment} {loads : String → Option Json} {o : String}
  {s : Assembly} {tcs : List ToolCallDelta} {f : Fragment} {i : Int} {buf : CallBuffer}

/-- The buffer gathers what was received. -/
lemma buffer_eq (h : s.buffer = tcs.foldl bufferCall .empty) :
    (items.foldl Assembly.step s).buffer = (items.foldl received tcs).foldl bufferCall .empty := by
  induction items generalizing s tcs with
  | nil => exact h
  | cons item items ih =>
    rw [List.foldl_cons, List.foldl_cons]
    apply ih
    cases item with
    | restart => rfl
    | usage => exact h
    | choice delta finishReason =>
      show delta.toolCalls.foldl bufferCall s.buffer = _
      rw [h, ← List.foldl_append]
      rfl

/-- The buffer holds the fragments. -/
lemma Carries.buffer (C : Carries items fs) :
    (items.foldl Assembly.step {}).buffer = (fs.map Fragment.delta).foldl bufferCall .empty := by
  rw [← C.received]
  exact buffer_eq rfl

/-- In a slot of its own a call has all its fragments, and only them. -/
lemma Apart.filter_slot (A : Apart fs) (hf : f ∈ fs) :
    (fs.map Fragment.delta).filter (fun tc => tc.slot = f.delta.slot) = owned fs f.owner := by
  rw [List.filter_map, owned]
  congr 1
  apply List.filter_congr
  intro g hg
  simpa using A g hg f hf

/-- What a call in a slot of its own comes to. -/
lemma Apart.get? (A : Apart fs) (C : Carries items fs) (hf : f ∈ fs) :
    (items.foldl Assembly.step {}).buffer.get? f.delta.slot = some (assembled (owned fs f.owner)) := by
  have some : owned fs f.owner ≠ [] := by
    apply List.ne_nil_of_mem (a := f.delta)
    exact List.mem_map_of_mem (List.mem_filter.mpr ⟨hf, by simp⟩)
  rw [C.buffer, buffer_get?, A.filter_slot hf, if_neg some]

/-- Only slots that a fragment names are taken. -/
lemma Carries.of_get? (C : Carries items fs) (h : (items.foldl Assembly.step {}).buffer.get? i = some buf) :
    ∃ f ∈ fs, f.delta.slot = i := by
  rw [C.buffer, buffer_get?] at h
  split at h
  · cases h
  · rename_i ne
    obtain ⟨tc, htc⟩ := List.exists_mem_of_ne_nil _ ne
    obtain ⟨mem, e⟩ := List.mem_filter.mp htc
    obtain ⟨f, hf, rfl⟩ := List.mem_map.mp mem
    exact ⟨f, hf, by simpa using e⟩

/-- The one text that is said. -/
lemma firstText_eq {ss : List String} (all : ∀ s ∈ ss, s = "" ∨ s = o) (one : o ∈ ss) (ne : o ≠ "") :
    firstText ss = o := by
  induction ss with
  | nil => cases one
  | cons s ss ih =>
    unfold firstText
    split
    · rename_i e
      apply ih fun s hs => all s (List.mem_cons_of_mem _ hs)
      exact (List.mem_cons.mp one).resolve_left fun e' => ne (e'.trans e)
    · rename_i h
      exact (all s List.mem_cons_self).resolve_left h

/-- The fragments of a call announce its id. -/
lemma Carries.id_eq (C : Carries items fs) (hf : f ∈ fs) : (assembled (owned fs f.owner)).id = f.owner := by
  refine firstText_eq ?_ ?_ (C.named f hf)
  · intro s hs
    obtain ⟨tc, htc, rfl⟩ := List.mem_map.mp hs
    obtain ⟨g, hg, rfl⟩ := List.mem_map.mp htc
    obtain ⟨mem, e⟩ := List.mem_filter.mp hg
    have e' : g.owner = f.owner := by simpa using e
    exact e' ▸ C.ids g mem
  · obtain ⟨g, hg, e, a⟩ := C.announced f hf
    have mem : g.delta ∈ owned fs f.owner := List.mem_map_of_mem (List.mem_filter.mpr ⟨hg, by simpa using e⟩)
    exact List.mem_map.mpr ⟨g.delta, mem, a⟩

/-! ## The assembled calls -/

/-- The calls of the buffer. -/
lemma mem_calls : buf ∈ s.calls ↔ ∃ i, s.buffer.get? i = some buf := by
  unfold Assembly.calls
  rw [List.mem_map]
  constructor
  · rintro ⟨e, he, rfl⟩
    exact ⟨e.1, Dict.get?_eq_some.mpr (mem_sortOn.mp he)⟩
  · rintro ⟨i, h⟩
    exact ⟨(i, buf), mem_sortOn.mpr (Dict.get?_eq_some.mp h), rfl⟩

/-- Buffers with the same entries give the same calls. -/
lemma calls_congr {t : Assembly} (h : ∀ i, s.buffer.get? i = t.buffer.get? i) : s.calls = t.calls := by
  unfold Assembly.calls
  congr 1
  rw [sortOn_eq_iff s.buffer.distinct]
  refine ⟨sortOn_pairwise t.buffer.distinct, fun e => ?_⟩
  rw [mem_sortOn, ← Dict.get?_eq_some, ← Dict.get?_eq_some, h]

/-- An assembled call is what the fragments of one call say. -/
lemma Apart.of_mem (A : Apart fs) (C : Carries items fs) (h : buf ∈ (items.foldl Assembly.step {}).calls) :
    ∃ f ∈ fs, buf = assembled (owned fs f.owner) := by
  obtain ⟨i, hi⟩ := mem_calls.mp h
  obtain ⟨f, hf, rfl⟩ := C.of_get? hi
  exact ⟨f, hf, Option.some.inj (hi.symm.trans (A.get? C hf))⟩

/-- The calls have different ids. -/
lemma Apart.once (A : Apart fs) (C : Carries items fs) :
    ((items.foldl Assembly.step {}).calls.map CallBuffer.id).Nodup := by
  unfold Assembly.calls
  set buffer := (items.foldl Assembly.step {}).buffer with hb
  rw [List.map_map]
  apply List.Nodup.map_on
  · intro e he e' he' same
    have h := Dict.get?_eq_some.mpr (mem_sortOn.mp he)
    have h' := Dict.get?_eq_some.mpr (mem_sortOn.mp he')
    obtain ⟨f, hf, slot⟩ := C.of_get? h
    obtain ⟨g, hg, slot'⟩ := C.of_get? h'
    rw [← slot, A.get? C hf] at h
    rw [← slot', A.get? C hg] at h'
    have id : e.2.id = f.owner := by rw [← Option.some.inj h, C.id_eq hf]
    have id' : e'.2.id = g.owner := by rw [← Option.some.inj h', C.id_eq hg]
    have owner : f.owner = g.owner := by rw [← id, ← id', ← Function.comp_apply (f := CallBuffer.id), same]; rfl
    have key : e.1 = e'.1 := by rw [← slot, ← slot', (A f hf g hg).mpr owner]
    exact List.inj_on_of_nodup_map buffer.distinct (mem_sortOn.mp he) (mem_sortOn.mp he') key
  · exact sortOn_perm.nodup_iff.mpr (List.Nodup.of_map _ buffer.distinct)

/-- The same calls under the same indexes stay apart. -/
lemma Refragments.apart (R : Refragments fs gs) (A : Apart fs) : Apart gs := by
  intro g hg g' hg'
  obtain ⟨f, hf, owner, slot⟩ := (R.slots g.owner g.delta.slot).mpr ⟨g, hg, rfl, rfl⟩
  obtain ⟨f', hf', owner', slot'⟩ := (R.slots g'.owner g'.delta.slot).mpr ⟨g', hg', rfl, rfl⟩
  rw [← owner, ← slot, ← owner', ← slot']
  exact A f hf f' hf'

/-- Where the texts are cut does not show in the buffer. -/
lemma Refragments.get? (R : Refragments fs gs) (A : Apart fs) (C : Carries items fs) (C' : Carries items' gs) :
    (items'.foldl Assembly.step {}).buffer.get? i = (items.foldl Assembly.step {}).buffer.get? i := by
  by_cases taken : ∃ f ∈ fs, f.delta.slot = i
  · obtain ⟨f, hf, rfl⟩ := taken
    obtain ⟨g, hg, owner, slot⟩ := (R.slots f.owner f.delta.slot).mp ⟨f, hf, rfl, rfl⟩
    have id : (assembled (owned gs f.owner)).id = (assembled (owned fs f.owner)).id := by
      rw [C.id_eq hf, ← owner, C'.id_eq hg]
    rw [A.get? C hf, ← slot, (R.apart A).get? C' hg, owner]
    refine congrArg some ?_
    unfold assembled at id ⊢
    exact CallBuffer.mk.injEq .. ▸ ⟨id, R.names _, R.texts _, R.thoughts _, R.signatures _⟩
  · have free : ¬ ∃ g ∈ gs, g.delta.slot = i := by
      rintro ⟨g, hg, rfl⟩
      obtain ⟨f, hf, -, slot⟩ := (R.slots g.owner g.delta.slot).mpr ⟨g, hg, rfl, rfl⟩
      exact taken ⟨f, hf, slot⟩
    have none := Option.eq_none_iff_forall_ne_some.mpr fun _ h => taken (C.of_get? h)
    have none' := Option.eq_none_iff_forall_ne_some.mpr fun _ h => free (C'.of_get? h)
    rw [none, none']

/-- Calls that are not mixed have each a slot of its own. -/
lemma Unmixed.apart (U : Unmixed loads items fs) : Apart fs := by
  intro f hf g hg
  obtain ⟨buf, h, id⟩ := U.own f hf
  obtain ⟨buf', h', id'⟩ := U.own g hg
  constructor
  · intro slot
    rw [slot, h'] at h
    rw [← id, ← id', Option.some.inj h]
  · intro owner
    have nd := U.once
    unfold Assembly.calls at nd
    rw [List.map_map] at nd
    have same := List.inj_on_of_nodup_map nd (mem_sortOn.mpr (Dict.get?_eq_some.mp h))
      (mem_sortOn.mpr (Dict.get?_eq_some.mp h')) (id.trans (owner.trans id'.symm))
    exact congrArg Prod.fst same

/-- Exactly when each call has a slot of its own, an index that is missing counting as 0, the calls of a stream are
not mixed. -/
theorem unmixed_iff (C : Carries items fs) : Unmixed loads items fs ↔ Apart fs := by
  refine ⟨Unmixed.apart, fun A => ?_⟩
  constructor
  case own => exact fun f hf => ⟨_, A.get? C hf, C.id_eq hf⟩
  case once => exact A.once C
  case exact =>
    intro tc h
    obtain ⟨buf, hbuf, rfl⟩ := List.mem_map.mp h
    obtain ⟨f, hf, rfl⟩ := A.of_mem C (List.mem_filter.mp hbuf).1
    show text (owned fs f.owner) = text (owned fs (assembled (owned fs f.owner)).id)
    rw [C.id_eq hf]
  case kept =>
    intro f hf ok
    have mem := mem_calls.mpr ⟨_, A.get? C hf⟩
    exact ⟨_, List.mem_map_of_mem (List.mem_filter.mpr ⟨mem, ok⟩), C.id_eq hf⟩
  case recut =>
    intro items' gs C' R
    have same : (items'.foldl Assembly.step {}).calls = (items.foldl Assembly.step {}).calls :=
      calls_congr fun i => R.get? A C C'
    unfold assemble Assembly.message
    rw [same]

end

/-- A chunk with one fragment of a tool call. -/
def StreamItem.fragment (f : Fragment) : StreamItem := .choice { toolCalls := [f.delta] } none

/-- Two calls, the first in two fragments with the second one in between. -/
def twoCalls (first second : Option Int) : List Fragment :=
  [⟨"a", { index := first, id := some "a", function := some { name := some "list" } }⟩,
    ⟨"b", { index := second, id := some "b", function := some { name := some "delete", arguments := some "[1]" } }⟩,
    ⟨"a", { index := first }⟩]

/-- Two calls as fragments. -/
lemma carries_twoCalls {first second : Option Int} :
    Carries ((twoCalls first second).map StreamItem.fragment) (twoCalls first second) where
  received := rfl
  named := by simp [twoCalls]
  ids := by simp [twoCalls, ToolCallDelta.announced]
  announced := by simp [twoCalls, ToolCallDelta.announced]

/-- Two calls with slots of their own. -/
theorem unmixed_twoCalls : Unmixed (fun _ => some .other) ((twoCalls (some 0) (some 1)).map StreamItem.fragment)
    (twoCalls (some 0) (some 1)) := by
  refine (unmixed_iff carries_twoCalls).mpr ?_
  unfold Apart
  simp [twoCalls, ToolCallDelta.slot]

/-- Two calls without an index are run together: the first one's name with the second one's arguments. -/
theorem mixed_twoCalls :
    (assemble (fun _ => some .other) ((twoCalls none none).map StreamItem.fragment)).toolCalls =
        [{ id := "a", name := "list", arguments := "[1]" }] ∧
      Carries ((twoCalls none none).map StreamItem.fragment) (twoCalls none none) ∧
      ¬ Unmixed (fun _ => some .other) ((twoCalls none none).map StreamItem.fragment) (twoCalls none none) := by
  refine ⟨by decide, carries_twoCalls, fun U => ?_⟩
  have owner := (U.apart _ (List.mem_cons_self ..) _ (List.mem_cons_of_mem _ List.mem_cons_self)).mp rfl
  exact absurd owner (by decide)

end OpenAgentd.Loop
