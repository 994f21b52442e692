import Mathlib.Data.List.Induction
import OpenAgentd.Provider.Anthropic

/-!
# What was received

The meaning of a list of frames, without the provider's bookkeeping: `starts` are the blocks in the order of their
starts, and the text of a block is what the deltas under its index make together (`gather`), in whatever order the
blocks' deltas come. `Wellformed` is what the wire promises: every index is started once, a delta belongs to a
started block of its kind, and the calls have ids of their own.

`Streamed` says that the provider's dicts and the assembler's variables hold exactly that, behind every frame.
-/

namespace OpenAgentd.Provider
open OpenAgentd.Lib OpenAgentd.Loop

/-- The pieces that frames contribute, together. -/
def gather (piece : Frame → String) (frames : List Frame) : String :=
  frames.foldl (fun s f => s ++ piece f) ""

/-- The thinking for one block. -/
def Frame.thinkingFor (i : Int) : Frame → String
  | .thinkingDelta j s => if j = i then s else ""
  | _ => ""

/-- The signature for one block. -/
def Frame.signatureFor (i : Int) : Frame → String
  | .signatureDelta j s => if j = i then s else ""
  | _ => ""

/-- The text for one block. -/
def Frame.textFor (i : Int) : Frame → String
  | .textDelta j s => if j = i then s else ""
  | _ => ""

/-- The arguments for one block. -/
def Frame.argumentsFor (i : Int) : Frame → String
  | .inputJsonDelta j s => if j = i then s else ""
  | _ => ""

/-- The thinking, for whichever block. -/
def Frame.thinking : Frame → String
  | .thinkingDelta _ s => s
  | _ => ""

/-- The signature, for whichever block. -/
def Frame.signature : Frame → String
  | .signatureDelta _ s => s
  | _ => ""

/-- The text, for whichever block. -/
def Frame.text : Frame → String
  | .textDelta _ s => s
  | _ => ""

/-- The block a frame starts, under its index. -/
def Frame.start : Frame → Option (Int × ContentBlock)
  | .blockStart i b => some (i, b)
  | _ => none

/-- The blocks in the order of their starts, under their indexes. -/
def starts (frames : List Frame) : List (Int × ContentBlock) := frames.filterMap Frame.start

/-- A block as it was received. -/
def blockOf (frames : List Frame) : Int × ContentBlock → RawBlock
  | (i, .thinking) => .thinking (gather (Frame.thinkingFor i) frames) (gather (Frame.signatureFor i) frames)
  | (_, .redactedThinking data) => .redactedThinking data
  | (i, .text) => .text (gather (Frame.textFor i) frames)
  | (i, .toolUse id name) => .toolUse id name (gather (Frame.argumentsFor i) frames)

/-- The ordered block list. -/
def received (frames : List Frame) : List RawBlock := (starts frames).map (blockOf frames)

/-- The index, the id and the name of a call. -/
def asTool : Int × ContentBlock → Option (Int × String × String)
  | (i, .toolUse id name) => some (i, id, name)
  | _ => none

/-- The calls in the order of their starts. -/
def toolStarts (frames : List Frame) : List (Int × String × String) := (starts frames).filterMap asTool

/-- The id of a call. -/
def ContentBlock.callId : ContentBlock → Option String
  | .toolUse id _ => some id
  | _ => none

/-- What the wire promises of a frame behind others: a start has a new index, and a call a new id; a delta is for a
started block of its kind. -/
def Follows (fs : List Frame) : Frame → Prop
  | .blockStart i b =>
    i ∉ (starts fs).map Prod.fst ∧ ∀ id ∈ b.callId, id ≠ "" ∧ id ∉ (toolStarts fs).map fun t => t.2.1
  | .thinkingDelta i _ => (i, .thinking) ∈ starts fs
  | .signatureDelta i _ => (i, .thinking) ∈ starts fs
  | .textDelta i _ => (i, .text) ∈ starts fs
  | .inputJsonDelta i _ => i ∈ (toolStarts fs).map Prod.fst
  | .messageDelta _ => True
  | .other => True

instance (fs : List Frame) (f : Frame) : Decidable (Follows fs f) :=
  match f with
  | .blockStart i b => inferInstanceAs (Decidable (i ∉ (starts fs).map Prod.fst ∧
      ∀ id ∈ b.callId, id ≠ "" ∧ id ∉ (toolStarts fs).map fun t => t.2.1))
  | .thinkingDelta i _ => inferInstanceAs (Decidable ((i, .thinking) ∈ starts fs))
  | .signatureDelta i _ => inferInstanceAs (Decidable ((i, .thinking) ∈ starts fs))
  | .textDelta i _ => inferInstanceAs (Decidable ((i, .text) ∈ starts fs))
  | .inputJsonDelta i _ => inferInstanceAs (Decidable (i ∈ (toolStarts fs).map Prod.fst))
  | .messageDelta _ => .isTrue trivial
  | .other => .isTrue trivial

/-- What the wire promises. -/
inductive Wellformed : List Frame → Prop where
  | nil :
    Wellformed []
  | snoc {fs f} :
    Wellformed fs →
    Follows fs f →
    Wellformed (fs ++ [f])

/-! ## Pieces -/

section
variable {piece piece' : Frame → String} {fs gs : List Frame} {f : Frame} {i : Int} {b b' : ContentBlock}
  {p : Int × ContentBlock}

/-- No frames. -/
@[simp] lemma gather_nil : gather piece [] = "" := rfl

/-- One frame more. -/
@[simp] lemma gather_snoc : gather piece (fs ++ [f]) = gather piece fs ++ piece f := by
  rw [gather, List.foldl_append]
  rfl

/-- One frame more. -/
lemma starts_snoc (fs : List Frame) (f : Frame) : starts (fs ++ [f]) = starts fs ++ f.start.toList := by
  rw [starts, List.filterMap_append]
  cases f with
  | blockStart i b => rfl
  | _ => rfl

/-- One frame more. -/
lemma toolStarts_snoc (fs : List Frame) (f : Frame) :
    toolStarts (fs ++ [f]) = toolStarts fs ++ f.start.toList.filterMap asTool := by
  rw [toolStarts, starts_snoc, List.filterMap_append]
  rfl

/-- Nothing is gathered where there are no pieces. -/
lemma gather_eq_empty : gather piece fs = "" ↔ ∀ f ∈ fs, piece f = "" := by
  induction fs using List.reverseRecOn with
  | nil => simp
  | append_singleton fs f ih => simp [ih, or_imp, forall_and]

/-- Equal pieces. -/
lemma gather_congr (h : ∀ f ∈ fs, piece f = piece' f) : gather piece fs = gather piece' fs := by
  induction fs using List.reverseRecOn with
  | nil => rfl
  | append_singleton fs f ih =>
    rw [gather_snoc, gather_snoc, ih fun f hf => h f (List.mem_append_left _ hf), h f (by simp)]

/-- Shorter pieces. -/
lemma length_gather_le (h : ∀ f ∈ fs, (piece f).length ≤ (piece' f).length) :
    (gather piece fs).length ≤ (gather piece' fs).length := by
  induction fs using List.reverseRecOn with
  | nil => exact le_refl _
  | append_singleton fs f ih =>
    rw [gather_snoc, gather_snoc, String.length_append, String.length_append]
    exact Nat.add_le_add (ih fun f hf => h f (List.mem_append_left _ hf)) (h f (by simp))

/-- Where shorter pieces make as much, they are as long. -/
lemma length_eq_of_gather (h : ∀ f ∈ fs, (piece f).length ≤ (piece' f).length)
    (e : (gather piece fs).length = (gather piece' fs).length) :
    ∀ f ∈ fs, (piece f).length = (piece' f).length := by
  induction fs using List.reverseRecOn with
  | nil => simp
  | append_singleton fs f ih =>
    have before : ∀ f ∈ fs, (piece f).length ≤ (piece' f).length :=
      fun f hf => h f (List.mem_append_left _ hf)
    have here := h f (by simp)
    have le := length_gather_le before
    rw [gather_snoc, gather_snoc, String.length_append, String.length_append] at e
    intro g hg
    cases List.mem_append.mp hg with
    | inl hg => exact ih before (by omega) g hg
    | inr hg =>
      rw [List.mem_singleton.mp hg]
      omega

end

/-! ## What the wire promises -/

section
variable {fs gs : List Frame} {f : Frame} {i : Int} {b b' : ContentBlock} {t : Int × String × String}

/-- Blocks have indexes of their own. -/
lemma Wellformed.distinct (W : Wellformed fs) : ((starts fs).map Prod.fst).Nodup := by
  induction W with
  | nil => exact List.nodup_nil
  | @snoc fs f _ next ih =>
    rw [starts_snoc]
    cases f with
    | blockStart i b =>
      obtain ⟨fresh, -⟩ := next
      rw [List.map_append, List.nodup_append]
      refine ⟨ih, List.nodup_singleton _, fun a ha c hc => ?_⟩
      rw [List.mem_singleton.mp hc]
      rintro rfl
      exact fresh ha
    | _ => simpa [Frame.start] using ih

/-- An index has one block. -/
lemma Wellformed.unique (W : Wellformed fs) (h : (i, b) ∈ starts fs) (h' : (i, b') ∈ starts fs) : b = b' :=
  congrArg Prod.snd (List.inj_on_of_nodup_map W.distinct h h' rfl)

/-- The frames up to any point are as the wire promises. -/
lemma Wellformed.prefix_ (W : Wellformed fs) (h : gs <+: fs) : Wellformed gs := by
  induction W with
  | nil =>
    rw [List.prefix_nil.mp h]
    exact .nil
  | snoc W next ih =>
    cases List.prefix_concat_iff.mp h with
    | inl e => exact e ▸ .snoc W next
    | inr h => exact ih h

/-- A frame was promised behind those before it. -/
lemma Wellformed.follows (W : Wellformed fs) (h : f ∈ fs) :
    ∃ gs, gs <+: fs ∧ Follows gs f := by
  induction W with
  | nil => cases h
  | snoc W next ih =>
    cases List.mem_append.mp h with
    | inl h =>
      obtain ⟨gs, pre, promised⟩ := ih h
      exact ⟨gs, pre.trans (List.prefix_append _ _), promised⟩
    | inr h =>
      rw [List.mem_singleton.mp h]
      exact ⟨_, List.prefix_append _ _, next⟩

/-- A front has the first starts. -/
lemma starts_mono (h : gs <+: fs) : starts gs <+: starts fs := h.filterMap _

/-- The calls are the starts of calls. -/
lemma mem_toolStarts : t ∈ toolStarts fs ↔ (t.1, .toolUse t.2.1 t.2.2) ∈ starts fs := by
  rw [toolStarts, List.mem_filterMap]
  constructor
  · rintro ⟨⟨i, b⟩, mem, e⟩
    cases b with
    | toolUse id name =>
      cases e
      exact mem
    | _ => cases e
  · intro mem
    exact ⟨_, mem, rfl⟩

/-- Thinking comes for thinking blocks. -/
lemma Wellformed.thinking_mem {s : String} (W : Wellformed fs) (h : .thinkingDelta i s ∈ fs) :
    (i, .thinking) ∈ starts fs := by
  obtain ⟨gs, pre, mem⟩ := W.follows h
  exact (starts_mono pre).subset mem

/-- Before its start nothing is gathered for a block. -/
lemma Wellformed.gather_fresh (W : Wellformed fs) (fresh : i ∉ (starts fs).map Prod.fst) :
    gather (Frame.thinkingFor i) fs = "" ∧ gather (Frame.signatureFor i) fs = "" ∧
      gather (Frame.textFor i) fs = "" ∧ gather (Frame.argumentsFor i) fs = "" := by
  have ne : ∀ {gs : List Frame} {j : Int} {b : ContentBlock}, gs <+: fs → (j, b) ∈ starts gs → j ≠ i := by
    rintro gs j b pre mem rfl
    exact fresh (List.mem_map_of_mem (f := Prod.fst) ((starts_mono pre).subset mem))
  refine ⟨gather_eq_empty.mpr fun f hf => ?_, gather_eq_empty.mpr fun f hf => ?_,
    gather_eq_empty.mpr fun f hf => ?_, gather_eq_empty.mpr fun f hf => ?_⟩
  · obtain ⟨gs, pre, next⟩ := W.follows hf
    cases f with
    | thinkingDelta j s => exact if_neg (ne pre next)
    | _ => rfl
  · obtain ⟨gs, pre, next⟩ := W.follows hf
    cases f with
    | signatureDelta j s => exact if_neg (ne pre next)
    | _ => rfl
  · obtain ⟨gs, pre, next⟩ := W.follows hf
    cases f with
    | textDelta j s => exact if_neg (ne pre next)
    | _ => rfl
  · obtain ⟨gs, pre, next⟩ := W.follows hf
    cases f with
    | inputJsonDelta j s =>
      obtain ⟨t, ht, rfl⟩ := List.mem_map.mp next
      exact if_neg (ne pre (mem_toolStarts.mp ht))
    | _ => rfl

/-- The ids of the calls differ and are not empty. -/
lemma Wellformed.toolIds (W : Wellformed fs) :
    ((toolStarts fs).map fun t => t.2.1).Nodup ∧ ∀ t ∈ toolStarts fs, t.2.1 ≠ "" := by
  induction W with
  | nil => exact ⟨List.nodup_nil, by simp [toolStarts, starts]⟩
  | @snoc fs f _ next ih =>
    rw [toolStarts_snoc]
    cases f with
    | blockStart i b =>
      cases b with
      | toolUse id name =>
        obtain ⟨named, new⟩ := next.2 id rfl
        refine ⟨?_, fun t ht => ?_⟩
        · rw [List.map_append, List.nodup_append]
          refine ⟨ih.1, List.nodup_singleton _, fun a ha c hc => ?_⟩
          rw [List.mem_singleton.mp hc]
          rintro rfl
          exact new ha
        · cases List.mem_append.mp ht with
          | inl ht => exact ih.2 t ht
          | inr ht =>
            rw [List.mem_singleton.mp ht]
            exact named
      | _ => simpa [Frame.start, asTool, List.filterMap_cons] using ih
    | _ => simpa [Frame.start] using ih

end

end OpenAgentd.Provider
