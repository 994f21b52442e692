import OpenAgentd.Provider.Received

/-!
# The stream and the assembler keep what was received

`Streamed fs st s`: behind the frames `fs` the dicts of the provider hold every block as it was received, with a
reference in the place of a call, and the variables of the assembler hold the flat texts and every call under its
number. One frame keeps this (`Streamed.frame`), so every cut of the stream has it (`streamed`).
-/

namespace OpenAgentd.Provider
open OpenAgentd.Lib OpenAgentd.Loop

/-- A block as the provider keeps it. -/
def rawOf (frames : List Frame) : Int × ContentBlock → RawBlock
  | (i, .thinking) => .thinking (gather (Frame.thinkingFor i) frames) (gather (Frame.signatureFor i) frames)
  | (_, .redactedThinking data) => .redactedThinking data
  | (i, .text) => .text (gather (Frame.textFor i) frames)
  | (_, .toolUse id _) => .toolUseRef id

/-- The redacted block of a start. -/
def asRedacted : Int × ContentBlock → Option RawBlock
  | (_, .redactedThinking data) => some (.redactedThinking data)
  | _ => none

/-- A call as the assembler keeps it. -/
def bufferOf (frames : List Frame) (t : Int × String × String) : CallBuffer where
  id := t.2.1
  name := t.2.2
  arguments := gather (Frame.argumentsFor t.1) frames

/-- The dicts of the provider hold the blocks. -/
structure KeepsBlocks (fs : List Frame) (st : StreamState) : Prop where
  order : st.rawBlockOrder = (starts fs).map Prod.fst
  blocks : ∀ p ∈ starts fs, st.rawBlocks.get? p.1 = some (rawOf fs p)

/-- The calls are numbered in the order of their starts. -/
structure KeepsCalls (fs : List Frame) (st : StreamState) (s : Assembly) : Prop where
  indexes : st.toolCallIndexes.entries = (toolStarts fs).mapIdx fun k t => (t.1, (k : Int))
  buffer : s.buffer.entries = (toolStarts fs).mapIdx fun k t => ((k : Int), bufferOf fs t)

/-- The variables of the assembler hold the flat texts. -/
structure KeepsTexts (fs : List Frame) (s : Assembly) : Prop where
  content : s.fullContent = gather Frame.text fs
  reasoning : s.reasoning = gather Frame.thinking fs
  signature : s.reasoningSignature = gather Frame.signature fs
  redacted : s.redactedThinkingBlocks = (starts fs).filterMap asRedacted
  raw : s.rawContentBlocks = []

/-- The dicts of the provider and the variables of the assembler behind some frames. -/
structure Streamed (fs : List Frame) (st : StreamState) (s : Assembly) : Prop where
  blocks : KeepsBlocks fs st
  calls : KeepsCalls fs st s
  texts : KeepsTexts fs s

section
variable {fs : List Frame} {f : Frame} {st : StreamState} {s : Assembly} {i : Int} {b : ContentBlock}
  {p : Int × ContentBlock} {t : Int × String × String}

/-- Calls have indexes of their own. -/
lemma toolStarts_distinct (W : Wellformed fs) : ((toolStarts fs).map Prod.fst).Nodup := by
  have sub : ((toolStarts fs).map Prod.fst).Sublist ((starts fs).map Prod.fst) := by
    unfold toolStarts
    induction starts fs with
    | nil => exact .slnil
    | cons p ps ih =>
      obtain ⟨i, b⟩ := p
      cases b with
      | toolUse id name => exact ih.cons_cons _
      | _ => exact ih.cons _
  exact W.distinct.sublist sub

/-- What a frame is not for stays. -/
lemma rawOf_snoc (thinking : Frame.thinkingFor p.1 f = "") (signature : Frame.signatureFor p.1 f = "")
    (text : Frame.textFor p.1 f = "") : rawOf (fs ++ [f]) p = rawOf fs p := by
  obtain ⟨i, b⟩ := p
  cases b with
  | thinking => simp [rawOf, thinking, signature]
  | text => simp [rawOf, text]
  | _ => rfl

/-- A frame of another block. -/
lemma bufferOf_snoc (arguments : Frame.argumentsFor t.1 f = "") : bufferOf (fs ++ [f]) t = bufferOf fs t := by
  simp [bufferOf, arguments]

/-- A start leaves the blocks before it. -/
lemma rawOf_blockStart : rawOf (fs ++ [.blockStart i b]) p = rawOf fs p := rawOf_snoc rfl rfl rfl

/-- A new block is empty. -/
lemma rawOf_start (W : Wellformed fs) (fresh : i ∉ (starts fs).map Prod.fst) : rawOf fs (i, b) = b.raw := by
  obtain ⟨thinking, signature, text, -⟩ := W.gather_fresh fresh
  cases b with
  | thinking => simp [rawOf, ContentBlock.raw, thinking, signature]
  | text => simp [rawOf, ContentBlock.raw, text]
  | _ => rfl

/-! ## The blocks -/

/-- A change keeps the order. -/
lemma modify_order {change : RawBlock → RawBlock} : (st.modify i change).rawBlockOrder = st.rawBlockOrder := by
  unfold StreamState.modify
  split
  · rfl
  · rfl

/-- A change keeps the indexes. -/
lemma modify_indexes {change : RawBlock → RawBlock} :
    (st.modify i change).toolCallIndexes = st.toolCallIndexes := by
  unfold StreamState.modify
  split
  · rfl
  · rfl

/-- A delta changes the block it is for. -/
lemma KeepsBlocks.modify {change : RawBlock → RawBlock} (K : KeepsBlocks fs st) (W : Wellformed fs)
    (mem : (i, b) ∈ starts fs) (same : f.start = none)
    (here : change (rawOf fs (i, b)) = rawOf (fs ++ [f]) (i, b))
    (others : ∀ p : Int × ContentBlock, p.1 ≠ i → rawOf (fs ++ [f]) p = rawOf fs p) :
    KeepsBlocks (fs ++ [f]) (st.modify i change) := by
  have starts' : starts (fs ++ [f]) = starts fs := by
    rw [starts_snoc, same]
    exact List.append_nil _
  have known : st.rawBlocks.get? i = some (rawOf fs (i, b)) := K.blocks _ mem
  refine ⟨by rw [modify_order, K.order, starts'], fun p hp => ?_⟩
  rw [starts'] at hp
  rw [StreamState.modify, known]
  show (st.rawBlocks.set i _).get? p.1 = _
  rw [Dict.get?_set]
  by_cases e : p.1 = i
  · obtain ⟨j, b'⟩ := p
    cases e
    rw [if_pos rfl, here, W.unique mem hp]
  · rw [if_neg e, K.blocks p hp, others p e]

/-- A frame that is for no block leaves them. -/
lemma KeepsBlocks.silent (K : KeepsBlocks fs st) (same : f.start = none)
    (others : ∀ p, rawOf (fs ++ [f]) p = rawOf fs p) : KeepsBlocks (fs ++ [f]) st := by
  have starts' : starts (fs ++ [f]) = starts fs := by
    rw [starts_snoc, same]
    exact List.append_nil _
  refine ⟨by rw [K.order, starts'], fun p hp => ?_⟩
  rw [starts'] at hp
  rw [others, K.blocks p hp]

/-- A start adds its block. -/
lemma KeepsBlocks.start (K : KeepsBlocks fs st) (W : Wellformed fs) (fresh : i ∉ (starts fs).map Prod.fst)
    {indexes : Dict Int Int} :
    KeepsBlocks (fs ++ [.blockStart i b])
      { st with
        toolCallIndexes := indexes
        rawBlocks := st.rawBlocks.set i b.raw
        rawBlockOrder := st.rawBlockOrder ++ [i] } := by
  have starts' : starts (fs ++ [.blockStart i b]) = starts fs ++ [(i, b)] := starts_snoc ..
  refine ⟨by rw [starts', K.order, List.map_append]; rfl, fun p hp => ?_⟩
  rw [starts'] at hp
  rw [rawOf_blockStart, Dict.get?_set]
  cases List.mem_append.mp hp with
  | inl hp =>
    have ne : p.1 ≠ i := fun e => fresh (e ▸ List.mem_map_of_mem hp)
    rw [if_neg ne, K.blocks p hp]
  | inr hp =>
    rw [List.mem_singleton.mp hp, if_pos rfl, rawOf_start W fresh]

/-- One frame more. -/
lemma KeepsBlocks.frame (K : KeepsBlocks fs st) (W : Wellformed fs) (next : Follows fs f) :
    KeepsBlocks (fs ++ [f]) (st.frame f).1 := by
  cases f with
  | blockStart i b =>
    cases b with
    | _ => exact K.start W next.1
  | thinkingDelta i piece =>
    refine K.modify W next rfl ?_ fun p ne => rawOf_snoc (if_neg (Ne.symm ne)) rfl rfl
    simp [rawOf, addThinking, Frame.thinkingFor, Frame.signatureFor]
  | signatureDelta i piece =>
    refine K.modify W next rfl ?_ fun p ne => rawOf_snoc rfl (if_neg (Ne.symm ne)) rfl
    simp [rawOf, addSignature, Frame.thinkingFor, Frame.signatureFor]
  | textDelta i piece =>
    refine K.modify W next rfl ?_ fun p ne => rawOf_snoc rfl rfl (if_neg (Ne.symm ne))
    simp [rawOf, addText, Frame.textFor]
  | inputJsonDelta i piece =>
    have K' : KeepsBlocks (fs ++ [.inputJsonDelta i piece]) st := K.silent rfl fun p => rawOf_snoc rfl rfl rfl
    exact ⟨K'.order, K'.blocks⟩
  | messageDelta stopReason => exact K.silent rfl fun p => rawOf_snoc rfl rfl rfl
  | other => exact K.silent rfl fun p => rawOf_snoc rfl rfl rfl

/-! ## The calls -/

/-- The numbers in order. -/
lemma mapIdx_fst {α : Type*} (l : List α) (g : Nat → α → CallBuffer) :
    (l.mapIdx fun k t => ((k : Int), g k t)).map Prod.fst = (List.range l.length).map Int.ofNat := by
  refine List.ext_getElem (by simp) fun k h h' => ?_
  simp

/-- The numbers of the calls that are known. -/
lemma KeepsCalls.number (K : KeepsCalls fs st s) {k : Nat} (h : (toolStarts fs)[k]? = some t) :
    st.toolCallIndexes.get? t.1 = some (k : Int) ∧ s.buffer.get? k = some (bufferOf fs t) := by
  constructor
  · rw [Dict.get?_eq_some, K.indexes]
    exact List.mem_of_getElem? (i := k) (by rw [List.getElem?_mapIdx, h]; rfl)
  · rw [Dict.get?_eq_some, K.buffer]
    exact List.mem_of_getElem? (i := k) (by rw [List.getElem?_mapIdx, h]; rfl)

/-- A new call has the next number. -/
lemma KeepsCalls.start (K : KeepsCalls fs st s) (W : Wellformed fs) (id name : String)
    (fresh : i ∉ (starts fs).map Prod.fst) :
    let f : Frame := .blockStart i (.toolUse id name)
    let d := setDefault st.toolCallIndexes i st.toolCallIndexes.entries.length
    d.2.entries = (toolStarts (fs ++ [f])).mapIdx (fun k t => (t.1, (k : Int))) ∧
      (bufferCall s.buffer { index := some d.1, id := some id, function := some {
        name := some name, arguments := some "" } }).entries =
          (toolStarts (fs ++ [f])).mapIdx fun k t => ((k : Int), bufferOf (fs ++ [f]) t) := by
  intro f d
  have starts' : toolStarts (fs ++ [f]) = toolStarts fs ++ [(i, id, name)] := toolStarts_snoc fs f
  have unknown : i ∉ st.toolCallIndexes.keys := by
    rw [Dict.keys, K.indexes]
    intro h
    obtain ⟨e, he, rfl⟩ := List.mem_map.mp h
    obtain ⟨k, hk, rfl⟩ := List.mem_mapIdx.mp he
    exact fresh (List.mem_map_of_mem (f := Prod.fst) (mem_toolStarts.mp (List.getElem_mem hk)))
  have ed : d = (((toolStarts fs).length : Int), st.toolCallIndexes.set i (toolStarts fs).length) := by
    have len : st.toolCallIndexes.entries.length = (toolStarts fs).length := by rw [K.indexes, List.length_mapIdx]
    show setDefault _ _ _ = _
    rw [setDefault, Dict.get?_eq_none.mpr unknown, len]
  have free : ((toolStarts fs).length : Int) ∉ s.buffer.keys := by
    rw [Dict.keys, K.buffer, mapIdx_fst _ fun k t => bufferOf fs t]
    intro h
    obtain ⟨k, hk, e⟩ := List.mem_map.mp h
    have lt := List.mem_range.mp hk
    have : (k : Int) = ((toolStarts fs).length : Int) := e
    omega
  rw [ed, starts', List.mapIdx_append, List.mapIdx_append]
  constructor
  · rw [Dict.entries_set_of_not_mem unknown, K.indexes]
    simp
  · have opened : bufferOf (fs ++ [f]) (i, id, name) = { id, name, arguments := "" } := by
      have none := (W.gather_fresh fresh).2.2.2
      rw [bufferOf_snoc rfl]
      simp [bufferOf, none]
    have old : (toolStarts fs).mapIdx (fun k t => ((k : Int), bufferOf (fs ++ [f]) t)) =
        (toolStarts fs).mapIdx fun k t => ((k : Int), bufferOf fs t) := by
      refine List.mapIdx_eq_mapIdx_iff.mpr fun k hk => ?_
      rw [bufferOf_snoc rfl]
    rw [bufferCall]
    simp only [Option.getD_some, Dict.get?_eq_none.mpr free]
    rw [Dict.entries_set_of_not_mem free, K.buffer, old]
    simp [ToolCallDelta.open, opened]

/-- A fragment without id and name extends the arguments. -/
lemma extend_arguments (buf : CallBuffer) (index : Option Int) (piece : String) :
    buf.extend { index, function := some { arguments := some piece } } =
      { buf with arguments := buf.arguments ++ piece } := by
  obtain ⟨id, name, arguments, thought, thoughtSignature⟩ := buf
  by_cases unnamed : id = ""
  · by_cases nameless : name = ""
    · simp [CallBuffer.extend, unnamed, nameless]
    · simp [CallBuffer.extend, unnamed, nameless]
  · by_cases nameless : name = ""
    · simp [CallBuffer.extend, unnamed, nameless]
    · simp [CallBuffer.extend, unnamed, nameless]

/-- A fragment of a call goes to its number. -/
lemma KeepsCalls.delta (K : KeepsCalls fs st s) (W : Wellformed fs) {id name : String} (piece : String)
    (mem : (i, .toolUse id name) ∈ starts fs) :
    let f : Frame := .inputJsonDelta i piece
    let d := setDefault st.toolCallIndexes i st.toolCallIndexes.entries.length
    d.2 = st.toolCallIndexes ∧
      (bufferCall s.buffer { index := some d.1, function := some { arguments := some piece } }).entries =
        (toolStarts fs).mapIdx fun k t => ((k : Int), bufferOf (fs ++ [f]) t) := by
  intro f d
  obtain ⟨k, hk⟩ := List.getElem?_of_mem (mem_toolStarts (t := (i, id, name)).mpr mem)
  obtain ⟨known, entry⟩ := K.number hk
  have ed : d = ((k : Int), st.toolCallIndexes) := by
    show setDefault _ _ _ = _
    rw [setDefault, known]
  rw [ed]
  refine ⟨rfl, ?_⟩
  rw [bufferCall]
  simp only [Option.getD_some, entry]
  rw [Dict.entries_set_of_mem (Dict.mem_keys.mpr ⟨_, entry⟩), K.buffer]
  refine List.ext_getElem (by simp) fun j _ hj => ?_
  obtain ⟨hk', ek⟩ := List.getElem?_eq_some_iff.mp hk
  rw [List.length_mapIdx] at hj
  rw [List.getElem_map, List.getElem_mapIdx, List.getElem_mapIdx]
  by_cases e : j = k
  · subst e
    rw [Dict.replace, if_pos rfl, ek]
    rw [extend_arguments]
    simp [bufferOf, Frame.argumentsFor, f]
  · have ne : (toolStarts fs)[j].1 ≠ i := by
      intro same
      have keys : ((toolStarts fs).map Prod.fst)[j]? = ((toolStarts fs).map Prod.fst)[k]? := by
        rw [List.getElem?_map, List.getElem?_map, hk, List.getElem?_eq_getElem hj]
        exact congrArg some same
      exact e ((List.getElem?_inj (by simpa using hj) (toolStarts_distinct W)).mp keys)
    have other : (j : Int) ≠ (k : Int) := fun h => e (Int.ofNat.inj h)
    have elsewhere : Frame.argumentsFor (toolStarts fs)[j].1 f = "" := if_neg fun h => ne h.symm
    rw [Dict.replace, if_neg other, bufferOf_snoc elsewhere]

/-- A frame that is for no call leaves the calls. -/
lemma KeepsCalls.silent {st' : StreamState} {s' : Assembly} (K : KeepsCalls fs st s)
    (starts' : toolStarts (fs ++ [f]) = toolStarts fs) (none : ∀ i, Frame.argumentsFor i f = "")
    (indexes : st'.toolCallIndexes = st.toolCallIndexes) (buffer : s'.buffer = s.buffer) :
    KeepsCalls (fs ++ [f]) st' s' := by
  refine ⟨by rw [indexes, K.indexes, starts'], ?_⟩
  rw [buffer, K.buffer, starts']
  refine List.mapIdx_eq_mapIdx_iff.mpr fun k hk => ?_
  rw [bufferOf_snoc (none _)]

/-- One frame more. -/
lemma KeepsCalls.frame (K : KeepsCalls fs st s) (W : Wellformed fs) (next : Follows fs f) :
    KeepsCalls (fs ++ [f]) (st.frame f).1 ((st.frame f).2.toList.foldl Assembly.step s) := by
  have same : f.start = none → toolStarts (fs ++ [f]) = toolStarts fs := by
    intro none
    rw [toolStarts_snoc, none]
    exact List.append_nil _
  cases f with
  | blockStart i b =>
    cases b with
    | toolUse id name =>
      obtain ⟨indexes, buffer⟩ := K.start W id name next.1
      exact ⟨indexes, buffer⟩
    | _ =>
      refine K.silent ?_ (fun _ => rfl) rfl rfl
      rw [toolStarts_snoc]
      exact List.append_nil _
  | thinkingDelta i piece => exact K.silent (same rfl) (fun _ => rfl) modify_indexes rfl
  | signatureDelta i piece => exact K.silent (same rfl) (fun _ => rfl) modify_indexes rfl
  | textDelta i piece => exact K.silent (same rfl) (fun _ => rfl) modify_indexes rfl
  | inputJsonDelta i piece =>
    obtain ⟨t, ht, rfl⟩ := List.mem_map.mp next
    obtain ⟨indexes, buffer⟩ := K.delta W piece (mem_toolStarts.mp ht)
    refine ⟨?_, buffer.trans ?_⟩
    · rw [same rfl, ← K.indexes]
      exact congrArg Dict.entries indexes
    · rw [same rfl]
  | messageDelta stopReason => exact K.silent (same rfl) (fun _ => rfl) rfl rfl
  | other => exact K.silent (same rfl) (fun _ => rfl) rfl rfl

/-! ## The texts -/

/-- One frame more. -/
lemma KeepsTexts.frame (K : KeepsTexts fs s) :
    KeepsTexts (fs ++ [f]) ((st.frame f).2.toList.foldl Assembly.step s) := by
  obtain ⟨content, reasoning, signature, redacted, raw⟩ := K
  have starts' : (starts (fs ++ [f])).filterMap asRedacted =
      s.redactedThinkingBlocks ++ f.start.toList.filterMap asRedacted := by
    rw [starts_snoc, List.filterMap_append, redacted]
  cases f with
  | blockStart i b =>
    cases b with
    | _ =>
      refine ⟨?_, ?_, ?_, ?_, raw⟩
      · simp [StreamState.frame, Assembly.step, content, Frame.text]
      · simp [StreamState.frame, Assembly.step, reasoning, Frame.thinking]
      · simp [StreamState.frame, Assembly.step, signature, Frame.signature]
      · rw [starts']
        simp [StreamState.frame, Assembly.step, asRedacted, Frame.start, List.filterMap_cons]
  | _ =>
    refine ⟨?_, ?_, ?_, ?_, raw⟩
    · simp [StreamState.frame, Assembly.step, content, Frame.text]
    · simp [StreamState.frame, Assembly.step, reasoning, Frame.thinking]
    · simp [StreamState.frame, Assembly.step, signature, Frame.signature]
    · rw [starts']
      simp [StreamState.frame, Assembly.step, Frame.start]

/-! ## Every cut -/

/-- One frame more. -/
lemma after_snoc (st : StreamState) (fs : List Frame) (f : Frame) :
    st.after (fs ++ [f]) = ((st.after fs).frame f).1 := by
  rw [StreamState.after, List.foldl_append]
  rfl

/-- Frames in a row. -/
lemma chunks_append (st : StreamState) (fs gs : List Frame) :
    st.chunks (fs ++ gs) = st.chunks fs ++ (st.after fs).chunks gs := by
  induction fs generalizing st with
  | nil => rfl
  | cons f fs ih =>
    rw [List.cons_append, StreamState.chunks, StreamState.chunks, ih, List.append_assoc]
    rfl

/-- Behind every frame the provider and the assembler hold what was received. -/
theorem streamed (W : Wellformed fs) :
    Streamed fs (StreamState.after {} fs) ((StreamState.chunks {} fs).foldl Assembly.step {}) := by
  induction W with
  | nil => exact ⟨⟨rfl, by simp [starts]⟩, ⟨rfl, rfl⟩, ⟨rfl, rfl, rfl, rfl, rfl⟩⟩
  | @snoc fs f W next ih =>
    obtain ⟨blocks, calls, texts⟩ := ih
    rw [after_snoc, chunks_append, List.foldl_append]
    have one : (StreamState.after {} fs).chunks [f] = ((StreamState.after {} fs).frame f).2.toList :=
      List.append_nil _
    rw [one]
    exact ⟨blocks.frame W next, calls.frame W next, texts.frame⟩

end

end OpenAgentd.Provider
