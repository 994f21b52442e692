import OpenAgentd.Provider.Streamed
import OpenAgentd.Store.Kept

/-!
# Replaying the blocks of an answer

What a request sends back of an answer that was streamed, assembled, stored and read back (`Sent`), against what
the wire delivered (`Verbatim`). After a normal end the ordered blocks were stored, and everything comes back
except calls that are dropped on the way: a call needs a name and arguments that parse.

An interrupt takes the last chunk, so the flat texts stand in for the blocks. They are all the thinking and all the
signatures that have arrived, put together; that is a block of the wire only where one block has contributed, and
has contributed all of it (`interrupted_thinking_is_merged`).
-/

namespace OpenAgentd.Provider
open OpenAgentd.Lib OpenAgentd.Loop OpenAgentd.Store

/-- The chunks a turn consumes: all of them, or those of the frames before an interrupt. -/
def consumed (frames : List Frame) : Option Nat → List StreamItem
  | none => stream frames
  | some n => StreamState.chunks {} (frames.take n)

/-- The frames that have arrived when a turn stops. -/
def arrived (frames : List Frame) : Option Nat → List Frame
  | none => frames
  | some n => frames.take n

def isThinking : RawBlock → Bool
  | .thinking .. => true
  | _ => false

def isRedacted : RawBlock → Bool
  | .redactedThinking _ => true
  | _ => false

/-- Neither an empty text nor unsigned thinking. -/
def sendable : RawBlock → Bool
  | .thinking _ signature => signature ≠ ""
  | .text text => text ≠ ""
  | _ => true

/-- The blocks of which everything has arrived. -/
def completed (part whole : List Frame) : List RawBlock :=
  ((starts part).filter fun p => blockOf part p = blockOf whole p).map (blockOf whole)

/-- The content that a request sends for an answer, against the wire. -/
structure Verbatim (frames : List Frame) (stop : Option Nat) (content : List RawBlock) : Prop where
  thinking : (content.filter isThinking).Sublist (completed (arrived frames stop) frames)
  redacted : content.filter isRedacted = (received (arrived frames stop)).filter isRedacted
  whole : stop = none → content = (received frames).filter sendable

/-- What a request sends for the message of a row, between the turns of the other messages. -/
inductive Sent (loads : String → Option Json) (rows : List Row) (r : Row) (content : List RawBlock) : Prop where
  | mk {front m back} :
    deserializeMessages loads rows = front ++ m :: back →
    m.dbId = some r.id →
    assistantTurns (splitMessages (deserializeMessages loads rows)).2 =
      turnsOf (validToolResultIds (deserializeMessages loads rows)) front ++
        pushTurn [] .assistant (content.map .block) ++
          turnsOf (validToolResultIds (deserializeMessages loads rows)) back →
    Sent loads rows r content

/-- Nothing of the thinking that has arrived is mixed: there is no text, or no signature, or all of it is one
block's and that block is complete. -/
def Unmixed (part whole : List Frame) : Prop :=
  (∀ i, gather (Frame.thinkingFor i) part = "") ∨ (∀ i, gather (Frame.signatureFor i) part = "") ∨
    ∃ i, gather (Frame.thinkingFor i) part = gather (Frame.thinkingFor i) whole ∧
      gather (Frame.signatureFor i) part = gather (Frame.signatureFor i) whole ∧
      ∀ j, j ≠ i → gather (Frame.thinkingFor j) part = "" ∧ gather (Frame.signatureFor j) part = ""

/-- When an answer is replayed verbatim: at a normal end every call has a name and arguments that parse, at an
interrupt the thinking is not mixed. -/
def Replayable (loads : String → Option Json) (frames : List Frame) : Option Nat → Prop
  | none => ∀ id name arguments, .toolUse id name arguments ∈ received frames →
      name ≠ "" ∧ (loads arguments).isSome
  | some n => Unmixed (frames.take n) frames

/-! ## Thinking that has arrived -/

/-- Every piece is for one block. -/
def Divided (piece : Frame → String) (pieceFor : Int → Frame → String) : Prop :=
  ∀ f, ∃ i, pieceFor i f = piece f ∧ ∀ j, j ≠ i → pieceFor j f = ""

section
variable {part whole : List Frame} {piece : Frame → String} {pieceFor : Int → Frame → String} {i : Int}

/-- Thinking is divided by block. -/
lemma divided_thinking : Divided Frame.thinking Frame.thinkingFor := by
  intro f
  cases f with
  | thinkingDelta i s => exact ⟨i, if_pos rfl, fun j ne => if_neg (Ne.symm ne)⟩
  | _ => exact ⟨0, rfl, fun _ _ => rfl⟩

/-- Signatures are divided by block. -/
lemma divided_signature : Divided Frame.signature Frame.signatureFor := by
  intro f
  cases f with
  | signatureDelta i s => exact ⟨i, if_pos rfl, fun j ne => if_neg (Ne.symm ne)⟩
  | _ => exact ⟨0, rfl, fun _ _ => rfl⟩

/-- There is nothing together if and only if no block has anything. -/
lemma Divided.eq_empty (D : Divided piece pieceFor) :
    gather piece part = "" ↔ ∀ i, gather (pieceFor i) part = "" := by
  constructor
  · intro none i
    refine gather_eq_empty.mpr fun f hf => ?_
    obtain ⟨k, here, others⟩ := D f
    by_cases e : i = k
    · rw [e, here]
      exact gather_eq_empty.mp none f hf
    · exact others i e
  · intro none
    refine gather_eq_empty.mpr fun f hf => ?_
    obtain ⟨k, here, -⟩ := D f
    rw [← here]
    exact gather_eq_empty.mp (none k) f hf

/-- One block has all there is if and only if the others have nothing. -/
lemma Divided.eq_one (D : Divided piece pieceFor) :
    gather piece part = gather (pieceFor i) part ↔ ∀ j, j ≠ i → gather (pieceFor j) part = "" := by
  constructor
  · intro e j ne
    have le : ∀ f ∈ part, (pieceFor i f).length ≤ (piece f).length := by
      intro f _
      obtain ⟨k, here, others⟩ := D f
      by_cases ik : i = k
      · rw [ik, here]
      · rw [others i ik]
        exact Nat.zero_le _
    have same := length_eq_of_gather le (congrArg String.length e.symm)
    refine gather_eq_empty.mpr fun f hf => ?_
    obtain ⟨k, here, others⟩ := D f
    by_cases jk : j = k
    · have none : (piece f).length = 0 := by
        rw [← same f hf, others i fun ik => ne (jk.trans ik.symm)]
        rfl
      rw [jk, here]
      exact String.length_eq_zero_iff.mp none
    · exact others j jk
  · intro none
    refine gather_congr fun f hf => ?_
    obtain ⟨k, here, others⟩ := D f
    by_cases ik : i = k
    · rw [ik, here]
    · have empty := gather_eq_empty.mp (none k fun e => ik e.symm) f hf
      rw [others i ik, ← here, empty]

/-- The flat thinking is a complete block if and only if nothing is mixed. -/
lemma mem_completed_iff (W : Wellformed part) (thinking : gather Frame.thinking part ≠ "")
    (signature : gather Frame.signature part ≠ "") :
    .thinking (gather Frame.thinking part) (gather Frame.signature part) ∈ completed part whole ↔
      Unmixed part whole := by
  constructor
  · intro mem
    obtain ⟨⟨i, b⟩, hp, e⟩ := List.mem_map.mp mem
    obtain ⟨-, same⟩ := List.mem_filter.mp hp
    have same : blockOf part (i, b) = blockOf whole (i, b) := of_decide_eq_true same
    cases b with
    | thinking =>
      obtain ⟨t, s⟩ := RawBlock.thinking.inj same
      obtain ⟨t', s'⟩ := RawBlock.thinking.inj (same.trans e)
      have noThinking := divided_thinking.eq_one.mp t'.symm
      have noSignature := divided_signature.eq_one.mp s'.symm
      exact .inr (.inr ⟨i, t, s, fun j ne => ⟨noThinking j ne, noSignature j ne⟩⟩)
    | _ => cases e
  · intro unmixed
    rcases unmixed with none | none | ⟨i, t, s, others⟩
    · exact absurd (divided_thinking.eq_empty.mpr none) thinking
    · exact absurd (divided_signature.eq_empty.mpr none) signature
    · have allThinking := divided_thinking.eq_one.mpr fun j ne => (others j ne).1
      have allSignature := divided_signature.eq_one.mpr fun j ne => (others j ne).2
      have same : blockOf part (i, .thinking) = blockOf whole (i, .thinking) :=
        congrArg₂ RawBlock.thinking t s
      have started : (i, .thinking) ∈ starts part := by
        rw [allThinking, Ne, gather_eq_empty] at thinking
        push Not at thinking
        obtain ⟨f, hf, some⟩ := thinking
        cases f with
        | thinkingDelta j piece =>
          rw [Frame.thinkingFor] at some
          split at some
          · rename_i e
            exact e ▸ W.thinking_mem hf
          · exact absurd rfl some
        | _ => exact absurd rfl some
      refine List.mem_map.mpr ⟨(i, .thinking), List.mem_filter.mpr ⟨started, decide_eq_true same⟩, ?_⟩
      rw [← same, allThinking, allSignature]
      rfl

end

/-! ## The message that is read back -/

/-- A call that reaches a request: it has a name, and arguments that parse. -/
def keptBlock (loads : String → Option Json) : RawBlock → Bool
  | .thinking _ signature => signature ≠ ""
  | .redactedThinking _ => true
  | .text text => text ≠ ""
  | .toolUseRef _ => false
  | .toolUse _ name arguments => name ≠ "" && (loads arguments).isSome

section
variable {loads : String → Option Json} {frames part : List Frame} {stop : Option Nat} {s : Assembly}
  {a m : ChatMessage} {r : Row} {rows : List Row} {valid : List String} {tc : ToolCall} {id : String}

/-- The reader's message of an assembled answer. -/
lemma readBack (saved : SavedAs r { s.message loads with oid := a.oid }) :
    let m := dropPartialCalls loads (rowMessage r)
    m.content = orNone s.fullContent ∧ m.reasoningContent = orNone s.reasoning ∧
      m.reasoningSignature = orNone s.reasoningSignature ∧
      m.redactedThinkingBlocks = s.redactedThinkingBlocks ∧ m.rawContentBlocks = s.rawContentBlocks ∧
      m.toolCalls = (((s.calls.filter (executable loads)).map CallBuffer.toolCall).filter fun tc =>
        (loads tc.arguments).isSome) := by
  obtain ⟨id, seq, pinned, rfl⟩ := saved
  exact ⟨rfl, rfl, nonEmpty_orNone _, rfl, rfl, rfl⟩

/-- The calls in the buffer come in the order of their starts. -/
lemma KeepsCalls.calls {st : StreamState} (K : KeepsCalls part st s) :
    s.calls = (toolStarts part).map (bufferOf part) := by
  have asc : s.buffer.entries.Pairwise fun a b => a.1 < b.1 := by
    rw [K.buffer, List.pairwise_iff_getElem]
    intro j k hj hk lt
    simpa using lt
  rw [Assembly.calls, sortOn_eq_self asc, K.buffer]
  refine List.ext_getElem (by simp) fun k _ _ => ?_
  simp

/-- A call that reaches a request. -/
def keptCall (loads : String → Option Json) (part : List Frame) (t : Int × String × String) : Bool :=
  keptBlock loads (blockOf part (t.1, .toolUse t.2.1 t.2.2))

/-- What the reader leaves of the calls the assembler keeps. -/
lemma parses_and_executable (empty : loads "" = none) (buf : CallBuffer) :
    ((loads buf.arguments).isSome && executable loads buf) =
      (decide (buf.name ≠ "") && (loads buf.arguments).isSome) := by
  unfold executable
  by_cases none : buf.arguments = ""
  · simp [none, empty]
  · simp only [none, decide_false, Bool.false_or]
    cases (loads buf.arguments).isSome with
    | true => simp
    | false => simp

/-- The calls that are read back. -/
lemma readBack_toolCalls (empty : loads "" = none) (e : s.calls = (toolStarts part).map (bufferOf part)) :
    (((s.calls.filter (executable loads)).map CallBuffer.toolCall).filter fun tc =>
      (loads tc.arguments).isSome) =
        ((toolStarts part).filter (keptCall loads part)).map fun t => (bufferOf part t).toolCall := by
  rw [e, List.filter_map, List.filter_filter, List.filter_map, List.map_map]
  show List.map _ _ = List.map (CallBuffer.toolCall ∘ bufferOf part) _
  exact congrArg _ (List.filter_congr fun t _ => parses_and_executable empty (bufferOf part t))

/-- Where the ids differ, the call of an id is found. -/
lemma toolById_eq_some (distinct : (m.toolCalls.map ToolCall.id).Nodup) (named : id ≠ "") :
    toolById m id = some tc ↔ tc ∈ m.toolCalls ∧ tc.id = id := by
  unfold toolById
  constructor
  · intro h
    have found := List.find?_some h
    exact ⟨List.mem_reverse.mp (List.mem_of_find?_eq_some h), (decide_eq_true_iff.mp found).2⟩
  · rintro ⟨mem, e⟩
    have some_ : (m.toolCalls.reverse.find? fun tc => decide (tc.id ≠ "" ∧ tc.id = id)).isSome := by
      rw [List.find?_isSome]
      exact ⟨tc, List.mem_reverse.mpr mem, decide_eq_true ⟨e ▸ named, e⟩⟩
    obtain ⟨tc', h⟩ := Option.isSome_iff_exists.mp some_
    have mem' := List.mem_reverse.mp (List.mem_of_find?_eq_some h)
    have found := List.find?_some h
    have e' := (decide_eq_true_iff.mp found).2
    rw [h, List.inj_on_of_nodup_map distinct mem' mem (e'.trans e.symm)]

/-- A stored block is sent as it was received, if it is kept. -/
lemma blockFromRaw_rawOf (empty : loads "" = none) (W : Wellformed part)
    (calls : m.toolCalls = ((toolStarts part).filter (keptCall loads part)).map fun t => (bufferOf part t).toolCall)
    (answered : ∀ tc ∈ m.toolCalls, tc.id ∈ valid) {p : Int × ContentBlock} (hp : p ∈ starts part) :
    blockFromRaw m valid (rawOf part p) =
      if keptBlock loads (blockOf part p) then some (blockOf part p) else none := by
  obtain ⟨i, b⟩ := p
  cases b with
  | thinking => simp [rawOf, blockOf, blockFromRaw, keptBlock]
  | redactedThinking data => simp [rawOf, blockOf, blockFromRaw, keptBlock]
  | text => simp [rawOf, blockOf, blockFromRaw, keptBlock]
  | toolUse id name =>
    have mem : (i, id, name) ∈ toolStarts part := mem_toolStarts.mpr hp
    have distinct : (m.toolCalls.map ToolCall.id).Nodup := by
      rw [calls, List.map_map]
      exact W.toolIds.1.sublist (List.filter_sublist.map _)
    have named : id ≠ "" := W.toolIds.2 _ mem
    show blockFromRaw m valid (.toolUseRef id) = _
    unfold blockFromRaw
    dsimp only
    split_ifs with kept
    · have found : toolById m id = some (bufferOf part (i, id, name)).toolCall := by
        rw [toolById_eq_some distinct named, calls]
        exact ⟨List.mem_map_of_mem (List.mem_filter.mpr ⟨mem, kept⟩), rfl⟩
      have called := ((toolById_eq_some distinct named).mp found).1
      have full : gather (Frame.argumentsFor i) part ≠ "" := by
        intro none
        simp [blockOf, keptBlock, none, empty] at kept
      rw [found]
      simp only [if_pos (answered _ called)]
      show some (RawBlock.toolUse id name (argumentsOr _)) = _
      rw [argumentsOr, if_neg (show (bufferOf part (i, id, name)).toolCall.arguments ≠ "" from full)]
      rfl
    · have lost : toolById m id = none := by
        rw [Option.eq_none_iff_forall_ne_some]
        intro tc found
        obtain ⟨called, e⟩ := (toolById_eq_some distinct named).mp found
        rw [calls] at called
        obtain ⟨t, ht, rfl⟩ := List.mem_map.mp called
        obtain ⟨mem', kept'⟩ := List.mem_filter.mp ht
        rw [List.inj_on_of_nodup_map W.toolIds.1 mem' mem e] at kept'
        exact kept kept'
      rw [lost]

/-- The stored blocks are sent as they were received, those that are kept. -/
lemma blocksFromRawContent_eq (empty : loads "" = none) (W : Wellformed part)
    (calls : m.toolCalls = ((toolStarts part).filter (keptCall loads part)).map fun t => (bufferOf part t).toolCall)
    (answered : ∀ tc ∈ m.toolCalls, tc.id ∈ valid) (raw : m.rawContentBlocks = (starts part).map (rawOf part)) :
    blocksFromRawContent m valid = (received part).filter (keptBlock loads) := by
  rw [blocksFromRawContent, raw, received, List.filter_map, List.filterMap_map]
  have each : ∀ p ∈ starts part, (blockFromRaw m valid ∘ rawOf part) p =
      if (keptBlock loads ∘ blockOf part) p then some (blockOf part p) else none :=
    fun p hp => blockFromRaw_rawOf empty W calls answered hp
  rw [List.filterMap_congr each]
  induction starts part with
  | nil => rfl
  | cons p ps ih =>
    rw [List.filterMap_cons, List.filter_cons]
    split_ifs
    · exact congrArg _ ih
    · exact ih

/-- The flat thinking. -/
lemma flatThinking_eq {thinking signature : String} (ht : m.reasoningContent = orNone thinking)
    (hs : m.reasoningSignature = orNone signature) :
    flatThinking m = if thinking ≠ "" ∧ signature ≠ "" then some (.thinking thinking signature) else none := by
  rw [flatThinking, ht, hs]
  unfold orNone
  by_cases t : thinking = ""
  · simp [t]
  · by_cases s : signature = ""
    · simp [t, s]
    · simp [t, s]

/-- An empty text is no block. -/
lemma textBlock_orNone {text : String} (none : text = "") : textBlock (orNone text) = .none := by
  rw [none]
  rfl

/-- Text does not think. -/
lemma filter_textBlock (content : Option String) :
    (textBlock content).toList.filter isThinking = [] ∧ (textBlock content).toList.filter isRedacted = [] := by
  unfold textBlock
  split
  · split
    · exact ⟨rfl, rfl⟩
    · exact ⟨rfl, rfl⟩
  · exact ⟨rfl, rfl⟩

/-- The thinking and the redacted blocks of the flat form. -/
lemma flat_content (valid : List String) (raw : m.rawContentBlocks = [])
    (redacted : m.redactedThinkingBlocks = (starts part).filterMap asRedacted) :
    (assistantContent valid m).filter isThinking = (flatThinking m).toList ∧
      (assistantContent valid m).filter isRedacted = (received part).filter isRedacted := by
  obtain ⟨noThinking, noRedacted⟩ := filter_textBlock m.content
  have calls : ∀ q : RawBlock → Bool, (∀ tc, q (toolUseBlock tc) = false) →
      (((m.toolCalls.filter fun tc => tc.id ∈ valid).map toolUseBlock).filter q) = [] := by
    intro q none
    rw [List.filter_eq_nil_iff]
    intro b hb
    obtain ⟨tc, -, rfl⟩ := List.mem_map.mp hb
    simp [none tc]
  have thinking : (flatThinking m).toList.filter isThinking = (flatThinking m).toList ∧
      (flatThinking m).toList.filter isRedacted = [] := by
    unfold flatThinking
    split
    · split
      · exact ⟨rfl, rfl⟩
      · exact ⟨rfl, rfl⟩
    · exact ⟨rfl, rfl⟩
  have blocks : ((starts part).filterMap asRedacted).filter isThinking = [] ∧
      ((starts part).filterMap asRedacted).filter isRedacted = (received part).filter isRedacted := by
    rw [received]
    induction starts part with
    | nil => exact ⟨rfl, rfl⟩
    | cons p ps ih =>
      obtain ⟨i, b⟩ := p
      cases b with
      | redactedThinking data => exact ⟨ih.1, congrArg (RawBlock.redactedThinking data :: ·) ih.2⟩
      | _ => exact ih
  rw [assistantContent, if_neg (not_not.mpr raw), redacted]
  simp only [List.filter_append, noThinking, noRedacted, thinking.1, thinking.2, blocks.1, blocks.2]
  rw [calls isThinking fun _ => rfl, calls isRedacted fun _ => rfl]
  simp

/-- What is sent for a row is the content of its message. -/
lemma Sent.content_eq {content : List RawBlock} (S : Sent loads rows r content) (distinct : (rows.map Row.id).Nodup)
    (other : ¬ (deserializeMessages loads rows).getLast?.any fun m => m.role = .assistant)
    (mem : m ∈ deserializeMessages loads rows) (name : m.dbId = some r.id) (role : m.role = .assistant) :
    content = assistantContent (validToolResultIds (deserializeMessages loads rows)) m := by
  have all := assistantTurns_splitMessages other
  obtain @⟨front, m', back, e, name', turns⟩ := S
  have same : m' = m := by
    refine deserializeMessages_unique distinct ?_ mem (name'.trans name.symm)
    rw [e]
    exact List.mem_append_right _ List.mem_cons_self
  rw [same] at e
  generalize validToolResultIds (deserializeMessages loads rows) = valid at *
  have cut : turnsOf valid (front ++ m :: back) = turnsOf valid front ++
      pushTurn [] .assistant ((assistantContent valid m).map .block) ++ turnsOf valid back := by
    simp only [turnsOf, List.filter_append, List.flatMap_append]
    rw [List.filter_cons_of_pos (by simpa using role), List.flatMap_cons, List.append_assoc]
  rw [turns, e, cut, List.append_cancel_right_eq, List.append_cancel_left_eq] at all
  have blocks : content.map WireBlock.block = (assistantContent valid m).map .block := by
    unfold pushTurn at all
    split at all
    · rename_i none
      split at all
      · rename_i none'
        rw [none, none']
      · cases all
    · split at all
      · cases all
      · exact congrArg Turn.content (List.singleton_inj.mp all)
  exact List.map_injective_iff.mpr (fun _ _ h => WireBlock.block.inj h) blocks

end

/-! ## The variables of the assembler at a stop -/

/-- What the assembler holds when a turn stops. -/
structure Stopped (frames : List Frame) (stop : Option Nat) (s : Assembly) : Prop where
  calls : s.calls = (toolStarts (arrived frames stop)).map (bufferOf (arrived frames stop))
  content : s.fullContent = gather Frame.text (arrived frames stop)
  reasoning : s.reasoning = gather Frame.thinking (arrived frames stop)
  signature : s.reasoningSignature = gather Frame.signature (arrived frames stop)
  redacted : s.redactedThinkingBlocks = (starts (arrived frames stop)).filterMap asRedacted
  raw : s.rawContentBlocks = if stop = none then (starts frames).map (rawOf frames) else []

section
variable {loads : String → Option Json} {frames : List Frame} {stop : Option Nat} {m : ChatMessage} {r : Row}
  {rows : List Row} {content : List RawBlock} {oid : Nat}

/-- The last chunk carries the blocks. -/
lemma stopped_ended (W : Wellformed frames) : Stopped frames none ((stream frames).foldl Assembly.step {}) := by
  obtain ⟨⟨order, blocks⟩, calls, texts⟩ := streamed W
  have numbered := calls.calls
  rw [stream, List.foldl_append]
  generalize StreamState.after {} frames = st at *
  generalize (StreamState.chunks {} frames).foldl Assembly.step {} = s at *
  have all : (starts frames).map (rawOf frames) = st.rawBlockOrder.filterMap st.rawBlocks.get? := by
    rw [order, List.filterMap_map, ← List.filterMap_eq_map]
    exact List.filterMap_congr fun p hp => (blocks p hp).symm
  unfold StreamState.lastChunk
  split
  · rename_i none
    have nothing : starts frames = [] := List.map_eq_nil_iff.mp (order.symm.trans none)
    refine ⟨numbered, texts.content, texts.reasoning, texts.signature, texts.redacted, ?_⟩
    rw [if_pos rfl, nothing]
    exact texts.raw
  · refine ⟨numbered, ?_, ?_, ?_, ?_, ?_⟩
    · exact String.append_empty.trans texts.content
    · exact String.append_empty.trans texts.reasoning
    · exact String.append_empty.trans texts.signature
    · exact (List.append_nil _).trans texts.redacted
    · rw [if_pos rfl, all]
      rfl

/-- Where the stream stops. -/
lemma stopped (W : Wellformed frames) (stop : Option Nat) :
    Stopped frames stop ((consumed frames stop).foldl Assembly.step {}) := by
  cases stop with
  | none => exact stopped_ended W
  | some n =>
    obtain ⟨-, calls, texts⟩ := streamed (W.prefix_ (List.take_prefix n frames))
    exact ⟨calls.calls, texts.content, texts.reasoning, texts.signature, texts.redacted, texts.raw⟩

/-- Without blocks nothing was received. -/
lemma gather_of_starts_nil (W : Wellformed frames) (none : starts frames = []) :
    gather Frame.thinking frames = "" ∧ gather Frame.text frames = "" := by
  have nothing : ∀ {gs : List Frame} {p : Int × ContentBlock}, gs <+: frames → p ∉ starts gs := by
    intro gs p pre mem
    have mem' := (starts_mono pre).subset mem
    rw [none] at mem'
    cases mem'
  refine ⟨gather_eq_empty.mpr fun f hf => ?_, gather_eq_empty.mpr fun f hf => ?_⟩
  · obtain ⟨gs, pre, next⟩ := W.follows hf
    cases f with
    | thinkingDelta i s => exact absurd next (nothing pre)
    | _ => rfl
  · obtain ⟨gs, pre, next⟩ := W.follows hf
    cases f with
    | textDelta i s => exact absurd next (nothing pre)
    | _ => rfl

/-- The blocks that are sent are all blocks to be sent if and only if no call is lost. -/
lemma filter_keptBlock_eq_iff :
    (received frames).filter (keptBlock loads) = (received frames).filter sendable ↔
      Replayable loads frames none := by
  have le : ∀ b, keptBlock loads b = true → sendable b = true := by
    intro b kept
    cases b with
    | thinking t s => exact kept
    | text t => exact kept
    | _ => rfl
  have noRef : ∀ b ∈ received frames, ∀ id, b ≠ .toolUseRef id := by
    intro b hb id
    obtain ⟨⟨i, block⟩, -, rfl⟩ := List.mem_map.mp hb
    cases block with
    | _ => exact nofun
  constructor
  · intro same id name arguments mem
    have mem' : RawBlock.toolUse id name arguments ∈ (received frames).filter sendable :=
      List.mem_filter.mpr ⟨mem, rfl⟩
    rw [← same] at mem'
    have kept := (List.mem_filter.mp mem').2
    simpa [keptBlock] using kept
  · intro ok
    refine List.filter_congr fun b hb => Bool.eq_iff_iff.mpr ⟨le b, fun sends => ?_⟩
    cases b with
    | thinking t s => exact sends
    | redactedThinking data => rfl
    | text t => exact sends
    | toolUseRef id => exact absurd rfl (noRef _ hb id)
    | toolUse id name arguments =>
      obtain ⟨named, parses⟩ := ok id name arguments hb
      simp [keptBlock, named, parses]

/-- A request sends an answer of Anthropic verbatim if and only if the answer is replayable. -/
theorem verbatim_iff (empty : loads "" = none) (W : Wellformed frames)
    (saved : SavedAs r { assemble loads (consumed frames stop) with oid }) (P : Placed r rows)
    (distinct : (rows.map Row.id).Nodup)
    (other : ¬ (deserializeMessages loads rows).getLast?.any fun m => m.role = .assistant)
    (S : Sent loads rows r content) : Verbatim frames stop content ↔ Replayable loads frames stop := by
  have T := stopped W stop
  have W' : Wellformed (arrived frames stop) := by
    cases stop with
    | none => exact W
    | some n => exact W.prefix_ (List.take_prefix n frames)
  unfold assemble at saved
  generalize (consumed frames stop).foldl Assembly.step {} = s at T saved
  obtain ⟨text, thinking, signature, redacted, raw, calls⟩ := readBack (a := { s.message loads with oid }) saved
  rw [readBack_toolCalls empty T.calls] at calls
  have rowCalls : r.toolCalls = ((s.calls.filter (executable loads)).map CallBuffer.toolCall) := by
    obtain ⟨id, seq, pinned, rfl⟩ := saved
    rfl
  have ids : (r.toolCalls.map ToolCall.id).Nodup ∧ ∀ tc ∈ r.toolCalls, tc.id ≠ "" := by
    rw [rowCalls, T.calls, List.filter_map, List.map_map]
    refine ⟨?_, fun tc htc => ?_⟩
    · rw [List.map_map]
      exact W'.toolIds.1.sublist (List.filter_sublist.map _)
    · obtain ⟨buf, hbuf, rfl⟩ := List.mem_map.mp htc
      obtain ⟨t, ht, rfl⟩ := List.mem_map.mp hbuf
      exact W'.toolIds.2 t (List.mem_of_mem_filter ht)
  obtain ⟨front, back, e, results⟩ := P.kept loads ids.2 ids.1
  have role : (dropPartialCalls loads (rowMessage r)).role = .assistant := by
    obtain ⟨id, seq, pinned, rfl⟩ := saved
    rfl
  have mem : dropPartialCalls loads (rowMessage r) ∈ deserializeMessages loads rows := by
    rw [e]
    exact List.mem_append_right _ List.mem_cons_self
  have sends := S.content_eq distinct other mem rfl role
  generalize dropPartialCalls loads (rowMessage r) = m at *
  have answered : ∀ tc ∈ m.toolCalls, tc.id ∈ validToolResultIds (deserializeMessages loads rows) := by
    intro tc htc
    obtain ⟨t, ht, tool, id⟩ := results tc htc
    have named : tc.id ≠ "" := by
      rw [calls] at htc
      obtain ⟨t, ht, rfl⟩ := List.mem_map.mp htc
      exact W'.toolIds.2 t (List.mem_of_mem_filter ht)
    rw [e]
    refine List.mem_map.mpr ⟨t, List.mem_filter.mpr ⟨?_, by simpa [tool, id] using named⟩, id⟩
    exact List.mem_append_right _ (List.mem_cons_of_mem _ ht)
  generalize validToolResultIds (deserializeMessages loads rows) = valid at *
  subst sends
  cases stop with
  | none =>
    -- the ordered blocks were stored
    have stored : m.rawContentBlocks = (starts frames).map (rawOf frames) := raw.trans T.raw
    have content : assistantContent valid m = (received frames).filter (keptBlock loads) := by
      unfold assistantContent
      split_ifs with none
      · exact blocksFromRawContent_eq empty W calls answered stored
      · have nothing : starts frames = [] := List.map_eq_nil_iff.mp (stored.symm.trans (not_not.mp none))
        obtain ⟨noThinking, noText⟩ := gather_of_starts_nil W nothing
        have noCalls : m.toolCalls = [] := by
          rw [calls]
          show List.map _ (List.filter _ (toolStarts frames)) = []
          rw [toolStarts, nothing]
          rfl
        have noRedacted : m.redactedThinkingBlocks = [] := by
          rw [redacted, T.redacted]
          show List.filterMap _ (starts frames) = []
          rw [nothing]
          rfl
        have flat := flatThinking_eq (m := m) thinking signature
        rw [T.reasoning] at flat
        rw [flat, noCalls, noRedacted, text, textBlock_orNone (T.content.trans noText), received, nothing,
          if_neg fun h => h.1 noThinking]
        rfl
    rw [content, ← filter_keptBlock_eq_iff]
    constructor
    · intro V
      exact V.whole rfl
    · intro same
      refine ⟨?_, ?_, fun _ => same⟩
      · have whole : completed frames frames = received frames := by
          simp [completed, received]
        show (List.filter _ _).Sublist (completed frames frames)
        rw [whole]
        exact List.filter_sublist.trans List.filter_sublist
      · rw [List.filter_filter]
        refine List.filter_congr fun b _ => ?_
        cases b with
        | redactedThinking data => rfl
        | _ => rfl
  | some n =>
    -- the flat texts stand in for the blocks
    obtain ⟨flat, blocks⟩ := flat_content valid (raw.trans T.raw) (redacted.trans T.redacted)
    have only := flatThinking_eq (m := m) thinking signature
    rw [T.reasoning, T.signature] at only
    have iff : ((assistantContent valid m).filter isThinking).Sublist (completed (frames.take n) frames) ↔
        Unmixed (frames.take n) frames := by
      rw [flat, only]
      split_ifs with some
      · rw [Option.toList_some, List.singleton_sublist]
        exact mem_completed_iff W' some.1 some.2
      · refine iff_of_true (List.nil_sublist _) ?_
        rw [not_and_or, not_not, not_not] at some
        cases some with
        | inl none => exact .inl (divided_thinking.eq_empty.mp none)
        | inr none => exact .inr (.inl (divided_signature.eq_empty.mp none))
    constructor
    · intro V
      exact iff.mp V.thinking
    · intro unmixed
      exact ⟨iff.mpr unmixed, blocks, fun none => by cases none⟩

/-- A message that is read back is sent. -/
lemma sent {front back : List ChatMessage}
    (other : ¬ (deserializeMessages loads rows).getLast?.any fun m => m.role = .assistant)
    (e : deserializeMessages loads rows = front ++ m :: back) (name : m.dbId = some r.id)
    (role : m.role = .assistant) :
    Sent loads rows r (assistantContent (validToolResultIds (deserializeMessages loads rows)) m) := by
  refine .mk e name ?_
  rw [assistantTurns_splitMessages other]
  generalize validToolResultIds (deserializeMessages loads rows) = valid
  rw [e]
  simp only [turnsOf, List.filter_append, List.flatMap_append]
  rw [List.filter_cons_of_pos (by simpa using role), List.flatMap_cons, List.append_assoc]

/-- Wherever a turn stops consuming the chunks, it stops at the end or behind some frame. -/
theorem consumed_of_prefix {items : List StreamItem} (h : items <+: stream frames) :
    ∃ stop, items = consumed frames stop := by
  have cut : ∀ (st : StreamState) {items : List StreamItem}, items <+: st.chunks frames →
      ∃ n, items = st.chunks (frames.take n) := by
    clear h
    induction frames with
    | nil =>
      intro st items h
      exact ⟨0, List.prefix_nil.mp h⟩
    | cons f fs ih =>
      intro st items h
      rw [StreamState.chunks] at h
      cases item : (st.frame f).2 with
      | none =>
        rw [item] at h
        obtain ⟨n, e⟩ := ih (st.frame f).1 h
        exact ⟨n + 1, by rw [List.take_succ_cons, StreamState.chunks, item, e]; rfl⟩
      | some x =>
        rw [item] at h
        cases items with
        | nil => exact ⟨0, rfl⟩
        | cons y ys =>
          obtain ⟨rfl, rest⟩ := List.cons_prefix_cons.mp h
          obtain ⟨n, e⟩ := ih (st.frame f).1 rest
          exact ⟨n + 1, by rw [List.take_succ_cons, StreamState.chunks, item, e]; rfl⟩
  have behind : items <+: StreamState.chunks {} frames → ∃ stop, items = consumed frames stop := by
    intro h
    obtain ⟨n, e⟩ := cut {} h
    exact ⟨some n, e⟩
  unfold stream at h
  cases last : (StreamState.after {} frames).lastChunk with
  | none =>
    rw [last, Option.toList_none, List.append_nil] at h
    exact behind h
  | some x =>
    rw [last] at h
    cases List.prefix_concat_iff.mp h with
    | inl e => exact ⟨none, by rw [consumed, stream, last, e]; rfl⟩
    | inr h => exact behind h

end

/-! ## Two thinking blocks -/

/-- Two thinking blocks, with a call between them. -/
def twoThinking : List Frame :=
  [.blockStart 0 .thinking, .thinkingDelta 0 "a", .signatureDelta 0 "x", .blockStart 1 (.toolUse "t1" "ls"),
    .inputJsonDelta 1 "\x7b\x7d", .blockStart 2 .thinking, .thinkingDelta 2 "b", .signatureDelta 2 "y"]

/-- They are well formed. -/
lemma twoThinking_wellformed : Wellformed twoThinking := by
  have w1 := Wellformed.nil.snoc (f := .blockStart 0 .thinking) (by decide)
  have w2 := w1.snoc (f := .thinkingDelta 0 "a") (by decide)
  have w3 := w2.snoc (f := .signatureDelta 0 "x") (by decide)
  have w4 := w3.snoc (f := .blockStart 1 (.toolUse "t1" "ls")) (by decide)
  have w5 := w4.snoc (f := .inputJsonDelta 1 "\x7b\x7d") (by decide)
  have w6 := w5.snoc (f := .blockStart 2 .thinking) (by decide)
  have w7 := w6.snoc (f := .thinkingDelta 2 "b") (by decide)
  exact w7.snoc (f := .signatureDelta 2 "y") (by decide)

/-- The row of the answer, of its result, and of the next message of the user. -/
def answerRow (stop : Option Nat) : Row :=
  { messageRow (assemble parsesText (consumed twoThinking stop)) false 1024 with id := 1 }

def resultRow : Row :=
  { messageRow { oid := 0, role := .tool, content := some "README.md", toolCallId := "t1" } false 2048 with id := 2 }

def nextRow : Row := { messageRow { oid := 0, role := .user, content := some "go on" } false 3072 with id := 3 }

def answerRows (stop : Option Nat) : List Row := [answerRow stop, resultRow, nextRow]

/-- Its rows are in place. -/
lemma answerRows_placed {stop : Option Nat} (calls : (answerRow stop).toolCalls.map ToolCall.id = ["t1"]) :
    Placed (answerRow stop) (answerRows stop) := by
  refine @Placed.mk _ [] [resultRow] [nextRow] rfl (by decide) ?_ ?_
  · have ids := congrArg (List.map some) calls
    rw [List.map_map] at ids
    exact .of_eq ids.symm
  · intro k hk tc htc
    rw [List.mem_singleton.mp hk] at htc
    cases htc

/-- The row saves the answer. -/
lemma answerRow_savedAs (stop : Option Nat) :
    SavedAs (answerRow stop) { assemble parsesText (consumed twoThinking stop) with oid := 0 } :=
  ⟨1, 1024, false, rfl⟩

/-- Consumed to its end, the answer is sent back as it came. -/
theorem verbatim_iff_twoThinking :
    ∃ content, Sent parsesText (answerRows none) (answerRow none) content ∧ Verbatim twoThinking none content := by
  have other : ¬ (deserializeMessages parsesText (answerRows none)).getLast?.any fun m => m.role = .assistant := by
    decide
  have S := @sent _ (rowMessage (answerRow none)) (answerRow none) _ [] [rowMessage resultRow, rowMessage nextRow]
    other (by decide) rfl rfl
  refine ⟨_, S, (verbatim_iff rfl twoThinking_wellformed (answerRow_savedAs none)
    (answerRows_placed (by decide)) (by decide) other S).mpr ?_⟩
  intro id name arguments mem
  obtain ⟨rfl, rfl, rfl⟩ : "t1" = id ∧ "ls" = name ∧ "\x7b\x7d" = arguments := by
    simpa [received, starts, twoThinking, Frame.start, blockOf, gather, Frame.argumentsFor] using mem
  decide

/-- Interrupted behind its last frame, the answer is sent back with one thinking block made of two. -/
theorem interrupted_thinking_is_merged :
    ∃ content, Wellformed twoThinking ∧ Placed (answerRow (some 8)) (answerRows (some 8)) ∧
      Sent parsesText (answerRows (some 8)) (answerRow (some 8)) content ∧
      .thinking "ab" "xy" ∈ content ∧ ¬ Verbatim twoThinking (some 8) content := by
  have other : ¬ (deserializeMessages parsesText (answerRows (some 8))).getLast?.any fun m =>
      m.role = .assistant := by decide
  have S := @sent _ (rowMessage (answerRow (some 8))) (answerRow (some 8)) _ []
    [rowMessage resultRow, rowMessage nextRow] other (by decide) rfl rfl
  have merged : .thinking "ab" "xy" ∈ assistantContent
      (validToolResultIds (deserializeMessages parsesText (answerRows (some 8))))
      (rowMessage (answerRow (some 8))) := by decide
  refine ⟨_, twoThinking_wellformed, answerRows_placed (by decide), S, merged, fun V => ?_⟩
  have complete := V.thinking.subset (List.mem_filter.mpr ⟨merged, rfl⟩)
  exact absurd complete (by decide)

end OpenAgentd.Provider
