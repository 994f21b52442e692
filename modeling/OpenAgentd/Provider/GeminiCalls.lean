import OpenAgentd.Lib.Firsts
import OpenAgentd.Provider.Gemini

/-!
# The calls of a Gemini stream

`GeminiProviderBase.stream` (`googlegenai.py`): every chunk is a snapshot, so a call may stand in several of them. The
provider keeps one number per id and sends the name and the arguments with the first fragment only; a call without an
id is named by its function and the second in which it is read. `streamed_calls` says what the assembler makes of it,
and `calls_iff` when this is one tool call for each call of the model: no call has the empty name, and no two calls of
one function without ids are read within one second.
-/

namespace OpenAgentd.Provider
open OpenAgentd.Lib OpenAgentd.Loop

/-- `json` on the arguments of a call. What `dumps` writes parses. -/
structure JsonCodec (J : Type*) where
  dumps : J → String
  loads : String → Option Json
  parses : ∀ args, (loads (dumps args)).isSome

/-- `Candidate`: its parts, each with the second in which it is read, and its finish reason. -/
structure Candidate (J : Type*) where
  parts : List (Part J × Nat)
  finishReason : Option String := none

/-- The two tables of a stream. -/
structure GeminiStream where
  toolIdxById : Dict String Int := .empty
  toolArgsEmitted : List String := []

/-- What a chunk adds up from its parts. -/
structure PartDeltas where
  content : String := ""
  reasoning : String := ""
  reasoningSignature : String := ""
  toolCalls : List ToolCallDelta := []

section
variable {J : Type*} (dumps : J → String)

/-- The id of a call, `call_<name>_<second>` for one without. -/
def GeminiCall.fcId (call : GeminiCall J) (second : Nat) : String :=
  (nonempty call.id).getD ("call_" ++ call.name ++ "_" ++ toString second)

/-- `tool_idx_by_id.setdefault(fc_id, len(tool_idx_by_id))` -/
def stableIdx (d : Dict String Int) (fcId : String) : Int × Dict String Int :=
  match d.get? fcId with
  | some i => (i, d)
  | none => (d.entries.length, d.set fcId d.entries.length)

/-- A call of a part. Only its first fragment has the name and the arguments. -/
def GeminiStream.call (st : GeminiStream) (call : GeminiCall J) (second : Nat) (signature : Option String) :
    GeminiStream × ToolCallDelta :=
  let fcId := call.fcId second
  let (index, indexes) := stableIdx st.toolIdxById fcId
  let firstEmission := fcId ∉ st.toolArgsEmitted
  ({ toolIdxById := indexes
     toolArgsEmitted := if firstEmission then st.toolArgsEmitted ++ [fcId] else st.toolArgsEmitted },
   { index := some index
     id := some fcId
     function := some
       { name := if firstEmission then some call.name else none
         arguments := if firstEmission then some (dumps call.args) else none
         thoughtSignature := signature } })

/-- The texts of a part. -/
def PartDeltas.text (d : PartDeltas) (p : Part J) : PartDeltas :=
  if p.thought then
    { d with
      reasoning := d.reasoning ++ p.text.getD ""
      reasoningSignature := d.reasoningSignature ++ p.thoughtSignature.getD "" }
  else { d with content := d.content ++ p.text.getD "" }

/-- A part of a chunk. -/
def GeminiStream.part (at_ : GeminiStream × PartDeltas) (p : Part J × Nat) : GeminiStream × PartDeltas :=
  let d := at_.2.text p.1
  match p.1.functionCall with
  | none => (at_.1, d)
  | some call =>
    let (st, delta) := at_.1.call dumps call p.2 p.1.thoughtSignature
    (st, { d with toolCalls := d.toolCalls ++ [delta] })

/-- A chunk, given as its first candidate. -/
def GeminiStream.chunk (st : GeminiStream) : Option (Candidate J) → GeminiStream × List StreamItem
  | none => (st, [])
  | some candidate =>
    let (st, d) := candidate.parts.foldl (GeminiStream.part dumps) (st, {})
    let delta : Delta :=
      { content := orNone d.content
        reasoningContent := orNone d.reasoning
        reasoningSignature := orNone d.reasoningSignature
        toolCalls := d.toolCalls }
    (st, [.choice delta candidate.finishReason])

def GeminiStream.items (st : GeminiStream) : List (Option (Candidate J)) → List StreamItem
  | [] => []
  | c :: cs => (st.chunk dumps c).2 ++ GeminiStream.items (st.chunk dumps c).1 cs

/-- `GeminiProviderBase.stream` -/
def geminiStream (chunks : List (Option (Candidate J))) : List StreamItem := GeminiStream.items dumps {} chunks

/-! ## What the model has called -/

/-- A call where it stands in a chunk: the call and the second in which it is read. -/
abbrev Occurrence (J : Type*) := GeminiCall J × Nat

def Candidate.occurrences (c : Candidate J) : List (Occurrence J) :=
  c.parts.filterMap fun p => p.1.functionCall.map fun call => (call, p.2)

def occurrences (chunks : List (Option (Candidate J))) : List (Occurrence J) :=
  chunks.flatMap fun c => c.toList.flatMap Candidate.occurrences

/-- A call stands there again when it has the id of one before it. -/
def repeated (a b : Occurrence J) : Bool := nonempty a.1.id = nonempty b.1.id ∧ (nonempty b.1.id).isSome

/-- The function calls of the model, in the order of their first appearances. -/
def functionCalls (chunks : List (Option (Candidate J))) : List (Occurrence J) := firsts repeated (occurrences chunks)

/-- The calls are told apart by their own ids, or none has one. -/
inductive OneForm (l : List (Occurrence J)) : Prop where
  | identified (own : ∀ o ∈ l, (nonempty o.1.id).isSome)
      (snapshot : ∀ a ∈ l, ∀ b ∈ l, nonempty a.1.id = nonempty b.1.id → a.1 = b.1)
  | anonymous (none : ∀ o ∈ l, nonempty o.1.id = none)

/-- One tool call for each function call, in order, with its arguments and an id of its own. -/
structure KeepsEvery (dumps : J → String) (chunks : List (Option (Candidate J))) (calls : List ToolCall) : Prop where
  each : calls.map (fun tc => (tc.name, tc.arguments)) =
    (functionCalls chunks).map fun o => (o.1.name, dumps o.1.args)
  distinct : (calls.map ToolCall.id).Nodup

/-- Every call has a name, and no two calls of one function without ids are read within one second. -/
structure ToldApart (l : List (Occurrence J)) : Prop where
  named : ∀ o ∈ l, o.1.name ≠ ""
  seconds : ((l.filter fun o => (nonempty o.1.id).isNone).map fun o => (o.1.name, o.2)).Nodup

/-! ## The assembler -/

/-- The id under which a call is kept. -/
def Occurrence.id (o : Occurrence J) : String := GeminiCall.fcId o.1 o.2

/-- The calls that have a number. -/
def slots (l : List (Occurrence J)) : List (Occurrence J) := firsts (sameKey Occurrence.id) l

/-- What the assembler holds of a call besides its signatures. -/
def callView (buf : CallBuffer) : String × String × String := (buf.id, buf.name, buf.arguments)

/-- The tables of the provider and the calls of the assembler behind some calls. -/
structure KeepsSlots (dumps : J → String) (l : List (Occurrence J)) (st : GeminiStream)
    (buffer : Dict Int CallBuffer) : Prop where
  indexes : st.toolIdxById.entries = (slots l).mapIdx fun k o => (o.id, (k : Int))
  emitted : st.toolArgsEmitted = (slots l).map Occurrence.id
  buffered : buffer.entries.map (fun e => (e.1, callView e.2)) =
    (slots l).mapIdx fun k o => ((k : Int), o.id, o.1.name, dumps o.1.args)

variable {dumps} {l : List (Occurrence J)} {o : Occurrence J} {st : GeminiStream} {buffer : Dict Int CallBuffer}
  {chunks : List (Option (Candidate J))}

/-- An id is never empty. -/
lemma fcId_truthy (call : GeminiCall J) (second : Nat) : call.fcId second ≠ "" := by
  rw [GeminiCall.fcId]
  cases e : nonempty call.id with
  | some id =>
    have truthy := (Option.filter_eq_some_iff.mp e).2
    exact of_decide_eq_true truthy
  | none =>
    intro empty
    have long := congrArg String.length empty
    simp [String.length_append] at long

/-- A further fragment changes the signature alone. -/
lemma view_extend (buf : CallBuffer) (named : buf.id ≠ "") (index : Option Int) (id signature : Option String) :
    callView (buf.extend { index, id, function := some { thoughtSignature := signature } }) = callView buf := by
  rw [CallBuffer.extend, if_neg named]
  simp only [callView, Option.getD_none, String.append_empty]
  congr 2
  split
  next empty => exact empty.symm
  next => rfl

/-- A call that has no number gets the next one, with its name and its arguments. -/
lemma KeepsSlots.first (K : KeepsSlots dumps l st buffer) (new : o.id ∉ (slots l).map Occurrence.id)
    (signature : Option String) :
    KeepsSlots dumps (l ++ [o]) (st.call dumps o.1 o.2 signature).1
      (bufferCall buffer (st.call dumps o.1 o.2 signature).2) := by
  have slots' : slots (l ++ [o]) = slots l ++ [o] := (firsts_snoc l o).trans (joinNew_of_not_mem new)
  have unknown : o.id ∉ st.toolIdxById.keys := by
    have keys : st.toolIdxById.keys = (slots l).map Occurrence.id := by
      rw [Dict.keys, K.indexes]
      exact List.ext_getElem (by simp) fun k _ _ => by simp
    rw [keys]
    exact new
  have count : st.toolIdxById.entries.length = (slots l).length := by rw [K.indexes, List.length_mapIdx]
  have index : stableIdx st.toolIdxById o.id = (((slots l).length : Int), st.toolIdxById.set o.id (slots l).length) := by
    rw [stableIdx, Dict.get?_eq_none.mpr unknown, count]
  have emission : o.id ∉ st.toolArgsEmitted := by
    rw [K.emitted]
    exact new
  have free : ((slots l).length : Int) ∉ buffer.keys := by
    have keys : buffer.keys = (buffer.entries.map fun e => (e.1, callView e.2)).map Prod.fst := by
      rw [List.map_map]
      rfl
    rw [keys, K.buffered]
    intro mem
    obtain ⟨e, he, ek⟩ := List.mem_map.mp mem
    obtain ⟨k, lt, rfl⟩ := List.mem_mapIdx.mp he
    have : k = (slots l).length := Int.ofNat.inj ek
    omega
  simp only [Occurrence.id] at index emission
  simp only [GeminiStream.call, index, emission, not_false_eq_true, if_true]
  refine ⟨?_, ?_, ?_⟩
  · show (st.toolIdxById.set o.id _).entries = _
    rw [Dict.entries_set_of_not_mem unknown, K.indexes, slots', List.mapIdx_append]
    simp
  · rw [K.emitted, slots', List.map_append]
    rfl
  · simp only [bufferCall, Option.getD_some, Dict.get?_eq_none.mpr free]
    rw [Dict.entries_set_of_not_mem free, List.map_append, K.buffered, slots', List.mapIdx_append]
    simp [ToolCallDelta.open, callView, Occurrence.id]

/-- A call that has a number keeps it, and its name and arguments stay. -/
lemma KeepsSlots.again (K : KeepsSlots dumps l st buffer) (known : o.id ∈ (slots l).map Occurrence.id)
    (signature : Option String) :
    KeepsSlots dumps (l ++ [o]) (st.call dumps o.1 o.2 signature).1
      (bufferCall buffer (st.call dumps o.1 o.2 signature).2) := by
  have slots' : slots (l ++ [o]) = slots l := (firsts_snoc l o).trans (joinNew_of_mem known)
  obtain ⟨o', mem, same⟩ := List.mem_map.mp known
  obtain ⟨k, lt, rfl⟩ := List.mem_iff_getElem.mp mem
  have number : st.toolIdxById.get? o.id = some (k : Int) := by
    rw [Dict.get?_eq_some, K.indexes, ← same]
    exact List.mem_mapIdx.mpr ⟨k, lt, rfl⟩
  have emission : o.id ∈ st.toolArgsEmitted := by
    rw [K.emitted]
    exact known
  have held : ((k : Int), (slots l)[k].id, (slots l)[k].1.name, dumps (slots l)[k].1.args) ∈
      buffer.entries.map fun e => (e.1, callView e.2) := by
    rw [K.buffered]
    exact List.mem_mapIdx.mpr ⟨k, lt, rfl⟩
  obtain ⟨⟨i, buf⟩, entry, e⟩ := List.mem_map.mp held
  obtain ⟨rfl, view⟩ := Prod.mk.inj e
  have found : buffer.get? k = some buf := Dict.get?_eq_some.mpr entry
  have named : buf.id ≠ "" := by
    rw [(Prod.mk.inj view).1]
    exact fcId_truthy _ _
  simp only [Occurrence.id] at number emission
  simp only [GeminiStream.call, stableIdx, number, emission, not_true_eq_false, if_false]
  refine ⟨?_, ?_, ?_⟩
  · rw [slots']
    exact K.indexes
  · rw [slots']
    exact K.emitted
  · simp only [bufferCall, Option.getD_some, found]
    rw [Dict.entries_set_of_mem (Dict.mem_keys.mpr ⟨_, found⟩), List.map_map, slots', ← K.buffered]
    refine List.map_congr_left fun e he => ?_
    rw [Function.comp_apply, Dict.replace]
    split
    next key =>
      have own : e = ((k : Int), buf) := by
        have value : buffer.get? e.1 = some e.2 := Dict.get?_eq_some.mpr he
        rw [key, found] at value
        exact Prod.ext key (Option.some.inj value).symm
      rw [view_extend buf named, own]
    next => rfl

/-- One more call. -/
lemma KeepsSlots.call (K : KeepsSlots dumps l st buffer) (o : Occurrence J) (signature : Option String) :
    KeepsSlots dumps (l ++ [o]) (st.call dumps o.1 o.2 signature).1
      (bufferCall buffer (st.call dumps o.1 o.2 signature).2) :=
  if known : o.id ∈ (slots l).map Occurrence.id then K.again known signature else K.first known signature

/-- The parts of a chunk add their calls. -/
lemma KeepsSlots.parts (parts : List (Part J × Nat)) (d : PartDeltas)
    (K : KeepsSlots dumps l st (d.toolCalls.foldl bufferCall buffer)) :
    let r := parts.foldl (GeminiStream.part dumps) (st, d)
    KeepsSlots dumps (l ++ parts.filterMap fun p => p.1.functionCall.map fun call => (call, p.2)) r.1
      (r.2.toolCalls.foldl bufferCall buffer) := by
  induction parts generalizing l st d with
  | nil =>
    rw [List.filterMap_nil, List.append_nil]
    exact K
  | cons p parts ih =>
    have text : (d.text p.1).toolCalls = d.toolCalls := by
      rw [PartDeltas.text]
      split
      · rfl
      · rfl
    rw [List.foldl_cons, GeminiStream.part]
    cases called : p.1.functionCall with
    | none =>
      rw [List.filterMap_cons_none (by rw [called]; rfl)]
      apply ih
      rw [text]
      exact K
    | some call =>
      rw [List.filterMap_cons_some (by rw [called]; rfl), List.append_cons]
      apply ih
      rw [text, List.foldl_append]
      exact K.call (call, p.2) p.1.thoughtSignature

/-- A chunk adds its calls. -/
lemma KeepsSlots.chunk {s : Assembly} (K : KeepsSlots dumps l st s.buffer) (c : Option (Candidate J)) :
    KeepsSlots dumps (l ++ c.toList.flatMap Candidate.occurrences) (st.chunk dumps c).1
      ((st.chunk dumps c).2.foldl Assembly.step s).buffer := by
  cases c with
  | none =>
    rw [Option.toList_none, List.flatMap_nil, List.append_nil]
    exact K
  | some candidate =>
    rw [Option.toList_some, List.flatMap_singleton]
    exact K.parts candidate.parts {}

/-- Every run of the stream keeps the calls it has read. -/
lemma KeepsSlots.items {s : Assembly} (K : KeepsSlots dumps l st s.buffer) (chunks : List (Option (Candidate J))) :
    ∃ st', KeepsSlots dumps (l ++ occurrences chunks) st' ((st.items dumps chunks).foldl Assembly.step s).buffer := by
  induction chunks generalizing l st s with
  | nil =>
    refine ⟨st, ?_⟩
    rw [occurrences, List.flatMap_nil, List.append_nil]
    exact K
  | cons c cs ih =>
    obtain ⟨st', kept⟩ := ih (K.chunk c)
    refine ⟨st', ?_⟩
    rw [GeminiStream.items, List.foldl_append, occurrences, List.flatMap_cons, ← List.append_assoc]
    exact kept

/-- The calls in the order of their numbers. -/
lemma KeepsSlots.calls {s : Assembly} (K : KeepsSlots dumps l st s.buffer) :
    s.calls.map callView = (slots l).map fun o => (o.id, o.1.name, dumps o.1.args) := by
  have keys : s.buffer.entries.map Prod.fst = (slots l).mapIdx fun k _ => (k : Int) := by
    have first := congrArg (List.map Prod.fst) K.buffered
    rw [List.map_map] at first
    refine Eq.trans first ?_
    exact List.ext_getElem (by simp) fun k _ _ => by simp
  have asc : s.buffer.entries.Pairwise fun a b => a.1 < b.1 := by
    rw [← List.pairwise_map (f := Prod.fst) (R := fun a b => a < b), keys, List.pairwise_iff_getElem]
    intro j k hj hk lt
    simpa using lt
  rw [Assembly.calls, sortOn_eq_self asc, List.map_map]
  have values := congrArg (List.map Prod.snd) K.buffered
  rw [List.map_map] at values
  refine Eq.trans values ?_
  exact List.ext_getElem (by simp) fun k _ _ => by simp

variable (codec : JsonCodec J)

/-- The tool calls of the answer. -/
def toolCallsOf (chunks : List (Option (Candidate J))) : List ToolCall :=
  (assemble codec.loads (geminiStream codec.dumps chunks)).toolCalls

/-- The answer has a tool call for every numbered call with a name. -/
lemma streamed_calls (chunks : List (Option (Candidate J))) :
    (toolCallsOf codec chunks).map (fun tc => (tc.id, tc.name, tc.arguments)) =
      ((slots (occurrences chunks)).filter fun o => o.1.name ≠ "").map fun o =>
        (o.id, o.1.name, codec.dumps o.1.args) := by
  have start : KeepsSlots codec.dumps [] {} ({} : Assembly).buffer := ⟨rfl, rfl, rfl⟩
  obtain ⟨st', K⟩ := start.items chunks
  have calls := K.calls
  rw [List.nil_append] at calls
  let full : String × String × String → Bool := fun v =>
    v.2.1 ≠ "" && (v.2.2 = "" || (codec.loads v.2.2).isSome)
  have named : ∀ o : Occurrence J, full (o.id, o.1.name, codec.dumps o.1.args) = decide (o.1.name ≠ "") := by
    intro o
    show (_ && (_ || (codec.loads (codec.dumps o.1.args)).isSome)) = _
    rw [codec.parses, Bool.or_true, Bool.and_true]
  have kept : ∀ bufs : List CallBuffer, ((bufs.filter (executable codec.loads)).map CallBuffer.toolCall).map
      (fun tc => (tc.id, tc.name, tc.arguments)) = (bufs.map callView).filter full := by
    intro bufs
    rw [List.filter_map, List.map_map]
    rfl
  refine (kept _).trans ?_
  rw [geminiStream, calls, List.filter_map]
  congr 1
  exact List.filter_congr fun o _ => named o

/-! ## When every call is kept -/

/-- What stands before and behind the last separator. -/
lemma last_separator {α : Type*} {c : α} {x y a b : List α} (hx : c ∉ x) (hy : c ∉ y)
    (same : x ++ c :: a = y ++ c :: b) : x = y ∧ a = b := by
  induction x generalizing y with
  | nil =>
    cases y with
    | nil => exact ⟨rfl, (List.cons.inj same).2⟩
    | cons d y => exact absurd ((List.cons.inj same).1 ▸ List.mem_cons_self) hy
  | cons d x ih =>
    cases y with
    | nil => exact absurd ((List.cons.inj same).1 ▸ List.mem_cons_self) hx
    | cons d' y =>
      obtain ⟨rfl, rest⟩ := List.cons.inj same
      obtain ⟨rfl, rfl⟩ := ih (fun h => hx (List.mem_cons_of_mem d h)) (fun h => hy (List.mem_cons_of_mem d h)) rest
      exact ⟨rfl, rfl⟩

/-- The id of a call without one tells its function and its second. -/
lemma fallback_injective {n n' : String} {s s' : Nat}
    (same : "call_" ++ n ++ "_" ++ toString s = "call_" ++ n' ++ "_" ++ toString s') : n = n' ∧ s = s' := by
  have chars := congrArg (fun t => t.toList.reverse) same
  simp only [String.toList_append, List.reverse_append, List.append_assoc, Nat.toString_eq_repr, Nat.toList_repr]
    at chars
  have apart : ∀ k : Nat, '_' ∉ (Nat.toDigits 10 k).reverse := fun k mem =>
    Nat.underscore_not_in_toDigits (List.mem_reverse.mp mem)
  obtain ⟨digits, names⟩ := last_separator (apart s) (apart s') chars
  constructor
  · have names : n.toList.reverse ++ "call_".toList.reverse = n'.toList.reverse ++ "call_".toList.reverse := names
    exact String.toList_inj.mp (List.reverse_inj.mp (List.append_cancel_right names))
  · have digits := List.reverse_inj.mp digits
    have value := congrArg (fun ds => Nat.ofDigitChars 10 ds 0) digits
    simpa using value

/-- An id that is made. -/
lemma id_of_none (none : nonempty o.1.id = none) : o.id = "call_" ++ o.1.name ++ "_" ++ toString o.2 := by
  rw [Occurrence.id, GeminiCall.fcId, none]
  rfl

/-- An id that is given. -/
lemma id_of_some {id : String} (some : nonempty o.1.id = some id) : o.id = id := by
  rw [Occurrence.id, GeminiCall.fcId, some]
  rfl

/-- Without ids the calls are told apart by their functions and seconds. -/
lemma distinct_ids_iff (none : ∀ o ∈ l, nonempty o.1.id = none) :
    (l.map Occurrence.id).Nodup ↔ (l.map fun o => (o.1.name, o.2)).Nodup := by
  have iff : ∀ a ∈ l, ∀ b ∈ l, a.id = b.id ↔ (a.1.name, a.2) = (b.1.name, b.2) := by
    intro a ha b hb
    rw [id_of_none (none a ha), id_of_none (none b hb), Prod.mk.injEq]
    constructor
    · exact fallback_injective
    · rintro ⟨name, second⟩
      rw [name, second]
  rw [List.Nodup, List.Nodup, List.pairwise_map, List.pairwise_map]
  exact List.Pairwise.iff_of_mem fun {a b} ha hb => not_congr (iff a ha b hb)

/-- With ids of their own the calls of the model are those that are kept. -/
lemma functionCalls_of_identified (own : ∀ o ∈ occurrences chunks, (nonempty o.1.id).isSome) :
    functionCalls chunks = slots (occurrences chunks) := by
  refine firsts_congr fun a ha b hb => ?_
  obtain ⟨i, ei⟩ := Option.isSome_iff_exists.mp (own a ha)
  obtain ⟨j, ej⟩ := Option.isSome_iff_exists.mp (own b hb)
  simp [repeated, sameKey, ei, ej, id_of_some ei, id_of_some ej]

/-- Without ids every occurrence is a call of the model. -/
lemma functionCalls_of_anonymous (none : ∀ o ∈ occurrences chunks, nonempty o.1.id = none) :
    functionCalls chunks = occurrences chunks := by
  refine firsts_eq_self.mpr (List.pairwise_of_forall_mem_list fun a _ b hb => ?_)
  simp [repeated, none b hb]

/-- A kept call has a name. -/
lemma KeepsEvery.named (K : KeepsEvery codec.dumps chunks (toolCallsOf codec chunks))
    (mem : o ∈ functionCalls chunks) : o.1.name ≠ "" := by
  have pair : (o.1.name, codec.dumps o.1.args) ∈
      (toolCallsOf codec chunks).map fun tc => (tc.name, tc.arguments) := by
    rw [K.each]
    exact List.mem_map_of_mem (f := fun o : Occurrence J => (o.1.name, codec.dumps o.1.args)) mem
  obtain ⟨tc, htc, e⟩ := List.mem_map.mp pair
  rw [← (Prod.mk.inj e).1]
  exact (mem_toolCalls_message htc).1

/-- The names and arguments of the tool calls. -/
lemma toolCalls_pairs : (toolCallsOf codec chunks).map (fun tc => (tc.name, tc.arguments)) =
    ((slots (occurrences chunks)).filter fun o => o.1.name ≠ "").map fun o => (o.1.name, codec.dumps o.1.args) := by
  have pairs := congrArg (List.map Prod.snd) (streamed_calls codec chunks)
  rw [List.map_map, List.map_map] at pairs
  exact pairs

/-- Ids tell calls apart. -/
lemma toolCalls_distinct : ((toolCallsOf codec chunks).map ToolCall.id).Nodup := by
  have ids := congrArg (List.map Prod.fst) (streamed_calls codec chunks)
  rw [List.map_map, List.map_map] at ids
  refine Eq.mpr (congrArg List.Nodup ids) ?_
  exact (firsts_distinct (occurrences chunks)).sublist (List.filter_sublist.map Occurrence.id)

/-- Every call is kept once, if and only if every call has a name and no two calls of one function without ids are
read within one second. -/
theorem calls_iff (W : OneForm (occurrences chunks)) :
    KeepsEvery codec.dumps chunks (toolCallsOf codec chunks) ↔ ToldApart (occurrences chunks) := by
  cases W with
  | identified own snapshot =>
    have same := functionCalls_of_identified own
    have noOther : ((occurrences chunks).filter fun o => (nonempty o.1.id).isNone) = [] :=
      List.filter_eq_nil_iff.mpr fun o mem => by
        rw [Option.isNone_eq_false_iff.mpr (own o mem)]
        exact Bool.false_ne_true
    constructor
    · intro K
      refine ⟨fun o mem => ?_, by rw [noOther]; exact .nil⟩
      have stands : o.id ∈ (slots (occurrences chunks)).map Occurrence.id := mem_firsts mem
      obtain ⟨o', mem', e⟩ := List.mem_map.mp stands
      have first := (firsts_sublist _).subset mem'
      obtain ⟨i, ei⟩ := Option.isSome_iff_exists.mp (own o mem)
      obtain ⟨j, ej⟩ := Option.isSome_iff_exists.mp (own o' first)
      rw [id_of_some ei, id_of_some ej] at e
      rw [← snapshot o' first o mem (by rw [ei, ej, e])]
      exact K.named codec (same ▸ mem')
    · intro T
      refine ⟨?_, toolCalls_distinct codec⟩
      rw [toolCalls_pairs, same, List.filter_eq_self.mpr]
      intro o mem
      exact decide_eq_true (T.named o ((firsts_sublist _).subset mem))
  | anonymous none =>
    have all := functionCalls_of_anonymous none
    have every : ((occurrences chunks).filter fun o => (nonempty o.1.id).isNone) = occurrences chunks :=
      List.filter_eq_self.mpr fun o mem => by simp [none o mem]
    constructor
    · intro K
      refine ⟨fun o mem => K.named codec (all ▸ mem), ?_⟩
      rw [every, ← distinct_ids_iff none, ← firsts_sameKey_eq_self]
      have count := congrArg List.length ((toolCalls_pairs codec).symm.trans K.each)
      rw [List.length_map, List.length_map, all] at count
      refine (firsts_sublist _).eq_of_length_le ?_
      rw [← count]
      exact List.length_filter_le ..
    · intro T
      have distinct := T.seconds
      rw [every, ← distinct_ids_iff none, ← firsts_sameKey_eq_self] at distinct
      refine ⟨?_, toolCalls_distinct codec⟩
      rw [toolCalls_pairs, all, slots, distinct, List.filter_eq_self.mpr]
      intro o mem
      exact decide_eq_true (T.named o mem)

end

/-- The arguments of the calls below. -/
inductive City where
  | oslo
  | rome

def City.dumps : City → String
  | .oslo => "\x7b\"city\": \"Oslo\"\x7d"
  | .rome => "\x7b\"city\": \"Rome\"\x7d"

def City.loads (text : String) : Option Json :=
  if text = City.oslo.dumps then some (.dict fun key => if key = "city" then some "Oslo" else none)
  else if text = City.rome.dumps then some (.dict fun key => if key = "city" then some "Rome" else none)
  else none

/-- Its arguments parse. -/
lemma City.parses (city : City) : (City.loads city.dumps).isSome := by
  cases city with
  | oslo => rfl
  | rome => rfl

def City.codec : JsonCodec City := ⟨City.dumps, City.loads, City.parses⟩

/-- A part with a call without an id. -/
def weatherIn (city : City) : Part City where
  functionCall := some { name := "weather", args := city, id := none }

/-- Two calls of one function in two seconds. -/
def twoSeconds : List (Option (Candidate City)) :=
  [some { parts := [(weatherIn .oslo, 1)] }, some { parts := [(weatherIn .rome, 2)], finishReason := some "STOP" }]

/-- Two parallel calls of one function. -/
def oneSecond : List (Option (Candidate City)) :=
  [some { parts := [(weatherIn .oslo, 1), (weatherIn .rome, 1)], finishReason := some "STOP" }]

/-- Two calls that are read in two seconds are two tool calls. -/
theorem twoSeconds_kept : KeepsEvery City.codec.dumps twoSeconds (toolCallsOf City.codec twoSeconds) := by
  have none : ∀ o ∈ occurrences twoSeconds, nonempty o.1.id = none := by decide
  have named : ∀ o ∈ occurrences twoSeconds, o.1.name ≠ "" := by decide
  exact (calls_iff City.codec (.anonymous none)).mpr ⟨named, by decide⟩

/-- Two parallel calls of one function without ids are one tool call. -/
theorem oneSecond_collapses : (∀ o ∈ occurrences oneSecond, nonempty o.1.id = none) ∧
    (functionCalls oneSecond).length = 2 ∧ (toolCallsOf City.codec oneSecond).length = 1 ∧
    ¬ KeepsEvery City.codec.dumps oneSecond (toolCallsOf City.codec oneSecond) := by
  have calls : (functionCalls oneSecond).length = 2 := by decide
  have kept : (toolCallsOf City.codec oneSecond).length = 1 := by
    have count := congrArg List.length (streamed_calls City.codec oneSecond)
    rw [List.length_map, List.length_map] at count
    rw [count]
    decide
  refine ⟨by decide, calls, kept, fun K => ?_⟩
  have count := congrArg List.length K.each
  rw [List.length_map, List.length_map, calls, kept] at count
  cases count

end OpenAgentd.Provider
