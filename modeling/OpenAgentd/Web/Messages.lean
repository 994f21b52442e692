import OpenAgentd.Schemas.Chat
import Mathlib.Data.List.Flatten
import Mathlib.Data.List.Induction
import Mathlib.Data.List.Nodup
import Mathlib.Logic.Function.Basic
import Mathlib.Tactic.Lemma

/-!
# Rows as blocks

`web/src/utils/messages.ts`: the client turns the rows of a history response into the blocks it shows
(`parseAgentBlocks`). A tool row completes the card of its call; the card is found by the id of the call, and a result
whose call is not among the rows is an orphan, which `applyOrphanToolResults` attaches to a card of another page.

`parse_spec` says what a page of a `Transcript` becomes: the blocks of its rows, with the cards finished whose results
are on the page.
-/

namespace OpenAgentd.Web

/-- `extra` of a message. `rest` are the entries that are only handed on. -/
structure MessageExtra where
  queueStatus : Option String := none
  durationMs : Option Nat := none
  model : Option String := none
  mcpApp : Option String := none
  fromAgent : Option String := none
  routingFromAgent : Option String := none
  fromAgents : List String := []
  routingFromAgents : List String := []
  rest : List (String × String) := []
  deriving DecidableEq

/-- An entry of `tool_calls`. -/
structure ToolRef where
  id : String
  name : Option String := none
  arguments : Option String := none

/-- `MessageResponse`. A `seq` of `0` is a missing one. -/
structure MessageResponse where
  id : Nat
  role : Role
  content : Option String := none
  reasoningContent : Option String := none
  toolCalls : List ToolRef := []
  toolCallId : Option String := none
  seq : Nat := 0
  kind : MessageKind := .chat
  isSummary : Bool := false
  extra : MessageExtra := {}
  createdAt : Option Nat := none
  attachments : List String := []

/-- The id of a block, by what it is made of. -/
inductive BlockId where
  | message (id : Nat)
  | thinking (id : Nat)
  | text (id : Nat)
  | toolCall (id : String)
  | unnamedTool (id : Nat) (name : String)
  | made (n : Nat)
  deriving DecidableEq

/-- The types of blocks. -/
inductive BlockType where
  | thinking
  | tool
  | text
  | user
  | compaction
  | providerStatus
  deriving DecidableEq

/-- `extra` of a block. -/
structure BlockExtra where
  message : MessageExtra := {}
  model : Option String := none
  state : Option String := none
  mcpApp : Option String := none
  status : Option String := none
  category : Option String := none
  deriving DecidableEq

/-- `ContentBlock`. -/
structure ContentBlock where
  id : BlockId
  type : BlockType
  content : String
  toolName : Option String := none
  toolArgs : Option String := none
  toolDone : Bool := false
  toolCallId : Option String := none
  toolResult : Option String := none
  durationMs : Option Nat := none
  serverDurationMs : Option Nat := none
  responseDurationMs : Option Nat := none
  extra : Option BlockExtra := none
  timestamp : Option Nat := none
  attachments : List String := []
  deriving DecidableEq

/-- `OrphanToolResult`. -/
structure OrphanToolResult where
  content : String
  serverDurationMs : Option Nat := none
  mcpApp : Option String := none

/-- `Record<string, OrphanToolResult>`. -/
abbrev Orphans := String → Option OrphanToolResult

/-- A string that is present and not empty. -/
def truthy (v : Option String) : Option String := v.filter fun s => s ≠ ""

/-! ## The order of rows -/

/-- The comparison of `sortMessages` is not positive. Rows without a position go by their times. -/
def notAfter (a b : MessageResponse) : Bool :=
  if 0 < a.seq ∧ 0 < b.seq then
    if a.seq ≠ b.seq then a.seq < b.seq
    else a.id ≤ b.id
  else a.createdAt.getD 0 ≤ b.createdAt.getD 0

/-- `sortMessages`, a stable sort. -/
def sortMessages (msgs : List MessageResponse) : List MessageResponse := msgs.mergeSort notAfter

/-! ## The blocks of a row -/

/-- The row is a queued message. -/
def MessageResponse.queued (m : MessageResponse) : Bool :=
  m.kind = .queued || m.extra.queueStatus = some "queued"

/-- `stripCompactionPrefix`. -/
def stripCompactionPrefix (content : String) : String :=
  let p := "[Summary of earlier conversation]\n"
  if content.startsWith p then (content.drop p.length).toString else content

/-- The divider of a summary. -/
def compactionBlock (now : Nat) (m : MessageResponse) : ContentBlock where
  id := .message m.id
  type := .compaction
  content := stripCompactionPrefix (m.content.getD "")
  extra := some { state := some "compacted" }
  timestamp := some (m.createdAt.getD now)

/-- The agent a message of the user comes from, in the old formats too. -/
def senderOf (e : MessageExtra) : Option String :=
  ((e.fromAgent.or e.routingFromAgent).or e.fromAgents.head?).or e.routingFromAgents.head?

/-- The bubble of a message of the user. -/
def userBlock (now : Nat) (m : MessageResponse) : ContentBlock where
  id := .message m.id
  type := .user
  content := m.content.getD ""
  extra :=
    let e := match truthy (senderOf m.extra) with
      | none => m.extra
      | some agent => { m.extra with fromAgent := some agent }
    if e = {} then none else some { message := e }
  timestamp := some (m.createdAt.getD now)
  attachments := m.attachments

/-- The card of a tool call. `pretty` formats the JSON text of its arguments, and fails on other texts. -/
def toolBlock (pretty : String → Option String) (now : Nat) (m : MessageResponse) (tool : ToolRef) : ContentBlock :=
  let name := tool.name.getD tool.id
  { id := if tool.id ≠ "" then .toolCall tool.id else .unnamedTool m.id name
    type := .tool
    content := ""
    toolName := some name
    toolArgs := (pretty (tool.arguments.getD "\x7b\x7d")).or tool.arguments
    toolCallId := some tool.id
    timestamp := some (m.createdAt.getD now) }

/-- `assistantBlocks`. -/
def assistantBlocks (pretty : String → Option String) (now : Nat) (m : MessageResponse) : List ContentBlock :=
  let timestamp := some (m.createdAt.getD now)
  let thinking : List ContentBlock :=
    match truthy m.reasoningContent with
    | none => []
    | some content => [{ id := .thinking m.id, type := .thinking, content, timestamp }]
  let text : List ContentBlock :=
    match truthy m.content with
    | none => []
    | some content =>
      [{ id := .text m.id, type := .text, content, timestamp, responseDurationMs := m.extra.durationMs
         extra := (truthy m.extra.model).map fun model => { model := some model } }]
  thinking ++ text ++ m.toolCalls.map (toolBlock pretty now m)

/-! ## Results -/

/-- The id of the call a card is for. -/
def ContentBlock.toolId (b : ContentBlock) : Option String := if b.type = .tool then truthy b.toolCallId else none

/-- What a tool row has for a card. -/
def orphanOf (m : MessageResponse) : OrphanToolResult where
  content := m.content.getD ""
  serverDurationMs := m.extra.durationMs
  mcpApp := m.extra.mcpApp

/-- The card with its result. -/
def ContentBlock.complete (o : OrphanToolResult) (b : ContentBlock) : ContentBlock :=
  { b with
    toolDone := true
    toolResult := some o.content
    serverDurationMs := o.serverDurationMs.or b.serverDurationMs
    durationMs := o.serverDurationMs.or b.durationMs
    extra := match o.mcpApp with
      | none => b.extra
      | some app => some { b.extra.getD {} with mcpApp := some app } }

/-- The block that `pendingToolBlocks` has for the call is completed: the last one of that call. -/
def completeLast (id : String) (o : OrphanToolResult) : List ContentBlock → List ContentBlock
  | [] => []
  | b :: bs =>
    if bs.any fun k => k.toolId = some id then b :: completeLast id o bs
    else if b.toolId = some id then b.complete o :: bs
    else b :: bs

/-- The loop of `parseAgentBlocks`. -/
structure Parse where
  blocks : List ContentBlock
  orphans : Orphans

/-- One row. -/
def parseRow (pretty : String → Option String) (now : Nat) (p : Parse) (m : MessageResponse) : Parse :=
  if m.queued then p
  else if m.isSummary then { p with blocks := p.blocks ++ [compactionBlock now m] }
  else match m.role with
    | .user => { p with blocks := p.blocks ++ [userBlock now m] }
    | .tool =>
      match truthy m.toolCallId with
      | none => p
      | some id =>
        if p.blocks.any fun b => b.toolId = some id then { p with blocks := completeLast id (orphanOf m) p.blocks }
        else { p with orphans := Function.update p.orphans id (some (orphanOf m)) }
    | .assistant => { p with blocks := p.blocks ++ assistantBlocks pretty now m }
    | .system => p

/-- `parseAgentBlocks` with a collector for orphans. -/
def parseAgentBlocks (pretty : String → Option String) (now : Nat) (msgs : List MessageResponse) (orphans : Orphans) :
    Parse :=
  (sortMessages msgs).foldl (parseRow pretty now) ⟨[], orphans⟩

/-- `applyOrphanToolResults`. -/
def applyOrphanToolResults : List ContentBlock → Orphans → List ContentBlock × Orphans
  | [], orphans => ([], orphans)
  | b :: bs, orphans =>
    match if b.toolDone then none else b.toolId.bind fun id => (orphans id).map fun o => (id, o) with
    | none =>
      let rest := applyOrphanToolResults bs orphans
      (b :: rest.1, rest.2)
    | some (id, o) =>
      let rest := applyOrphanToolResults bs (Function.update orphans id none)
      (b.complete o :: rest.1, rest.2)

/-! ## Transcripts -/

/-- The blocks of a row, without results. -/
def rowBlocks (pretty : String → Option String) (now : Nat) (m : MessageResponse) : List ContentBlock :=
  if m.queued then []
  else if m.isSummary then [compactionBlock now m]
  else match m.role with
    | .user => [userBlock now m]
    | .assistant => assistantBlocks pretty now m
    | .tool => []
    | .system => []

/-- The ids of the calls of a row. -/
def callIds (m : MessageResponse) : List String :=
  if m.queued = false ∧ m.isSummary = false ∧ m.role = .assistant then
    m.toolCalls.filterMap fun t => truthy (some t.id)
  else []

/-- The id of the call a row has the result of. -/
def resultId (m : MessageResponse) : Option String :=
  if m.queued = false ∧ m.isSummary = false ∧ m.role = .tool then truthy m.toolCallId else none

/-- The results among the rows. -/
def resultsOf (rows : List MessageResponse) : Orphans := fun id =>
  (rows.find? fun m => resultId m = some id).map orphanOf

/-- Rows in the order of their positions, with unique ids of calls. A call is written before its result. -/
structure Transcript (rows : List MessageResponse) : Prop where
  placed : ∀ m ∈ rows, 0 < m.seq
  ordered : rows.Pairwise fun a b => a.seq < b.seq ∨ a.seq = b.seq ∧ a.id < b.id
  ids : (rows.map MessageResponse.id).Nodup
  calls : (rows.flatMap callIds).Nodup
  results : (rows.filterMap resultId).Nodup
  answered : rows.Pairwise fun a b => ∀ id, resultId a = some id → id ∉ callIds b

/-- A block with the result its card has among `f`. -/
def ContentBlock.finish (f : Orphans) (b : ContentBlock) : ContentBlock :=
  match b.toolId.bind f with
  | none => b
  | some o => b.complete o

section
variable {pretty : String → Option String} {now : Nat} {m k : MessageResponse} {rows part front back : List MessageResponse}
  {b : ContentBlock} {bs : List ContentBlock} {o : OrphanToolResult} {f g : Orphans} {id : String}

namespace Transcript

/-- A part of the rows. -/
lemma sublist (T : Transcript rows) (sub : part.Sublist rows) : Transcript part where
  placed := fun m hm => T.placed m (sub.subset hm)
  ordered := T.ordered.sublist sub
  ids := T.ids.sublist (sub.map _)
  calls := T.calls.sublist (sub.flatMap _)
  results := T.results.sublist (sub.filterMap _)
  answered := T.answered.sublist sub

/-- The rows are sorted. -/
lemma sorted (T : Transcript rows) : sortMessages rows = rows := by
  apply List.mergeSort_of_pairwise
  apply (T.ordered.imp_of_mem (S := fun a b => notAfter a b = true)) _
  intro a b ha hb lt
  have placed := T.placed a ha
  have placed' := T.placed b hb
  unfold notAfter
  rw [if_pos ⟨placed, placed'⟩]
  split
  · simp only [decide_eq_true_eq]
    omega
  · simp only [decide_eq_true_eq]
    omega

/-- A call of a later row has no result in an earlier one. -/
lemma no_result (T : Transcript (front ++ back)) (called : id ∈ back.flatMap callIds) : resultsOf front id = none := by
  obtain ⟨k, hk, mem⟩ := List.mem_flatMap.mp called
  rw [resultsOf, Option.map_eq_none_iff, List.find?_eq_none]
  intro m hm is
  exact (List.pairwise_append.mp T.answered).2.2 m hm k hk id (by simpa using is) mem

/-- A call of a later row is no call of an earlier one. -/
lemma no_call (T : Transcript (front ++ back)) (called : id ∈ back.flatMap callIds) : id ∉ front.flatMap callIds := by
  have nd := T.calls
  rw [List.flatMap_append, List.nodup_append] at nd
  exact fun mem => nd.2.2 id mem id called rfl

end Transcript

variable (front back) in
/-- Rows in a row. -/
lemma resultsOf_append (id : String) : resultsOf (front ++ back) id = (resultsOf front id).or (resultsOf back id) := by
  rw [resultsOf, resultsOf, resultsOf, List.find?_append, Option.map_or]

/-- A single row. -/
lemma resultsOf_singleton : resultsOf [m] id = if resultId m = some id then some (orphanOf m) else none := by
  by_cases is : resultId m = some id
  · simp [resultsOf, is]
  · simp [resultsOf, is]

/-! ## Cards -/

/-- Completing keeps the id. -/
@[simp] lemma toolId_complete : (b.complete o).toolId = b.toolId := rfl

/-- Finishing keeps the call. -/
@[simp] lemma toolId_finish : (b.finish f).toolId = b.toolId := by
  unfold ContentBlock.finish
  split
  · rfl
  · rfl

/-- Finishing keeps the id. -/
lemma id_finish : (b.finish f).id = b.id := by
  unfold ContentBlock.finish
  split
  · rfl
  · rfl

/-- The calls of a row are the calls of its cards. -/
lemma toolId_rowBlocks : (rowBlocks pretty now m).filterMap ContentBlock.toolId = callIds m := by
  have calls : ∀ tools : List ToolRef, (tools.map (toolBlock pretty now m)).filterMap ContentBlock.toolId =
      tools.filterMap fun t => truthy (some t.id) := by
    intro tools
    rw [List.filterMap_map]
    rfl
  have assistant : (assistantBlocks pretty now m).filterMap ContentBlock.toolId =
      m.toolCalls.filterMap fun t => truthy (some t.id) := by
    unfold assistantBlocks
    rw [List.filterMap_append, List.filterMap_append, calls]
    cases truthy m.reasoningContent <;> cases truthy m.content <;> simp [ContentBlock.toolId]
  unfold rowBlocks callIds
  cases queued : m.queued with
  | true => simp
  | false =>
    cases summary : m.isSummary with
    | true => simp [ContentBlock.toolId, compactionBlock]
    | false =>
      cases role : m.role with
      | user => simp [ContentBlock.toolId, userBlock]
      | assistant => simpa using assistant
      | tool => simp
      | system => simp

variable (pretty now) in
/-- The calls of the blocks. -/
lemma toolIds_flatMap :
    (rows.flatMap (rowBlocks pretty now)).filterMap ContentBlock.toolId = rows.flatMap callIds := by
  rw [List.filterMap_flatMap]
  congr 1
  exact funext fun m => toolId_rowBlocks

/-- A block's call is a row's. -/
lemma mem_callIds (hm : m ∈ rows) (hb : b ∈ rowBlocks pretty now m) (call : b.toolId = some id) :
    id ∈ rows.flatMap callIds := by
  rw [← toolIds_flatMap pretty now]
  exact List.mem_filterMap.mpr ⟨b, List.mem_flatMap.mpr ⟨m, hm, hb⟩, call⟩

/-- Cards of other calls do not matter. -/
lemma finish_congr (same : ∀ id ∈ rows.flatMap callIds, f id = g id) :
    (rows.flatMap (rowBlocks pretty now)).map (ContentBlock.finish f) =
      (rows.flatMap (rowBlocks pretty now)).map (ContentBlock.finish g) := by
  apply List.map_congr_left
  intro b hb
  obtain ⟨m, hm, hb⟩ := List.mem_flatMap.mp hb
  unfold ContentBlock.finish
  cases call : b.toolId with
  | none => rfl
  | some id => rw [Option.bind_some, Option.bind_some, same id (mem_callIds hm hb call)]

variable (pretty now) in
/-- There are no results. -/
lemma finish_none (none : ∀ id ∈ rows.flatMap callIds, f id = none) :
    (rows.flatMap (rowBlocks pretty now)).map (ContentBlock.finish f) = rows.flatMap (rowBlocks pretty now) := by
  rw [finish_congr (g := fun _ => Option.none) none]
  apply List.map_id''
  intro b
  unfold ContentBlock.finish
  cases b.toolId with
  | none => rfl
  | some id => rfl

/-- A card that is the only one of its call. -/
lemma completeLast_eq (once : (bs.filterMap ContentBlock.toolId).Nodup) :
    completeLast id o bs = bs.map fun b => if b.toolId = some id then b.complete o else b := by
  induction bs with
  | nil => rfl
  | cons b bs ih =>
    have rest : (bs.filterMap ContentBlock.toolId).Nodup :=
      once.sublist ((List.sublist_cons_self b bs).filterMap _)
    rw [completeLast, List.map_cons]
    by_cases later : (bs.any fun k => k.toolId = some id) = true
    · rw [if_pos later, ih rest]
      obtain ⟨k, hk, call⟩ := List.any_eq_true.mp later
      have other : b.toolId ≠ some id := by
        intro own
        rw [List.filterMap_cons_some own, List.nodup_cons] at once
        exact once.1 (List.mem_filterMap.mpr ⟨k, hk, by simpa using call⟩)
      rw [if_neg other]
    · have same : (bs.map fun b => if b.toolId = some id then b.complete o else b) = bs := by
        apply (List.map_congr_left fun k hk => ?_).trans (List.map_id _)
        rw [if_neg, id_eq]
        exact fun call => later (List.any_eq_true.mpr ⟨k, hk, by simpa using call⟩)
      rw [if_neg later, same]
      split
      · rfl
      · rfl

/-! ## A page -/

/-- What a page of a transcript becomes. -/
structure Parsed (pretty : String → Option String) (now : Nat) (rows : List MessageResponse) (orphans : Orphans)
    (p : Parse) : Prop where
  blocks : p.blocks = (rows.flatMap (rowBlocks pretty now)).map (ContentBlock.finish (resultsOf rows))
  called : ∀ id ∈ rows.flatMap callIds, p.orphans id = orphans id
  uncalled : ∀ id, id ∉ rows.flatMap callIds → p.orphans id = (resultsOf rows id).or (orphans id)

/-- One result more. -/
lemma finish_complete (new : f id = none) :
    (if (b.finish f).toolId = some id then (b.finish f).complete o else b.finish f) =
      b.finish fun i => if i = id then some o else f i := by
  unfold ContentBlock.finish
  cases call : b.toolId with
  | none => simp [call]
  | some i =>
    by_cases e : i = id
    · subst e
      simp [call, new]
    · cases found : f i with
      | none => simp [call, e, found]
      | some r => simp [call, e, found]

/-- A row that is no result. -/
lemma Parsed.push {orphans : Orphans} {p : Parse} (P : Parsed pretty now rows orphans p)
    (T : Transcript (rows ++ [m])) (plain : resultId m = none) :
    Parsed pretty now (rows ++ [m]) orphans { p with blocks := p.blocks ++ rowBlocks pretty now m } := by
  have results : resultsOf (rows ++ [m]) = resultsOf rows := by
    funext id
    simp [resultsOf_append, resultsOf_singleton, plain]
  refine ⟨?_, fun id called => ?_, fun id uncalled => ?_⟩
  · have none : ∀ id ∈ [m].flatMap callIds, resultsOf rows id = none := fun id => T.no_result
    have new := finish_none pretty now none
    rw [List.flatMap_singleton] at new
    rw [results, List.flatMap_append, List.flatMap_singleton, List.map_append, new, P.blocks]
  · rw [List.flatMap_append] at called
    cases List.mem_append.mp called with
    | inl old => exact P.called id old
    | inr new =>
      show p.orphans id = orphans id
      rw [P.uncalled id (T.no_call new), T.no_result new, Option.none_or]
  · rw [results]
    apply P.uncalled
    rw [List.flatMap_append] at uncalled
    exact fun old => uncalled (List.mem_append_left _ old)

/-- A result. -/
lemma Parsed.result {orphans : Orphans} {p : Parse} (P : Parsed pretty now rows orphans p)
    (T : Transcript (rows ++ [m])) (is : resultId m = some id) :
    Parsed pretty now (rows ++ [m]) orphans
      (if p.blocks.any fun b => b.toolId = some id then { p with blocks := completeLast id (orphanOf m) p.blocks }
        else { p with orphans := Function.update p.orphans id (some (orphanOf m)) }) := by
  have none : rowBlocks pretty now m = [] ∧ callIds m = [] := by
    unfold resultId at is
    split at is
    · rename_i tool
      simp [rowBlocks, callIds, tool]
    · cases is
  have once : resultsOf rows id = Option.none := by
    rw [resultsOf, Option.map_eq_none_iff, List.find?_eq_none]
    intro k hk same
    have nd := T.results
    rw [List.filterMap_append, List.nodup_append] at nd
    exact nd.2.2 id (List.mem_filterMap.mpr ⟨k, hk, by simpa using same⟩) id (by simp [is]) rfl
  have results : resultsOf (rows ++ [m]) = fun i => if i = id then some (orphanOf m) else resultsOf rows i := by
    funext i
    rw [resultsOf_append, resultsOf_singleton, is]
    by_cases e : i = id
    · simp [e, once]
    · simp [e, Ne.symm e]
  have calls : (rows ++ [m]).flatMap callIds = rows.flatMap callIds := by
    rw [List.flatMap_append, List.flatMap_singleton, none.2, List.append_nil]
  have blocks : (rows ++ [m]).flatMap (rowBlocks pretty now) = rows.flatMap (rowBlocks pretty now) := by
    rw [List.flatMap_append, List.flatMap_singleton, none.1, List.append_nil]
  have toolIds : p.blocks.filterMap ContentBlock.toolId = rows.flatMap callIds := by
    rw [P.blocks, List.filterMap_map, ← toolIds_flatMap pretty now]
    congr 1
    exact funext fun b => toolId_finish
  have any : (p.blocks.any fun b => b.toolId = some id) = true ↔ id ∈ rows.flatMap callIds := by
    rw [← toolIds, List.any_eq_true, List.mem_filterMap]
    simp
  by_cases known : id ∈ rows.flatMap callIds
  · rw [if_pos (any.mpr known)]
    refine ⟨?_, fun i called => P.called i (calls ▸ called), fun i uncalled => ?_⟩
    · dsimp only
      rw [completeLast_eq, P.blocks, blocks, results, List.map_map]
      · exact List.map_congr_left fun b _ => finish_complete once
      · rw [toolIds]
        have nd := T.calls
        rw [calls] at nd
        exact nd
    · have e : i ≠ id := fun e => uncalled (calls ▸ e ▸ known)
      rw [results]
      dsimp only
      rw [if_neg e]
      exact P.uncalled i (calls ▸ uncalled)
  · rw [if_neg (mt any.mp known)]
    refine ⟨?_, fun i called => ?_, fun i uncalled => ?_⟩
    · dsimp only
      rw [P.blocks, blocks]
      apply finish_congr
      intro i called
      have e : i ≠ id := fun e => known (e ▸ called)
      rw [results]
      exact (if_neg e).symm
    · have e : i ≠ id := fun e => known (calls ▸ e ▸ called)
      dsimp only
      rw [Function.update_of_ne e]
      exact P.called i (calls ▸ called)
    · rw [results]
      dsimp only
      by_cases e : i = id
      · subst e
        simp
      · rw [Function.update_of_ne e, if_neg e]
        exact P.uncalled i (calls ▸ uncalled)

/-- One more row. -/
lemma Parsed.row {orphans : Orphans} {p : Parse} (P : Parsed pretty now rows orphans p) (T : Transcript (rows ++ [m])) :
    Parsed pretty now (rows ++ [m]) orphans (parseRow pretty now p m) := by
  have push := fun plain : resultId m = none => P.push T plain
  unfold parseRow
  cases queued : m.queued with
  | true =>
    have plain : resultId m = none := by simp [resultId, queued]
    simpa [rowBlocks, queued] using push plain
  | false =>
    cases summary : m.isSummary with
    | true =>
      have plain : resultId m = none := by simp [resultId, summary]
      simpa [rowBlocks, queued, summary] using push plain
    | false =>
      cases role : m.role with
      | tool =>
        cases is : truthy m.toolCallId with
        | none =>
          have plain : resultId m = none := by simp [resultId, queued, summary, role, is]
          simpa [rowBlocks, queued, summary, role, is] using push plain
        | some id =>
          have is : resultId m = some id := by simp [resultId, queued, summary, role, is]
          simpa using P.result T is
      | _ =>
        have plain : resultId m = none := by simp [resultId, role]
        simpa [rowBlocks, queued, summary, role] using push plain

variable (pretty now) in
/-- `parseAgentBlocks` on a page of a transcript. -/
lemma parse_spec (T : Transcript rows) (orphans : Orphans) :
    Parsed pretty now rows orphans (parseAgentBlocks pretty now rows orphans) := by
  rw [parseAgentBlocks, T.sorted]
  induction rows using List.reverseRecOn with
  | nil => exact ⟨rfl, fun id h => absurd h List.not_mem_nil, fun id _ => rfl⟩
  | append_singleton rows m ih =>
    rw [List.foldl_append]
    exact (ih (T.sublist (List.sublist_append_left _ _))).row T

/-! ## Orphans -/

/-- `applyOrphanToolResults` on blocks with unique ids of calls. -/
lemma applyOrphanToolResults_eq (orphans : Orphans) (once : (bs.filterMap ContentBlock.toolId).Nodup) :
    (applyOrphanToolResults bs orphans).1 = (bs.map fun b => if b.toolDone then b else b.finish orphans) ∧
    ∀ id ∉ bs.filterMap ContentBlock.toolId, (applyOrphanToolResults bs orphans).2 id = orphans id := by
  induction bs generalizing orphans with
  | nil => exact ⟨rfl, fun id _ => rfl⟩
  | cons b bs ih =>
    have rest : (bs.filterMap ContentBlock.toolId).Nodup :=
      once.sublist ((List.sublist_cons_self b bs).filterMap _)
    have later : ∀ id ∉ (b :: bs).filterMap ContentBlock.toolId, id ∉ bs.filterMap ContentBlock.toolId :=
      fun id out mem => out (((List.sublist_cons_self b bs).filterMap _).subset mem)
    rw [applyOrphanToolResults]
    split
    · rename_i keeps
      obtain ⟨blocks, orphaned⟩ := ih orphans rest
      refine ⟨?_, fun id out => orphaned id (later id out)⟩
      dsimp only
      rw [blocks, List.map_cons]
      congr 1
      cases done : b.toolDone with
      | true => rfl
      | false =>
        cases call : b.toolId with
        | none => simp [ContentBlock.finish, call]
        | some id =>
          have none : orphans id = none := by simpa [done, call] using keeps
          simp [ContentBlock.finish, call, none]
    · rename_i id o found
      split at found
      · cases found
      · rename_i done
        obtain ⟨i, call, found⟩ := Option.bind_eq_some_iff.mp found
        obtain ⟨o', has, e⟩ := Option.map_eq_some_iff.mp found
        cases e
        obtain ⟨blocks, orphaned⟩ := ih (Function.update orphans id none) rest
        rw [List.filterMap_cons_some call, List.nodup_cons] at once
        refine ⟨?_, fun k out => ?_⟩
        · dsimp only
          rw [blocks, List.map_cons]
          congr 1
          · simp [done, ContentBlock.finish, call, has]
          · apply List.map_congr_left
            intro k hk
            have other : k.toolId ≠ some id := fun same => once.1 (List.mem_filterMap.mpr ⟨k, hk, same⟩)
            unfold ContentBlock.finish
            cases called : k.toolId with
            | none => rfl
            | some i =>
              have ne : i ≠ id := fun e => other (e ▸ called)
              rw [Option.bind_some, Option.bind_some, Function.update_of_ne ne]
        · dsimp only
          rw [orphaned k (later k out), Function.update_of_ne]
          intro e
          exact out (List.mem_filterMap.mpr ⟨b, List.mem_cons_self, e ▸ call⟩)

end

end OpenAgentd.Web
