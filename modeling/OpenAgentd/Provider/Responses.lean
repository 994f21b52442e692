import OpenAgentd.Lib.Firsts
import OpenAgentd.Loop.Assemble

/-!
# The Responses API

`ResponsesHandler` (`openai/responses.py`). `parseResponse` reads a completed reply; `ResponsesStream.event` reads one
event of its stream, with the alias maps that tell which call a fragment belongs to. `WellStreamed` says when events are
a stream of a reply: the texts are cut anywhere, the events of different calls may stand in any order, and a fragment
names its call by any identifier that an earlier event of the call has carried.

Lines that are no events are skipped, `[DONE]` ends the stream, and `response.failed` raises.
-/

namespace OpenAgentd.Provider
open OpenAgentd.Lib OpenAgentd.Loop

/-- A part of a message. -/
inductive MessagePart where
  | outputText (text : String)
  | other

/-- A `function_call` item. -/
structure FunctionItem where
  id : Option String := none
  callId : Option String := none
  name : Option String := none
  arguments : Option String := none
  deriving DecidableEq

/-- An item of `output`. The parts of a summary are texts. -/
inductive OutputItem where
  | message (content : List MessagePart)
  | reasoning (id : Option String) (summary : List String) (encryptedContent : Option String)
  | functionCall (call : FunctionItem)
  | other

/-! ## The completed reply -/

/-- The texts of a message. -/
def OutputItem.texts : OutputItem → List String
  | .message content => content.filterMap fun
    | .outputText text => some text
    | .other => none
  | _ => []

def OutputItem.summaries : OutputItem → List String
  | .reasoning _ summary _ => summary
  | _ => []

/-- The item that is replayed on the next turn. -/
def OutputItem.encrypted : OutputItem → Option EncryptedReasoningItem
  | .reasoning id summary encryptedContent =>
    (encryptedContent.filter (· ≠ "")).map fun content => { id, summary, encryptedContent := content }
  | _ => none

def FunctionItem.toolCall (c : FunctionItem) : ToolCall where
  id := c.callId.getD (c.id.getD "")
  name := c.name.getD ""
  arguments := c.arguments.getD "\x7b\x7d"

def OutputItem.toolCall : OutputItem → Option ToolCall
  | .functionCall c => some c.toolCall
  | _ => none

/-- What an arguments event says about its call. -/
structure EventIds where
  callId : String := ""
  itemId : String := ""
  outputIndex : Option Int := none
  name : String := ""

inductive ResponseEvent where
  | itemAdded (outputIndex : Option Int) (item : OutputItem)
  | itemDone (item : OutputItem)
  | summaryPartAdded
  | reasoningDelta (delta : String)
  | textDelta (delta : String)
  | failed
  | argumentsDelta (ids : EventIds) (delta : String)
  | argumentsDone (ids : EventIds) (arguments : Option String)
  | textDone
  | completed (usage : Bool)
  | other

/-- The local variables of `_parse_stream`. -/
structure ResponsesStream where
  idToCanonical : Dict String String := .empty
  indexToCanonical : Dict Int String := .empty
  currentToolCallIndex : Int := -1
  toolCallMap : Dict String Int := .empty
  toolNames : Dict String String := .empty
  toolHadDeltas : List String := []
  reasoningPartsSeen : Nat := 0

/-- `a or b or …`, with the empty text for none. -/
def firstTruthy : List (Option String) → String
  | [] => ""
  | o :: rest => if o.getD "" = "" then firstTruthy rest else o.getD ""

/-- `call_<index>` for the index of an output item. -/
def indexId (outputIndex : Option Int) : Option String := outputIndex.map fun i => "call_" ++ toString i

/-- `d[k] = v` for a key that is not empty. -/
def setTruthy (d : Dict String String) (k v : String) : Dict String String := if k = "" then d else d.set k v

def setIndex (d : Dict Int String) (k : Option Int) (v : String) : Dict Int String :=
  match k with
  | none => d
  | some i => d.set i v

/-- `_extract_call_id_and_name`, without the name. -/
def EventIds.extId (ids : EventIds) : String := if ids.callId = "" then ids.itemId else ids.callId

/-- The id `_resolve_tool_id` finds. -/
def ResponsesStream.canonId (st : ResponsesStream) (ids : EventIds) : String :=
  firstTruthy
    [ st.idToCanonical.get? ids.callId, st.idToCanonical.get? ids.itemId, st.idToCanonical.get? ids.extId,
      ids.outputIndex.bind st.indexToCanonical.get?, some ids.extId, some ids.callId, some ids.itemId,
      indexId ids.outputIndex ]

/-- The maps behind `_resolve_tool_id`. -/
def ResponsesStream.learn (st : ResponsesStream) (ids : EventIds) (canon : String) : ResponsesStream :=
  if canon = "" then st
  else
    { st with
      idToCanonical :=
        setTruthy (setTruthy (setTruthy st.idToCanonical ids.callId canon) ids.itemId canon) ids.extId canon
      indexToCanonical := setIndex st.indexToCanonical ids.outputIndex canon }

/-- The header of a call. -/
def ResponsesStream.header (st : ResponsesStream) (outputIndex : Option Int) (c : FunctionItem) : ResponsesStream :=
  let itemId := c.id.getD ""
  let itemCallId := c.callId.getD ""
  let fnName := c.name.getD ""
  let canon := firstTruthy [some itemCallId, some itemId, indexId outputIndex]
  { st with
    idToCanonical := setTruthy (setTruthy st.idToCanonical itemId canon) itemCallId canon
    indexToCanonical := setIndex st.indexToCanonical outputIndex canon
    toolNames :=
      if fnName = "" then st.toolNames
      else setTruthy (setTruthy (st.toolNames.set canon fnName) itemId fnName) itemCallId fnName }

/-- The number of a call, the next one for a call without. -/
def ResponsesStream.number (st : ResponsesStream) (callId : String) : ResponsesStream :=
  match st.toolCallMap.get? callId with
  | some _ => st
  | none =>
    { st with
      currentToolCallIndex := st.currentToolCallIndex + 1
      toolCallMap := st.toolCallMap.set callId (st.currentToolCallIndex + 1) }

/-- The name of a call, kept for its later events. -/
def ResponsesStream.keepName (st : ResponsesStream) (callId fnName : String) : ResponsesStream :=
  if fnName ≠ "" ∧ callId ≠ "" ∧ callId ∉ st.toolNames.keys then
    { st with toolNames := st.toolNames.set callId fnName }
  else st

def ResponsesStream.fnName (st : ResponsesStream) (ids : EventIds) (callId : String) : String :=
  if ids.name = "" then (st.toolNames.get? callId).getD "" else ids.name

/-- A fragment of a call. -/
def callDelta (index : Option Int) (id name arguments : Option String) : ToolCallDelta where
  index := index
  id := id
  function := some { name, arguments }

/-- A chunk with one fragment of a call. -/
def callChunk (index : Option Int) (id name arguments : Option String) : StreamItem :=
  .choice { toolCalls := [callDelta index id name arguments] } none

/-- `response.function_call_arguments.delta` -/
def ResponsesStream.argumentsDelta (st : ResponsesStream) (ids : EventIds) (delta : String) :
    ResponsesStream × List StreamItem :=
  let callId := st.canonId ids
  let st := st.learn ids callId
  let firstDelta := callId ∉ st.toolCallMap.keys
  let st := st.number callId
  let fnName := st.fnName ids callId
  let st := st.keepName callId fnName
  let st := { st with toolHadDeltas := callId :: st.toolHadDeltas }
  let emitName := if firstDelta ∧ fnName ≠ "" then some fnName else none
  (st, [callChunk (st.toolCallMap.get? callId) (orNone callId) emitName (some delta)])

/-- `response.function_call_arguments.done`. The arguments are sent unless their deltas were. -/
def ResponsesStream.argumentsDone (st : ResponsesStream) (ids : EventIds) (arguments : Option String) :
    ResponsesStream × List StreamItem :=
  let callId := st.canonId ids
  let st := st.learn ids callId
  let fnName := st.fnName ids callId
  let fnArgs := arguments.getD "\x7b\x7d"
  let st := st.number callId
  let st := st.keepName callId fnName
  let emitArgs := if callId ∉ st.toolHadDeltas then some fnArgs else none
  (st, [callChunk (st.toolCallMap.get? callId) (some callId) (some fnName) emitArgs])

/-- One event; `none` when it raises. -/
def ResponsesStream.event (st : ResponsesStream) : ResponseEvent → Option (ResponsesStream × List StreamItem)
  | .itemAdded outputIndex (.functionCall c) => some (st.header outputIndex c, [])
  | .itemAdded _ _ => some (st, [])
  | .itemDone item =>
    some (st, (item.encrypted.map fun item => .choice { reasoningItem := some item } none).toList)
  | .summaryPartAdded =>
    let st := { st with reasoningPartsSeen := st.reasoningPartsSeen + 1 }
    some (st, if st.reasoningPartsSeen > 1 then [.choice { reasoningContent := some "\n\n" } none] else [])
  | .reasoningDelta delta =>
    some (st, if delta = "" then [] else [.choice { reasoningContent := some delta } none])
  | .textDelta delta => some (st, if delta = "" then [] else [.choice { content := some delta } none])
  | .failed => none
  | .argumentsDelta ids delta => some (st.argumentsDelta ids delta)
  | .argumentsDone ids arguments => some (st.argumentsDone ids arguments)
  | .textDone => some (st, [.choice {} (some "stop")])
  | .completed usage => some (st, if usage then [.usage] else [])
  | .other => some (st, [])

def ResponsesStream.items (st : ResponsesStream) : List ResponseEvent → Option (List StreamItem)
  | [] => some []
  | e :: es =>
    match st.event e with
    | none => none
    | some (st, chunks) => (ResponsesStream.items st es).map (chunks ++ ·)

/-- `stream_and_assemble` over `_parse_stream`; `none` when the stream raises. -/
def streamResponse (loads : String → Option Json) (events : List ResponseEvent) : Option ChatMessage :=
  (ResponsesStream.items {} events).map (assemble loads)

/-! ## Streams of a reply -/

/-- A call of a reply with its place in `output`. -/
abbrev PlacedCall := Int × FunctionItem

def placedCall : OutputItem × Nat → Option PlacedCall
  | (.functionCall c, k) => some (k, c)
  | _ => none

def calls (output : List OutputItem) : List PlacedCall := output.zipIdx.filterMap placedCall

/-- What names a call. -/
inductive Ident where
  | name (s : String)
  | index (i : Int)
  deriving DecidableEq

def identsOf (callId itemId : String) (outputIndex : Option Int) : List Ident :=
  ([callId, itemId].filter (· ≠ "")).map Ident.name ++ outputIndex.toList.map Ident.index

/-- The identifiers of a call. -/
def FunctionItem.idents (c : FunctionItem) (k : Option Int) : List Ident := identsOf (c.callId.getD "") (c.id.getD "") k

/-- The identifiers an event of a call carries. -/
def ResponseEvent.idents : ResponseEvent → List Ident
  | .itemAdded outputIndex (.functionCall c) => c.idents outputIndex
  | .argumentsDelta ids _ => identsOf ids.callId ids.itemId ids.outputIndex
  | .argumentsDone ids _ => identsOf ids.callId ids.itemId ids.outputIndex
  | _ => []

/-- What an arguments event says is right for a call. -/
def EventIds.ofCall (ids : EventIds) (p : PlacedCall) : Bool :=
  (ids.callId = "" || some ids.callId = p.2.callId) && (ids.itemId = "" || some ids.itemId = p.2.id) &&
    ids.outputIndex.all (· = p.1) && (ids.name = "" || some ids.name = p.2.name) &&
    identsOf ids.callId ids.itemId ids.outputIndex ≠ []

/-- The header of a call: its item, before the arguments are there. -/
def ResponseEvent.isHeader (p : PlacedCall) : ResponseEvent → Bool
  | .itemAdded outputIndex (.functionCall c) =>
    outputIndex.all (· = p.1) && c.id = p.2.id && c.callId = p.2.callId && c.name = p.2.name
  | _ => false

/-- A fragment of a call. -/
def ResponseEvent.isFragment (p : PlacedCall) : ResponseEvent → Bool
  | .argumentsDelta ids _ => ids.ofCall p
  | .argumentsDone ids _ => ids.ofCall p
  | _ => false

/-- The header or a fragment of some call. -/
def ResponseEvent.isCall : ResponseEvent → Bool
  | .itemAdded _ (.functionCall _) => true
  | .argumentsDelta _ _ => true
  | .argumentsDone _ _ => true
  | _ => false

/-- An event of a call. -/
def ResponseEvent.ofCall (p : PlacedCall) (e : ResponseEvent) : Bool := e.isHeader p || e.isFragment p

def ResponseEvent.text : ResponseEvent → Option String
  | .textDelta delta => some delta
  | _ => none

/-- The start of a part (`none`) or a piece of it. -/
def ResponseEvent.reasoning : ResponseEvent → Option (Option String)
  | .summaryPartAdded => some none
  | .reasoningDelta delta => some (some delta)
  | _ => none

def ResponseEvent.encrypted : ResponseEvent → Option EncryptedReasoningItem
  | .itemDone item => item.encrypted
  | _ => none

/-- The events of one call: the header, the deltas if there are any, and the whole arguments. -/
structure CallStream (c : FunctionItem) (own : List ResponseEvent) : Prop where
  parts : ∃ index item pieces last,
    own = .itemAdded index item :: (pieces.map (fun p : EventIds × String => .argumentsDelta p.1 p.2) ++
      [.argumentsDone last c.arguments]) ∧
    (pieces = [] ∨ String.join (pieces.map Prod.snd) = c.toolCall.arguments)

/-- A fragment names its call by an identifier that an earlier event of the call has carried. -/
def Resolvable (p : PlacedCall) (before : List ResponseEvent) (e : ResponseEvent) : Prop :=
  ∃ e' ∈ before, e'.ofCall p = true ∧ ∃ x ∈ e.idents, x ∈ e'.idents

/-- The events are a stream of the reply. -/
structure WellStreamed (output : List OutputItem) (events : List ResponseEvent) : Prop where
  texts : ∃ pieces : List (List String), pieces.map String.join = output.flatMap OutputItem.texts ∧
    events.filterMap ResponseEvent.text = pieces.flatten
  summaries : ∃ pieces : List (List String), pieces.map String.join = output.flatMap OutputItem.summaries ∧
    events.filterMap ResponseEvent.reasoning = pieces.flatMap fun part => none :: part.map some
  items : events.filterMap ResponseEvent.encrypted = output.filterMap OutputItem.encrypted
  named : ∀ p ∈ calls output, p.2.callId ≠ some "" ∧ p.2.toolCall.id ≠ ""
  apart : (calls output).Pairwise fun p q => ∀ s, Ident.name s ∈ p.2.idents none → Ident.name s ∉ q.2.idents none
  streams : ∀ p ∈ calls output, CallStream p.2 (events.filter (ResponseEvent.ofCall p))
  owned : ∀ before e after, events = before ++ e :: after → e.isCall = true → ∃ p ∈ calls output,
    e.ofCall p = true ∧ (e.isFragment p = true → Resolvable p before e)
  succeeds : .failed ∉ events

end OpenAgentd.Provider
