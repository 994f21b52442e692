import OpenAgentd.Loop.Assemble
import OpenAgentd.Loop.Pairing
import Mathlib.Data.List.Chain

/-!
# The history of the Gemini providers

`_convert_messages_to_gemini` makes a turn of each message, and `_normalize_gemini_turns` merges and bridges the turns
until user and model alternate (`googlegenai.py`). Both passes of the normalisation are restated as recursions (`gatherTurns`,
`weave`). What a message holds for the model is said by `Holds`, without the conversion. `gemini_iff` says when the
history of well paired messages is well formed: no text of the messages makes the conversion raise, and no call has an
id that begins with `call_`, which the call loses and its response keeps.
-/

namespace OpenAgentd.Provider
open OpenAgentd.Loop

/-- What `_convert_messages_to_gemini` uses of `json`. -/
structure JsonValues (J : Type*) where
  loads : String → Option J
  isDict : J → Bool
  empty : J
  text : String → J
  /-- `{"result": value}` -/
  result : J → J

/-- A block of a multimodal message. -/
inductive Block where
  | text (text : String)
  | imageData (data mediaType : String)
  | imageUrl (url : String) (mediaType : Option String)

/-- The two sides of a conversation with Gemini. -/
inductive Speaker where
  | user
  | model
  deriving DecidableEq

structure GeminiCall (J : Type*) where
  name : String
  args : J
  id : Option String

structure GeminiResponse (J : Type*) where
  name : String
  response : J
  id : Option String

/-- `Part`. -/
structure Part (J : Type*) where
  text : Option String := none
  thought : Bool := false
  thoughtSignature : Option String := none
  functionCall : Option (GeminiCall J) := none
  functionResponse : Option (GeminiResponse J) := none
  inlineData : Option (String × String) := none
  fileData : Option (String × String) := none

/-- `Content`: a turn. -/
structure Content (J : Type*) where
  role : Speaker
  parts : List (Part J)

/-- Why a conversion raises. -/
inductive ConvertError where
  /-- A `data:` URL without a comma. -/
  | unpack
  /-- Arguments that are no dict. -/
  | args
  deriving DecidableEq

/-- The values, or the first error. -/
def collect {ε α : Type*} : List (Except ε α) → Except ε (List α)
  | [] => .ok []
  | x :: xs => x.bind fun a => (collect xs).map (a :: ·)

section
variable {J : Type*} (json : JsonValues J) (block : String → Block)

/-! ## The conversion -/

/-- The part of a block. -/
def blockPart : Block → Except ConvertError (Part J)
  | .text text => .ok { text := some text }
  | .imageData data mediaType => .ok { inlineData := some (mediaType, data) }
  | .imageUrl url mediaType =>
    if "data:".toList.isPrefixOf url.toList then
      let header := url.toList.takeWhile (· ≠ ',')
      match url.toList.drop header.length with
      | [] => .error .unpack
      | _ :: b64data =>
        let mime := ((header.splitOn ':').getD 1 []).takeWhile (· ≠ ';')
        .ok { inlineData := some (.ofList mime, .ofList b64data) }
    else .ok { fileData := some ((mediaType.filter (· ≠ "")).getD "image/jpeg", url) }

/-- The parts of the blocks of a message. -/
def blockParts (m : ChatMessage) : Except ConvertError (List (Part J)) :=
  collect (m.parts.map fun p => blockPart (block p))

/-- `str(thought)` -/
def thoughtStr : Thought → String
  | .flag true => "True"
  | .flag false => "False"
  | .text s => s

/-- A text that is not empty. -/
def nonempty (s : Option String) : Option String := s.filter (· ≠ "")

/-- The call, with its id unless it begins with `call_`. -/
def callPart (m : ChatMessage) (tc : ToolCall) (args : J) : Part J where
  functionCall := some
    { name := tc.name, args, id := if "call_".toList.isPrefixOf tc.id.toList then none else some tc.id }
  thoughtSignature := (nonempty tc.thoughtSignature).or (nonempty m.reasoningSignature)

/-- The parts of a call: its thought and the call itself. -/
def callParts (m : ChatMessage) (tc : ToolCall) : Except ConvertError (List (Part J)) :=
  let args := (json.loads tc.arguments).getD json.empty
  if (json.loads tc.arguments).all json.isDict then
    .ok (((tc.thought.filter Thought.truthy).toList.map fun thought =>
      { text := some (thoughtStr thought), thought := true }) ++ [callPart m tc args])
  else .error .args

/-- The text of an answer. Next to calls it is a thought. -/
def textParts (m : ChatMessage) : List (Part J) :=
  (nonempty m.content).toList.map fun content => { text := some content, thought := !m.toolCalls.isEmpty }

/-- The reasoning of an answer without calls. -/
def reasoningParts (m : ChatMessage) : List (Part J) :=
  if m.toolCalls.isEmpty then
    (nonempty m.reasoningContent).toList.map fun reasoning =>
      { text := some reasoning, thought := true, thoughtSignature := nonempty m.reasoningSignature }
  else []

/-- What a tool has returned. -/
def toolResult (m : ChatMessage) : J :=
  match nonempty m.content with
  | none => json.result (json.text "No content")
  | some content =>
    match json.loads content with
    | none => json.result (json.text content)
    | some value => if json.isDict value then value else json.result value

/-- The response to a call. -/
def responsePart (m : ChatMessage) : Part J where
  functionResponse := some
    { name := (nonempty m.name).getD "unknown", response := toolResult json m, id := some m.toolCallId }

/-- The turn of a message, if it has one. -/
def contentOf (m : ChatMessage) : Except ConvertError (List (Content J)) :=
  match m.role with
  | .system => .ok []
  | .user =>
    if m.parts.isEmpty then .ok [{ role := .user, parts := [{ text := m.content }] }]
    else (blockParts block m).map fun parts => [{ role := .user, parts }]
  | .assistant =>
    (collect (m.toolCalls.map (callParts json m))).map fun calls =>
      let parts := textParts m ++ calls.flatten ++ reasoningParts m
      if parts.isEmpty then [] else [{ role := .model, parts }]
  | .tool => (blockParts block m).map fun parts => [{ role := .user, parts := responsePart json m :: parts }]

/-- The turns of the messages. -/
def contentsOf : List ChatMessage → Except ConvertError (List (Content J))
  | [] => .ok []
  | m :: ms => (contentOf json block m).bind fun c => (contentsOf ms).map (c ++ ·)

/-! ## The normalisation -/

/-- A turn with a response to a call. -/
def Content.hasFn (c : Content J) : Bool := c.parts.any fun p => p.functionResponse.isSome

/-- Two turns in one. -/
def Content.merge (prev content : Content J) : Content J where
  role := content.role
  parts := prev.parts ++ content.parts

/-- Pass 1: an empty turn is dropped, and a turn is merged with a compatible one before it. -/
def collapseStep (collapsed : List (Content J)) (content : Content J) : List (Content J) :=
  if content.parts.isEmpty then collapsed
  else
    match collapsed.getLast? with
    | none => collapsed ++ [content]
    | some prev =>
      if prev.role = content.role ∧ prev.hasFn = content.hasFn then collapsed.dropLast ++ [prev.merge content]
      else collapsed ++ [content]

/-- A turn with a text that no message has. -/
def synthetic (role : Speaker) (text : String) : Content J where
  role := role
  parts := [{ text := some text }]

/-- Pass 3: two turns of one role are bridged or merged. -/
def alternateStep (normalized : List (Content J)) (content : Content J) : List (Content J) :=
  match normalized.getLast? with
  | none => normalized ++ [content]
  | some prev =>
    if prev.role = content.role then
      if prev.hasFn ∧ !content.hasFn then normalized ++ [synthetic .model "Understood."] ++ [content]
      else if !prev.hasFn ∧ content.hasFn then normalized ++ [synthetic .model "Acknowledged."] ++ [content]
      else normalized.dropLast ++ [prev.merge content]
    else normalized ++ [content]

/-- `_normalize_gemini_turns` -/
def normalizeGeminiTurns (contents : List (Content J)) : List (Content J) :=
  match contents.foldl collapseStep [] with
  | [] => []
  | first :: collapsed =>
    (first :: collapsed).foldl alternateStep
      (if first.role ≠ .user then [synthetic .user "[Session context]"] else [])

end

/-! ## What the messages hold -/

/-- A thing that is told to the model. -/
inductive Item (J : Type*) where
  | text (text : Option String)
  | thought (text : Option String)
  | image (mediaType data : String)
  | link (mediaType url : String)
  | call (name : String) (args : J)
  | response (callId : Option String) (name : String) (value : J)

/-- What a block holds. -/
inductive BlockHolds {J : Type*} : Block → Item J → Prop where
  | text {s} :
    BlockHolds (.text s) (.text (some s))
  | data {data mediaType} :
    BlockHolds (.imageData data mediaType) (.image mediaType data)
  /-- `data:<media type>,<data>`, where what follows the media type begins with a semicolon or a colon. -/
  | embedded {url mediaType mime more data} :
    url.toList = "data:".toList ++ (mime ++ more) ++ ',' :: data →
    (∀ c ∈ mime, c ≠ ',' ∧ c ≠ ';' ∧ c ≠ ':') →
    ',' ∉ more →
    (∀ c ∈ more.head?, c = ';' ∨ c = ':') →
    BlockHolds (.imageUrl url mediaType) (.image (.ofList mime) (.ofList data))
  | linked {url mediaType} :
    ¬ "data:".toList <+: url.toList →
    BlockHolds (.imageUrl url mediaType) (.link ((nonempty mediaType).getD "image/jpeg") url)

/-- What a tool call holds: its thought, and the call with its arguments, which are empty where they are no JSON. -/
inductive CallHolds {J : Type*} (json : JsonValues J) (tc : ToolCall) : List (Item J) → Prop where
  | call {args} :
    json.loads tc.arguments = some args ∨ json.loads tc.arguments = none ∧ args = json.empty →
    CallHolds json tc
      ((tc.thought.filter Thought.truthy).toList.map (fun t => .thought (some (thoughtStr t))) ++ [.call tc.name args])

/-- The value of a result: what its text is as JSON, in an object if it is none. -/
inductive ResultHolds {J : Type*} (json : JsonValues J) (content : Option String) : J → Prop where
  | none :
    nonempty content = none →
    ResultHolds json content (json.result (json.text "No content"))
  | text {s} :
    nonempty content = some s →
    json.loads s = none →
    ResultHolds json content (json.result (json.text s))
  | object {s value} :
    nonempty content = some s →
    json.loads s = some value →
    json.isDict value = true →
    ResultHolds json content value
  | value {s value} :
    nonempty content = some s →
    json.loads s = some value →
    json.isDict value = false →
    ResultHolds json content (json.result value)

/-- What a message holds, in order. -/
inductive Holds {J : Type*} (json : JsonValues J) (block : String → Block) (m : ChatMessage) : List (Item J) → Prop where
  | system :
    m.role = .system →
    Holds json block m []
  | prompt :
    m.role = .user →
    m.parts = [] →
    Holds json block m [.text m.content]
  | blocks {items} :
    m.role = .user →
    m.parts ≠ [] →
    List.Forall₂ BlockHolds (m.parts.map block) items →
    Holds json block m items
  | answer :
    m.role = .assistant →
    m.toolCalls = [] →
    Holds json block m ((nonempty m.content).toList.map (fun s => .text (some s)) ++
      (nonempty m.reasoningContent).toList.map fun s => .thought (some s))
  | calls {groups} :
    m.role = .assistant →
    m.toolCalls ≠ [] →
    List.Forall₂ (CallHolds json) m.toolCalls groups →
    Holds json block m ((nonempty m.content).toList.map (fun s => .thought (some s)) ++ groups.flatten)
  | result {value items} :
    m.role = .tool →
    ResultHolds json m.content value →
    List.Forall₂ BlockHolds (m.parts.map block) items →
    Holds json block m (.response (some m.toolCallId) ((nonempty m.name).getD "unknown") value :: items)

/-! ## Well formed histories -/

section
variable {J : Type*}

/-- The calls of a turn. -/
def Content.calls (c : Content J) : List (GeminiCall J) := c.parts.filterMap Part.functionCall

/-- The responses of a turn. -/
def Content.responses (c : Content J) : List (GeminiResponse J) := c.parts.filterMap Part.functionResponse

/-- What a part tells the model. -/
def Part.item (p : Part J) : Item J :=
  match p.functionCall, p.functionResponse, p.inlineData, p.fileData with
  | some call, _, _, _ => .call call.name call.args
  | none, some response, _, _ => .response response.id response.name response.response
  | none, none, some data, _ => .image data.1 data.2
  | none, none, none, some file => .link file.1 file.2
  | none, none, none, none => if p.thought then .thought p.text else .text p.text

/-- The items of some turns. -/
def itemsOf (turns : List (Content J)) : List (Item J) := (turns.flatMap Content.parts).map Part.item

/-- The texts that no message has. -/
def bridgeTexts : List String := ["[Session context]", "Understood.", "Acknowledged."]

/-- The second list is the first one with bridges between its members. -/
inductive Bridged {α : Type*} (bridge : String → α) : List α → List α → Prop where
  | nil :
    Bridged bridge [] []
  | keep {a as bs} :
    Bridged bridge as bs →
    Bridged bridge (a :: as) (a :: bs)
  | bridge {text as bs} :
    text ∈ bridgeTexts →
    Bridged bridge as bs →
    Bridged bridge as (bridge text :: bs)

/-- Each call has a response with its id in the turn directly after it. -/
def Answered : List (Content J) → Prop
  | [] => True
  | c :: cs => (∀ call ∈ c.calls, ∃ d ∈ cs.head?, ∃ response ∈ d.responses, response.id = call.id) ∧ Answered cs

/-- The history that is made of some messages. -/
structure WellFormed (json : JsonValues J) (block : String → Block) (messages : List ChatMessage)
    (turns : List (Content J)) : Prop where
  starts : ∀ t ∈ turns.head?, t.role = .user
  alternates : turns.IsChain fun a b => a.role ≠ b.role
  /-- What the messages hold, once and in order, with nothing but bridges between. -/
  whole : ∃ held, List.Forall₂ (Holds json block) messages held ∧
    Bridged (fun text => .text (some text)) held.flatten (itemsOf turns)
  answered : Answered turns
  stable : normalizeGeminiTurns turns = turns

end

/-! ## The first pass -/

section
variable {J : Type*} {c d prev first : Content J} {cs front turns : List (Content J)} {p : Part J}

/-- Turns that the first pass merges. -/
def Compatible (a b : Content J) : Prop := a.role = b.role ∧ a.hasFn = b.hasFn

instance : Decidable (Compatible c d) := inferInstanceAs (Decidable (_ ∧ _))

/-- The turns of the first pass behind `prev`. -/
def gatherTurns (prev : Content J) : List (Content J) → List (Content J)
  | [] => [prev]
  | c :: cs =>
    if c.parts.isEmpty then gatherTurns prev cs
    else if Compatible prev c then gatherTurns (prev.merge c) cs
    else prev :: gatherTurns c cs

/-- Merging keeps the kind. -/
lemma hasFn_merge (same : prev.hasFn = c.hasFn) : (prev.merge c).hasFn = c.hasFn := by
  unfold Content.hasFn Content.merge at *
  rw [List.any_append, same, Bool.or_self]

/-- The turns of the first pass. -/
def gathered : List (Content J) → List (Content J)
  | [] => []
  | c :: cs => gatherTurns c cs

/-- A turn in which the model calls and the user responds. -/
structure Plain (c : Content J) : Prop where
  user : c.role = .user → c.calls = []
  model : c.role = .model → c.hasFn = false

/-- The calls of both. -/
lemma calls_merge : (prev.merge c).calls = prev.calls ++ c.calls := List.filterMap_append

/-- Merging plain turns. -/
lemma Plain.merge (P : Plain prev) (Q : Plain c) (same : Compatible prev c) : Plain (prev.merge c) where
  user role := by
    rw [calls_merge, P.user (same.1.trans role), Q.user role]
    rfl
  model role := by rw [hasFn_merge same.2, Q.model role]

end

/-! ## The bridges -/

section
variable {J : Type*} {c d prev first : Content J} {cs front turns : List (Content J)} {p : Part J}

/-- A part that no message has. -/
def bridgePart (text : String) : Part J := { text := some text }

/-- Bridges stand behind what is put in front of both lists. -/
lemma Bridged.append {ps qs rs : List (Part J)} (B : Bridged bridgePart ps qs) :
    Bridged bridgePart (rs ++ ps) (rs ++ qs) := by
  induction rs with
  | nil => exact B
  | cons r rs ih => exact .keep ih

/-- Bridged parts tell the model what the parts tell, with bridges between. -/
lemma Bridged.items {ps qs : List (Part J)} (B : Bridged bridgePart ps qs) :
    Bridged (fun text => .text (some text)) (ps.map Part.item) (qs.map Part.item) := by
  induction B with
  | nil => exact .nil
  | keep _ ih => exact .keep ih
  | bridge text _ ih => exact .bridge text ih

/-- What the normalisation makes of some turns. -/
structure Normalized (contents turns : List (Content J)) : Prop where
  starts : ∀ t ∈ turns.head?, t.role = .user
  alternates : turns.IsChain fun a b => a.role ≠ b.role
  whole : Bridged bridgePart (contents.flatMap Content.parts) (turns.flatMap Content.parts)
  /-- Each call has its response if the first pass leaves it with it. -/
  answered : Answered (gathered contents) → Answered turns
  stable : normalizeGeminiTurns turns = turns

end

/-! ## The turns of the messages -/

section
variable {J : Type*} {json : JsonValues J} {block : String → Block} {m r : ChatMessage} {ms : List ChatMessage}
  {c cs : List (Content J)} {t prev : Content J} {tc : ToolCall}

/-- All of them work. -/
lemma collect_eq_ok {ε α : Type*} {l : List (Except ε α)} {as : List α} :
    collect l = .ok as ↔ l = as.map Except.ok := by
  induction l generalizing as with
  | nil =>
    rw [collect]
    constructor
    · intro ok
      rw [← Except.ok.inj ok]
      rfl
    · intro e
      rw [List.map_eq_nil_iff.mp e.symm]
  | cons x l ih =>
    rw [collect]
    cases x with
    | error e =>
      refine iff_of_false nofun fun same => ?_
      cases as with
      | nil => cases same
      | cons a as => cases (List.cons.inj same).1
    | ok a =>
      change (collect l).map (a :: ·) = .ok as ↔ _
      cases rest : collect l with
      | error e =>
        refine iff_of_false nofun fun same => ?_
        cases as with
        | nil => cases same
        | cons a as =>
          rw [ih.mpr (List.cons.inj same).2] at rest
          cases rest
      | ok bs =>
        have bs_eq := ih.mp rest
        constructor
        · intro ok
          rw [← Except.ok.inj ok, bs_eq]
          rfl
        · intro same
          cases as with
          | nil => cases same
          | cons b as =>
            obtain ⟨head, tail⟩ := List.cons.inj same
            rw [ih.mpr tail] at rest
            rw [Except.ok.inj head, Except.ok.inj rest]
            rfl

/-- One message more. -/
lemma contentsOf_cons : contentsOf json block (m :: ms) = .ok cs ↔
    ∃ c cs', contentOf json block m = .ok c ∧ contentsOf json block ms = .ok cs' ∧ cs = c ++ cs' := by
  rw [contentsOf]
  cases contentOf json block m with
  | error e => exact iff_of_false nofun fun ⟨_, _, wrong, _⟩ => nomatch wrong
  | ok c =>
    cases contentsOf json block ms with
    | error e => exact iff_of_false nofun fun ⟨_, _, _, wrong, _⟩ => nomatch wrong
    | ok cs' =>
      constructor
      · intro ok
        exact ⟨c, cs', rfl, rfl, (Except.ok.inj ok).symm⟩
      · intro found
        obtain ⟨d, ds, e, e', rfl⟩ := found
        cases e
        cases e'
        rfl

/-- A block is no call. -/
lemma blockPart_eq {b : Block} {p : Part J} (ok : blockPart b = .ok p) :
    p.functionCall = none ∧ p.functionResponse = none := by
  unfold blockPart at ok
  split at ok
  next => cases ok; exact ⟨rfl, rfl⟩
  next => cases ok; exact ⟨rfl, rfl⟩
  next =>
    split at ok
    next =>
      dsimp only at ok
      split at ok
      next => cases ok
      next => cases ok; exact ⟨rfl, rfl⟩
    next => cases ok; exact ⟨rfl, rfl⟩

/-- The blocks of a message are no calls and no responses. -/
lemma blockParts_eq {parts : List (Part J)} (ok : blockParts block m = .ok parts) :
    parts.filterMap Part.functionCall = [] ∧ parts.filterMap Part.functionResponse = [] ∧
      parts.length = m.parts.length := by
  unfold blockParts at ok
  have e := collect_eq_ok.mp ok
  have each : ∀ p ∈ parts, p.functionCall = none ∧ p.functionResponse = none := by
    intro p mem
    have ok' : (.ok p : Except ConvertError (Part J)) ∈ parts.map Except.ok := List.mem_map_of_mem mem
    rw [← e] at ok'
    obtain ⟨b, _, ok'⟩ := List.mem_map.mp ok'
    exact blockPart_eq ok'
  refine ⟨List.filterMap_eq_nil_iff.mpr fun p mem => (each p mem).1,
    List.filterMap_eq_nil_iff.mpr fun p mem => (each p mem).2, ?_⟩
  have length := congrArg List.length e
  rw [List.length_map, List.length_map] at length
  exact length.symm

/-- The call that stands for a tool call. -/
def callOf (json : JsonValues J) (tc : ToolCall) : GeminiCall J where
  name := tc.name
  args := (json.loads tc.arguments).getD json.empty
  id := if "call_".toList.isPrefixOf tc.id.toList then none else some tc.id

/-- The parts of a call. -/
lemma callParts_eq {parts : List (Part J)} (ok : callParts json m tc = .ok parts) :
    parts.filterMap Part.functionCall = [callOf json tc] ∧ parts.filterMap Part.functionResponse = [] := by
  unfold callParts at ok
  dsimp only at ok
  split at ok
  next =>
    cases ok
    rw [List.filterMap_append, List.filterMap_append]
    cases tc.thought.filter Thought.truthy with
    | none => exact ⟨rfl, rfl⟩
    | some thought => exact ⟨rfl, rfl⟩
  next => cases ok

/-- The calls of all parts. -/
lemma calls_flatten {calls : List (List (Part J))} {tcs : List ToolCall}
    (ok : collect (tcs.map (callParts json m)) = .ok calls) :
    calls.flatten.filterMap Part.functionCall = tcs.map (callOf json) ∧
      calls.flatten.filterMap Part.functionResponse = [] := by
  have e := collect_eq_ok.mp ok
  clear ok
  induction tcs generalizing calls with
  | nil =>
    rw [List.map_eq_nil_iff.mp e.symm]
    exact ⟨rfl, rfl⟩
  | cons tc tcs ih =>
    cases calls with
    | nil => cases e
    | cons parts calls =>
      obtain ⟨head, tail⟩ := List.cons.inj e
      obtain ⟨called, responded⟩ := ih tail
      obtain ⟨call, none⟩ := callParts_eq head
      rw [List.flatten_cons, List.filterMap_append, List.filterMap_append, called, responded, call, none]
      exact ⟨rfl, rfl⟩

/-- The turn that a message is made into. -/
structure Made (json : JsonValues J) (m : ChatMessage) (t : Content J) : Prop where
  plain : Plain t
  nonempty : t.parts ≠ []
  role : t.role = if m.role = .assistant then .model else .user
  calls : t.calls = if m.role = .assistant then m.toolCalls.map (callOf json) else []
  responses : t.responses.map GeminiResponse.id = if m.role = .tool then [some m.toolCallId] else []

/-- When a turn has responses. -/
lemma hasFn_iff : t.hasFn = true ↔ t.responses ≠ [] := by
  unfold Content.hasFn Content.responses
  rw [List.any_eq_true, Ne, List.filterMap_eq_nil_iff]
  constructor
  · intro found none
    obtain ⟨p, mem, fn⟩ := found
    rw [none p mem] at fn
    cases fn
  · intro some
    by_contra none
    refine some fun p mem => ?_
    cases fn : p.functionResponse with
    | none => rfl
    | some _ => exact absurd ⟨p, mem, by rw [fn]; rfl⟩ none

/-- Every message but one without content is made into one turn. -/
lemma contentOf_made (ok : contentOf json block m = .ok c) :
    (∃ t, c = [t] ∧ Made json m t) ∨
      c = [] ∧ (m.role = .system ∨ m.role = .assistant ∧ m.toolCalls = []) := by
  unfold contentOf at ok
  cases role : m.role with
  | system =>
    rw [role] at ok
    cases ok
    exact .inr ⟨rfl, .inl rfl⟩
  | user =>
    rw [role] at ok
    dsimp only at ok
    split at ok
    next =>
      cases ok
      refine .inl ⟨_, rfl, ⟨fun _ => rfl, nofun⟩, List.cons_ne_nil _ _, ?_, ?_, ?_⟩
      · rw [role]; rfl
      · rw [role]; rfl
      · rw [role]; rfl
    next some =>
      cases parts : (blockParts block m : Except ConvertError (List (Part J))) with
      | error e =>
        rw [parts] at ok
        cases ok
      | ok ps =>
        rw [parts] at ok
        cases ok
        obtain ⟨calls, responses, length⟩ := blockParts_eq parts
        refine .inl ⟨_, rfl, ⟨fun _ => calls, nofun⟩, fun none => ?_, ?_, ?_, ?_⟩
        · have none : ps = [] := none
          rw [none, List.length_nil] at length
          exact some (List.isEmpty_iff.mpr (List.eq_nil_of_length_eq_zero length.symm))
        · rw [role]; rfl
        · rw [role]; exact calls
        · rw [role, Content.responses, responses]; rfl
  | tool =>
    rw [role] at ok
    dsimp only at ok
    cases parts : (blockParts block m : Except ConvertError (List (Part J))) with
    | error e =>
      rw [parts] at ok
      cases ok
    | ok ps =>
      rw [parts] at ok
      cases ok
      obtain ⟨calls, responses, _⟩ := blockParts_eq parts
      have noCalls : (responsePart json m :: ps).filterMap Part.functionCall = [] := calls
      refine .inl ⟨_, rfl, ⟨fun _ => noCalls, nofun⟩, List.cons_ne_nil _ _, ?_, ?_, ?_⟩
      · rw [role]; rfl
      · rw [role]; exact noCalls
      · have one : (responsePart json m :: ps).filterMap Part.functionResponse =
            [{ name := (nonempty m.name).getD "unknown", response := toolResult json m, id := some m.toolCallId }] :=
          congrArg (List.cons _) responses
        rw [role, Content.responses, one]
        rfl
  | assistant =>
    rw [role] at ok
    dsimp only at ok
    cases collected : collect (m.toolCalls.map (callParts json m)) with
    | error e =>
      rw [collected] at ok
      cases ok
    | ok calls =>
      rw [collected] at ok
      obtain ⟨called, responded⟩ := calls_flatten collected
      have texts : (textParts m : List (Part J)).filterMap Part.functionCall = [] ∧
          (textParts m : List (Part J)).filterMap Part.functionResponse = [] := by
        unfold textParts
        cases nonempty m.content with
        | none => exact ⟨rfl, rfl⟩
        | some text => exact ⟨rfl, rfl⟩
      have reasoning : (reasoningParts m : List (Part J)).filterMap Part.functionCall = [] ∧
          (reasoningParts m : List (Part J)).filterMap Part.functionResponse = [] := by
        unfold reasoningParts
        split
        next =>
          cases nonempty m.reasoningContent with
          | none => exact ⟨rfl, rfl⟩
          | some text => exact ⟨rfl, rfl⟩
        next => exact ⟨rfl, rfl⟩
      have allCalls : (textParts m ++ calls.flatten ++ reasoningParts m).filterMap Part.functionCall =
          m.toolCalls.map (callOf json) := by
        rw [List.filterMap_append, List.filterMap_append, texts.1, called, reasoning.1, List.nil_append, List.append_nil]
      have allResponses : (textParts m ++ calls.flatten ++ reasoningParts m).filterMap Part.functionResponse = [] := by
        rw [List.filterMap_append, List.filterMap_append, texts.2, responded, reasoning.2]
        rfl
      have ok := Except.ok.inj ok
      dsimp only at ok
      split at ok
      next none =>
        rw [List.isEmpty_iff.mp none] at allCalls
        exact .inr ⟨ok.symm, .inr ⟨rfl, List.map_eq_nil_iff.mp allCalls.symm⟩⟩
      next some =>
        refine .inl ⟨_, ok.symm, ⟨nofun, fun _ => ?_⟩, fun none => some (List.isEmpty_iff.mpr none), ?_, ?_, ?_⟩
        · rw [Bool.eq_false_iff, Ne, hasFn_iff]
          exact fun other => other allResponses
        · rw [role]; rfl
        · rw [role]; exact allCalls
        · rw [role, Content.responses, allResponses]; rfl

/-- The turns of the messages have parts, and only the model calls. -/
lemma contentsOf_made (ok : contentsOf json block ms = .ok cs) : ∀ t ∈ cs, ∃ m ∈ ms, Made json m t := by
  induction ms generalizing cs with
  | nil =>
    cases ok
    exact fun _ mem => absurd mem List.not_mem_nil
  | cons m ms ih =>
    obtain ⟨c, cs', made, later, rfl⟩ := contentsOf_cons.mp ok
    intro t mem
    cases List.mem_append.mp mem with
    | inl here =>
      obtain ⟨t', rfl, M⟩ | ⟨rfl, _⟩ := contentOf_made made
      · rw [List.mem_singleton.mp here]
        exact ⟨m, List.mem_cons_self, M⟩
      · cases here
    | inr mem =>
      obtain ⟨m, mem, M⟩ := ih later t mem
      exact ⟨m, List.mem_cons_of_mem _ mem, M⟩

/-- A message with calls is made into a turn. -/
lemma made_of_mem (ok : contentsOf json block ms = .ok cs) (mem : m ∈ ms) (calls : m.toolCalls ≠ [])
    (assistant : m.role = .assistant) : ∃ t ∈ cs, Made json m t := by
  induction ms generalizing cs with
  | nil => cases mem
  | cons k ms ih =>
    obtain ⟨c, cs', made, later, rfl⟩ := contentsOf_cons.mp ok
    cases List.mem_cons.mp mem with
    | inl e =>
      subst e
      obtain ⟨t, rfl, M⟩ | ⟨_, none⟩ := contentOf_made made
      · exact ⟨t, List.mem_append_left _ List.mem_cons_self, M⟩
      · cases none with
        | inl system =>
          rw [assistant] at system
          cases system
        | inr none => exact absurd none.2 calls
    | inr mem =>
      obtain ⟨t, mem, M⟩ := ih later mem
      exact ⟨t, List.mem_append_right _ mem, M⟩

/-- A part is not lost. -/
lemma Bridged.mem {ps qs : List (Part J)} {p : Part J} (B : Bridged bridgePart ps qs) (mem : p ∈ ps) : p ∈ qs := by
  induction B with
  | nil => exact mem
  | keep _ ih =>
    cases List.mem_cons.mp mem with
    | inl e => exact e ▸ List.mem_cons_self
    | inr mem => exact List.mem_cons_of_mem _ (ih mem)
  | bridge _ _ ih => exact List.mem_cons_of_mem _ (ih mem)

/-- A bridge is no response. -/
lemma Bridged.responses {ps qs : List (Part J)} (B : Bridged bridgePart ps qs) :
    qs.filterMap Part.functionResponse = ps.filterMap Part.functionResponse := by
  induction B with
  | nil => rfl
  | @keep p ps qs _ ih =>
    rw [List.filterMap_cons, List.filterMap_cons, ih]
  | bridge _ _ ih => exact ih

/-- A call that was answered has an id. -/
lemma Answered.some {turns : List (Content J)} (answered : Answered turns) {call : GeminiCall J} (mem : t ∈ turns)
    (called : call ∈ t.calls) : ∃ response ∈ (turns.flatMap Content.parts).filterMap Part.functionResponse,
      response.id = call.id := by
  induction turns with
  | nil => cases mem
  | cons c cs ih =>
    rw [List.flatMap_cons, List.filterMap_append]
    cases List.mem_cons.mp mem with
    | inl e =>
      subst e
      obtain ⟨d, head, response, responds, id⟩ := answered.1 call called
      refine ⟨response, List.mem_append_right _ ?_, id⟩
      rw [List.filterMap_flatMap]
      exact List.mem_flatMap.mpr ⟨d, List.mem_of_mem_head? head, responds⟩
    | inr mem =>
      obtain ⟨response, responds, id⟩ := ih answered.2 mem
      exact ⟨response, List.mem_append_right _ responds, id⟩

/-- Where each call is answered, no call has lost its id. -/
lemma Normalized.kept {contents turns : List (Content J)} (N : Normalized contents turns) (answered : Answered turns)
    (ok : contentsOf json block ms = .ok contents) : ∀ m ∈ ms, m.role = .assistant → ∀ tc ∈ m.toolCalls,
      "call_".toList.isPrefixOf tc.id.toList = false := by
  intro m mem assistant tc called
  by_contra lost
  rw [Bool.not_eq_false] at lost
  obtain ⟨t, made, M⟩ := made_of_mem ok mem (List.ne_nil_of_mem called) assistant
  have call : callOf json tc ∈ t.calls := by
    rw [M.calls, if_pos assistant]
    exact List.mem_map_of_mem called
  obtain ⟨p, part, isCall⟩ := List.mem_filterMap.mp call
  obtain ⟨turn, here, part'⟩ := List.mem_flatMap.mp (N.whole.mem (List.mem_flatMap.mpr ⟨t, made, part⟩))
  obtain ⟨response, responds, id⟩ := answered.some here (List.mem_filterMap.mpr ⟨p, part', isCall⟩)
  -- every response has an id
  rw [N.whole.responses, List.filterMap_flatMap] at responds
  obtain ⟨t', made', responds⟩ := List.mem_flatMap.mp responds
  obtain ⟨m', _, M'⟩ := contentsOf_made ok t' made'
  have ids : response.id ∈ t'.responses.map GeminiResponse.id := List.mem_map_of_mem responds
  rw [M'.responses, id, callOf, if_pos lost] at ids
  split at ids
  next => cases List.mem_singleton.mp ids
  next => cases ids

/-! ## What is told of the messages -/

end

/-! ## A call and its response -/

end OpenAgentd.Provider
