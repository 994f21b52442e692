import OpenAgentd.Lib.Ordered
import OpenAgentd.Web.Mentions
import OpenAgentd.Web.Messages
import Mathlib.Data.List.Find

/-!
# Pages of a transcript

The client loads the newest page of a session (`loadSession`) and then older ones (`loadOlderMessages`,
`web/src/stores/useAgentStore/session-slice.ts`). A staged undo boundary splits the newest page at the boundary row
(`applyRevertBoundary`, `helpers.ts`), and older pages at its time (`messagesBeforeTime`): `paging_iff` says when this
shows the same as one page with all rows.
-/

namespace OpenAgentd.Web
open OpenAgentd.Lib

/-- `revert` of a session. -/
structure RevertInfo where
  messageId : Option Nat
  createdAt : Option Nat := none

/-- The lead in a history response. -/
structure SessionDetail where
  messages : List MessageResponse
  revert : Option RevertInfo := none
  running : Bool := false

/-- An entry of `revertedMessages`. -/
structure RevertedMessage where
  content : String
  attachments : List String

/-- `AgentStream`, as far as its blocks go. -/
structure AgentStream where
  blocks : List ContentBlock := []
  currentBlocks : List ContentBlock := []
  currentText : String := ""
  currentThinking : String := ""
  status : String := "idle"
  revertedSuffix : List ContentBlock := []
  revertedCount : Nat := 0
  revertedMessages : List RevertedMessage := []
  orphanToolResults : Orphans := fun _ => none

/-! ## The boundary -/

/-- `revertBoundaryTime`. -/
def revertBoundaryTime (h : SessionDetail) : Option Nat :=
  h.revert.bind fun v => v.createdAt.or <| v.messageId.bind fun id =>
    (h.messages.find? fun m => m.id = id).bind MessageResponse.createdAt

/-- The row is kept by `messagesBeforeTime`. -/
def beforeTime (boundaryTime : Option Nat) (m : MessageResponse) : Bool :=
  boundaryTime.all fun t => m.createdAt.all fun createdAt => createdAt < t

/-- `messagesBeforeTime`. -/
def messagesBeforeTime (msgs : List MessageResponse) (boundaryTime : Option Nat) : List MessageResponse :=
  msgs.filter (beforeTime boundaryTime)

/-- The place of the last entry with a property. -/
def lastIdx? {α : Type*} (p : α → Bool) (l : List α) : Option Nat :=
  (l.reverse.findIdx? p).map fun i => l.length - 1 - i

/-- `isDirectUserBlock`. -/
def isDirectUserBlock (b : ContentBlock) : Bool :=
  b.type = .user && (truthy (b.extra.bind fun e => e.message.fromAgent)).all fun agent => agent = "user"

/-- The message of a reverted block. -/
def revertedMessage (b : ContentBlock) : RevertedMessage where
  content := if b.type = .compaction then "Session compacted" else b.content
  attachments := if b.type = .user then b.attachments else []

/-- `splitIdx` of `applyRevertBoundary`. -/
def splitIdx (all : List ContentBlock) (boundaryTime boundaryId : Option Nat) (boundaryContent : Option String) : Nat :=
  let byTime := match boundaryTime with
    | none => all.length
    | some t => (all.findIdx? fun b => t ≤ b.timestamp.getD 0).getD all.length
  let byContent := fun content =>
    match lastIdx? (fun b => b.type = .user && b.content = content) all with
    | none => byTime
    | some i => min byTime i
  match boundaryId with
  | some id =>
    match all.findIdx? fun b => b.id = .message id with
    | some i => i
    | none =>
      match truthy boundaryContent with
      | some content => byContent content
      | none => if boundaryTime = none then 0 else byTime
  | none =>
    match truthy boundaryContent with
    | some content => byContent content
    | none => byTime

/-- `applyRevertBoundary`. -/
def applyRevertBoundary (stream : AgentStream) (includeCurrent : Bool) (boundaryTime boundaryId : Option Nat)
    (boundaryContent : Option String) : AgentStream :=
  let current := if includeCurrent then stream.currentBlocks else []
  let all := stream.blocks ++ current ++ stream.revertedSuffix
  let stream := if includeCurrent then
      { stream with currentBlocks := [], currentText := "", currentThinking := "", status := "idle" }
    else stream
  if boundaryTime = none ∧ boundaryId = none ∧ truthy boundaryContent = none then
    { stream with blocks := all, revertedSuffix := [], revertedCount := 0, revertedMessages := [] }
  else
    let i := splitIdx all boundaryTime boundaryId boundaryContent
    let reverted := all.drop i
    let userBlocks := reverted.filter fun b => isDirectUserBlock b || b.type = .compaction
    { stream with
      blocks := all.take i
      revertedSuffix := reverted
      revertedCount := userBlocks.length
      revertedMessages := (userBlocks.map revertedMessage).filter fun m =>
        (m.content.toList.any fun c => !isSpace c) || m.attachments ≠ [] }

/-! ## Loading -/

/-- The store of the client, as far as the lead goes. -/
structure Client where
  lead : AgentStream
  leadRevertTime : Option Nat

/-- `leadLocalErrors`. -/
def localErrors (stream : AgentStream) : List ContentBlock :=
  (stream.blocks ++ stream.currentBlocks).filter fun b => b.type = .providerStatus && b.extra.any fun e =>
    e.status = some "error" || e.status = some "exhausted" || e.category = some "provider"

section
variable (pretty : String → Option String) (now : Nat)

/-- `loadSession` for a lead without newer activity, whose stream was `before`. -/
def loadSession (awaitingAnswer : Bool) (before : AgentStream) (h : SessionDetail) : Client :=
  let boundaryId := h.revert.bind RevertInfo.messageId
  let boundaryMsg := boundaryId.bind fun id => h.messages.find? fun m => m.id = id
  let parse := parseAgentBlocks pretty now h.messages fun _ => none
  let toKeep := (localErrors before).filter fun b => b.id ∉ parse.blocks.map ContentBlock.id
  let stream : AgentStream := { blocks := parse.blocks ++ toKeep, orphanToolResults := parse.orphans }
  let stream := applyRevertBoundary stream false (revertBoundaryTime h) boundaryId
    (boundaryMsg.bind MessageResponse.content)
  { lead := { stream with status := if awaitingAnswer then "waiting_input" else if h.running then "working" else "idle" }
    leadRevertTime := revertBoundaryTime h }

/-- `loadOlderMessages` with the page of the response. -/
def loadOlderMessages (c : Client) (page : List MessageResponse) : Client :=
  let filtered := messagesBeforeTime page c.leadRevertTime
  let parse := parseAgentBlocks pretty now filtered c.lead.orphanToolResults
  let older := applyOrphanToolResults parse.blocks parse.orphans
  { c with lead := { c.lead with blocks := older.1 ++ c.lead.blocks, orphanToolResults := older.2 } }

/-- A session loaded page by page until there are no more. -/
def loadPages (awaitingAnswer : Bool) (before : AgentStream) (newest : SessionDetail)
    (older : List (List MessageResponse)) : Client :=
  older.foldl (loadOlderMessages pretty now) (loadSession pretty now awaitingAnswer before newest)

end

/-- The two streams show the same. -/
def SameLead (a b : AgentStream) : Prop := a.blocks = b.blocks ∧ a.revertedSuffix = b.revertedSuffix

/-- The row shows in the transcript: it has a block, or the result of a card. -/
def Shows (pretty : String → Option String) (now : Nat) (rows : List MessageResponse) (m : MessageResponse) : Prop :=
  rowBlocks pretty now m ≠ [] ∨ ∃ id ∈ rows.flatMap callIds, resultId m = some id

/-- The row an undo boundary can be staged at. -/
def CanStage (m : MessageResponse) : Prop := m.queued = false ∧ (m.isSummary = true ∨ m.role = .user)

/-! ## The split -/

section
variable {pretty : String → Option String} {now : Nat} {waiting running : Bool} {before : AgentStream}
  {rows newest front back kept : List MessageResponse} {older : List (List MessageResponse)} {m b : MessageResponse}
  {revert : Option RevertInfo} {v : RevertInfo} {h : SessionDetail} {c : Client} {p : MessageResponse → Bool}

variable (pretty now) in
/-- The block of a row a boundary can be staged at. -/
lemma rowBlocks_of_canStage (can : CanStage b) : ∃ block, rowBlocks pretty now b = [block] ∧ block.id = .message b.id := by
  obtain ⟨queued, kind⟩ := can
  unfold rowBlocks
  rw [queued]
  cases summary : b.isSummary with
  | true => exact ⟨_, rfl, rfl⟩
  | false =>
    have user : b.role = .user := kind.resolve_left (by simp [summary])
    rw [user]
    exact ⟨_, rfl, rfl⟩

/-- The ids of the blocks of a row. -/
lemma id_of_mem_rowBlocks {block : ContentBlock} (hb : block ∈ rowBlocks pretty now m) :
    (∀ n, block.id ≠ .made n) ∧ ∀ id, block.id = .message id → id = m.id := by
  unfold rowBlocks at hb
  split at hb
  · cases hb
  · split at hb
    · rw [List.mem_singleton.mp hb]
      exact ⟨by simp [compactionBlock], fun id e => (BlockId.message.inj e).symm⟩
    · split at hb
      · rw [List.mem_singleton.mp hb]
        exact ⟨by simp [userBlock], fun id e => (BlockId.message.inj e).symm⟩
      · unfold assistantBlocks at hb
        rcases List.mem_append.mp hb with hb | hb
        · rcases List.mem_append.mp hb with hb | hb
          · split at hb
            · cases hb
            · rw [List.mem_singleton.mp hb]
              simp
          · split at hb
            · cases hb
            · rw [List.mem_singleton.mp hb]
              simp
        · obtain ⟨tool, -, rfl⟩ := List.mem_map.mp hb
          unfold toolBlock
          dsimp only
          split
          · simp
          · simp
      · cases hb
      · cases hb

/-- The ids of the blocks of a page. -/
lemma id_of_mem_page {f : Orphans} {block : ContentBlock}
    (hb : block ∈ (rows.flatMap (rowBlocks pretty now)).map (ContentBlock.finish f)) :
    (∀ n, block.id ≠ .made n) ∧ ∀ id, block.id = .message id → ∃ m ∈ rows, m.id = id := by
  obtain ⟨raw, hraw, rfl⟩ := List.mem_map.mp hb
  obtain ⟨m, hm, hraw⟩ := List.mem_flatMap.mp hraw
  obtain ⟨made, message⟩ := id_of_mem_rowBlocks hraw
  rw [id_finish]
  exact ⟨made, fun id e => ⟨m, hm, (message id e).symm⟩⟩

/-- Splitting at a block. -/
lemma splitIdx_eq {before : List ContentBlock} (after : List ContentBlock) {block : ContentBlock} {id : Nat} (is : block.id = .message id)
    (first : ∀ k ∈ before, k.id ≠ .message id) (time : Option Nat) (content : Option String) :
    splitIdx (before ++ block :: after) time (some id) content = before.length := by
  have found : (before ++ block :: after).findIdx? (fun k => k.id = .message id) = some before.length := by
    rw [List.findIdx?_append, List.findIdx?_eq_none_iff.mpr fun k hk => by simpa using first k hk]
    simp [List.findIdx?_cons, is]
  simp only [splitIdx, found]

/-- A boundary among the blocks splits them there. -/
lemma applyRevertBoundary_split {stream : AgentStream} {visible reverted : List ContentBlock} {block : ContentBlock}
    {id : Nat} (blocks : stream.blocks = visible ++ block :: reverted) (suffix : stream.revertedSuffix = [])
    (is : block.id = .message id) (first : ∀ k ∈ visible, k.id ≠ .message id) (time : Option Nat)
    (content : Option String) :
    (applyRevertBoundary stream false time (some id) content).blocks = visible ∧
      (applyRevertBoundary stream false time (some id) content).revertedSuffix = block :: reverted := by
  have all : stream.blocks ++ [] ++ stream.revertedSuffix = visible ++ block :: reverted := by
    rw [suffix, List.append_nil, List.append_nil, blocks]
  have split := splitIdx_eq reverted is first time content
  unfold applyRevertBoundary
  simp only [Bool.false_eq_true, if_false, reduceCtorEq, false_and, and_false, all, split]
  exact ⟨List.take_left, List.drop_left⟩

/-! ## The newest page -/

/-- The local errors stay behind the blocks of the page. -/
def pageBlocks (pretty : String → Option String) (now : Nat) (before : AgentStream) (rows : List MessageResponse) :
    List ContentBlock :=
  (rows.flatMap (rowBlocks pretty now)).map (ContentBlock.finish (resultsOf rows)) ++ localErrors before

variable (pretty now waiting) in
/-- A loaded page. -/
lemma loadSession_eq (T : Transcript h.messages) (made : ∀ k ∈ localErrors before, ∃ n, k.id = .made n) :
    ∃ stream : AgentStream, stream.blocks = pageBlocks pretty now before h.messages ∧ stream.revertedSuffix = [] ∧
      (∀ id ∉ h.messages.flatMap callIds, stream.orphanToolResults id = resultsOf h.messages id) ∧
      ∃ status, (loadSession pretty now waiting before h).lead = { applyRevertBoundary stream false
        (revertBoundaryTime h) (h.revert.bind RevertInfo.messageId)
        (((h.revert.bind RevertInfo.messageId).bind fun id => h.messages.find? fun m => m.id = id).bind
          MessageResponse.content) with status } := by
  have P := parse_spec pretty now T fun _ => none
  have keeps : (localErrors before).filter (fun k => k.id ∉
      (parseAgentBlocks pretty now h.messages fun _ => none).blocks.map ContentBlock.id) = localErrors before := by
    rw [List.filter_eq_self]
    intro k hk
    obtain ⟨n, e⟩ := made k hk
    rw [decide_eq_true_eq]
    intro mem
    obtain ⟨block, hb, same⟩ := List.mem_map.mp mem
    rw [P.blocks] at hb
    exact (id_of_mem_page hb).1 n (same.trans e)
  refine ⟨_, ?_, rfl, fun id out => ?_, _, rfl⟩
  · dsimp only
    rw [keeps, P.blocks]
    rfl
  · dsimp only
    rw [P.uncalled id out, Option.or_none]

variable (pretty now waiting running) in
/-- Without a boundary everything shows. -/
lemma loadSession_none (T : Transcript rows) (made : ∀ k ∈ localErrors before, ∃ n, k.id = .made n) :
    (loadSession pretty now waiting before ⟨rows, none, running⟩).lead.blocks = pageBlocks pretty now before rows ∧
    (loadSession pretty now waiting before ⟨rows, none, running⟩).lead.revertedSuffix = [] := by
  obtain ⟨stream, blocks, suffix, -, status, e⟩ :=
    loadSession_eq pretty now waiting (h := ⟨rows, none, running⟩) T made
  rw [e]
  simp [applyRevertBoundary, revertBoundaryTime, blocks, suffix, truthy]

variable (pretty now waiting running) in
/-- A boundary on the page splits it there. -/
lemma loadSession_split (T : Transcript (front ++ b :: back)) (made : ∀ k ∈ localErrors before, ∃ n, k.id = .made n)
    (can : CanStage b) (staged : v.messageId = some b.id) :
    (loadSession pretty now waiting before ⟨front ++ b :: back, some v, running⟩).lead.blocks =
      (front.flatMap (rowBlocks pretty now)).map (ContentBlock.finish (resultsOf (front ++ b :: back))) ∧
    (loadSession pretty now waiting before ⟨front ++ b :: back, some v, running⟩).lead.revertedSuffix =
      ((b :: back).flatMap (rowBlocks pretty now)).map (ContentBlock.finish (resultsOf (front ++ b :: back))) ++
        localErrors before := by
  obtain ⟨stream, blocks, suffix, -, status, e⟩ := loadSession_eq pretty now waiting
    (h := ⟨front ++ b :: back, some v, running⟩) T made
  obtain ⟨block, own, is⟩ := rowBlocks_of_canStage pretty now can
  have nodup := T.ids
  rw [List.map_append, List.nodup_append] at nodup
  have first : ∀ k ∈ (front.flatMap (rowBlocks pretty now)).map (ContentBlock.finish (resultsOf (front ++ b :: back))),
      k.id ≠ .message b.id := by
    intro k hk same
    obtain ⟨m, hm, id⟩ := (id_of_mem_page hk).2 b.id same
    exact nodup.2.2 m.id (List.mem_map_of_mem hm) b.id (by simp) id
  have all : stream.blocks =
      (front.flatMap (rowBlocks pretty now)).map (ContentBlock.finish (resultsOf (front ++ b :: back))) ++
        block.finish (resultsOf (front ++ b :: back)) ::
          ((back.flatMap (rowBlocks pretty now)).map (ContentBlock.finish (resultsOf (front ++ b :: back))) ++
            localErrors before) := by
    rw [blocks, pageBlocks, List.flatMap_append, List.flatMap_cons, own]
    simp
  obtain ⟨visible, reverted⟩ := applyRevertBoundary_split all suffix (id_finish.trans is) first
    (revertBoundaryTime ⟨front ++ b :: back, some v, running⟩)
    (((some b.id).bind fun id => (front ++ b :: back).find? fun m => m.id = id).bind MessageResponse.content)
  rw [e]
  simp only [Option.bind_some, staged] at visible reverted ⊢
  refine ⟨visible, reverted.trans ?_⟩
  rw [List.flatMap_cons, own]
  simp

/-- The reverted blocks are blocks of the page. -/
lemma mem_revertedSuffix {stream : AgentStream} {time id : Option Nat} {content : Option String} {k : ContentBlock}
    (none : stream.revertedSuffix = []) (hk : k ∈ (applyRevertBoundary stream false time id content).revertedSuffix) :
    k ∈ stream.blocks := by
  unfold applyRevertBoundary at hk
  dsimp only at hk
  split at hk
  · cases hk
  · have mem := List.mem_of_mem_drop hk
    simpa [none] using mem

/-! ## Older pages -/

/-- What is loaded when the rows `kept` of older pages have been added to a page `newest` that gave `first`. -/
structure Loaded (pretty : String → Option String) (now : Nat) (first : Client) (kept newest : List MessageResponse)
    (c : Client) : Prop where
  blocks : c.lead.blocks =
    (kept.flatMap (rowBlocks pretty now)).map (ContentBlock.finish (resultsOf (kept ++ newest))) ++ first.lead.blocks
  suffix : c.lead.revertedSuffix = first.lead.revertedSuffix
  time : c.leadRevertTime = first.leadRevertTime
  orphans : ∀ id ∉ (kept ++ newest).flatMap callIds, c.lead.orphanToolResults id = resultsOf (kept ++ newest) id

/-- A card is not done. -/
lemma toolDone_rowBlocks {block : ContentBlock} (hb : block ∈ rowBlocks pretty now m) : block.toolDone = false := by
  unfold rowBlocks at hb
  split at hb
  · cases hb
  · split at hb
    · rw [List.mem_singleton.mp hb]
      rfl
    · split at hb
      · rw [List.mem_singleton.mp hb]
        rfl
      · unfold assistantBlocks at hb
        rcases List.mem_append.mp hb with hb | hb
        · rcases List.mem_append.mp hb with hb | hb
          · split at hb
            · cases hb
            · rw [List.mem_singleton.mp hb]
          · split at hb
            · cases hb
            · rw [List.mem_singleton.mp hb]
        · obtain ⟨tool, -, rfl⟩ := List.mem_map.mp hb
          rfl
      · cases hb
      · cases hb

/-- One more page. -/
lemma Loaded.page {first : Client} {page : List MessageResponse} (L : Loaded pretty now first kept newest c)
    (T : Transcript (page.filter (beforeTime first.leadRevertTime) ++ (kept ++ newest))) :
    Loaded pretty now first (page.filter (beforeTime first.leadRevertTime) ++ kept) newest
      (loadOlderMessages pretty now c page) := by
  have filtered : messagesBeforeTime page c.leadRevertTime = page.filter (beforeTime first.leadRevertTime) := by
    rw [L.time, messagesBeforeTime]
  generalize page.filter (beforeTime first.leadRevertTime) = q at T filtered ⊢
  have P := parse_spec pretty now (T.sublist (List.sublist_append_left _ _)) c.lead.orphanToolResults
  have toolIds : (parseAgentBlocks pretty now q c.lead.orphanToolResults).blocks.filterMap ContentBlock.toolId =
      q.flatMap callIds := by
    rw [P.blocks, List.filterMap_map, ← toolIds_flatMap pretty now]
    congr 1
    exact funext fun b => toolId_finish
  have once := (T.sublist (List.sublist_append_left _ _)).calls
  rw [← toolIds] at once
  obtain ⟨blocks, orphans⟩ :=
    applyOrphanToolResults_eq (parseAgentBlocks pretty now q c.lead.orphanToolResults).orphans once
  have old : ∀ id ∈ kept.flatMap callIds, resultsOf (kept ++ newest) id = resultsOf (q ++ (kept ++ newest)) id := by
    intro id called
    have called : id ∈ (kept ++ newest).flatMap callIds := by
      rw [List.flatMap_append]
      exact List.mem_append_left _ called
    rw [resultsOf_append q, T.no_result called, Option.none_or]
  refine ⟨?_, L.suffix, L.time, fun id out => ?_⟩
  · unfold loadOlderMessages
    dsimp only
    rw [filtered, blocks, P.blocks, L.blocks, List.map_map, List.append_assoc, List.flatMap_append, List.map_append,
      List.append_assoc, finish_congr old]
    congr 1
    apply List.map_congr_left
    intro b hb
    obtain ⟨m, hm, raw⟩ := List.mem_flatMap.mp hb
    have undone := toolDone_rowBlocks raw
    rw [Function.comp_apply]
    cases call : b.toolId with
    | none => simp [ContentBlock.finish, call, undone]
    | some id =>
      have called : id ∈ q.flatMap callIds := mem_callIds hm raw call
      have out : id ∉ (kept ++ newest).flatMap callIds := fun later => T.no_call later called
      have result := resultsOf_append q (kept ++ newest) id
      cases found : resultsOf q id with
      | some r =>
        rw [found, Option.some_or] at result
        simp [ContentBlock.finish, call, found, result, ContentBlock.complete]
      | none =>
        rw [found, Option.none_or] at result
        simp [ContentBlock.finish, call, found, result, undone, P.called id called, L.orphans id out]
  · unfold loadOlderMessages
    dsimp only
    rw [List.append_assoc] at out ⊢
    rw [filtered, resultsOf_append q, orphans id, P.uncalled id, L.orphans id]
    · exact fun called => out (by rw [List.flatMap_append]; exact List.mem_append_right _ called)
    · exact fun called => out (by rw [List.flatMap_append]; exact List.mem_append_left _ called)
    · rw [toolIds]
      exact fun called => out (by rw [List.flatMap_append]; exact List.mem_append_left _ called)

/-- All older pages. -/
lemma Loaded.pages {first : Client} (L : Loaded pretty now first kept newest c)
    (T : Transcript (older.reverse.flatten ++ (kept ++ newest))) :
    Loaded pretty now first (older.reverse.flatten.filter (beforeTime first.leadRevertTime) ++ kept) newest
      (older.foldl (loadOlderMessages pretty now) c) := by
  induction older generalizing c kept with
  | nil => exact L
  | cons page older ih =>
    rw [List.reverse_cons, List.flatten_append, List.flatten_singleton, List.append_assoc] at T
    have sub := List.filter_sublist (l := page) (p := beforeTime first.leadRevertTime)
    have next := ih (L.page (T.sublist ((sub.append_right _).trans (List.sublist_append_right _ _)))) (by
      rw [List.append_assoc]
      exact T.sublist ((sub.append_right _).append_left _))
    rw [List.reverse_cons, List.flatten_append, List.flatten_singleton, List.filter_append, List.append_assoc]
    exact next

/-- The boundary keeps the orphans. -/
lemma orphans_applyRevertBoundary {stream : AgentStream} {time id : Option Nat} {content : Option String} :
    (applyRevertBoundary stream false time id content).orphanToolResults = stream.orphanToolResults := by
  unfold applyRevertBoundary
  dsimp only
  split
  · rfl
  · rfl

variable (pretty now waiting older) in
/-- What is loaded with all pages. -/
lemma loadPages_spec (T : Transcript (older.reverse.flatten ++ h.messages))
    (made : ∀ k ∈ localErrors before, ∃ n, k.id = .made n) :
    Loaded pretty now (loadSession pretty now waiting before h)
      (older.reverse.flatten.filter (beforeTime (revertBoundaryTime h))) h.messages
      (loadPages pretty now waiting before h older) := by
  have start : Loaded pretty now (loadSession pretty now waiting before h) [] h.messages
      (loadSession pretty now waiting before h) := by
    refine ⟨rfl, rfl, rfl, fun id out => ?_⟩
    obtain ⟨stream, -, -, orphans, status, e⟩ := loadSession_eq pretty now waiting
      (T.sublist (List.sublist_append_right _ _)) made
    rw [e]
    exact (congrFun orphans_applyRevertBoundary id).trans (orphans id out)
  have all := start.pages T
  rw [List.append_nil] at all
  exact all

/-! ## The rows that older pages leave out -/

/-- Dropping what adds nothing. -/
lemma flatMap_filter_eq {f : MessageResponse → List ContentBlock} (out : ∀ m ∈ rows, p m = false → f m = []) :
    (rows.filter p).flatMap f = rows.flatMap f := by
  induction rows with
  | nil => rfl
  | cons m rows ih =>
    have rest := ih fun k hk => out k (List.mem_cons_of_mem _ hk)
    cases pm : p m with
    | true => rw [List.filter_cons_of_pos pm, List.flatMap_cons, List.flatMap_cons, rest]
    | false => rw [List.filter_cons_of_neg (by simp [pm]), List.flatMap_cons, out m List.mem_cons_self pm, rest,
        List.nil_append]

/-- As many blocks are the same blocks. -/
lemma flatMap_filter_length {f : MessageResponse → List ContentBlock}
    (same : ((rows.filter p).flatMap f).length = (rows.flatMap f).length) : ∀ m ∈ rows, p m = false → f m = [] := by
  induction rows with
  | nil => exact fun m hm => absurd hm List.not_mem_nil
  | cons m rows ih =>
    have less : ((rows.filter p).flatMap f).length ≤ (rows.flatMap f).length :=
      (List.filter_sublist.flatMap f).length_le
    rw [List.flatMap_cons, List.length_append] at same
    cases pm : p m with
    | true =>
      rw [List.filter_cons_of_pos pm, List.flatMap_cons, List.length_append] at same
      intro k hk out
      cases List.mem_cons.mp hk with
      | inl e => rw [e, pm] at out; cases out
      | inr later => exact ih (Nat.add_left_cancel same) k later out
    | false =>
      rw [List.filter_cons_of_neg (by simp [pm])] at same
      intro k hk out
      cases List.mem_cons.mp hk with
      | inl e => exact List.eq_nil_of_length_eq_zero (by rw [e]; omega)
      | inr later => exact ih (by omega) k later out

variable (pretty now) in
/-- The rows of older pages that are left out are missed when they show. -/
lemma older_iff {old new : List MessageResponse} (T : Transcript (old ++ new)) :
    ((old.filter p).flatMap (rowBlocks pretty now)).map (ContentBlock.finish (resultsOf (old.filter p ++ new))) =
      (old.flatMap (rowBlocks pretty now)).map (ContentBlock.finish (resultsOf (old ++ new))) ↔
    ∀ m ∈ old, Shows pretty now (old ++ new) m → p m = true := by
  have called : ∀ id ∈ old.flatMap callIds, id ∈ (old ++ new).flatMap callIds := by
    intro id call
    rw [List.flatMap_append]
    exact List.mem_append_left _ call
  constructor
  · intro same
    have len := congrArg List.length same
    rw [List.length_map, List.length_map] at len
    have nothing := flatMap_filter_length len
    rw [flatMap_filter_eq nothing, List.map_inj_left] at same
    intro m hm shows
    cases out : p m with
    | true => rfl
    | false =>
      exfalso
      cases shows with
      | inl blocks => exact blocks (nothing m hm out)
      | inr result =>
        obtain ⟨id, call, is⟩ := result
        have known : resultsOf old id ≠ none := by
          rw [resultsOf, ne_eq, Option.map_eq_none_iff, List.find?_eq_none]
          exact fun none => none m hm (by simpa using is)
        rw [List.flatMap_append] at call
        cases List.mem_append.mp call with
        | inr later => exact known (T.no_result later)
        | inl call =>
          rw [← toolIds_flatMap pretty now] at call
          obtain ⟨block, hb, call⟩ := List.mem_filterMap.mp call
          have once : ∀ k ∈ old ++ new, resultId k = some id → k = m := fun k hk same =>
            eq_of_filterMap_nodup T.results hk (List.mem_append_left _ hm) same is
          have without : resultsOf (old.filter p ++ new) id = none := by
            rw [resultsOf, Option.map_eq_none_iff, List.find?_eq_none]
            intro k hk same
            have same : resultId k = some id := by simpa using same
            cases List.mem_append.mp hk with
            | inl kept =>
              obtain ⟨old, kept⟩ := List.mem_filter.mp kept
              rw [once k (List.mem_append_left _ old) same, out] at kept
              cases kept
            | inr new =>
              rw [once k (List.mem_append_right _ new) same] at new
              have nodup := T.ids
              rw [List.map_append, List.nodup_append] at nodup
              exact nodup.2.2 m.id (List.mem_map_of_mem hm) m.id (List.mem_map_of_mem new) rfl
          have card := same block hb
          obtain ⟨k, -, raw⟩ := List.mem_flatMap.mp hb
          have undone := toolDone_rowBlocks raw
          have done := congrArg ContentBlock.toolDone card
          cases found : resultsOf old id with
          | none => exact known found
          | some r =>
            have whole : resultsOf (old ++ new) id = some r := by rw [resultsOf_append, found, Option.some_or]
            simp [ContentBlock.finish, call, without, whole, undone, ContentBlock.complete] at done
  · intro keeps
    have nothing : ∀ m ∈ old, p m = false → rowBlocks pretty now m = [] := by
      intro m hm out
      by_contra blocks
      have := keeps m hm (.inl blocks)
      rw [out] at this
      cases this
    rw [flatMap_filter_eq nothing]
    apply finish_congr
    intro id call
    rw [resultsOf_append, resultsOf_append]
    congr 1
    rw [resultsOf, resultsOf, List.find?_filter]
    congr 1
    apply List.find?_congr
    intro k hk
    by_cases is : resultId k = some id
    · have kept := keeps k hk (.inr ⟨id, called id call, is⟩)
      simp [is, kept]
    · simp [is]

/-! ## Paging -/

/-- The cards of the newest page need no older one. -/
lemma newest_cards {old new : List MessageResponse} (T : Transcript (old ++ new)) (sub : part ⊆ new) :
    (part.flatMap (rowBlocks pretty now)).map (ContentBlock.finish (resultsOf (old ++ new))) =
      (part.flatMap (rowBlocks pretty now)).map (ContentBlock.finish (resultsOf new)) := by
  apply finish_congr
  intro id call
  obtain ⟨m, hm, call⟩ := List.mem_flatMap.mp call
  rw [resultsOf_append, T.no_result (List.mem_flatMap.mpr ⟨m, sub hm, call⟩), Option.none_or]

/-- A boundary on the newest page. -/
lemma paging_staged {old : List MessageResponse} (e : old = older.reverse.flatten)
    (T : Transcript (old ++ (front ++ b :: back))) (made : ∀ k ∈ localErrors before, ∃ n, k.id = .made n)
    (can : CanStage b) (staged : v.messageId = some b.id) :
    SameLead (loadPages pretty now waiting before ⟨front ++ b :: back, some v, running⟩ older).lead
      (loadSession pretty now waiting before ⟨old ++ (front ++ b :: back), some v, running⟩).lead ↔
    ∀ m ∈ old, Shows pretty now (old ++ (front ++ b :: back)) m →
      beforeTime (revertBoundaryTime ⟨front ++ b :: back, some v, running⟩) m = true := by
  have L := loadPages_spec pretty now waiting older
    (h := ⟨front ++ b :: back, some v, running⟩) (e ▸ T) made
  obtain ⟨visible, reverted⟩ := loadSession_split pretty now waiting running
    (T.sublist (List.sublist_append_right _ _)) made can staged
  have T' : Transcript ((old ++ front) ++ b :: back) := by
    rw [List.append_assoc]
    exact T
  obtain ⟨visible', reverted'⟩ := loadSession_split pretty now waiting running
    T' made can staged
  rw [List.append_assoc] at visible' reverted'
  rw [← older_iff pretty now T, SameLead, L.blocks, L.suffix, visible, reverted, visible', reverted',
    List.flatMap_append, List.map_append, newest_cards T (List.subset_append_left _ _),
    newest_cards T (List.subset_append_right _ _), List.append_left_inj, ← e]
  exact and_iff_left rfl

/-- Paging is invisible as long as the staged boundary is on the newest page and everything that shows on older ones is
older than it. -/
theorem paging_iff (T : Transcript (older.reverse.flatten ++ newest))
    (made : ∀ k ∈ localErrors before, ∃ n, k.id = .made n)
    (staged : ∀ v, revert = some v → ∃ b ∈ older.reverse.flatten ++ newest, CanStage b ∧ v.messageId = some b.id) :
    SameLead (loadPages pretty now waiting before ⟨newest, revert, running⟩ older).lead
      (loadSession pretty now waiting before ⟨older.reverse.flatten ++ newest, revert, running⟩).lead ↔
    ∀ v, revert = some v → (∃ b ∈ newest, v.messageId = some b.id) ∧
      ∀ m ∈ older.reverse.flatten, Shows pretty now (older.reverse.flatten ++ newest) m →
        beforeTime (revertBoundaryTime ⟨newest, revert, running⟩) m = true := by
  have L := loadPages_spec pretty now waiting older
    (h := ⟨newest, revert, running⟩) T made
  cases revert with
  | none =>
    refine iff_of_true ?_ fun v h => ?_
    · obtain ⟨visible, reverted⟩ := loadSession_none pretty now waiting running
        (T.sublist (List.sublist_append_right _ _)) made
      obtain ⟨visible', reverted'⟩ := loadSession_none pretty now waiting running
        T made
      have all : older.reverse.flatten.filter (beforeTime (revertBoundaryTime ⟨newest, none, running⟩)) =
          older.reverse.flatten := List.filter_eq_self.mpr fun m _ => rfl
      refine ⟨?_, by rw [L.suffix, reverted, reverted']⟩
      rw [L.blocks, visible, visible', all, pageBlocks, pageBlocks, List.flatMap_append, List.map_append,
        newest_cards T (List.Subset.refl _), List.append_assoc]
    · cases h
  | some v =>
    obtain ⟨b, hb, can, id⟩ := staged v rfl
    simp only [Option.some.injEq, forall_eq']
    cases List.mem_append.mp hb with
    | inr new =>
      obtain ⟨front, back, rfl⟩ := List.append_of_mem new
      rw [paging_staged rfl T made can id]
      exact (and_iff_right ⟨b, new, id⟩).symm
    | inl old =>
      -- the block of the boundary row is not among those of the newest page
      have nodup := T.ids
      rw [List.map_append, List.nodup_append] at nodup
      have other : ∀ k ∈ newest, k.id ≠ b.id := fun k hk same =>
        nodup.2.2 b.id (List.mem_map_of_mem old) k.id (List.mem_map_of_mem hk) same.symm
      refine iff_of_false (fun same => ?_) fun on => ?_
      · obtain ⟨front, back, e⟩ := List.append_of_mem old
        have T' : Transcript (front ++ b :: (back ++ newest)) := by simpa [e] using T
        obtain ⟨-, reverted⟩ := loadSession_split pretty now waiting running
          T' made can id
        obtain ⟨block, own, is⟩ := rowBlocks_of_canStage pretty now can
        obtain ⟨stream, blocks, none, -, status, first⟩ := loadSession_eq pretty now waiting (h := ⟨newest, some v, running⟩) (T.sublist (List.sublist_append_right _ _)) made
        have mem : block.finish (resultsOf (front ++ b :: (back ++ newest))) ∈
            (loadPages pretty now waiting before ⟨newest, some v, running⟩ older).lead.revertedSuffix := by
          rw [same.2, e, List.append_assoc, List.cons_append, reverted, List.flatMap_cons, own]
          simp
        rw [L.suffix, first] at mem
        have mem := mem_revertedSuffix none mem
        rw [blocks] at mem
        cases List.mem_append.mp mem with
        | inl mem =>
          obtain ⟨k, hk, same⟩ := (id_of_mem_page mem).2 b.id (id_finish.trans is)
          exact other k hk same
        | inr error =>
          obtain ⟨n, e⟩ := made _ error
          rw [id_finish, is] at e
          cases e
      · obtain ⟨k, hk, same⟩ := on.1
        exact other k hk (Option.some.inj (same.symm.trans id))

end

/-! ## An anchored summary in front of the boundary -/

/-- A message of the user. -/
def asked (id seq createdAt : Nat) : MessageResponse :=
  { id, role := .user, content := some "go on", seq, createdAt := some createdAt }

/-- A summary in front of the second message, written after it. -/
def anchoredSummary : MessageResponse :=
  { id := 4, role := .user, content := some "so far", seq := 2048, kind := .summary, isSummary := true
    createdAt := some 40 }

/-- User messages are a transcript. -/
lemma transcript_of_users {rows : List MessageResponse} (user : ∀ m ∈ rows, m.role = .user)
    (placed : ∀ m ∈ rows, 0 < m.seq)
    (ordered : rows.Pairwise fun a b => a.seq < b.seq ∨ a.seq = b.seq ∧ a.id < b.id)
    (ids : (rows.map MessageResponse.id).Nodup) : Transcript rows where
  placed := placed
  ordered := ordered
  ids := ids
  calls := by
    have none : rows.flatMap callIds = [] := List.flatMap_eq_nil_iff.mpr fun m hm => by simp [callIds, user m hm]
    rw [none]
    exact List.nodup_nil
  results := by
    have none : rows.filterMap resultId = [] := by
      rw [List.filterMap_eq_nil_iff]
      exact fun m hm => by simp [resultId, user m hm]
    rw [none]
    exact List.nodup_nil
  answered := List.Pairwise.imp_of_mem (fun ha hb _ id is => by simp [resultId, user _ ha] at is) ordered

/-- No errors. -/
lemma no_errors : ∀ k ∈ localErrors {}, ∃ n, k.id = .made n := fun _ hk => absurd hk List.not_mem_nil

/-- A boundary with an older message in front of it, on another page. -/
theorem askedTwice_seamless :
    SameLead (loadPages some 0 false {} ⟨[asked 2 3072 20], some ⟨some 2, some 20⟩, false⟩ [[asked 1 1024 10]]).lead
      (loadSession some 0 false {} ⟨[asked 1 1024 10, asked 2 3072 20], some ⟨some 2, some 20⟩, false⟩).lead := by
  have T : Transcript ([[asked 1 1024 10]].reverse.flatten ++ [asked 2 3072 20]) :=
    transcript_of_users (by decide) (by decide) (by decide) (by decide)
  refine (paging_iff T no_errors fun v e => ?_).mpr fun v e => ?_
  · cases e
    exact ⟨asked 2 3072 20, by simp, ⟨by decide, .inr rfl⟩, rfl⟩
  · cases e
    refine ⟨⟨asked 2 3072 20, by simp, rfl⟩, fun m hm _ => ?_⟩
    have hm : m = asked 1 1024 10 := by simpa using hm
    rw [hm]
    decide

/-- A summary on an older page that was written after the boundary row behind it is missing. -/
theorem anchoredSummary_missing : ¬ ∀ (pretty : String → Option String) (now : Nat) (waiting running : Bool)
    (before : AgentStream) (revert : Option RevertInfo) (newest : List MessageResponse)
    (older : List (List MessageResponse)), Transcript (older.reverse.flatten ++ newest) →
    (∀ k ∈ localErrors before, ∃ n, k.id = .made n) →
    (∀ v, revert = some v → ∃ b ∈ older.reverse.flatten ++ newest, CanStage b ∧ v.messageId = some b.id) →
    SameLead (loadPages pretty now waiting before ⟨newest, revert, running⟩ older).lead
      (loadSession pretty now waiting before ⟨older.reverse.flatten ++ newest, revert, running⟩).lead := by
  intro all
  have T : Transcript ([[asked 1 1024 10, anchoredSummary]].reverse.flatten ++ ([] ++ asked 2 3072 20 :: [])) :=
    transcript_of_users (by decide) (by decide) (by decide) (by decide)
  have can : CanStage (asked 2 3072 20) := ⟨by decide, .inr rfl⟩
  have same := all some 0 false false {} (some ⟨some 2, some 20⟩) [asked 2 3072 20] [[asked 1 1024 10, anchoredSummary]]
    T no_errors fun v e => by
      cases e
      exact ⟨asked 2 3072 20, by simp, can, rfl⟩
  have kept := (paging_staged rfl T no_errors can rfl).mp same anchoredSummary (by simp)
    (.inl (by simp [rowBlocks, anchoredSummary, MessageResponse.queued]))
  exact absurd kept (by decide)

end OpenAgentd.Web
