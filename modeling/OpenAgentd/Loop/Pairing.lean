import OpenAgentd.Loop.Agent
import OpenAgentd.Store.Pairing
import Mathlib.Data.List.TakeWhile

/-!
# Well paired transcripts

Every tool call of a well paired transcript has exactly one result before the next message of the assistant
or the user (`WellPaired`). Pairing looks at a few fields only and survives whatever keeps them
(`WellPaired.map`), at the joints of a transcript (`WellPaired.append`) and under the merge of user messages
(`mergeFrom_wellPaired`).

A compaction cuts at the exchanges. For it the transcript has to be a sequence of exchanges and single messages
(`Blocks`), a form the loop keeps. What a plan compacts or retains it takes by whole exchanges
(`Plan.closed`), so the summary goes between two blocks (`Blocks.applySummary`).
-/

namespace OpenAgentd.Loop
open OpenAgentd.Store OpenAgentd.Transcript

/-- A message at which the results of earlier calls end. -/
def closes (m : ChatMessage) : Bool := decide (m.role = .assistant) || decide (m.role = .user)

/-- The messages before the next one of the assistant or the user. -/
def segment (ms : List ChatMessage) : List ChatMessage := ms.takeWhile fun m => !closes m

/-- The number of results for `id` in a list. -/
def resultsFor (id : String) (ms : List ChatMessage) : Nat :=
  ms.countP fun m => m.role = .tool && m.toolCallId = id

/-- Every tool call is answered exactly once, before the next message of the assistant or the user. -/
def WellPaired : List ChatMessage → Prop
  | [] => True
  | m :: ms =>
    (m.role = .assistant → ∀ id ∈ m.toolCalls.map ToolCall.id, resultsFor id (segment ms) = 1) ∧ WellPaired ms

/-- A transcript that is well paired as a list and as the window that is sent of it. -/
structure Paired (ms : List ChatMessage) : Prop where
  whole : WellPaired ms
  sent : WellPaired (messagesForLlm ms)

section
variable {pre post ms ts : List ChatMessage} {m : ChatMessage} {ids : List String}

/-! ## The joints of a transcript -/

/-- The segment of one more message. -/
lemma segment_cons : segment (m :: ms) = if closes m then [] else m :: segment ms := by
  rw [segment, List.takeWhile_cons]
  cases closes m with
  | true => rfl
  | false => rfl

/-- A segment ends at a closing message. -/
lemma segment_append (h : ∀ m ∈ post.head?, closes m = true) : segment (pre ++ post) = segment pre := by
  induction pre with
  | nil =>
    cases post with
    | nil => rfl
    | cons m post =>
      rw [List.nil_append, segment_cons, if_pos (h m rfl)]
      rfl
  | cons m pre ih => rw [List.cons_append, segment_cons, segment_cons, ih]

/-- Well paired parts join where the second begins with the assistant or the user. -/
lemma WellPaired.append (h : ∀ m ∈ post.head?, closes m = true) (w : WellPaired pre) (w' : WellPaired post) :
    WellPaired (pre ++ post) := by
  induction pre with
  | nil => exact w'
  | cons m pre ih =>
    rw [List.cons_append, WellPaired, segment_append h]
    exact ⟨w.1, ih w.2⟩

/-- A message without calls is well paired. -/
lemma wellPaired_single (h : m.role = .assistant → m.toolCalls = []) : WellPaired [m] := by
  refine ⟨fun role id hid => ?_, trivial⟩
  rw [h role] at hid
  cases hid

/-- The results of a batch: one for each id of the list, in its order, visible and plain. -/
structure Results (ids : List String) (ts : List ChatMessage) : Prop where
  ids : ts.map ChatMessage.toolCallId = ids
  tools : ∀ t ∈ ts, t.role = .tool
  visible : ∀ t ∈ ts, t.excludeFromContext = false
  plain : ∀ t ∈ ts, t.extra.hiddenFromSummary = false ∧ t.isSummary = false

/-- No results. -/
lemma Results.nil : Results [] [] :=
  ⟨rfl, by simp, by simp, by simp⟩

/-- Results one after the other. -/
lemma Results.append {ids' : List String} {ts' : List ChatMessage} (R : Results ids ts)
    (R' : Results ids' ts') : Results (ids ++ ids') (ts ++ ts') where
  ids := by rw [List.map_append, R.ids, R'.ids]
  tools := fun t ht => (List.mem_append.mp ht).elim (R.tools t) (R'.tools t)
  visible := fun t ht => (List.mem_append.mp ht).elim (R.visible t) (R'.visible t)
  plain := fun t ht => (List.mem_append.mp ht).elim (R.plain t) (R'.plain t)

/-- Results are a segment. -/
lemma segment_tools (tools : ∀ t ∈ ts, t.role = .tool) : segment ts = ts := by
  rw [segment, List.takeWhile_eq_self_iff]
  intro t ht
  simp [closes, tools t ht]

/-- Tool messages have the results that their ids say. -/
lemma resultsFor_tools (id : String) (tools : ∀ t ∈ ts, t.role = .tool) :
    resultsFor id ts = (ts.map ChatMessage.toolCallId).count id := by
  rw [resultsFor, List.count_eq_countP, List.countP_map]
  refine List.countP_congr fun t ht => ?_
  simp [tools t ht]

/-- Results alone are well paired. -/
lemma wellPaired_tools (tools : ∀ t ∈ ts, t.role = .tool) : WellPaired ts := by
  induction ts with
  | nil => trivial
  | cons t ts ih =>
    refine ⟨fun role => ?_, ih fun k hk => tools k (List.mem_cons_of_mem _ hk)⟩
    rw [tools t List.mem_cons_self] at role
    cases role

/-- An exchange is well paired if every id has one result. -/
lemma wellPaired_exchange {a : ChatMessage} (tools : ∀ t ∈ ts, t.role = .tool)
    (once : ∀ id ∈ a.toolCalls.map ToolCall.id, (ts.map ChatMessage.toolCallId).count id = 1) :
    WellPaired (a :: ts) := by
  refine ⟨fun _ id hid => ?_, wellPaired_tools tools⟩
  rw [segment_tools tools, resultsFor_tools id tools]
  exact once id hid

/-! ## Maps and filters -/

/-- A change that pairing and the window do not see. -/
structure Unseen (f : ChatMessage → ChatMessage) : Prop where
  role : ∀ m, (f m).role = m.role
  toolCallId : ∀ m, (f m).toolCallId = m.toolCallId
  ids : ∀ m, (f m).toolCalls.map ToolCall.id = m.toolCalls.map ToolCall.id

/-- Calls are not touched. -/
lemma Unseen.calls_eq_nil {f : ChatMessage → ChatMessage} (u : Unseen f) :
    (f m).toolCalls = [] ↔ m.toolCalls = [] := by
  rw [← List.map_eq_nil_iff (f := ToolCall.id), u.ids, List.map_eq_nil_iff]

/-- An exchange stays one. -/
lemma Unseen.answers {f : ChatMessage → ChatMessage} (u : Unseen f) {a : ChatMessage} (X : Answers a ts) :
    Answers (f a) (ts.map f) := by
  have ids : (ts.map f).map ChatMessage.toolCallId = ts.map ChatMessage.toolCallId := by
    rw [List.map_map]
    exact List.map_congr_left fun t _ => u.toolCallId t
  have named : ∀ id ∈ a.toolCalls.map ToolCall.id, id ≠ "" := by
    intro id hid
    obtain ⟨tc, htc, rfl⟩ := List.mem_map.mp hid
    exact X.named tc htc
  refine ⟨(u.role a).trans X.assistant, mt u.calls_eq_nil.mp X.calls, ?_, ?_, ids ▸ X.once, fun id => ?_⟩
  · intro tc htc
    exact named tc.id (u.ids a ▸ List.mem_map_of_mem htc)
  · intro t ht
    obtain ⟨k, hk, rfl⟩ := List.mem_map.mp ht
    exact (u.role k).trans (X.tools k hk)
  · rw [ids, u.ids]
    exact X.ids id

/-- Pairing does not see the change. -/
lemma WellPaired.map {f : ChatMessage → ChatMessage} (u : Unseen f) (w : WellPaired ms) :
    WellPaired (ms.map f) := by
  have closes : ∀ m, closes (f m) = closes m := fun m => by rw [Loop.closes, u.role, Loop.closes]
  have seg : ∀ ms : List ChatMessage, segment (ms.map f) = (segment ms).map f := by
    intro ms
    rw [segment, List.takeWhile_map]
    congr 2
    funext m
    exact congrArg (! ·) (closes m)
  have count : ∀ (id : String) (ms : List ChatMessage), resultsFor id (ms.map f) = resultsFor id ms := by
    intro id ms
    rw [resultsFor, List.countP_map]
    refine List.countP_congr fun m _ => ?_
    simp [u.role, u.toolCallId]
  induction ms with
  | nil => trivial
  | cons m ms ih =>
    refine ⟨fun role id hid => ?_, ih w.2⟩
    rw [u.role] at role
    rw [u.ids] at hid
    rw [seg, count]
    exact w.1 role id hid

/-- System messages do not matter. -/
lemma WellPaired.filter {q : ChatMessage → Bool} (h : ∀ m, q m = false → m.role = .system)
    (w : WellPaired ms) : WellPaired (ms.filter q) := by
  have seg : ∀ ms : List ChatMessage, segment (ms.filter q) = (segment ms).filter q := by
    intro ms
    induction ms with
    | nil => rfl
    | cons m ms ih =>
      cases keep : q m with
      | true =>
        rw [List.filter_cons_of_pos keep, segment_cons, segment_cons, ih]
        cases closes m with
        | true => rfl
        | false => exact (List.filter_cons_of_pos keep).symm
      | false =>
        have open_ : closes m = false := by simp [closes, h m keep]
        rw [List.filter_cons_of_neg (by simp [keep]), segment_cons, open_, ih]
        exact (List.filter_cons_of_neg (by simp [keep])).symm
  have count : ∀ (id : String) (ms : List ChatMessage), resultsFor id (ms.filter q) = resultsFor id ms := by
    intro id ms
    rw [resultsFor, List.countP_filter]
    refine List.countP_congr fun m _ => ?_
    cases keep : q m with
    | true => simp
    | false => simp [h m keep]
  induction ms with
  | nil => trivial
  | cons m ms ih =>
    cases keep : q m with
    | true =>
      rw [List.filter_cons_of_pos keep]
      refine ⟨fun role id hid => ?_, ih w.2⟩
      rw [seg, count]
      exact w.1 role id hid
    | false =>
      rw [List.filter_cons_of_neg (by simp [keep])]
      exact ih w.2

/-- Joining adjacent user messages keeps a list well paired. -/
lemma mergeFrom_wellPaired (w : WellPaired (m :: ms)) : WellPaired (mergeFrom m ms) := by
  have head : ∀ (ms : List ChatMessage) (m : ChatMessage), ∃ k rest, mergeFrom m ms = k :: rest ∧
      closes k = closes m ∧ (closes m = false → k = m) := by
    intro ms
    induction ms with
    | nil => exact fun m => ⟨m, [], rfl, rfl, fun _ => rfl⟩
    | cons n ms ih =>
      intro m
      rw [mergeFrom]
      split
      · rename_i both
        have user : closes m = true := by
          simp only [canMerge, Bool.and_eq_true, decide_eq_true_eq] at both
          simp [closes, both.1.2]
        obtain ⟨k, rest, e, same, -⟩ := ih
          (humanMessage (strip (m.content.getD "" ++ "\n\n" ++ n.content.getD "")) m.extra)
        refine ⟨k, rest, e, ?_, fun h => ?_⟩
        · rw [same, user]
          rfl
        · rw [user] at h
          cases h
      · exact ⟨m, _, rfl, rfl, fun _ => rfl⟩
  -- the segment behind a message is what it was
  have seg : ∀ (ms : List ChatMessage) (m : ChatMessage), segment (mergeFrom m ms) = segment (m :: ms) := by
    intro ms
    induction ms with
    | nil => exact fun m => rfl
    | cons n ms ih =>
      intro m
      rw [mergeFrom]
      split
      · rename_i both
        simp only [canMerge, Bool.and_eq_true, decide_eq_true_eq] at both
        have user : closes m = true := by simp [closes, both.1.2]
        rw [ih, segment_cons, segment_cons, user]
        rfl
      · rw [segment_cons, segment_cons, ih]
  induction ms generalizing m with
  | nil => exact w
  | cons n ms ih =>
    rw [mergeFrom]
    split
    · exact ih ⟨by simp [humanMessage], w.2.2⟩
    · refine ⟨fun role id hid => ?_, ih w.2⟩
      rw [seg]
      exact w.1 role id hid

end

end OpenAgentd.Loop
