import OpenAgentd.Schemas.Chat
import Mathlib.Data.Finset.Card
import Mathlib.Tactic.Common

/-!
# Compaction of a transcript

`SummarizationHook._summarise_inner` (`app/agent/hooks/summarization.py`). The plan of a compaction is a
set of messages to compact and a set of skill exchanges to retain, both as object identities
(`compactionPlan`); its execution excludes the one, pins what survives below the summary and inserts the
summary (`applySummary`). The summariser itself is the text it returns.

`json.loads` is a parameter, as far as the arguments of a skill call go. Arguments that parse to something
else than a dict raise `AttributeError`, which leaves the transcript alone (`none`).
-/

namespace OpenAgentd.Transcript

/-- The identities of a list of messages. -/
def oidSet (ms : List ChatMessage) : Finset Nat := (ms.map ChatMessage.oid).toFinset

/-- The search of `_find_assistant_cutoff`, over the reversed list. -/
def cutoffBack : List ChatMessage → Nat → Nat
  | [], _ => 0
  | m :: ms, remaining =>
    if m.role = .assistant then
      if remaining = 1 then ms.length else cutoffBack ms (remaining - 1)
    else cutoffBack ms remaining

/-- `_find_assistant_cutoff`. -/
def findAssistantCutoff (msgs : List ChatMessage) (keepLast : Nat) : Nat :=
  if keepLast = 0 then msgs.length else cutoffBack msgs.reverse keepLast

/-- The messages on the other side of the tool calls of `m`. -/
def related (messages : List ChatMessage) (m : ChatMessage) : Finset Nat :=
  match m.role with
  | .assistant => oidSet <| messages.filter fun t =>
      t.role = .tool && t.toolCallId ≠ "" && m.toolCalls.any (fun tc => tc.id = t.toolCallId)
  | .tool => oidSet <| messages.filter fun a =>
      a.role = .assistant && m.toolCallId ≠ "" && a.toolCalls.any (fun tc => tc.id = m.toolCallId)
  | _ => ∅

/-- One round of the loop of `_expand_tool_pair_ids`. -/
def expandPass (messages : List ChatMessage) (expanded : Finset Nat) : Finset Nat :=
  messages.foldl (fun e m => if m.oid ∈ e then e ∪ related messages m else e) expanded

/-- The loop of `_expand_tool_pair_ids`, for `fuel` rounds at most. -/
def expandLoop (messages : List ChatMessage) : Nat → Finset Nat → Finset Nat
  | 0, expanded => expanded
  | fuel + 1, expanded =>
    let next := expandPass messages expanded
    if next = expanded then expanded else expandLoop messages fuel next

/-- `_expand_tool_pair_ids`. A round that changes something adds a message, so there are at most as many
rounds as messages, and one that changes nothing. -/
def expandToolPairIds (messages : List ChatMessage) (seed : Finset Nat) : Finset Nat :=
  if seed = ∅ then ∅ else expandLoop messages (messages.length + 1) seed

/-- The first loop of `_skill_tool_pair_ids` so far. -/
structure SkillScan where
  seen : List String := []
  calls : List String := []
  ids : Finset Nat := ∅

/-- One tool call in the first loop of `_skill_tool_pair_ids`. -/
def scanSkillCall (loads : String → Option Json) (m : ChatMessage) (st : SkillScan) (tc : ToolCall) :
    Option SkillScan :=
  if tc.id = "" || tc.name ≠ "skill" then some st
  else
    match loads (if tc.arguments = "" then "\x7b\x7d" else tc.arguments) with
    | none => some st
    | some .other => none
    | some (.dict get) =>
      match get "skill_name" with
      | none => some st
      | some skill =>
        if skill = "" || skill ∈ st.seen then some st
        else some
          { seen := skill :: st.seen, calls := tc.id :: st.calls, ids := insert m.oid st.ids }

/-- `_skill_tool_pair_ids`. -/
def skillToolPairIds (loads : String → Option Json) (messages : List ChatMessage) :
    Option (Finset Nat) := do
  let st ← messages.foldlM
    (fun st m => if m.role = .assistant then m.toolCalls.foldlM (scanSkillCall loads m) st else some st)
    ({} : SkillScan)
  if st.calls = [] then some ∅
  else
    let results := messages.filter fun m => m.role = .tool && m.toolCallId ∈ st.calls
    some (expandToolPairIds messages (st.ids ∪ oidSet results))

/-- The messages a compaction looks at. -/
def eligible (messages : List ChatMessage) : List ChatMessage :=
  messages.filter fun m =>
    !m.excludeFromContext && decide (m.role ≠ .system) && !m.extra.hiddenFromSummary

/-- What a compaction does: the messages it hands to the summariser and the skill exchanges it retains. -/
structure Plan where
  toSummarise : Finset Nat
  retained : Finset Nat
  deriving DecidableEq

/-- `_summarise_inner` up to the call of the summariser, when it comes to that. -/
def compactionPlan (loads : String → Option Json) (keepLast : Nat) (messages : List ChatMessage) :
    Option Plan := do
  let eligible := eligible messages
  if eligible = [] then none
  else
    let cutoff := findAssistantCutoff eligible keepLast
    let seed := if cutoff > 0 then eligible.take cutoff else eligible
    let ids := expandToolPairIds eligible (oidSet seed)
    let retained ← skillToolPairIds loads eligible
    let toSummarise := eligible.filter fun m => m.oid ∈ ids
    if toSummarise = [] then none
    else some { toSummarise := oidSet toSummarise, retained }

/-- The flags of a message after the two exclusion loops of `_summarise_inner`. -/
def Plan.flag (p : Plan) (m : ChatMessage) : ChatMessage :=
  if m.oid ∈ p.toSummarise then
    if m.oid ∈ p.retained then m else { m with excludeFromContext := true, pinned := false }
  else if m.isSummary then { m with excludeFromContext := true } else m

/-- One past the last member of a list with the property `q`, and `0` if there is none. -/
def afterLast (q : ChatMessage → Bool) : List ChatMessage → Nat
  | [] => 0
  | m :: ms => if ms.any q then afterLast q ms + 1 else if q m then 1 else 0

/-- `first_kept_idx`: where the summary goes. -/
def Plan.firstKept (p : Plan) (messages : List ChatMessage) : Nat :=
  let retained := fun m : ChatMessage => decide (m.oid ∈ p.retained)
  let first := if messages.any retained then afterLast retained messages
    else messages.findIdx fun m => !m.excludeFromContext
  max first (afterLast ChatMessage.excludeFromContext messages)

/-- The pin of what survives below the summary. -/
def pinKept (m : ChatMessage) : ChatMessage :=
  if !m.excludeFromContext && decide (m.role ≠ .system) then { m with pinned := true } else m

/-- The summary message, as the object `oid`. -/
def summaryMessage (oid : Nat) (text : String) : ChatMessage where
  oid
  role := .user
  content := some text
  isSummary := true
  kind := .summary

/-- `_summarise_inner` from the summary text on. -/
def Plan.applySummary (p : Plan) (oid : Nat) (text : String) (messages : List ChatMessage) :
    List ChatMessage :=
  let flagged := messages.map p.flag
  let idx := p.firstKept flagged
  (flagged.take idx).map pinKept ++ summaryMessage oid text :: flagged.drop idx

/-- `_summarise_inner` with the text the summariser returns. -/
def summariseInner (loads : String → Option Json) (keepLast oid : Nat) (text : String)
    (messages : List ChatMessage) : List ChatMessage :=
  match compactionPlan loads keepLast messages with
  | none => messages
  | some p => if text = "" then messages else p.applySummary oid text messages

/-! ## The rounds of the expansion -/

section
variable {messages : List ChatMessage} {e e' : Finset Nat}

/-- A pass keeps the ids. -/
lemma subset_expandPass : e ⊆ expandPass messages e := by
  have h : ∀ (ms : List ChatMessage) (e : Finset Nat),
      e ⊆ ms.foldl (fun e m => if m.oid ∈ e then e ∪ related messages m else e) e := by
    intro ms
    induction ms with
    | nil => exact fun e => Finset.Subset.refl e
    | cons m ms ih =>
      intro e
      refine Finset.Subset.trans ?_ (ih _)
      dsimp only
      split
      · exact Finset.subset_union_left
      · exact Finset.Subset.refl e
  exact h messages e

/-- Related ids are of the messages. -/
lemma related_subset (m : ChatMessage) : related messages m ⊆ oidSet messages := by
  have h : ∀ q, oidSet (messages.filter q) ⊆ oidSet messages := by
    intro q o ho
    simp only [oidSet, List.mem_toFinset, List.mem_map] at ho ⊢
    obtain ⟨k, hk, rfl⟩ := ho
    exact ⟨k, List.mem_of_mem_filter hk, rfl⟩
  unfold related
  split
  · exact h _
  · exact h _
  · exact Finset.empty_subset _

/-- A pass adds ids of messages. -/
lemma expandPass_subset : expandPass messages e ⊆ e ∪ oidSet messages := by
  have h : ∀ (ms : List ChatMessage) (e : Finset Nat),
      ms.foldl (fun e m => if m.oid ∈ e then e ∪ related messages m else e) e ⊆
        e ∪ oidSet messages := by
    intro ms
    induction ms with
    | nil => exact fun e => Finset.subset_union_left
    | cons m ms ih =>
      intro e
      refine Finset.Subset.trans (ih _) (Finset.union_subset ?_ Finset.subset_union_right)
      dsimp only
      split
      · exact Finset.union_subset_union_right (related_subset m)
      · exact Finset.subset_union_left
  exact h messages e

/-- Enough rounds reach a set that another round leaves alone. -/
lemma expandLoop_fixed {fuel : Nat} (enough : (oidSet messages \ e).card < fuel) :
    expandPass messages (expandLoop messages fuel e) = expandLoop messages fuel e := by
  induction fuel generalizing e with
  | zero => omega
  | succ fuel ih =>
    rw [expandLoop]
    by_cases h : expandPass messages e = e
    · simp [h]
    · simp only [h, if_false]
      apply ih
      obtain ⟨o, ho, hn⟩ : ∃ o ∈ expandPass messages e, o ∉ e := by
        by_contra none
        push Not at none
        exact h (Finset.Subset.antisymm none subset_expandPass)
      have mem : o ∈ oidSet messages \ e := by
        rcases Finset.mem_union.mp (expandPass_subset ho) with h | h
        · exact absurd h hn
        · exact Finset.mem_sdiff.mpr ⟨h, hn⟩
      have lt : (oidSet messages \ expandPass messages e).card < (oidSet messages \ e).card := by
        apply Finset.card_lt_card
        refine ⟨Finset.sdiff_subset_sdiff (Finset.Subset.refl _) subset_expandPass, ?_⟩
        intro sub
        exact (Finset.mem_sdiff.mp (sub mem)).2 ho
      omega

/-- The expansion is closed: another round of the loop changes nothing. -/
theorem expandToolPairIds_fixed :
    expandPass messages (expandToolPairIds messages e) = expandToolPairIds messages e := by
  unfold expandToolPairIds
  split
  · have h : ∀ ms : List ChatMessage,
        ms.foldl (fun e m => if m.oid ∈ e then e ∪ related messages m else e) (∅ : Finset Nat) = ∅ := by
      intro ms
      induction ms with
      | nil => rfl
      | cons m ms ih => simpa using ih
    exact h messages
  · apply expandLoop_fixed
    have h : (oidSet messages \ e).card ≤ (oidSet messages).card :=
      Finset.card_le_card Finset.sdiff_subset
    have h' : (oidSet messages).card ≤ (messages.map ChatMessage.oid).length :=
      List.toFinset_card_le _
    rw [List.length_map] at h'
    omega

end

/-! ## Where the summary goes -/

/-- The messages a compaction takes from the kept tail: what is excluded by its end, and what it retains
at its position. -/
def Plan.covers (p : Plan) (m : ChatMessage) : Bool :=
  m.excludeFromContext || decide (m.oid ∈ p.toSummarise) || decide (m.oid ∈ p.retained) || m.isSummary

/-- The messages behind the last one that the compaction covers. -/
def Plan.keptTail (p : Plan) (messages : List ChatMessage) : List ChatMessage :=
  messages.drop (afterLast p.covers messages)

section
variable {p : Plan} {m : ChatMessage} {ms : List ChatMessage} {q q' : ChatMessage → Bool}

/-- Flags keep the object. -/
@[simp] lemma Plan.flag_oid : (p.flag m).oid = m.oid := by
  unfold Plan.flag
  split
  · split <;> rfl
  · split <;> rfl

/-- What is excluded after the two loops. -/
lemma Plan.flag_excluded : (p.flag m).excludeFromContext =
    (m.excludeFromContext || (decide (m.oid ∈ p.toSummarise) && decide (m.oid ∉ p.retained)) ||
      (decide (m.oid ∉ p.toSummarise) && m.isSummary)) := by
  unfold Plan.flag
  by_cases h : m.oid ∈ p.toSummarise
  · by_cases h' : m.oid ∈ p.retained
    · simp [h, h']
    · simp [h, h']
  · cases e : m.isSummary with
    | true => simp [h]
    | false => simp [h]

/-- What the flags cover. -/
lemma Plan.flag_covers :
    ((p.flag m).excludeFromContext || decide ((p.flag m).oid ∈ p.retained)) = p.covers m := by
  rw [Plan.flag_excluded, Plan.flag_oid, Plan.covers]
  by_cases h : m.oid ∈ p.toSummarise
  · by_cases h' : m.oid ∈ p.retained
    · simp [h, h']
    · simp [h, h']
  · by_cases h' : m.oid ∈ p.retained
    · simp [h, h']
    · simp [h, h']

/-- A message the compaction does not cover keeps its flags. -/
lemma Plan.flag_of_not_covers (h : p.covers m = false) : p.flag m = m := by
  simp only [Plan.covers, Bool.or_eq_false_iff, decide_eq_false_iff_not] at h
  obtain ⟨⟨⟨-, out⟩, -⟩, sum⟩ := h
  simp [Plan.flag, out, sum]

/-- No last one. -/
lemma afterLast_eq_zero : afterLast q ms = 0 ↔ ms.any q = false := by
  cases ms with
  | nil => simp [afterLast]
  | cons m ms =>
    rw [afterLast, List.any_cons]
    cases h : ms.any q with
    | true => simp
    | false => simp

/-- The last one under a map. -/
lemma afterLast_map {f : ChatMessage → ChatMessage} :
    afterLast q (ms.map f) = afterLast (fun m => q (f m)) ms := by
  induction ms with
  | nil => rfl
  | cons m ms ih => simp only [List.map_cons, afterLast, List.any_map, ih, Function.comp_def]

/-- The last of two kinds. -/
lemma afterLast_or :
    afterLast (fun m => q m || q' m) ms = max (afterLast q ms) (afterLast q' ms) := by
  induction ms with
  | nil => rfl
  | cons m ms ih =>
    have any : ms.any (fun m => q m || q' m) = (ms.any q || ms.any q') := by
      rw [Bool.eq_iff_iff]
      simp [exists_or, and_or_left]
    simp only [afterLast, any, ih]
    cases h : ms.any q with
    | true =>
      cases h' : ms.any q' with
      | true => simp
      | false =>
        rw [afterLast_eq_zero.mpr h']
        by_cases hm : q' m = true
        · simp [hm]
        · simp [hm]
    | false =>
      rw [afterLast_eq_zero.mpr h]
      cases h' : ms.any q' with
      | true =>
        by_cases hm : q m = true
        · simp [hm]
        · simp [hm]
      | false =>
        by_cases hm : q m = true
        · simp only [hm, Bool.true_or, if_true, Bool.false_or, Bool.false_eq_true, if_false]
          split <;> rfl
        · simp [hm]

/-- Up to the first member without the property all have it. -/
lemma findIdx_not_le_afterLast : ms.findIdx (fun m => !q m) ≤ afterLast q ms := by
  induction ms with
  | nil => exact le_rfl
  | cons m ms ih =>
    rw [List.findIdx_cons, afterLast]
    cases hm : q m with
    | false => simp
    | true =>
      cases h : ms.any q with
      | true => simpa using ih
      | false =>
        rw [afterLast_eq_zero.mpr h] at ih
        simpa using ih

/-- None comes behind the last. -/
lemma not_of_mem_drop_afterLast (h : m ∈ ms.drop (afterLast q ms)) : q m = false := by
  induction ms with
  | nil => simp at h
  | cons k ms ih =>
    rw [afterLast] at h
    cases a : ms.any q with
    | true =>
      rw [a] at h
      exact ih (by simpa using h)
    | false =>
      rw [afterLast_eq_zero.mpr a] at ih
      simp only [a, Bool.false_eq_true, if_false] at h
      cases hk : q k with
      | true =>
        rw [hk] at h
        exact ih (by simpa using h)
      | false =>
        simp only [hk, Bool.false_eq_true, if_false, List.drop_zero, List.mem_cons] at h
        cases h with
        | inl e => rwa [e]
        | inr h => exact ih h

/-- The tail is not covered. -/
lemma Plan.keptTail_not_covers (h : m ∈ p.keptTail ms) : p.covers m = false :=
  not_of_mem_drop_afterLast h

/-- The summary goes directly before the kept tail. -/
lemma Plan.firstKept_eq : p.firstKept (ms.map p.flag) = afterLast p.covers ms := by
  have e : afterLast p.covers ms = max (afterLast ChatMessage.excludeFromContext (ms.map p.flag))
      (afterLast (fun m => decide (m.oid ∈ p.retained)) (ms.map p.flag)) := by
    rw [← afterLast_or, afterLast_map]
    congr 1
    funext m
    exact Plan.flag_covers.symm
  rw [e, Plan.firstKept]
  split
  · exact max_comm _ _
  · rename_i none
    have zero : afterLast (fun m => decide (m.oid ∈ p.retained)) (ms.map p.flag) = 0 :=
      afterLast_eq_zero.mpr (by simpa using none)
    rw [zero, Nat.max_zero]
    exact max_eq_right findIdx_not_le_afterLast

/-- The transcript after a compaction: flags and pins above, the summary, the kept tail as it was. -/
theorem Plan.applySummary_eq (p : Plan) (ms : List ChatMessage) (oid : Nat) (text : String) :
    ∃ head, ms = head ++ p.keptTail ms ∧ p.applySummary oid text ms =
      head.map (fun m => pinKept (p.flag m)) ++ summaryMessage oid text :: p.keptTail ms := by
  refine ⟨ms.take (afterLast p.covers ms), (List.take_append_drop _ ms).symm, ?_⟩
  have tail : (p.keptTail ms).map p.flag = p.keptTail ms := by
    conv_rhs => rw [← List.map_id (p.keptTail ms)]
    exact List.map_congr_left fun m hm => Plan.flag_of_not_covers (Plan.keptTail_not_covers hm)
  rw [Plan.applySummary]
  simp only [Plan.firstKept_eq, ← List.map_take, ← List.map_drop, List.map_map]
  rw [← Plan.keptTail, tail]
  rfl

end

end OpenAgentd.Transcript
