import OpenAgentd.Store.RoundTrip

/-!
# An answer in its transcript

What `deserialize_messages` makes of an assistant message that stands anywhere in a transcript, with the results
of its calls behind it (`Placed`). The calls that do not parse go, with their results; the rest of the message
stays, whatever the other rows are, as long as no other call has one of its ids.
-/

namespace OpenAgentd.Store
open OpenAgentd.Lib OpenAgentd.Loop

/-- The row `r` of an answer in a transcript: behind it the results of its calls, and no other call with one of
their ids. -/
inductive Placed (r : Row) : List Row → Prop where
  | mk {before results after} :
    r.role = .assistant →
    (∀ t ∈ results, t.role = .tool) →
    (results.map Row.toolCallId).Perm (r.toolCalls.map fun tc => some tc.id) →
    (∀ k ∈ before ++ after, ∀ tc ∈ k.toolCalls, tc.id ∉ r.toolCalls.map ToolCall.id) →
    Placed r (before ++ r :: (results ++ after))

section
variable {loads : String → Option Json} {a m : ChatMessage} {r : Row} {rows results : List Row}
  {expected : List String} {L : List ChatMessage}

/-- The loop passes an answer on whose calls, if there are any, are answered. -/
lemma sanitizeLoop_answer {ts : List ChatMessage} (role : a.role = .assistant)
    (named : ∀ tc ∈ a.toolCalls, tc.id ≠ "") (distinct : (a.toolCalls.map ToolCall.id).Nodup)
    (tools : ∀ t ∈ ts, t.role = .tool)
    (all : (ts.map ChatMessage.toolCallId).Perm (a.toolCalls.map ToolCall.id)) (expected : List String)
    (post : List ChatMessage) :
    ∃ post', sanitizeLoop expected (a :: (ts ++ post)) = a :: (ts ++ post') := by
  by_cases calls : a.toolCalls = []
  · rw [calls] at all
    have none : ts = [] := List.map_eq_nil_iff.mp (List.perm_nil.mp all)
    refine ⟨sanitizeLoop [] post, ?_⟩
    rw [none, sanitizeLoop, role]
    simp only [calls, if_true, List.nil_append]
  · have X : Answers a ts := ⟨role, calls, named, tools, all.nodup_iff.mpr distinct, fun id => all.mem_iff⟩
    obtain ⟨expected', e⟩ := sanitizeLoop_exchange X expected post
    exact ⟨_, e⟩

/-- The messages that leave the loop are named by rows that came in, in their order. -/
lemma dbId_sanitizeLoop (expected : List String) (L : List ChatMessage) :
    ((sanitizeLoop expected L).map ChatMessage.dbId).Sublist (L.map ChatMessage.dbId) := by
  induction L generalizing expected with
  | nil => exact .slnil
  | cons m L ih =>
    rw [sanitizeLoop]
    cases m.role with
    | user => exact (ih _).cons_cons _
    | system => exact (ih _).cons_cons _
    | assistant =>
      dsimp only
      split
      · exact (ih _).cons_cons _
      · split
        · exact (ih _).cons_cons _
        · split
          · exact (ih _).cons_cons _
          · exact (ih _).cons _
    | tool =>
      dsimp only
      split
      · exact (ih _).cons_cons _
      · exact (ih _).cons _

/-- Loaded messages are of the rows. -/
lemma dbId_deserializeMessages (loads : String → Option Json) (rows : List Row) :
    ((deserializeMessages loads rows).map ChatMessage.dbId).Sublist (rows.map fun r => some r.id) := by
  rw [deserializeMessages_eq rfl]
  refine (dbId_sanitizeLoop [] _).trans ?_
  have same : ((rows.map rowMessage).map (dropPartialCalls loads)).map ChatMessage.dbId =
      rows.map fun r => some r.id := by
    rw [List.map_map, List.map_map]
    rfl
  rw [← same]
  exact List.filter_sublist.map _

/-- Messages of one row are one. -/
lemma deserializeMessages_unique (distinct : (rows.map Row.id).Nodup) {a m : ChatMessage}
    (ha : a ∈ deserializeMessages loads rows) (hm : m ∈ deserializeMessages loads rows) (e : a.dbId = m.dbId) :
    a = m := by
  have nodup : ((deserializeMessages loads rows).map ChatMessage.dbId).Nodup := by
    refine List.Nodup.sublist (dbId_deserializeMessages loads rows) ?_
    have some_ := distinct.map (Option.some_injective Nat)
    rwa [List.map_map] at some_
  exact List.inj_on_of_nodup_map nodup ha hm e

/-- Of the ids of an answer those are bad whose arguments do not parse. -/
lemma Placed.bad (P : Placed r rows) (distinct : (r.toolCalls.map ToolCall.id).Nodup) {tc : ToolCall}
    (h : tc ∈ r.toolCalls) :
    tc.id ∈ badToolCallIds loads (rows.map rowMessage) ↔ loads tc.arguments = none := by
  obtain @⟨before, results, after, role, tools, -, fresh⟩ := P
  have calls : ∀ k : Row, ∀ tc ∈ (rowMessage k).toolCalls, k.role = .assistant ∧ tc ∈ k.toolCalls := by
    intro k tc htc
    by_cases assistant : k.role = .assistant
    · rw [rowMessage, chatMessageFromRow, assistant] at htc
      exact ⟨assistant, htc⟩
    · have none : (rowMessage k).toolCalls = [] := if_neg assistant
      rw [none] at htc
      cases htc
  constructor
  · intro bad
    obtain ⟨m, hm, mem⟩ := List.mem_flatMap.mp bad
    obtain ⟨k, hk, rfl⟩ := List.mem_map.mp hm
    obtain ⟨tc', htc', e⟩ := List.mem_map.mp mem
    obtain ⟨mem', none⟩ := List.mem_filter.mp htc'
    obtain ⟨assistant, mem'⟩ := calls k tc' mem'
    have here : k = r := by
      cases List.mem_append.mp hk with
      | inl before' =>
        exact absurd (e ▸ List.mem_map_of_mem h) (fresh k (List.mem_append_left _ before') tc' mem')
      | inr rest =>
        cases List.mem_cons.mp rest with
        | inl e => exact e
        | inr rest =>
          cases List.mem_append.mp rest with
          | inl result => cases (tools k result).symm.trans assistant
          | inr after' =>
            exact absurd (e ▸ List.mem_map_of_mem h) (fresh k (List.mem_append_right _ after') tc' mem')
    rw [here] at mem'
    rw [← List.inj_on_of_nodup_map distinct mem' h e]
    exact Option.isNone_iff_eq_none.mp none
  · intro none
    refine List.mem_flatMap.mpr ⟨rowMessage r, ?_, List.mem_map.mpr ⟨tc, ?_, rfl⟩⟩
    · exact List.mem_map_of_mem (List.mem_append_right _ List.mem_cons_self)
    · refine List.mem_filter.mpr ⟨?_, Option.isNone_iff_eq_none.mpr none⟩
      rw [rowMessage, chatMessageFromRow, role]
      exact h

/-- The results that are not dropped carry the ids that are not bad. -/
lemma toolCallId_results (loads : String → Option Json) (bad : List String) (tools : ∀ t ∈ results, t.role = .tool) :
    (((results.map rowMessage).map (dropPartialCalls loads)).filter fun m =>
      !(decide (m.role = .tool) && decide (m.toolCallId ∈ bad))).map ChatMessage.toolCallId =
        ((results.map Row.toolCallId).map (Option.getD · "")).filter fun id => id ∉ bad := by
  induction results with
  | nil => rfl
  | cons t ts ih =>
    have tool : t.role = .tool := tools t List.mem_cons_self
    have rest := ih fun k hk => tools k (List.mem_cons_of_mem _ hk)
    have id : (dropPartialCalls loads (rowMessage t)).toolCallId = t.toolCallId.getD "" := if_pos tool
    have role : (dropPartialCalls loads (rowMessage t)).role = .tool := tool
    simp only [List.map_cons, List.filter_cons, role, id, decide_true, Bool.true_and, decide_not]
    split
    · simp only [List.map_cons, id, rest, decide_not]
    · simp only [rest, decide_not]

/-- The reader keeps a placed answer with the calls that parse, and their results. -/
lemma Placed.kept (loads : String → Option Json) (P : Placed r rows)
    (named : ∀ tc ∈ r.toolCalls, tc.id ≠ "") (distinct : (r.toolCalls.map ToolCall.id).Nodup) :
    ∃ front back, deserializeMessages loads rows = front ++ dropPartialCalls loads (rowMessage r) :: back ∧
      ∀ tc ∈ (dropPartialCalls loads (rowMessage r)).toolCalls,
        ∃ t ∈ back, t.role = .tool ∧ t.toolCallId = tc.id := by
  have badIds : ∀ tc ∈ r.toolCalls, tc.id ∈ badToolCallIds loads (rows.map rowMessage) ↔
      loads tc.arguments = none := fun tc htc => P.bad distinct htc
  obtain @⟨before, results, after, role, tools, all, fresh⟩ := P
  generalize ebad : badToolCallIds loads ((before ++ r :: (results ++ after)).map rowMessage) = bad at badIds
  set keep : ChatMessage → Bool := fun m => !(decide (m.role = .tool) && decide (m.toolCallId ∈ bad))
  set part : List Row → List ChatMessage := fun rows =>
    ((rows.map rowMessage).map (dropPartialCalls loads)).filter keep
  set a := dropPartialCalls loads (rowMessage r)
  have calls : a.toolCalls = r.toolCalls.filter fun tc => (loads tc.arguments).isSome := by
    show ((rowMessage r).toolCalls.filter _) = _
    rw [rowMessage, chatMessageFromRow, role]
    rfl
  have assistant : a.role = .assistant := role
  have cut : part (before ++ r :: (results ++ after)) = part before ++ a :: (part results ++ part after) := by
    have stays : keep a = true := by simp [keep, assistant]
    simp only [part, List.map_append, List.map_cons, List.filter_append]
    rw [List.filter_cons_of_pos stays]
    rw [List.filter_append]
  -- the results that stay are those of the calls that parse
  have resultTools : ∀ t ∈ part results, t.role = .tool := by
    intro t ht
    obtain ⟨m, hm, rfl⟩ := List.mem_map.mp (List.mem_of_mem_filter ht)
    obtain ⟨k, hk, rfl⟩ := List.mem_map.mp hm
    exact tools k hk
  have ids := toolCallId_results loads bad tools
  have perm : ((part results).map ChatMessage.toolCallId).Perm (a.toolCalls.map ToolCall.id) := by
    rw [calls]
    refine (List.Perm.of_eq ids).trans ?_
    have every : ((results.map Row.toolCallId).map (Option.getD · "")).Perm (r.toolCalls.map ToolCall.id) := by
      have h := all.map (Option.getD · "")
      rwa [List.map_map (l := r.toolCalls)] at h
    refine (every.filter _).trans ?_
    rw [List.filter_map]
    refine List.Perm.of_eq (congrArg _ (List.filter_congr fun tc htc => ?_))
    have h := badIds tc htc
    cases e : loads tc.arguments with
    | none => simp [h.mpr e]
    | some v =>
      have good : tc.id ∉ bad := fun mem => by
        rw [h.mp mem] at e
        cases e
      simp [good]
  obtain ⟨pre', expected, e⟩ := sanitizeLoop_append [] (part before) (a :: (part results ++ part after))
  obtain ⟨post', e'⟩ := sanitizeLoop_answer assistant
    (fun tc htc => named tc (List.mem_of_mem_filter (calls ▸ htc)))
    (by
      rw [calls]
      exact distinct.sublist (List.filter_sublist.map _))
    resultTools perm expected (part after)
  refine ⟨pre', part results ++ post', ?_, fun tc htc => ?_⟩
  · rw [deserializeMessages_eq rfl, ebad]
    show sanitizeLoop [] (part _) = _
    rw [cut, e, e']
  · have mem : tc.id ∈ (part results).map ChatMessage.toolCallId :=
      perm.mem_iff.mpr (List.mem_map_of_mem htc)
    obtain ⟨t, ht, id⟩ := List.mem_map.mp mem
    exact ⟨t, List.mem_append_left _ ht, resultTools t ht, id⟩

end

end OpenAgentd.Store
