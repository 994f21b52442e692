import OpenAgentd.Loop.Blocks

/-!
# Every tool call is answered

The paths through a dispatch append one result for each call (`dispatchTools_answers`), except one: when the
run is interrupted while a batch runs, the `ask_user` calls that were held back from it get no result
(`interrupt_drops_question`), although the interrupt before the dispatch answers all of them. An ordinary call
that ends in `QuestionSuspended`, or in a cancellation without an interrupt event, is dropped from the results
too.

In the runs without such a pass (`Orderly`) every request is well paired and so is the list the run returns
(`every_call_answered`).
-/

namespace OpenAgentd.Loop
open OpenAgentd.Lib OpenAgentd.Store OpenAgentd.Transcript

/-- The end of an ordinary call for which `gather_or_cancel` has a result. -/
def TaskEnd.Settled (event : Option Bool) : TaskEnd → Prop
  | .finished .suspended => False
  | .finished .cancelled => event ≠ none
  | _ => True

/-- A batch whose ordinary calls end with results, and that is not interrupted if the user is asked. -/
structure Tools.Settles (tools : Tools) (event : Option Bool) (calls : List ToolCall) : Prop where
  ends : tools.callerCancelled = false →
    ∀ i < (calls.filter fun tc => tc.name ≠ askUser).length, (tools.ends i).Settled event
  asked : (∃ tc ∈ calls, tc.name = askUser) → fire tools.interrupted event ≠ some true

/-- The passes that answer every call: the calls of an answer have distinct ids, and when they are dispatched
the batch settles. -/
def Orderly (s : RunState) (it : Iteration) : Prop :=
  ∀ content reasoningContent calls finishReason dropped,
    it.call = .answered content reasoningContent calls finishReason dropped →
    (calls.map ToolCall.id).Nodup ∧
      (fire it.interruptedCall (fire it.interruptedBefore s.event) ≠ some true →
        it.tools.Settles (fire it.interruptedCall (fire it.interruptedBefore s.event)) calls)

/-- The calls of an answer have ids. -/
def Iteration.Named (it : Iteration) : Prop :=
  ∀ content reasoningContent calls finishReason dropped,
    it.call = .answered content reasoningContent calls finishReason dropped → ∀ tc ∈ calls, tc.id ≠ ""

/-! ## Dispatch -/

section
variable {ms : List ChatMessage} {calls : List ToolCall} {event : Option Bool} {tools : Tools}

/-- A change of the messages that neither pairing nor a compaction sees. -/
structure Inert (f : ChatMessage → ChatMessage) : Prop extends Unseen f where
  excluded : ∀ m, (f m).excludeFromContext = m.excludeFromContext
  plain : ∀ m, (f m).extra = m.extra ∧ (f m).isSummary = m.isSummary

/-- Changing nothing is inert. -/
lemma inert_id : Inert id where
  role := fun _ => rfl
  toolCallId := fun _ => rfl
  ids := fun _ => rfl
  excluded := fun _ => rfl
  plain := fun _ => ⟨rfl, rfl⟩

/-- Results stay results. -/
lemma Inert.results {f : ChatMessage → ChatMessage} {ids : List String} {ts : List ChatMessage} (I : Inert f)
    (R : Results ids ts) : Results ids (ts.map f) := by
  refine ⟨?_, fun t ht => ?_, fun t ht => ?_, fun t ht => ?_⟩
  · rw [← R.ids, List.map_map]
    exact List.map_congr_left fun t _ => I.toolCallId t
  · obtain ⟨k, hk, rfl⟩ := List.mem_map.mp ht
    exact (I.role k).trans (R.tools k hk)
  · obtain ⟨k, hk, rfl⟩ := List.mem_map.mp ht
    exact (I.excluded k).trans (R.visible k hk)
  · obtain ⟨k, hk, rfl⟩ := List.mem_map.mp ht
    rw [(I.plain k).1, (I.plain k).2]
    exact R.plain k hk

/-- The merge of the questions changes the arguments of a call. -/
lemma mergeQuestionCalls_inert (merge : String → List String → String) (oid : Nat)
    (duplicates : List ToolCall) :
    ∃ f, Inert f ∧ ∀ ms, mergeQuestionCalls merge oid duplicates ms = ms.map f := by
  refine ⟨_, ?_, fun ms => rfl⟩
  refine ⟨⟨fun m => ?_, fun m => ?_, fun m => ?_⟩, fun m => ?_, fun m => ?_⟩
  · split <;> rfl
  · split <;> rfl
  · split
    · refine List.ext_getElem? fun i => ?_
      rw [List.getElem?_map, List.getElem?_map, List.getElem?_modify]
      cases m.toolCalls[i]? with
      | none => rfl
      | some tc =>
        simp only [Option.map_eq_map, Option.map_some]
        split <;> rfl
    · rfl
  · split <;> rfl
  · split <;> exact ⟨rfl, rfl⟩

/-- A tool message is a result. -/
lemma append_toolMessage (ms : List ChatMessage) (text : String) (tc : ToolCall) :
    ∃ t, append ms (toolMessage text tc) = ms ++ [t] ∧ Results [tc.id] [t] :=
  ⟨_, rfl, ⟨rfl, by simp [toolMessage], by simp [toolMessage], by simp [toolMessage]⟩⟩

/-- One result for each call, with texts of the loop. -/
lemma foldl_append_results (ms : List ChatMessage) (calls : List ToolCall) (text : ToolCall → String) :
    ∃ ts, calls.foldl (fun ms tc => append ms (toolMessage (text tc) tc)) ms = ms ++ ts ∧
      Results (calls.map ToolCall.id) ts := by
  induction calls generalizing ms with
  | nil => exact ⟨[], (List.append_nil ms).symm, .nil⟩
  | cons tc calls ih =>
    obtain ⟨t, e, R⟩ := append_toolMessage ms (text tc) tc
    obtain ⟨ts, e', R'⟩ := ih (ms ++ [t])
    refine ⟨t :: ts, ?_, R.append R'⟩
    rw [List.foldl_cons, e, e', List.append_assoc]
    rfl

/-- The results of a batch without exceptions. -/
lemma appendToolResults_results (ms : List ChatMessage) {results : List (Except ToolException (ToolCall × String))}
    (h : List.Forall₂ (fun r tc => ∃ text, r = .ok (tc, text)) results calls) :
    ∃ ts, appendToolResults ms results = ms ++ ts ∧ Results (calls.map ToolCall.id) ts := by
  induction h generalizing ms with
  | nil => exact ⟨[], (List.append_nil ms).symm, .nil⟩
  | @cons r tc results calls here _ ih =>
    obtain ⟨text, rfl⟩ := here
    obtain ⟨t, e, R⟩ := append_toolMessage ms text tc
    obtain ⟨ts, e', R'⟩ := ih (ms ++ [t])
    refine ⟨t :: ts, ?_, R.append R'⟩
    have step : appendToolResults ms (.ok (tc, text) :: results) =
        appendToolResults (append ms (toolMessage text tc)) results := rfl
    rw [step, e, e', List.append_assoc]
    rfl

/-- A task that settles has a result. -/
lemma TaskEnd.Settled.result {e : TaskEnd} (h : e.Settled event) (tc : ToolCall) :
    ∃ text, taskResult event tc e = .ok (tc, text) := by
  cases e with
  | stillRunning => exact ⟨_, rfl⟩
  | finished outcome =>
    cases outcome with
    | returned result => exact ⟨_, rfl⟩
    | failed error => exact ⟨_, rfl⟩
    | suspended => exact h.elim
    | cancelled =>
      cases event with
      | none => exact absurd rfl h
      | some set => exact ⟨_, rfl⟩

/-- A batch that settles has one result for each call. -/
lemma gatherOrCancel_results {results : List (Except ToolException (ToolCall × String))}
    (ends : tools.callerCancelled = false → ∀ i < calls.length, (tools.ends i).Settled event)
    (h : gatherOrCancel event tools calls = some results) :
    List.Forall₂ (fun r tc => ∃ text, r = .ok (tc, text)) results calls := by
  have all : ∀ (calls : List ToolCall) (text : String),
      List.Forall₂ (fun (r : Except ToolException _) tc => ∃ text, r = .ok (tc, text))
        (calls.map fun tc => .ok (tc, text)) calls := by
    intro calls text
    induction calls with
    | nil => exact .nil
    | cons tc calls ih => exact .cons ⟨_, rfl⟩ ih
  have each : ∀ (calls : List ToolCall) (f : Nat → TaskEnd), (∀ i < calls.length, (f i).Settled event) →
      List.Forall₂ (fun r tc => ∃ text, r = .ok (tc, text))
        (calls.mapIdx fun i tc => taskResult event tc (f i)) calls := by
    intro calls
    induction calls with
    | nil => exact fun _ _ => .nil
    | cons tc calls ih =>
      intro f settled
      rw [List.mapIdx_cons]
      refine .cons ((settled 0 (by simp)).result tc) (ih (fun i => f (i + 1)) fun i hi => ?_)
      exact settled (i + 1) (by simpa using hi)
  unfold gatherOrCancel at h
  split at h
  · rename_i none
    cases h
    rw [none]
    exact .nil
  · split at h
    · cases event with
      | none => cases h
      | some set =>
        cases h
        exact all calls _
    · rename_i alive
      cases h
      exact each calls tools.ends (ends (by simpa using alive))

/-- What a dispatch leaves behind: results, and how they cover the calls. -/
structure Dispatched (calls : List ToolCall) (ms : List ChatMessage) (d : List ChatMessage × Dispatch) :
    Prop where
  results : ∃ f ts ids, Inert f ∧ d.1 = ms.map f ++ ts ∧ Results ids ts ∧
    match d.2 with
    | .ok | .cancelled => ids.Perm (calls.map ToolCall.id)
    | .suspended primary => (ids ++ [primary.id]).Perm (calls.map ToolCall.id)
    | .raised => True

/-- The calls of a batch: the ordinary ones, the duplicated questions and the primary one. -/
lemma calls_perm {primary : ToolCall} {duplicates : List ToolCall}
    (h : calls.filter (fun tc => tc.name = askUser) = primary :: duplicates) :
    ((calls.filter fun tc => tc.name ≠ askUser).map ToolCall.id ++ duplicates.map ToolCall.id ++
      [primary.id]).Perm (calls.map ToolCall.id) := by
  have split := List.filter_append_perm (fun tc : ToolCall => decide (tc.name = askUser)) calls
  rw [h] at split
  refine .trans ?_ (split.map ToolCall.id)
  rw [List.map_append, List.map_cons, List.append_assoc]
  have other : (calls.filter fun tc => tc.name ≠ askUser) = calls.filter fun tc => !decide (tc.name = askUser) :=
    List.filter_congr fun tc _ => by simp
  rw [other]
  exact List.perm_append_comm.trans (List.Perm.append_right _ (List.perm_append_singleton _ _))

/-- A dispatch answers every call, or all but the question it suspends the run with. -/
theorem dispatchTools_answers (merge : String → List String → String) (ms : List ChatMessage) {a : ChatMessage}
    (ok : tools.Settles event a.toolCalls) :
    Dispatched a.toolCalls ms (dispatchTools merge event tools a ms) := by
  have plain : ms.map id = ms := List.map_id ms
  unfold dispatchTools
  dsimp only
  split
  · exact ⟨_, [], [], inert_id, by rw [plain, List.append_nil], .nil, trivial⟩
  · rename_i results gathered
    obtain ⟨ts, e, R⟩ := appendToolResults_results ms (gatherOrCancel_results ok.ends gathered)
    have none : a.toolCalls.filter (fun tc => tc.name = askUser) = [] →
        ((a.toolCalls.filter fun tc => tc.name ≠ askUser).map ToolCall.id).Perm
          (a.toolCalls.map ToolCall.id) := by
      intro none
      have all : a.toolCalls.filter (fun tc => tc.name ≠ askUser) = a.toolCalls := by
        rw [List.filter_eq_self]
        intro tc htc
        simpa using List.filter_eq_nil_iff.mp none tc htc
      rw [all]
    split
    · rename_i interrupted
      have quiet : a.toolCalls.filter (fun tc => tc.name = askUser) = [] := by
        rw [List.filter_eq_nil_iff]
        intro tc htc asks
        exact ok.asked ⟨tc, htc, by simpa using asks⟩ interrupted
      exact ⟨_, ts, _, inert_id, by rw [plain, e], R, none quiet⟩
    · split
      · rename_i quiet
        exact ⟨_, ts, _, inert_id, by rw [plain, e], R, none quiet⟩
      · rename_i primary duplicates ask
        -- the duplicates are answered before the primary call runs
        have dups : ∃ f ts', Inert f ∧
            (if duplicates = [] then appendToolResults ms results
              else duplicates.foldl (fun messages tc => append messages (toolMessage askMergedIntoPrimary tc))
                (mergeQuestionCalls merge a.oid duplicates (appendToolResults ms results))) = ms.map f ++ ts' ∧
            Results ((a.toolCalls.filter fun tc => tc.name ≠ askUser).map ToolCall.id ++
              duplicates.map ToolCall.id) ts' := by
          split
          · rename_i alone
            subst alone
            exact ⟨_, ts, inert_id, by rw [plain, e], by simpa using R⟩
          · obtain ⟨f, inert, merged⟩ := mergeQuestionCalls_inert merge a.oid duplicates
            obtain ⟨ts', e', R'⟩ := foldl_append_results ((ms ++ ts).map f) duplicates
              fun _ => askMergedIntoPrimary
            refine ⟨f, ts.map f ++ ts', inert, ?_, Results.append ?_ R'⟩
            · rw [merged, e, e', List.map_append, List.append_assoc]
            · exact inert.results R
        obtain ⟨f, ts', inert, eq, R'⟩ := dups
        have perm := calls_perm ask
        unfold dispatchQuestion
        dsimp only
        rw [eq]
        have answer : ∀ text, Dispatched a.toolCalls ms
            (append (ms.map f ++ ts') (toolMessage text primary), .ok) := by
          intro text
          obtain ⟨t, e'', R''⟩ := append_toolMessage (ms.map f ++ ts') text primary
          exact ⟨f, ts' ++ [t], _, inert, by rw [e'', List.append_assoc], R'.append R'', perm⟩
        split
        · exact ⟨f, ts', _, inert, rfl, R', perm⟩
        · exact answer _
        · exact answer _
        · exact ⟨f, ts', _, inert, rfl, R', trivial⟩

end

/-! ## The transcript of a run -/

/-- A transcript that is well paired and, if the run compacts (`T`), in blocks. -/
structure Good (T : Prop) (ms : List ChatMessage) : Prop where
  paired : Paired ms
  blocks : T → Blocks Exchange ms

section
variable {T : Prop} {ms ts : List ChatMessage} {m a : ChatMessage} {ids : List String}
  {f : ChatMessage → ChatMessage}

/-- An inert change keeps good messages. -/
lemma Good.map (G : Good T ms) (I : Inert f) : Good T (ms.map f) where
  paired := by
    refine ⟨G.paired.whole.map I.toUnseen, ?_⟩
    have sent : messagesForLlm (ms.map f) = (messagesForLlm ms).map f := by
      rw [messagesForLlm, List.filter_map]
      congr 2
      funext m
      simp [I.excluded, I.role]
    rw [sent]
    exact G.paired.sent.map I.toUnseen
  blocks := fun t => (G.blocks t).map I.toUnseen fun {a ts} X => by
    refine ⟨I.toUnseen.answers X.toAnswers, fun t ht => ?_, fun m hm => ?_⟩
    · obtain ⟨k, hk, rfl⟩ := List.mem_map.mp ht
      rw [I.excluded, I.excluded]
      exact X.uniform k hk
    · obtain ⟨k, hk, rfl⟩ : ∃ k ∈ a :: ts, f k = m := List.mem_map.mp hm
      rw [(I.plain k).1, (I.plain k).2]
      exact X.plain k hk

/-- A message of the user, or an answer without calls. -/
lemma Good.single (G : Good T ms) (h : m.role = .user ∨ m.role = .assistant ∧ m.toolCalls = []) :
    Good T (ms ++ [m]) := by
  have plain : m.role = .assistant → m.toolCalls = [] := by
    intro role
    cases h with
    | inl user =>
      rw [role] at user
      cases user
    | inr h => exact h.2
  have close : closes m = true := by
    cases h with
    | inl user => simp [closes, user]
    | inr h => simp [closes, h.1]
  refine ⟨⟨G.paired.whole.append (by simpa using close) (wellPaired_single plain), ?_⟩,
    fun t => (G.blocks t).append (.single h .nil)⟩
  rw [messagesForLlm_append]
  cases keep : !m.excludeFromContext && decide (m.role ≠ .system) with
  | true =>
    have sent : messagesForLlm [m] = [m] := List.filter_cons_of_pos keep
    rw [sent]
    exact G.paired.sent.append (by simpa using close) (wellPaired_single plain)
  | false =>
    have sent : messagesForLlm [m] = [] := List.filter_cons_of_neg (by rw [keep]; exact Bool.false_ne_true)
    rw [sent, List.append_nil]
    exact G.paired.sent

/-- An answer of the model as the loop appends it. -/
structure Fresh (a : ChatMessage) : Prop where
  assistant : a.role = .assistant
  visible : a.excludeFromContext = false
  plain : a.extra.hiddenFromSummary = false ∧ a.isSummary = false

/-- An answer with one result for each call. -/
lemma Good.exchange (G : Good T ms) (F : Fresh a) (calls : a.toolCalls ≠ []) (R : Results ids ts)
    (named : T → ∀ tc ∈ a.toolCalls, tc.id ≠ "") (distinct : (a.toolCalls.map ToolCall.id).Nodup)
    (all : ids.Perm (a.toolCalls.map ToolCall.id)) : Good T (ms ++ a :: ts) := by
  have close : closes a = true := by simp [closes, F.assistant]
  have nodup : (ts.map ChatMessage.toolCallId).Nodup := by
    rw [R.ids]
    exact all.nodup_iff.mpr distinct
  have once : ∀ id ∈ a.toolCalls.map ToolCall.id, (ts.map ChatMessage.toolCallId).count id = 1 := by
    intro id hid
    rw [R.ids]
    exact List.count_eq_one_of_mem (all.nodup_iff.mpr distinct) (all.mem_iff.mpr hid)
  have block : WellPaired (a :: ts) := wellPaired_exchange R.tools once
  refine ⟨⟨G.paired.whole.append (by simpa using close) block, ?_⟩, fun t => (G.blocks t).append ?_⟩
  · have sent : messagesForLlm (a :: ts) = a :: ts := by
      rw [messagesForLlm, List.filter_eq_self]
      intro m hm
      cases List.mem_cons.mp hm with
      | inl e =>
        subst e
        simp [F.visible, F.assistant]
      | inr hm => simp [R.visible m hm, R.tools m hm]
    rw [messagesForLlm_append, sent]
    exact G.paired.sent.append (by simpa using close) block
  · have X : Exchange a ts := by
      refine ⟨⟨F.assistant, calls, named t, R.tools, nodup, fun id => ?_⟩, fun t ht => ?_, fun m hm => ?_⟩
      · rw [R.ids]
        exact all.mem_iff
      · rw [R.visible t ht, F.visible]
      · cases List.mem_cons.mp hm with
        | inl e => exact e ▸ F.plain
        | inr hm => exact R.plain m hm
    simpa using Blocks.exchange X .nil

end

/-! ## Runs -/

/-- The invariant of a run: everything sent was well paired, and so is the transcript. A suspended run leaves
the primary question to its placeholder. -/
structure Inv (T : Prop) (s : RunState) : Prop where
  requests : ∀ r ∈ s.requests, WellPaired r
  good : match s.status with
    | .running | .returned => Good T s.messages
    | .suspended primary => ∀ text, Good T (append s.messages (toolMessage text primary))
    | .raised => True

section
variable {T : Prop} {cfg : Config} {s s' : RunState} {it : Iteration} {a : ChatMessage}

/-- The invariant between the parts of a pass. -/
structure Going (T : Prop) (s : RunState) : Prop where
  requests : ∀ r ∈ s.requests, WellPaired r
  good : Good T s.messages
  running : s.status = .running

/-- A running loop is in order. -/
lemma Going.inv (G : Going T s) : Inv T s :=
  ⟨G.requests, by rw [G.running]; exact G.good⟩

/-- A loop that ends is in order. -/
lemma Going.finish (G : Going T s) : Inv T (s.finish .returned) :=
  ⟨G.requests, G.good⟩

/-- A loop that raises is in order. -/
lemma Going.raise (G : Going T s) : Inv T (s.finish .raised) :=
  ⟨G.requests, trivial⟩

/-- A step that touches neither the transcript nor the log. -/
lemma Going.of_eq (G : Going T s) (messages : s'.messages = s.messages) (requests : s'.requests = s.requests)
    (status : s'.status = s.status) : Going T s' :=
  ⟨requests ▸ G.requests, messages ▸ G.good, status.trans G.running⟩

/-- A system message in front. -/
lemma wellPaired_system {ms : List ChatMessage} (h : a.role = .system) (w : WellPaired ms) :
    WellPaired (a :: ms) := by
  refine ⟨fun role => ?_, w⟩
  rw [role] at h
  cases h

/-- Injected messages keep the loop in order. -/
lemma Going.inject (G : Going T s) (queued : List (Option String × Extra)) : Going T (s.inject queued) := by
  refine ⟨G.requests, ?_, G.running⟩
  have go : ∀ (queued : List (Option String × Extra)) (ms : List ChatMessage), Good T ms → Good T
      (queued.foldl (fun messages row => append messages (humanMessage (row.1.getD "") row.2)) ms) := by
    intro queued
    induction queued with
    | nil => exact fun ms G => G
    | cons row queued ih => exact fun ms G => ih _ (G.single (.inl rfl))
  exact go queued s.messages G.good

/-- A compaction sends blocks and keeps them. -/
lemma Going.summarise (G : Going T s) (compacts : T) (systemPrompt text : String) :
    Going T (s.summarise cfg systemPrompt text) := by
  have B := G.good.blocks compacts
  unfold RunState.summarise
  split
  · exact G
  · rename_i p plan
    have after : Blocks Exchange
        (summariseInner cfg.loads cfg.keepLastAssistants (newOid s.messages) text s.messages) :=
      B.summariseInner _ _
    refine ⟨fun r hr => ?_, ⟨after.paired, fun _ => after⟩, G.running⟩
    cases List.mem_append.mp hr with
    | inl old => exact G.requests r old
    | inr new =>
      rw [List.mem_singleton.mp new]
      have sent : WellPaired ((eligible s.messages).filter (fun m => m.oid ∈ p.toSummarise) ++
          [humanMessage ((if ((eligible s.messages).filter fun m => m.oid ∈ p.toSummarise).any
            ChatMessage.isSummary then mergeRequest else summariseRequest) ++ "\n\n" ++ cfg.summaryPrompt) {}]) :=
        (B.toSummarise plan).wellPaired.append (by simp [closes, humanMessage])
          (wellPaired_single (by simp [humanMessage]))
      unfold summariserMessages
      dsimp only
      rw [List.append_assoc]
      split
      · exact sent
      · exact wellPaired_system rfl sent

/-- The hooks before the model keep it. -/
lemma Going.beforeModel (G : Going T s) (compacts : it.summary.isSome → T) : Going T (s.beforeModel cfg it) := by
  have G' : Going T { s with iteration := s.iteration + 1 } := G.of_eq rfl rfl rfl
  have I := G'.inject it.queued
  unfold RunState.beforeModel
  dsimp only
  split
  · exact I
  · rename_i text e
    exact I.summarise (compacts (by simp [e])) _ _

/-- The end of an answer keeps it. -/
lemma Going.handleFinishReason (G : Going T s) (finishReason : Option String) (dropped : Bool) :
    Inv T (s.handleFinishReason finishReason dropped) := by
  unfold RunState.handleFinishReason
  split
  · exact G.inv
  · split
    · exact Going.inv ⟨G.requests, G.good.single (.inl rfl), G.running⟩
    · exact G.finish

/-- The pass from the calls of an answer on. -/
lemma Going.runTools {ms : List ChatMessage} (G : Good T ms) (requests : ∀ r ∈ s.requests, WellPaired r)
    (running : s.status = .running) (messages : s.messages = ms ++ [a]) (F : Fresh a)
    (calls : a.toolCalls ≠ []) (named : T → ∀ tc ∈ a.toolCalls, tc.id ≠ "")
    (distinct : (a.toolCalls.map ToolCall.id).Nodup)
    (settles : s.event ≠ some true → it.tools.Settles s.event a.toolCalls) :
    Inv T (s.runTools cfg it a) := by
  unfold RunState.runTools
  split
  · obtain ⟨ts, e, R⟩ := foldl_append_results (ms ++ [a]) a.toolCalls
      fun _ => "Cancelled by user."
    refine ⟨requests, ?_⟩
    show Good T (skipToolDispatchForInterrupt s.messages a.toolCalls)
    rw [skipToolDispatchForInterrupt, messages, e, List.append_assoc]
    exact G.exchange F calls R named distinct (.refl _)
  · rename_i quiet
    obtain ⟨f, ts, ids, I, e, R, cover⟩ := (dispatchTools_answers cfg.merge s.messages (settles quiet)).results
    have F' : Fresh (f a) :=
      ⟨(I.role a).trans F.assistant, (I.excluded a).trans F.visible, by
        rw [(I.plain a).1, (I.plain a).2]
        exact F.plain⟩
    -- a list of results that covers the calls completes the exchange
    have complete : ∀ {ids ts}, Results ids ts → ids.Perm (a.toolCalls.map ToolCall.id) →
        Good T (s.messages.map f ++ ts) := by
      intro ids ts R all
      rw [messages, List.map_append, List.append_assoc]
      refine (G.map I).exchange F' (mt I.toUnseen.calls_eq_nil.mp calls) R (fun t tc htc => ?_) ?_ ?_
      · have mem : tc.id ∈ a.toolCalls.map ToolCall.id := I.ids a ▸ List.mem_map_of_mem htc
        obtain ⟨tc', htc', e⟩ := List.mem_map.mp mem
        exact e ▸ named t tc' htc'
      · rw [I.ids]
        exact distinct
      · rw [I.ids]
        exact all
    dsimp only
    split
    · rename_i done
      rw [done] at cover
      exact ⟨requests, show Good T (_ : List ChatMessage × Dispatch).1 from e ▸ complete R cover⟩
    · rename_i primary done
      rw [done] at cover
      refine ⟨requests, fun text => ?_⟩
      obtain ⟨t, e', R'⟩ := append_toolMessage (s.messages.map f ++ ts) text primary
      show Good T (append (_ : List ChatMessage × Dispatch).1 (toolMessage text primary))
      rw [e, e', List.append_assoc]
      exact complete (R.append R') cover
    · exact ⟨requests, trivial⟩
    · rename_i done
      rw [done] at cover
      have good : Good T (dispatchTools cfg.merge s.event it.tools a s.messages).1 := e ▸ complete R cover
      split
      · exact ⟨requests, good⟩
      · exact Going.inv ⟨requests, good, running⟩

/-- The pass from an answer on. -/
lemma Going.answer (G : Going T s) (F : Fresh a) (named : T → ∀ tc ∈ a.toolCalls, tc.id ≠ "")
    (distinct : (a.toolCalls.map ToolCall.id).Nodup)
    (settles : s.event ≠ some true → it.tools.Settles s.event a.toolCalls) (finishReason : Option String)
    (dropped : Bool) : Inv T (s.answer cfg it a finishReason dropped) := by
  unfold RunState.answer
  dsimp only
  split
  · exact Going.inv (G.of_eq rfl rfl rfl)
  · exact Going.raise (G.of_eq rfl rfl rfl)
  · have F' : Fresh { a with oid := newOid s.messages } := ⟨F.assistant, F.visible, F.plain⟩
    split
    · rename_i none
      have good := G.good.single (m := { a with oid := newOid s.messages }) (.inr ⟨F.assistant, none⟩)
      apply Going.handleFinishReason
      exact ⟨G.requests, good, G.running⟩
    · rename_i some
      exact Going.runTools G.good G.requests G.running rfl F' some named distinct settles

/-- The pass from the request on. -/
lemma Going.callModel (G : Going T s) (named : T → it.Named)
    (orderly : ∀ content reasoningContent calls finishReason dropped,
      it.call = .answered content reasoningContent calls finishReason dropped →
      (calls.map ToolCall.id).Nodup ∧ (fire it.interruptedCall s.event ≠ some true →
        it.tools.Settles (fire it.interruptedCall s.event) calls)) :
    Inv T (s.callModel cfg it) := by
  have sent : ∀ r ∈ s.requests ++ [providerMessages it.systemPrompt (messagesForLlm s.messages)],
      WellPaired r := by
    intro r hr
    cases List.mem_append.mp hr with
    | inl old => exact G.requests r old
    | inr new =>
      rw [List.mem_singleton.mp new]
      exact mergeFrom_wellPaired (wellPaired_system rfl G.good.paired.sent)
  have G' : Going T { s with
      requests := s.requests ++ [providerMessages it.systemPrompt (messagesForLlm s.messages)]
      event := fire it.interruptedCall s.event } := ⟨sent, G.good, G.running⟩
  unfold RunState.callModel
  dsimp only
  split
  · exact G'.raise
  · unfold RunState.resume
    dsimp only
    split
    · exact Going.raise (G'.of_eq rfl rfl rfl)
    · split
      · exact Going.finish (G'.of_eq rfl rfl rfl)
      · exact Going.inv (G'.of_eq rfl rfl rfl)
  · rename_i content reasoningContent calls finishReason dropped e
    obtain ⟨distinct, settles⟩ := orderly _ _ _ _ _ e
    exact G'.answer ⟨rfl, rfl, rfl, rfl⟩ (fun t => named t _ _ _ _ _ e) distinct settles finishReason dropped

/-- An orderly pass keeps the invariant. -/
lemma Inv.iterate (I : Inv T s) (running : s.status = .running) (orderly : Orderly s it)
    (compacts : it.summary.isSome → T) (named : T → it.Named) : Inv T (s.iterate cfg it) := by
  have G : Going T s := ⟨I.requests, by have h := I.good; rwa [running] at h, running⟩
  unfold RunState.iterate
  split
  · exact G.finish
  · dsimp only
    have G' : Going T { s with event := fire it.interruptedBefore s.event } := G.of_eq rfl rfl rfl
    split
    · exact G'.finish
    · have B : Going T (RunState.beforeModel cfg it _) := G'.beforeModel compacts
      split
      · exact B.finish
      · refine B.callModel named ?_
        have event : ∀ s : RunState, (s.beforeModel cfg it).event = s.event := by
          intro s
          unfold RunState.beforeModel RunState.summarise
          dsimp only
          split
          · rfl
          · split <;> rfl
        rw [event]
        exact orderly

end

/-- Every tool call is answered: in an orderly run on a well paired history every request is well paired, and so
is the list the run returns, with the placeholder of the question if it is suspended. If the run compacts, its
history is in blocks and the calls have ids. -/
theorem every_call_answered {cfg : Config} {history : List ChatMessage} {event : Option Bool}
    {its : List Iteration} {s : RunState} (start : Paired history)
    (tidy : (∃ it ∈ its, it.summary.isSome) →
      Blocks Exchange (history.filter fun m => m.role ≠ .system) ∧ ∀ it ∈ its, it.Named)
    (rn : Run (Guarded Orderly (Step cfg)) (.setup history event) its s) :
    (∀ r ∈ s.requests, WellPaired r) ∧
      match s.status with
      | .running | .returned => Paired s.messages
      | .suspended primary => ∀ text, Paired (append s.messages (toolMessage text primary))
      | .raised => True := by
  let T : Prop := ∃ it ∈ its, it.summary.isSome
  have I : Inv T (.setup history event) := by
    refine ⟨by simp [RunState.setup], ?_, fun t => (tidy t).1⟩
    refine ⟨start.whole.filter fun m h => by simpa using h, ?_⟩
    have sent : messagesForLlm (history.filter fun m => m.role ≠ .system) = messagesForLlm history := by
      rw [messagesForLlm, List.filter_filter]
      exact List.filter_congr fun m _ => by simp
    show WellPaired (messagesForLlm (history.filter fun m => m.role ≠ .system))
    rw [sent]
    exact start.sent
  have all : ∀ it ∈ its, (it.summary.isSome → T) ∧ (T → it.Named) :=
    fun it mem => ⟨fun h => ⟨it, mem, h⟩, fun t => (tidy t).2 it mem⟩
  have I' : Inv T s := by
    refine (rn.meet all).invariant (I := Inv T) I ?_
    intro s it s' I st
    obtain ⟨⟨orderly, compacts, named⟩, st⟩ := st
    cases st with
    | pass running => exact I.iterate running orderly compacts named
  refine ⟨I'.requests, ?_⟩
  have good := I'.good
  cases status : s.status with
  | running =>
    rw [status] at good
    exact good.paired
  | returned =>
    rw [status] at good
    exact good.paired
  | suspended primary =>
    rw [status] at good
    exact fun text => (good text).paired
  | raised => trivial

/-- A run that keeps the last answer. -/
def keepsOne : Config where
  loads := fun _ => none
  merge := fun arguments _ => arguments
  keepLastAssistants := 1

/-- The message that starts the turn. -/
def hello : ChatMessage where
  oid := 0
  role := .user
  content := some "hello"

/-- A shell call. -/
def shellCall : ToolCall where
  id := "c1"
  name := "shell"
  arguments := "\x7b\x7d"

/-- A question to the user. -/
def askCall : ToolCall where
  id := "c2"
  name := askUser
  arguments := "\x7b\x7d"

/-- A pass that runs the shell. -/
def runsShell : Iteration where
  call := .answered none none [shellCall] (some "tool_calls") false

/-- A pass that runs the shell and asks the user, with an interrupt while the shell runs or without. Before
it the run may compact. -/
def asksUser (summary : Option String) (interrupted : Bool) : Iteration where
  summary
  call := .answered none none [askCall, shellCall] (some "tool_calls") false
  tools := { interrupted }

/-- A run with a compaction that ends with a question. -/
theorem every_call_answered_suspended :
    ∃ s, Run (Guarded Orderly (Step keepsOne)) (.setup [hello] (some false)) [runsShell, asksUser (some "so far") false] s ∧
      s.requests.length = 3 ∧ ((∀ r ∈ s.requests, WellPaired r) ∧
        match s.status with
        | .running | .returned => Paired s.messages
        | .suspended primary => ∀ text, Paired (append s.messages (toolMessage text primary))
        | .raised => True) := by
  have orderly : ∀ s : RunState, s.event = some false → Orderly s runsShell ∧ Orderly s (asksUser (some "so far") false) := by
    intro s event
    constructor
    · intro content reasoningContent calls finishReason dropped e
      cases e
      exact ⟨by decide, fun _ => ⟨fun _ _ _ => trivial, fun ⟨tc, mem, asks⟩ => by
        rw [List.mem_singleton.mp mem] at asks
        exact absurd asks (by decide)⟩⟩
    · intro content reasoningContent calls finishReason dropped e
      cases e
      refine ⟨by decide, fun _ => ⟨fun _ _ _ => trivial, fun _ => ?_⟩⟩
      rw [event]
      decide
  have rn : ∃ s, Run (Guarded Orderly (Step keepsOne)) (.setup [hello] (some false))
      [runsShell, asksUser (some "so far") false] s ∧ s.requests.length = 3 :=
    ⟨_, .cons ⟨(orderly _ rfl).1, .pass rfl⟩ (.cons ⟨(orderly _ rfl).2, .pass rfl⟩ .nil), by decide⟩
  obtain ⟨s, rn, sent⟩ := rn
  refine ⟨s, rn, sent, every_call_answered ?_ (fun _ => ⟨.single (.inl rfl) .nil, ?_⟩) rn⟩
  · exact ⟨⟨fun h => (nomatch h), trivial⟩, ⟨fun h => (nomatch h), trivial⟩⟩
  · intro it mem content reasoningContent calls finishReason dropped e tc htc
    cases List.mem_cons.mp mem with
    | inl h =>
      subst h
      cases e
      revert tc
      decide
    | inr h =>
      obtain rfl := List.mem_singleton.mp h
      cases e
      revert tc
      decide

/-- The interrupt comes while the shell runs: the question that was held back gets no result. -/
theorem interrupt_drops_question :
    Paired [hello] ∧ ∃ s, Run (Step keepsOne) (.setup [hello] (some false)) [asksUser none true] s ∧
      s.status = .returned ∧ ¬ Paired s.messages := by
  refine ⟨⟨⟨fun h => (nomatch h), trivial⟩, ⟨fun h => (nomatch h), trivial⟩⟩, _, .single (.pass rfl), rfl, ?_⟩
  intro paired
  have h := paired.whole.2.1 rfl "c2" (by decide)
  revert h
  decide

end OpenAgentd.Loop
