import OpenAgentd.Loop.Pairing

/-!
# Transcripts in blocks

A compaction cuts at the exchanges. For it the transcript has to be a sequence of single messages and
exchanges in one piece (`Blocks`), a form the loop keeps. What a plan compacts or retains it takes by whole
exchanges (`compactionPlan_closed`), so the summary goes between two blocks (`Blocks.applySummary`) and what
the summariser is sent is in blocks too (`Blocks.toSummarise`).
-/

namespace OpenAgentd.Loop
open OpenAgentd.Store OpenAgentd.Transcript

/-- A transcript of single messages and exchanges with the property `P`. -/
inductive Blocks (P : ChatMessage → List ChatMessage → Prop) : List ChatMessage → Prop where
  | nil :
    Blocks P []
  | single {m ms} :
    (m.role = .user ∨ m.role = .assistant ∧ m.toolCalls = []) →
    Blocks P ms →
    Blocks P (m :: ms)
  | exchange {a ts ms} :
    P a ts →
    Blocks P ms →
    Blocks P (a :: (ts ++ ms))

/-- A complete exchange, in the window as a whole or not at all, and plain. -/
structure Exchange (a : ChatMessage) (ts : List ChatMessage) : Prop extends Answers a ts where
  uniform : ∀ t ∈ ts, t.excludeFromContext = a.excludeFromContext
  plain : ∀ m ∈ a :: ts, m.extra.hiddenFromSummary = false ∧ m.isSummary = false

section
variable {P Q : ChatMessage → List ChatMessage → Prop} {ms ms' ts : List ChatMessage}
  {a t : ChatMessage} {q : ChatMessage → Bool}

/-- Blocks one after the other. -/
lemma Blocks.append (B : Blocks P ms) (B' : Blocks P ms') : Blocks P (ms ++ ms') := by
  induction B with
  | nil => exact B'
  | single h _ ih => exact .single h ih
  | exchange h _ ih =>
    rw [List.cons_append, List.append_assoc]
    exact .exchange h ih

/-- A property of the exchanges that follows from another one for the messages of the transcript. -/
lemma Blocks.imp (B : Blocks P ms)
    (h : ∀ {a ts}, P a ts → a ∈ ms → (∀ t ∈ ts, t ∈ ms) → Q a ts) : Blocks Q ms := by
  induction B with
  | nil => exact .nil
  | single k _ ih =>
    exact .single k (ih fun e ha ht => h e (List.mem_cons_of_mem _ ha) fun t m => List.mem_cons_of_mem _ (ht t m))
  | exchange e _ ih =>
    refine .exchange (h e List.mem_cons_self fun t m => ?_) (ih fun e ha ht => ?_)
    · exact List.mem_cons_of_mem _ (List.mem_append_left _ m)
    · exact h e (List.mem_cons_of_mem _ (List.mem_append_right _ ha))
        fun t m => List.mem_cons_of_mem _ (List.mem_append_right _ (ht t m))

/-- A change that keeps single messages and exchanges. -/
lemma Blocks.map {f : ChatMessage → ChatMessage} (B : Blocks P ms) (u : Unseen f)
    (all : ∀ {a ts}, P a ts → Q (f a) (ts.map f)) : Blocks Q (ms.map f) := by
  induction B with
  | nil => exact .nil
  | @single m _ k _ ih =>
    refine .single ?_ ih
    rw [u.role]
    exact k.imp_right fun plain => ⟨plain.1, u.calls_eq_nil.mpr plain.2⟩
  | exchange e _ ih =>
    rw [List.map_cons, List.map_append]
    exact .exchange (all e) ih

/-- A filter that takes the exchanges as a whole. -/
lemma Blocks.filter (B : Blocks P ms) (whole : ∀ {a ts}, P a ts → ∀ t ∈ ts, q t = q a) :
    Blocks P (ms.filter q) := by
  induction B with
  | nil => exact .nil
  | @single m _ k _ ih =>
    cases keep : q m with
    | true =>
      rw [List.filter_cons_of_pos keep]
      exact .single k ih
    | false =>
      rw [List.filter_cons_of_neg (by simp [keep])]
      exact ih
  | @exchange a ts _ e _ ih =>
    cases keep : q a with
    | true =>
      have same : ts.filter q = ts := List.filter_eq_self.mpr fun t ht => (whole e t ht).trans keep
      rw [List.filter_cons_of_pos keep, List.filter_append, same]
      exact .exchange e ih
    | false =>
      have gone : ts.filter q = [] := by
        rw [List.filter_eq_nil_iff]
        intro t ht
        simp [whole e t ht, keep]
      rw [List.filter_cons_of_neg (by simp [keep]), List.filter_append, gone]
      exact ih

/-- Blocks begin with a closing message. -/
lemma Blocks.head (B : Blocks P ms) (h : ∀ {a ts}, P a ts → a.role = .assistant) :
    ∀ m ∈ ms.head?, closes m = true := by
  intro m hm
  cases B with
  | nil => cases hm
  | single k _ =>
    cases hm
    cases k with
    | inl user => simp [closes, user]
    | inr plain => simp [closes, plain.1]
  | exchange e _ =>
    cases hm
    simp [closes, h e]

/-! ## Blocks are well paired -/

/-- An exchange is well paired. -/
lemma Exchange.wellPaired (X : Exchange a ts) : WellPaired (a :: ts) :=
  wellPaired_exchange X.tools fun id hid => List.count_eq_one_of_mem X.once ((X.ids id).mpr hid)

/-- Exchanges are well paired. -/
lemma Blocks.wellPaired (B : Blocks Exchange ms) : WellPaired ms := by
  induction B with
  | nil => trivial
  | single k _ ih =>
    refine ⟨fun role id hid => ?_, ih⟩
    cases k with
    | inl user =>
      rw [role] at user
      cases user
    | inr plain =>
      rw [plain.2] at hid
      cases hid
  | exchange X B ih => exact WellPaired.append (B.head fun X => X.assistant) X.wellPaired ih

/-- A window of blocks. -/
lemma Blocks.sent (B : Blocks Exchange ms) : Blocks Exchange (messagesForLlm ms) := by
  refine B.filter fun X t ht => ?_
  rw [X.uniform t ht, X.tools t ht, X.assistant]
  rfl

/-- Exchanges are paired. -/
lemma Blocks.paired (B : Blocks Exchange ms) : Paired ms :=
  ⟨B.wellPaired, B.sent.wellPaired⟩

/-! ## What a compaction takes -/

/-- `t` carries the id of a call of `a`. -/
structure Linked (a t : ChatMessage) : Prop where
  assistant : a.role = .assistant
  tool : t.role = .tool
  named : t.toolCallId ≠ ""
  call : t.toolCallId ∈ a.toolCalls.map ToolCall.id

/-- Results are linked to their call. -/
lemma Exchange.linked (X : Exchange a ts) (ht : t ∈ ts) : Linked a t := by
  have call := (X.ids _).mp (List.mem_map_of_mem ht)
  obtain ⟨tc, htc, e⟩ := List.mem_map.mp call
  exact ⟨X.assistant, X.tools t ht, e ▸ X.named tc htc, call⟩

/-- A round takes the other side of what is taken. -/
lemma related_subset_expandPass {m : ChatMessage} {e : Finset Nat} (hm : m ∈ ms) (h : m.oid ∈ e) :
    related ms m ⊆ expandPass ms e := by
  have go : ∀ (l : List ChatMessage) (e : Finset Nat), m ∈ l → m.oid ∈ e →
      related ms m ⊆ l.foldl (fun e m => if m.oid ∈ e then e ∪ related ms m else e) e := by
    have grow : ∀ (l : List ChatMessage) (e : Finset Nat),
        e ⊆ l.foldl (fun e m => if m.oid ∈ e then e ∪ related ms m else e) e := by
      intro l
      induction l with
      | nil => exact fun e => Finset.Subset.refl e
      | cons k l ih =>
        intro e
        refine Finset.Subset.trans ?_ (ih _)
        dsimp only
        split
        · exact Finset.subset_union_left
        · exact Finset.Subset.refl e
    intro l
    induction l with
    | nil =>
      intro e hm
      cases hm
    | cons k l ih =>
      intro e hm h
      rw [List.foldl_cons]
      cases List.mem_cons.mp hm with
      | inl here =>
        subst here
        rw [if_pos h]
        exact Finset.Subset.trans Finset.subset_union_right (grow l _)
      | inr later =>
        refine ih _ later ?_
        split
        · exact Finset.mem_union_left _ h
        · exact h
  exact go ms e hm h

/-- The expansion takes both sides of a call or none. -/
lemma expandToolPairIds_linked {e : Finset Nat} (ha : a ∈ ms) (ht : t ∈ ms) (l : Linked a t) :
    a.oid ∈ expandToolPairIds ms e ↔ t.oid ∈ expandToolPairIds ms e := by
  obtain ⟨tc, htc, id⟩ := List.mem_map.mp l.call
  have any : a.toolCalls.any (fun tc => tc.id = t.toolCallId) = true :=
    List.any_eq_true.mpr ⟨tc, htc, by simp [id]⟩
  have step : ∀ {m}, m ∈ ms → m.oid ∈ expandToolPairIds ms e →
      related ms m ⊆ expandToolPairIds ms e := by
    intro m hm h
    have sub := related_subset_expandPass hm h
    rwa [expandToolPairIds_fixed] at sub
  constructor
  · intro h
    refine step ha h ?_
    rw [related, l.assistant]
    refine List.mem_toFinset.mpr (List.mem_map_of_mem (List.mem_filter.mpr ⟨ht, ?_⟩))
    simp [l.tool, l.named, any]
  · intro h
    refine step ht h ?_
    rw [related, l.tool]
    refine List.mem_toFinset.mpr (List.mem_map_of_mem (List.mem_filter.mpr ⟨ha, ?_⟩))
    simp [l.assistant, l.named, any]

/-- Ids of the filtered messages. -/
lemma mem_oidSet_filter {ids : Finset Nat} (ha : a ∈ ms) :
    a.oid ∈ oidSet (ms.filter fun m => m.oid ∈ ids) ↔ a.oid ∈ ids := by
  simp only [oidSet, List.mem_toFinset, List.mem_map, List.mem_filter, decide_eq_true_eq]
  constructor
  · rintro ⟨k, ⟨-, h⟩, e⟩
    rwa [← e]
  · exact fun h => ⟨a, ⟨ha, h⟩, rfl⟩

/-- A plan compacts and retains both sides of a call or none. -/
theorem compactionPlan_closed {loads : String → Option Json} {keepLast : Nat} {p : Plan}
    (h : compactionPlan loads keepLast ms = some p) (ha : a ∈ eligible ms) (ht : t ∈ eligible ms)
    (l : Linked a t) : (a.oid ∈ p.toSummarise ↔ t.oid ∈ p.toSummarise) ∧
      (a.oid ∈ p.retained ↔ t.oid ∈ p.retained) := by
  have skills : ∀ {ids}, skillToolPairIds loads (eligible ms) = some ids → (a.oid ∈ ids ↔ t.oid ∈ ids) := by
    intro ids e
    simp only [skillToolPairIds, Option.bind_eq_bind, Option.bind_eq_some_iff] at e
    obtain ⟨st, -, e⟩ := e
    split at e
    · cases e
      simp
    · cases e
      exact expandToolPairIds_linked ha ht l
  simp only [compactionPlan] at h
  split at h
  · cases h
  · simp only [Option.bind_eq_bind, Option.bind_eq_some_iff] at h
    obtain ⟨retained, e, h⟩ := h
    generalize (if findAssistantCutoff (eligible ms) keepLast > 0 then
      (eligible ms).take (findAssistantCutoff (eligible ms) keepLast) else eligible ms) = seed at h
    split at h
    · cases h
    · cases h
      refine ⟨?_, skills e⟩
      rw [mem_oidSet_filter ha, mem_oidSet_filter ht]
      exact expandToolPairIds_linked ha ht l

end

/-! ## Compaction of blocks -/

section
variable {ms l : List ChatMessage} {q : ChatMessage → Bool}

/-- The members behind the last one with the property `q`. -/
def dropThrough (q : ChatMessage → Bool) (ms : List ChatMessage) : List ChatMessage :=
  ms.drop (afterLast q ms)

/-- The dropping goes on behind a part. -/
lemma dropThrough_of_any (h : ms.any q = true) : dropThrough q (l ++ ms) = dropThrough q ms := by
  induction l with
  | nil => rfl
  | cons m l ih =>
    have any : (l ++ ms).any q = true := by rw [List.any_append, h, Bool.or_true]
    rw [List.cons_append, dropThrough, afterLast, if_pos any, List.drop_succ_cons]
    exact ih

/-- Nothing to drop. -/
lemma dropThrough_of_none (h : ms.any q = false) : dropThrough q ms = ms := by
  rw [dropThrough, afterLast_eq_zero.mpr h]
  rfl

/-- All of a part is dropped. -/
lemma dropThrough_of_all (h : ms.any q = false) (all : ∀ m ∈ l, q m = true) : dropThrough q (l ++ ms) = ms := by
  induction l with
  | nil => exact dropThrough_of_none h
  | cons m l ih =>
    have ih := ih fun k hk => all k (List.mem_cons_of_mem _ hk)
    rw [List.cons_append, dropThrough, afterLast]
    split
    · exact ih
    · rename_i none
      rw [dropThrough_of_none (Bool.not_eq_true _ ▸ none)] at ih
      rw [if_pos (all m List.mem_cons_self)]
      exact ih

/-- A cut behind the last message with a property that exchanges share is a cut between blocks. -/
lemma Blocks.cut {P : ChatMessage → List ChatMessage → Prop} (B : Blocks P ms)
    (whole : ∀ {a ts}, P a ts → ∀ t ∈ ts, q t = q a) :
    ∃ head, ms = head ++ dropThrough q ms ∧ Blocks P head ∧ Blocks P (dropThrough q ms) := by
  induction B with
  | nil => exact ⟨[], rfl, .nil, .nil⟩
  | @single m ms k B ih =>
    obtain ⟨head, e, H, T⟩ := ih
    cases any : ms.any q with
    | true =>
      rw [show dropThrough q (m :: ms) = dropThrough q ms from dropThrough_of_any (l := [m]) any]
      exact ⟨m :: head, congrArg (m :: ·) e, .single k H, T⟩
    | false =>
      cases here : q m with
      | true =>
        rw [show dropThrough q (m :: ms) = ms from dropThrough_of_all (l := [m]) any (by simpa using here)]
        exact ⟨[m], rfl, .single k .nil, B⟩
      | false =>
        rw [dropThrough_of_none (by simp [here, any])]
        exact ⟨[], rfl, .nil, .single k B⟩
  | @exchange a ts ms X B ih =>
    obtain ⟨head, e, H, T⟩ := ih
    have cons : a :: (ts ++ ms) = (a :: ts) ++ ms := rfl
    cases any : ms.any q with
    | true =>
      rw [cons, dropThrough_of_any any]
      refine ⟨a :: (ts ++ head), ?_, .exchange X H, T⟩
      conv_lhs => rw [e]
      simp
    | false =>
      cases here : q a with
      | true =>
        have all : ∀ m ∈ a :: ts, q m = true := by
          intro m hm
          cases List.mem_cons.mp hm with
          | inl e => rw [e, here]
          | inr hm => rw [whole X m hm, here]
        rw [cons, dropThrough_of_all any all]
        refine ⟨a :: (ts ++ []), by simp, .exchange X .nil, B⟩
      | false =>
        have none : (a :: (ts ++ ms)).any q = false := by
          rw [List.any_cons, List.any_append, here, any, Bool.or_false, Bool.false_or, List.any_eq_false]
          intro t ht
          simp [whole X t ht, here]
        rw [dropThrough_of_none none]
        exact ⟨[], rfl, .nil, .exchange X B⟩

end

section
variable {loads : String → Option Json} {keepLast : Nat} {p : Plan} {ms ts : List ChatMessage}
  {a t : ChatMessage}

/-- The flags of an exchange that a plan takes as a whole. -/
structure Taken (p : Plan) (a : ChatMessage) (ts : List ChatMessage) : Prop extends Exchange a ts where
  same : a.excludeFromContext = true ∨ ∀ t ∈ ts,
    (a.oid ∈ p.toSummarise ↔ t.oid ∈ p.toSummarise) ∧ (a.oid ∈ p.retained ↔ t.oid ∈ p.retained)

/-- A visible exchange is eligible. -/
lemma Exchange.eligible (X : Exchange a ts) (here : a ∈ ms) (there : ∀ t ∈ ts, t ∈ ms)
    (out : a.excludeFromContext = false) : ∀ m ∈ a :: ts, m ∈ eligible ms := by
  intro m hm
  refine List.mem_filter.mpr ?_
  have plain := (X.plain m hm).1
  cases List.mem_cons.mp hm with
  | inl e =>
    subst e
    exact ⟨here, by simp [out, plain, X.assistant]⟩
  | inr hm => exact ⟨there m hm, by simp [X.uniform m hm, out, plain, X.tools m hm]⟩

/-- A plan takes exchanges whole. -/
lemma Blocks.taken (B : Blocks Exchange ms) (h : compactionPlan loads keepLast ms = some p) :
    Blocks (Taken p) ms := by
  refine B.imp fun {a ts} X here there => ⟨X, ?_⟩
  cases out : a.excludeFromContext with
  | true => exact .inl rfl
  | false =>
    have mem := X.eligible here there out
    refine .inr fun t ht => ?_
    exact compactionPlan_closed h (mem a List.mem_cons_self) (mem t (List.mem_cons_of_mem _ ht)) (X.linked ht)

/-- Results are flagged as their call. -/
lemma Taken.flag_excluded (T : Taken p a ts) (ht : t ∈ ts) :
    (p.flag t).excludeFromContext = (p.flag a).excludeFromContext := by
  rw [Plan.flag_excluded, Plan.flag_excluded, T.uniform t ht,
    (T.plain t (List.mem_cons_of_mem _ ht)).2, (T.plain a List.mem_cons_self).2]
  cases T.same with
  | inl out => simp [out]
  | inr same => simp [(same t ht).1, (same t ht).2]

/-- Results are covered with their call. -/
lemma Taken.covers (T : Taken p a ts) (ht : t ∈ ts) : p.covers t = p.covers a := by
  rw [Plan.covers, Plan.covers, T.uniform t ht, (T.plain t (List.mem_cons_of_mem _ ht)).2,
    (T.plain a List.mem_cons_self).2]
  cases T.same with
  | inl out => simp [out]
  | inr same => simp [(same t ht).1, (same t ht).2]

/-- Pairing does not see the flags. -/
lemma unseen_flag (p : Plan) : Unseen fun m => pinKept (p.flag m) where
  role := fun m => by unfold pinKept Plan.flag; split_ifs <;> rfl
  toolCallId := fun m => by unfold pinKept Plan.flag; split_ifs <;> rfl
  ids := fun m => by unfold pinKept Plan.flag; split_ifs <;> rfl

/-- The flags keep what else is read. -/
lemma plain_flag (p : Plan) (m : ChatMessage) :
    (pinKept (p.flag m)).extra.hiddenFromSummary = m.extra.hiddenFromSummary ∧
      (pinKept (p.flag m)).isSummary = m.isSummary := by
  unfold pinKept Plan.flag
  split_ifs <;> exact ⟨rfl, rfl⟩

/-- Pinning keeps the exclusion. -/
lemma pinKept_excluded (m : ChatMessage) : (pinKept m).excludeFromContext = m.excludeFromContext := by
  unfold pinKept
  split <;> rfl

/-- A flagged exchange is an exchange. -/
lemma Taken.flagged (T : Taken p a ts) :
    Exchange (pinKept (p.flag a)) (ts.map fun m => pinKept (p.flag m)) := by
  refine ⟨(unseen_flag p).answers T.toAnswers, fun t ht => ?_, fun m hm => ?_⟩
  · obtain ⟨k, hk, rfl⟩ := List.mem_map.mp ht
    rw [pinKept_excluded, pinKept_excluded]
    exact T.flag_excluded hk
  · obtain ⟨k, hk, rfl⟩ : ∃ k ∈ a :: ts, pinKept (p.flag k) = m := List.mem_map.mp hm
    rw [(plain_flag p k).1, (plain_flag p k).2]
    exact T.plain k hk

/-- A compaction keeps the blocks. -/
theorem Blocks.applySummary (B : Blocks Exchange ms) (h : compactionPlan loads keepLast ms = some p)
    (oid : Nat) (text : String) : Blocks Exchange (p.applySummary oid text ms) := by
  have T := B.taken h
  obtain ⟨head, e, H, K⟩ := T.cut (q := p.covers) fun T _ ht => T.covers ht
  obtain ⟨head', e', eq⟩ := p.applySummary_eq ms oid text
  have same : head' = head := by
    have h := e.symm.trans e'
    exact (List.append_cancel_right h).symm
  subst same
  rw [eq]
  refine .append ?_ (.single (.inl rfl) ?_)
  · exact H.map (unseen_flag p) fun T => T.flagged
  · exact K.imp fun T _ _ => T.toExchange

/-- A compaction keeps the blocks, whatever the summariser says. -/
theorem Blocks.summariseInner (B : Blocks Exchange ms) (oid : Nat) (text : String) :
    Blocks Exchange (summariseInner loads keepLast oid text ms) := by
  unfold Transcript.summariseInner
  split
  · exact B
  · rename_i p h
    split
    · exact B
    · exact B.applySummary h oid text

/-- The summariser is sent blocks. -/
theorem Blocks.toSummarise (B : Blocks Exchange ms) (h : compactionPlan loads keepLast ms = some p) :
    Blocks Exchange ((eligible ms).filter fun m => m.oid ∈ p.toSummarise) := by
  have E : Blocks Exchange (eligible ms) := by
    refine B.filter fun X t ht => ?_
    rw [X.uniform t ht, X.tools t ht, X.assistant, (X.plain t (List.mem_cons_of_mem _ ht)).1,
      (X.plain _ List.mem_cons_self).1]
    rfl
  have T : Blocks (fun a ts => Exchange a ts ∧ ∀ t ∈ ts, a.oid ∈ p.toSummarise ↔ t.oid ∈ p.toSummarise)
      (eligible ms) :=
    E.imp fun X here there => ⟨X, fun t ht => (compactionPlan_closed h here (there t ht) (X.linked ht)).1⟩
  refine (T.filter fun T t ht => ?_).imp fun T _ _ => T.1
  exact decide_eq_decide.mpr (T.2 t ht).symm

end

end OpenAgentd.Loop
