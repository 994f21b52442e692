import OpenAgentd.Loop.Blocks
import OpenAgentd.Store.Sanitized

/-!
# Compaction of any valid transcript

`_summarise_inner` on a transcript of which only the visible part is known to be well paired (`Compactable`). The
plan takes exchanges as a whole, so what stays visible is well paired and the summary goes between two exchanges,
unless an excluded message stands inside one: the summary goes behind the last excluded message
(`Compactable.compacted`).
-/

namespace OpenAgentd.Loop
open OpenAgentd.Store OpenAgentd.Transcript

/-- `_summarise_inner` with what comes of the call of the summariser: an exception, or a text. -/
def summarise (loads : String → Option Json) (keepLast oid : Nat) (outcome : Option String)
    (messages : List ChatMessage) : List ChatMessage :=
  match outcome with
  | none => messages
  | some text => summariseInner loads keepLast oid text messages

/-! ## Skill loads -/

/-- The tool calls of the assistant, each with its message. -/
def callsOf (ms : List ChatMessage) : List (ChatMessage × ToolCall) :=
  ms.flatMap fun m => if m.role = .assistant then m.toolCalls.map fun tc => (m, tc) else []

/-- The call loads the skill. -/
structure Loads (loads : String → Option Json) (skill : String) (tc : ToolCall) : Prop where
  id : tc.id ≠ ""
  name : tc.name = "skill"
  nonempty : skill ≠ ""
  arguments : ∃ get, loads (if tc.arguments = "" then "\x7b\x7d" else tc.arguments) = some (.dict get) ∧
    get "skill_name" = some skill

/-- The first call that loads the skill. -/
def FirstLoad (loads : String → Option Json) (ms : List ChatMessage) (skill : String) (a : ChatMessage)
    (tc : ToolCall) : Prop :=
  ∃ before behind, callsOf ms = before ++ (a, tc) :: behind ∧ Loads loads skill tc ∧
    ∀ c ∈ before, ¬ Loads loads skill c.2

section
variable {loads : String → Option Json} {ms : List ChatMessage} {a m : ChatMessage} {tc : ToolCall}
  {st st' : SkillScan} {skill : String} {cs : List (ChatMessage × ToolCall)}

/-- One call of the scan, with its message. -/
def scanCall (loads : String → Option Json) (st : SkillScan) (c : ChatMessage × ToolCall) : Option SkillScan :=
  scanSkillCall loads c.1 st c.2

/-- The scan goes through the calls. -/
lemma scan_eq : ms.foldlM (fun st m =>
      if m.role = .assistant then m.toolCalls.foldlM (scanSkillCall loads m) st else some st) st =
    (callsOf ms).foldlM (scanCall loads) st := by
  induction ms generalizing st with
  | nil => rfl
  | cons m ms ih =>
    rw [callsOf, List.flatMap_cons, List.foldlM_append, List.foldlM_cons]
    simp only [ih]
    split
    · rw [List.foldlM_map]
      rfl
    · rfl

/-- What one call adds. -/
structure Scanned (loads : String → Option Json) (st st' : SkillScan) (c : ChatMessage × ToolCall) : Prop where
  calls : st.calls ⊆ st'.calls
  ids : st.ids ⊆ st'.ids
  seen : ∀ skill ∈ st'.seen, skill ∈ st.seen ∨ Loads loads skill c.2
  load : ∀ skill, Loads loads skill c.2 → skill ∉ st.seen → c.2.id ∈ st'.calls ∧ c.1.oid ∈ st'.ids
  only : ∀ o ∈ st'.ids, o ∈ st.ids ∨ o = c.1.oid

/-- What the scan of a call does. -/
lemma scanned {c : ChatMessage × ToolCall} (h : scanCall loads st c = some st') : Scanned loads st st' c := by
  have same : ∀ {st : SkillScan}, (∀ skill, Loads loads skill c.2 → skill ∈ st.seen) → Scanned loads st st c :=
    fun none => ⟨List.Subset.refl _, Finset.Subset.refl _, fun _ => .inl, fun _ l out => absurd (none _ l) out,
      fun _ => .inl⟩
  unfold scanCall scanSkillCall at h
  split at h
  · rename_i skip
    cases h
    refine same fun skill l => ?_
    have out : ¬(c.2.id = "" || decide (c.2.name ≠ "skill")) = true := by simp [l.id, l.name]
    exact absurd skip out
  · rename_i here
    split at h
    · rename_i e
      cases h
      refine same fun skill l => ?_
      obtain ⟨get, e', -⟩ := l.arguments
      cases e.symm.trans e'
    · cases h
    · rename_i get e
      split at h
      · rename_i e'
        cases h
        refine same fun skill l => ?_
        obtain ⟨get', eq, name⟩ := l.arguments
        cases e.symm.trans eq
        cases e'.symm.trans name
      · rename_i skill e'
        have only : ∀ skill', Loads loads skill' c.2 → skill' = skill := by
          intro skill' l
          obtain ⟨get', eq, name⟩ := l.arguments
          cases e.symm.trans eq
          exact Option.some.inj (name.symm.trans e')
        split at h
        · rename_i known
          cases h
          refine same fun skill' l => ?_
          cases only skill' l
          simpa [l.nonempty] using known
        · rename_i fresh
          cases h
          have load : Loads loads skill c.2 := by
            refine ⟨?_, ?_, fun e => fresh (by simp [e]), get, e, e'⟩
            · intro e
              exact here (by simp [e])
            · by_contra ne
              exact here (by simp [ne])
          constructor
          case calls => exact List.subset_cons_self _ _
          case ids => exact Finset.subset_insert _ _
          case seen =>
            intro skill' h
            cases List.mem_cons.mp h with
            | inl e => exact .inr (e ▸ load)
            | inr h => exact .inl h
          case load => exact fun _ _ _ => ⟨List.mem_cons_self, Finset.mem_insert_self _ _⟩
          case only => exact fun o h => (Finset.mem_insert.mp h).symm

/-- What the calls add. -/
lemma scan_grows (h : cs.foldlM (scanCall loads) st = some st') : st.calls ⊆ st'.calls ∧ st.ids ⊆ st'.ids := by
  induction cs generalizing st with
  | nil =>
    cases h
    exact ⟨List.Subset.refl _, Finset.Subset.refl _⟩
  | cons c cs ih =>
    rw [List.foldlM_cons] at h
    obtain ⟨st1, one, h⟩ := Option.bind_eq_some_iff.mp h
    have S := scanned one
    obtain ⟨calls, ids⟩ := ih h
    exact ⟨List.Subset.trans S.calls calls, Finset.Subset.trans S.ids ids⟩

/-- Where a seen skill comes from. -/
lemma scan_seen (h : cs.foldlM (scanCall loads) st = some st') (seen : skill ∈ st'.seen) :
    skill ∈ st.seen ∨ ∃ c ∈ cs, Loads loads skill c.2 := by
  induction cs generalizing st with
  | nil =>
    cases h
    exact .inl seen
  | cons c cs ih =>
    rw [List.foldlM_cons] at h
    obtain ⟨st1, one, h⟩ := Option.bind_eq_some_iff.mp h
    cases ih h with
    | inl known =>
      exact ((scanned one).seen skill known).imp_right fun l => ⟨c, List.mem_cons_self, l⟩
    | inr later =>
      obtain ⟨c', hc', l⟩ := later
      exact .inr ⟨c', List.mem_cons_of_mem _ hc', l⟩

/-- Where a kept id comes from. -/
lemma scan_ids {o : Nat} (h : cs.foldlM (scanCall loads) st = some st') (mem : o ∈ st'.ids) :
    o ∈ st.ids ∨ ∃ c ∈ cs, o = c.1.oid := by
  induction cs generalizing st with
  | nil =>
    cases h
    exact .inl mem
  | cons c cs ih =>
    rw [List.foldlM_cons] at h
    obtain ⟨st1, one, h⟩ := Option.bind_eq_some_iff.mp h
    cases ih h with
    | inl known => exact ((scanned one).only o known).imp_right fun e => ⟨c, List.mem_cons_self, e⟩
    | inr later =>
      obtain ⟨c', hc', e⟩ := later
      exact .inr ⟨c', List.mem_cons_of_mem _ hc', e⟩

/-- The scan takes the first load of each skill. -/
lemma scan_firstLoad (h : (callsOf ms).foldlM (scanCall loads) {} = some st') (f : FirstLoad loads ms skill a tc) :
    tc.id ∈ st'.calls ∧ a.oid ∈ st'.ids := by
  obtain ⟨before, behind, e, load, first⟩ := f
  rw [e, List.foldlM_append] at h
  obtain ⟨st1, pre, h⟩ := Option.bind_eq_some_iff.mp h
  rw [List.foldlM_cons] at h
  obtain ⟨st2, one, h⟩ := Option.bind_eq_some_iff.mp h
  have unseen : skill ∉ st1.seen := by
    intro seen
    cases scan_seen pre seen with
    | inl known => cases known
    | inr earlier =>
      obtain ⟨c, hc, l⟩ := earlier
      exact first c hc l
  obtain ⟨calls, ids⟩ := scan_grows h
  obtain ⟨hc, hi⟩ := (scanned one).load skill load unseen
  exact ⟨calls hc, ids hi⟩

end

/-! ## What a plan takes -/

section
variable {loads : String → Option Json} {keepLast : Nat} {p : Plan} {ms : List ChatMessage} {a m : ChatMessage}
  {tc : ToolCall} {skill : String} {e ids : Finset Nat} {o : Nat}

/-- A message of an exchange: an answer with calls, or a result. -/
def exchanges (m : ChatMessage) : Prop := m.role = .assistant ∧ m.toolCalls ≠ [] ∨ m.role = .tool

/-- Related messages exchange. -/
lemma related_exchanges (h : o ∈ related ms m) : ∃ k ∈ ms, k.oid = o ∧ exchanges k := by
  unfold related at h
  split at h
  · obtain ⟨k, hk, e⟩ := List.mem_map.mp (List.mem_toFinset.mp h)
    obtain ⟨mem, is⟩ := List.mem_filter.mp hk
    simp only [Bool.and_eq_true, decide_eq_true_eq] at is
    exact ⟨k, mem, e, .inr is.1.1⟩
  · obtain ⟨k, hk, e⟩ := List.mem_map.mp (List.mem_toFinset.mp h)
    obtain ⟨mem, is⟩ := List.mem_filter.mp hk
    simp only [Bool.and_eq_true, decide_eq_true_eq] at is
    refine ⟨k, mem, e, .inl ⟨is.1.1, fun none => ?_⟩⟩
    rw [none] at is
    simp at is
  · simp at h

/-- The expansion adds messages of exchanges. -/
lemma mem_expandPass (h : o ∈ expandPass ms e) : o ∈ e ∨ ∃ k ∈ ms, k.oid = o ∧ exchanges k := by
  have go : ∀ (l : List ChatMessage) (e : Finset Nat),
      o ∈ l.foldl (fun e m => if m.oid ∈ e then e ∪ related ms m else e) e →
      o ∈ e ∨ ∃ k ∈ ms, k.oid = o ∧ exchanges k := by
    intro l
    induction l with
    | nil => exact fun e h => .inl h
    | cons m l ih =>
      intro e h
      cases ih _ h with
      | inr there => exact .inr there
      | inl h =>
        dsimp only at h
        split at h
        · exact (Finset.mem_union.mp h).imp_right related_exchanges
        · exact .inl h
  exact go ms e h

/-- Where an expanded id comes from. -/
lemma mem_expandToolPairIds (h : o ∈ expandToolPairIds ms e) : o ∈ e ∨ ∃ k ∈ ms, k.oid = o ∧ exchanges k := by
  have go : ∀ (fuel : Nat) (e : Finset Nat), o ∈ expandLoop ms fuel e →
      o ∈ e ∨ ∃ k ∈ ms, k.oid = o ∧ exchanges k := by
    intro fuel
    induction fuel with
    | zero => exact fun e h => .inl h
    | succ fuel ih =>
      intro e h
      unfold expandLoop at h
      dsimp only at h
      split at h
      · exact .inl h
      · exact (ih _ h).elim mem_expandPass .inr
  unfold expandToolPairIds at h
  split at h
  · simp at h
  · exact go _ _ h

/-- The expansion keeps its ids. -/
lemma subset_expandToolPairIds : e ⊆ expandToolPairIds ms e := by
  have go : ∀ (fuel : Nat) (e : Finset Nat), e ⊆ expandLoop ms fuel e := by
    intro fuel
    induction fuel with
    | zero => exact fun e => Finset.Subset.refl e
    | succ fuel ih =>
      intro e
      unfold expandLoop
      dsimp only
      split
      · exact Finset.Subset.refl e
      · exact Finset.Subset.trans subset_expandPass (ih _)
  unfold expandToolPairIds
  split
  · rename_i none
    rw [none]
  · exact go _ _

/-- Where a call stands. -/
lemma callsOf_mem {c : ChatMessage × ToolCall} (h : c ∈ callsOf ms) :
    c.1 ∈ ms ∧ c.1.role = .assistant ∧ c.2 ∈ c.1.toolCalls := by
  obtain ⟨m, hm, h⟩ := List.mem_flatMap.mp h
  split at h
  · rename_i role
    obtain ⟨tc, htc, rfl⟩ := List.mem_map.mp h
    exact ⟨hm, role, htc⟩
  · cases h

/-- Only messages of exchanges are retained. -/
lemma retained_exchanges (h : skillToolPairIds loads ms = some ids) (mem : o ∈ ids) :
    ∃ k ∈ ms, k.oid = o ∧ exchanges k := by
  simp only [skillToolPairIds, Option.bind_eq_bind, Option.bind_eq_some_iff] at h
  obtain ⟨st, scan, h⟩ := h
  rw [scan_eq] at scan
  split at h
  · cases h
    simp at mem
  · cases h
    cases mem_expandToolPairIds mem with
    | inr there => exact there
    | inl seed =>
      cases Finset.mem_union.mp seed with
      | inl call =>
        cases scan_ids scan call with
        | inl none => simp at none
        | inr there =>
          obtain ⟨c, hc, e⟩ := there
          obtain ⟨mem, role, tc⟩ := callsOf_mem hc
          exact ⟨c.1, mem, e.symm, .inl ⟨role, List.ne_nil_of_mem tc⟩⟩
      | inr result =>
        obtain ⟨k, hk, e⟩ := List.mem_map.mp (List.mem_toFinset.mp result)
        obtain ⟨mem, is⟩ := List.mem_filter.mp hk
        simp only [Bool.and_eq_true, decide_eq_true_eq] at is
        exact ⟨k, mem, e, .inr is.1⟩

/-- The first load of a skill is retained with its result. -/
lemma retained_firstLoad (h : skillToolPairIds loads ms = some ids) (f : FirstLoad loads ms skill a tc) :
    a.oid ∈ ids ∧ ∀ t ∈ ms, t.role = .tool → t.toolCallId = tc.id → t.oid ∈ ids := by
  simp only [skillToolPairIds, Option.bind_eq_bind, Option.bind_eq_some_iff] at h
  obtain ⟨st, scan, h⟩ := h
  rw [scan_eq] at scan
  obtain ⟨call, mem⟩ := scan_firstLoad scan f
  split at h
  · rename_i none
    rw [none] at call
    cases call
  · cases h
    refine ⟨subset_expandToolPairIds (Finset.mem_union_left _ mem), fun t ht role id => ?_⟩
    refine subset_expandToolPairIds (Finset.mem_union_right _ (List.mem_toFinset.mpr (List.mem_map_of_mem ?_)))
    exact List.mem_filter.mpr ⟨ht, by simpa [role, id] using call⟩

/-- What is to be summarised if nothing else is in the way. -/
def planSeed (keepLast : Nat) (ms : List ChatMessage) : List ChatMessage :=
  if findAssistantCutoff ms keepLast > 0 then ms.take (findAssistantCutoff ms keepLast) else ms

/-- A plan, when it comes to one. -/
lemma compactionPlan_eq (some : eligible ms ≠ []) : compactionPlan loads keepLast ms =
    (skillToolPairIds loads (eligible ms)).bind fun retained =>
      let toSummarise := (eligible ms).filter fun m =>
        m.oid ∈ expandToolPairIds (eligible ms) (oidSet (planSeed keepLast (eligible ms)))
      if toSummarise = [] then none else .some { toSummarise := oidSet toSummarise, retained } := by
  unfold compactionPlan
  rw [if_neg some]
  rfl

/-- Something is to be compacted. -/
lemma planSeed_ne_nil (keepLast : Nat) (some : ms ≠ []) : planSeed keepLast ms ≠ [] := by
  unfold planSeed
  split
  · rename_i pos
    simp only [ne_eq, List.take_eq_nil_iff, some, or_false]
    omega
  · exact some

/-- The seed is of the messages. -/
lemma planSeed_subset : ∀ m ∈ planSeed keepLast ms, m ∈ ms := by
  unfold planSeed
  split
  · exact fun m => List.mem_of_mem_take
  · exact fun m => id

/-- What a plan is made of. -/
lemma compactionPlan_inv (h : compactionPlan loads keepLast ms = some p) :
    skillToolPairIds loads (eligible ms) = some p.retained ∧
      ∀ o ∈ p.toSummarise, ∃ k ∈ eligible ms, k.oid = o := by
  have some : eligible ms ≠ [] := by
    intro none
    simp [compactionPlan, none] at h
  rw [compactionPlan_eq some] at h
  obtain ⟨retained, skills, h⟩ := Option.bind_eq_some_iff.mp h
  dsimp only at h
  split at h
  · cases h
  · cases h
    refine ⟨skills, fun o ho => ?_⟩
    obtain ⟨k, hk, e⟩ := List.mem_map.mp (List.mem_toFinset.mp ho)
    exact ⟨k, (List.mem_filter.mp hk).1, e⟩

/-- There is a plan unless nothing is eligible or a skill call has arguments that are no dict. -/
lemma compactionPlan_eq_none : compactionPlan loads keepLast ms = none ↔
    eligible ms = [] ∨ skillToolPairIds loads (eligible ms) = none := by
  by_cases none : eligible ms = []
  · simp [compactionPlan, none]
  · rw [compactionPlan_eq none]
    obtain ⟨m, hm⟩ := List.exists_mem_of_ne_nil _ (planSeed_ne_nil keepLast none)
    have taken : m ∈ (eligible ms).filter fun m =>
        m.oid ∈ expandToolPairIds (eligible ms) (oidSet (planSeed keepLast (eligible ms))) := by
      refine List.mem_filter.mpr ⟨planSeed_subset m hm, ?_⟩
      exact decide_eq_true (subset_expandToolPairIds (List.mem_toFinset.mpr (List.mem_map_of_mem hm)))
    cases skills : skillToolPairIds loads (eligible ms) with
    | none => simp
    | some retained => simp [none, List.ne_nil_of_mem taken]

end

/-! ## Between two exchanges -/

section
variable {P : ChatMessage → List ChatMessage → Prop} {q : ChatMessage → Bool} {ms l r : List ChatMessage}

/-- A cut that goes through no exchange is a cut between blocks. -/
lemma Blocks.split (B : Blocks P (l ++ r))
    (cut : ∀ pre a ts ts' post, l = pre ++ a :: ts → r = ts' ++ post → P a (ts ++ ts') → ts' = []) :
    Blocks P l ∧ Blocks P r := by
  generalize e : l ++ r = ms at B
  induction B generalizing l with
  | nil =>
    obtain ⟨rfl, rfl⟩ := List.append_eq_nil_iff.mp e
    exact ⟨.nil, .nil⟩
  | @single m ms k B ih =>
    cases l with
    | nil =>
      rw [List.nil_append] at e
      exact ⟨.nil, e ▸ .single k B⟩
    | cons m' l =>
      obtain ⟨rfl, e'⟩ := List.cons.inj e
      obtain ⟨L, R⟩ := ih (fun pre a ts ts' post el => cut (m' :: pre) a ts ts' post (congrArg (m' :: ·) el)) e'
      exact ⟨.single k L, R⟩
  | @exchange a ts ms X B ih =>
    cases l with
    | nil =>
      rw [List.nil_append] at e
      exact ⟨.nil, e ▸ .exchange X B⟩
    | cons m' l =>
      obtain ⟨rfl, e'⟩ := List.cons.inj e
      cases List.append_eq_append_iff.mp e' with
      | inl through =>
        obtain ⟨ts', e, er⟩ := through
        cases cut [] m' l ts' ms rfl er (e ▸ X)
        rw [List.append_nil] at e
        subst e
        rw [List.nil_append] at er
        subst er
        have whole : Blocks P (m' :: (ts ++ [])) := .exchange X .nil
        rw [List.append_nil] at whole
        exact ⟨whole, B⟩
      | inr behind =>
        obtain ⟨l', e, el⟩ := behind
        subst e
        obtain ⟨L, R⟩ := ih (fun pre a' ts' us post e =>
          cut (m' :: (ts ++ pre)) a' ts' us post (by rw [e, List.cons_append, List.append_assoc])) el.symm
        exact ⟨.exchange X L, R⟩

/-- What is up to the last member with a property ends with it. -/
lemma take_afterLast (q : ChatMessage → Bool) (ms : List ChatMessage) : ms.take (afterLast q ms) = [] ∨
    ∃ front c, ms.take (afterLast q ms) = front ++ [c] ∧ q c = true := by
  induction ms with
  | nil => exact .inl rfl
  | cons m ms ih =>
    rw [afterLast]
    split
    · rename_i any
      rw [List.take_succ_cons]
      cases ih with
      | inl none =>
        have zero : afterLast q ms = 0 ∨ ms = [] := by simpa using none
        cases zero with
        | inl zero =>
          rw [afterLast_eq_zero.mp zero] at any
          cases any
        | inr none =>
          rw [none] at any
          cases any
      | inr last =>
        obtain ⟨front, c, e, h⟩ := last
        exact .inr ⟨m :: front, c, by rw [e, List.cons_append], h⟩
    · split
      · rename_i here
        exact .inr ⟨[], m, rfl, here⟩
      · exact .inl rfl

end

/-! ## The compaction -/

/-- What the code relies on: an identity is one object, the visible part is well paired and its calls have ids, only
plain messages are summaries or hidden from them, and nothing excluded stands inside a visible exchange. -/
structure Compactable (ms : List ChatMessage) : Prop where
  objects : ∀ m ∈ ms, ∀ k ∈ ms, m.oid = k.oid → m = k
  paired : Matched (messagesForLlm ms)
  named : Named (messagesForLlm ms)
  plain : ∀ m ∈ ms, m.isSummary = true ∨ m.extra.hiddenFromSummary = true →
    m.role = .user ∨ m.role = .assistant ∧ m.toolCalls = []
  inside : ∀ pre a mid t post, ms = pre ++ a :: (mid ++ t :: post) →
    a ∈ messagesForLlm ms → a.role = .assistant → a.toolCalls ≠ [] → t ∈ messagesForLlm ms → t.role = .tool →
    (∀ m ∈ messagesForLlm mid, m.role = .tool) → ∀ m ∈ mid, m.excludeFromContext = false

/-- A message with other flags. -/
def Reflagged (m m' : ChatMessage) : Prop :=
  m' = { m with excludeFromContext := m'.excludeFromContext, pinned := m'.pinned } ∧
    (m.excludeFromContext = true → m'.excludeFromContext = true)

/-- A valid transcript with one summary in it. -/
structure Compacted (loads : String → Option Json) (ms ms' : List ChatMessage) : Prop where
  paired : Matched (messagesForLlm ms')
  -- the messages are there in their order, with the only visible summary among them and nothing excluded behind it
  summary : ∃ pre s post, ms' = pre ++ s :: post ∧ List.Forall₂ Reflagged ms (pre ++ post) ∧
    s.isSummary = true ∧ s ∈ messagesForLlm ms' ∧ (∀ m ∈ messagesForLlm (pre ++ post), m.isSummary = false) ∧
    ∀ m ∈ post, m.excludeFromContext = false
  -- the first visible load of a skill stays visible, and its result
  skills : ∀ skill a tc, FirstLoad loads (messagesForLlm ms) skill a tc →
    ∀ m ∈ messagesForLlm ms, m = a ∨ m.role = .tool ∧ m.toolCallId = tc.id →
      ∃ m' ∈ messagesForLlm ms', Reflagged m m'

section
variable {loads : String → Option Json} {keepLast : Nat} {p : Plan} {ms ts : List ChatMessage} {a m : ChatMessage}

/-- An exchange of the visible part. -/
structure Visible (a : ChatMessage) (ts : List ChatMessage) : Prop extends Answers a ts where
  plain : ∀ m ∈ a :: ts, m.extra.hiddenFromSummary = false ∧ m.isSummary = false

/-- The visible part is in blocks. -/
lemma blocks_of_matched {l : List ChatMessage} (w : Matched l) (named : Named l) (users : ∀ m ∈ l, m.role ≠ .system)
    (plain : ∀ m ∈ l, m.isSummary = true ∨ m.extra.hiddenFromSummary = true →
      m.role = .user ∨ m.role = .assistant ∧ m.toolCalls = []) : Blocks Visible l := by
  induction w with
  | nil => exact .nil
  | @single m ms role calls _ ih =>
    have later := ih (fun k hk => named k (List.mem_cons_of_mem _ hk)) (fun k hk => users k (List.mem_cons_of_mem _ hk))
      fun k hk => plain k (List.mem_cons_of_mem _ hk)
    refine .single ?_ later
    have user := users m List.mem_cons_self
    cases e : m.role with
    | user => exact .inl rfl
    | assistant => exact .inr ⟨rfl, calls e⟩
    | tool => exact absurd e role
    | system => exact absurd e user
  | @exchange a ts ms A _ ih =>
    have later := ih (fun k hk => named k (List.mem_cons_of_mem _ (List.mem_append_right _ hk)))
      (fun k hk => users k (List.mem_cons_of_mem _ (List.mem_append_right _ hk)))
      fun k hk => plain k (List.mem_cons_of_mem _ (List.mem_append_right _ hk))
    refine .exchange ⟨⟨A.assistant, A.calls, ?_, A.tools, A.nodup, ?_⟩, ?_⟩ later
    · exact named a List.mem_cons_self A.assistant
    · intro id
      constructor
      · intro h
        obtain ⟨t, ht, rfl⟩ := List.mem_map.mp h
        exact A.only t ht
      · intro h
        refine List.count_pos_iff.mp ?_
        rw [A.once id h]
        exact Nat.one_pos
    · intro m hm
      have mem : m ∈ a :: (ts ++ ms) := by
        rw [← List.cons_append]
        exact List.mem_append_left _ hm
      have exchange : ¬(m.role = .user ∨ m.role = .assistant ∧ m.toolCalls = []) := by
        cases List.mem_cons.mp hm with
        | inl e => simp [e, A.assistant, A.calls]
        | inr ht => simp [A.tools m ht]
      have no := fun h => exchange (plain m mem h)
      simpa [not_or, and_comm] using no

/-- Blocks are well paired. -/
lemma Blocks.matched {P : ChatMessage → List ChatMessage → Prop} {l : List ChatMessage} (B : Blocks P l)
    (all : ∀ {a ts}, P a ts → Answers a ts) : Matched l := by
  induction B with
  | nil => exact .nil
  | @single m ms k _ ih =>
    refine .single ?_ ?_ ih
    · cases k with
      | inl user => simp [user]
      | inr plain => simp [plain.1]
    · cases k with
      | inl user => simp [user]
      | inr plain => exact fun _ => plain.2
  | exchange X _ ih =>
    have A := all X
    refine .exchange ⟨A.assistant, A.calls, A.tools, fun id hid => ?_, fun t ht => ?_⟩ ih
    · exact List.count_eq_one_of_mem A.once ((A.ids id).mpr hid)
    · exact (A.ids _).mp (List.mem_map_of_mem ht)

/-- What the model sees is exchanges. -/
lemma Compactable.blocks (C : Compactable ms) : Blocks Visible (messagesForLlm ms) :=
  blocks_of_matched C.paired C.named (fun _ hm => (mem_messagesForLlm.mp hm).2.2)
    fun m hm => C.plain m (mem_messagesForLlm.mp hm).1

/-- The messages up to the last one that a compaction covers. -/
def upTo (p : Plan) (ms : List ChatMessage) : List ChatMessage := ms.take (afterLast p.covers ms)

/-- What a compaction does to a message above the summary. -/
def above (p : Plan) (m : ChatMessage) : ChatMessage := pinKept (p.flag m)

/-- The covered part and the tail. -/
lemma upTo_append (p : Plan) (ms : List ChatMessage) : upTo p ms ++ p.keptTail ms = ms := List.take_append_drop ..

/-- The history with a summary. -/
lemma applySummary_upTo (p : Plan) (oid : Nat) (text : String) : p.applySummary oid text ms =
    (upTo p ms).map (above p) ++ summaryMessage oid text :: p.keptTail ms := by
  obtain ⟨head, e, eq⟩ := p.applySummary_eq ms oid text
  have same : head = upTo p ms := List.append_cancel_right (e.symm.trans (upTo_append p ms).symm)
  rw [eq, same]
  rfl

/-- Only flags change above a summary. -/
lemma above_reflagged : Reflagged m (above p m) := by
  constructor
  · unfold above pinKept Plan.flag
    split_ifs <;> rfl
  · intro out
    rw [above, pinKept_excluded, Plan.flag_excluded, out]
    rfl

/-- What is excluded above a summary. -/
lemma above_excluded : (above p m).excludeFromContext = (p.flag m).excludeFromContext := pinKept_excluded _

/-- Visible results are linked. -/
lemma Visible.linked {t : ChatMessage} (V : Visible a ts) (ht : t ∈ ts) : Linked a t := by
  have call := (V.ids _).mp (List.mem_map_of_mem ht)
  obtain ⟨tc, htc, e⟩ := List.mem_map.mp call
  exact ⟨V.assistant, V.tools t ht, e ▸ V.named tc htc, call⟩

/-- When a message is eligible. -/
lemma mem_eligible : m ∈ eligible ms ↔ m ∈ messagesForLlm ms ∧ m.extra.hiddenFromSummary = false := by
  simp [eligible, messagesForLlm, List.mem_filter, and_assoc]

/-- A plan takes a visible exchange as a whole. -/
lemma Visible.same {t : ChatMessage} (V : Visible a ts) (h : compactionPlan loads keepLast ms = some p)
    (mem : ∀ m ∈ a :: ts, m ∈ messagesForLlm ms) (ht : t ∈ ts) :
    (a.oid ∈ p.toSummarise ↔ t.oid ∈ p.toSummarise) ∧ (a.oid ∈ p.retained ↔ t.oid ∈ p.retained) := by
  have el : ∀ m ∈ a :: ts, m ∈ eligible ms := fun m hm => mem_eligible.mpr ⟨mem m hm, (V.plain m hm).1⟩
  exact compactionPlan_closed h (el a List.mem_cons_self) (el t (List.mem_cons_of_mem _ ht)) (V.linked ht)

/-- A plan covers exchanges whole. -/
lemma Visible.covers {t : ChatMessage} (V : Visible a ts) (h : compactionPlan loads keepLast ms = some p)
    (mem : ∀ m ∈ a :: ts, m ∈ messagesForLlm ms) (ht : t ∈ ts) : p.covers t = p.covers a := by
  have there := List.mem_cons_of_mem a ht
  obtain ⟨sum, ret⟩ := V.same h mem ht
  rw [Plan.covers, Plan.covers, (mem_messagesForLlm.mp (mem t there)).2.1,
    (mem_messagesForLlm.mp (mem a List.mem_cons_self)).2.1, (V.plain t there).2, (V.plain a List.mem_cons_self).2]
  simp [sum, ret]

/-- A plan flags exchanges whole. -/
lemma Visible.flag {t : ChatMessage} (V : Visible a ts) (h : compactionPlan loads keepLast ms = some p)
    (mem : ∀ m ∈ a :: ts, m ∈ messagesForLlm ms) (ht : t ∈ ts) :
    (p.flag t).excludeFromContext = (p.flag a).excludeFromContext := by
  have there := List.mem_cons_of_mem a ht
  obtain ⟨sum, ret⟩ := V.same h mem ht
  rw [Plan.flag_excluded, Plan.flag_excluded, (mem_messagesForLlm.mp (mem t there)).2.1,
    (mem_messagesForLlm.mp (mem a List.mem_cons_self)).2.1, (V.plain t there).2, (V.plain a List.mem_cons_self).2]
  simp [sum, ret]

/-- The plan is about visible messages. -/
lemma Compactable.covers (C : Compactable ms) (h : compactionPlan loads keepLast ms = some p) (hm : m ∈ ms)
    (c : p.covers m = true) : m ∈ messagesForLlm ms ∨ m.excludeFromContext = true := by
  obtain ⟨skills, summarised⟩ := compactionPlan_inv h
  have visible : (∃ k ∈ eligible ms, k.oid = m.oid) → m ∈ messagesForLlm ms := by
    intro ⟨k, hk, e⟩
    have mem := (mem_eligible.mp hk).1
    exact C.objects k (mem_messagesForLlm.mp mem).1 m hm e ▸ mem
  cases out : m.excludeFromContext with
  | true => exact .inr rfl
  | false =>
    unfold Plan.covers at c
    simp only [out, Bool.false_or, Bool.or_eq_true, decide_eq_true_eq] at c
    left
    rcases c with (sum | ret) | old
    · exact visible (summarised _ sum)
    · obtain ⟨k, hk, e, -⟩ := retained_exchanges skills ret
      exact visible ⟨k, hk, e⟩
    · have plain := C.plain m hm (.inl old)
      refine mem_messagesForLlm.mpr ⟨hm, out, ?_⟩
      cases plain with
      | inl user => simp [user]
      | inr plain => simp [plain.1]

/-- The summary goes between two blocks of the visible part. -/
lemma Compactable.cut (C : Compactable ms) (h : compactionPlan loads keepLast ms = some p) :
    Blocks Visible (messagesForLlm (upTo p ms)) ∧ Blocks Visible (messagesForLlm (p.keptTail ms)) := by
  have parts : messagesForLlm ms = messagesForLlm (upTo p ms) ++ messagesForLlm (p.keptTail ms) := by
    rw [← messagesForLlm_append, upTo_append]
  refine Blocks.split (parts ▸ C.blocks) fun pre a ts ts' post el er V => ?_
  cases ts' with
  | nil => rfl
  | cons t ts' =>
    exfalso
    have mem : ∀ m ∈ a :: (ts ++ t :: ts'), m ∈ messagesForLlm ms := by
      intro m hm
      rw [parts, el, er]
      simp only [List.mem_cons, List.mem_append] at hm ⊢
      tauto
    have tail : t ∈ p.keptTail ms :=
      (mem_messagesForLlm.mp (er ▸ List.mem_cons_self : t ∈ messagesForLlm (p.keptTail ms))).1
    have ta : p.covers t = p.covers a := V.covers h mem (by simp)
    have none : ∀ m ∈ a :: ts, p.covers m = false := by
      have here : p.covers a = false := ta.symm.trans (Plan.keptTail_not_covers tail)
      intro m hm
      cases List.mem_cons.mp hm with
      | inl e => exact e ▸ here
      | inr hm => exact (V.covers h mem (List.mem_append_left _ hm)).trans here
    cases take_afterLast p.covers ms with
    | inl nil =>
      have nil : upTo p ms = [] := nil
      rw [nil] at el
      simp [messagesForLlm] at el
    | inr last =>
      obtain ⟨front, c, e, covered⟩ := last
      have e : upTo p ms = front ++ [c] := e
      have hc : c ∈ ms := List.mem_of_mem_take (e ▸ List.mem_append_right _ List.mem_cons_self : c ∈ upTo p ms)
      rw [e, messagesForLlm_append] at el
      cases C.covers h hc covered with
      | inl visible =>
        have alone : messagesForLlm [c] = [c] := by
          have is := (mem_messagesForLlm.mp visible).2
          simp [messagesForLlm, is.1, is.2]
        rw [alone] at el
        have last : (a :: ts).getLast? = some c := by
          have l := congrArg List.getLast? el
          rw [List.getLast?_append, List.getLast?_append] at l
          simpa using l.symm
        rw [none c (List.mem_of_getLast? last)] at covered
        cases covered
      | inr out =>
        have gone : messagesForLlm [c] = [] := by simp [messagesForLlm, out]
        rw [gone, List.append_nil] at el
        obtain ⟨f, f', rfl, -, ef⟩ := List.filter_eq_append_iff.mp el
        obtain ⟨g, g', rfl, -, -, eg⟩ := List.filter_eq_cons_iff.mp ef
        obtain ⟨u, u', eu, hidden, -, -⟩ := List.filter_eq_cons_iff.mp er
        have whole : ms = (f ++ g) ++ a :: ((g' ++ c :: u) ++ t :: u') := by
          rw [← upTo_append p ms, e, eu]
          simp
        have mid : ∀ m ∈ messagesForLlm (g' ++ c :: u), m.role = .tool := by
          have only : messagesForLlm (g' ++ c :: u) = ts := by
            have none : messagesForLlm u = [] := by
              refine List.filter_eq_nil_iff.mpr fun m hm => ?_
              exact hidden m hm
            rw [messagesForLlm_append, show c :: u = [c] ++ u from rfl, messagesForLlm_append, gone, none]
            simpa [messagesForLlm] using eg
          rw [only]
          exact fun m hm => V.tools m (List.mem_append_left _ hm)
        have kept := C.inside _ _ _ _ _ whole (mem a List.mem_cons_self) V.assistant V.calls
          (mem t (by simp)) (V.tools t (by simp)) mid c (by simp)
        rw [out] at kept
        cases kept

/-- What the model sees above a summary. -/
lemma messagesForLlm_map_above {l : List ChatMessage} : messagesForLlm (l.map (above p)) =
    ((messagesForLlm l).filter fun m => !(p.flag m).excludeFromContext).map (above p) := by
  have role : ∀ m, (above p m).role = m.role := (unseen_flag p).role
  unfold messagesForLlm
  rw [List.filter_map, List.filter_filter]
  congr 1
  refine List.filter_congr fun m _ => ?_
  show (!(above p m).excludeFromContext && decide ((above p m).role ≠ .system)) = _
  rw [above_excluded, role, Plan.flag_excluded]
  cases m.excludeFromContext <;> simp

/-- What the model sees after a summary. -/
lemma messagesForLlm_applySummary (p : Plan) (oid : Nat) (text : String) (ms : List ChatMessage) :
    messagesForLlm (p.applySummary oid text ms) = messagesForLlm ((upTo p ms).map (above p)) ++
      summaryMessage oid text :: messagesForLlm (p.keptTail ms) := by
  rw [applySummary_upTo, messagesForLlm_append]
  rfl

/-- What stays visible above the summary is in blocks. -/
lemma Compactable.blocks_above (C : Compactable ms) (h : compactionPlan loads keepLast ms = some p) :
    Blocks Visible (messagesForLlm ((upTo p ms).map (above p))) := by
  rw [messagesForLlm_map_above]
  have B := (C.cut h).1
  have inside : ∀ m ∈ messagesForLlm (upTo p ms), m ∈ messagesForLlm ms := by
    intro m hm
    rw [← upTo_append p ms, messagesForLlm_append]
    exact List.mem_append_left _ hm
  have W : Blocks (fun a ts => Visible a ts ∧ ∀ t ∈ ts, (p.flag t).excludeFromContext = (p.flag a).excludeFromContext)
      (messagesForLlm (upTo p ms)) := by
    refine B.imp fun {a ts} V ha hts => ⟨V, fun t ht => V.flag h (fun m hm => ?_) ht⟩
    cases List.mem_cons.mp hm with
    | inl e => exact e ▸ inside _ ha
    | inr hm => exact inside m (hts m hm)
  have K := W.filter (q := fun m => !(p.flag m).excludeFromContext) fun V t ht => by rw [V.2 t ht]
  refine K.map (unseen_flag p) fun {a ts} V => ⟨(unseen_flag p).answers V.1.toAnswers, fun m hm => ?_⟩
  obtain ⟨k, hk, rfl⟩ : ∃ k ∈ a :: ts, pinKept (p.flag k) = m := List.mem_map.mp hm
  rw [(plain_flag p k).1, (plain_flag p k).2]
  exact V.1.plain k hk

/-- A message that is a summary is excluded. -/
lemma Compactable.old_summary (C : Compactable ms) (h : compactionPlan loads keepLast ms = some p) (hm : m ∈ ms)
    (old : m.isSummary = true) : (p.flag m).excludeFromContext = true := by
  have out : m.oid ∉ p.retained := by
    intro ret
    obtain ⟨k, hk, e, ex⟩ := retained_exchanges (compactionPlan_inv h).1 ret
    have same := C.objects k (mem_messagesForLlm.mp (mem_eligible.mp hk).1).1 m hm e
    rw [same] at ex
    cases C.plain m hm (.inl old) with
    | inl user => simp [exchanges, user] at ex
    | inr plain => simp [exchanges, plain.1, plain.2] at ex
  rw [Plan.flag_excluded]
  by_cases sum : m.oid ∈ p.toSummarise <;> simp [sum, out, old]

/-- Dropping what has no calls. -/
lemma callsOf_filter {q : ChatMessage → Bool} {l : List ChatMessage}
    (none : ∀ m ∈ l, q m = false → m.role = .assistant → m.toolCalls = []) : callsOf (l.filter q) = callsOf l := by
  induction l with
  | nil => rfl
  | cons m l ih =>
    have later := ih fun k hk => none k (List.mem_cons_of_mem _ hk)
    cases keep : q m with
    | true =>
      rw [List.filter_cons_of_pos keep, callsOf, List.flatMap_cons, ← callsOf, later]
      rfl
    | false =>
      rw [List.filter_cons_of_neg (by simp [keep]), later]
      have plain := none m List.mem_cons_self keep
      unfold callsOf
      rw [List.flatMap_cons]
      split
      · rename_i role
        rw [plain role]
        rfl
      · rfl

/-- The calls of the eligible messages are those of the visible ones. -/
lemma Compactable.callsOf_eligible (C : Compactable ms) : callsOf (eligible ms) = callsOf (messagesForLlm ms) := by
  have e : eligible ms = (messagesForLlm ms).filter fun m => !m.extra.hiddenFromSummary := by
    unfold eligible messagesForLlm
    rw [List.filter_filter]
    refine List.filter_congr fun m _ => ?_
    rw [Bool.and_comm]
  rw [e]
  refine callsOf_filter fun m hm hidden role => ?_
  have plain := C.plain m (mem_messagesForLlm.mp hm).1 (.inr (by simpa using hidden))
  rw [role] at plain
  exact (plain.resolve_left fun user => by cases user).2

/-- A message of an exchange is plain. -/
lemma Compactable.not_plain (C : Compactable ms) (hm : m ∈ ms) (x : exchanges m) :
    m.isSummary = false ∧ m.extra.hiddenFromSummary = false := by
  have no : ¬(m.isSummary = true ∨ m.extra.hiddenFromSummary = true) := by
    intro h
    cases C.plain m hm h with
    | inl user => simp [exchanges, user] at x
    | inr plain => simp [exchanges, plain.1, plain.2] at x
  simpa [not_or] using no

/-- A retained message stays visible above the summary. -/
lemma Compactable.retained (C : Compactable ms) (hm : m ∈ messagesForLlm ms) (x : exchanges m)
    (ret : m.oid ∈ p.retained) : above p m ∈ messagesForLlm ((upTo p ms).map (above p)) := by
  obtain ⟨mem, visible, role⟩ := mem_messagesForLlm.mp hm
  have here : m ∈ upTo p ms := by
    rw [← upTo_append p ms] at mem
    refine (List.mem_append.mp mem).resolve_right fun tail => ?_
    have none := Plan.keptTail_not_covers tail
    simp [Plan.covers, ret] at none
  rw [messagesForLlm_map_above]
  refine List.mem_map_of_mem (List.mem_filter.mpr ⟨mem_messagesForLlm.mpr ⟨here, visible, role⟩, ?_⟩)
  rw [Plan.flag_excluded, visible, (C.not_plain (mem_messagesForLlm.mp hm).1 x).1]
  simp [ret]

/-- What a plan does to a transcript. -/
lemma Compactable.compacted (C : Compactable ms) (h : compactionPlan loads keepLast ms = some p) (oid : Nat)
    (text : String) : Compacted loads ms (p.applySummary oid text ms) := by
  have visible := messagesForLlm_applySummary p oid text ms
  constructor
  case paired =>
    rw [visible]
    exact ((C.blocks_above h).append (.single (.inl rfl) (C.cut h).2)).matched fun V => V.toAnswers
  case summary =>
    refine ⟨_, _, _, applySummary_upTo p oid text, ?_, rfl, ?_, ?_, ?_⟩
    · have flags : List.Forall₂ Reflagged (upTo p ms ++ p.keptTail ms) ((upTo p ms).map (above p) ++ p.keptTail ms) := by
        refine List.rel_append ?_ (List.forall₂_same.mpr fun m _ => ⟨rfl, id⟩)
        rw [List.forall₂_map_right_iff]
        exact List.forall₂_same.mpr fun m _ => above_reflagged
      rwa [upTo_append] at flags
    · rw [visible]
      exact List.mem_append_right _ List.mem_cons_self
    · intro m hm
      rw [messagesForLlm_append] at hm
      cases List.mem_append.mp hm with
      | inl front =>
        obtain ⟨mem, out, -⟩ := mem_messagesForLlm.mp front
        obtain ⟨k, hk, rfl⟩ := List.mem_map.mp mem
        rw [above_excluded] at out
        rw [above, (plain_flag p k).2]
        refine Bool.eq_false_iff.mpr fun old => ?_
        rw [C.old_summary h (List.mem_of_mem_take hk) old] at out
        cases out
      | inr tail =>
        have none := Plan.keptTail_not_covers (mem_messagesForLlm.mp tail).1
        simp only [Plan.covers, Bool.or_eq_false_iff] at none
        exact none.2
    · intro m hm
      have none := Plan.keptTail_not_covers hm
      simp only [Plan.covers, Bool.or_eq_false_iff] at none
      exact none.1.1.1
  case skills =>
    intro skill a tc f m hm pair
    have f' : FirstLoad loads (eligible ms) skill a tc := by
      unfold FirstLoad
      rw [C.callsOf_eligible]
      exact f
    obtain ⟨call, results⟩ := retained_firstLoad (compactionPlan_inv h).1 f'
    have x : exchanges m := by
      cases pair with
      | inl e =>
        obtain ⟨before, behind, eq, -⟩ := f
        obtain ⟨-, role, mem⟩ := callsOf_mem (eq ▸ List.mem_append_right _ List.mem_cons_self : (a, tc) ∈ callsOf _)
        exact e ▸ .inl ⟨role, List.ne_nil_of_mem mem⟩
      | inr result => exact .inr result.1
    have ret : m.oid ∈ p.retained := by
      cases pair with
      | inl e => exact e ▸ call
      | inr result =>
        have plain := (C.not_plain (mem_messagesForLlm.mp hm).1 x).2
        exact results m (mem_eligible.mpr ⟨hm, plain⟩) result.1 result.2
    refine ⟨above p m, ?_, above_reflagged⟩
    rw [visible]
    exact List.mem_append_left _ (C.retained hm x ret)

/-- A compaction leaves a transcript alone, if nothing is eligible, a skill call has arguments that are no dict, the
call fails or the summary is empty; otherwise it makes a valid one of it with one summary. -/
theorem summarise_valid (C : Compactable ms) (oid : Nat) (outcome : Option String) :
    (eligible ms = [] ∨ skillToolPairIds loads (eligible ms) = none ∨ outcome = none ∨ outcome = some "" →
      summarise loads keepLast oid outcome ms = ms) ∧
    (¬(eligible ms = [] ∨ skillToolPairIds loads (eligible ms) = none ∨ outcome = none ∨ outcome = some "") →
      Compacted loads ms (summarise loads keepLast oid outcome ms)) := by
  cases outcome with
  | none => exact ⟨fun _ => rfl, fun some => absurd (.inr (.inr (.inl rfl))) some⟩
  | some text =>
    unfold summarise summariseInner
    cases h : compactionPlan loads keepLast ms with
    | none =>
      refine ⟨fun _ => rfl, fun some => ?_⟩
      cases compactionPlan_eq_none.mp h with
      | inl nothing => exact absurd (.inl nothing) some
      | inr skills => exact absurd (.inr (.inl skills)) some
    | some p =>
      by_cases empty : text = ""
      · exact ⟨fun _ => if_pos empty, fun some => absurd (.inr (.inr (.inr (congrArg _ empty)))) some⟩
      · have plan : ¬(eligible ms = [] ∨ skillToolPairIds loads (eligible ms) = none) := by
          intro none
          rw [compactionPlan_eq_none.mpr none] at h
          cases h
        dsimp only
        rw [if_neg empty]
        refine ⟨fun none => ?_, fun _ => C.compacted h oid text⟩
        exfalso
        rcases none with none | none | none | none
        · exact plan (.inl none)
        · exact plan (.inr none)
        · cases none
        · exact empty (Option.some.inj none)

end

/-! ## Transcripts that are taken apart -/

/-- A question, an answer with a call, its result, and a last answer. -/
def asked : List ChatMessage :=
  [{ oid := 0, role := .user }, { oid := 1, role := .assistant, toolCalls := [⟨"c", "ls", "", none, none⟩] },
    { oid := 2, role := .tool, toolCallId := "c" }, { oid := 3, role := .assistant }]

/-- The asked history is compactable. -/
lemma asked_compactable : Compactable asked where
  objects := by decide
  paired := by
    refine .single (by decide) (by decide) ?_
    apply @Matched.exchange _ [{ oid := 2, role := .tool, toolCallId := "c" }] [{ oid := 3, role := .assistant }]
    · exact ⟨rfl, by decide, by decide, by decide, by decide⟩
    · exact .single (by decide) (by decide) .nil
  named := by unfold Named; decide
  plain := by decide
  inside := by
    intro pre a mid t post e _ _ _ _ _ _ m hm
    have all : ∀ m ∈ asked, m.excludeFromContext = false := by decide
    exact all m (e ▸ by simp [hm])

/-- The asked history, summarised. -/
theorem asked_summarised :
    Compacted (fun _ => none) asked (summarise (fun _ => none) 1 4 (some "S") asked) :=
  (summarise_valid asked_compactable 4 (some "S")).2 (by decide)

/-- The same with an excluded message in front of the result. -/
def parted : List ChatMessage :=
  [{ oid := 0, role := .user }, { oid := 1, role := .assistant, toolCalls := [⟨"c", "ls", "", none, none⟩] },
    { oid := 5, role := .user, excludeFromContext := true }, { oid := 2, role := .tool, toolCallId := "c" },
    { oid := 3, role := .assistant }]

/-- A skill load beside a call without an id. -/
def nameless : List ChatMessage :=
  [{ oid := 1, role := .assistant, toolCalls := [⟨"k", "skill", "s", none, none⟩, ⟨"", "ls", "", none, none⟩] },
    { oid := 2, role := .tool, toolCallId := "k" }, { oid := 3, role := .tool, toolCallId := "" }]

/-- A result that is hidden from the summary. -/
def hiddenResult : List ChatMessage :=
  [{ oid := 1, role := .assistant, toolCalls := [⟨"c", "ls", "", none, none⟩] },
    { oid := 2, role := .tool, toolCallId := "c", extra := { hiddenFromSummary := true } }]

/-- A result that is a summary itself. -/
def summaryResult : List ChatMessage :=
  [{ oid := 0, role := .user }, { oid := 1, role := .assistant, toolCalls := [⟨"c", "ls", "", none, none⟩] },
    { oid := 2, role := .tool, toolCallId := "c", isSummary := true }]

/-- Calls without results do not match. -/
lemma not_matched {a m : ChatMessage} {ms : List ChatMessage} (calls : a.toolCalls ≠ []) (role : a.role = .assistant)
    (next : m.role ≠ .tool) : ¬ Matched (a :: m :: ms) := by
  intro w
  obtain ⟨ts, rest, e, A, -⟩ := w.exchange_inv role calls
  cases ts with
  | nil =>
    obtain ⟨tc, tcs, some⟩ := List.exists_cons_of_ne_nil calls
    have none := A.once tc.id (by simp [some])
    simp at none
  | cons t ts =>
    have same := (List.cons.inj e).1
    exact next (same ▸ A.tools t List.mem_cons_self)

/-- Each of them is well paired, and what a compaction leaves visible is not. -/
theorem taken_apart :
    (Matched (messagesForLlm parted) ∧
      ¬ Matched (messagesForLlm (summarise (fun _ => none) 2 9 (some "S") parted))) ∧
    (Matched (messagesForLlm nameless) ∧
      ¬ Matched (messagesForLlm (summarise (fun _ => some (.dict fun _ => some "s")) 0 9 (some "S") nameless))) ∧
    (Matched (messagesForLlm hiddenResult) ∧
      ¬ Matched (messagesForLlm (summarise (fun _ => none) 0 9 (some "S") hiddenResult))) ∧
    Matched (messagesForLlm summaryResult) ∧
      ¬ Matched (messagesForLlm (summarise (fun _ => none) 1 9 (some "S") summaryResult)) := by
  refine ⟨⟨asked_compactable.paired, fun w => ?_⟩, ⟨?_, fun w => ?_⟩, ⟨?_, fun w => ?_⟩, ?_, fun w => ?_⟩
  · exact not_matched (by decide) rfl (by decide) w
  · apply @Matched.exchange _ [{ oid := 2, role := .tool, toolCallId := "k" }, { oid := 3, role := .tool }] []
    · exact ⟨rfl, by decide, by decide, by decide, by decide⟩
    · exact .nil
  · obtain ⟨ts, rest, e, A, -⟩ := w.exchange_inv rfl (by decide)
    have one := A.once "" (by decide)
    obtain ⟨t, ht, id⟩ := List.mem_map.mp (List.count_pos_iff.mp (one ▸ Nat.one_pos))
    have left : ts ++ rest = [{ oid := 2, role := .tool, toolCallId := "k", pinned := true }, summaryMessage 9 "S"] :=
      e.symm
    have mem := left ▸ List.mem_append_left rest ht
    have tool := A.tools t ht
    simp only [List.mem_cons, List.not_mem_nil, or_false] at mem
    rcases mem with rfl | rfl
    · exact absurd id (by decide)
    · exact absurd tool (by decide)
  · apply @Matched.exchange _
      [{ oid := 2, role := .tool, toolCallId := "c", extra := { hiddenFromSummary := true } }] []
    · exact ⟨rfl, by decide, by decide, by decide, by decide⟩
    · exact .nil
  · have w' : Matched [{ oid := 2, role := .tool, toolCallId := "c", extra := { hiddenFromSummary := true } }] :=
      Matched.tail w fun role => rfl
    exact w'.begins _ rfl rfl
  · refine .single (by decide) (by decide) ?_
    apply @Matched.exchange _ [{ oid := 2, role := .tool, toolCallId := "c", isSummary := true }] []
    · exact ⟨rfl, by decide, by decide, by decide, by decide⟩
    · exact .nil
  · exact not_matched (by decide) rfl (by decide) w

end OpenAgentd.Loop
