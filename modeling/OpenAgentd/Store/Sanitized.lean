import OpenAgentd.Store.Pairing

/-!
# What sanitising repairs

`sanitize_tool_message_pairs` and `sanitize_openai_tool_pairs` (`app/agent/providers/openai/sanitization.py`) are one
pass and differ in what becomes of an answer whose calls they strip (`pairLoop`). Behind an answer that keeps its
calls the pass lets the first result of each id through (`firstAnswers`), so what it returns is a sequence of single
messages and answered calls, unless an answer has a call without an id beside others that are answered: the pass
looks at the ids that are there and keeps the nameless call with them (`repairs_iff`).
-/

namespace OpenAgentd.Store

/-! ## The pass -/

/-- The ids the results of an answer are expected under. -/
def callIds (m : ChatMessage) : List String := (m.toolCalls.map ToolCall.id).filter fun id => id ≠ ""

/-- The answer keeps its calls in front of `ms`. -/
def KeepsCalls (m : ChatMessage) (ms : List ChatMessage) : Prop :=
  callIds m ≠ [] ∧ ∀ id ∈ callIds m, id ∈ followingToolIds ms

instance (m : ChatMessage) (ms : List ChatMessage) : Decidable (KeepsCalls m ms) :=
  inferInstanceAs (Decidable (_ ∧ _))

/-- `msg.model_copy(update={"tool_calls": None})`. -/
def bare (m : ChatMessage) : ChatMessage := { m with toolCalls := [] }

/-- The text of an answer, if it says something. -/
def speaks (m : ChatMessage) : Bool := m.content.any fun c => c ≠ ""

/-- The loop that both functions have, with `strip` for an answer whose calls go. -/
def pairLoop (strip : ChatMessage → List ChatMessage) : List String → List ChatMessage → List ChatMessage
  | _, [] => []
  | expected, m :: ms =>
    match m.role with
    | .assistant =>
      if m.toolCalls = [] then m :: pairLoop strip [] ms
      else if KeepsCalls m ms then m :: pairLoop strip (callIds m) ms
      else strip m ++ pairLoop strip [] ms
    | .tool =>
      if m.toolCallId ≠ "" ∧ m.toolCallId ∈ expected then
        m :: pairLoop strip (expected.filter fun id => id ≠ m.toolCallId) ms
      else pairLoop strip expected ms
    | _ => m :: pairLoop strip [] ms

/-- `sanitize_openai_tool_pairs`. -/
def sanitizeOpenaiToolPairs (messages : List ChatMessage) : List ChatMessage :=
  pairLoop (fun m => [bare m]) [] messages

/-- The history drops a stripped answer that says nothing. -/
def stripSilent (m : ChatMessage) : List ChatMessage := if speaks m then [bare m] else []

/-- The loop that drops silent messages. -/
lemma sanitizeLoop_eq (expected : List String) (ms : List ChatMessage) :
    sanitizeLoop expected ms = pairLoop stripSilent expected ms := by
  induction ms generalizing expected with
  | nil => rfl
  | cons m ms ih =>
    rw [sanitizeLoop, pairLoop]
    cases role : m.role with
    | assistant =>
      simp only [ih]
      by_cases calls : m.toolCalls = []
      · rw [if_pos calls, if_pos calls]
      · rw [if_neg calls, if_neg calls]
        by_cases keeps : KeepsCalls m ms
        · rw [if_pos keeps]
          exact if_pos keeps
        · rw [if_neg keeps]
          refine (if_neg keeps).trans ?_
          rw [← role]
          unfold stripSilent speaks
          split
          · rfl
          · rfl
    | tool => simp only [ih]
    | user => simp only [ih]
    | system => simp only [ih]

/-- The sanitizer is that loop. -/
lemma sanitizeToolMessagePairs_eq (ms : List ChatMessage) :
    sanitizeToolMessagePairs ms = pairLoop stripSilent [] ms :=
  sanitizeLoop_eq [] ms

/-! ## Well paired lists -/

/-- The results behind an answer: each call has exactly one, and there are no others. -/
structure Answered (a : ChatMessage) (ts : List ChatMessage) : Prop where
  assistant : a.role = .assistant
  calls : a.toolCalls ≠ []
  tools : ∀ t ∈ ts, t.role = .tool
  once : ∀ id ∈ a.toolCalls.map ToolCall.id, (ts.map ChatMessage.toolCallId).count id = 1
  only : ∀ t ∈ ts, t.toolCallId ∈ a.toolCalls.map ToolCall.id

/-- A list of single messages and of answers with calls, each directly in front of its results. -/
inductive Matched : List ChatMessage → Prop where
  | nil :
    Matched []
  | single {m ms} :
    m.role ≠ .tool →
    (m.role = .assistant → m.toolCalls = []) →
    Matched ms →
    Matched (m :: ms)
  | exchange {a ts ms} :
    Answered a ts →
    Matched ms →
    Matched (a :: (ts ++ ms))

/-- No call of the list is without an id. -/
def Named (ms : List ChatMessage) : Prop := ∀ m ∈ ms, m.role = .assistant → ∀ tc ∈ m.toolCalls, tc.id ≠ ""

/-- No answer that keeps its calls has one without an id. -/
def NamedWhereKept : List ChatMessage → Prop
  | [] => True
  | m :: ms => (m.role = .assistant → KeepsCalls m ms → ∀ tc ∈ m.toolCalls, tc.id ≠ "") ∧ NamedWhereKept ms

/-- What must not be touched of a message: all of it, the text of an answer, nothing of a result. -/
def spoken (m : ChatMessage) : Option ChatMessage :=
  match m.role with
  | .assistant => if speaks m then some (bare m) else none
  | .tool => none
  | _ => some m

/-- A function that repairs the list. -/
structure Repairs (f : List ChatMessage → List ChatMessage) (ms : List ChatMessage) : Prop where
  paired : Matched (f ms)
  idempotent : f (f ms) = f ms
  identity : Matched ms → f ms = ms
  spoken : (f ms).filterMap spoken = ms.filterMap spoken

/-! ## Behind an answer -/

/-- The first result of each expected id at the head of a list. -/
def firstAnswers : List String → List ChatMessage → List ChatMessage
  | _, [] => []
  | expected, m :: ms =>
    if m.role = .tool then
      if m.toolCallId ≠ "" ∧ m.toolCallId ∈ expected then
        m :: firstAnswers (expected.filter fun id => id ≠ m.toolCallId) ms
      else firstAnswers expected ms
    else []

section
variable {strip : ChatMessage → List ChatMessage} {expected ids : List String} {m t : ChatMessage}
  {ms ts ts' rest : List ChatMessage} {id : String}

/-- What is expected makes a difference for the results at the head only. -/
lemma pairLoop_eq : pairLoop strip expected ms = firstAnswers expected ms ++ pairLoop strip [] ms := by
  induction ms generalizing expected with
  | nil => rfl
  | cons m ms ih =>
    rw [pairLoop, pairLoop, firstAnswers]
    cases role : m.role with
    | tool =>
      have unexpected : ¬(m.toolCallId ≠ "" ∧ m.toolCallId ∈ ([] : List String)) := by simp
      simp only [if_neg unexpected, if_true]
      split
      · rw [ih]
        rfl
      · exact ih
    | assistant => rfl
    | user => rfl
    | system => rfl

/-- First answers answer. -/
lemma firstAnswers_tools (h : t ∈ firstAnswers expected ms) :
    t.role = .tool ∧ t.toolCallId ≠ "" ∧ t.toolCallId ∈ expected := by
  induction ms generalizing expected with
  | nil => cases h
  | cons m ms ih =>
    unfold firstAnswers at h
    split at h
    · rename_i role
      split at h
      · rename_i wanted
        cases List.mem_cons.mp h with
        | inl e => exact e ▸ ⟨role, wanted⟩
        | inr h =>
          obtain ⟨role', named, mem⟩ := ih h
          exact ⟨role', named, (List.mem_filter.mp mem).1⟩
      · exact ih h
    · cases h

/-- No answer that is not expected. -/
lemma firstAnswers_count_of_not_mem (out : id ∉ expected) :
    ((firstAnswers expected ms).map ChatMessage.toolCallId).count id = 0 := by
  rw [List.count_eq_zero]
  intro h
  obtain ⟨t, ht, e⟩ := List.mem_map.mp h
  exact out (e ▸ (firstAnswers_tools ht).2.2)

/-- Every expected id that is answered is answered once. -/
lemma firstAnswers_count (wanted : id ∈ expected) (here : id ∈ followingToolIds ms) :
    ((firstAnswers expected ms).map ChatMessage.toolCallId).count id = 1 := by
  induction ms generalizing expected with
  | nil => cases here
  | cons m ms ih =>
    unfold followingToolIds at here
    unfold firstAnswers
    by_cases role : m.role = .tool
    · rw [if_pos role] at here ⊢
      by_cases named : m.toolCallId ≠ ""
      · rw [if_pos named] at here
        by_cases e : m.toolCallId = id
        · rw [if_pos ⟨named, e ▸ wanted⟩, List.map_cons, e, List.count_cons_self,
            firstAnswers_count_of_not_mem (by simp)]
        · have later := (List.mem_cons.mp here).resolve_left (Ne.symm e)
          split
          · rw [List.map_cons, List.count_cons_of_ne e]
            exact ih (List.mem_filter.mpr ⟨wanted, by simpa using Ne.symm e⟩) later
          · exact ih wanted later
      · rw [if_neg named] at here
        rw [if_neg fun h => named h.1]
        exact ih wanted here
    · rw [if_neg role] at here
      cases here

/-- Behind an answer that keeps its calls come their results. -/
lemma KeepsCalls.answered (k : KeepsCalls m ms) (role : m.role = .assistant) (calls : m.toolCalls ≠ [])
    (named : ∀ tc ∈ m.toolCalls, tc.id ≠ "") : Answered m (firstAnswers (callIds m) ms) where
  assistant := role
  calls := calls
  tools t ht := (firstAnswers_tools ht).1
  once id hid := by
    have mem : id ∈ callIds m := by
      obtain ⟨tc, htc, rfl⟩ := List.mem_map.mp hid
      exact List.mem_filter.mpr ⟨hid, by simpa using named tc htc⟩
    exact firstAnswers_count mem (k.2 id mem)
  only t ht := (List.mem_filter.mp (firstAnswers_tools ht).2.2).1

/-! ## One message -/

/-- What becomes of a message in front of `ms`, where no result is expected. -/
inductive Fate (m : ChatMessage) (ms : List ChatMessage) : Prop where
  | result :
    m.role = .tool →
    Fate m ms
  | plain :
    m.role ≠ .tool →
    (m.role = .assistant → m.toolCalls = []) →
    Fate m ms
  | kept :
    m.role = .assistant →
    m.toolCalls ≠ [] →
    KeepsCalls m ms →
    Fate m ms
  | stripped :
    m.role = .assistant →
    m.toolCalls ≠ [] →
    ¬ KeepsCalls m ms →
    Fate m ms

/-- What becomes of a message. -/
lemma fate (m : ChatMessage) (ms : List ChatMessage) : Fate m ms := by
  cases role : m.role with
  | tool => exact .result role
  | assistant =>
    by_cases calls : m.toolCalls = []
    · exact .plain (by simp [role]) fun _ => calls
    · by_cases keeps : KeepsCalls m ms
      · exact .kept role calls keeps
      · exact .stripped role calls keeps
  | user => exact .plain (by simp [role]) (by simp [role])
  | system => exact .plain (by simp [role]) (by simp [role])

/-- A stray result is dropped. -/
lemma pairLoop_result (role : m.role = .tool) : pairLoop strip [] (m :: ms) = pairLoop strip [] ms := by
  rw [pairLoop, role]
  simp

/-- A plain message is kept. -/
lemma pairLoop_plain (role : m.role ≠ .tool) (plain : m.role = .assistant → m.toolCalls = []) :
    pairLoop strip [] (m :: ms) = m :: pairLoop strip [] ms := by
  rw [pairLoop]
  cases e : m.role with
  | tool => exact absurd e role
  | assistant => simp [plain e]
  | user => rfl
  | system => rfl

/-- Calls with answers are kept. -/
lemma pairLoop_kept (role : m.role = .assistant) (calls : m.toolCalls ≠ []) (keeps : KeepsCalls m ms) :
    pairLoop strip [] (m :: ms) = m :: (firstAnswers (callIds m) ms ++ pairLoop strip [] ms) := by
  rw [pairLoop, role]
  simp only [if_neg calls, if_pos keeps]
  rw [pairLoop_eq]

/-- Calls without answers are stripped. -/
lemma pairLoop_stripped (role : m.role = .assistant) (calls : m.toolCalls ≠ []) (keeps : ¬ KeepsCalls m ms) :
    pairLoop strip [] (m :: ms) = strip m ++ pairLoop strip [] ms := by
  rw [pairLoop, role]
  simp only [if_neg calls, if_neg keeps]

/-- A stripped answer is there without its calls, or gone if it says nothing. -/
def Strips (strip : ChatMessage → List ChatMessage) : Prop :=
  ∀ m, strip m = [bare m] ∨ strip m = [] ∧ speaks m = false

/-- A list that begins with no result. -/
def Begins (ms : List ChatMessage) : Prop := ∀ m ∈ ms.head?, m.role ≠ .tool

/-- The repaired list begins well. -/
lemma Strips.begins (S : Strips strip) : Begins (pairLoop strip [] ms) := by
  induction ms with
  | nil => simp [Begins, pairLoop]
  | cons m ms ih =>
    cases fate m ms with
    | result role =>
      rw [pairLoop_result role]
      exact ih
    | plain role plain =>
      rw [pairLoop_plain role plain]
      simpa [Begins] using role
    | kept role calls keeps =>
      rw [pairLoop_kept role calls keeps]
      simp [Begins, role]
    | stripped role calls keeps =>
      rw [pairLoop_stripped role calls keeps]
      cases S m with
      | inl e => simp [Begins, e, bare, role]
      | inr e => simpa [e.1] using ih

/-- A matched list begins well. -/
lemma Matched.begins (w : Matched ms) : Begins ms := by
  cases w with
  | nil => simp [Begins]
  | single role => simpa [Begins] using role
  | exchange A => simp [Begins, A.assistant]

/-- The results in front of a list that begins with none are told apart from it. -/
lemma append_begins (tools : ∀ t ∈ ts, t.role = .tool) (tools' : ∀ t ∈ ts', t.role = .tool) (b : Begins ms)
    (b' : Begins rest) (e : ts ++ ms = ts' ++ rest) : ts = ts' ∧ ms = rest := by
  induction ts generalizing ts' with
  | nil =>
    cases ts' with
    | nil => exact ⟨rfl, e⟩
    | cons t ts' =>
      rw [List.nil_append] at e
      exact absurd (tools' t List.mem_cons_self) (b t (by simp [e]))
  | cons t ts ih =>
    cases ts' with
    | nil =>
      rw [List.nil_append] at e
      exact absurd (tools t List.mem_cons_self) (b' t (by simp [← e]))
    | cons t' ts' =>
      obtain ⟨here, e⟩ := List.cons.inj e
      obtain ⟨same, e⟩ := ih (fun k hk => tools k (List.mem_cons_of_mem _ hk))
        (fun k hk => tools' k (List.mem_cons_of_mem _ hk)) e
      exact ⟨by rw [here, same], e⟩

/-- Results that nothing expects are passed by. -/
lemma pairLoop_tools (tools : ∀ t ∈ ts, t.role = .tool) : pairLoop strip [] (ts ++ ms) = pairLoop strip [] ms := by
  induction ts with
  | nil => rfl
  | cons t ts ih =>
    rw [List.cons_append, pairLoop_result (tools t List.mem_cons_self)]
    exact ih fun k hk => tools k (List.mem_cons_of_mem _ hk)

/-! ## The result is well paired -/

/-- An answer with calls is in front of its results. -/
lemma Matched.exchange_inv (w : Matched (m :: ms)) (role : m.role = .assistant) (calls : m.toolCalls ≠ []) :
    ∃ ts rest, ms = ts ++ rest ∧ Answered m ts ∧ Matched rest := by
  generalize e : m :: ms = l at w
  cases w with
  | nil => cases e
  | single _ plain _ =>
    cases e
    exact absurd (plain role) calls
  | exchange A w =>
    cases e
    exact ⟨_, _, rfl, A, w⟩

/-- Behind a plain message all is matched. -/
lemma Matched.tail (w : Matched (m :: ms)) (plain : m.role = .assistant → m.toolCalls = []) :
    Matched ms := by
  generalize e : m :: ms = l at w
  cases w with
  | nil => cases e
  | single _ _ w =>
    cases e
    exact w
  | exchange A _ =>
    cases e
    exact absurd (plain A.assistant) A.calls

/-- The repaired list is matched. -/
lemma Strips.wellPaired (S : Strips strip) (named : NamedWhereKept ms) : Matched (pairLoop strip [] ms) := by
  induction ms with
  | nil => exact .nil
  | cons m ms ih =>
    have w := ih named.2
    cases fate m ms with
    | result role =>
      rw [pairLoop_result role]
      exact w
    | plain role plain =>
      rw [pairLoop_plain role plain]
      exact .single role plain w
    | kept role calls keeps =>
      rw [pairLoop_kept role calls keeps]
      exact .exchange (keeps.answered role calls (named.1 role keeps)) w
    | stripped role calls keeps =>
      rw [pairLoop_stripped role calls keeps]
      cases S m with
      | inl e =>
        rw [e]
        exact .single (by simp [bare, role]) (fun _ => rfl) w
      | inr e =>
        rw [e.1]
        exact w

/-- A call without an id has no result behind the pass. -/
lemma Strips.namedWhereKept (S : Strips strip) (w : Matched (pairLoop strip [] ms)) : NamedWhereKept ms := by
  induction ms with
  | nil => trivial
  | cons m ms ih =>
    cases fate m ms with
    | result role =>
      rw [pairLoop_result role] at w
      exact ⟨by simp [role], ih w⟩
    | plain role plain =>
      rw [pairLoop_plain role plain] at w
      refine ⟨fun assistant _ => ?_, ih (w.tail plain)⟩
      simp [plain assistant]
    | kept role calls keeps =>
      rw [pairLoop_kept role calls keeps] at w
      obtain ⟨ts, rest, e, A, w'⟩ := w.exchange_inv role calls
      obtain ⟨results, behind⟩ := append_begins (fun t ht => (firstAnswers_tools ht).1) A.tools S.begins w'.begins e
      refine ⟨fun _ _ tc htc nameless => ?_, ih (behind ▸ w')⟩
      have once := A.once tc.id (List.mem_map_of_mem htc)
      have mem : tc.id ∈ ts.map ChatMessage.toolCallId := List.count_pos_iff.mp (by omega)
      rw [← results] at mem
      obtain ⟨t, ht, id⟩ := List.mem_map.mp mem
      exact (firstAnswers_tools ht).2.1 (id.trans nameless)
    | stripped role calls keeps =>
      rw [pairLoop_stripped role calls keeps] at w
      refine ⟨fun _ k => absurd k keeps, ih ?_⟩
      cases S m with
      | inl e =>
        rw [e] at w
        exact Matched.tail w fun _ => rfl
      | inr e =>
        rw [e.1] at w
        exact w

/-! ## A second pass changes nothing -/

/-- No answers in front. -/
lemma firstAnswers_begins (b : Begins ms) : firstAnswers expected ms = [] := by
  cases ms with
  | nil => rfl
  | cons m ms =>
    rw [firstAnswers]
    exact if_neg (b m rfl)

/-- Answers are found again. -/
lemma firstAnswers_again (b : Begins rest) :
    firstAnswers expected (firstAnswers expected ms ++ rest) = firstAnswers expected ms := by
  induction ms generalizing expected with
  | nil => exact firstAnswers_begins b
  | cons m ms ih =>
    by_cases role : m.role = .tool
    · by_cases wanted : m.toolCallId ≠ "" ∧ m.toolCallId ∈ expected
      · have e : firstAnswers expected (m :: ms) =
            m :: firstAnswers (expected.filter fun id => id ≠ m.toolCallId) ms := by
          rw [firstAnswers, if_pos role, if_pos wanted]
        rw [e, List.cons_append, firstAnswers, if_pos role, if_pos wanted, ih]
      · have e : firstAnswers expected (m :: ms) = firstAnswers expected ms := by
          rw [firstAnswers, if_pos role, if_neg wanted]
        rw [e]
        exact ih
    · have e : firstAnswers expected (m :: ms) = [] := by rw [firstAnswers, if_neg role]
      rw [e]
      exact firstAnswers_begins b

/-- Calls are kept again. -/
lemma KeepsCalls.again (k : KeepsCalls m ms) : KeepsCalls m (firstAnswers (callIds m) ms ++ rest) := by
  refine ⟨k.1, fun id hid => ?_⟩
  rw [followingToolIds_append rest (fun t ht => (firstAnswers_tools ht).1) fun t ht => (firstAnswers_tools ht).2.1]
  refine List.mem_append_left _ (List.count_pos_iff.mp ?_)
  rw [firstAnswers_count hid (k.2 id hid)]
  exact Nat.one_pos

/-- A second repair changes nothing. -/
lemma Strips.idempotent (S : Strips strip) : pairLoop strip [] (pairLoop strip [] ms) = pairLoop strip [] ms := by
  induction ms with
  | nil => rfl
  | cons m ms ih =>
    cases fate m ms with
    | result role =>
      rw [pairLoop_result role]
      exact ih
    | plain role plain => rw [pairLoop_plain role plain, pairLoop_plain role plain, ih]
    | kept role calls keeps =>
      rw [pairLoop_kept role calls keeps, pairLoop_kept role calls keeps.again, firstAnswers_again S.begins,
        pairLoop_tools fun t ht => (firstAnswers_tools ht).1, ih]
    | stripped role calls keeps =>
      rw [pairLoop_stripped role calls keeps]
      cases S m with
      | inl e =>
        rw [e, List.singleton_append, pairLoop_plain (by simp [bare, role]) fun _ => rfl, ih]
      | inr e =>
        rw [e.1]
        exact ih

/-! ## A well paired list is left alone -/

/-- All answers are first ones. -/
lemma firstAnswers_all (tools : ∀ t ∈ ts, t.role = .tool)
    (wanted : ∀ t ∈ ts, t.toolCallId ≠ "" ∧ t.toolCallId ∈ expected)
    (once : (ts.map ChatMessage.toolCallId).Nodup) (b : Begins ms) : firstAnswers expected (ts ++ ms) = ts := by
  induction ts generalizing expected with
  | nil => exact firstAnswers_begins b
  | cons t ts ih =>
    obtain ⟨fresh, once⟩ := List.nodup_cons.mp once
    rw [List.cons_append, firstAnswers, if_pos (tools t List.mem_cons_self), if_pos (wanted t List.mem_cons_self)]
    refine congrArg (t :: ·) (ih (fun k hk => tools k (List.mem_cons_of_mem _ hk)) (fun k hk => ?_) once)
    obtain ⟨named, mem⟩ := wanted k (List.mem_cons_of_mem _ hk)
    refine ⟨named, List.mem_filter.mpr ⟨mem, ?_⟩⟩
    have ne : k.toolCallId ≠ t.toolCallId := fun e => fresh (e ▸ List.mem_map_of_mem hk)
    simpa using ne

/-- No call is answered twice. -/
lemma Answered.nodup (A : Answered m ts) : (ts.map ChatMessage.toolCallId).Nodup := by
  rw [List.nodup_iff_count_le_one]
  intro id
  by_cases mem : id ∈ ts.map ChatMessage.toolCallId
  · obtain ⟨t, ht, rfl⟩ := List.mem_map.mp mem
    exact (A.once _ (A.only t ht)).le
  · rw [List.count_eq_zero_of_not_mem mem]
    exact Nat.zero_le 1

/-- A matched list is left alone. -/
lemma Matched.identity (w : Matched ms) (named : Named ms) : pairLoop strip [] ms = ms := by
  induction w with
  | nil => rfl
  | single role plain _ ih =>
    rw [pairLoop_plain role plain, ih fun k hk => named k (List.mem_cons_of_mem _ hk)]
  | @exchange a ts ms A w ih =>
    have ids : callIds a = a.toolCalls.map ToolCall.id := by
      unfold callIds
      rw [List.filter_eq_self]
      intro id hid
      obtain ⟨tc, htc, rfl⟩ := List.mem_map.mp hid
      simpa using named a List.mem_cons_self A.assistant tc htc
    have wanted : ∀ t ∈ ts, t.toolCallId ≠ "" ∧ t.toolCallId ∈ callIds a := by
      intro t ht
      have only : t.toolCallId ∈ callIds a := ids ▸ A.only t ht
      exact ⟨by simpa using (List.mem_filter.mp only).2, only⟩
    have keeps : KeepsCalls a (ts ++ ms) := by
      refine ⟨by simpa [ids] using A.calls, fun id hid => ?_⟩
      rw [followingToolIds_append ms A.tools fun t ht => (wanted t ht).1]
      refine List.mem_append_left _ (List.count_pos_iff.mp ?_)
      rw [A.once id (ids ▸ hid)]
      exact Nat.one_pos
    rw [pairLoop_kept A.assistant A.calls keeps, firstAnswers_all A.tools wanted A.nodup w.begins,
      pairLoop_tools A.tools, ih fun k hk => named k (List.mem_cons_of_mem _ (List.mem_append_right _ hk))]

/-- What keeps its calls has them all with an id, if so it was where they were kept. -/
lemma Strips.named (S : Strips strip) (named : NamedWhereKept ms) : Named (pairLoop strip [] ms) := by
  induction ms with
  | nil =>
    intro m hm
    cases hm
  | cons m ms ih =>
    have later := ih named.2
    cases fate m ms with
    | result role =>
      rw [pairLoop_result role]
      exact later
    | plain role plain =>
      rw [pairLoop_plain role plain]
      intro k hk assistant
      cases List.mem_cons.mp hk with
      | inl e =>
        subst e
        simp [plain assistant]
      | inr hk => exact later k hk assistant
    | kept role calls keeps =>
      rw [pairLoop_kept role calls keeps]
      intro k hk assistant
      cases List.mem_cons.mp hk with
      | inl e => exact e ▸ named.1 role keeps
      | inr hk =>
        cases List.mem_append.mp hk with
        | inl ht =>
          rw [(firstAnswers_tools ht).1] at assistant
          cases assistant
        | inr hk => exact later k hk assistant
    | stripped role calls keeps =>
      rw [pairLoop_stripped role calls keeps]
      cases S m with
      | inl e =>
        rw [e]
        intro k hk assistant
        cases List.mem_cons.mp hk with
        | inl e =>
          subst e
          simp [bare]
        | inr hk => exact later k hk assistant
      | inr e =>
        rw [e.1]
        exact later

/-! ## What is not touched -/

/-- Results say nothing. -/
lemma filterMap_spoken_tools (tools : ∀ t ∈ ts, t.role = .tool) : ts.filterMap spoken = [] := by
  rw [List.filterMap_eq_nil_iff]
  intro t ht
  rw [spoken, tools t ht]

/-- Without calls the text stays. -/
lemma spoken_bare (role : m.role = .assistant) : spoken (bare m) = spoken m := by
  rw [spoken, spoken, show (bare m).role = m.role from rfl, role]
  rfl

/-- Repairs keep what is said. -/
lemma Strips.spoken (S : Strips strip) : (pairLoop strip [] ms).filterMap spoken = ms.filterMap spoken := by
  induction ms with
  | nil => rfl
  | cons m ms ih =>
    cases fate m ms with
    | result role => rw [pairLoop_result role, ih, List.filterMap_cons_none (by rw [Store.spoken, role])]
    | plain role plain => rw [pairLoop_plain role plain, List.filterMap_cons, List.filterMap_cons, ih]
    | kept role calls keeps =>
      rw [pairLoop_kept role calls keeps, List.filterMap_cons, List.filterMap_cons, List.filterMap_append,
        filterMap_spoken_tools fun t ht => (firstAnswers_tools ht).1, ih]
      rfl
    | stripped role calls keeps =>
      rw [pairLoop_stripped role calls keeps, List.filterMap_append, ih]
      cases S m with
      | inl e =>
        rw [e, List.filterMap_cons, List.filterMap_cons, spoken_bare role]
        cases Store.spoken m with
        | none => rfl
        | some k => rfl
      | inr e =>
        have silent : Store.spoken m = none := by
          rw [Store.spoken, role]
          simp [e.2]
        rw [e.1, List.filterMap_cons_none silent]
        rfl

/-- The pass repairs a list exactly when no answer that keeps its calls has one without an id, and a list that is well
paired before has none at all. -/
lemma Strips.repairs (S : Strips strip) :
    Repairs (pairLoop strip []) ms ↔ NamedWhereKept ms ∧ (Matched ms → Named ms) := by
  constructor
  · intro R
    have named := S.namedWhereKept R.paired
    exact ⟨named, fun w => R.identity w ▸ S.named named⟩
  · intro ⟨named, all⟩
    exact ⟨S.wellPaired named, S.idempotent, fun w => w.identity (all w), S.spoken⟩

/-- Silent messages may go. -/
lemma strips_silent : Strips stripSilent := by
  intro m
  unfold stripSilent
  cases h : speaks m with
  | true => exact .inl rfl
  | false => exact .inr ⟨rfl, rfl⟩

/-- Bare messages stay. -/
lemma strips_openai : Strips fun m => [bare m] := fun _ => .inl rfl

/-- Both functions repair a list exactly when no answer that keeps its calls has one without an id, and a list that is
well paired before has none at all. -/
theorem repairs_iff (ms : List ChatMessage) :
    (Repairs sanitizeToolMessagePairs ms ↔ NamedWhereKept ms ∧ (Matched ms → Named ms)) ∧
      (Repairs sanitizeOpenaiToolPairs ms ↔ NamedWhereKept ms ∧ (Matched ms → Named ms)) := by
  have e : sanitizeToolMessagePairs = pairLoop stripSilent [] := funext sanitizeToolMessagePairs_eq
  exact ⟨e ▸ strips_silent.repairs, strips_openai.repairs⟩

end

/-- An answer with two calls, one of them without an id, and the result of the other. -/
def halfNamed : List ChatMessage :=
  [{ oid := 0, role := .assistant, toolCalls := [⟨"a", "ls", "", none, none⟩, ⟨"", "ls", "", none, none⟩] },
    { oid := 1, role := .tool, toolCallId := "a" }]

/-- The call without an id stays, and nothing answers it. -/
theorem halfNamed_stays :
    sanitizeToolMessagePairs halfNamed = halfNamed ∧ sanitizeOpenaiToolPairs halfNamed = halfNamed ∧
    ¬ Repairs sanitizeToolMessagePairs halfNamed ∧ ¬ Repairs sanitizeOpenaiToolPairs halfNamed := by
  have unnamed : ¬ NamedWhereKept halfNamed :=
    fun n => n.1 rfl (by decide) ⟨"", "ls", "", none, none⟩ (by simp) rfl
  refine ⟨by decide, by decide, fun R => ?_, fun R => ?_⟩
  · have w := R.paired
    rw [sanitizeToolMessagePairs_eq] at w
    exact unnamed (strips_silent.namedWhereKept w)
  · exact unnamed (strips_openai.namedWhereKept R.paired)

end OpenAgentd.Store
