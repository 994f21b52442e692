import OpenAgentd.Loop.Agent

/-!
# The number of model calls

`Agent.run` gives an iteration back when the model could not be reached (`_call_model_with_resume`), so that the
iteration counter alone does not bound the loop. Here the hooks are arbitrary: whatever a phase of a pass does to the
messages, the metadata and the interrupt event, and wherever it raises (`Hooks`), only the loop itself touches
`_IterationBookkeeping`. `pass_effect` says what a pass does to the counters and to the log of the loop; `rank` goes
down in every pass that does not end the run, and bounds the calls that are left.
-/

namespace OpenAgentd.Loop
open OpenAgentd.Lib

/-- What hooks can change: `state.messages`, the flags of `state.metadata` that the loop reads, and the interrupt
event. -/
structure AgentState where
  messages : List ChatMessage
  event : Option Bool
  stopAfterBeforeModel : Bool := false
  endTurn : Bool := false

/-- The hooks of a phase, with the checkpoint behind them; `none` when one of them raises. -/
abbrev Hooks := AgentState → Option AgentState

/-- An assembled answer, with its `finish_reason` and whether tool calls were dropped. -/
structure Assembled where
  message : ChatMessage
  finishReason : Option String := none
  dropped : Bool := false

/-- How a call of the model chain ends, `wrap_model_call` included. -/
inductive ChainEnd where
  | answered (answer : Assembled)
  | unreachable
  | failed

/-- What happens in one pass of the loop. -/
structure Pass where
  between : AgentState → AgentState := id
  beforeModel : Hooks := some
  stub : Hooks := some
  chain : AgentState → AgentState × ChainEnd
  backoff : AgentState → AgentState := id
  afterModel : AgentState × Assembled → Option (AgentState × Assembled) := some
  tools : Tools := {}
  sync : Hooks := some

/-- `_IterationBookkeeping`. -/
structure Bookkeeping where
  iteration : Nat := 0
  emptyResponseRetries : Nat := 0
  providerResumeAttempts : Nat := 0

/-- What the loop logs of its model calls. -/
inductive LoopEvent where
  /-- the model chain is called -/
  | called
  /-- the call ends in a transient network error -/
  | unreachable
  /-- `provider_resume_attempts += 1` -/
  | budgetTaken (attempts : Nat)
  /-- `provider_resume_attempts = 0` -/
  | budgetReset
  /-- `iteration -= 1` -/
  | givenBack
  deriving DecidableEq

/-- The state of the loop. -/
structure Looping where
  state : AgentState
  bk : Bookkeeping := {}
  status : Status := .running
  log : List LoopEvent := []

/-- The state `_setup_run` hands to the loop. -/
def Looping.setup (history : List ChatMessage) (event : Option Bool) : Looping where
  state := { messages := history.filter fun m => m.role ≠ .system, event }

/-- The end of the loop. -/
def Looping.finish (s : Looping) (status : Status) : Looping := { s with status }

/-- The log with further events. -/
def Looping.note (s : Looping) (events : List LoopEvent) : Looping := { s with log := s.log ++ events }

/-- The hooks of a phase, and what follows unless one of them raises. -/
def Looping.phase (hooks : Hooks) (next : Looping → Looping) (s : Looping) : Looping :=
  match hooks s.state with
  | none => s.finish .raised
  | some state => next { s with state }

/-- The messages and the counter that `_finish_model_iteration` looks at. -/
def Looping.toRunState (s : Looping) : RunState where
  messages := s.state.messages
  event := s.state.event
  emptyResponseRetries := s.bk.emptyResponseRetries

/-- The transient network error of `_call_model_with_resume`, and the iteration that is given back. -/
def Looping.resume (p : Pass) (s : Looping) : Looping :=
  let attempts := s.bk.providerResumeAttempts + 1
  let s := { s with bk := { s.bk with providerResumeAttempts := attempts } }.note [.budgetTaken attempts]
  if attempts > maxProviderResumeAttempts then s.finish .raised
  else
    let s := { s with state := p.backoff s.state }
    if s.state.event = some true then s.finish .returned
    else { s with bk := { s.bk with iteration := s.bk.iteration - 1 } }.note [.givenBack]

/-- `_handle_finish_reason` for an answer without tool calls. -/
def Looping.handleFinishReason (p : Pass) (answer : Assembled) (s : Looping) : Looping :=
  if answer.finishReason = some "pause_turn" then s
  else if answer.finishReason = some "max_tokens" ∨ answer.finishReason = some "length" then
    let recovery := humanMessage (recoveryPrompt answer.dropped) { hiddenFromUser := true }
    { s with state := { s.state with messages := append s.state.messages recovery } }.phase p.sync id
  else s.finish .returned

/-- The pass from the tool calls on. -/
def Looping.runTools (merge : String → List String → String) (p : Pass) (a : ChatMessage) (s : Looping) : Looping :=
  if s.state.event = some true then
    let messages := skipToolDispatchForInterrupt s.state.messages a.toolCalls
    { s with state := { s.state with messages } }.finish .returned
  else
    let d := dispatchTools merge s.state.event p.tools a s.state.messages
    let s := { s with state := { s.state with messages := d.1, event := fire p.tools.interrupted s.state.event } }
    match d.2 with
    | .cancelled => s.finish .returned
    | .suspended primary => s.finish (.suspended primary)
    | .raised => s.finish .raised
    | .ok =>
      s.phase p.sync fun s =>
        let sleep := strip (a.content.getD "") = "<sleep>" ∨ strip (a.content.getD "") = "[sleep]"
        if s.state.endTurn ∨ sleep then s.finish .returned else s

/-- The pass from the `after_model` hooks on. -/
def Looping.afterModel (merge : String → List String → String) (p : Pass) (answer : Assembled) (s : Looping) : Looping :=
  match p.afterModel (s.state, answer) with
  | none => s.finish .raised
  | some (state, answer) =>
    let s := { s with state }
    if answer.message.toolCalls = [] then s.handleFinishReason p answer else s.runTools merge p answer.message

/-- The pass from the answer on: `_finish_model_iteration` and what follows. -/
def Looping.answer (merge : String → List String → String) (p : Pass) (answer : Assembled) (s : Looping) : Looping :=
  let decision := s.toRunState.emptyAnswer answer.message answer.finishReason answer.dropped
  let retries := s.toRunState.countEmpty answer.message answer.finishReason answer.dropped
  let s := { s with bk := { s.bk with emptyResponseRetries := retries, providerResumeAttempts := 0 } }.note
    [.budgetReset]
  match decision with
  | some true => s
  | some false => s.finish .raised
  | none =>
    let message := { answer.message with oid := newOid s.state.messages }
    { s with state := { s.state with messages := s.state.messages ++ [message] } }.afterModel merge p
      { answer with message }

/-- The pass from the call of the model chain on. -/
def Looping.callModel (merge : String → List String → String) (p : Pass) (s : Looping) : Looping :=
  let c := p.chain s.state
  let s := { s with state := c.1 }.note [.called]
  match c.2 with
  | .failed => s.finish .raised
  | .unreachable => (s.note [.unreachable]).resume p
  | .answered answer => s.answer merge p answer

/-- One pass of the loop of `Agent.run`. -/
def Looping.pass (maxIterations : Nat) (merge : String → List String → String) (p : Pass) (s : Looping) : Looping :=
  let s := { s with state := p.between s.state }
  if maxIterations ≤ s.bk.iteration then s.finish .returned
  else if s.state.event = some true then s.finish .returned
  else
    { s with bk := { s.bk with iteration := s.bk.iteration + 1 } }.phase p.beforeModel fun s =>
      if s.state.stopAfterBeforeModel then s.phase p.stub fun s => s.finish .returned
      else s.callModel merge p

/-- The loop after `n` passes. -/
def Looping.run (maxIterations : Nat) (merge : String → List String → String) (passes : Nat → Pass) (s : Looping) :
    Nat → Looping
  | 0 => s
  | n + 1 =>
    let t := s.run maxIterations merge passes n
    match t.status with
    | .running => t.pass maxIterations merge (passes n)
    | _ => t

/-! ## What a pass does to the counters -/

/-- Nothing is counted or logged. -/
def Quiet (s t : Looping) : Prop := t.bk = s.bk ∧ t.log = s.log

section
variable {maxIterations : Nat} {merge : String → List String → String} {p : Pass} {s t : Looping}

/-- A phase of quiet steps is quiet. -/
lemma Quiet.phase {hooks : Hooks} {next : Looping → Looping}
    (h : ∀ state, Quiet { s with state } (next { s with state })) : Quiet s (s.phase hooks next) := by
  unfold Looping.phase
  cases hooks s.state with
  | none => exact ⟨rfl, rfl⟩
  | some state => exact h state

/-- The end of an answer is quiet. -/
lemma quiet_handleFinishReason (answer : Assembled) : Quiet s (s.handleFinishReason p answer) := by
  unfold Looping.handleFinishReason
  split
  · exact ⟨rfl, rfl⟩
  · split
    · exact Quiet.phase fun _ => ⟨rfl, rfl⟩
    · exact ⟨rfl, rfl⟩

/-- Running the tools is quiet. -/
lemma quiet_runTools (a : ChatMessage) : Quiet s (s.runTools merge p a) := by
  unfold Looping.runTools
  split
  · exact ⟨rfl, rfl⟩
  · dsimp only
    split
    · exact ⟨rfl, rfl⟩
    · exact ⟨rfl, rfl⟩
    · exact ⟨rfl, rfl⟩
    · refine Quiet.phase fun state => ?_
      dsimp only
      split
      · exact ⟨rfl, rfl⟩
      · exact ⟨rfl, rfl⟩

/-- What follows the model is quiet. -/
lemma quiet_afterModel (answer : Assembled) : Quiet s (s.afterModel merge p answer) := by
  unfold Looping.afterModel
  cases p.afterModel (s.state, answer) with
  | none => exact ⟨rfl, rfl⟩
  | some r =>
    dsimp only
    split
    · exact quiet_handleFinishReason (s := { s with state := r.1 }) _
    · exact quiet_runTools (s := { s with state := r.1 }) _

/-- Whatever the answer is, it resets the budget. -/
lemma answer_effect (answer : Assembled) :
    (s.answer merge p answer).bk.iteration = s.bk.iteration ∧
      (s.answer merge p answer).bk.providerResumeAttempts = 0 ∧
      (s.answer merge p answer).log = s.log ++ [.budgetReset] := by
  unfold Looping.answer
  dsimp only
  split
  · exact ⟨rfl, rfl, rfl⟩
  · exact ⟨rfl, rfl, rfl⟩
  · obtain ⟨bk, log⟩ := @quiet_afterModel merge p _ _
    rw [bk, log]
    exact ⟨rfl, rfl, rfl⟩

/-- What a pass of the loop does to `_IterationBookkeeping` and to the log. -/
inductive Effect (maxIterations : Nat) (s t : Looping) : Prop where
  /-- it ends without a call -/
  | quiet :
    t.status ≠ .running →
    t.log = s.log →
    Effect maxIterations s t
  /-- the call fails -/
  | failed :
    s.bk.iteration < maxIterations →
    t.status ≠ .running →
    t.log = s.log ++ [.called] →
    Effect maxIterations s t
  /-- the model cannot be reached, and the run ends -/
  | gaveUp :
    s.bk.iteration < maxIterations →
    t.status ≠ .running →
    t.log = s.log ++ [.called, .unreachable, .budgetTaken (s.bk.providerResumeAttempts + 1)] →
    Effect maxIterations s t
  /-- the model cannot be reached, and the iteration is given back -/
  | resumed :
    s.bk.iteration < maxIterations →
    s.bk.providerResumeAttempts + 1 ≤ maxProviderResumeAttempts →
    t.bk.iteration = s.bk.iteration →
    t.bk.providerResumeAttempts = s.bk.providerResumeAttempts + 1 →
    t.log = s.log ++ [.called, .unreachable, .budgetTaken (s.bk.providerResumeAttempts + 1), .givenBack] →
    Effect maxIterations s t
  /-- the model answers -/
  | answered :
    s.bk.iteration < maxIterations →
    t.bk.iteration = s.bk.iteration + 1 →
    t.bk.providerResumeAttempts = 0 →
    t.log = s.log ++ [.called, .budgetReset] →
    Effect maxIterations s t

/-- The call of the model, in the iteration it has begun. -/
lemma callModel_effect (lt : s.bk.iteration < maxIterations) (state : AgentState) :
    Effect maxIterations s
      ({ s with state, bk := { s.bk with iteration := s.bk.iteration + 1 } }.callModel merge p) := by
  unfold Looping.callModel
  dsimp only
  cases (p.chain state).2 with
  | failed => exact .failed lt (by simp [Looping.finish]) rfl
  | unreachable =>
    dsimp only
    unfold Looping.resume
    dsimp only
    split
    · refine .gaveUp lt (by simp [Looping.finish]) ?_
      simp [Looping.finish, Looping.note]
    · rename_i within
      split
      · refine .gaveUp lt (by simp [Looping.finish]) ?_
        simp [Looping.finish, Looping.note]
      · refine .resumed lt ?_ ?_ ?_ ?_
        · exact not_lt.mp within
        · simp [Looping.note]
        · simp [Looping.note]
        · simp [Looping.note]
  | answered answer =>
    obtain ⟨iteration, attempts, log⟩ := @answer_effect merge p _ answer
    refine .answered lt iteration attempts ?_
    rw [log]
    simp [Looping.note]

/-- Every pass has one of the effects. -/
lemma pass_effect (maxIterations : Nat) (merge : String → List String → String) (p : Pass) (s : Looping) :
    Effect maxIterations s (s.pass maxIterations merge p) := by
  have ended : ∀ (t : Looping) (status : Status), t.log = s.log → status ≠ .running →
      Effect maxIterations s (t.finish status) := fun t status log ne => .quiet ne log
  unfold Looping.pass
  dsimp only
  split
  · exact ended _ _ rfl Status.noConfusion
  · rename_i more
    split
    · exact ended _ _ rfl Status.noConfusion
    · unfold Looping.phase
      dsimp only
      split
      · exact ended _ _ rfl Status.noConfusion
      · split
        · split
          · exact ended _ _ rfl Status.noConfusion
          · exact ended _ _ rfl Status.noConfusion
        · exact callModel_effect (not_le.mp more) _

end

/-! ## The bound -/

/-- Each iteration that is given back is paid for by the failed call in front of it. -/
def Paid (log : List LoopEvent) : Prop :=
  ∀ pre post, log = pre ++ .givenBack :: post →
    ∃ front k, pre = front ++ [.called, .unreachable, .budgetTaken k] ∧ k ≤ maxProviderResumeAttempts

/-- The calls that are left: those of the iterations left, without the attempts that are taken. -/
def Looping.rank (maxIterations : Nat) (s : Looping) : Nat :=
  (maxIterations - s.bk.iteration) * (maxProviderResumeAttempts + 1) - s.bk.providerResumeAttempts

/-- The invariant of the loop. -/
structure InBudget (maxIterations : Nat) (s : Looping) : Prop where
  attempts : s.status = .running → s.bk.providerResumeAttempts ≤ maxProviderResumeAttempts
  calls : s.log.count .called ≤ maxIterations * (maxProviderResumeAttempts + 1)
  left : s.status = .running →
    s.log.count .called + s.rank maxIterations ≤ maxIterations * (maxProviderResumeAttempts + 1)
  paid : Paid s.log

section
variable {maxIterations : Nat} {merge : String → List String → String} {passes : Nat → Pass} {s t : Looping}
  {log : List LoopEvent}

/-- Further events. -/
lemma Paid.append {events : List LoopEvent} (h : Paid log) (none : .givenBack ∉ events) :
    Paid (log ++ events) := by
  intro pre post e
  cases List.append_eq_append_iff.mp e with
  | inl later =>
    obtain ⟨mid, -, e⟩ := later
    refine absurd ?_ none
    rw [e]
    simp
  | inr earlier =>
    obtain ⟨mid, e, e'⟩ := earlier
    cases mid with
    | nil =>
      refine absurd ?_ none
      rw [List.nil_append] at e'
      rw [← e']
      simp
    | cons x mid =>
      obtain ⟨rfl, -⟩ := List.cons.inj e'
      exact h pre mid e

/-- An iteration that is given back behind a failed call. -/
lemma Paid.givenBack {k : Nat} (h : Paid log) (le : k ≤ maxProviderResumeAttempts) :
    Paid (log ++ [.called, .unreachable, .budgetTaken k, .givenBack]) := by
  intro pre post e
  have e : (log ++ [.called, .unreachable, .budgetTaken k]) ++ [.givenBack] = pre ++ .givenBack :: post := by
    rw [← e]
    simp
  have before : Paid (log ++ [.called, .unreachable, .budgetTaken k]) := h.append (by simp)
  cases List.append_eq_append_iff.mp e with
  | inl later =>
    obtain ⟨mid, e, e'⟩ := later
    cases mid with
    | nil => exact ⟨log, k, by simpa using e, le⟩
    | cons x mid => simp at e'
  | inr earlier =>
    obtain ⟨mid, e, e'⟩ := earlier
    cases mid with
    | nil => exact ⟨log, k, by simpa using e.symm, le⟩
    | cons x mid =>
      obtain ⟨rfl, -⟩ := List.cons.inj e'
      exact before pre mid e

/-- A pass keeps to the budget, and takes a call from what is left. -/
lemma InBudget.effect (B : InBudget maxIterations s) (running : s.status = .running)
    (h : Effect maxIterations s t) :
    InBudget maxIterations t ∧ (t.status = .running → t.rank maxIterations < s.rank maxIterations) := by
  have attempts := B.attempts running
  have left := B.left running
  -- in a further iteration there is a call left
  have room : s.bk.iteration < maxIterations → s.rank maxIterations + s.bk.providerResumeAttempts =
      (maxIterations - s.bk.iteration - 1) * (maxProviderResumeAttempts + 1) + maxProviderResumeAttempts + 1 := by
    intro lt
    obtain ⟨n, e⟩ := Nat.exists_eq_add_of_lt lt
    have n' : maxIterations - s.bk.iteration = n + 1 := by omega
    unfold Looping.rank
    rw [n', Nat.add_mul, Nat.one_mul, Nat.add_sub_cancel]
    omega
  cases h with
  | quiet ended log =>
    refine ⟨⟨fun h => absurd h ended, ?_, fun h => absurd h ended, ?_⟩, fun h => absurd h ended⟩
    · rw [log]
      exact B.calls
    · rw [log]
      exact B.paid
  | failed lt ended log =>
    have room := room lt
    refine ⟨⟨fun h => absurd h ended, ?_, fun h => absurd h ended, ?_⟩, fun h => absurd h ended⟩
    · have calls : t.log.count .called = s.log.count .called + 1 := by
        rw [log, List.count_append]
        simp
      omega
    · rw [log]
      exact B.paid.append (by simp)
  | gaveUp lt ended log =>
    have room := room lt
    refine ⟨⟨fun h => absurd h ended, ?_, fun h => absurd h ended, ?_⟩, fun h => absurd h ended⟩
    · have calls : t.log.count .called = s.log.count .called + 1 := by
        rw [log, List.count_append]
        simp
      omega
    · rw [log]
      exact B.paid.append (by simp)
  | resumed lt le iteration taken log =>
    have room := room lt
    have rank : t.rank maxIterations + 1 = s.rank maxIterations := by
      unfold Looping.rank at room ⊢
      rw [iteration, taken]
      omega
    have calls : t.log.count .called = s.log.count .called + 1 := by
      rw [log, List.count_append]
      simp
    refine ⟨⟨fun _ => by omega, by omega, fun _ => by omega, ?_⟩, fun _ => by omega⟩
    rw [log]
    exact B.paid.givenBack le
  | answered lt iteration reset log =>
    have room := room lt
    have rank : t.rank maxIterations = (maxIterations - s.bk.iteration - 1) * (maxProviderResumeAttempts + 1) := by
      unfold Looping.rank
      rw [iteration, reset, Nat.sub_zero, Nat.sub_add_eq]
    have calls : t.log.count .called = s.log.count .called + 1 := by
      rw [log, List.count_append]
      simp
    refine ⟨⟨fun _ => by omega, by omega, fun _ => by omega, ?_⟩, fun _ => by omega⟩
    rw [log]
    exact B.paid.append (by simp)

/-- A running loop makes one more pass. -/
lemma run_succ (n : Nat) (running : (s.run maxIterations merge passes n).status = .running) :
    s.run maxIterations merge passes (n + 1) =
      (s.run maxIterations merge passes n).pass maxIterations merge (passes n) := by
  rw [Looping.run, running]

/-- An ended loop makes no pass. -/
lemma run_ended (n : Nat) (ended : (s.run maxIterations merge passes n).status ≠ .running) :
    s.run maxIterations merge passes (n + 1) = s.run maxIterations merge passes n := by
  rw [Looping.run]
  split
  · rename_i running
    exact absurd running ended
  · rfl

/-- The invariant over a whole run: while it goes on, each pass has taken a call. -/
lemma run_inBudget (B : InBudget maxIterations s) (n : Nat) :
    InBudget maxIterations (s.run maxIterations merge passes n) ∧
      ((s.run maxIterations merge passes n).status = .running →
        (s.run maxIterations merge passes n).rank maxIterations + n ≤ s.rank maxIterations) := by
  induction n with
  | zero => exact ⟨B, fun _ => le_rfl⟩
  | succ n ih =>
    obtain ⟨B', left⟩ := ih
    by_cases running : (s.run maxIterations merge passes n).status = .running
    · obtain ⟨B'', less⟩ := B'.effect running (pass_effect maxIterations merge (passes n) _)
      rw [run_succ n running]
      refine ⟨B'', fun running' => ?_⟩
      have less := less running'
      have left := left running
      omega
    · rw [run_ended n running]
      exact ⟨B', fun running' => absurd running' running⟩

/-- The loop starts within its budget. -/
lemma setup_inBudget (history : List ChatMessage) (event : Option Bool) :
    InBudget maxIterations (Looping.setup history event) where
  attempts := fun _ => Nat.zero_le _
  calls := Nat.zero_le _
  left := fun _ => by simp [Looping.setup, Looping.rank]
  paid := by
    intro pre post e
    simp [Looping.setup] at e

end

/-- However the provider, the tools and the hooks behave, the loop ends; it calls the model at most
`max_iterations * (MAX_PROVIDER_RESUME_ATTEMPTS + 1)` times, and each iteration that is given back is behind a
failed call that took one of the resume attempts. -/
theorem run_bounded (maxIterations : Nat) (merge : String → List String → String) (passes : Nat → Pass)
    (history : List ChatMessage) (event : Option Bool) :
    (∃ n, ((Looping.setup history event).run maxIterations merge passes n).status ≠ .running) ∧
      ∀ n, ((Looping.setup history event).run maxIterations merge passes n).log.count .called ≤
          maxIterations * (maxProviderResumeAttempts + 1) ∧
        Paid ((Looping.setup history event).run maxIterations merge passes n).log := by
  have start : InBudget maxIterations (Looping.setup history event) := setup_inBudget history event
  have all := @run_inBudget maxIterations merge passes _ start
  refine ⟨⟨(Looping.setup history event).rank maxIterations + 1, fun running => ?_⟩, fun n => ?_⟩
  · have left := (all ((Looping.setup history event).rank maxIterations + 1)).2 running
    omega
  · exact ⟨(all n).1.calls, (all n).1.paid⟩

end OpenAgentd.Loop
