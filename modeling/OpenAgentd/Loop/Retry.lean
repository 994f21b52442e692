import OpenAgentd.Loop.Assemble

/-!
# Retried streams

`stream_with_retry` (`app/agent/agent_loop/retry.py`) runs the stream of a provider from its beginning behind every
retryable error, and tells the assembler with a restart when chunks were given out. `stream_and_assemble` drops what it
assembled at a restart, apart from `last_usage`. So the message is the one of the last attempt (`Assembling.attempts`),
and the usage is the one of the last attempt when that attempt has one or no failed attempt has
(`retried_iff`).
-/

namespace OpenAgentd.Loop
open OpenAgentd.Lib

/-- `Usage`. -/
structure Usage where
  promptTokens : Nat := 0
  completionTokens : Nat := 0
  totalTokens : Nat := 0
  cachedTokens : Option Nat := none
  cacheWriteTokens : Option Nat := none
  thoughtsTokens : Option Nat := none
  toolUseTokens : Option Nat := none
  deriving DecidableEq

/-- A chunk of a provider: its usage, and its first choice with the finish reason. -/
structure Chunk where
  usage : Option Usage := none
  choice : Option (Delta × Option String) := none

/-- `httpx.HTTPStatusError`, with what is read from its body and headers. -/
structure HttpStatusError where
  status : Nat
  serverError : Bool := false
  quotaMarker : Bool := false
  retryAfter : Nat := 0

/-- What a stream raises. -/
inductive ProviderError where
  | httpStatus (exc : HttpStatusError)
  | network (transient : Bool)
  | other

/-- A run of `primary_provider.stream`: the chunks, and the error they end in. -/
structure Attempt where
  chunks : List Chunk
  error : Option ProviderError := none

/-- `MAX_RETRIES`. -/
def maxRetries : Nat := 5

/-- `_MAX_DELAY`, with `_BASE_DELAY` as the unit. -/
def maxDelay : Nat := 60

/-- `_is_retryable_http_error`. -/
def isRetryableHttpError (exc : HttpStatusError) : Bool :=
  exc.status ∈ [408, 429] || (500 ≤ exc.status && exc.status < 600 && exc.status ∉ [501, 505]) || exc.serverError

/-- `is_non_retryable_429`. -/
def isNonRetryable429 (exc : HttpStatusError) : Bool := exc.status = 429 && exc.quotaMarker

/-- `required_delay`. -/
def requiredDelay (exc : HttpStatusError) (attempt : Nat) : Nat :=
  min (if exc.retryAfter > 0 then exc.retryAfter else Nat.pow 3 attempt) maxDelay

/-- The handlers go on to the next attempt. -/
def ProviderError.retryable (attempt : Nat) : ProviderError → Bool
  | .httpStatus exc =>
    isRetryableHttpError exc && !isNonRetryable429 exc && attempt + 1 < maxRetries &&
      !(exc.status = 429 && maxDelay ≤ requiredDelay exc attempt)
  | .network transient => transient && attempt + 1 < maxRetries
  | .other => false

/-- What `stream_with_retry` yields. -/
inductive Yielded where
  | streamRestart
  | chunk (chunk : Chunk)

/-- `stream_with_retry` from an attempt on: what is yielded, and whether the stream completes. -/
def streamWithRetry (provider : Nat → Attempt) : (remaining attempt : Nat) → (emittedAny : Bool) → List Yielded × Bool
  | 0, _, _ => ([], false)
  | remaining + 1, attempt, emittedAny =>
    let restart := if emittedAny then [.streamRestart] else []
    let yielded := restart ++ (provider attempt).chunks.map .chunk
    match (provider attempt).error with
    | none => (yielded, true)
    | some exc =>
      if exc.retryable attempt then
        let rest := streamWithRetry provider remaining (attempt + 1) (!(provider attempt).chunks.isEmpty)
        (yielded ++ rest.1, rest.2)
      else (yielded, false)

/-- The chunk as the assembler reads it. -/
def Chunk.item (c : Chunk) : StreamItem :=
  match c.choice with
  | none => .usage
  | some (delta, finishReason) => .choice delta finishReason

/-- The local variables with `last_usage`. -/
structure Assembling where
  assembly : Assembly := {}
  lastUsage : Option Usage := none

/-- The loop body: a restart drops everything but `last_usage`. -/
def Assembling.step (s : Assembling) : Yielded → Assembling
  | .streamRestart => { s with assembly := s.assembly.step .restart }
  | .chunk c => { assembly := s.assembly.step c.item, lastUsage := c.usage.or s.lastUsage }

/-- An entry of `dropped_tool_calls`. -/
inductive DroppedToolCall where
  | missingName (index : Int)
  | badJson (index : Int) (name argumentsPrefix : String)

/-- The entry of a call that is dropped. -/
def droppedToolCall (loads : String → Option Json) (e : Int × CallBuffer) : Option DroppedToolCall :=
  if e.2.name = "" then some (.missingName e.1)
  else if executable loads e.2 then none
  else some (.badJson e.1 e.2.name (String.ofList (e.2.arguments.toList.take 200)))

/-- What `stream_and_assemble` returns. -/
structure Answer where
  message : ChatMessage
  droppedToolCalls : List DroppedToolCall
  usage : Option Usage

/-- The end of `stream_and_assemble`. -/
def Assembling.answer (loads : String → Option Json) (s : Assembling) : Answer where
  message := s.assembly.message loads
  droppedToolCalls := (sortOn Prod.fst s.assembly.buffer.entries).filterMap (droppedToolCall loads)
  usage := s.lastUsage

/-- `stream_and_assemble` over `stream_with_retry`: `none` when an error is raised. -/
def streamAndAssemble (loads : String → Option Json) (provider : Nat → Attempt) : Option Answer :=
  let stream := streamWithRetry provider maxRetries 0 false
  if stream.2 then some ((stream.1.foldl Assembling.step {}).answer loads) else none

/-- The usage of the last chunk that has one. -/
def usageOf (chunks : List Chunk) : Option Usage := chunks.foldl (fun u c => c.usage.or u) none

section
variable {loads : String → Option Json} {provider : Nat → Attempt} {chunks : List Chunk} {s : Assembling}
  {remaining attempt n : Nat} {emittedAny : Bool} {u : Option Usage}

/-- The last usage wins. -/
lemma foldl_usage : chunks.foldl (fun u c => c.usage.or u) u = (usageOf chunks).or u := by
  induction chunks generalizing u with
  | nil => rfl
  | cons c chunks ih =>
    rw [usageOf, List.foldl_cons, List.foldl_cons, ih, ih, Option.or_none, Option.or_assoc]

/-- The chunks of one attempt. -/
lemma Assembling.foldl_chunks :
    (chunks.map Yielded.chunk).foldl Assembling.step s =
      { assembly := (chunks.map Chunk.item).foldl Assembly.step s.assembly
        lastUsage := (usageOf chunks).or s.lastUsage } := by
  rw [← foldl_usage]
  induction chunks generalizing s with
  | nil => rfl
  | cons c chunks ih => exact ih

/-- An attempt begins with nothing assembled. -/
lemma Assembling.restart (clean : emittedAny = false → s.assembly = {}) :
    (if emittedAny then [Yielded.streamRestart] else []).foldl Assembling.step s =
      { assembly := {}, lastUsage := s.lastUsage } := by
  cases emittedAny with
  | true => rfl
  | false =>
    rw [if_neg Bool.false_ne_true, List.foldl_nil, ← clean rfl]

/-- The failed attempts leave their usage and nothing else. -/
lemma Assembling.attempts (clean : emittedAny = false → s.assembly = {}) (lt : n < remaining)
    (failed : ∀ i < n, ∃ exc, (provider (attempt + i)).error = some exc ∧ exc.retryable (attempt + i) = true)
    (completed : (provider (attempt + n)).error = none) :
    ∃ yielded, streamWithRetry provider remaining attempt emittedAny = (yielded, true) ∧
      (yielded.foldl Assembling.step s).assembly =
        ((provider (attempt + n)).chunks.map Chunk.item).foldl Assembly.step {} ∧
      ∃ left, (yielded.foldl Assembling.step s).lastUsage =
        (usageOf (provider (attempt + n)).chunks).or left ∧
        (left = none ↔ s.lastUsage = none ∧ ∀ i < n, usageOf (provider (attempt + i)).chunks = none) := by
  induction n generalizing remaining attempt emittedAny s with
  | zero =>
    obtain ⟨remaining, rfl⟩ := Nat.exists_eq_succ_of_ne_zero lt.ne'
    rw [Nat.add_zero] at completed ⊢
    refine ⟨_, by rw [streamWithRetry, completed], ?_⟩
    rw [List.foldl_append, Assembling.restart clean, Assembling.foldl_chunks]
    refine ⟨rfl, s.lastUsage, rfl, ?_⟩
    simp
  | succ n ih =>
    obtain ⟨remaining, rfl⟩ := Nat.exists_eq_succ_of_ne_zero (Nat.ne_of_gt (Nat.zero_lt_of_lt lt))
    obtain ⟨exc, raised, again⟩ := failed 0 (Nat.succ_pos n)
    rw [Nat.add_zero] at raised again
    have shift : ∀ i, attempt + 1 + i = attempt + (i + 1) := fun i => by omega
    -- the next attempt sees what this one leaves
    have clean' : (!(provider attempt).chunks.isEmpty) = false →
        (((provider attempt).chunks.map Yielded.chunk).foldl Assembling.step
          { assembly := {}, lastUsage := s.lastUsage }).assembly = {} := by
      intro empty
      rw [Bool.not_eq_false', List.isEmpty_iff] at empty
      rw [empty]
      rfl
    obtain ⟨yielded, rest, assembled, left, used, unused⟩ := ih clean' (Nat.lt_of_succ_lt_succ lt)
      (fun i hi => by rw [shift]; exact failed (i + 1) (Nat.succ_lt_succ hi)) (by rw [shift]; exact completed)
    rw [shift] at assembled used
    refine ⟨_, by rw [streamWithRetry, raised]; simp only [again, rest, if_true]; rfl, ?_⟩
    rw [List.foldl_append, List.foldl_append, Assembling.restart clean]
    refine ⟨assembled, left, used, unused.trans ?_⟩
    rw [Assembling.foldl_chunks, Option.or_eq_none_iff]
    constructor
    · rintro ⟨⟨here, before⟩, later⟩
      refine ⟨before, fun i hi => ?_⟩
      cases i with
      | zero => exact here
      | succ i =>
        rw [← shift]
        exact later i (Nat.lt_of_succ_lt_succ hi)
    · rintro ⟨before, all⟩
      refine ⟨⟨all 0 (Nat.succ_pos n), before⟩, fun i hi => ?_⟩
      rw [shift]
      exact all (i + 1) (Nat.succ_lt_succ hi)

/-- The answer behind some failed attempts is the answer of the last attempt alone when that attempt has a usage or no
failed one has. -/
theorem retried_iff (lt : n < maxRetries)
    (failed : ∀ i < n, ∃ exc, (provider i).error = some exc ∧ exc.retryable i = true)
    (completed : (provider n).error = none) :
    streamAndAssemble loads provider = streamAndAssemble loads (fun _ => { chunks := (provider n).chunks }) ↔
      (usageOf (provider n).chunks).isSome = true ∨ ∀ i < n, usageOf (provider i).chunks = none := by
  have shift : ∀ i, 0 + i = i := Nat.zero_add
  obtain ⟨yielded, stream, assembled, left, used, unused⟩ :=
    Assembling.attempts (s := {}) (fun _ => rfl) lt
      (fun i hi => by rw [shift]; exact failed i hi) (by rw [shift]; exact completed)
  have alone : streamWithRetry (fun _ => { chunks := (provider n).chunks }) maxRetries 0 false =
      ((provider n).chunks.map Yielded.chunk, true) := rfl
  simp only [shift, true_and] at assembled used unused
  rw [← unused, streamAndAssemble, stream, streamAndAssemble, alone, if_pos rfl, if_pos rfl, Assembling.foldl_chunks,
    Assembling.answer, Assembling.answer, assembled, used]
  cases usageOf (provider n).chunks with
  | some u => simp
  | none => simp

/-- A chunk with a usage and a broken connection, then a stream without usage. -/
def brokenOff : Nat → Attempt
  | 0 => { chunks := [{ usage := some { promptTokens := 10 } }], error := some (.network true) }
  | _ => { chunks := [{ choice := some ({ content := some "hi" }, some "stop") }] }

/-- The first attempt fails. -/
lemma brokenOff_failed : ∀ i < 1, ∃ exc, (brokenOff i).error = some exc ∧ exc.retryable i = true := by
  intro i lt
  obtain rfl := Nat.lt_one_iff.mp lt
  exact ⟨.network true, rfl, rfl⟩

/-- The broken attempt, retried. -/
theorem retried_iff_brokenOff :
    streamAndAssemble (fun _ => none) brokenOff =
        streamAndAssemble (fun _ => none) (fun _ => { chunks := (brokenOff 1).chunks }) ↔
      (usageOf (brokenOff 1).chunks).isSome = true ∨ ∀ i < 1, usageOf (brokenOff i).chunks = none :=
  retried_iff (by decide) brokenOff_failed rfl

/-- The usage of the broken attempt is reported for the answer of the next one. -/
theorem stale_usage :
    (∀ i < 1, ∃ exc, (brokenOff i).error = some exc ∧ exc.retryable i = true) ∧ (brokenOff 1).error = none ∧
      streamAndAssemble (fun _ => none) brokenOff ≠
        streamAndAssemble (fun _ => none) (fun _ => { chunks := (brokenOff 1).chunks }) := by
  refine ⟨brokenOff_failed, rfl, fun e => ?_⟩
  have usage := congrArg (Option.map Answer.usage) e
  revert usage
  decide

end

end OpenAgentd.Loop
