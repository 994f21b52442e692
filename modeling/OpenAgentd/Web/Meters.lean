import OpenAgentd.Lib.Run
import OpenAgentd.Web.Messages

/-!
# Token meters

A model call publishes one usage frame and stores its usage in the row of its message. The client folds the frames as
they come (`usage` in `sse-reducer.ts`) and the rows in position order (`sumUsageFromMessages`, `messages.ts`).
`meters_iff` says when the two agree: a call whose message is not saved must have written nothing, and the last call
must read like the last row, which a compaction does not when it leaves messages behind its summary.
-/

namespace OpenAgentd.Web
open OpenAgentd.Lib

/-- `extra["usage"]` of a message. -/
structure UsageDict where
  input : Nat
  output : Nat
  cache : Option Nat := none

/-- `UsageEvent`, with the flags of its metadata. -/
structure UsageEvent where
  promptTokens : Nat
  completionTokens : Nat
  totalTokens : Nat
  cachedTokens : Option Nat := none
  turnTotal : Bool := false
  summarization : Bool := false

/-! ## The server -/

/-- `StreamPublisherHook`, as far as its counters go. -/
structure StreamPublisherHook where
  totalPrompt : Nat := 0
  totalCompletion : Nat := 0
  totalCached : Option Nat := none
  usageCount : Nat := 0

/-- `_publish_usage` -/
def StreamPublisherHook.publishUsage (hook : StreamPublisherHook) (usage : UsageDict) :
    UsageEvent × StreamPublisherHook :=
  ({ promptTokens := usage.input, completionTokens := usage.output, totalTokens := usage.input + usage.output
     cachedTokens := usage.cache },
    { totalPrompt := hook.totalPrompt + usage.input
      totalCompletion := hook.totalCompletion + usage.output
      totalCached := match usage.cache with
        | none => hook.totalCached
        | some cached => some (hook.totalCached.getD 0 + cached)
      usageCount := hook.usageCount + 1 })

/-- `after_agent`: the total of the turn, when it made several calls. -/
def StreamPublisherHook.afterAgent (hook : StreamPublisherHook) : Option UsageEvent :=
  if 1 < hook.usageCount ∧ (hook.totalPrompt ≠ 0 ∨ hook.totalCompletion ≠ 0) then
    some { promptTokens := hook.totalPrompt, completionTokens := hook.totalCompletion
           totalTokens := hook.totalPrompt + hook.totalCompletion, cachedTokens := hook.totalCached, turnTotal := true }
  else none

/-- `_emit_usage` of the summarization hook. -/
def emitUsage (usage : UsageDict) : UsageEvent where
  promptTokens := usage.input
  completionTokens := usage.output
  totalTokens := usage.input + usage.output
  cachedTokens := usage.cache
  summarization := true

/-- A row with the usage in its `extra`. -/
structure MeteredRow where
  message : MessageResponse
  usage : Option UsageDict

/-- The position of an appended row. -/
def nextPosition (rows : List MeteredRow) : Nat := (rows.map fun r => r.message.seq).foldr max 0 + 1024

/-- A model call that reported its usage: what it was for, and whether its message was saved. -/
structure ModelCall where
  usage : UsageDict
  compaction : Bool
  saved : Bool

/-- A session: its rows in the order they were saved, what it has published, and its calls in time order. -/
structure MeteredSession where
  rows : List MeteredRow := []
  clock : Nat := 0
  hook : StreamPublisherHook := {}
  events : List UsageEvent := []
  calls : List ModelCall := []

/-- What a session does. -/
inductive MeterDeed where
  | modelCall (usage : Option UsageDict) (hasContent : Bool)
  | compact (usage : Option UsageDict) (seq : Nat)
  | message (role : Role)
  | endTurn

namespace MeteredSession
variable (s : MeteredSession)

/-- A row is saved. -/
def save (role : Role) (isSummary : Bool) (seq : Nat) (usage : Option UsageDict) : MeteredSession :=
  { s with
    rows := s.rows ++ [{ message := { id := s.clock, role := role, isSummary := isSummary, seq := seq }, usage := usage }]
    clock := s.clock + 1 }

/-- A model call has ended: `after_model` publishes its usage, and the checkpointer saves a message with content. -/
def modelCall (usage : Option UsageDict) (hasContent : Bool) : MeteredSession :=
  let s : MeteredSession := match usage with
    | none => s
    | some u =>
      { s with
        hook := (s.hook.publishUsage u).2
        events := s.events ++ [(s.hook.publishUsage u).1]
        calls := s.calls ++ [{ usage := u, compaction := false, saved := hasContent }] }
  if hasContent then s.save .assistant false (nextPosition s.rows) usage else s

/-- A compaction has made a summary, which stands at an anchored position. -/
def compact (usage : Option UsageDict) (seq : Nat) : MeteredSession :=
  let s : MeteredSession := match usage with
    | none => s
    | some u =>
      { s with
        events := s.events ++ [emitUsage u]
        calls := s.calls ++ [{ usage := u, compaction := true, saved := true }] }
  s.save .user true seq usage

/-- A deed of the session. A message that no model wrote carries no usage. -/
def next : MeterDeed → MeteredSession
  | .modelCall usage hasContent => s.modelCall usage hasContent
  | .compact usage seq => s.compact usage seq
  | .message role => s.save role false (nextPosition s.rows) none
  | .endTurn => { s with hook := {}, events := s.events ++ s.hook.afterAgent.toList }

end MeteredSession

/-- One deed. -/
def MeterStep (s : MeteredSession) (d : MeterDeed) (t : MeteredSession) : Prop := t = s.next d

/-! ## The client -/

/-- `AgentUsage`, with the counts of the turn. -/
structure AgentUsage where
  promptTokens : Nat := 0
  completionTokens : Nat := 0
  totalTokens : Nat := 0
  cachedTokens : Nat := 0
  turnPromptTokens : Option Nat := none
  turnCompletionTokens : Option Nat := none
  turnTotalTokens : Option Nat := none
  turnCachedTokens : Option Nat := none

/-- `usage` of `createSSEHandler`. -/
def reduceUsage (u : AgentUsage) (e : UsageEvent) : AgentUsage :=
  if e.turnTotal then
    { u with
      turnPromptTokens := some e.promptTokens
      turnCompletionTokens := some e.completionTokens
      turnTotalTokens := some (if e.totalTokens = 0 then e.promptTokens + e.completionTokens else e.totalTokens)
      turnCachedTokens := some (e.cachedTokens.getD 0) }
  else
    let promptTokens := if e.summarization then e.completionTokens else e.promptTokens
    let completionTokens := u.completionTokens + e.completionTokens
    { u with
      promptTokens := promptTokens
      cachedTokens := e.cachedTokens.getD 0
      completionTokens := completionTokens
      totalTokens := promptTokens + completionTokens }

/-- The rows in the order of `sortMessages`. -/
def sortRows (rows : List MeteredRow) : List MeteredRow := rows.mergeSort fun a b => notAfter a.message b.message

/-- The accumulators of `sumUsageFromMessages`. -/
structure UsageSum where
  completionTokens : Nat := 0
  lastInput : Nat := 0
  lastCache : Nat := 0

/-- One row of `sumUsageFromMessages`. -/
def sumRow (acc : UsageSum) (r : MeteredRow) : UsageSum :=
  if r.message.role ≠ .assistant ∧ r.message.isSummary = false then acc
  else match r.usage with
    | none => acc
    | some usage =>
      { completionTokens := acc.completionTokens + usage.output
        lastInput := if r.message.isSummary then usage.output else usage.input
        lastCache := usage.cache.getD 0 }

/-- `sumUsageFromMessages` -/
def sumUsageFromMessages (rows : List MeteredRow) : AgentUsage :=
  let acc := (sortRows rows).foldl sumRow {}
  { promptTokens := acc.lastInput, cachedTokens := acc.lastCache, completionTokens := acc.completionTokens
    totalTokens := acc.lastInput + acc.completionTokens }

/-- What the live meter shows. -/
def liveUsage (s : MeteredSession) : AgentUsage := s.events.foldl reduceUsage {}

/-! ## Readings -/

/-- What a meter shows of one call: the size of the context behind it, and what was cached. -/
def ModelCall.reading (c : ModelCall) : Nat × Nat :=
  (if c.compaction then c.usage.output else c.usage.input, c.usage.cache.getD 0)

/-- The call that a row stores. -/
def MeteredRow.call (r : MeteredRow) : Option ModelCall :=
  if r.message.role ≠ .assistant ∧ r.message.isSummary = false then none
  else r.usage.map fun usage => { usage, compaction := r.message.isSummary, saved := true }

/-- The last of some calls reads so. -/
def lastReading (calls : List ModelCall) : Nat × Nat := (calls.getLast?.map ModelCall.reading).getD (0, 0)

/-- What some calls have written. -/
def written (calls : List ModelCall) : Nat := (calls.map fun c => c.usage.output).foldr (· + ·) 0

/-- The two meters show the same. -/
structure SameMeters (a b : AgentUsage) : Prop where
  promptTokens : a.promptTokens = b.promptTokens
  cachedTokens : a.cachedTokens = b.cachedTokens
  completionTokens : a.completionTokens = b.completionTokens
  totalTokens : a.totalTokens = b.totalTokens

/-- No call has written what is not saved, and the last call in time reads like the last call by position. -/
structure Metered (s : MeteredSession) : Prop where
  unsaved : ∀ c ∈ s.calls, c.saved = false → c.usage.output = 0
  last : lastReading s.calls = lastReading ((sortRows s.rows).filterMap MeteredRow.call)

section
variable {s t : MeteredSession} {rows : List MeteredRow} {calls cs : List ModelCall} {c : ModelCall} {e : UsageEvent}
  {usage : Option UsageDict} {u : UsageDict}

/-- Calls in a row. -/
lemma written_append : written (calls ++ cs) = written calls + written cs := by
  induction calls with
  | nil => exact (Nat.zero_add _).symm
  | cons c calls ih =>
    change c.usage.output + written (calls ++ cs) = c.usage.output + written calls + written cs
    rw [ih, Nat.add_assoc]

/-- The order does not matter. -/
lemma written_perm (perm : calls.Perm cs) : written calls = written cs := by
  induction perm with
  | nil => rfl
  | cons c _ ih => exact congrArg (c.usage.output + ·) ih
  | swap a b l => exact Nat.add_left_comm _ _ _
  | trans _ _ ih ih' => exact ih.trans ih'

/-- When nothing was written. -/
lemma written_eq_zero : written calls = 0 ↔ ∀ c ∈ calls, c.usage.output = 0 := by
  induction calls with
  | nil => exact ⟨fun _ _ mem => absurd mem List.not_mem_nil, fun _ => rfl⟩
  | cons c calls ih =>
    rw [List.forall_mem_cons, ← ih]
    exact Nat.add_eq_zero_iff

/-- What is written is saved or not. -/
lemma written_saved : written calls =
    written (calls.filter ModelCall.saved) + written (calls.filter fun c => !c.saved) := by
  rw [← written_append]
  exact written_perm (List.filter_append_perm ModelCall.saved calls).symm

/-- The last call is read. -/
lemma lastReading_append : lastReading (calls ++ [c]) = c.reading := by
  rw [lastReading, List.getLast?_append_of_ne_nil _ (List.cons_ne_nil c [])]
  rfl

/-! ### The reload -/

/-- A row without usage. -/
lemma sumRow_of_none {acc : UsageSum} {r : MeteredRow} (none : r.call = none) : sumRow acc r = acc := by
  unfold sumRow
  unfold MeteredRow.call at none
  split
  next => rfl
  next other =>
    rw [if_neg other, Option.map_eq_none_iff] at none
    rw [none]

/-- A row with usage. -/
lemma sumRow_of_some {acc : UsageSum} {r : MeteredRow} (some : r.call = some c) :
    sumRow acc r = { completionTokens := acc.completionTokens + c.usage.output, lastInput := c.reading.1
                     lastCache := c.reading.2 } := by
  unfold sumRow
  unfold MeteredRow.call at some
  split
  next other =>
    rw [if_pos other] at some
    cases some
  next other =>
    rw [if_neg other] at some
    obtain ⟨u, usage, rfl⟩ := Option.map_eq_some_iff.mp some
    rw [usage]
    rfl

/-- The fold over rows adds what their calls have written and keeps the last reading. -/
lemma sumRow_foldl (acc : UsageSum) :
    rows.foldl sumRow acc =
      let calls := rows.filterMap MeteredRow.call
      let last := (calls.getLast?.map ModelCall.reading).getD (acc.lastInput, acc.lastCache)
      { completionTokens := acc.completionTokens + written calls, lastInput := last.1, lastCache := last.2 } := by
  induction rows generalizing acc with
  | nil => rfl
  | cons r rows ih =>
    rw [List.foldl_cons]
    cases call : r.call with
    | none => rw [sumRow_of_none call, ih acc, List.filterMap_cons_none call]
    | some c =>
      rw [sumRow_of_some call, ih, List.filterMap_cons_some call]
      have last : ((c :: rows.filterMap MeteredRow.call).getLast?.map ModelCall.reading).getD
          (acc.lastInput, acc.lastCache) =
          ((rows.filterMap MeteredRow.call).getLast?.map ModelCall.reading).getD c.reading := by
        rw [List.getLast?_cons]
        cases (rows.filterMap MeteredRow.call).getLast? with
        | none => rfl
        | some _ => rfl
      simp only [last]
      congr 1
      exact Nat.add_assoc _ _ _

/-- The meter of a reload. -/
lemma sumUsage_eq (rows : List MeteredRow) : let calls := (sortRows rows).filterMap MeteredRow.call
    (sumUsageFromMessages rows).completionTokens = written (rows.filterMap MeteredRow.call) ∧
      ((sumUsageFromMessages rows).promptTokens, (sumUsageFromMessages rows).cachedTokens) = lastReading calls ∧
      (sumUsageFromMessages rows).totalTokens =
        (sumUsageFromMessages rows).promptTokens + (sumUsageFromMessages rows).completionTokens := by
  have perm : ((sortRows rows).filterMap MeteredRow.call).Perm (rows.filterMap MeteredRow.call) :=
    (List.mergeSort_perm rows _).filterMap _
  unfold sumUsageFromMessages
  rw [sumRow_foldl]
  dsimp only
  rw [written_perm perm, Nat.zero_add]
  exact ⟨rfl, rfl, rfl⟩

/-! ### The live meter -/

/-- The live meter follows the calls, and the rows have those that were saved. -/
structure Tracks (s : MeteredSession) : Prop where
  completion : (liveUsage s).completionTokens = written s.calls
  reading : ((liveUsage s).promptTokens, (liveUsage s).cachedTokens) = lastReading s.calls
  total : (liveUsage s).totalTokens = (liveUsage s).promptTokens + (liveUsage s).completionTokens
  rows : written (s.rows.filterMap MeteredRow.call) = written (s.calls.filter ModelCall.saved)

/-- A call publishes its frame and is saved or not. -/
lemma Tracks.call (T : Tracks s) {hook : StreamPublisherHook} (turn : e.turnTotal = false)
    (output : e.completionTokens = c.usage.output) (reading : c.reading = (if e.summarization then e.completionTokens
      else e.promptTokens, e.cachedTokens.getD 0)) {more : List MeteredRow} {clock : Nat}
    (more_eq : written (more.filterMap MeteredRow.call) = if c.saved then c.usage.output else 0) :
    Tracks { rows := s.rows ++ more, clock := clock, hook := hook, events := s.events ++ [e], calls := s.calls ++ [c] } := by
  have live : (s.events ++ [e]).foldl reduceUsage {} = reduceUsage (liveUsage s) e := by
    rw [List.foldl_append]
    rfl
  have one : written [c] = c.usage.output := rfl
  constructor
  · unfold liveUsage
    rw [live, reduceUsage, if_neg (by simp [turn]), written_append, ← T.completion, one, ← output]
  · unfold liveUsage
    rw [live, reduceUsage, if_neg (by simp [turn]), lastReading_append, reading]
  · unfold liveUsage
    rw [live, reduceUsage, if_neg (by simp [turn])]
  · rw [List.filterMap_append, written_append, T.rows, more_eq, List.filter_append, written_append]
    cases saved : c.saved with
    | true => simp [saved, one]
    | false => simp [saved, written]

/-- A row without usage is saved. -/
lemma Tracks.row (T : Tracks s) {r : MeteredRow} {clock : Nat} (usage : r.usage = none) :
    Tracks { s with rows := s.rows ++ [r], clock := clock } where
  completion := T.completion
  reading := T.reading
  total := T.total
  rows := by
    have none : r.call = none := by
      unfold MeteredRow.call
      rw [usage, Option.map_none, ite_self]
    rw [List.filterMap_append, List.filterMap_cons_none none, List.filterMap_nil, List.append_nil]
    exact T.rows

/-- The total of a turn leaves the fields of the session alone. -/
lemma Tracks.endTurn (T : Tracks s) : Tracks (s.next .endTurn) := by
  have same : ∀ u : AgentUsage, ((s.hook.afterAgent.toList).foldl reduceUsage u).completionTokens = u.completionTokens ∧
      ((s.hook.afterAgent.toList).foldl reduceUsage u).promptTokens = u.promptTokens ∧
      ((s.hook.afterAgent.toList).foldl reduceUsage u).cachedTokens = u.cachedTokens ∧
      ((s.hook.afterAgent.toList).foldl reduceUsage u).totalTokens = u.totalTokens := by
    intro u
    unfold StreamPublisherHook.afterAgent
    split
    next => exact ⟨rfl, rfl, rfl, rfl⟩
    next => exact ⟨rfl, rfl, rfl, rfl⟩
  obtain ⟨completion, prompt, cached, total⟩ := same (liveUsage s)
  have live : liveUsage (s.next .endTurn) = (s.hook.afterAgent.toList).foldl reduceUsage (liveUsage s) :=
    List.foldl_append
  constructor
  · rw [live, completion]
    exact T.completion
  · rw [live, prompt, cached]
    exact T.reading
  · rw [live, prompt, completion, total]
    exact T.total
  · exact T.rows

/-- A step is tracked. -/
lemma Tracks.step {d : MeterDeed} (T : Tracks s) (st : MeterStep s d t) : Tracks t := by
  rw [st]
  cases d with
  | endTurn => exact T.endTurn
  | message role => exact T.row rfl
  | compact usage seq =>
    cases usage with
    | none => exact T.row rfl
    | some u => exact T.call rfl rfl rfl rfl
  | modelCall usage hasContent =>
    cases usage with
    | none =>
      cases hasContent with
      | true => exact T.row rfl
      | false => exact T
    | some u =>
      cases hasContent with
      | true => exact T.call rfl rfl rfl rfl
      | false =>
        have kept : Tracks { rows := s.rows ++ [], clock := s.clock, hook := (s.hook.publishUsage u).2
                             events := s.events ++ [(s.hook.publishUsage u).1]
                             calls := s.calls ++ [{ usage := u, compaction := false, saved := false }] } :=
          T.call rfl rfl rfl rfl
        rwa [List.append_nil] at kept

/-- The live meter shows what a reload shows exactly when no call has written what is not saved, and the last call
reads like the last row. -/
theorem meters_iff {ds : List MeterDeed} (run : Run MeterStep {} ds s) :
    SameMeters (liveUsage s) (sumUsageFromMessages s.rows) ↔ Metered s := by
  have T : Tracks s := run.invariant ⟨rfl, rfl, rfl, rfl⟩ Tracks.step
  obtain ⟨completion, reading, total⟩ := sumUsage_eq s.rows
  have unsaved : (liveUsage s).completionTokens = (sumUsageFromMessages s.rows).completionTokens ↔
      ∀ c ∈ s.calls, c.saved = false → c.usage.output = 0 := by
    rw [T.completion, completion, T.rows, written_saved, Nat.add_eq_left, written_eq_zero]
    simp only [List.mem_filter, Bool.not_eq_true', and_imp]
  constructor
  · intro same
    refine ⟨unsaved.mp same.completionTokens, ?_⟩
    rw [← T.reading, ← reading, same.promptTokens, same.cachedTokens]
  · intro metered
    have last := T.reading.trans (metered.last.trans reading.symm)
    have completion := unsaved.mpr metered.unsaved
    have prompt : (liveUsage s).promptTokens = (sumUsageFromMessages s.rows).promptTokens := congrArg Prod.fst last
    refine ⟨prompt, congrArg Prod.snd last, completion, ?_⟩
    rw [T.total, total, completion, prompt]

end

/-- A session of one call agrees. -/
theorem oneCall_metered :
    SameMeters (liveUsage (({} : MeteredSession).next (.modelCall (some { input := 10, output := 2 }) true)))
      (sumUsageFromMessages (({} : MeteredSession).next (.modelCall (some { input := 10, output := 2 }) true)).rows) := by
  apply (meters_iff (Run.single rfl)).mpr
  constructor
  · decide
  · change _ = lastReading (([_] : List MeteredRow).mergeSort _ |>.filterMap MeteredRow.call)
    rw [List.mergeSort_singleton]
    rfl

/-- Two rows the other way round. -/
lemma sortRows_swap {a b : MeteredRow} (after : notAfter a.message b.message = false) : sortRows [a, b] = [b, a] := by
  unfold sortRows
  rw [List.mergeSort]
  simp only [List.MergeSort.Internal.splitInTwo, List.splitAt_eq]
  simp [after]

/-- A compaction that keeps the last message stands before it: the live meter then shows the summary, a reload the
message. -/
theorem keptWindow_differs : ¬ ∀ (ds : List MeterDeed) (s : MeteredSession), Run MeterStep {} ds s →
    SameMeters (liveUsage s) (sumUsageFromMessages s.rows) := by
  intro all
  have same := all _ _ ((Run.nil.snoc (rfl : MeterStep {} (.modelCall (some { input := 100, output := 5 }) true) _)).snoc
    (rfl : MeterStep _ (.compact (some { input := 100, output := 3 }) 512) _))
  have prompt := same.promptTokens
  change 3 = (([_, _] : List MeteredRow) |> sortRows |>.foldl sumRow {}).lastInput at prompt
  rw [sortRows_swap rfl] at prompt
  cases prompt

end OpenAgentd.Web
