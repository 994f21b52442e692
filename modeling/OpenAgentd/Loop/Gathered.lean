import OpenAgentd.Lib.Run
import OpenAgentd.Loop.Dispatch

/-!
# A batch of tool calls under interrupts

`gather_or_cancel` (`app/agent/agent_loop/tool_dispatch.py`) with its tasks, step by step: tasks complete, the interrupt
event is set, the awaiting task is cancelled (`handle_stop` does both), and the coroutine goes on from the `await` where
it stands (`GatherPhase`). A task that completes before the event is set keeps its result; the handler of
`CancelledError` reports every call as cancelled, whatever its task has done. `gather_kept` is about the runs in which
no task has completed when the caller is cancelled.
-/

namespace OpenAgentd.Loop
open OpenAgentd.Lib

/-- An entry of the results. -/
abbrev ToolEntry := Except ToolException (ToolCall × String)

/-- `asyncio.Task`. -/
inductive TaskState where
  | running
  | finished (result : ToolCall × String)
  | failed (exc : ToolException)
  | cancelled

/-- The task has an outcome of its own. -/
def TaskState.completed : TaskState → Bool
  | .finished _ => true
  | .failed _ => true
  | _ => false

/-- `task.done()`. -/
def TaskState.done : TaskState → Bool
  | .running => false
  | _ => true

/-- Where the coroutine stands. -/
inductive GatherPhase where
  /-- in `asyncio.gather`, without an event -/
  | gathering
  /-- in the wait of the loop -/
  | waiting
  /-- in the wait for the tasks that the interrupt cancelled -/
  | stopping
  /-- in the wait of the handler of `CancelledError` -/
  | aborting
  /-- in the wait for `interrupt_waiter`, behind the handler or not -/
  | closing (aborted : Bool)
  | returned (results : List ToolEntry)
  | raised

/-- The batch can still be interrupted. -/
def GatherPhase.waits : GatherPhase → Prop
  | .gathering => True
  | .waiting => True
  | .stopping => True
  | _ => False

/-- The coroutine has not ended. -/
def GatherPhase.pending : GatherPhase → Prop
  | .returned _ => False
  | .raised => False
  | _ => True

/-- The coroutine with its tasks. `seen` is what had become of the tasks when the batch was last interrupted. -/
structure Batch where
  calls : List ToolCall
  tasks : List TaskState
  seen : List TaskState
  event : Option Bool
  cancelRequested : Bool := false
  phase : GatherPhase

/-- What happens to a batch. -/
inductive GatherAction where
  | finish (i : Nat) (outcome : TaskState)
  | setEvent
  | cancelCaller
  | resume

/-- The entry of a call that is reported as cancelled. -/
def cancelledEntry (tc : ToolCall) : ToolEntry := .ok (tc, "Cancelled by user.")

/-- The loop that builds the results, for one call. -/
def taskEntry (tc : ToolCall) : TaskState → ToolEntry
  | .running => .ok (tc, "Cancellation requested; tool is still stopping.")
  | .cancelled => cancelledEntry tc
  | .failed exc => .error exc
  | .finished result => .ok result

/-- `asyncio.gather` with `return_exceptions`, for one call. -/
def gatherEntry (tc : ToolCall) : TaskState → ToolEntry
  | .cancelled => .error .cancelledError
  | st => taskEntry tc st

/-- The batch after an interrupt. -/
def Batch.interrupted (s : Batch) (seen : List TaskState) : Prop :=
  (s.phase.waits ∧ seen = s.tasks) ∨ (¬ s.phase.waits ∧ seen = s.seen)

/-- The results that the coroutine builds at its end. -/
def Batch.results (s : Batch) (aborted : Bool) : List ToolEntry :=
  if aborted then s.calls.map cancelledEntry else List.zipWith taskEntry s.calls s.tasks

/-- `gather_or_cancel` from its first `await` on. -/
def Batch.start (calls : List ToolCall) (event : Option Bool) : Batch where
  calls
  tasks := calls.map fun _ => .running
  seen := calls.map fun _ => .running
  event
  phase := if calls = [] then .returned [] else if event = none then .gathering else .waiting

/-- The steps of a batch. A wake-up that finds running tasks and no interrupt goes back to sleep and is left out. -/
inductive GatherStep : Batch → GatherAction → Batch → Prop where
  | finish {s i outcome} :
    s.phase.pending →
    s.tasks[i]? = some .running →
    outcome.done = true →
    GatherStep s (.finish i outcome) { s with tasks := s.tasks.set i outcome }
  | setEvent {s b seen} :
    s.event = some b →
    s.interrupted seen →
    GatherStep s .setEvent { s with event := some true, seen }
  | cancelCaller {s seen} :
    s.phase.pending →
    s.interrupted seen →
    GatherStep s .cancelCaller { s with cancelRequested := true, seen }
  /-- all children of `asyncio.gather` are done -/
  | gathered {s} :
    s.phase = .gathering →
    (∀ st ∈ s.tasks, st.done = true) →
    s.cancelRequested = false →
    GatherStep s .resume { s with phase := .returned (List.zipWith gatherEntry s.calls s.tasks) }
  /-- and the gathering was cancelled -/
  | ungathered {s} :
    s.phase = .gathering →
    (∀ st ∈ s.tasks, st.done = true) →
    s.cancelRequested = true →
    GatherStep s .resume { s with phase := .raised }
  /-- no task is pending -/
  | collected {s} :
    s.phase = .waiting →
    (∀ st ∈ s.tasks, st.done = true) →
    s.cancelRequested = false →
    GatherStep s .resume { s with phase := .closing false }
  /-- the interrupt fired, and the pending tasks are cancelled -/
  | fired {s} :
    s.phase = .waiting →
    s.event = some true →
    s.cancelRequested = false →
    GatherStep s .resume { s with phase := .stopping }
  /-- they are done, or the wait has timed out -/
  | stopped {s} :
    s.phase = .stopping →
    s.cancelRequested = false →
    GatherStep s .resume { s with phase := .closing false }
  /-- `CancelledError` is raised at the `await` -/
  | thrown {s} :
    s.phase = .waiting ∨ s.phase = .stopping →
    s.cancelRequested = true →
    GatherStep s .resume { s with phase := .aborting, cancelRequested := false }
  /-- the tasks are done, or the wait of the handler has timed out -/
  | drained {s} :
    s.phase = .aborting →
    s.cancelRequested = false →
    GatherStep s .resume { s with phase := .closing true }
  /-- a second `CancelledError` leaves the handler -/
  | escaped {s} :
    s.phase = .aborting →
    s.cancelRequested = true →
    GatherStep s .resume { s with phase := .raised }
  /-- a `CancelledError` in the `finally` block is suppressed -/
  | closed {s aborted} :
    s.phase = .closing aborted →
    GatherStep s .resume { s with phase := .returned (s.results aborted), cancelRequested := false }

/-- The results keep finished work: each call has one entry in its place, what had completed when the batch was
interrupted has its outcome there, and the others their outcome or the note that they were stopped. -/
structure Kept (s : Batch) (results : List ToolEntry) : Prop where
  length : results.length = s.calls.length
  outcome : ∀ (i : Nat) tc st, s.calls[i]? = some tc → s.seen[i]? = some st → st.completed = true →
    results[i]? = some (taskEntry tc st)
  entry : ∀ (i : Nat) tc, s.calls[i]? = some tc → ∃ st, s.tasks[i]? = some st ∧
    (results[i]? = some (taskEntry tc st) ∨ results[i]? = some (gatherEntry tc st) ∨
      results[i]? = some (cancelledEntry tc))

/-- The caller is cancelled only in a batch with an event and not again behind the handler, and no task has completed
when the batch is interrupted by that. -/
structure Spares (s : Batch) (a : GatherAction) : Prop where
  caught : a = .cancelCaller → s.phase ≠ .gathering ∧ s.phase ≠ .aborting
  early : a = .cancelCaller ∨ (a = .setEvent ∧ s.cancelRequested = true) → s.phase.waits →
    ∀ st ∈ s.tasks, st.completed = false

/-! ## The invariant -/

/-- What holds of a batch that is spared. -/
structure GatherInv (s : Batch) : Prop where
  length : s.tasks.length = s.calls.length
  past : ∀ (i : Nat) st, s.seen[i]? = some st → st.completed = true → s.tasks[i]? = some st
  lost : s.phase = .aborting ∨ s.phase = .closing true ∨ (s.cancelRequested = true ∧ s.phase.waits) →
    ∀ st ∈ s.seen, st.completed = false
  calm : s.phase = .gathering ∨ s.phase = .aborting → s.cancelRequested = false
  alive : s.phase ≠ .raised
  kept : ∀ results, s.phase = .returned results → Kept s results

section
variable {s t : Batch} {a : GatherAction} {as : List GatherAction} {calls : List ToolCall} {tasks : List TaskState}
  {tc : ToolCall} {st : TaskState} {i : Nat}

/-- A completed task's entry is its own. -/
lemma gatherEntry_completed (h : st.completed = true) : gatherEntry tc st = taskEntry tc st := by
  cases st with
  | running => cases h
  | finished result => rfl
  | failed exc => rfl
  | cancelled => cases h

/-- Entries of completed tasks are kept in their places. -/
lemma kept_zipWith {f : ToolCall → TaskState → ToolEntry} (length : s.tasks.length = s.calls.length)
    (past : ∀ (i : Nat) st, s.seen[i]? = some st → st.completed = true → s.tasks[i]? = some st)
    (own : ∀ tc st, st.completed = true → f tc st = taskEntry tc st)
    (known : ∀ tc st, f tc st = taskEntry tc st ∨ f tc st = gatherEntry tc st) :
    Kept s (List.zipWith f s.calls s.tasks) := by
  have place : ∀ (i : Nat) tc st, s.calls[i]? = some tc → s.tasks[i]? = some st →
      (List.zipWith f s.calls s.tasks)[i]? = some (f tc st) := by
    intro i tc st htc hst
    rw [List.getElem?_zipWith, htc, hst]
  refine ⟨?_, fun i tc st htc hst done => ?_, fun i tc htc => ?_⟩
  · rw [List.length_zipWith, length, Nat.min_self]
  · rw [place i tc st htc (past i st hst done), own tc st done]
  · obtain ⟨lt, -⟩ := List.getElem?_eq_some_iff.mp htc
    have hst := List.getElem?_eq_getElem (length.symm ▸ lt : i < s.tasks.length)
    refine ⟨_, hst, ?_⟩
    rw [place i tc _ htc hst]
    cases known tc s.tasks[i] with
    | inl e => exact .inl (congrArg some e)
    | inr e => exact .inr (.inl (congrArg some e))

/-- If nothing had completed, every call may be reported as cancelled. -/
lemma kept_cancelled (length : s.tasks.length = s.calls.length) (lost : ∀ st ∈ s.seen, st.completed = false) :
    Kept s (s.calls.map cancelledEntry) := by
  refine ⟨List.length_map _, fun i tc st _ hst done => ?_, fun i tc htc => ?_⟩
  · have none := lost st (List.mem_of_getElem? hst)
    rw [done] at none
    cases none
  · obtain ⟨lt, -⟩ := List.getElem?_eq_some_iff.mp htc
    refine ⟨_, List.getElem?_eq_getElem (length.symm ▸ lt : i < s.tasks.length), ?_⟩
    rw [List.getElem?_map, htc]
    exact .inr (.inr rfl)

namespace GatherInv

/-- An interrupt sees what the tasks are now. -/
lemma seen_past {seen : List TaskState} (I : GatherInv s) (h : s.interrupted seen) :
    ∀ (i : Nat) st, seen[i]? = some st → st.completed = true → s.tasks[i]? = some st := by
  cases h with
  | inl now =>
    rw [now.2]
    exact fun i st e _ => e
  | inr before =>
    rw [before.2]
    exact I.past

/-- An interrupt of a batch whose caller is cancelled sees nothing completed. -/
lemma seen_lost {seen : List TaskState} (I : GatherInv s) (h : s.interrupted seen)
    (early : s.phase.waits → ∀ st ∈ s.tasks, st.completed = false)
    (late : s.phase = .aborting ∨ s.phase = .closing true ∨ s.phase.waits) : ∀ st ∈ seen, st.completed = false := by
  cases h with
  | inl now =>
    rw [now.2]
    exact early now.1
  | inr before =>
    rw [before.2]
    refine I.lost ?_
    rcases late with aborting | closing | waits
    · exact .inl aborting
    · exact .inr (.inl closing)
    · exact absurd waits before.1

/-- A task that finishes. -/
lemma finish {outcome : TaskState} (I : GatherInv s) (pending : s.phase.pending) (run : s.tasks[i]? = some .running) :
    GatherInv { s with tasks := s.tasks.set i outcome } where
  length := by rw [List.length_set, I.length]
  past := by
    intro j st hst done
    have there := I.past j st hst done
    have ne : i ≠ j := by
      rintro rfl
      rw [run] at there
      cases there
      cases done
    rw [List.getElem?_set_ne ne]
    exact there
  lost := I.lost
  calm := I.calm
  alive := I.alive
  kept := by
    intro results e
    have e : s.phase = .returned results := e
    rw [e] at pending
    exact pending.elim

/-- A batch that starts. -/
lemma start (calls : List ToolCall) (event : Option Bool) : GatherInv (Batch.start calls event) where
  length := List.length_map _
  past := by
    intro i st hst done
    exact hst
  lost := by
    intro _ st hst
    obtain ⟨_, -, rfl⟩ := List.mem_map.mp hst
    rfl
  calm := fun _ => rfl
  alive := by
    unfold Batch.start
    dsimp only
    split
    · exact GatherPhase.noConfusion
    · split
      · exact GatherPhase.noConfusion
      · exact GatherPhase.noConfusion
  kept := by
    intro results e
    unfold Batch.start at e
    dsimp only at e
    split at e
    · rename_i none
      cases e
      subst none
      exact ⟨rfl, fun i tc st htc => by simp [Batch.start] at htc, fun i tc htc => by simp [Batch.start] at htc⟩
    · split at e
      · cases e
      · cases e

/-- What a spared step keeps. -/
lemma step (I : GatherInv s) (spares : Spares s a) (st : GatherStep s a t) : GatherInv t := by
  cases st with
  | finish pending run done => exact I.finish pending run
  | setEvent set interrupted =>
    refine ⟨I.length, I.seen_past interrupted, fun h => ?_, I.calm, I.alive, fun results e => ?_⟩
    · rcases h with (aborting : s.phase = _) | (closing : s.phase = _) | ⟨requested, waits⟩
      · exact I.seen_lost interrupted (fun w => (aborting ▸ w : GatherPhase.waits .aborting).elim) (.inl aborting)
      · exact I.seen_lost interrupted (fun w => (closing ▸ w : GatherPhase.waits (.closing true)).elim)
          (.inr (.inl closing))
      · exact I.seen_lost interrupted (spares.early (.inr ⟨rfl, requested⟩)) (.inr (.inr waits))
    · have e : s.phase = .returned results := e
      have kept := I.kept results e
      have same := interrupted.resolve_left fun now => (e ▸ now.1 : GatherPhase.waits (.returned results)).elim
      rw [same.2]
      exact ⟨kept.length, kept.outcome, kept.entry⟩
  | cancelCaller pending interrupted =>
    obtain ⟨gathering, aborting⟩ := spares.caught rfl
    refine ⟨I.length, I.seen_past interrupted, fun h => ?_, fun h => ?_, I.alive, fun results e => ?_⟩
    · refine I.seen_lost interrupted (spares.early (.inl rfl)) ?_
      rcases h with aborting | closing | ⟨-, waits⟩
      · exact .inl aborting
      · exact .inr (.inl closing)
      · exact .inr (.inr waits)
    · exact (h.elim gathering aborting).elim
    · have e : s.phase = .returned results := e
      rw [e] at pending
      exact pending.elim
  | gathered phase done requested =>
    refine ⟨I.length, I.past, fun h => ?_, fun h => ?_, GatherPhase.noConfusion, fun results e => ?_⟩
    · rcases h with aborting | closing | ⟨-, waits⟩
      · cases aborting
      · cases closing
      · exact waits.elim
    · cases h with
      | inl e => cases e
      | inr e => cases e
    · cases e
      exact kept_zipWith (s := { s with phase := _ }) I.length I.past (fun tc st => gatherEntry_completed)
        fun tc st => .inr rfl
  | ungathered phase done requested =>
    rw [I.calm (.inl phase)] at requested
    cases requested
  | collected phase done requested =>
    refine ⟨I.length, I.past, fun h => ?_, fun h => ?_, GatherPhase.noConfusion, fun results e => by cases e⟩
    · rcases h with aborting | closing | ⟨-, waits⟩
      · cases aborting
      · cases closing
      · exact waits.elim
    · cases h with
      | inl e => cases e
      | inr e => cases e
  | fired phase set requested =>
    refine ⟨I.length, I.past, fun h => ?_, fun h => ?_, GatherPhase.noConfusion, fun results e => by cases e⟩
    · rcases h with aborting | closing | ⟨cancelled, -⟩
      · cases aborting
      · cases closing
      · rw [requested] at cancelled
        cases cancelled
    · cases h with
      | inl e => cases e
      | inr e => cases e
  | stopped phase requested =>
    refine ⟨I.length, I.past, fun h => ?_, fun h => ?_, GatherPhase.noConfusion, fun results e => by cases e⟩
    · rcases h with aborting | closing | ⟨-, waits⟩
      · cases aborting
      · cases closing
      · exact waits.elim
    · cases h with
      | inl e => cases e
      | inr e => cases e
  | thrown phase requested =>
    have waits : s.phase.waits := by
      cases phase with
      | inl e => rw [e]; exact trivial
      | inr e => rw [e]; exact trivial
    exact ⟨I.length, I.past, fun _ => I.lost (.inr (.inr ⟨requested, waits⟩)), fun _ => rfl, GatherPhase.noConfusion,
      fun results e => by cases e⟩
  | drained phase requested =>
    refine ⟨I.length, I.past, fun _ => I.lost (.inl phase), fun _ => requested, GatherPhase.noConfusion,
      fun results e => by cases e⟩
  | escaped phase requested =>
    rw [I.calm (.inr phase)] at requested
    cases requested
  | closed phase =>
    rename_i aborted
    refine ⟨I.length, I.past, fun h => ?_, fun _ => rfl, GatherPhase.noConfusion, fun results e => ?_⟩
    · rcases h with aborting | closing | ⟨requested, -⟩
      · cases aborting
      · cases closing
      · cases requested
    · obtain rfl : s.results aborted = results := GatherPhase.returned.inj e
      cases aborted with
      | false =>
        exact kept_zipWith (s := { s with phase := _, cancelRequested := _ }) I.length I.past (fun tc st _ => rfl)
          fun tc st => .inl rfl
      | true =>
        exact kept_cancelled (s := { s with phase := _, cancelRequested := _ }) I.length (I.lost (.inr (.inl phase)))

end GatherInv

end

/-- A batch whose caller is cancelled only while no task has completed does not raise, and its results keep finished
work. -/
theorem gather_kept {calls : List ToolCall} {event : Option Bool} {as : List GatherAction} {s : Batch}
    (rn : Run (Guarded Spares GatherStep) (Batch.start calls event) as s) :
    s.phase ≠ .raised ∧ ∀ results, s.phase = .returned results → Kept s results := by
  have I : GatherInv s := rn.invariant (GatherInv.start calls event) fun I st => I.step st.1 st.2
  exact ⟨I.alive, I.kept⟩

/-- Two calls, one to patch a file and one to run the tests. -/
def patchCall : ToolCall := { id := "a", name := "patch", arguments := "" }

def testCall : ToolCall := { id := "b", name := "shell", arguments := "" }

/-- The first call has returned, the second one has not. -/
def patched : Batch where
  calls := [patchCall, testCall]
  tasks := [.finished (patchCall, "patched"), .running]
  seen := [.running, .running]
  event := some false
  phase := .waiting

/-- The first call has finished. -/
lemma run_patched :
    GatherStep (Batch.start [patchCall, testCall] (some false)) (.finish 0 (.finished (patchCall, "patched"))) patched :=
  .finish trivial rfl rfl

/-- The event alone: the result is kept. -/
def stoppedBatch : Batch :=
  { patched with
    tasks := [.finished (patchCall, "patched"), .cancelled]
    seen := patched.tasks
    event := some true
    phase := .returned [.ok (patchCall, "patched"), cancelledEntry testCall] }

/-- The batch that is stopped. -/
lemma run_stoppedBatch :
    Run (Guarded Spares GatherStep) (Batch.start [patchCall, testCall] (some false))
      [.finish 0 (.finished (patchCall, "patched")), .setEvent, .resume, .finish 1 .cancelled, .resume, .resume]
      stoppedBatch := by
  have spares : ∀ {s : Batch} {a}, a ≠ .cancelCaller → (a = .setEvent → s.cancelRequested = false) → Spares s a := by
    intro s a caller event
    refine ⟨fun e => absurd e caller, fun h => ?_⟩
    rcases h with e | ⟨e, requested⟩
    · exact absurd e caller
    · rw [event e] at requested
      cases requested
  refine .cons ⟨spares (by simp) (by simp), run_patched⟩ ?_
  refine .cons ⟨spares (by simp) fun _ => rfl, .setEvent rfl (.inl ⟨trivial, rfl⟩)⟩ ?_
  refine .cons ⟨spares (by simp) (by simp), .fired rfl rfl rfl⟩ ?_
  refine .cons ⟨spares (by simp) (by simp), .finish trivial rfl rfl⟩ ?_
  refine .cons ⟨spares (by simp) (by simp), .stopped rfl rfl⟩ ?_
  exact .single ⟨spares (by simp) (by simp), @GatherStep.closed _ false rfl⟩

/-- An interrupt by the event keeps the patch. -/
theorem stoppedBatch_kept : Kept stoppedBatch [.ok (patchCall, "patched"), cancelledEntry testCall] :=
  (gather_kept run_stoppedBatch).2 _ rfl

/-- `handle_stop` sets the event and cancels the caller: the patch is reported as cancelled. -/
theorem handleStop_drops : ∃ as s results, Run GatherStep (Batch.start [patchCall, testCall] (some false)) as s ∧
    s.phase = .returned results ∧ ¬ Kept s results := by
  have rn : Run GatherStep (Batch.start [patchCall, testCall] (some false))
      [.finish 0 (.finished (patchCall, "patched")), .setEvent, .cancelCaller, .resume, .finish 1 .cancelled, .resume,
        .resume]
      { stoppedBatch with phase := .returned [cancelledEntry patchCall, cancelledEntry testCall] } := by
    refine .cons run_patched ?_
    refine .cons (.setEvent rfl (.inl ⟨trivial, rfl⟩)) ?_
    refine .cons (.cancelCaller trivial (.inl ⟨trivial, rfl⟩)) ?_
    refine .cons (.thrown (.inl rfl) rfl) ?_
    refine .cons (.finish trivial rfl rfl) ?_
    refine .cons (.drained rfl rfl) ?_
    exact .single (@GatherStep.closed _ true rfl)
  refine ⟨_, _, _, rn, rfl, fun kept => ?_⟩
  have real := kept.outcome 0 patchCall (.finished (patchCall, "patched")) rfl rfl rfl
  simp [taskEntry, cancelledEntry] at real

end OpenAgentd.Loop
