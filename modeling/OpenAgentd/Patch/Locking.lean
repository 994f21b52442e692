import OpenAgentd.Lib.Holding
import OpenAgentd.Lib.Ordered
import OpenAgentd.Lib.Run

/-!
# The path locks of the patch tool

`_patch_file` (`app/agent/tools/builtin/filesystem/patch.py`) takes one `asyncio.Lock` for every path of
its envelope, in sorted order, runs `_apply_patch` in a worker thread and releases the locks. The locks
live in two tables: `_path_locks` maps a path to its lock object, `_path_lock_refs` counts the calls that
have checked it out.

Lock objects are numbered, and so are the calls. A call runs without interleaving between two awaits; the
awaits are the queues of the locks and the future of the worker. A cancellation resolves the awaited
future, or marks the task when the future is already done; it reaches the code when the task runs again.
A worker that waits for a thread is cancelled with the future, one that runs is not.
-/

namespace OpenAgentd.Patch
open OpenAgentd.Lib Function

/-- Where a call of `_patch_file` is. -/
inductive Phase where
  | idle
  | running
  | waiting
  | working
  | finished
  deriving DecidableEq

/-- The job of `asyncio.to_thread(_apply_patch, …)`. -/
inductive Worker where
  | none
  | queued
  | running
  | finished
  | cancelled
  deriving DecidableEq

/-- One call of `_patch_file`: its paths, the locks it has checked out, and how many it holds. -/
structure Caller (P : Type*) where
  paths : List P := []
  slots : List (P × ℕ) := []
  held : ℕ := 0
  phase : Phase := .idle
  mustCancel : Bool := false
  worker : Worker := .none

/-- The tables, the lock objects and the calls. -/
structure State (P : Type*) where
  pathLocks : P → Option ℕ := fun _ => none
  pathLockRefs : P → Option ℕ := fun _ => none
  locks : ℕ → Lock := fun _ => {}
  nextLock : ℕ := 0
  callers : ℕ → Caller P := fun _ => {}

/-- The locks a call holds, oldest first. -/
def Caller.heldLocks {P : Type*} (k : Caller P) : List ℕ := (k.slots.take k.held).map Prod.snd

/-- The lock a call is queued for. -/
def Caller.awaits {P : Type*} (k : Caller P) : Option ℕ :=
  if k.phase = .waiting then k.slots[k.held]?.map Prod.snd else none

/-- The call moves to the phase `f`. -/
def Caller.setPhase {P : Type*} (k : Caller P) (f : Phase) : Caller P := { k with phase := f }

/-- The call holds its first `n` locks. -/
def Caller.setHeld {P : Type*} (k : Caller P) (n : ℕ) : Caller P := { k with held := n }

/-- The call has checked out `v`. -/
def Caller.setSlots {P : Type*} (k : Caller P) (v : List (P × ℕ)) : Caller P := { k with slots := v }

/-- The job of the call is `w`. -/
def Caller.setWorker {P : Type*} (k : Caller P) (w : Worker) : Caller P := { k with worker := w }

/-- The call is marked for cancellation. -/
def Caller.mark {P : Type*} (k : Caller P) : Caller P := { k with mustCancel := true }

/-- The call `c` becomes `k`. -/
def State.setCaller {P : Type*} (s : State P) (c : ℕ) (k : Caller P) : State P :=
  { s with callers := update s.callers c k }

/-- The lock object `l` becomes `k`. -/
def State.setLock {P : Type*} (s : State P) (l : ℕ) (k : Lock) : State P :=
  { s with locks := update s.locks l k }

section
variable {P : Type*} [LinearOrder P]

/-- `sorted(set(paths))` of `_patch_paths`. -/
def patchPaths (ps : List P) : List P := sortOn id ps.dedup

/-- `_checkout_lock`. -/
def checkoutLock (s : State P) (c : ℕ) (p : P) : State P :=
  let l := (s.pathLocks p).getD s.nextLock
  let refs := (s.pathLockRefs p).getD 0 + 1
  { s with
    pathLockRefs := update s.pathLockRefs p (some refs)
    pathLocks := update s.pathLocks p (some l)
    nextLock := s.nextLock + 1 : State P }.setCaller c
    ((s.callers c).setSlots ((s.callers c).slots ++ [(p, l)]))

/-- `_checkin_lock`. -/
def checkinLock (s : State P) (c : ℕ) (p : P) : State P :=
  let remaining := (s.pathLockRefs p).getD 0 - 1
  let k := (s.callers c).setSlots (s.callers c).slots.tail
  if remaining = 0 then
    { s with
      pathLockRefs := update s.pathLockRefs p none
      pathLocks := update s.pathLocks p none : State P }.setCaller c k
  else
    { s with pathLockRefs := update s.pathLockRefs p (some remaining) : State P }.setCaller c k

/-- `[_checkout_lock(path) for path in paths]`. -/
def checkoutAll (s : State P) (c : ℕ) : List P → State P
  | [] => s
  | p :: ps => checkoutAll (checkoutLock s c p) c ps

/-- The loop of `_patch_file` over `_checkin_lock`. -/
def checkinAll (s : State P) (c : ℕ) : List P → State P
  | [] => s
  | p :: ps => checkinAll (checkinLock s c p) c ps

/-- `_acquire_all` up to its next await, and the submission of the worker behind it. -/
def acquireAll (s : State P) (c : ℕ) : List (P × ℕ) → State P
  | [] => s.setCaller c (((s.callers c).setPhase .working).setWorker .queued)
  | (_, l) :: rest =>
    if (s.locks l).free then
      acquireAll ((s.setLock l (s.locks l).take).setCaller c
        ((s.callers c).setHeld ((s.callers c).held + 1))) c rest
    else
      (s.setLock l ((s.locks l).enqueue c)).setCaller c
        ((s.callers c).setPhase .waiting)

/-- `for lock in reversed(held): lock.release()`. -/
def releaseAll (s : State P) (c : ℕ) : ℕ → State P
  | 0 => s
  | n + 1 =>
    match (s.callers c).slots[n]? with
    | none => s
    | some (_, l) =>
      releaseAll ((s.setLock l (s.locks l).release).setCaller c ((s.callers c).setHeld n)) c n

/-- The `finally` blocks of `_patch_file`: releases, then check-ins. -/
def finish (s : State P) (c : ℕ) : State P :=
  let s := releaseAll (s.setCaller c ((s.callers c).setPhase .running)) c (s.callers c).held
  let s := checkinAll s c (s.callers c).paths
  s.setCaller c ((s.callers c).setPhase .finished)

/-- `_patch_file` up to its first await. -/
def patchFile (s : State P) (c : ℕ) (ps : List P) : State P :=
  let s := s.setCaller c { paths := patchPaths ps, phase := .running }
  let s := checkoutAll s c (patchPaths ps)
  acquireAll s c (s.callers c).slots

/-- The rest of `lock.acquire()` in a woken call, and of `_acquire_all`. -/
def acquired (s : State P) (c l : ℕ) : State P :=
  let k := s.callers c
  let s := (s.setLock l ((s.locks l).resume c)).setCaller c
    ((k.setHeld (k.held + 1)).setPhase .running)
  acquireAll s c (k.slots.drop (k.held + 1))

/-- The `CancelledError` of a call that waits for a lock. -/
def interrupted (s : State P) (c l : ℕ) : State P :=
  finish ((s.setLock l ((s.locks l).abandon c)).setCaller c
    ((s.callers c).setPhase .running)) c

/-- The return of a call from its worker, or the `CancelledError` in its place: a job that has no
thread yet is cancelled with the future. -/
def returned (s : State P) (c : ℕ) : State P :=
  let k := s.callers c
  finish (s.setCaller c
    (k.setWorker (if k.worker = .queued then .cancelled else k.worker))) c

/-- `Task.cancel`: the future of a waiter is cancelled while it is pending, else the task is marked. -/
def cancelTask (s : State P) (c : ℕ) : State P :=
  match (s.callers c).awaits with
  | some l =>
    if (c, Fut.pending) ∈ (s.locks l).waiters then s.setLock l ((s.locks l).cancel c)
    else s.setCaller c (s.callers c).mark
  | none => s.setCaller c (s.callers c).mark

/-- What can happen to a call. -/
inductive Act (P : Type*) where
  | call (c : ℕ) (ps : List P)
  | cancel (c : ℕ)
  | resume (c : ℕ)
  | workerStart (c : ℕ)
  | workerEnd (c : ℕ)

/-- One step of the event loop or of a worker thread. -/
inductive Step : State P → Act P → State P → Prop where
  | call {s c ps} :
    (s.callers c).phase = .idle →
    Step s (.call c ps) (patchFile s c ps)
  | cancel {s c} :
    (s.callers c).phase = .waiting ∨ (s.callers c).phase = .working →
    Step s (.cancel c) (cancelTask s c)
  | acquired {s c l} :
    (s.callers c).awaits = some l →
    (c, Fut.woken) ∈ (s.locks l).waiters →
    (s.callers c).mustCancel = false →
    Step s (.resume c) (acquired s c l)
  | interrupted {s c l} :
    (s.callers c).awaits = some l →
    (c, Fut.cancelled) ∈ (s.locks l).waiters ∨
      (c, Fut.woken) ∈ (s.locks l).waiters ∧ (s.callers c).mustCancel = true →
    Step s (.resume c) (interrupted s c l)
  | returned {s c} :
    (s.callers c).phase = .working →
    (s.callers c).worker = .finished ∨ (s.callers c).mustCancel = true →
    Step s (.resume c) (returned s c)
  | workerStart {s c} :
    (s.callers c).worker = .queued →
    Step s (.workerStart c) (s.setCaller c ((s.callers c).setWorker .running))
  | workerEnd {s c} :
    (s.callers c).worker = .running →
    Step s (.workerEnd c) (s.setCaller c ((s.callers c).setWorker .finished))

end

end OpenAgentd.Patch
