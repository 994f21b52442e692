import OpenAgentd.Lib.Dict
import OpenAgentd.Lib.Run

/-!
# The telemetry writer

`app/core/jsonl_writer.py`: producers put records into a bounded queue, a flusher thread takes them out in batches,
groups each batch by partition and appends the lines to the files. `close` sets the stop flag and pushes a sentinel
that wakes the thread up.

`_flush` contains the errors of the disk only. A record that the encoder rejects raises out of `_flush` and of
`_run`, so that the thread is gone: the phase `died`.
-/

namespace OpenAgentd.Telemetry
open Lib

/-- `_QueueItem`, with the number of its record among those that were queued. -/
structure QueueItem (Obj Ts : Type*) where
  obj : Obj
  ts : Ts
  number : Nat
  deriving DecidableEq

/-- What a `JsonlBatchWriter` is made with, and the encoder it calls. -/
structure Writer (Obj Ts Key Line : Type*) where
  partitionFn : Ts → Key
  dumps : Obj → Option Line
  maxQueue : Nat := 10000
  batchSize : Nat := 128

/-- What a flush did: the lines it appended in order, each with the file it went to and its record, and their number
unless it raised. -/
structure Flushed (Obj Ts Key : Type*) where
  lines : List (Key × QueueItem Obj Ts)
  written : Option Nat
  deriving DecidableEq

section
variable {Obj Ts Key Line : Type*} [DecidableEq Key] (w : Writer Obj Ts Key Line)

namespace Writer

/-- The partition of a record. -/
def key (item : QueueItem Obj Ts) : Key := w.partitionFn item.ts

/-- The encoder takes a record. -/
def Encodable (item : QueueItem Obj Ts) : Bool := (w.dumps item.obj).isSome

/-- The lines of one file, and whether all of them were written. -/
def append : List (QueueItem Obj Ts) → List (QueueItem Obj Ts) × Bool
  | [] => ([], true)
  | item :: items =>
    match w.dumps item.obj with
    | none => ([], false)
    | some _ => (item :: (append items).1, (append items).2)

/-- The files of a batch, one after the other. -/
def appendAll : List (Key × List (QueueItem Obj Ts)) → Flushed Obj Ts Key
  | [] => { lines := [], written := some 0 }
  | (key, items) :: rest =>
    let appended := w.append items
    let lines := appended.1.map fun item => (key, item)
    if appended.2 then
      let others := appendAll rest
      { lines := lines ++ others.lines, written := others.written.map (items.length + ·) }
    else { lines, written := none }

/-- `by_partition` -/
def byPartition (batch : List (QueueItem Obj Ts)) : Dict Key (List (QueueItem Obj Ts)) := Dict.groups w.key batch

/-- The records of a batch, file by file. -/
def byFile (batch : List (QueueItem Obj Ts)) : List (QueueItem Obj Ts) := (w.byPartition batch).entries.flatMap Prod.snd

/-- `_flush` -/
def flush (batch : List (QueueItem Obj Ts)) : Flushed Obj Ts Key := w.appendAll (w.byPartition batch).entries

end Writer

/-- Where the flusher thread stands. -/
inductive Phase where
  /-- at the head of the outer loop -/
  | checking
  /-- in `queue.get(timeout)` -/
  | getting
  /-- in the inner loop -/
  | draining
  /-- behind the inner loop -/
  | deciding
  /-- in the last loop -/
  | emptying
  | finished
  | died
  deriving DecidableEq

/-- The writer and its thread. The sentinel is `none`. `lines` are those of all files, each with the key of its file,
`accepted` are the records for which `write` returned `True`, `flushed` the batches that `_flush` was called with,
`closedAt` counts the records accepted before `close`. -/
structure State (Obj Ts Key : Type*) where
  queue : List (Option (QueueItem Obj Ts)) := []
  batch : List (QueueItem Obj Ts) := []
  stop : Bool := false
  phase : Phase := .checking
  lines : List (Key × QueueItem Obj Ts) := []
  reported : List Nat := []
  dropped : Nat := 0
  accepted : List (QueueItem Obj Ts) := []
  flushed : List (List (QueueItem Obj Ts)) := []
  closedAt : Option Nat := none
  deriving DecidableEq

/-- The actions of the producers and of the thread. -/
inductive Event (Obj Ts : Type*) where
  | write (obj : Obj) (ts : Ts)
  | stop
  | sentinel
  | thread
  deriving DecidableEq

namespace State
variable (s : State Obj Ts Key)

/-- `put_nowait` raises `Full`. A queue of size 0 is unbounded. -/
def Full : Prop := w.maxQueue ≠ 0 ∧ w.maxQueue ≤ s.queue.length

instance : Decidable (s.Full w) := inferInstanceAs (Decidable (_ ∧ _))

/-- The item that a `write` queues. -/
def item (obj : Obj) (ts : Ts) : QueueItem Obj Ts := { obj, ts, number := s.accepted.length }

/-- The batch is flushed: `on_write` hears of a positive count, and an exception ends the thread. -/
def flushBatch (next : Phase) : State Obj Ts Key :=
  { s with
    lines := s.lines ++ (w.flush s.batch).lines
    reported := s.reported ++ ((w.flush s.batch).written.filter (· ≠ 0)).toList
    flushed := s.flushed ++ [s.batch]
    batch := []
    phase := if (w.flush s.batch).written.isSome then next else .died }

end State

/-- One action. The clock decides whether a batch that is not full is due. -/
inductive Step : State Obj Ts Key → Event Obj Ts → State Obj Ts Key → Prop where
  | write {s obj ts} :
    ¬ s.Full w →
    Step s (.write obj ts)
      { s with queue := s.queue ++ [some (s.item obj ts)], accepted := s.accepted ++ [s.item obj ts] }
  | drop {s obj ts} :
    s.Full w →
    Step s (.write obj ts) { s with dropped := s.dropped + 1 }
  | stop {s} :
    Step s .stop { s with stop := true, closedAt := some (s.closedAt.getD s.accepted.length) }
  | sentinel {s} :
    s.stop = true →
    ¬ s.Full w →
    Step s .sentinel { s with queue := s.queue ++ [none] }
  | leave {s} :
    s.phase = .checking →
    s.stop = true →
    Step s .thread { s with phase := .emptying }
  | enter {s} :
    s.phase = .checking →
    s.stop = false →
    Step s .thread { s with phase := .getting }
  | get {s item queue} :
    s.phase = .getting →
    s.queue = some item :: queue →
    Step s .thread { s with queue, batch := s.batch ++ [item], phase := .draining }
  | getSentinel {s queue} :
    s.phase = .getting →
    s.queue = none :: queue →
    Step s .thread { s with queue, phase := .emptying }
  | timeout {s} :
    s.phase = .getting →
    s.queue = [] →
    Step s .thread { s with phase := .draining }
  | drain {s item queue} :
    s.phase = .draining →
    s.batch.length < w.batchSize →
    s.queue = some item :: queue →
    Step s .thread { s with queue, batch := s.batch ++ [item] }
  | drainSentinel {s queue} :
    s.phase = .draining →
    s.batch.length < w.batchSize →
    s.queue = none :: queue →
    Step s .thread { s with queue, phase := .deciding }
  | drained {s} :
    s.phase = .draining →
    w.batchSize ≤ s.batch.length ∨ s.queue = [] →
    Step s .thread { s with phase := .deciding }
  | wait {s} :
    s.phase = .deciding →
    s.batch = [] ∨ s.batch.length < w.batchSize →
    Step s .thread { s with phase := .checking }
  | flush {s} :
    s.phase = .deciding →
    s.batch ≠ [] →
    Step s .thread (s.flushBatch w .checking)
  | rest {s item queue} :
    s.phase = .emptying →
    s.queue = some item :: queue →
    Step s .thread { s with queue, batch := s.batch ++ [item] }
  | restSentinel {s queue} :
    s.phase = .emptying →
    s.queue = none :: queue →
    Step s .thread { s with queue }
  | finish {s} :
    s.phase = .emptying →
    s.queue = [] →
    s.batch = [] →
    Step s .thread { s with phase := .finished }
  | lastFlush {s} :
    s.phase = .emptying →
    s.queue = [] →
    s.batch ≠ [] →
    Step s .thread (s.flushBatch w .finished)

/-! ## What is read off a state -/

/-- `close` has returned without a timeout: the thread is gone. `n` records had been accepted before. -/
def State.Closed (s : State Obj Ts Key) (n : Nat) : Prop :=
  s.closedAt = some n ∧ (s.phase = .finished ∨ s.phase = .died)

/-- The records whose lines are in the file `{k}.jsonl`. -/
def State.file (s : State Obj Ts Key) (k : Key) : List (QueueItem Obj Ts) :=
  (s.lines.filter fun line => line.1 = k).map Prod.snd

/-- The file of each partition has the encodable records that were accepted before `close`, each once, in the order of
the `write` calls. -/
def State.Recorded (s : State Obj Ts Key) (n : Nat) : Prop :=
  ∀ k, (s.file k).filter (fun i => i.number < n) =
    (s.accepted.filter fun i => w.key i = k).filter (fun i => w.Encodable i ∧ i.number < n)

/-- The records in the order in which the thread comes to write them: batch by batch, each grouped by partition. -/
def State.order (s : State Obj Ts Key) : List (QueueItem Obj Ts) :=
  s.flushed.flatMap w.byFile ++ s.batch ++ s.queue.reduceOption

/-- A record that the encoder rejects has no record behind it that `close` should have kept. -/
def Harmless (n : Nat) (order : List (QueueItem Obj Ts)) : Prop :=
  order.Pairwise fun bad i => w.Encodable bad = false → i.number < n → w.Encodable i = false

instance (n : Nat) (order : List (QueueItem Obj Ts)) : Decidable (Harmless w n order) :=
  inferInstanceAs (Decidable (List.Pairwise _ _))

end

end OpenAgentd.Telemetry
