import OpenAgentd.Lib.Run
import Mathlib.Data.List.ReduceOption

/-!
# Terminal sessions

`TerminalSession` of `app/services/terminal_service.py`: the readable callback of the PTY fills a bounded queue and
takes itself off the loop when the queue is full, `read` takes chunks out and puts the callback back, `close` pushes
the end marker unless the queue is full. The marker is `none`.
-/

namespace OpenAgentd.Terminal
open Lib

def readQueueMaxsize : Nat := 64
def readQueueResumeWatermark : Nat := 32

/-- What `os.read` on the PTY comes to. No bytes mean the end of the file, as does an error of a closed or hung-up
descriptor. -/
inductive OsRead where
  | bytes (data : List UInt8)
  | wouldBlock
  | failed
  deriving DecidableEq

/-- `data` in `_on_readable` -/
def OsRead.data : OsRead → List UInt8
  | bytes data => data
  | wouldBlock => []
  | failed => []

/-- `TerminalSession`. `waiting` is a consumer within `queue.get()`, `released` a `close` that has returned, `raised` a
`QueueFull` that was. `received`, `ended` and `results` are what the PTY gave, whether it came to its end, and what the
`read` calls returned. -/
structure TerminalSession where
  queue : List (Option (List UInt8)) := []
  closed : Bool := false
  eof : Bool := false
  readerPaused : Bool := false
  registered : Bool := true
  released : Bool := false
  waiting : Bool := false
  raised : Bool := false
  received : List (List UInt8) := []
  ended : Bool := false
  results : List (Option (List UInt8)) := []
  deriving DecidableEq

namespace TerminalSession
variable (s : TerminalSession)

/-- `queue.full()` -/
def full : Bool := readQueueMaxsize ≤ s.queue.length

/-- The callback comes off the loop when the queue is full. -/
def pause : TerminalSession :=
  if s.full ∧ s.readerPaused = false then { s with readerPaused := true, registered := false } else s

/-- The callback comes off the loop for what it takes for the end of the file. -/
def hangUp (r : OsRead) : TerminalSession :=
  { s with eof := true, registered := false, ended := s.ended || r ≠ OsRead.wouldBlock }

/-- `_on_readable` -/
def onReadable (r : OsRead) : TerminalSession :=
  if r.data ≠ [] then
    if s.full then { s with raised := true, received := s.received ++ [r.data] }
    else pause { s with queue := s.queue ++ [some r.data], received := s.received ++ [r.data] }
  else
    let s := s.hangUp r
    if s.full then { s with raised := true } else { s with queue := s.queue ++ [none] }

/-- The callback goes back on the loop. -/
def resume : TerminalSession :=
  if s.readerPaused ∧ s.closed = false ∧ s.eof = false ∧ s.queue.length ≤ readQueueResumeWatermark then
    { s with readerPaused := false, registered := true }
  else s

/-- `get` has returned the head of the queue. -/
def take (chunk : Option (List UInt8)) (queue : List (Option (List UInt8))) : TerminalSession :=
  resume { s with queue, waiting := false, results := s.results ++ [chunk] }

/-- `read`, up to its return or its wait. -/
def read : TerminalSession :=
  if s.closed ∧ s.queue = [] then { s with results := s.results ++ [none] }
  else
    match s.queue with
    | [] => { s with waiting := true }
    | chunk :: queue => s.take chunk queue

/-- `close`, up to the grace period. -/
def close : TerminalSession := { s with closed := true, registered := false }

/-- The end of `close`. -/
def release : TerminalSession :=
  { s with released := true, queue := if s.full then s.queue else s.queue ++ [none] }

/-- The chunks that the `read` calls returned. -/
def chunksRead : List (List UInt8) := s.results.reduceOption

/-- One `read` of the consumer, or the one that waits. -/
def readOne : TerminalSession :=
  match s.waiting, s.queue with
  | false, _ => s.read
  | true, [] => s
  | true, chunk :: queue => s.take chunk queue

/-- Reads in a row. -/
def readTimes : Nat → TerminalSession → TerminalSession
  | 0, s => s
  | n + 1, s => readTimes n s.readOne

end TerminalSession

/-- The callback, the consumer and `close`. -/
inductive Event where
  | readable (r : OsRead)
  | read
  | wake
  | close
  | release
  deriving DecidableEq

inductive Step : TerminalSession → Event → TerminalSession → Prop where
  | readable {s r} :
    s.registered = true →
    Step s (.readable r) (s.onReadable r)
  | read {s} :
    s.waiting = false →
    Step s .read s.read
  | wake {s chunk queue} :
    s.waiting = true →
    s.queue = chunk :: queue →
    Step s .wake (s.take chunk queue)
  | close {s} :
    s.closed = false →
    Step s .close s.close
  | release {s} :
    s.closed = true →
    s.released = false →
    Step s .release s.release

end OpenAgentd.Terminal
