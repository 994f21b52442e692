import OpenAgentd.Lib.Run
import OpenAgentd.Lib.Dict

/-!
# A language server client

`LspClient` (`services/lsp/client.py`): its process, its read loop, its requests, and `stop` as the stages that it
waits in. The read loop ends when the output ends, when it cannot be read, or when it is cancelled; it fails the
requests that are pending then.
-/

namespace OpenAgentd.Lsp
open OpenAgentd.Lib

/-- The root and the language. -/
abbrev Init := String × String

abbrev Command := List String

structure Key where
  init : Init
  command : Command
deriving DecidableEq

/-- The server's process; `exited` has a return code. -/
inductive Process where
  | none
  | running
  | exited
deriving DecidableEq

inductive ReadLoop where
  | idle
  | reading
  | ended
deriving DecidableEq

/-- Where `send_request` is: in its write, at its future, or at its end. -/
inductive RequestPhase where
  | sending
  | waiting
  | finished
deriving DecidableEq

/-- A request and whether its future is done. -/
structure Request where
  phase : RequestPhase
  done : Bool
deriving DecidableEq

structure LspClient where
  key : Key
  process : Process
  /-- `self.process is not None` -/
  attached : Bool
  readLoop : ReadLoop
  requests : List Request
  lastUsedAt : Nat
deriving DecidableEq

/-- What happens to a client: to its server, to its read loop, and to its senders. -/
inductive ClientEvent where
  | exit
  | readEnds
  | answer (i : Nat)
  | send
  | sendFails (i : Nat)
  | sent (i : Nat)
  | notified
  | returns (i : Nat)
  | cancelled (i : Nat)
deriving DecidableEq

/-- Where `stop` waits: for the answer to `shutdown`, for the process, or for the read task. -/
inductive Stage where
  | graceful
  | terminating
  | joining
deriving DecidableEq

namespace LspClient

/-- `start` has its process. -/
def spawned (key : Key) (now : Nat) : LspClient where
  key
  process := .running
  attached := true
  readLoop := .reading
  requests := []
  lastUsedAt := now

/-- The `finally` of `_read_loop`, and the end of `stop`. -/
def endLoop (c : LspClient) : LspClient :=
  { c with readLoop := .ended, requests := c.requests.map fun r => { r with done := true } }

def setRequest (c : LspClient) (i : Nat) (r : Request) : LspClient := { c with requests := c.requests.set i r }

/-- One step of a client at a time. -/
def step (c : LspClient) (now : Nat) : ClientEvent → Option LspClient
  | .exit => if c.process = .running then some { c with process := .exited } else none
  | .readEnds => if c.readLoop = .reading then some c.endLoop else none
  | .answer i =>
    if c.readLoop = .reading then (c.requests[i]?).map fun r => c.setRequest i { r with done := true } else none
  -- without a process `send_message` raises
  | .send => if c.attached then some { c with requests := c.requests ++ [⟨.sending, false⟩] } else some c
  | .sendFails i =>
    match c.requests[i]? with
    | some ⟨.sending, done⟩ => some (c.setRequest i ⟨.finished, done⟩)
    | _ => none
  | .sent i =>
    match c.requests[i]? with
    | some ⟨.sending, done⟩ => some { c.setRequest i ⟨.waiting, done⟩ with lastUsedAt := now }
    | _ => none
  | .notified => if c.attached then some { c with lastUsedAt := now } else none
  | .returns i =>
    match c.requests[i]? with
    | some ⟨.waiting, true⟩ => some (c.setRequest i ⟨.finished, true⟩)
    | _ => none
  | .cancelled i => (c.requests[i]?).map fun r => c.setRequest i { r with phase := .finished }

/-- One step of `stop`, with the stage after it. -/
def stopStep (c : LspClient) : Stage → Option (LspClient × Option Stage)
  | .graceful => some (c, some .terminating)
  | .terminating => if c.process = .running then none else some ({ c with attached := false }, some .joining)
  | .joining => some (c.endLoop, none)

/-- `client.process and client.process.returncode is None` -/
def alive (c : LspClient) : Bool := c.attached && c.process != .exited

/-- `client.process and client.process.returncode is not None` -/
def died (c : LspClient) : Bool := c.attached && c.process == .exited

/-- With the read loop at its end no request waits for a future that nobody resolves. -/
def Answered (c : LspClient) : Prop := c.readLoop = .ended → ∀ (i : Nat) (r : Request), c.requests[i]? = some r →
  r.phase = .waiting → r.done = true

end LspClient

section
variable {c c' : LspClient} {now : Nat} {e : ClientEvent} {stage : Stage} {after : Option Stage}

/-- What a step keeps of a client. -/
structure LspClient.Keeps (c c' : LspClient) : Prop where
  key : c'.key = c.key
  running : c'.process = .running → c.process = .running
  answered : c.Answered → c'.Answered

/-- A request changes, and waits no more than before. -/
lemma LspClient.keeps_setRequest {i : Nat} {r r' : Request} (here : c.requests[i]? = some r)
    (right : c.readLoop = .ended → r'.phase = .waiting → r.done = true ∨ r.phase = .waiting)
    (done : r.done = true → r'.done = true) : c.Keeps (c.setRequest i r') where
  key := rfl
  running h := h
  answered answered ended j x there waits := by
    have lt : i < c.requests.length := (List.getElem?_eq_some_iff.mp here).1
    simp only [setRequest, List.getElem?_set, lt] at there
    split at there
    next =>
      cases there
      apply done
      cases right ended waits with
      | inl before => exact before
      | inr waited => exact answered ended i r here waited
    next => exact answered ended j x there waits

/-- The end of the read loop resolves all. -/
lemma LspClient.keeps_endLoop : c.Keeps c.endLoop where
  key := rfl
  running h := h
  answered _ _ i r here _ := by
    rw [endLoop, List.getElem?_map] at here
    obtain ⟨x, _, rfl⟩ := Option.map_eq_some_iff.mp here
    rfl

/-- A step keeps the client in order, unless a message goes through that nobody will answer. -/
lemma LspClient.keeps_step (st : c.step now e = some c')
    (right : ∀ i, e = .sent i → c.readLoop = .ended → ∀ r, c.requests[i]? = some r → r.done = true) : c.Keeps c' := by
  cases e with
  | exit =>
    rw [step] at st
    split at st
    next =>
      cases st
      exact ⟨rfl, fun h => (by cases h), fun answered => answered⟩
    next => cases st
  | readEnds =>
    rw [step] at st
    split at st
    next =>
      cases st
      exact keeps_endLoop
    next => cases st
  | answer i =>
    rw [step] at st
    split at st
    next reading =>
      obtain ⟨r, here, rfl⟩ := Option.map_eq_some_iff.mp st
      exact keeps_setRequest here (fun ended => by rw [reading] at ended; cases ended) fun _ => rfl
    next => cases st
  | send =>
    rw [step] at st
    split at st
    next =>
      cases st
      refine ⟨rfl, fun h => h, fun answered ended i r there waits => ?_⟩
      rw [List.getElem?_append] at there
      split at there
      · exact answered ended i r there waits
      next =>
        rw [List.getElem?_singleton] at there
        split at there
        · cases there
          cases waits
        · cases there
    next =>
      cases st
      exact ⟨rfl, fun h => h, fun answered => answered⟩
  | sendFails i =>
    rw [step] at st
    split at st
    next done here =>
      cases st
      exact keeps_setRequest here (fun _ waits => by cases waits) fun h => h
    next => cases st
  | sent i =>
    rw [step] at st
    split at st
    next done here =>
      cases st
      have keeps : c.Keeps (c.setRequest i ⟨.waiting, done⟩) :=
        keeps_setRequest here (fun ended _ => .inl (right i rfl ended _ here)) fun h => h
      exact ⟨rfl, keeps.running, keeps.answered⟩
    next => cases st
  | notified =>
    rw [step] at st
    split at st
    next =>
      cases st
      exact ⟨rfl, fun h => h, fun answered => answered⟩
    next => cases st
  | returns i =>
    rw [step] at st
    split at st
    next here =>
      cases st
      exact keeps_setRequest here (fun _ waits => by cases waits) fun h => h
    next => cases st
  | cancelled i =>
    obtain ⟨r, here, rfl⟩ := Option.map_eq_some_iff.mp st
    exact keeps_setRequest here (fun _ waits => by cases waits) fun h => h

/-- Only the end of the read loop ends it. -/
lemma LspClient.readLoop_step (st : c.step now e = some c') (other : e ≠ .readEnds) : c'.readLoop = c.readLoop := by
  cases e with
  | exit =>
    rw [step] at st
    split at st
    · cases st; rfl
    · cases st
  | readEnds => exact absurd rfl other
  | answer i =>
    rw [step] at st
    split at st
    · obtain ⟨r, _, rfl⟩ := Option.map_eq_some_iff.mp st
      rfl
    · cases st
  | send =>
    rw [step] at st
    split at st
    · cases st; rfl
    · cases st; rfl
  | sendFails i =>
    rw [step] at st
    split at st
    · cases st; rfl
    · cases st
  | sent i =>
    rw [step] at st
    split at st
    · cases st; rfl
    · cases st
  | notified =>
    rw [step] at st
    split at st
    · cases st; rfl
    · cases st
  | returns i =>
    rw [step] at st
    split at st
    · cases st; rfl
    · cases st
  | cancelled i =>
    obtain ⟨r, _, rfl⟩ := Option.map_eq_some_iff.mp st
    rfl

/-- A stage of `stop`: the read loop goes on until it is joined, and then the process has gone. -/
lemma LspClient.keeps_stopStep (st : c.stopStep stage = some (c', after)) (gone : stage = .joining → c.process ≠ .running) :
    c.Keeps c' ∧ (stage ≠ .joining → c'.readLoop = c.readLoop) ∧ (after = some .joining ∨ after = none → c'.process ≠ .running) ∧
      (after = none ↔ stage = .joining) := by
  cases stage with
  | graceful =>
    cases st
    refine ⟨⟨rfl, fun h => h, fun answered => answered⟩, fun _ => rfl, fun either => ?_, iff_of_false (by simp) (by simp)⟩
    rcases either with e | e
    · cases e
    · cases e
  | terminating =>
    rw [stopStep] at st
    split at st
    · cases st
    next left =>
      cases st
      exact ⟨⟨rfl, fun h => h, fun answered => answered⟩, fun _ => rfl, fun _ => left, iff_of_false (by simp) (by simp)⟩
  | joining =>
    cases st
    exact ⟨keeps_endLoop, fun other => absurd rfl other, fun _ => gone rfl, iff_of_true rfl rfl⟩

end

end OpenAgentd.Lsp
