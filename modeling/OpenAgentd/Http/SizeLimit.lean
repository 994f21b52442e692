import Mathlib.Algebra.GroupWithZero.Nat
import Mathlib.Data.List.TakeWhile
import Mathlib.Tactic.Lemma

/-!
# The size limit of requests

`RequestSizeLimitMiddleware` (`core/middlewares.py`): it counts the bytes of a body as the application receives them and
raises in the application when there are too many; a raise that leaves the application becomes a 413. Before the first
message of a response goes out the body is read to its end, and what was read is kept for the application.

An application is any tree of calls, with what it does when a call raises. For all of them: what is received before the
first raise is within the limit, a body over the limit gets no other response from an application that does not catch the
raise, and a body within the limit is seen as if there were no middleware; and a 413 never follows another response,
unless the application raises again what it caught behind a message that it sent (`call_guarded`).
-/

namespace OpenAgentd.Http

/-- What the server has for the application. -/
inductive Message where
  | request (body : List UInt8) (moreBody : Bool)
  | disconnect
  deriving DecidableEq

/-- The bytes of the message. -/
def Message.size : Message → Nat
  | .request body _ => body.length
  | .disconnect => 0

/-- What an application does: it ends, or it calls `receive` or `send`. A call with `try` is one whose exception the
application catches, others let it through. The index says that an exception of the middleware has been caught: then,
and only then, it can be raised again. -/
inductive App (R : Type*) : Bool → Type _ where
  | returns {c : Bool} : App R c
  | raises {c : Bool} : App R c
  | reraises : App R true
  | receive {c : Bool} (next : Message → App R c) : App R c
  | tryReceive {c : Bool} (next : Message → App R c) (caught : App R true) : App R c
  | send {c : Bool} (message : R) (next : App R c) : App R c
  | trySend {c : Bool} (message : R) (next : App R c) (caught : App R true) : App R c

/-- What is seen of an application: the messages it got, the messages of its response that went out, the calls that
raised in it, and how it ended. -/
inductive Event (R : Type*) where
  | received (message : Message)
  | sent (message : R)
  | refused
  | raised
  | tooLarge
  deriving DecidableEq

/-- The state of one request: what the server still has, and the variables of `__call__`. -/
structure Limiter where
  server : List Message
  receivedBytes : Nat
  requestComplete : Bool
  bufferedRequests : List Message

/-- `receive`: a server that has nothing more says that the client is gone. -/
def serverNext : List Message → Message × List Message
  | [] => (.disconnect, [])
  | message :: messages => (message, messages)

section
variable (maxBytes : Nat)

/-- Counts a message; `true` is the raise. -/
def Limiter.count (s : Limiter) : Message → Limiter × Bool
  | .request body moreBody =>
    if maxBytes < s.receivedBytes + body.length then ({ s with receivedBytes := s.receivedBytes + body.length }, true)
    else ({ s with receivedBytes := s.receivedBytes + body.length, requestComplete := !moreBody }, false)
  | .disconnect => ({ s with requestComplete := true }, false)

/-- The loop of `consume_request`, over what the server has. -/
def consumeRequest (s : Limiter) : List Message → Limiter × Bool
  | [] => ({ s with server := [], bufferedRequests := s.bufferedRequests ++ [.disconnect], requestComplete := true }, false)
  | message :: server =>
    let counted := { s with server, bufferedRequests := s.bufferedRequests ++ [message] }.count maxBytes message
    if counted.2 then counted
    else if counted.1.requestComplete then counted
    else consumeRequest counted.1 server

/-- `send_wrapper`, up to its `send`. -/
def sendWrapper (s : Limiter) : Limiter × Bool :=
  if s.requestComplete then (s, false) else consumeRequest maxBytes s s.server

/-- `receive_wrapper`, with no message for the raise. -/
def receiveWrapper (s : Limiter) : Limiter × Option Message :=
  match s.bufferedRequests with
  | message :: buffered => ({ s with bufferedRequests := buffered }, some message)
  | [] =>
    let read := serverNext s.server
    let counted := { s with server := read.2 }.count maxBytes read.1
    (counted.1, if counted.2 then none else some read.1)

variable {R : Type*}

/-- The application behind the wrappers; `tooLarge` is the 413. -/
def run {c : Bool} : App R c → Limiter → List (Event R)
  | .returns, _ => []
  | .raises, _ => [.raised]
  | .reraises, _ => [.tooLarge]
  | .receive next, s =>
    match receiveWrapper maxBytes s with
    | (s', some message) => .received message :: run (next message) s'
    | (_, none) => [.tooLarge]
  | .tryReceive next caught, s =>
    match receiveWrapper maxBytes s with
    | (s', some message) => .received message :: run (next message) s'
    | (s', none) => .refused :: run caught s'
  | .send message next, s =>
    match sendWrapper maxBytes s with
    | (s', false) => .sent message :: run next s'
    | (_, true) => [.tooLarge]
  | .trySend message next caught, s =>
    match sendWrapper maxBytes s with
    | (s', false) => .sent message :: run next s'
    | (s', true) => .refused :: run caught s'

/-- `__call__` for a request whose header says `declared`, if it says a number. -/
def call (declared : Option Int) (app : App R false) (stream : List Message) : List (Event R) :=
  if declared.any fun n => decide ((maxBytes : Int) < n) then [.tooLarge]
  else run maxBytes app ⟨stream, 0, false, []⟩

end

/-- The application without the middleware; with nothing caught there is nothing to raise again. -/
def direct {R : Type*} {c : Bool} : App R c → List Message → List (Event R)
  | .returns, _ => []
  | .raises, _ => [.raised]
  | .reraises, _ => [.tooLarge]
  | .receive next, server =>
    .received (serverNext server).1 :: direct (next (serverNext server).1) (serverNext server).2
  | .tryReceive next _, server =>
    .received (serverNext server).1 :: direct (next (serverNext server).1) (serverNext server).2
  | .send message next, server => .sent message :: direct next server
  | .trySend message next _, server => .sent message :: direct next server

/-! ### What is promised -/

/-- All bytes of the messages. -/
def totalSize (messages : List Message) : Nat := (messages.map Message.size).sum

/-- Nothing more comes. -/
def Over (messages : List Message) : Prop := ∀ message ∈ messages, message = .disconnect

/-- Behind the last part of a body, and behind a disconnect, nothing more comes. -/
def Conformant : List Message → Prop
  | [] => True
  | .request _ true :: messages => Conformant messages
  | .request _ false :: messages => Over messages
  | .disconnect :: messages => Over messages

variable {R : Type*} {c : Bool}

/-- Behind a message that it sent the application does not raise again what it caught; `sent` says that it has sent one. -/
def App.RaisesFirst {c : Bool} (sent : Bool) : App R c → Prop
  | .returns => True
  | .raises => True
  | .reraises => sent = false
  | .receive next => ∀ message, (next message).RaisesFirst sent
  | .tryReceive next caught => (∀ message, (next message).RaisesFirst sent) ∧ caught.RaisesFirst sent
  | .send _ next => next.RaisesFirst true
  | .trySend _ next caught => next.RaisesFirst true ∧ caught.RaisesFirst sent

/-- The application lets every raise through. -/
def App.Propagates {c : Bool} : App R c → Prop
  | .returns => True
  | .raises => True
  | .reraises => True
  | .receive next => ∀ message, (next message).Propagates
  | .tryReceive _ _ => False
  | .send _ next => next.Propagates
  | .trySend _ _ _ => False

/-- The bytes that the application gets before a call raises in it. -/
def sizeBefore : List (Event R) → Nat
  | [] => 0
  | .received message :: events => message.size + sizeBefore events
  | .sent _ :: events => sizeBefore events
  | .raised :: _ => 0
  | .refused :: _ => 0
  | .tooLarge :: _ => 0

/-- What the middleware promises of a request. -/
structure Guarded (maxBytes : Nat) (declared : Option Int) (app : App R false) (stream : List Message)
    (events : List (Event R)) : Prop where
  bounded : sizeBefore events ≤ maxBytes
  single : Conformant stream → app.RaisesFirst false → .tooLarge ∈ events → ∀ message, .sent message ∉ events
  rejected : Conformant stream → maxBytes < totalSize stream → app.Propagates → ∀ message, .sent message ∉ events
  transparent : totalSize stream ≤ maxBytes → (∀ n, declared = some n → n ≤ maxBytes) → events = direct app stream

section
variable {maxBytes : Nat} {s s' : Limiter} {message : Message} {messages server : List Message} {app : App R c}

/-- Messages in a row. -/
lemma totalSize_append (messages messages' : List Message) :
    totalSize (messages ++ messages') = totalSize messages + totalSize messages' := by
  rw [totalSize, List.map_append, List.sum_append]
  rfl

/-- Behind the end nothing comes. -/
lemma totalSize_over (ended : Over messages) : totalSize messages = 0 := by
  induction messages with
  | nil => rfl
  | cons message messages ih =>
    have here := ended message List.mem_cons_self
    subst here
    have rest := ih fun m mem => ended m (List.mem_cons_of_mem _ mem)
    rw [totalSize, List.map_cons, List.sum_cons]
    exact (Nat.zero_add _).trans rest

/-- What is over conforms. -/
lemma Over.conformant (ended : Over messages) : Conformant messages := by
  cases messages with
  | nil => trivial
  | cons message messages =>
    have here := ended message List.mem_cons_self
    subst here
    exact fun m mem => ended m (List.mem_cons_of_mem _ mem)

/-- What the application has still to get. -/
def Limiter.pending (s : Limiter) : List Message := s.bufferedRequests ++ s.server

/-- A server that is not done sends what a server may, and one that is done sends nothing. -/
structure Limiter.Sound (s : Limiter) : Prop where
  conformant : Conformant s.server
  ended : s.requestComplete = true → Over s.server

/-! ### One message -/

/-- What counting a message does. -/
structure Counted (maxBytes : Nat) (s : Limiter) (message : Message) (counted : Limiter × Bool) : Prop where
  server : counted.1.server = s.server
  buffered : counted.1.bufferedRequests = s.bufferedRequests
  received : counted.1.receivedBytes = s.receivedBytes + message.size
  raises : counted.2 = true → maxBytes < counted.1.receivedBytes ∧ counted.1.requestComplete = s.requestComplete
  fits : counted.2 = false → s.receivedBytes ≤ maxBytes → counted.1.receivedBytes ≤ maxBytes
  ended : counted.2 = false → Conformant (message :: s.server) → counted.1.requestComplete = true → Over s.server
  gone : message = .disconnect → counted.2 = false ∧ counted.1.requestComplete = true

/-- What counting does. -/
lemma counted (maxBytes : Nat) (s : Limiter) (message : Message) :
    Counted maxBytes s message (s.count maxBytes message) := by
  cases message with
  | disconnect => exact ⟨rfl, rfl, rfl, nofun, fun _ le => le, fun _ conformant _ => conformant, fun _ => ⟨rfl, rfl⟩⟩
  | request body moreBody =>
    unfold Limiter.count
    dsimp only
    split
    next large => exact ⟨rfl, rfl, rfl, fun _ => ⟨large, rfl⟩, nofun, nofun, nofun⟩
    next small =>
      refine ⟨rfl, rfl, rfl, nofun, fun _ _ => Nat.le_of_not_lt small, ?_, nofun⟩
      intro _ conformant complete
      cases moreBody with
      | true => cases complete
      | false => exact conformant

/-- Behind a message a conformant server is conformant. -/
lemma conformant_tail (conformant : Conformant (message :: messages)) : Conformant messages := by
  cases message with
  | disconnect => exact conformant.conformant
  | request body moreBody =>
    cases moreBody with
    | true => exact conformant
    | false => exact conformant.conformant

/-! ### Reading the body to its end -/

/-- What `consume_request` does to the state, whether it raises or not. -/
structure Drained (maxBytes : Nat) (s s' : Limiter) (large : Bool) : Prop where
  pending : s'.pending = s.pending ∨ s'.pending = s.pending ++ [.disconnect]
  delivered : s'.receivedBytes + totalSize s.bufferedRequests = s.receivedBytes + totalSize s'.bufferedRequests
  raises : large = true → maxBytes < s'.receivedBytes ∧ s'.requestComplete = false
  fits : large = false → s'.requestComplete = true ∧ (s.receivedBytes ≤ maxBytes → s'.receivedBytes ≤ maxBytes)
  sound : s.Sound → s'.Sound

/-- The rest is read. -/
lemma consumeRequest_drained (open_ : s.requestComplete = false) :
    Drained maxBytes s (consumeRequest maxBytes s s.server).1 (consumeRequest maxBytes s s.server).2 := by
  generalize e : s.server = server
  induction server generalizing s with
  | nil =>
    refine ⟨.inr ?_, ?_, nofun, fun _ => ⟨rfl, fun le => le⟩, fun _ => ⟨trivial, fun _ => nofun⟩⟩
    · simp [consumeRequest, Limiter.pending, e]
    · rw [consumeRequest, totalSize_append]
      rfl
  | cons message server ih =>
    obtain ⟨rest, buffered, received, raises, fits, ended, _⟩ :=
      counted maxBytes { s with server, bufferedRequests := s.bufferedRequests ++ [message] } message
    unfold consumeRequest
    dsimp only
    generalize Limiter.count maxBytes { s with server, bufferedRequests := s.bufferedRequests ++ [message] } message =
      counted at rest buffered received raises fits ended ⊢
    dsimp only at rest buffered received raises fits ended
    have pending : counted.1.pending = s.pending := by
      rw [Limiter.pending, Limiter.pending, rest, buffered, e, List.append_assoc]
      rfl
    have size : totalSize counted.1.bufferedRequests = totalSize s.bufferedRequests + message.size := by
      rw [buffered, totalSize_append]
      rfl
    have sound : s.Sound → Conformant (message :: server) := fun sound => e ▸ sound.conformant
    split
    next large =>
      refine ⟨.inl pending, by omega, fun _ => ⟨(raises large).1, (raises large).2.trans open_⟩, fun small => ?_, ?_⟩
      · rw [large] at small
        cases small
      · intro whole
        refine ⟨rest ▸ conformant_tail (sound whole), fun complete => ?_⟩
        rw [(raises large).2, open_] at complete
        cases complete
    next small =>
      have small := Bool.eq_false_iff.mpr small
      split
      next complete =>
        refine ⟨.inl pending, by omega, fun large => ?_, fun _ => ⟨complete, fits small⟩, ?_⟩
        · rw [small] at large
          cases large
        · intro whole
          exact ⟨rest ▸ conformant_tail (sound whole), fun _ => rest ▸ ended small (sound whole) complete⟩
      next more =>
        have more := Bool.eq_false_iff.mpr more
        have later := ih more rest
        refine ⟨?_, ?_, later.raises, fun fine => ⟨(later.fits fine).1, fun le => (later.fits fine).2 (fits small le)⟩, ?_⟩
        · rw [← pending]
          exact later.pending
        · have delivered := later.delivered
          omega
        · intro whole
          apply later.sound
          refine ⟨rest ▸ conformant_tail (sound whole), fun complete => ?_⟩
          rw [more] at complete
          cases complete

/-- Sending reads the rest. -/
lemma sendWrapper_drained (maxBytes : Nat) (s : Limiter) :
    Drained maxBytes s (sendWrapper maxBytes s).1 (sendWrapper maxBytes s).2 := by
  unfold sendWrapper
  split
  next complete => exact ⟨.inl rfl, rfl, nofun, fun _ => ⟨complete, fun le => le⟩, fun sound => sound⟩
  next open_ => exact consumeRequest_drained (Bool.eq_false_iff.mpr open_)

/-! ### One call of `receive` -/

/-- What `receive_wrapper` does to the state. -/
inductive Received (maxBytes : Nat) (s : Limiter) : Limiter × Option Message → Prop where
  | message (s' : Limiter) (message : Message)
      (pending : (message, s'.pending) = serverNext s.pending)
      (delivered : s'.receivedBytes + totalSize s.bufferedRequests =
        s.receivedBytes + totalSize s'.bufferedRequests + message.size)
      (fits : s.receivedBytes ≤ maxBytes → s'.receivedBytes ≤ maxBytes)
      (sound : s.Sound → s'.Sound)
      (complete : s.requestComplete = true → Over s.server → s'.requestComplete = true ∧ Over s'.server) :
      Received maxBytes s (s', some message)
  | raises (s' : Limiter) (large : maxBytes < s.receivedBytes + totalSize s.server) (sound : s.Sound → s'.Sound)
      (more : ¬ Over s.server) : Received maxBytes s (s', none)

/-- What receiving does. -/
lemma receiveWrapper_received (maxBytes : Nat) (s : Limiter) : Received maxBytes s (receiveWrapper maxBytes s) := by
  unfold receiveWrapper
  split
  next message buffered e =>
    refine .message _ message ?_ ?_ (fun le => le) (fun sound => ⟨sound.conformant, sound.ended⟩) fun c ended => ⟨c, ended⟩
    · rw [Limiter.pending, Limiter.pending, e]
      rfl
    · rw [e]
      simp only [totalSize, List.map_cons, List.sum_cons]
      omega
  next none_ =>
    cases e : s.server with
    | nil =>
      refine .message _ .disconnect ?_ rfl (fun le => le) (fun _ => ⟨trivial, fun _ => nofun⟩) fun _ _ => ⟨rfl, nofun⟩
      rw [Limiter.pending, Limiter.pending, none_, e]
      rfl
    | cons message server =>
      obtain ⟨rest, buffered, received, raises, fits, ended, gone⟩ := counted maxBytes { s with server } message
      dsimp only [serverNext]
      generalize Limiter.count maxBytes { s with server } message = counted at rest buffered received raises fits ended gone ⊢
      dsimp only at rest buffered received raises fits ended gone
      have conformant : s.Sound → Conformant (message :: server) := fun sound => e ▸ sound.conformant
      split
      next large =>
        have many := (raises large).1
        refine .raises _ ?_ ?_ ?_
        · rw [e, totalSize, List.map_cons, List.sum_cons]
          omega
        · intro sound
          refine ⟨rest ▸ conformant_tail (conformant sound), fun complete => ?_⟩
          rw [(raises large).2] at complete
          have ended := sound.ended complete
          rw [e] at ended
          exact rest ▸ fun m mem => ended m (List.mem_cons_of_mem _ mem)
        · intro ended
          have small := (gone (ended message (e ▸ List.mem_cons_self))).1
          rw [large] at small
          cases small
      next small =>
        have small := Bool.eq_false_iff.mpr small
        refine .message _ message ?_ ?_ (fits small) ?_ ?_
        · rw [Limiter.pending, Limiter.pending, buffered, rest, none_, e]
          rfl
        · rw [buffered]
          omega
        · intro sound
          exact ⟨rest ▸ conformant_tail (conformant sound), fun complete => rest ▸ ended small (conformant sound) complete⟩
        · intro _ done
          refine ⟨(gone (done message (e ▸ List.mem_cons_self))).2, ?_⟩
          exact rest ▸ fun m mem => done m (e ▸ List.mem_cons_of_mem _ mem)

end

/-! ### The whole application -/

section
variable {maxBytes : Nat} {s s' : Limiter} {app : App R c} {large : Bool}

/-- What the server has and the count, together, stay as they are. -/
lemma Drained.total (h : Drained maxBytes s s' large) :
    s'.receivedBytes + totalSize s'.server = s.receivedBytes + totalSize s.server := by
  have delivered := h.delivered
  have pending : totalSize s'.pending = totalSize s.pending := by
    cases h.pending with
    | inl same => rw [same]
    | inr more =>
      rw [more, totalSize_append]
      rfl
  rw [Limiter.pending, Limiter.pending, totalSize_append, totalSize_append] at pending
  omega

/-- Sizes of the first and the rest. -/
lemma totalSize_serverNext (messages : List Message) :
    (serverNext messages).1.size + totalSize (serverNext messages).2 = totalSize messages := by
  cases messages with
  | nil => rfl
  | cons message messages => rfl

/-- What was received and what is left. -/
lemma received_total {message : Message} (pending : (message, s'.pending) = serverNext s.pending)
    (delivered : s'.receivedBytes + totalSize s.bufferedRequests =
      s.receivedBytes + totalSize s'.bufferedRequests + message.size) :
    s'.receivedBytes + totalSize s'.server = s.receivedBytes + totalSize s.server := by
  have next := totalSize_serverNext s.pending
  rw [← pending] at next
  dsimp only at next
  rw [Limiter.pending, Limiter.pending, totalSize_append, totalSize_append] at next
  omega

/-- What the application has got and what is kept for it is within the limit. -/
lemma sizeBefore_run (fits : s.receivedBytes ≤ maxBytes) :
    sizeBefore (run maxBytes app s) + s.receivedBytes ≤ maxBytes + totalSize s.bufferedRequests := by
  induction app generalizing s with
  | returns => exact Nat.add_comm _ _ ▸ Nat.add_le_add fits (Nat.zero_le _)
  | raises => exact Nat.add_comm _ _ ▸ Nat.add_le_add fits (Nat.zero_le _)
  | reraises => exact Nat.add_comm _ _ ▸ Nat.add_le_add fits (Nat.zero_le _)
  | receive next ih =>
    have got := receiveWrapper_received maxBytes s
    rw [run]
    generalize receiveWrapper maxBytes s = result at got
    cases got with
    | message s' message pending delivered fits' _ _ =>
      have later := ih message (fits' fits)
      simp only [sizeBefore]
      omega
    | raises s' large _ _ =>
      simp only [sizeBefore]
      omega
  | tryReceive next caught ih ihCaught =>
    have got := receiveWrapper_received maxBytes s
    rw [run]
    generalize receiveWrapper maxBytes s = result at got
    cases got with
    | message s' message pending delivered fits' _ _ =>
      have later := ih message (fits' fits)
      simp only [sizeBefore]
      omega
    | raises s' large _ _ =>
      simp only [sizeBefore]
      omega
  | send message next ih =>
    have drained := sendWrapper_drained maxBytes s
    rw [run]
    generalize sendWrapper maxBytes s = result at drained
    obtain ⟨s', large⟩ := result
    cases large with
    | false =>
      have later := ih ((drained.fits rfl).2 fits)
      have delivered := drained.delivered
      simp only [sizeBefore] at later delivered ⊢
      omega
    | true =>
      simp only [sizeBefore]
      omega
  | trySend message next caught ih ihCaught =>
    have drained := sendWrapper_drained maxBytes s
    rw [run]
    generalize sendWrapper maxBytes s = result at drained
    obtain ⟨s', large⟩ := result
    cases large with
    | false =>
      have later := ih ((drained.fits rfl).2 fits)
      have delivered := drained.delivered
      simp only [sizeBefore] at later delivered ⊢
      omega
    | true =>
      simp only [sizeBefore]
      omega

/-- When the body has been read to its end nothing raises, unless the application does. -/
lemma run_complete (complete : s.requestComplete = true) (ended : Over s.server) (first : app.RaisesFirst true) :
    .tooLarge ∉ run maxBytes app s := by
  have sends : sendWrapper maxBytes s = (s, false) := if_pos complete
  induction app generalizing s with
  | returns => exact List.not_mem_nil
  | raises => simp [run]
  | reraises => exact absurd first Bool.false_ne_true.symm
  | receive next ih =>
    have got := receiveWrapper_received maxBytes s
    rw [run]
    generalize receiveWrapper maxBytes s = result at got
    cases got with
    | message s' message _ _ _ _ kept =>
      obtain ⟨complete', ended'⟩ := kept complete ended
      have later := ih message complete' ended' (first message) (if_pos complete')
      simpa using later
    | raises s' _ _ more => exact absurd ended more
  | tryReceive next caught ih ihCaught =>
    have got := receiveWrapper_received maxBytes s
    rw [run]
    generalize receiveWrapper maxBytes s = result at got
    cases got with
    | message s' message _ _ _ _ kept =>
      obtain ⟨complete', ended'⟩ := kept complete ended
      have later := ih message complete' ended' (first.1 message) (if_pos complete')
      simpa using later
    | raises s' _ _ more => exact absurd ended more
  | send message next ih =>
    rw [run, sends]
    simpa using ih complete ended first sends
  | trySend message next caught ih ihCaught =>
    rw [run, sends]
    simpa using ih complete ended first.1 sends

/-- A 413 is the only response, when the application does not raise behind its own. -/
lemma run_single (sound : s.Sound) (first : app.RaisesFirst false) (large : .tooLarge ∈ run maxBytes app s) (message : R) :
    .sent message ∉ run maxBytes app s := by
  induction app generalizing s with
  | returns => exact List.not_mem_nil
  | raises => simp [run]
  | reraises => simp [run]
  | receive next ih =>
    have got := receiveWrapper_received maxBytes s
    rw [run] at large ⊢
    generalize receiveWrapper maxBytes s = result at got large
    cases got with
    | message s' received _ _ _ kept _ =>
      simp only [List.mem_cons, reduceCtorEq, false_or] at large ⊢
      exact ih received (kept sound) (first received) large
    | raises s' _ _ _ => simp
  | tryReceive next caught ih ihCaught =>
    have got := receiveWrapper_received maxBytes s
    rw [run] at large ⊢
    generalize receiveWrapper maxBytes s = result at got large
    cases got with
    | message s' received _ _ _ kept _ =>
      simp only [List.mem_cons, reduceCtorEq, false_or] at large ⊢
      exact ih received (kept sound) (first.1 received) large
    | raises s' _ kept _ =>
      simp only [List.mem_cons, reduceCtorEq, false_or] at large ⊢
      exact ihCaught (kept sound) first.2 large
  | send response next ih =>
    have drained := sendWrapper_drained maxBytes s
    rw [run] at large ⊢
    generalize sendWrapper maxBytes s = result at drained large
    obtain ⟨s', raised⟩ := result
    cases raised with
    | false =>
      have complete := (drained.fits rfl).1
      simp only [List.mem_cons, reduceCtorEq, false_or] at large
      exact absurd large (run_complete complete ((drained.sound sound).ended complete) first)
    | true => simp
  | trySend response next caught ih ihCaught =>
    have drained := sendWrapper_drained maxBytes s
    rw [run] at large ⊢
    generalize sendWrapper maxBytes s = result at drained large
    obtain ⟨s', raised⟩ := result
    cases raised with
    | false =>
      have complete := (drained.fits rfl).1
      simp only [List.mem_cons, reduceCtorEq, false_or] at large
      exact absurd large (run_complete complete ((drained.sound sound).ended complete) first.1)
    | true =>
      simp only [List.mem_cons, reduceCtorEq, false_or] at large ⊢
      exact ihCaught (drained.sound sound) first.2 large

/-- An application that catches nothing sends no response to a body over the limit. -/
lemma run_rejected (sound : s.Sound) (fits : s.receivedBytes ≤ maxBytes)
    (large : maxBytes < s.receivedBytes + totalSize s.server) (through : app.Propagates) (message : R) :
    .sent message ∉ run maxBytes app s := by
  induction app generalizing s with
  | returns => exact List.not_mem_nil
  | raises => simp [run]
  | reraises => simp [run]
  | receive next ih =>
    have got := receiveWrapper_received maxBytes s
    rw [run]
    generalize receiveWrapper maxBytes s = result at got
    cases got with
    | message s' received pending delivered fits' kept _ =>
      simp only [List.mem_cons, reduceCtorEq, false_or]
      exact ih received (kept sound) (fits' fits) (received_total pending delivered ▸ large) (through received)
    | raises s' _ _ _ => simp
  | tryReceive next caught ih ihCaught => exact absurd through id
  | send response next ih =>
    have drained := sendWrapper_drained maxBytes s
    rw [run]
    generalize sendWrapper maxBytes s = result at drained
    obtain ⟨s', raised⟩ := result
    cases raised with
    | false =>
      have total := drained.total
      have complete := (drained.fits rfl).1
      have ended := totalSize_over ((drained.sound sound).ended complete)
      have fits' := (drained.fits rfl).2 fits
      dsimp only at total ended fits'
      omega
    | true => simp
  | trySend response next caught ih ihCaught => exact absurd through id

/-- A disconnect at the end is what comes there anyway. -/
lemma direct_disconnect (app : App R c) (server : List Message) : direct app (server ++ [.disconnect]) = direct app server := by
  induction app generalizing server with
  | returns => rfl
  | raises => rfl
  | reraises => rfl
  | receive next ih =>
    cases server with
    | nil => rfl
    | cons message server => exact congrArg (List.cons (.received message)) (ih message server)
  | tryReceive next caught ih ihCaught =>
    cases server with
    | nil => rfl
    | cons message server => exact congrArg (List.cons (.received message)) (ih message server)
  | send message next ih => rw [direct, direct, ih]
  | trySend message next caught ih ihCaught => rw [direct, direct, ih]

/-- Within the limit the application does not notice the middleware. -/
lemma run_transparent (fits : s.receivedBytes + totalSize s.server ≤ maxBytes) :
    run maxBytes app s = direct app s.pending := by
  induction app generalizing s with
  | returns => rfl
  | raises => rfl
  | reraises => rfl
  | receive next ih =>
    have got := receiveWrapper_received maxBytes s
    rw [run, direct]
    generalize receiveWrapper maxBytes s = result at got
    cases got with
    | message s' received pending delivered _ _ _ =>
      dsimp only
      rw [ih received (received_total pending delivered ▸ fits), ← pending]
    | raises s' large _ _ => omega
  | tryReceive next caught ih ihCaught =>
    have got := receiveWrapper_received maxBytes s
    rw [run, direct]
    generalize receiveWrapper maxBytes s = result at got
    cases got with
    | message s' received pending delivered _ _ _ =>
      dsimp only
      rw [ih received (received_total pending delivered ▸ fits), ← pending]
    | raises s' large _ _ => omega
  | send message next ih =>
    have drained := sendWrapper_drained maxBytes s
    rw [run, direct]
    generalize sendWrapper maxBytes s = result at drained
    obtain ⟨s', raised⟩ := result
    have total := drained.total
    cases raised with
    | false =>
      dsimp only at total ⊢
      rw [ih (by omega)]
      cases drained.pending with
      | inl same => rw [same]
      | inr more => rw [more, direct_disconnect]
    | true =>
      have many := (drained.raises rfl).1
      dsimp only at total many
      omega
  | trySend message next caught ih ihCaught =>
    have drained := sendWrapper_drained maxBytes s
    rw [run, direct]
    generalize sendWrapper maxBytes s = result at drained
    obtain ⟨s', raised⟩ := result
    have total := drained.total
    cases raised with
    | false =>
      dsimp only at total ⊢
      rw [ih (by omega)]
      cases drained.pending with
      | inl same => rw [same]
      | inr more => rw [more, direct_disconnect]
    | true =>
      have many := (drained.raises rfl).1
      dsimp only at total many
      omega

end

/-- What the middleware promises of every request, whatever the application does. -/
theorem call_guarded (maxBytes : Nat) (declared : Option Int) (app : App R false) (stream : List Message) :
    Guarded maxBytes declared app stream (call maxBytes declared app stream) := by
  unfold call
  split
  next large =>
    refine ⟨Nat.zero_le _, fun _ _ => by simp, fun _ _ _ => by simp, fun _ declared_ => ?_⟩
    obtain ⟨n, e, excess⟩ := (Option.any_eq_true _ _).mp large
    exact absurd (declared_ n e) (Int.not_le.mpr (of_decide_eq_true excess))
  next =>
    have sound : Conformant stream → (⟨stream, 0, false, []⟩ : Limiter).Sound := fun conformant => ⟨conformant, nofun⟩
    have bounded : sizeBefore (run maxBytes app ⟨stream, 0, false, []⟩) + 0 ≤ maxBytes + 0 :=
      sizeBefore_run (Nat.zero_le maxBytes)
    refine ⟨bounded, fun conformant => run_single (sound conformant), ?_, ?_⟩
    · intro conformant large through
      exact run_rejected (sound conformant) (Nat.zero_le maxBytes) (by rwa [Nat.zero_add]) through
    · intro fits _
      exact run_transparent (by rwa [Nat.zero_add])

end OpenAgentd.Http
