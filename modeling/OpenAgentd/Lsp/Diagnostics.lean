import OpenAgentd.Lib.Run

/-!
# The diagnostics of a document

The check cycles of one document on one language server: `reset_diagnostics`, `open_or_update_document`,
`close_document`, `get_diagnostics` and `_handle_message` of `LspClient`, `_diagnostics_from_locked` and
`_await_settled` of `LspManager`. Cycles of one document are serialised by its lock.

What the server publishes has the document's URI and no version, so that a cycle takes whatever arrives behind its
reset for its own. `Belongs` says which message the list of a cycle may come from. Every cycle has such a list where
nothing but messages for its text arrive behind its reset and no wait gives up on a message that is on its way
(`ordered_diagnosed`).
-/

namespace OpenAgentd.Lsp.Diagnostics
open OpenAgentd.Lib

/-- A check of the document. -/
structure Cycle (Text : Type*) where
  number : Nat
  text : Text
deriving DecidableEq

/-- What the client sends about the document, with the cycle that sends it. -/
inductive Message (Text : Type*) where
  | didOpen (cycle : Cycle Text)
  | didChange (cycle : Cycle Text) (version : Nat)
  | didClose (cycle : Cycle Text)
deriving DecidableEq

/-- The check that the message is sent for. -/
def Message.check {Text : Type*} : Message Text → Option (Cycle Text)
  | .didOpen cycle => some cycle
  | .didChange cycle _ => some cycle
  | .didClose _ => none

/-- `textDocument/publishDiagnostics`, with the message that it answers. -/
structure Publish (Text Diagnostic : Type*) where
  cause : Message Text
  diagnostics : List Diagnostic
deriving DecidableEq

/-- Where `_diagnostics_from_locked` is: before a cycle, in the send, in the first wait, in the settle window, in the
send of `didClose`. -/
inductive Phase (Text : Type*) where
  | idle
  | opening (cycle : Cycle Text)
  | awaiting (cycle : Cycle Text)
  | settling (cycle : Cycle Text)
  | closing (cycle : Cycle Text)
deriving DecidableEq

/-- The cycle whose open has begun and whose list is not there yet. -/
def Phase.checks {Text : Type*} : Phase Text → Option (Cycle Text)
  | .opening cycle => some cycle
  | .awaiting cycle => some cycle
  | .settling cycle => some cycle
  | _ => none

/-- The cycle that waits for messages. -/
def Phase.waits {Text : Type*} : Phase Text → Option (Cycle Text)
  | .awaiting cycle => some cycle
  | .settling cycle => some cycle
  | _ => none

/-- The list that a cycle returns, the message it was taken from, and what the server had published. -/
structure Answer (Text Diagnostic : Type*) where
  cycle : Cycle Text
  diagnostics : List Diagnostic
  origin : Option (Publish Text Diagnostic)
  published : List (Publish Text Diagnostic)
deriving DecidableEq

/-- The client's fields for the document, the running cycle, the pipe from the server, and the history. -/
structure Document (Text Diagnostic : Type*) where
  latestDiagnostics : Option (List Diagnostic) := none
  event : Bool := false
  openDocs : Option Nat := none
  phase : Phase Text := .idle
  reading : Bool := true
  inFlight : List (Publish Text Diagnostic) := []
  cycles : Nat := 0
  sent : List (Message Text) := []
  published : List (Publish Text Diagnostic) := []
  /-- What has arrived since the last reset. -/
  arrived : List (Publish Text Diagnostic) := []
  answers : List (Answer Text Diagnostic) := []
deriving DecidableEq

section
variable {Text Diagnostic : Type*}

namespace Document

/-- `reset_diagnostics` -/
def resetDiagnostics (s : Document Text Diagnostic) : Document Text Diagnostic :=
  { s with latestDiagnostics := none, event := false, arrived := [] }

/-- `get_diagnostics` -/
def getDiagnostics (s : Document Text Diagnostic) : List Diagnostic := s.latestDiagnostics.getD []

/-- `open_or_update_document`, up to its wait. -/
def openOrUpdateDocument (s : Document Text Diagnostic) (cycle : Cycle Text) : Document Text Diagnostic :=
  match s.openDocs with
  | some version =>
    { s with openDocs := some (version + 1), sent := s.sent ++ [.didChange cycle (version + 1)] }
  | none => { s with openDocs := some 1, sent := s.sent ++ [.didOpen cycle] }

/-- `close_document`, up to its wait. -/
def closeDocument (s : Document Text Diagnostic) (cycle : Cycle Text) : Document Text Diagnostic :=
  match s.openDocs with
  | some _ => { s with openDocs := none, sent := s.sent ++ [.didClose cycle] }
  | none => s

/-- The notification branch of `_handle_message`. -/
def handleMessage (s : Document Text Diagnostic) (message : Publish Text Diagnostic) : Document Text Diagnostic :=
  { s with latestDiagnostics := some message.diagnostics, event := true, arrived := s.arrived ++ [message] }

/-- The cycle has its list. -/
def returns (s : Document Text Diagnostic) (cycle : Cycle Text) (diagnostics : List Diagnostic) :
    Document Text Diagnostic :=
  { s with answers := s.answers ++ [⟨cycle, diagnostics, s.arrived.getLast?, s.published⟩] }

/-- `_await_settled` returns, and the document is closed. -/
def settle (s : Document Text Diagnostic) (cycle : Cycle Text) : Document Text Diagnostic :=
  { (s.returns cycle s.getDiagnostics).closeDocument cycle with phase := .closing cycle }

end Document

/-- What happens: to the cycle, or at the server and its pipe. -/
inductive Event (Text Diagnostic : Type*) where
  | begin (text : Text)
  | opened
  | openFails
  | timeout
  | wake (expired : Bool)
  | closed
  | cancel
  | publish (message : Publish Text Diagnostic)
  | arrive
  | loopEnds

/-- A step of the client or of the server. A failed send may have reached the server, and a cancelled cycle leaves its
document open. -/
inductive Step : Document Text Diagnostic → Event Text Diagnostic → Document Text Diagnostic → Prop where
  | begin {s text} :
    s.phase = .idle →
    Step s (.begin text)
      { s.resetDiagnostics.openOrUpdateDocument ⟨s.cycles, text⟩ with
        phase := .opening ⟨s.cycles, text⟩, cycles := s.cycles + 1 }
  | opened {s cycle} :
    s.phase = .opening cycle →
    Step s .opened { s with phase := .awaiting cycle }
  | openFails {s cycle} :
    s.phase = .opening cycle →
    Step s .openFails { s.returns cycle [] with phase := .idle }
  | timeout {s cycle} :
    s.phase.waits = some cycle →
    Step s .timeout (s.settle cycle)
  | found {s cycle expired} :
    s.phase.waits = some cycle →
    s.event = true →
    s.getDiagnostics ≠ [] →
    Step s (.wake expired) (s.settle cycle)
  | expired {s cycle} :
    s.phase.waits = some cycle →
    s.event = true →
    s.getDiagnostics = [] →
    Step s (.wake true) ({ s with event := false }.settle cycle)
  | debounce {s cycle} :
    s.phase.waits = some cycle →
    s.event = true →
    s.getDiagnostics = [] →
    Step s (.wake false) { s with event := false, phase := .settling cycle }
  | closed {s cycle} :
    s.phase = .closing cycle →
    Step s .closed { s with phase := .idle }
  | cancel {s} :
    Step s .cancel { s with phase := .idle }
  | publish {s message} :
    message.cause ∈ s.sent →
    Step s (.publish message) { s with inFlight := s.inFlight ++ [message], published := s.published ++ [message] }
  | arrive {s message inFlight} :
    s.reading = true →
    s.inFlight = message :: inFlight →
    Step s .arrive ({ s with inFlight }.handleMessage message)
  | loopEnds {s} :
    Step s .loopEnds { s with reading := false, event := true }

/-! ## Whose diagnostics they are -/

/-- The message was published for a document with the text of the cycle. -/
def Publish.For (message : Publish Text Diagnostic) (cycle : Cycle Text) : Prop :=
  ∃ check, message.cause.check = some check ∧ check.text = cycle.text

/-- The server has published nothing for the cycle, or an empty list for its text. -/
def Clean (published : List (Publish Text Diagnostic)) (cycle : Cycle Text) : Prop :=
  (∀ message ∈ published, message.cause.check ≠ some cycle) ∨
    ∃ message ∈ published, message.For cycle ∧ message.diagnostics = []

/-- The list is empty for a clean text, and otherwise one that the server published for the text of the cycle. -/
structure Answer.Belongs (a : Answer Text Diagnostic) : Prop where
  empty : a.diagnostics = [] → Clean a.published a.cycle
  some : a.diagnostics ≠ [] →
    ∃ message ∈ a.published, a.origin = some message ∧ message.For a.cycle ∧ message.diagnostics = a.diagnostics

/-- No message of a list answers the open of the cycle. -/
def NoneFor (messages : List (Publish Text Diagnostic)) (cycle : Cycle Text) : Prop :=
  ∀ message ∈ messages, message.cause.check ≠ some cycle

/-- The condition on the order of the messages: what arrives behind the reset of a cycle was published for its text, and
a cycle that ends without a message leaves none of its own in the pipe. A failed open is not to be answered at all. -/
def Ordered (s : Document Text Diagnostic) : Event Text Diagnostic → Prop
  | .arrive => ∀ cycle, s.phase.checks = some cycle → ∀ message ∈ s.inFlight.head?, message.For cycle
  | .openFails => ∀ cycle, s.phase = .opening cycle → NoneFor (s.arrived ++ s.inFlight) cycle
  | .timeout => ∀ cycle, s.phase.waits = some cycle → s.arrived = [] → NoneFor s.inFlight cycle
  | .wake true => ∀ cycle, s.phase.waits = some cycle → s.arrived = [] → NoneFor s.inFlight cycle
  | _ => True

variable {s t : Document Text Diagnostic} {e : Event Text Diagnostic} {cycle : Cycle Text}

/-! ## The invariant -/

/-- A cycle that has not been opened yet. -/
def Fresh (s : Document Text Diagnostic) : Prop :=
  ∀ message ∈ s.sent, ∀ cycle, message.check = some cycle → cycle.number < s.cycles

/-- The list is that of the last message, and messages answer what was sent. What has arrived in a cycle was published
for its text, and what was published for the cycle has arrived or is on its way. -/
structure Inv (s : Document Text Diagnostic) : Prop where
  latest : s.latestDiagnostics = s.arrived.getLast?.map Publish.diagnostics
  arrived : ∀ message ∈ s.arrived, message ∈ s.published
  inFlight : ∀ message ∈ s.inFlight, message ∈ s.published
  answers : ∀ message ∈ s.published, message.cause ∈ s.sent
  fresh : Fresh s
  mine : ∀ cycle, s.phase.checks = some cycle → ∀ message ∈ s.arrived, message.For cycle
  kept : ∀ cycle, s.phase.checks = some cycle → ∀ message ∈ s.published, message.cause.check = some cycle →
    message ∈ s.arrived ∨ message ∈ s.inFlight

/-- The invariant holds at the start. -/
lemma Inv.start : Inv ({} : Document Text Diagnostic) :=
  ⟨rfl, nofun, nofun, nofun, nofun, nofun, nofun⟩

/-- A change of the phase keeps the invariant where no other cycle is checked behind it. -/
lemma Inv.phase {phase : Phase Text} (inv : Inv s) (same : ∀ cycle, phase.checks = some cycle → s.phase.checks = some cycle) :
    Inv { s with phase } :=
  ⟨inv.latest, inv.arrived, inv.inFlight, inv.answers, inv.fresh, fun c h => inv.mine c (same c h),
    fun c h => inv.kept c (same c h)⟩

/-- What waits is checked. -/
lemma checks_of_waits (waits : s.phase.waits = some cycle) : s.phase.checks = some cycle := by
  cases phase : s.phase with
  | awaiting c =>
    rw [phase] at waits
    exact waits
  | settling c =>
    rw [phase] at waits
    exact waits
  | idle =>
    rw [phase] at waits
    cases waits
  | opening c =>
    rw [phase] at waits
    cases waits
  | closing c =>
    rw [phase] at waits
    cases waits

/-- The open of a document is the message that is sent last. -/
lemma openOrUpdate_sent : ∃ message, (s.openOrUpdateDocument cycle).sent = s.sent ++ [message] ∧
    message.check = some cycle := by
  unfold Document.openOrUpdateDocument
  split
  next version _ => exact ⟨.didChange cycle (version + 1), rfl, rfl⟩
  next => exact ⟨.didOpen cycle, rfl, rfl⟩

/-- The open of a document touches no message of the server. -/
lemma openOrUpdate_frame : (s.openOrUpdateDocument cycle).latestDiagnostics = s.latestDiagnostics ∧
    (s.openOrUpdateDocument cycle).arrived = s.arrived ∧ (s.openOrUpdateDocument cycle).inFlight = s.inFlight ∧
    (s.openOrUpdateDocument cycle).published = s.published ∧ (s.openOrUpdateDocument cycle).answers = s.answers := by
  unfold Document.openOrUpdateDocument
  split
  · exact ⟨rfl, rfl, rfl, rfl, rfl⟩
  · exact ⟨rfl, rfl, rfl, rfl, rfl⟩

/-- A cycle begins with nothing that is published for it. -/
lemma Inv.begin (inv : Inv s) (text : Text) :
    Inv { s.resetDiagnostics.openOrUpdateDocument ⟨s.cycles, text⟩ with
      phase := .opening ⟨s.cycles, text⟩, cycles := s.cycles + 1 } := by
  obtain ⟨message, sent, check⟩ := @openOrUpdate_sent _ _ s.resetDiagnostics ⟨s.cycles, text⟩
  obtain ⟨latest, arrived, inFlight, published, _⟩ :=
    @openOrUpdate_frame _ _ s.resetDiagnostics ⟨s.cycles, text⟩
  refine ⟨?_, ?_, ?_, ?_, ?_, ?_, ?_⟩
  · show (Document.openOrUpdateDocument _ _).latestDiagnostics = _
    rw [latest, arrived]
    rfl
  · show ∀ m ∈ (Document.openOrUpdateDocument _ _).arrived, _
    rw [arrived]
    exact nofun
  · show ∀ m ∈ (Document.openOrUpdateDocument _ _).inFlight, m ∈ (Document.openOrUpdateDocument _ _).published
    rw [inFlight, published]
    exact inv.inFlight
  · show ∀ m ∈ (Document.openOrUpdateDocument _ _).published, m.cause ∈ (Document.openOrUpdateDocument _ _).sent
    rw [published, sent]
    exact fun m mem => List.mem_append_left _ (inv.answers m mem)
  · show ∀ m ∈ (Document.openOrUpdateDocument _ _).sent, _
    rw [sent]
    intro m mem c checked
    cases List.mem_append.mp mem with
    | inl old => exact Nat.lt_succ_of_lt (inv.fresh m old c checked)
    | inr new =>
      rw [List.mem_singleton.mp new, check] at checked
      cases checked
      exact Nat.lt_succ_self _
  · intro c _
    show ∀ m ∈ (Document.openOrUpdateDocument _ _).arrived, _
    rw [arrived]
    exact nofun
  · intro c checked
    cases checked
    show ∀ m ∈ (Document.openOrUpdateDocument _ _).published, _
    rw [published]
    -- what is published answers an earlier cycle
    intro m mem same
    exact absurd (inv.fresh _ (inv.answers m mem) _ same) (Nat.lt_irrefl _)

/-- The close of a document is sent, and nothing else changes. -/
lemma Inv.close (inv : Inv s) : Inv (s.closeDocument cycle) := by
  unfold Document.closeDocument
  split
  · refine ⟨inv.latest, inv.arrived, inv.inFlight, fun m mem => List.mem_append_left _ (inv.answers m mem), ?_,
      inv.mine, inv.kept⟩
    intro m mem c checked
    cases List.mem_append.mp mem with
    | inl old => exact inv.fresh m old c checked
    | inr new =>
      rw [List.mem_singleton.mp new] at checked
      cases checked
  · exact inv

/-- What a cycle returns is no part of the invariant. -/
lemma Inv.returns {diagnostics : List Diagnostic} (inv : Inv s) : Inv (s.returns cycle diagnostics) :=
  ⟨inv.latest, inv.arrived, inv.inFlight, inv.answers, inv.fresh, inv.mine, inv.kept⟩

/-- A cycle settles. -/
lemma Inv.settle (inv : Inv s) : Inv (s.settle cycle) := inv.returns.close.phase nofun

/-- The event of a document is no part of the invariant. -/
lemma Inv.event (inv : Inv s) (event : Bool) : Inv { s with event } :=
  ⟨inv.latest, inv.arrived, inv.inFlight, inv.answers, inv.fresh, inv.mine, inv.kept⟩

/-- The server publishes a message. -/
lemma Inv.publish {message : Publish Text Diagnostic} (inv : Inv s) (cause : message.cause ∈ s.sent) :
    Inv { s with inFlight := s.inFlight ++ [message], published := s.published ++ [message] } := by
  refine ⟨inv.latest, fun m mem => List.mem_append_left _ (inv.arrived m mem), fun m mem => ?_, fun m mem => ?_,
    inv.fresh, inv.mine, fun c checked m mem same => ?_⟩
  · cases List.mem_append.mp mem with
    | inl old => exact List.mem_append_left _ (inv.inFlight m old)
    | inr new => exact List.mem_append_right _ new
  · cases List.mem_append.mp mem with
    | inl old => exact inv.answers m old
    | inr new =>
      rw [List.mem_singleton.mp new]
      exact cause
  · cases List.mem_append.mp mem with
    | inl old => exact (inv.kept c checked m old same).imp_right (List.mem_append_left _)
    | inr new => exact .inr (List.mem_append_right _ new)

/-- A message arrives that was published for the text of the cycle that is open, if one is. -/
lemma Inv.arrive {message : Publish Text Diagnostic} {rest : List (Publish Text Diagnostic)} (inv : Inv s)
    (head : s.inFlight = message :: rest) (mine : ∀ cycle, s.phase.checks = some cycle → message.For cycle) :
    Inv ({ s with inFlight := rest }.handleMessage message) := by
  refine ⟨?_, fun m mem => ?_, fun m mem => inv.inFlight m (head ▸ List.mem_cons_of_mem _ mem), inv.answers, inv.fresh,
    fun c checked m mem => ?_, fun c checked m mem same => ?_⟩
  · simp [Document.handleMessage]
  · cases List.mem_append.mp mem with
    | inl old => exact inv.arrived m old
    | inr new =>
      rw [List.mem_singleton.mp new]
      exact inv.inFlight _ (head ▸ List.mem_cons_self)
  · cases List.mem_append.mp mem with
    | inl old => exact inv.mine c checked m old
    | inr new =>
      rw [List.mem_singleton.mp new]
      exact mine c checked
  · cases inv.kept c checked m mem same with
    | inl old => exact .inl (List.mem_append_left _ old)
    | inr waiting =>
      rw [head] at waiting
      cases List.mem_cons.mp waiting with
      | inl e => exact .inl (List.mem_append_right _ (List.mem_singleton.mpr e))
      | inr later => exact .inr later

/-- An answer to the open of the cycle arrives in order. -/
lemma ordered_arrive {message : Publish Text Diagnostic} {rest : List (Publish Text Diagnostic)}
    (checked : s.phase.checks = some cycle) (head : s.inFlight = message :: rest)
    (cause : message.cause.check = some cycle) : Ordered s .arrive := by
  intro other same m mem
  rw [checked] at same
  rw [head] at mem
  cases same
  cases mem
  exact ⟨cycle, cause, rfl⟩

/-- Every step in order keeps the invariant. -/
lemma Inv.step (inv : Inv s) (ok : Ordered s e) (st : Step s e t) : Inv t := by
  cases st with
  | @begin text => exact inv.begin text
  | opened phase =>
    apply inv.phase
    rw [phase]
    exact fun c h => h
  | openFails => exact inv.returns.phase nofun
  | timeout => exact inv.settle
  | found => exact inv.settle
  | expired => exact (inv.event false).settle
  | @debounce cycle waits =>
    apply (inv.event false).phase
    intro c h
    cases h
    exact checks_of_waits waits
  | closed => exact inv.phase nofun
  | cancel => exact inv.phase nofun
  | publish cause => exact inv.publish cause
  | arrive _ head =>
    refine inv.arrive head fun cycle checked => ok cycle checked _ ?_
    rw [head]
    rfl
  | loopEnds => exact ⟨inv.latest, inv.arrived, inv.inFlight, inv.answers, inv.fresh, inv.mine, inv.kept⟩

/-! ## What a cycle returns -/

/-- The close of a document answers nothing. -/
@[simp] lemma close_answers : (s.closeDocument cycle).answers = s.answers := by
  unfold Document.closeDocument
  split
  · rfl
  · rfl

/-- A cycle that settles has one answer. -/
@[simp] lemma settle_answers :
    (s.settle cycle).answers = s.answers ++ [⟨cycle, s.getDiagnostics, s.arrived.getLast?, s.published⟩] := by
  show ((s.returns cycle s.getDiagnostics).closeDocument cycle).answers = _
  rw [close_answers]
  rfl

/-- What has not arrived and is not on its way was not published for the cycle. -/
lemma Inv.clean (inv : Inv s) (checked : s.phase.checks = some cycle) (none : NoneFor (s.arrived ++ s.inFlight) cycle) :
    Clean s.published cycle :=
  .inl fun m mem same => none m (List.mem_append.mpr (inv.kept cycle checked m mem same)) same

/-- The list of an open cycle belongs to it, unless it is empty because of a message that is on its way. -/
lemma Inv.belongs (inv : Inv s) (checked : s.phase.checks = some cycle)
    (awaited : s.arrived = [] → NoneFor s.inFlight cycle) :
    Answer.Belongs ⟨cycle, s.getDiagnostics, s.arrived.getLast?, s.published⟩ := by
  have latest := inv.latest
  unfold Document.getDiagnostics
  cases last : s.arrived.getLast? with
  | none =>
    have none := List.getLast?_eq_none_iff.mp last
    rw [last] at latest
    rw [latest]
    refine ⟨fun _ => inv.clean checked ?_, fun some => absurd rfl some⟩
    rw [none]
    exact awaited none
  | some message =>
    rw [last] at latest
    rw [latest]
    have here := List.mem_of_getLast? last
    have published := inv.arrived message here
    have mine := inv.mine cycle checked message here
    exact ⟨fun empty => .inr ⟨message, published, mine, empty⟩, fun _ => ⟨message, published, rfl, mine, rfl⟩⟩

/-- The answers so far belong to their cycles. -/
def Diagnosed (s : Document Text Diagnostic) : Prop := ∀ a ∈ s.answers, a.Belongs

/-- One more answer is right. -/
lemma Diagnosed.snoc {a : Answer Text Diagnostic} (D : Diagnosed s) (more : t.answers = s.answers ++ [a])
    (belongs : a.Belongs) : Diagnosed t := by
  intro b mem
  rw [more] at mem
  cases List.mem_append.mp mem with
  | inl old => exact D b old
  | inr new =>
    rw [List.mem_singleton.mp new]
    exact belongs

/-- Every step in order keeps the answers right. -/
lemma Diagnosed.step (D : Diagnosed s) (inv : Inv s) (ok : Ordered s e) (st : Step s e t) : Diagnosed t := by
  cases st with
  | begin =>
    unfold Diagnosed
    rw [openOrUpdate_frame.2.2.2.2]
    exact D
  | @openFails cycle phase =>
    refine D.snoc rfl ⟨fun _ => inv.clean ?_ (ok cycle phase), fun some => absurd rfl some⟩
    rw [phase]
    rfl
  | @timeout cycle waits => exact D.snoc settle_answers (inv.belongs (checks_of_waits waits) (ok cycle waits))
  | @found cycle _ waits _ some =>
    refine D.snoc settle_answers (inv.belongs (checks_of_waits waits) fun none => ?_)
    -- where nothing has arrived there is no list
    have latest := inv.latest
    rw [none] at latest
    rw [Document.getDiagnostics, latest] at some
    exact absurd rfl some
  | @expired cycle waits =>
    exact D.snoc settle_answers ((inv.event false).belongs (checks_of_waits waits) (ok cycle waits))
  | debounce => exact D
  | opened => exact D
  | closed => exact D
  | cancel => exact D
  | publish => exact D
  | arrive => exact D
  | loopEnds => exact D

/-- Every cycle of a run has a list of its own, where nothing arrives in a cycle but what was published for its text and
no cycle gives up on a message that is on its way. -/
theorem ordered_diagnosed {events : List (Event Text Diagnostic)} (run : Run (Guarded Ordered Step) {} events s) :
    Diagnosed s := by
  have both : Inv s ∧ Diagnosed s :=
    run.invariant (I := fun s => Inv s ∧ Diagnosed s) ⟨Inv.start, nofun⟩
      fun h st => ⟨h.1.step st.1 st.2, h.2.step h.1 st.1 st.2⟩
  exact both.2

end

/-- A text with an error, for which the server publishes an empty list first, and one without, for which it publishes an
empty list. -/
def checked : Document Nat Nat where
  latestDiagnostics := some []
  phase := .closing ⟨1, 6⟩
  cycles := 2
  sent := [.didOpen ⟨0, 5⟩, .didClose ⟨0, 5⟩, .didOpen ⟨1, 6⟩, .didClose ⟨1, 6⟩]
  published := [⟨.didOpen ⟨0, 5⟩, []⟩, ⟨.didOpen ⟨0, 5⟩, [7]⟩, ⟨.didClose ⟨0, 5⟩, []⟩, ⟨.didOpen ⟨1, 6⟩, []⟩]
  arrived := [⟨.didOpen ⟨1, 6⟩, []⟩]
  answers :=
    [⟨⟨0, 5⟩, [7], some ⟨.didOpen ⟨0, 5⟩, [7]⟩, [⟨.didOpen ⟨0, 5⟩, []⟩, ⟨.didOpen ⟨0, 5⟩, [7]⟩]⟩,
      ⟨⟨1, 6⟩, [], some ⟨.didOpen ⟨1, 6⟩, []⟩,
        [⟨.didOpen ⟨0, 5⟩, []⟩, ⟨.didOpen ⟨0, 5⟩, [7]⟩, ⟨.didClose ⟨0, 5⟩, []⟩, ⟨.didOpen ⟨1, 6⟩, []⟩]⟩]

/-- Every cycle has its own. -/
theorem checked_diagnosed : Diagnosed checked := by
  have run : Run (Guarded Ordered Step) ({} : Document Nat Nat)
      [.begin 5, .opened, .publish ⟨.didOpen ⟨0, 5⟩, []⟩, .publish ⟨.didOpen ⟨0, 5⟩, [7]⟩, .arrive, .wake false, .arrive,
        .wake false, .publish ⟨.didClose ⟨0, 5⟩, []⟩, .arrive, .closed, .begin 6, .opened,
        .publish ⟨.didOpen ⟨1, 6⟩, []⟩, .arrive, .wake false, .timeout] checked := by
    apply Run.cons ⟨trivial, .begin rfl⟩
    apply Run.cons ⟨trivial, .opened rfl⟩
    apply Run.cons ⟨trivial, .publish (by decide)⟩
    apply Run.cons ⟨trivial, .publish (by decide)⟩
    apply Run.cons ⟨ordered_arrive rfl rfl rfl, .arrive rfl rfl⟩
    apply Run.cons ⟨trivial, .debounce rfl rfl rfl⟩
    apply Run.cons ⟨ordered_arrive rfl rfl rfl, .arrive rfl rfl⟩
    apply Run.cons ⟨trivial, .found rfl rfl (by decide)⟩
    apply Run.cons ⟨trivial, .publish (by decide)⟩
    apply Run.cons ⟨nofun, .arrive rfl rfl⟩
    apply Run.cons ⟨trivial, .closed rfl⟩
    apply Run.cons ⟨trivial, .begin rfl⟩
    apply Run.cons ⟨trivial, .opened rfl⟩
    apply Run.cons ⟨trivial, .publish (by decide)⟩
    apply Run.cons ⟨ordered_arrive rfl rfl rfl, .arrive rfl rfl⟩
    apply Run.cons ⟨trivial, .debounce rfl rfl rfl⟩
    exact .single ⟨nofun, .timeout rfl⟩
  exact ordered_diagnosed run

/-- The errors of the first text are published behind its cycle and arrive in the next one. -/
def late : Document Nat Nat where
  latestDiagnostics := some [7]
  event := true
  phase := .closing ⟨1, 6⟩
  cycles := 2
  sent := [.didOpen ⟨0, 5⟩, .didClose ⟨0, 5⟩, .didOpen ⟨1, 6⟩, .didClose ⟨1, 6⟩]
  published := [⟨.didOpen ⟨0, 5⟩, []⟩, ⟨.didOpen ⟨0, 5⟩, [7]⟩]
  arrived := [⟨.didOpen ⟨0, 5⟩, [7]⟩]
  answers :=
    [⟨⟨0, 5⟩, [], some ⟨.didOpen ⟨0, 5⟩, []⟩, [⟨.didOpen ⟨0, 5⟩, []⟩]⟩,
      ⟨⟨1, 6⟩, [7], some ⟨.didOpen ⟨0, 5⟩, [7]⟩, [⟨.didOpen ⟨0, 5⟩, []⟩, ⟨.didOpen ⟨0, 5⟩, [7]⟩]⟩]

/-- Not every run is diagnosed. -/
theorem late_not_diagnosed : ¬ ∀ (events : List (Event Nat Nat)) (s : Document Nat Nat),
    Run Step {} events s → Diagnosed s := by
  intro all
  have run : Run Step {}
      [.begin 5, .opened, .publish ⟨.didOpen ⟨0, 5⟩, []⟩, .arrive, .wake false, .timeout,
        .publish ⟨.didOpen ⟨0, 5⟩, [7]⟩, .closed, .begin 6, .opened, .arrive, .wake false] late := by
    apply Run.cons (.begin rfl)
    apply Run.cons (.opened rfl)
    apply Run.cons (.publish (by decide))
    apply Run.cons (.arrive rfl rfl)
    apply Run.cons (.debounce rfl rfl rfl)
    apply Run.cons (.timeout rfl)
    apply Run.cons (.publish (by decide))
    apply Run.cons (.closed rfl)
    apply Run.cons (.begin rfl)
    apply Run.cons (.opened rfl)
    apply Run.cons (.arrive rfl rfl)
    exact .single (.found rfl rfl (by decide))
  have second := all _ _ run _ (List.mem_cons_of_mem _ List.mem_cons_self)
  obtain ⟨message, _, origin, ⟨check, cause, text⟩, _⟩ := second.some (by decide)
  cases origin
  cases cause
  cases text

end OpenAgentd.Lsp.Diagnostics
