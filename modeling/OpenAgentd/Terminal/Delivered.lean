import OpenAgentd.Terminal.Session

/-!
# What a terminal delivers

`Inv` says where the chunks are and when the callback is on the loop. It is kept by every action but two: a callback
that would block, which `_on_readable` takes for the end of the file, and a `read` behind the end marker of a session
that is still open, for which no second marker comes. Without these, `Delivered` holds throughout (`delivered`).
-/

namespace OpenAgentd.Terminal
open Lib

/-- What the terminal owes its consumer. -/
structure Delivered (s : TerminalSession) : Prop where
  noOverflow : s.raised = false
  /-- The chunks read are the first ones received. -/
  inOrder : s.chunksRead <+: s.received
  /-- As many reads as the queue has entries return all that was received. -/
  readable : (TerminalSession.readTimes s.queue.length s).chunksRead = s.received
  /-- `None` says that everything was read and that the session is at its end. -/
  last : none ∈ s.results → s.chunksRead = s.received ∧ (s.closed = true ∨ s.ended = true)
  /-- A read that waits has something to return once the session is at its end. -/
  woken : s.waiting = true → s.ended = true ∨ s.released = true → s.queue ≠ []
  /-- The next read of a session at its end returns at once, and `None` when the buffer is drained. A read behind the
  marker is asked for once `close` has begun. -/
  answered : s.waiting = false → s.closed = true ∨ s.ended = true ∧ none ∉ s.results →
    s.read.waiting = false ∧ (s.queue.reduceOption = [] → s.read.results = s.results ++ [none])
  /-- The callback is on the loop. -/
  listening : s.closed = false → s.ended = false → s.queue.length ≤ readQueueResumeWatermark → s.registered = true

/-- The callback has something to read or is at the end, and no read follows the end marker before `close`. -/
def Ok (s : TerminalSession) : Event → Prop
  | .readable r => r ≠ .wouldBlock
  | .read => s.closed = true ∨ none ∉ s.results
  | .wake | .close | .release => True

/-- What holds in every state. -/
structure Inv (s : TerminalSession) : Prop where
  noOverflow : s.raised = false
  booked : (s.results ++ s.queue).reduceOption = s.received
  /-- Behind a marker there are only markers. -/
  markers : (s.results ++ s.queue).Pairwise fun a b => a = none → b = none
  marked : none ∈ s.results ++ s.queue → s.closed = true ∨ s.eof = true
  atEnd : s.eof = true → none ∈ s.results ++ s.queue
  truth : s.eof = s.ended
  listening : s.registered = true →
    s.queue.length < readQueueMaxsize ∧ s.readerPaused = false ∧ s.closed = false ∧ s.eof = false
  silent : s.registered = false → s.closed = true ∨ s.eof = true ∨ s.readerPaused = true
  paused : s.readerPaused = true → s.closed = true ∨ s.eof = true ∨ readQueueResumeWatermark < s.queue.length
  released : s.released = true → s.closed = true
  waits : s.waiting = true → none ∉ s.results ∧ (s.released = true → s.queue ≠ [])

namespace Inv
variable {s t : TerminalSession} {e : Event} {r : OsRead} {chunk : Option (List UInt8)}
  {queue : List (Option (List UInt8))}

/-- The start. -/
lemma start : Inv {} where
  noOverflow := rfl
  booked := rfl
  markers := List.Pairwise.nil
  marked := by simp
  atEnd := by simp
  truth := rfl
  listening := by simp [readQueueMaxsize]
  silent := by simp
  paused := by simp
  released := by simp
  waits := by simp

/-- A registered reader has room. -/
lemma not_full (inv : Inv s) (on : s.registered = true) : s.full = false := by
  have short := (inv.listening on).1
  unfold TerminalSession.full
  rw [decide_eq_false_iff_not]
  omega

/-- Before the end there is no marker. -/
lemma no_marker (inv : Inv s) (on : s.registered = true) : none ∉ s.results ++ s.queue := by
  intro mem
  obtain ⟨_, _, opened, more⟩ := inv.listening on
  rcases inv.marked mem with closed | eof
  · rw [opened] at closed
    cases closed
  · rw [more] at eof
    cases eof

/-- What comes behind a list without markers. -/
lemma snoc_markers {l : List (Option (List UInt8))} {a : Option (List UInt8)}
    (markers : l.Pairwise fun a b => a = none → b = none) (last : none ∈ l → a = none) :
    (l ++ [a]).Pairwise fun a b => a = none → b = none := by
  rw [List.pairwise_append]
  refine ⟨markers, List.pairwise_singleton _ _, fun b mem c last' => ?_⟩
  rw [List.mem_singleton.mp last']
  rintro rfl
  exact last mem

/-- A chunk comes in. -/
lemma receive (inv : Inv s) (on : s.registered = true) (data : r.data ≠ []) : Inv (s.onReadable r) := by
  have open_ := inv.listening on
  have none_ := inv.no_marker on
  have booked : (s.results ++ (s.queue ++ [some r.data])).reduceOption = s.received ++ [r.data] := by
    rw [← List.append_assoc, List.reduceOption_append, inv.booked]
    rfl
  have markers : (s.results ++ (s.queue ++ [some r.data])).Pairwise fun a b => a = none → b = none := by
    rw [← List.append_assoc]
    exact snoc_markers inv.markers fun mem => absurd mem none_
  have unmarked : none ∉ s.results ++ (s.queue ++ [some r.data]) := by
    simpa using none_
  have waits : s.waiting = true → none ∉ s.results ∧ (s.released = true → s.queue ++ [some r.data] ≠ []) := fun w =>
    ⟨(inv.waits w).1, fun _ => by simp⟩
  unfold TerminalSession.onReadable
  rw [if_pos data, if_neg (by rw [inv.not_full on]; exact Bool.false_ne_true), TerminalSession.pause]
  split
  next full =>
    obtain ⟨full, _⟩ := full
    have long : readQueueMaxsize ≤ (s.queue ++ [some r.data]).length := by simpa [TerminalSession.full] using full
    exact
      { noOverflow := inv.noOverflow
        booked := booked
        markers := markers
        marked := fun mem => absurd mem unmarked
        atEnd := fun eof => by
          rw [show s.eof = true from eof] at open_
          simp at open_
        truth := inv.truth
        listening := by simp
        silent := by simp
        paused := fun _ => .inr (.inr (Nat.lt_of_lt_of_le (by decide) long))
        released := inv.released
        waits := waits }
  next room =>
    have short : (s.queue ++ [some r.data]).length < readQueueMaxsize := by
      simpa [TerminalSession.full, open_.2.1] using room
    exact
      { noOverflow := inv.noOverflow
        booked := booked
        markers := markers
        marked := fun mem => absurd mem unmarked
        atEnd := fun eof => by
          rw [show s.eof = true from eof] at open_
          simp at open_
        truth := inv.truth
        listening := fun _ => ⟨short, open_.2⟩
        silent := fun off => by
          rw [show s.registered = false from off] at on
          cases on
        paused := fun paused => by
          rw [show s.readerPaused = true from paused] at open_
          simp at open_
        released := inv.released
        waits := waits }

/-- The PTY comes to its end. -/
lemma hangUp (inv : Inv s) (on : s.registered = true) (data : r.data = []) (real : r ≠ .wouldBlock) :
    Inv (s.onReadable r) := by
  have full : (s.hangUp r).full = false := inv.not_full on
  unfold TerminalSession.onReadable
  rw [if_neg (not_not.mpr data), if_neg (by rw [full]; exact Bool.false_ne_true)]
  exact
    { noOverflow := inv.noOverflow
      booked := by
        show (s.results ++ (s.queue ++ [none])).reduceOption = s.received
        rw [← List.append_assoc, List.reduceOption_append, inv.booked]
        exact List.append_nil _
      markers := by
        show (s.results ++ (s.queue ++ [none])).Pairwise _
        rw [← List.append_assoc]
        exact snoc_markers inv.markers fun _ => rfl
      marked := fun _ => .inr rfl
      atEnd := by simp
      truth := by
        show true = (s.ended || r ≠ OsRead.wouldBlock)
        simp [real]
      listening := fun on => by cases on
      silent := fun _ => .inr (.inl rfl)
      paused := fun _ => .inr (.inl rfl)
      released := inv.released
      waits := fun w => ⟨(inv.waits w).1, by simp⟩ }

/-- The head of the queue is returned. -/
lemma take (inv : Inv s) (head : s.queue = chunk :: queue) : Inv (s.take chunk queue) := by
  have same : (s.results ++ [chunk]) ++ queue = s.results ++ s.queue := by
    rw [head, List.append_assoc, List.singleton_append]
  have length : queue.length < s.queue.length := by simp [head]
  have taken : Inv { s with queue, waiting := false, results := s.results ++ [chunk], readerPaused := s.readerPaused } ∨
      s.readerPaused = true ∧ s.closed = false ∧ s.eof = false ∧ queue.length ≤ readQueueResumeWatermark := by
    by_cases back : s.readerPaused = true ∧ s.closed = false ∧ s.eof = false ∧ queue.length ≤ readQueueResumeWatermark
    · exact .inr back
    · left
      exact
        { noOverflow := inv.noOverflow
          booked := by rw [same, inv.booked]
          markers := by rw [same]; exact inv.markers
          marked := by rw [same]; exact inv.marked
          atEnd := by rw [same]; exact inv.atEnd
          truth := inv.truth
          listening := fun on => ⟨Nat.lt_trans length (inv.listening on).1, (inv.listening on).2⟩
          silent := inv.silent
          paused := fun paused => by
            have paused : s.readerPaused = true := paused
            by_contra no
            simp only [not_or, Bool.not_eq_true, Nat.not_lt] at no
            exact back ⟨paused, no⟩
          released := inv.released
          waits := by simp }
  unfold TerminalSession.take TerminalSession.resume
  split
  next back =>
    obtain ⟨_, opened, more, low⟩ := back
    exact
      { noOverflow := inv.noOverflow
        booked := by rw [same, inv.booked]
        markers := by rw [same]; exact inv.markers
        marked := by rw [same]; exact inv.marked
        atEnd := by rw [same]; exact inv.atEnd
        truth := inv.truth
        listening := fun _ => ⟨Nat.lt_of_le_of_lt low (by decide), rfl, opened, more⟩
        silent := by simp
        paused := by simp
        released := inv.released
        waits := by simp }
  next => exact taken.resolve_right (by assumption)

/-- A read begins. -/
lemma read (inv : Inv s) (idle : s.waiting = false) (ok : s.closed = true ∨ none ∉ s.results) : Inv s.read := by
  unfold TerminalSession.read
  split
  next drained =>
    obtain ⟨closed, empty⟩ := drained
    have before : s.results ++ s.queue = s.results := by rw [empty, List.append_nil]
    exact
      { inv with
        booked := by
          show (s.results ++ [none] ++ s.queue).reduceOption = s.received
          rw [← inv.booked, empty, List.append_nil, List.append_nil, List.reduceOption_append]
          exact List.append_nil _
        markers := by
          show (s.results ++ [none] ++ s.queue).Pairwise _
          rw [empty, List.append_nil]
          exact snoc_markers (before ▸ inv.markers) fun _ => rfl
        marked := fun _ => .inl closed
        atEnd := fun _ => by simp
        waits := fun w => by
          rw [show s.waiting = true from w] at idle
          cases idle }
  next more =>
    split
    next empty =>
      have opened : s.closed = false := by simpa [empty] using more
      have unread : none ∉ s.results := ok.resolve_left (by simp [opened])
      have unreleased : s.released = false := by
        by_contra released
        rw [inv.released (Bool.of_not_eq_false released)] at opened
        cases opened
      exact { inv with waits := fun _ => ⟨unread, by simp [unreleased]⟩ }
    next chunk queue head => exact inv.take head

/-- `close` begins. -/
lemma close (inv : Inv s) : Inv s.close :=
  { inv with
    marked := fun _ => .inl rfl
    listening := fun on => by cases on
    silent := fun _ => .inl rfl
    paused := fun _ => .inl rfl
    released := fun _ => rfl }

/-- `close` returns. -/
lemma release (inv : Inv s) (closed : s.closed = true) : Inv s.release := by
  unfold TerminalSession.release
  split
  next full =>
    have long : s.queue ≠ [] := by
      intro empty
      simp [TerminalSession.full, empty, readQueueMaxsize] at full
    exact { inv with released := fun _ => closed, waits := fun w => ⟨(inv.waits w).1, fun _ => long⟩ }
  next =>
    exact
      { noOverflow := inv.noOverflow
        booked := by
          show (s.results ++ (s.queue ++ [none])).reduceOption = s.received
          rw [← List.append_assoc, List.reduceOption_append, inv.booked]
          exact List.append_nil _
        markers := by
          show (s.results ++ (s.queue ++ [none])).Pairwise _
          rw [← List.append_assoc]
          exact snoc_markers inv.markers fun _ => rfl
        marked := fun _ => .inl closed
        atEnd := fun _ => by simp
        truth := inv.truth
        listening := fun on => by
          have opened := (inv.listening on).2.2.1
          rw [closed] at opened
          cases opened
        silent := fun _ => .inl closed
        paused := fun _ => .inl closed
        released := fun _ => closed
        waits := fun w => ⟨(inv.waits w).1, fun _ => by simp⟩ }

/-- Every action that is as it should be keeps the invariant. -/
lemma step (inv : Inv s) (st : Guarded Ok Step s e t) : Inv t := by
  obtain ⟨ok, st⟩ := st
  cases st with
  | @readable r on =>
    by_cases data : r.data = []
    · exact inv.hangUp on data ok
    · exact inv.receive on data
  | read idle => exact inv.read idle ok
  | wake _ head => exact inv.take head
  | close => exact inv.close
  | release closed => exact inv.release closed

end Inv

/-! ## What the consumer gets -/

section
variable {s : TerminalSession} {chunk : Option (List UInt8)} {queue : List (Option (List UInt8))}

/-- A chunk is handed out. -/
@[simp] lemma take_results : (s.take chunk queue).results = s.results ++ [chunk] := by
  unfold TerminalSession.take TerminalSession.resume
  split <;> rfl

/-- The queue that is left. -/
@[simp] lemma take_queue : (s.take chunk queue).queue = queue := by
  unfold TerminalSession.take TerminalSession.resume
  split <;> rfl

/-- Nobody waits. -/
@[simp] lemma take_waiting : (s.take chunk queue).waiting = false := by
  unfold TerminalSession.take TerminalSession.resume
  split <;> rfl

/-- A read of a queue that is not empty takes its head. -/
lemma read_of_cons (head : s.queue = chunk :: queue) : s.read = s.take chunk queue := by
  unfold TerminalSession.read
  rw [if_neg (by simp [head]), head]

/-- The first chunk is read. -/
lemma readOne_of_cons (head : s.queue = chunk :: queue) : s.readOne = s.take chunk queue := by
  unfold TerminalSession.readOne
  cases waiting : s.waiting with
  | false => exact read_of_cons head
  | true => rw [head]

/-- Reads in a row return what is in the queue. -/
lemma results_readTimes (s : TerminalSession) :
    (TerminalSession.readTimes s.queue.length s).results = s.results ++ s.queue := by
  induction e : s.queue generalizing s with
  | nil =>
    rw [List.append_nil]
    rfl
  | cons chunk queue ih =>
    rw [List.length_cons, TerminalSession.readTimes, readOne_of_cons e]
    have rest := ih (s.take chunk queue) take_queue
    rw [rest, take_results, List.append_assoc, List.singleton_append]

/-- What was received. -/
lemma Inv.received_eq (inv : Inv s) : s.received = s.chunksRead ++ s.queue.reduceOption := by
  rw [← inv.booked, List.reduceOption_append]
  rfl

/-- The marker is behind the chunks. -/
lemma Inv.drained (inv : Inv s) (read : none ∈ s.results) : s.queue.reduceOption = [] := by
  rw [List.reduceOption_eq_nil_iff]
  refine ⟨s.queue.length, ?_⟩
  rw [List.eq_replicate_iff]
  exact ⟨rfl, fun b mem => (List.pairwise_append.mp inv.markers).2.2 none read b mem rfl⟩

/-- What the invariant gives. -/
lemma Inv.delivers (inv : Inv s) : Delivered s where
  noOverflow := inv.noOverflow
  inOrder := ⟨s.queue.reduceOption, inv.received_eq.symm⟩
  readable := by
    rw [TerminalSession.chunksRead, results_readTimes, inv.booked]
  last read := by
    refine ⟨?_, ?_⟩
    · rw [inv.received_eq, inv.drained read, List.append_nil]
    · rw [← inv.truth]
      exact inv.marked (List.mem_append_left _ read)
  woken waiting over_ := by
    rcases over_ with ended | released
    · rw [← inv.truth] at ended
      have mem := (List.mem_append.mp (inv.atEnd ended)).resolve_left (inv.waits waiting).1
      exact List.ne_nil_of_mem mem
    · exact (inv.waits waiting).2 released
  answered idle over_ := by
    cases queue : s.queue with
    | nil =>
      have closed : s.closed = true := by
        rcases over_ with closed | ⟨ended, unread⟩
        · exact closed
        · rw [← inv.truth] at ended
          have mem := inv.atEnd ended
          rw [queue, List.append_nil] at mem
          exact absurd mem unread
      unfold TerminalSession.read
      rw [if_pos ⟨closed, queue⟩]
      exact ⟨idle, fun _ => rfl⟩
    | cons chunk rest =>
      rw [read_of_cons queue]
      refine ⟨take_waiting, fun drained => ?_⟩
      cases chunk with
      | none => exact take_results
      | some data => simp at drained
  listening opened more low := by
    by_contra off
    rw [← inv.truth] at more
    rcases inv.silent (Bool.eq_false_iff.mpr off) with closed | eof | paused
    · simp [closed] at opened
    · simp [eof] at more
    · rcases inv.paused paused with closed | eof | high
      · simp [closed] at opened
      · simp [eof] at more
      · omega

end

/-- When no callback would block, and no read follows the end marker before `close`, the terminal delivers what it
received, once and in order, in every state. -/
theorem delivered {events : List Event} {s : TerminalSession} (run : Run (Guarded Ok Step) {} events s) :
    Delivered s :=
  (run.invariant (I := Inv) .start fun inv st => inv.step st).delivers

/-- A prompt is read, the shell exits, the marker is read and the session is closed. -/
def exited : TerminalSession where
  closed := true
  eof := true
  registered := false
  released := true
  received := [[36]]
  ended := true
  queue := [none]
  results := [some [36], none]

/-- Everything is delivered. -/
theorem exited_delivered : Delivered exited := by
  refine @delivered [.read, .readable (.bytes [36]), .wake, .readable (.bytes []), .read, .close, .release] _ ?_
  apply Run.cons ⟨.inr (by decide), .read rfl⟩
  apply Run.cons ⟨nofun, .readable rfl⟩
  apply Run.cons ⟨trivial, .wake rfl rfl⟩
  apply Run.cons ⟨nofun, .readable rfl⟩
  apply Run.cons ⟨.inr (by decide), .read rfl⟩
  apply Run.cons ⟨trivial, .close rfl⟩
  exact .single ⟨trivial, .release rfl rfl⟩

/-- A callback that would block takes the terminal off the loop. -/
theorem blocked_not_delivered : ¬ ∀ (events : List Event) (s : TerminalSession), Run Step {} events s → Delivered s := by
  intro all
  have listening := (all _ _ (.single (.readable (r := .wouldBlock) rfl))).listening rfl rfl (by decide)
  cases listening

/-- A second read behind the marker waits, with nothing to wake it up. -/
theorem second_read_waits : ∃ (events : List Event) (s : TerminalSession), Run Step {} events s ∧
    s.ended = true ∧ s.waiting = true ∧ s.queue = [] ∧ s.registered = false := by
  refine ⟨[.readable (.bytes []), .read, .read],
    { eof := true, registered := false, waiting := true, ended := true, results := [none] }, ?_, rfl, rfl, rfl, rfl⟩
  apply Run.cons (.readable rfl)
  apply Run.cons (.read rfl)
  exact .single (.read rfl)

end OpenAgentd.Terminal
