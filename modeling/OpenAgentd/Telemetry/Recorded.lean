import OpenAgentd.Telemetry.Writer
import Mathlib.Data.List.ReduceOption
import Mathlib.Data.List.TakeWhile

/-!
# What the files keep

The files hold the records in the order in which the thread comes to write them, up to the first one that the encoder
rejects (`Inv.lines`), each in the file of its own partition (`Inv.keys`). With `close` behind it, the thread has taken all that was accepted before, so that a record is
lost exactly when a rejected one comes before it (`recorded_iff`).
-/

namespace OpenAgentd.Telemetry
open Lib

section
variable {Obj Ts Key Line : Type*} [DecidableEq Key] {w : Writer Obj Ts Key Line}

/-! ## A flush -/

omit [DecidableEq Key] in
/-- What an append writes. -/
lemma append_eq (items : List (QueueItem Obj Ts)) :
    w.append items = (items.takeWhile w.Encodable, items.all w.Encodable) := by
  induction items with
  | nil => rfl
  | cons item items ih =>
    unfold Writer.append
    cases e : w.dumps item.obj with
    | none => simp [Writer.Encodable, e]
    | some line => simp [Writer.Encodable, e, ih]

omit [DecidableEq Key] in
/-- What goes to the files stands before the first record that is rejected. -/
lemma appendAll_lines (groups : List (Key × List (QueueItem Obj Ts))) :
    (w.appendAll groups).lines.map Prod.snd = (groups.flatMap Prod.snd).takeWhile w.Encodable := by
  induction groups with
  | nil => rfl
  | cons group groups ih =>
    simp only [Writer.appendAll, append_eq, List.flatMap_cons]
    split
    next all =>
      have all := List.all_eq_true.mp all
      rw [List.takeWhile_append_of_pos all, List.map_append, ih, List.takeWhile_eq_self_iff.mpr all, List.map_map]
      exact congrArg (· ++ _) (List.map_id _)
    next bad =>
      have short : (group.2.takeWhile w.Encodable).length ≠ group.2.length := by
        intro e
        have whole := (List.takeWhile_prefix w.Encodable (l := group.2)).eq_of_length e
        exact bad (List.all_eq_true.mpr (List.takeWhile_eq_self_iff.mp whole))
      rw [List.takeWhile_append, if_neg short, List.map_map]
      exact List.map_id _

omit [DecidableEq Key] in
/-- A line goes to the file of its group. -/
lemma mem_appendAll {groups : List (Key × List (QueueItem Obj Ts))} {line : Key × QueueItem Obj Ts}
    (mem : line ∈ (w.appendAll groups).lines) : ∃ group ∈ groups, line.1 = group.1 ∧ line.2 ∈ group.2 := by
  induction groups with
  | nil => cases mem
  | cons group groups ih =>
    have own : line ∈ (w.append group.2).1.map (fun item => (group.1, item)) →
        ∃ g ∈ group :: groups, line.1 = g.1 ∧ line.2 ∈ g.2 := by
      intro mem
      rw [append_eq] at mem
      obtain ⟨item, taken, rfl⟩ := List.mem_map.mp mem
      exact ⟨group, List.mem_cons_self, rfl, (List.takeWhile_prefix _).subset taken⟩
    simp only [Writer.appendAll] at mem
    split at mem
    next =>
      rcases List.mem_append.mp mem with mem | mem
      · exact own mem
      · obtain ⟨g, later, e⟩ := ih mem
        exact ⟨g, List.mem_cons_of_mem _ later, e⟩
    next => exact own mem

omit [DecidableEq Key] in
/-- A flush raises when it comes to a record that is rejected. -/
lemma appendAll_isSome (groups : List (Key × List (QueueItem Obj Ts))) :
    (w.appendAll groups).written.isSome = (groups.flatMap Prod.snd).all w.Encodable := by
  induction groups with
  | nil => rfl
  | cons group groups ih =>
    simp only [Writer.appendAll, append_eq, List.flatMap_cons, List.all_append]
    split
    next all => simp [all, ih]
    next bad => simp [Bool.eq_false_iff.mpr bad]

/-- The lines of a flush. -/
lemma flush_lines (batch : List (QueueItem Obj Ts)) :
    (w.flush batch).lines.map Prod.snd = (w.byFile batch).takeWhile w.Encodable :=
  appendAll_lines _

/-- A flush appends to the file of a record's own partition. -/
lemma key_of_mem_flush {batch : List (QueueItem Obj Ts)} {line : Key × QueueItem Obj Ts}
    (mem : line ∈ (w.flush batch).lines) : line.1 = w.key line.2 := by
  obtain ⟨group, known, e, inside⟩ := mem_appendAll mem
  rw [Dict.of_mem_groups known] at inside
  have own : w.key line.2 = group.1 := by simpa using (List.mem_filter.mp inside).2
  rw [e, own]

/-- When a flush works. -/
lemma flush_isSome (batch : List (QueueItem Obj Ts)) :
    (w.flush batch).written.isSome = (w.byFile batch).all w.Encodable :=
  appendAll_isSome _

/-- Grouping keeps the records of each partition and their order. -/
lemma filter_byFile (k : Key) (batch : List (QueueItem Obj Ts)) :
    (w.byFile batch).filter (fun i => w.key i = k) = batch.filter fun i => w.key i = k :=
  Dict.filter_flatMap_groups

/-! ## The invariant -/

/-- What the phase of the thread says. -/
structure Stands (w : Writer Obj Ts Key Line) (s : State Obj Ts Key) (phase : Phase) : Prop where
  alive : phase ≠ .died → ∀ i ∈ s.flushed.flatMap w.byFile, w.Encodable i = true
  died : phase = .died → s.batch = [] ∧ ∃ i ∈ s.flushed.flatMap w.byFile, w.Encodable i = false
  leaving : phase = .emptying ∨ phase = .finished → s.stop = true
  finished : phase = .finished → s.batch = [] ∧ ∀ i ∈ s.queue.reduceOption, ∀ n, s.closedAt = some n → n ≤ i.number

/-- What holds in every state. -/
structure Inv (w : Writer Obj Ts Key Line) (s : State Obj Ts Key) : Prop where
  accepted : s.flushed.flatten ++ s.batch ++ s.queue.reduceOption = s.accepted
  numbers : s.accepted.map QueueItem.number = List.range s.accepted.length
  lines : s.lines.map Prod.snd = (s.flushed.flatMap w.byFile).takeWhile w.Encodable
  keys : ∀ line ∈ s.lines, line.1 = w.key line.2
  stop : s.stop = s.closedAt.isSome
  sentinel : none ∈ s.queue → s.stop = true
  closed : ∀ n, s.closedAt = some n → n ≤ s.accepted.length
  stands : Stands w s s.phase

namespace Inv
variable {s t : State Obj Ts Key} {phase : Phase} {item : QueueItem Obj Ts} {queue : List (Option (QueueItem Obj Ts))}

/-- The thread goes on within its loops. -/
lemma goOn (inv : Inv w s) (alive : s.phase ≠ .died) (next : phase ≠ .died) (unfinished : phase ≠ .finished)
    (leaving : phase = .emptying → s.stop = true) : Inv w { s with phase } :=
  { inv with
    stands :=
      { alive := fun _ => inv.stands.alive alive
        died := fun e => absurd e next
        leaving := fun e => leaving (e.resolve_right unfinished)
        finished := fun e => absurd e unfinished } }

/-- A record goes from the queue to the batch. -/
lemma take (inv : Inv w s) (alive : s.phase ≠ .died) (head : s.queue = some item :: queue) (next : phase ≠ .died)
    (unfinished : phase ≠ .finished) (leaving : phase = .emptying → s.stop = true) :
    Inv w { s with queue, batch := s.batch ++ [item], phase } :=
  { inv with
    accepted := by
      have before := inv.accepted
      rw [head, List.reduceOption_cons_of_some] at before
      simpa using before
    sentinel := fun mem => inv.sentinel (head ▸ List.mem_cons_of_mem _ mem)
    stands :=
      { alive := fun _ => inv.stands.alive alive
        died := fun e => absurd e next
        leaving := fun e => leaving (e.resolve_right unfinished)
        finished := fun e => absurd e unfinished } }

/-- The same within a loop. -/
lemma takeOn (inv : Inv w s) (alive : s.phase ≠ .died) (head : s.queue = some item :: queue)
    (unfinished : s.phase ≠ .finished) (leaving : s.phase = .emptying → s.stop = true) :
    Inv w { s with queue, batch := s.batch ++ [item] } := by
  have taken : Inv w { s with queue, batch := s.batch ++ [item], phase := s.phase } :=
    inv.take alive head alive unfinished leaving
  exact taken

/-- The sentinel is taken out. -/
lemma wake (inv : Inv w s) (alive : s.phase ≠ .died) (head : s.queue = none :: queue) (next : phase ≠ .died)
    (unfinished : phase ≠ .finished) : Inv w { s with queue, phase } :=
  { inv with
    accepted := by
      have before := inv.accepted
      rw [head, List.reduceOption_cons_of_none] at before
      exact before
    sentinel := fun mem => inv.sentinel (head ▸ List.mem_cons_of_mem _ mem)
    stands :=
      { alive := fun _ => inv.stands.alive alive
        died := fun e => absurd e next
        leaving := fun _ => inv.sentinel (head ▸ List.mem_cons_self)
        finished := fun e => absurd e unfinished } }

/-- The same within a loop. -/
lemma wakeOn (inv : Inv w s) (alive : s.phase ≠ .died) (head : s.queue = none :: queue)
    (unfinished : s.phase ≠ .finished) : Inv w { s with queue } := by
  have woken : Inv w { s with queue, phase := s.phase } := inv.wake alive head alive unfinished
  exact woken

/-- The batch is flushed, from the loop or with nothing left in the queue. -/
lemma flushBatch (inv : Inv w s) (alive : s.phase ≠ .died)
    (next : phase = .checking ∨ phase = .finished ∧ s.stop = true ∧ s.queue = []) :
    Inv w (s.flushBatch w phase) :=
  have flushed : (s.flushed ++ [s.batch]).flatMap w.byFile = s.flushed.flatMap w.byFile ++ w.byFile s.batch := by
    rw [List.flatMap_append, List.flatMap_singleton]
  have before := inv.stands.alive alive
  { inv with
    accepted := by
      have before := inv.accepted
      simpa [State.flushBatch] using before
    lines := by
      show (s.lines ++ (w.flush s.batch).lines).map Prod.snd =
        ((s.flushed ++ [s.batch]).flatMap w.byFile).takeWhile w.Encodable
      rw [flushed, List.takeWhile_append_of_pos before, List.map_append, inv.lines, flush_lines,
        List.takeWhile_eq_self_iff.mpr before]
    keys := fun line mem => (List.mem_append.mp mem).elim (inv.keys line) key_of_mem_flush
    stands := by
      show Stands w (s.flushBatch w phase) (if (w.flush s.batch).written.isSome then phase else .died)
      rw [flush_isSome]
      split
      next all =>
        refine ⟨fun _ i mem => ?_, fun e => ?_, fun e => ?_, fun e => ⟨rfl, ?_⟩⟩
        · rw [State.flushBatch, flushed] at mem
          exact (List.mem_append.mp mem).elim (before i) (List.all_eq_true.mp all i)
        · rcases next with next | next <;> simp [next] at e
        · rcases next with next | next
          · simp [next] at e
          · exact next.2.1
        · rcases next with next | next
          · simp [next] at e
          · intro i mem
            rw [State.flushBatch, next.2.2] at mem
            cases mem
      next bad =>
        refine ⟨fun e => absurd rfl e, fun _ => ⟨rfl, ?_⟩, fun e => ?_, fun e => by cases e⟩
        · obtain ⟨i, mem, rejected⟩ : ∃ i ∈ w.byFile s.batch, w.Encodable i = false := by
            simpa using bad
          refine ⟨i, ?_, rejected⟩
          rw [State.flushBatch, flushed]
          exact List.mem_append_right _ mem
        · rcases e with e | e <;> cases e }

/-- A record is queued. -/
lemma write (inv : Inv w s) (obj : Obj) (ts : Ts) :
    Inv w { s with queue := s.queue ++ [some (s.item obj ts)], accepted := s.accepted ++ [s.item obj ts] } :=
  have queued : (s.queue ++ [some (s.item obj ts)]).reduceOption = s.queue.reduceOption ++ [s.item obj ts] := by
    rw [List.reduceOption_append]
    rfl
  { inv with
    accepted := by
      show s.flushed.flatten ++ s.batch ++ (s.queue ++ [some (s.item obj ts)]).reduceOption = _
      rw [queued, ← List.append_assoc, inv.accepted]
    numbers := by
      show (s.accepted ++ [s.item obj ts]).map QueueItem.number = List.range (s.accepted ++ [s.item obj ts]).length
      rw [List.map_append, inv.numbers, List.length_append, List.length_singleton, List.range_succ]
      rfl
    sentinel := fun mem => inv.sentinel (by simpa using mem)
    closed := fun n e => by
      have before := inv.closed n e
      show n ≤ (s.accepted ++ [s.item obj ts]).length
      rw [List.length_append]
      omega
    stands :=
      { inv.stands with
        finished := fun e => by
          obtain ⟨batch, rest⟩ := inv.stands.finished e
          refine ⟨batch, fun i mem n closed => ?_⟩
          have mem : i ∈ (s.queue ++ [some (s.item obj ts)]).reduceOption := mem
          rw [queued, List.mem_append, List.mem_singleton] at mem
          rcases mem with mem | rfl
          · exact rest i mem n closed
          · exact inv.closed n closed } }

/-- `close` begins. -/
lemma close (inv : Inv w s) : Inv w { s with stop := true, closedAt := some (s.closedAt.getD s.accepted.length) } :=
  { inv with
    stop := rfl
    sentinel := fun _ => rfl
    closed := fun n e => by
      cases first : s.closedAt with
      | none =>
        rw [first] at e
        exact Nat.le_of_eq (Option.some.inj e).symm
      | some m =>
        rw [first] at e
        exact Option.some.inj e ▸ inv.closed m first
    stands :=
      { inv.stands with
        leaving := fun _ => rfl
        finished := fun e => by
          obtain ⟨batch, rest⟩ := inv.stands.finished e
          have stopped := inv.stands.leaving (.inr e)
          rw [inv.stop, Option.isSome_iff_exists] at stopped
          obtain ⟨m, first⟩ := stopped
          refine ⟨batch, fun i mem n closed => rest i mem n ?_⟩
          rw [first] at closed ⊢
          exact closed } }

/-- Every action keeps the invariant. -/
lemma step {e : Event Obj Ts} (inv : Inv w s) (st : Step w s e t) : Inv w t := by
  cases st with
  | write => exact inv.write _ _
  | drop => exact { inv with stands := { inv.stands with } }
  | stop => exact inv.close
  | sentinel stopped =>
    have queued : (s.queue ++ [none]).reduceOption = s.queue.reduceOption := by
      rw [List.reduceOption_append]
      exact List.append_nil _
    refine { inv with accepted := ?_, sentinel := fun _ => stopped, stands := { inv.stands with finished := fun e => ?_ } }
    · show s.flushed.flatten ++ s.batch ++ (s.queue ++ [none]).reduceOption = _
      rw [queued, inv.accepted]
    · show _ ∧ ∀ i ∈ (s.queue ++ [none]).reduceOption, _
      rw [queued]
      exact inv.stands.finished e
  | leave phase stopped => exact inv.goOn (by simp [phase]) nofun nofun fun _ => stopped
  | enter phase => exact inv.goOn (by simp [phase]) nofun nofun nofun
  | get phase head => exact inv.take (by simp [phase]) head nofun nofun nofun
  | getSentinel phase head => exact inv.wake (by simp [phase]) head nofun nofun
  | timeout phase => exact inv.goOn (by simp [phase]) nofun nofun nofun
  | drain phase _ head => exact inv.takeOn (by simp [phase]) head (by simp [phase]) (by simp [phase])
  | drainSentinel phase _ head => exact inv.wake (by simp [phase]) head nofun nofun
  | drained phase => exact inv.goOn (by simp [phase]) nofun nofun nofun
  | wait phase => exact inv.goOn (by simp [phase]) nofun nofun nofun
  | flush phase => exact inv.flushBatch (by simp [phase]) (.inl rfl)
  | rest phase head =>
    have stopped := inv.stands.leaving (.inl phase)
    exact inv.takeOn (by simp [phase]) head (by simp [phase]) fun _ => stopped
  | restSentinel phase head => exact inv.wakeOn (by simp [phase]) head (by simp [phase])
  | finish phase empty noBatch =>
    have stopped := inv.stands.leaving (.inl phase)
    have before := inv.stands.alive (by simp [phase])
    refine { inv with stands := ⟨fun _ => before, nofun, fun _ => stopped, fun _ => ⟨noBatch, fun i mem => ?_⟩⟩ }
    have mem : i ∈ s.queue.reduceOption := mem
    rw [empty] at mem
    cases mem
  | lastFlush phase empty =>
    exact inv.flushBatch (by simp [phase]) (.inr ⟨rfl, inv.stands.leaving (.inl phase), empty⟩)

/-- The start. -/
lemma start : Inv w {} where
  accepted := rfl
  numbers := rfl
  lines := rfl
  keys := nofun
  stop := rfl
  sentinel := nofun
  closed := nofun
  stands := ⟨nofun, nofun, nofun, nofun⟩

end Inv

/-! ## What is lost -/

omit [DecidableEq Key] in
/-- Nothing that counts stands behind the first record that is rejected. -/
lemma harmless_iff {n : Nat} {order : List (QueueItem Obj Ts)} :
    Harmless w n order ↔ ∀ i ∈ order.dropWhile w.Encodable, i.number < n → w.Encodable i = false := by
  unfold Harmless
  induction order with
  | nil => simp
  | cons item order ih =>
    rw [List.pairwise_cons, List.dropWhile_cons]
    cases e : w.Encodable item with
    | true => simpa using ih
    | false =>
      simp only [Bool.false_eq_true, if_false, List.forall_mem_cons]
      constructor
      · intro harmless
        exact ⟨fun _ => e, fun i mem => harmless.1 i mem trivial⟩
      · intro none
        refine ⟨fun i mem _ => none.2 i mem, ?_⟩
        exact List.pairwise_of_forall_mem_list fun _ _ i mem _ => none.2 i mem

/-- The records of a partition before the first that is rejected are all of them that count, exactly when nothing that
counts stands behind. -/
lemma kept_iff {n : Nat} {order : List (QueueItem Obj Ts)} :
    (∀ k, ((order.takeWhile w.Encodable).filter fun i => w.key i = k).filter (fun i => i.number < n) =
      (order.filter fun i => w.key i = k).filter fun i => w.Encodable i ∧ i.number < n) ↔ Harmless w n order := by
  have before : ∀ k, ((order.takeWhile w.Encodable).filter fun i => w.key i = k).filter (fun i => w.Encodable i ∧ i.number < n) =
      ((order.takeWhile w.Encodable).filter fun i => w.key i = k).filter fun i => i.number < n := by
    intro k
    apply List.filter_congr
    intro i mem
    have e := List.mem_takeWhile_imp (List.mem_filter.mp mem).1
    simp [e]
  have split : ∀ k, ((order.filter fun i => w.key i = k).filter fun i => w.Encodable i ∧ i.number < n) =
      (((order.takeWhile w.Encodable).filter fun i => w.key i = k).filter fun i => i.number < n) ++
        ((order.dropWhile w.Encodable).filter fun i => w.key i = k).filter fun i => w.Encodable i ∧ i.number < n := by
    intro k
    rw [← before, ← List.filter_append, ← List.filter_append, List.takeWhile_append_dropWhile]
  rw [harmless_iff]
  constructor
  · intro kept i mem due
    have rest := kept (w.key i)
    rw [split, List.self_eq_append_right, List.filter_eq_nil_iff] at rest
    have out := rest i (List.mem_filter.mpr ⟨mem, by simp⟩)
    simpa [due] using out
  · intro none k
    have rest : ((order.dropWhile w.Encodable).filter fun i => w.key i = k).filter
        (fun i => w.Encodable i ∧ i.number < n) = [] := by
      rw [List.filter_eq_nil_iff]
      intro i mem kept
      obtain ⟨e, due⟩ : w.Encodable i = true ∧ i.number < n := by simpa using kept
      rw [none i (List.mem_filter.mp mem).1 due] at e
      cases e
    rw [split, rest, List.append_nil]

variable {s : State Obj Ts Key} {events : List (Event Obj Ts)}

/-- The order of writing keeps the order of the `write` calls within a partition. -/
lemma filter_order (inv : Inv w s) (k : Key) :
    (s.order w).filter (fun i => w.key i = k) = s.accepted.filter fun i => w.key i = k := by
  rw [State.order, ← inv.accepted, List.filter_append, List.filter_append, List.filter_append, List.filter_append,
    List.filter_flatMap, List.filter_flatten, List.flatMap_def]
  simp only [filter_byFile]

/-- Of the records accepted before `close`, the files have what comes before the first one that is rejected. -/
lemma lines_due (inv : Inv w s) {n : Nat} (closed : s.Closed n) :
    (s.lines.map Prod.snd).filter (fun i => i.number < n) = ((s.order w).takeWhile w.Encodable).filter fun i => i.number < n := by
  obtain ⟨at_, finished | died⟩ := closed
  · obtain ⟨batch, late⟩ := inv.stands.finished finished
    have all := inv.stands.alive (by simp [finished])
    have rest : (s.queue.reduceOption.takeWhile w.Encodable).filter (fun i => i.number < n) = [] := by
      rw [List.filter_eq_nil_iff]
      intro i mem due
      have later := late i ((List.takeWhile_prefix _).subset mem) n at_
      have due : i.number < n := by simpa using due
      omega
    rw [inv.lines, State.order, batch, List.append_nil, List.takeWhile_append_of_pos all,
      List.takeWhile_eq_self_iff.mpr all, List.filter_append, rest, List.append_nil]
  · obtain ⟨batch, bad, mem, rejected⟩ := inv.stands.died died
    have short : ((s.flushed.flatMap w.byFile).takeWhile w.Encodable).length ≠ (s.flushed.flatMap w.byFile).length := by
      intro e
      have whole := (List.takeWhile_prefix w.Encodable (l := s.flushed.flatMap w.byFile)).eq_of_length e
      rw [List.takeWhile_eq_self_iff.mp whole bad mem] at rejected
      cases rejected
    rw [inv.lines, State.order, batch, List.append_nil, List.takeWhile_append, if_neg short]

/-- A file has the records of its partition, among those whose lines were appended. -/
lemma file_eq (inv : Inv w s) (k : Key) : s.file k = (s.lines.map Prod.snd).filter fun i => w.key i = k := by
  have same : ∀ line ∈ s.lines, decide (line.1 = k) = decide (w.key line.2 = k) := by
    intro line mem
    rw [inv.keys line mem]
  rw [State.file, List.filter_congr same, List.filter_map]
  rfl

/-- A run keeps the invariant. -/
lemma inv_of_run (run : Run (Step w) {} events s) : Inv w s :=
  run.invariant .start fun inv st => inv.step st

/-- No two records are alike. -/
theorem accepted_nodup (run : Run (Step w) {} events s) : s.accepted.Nodup := by
  apply List.Nodup.of_map QueueItem.number
  rw [(inv_of_run run).numbers]
  exact List.nodup_range

/-- After `close` the files have what was accepted before it, exactly when no record that the encoder rejects comes
before an encodable one of them. -/
theorem recorded_iff {n : Nat} (run : Run (Step w) {} events s) (closed : s.Closed n) :
    s.Recorded w n ↔ Harmless w n (s.order w) := by
  have inv := inv_of_run run
  have comm : ∀ (l : List (QueueItem Obj Ts)) k,
      (l.filter fun i => w.key i = k).filter (fun i => i.number < n) =
        (l.filter fun i => i.number < n).filter fun i => w.key i = k :=
    fun l k => List.filter_comm _ _ l
  rw [← kept_iff]
  unfold State.Recorded
  apply forall_congr'
  intro k
  rw [file_eq inv, comm, lines_due inv closed, ← comm, ← filter_order inv]

end

/-! ## Two runs -/

/-- Records that are numbers, of which the encoder takes those of 64 bits, in hourly partitions. -/
def hourly : Writer Nat Nat Nat Nat where
  partitionFn ts := ts / 3600
  dumps n := if n < 18446744073709551616 then some n else none

/-- A record. -/
def sample (obj ts number : Nat) : QueueItem Nat Nat := { obj, ts, number }

/-- Two hours, and a number that is too large at the end of the second one. -/
def largeLast : State Nat Nat Nat where
  stop := true
  phase := .died
  lines := [(0, sample 1 0 0), (1, sample 2 3600 1)]
  accepted := [sample 1 0 0, sample 2 3600 1, sample 18446744073709551616 3600 2]
  flushed := [[sample 1 0 0, sample 2 3600 1, sample 18446744073709551616 3600 2]]
  closedAt := some 3

/-- Its run. -/
lemma largeLast_run : Run (Step hourly) {} [.write 1 0, .write 2 3600, .write 18446744073709551616 3600, .stop, .thread,
    .thread, .thread, .thread, .thread] largeLast := by
  apply Run.cons (.write (by decide))
  apply Run.cons (.write (by decide))
  apply Run.cons (.write (by decide))
  apply Run.cons .stop
  apply Run.cons (.leave rfl rfl)
  apply Run.cons (.rest rfl rfl)
  apply Run.cons (.rest rfl rfl)
  apply Run.cons (.rest rfl rfl)
  exact .single (.lastFlush rfl rfl (by decide))

/-- It is recorded. -/
theorem largeLast_recorded : largeLast.Recorded hourly 3 :=
  (recorded_iff largeLast_run ⟨rfl, .inr rfl⟩).mpr (by decide)

/-- The number that is too large comes first. -/
def largeFirst : State Nat Nat Nat where
  stop := true
  phase := .died
  accepted := [sample 18446744073709551616 0 0, sample 1 0 1]
  flushed := [[sample 18446744073709551616 0 0, sample 1 0 1]]
  closedAt := some 2

/-- Its run. -/
lemma largeFirst_run : Run (Step hourly) {} [.write 18446744073709551616 0, .write 1 0, .thread, .thread, .thread,
    .thread, .thread, .stop] largeFirst := by
  apply Run.cons (.write (by decide))
  apply Run.cons (.write (by decide))
  apply Run.cons (.enter rfl rfl)
  apply Run.cons (.get rfl rfl)
  apply Run.cons (.drain rfl (by decide) rfl)
  apply Run.cons (.drained rfl (.inr rfl))
  apply Run.cons (.flush rfl (by decide))
  exact .single .stop

/-- A record that the encoder rejects takes the rest of its batch with it. -/
theorem large_loses_next : ¬ ∀ (events : List (Event Nat Nat)) (s : State Nat Nat Nat) (n : Nat),
    Run (Step hourly) {} events s → s.Closed n → s.Recorded hourly n := by
  intro all
  have kept := all _ largeFirst 2 largeFirst_run ⟨rfl, .inr rfl⟩ 0
  revert kept
  decide

end OpenAgentd.Telemetry
