import OpenAgentd.Session.Stopping
import Mathlib.Data.List.Nodup

/-!
# One question

A question is answered, dismissed or superseded by whoever updates its row first. `Singly` is the condition under which
this ends it: a question is resolved only while no other row has its tool call, and an entry point that does not look
for a question begins only while none is open. In a run of such steps from a session that is suspended on a question
the question is resolved once, its placeholder and no other row is rewritten, one turn at most is resumed, and no
request is sent while a question is open (`resolved_once`). Without the condition a request is sent (`asked_meanwhile`).
-/

namespace OpenAgentd.Session
open OpenAgentd.Lib

/-! ## What is recorded -/

def Event.resolves (q : Nat) : Event → Bool
  | .resolved p _ => p = q
  | _ => false

/-- A row was rewritten for the question, or the row was rewritten. -/
def Event.rewrites (q row : Nat) : Event → Bool
  | .rewrote p r => p = q || r = row
  | _ => false

/-- The question is pending. -/
def Db.isOpen (db : Db) (q : Nat) : Bool := db.questions.any fun r => r.id = q && r.outcome = none

/-- One resolution, one rewritten row and one resumed turn for the question, and no request while one is open. -/
structure ResolvedOnce (db : Db) (q : Question) (row : ToolRow) : Prop where
  resolved : db.log.countP (Event.resolves q.id) = if db.isOpen q.id then 0 else 1
  rewrote : db.log.filter (Event.rewrites q.id row.id) = if db.isOpen q.id then [] else [.rewrote q.id row.id]
  resumed : db.log.count (.resumed q.id) ≤ 1
  requests : .request true ∉ db.log

/-- A session is suspended on a question, parked or after a restart. -/
structure Suspended (s : System) (q : Question) (row : ToolRow) : Prop where
  procs : s.procs = []
  log : s.db.log = []
  asked : q ∈ s.db.questions ∧ q.outcome = none
  only : ∀ r ∈ s.db.questions, r.outcome = none → r = q
  ids : (s.db.questions.map Question.id).Nodup
  placeholder : row ∈ s.db.rows ∧ row.toolCallId = q.toolCallId
  rowIds : (s.db.rows.map ToolRow.id).Nodup
  fresh : ∀ i ∈ s.live.cancelled ++ s.live.activeTask.toList, i < s.live.next

/-! ## The condition -/

/-- No other row and no other question has the tool call of the question. -/
def Db.Alone (db : Db) (q : Question) (row : ToolRow) : Prop :=
  (∀ r ∈ db.rows, r.toolCallId = q.toolCallId → r.id = row.id) ∧
    ∀ r ∈ db.questions, r.toolCallId = q.toolCallId → r.id = q.id

/-- The call resolves a question next. -/
def Proc.resolves : Proc → Bool
  | .call (.message _ (.superseding _)) | .call (.answerResolve _ _) | .call (.questionAnswer _ _)
  | .call (.dismissResolve _) | .call (.questionDismiss _) | .call (.stopResolve _) | .call (.haltResolve _) => true
  | _ => false

/-- A message is about to be handled, which looks for a question first. -/
def Proc.messages : Proc → Bool
  | .call .chatReady | .call (.scheduled _) => true
  | _ => false

/-- The calls that the routes and the scheduler make. -/
def Call.routed : Call → Bool
  | .questionAnswer _ _ | .questionDismiss _ => false
  | _ => true

/-- A question is resolved only while no other row has its tool call, and an entry point that does not look for a
question begins only while none is open. -/
def Singly (q : Question) (row : ToolRow) (s : System) : Act → Prop
  | .arrives c => c.routed = true
  | .runs _ p _ out =>
    (p.resolves = true → s.db.Alone q row) ∧ (Begins p out → p.messages = true ∨ s.db.pending = none)

/-- Entry points do not overtake each other or a stop, and the question is found by those that have to. -/
def Single (q : Question) (row : ToolRow) (s : System) (a : Act) : Prop := Calm s a ∧ Apart s a ∧ Singly q row s a

/-! ## The rows -/

/-- What a segment does to the questions, the rows and the log. -/
inductive Change (p : Proc) (db : Db) : Db → Prop where
  | kept (queued : List Nat) (es : List Event) :
    (∀ e ∈ es, (∃ b, e = .request b) ∨ ∃ q, e = .resumed q) →
    Change p db { db with queued, log := es ++ db.log }
  | asked {q row tc payload} :
    (∀ r ∈ db.questions, r.id ≠ q) →
    (∀ r ∈ db.rows, r.id ≠ row) →
    Change p db (db.ask q row tc payload)
  | wrote {row : ToolRow} :
    (∀ r ∈ db.rows, r.id ≠ row.id) →
    Change p db { db with rows := db.rows ++ [row] }
  | resolved {q o db' won} :
    p.resolves = true →
    db.Resolve q o db' won →
    Change p db db'

section
variable {l l' : Live} {db db' : Db} {t : Turn} {c : Call} {p : Proc} {ts : List Turn} {out : List Proc}
  {q : Question} {row : ToolRow}

/-- No change is one. -/
lemma Change.same : Change p db db := .kept db.queued [] nofun

/-- A change of the queue is one. -/
lemma Change.queue {queued : List Nat} : Change p db { db with queued } := .kept queued [] nofun

/-- What a turn changes of the questions. -/
lemma TurnAdv.change (h : TurnAdv l db t l' db' ts) : Change (.turn t) db db' := by
  cases h with
  | requests _ => exact .kept db.queued [_] fun e h => .inl ⟨_, List.mem_singleton.mp h⟩
  | injects _ => exact .queue
  | activates _ _ => exact .queue
  | asks _ _ fresh fresh' => exact .asked fresh fresh'
  | writes _ _ fresh => exact .wrote fresh
  | _ => exact .same

/-- What a call changes of the questions. -/
lemma CallAdv.change (h : CallAdv l db c l' db' out) : Change (.call c) db db' := by
  cases h with
  | superseded r => exact .resolved rfl r
  | answerWins r => exact .resolved rfl r
  | methodAnswers r => exact .resolved rfl r
  | dismissWins r => exact .resolved rfl r
  | methodDismisses r => exact .resolved rfl r
  | stopResolves r => exact .resolved rfl r
  | haltResolves r => exact .resolved rfl r
  | commits => exact .queue
  | chatActivates _ => exact .queue
  | dismissActivates _ => exact .queue
  | releases => exact .queue
  | unqueues => exact .queue
  | resumed => exact .kept db.queued [_] fun e h => .inr ⟨_, List.mem_singleton.mp h⟩
  | _ => exact .same

/-- The log agrees with the question, and its placeholder is there. -/
structure Books (db : Db) (q : Question) (row : ToolRow) : Prop where
  ids : (db.questions.map Question.id).Nodup
  asked : ∃ r ∈ db.questions, r.id = q.id ∧ r.toolCallId = q.toolCallId
  rowIds : (db.rows.map ToolRow.id).Nodup
  placeholder : ∃ r ∈ db.rows, r.id = row.id ∧ r.toolCallId = q.toolCallId
  resolved : db.log.countP (Event.resolves q.id) = if db.isOpen q.id then 0 else 1
  rewrote : db.log.filter (Event.rewrites q.id row.id) = if db.isOpen q.id then [] else [.rewrote q.id row.id]

/-! ### A resolution -/

/-- When a question is open. -/
lemma Db.isOpen_iff {p : Nat} : db.isOpen p = true ↔ ∃ r ∈ db.questions, r.id = p ∧ r.outcome = none := by
  simp [Db.isOpen]

/-- A question with the id that is closed is closed. -/
lemma Db.mem_close {r : Question} {p : Nat} {o : Outcome} (h : r ∈ (db.close p o).questions)
    (pending : r.outcome = none) : r ∈ db.questions ∧ r.id ≠ p := by
  obtain ⟨r', mem, rfl⟩ := List.mem_map.mp h
  by_cases same : r'.id = p
  · rw [if_pos same] at pending
    cases pending
  · rw [if_neg same]
    exact ⟨mem, same⟩

/-- Closing one leaves the others. -/
lemma Db.isOpen_close {n p : Nat} {o : Outcome} (other : n ≠ p) : (db.close p o).isOpen n = db.isOpen n := by
  rw [Bool.eq_iff_iff, Db.isOpen_iff, Db.isOpen_iff]
  constructor
  · rintro ⟨r, mem, id, pending⟩
    exact ⟨r, (Db.mem_close mem pending).1, id, pending⟩
  · rintro ⟨r, mem, id, pending⟩
    refine ⟨r, List.mem_map.mpr ⟨r, mem, ?_⟩, id, pending⟩
    rw [if_neg (id ▸ other)]

/-- A closed question is not open. -/
lemma Db.isOpen_closed {p : Nat} {o : Outcome} : (db.close p o).isOpen p = false := by
  rw [← Bool.not_eq_true, Db.isOpen_iff]
  rintro ⟨r, mem, id, pending⟩
  exact (Db.mem_close mem pending).2 id

/-- Closing keeps the ids. -/
lemma Db.close_ids {p : Nat} {o : Outcome} :
    (db.close p o).questions.map Question.id = db.questions.map Question.id := by
  show (db.questions.map _).map _ = _
  rw [List.map_map]
  refine List.map_congr_left fun r _ => ?_
  show (if r.id = p then _ else r : Question).id = r.id
  split <;> rfl

/-- Rewriting keeps the ids of the rows. -/
lemma Db.rewrite_ids {p n : Nat} {content : String} :
    (db.rewrite p n content).rows.map ToolRow.id = db.rows.map ToolRow.id := by
  show (db.rows.map _).map _ = _
  rw [List.map_map]
  refine List.map_congr_left fun r _ => ?_
  show (if r.id = n then _ else r : ToolRow).id = r.id
  split <;> rfl

/-- Closing a question keeps its tool call. -/
lemma Db.asked_close {p : Nat} {o : Outcome} (h : ∃ r ∈ db.questions, r.id = q.id ∧ r.toolCallId = q.toolCallId) :
    ∃ r ∈ (db.close p o).questions, r.id = q.id ∧ r.toolCallId = q.toolCallId := by
  obtain ⟨r, mem, id, tc⟩ := h
  refine ⟨_, List.mem_map.mpr ⟨r, mem, rfl⟩, ?_, ?_⟩
  · split <;> exact id
  · split <;> exact tc

/-- Rewriting keeps the placeholder. -/
lemma Db.placeholder_rewrite {p n : Nat} {content : String}
    (h : ∃ r ∈ db.rows, r.id = row.id ∧ r.toolCallId = q.toolCallId) :
    ∃ r ∈ (db.rewrite p n content).rows, r.id = row.id ∧ r.toolCallId = q.toolCallId := by
  obtain ⟨r, mem, id, tc⟩ := h
  refine ⟨_, List.mem_map.mpr ⟨r, mem, rfl⟩, ?_, ?_⟩
  · split <;> exact id
  · split <;> exact tc

/-- The row that is rewritten for the question is its placeholder, and for another question another row. -/
lemma Books.resolve {p : Nat} {o : Outcome} {won : Bool} (inv : Books db q row) (h : db.Resolve p o db' won)
    (alone : db.Alone q row) : Books db' q row := by
  have known {r r' : Question} (hr : r ∈ db.questions) (hr' : r' ∈ db.questions) (same : r.id = r'.id) : r = r' :=
    List.inj_on_of_nodup_map inv.ids hr hr' same
  cases h with
  | lost _ => exact inv
  | @won r placed mem id pending there tc =>
    obtain ⟨r', mem', id', tc'⟩ := inv.asked
    have ids : ((db.close p o).rewrite p placed.id (o.text r.payload)).questions.map Question.id =
      db.questions.map Question.id := Db.close_ids
    have rowIds : ((db.close p o).rewrite p placed.id (o.text r.payload)).rows.map ToolRow.id =
      db.rows.map ToolRow.id := Db.rewrite_ids
    refine ⟨ids ▸ inv.ids, Db.asked_close inv.asked, rowIds ▸ inv.rowIds,
      Db.placeholder_rewrite inv.placeholder, ?_, ?_⟩
    · show (Event.rewrote p placed.id :: Event.resolved p o :: db.log).countP (Event.resolves q.id) =
        if (db.close p o).isOpen q.id then 0 else 1
      by_cases same : q.id = p
      · have opened : db.isOpen q.id = true := Db.isOpen_iff.mpr ⟨r, mem, id.trans same.symm, pending⟩
        have count := inv.resolved
        rw [if_pos opened] at count
        rw [same] at count ⊢
        rw [Db.isOpen_closed, List.countP_cons, List.countP_cons, count]
        simp [Event.resolves]
      · rw [Db.isOpen_close same, ← inv.resolved, List.countP_cons, List.countP_cons]
        simp [Event.resolves, Ne.symm same]
    · show (Event.rewrote p placed.id :: Event.resolved p o :: db.log).filter (Event.rewrites q.id row.id) =
        if (db.close p o).isOpen q.id then [] else [.rewrote q.id row.id]
      by_cases same : q.id = p
      · have opened : db.isOpen q.id = true := Db.isOpen_iff.mpr ⟨r, mem, id.trans same.symm, pending⟩
        have rewrote := inv.rewrote
        have own : placed.id = row.id := by
          rw [known mem mem' (id.trans (same.symm.trans id'.symm)), tc'] at tc
          exact alone.1 placed there tc
        rw [if_pos opened] at rewrote
        rw [same] at rewrote ⊢
        rw [Db.isOpen_closed, own]
        simp [Event.rewrites, rewrote]
      · have other : placed.id ≠ row.id := by
          intro own
          obtain ⟨r₁, there₁, own₁, tc₁⟩ := inv.placeholder
          have : placed = r₁ := List.inj_on_of_nodup_map inv.rowIds there there₁ (own.trans own₁.symm)
          rw [this, tc₁] at tc
          exact same ((alone.2 r mem tc.symm).symm.trans id)
        rw [Db.isOpen_close same, ← inv.rewrote]
        simp [Event.rewrites, Ne.symm same, other]
  | @missing r mem id pending none =>
    have other : q.id ≠ p := by
      intro same
      obtain ⟨r', mem', id', tc'⟩ := inv.asked
      obtain ⟨r₁, there₁, _, tc₁⟩ := inv.placeholder
      refine none r₁ there₁ ?_
      rw [known mem mem' (id.trans (same.symm.trans id'.symm)), tc₁, tc']
    have ids : (db.close p o).questions.map Question.id = db.questions.map Question.id := Db.close_ids
    refine ⟨ids ▸ inv.ids, Db.asked_close inv.asked, inv.rowIds, inv.placeholder, ?_, ?_⟩
    · show (Event.resolved p o :: db.log).countP _ = _
      rw [Db.isOpen_close other, ← inv.resolved, List.countP_cons]
      simp [Event.resolves, Ne.symm other]
    · show (Event.resolved p o :: db.log).filter _ = _
      rw [Db.isOpen_close other, ← inv.rewrote]
      simp [Event.rewrites]

/-- The books stay right under a change. -/
lemma Books.change (inv : Books db q row) (h : Change p db db') (alone : p.resolves = true → db.Alone q row) :
    Books db' q row := by
  cases h with
  | kept queued es other =>
    refine ⟨inv.ids, inv.asked, inv.rowIds, inv.placeholder, ?_, ?_⟩
    · refine Eq.trans ?_ inv.resolved
      show (es ++ db.log).countP _ = _
      rw [List.countP_append, List.countP_eq_zero.mpr, Nat.zero_add]
      · intro e he
        obtain ⟨b, rfl⟩ | ⟨n, rfl⟩ := other e he
        · exact Bool.false_ne_true
        · exact Bool.false_ne_true
    · refine Eq.trans ?_ inv.rewrote
      show (es ++ db.log).filter _ = _
      rw [List.filter_append, List.filter_eq_nil_iff.mpr, List.nil_append]
      · intro e he
        obtain ⟨b, rfl⟩ | ⟨n, rfl⟩ := other e he
        · exact Bool.false_ne_true
        · exact Bool.false_ne_true
  | @asked n m tc payload fresh fresh' =>
    obtain ⟨r, mem, id, tc'⟩ := inv.asked
    obtain ⟨r₁, there, own, tc₁⟩ := inv.placeholder
    have same : (db.ask n m tc payload).isOpen q.id = db.isOpen q.id := by
      have other : n ≠ q.id := fun e => fresh r mem (id.trans e.symm)
      simp [Db.isOpen, Db.ask, other]
    refine ⟨?_, ⟨r, List.mem_append_left _ mem, id, tc'⟩, ?_, ⟨r₁, List.mem_append_left _ there, own, tc₁⟩, ?_, ?_⟩
    · show ((db.questions ++ [_]).map _).Nodup
      rw [List.map_append, List.nodup_append]
      refine ⟨inv.ids, List.nodup_singleton _, fun i hi j hj => ?_⟩
      obtain ⟨r, mem, rfl⟩ := List.mem_map.mp hi
      rw [List.mem_singleton.mp hj]
      exact fresh r mem
    · show ((db.rows ++ [_]).map _).Nodup
      rw [List.map_append, List.nodup_append]
      refine ⟨inv.rowIds, List.nodup_singleton _, fun i hi j hj => ?_⟩
      obtain ⟨r, mem, rfl⟩ := List.mem_map.mp hi
      rw [List.mem_singleton.mp hj]
      exact fresh' r mem
    · rw [same]
      exact inv.resolved
    · rw [same]
      exact inv.rewrote
  | @wrote new fresh =>
    obtain ⟨r₁, there, own, tc₁⟩ := inv.placeholder
    refine ⟨inv.ids, inv.asked, ?_, ⟨r₁, List.mem_append_left _ there, own, tc₁⟩, inv.resolved, inv.rewrote⟩
    show ((db.rows ++ [_]).map _).Nodup
    rw [List.map_append, List.nodup_append]
    refine ⟨inv.rowIds, List.nodup_singleton _, fun i hi j hj => ?_⟩
    obtain ⟨r, mem, rfl⟩ := List.mem_map.mp hi
    rw [List.mem_singleton.mp hj]
    exact fresh r mem
  | resolved resolves r => exact inv.resolve r (alone resolves)

/-! ### Resumed turns -/

/-- The call has resolved the question and is to resume its turn. -/
def Proc.resumes (n : Nat) : Proc → Bool
  | .call (.answered p) | .call (.resuming p) => p = n
  | _ => false

/-- A resolution that is won is recorded once. -/
lemma Db.Resolve.counts {p n : Nat} {o : Outcome} {won : Bool} (h : db.Resolve p o db' won) :
    db'.log.count (.resumed n) = db.log.count (.resumed n) ∧
      db'.log.countP (Event.resolves n) = db.log.countP (Event.resolves n) + if won = true ∧ p = n then 1 else 0 := by
  cases h with
  | won _ _ _ _ _ =>
    by_cases same : p = n <;> simp [Db.rewrite, Db.close, Event.resolves, same]
  | missing _ _ _ _ =>
    by_cases same : p = n <;> simp [Db.close, Event.resolves, same]
  | lost _ => simp

/-- A turn is resumed by the call that resolved its question. -/
lemma CallAdv.resumed_le {n : Nat} (h : CallAdv l db c l' db' out) (routed : c.routed = true) :
    db'.log.count (.resumed n) + out.countP (Proc.resumes n) + db.log.countP (Event.resolves n) ≤
      db.log.count (.resumed n) + [Proc.call c].countP (Proc.resumes n) + db'.log.countP (Event.resolves n) := by
  have turns {t : Turn} : [Proc.turn t].countP (Proc.resumes n) = 0 := rfl
  cases h with
  | superseded r =>
    obtain ⟨same, more⟩ := r.counts (n := n)
    rw [same, more]
    exact Nat.add_le_add_left (Nat.le_add_right _ _) _
  | @answerWins p _ _ r =>
    obtain ⟨same, more⟩ := r.counts (n := n)
    rw [same, more]
    by_cases own : p = n <;> simp [Proc.resumes, own]
    omega
  | dismissWins r =>
    obtain ⟨same, more⟩ := r.counts (n := n)
    rw [same, more]
    exact Nat.add_le_add_left (Nat.le_add_right _ _) _
  | stopResolves r =>
    obtain ⟨same, more⟩ := r.counts (n := n)
    rw [same, more]
    exact Nat.add_le_add_left (Nat.le_add_right _ _) _
  | haltResolves r =>
    obtain ⟨same, more⟩ := r.counts (n := n)
    rw [same, more]
    exact Nat.add_le_add_left (Nat.le_add_right _ _) _
  | methodAnswers _ => cases routed
  | methodDismisses _ => cases routed
  | @resumed p =>
    by_cases own : p = n <;> simp [Proc.resumes, Event.resolves, own]
  | @resumes p => by_cases own : p = n <;> simp [Proc.resumes, own]
  | _ => simp [Proc.resumes]

/-- A turn resumes and resolves nothing. -/
lemma TurnAdv.resumed_eq {n : Nat} (h : TurnAdv l db t l' db' ts) :
    db'.log.count (.resumed n) = db.log.count (.resumed n) ∧
      db'.log.countP (Event.resolves n) = db.log.countP (Event.resolves n) := by
  cases h <;> exact ⟨rfl, rfl⟩

/-- Every resumed turn, and every one that is to be resumed, was answered. -/
def Resumed (n : Nat) (s : System) : Prop :=
  s.db.log.count (.resumed n) + s.procs.countP (Proc.resumes n) ≤ s.db.log.countP (Event.resolves n)

/-- Only the routes and the scheduler have called. -/
def Routed (s : System) : Prop := ∀ c, .call c ∈ s.procs → c.routed = true

/-- What a call leaves is routed. -/
lemma CallAdv.routed (h : CallAdv l db c l' db' out) : ∀ c', .call c' ∈ out → c'.routed = true := by
  cases h <;> simp [Call.routed]

/-! ## Open questions -/

def Db.Open (db : Db) (r : Question) : Prop := r ∈ db.questions ∧ r.outcome = none

/-- Nothing is pending when nothing is open. -/
lemma Db.pending_none : db.pending = none ↔ ∀ r, ¬ db.Open r := by
  simp [Db.pending, Db.Open]

/-- What is pending is open. -/
lemma Db.pending_some {r : Question} (h : db.pending = some r) : db.Open r := by
  refine ⟨List.mem_of_find?_eq_some h, ?_⟩
  simpa using List.find?_some h

/-- A resolution leaves the question closed, and opens none. -/
lemma Db.Resolve.closes {n : Nat} {o : Outcome} {won : Bool} {r : Question} (h : db.Resolve n o db' won)
    (opened : db'.Open r) : db.Open r ∧ r.id ≠ n := by
  obtain ⟨mem, pending⟩ := opened
  cases h with
  | won _ _ _ _ _ =>
    obtain ⟨mem, other⟩ := Db.mem_close mem pending
    exact ⟨⟨mem, pending⟩, other⟩
  | missing _ _ _ _ =>
    obtain ⟨mem, other⟩ := Db.mem_close mem pending
    exact ⟨⟨mem, pending⟩, other⟩
  | lost closed => exact ⟨⟨mem, pending⟩, fun own => closed r mem own pending⟩

/-- A coroutine that sends no request while the question is open. A turn that has asked is not at the queue. -/
def Proc.waits (l : Live) : Proc → Prop
  | .turn ⟨_, pc⟩ => match pc with
    | .created | .opening | .running | .draining => False
    | .finishing => l.suspended ≠ none
    | .failing => l.state = .error ∨ l.cancel = true
    | .asked _ | .parking | .closing => True
  | .call c => match c with
    | .message _ .saving | .commandInit | .resuming _ | .dismissEmit | .dismissActivating | .chatActivating => False
    | _ => True

/-- What takes no turn waits. -/
lemma Proc.waits_of_still (h : p.takesTurn = false) : p.waits l := by
  cases p with
  | turn t => cases h
  | call c =>
    cases c with
    | message o pc => cases h
    | _ => trivial

/-- A loop that is left with a question, an error or the event set does not look at the queue. -/
lemma Final.waits {i : Nat} {pc : TurnPc} (h : Final l l' pc)
    (held : l.suspended ≠ none ∨ l.state = .error ∨ l.cancel = true) : (Proc.turn ⟨i, pc⟩).waits l' := by
  cases h with
  | park _ _ => trivial
  | drain error none off =>
    obtain some | error' | on := held
    · exact some none
    · exact error error'
    · exact absurd (off.symm.trans on) nofun
  | stopped _ _ _ => trivial
  | failed _ => trivial

/-- What a segment of a turn leaves behind waits, where a question is open. -/
lemma TurnAdv.waits {r : Question} (h : TurnAdv l db t l' db' ts) (opened : db'.Open r)
    (waits : (∃ r, db.Open r) → (Proc.turn t).waits l) (stopped : t.id ∈ l.cancelled → l.cancel = true) :
    ∀ u ∈ ts, (Proc.turn u).waits l' := by
  have only {u : Turn} {m : Live} (h : (Proc.turn u).waits m) : ∀ u' ∈ [u], (Proc.turn u').waits m := fun u' h' => by
    rw [List.mem_singleton.mp h']
    exact h
  have some {r : Question} (h : db.Open r) := waits ⟨r, h⟩
  cases h with
  | asks _ _ _ _ => exact only trivial
  | opens _ => exact (some opened).elim
  | begins _ => exact (some opened).elim
  | requests _ => exact (some opened).elim
  | injects _ => exact (some opened).elim
  | writes _ _ _ => exact (some opened).elim
  | returns _ _ _ => exact (some opened).elim
  | returnsStopped _ _ => exact (some opened).elim
  | @suspends _ q _ _ _ _ final =>
    refine only (final.waits (.inl ?_))
    cases l.suspended <;> exact nofun
  | @suspendsStopped _ q _ _ =>
    apply only
    show l.suspended.or _ ≠ none
    cases l.suspended <;> exact nofun
  | raises _ _ => exact only (.inl rfl)
  | finishes _ which final =>
    refine only (final.waits ?_)
    obtain rfl | rfl := which
    · exact .inl (some opened)
    · exact .inr (some opened)
  | activates _ _ => exact (some opened).elim
  | drained _ _ => exact (some opened).elim
  | unwinds mem _ final => exact only (final.waits (.inr (.inr (stopped mem))))
  | swallows _ => exact (some opened).elim
  | parks _ => exact nofun
  | closes _ => exact nofun
  | dies _ _ => exact nofun
  | breaks => exact nofun

/-- A turn asks only where no question is open. -/
lemma TurnAdv.opened {r : Question} (h : TurnAdv l db t l' db' ts) (opened : db'.Open r) :
    db.Open r ∨ ∀ r', db'.Open r' → r' = r := by
  cases h with
  | @asks _ n _ tc payload _ none _ _ =>
    have new {r' : Question} (h : r' ∈ db.questions ++ [{ id := n, toolCallId := tc, payload }])
        (pending : r'.outcome = .none) : r' = { id := n, toolCallId := tc, payload } := by
      cases List.mem_append.mp h with
      | inl old => exact absurd ⟨old, pending⟩ (Db.pending_none.mp none r')
      | inr new => exact List.mem_singleton.mp new
    refine .inr fun r' opened' => ?_
    rw [new opened'.1 opened'.2, new opened.1 opened.2]
  | _ => exact .inl opened

/-- A request is sent by a turn in its loop. -/
lemma TurnAdv.asked (h : TurnAdv l db t l' db' ts) (sent : .request true ∈ db'.log) :
    .request true ∈ db.log ∨ (∃ r, db.Open r) ∧ ¬ (Proc.turn t).waits l := by
  cases h with
  | requests _ =>
    cases List.mem_cons.mp sent with
    | inl now =>
      right
      match e : db.pending with
      | none =>
        rw [e] at now
        cases now
      | some r => exact ⟨⟨r, Db.pending_some e⟩, id⟩
    | inr old => exact .inl old
  | _ => exact .inl sent

/-- A call opens no question. -/
lemma CallAdv.opened {r : Question} (h : CallAdv l db c l' db' out) (opened : db'.Open r) : db.Open r := by
  cases h with
  | superseded r => exact (r.closes opened).1
  | answerWins r => exact (r.closes opened).1
  | methodAnswers r => exact (r.closes opened).1
  | dismissWins r => exact (r.closes opened).1
  | methodDismisses r => exact (r.closes opened).1
  | stopResolves r => exact (r.closes opened).1
  | haltResolves r => exact (r.closes opened).1
  | _ => exact opened

/-- A resolution asks nothing. -/
lemma Db.Resolve.asked {n : Nat} {o : Outcome} {won : Bool} (h : db.Resolve n o db' won)
    (sent : .request true ∈ db'.log) : .request true ∈ db.log := by
  cases h with
  | won _ _ _ _ _ => simpa [Db.rewrite, Db.close] using sent
  | missing _ _ _ _ => simpa [Db.close] using sent
  | lost _ => exact sent

/-- A call asks nothing. -/
lemma CallAdv.asked (h : CallAdv l db c l' db' out) (sent : .request true ∈ db'.log) : .request true ∈ db.log := by
  cases h with
  | superseded r => exact r.asked sent
  | answerWins r => exact r.asked sent
  | methodAnswers r => exact r.asked sent
  | dismissWins r => exact r.asked sent
  | methodDismisses r => exact r.asked sent
  | stopResolves r => exact r.asked sent
  | haltResolves r => exact r.asked sent
  | resumed => simpa using sent
  | _ => exact sent

/-- What a call leaves behind waits, where a question stays open. -/
lemma CallAdv.waits {r : Question} (h : CallAdv l db c l' db' out) (opened : db'.Open r) (waits : (Proc.call c).waits l)
    (begins : Begins (.call c) out → (Proc.call c).messages = true)
    (superseding : ∀ o n, c = .message o (.superseding n) → ∀ r, db.Open r → r.id = n) : ∀ o ∈ out, o.waits l' := by
  have only {o : Proc} {m : Live} (h : o.waits m) : ∀ o' ∈ [o], o'.waits m := fun o' h' => by
    rw [List.mem_singleton.mp h']
    exact h
  cases h with
  | noQuestion none => exact absurd opened (Db.pending_none.mp none r)
  | findsNone none => exact absurd opened (Db.pending_none.mp none r)
  | superseded resolve =>
    obtain ⟨old, other⟩ := resolve.closes opened
    exact absurd (superseding _ _ rfl r old) other
  -- these begin without a look at the questions
  | retests _ => cases begins ⟨rfl, rfl⟩
  | accepts _ => cases begins ⟨rfl, rfl⟩
  | resumes => cases begins ⟨rfl, rfl⟩
  | dismisses => cases begins ⟨rfl, rfl⟩
  -- and these have begun
  | chatActivates _ => exact waits.elim
  | starts => exact waits.elim
  | commands => exact waits.elim
  | resumed => exact waits.elim
  | dismissDrains _ => exact waits.elim
  | dismissActivates _ => exact waits.elim
  | _ => first | exact only trivial | exact fun _ h => absurd h List.not_mem_nil

/-- A turn that waits goes on waiting where its question, its error and the event stay. -/
lemma Proc.waits_mono {u : Turn} (waits : (Proc.turn u).waits l) (suspended : l'.suspended = l.suspended)
    (state : l'.state = l.state ∨ l'.cancel = true) (cancel : l.cancel = true → l'.cancel = true) :
    (Proc.turn u).waits l' := by
  obtain ⟨i, pc⟩ := u
  cases pc with
  | finishing =>
    show l'.suspended ≠ none
    rw [suspended]
    exact waits
  | failing =>
    cases waits with
    | inl error => exact state.elim (fun same => .inl (same.trans error)) .inr
    | inr on => exact .inr (cancel on)
  | _ => exact waits

/-- A call leaves a turn waiting. -/
lemma CallAdv.leaves_waiting {u : Turn} (h : CallAdv l db c l' db' out) (waits : (Proc.turn u).waits l)
    (routed : c.routed = true) (under : c.underWay = false)
    (begins : Begins (.call c) out → (Proc.call c).messages = true)
    (halting : (Proc.call c).halting = true → l.cancel = true) : (Proc.turn u).waits l' := by
  cases h with
  | resumes => cases begins ⟨rfl, rfl⟩
  | dismisses => cases begins ⟨rfl, rfl⟩
  | methodDismisses _ => cases routed
  | halts _ => exact Proc.waits_mono waits rfl (.inr rfl) fun _ => rfl
  | idles => exact Proc.waits_mono waits rfl (.inr (halting rfl)) id
  | chatActivates _ => cases under
  | starts => cases under
  | commands => cases under
  | resumed => cases under
  | dismissStopped _ => cases under
  | dismissActivates _ => cases under
  | dismissEmpty _ => cases under
  | _ => exact Proc.waits_mono waits rfl (.inl rfl) id

/-! ## The invariant -/

/-- While a question is open nobody is to send a request, and who supersedes has found it. -/
structure Waiting (s : System) : Prop where
  one : OneTurn s
  stopping : Stopping s
  routed : Routed s
  single : ∀ a b, s.db.Open a → s.db.Open b → a.id = b.id
  waits : (∃ r, s.db.Open r) → ∀ p ∈ s.procs, p.waits s.live
  superseding : ∀ o n, .call (.message o (.superseding n)) ∈ s.procs → ∀ r, s.db.Open r → r.id = n
  requests : .request true ∉ s.db.log

end

section
variable {s t : System} {a : Act} {as : List Act} {q : Question} {row : ToolRow} {before after out : List Proc}
  {c : Call} {live : Live} {db : Db}

/-- A fresh call may arrive. -/
lemma Waiting.arrives (inv : Waiting s) (fresh : c.Fresh) (routed : c.routed = true) :
    Waiting { s with procs := s.procs ++ [.call c] } := by
  have old {o : Proc} {P : Prop} (h : o ∈ s.procs ++ [.call c]) (new : o = .call c → P)
      (stays : o ∈ s.procs → P) : P := by
    rw [List.mem_append, List.mem_singleton] at h
    exact h.elim stays new
  refine ⟨inv.one.step ⟨.arrives, .arrives fresh⟩, inv.stopping.arrives fresh, fun c' h => ?_, inv.single,
    fun opened p h => ?_, fun o n h => ?_, inv.requests⟩
  · refine old h (fun e => ?_) (inv.routed c')
    rw [Proc.call.inj e]
    exact routed
  · refine old h (fun e => ?_) (inv.waits opened p)
    rw [e]
    exact Proc.waits_of_still fresh.takesTurn
  · refine old h (fun e => ?_) (inv.superseding o n)
    rw [← Proc.call.inj e] at fresh
    exact fresh.elim

/-- A segment of a turn. -/
lemma Waiting.turns {u : Turn} {ts : List Turn} (inv : Waiting s)
    (one : OneTurn ⟨live, db, before ++ ts.map .turn ++ after⟩)
    (stopping : Stopping ⟨live, db, before ++ ts.map .turn ++ after⟩) (here : s.procs = before ++ .turn u :: after)
    (adv : TurnAdv s.live s.db u live db ts) : Waiting ⟨live, db, before ++ ts.map .turn ++ after⟩ := by
  have mem : Proc.turn u ∈ s.procs := by
    rw [here]
    exact List.mem_append_right _ List.mem_cons_self
  have others (o : Proc) (ho : o ∈ before ++ after) : o.takesTurn = false := inv.one.others here rfl ho
  have calls {c : Call} (h : .call c ∈ before ++ ts.map .turn ++ after) : .call c ∈ before ++ after := by
    cases mem_runs h with
    | inl h =>
      obtain ⟨_, _, e⟩ := List.mem_map.mp h
      cases e
    | inr h => exact h
  refine ⟨one, stopping, fun c h => inv.routed c (mem_stays here (calls h)), fun a b ha hb => ?_, fun ⟨r, hr⟩ p h => ?_,
    fun o n h => absurd (others _ (calls h)) nofun, fun sent => ?_⟩
  · cases adv.opened ha with
    | inl ha' =>
      cases adv.opened hb with
      | inl hb' => exact inv.single a b ha' hb'
      | inr new => rw [new a ha]
    | inr new => rw [new b hb]
  · cases mem_runs h with
    | inl new =>
      obtain ⟨t, ht, rfl⟩ := List.mem_map.mp new
      exact adv.waits hr (fun opened => inv.waits opened _ mem) (inv.stopping.cancelled u mem) t ht
    | inr old => exact Proc.waits_of_still (others p old)
  · cases adv.asked sent with
    | inl old => exact inv.requests old
    | inr now => exact now.2 (inv.waits now.1 _ mem)

/-- A segment of a call. -/
lemma Waiting.calls (inv : Waiting s) (one : OneTurn ⟨live, db, before ++ out ++ after⟩)
    (stopping : Stopping ⟨live, db, before ++ out ++ after⟩) (here : s.procs = before ++ .call c :: after)
    (adv : CallAdv s.live s.db c live db out)
    (begins : Begins (.call c) out → (Proc.call c).messages = true ∨ s.db.pending = none) :
    Waiting ⟨live, db, before ++ out ++ after⟩ := by
  have mem : Proc.call c ∈ s.procs := by
    rw [here]
    exact List.mem_append_right _ List.mem_cons_self
  refine ⟨one, stopping, fun c' h => ?_, fun a b ha hb => inv.single a b (adv.opened ha) (adv.opened hb),
    fun ⟨r, hr⟩ p h => ?_, fun o n h r hr => ?_, fun sent => inv.requests (adv.asked sent)⟩
  · exact (mem_runs h).elim (adv.routed c') fun old => inv.routed c' (mem_stays here old)
  · have opened : ∃ r, s.db.Open r := ⟨r, adv.opened hr⟩
    have looks (h : Begins (.call c) out) : (Proc.call c).messages = true :=
      (begins h).resolve_right fun none => Db.pending_none.mp none r (adv.opened hr)
    cases mem_runs h with
    | inl new =>
      refine adv.waits hr (inv.waits opened _ mem) looks (fun o n e => ?_) p new
      rw [e] at mem
      exact inv.superseding o n mem
    | inr old =>
      cases p with
      | call c' => exact inv.waits opened (.call c') (mem_stays here old)
      | turn u =>
        have under : c.underWay = false := by
          by_contra under
          rw [Bool.not_eq_false] at under
          cases inv.one.others here (show (Proc.call c).takesTurn = true from under) old
        exact adv.leaves_waiting (inv.waits opened _ (mem_stays here old)) (inv.routed c mem) under looks
          fun halting => (inv.stopping.halting _ mem halting).1
  · cases mem_runs h with
    | inl new =>
      cases adv with
      | finds found =>
        obtain e := List.mem_singleton.mp new
        cases e
        exact inv.single r _ hr (Db.pending_some found)
      | _ => simp at new
    | inr old => exact inv.superseding o n (mem_stays here old) r (adv.opened hr)

/-- A step keeps the question waiting. -/
lemma Waiting.step (inv : Waiting s) (st : Guarded (Single q row) Step s a t) : Waiting t := by
  obtain ⟨⟨calm, apart, singly⟩, st⟩ := st
  have one : OneTurn t := inv.one.step ⟨calm, st⟩
  have stopping : Stopping t := inv.stopping.step inv.one apart st
  cases st with
  | arrives fresh => exact inv.arrives fresh singly
  | runs here adv =>
    cases adv with
    | turn adv => exact inv.turns one stopping here adv
    | call adv => exact inv.calls one stopping here adv singly.2

/-- A step keeps the books right. -/
lemma Books.step (inv : Books s.db q row) (st : Guarded (Single q row) Step s a t) : Books t.db q row := by
  obtain ⟨⟨_, _, singly⟩, st⟩ := st
  cases st with
  | arrives _ => exact inv
  | runs here adv =>
    cases adv with
    | turn adv => exact inv.change adv.change singly.1
    | call adv => exact inv.change adv.change singly.1

/-- A step resumes at most once. -/
lemma Resumed.step {n : Nat} (inv : Resumed n s) (routed : Routed s) (st : Step s a t) : Resumed n t := by
  unfold Resumed at inv ⊢
  cases st with
  | @arrives c fresh =>
    have none : [Proc.call c].countP (Proc.resumes n) = 0 := by
      cases c <;> first | rfl | exact fresh.elim
    show _ + (s.procs ++ [Proc.call c]).countP _ ≤ _
    rw [List.countP_append, none]
    exact inv
  | @runs before p after live db out here adv =>
    show db.log.count (.resumed n) + (before ++ out ++ after).countP _ ≤ db.log.countP _
    rw [here, List.countP_append, List.countP_cons] at inv
    rw [List.countP_append, List.countP_append]
    cases adv with
    | @turn u _ _ ts adv =>
      obtain ⟨same, same'⟩ := adv.resumed_eq (n := n)
      have none : (ts.map Proc.turn).countP (Proc.resumes n) = 0 := by
        refine List.countP_eq_zero.mpr fun o ho => ?_
        obtain ⟨_, _, rfl⟩ := List.mem_map.mp ho
        exact Bool.false_ne_true
      omega
    | @call c _ _ out adv =>
      have mem : Proc.call c ∈ s.procs := by
        rw [here]
        exact List.mem_append_right _ List.mem_cons_self
      have le := adv.resumed_le (n := n) (routed c mem)
      rw [List.countP_singleton] at le
      omega

/-- In a run of such steps from a session that is suspended on a question, the question is resolved once, its
placeholder and no other row is rewritten, one turn at most is resumed, and no request is sent while a question is
open, in every state that is reached. -/
theorem resolved_once (rn : Run (Guarded (Single q row) Step) s as t) (start : Suspended s q row) :
    ResolvedOnce t.db q row := by
  have opened : s.db.isOpen q.id = true := Db.isOpen_iff.mpr ⟨q, start.asked.1, rfl, start.asked.2⟩
  have none (o : Proc) (h : o ∈ s.procs) : False := by
    rw [start.procs] at h
    cases h
  have one : OneTurn s := by
    constructor
    · rw [start.procs]
      exact Nat.zero_le _
    · rw [start.procs]
      exact nofun
  have stopping : Stopping s :=
    ⟨start.fresh, fun _ h => (none _ h).elim, fun _ h => (none _ h).elim, fun _ _ h => (none _ h).elim,
      fun _ h => (none _ h).elim⟩
  have waiting : Waiting s := by
    refine ⟨one, stopping, fun _ h => (none _ h).elim, fun a b ha hb => ?_, fun _ _ h => (none _ h).elim,
      fun _ _ h => (none _ h).elim, ?_⟩
    · rw [start.only a ha.1 ha.2, start.only b hb.1 hb.2]
    · rw [start.log]
      exact List.not_mem_nil
  have books : Books s.db q row := by
    refine ⟨start.ids, ⟨q, start.asked.1, rfl, rfl⟩, start.rowIds, ⟨row, start.placeholder.1, rfl, start.placeholder.2⟩,
      ?_, ?_⟩
    · rw [start.log, opened]
      rfl
    · rw [start.log, opened]
      rfl
  have resumed : Resumed q.id s := by
    show s.db.log.count _ + s.procs.countP _ ≤ _
    rw [start.log, start.procs]
    exact Nat.zero_le _
  have inv : Waiting t ∧ Books t.db q row ∧ Resumed q.id t :=
    rn.invariant (I := fun s => Waiting s ∧ Books s.db q row ∧ Resumed q.id s) ⟨waiting, books, resumed⟩
      fun ⟨waiting, books, resumed⟩ st => ⟨waiting.step st, books.step st, resumed.step waiting.routed st.2⟩
  obtain ⟨waiting, books, resumed⟩ := inv
  refine ⟨books.resolved, books.rewrote, ?_, waiting.requests⟩
  have once : t.db.log.countP (Event.resolves q.id) ≤ 1 := by
    rw [books.resolved]
    split
    · exact Nat.zero_le _
    · exact Nat.le_refl _
  exact Nat.le_trans (Nat.le_trans (Nat.le_add_right _ _) resumed) once

/-- A step of a coroutine that is alone, while no other row has the tool call and the question is found. -/
lemma Single.alone {p : Proc} (alone : p.resolves = true → s.db.Alone q row)
    (looks : Begins p out → p.messages = true ∨ s.db.pending = none) : Single q row s (.runs [] p [] out) :=
  ⟨.alone, ⟨fun _ _ h => absurd h List.not_mem_nil, fun _ _ h => absurd h List.not_mem_nil⟩, alone, looks⟩

/-- An arrival resolves nothing. -/
lemma Single.arrives {c : Call} (routed : c.routed = true) : Single q row s (.arrives c) := ⟨.arrives, trivial, routed⟩

def which : Question := { id := 0, toolCallId := "call_1", payload := ["Which?"] }

def whichRow : ToolRow := ⟨1, "call_1", placeholderResult, true⟩

/-- A session that is parked at a question, with the result of another tool before it. -/
def parked : System where
  live := { state := .waitingInput, suspended := some 0, activeTask := some 0, next := 1 }
  db := { questions := [which], rows := [⟨0, "call_0", "done", false⟩, whichRow] }

/-- The parked session is suspended. -/
lemma parked_suspended : Suspended parked which whichRow where
  procs := rfl
  log := rfl
  asked := ⟨List.mem_singleton.mpr rfl, rfl⟩
  only := by simp [parked]
  ids := by decide
  placeholder := ⟨by simp [parked], rfl⟩
  rowIds := by decide
  fresh := by decide

/-- An answer resumes the turn. -/
theorem resolved_once_answer : ∃ as t, Run (Guarded (Single which whichRow) Step) parked as t ∧
    t.db.isOpen 0 = false ∧ ResolvedOnce t.db which whichRow := by
  have came : Run (Guarded (Single which whichRow) Step) parked _ _ :=
    .single ⟨.arrives rfl, .arrives (show (Call.answer 0 [["this"]]).Fresh from trivial)⟩
  have found := came.snoc ⟨.alone (by simp [Proc.resolves]) (by simp [Begins, Proc.takesTurn, Proc.isTurn,
    Proc.underWay, Call.underWay]), .alone (.call (.answerOpen (List.mem_singleton.mpr rfl) rfl rfl))⟩
  have won : parked.db.Resolve 0 (.answered [["this"]]) _ true :=
    .won (List.mem_singleton.mpr rfl) rfl rfl (List.mem_cons_of_mem _ List.mem_cons_self) rfl
  have alone : parked.db.Alone which whichRow := by
    constructor <;> simp [parked, which, whichRow]
  have answered := found.snoc ⟨.alone (fun _ => alone) (by simp [Begins, Proc.takesTurn, Proc.isTurn, Proc.underWay,
    Call.underWay]), .alone (.call (.answerWins won))⟩
  have resuming := answered.snoc ⟨.alone (by simp [Proc.resolves]) fun _ => .inr rfl, .alone (.call .resumes)⟩
  have resumed := resuming.snoc ⟨.alone (by simp [Proc.resolves]) fun _ => .inr rfl, .alone (.call .resumed)⟩
  have opened := resumed.snoc ⟨.alone (by simp [Proc.resolves]) fun _ => .inr rfl,
    .alone (.turn (.opens List.not_mem_nil))⟩
  have begun := opened.snoc ⟨.alone (by simp [Proc.resolves]) fun _ => .inr rfl,
    .alone (.turn (.begins List.not_mem_nil))⟩
  have requested := begun.snoc ⟨.alone (by simp [Proc.resolves]) fun _ => .inr rfl,
    .alone (.turn (.requests List.not_mem_nil))⟩
  exact ⟨_, _, requested, rfl, resolved_once requested parked_suspended⟩

/-- After a restart `/compact` finds no turn, and a request is sent while the question is open. -/
theorem asked_meanwhile : ¬ ∀ s as t q row, Suspended s q row → Run Step s as t → ResolvedOnce t.db q row := by
  intro once
  have restarted : Suspended { parked with live := {} } _ _ :=
    { parked_suspended with fresh := fun _ h => absurd h List.not_mem_nil }
  have came : Run Step { parked with live := {} } _ _ := .single (.arrives (c := .command) trivial)
  have accepted := came.snoc (.alone (.call (.accepts rfl)))
  have started := accepted.snoc (.alone (.call .commands))
  have opened := started.snoc (.alone (.turn (.opens List.not_mem_nil)))
  have begun := opened.snoc (.alone (.turn (.begins List.not_mem_nil)))
  have requested := begun.snoc (.alone (.turn (.requests List.not_mem_nil)))
  exact (once _ _ _ _ _ restarted requested).requests List.mem_cons_self

end
end OpenAgentd.Session
