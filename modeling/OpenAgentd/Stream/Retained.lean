import OpenAgentd.Lib.Run
import OpenAgentd.Stream.Attach
import Mathlib.Algebra.Order.Ring.Rat
import Mathlib.Tactic.Linarith

/-!
# How long a turn is kept

The stream store (`app/services/memory_stream_store.py`) has a cleanup timer for every state in `_turns`. Events move
the deadline of the state but not its timer; the callback `_expire_turn` arms a new one when it finds that the deadline
has moved, and otherwise drops the state, or releases its replay data if clients follow a turn that goes on.

`Clocked` is what the timer and the deadline of a state have to do with each other and with the clock. A timer runs
when it is due (`RetainStep.tick` does not go past it), and the clock stands still while a function runs.
-/

namespace OpenAgentd.Stream
open OpenAgentd.Lib

/-- `STREAM_TTL`, in seconds. -/
def streamTtl : ℚ := 3600

/-- `_MAX_TURN_LIFETIME_SECONDS`. -/
def maxTurnLifetimeSeconds : ℚ := 4 * 60 * 60

/-- The queue of a client, with the number of its items. -/
structure Subscriber where
  id : Nat
  length : Nat := 0

/-- `_TurnState`, with its subscribers and its cleanup. `since` is the time of the first event since replay data was
last released, and `lastEvent` that of the last event; the code has neither. -/
structure TurnObject where
  turn : TurnState := {}
  subscribers : List Subscriber := []
  cleanupHandle : Option Nat := none
  cleanupDeadline : ℚ := 0
  createdAt : ℚ := 0
  since : Option ℚ := none
  lastEvent : ℚ := 0

/-- An armed timer of the event loop that runs `_expire_turn(session, state)`. -/
structure CleanupTimer where
  id : Nat
  due : ℚ
  session : String
  state : Nat
  deriving DecidableEq

/-- The store with the clock and the armed timers; `_turns` names the states by their places in the heap. -/
structure StreamStore where
  now : ℚ := 0
  turns : String → Option Nat := fun _ => none
  heap : Nat → TurnObject := fun _ => {}
  timers : List CleanupTimer := []
  next : Nat := 0

/-! ## Subscribers -/

/-- The live fan-out: a full queue leaves the list. -/
def Subscriber.put (q : Subscriber) : Option Subscriber :=
  if q.length < maxsize then some { q with length := q.length + 1 } else none

/-- `_terminate_subscriber`. -/
def Subscriber.terminate (q : Subscriber) : Subscriber :=
  if q.length < maxsize then { q with length := q.length + 1 } else q

/-! ## States -/

/-- `clear_replay_payload`. -/
def TurnState.clearReplayPayload (t : TurnState) : TurnState :=
  { t with
    content := .empty
    thinking := .empty
    toolLists := t.toolLists ++ [[]]
    toolCalls := t.toolLists.length
    summarization := .empty
    agentNotConfigured := none
    queuedTurns := [] }

/-- `reset_for_next_turn`. -/
def TurnState.resetForNextTurn (t : TurnState) : TurnState :=
  { t.clearReplayPayload with isStreaming := true, agentStatuses := .empty, agentErrors := .empty }

/-- An event at the time `now`. -/
def TurnObject.note (now : ℚ) (turn : TurnState → TurnState) (o : TurnObject) : TurnObject :=
  { o with turn := turn o.turn, since := o.since.or (some now), lastEvent := now }

namespace StreamStore

/-- The state at `i` replaced. -/
def setObject (s : StreamStore) (i : Nat) (o : TurnObject) : StreamStore :=
  { s with heap := Function.update s.heap i o }

/-- `loop.call_later(delay, _expire_turn, session_id, state)`, with its handle. -/
def callLater (s : StreamStore) (delay : ℚ) (sessionId : String) (i : Nat) : StreamStore :=
  { s with
    heap := Function.update s.heap i { s.heap i with cleanupHandle := some s.next }
    timers := s.timers ++ [⟨s.next, s.now + delay, sessionId, i⟩]
    next := s.next + 1 }

/-- `_cancel_cleanup`. -/
def cancelCleanup (s : StreamStore) (i : Nat) : StreamStore :=
  match (s.heap i).cleanupHandle with
  | none => s
  | some handle =>
    { s with
      heap := Function.update s.heap i { s.heap i with cleanupHandle := none }
      timers := s.timers.filter fun t => t.id ≠ handle }

/-- `_schedule_cleanup`. -/
def scheduleCleanup (s : StreamStore) (sessionId : String) (i : Nat) : StreamStore :=
  let s := s.cancelCleanup i
  (s.setObject i { s.heap i with createdAt := s.now, cleanupDeadline := s.now + streamTtl }).callLater
    streamTtl sessionId i

/-- `_refresh_cleanup`. -/
def refreshCleanup (s : StreamStore) (sessionId : String) (i : Nat) : StreamStore :=
  let hardDeadline := (s.heap i).createdAt + maxTurnLifetimeSeconds
  let s := s.setObject i { s.heap i with cleanupDeadline := min (s.now + streamTtl) hardDeadline }
  if (s.heap i).cleanupHandle = none then s.scheduleCleanup sessionId i else s

/-- `_expire_turn`. -/
def expireTurn (s : StreamStore) (sessionId : String) (i : Nat) : StreamStore :=
  if s.turns sessionId ≠ some i then s
  else
    let o := s.heap i
    let remaining := o.cleanupDeadline - s.now
    if remaining > 0 then s.callLater remaining sessionId i
    else
      let o := { o with cleanupHandle := none }
      if o.turn.isStreaming ∧ o.subscribers ≠ [] then
        (s.setObject i { o with turn := o.turn.clearReplayPayload, since := none }).scheduleCleanup sessionId i
      else { s.setObject i o with turns := Function.update s.turns sessionId none }

/-- A new state for the session. -/
def newTurn (s : StreamStore) (sessionId : String) : StreamStore :=
  let i := s.next
  { s with
    turns := Function.update s.turns sessionId (some i)
    heap := Function.update s.heap i { lastEvent := s.now }
    next := s.next + 1 }.scheduleCleanup sessionId i

/-- `init_turn`. -/
def initTurn (s : StreamStore) (sessionId : String) (keepSubscribers : Bool) : StreamStore :=
  match s.turns sessionId with
  | none => s.newTurn sessionId
  | some i =>
    let s := s.cancelCleanup i
    let o := s.heap i
    if keepSubscribers then
      (s.setObject i
        { o with turn := o.turn.resetForNextTurn, since := none, lastEvent := s.now }).scheduleCleanup sessionId i
    else (s.setObject i { o with subscribers := o.subscribers.map Subscriber.terminate }).newTurn sessionId

/-- `ensure_turn`. -/
def ensureTurn (s : StreamStore) (sessionId : String) : StreamStore :=
  if s.turns sessionId ≠ none then s else s.initTurn sessionId false

/-- `push_event`. -/
def pushEvent (s : StreamStore) (sessionId : String) (e : Event) (createIfMissing : Bool) : StreamStore :=
  let s := if s.turns sessionId = none ∧ createIfMissing then s.ensureTurn sessionId else s
  match s.turns sessionId with
  | none => s
  | some i =>
    let s := (s.setObject i ((s.heap i).note s.now fun t => t.record e)).refreshCleanup sessionId i
    s.setObject i { s.heap i with subscribers := (s.heap i).subscribers.filterMap Subscriber.put }

/-- `commit_agent_content`. -/
def commitAgentContent (s : StreamStore) (sessionId agent : String) : StreamStore :=
  match s.turns sessionId with
  | none => s
  | some i => s.setObject i { s.heap i with turn := (s.heap i).turn.commitAgentContent agent }

/-- `mark_done`. -/
def markDone (s : StreamStore) (sessionId : String) : StreamStore :=
  match s.turns sessionId with
  | none => s
  | some i =>
    let finish := fun t : TurnState => { t with isStreaming := false }
    let o := s.heap i
    let s := (s.setObject i
      { o with turn := finish o.turn, lastEvent := s.now }).refreshCleanup sessionId i
    s.setObject i { s.heap i with subscribers := (s.heap i).subscribers.map Subscriber.terminate }

/-- `attach` up to its replay. -/
def attach (s : StreamStore) (sessionId : String) : StreamStore :=
  match s.turns sessionId with
  | none => s
  | some i =>
    if (s.heap i).turn.isStreaming then
      { s.setObject i { s.heap i with subscribers := (s.heap i).subscribers ++ [{ id := s.next }] } with
        next := s.next + 1 }
    else s

/-- The client `q` of the state `i` takes an item from its queue. -/
def receive (s : StreamStore) (i q : Nat) : StreamStore :=
  s.setObject i { s.heap i with
    subscribers := (s.heap i).subscribers.map fun k => if k.id = q then { k with length := k.length - 1 } else k }

/-- The `finally` block of `attach`. -/
def detach (s : StreamStore) (i q : Nat) : StreamStore :=
  s.setObject i { s.heap i with subscribers := (s.heap i).subscribers.filter fun k => k.id ≠ q }

/-- The event loop runs a timer. -/
def fire (s : StreamStore) (t : CleanupTimer) : StreamStore :=
  { s with timers := s.timers.filter fun k => k.id ≠ t.id }.expireTurn t.session t.state

end StreamStore

/-- What happens to the store. -/
inductive RetainAction where
  | initTurn (sessionId : String) (keepSubscribers : Bool)
  | pushEvent (sessionId : String) (e : Event) (createIfMissing : Bool)
  | commitAgentContent (sessionId agent : String)
  | markDone (sessionId : String)
  | attach (sessionId : String)
  | receive (i q : Nat)
  | detach (i q : Nat)
  | fire (t : CleanupTimer)
  | tick (now : ℚ)

/-- The steps of the store. -/
inductive RetainStep : StreamStore → RetainAction → StreamStore → Prop where
  | initTurn {s sessionId keep} :
    RetainStep s (.initTurn sessionId keep) (s.initTurn sessionId keep)
  | pushEvent {s sessionId e create} :
    RetainStep s (.pushEvent sessionId e create) (s.pushEvent sessionId e create)
  | commitAgentContent {s sessionId agent} :
    RetainStep s (.commitAgentContent sessionId agent) (s.commitAgentContent sessionId agent)
  | markDone {s sessionId} :
    RetainStep s (.markDone sessionId) (s.markDone sessionId)
  | attach {s sessionId} :
    RetainStep s (.attach sessionId) (s.attach sessionId)
  | receive {s i q} :
    RetainStep s (.receive i q) (s.receive i q)
  | detach {s i q} :
    RetainStep s (.detach i q) (s.detach i q)
  | fire {s t} :
    t ∈ s.timers →
    t.due ≤ s.now →
    RetainStep s (.fire t) (s.fire t)
  | tick {s now} :
    s.now ≤ now →
    (∀ t ∈ s.timers, now ≤ t.due) →
    RetainStep s (.tick now) { s with now }

/-- There is no replay data. -/
structure TurnState.Released (t : TurnState) : Prop where
  content : t.content.entries = []
  thinking : t.thinking.entries = []
  toolCalls : t.toolRefs = []
  summarization : t.summarization.entries = []
  agentNotConfigured : t.agentNotConfigured = none
  queuedTurns : t.queuedTurns = []

/-- How long the store keeps what. A state without subscribers has been idle since `idle`. -/
structure Retained (idle : TurnObject → ℚ) (s : StreamStore) : Prop where
  payload : ∀ sessionId i, s.turns sessionId = some i → ¬ (s.heap i).turn.Released →
    ∃ t, (s.heap i).since = some t ∧ s.now ≤ t + maxTurnLifetimeSeconds
  finished : ∀ sessionId i, s.turns sessionId = some i → (s.heap i).turn.isStreaming = false →
    s.now ≤ (s.heap i).lastEvent + streamTtl
  detached : ∀ sessionId i, s.turns sessionId = some i → (s.heap i).subscribers = [] →
    s.now ≤ idle (s.heap i) + streamTtl
  single : ∀ t ∈ s.timers, ∀ t' ∈ s.timers, t.state = t'.state → t = t'
  inTime : ∀ t ∈ s.timers, t.due ≤ (s.heap t.state).cleanupDeadline

/-- No state is dropped that is streaming to a client, other than for a new turn. -/
def KeepsAttached (s : StreamStore) (a : RetainAction) (s' : StreamStore) : Prop :=
  ∀ sessionId i, s.turns sessionId = some i → (s.heap i).turn.isStreaming = true → (s.heap i).subscribers ≠ [] →
    s'.turns sessionId = some i ∨ a = .initTurn sessionId false ∧ s'.turns sessionId ≠ none

/-- The last event, or the last time replay data was released. -/
def TurnObject.lastRenewal (o : TurnObject) : ℚ := max o.lastEvent o.createdAt

/-! ## Replay data -/

section
variable {t : TurnState} {agent : String}

/-- Cleared payload is released. -/
lemma TurnState.released_clear : t.clearReplayPayload.Released := by
  refine ⟨rfl, rfl, ?_, rfl, rfl, rfl⟩
  simp [TurnState.toolRefs, TurnState.clearReplayPayload]

/-- A reset releases. -/
lemma TurnState.released_reset : t.resetForNextTurn.Released := by
  obtain ⟨content, thinking, calls, summaries, missing, queued⟩ := t.released_clear
  exact ⟨content, thinking, calls, summaries, missing, queued⟩

/-- A new state holds nothing. -/
lemma TurnState.released_new : ({} : TurnState).Released := ⟨rfl, rfl, rfl, rfl, rfl, rfl⟩

/-- A commit adds nothing. -/
lemma TurnState.Released.commit (h : t.Released) : (t.commitAgentContent agent).Released where
  content := by simp [TurnState.commitAgentContent, Dict.erase, h.content]
  thinking := by simp [TurnState.commitAgentContent, Dict.erase, h.thinking]
  toolCalls := by
    have calls : t.toolRefs = [] := h.toolCalls
    have refs : (t.commitAgentContent agent).toolRefs =
        t.toolRefs.filter fun ref => t.toolHeap[ref]?.any fun tc => tc.agent ≠ agent := by
      unfold TurnState.commitAgentContent TurnState.toolRefs
      simp
    rw [refs, calls, List.filter_nil]
  summarization := by
    unfold TurnState.commitAgentContent
    dsimp only
    split
    · simp [Dict.erase, h.summarization]
    · exact h.summarization
  agentNotConfigured := h.agentNotConfigured
  queuedTurns := h.queuedTurns

end

/-! ## The clock of a state -/

/-- A state whose timer is due at `due`, at the time `now`. -/
structure Clocked (now due : ℚ) (o : TurnObject) : Prop where
  ahead : now ≤ due
  inTime : due ≤ o.cleanupDeadline
  ceiling : o.cleanupDeadline ≤ o.createdAt + maxTurnLifetimeSeconds
  idle : o.cleanupDeadline ≤ o.lastRenewal + streamTtl
  created : o.createdAt ≤ now
  last : o.lastEvent ≤ now
  since : ∀ t, o.since = some t → o.createdAt ≤ t
  empty : o.since = none → o.turn.Released
  finished : o.turn.isStreaming = false → o.createdAt ≤ o.lastEvent

section
variable {now now' due : ℚ} {o o' : TurnObject}

/-- Since when an object is noted. -/
lemma TurnObject.note_since {turn : TurnState → TurnState} : (o.note now turn).since = some (o.since.getD now) := by
  unfold TurnObject.note
  cases since : o.since with
  | none => rfl
  | some t => rfl

/-- Time goes on. -/
lemma Clocked.tick (h : Clocked now due o) (le : now ≤ now') (ahead : now' ≤ due) : Clocked now' due o :=
  { h with ahead, created := h.created.trans le, last := h.last.trans le }

/-- A timer that is armed for the deadline. -/
lemma Clocked.rearm (h : Clocked now due o) (late : now ≤ o.cleanupDeadline) {handle : Option Nat} :
    Clocked now o.cleanupDeadline { o with cleanupHandle := handle } :=
  ⟨late, le_rfl, h.ceiling, h.idle, h.created, h.last, h.since, h.empty, h.finished⟩

/-- A state whose replay data has just been released. -/
lemma Clocked.scheduled (o : TurnObject) (handle : Option Nat) (since : o.since = none) (empty : o.turn.Released)
    (last : o.lastEvent ≤ now) (finished : o.turn.isStreaming = false → now ≤ o.lastEvent) :
    Clocked now (now + streamTtl)
      { o with createdAt := now, cleanupDeadline := now + streamTtl, cleanupHandle := handle } where
  ahead := by norm_num [streamTtl]
  inTime := le_rfl
  ceiling := by norm_num [streamTtl, maxTurnLifetimeSeconds]
  idle := add_le_add_left (le_max_right _ _) _
  created := le_rfl
  last := last
  since := fun t h => by rw [show o.since = some t from h] at since; cases since
  empty := fun _ => empty
  finished := finished

/-- The deadline of a state that is refreshed is not moved back. -/
lemma Clocked.refresh (h : Clocked now due o) {turn : TurnState} {since : Option ℚ}
    (began : ∀ t, since = some t → o.createdAt ≤ t) (empty : since = none → turn.Released) :
    Clocked now due { o with
      turn, since, lastEvent := now,
      cleanupDeadline := min (now + streamTtl) (o.createdAt + maxTurnLifetimeSeconds) } where
  ahead := h.ahead
  inTime := by
    have idle := h.idle
    have renewed : o.lastRenewal ≤ now := max_le h.last h.created
    apply le_min
    · exact (h.inTime.trans idle).trans (by linarith)
    · exact h.inTime.trans h.ceiling
  ceiling := min_le_right _ _
  idle := (min_le_left _ _).trans (add_le_add_left (le_max_left _ _) _)
  created := h.created
  last := le_rfl
  since := began
  empty := empty
  finished := fun _ => h.created

/-- What the clock does not look at. -/
lemma Clocked.subscribers (h : Clocked now due o) {subscribers : List Subscriber} :
    Clocked now due { o with subscribers } :=
  ⟨h.ahead, h.inTime, h.ceiling, h.idle, h.created, h.last, h.since, h.empty, h.finished⟩

end

/-! ## The store -/

/-- Every armed timer belongs to a state in `_turns`, and every such state has one. -/
structure StoreInv (s : StreamStore) : Prop where
  owned : ∀ t ∈ s.timers, s.turns t.session = some t.state ∧ (s.heap t.state).cleanupHandle = some t.id
  distinct : (s.timers.map CleanupTimer.id).Nodup
  below : ∀ t ∈ s.timers, t.id < s.next
  stored : ∀ sessionId i, s.turns sessionId = some i → i < s.next ∧
    ∃ t ∈ s.timers, t.session = sessionId ∧ t.state = i ∧ Clocked s.now t.due (s.heap i)

section
variable {s s' : StreamStore} {sessionId other : String} {i j : Nat} {t t' : CleanupTimer}

namespace StoreInv

/-- Timers are told by id. -/
lemma eq_of_id (I : StoreInv s) (ht : t ∈ s.timers) (ht' : t' ∈ s.timers) (e : t.id = t'.id) : t = t' :=
  List.inj_on_of_nodup_map I.distinct ht ht' e

/-- A state belongs to one session. -/
lemma session (I : StoreInv s) (h : s.turns sessionId = some i) (h' : s.turns other = some i) : other = sessionId := by
  obtain ⟨-, t, ht, rfl, state, -⟩ := I.stored _ _ h
  obtain ⟨-, t', ht', rfl, state', -⟩ := I.stored _ _ h'
  have handle := (I.owned t ht).2
  have handle' := (I.owned t' ht').2
  rw [state] at handle
  rw [state', handle] at handle'
  rw [I.eq_of_id ht ht' (Option.some.inj handle')]

/-- The timers without the one of a session. -/
lemma filter_id (I : StoreInv s) (ht : t ∈ s.timers) :
    (s.timers.filter fun k => k.id ≠ t.id) = s.timers.filter fun k => k.session ≠ t.session := by
  apply List.filter_congr
  intro k hk
  have same : k.id = t.id ↔ k.session = t.session := by
    constructor
    · intro e
      rw [I.eq_of_id hk ht e]
    · intro e
      have turns := (I.owned k hk).1
      rw [e, (I.owned t ht).1] at turns
      have handle := (I.owned k hk).2
      rw [← Option.some.inj turns, (I.owned t ht).2] at handle
      exact (Option.some.inj handle).symm
  simp only [ne_eq, same]

/-- Nothing changes but states, whose clocks go on. -/
lemma touch (I : StoreInv s) (now : s'.now = s.now) (turns : s'.turns = s.turns) (timers : s'.timers = s.timers)
    (next : s.next ≤ s'.next) (handle : ∀ j, (s'.heap j).cleanupHandle = (s.heap j).cleanupHandle)
    (clocked : ∀ j due, Clocked s.now due (s.heap j) → Clocked s.now due (s'.heap j)) : StoreInv s' where
  owned := by
    rw [timers, turns]
    intro t ht
    rw [handle]
    exact I.owned t ht
  distinct := timers ▸ I.distinct
  below := by
    rw [timers]
    exact fun t ht => (I.below t ht).trans_le next
  stored := by
    rw [timers, turns, now]
    intro sessionId i h
    obtain ⟨lt, t, ht, e, e', c⟩ := I.stored sessionId i h
    exact ⟨lt.trans_le next, t, ht, e, e', clocked i t.due c⟩

/-- A session gets a new timer for its state, which may be another one. -/
lemma renew (I : StoreInv s) (now : s'.now = s.now)
    (turns : s'.turns = Function.update s.turns t.session (some t.state))
    (timers : s'.timers = (s.timers.filter fun k => k.session ≠ t.session) ++ [t]) (new : s.next ≤ t.id)
    (old : t.id < s'.next) (known : t.state < s'.next)
    (heap : ∀ other j, other ≠ t.session → s.turns other = some j → s'.heap j = s.heap j)
    (handle : (s'.heap t.state).cleanupHandle = some t.id) (clocked : Clocked s.now t.due (s'.heap t.state)) :
    StoreInv s' where
  owned := by
    rw [timers, turns]
    intro k hk
    cases List.mem_append.mp hk with
    | inl hk =>
      obtain ⟨hk, ne⟩ := List.mem_filter.mp hk
      have ne : k.session ≠ t.session := by simpa using ne
      obtain ⟨owned, has⟩ := I.owned k hk
      rw [Function.update_of_ne ne, heap _ _ ne owned]
      exact ⟨owned, has⟩
    | inr hk =>
      rw [List.mem_singleton.mp hk, Function.update_self]
      exact ⟨rfl, handle⟩
  distinct := by
    rw [timers, List.map_append, List.nodup_append]
    refine ⟨I.distinct.sublist (List.filter_sublist.map _), by simp, ?_⟩
    intro a ha b hb
    obtain ⟨k, hk, rfl⟩ := List.mem_map.mp ha
    rw [List.map_singleton, List.mem_singleton] at hb
    rw [hb]
    exact ((I.below k (List.mem_of_mem_filter hk)).trans_le new).ne
  below := by
    rw [timers]
    intro k hk
    cases List.mem_append.mp hk with
    | inl hk => exact (I.below k (List.mem_of_mem_filter hk)).trans_le (new.trans old.le)
    | inr hk => rw [List.mem_singleton.mp hk]; exact old
  stored := by
    rw [timers, turns, now]
    intro sessionId i h
    by_cases e : sessionId = t.session
    · rw [e, Function.update_self, Option.some.injEq] at h
      subst h e
      exact ⟨known, t, by simp, rfl, rfl, clocked⟩
    · rw [Function.update_of_ne e] at h
      obtain ⟨lt, k, hk, session, state, c⟩ := I.stored sessionId i h
      refine ⟨lt.trans_le (new.trans old.le), k, ?_, session, state, ?_⟩
      · exact List.mem_append_left _ (List.mem_filter.mpr ⟨hk, by simpa [session] using e⟩)
      · rw [heap _ _ e h]
        exact c

/-- A session loses its state, and the state its timer. -/
lemma drop (I : StoreInv s) (now : s'.now = s.now) (turns : s'.turns = Function.update s.turns sessionId none)
    (timers : s'.timers = s.timers.filter fun k => k.session ≠ sessionId) (next : s'.next = s.next)
    (heap : ∀ other j, other ≠ sessionId → s.turns other = some j → s'.heap j = s.heap j) : StoreInv s' where
  owned := by
    rw [timers, turns]
    intro k hk
    obtain ⟨hk, ne⟩ := List.mem_filter.mp hk
    have ne : k.session ≠ sessionId := by simpa using ne
    obtain ⟨owned, has⟩ := I.owned k hk
    rw [Function.update_of_ne ne, heap _ _ ne owned]
    exact ⟨owned, has⟩
  distinct := timers ▸ I.distinct.sublist (List.filter_sublist.map _)
  below := by
    rw [timers, next]
    exact fun k hk => I.below k (List.mem_of_mem_filter hk)
  stored := by
    rw [timers, turns, now, next]
    intro other i h
    by_cases e : other = sessionId
    · rw [e, Function.update_self] at h
      cases h
    · rw [Function.update_of_ne e] at h
      obtain ⟨lt, k, hk, session, state, c⟩ := I.stored other i h
      refine ⟨lt, k, List.mem_filter.mpr ⟨hk, by simpa [session] using e⟩, session, state, ?_⟩
      rw [heap _ _ e h]
      exact c

/-- The state of a session is changed, but not its timer. -/
lemma set {o : TurnObject} (I : StoreInv s) (handle : o.cleanupHandle = (s.heap i).cleanupHandle)
    (clocked : ∀ due, Clocked s.now due (s.heap i) → Clocked s.now due o) : StoreInv (s.setObject i o) := by
  have heap : ∀ j, (s.setObject i o).heap j = s.heap j ∧ j ≠ i ∨ (s.setObject i o).heap j = o ∧ j = i := by
    intro j
    by_cases e : j = i
    · rw [e]
      exact .inr ⟨Function.update_self _ _ _, rfl⟩
    · exact .inl ⟨Function.update_of_ne e _ _, e⟩
  refine I.touch rfl rfl rfl le_rfl (fun j => ?_) fun j due c => ?_
  · rcases heap j with ⟨h, -⟩ | ⟨h, rfl⟩
    · rw [h]
    · rw [h, handle]
  · rcases heap j with ⟨h, -⟩ | ⟨h, rfl⟩
    · rw [h]
      exact c
    · rw [h]
      exact clocked due c

/-- A state in `_turns` has a timer. -/
lemma handle (I : StoreInv s) (h : s.turns sessionId = some i) : (s.heap i).cleanupHandle ≠ none := by
  obtain ⟨-, t, ht, -, state, -⟩ := I.stored _ _ h
  have has := (I.owned t ht).2
  rw [state] at has
  simp [has]

/-- Cancelling the timer of a session. -/
lemma cancelCleanup (I : StoreInv s) (h : s.turns sessionId = some i) : s.cancelCleanup i =
    { s with heap := Function.update s.heap i { s.heap i with cleanupHandle := none }
             timers := s.timers.filter fun k => k.session ≠ sessionId } := by
  obtain ⟨-, t, ht, session, state, -⟩ := I.stored _ _ h
  have has := (I.owned t ht).2
  rw [state] at has
  unfold StreamStore.cancelCleanup
  rw [has]
  dsimp only
  rw [I.filter_id ht, session]

/-- `_schedule_cleanup` for a state that is released and has no timer. -/
lemma schedule {s₁ : StreamStore} (I : StoreInv s) (now : s₁.now = s.now)
    (turns : s₁.turns = Function.update s.turns sessionId (some i))
    (timers : s₁.timers = s.timers.filter fun k => k.session ≠ sessionId)
    (next : s.next ≤ s₁.next) (known : i < s₁.next)
    (only : ∀ other, s.turns other = some i → other = sessionId)
    (heap : ∀ other j, other ≠ sessionId → s.turns other = some j → s₁.heap j = s.heap j)
    (free : (s₁.heap i).cleanupHandle = none) (since : (s₁.heap i).since = none) (empty : (s₁.heap i).turn.Released)
    (last : (s₁.heap i).lastEvent ≤ s.now)
    (finished : (s₁.heap i).turn.isStreaming = false → s.now ≤ (s₁.heap i).lastEvent) :
    StoreInv (s₁.scheduleCleanup sessionId i) := by
  have e : s₁.scheduleCleanup sessionId i = (s₁.setObject i { s₁.heap i with
      createdAt := s₁.now, cleanupDeadline := s₁.now + streamTtl }).callLater streamTtl sessionId i := by
    unfold StreamStore.scheduleCleanup StreamStore.cancelCleanup
    rw [free]
  rw [e]
  have state : ((s₁.setObject i { s₁.heap i with
      createdAt := s₁.now, cleanupDeadline := s₁.now + streamTtl }).callLater streamTtl sessionId i).heap i =
      { s₁.heap i with createdAt := s.now, cleanupDeadline := s.now + streamTtl, cleanupHandle := some s₁.next } := by
    simp [StreamStore.callLater, StreamStore.setObject, now]
  refine I.renew (t := ⟨s₁.next, s.now + streamTtl, sessionId, i⟩) now turns ?_ next (Nat.lt_succ_self _)
    (known.trans (Nat.lt_succ_self _)) (fun other j away h => ?_) ?_ ?_
  · rw [← timers, ← now]
    rfl
  · have ne : j ≠ i := fun e => away (only other (e ▸ h))
    rw [← heap other j away h]
    simp [StreamStore.callLater, StreamStore.setObject, ne]
  · rw [state]
  · rw [state]
    exact .scheduled _ _ since empty last finished

/-- A new state for a session whose timer, if it had one, is gone. -/
lemma newTurn {s₁ : StreamStore} (I : StoreInv s) (now : s₁.now = s.now) (turns : s₁.turns = s.turns)
    (timers : s₁.timers = s.timers.filter fun k => k.session ≠ sessionId) (next : s₁.next = s.next)
    (heap : ∀ other j, other ≠ sessionId → s.turns other = some j → s₁.heap j = s.heap j) :
    StoreInv (s₁.newTurn sessionId) := by
  unfold StreamStore.newTurn
  dsimp only
  rw [turns, next]
  refine I.schedule now rfl timers (Nat.le_succ _) (Nat.lt_succ_self _) (fun other h => ?_) (fun other j away h => ?_)
    ?_ ?_ ?_ ?_ ?_
  · exact absurd (I.stored _ _ h).1 (lt_irrefl _)
  · have ne : j ≠ s.next := (I.stored _ _ h).1.ne
    show Function.update s₁.heap s.next _ j = _
    rw [Function.update_of_ne ne, heap other j away h]
  · simp only [Function.update_self]
  · simp only [Function.update_self]
  · simp only [Function.update_self]
    exact TurnState.released_new
  · simp only [Function.update_self]
    exact now.le
  · simp only [Function.update_self]
    intro stopped
    cases stopped

/-- No timer for a session without a state. -/
lemma filter_of_none (I : StoreInv s) (h : s.turns sessionId = none) :
    (s.timers.filter fun k => k.session ≠ sessionId) = s.timers := by
  rw [List.filter_eq_self]
  intro k hk
  have owned := (I.owned k hk).1
  have ne : k.session ≠ sessionId := fun e => by rw [e, h] at owned; cases owned
  simpa using ne

/-- A turn begins. -/
lemma initTurn (I : StoreInv s) (sessionId : String) (keep : Bool) : StoreInv (s.initTurn sessionId keep) := by
  unfold StreamStore.initTurn
  cases h : s.turns sessionId with
  | none => exact I.newTurn rfl rfl (I.filter_of_none h).symm rfl fun _ _ _ _ => rfl
  | some i =>
    dsimp only
    rw [I.cancelCleanup h]
    have away : ∀ other j, other ≠ sessionId → s.turns other = some j → j ≠ i :=
      fun other j ne h' e => ne (I.session h (e ▸ h'))
    cases keep with
    | true =>
      refine I.schedule rfl ?_ rfl le_rfl (I.stored _ _ h).1 (fun other => I.session h) (fun other j ne h' => ?_)
        ?_ ?_ ?_ ?_ ?_
      · exact (Function.update_eq_self_iff.mpr h.symm).symm
      · simp [StreamStore.setObject, away other j ne h']
      · simp [StreamStore.setObject]
      · simp [StreamStore.setObject]
      · simp [StreamStore.setObject, TurnState.released_reset]
      · simp [StreamStore.setObject]
      · simp [StreamStore.setObject]
    | false =>
      refine I.newTurn rfl rfl rfl rfl fun other j ne h' => ?_
      simp [StreamStore.setObject, away other j ne h']

/-- The refresh of a state with a timer. -/
lemma refreshCleanup {o : TurnObject} (timed : o.cleanupHandle ≠ none) :
    (s.setObject i o).refreshCleanup sessionId i = s.setObject i
      { o with cleanupDeadline := min (s.now + streamTtl) (o.createdAt + maxTurnLifetimeSeconds) } := by
  simp [StreamStore.refreshCleanup, StreamStore.setObject, timed]

/-- An event is pushed. -/
lemma pushEvent (I : StoreInv s) (sessionId : String) (e : Event) (create : Bool) :
    StoreInv (s.pushEvent sessionId e create) := by
  unfold StreamStore.pushEvent
  have ensured : StoreInv (if s.turns sessionId = none ∧ create = true then s.ensureTurn sessionId else s) := by
    unfold StreamStore.ensureTurn
    split
    · split
      · exact I
      · exact I.initTurn sessionId false
    · exact I
  revert ensured
  generalize (if s.turns sessionId = none ∧ create = true then s.ensureTurn sessionId else s) = s
  intro I
  dsimp only
  cases h : s.turns sessionId with
  | none => exact I
  | some i =>
    dsimp only
    rw [StoreInv.refreshCleanup (by exact I.handle h)]
    refine StoreInv.set (I.set rfl fun due c => ?_) rfl fun due c => c.subscribers
    refine c.refresh (fun t began => ?_) fun none => ?_
    · rw [TurnObject.note_since, Option.some.injEq] at began
      rw [← began]
      cases since : (s.heap i).since with
      | none => exact c.created
      | some t' => exact c.since t' since
    · rw [TurnObject.note_since] at none
      cases none

/-- A turn is done. -/
lemma markDone (I : StoreInv s) (sessionId : String) : StoreInv (s.markDone sessionId) := by
  unfold StreamStore.markDone
  cases h : s.turns sessionId with
  | none => exact I
  | some i =>
    dsimp only
    rw [StoreInv.refreshCleanup (by exact I.handle h)]
    refine StoreInv.set (I.set rfl fun due c => ?_) rfl fun due c => c.subscribers
    refine c.refresh c.since fun none => ?_
    obtain ⟨content, thinking, calls, summaries, missing, queued⟩ := c.empty none
    exact ⟨content, thinking, calls, summaries, missing, queued⟩

/-- Content is committed. -/
lemma commitAgentContent (I : StoreInv s) (sessionId agent : String) :
    StoreInv (s.commitAgentContent sessionId agent) := by
  unfold StreamStore.commitAgentContent
  cases h : s.turns sessionId with
  | none => exact I
  | some i =>
    refine I.set rfl fun due c => ?_
    exact { c with empty := fun none => (c.empty none).commit }

/-- A client attaches. -/
lemma attach (I : StoreInv s) (sessionId : String) : StoreInv (s.attach sessionId) := by
  unfold StreamStore.attach
  cases h : s.turns sessionId with
  | none => exact I
  | some i =>
    dsimp only
    split
    · have J := I.set (i := i) (o := { s.heap i with subscribers := (s.heap i).subscribers ++ [{ id := s.next }] }) rfl
        fun due c => c.subscribers
      exact J.touch rfl rfl rfl (Nat.le_succ _) (fun _ => rfl) fun _ _ c => c
    · exact I

/-- A client receives. -/
lemma receive (I : StoreInv s) (i q : Nat) : StoreInv (s.receive i q) := I.set rfl fun _ c => c.subscribers

/-- A client leaves. -/
lemma detach (I : StoreInv s) (i q : Nat) : StoreInv (s.detach i q) := I.set rfl fun _ c => c.subscribers

/-- A timer fires. -/
lemma fire (I : StoreInv s) (ht : t ∈ s.timers) (due : t.due ≤ s.now) : StoreInv (s.fire t) := by
  unfold StreamStore.fire StreamStore.expireTurn
  have h := (I.owned t ht).1
  obtain ⟨lt, t', ht', session, state, c⟩ := I.stored _ _ h
  have same : t' = t := by
    apply I.eq_of_id ht' ht
    have has := (I.owned t' ht').2
    rw [state, (I.owned t ht).2] at has
    exact (Option.some.inj has).symm
  subst same
  have now : s.now = t'.due := c.ahead.antisymm due
  have away : ∀ other j, other ≠ t'.session → s.turns other = some j → j ≠ t'.state :=
    fun other j ne h' e => ne (I.session h (e ▸ h'))
  dsimp only
  rw [I.filter_id ht, if_neg (by simpa using h)]
  split
  · -- the deadline has moved
    rename_i moved
    refine I.renew (t := ⟨s.next, (s.heap t'.state).cleanupDeadline, t'.session, t'.state⟩) rfl ?_ ?_ le_rfl
      (Nat.lt_succ_self _) (lt.trans (Nat.lt_succ_self _)) (fun other j ne h' => ?_) ?_ ?_
    · exact (Function.update_eq_self_iff.mpr h.symm).symm
    · simp [StreamStore.callLater]
    · simp [StreamStore.callLater, away other j ne h']
    · simp [StreamStore.callLater]
    · have late : s.now ≤ (s.heap t'.state).cleanupDeadline := now ▸ c.inTime
      simpa [StreamStore.callLater] using c.rearm late
  · split
    · refine I.schedule rfl ?_ rfl le_rfl lt (fun other => I.session h) (fun other j ne h' => ?_) ?_ ?_ ?_ ?_ ?_
      · exact (Function.update_eq_self_iff.mpr h.symm).symm
      · simp [StreamStore.setObject, away other j ne h']
      · simp [StreamStore.setObject]
      · simp [StreamStore.setObject]
      · simp [StreamStore.setObject, TurnState.released_clear]
      · simpa [StreamStore.setObject] using c.last
      · rename_i streams
        simp only [StreamStore.setObject, Function.update_self]
        intro stopped
        exact absurd (streams.1.symm.trans stopped) (by decide)
    · refine I.drop rfl rfl rfl rfl fun other j ne h' => ?_
      simp [StreamStore.setObject, away other j ne h']

/-- Time passes. -/
lemma tick (I : StoreInv s) {now : ℚ} (le : s.now ≤ now) (ahead : ∀ t ∈ s.timers, now ≤ t.due) :
    StoreInv { s with now } where
  owned := I.owned
  distinct := I.distinct
  below := I.below
  stored := by
    intro sessionId i h
    obtain ⟨lt, t, ht, session, state, c⟩ := I.stored sessionId i h
    exact ⟨lt, t, ht, session, state, c.tick le (ahead t ht)⟩

/-- The empty store. -/
lemma start : StoreInv {} where
  owned := fun t ht => absurd ht List.not_mem_nil
  distinct := List.nodup_nil
  below := fun t ht => absurd ht List.not_mem_nil
  stored := fun sessionId i h => by cases h

/-- One step. -/
lemma step {a : RetainAction} (I : StoreInv s) (st : RetainStep s a s') : StoreInv s' := by
  cases st with
  | initTurn => exact I.initTurn _ _
  | pushEvent => exact I.pushEvent _ _ _
  | commitAgentContent => exact I.commitAgentContent _ _
  | markDone => exact I.markDone _
  | attach => exact I.attach _
  | receive => exact I.receive _ _
  | detach => exact I.detach _ _
  | fire ht due => exact I.fire ht due
  | tick le ahead => exact I.tick le ahead

/-- What the clocks are for. -/
lemma retained (I : StoreInv s) : Retained TurnObject.lastRenewal s where
  payload := by
    intro sessionId i h held
    obtain ⟨-, t, -, -, -, c⟩ := I.stored sessionId i h
    cases since : (s.heap i).since with
    | none => exact absurd (c.empty since) held
    | some began =>
      refine ⟨began, rfl, ?_⟩
      have ceiling := c.ahead.trans (c.inTime.trans c.ceiling)
      have created := c.since began since
      linarith
  finished := by
    intro sessionId i h stopped
    obtain ⟨-, t, -, -, -, c⟩ := I.stored sessionId i h
    have renewed : (s.heap i).lastRenewal = (s.heap i).lastEvent := max_eq_left (c.finished stopped)
    exact renewed ▸ c.ahead.trans (c.inTime.trans c.idle)
  detached := by
    intro sessionId i h _
    obtain ⟨-, t, -, -, -, c⟩ := I.stored sessionId i h
    exact c.ahead.trans (c.inTime.trans c.idle)
  single := by
    intro t ht t' ht' same
    apply I.eq_of_id ht ht'
    have has := (I.owned t ht).2
    rw [same, (I.owned t' ht').2] at has
    exact (Option.some.inj has).symm
  inTime := by
    intro t ht
    obtain ⟨owned, has⟩ := I.owned t ht
    obtain ⟨-, t', ht', -, state, c⟩ := I.stored _ _ owned
    have has' := (I.owned t' ht').2
    rw [state, has] at has'
    have e : t = t' := I.eq_of_id ht ht' (Option.some.inj has')
    rw [e, state]
    exact c.inTime

end StoreInv

/-- What `turns` is after the functions that do not drop anything. -/
lemma turns_scheduleCleanup : (s.scheduleCleanup sessionId i).turns = s.turns := by
  unfold StreamStore.scheduleCleanup StreamStore.cancelCleanup
  split
  · rfl
  · rfl

/-- The turns with a new one. -/
lemma turns_newTurn : (s.newTurn sessionId).turns = Function.update s.turns sessionId (some s.next) :=
  turns_scheduleCleanup

/-- Cancelling a timer keeps the turns. -/
lemma turns_cancelCleanup : (s.cancelCleanup i).turns = s.turns := by
  unfold StreamStore.cancelCleanup
  split
  · rfl
  · rfl

/-- Setting a timer keeps the turns. -/
lemma turns_refreshCleanup : (s.refreshCleanup sessionId i).turns = s.turns := by
  unfold StreamStore.refreshCleanup
  dsimp only
  split
  · exact turns_scheduleCleanup
  · rfl

/-- Beginning a turn leaves the other sessions alone, and the state if it is to be kept. -/
lemma turns_initTurn {keep : Bool} (other : String) : (s.initTurn sessionId keep).turns other = s.turns other ∨
    other = sessionId ∧ (s.initTurn sessionId keep).turns other ≠ none ∧ (s.turns other = none ∨ keep = false) := by
  unfold StreamStore.initTurn
  have fresh : ∀ s₁ : StreamStore, s₁.turns = s.turns → (s₁.newTurn sessionId).turns other = s.turns other ∨
      other = sessionId ∧ (s₁.newTurn sessionId).turns other ≠ none := by
    intro s₁ same
    rw [turns_newTurn, same]
    by_cases e : other = sessionId
    · rw [e, Function.update_self]
      exact .inr ⟨rfl, Option.some_ne_none _⟩
    · rw [Function.update_of_ne e]
      exact .inl rfl
  cases h : s.turns sessionId with
  | none =>
    cases fresh s rfl with
    | inl same => exact .inl same
    | inr new => exact .inr ⟨new.1, new.2, .inl (new.1 ▸ h)⟩
  | some i =>
    cases keep with
    | true => exact .inl (by simp only [if_true, turns_scheduleCleanup, StreamStore.setObject, turns_cancelCleanup])
    | false =>
      refine (fresh _ ?_).imp_right fun new => ⟨new.1, new.2, .inr rfl⟩
      exact turns_cancelCleanup

/-- What a step drops. -/
lemma keepsAttached {a : RetainAction} (st : RetainStep s a s') : KeepsAttached s a s' := by
  intro sessionId i h streams clients
  cases st with
  | @initTurn other keep =>
    rcases @turns_initTurn s other keep sessionId with same | ⟨rfl, new, none | keep⟩
    · exact .inl (same.trans h)
    · rw [none] at h
      cases h
    · exact .inr ⟨by rw [keep], new⟩
  | @pushEvent other e create =>
    refine .inl ?_
    unfold StreamStore.pushEvent
    have ensured :
        (if s.turns other = none ∧ create = true then s.ensureTurn other else s).turns sessionId = some i := by
      unfold StreamStore.ensureTurn
      split
      · rename_i missing
        rw [if_neg (by simp [missing.1])]
        rcases @turns_initTurn s other false sessionId with same | new
        · exact same.trans h
        · rw [new.1, missing.1] at h
          cases h
      · exact h
    dsimp only
    split
    · exact ensured
    · exact (congrFun turns_refreshCleanup sessionId).trans ensured
  | commitAgentContent =>
    refine .inl ?_
    unfold StreamStore.commitAgentContent
    split
    · exact h
    · exact h
  | markDone =>
    refine .inl ?_
    unfold StreamStore.markDone
    split
    · exact h
    · exact (congrFun turns_refreshCleanup sessionId).trans h
  | attach =>
    refine .inl ?_
    unfold StreamStore.attach
    split
    · exact h
    · split
      · exact h
      · exact h
  | receive => exact .inl h
  | detach => exact .inl h
  | @fire t ht due =>
    refine .inl ?_
    unfold StreamStore.fire StreamStore.expireTurn
    split
    · exact h
    · rename_i current
      dsimp only
      split
      · exact h
      · split
        · exact (congrFun turns_scheduleCleanup sessionId).trans h
        · rename_i quiet
          by_cases e : sessionId = t.session
          · have current : s.turns t.session = some t.state := by simpa using current
            rw [e, current] at h
            cases h
            exact absurd ⟨streams, clients⟩ quiet
          · exact (Function.update_of_ne e _ _).trans h
  | tick => exact .inl h

/-- In every run the store keeps what is followed, and drops the rest in time. -/
theorem retention {as : List RetainAction} (rn : Run RetainStep {} as s) :
    Retained TurnObject.lastRenewal s ∧ ∀ a s', RetainStep s a s' → KeepsAttached s a s' := by
  have I : StoreInv s := rn.invariant .start .step
  exact ⟨I.retained, fun a s' st => keepsAttached st⟩

end

/-! ## A client that leaves after a renewal -/

/-- A turn that has been followed for an hour without an event. -/
def followed : StreamStore :=
  let s := (StreamStore.attach (StreamStore.initTurn {} "s" false) "s")
  StreamStore.fire { s with now := 3600 } ⟨1, 3600, "s", 0⟩

/-- The client leaves, and a second goes by. -/
def leftAlone : StreamStore := { followed.detach 0 2 with now := 3601 }

/-- The run of that client. -/
lemma leftAlone_run : Run RetainStep {} [.initTurn "s" false, .attach "s", .tick 3600, .fire ⟨1, 3600, "s", 0⟩,
    .detach 0 2, .tick 3601] leftAlone := by
  refine .cons .initTurn (.cons .attach (.cons (.tick ?_ ?_) (.cons (.fire ?_ ?_) ?_)))
  rotate_left 4
  · exact .cons .detach (.single (.tick (by decide +kernel) (by decide +kernel)))
  all_goals decide +kernel

/-- A state without clients is still there an hour and a second after its last event. -/
theorem leftAlone_kept : ¬ ∀ (as : List RetainAction) (s : StreamStore), Run RetainStep {} as s →
    Retained TurnObject.lastEvent s ∧ ∀ a s', RetainStep s a s' → KeepsAttached s a s' := by
  intro all
  have late := (all _ _ leftAlone_run).1.detached "s" 0 (by decide +kernel) (by decide +kernel)
  exact absurd late (by decide +kernel)

/-- The state of the example has been renewed an hour after its last event. -/
theorem leftAlone_renewed : Retained TurnObject.lastRenewal leftAlone ∧
    ∀ a s', RetainStep leftAlone a s' → KeepsAttached leftAlone a s' :=
  retention leftAlone_run

end OpenAgentd.Stream
