import OpenAgentd.Manager.Registry

/-!
# One object per session

`Orderly` is the condition under which the registry keeps one live object for each session: a session is that of one
key at a time, whether the key names it or its object is attached to it, a call begins only where the table still has
the lock of the calls that are under way and nobody is stopping all objects, an eviction takes no entry that several
calls are after or that an overlapping call was handed, and a session's turns do not overlap. In a run of such steps
`OneObject` holds in every state that is reached (`one_object`). Two spellings of a session's id make two objects
(`two_objects`).
-/

namespace OpenAgentd.Manager
open OpenAgentd.Lib OpenAgentd.Session

variable {υ : Type*}

/-- Two live objects never serve one session, overlapping calls for a session are handed one object, and no eviction
stops an object on which a turn is active. -/
structure OneObject (uuid : String → Option υ) (m : Registry) : Prop where
  single : ∀ (x y : Nat) (a b : Object), m.objects[x]? = some a → m.objects[y]? = some b → a.stopped = false →
    b.stopped = false → a.session uuid = b.session uuid → a.session uuid ≠ none → x = y
  same : ∀ o seen, .received o seen ∈ m.log → ∀ o' ∈ seen, o' = o
  unharmed : .stopped true true ∉ m.log

/-! ## The condition -/

def Job.isFor (k : Key) : Job → Bool
  | .call c => c.key = k
  | _ => false

/-- No evicted entry is one that several calls are after, or one that an overlapping call was handed. -/
def Spares (jobs : List Job) (entries : List (Key × Nat)) : Prop :=
  ∀ e ∈ entries, jobs.countP (Job.isFor e.1) ≤ 1 ∧ ∀ c, .call c ∈ jobs → c.key = e.1 → c.seen = []

/-- The session is that of the key: of a call under the key that is under way, or of the key in the table, which names
it or whose object is attached to it. -/
def Serves (uuid : String → Option υ) (m : Registry) (jobs : List Job) (k : Key) (u : υ) : Prop :=
  (∃ c, .call c ∈ jobs ∧ c.key = k ∧ k.session uuid = some u) ∨
    ∃ o, m.sessions.get? k = some o ∧
      (k.session uuid = some u ∨ ∃ a : Object, m.objects[o]? = some a ∧ a.session uuid = some u)

/-- A call begins for a session of no other key. An object is attached to its own session or, while it is in the table,
to one of no other key. -/
def Orderly (uuid : String → Option υ) (s : System) : Act → Prop
  | .begins k =>
    (∀ todo, .stop todo ∉ s.jobs) ∧
    (∀ k' u, k.session uuid = some u → Serves uuid s.reg s.jobs k' u → k' = k) ∧
    (s.reg.startLocks.get? k ≠ none ∨ ∀ c, .call c ∈ s.jobs → c.key ≠ k)
  | .attach o sid => ∀ ob, s.reg.objects[o]? = some ob → ob.stopped = false →
    sessionOf uuid sid = ob.session uuid ∨
      ∃ k, s.reg.sessions.get? k = some o ∧
        ∀ k' u, sessionOf uuid sid = some u → Serves uuid s.reg s.jobs k' u → k' = k
  | .evictIdle now => Spares s.jobs (s.reg.idle now)
  | .evictSessions ids => Spares s.jobs (s.reg.named ids)
  | .stop => ∀ c, .call c ∉ s.jobs
  | .runs now _ j _ _ => ∀ c, j = .call c → c.pc = .waiting → Spares s.jobs (s.reg.idle now)
  | .acts o a => ∀ ob, s.reg.objects[o]? = some ob → Calm ob.sys a

/-! ## Stopping objects -/

/-- The object after a part of `stop`. -/
structure Like (a b : Object) : Prop where
  key : b.key = a.key
  sid : b.sid = a.sid
  procs : b.sys.procs = a.sys.procs
  hasActive : b.sys.live.hasActive = a.sys.live.hasActive
  stopped : b.stopped = false → a.stopped = false

/-- The objects of a list were stopped up to `rest`. -/
structure Stops (evicted : Bool) (m m' : Registry) (todo rest : List Nat) : Prop where
  sessions : m'.sessions = m.sessions
  startLocks : m'.startLocks = m.startLocks
  held : m'.held = m.held
  objects : ∀ x b, m'.objects[x]? = some b → ∃ a, m.objects[x]? = some a ∧ Like a b ∧ (b = a ∨ x ∈ todo) ∧
    (x ∈ todo → b.stopped = true ∨ x ∈ rest)
  size : m'.objects.length = m.objects.length
  log : ∀ e ∈ m'.log, e ∈ m.log ∨ ∃ x ∈ todo, ∃ a, m.objects[x]? = some a ∧ e = .stopped evicted a.active
  waits : rest ≠ [] → ∃ x ∈ todo, ∃ a, m.objects[x]? = some a ∧ a.active = true

section
variable {m m' m'' : Registry} {todo todo' rest : List Nat} {evicted : Bool} {o : Nat} {a b c : Object}

/-- Nothing was stopped. -/
lemma Like.refl : Like a a := ⟨rfl, rfl, rfl, rfl, id⟩

/-- Two parts are one. -/
lemma Like.trans (h : Like a b) (h' : Like b c) : Like a c :=
  ⟨h'.key.trans h.key, h'.sid.trans h.sid, h'.procs.trans h.procs, h'.hasActive.trans h.hasActive, fun s => h.stopped (h'.stopped s)⟩

/-- `stop` returns. -/
lemma Like.offline : Like a a.offline := ⟨rfl, rfl, rfl, rfl, nofun⟩

/-- `stop` begins. -/
lemma Like.cancel : Like a a.cancel := ⟨rfl, rfl, rfl, rfl, id⟩

/-- `stop` leaves the object attached to its session. -/
lemma Like.session {uuid : String → Option υ} (h : Like a b) : b.session uuid = a.session uuid := by
  rw [Object.session, h.sid, Object.session]

/-- `stop` takes no coroutine away. -/
lemma Like.active (h : Like a b) : b.active = a.active := by
  rw [Object.active, h.procs, Object.active]

/-- `stop` keeps the turns apart. -/
lemma Like.one (h : Like a b) (one : OneTurn a.sys) : OneTurn b.sys := by
  constructor
  · rw [h.procs]
    exact one.single
  · rw [h.procs, h.hasActive]
    exact one.active

/-- An active task that is not done is a turn. -/
lemma Object.active_of_unfinished (h : a.unfinished = true) : a.active = true := by
  obtain ⟨p, mem, turn⟩ := List.any_eq_true.mp h
  refine List.any_eq_true.mpr ⟨p, mem, ?_⟩
  cases p with
  | turn _ => rfl
  | call _ => cases turn

/-- Stopping nothing. -/
lemma Stops.refl : Stops evicted m m [] [] := by
  refine ⟨rfl, rfl, rfl, fun x b h => ⟨b, h, .refl, .inl rfl, fun h => absurd h List.not_mem_nil⟩, rfl,
    fun _ h => .inl h, fun h => absurd rfl h⟩

/-- First some objects are stopped, then others up to `rest`. -/
lemma Stops.trans (h : Stops evicted m m' todo []) (h' : Stops evicted m' m'' todo' rest) :
    Stops evicted m m'' (todo ++ todo') rest := by
  refine ⟨h'.sessions.trans h.sessions, h'.startLocks.trans h.startLocks, h'.held.trans h.held, fun x c hc => ?_,
    h'.size.trans h.size, fun e he => ?_, fun some => ?_⟩
  · obtain ⟨b, hb, like', same', stops'⟩ := h'.objects x c hc
    obtain ⟨a, ha, like, same, stops⟩ := h.objects x b hb
    refine ⟨a, ha, like.trans like', ?_, fun mem => ?_⟩
    · cases same' with
      | inl e' => exact same.imp (e'.trans ·) (List.mem_append_left _)
      | inr mem => exact .inr (List.mem_append_right _ mem)
    · cases List.mem_append.mp mem with
      | inl mem =>
        have stopped : b.stopped = true := (stops mem).resolve_right List.not_mem_nil
        left
        by_contra alive
        rw [Bool.not_eq_true] at alive
        rw [like'.stopped alive] at stopped
        cases stopped
      | inr mem => exact stops' mem
  · cases h'.log e he with
    | inl old =>
      refine (h.log e old).imp id fun ⟨x, mem, a, ha, new⟩ => ⟨x, List.mem_append_left _ mem, a, ha, new⟩
    | inr new =>
      obtain ⟨x, mem, b, hb, new⟩ := new
      obtain ⟨a, ha, like, _⟩ := h.objects x b hb
      exact .inr ⟨x, List.mem_append_right _ mem, a, ha, like.active ▸ new⟩
  · obtain ⟨x, mem, b, hb, active⟩ := h'.waits some
    obtain ⟨a, ha, like, _⟩ := h.objects x b hb
    exact ⟨x, List.mem_append_right _ mem, a, ha, like.active.symm.trans active⟩

/-- What one object becomes. -/
lemma Stops.set (h : m.objects[o]? = some a) (like : Like a b) (done : b.stopped = true ∨ o ∈ rest)
    (waits : rest ≠ [] → a.active = true) (sub : o ∈ todo)
    (all : ∀ x ∈ todo, x ≠ o → x ∈ rest) :
    Stops evicted m { m with log := .stopped evicted a.active :: m.log, objects := m.objects.set o b } todo rest := by
  refine ⟨rfl, rfl, rfl, fun x c hc => ?_, List.length_set, fun e he => ?_, fun some => ⟨o, sub, a, h, waits some⟩⟩
  · replace hc : (m.objects.set o b)[x]? = some c := hc
    rw [List.getElem?_set] at hc
    split at hc
    · rename_i here
      subst here
      split at hc
      · cases hc
        exact ⟨a, h, like, .inr sub, fun _ => done⟩
      · cases hc
    · rename_i other
      exact ⟨c, hc, .refl, .inl rfl, fun mem => .inr (all x mem (Ne.symm other))⟩
  · cases List.mem_cons.mp he with
    | inl new => exact .inr ⟨o, sub, a, h, new⟩
    | inr old => exact .inl old

/-- The objects are stopped one after the other. -/
lemma Registry.stopAll_spec (h : m.stopAll evicted todo = (m', rest)) : Stops evicted m m' todo rest := by
  induction todo generalizing m with
  | nil =>
    cases h
    exact .refl
  | cons o todo ih =>
    rw [Registry.stopAll] at h
    match e : m.objects[o]? with
    | none =>
      rw [e] at h
      have first : Stops evicted m m [o] [] := by
        refine ⟨rfl, rfl, rfl, fun x b hb => ⟨b, hb, .refl, .inl rfl, fun mem => ?_⟩, rfl, fun _ h => .inl h,
          fun h => absurd rfl h⟩
        rw [List.mem_singleton.mp mem, e] at hb
        cases hb
      exact first.trans (ih h)
    | some a =>
      rw [e] at h
      by_cases unfinished : a.unfinished = true
      · simp only [unfinished, if_true] at h
        obtain ⟨rfl, rfl⟩ := Prod.mk.inj h
        exact .set e .cancel (.inr List.mem_cons_self) (fun _ => Object.active_of_unfinished unfinished)
          List.mem_cons_self fun x mem _ => mem
      · simp only [unfinished] at h
        have first : Stops evicted m _ [o] [] :=
          .set e .offline (.inl rfl) (fun h => absurd rfl h) (List.mem_singleton.mpr rfl)
            fun x mem other => absurd (List.mem_singleton.mp mem) other
        exact first.trans (ih h)

/-- The task of the first object has ended. -/
lemma Registry.ended_spec (h : m.objects[o]? = some a) : Stops evicted m (m.ended o) [o] [] := by
  refine ⟨rfl, rfl, rfl, fun x c hc => ?_, List.length_modify ..,
    fun _ h => .inl h, fun h => absurd rfl h⟩
  replace hc : (m.objects.modify o Object.offline)[x]? = some c := hc
  rw [List.getElem?_modify] at hc
  split at hc
  · rename_i here
    subst here
    rw [h] at hc
    cases hc
    exact ⟨a, h, .offline, .inr (List.mem_singleton.mpr rfl), fun _ => .inl rfl⟩
  · rename_i other
    obtain ⟨a', ha', rfl⟩ := Option.map_eq_some_iff.mp hc
    exact ⟨a', ha', .refl, .inl rfl, fun mem => absurd (List.mem_singleton.mp mem).symm other⟩

/-! ## Evicted entries -/

/-- The objects left after a pop. -/
lemma Registry.pop_sessions {es : List (Key × Nat)} {k : Key} :
    (m.pop es).sessions.get? k = if k ∈ es.map Prod.fst then none else m.sessions.get? k := by
  induction es generalizing m with
  | nil => rfl
  | cons e es ih =>
    rw [Registry.pop, ih]
    simp only [Dict.get?_erase, List.map_cons, List.mem_cons]
    grind

/-- The start locks left after a pop. -/
lemma Registry.pop_startLocks {es : List (Key × Nat)} {k : Key} :
    (m.pop es).startLocks.get? k = if k ∈ es.map Prod.fst then none else m.startLocks.get? k := by
  induction es generalizing m with
  | nil => rfl
  | cons e es ih =>
    rw [Registry.pop, ih]
    simp only [Dict.get?_erase, List.map_cons, List.mem_cons]
    grind

/-- A pop leaves the rest. -/
lemma Registry.pop_rest {es : List (Key × Nat)} :
    (m.pop es).objects = m.objects ∧ (m.pop es).held = m.held ∧ (m.pop es).log = m.log := by
  induction es generalizing m with
  | nil => exact ⟨rfl, rfl, rfl⟩
  | cons e es ih => exact ih

/-- Idle objects are in the table. -/
lemma Registry.mem_idle {now : Int} {e : Key × Nat} (h : e ∈ m.idle now) :
    m.sessions.get? e.1 = some e.2 ∧ m.evictable e = true := by
  have mem := List.mem_filter.mp ((List.perm_insertionSort _ _).mem_iff.mp h)
  rw [Bool.and_eq_true] at mem
  exact ⟨Dict.get?_eq_some.mpr mem.1, mem.2.2⟩

/-- Named objects are in the table. -/
lemma Registry.mem_named {ids : List String} {e : Key × Nat} (h : e ∈ m.named ids) :
    m.sessions.get? e.1 = some e.2 ∧ m.evictable e = true := by
  have mem := List.mem_filter.mp h
  rw [Bool.and_eq_true] at mem
  exact ⟨Dict.get?_eq_some.mpr mem.1, mem.2.2⟩

end

/-! ## The invariant -/

/-- The call holds its lock. -/
def CallPc.holding : CallPc → Bool
  | .waiting => false
  | _ => true

def Job.holds (l : Nat) : Job → Bool
  | .call c => c.lock = l && c.pc.holding
  | _ => false

/-- What holds of the registry and the jobs. -/
structure Kept (uuid : String → Option υ) (m : Registry) (jobs : List Job) : Prop where
  -- the calls for a key are after one lock, or there is one call
  locked : ∀ c, .call c ∈ jobs → m.startLocks.get? c.key = some c.lock ∨
    m.startLocks.get? c.key = none ∧ jobs.countP (Job.isFor c.key) ≤ 1
  exclusive : ∀ l, jobs.countP (Job.holds l) ≤ 1
  held : ∀ c, .call c ∈ jobs → c.pc.holding = true → c.lock ∈ m.held
  -- no eviction waits
  prompt : (∀ todo, .evict todo ∉ jobs) ∧ ∀ c, .call c ∈ jobs → ∀ now todo, c.pc = .evicting now todo → todo = []
  registered : ∀ k o, m.sessions.get? k = some o →
    ∃ a : Object, m.objects[o]? = some a ∧ a.key = k ∧ a.stopped = false
  attaching : ∀ c, .call c ∈ jobs → ∀ now o, c.pc = .attaching now o →
    (∃ a : Object, m.objects[o]? = some a ∧ a.key = c.key ∧ a.session uuid = c.key.session uuid ∧
      a.stopped = false) ∧ m.sessions.get? c.key = none ∧
      c.seen = []
  live : ∀ (o : Nat) (a : Object), m.objects[o]? = some a → a.stopped = false → m.sessions.get? a.key = some o ∨
    (∃ c now, .call c ∈ jobs ∧ c.pc = .attaching now o ∧ c.key = a.key) ∨ ∃ todo, .stop todo ∈ jobs ∧ o ∈ todo
  names : ∀ k k' u, Serves uuid m jobs k u → Serves uuid m jobs k' u → k = k'
  stopping : ∀ todo, .stop todo ∈ jobs → ∀ c, .call c ∉ jobs
  cleared : ∀ todo, .stop todo ∈ jobs → ∀ k, m.sessions.get? k = none
  seen : ∀ c, .call c ∈ jobs → ∀ o ∈ c.seen, m.sessions.get? c.key = some o
  one : ∀ (o : Nat) (a : Object), m.objects[o]? = some a → OneTurn a.sys
  object : OneObject uuid m

section
variable {uuid : String → Option υ} {m m' : Registry} {jobs before after out : List Job} {es : List (Key × Nat)}
  {todo : List Nat} {c c' : Caller} {k : Key} {now : Int} {o : Nat}

/-- An object that can be evicted has no active turn. -/
lemma Kept.inactive {e : Key × Nat} {a : Object} (inv : Kept uuid m jobs) (h : m.evictable e = true)
    (here : m.objects[e.2]? = some a) : a.active = false := by
  rw [Registry.evictable, here] at h
  by_contra active
  rw [Bool.not_eq_false] at active
  have busy := (inv.one _ a here).busy active
  replace h : (!a.sys.live.busy) = true := h
  rw [busy] at h
  cases h

/-- An eviction stops what it takes, at once. -/
lemma Kept.evict (inv : Kept uuid m jobs) (entries : ∀ e ∈ es, m.sessions.get? e.1 = some e.2 ∧ m.evictable e = true)
    (spares : Spares jobs es) (h : (m.pop es).stopAll true (es.map Prod.snd) = (m', todo)) :
    todo = [] ∧ Kept uuid m' jobs ∧ m'.held = m.held := by
  obtain ⟨objects, held, log⟩ : (m.pop es).objects = m.objects ∧ _ ∧ _ := m.pop_rest
  have stops := Registry.stopAll_spec h
  have inactive {x : Nat} {a : Object} (mem : x ∈ es.map Prod.snd) (here : m.objects[x]? = some a) :
      a.active = false := by
    obtain ⟨e, he, rfl⟩ := List.mem_map.mp mem
    exact inv.inactive (entries e he).2 here
  have none : todo = [] := by
    by_contra some
    obtain ⟨x, mem, a, here, active⟩ := stops.waits some
    rw [objects] at here
    rw [inactive mem here] at active
    cases active
  subst none
  have sessions {k : Key} : m'.sessions.get? k = if k ∈ es.map Prod.fst then none else m.sessions.get? k := by
    rw [stops.sessions, Registry.pop_sessions]
  have startLocks {k : Key} : m'.startLocks.get? k = if k ∈ es.map Prod.fst then none else m.startLocks.get? k := by
    rw [stops.startLocks, Registry.pop_startLocks]
  have fewer {k : Key} {o : Nat} (h : m'.sessions.get? k = some o) :
      k ∉ es.map Prod.fst ∧ m.sessions.get? k = some o := by
    rw [sessions] at h
    split at h
    · cases h
    · exact ⟨‹_›, h⟩
  -- an object is taken with its own key
  have taken {k : Key} {o : Nat} {a : Object} (mem : o ∈ es.map Prod.snd) (here : m.objects[o]? = some a)
      (key : a.key = k) : k ∈ es.map Prod.fst ∧ m.sessions.get? k = some o := by
    obtain ⟨e, he, rfl⟩ := List.mem_map.mp mem
    obtain ⟨a', here', key', _⟩ := inv.registered _ _ (entries e he).1
    rw [here] at here'
    cases here'
    rw [← key, key']
    exact ⟨List.mem_map_of_mem he, (entries e he).1⟩
  have same {o : Nat} {a : Object} (mem : o ∉ es.map Prod.snd) (here : m.objects[o]? = some a) :
      m'.objects[o]? = some a := by
    have size : o < m'.objects.length := by
      rw [stops.size, objects]
      exact (List.getElem?_eq_some_iff.mp here).1
    obtain ⟨a', here', _, same, _⟩ := stops.objects o _ (List.getElem?_eq_getElem size)
    rw [objects, here] at here'
    rw [List.getElem?_eq_getElem size, same.resolve_right mem, here']
  have old {o : Nat} {b : Object} (here : m'.objects[o]? = some b) : ∃ a : Object, m.objects[o]? = some a ∧ Like a b ∧
      (o ∈ es.map Prod.snd → b.stopped = true) := by
    obtain ⟨a, here', like, _, stopped⟩ := stops.objects o b here
    rw [objects] at here'
    exact ⟨a, here', like, fun mem => (stopped mem).resolve_right List.not_mem_nil⟩
  have used {k : Key} {u : υ} (h : Serves uuid m' jobs k u) : Serves uuid m jobs k u := by
    cases h with
    | inl call => exact .inl call
    | inr registered =>
      obtain ⟨o, there, serves⟩ := registered
      refine .inr ⟨o, (fewer there).2, ?_⟩
      cases serves with
      | inl names => exact .inl names
      | inr attached =>
        obtain ⟨b, hb, session⟩ := attached
        obtain ⟨a, ha, like, _⟩ := old hb
        exact .inr ⟨a, ha, like.session.symm.trans session⟩
  refine ⟨rfl, ⟨fun c h => ?_, inv.exclusive, fun c h on => ?_, inv.prompt, fun k o h => ?_, fun c h now o pc => ?_,
    fun o b h alive => ?_, fun k k' u h h' => inv.names k k' u (used h) (used h'), inv.stopping, fun todo h k => ?_,
    fun c h o seen => ?_, fun o b h => ?_, ?_, fun o seen h => ?_, fun h => ?_⟩, stops.held.trans held⟩
  · rw [startLocks]
    split
    · rename_i mem
      obtain ⟨e, he, key⟩ := List.mem_map.mp mem
      refine .inr ⟨rfl, ?_⟩
      rw [← key]
      exact (spares e he).1
    · exact inv.locked c h
  · rw [stops.held, held]
    exact inv.held c h on
  · obtain ⟨kept, h⟩ := fewer h
    obtain ⟨a, here, key, alive⟩ := inv.registered k o h
    exact ⟨a, same (fun mem => kept (taken mem here key).1) here, key, alive⟩
  · obtain ⟨⟨a, here, key, sid, alive⟩, absent, unseen⟩ := inv.attaching c h now o pc
    have mem : o ∉ es.map Prod.snd := fun mem => by
      rw [(taken mem here key).2] at absent
      cases absent
    refine ⟨⟨a, same mem here, key, sid, alive⟩, ?_, unseen⟩
    rw [sessions, absent]
    split <;> rfl
  · obtain ⟨a, here, like, stopped⟩ := old h
    have mem : o ∉ es.map Prod.snd := fun mem => by
      rw [stopped mem] at alive
      cases alive
    rw [like.key]
    refine (inv.live o a here (like.stopped alive)).imp (fun there => ?_) id
    rw [sessions, if_neg, there]
    intro key
    obtain ⟨e, he, key⟩ := List.mem_map.mp key
    have this := (entries e he).1
    rw [key, there] at this
    cases this
    exact mem (List.mem_map_of_mem he)
  · rw [sessions, inv.cleared todo h]
    split <;> rfl
  · have there := inv.seen c h o seen
    rw [sessions, if_neg, there]
    intro key
    obtain ⟨e, he, key⟩ := List.mem_map.mp key
    rw [(spares e he).2 c h key.symm] at seen
    cases seen
  · obtain ⟨a, here, like, _⟩ := old h
    exact like.one (inv.one o a here)
  · intro x y a b ha hb alive alive' session some
    obtain ⟨a', ha', like, _⟩ := old ha
    obtain ⟨b', hb', like', _⟩ := old hb
    rw [like.session] at session some
    rw [like'.session] at session
    exact inv.object.single x y a' b' ha' hb' (like.stopped alive) (like'.stopped alive') session some
  · cases stops.log _ h with
    | inl old =>
      rw [log] at old
      exact inv.object.same o seen old
    | inr new =>
      obtain ⟨_, _, _, _, e⟩ := new
      cases e
  · cases stops.log _ h with
    | inl old =>
      rw [log] at old
      exact inv.object.unharmed old
    | inr new =>
      obtain ⟨x, mem, a, here, e⟩ := new
      rw [objects] at here
      rw [inactive mem here] at e
      cases e

/-- Two coroutines of a list, at its middle and elsewhere, count for two. -/
lemma two_le_countP {p : Job → Bool} {j j' : Job} (h : p j = true) (mem : j' ∈ before ++ after) (h' : p j' = true) :
    2 ≤ (before ++ j :: after).countP p := by
  have other : 0 < (before ++ after).countP p := List.countP_pos_iff.mpr ⟨j', mem, h'⟩
  rw [List.countP_append] at other
  rw [List.countP_append, List.countP_cons, if_pos h]
  omega

/-- The job itself. -/
lemma mem_middle {j : Job} : j ∈ before ++ j :: after := List.mem_append_right _ List.mem_cons_self

/-- Another job. -/
lemma mem_others {j j' : Job} (h : j' ∈ before ++ after) : j' ∈ before ++ j :: after := by
  rw [List.mem_append] at h
  rw [List.mem_append, List.mem_cons]
  exact h.imp id .inr

/-- A job is the one or another. -/
lemma mem_split {j j' : Job} (h : j' ∈ before ++ j :: after) : j' = j ∨ j' ∈ before ++ after := by
  rw [List.mem_append, List.mem_cons] at h
  rw [List.mem_append]
  grind

/-- No two calls for a key hold their locks. -/
lemma Kept.alone (inv : Kept uuid m (before ++ .call c :: after)) (on : c.pc.holding = true)
    (mem : .call c' ∈ before ++ after) (on' : c'.pc.holding = true) : c'.key ≠ c.key := by
  intro key
  have several : (before ++ .call c :: after).countP (Job.isFor c.key) ≤ 1 → False := by
    intro one
    have two := two_le_countP (p := Job.isFor c.key) (j := .call c) (decide_eq_true rfl) mem (decide_eq_true key)
    omega
  obtain locked | ⟨_, one⟩ := inv.locked c mem_middle
  · obtain locked' | ⟨absent, _⟩ := inv.locked c' (mem_others mem)
    · rw [key, locked] at locked'
      have lock : c'.lock = c.lock := (Option.some.inj locked').symm
      have holds : Job.holds c.lock (.call c) = true := by simp [Job.holds, on]
      have holds' : Job.holds c.lock (.call c') = true := by simp [Job.holds, on', lock]
      have two := two_le_countP holds mem holds'
      exact absurd (inv.exclusive c.lock) (by omega)
    · rw [key, locked] at absent
      cases absent
  · exact several one

/-- What holds of all calls holds when one of them has gone on. -/
lemma forall_calls {c₁ c₂ : Caller} {P : Caller → Prop} (old : ∀ c', .call c' ∈ before ++ .call c₁ :: after → P c')
    (new : P c₁ → P c₂) : ∀ c', .call c' ∈ before ++ .call c₂ :: after → P c' := by
  intro c' h
  cases mem_split h with
  | inl e =>
    rw [Job.call.inj e]
    exact new (old c₁ mem_middle)
  | inr h => exact old c' (mem_others h)

/-- What is no call stays when one goes on. -/
lemma mem_goes {j : Job} {c₁ c₂ : Caller} (h : j ∈ before ++ .call c₂ :: after) (not : ∀ c', j ≠ .call c') :
    j ∈ before ++ .call c₁ :: after :=
  (mem_split h).elim (fun e => absurd e (not _)) mem_others

/-- The sessions of a key stay when a call goes on. -/
lemma Serves.goes {c₁ c₂ : Caller} {u : υ} (h : Serves uuid m (before ++ .call c₂ :: after) k u)
    (key : c₂.key = c₁.key) : Serves uuid m (before ++ .call c₁ :: after) k u := by
  refine h.imp (fun ⟨c', mem, key', session⟩ => ?_) id
  cases mem_split mem with
  | inl e =>
    rw [Job.call.inj e, key] at key'
    exact ⟨c₁, mem_middle, key', session⟩
  | inr mem => exact ⟨c', mem_others mem, key', session⟩

/-- An attaching call is one of the others, where the one at the middle does not attach. -/
lemma attaching_goes {c₁ c₂ : Caller} {P : Caller → Int → Prop}
    (h : ∃ c' now, .call c' ∈ before ++ .call c₁ :: after ∧ c'.pc = .attaching now o ∧ P c' now)
    (not : ∀ now o, c₁.pc ≠ .attaching now o) :
    ∃ c' now, .call c' ∈ before ++ .call c₂ :: after ∧ c'.pc = .attaching now o ∧ P c' now := by
  obtain ⟨c', now, mem, pc, p⟩ := h
  cases mem_split mem with
  | inl e =>
    rw [Job.call.inj e] at pc
    exact absurd pc (not now o)
  | inr mem => exact ⟨c', now, mem_others mem, pc, p⟩

/-- A call takes its lock. -/
lemma Kept.hold (inv : Kept uuid m (before ++ .call c :: after)) (waiting : c.pc = .waiting)
    (free : c.lock ∉ m.held) :
    Kept uuid { m with held := c.lock :: m.held } (before ++ .call { c with pc := .evicting now [] } :: after) := by
  have nobody (j : Job) (h : j ∈ before ++ .call c :: after) : Job.holds c.lock j = false := by
    by_contra holds
    cases j with
    | call c' =>
      rw [Bool.not_eq_false] at holds
      replace holds : (c'.lock = c.lock && c'.pc.holding) = true := holds
      rw [Bool.and_eq_true, decide_eq_true_eq] at holds
      have held := inv.held c' h holds.2
      rw [holds.1] at held
      exact free held
    | evict _ => exact holds rfl
    | stop _ => exact holds rfl
  have count {k : Key} : (before ++ .call { c with pc := .evicting now [] } :: after).countP (Job.isFor k) =
      (before ++ .call c :: after).countP (Job.isFor k) := by
    rw [List.countP_append, List.countP_append, List.countP_cons, List.countP_cons]
    rfl
  refine ⟨forall_calls (P := fun c' => m.startLocks.get? c'.key = some c'.lock ∨
      m.startLocks.get? c'.key = none ∧ _) (fun c' h => count ▸ inv.locked c' h) id, fun l => ?_, fun c' h on => ?_,
    ⟨fun todo h => inv.prompt.1 todo (mem_goes h nofun), forall_calls inv.prompt.2 fun _ now' todo pc => ?_⟩,
    inv.registered, forall_calls inv.attaching fun _ _ _ => nofun, fun o a here alive => ?_,
    fun k k' u h h' => inv.names k k' u (h.goes rfl) (h'.goes rfl),
    fun todo h => absurd mem_middle (inv.stopping todo (mem_goes h nofun) c),
    fun todo h => absurd mem_middle (inv.stopping todo (mem_goes h nofun) c),
    forall_calls (P := fun c' => ∀ o ∈ c'.seen, m.sessions.get? c'.key = some o) inv.seen id, inv.one,
    inv.object.single, inv.object.same, inv.object.unharmed⟩
  · by_cases own : c.lock = l
    · subst own
      have none : (before ++ .call c :: after).countP (Job.holds c.lock) = 0 :=
        List.countP_eq_zero.mpr fun j h => by rw [nobody j h]; exact Bool.false_ne_true
      rw [List.countP_append, List.countP_cons] at none ⊢
      have le : (if Job.holds c.lock (.call { c with pc := .evicting now [] }) = true then 1 else 0) ≤ 1 := by
        split <;> omega
      omega
    · have not : Job.holds l (.call { c with pc := .evicting now [] }) = false := by simp [Job.holds, own]
      have exclusive := inv.exclusive l
      rw [List.countP_append, List.countP_cons] at exclusive ⊢
      rw [not]
      simp only [Bool.false_eq_true, if_false]
      omega
  · cases mem_split h with
    | inl e =>
      rw [Job.call.inj e]
      exact List.mem_cons_self
    | inr h => exact List.mem_cons_of_mem _ (inv.held c' (mem_others h) on)
  · cases pc
    rfl
  · refine (inv.live o a here alive).imp id fun h => h.imp (fun h => ?_) fun ⟨todo, mem, _⟩ => ?_
    · refine attaching_goes h fun now o pc => ?_
      rw [waiting] at pc
      cases pc
    · exact absurd mem_middle (inv.stopping todo mem c)

/-- A call makes an object for its session, which has none. -/
lemma Kept.create {db : Db} (inv : Kept uuid m (before ++ .call c :: after)) (on : c.pc.holding = true)
    (not : ∀ now o, c.pc ≠ .attaching now o) (absent : m.sessions.get? c.key = none) :
    Kept uuid (m.made c.key db)
      (before ++ .call { c with pc := .attaching now m.objects.length } :: after) := by
  have count {k : Key} : (before ++ .call { c with pc := .attaching now m.objects.length } :: after).countP
      (Job.isFor k) = (before ++ .call c :: after).countP (Job.isFor k) := by
    rw [List.countP_append, List.countP_append, List.countP_cons, List.countP_cons]
    rfl
  have holds {l : Nat} : (before ++ .call { c with pc := .attaching now m.objects.length } :: after).countP
      (Job.holds l) = (before ++ .call c :: after).countP (Job.holds l) := by
    rw [List.countP_append, List.countP_append, List.countP_cons, List.countP_cons]
    have same : Job.holds l (.call { c with pc := .attaching now m.objects.length }) = Job.holds l (.call c) := by
      show (decide (c.lock = l) && true) = (decide (c.lock = l) && c.pc.holding)
      rw [on]
    rw [same]
  have keeps {o : Nat} {a : Object} (here : m.objects[o]? = some a) : (m.made c.key db).objects[o]? = some a := by
    show (m.objects ++ [_])[o]? = some a
    rw [List.getElem?_append_left (List.getElem?_eq_some_iff.mp here).1]
    exact here
  have made {o : Nat} {a : Object} (here : (m.made c.key db).objects[o]? = some a) :
      m.objects[o]? = some a ∨ o = m.objects.length ∧ a = { key := c.key, sys := ⟨{}, db, []⟩ } := by
    replace here : (m.objects ++ [_])[o]? = some a := here
    rw [List.getElem?_append] at here
    split at here
    · exact .inl here
    · right
      have size := (List.getElem?_eq_some_iff.mp here).1
      rw [List.length_singleton] at size
      have first : o - m.objects.length = 0 := by omega
      rw [first] at here
      cases here
      exact ⟨by omega, rfl⟩
  -- no other live object serves the session
  have first {o : Nat} {a : Object} (here : m.objects[o]? = some a) (alive : a.stopped = false)
      (session : a.session uuid = c.key.session uuid) (some : c.key.session uuid ≠ none) : False := by
    obtain ⟨u, names⟩ := Option.ne_none_iff_exists'.mp some
    have own : Serves uuid m (before ++ .call c :: after) c.key u := .inl ⟨c, mem_middle, rfl, names⟩
    obtain there | ⟨c', now', mem, pc, key⟩ | ⟨todo, mem, _⟩ := inv.live o a here alive
    · have key := inv.names a.key c.key u (.inr ⟨o, there, .inr ⟨a, here, session.trans names⟩⟩) own
      rw [key, absent] at there
      cases there
    · have same : c'.key = c.key := by
        refine inv.names c'.key c.key u (.inl ⟨c', mem, rfl, ?_⟩) own
        obtain ⟨a', here', _, sid, _⟩ := (inv.attaching c' mem now' o pc).1
        rw [here] at here'
        cases here'
        exact sid.symm.trans (session.trans names)
      cases mem_split mem with
      | inl e =>
        rw [Job.call.inj e] at pc
        exact not _ _ pc
      | inr mem => exact inv.alone on mem (by rw [pc]; rfl) same
    · exact inv.stopping todo mem c mem_middle
  have serves {k : Key} {u : υ} (h : Serves uuid (m.made c.key db)
      (before ++ .call { c with pc := .attaching now m.objects.length } :: after) k u) :
      Serves uuid m (before ++ .call c :: after) k u := by
    have h : Serves uuid (m.made c.key db) (before ++ .call c :: after) k u := h.goes rfl
    refine h.imp id fun ⟨o, there, serves⟩ => ⟨o, there, serves.imp id fun ⟨a, here, session⟩ => ⟨a, ?_, session⟩⟩
    obtain ⟨a', here', _⟩ := inv.registered k o there
    rw [keeps here'] at here
    rw [here', Option.some.inj here]
  refine ⟨forall_calls (P := fun c' => m.startLocks.get? c'.key = some c'.lock ∨
      m.startLocks.get? c'.key = none ∧ _) (fun c' h => count ▸ inv.locked c' h) id, fun l => holds ▸ inv.exclusive l,
    forall_calls inv.held fun old _ => old on, ⟨fun todo h => inv.prompt.1 todo (mem_goes h nofun),
      forall_calls inv.prompt.2 fun _ _ _ => nofun⟩, fun k o h => ?_,
    @forall_calls _ _ c _ _ (fun c' h now o pc => ?_) fun _ now' o pc => ?_, fun o a here alive => ?_,
    fun k k' u h h' => inv.names k k' u (serves h) (serves h'),
    fun todo h => absurd mem_middle (inv.stopping todo (mem_goes h nofun) c),
    fun todo h => absurd mem_middle (inv.stopping todo (mem_goes h nofun) c),
    forall_calls (P := fun c' => ∀ o ∈ c'.seen, m.sessions.get? c'.key = some o) inv.seen id, fun o a here => ?_,
    fun x y a b ha hb alive alive' session some => ?_, inv.object.same, inv.object.unharmed⟩
  · obtain ⟨a, here, key, alive⟩ := inv.registered k o h
    exact ⟨a, keeps here, key, alive⟩
  · obtain ⟨⟨a, here, own, alive⟩, rest⟩ := inv.attaching c' h now o pc
    exact ⟨⟨a, keeps here, own, alive⟩, rest⟩
  · cases pc
    refine ⟨⟨{ key := c.key, sys := ⟨{}, db, []⟩ }, List.getElem?_concat_length, rfl, rfl, rfl⟩, absent, ?_⟩
    refine List.eq_nil_iff_forall_not_mem.mpr fun o h => ?_
    have there := inv.seen c mem_middle o h
    rw [absent] at there
    cases there
  · cases made here with
    | inl here =>
      refine (inv.live o a here alive).imp id fun h => h.imp (attaching_goes · not) fun ⟨todo, mem, _⟩ => ?_
      exact absurd mem_middle (inv.stopping todo mem c)
    | inr new =>
      obtain ⟨rfl, rfl⟩ := new
      exact .inr (.inl ⟨_, now, mem_middle, rfl, rfl⟩)
  · cases made here with
    | inl here => exact inv.one o a here
    | inr new =>
      rw [new.2]
      exact ⟨Nat.zero_le _, nofun⟩
  · cases made ha with
    | inl ha =>
      cases made hb with
      | inl hb => exact inv.object.single x y a b ha hb alive alive' session some
      | inr new =>
        rw [new.2] at session
        exact (first ha alive session fun none => some (session.trans none)).elim
    | inr new =>
      cases made hb with
      | inl hb =>
        rw [new.2] at session some
        exact (first hb alive' session.symm some).elim
      | inr new' => rw [new.1, new'.1]

/-! ### What is handed out -/

/-- A note keeps the key. -/
lemma note_isFor [DecidableEq υ] {ret : Option Nat} {k k' : Key} : Job.isFor k' ∘ Job.note uuid k ret = Job.isFor k' := by
  funext j
  cases j <;> rfl

/-- A note keeps the lock. -/
lemma note_holds [DecidableEq υ] {ret : Option Nat} {k : Key} {l : Nat} :
    Job.holds l ∘ Job.note uuid k ret = Job.holds l := by
  funext j
  cases j <;> rfl

/-- Nothing to note. -/
lemma note_none [DecidableEq υ] {k : Key} {jobs : List Job} : jobs.map (Job.note uuid k none) = jobs := by
  refine List.map_id'' (fun j => ?_) jobs
  cases j with
  | call c =>
    show Job.call { c with seen := if c.key.Same uuid k then c.seen ++ [] else c.seen } = .call c
    rw [List.append_nil, ite_self]
  | _ => rfl

/-- A call after a note is one of the calls before it. -/
lemma call_noted [DecidableEq υ] {ret : Option Nat} {k : Key} {jobs : List Job}
    (h : .call c' ∈ jobs.map (Job.note uuid k ret)) : ∃ c₀, .call c₀ ∈ jobs ∧
      c' = { c₀ with seen := if c₀.key.Same uuid k then c₀.seen ++ ret.toList else c₀.seen } := by
  obtain ⟨j, mem, e⟩ := List.mem_map.mp h
  cases j with
  | call c₀ => exact ⟨c₀, mem, (Job.call.inj e).symm⟩
  | evict _ => cases e
  | stop _ => cases e

/-- Notes change calls only. -/
lemma other_noted [DecidableEq υ] {ret : Option Nat} {k : Key} {jobs : List Job} {j : Job}
    (not : ∀ c', j ≠ .call c') : j ∈ jobs.map (Job.note uuid k ret) ↔ j ∈ jobs := by
  rw [List.mem_map]
  constructor
  · rintro ⟨j', mem, e⟩
    cases j' with
    | call c₀ => exact absurd e.symm (not _)
    | evict _ => exact e ▸ mem
    | stop _ => exact e ▸ mem
  · intro mem
    cases j with
    | call c₀ => exact absurd rfl (not c₀)
    | evict _ => exact ⟨_, mem, rfl⟩
    | stop _ => exact ⟨_, mem, rfl⟩

/-- What is left when a call is done is what was there. -/
lemma countP_done [DecidableEq υ] {p : Job → Bool} {j : Job} {ret : Option Nat} {k : Key}
    (same : p ∘ Job.note uuid k ret = p) :
    (before.map (Job.note uuid k ret) ++ after.map (Job.note uuid k ret)).countP p ≤
      (before ++ j :: after).countP p := by
  rw [List.countP_append, List.countP_map, List.countP_map, same, List.countP_append, List.countP_cons]
  omega

/-- A call is handed the object of its session. -/
lemma Kept.hand [DecidableEq υ] (inv : Kept uuid m (before ++ .call c :: after)) (on : c.pc.holding = true)
    (which : m.sessions.get? c.key = some o ∨ ∃ now, c.pc = .attaching now o) :
    Kept uuid (m.hand c now o)
      (before.map (Job.note uuid c.key (some o)) ++ after.map (Job.note uuid c.key (some o))) := by
  have sessions {k : Key} : (m.hand c now o).sessions.get? k = if k = c.key then some o else m.sessions.get? k :=
    Dict.get?_set
  have known : ∀ o', m.sessions.get? c.key = some o' → o' = o := by
    intro o' there
    cases which with
    | inl here =>
      rw [there] at here
      exact Option.some.inj here
    | inr pc =>
      obtain ⟨now', pc⟩ := pc
      rw [(inv.attaching c mem_middle now' o pc).2.1] at there
      cases there
  have call {c' : Caller} (h : .call c' ∈ before.map (Job.note uuid c.key (some o)) ++
      after.map (Job.note uuid c.key (some o))) : ∃ c₀, .call c₀ ∈ before ++ after ∧
      c' = { c₀ with seen := if c₀.key.Same uuid c.key then c₀.seen ++ [o] else c₀.seen } := by
    rw [← List.map_append] at h
    exact call_noted h
  have others {j : Job} (not : ∀ c', j ≠ .call c') : j ∈ before.map (Job.note uuid c.key (some o)) ++
      after.map (Job.note uuid c.key (some o)) ↔ j ∈ before ++ after := by
    rw [← List.map_append]
    exact other_noted not
  have used {k : Key} {u : υ} (h : Serves uuid (m.hand c now o) (before.map (Job.note uuid c.key (some o)) ++
      after.map (Job.note uuid c.key (some o))) k u) : Serves uuid m (before ++ .call c :: after) k u := by
    cases h with
    | inl h =>
      obtain ⟨c', noted, key, session⟩ := h
      obtain ⟨c₀, mem, rfl⟩ := call noted
      exact .inl ⟨c₀, mem_others mem, key, session⟩
    | inr h =>
      obtain ⟨o', there, serves⟩ := h
      rw [sessions] at there
      split at there
      · rename_i key
        cases there
        rw [key] at serves ⊢
        cases which with
        | inl there => exact .inr ⟨o, there, serves⟩
        | inr pc =>
          -- a new object is attached to the session of its key
          refine .inl ⟨c, mem_middle, rfl, ?_⟩
          cases serves with
          | inl names => exact names
          | inr attached =>
            obtain ⟨a, here, session⟩ := attached
            obtain ⟨now', pc⟩ := pc
            obtain ⟨a', here', _, sid, _⟩ := (inv.attaching c mem_middle now' o pc).1
            replace here : m.objects[o]? = some a := here
            rw [here'] at here
            cases here
            exact sid.symm.trans session
      · exact .inr ⟨o', there, serves⟩
  -- calls that overlap for the session have the same key
  have same {c₀ : Caller} (mem : .call c₀ ∈ before ++ after) (same : c₀.key.Same uuid c.key) : c₀.key = c.key := by
    cases same with
    | inl key => exact key
    | inr both =>
      obtain ⟨u, names⟩ := Option.ne_none_iff_exists'.mp both.2.2
      exact inv.names c₀.key c.key u (.inl ⟨c₀, mem_others mem, rfl, names⟩)
        (.inl ⟨c, mem_middle, rfl, both.2.1.symm.trans names⟩)
  have object : ∃ a : Object, m.objects[o]? = some a ∧ a.key = c.key ∧ a.stopped = false := by
    cases which with
    | inl there => exact inv.registered _ _ there
    | inr pc =>
      obtain ⟨now', pc⟩ := pc
      obtain ⟨a, here, key, _, alive⟩ := (inv.attaching c mem_middle now' o pc).1
      exact ⟨a, here, key, alive⟩
  refine ⟨fun c' h => ?_, fun l => ?_, fun c' h on' => ?_, ⟨fun todo h => ?_, fun c' h now' todo pc => ?_⟩,
    fun k o' there => ?_, fun c' h now' o' pc => ?_, fun o' a here alive => ?_,
    fun k k' u h h' => inv.names k k' u (used h) (used h'), fun todo h c' h' => ?_, fun todo h k => ?_, fun c' h o' seen => ?_,
    inv.one, inv.object.single, fun o' seen h => ?_, fun h => ?_⟩
  · obtain ⟨c₀, mem, rfl⟩ := call h
    exact (inv.locked c₀ (mem_others mem)).imp id (And.imp_right (Nat.le_trans (countP_done note_isFor)))
  · exact Nat.le_trans (countP_done note_holds) (inv.exclusive l)
  · obtain ⟨c₀, mem, rfl⟩ := call h
    refine List.mem_filter.mpr ⟨inv.held c₀ (mem_others mem) on', decide_eq_true fun lock => ?_⟩
    have holds : Job.holds c.lock (.call c) = true := by simp [Job.holds, on]
    have holds' : Job.holds c.lock (.call c₀) = true := by
      show (decide (c₀.lock = c.lock) && c₀.pc.holding) = true
      rw [on', decide_eq_true lock]
      rfl
    have two := two_le_countP holds mem holds'
    exact absurd (inv.exclusive c.lock) (by omega)
  · exact inv.prompt.1 todo (mem_others ((others (j := .evict todo) fun _ e => Job.noConfusion e).mp h))
  · obtain ⟨c₀, mem, rfl⟩ := call h
    exact inv.prompt.2 c₀ (mem_others mem) now' todo pc
  · rw [sessions] at there
    split at there
    · rename_i key
      cases there
      rw [key]
      exact object
    · exact inv.registered k o' there
  · obtain ⟨c₀, mem, rfl⟩ := call h
    obtain ⟨there, absent, unseen⟩ := inv.attaching c₀ (mem_others mem) now' o' pc
    have other : c₀.key ≠ c.key := inv.alone on mem (by rw [show c₀.pc = _ from pc]; rfl)
    refine ⟨there, ?_, ?_⟩
    · show (m.hand c now o).sessions.get? c₀.key = none
      rw [sessions, if_neg other]
      exact absent
    · show (if c₀.key.Same uuid c.key then c₀.seen ++ [o] else c₀.seen) = []
      rw [if_neg fun s => other (same mem s)]
      exact unseen
  · obtain there | ⟨c', now', mem, pc, key⟩ | ⟨todo, mem, _⟩ := inv.live o' a here alive
    · left
      rw [sessions]
      split
      · rename_i key
        rw [known o' (key ▸ there)]
      · exact there
    · cases mem_split mem with
      | inl e =>
        left
        rw [Job.call.inj e] at pc key
        rw [sessions, if_pos key.symm]
        cases which with
        | inl there =>
          rw [(inv.attaching c mem_middle now' o' pc).2.1] at there
          cases there
        | inr pc' =>
          obtain ⟨now'', pc'⟩ := pc'
          rw [pc] at pc'
          cases pc'
          rfl
      | inr mem =>
        refine .inr (.inl ⟨{ c' with seen := if c'.key.Same uuid c.key then c'.seen ++ [o] else c'.seen }, now', ?_, pc,
          key⟩)
        rw [← List.map_append]
        exact List.mem_map.mpr ⟨.call c', mem, rfl⟩
    · exact absurd mem_middle (inv.stopping todo mem c)
  · exact inv.stopping todo (mem_others ((others (j := .stop todo) fun _ e => Job.noConfusion e).mp h)) c mem_middle
  · exact absurd mem_middle (inv.stopping todo (mem_others ((others (j := .stop todo) fun _ e => Job.noConfusion e).mp h)) c)
  · obtain ⟨c₀, mem, rfl⟩ := call h
    show (m.hand c now o).sessions.get? c₀.key = some o'
    rw [sessions]
    replace seen : o' ∈ (if c₀.key.Same uuid c.key then c₀.seen ++ [o] else c₀.seen) := seen
    by_cases alike : c₀.key.Same uuid c.key
    · have key := same mem alike
      rw [if_pos alike] at seen
      rw [if_pos key]
      cases List.mem_append.mp seen with
      | inl old => rw [known o' (key ▸ inv.seen c₀ (mem_others mem) o' old)]
      | inr new => rw [List.mem_singleton.mp new]
    · have other : c₀.key ≠ c.key := fun key => alike (.inl key)
      rw [if_neg alike] at seen
      rw [if_neg other]
      exact inv.seen c₀ (mem_others mem) o' seen
  · cases List.mem_cons.mp h with
    | inl new =>
      cases new
      exact fun o' mem => known o' (inv.seen c mem_middle o' mem)
    | inr old => exact inv.object.same o' seen old
  · cases List.mem_cons.mp h with
    | inl new => cases new
    | inr old => exact inv.object.unharmed old

/-- A call is done without an object. -/
lemma Kept.miss (inv : Kept uuid m (before ++ .call c :: after)) (on : c.pc.holding = true)
    (not : ∀ now o, c.pc ≠ .attaching now o) :
    Kept uuid { m with held := m.held.filter (· ≠ c.lock) } (before ++ after) := by
  have fewer {p : Job → Bool} : (before ++ after).countP p ≤ (before ++ .call c :: after).countP p := by
    rw [List.countP_append, List.countP_append, List.countP_cons]
    omega
  have used {k : Key} {u : υ} (h : Serves uuid m (before ++ after) k u) :
      Serves uuid m (before ++ .call c :: after) k u :=
    h.imp (fun ⟨c', mem, names⟩ => ⟨c', mem_others mem, names⟩) id
  refine ⟨fun c' h => ?_, fun l => Nat.le_trans fewer (inv.exclusive l), fun c' h on' => ?_,
    ⟨fun todo h => inv.prompt.1 todo (mem_others h), fun c' h => inv.prompt.2 c' (mem_others h)⟩, inv.registered,
    fun c' h => inv.attaching c' (mem_others h), fun o a here alive => ?_,
    fun k k' u h h' => inv.names k k' u (used h) (used h'),
    fun todo h => absurd mem_middle (inv.stopping todo (mem_others h) c),
    fun todo h => absurd mem_middle (inv.stopping todo (mem_others h) c), fun c' h => inv.seen c' (mem_others h),
    inv.one, inv.object.single, inv.object.same, inv.object.unharmed⟩
  · exact (inv.locked c' (mem_others h)).imp id (And.imp_right (Nat.le_trans fewer))
  · refine List.mem_filter.mpr ⟨inv.held c' (mem_others h) on', decide_eq_true fun lock => ?_⟩
    have holds : Job.holds c.lock (.call c) = true := by simp [Job.holds, on]
    have holds' : Job.holds c.lock (.call c') = true := by
      show (decide (c'.lock = c.lock) && c'.pc.holding) = true
      rw [on', decide_eq_true lock]
      rfl
    have two := two_le_countP holds h holds'
    exact absurd (inv.exclusive c.lock) (by omega)
  · refine (inv.live o a here alive).imp id fun h => h.imp (fun ⟨c', now, mem, pc, key⟩ => ?_) fun ⟨todo, mem, _⟩ => ?_
    · cases mem_split mem with
      | inl e =>
        rw [Job.call.inj e] at pc
        exact absurd pc (not _ _)
      | inr mem => exact ⟨c', now, mem, pc, key⟩
    · exact absurd mem_middle (inv.stopping todo mem c)

/-- A call enters once it has evicted. -/
lemma Kept.enter [DecidableEq υ] {ret : Option Nat} (inv : Kept uuid m (before ++ .call c :: after))
    (on : c.pc.holding = true) (not : ∀ now o, c.pc ≠ .attaching now o) (h : Enter m c now m' out ret) :
    Kept uuid m' (before.map (Job.note uuid c.key ret) ++ out ++ after.map (Job.note uuid c.key ret)) := by
  cases h with
  | found there =>
    rw [List.append_nil]
    exact inv.hand on (.inl there)
  | missing absent =>
    rw [note_none, note_none, List.append_nil]
    exact inv.miss on not
  | @starts db absent _ =>
    rw [List.append_nil]
    have made : Kept uuid (m.made c.key db) (before ++ .call { c with pc := .attaching now _ } :: after) :=
      inv.create on not absent
    exact made.hand rfl (.inr ⟨now, rfl⟩)
  | attaches absent _ =>
    rw [note_none, note_none, List.append_assoc]
    exact inv.create on not absent

/-! ### Beginnings -/

/-- A call begins, with the lock of the calls for its key or as the only one. -/
lemma Kept.begin {l : Nat} (inv : Kept uuid m jobs) (stops : ∀ todo, .stop todo ∉ jobs)
    (name : ∀ k' u, k.session uuid = some u → Serves uuid m jobs k' u → k' = k)
    (locks : ∀ k', m'.startLocks.get? k' = if k' = k then some l else m.startLocks.get? k')
    (known : m.startLocks.get? k = some l ∨ ∀ c, .call c ∈ jobs → c.key ≠ k)
    (same : m'.sessions = m.sessions ∧ m'.held = m.held ∧ m'.objects = m.objects ∧ m'.log = m.log) :
    Kept uuid m' (jobs ++ [.call ⟨k, l, .waiting, []⟩]) := by
  obtain ⟨sessions, held, objects, log⟩ := same
  have call {c' : Caller} {P : Prop} (h : .call c' ∈ jobs ++ [.call ⟨k, l, .waiting, []⟩])
      (old : .call c' ∈ jobs → P) (new : c' = ⟨k, l, .waiting, []⟩ → P) : P := by
    rw [List.mem_append, List.mem_singleton] at h
    exact h.elim old fun e => new (Job.call.inj e)
  have other {j : Job} (h : j ∈ jobs ++ [.call ⟨k, l, .waiting, []⟩]) (not : ∀ c', j ≠ .call c') : j ∈ jobs := by
    rw [List.mem_append, List.mem_singleton] at h
    exact h.resolve_right (not _)
  have used {k' : Key} {u : υ} (h : Serves uuid m' (jobs ++ [.call ⟨k, l, .waiting, []⟩]) k' u) :
      k' = k ∧ k.session uuid = some u ∨ Serves uuid m jobs k' u := by
    cases h with
    | inl h =>
      obtain ⟨c', mem, key, names⟩ := h
      refine call mem (fun old => .inr (.inl ⟨c', old, key, names⟩)) fun new => .inl ?_
      rw [new] at key
      exact ⟨key.symm, (show k = k' from key) ▸ names⟩
    | inr h =>
      rw [sessions, objects] at h
      exact .inr (.inr h)
  refine ⟨fun c' h => ?_, fun l' => ?_, fun c' h on => ?_, ⟨fun todo h => inv.prompt.1 todo (other h nofun),
    fun c' h now todo pc => ?_⟩, fun k' o h => ?_, fun c' h now o pc => ?_, fun o a here alive => ?_,
    fun k₁ k₂ u h₁ h₂ => ?_, fun todo h => absurd (other h nofun) (stops todo),
    fun todo h => absurd (other h nofun) (stops todo), fun c' h o seen => ?_, fun o a here => ?_, ?_, ?_, ?_⟩
  · refine call h (fun old => ?_) fun new => ?_
    · rw [locks]
      split
      · rename_i key
        left
        cases known with
        | inl known =>
          cases inv.locked c' old with
          | inl locked =>
            rw [key, known] at locked
            exact locked
          | inr absent =>
            rw [key, known] at absent
            cases absent.1
        | inr none => exact absurd key (none c' old)
      · rename_i other
        refine (inv.locked c' old).imp id (And.imp_right fun one => ?_)
        have zero : [Job.call ⟨k, l, .waiting, []⟩].countP (Job.isFor c'.key) = 0 := by
          rw [List.countP_singleton, if_neg]
          exact fun h => other (of_decide_eq_true h).symm
        rw [List.countP_append, zero]
        exact one
    · rw [new, locks, if_pos rfl]
      exact .inl rfl
  · have zero : [Job.call ⟨k, l, .waiting, []⟩].countP (Job.holds l') = 0 := by
      rw [List.countP_singleton, if_neg]
      simp [Job.holds, CallPc.holding]
    rw [List.countP_append, zero]
    exact inv.exclusive l'
  · refine call h (fun old => held ▸ inv.held c' old on) fun new => ?_
    rw [new] at on
    cases on
  · refine call h (fun old => inv.prompt.2 c' old now todo pc) fun new => ?_
    rw [new] at pc
    cases pc
  · rw [sessions] at h
    rw [objects]
    exact inv.registered k' o h
  · refine call h (fun old => ?_) fun new => ?_
    · rw [objects, sessions]
      exact inv.attaching c' old now o pc
    · rw [new] at pc
      cases pc
  · rw [objects] at here
    rw [sessions]
    refine (inv.live o a here alive).imp id (Or.imp ?_ ?_)
    · exact Exists.imp fun _ => Exists.imp fun _ => And.imp_left (List.mem_append_left _)
    · exact Exists.imp fun _ => And.imp_left (List.mem_append_left _)
  · obtain ⟨rfl, names⟩ | used₁ := used h₁
    · obtain ⟨rfl, _⟩ | used₂ := used h₂
      · rfl
      · exact (name k₂ u names used₂).symm
    · obtain ⟨rfl, names⟩ | used₂ := used h₂
      · exact name k₁ u names used₁
      · exact inv.names k₁ k₂ u used₁ used₂
  · refine call h (fun old => ?_) fun new => ?_
    · rw [sessions]
      exact inv.seen c' old o seen
    · rw [new] at seen
      cases seen
  · rw [objects] at here
    exact inv.one o a here
  · rw [objects]
    exact inv.object.single
  · rw [log]
    exact inv.object.same
  · rw [log]
    exact inv.object.unharmed

/-- While there are no calls and no entries the objects are being stopped. -/
lemma Kept.quiet (calls : ∀ c, .call c ∉ jobs) (evicts : ∀ todo, .evict todo ∉ jobs)
    (none : ∀ k, m.sessions.get? k = none)
    (live : ∀ (o : Nat) (a : Object), m.objects[o]? = some a → a.stopped = false → ∃ todo, .stop todo ∈ jobs ∧ o ∈ todo)
    (one : ∀ (o : Nat) (a : Object), m.objects[o]? = some a → OneTurn a.sys) (object : OneObject uuid m) :
    Kept uuid m jobs := by
  refine ⟨fun c h => absurd h (calls c), fun l => ?_, fun c h => absurd h (calls c),
    ⟨evicts, fun c h => absurd h (calls c)⟩, fun k o h => ?_, fun c h => absurd h (calls c),
    fun o a here alive => .inr (.inr (live o a here alive)), fun k k' u h => ?_, fun _ _ => calls, fun _ _ => none,
    fun c h => absurd h (calls c), one, object⟩
  · rw [List.countP_eq_zero.mpr]
    · exact Nat.zero_le _
    · intro j h
      cases j with
      | call c => exact absurd h (calls c)
      | evict _ => exact Bool.false_ne_true
      | stop _ => exact Bool.false_ne_true
  · rw [none] at h
    cases h
  · obtain ⟨c, mem, _⟩ | ⟨o, there, _⟩ := h
    · exact absurd mem (calls c)
    · rw [none] at there
      cases there

/-- Stopping keeps one object. -/
lemma OneObject.stops (object : OneObject uuid m) {all rest : List Nat} (h : Stops false m m' all rest) :
    OneObject uuid m' := by
  refine ⟨fun x y a b ha hb alive alive' session some => ?_, fun o seen mem => ?_, fun mem => ?_⟩
  · obtain ⟨a', ha', like, _⟩ := h.objects x a ha
    obtain ⟨b', hb', like', _⟩ := h.objects y b hb
    rw [like.session] at session some
    rw [like'.session] at session
    exact object.single x y a' b' ha' hb' (like.stopped alive) (like'.stopped alive') session some
  · cases h.log _ mem with
    | inl old => exact object.same o seen old
    | inr new =>
      obtain ⟨_, _, _, _, e⟩ := new
      cases e
  · cases h.log _ mem with
    | inl old => exact object.unharmed old
    | inr new =>
      obtain ⟨_, _, _, _, e⟩ := new
      cases e

/-- All objects are stopped, up to one whose task has to end. -/
lemma Kept.stop {all : List Nat} (inv : Kept uuid m jobs) (calls : ∀ c, .call c ∉ jobs)
    (mem : ∀ o, o ∈ all ↔ ∃ k, m.sessions.get? k = some o)
    (h : { m with sessions := .empty, lastUsed := .empty, startLocks := .empty }.stopAll false all = (m', todo)) :
    Kept uuid m' (jobs ++ if todo = [] then [] else [.stop todo]) := by
  have stops := Registry.stopAll_spec h
  have cleared : OneObject uuid { m with sessions := .empty, lastUsed := .empty, startLocks := .empty } :=
    ⟨inv.object.single, inv.object.same, inv.object.unharmed⟩
  have new {j : Job} (h : j ∈ if todo = [] then [] else [Job.stop todo]) : j = .stop todo := by
    split at h
    · cases h
    · exact List.mem_singleton.mp h
  refine .quiet (fun c h => ?_) (fun todo' h => ?_) (fun k => ?_) (fun o b here alive => ?_) (fun o b here => ?_)
    (cleared.stops stops)
  · exact (List.mem_append.mp h).elim (calls c) fun h => nomatch new h
  · exact (List.mem_append.mp h).elim (inv.prompt.1 todo') fun h => nomatch new h
  · rw [stops.sessions]
    rfl
  · obtain ⟨a, here', like, _, done⟩ := stops.objects o b here
    obtain there | ⟨c, _, mem', _⟩ | ⟨todo', mem', rest⟩ := inv.live o a here' (like.stopped alive)
    · have waits : o ∈ todo := by
        refine (done ((mem o).mpr ⟨_, there⟩)).resolve_left fun stopped => ?_
        rw [alive] at stopped
        cases stopped
      refine ⟨todo, List.mem_append_right _ ?_, waits⟩
      rw [if_neg (List.ne_nil_of_mem waits)]
      exact List.mem_singleton.mpr rfl
    · exact absurd mem' (calls c)
    · exact ⟨todo', List.mem_append_left _ mem', rest⟩
  · obtain ⟨a, here', like, _⟩ := stops.objects o b here
    exact like.one (inv.one o a here')

/-- The stop of all objects goes on. -/
lemma Kept.stopMore {a : Object} {todo' : List Nat} (inv : Kept uuid m (before ++ .stop (o :: todo) :: after))
    (here : m.objects[o]? = some a) (h : (m.ended o).stopAll false todo = (m', todo')) :
    Kept uuid m' (before ++ (if todo' = [] then [] else [.stop todo']) ++ after) := by
  have stops : Stops false m m' ([o] ++ todo) todo' := (Registry.ended_spec here).trans (Registry.stopAll_spec h)
  have mem {j : Job} (h : j ∈ before ++ (if todo' = [] then [] else [.stop todo']) ++ after) :
      j = .stop todo' ∨ j ∈ before ++ .stop (o :: todo) :: after := by
    rw [List.mem_append, List.mem_append] at h
    rw [List.mem_append, List.mem_cons]
    obtain (h | h) | h := h
    · exact .inr (.inl h)
    · split at h
      · cases h
      · exact .inl (List.mem_singleton.mp h)
    · exact .inr (.inr (.inr h))
  refine .quiet (fun c h => ?_) (fun todo₁ h => ?_) (fun k => ?_) (fun x b here' alive => ?_) (fun x b here' => ?_)
    (inv.object.stops stops)
  · exact (mem h).elim nofun (inv.stopping _ mem_middle c)
  · exact (mem h).elim nofun (inv.prompt.1 todo₁)
  · rw [stops.sessions]
    exact inv.cleared _ mem_middle k
  · obtain ⟨a', here₁, like, _, done⟩ := stops.objects x b here'
    obtain there | ⟨c, _, mem', _⟩ | ⟨todo₁, mem', rest⟩ := inv.live x a' here₁ (like.stopped alive)
    · rw [inv.cleared _ mem_middle] at there
      cases there
    · exact absurd mem' (inv.stopping _ mem_middle c)
    · cases mem_split mem' with
      | inl e =>
        rw [Job.stop.inj e] at rest
        have waits : x ∈ todo' := by
          refine (done rest).resolve_left fun stopped => ?_
          rw [alive] at stopped
          cases stopped
        refine ⟨todo', List.mem_append_left _ (List.mem_append_right _ ?_), waits⟩
        rw [if_neg (List.ne_nil_of_mem waits)]
        exact List.mem_singleton.mpr rfl
      | inr mem' =>
        refine ⟨todo₁, ?_, rest⟩
        rw [List.mem_append, List.mem_append]
        exact (List.mem_append.mp mem').elim (fun h => .inl (.inl h)) .inr
  · obtain ⟨a', here₁, like, _⟩ := stops.objects x b here'
    exact like.one (inv.one x a' here₁)

/-- A coroutine of an object takes a step, on whatever the database holds. -/
lemma Kept.acts {a : Object} {db : Db} {act : Session.Act} {sys : Session.System} (inv : Kept uuid m jobs)
    (here : m.objects[o]? = some a) (st : Session.Step ⟨a.sys.live, db, a.sys.procs⟩ act sys) (calm : Calm a.sys act) :
    Kept uuid { m with objects := m.objects.set o { a with sys } } jobs := by
  have old {x : Nat} {b : Object} (h : (m.objects.set o { a with sys })[x]? = some b) :
      ∃ b', m.objects[x]? = some b' ∧ b.key = b'.key ∧ b.sid = b'.sid ∧ b.stopped = b'.stopped := by
    rw [List.getElem?_set] at h
    split at h
    · rename_i same
      split at h
      · cases h
        exact ⟨a, same ▸ here, rfl, rfl, rfl⟩
      · cases h
    · exact ⟨b, h, rfl, rfl, rfl⟩
  have new {x : Nat} {b' : Object} (h : m.objects[x]? = some b') :
      ∃ b, (m.objects.set o { a with sys })[x]? = some b ∧ b.key = b'.key ∧ b.sid = b'.sid ∧
        b.stopped = b'.stopped := by
    rw [List.getElem?_set]
    split
    · rename_i same
      subst same
      rw [here] at h
      cases h
      rw [if_pos (List.getElem?_eq_some_iff.mp here).1]
      exact ⟨_, rfl, rfl, rfl, rfl⟩
    · exact ⟨b', h, rfl, rfl, rfl⟩
  have one : OneTurn sys := by
    have before : OneTurn ⟨a.sys.live, db, a.sys.procs⟩ := ⟨(inv.one o a here).single, (inv.one o a here).active⟩
    refine before.step ⟨?_, st⟩
    cases act <;> exact calm
  have serves {k : Key} {u : υ} (h : Serves uuid { m with objects := m.objects.set o { a with sys } } jobs k u) :
      Serves uuid m jobs k u := by
    refine h.imp id fun ⟨x, there, serves⟩ => ⟨x, there, serves.imp id fun ⟨b, hb, session⟩ => ?_⟩
    obtain ⟨b', hb', _, sid, _⟩ := old hb
    exact ⟨b', hb', by rw [Object.session, ← sid]; exact session⟩
  refine ⟨inv.locked, inv.exclusive, inv.held, inv.prompt, fun k x h => ?_, fun c h now x pc => ?_,
    fun x b h alive => ?_, fun k k' u h h' => inv.names k k' u (serves h) (serves h'), inv.stopping, inv.cleared, inv.seen, fun x b h => ?_,
    fun x y b c hb hc alive alive' session some => ?_, inv.object.same, inv.object.unharmed⟩
  · obtain ⟨b', h, key, alive⟩ := inv.registered k x h
    obtain ⟨b, h, key', _, stopped⟩ := new h
    exact ⟨b, h, key'.trans key, stopped.trans alive⟩
  · obtain ⟨⟨b', h, key, sid, alive⟩, rest⟩ := inv.attaching c h now x pc
    obtain ⟨b, h, key', sid', stopped⟩ := new h
    exact ⟨⟨b, h, key'.trans key, (congrArg (sessionOf uuid) sid').trans sid, stopped.trans alive⟩, rest⟩
  · obtain ⟨b', h, key, _, stopped⟩ := old h
    rw [key]
    exact inv.live x b' h (stopped ▸ alive)
  · replace h : (m.objects.set o { a with sys })[x]? = some b := h
    rw [List.getElem?_set] at h
    split at h
    · split at h
      · cases h
        exact one
      · cases h
    · exact inv.one x b h
  · obtain ⟨b', hb, _, sid, stopped⟩ := old hb
    obtain ⟨c', hc, _, sid', stopped'⟩ := old hc
    rw [Object.session, sid] at session some
    rw [Object.session, sid'] at session
    exact inv.object.single x y b' c' hb hc (stopped ▸ alive) (stopped' ▸ alive') session some

/-- An entry point attaches an object to its session. -/
lemma Kept.attach {a : Object} {sid : String} (inv : Kept uuid m jobs) (here : m.objects[o]? = some a)
    (ok : a.stopped = false → sessionOf uuid sid = a.session uuid ∨ ∃ k, m.sessions.get? k = some o ∧
      ∀ k' u, sessionOf uuid sid = some u → Serves uuid m jobs k' u → k' = k) :
    Kept uuid { m with objects := m.objects.set o { a with sid } } jobs := by
  have old {x : Nat} {b : Object} (h : (m.objects.set o { a with sid })[x]? = some b) :
      x = o ∧ b = { a with sid } ∨ x ≠ o ∧ m.objects[x]? = some b := by
    rw [List.getElem?_set] at h
    split at h
    · rename_i same
      split at h
      · exact .inl ⟨same.symm, (Option.some.inj h).symm⟩
      · cases h
    · rename_i other
      exact .inr ⟨Ne.symm other, h⟩
  have new : (m.objects.set o { a with sid })[o]? = some { a with sid } := by
    rw [List.getElem?_set, if_pos rfl, if_pos (List.getElem?_eq_some_iff.mp here).1]
  have kept {x : Nat} {b : Object} (other : x ≠ o) (h : m.objects[x]? = some b) :
      (m.objects.set o { a with sid })[x]? = some b := by
    rw [List.getElem?_set, if_neg (Ne.symm other), h]
  -- an object in the table has its key and is not stopped
  have listed {k : Key} (there : m.sessions.get? k = some o) : a.key = k ∧ a.stopped = false := by
    obtain ⟨a', here', own⟩ := inv.registered k o there
    rw [here] at here'
    exact Option.some.inj here' ▸ own
  have serves {k : Key} {u : υ} (h : Serves uuid { m with objects := m.objects.set o { a with sid } } jobs k u) :
      Serves uuid m jobs k u ∨ m.sessions.get? k = some o ∧ sessionOf uuid sid = some u := by
    rcases h with call | ⟨x, there, names | ⟨b, hb, session⟩⟩
    · exact .inl (.inl call)
    · exact .inl (.inr ⟨x, there, .inl names⟩)
    · rcases old hb with ⟨rfl, rfl⟩ | ⟨_, hb⟩
      · exact .inr ⟨there, session⟩
      · exact .inl (.inr ⟨x, there, .inr ⟨b, hb, session⟩⟩)
  have moved {k k' : Key} {u : υ} (there : m.sessions.get? k = some o) (session : sessionOf uuid sid = some u)
      (h : Serves uuid m jobs k' u) : k' = k := by
    obtain ⟨key, alive⟩ := listed there
    rcases ok alive with same | ⟨k₀, there', only⟩
    · exact inv.names k' k u h (.inr ⟨o, there, .inr ⟨a, here, same.symm.trans session⟩⟩)
    · exact (only k' u session h).trans ((listed there').1.symm.trans key)
  -- another live object is not attached to the session
  have apart {y : Nat} {b : Object} (other : y ≠ o) (hb : m.objects[y]? = some b) (alive : a.stopped = false)
      (alive' : b.stopped = false) (session : sessionOf uuid sid = b.session uuid) (some : b.session uuid ≠ none) :
      False := by
    rcases ok alive with same | ⟨k, there, only⟩
    · exact other (inv.object.single y o b a hb here alive' alive (session.symm.trans same) some)
    · obtain ⟨u, names⟩ := Option.ne_none_iff_exists'.mp some
      have serves : ∀ k', Serves uuid m jobs k' u → k' = k := fun k' => only k' u (session.trans names)
      obtain there' | ⟨c, now, mem, pc, _⟩ | ⟨todo, mem, _⟩ := inv.live y b hb alive'
      · have key := serves b.key (.inr ⟨y, there', .inr ⟨b, hb, names⟩⟩)
        rw [key, there] at there'
        exact other (Option.some.inj there').symm
      · obtain ⟨⟨b', hb', _, sid', _⟩, absent, _⟩ := inv.attaching c mem now y pc
        rw [hb] at hb'
        cases hb'
        have key := serves c.key (.inl ⟨c, mem, rfl, sid'.symm.trans names⟩)
        rw [key, there] at absent
        cases absent
      · rw [inv.cleared todo mem] at there
        cases there
  refine ⟨inv.locked, inv.exclusive, inv.held, inv.prompt, fun k x there => ?_, fun c h now x pc => ?_,
    fun x b hb alive => ?_, fun k k' u h h' => ?_, inv.stopping, inv.cleared, inv.seen, fun x b hb => ?_,
    fun x y b b' hb hb' alive alive' session some => ?_, inv.object.same, inv.object.unharmed⟩
  · obtain ⟨b, hb, key, alive⟩ := inv.registered k x there
    by_cases same : x = o
    · subst same
      exact ⟨_, new, (listed there).1, (listed there).2⟩
    · exact ⟨b, kept same hb, key, alive⟩
  · obtain ⟨⟨b, hb, key, own, alive⟩, absent, unseen⟩ := inv.attaching c h now x pc
    refine ⟨?_, absent, unseen⟩
    by_cases same : x = o
    · subst same
      rw [here] at hb
      cases hb
      rcases ok alive with session | ⟨k, there, -⟩
      · exact ⟨_, new, key, session.trans own, alive⟩
      · rw [← key, (listed there).1, there] at absent
        cases absent
    · exact ⟨b, kept same hb, key, own, alive⟩
  · rcases old hb with ⟨rfl, rfl⟩ | ⟨_, hb⟩
    · exact inv.live x a here alive
    · exact inv.live x b hb alive
  · rcases serves h with h | ⟨there, session⟩
    · rcases serves h' with h' | ⟨there', session'⟩
      · exact inv.names k k' u h h'
      · exact moved there' session' h
    · rcases serves h' with h' | ⟨there', -⟩
      · exact (moved there session h').symm
      · exact (listed there).1.symm.trans (listed there').1
  · rcases old hb with ⟨rfl, rfl⟩ | ⟨_, hb⟩
    · exact inv.one x a here
    · exact inv.one x b hb
  · rcases old hb with ⟨rfl, rfl⟩ | ⟨ne, was⟩
    · rcases old hb' with ⟨rfl, -⟩ | ⟨ne', was'⟩
      · rfl
      · exact (apart ne' was' alive alive' session (session ▸ some)).elim
    · rcases old hb' with ⟨rfl, rfl⟩ | ⟨_, was'⟩
      · exact (apart ne was alive' alive session.symm some).elim
      · exact inv.object.single x y b b' was was' alive alive' session some

/-- A call that has evicted enters as it would have without. -/
lemma Enter.evicted {ret : Option Nat} {pc : CallPc} (h : Enter m c now m' out ret) :
    Enter m { c with pc } now m' out ret := by
  cases h with
  | found there => exact .found (c := { c with pc }) there
  | missing absent => exact .missing (c := { c with pc }) absent
  | starts absent empty => exact .starts (c := { c with pc }) absent empty
  | attaches absent some => exact .attaches (c := { c with pc }) absent some

/-- The call that evicts is spared like the others. -/
lemma Spares.hold (h : Spares (before ++ .call c :: after) es) :
    Spares (before ++ .call { c with pc := .evicting now [] } :: after) es := by
  intro e he
  obtain ⟨one, unseen⟩ := h e he
  refine ⟨?_, forall_calls (P := fun c' => c'.key = e.1 → c'.seen = []) unseen fun old => old⟩
  rw [List.countP_append, List.countP_cons] at one ⊢
  exact one

end

section
variable [DecidableEq υ] {uuid : String → Option υ} {s t : System} {a : Act} {as : List Act}

/-- An orderly step keeps the invariant. -/
lemma Kept.step (inv : Kept uuid s.reg s.jobs) (st : Guarded (Orderly uuid) (Step uuid) s a t) :
    Kept uuid t.reg t.jobs := by
  obtain ⟨ok, st⟩ := st
  cases st with
  | @known k l known =>
    refine inv.begin ok.1 ok.2.1 (fun k' => ?_) (.inl known) ⟨rfl, rfl, rfl, rfl⟩
    split
    · rename_i same
      rw [same, known]
    · rfl
  | fresh absent =>
    refine inv.begin ok.1 ok.2.1 (fun k' => Dict.get?_set) (.inr ?_) ⟨rfl, rfl, rfl, rfl⟩
    exact ok.2.2.resolve_left fun some => some absent
  | evictIdle h =>
    obtain ⟨rfl, inv', _⟩ := inv.evict (fun e he => Registry.mem_idle he) ok h
    rw [if_pos rfl]
    exact (List.append_nil s.jobs).symm ▸ inv'
  | evictSessions h =>
    obtain ⟨rfl, inv', _⟩ := inv.evict (fun e he => Registry.mem_named he) ok h
    rw [if_pos rfl]
    exact (List.append_nil s.jobs).symm ▸ inv'
  | stop _ mem h => exact inv.stop ok mem h
  | attach here _ => exact inv.attach here (ok _ here)
  | acts here st => exact inv.acts here st (ok _ here)
  | @runs now before j after m out ret jobs adv =>
    rw [jobs] at inv
    cases adv with
    | @enters c m' _ _ _ waiting free h enter =>
      have spares := ok c rfl waiting
      rw [jobs] at spares
      have inv : Kept uuid _ (before ++ .call { c with pc := .evicting now [] } :: after) := inv.hold waiting free
      obtain ⟨_, inv', _⟩ := inv.evict (fun e he => Registry.mem_idle he) spares.hold h
      exact inv'.enter rfl (fun _ _ e => CallPc.noConfusion e) enter.evicted
    | @evicts c m' o todo waiting free h =>
      have spares := ok c rfl waiting
      rw [jobs] at spares
      have inv : Kept uuid _ (before ++ .call { c with pc := .evicting now [] } :: after) := inv.hold waiting free
      obtain ⟨none, _⟩ := inv.evict (fun e he => Registry.mem_idle he) spares.hold h
      cases none
    | resumes pc _ _ _ _ => cases inv.prompt.2 _ mem_middle _ _ pc
    | evictsMore pc _ _ _ => cases inv.prompt.2 _ mem_middle _ _ pc
    | @attached c then_ o pc =>
      rw [List.append_nil]
      exact inv.hand (by rw [pc]; rfl) (.inr ⟨then_, pc⟩)
    | evict _ _ _ => exact absurd mem_middle (inv.prompt.1 _)
    | stop here _ h =>
      have same {jobs : List Job} {todo : List Nat} : jobs.map ((Job.stop todo).noted uuid none) = jobs :=
        List.map_id jobs
      show Kept uuid m (List.map _ before ++ _ ++ List.map _ after)
      rw [same, same]
      exact inv.stopMore here h

/-- In a run of orderly steps a session has one live object, overlapping calls for it are handed that object, and no
eviction stops an object on which a turn is active, in every state that is reached. -/
theorem one_object (rn : Run (Guarded (Orderly uuid) (Step uuid)) ⟨{}, []⟩ as t) : OneObject uuid t.reg := by
  have start : Kept uuid {} [] := by
    refine .quiet (fun _ h => absurd h List.not_mem_nil) (fun _ h => absurd h List.not_mem_nil) (fun _ => rfl) ?_ ?_
      ⟨?_, fun _ _ h => absurd h List.not_mem_nil, List.not_mem_nil⟩
    · intro o a h
      cases h
    · intro o a h
      cases h
    · intro x y a b h
      cases h
  have inv : Kept uuid t.reg t.jobs := rn.invariant (I := fun s => Kept uuid s.reg s.jobs) start Kept.step
  exact inv.object

end

/-! ## Spellings -/

/-- `str.replace(sub, "")`; the number is what is left to skip. -/
def without (sub : List Char) : Nat → List Char → List Char
  | _, [] => []
  | skip + 1, _ :: rest => without sub skip rest
  | 0, c :: rest => if sub.isPrefixOf (c :: rest) then without sub (sub.length - 1) rest else c :: without sub 0 rest

def hexDigit (c : Char) : Option Nat :=
  if '0' ≤ c ∧ c ≤ '9' then some (c.toNat - '0'.toNat)
  else if 'a' ≤ c ∧ c ≤ 'f' then some (c.toNat - 'a'.toNat + 10)
  else if 'A' ≤ c ∧ c ≤ 'F' then some (c.toNat - 'A'.toNat + 10)
  else none

/-- `UUID(hex)`: braces, hyphens and a URN prefix are optional, and so is the case of the digits. -/
def uuidOf (s : String) : Option Nat :=
  let hex := without "uuid:".toList 0 (without "urn:".toList 0 s.toList)
  let brace (c : Char) : Bool := c = '\x7b' || c = '\x7d'
  let hex := without ['-'] 0 (((hex.dropWhile brace).reverse.dropWhile brace).reverse)
  if hex.length ≠ 32 then none
  else hex.foldl (fun n c => return 16 * (← n) + (← hexDigit c)) (some 0)

example : uuidOf "\x7b01234567-89AB-cdef-0123-456789abcdef\x7d" = uuidOf "urn:uuid:0123456789abcdef0123456789abcdef" := by
  decide

section
variable {m m' : Registry} {j j' : Job} {out : List Job} {ret : Option Nat} {n : Int}

section
variable [DecidableEq υ] {uuid : String → Option υ}

/-- The first of two jobs goes on. -/
lemma Step.first (adv : Adv n m j m' out ret) :
    Step uuid ⟨m, [j, j']⟩ (.runs n [] j [j'] out) ⟨m', out ++ [j.noted uuid ret j']⟩ := .runs rfl adv

/-- A step of the second job. -/
lemma Step.secondOn (adv : Adv n m j m' [j'] ret) {j₁ : Job} :
    Step uuid ⟨m, [j₁, j]⟩ (.runs n [j₁] j [] [j']) ⟨m', [j.noted uuid ret j₁, j']⟩ := .runs rfl adv

/-- A step of a single job. -/
lemma Step.alone (adv : Adv n m j m' out ret) : Step uuid ⟨m, [j]⟩ (.runs n [] j [] out) ⟨m', out⟩ := by
  have step : Step uuid ⟨m, [j]⟩ (.runs n [] j [] out) ⟨m', [] ++ out ++ []⟩ := .runs rfl adv
  rwa [List.nil_append, List.append_nil] at step

end

/-- An orderly start. -/
lemma Orderly.begins {uuid : String → Option υ} {s : System} {k : Key} (stops : ∀ todo, .stop todo ∉ s.jobs)
    (name : ∀ k' u, Serves uuid s.reg s.jobs k' u → k' = k)
    (locks : s.reg.startLocks.get? k ≠ none ∨ ∀ c, .call c ∈ s.jobs → c.key ≠ k) : Orderly uuid s (.begins k) :=
  ⟨stops, fun k' u _ serves => name k' u serves, locks⟩

/-- An object is attached to its own session. -/
lemma Orderly.attach {uuid : String → Option υ} {s : System} {o : Nat} {sid : String}
    (same : ∀ ob : Object, s.reg.objects[o]? = some ob → sessionOf uuid sid = ob.session uuid) :
    Orderly uuid s (.attach o sid) := fun ob here _ => .inl (same ob here)

/-- A job goes on and takes no entry. -/
lemma Orderly.runs {uuid : String → Option υ} {s : System} {before after : List Job} (none : s.reg.idle n = []) :
    Orderly uuid s (.runs n before j after out) := by
  intro c _ _ e he
  rw [none] at he
  cases he

/-- Two calls for a session that overlap are handed the object that the first one makes, and a turn begins on it with
the id in another spelling. -/
theorem one_object_shared : ∃ as t, Run (Guarded (Orderly uuidOf) (Step uuidOf)) ⟨{}, []⟩ as t ∧ t.jobs = [] ∧
    t.reg.objects.length = 1 ∧ OneObject uuidOf t.reg := by
  have began : Run (Guarded (Orderly uuidOf) (Step uuidOf)) ⟨{}, []⟩ _ _ :=
    .single (a := .begins ⟨"/w", "0123456789abcdef0123456789abcdef"⟩)
      ⟨.begins (by simp) (by simp [Serves]) (.inr (by simp)), .fresh rfl⟩
  have both := began.snoc (a := .begins ⟨"/w", "0123456789abcdef0123456789abcdef"⟩)
    ⟨.begins (by simp) (by simp +contextual [Serves]) (.inl (by decide)), .known rfl⟩
  have made := both.snoc ⟨.runs rfl,
    .first (n := 0) (.enters rfl List.not_mem_nil rfl (.attaches (d := {}) rfl (by decide)))⟩
  have first := made.snoc ⟨.runs rfl, .first (n := 0) (.attached rfl)⟩
  have second := first.snoc ⟨.runs (by decide), .alone (n := 0) (.enters rfl (by decide) rfl (.found rfl))⟩
  have attached := second.snoc (a := .attach 0 "0123456789ABCDEF0123456789ABCDEF")
    ⟨.attach fun ob here => by cases here; decide, .attach rfl (by decide)⟩
  exact ⟨_, _, attached, rfl, rfl, one_object attached⟩

/-- Two spellings of a session's id are two keys, and make two objects. -/
theorem two_objects : ¬ ∀ as t, Run (Step uuidOf) ⟨{}, []⟩ as t → OneObject uuidOf t.reg := by
  intro one
  have began : Run (Step uuidOf) ⟨{}, []⟩ _ _ :=
    .single (a := .begins ⟨"/w", "0123456789abcdef0123456789abcdef"⟩) (.fresh rfl)
  have both := began.snoc (a := .begins ⟨"/w", "0123456789ABCDEF0123456789ABCDEF"⟩) (.fresh (by decide))
  have made := both.snoc (.first (n := 0) (.enters rfl List.not_mem_nil rfl (.attaches (d := {}) rfl (by decide))))
  have made' := made.snoc (.secondOn (n := 0) (.enters rfl (by decide) rfl (.attaches (d := {}) rfl (by decide))))
  have same := (one _ _ made').single 0 1 _ _ rfl rfl rfl rfl (by decide) (by decide)
  cases same

end
end OpenAgentd.Manager
