import OpenAgentd.Lib.Slots
import OpenAgentd.Lsp.Manager

/-!
# Clients that are usable

Runs of the manager whose steps are careful. A server runs only for the client that is cached under its key, or for the
one that a `get_clients` is starting (`Inv.running`), and both are changed under the lock of their root and language, so
that there is one at a time; what a `get_clients` has listed is read (`Fresh.clients`), and what is in use is not stopped
by the cleanup. The clients are usable in every state of such a run (`usable_of_careful`).
-/

namespace OpenAgentd.Lsp
open OpenAgentd.Lib LspManager

section
variable {m m' : LspManager} {c d k : Nat} {client client' : LspClient} {init : Init} {rest : List Command}
  {given : List Nat} {stage : Stage} {t t' : Task} {ends : Nat → Prop}

/-! ## The invariant -/

/-- A client of the root and the language. -/
def Of (m : LspManager) (init : Init) (c : Nat) : Prop := ∃ client, m.clients[c]? = some client ∧ client.key.init = init

def Gone (m : LspManager) (c : Nat) : Prop := ∃ client, m.clients[c]? = some client ∧ client.process ≠ .running

/-- A client whose read task is joined has no process. -/
def Quiet (m : LspManager) (c : Nat) (stage : Stage) : Prop := stage = .joining → Gone m c

/-- What has been listed is read, and is not for a command still to do. -/
structure Fresh (m : LspManager) (init : Init) (rest : List Command) (given : List Nat) : Prop where
  nodup : rest.Nodup
  clients : ∀ c ∈ given, ∃ client, m.clients[c]? = some client ∧ client.key.init = init ∧ client.key.command ∉ rest ∧
    client.readLoop = .reading

/-- What a call knows about the cache and its clients. -/
def CallInv (m : LspManager) (init : Init) : CallPhase → Prop
  | .replacing c stage command _ _ => m.cached.get? ⟨init, command⟩ = some c ∧ Quiet m c stage
  | .starting command _ _ => m.cached.get? ⟨init, command⟩ = none
  | .initializing c command _ _ => m.cached.get? ⟨init, command⟩ = none ∧
    ∃ client, m.clients[c]? = some client ∧ client.key = ⟨init, command⟩
  | .dropping c stage command _ _ => m.cached.get? ⟨init, command⟩ = none ∧
    (∃ client, m.clients[c]? = some client ∧ client.key = ⟨init, command⟩) ∧ Quiet m c stage
  | .served clients => ∀ c ∈ clients, Of m init c
  | _ => True

def StopInv (m : LspManager) : StopPhase → Prop
  | .holding init todo _ => ∀ c ∈ todo, Of m init c
  | .stopping c stage init todo _ => Of m init c ∧ Quiet m c stage ∧ ∀ c ∈ todo, Of m init c
  | _ => True

def TaskInv (m : LspManager) : Task → Prop
  | .call init phase => Fresh m init phase.rest phase.listed ∧ CallInv m init phase
  | .stop phase => StopInv m phase

def CleanupInv (m : LspManager) : Cleanup → Prop
  | .holding init todo gone _ => (∀ c ∈ todo, Of m init c) ∧ ∀ c ∈ gone, Of m init c ∧ Gone m c
  | .stopping c stage init todo gone _ => Of m init c ∧ Quiet m c stage ∧ ¬ m.InUse c ∧ (∀ c ∈ todo, Of m init c) ∧
    ∀ c ∈ gone, Of m init c ∧ Gone m c
  | _ => True

/-- The client that a call is starting, or stopping because it did not start. -/
def Task.owns : Task → Option Nat
  | .call _ (.initializing c _ _ _) => some c
  | .call _ (.dropping c _ _ _ _) => some c
  | _ => none

/-- What a call has listed. -/
def Task.listed : Task → List Nat
  | .call _ phase => phase.listed
  | .stop _ => []

structure Inv (m : LspManager) : Prop where
  keys : ∀ key c, m.cached.get? key = some c → ∃ client, m.clients[c]? = some client ∧ client.key = key
  mutex : ∀ (i j : Nat) (s t : Task) init, m.tasks[i]? = some s → m.tasks[j]? = some t → s.holds = some init →
    t.holds = some init → i = j
  apart : ∀ (i : Nat) (s : Task) init, m.tasks[i]? = some s → s.holds = some init → m.cleanup.holds ≠ some init
  running : ∀ (c : Nat) (client : LspClient), m.clients[c]? = some client → client.process = .running →
    m.cached.get? client.key = some c ∨ ∃ (k : Nat) (t : Task), m.tasks[k]? = some t ∧ t.owns = some c
  tasks : ∀ (k : Nat) (t : Task), m.tasks[k]? = some t → TaskInv m t
  cleanup : CleanupInv m m.cleanup
  answered : ∀ (c : Nat) (client : LspClient), m.clients[c]? = some client → client.Answered
  handed : ∀ c ∈ m.returned, ∃ client, m.clients[c]? = some client ∧ client.readLoop = .reading

/-- A task holds the lock of the client that it starts, and nothing is cached for that. -/
lemma owns_spec (known : TaskInv m t) (owns : t.owns = some c) : ∃ init command, t.holds = some init ∧
    m.cached.get? ⟨init, command⟩ = none ∧ ∃ client, m.clients[c]? = some client ∧ client.key = ⟨init, command⟩ := by
  cases t with
  | stop phase => cases owns
  | call init phase =>
    cases phase with
    | initializing d command commands clients =>
      cases owns
      exact ⟨init, command, rfl, known.2⟩
    | dropping d stage command commands clients =>
      cases owns
      exact ⟨init, command, rfl, known.2.1, known.2.2.1⟩
    | _ => cases owns

/-- What the invariant gives. -/
lemma usable_of_inv (inv : Inv m) : Usable m where
  answered := inv.answered
  handed := inv.handed
  kept c stage init todo gone pass stops := by
    have known := inv.cleanup
    rw [stops] at known
    exact known.2.2.1
  single c d client other here there same first second := by
    cases inv.running c client here first with
    | inl cached =>
      cases inv.running d other there second with
      | inl cached' =>
        rw [same, cached'] at cached
        exact (Option.some.inj cached).symm
      | inr owned =>
        obtain ⟨k, t, task, owns⟩ := owned
        obtain ⟨init, command, _, free, x, own, key⟩ := owns_spec (inv.tasks k t task) owns
        rw [there] at own
        cases own
        rw [same, key, free] at cached
        cases cached
    | inr owned =>
      obtain ⟨k, t, task, owns⟩ := owned
      obtain ⟨init, command, holds, free, x, own, key⟩ := owns_spec (inv.tasks k t task) owns
      rw [here] at own
      cases own
      cases inv.running d other there second with
      | inl cached =>
        rw [← same, key, free] at cached
        cases cached
      | inr owned' =>
        obtain ⟨k', t', task', owns'⟩ := owned'
        obtain ⟨init', command', holds', _, y, own', key'⟩ := owns_spec (inv.tasks k' t' task') owns'
        rw [there] at own'
        cases own'
        rw [key, key'] at same
        cases same
        have one := inv.mutex k k' t t' init task task' holds holds'
        rw [one, task'] at task
        cases task
        rw [owns'] at owns
        exact (Option.some.inj owns).symm

/-! ## Frames -/

/-- The clients are still there, without new processes, and their read loops go on but for those that end. -/
def Follows (m m' : LspManager) (ends : Nat → Prop) : Prop :=
  ∀ (c : Nat) (client : LspClient), m.clients[c]? = some client → ∃ client', m'.clients[c]? = some client' ∧
    client'.key = client.key ∧ (client'.process = .running → client.process = .running) ∧
    (¬ ends c → client'.readLoop = client.readLoop)

/-- The same clients. -/
lemma follows_of_eq (same : m'.clients = m.clients) : Follows m m' ends := by
  intro c client here
  exact ⟨client, by rw [same, here], rfl, fun h => h, fun _ => rfl⟩

/-- It stays its root's. -/
lemma Of.follow (of : Of m init c) (f : Follows m m' ends) : Of m' init c := by
  obtain ⟨client, here, own⟩ := of
  obtain ⟨client', there, key, _⟩ := f c client here
  exact ⟨client', there, by rw [key, own]⟩

/-- What is gone stays gone. -/
lemma Gone.follow (gone : Gone m c) (f : Follows m m' ends) : Gone m' c := by
  obtain ⟨client, here, stopped⟩ := gone
  obtain ⟨client', there, _, running, _⟩ := f c client here
  exact ⟨client', there, fun runs => stopped (running runs)⟩

/-- What is quiet stays quiet. -/
lemma Quiet.follow (quiet : Quiet m c stage) (f : Follows m m' ends) : Quiet m' c stage :=
  fun joins => (quiet joins).follow f

/-- What is fresh stays fresh. -/
lemma Fresh.follow (fresh : Fresh m init rest given) (f : Follows m m' ends) (safe : ∀ c ∈ given, ¬ ends c) :
    Fresh m' init rest given where
  nodup := fresh.nodup
  clients c mem := by
    obtain ⟨client, here, own, other, reads⟩ := fresh.clients c mem
    obtain ⟨client', there, key, _, loop⟩ := f c client here
    exact ⟨client', there, by rw [key, own], by rwa [key], by rw [loop (safe c mem), reads]⟩

/-- A task keeps what it knows if the cache is as before under its lock. -/
lemma TaskInv.follow (known : TaskInv m t) (f : Follows m m' ends) (safe : ∀ c ∈ t.listed, ¬ ends c)
    (same : ∀ key : Key, t.holds = some key.init → m'.cached.get? key = m.cached.get? key) : TaskInv m' t := by
  have client : ∀ {c : Nat} {key : Key}, (∃ client, m.clients[c]? = some client ∧ client.key = key) →
      ∃ client, m'.clients[c]? = some client ∧ client.key = key := by
    rintro c key ⟨client, here, own⟩
    obtain ⟨client', there, key', _⟩ := f c client here
    exact ⟨client', there, by rw [key', own]⟩
  cases t with
  | call init phase =>
    refine ⟨known.1.follow f safe, ?_⟩
    have at_ := known.2
    cases phase with
    | replacing c stage command commands clients => exact ⟨by rw [same ⟨init, command⟩ rfl]; exact at_.1, at_.2.follow f⟩
    | starting command commands clients =>
      show m'.cached.get? ⟨init, command⟩ = none
      rw [same ⟨init, command⟩ rfl]
      exact at_
    | initializing c command commands clients => exact ⟨by rw [same ⟨init, command⟩ rfl]; exact at_.1, client at_.2⟩
    | dropping c stage command commands clients =>
      exact ⟨by rw [same ⟨init, command⟩ rfl]; exact at_.1, client at_.2.1, at_.2.2.follow f⟩
    | served clients => exact fun c mem => (at_ c mem).follow f
    | _ => trivial
  | stop phase =>
    cases phase with
    | holding init todo inits => exact fun c mem => (known c mem).follow f
    | stopping c stage init todo inits =>
      exact ⟨known.1.follow f, known.2.1.follow f, fun c mem => (known.2.2 c mem).follow f⟩
    | _ => trivial

/-- The cleanup goes on. -/
lemma CleanupInv.follow {cleanup : Cleanup} (known : CleanupInv m cleanup) (f : Follows m m' ends)
    (unused : ∀ c, m'.InUse c → m.InUse c ∨ ∀ stage init todo gone pass, cleanup ≠ .stopping c stage init todo gone pass) :
    CleanupInv m' cleanup := by
  cases cleanup with
  | holding init todo gone pass =>
    exact ⟨fun c mem => (known.1 c mem).follow f, fun c mem => ⟨(known.2 c mem).1.follow f, (known.2 c mem).2.follow f⟩⟩
  | stopping c stage init todo gone pass =>
    refine ⟨known.1.follow f, known.2.1.follow f, fun used => ?_, fun c mem => (known.2.2.2.1 c mem).follow f,
      fun c mem => ⟨(known.2.2.2.2 c mem).1.follow f, (known.2.2.2.2 c mem).2.follow f⟩⟩
    cases unused c used with
    | inl before => exact known.2.2.1 before
    | inr other => exact other stage init todo gone pass rfl
  | _ => trivial

/-! ## One client, one task, the cleanup -/

/-- One client changes. -/
lemma follows_setClient (here : m.clients[c]? = some client) (keeps : client.Keeps client') :
    Follows m (m.setClient c client') fun d => d = c ∧ client'.readLoop ≠ client.readLoop := by
  intro d other there
  by_cases own : d = c
  · rw [own, here] at there
    cases there
    refine ⟨client', (getElem?_set_iff here).mpr (.inl ⟨own, rfl⟩), keeps.key, keeps.running, fun goes => ?_⟩
    by_contra ended
    exact goes ⟨own, ended⟩
  · exact ⟨other, (getElem?_set_iff here).mpr (.inr ⟨own, there⟩), rfl, fun h => h, fun _ => rfl⟩

/-- A client goes on. -/
lemma Inv.setClient (inv : Inv m) (here : m.clients[c]? = some client) (keeps : client.Keeps client')
    (loop : client'.readLoop = client.readLoop ∨ ¬ m.Listed c) (unreturned : m.returned = []) : Inv (m.setClient c client') := by
  have f := follows_setClient here keeps
  constructor
  case keys =>
    intro key d cached
    obtain ⟨x, there, own⟩ := inv.keys key d cached
    obtain ⟨y, there', key', _⟩ := f d x there
    exact ⟨y, there', by rw [key', own]⟩
  case mutex => exact inv.mutex
  case apart => exact inv.apart
  case running =>
    intro d x there runs
    cases (getElem?_set_iff here).mp there with
    | inl new =>
      rw [new.2] at runs ⊢
      rw [keeps.key, new.1]
      exact inv.running c client here (keeps.running runs)
    | inr old => exact inv.running d x old.2 runs
  case tasks =>
    intro k t task
    apply (inv.tasks k t task).follow f _ fun _ _ => rfl
    rintro d mem ⟨rfl, ended⟩
    cases loop with
    | inl same => exact ended same
    | inr unlisted =>
      cases t with
      | call init phase => exact unlisted ⟨k, init, phase, task, mem⟩
      | stop phase => cases mem
  case cleanup => exact inv.cleanup.follow f fun d used => .inl used
  case answered =>
    intro d x there
    cases (getElem?_set_iff here).mp there with
    | inl new =>
      rw [new.2]
      exact keeps.answered (inv.answered c client here)
    | inr old => exact inv.answered d x old.2
  case handed =>
    intro d mem
    rw [show (m.setClient c client').returned = m.returned from rfl, unreturned] at mem
    cases mem

/-- Nobody holds the lock. -/
lemma not_locked (free : m.locked init = false) : (∀ (i : Nat) (s : Task), m.tasks[i]? = some s → s.holds ≠ some init) ∧
    m.cleanup.holds ≠ some init := by
  rw [locked, Bool.or_eq_false_iff] at free
  constructor
  · intro i s here holds
    have none := List.any_eq_false.mp free.1 s (List.mem_of_getElem? here)
    exact none (decide_eq_true holds)
  · exact of_decide_eq_false free.2

/-- What is listed under a lock is not being stopped by the cleanup. -/
lemma Inv.unused (inv : Inv m) (here : m.tasks[k]? = some t) (holds : t.holds = some init) (of : Of m init c) :
    ∀ stage init todo gone pass, m.cleanup ≠ .stopping c stage init todo gone pass := by
  intro stage init' todo gone pass stops
  have known := inv.cleanup
  rw [stops] at known
  obtain ⟨client, there, own⟩ := of
  obtain ⟨client', there', own'⟩ := known.1
  rw [there] at there'
  cases there'
  apply inv.apart k t init here holds
  rw [stops, ← own, own']
  rfl

/-- A task goes on, and the cache changes under its lock. -/
lemma Inv.task (inv : Inv m) (here : m.tasks[k]? = some t) (f : Follows m m' fun _ => False)
    (tasks : m'.tasks = m.tasks.set k t') (cleanup : m'.cleanup = m.cleanup)
    (back : ∀ (c : Nat) (client' : LspClient), m'.clients[c]? = some client' → client'.Answered ∧
      (client'.process = .running → t'.owns = some c ∨
        ∃ client, m.clients[c]? = some client ∧ client.key = client'.key ∧ client.process = .running))
    (holds : ∀ init, t'.holds = some init → t.holds = some init ∨ m.locked init = false)
    (same : ∀ key : Key, t.holds ≠ some key.init → m'.cached.get? key = m.cached.get? key)
    (keys : ∀ key c, m'.cached.get? key = some c → m.cached.get? key = some c ∨
      ∃ client, m.clients[c]? = some client ∧ client.key = key)
    (kept : ∀ (c : Nat) (client : LspClient), m.clients[c]? = some client → client.process = .running →
      m.cached.get? client.key = some c ∨ t.owns = some c → m'.cached.get? client.key = some c ∨ t'.owns = some c)
    (known : TaskInv m' t')
    (used : ∀ init clients, t' = .call init (.served clients) → ∀ c ∈ clients, ∀ stage init todo gone pass,
      m.cleanup ≠ .stopping c stage init todo gone pass)
    (handed : ∀ c ∈ m'.returned, ∃ client, m'.clients[c]? = some client ∧ client.readLoop = .reading) : Inv m' := by
  have task : ∀ (i : Nat) (s : Task), m'.tasks[i]? = some s ↔ i = k ∧ s = t' ∨ i ≠ k ∧ m.tasks[i]? = some s := by
    intro i s
    rw [tasks]
    exact getElem?_set_iff here
  -- no other task holds the lock that this one has now
  have alone : ∀ (i : Nat) (s : Task) init, i ≠ k → m.tasks[i]? = some s → s.holds = some init → t'.holds ≠ some init := by
    intro i s init other there holds' own
    cases holds init own with
    | inl before => exact other (inv.mutex i k s t init there here holds' before)
    | inr free => exact (not_locked free).1 i s there holds'
  constructor
  case keys =>
    intro key c cached
    have there : ∃ client, m.clients[c]? = some client ∧ client.key = key := by
      cases keys key c cached with
      | inl old => exact inv.keys key c old
      | inr new => exact new
    obtain ⟨client, there, own⟩ := there
    obtain ⟨client', there', key', _⟩ := f c client there
    exact ⟨client', there', by rw [key', own]⟩
  case mutex =>
    intro i j s u init first second holds' holds''
    cases (task i s).mp first with
    | inl new =>
      cases (task j u).mp second with
      | inl new' => rw [new.1, new'.1]
      | inr old =>
        rw [new.2] at holds'
        exact absurd holds' (alone j u init old.1 old.2 holds'')
    | inr old =>
      cases (task j u).mp second with
      | inl new =>
        rw [new.2] at holds''
        exact absurd holds'' (alone i s init old.1 old.2 holds')
      | inr old' => exact inv.mutex i j s u init old.2 old'.2 holds' holds''
  case apart =>
    intro i s init there holds'
    rw [cleanup]
    cases (task i s).mp there with
    | inl new =>
      rw [new.2] at holds'
      cases holds init holds' with
      | inl before => exact inv.apart k t init here before
      | inr free => exact (not_locked free).2
    | inr old => exact inv.apart i s init old.2 holds'
  case running =>
    intro c client' there runs
    have own : t'.owns = some c → ∃ (k : Nat) (t : Task), m'.tasks[k]? = some t ∧ t.owns = some c :=
      fun owns => ⟨k, t', (task k t').mpr (.inl ⟨rfl, rfl⟩), owns⟩
    cases (back c client' there).2 runs with
    | inl owns => exact .inr (own owns)
    | inr before =>
      obtain ⟨client, there, key, runs⟩ := before
      have goes : m.cached.get? client.key = some c ∨ t.owns = some c →
          m'.cached.get? client'.key = some c ∨ ∃ (k : Nat) (t : Task), m'.tasks[k]? = some t ∧ t.owns = some c := by
        intro either
        rw [← key]
        cases kept c client there runs either with
        | inl cached => exact .inl cached
        | inr owns => exact .inr (own owns)
      cases inv.running c client there runs with
      | inl cached => exact goes (.inl cached)
      | inr owned =>
        obtain ⟨i, s, there', owns⟩ := owned
        by_cases mine : i = k
        · rw [mine, here] at there'
          cases there'
          exact goes (.inr owns)
        · exact .inr ⟨i, s, (task i s).mpr (.inr ⟨mine, there'⟩), owns⟩
  case tasks =>
    intro i s there
    cases (task i s).mp there with
    | inl new =>
      rw [new.2]
      exact known
    | inr old =>
      apply (inv.tasks i s old.2).follow f (fun _ _ ended => ended)
      intro key holds'
      apply same key
      intro mine
      exact old.1 (inv.mutex i k s t key.init old.2 here holds' mine)
  case cleanup =>
    rw [cleanup]
    apply inv.cleanup.follow f
    rintro c ⟨i, init, clients, there, mem⟩
    cases (task i _).mp there with
    | inl new => exact .inr (used init clients new.2.symm c mem)
    | inr old => exact .inl ⟨i, init, clients, old.2, mem⟩
  case answered => exact fun c client' there => (back c client' there).1
  case handed => exact handed

/-- A task goes on, and nothing else changes. -/
lemma Inv.setTask (inv : Inv m) (here : m.tasks[k]? = some t)
    (holds : ∀ init, t'.holds = some init → t.holds = some init ∨ m.locked init = false)
    (owns : ∀ c, t.owns = some c → t'.owns = some c) (known : TaskInv m t')
    (used : ∀ init clients, t' ≠ .call init (.served clients)) (unreturned : m.returned = []) : Inv (m.setTask k t') := by
  have f : Follows m (m.setTask k t') fun _ => False := follows_of_eq rfl
  apply inv.task here f rfl rfl _ holds (fun _ _ => rfl) (fun _ _ => .inl)
  · exact fun c client _ _ either => either.imp_right (owns c)
  · exact known.follow f (fun _ _ ended => ended) fun _ _ => rfl
  · exact fun init clients same => absurd same (used init clients)
  · intro c mem
    rw [show (m.setTask k t').returned = m.returned from rfl, unreturned] at mem
    cases mem
  · exact fun c client' there => ⟨inv.answered c client' there, fun runs => .inr ⟨client', there, rfl, runs⟩⟩

/-- A task goes on under its lock, and changes what is cached for the root and language. -/
lemma Inv.setCached {cached : Dict Key Nat} (inv : Inv m) (here : m.tasks[k]? = some t) (held : t.holds = some init)
    (holds : t'.holds = some init) (same : ∀ key : Key, key.init ≠ init → cached.get? key = m.cached.get? key)
    (keys : ∀ key c, cached.get? key = some c → m.cached.get? key = some c ∨
      ∃ client, m.clients[c]? = some client ∧ client.key = key)
    (kept : ∀ (c : Nat) (client : LspClient), m.clients[c]? = some client → client.process = .running →
      m.cached.get? client.key = some c ∨ t.owns = some c → cached.get? client.key = some c ∨ t'.owns = some c)
    (known : TaskInv { m with cached } t') (unserved : ∀ init clients, t' ≠ .call init (.served clients))
    (unreturned : m.returned = []) : Inv ({ m with cached }.setTask k t') := by
  have f : Follows m ({ m with cached }.setTask k t') fun _ => False := follows_of_eq rfl
  have f' : Follows { m with cached } ({ m with cached }.setTask k t') fun _ => False := follows_of_eq rfl
  have known' : TaskInv ({ m with cached }.setTask k t') t' := known.follow f' (fun _ _ ended => ended) fun _ _ => rfl
  apply inv.task here f rfl rfl _ _ _ keys kept known'
  · exact fun init clients e => absurd e (unserved init clients)
  · intro c mem
    have mem : c ∈ m.returned := mem
    rw [unreturned] at mem
    cases mem
  · exact fun c client' there => ⟨inv.answered c client' there, fun runs => .inr ⟨client', there, rfl, runs⟩⟩
  · intro init' own
    rw [holds] at own
    cases own
    exact .inl held
  · intro key other
    apply same key
    intro e
    rw [e] at other
    exact other held

/-- Tasks start, and what the invariant does not read changes. -/
lemma Inv.frame (inv : Inv m) (clients : m'.clients = m.clients) (cached : m'.cached = m.cached)
    (cleanup : m'.cleanup = m.cleanup) (returned : m'.returned = [])
    (old : ∀ (k : Nat) (t : Task), m.tasks[k]? = some t → m'.tasks[k]? = some t)
    (new : ∀ (k : Nat) (t : Task), m'.tasks[k]? = some t → m.tasks[k]? = some t ∨
      (t = .stop .cancelling ∨ ∃ init, t = .call init .waiting)) : Inv m' := by
  have f : Follows m m' fun _ => False := follows_of_eq clients
  have held : ∀ (k : Nat) (t : Task) init, m'.tasks[k]? = some t → t.holds = some init → m.tasks[k]? = some t := by
    intro k t init there holds
    rcases new k t there with before | rfl | ⟨init', rfl⟩
    · exact before
    · cases holds
    · cases holds
  constructor
  case keys =>
    rw [cached, clients]
    exact inv.keys
  case mutex =>
    intro i j s t init here there holds holds'
    exact inv.mutex i j s t init (held i s init here holds) (held j t init there holds') holds holds'
  case apart =>
    intro i s init there holds
    rw [cleanup]
    exact inv.apart i s init (held i s init there holds) holds
  case running =>
    intro c client there runs
    rw [clients] at there
    rw [cached]
    apply (inv.running c client there runs).imp_right
    exact fun ⟨k, t, here, owns⟩ => ⟨k, t, old k t here, owns⟩
  case tasks =>
    intro k t there
    rcases new k t there with before | rfl | ⟨init, rfl⟩
    · exact (inv.tasks k t before).follow f (fun _ _ ended => ended) fun _ _ => by rw [cached]
    · trivial
    · exact ⟨⟨List.nodup_nil, fun _ mem => absurd mem List.not_mem_nil⟩, trivial⟩
  case cleanup =>
    rw [cleanup]
    apply inv.cleanup.follow f
    rintro c ⟨k, init, clients, there, mem⟩
    rcases new k _ there with before | e | ⟨init', e⟩
    · exact .inl ⟨k, init, clients, before, mem⟩
    · cases e
    · cases e
  case answered =>
    rw [clients]
    exact inv.answered
  case handed =>
    rw [returned]
    exact fun c mem => absurd mem List.not_mem_nil

/-! ## Stopping a client -/

/-- Who lists holds the lock. -/
lemma holds_of_listed {phase : CallPhase} (mem : c ∈ phase.listed) : (Task.call init phase).holds = some init := by
  cases phase with
  | waiting => cases mem
  | detecting => cases mem
  | served clients => cases mem
  | finished => cases mem
  | _ => rfl

/-- Under the lock of its root and language only the holder can have listed a client. -/
lemma Inv.unlisted (inv : Inv m) (of : Of m init c)
    (others : ∀ (i : Nat) (s : Task), m.tasks[i]? = some s → s.holds = some init → c ∉ s.listed) : ¬ m.Listed c := by
  rintro ⟨i, init', phase, there, mem⟩
  obtain ⟨client, here, own⟩ := of
  obtain ⟨client', here', own', _⟩ := (inv.tasks i _ there).1.clients c mem
  rw [here] at here'
  cases here'
  have same : init' = init := own'.symm.trans own
  rw [same] at there
  exact others i _ there (holds_of_listed mem) mem

/-- A stage of a client's `stop` is over. -/
structure Stopped (m m' : LspManager) (c : Nat) (after : Option Stage) : Prop where
  inv : Inv m'
  rest : m' = { m with clients := m'.clients }
  quiet : ∀ stage, after = some stage → Quiet m' c stage
  gone : after = none → Gone m' c

/-- A client is stopped. -/
lemma stopped_of_stopClient {after : Option Stage} (inv : Inv m) (quiet : Quiet m c stage)
    (unlisted : stage = .joining → ¬ m.Listed c) (unreturned : m.returned = [])
    (st : m.stopClient c stage = some (m', after)) : Stopped m m' c after := by
  obtain ⟨pair, went, e⟩ := Option.map_eq_some_iff.mp st
  obtain ⟨client, here, went⟩ := Option.bind_eq_some_iff.mp went
  obtain ⟨client', after'⟩ := pair
  cases e
  have gone : stage = .joining → client.process ≠ .running := by
    intro joins
    obtain ⟨x, there, stopped⟩ := quiet joins
    rw [here] at there
    cases there
    exact stopped
  obtain ⟨keeps, loop, left, last⟩ := LspClient.keeps_stopStep went gone
  have there : (m.setClient c client').clients[c]? = some client' := (getElem?_set_iff here).mpr (.inl ⟨rfl, rfl⟩)
  refine ⟨?_, rfl, fun next e joins => ⟨client', there, left (.inl ?_)⟩, fun none => ⟨client', there, left (.inr none)⟩⟩
  · apply inv.setClient here keeps _ unreturned
    by_cases joins : stage = .joining
    · exact .inr (unlisted joins)
    · exact .inl (loop joins)
  · rw [← joins]
    exact e

/-- The tasks stay. -/
lemma Stopped.task {after : Option Stage} (s : Stopped m m' c after) (here : m.tasks[k]? = some t) :
    m'.tasks[k]? = some t := by
  rw [s.rest]
  exact here

/-- Nothing is returned. -/
lemma Stopped.unreturned {after : Option Stage} (s : Stopped m m' c after) (unreturned : m.returned = []) :
    m'.returned = [] := by
  rw [s.rest]
  exact unreturned

/-- What is gone does not run. -/
lemma Gone.not_running (gone : Gone m c) (here : m.clients[c]? = some client) : client.process ≠ .running := by
  obtain ⟨x, there, stopped⟩ := gone
  rw [here] at there
  cases there
  exact stopped

/-- What is left was there. -/
lemma get?_of_get?_erase {cached : Dict Key Nat} {key key' : Key} (here : (cached.erase key).get? key' = some c) :
    cached.get? key' = some c := by
  rw [Dict.get?_erase] at here
  split at here
  · cases here
  · exact here

/-! ## A call -/

variable {command : Command} {commands : List Command} {phase : CallPhase} {e : TaskEvent}

/-- Nothing was given. -/
lemma fresh_nil (nodup : rest.Nodup) : Fresh m init rest [] := ⟨nodup, fun _ mem => absurd mem List.not_mem_nil⟩

/-- One command less. -/
lemma Fresh.tail (fresh : Fresh m init (command :: commands) given) : Fresh m init commands given where
  nodup := (List.nodup_cons.mp fresh.nodup).2
  clients c mem := by
    obtain ⟨client, here, own, other, reads⟩ := fresh.clients c mem
    exact ⟨client, here, own, List.not_mem_of_not_mem_cons other, reads⟩

/-- One client more. -/
lemma Fresh.snoc (fresh : Fresh m init (command :: commands) given) (here : m.clients[c]? = some client)
    (key : client.key = ⟨init, command⟩) (reads : client.readLoop = .reading) : Fresh m init commands (given ++ [c]) where
  nodup := (List.nodup_cons.mp fresh.nodup).2
  clients d mem := by
    cases List.mem_append.mp mem with
    | inl old => exact fresh.tail.clients d old
    | inr new =>
      rw [List.mem_singleton.mp new]
      exact ⟨client, here, by rw [key], by rw [key]; exact (List.nodup_cons.mp fresh.nodup).1, reads⟩

/-- A client for a command that is still to do is not listed. -/
lemma Inv.unlisted_call (inv : Inv m) (here : m.tasks[k]? = some (.call init phase))
    (holds : (Task.call init phase).holds = some init) (rest : command ∈ phase.rest)
    (own : ∃ client, m.clients[c]? = some client ∧ client.key = ⟨init, command⟩) : ¬ m.Listed c := by
  obtain ⟨client, there, key⟩ := own
  have of : Of m init c := ⟨client, there, by rw [key]⟩
  refine inv.unlisted of fun i s task holds' mem => ?_
  have one := inv.mutex i k s _ init task here holds' holds
  rw [one, here] at task
  cases task
  obtain ⟨client', there', _, other, _⟩ := (inv.tasks k _ here).1.clients c mem
  rw [there] at there'
  cases there'
  rw [key] at other
  exact other rest

/-- A call goes from one phase to another, with the cache as it was. -/
lemma Inv.setCall {phase' : CallPhase} (inv : Inv m) (here : m.tasks[k]? = some (.call init phase))
    (known : Fresh m init phase'.rest phase'.listed ∧ CallInv m init phase')
    (holds : (Task.call init phase).holds = some init ∨ (Task.call init phase').holds = none)
    (owns : ∀ c, (Task.call init phase).owns = some c → (Task.call init phase').owns = some c)
    (unserved : ∀ clients, phase' ≠ .served clients) (unreturned : m.returned = []) :
    Inv (m.setTask k (.call init phase')) := by
  apply inv.setTask here _ owns known _ unreturned
  · intro init' own
    left
    cases holds with
    | inl held =>
      have same : init' = init := by
        cases phase' with
        | waiting => cases own
        | served clients => cases own
        | finished => cases own
        | _ => exact (Option.some.inj own).symm
      rw [same, held]
    | inr none =>
      rw [none] at own
      cases own
  · intro init' clients e
    cases e
    exact unserved clients rfl

/-- A call has started a server. -/
lemma Inv.spawn {clients : List Nat} (inv : Inv m) (here : m.tasks[k]? = some (.call init (.starting command commands clients)))
    (unreturned : m.returned = [])
    (after : m' = { m with clients := m.clients ++ [LspClient.spawned ⟨init, command⟩ m.now] }.setTask k
      (.call init (.initializing m.clients.length command commands clients))) : Inv m' := by
  have known := inv.tasks k _ here
  have clients' : m'.clients = m.clients ++ [LspClient.spawned ⟨init, command⟩ m.now] := by rw [after]; rfl
  have there : m'.clients[m.clients.length]? = some (LspClient.spawned ⟨init, command⟩ m.now) := by
    rw [clients']
    exact getElem?_snoc_iff.mpr (.inr ⟨rfl, rfl⟩)
  have f : Follows m m' fun _ => False := by
    intro c client here
    refine ⟨client, ?_, rfl, fun h => h, fun _ => rfl⟩
    rw [clients']
    exact getElem?_snoc_iff.mpr (.inl here)
  have known' : TaskInv m' (.call init (.initializing m.clients.length command commands clients)) := by
    refine ⟨known.1.follow f fun _ _ ended => ended, ?_, _, there, rfl⟩
    rw [after]
    exact known.2
  have cached : m'.cached = m.cached := by rw [after]; rfl
  apply inv.task here f (by rw [after]; rfl) (by rw [after]; rfl) _ _ _ _ _ known'
  · exact fun _ _ e => by cases e
  · intro c mem
    rw [show m'.returned = m.returned by rw [after]; rfl, unreturned] at mem
    cases mem
  · intro c client' there'
    rw [clients'] at there'
    cases getElem?_snoc_iff.mp there' with
    | inl old => exact ⟨inv.answered c client' old, fun runs => .inr ⟨client', old, rfl, runs⟩⟩
    | inr new =>
      rw [new.1, new.2]
      exact ⟨fun ended => (by cases ended), fun _ => .inl rfl⟩
  · intro init' own
    cases own
    exact .inl rfl
  · intro key _
    rw [cached]
  · intro key c
    rw [cached]
    exact .inl
  · intro c client _ _ either
    rw [cached]
    exact either.imp_right fun owns => by cases owns

/-- Every step of a call. -/
lemma callStep_inv (inv : Inv m) (unreturned : m.returned = []) (here : m.tasks[k]? = some (.call init phase))
    (careful : m.Careful (.task k e)) (st : m.callStep k init phase e = some m') : Inv m' := by
  have known := inv.tasks k _ here
  cases phase with
  | waiting =>
    cases e with
    | lock =>
      rw [callStep] at st
      split at st
      · cases st
      next free =>
        have free := Bool.eq_false_iff.mpr free
        split at st
        · cases st
          exact inv.setCall here ⟨fresh_nil List.nodup_nil, trivial⟩ (.inr rfl) (fun _ owns => by cases owns) (fun _ e => by cases e)
            unreturned
        · cases st
          have known' : TaskInv m (.call init .detecting) := ⟨fresh_nil List.nodup_nil, trivial⟩
          apply inv.setTask here _ (fun _ owns => by cases owns) known' (fun _ _ e => by cases e) unreturned
          intro init' own
          cases own
          exact .inr free
    | _ => cases st
  | detecting =>
    cases e with
    | detect commands =>
      rw [callStep] at st
      split at st
      next nodup =>
        cases st
        exact inv.setCall here ⟨fresh_nil nodup, trivial⟩ (.inl rfl) (fun _ owns => by cases owns) (fun _ e => by cases e) unreturned
      · cases st
    | _ => cases st
  | checking commands clients =>
    cases e with
    | go =>
      cases commands with
      | nil =>
        have of : ∀ c ∈ clients, Of m init c := by
          intro c mem
          obtain ⟨client, there, own, _⟩ := known.1.clients c mem
          exact ⟨client, there, own⟩
        have after : m' = { m.setTask k (.call init (.served clients)) with returned := clients } := (Option.some.inj st).symm
        have f : Follows m m' fun _ => False := follows_of_eq (by rw [after]; rfl)
        have known' : TaskInv m' (.call init (.served clients)) :=
          ⟨fresh_nil List.nodup_nil, fun c mem => (of c mem).follow f⟩
        rw [after] at f known' ⊢
        apply inv.task here f rfl rfl _ _ (fun _ _ => rfl) (fun _ _ => .inl) _ known'
        · intro init' clients' e c mem
          cases e
          exact inv.unused here rfl (of c mem)
        · intro c mem
          obtain ⟨client, there, _, _, reads⟩ := known.1.clients c mem
          exact ⟨client, there, reads⟩
        · exact fun c client' there => ⟨inv.answered c client' there, fun runs => .inr ⟨client', there, rfl, runs⟩⟩
        · exact fun init' own => by cases own
        · exact fun c client _ _ either => either.imp_right fun owns => by cases owns
      | cons command commands =>
        rw [callStep] at st
        split at st
        next c cached =>
          obtain ⟨client, there, key⟩ := inv.keys _ c cached
          rw [there, Option.any_some] at st
          split at st
          next alive =>
            cases st
            have reads := careful init command commands clients c client here cached there alive
            exact inv.setCall here ⟨known.1.snoc there key reads, trivial⟩ (.inl rfl) (fun _ owns => by cases owns)
              (fun _ e => by cases e) unreturned
          next =>
            cases st
            exact inv.setCall here ⟨known.1, cached, fun joins => by cases joins⟩ (.inl rfl) (fun _ owns => by cases owns)
              (fun _ e => by cases e) unreturned
        next none_ =>
          cases st
          exact inv.setCall here ⟨known.1, none_⟩ (.inl rfl) (fun _ owns => by cases owns) (fun _ e => by cases e) unreturned
    | _ =>
      cases commands with
      | nil => cases st
      | cons command commands => cases st
  | replacing c stage command commands clients =>
    cases e with
    | go =>
      have own := inv.keys _ c known.2.1
      have unlisted : stage = .joining → ¬ m.Listed c := fun _ => inv.unlisted_call here rfl List.mem_cons_self own
      rw [callStep] at st
      split at st
      next m₁ next stopped =>
        cases st
        have s := stopped_of_stopClient inv known.2.2 unlisted unreturned stopped
        have here' := s.task here
        have known' := s.inv.tasks k _ here'
        exact s.inv.setCall here' ⟨known'.1, known'.2.1, s.quiet next rfl⟩ (.inl rfl) (fun _ owns => by cases owns)
          (fun _ e => by cases e) (s.unreturned unreturned)
      next m₁ stopped =>
        cases st
        have s := stopped_of_stopClient inv known.2.2 unlisted unreturned stopped
        have here' := s.task here
        have known' := s.inv.tasks k _ here'
        refine s.inv.setCached here' rfl rfl ?_ ?_ ?_ ?_ (fun _ _ e => by cases e) (s.unreturned unreturned)
        · intro key other
          have differ : key ≠ ⟨init, command⟩ := fun e => other (by rw [e])
          rw [Dict.get?_erase, if_neg differ]
        · exact fun key d cached => .inl (get?_of_get?_erase cached)
        · intro d client there runs either
          left
          have cached : m₁.cached.get? client.key = some d := either.resolve_right fun owns => by cases owns
          have differ : client.key ≠ ⟨init, command⟩ := by
            intro e
            rw [e, known'.2.1] at cached
            rw [← Option.some.inj cached] at there
            exact (s.gone rfl).not_running there runs
          rw [Dict.get?_erase, if_neg differ, cached]
        · have free : (m₁.cached.erase ⟨init, command⟩).get? ⟨init, command⟩ = none := by rw [Dict.get?_erase, if_pos rfl]
          exact ⟨known'.1.follow (follows_of_eq rfl) fun _ _ ended => ended, free⟩
      next => cases st
    | _ => cases st
  | starting command commands clients =>
    cases e with
    | spawn succeeds =>
      cases succeeds with
      | false =>
        cases st
        exact inv.setCall here ⟨known.1.tail, trivial⟩ (.inl rfl) (fun _ owns => by cases owns) (fun _ e => by cases e)
          unreturned
      | true => exact inv.spawn here unreturned (Option.some.inj st).symm
    | _ => cases st
  | initializing c command commands clients =>
    cases e with
    | initialized succeeds =>
      cases succeeds with
      | false =>
        cases st
        exact inv.setCall here ⟨known.1, known.2.1, known.2.2, fun joins => by cases joins⟩ (.inl rfl) (fun _ owns => owns)
          (fun _ e => by cases e) unreturned
      | true =>
        cases st
        obtain ⟨client, there, key⟩ := known.2.2
        have reads := careful init command commands clients c client here there
        refine inv.setCached here rfl rfl ?_ ?_ ?_ ?_ (fun _ _ e => by cases e) unreturned
        · intro key other
          have differ : key ≠ ⟨init, command⟩ := fun e => other (by rw [e])
          rw [Dict.get?_set, if_neg differ]
        · intro key' d cached
          rw [Dict.get?_set] at cached
          split at cached
          next e =>
            cases cached
            exact .inr ⟨client, there, by rw [e, key]⟩
          next => exact .inl cached
        · intro d other there' runs either
          left
          rw [Dict.get?_set]
          cases either with
          | inl cached =>
            have differ : other.key ≠ ⟨init, command⟩ := by
              intro e
              rw [e, known.2.1] at cached
              cases cached
            rw [if_neg differ, cached]
          | inr owns =>
            cases owns
            rw [there] at there'
            cases there'
            rw [if_pos key]
        · exact ⟨(known.1.snoc there key reads).follow (follows_of_eq rfl) fun _ _ ended => ended, trivial⟩
    | _ => cases st
  | dropping c stage command commands clients =>
    cases e with
    | go =>
      have unlisted : stage = .joining → ¬ m.Listed c := fun _ => inv.unlisted_call here rfl List.mem_cons_self known.2.2.1
      rw [callStep] at st
      split at st
      next m₁ next stopped =>
        cases st
        have s := stopped_of_stopClient inv known.2.2.2 unlisted unreturned stopped
        have here' := s.task here
        have known' := s.inv.tasks k _ here'
        exact s.inv.setCall here' ⟨known'.1, known'.2.1, known'.2.2.1, s.quiet next rfl⟩ (.inl rfl) (fun _ owns => owns)
          (fun _ e => by cases e) (s.unreturned unreturned)
      next m₁ stopped =>
        cases st
        have s := stopped_of_stopClient inv known.2.2.2 unlisted unreturned stopped
        have here' := s.task here
        have known' := s.inv.tasks k _ here'
        refine s.inv.setCached here' rfl rfl (fun _ _ => rfl) (fun _ _ => .inl) ?_ ⟨known'.1.tail, trivial⟩
          (fun _ _ e => by cases e) (s.unreturned unreturned)
        intro d client there runs either
        cases either with
        | inl cached => exact .inl cached
        | inr owns =>
          cases owns
          exact absurd runs ((s.gone rfl).not_running there)
      next => cases st
    | _ => cases st
  | served clients =>
    cases e with
    | finish =>
      cases st
      exact inv.setCall here ⟨fresh_nil List.nodup_nil, trivial⟩ (.inr rfl) (fun _ owns => by cases owns) (fun _ e => by cases e)
        unreturned
    | _ => cases st
  | finished =>
    cases e with
    | _ => cases st

/-! ## Stopping all -/

/-- Clients are popped: what is cached was cached before, and what is not popped stays. -/
structure Popped (m m' : LspManager) (init : Init) (gone : List Nat) : Prop where
  rest : m' = { m with cached := m'.cached }
  sub : ∀ key c, m'.cached.get? key = some c → m.cached.get? key = some c
  kept : ∀ key c, m.cached.get? key = some c → c ∉ gone → m'.cached.get? key = some c
  other : ∀ key : Key, (∀ c ∈ gone, Of m init c) → key.init ≠ init → m'.cached.get? key = m.cached.get? key

/-- One client is taken out. -/
lemma popped_pop : Popped m (m.pop c) init [c] := by
  rw [pop]
  split
  next client here =>
    split
    next cached =>
      refine ⟨rfl, fun key d => get?_of_get?_erase, fun key d there other => ?_, fun key of other => ?_⟩
      · have differ : key ≠ client.key := by
          intro e
          rw [e, cached] at there
          exact other (List.mem_singleton.mpr (Option.some.inj there).symm)
        rw [Dict.get?_erase, if_neg differ, there]
      · have differ : key ≠ client.key := by
          intro e
          obtain ⟨x, there, own⟩ := of c (List.mem_singleton.mpr rfl)
          rw [here] at there
          cases there
          exact other (by rw [e, own])
        rw [Dict.get?_erase, if_neg differ]
    next => exact ⟨rfl, fun _ _ h => h, fun _ _ h _ => h, fun _ _ _ => rfl⟩
  next => exact ⟨rfl, fun _ _ h => h, fun _ _ h _ => h, fun _ _ _ => rfl⟩

/-- Clients are taken out. -/
lemma popped_foldl {gone : List Nat} : Popped m (gone.foldl pop m) init gone := by
  induction gone generalizing m with
  | nil => exact ⟨rfl, fun _ _ h => h, fun _ _ h _ => h, fun _ _ _ => rfl⟩
  | cons c gone ih =>
    have first : Popped m (m.pop c) init [c] := popped_pop
    have more : Popped (m.pop c) (gone.foldl pop (m.pop c)) init gone := ih
    have clients : (m.pop c).clients = m.clients := by rw [first.rest]
    constructor
    case rest =>
      rw [List.foldl_cons, more.rest, first.rest]
    case sub => exact fun key d there => first.sub key d (more.sub key d there)
    case kept =>
      intro key d there other
      apply more.kept key d _ (List.not_mem_of_not_mem_cons other)
      exact first.kept key d there fun mem => List.ne_of_not_mem_cons other (List.mem_singleton.mp mem)
    case other =>
      intro key of other
      have of' : ∀ d ∈ gone, Of (m.pop c) init d := by
        intro d mem
        obtain ⟨client, here, own⟩ := of d (List.mem_cons_of_mem c mem)
        exact ⟨client, by rw [clients, here], own⟩
      have alone : ∀ d ∈ [c], Of m init d := by
        intro d mem
        rw [List.mem_singleton.mp mem]
        exact of c List.mem_cons_self
      exact (more.other key of' other).trans (first.other key alone other)

/-- They are of that root. -/
lemma of_of_mem_ofInit {clients : List Nat} (mem : c ∈ m.ofInit init clients) : Of m init c := by
  have kept := (List.mem_filter.mp mem).2
  obtain ⟨client, here, own⟩ := (Option.any_eq_true _ _).mp kept
  exact ⟨client, here, of_decide_eq_true own⟩

/-- Every step of `stop`. -/
lemma managerStopStep_inv {phase : StopPhase} (inv : Inv m) (unreturned : m.returned = [])
    (here : m.tasks[k]? = some (.stop phase)) (st : m.managerStopStep k phase e = some m') : Inv m' := by
  have known : StopInv m phase := inv.tasks k _ here
  cases phase with
  | cancelling =>
    cases e with
    | go =>
      rw [managerStopStep] at st
      split at st
      · cases st
        have known' : TaskInv m (.stop (.locking m.locks)) := trivial
        exact inv.setTask here (fun _ own => by cases own) (fun _ owns => by cases owns) known' (fun _ _ e => by cases e) unreturned
      · cases st
    | _ => cases st
  | locking inits =>
    cases inits with
    | nil =>
      cases e with
      | go =>
        cases st
        have known' : TaskInv m (.stop .finished) := trivial
        have inv' := inv.setTask here (fun _ own => by cases own) (fun _ owns => by cases owns) known' (fun _ _ e => by cases e)
          unreturned
        exact inv'.frame rfl rfl rfl unreturned (fun _ _ h => h) fun _ _ => .inl
      | _ => cases st
    | cons init inits =>
      cases e with
      | lock =>
        rw [managerStopStep] at st
        split at st
        · cases st
        next free =>
          cases st
          have known' : TaskInv m (.stop (.holding init (m.ofInit init (m.cached.entries.map Prod.snd)) inits)) :=
            fun c mem => of_of_mem_ofInit mem
          apply inv.setTask here _ (fun _ owns => by cases owns) known' (fun _ _ e => by cases e) unreturned
          intro init' own
          cases own
          exact .inr (Bool.eq_false_iff.mpr free)
      | _ => cases st
  | holding init todo inits =>
    cases todo with
    | nil =>
      cases e with
      | go =>
        cases st
        have known' : TaskInv m (.stop (.locking inits)) := trivial
        exact inv.setTask here (fun _ own => by cases own) (fun _ owns => by cases owns) known' (fun _ _ e => by cases e) unreturned
      | _ => cases st
    | cons c todo =>
      cases e with
      | go =>
        cases st
        have known' : TaskInv m (.stop (.stopping c .graceful init todo inits)) :=
          ⟨known c List.mem_cons_self, fun joins => (by cases joins), fun d mem => known d (List.mem_cons_of_mem c mem)⟩
        exact inv.setTask here (fun _ own => .inl own) (fun _ owns => by cases owns) known' (fun _ _ e => by cases e) unreturned
      | _ => cases st
  | stopping c stage init todo inits =>
    cases e with
    | go =>
      have unlisted : stage = .joining → ¬ m.Listed c := by
        refine fun _ => inv.unlisted known.1 fun i s there holds mem => ?_
        have one := inv.mutex i k s _ init there here holds rfl
        rw [one, here] at there
        cases there
        cases mem
      rw [managerStopStep] at st
      split at st
      next m₁ next stopped =>
        cases st
        have s := stopped_of_stopClient inv known.2.1 unlisted unreturned stopped
        have here' := s.task here
        have was : StopInv m₁ (.stopping c stage init todo inits) := s.inv.tasks k _ here'
        have known' : TaskInv m₁ (.stop (.stopping c next init todo inits)) := ⟨was.1, s.quiet next rfl, was.2.2⟩
        exact s.inv.setTask here' (fun _ own => .inl own) (fun _ owns => by cases owns) known' (fun _ _ e => by cases e)
          (s.unreturned unreturned)
      next m₁ stopped =>
        cases st
        have s := stopped_of_stopClient inv known.2.1 unlisted unreturned stopped
        have here' := s.task here
        have was : StopInv m₁ (.stopping c stage init todo inits) := s.inv.tasks k _ here'
        have popped : Popped m₁ (m₁.pop c) init [c] := popped_pop
        have known' : TaskInv { m₁ with cached := (m₁.pop c).cached } (.stop (.holding init todo inits)) := was.2.2
        rw [popped.rest]
        refine s.inv.setCached here' rfl rfl ?_ ?_ ?_ known' (fun _ _ e => by cases e) (s.unreturned unreturned)
        · intro key other
          apply popped.other key _ other
          intro d mem
          rw [List.mem_singleton.mp mem]
          exact was.1
        · exact fun key d cached => .inl (popped.sub key d cached)
        · intro d client there runs either
          left
          have cached : m₁.cached.get? client.key = some d := either.resolve_right fun owns => by cases owns
          apply popped.kept client.key d cached
          intro mem
          rw [List.mem_singleton.mp mem] at there
          exact (s.gone rfl).not_running there runs
      next => cases st
    | _ => cases st
  | finished =>
    cases e with
    | _ => cases st

/-! ## The cleanup -/

/-- The cleanup goes on, and changes what is cached under its lock. -/
lemma Inv.setCleanup {cleanup : Cleanup} {cached : Dict Key Nat} (inv : Inv m)
    (holds : ∀ init, cleanup.holds = some init → m.cleanup.holds = some init ∨ m.locked init = false)
    (same : ∀ key : Key, m.cleanup.holds ≠ some key.init → cached.get? key = m.cached.get? key)
    (sub : ∀ key c, cached.get? key = some c → m.cached.get? key = some c)
    (kept : ∀ (c : Nat) (client : LspClient), m.clients[c]? = some client → client.process = .running →
      m.cached.get? client.key = some c → cached.get? client.key = some c)
    (known : CleanupInv m cleanup) : Inv { m with cached, cleanup } := by
  have f : Follows m { m with cached, cleanup } fun _ => False := follows_of_eq rfl
  constructor
  case keys => exact fun key c there => inv.keys key c (sub key c there)
  case mutex => exact inv.mutex
  case apart =>
    intro i s init there own other
    cases holds init other with
    | inl before => exact inv.apart i s init there own before
    | inr free => exact (not_locked free).1 i s there own
  case running =>
    intro c client there runs
    exact (inv.running c client there runs).imp_left (kept c client there runs)
  case tasks =>
    intro i s there
    exact (inv.tasks i s there).follow f (fun _ _ ended => ended) fun key own => same key (inv.apart i s key.init there own)
  case cleanup => exact known.follow f fun c used => .inl used
  case answered => exact inv.answered
  case handed => exact inv.handed

/-- The cleanup goes on, with the cache as it was. -/
lemma Inv.moveCleanup {cleanup : Cleanup} (inv : Inv m)
    (holds : ∀ init, cleanup.holds = some init → m.cleanup.holds = some init ∨ m.locked init = false)
    (known : CleanupInv m cleanup) : Inv { m with cleanup } :=
  inv.setCleanup holds (fun _ _ => rfl) (fun _ _ h => h) (fun _ _ _ _ h => h) known

/-- A cancellation leaves the loop, or is not possible. -/
lemma abort_spec {cleanup : Cleanup} : m.cleanupStep cleanup .abort = none ∨
    m.cleanupStep cleanup .abort = if m.tasks.contains (.stop .cancelling) then some { m with cleanup := .none } else none := by
  cases cleanup with
  | none => exact .inl rfl
  | stopping c stage init todo gone pass =>
    cases stage with
    | joining => exact .inl rfl
    | _ => exact .inr rfl
  | sleeping => exact .inr rfl
  | locking pass =>
    obtain ⟨now, clients, inits⟩ := pass
    cases inits with
    | _ => exact .inr rfl
  | holding init todo gone pass =>
    cases todo with
    | _ => exact .inr rfl

/-- Every step of the cleanup. -/
lemma cleanupStep_inv {cleanup : Cleanup} {e : CleanupEvent} (inv : Inv m) (unreturned : m.returned = [])
    (here : m.cleanup = cleanup) (careful : m.Careful (.cleanup e)) (st : m.cleanupStep cleanup e = some m') : Inv m' := by
  have known : CleanupInv m cleanup := here ▸ inv.cleanup
  -- a cancellation leaves the loop
  have aborted : e = .abort → Inv m' := by
    intro aborts
    rw [aborts] at st
    have gone : m' = { m with cleanup := .none } := by
      cases abort_spec with
      | inl kept =>
        rw [kept] at st
        cases st
      | inr left =>
        rw [left] at st
        split at st
        · exact (Option.some.inj st).symm
        · cases st
    rw [gone]
    exact inv.moveCleanup (fun _ own => by cases own) trivial
  cases cleanup with
  | none =>
    cases e with
    | _ => cases st
  | sleeping =>
    cases e with
    | wake =>
      cases st
      exact inv.moveCleanup (fun _ own => by cases own) trivial
    | abort => exact aborted rfl
    | _ => cases st
  | locking pass =>
    obtain ⟨now, clients, inits⟩ := pass
    cases inits with
    | nil =>
      cases e with
      | go =>
        cases st
        exact inv.moveCleanup (fun _ own => by cases own) trivial
      | abort => exact aborted rfl
      | _ => cases st
    | cons init inits =>
      cases e with
      | lock =>
        rw [cleanupStep] at st
        split at st
        · cases st
        next free =>
          split at st
          · cases st
            exact inv.moveCleanup (fun _ own => by cases own) trivial
          · cases st
            have known' : CleanupInv m (.holding init (m.ofInit init clients) [] ⟨now, clients, inits⟩) :=
              ⟨fun c mem => of_of_mem_ofInit mem, fun c mem => absurd mem List.not_mem_nil⟩
            apply inv.moveCleanup _ known'
            intro init' own
            cases own
            exact .inr (Bool.eq_false_iff.mpr free)
      | abort => exact aborted rfl
      | _ => cases st
  | holding init todo gone pass =>
    cases todo with
    | nil =>
      cases e with
      | go =>
        cases st
        have popped : Popped m (gone.foldl pop m) init gone := popped_foldl
        rw [popped.rest]
        refine inv.setCleanup (fun _ own => by cases own) ?_ popped.sub ?_ trivial
        · intro key other
          apply popped.other key fun c mem => (known.2 c mem).1
          intro e
          rw [here, e] at other
          exact other rfl
        · intro c client there runs cached
          apply popped.kept client.key c cached
          exact fun mem => (known.2 c mem).2.not_running there runs
      | abort => exact aborted rfl
      | _ => cases st
    | cons c todo =>
      cases e with
      | go =>
        have todo' : ∀ d ∈ todo, Of m init d := fun d mem => known.1 d (List.mem_cons_of_mem c mem)
        have skipped : Inv { m with cleanup := .holding init todo gone pass } := by
          have known' : CleanupInv m (.holding init todo gone pass) := ⟨todo', known.2⟩
          apply inv.moveCleanup _ known'
          exact fun init' own => .inl (by rw [here]; exact own)
        rw [cleanupStep] at st
        split at st
        next client there =>
          split at st
          next picked =>
            cases st
            have unused : ¬ m.InUse c := by
              intro used
              have fresh := careful init c todo gone pass client here there picked.1 used
              rw [fresh] at picked
              cases picked.2
            have known' : CleanupInv m (.stopping c .graceful init todo gone pass) :=
              ⟨known.1 c List.mem_cons_self, fun joins => (by cases joins), unused, todo', known.2⟩
            apply inv.moveCleanup _ known'
            exact fun init' own => .inl (by rw [here]; exact own)
          next =>
            cases st
            exact skipped
        next =>
          cases st
          exact skipped
      | abort => exact aborted rfl
      | _ => cases st
  | stopping c stage init todo gone pass =>
    cases e with
    | go =>
      have unlisted : stage = .joining → ¬ m.Listed c := by
        refine fun _ => inv.unlisted known.1 fun i s there holds _ => ?_
        apply inv.apart i s init there holds
        rw [here]
        rfl
      rw [cleanupStep] at st
      split at st
      next m₁ next stopped =>
        cases st
        have s := stopped_of_stopClient inv known.2.1 unlisted unreturned stopped
        have here' : m₁.cleanup = .stopping c stage init todo gone pass := by rw [s.rest]; exact here
        have was : CleanupInv m₁ (.stopping c stage init todo gone pass) := here' ▸ s.inv.cleanup
        have known' : CleanupInv m₁ (.stopping c next init todo gone pass) := ⟨was.1, s.quiet next rfl, was.2.2⟩
        apply s.inv.moveCleanup _ known'
        exact fun init' own => .inl (by rw [here']; exact own)
      next m₁ stopped =>
        cases st
        have s := stopped_of_stopClient inv known.2.1 unlisted unreturned stopped
        have here' : m₁.cleanup = .stopping c stage init todo gone pass := by rw [s.rest]; exact here
        have was : CleanupInv m₁ (.stopping c stage init todo gone pass) := here' ▸ s.inv.cleanup
        have gone' : ∀ d ∈ gone ++ [c], Of m₁ init d ∧ Gone m₁ d := by
          intro d mem
          cases List.mem_append.mp mem with
          | inl old => exact was.2.2.2.2 d old
          | inr new =>
            rw [List.mem_singleton.mp new]
            exact ⟨was.1, s.gone rfl⟩
        have known' : CleanupInv m₁ (.holding init todo (gone ++ [c]) pass) := ⟨was.2.2.2.1, gone'⟩
        apply s.inv.moveCleanup _ known'
        exact fun init' own => .inl (by rw [here']; exact own)
      next => cases st
    | abort => exact aborted rfl
    | _ => cases st

/-! ## Runs -/

/-- Every step. -/
lemma next_inv {e : Event} (inv : Inv m) (unreturned : m.returned = []) (careful : m.Careful e) (st : m.next e = some m') :
    Inv m' := by
  cases e with
  | tick now =>
    rw [next] at st
    split at st
    · cases st
      exact inv.frame rfl rfl rfl unreturned (fun _ _ h => h) fun _ _ => .inl
    · cases st
  | client c e =>
    obtain ⟨client', went, e'⟩ := Option.map_eq_some_iff.mp st
    obtain ⟨client, here, went⟩ := Option.bind_eq_some_iff.mp went
    cases e'
    have keeps : client.Keeps client' := by
      apply LspClient.keeps_step went
      intro i e ended r there
      rw [e] at careful
      exact careful client r here there ended
    apply inv.setClient here keeps _ unreturned
    by_cases ends : e = .readEnds
    · rw [ends] at careful
      exact .inr careful
    · exact .inl (LspClient.readLoop_step went ends)
  | start =>
    cases st
    split
    · exact inv.moveCleanup (fun _ own => by cases own) trivial
    · exact inv
  | call init =>
    cases st
    refine inv.frame rfl rfl rfl unreturned (fun k t here => getElem?_snoc_iff.mpr (.inl here)) ?_
    exact fun k t there => (getElem?_snoc_iff.mp there).imp_right fun new => .inr ⟨init, new.2⟩
  | stop =>
    cases st
    refine inv.frame rfl rfl rfl unreturned (fun k t here => getElem?_snoc_iff.mpr (.inl here)) ?_
    exact fun k t there => (getElem?_snoc_iff.mp there).imp_right fun new => .inl new.2
  | task k e =>
    rw [next] at st
    split at st
    next init phase here => exact callStep_inv inv unreturned here careful st
    next phase here => exact managerStopStep_inv inv unreturned here st
    next => cases st
  | cleanup e => exact cleanupStep_inv inv unreturned rfl careful st

/-- A careful step keeps the invariant. -/
lemma step_inv {e : Event} (inv : Inv m) (careful : m.Careful e) (st : Step m e m') : Inv m' := by
  have inv' : Inv { m with returned := [] } := inv.frame rfl rfl rfl rfl (fun _ _ h => h) fun _ _ => .inl
  apply next_inv inv' rfl _ st
  -- the condition does not read what was returned
  cases e with
  | client c e =>
    cases e with
    | _ => exact careful
  | task k e =>
    cases e with
    | initialized succeeds =>
      cases succeeds with
      | true => exact careful
      | false => trivial
    | _ => exact careful
  | cleanup e =>
    cases e with
    | _ => exact careful
  | _ => trivial

end

/-- The empty manager. -/
lemma inv_initial : Inv {} where
  keys _ _ there := by cases there
  mutex _ _ _ _ _ there := by cases there
  apart _ _ _ there := by cases there
  running _ _ there := by cases there
  tasks _ _ there := by cases there
  cleanup := trivial
  answered _ _ there := by cases there
  handed _ mem := absurd mem List.not_mem_nil

/-- In every run with careful steps the clients are usable. -/
theorem usable_of_careful (es : List Event) (m : LspManager) (run : Run (Guarded Careful Step) {} es m) : Usable m :=
  usable_of_inv (run.invariant inv_initial fun inv st => step_inv inv st.1 st.2)

/-! ## Two runs -/

/-- The states that events lead to. -/
def play (m : LspManager) : List Event → Option LspManager
  | [] => some m
  | e :: es => ({ m with returned := [] }.next e).bind (play · es)

/-- What is played is a run. -/
lemma run_of_play {es : List Event} {m m' : LspManager} (played : play m es = some m') : Run Step m es m' := by
  induction es generalizing m with
  | nil =>
    cases played
    exact .nil
  | cons e es ih =>
    obtain ⟨next, st, rest⟩ := Option.bind_eq_some_iff.mp played
    exact Run.cons st (ih rest)

/-- A step that is seen to be careful. -/
def checked (m : LspManager) : Event → Bool
  | .client c (.sent i) => (m.clients[c]?).all fun client => (client.requests[i]?).all fun r =>
    client.readLoop != .ended || r.done
  | .client _ .readEnds => false
  | .task k .go =>
    match m.tasks[k]? with
    | some (.call init (.checking (command :: _) _)) => (m.cached.get? ⟨init, command⟩).all fun c =>
      (m.clients[c]?).all fun client => !client.alive || client.readLoop == .reading
    | _ => true
  | .task k (.initialized true) =>
    match m.tasks[k]? with
    | some (.call _ (.initializing c _ _ _)) => (m.clients[c]?).all fun client => client.readLoop == .reading
    | _ => true
  | .cleanup .go =>
    match m.cleanup with
    | .holding _ (c :: _) _ _ => m.tasks.all fun
      | .call _ (.served clients) => !clients.contains c
      | _ => true
    | _ => true
  | _ => true

/-- What is checked is careful. -/
lemma careful_of_checked {m : LspManager} {e : Event} (check : checked m e = true) : m.Careful e := by
  cases e with
  | client c e =>
    cases e with
    | sent i =>
      intro client r here there ended
      simp only [checked, here, there, ended, Option.all_some, bne_self_eq_false, Bool.false_or] at check
      exact check
    | readEnds => cases check
    | _ => trivial
  | task k e =>
    cases e with
    | go =>
      intro init command commands clients c client here cached there alive
      simp only [checked, here, cached, there, alive, Option.all_some, Bool.not_true, Bool.false_or, beq_iff_eq] at check
      exact check
    | initialized succeeds =>
      cases succeeds with
      | true =>
        intro init command commands clients c client here there
        simp only [checked, here, there, Option.all_some, beq_iff_eq] at check
        exact check
      | false => trivial
    | _ => trivial
  | cleanup e =>
    cases e with
    | go =>
      intro init c todo gone pass client holding here cached inUse
      obtain ⟨k, init', clients, task, mem⟩ := inUse
      simp only [checked, holding, List.all_eq_true] at check
      have unused := check _ (List.mem_of_getElem? task)
      simp only [Bool.not_eq_true', List.contains_eq_mem, decide_eq_false_iff_not] at unused
      exact absurd mem unused
    | _ => trivial
  | _ => trivial

/-- All steps are seen to be careful. -/
def allChecked (m : LspManager) : List Event → Bool
  | [] => true
  | e :: es => checked m e && ({ m with returned := [] }.next e).all (allChecked · es)

/-- A checked play is a guarded run. -/
lemma guarded_of_play {es : List Event} {m m' : LspManager} (played : play m es = some m')
    (check : allChecked m es = true) : Run (Guarded Careful Step) m es m' := by
  induction es generalizing m with
  | nil =>
    cases played
    exact .nil
  | cons e es ih =>
    obtain ⟨next, st, rest⟩ := Option.bind_eq_some_iff.mp played
    rw [allChecked, st, Bool.and_eq_true, Option.all_some] at check
    exact Run.cons ⟨careful_of_checked check.1, st⟩ (ih rest check.2)

def home : Init := ("/repo", "python")

/-- A call starts a server and sends it a request; when it has ended, the cleanup stops the idle client, and the next
call starts another server. -/
def restartEvents : List Event :=
  [.call home, .task 0 .lock, .task 0 (.detect [["ty"]]), .task 0 .go, .task 0 (.spawn true), .task 0 (.initialized true),
    .task 0 .go, .client 0 .send, .client 0 (.sent 0), .client 0 (.answer 0), .client 0 (.returns 0), .task 0 .finish,
    .start, .tick 400, .cleanup .wake, .cleanup .lock, .cleanup .go, .cleanup .go, .client 0 .exit, .cleanup .go,
    .cleanup .go, .cleanup .go, .cleanup .go, .call home, .task 1 .lock, .task 1 (.detect [["ty"]]), .task 1 .go,
    .task 1 (.spawn true), .task 1 (.initialized true), .task 1 .go]

/-- What the run returns. -/
lemma restart_returned : (play {} restartEvents).map (fun m => (m.returned, m.clients.map (·.process))) =
    some ([1], [.exited, .running]) := by
  decide

/-- A careful run with a restart. -/
theorem restarted_usable : ∃ m, play {} restartEvents = some m ∧ m.returned = [1] ∧
    m.clients.map (·.process) = [.exited, .running] ∧ Usable m := by
  obtain ⟨m, played, found⟩ := Option.map_eq_some_iff.mp restart_returned
  refine ⟨m, played, congrArg Prod.fst found, congrArg Prod.snd found, ?_⟩
  exact usable_of_careful restartEvents m (guarded_of_play played (by decide))

/-- A call starts a server, whose read loop fails at a bad header while the process runs. The next call is given its
client. -/
def deafEvents : List Event :=
  [.call home, .task 0 .lock, .task 0 (.detect [["ty"]]), .task 0 .go, .task 0 (.spawn true), .task 0 (.initialized true),
    .task 0 .go, .task 0 .finish, .client 0 .readEnds, .call home, .task 1 .lock, .task 1 (.detect [["ty"]]), .task 1 .go,
    .task 1 .go]

/-- What the run returns. -/
lemma deaf_returned : (play {} deafEvents).map (fun m => (m.returned, m.clients.map (·.readLoop))) = some ([0], [.ended]) := by
  decide

/-- `get_clients` returns a client that nobody reads. -/
theorem deaf_not_usable : ¬ ∀ (es : List Event) (m : LspManager), Run Step {} es m → Usable m := by
  intro all
  obtain ⟨m, played, found⟩ := Option.map_eq_some_iff.mp deaf_returned
  have usable := all deafEvents m (run_of_play played)
  have returned : m.returned = [0] := congrArg Prod.fst found
  have loops : m.clients.map (·.readLoop) = [.ended] := congrArg Prod.snd found
  obtain ⟨client, here, reads⟩ := usable.handed 0 (by rw [returned]; exact List.mem_singleton.mpr rfl)
  have loop : (m.clients.map (·.readLoop))[0]? = some client.readLoop := by rw [List.getElem?_map, here, Option.map_some]
  rw [loops, reads] at loop
  cases loop

end OpenAgentd.Lsp
