import OpenAgentd.Mcp.Manager
import OpenAgentd.Lib.Slots

/-!
# What the manager tells

Runs of the manager in which restarts take the lock while it is started. Tasks that are not done are registered under
their names (`Base.kept`), and there is none when the manager is not started (`Base.idle`): an operation registers a name
when the task before is done. Such a run goes through truthful states if and only if its steps are orderly
(`truthful_iff`).
-/

namespace OpenAgentd.Mcp
open OpenAgentd.Lib Manager

section
variable {m m' : Manager} {r r' : ServerRunner} {name name' : String} {config : ServerConfig} {i j : Nat} {e : Event}
  {h : Holder}

/-! ## The invariant -/

/-- A task that waits for its shutdown has published its session. -/
def ServerRunner.Sound (r : ServerRunner) : Prop :=
  r.phase = .serving → r.state = .ready ∧ ∃ session, r.session = some session ∧
    r.tools = session.tools.map (MCPTool.mk r.name)

/-- What holds of the runners and their names. -/
structure Base (m : Manager) : Prop where
  sound : ∀ (i : Nat) (r : ServerRunner), m.runners[i]? = some r → r.Sound
  known : ∀ name i, m.registered.get? name = some i → ∃ r, m.runners[i]? = some r ∧ r.name = name
  kept : ∀ (i : Nat) (r : ServerRunner), m.runners[i]? = some r → r.phase.unfinished → m.registered.get? r.name = some i
  idle : m.started = false → ∀ (i : Nat) (r : ServerRunner), m.runners[i]? = some r → r.phase.unfinished = false

/-- What the holder of the lock knows. -/
def Held (m : Manager) : Holder → Prop
  | .restart name _ i _ => m.registered.get? name = some i ∧ m.started
  | .remove name i _ => m.registered.get? name = some i
  | .stop tasks => ∀ (i : Nat) (r : ServerRunner), m.runners[i]? = some r → r.phase.unfinished → i ∈ tasks
  | .reload tasks => ∀ (i : Nat) (r : ServerRunner), m.runners[i]? = some r → r.phase.unfinished → i ∈ tasks

structure Inv (m : Manager) : Prop extends Base m where
  held : ∀ h, m.holder = some h → Held m h
  silent : m.stopped → ∀ (i : Nat) (r : ServerRunner), m.runners[i]? = some r → r.phase.unfinished = false

/-- What is told of the names. -/
def Told (m : Manager) : Prop :=
  ∀ name r, m.runner? name = some r → (r.state = .ready → r.phase = .serving) ∧ r.onDisk = some r.config

/-- A runner has its name. -/
lemma Base.name_of_runner (base : Base m) (found : m.runner? name = some r) : r.name = name := by
  obtain ⟨i, taken, here⟩ := Option.bind_eq_some_iff.mp found
  obtain ⟨r', here', named⟩ := base.known name i taken
  rw [here] at here'
  cases here'
  exact named

/-- The names are what the manager can be wrong about. -/
lemma truthful_iff_told (inv : Inv m) : Truthful m ↔ Told m := by
  constructor
  · intro truthful name r found
    refine ⟨fun ready => ?_, truthful.configured name r found⟩
    obtain ⟨_, _, serving, _⟩ := truthful.ready name r found ready
    exact serving
  · intro told
    constructor
    case ready =>
      intro name r found ready
      obtain ⟨i, _, here⟩ := Option.bind_eq_some_iff.mp found
      have serving := (told name r found).1 ready
      obtain ⟨_, session, live, tools⟩ := inv.sound i r here serving
      refine ⟨session, live, serving, ?_⟩
      rw [getToolsForServer, found, Option.map_some, if_pos ready, tools, inv.name_of_runner found]
    case idle =>
      intro name r found other
      rw [getToolsForServer, found, Option.map_some, if_neg other]
    case single =>
      intro i j r q here there same first second
      have one := inv.kept i r here first
      rw [same, inv.kept j q there second] at one
      exact (Option.some.inj one).symm
    case configured => exact fun name r found => (told name r found).2
    case silent => exact inv.silent

/-! ## Signals -/

/-- The runners are as before, but that some were signalled. -/
structure Signalled (m m' : Manager) : Prop where
  rest : m' = { m with runners := m'.runners }
  before : ∀ (j : Nat) (r' : ServerRunner), m'.runners[j]? = some r' → ∃ (r : ServerRunner) (b : Bool), m.runners[j]? = some r ∧ r' = { r with shutdown := b }
  after : ∀ (j : Nat) (r : ServerRunner), m.runners[j]? = some r → ∃ b, m'.runners[j]? = some { r with shutdown := b }

/-- Nothing is signalled. -/
lemma Signalled.refl (m : Manager) : Signalled m m where
  rest := rfl
  before _ r here := ⟨r, r.shutdown, here, rfl⟩
  after _ r here := ⟨r.shutdown, here⟩

/-- One runner is signalled. -/
lemma signalled_signal (m : Manager) (i : Nat) : Signalled m (m.signal i) where
  rest := rfl
  before j r' here := by
    rw [signal, List.getElem?_modify] at here
    obtain ⟨r, old, rfl⟩ := Option.map_eq_some_iff.mp here
    split
    next => exact ⟨r, true, old, rfl⟩
    next => exact ⟨r, r.shutdown, old, rfl⟩
  after j r here := by
    rw [signal, List.getElem?_modify, here]
    by_cases own : i = j
    · exact ⟨true, by rw [Option.map_eq_map, Option.map_some, if_pos own]⟩
    · exact ⟨r.shutdown, by rw [Option.map_eq_map, Option.map_some, if_neg own]⟩

/-- Signals in a row. -/
lemma Signalled.trans {a b c : Manager} (first : Signalled a b) (second : Signalled b c) : Signalled a c where
  rest := by
    have e := second.rest
    rw [first.rest] at e
    exact e
  before j r' here := by
    obtain ⟨r, x, old, rfl⟩ := second.before j r' here
    obtain ⟨q, y, older, rfl⟩ := first.before j r old
    exact ⟨q, x, older, rfl⟩
  after j r here := by
    obtain ⟨x, new⟩ := first.after j r here
    obtain ⟨y, newer⟩ := second.after j _ new
    exact ⟨y, newer⟩

/-- All are signalled. -/
lemma signalled_signalAll (m : Manager) : Signalled m m.signalAll := by
  have all : ∀ (es : List (String × Nat)) (m : Manager), Signalled m (es.foldl (fun m e => m.signal e.2) m) := by
    intro es
    induction es with
    | nil => exact Signalled.refl
    | cons e es ih => exact fun m => (signalled_signal m e.2).trans (ih _)
  exact all m.registered.entries m

/-- Signals keep the tables. -/
lemma Base.signalled (base : Base m) (s : Signalled m m') : Base m' := by
  have registered : m'.registered = m.registered := by rw [s.rest]
  have started : m'.started = m.started := by rw [s.rest]
  constructor
  case sound =>
    intro j r' here
    obtain ⟨r, b, old, rfl⟩ := s.before j r' here
    exact base.sound j r old
  case known =>
    intro name i taken
    rw [registered] at taken
    obtain ⟨r, here, named⟩ := base.known name i taken
    obtain ⟨b, there⟩ := s.after i r here
    exact ⟨_, there, named⟩
  case kept =>
    intro j r' here unfinished
    obtain ⟨r, b, old, rfl⟩ := s.before j r' here
    rw [registered]
    exact base.kept j r old unfinished
  case idle =>
    intro stopped j r' here
    obtain ⟨r, b, old, rfl⟩ := s.before j r' here
    rw [started] at stopped
    exact base.idle stopped j r old

/-- Signals tell nothing. -/
lemma told_signalled (s : Signalled m m') : Told m' ↔ Told m := by
  have registered : m'.registered = m.registered := by rw [s.rest]
  constructor
  · intro told name r found
    obtain ⟨i, taken, here⟩ := Option.bind_eq_some_iff.mp found
    obtain ⟨b, there⟩ := s.after i r here
    exact told name { r with shutdown := b } (Option.bind_eq_some_iff.mpr ⟨i, by rw [registered]; exact taken, there⟩)
  · intro told name r' found
    obtain ⟨i, taken, here⟩ := Option.bind_eq_some_iff.mp found
    rw [registered] at taken
    obtain ⟨r, b, old, rfl⟩ := s.before i r' here
    exact told name r (Option.bind_eq_some_iff.mpr ⟨i, taken, old⟩)

/-! ## Registration -/

/-- A runner is old or new. -/
lemma of_register (here : (m.register name config).runners[j]? = some r) :
    m.runners[j]? = some r ∨ j = m.runners.length ∧ r = m.makeRunner name config :=
  getElem?_snoc_iff.mp here

/-- Old runners stay. -/
lemma to_register (here : m.runners[j]? = some r) : (m.register name config).runners[j]? = some r :=
  getElem?_snoc_iff.mpr (.inl here)

/-- It has its name. -/
@[simp] lemma makeRunner_name : (m.makeRunner name config).name = name := by
  unfold makeRunner
  split <;> rfl

/-- It is sound. -/
lemma makeRunner_sound : (m.makeRunner name config).Sound := by
  intro serving
  unfold makeRunner at serving
  split at serving
  · cases serving
  · cases serving

/-- A name whose tasks are done is registered again. -/
lemma Base.register (base : Base m) (started : m.started = true)
    (fresh : ∀ (i : Nat) (r : ServerRunner), m.runners[i]? = some r → r.phase.unfinished → r.name ≠ name) : Base (m.register name config) where
  sound j r here := by
    cases of_register here with
    | inl old => exact base.sound j r old
    | inr new =>
      rw [new.2]
      exact makeRunner_sound
  known name' i taken := by
    rw [Manager.register, Dict.get?_set] at taken
    split at taken
    next own =>
      cases taken
      refine ⟨m.makeRunner name config, ?_, by rw [makeRunner_name, own]⟩
      exact List.getElem?_concat_length
    next other =>
      obtain ⟨r, here, named⟩ := base.known name' i taken
      exact ⟨r, to_register here, named⟩
  kept j r here unfinished := by
    rw [Manager.register, Dict.get?_set]
    cases of_register here with
    | inl old => rw [if_neg (fresh j r old unfinished), base.kept j r old unfinished]
    | inr new => rw [new.2, makeRunner_name, if_pos rfl, new.1]
  idle stopped := by
    rw [show (m.register name config).started = m.started from rfl, started] at stopped
    cases stopped

/-- The runner that is found. -/
lemma runner?_register (base : Base m) :
    (m.register name config).runner? name' = if name' = name then some (m.makeRunner name config) else m.runner? name' := by
  rw [runner?, Manager.register, Dict.get?_set]
  split
  next => exact List.getElem?_concat_length
  next other =>
    cases taken : m.registered.get? name' with
    | none => rw [runner?, taken]; rfl
    | some i =>
      obtain ⟨r, here, _⟩ := base.known name' i taken
      rw [runner?, taken, Option.bind_some, Option.bind_some, here]
      exact to_register here

/-- It knows the disk. -/
lemma makeRunner_onDisk : (m.makeRunner name config).onDisk = m.onDisk name ∧ (m.makeRunner name config).config = config ∧
    (m.makeRunner name config).state ≠ .ready := by
  unfold makeRunner
  split
  · refine ⟨rfl, rfl, fun ready => ?_⟩
    cases ready
  · refine ⟨rfl, rfl, fun ready => ?_⟩
    cases ready

/-- What is told of a name that is registered is what the file has. -/
lemma told_register (base : Base m) (told : Told m) : Told (m.register name config) ↔ m.onDisk name = some config := by
  obtain ⟨disk, own, fresh⟩ := @makeRunner_onDisk m name config
  constructor
  · intro told'
    have here := (told' name (m.makeRunner name config) (by rw [runner?_register base, if_pos rfl])).2
    rwa [disk, own] at here
  · intro current name' r found
    rw [runner?_register base] at found
    split at found
    next =>
      cases found
      rw [disk, own]
      exact ⟨fun ready => absurd ready fresh, current⟩
    next => exact told name' r found

/-- All names of the file are registered when no task is left. -/
lemma start_registers (base : Base m) (told : Told m) (es : List (String × ServerConfig)) (distinct : (es.map Prod.fst).Nodup)
    (started : m.started = true) (known : ∀ e ∈ es, m.onDisk e.1 = some e.2)
    (fresh : ∀ (i : Nat) (r : ServerRunner), m.runners[i]? = some r → r.phase.unfinished → r.name ∉ es.map Prod.fst) :
    Base (es.foldl (fun m e => m.register e.1 e.2) m) ∧ Told (es.foldl (fun m e => m.register e.1 e.2) m) ∧
      (es.foldl (fun m e => m.register e.1 e.2) m).holder = m.holder ∧
      (es.foldl (fun m e => m.register e.1 e.2) m).stopped = m.stopped := by
  induction es generalizing m with
  | nil => exact ⟨base, told, rfl, rfl⟩
  | cons e es ih =>
    obtain ⟨new, distinct⟩ := List.nodup_cons.mp distinct
    have base' : Base (m.register e.1 e.2) :=
      base.register started fun i r here unfinished same => fresh i r here unfinished (by rw [same]; exact List.mem_cons_self)
    have told' : Told (m.register e.1 e.2) := (told_register base told).mpr (known e List.mem_cons_self)
    refine ih base' told' distinct started (fun x mem => known x (List.mem_cons_of_mem _ mem)) fun i r here unfinished mem => ?_
    cases of_register here with
    | inl old => exact fresh i r old unfinished (List.mem_cons_of_mem _ mem)
    | inr made =>
      rw [made.2, makeRunner_name] at mem
      exact new mem

/-- No task is left. -/
def Quiet (m : Manager) : Prop := ∀ (i : Nat) (r : ServerRunner), m.runners[i]? = some r → r.phase.unfinished = false

/-- What the start does. -/
lemma startLocked_spec (base : Base m) (told : Told m) (quiet : Quiet m) :
    Base m.startLocked ∧ Told m.startLocked ∧ m.startLocked.holder = m.holder ∧ m.startLocked.stopped = m.stopped := by
  have base' : Base { m with started := true } :=
    ⟨base.sound, base.known, base.kept, fun started => by cases started⟩
  unfold startLocked
  split
  next => exact ⟨base', told, rfl, rfl⟩
  next cfg file =>
    refine start_registers base' told cfg.entries cfg.distinct rfl (fun e mem => ?_) fun i r here unfinished => ?_
    · show m.disk.bind (·.get? e.1) = some e.2
      rw [file]
      exact Dict.get?_eq_some.mpr mem
    · rw [quiet i r here] at unfinished
      cases unfinished

/-! ## Operations -/

/-- When a runner is unfinished. -/
lemma unfinished_iff : m.unfinished i = true ↔ ∃ r, m.runners[i]? = some r ∧ r.phase.unfinished = true := by
  unfold Manager.unfinished
  rw [Option.any_eq_true_iff_get]
  constructor
  · rintro ⟨some, unfinished⟩
    exact ⟨_, (Option.some_get some).symm, unfinished⟩
  · rintro ⟨r, here, unfinished⟩
    rw [here]
    exact ⟨rfl, unfinished⟩

/-- A task that is not done is waited for. -/
lemma Base.mem_pending (base : Base m) (here : m.runners[i]? = some r) (unfinished : r.phase.unfinished) : i ∈ m.pending := by
  have taken := Dict.get?_eq_some.mp (base.kept i r here unfinished)
  exact List.mem_filter.mpr ⟨List.mem_map.mpr ⟨_, taken, rfl⟩, unfinished_iff.mpr ⟨r, here, unfinished⟩⟩

/-- Who is awaited is unfinished. -/
lemma awaited_some (found : m.awaited name = some i) : m.registered.get? name = some i ∧ m.unfinished i = true :=
  Option.filter_eq_some_iff.mp found

/-- The name has no task that is not done. -/
lemma Base.fresh_of_awaited (base : Base m) (none : m.awaited name = none) (here : m.runners[i]? = some r)
    (unfinished : r.phase.unfinished) : r.name ≠ name := by
  intro same
  have taken := base.kept i r here unfinished
  rw [same] at taken
  have found : m.awaited name = some i :=
    Option.filter_eq_some_iff.mpr ⟨taken, unfinished_iff.mpr ⟨r, here, unfinished⟩⟩
  rw [none] at found
  cases found

/-- No other runner is left. -/
lemma Base.fresh_of_done (base : Base m) (taken : m.registered.get? name = some i) (done : m.unfinished i = false)
    (here : m.runners[j]? = some r) (unfinished : r.phase.unfinished) : r.name ≠ name := by
  intro same
  have own := base.kept j r here unfinished
  rw [same, taken] at own
  cases own
  rw [unfinished_iff.mpr ⟨r, here, unfinished⟩] at done
  cases done

/-- The runner that is found. -/
lemma runner?_unregister : (m.unregister name).runner? name' = if name' = name then none else m.runner? name' := by
  rw [runner?, Manager.unregister, Dict.get?_erase]
  split
  next => rfl
  next => rfl

/-- A name whose task is done is given up. -/
lemma Base.unregister (base : Base m)
    (fresh : ∀ (i : Nat) (r : ServerRunner), m.runners[i]? = some r → r.phase.unfinished → r.name ≠ name) :
    Base (m.unregister name) where
  sound := base.sound
  known name' i taken := by
    rw [Manager.unregister, Dict.get?_erase] at taken
    split at taken
    · cases taken
    · exact base.known name' i taken
  kept i r here unfinished := by
    rw [Manager.unregister, Dict.get?_erase, if_neg (fresh i r here unfinished)]
    exact base.kept i r here unfinished
  idle := base.idle

/-- Taking out tells nothing wrong. -/
lemma told_unregister (told : Told m) : Told (m.unregister name) := by
  intro name' r found
  rw [runner?_unregister] at found
  split at found
  · cases found
  · exact told name' r found

/-- Clearing the tables. -/
lemma Base.clear (base : Base m) (quiet : Quiet m) : Base m.clear where
  sound := base.sound
  known name i taken := by cases taken
  kept i r here unfinished := by
    rw [quiet i r here] at unfinished
    cases unfinished
  idle _ := quiet

/-- Nothing is told. -/
lemma told_clear : Told m.clear := by
  intro name r found
  cases found

/-- What an operation leaves when its wait is over. -/
lemma goOn_spec (base : Base m) (told : Told m) (free : m.holder = none) (unsaid : m.stopped = false) (held : Held m h)
    (done : ∀ i ∈ h.tasks, m.unfinished i = false) (goes : m.goOn h = some m') :
    Inv m' ∧ (Told m' ↔ ∀ name config i timedOut, h = .restart name config i timedOut → m.onDisk name = some config) := by
  have quiet : (∀ (i : Nat) (r : ServerRunner), m.runners[i]? = some r → r.phase.unfinished → i ∈ h.tasks) → Quiet m := by
    intro all i r here
    rw [← Bool.not_eq_true]
    intro unfinished
    have no := done i (all i r here unfinished)
    rw [unfinished_iff.mpr ⟨r, here, unfinished⟩] at no
    cases no
  cases h with
  | restart name config i timedOut =>
    rw [goOn] at goes
    split at goes
    next =>
      cases goes
      obtain ⟨taken, started⟩ := held
      have fresh := fun j r => base.fresh_of_done (j := j) (r := r) taken (done i List.mem_cons_self)
      refine ⟨⟨base.register started fresh, fun h holds => ?_, fun stopped => ?_⟩, ?_⟩
      · rw [show (m.register name config).holder = m.holder from rfl, free] at holds
        cases holds
      · rw [show (m.register name config).stopped = m.stopped from rfl, unsaid] at stopped
        cases stopped
      · rw [told_register base told]
        constructor
        · intro current name' config' i' timedOut' same
          cases same
          exact current
        · exact fun all => all name config i timedOut rfl
    next => cases goes
  | remove name i timedOut =>
    rw [goOn] at goes
    split at goes
    next =>
      cases goes
      have fresh := fun j r => base.fresh_of_done (j := j) (r := r) held (done i List.mem_cons_self)
      refine ⟨⟨base.unregister fresh, fun h holds => ?_, fun stopped => ?_⟩, ?_⟩
      · rw [show (m.unregister name).holder = m.holder from rfl, free] at holds
        cases holds
      · rw [show (m.unregister name).stopped = m.stopped from rfl, unsaid] at stopped
        cases stopped
      · exact iff_of_true (told_unregister told) fun _ _ _ _ same => by cases same
    next => cases goes
  | stop tasks =>
    cases goes
    have base' := base.clear (quiet held)
    refine ⟨⟨⟨base'.sound, base'.known, base'.kept, base'.idle⟩, fun h holds => ?_, fun _ => quiet held⟩, ?_⟩
    · rw [show ({ m.clear with stopped := true } : Manager).holder = m.holder from rfl, free] at holds
      cases holds
    · exact iff_of_true told_clear fun _ _ _ _ same => by cases same
  | reload tasks =>
    cases goes
    obtain ⟨base', told', holder, stopped⟩ := startLocked_spec (base.clear (quiet held)) told_clear (quiet held)
    refine ⟨⟨base', fun h holds => ?_, fun said => ?_⟩, ?_⟩
    · rw [holder, show m.clear.holder = m.holder from rfl, free] at holds
      cases holds
    · rw [stopped, show m.clear.stopped = m.stopped from rfl, unsaid] at said
      cases said
    · exact iff_of_true told' fun _ _ _ _ same => by cases same

/-! ## Tasks -/

variable {re : RunnerEvent}

/-- What a step of a task can do. -/
inductive Moves (r : ServerRunner) : RunnerEvent → ServerRunner → Prop where
  | begin :
    r.phase = .created →
    Moves r .begin { r with phase := .opening }
  | connect session toolNames :
    r.phase = .opening →
    Moves r (.connect session) { r with
      phase := .serving, session := some session, tools := session.tools.map (MCPTool.mk r.name), state := .ready, toolNames,
      ready := true }
  | leave exit phase session :
    r.phase.unfinished = true →
    phase ≠ .serving →
    Moves r (.leave exit) { r with phase, session }
  | finish exit :
    r.phase = .leaving exit →
    Moves r .finish ({ r with phase := .done exit }.close exit)

/-- How a runner moves. -/
lemma moves_of_step (st : r.step re = some r') : Moves r re r' := by
  cases re with
  | begin =>
    simp only [ServerRunner.step] at st
    split at st
    next here =>
      cases st
      exact .begin here
    next => cases st
  | connect session =>
    simp only [ServerRunner.step] at st
    split at st
    next here =>
      cases st
      exact .connect session _ here
    next => cases st
  | leave exit =>
    cases exit with
    | normal =>
      simp only [ServerRunner.step] at st
      split at st
      next here =>
        cases st
        exact .leave .normal (.leaving .normal) none (by rw [here.1]; rfl) (by decide)
      next => cases st
    | cancelled =>
      simp only [ServerRunner.step] at st
      split at st
      next here =>
        cases st
        exact .leave .cancelled (.done .cancelled) r.session (by rw [here]; rfl) (by decide)
      next =>
        split at st
        next unfinished =>
          cases st
          exact .leave .cancelled (.leaving .cancelled) r.session unfinished (by decide)
        next => cases st
    | authRequired =>
      simp only [ServerRunner.step] at st
      split at st
      next here =>
        cases st
        exact .leave .authRequired (.leaving .authRequired) r.session here.2 (by decide)
      next => cases st
    | error =>
      simp only [ServerRunner.step] at st
      split at st
      next here =>
        cases st
        exact .leave .error (.leaving .error) r.session here.2 (by decide)
      next => cases st
  | finish =>
    simp only [ServerRunner.step] at st
    split at st
    next exit here =>
      cases st
      exact .finish exit here
    next => cases st

/-- Only a task that is not done goes on. -/
lemma Moves.unfinished (moves : Moves r re r') : r.phase.unfinished = true := by
  cases moves with
  | begin here => rw [here]; rfl
  | connect session toolNames here => rw [here]; rfl
  | leave exit phase session here => exact here
  | finish exit here => rw [here]; rfl

/-- What a runner was made for. -/
lemma Moves.same (moves : Moves r re r') : r'.name = r.name ∧ r'.config = r.config ∧ r'.onDisk = r.onDisk := by
  cases moves with
  | begin => exact ⟨rfl, rfl, rfl⟩
  | connect => exact ⟨rfl, rfl, rfl⟩
  | leave => exact ⟨rfl, rfl, rfl⟩
  | finish exit =>
    cases exit
    all_goals exact ⟨rfl, rfl, rfl⟩

/-- Closing keeps the phase. -/
lemma close_phase {exit : Exit} : (r.close exit).phase = r.phase := by
  cases exit
  all_goals rfl

/-- A moved runner is sound. -/
lemma Moves.sound (moves : Moves r re r') : r'.Sound := by
  intro serving
  cases moves with
  | begin => cases serving
  | connect session => exact ⟨rfl, session, rfl, rfl⟩
  | leave exit phase session _ other => exact absurd serving other
  | finish exit =>
    rw [close_phase] at serving
    cases serving

/-- A task that was right about its state stays so unless it leaves its wait. -/
lemma Moves.ready_iff (moves : Moves r re r') (sound : r.Sound) (told : r.state = .ready → r.phase = .serving) :
    (r'.state = .ready → r'.phase = .serving) ↔ ∀ exit, re = .leave exit → r.phase ≠ .serving := by
  cases moves with
  | begin here =>
    refine iff_of_true (fun ready => ?_) (fun _ e => by cases e)
    rw [told ready] at here
    cases here
  | connect => exact iff_of_true (fun _ => rfl) (fun _ e => by cases e)
  | leave exit phase session _ other =>
    constructor
    · intro right _ _ serving
      exact other (right (sound serving).1)
    · intro waits ready
      exact absurd (told ready) (waits exit rfl)
  | finish exit here =>
    refine iff_of_true (fun ready => ?_) (fun _ e => by cases e)
    cases exit with
    | normal =>
      rw [told ready] at here
      cases here
    | cancelled => cases ready
    | authRequired => cases ready
    | error => cases ready

/-- One task goes on. -/
lemma runner_spec (base : Base m) (told : Told m) (held : ∀ h, m.holder = some h → Held m h) (unsaid : m.stopped = false)
    (here : m.runners[i]? = some r) (moves : Moves r re r') :
    Inv { m with runners := m.runners.set i r' } ∧
      (Told { m with runners := m.runners.set i r' } ↔ ∀ exit, re = .leave exit → r.phase ≠ .serving) := by
  obtain ⟨name, config, onDisk⟩ := moves.same
  have taken := base.kept i r here moves.unfinished
  -- tasks that are not done were not done before
  have before : ∀ (j : Nat) (x : ServerRunner), (m.runners.set i r')[j]? = some x → x.phase.unfinished →
      ∃ y : ServerRunner, m.runners[j]? = some y ∧ y.phase.unfinished ∧ y.name = x.name := by
    intro j x there unfinished
    cases (getElem?_set_iff here).mp there with
    | inl new =>
      rw [new.1, new.2]
      exact ⟨r, here, moves.unfinished, name.symm⟩
    | inr old => exact ⟨x, old.2, unfinished, rfl⟩
  refine ⟨⟨?_, ?_, ?_⟩, ?_⟩
  case refine_1 =>
    constructor
    case sound =>
      intro j x there
      cases (getElem?_set_iff here).mp there with
      | inl new =>
        rw [new.2]
        exact moves.sound
      | inr old => exact base.sound j x old.2
    case known =>
      intro name' j found
      obtain ⟨x, there, named⟩ := base.known name' j found
      by_cases own : j = i
      · rw [own, here] at there
        cases there
        exact ⟨r', (getElem?_set_iff here).mpr (.inl ⟨own, rfl⟩), name.trans named⟩
      · exact ⟨x, (getElem?_set_iff here).mpr (.inr ⟨own, there⟩), named⟩
    case kept =>
      intro j x there unfinished
      obtain ⟨y, old, un, named⟩ := before j x there unfinished
      rw [← named]
      exact base.kept j y old un
    case idle =>
      intro stopped
      have no := base.idle stopped i r here
      rw [moves.unfinished] at no
      cases no
  case refine_2 =>
    intro h holds
    have known := held h holds
    cases h with
    | restart => exact known
    | remove => exact known
    | stop tasks =>
      intro j x there unfinished
      obtain ⟨y, old, un, _⟩ := before j x there unfinished
      exact known j y old un
    | reload tasks =>
      intro j x there unfinished
      obtain ⟨y, old, un, _⟩ := before j x there unfinished
      exact known j y old un
  case refine_3 =>
    intro said
    rw [show ({ m with runners := m.runners.set i r' } : Manager).stopped = m.stopped from rfl, unsaid] at said
    cases said
  case refine_4 =>
    have old : m.runner? r.name = some r := Option.bind_eq_some_iff.mpr ⟨i, taken, here⟩
    have right := told r.name r old
    rw [← moves.ready_iff (base.sound i r here) right.1]
    constructor
    · intro told'
      have found : (m.registered.get? r.name).bind ((m.runners.set i r')[·]?) = some r' :=
        Option.bind_eq_some_iff.mpr ⟨i, taken, (getElem?_set_iff here).mpr (.inl ⟨rfl, rfl⟩)⟩
      exact (told' r.name r' found).1
    · intro ready name' x found
      obtain ⟨j, taken', there⟩ := Option.bind_eq_some_iff.mp found
      cases (getElem?_set_iff here).mp there with
      | inl new =>
        rw [new.2]
        exact ⟨ready, by rw [onDisk, config]; exact right.2⟩
      | inr same => exact told name' x (Option.bind_eq_some_iff.mpr ⟨j, taken', same.2⟩)

/-! ## Steps -/

/-- Signals keep the hold. -/
lemma held_signalled (s : Signalled m m') (held : Held m h) : Held m' h := by
  have registered : m'.registered = m.registered := by rw [s.rest]
  have started : m'.started = m.started := by rw [s.rest]
  have all : ∀ tasks : List Nat,
      (∀ (i : Nat) (r : ServerRunner), m.runners[i]? = some r → r.phase.unfinished → i ∈ tasks) →
      ∀ (i : Nat) (r : ServerRunner), m'.runners[i]? = some r → r.phase.unfinished → i ∈ tasks := by
    intro tasks known i r' here unfinished
    obtain ⟨r, b, old, rfl⟩ := s.before i r' here
    exact known i r old unfinished
  cases h with
  | restart name config i timedOut =>
    unfold Held
    rw [registered, started]
    exact held
  | remove name i timedOut =>
    unfold Held
    rw [registered]
    exact held
  | stop tasks => exact all tasks held
  | reload tasks => exact all tasks held

/-- The lock is taken by an operation that waits. -/
lemma inv_waits (base : Base m) (unsaid : m.stopped = false) (s : Signalled m m') (held : Held m h) :
    Inv { m' with holder := some h } := by
  have stopped : m'.stopped = m.stopped := by rw [s.rest]
  have base' := base.signalled s
  have held' := held_signalled s held
  refine ⟨⟨base'.sound, base'.known, base'.kept, base'.idle⟩, fun h' holds => ?_, fun said => ?_⟩
  · cases holds
    cases h
    all_goals exact held'
  · rw [show ({ m' with holder := some h } : Manager).stopped = m'.stopped from rfl, stopped, unsaid] at said
    cases said

/-- All tasks are signalled, and there is none to wait for. -/
lemma goOn_at_once (base : Base m) (told : Told m) (free : m.holder = none) (unsaid : m.stopped = false)
    (none_ : m.pending = []) (ends : h = .stop [] ∨ h = .reload []) (goes : m.signalAll.goOn h = some m') :
    Inv m' ∧ Told m' := by
  have s := signalled_signalAll m
  have holder : m.signalAll.holder = m.holder := by rw [s.rest]
  have stopped : m.signalAll.stopped = m.stopped := by rw [s.rest]
  have quiet : ∀ (i : Nat) (r : ServerRunner), m.runners[i]? = some r → r.phase.unfinished → i ∈ ([] : List Nat) := by
    intro i r here unfinished
    rw [← none_]
    exact base.mem_pending here unfinished
  have spec : Held m h ∧ h.tasks = [] ∧ ∀ name config i timedOut, h ≠ .restart name config i timedOut := by
    cases ends with
    | inl e =>
      rw [e]
      exact ⟨quiet, rfl, fun _ _ _ _ same => by cases same⟩
    | inr e =>
      rw [e]
      exact ⟨quiet, rfl, fun _ _ _ _ same => by cases same⟩
  obtain ⟨held, empty, other⟩ := spec
  obtain ⟨inv, told_iff⟩ := goOn_spec (base.signalled s) ((told_signalled s).mpr told) (holder.trans free)
    (stopped.trans unsaid) (held_signalled s held) (by rw [empty]; exact fun i mem => absurd mem List.not_mem_nil) goes
  exact ⟨inv, told_iff.mpr fun name config i timedOut same => absurd same (other name config i timedOut)⟩

/-- All tasks are done. -/
lemma done_of_any (h' : ¬ (h.tasks.any m.unfinished) = true) : ∀ i ∈ h.tasks, m.unfinished i = false := by
  intro i mem
  rw [← Bool.not_eq_true]
  exact fun unfinished => h' (List.any_eq_true.mpr ⟨i, mem, unfinished⟩)

/-- What every step keeps, and when what is told stays right. -/
lemma next_spec (base : Base m) (told : Told m) (held : ∀ h, m.holder = some h → Held m h) (unsaid : m.stopped = false)
    (started : Started m e) (goes : m.next e = some m') : Inv m' ∧ (Told m' ↔ Orderly m e) := by
  have inv : Inv m := ⟨base, held, fun said => by rw [unsaid] at said; cases said⟩
  cases e with
  | edit disk =>
    cases goes
    exact ⟨⟨⟨base.sound, base.known, base.kept, base.idle⟩, fun h holds => by cases h <;> exact held _ holds, inv.silent⟩,
      iff_of_true told trivial⟩
  | start =>
    rw [next] at goes
    split at goes
    · cases goes
    next free =>
      split at goes
      · cases goes
        exact ⟨inv, iff_of_true told trivial⟩
      next fresh =>
        cases goes
        have quiet := base.idle (Bool.eq_false_iff.mpr fresh)
        obtain ⟨base', told', holder, stopped⟩ := startLocked_spec base told quiet
        refine ⟨⟨base', fun h holds => ?_, fun said => ?_⟩, iff_of_true told' trivial⟩
        · rw [holder, not_not.mp free] at holds
          cases holds
        · rw [stopped, unsaid] at said
          cases said
  | stop =>
    rw [next] at goes
    split at goes
    · cases goes
    next free =>
      split at goes
      next fresh =>
        cases goes
        have quiet := base.idle (Bool.eq_false_iff.mpr fresh)
        exact ⟨⟨⟨base.sound, base.known, base.kept, base.idle⟩, fun h holds => by cases h <;> exact held _ holds, fun _ => quiet⟩,
          iff_of_true told trivial⟩
      next =>
        split at goes
        next none_ =>
          obtain ⟨inv', told'⟩ := goOn_at_once base told (not_not.mp free) unsaid none_ (.inl rfl) goes
          exact ⟨inv', iff_of_true told' trivial⟩
        next =>
          cases goes
          have s := signalled_signalAll m
          have all : Held m (.stop m.pending) := fun i r here unfinished => base.mem_pending here unfinished
          exact ⟨inv_waits base unsaid s all, iff_of_true ((told_signalled s).mpr told) trivial⟩
  | reload =>
    rw [next] at goes
    split at goes
    · cases goes
    next free =>
      split at goes
      next none_ =>
        obtain ⟨inv', told'⟩ := goOn_at_once base told (not_not.mp free) unsaid none_ (.inr rfl) goes
        exact ⟨inv', iff_of_true told' trivial⟩
      next =>
        cases goes
        have s := signalled_signalAll m
        have all : Held m (.reload m.pending) := fun i r here unfinished => base.mem_pending here unfinished
        exact ⟨inv_waits base unsaid s all, iff_of_true ((told_signalled s).mpr told) trivial⟩
  | remove name =>
    rw [next] at goes
    split at goes
    · cases goes
    next free =>
      split at goes
      next i found =>
        cases goes
        have s := signalled_signal m i
        have own : Held m (.remove name i false) := (awaited_some found).1
        exact ⟨inv_waits base unsaid s own, iff_of_true ((told_signalled s).mpr told) trivial⟩
      next none_ =>
        cases goes
        have base' := base.unregister fun i r => base.fresh_of_awaited (i := i) (r := r) none_
        refine ⟨⟨base', fun h holds => ?_, inv.silent⟩, iff_of_true (told_unregister told) trivial⟩
        rw [show (m.unregister name).holder = m.holder from rfl, not_not.mp free] at holds
        cases holds
  | restart name =>
    rw [next] at goes
    split at goes
    next =>
      cases goes
      exact ⟨⟨⟨base.sound, base.known, base.kept, base.idle⟩, fun h holds => by cases h <;> exact held _ holds, inv.silent⟩,
        iff_of_true told trivial⟩
    next =>
      cases goes
      exact ⟨inv, iff_of_true told trivial⟩
  | lockRestart call =>
    rw [next] at goes
    split at goes
    · cases goes
    next free =>
      split at goes
      next => cases goes
      next name config read =>
        -- the call has left the queue
        have base' : Base { m with waiting := m.waiting.eraseIdx call } := ⟨base.sound, base.known, base.kept, base.idle⟩
        dsimp only at goes
        split at goes
        next i found =>
          cases goes
          have s := signalled_signal { m with waiting := m.waiting.eraseIdx call } i
          have own : Held { m with waiting := m.waiting.eraseIdx call } (.restart name config i false) :=
            ⟨(awaited_some found).1, started⟩
          refine ⟨inv_waits base' unsaid s own, iff_of_true ((told_signalled s).mpr told) ?_⟩
          intro name' config' read' none_
          rw [read] at read'
          cases read'
          rw [show m.awaited name = some i from found] at none_
          cases none_
        next none_ =>
          cases goes
          have fresh := fun i r => base'.fresh_of_awaited (i := i) (r := r) none_
          refine ⟨⟨base'.register started fresh, fun h holds => ?_, fun said => ?_⟩, ?_⟩
          · rw [show (Manager.register { m with waiting := m.waiting.eraseIdx call } name config).holder = m.holder from rfl,
              not_not.mp free] at holds
            cases holds
          · rw [show (Manager.register { m with waiting := m.waiting.eraseIdx call } name config).stopped = m.stopped from rfl,
              unsaid] at said
            cases said
          · rw [told_register base' told]
            constructor
            · intro current name' config' read' _
              rw [read] at read'
              cases read'
              exact current
            · exact fun all => all name config read none_
  | dropRestart call =>
    cases goes
    exact ⟨⟨⟨base.sound, base.known, base.kept, base.idle⟩, fun h holds => by cases h <;> exact held _ holds, inv.silent⟩,
      iff_of_true told trivial⟩
  | timeout =>
    rw [next] at goes
    split at goes
    next name config i holds =>
      cases goes
      have known : Held m (.restart name config i true) := held (.restart name config i false) holds
      exact ⟨inv_waits base unsaid (Signalled.refl m) known, iff_of_true told trivial⟩
    next name i holds =>
      cases goes
      have known : Held m (.remove name i true) := held (.remove name i false) holds
      exact ⟨inv_waits base unsaid (Signalled.refl m) known, iff_of_true told trivial⟩
    next => cases goes
  | resume =>
    rw [next] at goes
    split at goes
    next h holds =>
      split at goes
      · cases goes
      next done =>
        have base' : Base { m with holder := none } := ⟨base.sound, base.known, base.kept, base.idle⟩
        have held' : Held { m with holder := none } h := by
          have known := held h holds
          cases h
          all_goals exact known
        obtain ⟨inv', told_iff⟩ := goOn_spec base' told rfl unsaid held' (done_of_any done) goes
        refine ⟨inv', told_iff.trans ?_⟩
        constructor
        · intro current name config i timedOut holds'
          rw [holds] at holds'
          cases holds'
          exact current name config i timedOut rfl
        · intro current name config i timedOut same
          rw [same] at holds
          exact current name config i timedOut holds
    next => cases goes
  | abandon =>
    rw [next] at goes
    split at goes
    next h holds =>
      split at goes
      · cases goes
      next =>
        cases goes
        exact ⟨⟨⟨base.sound, base.known, base.kept, base.idle⟩, fun h holds => (by cases holds), inv.silent⟩,
          iff_of_true told trivial⟩
    next => cases goes
  | runner i re =>
    rw [next] at goes
    obtain ⟨r', st, rfl⟩ := Option.map_eq_some_iff.mp goes
    obtain ⟨r, here, st⟩ := Option.bind_eq_some_iff.mp st
    obtain ⟨inv', told_iff⟩ := runner_spec base told held unsaid here (moves_of_step st)
    refine ⟨inv', told_iff.trans ?_⟩
    cases re with
    | leave exit =>
      constructor
      · intro waits x here'
        rw [here] at here'
        cases here'
        exact waits exit rfl
      · exact fun waits _ _ => waits r here
    | begin => exact iff_of_true (fun _ same => by cases same) trivial
    | connect session => exact iff_of_true (fun _ same => by cases same) trivial
    | finish => exact iff_of_true (fun _ same => by cases same) trivial

/-- A step from a truthful state. -/
lemma step_spec (inv : Inv m) (truthful : Truthful m) (started : Started m e) (st : Step m e m') :
    Inv m' ∧ (Truthful m' ↔ Orderly m e) := by
  have told := (truthful_iff_told inv).mp truthful
  have base : Base { m with stopped := false } := ⟨inv.sound, inv.known, inv.kept, inv.idle⟩
  have held : ∀ h, ({ m with stopped := false } : Manager).holder = some h → Held { m with stopped := false } h := by
    intro h holds
    have known := inv.held h holds
    cases h
    all_goals exact known
  have started' : Started { m with stopped := false } e := by
    cases e
    all_goals exact started
  obtain ⟨inv', told_iff⟩ := next_spec base told held rfl started' st
  rw [truthful_iff_told inv', told_iff]
  refine ⟨inv', ?_⟩
  cases e with
  | runner i re =>
    cases re
    all_goals exact Iff.rfl
  | _ => exact Iff.rfl

end

/-- Before it is started. -/
lemma inv_init (disk : Option McpConfig) : Inv { disk } where
  sound i r here := by cases here
  known name i taken := by cases taken
  kept i r here := by cases here
  idle _ i r here := by cases here
  held h holds := by cases holds
  silent _ i r here := by cases here

/-- The start is truthful. -/
lemma truthful_init (disk : Option McpConfig) : Truthful { disk } :=
  (truthful_iff_told (inv_init disk)).mpr fun name r found => by cases found

/-- A run whose restarts take the lock while the manager is started goes through truthful states if and only if its steps
are orderly. -/
theorem truthful_iff (disk : Option McpConfig) (es : List Event) (m : Manager) :
    Run (Through Truthful (Guarded Started Step)) { disk } es m ↔
      Run (Guarded Orderly (Guarded Started Step)) { disk } es m := by
  apply Run.through_iff (inv_init disk) (truthful_init disk)
  intro m e m' inv truthful st
  exact step_spec inv truthful st.1 st.2

/-! ## A server that is stopped -/

/-- The states that events lead to. -/
def play (m : Manager) : List Event → Option Manager
  | [] => some m
  | e :: es => ({ m with stopped := false }.next e).bind (play · es)

/-- What is played is a run. -/
lemma run_of_play {es : List Event} {m m' : Manager} (played : play m es = some m') : Run Step m es m' := by
  induction es generalizing m with
  | nil =>
    cases played
    exact .nil
  | cons e es ih =>
    obtain ⟨next, st, rest⟩ := Option.bind_eq_some_iff.mp played
    exact Run.cons st (ih rest)

/-- A file with one server. -/
def oneServer : McpConfig := Dict.empty.set "a" { enabled := true, launch := "run" }

/-- The server is started and connects. The manager is stopped, and the task sees its shutdown. -/
def stopEvents : List Event :=
  [.start, .runner 0 .begin, .runner 0 (.connect { id := 0, tools := ["t"] }), .stop, .runner 0 (.leave .normal)]

/-- The runner that stops. -/
lemma stopping_runner : (play { disk := some oneServer } stopEvents).bind (·.runner? "a") = some
    { name := "a", config := { enabled := true, launch := "run" }, onDisk := some { enabled := true, launch := "run" },
      phase := .leaving .normal, shutdown := true, ready := true, session := none, state := .ready, toolNames := ["a_t"],
      tools := [{ serverName := "a", remoteName := "t" }] } := by
  decide

/-- While a server is stopped it is still reported as ready, without a session. -/
theorem stopping_not_truthful : ¬ ∀ (disk : Option McpConfig) (es : List Event) (m : Manager),
    Run Step { disk } es m → Truthful m := by
  intro all
  obtain ⟨m, played, found⟩ := Option.bind_eq_some_iff.mp stopping_runner
  obtain ⟨session, live, _⟩ := (all _ _ m (run_of_play played)).ready "a" _ found rfl
  cases live

end OpenAgentd.Mcp
