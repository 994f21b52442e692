import OpenAgentd.Stream.Attach

/-!
# What a reconnecting client receives

The queue of a client is registered before the state is replayed, so a push during the replay goes to the
queue and into the state. If the replay has not come to that text yet the client gets it twice
(`push_during_replay_duplicates`); text that is committed before the replay comes to it is never received, and
a key that comes or goes under an iterator ends the replay.

In the runs without such pushes and commits (`Safe`) every text arrives exactly once
(`replay_exactly_once`). `Replays` is the invariant: text that is not replayed yet is as it was on
registration, and text that is makes the accounts balance.
-/

namespace OpenAgentd.Stream
open OpenAgentd.Lib

/-- What a client will still get from its queue: everything up to the sentinel. -/
def undelivered : List (Option Event) → List Event
  | [] => []
  | none :: _ => []
  | some e :: q => e :: undelivered q

/-- The loop the generator is in, with its iterator. -/
def Pc.iterating : Pc → Option (Loop × Iter)
  | .loop l it => some (l, it)
  | .summaryContent it _ _ => some (.summaries, it)
  | .summaryEnd it _ _ _ => some (.summaries, it)
  | _ => none

/-- The text of `agent` on the channel `c` has been replayed. -/
def Pc.Replayed (c : Channel) (agent : String) : Pc → Prop
  | .loop .thinking it => c = .thinking ∧ agent ∈ it.keys.take it.pos
  | .loop .content it => c = .thinking ∨ agent ∈ it.keys.take it.pos
  | .toolCalls _ _ | .toolStart _ _ _ | .toolEnd _ _ _ | .live | .ended => True
  | _ => False

/-- The key an event enters into the dict of a loop. -/
def Event.key : Loop → Event → Option String
  | .statuses, .agentStatus agent status _ => if agent ≠ "" ∧ status ≠ "" then some agent else none
  | .summaries, .summarizationStart agent => if agent ≠ "" then some agent else none
  | .summaries, .summarizationContent agent text =>
    if agent ≠ "" ∧ text ≠ "" then some agent else none
  | .summaries, .summarizationEnd agent _ _ => if agent ≠ "" then some agent else none
  | .thinking, .thinking agent text => if text ≠ "" then some agent else none
  | .content, .message agent text => if text ≠ "" then some agent else none
  | _, _ => none

/-- A commit of `agent` removes its key from the dict of the loop. -/
def TurnState.drops (t : TurnState) (agent : String) : Loop → Bool
  | .statuses => false
  | .summaries => t.durableSummary agent
  | _ => true

/-- The steps that do not get in the way of the replay: while the generator is in a loop no key enters or
leaves its dict, text is pushed for what has been replayed, and text that is committed has been replayed. The
queue never fills. -/
def Safe (s : Attached) : Act → Prop
  | .next => True
  | .push e =>
    s.queue.length < maxsize ∧
    (∀ l it, s.pc.iterating = some (l, it) → ∀ k, e.key l = some k → k ∈ it.keys) ∧
    ∀ c agent, e.text c agent ≠ "" → s.pc.Replayed c agent
  | .commit agent =>
    (∀ l it, s.pc.iterating = some (l, it) → s.turn.drops agent l = true → agent ∉ it.keys) ∧
    ∀ c, s.turn.text c agent ≠ "" → s.pc.Replayed c agent
  | .done => s.queue.length < maxsize

/-- The client gets every text exactly once: the stream ends after the sentinel only, and from the end of
the replay on what the client has got with what waits for it is what was pending on registration with what
has been pushed since. -/
structure ExactlyOnce (t : TurnState) (s : Attached) : Prop where
  ends : s.pc = .ended → s.terminated = true
  text : s.pc = .live ∨ s.pc = .ended → ∀ c agent,
    textOf c agent s.received ++ textOf c agent (undelivered s.queue) =
      t.text c agent ++ textOf c agent s.pushed

/-! ## Events and the state -/

section
variable {t : TurnState} {e : Event} {c : Channel} {agent a : String} {l : Loop} {k : String}

/-- The text is that of the chunks. -/
lemma text_eq_of_chunks {t' : TurnState} (h : t'.chunks c = t.chunks c) :
    t'.text c agent = t.text c agent := by
  rw [TurnState.text, TurnState.text, h]

/-- Pushing an event appends its text. -/
lemma text_record : (t.record e).text c agent = t.text c agent ++ e.text c agent := by
  have same : ∀ {t' : TurnState}, t'.chunks c = t.chunks c → t'.text c agent = t.text c agent ++ "" := by
    intro t' h
    rw [text_eq_of_chunks h, String.append_empty]
  cases e with
  | message a text =>
    cases c with
    | message =>
      simp only [TurnState.record, Event.text, true_and]
      split
      · exact join_appendChunk
      · rename_i h
        rw [not_not.mp h]
        simp
    | thinking =>
      simp only [TurnState.record, Event.text, reduceCtorEq, false_and, if_false]
      split
      · exact same rfl
      · exact same rfl
  | thinking a text =>
    cases c with
    | thinking =>
      simp only [TurnState.record, Event.text, true_and]
      split
      · exact join_appendChunk
      · rename_i h
        rw [not_not.mp h]
        simp
    | message =>
      simp only [TurnState.record, Event.text, reduceCtorEq, false_and, if_false]
      split
      · exact same rfl
      · exact same rfl
  | toolCall => exact same TurnState.appendTool_chunks
  | toolStart =>
    refine same ?_
    simp only [TurnState.record, TurnState.matchToolStart]
    split
    · cases c <;> rfl
    · exact TurnState.appendTool_chunks
  | toolEnd =>
    refine same ?_
    simp only [TurnState.record, TurnState.matchToolEnd]
    split
    · cases c <;> rfl
    · exact TurnState.appendTool_chunks
  | agentStatus =>
    refine same ?_
    simp only [TurnState.record]
    split
    · cases c <;> rfl
    · rfl
  | agentNotConfigured => exact same (by cases c <;> rfl)
  | queuedTurnStart => exact same (by cases c <;> rfl)
  | summarizationStart =>
    refine same ?_
    simp only [TurnState.record]
    split
    · cases c <;> rfl
    · rfl
  | summarizationContent a =>
    refine same ?_
    simp only [TurnState.record]
    split
    · refine Eq.trans ?_ (TurnState.summaryEntry_chunks (a := a))
      cases c <;> rfl
    · rfl
  | summarizationEnd a =>
    refine same ?_
    simp only [TurnState.record]
    split
    · refine Eq.trans ?_ (TurnState.summaryEntry_chunks (a := a))
      cases c <;> rfl
    · rfl
  | done => exact same (by cases c <;> rfl)
  | other => exact same rfl

/-- A commit drops the text of its agent. -/
lemma text_commitAgentContent :
    (t.commitAgentContent a).text c agent = if agent = a then "" else t.text c agent := by
  have h : ((t.commitAgentContent a).chunks c).get? agent =
      if agent = a then none else (t.chunks c).get? agent := by
    cases c with
    | message => exact Dict.get?_erase
    | thinking => exact Dict.get?_erase
  rw [TurnState.text, h]
  split
  · rfl
  · rfl

/-- Setting a key that is there. -/
lemma keys_set_of_mem {α : Type} {d : Dict String α} {v : α} (h : k ∈ d.keys) : (d.set k v).keys = d.keys := by
  rw [Dict.keys_set, if_pos h]

/-- A tool entry adds no key. -/
lemma appendTool_keysOf {tc : ToolEntry} : (t.appendTool tc).keysOf l = t.keysOf l := by
  cases l <;> rfl

/-- A known summary adds no key. -/
lemma summaryEntry_keysOf (h : l = .summaries → a ∈ t.keysOf l) :
    (t.summaryEntry a).1.keysOf l = t.keysOf l := by
  unfold TurnState.summaryEntry
  split
  · rfl
  · cases l with
    | summaries => exact keys_set_of_mem (h rfl)
    | _ => rfl

/-- An event whose key is in the dict of a loop leaves the keys of the dict alone. -/
lemma keysOf_record (known : ∀ k, e.key l = some k → k ∈ t.keysOf l) :
    (t.record e).keysOf l = t.keysOf l := by
  cases e with
  | message a text =>
    simp only [TurnState.record]
    split
    · rename_i some_text
      cases l with
      | content => exact keys_set_of_mem (known a (if_pos some_text))
      | _ => rfl
    · rfl
  | thinking a text =>
    simp only [TurnState.record]
    split
    · rename_i some_text
      cases l with
      | thinking => exact keys_set_of_mem (known a (if_pos some_text))
      | _ => rfl
    · rfl
  | toolCall => exact appendTool_keysOf
  | toolStart =>
    simp only [TurnState.record, TurnState.matchToolStart]
    split
    · cases l <;> rfl
    · exact appendTool_keysOf
  | toolEnd =>
    simp only [TurnState.record, TurnState.matchToolEnd]
    split
    · cases l <;> rfl
    · exact appendTool_keysOf
  | agentStatus a status =>
    simp only [TurnState.record]
    split
    · rename_i named
      cases l with
      | statuses => exact keys_set_of_mem (known a (if_pos named))
      | _ => rfl
    · rfl
  | agentNotConfigured => cases l <;> rfl
  | queuedTurnStart => cases l <;> rfl
  | summarizationStart a =>
    simp only [TurnState.record]
    split
    · rename_i named
      cases l with
      | summaries => exact keys_set_of_mem (known a (if_pos named))
      | _ => rfl
    · rfl
  | summarizationContent a text =>
    simp only [TurnState.record]
    split
    · rename_i named
      refine Eq.trans ?_ (summaryEntry_keysOf (a := a) fun e => known a (e ▸ if_pos named))
      cases l <;> rfl
    · rfl
  | summarizationEnd a =>
    simp only [TurnState.record]
    split
    · rename_i named
      refine Eq.trans ?_ (summaryEntry_keysOf (a := a) fun e => known a (e ▸ if_pos named))
      cases l <;> rfl
    · rfl
  | done => cases l <;> rfl
  | other => rfl

/-- A commit that drops no key of a loop leaves the keys of its dict alone. -/
lemma keysOf_commitAgentContent (out : t.drops a l = true → a ∉ t.keysOf l) :
    (t.commitAgentContent a).keysOf l = t.keysOf l := by
  cases l with
  | statuses => rfl
  | summaries =>
    show (if t.durableSummary a then t.summarization.erase a else t.summarization).keys = _
    split
    · rename_i dur
      rw [Dict.erase_of_not_mem (out dur)]
      rfl
    · rfl
  | thinking =>
    show (t.thinking.erase a).keys = _
    rw [Dict.erase_of_not_mem (out rfl)]
    rfl
  | content =>
    show (t.content.erase a).keys = _
    rw [Dict.erase_of_not_mem (out rfl)]
    rfl

/-- An agent without an entry has no text. -/
lemma text_of_not_mem {c : Channel} (h : agent ∉ (t.chunks c).keys) : t.text c agent = "" := by
  rw [TurnState.text, Dict.get?_eq_none.mpr h]
  rfl

end

/-! ## The queue -/

section
variable {q q' : List (Option Event)} {e : Event}

/-- More to deliver. -/
lemma undelivered_append (h : none ∉ q) : undelivered (q ++ q') = undelivered q ++ undelivered q' := by
  induction q with
  | nil => rfl
  | cons x q ih =>
    cases x with
    | none => exact absurd List.mem_cons_self h
    | some e => rw [List.cons_append, undelivered, undelivered, ih fun m => h (List.mem_cons_of_mem _ m)]; rfl

/-- Nothing comes behind the end. -/
lemma undelivered_append_of_mem (h : none ∈ q) : undelivered (q ++ q') = undelivered q := by
  induction q with
  | nil => cases h
  | cons x q ih =>
    cases x with
    | none => rfl
    | some e =>
      rw [List.cons_append, undelivered, undelivered, ih]
      cases List.mem_cons.mp h with
      | inl e => cases e
      | inr h => exact h

end

/-! ## The replay -/

/-- The account of one agent on one channel. -/
structure Account (t₀ : TurnState) (s : Attached) (c : Channel) (agent : String) : Prop where
  replayed : s.pc.Replayed c agent → textOf c agent s.received ++ textOf c agent (undelivered s.queue) =
    t₀.text c agent ++ textOf c agent s.pushed
  pending : ¬ s.pc.Replayed c agent → textOf c agent s.received = "" ∧
    textOf c agent (undelivered s.queue) = textOf c agent s.pushed ∧
    s.turn.text c agent = t₀.text c agent

/-- The invariant of an attached stream. -/
structure Replays (t₀ : TurnState) (s : Attached) : Prop where
  keys : ∀ l it, s.pc.iterating = some (l, it) → s.turn.keysOf l = it.keys
  account : ∀ c agent, Account t₀ s c agent
  alive : s.pc ≠ .ended → s.subscribed = true ∧ (none ∈ s.queue ↔ s.terminated = true)
  closed : s.pc = .ended → s.subscribed = false ∧ s.queue = [] ∧ s.terminated = true

section
variable {t₀ : TurnState} {s s' : Attached} {pc : Pc} {e : Event} {it : Iter} {agent : String}

/-- What a move of the generator does to the replayed text: nothing, or it hands over what was pending. -/
def Hands (s : Attached) (pc : Pc) (c : Channel) (agent text : String) : Prop :=
  (pc.Replayed c agent ↔ s.pc.Replayed c agent) ∧ text = "" ∨
    ¬ s.pc.Replayed c agent ∧ pc.Replayed c agent ∧ text = s.turn.text c agent

/-- Handing out what is due. -/
lemma Account.hand {c : Channel} {text : String} (A : Account t₀ s c agent)
    (h : Hands s pc c agent text) (here : s'.pc = pc) (queue : s'.queue = s.queue)
    (pushed : s'.pushed = s.pushed) (turn : s'.turn = s.turn)
    (received : textOf c agent s'.received = textOf c agent s.received ++ text) :
    Account t₀ s' c agent := by
  subst here
  rcases h with ⟨same, rfl⟩ | ⟨before, after, rfl⟩
  · rw [String.append_empty] at received
    refine ⟨fun h => ?_, fun h => ?_⟩
    · rw [received, queue, pushed]
      exact A.replayed (same.mp h)
    · rw [received, queue, pushed, turn]
      exact A.pending fun h' => h (same.mpr h')
  · refine ⟨fun _ => ?_, fun h => absurd after h⟩
    obtain ⟨none, rest, text⟩ := A.pending before
    rw [received, queue, pushed, none, rest, text]
    simp

/-- A move without a `yield`. -/
lemma Replays.goto (I : Replays t₀ s) (on : s.pc ≠ .ended) (on' : pc ≠ .ended)
    (keys : ∀ l it, pc.iterating = some (l, it) → s.turn.keysOf l = it.keys)
    (hands : ∀ c agent, Hands s pc c agent "") : Replays t₀ (s.goto pc) where
  keys := keys
  account := fun c agent => (I.account c agent).hand (hands c agent) rfl rfl rfl rfl (by simp [Attached.goto])
  alive := fun _ => I.alive on
  closed := fun h => absurd h on'

/-- A move with a `yield`. -/
lemma Replays.yield (I : Replays t₀ s) (on : s.pc ≠ .ended) (on' : pc ≠ .ended)
    (keys : ∀ l it, pc.iterating = some (l, it) → s.turn.keysOf l = it.keys)
    (hands : ∀ c agent, Hands s pc c agent (e.text c agent)) : Replays t₀ (s.yield e pc) where
  keys := keys
  account := fun c agent => (I.account c agent).hand (hands c agent) rfl rfl rfl rfl
    (by simp [Attached.yield, textOf_append])
  alive := fun _ => I.alive on
  closed := fun h => absurd h on'

/-- A place before the text is replayed. -/
def Pc.Early (pc : Pc) : Prop := ∀ c agent, ¬ pc.Replayed c agent

/-- A place after the text is replayed. -/
def Pc.Late (pc : Pc) : Prop := ∀ c agent, pc.Replayed c agent

/-- Before the replay nothing is handed. -/
lemma hands_early (h : s.pc.Early) (h' : pc.Early) (c : Channel) (agent : String) :
    Hands s pc c agent "" :=
  .inl ⟨iff_of_false (h' c agent) (h c agent), rfl⟩

/-- Behind the replay nothing is handed. -/
lemma hands_late (h : s.pc.Late) (h' : pc.Late) (c : Channel) (agent : String) : Hands s pc c agent "" :=
  .inl ⟨iff_of_true (h' c agent) (h c agent), rfl⟩

/-- A loop in front of the content is early. -/
lemma early_enter {t : TurnState} {l : Loop} (h : l ≠ .content) : (t.enter l).Early := by
  intro c agent
  cases l with
  | content => exact absurd rfl h
  | thinking => simp [TurnState.enter, Pc.Replayed]
  | _ => exact id

/-- The keys a loop goes over. -/
lemma keys_enter {t : TurnState} {l l' : Loop} (h : (t.enter l).iterating = some (l', it)) :
    t.keysOf l' = it.keys := by
  cases h
  rfl

/-- The entry an iterator passes. -/
lemma passed_succ (h : it.keys[it.pos]? = some agent) {a : String} :
    a ∈ it.keys.take (it.pos + 1) ↔ a ∈ it.keys.take it.pos ∨ a = agent := by
  rw [List.take_add_one, h, List.mem_append]
  simp

/-- The next key was not passed. -/
lemma not_passed (nd : it.keys.Nodup) (h : it.keys[it.pos]? = some agent) :
    agent ∉ it.keys.take it.pos := by
  have nd' : (it.keys.take (it.pos + 1)).Nodup := nd.sublist (List.take_sublist _ _)
  rw [List.take_add_one, h, List.nodup_append] at nd'
  intro mem
  exact nd'.2.2 agent mem agent (by simp) rfl

/-- The text of an entry is handed over when its iterator passes it. -/
lemma hands_entry {c : Channel} {pc : Pc} (nd : it.keys.Nodup) (h : it.keys[it.pos]? = some agent)
    (before : ∀ c' a, s.pc.Replayed c' a ↔ (c' = .thinking ∧ c = .message) ∨
      c' = c ∧ a ∈ it.keys.take it.pos)
    (after : ∀ c' a, pc.Replayed c' a ↔ (c' = .thinking ∧ c = .message) ∨
      c' = c ∧ a ∈ it.keys.take (it.pos + 1))
    (text : ∀ c' a, e.text c' a = if c' = c ∧ a = agent then s.turn.text c agent else "") :
    ∀ c' a, Hands s pc c' a (e.text c' a) := by
  intro c' a
  rw [text]
  split
  · rename_i here
    obtain ⟨rfl, rfl⟩ := here
    refine .inr ⟨?_, ?_, rfl⟩
    · rw [before]
      rintro (⟨rfl, e⟩ | ⟨-, mem⟩)
      · cases e
      · exact not_passed nd h mem
    · rw [after]
      exact .inr ⟨rfl, (passed_succ h).mpr (.inr rfl)⟩
  · rename_i other
    refine .inl ⟨?_, rfl⟩
    rw [before, after, passed_succ h]
    refine or_congr_right (and_congr_right fun e => or_iff_left fun e' => other ⟨e, e'⟩)

/-- The end of a loop over text hands over the text of all agents without an entry, which is none. -/
lemma hands_exit (c : Channel) {pc : Pc} (keys : (s.turn.chunks c).keys = it.keys)
    (past : it.keys[it.pos]? = none)
    (before : ∀ c' a, s.pc.Replayed c' a ↔ (c' = .thinking ∧ c = .message) ∨
      c' = c ∧ a ∈ it.keys.take it.pos)
    (after : ∀ c' a, pc.Replayed c' a ↔ (c' = .thinking ∧ c = .message) ∨ c' = c) :
    ∀ c' a, Hands s pc c' a "" := by
  intro c' a
  by_cases here : c' = c ∧ a ∉ it.keys.take it.pos
  · obtain ⟨rfl, out⟩ := here
    refine .inr ⟨?_, (after _ _).mpr (.inr rfl), ?_⟩
    · rw [before]
      rintro (⟨rfl, e⟩ | ⟨-, mem⟩)
      · cases e
      · exact out mem
    · rw [List.take_of_length_le (List.getElem?_eq_none_iff.mp past), ← keys] at out
      exact (text_of_not_mem out).symm
  · refine .inl ⟨?_, rfl⟩
    rw [before, after]
    refine or_congr_right ⟨fun e => ⟨e, ?_⟩, And.left⟩
    by_contra out
    exact here ⟨e, out⟩

/-- The entry an iterator comes to and its key. -/
lemma keys_getElem? {α : Type} {d : Dict String α} (keys : d.keys = it.keys) :
    it.keys[it.pos]? = (d.entries[it.pos]?).map Prod.fst := by
  rw [← keys, Dict.keys, List.getElem?_map]

/-- The next entry of the loops that replay no text. -/
lemma Replays.statuses (I : Replays t₀ s) (here : s.pc = .loop .statuses it) :
    Replays t₀ (s.nextEntry it .statuses) := by
  have on : s.pc ≠ .ended := by simp [here]
  have early : s.pc.Early := by simp [Pc.Early, here, Pc.Replayed]
  have keys : s.turn.keysOf .statuses = it.keys := I.keys _ _ (by rw [here]; rfl)
  have again : ∀ l it', (Pc.loop .statuses { it with pos := it.pos + 1 }).iterating = some (l, it') →
      s.turn.keysOf l = it'.keys := by
    intro l it' h
    cases h
    exact keys
  unfold Attached.nextEntry
  dsimp only
  split
  · exact I.goto on (by simp) (by simp [Pc.iterating]) (hands_early early fun _ _ => id)
  · split
    · exact I.goto on (by simp) again (hands_early early fun _ _ => id)
    · exact I.yield on (by simp) again fun c a => hands_early early (fun _ _ => id) c a

/-- The next summary. -/
lemma Replays.summaries (I : Replays t₀ s) (here : s.pc = .loop .summaries it) :
    Replays t₀ (s.nextEntry it .summaries) := by
  have on : s.pc ≠ .ended := by simp [here]
  have early : s.pc.Early := by simp [Pc.Early, here, Pc.Replayed]
  have keys : s.turn.keysOf .summaries = it.keys := I.keys _ _ (by rw [here]; rfl)
  unfold Attached.nextEntry
  dsimp only
  split
  · exact I.goto on (by simp) (by simp [Pc.iterating]) (hands_early early fun _ _ => id)
  · split
    · refine I.goto on (by simp) ?_ (hands_early early fun _ _ => id)
      intro l it' h
      cases h
      exact keys
    · refine I.yield on (by simp) ?_ fun c a => hands_early early (fun _ _ => id) c a
      intro l it' h
      cases h
      exact keys

/-- The next entry of the loop over the thinking text. -/
lemma Replays.thinking (I : Replays t₀ s) (here : s.pc = .loop .thinking it) :
    Replays t₀ (s.nextEntry it .thinking) := by
  have on : s.pc ≠ .ended := by simp [here]
  have keys : s.turn.thinking.keys = it.keys := I.keys .thinking it (by rw [here]; rfl)
  have before : ∀ c a, s.pc.Replayed c a ↔ (c = .thinking ∧ Channel.thinking = .message) ∨
      c = .thinking ∧ a ∈ it.keys.take it.pos := by
    intro c a
    rw [here]
    simp [Pc.Replayed]
  have again : ∀ l it', (Pc.loop .thinking { it with pos := it.pos + 1 }).iterating = some (l, it') →
      s.turn.keysOf l = it'.keys := by
    intro l it' h
    cases h
    exact keys
  have nd : it.keys.Nodup := keys ▸ s.turn.thinking.distinct
  have at_ := keys_getElem? keys
  unfold Attached.nextEntry
  dsimp only
  split
  · rename_i past
    rw [past] at at_
    refine I.goto on (by simp [TurnState.enter]) (fun l it' h => keys_enter h)
      (hands_exit .thinking keys at_ before ?_)
    intro c a
    simp [TurnState.enter, Pc.Replayed]
  · rename_i agent chunks entry
    rw [entry] at at_
    have text : s.turn.text .thinking agent = join chunks := by
      show join ((s.turn.thinking.get? agent).getD []) = _
      rw [Dict.get?_of_getElem? entry]
      rfl
    have after : ∀ c a, (Pc.loop .thinking { it with pos := it.pos + 1 }).Replayed c a ↔
        (c = .thinking ∧ Channel.thinking = .message) ∨ c = .thinking ∧ a ∈ it.keys.take (it.pos + 1) := by
      intro c a
      simp [Pc.Replayed]
    have hands := hands_entry (e := .thinking agent (join chunks)) nd at_ before after (by
      intro c a
      rw [text]
      simp [Event.text, eq_comm])
    split
    · rename_i e
      refine I.goto on (by simp) again ?_
      intro c a
      have h := hands c a
      rw [e] at h
      simpa [Event.text, join] using h
    · exact I.yield on (by simp) again hands

/-- The next entry of the loop over the message text. -/
lemma Replays.content (I : Replays t₀ s) (here : s.pc = .loop .content it) :
    Replays t₀ (s.nextEntry it .content) := by
  have on : s.pc ≠ .ended := by simp [here]
  have keys : s.turn.content.keys = it.keys := I.keys .content it (by rw [here]; rfl)
  have split_ : ∀ (c : Channel) (p : Prop), (c = .thinking ∨ p) ↔
      (c = .thinking ∧ Channel.message = .message) ∨ c = .message ∧ p := by
    intro c p
    cases c <;> simp
  have before : ∀ c a, s.pc.Replayed c a ↔ (c = .thinking ∧ Channel.message = .message) ∨
      c = .message ∧ a ∈ it.keys.take it.pos := by
    intro c a
    rw [here]
    exact split_ c _
  have again : ∀ l it', (Pc.loop .content { it with pos := it.pos + 1 }).iterating = some (l, it') →
      s.turn.keysOf l = it'.keys := by
    intro l it' h
    cases h
    exact keys
  have nd : it.keys.Nodup := keys ▸ s.turn.content.distinct
  have at_ := keys_getElem? keys
  unfold Attached.nextEntry
  dsimp only
  split
  · rename_i past
    rw [past] at at_
    refine I.goto on (by simp) (by simp [Pc.iterating]) (hands_exit .message keys at_ before ?_)
    intro c a
    cases c <;> simp [Pc.Replayed]
  · rename_i agent chunks entry
    rw [entry] at at_
    have text : s.turn.text .message agent = join chunks := by
      show join ((s.turn.content.get? agent).getD []) = _
      rw [Dict.get?_of_getElem? entry]
      rfl
    have after : ∀ c a, (Pc.loop .content { it with pos := it.pos + 1 }).Replayed c a ↔
        (c = .thinking ∧ Channel.message = .message) ∨ c = .message ∧ a ∈ it.keys.take (it.pos + 1) :=
      fun c a => split_ c _
    have hands := hands_entry (e := .message agent (join chunks)) nd at_ before after (by
      intro c a
      rw [text]
      simp [Event.text, eq_comm])
    split
    · rename_i e
      refine I.goto on (by simp) again ?_
      intro c a
      have h := hands c a
      rw [e] at h
      simpa [Event.text, join] using h
    · exact I.yield on (by simp) again hands

/-- A step of the generator keeps the invariant. -/
lemma Replays.next (I : Replays t₀ s) : Replays t₀ s.next := by
  have none_ : ∀ (pc : Pc), pc.iterating = none → ∀ l it, pc.iterating = some (l, it) →
      s.turn.keysOf l = it.keys := by
    intro pc h l it h'
    rw [h] at h'
    cases h'
  unfold Attached.next
  cases here : s.pc with
  | loop l it =>
    have keys : s.turn.keysOf l = it.keys := I.keys l it (by rw [here]; rfl)
    simp only [if_pos keys]
    cases l with
    | statuses => exact I.statuses here
    | summaries => exact I.summaries here
    | thinking => exact I.thinking here
    | content => exact I.content here
  | notConfigured =>
    have early : s.pc.Early := by simp [Pc.Early, here, Pc.Replayed]
    have early' : (s.turn.enter .summaries).Early := early_enter (by simp)
    have on : s.pc ≠ .ended := by simp [here]
    dsimp only
    split
    · exact I.goto on (by simp [TurnState.enter]) (fun l it h => keys_enter h) (hands_early early early')
    · exact I.yield on (by simp [TurnState.enter]) (fun l it h => keys_enter h)
        fun c a => hands_early early early' c a
  | summaryContent it agent ref =>
    have early : s.pc.Early := by simp [Pc.Early, here, Pc.Replayed]
    have on : s.pc ≠ .ended := by simp [here]
    have keys : ∀ (text : String) l it', (Pc.summaryEnd it agent ref text).iterating = some (l, it') →
        s.turn.keysOf l = it'.keys := by
      intro text l it' h
      cases h
      exact I.keys .summaries it (by rw [here]; rfl)
    dsimp only
    split
    · exact I.yield on (by simp) (keys _) fun c a => hands_early early (fun _ _ => id) c a
    · exact I.goto on (by simp) (keys _) (hands_early early fun _ _ => id)
  | summaryEnd it agent ref text =>
    have early : s.pc.Early := by simp [Pc.Early, here, Pc.Replayed]
    have on : s.pc ≠ .ended := by simp [here]
    have keys : ∀ l it', (Pc.loop .summaries it).iterating = some (l, it') → s.turn.keysOf l = it'.keys := by
      intro l it' h
      cases h
      exact I.keys .summaries it (by rw [here]; rfl)
    dsimp only
    split
    · exact I.yield on (by simp) keys fun c a => hands_early early (fun _ _ => id) c a
    · exact I.goto on (by simp) keys (hands_early early fun _ _ => id)
  | queuedTurns pos =>
    have early : s.pc.Early := by simp [Pc.Early, here, Pc.Replayed]
    have on : s.pc ≠ .ended := by simp [here]
    dsimp only
    split
    · exact I.goto on (by simp [TurnState.enter]) (fun l it h => keys_enter h)
        (hands_early early (early_enter (by simp)))
    · exact I.yield on (by simp) (none_ _ rfl) fun c a => hands_early early (fun _ _ => id) c a
  | toolCalls list pos =>
    have late : s.pc.Late := by simp [Pc.Late, here, Pc.Replayed]
    have on : s.pc ≠ .ended := by simp [here]
    dsimp only
    split
    · exact I.goto on (by simp) (none_ _ rfl) (hands_late late fun _ _ => trivial)
    · split
      · exact I.goto on (by simp) (none_ _ rfl) (hands_late late fun _ _ => trivial)
      · rename_i ref _ _ _ _
        have late' : (Pc.toolStart list pos ref).Late := fun _ _ => trivial
        exact I.yield on (by simp) (none_ _ rfl) fun c a => hands_late late late' c a
  | toolStart list pos ref =>
    have late : s.pc.Late := by simp [Pc.Late, here, Pc.Replayed]
    have on : s.pc ≠ .ended := by simp [here]
    dsimp only
    split
    · exact I.goto on (by simp) (none_ _ rfl) (hands_late late fun _ _ => trivial)
    · have late' : (Pc.toolEnd list pos ref).Late := fun _ _ => trivial
      exact I.yield on (by simp) (none_ _ rfl) fun c a => hands_late late late' c a
  | toolEnd list pos ref =>
    have late : s.pc.Late := by simp [Pc.Late, here, Pc.Replayed]
    have on : s.pc ≠ .ended := by simp [here]
    dsimp only
    split
    · exact I.goto on (by simp) (none_ _ rfl) (hands_late late fun _ _ => trivial)
    · have late' : (Pc.toolCalls list (pos + 1)).Late := fun _ _ => trivial
      exact I.yield on (by simp) (none_ _ rfl) fun c a => hands_late late late' c a
  | live =>
    have late : ∀ c a, s.pc.Replayed c a := by simp [here, Pc.Replayed]
    have on : s.pc ≠ .ended := by simp [here]
    obtain ⟨sub, sent⟩ := I.alive on
    dsimp only
    split
    · rw [← here]
      exact ⟨I.keys, fun c a => ⟨(I.account c a).replayed, (I.account c a).pending⟩, I.alive, I.closed⟩
    · rename_i q queue
      refine ⟨none_ _ rfl, fun c a => ⟨fun _ => ?_, fun h => absurd trivial h⟩, fun h => absurd rfl h,
        fun _ => ⟨rfl, rfl, sent.mp (by simp [queue])⟩⟩
      have A := (I.account c a).replayed (late c a)
      rw [queue] at A
      exact A
    · rename_i e q queue
      refine ⟨none_ _ rfl, fun c a => ⟨fun _ => ?_, fun h => absurd trivial h⟩, fun _ => ⟨sub, ?_⟩,
        fun h => nomatch h⟩
      · have A := (I.account c a).replayed (late c a)
        rw [queue] at A
        show textOf c a (s.received ++ [e]) ++ textOf c a (undelivered q) = _
        rw [textOf_append, String.append_assoc, ← textOf_append]
        exact A
      · show none ∈ q ↔ s.terminated = true
        rw [← sent, queue]
        simp
  | ended => exact I

/-- A push of text that has been replayed, whose key is known to the iterator. -/
lemma Replays.push (I : Replays t₀ s) (ok : Safe s (.push e)) : Replays t₀ (s.pushEvent e) := by
  obtain ⟨room, known, fresh⟩ := ok
  have turn : (s.pushEvent e).turn = s.turn.record e := by
    unfold Attached.pushEvent
    dsimp only
    split_ifs <;> rfl
  have pc : (s.pushEvent e).pc = s.pc := by
    unfold Attached.pushEvent
    dsimp only
    split_ifs <;> rfl
  have received : (s.pushEvent e).received = s.received := by
    unfold Attached.pushEvent
    dsimp only
    split_ifs <;> rfl
  have terminated : (s.pushEvent e).terminated = s.terminated := by
    unfold Attached.pushEvent
    dsimp only
    split_ifs <;> rfl
  have pushed : (s.pushEvent e).pushed = if s.terminated then s.pushed else s.pushed ++ [e] := by
    unfold Attached.pushEvent
    dsimp only
    split_ifs <;> rfl
  have keys : ∀ l it, (s.pushEvent e).pc.iterating = some (l, it) →
      (s.pushEvent e).turn.keysOf l = it.keys := by
    intro l it h
    rw [pc] at h
    rw [turn, keysOf_record, I.keys l it h]
    intro k hk
    rw [I.keys l it h]
    exact known l it h k hk
  by_cases on : s.pc = .ended
  · obtain ⟨sub, queue, term⟩ := I.closed on
    have same : (s.pushEvent e).queue = s.queue ∧ (s.pushEvent e).subscribed = s.subscribed := by
      unfold Attached.pushEvent
      dsimp only
      rw [if_pos sub]
      exact ⟨rfl, rfl⟩
    refine ⟨keys, fun c a => ?_, fun h => absurd (pc.trans on) h, fun _ => ?_⟩
    · refine ⟨fun _ => ?_, fun h => absurd (by rw [pc, on]; trivial) h⟩
      rw [received, same.1, pushed, if_pos term]
      exact (I.account c a).replayed (by rw [on]; trivial)
    · rw [same.1, same.2, terminated]
      exact ⟨sub, queue, term⟩
  · obtain ⟨sub, sent⟩ := I.alive on
    have queued : (s.pushEvent e).queue = s.queue ++ [some e] ∧ (s.pushEvent e).subscribed = true := by
      unfold Attached.pushEvent
      dsimp only
      rw [if_neg (by simp [sub]), if_pos room]
      exact ⟨rfl, sub⟩
    -- the client and the log get the event, or the stream was terminated before
    have both : ∀ c a, ∃ x, textOf c a (undelivered (s.pushEvent e).queue) =
          textOf c a (undelivered s.queue) ++ x ∧
        textOf c a (s.pushEvent e).pushed = textOf c a s.pushed ++ x ∧
        (x = e.text c a ∨ x = "") := by
      intro c a
      rw [queued.1, pushed]
      cases term : s.terminated with
      | true =>
        rw [undelivered_append_of_mem (sent.mpr term)]
        exact ⟨"", by simp, by simp, .inr rfl⟩
      | false =>
        have out : none ∉ s.queue := fun h => by simp [sent.mp h] at term
        rw [undelivered_append out, textOf_append, if_neg (by simp), textOf_append]
        exact ⟨e.text c a, by simp [undelivered], by simp, .inl rfl⟩
    refine ⟨keys, fun c a => ?_, fun _ => ⟨queued.2, ?_⟩, fun h => absurd (pc.symm.trans h) on⟩
    · obtain ⟨x, queue, log, val⟩ := both c a
      refine ⟨fun h => ?_, fun h => ?_⟩
      · rw [pc] at h
        rw [received, queue, log, ← String.append_assoc, (I.account c a).replayed h, String.append_assoc]
      · rw [pc] at h
        obtain ⟨none, rest, text⟩ := (I.account c a).pending h
        have silent : e.text c a = "" := by
          by_contra some
          exact h (fresh c a some)
        rw [received, queue, log, turn, text_record, silent, rest, text]
        exact ⟨none, rfl, String.append_empty⟩
    · rw [queued.1, terminated, ← sent]
      simp

/-- A commit of text that has been replayed, whose key no iterator holds. -/
lemma Replays.commit (I : Replays t₀ s) (ok : Safe s (.commit agent)) :
    Replays t₀ (s.commitAgentContent agent) := by
  obtain ⟨known, done⟩ := ok
  refine ⟨fun l it h => ?_, fun c a => ⟨(I.account c a).replayed, fun h => ?_⟩, I.alive, I.closed⟩
  · show (s.turn.commitAgentContent agent).keysOf l = it.keys
    rw [keysOf_commitAgentContent, I.keys l it h]
    rw [I.keys l it h]
    exact known l it h
  · obtain ⟨none, rest, text⟩ := (I.account c a).pending h
    refine ⟨none, rest, ?_⟩
    show (s.turn.commitAgentContent agent).text c a = _
    rw [text_commitAgentContent, ← text]
    split
    · rename_i e
      rw [e] at h ⊢
      by_contra some
      exact h (done c fun e => some e.symm)
    · rfl

/-- The end of the turn. -/
lemma Replays.markDone (I : Replays t₀ s) (room : s.queue.length < maxsize) : Replays t₀ s.markDone := by
  by_cases on : s.pc = .ended
  · obtain ⟨sub, queue, term⟩ := I.closed on
    have e : s.markDone = { s with turn := { s.turn with isStreaming := false }, terminated := true } :=
      if_pos sub
    rw [e]
    refine ⟨fun l it h => ?_, fun c a => ⟨(I.account c a).replayed, fun h => ?_⟩,
      fun h => absurd on h, fun _ => ⟨sub, queue, rfl⟩⟩
    · rw [show Pc.iterating _ = Pc.iterating s.pc from rfl, on] at h
      cases h
    · exact absurd (by rw [show Attached.pc _ = s.pc from rfl, on]; trivial) h
  · obtain ⟨sub, sent⟩ := I.alive on
    have e : s.markDone =
        { s with
          turn := { s.turn with isStreaming := false }
          terminated := true
          queue := s.queue ++ [none] } := by
      unfold Attached.markDone
      dsimp only
      rw [if_neg (by simp [sub]), if_pos room]
    have queue : undelivered (s.queue ++ [none]) = undelivered s.queue := by
      by_cases h : none ∈ s.queue
      · exact undelivered_append_of_mem h
      · rw [undelivered_append h]
        exact List.append_nil _
    rw [e]
    refine ⟨fun l it h => ?_, fun c a => ⟨fun h => ?_, fun h => ?_⟩, fun _ => ⟨sub, by simp⟩,
      fun h => absurd h on⟩
    · rw [← I.keys l it h]
      cases l <;> rfl
    · rw [queue]
      exact (I.account c a).replayed h
    · rw [queue]
      obtain ⟨none, rest, text⟩ := (I.account c a).pending h
      refine ⟨none, rest, ?_⟩
      rw [← text]
      cases c <;> rfl

/-- Every safe step keeps the invariant. -/
lemma Replays.step {act : Act} (I : Replays t₀ s) (ok : Safe s act) (st : Step s act s') :
    Replays t₀ s' := by
  cases st with
  | next => exact I.next
  | goOn here changed => exact absurd (I.keys _ _ (by rw [here]; rfl)) changed
  | push => exact I.push ok
  | commit => exact I.commit ok
  | done => exact I.markDone ok

end

/-- Exactly once: from the state a client attaches to, in every run in which pushes and commits do not get in
the way of its replay, the client gets every text once and its stream ends after the sentinel only. -/
theorem replay_exactly_once {t : TurnState} {s₀ s : Attached} {acts : List Act} (at_ : attach t = some s₀)
    (rn : Run (Guarded Safe Step) s₀ acts s) : ExactlyOnce t s := by
  have start : Replays t s₀ := by
    unfold attach at at_
    split at at_
    · obtain rfl := Option.some.inj at_
      refine ⟨fun l it h => keys_enter h, fun c a => ⟨fun h => ?_, fun _ => ⟨rfl, rfl, rfl⟩⟩,
        fun _ => ⟨rfl, by simp⟩, fun h => nomatch h⟩
      exact absurd h (early_enter (by simp) c a)
    · cases at_
  have I : Replays t s :=
    rn.invariant (I := Replays t) start fun I st => I.step st.1 st.2
  refine ⟨fun h => (I.closed h).2.2, fun past c a => (I.account c a).replayed ?_⟩
  cases past with
  | inl h =>
    rw [h]
    trivial
  | inr h =>
    rw [h]
    trivial

/-- A turn that has streamed a piece of a message. -/
def greeting : TurnState := ({} : TurnState).record (.message "a" "he")

/-- The rest of the message is pushed when its beginning has been replayed, then the turn ends. -/
def restPushedLate : List Act :=
  [.next, .next, .next, .next, .next, .next, .push (.message "a" "llo"), .next, .next, .next, .done, .next]

/-- The client gets the message once. -/
theorem replay_exactly_once_restPushedLate :
    ∃ s₀ s, attach greeting = some s₀ ∧ Run (Guarded Safe Step) s₀ restPushedLate s ∧
      textOf .message "a" s.received = "hello" ∧ ExactlyOnce greeting s := by
  have rn : ∃ s, Run (Guarded Safe Step) { turn := greeting, pc := greeting.enter .statuses } restPushedLate s ∧
      textOf .message "a" s.received = "hello" := by
    have go : ∀ {s : Attached}, Guarded Safe Step s .next s.next := ⟨trivial, .next⟩
    refine ⟨_, .cons go (.cons go (.cons go (.cons go (.cons go (.cons go (.cons ⟨⟨by decide, ?_, ?_⟩, .push rfl⟩
      (.cons go (.cons go (.cons go (.cons ⟨?_, .done rfl⟩ (.cons go .nil))))))))))), ?_⟩
    · intro l it here k key
      cases here
      cases key
      decide
    · intro c agent some_text
      cases c with
      | thinking => exact .inl rfl
      | message =>
        have e : agent = "a" := by
          by_contra other
          exact some_text (if_neg fun h => other h.2.symm)
        subst e
        exact .inr (by decide)
    · show List.length _ < maxsize
      decide
    · decide
  obtain ⟨s, rn, text⟩ := rn
  exact ⟨_, s, rfl, rn, text, replay_exactly_once rfl rn⟩

/-- A turn whose agent is at work and has not streamed anything. -/
def working : TurnState := ({} : TurnState).record (.agentStatus "a" "working" "\x7b\x7d")

/-- A message is pushed while the status is replayed. -/
def pushedEarly : List Act :=
  [.next, .push (.message "a" "hi"), .next, .next, .next, .next, .next, .next, .next, .next, .next, .next]

/-- The client gets the message from the replay and again from its queue. -/
theorem push_during_replay_duplicates :
    ∃ s₀ s, attach working = some s₀ ∧ Run Step s₀ pushedEarly s ∧ s.queue = [] ∧
      textOf .message "a" s.received = "hihi" ∧ ¬ ExactlyOnce working s := by
  refine ⟨_, _, rfl, .cons .next (.cons (.push rfl) (.cons .next (.cons .next (.cons .next (.cons .next
    (.cons .next (.cons .next (.cons .next (.cons .next (.cons .next (.cons .next .nil))))))))))),
    by decide, by decide, ?_⟩
  intro once
  have text := once.text (.inl rfl) .message "a"
  revert text
  decide

end OpenAgentd.Stream
