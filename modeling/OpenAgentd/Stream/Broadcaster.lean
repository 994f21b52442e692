import Mathlib.Data.List.Infix
import OpenAgentd.Lib.Run

/-!
# Global events

`services/event_broadcaster.py`: `publish` puts an event into the queue of each subscriber, and `attach` hands out what
is in its queue until it meets the sentinel. A queue that is full loses its oldest item to the sentinel, and its
subscriber is dropped; so it is when the application closes. Nothing is repeated to a client that connects again.

A subscriber that keeps up receives what is published, in order and without gaps. One that is dropped has lost one event
in the middle, the oldest that it had not received, and receives the others that were in its queue before its stream
ends (`subscribers_sound`).
-/

namespace OpenAgentd.Stream.Broadcaster
open OpenAgentd.Lib

universe u
variable {E : Type u}

inductive Item (E : Type u) where
  | event (e : E)
  | sentinel

/-- A generator of `attach` with its queue. `offered` is what was published while it was subscribed. -/
structure Subscriber (E : Type u) where
  queue : List (Item E)
  subscribed : Bool
  ended : Bool
  received : List E
  offered : List E

def queueSize : Nat := 256

/-- `put_nowait` of the sentinel, with `get_nowait` in front of it when the queue is full. -/
def putSentinel (queue : List (Item E)) : List (Item E) :=
  if queue.length < queueSize then queue ++ [.sentinel]
  else if (queue.drop 1).length < queueSize then queue.drop 1 ++ [.sentinel]
  else queue.drop 1

/-- `publish`, for one subscriber. -/
def Subscriber.publish (e : E) (s : Subscriber E) : Subscriber E :=
  if s.subscribed then
    if s.queue.length < queueSize then { s with queue := s.queue ++ [.event e], offered := s.offered ++ [e] }
    else { s with queue := putSentinel s.queue, subscribed := false, offered := s.offered ++ [e] }
  else s

/-- `close`, for one subscriber. -/
def Subscriber.close (s : Subscriber E) : Subscriber E :=
  if s.subscribed then { s with queue := putSentinel s.queue, subscribed := false } else s

/-- The generator gets the next item of its queue. -/
def Subscriber.take (s : Subscriber E) : Option (Subscriber E) :=
  if s.ended then none
  else
    match s.queue with
    | [] => none
    | .event e :: queue => some { s with queue, received := s.received ++ [e] }
    | .sentinel :: queue => some { s with queue, ended := true, subscribed := false }

/-- The client is gone, and the generator is closed. -/
def Subscriber.leave (s : Subscriber E) : Subscriber E := { s with ended := true, subscribed := false }

inductive Action (E : Type u) where
  | attach
  | publish (e : E)
  | take (i : Nat)
  | leave (i : Nat)
  | close

inductive Step : List (Subscriber E) → Action E → List (Subscriber E) → Prop where
  | attach (subs : List (Subscriber E)) : Step subs .attach (subs ++ [⟨[], true, false, [], []⟩])
  | publish (subs : List (Subscriber E)) (e : E) : Step subs (.publish e) (subs.map (Subscriber.publish e))
  | take (subs : List (Subscriber E)) (i : Nat) (s s' : Subscriber E) (here : subs[i]? = some s)
      (taken : s.take = some s') : Step subs (.take i) (subs.set i s')
  | leave (subs : List (Subscriber E)) (i : Nat) (s : Subscriber E) (here : subs[i]? = some s) :
    Step subs (.leave i) (subs.set i s.leave)
  | close (subs : List (Subscriber E)) : Step subs .close (subs.map Subscriber.close)

/-! ### What a subscriber receives -/

/-- What was received and what will be, against what was published: all of it, or all but the oldest event that was not
received when the queue was full and the one that did not go in. -/
inductive Kept : List E → List E → List E → Prop where
  | all (received waiting : List E) : Kept received waiting (received ++ waiting)
  | full (before later waiting back : List E) (oldest : E) (rest : List E) (queued : back.length + 1 = queueSize)
      (split : back = later ++ waiting) (one : rest.length ≤ 1) :
    Kept (before ++ later) waiting (before ++ oldest :: back ++ rest)

inductive Sound : Subscriber E → Prop where
  | live (received waiting : List E) (fits : waiting.length ≤ queueSize) :
    Sound ⟨waiting.map .event, true, false, received, received ++ waiting⟩
  | dropped (received waiting offered : List E) (kept : Kept received waiting offered) :
    Sound ⟨waiting.map .event ++ [.sentinel], false, false, received, offered⟩
  | ended (received offered : List E) (kept : Kept received [] offered) : Sound ⟨[], false, true, received, offered⟩
  | left (queue : List (Item E)) (received waiting offered : List E) (kept : Kept received waiting offered) :
    Sound ⟨queue, false, true, received, offered⟩

section
variable {s s' : Subscriber E} {subs subs' : List (Subscriber E)} {action : Action E} {actions : List (Action E)}
  {received waiting offered : List E}

/-- The sentinel with room in the queue. -/
lemma putSentinel_room (room : waiting.length < queueSize) :
    putSentinel (waiting.map Item.event) = waiting.map .event ++ [.sentinel] :=
  if_pos (by rwa [List.length_map])

/-- The sentinel pushes the oldest out. -/
lemma putSentinel_full {oldest : E} (full : waiting.length + 1 = queueSize) :
    putSentinel ((oldest :: waiting).map Item.event) = waiting.map .event ++ [.sentinel] := by
  rw [putSentinel, if_neg (by rw [List.length_map, List.length_cons, full]; exact Nat.lt_irrefl _), List.map_cons,
    List.drop_succ_cons, List.drop_zero, if_pos (by rw [List.length_map, ← full]; exact Nat.lt_succ_self _)]

/-- An event that waits is received. -/
lemma Kept.take {e : E} (kept : Kept received (e :: waiting) offered) : Kept (received ++ [e]) waiting offered := by
  generalize h : e :: waiting = w at kept
  cases kept with
  | all =>
    subst h
    have whole := Kept.all (received ++ [e]) waiting
    rwa [List.append_assoc] at whole
  | full before later _ back oldest rest queued split one =>
    subst h
    rw [List.append_assoc]
    exact .full before (later ++ [e]) waiting back oldest rest queued (by rw [split, List.append_assoc]; rfl) one

/-- A queue with events alone is full or has room. -/
lemma full_cases (fits : waiting.length ≤ queueSize) :
    waiting.length < queueSize ∨ ∃ oldest back, waiting = oldest :: back ∧ back.length + 1 = queueSize := by
  cases Nat.lt_or_eq_of_le fits with
  | inl room => exact .inl room
  | inr full =>
    cases waiting with
    | nil => cases full
    | cons oldest back => exact .inr ⟨oldest, back, rfl, full⟩

/-- Publishing. -/
lemma Sound.publish (e : E) (sound : Sound s) : Sound (s.publish e) := by
  cases sound with
  | live received waiting fits =>
    cases full_cases fits with
    | inl room =>
      rw [Subscriber.publish, if_pos rfl, if_pos (by rwa [List.length_map]), List.append_assoc]
      have pushed := Sound.live received (waiting ++ [e]) (by rw [List.length_append]; exact room)
      rwa [List.map_append] at pushed
    | inr full =>
      obtain ⟨oldest, back, e', full⟩ := full
      subst e'
      have stuffed : ¬ ((oldest :: back).map Item.event).length < queueSize := by
        rw [List.length_map, List.length_cons, full]
        exact Nat.lt_irrefl _
      rw [Subscriber.publish, if_pos rfl, if_neg stuffed]
      dsimp only
      rw [putSentinel_full full]
      have kept := Kept.full received [] back back oldest [e] full rfl (Nat.le_refl 1)
      rw [List.append_nil] at kept
      exact .dropped received back _ kept
  | dropped received waiting offered kept => exact .dropped received waiting offered kept
  | ended received offered kept => exact .ended received offered kept
  | left queue received waiting offered kept => exact .left queue received waiting offered kept

/-- Closing. -/
lemma Sound.close (sound : Sound s) : Sound s.close := by
  cases sound with
  | live received waiting fits =>
    rw [Subscriber.close, if_pos rfl]
    dsimp only
    cases full_cases fits with
    | inl room =>
      rw [putSentinel_room room]
      exact .dropped received waiting _ (.all received waiting)
    | inr full =>
      obtain ⟨oldest, back, e', full⟩ := full
      subst e'
      rw [putSentinel_full full]
      have kept := Kept.full received [] back back oldest [] full rfl (Nat.zero_le 1)
      rw [List.append_nil, List.append_nil] at kept
      exact .dropped received back _ kept
  | dropped received waiting offered kept => exact .dropped received waiting offered kept
  | ended received offered kept => exact .ended received offered kept
  | left queue received waiting offered kept => exact .left queue received waiting offered kept

/-- Taking. -/
lemma Sound.take (sound : Sound s) (taken : s.take = some s') : Sound s' := by
  cases sound with
  | live received waiting fits =>
    cases waiting with
    | nil => cases taken
    | cons e waiting =>
      cases taken
      have rest := Sound.live (received ++ [e]) waiting (Nat.le_of_succ_le fits)
      rwa [List.append_assoc] at rest
  | dropped received waiting offered kept =>
    cases waiting with
    | nil =>
      cases taken
      exact .ended received offered kept
    | cons e waiting =>
      cases taken
      exact .dropped _ waiting offered kept.take
  | ended received offered kept => cases taken
  | left queue received waiting offered kept => cases taken

/-- Leaving. -/
lemma Sound.leave (sound : Sound s) : Sound s.leave := by
  cases sound with
  | live received waiting fits => exact .left _ received waiting _ (.all received waiting)
  | dropped received waiting offered kept => exact .left _ received waiting offered kept
  | ended received offered kept => exact .left _ received [] offered kept
  | left queue received waiting offered kept => exact .left queue received waiting offered kept

/-- A step keeps every subscriber sound. -/
lemma sound_step (sound : ∀ s ∈ subs, Sound s) (st : Step subs action subs') : ∀ s ∈ subs', Sound s := by
  intro s mem
  cases st with
  | attach =>
    cases List.mem_append.mp mem with
    | inl old => exact sound s old
    | inr new =>
      cases List.mem_singleton.mp new
      exact .live [] [] (Nat.zero_le _)
  | publish e =>
    obtain ⟨s, old, e⟩ := List.mem_map.mp mem
    subst e
    exact (sound s old).publish _
  | take i t t' here taken =>
    cases List.mem_or_eq_of_mem_set mem with
    | inl old => exact sound s old
    | inr new =>
      subst new
      exact (sound t (List.mem_of_getElem? here)).take taken
  | leave i t here =>
    cases List.mem_or_eq_of_mem_set mem with
    | inl old => exact sound s old
    | inr new =>
      subst new
      exact (sound t (List.mem_of_getElem? here)).leave
  | close =>
    obtain ⟨s, old, e⟩ := List.mem_map.mp mem
    subst e
    exact (sound s old).close

/-- In every run, what each subscriber has received and what waits for it is what was published while it was subscribed,
but for the one event that a full queue loses and the one that did not go in. -/
theorem subscribers_sound (rn : Run Step [] actions subs) : ∀ s ∈ subs, Sound s :=
  rn.invariant (I := fun subs : List (Subscriber E) => ∀ s ∈ subs, Sound s) nofun sound_step

/-- Events that have room wait in the queue. -/
lemma run_publishes {es : List E} (fits : es.length ≤ queueSize) :
    Run Step [] (.attach :: es.map .publish) [⟨es.map .event, true, false, [], es⟩] := by
  induction es using List.reverseRecOn with
  | nil => exact .single (.attach [])
  | append_singleton es e ih =>
    rw [List.length_append, List.length_singleton] at fits
    have room : (es.map Item.event).length < queueSize := by
      rw [List.length_map]
      omega
    have published := (ih (by omega)).snoc (.publish _ e)
    rw [List.map_singleton, Subscriber.publish, if_pos rfl, if_pos room] at published
    rw [List.map_append, List.map_append]
    exact published

/-- Events behind the first two. -/
def later : List Nat := (List.range 254).map (· + 2)

/-- A subscriber that does not keep up is dropped, and receives the second event next: the first one is lost. -/
theorem subscribers_sound_full : ∃ (actions : List (Action Nat)) (s : Subscriber Nat), Run Step [] actions [s] ∧
    s.offered = 0 :: 1 :: later ++ [256] ∧ s.subscribed = false ∧ s.received = [1] ∧ Sound s := by
  have size : later.length = 254 := by rw [later, List.length_map, List.length_range]
  have count : (0 :: 1 :: later).length = queueSize := by rw [List.length_cons, List.length_cons, size]; rfl
  have stuffed : ¬ ((0 :: 1 :: later).map Item.event).length < queueSize := by
    rw [List.length_map, count]
    exact Nat.lt_irrefl _
  have queue : putSentinel ((0 :: 1 :: later).map Item.event) = (1 :: later).map Item.event ++ [.sentinel] :=
    putSentinel_full count
  have dropped := (run_publishes (Nat.le_of_eq count)).snoc (.publish _ 256)
  rw [List.map_singleton, Subscriber.publish, if_pos rfl, if_neg stuffed, queue] at dropped
  have taken := dropped.snoc (.take _ 0 _ _ rfl rfl)
  exact ⟨_, _, taken, rfl, rfl, rfl, subscribers_sound taken _ List.mem_cons_self⟩

end

end OpenAgentd.Stream.Broadcaster
