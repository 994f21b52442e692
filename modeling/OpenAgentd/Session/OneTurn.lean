import OpenAgentd.Session.Runtime
import Mathlib.Tactic.ByContra

/-!
# One turn at a time

Entry points test `is_busy`, or do not, and await the database before they create their task. `Calm` is the condition
under which they do not overtake each other: an entry point begins only when no other is under way, and where it
begins although the session is busy, only when no turn is unfinished. In a run of such steps a session has one
unfinished turn at most (`one_turn`). Without the condition it has two (`two_turns`).
-/

namespace OpenAgentd.Session
open OpenAgentd.Lib

/-- A task of `_run_turn` that is not finished. -/
def Proc.isTurn : Proc → Bool
  | .turn _ => true
  | .call _ => false

/-- A call between the test with which it begins and the task it creates. -/
def Call.underWay : Call → Bool
  | .message _ _ | .commandInit | .resuming _ | .dismissEmit | .dismissActivating | .chatActivating => true
  | _ => false

def Proc.underWay : Proc → Bool
  | .turn _ => false
  | .call c => c.underWay

/-- A coroutine that is a turn or may start one without a further test. -/
def Proc.takesTurn (p : Proc) : Bool := p.isTurn || p.underWay

/-- An entry point begins. -/
def Begins (p : Proc) (out : List Proc) : Prop := p.takesTurn = false ∧ out.any Proc.takesTurn

/-- An entry point begins only when no other one is under way, and where it begins although the session is busy
(an answer or a dismissal, or a message to an open question) only when no turn is unfinished. -/
def Calm (s : System) : Act → Prop
  | .arrives _ => True
  | .runs before p after out => Begins p out →
      (∀ o ∈ before ++ after, o.underWay = false) ∧
        (s.live.busy = true → ∀ o ∈ before ++ after, o.isTurn = false)

/-- What a segment does to the turns: it goes on with the turn it is or starts one in place of itself. -/
structure Turns (l : Live) (p : Proc) (l' : Live) (out : List Proc) : Prop where
  kept : ¬ Begins p out → out.countP Proc.takesTurn ≤ [p].countP Proc.takesTurn
  begun : Begins p out → out.countP Proc.takesTurn ≤ 1
  active : out.any Proc.isTurn → p.isTurn = true ∧ l'.hasActive = l.hasActive ∨ l'.hasActive = true
  cleared : l'.hasActive = false → l.hasActive = true → p.takesTurn = true ∧ ¬ out.any Proc.isTurn

section
variable {l l' : Live} {db db' : Db} {t : Turn} {c : Call} {p : Proc} {ts : List Turn} {out : List Proc}

/-- A final part leaves the flag. -/
lemma Final.hasActive {pc : TurnPc} (h : Final l l' pc) : l'.hasActive = l.hasActive := by
  cases h <;> rfl

/-- What a segment of a turn does to turns. -/
lemma TurnAdv.turns (h : TurnAdv l db t l' db' ts) : Turns l (.turn t) l' (ts.map .turn) := by
  have whole : ts.length ≤ 1 := by cases h <;> simp
  have count : (ts.map Proc.turn).countP Proc.takesTurn ≤ 1 :=
    Nat.le_trans List.countP_le_length (by simpa using whole)
  refine ⟨fun _ => count, fun _ => count, fun some => ?_, fun off on => ?_⟩
  · cases h with
    | returns _ _ final => exact .inl ⟨rfl, final.hasActive⟩
    | suspends _ _ final => exact .inl ⟨rfl, final.hasActive⟩
    | finishes _ _ final => exact .inl ⟨rfl, final.hasActive⟩
    | unwinds _ _ final => exact .inl ⟨rfl, final.hasActive⟩
    | activates _ _ => exact .inr rfl
    | parks _ => cases some
    | closes _ => cases some
    | _ => exact .inl ⟨rfl, rfl⟩
  · refine ⟨rfl, ?_⟩
    have same : l'.hasActive = l.hasActive → False := fun e => by
      rw [e, on] at off
      cases off
    cases h with
    | returns _ _ final => exact (same final.hasActive).elim
    | suspends _ _ final => exact (same final.hasActive).elim
    | finishes _ _ final => exact (same final.hasActive).elim
    | unwinds _ _ final => exact (same final.hasActive).elim
    | activates _ _ => cases off
    | parks _ => exact nofun
    | closes _ => exact nofun
    | dies _ _ => exact nofun
    | breaks => exact nofun
    | _ => exact (same rfl).elim

/-- What a segment of a call does to turns. -/
lemma CallAdv.turns (h : CallAdv l db c l' db' out) : Turns l (.call c) l' out := by
  cases h <;> constructor <;>
    simp_all [Begins, Proc.takesTurn, Proc.isTurn, Proc.underWay, Call.underWay, Live.launch, Live.halt]

/-- What a segment does to turns. -/
lemma Adv.turns (h : Adv l db p l' db' out) : Turns l p l' out := by
  cases h with
  | turn h => exact h.turns
  | call h => exact h.turns

/-- A fresh call takes no turn yet. -/
lemma Call.Fresh.takesTurn (h : c.Fresh) : (Proc.call c).takesTurn = false := by
  cases c <;> first | rfl | exact h.elim

end

/-- One coroutine at most is a turn or may start one, and while a turn is unfinished the session says so. -/
structure OneTurn (s : System) : Prop where
  single : s.procs.countP Proc.takesTurn ≤ 1
  active : s.procs.any Proc.isTurn → s.live.hasActive = true

section
variable {s t : System} {a : Act} {as : List Act}

/-- A turn takes the turn. -/
lemma Proc.takesTurn_of_isTurn {p : Proc} (h : p.isTurn = true) : p.takesTurn = true := by
  rw [Proc.takesTurn, h]
  rfl

/-- While a turn is unfinished the session is busy. -/
lemma OneTurn.busy (h : OneTurn s) (some : s.procs.any Proc.isTurn) : s.live.busy = true := by
  rw [Live.busy, h.active some, Bool.or_true]

/-- A calm step keeps the turns apart. -/
lemma OneTurn.step (inv : OneTurn s) (st : Guarded Calm Step s a t) : OneTurn t := by
  obtain ⟨calm, st⟩ := st
  cases st with
  | @arrives c fresh =>
    have still : (Proc.call c).takesTurn = false := fresh.takesTurn
    constructor
    · simpa [List.countP_append, still] using inv.single
    · intro some
      exact inv.active (by simpa [Proc.isTurn] using some)
  | @runs before p after live db out here adv =>
    have turns := adv.turns
    have single := inv.single
    rw [here, List.countP_append, List.countP_cons] at single
    -- where an entry point begins no other coroutine takes a turn
    have alone : Begins p out → ∀ o ∈ before ++ after, o.takesTurn = false := by
      intro begins o ho
      obtain ⟨quiet, free⟩ := calm begins
      rw [Proc.takesTurn, quiet o ho, Bool.or_false]
      by_contra turn
      rw [Bool.not_eq_false] at turn
      have some : s.procs.any Proc.isTurn := by
        rw [here]
        refine List.any_eq_true.mpr ⟨o, ?_, turn⟩
        rw [List.mem_append, List.mem_cons]
        cases List.mem_append.mp ho with
        | inl h => exact .inl h
        | inr h => exact .inr (.inr h)
      rw [free (inv.busy some) o ho] at turn
      cases turn
    constructor
    · show (before ++ out ++ after).countP Proc.takesTurn ≤ 1
      rw [List.countP_append, List.countP_append]
      by_cases begins : Begins p out
      · have zero : (before ++ after).countP Proc.takesTurn = 0 :=
          List.countP_eq_zero.mpr fun o ho => by rw [alone begins o ho]; exact Bool.false_ne_true
        have one := turns.begun begins
        rw [List.countP_append] at zero
        omega
      · have kept := turns.kept begins
        rw [List.countP_singleton] at kept
        omega
    · intro some
      show live.hasActive = true
      by_contra off
      rw [Bool.not_eq_true] at off
      replace some : ∃ o ∈ before ++ out ++ after, o.isTurn = true := List.any_eq_true.mp some
      obtain ⟨o, ho, turn⟩ := some
      rw [List.mem_append, List.mem_append, or_assoc] at ho
      -- the turn goes on, or another coroutine has cleared the mark while the turn is unfinished
      have old : o ∈ before ++ after → False := by
        intro ho
        have on : s.live.hasActive = true := by
          refine inv.active (List.any_eq_true.mpr ⟨o, ?_, turn⟩)
          rw [here, List.mem_append, List.mem_cons]
          cases List.mem_append.mp ho with
          | inl h => exact .inl h
          | inr h => exact .inr (.inr h)
        obtain ⟨takes, _⟩ := turns.cleared off on
        have pos : 0 < (before ++ after).countP Proc.takesTurn :=
          List.countP_pos_iff.mpr ⟨o, ho, Proc.takesTurn_of_isTurn turn⟩
        rw [List.countP_append] at pos
        rw [if_pos takes] at single
        omega
      have new : o ∈ out → False := by
        intro ho
        cases turns.active (List.any_eq_true.mpr ⟨o, ho, turn⟩) with
        | inl both =>
          have on : s.live.hasActive = true := by
            refine inv.active (List.any_eq_true.mpr ⟨p, ?_, both.1⟩)
            rw [here]
            exact List.mem_append_right _ List.mem_cons_self
          rw [both.2, on] at off
          cases off
        | inr on =>
          rw [on] at off
          cases off
      cases ho with
      | inl h => exact old (List.mem_append_left _ h)
      | inr h =>
        cases h with
        | inl h => exact new h
        | inr h => exact old (List.mem_append_right _ h)

/-- One turn along calm runs. -/
lemma OneTurn.run (rn : Run (Guarded Calm Step) s as t) (start : s.procs = []) : OneTurn t := by
  refine rn.invariant ⟨?_, ?_⟩ OneTurn.step
  · rw [start]
    exact Nat.zero_le _
  · rw [start]
    exact nofun

/-- In a run of calm steps a session has one unfinished turn at most, in every state that is reached. -/
theorem one_turn (rn : Run (Guarded Calm Step) s as t) (start : s.procs = []) : t.procs.countP Proc.isTurn ≤ 1 :=
  Nat.le_trans (List.countP_mono_left fun _ _ h => Proc.takesTurn_of_isTurn h) (OneTurn.run rn start).single

/-- A coroutine that is alone runs. -/
lemma Step.alone {l l' : Live} {db db' : Db} {p : Proc} {out : List Proc} (adv : Adv l db p l' db' out) :
    Step ⟨l, db, [p]⟩ (.runs [] p [] out) ⟨l', db', out⟩ := by
  have step : Step ⟨l, db, [p]⟩ (.runs [] p [] out) ⟨l', db', [] ++ out ++ []⟩ := .runs rfl adv
  rwa [List.nil_append, List.append_nil] at step

/-- The first of two coroutines runs. -/
lemma Step.first {l l' : Live} {db db' : Db} {p q r : Proc} (adv : Adv l db p l' db' [q]) :
    Step ⟨l, db, [p, r]⟩ (.runs [] p [r] [q]) ⟨l', db', [q, r]⟩ := .runs rfl adv

/-- The second of two coroutines runs. -/
lemma Step.second {l l' : Live} {db db' : Db} {p q r : Proc} (adv : Adv l db p l' db' [q]) :
    Step ⟨l, db, [r, p]⟩ (.runs [r] p [] [q]) ⟨l', db', [r, q]⟩ := .runs rfl adv

/-- The second of two coroutines ends. -/
lemma Step.ends {l l' : Live} {db db' : Db} {p r : Proc} (adv : Adv l db p l' db' []) :
    Step ⟨l, db, [r, p]⟩ (.runs [r] p [] []) ⟨l', db', [r]⟩ := .runs rfl adv

/-- Any arrival is calm. -/
lemma Calm.arrives {s : System} {c : Call} : Calm s (.arrives c) := trivial

/-- Nothing stands in the way of a coroutine that is alone. -/
lemma Calm.alone {s : System} {p : Proc} {out : List Proc} : Calm s (.runs [] p [] out) :=
  fun _ => ⟨fun _ h => absurd h List.not_mem_nil, fun _ _ h => absurd h List.not_mem_nil⟩

/-- A message of the user starts a turn. -/
theorem one_turn_message : [Proc.turn ⟨0, .created⟩].countP Proc.isTurn ≤ 1 := by
  have came : Run (Guarded Calm Step) ⟨{}, {}, []⟩ _ _ :=
    .single ⟨.arrives, .arrives (show Call.chat.Fresh from trivial)⟩
  have locked := came.snoc ⟨.alone, .alone (.call (.locks rfl))⟩
  have tested := locked.snoc ⟨.alone, .alone (.call (.dispatches (.inl rfl)))⟩
  have checked := tested.snoc ⟨.alone, .alone (.call (.noQuestion rfl))⟩
  exact one_turn (checked.snoc ⟨.alone, .alone (.call .starts)⟩) rfl

/-- A message of the user and one of the scheduler that both find the session idle start two turns. -/
theorem two_turns : ¬ ∀ s as t, s.procs = [] → Run Step s as t → t.procs.countP Proc.isTurn ≤ 1 := by
  intro single
  have came : Run Step ⟨{}, {}, []⟩ _ _ := .single (.arrives (c := .chat) trivial)
  have both := came.snoc (.arrives (c := .scheduled true) trivial)
  have locked := both.snoc (.first (.call (.locks rfl)))
  -- both find the session idle
  have tested := locked.snoc (.first (.call (.dispatches (.inl rfl))))
  have tested' := tested.snoc (.second (.call (.schedules fun _ => rfl)))
  have checked := tested'.snoc (.first (.call (.noQuestion rfl)))
  have checked' := checked.snoc (.second (.call (.noQuestion rfl)))
  have started := checked'.snoc (.first (.call .starts))
  have two := single _ _ _ rfl (started.snoc (.second (.call .starts)))
  exact absurd two (by decide)

end
end OpenAgentd.Session
