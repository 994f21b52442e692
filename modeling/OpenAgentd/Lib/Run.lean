import Mathlib.Logic.Relation
import Mathlib.Tactic.Lemma

/-!
# Runs of a labelled step relation

A component is a relation `Step s a t`: from the state `s` the action `a` may lead to `t`. A run is a
finite sequence of such steps (`Run`), built at its end so that an invariant proof looks at the last
step. `Guarded` restricts a step relation to the steps whose state and action meet a condition; a run
of the guarded relation is a run all of whose steps meet it.

The only induction is `Run.invariant`: what holds at the start and is kept by every step holds at the
end. `Run.invariant_of` is the same with a second invariant already known of every state on the way.
-/

namespace OpenAgentd.Lib

/-- Runs of `Step` with their actions, oldest first. -/
inductive Run {σ α : Type*} (Step : σ → α → σ → Prop) : σ → List α → σ → Prop where
  | nil {s} :
    Run Step s [] s
  | snoc {s t u as a} :
    Run Step s as t →
    Step t a u →
    Run Step s (as ++ [a]) u

/-- The steps of `Step` whose state and action meet `Ok`. -/
def Guarded {σ α : Type*} (Ok : σ → α → Prop) (Step : σ → α → σ → Prop) : σ → α → σ → Prop :=
  fun s a t => Ok s a ∧ Step s a t

/-- The steps of `Step` that lead to a state with `P`. -/
def Through {σ α : Type*} (P : σ → Prop) (Step : σ → α → σ → Prop) : σ → α → σ → Prop :=
  fun s a t => P t ∧ Step s a t

section
variable {σ α : Type*} {Step Step' : σ → α → σ → Prop} {Ok : σ → α → Prop} {s t u : σ}
  {a : α} {as bs : List α}

/-- A single step is a run. -/
lemma Run.single (st : Step s a t) : Run Step s [a] t :=
  by simpa using Run.snoc .nil st

/-- A step followed by a run is a run. -/
lemma Run.cons (st : Step s a t) (rn : Run Step t as u) : Run Step s (a :: as) u := by
  induction rn with
  | nil => exact .single st
  | snoc _ st' ih => exact .snoc ih st'

/-- An invariant of every step is an invariant of every run. -/
lemma Run.invariant {I : σ → Prop} (rn : Run Step s as t) (base : I s)
    (step : ∀ {s a t}, I s → Step s a t → I t) : I t := by
  induction rn with
  | nil => exact base
  | snoc _ st ih => exact step ih st

/-- An invariant that needs an invariant `J` already known of every state on the way. -/
lemma Run.invariant_of {I J : σ → Prop} (rn : Run Step s as t) (base : I s) (base' : J s)
    (step' : ∀ {s a t}, J s → Step s a t → J t)
    (step : ∀ {s a t}, J s → I s → Step s a t → I t) : I t := by
  have h : J t ∧ I t :=
    rn.invariant (I := fun s => J s ∧ I s) ⟨base', base⟩
      (fun h st => ⟨step' h.1 st, step h.1 h.2 st⟩)
  exact h.2

/-- What all actions of a run meet is met at every step. -/
lemma Run.meet {P : α → Prop} (rn : Run (Guarded Ok Step) s as t) (h : ∀ a ∈ as, P a) :
    Run (Guarded (fun s a => Ok s a ∧ P a) Step) s as t := by
  induction rn with
  | nil => exact .nil
  | snoc _ st ih =>
    refine .snoc (ih fun a m => h a (List.mem_append_left _ m)) ⟨⟨st.1, ?_⟩, st.2⟩
    exact h _ (List.mem_append_right _ (List.mem_singleton.mpr rfl))

/-- The runs through states with `P` are those whose steps meet the condition, where such a state is left for another
exactly then. -/
lemma Run.through_iff {I P : σ → Prop} (base : I s) (start : P s)
    (step : ∀ {s a t}, I s → P s → Step s a t → I t ∧ (P t ↔ Ok s a)) :
    Run (Through P Step) s as t ↔ Run (Guarded Ok Step) s as t := by
  constructor
  · intro through
    have all : I t ∧ P t ∧ Run (Guarded Ok Step) s as t := by
      induction through with
      | nil => exact ⟨base, start, .nil⟩
      | snoc _ st ih =>
        obtain ⟨before, here, run⟩ := ih
        obtain ⟨after, kept⟩ := step before here st.2
        exact ⟨after, st.1, run.snoc ⟨kept.mp st.1, st.2⟩⟩
    exact all.2.2
  · intro guarded
    have all : I t ∧ P t ∧ Run (Through P Step) s as t := by
      induction guarded with
      | nil => exact ⟨base, start, .nil⟩
      | snoc _ st ih =>
        obtain ⟨before, here, run⟩ := ih
        obtain ⟨after, kept⟩ := step before here st.2
        exact ⟨after, kept.mpr st.1, run.snoc ⟨kept.mpr st.1, st.2⟩⟩
    exact all.2.2

end

end OpenAgentd.Lib
