import Mathlib.Logic.Relation
import Mathlib.Tactic.Lemma
import Mathlib.Tactic.TypeStar

/-!
# Programs that are broken off and run again

A program looks at the state and executes statements one after another. It can be broken off behind every statement,
and is then run again from the state it left. `Leads I s l Q` says that the statements `l` from `s` end in a state
with `Q` and pass through states with `I` only; the rules take `l` apart. A program that leads from every state with
`I` to one state ends in that state however often it is broken off (`Interrupted.rerun`).
-/

namespace OpenAgentd.Lib

section
variable {σ α : Type*} (exec : σ → α → σ)

/-- The statements one after another. -/
def runAll (s : σ) (l : List α) : σ := l.foldl exec s

/-- One part of a program after another: the second looks at the state the first leaves. -/
def inTurn (p q : σ → List α) (s : σ) : List α := p s ++ q (runAll exec s (p s))

/-- The program is broken off behind some of its statements. -/
def Interrupted (p : σ → List α) (s s' : σ) : Prop := ∃ n, s' = runAll exec s ((p s).take n)

/-- The statements end in `Q` and pass through `I` only. -/
def Leads (I : σ → Prop) (s : σ) (l : List α) (Q : σ → Prop) : Prop :=
  (∀ n, I (runAll exec s (l.take n))) ∧ Q (runAll exec s l)

end

section
variable {σ α : Type*} {exec : σ → α → σ} {I Q R : σ → Prop} {s s' t : σ} {l l' : List α} {a : α}
  {p q : σ → List α}

/-- Steps in a row. -/
lemma runAll_append : runAll exec s (l ++ l') = runAll exec (runAll exec s l) l' := List.foldl_append

namespace Leads

/-- No steps. -/
lemma nil (i : I s) (q : Q s) : Leads exec I s [] Q := by
  refine ⟨fun n => ?_, q⟩
  rw [List.take_nil]
  exact i

/-- One step more. -/
lemma cons (i : I s) (h : Leads exec I (exec s a) l Q) : Leads exec I s (a :: l) Q := by
  refine ⟨fun n => ?_, h.2⟩
  cases n with
  | zero => exact i
  | succ n => exact h.1 n

/-- A single step. -/
lemma single (i : I s) (i' : I (exec s a)) (q : Q (exec s a)) : Leads exec I s [a] Q := cons i (nil i' q)

/-- Steps in a row. -/
lemma append (h : Leads exec I s l Q) (h' : ∀ t, Q t → Leads exec I t l' R) : Leads exec I s (l ++ l') R := by
  obtain ⟨rest, last⟩ := h' _ h.2
  refine ⟨fun n => ?_, ?_⟩
  · rw [List.take_append, runAll_append]
    cases Nat.le_total n l.length with
    | inl le =>
      rw [Nat.sub_eq_zero_of_le le, List.take_zero]
      exact h.1 n
    | inr le =>
      rw [List.take_of_length_le le]
      exact rest _
  · rw [runAll_append]
    exact last

/-- One part, then the other. -/
lemma inTurn (h : Leads exec I s (p s) Q) (h' : ∀ t, Q t → Leads exec I t (q t) R) :
    Leads exec I s (Lib.inTurn exec p q s) R := by
  obtain ⟨rest, last⟩ := h' _ h.2
  have h'' : Leads exec I s (p s) (· = runAll exec s (p s)) := ⟨h.1, rfl⟩
  refine h''.append fun t e => ?_
  rw [e]
  exact ⟨rest, last⟩

/-- What follows from the end. -/
lemma mono (h : Leads exec I s l Q) (imp : ∀ t, Q t → R t) : Leads exec I s l R := ⟨h.1, imp _ h.2⟩

end Leads

/-- A program that leads to `t` whenever it is begun in `I` ends in `t` however often it is broken off. -/
theorem Interrupted.rerun (leads : ∀ s, I s → Leads exec I s (p s) (· = t)) (i : I s)
    (h : Relation.ReflTransGen (Interrupted exec p) s s') : runAll exec s' (p s') = t := by
  have i' : I s' := by
    induction h with
    | refl => exact i
    | tail _ st ih =>
      obtain ⟨n, rfl⟩ := st
      exact (leads _ ih).1 n
  exact (leads s' i').2

end

end OpenAgentd.Lib
