import Mathlib.Tactic.Lemma
import Mathlib.Tactic.TypeStar

/-!
# Steps that can raise

A step of a program that changes a state and may raise: it returns the state as far as it got, with the exception
that ended it, if one did. `andThen` is the next statement, `forEach` a loop; what every step keeps is kept by
both, whether they end or raise.
-/

namespace OpenAgentd.Lib
variable {α σ ε : Type*}

/-- The next statement, unless the first has raised. -/
def andThen (r : σ × Option ε) (next : σ → σ × Option ε) : σ × Option ε :=
  match r with
  | (s, none) => next s
  | (s, some e) => (s, some e)

/-- A loop that an exception ends. -/
def forEach (f : α → σ → σ × Option ε) : List α → σ → σ × Option ε
  | [], s => (s, none)
  | a :: as, s => andThen (f a s) (forEach f as)

section
variable {r : σ × Option ε} {next : σ → σ × Option ε} {f : α → σ → σ × Option ε} {as bs : List α} {a : α}
  {s s' : σ} {e : ε} {I J : σ → Prop}

/-- What worked goes on. -/
lemma andThen_ok (h : r.2 = none) : andThen r next = next r.1 := by
  obtain ⟨s, _⟩ := r
  cases h
  rfl

/-- What raised ends. -/
lemma andThen_raised (h : r.2 = some e) : andThen r next = (r.1, some e) := by
  obtain ⟨s, _⟩ := r
  cases h
  rfl

/-- Two statements end if both do. -/
lemma andThen_eq_ok : andThen r next = (s', none) ↔ r.2 = none ∧ next r.1 = (s', none) := by
  obtain ⟨s, o⟩ := r
  cases o with
  | none => simp [andThen]
  | some e => simp [andThen]

/-- Both must work. -/
lemma andThen_snd_eq_none : (andThen r next).2 = none ↔ r.2 = none ∧ (next r.1).2 = none := by
  obtain ⟨s, o⟩ := r
  cases o with
  | none => simp [andThen]
  | some e => simp [andThen]

/-- No elements. -/
@[simp] lemma forEach_nil : forEach f [] s = (s, none) := rfl

/-- One element, then the others. -/
@[simp] lemma forEach_cons : forEach f (a :: as) s = andThen (f a s) (forEach f as) := rfl

end

end OpenAgentd.Lib
