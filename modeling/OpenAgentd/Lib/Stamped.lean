import Mathlib.Order.Basic
import Mathlib.Tactic.Lemma
import Mathlib.Tactic.TypeStar

/-!
# Values under a stamp

A value is kept with the stamp of the source it was read from, and taken for the present one as long as the stamp of
the source is that stamp. This is right (`Valid`) if every change of the source moves its stamp up or leaves the value
(`Valid.move`); what is already out of date may be left behind (`Valid.stale`).
-/

namespace OpenAgentd.Lib

/-- A value with the stamp it was read under. -/
structure Stamped (κ α : Type*) where
  stamp : κ
  value : α

namespace Stamped
variable {κ α : Type*} [PartialOrder κ] {e : Stamped κ α} {k k' : κ} {a a' : α}

/-- The entry was read from a source that now has the stamp `k` and the value `a`, and is not taken for another
value. -/
structure Valid (e : Stamped κ α) (k : κ) (a : α) : Prop where
  past : e.stamp ≤ k
  present : e.stamp = k → e.value = a

/-- What was read is valid. -/
lemma Valid.read (k : κ) (a : α) : Valid ⟨k, a⟩ k a := ⟨le_rfl, fun _ => rfl⟩

/-- The source moves up, or keeps its value. -/
lemma Valid.move (h : e.Valid k a) (le : k ≤ k') (same : k = k' → a = a') : e.Valid k' a' := by
  refine ⟨h.past.trans le, fun now => ?_⟩
  have kept : k = k' := le_antisymm le (now ▸ h.past)
  exact (h.present (now.trans kept.symm)).trans (same kept)

/-- An entry that is out of date stays so. -/
lemma Valid.stale (lt : e.stamp < k') : e.Valid k' a' := ⟨lt.le, fun now => absurd now lt.ne⟩

end Stamped

end OpenAgentd.Lib
