import Mathlib.Algebra.Group.Int.Defs
import Mathlib.Data.Int.Notation
import Mathlib.Order.Defs.LinearOrder

/-!
# Counters derived from rows

A counter in a cache follows the number of rows of a table: each change of the rows is followed by
a step of the counter, which comes later.  An absent counter stays absent, and none goes below zero.

`Balanced key rows owed drift` relates the counter, the number of rows and the steps still owed: the
counter is off by `drift`, which grows by one with each decrement that meets zero
(`Balanced.decrement`) and starts anew when the counter is rebuilt (`Balanced.rebuilt`).
-/

namespace Counter

/-- With the steps that are still owed, the counter is off by `drift`. -/
def Balanced (key : Option ℤ) (rows owed drift : ℤ) : Prop :=
  ∀ v, key = some v → 0 ≤ v ∧ v + owed = rows + drift

namespace Balanced

variable {key : Option ℤ} {rows owed drift : ℤ}

theorem absent : Balanced none rows owed drift := by
  intro v hv
  cases hv

/-- The counter is set to the number of rows. -/
theorem rebuilt (nonneg : 0 ≤ rows) : Balanced (some rows) rows owed owed := by
  intro v h
  obtain rfl := Option.some.inj h
  exact ⟨nonneg, rfl⟩

/-- The rows change, and the step of the counter is owed. -/
theorem change (h : Balanced key rows owed drift) (δ : ℤ) :
    Balanced key (rows + δ) (owed + δ) drift := by
  intro v hv
  have := h v hv
  omega

theorem increment (h : Balanced key rows owed drift) :
    Balanced (key.map (· + 1)) rows (owed - 1) drift := by
  intro w hw
  obtain ⟨v, hv, rfl⟩ := Option.map_eq_some_iff.1 hw
  have := h v hv
  omega

/-- A step that keeps the counter from going below zero, as an increment. -/
theorem map_max_add_one (h : Balanced key rows owed drift) :
    (key.map fun v => max 0 (v + 1)) = key.map (· + 1) := by
  refine Option.map_congr fun v hv => ?_
  have := h v hv
  omega

/-- A decrement that meets zero is lost. -/
theorem decrement (h : Balanced key rows owed drift) :
    Balanced (key.map fun v => max 0 (v - 1)) rows (owed + 1)
      (drift + if key = some 0 then 1 else 0) := by
  intro w hw
  obtain ⟨v, hv, rfl⟩ := Option.map_eq_some_iff.1 hw
  have := h v hv
  simp only [hv, Option.some.injEq]
  split_ifs <;> omega

/-- Nothing is owed. -/
theorem settled (h : Balanced key rows owed drift) (none : owed = 0) {v : ℤ} (hv : key = some v) :
    v = rows + drift := by
  have := h v hv
  omega

end Balanced

end Counter
