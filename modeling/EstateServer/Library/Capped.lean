import Mathlib.Data.List.Basic
import Mathlib.Data.Nat.Notation

/-!
# Capped lists

A list to which elements are pushed at the front, and which is cut to its first `cap` elements from
time to time.  Between the cuts it may be longer: `Capped cap pushed list` says that the list holds
the newest `cap` of the pushed elements (newest first), and possibly more of them.
-/

variable {α : Type*} {cap : ℕ} {pushed list : List α}

/-- The list holds the newest elements, at least `cap` of them. -/
def Capped (cap : ℕ) (pushed list : List α) : Prop := ∃ n, cap ≤ n ∧ list = pushed.take n

namespace Capped

theorem push (h : Capped cap pushed list) (a : α) : Capped cap (a :: pushed) (a :: list) := by
  obtain ⟨n, le, rfl⟩ := h
  exact ⟨n + 1, Nat.le_succ_of_le le, rfl⟩

/-- A cut leaves exactly the newest `cap` elements. -/
theorem take_eq (h : Capped cap pushed list) : list.take cap = pushed.take cap := by
  obtain ⟨n, le, rfl⟩ := h
  rw [List.take_take, Nat.min_eq_left le]

theorem cut (h : Capped cap pushed list) : Capped cap pushed (list.take cap) :=
  ⟨cap, Nat.le_refl cap, h.take_eq⟩

theorem eq_take (h : Capped cap pushed list) (short : list.length ≤ cap) :
    list = pushed.take cap := by
  rw [← h.take_eq, List.take_of_length_le short]

end Capped
