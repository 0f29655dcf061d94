import Mathlib.Algebra.BigOperators.Finprod

/-!
# Sums over a pool of processes

Each process of a pool is in a phase, and a phase has a weight: what the process still has to do
there.  `total w phase` is the sum of the weights, over any number of processes of which finitely
many have one (`Sparse`).  When one process goes on to another phase the total changes by the
difference of the two weights (`total_update`).
-/

namespace Pool

variable {π φ : Type*} (w : φ → ℤ) (phase : π → φ)

/-- Finitely many processes have a weight. -/
def Sparse : Prop := (Function.support fun p => w (phase p)).Finite

/-- The sum of the weights. -/
noncomputable def total : ℤ := ∑ᶠ p, w (phase p)

variable {w phase}

theorem sparse_of_forall (h : ∀ p, w (phase p) = 0) : Sparse w phase := by
  unfold Sparse
  rw [Function.support_eq_empty_iff.2 (funext h)]
  exact Set.finite_empty

theorem total_of_forall (h : ∀ p, w (phase p) = 0) : total w phase = 0 := by
  unfold total
  rw [finsum_congr h, finsum_zero]

theorem total_nonneg (h : ∀ x, 0 ≤ w x) : 0 ≤ total w phase := finsum_nonneg fun p => h (phase p)

variable [DecidableEq π] {p : π} {x : φ}

theorem Sparse.update (sparse : Sparse w phase) : Sparse w (Function.update phase p x) := by
  refine (sparse.insert p).subset fun q hq => ?_
  rcases eq_or_ne q p with rfl | apart
  · exact Set.mem_insert _ _
  · refine Set.mem_insert_of_mem _ ?_
    rwa [Function.mem_support, Function.update_of_ne apart] at hq

theorem total_update (sparse : Sparse w phase) :
    total w (Function.update phase p x) = total w phase - w (phase p) + w x := by
  have split : ∀ q, w (Function.update phase p x q) =
      w (phase q) + Pi.single (M := fun _ => ℤ) p (w x - w (phase p)) q := by
    intro q
    rcases eq_or_ne q p with rfl | apart
    · rw [Function.update_self, Pi.single_eq_same]
      omega
    · rw [Function.update_of_ne apart, Pi.single_eq_of_ne apart, add_zero]
  have single : ∑ᶠ q, Pi.single (M := fun _ => ℤ) p (w x - w (phase p)) q = w x - w (phase p) := by
    rw [finsum_eq_single _ p fun q apart => Pi.single_eq_of_ne apart _, Pi.single_eq_same]
  have finite : (Function.support (Pi.single (M := fun _ => ℤ) p (w x - w (phase p)))).Finite :=
    (Set.finite_singleton p).subset Pi.support_single_subset
  unfold total
  rw [finsum_congr split, finsum_add_distrib sparse finite, single]
  omega

end Pool
