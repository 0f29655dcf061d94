import Mathlib.Data.List.Sort

/-!
# The newest rows

`newestFirst` orders rows by a time, latest first, and `Newest` is what the first `n` rows of such an
order are, however rows of one time are ordered.
-/

variable {α : Type*} (time : α → ℕ)

/-- The rows by descending time. -/
def newestFirst (rows : List α) : List α := rows.insertionSort fun a b => time b ≤ time a

/-- `answer` holds the newest `n` of the rows, newest first. -/
structure Newest (n : ℕ) (rows answer : List α) : Prop where
  sorted : answer.Pairwise fun a b => time b ≤ time a
  length : answer.length = min n rows.length
  others : ∃ rest, (answer ++ rest).Perm rows ∧ ∀ a ∈ answer, ∀ r ∈ rest, time r ≤ time a

variable {time} {rows : List α}

theorem perm_newestFirst : (newestFirst time rows).Perm rows := List.perm_insertionSort _ rows

theorem pairwise_newestFirst : (newestFirst time rows).Pairwise fun a b => time b ≤ time a :=
  have : Std.Total fun a b : α => time b ≤ time a := ⟨fun a b => Nat.le_total (time b) (time a)⟩
  have : IsTrans α fun a b => time b ≤ time a := ⟨fun _ _ _ h h' => Nat.le_trans h' h⟩
  List.pairwise_insertionSort _ rows

theorem newest_take (n : ℕ) : Newest time n rows ((newestFirst time rows).take n) where
  sorted := pairwise_newestFirst.take
  length := by rw [List.length_take, perm_newestFirst.length_eq]
  others := by
    refine ⟨(newestFirst time rows).drop n, ?_, fun a ha r hr => ?_⟩
    · rw [List.take_append_drop]
      exact perm_newestFirst
    · have sorted : (newestFirst time rows).Pairwise fun a b => time b ≤ time a :=
        pairwise_newestFirst
      rw [← List.take_append_drop n (newestFirst time rows)] at sorted
      exact (List.pairwise_append.1 sorted).2.2 a ha r hr

/-- Rows that were added in the order of their times. -/
theorem newestFirst_of_ascending (h : rows.Pairwise fun a b => time a < time b) :
    newestFirst time rows = rows.reverse := by
  have descending : rows.reverse.Pairwise fun a b => time b < time a := List.pairwise_reverse.2 h
  refine List.Perm.eq_of_pairwise (fun a b ha hb le ge => ?_) pairwise_newestFirst
    (descending.imp Nat.le_of_lt) (perm_newestFirst.trans (List.reverse_perm rows).symm)
  have distinct : (rows.map time).Nodup := List.pairwise_map.2 (h.imp Nat.ne_of_lt)
  exact List.inj_on_of_nodup_map distinct (perm_newestFirst.mem_iff.1 ha) (List.mem_reverse.1 hb)
    (Nat.le_antisymm ge le)

/-- Some row of a nonempty answer is as new as any row. -/
theorem Newest.exists_ge {n : ℕ} {answer : List α} {r : α} (newest : Newest time n rows answer)
    (pos : 1 ≤ n) (mem : r ∈ rows) : ∃ a ∈ answer, time r ≤ time a := by
  obtain ⟨rest, perm, older⟩ := newest.others
  rcases List.mem_append.1 (perm.mem_iff.2 mem) with here | there
  · exact ⟨r, here, Nat.le_refl _⟩
  · have nonempty : answer ≠ [] := by
      rintro rfl
      have length := newest.length
      have some : 0 < rows.length := List.length_pos_of_mem mem
      rw [List.length_nil] at length
      omega
    obtain ⟨a, ha⟩ := List.exists_mem_of_ne_nil answer nonempty
    exact ⟨a, ha, older a ha r there⟩
