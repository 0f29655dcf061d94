import Mathlib.Data.List.Nodup

/-!
# Tables and row locks

A table is the list of its committed rows.  `updateMany` is an `UPDATE … SET … WHERE …` statement,
with the number of rows it changes; `Unique key` is a unique constraint.

`Locks` says which open transaction, if any, has written each row: a statement that has to write
a row waits until the row is `available` to its own transaction.
-/

namespace Table

variable {ρ κ : Type*}

/-- `UPDATE … SET f WHERE p`: the rows afterwards, and how many of them it changed. -/
def updateMany (p : ρ → Bool) (f : ρ → ρ) (rows : List ρ) : List ρ × ℕ :=
  (rows.map fun r => if p r then f r else r, rows.countP p)

/-- A unique constraint on the column `key`. -/
def Unique (key : ρ → κ) (rows : List ρ) : Prop := (rows.map key).Nodup

variable {p : ρ → Bool} {f : ρ → ρ} {rows : List ρ} {r : ρ} {key : ρ → κ}

theorem mem_updateMany :
    r ∈ (updateMany p f rows).1 ↔ ∃ r₀ ∈ rows, (if p r₀ then f r₀ else r₀) = r := by
  simp only [updateMany, List.mem_map]

theorem updateMany_eq_self (h : ∀ r ∈ rows, p r = false) : (updateMany p f rows).1 = rows := by
  simp only [updateMany]
  rw [List.map_congr_left (g := id) fun r hr => by simp [h r hr], List.map_id]

theorem count_updateMany_eq_zero : (updateMany p f rows).2 = 0 ↔ ∀ r ∈ rows, p r = false := by
  simp only [updateMany, List.countP_eq_zero, Bool.not_eq_true]

/-- A column that the assignments leave alone keeps its values. -/
theorem map_updateMany (h : ∀ r, key (f r) = key r) :
    (updateMany p f rows).1.map key = rows.map key := by
  simp only [updateMany, List.map_map]
  refine List.map_congr_left fun r _ => ?_
  simp only [Function.comp_apply]
  split_ifs
  · exact h r
  · rfl

/-- Rows that a filter misses before and after an update. -/
theorem filter_updateMany_of_apart {q : ρ → Bool}
    (h : ∀ r ∈ rows, p r = true → q r = false ∧ q (f r) = false) :
    (updateMany p f rows).1.filter q = rows.filter q := by
  induction rows with
  | nil => rfl
  | cons r rows ih =>
    have ih := ih fun r hr => h r (List.mem_cons_of_mem _ hr)
    simp only [updateMany, List.map_cons, List.filter_cons] at ih ⊢
    rw [ih]
    by_cases hp : p r = true
    · obtain ⟨missed, missed'⟩ := h r List.mem_cons_self hp
      simp only [hp, if_true, missed, missed', Bool.false_eq_true, if_false]
    · rw [if_neg hp]

/-- The rows that the filter misses stay the same. -/
theorem filter_updateMany {q : ρ → Bool} (h : ∀ r ∈ rows, q r = true → p r = false)
    (hq : ∀ r, q (f r) = q r) : (updateMany p f rows).1.filter q = rows.filter q := by
  refine filter_updateMany_of_apart fun r hr hp => ?_
  have missed : q r = false := by
    by_contra hit
    simp [h r hr (by simpa using hit)] at hp
  exact ⟨missed, (hq r).trans missed⟩

/-- An update that hits one row. -/
theorem updateMany_of_one (nodup : rows.Nodup) (hr : r ∈ rows)
    (one : ∀ r' ∈ rows, p r' = true ↔ r' = r) :
    ∃ front back, rows = front ++ r :: back ∧ (updateMany p f rows).1 = front ++ f r :: back := by
  obtain ⟨front, back, rfl⟩ := List.append_of_mem hr
  refine ⟨front, back, rfl, ?_⟩
  obtain ⟨-, tail, apart⟩ := List.nodup_append.1 nodup
  have missed : ∀ part : List ρ, (∀ r' ∈ part, r' ∈ front ++ r :: back ∧ r' ≠ r) →
      (part.map fun r' => if p r' then f r' else r') = part := by
    intro part h
    refine (List.map_congr_left fun r' hr' => ?_).trans (List.map_id part)
    exact if_neg fun hp => (h r' hr').2 ((one r' (h r' hr').1).1 hp)
  simp only [updateMany, List.map_append, List.map_cons]
  rw [missed front, missed back, if_pos ((one r hr).2 rfl)]
  · intro r' hr'
    refine ⟨List.mem_append_right _ (List.mem_cons_of_mem _ hr'), ?_⟩
    rintro rfl
    exact (List.nodup_cons.1 tail).1 hr'
  · intro r' hr'
    exact ⟨List.mem_append_left _ hr', apart r' hr' r List.mem_cons_self⟩

/-- A lookup that at most one row answers finds that row. -/
theorem find?_iff (one : ∀ r ∈ rows, ∀ r' ∈ rows, p r = true → p r' = true → r = r') :
    rows.find? p = some r ↔ r ∈ rows ∧ p r = true := by
  constructor
  · intro h
    exact ⟨List.mem_of_find?_eq_some h, List.find?_some h⟩
  · rintro ⟨hr, hp⟩
    rcases h : rows.find? p with _ | r'
    · exact absurd hp (List.find?_eq_none.1 h r hr)
    · rw [one r hr r' (List.mem_of_find?_eq_some h) hp (List.find?_some h)]

namespace Unique

theorem updateMany (h : Unique key rows) (hf : ∀ r, key (f r) = key r) :
    Unique key (Table.updateMany p f rows).1 := by
  rw [Unique, map_updateMany hf]
  exact h

theorem concat (h : Unique key rows) (fresh : key r ∉ rows.map key) : Unique key (rows ++ [r]) := by
  rw [Unique, List.map_append, List.map_singleton]
  exact List.nodup_append'.2 ⟨h, List.nodup_singleton _, by simpa using fresh⟩

theorem nodup (h : Unique key rows) : rows.Nodup := List.Nodup.of_map key h

theorem eq_of_mem (h : Unique key rows) {r' : ρ} (hr : r ∈ rows) (hr' : r' ∈ rows)
    (e : key r = key r') : r = r' :=
  List.inj_on_of_nodup_map h hr hr' e

/-- At most one row has a given value of a unique column. -/
theorem countP_key [DecidableEq κ] (h : Unique key rows) (hr : r ∈ rows) (q : ρ → Bool) :
    rows.countP (fun r' => key r' = key r ∧ q r') = if q r then 1 else 0 := by
  obtain ⟨front, back, rfl⟩ := List.append_of_mem hr
  rw [Unique, List.map_append, List.map_cons, List.nodup_middle, List.nodup_cons,
    List.mem_append, not_or] at h
  have missed : ∀ part : List ρ, key r ∉ part.map key →
      part.countP (fun r' => key r' = key r ∧ q r') = 0 := by
    intro part apart
    rw [List.countP_eq_zero]
    intro r' hr' hit
    exact apart ((of_decide_eq_true hit).1 ▸ List.mem_map_of_mem hr')
  rw [List.countP_append, List.countP_cons, missed front h.1.1, missed back h.1.2]
  simp

/-- At most one row meets a filter that fixes a unique column. -/
theorem countP_le_one [DecidableEq κ] (h : Unique key rows) {k : κ} {q : ρ → Bool}
    (fixed : ∀ r, q r = true → key r = k) : rows.countP q ≤ 1 := by
  have one : (rows.map key).count k ≤ 1 := List.nodup_iff_count_le_one.1 h k
  rw [List.count, List.countP_map] at one
  refine Nat.le_trans (List.countP_mono_left fun r _ hq => ?_) one
  simpa using fixed r hq

/-- Looking a row up by a unique column finds the one row that has the value. -/
theorem find?_iff [DecidableEq κ] (h : Unique key rows) {k : κ} :
    rows.find? (fun r => key r = k) = some r ↔ r ∈ rows ∧ key r = k := by
  rw [Table.find?_iff, decide_eq_true_iff]
  intro r hr r' hr' e e'
  exact h.eq_of_mem hr hr' ((of_decide_eq_true e).trans (of_decide_eq_true e').symm)

end Unique

/-! ## Tables with a primary key -/

/-- A table with a primary key. -/
structure Keyed (key : ρ → κ) where
  rows : List ρ
  unique : Unique key rows

namespace Keyed

/-- `INSERT`, which the primary key may refuse. -/
def insert [DecidableEq κ] (table : Keyed key) (r : ρ) : Option (Keyed key) :=
  if h : key r ∉ table.rows.map key then some ⟨table.rows ++ [r], table.unique.concat h⟩ else none

theorem insert_rows [DecidableEq κ] {table table' : Keyed key} (h : table.insert r = some table') :
    table'.rows = table.rows ++ [r] := by
  unfold insert at h
  split_ifs at h
  rw [← Option.some.inj h]

theorem fresh_of_insert [DecidableEq κ] {table table' : Keyed key}
    (h : table.insert r = some table') : key r ∉ table.rows.map key := by
  unfold insert at h
  split_ifs at h with fresh
  exact fresh

theorem mem_insert [DecidableEq κ] {table table' : Keyed key} {r₀ : ρ}
    (h : table.insert r = some table') : r₀ ∈ table'.rows ↔ r₀ ∈ table.rows ∨ r₀ = r := by
  rw [insert_rows h, List.mem_append, List.mem_singleton]

/-- A filter that misses the new row. -/
theorem filter_insert [DecidableEq κ] {table table' : Keyed key} {q : ρ → Bool}
    (h : table.insert r = some table') (missed : q r = false) :
    table'.rows.filter q = table.rows.filter q := by
  rw [insert_rows h, List.filter_append, List.filter_singleton, missed, cond_false, List.append_nil]

/-- An `UPDATE` that leaves the primary key alone. -/
def update (table : Keyed key) (p : ρ → Bool) (f : ρ → ρ) (same : ∀ r, key (f r) = key r) :
    Keyed key :=
  ⟨(updateMany p f table.rows).1, table.unique.updateMany same⟩

/-- An `INSERT` whose refusal is ignored. -/
theorem mem_getD_insert [DecidableEq κ] {table : Keyed key} {r₀ : ρ} :
    r₀ ∈ ((table.insert r).getD table).rows ↔
      r₀ ∈ table.rows ∨ r₀ = r ∧ key r ∉ table.rows.map key := by
  unfold insert
  by_cases fresh : key r ∉ table.rows.map key
  · rw [dif_pos fresh]
    show r₀ ∈ table.rows ++ [r] ↔ _
    rw [List.mem_append, List.mem_singleton, and_iff_left fresh]
  · rw [dif_neg fresh]
    show r₀ ∈ table.rows ↔ _
    simp only [fresh, and_false, or_false]

end Keyed

/-! ## Correspondences between tables -/

/-- A one-to-one correspondence between the rows of two tables. -/
structure OneToOne {σ : Type*} (R : ρ → σ → Prop) (left : List ρ) (right : List σ) : Prop where
  to_right : ∀ r ∈ left, ∃! q, q ∈ right ∧ R r q
  to_left : ∀ q ∈ right, ∃! r, r ∈ left ∧ R r q

theorem map_eq_of_forall₂ {σ : Type*} {R : ρ → σ → Prop} {left : List ρ} {right : List σ}
    {key' : σ → κ} (h : List.Forall₂ R left right) (agree : ∀ r q, R r q → key r = key' q) :
    left.map key = right.map key' := by
  induction h with
  | nil => rfl
  | cons head _ ih => rw [List.map_cons, List.map_cons, agree _ _ head, ih]

/-- Rows that correspond in order correspond one to one, when the relation matches a unique column
of the left table with a column of the right one. -/
theorem OneToOne.of_forall₂ {σ : Type*} {R : ρ → σ → Prop} {left : List ρ} {right : List σ}
    (key' : σ → κ) (h : List.Forall₂ R left right) (agree : ∀ r q, R r q → key r = key' q)
    (unique : Unique key left) : OneToOne R left right := by
  have unique' : Unique key' right := by
    rw [Unique, ← map_eq_of_forall₂ h agree]
    exact unique
  have matched : (∀ r ∈ left, ∃ q ∈ right, R r q) ∧ ∀ q ∈ right, ∃ r ∈ left, R r q := by
    clear unique unique'
    induction h with
    | nil => exact ⟨fun _ hr => absurd hr List.not_mem_nil, fun _ hq => absurd hq List.not_mem_nil⟩
    | @cons r q left right head _ ih =>
      refine ⟨fun r' hr' => ?_, fun q' hq' => ?_⟩
      · rcases List.mem_cons.1 hr' with rfl | hr'
        · exact ⟨q, List.mem_cons_self, head⟩
        · obtain ⟨q', hq', related⟩ := ih.1 r' hr'
          exact ⟨q', List.mem_cons_of_mem _ hq', related⟩
      · rcases List.mem_cons.1 hq' with rfl | hq'
        · exact ⟨r, List.mem_cons_self, head⟩
        · obtain ⟨r', hr', related⟩ := ih.2 q' hq'
          exact ⟨r', List.mem_cons_of_mem _ hr', related⟩
  refine ⟨fun r hr => ?_, fun q hq => ?_⟩
  · obtain ⟨q, hq, related⟩ := matched.1 r hr
    refine ⟨q, ⟨hq, related⟩, fun q' other => unique'.eq_of_mem other.1 hq ?_⟩
    exact (agree r q' other.2).symm.trans (agree r q related)
  · obtain ⟨r, hr, related⟩ := matched.2 q hq
    refine ⟨r, ⟨hr, related⟩, fun r' other => unique.eq_of_mem other.1 hr ?_⟩
    exact (agree r' q other.2).trans (agree r q related).symm

end Table

/-- Row locks: the holder, if any, of each key. -/
def Locks (κ π : Type*) := κ → Option π

namespace Locks

variable {κ π : Type*}

/-- No row is locked. -/
def free : Locks κ π := fun _ => none

/-- `p` may write the row: nobody else has it. -/
def available [DecidableEq π] (l : Locks κ π) (p : π) (k : κ) : Bool := l k = none ∨ l k = some p

/-- The locks after `p` has written the rows `ks`. -/
def acquire [DecidableEq κ] (l : Locks κ π) (p : π) (ks : List κ) : Locks κ π :=
  fun k => if k ∈ ks then some p else l k

/-- The locks after the transaction of `p` has ended. -/
def release [DecidableEq π] (l : Locks κ π) (p : π) : Locks κ π :=
  fun k => if l k = some p then none else l k

variable {l : Locks κ π} {p q : π} {k : κ} {ks : List κ}

theorem acquire_of_mem [DecidableEq κ] (h : k ∈ ks) : l.acquire p ks k = some p := if_pos h

theorem acquire_of_held [DecidableEq κ] [DecidableEq π] (avail : ∀ k ∈ ks, l.available p k)
    (h : l k = some q) : l.acquire p ks k = some q := by
  unfold acquire
  split_ifs with hk
  · simpa [available, h, eq_comm] using avail k hk
  · exact h

theorem release_of_held [DecidableEq π] (h : l k = some q) (hne : q ≠ p) :
    l.release p k = some q := by
  simp [release, h, hne]

end Locks
