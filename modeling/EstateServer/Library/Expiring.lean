import Mathlib.Data.Nat.Notation
import Mathlib.Data.Option.Basic

/-!
# Keys that expire

A key of a key-value store holds nothing, or a value that may have a deadline.  A command at the time
`now` sees the key without a value whose deadline has passed (`live`).

* `update` writes a value and keeps the deadline; a key that it creates has none;
* `modify` changes the value of a key that is there;
* `expire` sets the deadline of a key that is there;
* `create` writes a value with a deadline, unless the key is there.
-/

namespace Expiring

/-- A value with its deadline, if it has one. -/
structure Cell (α : Type*) where
  value : α
  deadline : Option ℕ
  deriving DecidableEq, Repr

/-- A key: absent, or with a cell. -/
abbrev Key (α : Type*) := Option (Cell α)

variable {α : Type*}

/-- The key as a command at the time `now` sees it. -/
def live (now : ℕ) (key : Key α) : Key α :=
  key.filter fun cell => cell.deadline.all fun deadline => now < deadline

/-- The value that a command at the time `now` reads. -/
def read (now : ℕ) (key : Key α) : Option α := (live now key).map (·.value)

/-- Write a value computed from the old one, and keep the deadline. -/
def update (f : Option α → α) (now : ℕ) (key : Key α) : Key α :=
  match live now key with
  | none => some { value := f none, deadline := none }
  | some cell => some { cell with value := f (some cell.value) }

/-- Change the value of a key that is there. -/
def modify (f : α → α) (now : ℕ) (key : Key α) : Key α :=
  (live now key).map fun cell => { cell with value := f cell.value }

/-- Let a key that is there expire after `ttl`. -/
def expire (ttl now : ℕ) (key : Key α) : Key α :=
  (live now key).map fun cell => { cell with deadline := some (now + ttl) }

/-- Write a value that expires after `ttl`, unless the key is there. -/
def create (ttl : ℕ) (a : α) (now : ℕ) (key : Key α) : Key α :=
  some ((live now key).getD { value := a, deadline := some (now + ttl) })

/-- What holds of the value, if there is one. -/
def Holds (P : α → Prop) (key : Key α) : Prop := ∀ cell ∈ key, P cell.value

variable {now : ℕ} {key : Key α} {P : α → Prop} {f : α → α}

theorem mem_live {cell : Cell α} : cell ∈ live now key ↔
    cell ∈ key ∧ ∀ deadline ∈ cell.deadline, now < deadline := by
  simp [live, Option.all_eq_true]

theorem read_eq_some {a : α} : read now key = some a ↔
    ∃ cell ∈ key, (∀ deadline ∈ cell.deadline, now < deadline) ∧ cell.value = a := by
  rw [read, Option.map_eq_some_iff]
  exact exists_congr fun cell => (and_congr_left' mem_live).trans and_assoc

/-- A key that is seen at a time has been seen before. -/
theorem live_mono {later : ℕ} {cell : Cell α} (le : now ≤ later) (h : cell ∈ live later key) :
    cell ∈ live now key :=
  mem_live.2 ⟨(mem_live.1 h).1, fun _ mem => Nat.lt_of_le_of_lt le ((mem_live.1 h).2 _ mem)⟩

/-- A key without a deadline that has passed is seen as it is. -/
theorem live_eq_self (h : ∀ cell ∈ key, ∀ deadline ∈ cell.deadline, now < deadline) :
    live now key = key :=
  Option.ext fun _ => mem_live.trans (and_iff_left_of_imp (h _))

theorem update_of_live {f : Option α → α} {cell : Cell α} (h : live now key = some cell) :
    update f now key = some { cell with value := f (some cell.value) } := by
  rw [update, h]

theorem read_of_live {cell : Cell α} (h : live now key = some cell) :
    read now key = some cell.value := by
  rw [read, h, Option.map_some]

theorem live_update {f : Option α → α} : live now (update f now key) = update f now key := by
  refine live_eq_self fun cell mem => ?_
  unfold update at mem
  split at mem <;> rename_i seen <;> rw [← Option.some.inj mem]
  · rintro _ ⟨⟩
  · exact (mem_live.1 seen).2

theorem live_modify : live now (modify f now key) = modify f now key := by
  refine live_eq_self fun cell mem => ?_
  obtain ⟨old, mem', rfl⟩ := Option.mem_map.1 mem
  exact (mem_live.1 mem').2

theorem live_expire {ttl : ℕ} (pos : 0 < ttl) :
    live now (expire ttl now key) = expire ttl now key := by
  refine live_eq_self fun cell mem => ?_
  obtain ⟨old, -, rfl⟩ := Option.mem_map.1 mem
  rintro _ ⟨⟩
  exact Nat.lt_add_of_pos_right pos

theorem live_create {ttl : ℕ} {a : α} (pos : 0 < ttl) :
    live now (create ttl a now key) = create ttl a now key := by
  refine live_eq_self fun cell mem => ?_
  obtain rfl := Option.some.inj mem
  cases h : live now key with
  | none =>
    rintro _ ⟨⟩
    exact Nat.lt_add_of_pos_right pos
  | some old => exact (mem_live.1 h).2

namespace Holds

theorem live (h : Holds P key) : Holds P (live now key) := fun cell mem => h cell (mem_live.1 mem).1

theorem read (h : Holds P key) {a : α} (read : read now key = some a) : P a := by
  obtain ⟨cell, mem, -, rfl⟩ := read_eq_some.1 read
  exact h cell mem

theorem update {f : Option α → α} (h : Holds P key) (new : Q (f none))
    (keep : ∀ a, P a → Q (f (some a))) : Holds Q (update f now key) := by
  intro cell mem
  unfold Expiring.update at mem
  split at mem
  · rw [← Option.some.inj mem]
    exact new
  · rw [← Option.some.inj mem]
    exact keep _ (h.live _ ‹_›)

theorem modify (h : Holds P key) (keep : ∀ a, P a → Q (f a)) : Holds Q (modify f now key) := by
  intro cell mem
  obtain ⟨old, mem', rfl⟩ := Option.mem_map.1 mem
  exact keep _ (h.live old mem')

theorem expire {ttl : ℕ} (h : Holds P key) : Holds P (expire ttl now key) := by
  intro cell mem
  obtain ⟨old, mem', rfl⟩ := Option.mem_map.1 mem
  exact h.live old mem'

end Holds

end Expiring
