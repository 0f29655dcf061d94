import EstateServer.Library.Pool
import EstateServer.Notifications.Requests

/-!
# Fan-out at most once

However often an event is delivered, and however its deliveries overlap or crash, each recipient
gets at most one row, one increment and one push for it, and the increment and the push are made by
the delivery that has inserted the row (`fan_out_once`).

The invariant is a ledger (`Ledger`): an insertion of the pair may be followed by one increment and
one push, and what has not been made yet is still owed by the process that inserted the row.
-/

namespace EstateServer.Notifications

open Machine

/-! ## Insertions, increments and pushes -/

def State.pairs (s : State) : List Pair := s.table.rows.map (·.pair)

/-- The pair whose counter step is next. -/
def Phase.incrementing : Phase → Option Pair
  | increment delivery created => some (delivery.event.eventId, created.recipientId)
  | _ => none

/-- The pair whose push is next. -/
def Phase.pushing : Phase → Option Pair
  | push delivery created => some (delivery.event.eventId, created.recipientId)
  | _ => none

/-- The step creates the row of the pair. -/
def inserts (pair : Pair) (st : Step State Label) : Bool :=
  !st.pre.pairs.any (· = pair) && st.post.pairs.any (· = pair)

/-- The step increments the counter of the recipient, for the pair. -/
def increments (pair : Pair) (st : Step State Label) : Bool :=
  match st.label with
  | .step p _ => (st.pre.phase p).incrementing = some pair
  | _ => false

/-- The step publishes to the recipient, for the pair. -/
def pushes (pair : Pair) (st : Step State Label) : Bool :=
  match st.label with
  | .step p _ => (st.pre.phase p).pushing = some pair
  | _ => false

/-! ## The ledger of a pair -/

/-- The increment is still to come. -/
def owesIncrement (pair : Pair) (phase : Phase) : ℤ := if phase.incrementing = some pair then 1 else 0

/-- The push is still to come. -/
def owesPush (pair : Pair) (phase : Phase) : ℤ :=
  if phase.incrementing = some pair ∨ phase.pushing = some pair then 1 else 0

structure Ledger (pair : Pair) (tr : List (Step State Label)) (s : State) : Prop where
  sparse_increment : Pool.Sparse (owesIncrement pair) s.phase
  sparse_push : Pool.Sparse (owesPush pair) s.phase
  inserted : tr.countP (inserts pair) ≤ if pair ∈ s.pairs then 1 else 0
  incremented : tr.countP (increments pair) + Pool.total (owesIncrement pair) s.phase ≤
    tr.countP (inserts pair)
  pushed : tr.countP (pushes pair) + Pool.total (owesPush pair) s.phase ≤ tr.countP (inserts pair)
  /-- The process that owes something has inserted the row. -/
  owner : ∀ p, owesPush pair (s.phase p) = 1 → ∃ st ∈ tr, inserts pair st ∧ st.label.pid = some p

variable {pair : Pair} {tr : List (Step State Label)} {s s' : State} {a : Label} {p : Pid}
  {phase : Phase}

theorem inserts_iff : inserts pair ⟨s, a, s'⟩ = true ↔ pair ∉ s.pairs ∧ pair ∈ s'.pairs := by
  have found : ∀ pairs : List Pair, pairs.any (· = pair) = true ↔ pair ∈ pairs := by
    intro pairs
    simp only [List.any_eq_true, decide_eq_true_eq, exists_eq_right]
  unfold inserts
  rw [Bool.and_eq_true, Bool.not_eq_true', ← Bool.not_eq_true, found, found]

theorem owesIncrement_nonneg (pair : Pair) (phase : Phase) : 0 ≤ owesIncrement pair phase := by
  unfold owesIncrement
  split_ifs <;> decide

theorem owesIncrement_le (pair : Pair) (phase : Phase) :
    owesIncrement pair phase ≤ owesPush pair phase := by
  unfold owesIncrement owesPush
  split_ifs <;> simp_all

theorem owesPush_le_one (pair : Pair) (phase : Phase) : owesPush pair phase ≤ 1 := by
  unfold owesPush
  split_ifs <;> decide

/-- The phase is neither before an increment nor before a push. -/
def Phase.silent (phase : Phase) : Prop := phase.incrementing = none ∧ phase.pushing = none

theorem Phase.silent_of_plain (plain : phase.plain) : phase.silent := by
  cases phase <;> first | exact ⟨rfl, rfl⟩ | cases plain

theorem increments_of_silent {draw : Draw} (silent : (s.phase p).silent) :
    increments pair ⟨s, .step p draw, s'⟩ = false ∧ pushes pair ⟨s, .step p draw, s'⟩ = false := by
  simp [increments, pushes, silent.1, silent.2]

theorem owesPush_of_silent (silent : phase.silent) : owesPush pair phase = 0 := by
  simp [owesPush, silent.1, silent.2]

namespace Ledger

/-- A step of the ledger: the process `p` goes from one phase to another, and its row, its increment
and its push are booked. -/
theorem book (h : Ledger pair tr s) (phase : Phase) (moved : s'.phase = Function.update s.phase p phase)
    (kept : pair ∈ s.pairs → pair ∈ s'.pairs)
    (increment : (if increments pair ⟨s, a, s'⟩ then (1 : ℤ) else 0) + owesIncrement pair phase ≤
      owesIncrement pair (s.phase p) + if inserts pair ⟨s, a, s'⟩ then 1 else 0)
    (push : (if pushes pair ⟨s, a, s'⟩ then (1 : ℤ) else 0) + owesPush pair phase ≤
      owesPush pair (s.phase p) + if inserts pair ⟨s, a, s'⟩ then 1 else 0)
    (owner : owesPush pair phase = 1 → owesPush pair (s.phase p) = 1 ∨
      inserts pair ⟨s, a, s'⟩ ∧ a.pid = some p) :
    Ledger pair (tr ++ [⟨s, a, s'⟩]) s' := by
  have one : ∀ q : Step State Label → Bool, List.countP q (tr ++ [⟨s, a, s'⟩]) =
      tr.countP q + if q ⟨s, a, s'⟩ then 1 else 0 := by
    intro q
    rw [List.countP_append, List.countP_singleton]
  refine ⟨?_, ?_, ?_, ?_, ?_, ?_⟩
  · rw [moved]
    exact h.sparse_increment.update
  · rw [moved]
    exact h.sparse_push.update
  · have inserted := h.inserted
    rw [one]
    simp only [inserts_iff]
    by_cases before : pair ∈ s.pairs
    · simpa [before, kept before] using inserted
    · by_cases after : pair ∈ s'.pairs <;> simpa [before, after] using inserted
  · have incremented := h.incremented
    rw [one, one, moved, Pool.total_update h.sparse_increment]
    push_cast
    omega
  · have pushed := h.pushed
    rw [one, one, moved, Pool.total_update h.sparse_push]
    push_cast
    omega
  · intro q owes
    rw [moved] at owes
    have earlier : owesPush pair (s.phase q) = 1 →
        ∃ st ∈ tr ++ [⟨s, a, s'⟩], inserts pair st ∧ st.label.pid = some q := by
      intro owes
      obtain ⟨st, hst, made⟩ := h.owner q owes
      exact ⟨st, List.mem_append_left _ hst, made⟩
    rcases eq_or_ne q p with rfl | apart
    · rw [Function.update_self] at owes
      rcases owner owes with before | now
      · exact earlier before
      · exact ⟨_, List.mem_concat_self, now⟩
    · rw [Function.update_of_ne apart] at owes
      exact earlier owes

/-- A step that leaves the rows as they are. -/
theorem keep (h : Ledger pair tr s) (phase : Phase) (moved : s'.phase = Function.update s.phase p phase)
    (kept : s'.pairs = s.pairs)
    (increment : (if increments pair ⟨s, a, s'⟩ then (1 : ℤ) else 0) + owesIncrement pair phase ≤
      owesIncrement pair (s.phase p))
    (push : (if pushes pair ⟨s, a, s'⟩ then (1 : ℤ) else 0) + owesPush pair phase ≤
      owesPush pair (s.phase p)) :
    Ledger pair (tr ++ [⟨s, a, s'⟩]) s' := by
  have quiet : inserts pair ⟨s, a, s'⟩ = false := by
    rw [← Bool.not_eq_true, inserts_iff, kept]
    tauto
  refine h.book phase moved (fun old => by rwa [kept]) ?_ ?_ ?_
  · simpa only [quiet, Bool.false_eq_true, if_false, add_zero] using increment
  · simpa only [quiet, Bool.false_eq_true, if_false, add_zero] using push
  · intro owes
    have most := owesPush_le_one pair (s.phase p)
    have made : (0 : ℤ) ≤ if pushes pair ⟨s, a, s'⟩ then (1 : ℤ) else 0 := by split_ifs <;> decide
    left
    omega

/-- A step that neither inserts nor increments nor pushes, to a phase that owes nothing. -/
theorem skip (h : Ledger pair tr s) (phase : Phase) (moved : s'.phase = Function.update s.phase p phase)
    (kept : s'.pairs = s.pairs)
    (none : increments pair ⟨s, a, s'⟩ = false ∧ pushes pair ⟨s, a, s'⟩ = false)
    (silent : phase.silent) : Ledger pair (tr ++ [⟨s, a, s'⟩]) s' := by
  have still : owesPush pair phase = 0 := owesPush_of_silent silent
  have still' := owesIncrement_le pair phase
  have owed := owesIncrement_nonneg pair (s.phase p)
  have owed' := owesIncrement_le pair (s.phase p)
  refine h.keep phase moved kept ?_ ?_
  · simp only [none.1, Bool.false_eq_true, if_false]
    omega
  · simp only [none.2, Bool.false_eq_true, if_false]
    omega

theorem of_moves (h : Ledger pair tr s) (move : Moves s a s') :
    Ledger pair (tr ++ [⟨s, a, s'⟩]) s' := by
  cases move with
  | @insert p draw delivery rest row table at_save key unread saved =>
    obtain ⟨rows, fresh⟩ := NotificationTable.saveIfNew_eq_some saved
    have pairs : table.rows.map (·.pair) = s.pairs ++ [row.pair] := by
      rw [rows, List.map_append, List.map_singleton]
      rfl
    have same : (rest.event.eventId, row.recipientId) = row.pair := by
      rw [← key]
      rfl
    have inserted : inserts pair ⟨s, .step p draw, { s with table }.enter p (.increment rest row)⟩ =
        decide (row.pair = pair) := by
      rw [Bool.eq_iff_iff, inserts_iff, decide_eq_true_iff]
      show pair ∉ s.pairs ∧ pair ∈ table.rows.map (·.pair) ↔ _
      rw [pairs, List.mem_append, List.mem_singleton]
      constructor
      · tauto
      · rintro rfl
        exact ⟨fresh, .inr rfl⟩
    refine h.book (p := p) (.increment rest row) rfl ?_ ?_ ?_ ?_
    · intro old
      show pair ∈ table.rows.map (·.pair)
      rw [pairs]
      exact List.mem_append_left _ old
    · rw [inserted]
      simp [increments, owesIncrement, at_save, Phase.incrementing, same]
    · rw [inserted]
      simp [pushes, owesPush, at_save, Phase.incrementing, Phase.pushing, same]
    · rw [inserted]
      simp [owesPush, at_save, Phase.incrementing, Phase.pushing, same, Label.pid]
  | @increment p draw delivery created at_increment =>
    refine h.keep (p := p) (.push delivery created) rfl rfl ?_ ?_
    · simp [increments, owesIncrement, at_increment, Phase.incrementing]
    · simp [pushes, owesPush, at_increment, Phase.incrementing, Phase.pushing]
  | @push p draw delivery created published at_push =>
    refine h.keep (p := p) (.save delivery) rfl rfl ?_ ?_
    · simp [increments, owesIncrement, at_push, Phase.incrementing]
    · simp [pushes, owesPush, at_push, Phase.incrementing, Phase.pushing]
  | @markOne p _ userId _ at_mark transitioned =>
    exact h.skip (.decrement userId) rfl NotificationTable.map_pair_markRead
      (increments_of_silent (at_mark ▸ ⟨rfl, rfl⟩)) ⟨rfl, rfl⟩
  | decrement at_decrement =>
    exact h.skip (.done .marked) rfl rfl (increments_of_silent (at_decrement ▸ ⟨rfl, rfl⟩)) ⟨rfl, rfl⟩
  | @markAll p _ userId at_mark =>
    exact h.skip (.reset userId) rfl NotificationTable.map_pair_markRead
      (increments_of_silent (at_mark ▸ ⟨rfl, rfl⟩)) ⟨rfl, rfl⟩
  | reset at_reset =>
    exact h.skip (.done .marked) rfl rfl (increments_of_silent (at_reset ▸ ⟨rfl, rfl⟩)) ⟨rfl, rfl⟩
  | @count p _ userId at_count =>
    exact h.skip (.backfill userId _) rfl rfl (increments_of_silent (at_count ▸ ⟨rfl, rfl⟩)) ⟨rfl, rfl⟩
  | @backfill p _ userId count at_backfill =>
    exact h.skip (.done (.unread count)) rfl rfl (increments_of_silent (at_backfill ▸ ⟨rfl, rfl⟩))
      ⟨rfl, rfl⟩
  | @pass a p phase taken before after =>
    refine h.skip phase rfl rfl ?_ (Phase.silent_of_plain after)
    cases a with
    | step q draw =>
      rw [← Option.some.inj taken] at before
      exact increments_of_silent (Phase.silent_of_plain before)
    | _ => exact ⟨rfl, rfl⟩
  | fail => exact h.skip (.done .aborted) rfl rfl ⟨rfl, rfl⟩ ⟨rfl, rfl⟩
  | expire =>
    refine h.keep (p := 0) (s.phase 0) (Function.update_eq_self 0 s.phase).symm rfl ?_ ?_
    · simp [increments]
    · simp [pushes]

end Ledger

/-! ## Runs -/

theorem ledger_of_run (start : notifications.start s) (run : notifications.Run Any s tr s') :
    Ledger pair tr s' := by
  refine run.trace_invariant (fun _ _ _ _ h _ step => h.of_moves (Moves.of_next step)) ?_
  have idle : ∀ p, (s.phase p).silent := fun p => start ▸ ⟨rfl, rfl⟩
  have none : ∀ p, owesPush pair (s.phase p) = 0 := fun p => owesPush_of_silent (idle p)
  have none' : ∀ p, owesIncrement pair (s.phase p) = 0 := by
    intro p
    simp [owesIncrement, (idle p).1]
  refine ⟨Pool.sparse_of_forall none', Pool.sparse_of_forall none, Nat.zero_le _, ?_, ?_, ?_⟩
  · rw [Pool.total_of_forall none']
    rfl
  · rw [Pool.total_of_forall none]
    rfl
  · intro p owes
    rw [none] at owes
    cases owes

/-- For each event and recipient there is at most one row, one increment and one push, whatever the
resolver answers; and whoever increments or pushes has inserted the row. -/
theorem fan_out_once (start : notifications.start s) (run : notifications.Run Any s tr s')
    (pair : Pair) :
    s'.table.rows.countP (·.pair = pair) ≤ 1 ∧
      tr.countP (increments pair) ≤ 1 ∧
      tr.countP (pushes pair) ≤ 1 ∧
      ∀ front st back, tr = front ++ st :: back → increments pair st ∨ pushes pair st →
        ∃ ins ∈ front, inserts pair ins ∧ ins.label.pid = st.label.pid := by
  have ledger : Ledger pair tr s' := ledger_of_run start run
  have inserted : tr.countP (inserts pair) ≤ 1 := by
    have := ledger.inserted
    split_ifs at this <;> omega
  have owed : 0 ≤ Pool.total (owesIncrement pair) s'.phase :=
    Pool.total_nonneg fun _ => owesIncrement_nonneg pair _
  have owed' : 0 ≤ Pool.total (owesPush pair) s'.phase :=
    Pool.total_nonneg fun _ => le_trans (owesIncrement_nonneg pair _) (owesIncrement_le pair _)
  have incremented := ledger.incremented
  have pushed := ledger.pushed
  refine ⟨?_, by omega, by omega, ?_⟩
  · exact s'.table.pair_unique.countP_le_one (k := pair) fun _ hit => of_decide_eq_true hit
  · rintro front st back rfl made
    obtain ⟨before, -⟩ := run.split
    obtain ⟨pre, a, post⟩ := st
    cases a with
    | step p draw =>
      refine Ledger.owner (ledger_of_run start before) p ?_
      rcases made with made | made
      · exact if_pos (.inl (of_decide_eq_true made))
      · exact if_pos (.inr (of_decide_eq_true made))
    | _ => rcases made with made | made <;> cases made

/-- Two deliveries overlap and see different members; the first crashes after its first insertion. -/
theorem fan_out_once_overlapping : ∃ tr t, notifications.Run Any empty tr t ∧
    t.table.rows.map (·.recipientId) = [1, 2, 3] ∧
    t.published.map (·.recipientId) = [2, 3] ∧ tr.countP (pushes (7, 2)) ≤ 1 := by
  have computed : (notifications.exec (fun _ _ => true) empty
      [.arrive 0 (.handleEvent (posted 7)), .arrive 1 (.handleEvent (posted 7)), take 0 [1, 2] 0,
        take 1 [2, 1, 3] 0, take 0 [] 1, take 1 [] 2, .fail 0, take 1 [] 0, take 1 [] 0,
        take 1 [] 3, take 1 [] 3, take 1 [] 0, take 1 [] 0, take 1 [] 0]).map
      (fun t => (t.table.rows.map (·.recipientId), t.published.map (·.recipientId))) =
      some ([1, 2, 3], [2, 3]) := by
    decide
  obtain ⟨t, reached, seen⟩ := Option.map_eq_some_iff.1 computed
  obtain ⟨tr, run, -⟩ := exists_run_of_exec (C := Any) (fun _ _ _ => trivial) reached
  obtain ⟨rows, published⟩ := Prod.mk.inj seen
  exact ⟨tr, t, run, rows, published, (fan_out_once empty_start run (7, 2)).2.2.1⟩

end EstateServer.Notifications
