import EstateServer.Outbox.Invariant

/-!
# The accounts of the outbox

What the invariant says of every reachable state and of every run:

* `row_of_run`, `settled_run`: rows stay; a row that is published or quarantined stays so, and only
  a tick that has lost its transaction emits it again;
* `Accounted.count_closed`: with no tick open, every emit is an attempt, a publication, or lost
  with a tick that was rolled back;
* `emitted_once`: without rollbacks, an event is successfully emitted at most once;
* `outbox_accounting`: all of it.
-/

namespace EstateServer.Outbox

open Machine

variable {P : Type}

/-! ## What a step does to a row, and to the rows ahead -/

section

variable {config : RelayConfig} {s s' : State P} {a : Label P} {row : OutboxEvent P}

/-- A row stays, and a row that is not pending stays as it is. -/
theorem row_of_moves (h : Accounted s) (move : Moves config s a s') (hrow : row ∈ s.table.rows) :
    ∃ row' ∈ s'.table.rows, row'.inserted = row.inserted ∧ (row.status ≠ .pending → row' = row) := by
  cases move with
  | insert added =>
    refine ⟨row, ?_, rfl, fun _ => rfl⟩
    have rows := OutboxTable.add_rows added
    show row ∈ OutboxTable.rows _
    rw [rows]
    exact List.mem_append_left _ hrow
  | fetch | emit | mark | abort => exact ⟨row, hrow, rfl, fun _ => rfl⟩
  | @commit t marked running =>
    refine ⟨row.written (marked.map config.write), ?_, OutboxEvent.written_inserted,
      fun settled => ?_⟩
    · show _ ∈ (s.table.commit _).rows
      rw [OutboxTable.commit_rows]
      exact List.mem_map_of_mem hrow
    · refine OutboxEvent.written_of_not_mem fun hmem => settled ?_
      obtain ⟨write, hwrite, hid⟩ := List.mem_map.1 hmem
      obtain ⟨m, hm, rfl⟩ := List.mem_map.1 hwrite
      obtain ⟨-, row', hrow', pending, record⟩ := (h.marked_rows running).2 m hm
      rw [config.write_id, ← record] at hid
      rwa [s.table.eq_of_id hrow hrow' hid.symm]

/-- Every row is one that was there before, or the one that the step inserts. -/
theorem inserted_of_moves (move : Moves config s a s') (hrow : row ∈ s'.table.rows) :
    (∃ row₀ ∈ s.table.rows, row.inserted = row₀.inserted) ∨
      ∃ event traceContext id createdAt, a = .insert event traceContext id createdAt ∧
        row = newRow event traceContext id createdAt := by
  cases move with
  | insert added =>
    have rows := OutboxTable.add_rows added
    change row ∈ OutboxTable.rows _ at hrow
    rw [rows, List.mem_append, List.mem_singleton] at hrow
    rcases hrow with old | new
    · exact .inl ⟨row, old, rfl⟩
    · exact .inr ⟨_, _, _, _, rfl, new⟩
  | fetch | emit | mark | abort => exact .inl ⟨row, hrow, rfl⟩
  | commit =>
    change row ∈ (s.table.commit _).rows at hrow
    rw [OutboxTable.commit_rows] at hrow
    obtain ⟨row₀, hrow₀, rfl⟩ := List.mem_map.1 hrow
    exact .inl ⟨row₀, hrow₀, OutboxEvent.written_inserted⟩

theorem ahead_of_update {t u : TickId} {phase : Phase P} {record : OutboxRecord P}
    (h : record ∈ (Function.update s.phase u phase t).ahead) :
    record ∈ (s.phase t).ahead ∨ t = u ∧ record ∈ phase.ahead := by
  by_cases ht : t = u
  · rw [ht, Function.update_self] at h
    exact .inr ⟨ht, h⟩
  · rw [Function.update_of_ne ht] at h
    exact .inl h

/-- A row comes ahead of a tick when the tick fetches it, which takes pending rows. -/
theorem ahead_of_moves (move : Moves config s a s') {t : TickId} {record : OutboxRecord P}
    (hrecord : record ∈ (s'.phase t).ahead) :
    record ∈ (s.phase t).ahead ∨
      ∃ dbNow ordered, a = .fetch t dbNow ordered ∧ ∃ row ∈ ordered.take config.batchSize,
        row ∈ s.table.rows ∧ row.status = .pending ∧ row.record = record := by
  cases move with
  | insert => exact .inl hrecord
  | fetch _ ordering =>
    rcases ahead_of_update hrecord with old | ⟨rfl, new⟩
    · exact .inl old
    · obtain ⟨row, hrow, rfl⟩ := List.mem_map.1 new
      obtain ⟨present, due, -⟩ :=
        (OutboxTable.mem_of_ordered ordering).1 (List.mem_of_mem_take hrow)
      exact .inr ⟨_, _, rfl, row, hrow, present, OutboxEvent.status_of_due due, rfl⟩
  | emit emitted =>
    refine .inl ?_
    rcases ahead_of_update hrecord with old | ⟨rfl, new⟩
    · exact old
    · rcases Phase.emit_cases emitted with ⟨marked, rest, before, rfl⟩ | ⟨before, rfl⟩
      · rw [before]
        exact List.mem_cons_of_mem _ new
      · cases new
  | mark running =>
    refine .inl ?_
    rcases ahead_of_update hrecord with old | ⟨rfl, new⟩
    · exact old
    · rw [running]
      exact new
  | commit running =>
    refine .inl ?_
    rcases ahead_of_update hrecord with old | ⟨-, new⟩
    · exact old
    · cases new
  | abort running =>
    refine .inl ?_
    rcases ahead_of_update hrecord with old | ⟨rfl, new⟩
    · exact old
    · rw [running]
      exact Tick.next_mem _ new

/-- An emit is of a row that the tick had ahead. -/
theorem emits_of_moves (move : Moves config s a s') : s'.emits = s.emits ∨
    ∃ e : Emit P, s'.emits = s.emits ++ [e] ∧ e.row ∈ (s.phase e.tick).ahead := by
  cases move with
  | insert | fetch | mark | commit | abort => exact .inl rfl
  | @emit t error row phase emitted =>
    refine .inr ⟨⟨t, row, error⟩, rfl, ?_⟩
    show row ∈ (s.phase t).ahead
    rcases Phase.emit_cases emitted with ⟨marked, rest, before, -⟩ | ⟨before, -⟩
    · rw [before]
      exact List.mem_cons_self
    · rw [before]
      exact List.mem_singleton_self row

end

/-! ## Counting emits -/

section

variable {s : State P} {row : OutboxEvent P}

/-- The tick of an emit has begun. -/
theorem Accounted.phase_of_emit (h : Accounted s) {e : Emit P} (he : e ∈ s.emits) :
    s.phase e.tick ≠ .idle := by
  intro idle
  have none : s.emitsOf e.tick = [] := h.idle e.tick idle
  have own : e ∈ s.emitsOf e.tick := List.mem_filter.2 ⟨he, decide_eq_true rfl⟩
  rw [none] at own
  cases own

/-- The rows that an open tick has emitted, followed by those that it has ahead. -/
theorem Accounted.emitted_ids (h : Accounted s) {t : TickId} {tick : Tick P}
    (running : s.phase t = .running tick) :
    ((s.emitsOf t).map fun e => e.row.id) ++ (tick.rest.map fun record => record.id) =
      tick.batch.map fun record => record.id := by
  have ids := congrArg (List.map fun x : OutboxRecord P × Option String => x.1.id)
    (h.emitted t tick running)
  rw [List.map_map] at ids
  have emitted : ((s.emitsOf t).map fun e => e.row.id) =
      tick.emitted.map fun x => x.1.id := ids
  rw [emitted]
  simp [Tick.emitted, Tick.batch, List.map_append, Function.comp_def]

/-- An open tick emits a row at most once. -/
theorem Accounted.countP_emitsOf (h : Accounted s) {t : TickId} {tick : Tick P}
    (running : s.phase t = .running tick) (id : OutboxId) :
    (s.emitsOf t).countP (fun e => e.row.id = id) ≤ 1 := by
  have nodup : ((s.emitsOf t).map fun e => e.row.id).Nodup := by
    have all := (h.held t tick running).1
    rw [← h.emitted_ids running] at all
    exact (List.nodup_append.1 all).1
  have count := List.nodup_iff_count_le_one.1 nodup id
  rw [List.count, List.countP_map] at count
  exact count

/-- An open tick that has emitted a row holds it. -/
theorem Accounted.holds_of_emit (h : Accounted s) {e : Emit P} (he : e ∈ s.emits) {tick : Tick P}
    (running : s.phase e.tick = .running tick) : s.Holds e.tick e.row.id := by
  refine ⟨tick, running, ?_⟩
  rw [← h.emitted_ids running]
  refine List.mem_append_left _ (List.mem_map.2 ⟨e, ?_, rfl⟩)
  exact List.mem_filter.2 ⟨he, decide_eq_true rfl⟩

/-- With no tick open, every emit is accounted for by an attempt, by the publication of its row or
by a tick that was rolled back. -/
theorem Accounted.count_closed (h : Accounted s) (closed : ∀ t tick, s.phase t ≠ .running tick)
    (hrow : row ∈ s.table.rows) :
    s.emits.countP (fun e => e.row.id = row.id) =
      row.attempts + (if row.status = .published then 1 else 0) +
        s.emits.countP fun e => e.row.id = row.id ∧ (s.phase e.tick).isRolledBack := by
  have split : ∀ l : List (Emit P), (∀ e ∈ l, e ∈ s.emits) →
      l.countP (fun e => e.row.id = row.id) =
        l.countP (fun e => e.row.id = row.id ∧ e.acked = true ∧ (s.phase e.tick).isCommitted) +
        l.countP (fun e => e.row.id = row.id ∧ e.acked = false ∧ (s.phase e.tick).isCommitted) +
        l.countP fun e => e.row.id = row.id ∧ (s.phase e.tick).isRolledBack := by
    intro l
    induction l with
    | nil => exact fun _ => rfl
    | cons e l ih =>
      intro sub
      have tail := ih fun e' he' => sub e' (List.mem_cons_of_mem _ he')
      have begun := h.phase_of_emit (sub e List.mem_cons_self)
      have open_ := closed e.tick
      simp only [List.countP_cons, decide_eq_true_eq, tail]
      cases hphase : s.phase e.tick with
      | idle => exact absurd hphase begun
      | running tick => exact absurd hphase (open_ tick)
      | committed =>
        by_cases hid : e.row.id = row.id <;> cases e.acked <;>
          simp [hid, Phase.isCommitted, Phase.isRolledBack] <;> omega
      | rolledBack next =>
        by_cases hid : e.row.id = row.id <;>
          simp [hid, Phase.isCommitted, Phase.isRolledBack]
        omega
  have acked : s.emits.countP (fun e => e.row.id = row.id ∧ e.acked = true ∧
      (s.phase e.tick).isCommitted) = if row.status = .published then 1 else 0 := h.acked row hrow
  have rejected : s.emits.countP (fun e => e.row.id = row.id ∧ e.acked = false ∧
      (s.phase e.tick).isCommitted) = row.attempts := h.rejected row hrow
  rw [split s.emits fun _ he => he, acked, rejected]
  omega

/-- Without rollbacks, the tick of an emit is committed or open. -/
theorem Accounted.running_of_emit (h : Accounted s) (kept : ∀ t, (s.phase t).isRolledBack = false)
    {e : Emit P} (he : e ∈ s.emits) (uncommitted : (s.phase e.tick).isCommitted = false) :
    ∃ tick, s.phase e.tick = .running tick := by
  have begun := h.phase_of_emit he
  have kept := kept e.tick
  cases hphase : s.phase e.tick with
  | idle => exact absurd hphase begun
  | running tick => exact ⟨tick, rfl⟩
  | committed =>
    rw [hphase] at uncommitted
    cases uncommitted
  | rolledBack next =>
    rw [hphase] at kept
    cases kept

/-- Without rollbacks, the acknowledged emits of a row are at most one. -/
theorem Accounted.count_acked (h : Accounted s) (kept : ∀ t, (s.phase t).isRolledBack = false)
    (hrow : row ∈ s.table.rows) :
    s.emits.countP (fun e => e.row.id = row.id ∧ e.acked) ≤ 1 := by
  have acked : s.emits.countP (fun e => e.row.id = row.id ∧ e.acked = true ∧
      (s.phase e.tick).isCommitted) = if row.status = .published then 1 else 0 := h.acked row hrow
  by_cases early : ∃ e ∈ s.emits, e.row.id = row.id ∧ (s.phase e.tick).isCommitted = false
  · -- an open tick has emitted the row, so it is pending and no committed tick has published it
    obtain ⟨e, he, hid, uncommitted⟩ := early
    have holds : s.Holds e.tick row.id := by
      obtain ⟨tick, running⟩ := h.running_of_emit kept he uncommitted
      rw [← hid]
      exact h.holds_of_emit he running
    have pending : row.status = .pending := h.pending_of_holds hrow holds
    have none := acked
    rw [pending, if_neg nofun, List.countP_eq_zero] at none
    have own : ∀ e' ∈ s.emits, e'.row.id = row.id ∧ e'.acked = true → e'.tick = e.tick := by
      intro e' he' hit
      by_cases committed : (s.phase e'.tick).isCommitted = true
      · exact absurd (decide_eq_true ⟨hit.1, hit.2, committed⟩) (none e' he')
      · obtain ⟨tick, running⟩ :=
          h.running_of_emit kept he' (Bool.eq_false_iff.2 committed)
        have holds' : s.Holds e'.tick row.id := by
          rw [← hit.1]
          exact h.holds_of_emit he' running
        exact h.holds_unique holds' holds
    obtain ⟨tick, running, -⟩ := holds
    calc s.emits.countP (fun e' => e'.row.id = row.id ∧ e'.acked)
        ≤ s.emits.countP fun e' => e'.row.id = row.id ∧ e'.tick = e.tick := by
          refine List.countP_mono_left fun e' he' hit => ?_
          have hit := of_decide_eq_true hit
          exact decide_eq_true ⟨hit.1, own e' he' hit⟩
      _ = (s.emitsOf e.tick).countP fun e' => e'.row.id = row.id := by
          rw [State.emitsOf, List.countP_filter]
          simp only [Bool.decide_and]
      _ ≤ 1 := h.countP_emitsOf running row.id
  · calc s.emits.countP (fun e => e.row.id = row.id ∧ e.acked)
        ≤ s.emits.countP fun e => e.row.id = row.id ∧ e.acked = true ∧
            (s.phase e.tick).isCommitted := by
          refine List.countP_mono_left fun e he hit => ?_
          have hit := of_decide_eq_true hit
          refine decide_eq_true ⟨hit.1, hit.2, ?_⟩
          by_contra uncommitted
          exact early ⟨e, he, hit.1, Bool.eq_false_iff.2 uncommitted⟩
      _ ≤ 1 := by
          rw [acked]
          split_ifs <;> omega

/-- A published row has been acknowledged. -/
theorem Accounted.acked_of_published (h : Accounted s) (hrow : row ∈ s.table.rows)
    (published : row.status = .published) :
    ∃ e ∈ s.emits, e.row.id = row.id ∧ e.acked = true := by
  have count := h.acked row hrow
  rw [if_pos published] at count
  obtain ⟨e, he, hit⟩ := List.countP_pos_iff.1 (Nat.lt_of_lt_of_eq Nat.one_pos count.symm)
  have hit := of_decide_eq_true hit
  exact ⟨e, he, hit.1, hit.2.1⟩

end

/-! ## Runs -/

section

variable [DecidableEq P] {config : RelayConfig} {C : State P → Label P → Prop} {s s' : State P}
  {tr : List (Step (State P) (Label P))} {row : OutboxEvent P}

theorem accounted_of_reachable (h : (outbox config).Reachable C s) : Accounted s :=
  h.invariant (fun _ => Accounted.of_start) fun _ _ _ accounted _ step =>
    accounted.of_moves (moves_of_next step)

/-- A row stays over a run. -/
theorem row_of_run (h : Accounted s) (run : (outbox config).Run C s tr s')
    (hrow : row ∈ s.table.rows) :
    ∃ row' ∈ s'.table.rows, row'.inserted = row.inserted ∧
      (row.status ≠ .pending → row' = row) := by
  have keep := run.invariant
    (I := fun u => Accounted u ∧ ∃ row' ∈ u.table.rows, row'.inserted = row.inserted ∧
      (row.status ≠ .pending → row' = row))
    (fun u a v kept _ step => ?_) ⟨h, row, hrow, rfl, fun _ => rfl⟩
  · exact keep.2
  obtain ⟨accounted, row₁, hrow₁, inserted, same⟩ := kept
  obtain ⟨row₂, hrow₂, inserted', same'⟩ := row_of_moves accounted (moves_of_next step) hrow₁
  refine ⟨accounted.of_moves (moves_of_next step), row₂, hrow₂, inserted'.trans inserted, ?_⟩
  intro settled
  rw [same settled] at same'
  exact same' settled

/-- A row that is not pending is only emitted again by a tick that has lost its transaction. -/
theorem settled_run (h : Accounted s) (run : (outbox config).Run C s tr s')
    (hrow : row ∈ s.table.rows) (settled : row.status ≠ .pending) :
    ∃ later, s'.emits = s.emits ++ later ∧
      ∀ e ∈ later, e.row.id = row.id → (s.phase e.tick).isRolledBack := by
  have keep := run.invariant
    (I := fun u => (Accounted u ∧ row ∈ u.table.rows) ∧
      (∀ t, ∀ record ∈ (u.phase t).ahead, record.id = row.id → (s.phase t).isRolledBack) ∧
      ∃ later, u.emits = s.emits ++ later ∧
        ∀ e ∈ later, e.row.id = row.id → (s.phase e.tick).isRolledBack)
    (fun u a v kept _ step => ?_) ⟨⟨h, hrow⟩, fun t record hrecord hid => ?_, [], ?_, ?_⟩
  · exact keep.2.2
  · obtain ⟨⟨accounted, present⟩, ahead, later, emits, late⟩ := kept
    have move := moves_of_next step
    obtain ⟨row', hrow', -, same⟩ := row_of_moves accounted move present
    have unchanged : row' = row := same settled
    refine ⟨⟨accounted.of_moves move, unchanged ▸ hrow'⟩, fun t record hrecord hid => ?_, ?_⟩
    · rcases ahead_of_moves move hrecord with old | ⟨-, -, -, row₁, -, hrow₁, pending, rfl⟩
      · exact ahead t record old hid
      · have same : row₁ = row := u.table.eq_of_id hrow₁ present hid
        exact absurd (same ▸ pending) settled
    · rcases emits_of_moves move with quiet | ⟨e, emitted, he⟩
      · exact ⟨later, quiet.trans emits, late⟩
      · refine ⟨later ++ [e], ?_, fun e' he' hid => ?_⟩
        · rw [emitted, emits, List.append_assoc]
        · rcases List.mem_append.1 he' with old | new
          · exact late e' old hid
          · have last : e' = e := List.mem_singleton.1 new
            rw [last] at hid ⊢
            exact ahead e.tick e.row he hid
  · cases hphase : s.phase t with
    | running tick =>
      have held : s.Holds t row.id := by
        rw [hphase] at hrecord
        refine ⟨tick, hphase, List.mem_map.2 ⟨record, ?_, hid⟩⟩
        exact List.mem_append_right _ hrecord
      exact absurd (h.pending_of_holds hrow held) settled
    | rolledBack next => rfl
    | idle | committed =>
      rw [hphase] at hrecord
      cases hrecord
  · rw [List.append_nil]
  · intro e he
    cases he

/-- No tick is rolled back by the step. -/
def NoRollback (_ : State P) (a : Label P) : Prop := ∀ t, a ≠ .abort t

theorem kept_of_reachable (h : (outbox config).Reachable NoRollback s) (t : TickId) :
    (s.phase t).isRolledBack = false := by
  have keep := h.invariant (I := fun s => ∀ t, (s.phase t).isRolledBack = false)
    (fun u start t => ?_) fun u a v kept meets step t => ?_
  · exact keep t
  · obtain ⟨-, -, -, phase⟩ := start
    rw [phase]
    rfl
  · have update : ∀ u' phase, phase.isRolledBack = false →
        (Function.update u.phase u' phase t).isRolledBack = false := by
      intro u' phase hphase
      by_cases ht : t = u'
      · rw [ht, Function.update_self]
        exact hphase
      · rw [Function.update_of_ne ht]
        exact kept t
    cases moves_of_next step with
    | insert => exact kept t
    | fetch => exact update _ _ rfl
    | @emit t' error row phase emitted =>
      rcases Phase.emit_cases emitted with ⟨marked, rest, -, rfl⟩ | ⟨before, -⟩
      · exact update _ _ rfl
      · have lost := kept t'
        rw [before] at lost
        cases lost
    | mark => exact update _ _ rfl
    | commit => exact update _ _ rfl
    | @abort t' => exact absurd rfl (meets t')

/-- In a run without rollbacks an event is successfully emitted at most once. -/
theorem emitted_once (h : (outbox config).Reachable NoRollback s) (eventId : EventId) :
    s.emits.countP (fun e => e.row.eventId = eventId ∧ e.acked) ≤ 1 := by
  have accounted : Accounted s := accounted_of_reachable h
  by_cases some : ∃ e ∈ s.emits, e.row.eventId = eventId
  · obtain ⟨e, he, rfl⟩ := some
    obtain ⟨row, hrow, same⟩ := accounted.known e.row (.inl ⟨e, he, rfl⟩)
    refine Nat.le_trans (List.countP_mono_left fun e' he' hit => ?_)
      (accounted.count_acked (kept_of_reachable h) hrow)
    have hit := of_decide_eq_true hit
    obtain ⟨row', hrow', same'⟩ := accounted.known e'.row (.inl ⟨e', he', rfl⟩)
    -- one event is one row
    have ids := OutboxRecord.mk.inj same
    have ids' := OutboxRecord.mk.inj same'
    have one : row' = row := by
      refine s.table.eventId_unique.eq_of_mem hrow' hrow ?_
      exact ids'.2.1.trans (hit.1.trans ids.2.1.symm)
    refine decide_eq_true ⟨?_, hit.2⟩
    rw [← one]
    exact ids'.1.symm
  · refine Nat.le_trans (Nat.le_of_eq (List.countP_eq_zero.2 fun e he hit => ?_)) (Nat.zero_le 1)
    exact some ⟨e, he, (of_decide_eq_true hit).1⟩

/-- The accounts of the outbox: rows are held by one open tick at a time, a published row has been
acknowledged, rows stay, those that are published or quarantined for good, and every emit is
accounted for. -/
theorem outbox_accounting (h : (outbox config).Reachable Any s) :
    (∀ t u id, t ≠ u → s.Holds t id → ¬ s.Holds u id) ∧
    (∀ row ∈ s.table.rows, row.status = .published →
      ∃ e ∈ s.emits, e.row.id = row.id ∧ e.acked = true) ∧
    (∀ row ∈ s.table.rows, ∀ tr s', (outbox config).Run Any s tr s' →
      ∃ row' ∈ s'.table.rows, row'.inserted = row.inserted ∧
        (row.status ≠ .pending → row'.status = row.status ∧
          ∃ later, s'.emits = s.emits ++ later ∧
            ∀ e ∈ later, e.row.id = row.id → s.phase e.tick ≠ .idle)) ∧
    ((∀ t tick, s.phase t ≠ .running tick) → ∀ row ∈ s.table.rows,
      s.emits.countP (fun e => e.row.id = row.id) =
        row.attempts + (if row.status = .published then 1 else 0) +
          s.emits.countP fun e => e.row.id = row.id ∧ (s.phase e.tick).isRolledBack) ∧
    ((outbox config).Reachable NoRollback s → ∀ eventId,
      s.emits.countP (fun e => e.row.eventId = eventId ∧ e.acked) ≤ 1) := by
  have accounted : Accounted s := accounted_of_reachable h
  refine ⟨fun t u id hne left right => hne (accounted.holds_unique left right),
    fun row hrow published => accounted.acked_of_published hrow published,
    fun row hrow tr s' run => ?_, fun closed row hrow => accounted.count_closed closed hrow,
    fun reach eventId => emitted_once reach eventId⟩
  obtain ⟨row', hrow', inserted, same⟩ := row_of_run accounted run hrow
  refine ⟨row', hrow', inserted, fun settled => ⟨by rw [same settled], ?_⟩⟩
  obtain ⟨later, emits, late⟩ := settled_run accounted run hrow settled
  refine ⟨later, emits, fun e he hid idle => ?_⟩
  have lost := late e he hid
  rw [idle] at lost
  cases lost

end

/-- A relay emits a row and loses its transaction; the next one publishes the row. -/
def lostTick : List (Label Unit) :=
  let row := newRow (postCreated 7 1) [] 0 10
  [.insert (postCreated 7 1) [] 0 10, .fetch 0 20 [row], .emit 0 none, .abort 0,
    .fetch 1 30 [row], .emit 1 none, .mark 1 31, .commit 1]

theorem outbox_accounting_lostTick : ∃ s : State Unit,
    (∃ row ∈ s.table.rows, row.status = .published ∧ s.emits.length = 2) ∧
    ∀ row ∈ s.table.rows, row.status = .published → ∃ e ∈ s.emits, e.row.id = row.id ∧ e.acked := by
  have computed : (((outbox RelayConfig.default).exec (fun _ _ => true) empty lostTick).map fun s =>
      decide (∃ row ∈ s.table.rows, row.status = .published ∧ s.emits.length = 2)) = some true := by
    decide
  obtain ⟨s, reached, facts⟩ := Option.map_eq_some_iff.1 computed
  have reach : (outbox RelayConfig.default).Reachable Any s :=
    reachable_of_exec (empty_start _) (fun _ _ _ => trivial) reached
  exact ⟨s, of_decide_eq_true facts, (outbox_accounting reach).2.1⟩

end EstateServer.Outbox
