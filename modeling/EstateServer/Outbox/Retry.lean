import EstateServer.Outbox.Accounting

/-!
# Retries

The outbox with a clock.  A row that is rejected waits until the time that `markFailed` has
stored, and the tick that emits it next has read a later time, so its emits are as far apart as the
backoff says (`Spaced`).  `Pace` is what holds of one row: the emits so far are its attempts, and one
more when it is published or an open tick has emitted it (`Emitting`).
-/

namespace EstateServer.Outbox

open Machine

variable {P : Type}

/-- A log of rows and times. -/
abbrev Times := List (OutboxId × ℕ)

/-- The times of one row. -/
def Times.of (log : Times) (id : OutboxId) : List ℕ := (log.filter (·.1 = id)).map (·.2)

/-- The outbox with the time, and the times at which rows were emitted and found to be rejected. -/
structure Clocked (P : Type) where
  clock : ℕ
  outbox : State P
  sent : Times
  failed : Times

inductive Act (P : Type)
  | advance (d : ℕ)
  | step (a : Label P)

/-- The times that the statements read: `now()` is the beginning of the transaction, and the relay
reads the clock when it marks a row. -/
def Label.Timely (clock : ℕ) : Label P → Prop
  | fetch _ dbNow _ => dbNow ≤ clock
  | mark _ now => now = clock
  | _ => True

instance (clock : ℕ) : DecidablePred (Label.Timely (P := P) clock)
  | .fetch _ dbNow _ => inferInstanceAs (Decidable (dbNow ≤ clock))
  | .mark _ now => inferInstanceAs (Decidable (now = clock))
  | .insert _ _ _ _ | .emit _ _ | .commit _ | .abort _ => inferInstanceAs (Decidable True)

namespace State

/-- The row that a step emits. -/
def sends (s : State P) : Label P → Option OutboxId
  | .emit t error => ((s.phase t).emit error).map (·.1.id)
  | _ => none

/-- The row that a step finds to be rejected. -/
def fails (s : State P) : Label P → Option OutboxId
  | .mark t _ =>
    match s.phase t with
    | .running { sent := some (row, some _), .. } => some row.id
    | _ => none
  | _ => none

end State

/-- The state after a step of the outbox. -/
def Clocked.after (s : Clocked P) (a : Label P) (outbox : State P) : Clocked P where
  clock := s.clock
  outbox := outbox
  sent := s.sent ++ (s.outbox.sends a).toList.map (·, s.clock)
  failed := s.failed ++ (s.outbox.fails a).toList.map (·, s.clock)

/-- The outbox on one clock. -/
def clocked [DecidableEq P] (config : RelayConfig) : Machine (Clocked P) (Act P) where
  start s := (outbox config).start s.outbox ∧ s.sent = [] ∧ s.failed = []
  next s
    | .advance d => some { s with clock := s.clock + d }
    | .step a =>
      if a.Timely s.clock then (next config s.outbox a).map (s.after a) else none

/-- No tick loses its transaction. -/
def Commits (_ : Clocked P) (a : Act P) : Prop := ∀ t, a ≠ .step (.abort t)

instance (s : Clocked P) : DecidablePred (Commits s)
  | .step (.abort t) => .isFalse fun commits => commits t rfl
  | .advance _ | .step (.insert _ _ _ _) | .step (.fetch _ _ _) | .step (.emit _ _)
  | .step (.mark _ _) | .step (.commit _) => .isTrue nofun

/-! ## Times of emits -/

variable {log : Times} {id id' : OutboxId} {time : ℕ} {config : RelayConfig}

theorem Times.of_append (log log' : Times) (id : OutboxId) :
    Times.of (log ++ log') id = Times.of log id ++ Times.of log' id := by
  simp [Times.of]

theorem Times.of_concat (log : Times) (id id' : OutboxId) (time : ℕ) :
    Times.of (log ++ [(id, time)]) id' = Times.of log id' ++ if id = id' then [time] else [] := by
  rw [of_append]
  by_cases same : id = id' <;> simp [Times.of, same]

theorem Times.mem_of : time ∈ Times.of log id ↔ (id, time) ∈ log := by
  simp [Times.of]

/-- The `k`-th emit, from 0, and the next one are as far apart as the backoff after `k` failures. -/
def Spaced (config : RelayConfig) (times : List ℕ) : Prop :=
  ∀ k a b : ℕ, times[k]? = some a → times[k + 1]? = some b →
    (a : ℤ) + computeBackoff k config.baseMs config.capMs ≤ b

theorem Spaced.concat {times : List ℕ} (spaced : Spaced config times)
    (late : ∀ last ∈ times.getLast?,
      (last : ℤ) + computeBackoff (times.length - 1) config.baseMs config.capMs ≤ time) :
    Spaced config (times ++ [time]) := by
  intro k a b first second
  have bound : k + 1 < times.length + 1 := by
    simpa using (List.getElem?_eq_some_iff.1 second).1
  rw [List.getElem?_append_left (by omega)] at first
  rcases Nat.lt_or_ge (k + 1) times.length with inside | last
  · rw [List.getElem?_append_left inside] at second
    exact spaced k a b first second
  · have length : times.length = k + 1 := by omega
    rw [List.getElem?_append_right last, length, Nat.sub_self] at second
    obtain rfl : time = b := Option.some.inj second
    refine le_of_eq_of_le ?_ (late a ?_)
    · rw [length]
      rfl
    · rw [List.getLast?_eq_getElem?, length]
      exact first

/-! ## Rows that an open tick has emitted -/

/-- The rows that an open tick has emitted. -/
def Phase.emitted : Phase P → List OutboxId
  | running tick => tick.emitted.map (·.1.id)
  | _ => []

/-- An open tick has emitted the row. -/
def State.Emitting (s : State P) (id : OutboxId) : Prop := ∃ t, id ∈ (s.phase t).emitted

section

variable {s s' : State P} {t u : TickId} {tick : Tick P} {phase : Phase P}

/-- A tick that is open after a step of `t` is `t`, or was open before. -/
theorem running_cases (running : Function.update s.phase t phase u = .running tick) :
    (u = t ∧ phase = .running tick) ∨ (u ≠ t ∧ s.phase u = .running tick) := by
  by_cases own : u = t
  · rw [own, Function.update_self] at running
    exact .inl ⟨own, running⟩
  · rw [Function.update_of_ne own] at running
    exact .inr ⟨own, running⟩

/-- The tick that has emitted a row is `t` or another one. -/
theorem emitting_split (s : State P) (t : TickId) (id : OutboxId) : s.Emitting id ↔
    (∃ u ≠ t, id ∈ (s.phase u).emitted) ∨ id ∈ (s.phase t).emitted := by
  constructor
  · rintro ⟨u, emitted⟩
    by_cases same : u = t
    · exact .inr (same ▸ emitted)
    · exact .inl ⟨u, same, emitted⟩
  · rintro (⟨u, -, emitted⟩ | emitted)
    · exact ⟨u, emitted⟩
    · exact ⟨t, emitted⟩

theorem emitting_update (moved : s'.phase = Function.update s.phase t phase) :
    s'.Emitting id ↔ (∃ u ≠ t, id ∈ (s.phase u).emitted) ∨ id ∈ phase.emitted := by
  rw [emitting_split s' t id, moved, Function.update_self]
  refine or_congr_left (exists_congr fun u => and_congr_right fun other => ?_)
  rw [Function.update_of_ne other]

/-- A step after which its tick has emitted the same rows. -/
theorem emitting_same (moved : s'.phase = Function.update s.phase t phase)
    (same : phase.emitted = (s.phase t).emitted) : s'.Emitting id ↔ s.Emitting id := by
  rw [emitting_update moved, same, ← emitting_split]

/-- A step after which its tick has emitted one row more. -/
theorem emitting_concat (moved : s'.phase = Function.update s.phase t phase)
    (more : phase.emitted = (s.phase t).emitted ++ [id']) :
    s'.Emitting id ↔ s.Emitting id ∨ id = id' := by
  rw [emitting_update moved, more, List.mem_append, List.mem_singleton, ← or_assoc,
    ← emitting_split]

theorem holds_of_emitted (emitted : id ∈ (s.phase t).emitted) : s.Holds t id := by
  cases phase : s.phase t with
  | running tick =>
    rw [phase] at emitted
    obtain ⟨⟨record, error⟩, mem, rfl⟩ := List.mem_map.1 emitted
    refine ⟨tick, phase, List.mem_map_of_mem (List.mem_append_left _ ?_)⟩
    rcases List.mem_append.1 mem with marked | sent
    · obtain ⟨m, known, same⟩ := List.mem_map.1 marked
      obtain ⟨rfl, rfl⟩ := Prod.mk.inj same
      exact List.mem_append_left _ (List.mem_map_of_mem known)
    · exact List.mem_append_right _ (List.mem_map_of_mem sent)
  | idle | committed | rolledBack =>
    rw [phase] at emitted
    cases emitted

/-- A row that the loop has not reached has not been emitted. -/
theorem not_emitting_rest (accounted : Accounted s) (running : s.phase t = .running tick)
    {record : OutboxRecord P} (ahead : record ∈ tick.rest) : ¬ s.Emitting record.id := by
  rintro ⟨u, emitted⟩
  have holds : s.Holds t record.id :=
    ⟨tick, running, List.mem_map_of_mem (List.mem_append_right _ ahead)⟩
  obtain rfl := accounted.holds_unique (holds_of_emitted emitted) holds
  rw [running] at emitted
  have nodup := (accounted.held u tick running).1
  rw [← accounted.emitted_ids running] at nodup
  have ids : ((s.emitsOf u).map fun e => e.row.id) = tick.emitted.map (·.1.id) := by
    rw [← accounted.emitted u tick running, List.map_map]
    rfl
  rw [ids] at nodup
  exact (List.nodup_append.1 nodup).2.2 _ emitted _ (List.mem_map_of_mem ahead) rfl

end

/-! ## The pace of a row -/

/-- The times at which a row was emitted. -/
def Clocked.times (s : Clocked P) (id : OutboxId) : List ℕ := s.sent.of id

/-- What holds of one row. -/
structure Pace (config : RelayConfig) (s : Clocked P) (row : OutboxEvent P) : Prop where
  quota : if row.status = .failed then (row.attempts : ℤ) = config.maxAttempts
    else (row.attempts : ℤ) < config.maxAttempts
  spaced : Spaced config (s.times row.id)
  emitted : row.status = .published ∨ s.outbox.Emitting row.id →
    (s.times row.id).length = row.attempts + 1
  resting : row.status ≠ .published → ¬ s.outbox.Emitting row.id →
    (s.times row.id).length = row.attempts
  /-- The next emit is due when the last one is far enough away. -/
  due : row.status = .pending → ¬ s.outbox.Emitting row.id → ∀ last ∈ (s.times row.id).getLast?,
    ∃ d ∈ row.nextAttemptAt,
      (last : ℤ) + computeBackoff (row.attempts - 1) config.baseMs config.capMs ≤ d
  waiting : ∀ d ∈ row.nextAttemptAt,
    ∃ failure, (row.id, failure) ∈ s.failed ∧ d ≤ failure + config.capMs

structure Paced (config : RelayConfig) (s : Clocked P) : Prop where
  past : ∀ e ∈ s.sent ++ s.failed, e.2 ≤ s.clock
  ordered : s.failed.Pairwise fun e e' => e.2 ≤ e'.2
  known : ∀ e ∈ s.sent, ∃ row ∈ s.outbox.table.rows, row.id = e.1
  /-- The rows that a tick has fetched are due. -/
  fetched : ∀ t tick, s.outbox.phase t = .running tick → ∀ record ∈ tick.rest,
    ∀ row ∈ s.outbox.table.rows, row.id = record.id → ∀ d ∈ row.nextAttemptAt, d ≤ s.clock
  marked : ∀ t tick, s.outbox.phase t = .running tick → ∀ m ∈ tick.marked,
    (∀ time ∈ s.times m.row.id, time ≤ m.now) ∧
      (m.error ≠ none → (m.row.id, m.now) ∈ s.failed)
  pace : ∀ row ∈ s.outbox.table.rows, Pace config s row

section

variable {s s' : Clocked P} {a : Label P} {o : State P} {row : OutboxEvent P}

theorem Pace.congr (pace : Pace config s row) (times : s'.times row.id = s.times row.id)
    (emitting : s'.outbox.Emitting row.id ↔ s.outbox.Emitting row.id)
    (failed : ∀ e ∈ s.failed, e ∈ s'.failed) : Pace config s' row where
  quota := pace.quota
  spaced := times ▸ pace.spaced
  emitted h := times ▸ pace.emitted (h.imp_right emitting.1)
  resting h still := times ▸ pace.resting h (mt emitting.2 still)
  due h still := times ▸ pace.due h (mt emitting.2 still)
  waiting d hd := by
    obtain ⟨failure, mem, bound⟩ := pace.waiting d hd
    exact ⟨failure, failed _ mem, bound⟩

theorem Paced.advance (paced : Paced config s) (d : ℕ) :
    Paced config { s with clock := s.clock + d } where
  past e mem := Nat.le_trans (paced.past e mem) (Nat.le_add_right _ _)
  ordered := paced.ordered
  known := paced.known
  fetched t tick running record ahead row mem same d' hd :=
    Int.le_trans (paced.fetched t tick running record ahead row mem same d' hd)
      (Int.ofNat_le.2 (Nat.le_add_right _ _))
  marked := paced.marked
  pace row mem := (paced.pace row mem).congr rfl Iff.rfl fun _ mem => mem

/-- A new row has not been emitted. -/
theorem pace_new (positive : 0 < config.maxAttempts) {event : DomainEvent P}
    {traceContext : TraceHeaders} {id : OutboxId} {createdAt : Instant} (none : s.times id = [])
    (still : ¬ s.outbox.Emitting id) : Pace config s (newRow event traceContext id createdAt) := by
  refine ⟨positive, ?_, fun h => ?_, fun _ _ => ?_, fun _ _ last mem => ?_, nofun⟩
  · show Spaced config (s.times id)
    rw [none]
    exact nofun
  · rcases h with published | emitting
    · cases published
    · exact absurd emitting still
  · show (s.times id).length = 0
    rw [none]
    rfl
  · change last ∈ (s.times id).getLast? at mem
    rw [none] at mem
    cases mem

theorem Paced.insert (accounted : Accounted s.outbox) (paced : Paced config s)
    (positive : 0 < config.maxAttempts) {event : DomainEvent P} {traceContext : TraceHeaders}
    {id : OutboxId} {createdAt : Instant} {table : OutboxTable P}
    (added : s.outbox.table.add event traceContext id createdAt = some table) :
    Paced config { s with outbox := { s.outbox with table } } := by
  have rows := OutboxTable.add_rows added
  have fresh : ∀ row ∈ s.outbox.table.rows, row.id ≠ id := by
    have unique := table.id_unique
    rw [rows, Table.Unique, List.map_append, List.nodup_append] at unique
    intro row hrow
    exact unique.2.2 row.id (List.mem_map_of_mem hrow) id List.mem_cons_self
  have either : ∀ row ∈ table.rows, row ∈ s.outbox.table.rows ∨
      row = newRow event traceContext id createdAt := fun row mem => by
    rwa [rows, List.mem_append, List.mem_singleton] at mem
  have none : s.times id = [] := by
    refine List.eq_nil_iff_forall_not_mem.2 fun time mem => ?_
    obtain ⟨row, hrow, same⟩ := paced.known _ (Times.mem_of.1 mem)
    exact fresh row hrow same
  have still : ¬ s.outbox.Emitting id := by
    rintro ⟨t, emitted⟩
    obtain ⟨tick, running, mem⟩ := holds_of_emitted emitted
    obtain ⟨record, hrecord, rfl⟩ := List.mem_map.1 mem
    obtain ⟨-, row, hrow, -, same⟩ := (accounted.held t tick running).2 record hrecord
    exact fresh row hrow (congrArg (·.id) same)
  refine ⟨paced.past, paced.ordered, fun e mem => ?_,
    fun t tick running record ahead row mem same d hd => ?_, paced.marked, fun row mem => ?_⟩
  · obtain ⟨row, hrow, same⟩ := paced.known e mem
    exact ⟨row, show row ∈ table.rows from rows ▸ List.mem_append_left _ hrow, same⟩
  · rcases either row mem with old | rfl
    · exact paced.fetched t tick running record ahead row old same d hd
    · cases hd
  · rcases either row mem with old | rfl
    · exact (paced.pace row old).congr rfl Iff.rfl fun _ mem => mem
    · exact pace_new positive none still

/-- A tick that has fetched rows has emitted none. -/
theorem Paced.fetch (paced : Paced config s) {t : TickId} {dbNow : Instant}
    {ordered : List (OutboxEvent P)} (idle : s.outbox.phase t = .idle) (timely : dbNow ≤ s.clock)
    (ordering : s.outbox.table.Ordered s.outbox.lock dbNow ordered) (n : ℕ) :
    Paced config { s with outbox := s.outbox.fetch t (ordered.take n) } := by
  have same (id : OutboxId) :
      (s.outbox.fetch t (ordered.take n)).Emitting id ↔ s.outbox.Emitting id :=
    emitting_same rfl (by rw [idle]; rfl)
  refine ⟨paced.past, paced.ordered, paced.known,
    fun u tick running record ahead row mem id d hd => ?_, fun u tick running m mem => ?_,
    fun row mem => (paced.pace row mem).congr rfl (same row.id) fun _ mem => mem⟩
  · rcases running_cases running with ⟨rfl, new⟩ | ⟨-, old⟩
    · obtain rfl := Phase.running.inj new
      obtain ⟨row', fetched, rfl⟩ := List.mem_map.1 ahead
      obtain ⟨present, due, -⟩ :=
        (OutboxTable.mem_of_ordered ordering).1 (List.mem_of_mem_take fetched)
      obtain rfl := s.outbox.table.eq_of_id mem present id
      have late : d ≤ dbNow := by
        have all := (of_decide_eq_true due).2
        rw [show row.nextAttemptAt = some d from hd] at all
        exact of_decide_eq_true all
      exact Int.le_trans late (Int.ofNat_le.2 timely)
    · exact paced.fetched u tick old record ahead row mem id d hd
  · rcases running_cases running with ⟨rfl, new⟩ | ⟨-, old⟩
    · obtain rfl := Phase.running.inj new
      cases mem
    · exact paced.marked u tick old m mem

theorem emitting_marked {t : TickId} {tick : Tick P} (running : s.outbox.phase t = .running tick)
    {m : Marked P} (mem : m ∈ tick.marked) : s.outbox.Emitting m.row.id := by
  refine ⟨t, ?_⟩
  rw [running]
  exact List.mem_map.2 ⟨(m.row, m.error), List.mem_append_left _ (List.mem_map_of_mem mem), rfl⟩

/-- A row that is emitted is pending and due, and no open tick has emitted it. -/
theorem Paced.emit (accounted : Accounted s.outbox) (paced : Paced config s) {t : TickId}
    {error : Option String} {marked : List (Marked P)} {record : OutboxRecord P}
    {rest : List (OutboxRecord P)}
    (running : s.outbox.phase t = .running { marked, sent := none, rest := record :: rest }) :
    Paced config { s with
      outbox := s.outbox.emit t record error (.running { marked, sent := some (record, error), rest })
      sent := s.sent ++ [(record.id, s.clock)] } := by
  have ahead : record ∈ (Tick.mk marked none (record :: rest)).rest := List.mem_cons_self
  have still : ¬ s.outbox.Emitting record.id := not_emitting_rest accounted running ahead
  obtain ⟨-, row₀, hrow₀, pending, same₀⟩ := (accounted.held t _ running).2 record
    (List.mem_append_right _ ahead)
  have ids : row₀.id = record.id := congrArg (·.id) same₀
  have emitting (id : OutboxId) : (s.outbox.emit t record error
      (.running { marked, sent := some (record, error), rest })).Emitting id ↔
        s.outbox.Emitting id ∨ id = record.id := by
    refine emitting_concat rfl ?_
    rw [running]
    simp [Phase.emitted, Tick.emitted]
  have times (id : OutboxId) : Times.of (s.sent ++ [(record.id, s.clock)]) id =
      s.times id ++ if record.id = id then [s.clock] else [] := Times.of_concat _ _ _ _
  refine ⟨fun e mem => ?_, paced.ordered, fun e mem => ?_, fun u tick running' record' ahead' => ?_,
    fun u tick running' m mem => ?_, fun row mem => ?_⟩
  · rw [List.append_assoc, List.mem_append, List.mem_append, List.mem_singleton] at mem
    rcases mem with sent | rfl | failed
    · exact paced.past e (List.mem_append_left _ sent)
    · exact Nat.le_refl _
    · exact paced.past e (List.mem_append_right _ failed)
  · rcases List.mem_append.1 mem with sent | new
    · exact paced.known e sent
    · exact ⟨row₀, hrow₀, by rw [List.mem_singleton.1 new, ids]⟩
  · -- the tick has fetched the rows that it still has ahead
    rcases running_cases running' with ⟨rfl, new⟩ | ⟨-, old⟩
    · obtain rfl := Phase.running.inj new
      exact paced.fetched u _ running record' (List.mem_cons_of_mem _ ahead')
    · exact paced.fetched u tick old record' ahead'
  · obtain ⟨v, tick₀, running₀, mem₀⟩ : ∃ v tick₀, s.outbox.phase v = .running tick₀ ∧
        m ∈ tick₀.marked := by
      rcases running_cases running' with ⟨rfl, new⟩ | ⟨-, old⟩
      · obtain rfl := Phase.running.inj new
        exact ⟨u, _, running, mem⟩
      · exact ⟨u, tick, old, mem⟩
    have other : record.id ≠ m.row.id := fun same =>
      still (same ▸ emitting_marked running₀ mem₀)
    obtain ⟨before, failed⟩ := paced.marked v tick₀ running₀ m mem₀
    refine ⟨fun time sent => before time ?_, failed⟩
    have all := times m.row.id
    rw [if_neg other, List.append_nil] at all
    exact all ▸ sent
  · by_cases own : record.id = row.id
    · obtain rfl := s.outbox.table.eq_of_id hrow₀ mem (ids.trans own)
      have pace := paced.pace row₀ hrow₀
      have still₀ : ¬ s.outbox.Emitting row₀.id := own ▸ still
      have unpublished : row₀.status ≠ .published := by
        rw [pending]
        intro published
        cases published
      have length := pace.resting unpublished still₀
      have all := times row₀.id
      rw [if_pos own] at all
      have now : (s.outbox.emit t record error
          (.running { marked, sent := some (record, error), rest })).Emitting row₀.id :=
        (emitting _).2 (.inr ids)
      refine ⟨pace.quota, ?_, fun _ => ?_, fun _ still' => absurd now still',
        fun _ still' => absurd now still', pace.waiting⟩
      · show Spaced config (Times.of _ _)
        rw [all]
        refine pace.spaced.concat fun last hlast => ?_
        obtain ⟨d, hd, late⟩ := pace.due pending still₀ last hlast
        rw [length]
        exact Int.le_trans late (paced.fetched t _ running record ahead row₀ hrow₀ ids d hd)
      · show (Times.of _ _).length = _
        rw [all, List.length_append, length]
        rfl
    · refine (paced.pace row mem).congr ?_ ?_ fun _ mem => mem
      · exact (times row.id).trans (by rw [if_neg own, List.append_nil])
      · exact (emitting row.id).trans (or_iff_left fun same => own same.symm)

/-- A mark is of a row that the tick has emitted. -/
theorem Paced.mark (paced : Paced config s) {t : TickId} {error : Option String}
    {marked : List (Marked P)} {record : OutboxRecord P} {rest : List (OutboxRecord P)}
    (running : s.outbox.phase t = .running { marked, sent := some (record, error), rest }) :
    Paced config { s with
      outbox := s.outbox.enter t
        (.running { marked := marked ++ [⟨record, error, s.clock⟩], sent := none, rest })
      failed := s.failed ++ error.toList.map fun _ => (record.id, s.clock) } := by
  have late : ∀ e ∈ error.toList.map fun _ => (record.id, s.clock), e.2 = s.clock := by
    intro e mem
    obtain ⟨-, -, rfl⟩ := List.mem_map.1 mem
    rfl
  have grows : ∀ e ∈ s.failed, e ∈ s.failed ++ error.toList.map fun _ => (record.id, s.clock) :=
    fun e mem => List.mem_append_left _ mem
  refine ⟨fun e mem => ?_, ?_, paced.known, fun u tick running' record' ahead => ?_,
    fun u tick running' m mem => ?_, fun row mem => (paced.pace row mem).congr rfl ?_ grows⟩
  · rw [← List.append_assoc, List.mem_append] at mem
    rcases mem with old | new
    · exact paced.past e old
    · exact Nat.le_of_eq (late e new)
  · refine List.pairwise_append.2 ⟨paced.ordered, ?_, fun e mem e' mem' => ?_⟩
    · cases error with
      | none => exact .nil
      | some error => exact List.pairwise_singleton _ _
    · rw [late e' mem']
      exact paced.past e (List.mem_append_right _ mem)
  · rcases running_cases running' with ⟨rfl, new⟩ | ⟨-, old⟩
    · obtain rfl := Phase.running.inj new
      exact paced.fetched u _ running record' ahead
    · exact paced.fetched u tick old record' ahead
  · have old_mark (v : TickId) (tick₀ : Tick P) (running₀ : s.outbox.phase v = .running tick₀)
        (mem₀ : m ∈ tick₀.marked) :=
      (paced.marked v tick₀ running₀ m mem₀).imp_right fun failed error => grows _ (failed error)
    rcases running_cases running' with ⟨rfl, new⟩ | ⟨-, old⟩
    · obtain rfl := Phase.running.inj new
      rcases List.mem_append.1 mem with before | now
      · exact old_mark u _ running before
      · obtain rfl := List.mem_singleton.1 now
        refine ⟨fun time sent => ?_, fun rejected => List.mem_append_right _ ?_⟩
        · exact paced.past _ (List.mem_append_left _ (Times.mem_of.1 sent))
        · obtain ⟨message, rfl⟩ := Option.ne_none_iff_exists'.1 rejected
          exact List.mem_singleton_self _
    · exact old_mark u tick old mem
  · refine emitting_same rfl ?_
    rw [running]
    simp [Phase.emitted, Tick.emitted]

/-- The write of a rejected emit: the row is quarantined at its last attempt, and else waits. -/
theorem write_rejected (config : RelayConfig) {m : Marked P} {message : String}
    (rejected : m.error = some message) (row : OutboxEvent P) :
    if (m.row.attempts + 1 : ℤ) < config.maxAttempts then
      (config.write m).set.apply row = { row with
        attempts := m.row.attempts + 1
        lastError := some message
        nextAttemptAt := some (m.now + computeBackoff m.row.attempts config.baseMs config.capMs) }
    else
      (config.write m).set.apply row = { row with
        status := .failed
        attempts := m.row.attempts + 1
        lastError := some message
        failedAt := some m.now } := by
  unfold RelayConfig.write
  rw [rejected]
  simp only [markFailed]
  split_ifs with below reached reached
  · push_cast at reached
    omega
  · rfl
  · rfl
  · push_cast at reached
    omega

/-- What the commit of its tick makes of a row. -/
theorem Pace.commit (pace : Pace config s row) (pending : row.status = .pending)
    (emitting : s.outbox.Emitting row.id) (still : ¬ o.Emitting row.id) {m : Marked P}
    (record : row.record = m.row) (before : ∀ time ∈ s.times row.id, time ≤ m.now)
    (known : m.error ≠ none → (row.id, m.now) ∈ s.failed) :
    Pace config { s with outbox := o } ((config.write m).set.apply row) := by
  have length := pace.emitted (.inr emitting)
  have attempts : m.row.attempts = row.attempts := by
    rw [← record]
    rfl
  have few : (row.attempts : ℤ) < config.maxAttempts := by
    have quota := pace.quota
    rwa [pending, if_neg nofun] at quota
  cases error : m.error with
  | none =>
    have written : (config.write m).set.apply row =
        { row with status := .published, publishedAt := some m.now } := by
      unfold RelayConfig.write
      rw [error]
      rfl
    rw [written]
    exact ⟨few, pace.spaced, fun _ => length, fun unpublished _ => absurd rfl unpublished,
      nofun, pace.waiting⟩
  | some message =>
    have written := write_rejected config error row
    rw [attempts] at written
    have rejected : (row.id, m.now) ∈ s.failed := known (by rw [error]; nofun)
    split_ifs at written with below
    · rw [written]
      refine ⟨?_, pace.spaced, fun h => ?_, fun _ _ => length, fun _ _ last mem => ?_, ?_⟩
      · show if row.status = .failed then _ else _
        rw [pending, if_neg nofun]
        exact_mod_cast below
      · rcases h with published | now
        · rw [show row.status = .published from published] at pending
          cases pending
        · exact absurd now still
      · refine ⟨_, rfl, Int.add_le_add_right ?_ _⟩
        exact Int.ofNat_le.2 (before last (List.mem_of_getLast? mem))
      · intro d mem
        obtain rfl := Option.some.inj mem
        exact ⟨m.now, rejected, Int.add_le_add_left (Int.min_le_right _ _) _⟩
    · rw [written]
      refine ⟨?_, pace.spaced, fun h => ?_, fun _ _ => length, nofun, pace.waiting⟩
      · show ((row.attempts + 1 : ℕ) : ℤ) = config.maxAttempts
        push_cast
        omega
      · rcases h with published | now
        · cases published
        · exact absurd now still

/-- The rows of a tick that commits are published, quarantined, or wait; other rows stay. -/
theorem Paced.commit (accounted : Accounted s.outbox) (paced : Paced config s) {t : TickId}
    {marked : List (Marked P)}
    (running : s.outbox.phase t = .running { marked, sent := none, rest := [] }) :
    Paced config { s with outbox := s.outbox.commit t config marked } := by
  have unique : ((marked.map config.write).map (·.id)).Nodup := by
    rw [config.write_ids]
    exact (accounted.marked_rows running).1
  have ids (id : OutboxId) :
      id ∈ (marked.map config.write).map (·.id) ↔ ∃ m ∈ marked, m.row.id = id := by
    rw [config.write_ids]
    exact List.mem_map
  have emitted (id : OutboxId) : id ∈ (s.outbox.phase t).emitted ↔ ∃ m ∈ marked, m.row.id = id := by
    rw [running]
    simp [Phase.emitted, Tick.emitted]
  have emitting (id : OutboxId) : (s.outbox.commit t config marked).Emitting id ↔
      ∃ u ≠ t, id ∈ (s.outbox.phase u).emitted := by
    rw [emitting_update rfl]
    exact or_iff_left List.not_mem_nil
  have rows : ∀ row ∈ (s.outbox.commit t config marked).table.rows,
      ∃ row₀ ∈ s.outbox.table.rows, row = row₀.written (marked.map config.write) := by
    intro row mem
    change row ∈ (s.outbox.table.commit _).rows at mem
    rw [OutboxTable.commit_rows] at mem
    obtain ⟨row₀, hrow₀, rfl⟩ := List.mem_map.1 mem
    exact ⟨row₀, hrow₀, rfl⟩
  refine ⟨paced.past, paced.ordered, fun e mem => ?_,
    fun u tick running' record ahead row mem same d hd => ?_,
    fun u tick running' m mem => ?_, fun row mem => ?_⟩
  · obtain ⟨row, hrow, same⟩ := paced.known e mem
    refine ⟨row.written (marked.map config.write), ?_, OutboxEvent.written_id.trans same⟩
    show _ ∈ (s.outbox.table.commit _).rows
    rw [OutboxTable.commit_rows]
    exact List.mem_map_of_mem hrow
  · rcases running_cases running' with ⟨-, new⟩ | ⟨other, old⟩
    · cases new
    obtain ⟨row₀, hrow₀, rfl⟩ := rows row mem
    rw [OutboxEvent.written_id] at same
    have unmarked : row₀.id ∉ (marked.map config.write).map (·.id) := by
      intro own
      have here : s.outbox.Holds t row₀.id := holds_of_emitted ((emitted _).2 ((ids _).1 own))
      have there : s.outbox.Holds u row₀.id :=
        ⟨tick, old, same ▸ List.mem_map_of_mem (List.mem_append_right _ ahead)⟩
      exact other (accounted.holds_unique there here)
    rw [OutboxEvent.written_of_not_mem unmarked] at hd
    exact paced.fetched u tick old record ahead row₀ hrow₀ same d hd
  · rcases running_cases running' with ⟨-, new⟩ | ⟨-, old⟩
    · cases new
    · exact paced.marked u tick old m mem
  · obtain ⟨row₀, hrow₀, rfl⟩ := rows row mem
    have pace := paced.pace row₀ hrow₀
    by_cases own : row₀.id ∈ (marked.map config.write).map (·.id)
    · obtain ⟨m, hm, same⟩ := (ids _).1 own
      obtain ⟨-, row₁, hrow₁, pending, record⟩ := (accounted.marked_rows running).2 m hm
      obtain rfl := s.outbox.table.eq_of_id hrow₁ hrow₀ ((congrArg (·.id) record).trans same)
      obtain ⟨before, known⟩ := paced.marked t _ running m hm
      rw [same] at before known
      rw [OutboxEvent.written_of_mem unique (List.mem_map_of_mem hm) ((config.write_id m).trans same)]
      refine pace.commit pending ⟨t, (emitted _).2 ⟨m, hm, same⟩⟩ ?_ record before known
      intro still
      obtain ⟨u, other, elsewhere⟩ := (emitting _).1 still
      exact other (accounted.holds_unique (holds_of_emitted elsewhere)
        (holds_of_emitted ((emitted _).2 ⟨m, hm, same⟩)))
    · rw [OutboxEvent.written_of_not_mem own]
      refine pace.congr rfl ?_ fun _ mem => mem
      rw [emitting, emitting_split s.outbox t]
      exact (or_iff_left fun here => own ((ids _).2 ((emitted _).1 here))).symm

/-- A row is emitted at most `maxAttempts` times. -/
theorem Pace.length_le (pace : Pace config s row) (accounted : Accounted s.outbox)
    (hrow : row ∈ s.outbox.table.rows) : ((s.times row.id).length : ℤ) ≤ config.maxAttempts := by
  have quota := pace.quota
  by_cases open_ : s.outbox.Emitting row.id
  · obtain ⟨t, emitted⟩ := open_
    rw [accounted.pending_of_holds hrow (holds_of_emitted emitted), if_neg nofun] at quota
    rw [pace.emitted (.inr ⟨t, emitted⟩)]
    push_cast
    omega
  by_cases published : row.status = .published
  · rw [published, if_neg nofun] at quota
    rw [pace.emitted (.inl published)]
    push_cast
    omega
  · rw [pace.resting published open_]
    split_ifs at quota <;> omega

/-- The next attempt of a row that waits is at most `capMs` after its last failure. -/
theorem Paced.due_of_last (paced : Paced config s) (hrow : row ∈ s.outbox.table.rows) {d : ℤ}
    (hd : d ∈ row.nextAttemptAt) :
    ∃ last ∈ (s.failed.of row.id).getLast?, d ≤ last + config.capMs := by
  obtain ⟨failure, mem, bound⟩ := (paced.pace row hrow).waiting d hd
  have mem : failure ∈ s.failed.of row.id := Times.mem_of.2 mem
  have sorted : (s.failed.of row.id).Pairwise (· ≤ ·) :=
    List.pairwise_map.2 (paced.ordered.sublist List.filter_sublist)
  obtain ⟨last, hlast⟩ :=
    Option.isSome_iff_exists.1 (List.getLast?_isSome.2 (List.ne_nil_of_mem mem))
  refine ⟨last, hlast, Int.le_trans bound (Int.add_le_add_right (Int.ofNat_le.2 ?_) _)⟩
  obtain ⟨front, split⟩ := List.getLast?_eq_some_iff.1 hlast
  rw [split] at mem sorted
  rcases List.mem_append.1 mem with earlier | now
  · exact (List.pairwise_append.1 sorted).2.2 failure earlier last List.mem_cons_self
  · exact Nat.le_of_eq (List.mem_singleton.1 now)

end

/-! ## Runs -/

/-- The times are those of the emits. -/
def Logged (s : Clocked P) : Prop := s.sent.map (·.1) = s.outbox.emits.map (·.row.id)

theorem Logged.count {s : Clocked P} (logged : Logged s) (id : OutboxId) :
    s.outbox.emits.countP (fun e => e.row.id = id) = (s.times id).length := by
  have count := congrArg (List.countP fun id' => id' = id) logged
  rw [List.countP_map, List.countP_map] at count
  rw [Clocked.times, Times.of, List.length_map, ← List.countP_eq_length_filter]
  exact count.symm

section

variable [DecidableEq P] {s s' : Clocked P} {a : Act P}

theorem Paced.of_start (start : (clocked config).start s) : Paced config s := by
  obtain ⟨⟨rows, -, -, phase⟩, sent, failed⟩ := start
  refine ⟨fun e mem => ?_, failed ▸ .nil, fun e mem => ?_, fun t tick running => ?_,
    fun t tick running => ?_, fun row mem => ?_⟩
  · rw [sent, failed] at mem
    cases mem
  · rw [sent] at mem
    cases mem
  · rw [phase] at running
    cases running
  · rw [phase] at running
    cases running
  · rw [rows] at mem
    cases mem

theorem Paced.of_next (positive : 0 < config.maxAttempts)
    (reached : (outbox config).Reachable NoRollback s.outbox) (paced : Paced config s)
    (commits : Commits s a) (step : (clocked config).next s a = some s') : Paced config s' := by
  have accounted : Accounted s.outbox := accounted_of_reachable reached
  cases a with
  | advance d =>
    obtain rfl := Option.some.inj step
    exact paced.advance d
  | step a =>
    simp only [clocked] at step
    split_ifs at step with timely
    obtain ⟨o, next, rfl⟩ := Option.map_eq_some_iff.1 step
    have quiet (sends : s.outbox.sends a = none) (fails : s.outbox.fails a = none) :
        s.after a o = { s with outbox := o } := by
      simp [Clocked.after, sends, fails]
    cases moves_of_next next with
    | insert added =>
      rw [quiet rfl rfl]
      exact paced.insert accounted positive added
    | fetch idle ordering =>
      rw [quiet rfl rfl]
      exact paced.fetch idle timely ordering _
    | @emit t error record phase emitted =>
      rcases Phase.emit_cases emitted with ⟨marked, rest, running, rfl⟩ | ⟨lost, -⟩
      · have after (o : State P) : s.after (.emit t error) o = { s with
            outbox := o
            sent := s.sent ++ [(record.id, s.clock)] } := by
          simp [Clocked.after, State.sends, State.fails, emitted]
        rw [after]
        exact paced.emit accounted running
      · have kept := kept_of_reachable reached t
        rw [lost] at kept
        cases kept
    | @mark t now marked record error rest running =>
      obtain rfl : now = s.clock := timely
      have after (o : State P) : s.after (.mark t s.clock) o = { s with
          outbox := o
          failed := s.failed ++ error.toList.map fun _ => (record.id, s.clock) } := by
        cases error <;> simp [Clocked.after, State.sends, State.fails, running]
      rw [after]
      exact paced.mark running
    | @commit t marked running =>
      rw [quiet rfl rfl]
      exact paced.commit accounted running
    | @abort t => exact absurd rfl (commits t)

theorem Logged.of_next (logged : Logged s) (step : (clocked config).next s a = some s') :
    Logged s' := by
  cases a with
  | advance d =>
    obtain rfl := Option.some.inj step
    exact logged
  | step a =>
    simp only [clocked] at step
    split_ifs at step with timely
    obtain ⟨o, next, rfl⟩ := Option.map_eq_some_iff.1 step
    show List.map _ (s.sent ++ _) = List.map _ o.emits
    rw [List.map_append, logged]
    cases moves_of_next next with
    | insert | fetch | mark | commit | abort => exact List.append_nil _
    | emit emitted => simp [State.sends, State.emit, emitted]

/-- A run of the outbox on a clock is a run of the outbox. -/
theorem invariant_of_reachable (positive : 0 < config.maxAttempts)
    (reached : (clocked config).Reachable Commits s) :
    (outbox config).Reachable NoRollback s.outbox ∧ Paced config s ∧ Logged s := by
  refine reached.invariant
    (I := fun s => (outbox config).Reachable NoRollback s.outbox ∧ Paced config s ∧ Logged s)
    (fun s start => ?_) fun s a s' ⟨before, paced, logged⟩ commits step => ?_
  · refine ⟨⟨s.outbox, [], start.1, .refl _⟩, .of_start start, ?_⟩
    obtain ⟨⟨-, -, emits, -⟩, sent, -⟩ := start
    rw [Logged, emits, sent]
    rfl
  refine ⟨?_, paced.of_next positive before commits step, logged.of_next step⟩
  obtain ⟨s₀, tr, start, run⟩ := before
  cases a with
  | advance d =>
    obtain rfl := Option.some.inj step
    exact ⟨s₀, tr, start, run⟩
  | step a =>
    simp only [clocked] at step
    split_ifs at step
    obtain ⟨o, next, rfl⟩ := Option.map_eq_some_iff.1 step
    exact ⟨s₀, _, start, run.snoc (fun t abort => commits t (congrArg Act.step abort)) next⟩

end

section

variable [DecidableEq P] {s : Clocked P} {row : OutboxEvent P}

/-- The rejected emits of a row that no open tick has emitted are its attempts. -/
theorem rejected_of_still (reached : (outbox config).Reachable NoRollback s.outbox)
    (hrow : row ∈ s.outbox.table.rows) (still : ¬ s.outbox.Emitting row.id) :
    s.outbox.emits.countP (fun e => e.row.id = row.id ∧ e.acked = false) = row.attempts := by
  have accounted : Accounted s.outbox := accounted_of_reachable reached
  rw [← accounted.rejected row hrow]
  refine List.countP_congr fun e he => ?_
  rw [decide_eq_true_iff, decide_eq_true_iff]
  refine ⟨fun ⟨own, rejected⟩ => ⟨own, rejected, ?_⟩, fun ⟨own, rejected, _⟩ => ⟨own, rejected⟩⟩
  by_contra uncommitted
  obtain ⟨tick, running⟩ := accounted.running_of_emit (kept_of_reachable reached) he
    (Bool.eq_false_iff.2 uncommitted)
  refine still ⟨e.tick, ?_⟩
  have emitted : (e.row, e.error) ∈ tick.emitted := by
    rw [← accounted.emitted e.tick tick running]
    exact List.mem_map.2 ⟨e, List.mem_filter.2 ⟨he, decide_eq_true rfl⟩, rfl⟩
  rw [running]
  exact List.mem_map.2 ⟨_, emitted, own⟩

/-- A row waits after each failure for as long as the backoff says, and is quarantined at the last. -/
theorem retry_state_machine (positive : 0 < config.maxAttempts)
    (reached : (clocked config).Reachable Commits s) (hrow : row ∈ s.outbox.table.rows) :
    (row.status = .pending → (row.attempts : ℤ) < config.maxAttempts) ∧
    (row.status = .failed ↔ (row.attempts : ℤ) = config.maxAttempts) ∧
    s.outbox.tally row.id false = row.attempts ∧
    (¬ s.outbox.Emitting row.id →
      s.outbox.emits.countP (fun e => e.row.id = row.id ∧ e.acked = false) = row.attempts) ∧
    (∀ k a b : ℕ, (s.times row.id)[k]? = some a → (s.times row.id)[k + 1]? = some b →
      (a : ℤ) + min (config.baseMs * 2 ^ k) config.capMs ≤ b) ∧
    (row.status = .pending → ∀ d ∈ row.nextAttemptAt,
      ∃ last ∈ (s.failed.of row.id).getLast?, d ≤ last + config.capMs) ∧
    (s.outbox.emits.countP (fun e => e.row.id = row.id) : ℤ) ≤ config.maxAttempts := by
  obtain ⟨reached, paced, logged⟩ := invariant_of_reachable positive reached
  have accounted : Accounted s.outbox := accounted_of_reachable reached
  have pace := paced.pace row hrow
  refine ⟨fun pending => ?_, ?_, accounted.rejected row hrow, rejected_of_still reached hrow,
    pace.spaced, fun _ d hd => paced.due_of_last hrow hd, ?_⟩
  · have quota := pace.quota
    rwa [pending, if_neg nofun] at quota
  · have quota := pace.quota
    split_ifs at quota with failed
    · exact iff_of_true failed quota
    · exact iff_of_false failed (Int.ne_of_lt quota)
  · rw [logged.count]
    exact pace.length_le accounted hrow

end

/-- A row is rejected, waits for a second and is published. -/
def retried : List (Act Unit) :=
  let row := newRow (postCreated 7 1) [] 0 10
  let again := { row with attempts := 1, lastError := some "timeout", nextAttemptAt := some 1021 }
  [.step (.insert (postCreated 7 1) [] 0 10), .advance 20, .step (.fetch 0 20 [row]),
    .step (.emit 0 (some "timeout")), .advance 1, .step (.mark 0 21), .step (.commit 0),
    .advance 1000, .step (.fetch 1 1021 [again]), .step (.emit 1 none), .step (.mark 1 1021),
    .step (.commit 1)]

theorem retry_state_machine_retried : ∃ s : Clocked Unit, ∃ row ∈ s.outbox.table.rows,
    s.times row.id = [20, 1021] ∧ row.status = .published ∧
    (s.outbox.emits.countP (fun e => e.row.id = row.id) : ℤ) ≤ RelayConfig.default.maxAttempts := by
  have computed : (((clocked RelayConfig.default).exec (fun s a => decide (Commits s a))
      ⟨0, empty, [], []⟩ retried).map fun s => decide (∃ row ∈ s.outbox.table.rows,
        s.times row.id = [20, 1021] ∧ row.status = .published)) = some true := by
    decide
  obtain ⟨s, executed, facts⟩ := Option.map_eq_some_iff.1 computed
  have reached : (clocked RelayConfig.default).Reachable Commits s :=
    reachable_of_exec ⟨empty_start _, rfl, rfl⟩ (fun _ _ => of_decide_eq_true) executed
  obtain ⟨row, hrow, times, published⟩ := of_decide_eq_true facts
  obtain ⟨-, -, -, -, -, -, few⟩ := retry_state_machine (by decide) reached hrow
  exact ⟨s, row, hrow, times, published, few⟩

end EstateServer.Outbox
