import EstateServer.Outbox.Retry

/-!
# One tick of the relay

`execute` as the loop of the source, in a transaction with a time limit.  The emits take time, and
the statements none.  A statement after the limit fails, in the `try` branch and in the `catch`
branch, so the tick loses the marks of the rows before it as well: `batch_independent` says when it
keeps them, and `execute_run` that a tick is a run of the machine of `EstateServer.Outbox.Relay`.
-/

namespace EstateServer.Outbox

open Machine

variable {P : Type}

/-- How long an emit takes, and the error of one that is rejected. -/
structure Answer where
  delay : ℕ
  error : Option String
  deriving DecidableEq, Repr

/-- A tick under way: the clock, the writes of its transaction, and its emits. -/
structure Session (P : Type) where
  now : Instant
  writes : List Write
  emits : List (OutboxRecord P × Option String)

abbrev Relaying (P : Type) := ExceptT String (StateM (Session P))

/-- The error of a statement after the time limit. -/
def transactionClosed : String := "Transaction already closed"

section

variable (config : RelayConfig) (deadline : Instant) (answer : OutboxRecord P → Answer)

/-- `publishOrThrow` of a row. -/
def publishOrThrow (row : OutboxRecord P) : Relaying P Unit := do
  modify fun s =>
    { s with now := s.now + (answer row).delay, emits := s.emits ++ [(row, (answer row).error)] }
  match (answer row).error with
  | none => pure ()
  | some message => throw message

/-- A statement of the transaction. -/
def statement (write : Instant → Write) : Relaying P Unit := do
  let s ← get
  if s.now ≤ deadline then set { s with writes := s.writes ++ [write s.now] }
  else throw transactionClosed

/-- One turn of the loop; what it logs is left out. -/
def relayRow (row : OutboxRecord P) : Relaying P Unit :=
  try
    publishOrThrow answer row
    statement deadline (markPublished row.id)
  catch message =>
    statement deadline fun now => (markFailed config row.id row.attempts message now).1

/-- What is left of a tick: the rows, its emits, and the error that `execute` throws. -/
structure Outcome (P : Type) where
  table : OutboxTable P
  emits : List (OutboxRecord P × Option String)
  error : Option String

/-- `PrismaTransactionRunner.run`: what throws out of the callback rolls the transaction back, and so
does a time limit that has passed before the commit. -/
def OutboxTable.run (table : OutboxTable P) (began : Instant) (fn : Relaying P Unit) : Outcome P :=
  match fn.run.run ⟨began, [], []⟩ with
  | (.ok (), s) =>
    if s.now ≤ deadline then ⟨table.commit s.writes, s.emits, none⟩
    else ⟨table, s.emits, some transactionClosed⟩
  | (.error message, s) => ⟨table, s.emits, some message⟩

end

/-- `fetchPending`, of the rows of the query in order, before its `LIMIT`. -/
def RelayConfig.batch (config : RelayConfig) (ordered : List (OutboxEvent P)) :
    List (OutboxRecord P) :=
  (ordered.take config.batchSize).map fun row => row.record

/-- `RelayOutboxUseCase.execute`, begun at `began`. -/
def execute (config : RelayConfig) (limit : ℕ) (answer : OutboxRecord P → Answer)
    (table : OutboxTable P) (began : Instant) (ordered : List (OutboxEvent P)) : Outcome P :=
  table.run (began + limit) began
    ((config.batch ordered).forM (relayRow config (began + limit) answer))

/-- The status and the attempts of a row after its emit. -/
def RelayConfig.settled (config : RelayConfig) (row : OutboxRecord P) :
    Option String → OutboxStatus × ℕ
  | none => (.published, row.attempts)
  | some _ =>
    (if config.maxAttempts ≤ (row.attempts + 1 : ℤ) then .failed else .pending, row.attempts + 1)

/-- Every row that was emitted is as its own emit has left it. -/
def Outcome.Independent (config : RelayConfig) (o : Outcome P) : Prop :=
  ∀ e ∈ o.emits, ∃ row ∈ o.table.rows,
    row.id = e.1.id ∧ (row.status, row.attempts) = config.settled e.1 e.2

instance (config : RelayConfig) (o : Outcome P) : Decidable (o.Independent config) :=
  inferInstanceAs (Decidable (∀ e ∈ o.emits, ∃ row ∈ o.table.rows, _ ∧ _))

/-! ## The loop -/

section

variable {ε σ α β : Type} (x : ExceptT ε (StateM σ) α) (s : σ)

theorem bind_run (f : α → ExceptT ε (StateM σ) β) : (x >>= f).run.run s =
    match x.run.run s with
    | (.ok a, s') => (f a).run.run s'
    | (.error e, s') => (.error e, s') := by
  rw [ExceptT.run_bind, StateT.run_bind]
  rcases x.run.run s with ⟨_ | _, s'⟩ <;> rfl

theorem tryCatch_run (handler : ε → ExceptT ε (StateM σ) α) : (tryCatch x handler).run.run s =
    match x.run.run s with
    | (.ok a, s') => (.ok a, s')
    | (.error e, s') => (handler e).run.run s' := by
  rw [ExceptT.run_tryCatch, StateT.run_bind]
  rcases x.run.run s with ⟨_ | _, s'⟩ <;> rfl

end

section

variable {config : RelayConfig} {deadline : Instant} {answer : OutboxRecord P → Answer}

theorem publishOrThrow_run (row : OutboxRecord P) (s : Session P) :
    (publishOrThrow answer row).run.run s =
      (match (answer row).error with | none => .ok () | some message => .error message,
        { s with
          now := s.now + (answer row).delay
          emits := s.emits ++ [(row, (answer row).error)] }) := by
  unfold publishOrThrow
  rw [bind_run]
  cases (answer row).error <;> rfl

theorem statement_run (write : Instant → Write) (s : Session P) :
    (statement deadline write).run.run s =
      if s.now ≤ deadline then (.ok (), { s with writes := s.writes ++ [write s.now] })
      else (.error transactionClosed, s) := by
  unfold statement
  rw [bind_run]
  show StateT.run (ExceptT.run (if s.now ≤ deadline then _ else _ : Relaying P Unit)) s = _
  split_ifs <;> rfl

theorem relayRow_run (row : OutboxRecord P) (s : Session P) :
    (relayRow config deadline answer row).run.run s =
      if s.now + (answer row).delay ≤ deadline then
        (.ok (), {
          now := s.now + (answer row).delay
          writes := s.writes ++ [config.write ⟨row, (answer row).error, s.now + (answer row).delay⟩]
          emits := s.emits ++ [(row, (answer row).error)] })
      else
        (.error transactionClosed, { s with
          now := s.now + (answer row).delay
          emits := s.emits ++ [(row, (answer row).error)] }) := by
  unfold relayRow
  rw [tryCatch_run, bind_run, publishOrThrow_run]
  cases error : (answer row).error with
  | none =>
    simp only [statement_run]
    split_ifs with within
    · rfl
    · simp only [if_neg within]
  | some message =>
    simp only [statement_run]
    split_ifs with within <;> rfl

/-- How long the emits of the rows take. -/
def delays (answer : OutboxRecord P → Answer) : List (OutboxRecord P) → ℕ
  | [] => 0
  | row :: rest => (answer row).delay + delays answer rest

/-- The marks of the rows, which a loop that has begun at `now` makes. -/
def marks (answer : OutboxRecord P → Answer) (now : Instant) :
    List (OutboxRecord P) → List (Marked P)
  | [] => []
  | row :: rest =>
    ⟨row, (answer row).error, now + (answer row).delay⟩ ::
      marks answer (now + (answer row).delay) rest

/-- The emits of the rows. -/
def answers (answer : OutboxRecord P → Answer) (rows : List (OutboxRecord P)) :
    List (OutboxRecord P × Option String) :=
  rows.map fun row => (row, (answer row).error)

/-- The loop marks every row when the emits leave the time for it. -/
theorem loop_within (config : RelayConfig) {rows : List (OutboxRecord P)} {s : Session P}
    (within : s.now + delays answer rows ≤ deadline) :
    (rows.forM (relayRow config deadline answer)).run.run s = (.ok (), {
      now := s.now + delays answer rows
      writes := s.writes ++ (marks answer s.now rows).map config.write
      emits := s.emits ++ answers answer rows }) := by
  induction rows generalizing s with
  | nil =>
    show (Except.ok (), s) = _
    simp [delays, marks, answers]
  | cons row rest ih =>
    have sum : delays answer (row :: rest) = (answer row).delay + delays answer rest := rfl
    rw [sum, ← Nat.add_assoc] at within
    show ((relayRow config deadline answer row) >>= fun _ => rest.forM _).run.run s = _
    rw [bind_run, relayRow_run, if_pos (Nat.le_trans (Nat.le_add_right _ _) within)]
    refine (ih within).trans ?_
    rw [sum]
    simp [marks, answers, Nat.add_assoc]

/-- The loop stops at the row whose emit ends after the time limit. -/
theorem loop_past (config : RelayConfig) {rows : List (OutboxRecord P)} {s : Session P}
    (begun : s.now ≤ deadline) (past : deadline < s.now + delays answer rows) :
    ∃ done row rest, rows = done ++ row :: rest ∧ s.now + delays answer done ≤ deadline ∧
      (rows.forM (relayRow config deadline answer)).run.run s = (.error transactionClosed, {
        now := s.now + delays answer (done ++ [row])
        writes := s.writes ++ (marks answer s.now done).map config.write
        emits := s.emits ++ answers answer (done ++ [row]) }) := by
  induction rows generalizing s with
  | nil => exact absurd begun (Nat.not_le_of_lt past)
  | cons row rest ih =>
    have sum (rows : List (OutboxRecord P)) :
        delays answer (row :: rows) = (answer row).delay + delays answer rows := rfl
    have run : ((row :: rest).forM (relayRow config deadline answer)).run.run s =
      ((relayRow config deadline answer row) >>= fun _ =>
        rest.forM (relayRow config deadline answer)).run.run s := rfl
    rw [bind_run, relayRow_run] at run
    by_cases within : s.now + (answer row).delay ≤ deadline
    · rw [if_pos within] at run
      rw [sum, ← Nat.add_assoc] at past
      obtain ⟨done, last, rest', rfl, early, stopped⟩ := @ih
        ⟨s.now + (answer row).delay,
          s.writes ++ [config.write ⟨row, (answer row).error, s.now + (answer row).delay⟩],
          s.emits ++ [(row, (answer row).error)]⟩ within past
      refine ⟨row :: done, last, rest', rfl, ?_, run.trans (stopped.trans ?_)⟩
      · rwa [sum, ← Nat.add_assoc]
      · rw [List.cons_append, sum]
        simp [marks, answers, Nat.add_assoc]
    · rw [if_neg within] at run
      refine ⟨[], row, rest, rfl, begun, run.trans ?_⟩
      simp [marks, answers, delays]

/-! ## The outcome -/

variable {table : OutboxTable P} {limit : ℕ} {began : Instant} {ordered : List (OutboxEvent P)}

/-- A tick whose emits end in time commits its marks. -/
theorem execute_within (within : delays answer (config.batch ordered) ≤ limit) :
    execute config limit answer table began ordered =
      ⟨table.commit ((marks answer began (config.batch ordered)).map config.write),
        answers answer (config.batch ordered), none⟩ := by
  have within := Nat.add_le_add_left within began
  have run := loop_within config (s := ⟨began, [], []⟩) within
  unfold execute OutboxTable.run
  rw [run]
  exact if_pos within

/-- A tick whose emits do not end in time commits nothing. -/
theorem execute_past (table : OutboxTable P) (began : Instant)
    (past : limit < delays answer (config.batch ordered)) :
    ∃ done row rest, config.batch ordered = done ++ row :: rest ∧ delays answer done ≤ limit ∧
      execute config limit answer table began ordered =
        ⟨table, answers answer (done ++ [row]), some transactionClosed⟩ := by
  obtain ⟨done, row, rest, batch, early, run⟩ := loop_past config
    (s := ⟨began, [], []⟩) (Nat.le_add_right _ _) (Nat.add_lt_add_left past began)
  refine ⟨done, row, rest, batch, Nat.le_of_add_le_add_left early, ?_⟩
  unfold execute OutboxTable.run
  rw [run]
  rfl

theorem marks_row (answer : OutboxRecord P → Answer) (now : Instant) (rows : List (OutboxRecord P)) :
    (marks answer now rows).map (·.row) = rows := by
  induction rows generalizing now with
  | nil => rfl
  | cons row rest ih => exact congrArg (row :: ·) (ih _)

theorem error_of_mem_marks {now : Instant} {rows : List (OutboxRecord P)} {m : Marked P}
    (mem : m ∈ marks answer now rows) : m.error = (answer m.row).error := by
  induction rows generalizing now with
  | nil => cases mem
  | cons row rest ih =>
    rcases List.mem_cons.1 mem with rfl | mem
    · rfl
    · exact ih mem

/-- The write of a mark settles its row. -/
theorem settled_of_write {m : Marked P} {row : OutboxEvent P} (record : row.record = m.row)
    (pending : row.status = .pending) :
    (((config.write m).set.apply row).status, ((config.write m).set.apply row).attempts) =
      config.settled m.row m.error := by
  cases error : m.error with
  | none =>
    obtain ⟨status, attempts⟩ := config.write_acked error row
    rw [status, attempts, ← record]
    rfl
  | some message =>
    have written := write_rejected config error row
    split_ifs at written with below
    · rw [written, RelayConfig.settled, if_neg (Int.not_le.2 below)]
      exact congrArg (·, _) pending
    · rw [written, RelayConfig.settled, if_pos (Int.not_lt.1 below)]

section

variable {π : Type} [DecidableEq π] {lock : Locks OutboxId π}

theorem row_of_batch (ordering : table.Ordered lock began ordered) {record : OutboxRecord P}
    (mem : record ∈ config.batch ordered) :
    ∃ row ∈ table.rows, row.status = .pending ∧ row.record = record := by
  obtain ⟨row, fetched, rfl⟩ := List.mem_map.1 mem
  obtain ⟨present, due, -⟩ := (OutboxTable.mem_of_ordered ordering).1 (List.mem_of_mem_take fetched)
  exact ⟨row, present, OutboxEvent.status_of_due due, rfl⟩

theorem unique_marks (ordering : table.Ordered lock began ordered) :
    Table.Unique (fun m => m.row.id) (marks answer began (config.batch ordered)) := by
  have ids : (marks answer began (config.batch ordered)).map (fun m => m.row.id) =
      (ordered.take config.batchSize).map (·.id) := by
    have rows := congrArg (List.map (·.id)) (marks_row answer began (config.batch ordered))
    rw [List.map_map, RelayConfig.batch, List.map_map] at rows
    exact rows
  rw [Table.Unique, ids]
  exact (OutboxTable.nodup_of_ordered ordering).sublist ((List.take_sublist _ _).map _)

/-- The rows of a tick are settled by their own emits if and only if the emits of all of them together
end within the time limit. -/
theorem batch_independent (ordering : table.Ordered lock began ordered) :
    (execute config limit answer table began ordered).Independent config ↔
      delays answer (config.batch ordered) ≤ limit := by
  constructor
  · intro independent
    by_contra late
    obtain ⟨done, record, rest, batch, -, outcome⟩ := execute_past table began (Nat.lt_of_not_le late)
    rw [outcome] at independent
    -- the row that the time limit stops is still pending, with the attempts that it had
    obtain ⟨row₀, hrow₀, pending, rfl⟩ := row_of_batch ordering
      (show record ∈ config.batch ordered from
        batch ▸ List.mem_append_right _ List.mem_cons_self)
    obtain ⟨row, hrow, same, settled⟩ := independent (row₀.record, (answer row₀.record).error)
      (by simp [answers])
    obtain rfl := table.eq_of_id hrow hrow₀ same
    cases error : (answer row.record).error with
    | none =>
      rw [error] at settled
      have published : row.status = .published := congrArg Prod.fst settled
      rw [pending] at published
      cases published
    | some message =>
      rw [error] at settled
      have more : row.attempts = row.attempts + 1 := congrArg Prod.snd settled
      exact absurd more (Nat.succ_ne_self _).symm
  · intro within
    rw [execute_within within]
    intro e emitted
    obtain ⟨record, mem, rfl⟩ := List.mem_map.1 emitted
    obtain ⟨row, hrow, pending, same⟩ := row_of_batch ordering mem
    rw [← marks_row answer began (config.batch ordered)] at mem
    obtain ⟨m, marked, rfl⟩ := List.mem_map.1 mem
    have unique :
        (((marks answer began (config.batch ordered)).map config.write).map (·.id)).Nodup := by
      rw [config.write_ids]
      exact unique_marks ordering
    refine ⟨row.written ((marks answer began (config.batch ordered)).map config.write), ?_,
      OutboxEvent.written_id.trans (congrArg (·.id) same), ?_⟩
    · rw [OutboxTable.commit_rows]
      exact List.mem_map_of_mem hrow
    · rw [OutboxEvent.written_of_mem unique (List.mem_map_of_mem marked)
        ((config.write_id m).trans (congrArg (·.id) same).symm)]
      rw [settled_of_write same pending, error_of_mem_marks marked]

/-- The rows of a post and of a like of it. -/
def twoRows : OutboxTable Unit where
  rows := [newRow (postCreated 7 1) [] 0 10, newRow (likeCreated 8 1) [] 1 11]
  id_unique := by unfold Table.Unique; decide
  eventId_unique := by unfold Table.Unique; decide

/-- Both emits are acknowledged, the second one after `delay`. -/
def slow (delay : ℕ) (row : OutboxRecord Unit) : Answer := ⟨if row.id = 0 then 10 else delay, none⟩

theorem batch_independent_quick :
    (execute RelayConfig.default 5000 (slow 30) twoRows 20 twoRows.rows).Independent
      RelayConfig.default :=
  (batch_independent (show twoRows.Ordered (.free : Locks OutboxId ℕ) 20 twoRows.rows by decide)).2
    (by decide)

/-- The first row is acknowledged after 10 ms, and its mark is lost with that of the second. -/
theorem not_independent_slow : twoRows.Ordered (.free : Locks OutboxId ℕ) 20 twoRows.rows ∧
    (∃ e ∈ (execute RelayConfig.default 5000 (slow 6000) twoRows 20 twoRows.rows).emits,
      e.1.id = 0 ∧ e.2 = none ∧
      ∀ row ∈ (execute RelayConfig.default 5000 (slow 6000) twoRows 20 twoRows.rows).table.rows,
        row.id = e.1.id → row.status = .pending) ∧
    ¬ (execute RelayConfig.default 5000 (slow 6000) twoRows 20 twoRows.rows).Independent
      RelayConfig.default := by
  decide

end

/-! ## Ticks of the machine -/

section

variable [DecidableEq P] {s : State P} {t : TickId}

/-- An emit of an open tick. -/
theorem next_emit (config : RelayConfig) {marked : List (Marked P)} {row : OutboxRecord P}
    {rest : List (OutboxRecord P)} (error : Option String)
    (running : s.phase t = .running { marked, sent := none, rest := row :: rest }) :
    next config s (.emit t error) =
      some (s.emit t row error (.running { marked, sent := some (row, error), rest })) := by
  show Option.map _ ((s.phase t).emit error) = _
  rw [running]
  rfl

/-- A turn of the loop whose statement is late: the tick emits the row and loses its transaction. -/
theorem exists_run_of_late (config : RelayConfig) {marked : List (Marked P)} {row : OutboxRecord P}
    {rest : List (OutboxRecord P)} (error : Option String)
    (running : s.phase t = .running { marked, sent := none, rest := row :: rest }) :
    ∃ tr s', (outbox config).Run Any s tr s' ∧ s'.table = s.table ∧
      s'.emits = s.emits ++ [⟨t, row, error⟩] ∧ s'.phase t = .rolledBack none := by
  have sent : (outbox config).next s (.emit t error) = _ := next_emit config error running
  have lost : (outbox config).next
      (s.emit t row error (.running { marked, sent := some (row, error), rest })) (.abort t) =
        some ((s.emit t row error (.running { marked, sent := some (row, error), rest })).abort t
          { marked, sent := some (row, error), rest }) := by
    simp only [outbox, next, State.emit, Function.update_self]
  exact ⟨_, _, (Run.single trivial sent).snoc trivial lost, rfl, rfl, Function.update_self ..⟩

/-- A turn of the loop whose statement is in time. -/
theorem exists_run_of_turn (config : RelayConfig) {marked : List (Marked P)} {row : OutboxRecord P}
    {rest : List (OutboxRecord P)} (error : Option String) (now : Instant)
    (running : s.phase t = .running { marked, sent := none, rest := row :: rest })
    (known : row.id ∈ s.table.rows.map (·.id)) :
    ∃ tr s', (outbox config).Run Any s tr s' ∧ s'.table = s.table ∧
      s'.emits = s.emits ++ [⟨t, row, error⟩] ∧
      s'.phase t = .running { marked := marked ++ [⟨row, error, now⟩], sent := none, rest } := by
  have sent : (outbox config).next s (.emit t error) = _ := next_emit config error running
  have marks : (outbox config).next
      (s.emit t row error (.running { marked, sent := some (row, error), rest })) (.mark t now) =
        some ((s.emit t row error (.running { marked, sent := some (row, error), rest })).enter t
          (.running { marked := marked ++ [⟨row, error, now⟩], sent := none, rest })) := by
    simp only [outbox, next, State.emit, Function.update_self]
    exact if_pos known
  exact ⟨_, _, (Run.single trivial sent).snoc trivial marks, rfl, rfl, Function.update_self ..⟩

/-- The turns of the loop whose statements are in time. -/
theorem exists_run_of_turns (config : RelayConfig) (answer : OutboxRecord P → Answer) (now : Instant)
    {done rest : List (OutboxRecord P)} {marked : List (Marked P)}
    (running : s.phase t = .running { marked, sent := none, rest := done ++ rest })
    (known : ∀ row ∈ done, row.id ∈ s.table.rows.map (·.id)) :
    ∃ tr s', (outbox config).Run Any s tr s' ∧ s'.table = s.table ∧
      s'.emits = s.emits ++ (answers answer done).map (fun e => ⟨t, e.1, e.2⟩) ∧
      s'.phase t = .running { marked := marked ++ marks answer now done, sent := none, rest } := by
  induction done generalizing s marked now with
  | nil =>
    refine ⟨[], s, .refl s, rfl, (List.append_nil _).symm, ?_⟩
    rw [running, marks, List.append_nil]
    rfl
  | cons row done ih =>
    obtain ⟨tr, s₁, run, table, emits, running₁⟩ := exists_run_of_turn config
      (answer row).error (now + (answer row).delay) running (known row List.mem_cons_self)
    obtain ⟨tr', s₂, run', table', emits', running₂⟩ := ih (now + (answer row).delay) running₁
      fun row mem => table ▸ known row (List.mem_cons_of_mem _ mem)
    refine ⟨tr ++ tr', s₂, run.trans run', table'.trans table, ?_, ?_⟩
    · rw [emits', emits, List.append_assoc]
      rfl
    · rw [running₂, List.append_assoc]
      rfl

/-- A tick is a run of the machine: it commits, or loses its transaction after its last emit. -/
theorem execute_run (config : RelayConfig) (limit : ℕ) (answer : OutboxRecord P → Answer)
    (idle : s.phase t = .idle) (ordering : s.table.Ordered s.lock began ordered) :
    ∃ tr s', (outbox config).Run Any s tr s' ∧
      s'.table = (execute config limit answer s.table began ordered).table ∧
      s'.emits = s.emits ++ (execute config limit answer s.table began ordered).emits.map
        (fun e => ⟨t, e.1, e.2⟩) ∧
      s'.phase t = if (execute config limit answer s.table began ordered).error.isNone then .committed
        else .rolledBack none := by
  have fetched : (outbox config).next s (.fetch t began ordered) =
      some (s.fetch t (ordered.take config.batchSize)) := if_pos ⟨idle, ordering⟩
  have running : (s.fetch t (ordered.take config.batchSize)).phase t =
      .running { marked := [], sent := none, rest := config.batch ordered } :=
    Function.update_self ..
  have known : ∀ row ∈ config.batch ordered, row.id ∈ s.table.rows.map (·.id) := by
    intro record mem
    obtain ⟨row, hrow, -, rfl⟩ := row_of_batch ordering mem
    exact List.mem_map_of_mem hrow
  have first : (outbox config).Run Any s _ _ := .single trivial fetched
  rcases Nat.lt_or_ge limit (delays answer (config.batch ordered)) with past | within
  · obtain ⟨done, row, rest, batch, -, outcome⟩ := execute_past s.table began past
    rw [batch] at running known
    obtain ⟨tr, s₁, run, table, emits, running₁⟩ := exists_run_of_turns config answer began running
      fun row mem => known row (List.mem_append_left _ mem)
    obtain ⟨tr', s₂, run', table', emits', lost⟩ :=
      exists_run_of_late config (answer row).error running₁
    rw [outcome]
    refine ⟨_, s₂, (first.trans run).trans run', table'.trans table, ?_, lost⟩
    rw [emits', emits, List.append_assoc]
    simp [State.fetch, answers]
  · have whole : (s.fetch t (ordered.take config.batchSize)).phase t =
        .running { marked := [], sent := none, rest := config.batch ordered ++ [] } := by
      rw [List.append_nil]
      exact running
    obtain ⟨tr, s₁, run, table, emits, running₁⟩ :=
      exists_run_of_turns config answer began whole known
    have commits : (outbox config).next s₁ (.commit t) =
        some (s₁.commit t config (marks answer began (config.batch ordered))) := by
      simp only [outbox, next, running₁, List.nil_append]
    rw [execute_within within]
    refine ⟨_, _, (first.trans run).snoc trivial commits, ?_, emits, Function.update_self ..⟩
    show s₁.table.commit _ = s.table.commit _
    rw [table]
    rfl

end

end

end EstateServer.Outbox
