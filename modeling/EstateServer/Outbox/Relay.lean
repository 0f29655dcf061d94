import EstateServer.Library.Machine
import EstateServer.Outbox.Store
import Mathlib.Logic.Function.Basic

/-!
# Relays and writers at work

Any number of ticks of `RelayOutboxUseCase.execute` interleave with the writers that insert rows.
A tick is one transaction:

* `fetch` is `fetchPending`.  It locks the rows that it takes and skips those of other ticks;
* `emit` is `publishOrThrow` of the next row.  Its outcome is drawn with it, and the tick learns it
  when it goes on;
* `mark` is `markPublished`, or `markFailed` in the branch of a rejected emit;
* `commit` makes the writes of the tick, and `abort` undoes them.  Whatever throws out of the
  callback aborts: a failed statement, which the `catch` branch cannot mend since its own statement
  fails as well, an error in that branch, a timeout, the end of the process.

`execute` notices a lost transaction only at its next statement, so after `abort` the loop may
still emit one more row: `rolledBack` holds that row.
-/

namespace EstateServer.Outbox

open Machine

variable {P : Type}

abbrev TickId := ℕ

/-- A row that a tick has marked: the outcome of its emit and the time of the mark. -/
structure Marked (P : Type) where
  row : OutboxRecord P
  error : Option String
  now : Instant
  deriving DecidableEq, Repr

/-- An open transaction of a relay. -/
structure Tick (P : Type) where
  /-- The rows marked so far, uncommitted. -/
  marked : List (Marked P)
  /-- The row emitted and not yet marked, with the error of the emit. -/
  sent : Option (OutboxRecord P × Option String)
  /-- The rows that the loop has not reached. -/
  rest : List (OutboxRecord P)
  deriving DecidableEq, Repr

inductive Phase (P : Type)
  | idle
  | running (tick : Tick P)
  | committed
  /-- The transaction is gone; the loop may still emit this row. -/
  | rolledBack (next : Option (OutboxRecord P))
  deriving DecidableEq, Repr

/-- An emit, rejected when it has an error. -/
structure Emit (P : Type) where
  tick : TickId
  row : OutboxRecord P
  error : Option String
  deriving DecidableEq, Repr

def Emit.acked (emit : Emit P) : Bool := emit.error.isNone

structure State (P : Type) where
  table : OutboxTable P
  lock : Locks OutboxId TickId
  phase : TickId → Phase P
  /-- The emits so far, in order. -/
  emits : List (Emit P)

inductive Label (P : Type)
  | insert (event : DomainEvent P) (traceContext : TraceHeaders) (id : OutboxId)
      (createdAt : Instant)
  /-- `ordered` are the rows of the query in order, before its `LIMIT`. -/
  | fetch (t : TickId) (dbNow : Instant) (ordered : List (OutboxEvent P))
  | emit (t : TickId) (error : Option String)
  | mark (t : TickId) (now : Instant)
  | commit (t : TickId)
  | abort (t : TickId)
  deriving DecidableEq

/-- The statement that marks an emitted row. -/
def RelayConfig.write (config : RelayConfig) (marked : Marked P) : Write :=
  match marked.error with
  | none => markPublished marked.row.id marked.now
  | some error => (markFailed config marked.row.id marked.row.attempts error marked.now).1

/-- The next emit: its row, and the phase after it. -/
def Phase.emit (error : Option String) : Phase P → Option (OutboxRecord P × Phase P)
  | running { marked, sent := none, rest := row :: rest } =>
    some (row, .running { marked, sent := some (row, error), rest })
  | rolledBack (some row) => some (row, .rolledBack none)
  | _ => none

/-- The row that the loop still emits when the transaction is lost. -/
def Tick.next (tick : Tick P) : Option (OutboxRecord P) :=
  match tick.sent with
  | none => tick.rest.head?
  | some _ => none

namespace State

variable (s : State P) (t : TickId)

def enter (phase : Phase P) : State P := { s with phase := Function.update s.phase t phase }

/-- `t` has fetched these rows. -/
def fetch (rows : List (OutboxEvent P)) : State P :=
  { s with
    lock := s.lock.acquire t (rows.map fun row => row.id)
    phase := Function.update s.phase t
      (.running { marked := [], sent := none, rest := rows.map fun row => row.record }) }

/-- `t` has emitted a row. -/
def emit (row : OutboxRecord P) (error : Option String) (phase : Phase P) : State P :=
  { s with
    emits := s.emits ++ [⟨t, row, error⟩]
    phase := Function.update s.phase t phase }

/-- `t` has committed its marks. -/
def commit (config : RelayConfig) (marked : List (Marked P)) : State P :=
  { s with
    table := s.table.commit (marked.map config.write)
    lock := s.lock.release t
    phase := Function.update s.phase t .committed }

/-- `t` has lost its transaction. -/
def abort (tick : Tick P) : State P :=
  { s with
    lock := s.lock.release t
    phase := Function.update s.phase t (.rolledBack tick.next) }

end State

/-- The state after a step. -/
def next [DecidableEq P] (config : RelayConfig) (s : State P) : Label P → Option (State P)
  | .insert event traceContext id createdAt =>
    (s.table.add event traceContext id createdAt).map fun table => { s with table }
  | .fetch t dbNow ordered =>
    if s.phase t = .idle ∧ s.table.Ordered s.lock dbNow ordered then
      some (s.fetch t (ordered.take config.batchSize))
    else none
  | .emit t error =>
    ((s.phase t).emit error).map fun (row, phase) => s.emit t row error phase
  | .mark t now =>
    match s.phase t with
    | .running { marked, sent := some (row, error), rest } =>
      -- `P2025` when the row is gone
      if row.id ∈ s.table.rows.map (·.id) then
        some (s.enter t (.running { marked := marked ++ [⟨row, error, now⟩], sent := none, rest }))
      else none
    | _ => none
  | .commit t =>
    match s.phase t with
    | .running { marked, sent := none, rest := [] } =>
      some (s.commit t config marked)
    | _ => none
  | .abort t =>
    match s.phase t with
    | .running tick => some (s.abort t tick)
    | _ => none

/-- The outbox: it starts empty, with no tick begun. -/
def outbox [DecidableEq P] (config : RelayConfig) : Machine (State P) (Label P) where
  start s := s.table.rows = [] ∧ s.lock = .free ∧ s.emits = [] ∧ s.phase = fun _ => .idle
  next := next config

/-- The empty outbox. -/
def empty : State P where
  table := { rows := [], id_unique := List.nodup_nil, eventId_unique := List.nodup_nil }
  lock := .free
  phase _ := .idle
  emits := []

theorem empty_start [DecidableEq P] (config : RelayConfig) :
    (outbox (P := P) config).start empty := ⟨rfl, rfl, rfl, rfl⟩

/-- The `PostCreated` event of a post. -/
def postCreated (eventId : EventId) (postId : EntityId) : DomainEvent Unit where
  eventId := eventId
  eventType := .postCreated
  occurredAt := 0
  actorId := some 0
  entityType := .post
  entityId := postId
  payload := ()

/-- The `LikeCreated` event of a post. -/
def likeCreated (eventId : EventId) (postId : EntityId) : DomainEvent Unit :=
  { postCreated eventId postId with eventType := .likeCreated }

/-! ## The steps and their effects -/

/-- An open tick emits its next row, or one that has lost its transaction its last. -/
theorem Phase.emit_cases {phase phase' : Phase P} {error : Option String} {row : OutboxRecord P}
    (h : phase.emit error = some (row, phase')) :
    (∃ marked rest, phase = .running { marked, sent := none, rest := row :: rest } ∧
      phase' = .running { marked, sent := some (row, error), rest }) ∨
    (phase = .rolledBack (some row) ∧ phase' = .rolledBack none) := by
  unfold Phase.emit at h
  split at h
  · cases h
    exact .inl ⟨_, _, rfl, rfl⟩
  · cases h
    exact .inr ⟨rfl, rfl⟩
  · cases h

/-- A step of the outbox, with its effect. -/
inductive Moves (config : RelayConfig) (s : State P) : Label P → State P → Prop
  | insert {event : DomainEvent P} {traceContext : TraceHeaders} {id : OutboxId}
      {createdAt : Instant} {table : OutboxTable P}
      (added : s.table.add event traceContext id createdAt = some table) :
      Moves config s (.insert event traceContext id createdAt) { s with table }
  | fetch {t : TickId} {dbNow : Instant} {ordered : List (OutboxEvent P)}
      (idle : s.phase t = .idle) (ordering : s.table.Ordered s.lock dbNow ordered) :
      Moves config s (.fetch t dbNow ordered) (s.fetch t (ordered.take config.batchSize))
  | emit {t : TickId} {error : Option String} {row : OutboxRecord P} {phase : Phase P}
      (emitted : (s.phase t).emit error = some (row, phase)) :
      Moves config s (.emit t error) (s.emit t row error phase)
  | mark {t : TickId} {now : Instant} {marked : List (Marked P)} {row : OutboxRecord P}
      {error : Option String} {rest : List (OutboxRecord P)}
      (running : s.phase t = .running { marked, sent := some (row, error), rest }) :
      Moves config s (.mark t now)
        (s.enter t (.running { marked := marked ++ [⟨row, error, now⟩], sent := none, rest }))
  | commit {t : TickId} {marked : List (Marked P)}
      (running : s.phase t = .running { marked, sent := none, rest := [] }) :
      Moves config s (.commit t) (s.commit t config marked)
  | abort {t : TickId} {tick : Tick P} (running : s.phase t = .running tick) :
      Moves config s (.abort t) (s.abort t tick)

variable [DecidableEq P] {config : RelayConfig} {s s' : State P} {a : Label P}

theorem moves_of_next (h : next config s a = some s') : Moves config s a s' := by
  cases a with
  | insert event traceContext id createdAt =>
    obtain ⟨table, added, rfl⟩ := Option.map_eq_some_iff.1 h
    exact .insert added
  | fetch t dbNow ordered =>
    simp only [next] at h
    split_ifs at h with enabled
    rw [← Option.some.inj h]
    exact .fetch enabled.1 enabled.2
  | emit t error =>
    obtain ⟨⟨row, phase⟩, emitted, rfl⟩ := Option.map_eq_some_iff.1 h
    exact .emit emitted
  | mark t now =>
    simp only [next] at h
    split at h
    · split_ifs at h
      rw [← Option.some.inj h]
      exact .mark ‹_›
    · cases h
  | commit t =>
    simp only [next] at h
    split at h
    · rw [← Option.some.inj h]
      exact .commit ‹_›
    · cases h
  | abort t =>
    simp only [next] at h
    split at h
    · rw [← Option.some.inj h]
      exact .abort ‹_›
    · cases h

end EstateServer.Outbox
