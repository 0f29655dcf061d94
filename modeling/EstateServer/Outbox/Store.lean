import EstateServer.Events.DomainEvent
import EstateServer.Library.Table
import Mathlib.Algebra.Group.Int.Defs
import Mathlib.Data.List.Perm.Basic

/-!
# The outbox table

`PrismaOutboxStore`: the rows of `OutboxEvent`, and one definition for each statement on them.

A relay writes inside a transaction, so `markPublished` and `markFailed` give the `Write` that the
transaction will make; `OutboxTable.commit` makes the writes of a transaction in order.
-/

namespace EstateServer.Outbox

variable {P : Type}

abbrev OutboxId := ℕ

inductive OutboxStatus
  | pending
  | published
  | failed
  deriving DecidableEq, Repr

/-- A row of `OutboxEvent`. -/
structure OutboxEvent (P : Type) where
  id : OutboxId
  eventId : EventId
  eventType : EventType
  topic : KafkaTopic
  partitionKey : EntityId
  payload : DomainEvent P
  status : OutboxStatus
  createdAt : Instant
  publishedAt : Option Instant
  attempts : ℕ
  nextAttemptAt : Option ℤ
  lastError : Option String
  failedAt : Option Instant
  traceContext : TraceHeaders
  deriving DecidableEq, Repr

/-- `OutboxRecord`: what the relay reads of a row. -/
structure OutboxRecord (P : Type) where
  id : OutboxId
  eventId : EventId
  eventType : EventType
  topic : KafkaTopic
  partitionKey : EntityId
  payload : DomainEvent P
  attempts : ℕ
  traceContext : TraceHeaders
  deriving DecidableEq, Repr

/-- The settings of the relay. -/
structure RelayConfig where
  batchSize : ℕ
  maxAttempts : ℤ
  baseMs : ℤ
  capMs : ℤ
  deriving DecidableEq, Repr

/-- The settings that `OutboxModule` falls back to. -/
def RelayConfig.default : RelayConfig where
  batchSize := 100
  maxAttempts := 5
  baseMs := 1000
  capMs := 60000

def computeBackoff (attempts : ℕ) (baseMs capMs : ℤ) : ℤ := min (baseMs * 2 ^ attempts) capMs

structure OutboxTable (P : Type) where
  rows : List (OutboxEvent P)
  id_unique : Table.Unique (·.id) rows
  eventId_unique : Table.Unique (·.eventId) rows

/-- The assignment of an `UPDATE` of the relay. -/
inductive Assignment
  | published (publishedAt : Instant)
  | failed (attempts : ℕ) (lastError : String) (failedAt : Instant)
  | retry (attempts : ℕ) (lastError : String) (nextAttemptAt : ℤ)
  deriving DecidableEq, Repr

def Assignment.apply : Assignment → OutboxEvent P → OutboxEvent P
  | published publishedAt, row =>
    { row with status := .published, publishedAt := some publishedAt }
  | failed attempts lastError failedAt, row =>
    { row with status := .failed, attempts, lastError := some lastError, failedAt := some failedAt }
  | retry attempts lastError nextAttemptAt, row =>
    { row with attempts, lastError := some lastError, nextAttemptAt := some nextAttemptAt }

/-- An `UPDATE` of one row. -/
structure Write where
  id : OutboxId
  set : Assignment
  deriving DecidableEq, Repr

def OutboxEvent.record (row : OutboxEvent P) : OutboxRecord P where
  id := row.id
  eventId := row.eventId
  eventType := row.eventType
  topic := row.topic
  partitionKey := row.partitionKey
  payload := row.payload
  attempts := row.attempts
  traceContext := row.traceContext

/-- The `WHERE` of `fetchPending`: pending, and its next attempt is due. -/
def OutboxEvent.due (row : OutboxEvent P) (dbNow : Instant) : Bool :=
  row.status = .pending ∧ row.nextAttemptAt.all fun t => t ≤ (dbNow : ℤ)

/-- The row that `add` inserts. -/
def newRow (event : DomainEvent P) (traceContext : TraceHeaders) (id : OutboxId)
    (createdAt : Instant) : OutboxEvent P where
  id := id
  eventId := event.eventId
  eventType := event.eventType
  topic := topicForEvent event.eventType
  partitionKey := event.entityId
  payload := event
  status := .pending
  createdAt := createdAt
  publishedAt := none
  attempts := 0
  nextAttemptAt := none
  lastError := none
  failedAt := none
  traceContext := traceContext

def markPublished (id : OutboxId) (now : Instant) : Write := ⟨id, .published now⟩

/-- `markFailed`, and whether it has quarantined the row. -/
def markFailed (config : RelayConfig) (id : OutboxId) (attempts : ℕ) (error : String)
    (now : Instant) : Write × Bool :=
  let nextAttempts := attempts + 1
  if (nextAttempts : ℤ) ≥ config.maxAttempts then
    (⟨id, .failed nextAttempts error now⟩, true)
  else
    let delayMs := computeBackoff attempts config.baseMs config.capMs
    (⟨id, .retry nextAttempts error (now + delayMs)⟩, false)

/-! ## Rows -/

section

variable (set : Assignment) (row : OutboxEvent P)

@[simp] theorem Assignment.apply_id : (set.apply row).id = row.id := by cases set <;> rfl

@[simp] theorem Assignment.apply_eventId : (set.apply row).eventId = row.eventId := by
  cases set <;> rfl

end

/-- The row as it was inserted: the columns that no statement of the relay writes. -/
def OutboxEvent.inserted (row : OutboxEvent P) : OutboxEvent P :=
  { row with
    status := .pending
    publishedAt := none
    attempts := 0
    nextAttemptAt := none
    lastError := none
    failedAt := none }

/-- The record of the row as it was inserted. -/
def OutboxRecord.inserted (record : OutboxRecord P) : OutboxRecord P := { record with attempts := 0 }

@[simp] theorem Assignment.apply_inserted (set : Assignment) (row : OutboxEvent P) :
    (set.apply row).inserted = row.inserted := by cases set <;> rfl

section

variable {row row' : OutboxEvent P} (h : row.inserted = row'.inserted)
include h

theorem OutboxEvent.id_of_inserted : row.id = row'.id := (OutboxEvent.mk.inj h).1

theorem OutboxEvent.createdAt_of_inserted : row.createdAt = row'.createdAt := by
  have created : row.inserted.createdAt = row'.inserted.createdAt := by rw [h]
  exact created

end

namespace OutboxTable

/-! ## Statements -/

variable (table : OutboxTable P)

/-- `add`: an `INSERT`, which the unique constraints may refuse (`P2002`). -/
def add (event : DomainEvent P) (traceContext : TraceHeaders) (id : OutboxId)
    (createdAt : Instant) : Option (OutboxTable P) :=
  let row := newRow event traceContext id createdAt
  if h : row.id ∉ table.rows.map (·.id) ∧ row.eventId ∉ table.rows.map (·.eventId) then
    some
      { rows := table.rows ++ [row]
        id_unique := table.id_unique.concat h.1
        eventId_unique := table.eventId_unique.concat h.2 }
  else none

/-- The rows that `fetchPending` may lock: due, and not locked by another transaction. -/
def candidates {π : Type} [DecidableEq π] (lock : Locks OutboxId π) (dbNow : Instant) :
    List (OutboxEvent P) :=
  table.rows.filter fun row => row.due dbNow ∧ lock row.id = none

/-- `ORDER BY "createdAt" ASC`: the candidates, rows created at one instant in any order. -/
def Ordered {π : Type} [DecidableEq π] (lock : Locks OutboxId π) (dbNow : Instant)
    (ordered : List (OutboxEvent P)) : Prop :=
  ordered.Perm (table.candidates lock dbNow) ∧ ordered.Pairwise (·.createdAt ≤ ·.createdAt)

instance [DecidableEq P] {π : Type} [DecidableEq π] (lock : Locks OutboxId π) (dbNow : Instant)
    (ordered : List (OutboxEvent P)) : Decidable (table.Ordered lock dbNow ordered) :=
  inferInstanceAs (Decidable (_ ∧ _))

/-- `UPDATE … WHERE id`. -/
def update (write : Write) : OutboxTable P where
  rows := (Table.updateMany (·.id = write.id) write.set.apply table.rows).1
  id_unique := table.id_unique.updateMany write.set.apply_id
  eventId_unique := table.eventId_unique.updateMany write.set.apply_eventId

/-- The writes of a transaction. -/
def commit (writes : List Write) : OutboxTable P := writes.foldl update table

/-! ## What a statement does to the rows -/

variable {table} {table' : OutboxTable P} {row row' : OutboxEvent P} {writes : List Write}

theorem add_rows {event : DomainEvent P} {traceContext : TraceHeaders} {id : OutboxId}
    {createdAt : Instant} (h : table.add event traceContext id createdAt = some table') :
    table'.rows = table.rows ++ [newRow event traceContext id createdAt] := by
  unfold add at h
  dsimp only at h
  split_ifs at h with fresh
  rw [← Option.some.inj h]

theorem eq_of_id (hr : row ∈ table.rows) (hr' : row' ∈ table.rows) (h : row.id = row'.id) :
    row = row' := table.id_unique.eq_of_mem hr hr' h

theorem mem_of_ordered {π : Type} [DecidableEq π] {lock : Locks OutboxId π} {dbNow : Instant}
    {ordered : List (OutboxEvent P)} (h : table.Ordered lock dbNow ordered) :
    row ∈ ordered ↔ row ∈ table.rows ∧ row.due dbNow = true ∧ lock row.id = none := by
  rw [h.1.mem_iff, candidates, List.mem_filter, decide_eq_true_iff]

theorem nodup_of_ordered {π : Type} [DecidableEq π] {lock : Locks OutboxId π} {dbNow : Instant}
    {ordered : List (OutboxEvent P)} (h : table.Ordered lock dbNow ordered) :
    Table.Unique (·.id) ordered :=
  (h.1.map _).nodup_iff.2 (table.id_unique.sublist (List.filter_sublist.map _))

end OutboxTable

theorem OutboxEvent.status_of_due {row : OutboxEvent P} {dbNow : Instant}
    (h : row.due dbNow = true) : row.status = .pending := (of_decide_eq_true h).1

/-! ## The writes of a transaction, row by row -/

/-- The row after the writes of a transaction. -/
def OutboxEvent.written (writes : List Write) (row : OutboxEvent P) : OutboxEvent P :=
  writes.foldl (fun row write => if row.id = write.id then write.set.apply row else row) row

section

variable {table : OutboxTable P} {row : OutboxEvent P} {writes : List Write}

theorem OutboxTable.commit_rows :
    (table.commit writes).rows = table.rows.map (·.written writes) := by
  induction writes generalizing table with
  | nil => exact (List.map_id _).symm
  | cons write writes ih =>
    have head : (table.commit (write :: writes)).rows = ((table.update write).commit writes).rows := rfl
    have updated : (table.update write).rows =
        table.rows.map fun row => if row.id = write.id then write.set.apply row else row := by
      simp only [OutboxTable.update, Table.updateMany, decide_eq_true_eq]
    rw [head, ih, updated, List.map_map]
    rfl

theorem OutboxEvent.written_cons {write : Write} : row.written (write :: writes) =
    (if row.id = write.id then write.set.apply row else row).written writes := rfl

@[simp] theorem OutboxEvent.written_inserted : (row.written writes).inserted = row.inserted := by
  induction writes generalizing row with
  | nil => rfl
  | cons write writes ih =>
    rw [written_cons, ih]
    split_ifs
    · exact Assignment.apply_inserted _ _
    · rfl

@[simp] theorem OutboxEvent.written_id : (row.written writes).id = row.id := by
  exact id_of_inserted written_inserted

theorem OutboxEvent.written_of_not_mem (h : row.id ∉ writes.map (·.id)) :
    row.written writes = row := by
  induction writes with
  | nil => rfl
  | cons write writes ih =>
    rw [List.map_cons, List.mem_cons, not_or] at h
    rw [written_cons, if_neg h.1, ih h.2]

theorem OutboxEvent.written_of_mem {write : Write} (nodup : (writes.map (·.id)).Nodup)
    (hw : write ∈ writes) (hid : write.id = row.id) :
    row.written writes = write.set.apply row := by
  induction writes generalizing row with
  | nil => cases hw
  | cons head writes ih =>
    rw [List.map_cons, List.nodup_cons] at nodup
    rw [written_cons]
    rcases List.mem_cons.1 hw with rfl | hw
    · rw [if_pos hid.symm]
      exact written_of_not_mem (by rw [Assignment.apply_id, ← hid]; exact nodup.1)
    · have other : row.id ≠ head.id := by
        intro h
        exact nodup.1 (h ▸ hid ▸ List.mem_map_of_mem hw)
      rw [if_neg other]
      exact ih nodup.2 hw hid

end

end EstateServer.Outbox
