import EstateServer.Leases.Store
import EstateServer.Library.Machine

/-!
# Ending a lease

Any number of processes each serve one `EndLease`, under PostgreSQL's READ COMMITTED.  The status of
the lease is checked on the row that was read before the transaction; the `UPDATE` in the transaction
waits for the row and has no condition on the status.

`Moves` is what a step does, case by case.
-/

namespace EstateServer.Leases

open Machine Property Outbox

abbrev Pid := ℕ

structure EndLeaseInput where
  userId : Option Auth.UserId
  leaseId : LeaseId
  deriving DecidableEq, Repr

/-- The payload of `LeaseEnded`. -/
structure LeaseEnded where
  unitId : UnitId
  endedAt : Option Instant
  deriving DecidableEq, Repr

/-- How a request ends. -/
inductive Result
  | lease (lease : Lease)
  | failed (failure : Failure)
  /-- An exception of the database, or the end of the process. -/
  | aborted
  deriving DecidableEq, Repr

/-- The random values of a step, and the time. -/
structure Draw where
  outboxId : OutboxId
  eventId : EventId
  now : Instant
  traceContext : TraceHeaders
  deriving DecidableEq, Repr

inductive Phase
  | idle
  | findLease (input : EndLeaseInput)
  | findUnit (input : EndLeaseInput) (lease : Lease)
  | findBuilding (input : EndLeaseInput) (lease : Lease) (unit : UnitRecord)
  /-- Before the `UPDATE`. -/
  | update (input : EndLeaseInput) (ended : Lease)
  /-- The row is written, uncommitted; then its event is. -/
  | updated (input : EndLeaseInput) (saved : LeaseRow)
  | queued (input : EndLeaseInput) (saved : LeaseRow) (draw : Draw)
  | done (input : EndLeaseInput) (result : Result)
  deriving DecidableEq, Repr

structure State where
  premises : Premises
  leases : Table.Keyed LeaseRow.id
  outbox : OutboxTable LeaseEnded
  /-- The transaction that has written a lease. -/
  leaseLock : Locks LeaseId Pid
  phase : Pid → Phase

namespace State

/-- The process goes on to another phase. -/
def enter (s : State) (p : Pid) (phase : Phase) : State :=
  { s with phase := Function.update s.phase p phase }

/-- The transaction of the process ends, and the process goes on. -/
def close (s : State) (p : Pid) (phase : Phase) : State :=
  { s with leaseLock := s.leaseLock.release p, phase := Function.update s.phase p phase }

/-- `PrismaLeaseRepository.findById`. -/
def findLease (s : State) (id : LeaseId) : Option Lease :=
  (s.leases.rows.find? fun row => row.id = id).map (·.toDomain)

end State

/-- The event of `EndLeaseUseCase`. -/
def EndLease.event (input : EndLeaseInput) (saved : LeaseRow) (draw : Draw) :
    DomainEvent LeaseEnded where
  eventId := draw.eventId
  eventType := .leaseEnded
  occurredAt := draw.now
  actorId := input.userId
  entityType := .lease
  entityId := saved.id
  payload := { unitId := saved.unitId, endedAt := saved.endDate }

/-- The input of the request that a process serves. -/
def Phase.input : Phase → Option EndLeaseInput
  | idle => none
  | findLease input => some input
  | findUnit input _ => some input
  | findBuilding input _ _ => some input
  | update input _ => some input
  | updated input _ => some input
  | queued input _ _ => some input
  | done input _ => some input

/-- The next phase, where the step writes nothing. -/
def Phase.read (s : State) (draw : Draw) : Phase → Option Phase
  | findLease input =>
    match s.findLease input.leaseId with
    | none => some (.done input (.failed .leaseNotFound))
    | some lease => some (.findUnit input lease)
  | findUnit input lease =>
    match s.premises.findUnit lease.unitId with
    | none => some (.done input (.failed .unitNotFound))
    | some unit => some (.findBuilding input lease unit)
  | findBuilding input lease unit =>
    match s.premises.findBuilding unit.buildingId with
    | none => some (.done input (.failed .notBuildingOwner))
    | some building =>
      if !building.isOwnedBy input.userId then some (.done input (.failed .notBuildingOwner))
      else
        match endLease lease draw.now with
        | .error _ => some (.done input (.failed .leaseAlreadyEnded))
        | .ok ended => some (.update input ended)
  | updated input saved => some (.queued input saved draw)
  | _ => none

/-- A step of the process `p`. -/
def Phase.step (s : State) (p : Pid) (draw : Draw) : Phase → Option State
  | update input ended =>
    match s.leases.rows.find? fun row => some row.id = ended.id with
    -- Prisma throws when the row is missing
    | none => some (s.enter p (.done input .aborted))
    | some row =>
      if s.leaseLock.available p row.id then
        some ({ s with leaseLock := s.leaseLock.acquire p [row.id] }.enter p
          (.updated input { row with status := ended.status, endDate := ended.endedAt }))
      else none
  | queued input saved draw' =>
    (s.outbox.add (EndLease.event input saved draw') draw'.traceContext draw'.outboxId draw'.now).map
      fun outbox =>
        { s with
          outbox
          leases := s.leases.update (fun row => row.id = saved.id)
            (fun row => { row with status := saved.status, endDate := saved.endDate })
            fun _ => rfl }.close p (.done input (.lease saved.toDomain))
  | phase => (phase.read s draw).map (s.enter p)

inductive Label
  | arrive (p : Pid) (input : EndLeaseInput)
  | step (p : Pid) (draw : Draw)
  | fail (p : Pid)
  deriving DecidableEq, Repr

/-- The state after a step. -/
def State.next (s : State) : Label → Option State
  | .arrive p input => if s.phase p = .idle then some (s.enter p (.findLease input)) else none
  | .step p draw => (s.phase p).step s p draw
  | .fail p =>
    match s.phase p with
    | .idle => none
    | .done _ _ => none
    | phase => phase.input.map fun input => s.close p (.done input .aborted)

/-- The processes at work on any leases; an active lease has no end. -/
def endings : Machine State Label where
  start s := (∀ row ∈ s.leases.rows, row.status = .active → row.endDate = none) ∧
    s.outbox.rows = [] ∧ s.leaseLock = Locks.free ∧ s.phase = fun _ => .idle
  next := State.next

/-! ## What a step does -/

/-- What the steps do that only read, case by case. -/
inductive Reads (s : State) (draw : Draw) : Phase → Phase → Prop
  | noLease {input : EndLeaseInput} (missing : s.findLease input.leaseId = none) :
      Reads s draw (.findLease input) (.done input (.failed .leaseNotFound))
  | lease {input : EndLeaseInput} {lease : Lease} (found : s.findLease input.leaseId = some lease) :
      Reads s draw (.findLease input) (.findUnit input lease)
  | noUnit {input : EndLeaseInput} {lease : Lease}
      (missing : s.premises.findUnit lease.unitId = none) :
      Reads s draw (.findUnit input lease) (.done input (.failed .unitNotFound))
  | unit {input : EndLeaseInput} {lease : Lease} {unit : UnitRecord}
      (found : s.premises.findUnit lease.unitId = some unit) :
      Reads s draw (.findUnit input lease) (.findBuilding input lease unit)
  | notOwner {input : EndLeaseInput} {lease : Lease} {unit : UnitRecord}
      (not : ∀ building, s.premises.findBuilding unit.buildingId = some building →
        building.isOwnedBy input.userId = false) :
      Reads s draw (.findBuilding input lease unit) (.done input (.failed .notBuildingOwner))
  | ended {input : EndLeaseInput} {lease : Lease} {unit : UnitRecord} :
      Reads s draw (.findBuilding input lease unit) (.done input (.failed .leaseAlreadyEnded))
  | active {input : EndLeaseInput} {lease : Lease} {unit : UnitRecord}
      (active : lease.status = .active) :
      Reads s draw (.findBuilding input lease unit)
        (.update input { lease with status := .ended, endedAt := some draw.now })
  | queue {input : EndLeaseInput} {saved : LeaseRow} :
      Reads s draw (.updated input saved) (.queued input saved draw)

theorem Reads.of_read {s : State} {draw : Draw} {before after : Phase}
    (h : before.read s draw = some after) : Reads s draw before after := by
  cases before <;> simp only [Phase.read] at h
  case findLease input =>
    split at h <;> rw [← Option.some.inj h]
    · exact .noLease ‹_›
    · exact .lease ‹_›
  case findUnit input lease =>
    split at h <;> rw [← Option.some.inj h]
    · exact .noUnit ‹_›
    · exact .unit ‹_›
  case findBuilding input lease unit =>
    split at h
    · rename_i missing
      rw [← Option.some.inj h]
      exact .notOwner (by simp [missing])
    · rename_i building found
      split_ifs at h with other
      · rw [← Option.some.inj h]
        exact .notOwner (by simpa [found] using other)
      · split at h <;> rename_i ok <;> rw [← Option.some.inj h]
        · exact .ended
        · unfold endLease at ok
          split_ifs at ok with status
          rw [← Except.ok.inj ok]
          refine .active ?_
          cases hstatus : lease.status with
          | active => rfl
          | ended => exact absurd hstatus status
  case updated input saved =>
    rw [← Option.some.inj h]
    exact .queue
  all_goals cases h

/-- The row that `add` inserts for a lease. -/
def eventRow (input : EndLeaseInput) (saved : LeaseRow) (draw : Draw) : OutboxEvent LeaseEnded :=
  newRow (EndLease.event input saved draw) draw.traceContext draw.outboxId draw.now

/-- The leases after a commit. -/
def State.saves (s : State) (saved : LeaseRow) : Table.Keyed LeaseRow.id :=
  s.leases.update (fun row => row.id = saved.id)
    (fun row => { row with status := saved.status, endDate := saved.endDate }) fun _ => rfl

/-- What the steps do, case by case. -/
inductive Moves (s : State) : Label → State → Prop
  | arrive {p : Pid} {input : EndLeaseInput} (idle : s.phase p = .idle) :
      Moves s (.arrive p input) (s.enter p (.findLease input))
  | read {p : Pid} {draw : Draw} {phase : Phase} (reads : Reads s draw (s.phase p) phase) :
      Moves s (.step p draw) (s.enter p phase)
  | missing {p : Pid} {draw : Draw} {input : EndLeaseInput} {ended : Lease}
      (at_update : s.phase p = .update input ended) :
      Moves s (.step p draw) (s.enter p (.done input .aborted))
  | update {p : Pid} {draw : Draw} {input : EndLeaseInput} {ended : Lease} {row : LeaseRow}
      (at_update : s.phase p = .update input ended) (mem : row ∈ s.leases.rows)
      (id : some row.id = ended.id) :
      Moves s (.step p draw)
        ({ s with leaseLock := s.leaseLock.acquire p [row.id] }.enter p
          (.updated input { row with status := ended.status, endDate := ended.endedAt }))
  | commit {p : Pid} {draw draw' : Draw} {input : EndLeaseInput} {saved : LeaseRow}
      {outbox : OutboxTable LeaseEnded} (at_queued : s.phase p = .queued input saved draw')
      (added : outbox.rows = s.outbox.rows ++ [eventRow input saved draw']) :
      Moves s (.step p draw)
        ({ s with outbox, leases := s.saves saved }.close p (.done input (.lease saved.toDomain)))
  | fail {p : Pid} {input : EndLeaseInput} (undone : ∀ input result, s.phase p ≠ .done input result) :
      Moves s (.fail p) (s.close p (.done input .aborted))

namespace Moves

variable {s s' : State}

theorem steps {p : Pid} {draw : Draw} (h : (s.phase p).step s p draw = some s') :
    Moves s (.step p draw) s' := by
  generalize hphase : s.phase p = phase at h
  have reads : (phase.read s draw).map (s.enter p) = some s' → Moves s (.step p draw) s' := by
    intro h
    obtain ⟨after, h, rfl⟩ := Option.map_eq_some_iff.1 h
    exact .read (.of_read (by rwa [hphase]))
  cases phase with
  | update input ended =>
    simp only [Phase.step] at h
    split at h
    · rw [← Option.some.inj h]
      exact .missing hphase
    · rename_i row found
      split_ifs at h
      rw [← Option.some.inj h]
      exact .update hphase (List.mem_of_find?_eq_some found) (by simpa using List.find?_some found)
  | queued input saved draw' =>
    obtain ⟨outbox, added, rfl⟩ := Option.map_eq_some_iff.1 h
    exact .commit hphase (OutboxTable.add_rows added)
  | _ => exact reads h

theorem of_next {a : Label} (h : endings.next s a = some s') : Moves s a s' := by
  cases a with
  | arrive p input =>
    simp only [endings, State.next] at h
    split_ifs at h with idle
    rw [← Option.some.inj h]
    exact .arrive idle
  | step p draw => exact steps h
  | fail p =>
    simp only [endings, State.next] at h
    split at h
    · cases h
    · cases h
    · rename_i undone
      obtain ⟨input, -, rfl⟩ := Option.map_eq_some_iff.1 h
      exact .fail undone

end Moves

end EstateServer.Leases
