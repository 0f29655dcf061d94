import EstateServer.Board.Repository
import EstateServer.Invites.Requests
import EstateServer.Leases.EndLease
import EstateServer.Library.Log

/-!
# Buildings, units, invites and leases at work together

Any number of processes serve the requests of the property context on one database: `CreateBuilding`
and `CreateUnit` (here), the requests on invite codes (`EstateServer.Invites`) and `EndLease`
(`EstateServer.Leases`).  A step of any of them is a step of `tenancy`.

The inserts of buildings and units that `EstateServer.Invites` leaves open are made by the requests
here.  The events of joins and ends are rows of one outbox, kept in two tables by the type of their
payloads.
-/

namespace EstateServer.Tenancy

open Machine Property Outbox
open Leases (BuildingRecord UnitRecord Premises LeaseEnded)

abbrev Pid := ℕ

structure CreateBuildingInput where
  ownerId : Option Auth.UserId
  name : String
  address : String
  deriving DecidableEq, Repr

structure CreateUnitInput where
  ownerId : Option Auth.UserId
  buildingId : BuildingId
  name : String
  floor : ℤ
  deriving DecidableEq, Repr

inductive Failure
  /-- `PropertyError.BUILDING_NOT_FOUND`, and so on. -/
  | buildingNotFound
  | notBuildingOwner
  /-- A `DomainError` with its message. -/
  | domain (message : String)
  deriving DecidableEq, Repr

/-- The catalogue entry of a failure; a `DomainError` has none. -/
def Failure.spec : Failure → Option AppErrorSpec
  | buildingNotFound => some ⟨"PROPERTY_BUILDING_NOT_FOUND", 404, "건물을 찾을 수 없습니다."⟩
  | notBuildingOwner => Leases.Failure.notBuildingOwner.spec
  | domain _ => none

/-- A row of `Building` or `Unit`, with the column that `Premises` leaves out. -/
inductive Saved
  | building (row : BuildingRecord) (address : String)
  | unit (row : UnitRecord) (floor : ℤ)
  deriving DecidableEq, Repr

/-- How a request ends. -/
inductive Result
  | saved (row : Saved)
  | failed (failure : Failure)
  /-- An exception of the database, or the end of the process. -/
  | aborted
  deriving DecidableEq, Repr

inductive Request
  | createBuilding (input : CreateBuildingInput)
  | createUnit (input : CreateUnitInput)
  deriving DecidableEq, Repr

inductive Phase
  | idle
  /-- Before the `INSERT` of the building. -/
  | saveBuilding (ownerId : Auth.UserId) (name address : String)
  /-- Before `findById` of the building. -/
  | findBuilding (input : CreateUnitInput)
  /-- Before the `INSERT` of the unit. -/
  | saveUnit (ownerId : Auth.UserId) (input : CreateUnitInput)
  | done (result : Result)
  deriving DecidableEq, Repr

def Phase.fail (failure : Failure) : Phase := .done (.failed failure)

/-- `Building.create`; the error is the message of the `DomainError`. -/
def Building.create (ownerId : Option Auth.UserId) (name : String) : Except String Auth.UserId :=
  match ownerId with
  | none => .error "건물 소유자 ID는 필수입니다."
  | some ownerId => if name = "" then .error "건물 이름은 필수입니다." else .ok ownerId

/-- `Unit.create`: a unit needs a name. -/
def Unit.create (name : String) : Except String Unit :=
  if name = "" then .error "호실 이름은 필수입니다." else .ok ()

/-- The first phase of a request. -/
def Request.start : Request → Phase
  | createBuilding input =>
    match Building.create input.ownerId input.name with
    | .error message => .fail (.domain message)
    | .ok ownerId => .saveBuilding ownerId input.name input.address
  | createUnit input => .findBuilding input

structure State where
  invites : Invites.State
  /-- The columns that only the requests here write. -/
  address : BuildingId → Option String
  floor : UnitId → Option ℤ
  ended : OutboxTable LeaseEnded
  leaseLock : Locks LeaseId Pid
  ending : Pid → Leases.Phase
  phase : Pid → Phase

namespace State

def premises (s : State) : Premises := s.invites.store.premises

def leases (s : State) : Table.Keyed LeaseRow.id := s.invites.store.leases

/-- What `EndLease` sees of the state. -/
def endings (s : State) : Leases.State where
  premises := s.premises
  leases := s.leases
  outbox := s.ended
  leaseLock := s.leaseLock
  phase := s.ending

/-- The state after a step of an `EndLease`, which leaves buildings and units alone. -/
def withEndings (s : State) (t : Leases.State) : State :=
  { s with
    invites.store.leases := t.leases
    ended := t.outbox
    leaseLock := t.leaseLock
    ending := t.phase }

/-- The process goes on to another phase. -/
def enter (s : State) (p : Pid) (phase : Phase) : State :=
  { s with phase := Function.update s.phase p phase }

/-- `PrismaBuildingRepository.save`. -/
def saveBuilding (s : State) (row : BuildingRecord) (address : String) : Option State :=
  if row.id ∉ s.premises.buildings.map (·.id) then
    some { s with
      invites.store.premises.buildings := s.premises.buildings ++ [row]
      address := Function.update s.address row.id (some address) }
  else none

/-- `PrismaUnitRepository.save`; the building is a foreign key. -/
def saveUnit (s : State) (row : UnitRecord) (floor : ℤ) : Option State :=
  if row.id ∉ s.premises.units.map (·.id) ∧ row.buildingId ∈ s.premises.buildings.map (·.id) then
    some { s with
      invites.store.premises.units := s.premises.units ++ [row]
      floor := Function.update s.floor row.id (some floor) }
  else none

/-- `PrismaMembershipChecker.isMember`. -/
def isMember (s : State) (userId : Option Auth.UserId) (buildingId : BuildingId) : Bool :=
  Board.ownsBuilding (s.premises.buildings.map (·.toBuildingRow)) userId buildingId ||
    Board.leasesIn s.leases.rows (s.premises.units.map (·.toUnitRow)) userId buildingId

end State

/-- A step of the process `p`; `id` is the `cuid()` of a new row. -/
def Phase.step (s : State) (p : Pid) (id : ℕ) : Phase → Option State
  | idle => none
  | saveBuilding ownerId name address =>
    let row : BuildingRecord := { id, ownerId, name, deletedAt := none }
    (s.saveBuilding row address).map (·.enter p (.done (.saved (.building row address))))
  | findBuilding input =>
    match s.premises.findBuilding input.buildingId with
    | none => some (s.enter p (.fail .buildingNotFound))
    | some building =>
      if !building.isOwnedBy input.ownerId then some (s.enter p (.fail .notBuildingOwner))
      else
        match Unit.create input.name with
        | .error message => some (s.enter p (.fail (.domain message)))
        | .ok _ => some (s.enter p (.saveUnit building.ownerId input))
  | saveUnit _ input =>
    let row : UnitRecord :=
      { id, buildingId := input.buildingId, name := input.name, deletedAt := none }
    (s.saveUnit row input.floor).map (·.enter p (.done (.saved (.unit row input.floor))))
  | done _ => none

inductive Label
  | arrive (p : Pid) (request : Request)
  | step (p : Pid) (id : ℕ)
  | fail (p : Pid)
  | invite (a : Invites.Label)
  | ending (a : Leases.Label)
  deriving DecidableEq, Repr

/-- The steps of `EstateServer.Invites` that are steps of the requests there. -/
def requested : Invites.Label → Bool
  | .createBuilding _ => false
  | .createUnit _ => false
  | _ => true

/-- The state after a step. -/
def State.next (s : State) : Label → Option State
  | .arrive p request => if s.phase p = .idle then some (s.enter p request.start) else none
  | .step p id => (s.phase p).step s p id
  | .fail p =>
    match s.phase p with
    | .idle => none
    | .done _ => none
    | _ => some (s.enter p (.done .aborted))
  | .invite a =>
    if requested a then (Invites.invites.next s.invites a).map fun invites => { s with invites }
    else none
  | .ending a => (Leases.endings.next s.endings a).map s.withEndings

/-- The requests of the property context, on an empty database. -/
def tenancy : Machine State Label where
  start s := s.premises = ⟨[], []⟩ ∧ s.leases.rows = [] ∧ Invites.invites.start s.invites ∧
    Leases.endings.start s.endings ∧ s.phase = fun _ => .idle
  next := State.next

section

variable (s : State) {p q : Pid} (phase : Phase)

@[simp] theorem enter_phase_self : (s.enter p phase).phase p = phase := by simp [State.enter]

theorem enter_phase_of_ne (h : q ≠ p) : (s.enter p phase).phase q = s.phase q := by
  simp [State.enter, h]

end

/-! ## What a step does -/

/-- What the steps do, case by case. -/
inductive Moves (s : State) : Label → State → Prop
  | arrive {p : Pid} {request : Request} :
      Moves s (.arrive p request) (s.enter p request.start)
  | built {p : Pid} {id : ℕ} {ownerId : Auth.UserId} {name address : String}
      (at_save : s.phase p = .saveBuilding ownerId name address)
      (fresh : id ∉ s.premises.buildings.map (·.id)) :
      Moves s (.step p id) (State.enter { s with
        invites.store.premises.buildings := s.premises.buildings ++ [⟨⟨id, ownerId⟩, name, none⟩]
        address := Function.update s.address id (some address) } p
        (.done (.saved (.building ⟨⟨id, ownerId⟩, name, none⟩ address))))
  | refused {p : Pid} {id : ℕ} {input : CreateUnitInput} {failure : Failure}
      (at_find : s.phase p = .findBuilding input) :
      Moves s (.step p id) (s.enter p (.fail failure))
  | owner {p : Pid} {id : ℕ} {input : CreateUnitInput} {building : BuildingRecord}
      (at_find : s.phase p = .findBuilding input)
      (found : s.premises.findBuilding input.buildingId = some building)
      (owned : input.ownerId = some building.ownerId) :
      Moves s (.step p id) (s.enter p (.saveUnit building.ownerId input))
  | added {p : Pid} {id : ℕ} {ownerId : Auth.UserId} {input : CreateUnitInput}
      (at_save : s.phase p = .saveUnit ownerId input)
      (fresh : id ∉ s.premises.units.map (·.id)) :
      Moves s (.step p id) (State.enter { s with
        invites.store.premises.units :=
          s.premises.units ++ [⟨⟨id, input.buildingId⟩, input.name, none⟩]
        floor := Function.update s.floor id (some input.floor) } p
        (.done (.saved (.unit ⟨⟨id, input.buildingId⟩, input.name, none⟩ input.floor))))
  | fail {p : Pid} : Moves s (.fail p) (s.enter p (.done .aborted))
  | invite {a : Invites.Label} {invites : Invites.State} (own : requested a = true)
      (next : Invites.invites.next s.invites a = some invites) :
      Moves s (.invite a) { s with invites }
  | ending {a : Leases.Label} {t : Leases.State}
      (next : Leases.endings.next s.endings a = some t) : Moves s (.ending a) (s.withEndings t)

namespace Moves

variable {s s' : State} {a : Label}

theorem of_step {p : Pid} {id : ℕ} (h : (s.phase p).step s p id = some s') :
    Moves s (.step p id) s' := by
  generalize at_phase : s.phase p = phase at h
  cases phase with
  | idle => cases h
  | done => cases h
  | saveBuilding ownerId name address =>
    obtain ⟨saved, inserted, rfl⟩ := Option.map_eq_some_iff.1 h
    simp only [State.saveBuilding, Option.ite_none_right_eq_some, Option.some.injEq] at inserted
    obtain ⟨fresh, rfl⟩ := inserted
    exact .built at_phase fresh
  | findBuilding input =>
    simp only [Phase.step] at h
    split at h
    · obtain rfl := Option.some.inj h
      exact .refused at_phase
    · rename_i building found
      split_ifs at h with other
      · obtain rfl := Option.some.inj h
        exact .refused at_phase
      · have owned : building.isOwnedBy input.ownerId = true := by simpa using other
        have owned : input.ownerId = some building.ownerId := (of_decide_eq_true owned).symm
        split at h <;> obtain rfl := Option.some.inj h
        · exact .refused at_phase
        · exact .owner at_phase found owned
  | saveUnit ownerId input =>
    obtain ⟨saved, inserted, rfl⟩ := Option.map_eq_some_iff.1 h
    simp only [State.saveUnit, Option.ite_none_right_eq_some, Option.some.injEq] at inserted
    obtain ⟨⟨fresh, -⟩, rfl⟩ := inserted
    exact .added at_phase fresh

theorem of_next (h : tenancy.next s a = some s') : Moves s a s' := by
  cases a with
  | arrive p request =>
    obtain ⟨-, h⟩ := Option.ite_none_right_eq_some.1 h
    obtain rfl := Option.some.inj h
    exact .arrive
  | step p id => exact of_step h
  | fail p =>
    simp only [tenancy, State.next] at h
    split at h
    · cases h
    · cases h
    · obtain rfl := Option.some.inj h
      exact .fail
  | invite a =>
    obtain ⟨own, h⟩ := Option.ite_none_right_eq_some.1 h
    obtain ⟨invites, next, rfl⟩ := Option.map_eq_some_iff.1 h
    exact .invite own next
  | ending a =>
    obtain ⟨t, next, rfl⟩ := Option.map_eq_some_iff.1 h
    exact .ending next

end Moves

end EstateServer.Tenancy
