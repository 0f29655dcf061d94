import EstateServer.Outbox.Store
import EstateServer.Property.Domain
import Mathlib.Logic.Function.Basic

/-!
# Buildings, units and the errors of the lease requests

The rows that `PrismaUnitRepository` and `PrismaBuildingRepository` find, and the entries of the error
catalogue that the requests on leases and invite codes throw.
-/

namespace EstateServer.Leases

open Property

/-- A row of `Building`; a `Building` has the same fields. -/
structure BuildingRecord extends BuildingRow where
  name : String
  deletedAt : Option Instant
  deriving DecidableEq, Repr

/-- A row of `Unit`; a `Unit` has the same fields. -/
structure UnitRecord extends UnitRow where
  name : String
  deletedAt : Option Instant
  deriving DecidableEq, Repr

/-- The buildings and their units, which no request below changes. -/
structure Premises where
  buildings : List BuildingRecord
  units : List UnitRecord
  deriving DecidableEq, Repr

namespace Premises

variable (premises : Premises)

/-- `PrismaUnitRepository.findById`. -/
def findUnit (id : UnitId) : Option UnitRecord :=
  premises.units.find? fun row => row.id = id ∧ row.deletedAt = none

/-- `PrismaBuildingRepository.findById`. -/
def findBuilding (id : BuildingId) : Option BuildingRecord :=
  premises.buildings.find? fun row => row.id = id ∧ row.deletedAt = none

end Premises

/-- `Building.isOwnedBy`. -/
def BuildingRecord.isOwnedBy (building : BuildingRecord) (userId : Option Auth.UserId) : Bool :=
  some building.ownerId = userId

inductive Failure
  | property (error : PropertyError)
  /-- `PropertyError.NOT_BUILDING_OWNER`, and so on. -/
  | notBuildingOwner
  | unitNotFound
  | leaseNotFound
  | leaseAlreadyEnded
  /-- A `DomainError` with its message. -/
  | domain (message : String)
  deriving DecidableEq, Repr

/-- The catalogue entry of a failure; a `DomainError` has none. -/
def Failure.spec : Failure → Option AppErrorSpec
  | property error => some error.spec
  | notBuildingOwner => some ⟨"PROPERTY_NOT_BUILDING_OWNER", 403, "건물 소유자만 할 수 있습니다."⟩
  | unitNotFound => some ⟨"PROPERTY_UNIT_NOT_FOUND", 404, "호실을 찾을 수 없습니다."⟩
  | leaseNotFound => some ⟨"PROPERTY_LEASE_NOT_FOUND", 404, "계약을 찾을 수 없습니다."⟩
  | leaseAlreadyEnded => some ⟨"PROPERTY_LEASE_ALREADY_ENDED", 409, "이미 종료된 계약입니다."⟩
  | domain _ => none

/-- `Lease.end`; the error is the message of the `DomainError`. -/
def endLease (lease : Lease) (now : Instant) : Except String Lease :=
  if lease.status = .ended then .error "이미 종료된 계약입니다."
  else .ok { lease with status := .ended, endedAt := some now }

end EstateServer.Leases
