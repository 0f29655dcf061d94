import EstateServer.Auth.Domain

/-!
# Buildings, leases and invite codes

The rows of the property context that the requests below read or write, `Lease`, and the store of
invite codes.

A user id is optional where a request brings it: a token without a subject gives `undefined`.  The
other ids name a path or an entity and are never empty, so the checks of the entities for them
always pass.
-/

namespace EstateServer.Property

abbrev BuildingId := ℕ
abbrev UnitId := ℕ
abbrev LeaseId := ℕ

/-- A row of `Building`. -/
structure BuildingRow where
  id : BuildingId
  ownerId : Auth.UserId
  deriving DecidableEq, Repr

/-- A row of `Unit`. -/
structure UnitRow where
  id : UnitId
  buildingId : BuildingId
  deriving DecidableEq, Repr

inductive LeaseStatus
  | active
  | ended
  deriving DecidableEq, Repr

/-- `Lease`; without an id it is not saved yet. -/
structure Lease where
  id : Option LeaseId
  unitId : UnitId
  tenantId : Auth.UserId
  status : LeaseStatus
  endedAt : Option Instant
  deriving DecidableEq, Repr

/-- A row of `Lease`. -/
structure LeaseRow where
  id : LeaseId
  unitId : UnitId
  tenantId : Auth.UserId
  status : LeaseStatus
  endDate : Option Instant
  deriving DecidableEq, Repr

/-- `PropertyError`: the errors of the catalogue that the requests below throw. -/
inductive PropertyError
  | invalidInviteCode
  deriving DecidableEq, Repr

/-- The catalogue entry of an error. -/
def PropertyError.spec : PropertyError → AppErrorSpec
  | invalidInviteCode =>
    ⟨"PROPERTY_INVALID_INVITE_CODE", 404, "유효하지 않거나 만료된 초대코드입니다."⟩

/-- `Lease.create`; the error is the message of the `DomainError`. -/
def Lease.create (unitId : UnitId) : Option Auth.UserId → Except String Lease
  | none => .error "입주자 ID는 필수입니다."
  | some tenantId => .ok { id := none, unitId, tenantId, status := .active, endedAt := none }

/-- The row that `save` inserts. -/
def Lease.row (lease : Lease) (id : LeaseId) : LeaseRow where
  id := id
  unitId := lease.unitId
  tenantId := lease.tenantId
  status := lease.status
  endDate := none

def LeaseRow.toDomain (row : LeaseRow) : Lease where
  id := some row.id
  unitId := row.unitId
  tenantId := row.tenantId
  status := row.status
  endedAt := row.endDate

structure InviteCodePayload where
  unitId : UnitId
  issuedBy : Auth.UserId
  deriving DecidableEq, Repr

/-- The live invite codes (`invite:<code>` in Redis). -/
abbrev InviteCodes := String → Option InviteCodePayload

/-- `GETDEL`: what the code held, and the store without it. -/
def InviteCodes.redeem (codes : InviteCodes) (code : String) :
    Option InviteCodePayload × InviteCodes :=
  (codes code, fun other => if other = code then none else codes other)

end EstateServer.Property
