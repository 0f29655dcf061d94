import EstateServer.Leases.Store
import EstateServer.Library.Machine

/-!
# The requests on invite codes

Any number of processes each serve one `IssueInviteCode`, `PreviewInviteCode` or `RedeemInviteCode`.
The codes live in Redis and the leases in the database.  What a process does depends on the shared
`Store` and on its own phase only (`Phase.act`).  Meanwhile a code may expire at any step, and
`CreateBuilding` and `CreateUnit` insert rows.

`GETDEL` is one step.  The transaction of a redeem inserts the lease and its event, which become
visible when it commits; a request that fails before leaves nothing behind but the consumed code.
-/

namespace EstateServer.Invites

open Machine Property Outbox
open Leases (BuildingRecord UnitRecord Premises Failure)

abbrev Pid := ℕ

structure IssueInviteCodeInput where
  ownerId : Option Auth.UserId
  unitId : UnitId
  deriving DecidableEq, Repr

structure RedeemInviteCodeInput where
  tenantId : Option Auth.UserId
  code : String
  deriving DecidableEq, Repr

inductive Request
  | issueInviteCode (input : IssueInviteCodeInput)
  | previewInviteCode (code : String)
  | redeemInviteCode (input : RedeemInviteCodeInput)
  deriving DecidableEq, Repr

/-- `IssuedInvite`. -/
structure IssuedInvite where
  code : String
  expiresInSec : ℕ
  deriving DecidableEq, Repr

structure InvitePreview where
  valid : Bool
  buildingName : Option String
  unitName : Option String
  deriving DecidableEq, Repr

def InvitePreview.invalid : InvitePreview := ⟨false, none, none⟩

/-- `INVITE_TTL_SEC`: 24 hours. -/
def inviteTtlSec : ℕ := 60 * 60 * 24

/-- The payload of `TenantJoined`. -/
structure TenantJoined where
  unitId : UnitId
  deriving DecidableEq, Repr

/-- How a request ends. -/
inductive Result
  | issued (invite : IssuedInvite)
  | preview (preview : InvitePreview)
  | lease (lease : Lease)
  | failed (failure : Failure)
  /-- An exception of the database or of Redis, or the end of the process. -/
  | aborted
  deriving DecidableEq, Repr

/-- The random values of a step, and the time. -/
structure Draw where
  code : String
  id : LeaseId
  outboxId : OutboxId
  eventId : EventId
  now : Instant
  traceContext : TraceHeaders
  deriving DecidableEq, Repr

inductive Phase
  | idle
  | findUnit (input : IssueInviteCodeInput)
  | findBuilding (input : IssueInviteCodeInput) (unit : UnitRecord)
  | issue (input : IssueInviteCodeInput) (payload : InviteCodePayload)
  | peek (code : String)
  | previewUnit (code : String) (payload : InviteCodePayload)
  | previewBuilding (code : String) (unit : UnitRecord)
  | redeem (input : RedeemInviteCodeInput)
  | redeemed (input : RedeemInviteCodeInput) (lease : Lease)
  /-- The row is inserted, uncommitted; then its event is. -/
  | inserted (input : RedeemInviteCodeInput) (saved : LeaseRow)
  | queued (input : RedeemInviteCodeInput) (saved : LeaseRow) (draw : Draw)
  | done (request : Request) (result : Result)
  deriving DecidableEq, Repr

/-- What the processes share. -/
structure Store where
  premises : Premises
  codes : InviteCodes
  leases : Table.Keyed LeaseRow.id
  outbox : OutboxTable TenantJoined

structure State where
  store : Store
  phase : Pid → Phase

/-- The event of `RedeemInviteCodeUseCase`. -/
def RedeemInviteCode.event (input : RedeemInviteCodeInput) (saved : LeaseRow) (draw : Draw) :
    DomainEvent TenantJoined where
  eventId := draw.eventId
  eventType := .tenantJoined
  occurredAt := draw.now
  actorId := input.tenantId
  entityType := .lease
  entityId := saved.id
  payload := { unitId := saved.unitId }

/-- The commit of a lease and its event. -/
def Store.commit (store : Store) (input : RedeemInviteCodeInput) (saved : LeaseRow) (draw : Draw) :
    Option Store :=
  (store.leases.insert saved).bind fun leases =>
    (store.outbox.add (RedeemInviteCode.event input saved draw) draw.traceContext draw.outboxId
      draw.now).map fun outbox => { store with leases, outbox }

/-- The first phase of a request. -/
def Request.start : Request → Phase
  | issueInviteCode input => .findUnit input
  | previewInviteCode code => .peek code
  | redeemInviteCode input => .redeem input

/-- The request that a process serves. -/
def Phase.request : Phase → Option Request
  | idle => none
  | findUnit input => some (.issueInviteCode input)
  | findBuilding input _ => some (.issueInviteCode input)
  | issue input _ => some (.issueInviteCode input)
  | peek code => some (.previewInviteCode code)
  | previewUnit code _ => some (.previewInviteCode code)
  | previewBuilding code _ => some (.previewInviteCode code)
  | redeem input => some (.redeemInviteCode input)
  | redeemed input _ => some (.redeemInviteCode input)
  | inserted input _ => some (.redeemInviteCode input)
  | queued input _ _ => some (.redeemInviteCode input)
  | done request _ => some request

/-- The end of an `IssueInviteCode`, and so on. -/
def IssueInviteCodeInput.fail (input : IssueInviteCodeInput) (failure : Failure) : Phase :=
  .done (.issueInviteCode input) (.failed failure)

def RedeemInviteCodeInput.fail (input : RedeemInviteCodeInput) (failure : Failure) : Phase :=
  .done (.redeemInviteCode input) (.failed failure)

/-- One step of a process: what it leaves in the store, and its next phase. -/
def Phase.act (store : Store) (draw : Draw) : Phase → Option (Store × Phase)
  | idle => none
  | findUnit input =>
    match store.premises.findUnit input.unitId with
    | none => some (store, input.fail .unitNotFound)
    | some unit => some (store, .findBuilding input unit)
  | findBuilding input unit =>
    match store.premises.findBuilding unit.buildingId with
    | none => some (store, input.fail .notBuildingOwner)
    | some building =>
      -- `isOwnedBy` is false for a request without a user
      match input.ownerId with
      | none => some (store, input.fail .notBuildingOwner)
      | some ownerId =>
        if building.isOwnedBy (some ownerId) then
          some (store, .issue input { unitId := unit.id, issuedBy := ownerId })
        else some (store, input.fail .notBuildingOwner)
  | issue input payload =>
    some ({ store with codes := Function.update store.codes draw.code (some payload) },
      .done (.issueInviteCode input) (.issued ⟨draw.code, inviteTtlSec⟩))
  | peek code =>
    match store.codes code with
    | none => some (store, .done (.previewInviteCode code) (.preview .invalid))
    | some payload => some (store, .previewUnit code payload)
  | previewUnit code payload =>
    match store.premises.findUnit payload.unitId with
    | none => some (store, .done (.previewInviteCode code) (.preview .invalid))
    | some unit => some (store, .previewBuilding code unit)
  | previewBuilding code unit =>
    match store.premises.findBuilding unit.buildingId with
    | none => some (store, .done (.previewInviteCode code) (.preview .invalid))
    | some building =>
      some (store, .done (.previewInviteCode code)
        (.preview ⟨true, some building.name, some unit.name⟩))
  | redeem input =>
    let (payload, codes) := store.codes.redeem input.code
    match payload with
    | none => some ({ store with codes }, input.fail (.property .invalidInviteCode))
    | some payload =>
      match Lease.create payload.unitId input.tenantId with
      | .error message => some ({ store with codes }, input.fail (.domain message))
      | .ok lease => some ({ store with codes }, .redeemed input lease)
  | redeemed input lease => some (store, .inserted input (lease.row draw.id))
  | inserted input saved => some (store, .queued input saved draw)
  | queued input saved draw =>
    (store.commit input saved draw).map fun store =>
      (store, .done (.redeemInviteCode input) (.lease saved.toDomain))
  | done _ _ => none

inductive Label
  | arrive (p : Pid) (request : Request)
  | step (p : Pid) (draw : Draw)
  | fail (p : Pid)
  | expire (code : String)
  | createBuilding (row : BuildingRecord)
  | createUnit (row : UnitRecord)
  deriving DecidableEq, Repr

namespace State

/-- The process goes on to another phase. -/
def enter (s : State) (p : Pid) (phase : Phase) : State :=
  { s with phase := Function.update s.phase p phase }

/-- The state after a step. -/
def next (s : State) : Label → Option State
  | .arrive p request => if s.phase p = .idle then some (s.enter p request.start) else none
  | .step p draw =>
    ((s.phase p).act s.store draw).map fun (store, phase) => { s with store }.enter p phase
  | .fail p =>
    match s.phase p with
    | .done _ _ => none
    | phase => phase.request.map fun request => s.enter p (.done request .aborted)
  | .expire code =>
    if s.store.codes code = none then none
    else some { s with store.codes := Function.update s.store.codes code none }
  | .createBuilding row =>
    let buildings := s.store.premises.buildings ++ [{ row with deletedAt := none }]
    some { s with store.premises.buildings := buildings }
  | .createUnit row =>
    let units := s.store.premises.units ++ [{ row with deletedAt := none }]
    some { s with store.premises.units := units }

end State

/-- The processes at work, before any code has been issued. -/
def invites : Machine State Label where
  start s := s.store.codes = (fun _ => none) ∧ s.phase = fun _ => .idle
  next := State.next

theorem enter_self {s : State} {p : Pid} {phase : Phase} : (s.enter p phase).phase p = phase :=
  Function.update_self ..

/-! ## What a step does -/

def Request.previews : Request → Bool
  | previewInviteCode _ => true
  | _ => false

/-- The process serves a preview. -/
def Phase.previews (phase : Phase) : Bool := phase.request.any Request.previews

/-- What the steps do, case by case. -/
inductive Acts (store : Store) (draw : Draw) : Phase → Store → Phase → Prop
  | noUnit {input : IssueInviteCodeInput} :
      Acts store draw (.findUnit input) store (input.fail .unitNotFound)
  | unit {input : IssueInviteCodeInput} {unit : UnitRecord}
      (found : store.premises.findUnit input.unitId = some unit) :
      Acts store draw (.findUnit input) store (.findBuilding input unit)
  | notOwner {input : IssueInviteCodeInput} {unit : UnitRecord} :
      Acts store draw (.findBuilding input unit) store (input.fail .notBuildingOwner)
  | owner {input : IssueInviteCodeInput} {unit : UnitRecord} {building : BuildingRecord}
      {ownerId : Auth.UserId} (found : store.premises.findBuilding unit.buildingId = some building)
      (owner : input.ownerId = some ownerId) (owned : building.isOwnedBy (some ownerId) = true) :
      Acts store draw (.findBuilding input unit) store (.issue input ⟨unit.id, ownerId⟩)
  | issue {input : IssueInviteCodeInput} {payload : InviteCodePayload} :
      Acts store draw (.issue input payload)
        { store with codes := Function.update store.codes draw.code (some payload) }
        (.done (.issueInviteCode input) (.issued ⟨draw.code, inviteTtlSec⟩))
  | preview {before after : Phase} (previewing : before.previews = true)
      (undone : ∀ request result, before ≠ .done request result) (still : after.previews = true) :
      Acts store draw before store after
  | unknown {input : RedeemInviteCodeInput} (gone : store.codes input.code = none) :
      Acts store draw (.redeem input) store (input.fail (.property .invalidInviteCode))
  | refuse {input : RedeemInviteCodeInput} {payload : InviteCodePayload} {message : String}
      (held : store.codes input.code = some payload) :
      Acts store draw (.redeem input) { store with codes := (store.codes.redeem input.code).2 }
        (input.fail (.domain message))
  | redeem {input : RedeemInviteCodeInput} {payload : InviteCodePayload} {tenantId : Auth.UserId}
      (held : store.codes input.code = some payload) (tenant : input.tenantId = some tenantId) :
      Acts store draw (.redeem input) { store with codes := (store.codes.redeem input.code).2 }
        (.redeemed input ⟨none, payload.unitId, tenantId, .active, none⟩)
  | insert {input : RedeemInviteCodeInput} {lease : Lease} :
      Acts store draw (.redeemed input lease) store (.inserted input (lease.row draw.id))
  | queue {input : RedeemInviteCodeInput} {saved : LeaseRow} :
      Acts store draw (.inserted input saved) store (.queued input saved draw)
  | commit {input : RedeemInviteCodeInput} {saved : LeaseRow} {draw' : Draw}
      {leases : Table.Keyed LeaseRow.id} {outbox : OutboxTable TenantJoined}
      (inserted : leases.rows = store.leases.rows ++ [saved]) :
      Acts store draw (.queued input saved draw') { store with leases, outbox }
        (.done (.redeemInviteCode input) (.lease saved.toDomain))

/-- `GETDEL` of a missing key. -/
theorem redeem_of_gone {codes : InviteCodes} {code : String} (gone : codes code = none) :
    (codes.redeem code).2 = codes := by
  funext other
  simp only [InviteCodes.redeem]
  split_ifs with same
  · rw [same, gone]
  · rfl

namespace Acts

variable {store store' : Store} {draw : Draw} {before after : Phase}

theorem of_redeem {input : RedeemInviteCodeInput}
    (h : (Phase.redeem input).act store draw = some (store', after)) :
    Acts store draw (.redeem input) store' after := by
  have gone : store.codes input.code = none → (store.codes.redeem input.code).2 = store.codes :=
    redeem_of_gone
  have got : (store.codes.redeem input.code).1 = store.codes input.code := rfl
  simp only [Phase.act] at h
  cases held : store.codes input.code with
  | none =>
    simp only [got, held, gone held, Option.some.injEq, Prod.mk.injEq] at h
    obtain ⟨rfl, rfl⟩ := h
    exact .unknown held
  | some payload =>
    cases tenant : input.tenantId with
    | none =>
      simp only [got, held, tenant, Lease.create, Option.some.injEq, Prod.mk.injEq] at h
      obtain ⟨rfl, rfl⟩ := h
      exact .refuse held
    | some tenantId =>
      simp only [got, held, tenant, Lease.create, Option.some.injEq, Prod.mk.injEq] at h
      obtain ⟨rfl, rfl⟩ := h
      exact .redeem held tenant

theorem of_act (h : before.act store draw = some (store', after)) :
    Acts store draw before store' after := by
  cases before with
  | idle => cases h
  | done => cases h
  | redeem => exact of_redeem h
  | findUnit input =>
    simp only [Phase.act] at h
    split at h <;> obtain ⟨rfl, rfl⟩ := Prod.mk.inj (Option.some.inj h)
    · exact .noUnit
    · exact .unit ‹_›
  | findBuilding input unit =>
    simp only [Phase.act] at h
    split at h
    · obtain ⟨rfl, rfl⟩ := Prod.mk.inj (Option.some.inj h)
      exact .notOwner
    · split at h
      · obtain ⟨rfl, rfl⟩ := Prod.mk.inj (Option.some.inj h)
        exact .notOwner
      · split_ifs at h with owned <;> obtain ⟨rfl, rfl⟩ := Prod.mk.inj (Option.some.inj h)
        · exact .owner ‹_› ‹_› owned
        · exact .notOwner
  | queued input saved draw' =>
    obtain ⟨committed, new, same⟩ := Option.map_eq_some_iff.1 h
    obtain ⟨rfl, rfl⟩ := Prod.mk.inj same
    obtain ⟨leases, inserted, new⟩ := Option.bind_eq_some_iff.1 new
    obtain ⟨outbox, -, rfl⟩ := Option.map_eq_some_iff.1 new
    exact .commit (Table.Keyed.insert_rows inserted)
  | peek code =>
    simp only [Phase.act] at h
    split at h <;> obtain ⟨rfl, rfl⟩ := Prod.mk.inj (Option.some.inj h) <;>
      exact .preview rfl (by simp) rfl
  | previewUnit code payload =>
    simp only [Phase.act] at h
    split at h <;> obtain ⟨rfl, rfl⟩ := Prod.mk.inj (Option.some.inj h) <;>
      exact .preview rfl (by simp) rfl
  | previewBuilding code unit =>
    simp only [Phase.act] at h
    split at h <;> obtain ⟨rfl, rfl⟩ := Prod.mk.inj (Option.some.inj h) <;>
      exact .preview rfl (by simp) rfl
  | issue =>
    obtain ⟨rfl, rfl⟩ := Prod.mk.inj (Option.some.inj h)
    exact .issue
  | redeemed =>
    obtain ⟨rfl, rfl⟩ := Prod.mk.inj (Option.some.inj h)
    exact .insert
  | inserted =>
    obtain ⟨rfl, rfl⟩ := Prod.mk.inj (Option.some.inj h)
    exact .queue

end Acts

end EstateServer.Invites
