import EstateServer.Invites.Requests

/-!
# The preview of an invite code

`PreviewInviteCode` and `RedeemInviteCode` of one code in one state, with the foreign keys that the
row of a lease meets.  Both are the steps of `Invites.Requests`, taken without interruption
(`preview_steps`, `redeem_steps`).

The preview looks for the unit and its building through repositories that pass over deleted rows.
The redeem takes the unit from the payload: a deleted unit still meets the foreign key
(`redeem_of_deleted`).

`preview_iff`: the preview is right about a code exactly where no unit or building of its payload is
deleted.
-/

namespace EstateServer.Invites

open Machine Property Outbox
open Leases (BuildingRecord UnitRecord Premises Failure)

/-- Redis and the tables, with the constraints of the schema. -/
structure Database where
  store : Store
  users : List Auth.UserId
  unit_unique : Table.Unique (fun unit : UnitRecord => unit.id) store.premises.units
  building_unique : Table.Unique (fun building : BuildingRecord => building.id)
    store.premises.buildings
  /-- `Unit.buildingId`, and so on: the foreign keys. -/
  unit_building : ∀ unit ∈ store.premises.units,
    ∃ building ∈ store.premises.buildings, building.id = unit.buildingId

/-- `PreviewInviteCodeUseCase.execute`. -/
def previewInviteCode (store : Store) (code : String) : InvitePreview :=
  match store.codes code with
  | none => .invalid
  | some payload =>
    match store.premises.findUnit payload.unitId with
    | none => .invalid
    | some unit =>
      match store.premises.findBuilding unit.buildingId with
      | none => .invalid
      | some building => ⟨true, some building.name, some unit.name⟩

/-- The foreign keys of a row of `Lease`; a deleted row is still there. -/
def Database.references (db : Database) (saved : LeaseRow) : Bool :=
  saved.unitId ∈ db.store.premises.units.map (·.id) && saved.tenantId ∈ db.users

/-- `RedeemInviteCodeUseCase.execute`. -/
def redeemInviteCode (db : Database) (input : RedeemInviteCodeInput) (draw : Draw) :
    Result × Store :=
  let (payload, codes) := db.store.codes.redeem input.code
  let store := { db.store with codes }
  match payload with
  | none => (.failed (.property .invalidInviteCode), store)
  | some payload =>
    match Lease.create payload.unitId input.tenantId with
    | .error message => (.failed (.domain message), store)
    | .ok lease =>
      let saved := lease.row draw.id
      if db.references saved then
        match store.commit input saved draw with
        | some store => (.lease saved.toDomain, store)
        | none => (.aborted, store)
      else (.aborted, store)

/-! ## The statement -/

/-- The ids that are drawn are new. -/
structure Draw.Fresh (draw : Draw) (store : Store) : Prop where
  lease : draw.id ∉ store.leases.rows.map LeaseRow.id
  event : draw.outboxId ∉ store.outbox.rows.map (·.id) ∧
    draw.eventId ∉ store.outbox.rows.map (·.eventId)

/-- The request ends with a lease, whose row is new. -/
def CreatesLease (db : Database) (input : RedeemInviteCodeInput) (draw : Draw) : Prop :=
  ∃ row, (redeemInviteCode db input draw).1 = .lease row.toDomain ∧
    (redeemInviteCode db input draw).2.leases.rows = db.store.leases.rows ++ [row]

/-- Neither the unit of the code nor its building is deleted. -/
def Standing (db : Database) (code : String) : Prop :=
  ∀ payload, db.store.codes code = some payload →
    ∀ unit ∈ db.store.premises.units, unit.id = payload.unitId →
      ∀ building ∈ db.store.premises.buildings, building.id = unit.buildingId →
        unit.deletedAt = none ∧ building.deletedAt = none

/-! ## What each request asks for -/

variable {db : Database} {store : Store} {code : String} {input : RedeemInviteCodeInput}
  {draw : Draw} {userId : Auth.UserId}

theorem findUnit_eq_some {id : UnitId} {unit : UnitRecord} :
    db.store.premises.findUnit id = some unit ↔
      unit ∈ db.store.premises.units ∧ unit.id = id ∧ unit.deletedAt = none := by
  refine (Table.find?_iff fun a ha b hb first second => ?_).trans (by simp)
  simp only [decide_eq_true_eq] at first second
  exact db.unit_unique.eq_of_mem ha hb (first.1.trans second.1.symm)

theorem findBuilding_eq_some {id : BuildingId} {building : BuildingRecord} :
    db.store.premises.findBuilding id = some building ↔
      building ∈ db.store.premises.buildings ∧ building.id = id ∧ building.deletedAt = none := by
  refine (Table.find?_iff fun a ha b hb first second => ?_).trans (by simp)
  simp only [decide_eq_true_eq] at first second
  exact db.building_unique.eq_of_mem ha hb (first.1.trans second.1.symm)

theorem preview_valid : (previewInviteCode store code).valid = true ↔
    ∃ payload unit building, store.codes code = some payload ∧
      store.premises.findUnit payload.unitId = some unit ∧
      store.premises.findBuilding unit.buildingId = some building := by
  constructor
  · intro valid
    unfold previewInviteCode at valid
    split at valid
    · cases valid
    · split at valid
      · cases valid
      · split at valid
        · cases valid
        · exact ⟨_, _, _, ‹_›, ‹_›, ‹_›⟩
  · rintro ⟨payload, unit, building, held, found, owner⟩
    simp only [previewInviteCode, held, found, owner]

/-- Nothing but a key that is there keeps the transaction from committing. -/
theorem commit_of_fresh {saved : LeaseRow} (input : RedeemInviteCodeInput)
    (fresh : draw.Fresh store) (id : saved.id = draw.id) :
    ∃ store', store.commit input saved draw = some store' ∧
      store'.leases.rows = store.leases.rows ++ [saved] := by
  have new : saved.id ∉ store.leases.rows.map LeaseRow.id := id ▸ fresh.lease
  obtain ⟨leases, inserted⟩ : ∃ leases, store.leases.insert saved = some leases :=
    ⟨_, dif_pos new⟩
  obtain ⟨outbox, added⟩ : ∃ outbox, store.outbox.add (RedeemInviteCode.event input saved draw)
      draw.traceContext draw.outboxId draw.now = some outbox :=
    ⟨_, dif_pos fresh.event⟩
  refine ⟨{ store with leases, outbox }, ?_, Table.Keyed.insert_rows inserted⟩
  rw [Store.commit, inserted, Option.bind_some, added, Option.map_some]

/-- The row of the lease of a code, and the store without the code. -/
def leaseRow (payload : InviteCodePayload) (userId : Auth.UserId) (draw : Draw) : LeaseRow :=
  ⟨draw.id, payload.unitId, userId, .active, none⟩

def Store.without (store : Store) (code : String) : Store :=
  { store with codes := (store.codes.redeem code).2 }

theorem redeem_eq {payload : InviteCodePayload} (held : db.store.codes code = some payload) :
    redeemInviteCode db ⟨some userId, code⟩ draw =
      if db.references (leaseRow payload userId draw) then
        match (db.store.without code).commit ⟨some userId, code⟩ (leaseRow payload userId draw)
          draw with
        | some store => (.lease (leaseRow payload userId draw).toDomain, store)
        | none => (.aborted, db.store.without code)
      else (.aborted, db.store.without code) := by
  have got : (db.store.codes.redeem code).1 = some payload := held
  simp only [redeemInviteCode, got, Lease.create]
  rfl

/-- The redeem asks for the payload and the foreign keys only. -/
theorem createsLease_iff (user : userId ∈ db.users) (fresh : draw.Fresh db.store) :
    CreatesLease db ⟨some userId, code⟩ draw ↔
      ∃ payload, db.store.codes code = some payload ∧
        ∃ unit ∈ db.store.premises.units, unit.id = payload.unitId := by
  cases held : db.store.codes code with
  | none =>
    have got : (db.store.codes.redeem code).1 = none := held
    simp [CreatesLease, redeemInviteCode, got]
  | some payload =>
    have references : db.references (leaseRow payload userId draw) = true ↔
        ∃ unit ∈ db.store.premises.units, unit.id = payload.unitId := by
      simp [Database.references, leaseRow, user]
    rw [CreatesLease, redeem_eq held]
    by_cases there : db.references (leaseRow payload userId draw) = true
    · have fresh : draw.Fresh (db.store.without code) := ⟨fresh.lease, fresh.event⟩
      obtain ⟨store, committed, rows⟩ := commit_of_fresh ⟨some userId, code⟩ fresh
        (show (leaseRow payload userId draw).id = draw.id from rfl)
      rw [if_pos there, committed]
      exact iff_of_true ⟨_, rfl, rows⟩ ⟨payload, rfl, references.1 there⟩
    · rw [if_neg there]
      refine iff_of_false (by rintro ⟨_, same, -⟩; cases same) ?_
      rintro ⟨_, same, unit⟩
      obtain rfl := Option.some.inj same
      exact there (references.2 unit)

/-- The preview of a code agrees with the redeem exactly where nothing of the code is deleted. -/
theorem preview_iff (user : userId ∈ db.users) (fresh : draw.Fresh db.store) :
    ((previewInviteCode db.store code).valid = true ↔ CreatesLease db ⟨some userId, code⟩ draw) ↔
      Standing db code := by
  rw [preview_valid, createsLease_iff user fresh]
  constructor
  · intro agrees payload held unit mem id building mem' id'
    obtain ⟨_, unit', building', held', found, owner⟩ := agrees.2 ⟨payload, held, unit, mem, id⟩
    obtain rfl := Option.some.inj (held.symm.trans held')
    obtain ⟨there, same, live⟩ := findUnit_eq_some.1 found
    obtain rfl := db.unit_unique.eq_of_mem mem there (id.trans same.symm)
    obtain ⟨there', same', live'⟩ := findBuilding_eq_some.1 owner
    obtain rfl := db.building_unique.eq_of_mem mem' there' (id'.trans same'.symm)
    exact ⟨live, live'⟩
  · refine fun standing => ⟨?_, ?_⟩
    · rintro ⟨payload, unit, building, held, found, owner⟩
      obtain ⟨mem, id, -⟩ := findUnit_eq_some.1 found
      exact ⟨payload, held, unit, mem, id⟩
    · rintro ⟨payload, held, unit, mem, id⟩
      obtain ⟨building, mem', id'⟩ := db.unit_building unit mem
      obtain ⟨live, live'⟩ := standing payload held unit mem id building mem' id'
      exact ⟨payload, unit, building, held, findUnit_eq_some.2 ⟨mem, id, live⟩,
        findBuilding_eq_some.2 ⟨mem', id', live'⟩⟩

/-! ## A deleted unit -/

/-- User 1 owns building 2 with unit 3, for which there is a code; the unit may be deleted. -/
def coded (deletedAt : Option Instant) : Database where
  store :=
    { premises := ⟨[⟨⟨2, 1⟩, "building", none⟩], [⟨⟨3, 2⟩, "unit", deletedAt⟩]⟩
      codes := fun code => if code = "code" then some ⟨3, 1⟩ else none
      leases := ⟨[], List.nodup_nil⟩
      outbox := ⟨[], List.nodup_nil, List.nodup_nil⟩ }
  users := [1, 5]
  unit_unique := List.nodup_singleton _
  building_unique := List.nodup_singleton _
  unit_building := by simp

def draw0 : Draw := ⟨"", 0, 0, 0, 0, []⟩

theorem draw0_fresh (deletedAt : Option Instant) : draw0.Fresh (coded deletedAt).store :=
  ⟨List.not_mem_nil, List.not_mem_nil, List.not_mem_nil⟩

theorem preview_of_coded : (previewInviteCode (coded none).store "code").valid = true ∧
    CreatesLease (coded none) ⟨some 5, "code"⟩ draw0 := by
  have standing : Standing (coded none) "code" := by
    rintro payload - unit mem - building mem' -
    rw [List.mem_singleton.1 mem, List.mem_singleton.1 mem']
    exact ⟨rfl, rfl⟩
  have valid : (previewInviteCode (coded none).store "code").valid = true := rfl
  exact ⟨valid, ((preview_iff (by decide) (draw0_fresh none)).2 standing).1 valid⟩

/-- The preview calls the code invalid, and the redeem gives a lease for the deleted unit. -/
theorem redeem_of_deleted : ¬ ((previewInviteCode (coded (some 7)).store "code").valid = true ↔
    CreatesLease (coded (some 7)) ⟨some 5, "code"⟩ draw0) := by
  intro agrees
  have creates : CreatesLease (coded (some 7)) ⟨some 5, "code"⟩ draw0 :=
    ⟨⟨0, 3, 5, .active, none⟩, rfl, rfl⟩
  cases agrees.2 creates

/-! ## The requests as steps -/

/-- A process that takes its steps without interruption. -/
inductive Leads (draw : Draw) : Store → Phase → Store → Phase → Prop
  | refl (store : Store) (phase : Phase) : Leads draw store phase store phase
  | step {store store' store'' : Store} {phase phase' phase'' : Phase}
      (act : phase.act store draw = some (store', phase'))
      (rest : Leads draw store' phase' store'' phase'') : Leads draw store phase store'' phase''

/-- Its steps are a run of the machine, in which the other processes stay where they are. -/
theorem Leads.run {store' : Store} {phase phase' : Phase} {s : State} {p : Pid}
    (leads : Leads draw store phase store' phase') (at_store : s.store = store)
    (at_phase : s.phase p = phase) :
    ∃ tr s', invites.Run Any s tr s' ∧ (∀ st ∈ tr, st.label = .step p draw) ∧
      s'.store = store' ∧ s'.phase = Function.update s.phase p phase' := by
  induction leads generalizing s with
  | refl store phase =>
    refine ⟨[], s, .refl s, List.forall_mem_nil _, at_store, ?_⟩
    rw [← at_phase, Function.update_eq_self]
  | @step store store₁ store' phase phase₁ phase' act rest ih =>
    subst at_store at_phase
    have next : invites.next s (.step p draw) =
        some ({ s with store := store₁ }.enter p phase₁) := by
      simp only [invites, State.next, act, Option.map_some]
    obtain ⟨tr, s', run, labels, store, phase⟩ :=
      ih (s := { s with store := store₁ }.enter p phase₁) rfl enter_self
    refine ⟨_, s', (Run.single trivial next).trans run, ?_, store, ?_⟩
    · rw [List.singleton_append, List.forall_mem_cons]
      exact ⟨rfl, labels⟩
    · rw [phase]
      exact Function.update_idem ..

theorem preview_steps : Leads draw store (.peek code) store
    (.done (.previewInviteCode code) (.preview (previewInviteCode store code))) := by
  unfold previewInviteCode
  cases held : store.codes code with
  | none =>
    refine .step ?_ (.refl _ _)
    rw [Phase.act, held]
  | some payload =>
    have first : Phase.act store draw (.peek code) = some (store, .previewUnit code payload) := by
      rw [Phase.act, held]
    refine .step first ?_
    cases found : store.premises.findUnit payload.unitId with
    | none =>
      refine .step ?_ (.refl _ _)
      simp only [Phase.act, found]
    | some unit =>
      have second : Phase.act store draw (.previewUnit code payload) =
          some (store, .previewBuilding code unit) := by
        rw [Phase.act, found]
      refine .step second (.step ?_ (.refl _ _))
      cases owner : store.premises.findBuilding unit.buildingId <;>
        simp only [Phase.act, found, owner]

/-- The machine leaves out the foreign keys of the lease, which its rows always meet. -/
theorem redeem_steps
    (references : ∀ payload, db.store.codes code = some payload →
      db.references (leaseRow payload userId draw) = true)
    (fresh : draw.Fresh db.store) :
    Leads draw db.store (.redeem ⟨some userId, code⟩)
      (redeemInviteCode db ⟨some userId, code⟩ draw).2
      (.done (.redeemInviteCode ⟨some userId, code⟩)
        (redeemInviteCode db ⟨some userId, code⟩ draw).1) := by
  cases held : db.store.codes code with
  | none =>
    have got : (db.store.codes.redeem code).1 = none := held
    refine .step ?_ (.refl _ _)
    simp only [Phase.act, redeemInviteCode, got]
    rfl
  | some payload =>
    have got : (db.store.codes.redeem code).1 = some payload := held
    have fresh : draw.Fresh (db.store.without code) := ⟨fresh.lease, fresh.event⟩
    obtain ⟨store, committed, -⟩ := commit_of_fresh ⟨some userId, code⟩ fresh
      (show (leaseRow payload userId draw).id = draw.id from rfl)
    rw [redeem_eq held, if_pos (references payload held), committed]
    have first : Phase.act db.store draw (.redeem ⟨some userId, code⟩) =
        some (db.store.without code,
          .redeemed ⟨some userId, code⟩ ⟨none, payload.unitId, userId, .active, none⟩) := by
      simp only [Phase.act, got, Lease.create]
      rfl
    refine .step first (.step rfl (.step rfl (.step ?_ (.refl _ _))))
    exact congrArg (Option.map fun store => (store, Phase.done _ (.lease _))) committed

end EstateServer.Invites
