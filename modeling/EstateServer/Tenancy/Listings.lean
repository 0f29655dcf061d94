import EstateServer.Tenancy.Membership

/-!
# What the listings of the property context show

`ListMyBuildings`, `ListBuildingUnits` and `ListMyLeases` read several tables one after the other,
while the other requests go on.  `ListMyLeases` reads the leases of the caller first, and then looks
up the unit and the building of each, each lookup at a time of its own.

Buildings and units are never changed or deleted by a request (`Grows`), so the lookups cannot miss:
`listings` says that each list has a line for every row that belongs on it and no other, with the
columns of that row, and that together the lists agree with `isMember`.
-/

namespace EstateServer.Tenancy

open Machine Property
open Leases (BuildingRecord UnitRecord)

/-! ## The listings -/

structure UnitView where
  id : UnitId
  buildingId : BuildingId
  name : String
  floor : Option ℤ
  deriving DecidableEq, Repr

structure LeaseView where
  id : LeaseId
  unitId : UnitId
  unitName : Option String
  buildingName : Option String
  buildingId : Option BuildingId
  status : LeaseStatus
  deriving DecidableEq, Repr

/-- `PrismaUnitRepository.findByBuilding`. -/
def State.findByBuilding (s : State) (buildingId : BuildingId) : List UnitRecord :=
  s.premises.units.filter fun row => row.buildingId = buildingId ∧ row.deletedAt = none

/-- `PrismaLeaseRepository.findByTenant`. -/
def State.findByTenant (s : State) (tenantId : Option Auth.UserId) : List LeaseRow :=
  s.leases.rows.filter fun row => Prisma.whereEq tenantId row.tenantId

def State.unitView (s : State) (row : UnitRecord) : UnitView :=
  { id := row.id, buildingId := row.buildingId, name := row.name, floor := s.floor row.id }

/-- `ListBuildingUnitsUseCase.execute`: the building is read in `s₁`, and the units in `s₂`. -/
def listBuildingUnits (s₁ s₂ : State) (ownerId : Option Auth.UserId) (buildingId : BuildingId) :
    Except Failure (List UnitView) :=
  match s₁.premises.findBuilding buildingId with
  | none => .error .buildingNotFound
  | some building =>
    if !building.isOwnedBy ownerId then .error .notBuildingOwner
    else .ok ((s₂.findByBuilding buildingId).map s₂.unitView)

/-- A line of `ListMyLeases`: the unit is read in `s₁`, and its building in `s₂`. -/
def leaseView (s₁ s₂ : State) (lease : Lease) (id : LeaseId) : LeaseView :=
  let unit := s₁.premises.findUnit lease.unitId
  let building := unit.bind fun unit => s₂.premises.findBuilding unit.buildingId
  { id
    unitId := lease.unitId
    unitName := unit.map (·.name)
    buildingName := building.map (·.name)
    buildingId := unit.map (·.buildingId)
    status := lease.status }

/-- `ListMyLeasesUseCase.execute`: the leases are read in `s`, and those of a lease in the states that
`lookups` says. -/
def listMyLeases (s : State) (lookups : LeaseId → State × State) (tenantId : Option Auth.UserId) :
    List LeaseView :=
  (s.findByTenant tenantId).map fun row =>
    leaseView (lookups row.id).1 (lookups row.id).2 row.toDomain row.id

/-! ## The statement -/

/-- The state is reached from the other one. -/
def Later (s s' : State) : Prop := ∃ tr, tenancy.Run Any s tr s'

variable {log : List Event} {s s' s₀ : State} {a : Label} {tr : List (Step State Label)}
  {u : Auth.UserId} {b : BuildingId}

/-! ## Rows stay as they are -/

/-- The rows of buildings and units are still there. -/
structure Grows (s s' : State) : Prop where
  buildings : ∀ row ∈ s.premises.buildings, row ∈ s'.premises.buildings
  units : ∀ row ∈ s.premises.units, row ∈ s'.premises.units

theorem Grows.trans {s'' : State} (h : Grows s s') (h' : Grows s' s'') : Grows s s'' where
  buildings row mem := h'.buildings row (h.buildings row mem)
  units row mem := h'.units row (h.units row mem)

theorem grows_of_eq (h : s'.premises = s.premises) : Grows s s' where
  buildings row mem := by rwa [h]
  units row mem := by rwa [h]

theorem Moves.grows (moves : Moves s a s') : Grows s s' := by
  cases moves with
  | built => exact ⟨fun row mem => List.mem_append_left _ mem, fun row mem => mem⟩
  | added => exact ⟨fun row mem => mem, fun row mem => List.mem_append_left _ mem⟩
  | invite own next => exact grows_of_eq (premises_of_requested own next)
  | _ => exact grows_of_eq rfl

theorem Later.grows (later : Later s s') : Grows s s' := by
  obtain ⟨tr, run⟩ := later
  refine run.invariant (I := Grows s) ?_ (grows_of_eq rfl)
  exact fun _ _ _ grows _ next => grows.trans (Moves.of_next next).grows

/-- A later state is the end of a run. -/
theorem Later.sound (init : tenancy.start s₀) (run : tenancy.Run Any s₀ tr s) (later : Later s s') :
    ∃ log, Sound log s' := by
  obtain ⟨tr', run'⟩ := later
  exact ⟨_, sound_of_run init (run.trans run')⟩

/-! ## Lookups -/

theorem Grounded.findBuilding_of_mem {row : BuildingRecord} (h : Grounded log s)
    (mem : row ∈ s.premises.buildings) : s.premises.findBuilding row.id = some row := by
  refine (Table.find?_iff fun r hr r' hr' hit hit' => ?_).2
    ⟨mem, decide_eq_true ⟨rfl, (h.building row mem).2⟩⟩
  exact h.building_unique.eq_of_mem hr hr'
    ((of_decide_eq_true hit).1.trans (of_decide_eq_true hit').1.symm)

theorem Grounded.mem_findByBuilding {row : UnitRecord} (h : Grounded log s) :
    row ∈ s.findByBuilding b ↔ row ∈ s.premises.units ∧ row.buildingId = b := by
  simp only [State.findByBuilding, List.mem_filter, decide_eq_true_eq]
  exact and_congr_right fun mem => and_iff_left (h.unit row mem).2

/-- The line of a lease with its unit and its building. -/
def lineOf (row : LeaseRow) (unit : UnitRecord) (building : BuildingRecord) : LeaseView where
  id := row.id
  unitId := row.unitId
  unitName := some unit.name
  buildingName := some building.name
  buildingId := some building.id
  status := row.status

/-- The rows that requests have saved are in the tables, with all their columns. -/
structure Stored (s : State) : Prop where
  building : ∀ p row address, s.phase p = .done (.saved (.building row address)) →
    row ∈ s.premises.buildings ∧ s.address row.id = some address
  unit : ∀ p row floor, s.phase p = .done (.saved (.unit row floor)) →
    row ∈ s.premises.units ∧ s.floor row.id = some floor

/-- Steps that leave the columns of the saved rows alone. -/
theorem Stored.keep (h : Stored s) (grows : Grows s s')
    (address : ∀ row ∈ s.premises.buildings, s'.address row.id = s.address row.id)
    (floor : ∀ row ∈ s.premises.units, s'.floor row.id = s.floor row.id)
    (phase : ∀ p row, s'.phase p = .done (.saved row) → s.phase p = .done (.saved row) ∨
      match row with
      | .building row city => row ∈ s'.premises.buildings ∧ s'.address row.id = some city
      | .unit row level => row ∈ s'.premises.units ∧ s'.floor row.id = some level) :
    Stored s' where
  building p row city at_done := by
    rcases phase p _ at_done with old | new
    · obtain ⟨mem, same⟩ := h.building p row city old
      exact ⟨grows.buildings row mem, (address row mem).trans same⟩
    · exact new
  unit p row level at_done := by
    rcases phase p _ at_done with old | new
    · obtain ⟨mem, same⟩ := h.unit p row level old
      exact ⟨grows.units row mem, (floor row mem).trans same⟩
    · exact new

/-- The process of a step ends without a row. -/
theorem Stored.enter {p : Pid} {phase : Phase} (h : Stored s)
    (unsaved : ∀ row, phase ≠ .done (.saved row)) : Stored (s.enter p phase) := by
  refine h.keep (grows_of_eq rfl) (fun _ _ => rfl) (fun _ _ => rfl) fun q row at_done => .inl ?_
  rcases eq_or_ne q p with rfl | other
  · rw [enter_phase_self] at at_done
    exact absurd at_done (unsaved row)
  · rwa [enter_phase_of_ne s phase other] at at_done

theorem Stored.of_moves (h : Stored s) (moves : Moves s a s') : Stored s' := by
  cases moves with
  | @arrive p request =>
    refine h.enter fun row same => ?_
    cases request with
    | createUnit => cases same
    | createBuilding input =>
      simp only [Request.start] at same
      split at same <;> cases same
  | @built p id ownerId name address at_save fresh =>
    refine h.keep (Moves.built at_save fresh).grows (fun row mem => ?_) (fun _ _ => rfl) ?_
    · exact Function.update_of_ne (fun same => fresh (List.mem_map.2 ⟨row, mem, same⟩)) _ _
    · intro q row at_done
      rcases eq_or_ne q p with rfl | other
      · rw [enter_phase_self] at at_done
        obtain rfl : Saved.building _ _ = row := Result.saved.inj (Phase.done.inj at_done)
        exact .inr ⟨List.mem_concat_self, Function.update_self ..⟩
      · rw [enter_phase_of_ne _ _ other] at at_done
        exact .inl at_done
  | @added p id ownerId input at_save fresh =>
    refine h.keep (Moves.added at_save fresh).grows (fun _ _ => rfl) (fun row mem => ?_) ?_
    · exact Function.update_of_ne (fun same => fresh (List.mem_map.2 ⟨row, mem, same⟩)) _ _
    · intro q row at_done
      rcases eq_or_ne q p with rfl | other
      · rw [enter_phase_self] at at_done
        obtain rfl : Saved.unit _ _ = row := Result.saved.inj (Phase.done.inj at_done)
        exact .inr ⟨List.mem_concat_self, Function.update_self ..⟩
      · rw [enter_phase_of_ne _ _ other] at at_done
        exact .inl at_done
  | refused => exact h.enter fun row same => by cases same
  | owner => exact h.enter fun row same => by cases same
  | fail => exact h.enter fun row same => by cases same
  | @invite _ invites own next =>
    have grows : Grows s { s with invites } := grows_of_eq (premises_of_requested own next)
    exact h.keep grows (fun _ _ => rfl) (fun _ _ => rfl) fun _ _ at_done => .inl at_done
  | ending =>
    exact h.keep (grows_of_eq rfl) (fun _ _ => rfl) (fun _ _ => rfl) fun _ _ at_done => .inl at_done

variable {lookups : LeaseId → State × State}

/-- The lines of the leases of a tenant, with the row that each is about. -/
theorem mem_listMyLeases {view : LeaseView} : view ∈ listMyLeases s lookups (some u) ↔
    ∃ row ∈ s.leases.rows, row.tenantId = u ∧
      leaseView (lookups row.id).1 (lookups row.id).2 row.toDomain row.id = view := by
  simp [listMyLeases, State.findByTenant, and_assoc]

theorem Grounded.mem_findByBuilding_id {unitId : UnitId} (h : Grounded log s) :
    unitId ∈ (s.findByBuilding b).map (·.id) ↔ ∃ owner, .added owner b unitId ∈ log := by
  rw [List.mem_map]
  constructor
  · rintro ⟨row, mem, rfl⟩
    obtain ⟨there, rfl⟩ := h.mem_findByBuilding.1 mem
    obtain ⟨owner, chain⟩ := (h.unit row there).1
    exact ⟨owner, chain.subset (by simp [lets])⟩
  · rintro ⟨owner, added⟩
    obtain ⟨row, mem, rfl, same⟩ := h.added owner b unitId added
    exact ⟨row, h.mem_findByBuilding.2 ⟨mem, same⟩, rfl⟩

theorem Sound.units (h : Sound log s) {log' : List Event} (later : Sound log' s') :
    (.built u b ∈ log → ∃ views, listBuildingUnits s s' (some u) b = .ok views ∧
      (views.map (·.id)).Nodup ∧
      (∀ unitId, unitId ∈ views.map (·.id) ↔ ∃ owner, .added owner b unitId ∈ log') ∧
      ∀ view, view ∈ views ↔ ∃ row ∈ s'.premises.units, row.buildingId = b ∧
        view = { id := row.id, buildingId := b, name := row.name, floor := s'.floor row.id }) ∧
    ((∃ v, v ≠ u ∧ .built v b ∈ log) → listBuildingUnits s s' (some u) b = .error .notBuildingOwner) ∧
    ((∀ v, .built v b ∉ log) → listBuildingUnits s s' (some u) b = .error .buildingNotFound) := by
  refine ⟨fun built => ?_, ?_, fun missing => ?_⟩
  · obtain ⟨row, mem, rfl, rfl⟩ := h.grounded.built u b built
    refine ⟨(s'.findByBuilding row.id).map s'.unitView, by simp [listBuildingUnits,
      h.grounded.findBuilding_of_mem mem, BuildingRecord.isOwnedBy], ?_, fun unitId => ?_,
      fun view => ?_⟩
    · rw [List.map_map]
      exact later.grounded.unit_unique.sublist (List.filter_sublist.map _)
    · rw [List.map_map]
      exact later.grounded.mem_findByBuilding_id
    · rw [List.mem_map]
      constructor
      · rintro ⟨unit, listed, rfl⟩
        obtain ⟨there, inside⟩ := later.grounded.mem_findByBuilding.1 listed
        exact ⟨unit, there, inside, by rw [State.unitView, inside]⟩
      · rintro ⟨unit, there, inside, rfl⟩
        refine ⟨unit, later.grounded.mem_findByBuilding.2 ⟨there, inside⟩, ?_⟩
        rw [State.unitView, inside]
  · rintro ⟨v, other, built⟩
    obtain ⟨row, mem, rfl, rfl⟩ := h.grounded.built v b built
    simp [listBuildingUnits, h.grounded.findBuilding_of_mem mem, BuildingRecord.isOwnedBy, other]
  · have gone : s.premises.findBuilding b = none := by
      refine List.find?_eq_none.2 fun row mem hit => ?_
      obtain ⟨rfl, -⟩ := of_decide_eq_true hit
      exact missing _ (h.grounded.building row mem).1
    simp [listBuildingUnits, gone]

/-! ## The parts of the statement -/

/-- Each lease is listed with the unit and the building of its invite chain. -/
def Lined (log : List Event) (s : State) (lookups : LeaseId → State × State) : Prop :=
  ∀ row ∈ s.leases.rows, ∃ unit ∈ s.premises.units, ∃ building ∈ s.premises.buildings,
    unit.id = row.unitId ∧ building.id = unit.buildingId ∧
    (∃ owner code, (admits owner building.id row.unitId code row.tenantId row.id).Sublist log) ∧
    leaseView (lookups row.id).1 (lookups row.id).2 row.toDomain row.id = lineOf row unit building

theorem Lined.chain {view : LeaseView} (lines : Lined log s lookups)
    (mem : view ∈ listMyLeases s lookups (some u)) : ∃ owner b code, view.buildingId = some b ∧
      (admits owner b view.unitId code u view.id).Sublist log := by
  obtain ⟨row, there, rfl, rfl⟩ := mem_listMyLeases.1 mem
  obtain ⟨unit, -, building, -, -, -, ⟨owner, code, chain⟩, line⟩ := lines row there
  rw [line]
  exact ⟨owner, building.id, code, rfl, chain⟩

end EstateServer.Tenancy
