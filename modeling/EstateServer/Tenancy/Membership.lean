import EstateServer.Invites.SingleUse
import EstateServer.Tenancy.Requests

/-!
# Who is a member of a building

`isMember` asks two tables; nothing in them says who let the user in.  The log of a run does, and
`membership` is the whole of it: at any moment of any run on an empty database, the members of a
building are its creator and the users who have redeemed a code that the creator had issued for a unit
he had added to the building, as long as their lease has not been ended.  Only the creator ends one.

The invariant has three layers: the rows of buildings and units are those of the log (`Grounded`), the
codes in Redis and those that a redeem carries were issued by the owner (`Offers`), and the leases are
those of the log (`Leased`).
-/

namespace EstateServer.Tenancy

open Machine Property
open Leases (BuildingRecord UnitRecord)

/-! ## The statement -/

/-- What a step of a run has committed. -/
inductive Event
  | built (ownerId : Auth.UserId) (buildingId : BuildingId)
  | added (ownerId : Auth.UserId) (buildingId : BuildingId) (unitId : UnitId)
  | issued (issuedBy : Auth.UserId) (unitId : UnitId) (code : String)
  | joined (tenantId : Auth.UserId) (code : String) (unitId : UnitId) (leaseId : LeaseId)
  | ended (userId : Auth.UserId) (leaseId : LeaseId)
  deriving DecidableEq, Repr

/-- What the next step of a process commits. -/
def Phase.event (id : ℕ) : Phase → Option Event
  | saveBuilding ownerId _ _ => some (.built ownerId id)
  | saveUnit ownerId input => some (.added ownerId input.buildingId id)
  | _ => none

def inviteEvent (draw : Invites.Draw) : Invites.Phase → Option Event
  | .issue _ payload => some (.issued payload.issuedBy payload.unitId draw.code)
  | .queued input saved _ => some (.joined saved.tenantId input.code saved.unitId saved.id)
  | _ => none

def endingEvent : Leases.Phase → Option Event
  | .queued input saved _ => input.userId.map (.ended · saved.id)
  | _ => none

def event (st : Step State Label) : Option Event :=
  match st.label with
  | .step p id => (st.pre.phase p).event id
  | .invite (.step p draw) => inviteEvent draw (st.pre.invites.phase p)
  | .ending (.step p _) => endingEvent (st.pre.ending p)
  | _ => none

/-- The owner has built the building and added the unit to it. -/
def lets (owner : Auth.UserId) (buildingId : BuildingId) (unitId : UnitId) : List Event :=
  [.built owner buildingId, .added owner buildingId unitId]

/-- The owner of the unit has issued the code for it. -/
def offers (owner : Auth.UserId) (buildingId : BuildingId) (unitId : UnitId) (code : String) :
    List Event :=
  lets owner buildingId unitId ++ [.issued owner unitId code]

/-- The tenant has redeemed the code of the owner, which has made the lease. -/
def admits (owner : Auth.UserId) (buildingId : BuildingId) (unitId : UnitId) (code : String)
    (tenantId : Auth.UserId) (leaseId : LeaseId) : List Event :=
  offers owner buildingId unitId code ++ [.joined tenantId code unitId leaseId]

/-- The user has joined the building through its owner, by a lease that has not been ended. -/
def Admitted (log : List Event) (u : Auth.UserId) (buildingId : BuildingId) : Prop :=
  ∃ owner unitId code leaseId, (admits owner buildingId unitId code u leaseId).Sublist log ∧
    ∀ v, .ended v leaseId ∉ log

/-- Membership is granted by the owner, and taken by him. -/
structure Granted (log : List Event) (s : State) : Prop where
  member : ∀ u buildingId, s.isMember (some u) buildingId = true ↔
    .built u buildingId ∈ log ∨ Admitted log u buildingId
  owner : ∀ u v buildingId, .built u buildingId ∈ log → .built v buildingId ∈ log → u = v
  ended : ∀ v leaseId, .ended v leaseId ∈ log → ∃ buildingId unitId code u,
    (admits v buildingId unitId code u leaseId ++ [Event.ended v leaseId]).Sublist log

variable {log : List Event} {s s' s₀ : State} {a : Label} {tr : List (Step State Label)}
  {u v owner : Auth.UserId} {buildingId : BuildingId} {unitId : UnitId} {code : String}
  {leaseId : LeaseId}

/-! ## Buildings and units -/

/-- The rows of buildings and units are those of the log. -/
structure Grounded (log : List Event) (s : State) : Prop where
  building_unique : Table.Unique (·.id) s.premises.buildings
  unit_unique : Table.Unique (·.id) s.premises.units
  building : ∀ row ∈ s.premises.buildings,
    .built row.ownerId row.id ∈ log ∧ row.deletedAt = none
  built : ∀ u buildingId, .built u buildingId ∈ log →
    ∃ row ∈ s.premises.buildings, row.id = buildingId ∧ row.ownerId = u
  unit : ∀ row ∈ s.premises.units,
    (∃ owner, (lets owner row.buildingId row.id).Sublist log) ∧ row.deletedAt = none
  added : ∀ u buildingId unitId, .added u buildingId unitId ∈ log →
    ∃ row ∈ s.premises.units, row.id = unitId ∧ row.buildingId = buildingId
  saving : ∀ p ownerId input, s.phase p = .saveUnit ownerId input →
    .built ownerId input.buildingId ∈ log

namespace Grounded

/-- A building has one owner. -/
theorem owner_unique (h : Grounded log s) (hu : .built u buildingId ∈ log)
    (hv : .built v buildingId ∈ log) : u = v := by
  obtain ⟨row, mem, rfl, rfl⟩ := h.built u buildingId hu
  obtain ⟨row', mem', same, rfl⟩ := h.built v row.id hv
  rw [h.building_unique.eq_of_mem mem mem' same.symm]

/-- A unit is in one building. -/
theorem building_unique_of_unit {buildingId' : BuildingId} (h : Grounded log s)
    (hu : .added u buildingId unitId ∈ log) (hv : .added v buildingId' unitId ∈ log) :
    buildingId = buildingId' := by
  obtain ⟨row, mem, rfl, rfl⟩ := h.added u buildingId unitId hu
  obtain ⟨row', mem', same, rfl⟩ := h.added v buildingId' row.id hv
  rw [h.unit_unique.eq_of_mem mem mem' same.symm]

theorem built_of_findBuilding {building : BuildingRecord} (h : Grounded log s)
    (found : s.premises.findBuilding buildingId = some building) :
    .built building.ownerId buildingId ∈ log := by
  have same := List.find?_some found
  simp only [decide_eq_true_eq] at same
  obtain ⟨rfl, -⟩ := same
  exact (h.building building (List.mem_of_find?_eq_some found)).1

/-- Steps that leave buildings, units and the requests for them alone. -/
theorem keep {more : List Event} (h : Grounded log s) (premises : s'.premises = s.premises)
    (saving : ∀ p ownerId input, s'.phase p = .saveUnit ownerId input →
      .built ownerId input.buildingId ∈ log)
    (silent : ∀ e ∈ more, (∀ u b, e ≠ .built u b) ∧ ∀ u b i, e ≠ .added u b i) :
    Grounded (log ++ more) s' where
  building_unique := premises ▸ h.building_unique
  unit_unique := premises ▸ h.unit_unique
  building row mem := by
    obtain ⟨built, alive⟩ := h.building row (premises ▸ mem)
    exact ⟨List.mem_append_left _ built, alive⟩
  built u b mem := by
    rw [premises]
    rcases List.mem_append.1 mem with old | new
    · exact h.built u b old
    · exact absurd rfl ((silent _ new).1 u b)
  unit row mem := by
    obtain ⟨⟨owner, chain⟩, alive⟩ := h.unit row (premises ▸ mem)
    exact ⟨⟨owner, sublist_concat chain more⟩, alive⟩
  added u b i mem := by
    rw [premises]
    rcases List.mem_append.1 mem with old | new
    · exact h.added u b i old
    · exact absurd rfl ((silent _ new).2 u b i)
  saving p ownerId input phase := List.mem_append_left _ (saving p ownerId input phase)

/-- The state after a phase of a request here, which commits nothing. -/
theorem enter {p : Pid} {phase : Phase} (h : Grounded log s)
    (saving : ∀ ownerId input, phase = .saveUnit ownerId input →
      .built ownerId input.buildingId ∈ log) : Grounded log (s.enter p phase) := by
  rw [← List.append_nil log]
  refine h.keep rfl (fun q ownerId input at_save => ?_) (fun e mem => absurd mem List.not_mem_nil)
  rcases eq_or_ne q p with rfl | other
  · rw [enter_phase_self] at at_save
    exact saving ownerId input at_save
  · rw [enter_phase_of_ne s phase other] at at_save
    exact h.saving q ownerId input at_save

theorem build {id : ℕ} {name address : String} (h : Grounded log s)
    (fresh : id ∉ s.premises.buildings.map (·.id)) : Grounded (log ++ [.built u id]) { s with
      invites.store.premises.buildings := s.premises.buildings ++ [⟨⟨id, u⟩, name, none⟩]
      address := Function.update s.address id (some address) } where
  building_unique := h.building_unique.concat fresh
  unit_unique := h.unit_unique
  building row mem := by
    rcases List.mem_append.1 mem with old | new
    · obtain ⟨built, alive⟩ := h.building row old
      exact ⟨List.mem_append_left _ built, alive⟩
    · obtain rfl := List.mem_singleton.1 new
      exact ⟨List.mem_concat_self, rfl⟩
  built v b mem := by
    rcases List.mem_append.1 mem with old | new
    · obtain ⟨row, mem, same⟩ := h.built v b old
      exact ⟨row, List.mem_append_left _ mem, same⟩
    · obtain ⟨rfl, rfl⟩ := Event.built.inj (List.mem_singleton.1 new)
      exact ⟨_, List.mem_concat_self, rfl, rfl⟩
  unit row mem := by
    obtain ⟨⟨owner, chain⟩, alive⟩ := h.unit row mem
    exact ⟨⟨owner, sublist_concat chain _⟩, alive⟩
  added v b i mem := by
    rcases List.mem_append.1 mem with old | new
    · exact h.added v b i old
    · cases List.mem_singleton.1 new
  saving p ownerId input phase := List.mem_append_left _ (h.saving p ownerId input phase)

theorem add {id : ℕ} {p : Pid} {input : CreateUnitInput} (h : Grounded log s)
    (at_save : s.phase p = .saveUnit u input) (fresh : id ∉ s.premises.units.map (·.id)) :
    Grounded (log ++ [.added u input.buildingId id]) { s with
      invites.store.premises.units :=
        s.premises.units ++ [⟨⟨id, input.buildingId⟩, input.name, none⟩]
      floor := Function.update s.floor id (some input.floor) } where
  building_unique := h.building_unique
  unit_unique := h.unit_unique.concat fresh
  building row mem := by
    obtain ⟨built, alive⟩ := h.building row mem
    exact ⟨List.mem_append_left _ built, alive⟩
  built v b mem := by
    rcases List.mem_append.1 mem with old | new
    · exact h.built v b old
    · cases List.mem_singleton.1 new
  unit row mem := by
    rcases List.mem_append.1 mem with old | new
    · obtain ⟨⟨owner, chain⟩, alive⟩ := h.unit row old
      exact ⟨⟨owner, sublist_concat chain _⟩, alive⟩
    · obtain rfl := List.mem_singleton.1 new
      have built := List.singleton_sublist.2 (h.saving p u input at_save)
      exact ⟨⟨u, sublist_snoc built _⟩, rfl⟩
  added v b i mem := by
    rcases List.mem_append.1 mem with old | new
    · obtain ⟨row, mem, same⟩ := h.added v b i old
      exact ⟨row, List.mem_append_left _ mem, same⟩
    · obtain ⟨rfl, rfl, rfl⟩ := Event.added.inj (List.mem_singleton.1 new)
      exact ⟨_, List.mem_concat_self, rfl, rfl⟩
  saving q ownerId input phase := List.mem_append_left _ (h.saving q ownerId input phase)

end Grounded

/-- The requests on invite codes insert no building and no unit. -/
theorem premises_of_requested {t : Invites.State} {a : Invites.Label} (own : requested a = true)
    (next : Invites.invites.next s.invites a = some t) :
    t.store.premises = s.invites.store.premises := by
  cases a with
  | createBuilding => cases own
  | createUnit => cases own
  | arrive p request =>
    obtain ⟨-, next⟩ := Option.ite_none_right_eq_some.1 next
    obtain rfl := Option.some.inj next
    rfl
  | step p draw =>
    obtain ⟨⟨store, phase⟩, act, rfl⟩ := Option.map_eq_some_iff.1 next
    exact (Invites.Acts.of_act act).premises
  | fail p =>
    simp only [Invites.invites, Invites.State.next] at next
    split at next
    · cases next
    · obtain ⟨request, -, rfl⟩ := Option.map_eq_some_iff.1 next
      rfl
  | expire code =>
    simp only [Invites.invites, Invites.State.next] at next
    split_ifs at next
    obtain rfl := Option.some.inj next
    rfl

theorem event_invite {e : Event} {a : Invites.Label} (mem : e ∈ (event ⟨s, .invite a, s'⟩).toList) :
    (∀ u b, e ≠ .built u b) ∧ ∀ u b i, e ≠ .added u b i := by
  cases a with
  | step p draw =>
    simp only [event, inviteEvent, Option.mem_toList] at mem
    split at mem
    · obtain rfl := Option.some.inj mem
      simp
    · obtain rfl := Option.some.inj mem
      simp
    · cases mem
  | _ => cases mem

theorem event_ending {e : Event} {a : Leases.Label} (mem : e ∈ (event ⟨s, .ending a, s'⟩).toList) :
    (∀ u b, e ≠ .built u b) ∧ ∀ u b i, e ≠ .added u b i := by
  cases a with
  | step p draw =>
    simp only [event, endingEvent, Option.mem_toList] at mem
    split at mem
    · obtain ⟨v, -, rfl⟩ := Option.map_eq_some_iff.1 mem
      simp
    · cases mem
  | _ => cases mem

theorem Grounded.of_moves (h : Grounded log s) (moves : Moves s a s') :
    Grounded (log ++ (event ⟨s, a, s'⟩).toList) s' := by
  cases moves with
  | @arrive p request =>
    rw [show event ⟨s, .arrive p request, _⟩ = none from rfl, Option.toList_none, List.append_nil]
    refine h.enter fun ownerId input at_save => ?_
    cases request with
    | createUnit => cases at_save
    | createBuilding input =>
      simp only [Request.start] at at_save
      split at at_save <;> cases at_save
  | @built p id ownerId name address at_save fresh =>
    simp only [event, at_save, Phase.event, Option.toList_some]
    exact (h.build fresh).enter fun _ _ same => by cases same
  | refused at_find =>
    simp only [event, at_find, Phase.event, Option.toList_none, List.append_nil]
    exact h.enter fun _ _ same => by cases same
  | owner at_find found owned =>
    simp only [event, at_find, Phase.event, Option.toList_none, List.append_nil]
    refine h.enter fun ownerId input same => ?_
    obtain ⟨rfl, rfl⟩ := Phase.saveUnit.inj same
    exact h.built_of_findBuilding found
  | added at_save fresh =>
    simp only [event, at_save, Phase.event, Option.toList_some]
    exact (h.add at_save fresh).enter fun _ _ same => by cases same
  | @fail p =>
    rw [show event ⟨s, .fail p, _⟩ = none from rfl, Option.toList_none, List.append_nil]
    exact h.enter fun _ _ same => by cases same
  | invite own next =>
    exact h.keep (premises_of_requested own next) h.saving fun e mem => event_invite mem
  | ending next => exact h.keep rfl h.saving fun e mem => event_ending mem

/-! ## Codes -/

/-- What a request on an invite code relies on in its phase. -/
def Authorized (log : List Event) : Invites.Phase → Prop
  | .findBuilding _ unit => ∃ owner, (lets owner unit.buildingId unit.id).Sublist log
  | .issue _ payload => ∃ buildingId, (lets payload.issuedBy buildingId payload.unitId).Sublist log
  | .redeemed input lease => lease.status = .active ∧
    ∃ owner buildingId, (offers owner buildingId lease.unitId input.code).Sublist log
  | .inserted input saved => saved.status = .active ∧
    ∃ owner buildingId, (offers owner buildingId saved.unitId input.code).Sublist log
  | .queued input saved _ => saved.status = .active ∧
    ∃ owner buildingId, (offers owner buildingId saved.unitId input.code).Sublist log
  | _ => True

/-- The codes, in Redis and on their way to a lease, are those that owners have issued. -/
structure Offers (log : List Event) (s : State) : Prop where
  code : ∀ code payload, s.invites.store.codes code = some payload →
    ∃ buildingId, (offers payload.issuedBy buildingId payload.unitId code).Sublist log
  phase : ∀ p, Authorized log (s.invites.phase p)

theorem Authorized.mono {phase : Invites.Phase} (h : Authorized log phase) (more : List Event) :
    Authorized (log ++ more) phase := by
  cases phase with
  | findBuilding input unit =>
    obtain ⟨owner, chain⟩ := h
    exact ⟨owner, sublist_concat chain more⟩
  | issue input payload =>
    obtain ⟨buildingId, chain⟩ := h
    exact ⟨buildingId, sublist_concat chain more⟩
  | redeemed | inserted | queued =>
    obtain ⟨active, owner, buildingId, chain⟩ := h
    exact ⟨active, owner, buildingId, sublist_concat chain more⟩
  | _ => trivial

theorem Authorized.of_acts {draw : Invites.Draw} {store : Invites.Store}
    {before after : Invites.Phase} (grounded : Grounded log s) (offered : Offers log s)
    (acts : Invites.Acts s.invites.store draw before store after) (h : Authorized log before) :
    Authorized log after := by
  cases acts with
  | unit found =>
    exact (grounded.unit _ (List.mem_of_find?_eq_some found)).1
  | @owner input unit building ownerId found _ owned =>
    obtain ⟨owner, chain⟩ := h
    obtain rfl : building.ownerId = ownerId := Option.some.inj (of_decide_eq_true owned)
    obtain rfl := grounded.owner_unique (grounded.built_of_findBuilding found)
      (chain.subset List.mem_cons_self)
    exact ⟨unit.buildingId, chain⟩
  | redeem held =>
    obtain ⟨buildingId, chain⟩ := offered.code _ _ held
    exact ⟨rfl, _, buildingId, chain⟩
  | insert => exact h
  | queue => exact h
  | preview _ _ still => cases after <;> trivial
  | _ => trivial

/-- A code after a step was there before, or the step has issued it. -/
theorem code_of_next {t : Invites.State} {a : Invites.Label} {payload : InviteCodePayload}
    (next : Invites.invites.next s.invites a = some t) (held : t.store.codes code = some payload) :
    s.invites.store.codes code = some payload ∨ ∃ p draw input, a = .step p draw ∧
      s.invites.phase p = .issue input payload ∧ draw.code = code := by
  have kept : ∀ other, (s.invites.store.codes.redeem other).2 code = some payload →
      s.invites.store.codes code = some payload := by
    intro other held
    exact (Option.ite_none_left_eq_some.1 held).2
  cases a with
  | createBuilding | createUnit =>
    obtain rfl := Option.some.inj next
    exact .inl held
  | arrive p request =>
    obtain ⟨-, next⟩ := Option.ite_none_right_eq_some.1 next
    obtain rfl := Option.some.inj next
    exact .inl held
  | fail p =>
    simp only [Invites.invites, Invites.State.next] at next
    split at next
    · cases next
    · obtain ⟨request, -, rfl⟩ := Option.map_eq_some_iff.1 next
      exact .inl held
  | expire other =>
    simp only [Invites.invites, Invites.State.next] at next
    split_ifs at next
    obtain rfl := Option.some.inj next
    rcases eq_or_ne code other with rfl | ne
    · simp at held
    · simp only [Function.update_of_ne ne] at held
      exact .inl held
  | step p draw =>
    obtain ⟨⟨store, phase⟩, act, rfl⟩ := Option.map_eq_some_iff.1 next
    generalize at_phase : s.invites.phase p = before at act
    cases Invites.Acts.of_act act with
    | @issue input payload' =>
      rcases eq_or_ne code draw.code with rfl | ne
      · simp only [Invites.State.enter, Function.update_self, Option.some.injEq] at held
        obtain rfl := held
        exact .inr ⟨p, draw, input, rfl, at_phase, rfl⟩
      · simp only [Invites.State.enter, Function.update_of_ne ne] at held
        exact .inl held
    | refuse => exact .inl (kept _ held)
    | redeem => exact .inl (kept _ held)
    | _ => exact .inl held

/-- The phases of the requests on invite codes after a step. -/
theorem Offers.phase_of_next {t : Invites.State} {a : Invites.Label} (grounded : Grounded log s)
    (h : Offers log s) (next : Invites.invites.next s.invites a = some t) (p : Pid) :
    Authorized log (t.phase p) := by
  have enter : ∀ q phase, Authorized log phase →
      Authorized log (Function.update s.invites.phase q phase p) := by
    intro q phase known
    rcases eq_or_ne p q with rfl | ne
    · rwa [Function.update_self]
    · rw [Function.update_of_ne ne]
      exact h.phase p
  cases a with
  | createBuilding | createUnit =>
    obtain rfl := Option.some.inj next
    exact h.phase p
  | arrive q request =>
    obtain ⟨-, next⟩ := Option.ite_none_right_eq_some.1 next
    obtain rfl := Option.some.inj next
    exact enter q _ (by cases request <;> trivial)
  | fail q =>
    simp only [Invites.invites, Invites.State.next] at next
    split at next
    · cases next
    · obtain ⟨request, -, rfl⟩ := Option.map_eq_some_iff.1 next
      exact enter q _ trivial
  | expire other =>
    simp only [Invites.invites, Invites.State.next] at next
    split_ifs at next
    obtain rfl := Option.some.inj next
    exact h.phase p
  | step q draw =>
    obtain ⟨⟨store, phase⟩, act, rfl⟩ := Option.map_eq_some_iff.1 next
    exact enter q _ (.of_acts grounded h (.of_act act) (h.phase q))

theorem Offers.of_moves (grounded : Grounded log s) (h : Offers log s) (moves : Moves s a s') :
    Offers (log ++ (event ⟨s, a, s'⟩).toList) s' := by
  have keep : s'.invites.store.codes = s.invites.store.codes → s'.invites.phase = s.invites.phase →
      ∀ more, Offers (log ++ more) s' := by
    intro codes phase more
    refine ⟨fun code payload held => ?_, fun p => ?_⟩
    · obtain ⟨buildingId, chain⟩ := h.code code payload (codes ▸ held)
      exact ⟨buildingId, sublist_concat chain more⟩
    · exact phase ▸ (h.phase p).mono more
  cases moves with
  | @invite a t own next =>
    refine ⟨fun code payload held => ?_, fun p => (h.phase_of_next grounded next p).mono _⟩
    rcases code_of_next next held with old | ⟨p, draw, input, rfl, at_issue, rfl⟩
    · obtain ⟨buildingId, chain⟩ := h.code code payload old
      exact ⟨buildingId, sublist_concat chain _⟩
    · have authorized := h.phase p
      rw [at_issue] at authorized
      obtain ⟨buildingId, chain⟩ := authorized
      simp only [event, at_issue, inviteEvent, Option.toList_some]
      exact ⟨buildingId, sublist_snoc chain _⟩
  | _ => exact keep rfl rfl _

/-! ## Leases -/

/-- The lease was made for a code of the owner. -/
def Leads (log : List Event) (lease : Lease) : Prop :=
  ∃ leaseId owner buildingId code u, lease.id = some leaseId ∧
    (admits owner buildingId lease.unitId code u leaseId).Sublist log

/-- The request is that of the owner whose code has led to the lease. -/
def Ends (log : List Event) (input : Leases.EndLeaseInput) (leaseId : LeaseId) : Prop :=
  ∃ v buildingId unitId code u, input.userId = some v ∧
    (admits v buildingId unitId code u leaseId).Sublist log

/-- What an `EndLease` relies on in its phase. -/
def Entitled (log : List Event) : Leases.Phase → Prop
  | .findUnit _ lease => Leads log lease
  | .findBuilding _ lease unit => Leads log lease ∧ unit.id = lease.unitId ∧
    ∃ owner, (lets owner unit.buildingId unit.id).Sublist log
  | .update input ended => ended.status = .ended ∧ ∀ leaseId, ended.id = some leaseId →
    Ends log input leaseId
  | .updated input saved => saved.status = .ended ∧ Ends log input saved.id
  | .queued input saved _ => saved.status = .ended ∧ Ends log input saved.id
  | _ => True

/-- The leases are those of the log. -/
structure Leased (log : List Event) (s : State) : Prop where
  lease : ∀ row ∈ s.leases.rows, ∃ owner buildingId code,
    (admits owner buildingId row.unitId code row.tenantId row.id).Sublist log
  status : ∀ row ∈ s.leases.rows, row.status = .ended ↔ ∃ v, .ended v row.id ∈ log
  joined : ∀ u code unitId leaseId, .joined u code unitId leaseId ∈ log →
    ∃ row ∈ s.leases.rows, row.id = leaseId ∧ row.tenantId = u ∧ row.unitId = unitId
  ending : ∀ p, Entitled log (s.ending p)
  ended : ∀ v leaseId, .ended v leaseId ∈ log → ∃ buildingId unitId code u,
    (admits v buildingId unitId code u leaseId ++ [Event.ended v leaseId]).Sublist log

theorem Leads.mono {lease : Lease} (h : Leads log lease) (more : List Event) :
    Leads (log ++ more) lease := by
  obtain ⟨leaseId, owner, buildingId, code, u, id, chain⟩ := h
  exact ⟨leaseId, owner, buildingId, code, u, id, sublist_concat chain more⟩

theorem Ends.mono {input : Leases.EndLeaseInput} (h : Ends log input leaseId) (more : List Event) :
    Ends (log ++ more) input leaseId := by
  obtain ⟨v, buildingId, unitId, code, u, user, chain⟩ := h
  exact ⟨v, buildingId, unitId, code, u, user, sublist_concat chain more⟩

theorem Entitled.mono {phase : Leases.Phase} (h : Entitled log phase) (more : List Event) :
    Entitled (log ++ more) phase := by
  cases phase with
  | findUnit => exact Leads.mono h more
  | findBuilding =>
    obtain ⟨leads, same, owner, chain⟩ := h
    exact ⟨leads.mono more, same, owner, sublist_concat chain more⟩
  | update => exact ⟨h.1, fun leaseId same => (h.2 leaseId same).mono more⟩
  | updated | queued => exact ⟨h.1, h.2.mono more⟩
  | _ => trivial

/-- Steps that leave the leases and the requests on them alone. -/
theorem Leased.keep {more : List Event} (h : Leased log s) (leases : s'.leases = s.leases)
    (ending : ∀ p, Entitled log (s'.ending p))
    (silent : ∀ e ∈ more, (∀ u c i l, e ≠ .joined u c i l) ∧ ∀ v l, e ≠ .ended v l) :
    Leased (log ++ more) s' where
  lease row mem := by
    obtain ⟨owner, buildingId, code, chain⟩ := h.lease row (leases ▸ mem)
    exact ⟨owner, buildingId, code, sublist_concat chain more⟩
  status row mem := by
    rw [h.status row (leases ▸ mem)]
    refine exists_congr fun v => ⟨fun old => List.mem_append_left _ old, fun mem => ?_⟩
    rcases List.mem_append.1 mem with old | new
    · exact old
    · exact absurd rfl ((silent _ new).2 v row.id)
  joined u c i l mem := by
    rw [leases]
    rcases List.mem_append.1 mem with old | new
    · exact h.joined u c i l old
    · exact absurd rfl ((silent _ new).1 u c i l)
  ending p := (ending p).mono more
  ended v l mem := by
    rcases List.mem_append.1 mem with old | new
    · obtain ⟨buildingId, unitId, code, u, chain⟩ := h.ended v l old
      exact ⟨buildingId, unitId, code, u, sublist_concat chain more⟩
    · exact absurd rfl ((silent _ new).2 v l)

/-- The commit of a redeem. -/
theorem Leased.join {saved : LeaseRow} {input : Invites.RedeemInviteCodeInput} (h : Leased log s)
    (rows : s'.leases.rows = s.leases.rows ++ [saved]) (ending : s'.ending = s.ending)
    (active : saved.status = .active)
    (offered : ∃ owner buildingId, (offers owner buildingId saved.unitId input.code).Sublist log) :
    Leased (log ++ [.joined saved.tenantId input.code saved.unitId saved.id]) s' where
  lease row mem := by
    rw [rows] at mem
    rcases List.mem_append.1 mem with old | new
    · obtain ⟨owner, buildingId, code, chain⟩ := h.lease row old
      exact ⟨owner, buildingId, code, sublist_concat chain _⟩
    · obtain rfl := List.mem_singleton.1 new
      obtain ⟨owner, buildingId, chain⟩ := offered
      exact ⟨owner, buildingId, input.code, sublist_snoc chain _⟩
  status row mem := by
    have unchanged : (∃ v, .ended v row.id ∈ log ++
        [.joined saved.tenantId input.code saved.unitId saved.id]) ↔ ∃ v, .ended v row.id ∈ log := by
      simp
    rw [unchanged]
    have unique := s'.leases.unique
    rw [rows] at mem unique
    rcases List.mem_append.1 mem with old | new
    · exact h.status row old
    · obtain rfl := List.mem_singleton.1 new
      -- a lease that has been ended is in the table
      refine ⟨fun ended => absurd (active.symm.trans ended) (by decide), fun ⟨v, ended⟩ => ?_⟩
      obtain ⟨buildingId, unitId, code, u, chain⟩ := h.ended v row.id ended
      have joined : .joined u code unitId row.id ∈ log := chain.subset (by simp [admits])
      obtain ⟨other, mem', same, -⟩ := h.joined u code unitId row.id joined
      rw [Table.Unique, List.map_append, List.nodup_append'] at unique
      exact absurd (by simp) (unique.2.2 (List.mem_map.2 ⟨other, mem', same⟩))
  joined u c i l mem := by
    rw [rows]
    rcases List.mem_append.1 mem with old | new
    · obtain ⟨row, mem, same⟩ := h.joined u c i l old
      exact ⟨row, List.mem_append_left _ mem, same⟩
    · obtain ⟨rfl, rfl, rfl, rfl⟩ := Event.joined.inj (List.mem_singleton.1 new)
      exact ⟨saved, List.mem_concat_self, rfl, rfl, rfl⟩
  ending p := ending ▸ (h.ending p).mono _
  ended v l mem := by
    obtain ⟨buildingId, unitId, code, u, chain⟩ := h.ended v l (by simpa using mem)
    exact ⟨buildingId, unitId, code, u, sublist_concat chain _⟩

/-- The commit of an `EndLease`. -/
theorem Leased.leave {saved : LeaseRow} (h : Leased log s)
    (rows : s'.leases = s.endings.saves saved) (ending : ∀ p, Entitled log (s'.ending p))
    (status : saved.status = .ended) (ends : ∃ buildingId unitId code u,
      (admits v buildingId unitId code u saved.id).Sublist log) :
    Leased (log ++ [.ended v saved.id]) s' := by
  have written : ∀ row ∈ s'.leases.rows, ∃ row₀ ∈ s.leases.rows, row₀.id = row.id ∧
      row₀.tenantId = row.tenantId ∧ row₀.unitId = row.unitId ∧
      row.status = if row.id = saved.id then .ended else row₀.status := by
    intro row mem
    rw [rows] at mem
    obtain ⟨row₀, mem₀, rfl⟩ := Table.mem_updateMany.1 mem
    refine ⟨row₀, mem₀, ?_⟩
    by_cases same : row₀.id = saved.id <;> simp [same, status]
  refine ⟨fun row mem => ?_, fun row mem => ?_, fun u c i l mem => ?_,
    fun p => (ending p).mono _, fun w l mem => ?_⟩
  · obtain ⟨row₀, mem₀, id, tenant, unit, -⟩ := written row mem
    obtain ⟨owner, buildingId, code, chain⟩ := h.lease row₀ mem₀
    rw [← id, ← tenant, ← unit]
    exact ⟨owner, buildingId, code, sublist_concat chain _⟩
  · obtain ⟨row₀, mem₀, id, -, -, set⟩ := written row mem
    by_cases same : row.id = saved.id
    · rw [set, if_pos same, same]
      exact ⟨fun _ => ⟨v, List.mem_concat_self⟩, fun _ => rfl⟩
    · rw [set, if_neg same, h.status row₀ mem₀, id]
      simp [same]
  · obtain ⟨row₀, mem₀, rfl, rfl, rfl⟩ := h.joined u c i l (by simpa using mem)
    rw [rows]
    refine ⟨_, Table.mem_updateMany.2 ⟨row₀, mem₀, rfl⟩, ?_⟩
    split_ifs <;> exact ⟨rfl, rfl, rfl⟩
  · rcases List.mem_append.1 mem with old | new
    · obtain ⟨buildingId, unitId, code, u, chain⟩ := h.ended w l old
      exact ⟨buildingId, unitId, code, u, sublist_concat chain _⟩
    · obtain ⟨rfl, rfl⟩ := Event.ended.inj (List.mem_singleton.1 new)
      obtain ⟨buildingId, unitId, code, u, chain⟩ := ends
      exact ⟨buildingId, unitId, code, u, sublist_snoc chain _⟩

/-- A step of a request on an invite code leaves the leases alone, or it commits one. -/
theorem leases_of_next {t : Invites.State} {a : Invites.Label} (s' : State)
    (next : Invites.invites.next s.invites a = some t) :
    (t.store.leases = s.invites.store.leases ∧ ∀ e ∈ (event ⟨s, .invite a, s'⟩).toList,
      (∀ u c i l, e ≠ .joined u c i l) ∧ ∀ v l, e ≠ .ended v l) ∨
    ∃ p draw input saved draw', a = .step p draw ∧ s.invites.phase p = .queued input saved draw' ∧
      t.store.leases.rows = s.invites.store.leases.rows ++ [saved] := by
  cases a with
  | createBuilding | createUnit =>
    obtain rfl := Option.some.inj next
    exact .inl ⟨rfl, fun e mem => by cases mem⟩
  | arrive p request =>
    obtain ⟨-, next⟩ := Option.ite_none_right_eq_some.1 next
    obtain rfl := Option.some.inj next
    exact .inl ⟨rfl, fun e mem => by cases mem⟩
  | fail p =>
    simp only [Invites.invites, Invites.State.next] at next
    split at next
    · cases next
    · obtain ⟨request, -, rfl⟩ := Option.map_eq_some_iff.1 next
      exact .inl ⟨rfl, fun e mem => by cases mem⟩
  | expire other =>
    simp only [Invites.invites, Invites.State.next] at next
    split_ifs at next
    obtain rfl := Option.some.inj next
    exact .inl ⟨rfl, fun e mem => by cases mem⟩
  | step p draw =>
    obtain ⟨⟨store, phase⟩, act, rfl⟩ := Option.map_eq_some_iff.1 next
    generalize at_phase : s.invites.phase p = before at act
    have acts := Invites.Acts.of_act act
    by_cases queued : ∃ input saved draw', before = .queued input saved draw'
    · obtain ⟨input, saved, draw', rfl⟩ := queued
      cases acts with
      | preview previewing => cases previewing
      | commit inserted => exact .inr ⟨p, draw, input, saved, draw', rfl, at_phase, inserted⟩
    · refine .inl ⟨?_, fun e mem => ?_⟩
      · cases acts with
        | commit => exact absurd ⟨_, _, _, rfl⟩ queued
        | _ => rfl
      · simp only [event, at_phase, inviteEvent, Option.mem_toList] at mem
        split at mem
        · obtain rfl := Option.some.inj mem
          simp
        · exact absurd ⟨_, _, _, rfl⟩ queued
        · cases mem

/-- An `EndLease` goes on to its `UPDATE` for the owner of the building. -/
theorem owned_of_next {t : Leases.State} {p : Pid} {draw : Leases.Draw}
    {input input' : Leases.EndLeaseInput} {lease ended : Lease} {unit : UnitRecord}
    (next : Leases.endings.next s.endings (.step p draw) = some t)
    (before : s.ending p = .findBuilding input lease unit) (after : t.phase p = .update input' ended) :
    ∃ building, s.premises.findBuilding unit.buildingId = some building ∧
      input.userId = some building.ownerId := by
  change (s.ending p).step s.endings p draw = some t at next
  rw [before] at next
  obtain ⟨phase, read, rfl⟩ := Option.map_eq_some_iff.1 next
  obtain rfl : phase = .update input' ended := by
    simpa [Leases.State.enter] using after
  simp only [Leases.Phase.read] at read
  split at read
  · cases read
  · rename_i building found
    split_ifs at read with other
    · cases read
    · have owned : building.isOwnedBy input.userId = true := by simpa using other
      exact ⟨building, found, (of_decide_eq_true owned).symm⟩

theorem Entitled.of_reads {draw : Leases.Draw} {before after : Leases.Phase}
    (grounded : Grounded log s) (leased : Leased log s)
    (reads : Leases.Reads s.endings draw before after) (h : Entitled log before)
    (owned : ∀ input lease unit input' ended, before = .findBuilding input lease unit →
      after = .update input' ended → ∃ building,
        s.premises.findBuilding unit.buildingId = some building ∧
          input.userId = some building.ownerId) : Entitled log after := by
  cases reads with
  | lease found =>
    obtain ⟨row, hit, rfl⟩ := Option.map_eq_some_iff.1 found
    obtain ⟨owner, buildingId, code, chain⟩ := leased.lease row (List.mem_of_find?_eq_some hit)
    exact ⟨row.id, owner, buildingId, code, row.tenantId, rfl, chain⟩
  | unit found =>
    have same := List.find?_some found
    simp only [decide_eq_true_eq] at same
    exact ⟨h, same.1, (grounded.unit _ (List.mem_of_find?_eq_some found)).1⟩
  | @active input lease unit =>
    obtain ⟨building, found, user⟩ := owned _ _ _ _ _ rfl rfl
    obtain ⟨⟨id, owner, buildingId, code, u, hid, chain⟩, same, owner', chain'⟩ := h
    -- the building of the unit is that of the code, so its owner issued the code
    have added : .added owner buildingId lease.unitId ∈ log :=
      chain.subset (by simp [admits, offers, lets])
    have added' : .added owner' unit.buildingId unit.id ∈ log := chain'.subset (by simp [lets])
    rw [same] at added'
    obtain rfl := grounded.building_unique_of_unit added added'
    have built : .built owner unit.buildingId ∈ log :=
      chain.subset (by simp [admits, offers, lets])
    obtain rfl := grounded.owner_unique (grounded.built_of_findBuilding found) built
    refine ⟨rfl, fun leaseId hid' => ?_⟩
    obtain rfl := Option.some.inj (hid.symm.trans hid')
    exact ⟨_, _, _, code, u, user, chain⟩
  | queue => exact h
  | _ => trivial

theorem endingEvent_of_reads {draw : Leases.Draw} {before after : Leases.Phase}
    (reads : Leases.Reads s.endings draw before after) : endingEvent before = none := by
  cases reads <;> rfl

/-- A request that ends a lease, after a step that commits nothing. -/
theorem Leased.enter {t : Leases.State} {p : Pid} {phase : Leases.Phase} (h : Leased log s)
    (leases : t.leases = s.leases) (moved : t.phase = Function.update s.ending p phase)
    (entitled : Entitled log phase) : Leased log (s.withEndings t) := by
  rw [← List.append_nil log]
  refine h.keep leases (fun q => ?_) fun e mem => absurd mem List.not_mem_nil
  show Entitled log (t.phase q)
  rw [moved]
  rcases eq_or_ne q p with rfl | other
  · rwa [Function.update_self]
  · rw [Function.update_of_ne other]
    exact h.ending q

theorem Leased.of_ending {t : Leases.State} {a : Leases.Label} (grounded : Grounded log s)
    (h : Leased log s) (next : Leases.endings.next s.endings a = some t) :
    Leased (log ++ (event ⟨s, .ending a, s.withEndings t⟩).toList) (s.withEndings t) := by
  have silent : ∀ st, event st = none → log ++ (event st).toList = log := by
    intro st none
    rw [none, Option.toList_none, List.append_nil]
  cases Leases.Moves.of_next next with
  | arrive =>
    rw [silent _ rfl]
    exact h.enter rfl rfl trivial
  | fail =>
    rw [silent _ rfl]
    exact h.enter rfl rfl trivial
  | @read p draw phase reads =>
    rw [silent ⟨s, .ending (.step p draw), _⟩ (endingEvent_of_reads reads)]
    refine h.enter rfl rfl (.of_reads grounded h reads (h.ending p) ?_)
    intro input lease unit input' ended before after
    have moved : (s.endings.enter p phase).phase p = .update input' ended := by
      simp [Leases.State.enter, after]
    exact owned_of_next next before moved
  | missing at_update =>
    rw [silent _ (by simp [event, show s.ending _ = _ from at_update, endingEvent])]
    exact h.enter rfl rfl trivial
  | @update p draw input ended row at_update mem id =>
    have entitled := h.ending p
    rw [show s.ending p = _ from at_update] at entitled
    rw [silent _ (by simp [event, show s.ending p = _ from at_update, endingEvent])]
    exact h.enter rfl rfl ⟨entitled.1, entitled.2 row.id id.symm⟩
  | @commit p draw draw' input saved outbox at_queued added =>
    have entitled := h.ending p
    rw [show s.ending p = _ from at_queued] at entitled
    obtain ⟨status, v, buildingId, unitId, code, u, user, chain⟩ := entitled
    simp only [event, show s.ending p = _ from at_queued, endingEvent, user, Option.map_some,
      Option.toList_some]
    refine h.leave rfl (fun q => ?_) status ⟨buildingId, unitId, code, u, chain⟩
    show Entitled log (Function.update s.ending p _ q)
    rcases eq_or_ne q p with rfl | other
    · rw [Function.update_self]
      trivial
    · rw [Function.update_of_ne other]
      exact h.ending q

theorem Leased.of_moves (grounded : Grounded log s) (offered : Offers log s) (h : Leased log s)
    (moves : Moves s a s') : Leased (log ++ (event ⟨s, a, s'⟩).toList) s' := by
  cases moves with
  | ending next => exact h.of_ending grounded next
  | @invite a t own next =>
    rcases leases_of_next { s with invites := t } next with ⟨leases, silent⟩ |
      ⟨p, draw, input, saved, draw', rfl, at_queued, rows⟩
    · exact h.keep leases h.ending silent
    · have authorized := offered.phase p
      rw [at_queued] at authorized
      simp only [event, at_queued, inviteEvent, Option.toList_some]
      exact h.join rows rfl authorized.1 authorized.2
  | built at_save =>
    simp only [event, at_save, Phase.event, Option.toList_some]
    exact h.keep rfl h.ending (by simp)
  | added at_save =>
    simp only [event, at_save, Phase.event, Option.toList_some]
    exact h.keep rfl h.ending (by simp)
  | refused at_find =>
    simp only [event, at_find, Phase.event, Option.toList_none]
    exact h.keep rfl h.ending (by simp)
  | owner at_find =>
    simp only [event, at_find, Phase.event, Option.toList_none]
    exact h.keep rfl h.ending (by simp)
  | arrive => exact h.keep rfl h.ending fun e mem => by cases mem
  | fail => exact h.keep rfl h.ending fun e mem => by cases mem

/-! ## Runs -/

/-- The three layers. -/
structure Sound (log : List Event) (s : State) : Prop where
  grounded : Grounded log s
  offered : Offers log s
  leased : Leased log s

theorem Sound.of_moves (h : Sound log s) (moves : Moves s a s') :
    Sound (log ++ (event ⟨s, a, s'⟩).toList) s' where
  grounded := h.grounded.of_moves moves
  offered := h.offered.of_moves h.grounded moves
  leased := h.leased.of_moves h.grounded h.offered moves

theorem sound_of_start (init : tenancy.start s) : Sound [] s := by
  obtain ⟨premises, leases, ⟨codes, inviting⟩, ⟨-, -, -, ending⟩, phase⟩ := init
  have inviting : ∀ p, s.invites.phase p = .idle := fun p => congrFun inviting p
  have ending : ∀ p, s.ending p = .idle := fun p => congrFun ending p
  refine ⟨?_, ⟨?_, ?_⟩, ?_⟩
  · refine ⟨?_, ?_, ?_, ?_, ?_, ?_, ?_⟩ <;> simp [premises, phase, Table.Unique]
  · simp [codes]
  · intro p
    rw [inviting]
    trivial
  · refine ⟨?_, ?_, ?_, fun p => ?_, ?_⟩
    · simp [leases]
    · simp [leases]
    · simp
    · rw [ending]
      trivial
    · simp

theorem sound_of_run {C : State → Label → Prop} (init : tenancy.start s₀)
    (run : tenancy.Run C s₀ tr s) : Sound (events event tr) s :=
  run.log_invariant (fun _ _ _ _ h _ next => h.of_moves (.of_next next)) (sound_of_start init)

theorem Sound.rents_iff (h : Sound log s) :
    Board.leasesIn s.leases.rows (s.premises.units.map (·.toUnitRow)) (some u) buildingId = true ↔
      Admitted log u buildingId := by
  rw [Board.leasesIn, List.any_eq_true]
  constructor
  · rintro ⟨row, mem, hit⟩
    obtain ⟨mine, active, here⟩ := of_decide_eq_true hit
    obtain ⟨unit, there, hit'⟩ := List.any_eq_true.1 here
    obtain ⟨record, mem', rfl⟩ := List.mem_map.1 there
    obtain ⟨same, rfl⟩ := of_decide_eq_true hit'
    obtain rfl := of_decide_eq_true mine
    obtain ⟨owner, b, code, chain⟩ := h.leased.lease row mem
    obtain ⟨⟨owner', chain'⟩, -⟩ := h.grounded.unit record mem'
    have added : .added owner b row.unitId ∈ log := chain.subset (by simp [admits, offers, lets])
    have added' : .added owner' record.buildingId record.id ∈ log :=
      chain'.subset (by simp [lets])
    rw [same] at added'
    obtain rfl := h.grounded.building_unique_of_unit added added'
    refine ⟨owner, row.unitId, code, row.id, chain, fun v ended => ?_⟩
    have status := (h.leased.status row mem).2 ⟨v, ended⟩
    rw [active] at status
    cases status
  · rintro ⟨owner, unitId, code, leaseId, chain, kept⟩
    obtain ⟨row, mem, rfl, rfl, rfl⟩ := h.leased.joined u code unitId leaseId
      (chain.subset (by simp [admits]))
    obtain ⟨record, mem', same, rfl⟩ := h.grounded.added owner buildingId row.unitId
      (chain.subset (by simp [admits, offers, lets]))
    have here : (s.premises.units.map (·.toUnitRow)).any (fun unit =>
        unit.id = row.unitId ∧ unit.buildingId = record.buildingId) = true :=
      List.any_eq_true.2 ⟨_, List.mem_map_of_mem mem', decide_eq_true ⟨same, rfl⟩⟩
    refine ⟨row, mem, decide_eq_true ⟨decide_eq_true rfl, ?_, here⟩⟩
    cases status : row.status with
    | active => rfl
    | ended =>
      obtain ⟨v, ended⟩ := (h.leased.status row mem).1 status
      exact absurd ended (kept v)

theorem Sound.owns_iff (h : Sound log s) :
    Board.ownsBuilding (s.premises.buildings.map (·.toBuildingRow)) (some u) buildingId = true ↔
      .built u buildingId ∈ log := by
  simp only [Board.ownsBuilding, List.any_eq_true, decide_eq_true_eq, Prisma.whereEq_some,
    List.mem_map]
  constructor
  · rintro ⟨row, ⟨record, mem, rfl⟩, rfl, rfl⟩
    exact (h.grounded.building record mem).1
  · intro built
    obtain ⟨record, mem, rfl, rfl⟩ := h.grounded.built u buildingId built
    exact ⟨record.toBuildingRow, ⟨record, mem, rfl⟩, rfl, rfl⟩

/-- The members of a building are its owner and the tenants he has let in. -/
theorem membership (init : tenancy.start s₀) (run : tenancy.Run Any s₀ tr s) :
    Granted (events event tr) s := by
  have sound := sound_of_run init run
  refine ⟨fun u buildingId => ?_, fun u v b => sound.grounded.owner_unique, sound.leased.ended⟩
  rw [State.isMember, Bool.or_eq_true, sound.owns_iff, sound.rents_iff]

/-! ## A tenant who stays, and one who leaves -/

def vacant : State where
  invites :=
    { store := ⟨⟨[], []⟩, fun _ => none, ⟨[], List.nodup_nil⟩, ⟨[], List.nodup_nil, List.nodup_nil⟩⟩
      phase := fun _ => .idle }
  address _ := none
  floor _ := none
  ended := ⟨[], List.nodup_nil, List.nodup_nil⟩
  leaseLock := Locks.free
  ending _ := .idle
  phase _ := .idle

theorem vacant_start : tenancy.start vacant :=
  ⟨rfl, rfl, ⟨rfl, rfl⟩, ⟨fun _ mem => absurd mem List.not_mem_nil, rfl, rfl, rfl⟩, rfl⟩

/-- User 1 creates building 1 with unit 2. -/
def settle : List Label :=
  [.arrive 0 (.createBuilding ⟨some 1, "building", "address"⟩), .step 0 1,
    .arrive 1 (.createUnit ⟨some 1, 1, "unit", 3⟩), .step 1 0, .step 1 2]

/-- The owner issues a code for unit 2, and the tenant redeems it. -/
def moveIn (p : Pid) (code : String) (tenant : Auth.UserId) (lease : LeaseId) : List Label :=
  let draw : Invites.Draw := ⟨code, lease, lease, lease, 0, []⟩
  let go (p : Pid) : Label := .invite (.step p draw)
  [.invite (.arrive p (.issueInviteCode ⟨some 1, 2⟩)), go p, go p, go p,
    .invite (.arrive (p + 1) (.redeemInviteCode ⟨some tenant, code⟩)), go (p + 1), go (p + 1),
    go (p + 1), go (p + 1)]

/-- The owner ends the lease. -/
def moveOut (p : Pid) (lease : LeaseId) : List Label :=
  .ending (.arrive p ⟨some 1, lease⟩) :: List.replicate 6 (.ending (.step p ⟨9, 9, 7, []⟩))

def letting : List Label := settle ++ moveIn 0 "a" 5 3 ++ moveIn 2 "b" 6 4 ++ moveOut 0 4

theorem one_stays_one_leaves : ∃ s, tenancy.Run Any vacant (tenancy.steps vacant letting) s ∧
    s.isMember (some 5) 1 = true ∧ s.isMember (some 6) 1 = false ∧
    Granted (events event (tenancy.steps vacant letting)) s := by
  have computed : (tenancy.exec (fun _ _ => true) vacant letting).map
      (fun s => (s.isMember (some 5) 1, s.isMember (some 6) 1)) = some (true, false) := by
    decide
  obtain ⟨s, reached, seen⟩ := Option.map_eq_some_iff.1 computed
  obtain ⟨run, -⟩ := run_of_exec (C := Any) (fun _ _ _ => trivial) reached
  obtain ⟨stays, leaves⟩ := Prod.mk.inj seen
  exact ⟨s, run, stays, leaves, membership vacant_start run⟩

end EstateServer.Tenancy
