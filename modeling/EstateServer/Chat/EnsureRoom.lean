import EstateServer.Board.Repository
import EstateServer.Chat.Domain
import EstateServer.Leases.Store
import EstateServer.Library.Machine

/-!
# Ensuring a chat room

Any number of processes each serve one `EnsureRoom`.  Buildings, units and leases stay as they are,
so that ownership and membership do not change.  The lookup of the room and its `INSERT` are separate
statements, and a request whose `INSERT` breaks the unique constraint ends with the exception of
Prisma (`second_insert`).

`ensure_room_iff`: the requests agree on one room exactly in the runs in which every `INSERT` finds no
room of its pair.
-/

namespace EstateServer.Chat

open Machine Property
open Leases (Premises BuildingRecord)

abbrev Pid := ℕ

structure EnsureRoomInput where
  userId : Option Auth.UserId
  buildingId : BuildingId
  tenantId : Auth.UserId
  deriving DecidableEq, Repr

/-- The room that the request is about. -/
def EnsureRoomInput.pair (input : EnsureRoomInput) : BuildingId × Auth.UserId :=
  (input.buildingId, input.tenantId)

/-- How a request ends. -/
inductive Result
  | room (room : ChatRoom)
  | failed (error : ChatError)
  /-- The exception of a broken unique constraint. -/
  | aborted
  deriving DecidableEq, Repr

inductive Phase
  | idle
  | findBuilding (input : EnsureRoomInput)
  /-- Before the first query of `isMember`, and before the second. -/
  | isMember (input : EnsureRoomInput) (building : BuildingRecord)
  | isTenant (input : EnsureRoomInput) (building : BuildingRecord)
  | findRoom (input : EnsureRoomInput) (building : BuildingRecord)
  | save (input : EnsureRoomInput) (building : BuildingRecord)
  | done (input : EnsureRoomInput) (result : Result)
  deriving DecidableEq, Repr

structure State where
  premises : Premises
  leases : List LeaseRow
  rooms : ChatRoomTable
  phase : Pid → Phase

namespace State

variable (s : State)

/-- The process goes on to another phase. -/
def enter (p : Pid) (phase : Phase) : State := { s with phase := Function.update s.phase p phase }

/-- The two queries of `PrismaMembershipChecker`. -/
def owns (userId : Auth.UserId) (buildingId : BuildingId) : Bool :=
  Board.ownsBuilding (s.premises.buildings.map (·.toBuildingRow)) (some userId) buildingId

def rents (userId : Auth.UserId) (buildingId : BuildingId) : Bool :=
  Board.leasesIn s.leases (s.premises.units.map (·.toUnitRow)) (some userId) buildingId

end State

/-- The room that a request inserts. -/
def EnsureRoomInput.room (input : EnsureRoomInput) (building : BuildingRecord) (id : RoomId) :
    ChatRoomRow :=
  (ChatRoom.create input.buildingId building.ownerId input.tenantId).row id

/-- The next phase, where the step writes nothing. -/
def Phase.read (s : State) : Phase → Option Phase
  | findBuilding input =>
    match s.premises.findBuilding input.buildingId with
    | none => some (.done input (.failed .buildingNotFound))
    | some building =>
      let isOwner : Bool := some building.ownerId = input.userId
      let isTenantSelf : Bool := input.userId = some input.tenantId
      if !isOwner && !isTenantSelf then some (.done input (.failed .notRoomParticipant))
      else some (.isMember input building)
  | isMember input building =>
    if s.owns input.tenantId input.buildingId then some (.findRoom input building)
    else some (.isTenant input building)
  | isTenant input building =>
    if s.rents input.tenantId input.buildingId then some (.findRoom input building)
    else some (.done input (.failed .tenantNotMember))
  | findRoom input building =>
    match s.rooms.findByBuildingAndTenant input.buildingId input.tenantId with
    | some existing => some (.done input (.room existing))
    | none => some (.save input building)
  | _ => none

/-- A step of the process `p`, which draws the id of a new room. -/
def Phase.step (s : State) (p : Pid) (id : RoomId) : Phase → Option State
  | save input building =>
    let row := input.room building id
    if row.id ∈ s.rooms.rows.map (·.id) then none
    else
      match s.rooms.insert row with
      | some rooms => some ({ s with rooms }.enter p (.done input (.room row.toDomain)))
      -- P2002: nobody handles it
      | none => some (s.enter p (.done input .aborted))
  | phase => (phase.read s).map (s.enter p)

inductive Label
  | arrive (p : Pid) (input : EnsureRoomInput)
  | step (p : Pid) (id : RoomId)
  deriving DecidableEq, Repr

/-- The state after a step. -/
def State.next (s : State) : Label → Option State
  | .arrive p input => if s.phase p = .idle then some (s.enter p (.findBuilding input)) else none
  | .step p id => (s.phase p).step s p id

/-- The processes at work, with any rooms there. -/
def ensuring : Machine State Label where
  start s := s.phase = fun _ => .idle
  next := State.next

/-! ## The statement -/

namespace State

variable (s : State)

/-- The user is the owner of the building or the tenant. -/
def Participates (input : EnsureRoomInput) (building : BuildingRecord) : Prop :=
  s.premises.findBuilding input.buildingId = some building ∧
    (some building.ownerId = input.userId ∨ input.userId = some input.tenantId)

def IsMember (input : EnsureRoomInput) : Prop :=
  s.owns input.tenantId input.buildingId = true ∨ s.rents input.tenantId input.buildingId = true

/-- A request by the owner or by the tenant, who is a member of the building. -/
def Allowed (input : EnsureRoomInput) : Prop :=
  (∃ building, s.Participates input building) ∧ s.IsMember input

end State

/-- The number of steps that a request at work still has to take, at most. -/
def Phase.left : Phase → ℕ
  | findBuilding _ => 5
  | isMember _ _ => 4
  | isTenant _ _ => 3
  | findRoom _ _ => 2
  | save _ _ => 1
  | _ => 0

/-- What idempotence comes to, in a state. -/
structure Idempotent (s : State) : Prop where
  success : ∀ p input result, s.phase p = .done input result → s.Allowed input →
    ∃ room, result = .room room
  same : ∀ p q input input' room room', s.phase p = .done input (.room room) →
    s.phase q = .done input' (.room room') → input.pair = input'.pair → room.id = room'.id
  one : ∀ p input room, s.phase p = .done input (.room room) →
    s.rooms.rows.countP (fun row => row.pair = input.pair) = 1
  /-- No request waits, and none goes on for ever. -/
  returns : ∀ p id, 0 < (s.phase p).left → id ∉ s.rooms.rows.map (·.id) →
    ∃ s', ensuring.next s (.step p id) = some s' ∧ (s'.phase p).left < (s.phase p).left

/-- An `INSERT` finds no room of its pair. -/
def Unopened (s : State) (a : Label) : Prop :=
  ∀ p id input building, a = .step p id → s.phase p = .save input building →
    ∀ row ∈ s.rooms.rows, row.pair ≠ input.pair

/-! ## What a step does -/

variable {s s' s₀ : State} {a : Label} {before after phase : Phase} {input : EnsureRoomInput}
  {building : BuildingRecord} {tr : List (Step State Label)}

/-- What the steps do that only read, case by case. -/
inductive Reads (s : State) : Phase → Phase → Prop
  | noBuilding {input : EnsureRoomInput}
      (missing : s.premises.findBuilding input.buildingId = none) :
      Reads s (.findBuilding input) (.done input (.failed .buildingNotFound))
  | stranger {input : EnsureRoomInput} (not : ∀ building, ¬ s.Participates input building) :
      Reads s (.findBuilding input) (.done input (.failed .notRoomParticipant))
  | participant {input : EnsureRoomInput} {building : BuildingRecord}
      (participates : s.Participates input building) :
      Reads s (.findBuilding input) (.isMember input building)
  | owner {input : EnsureRoomInput} {building : BuildingRecord}
      (owns : s.owns input.tenantId input.buildingId = true) :
      Reads s (.isMember input building) (.findRoom input building)
  | other {input : EnsureRoomInput} {building : BuildingRecord}
      (owns : s.owns input.tenantId input.buildingId = false) :
      Reads s (.isMember input building) (.isTenant input building)
  | tenant {input : EnsureRoomInput} {building : BuildingRecord}
      (rents : s.rents input.tenantId input.buildingId = true) :
      Reads s (.isTenant input building) (.findRoom input building)
  | notMember {input : EnsureRoomInput} {building : BuildingRecord}
      (rents : s.rents input.tenantId input.buildingId = false) :
      Reads s (.isTenant input building) (.done input (.failed .tenantNotMember))
  | existing {input : EnsureRoomInput} {building : BuildingRecord} {row : ChatRoomRow}
      (mem : row ∈ s.rooms.rows) (same : row.pair = input.pair) :
      Reads s (.findRoom input building) (.done input (.room row.toDomain))
  | missing {input : EnsureRoomInput} {building : BuildingRecord} :
      Reads s (.findRoom input building) (.save input building)

theorem Reads.of_read (h : before.read s = some after) : Reads s before after := by
  cases before <;> simp only [Phase.read] at h
  case findBuilding input =>
    split at h
    · rw [← Option.some.inj h]
      exact .noBuilding ‹_›
    · rename_i building found
      split_ifs at h with neither <;> rw [← Option.some.inj h]
      · refine .stranger fun other participates => ?_
        obtain rfl := Option.some.inj (found.symm.trans participates.1)
        simp only [Bool.and_eq_true, Bool.not_eq_true', decide_eq_false_iff_not] at neither
        exact participates.2.elim neither.1 neither.2
      · refine .participant ⟨found, ?_⟩
        simpa only [Bool.and_eq_true, Bool.not_eq_true', decide_eq_false_iff_not, not_and_or,
          not_not] using neither
  case isMember input building =>
    split_ifs at h with owns <;> rw [← Option.some.inj h]
    · exact .owner owns
    · exact .other (by simpa using owns)
  case isTenant input building =>
    split_ifs at h with rents <;> rw [← Option.some.inj h]
    · exact .tenant rents
    · exact .notMember (by simpa using rents)
  case findRoom input building =>
    split at h <;> rw [← Option.some.inj h]
    · obtain ⟨row, mem, same, rfl⟩ := ChatRoomTable.findByBuildingAndTenant_eq_some ‹_›
      exact .existing mem same
    · exact .missing
  all_goals cases h

/-- What the steps do, case by case. -/
inductive Moves (s : State) : Label → State → Prop
  | arrive {p : Pid} {input : EnsureRoomInput} (idle : s.phase p = .idle) :
      Moves s (.arrive p input) (s.enter p (.findBuilding input))
  | read {p : Pid} {id : RoomId} {phase : Phase} (reads : Reads s (s.phase p) phase) :
      Moves s (.step p id) (s.enter p phase)
  | save {p : Pid} {id : RoomId} {input : EnsureRoomInput} {building : BuildingRecord}
      {rooms : ChatRoomTable} (at_save : s.phase p = .save input building)
      (new : ∀ row ∈ s.rooms.rows, row.pair ≠ input.pair)
      (inserted : rooms.rows = s.rooms.rows ++ [input.room building id]) :
      Moves s (.step p id)
        ({ s with rooms }.enter p (.done input (.room (input.room building id).toDomain)))
  | clash {p : Pid} {id : RoomId} {input : EnsureRoomInput} {building : BuildingRecord}
      {row : ChatRoomRow} (at_save : s.phase p = .save input building) (mem : row ∈ s.rooms.rows)
      (same : row.pair = input.pair) : Moves s (.step p id) (s.enter p (.done input .aborted))

theorem Moves.of_next (next : ensuring.next s a = some s') : Moves s a s' := by
  cases a with
  | arrive p input =>
    simp only [ensuring, State.next] at next
    split_ifs at next with idle
    rw [← Option.some.inj next]
    exact .arrive idle
  | step p id =>
    simp only [ensuring, State.next] at next
    generalize hphase : s.phase p = phase at next
    have reads : (phase.read s).map (s.enter p) = some s' → Moves s (.step p id) s' := by
      intro next
      obtain ⟨after, read, rfl⟩ := Option.map_eq_some_iff.1 next
      exact .read (hphase ▸ .of_read read)
    cases phase with
    | save input building =>
      simp only [Phase.step] at next
      split_ifs at next with new
      split at next <;> rw [← Option.some.inj next]
      · obtain ⟨new, inserted⟩ := ChatRoomTable.insert_eq_some ‹_›
        exact .save hphase new inserted
      · obtain ⟨row, mem, same⟩ := (ChatRoomTable.insert_eq_none new).1 ‹_›
        exact .clash hphase mem same
    | _ => exact reads next

/-! ## What a phase knows -/

def Phase.Known (s : State) : Phase → Prop
  | isMember input building => s.Participates input building
  | isTenant input building =>
    s.Participates input building ∧ s.owns input.tenantId input.buildingId = false
  | findRoom input building => s.Participates input building ∧ s.IsMember input
  | save input building => s.Participates input building ∧ s.IsMember input
  | done input (.failed _) => ¬ s.Allowed input
  | done input (.room room) => ∃ row ∈ s.rooms.rows, row.pair = input.pair ∧ room = row.toDomain
  | _ => True

theorem Reads.known (reads : Reads s before after) (known : before.Known s) : after.Known s := by
  cases reads with
  | noBuilding missing =>
    rintro ⟨⟨building, found, -⟩, -⟩
    rw [missing] at found
    cases found
  | stranger not => exact fun allowed => allowed.1.elim not
  | participant participates => exact participates
  | owner owns => exact ⟨known, .inl owns⟩
  | other owns => exact ⟨known, owns⟩
  | tenant rents => exact ⟨known.1, .inr rents⟩
  | notMember rents =>
    rintro ⟨-, owns | rents'⟩
    · rw [known.2] at owns
      cases owns
    · rw [rents] at rents'
      cases rents'
  | existing mem same => exact ⟨_, mem, same, rfl⟩
  | missing => exact known

/-- Buildings, units and leases stay, and so do the rooms that are there. -/
structure Grows (s s' : State) : Prop where
  premises : s'.premises = s.premises
  leases : s'.leases = s.leases
  rooms : ∀ row ∈ s.rooms.rows, row ∈ s'.rooms.rows

theorem Moves.grows (moves : Moves s a s') : Grows s s' := by
  cases moves with
  | save _ _ inserted =>
    exact ⟨rfl, rfl, fun row mem => (ChatRoomTable.mem_inserted inserted).2 (.inl mem)⟩
  | _ => exact ⟨rfl, rfl, fun _ mem => mem⟩

theorem Grows.allowed (grows : Grows s s') : s'.Allowed input ↔ s.Allowed input := by
  simp only [State.Allowed, State.Participates, State.IsMember, State.owns, State.rents,
    grows.premises, grows.leases]

theorem Phase.Known.mono (known : phase.Known s) (grows : Grows s s') : phase.Known s' := by
  cases phase with
  | done input result =>
    cases result with
    | room =>
      obtain ⟨row, mem, same, room⟩ := known
      exact ⟨row, grows.rooms row mem, same, room⟩
    | failed => exact fun allowed => known (grows.allowed.1 allowed)
    | aborted => trivial
  | idle | findBuilding => trivial
  | _ =>
    simpa only [Known, State.Participates, State.IsMember, State.owns, State.rents, grows.premises,
      grows.leases] using known

theorem Moves.known (moves : Moves s a s') (h : ∀ p, (s.phase p).Known s) :
    ∀ p, (s'.phase p).Known s' := by
  have grows := moves.grows
  have enters : ∀ q phase, phase.Known s' → ∀ p, (Function.update s.phase q phase p).Known s' :=
    fun _ _ known => (Function.forall_update_iff s.phase fun _ phase => phase.Known s').2
      ⟨known, fun p _ => (h p).mono grows⟩
  cases moves with
  | arrive => exact enters _ _ trivial
  | @read q _ _ reads => exact enters _ _ ((reads.known (h q)).mono grows)
  | save _ _ inserted =>
    exact enters _ _ ⟨_, (ChatRoomTable.mem_inserted inserted).2 (.inr rfl), rfl, rfl⟩
  | clash => exact enters _ _ trivial

/-! ## Requests return -/

theorem Reads.left_lt (reads : Reads s before after) : after.left < before.left := by
  cases reads <;> simp [Phase.left]

theorem enter_self {p : Pid} : (s.enter p phase).phase p = phase := Function.update_self ..

theorem Moves.left_lt {p : Pid} {id : RoomId} (moves : Moves s (.step p id) s') :
    (s'.phase p).left < (s.phase p).left := by
  cases moves with
  | read reads =>
    rw [enter_self]
    exact reads.left_lt
  | save at_save =>
    rw [enter_self, at_save]
    exact Nat.one_pos
  | clash at_save =>
    rw [enter_self, at_save]
    exact Nat.one_pos

/-- A request at work waits for nobody. -/
theorem Phase.step_isSome {p : Pid} {id : RoomId} (working : 0 < phase.left)
    (new : id ∉ s.rooms.rows.map (·.id)) : (phase.step s p id).isSome := by
  cases phase with
  | idle | done => cases working
  | save input building =>
    simp only [step]
    split
    · exact absurd ‹_› new
    · split <;> rfl
  | findBuilding input =>
    simp only [step, read, Option.isSome_map]
    split
    · rfl
    · split <;> rfl
  | _ =>
    simp only [step, read, Option.isSome_map]
    split <;> rfl

theorem returns {p : Pid} {id : RoomId} (working : 0 < (s.phase p).left)
    (new : id ∉ s.rooms.rows.map (·.id)) :
    ∃ s', ensuring.next s (.step p id) = some s' ∧ (s'.phase p).left < (s.phase p).left := by
  obtain ⟨s', next⟩ := Option.isSome_iff_exists.1 (Phase.step_isSome working new)
  exact ⟨s', next, (Moves.of_next (a := .step p id) next).left_lt⟩

/-! ## Runs -/

/-- No request has ended with an exception. -/
def Whole (s : State) : Prop := ∀ p input, s.phase p ≠ .done input .aborted

theorem Reads.whole (reads : Reads s before after) : after ≠ .done input .aborted := by
  cases reads <;> simp

theorem Whole.of_moves (h : Whole s) (calm : Unopened s a) (moves : Moves s a s') : Whole s' := by
  have enters : ∀ q phase, (∀ input, phase ≠ .done input .aborted) →
      ∀ p input, Function.update s.phase q phase p ≠ .done input .aborted :=
    fun _ _ whole => (Function.forall_update_iff s.phase fun _ phase =>
      ∀ input, phase ≠ .done input .aborted).2 ⟨whole, fun p _ => h p⟩
  cases moves with
  | arrive => exact enters _ _ (by simp)
  | read reads => exact enters _ _ fun _ => reads.whole
  | save => exact enters _ _ (by simp)
  | clash at_save mem same => exact absurd same (calm _ _ _ _ rfl at_save _ mem)

/-- The rooms that the requests have returned are the rows of their pairs. -/
theorem Whole.idempotent (h : Whole s) (known : ∀ p, (s.phase p).Known s) : Idempotent s := by
  have found : ∀ p input room, s.phase p = .done input (.room room) →
      ∃ row ∈ s.rooms.rows, row.pair = input.pair ∧ room = row.toDomain := by
    intro p input room answered
    have now := known p
    rwa [answered] at now
  refine ⟨?_, ?_, ?_, fun p id => returns⟩
  · intro p input result answered allowed
    have now := known p
    rw [answered] at now
    cases result with
    | room room => exact ⟨room, rfl⟩
    | failed => exact absurd allowed now
    | aborted => exact absurd answered (h p input)
  · intro p q input input' room room' first second pair
    obtain ⟨row, mem, same, rfl⟩ := found p input room first
    obtain ⟨row', mem', same', rfl⟩ := found q input' room' second
    rw [s.rooms.pair_unique.eq_of_mem mem mem' (same.trans (pair.trans same'.symm))]
  · intro p input room answered
    obtain ⟨row, mem, same, -⟩ := found p input room answered
    have count := s.rooms.pair_unique.countP_key mem fun _ => true
    simpa [same] using count

/-- An `INSERT` that ends no request with an exception finds no room. -/
theorem Moves.unopened (moves : Moves s a s') (known : ∀ p, (s.phase p).Known s)
    (success : ∀ p input result, s'.phase p = .done input result → s'.Allowed input →
      ∃ room, result = .room room) : Unopened s a := by
  rintro p id input building rfl at_save
  cases moves with
  | read reads =>
    rw [at_save] at reads
    cases reads
  | save at_save' new =>
    obtain ⟨rfl, rfl⟩ := Phase.save.inj (at_save.symm.trans at_save')
    exact new
  | @clash _ _ input' _ _ at_save' =>
    obtain ⟨rfl, rfl⟩ := Phase.save.inj (at_save.symm.trans at_save')
    have now := known p
    rw [at_save] at now
    obtain ⟨room, same⟩ := success p input .aborted enter_self ⟨⟨building, now.1⟩, now.2⟩
    cases same

theorem known_of_start (init : ensuring.start s) (p : Pid) : (s.phase p).Known s := by
  rw [show s.phase = fun _ => .idle from init]
  trivial

/-- The requests agree on one room exactly where every `INSERT` finds no room of its pair. -/
theorem ensure_room_iff (init : ensuring.start s₀) (run : ensuring.Run Any s₀ tr s) :
    (∀ st ∈ tr, Unopened st.pre st.label) ↔ ∀ st ∈ tr, Idempotent st.post := by
  have known : ∀ st ∈ tr, ∀ p, (st.pre.phase p).Known st.pre := fun st mem =>
    run.invariant_of_mem (I := fun s => ∀ p, (s.phase p).Known s)
      (fun _ _ _ h _ next => (Moves.of_next next).known h) (known_of_start init) mem
  constructor
  · intro calm st mem
    have whole : Whole st.pre := (run.restrict calm).invariant_of_mem
      (fun _ _ _ h calm next => h.of_moves calm (.of_next next))
      (fun p input => by rw [show s₀.phase = fun _ => .idle from init]; simp) mem
    have moves := Moves.of_next (run.next_of_mem mem)
    exact (whole.of_moves (calm st mem) moves).idempotent (moves.known (known st mem))
  · intro idempotent st mem
    exact (Moves.of_next (run.next_of_mem mem)).unopened (known st mem) (idempotent st mem).success

/-! ## The owner and the tenant -/

/-- User 1 owns building 2 with unit 3, which user 5 rents. -/
def roomless : State where
  premises := ⟨[⟨⟨2, 1⟩, "building", none⟩], [⟨⟨3, 2⟩, "unit", none⟩]⟩
  leases := [⟨4, 3, 5, .active, none⟩]
  rooms := ⟨[], List.nodup_nil, List.nodup_nil⟩
  phase _ := .idle

theorem roomless_start : ensuring.start roomless := rfl

/-- The request of a user for the room of the tenant. -/
def ensure (userId : Auth.UserId) : EnsureRoomInput := ⟨some userId, 2, 5⟩

/-- The first `n` steps of a request, up to the lookup of the room or to the end. -/
def begin (p : Pid) (userId : Auth.UserId) (n : ℕ) : List Label :=
  .arrive p (ensure userId) :: List.replicate n (.step p p)

/-- `Unopened`, computed. -/
def unopened (s : State) : Label → Bool
  | .step p _ =>
    match s.phase p with
    | .save input _ => s.rooms.rows.all fun row => row.pair ≠ input.pair
    | _ => true
  | _ => true

theorem unopened_of_checked (s : State) (a : Label) (h : unopened s a = true) : Unopened s a := by
  rintro p id input building rfl at_save row mem
  simp only [unopened, at_save, List.all_eq_true, decide_eq_true_eq] at h
  exact h row mem

/-- The tenant asks after the owner has the room. -/
theorem ensured_in_order : ∃ tr s, ensuring.Run Any roomless tr s ∧
    s.phase 0 = .done (ensure 1) (.room ⟨some 0, 2, 1, 5⟩) ∧
    s.phase 1 = .done (ensure 5) (.room ⟨some 0, 2, 1, 5⟩) ∧ ∀ st ∈ tr, Idempotent st.post := by
  have computed : (ensuring.exec unopened roomless (begin 0 1 5 ++ begin 1 5 4)).map
      (fun s => (s.phase 0, s.phase 1)) = some (.done (ensure 1) (.room ⟨some 0, 2, 1, 5⟩),
        .done (ensure 5) (.room ⟨some 0, 2, 1, 5⟩)) := by
    decide
  obtain ⟨s, reached, seen⟩ := Option.map_eq_some_iff.1 computed
  obtain ⟨tr, run, -⟩ := exists_run_of_exec (C := Unopened) unopened_of_checked reached
  obtain ⟨first, second⟩ := Prod.mk.inj seen
  have all : ensuring.Run Any roomless tr s := run.mono fun _ _ _ => trivial
  exact ⟨tr, s, all, first, second,
    (ensure_room_iff roomless_start all).1 fun _ mem => run.meets_of_mem mem⟩

/-- Both look for the room before either inserts it: the second `INSERT` throws. -/
theorem second_insert : ∃ tr s, ensuring.start roomless ∧ ensuring.Run Any roomless tr s ∧
    s.Allowed (ensure 1) ∧ s.Allowed (ensure 5) ∧
    s.phase 0 = .done (ensure 1) (.room ⟨some 0, 2, 1, 5⟩) ∧
    s.phase 1 = .done (ensure 5) .aborted := by
  have computed : (ensuring.exec (fun _ _ => true) roomless
      (begin 0 1 4 ++ begin 1 5 4 ++ [.step 0 0, .step 1 1])).map
      (fun s => (s.phase 0, s.phase 1, s.premises.findBuilding 2, s.rents 5 2)) =
      some (.done (ensure 1) (.room ⟨some 0, 2, 1, 5⟩), .done (ensure 5) .aborted,
        some ⟨⟨2, 1⟩, "building", none⟩, true) := by
    decide
  obtain ⟨s, reached, seen⟩ := Option.map_eq_some_iff.1 computed
  obtain ⟨tr, run, -⟩ := exists_run_of_exec (C := Any) (fun _ _ _ => trivial) reached
  simp only [Prod.mk.injEq] at seen
  obtain ⟨first, second, building, tenant⟩ := seen
  exact ⟨tr, s, roomless_start, run, ⟨⟨_, building, .inl rfl⟩, .inr tenant⟩,
    ⟨⟨_, building, .inr rfl⟩, .inr tenant⟩, first, second⟩

end EstateServer.Chat
