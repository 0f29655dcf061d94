import EstateServer.Chat.EnsureRoom
import EstateServer.Chat.Messages

/-!
# The two participants of a chat room

The requests of `EnsureRoom` while buildings, units and leases change between any two queries.  A
building keeps its id and its owner: the repository inserts buildings, and it neither deletes one nor
writes the column `ownerId` again.

`isMember`, which checks the tenant, also accepts the owner of the building: an owner who names
himself as the tenant opens a room with himself, without any lease (`room_of_one`).

`conversations_iff`: every room has a landlord and a tenant exactly in the runs in which no `INSERT`
is for a tenant who owns the building.
-/

namespace EstateServer.Chat.Participants

open Machine Property
open Leases (Premises BuildingRecord)

/-- The id and the owner of each building. -/
def ownership (premises : Premises) : List BuildingRow := premises.buildings.map (·.toBuildingRow)

/-- The buildings that are there stay, each with its owner. -/
def Keeps (premises premises' : Premises) : Prop :=
  (∀ row ∈ ownership premises, row ∈ ownership premises') ∧
    ((ownership premises').map BuildingRow.id).Nodup

instance (premises premises' : Premises) : Decidable (Keeps premises premises') :=
  inferInstanceAs (Decidable (_ ∧ _))

inductive Event
  /-- A step of a request. -/
  | request (label : Label)
  /-- The other requests change buildings, units and leases. -/
  | change (premises : Premises) (leases : List LeaseRow)
  deriving DecidableEq, Repr

/-- The requests at work, from a table without rooms. -/
def changing : Machine State Event where
  start s := (s.phase = fun _ => .idle) ∧ s.rooms.rows = [] ∧
    Table.Unique BuildingRow.id (ownership s.premises)
  next s
    | .request label => s.next label
    | .change premises leases =>
      if Keeps s.premises premises then some { s with premises, leases } else none

/-! ## The statement -/

/-- The process enters the phase with the step. -/
def Enters (st : Step State Event) (p : Pid) (phase : Phase) : Prop :=
  st.pre.phase p ≠ phase ∧ st.post.phase p = phase

/-- The request inserts the row with the step. -/
structure Inserts (st : Step State Event) (p : Pid) (input : EnsureRoomInput) (row : ChatRoomRow) :
    Prop where
  label : st.label = .request (.step p row.id)
  at_save : ∃ building, st.pre.phase p = .save input building ∧ row = input.room building row.id
  rows : st.post.rooms.rows = st.pre.rooms.rows ++ [row]

/-- The tenant had an active lease in the building when the request passed its check. -/
def Leased (tr : List (Step State Event)) (p : Pid) (input : EnsureRoomInput) : Prop :=
  ∃ st ∈ tr, (∃ building, Enters st p (.findRoom input building)) ∧
    st.pre.rents input.tenantId input.buildingId = true

/-- The request `p` has created the room, for a landlord and a tenant of his. -/
structure Paired (tr : List (Step State Event)) (s : State) (row : ChatRoomRow) (p : Pid)
    (input : EnsureRoomInput) : Prop where
  inserted : ∃ st ∈ tr, Inserts st p input row
  caller : row.toDomain.isParticipant input.userId = true
  owner : s.owns row.ownerId row.buildingId = true
  distinct : row.tenantId ≠ row.ownerId
  leased : Leased tr p input

/-- Every room has a landlord and a tenant, and every message has one other participant. -/
structure Conversations (tr : List (Step State Event)) (s : State) : Prop where
  rooms : ∀ row ∈ s.rooms.rows, ∃ p input, Paired tr s row p input
  messages : ∀ (store store' : Store) times id input payload, store.rooms = s.rooms →
    sendMessage store times id input = (.ok payload, store') →
    ∃ room, s.rooms.findById payload.roomId = some room ∧
      room.isParticipant payload.senderId = true ∧
      ∃! other : Auth.UserId, other ≠ payload.senderId ∧ room.isParticipant other = true

/-- An `INSERT` is for a tenant who does not own the building. -/
def ForTenant (s : State) (a : Event) : Prop :=
  ∀ p id input building, a = .request (.step p id) → s.phase p = .save input building →
    s.owns input.tenantId input.buildingId = false

/-! ## Owners -/

variable {s s' s₀ : State} {a : Event} {label : Label} {before after phase : Phase} {p : Pid}
  {input : EnsureRoomInput} {building : BuildingRecord} {row : ChatRoomRow} {u v : Auth.UserId}
  {buildingId : BuildingId} {tr : List (Step State Event)} {st : Step State Event}

theorem owns_iff : s.owns u buildingId = true ↔ ⟨buildingId, u⟩ ∈ ownership s.premises := by
  show (ownership s.premises).any _ = true ↔ _
  simp only [List.any_eq_true, Prisma.whereEq_some, decide_eq_true_eq]
  constructor
  · rintro ⟨row, mem, rfl, rfl⟩
    exact mem
  · exact fun mem => ⟨_, mem, rfl, rfl⟩

/-- A building has one owner. -/
theorem owner_unique (unique : Table.Unique BuildingRow.id (ownership s.premises))
    (h : s.owns u buildingId = true) (h' : s.owns v buildingId = true) : u = v :=
  congrArg BuildingRow.ownerId (unique.eq_of_mem (owns_iff.1 h) (owns_iff.1 h') rfl)

theorem owns_of_findBuilding (found : s.premises.findBuilding buildingId = some building) :
    s.owns building.ownerId buildingId = true := by
  have same := List.find?_some found
  simp only [decide_eq_true_eq] at same
  obtain ⟨rfl, -⟩ := same
  exact owns_iff.2 (List.mem_map_of_mem (List.mem_of_find?_eq_some found))

/-- Owners and rooms stay. -/
structure Later (s s' : State) : Prop where
  owns : ∀ u buildingId, s.owns u buildingId = true → s'.owns u buildingId = true
  rooms : ∀ row ∈ s.rooms.rows, row ∈ s'.rooms.rows

theorem Later.trans {s'' : State} (h : Later s s') (h' : Later s' s'') : Later s s'' where
  owns u buildingId owned := h'.owns u buildingId (h.owns u buildingId owned)
  rooms row mem := h'.rooms row (h.rooms row mem)

theorem later_of_change {premises : Premises} {leases : List LeaseRow}
    (keeps : Keeps s.premises premises) : Later s { s with premises, leases } where
  owns _ _ owned := owns_iff.2 (keeps.1 _ (owns_iff.1 owned))
  rooms _ mem := mem

theorem later_of_moves (moves : Moves s label s') : Later s s' where
  owns u buildingId owned := by
    rwa [State.owns, moves.grows.premises]
  rooms := moves.grows.rooms

/-! ## What a step does -/

/-- A step of a request, or a change of buildings, units and leases. -/
inductive Steps (s : State) : Event → State → Prop
  | request {label : Label} {s' : State} (moves : Moves s label s') : Steps s (.request label) s'
  | change {premises : Premises} {leases : List LeaseRow} (keeps : Keeps s.premises premises) :
      Steps s (.change premises leases) { s with premises, leases }

theorem Steps.of_next (next : changing.next s a = some s') : Steps s a s' := by
  cases a with
  | request label => exact .request (.of_next next)
  | change premises leases =>
    simp only [changing] at next
    split_ifs at next with keeps
    rw [← Option.some.inj next]
    exact .change keeps

theorem Steps.later (steps : Steps s a s') : Later s s' := by
  cases steps with
  | request moves => exact later_of_moves moves
  | change keeps => exact later_of_change keeps

theorem later_of_run (run : changing.Run Any s tr s') : Later s s' :=
  run.invariant (fun _ _ _ h _ next => h.trans (Steps.of_next next).later)
    ⟨fun _ _ owned => owned, fun _ mem => mem⟩

theorem Steps.unique (steps : Steps s a s')
    (h : Table.Unique BuildingRow.id (ownership s.premises)) :
    Table.Unique BuildingRow.id (ownership s'.premises) := by
  cases steps with
  | request moves => rwa [moves.grows.premises]
  | change keeps => exact keeps.2

/-! ## What a request has read -/

/-- The owner that a request has read is the owner, and its caller is one of the two. -/
def Named (s : State) : Phase → Prop
  | .isMember input building | .isTenant input building | .findRoom input building
  | .save input building =>
    s.owns building.ownerId input.buildingId = true ∧
      (some building.ownerId = input.userId ∨ input.userId = some input.tenantId)
  | _ => True

theorem Named.later (named : Named s phase) (later : Later s s') : Named s' phase := by
  cases phase with
  | idle | findBuilding | done => trivial
  | _ => exact ⟨later.owns _ _ named.1, named.2⟩

theorem named_of_reads (reads : Reads s before after) (named : Named s before) : Named s after := by
  cases reads with
  | participant participates => exact ⟨owns_of_findBuilding participates.1, participates.2⟩
  | owner | other | tenant | missing => exact named
  | noBuilding | stranger | notMember | existing => trivial

/-- Requests and rooms know the owners. -/
structure Sound (s : State) : Prop where
  unique : Table.Unique BuildingRow.id (ownership s.premises)
  named : ∀ p, Named s (s.phase p)
  owner : ∀ row ∈ s.rooms.rows, s.owns row.ownerId row.buildingId = true

theorem Sound.of_steps (sound : Sound s) (steps : Steps s a s') : Sound s' := by
  have later := steps.later
  refine ⟨steps.unique sound.unique, ?_, ?_⟩
  · have kept : ∀ q, Named s' (s.phase q) := fun q => (sound.named q).later later
    have enters : ∀ q phase, Named s' phase →
        ∀ p, Named s' (Function.update s.phase q phase p) := fun _ _ named =>
      (Function.forall_update_iff s.phase fun _ => Named s').2 ⟨named, fun p _ => kept p⟩
    cases steps with
    | change => exact kept
    | request moves =>
      cases moves with
      | @read q _ _ reads => exact enters _ _ ((named_of_reads reads (sound.named q)).later later)
      | arrive | save | clash => exact enters _ _ trivial
  · have kept : ∀ row ∈ s.rooms.rows, s'.owns row.ownerId row.buildingId = true :=
      fun row mem => later.owns _ _ (sound.owner row mem)
    cases steps with
    | change => exact kept
    | request moves =>
      cases moves with
      | @save p _ _ _ _ at_save _ inserted =>
        intro row mem
        rcases (ChatRoomTable.mem_inserted inserted).1 mem with mem | rfl
        · exact kept row mem
        · have named := sound.named p
          rw [at_save] at named
          exact later.owns _ _ named.1
      | arrive | read | clash => exact kept

theorem sound_of_start (init : changing.start s) : Sound s where
  unique := init.2.2
  named p := by
    rw [init.1]
    trivial
  owner row mem := by
    rw [init.2.1] at mem
    cases mem

theorem sound_of_mem (init : changing.start s₀) (run : changing.Run Any s₀ tr s) (mem : st ∈ tr) :
    Sound st.pre :=
  run.invariant_of_mem (fun _ _ _ h _ next => h.of_steps (.of_next next)) (sound_of_start init) mem

/-! ## What a run has shown -/

/-- The tenant that the request has checked owns the building or had a lease there. -/
def Checked (tr : List (Step State Event)) (p : Pid) : Phase → Prop
  | .findRoom input building | .save input building =>
    input.tenantId = building.ownerId ∨ Leased tr p input
  | _ => True

/-- What is known of each room. -/
structure Opened (tr : List (Step State Event)) (row : ChatRoomRow) (p : Pid)
    (input : EnsureRoomInput) : Prop where
  inserted : ∃ st ∈ tr, Inserts st p input row
  caller : row.toDomain.isParticipant input.userId = true
  tenant : row.tenantId = row.ownerId ∨ Leased tr p input

structure Traced (tr : List (Step State Event)) (s : State) : Prop where
  sound : Sound s
  checked : ∀ p, Checked tr p (s.phase p)
  rooms : ∀ row ∈ s.rooms.rows, ∃ p input, Opened tr row p input

theorem Leased.snoc (leased : Leased tr p input) : Leased (tr ++ [st]) p input := by
  obtain ⟨step, mem, passed⟩ := leased
  exact ⟨step, List.mem_append_left _ mem, passed⟩

theorem Checked.snoc (checked : Checked tr p phase) : Checked (tr ++ [st]) p phase := by
  cases phase with
  | findRoom | save => exact checked.imp_right Leased.snoc
  | _ => trivial

theorem Opened.snoc (opened : Opened tr row p input) : Opened (tr ++ [st]) row p input := by
  obtain ⟨⟨step, mem, inserts⟩, caller, tenant⟩ := opened
  exact ⟨⟨step, List.mem_append_left _ mem, inserts⟩, caller, tenant.imp_right Leased.snoc⟩

/-- The check of the tenant: its first query finds the owner, its second a lease. -/
theorem checked_of_reads (sound : Sound st.pre) (mem : st ∈ tr) (now : st.pre.phase p = before)
    (entered : st.post.phase p = after) (reads : Reads st.pre before after)
    (checked : Checked tr p before) : Checked tr p after := by
  have named := sound.named p
  rw [now] at named
  cases reads with
  | owner owns => exact .inl (owner_unique sound.unique owns named.1)
  | tenant rents => exact .inr ⟨st, mem, ⟨_, by rw [now]; exact Phase.noConfusion, entered⟩, rents⟩
  | missing => exact checked
  | noBuilding | stranger | participant | other | notMember | existing => trivial

/-- The columns of the row. -/
theorem Inserts.columns (inserts : Inserts st p input row) : ∃ building,
    st.pre.phase p = .save input building ∧ row.buildingId = input.buildingId ∧
      row.ownerId = building.ownerId ∧ row.tenantId = input.tenantId := by
  obtain ⟨building, at_save, same⟩ := inserts.at_save
  exact ⟨building, at_save, congrArg (·.buildingId) same, congrArg (·.ownerId) same,
    congrArg (·.tenantId) same⟩

theorem Inserts.opened (inserts : Inserts st p input row) (mem : st ∈ tr)
    (named : Named st.pre (st.pre.phase p)) (checked : Checked tr p (st.pre.phase p)) :
    Opened tr row p input := by
  obtain ⟨building, at_save, -, owner, tenant⟩ := inserts.columns
  rw [at_save] at named checked
  refine ⟨⟨st, mem, inserts⟩, decide_eq_true ?_, ?_⟩
  · show some row.ownerId = input.userId ∨ some row.tenantId = input.userId
    rw [owner, tenant]
    exact named.2.imp_right Eq.symm
  · rwa [owner, tenant]

theorem Traced.of_steps (h : Traced tr s) (steps : Steps s a s') :
    Traced (tr ++ [⟨s, a, s'⟩]) s' := by
  have last : (⟨s, a, s'⟩ : Step State Event) ∈ tr ++ [⟨s, a, s'⟩] :=
    List.mem_concat_self
  have checked : ∀ q, Checked (tr ++ [⟨s, a, s'⟩]) q (s.phase q) := fun q => (h.checked q).snoc
  have rooms : ∀ row ∈ s.rooms.rows, ∃ p input, Opened (tr ++ [⟨s, a, s'⟩]) row p input := by
    intro row mem
    obtain ⟨p, input, opened⟩ := h.rooms row mem
    exact ⟨p, input, opened.snoc⟩
  refine ⟨h.sound.of_steps steps, ?_, ?_⟩
  · have enters : ∀ q phase, Checked (tr ++ [⟨s, a, s'⟩]) q phase →
        ∀ p, Checked (tr ++ [⟨s, a, s'⟩]) p (Function.update s.phase q phase p) := fun _ _ now =>
      (Function.forall_update_iff s.phase (Checked (tr ++ [⟨s, a, s'⟩]))).2
        ⟨now, fun p _ => checked p⟩
    cases steps with
    | change => exact checked
    | request moves =>
      cases moves with
      | @read q _ _ reads =>
        exact enters _ _ (checked_of_reads h.sound last rfl enter_self reads (checked q))
      | arrive | save | clash => exact enters _ _ trivial
  · cases steps with
    | change => exact rooms
    | request moves =>
      cases moves with
      | @save p _ input building _ at_save _ inserted =>
        intro row mem
        rcases (ChatRoomTable.mem_inserted inserted).1 mem with mem | rfl
        · exact rooms row mem
        · exact ⟨p, input, Inserts.opened ⟨rfl, ⟨building, at_save, rfl⟩, inserted⟩ last
            (h.sound.named p) (checked p)⟩
      | arrive | read | clash => exact rooms

theorem traced_of_run (init : changing.start s₀) (run : changing.Run Any s₀ tr s) : Traced tr s := by
  refine run.trace_invariant (fun _ _ _ _ h _ next => h.of_steps (.of_next next)) ?_
  refine ⟨sound_of_start init, fun p => ?_, fun row mem => ?_⟩
  · rw [init.1]
    trivial
  · rw [init.2.1] at mem
    cases mem

/-! ## Messages -/

/-- A message that a request sends is that of a participant of its room. -/
theorem sender_of_sendMessage {store store' : Store} {times : SendTimes} {id : MessageId}
    {input : SendMessageInput} {payload : ChatMessagePayload}
    (sent : sendMessage store times id input = (.ok payload, store')) :
    ∃ room, store.rooms.findById payload.roomId = some room ∧
      room.isParticipant payload.senderId = true := by
  simp only [sendMessage] at sent
  split at sent
  · cases sent
  · rename_i room found
    split_ifs at sent with stranger
    · cases sent
    · split at sent
      · cases sent
      · rename_i message created
        simp only [Message.create] at created
        split_ifs at created
        obtain rfl := Except.ok.inj created
        obtain rfl := Except.ok.inj (congrArg Prod.fst sent)
        have participant : room.isParticipant input.userId = true := by simpa using stranger
        exact ⟨room, found, participant⟩

/-- Of two different participants, each has one other. -/
theorem other_participant {room : ChatRoom} (distinct : room.tenantId ≠ room.ownerId)
    (participant : room.isParticipant u = true) :
    ∃! other : Auth.UserId, other ≠ u ∧ room.isParticipant other = true := by
  simp only [ChatRoom.isParticipant, Option.some.injEq, decide_eq_true_eq] at participant ⊢
  rcases participant with rfl | rfl
  · refine ⟨room.tenantId, ⟨distinct, .inr rfl⟩, ?_⟩
    rintro other ⟨ne, same | same⟩
    · exact absurd same.symm ne
    · exact same.symm
  · refine ⟨room.ownerId, ⟨distinct.symm, .inl rfl⟩, ?_⟩
    rintro other ⟨ne, same | same⟩
    · exact same.symm
    · exact absurd same.symm ne

/-! ## Rooms of a landlord and a tenant -/

/-- An `INSERT` for a tenant who does not own the building opens a room for two. -/
theorem Inserts.distinct (inserts : Inserts st p input row) (sound : Sound st.pre)
    (calm : ForTenant st.pre st.label) : row.tenantId ≠ row.ownerId := by
  obtain ⟨building, at_save, -, owner, tenant⟩ := inserts.columns
  have named := sound.named p
  rw [at_save] at named
  intro same
  have owns := calm p row.id input building inserts.label at_save
  rw [← tenant, same, owner, named.1] at owns
  cases owns

/-- An `INSERT` leaves a room of its pair. -/
theorem room_of_save {id : RoomId} (moves : Moves s (.step p id) s')
    (at_save : s.phase p = .save input building) : ∃ row ∈ s'.rooms.rows, row.pair = input.pair := by
  cases moves with
  | read reads =>
    rw [at_save] at reads
    cases reads
  | save at_save' _ inserted =>
    obtain ⟨rfl, rfl⟩ := Phase.save.inj (at_save.symm.trans at_save')
    exact ⟨_, (ChatRoomTable.mem_inserted inserted).2 (.inr rfl), rfl⟩
  | @clash _ _ _ _ row at_save' mem same =>
    obtain ⟨rfl, rfl⟩ := Phase.save.inj (at_save.symm.trans at_save')
    exact ⟨row, mem, same⟩

/-- The messages of rooms for two. -/
theorem conversations_of_paired (paired : ∀ row ∈ s.rooms.rows, ∃ p input, Paired tr s row p input) :
    Conversations tr s := by
  refine ⟨paired, fun store store' times id input payload same sent => ?_⟩
  obtain ⟨room, found, participant⟩ := sender_of_sendMessage sent
  rw [same] at found
  obtain ⟨row, hrow, rfl⟩ := Option.map_eq_some_iff.1 found
  obtain ⟨p, request, paired⟩ := paired row (List.mem_of_find?_eq_some hrow)
  exact ⟨row.toDomain, found, participant, other_participant paired.distinct participant⟩

/-- Every room has a landlord and a tenant exactly where no `INSERT` is for a tenant who owns the
building. -/
theorem conversations_iff (init : changing.start s₀) (run : changing.Run Any s₀ tr s) :
    (∀ st ∈ tr, ForTenant st.pre st.label) ↔ Conversations tr s := by
  have traced := traced_of_run init run
  constructor
  · intro calm
    refine conversations_of_paired fun row mem => ?_
    obtain ⟨p, input, opened⟩ := traced.rooms row mem
    obtain ⟨st, hst, inserts⟩ := opened.inserted
    have distinct := inserts.distinct (sound_of_mem init run hst) (calm st hst)
    exact ⟨p, input, opened.inserted, opened.caller, traced.sound.owner row mem, distinct,
      opened.tenant.resolve_left distinct⟩
  · rintro ⟨rooms, -⟩ st hst p id input building label at_save
    obtain ⟨front, back, rfl⟩ := List.append_of_mem hst
    have steps := Steps.of_next (run.next_of_mem hst)
    have rest := later_of_run run.split.2
    have later := steps.later.trans rest
    rw [label] at steps
    cases steps with
    | request moves =>
      obtain ⟨row, mem, pair⟩ := room_of_save moves at_save
      obtain ⟨buildingId, tenantId⟩ := Prod.mk.inj pair
      obtain ⟨_, _, paired⟩ := rooms row (rest.rooms row mem)
      by_contra owned
      have owns := later.owns _ _ (Bool.eq_true_of_not_eq_false owned)
      rw [← buildingId, ← tenantId] at owns
      exact paired.distinct (owner_unique traced.sound.unique owns paired.owner)

/-! ## A tenant and an owner alone -/

/-- `ForTenant`, computed. -/
def forTenant (s : State) : Event → Bool
  | .request (.step p _) =>
    match s.phase p with
    | .save input _ => !s.owns input.tenantId input.buildingId
    | _ => true
  | _ => true

theorem forTenant_of_checked (s : State) (a : Event) (h : forTenant s a = true) : ForTenant s a := by
  rintro p id input building rfl at_save
  simpa only [forTenant, at_save, Bool.not_eq_true'] using h

theorem roomless_changing : changing.start roomless := ⟨rfl, rfl, by unfold Table.Unique; decide⟩

/-- The steps of one request, from its arrival. -/
def request (input : EnsureRoomInput) (n : ℕ) : List Event :=
  .request (.arrive 0 input) :: List.replicate n (.request (.step 0 0))

/-- The lease of the tenant ends between the check and the `INSERT`. -/
theorem room_of_tenant : ∃ tr s, changing.Run Any roomless tr s ∧ s.leases = [] ∧
    s.rooms.rows = [⟨0, 2, 1, 5⟩] ∧ Conversations tr s := by
  have computed : (changing.exec forTenant roomless
      (request (ensure 5) 3 ++ .change roomless.premises [] ::
        List.replicate 2 (.request (.step 0 0)))).map (fun s => (s.leases, s.rooms.rows)) =
      some ([], [⟨0, 2, 1, 5⟩]) := by
    decide
  obtain ⟨s, reached, seen⟩ := Option.map_eq_some_iff.1 computed
  obtain ⟨tr, run, -⟩ := exists_run_of_exec forTenant_of_checked reached
  obtain ⟨leases, rooms⟩ := Prod.mk.inj seen
  have all : changing.Run Any roomless tr s := run.mono fun _ _ _ => trivial
  exact ⟨tr, s, all, leases, rooms,
    (conversations_iff roomless_changing all).1 fun _ mem => run.meets_of_mem mem⟩

/-- User 1 owns building 2, and there is no lease. -/
def vacant : State := { roomless with leases := [] }

/-- The owner names himself as the tenant, and gets a room with himself. -/
theorem room_of_one : ∃ tr s, changing.start vacant ∧ changing.Run Any vacant tr s ∧
    tr.map (·.label) = request ⟨some 1, 2, 1⟩ 4 ∧ s.leases = [] ∧ s.rooms.rows = [⟨0, 2, 1, 1⟩] ∧
    ¬ Conversations tr s := by
  have computed : (changing.exec (fun _ _ => true) vacant (request ⟨some 1, 2, 1⟩ 4)).map
      (fun s => (s.leases, s.rooms.rows)) = some ([], [⟨0, 2, 1, 1⟩]) := by
    decide
  obtain ⟨s, reached, seen⟩ := Option.map_eq_some_iff.1 computed
  obtain ⟨tr, run, labels⟩ := exists_run_of_exec (C := Any) (fun _ _ _ => trivial) reached
  obtain ⟨leases, rooms⟩ := Prod.mk.inj seen
  refine ⟨tr, s, roomless_changing, run, labels, leases, rooms, fun conversations => ?_⟩
  obtain ⟨_, _, paired⟩ := conversations.rooms ⟨0, 2, 1, 1⟩ (rooms ▸ List.mem_singleton_self _)
  exact paired.distinct rfl

end EstateServer.Chat.Participants
