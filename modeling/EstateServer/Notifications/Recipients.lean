import EstateServer.Board.Repository
import EstateServer.Chat.Domain
import EstateServer.Events.DomainEvent

/-!
# Recipients

`PrismaRecipientResolver` collects the members of a building as a set, where the board asks
`isMember` about one user.  `mem_forPost`: on a database whose foreign keys hold, the set is that of
the users for whom `isMember` holds, the actor left out.
-/

namespace EstateServer.Notifications

open Property Board Chat

/-- The rows that the resolver and the membership checks read. -/
structure Directory where
  buildings : Table.Keyed BuildingRow.id
  units : Table.Keyed UnitRow.id
  leases : Table.Keyed LeaseRow.id
  rooms : ChatRoomTable
  posts : PostTable
  unit_building : ∀ unit ∈ units.rows, unit.buildingId ∈ buildings.rows.map (·.id)
  lease_unit : ∀ lease ∈ leases.rows, lease.unitId ∈ units.rows.map (·.id)
  post_building : ∀ post ∈ posts.rows, post.buildingId ∈ buildings.rows.map (·.id)

/-- The payloads of the events, with the fields that the resolver reads. -/
structure ResolvedPayload where
  roomId : RoomId
  senderId : Auth.UserId
  postId : PostId
  buildingId : BuildingId
  deriving DecidableEq, Repr

namespace Directory

variable (db : Directory)

/-- `PrismaMembershipChecker.isMember`. -/
def isMember (userId : Auth.UserId) (buildingId : BuildingId) : Bool :=
  ownsBuilding db.buildings.rows userId buildingId ||
    leasesIn db.leases.rows db.units.rows userId buildingId

/-- `forMessage`. -/
def forMessage (payload : ResolvedPayload) : List Auth.UserId :=
  match db.rooms.findById payload.roomId with
  | none => []
  | some room => [room.ownerId, room.tenantId].filter fun id => id ≠ payload.senderId

/-- `forPostAuthor`. -/
def forPostAuthor (payload : ResolvedPayload) (actorId : Option Auth.UserId) : List Auth.UserId :=
  match db.posts.findById payload.postId with
  | none => []
  | some post => if some post.authorId = actorId then [] else [post.authorId]

/-- The active leases of the units of a building. -/
def activeLeases (buildingId : BuildingId) : List LeaseRow :=
  db.leases.rows.filter fun lease => lease.status = .active ∧
    db.units.rows.any fun row => row.id = lease.unitId ∧ row.buildingId = buildingId

/-- `forPost`; the set of the members keeps the first of equal elements. -/
def forPost (payload : ResolvedPayload) (actorId : Option Auth.UserId) : List Auth.UserId :=
  match db.buildings.rows.find? fun row => row.id = payload.buildingId with
  | none => []
  | some building =>
    let members :=
      (building.ownerId :: (db.activeLeases payload.buildingId).map (·.tenantId)).eraseDups
    match actorId with
    | none => members
    | some actorId => members.filter fun id => id ≠ actorId

/-- `PrismaRecipientResolver.resolve`. -/
def resolve (event : DomainEvent ResolvedPayload) : List Auth.UserId :=
  match event.eventType with
  | .messageSent => db.forMessage event.payload
  | .commentCreated => db.forPostAuthor event.payload event.actorId
  | .postCreated => db.forPost event.payload event.actorId
  | .likeCreated => db.forPostAuthor event.payload event.actorId
  | .tenantJoined | .leaseEnded => []

end Directory

/-! ## Sets of members -/

/-- A set has no duplicates. -/
theorem nodup_eraseDups (ids : List Auth.UserId) : ids.eraseDups.Nodup := by
  -- by the length: what is left after the first element is a filter of the rest
  induction n : ids.length using Nat.strongRecOn generalizing ids with
  | _ n ih =>
    cases ids with
    | nil => exact .nil
    | cons id rest =>
      have shorter := Nat.lt_succ_of_le (List.length_filter_le (fun other => !other == id) rest)
      rw [List.eraseDups_cons]
      refine List.nodup_cons.2 ⟨fun again => ?_, ih _ (n ▸ shorter) _ rfl⟩
      simp [List.mem_eraseDups] at again

section

variable {db : Directory} {payload : ResolvedPayload} {actorId : Option Auth.UserId}
  {u : Auth.UserId} {buildingId : BuildingId}

theorem owns_iff : ownsBuilding db.buildings.rows u buildingId = true ↔
    ∃ building ∈ db.buildings.rows, building.id = buildingId ∧ building.ownerId = u := by
  simp [ownsBuilding]

theorem leases_iff : leasesIn db.leases.rows db.units.rows u buildingId = true ↔
    ∃ lease ∈ db.activeLeases buildingId, lease.tenantId = u := by
  rw [leasesIn, List.any_eq_true]
  constructor
  · rintro ⟨lease, mem, hit⟩
    obtain ⟨mine, active, here⟩ := of_decide_eq_true hit
    exact ⟨lease, List.mem_filter.2 ⟨mem, decide_eq_true ⟨active, here⟩⟩, of_decide_eq_true mine⟩
  · rintro ⟨lease, found, rfl⟩
    obtain ⟨mem, hit⟩ := List.mem_filter.1 found
    exact ⟨lease, mem, decide_eq_true ⟨decide_eq_true rfl, of_decide_eq_true hit⟩⟩

/-- The building of an active lease exists. -/
theorem building_of_lease {lease : LeaseRow} (found : lease ∈ db.activeLeases buildingId) :
    buildingId ∈ db.buildings.rows.map (·.id) := by
  obtain ⟨-, here⟩ := of_decide_eq_true (List.mem_filter.1 found).2
  obtain ⟨row, mem, hit⟩ := List.any_eq_true.1 here
  obtain ⟨-, rfl⟩ := of_decide_eq_true hit
  exact db.unit_building row mem

/-- The members of a building that exists: the owner, and the tenants of the active leases. -/
theorem isMember_iff {building : BuildingRow}
    (found : db.buildings.rows.find? (fun row => row.id = buildingId) = some building) :
    db.isMember u buildingId = true ↔
      u ∈ building.ownerId :: (db.activeLeases buildingId).map (·.tenantId) := by
  obtain ⟨mem, rfl⟩ := db.buildings.unique.find?_iff.1 found
  rw [Directory.isMember, Bool.or_eq_true, owns_iff, leases_iff, List.mem_cons, List.mem_map]
  refine or_congr_left ⟨?_, fun same => ⟨building, mem, rfl, same.symm⟩⟩
  rintro ⟨other, mem', same, rfl⟩
  rw [db.buildings.unique.eq_of_mem mem' mem same]

/-- A building that does not exist has no members. -/
theorem not_isMember (missing : db.buildings.rows.find? (fun row => row.id = buildingId) = none) :
    db.isMember u buildingId = false := by
  have none : ∀ building ∈ db.buildings.rows, building.id ≠ buildingId := fun building mem same =>
    List.find?_eq_none.1 missing building mem (decide_eq_true same)
  refine Bool.eq_false_iff.2 fun member => ?_
  rw [Directory.isMember, Bool.or_eq_true, owns_iff, leases_iff] at member
  rcases member with ⟨building, mem, same, -⟩ | ⟨lease, found, -⟩
  · exact none building mem same
  · obtain ⟨building, mem, same⟩ := List.mem_map.1 (building_of_lease found)
    exact none building mem same

theorem mem_forPost : u ∈ db.forPost payload actorId ↔
    some u ≠ actorId ∧ db.isMember u payload.buildingId = true := by
  unfold Directory.forPost
  cases found : db.buildings.rows.find? fun row => row.id = payload.buildingId with
  | none => simp [not_isMember found]
  | some building =>
    rw [isMember_iff found, ← List.mem_eraseDups]
    cases actorId with
    | none => simp
    | some actorId => simp [and_comm]

theorem nodup_forPost : (db.forPost payload actorId).Nodup := by
  unfold Directory.forPost
  cases db.buildings.rows.find? fun row => row.id = payload.buildingId with
  | none => exact .nil
  | some building =>
    cases actorId with
    | none => exact nodup_eraseDups _
    | some actorId => exact (nodup_eraseDups _).filter _

/-! ## Rooms and authors -/

theorem mem_forMessage {room : ChatRoom} (found : db.rooms.findById payload.roomId = some room) :
    u ∈ db.forMessage payload ↔ u ≠ payload.senderId ∧ room.isParticipant u = true := by
  unfold Directory.forMessage
  rw [found]
  show u ∈ [room.ownerId, room.tenantId].filter _ ↔ _
  rw [List.mem_filter, List.mem_pair, decide_eq_true_iff, and_comm, ChatRoom.isParticipant,
    decide_eq_true_iff, Option.some_inj, Option.some_inj]
  exact and_congr_right fun _ => or_congr eq_comm eq_comm

/-- The owner and the tenant of a room may be one user, but then that user is the sender. -/
theorem nodup_forMessage {room : ChatRoom} (found : db.rooms.findById payload.roomId = some room)
    (participant : room.isParticipant payload.senderId = true) : (db.forMessage payload).Nodup := by
  unfold Directory.forMessage
  rw [found]
  show ([room.ownerId, room.tenantId].filter _).Nodup
  by_cases same : room.ownerId = room.tenantId
  · have sender : room.tenantId = payload.senderId := by
      rcases of_decide_eq_true participant with owner | tenant
      · exact same.symm.trans (Option.some.inj owner)
      · exact Option.some.inj tenant
    rw [same, sender, List.filter_eq_nil_iff.2]
    · exact .nil
    · simp
  · exact (List.nodup_cons.2 ⟨by simpa using same, List.nodup_singleton _⟩).filter _

theorem findById_iff {posts : PostTable} {id : PostId} {post : Post} :
    posts.findById id = some post ↔
      ∃ row ∈ posts.rows, row.id = id ∧ row.deletedAt = none ∧ row.toDomain = post := by
  have one : ∀ {row}, posts.rows.find? (fun row => row.id = id ∧ row.deletedAt = none) = some row ↔
      row ∈ posts.rows ∧ row.id = id ∧ row.deletedAt = none := by
    intro row
    rw [Table.find?_iff fun r mem r' mem' hit hit' => posts.unique.eq_of_mem mem mem'
      ((of_decide_eq_true hit).1.trans (of_decide_eq_true hit').1.symm), decide_eq_true_iff]
  rw [PostTable.findById, Option.map_eq_some_iff]
  simp only [one, and_assoc]

theorem mem_forPostAuthor : u ∈ db.forPostAuthor payload actorId ↔ some u ≠ actorId ∧
    ∃ row ∈ db.posts.rows, row.id = payload.postId ∧ row.deletedAt = none ∧ row.authorId = u := by
  have author :
      (∃ row ∈ db.posts.rows, row.id = payload.postId ∧ row.deletedAt = none ∧ row.authorId = u) ↔
        ∃ post, db.posts.findById payload.postId = some post ∧ post.authorId = u := by
    simp only [findById_iff]
    constructor
    · rintro ⟨row, mem, same, live, rfl⟩
      exact ⟨row.toDomain, ⟨row, mem, same, live, rfl⟩, rfl⟩
    · rintro ⟨-, ⟨row, mem, same, live, rfl⟩, rfl⟩
      exact ⟨row, mem, same, live, rfl⟩
  rw [author, Directory.forPostAuthor]
  cases db.posts.findById payload.postId with
  | none => simp
  | some post =>
    show u ∈ (if some post.authorId = actorId then [] else [post.authorId]) ↔ _
    split_ifs with own
    · subst own
      simp [eq_comm]
    · constructor
      · intro mem
        obtain rfl := List.mem_singleton.1 mem
        exact ⟨own, post, rfl, rfl⟩
      · rintro ⟨-, other, found, rfl⟩
        rw [Option.some.inj found]
        exact List.mem_singleton_self _

theorem nodup_forPostAuthor : (db.forPostAuthor payload actorId).Nodup := by
  unfold Directory.forPostAuthor
  split
  · exact .nil
  · split_ifs
    · exact .nil
    · exact List.nodup_singleton _

end

/-! ## Resolving -/

/-- An event of a post notifies the members of its building, a message the other participant of its
room, a comment or a like the author of its post unless it is deleted; never the actor, and nobody
twice. -/
theorem recipients_exact (db : Directory) (event : DomainEvent ResolvedPayload) :
    (event.eventType = .postCreated →
      (db.resolve event).Nodup ∧ ∀ u, u ∈ db.resolve event ↔
        some u ≠ event.actorId ∧ db.isMember u event.payload.buildingId = true) ∧
    (event.eventType = .messageSent → ∀ room : ChatRoom,
      db.rooms.findById event.payload.roomId = some room →
      room.isParticipant event.payload.senderId = true →
      (db.resolve event).Nodup ∧ ∀ u, u ∈ db.resolve event ↔
        u ≠ event.payload.senderId ∧ room.isParticipant u = true) ∧
    (event.eventType = .commentCreated ∨ event.eventType = .likeCreated →
      (db.resolve event).Nodup ∧ ∀ u, u ∈ db.resolve event ↔ some u ≠ event.actorId ∧
        ∃ row ∈ db.posts.rows,
          row.id = event.payload.postId ∧ row.deletedAt = none ∧ row.authorId = u) := by
  refine ⟨fun type => ?_, fun type room found participant => ?_, fun type => ?_⟩
  · have post : db.resolve event = db.forPost event.payload event.actorId := by
      rw [Directory.resolve, type]
    rw [post]
    exact ⟨nodup_forPost, fun u => mem_forPost⟩
  · have message : db.resolve event = db.forMessage event.payload := by
      rw [Directory.resolve, type]
    rw [message]
    exact ⟨nodup_forMessage found participant, fun u => mem_forMessage found⟩
  · have author : db.resolve event = db.forPostAuthor event.payload event.actorId := by
      rcases type with type | type <;> rw [Directory.resolve, type]
    rw [author]
    exact ⟨nodup_forPostAuthor, fun u => mem_forPostAuthor⟩

/-- User 1 owns the building and rents a unit of it; user 2 rents two units, and user 3 did once. -/
def sharedBuilding : Directory where
  buildings := ⟨[⟨7, 1⟩], by unfold Table.Unique; decide⟩
  units := ⟨[⟨0, 7⟩, ⟨1, 7⟩], by unfold Table.Unique; decide⟩
  leases := ⟨[⟨0, 0, 2, .active, none⟩, ⟨1, 1, 2, .active, none⟩, ⟨2, 1, 3, .ended, some 5⟩,
    ⟨3, 0, 1, .active, none⟩], by unfold Table.Unique; decide⟩
  rooms := ⟨[⟨4, 7, 1, 2⟩], by unfold Table.Unique; decide, by unfold Table.Unique; decide⟩
  posts := ⟨[], by unfold Table.Unique; decide⟩
  unit_building := by decide
  lease_unit := by decide
  post_building := by decide

/-- A post or a message of user 2. -/
def byTenant (eventType : EventType) : DomainEvent ResolvedPayload where
  eventId := 0
  eventType := eventType
  occurredAt := 0
  actorId := some 2
  entityType := .post
  entityId := 0
  payload := ⟨4, 2, 0, 7⟩

theorem recipients_exact_shared :
    (sharedBuilding.resolve (byTenant .postCreated) = [1] ∧
      ∀ u, u ∈ sharedBuilding.resolve (byTenant .postCreated) ↔
        some u ≠ some 2 ∧ sharedBuilding.isMember u 7 = true) ∧
    sharedBuilding.resolve (byTenant .messageSent) = [1] ∧
    (sharedBuilding.resolve (byTenant .messageSent)).Nodup := by
  obtain ⟨post, -, -⟩ := recipients_exact sharedBuilding (byTenant .postCreated)
  obtain ⟨-, message, -⟩ := recipients_exact sharedBuilding (byTenant .messageSent)
  exact ⟨⟨by decide, (post rfl).2⟩, by decide, (message rfl ⟨some 4, 7, 1, 2⟩ rfl (by decide)).1⟩

end EstateServer.Notifications
