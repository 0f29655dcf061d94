import EstateServer.Library.Table
import EstateServer.Property.Domain

/-!
# Chat rooms

`ChatRoom`, the errors of the chat, and the statements of `PrismaChatRoomRepository`.
-/

namespace EstateServer.Chat

open Property

abbrev RoomId := ℕ

/-- `ChatRoom`; without an id it is not saved yet. -/
structure ChatRoom where
  id : Option RoomId
  buildingId : BuildingId
  ownerId : Auth.UserId
  tenantId : Auth.UserId
  deriving DecidableEq, Repr

/-- A row of `ChatRoom`. -/
structure ChatRoomRow where
  id : RoomId
  buildingId : BuildingId
  ownerId : Auth.UserId
  tenantId : Auth.UserId
  deriving DecidableEq, Repr

/-- `ChatError`: the errors of the catalogue that the requests below throw. -/
inductive ChatError
  | buildingNotFound
  | notRoomParticipant
  | tenantNotMember
  | roomNotFound
  deriving DecidableEq, Repr

/-- The catalogue entry of an error. -/
def ChatError.spec : ChatError → AppErrorSpec
  | buildingNotFound => ⟨"CHAT_BUILDING_NOT_FOUND", 404, "건물을 찾을 수 없습니다."⟩
  | notRoomParticipant => ⟨"CHAT_NOT_ROOM_PARTICIPANT", 403, "대화방 참가자가 아닙니다."⟩
  | tenantNotMember => ⟨"CHAT_TENANT_NOT_MEMBER", 403, "해당 건물의 입주자가 아닙니다."⟩
  | roomNotFound => ⟨"CHAT_ROOM_NOT_FOUND", 404, "대화방을 찾을 수 없습니다."⟩

/-- `ChatRoom.create`. -/
def ChatRoom.create (buildingId : BuildingId) (ownerId tenantId : Auth.UserId) : ChatRoom :=
  { id := none, buildingId, ownerId, tenantId }

def ChatRoom.isParticipant (room : ChatRoom) (userId : Option Auth.UserId) : Bool :=
  some room.ownerId = userId ∨ some room.tenantId = userId

/-! ## `PrismaChatRoomRepository` -/

namespace ChatRoomRow

/-- The columns of the unique constraint. -/
def pair (row : ChatRoomRow) : BuildingId × Auth.UserId := (row.buildingId, row.tenantId)

def toDomain (row : ChatRoomRow) : ChatRoom where
  id := some row.id
  buildingId := row.buildingId
  ownerId := row.ownerId
  tenantId := row.tenantId

end ChatRoomRow

/-- The row that `save` inserts. -/
def ChatRoom.row (room : ChatRoom) (id : RoomId) : ChatRoomRow where
  id := id
  buildingId := room.buildingId
  ownerId := room.ownerId
  tenantId := room.tenantId

structure ChatRoomTable where
  rows : List ChatRoomRow
  id_unique : Table.Unique ChatRoomRow.id rows
  pair_unique : Table.Unique ChatRoomRow.pair rows

namespace ChatRoomTable

variable (rooms : ChatRoomTable)

def findById (id : RoomId) : Option ChatRoom :=
  (rooms.rows.find? fun row => row.id = id).map (·.toDomain)

def findByBuildingAndTenant (buildingId : BuildingId) (tenantId : Auth.UserId) : Option ChatRoom :=
  (rooms.rows.find? fun row => row.pair = (buildingId, tenantId)).map (·.toDomain)

/-- `INSERT`, which a unique constraint may refuse. -/
def insert (row : ChatRoomRow) : Option ChatRoomTable :=
  if h : row.id ∉ rooms.rows.map (·.id) ∧ row.pair ∉ rooms.rows.map ChatRoomRow.pair then
    some
      { rows := rooms.rows ++ [row]
        id_unique := rooms.id_unique.concat h.1
        pair_unique := rooms.pair_unique.concat h.2 }
  else none

variable {rooms} {rooms' : ChatRoomTable} {row : ChatRoomRow} {buildingId : BuildingId}
  {tenantId : Auth.UserId} {room : ChatRoom}

theorem insert_eq_some (h : rooms.insert row = some rooms') :
    (∀ other ∈ rooms.rows, other.pair ≠ row.pair) ∧ rooms'.rows = rooms.rows ++ [row] := by
  unfold insert at h
  split_ifs at h with new
  rw [← Option.some.inj h]
  exact ⟨fun other mem same => new.2 (List.mem_map.2 ⟨other, mem, same⟩), rfl⟩

theorem mem_inserted (inserted : rooms'.rows = rooms.rows ++ [row]) {other : ChatRoomRow} :
    other ∈ rooms'.rows ↔ other ∈ rooms.rows ∨ other = row := by
  rw [inserted, List.mem_append, List.mem_singleton]

/-- Only a broken unique constraint refuses a row with a new id. -/
theorem insert_eq_none (new : row.id ∉ rooms.rows.map (·.id)) :
    rooms.insert row = none ↔ ∃ other ∈ rooms.rows, other.pair = row.pair := by
  unfold insert
  rw [dite_eq_right_iff, ← List.mem_map]
  simp [new]

theorem findByBuildingAndTenant_eq_some
    (h : rooms.findByBuildingAndTenant buildingId tenantId = some room) :
    ∃ row ∈ rooms.rows, row.pair = (buildingId, tenantId) ∧ room = row.toDomain := by
  obtain ⟨row, found, rfl⟩ := Option.map_eq_some_iff.1 h
  obtain ⟨mem, same⟩ := rooms.pair_unique.find?_iff.1 found
  exact ⟨row, mem, same, rfl⟩

end ChatRoomTable

end EstateServer.Chat
