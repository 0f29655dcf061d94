import EstateServer.Chat.Domain
import EstateServer.Library.Expiring
import EstateServer.Library.Newest

/-!
# Chat messages

The table of the messages, the list of the recent messages of each room (`RedisMessageCache`), and the
requests `SendMessage` and `GetMessages`.

The key `chat:room:{roomId}:recent` differs from room to room, and a list of payloads survives
`JSON.stringify` and `JSON.parse`: the cache is a list of payloads for each room.

The content of a message is whatever a socket has sent, and no pipe checks it: relay and cache take any
JSON value, the table only some strings (`Content.storable`).
-/

namespace EstateServer.Chat

open Js

abbrev MessageId := ℕ

/-- The content that a socket sends: a string, or another JSON value, by its text. -/
inductive Content
  | text (value : Text)
  | other (json : Text) (truthy : Bool)
  deriving DecidableEq, Repr

instance : Coe String Content := ⟨fun s => .text (Text.of s)⟩

def Content.truthy : Content → Bool
  | text value => value ≠ []
  | other _ truthy => truthy

/-- The column takes the content: a string without the character NUL and without half a pair of
surrogates. -/
def Content.storable : Content → Bool
  | text value => value.isWellFormed && 0 ∉ value
  | other _ _ => false

/-- `Message`, and a row of its table. -/
structure Message where
  id : MessageId
  roomId : RoomId
  senderId : Auth.UserId
  content : Content
  createdAt : Instant
  deriving DecidableEq, Repr

structure ChatMessagePayload where
  roomId : RoomId
  messageId : MessageId
  senderId : Auth.UserId
  content : Content
  createdAt : Instant
  deriving DecidableEq, Repr

/-- How a request fails: an error of the catalogue, or a `DomainError` (its message). -/
inductive Failure
  | app (error : ChatError)
  | domain (message : String)
  deriving DecidableEq, Repr

namespace Message

/-- `create`; the id is a `randomUUID()`, and the time is that of the clock. -/
def create (id : MessageId) (createdAt : Instant) (roomId : RoomId) (senderId : Auth.UserId)
    (content : Content) : Except String Message :=
  if content.truthy then .ok { id, roomId, senderId, content, createdAt }
  else .error "내용은 필수입니다."

def payload (message : Message) : ChatMessagePayload where
  roomId := message.roomId
  messageId := message.id
  senderId := message.senderId
  content := message.content
  createdAt := message.createdAt

end Message

/-! ## `PrismaMessageRepository` -/

abbrev MessageTable := Table.Keyed Message.id

/-- The row that `persist` inserts. -/
def ChatMessagePayload.row (payload : ChatMessagePayload) : Message where
  id := payload.messageId
  roomId := payload.roomId
  senderId := payload.senderId
  content := payload.content
  createdAt := payload.createdAt

/-- `persist`; a message that is there is ignored (`P2002`), and with a content that the column does not
take the query throws. -/
def persist (messages : MessageTable) (payload : ChatMessagePayload) : MessageTable :=
  if payload.content.storable then (messages.insert payload.row).getD messages else messages

theorem rows_persist {messages : MessageTable} {message : Message}
    (new : message.id ∉ messages.rows.map Message.id) (storable : message.content.storable = true) :
    (persist messages message.payload).rows = messages.rows ++ [message] := by
  rw [persist, if_pos (show message.payload.content.storable = true from storable)]
  show ((messages.insert message).getD messages).rows = _
  rw [Table.Keyed.insert, dif_pos new]
  rfl

theorem persist_of_refused {messages : MessageTable} {payload : ChatMessagePayload}
    (refused : ¬ payload.content.storable = true) : persist messages payload = messages :=
  if_neg refused

theorem mem_persist {messages : MessageTable} {payload : ChatMessagePayload} {row : Message} :
    row ∈ (persist messages payload).rows ↔ row ∈ messages.rows ∨
      row = payload.row ∧ payload.row.id ∉ messages.rows.map Message.id ∧
        payload.content.storable = true := by
  by_cases storable : payload.content.storable = true
  · rw [persist, if_pos storable, Table.Keyed.mem_getD_insert]
    simp only [storable, and_true]
  · rw [persist_of_refused storable]
    exact (or_iff_left fun inserted => storable inserted.2.2).symm

/-- The messages of a room. -/
def ofRoom (messages : MessageTable) (roomId : RoomId) : List Message :=
  messages.rows.filter (·.roomId = roomId)

def findRecent (messages : MessageTable) (roomId : RoomId) (limit : ℤ) : List Message :=
  Prisma.take limit (newestFirst Message.createdAt (ofRoom messages roomId))

/-! ## `RedisMessageCache` -/

/-- `RECENT_LIMIT`. -/
def recentLimit : ℕ := 50

/-- `RECENT_TTL_SEC`, in milliseconds. -/
def recentTtlMs : ℕ := 60 * 60 * 24 * 1000

abbrev MessageCache := RoomId → Expiring.Key (List ChatMessagePayload)

/-- The times of the three commands of a `push`. -/
structure PushTimes where
  lpush : Instant
  ltrim : Instant
  expire : Instant
  deriving DecidableEq, Repr

/-- `push`, on the list of the room. -/
def pushed (times : PushTimes) (message : ChatMessagePayload)
    (key : Expiring.Key (List ChatMessagePayload)) : Expiring.Key (List ChatMessagePayload) :=
  let lpushed := Expiring.update (fun list => message :: list.getD []) times.lpush key
  let ltrimmed := Expiring.modify (Redis.range 0 (recentLimit - 1)) times.ltrim lpushed
  Expiring.expire recentTtlMs times.expire ltrimmed

def push (cache : MessageCache) (times : PushTimes) (message : ChatMessagePayload) : MessageCache :=
  Function.update cache message.roomId (pushed times message (cache message.roomId))

/-- The list of the room as a command at the time `now` sees it; without the key it is empty. -/
def recent (cache : MessageCache) (now : Instant) (roomId : RoomId) : List ChatMessagePayload :=
  (Expiring.read now (cache roomId)).getD []

def getRecent (cache : MessageCache) (now : Instant) (roomId : RoomId) (limit : ℤ) :
    List ChatMessagePayload :=
  Redis.range 0 (limit - 1) (recent cache now roomId)

/-! ## The requests -/

structure Store where
  rooms : ChatRoomTable
  cache : MessageCache
  messages : MessageTable

structure SendMessageInput where
  userId : Auth.UserId
  roomId : RoomId
  content : Content
  deriving DecidableEq, Repr

/-- When a message is created and when it is pushed. -/
structure SendTimes extends PushTimes where
  createdAt : Instant
  deriving DecidableEq, Repr

/-- `SendMessageUseCase.execute`, to the end of the persistence of its event.  The relay to the sockets
is not part of the store. -/
def sendMessage (store : Store) (times : SendTimes) (id : MessageId) (input : SendMessageInput) :
    Except Failure ChatMessagePayload × Store :=
  match store.rooms.findById input.roomId with
  | none => (.error (.app .roomNotFound), store)
  | some room =>
    if !room.isParticipant input.userId then (.error (.app .notRoomParticipant), store)
    else
      match Message.create id times.createdAt input.roomId input.userId input.content with
      | .error message => (.error (.domain message), store)
      | .ok message =>
        (.ok message.payload,
          { store with
            cache := push store.cache times.toPushTimes message.payload
            messages := persist store.messages message.payload })

structure GetMessagesInput where
  userId : Option Auth.UserId
  roomId : RoomId
  limit : ℤ
  deriving DecidableEq, Repr

/-- `GetMessagesUseCase.execute`. -/
def getMessages (store : Store) (now : Instant) (input : GetMessagesInput) :
    Except ChatError (List ChatMessagePayload) :=
  match store.rooms.findById input.roomId with
  | none => .error .roomNotFound
  | some room =>
    if !room.isParticipant input.userId then .error .notRoomParticipant
    else
      let cached := getRecent store.cache now input.roomId input.limit
      if cached.length > 0 then .ok cached
      else .ok ((findRecent store.messages input.roomId input.limit).map Message.payload)

end EstateServer.Chat
