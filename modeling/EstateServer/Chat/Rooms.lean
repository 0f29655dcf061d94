import EstateServer.Chat.History

/-!
# The rooms of a user

`ListRooms` reads the rooms of a user and then, for each room on its own, the first of the recent
messages, or the newest row where there is none.  The rooms are read at different moments, while
`SendMessage` requests run.

`list_rooms`: the rooms of the user are listed, each once and no other, with what was its newest message
at the moment at which it was read, in the order of these messages.
-/

namespace EstateServer.Chat.History

open Machine

/-! ## `ListRoomsUseCase` -/

structure RoomSummary where
  room : ChatRoom
  lastMessage : Option ChatMessagePayload
  deriving DecidableEq, Repr

/-- `findByParticipant`. -/
def findByParticipant (rooms : ChatRoomTable) (userId : Auth.UserId) : List ChatRoom :=
  (rooms.rows.filter fun row => row.ownerId = userId ∨ row.tenantId = userId).map (·.toDomain)

/-- `lastMessage`: the cache is read first, at the time `now`, and then, if need be, the table. -/
def lastMessage (cache : MessageCache) (now : Instant) (messages : MessageTable) (roomId : RoomId) :
    Option ChatMessagePayload :=
  match getRecent cache now roomId 1 with
  | cached :: _ => some cached
  | [] => (findRecent messages roomId 1).head?.map Message.payload

/-- The key that the summaries are sorted by; the text of a room without messages is empty, and comes
before every time. -/
def RoomSummary.at (summary : RoomSummary) : ℕ :=
  match summary.lastMessage with
  | some message => message.createdAt + 1
  | none => 0

/-- The summary of a room, with what `lastMessage` returns for it. -/
def summary (last : RoomId → Option ChatMessagePayload) (room : ChatRoom) :
    Except String RoomSummary :=
  match room.id with
  | none => .error s!"참가자 방 목록에 id 없는 방이 포함됨: buildingId={room.buildingId}"
  | some id => .ok { room, lastMessage := last id }

/-- `execute`, with what `lastMessage` returns for each room. -/
def listRooms (rooms : ChatRoomTable) (last : RoomId → Option ChatMessagePayload)
    (userId : Auth.UserId) : Except String (List RoomSummary) :=
  ((findByParticipant rooms userId).mapM (summary last)).map (newestFirst RoomSummary.at)

/-! ## The statement -/

/-- When the list of a room is read, and when its rows are. -/
structure Reading where
  cached : State
  now : Instant
  stored : State

/-- What is read of the room. -/
def Reading.last (reading : Reading) (roomId : RoomId) : Option ChatMessagePayload :=
  lastMessage reading.cached.store.cache reading.now reading.stored.store.messages roomId

/-- The message was the newest of its room at one of the two moments of the reading. -/
def Reading.Newest (reading : Reading) (roomId : RoomId) (message : Option ChatMessagePayload) :
    Prop :=
  message = (history reading.cached.store roomId).head? ∨
    message = (history reading.stored.store roomId).head?

/-- The rooms of the user, each once and with its newest message, in the order of these. -/
structure Listed (rooms : ChatRoomTable) (readings : RoomId → Reading) (userId : Auth.UserId)
    (summaries : List RoomSummary) : Prop where
  once : (summaries.map (·.room)).Nodup
  own : ∀ room, (∃ summary ∈ summaries, summary.room = room) ↔
    ∃ row ∈ rooms.rows, row.toDomain = room ∧ room.isParticipant userId = true
  newest : ∀ summary ∈ summaries, ∃ id, summary.room.id = some id ∧
    (readings id).Newest id summary.lastMessage
  sorted : summaries.Pairwise fun a b => b.at ≤ a.at

/-! ## The last message -/

variable {s s' s₀ : State} {tr tr' : List (Step State Send)} {roomId : RoomId} {rooms : ChatRoomTable}
  {userId : Auth.UserId}
  {row : ChatRoomRow} {room : ChatRoom} {last : RoomId → Option ChatMessagePayload}

theorem head?_of_prefix {α : Type*} {l whole : List α} (h : l <+: whole) (nonempty : l ≠ []) :
    l.head? = whole.head? := by
  obtain ⟨rest, rfl⟩ := h
  rw [List.head?_append_of_ne_nil _ nonempty]

/-- The first of the cached messages is the newest message, and so is the first row of the table. -/
theorem newest_of_sound {reading : Reading} (cached : Sound tr reading.cached)
    (stored : Sound tr' reading.stored) : reading.Newest roomId (reading.last roomId) := by
  have first : getRecent reading.cached.store.cache reading.now roomId 1 =
      (recent reading.cached.store.cache reading.now roomId).take 1 :=
    Redis.range_zero Nat.one_pos _
  unfold Reading.last lastMessage
  cases h : recent reading.cached.store.cache reading.now roomId with
  | nil =>
    rw [first, h]
    refine .inr ?_
    have newest := findRecent_of_sound stored roomId 1
    show Option.map _ _ = _
    rw [← List.head?_map, show ((1 : ℤ)) = ((1 : ℕ) : ℤ) from rfl, newest, List.head?_take,
      if_neg Nat.one_ne_zero]
  | cons message rest =>
    rw [first, h]
    refine .inl ?_
    have part := recent_prefix_history cached reading.now roomId
    rw [h] at part
    exact head?_of_prefix part (List.cons_ne_nil message rest)

/-! ## The rooms -/

theorem isParticipant_iff : row.toDomain.isParticipant userId = true ↔
    row.ownerId = userId ∨ row.tenantId = userId := by
  simp [ChatRoom.isParticipant, ChatRoomRow.toDomain]

theorem mem_findByParticipant : room ∈ findByParticipant rooms userId ↔
    ∃ row ∈ rooms.rows, row.toDomain.isParticipant userId = true ∧ room = row.toDomain := by
  simp only [findByParticipant, List.mem_map, List.mem_filter, decide_eq_true_eq, isParticipant_iff]
  constructor
  · rintro ⟨row, ⟨mem, own⟩, rfl⟩
    exact ⟨row, mem, own, rfl⟩
  · rintro ⟨row, mem, own, rfl⟩
    exact ⟨row, ⟨mem, own⟩, rfl⟩

theorem nodup_findByParticipant : (findByParticipant rooms userId).Nodup := by
  refine List.Nodup.of_map ChatRoom.id ?_
  rw [findByParticipant, List.map_map]
  have ids : (rooms.rows.map fun row => some row.id).Nodup := by
    have ids : (rooms.rows.map ChatRoomRow.id).Nodup := rooms.id_unique
    have ids := ids.map (Option.some_injective RoomId)
    rw [List.map_map] at ids
    exact ids
  exact ids.sublist (List.filter_sublist.map _)

/-- The rooms of the table have ids. -/
theorem mapM_summary {list : List ChatRoomRow} : (list.map (·.toDomain)).mapM (summary last) =
    .ok (list.map fun row => { room := row.toDomain, lastMessage := last row.id }) := by
  induction list with
  | nil => rfl
  | cons row list ih =>
    rw [List.map_cons, List.mapM_cons, ih]
    rfl

/-- The summaries before they are sorted. -/
def summaries (rooms : ChatRoomTable) (last : RoomId → Option ChatMessagePayload)
    (userId : Auth.UserId) : List RoomSummary :=
  (rooms.rows.filter fun row => row.ownerId = userId ∨ row.tenantId = userId).map fun row =>
    { room := row.toDomain, lastMessage := last row.id }

theorem listRooms_eq :
    listRooms rooms last userId = .ok (newestFirst RoomSummary.at (summaries rooms last userId)) := by
  rw [listRooms, findByParticipant, mapM_summary]
  rfl

theorem map_room_summaries :
    (summaries rooms last userId).map (·.room) = findByParticipant rooms userId := by
  rw [summaries, List.map_map]
  rfl

/-- Every room of the user is listed once, with its newest message. -/
theorem list_rooms (rooms : ChatRoomTable) (readings : RoomId → Reading) (userId : Auth.UserId)
    (start : sending.start s₀)
    (cached : ∀ id, ∃ tr, sending.Run Persisted s₀ tr (readings id).cached)
    (stored : ∀ id, ∃ tr, sending.Run Persisted (readings id).cached tr (readings id).stored) :
    ∃ listed, listRooms rooms (fun id => (readings id).last id) userId = .ok listed ∧
      Listed rooms readings userId listed := by
  have perm : (newestFirst RoomSummary.at (summaries rooms (fun id => (readings id).last id)
      userId)).Perm (summaries rooms (fun id => (readings id).last id) userId) := perm_newestFirst
  have found : (newestFirst RoomSummary.at (summaries rooms (fun id => (readings id).last id)
      userId)).map (·.room) |>.Perm (findByParticipant rooms userId) :=
    map_room_summaries ▸ perm.map (·.room)
  refine ⟨_, listRooms_eq, ?_, ?_, ?_, pairwise_newestFirst⟩
  · exact found.nodup_iff.2 nodup_findByParticipant
  · intro room
    rw [← List.mem_map, found.mem_iff, mem_findByParticipant]
    constructor
    · rintro ⟨row, mem, own, rfl⟩
      exact ⟨row, mem, rfl, own⟩
    · rintro ⟨row, mem, rfl, own⟩
      exact ⟨row, mem, own, rfl⟩
  · intro summary mem
    obtain ⟨row, -, rfl⟩ := List.mem_map.1 (perm.mem_iff.1 mem)
    obtain ⟨tr, run⟩ := cached row.id
    obtain ⟨tr', run'⟩ := stored row.id
    exact ⟨row.id, rfl,
      newest_of_sound (sound_of_run start run) (sound_of_run start (run.trans run'))⟩

/-- The owner 1 has a second room, in which nobody has written. -/
def twoRooms : ChatRoomTable where
  rows := [⟨9, 2, 1, 6⟩, ⟨0, 2, 1, 5⟩]
  id_unique := by
    show [9, 0].Nodup
    decide
  pair_unique := by
    show [(2, 6), (2, 5)].Nodup
    decide

/-- The other room was quiet for a day. -/
theorem list_rooms_of_owner : ∃ tr s listed, sending.Run Persisted silent tr s ∧
    listRooms twoRooms (fun id => lastMessage s.store.cache 90000000 s.store.messages id) 1 =
      .ok listed ∧
    listed = [⟨⟨some 0, 2, 1, 5⟩, some ⟨0, 7, 5, "hello", 0⟩⟩, ⟨⟨some 9, 2, 1, 6⟩, none⟩] ∧
    Listed twoRooms (fun _ => ⟨s, 90000000, s⟩) 1 listed := by
  have computed : (sending.exec (fun s send => decide (Persisted s send)) silent
      [sent 0 7 "hello"]).map (fun s =>
      listRooms twoRooms (fun id => lastMessage s.store.cache 90000000 s.store.messages id) 1) =
      some (.ok [⟨⟨some 0, 2, 1, 5⟩, some ⟨0, 7, 5, "hello", 0⟩⟩, ⟨⟨some 9, 2, 1, 6⟩, none⟩]) := by
    decide
  obtain ⟨s, reached, seen⟩ := Option.map_eq_some_iff.1 computed
  obtain ⟨tr, run, -⟩ := exists_run_of_exec (C := Persisted) (fun _ _ => of_decide_eq_true) reached
  obtain ⟨listed, answer, exactly⟩ := list_rooms twoRooms (fun _ => ⟨s, 90000000, s⟩) 1 silent_start
    (fun _ => ⟨tr, run⟩) fun _ => ⟨[], .refl s⟩
  exact ⟨tr, s, listed, run, answer, Except.ok.inj (answer.symm.trans seen), exactly⟩

end EstateServer.Chat.History
