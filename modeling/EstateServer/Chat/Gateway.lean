import EstateServer.Auth.TokenKinds
import EstateServer.Chat.Relayed
import EstateServer.Library.PubSub

/-!
# The gateway of the chat

Sockets connect to instances with a token, join rooms and send messages, while the requests of
`SendMessage` run, rooms are created, and instances gain and lose their subscription to the channel
`chat:messages`.  A handler that awaits a query is a process of its own, so anything may happen between
its query and its `client.join`.

The channel is what the requests have relayed, and the sockets are those of a hub (`State.hub`).

`confidential`: a socket only receives messages of rooms that its user takes part in, each written by a
user who takes part in the room as well and who has sent it through a socket of his own.
-/

namespace EstateServer.Chat

/-- The message of the exception. -/
def Failure.message : Failure → String
  | .app error => error.spec.message
  | .domain message => message

namespace Gateway

open Machine Auth

abbrev Instance := ℕ

abbrev SocketId := ℕ

/-- An execution of `onMessage`, and of its `SendMessage`. -/
abbrev Pid := Delivery.Pid

/-- An execution of `onJoin`. -/
abbrev JoinId := ℕ

/-- What the event `error` carries. -/
inductive SocketError
  | code (code : String)
  | message (message : String)
  deriving DecidableEq, Repr

inductive JoinPhase
  | idle
  /-- Before `findById`, and before the check of what it has returned. -/
  | findRoom (k : SocketId) (userId : UserId) (roomId : RoomId)
  | check (k : SocketId) (userId : UserId) (roomId : RoomId) (room : Option ChatRoom)
  | done
  deriving DecidableEq, Repr

abbrev Link := PubSub.Link Instance RoomId ChatMessagePayload

abbrev Hub := PubSub.Hub Instance SocketId RoomId ChatMessagePayload

abbrev HubLabel := PubSub.Label Instance SocketId RoomId ChatMessagePayload

abbrev relay : Machine Hub HubLabel := PubSub.pubSub ChatMessagePayload.roomId

structure State where
  sending : Delivery.State
  cursor : Instance → Option ℕ
  link : SocketId → Option Link
  /-- `client.data.userId`. -/
  userId : SocketId → Option UserId
  /-- The socket that a request comes from. -/
  client : Pid → Option SocketId
  join : JoinId → JoinPhase
  /-- The errors that the handlers have emitted to a socket. -/
  errors : SocketId → List SocketError

inductive Label
  /-- `onModuleInit` subscribes, and the subscription is renewed after it was lost. -/
  | subscribe (i : Instance)
  | lose (i : Instance)
  /-- The handler of the subscription emits the next message. -/
  | relay (i : Instance)
  /-- `handleConnection`; a handshake without a token, or with another text, is `none`. -/
  | connect (k : SocketId) (i : Instance) (token : Option Jwt)
  | disconnect (k : SocketId)
  | onJoin (j : JoinId) (k : SocketId) (roomId : RoomId)
  | joinStep (j : JoinId)
  /-- The query of `onJoin` throws. -/
  | joinFails (j : JoinId)
  | onMessage (p : Pid) (k : SocketId) (roomId : RoomId) (content : Content)
  | step (p : Pid) (id : MessageId)
  | fail (p : Pid) (applied : Bool) (exception : String)
  | consume (payload : ChatMessagePayload)
  /-- `EnsureRoom` inserts a room. -/
  | save (row : ChatRoomRow)
  | advance (now : Instant)
  deriving DecidableEq, Repr

namespace State

variable (s : State)

/-- The channel `chat:messages`, and those who listen to it. -/
def hub : Hub where
  channel := s.sending.relayed.map Prod.snd
  cursor := s.cursor
  link := s.link

def rewire (hub : Hub) : State := { s with cursor := hub.cursor, link := hub.link }

/-- A step of the hub that publishes nothing. -/
def wire (a : HubLabel) : Option State := (relay.next s.hub a).map s.rewire

def connected (k : SocketId) : Bool := (s.link k).any (·.connected)

/-- `client.emit('error', …)`. -/
def emitError (k : SocketId) (error : SocketError) : State :=
  { s with errors := Function.update s.errors k (s.errors k ++ [error]) }

def enterJoin (j : JoinId) (phase : JoinPhase) : State :=
  { s with join := Function.update s.join j phase }

/-- `onJoin` refuses. -/
def refuse (j : JoinId) (k : SocketId) : State :=
  (s.emitError k (.code "CHAT_NOT_ROOM_PARTICIPANT")).enterJoin j .done

/-- The `catch` of `onMessage`, when the request has just ended with an error. -/
def answer (p : Pid) (exception : String) : State :=
  match s.client p, s.sending.phase p with
  | some k, .done (.failed failure) => s.emitError k (.message failure.message)
  | some k, .done .threw => s.emitError k (.message exception)
  | _, _ => s

/-- A step of the requests. -/
def send (a : Delivery.Label) : Option State :=
  (s.sending.next a).map fun sending => { s with sending }

/-- The state after a step. -/
def next (jwt : JwtModule) : Label → Option State
  | .subscribe i => s.wire (.subscribe i)
  | .lose i => s.wire (.lose i)
  | .relay i => s.wire (.deliver i)
  | .connect k i token =>
    match token.bind (·.verify jwt.secret s.sending.now) with
    -- the client is disconnected at once
    | none => some s
    | some payload => (s.wire (.connect k i)).map fun s =>
        { s with userId := Function.update s.userId k payload.sub }
  | .disconnect k => s.wire (.disconnect k)
  | .onJoin j k roomId =>
    if s.join j = .idle ∧ s.connected k then
      match s.userId k with
      | none => some (s.refuse j k)
      | some userId => some (s.enterJoin j (.findRoom k userId roomId))
    else none
  | .joinStep j =>
    match s.join j with
    | .findRoom k userId roomId =>
      some (s.enterJoin j (.check k userId roomId (s.sending.rooms.findById roomId)))
    | .check k userId roomId room =>
      if room.any (·.isParticipant (some userId)) then
        -- a socket that has been disconnected meanwhile receives nothing
        some (((s.wire (.join k roomId)).getD s).enterJoin j .done)
      else some (s.refuse j k)
    | _ => none
  | .joinFails j =>
    match s.join j with
    | .findRoom _ _ _ => some (s.enterJoin j .done)
    | _ => none
  | .onMessage p k roomId content =>
    if s.connected k then
      match s.userId k with
      | none => some s
      | some userId =>
        ({ s with client := Function.update s.client p (some k) }).send
          (.arrive p { userId, roomId, content })
    else none
  | .step p id => (s.send (.step p id)).map (·.answer p "")
  | .fail p applied exception => (s.send (.fail p applied)).map (·.answer p exception)
  | .consume payload => s.send (.consume payload)
  | .save row => (s.sending.rooms.insert row).bind fun rooms => s.send (.rooms rooms)
  | .advance now => s.send (.advance now)

end State

/-- The gateway, with any rooms, messages and cache there. -/
def gateway (jwt : JwtModule) : Machine State Label where
  start s := Delivery.sending.start s.sending ∧ (s.cursor = fun _ => none) ∧ (s.link = fun _ => none) ∧
    (s.userId = fun _ => none) ∧ s.join = fun _ => .idle
  next s a := s.next jwt a

/-! ## The statement -/

/-- The user takes part in the room. -/
def State.TakesPart (s : State) (userId : UserId) (roomId : RoomId) : Prop :=
  ∃ room, s.sending.rooms.findById roomId = some room ∧ room.isParticipant (some userId) = true

/-- The socket has connected with a token of the user. -/
def Authentic (jwt : JwtModule) (tr : List (Step State Label)) (k : SocketId) (userId : UserId) :
    Prop :=
  ∃ st ∈ tr, ∃ i token claims, st.label = .connect k i (some token) ∧
    token.verify jwt.secret st.pre.sending.now = some claims ∧ claims.sub = some userId

/-- The socket has asked to send the content to the room. -/
def Asked (tr : List (Step State Label)) (k : SocketId) (roomId : RoomId) (content : Content) :
    Prop :=
  ∃ st ∈ tr, ∃ p, st.label = .onMessage p k roomId content

/-- A socket receives what participants have written to rooms of its user, in the order in which the
messages were relayed and each at most once. -/
structure Confidential (jwt : JwtModule) (tr : List (Step State Label)) (s : State) (k : SocketId)
    (link : Link) : Prop where
  reader : ∀ payload ∈ link.received, ∃ userId, Authentic jwt tr k userId ∧
    s.TakesPart userId payload.roomId
  writer : ∀ payload ∈ link.received, s.TakesPart payload.senderId payload.roomId ∧
    ∃ k', Authentic jwt tr k' payload.senderId ∧ Asked tr k' payload.roomId payload.content
  order : link.received.Sublist (s.sending.relayed.map Prod.snd)
  once : (link.received.map ChatMessagePayload.messageId).Nodup

/-! ## What a step does -/

variable {jwt : JwtModule} {s s' s₀ : State} {a : Label} {b : HubLabel} {hub : Hub}
  {tr : List (Step State Label)} {k : SocketId} {roomId : RoomId} {userId : UserId}

/-- The step of the hub that a label stands for. -/
def Label.wired : Label → Option HubLabel
  | .subscribe i => some (.subscribe i)
  | .lose i => some (.lose i)
  | .relay i => some (.deliver i)
  | .disconnect k => some (.disconnect k)
  | _ => none

inductive Moves (jwt : JwtModule) (s : State) : Label → State → Prop
  | wire {a : Label} {b : HubLabel} {hub : Hub} (wired : a.wired = some b)
      (next : relay.next s.hub b = some hub) : Moves jwt s a (s.rewire hub)
  | connect {k : SocketId} {i : Instance} {token : Jwt} {claims : Claims} {hub : Hub}
      (verified : token.verify jwt.secret s.sending.now = some claims)
      (next : relay.next s.hub (.connect k i) = some hub) :
      Moves jwt s (.connect k i (some token))
        { s with
          cursor := hub.cursor, link := hub.link
          userId := Function.update s.userId k claims.sub }
  /-- A refused handshake, or a message of a socket without a user. -/
  | ignore {a : Label} : Moves jwt s a s
  | refuse {a : Label} {j : JoinId} {k : SocketId} : Moves jwt s a (s.refuse j k)
  | findRoom {j : JoinId} {k : SocketId} {userId : UserId} {roomId : RoomId}
      (user : s.userId k = some userId) :
      Moves jwt s (.onJoin j k roomId) (s.enterJoin j (.findRoom k userId roomId))
  | check {j : JoinId} {k : SocketId} {userId : UserId} {roomId : RoomId}
      (here : s.join j = .findRoom k userId roomId) : Moves jwt s (.joinStep j)
        (s.enterJoin j (.check k userId roomId (s.sending.rooms.findById roomId)))
  | enter {j : JoinId} {k : SocketId} {userId : UserId} {roomId : RoomId} {room : ChatRoom}
      {hub : Hub} (here : s.join j = .check k userId roomId (some room))
      (member : room.isParticipant (some userId) = true)
      (next : relay.next s.hub (.join k roomId) = some hub) :
      Moves jwt s (.joinStep j) ((s.rewire hub).enterJoin j .done)
  /-- The query of `onJoin` throws, or the socket is gone. -/
  | leave {a : Label} {j : JoinId} : Moves jwt s a (s.enterJoin j .done)
  | ask {p : Pid} {k : SocketId} {roomId : RoomId} {content : Content} {userId : UserId}
      {sending : Delivery.State} (user : s.userId k = some userId)
      (next : Delivery.sending.next s.sending (.arrive p { userId, roomId, content }) = some sending) :
      Moves jwt s (.onMessage p k roomId content)
        { s with sending, client := Function.update s.client p (some k) }
  | send {a : Label} {b : Delivery.Label} {sending : Delivery.State}
      {errors : SocketId → List SocketError} (begun : ∀ p input, b ≠ .arrive p input)
      (rooms : ∀ rooms, b ≠ .rooms rooms)
      (next : Delivery.sending.next s.sending b = some sending) :
      Moves jwt s a { s with sending, errors }
  | save {row : ChatRoomRow} {rooms : ChatRoomTable}
      (inserted : s.sending.rooms.insert row = some rooms) :
      Moves jwt s (.save row) { s with sending := { s.sending with rooms } }

theorem eq_answer (s : State) (p : Pid) (exception : String) :
    ∃ errors, s.answer p exception = { s with errors } := by
  unfold State.answer
  split
  · exact ⟨_, rfl⟩
  · exact ⟨_, rfl⟩
  · exact ⟨s.errors, rfl⟩

/-- The step of a request, with the answer to its socket. -/
theorem moves_of_send {b : Delivery.Label} {p : Pid} {exception : String}
    (begun : ∀ p input, b ≠ .arrive p input) (rooms : ∀ rooms, b ≠ .rooms rooms)
    (next : (s.send b).map (·.answer p exception) = some s') : Moves jwt s a s' := by
  obtain ⟨t, sent, rfl⟩ := Option.map_eq_some_iff.1 next
  obtain ⟨sending, stepped, rfl⟩ := Option.map_eq_some_iff.1 sent
  obtain ⟨errors, same⟩ := eq_answer { s with sending } p exception
  rw [same]
  exact .send begun rooms stepped

theorem moves_of_quiet {b : Delivery.Label} (begun : ∀ p input, b ≠ .arrive p input)
    (rooms : ∀ rooms, b ≠ .rooms rooms) (next : s.send b = some s') : Moves jwt s a s' := by
  obtain ⟨sending, stepped, rfl⟩ := Option.map_eq_some_iff.1 next
  exact .send begun rooms stepped

theorem moves_of_wire (wired : a.wired = some b) (next : s.wire b = some s') : Moves jwt s a s' := by
  obtain ⟨hub, stepped, rfl⟩ := Option.map_eq_some_iff.1 next
  exact .wire wired stepped

theorem Moves.of_next (next : (gateway jwt).next s a = some s') : Moves jwt s a s' := by
  cases a with
  | subscribe i => exact moves_of_wire rfl next
  | lose i => exact moves_of_wire rfl next
  | relay i => exact moves_of_wire rfl next
  | disconnect k => exact moves_of_wire rfl next
  | connect k i token =>
    simp only [gateway, State.next] at next
    split at next
    · rw [← Option.some.inj next]
      exact .ignore
    · rename_i payload verified
      obtain ⟨token, rfl, signed⟩ := Option.bind_eq_some_iff.1 verified
      obtain ⟨t, wired, rfl⟩ := Option.map_eq_some_iff.1 next
      obtain ⟨hub, stepped, rfl⟩ := Option.map_eq_some_iff.1 wired
      exact .connect signed stepped
  | onJoin j k roomId =>
    simp only [gateway, State.next] at next
    split_ifs at next
    split at next
    · rw [← Option.some.inj next]
      exact .refuse
    · rw [← Option.some.inj next]
      exact .findRoom ‹_›
  | joinStep j =>
    simp only [gateway, State.next] at next
    split at next
    · rw [← Option.some.inj next]
      exact .check ‹_›
    · rename_i k userId roomId found here
      split_ifs at next with member
      · obtain ⟨room, rfl, allowed⟩ := (Option.any_eq_true _ _).1 member
        rw [← Option.some.inj next]
        cases wired : s.wire (.join k roomId) with
        | none => exact .leave
        | some t =>
          obtain ⟨hub, stepped, rfl⟩ := Option.map_eq_some_iff.1 wired
          exact .enter here allowed stepped
      · rw [← Option.some.inj next]
        exact .refuse
    · cases next
  | joinFails j =>
    simp only [gateway, State.next] at next
    split at next
    · rw [← Option.some.inj next]
      exact .leave
    · cases next
  | onMessage p k roomId content =>
    simp only [gateway, State.next] at next
    split_ifs at next
    split at next
    · rw [← Option.some.inj next]
      exact .ignore
    · obtain ⟨sending, stepped, rfl⟩ := Option.map_eq_some_iff.1 next
      exact .ask ‹_› stepped
  | step p id => exact moves_of_send (by simp) (by simp) next
  | fail p applied exception => exact moves_of_send (by simp) (by simp) next
  | consume payload => exact moves_of_quiet (by simp) (by simp) next
  | advance now => exact moves_of_quiet (by simp) (by simp) next
  | save row =>
    obtain ⟨rooms, inserted, sent⟩ := Option.bind_eq_some_iff.1 next
    rw [← Option.some.inj sent]
    exact .save inserted

/-! ## The hub -/

/-- A step of the hub that is not behind the label. -/
structure Mirrors (a : Label) (b : HubLabel) : Prop where
  lose : ∀ i, b = .lose i → a = .lose i
  disconnect : ∀ k, b = .disconnect k → a = .disconnect k

theorem hub_rewire (next : relay.next s.hub b = some hub)
    (quiet : ∀ message, b ≠ .publish message) : (s.rewire hub).hub = hub := by
  have same := (PubSub.Moves.of_next next).channel_eq quiet
  obtain ⟨channel, cursor, link⟩ := hub
  subst same
  rfl

theorem mirrors_of_wired (wired : a.wired = some b) :
    Mirrors a b ∧ ∀ message, b ≠ .publish message := by
  cases a <;> cases wired <;>
    exact ⟨⟨by simp, by simp⟩, by simp⟩

/-- A step of the gateway is one of the hub, or changes nothing there. -/
theorem Moves.hub_step (moves : Moves jwt s a s') : s'.hub = s.hub ∨
    ∃ b, Mirrors a b ∧ relay.next s.hub b = some s'.hub := by
  cases moves with
  | @wire a b hub wired next =>
    obtain ⟨mirrors, quiet⟩ := mirrors_of_wired wired
    exact .inr ⟨b, mirrors, by rw [hub_rewire next quiet]; exact next⟩
  | @connect k i token claims hub verified next =>
    refine .inr ⟨.connect k i, ⟨by simp, by simp⟩, ?_⟩
    have same : (s.rewire hub).hub = hub := hub_rewire next (by simp)
    exact next.trans (congrArg some same.symm)
  | @enter j k userId roomId room hub here member next =>
    refine .inr ⟨.join k roomId, ⟨by simp, by simp⟩, ?_⟩
    have same : (s.rewire hub).hub = hub := hub_rewire next (by simp)
    exact next.trans (congrArg some same.symm)
  | @ask p k roomId content userId sending user next =>
    rcases Delivery.relayed_of_moves (.of_next next) with same | ⟨q, message, here, published⟩
    · exact .inl (by simp [State.hub, same])
    · exact .inr ⟨.publish message.payload, ⟨by simp, by simp⟩, by
        simp [State.hub, published, PubSub.pubSub, PubSub.Hub.next]⟩
  | @send a b sending errors begun rooms next =>
    rcases Delivery.relayed_of_moves (.of_next next) with same | ⟨q, message, here, published⟩
    · exact .inl (by simp [State.hub, same])
    · exact .inr ⟨.publish message.payload, ⟨by simp, by simp⟩, by
        simp [State.hub, published, PubSub.pubSub, PubSub.Hub.next]⟩
  | ignore => exact .inl rfl
  | refuse => exact .inl rfl
  | findRoom => exact .inl rfl
  | check => exact .inl rfl
  | leave => exact .inl rfl
  | save => exact .inl rfl

/-! ## The invariant -/

theorem Authentic.concat {st : Step State Label} (h : Authentic jwt tr k userId) :
    Authentic jwt (tr ++ [st]) k userId := by
  obtain ⟨st', mem, h⟩ := h
  exact ⟨st', List.mem_append_left _ mem, h⟩

theorem Asked.concat {st : Step State Label} {content : Content} (h : Asked tr k roomId content) :
    Asked (tr ++ [st]) k roomId content := by
  obtain ⟨st', mem, h⟩ := h
  exact ⟨st', List.mem_append_left _ mem, h⟩

/-- Rooms stay as they are. -/
def KeepsRooms (s s' : State) : Prop :=
  ∀ roomId room, s.sending.rooms.findById roomId = some room →
    s'.sending.rooms.findById roomId = some room

theorem Moves.keepsRooms (moves : Moves jwt s a s') : KeepsRooms s s' := by
  intro roomId room found
  cases moves with
  | @ask p k _ content userId sending user next =>
    have same := Delivery.rooms_of_moves (.of_next next) (by simp)
    simpa only [same] using found
  | @send a b sending errors begun rooms next =>
    have same := Delivery.rooms_of_moves (.of_next next) rooms
    simpa only [same] using found
  | @save row rooms inserted =>
    obtain ⟨row', there, rfl⟩ := Option.map_eq_some_iff.1 found
    refine Option.map_eq_some_iff.2 ⟨row', ?_, rfl⟩
    rw [(ChatRoomTable.insert_eq_some inserted).2, List.find?_append, there, Option.some_or]
  | _ => exact found

theorem State.TakesPart.mono (h : s.TakesPart userId roomId) (keeps : KeepsRooms s s') :
    s'.TakesPart userId roomId := by
  obtain ⟨room, found, member⟩ := h
  exact ⟨room, keeps roomId room found, member⟩

/-- The handler serves a user, and the room that it carries is there. -/
def JoinPhase.Justified (jwt : JwtModule) (tr : List (Step State Label)) (s : State) :
    JoinPhase → Prop
  | findRoom k userId _ => Authentic jwt tr k userId
  | check k userId roomId room => Authentic jwt tr k userId ∧
    ∀ found, room = some found → s.sending.rooms.findById roomId = some found
  | _ => True

theorem JoinPhase.Justified.mono {phase : JoinPhase} {st : Step State Label}
    (h : phase.Justified jwt tr s) (keeps : KeepsRooms s s') :
    phase.Justified jwt (tr ++ [st]) s' := by
  cases phase with
  | idle => trivial
  | findRoom k userId roomId => exact Authentic.concat h
  | check k userId roomId room => exact ⟨h.1.concat, fun found same => keeps _ _ (h.2 found same)⟩
  | done => trivial

/-- What holds in every state of every run. -/
structure Justified (jwt : JwtModule) (tr : List (Step State Label)) (s : State) : Prop where
  users : ∀ k userId, s.userId k = some userId → Authentic jwt tr k userId
  joins : ∀ j, (s.join j).Justified jwt tr s
  joined : ∀ k link, s.link k = some link → ∀ roomId ∈ link.joined,
    ∃ userId, Authentic jwt tr k userId ∧ s.TakesPart userId roomId
  requests : ∀ p input, s.sending.phase p = .findRoom input →
    ∃ k, Authentic jwt tr k input.userId ∧ Asked tr k input.roomId input.content
  messages : ∀ p message, (p, message) ∈ s.sending.created →
    s.TakesPart message.senderId message.roomId ∧
      ∃ k, Authentic jwt tr k message.senderId ∧ Asked tr k message.roomId message.content
  sending : Delivery.Sound s.sending
  relayed : Delivery.Relayed s.sending
  hub : PubSub.Sound ChatMessagePayload.roomId s.hub

/-- Nobody has logged in on a socket but with a token. -/
theorem Moves.users (moves : Moves jwt s a s') (h : Justified jwt tr s)
    (here : s'.userId k = some userId) : Authentic jwt (tr ++ [⟨s, a, s'⟩]) k userId := by
  cases moves with
  | @connect l i token claims hub verified next =>
    by_cases own : k = l
    · subst own
      simp only [Function.update_self] at here
      exact ⟨_, List.mem_concat_self, i, token, claims, rfl, verified, here⟩
    · exact (h.users k userId ((Function.update_of_ne own ..).symm.trans here)).concat
  | _ => exact (h.users k userId here).concat

theorem Moves.joins (moves : Moves jwt s a s') (h : Justified jwt tr s) (j : JoinId) :
    (s'.join j).Justified jwt (tr ++ [⟨s, a, s'⟩]) s' := by
  have keeps := moves.keepsRooms
  have enter : ∀ {i phase st}, JoinPhase.Justified jwt (tr ++ [st]) s' phase →
      JoinPhase.Justified jwt (tr ++ [st]) s' (Function.update s.join i phase j) := by
    intro i phase st justified
    by_cases own : j = i
    · subst own
      rwa [Function.update_self]
    · rw [Function.update_of_ne own]
      exact (h.joins j).mono keeps
  cases moves with
  | refuse => exact enter trivial
  | findRoom user => exact enter (h.users _ _ user).concat
  | @check i l userId roomId here =>
    have justified := h.joins i
    rw [here] at justified
    exact enter ⟨Authentic.concat justified, fun found same => same⟩
  | enter => exact enter trivial
  | leave => exact enter trivial
  | _ => exact (h.joins j).mono keeps

theorem Moves.joined (moves : Moves jwt s a s') (h : Justified jwt tr s) {link : Link}
    (here : s'.link k = some link) (mem : roomId ∈ link.joined) :
    ∃ userId, Authentic jwt (tr ++ [⟨s, a, s'⟩]) k userId ∧ s'.TakesPart userId roomId := by
  have keeps := moves.keepsRooms
  have old : ∀ {link}, s.link k = some link → roomId ∈ link.joined →
      ∃ userId, Authentic jwt (tr ++ [⟨s, a, s'⟩]) k userId ∧ s'.TakesPart userId roomId := by
    intro link here mem
    obtain ⟨userId, authentic, part⟩ := h.joined k link here roomId mem
    exact ⟨userId, authentic.concat, part.mono keeps⟩
  cases moves with
  | @wire a b hub wired next =>
    rcases (PubSub.Moves.of_next next).joined here mem with ⟨link, there, mem⟩ | rfl
    · exact old there mem
    · cases a <;> cases wired
  | @connect l i token claims hub verified next =>
    rcases (PubSub.Moves.of_next next).joined here mem with ⟨link, there, mem⟩ | other
    · exact old there mem
    · cases other
  | @enter j l userId r room hub check member next =>
    rcases (PubSub.Moves.of_next next).joined here mem with ⟨link, there, mem⟩ | other
    · exact old there mem
    · obtain ⟨rfl, rfl⟩ := PubSub.Label.join.inj other
      have justified := h.joins j
      rw [check] at justified
      exact ⟨userId, justified.1.concat, room, justified.2 room rfl, member⟩
  | _ => exact old here mem

theorem Moves.requests (moves : Moves jwt s a s') (h : Justified jwt tr s) {p : Pid}
    {input : SendMessageInput} (here : s'.sending.phase p = .findRoom input) :
    ∃ k, Authentic jwt (tr ++ [⟨s, a, s'⟩]) k input.userId ∧
      Asked (tr ++ [⟨s, a, s'⟩]) k input.roomId input.content := by
  have old : s.sending.phase p = .findRoom input →
      ∃ k, Authentic jwt (tr ++ [⟨s, a, s'⟩]) k input.userId ∧
        Asked (tr ++ [⟨s, a, s'⟩]) k input.roomId input.content := fun here =>
    (h.requests p input here).imp fun _ => And.imp Authentic.concat Asked.concat
  cases moves with
  | @ask q k roomId content userId sending user next =>
    rcases Delivery.findRoom_of_moves (.of_next next) here with before | arrived
    · exact old before
    · obtain ⟨rfl, rfl⟩ := Delivery.Label.arrive.inj arrived
      exact ⟨k, (h.users k userId user).concat, _, List.mem_concat_self, q, rfl⟩
  | @send a b sending errors begun rooms next =>
    rcases Delivery.findRoom_of_moves (.of_next next) here with before | arrived
    · exact old before
    · exact absurd arrived (begun p input)
  | _ => exact old here

theorem Moves.messages (moves : Moves jwt s a s') (h : Justified jwt tr s) {p : Pid}
    {message : Message} (mem : (p, message) ∈ s'.sending.created) :
    s'.TakesPart message.senderId message.roomId ∧
      ∃ k, Authentic jwt (tr ++ [⟨s, a, s'⟩]) k message.senderId ∧
        Asked (tr ++ [⟨s, a, s'⟩]) k message.roomId message.content := by
  have keeps := moves.keepsRooms
  have old : (p, message) ∈ s.sending.created → s'.TakesPart message.senderId message.roomId ∧
      ∃ k, Authentic jwt (tr ++ [⟨s, a, s'⟩]) k message.senderId ∧
        Asked (tr ++ [⟨s, a, s'⟩]) k message.roomId message.content := by
    intro mem
    obtain ⟨part, k, authentic, asked⟩ := h.messages p message mem
    exact ⟨part.mono keeps, k, authentic.concat, asked.concat⟩
  have new : ∀ {b sending}, Delivery.sending.next s.sending b = some sending →
      (p, message) ∈ sending.created → s'.TakesPart message.senderId message.roomId ∧
        ∃ k, Authentic jwt (tr ++ [⟨s, a, s'⟩]) k message.senderId ∧
          Asked (tr ++ [⟨s, a, s'⟩]) k message.roomId message.content := by
    intro b sending next mem
    rcases Delivery.created_of_next next mem with before | ⟨input, here, prepared⟩
    · exact old before
    · obtain ⟨k, authentic, asked⟩ := h.requests p input here
      obtain ⟨roomId, senderId, content, part⟩ := prepared
      rw [roomId, senderId, content]
      exact ⟨State.TakesPart.mono part keeps, k, authentic.concat, asked.concat⟩
  cases moves with
  | ask user next => exact new next mem
  | send begun rooms next => exact new next mem
  | _ => exact old mem

/-- A step of the gateway is one of the requests, or changes nothing there. -/
theorem Moves.sending_step (moves : Moves jwt s a s') : s'.sending = s.sending ∨
    ∃ b, Delivery.sending.next s.sending b = some s'.sending := by
  cases moves with
  | ask user next => exact .inr ⟨_, next⟩
  | send begun rooms next => exact .inr ⟨_, next⟩
  | @save row rooms inserted => exact .inr ⟨.rooms rooms, rfl⟩
  | _ => exact .inl rfl

theorem Moves.justified (moves : Moves jwt s a s') (h : Justified jwt tr s) :
    Justified jwt (tr ++ [⟨s, a, s'⟩]) s' where
  users k userId here := moves.users h here
  joins j := moves.joins h j
  joined k link here roomId mem := moves.joined h here mem
  requests p input here := moves.requests h here
  messages p message mem := moves.messages h mem
  sending := by
    rcases moves.sending_step with same | ⟨b, next⟩
    · exact same ▸ h.sending
    · exact (Delivery.Moves.of_next next).sound h.sending
  relayed := by
    rcases moves.sending_step with same | ⟨b, next⟩
    · exact same ▸ h.relayed
    · exact (Delivery.Moves.of_next next).relayed h.sending h.relayed
  hub := by
    rcases moves.hub_step with same | ⟨b, -, next⟩
    · exact same ▸ h.hub
    · exact (PubSub.Moves.of_next next).sound h.hub

theorem justified_of_start (init : (gateway jwt).start s) : Justified jwt [] s := by
  obtain ⟨sending, cursor, link, users, joins⟩ := init
  obtain ⟨idle, created, -⟩ := id sending
  refine ⟨?_, ?_, ?_, ?_, ?_, Delivery.sound_of_start sending, Delivery.relayed_of_start sending, ?_⟩
  · simp [users]
  · simp [joins, JoinPhase.Justified]
  · simp [link]
  · simp [idle]
  · simp [created]
  · exact PubSub.sound_of_start ⟨cursor, link⟩

theorem justified_of_run (init : (gateway jwt).start s₀) (run : (gateway jwt).Run Any s₀ tr s) :
    Justified jwt tr s :=
  run.trace_invariant (fun _ _ _ _ h _ next => (Moves.of_next next).justified h)
    (justified_of_start init)

/-- Only the participants of a room read what is written there, and only they write it. -/
theorem confidential {link : Link} (init : (gateway jwt).start s₀)
    (run : (gateway jwt).Run Any s₀ tr s) (here : s.link k = some link) :
    Confidential jwt tr s k link := by
  have h := justified_of_run init run
  have order : link.received.Sublist (s.sending.relayed.map Prod.snd) :=
    (h.hub.order k link here).trans (List.take_sublist ..)
  refine ⟨fun payload mem => ?_, fun payload mem => ?_, order, ?_⟩
  · exact h.joined k link here _ (h.hub.rooms k link here payload mem)
  · obtain ⟨⟨p, payload⟩, relayed, rfl⟩ := List.mem_map.1 (order.subset mem)
    obtain ⟨message, created, rfl⟩ := h.relayed.origin p payload relayed
    exact h.messages p message created
  · exact h.relayed.once.sublist (order.map _)

/-! ## A message between two sockets -/

def jwt0 : JwtModule := ⟨"secret", 900000⟩

/-- An access token of the user. -/
def token (userId : UserId) : Jwt :=
  JwtTokenService.issue jwt0 0 { sub := userId, email := "", role := .tenant, fam := 0 }

/-- Room 7 of owner 1 and tenant 2, and no socket. -/
def quiet7 : State where
  sending := Delivery.room7
  cursor _ := none
  link _ := none
  userId _ := none
  client _ := none
  join _ := .idle
  errors _ := []

theorem quiet7_start : (gateway jwt0).start quiet7 := ⟨Delivery.room7_start, rfl, rfl, rfl, rfl⟩

/-- The owner joins the room through instance 0, and the tenant connects to instance 1; user 3 may not
join. -/
def joining : List Label :=
  [.subscribe 0, .connect 10 0 (some (token 1)), .connect 20 1 (some (token 2)),
    .connect 30 0 (some (token 3)), .connect 40 0 none, .onJoin 0 10 7, .onJoin 1 30 7, .joinStep 0,
    .joinStep 1, .joinStep 0, .joinStep 1]

/-- The tenant sends a message, and the instance of the owner emits it. -/
def writing : List Label :=
  .onMessage 0 20 7 "안녕" :: List.replicate 7 (.step 0 5) ++ [.relay 0]

theorem confidential_of_message : ∃ tr s link, (gateway jwt0).Run Any quiet7 tr s ∧
    s.link 10 = some link ∧ link.received = [⟨7, 5, 2, "안녕", 0⟩] ∧
    s.link 30 = some ⟨0, true, [], []⟩ ∧
    s.errors 30 = [.code "CHAT_NOT_ROOM_PARTICIPANT"] ∧ Confidential jwt0 tr s 10 link := by
  have computed : ((gateway jwt0).exec (fun _ _ => true) quiet7 (joining ++ writing)).map
      (fun s => (s.link 10, s.link 30, s.errors 30)) =
      some (some ⟨0, true, [7], [⟨7, 5, 2, "안녕", 0⟩]⟩, some ⟨0, true, [], []⟩,
        [.code "CHAT_NOT_ROOM_PARTICIPANT"]) := by
    decide
  obtain ⟨s, reached, seen⟩ := Option.map_eq_some_iff.1 computed
  obtain ⟨tr, run, -⟩ := exists_run_of_exec (C := Any) (fun _ _ _ => trivial) reached
  simp only [Prod.mk.injEq] at seen
  exact ⟨tr, s, _, run, seen.1, rfl, seen.2.1, seen.2.2, confidential quiet7_start run seen.1⟩

end Gateway

end EstateServer.Chat
