import EstateServer.Chat.Messages
import EstateServer.Library.Machine

/-!
# The history of a room

`SendMessage` requests run one after another, and every message that is sent reaches the table.  The list
of recent messages then holds the newest 50 of those that were pushed since its key was last absent
(`Sound`); nothing puts the older ones back after the key has expired.

`get_messages_iff`: `GetMessages` answers with the newest messages exactly where none has been pushed
since the key was last absent, or as many as the answer needs.
-/

namespace EstateServer.Chat.History

open Machine Expiring

structure State where
  clock : Instant
  store : Store

/-- A request with the times of its steps and the id of its message. -/
structure Send where
  times : SendTimes
  id : MessageId
  input : SendMessageInput
  deriving DecidableEq, Repr

/-- The request begins after the last one has ended, and its message gets a new id and is newer than
those of its room. -/
def Send.Next (send : Send) (s : State) : Prop :=
  (s.clock ≤ send.times.createdAt ∧ send.times.createdAt ≤ send.times.lpush ∧
    send.times.lpush ≤ send.times.ltrim ∧ send.times.ltrim ≤ send.times.expire) ∧
  send.id ∉ s.store.messages.rows.map Message.id ∧
  ∀ message ∈ ofRoom s.store.messages send.input.roomId, message.createdAt < send.times.createdAt

instance (send : Send) (s : State) : Decidable (send.Next s) :=
  inferInstanceAs (Decidable (_ ∧ _ ∧ _))

/-- `SendMessage` requests that run one after another, from rooms without messages. -/
def sending : Machine State Send where
  start s := s.store.messages.rows = [] ∧ s.store.cache = fun _ => none
  next s send :=
    if send.Next s then
      some ⟨send.times.expire, (sendMessage s.store send.times send.id send.input).2⟩
    else none

/-! ## The statement -/

/-- The message of the request reaches the table, if there is one. -/
def Persisted (_ : State) (send : Send) : Prop :=
  send.input.content.truthy = true → send.input.content.storable = true

instance (s : State) (send : Send) : Decidable (Persisted s send) :=
  inferInstanceAs (Decidable (_ → _))

/-- The message that a request puts on the list of the room. -/
def pushOf (roomId : RoomId) (st : Step State Send) : Option ChatMessagePayload :=
  match (sendMessage st.pre.store st.label.times st.label.id st.label.input).1 with
  | .ok payload => if payload.roomId = roomId then some payload else none
  | .error _ => none

/-- What the requests, the latest first, have put on the list of the room since its key was last absent,
to a command at the time `now`. -/
def pushedBefore (roomId : RoomId) : List (Step State Send) → Instant → List ChatMessagePayload
  | [], _ => []
  | st :: earlier, now =>
    if (live now (st.post.store.cache roomId)).isSome then
      match pushOf roomId st with
      | some message => message :: pushedBefore roomId earlier st.label.times.lpush
      | none => pushedBefore roomId earlier now
    else []

/-- The messages pushed to the room since its key was last absent, the newest first. -/
def pushedSince (roomId : RoomId) (tr : List (Step State Send)) (now : Instant) :
    List ChatMessagePayload :=
  pushedBefore roomId tr.reverse now

/-- Since the key was last absent, no message has been pushed, or as many as are asked for. -/
def Warm (roomId : RoomId) (tr : List (Step State Send)) (now : Instant) (store : Store) (limit : ℕ) :
    Prop :=
  pushedSince roomId tr now = [] ∨
    min limit (ofRoom store.messages roomId).length ≤ (pushedSince roomId tr now).length

instance (roomId : RoomId) (tr : List (Step State Send)) (now : Instant) (store : Store) (limit : ℕ) :
    Decidable (Warm roomId tr now store limit) :=
  inferInstanceAs (Decidable (_ ∨ _))

/-! ## What a request does -/

variable {s s' s₀ : State} {send : Send} {tr : List (Step State Send)} {roomId : RoomId}
  {now : Instant}

/-- The messages of the room, newest first. -/
def history (store : Store) (roomId : RoomId) : List ChatMessagePayload :=
  ((ofRoom store.messages roomId).map Message.payload).reverse

/-- The result and the store after a request: nothing is changed, or one message is in its room. -/
inductive Effect (s : State) (send : Send) : Except Failure ChatMessagePayload × Store → Prop
  | unchanged (failure : Failure) : Effect s send (.error failure, s.store)
  | sent (message : Message) (room : message.roomId = send.input.roomId)
      (time : message.createdAt = send.times.createdAt) (messages : MessageTable)
      (inserted : messages.rows = s.store.messages.rows ++ [message]) :
      Effect s send (.ok message.payload, { s.store with
        cache := push s.store.cache send.times.toPushTimes message.payload, messages })

theorem effect_of_send (next : send.Next s) (persisted : Persisted s send) :
    Effect s send (sendMessage s.store send.times send.id send.input) := by
  simp only [sendMessage]
  split
  · exact .unchanged _
  · split_ifs
    · exact .unchanged _
    · split
      · exact .unchanged _
      · rename_i message created
        simp only [Message.create] at created
        split_ifs at created with full
        obtain rfl := Except.ok.inj created
        exact .sent _ rfl rfl _ (rows_persist next.2.1 (persisted full))

theorem ofRoom_append {messages messages' : MessageTable} {message : Message}
    (h : messages'.rows = messages.rows ++ [message]) (roomId : RoomId) :
    ofRoom messages' roomId =
      ofRoom messages roomId ++ if message.roomId = roomId then [message] else [] := by
  rw [ofRoom, h, List.filter_append, List.filter_singleton, ofRoom]
  simp only [decide_eq_true_eq, Bool.cond_eq_ite]

/-- A push leaves the newest 50 of what the `LPUSH` has found and the message. -/
theorem holds_pushed {key : Key (List ChatMessagePayload)} {times : PushTimes}
    {message : ChatMessagePayload} :
    Holds (· = (message :: (read times.lpush key).getD []).take recentLimit)
      (pushed times message key) := by
  have lpushed : Holds (· = message :: (read times.lpush key).getD [])
      (update (fun list => message :: list.getD []) times.lpush key) := by
    rintro cell mem
    unfold update at mem
    unfold Expiring.read
    split at mem <;> rename_i seen <;> rw [← Option.some.inj mem, seen] <;> rfl
  refine (lpushed.modify fun list same => ?_).expire
  rw [same]
  exact Redis.range_zero (by decide) _

theorem recent_eq_nil {cache : MessageCache} (absent : ¬(live now (cache roomId)).isSome = true) :
    recent cache now roomId = [] := by
  rw [recent, Expiring.read, Option.not_isSome_iff_eq_none.1 absent]
  rfl

theorem recent_push {cache : MessageCache} {times : PushTimes} {message : ChatMessagePayload}
    (here : (live now (push cache times message message.roomId)).isSome = true) :
    recent (push cache times message) now message.roomId =
      (message :: recent cache times.lpush message.roomId).take recentLimit := by
  obtain ⟨cell, seen⟩ := Option.isSome_iff_exists.1 here
  rw [recent, Expiring.read, seen]
  rw [push, Function.update_self] at seen
  exact holds_pushed.live cell seen

theorem pushedSince_concat (st : Step State Send) : pushedSince roomId (tr ++ [st]) now =
    if (live now (st.post.store.cache roomId)).isSome then
      match pushOf roomId st with
      | some message => message :: pushedSince roomId tr st.label.times.lpush
      | none => pushedSince roomId tr now
    else [] := by
  rw [pushedSince, List.reverse_append]
  rfl

/-! ## Runs -/

/-- The messages of a room are in the order of their times; the newest of them are those pushed since
the key was last absent, and its list holds the newest 50 of these. -/
structure Sound (tr : List (Step State Send)) (s : State) : Prop where
  ascending : ∀ roomId, (ofRoom s.store.messages roomId).Pairwise fun a b => a.createdAt < b.createdAt
  newest : ∀ roomId now, pushedSince roomId tr now <+: history s.store roomId
  cached : ∀ roomId now, recent s.store.cache now roomId =
    (pushedSince roomId tr now).take recentLimit

theorem history_append {store : Store} {messages : MessageTable} {cache : MessageCache}
    {message : Message} (inserted : messages.rows = store.messages.rows ++ [message])
    (roomId : RoomId) : history { store with cache, messages } roomId =
      if message.roomId = roomId then message.payload :: history store roomId
      else history store roomId := by
  rw [history, ofRoom_append inserted]
  split_ifs
  · rw [List.map_append, List.reverse_append]
    rfl
  · rw [List.append_nil]
    rfl

theorem Sound.of_next (sound : Sound tr s) (persisted : Persisted s send)
    (next : sending.next s send = some s') : Sound (tr ++ [⟨s, send, s'⟩]) s' := by
  simp only [sending, Option.ite_none_right_eq_some, Option.some.injEq] at next
  obtain ⟨next, rfl⟩ := next
  have effect := effect_of_send next persisted
  generalize result : sendMessage s.store send.times send.id send.input = out at effect
  cases effect with
  | unchanged failure =>
    have none : ∀ roomId s', pushOf roomId ⟨s, send, s'⟩ = none := by
      intro roomId s'
      simp only [pushOf, result]
    refine ⟨sound.ascending, fun roomId now => ?_, fun roomId now => ?_⟩
    · rw [pushedSince_concat, none]
      split_ifs
      · exact sound.newest roomId now
      · exact List.nil_prefix
    · rw [pushedSince_concat, none]
      split_ifs with here
      · exact sound.cached roomId now
      · exact recent_eq_nil here
  | sent message room time messages inserted =>
    have pushes : ∀ roomId s', pushOf roomId ⟨s, send, s'⟩ =
        if message.roomId = roomId then some message.payload else none := by
      intro roomId s'
      simp only [pushOf, result]
      rfl
    refine ⟨fun roomId => ?_, fun roomId now => ?_, fun roomId now => ?_⟩
    · show (ofRoom messages roomId).Pairwise _
      rw [ofRoom_append inserted]
      split_ifs with same
      · refine List.pairwise_append.2 ⟨sound.ascending roomId, List.pairwise_singleton _ _, ?_⟩
        intro old mem new hnew
        rw [List.mem_singleton.1 hnew, time]
        exact next.2.2 old (by rwa [← room, same])
      · rw [List.append_nil]
        exact sound.ascending roomId
    · rw [pushedSince_concat, pushes, history_append inserted]
      split_ifs with here same
      · exact (List.prefix_cons_inj message.payload).2 (sound.newest roomId send.times.lpush)
      · exact sound.newest roomId now
      · exact List.nil_prefix
      · exact List.nil_prefix
    · rw [pushedSince_concat, pushes]
      split_ifs with here same
      · subst same
        show recent (push s.store.cache send.times.toPushTimes message.payload) now
          message.payload.roomId = _
        rw [recent_push here, sound.cached]
        have cut : ∀ list : List ChatMessagePayload,
            (message.payload :: list.take recentLimit).take recentLimit =
              (message.payload :: list).take recentLimit := by
          simp [recentLimit, List.take_take]
        exact cut _
      · have elsewhere : push s.store.cache send.times.toPushTimes message.payload roomId =
            s.store.cache roomId := Function.update_of_ne (Ne.symm same) ..
        refine Eq.trans ?_ (sound.cached roomId now)
        rw [recent, recent]
        exact congrArg (fun key => (read now key).getD []) elsewhere
      · exact recent_eq_nil here

theorem sound_of_run (start : sending.start s₀) (run : sending.Run Persisted s₀ tr s) : Sound tr s := by
  refine run.trace_invariant (fun _ _ _ _ h persisted next => h.of_next persisted next)
    ⟨fun roomId => ?_, fun roomId now => List.nil_prefix, fun roomId now => ?_⟩
  · rw [ofRoom, start.1]
    exact .nil
  · rw [start.2]
    rfl

/-! ## The answers -/

theorem findRecent_of_sound (sound : Sound tr s) (roomId : RoomId) (limit : ℕ) :
    (findRecent s.store.messages roomId limit).map Message.payload =
      (history s.store roomId).take limit := by
  rw [findRecent, Prisma.take_natCast, newestFirst_of_ascending (sound.ascending roomId), history,
    List.map_take, List.map_reverse]

/-- The list of recent messages begins the history, which is newest first. -/
theorem recent_prefix_history (sound : Sound tr s) (now : Instant) (roomId : RoomId) :
    recent s.store.cache now roomId <+: history s.store roomId := by
  rw [sound.cached]
  exact (List.take_prefix ..).trans (sound.newest roomId now)

/-- Two prefixes of a list, one of which is the first `n` elements. -/
theorem take_eq_take_iff {α : Type*} {l whole : List α} {n : ℕ} (h : l <+: whole) :
    l.take n = whole.take n ↔ min n whole.length ≤ l.length := by
  constructor
  · intro same
    have length := congrArg List.length same
    rw [List.length_take, List.length_take] at length
    omega
  · intro long
    have part : l.take n <+: whole.take n := by
      rw [List.prefix_take_iff]
      exact ⟨(List.take_prefix n l).trans h, List.length_take_le n l⟩
    refine part.eq_of_length ?_
    have shorter := h.length_le
    rw [List.length_take, List.length_take]
    omega

theorem getMessages_of_participant {store : Store} {room : ChatRoom} {userId : Option Auth.UserId}
    {limit : ℕ} (now : Instant) (pos : 1 ≤ limit) (found : store.rooms.findById roomId = some room)
    (participant : room.isParticipant userId = true) :
    getMessages store now ⟨userId, roomId, limit⟩ =
      .ok (if recent store.cache now roomId = [] then
          (findRecent store.messages roomId limit).map Message.payload
        else (recent store.cache now roomId).take limit) := by
  simp only [getMessages, found, participant, Bool.not_true, Bool.false_eq_true, if_false, getRecent,
    Redis.range_zero pos, List.length_take, Nat.lt_min]
  by_cases empty : recent store.cache now roomId = []
  · simp [empty]
  · rw [if_pos ⟨pos, List.length_pos_of_ne_nil empty⟩, if_neg empty]

/-- `GetMessages` answers with the newest messages of the room, as the table has them, exactly where none
has been pushed since the key was last absent, or as many as are asked for. -/
theorem get_messages_iff (start : sending.start s₀) (run : sending.Run Persisted s₀ tr s)
    {room : ChatRoom} {userId : Option Auth.UserId} (found : s.store.rooms.findById roomId = some room)
    (participant : room.isParticipant userId = true) {limit : ℕ} (pos : 1 ≤ limit) (le : limit ≤ 50)
    (now : Instant) :
    Newest Message.createdAt limit (ofRoom s.store.messages roomId)
      (findRecent s.store.messages roomId limit) ∧
    (getMessages s.store now ⟨userId, roomId, limit⟩ =
        .ok ((findRecent s.store.messages roomId limit).map Message.payload) ↔
      Warm roomId tr now s.store limit) := by
  have sound := sound_of_run start run
  refine ⟨?_, ?_⟩
  · rw [findRecent, Prisma.take_natCast]
    exact newest_take limit
  · rw [getMessages_of_participant now pos found participant, Except.ok.injEq, Warm,
      findRecent_of_sound sound, sound.cached]
    by_cases empty : pushedSince roomId tr now = []
    · simp only [empty, List.take_nil, if_true, true_or]
    · have some : (pushedSince roomId tr now).take recentLimit ≠ [] := by
        simp [recentLimit, empty]
      have cut : limit ≤ recentLimit := le
      rw [if_neg some, List.take_take, Nat.min_eq_left cut, take_eq_take_iff (sound.newest roomId now),
        history, List.length_reverse, List.length_map]
      exact (or_iff_right empty).symm

/-! ## A room that was quiet for a day -/

/-- The room of the owner 1 and the tenant 5, without messages. -/
def silent : State where
  clock := 0
  store :=
    { rooms := ⟨[⟨0, 2, 1, 5⟩], List.nodup_singleton _, List.nodup_singleton _⟩
      cache := fun _ => none
      messages := ⟨[], List.nodup_nil⟩ }

theorem silent_start : sending.start silent := ⟨rfl, rfl⟩

/-- A message of the tenant, sent at the time `t`. -/
def sent (t : Instant) (id : MessageId) (content : Content) : Send :=
  ⟨⟨⟨t, t, t⟩, t⟩, id, ⟨5, 0, content⟩⟩

/-- Two messages within a minute: the list holds both. -/
theorem both_recent : ∃ tr s, sending.Run Persisted silent tr s ∧
    getMessages s.store 60000 ⟨some 1, 0, 50⟩ =
      .ok [⟨0, 8, 5, "again", 30000⟩, ⟨0, 7, 5, "hello", 0⟩] ∧
    getMessages s.store 60000 ⟨some 1, 0, 50⟩ =
      .ok ((findRecent s.store.messages 0 50).map Message.payload) := by
  let sends : List Send := [sent 0 7 "hello", sent 30000 8 "again"]
  have computed : (sending.exec (fun s send => decide (Persisted s send)) silent sends).map (fun s =>
        (getMessages s.store 60000 ⟨some 1, 0, 50⟩, s.store.rooms.findById 0,
          decide (Warm 0 (sending.steps silent sends) 60000 s.store 50))) =
      some (.ok [⟨0, 8, 5, "again", 30000⟩, ⟨0, 7, 5, "hello", 0⟩], some ⟨some 0, 2, 1, 5⟩, true) := by
    decide
  obtain ⟨s, reached, seen⟩ := Option.map_eq_some_iff.1 computed
  obtain ⟨run, -⟩ := run_of_exec (C := Persisted) (fun _ _ => of_decide_eq_true) reached
  simp only [Prod.mk.injEq] at seen
  obtain ⟨answer, found, warm⟩ := seen
  have owner : (⟨some 0, 2, 1, 5⟩ : ChatRoom).isParticipant (some 1) = true := by decide
  exact ⟨_, s, run, answer, (get_messages_iff silent_start run found owner (by decide : 1 ≤ 50)
    (Nat.le_refl 50) 60000).2.2 (of_decide_eq_true warm)⟩

/-- A message more than a day after the last one starts the list anew: the history is one message
long, whatever the table holds. -/
theorem history_lost : ∃ tr s, sending.start silent ∧ sending.Run Persisted silent tr s ∧
    s.store.rooms.findById 0 = some ⟨some 0, 2, 1, 5⟩ ∧
    getMessages s.store 90060000 ⟨some 1, 0, 50⟩ = .ok [⟨0, 8, 5, "again", 90000000⟩] ∧
    (findRecent s.store.messages 0 50).map Message.payload =
      [⟨0, 8, 5, "again", 90000000⟩, ⟨0, 7, 5, "hello", 0⟩] := by
  have computed : (sending.exec (fun s send => decide (Persisted s send)) silent
      [sent 0 7 "hello", sent 90000000 8 "again"]).map (fun s =>
        (s.store.rooms.findById 0, getMessages s.store 90060000 ⟨some 1, 0, 50⟩,
          (findRecent s.store.messages 0 50).map Message.payload)) =
      some (some ⟨some 0, 2, 1, 5⟩, .ok [⟨0, 8, 5, "again", 90000000⟩],
        [⟨0, 8, 5, "again", 90000000⟩, ⟨0, 7, 5, "hello", 0⟩]) := by
    decide
  obtain ⟨s, reached, seen⟩ := Option.map_eq_some_iff.1 computed
  obtain ⟨tr, run, -⟩ := exists_run_of_exec (C := Persisted) (fun _ _ => of_decide_eq_true) reached
  simp only [Prod.mk.injEq] at seen
  exact ⟨tr, s, silent_start, run, seen⟩

end EstateServer.Chat.History
