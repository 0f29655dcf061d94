import EstateServer.Chat.Gateway

/-!
# What is kept of the chat

The persistence worker consumes the events that Kafka has accepted, any number of times and in any
order, while the gateway runs and rooms are read with `GetMessages`, from the cache or from the table.

`recorded`: the table grows by exactly one row for each event that has been consumed and whose content
it takes; an event is of a request that has handed it over, whether it has answered yet or not; and
whoever reads a room takes part in it, and reads what participants have sent to it through sockets of
their own.
-/

namespace EstateServer.Chat

open Machine

/-! ## The requests -/

namespace Delivery

/-- The worker has consumed the event. -/
def Consumed (tr : List (Step State Label)) (payload : ChatMessagePayload) : Prop :=
  ∃ st ∈ tr, st.label = .consume payload

/-- The rows of the events that have been consumed and that the table takes, after those of the start. -/
def Stored (s₀ : State) (tr : List (Step State Label)) (s : State) : Prop :=
  ∃ stored : List ChatMessagePayload,
    s.messages.rows = s₀.messages.rows ++ stored.map ChatMessagePayload.row ∧ stored.Nodup ∧
      ∀ payload, payload ∈ stored ↔ Consumed tr payload ∧ payload.content.storable = true

/-- The request has handed the event over to Kafka, and the only end that it can still have is success. -/
def Phase.HandedOver (payload : ChatMessagePayload) : Phase → Prop
  | answer message => message.payload = payload
  | done result => result = .sent payload
  | _ => False

/-- The message is in the list of the room. -/
def State.Recent (s : State) (roomId : RoomId) (payload : ChatMessagePayload) : Prop :=
  ∃ cell ∈ s.cache roomId, payload ∈ cell.value

/-- The message was created for the room. -/
def State.Created (s : State) (roomId : RoomId) (payload : ChatMessagePayload) : Prop :=
  payload.roomId = roomId ∧ ∃ p message, (p, message) ∈ s.created ∧ message.payload = payload

variable {s s' s₀ : State} {a : Label} {p : Pid} {phase : Phase} {message : Message}
  {payload : ChatMessagePayload} {roomId : RoomId} {tr : List (Step State Label)}

/-! ## The table -/

theorem messages_effect : (s.effect p phase).messages = s.messages := by cases phase <;> rfl

/-- Only the worker writes messages. -/
theorem messages_of_moves (moves : Moves s a s') :
    (∀ payload, a ≠ .consume payload) ∧ s'.messages = s.messages ∨
      ∃ payload, a = .consume payload ∧ payload ∈ s.handed.map Prod.snd ∧
        s'.messages = persist s.messages payload := by
  cases moves with
  | consume mem => exact .inr ⟨_, rfl, mem, rfl⟩
  | act => exact .inl ⟨by simp, messages_effect⟩
  | @fail p applied =>
    cases applied with
    | false => exact .inl ⟨by simp, rfl⟩
    | true => exact .inl ⟨by simp, messages_effect⟩
  | _ => exact .inl ⟨by simp, rfl⟩

theorem consumed_concat {st : Step State Label} :
    Consumed (tr ++ [st]) payload ↔ Consumed tr payload ∨ st.label = .consume payload := by
  simp [Consumed, or_and_right, exists_or]

theorem row_injective : Function.Injective ChatMessagePayload.row := by
  rintro ⟨⟩ ⟨⟩ same
  cases same
  rfl

/-- The messages that requests create are not those of the start. -/
def Apart (s₀ s : State) : Prop :=
  ∀ p message, (p, message) ∈ s.created → message.id ∉ s₀.messages.rows.map Message.id

theorem Apart.of_moves (h : Apart s₀ s) (moves : Moves s a s')
    (grown : ∀ row ∈ s₀.messages.rows, row ∈ s.messages.rows) : Apart s₀ s' := by
  intro q message mem
  cases moves with
  | @create p id input created here drawn new =>
    rcases List.mem_append.1 mem with mem | mem
    · exact h q message mem
    · obtain ⟨rfl, rfl⟩ := Prod.mk.inj (List.mem_singleton.1 mem)
      intro stored
      obtain ⟨row, there, same⟩ := List.mem_map.1 stored
      refine new (List.mem_append_left _ (List.mem_map.2 ⟨row, grown row there, ?_⟩))
      exact same.trans drawn
  | act => exact h q message (created_effect ▸ mem)
  | @fail p applied =>
    cases applied with
    | false => exact h q message mem
    | true => exact h q message (created_effect ▸ mem)
  | _ => exact h q message mem

theorem persist_of_mem {messages : MessageTable}
    (old : payload.row.id ∈ messages.rows.map Message.id) : persist messages payload = messages := by
  unfold persist
  split_ifs
  · rw [Table.Keyed.insert, dif_neg (not_not.2 old)]
    rfl
  · rfl

theorem Stored.of_moves (h : Stored s₀ tr s) (sound : Sound s) (apart : Apart s₀ s)
    (moves : Moves s a s') : Stored s₀ (tr ++ [⟨s, a, s'⟩]) s' := by
  obtain ⟨stored, rows, nodup, consumed⟩ := h
  rcases messages_of_moves moves with ⟨other, same⟩ | ⟨payload, rfl, handed, same⟩
  · refine ⟨stored, by rw [same, rows], nodup, fun payload => (consumed payload).trans ?_⟩
    rw [consumed_concat, or_iff_left (other payload)]
  · obtain ⟨⟨p, payload⟩, entry, rfl⟩ := List.mem_map.1 handed
    obtain ⟨message, created, rfl⟩ := sound.books.origin p payload entry
    by_cases storable : message.content.storable = true
    swap
    · -- the query throws
      refine ⟨stored, by rw [same, persist_of_refused storable, rows], nodup, fun other => ?_⟩
      rw [consumed, consumed_concat, or_and_right]
      refine (or_iff_left ?_).symm
      rintro ⟨now, taken⟩
      rw [← Label.consume.inj now] at taken
      exact storable taken
    by_cases before : message.payload ∈ stored
    · have old : message ∈ s.messages.rows := by
        rw [rows]
        exact List.mem_append_right _ (List.mem_map.2 ⟨_, before, rfl⟩)
      refine ⟨stored, ?_, nodup, fun other => (consumed other).trans ?_⟩
      · rw [same, persist_of_mem (List.mem_map_of_mem (f := Message.id) old)]
        exact rows
      · rw [consumed_concat]
        refine and_congr_left fun _ => ⟨.inl, fun h => h.elim id fun now => ?_⟩
        rw [← Label.consume.inj now]
        exact ((consumed _).1 before).1
    · have new : message.id ∉ s.messages.rows.map Message.id := by
        intro old
        have there := (sound.books.rows p message created old).1
        rw [rows] at there
        rcases List.mem_append.1 there with first | later
        · exact apart p message created (List.mem_map_of_mem first)
        · obtain ⟨other, there, same⟩ := List.mem_map.1 later
          have one : other = message.payload := row_injective same
          exact before (one ▸ there)
      refine ⟨stored ++ [message.payload], ?_, ?_, fun other => ?_⟩
      · rw [same, rows_persist new storable, rows, List.map_append, List.append_assoc]
        rfl
      · exact List.nodup_append.2 ⟨nodup, List.nodup_singleton _, fun x mem y mem' => by
          rw [List.mem_singleton.1 mem']
          exact fun same => before (same ▸ mem)⟩
      · rw [consumed_concat, List.mem_append, List.mem_singleton, consumed other, or_and_right]
        refine or_congr_right ⟨?_, fun now => (Label.consume.inj now.1).symm⟩
        rintro rfl
        exact ⟨rfl, storable⟩

theorem Stored.grown (h : Stored s₀ tr s) : ∀ row ∈ s₀.messages.rows, row ∈ s.messages.rows := by
  obtain ⟨stored, rows, -⟩ := h
  rw [rows]
  exact fun row mem => List.mem_append_left _ mem

/-! ## The lists of the rooms -/

/-- The lists hold what they held at the start, and messages created for their rooms. -/
def Lists (s₀ s : State) : Prop :=
  ∀ roomId, Expiring.Holds
    (fun list => ∀ payload ∈ list, s₀.Recent roomId payload ∨ s.Created roomId payload)
    (s.cache roomId)

theorem Lists.grows (h : Lists s₀ s) (created : s.created ⊆ s'.created) (same : s'.cache = s.cache) :
    Lists s₀ s' := by
  intro roomId cell mem payload there
  rw [same] at mem
  refine (h roomId cell mem payload there).imp id ?_
  rintro ⟨room, p, message, written, payload⟩
  exact ⟨room, p, message, created written, payload⟩

theorem lists_effect (h : Lists s₀ s) (known : phase.Known s p) : Lists s₀ (s.effect p phase) := by
  have onKey : ∀ {k command}, (∀ key, Expiring.Holds (fun list => ∀ payload ∈ list,
      s₀.Recent k payload ∨ s.Created k payload) key → Expiring.Holds (fun list => ∀ payload ∈ list,
      s₀.Recent k payload ∨ s.Created k payload) (command s.now key)) → Lists s₀ (s.onKey k command) := by
    intro k command keeps roomId
    by_cases own : roomId = k
    · subst own
      simp only [State.onKey, Function.update_self]
      exact keeps _ (h roomId)
    · simp only [State.onKey, Function.update_of_ne own]
      exact h roomId
  cases phase with
  | lpush message =>
    have created : s.Created message.roomId message.payload := ⟨rfl, p, message, known.1, rfl⟩
    refine onKey fun key holds => holds.update ?_ fun list old => ?_
    · exact fun payload mem => .inr (List.mem_singleton.1 mem ▸ created)
    · rintro payload mem
      rcases List.mem_cons.1 mem with rfl | mem
      · exact .inr created
      · exact old payload mem
  | ltrim message =>
    refine onKey fun key holds => holds.modify fun list old payload mem => old payload ?_
    exact (Redis.range_sublist ..).subset mem
  | expire message => exact onKey fun key holds => holds.expire
  | _ => exact h

theorem Lists.of_moves (h : Lists s₀ s) (sound : Sound s) (moves : Moves s a s') : Lists s₀ s' := by
  have created := created_subset moves
  cases moves with
  | act => exact (lists_effect h (sound.known _)).grows (List.Subset.refl _) rfl
  | @fail p applied =>
    cases applied with
    | false => exact h.grows created rfl
    | true => exact (lists_effect h (sound.known p)).grows (List.Subset.refl _) rfl
  | _ => exact h.grows created rfl

/-! ## The events -/

theorem handed_subset (moves : Moves s a s') : s.handed ⊆ s'.handed := by
  have effect : ∀ {p phase}, s.handed ⊆ (s.effect p phase).handed := by
    intro p phase
    cases phase with
    | emit => exact List.subset_append_left ..
    | _ => exact List.Subset.refl _
  cases moves with
  | act => exact effect
  | @fail p applied =>
    cases applied with
    | false => exact List.Subset.refl _
    | true => exact effect
  | _ => exact List.Subset.refl _

/-- The last command of a request hands its event to Kafka. -/
theorem handedOver_of_handed (sound : Sound s) (mem : (p, payload) ∈ s.handed) :
    (s.phase p).HandedOver payload := by
  have known := sound.known p
  generalize s.phase p = phase at known ⊢
  cases phase with
  | idle | findRoom => cases (known.2 _).1 mem
  | publish | lpush | ltrim | expire | emit => cases (known.2.2 _).1 mem
  | answer => exact Option.some.inj ((known.2 _).1 mem)
  | done result =>
    cases result with
    | failed => cases (known.2 _).1 mem
    | threw => cases (known _).1 mem
    | sent sent => exact congrArg Result.sent (Option.some.inj ((known.2 _).1 mem))

/-! ## Runs -/

/-- What holds in every state of a run from `s₀`. -/
structure Recorded (s₀ : State) (tr : List (Step State Label)) (s : State) : Prop where
  sound : Sound s
  apart : Apart s₀ s
  stored : Stored s₀ tr s
  lists : Lists s₀ s
  events : ∀ payload, Consumed tr payload → payload ∈ s.handed.map Prod.snd

theorem Recorded.of_moves (h : Recorded s₀ tr s) (moves : Moves s a s') :
    Recorded s₀ (tr ++ [⟨s, a, s'⟩]) s' where
  sound := moves.sound h.sound
  apart := h.apart.of_moves moves h.stored.grown
  stored := h.stored.of_moves h.sound h.apart moves
  lists := h.lists.of_moves h.sound moves
  events payload consumed := by
    have grown := List.map_subset Prod.snd (handed_subset moves)
    rcases consumed_concat.1 consumed with before | now
    · exact grown (h.events payload before)
    · obtain rfl : a = .consume payload := now
      cases moves with
      | consume mem => exact grown mem

theorem recorded_of_run {C : State → Label → Prop} (init : sending.start s₀)
    (run : sending.Run C s₀ tr s) : Recorded s₀ tr s := by
  refine run.trace_invariant (fun _ _ _ _ h _ next => h.of_moves (.of_next next))
    ⟨sound_of_start init, ?_, ⟨[], by simp, List.nodup_nil, ?_⟩, ?_, ?_⟩
  · obtain ⟨-, created, -⟩ := init
    simp [Apart, created]
  · simp [Consumed]
  · exact fun roomId cell mem payload there => .inl ⟨cell, mem, there⟩
  · simp [Consumed]

end Delivery

/-! ## The gateway -/

namespace Gateway

open Auth

/-- The worker has consumed the event. -/
def Consumed (tr : List (Step State Label)) (payload : ChatMessagePayload) : Prop :=
  ∃ st ∈ tr, st.label = .consume payload

/-- A participant of the room has sent the message, through a socket of his own. -/
def Written (jwt : JwtModule) (tr : List (Step State Label)) (s : State)
    (payload : ChatMessagePayload) : Prop :=
  s.TakesPart payload.senderId payload.roomId ∧
    ∃ k, Authentic jwt tr k payload.senderId ∧ Asked tr k payload.roomId payload.content

/-- The message was there from the start, in the list of the room or in the table. -/
def State.Kept (s : State) (roomId : RoomId) (payload : ChatMessagePayload) : Prop :=
  s.sending.Recent roomId payload ∨ payload.roomId = roomId ∧ payload.row ∈ s.sending.messages.rows

/-- What `GetMessages` reads. -/
def State.store (s : State) : Store where
  rooms := s.sending.rooms
  cache := s.sending.cache
  messages := s.sending.messages

structure Recorded (jwt : JwtModule) (s₀ : State) (tr : List (Step State Label)) (s : State) :
    Prop where
  table : ∃ stored : List ChatMessagePayload, stored.Nodup ∧
    s.sending.messages.rows = s₀.sending.messages.rows ++ stored.map ChatMessagePayload.row ∧
    ∀ payload, payload ∈ stored ↔ Consumed tr payload ∧ payload.content.storable = true
  events : ∀ payload, Consumed tr payload →
    Written jwt tr s payload ∧ ∃ p, (s.sending.phase p).HandedOver payload
  read : ∀ now input payloads, getMessages s.store now input = .ok payloads →
    (∃ room, s.sending.rooms.findById input.roomId = some room ∧
      room.isParticipant input.userId = true) ∧
    ∀ payload ∈ payloads, s₀.Kept input.roomId payload ∨
      payload.roomId = input.roomId ∧ Written jwt tr s payload

/-! ## The requests of a run -/

/-- The step of the requests behind a label. -/
def State.sends (s : State) : Label → Option Delivery.Label
  | .onMessage p k roomId content =>
    if s.connected k then (s.userId k).map fun userId => .arrive p { userId, roomId, content }
    else none
  | .step p id => some (.step p id)
  | .fail p applied _ => some (.fail p applied)
  | .consume payload => some (.consume payload)
  | .save row => (s.sending.rooms.insert row).map .rooms
  | .advance now => some (.advance now)
  | _ => none

variable {jwt : JwtModule} {s s' s₀ : State} {a : Label} {tr : List (Step State Label)}
  {payload : ChatMessagePayload} {roomId : RoomId}

theorem sent_of_send {b : Delivery.Label} (next : s.send b = some s') :
    Delivery.sending.next s.sending b = some s'.sending := by
  obtain ⟨sending, stepped, rfl⟩ := Option.map_eq_some_iff.1 next
  exact stepped

theorem sent_of_answer {b : Delivery.Label} {p : Pid} {exception : String}
    (next : (s.send b).map (·.answer p exception) = some s') :
    Delivery.sending.next s.sending b = some s'.sending := by
  obtain ⟨t, sent, rfl⟩ := Option.map_eq_some_iff.1 next
  have stepped := sent_of_send sent
  obtain ⟨errors, same⟩ := eq_answer t p exception
  rw [same]
  exact stepped

theorem sending_of_wire {b : HubLabel} (next : s.wire b = some s') : s'.sending = s.sending := by
  obtain ⟨hub, -, rfl⟩ := Option.map_eq_some_iff.1 next
  rfl

/-- A step of the gateway is the step of the requests behind its label, or changes nothing there. -/
theorem part_of_next (next : (gateway jwt).next s a = some s') :
    s.sends a = none ∧ s'.sending = s.sending ∨
      ∃ b, s.sends a = some b ∧ Delivery.sending.next s.sending b = some s'.sending := by
  cases a with
  | subscribe i => exact .inl ⟨rfl, sending_of_wire (b := .subscribe i) next⟩
  | lose i => exact .inl ⟨rfl, sending_of_wire (b := .lose i) next⟩
  | relay i => exact .inl ⟨rfl, sending_of_wire (b := .deliver i) next⟩
  | disconnect k => exact .inl ⟨rfl, sending_of_wire (b := .disconnect k) next⟩
  | connect k i token =>
    refine .inl ⟨rfl, ?_⟩
    simp only [gateway, State.next] at next
    split at next
    · rw [← Option.some.inj next]
    · obtain ⟨t, wired, rfl⟩ := Option.map_eq_some_iff.1 next
      have same := sending_of_wire wired
      exact same
  | onJoin j k roomId =>
    refine .inl ⟨rfl, ?_⟩
    simp only [gateway, State.next] at next
    split_ifs at next
    split at next <;> rw [← Option.some.inj next] <;> rfl
  | joinStep j =>
    refine .inl ⟨rfl, ?_⟩
    simp only [gateway, State.next] at next
    split at next
    · rw [← Option.some.inj next]
      rfl
    · rename_i k userId roomId found here
      split_ifs at next
      · rw [← Option.some.inj next]
        cases wired : s.wire (.join k roomId) with
        | none => rfl
        | some t =>
          have same := sending_of_wire wired
          exact same
      · rw [← Option.some.inj next]
        rfl
    · cases next
  | joinFails j =>
    refine .inl ⟨rfl, ?_⟩
    simp only [gateway, State.next] at next
    split at next
    · rw [← Option.some.inj next]
      rfl
    · cases next
  | onMessage p k roomId content =>
    simp only [gateway, State.next] at next
    split_ifs at next with connected
    split at next
    · rename_i stranger
      rw [← Option.some.inj next]
      exact .inl ⟨by simp [State.sends, stranger], rfl⟩
    · rename_i userId user
      have stepped := sent_of_send next
      refine .inr ⟨.arrive p { userId, roomId, content }, ?_, stepped⟩
      simp [State.sends, connected, user]
  | step p id => exact .inr ⟨_, rfl, sent_of_answer next⟩
  | fail p applied exception => exact .inr ⟨_, rfl, sent_of_answer next⟩
  | consume payload => exact .inr ⟨_, rfl, sent_of_send next⟩
  | save row =>
    obtain ⟨rooms, inserted, sent⟩ := Option.bind_eq_some_iff.1 next
    exact .inr ⟨.rooms rooms, by simp [State.sends, inserted], sent_of_send sent⟩
  | advance now => exact .inr ⟨_, rfl, sent_of_send next⟩

/-- The steps of the requests. -/
def requests (tr : List (Step State Label)) : List (Step Delivery.State Delivery.Label) :=
  project State.sending State.sends tr

theorem requests_of_run (run : (gateway jwt).Run Any s₀ tr s) :
    Delivery.sending.Run Any s₀.sending (requests tr) s.sending := by
  refine run.project fun s a t _ next => ?_
  exact (part_of_next next).imp id fun ⟨b, sends, stepped⟩ => ⟨b, sends, trivial, stepped⟩

theorem consumed_iff : Delivery.Consumed (requests tr) payload ↔ Consumed tr payload := by
  constructor
  · rintro ⟨st, mem, label⟩
    obtain ⟨st', there, sends⟩ := of_mem_project mem
    rw [label] at sends
    refine ⟨st', there, ?_⟩
    revert sends
    cases st'.label <;> simp [State.sends]
  · rintro ⟨st, mem, label⟩
    exact ⟨_, mem_project mem (by rw [label]; rfl), rfl⟩

/-! ## What is read -/

theorem written_of_created (h : Justified jwt tr s) (created : s.sending.Created roomId payload) :
    payload.roomId = roomId ∧ Written jwt tr s payload := by
  obtain ⟨room, p, message, written, rfl⟩ := created
  exact ⟨room, h.messages p message written⟩

/-- What `GetMessages` returns is in the list of the room or in the table. -/
theorem mem_getMessages {store : Store} {now : Instant} {input : GetMessagesInput}
    {payloads : List ChatMessagePayload} (returned : getMessages store now input = .ok payloads) :
    (∃ room, store.rooms.findById input.roomId = some room ∧
      room.isParticipant input.userId = true) ∧
    ((∀ payload ∈ payloads, ∃ cell ∈ store.cache input.roomId, payload ∈ cell.value) ∨
      ∀ payload ∈ payloads, payload.roomId = input.roomId ∧ payload.row ∈ store.messages.rows) := by
  unfold getMessages at returned
  split at returned
  · cases returned
  · rename_i room found
    split_ifs at returned with stranger
    dsimp only at returned
    split_ifs at returned
    · obtain rfl := Except.ok.inj returned
      refine ⟨⟨room, found, by simpa using stranger⟩, .inl fun payload mem => ?_⟩
      have there : payload ∈ recent store.cache now input.roomId :=
        (Redis.range_sublist ..).subset mem
      unfold recent at there
      cases read : Expiring.read now (store.cache input.roomId) with
      | none =>
        rw [read] at there
        cases there
      | some list =>
        rw [read] at there
        obtain ⟨cell, mem, -, rfl⟩ := Expiring.read_eq_some.1 read
        exact ⟨cell, mem, there⟩
    · obtain rfl := Except.ok.inj returned
      refine ⟨⟨room, found, by simpa using stranger⟩, .inr fun payload mem => ?_⟩
      obtain ⟨message, there, rfl⟩ := List.mem_map.1 mem
      have row := perm_newestFirst.subset ((Prisma.take_sublist ..).subset there)
      have ⟨row, inRoom⟩ := List.mem_filter.1 row
      exact ⟨of_decide_eq_true inRoom, row⟩

/-- The table and the lists of the chat hold what participants have sent. -/
theorem recorded (init : (gateway jwt).start s₀) (run : (gateway jwt).Run Any s₀ tr s) :
    Recorded jwt s₀ tr s := by
  have h := justified_of_run init run
  have kept := Delivery.recorded_of_run init.1 (requests_of_run run)
  have events : ∀ payload, Consumed tr payload →
      Written jwt tr s payload ∧ ∃ p, (s.sending.phase p).HandedOver payload := by
    intro payload consumed
    obtain ⟨⟨p, payload⟩, handed, rfl⟩ := List.mem_map.1 (kept.events payload (consumed_iff.2 consumed))
    obtain ⟨message, created, rfl⟩ := h.sending.books.origin p payload handed
    exact ⟨h.messages p message created, p, Delivery.handedOver_of_handed h.sending handed⟩
  obtain ⟨stored, rows, nodup, consumed⟩ := kept.stored
  refine ⟨⟨stored, nodup, rows, fun payload =>
    (consumed payload).trans (and_congr_left fun _ => consumed_iff)⟩, events, fun now input payloads returned => ?_⟩
  obtain ⟨participant, source⟩ := mem_getMessages returned
  refine ⟨participant, fun payload mem => ?_⟩
  rcases source with listed | tabled
  · obtain ⟨cell, there, mem⟩ := listed payload mem
    exact (kept.lists _ cell there payload mem).imp .inl (written_of_created h)
  · obtain ⟨room, row⟩ := tabled payload mem
    rw [show s.store.messages.rows = _ from rows] at row
    rcases List.mem_append.1 row with first | later
    · exact .inl (.inr ⟨room, first⟩)
    · obtain ⟨other, there, same⟩ := List.mem_map.1 later
      obtain rfl : other = payload := Delivery.row_injective same
      exact .inr ⟨room, (events other (consumed_iff.1 ((consumed other).1 there).1)).1⟩

/-- The message of the tenant is consumed twice, and the owner reads it in the cache and in the table. -/
theorem recorded_of_message : ∃ tr s, (gateway jwt0).Run Any quiet7 tr s ∧
    s.sending.messages.rows = [⟨5, 7, 2, "안녕", 0⟩] ∧
    getMessages s.store 0 ⟨some 1, 7, 20⟩ = .ok [⟨7, 5, 2, "안녕", 0⟩] ∧
    getMessages s.store recentTtlMs ⟨some 1, 7, 20⟩ = .ok [⟨7, 5, 2, "안녕", 0⟩] ∧
    Recorded jwt0 quiet7 tr s := by
  have computed : ((gateway jwt0).exec (fun _ _ => true) quiet7
      (joining ++ writing ++ List.replicate 2 (.consume ⟨7, 5, 2, "안녕", 0⟩))).map
      (fun s => (s.sending.messages.rows,
        decide (getMessages s.store 0 ⟨some 1, 7, 20⟩ = .ok [⟨7, 5, 2, "안녕", 0⟩]),
        decide (getMessages s.store recentTtlMs ⟨some 1, 7, 20⟩ = .ok [⟨7, 5, 2, "안녕", 0⟩]))) =
      some ([⟨5, 7, 2, "안녕", 0⟩], true, true) := by
    decide
  obtain ⟨s, reached, seen⟩ := Option.map_eq_some_iff.1 computed
  obtain ⟨tr, run, -⟩ := exists_run_of_exec (C := Any) (fun _ _ _ => trivial) reached
  simp only [Prod.mk.injEq, decide_eq_true_eq] at seen
  exact ⟨tr, s, run, seen.1, seen.2.1, seen.2.2, recorded quiet7_start run⟩

end Gateway

end EstateServer.Chat
