import EstateServer.Chat.RecentList

/-!
# What becomes of a message

Any number of processes each serve one `SendMessage`, command by command.  Every command but the
last may fail, and a command that fails may have taken effect (its reply is lost).  Kafka accepts
what it is handed: `publish` of the events never throws.

The message is on its way to the sockets from the `PUBLISH` of the relay on, and in Kafka from the
last command on.  When a command of the cache fails in between, the request ends with an exception
and the message is never stored (`cache_fails`).  Nor is a message that the table does not take
(`content_refused`).

`faithful_iff`: no message is delivered and then lost exactly in the runs in which no command of the
cache fails, no `PUBLISH` fails that has taken effect, and no request succeeds with a content that the
table does not take.
-/

namespace EstateServer.Chat.Delivery

open Machine
open RecentList (RecentKey lpush ltrim expire)

abbrev Pid := ℕ

/-- How a request ends. -/
inductive Result
  | sent (payload : ChatMessagePayload)
  | failed (failure : Failure)
  /-- The exception of a command that failed. -/
  | threw
  deriving DecidableEq, Repr

/-- The next command of a request. -/
inductive Phase
  | idle
  | findRoom (input : SendMessageInput)
  | publish (message : Message)
  | lpush (message : Message)
  | ltrim (message : Message)
  | expire (message : Message)
  | emit (message : Message)
  /-- Kafka has accepted the event; `publish` of the events has yet to return. -/
  | answer (message : Message)
  | done (result : Result)
  deriving DecidableEq, Repr

structure State where
  now : Instant
  rooms : ChatRoomTable
  cache : MessageCache
  messages : MessageTable
  /-- The messages that the requests have created. -/
  created : List (Pid × Message)
  /-- What the relay has published, and what Kafka has accepted. -/
  relayed : List (Pid × ChatMessagePayload)
  handed : List (Pid × ChatMessagePayload)
  phase : Pid → Phase

/-- `SendMessageUseCase.execute`, up to the payload. -/
def prepare (rooms : ChatRoomTable) (id : MessageId) (createdAt : Instant)
    (input : SendMessageInput) : Except Failure Message :=
  match rooms.findById input.roomId with
  | none => .error (.app .roomNotFound)
  | some room =>
    if !room.isParticipant input.userId then .error (.app .notRoomParticipant)
    else (Message.create id createdAt input.roomId input.userId input.content).mapError .domain

namespace State

variable (s : State) (p : Pid)

/-- The process goes on to another phase. -/
def enter (phase : Phase) : State := { s with phase := Function.update s.phase p phase }

/-- A command on the key of the room. -/
def onKey (roomId : RoomId) (command : Instant → RecentKey → RecentKey) : State :=
  { s with cache := Function.update s.cache roomId (command s.now (s.cache roomId)) }

/-- The effect of the next command of the process. -/
def effect : Phase → State
  | .publish message => { s with relayed := s.relayed ++ [(p, message.payload)] }
  | .lpush message => s.onKey message.roomId (RecentList.lpush message.payload)
  | .ltrim message => s.onKey message.roomId RecentList.ltrim
  | .expire message => s.onKey message.roomId RecentList.expire
  | .emit message => { s with handed := s.handed ++ [(p, message.payload)] }
  | _ => s

end State

/-- The phase after a command that succeeds. -/
def Phase.after : Phase → Option Phase
  | publish message => some (.lpush message)
  | lpush message => some (.ltrim message)
  | ltrim message => some (.expire message)
  | expire message => some (.emit message)
  | emit message => some (.answer message)
  | answer message => some (.done (.sent message.payload))
  | _ => none

/-- The next command may fail. -/
def Phase.mayFail : Phase → Bool
  | findRoom _ | publish _ | lpush _ | ltrim _ | expire _ => true
  | _ => false

inductive Label
  | arrive (p : Pid) (input : SendMessageInput)
  /-- A step that succeeds; the lookup of the room also draws the id of a message. -/
  | step (p : Pid) (id : MessageId)
  /-- A command fails, before or after it takes effect. -/
  | fail (p : Pid) (applied : Bool)
  /-- The worker persists an event, possibly again. -/
  | consume (payload : ChatMessagePayload)
  | rooms (rooms : ChatRoomTable)
  | advance (now : Instant)

/-- The state after a step. -/
def State.next (s : State) : Label → Option State
  | .arrive p input => if s.phase p = .idle then some (s.enter p (.findRoom input)) else none
  | .step p id =>
    match s.phase p with
    | .findRoom input =>
      match prepare s.rooms id s.now input with
      | .error failure => some (s.enter p (.done (.failed failure)))
      | .ok message =>
        if id ∈ s.messages.rows.map Message.id ++ s.created.map (·.2.id) then none
        else
          some ({ s with created := s.created ++ [(p, message)] }.enter p (.publish message))
    | phase => phase.after.map ((s.effect p phase).enter p)
  | .fail p applied =>
    if (s.phase p).mayFail then
      some ((if applied then s.effect p (s.phase p) else s).enter p (.done .threw))
    else none
  | .consume payload =>
    if payload ∈ s.handed.map Prod.snd then some { s with messages := persist s.messages payload }
    else none
  | .rooms rooms => some { s with rooms }
  | .advance now => if s.now ≤ now then some { s with now } else none

/-- The processes at work, with any rooms, messages and cache there. -/
def sending : Machine State Label where
  start s := (s.phase = fun _ => .idle) ∧ s.created = [] ∧ s.relayed = [] ∧ s.handed = []
  next := State.next

/-! ## The statement -/

/-- The table when all the events that Kafka has accepted have been consumed. -/
def State.persisted (s : State) : MessageTable := (s.handed.map Prod.snd).foldl persist s.messages

/-- No message is delivered and then lost. -/
structure Faithful (s : State) : Prop where
  /-- What a request has published is handed to Kafka by its end, and it will be stored. -/
  handed : ∀ p result payload, s.phase p = .done result → (p, payload) ∈ s.relayed →
    (p, payload) ∈ s.handed ∧ payload.row ∈ s.persisted.rows
  /-- A caller with an error knows that the message was neither delivered nor stored. -/
  error : ∀ p result, s.phase p = .done result → (∀ payload, result ≠ .sent payload) →
    (∀ payload, (p, payload) ∉ s.relayed ∧ (p, payload) ∉ s.handed) ∧
      ∀ message, (p, message) ∈ s.created → message.id ∉ s.persisted.rows.map Message.id

/-- Where a step fails, it is a lookup of a room or a `PUBLISH` without effect, and where a request
succeeds, the table takes its content. -/
structure Harmless (s : State) (a : Label) : Prop where
  fail : ∀ p applied, a = .fail p applied →
    (∃ input, s.phase p = .findRoom input) ∨
      applied = false ∧ ∃ message, s.phase p = .publish message
  answer : ∀ p id message, a = .step p id → s.phase p = .answer message →
    message.content.storable = true

/-! ## What a step does -/

variable {s s' s₀ : State} {a : Label} {p q : Pid} {phase after : Phase} {message : Message}
  {payload : ChatMessagePayload} {tr : List (Step State Label)}

inductive Moves (s : State) : Label → State → Prop
  | arrive {p : Pid} {input : SendMessageInput} (idle : s.phase p = .idle) :
      Moves s (.arrive p input) (s.enter p (.findRoom input))
  | reject {p : Pid} {id : MessageId} {input : SendMessageInput} {failure : Failure}
      (here : s.phase p = .findRoom input) :
      Moves s (.step p id) (s.enter p (.done (.failed failure)))
  | create {p : Pid} {id : MessageId} {input : SendMessageInput} {message : Message}
      (here : s.phase p = .findRoom input) (drawn : message.id = id)
      (new : id ∉ s.messages.rows.map Message.id ++ s.created.map (·.2.id)) :
      Moves s (.step p id)
        ({ s with created := s.created ++ [(p, message)] }.enter p (.publish message))
  | act {p : Pid} {id : MessageId} {phase : Phase} (after : (s.phase p).after = some phase) :
      Moves s (.step p id) ((s.effect p (s.phase p)).enter p phase)
  | fail {p : Pid} {applied : Bool} (may : (s.phase p).mayFail = true) :
      Moves s (.fail p applied)
        ((if applied then s.effect p (s.phase p) else s).enter p (.done .threw))
  | consume {payload : ChatMessagePayload} (mem : payload ∈ s.handed.map Prod.snd) :
      Moves s (.consume payload) { s with messages := persist s.messages payload }
  | rooms {rooms : ChatRoomTable} : Moves s (.rooms rooms) { s with rooms }
  | advance {now : Instant} (le : s.now ≤ now) : Moves s (.advance now) { s with now }

theorem id_of_prepare {rooms : ChatRoomTable} {id : MessageId} {createdAt : Instant}
    {input : SendMessageInput} (h : prepare rooms id createdAt input = .ok message) :
    message.id = id := by
  unfold prepare at h
  split at h
  · cases h
  · split_ifs at h with stranger
    unfold Message.create at h
    split_ifs at h with full
    · cases h
      rfl
    · cases h

theorem Moves.of_next (next : sending.next s a = some s') : Moves s a s' := by
  cases a with
  | arrive p input =>
    simp only [sending, State.next] at next
    split_ifs at next with idle
    rw [← Option.some.inj next]
    exact .arrive idle
  | step p id =>
    simp only [sending, State.next] at next
    split at next
    · split at next
      · rw [← Option.some.inj next]
        exact .reject ‹_›
      · split_ifs at next with new
        rw [← Option.some.inj next]
        exact .create ‹_› (id_of_prepare ‹_›) new
    · obtain ⟨after, found, rfl⟩ := Option.map_eq_some_iff.1 next
      exact .act found
  | fail p applied =>
    by_cases may : (s.phase p).mayFail = true
    · rw [← Option.some.inj ((if_pos may).symm.trans next)]
      exact .fail may
    · cases (if_neg may).symm.trans next
  | consume payload =>
    simp only [sending, State.next] at next
    split_ifs at next with mem
    rw [← Option.some.inj next]
    exact .consume mem
  | rooms rooms =>
    rw [← Option.some.inj next]
    exact .rooms
  | advance now =>
    simp only [sending, State.next] at next
    split_ifs at next with le
    rw [← Option.some.inj next]
    exact .advance le

/-! ## Messages, events and rows -/

/-- Every event is a message that its request has created, ids are unique, and the row of a created
message comes from its event, and has a content that the table takes. -/
structure Books (created : List (Pid × Message)) (handed : List (Pid × ChatMessagePayload))
    (messages : MessageTable) : Prop where
  origin : ∀ p payload, (p, payload) ∈ handed →
    ∃ message, (p, message) ∈ created ∧ payload = message.payload
  unique : ∀ p q message other, (p, message) ∈ created → (q, other) ∈ created →
    message.id = other.id → p = q ∧ message = other
  rows : ∀ p message, (p, message) ∈ created → message.id ∈ messages.rows.map Message.id →
    message ∈ messages.rows ∧ (p, message.payload) ∈ handed ∧ message.content.storable = true

/-- However often and in whatever order events are persisted, each that the table takes is there in the
end. -/
theorem id_mem_foldl {messages : MessageTable} {events : List ChatMessagePayload}
    (storable : payload.content.storable = true)
    (h : payload ∈ events ∨ payload.messageId ∈ messages.rows.map Message.id) :
    payload.messageId ∈ (events.foldl persist messages).rows.map Message.id := by
  induction events generalizing messages with
  | nil => exact h.resolve_left (List.not_mem_nil)
  | cons event events ih =>
    have kept : ∀ id ∈ messages.rows.map Message.id,
        id ∈ (persist messages event).rows.map Message.id := by
      intro id mem
      obtain ⟨row, there, rfl⟩ := List.mem_map.1 mem
      exact List.mem_map_of_mem (mem_persist.2 (.inl there))
    refine ih ?_
    rcases h with mem | mem
    · rcases List.mem_cons.1 mem with rfl | mem
      · by_cases new : payload.row.id ∈ messages.rows.map Message.id
        · exact .inr (kept _ new)
        · exact .inr (List.mem_map_of_mem (f := Message.id)
            (mem_persist.2 (.inr ⟨rfl, new, storable⟩)))
      · exact .inl mem
    · exact .inr (kept _ mem)

namespace Books

variable {created : List (Pid × Message)} {handed : List (Pid × ChatMessagePayload)}
  {messages : MessageTable}

theorem create (h : Books created handed messages)
    (new : message.id ∉ messages.rows.map Message.id ++ created.map (·.2.id)) :
    Books (created ++ [(p, message)]) handed messages := by
  obtain ⟨unstored, undrawn⟩ := not_or.1 (mt List.mem_append.2 new)
  have apart : ∀ q other, (q, other) ∈ created → message.id ≠ other.id := fun q other mem same =>
    undrawn (same ▸ List.mem_map_of_mem (f := fun entry : Pid × Message => entry.2.id) mem)
  have mem_created : ∀ q other, (q, other) ∈ created ++ [(p, message)] ↔
      (q, other) ∈ created ∨ q = p ∧ other = message := by simp
  refine ⟨fun q payload event => ?_, fun q q' other other' mem mem' same => ?_,
    fun q other mem stored => ?_⟩
  · obtain ⟨other, mem, rfl⟩ := h.origin q payload event
    exact ⟨other, List.mem_append_left _ mem, rfl⟩
  · rcases (mem_created q other).1 mem with old | ⟨rfl, rfl⟩ <;>
      rcases (mem_created q' other').1 mem' with old' | ⟨rfl, rfl⟩
    · exact h.unique q q' other other' old old' same
    · exact absurd same.symm (apart q other old)
    · exact absurd same (apart q' other' old')
    · exact ⟨rfl, rfl⟩
  · rcases (mem_created q other).1 mem with old | ⟨rfl, rfl⟩
    · exact h.rows q other old stored
    · exact absurd stored unstored

theorem hand (h : Books created handed messages) (mem : (p, message) ∈ created) :
    Books created (handed ++ [(p, message.payload)]) messages := by
  refine ⟨fun q payload => ?_, h.unique, fun q other there stored => ?_⟩
  · simp only [List.mem_append, List.mem_singleton, Prod.mk.injEq]
    rintro (handed | ⟨rfl, rfl⟩)
    · exact h.origin q payload handed
    · exact ⟨message, mem, rfl⟩
  · obtain ⟨row, event, storable⟩ := h.rows q other there stored
    exact ⟨row, List.mem_append_left _ event, storable⟩

theorem persist (h : Books created handed messages) (mem : payload ∈ handed.map Prod.snd) :
    Books created handed (persist messages payload) := by
  refine ⟨h.origin, h.unique, fun p message there stored => ?_⟩
  obtain ⟨row, mem', same⟩ := List.mem_map.1 stored
  rcases mem_persist.1 mem' with old | ⟨rfl, new, storable⟩
  · obtain ⟨row, event⟩ := h.rows p message there (same ▸ List.mem_map_of_mem old)
    exact ⟨mem_persist.2 (.inl row), event⟩
  · obtain ⟨⟨q, event⟩, handed, rfl⟩ := List.mem_map.1 mem
    obtain ⟨other, written, rfl⟩ := h.origin q event handed
    obtain ⟨rfl, rfl⟩ := h.unique q p other message written there same
    exact ⟨mem_persist.2 (.inr ⟨rfl, new, storable⟩), handed, storable⟩

theorem foldl (h : Books created handed messages) {events : List ChatMessagePayload}
    (mem : ∀ payload ∈ events, payload ∈ handed.map Prod.snd) :
    Books created handed (events.foldl Chat.persist messages) := by
  induction events generalizing messages with
  | nil => exact h
  | cons event events ih =>
    rw [List.forall_mem_cons] at mem
    exact ih (h.persist mem.1) mem.2

end Books

theorem Books.persisted (h : Books s.created s.handed s.messages) :
    Books s.created s.handed s.persisted :=
  h.foldl fun _ => id

/-! ## What a phase knows -/

/-- All that the log holds of the process. -/
def Logged (log : List (Pid × ChatMessagePayload)) (p : Pid) (payload : Option ChatMessagePayload) :
    Prop :=
  ∀ y, (p, y) ∈ log ↔ payload = some y

theorem Logged.append {log : List (Pid × ChatMessagePayload)} (h : Logged log p none) :
    Logged (log ++ [(p, payload)]) p (some payload) := by
  intro y
  simp [h y, eq_comm]

theorem Logged.append_of_ne {log : List (Pid × ChatMessagePayload)}
    {entry : Option ChatMessagePayload} (h : Logged log p entry) (ne : p ≠ q) :
    Logged (log ++ [(q, payload)]) p entry := by
  intro y
  simp [h y, ne]

/-- What the phase of a process tells about its message. -/
def Phase.Known (s : State) (p : Pid) : Phase → Prop
  | idle | findRoom _ | done (.failed _) => Logged s.relayed p none ∧ Logged s.handed p none
  | publish message =>
    (p, message) ∈ s.created ∧ Logged s.relayed p none ∧ Logged s.handed p none
  | lpush message | ltrim message | expire message | emit message =>
    (p, message) ∈ s.created ∧ Logged s.relayed p (some message.payload) ∧ Logged s.handed p none
  | answer message =>
    Logged s.relayed p (some message.payload) ∧ Logged s.handed p (some message.payload)
  | done (.sent payload) => Logged s.relayed p (some payload) ∧ Logged s.handed p (some payload)
  | done .threw => Logged s.handed p none

/-- What other processes do leaves the logs of this one as they are. -/
structure Keeps (s s' : State) (p : Pid) : Prop where
  created : ∀ message, (p, message) ∈ s.created → (p, message) ∈ s'.created
  relayed : ∀ entry, Logged s.relayed p entry → Logged s'.relayed p entry
  handed : ∀ entry, Logged s.handed p entry → Logged s'.handed p entry

theorem Phase.Known.mono (known : phase.Known s p) (keeps : Keeps s s' p) : phase.Known s' p := by
  cases phase with
  | idle | findRoom | answer => exact known.imp (keeps.relayed _) (keeps.handed _)
  | done result =>
    cases result with
    | threw => exact keeps.handed _ known
    | _ => exact known.imp (keeps.relayed _) (keeps.handed _)
  | _ => exact known.imp (keeps.created _) (And.imp (keeps.relayed _) (keeps.handed _))

theorem Keeps.refl : Keeps s s p := ⟨fun _ => id, fun _ => id, fun _ => id⟩

theorem keeps_create {entry : Pid × Message} :
    Keeps s { s with created := s.created ++ [entry] } p :=
  ⟨fun _ => List.mem_append_left _, fun _ => id, fun _ => id⟩

theorem keeps_effect (ne : p ≠ q) : Keeps s (s.effect q phase) p := by
  cases phase with
  | publish => exact ⟨fun _ => id, fun _ h => h.append_of_ne ne, fun _ => id⟩
  | emit => exact ⟨fun _ => id, fun _ => id, fun _ h => h.append_of_ne ne⟩
  | _ => exact ⟨fun _ => id, fun _ => id, fun _ => id⟩

theorem Phase.Known.act (known : phase.Known s p) (next : phase.after = some after) :
    after.Known (s.effect p phase) p := by
  cases phase <;> cases next
  case publish => exact ⟨known.1, known.2.1.append, known.2.2⟩
  case emit => exact ⟨known.2.1, known.2.2.append⟩
  all_goals exact known

/-- Before the last command nothing is handed to Kafka. -/
theorem Phase.Known.unhanded (known : phase.Known s p) (may : phase.mayFail = true) :
    Logged s.handed p none := by
  cases phase with
  | findRoom => exact known.2
  | publish | lpush | ltrim | expire => exact known.2.2
  | _ => cases may

theorem handed_effect_of_mayFail (may : phase.mayFail = true) :
    (s.effect p phase).handed = s.handed := by
  cases phase with
  | emit => cases may
  | _ => rfl

/-- What holds in every state of every run. -/
structure Sound (s : State) : Prop where
  known : ∀ p, (s.phase p).Known s p
  books : Books s.created s.handed s.messages

theorem books_effect (known : phase.Known s p) (books : Books s.created s.handed s.messages) :
    Books (s.effect p phase).created (s.effect p phase).handed (s.effect p phase).messages := by
  cases phase with
  | emit => exact books.hand known.1
  | _ => exact books

theorem phase_effect : (s.effect p phase).phase = s.phase := by cases phase <;> rfl

/-- The process goes on, and the others keep what they know. -/
theorem Sound.enter (h : Sound s) (phases : s'.phase = s.phase) (keeps : ∀ q, q ≠ p → Keeps s s' q)
    (known : phase.Known s' p) (books : Books s'.created s'.handed s'.messages) :
    Sound (s'.enter p phase) where
  known := by
    refine (Function.forall_update_iff s'.phase fun q phase => phase.Known s' q).2 ⟨known, ?_⟩
    intro q ne
    rw [phases]
    exact (h.known q).mono (keeps q ne)
  books := books

theorem Moves.sound (moves : Moves s a s') (h : Sound s) : Sound s' := by
  cases moves with
  | @arrive p input idle =>
    have known := h.known p
    rw [idle] at known
    exact h.enter rfl (fun _ _ => .refl) known h.books
  | @reject p id input failure here =>
    have known := h.known p
    rw [here] at known
    exact h.enter rfl (fun _ _ => .refl) known h.books
  | @create p id input message here drawn new =>
    have known := h.known p
    rw [here] at known
    subst drawn
    exact h.enter rfl (fun _ _ => keeps_create) ⟨List.mem_concat_self, known⟩
      (h.books.create new)
  | @act p id phase after =>
    exact h.enter phase_effect (fun q ne => keeps_effect ne) ((h.known p).act after)
      (books_effect (h.known p) h.books)
  | @fail p applied may =>
    cases applied with
    | false => exact h.enter rfl (fun _ _ => .refl) ((h.known p).unhanded may) h.books
    | true =>
      have unhanded : Logged (s.effect p (s.phase p)).handed p none := by
        rw [handed_effect_of_mayFail may]
        exact (h.known p).unhanded may
      exact h.enter phase_effect (fun q ne => keeps_effect ne) unhanded
        (books_effect (h.known p) h.books)
  | consume mem => exact ⟨h.known, h.books.persist mem⟩
  | rooms => exact ⟨h.known, h.books⟩
  | advance => exact ⟨h.known, h.books⟩

theorem sound_of_start (init : sending.start s) : Sound s := by
  obtain ⟨idle, created, relayed, handed⟩ := init
  refine ⟨fun p => ?_, ?_⟩
  · rw [idle]
    exact ⟨by simp [Logged, relayed], by simp [Logged, handed]⟩
  · rw [created, handed]
    exact ⟨by simp, by simp, by simp⟩

/-! ## Runs -/

/-- What has become of the message of a request that has ended: an exception has delivered nothing,
and the table takes what was sent. -/
def Phase.Whole (s : State) (p : Pid) : Phase → Prop
  | done .threw => Logged s.relayed p none
  | done (.sent payload) => payload.content.storable = true
  | _ => True

def Whole (s : State) : Prop := ∀ p, (s.phase p).Whole s p

theorem Phase.Whole.mono (whole : phase.Whole s p) (keeps : Keeps s s' p) : phase.Whole s' p := by
  cases phase with
  | done result =>
    cases result with
    | threw => exact keeps.relayed _ whole
    | _ => exact whole
  | _ => exact trivial

theorem Whole.enter (whole : Whole s) (phases : s'.phase = s.phase)
    (keeps : ∀ q, q ≠ p → Keeps s s' q) (mine : phase.Whole s' p) : Whole (s'.enter p phase) := by
  refine (Function.forall_update_iff s'.phase fun q phase => phase.Whole s' q).2 ⟨mine, ?_⟩
  intro q ne
  rw [phases]
  exact (whole q).mono (keeps q ne)

theorem Whole.of_moves (whole : Whole s) (h : Sound s) (calm : Harmless s a)
    (moves : Moves s a s') : Whole s' := by
  cases moves with
  | arrive => exact whole.enter rfl (fun _ _ => .refl) trivial
  | reject => exact whole.enter rfl (fun _ _ => .refl) trivial
  | create => exact whole.enter rfl (fun _ _ => keeps_create) trivial
  | @act p id phase after =>
    have storable := calm.answer p id
    refine whole.enter phase_effect (fun q ne => keeps_effect ne) ?_
    generalize s.phase p = before at after storable
    cases before with
    | answer message =>
      obtain rfl := Option.some.inj after
      exact storable message rfl rfl
    | _ =>
      cases after
      all_goals trivial
  | @fail p applied may =>
    have known := h.known p
    rcases calm.fail p applied rfl with ⟨input, here⟩ | ⟨rfl, message, here⟩
    · rw [here] at known ⊢
      have unchanged : (if applied then s.effect p (.findRoom input) else s) = s := ite_self s
      rw [unchanged]
      exact whole.enter rfl (fun _ _ => .refl) known.1
    · rw [here] at known
      exact whole.enter rfl (fun _ _ => .refl) known.2.1
  | consume => exact whole
  | rooms => exact whole
  | advance => exact whole

theorem Sound.faithful (h : Sound s) (whole : Whole s) : Faithful s := by
  have books := h.books.persisted
  constructor
  · intro p result payload ended relayed
    have known := h.known p
    have mine := whole p
    rw [ended] at known mine
    obtain ⟨handed, storable⟩ : (p, payload) ∈ s.handed ∧ payload.content.storable = true := by
      cases result with
      | sent sent =>
        obtain rfl := Option.some.inj ((known.1 payload).1 relayed)
        exact ⟨(known.2 _).2 rfl, mine⟩
      | failed => cases (known.1 payload).1 relayed
      | threw => cases (mine payload).1 relayed
    obtain ⟨message, created, rfl⟩ := books.origin p payload handed
    have stored : message.payload.messageId ∈ s.persisted.rows.map Message.id :=
      id_mem_foldl storable (.inl (List.mem_map_of_mem handed))
    exact ⟨handed, (books.rows p message created stored).1⟩
  · intro p result ended unsent
    have known := h.known p
    have mine := whole p
    rw [ended] at known mine
    have silent : Logged s.relayed p none ∧ Logged s.handed p none := by
      cases result with
      | sent payload => exact absurd rfl (unsent payload)
      | failed => exact known
      | threw => exact ⟨mine, known⟩
    refine ⟨fun payload => ⟨fun mem => ?_, fun mem => ?_⟩, fun message created stored => ?_⟩
    · cases (silent.1 payload).1 mem
    · cases (silent.2 payload).1 mem
    · cases (silent.2 _).1 (books.rows p message created stored).2.1

/-- The message is at the relay before each command of the cache. -/
theorem relayed_of_fail {applied : Bool} (known : phase.Known s p) (may : phase.mayFail = true)
    (harm : ¬ ((∃ input, phase = .findRoom input) ∨
      applied = false ∧ ∃ message, phase = .publish message)) :
    ∃ payload, (p, payload) ∈ (if applied then s.effect p phase else s).relayed := by
  cases phase with
  | findRoom input => exact absurd (.inl ⟨input, rfl⟩) harm
  | publish message =>
    cases applied with
    | false => exact absurd (.inr ⟨rfl, message, rfl⟩) harm
    | true => exact ⟨message.payload, List.mem_concat_self⟩
  | lpush message | ltrim message | expire message =>
    refine ⟨message.payload, ?_⟩
    cases applied <;> exact (known.2.1 _).2 rfl
  | _ => cases may

/-- A step that is not harmless leaves a message that is delivered and lost. -/
theorem Moves.harmless (moves : Moves s a s') (h : Sound s) (faithful : Faithful s') :
    Harmless s a := by
  have sound := moves.sound h
  constructor
  · rintro p applied rfl
    cases moves with
    | fail may =>
      by_contra harm
      obtain ⟨payload, relayed⟩ := relayed_of_fail (h.known p) may harm
      have silent := faithful.error p .threw (Function.update_self ..) (by simp)
      exact (silent.1 payload).1 relayed
  · rintro p id message rfl here
    cases moves with
    | reject found | create found => cases found.symm.trans here
    | act after =>
      rw [here] at after
      obtain rfl := Option.some.inj after
      have known := h.known p
      rw [here] at known sound faithful
      -- the row is there in the end, and so the table takes it
      obtain ⟨handed, row⟩ := faithful.handed p (.sent message.payload) message.payload
        (Function.update_self ..) ((known.1 _).2 rfl)
      have books := sound.books.persisted
      obtain ⟨other, created, same⟩ := books.origin p _ handed
      have storable := (books.rows p other created
        (List.mem_map.2 ⟨_, row, congrArg ChatMessagePayload.messageId same⟩)).2.2
      exact (congrArg (·.content.storable) same).trans storable

/-- No message is delivered and then lost exactly where the failures are harmless. -/
theorem faithful_iff (init : sending.start s₀) (run : sending.Run Any s₀ tr s) :
    (∀ st ∈ tr, Harmless st.pre st.label) ↔ ∀ st ∈ tr, Faithful st.post := by
  have sound : ∀ st ∈ tr, Sound st.pre := fun st mem => run.invariant_of_mem
    (fun _ _ _ h _ next => (Moves.of_next next).sound h) (sound_of_start init) mem
  constructor
  · intro calm st mem
    have start : Sound s₀ ∧ Whole s₀ := by
      refine ⟨sound_of_start init, fun p => ?_⟩
      rw [init.1]
      trivial
    have whole : Sound st.pre ∧ Whole st.pre := (run.restrict calm).invariant_of_mem
      (I := fun s => Sound s ∧ Whole s) (fun _ _ _ h calm next => ⟨(Moves.of_next next).sound h.1,
        h.2.of_moves h.1 calm (.of_next next)⟩) start mem
    have moves := Moves.of_next (run.next_of_mem mem)
    exact (moves.sound whole.1).faithful (whole.2.of_moves whole.1 (calm st mem) moves)
  · intro faithful st mem
    exact (Moves.of_next (run.next_of_mem mem)).harmless (sound st mem) (faithful st mem)

/-! ## A cache that fails -/

/-- Room 7 of owner 1 and tenant 2. -/
def room7 : State where
  now := 0
  rooms := ⟨[⟨7, 3, 1, 2⟩], List.nodup_singleton _, List.nodup_singleton _⟩
  cache _ := none
  messages := ⟨[], List.nodup_nil⟩
  created := []
  relayed := []
  handed := []
  phase _ := .idle

theorem room7_start : sending.start room7 := ⟨rfl, rfl, rfl, rfl⟩

def hello : SendMessageInput := ⟨2, 7, "안녕"⟩

/-- The first `n` steps of a request; its message has the id of the process. -/
def request (p : Pid) (n : ℕ) : List Label := .arrive p hello :: List.replicate n (.step p p)

/-- `Harmless`, computed. -/
def harmless (s : State) : Label → Bool
  | .fail p applied =>
    match s.phase p with
    | .findRoom _ => true
    | .publish _ => !applied
    | _ => false
  | .step p _ =>
    match s.phase p with
    | .answer message => message.content.storable
    | _ => true
  | _ => true

theorem harmless_of_checked (s : State) (a : Label) (h : harmless s a = true) : Harmless s a := by
  constructor
  · rintro p applied rfl
    simp only [harmless] at h
    split at h
    · exact .inl ⟨_, ‹_›⟩
    · exact .inr ⟨by simpa using h, _, ‹_›⟩
    · cases h
  · rintro p id message rfl here
    simpa only [harmless, here] using h

/-- The lookup of one request and the `PUBLISH` of another fail, and a third request succeeds. -/
theorem sent_after_failures : ∃ tr s, sending.Run Any room7 tr s ∧ s.phase 0 = .done .threw ∧
    s.phase 1 = .done .threw ∧ s.phase 2 = .done (.sent ⟨7, 2, 2, "안녕", 0⟩) ∧
    ∀ st ∈ tr, Faithful st.post := by
  have computed : (sending.exec harmless room7 (request 0 0 ++ .fail 0 false :: request 1 1 ++
      .fail 1 false :: request 2 7)).map (fun s => (s.phase 0, s.phase 1, s.phase 2)) =
      some (.done .threw, .done .threw, .done (.sent ⟨7, 2, 2, "안녕", 0⟩)) := by
    decide
  obtain ⟨s, reached, seen⟩ := Option.map_eq_some_iff.1 computed
  obtain ⟨tr, run, -⟩ := exists_run_of_exec harmless_of_checked reached
  simp only [Prod.mk.injEq] at seen
  have all : sending.Run Any room7 tr s := run.mono fun _ _ _ => trivial
  exact ⟨tr, s, all, seen.1, seen.2.1, seen.2.2,
    (faithful_iff room7_start all).1 fun _ mem => run.meets_of_mem mem⟩

/-- The `LPUSH` fails after the message has gone out to the sockets: it is never stored. -/
theorem cache_fails : ∃ tr s, sending.start room7 ∧ sending.Run Any room7 tr s ∧
    tr.map (·.label) = request 0 2 ++ [.fail 0 false] ∧ s.phase 0 = .done .threw ∧
    s.relayed = [(0, ⟨7, 0, 2, "안녕", 0⟩)] ∧ s.handed = [] ∧ s.persisted.rows = [] ∧
    ¬ Faithful s := by
  have computed : (sending.exec (fun _ _ => true) room7 (request 0 2 ++ [.fail 0 false])).map
      (fun s => (s.phase 0, s.relayed, s.handed, s.persisted.rows)) =
      some (.done .threw, [(0, ⟨7, 0, 2, "안녕", 0⟩)], [], []) := by
    decide
  obtain ⟨s, reached, seen⟩ := Option.map_eq_some_iff.1 computed
  obtain ⟨tr, run, labels⟩ := exists_run_of_exec (C := Any) (fun _ _ _ => trivial) reached
  simp only [Prod.mk.injEq] at seen
  obtain ⟨ended, relayed, handed, rows⟩ := seen
  refine ⟨tr, s, room7_start, run, labels, ended, relayed, handed, rows, fun faithful => ?_⟩
  have silent := faithful.error 0 .threw ended (by simp)
  exact (silent.1 ⟨7, 0, 2, "안녕", 0⟩).1 (by simp [relayed])

/-- No step fails, but the content has a NUL character: the message is delivered, and never stored. -/
theorem content_refused : ∃ tr s, sending.Run Any room7 tr s ∧
    s.phase 0 = .done (.sent ⟨7, 0, 2, .text [97, 0], 0⟩) ∧
    s.relayed = [(0, ⟨7, 0, 2, .text [97, 0], 0⟩)] ∧ s.persisted.rows = [] ∧ ¬ Faithful s := by
  have computed : (sending.exec (fun _ _ => true) room7
      (.arrive 0 ⟨2, 7, .text [97, 0]⟩ :: List.replicate 7 (.step 0 0))).map
      (fun s => (s.phase 0, s.relayed, s.persisted.rows)) =
      some (.done (.sent ⟨7, 0, 2, .text [97, 0], 0⟩), [(0, ⟨7, 0, 2, .text [97, 0], 0⟩)], []) := by
    decide
  obtain ⟨s, reached, seen⟩ := Option.map_eq_some_iff.1 computed
  obtain ⟨tr, run, -⟩ := exists_run_of_exec (C := Any) (fun _ _ _ => trivial) reached
  simp only [Prod.mk.injEq] at seen
  obtain ⟨ended, relayed, rows⟩ := seen
  refine ⟨tr, s, run, ended, relayed, rows, fun faithful => ?_⟩
  obtain ⟨-, stored⟩ := faithful.handed 0 _ ⟨7, 0, 2, .text [97, 0], 0⟩ ended (by simp [relayed])
  rw [rows] at stored
  cases stored

/-! ## One request alone -/

theorem sendMessage_eq {store : Store} {times : SendTimes} {id : MessageId}
    {input : SendMessageInput} : sendMessage store times id input =
      match prepare store.rooms id times.createdAt input with
      | .error failure => (.error failure, store)
      | .ok message => (.ok message.payload,
          { store with
            cache := push store.cache times.toPushTimes message.payload
            messages := persist store.messages message.payload }) := by
  cases found : store.rooms.findById input.roomId with
  | none => simp only [sendMessage, prepare, found]
  | some room =>
    by_cases member : room.isParticipant input.userId = true
    · by_cases full : input.content.truthy = true <;>
        simp [sendMessage, prepare, Message.create, Except.mapError, found, member, full]
    · simp [sendMessage, prepare, found, member]

/-- The result of a request without failures. -/
def Result.ofExcept : Except Failure ChatMessagePayload → Result
  | .error failure => .failed failure
  | .ok payload => .sent payload

/-- The steps of a request up to the payload, and its commands. -/
def preparing (p : Pid) (id : MessageId) (createdAt : Instant) (input : SendMessageInput) :
    List Label :=
  [.arrive p input, .advance createdAt, .step p id]

def commands (p : Pid) (id : MessageId) (times : PushTimes) : List Label :=
  [.step p id, .advance times.lpush, .step p id, .advance times.ltrim, .step p id,
    .advance times.expire, .step p id, .step p id, .step p id]

section Alone

theorem enter_self : (s.enter p phase).phase p = phase := Function.update_self ..

variable {id : MessageId} {createdAt : Instant} {input : SendMessageInput}

theorem exec_preparing (idle : s.phase p = .idle) (started : s.now ≤ createdAt)
    (new : id ∉ s.messages.rows.map Message.id ++ s.created.map (·.2.id)) :
    sending.exec (fun _ _ => true) s (preparing p id createdAt input) = some
      (match prepare s.rooms id createdAt input with
      | .error failure => { s with now := createdAt }.enter p (.done (.failed failure))
      | .ok message =>
        { s with now := createdAt, created := s.created ++ [(p, message)] }.enter p
          (.publish message)) := by
  cases h : prepare s.rooms id createdAt input <;>
    simp [preparing, exec, sending, State.next, State.enter, idle, started, h, new]

theorem exec_step {next : Phase} {as : List Label} (here : s.phase p = phase)
    (after : phase.after = some next) :
    sending.exec (fun _ _ => true) s (.step p id :: as) =
      sending.exec (fun _ _ => true) ((s.effect p phase).enter p next) as := by
  have stepped : sending.next s (.step p id) = some ((s.effect p phase).enter p next) := by
    cases phase <;> cases after <;> simp [sending, State.next, here, Phase.after]
  rw [exec, if_pos rfl, stepped, Option.bind_some]

theorem exec_advance {now : Instant} {as : List Label} (le : s.now ≤ now) :
    sending.exec (fun _ _ => true) s (.advance now :: as) =
      sending.exec (fun _ _ => true) { s with now } as := by
  have advanced : sending.next s (.advance now) = some { s with now } := if_pos le
  rw [exec, if_pos rfl, advanced, Option.bind_some]

theorem exec_commands (s : State) (id : MessageId) (times : PushTimes)
    (here : s.phase p = .publish message) (started : s.now ≤ times.lpush)
    (pushed : times.lpush ≤ times.ltrim) (cut : times.ltrim ≤ times.expire) :
    sending.exec (fun _ _ => true) s (commands p id times) = some
      ({ s with
        now := times.expire
        cache := push s.cache times message.payload
        relayed := s.relayed ++ [(p, message.payload)]
        handed := s.handed ++ [(p, message.payload)] }.enter p
          (.done (.sent message.payload))) := by
  have cached : push s.cache times message.payload =
      Function.update s.cache message.roomId (expire times.expire
        (ltrim times.ltrim (lpush message.payload times.lpush (s.cache message.roomId)))) := by
    rw [push, RecentList.pushed_eq]
    rfl
  refine Eq.trans (exec_step here rfl) ?_
  refine Eq.trans (exec_advance (by exact started)) ?_
  refine Eq.trans (exec_step (by exact enter_self) (by rfl)) ?_
  refine Eq.trans (exec_advance (by exact pushed)) ?_
  refine Eq.trans (exec_step (by exact enter_self) (by rfl)) ?_
  refine Eq.trans (exec_advance (by exact cut)) ?_
  refine Eq.trans (exec_step (by exact enter_self) (by rfl)) ?_
  refine Eq.trans (exec_step (by exact enter_self) (by rfl)) ?_
  refine Eq.trans (exec_step (by exact enter_self) (by rfl)) ?_
  simp [exec, State.enter, State.effect, State.onKey, cached]

/-- A request that runs alone, and whose event is then persisted, does what `sendMessage` does. -/
theorem sendMessage_of_alone {times : SendTimes} (idle : s.phase p = .idle) (empty : s.handed = [])
    (new : id ∉ s.messages.rows.map Message.id ++ s.created.map (·.2.id))
    (started : s.now ≤ times.createdAt) (created : times.createdAt ≤ times.lpush)
    (pushed : times.lpush ≤ times.ltrim) (cut : times.ltrim ≤ times.expire) :
    ∃ tr s' result, sending.Run Any s tr s' ∧ s'.phase p = .done (.ofExcept result) ∧
      sendMessage ⟨s.rooms, s.cache, s.messages⟩ times id input =
        (result, ⟨s'.rooms, s'.cache, s'.persisted⟩) := by
  have prepared : sending.exec (fun _ _ => true) s (preparing p id times.createdAt input) = _ :=
    exec_preparing idle started new
  rw [sendMessage_eq]
  cases h : prepare s.rooms id times.createdAt input with
  | error failure =>
    simp only [h] at prepared
    obtain ⟨run, -⟩ := run_of_exec (C := Any) (fun _ _ _ => trivial) prepared
    refine ⟨_, _, .error failure, run, enter_self, ?_⟩
    simp [State.persisted, State.enter, empty]
  | ok message =>
    simp only [h] at prepared
    obtain ⟨first, -⟩ := run_of_exec (C := Any) (fun _ _ _ => trivial) prepared
    have executed := exec_commands
      (State.enter { s with
        now := times.createdAt
        created := s.created ++ [(p, message)] } p (.publish message))
      id times.toPushTimes enter_self created pushed cut
    obtain ⟨second, -⟩ := run_of_exec (C := Any) (fun _ _ _ => trivial) executed
    refine ⟨_, _, .ok message.payload, first.trans second, enter_self, ?_⟩
    simp [State.persisted, State.enter, empty]

end Alone

end EstateServer.Chat.Delivery
