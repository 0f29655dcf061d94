import EstateServer.Library.Machine
import EstateServer.Notifications.Repository
import Mathlib.Logic.Function.Basic

/-!
# The processes that write notifications and unread counters

Any number of processes each execute one `HandleEventUseCase`, `MarkOneReadUseCase`,
`MarkAllReadUseCase` or `GetUnreadCountUseCase`; their statements and scripts interleave, and each
may fail or crash before any of them.  A call that throws after it has been applied is a step,
followed by a failure.  A delivery of an event is a new process, so an event may be handled any
number of times, also at once.

The recipients that the resolver returns come with the step, as the rows that it reads may change
from one delivery to the next.
-/

namespace EstateServer.Notifications

open Machine

abbrev Pid := ℕ

inductive Request
  | handleEvent (event : DomainEvent Payload)
  | markOneRead (userId : Option Auth.UserId) (id : NotificationId)
  | markAllRead (userId : Option Auth.UserId)
  | getUnreadCount (userId : Option Auth.UserId)
  deriving DecidableEq, Repr

/-- How a request ends. -/
inductive Result
  | handled
  | marked
  | unread (count : ℤ)
  /-- An exception, or the end of the process. -/
  | aborted
  deriving DecidableEq, Repr

/-- The random values of a step, the time, the answer of the resolver, and whether the relay
publishes. -/
structure Draw where
  recipients : List Auth.UserId
  id : NotificationId
  now : Instant
  relay : Bool
  deriving DecidableEq, Repr, Inhabited

/-- An execution of `HandleEventUseCase`, with the recipients still to come. -/
structure Delivery where
  event : DomainEvent Payload
  content : NotificationContent
  recipients : List Auth.UserId
  deriving DecidableEq, Repr

inductive Phase
  | idle
  /-- Before the resolver. -/
  | resolve (event : DomainEvent Payload) (content : NotificationContent)
  /-- Before `saveIfNew` for the next recipient. -/
  | save (delivery : Delivery)
  /-- The row of a recipient is new: before `increment`, and before `publish`. -/
  | increment (delivery : Delivery) (created : NotificationRow)
  | push (delivery : Delivery) (created : NotificationRow)
  | markOneRead (userId : Option Auth.UserId) (id : NotificationId)
  | decrement (userId : Option Auth.UserId)
  | markAllRead (userId : Option Auth.UserId)
  | reset (userId : Option Auth.UserId)
  | getUnreadCount (userId : Option Auth.UserId)
  /-- The counter is missing: before the rows are counted, and before the counter is rebuilt. -/
  | countUnread (userId : Option Auth.UserId)
  | backfill (userId : Option Auth.UserId) (count : ℕ)
  | done (result : Result)
  deriving DecidableEq, Repr

structure State where
  table : NotificationTable
  counter : NotificationCounter
  /-- What the relay has published so far. -/
  published : List NotificationPushPayload
  phase : Pid → Phase

/-- The process goes on to another phase. -/
def State.enter (s : State) (p : Pid) (phase : Phase) : State :=
  { s with phase := Function.update s.phase p phase }

/-- What `HandleEventUseCase` publishes for a row. -/
def Delivery.payload (delivery : Delivery) (created : NotificationRow) :
    NotificationPushPayload where
  recipientId := created.recipientId
  id := created.id
  type := delivery.content.type
  title := delivery.content.title
  body := delivery.content.body
  entityType := delivery.content.entityType
  entityId := delivery.content.entityId
  buildingId := delivery.content.buildingId
  createdAt := created.createdAt

/-- The first phase of a request. -/
def Request.start : Request → Phase
  | handleEvent event =>
    match buildContent event with
    | none => .done .handled
    | some content => .resolve event content
  | markOneRead userId id => .markOneRead userId id
  | markAllRead userId => .markAllRead userId
  | getUnreadCount userId => .getUnreadCount userId

/-- A step of the process `p`. -/
def Phase.step (s : State) (p : Pid) (draw : Draw) : Phase → Option State
  | idle => none
  | resolve event content => some (s.enter p (.save ⟨event, content, draw.recipients⟩))
  | save delivery =>
    match delivery.recipients with
    | [] => some (s.enter p (.done .handled))
    | recipientId :: rest =>
      let row := (Notification.create delivery.event delivery.content recipientId).row draw.id draw.now
      match s.table.saveIfNew row with
      -- another delivery has handled this recipient
      | none => some (s.enter p (.save { delivery with recipients := rest }))
      | some table =>
        some ({ s with table }.enter p (.increment { delivery with recipients := rest } row))
  | increment delivery created =>
    let counter := s.counter.increment (some created.recipientId)
    some ({ s with counter }.enter p (.push delivery created))
  | push delivery created =>
    -- an error of the relay is logged and ignored
    let published :=
      if draw.relay then s.published ++ [delivery.payload created] else s.published
    some ({ s with published }.enter p (.save delivery))
  | markOneRead userId id =>
    let (table, transitioned) := s.table.markOneRead userId id draw.now
    some ({ s with table }.enter p (if transitioned then .decrement userId else .done .marked))
  | decrement userId =>
    some ({ s with counter := s.counter.decrement userId }.enter p (.done .marked))
  | markAllRead userId =>
    some ({ s with table := s.table.markAllRead userId draw.now }.enter p (.reset userId))
  | reset userId => some ({ s with counter := s.counter.reset userId }.enter p (.done .marked))
  | getUnreadCount userId =>
    match s.counter userId with
    | some count => some (s.enter p (.done (.unread count)))
    | none => some (s.enter p (.countUnread userId))
  | countUnread userId => some (s.enter p (.backfill userId (s.table.countUnread userId)))
  | backfill userId count =>
    some ({ s with counter := s.counter.backfill userId count }.enter p (.done (.unread count)))
  | done _ => none

inductive Label
  | arrive (p : Pid) (request : Request)
  | step (p : Pid) (draw : Draw)
  | fail (p : Pid)
  | expire (userId : Option Auth.UserId)
  deriving DecidableEq, Repr

/-- The state after a step. -/
def State.next (s : State) : Label → Option State
  | .arrive p request => if s.phase p = .idle then some (s.enter p request.start) else none
  | .step p draw => (s.phase p).step s p draw
  | .fail p =>
    match s.phase p with
    | .idle => none
    | .done _ => none
    | _ => some (s.enter p (.done .aborted))
  | .expire userId => some { s with counter := s.counter.reset userId }

/-- The processes at work on any rows and counters. -/
def notifications : Machine State Label where
  start s := s.phase = fun _ => .idle
  next := State.next

/-- Nothing has happened. -/
def empty : State where
  table := ⟨[], List.nodup_nil, List.nodup_nil⟩
  counter _ := none
  published := []
  phase _ := .idle

theorem empty_start : notifications.start empty := rfl

/-- User 9 has posted in building 1. -/
def posted (eventId : EventId) : DomainEvent Payload where
  eventId := eventId
  eventType := .postCreated
  occurredAt := 0
  actorId := some 9
  entityType := .post
  entityId := 5
  payload := { roomId := 0, postId := 5, buildingId := some 1, content := [], title := [] }

/-- A step that draws the recipients and the id. -/
def take (p : Pid) (recipients : List Auth.UserId) (id : NotificationId) : Label :=
  .step p { recipients, id, now := 0, relay := true }

/-! ## What a step does -/

/-- The process that a label is about. -/
def Label.pid : Label → Option Pid
  | arrive p _ => some p
  | step p _ => some p
  | fail p => some p
  | expire _ => none

/-- The next step of the phase neither touches a counter nor follows a row that it has changed. -/
def Phase.plain : Phase → Bool
  | increment _ _ => false
  | push _ _ => false
  | decrement _ => false
  | reset _ => false
  | backfill _ _ => false
  | _ => true

theorem Request.start_plain (request : Request) : request.start.plain := by
  cases request with
  | handleEvent event =>
    simp only [start]
    cases buildContent event <;> rfl
  | _ => rfl

/-- What the steps do, case by case. -/
inductive Moves (s : State) : Label → State → Prop
  | insert {p : Pid} {draw : Draw} {delivery rest : Delivery} {row : NotificationRow}
      {table : NotificationTable} (at_save : s.phase p = .save delivery)
      (key : row.eventId = rest.event.eventId) (unread : row.readAt = none)
      (saved : s.table.saveIfNew row = some table) :
      Moves s (.step p draw) ({ s with table }.enter p (.increment rest row))
  | increment {p : Pid} {draw : Draw} {delivery : Delivery} {created : NotificationRow}
      (at_increment : s.phase p = .increment delivery created) :
      Moves s (.step p draw)
        ({ s with counter := s.counter.increment (some created.recipientId) }.enter p
          (.push delivery created))
  | push {p : Pid} {draw : Draw} {delivery : Delivery} {created : NotificationRow}
      {published : List NotificationPushPayload}
      (at_push : s.phase p = .push delivery created) :
      Moves s (.step p draw) ({ s with published }.enter p (.save delivery))
  | markOne {p : Pid} {draw : Draw} {userId : Option Auth.UserId} {id : NotificationId}
      (at_mark : s.phase p = .markOneRead userId id)
      (transitioned : (s.table.markOneRead userId id draw.now).2 = true) :
      Moves s (.step p draw)
        ({ s with table := (s.table.markOneRead userId id draw.now).1 }.enter p
          (.decrement userId))
  | decrement {p : Pid} {draw : Draw} {userId : Option Auth.UserId}
      (at_decrement : s.phase p = .decrement userId) :
      Moves s (.step p draw)
        ({ s with counter := s.counter.decrement userId }.enter p (.done .marked))
  | markAll {p : Pid} {draw : Draw} {userId : Option Auth.UserId}
      (at_mark : s.phase p = .markAllRead userId) :
      Moves s (.step p draw)
        ({ s with table := s.table.markAllRead userId draw.now }.enter p (.reset userId))
  | reset {p : Pid} {draw : Draw} {userId : Option Auth.UserId}
      (at_reset : s.phase p = .reset userId) :
      Moves s (.step p draw)
        ({ s with counter := s.counter.reset userId }.enter p (.done .marked))
  | count {p : Pid} {draw : Draw} {userId : Option Auth.UserId}
      (at_count : s.phase p = .countUnread userId) :
      Moves s (.step p draw) (s.enter p (.backfill userId (s.table.countUnread userId)))
  | backfill {p : Pid} {draw : Draw} {userId : Option Auth.UserId} {count : ℕ}
      (at_backfill : s.phase p = .backfill userId count) :
      Moves s (.step p draw)
        ({ s with counter := s.counter.backfill userId count }.enter p (.done (.unread count)))
  | pass {a : Label} {p : Pid} {phase : Phase} (taken : a.pid = some p)
      (before : (s.phase p).plain) (after : phase.plain) : Moves s a (s.enter p phase)
  | fail {p : Pid} : Moves s (.fail p) (s.enter p (.done .aborted))
  | expire {userId : Option Auth.UserId} :
      Moves s (.expire userId) { s with counter := s.counter.reset userId }

namespace Moves

variable {s s' : State}

theorem steps {p : Pid} {draw : Draw} (h : (s.phase p).step s p draw = some s') :
    Moves s (.step p draw) s' := by
  generalize hphase : s.phase p = phase at h
  have plain : phase.plain = true → (s.phase p).plain := fun h => by rwa [hphase]
  cases phase <;> simp only [Phase.step] at h
  case idle => cases h
  case done => cases h
  case resolve =>
    rw [← Option.some.inj h]
    exact .pass rfl (plain rfl) rfl
  case save delivery =>
    split at h
    · rw [← Option.some.inj h]
      exact .pass rfl (plain rfl) rfl
    · split at h
      · rw [← Option.some.inj h]
        exact .pass rfl (plain rfl) rfl
      · rw [← Option.some.inj h]
        exact .insert hphase rfl rfl ‹_›
  case increment =>
    rw [← Option.some.inj h]
    exact .increment hphase
  case push =>
    rw [← Option.some.inj h]
    exact .push hphase
  case markOneRead userId id =>
    rw [← Option.some.inj h]
    split_ifs with transitioned
    · exact .markOne hphase transitioned
    · rw [NotificationTable.markOneRead_eq_self transitioned]
      exact .pass rfl (plain rfl) rfl
  case decrement =>
    rw [← Option.some.inj h]
    exact .decrement hphase
  case markAllRead =>
    rw [← Option.some.inj h]
    exact .markAll hphase
  case reset =>
    rw [← Option.some.inj h]
    exact .reset hphase
  case getUnreadCount =>
    split at h <;> rw [← Option.some.inj h] <;> exact .pass rfl (plain rfl) rfl
  case countUnread =>
    rw [← Option.some.inj h]
    exact .count hphase
  case backfill =>
    rw [← Option.some.inj h]
    exact .backfill hphase

theorem of_next {a : Label} (h : s.next a = some s') : Moves s a s' := by
  cases a with
  | arrive p request =>
    simp only [State.next] at h
    split_ifs at h with idle
    rw [← Option.some.inj h]
    exact .pass rfl (by rw [idle]; rfl) request.start_plain
  | step p draw => exact steps h
  | fail p =>
    simp only [State.next] at h
    split at h
    · cases h
    · cases h
    · rw [← Option.some.inj h]
      exact .fail
  | expire userId =>
    rw [← Option.some.inj h]
    exact .expire

/-- A step leaves the other processes where they are. -/
theorem phase_of_ne {a : Label} (move : Moves s a s') {q : Pid} (other : a.pid ≠ some q) :
    s'.phase q = s.phase q := by
  cases move with
  | pass taken =>
    exact Function.update_of_ne (fun same => other (taken.trans (congrArg some same.symm))) _ _
  | expire => rfl
  | _ => exact Function.update_of_ne (fun same => other (congrArg some same.symm)) _ _

end Moves

end EstateServer.Notifications
