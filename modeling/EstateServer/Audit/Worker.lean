import EstateServer.Outbox.Relay

/-!
# The audit worker

`PrismaAuditLogRepository.record` and the handlers of the audit worker, beside the outbox and its
relays.  Kafka holds every message that has been emitted, rejected or not, and the chat messages,
which are published directly; it delivers any of them any number of times, in any order, and again
after a handler that threw.
-/

namespace EstateServer.Audit

open Machine Outbox

variable {P : Type}

/-- A row of `AuditLog`. -/
structure AuditRow (P : Type) where
  eventId : EventId
  eventType : EventType
  actorId : Option Auth.UserId
  entityType : EntityType
  entityId : EntityId
  payload : P
  occurredAt : Instant
  deriving DecidableEq, Repr

abbrev AuditTable (P : Type) := Table.Keyed (AuditRow.eventId (P := P))

/-- The row that `record` inserts for an event. -/
def auditRow (event : DomainEvent P) : AuditRow P where
  eventId := event.eventId
  eventType := event.eventType
  actorId := event.actorId
  entityType := event.entityType
  entityId := event.entityId
  payload := event.payload
  occurredAt := event.occurredAt

/-- `record`: an `INSERT`, whose refusal by the unique `eventId` (`P2002`) is ignored. -/
def AuditTable.record (log : AuditTable P) (event : DomainEvent P) : AuditTable P :=
  (log.insert (auditRow event)).getD log

/-! ## The handlers of the topics -/

def onChatEvent (log : AuditTable P) (event : DomainEvent P) : AuditTable P := log.record event

def onBoardEvent (log : AuditTable P) (event : DomainEvent P) : AuditTable P := log.record event

def onMembershipEvent (log : AuditTable P) (event : DomainEvent P) : AuditTable P :=
  log.record event

/-- The handler of the topic that the event is published to. -/
def handle (log : AuditTable P) (event : DomainEvent P) : AuditTable P :=
  match topicForEvent event.eventType with
  | .chatEvents => onChatEvent log event
  | .boardEvents => onBoardEvent log event
  | .membershipEvents => onMembershipEvent log event

/-! ## The worker beside the outbox -/

structure State (P : Type) where
  outbox : Outbox.State P
  /-- The chat messages published so far. -/
  chat : List (DomainEvent P)
  log : AuditTable P
  /-- The messages handled without an error so far. -/
  handled : List (DomainEvent P)

/-- The messages that Kafka may deliver. -/
def State.messages (s : State P) : List (DomainEvent P) :=
  s.outbox.emits.map (fun e => e.row.payload) ++ s.chat

/-- How a handler ends. -/
inductive Outcome
  | ok
  /-- It throws before its row is written, or after. -/
  | failed (written : Bool)
  deriving DecidableEq, Repr

inductive Label (P : Type)
  | outbox (label : Outbox.Label P)
  | chat (event : DomainEvent P)
  | deliver (event : DomainEvent P) (outcome : Outcome)
  deriving DecidableEq

/-- A writer inserts a board or membership event, under a new uuid. -/
def admits (s : State P) : Outbox.Label P → Bool
  | .insert event _ _ _ =>
    topicForEvent event.eventType ≠ .chatEvents ∧ event.eventId ∉ s.chat.map fun e => e.eventId
  | _ => true

/-- The state after a step. -/
def next [DecidableEq P] (config : RelayConfig) (s : State P) : Label P → Option (State P)
  | .outbox label =>
    if admits s label then (Outbox.next config s.outbox label).map fun outbox => { s with outbox }
    else none
  | .chat event =>
    if topicForEvent event.eventType = .chatEvents ∧
        event.eventId ∉ s.chat.map (fun e => e.eventId) ∧
        event.eventId ∉ s.outbox.table.rows.map fun row => row.eventId then
      some { s with chat := s.chat ++ [event] }
    else none
  | .deliver event outcome =>
    if event ∈ s.messages then
      match outcome with
      | .ok => some { s with log := handle s.log event, handled := s.handled ++ [event] }
      | .failed written => some { s with log := if written then handle s.log event else s.log }
    else none

/-- Writers, relays and the audit worker, from nothing. -/
def audited [DecidableEq P] (config : RelayConfig) : Machine (State P) (Label P) where
  start s := (Outbox.outbox config).start s.outbox ∧ s.chat = [] ∧ s.log.rows = [] ∧ s.handled = []
  next := next config

/-- Nothing has happened. -/
def empty : State P where
  outbox := Outbox.empty
  chat := []
  log := { rows := [], unique := List.nodup_nil }
  handled := []

theorem empty_start [DecidableEq P] (config : RelayConfig) :
    (audited (P := P) config).start empty := ⟨Outbox.empty_start config, rfl, rfl, rfl⟩

end EstateServer.Audit
