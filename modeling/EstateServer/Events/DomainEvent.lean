import EstateServer.Auth.Domain

/-!
# Domain events

The envelope that all events share, and the topic of each event type.
-/

namespace EstateServer

/-- The uuid of an event, by which its consumers recognise it. -/
abbrev EventId := ℕ

/-- The id of the entity of an event; also its partition key. -/
abbrev EntityId := ℕ

inductive EventType
  | postCreated
  | commentCreated
  | tenantJoined
  | leaseEnded
  | messageSent
  | likeCreated
  deriving DecidableEq, Repr

inductive EntityType
  | post
  | comment
  | lease
  | message
  deriving DecidableEq, Repr

inductive KafkaTopic
  | boardEvents
  | membershipEvents
  | chatEvents
  deriving DecidableEq, Repr

def topicForEvent : EventType → KafkaTopic
  | .postCreated => .boardEvents
  | .commentCreated => .boardEvents
  | .tenantJoined => .membershipEvents
  | .leaseEnded => .membershipEvents
  | .messageSent => .chatEvents
  | .likeCreated => .boardEvents

/-- `DomainEvent<T>`. -/
structure DomainEvent (P : Type) where
  eventId : EventId
  eventType : EventType
  occurredAt : Instant
  actorId : Option Auth.UserId
  entityType : EntityType
  entityId : EntityId
  payload : P
  deriving DecidableEq, Repr

/-- The trace headers of a request (`sentry-trace`, `baggage`). -/
abbrev TraceHeaders := List (String × String)

end EstateServer
