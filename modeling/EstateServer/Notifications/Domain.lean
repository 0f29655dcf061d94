import EstateServer.Events.DomainEvent
import EstateServer.Property.Domain

/-!
# Notifications and their content

`Notification`, and `buildContent`, which makes what a notification says from its event alone.
-/

namespace EstateServer.Notifications

open Property

abbrev NotificationId := ℕ

/-- The payloads of the events, with the fields that `buildContent` reads.  The event type says
which of them its publisher fills. -/
structure Payload where
  roomId : EntityId
  postId : EntityId
  buildingId : Option BuildingId
  content : Js.Text
  title : Js.Text
  deriving DecidableEq, Repr

inductive NotificationType
  | messageReceived
  | commentAdded
  | postAdded
  | postLiked
  deriving DecidableEq, Repr

structure NotificationContent where
  type : NotificationType
  title : Js.Text
  body : Option Js.Text
  entityType : EntityType
  entityId : EntityId
  buildingId : Option BuildingId
  deriving DecidableEq, Repr

/-- `BODY_MAX`. -/
def bodyMax : ℕ := 50

/-- `buildContent`; `none` for an event that nobody is notified of. -/
def buildContent (event : DomainEvent Payload) : Option NotificationContent :=
  match event.eventType with
  | .messageSent =>
    some
      { type := .messageReceived
        title := .of "새 메시지"
        body := some (event.payload.content.slice bodyMax)
        entityType := .message
        entityId := event.payload.roomId
        buildingId := none }
  | .commentCreated =>
    some
      { type := .commentAdded
        title := .of "새 댓글"
        body := some (.of "회원님의 글에 새 댓글이 달렸습니다")
        entityType := .post
        entityId := event.payload.postId
        buildingId := event.payload.buildingId }
  | .likeCreated =>
    some
      { type := .postLiked
        title := .of "새 좋아요"
        body := some (.of "회원님의 글에 좋아요가 눌렸습니다")
        entityType := .post
        entityId := event.payload.postId
        buildingId := event.payload.buildingId }
  | .postCreated =>
    some
      { type := .postAdded
        title := .of "새 게시글"
        body := some event.payload.title
        entityType := .post
        entityId := event.entityId
        buildingId := event.payload.buildingId }
  | .tenantJoined => none
  | .leaseEnded => none

/-- `Notification`; without an id and an instant it is not saved yet. -/
structure Notification where
  id : Option NotificationId
  recipientId : Auth.UserId
  type : NotificationType
  title : Js.Text
  body : Option Js.Text
  entityType : EntityType
  entityId : EntityId
  buildingId : Option BuildingId
  eventId : EventId
  readAt : Option Instant
  createdAt : Option Instant
  deriving DecidableEq, Repr

/-- `Notification.create`, with what `HandleEventUseCase` passes for a recipient. -/
def Notification.create (event : DomainEvent Payload) (content : NotificationContent)
    (recipientId : Auth.UserId) : Notification where
  id := none
  recipientId := recipientId
  type := content.type
  title := content.title
  body := content.body
  entityType := content.entityType
  entityId := content.entityId
  buildingId := content.buildingId
  eventId := event.eventId
  readAt := none
  createdAt := none

/-- `NotificationPushPayload`. -/
structure NotificationPushPayload where
  recipientId : Auth.UserId
  id : NotificationId
  type : NotificationType
  title : Js.Text
  body : Option Js.Text
  entityType : EntityType
  entityId : EntityId
  buildingId : Option BuildingId
  createdAt : Instant
  deriving DecidableEq, Repr

end EstateServer.Notifications
