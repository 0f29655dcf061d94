import EstateServer.Library.Table
import EstateServer.Notifications.Domain
import Mathlib.Data.Int.Notation
import Mathlib.Order.Defs.LinearOrder

/-!
# The table of notifications and the unread counters

`PrismaNotificationRepository` on the rows of `Notification`, which two unique constraints guard,
and `RedisNotificationCounter` on the keys `notif:unread:<userId>`.
-/

namespace EstateServer.Notifications

open Property

/-- A row of `Notification`. -/
structure NotificationRow where
  id : NotificationId
  recipientId : Auth.UserId
  type : NotificationType
  title : Js.Text
  body : Option Js.Text
  entityType : EntityType
  entityId : EntityId
  buildingId : Option BuildingId
  eventId : EventId
  readAt : Option Instant
  createdAt : Instant
  deriving DecidableEq, Repr

/-- The idempotence key of a notification. -/
abbrev Pair := EventId × Auth.UserId

def NotificationRow.pair (row : NotificationRow) : Pair := (row.eventId, row.recipientId)

@[ext] structure NotificationTable where
  rows : List NotificationRow
  id_unique : Table.Unique (·.id) rows
  pair_unique : Table.Unique (·.pair) rows

/-! ## `PrismaNotificationRepository` -/

/-- The row that `create` inserts; the database draws its id and its instant. -/
def Notification.row (notification : Notification) (id : NotificationId) (now : Instant) :
    NotificationRow where
  id := id
  recipientId := notification.recipientId
  type := notification.type
  title := notification.title
  body := notification.body
  entityType := notification.entityType
  entityId := notification.entityId
  buildingId := notification.buildingId
  eventId := notification.eventId
  readAt := none
  createdAt := now

/-- The row is unread, and the user is its recipient; a user that is `undefined` does not filter. -/
def NotificationRow.unreadBy (userId : Option Auth.UserId) (row : NotificationRow) : Bool :=
  Prisma.whereEq userId row.recipientId ∧ row.readAt = none

def NotificationRow.read (now : Instant) (row : NotificationRow) : NotificationRow :=
  { row with readAt := some now }

namespace NotificationTable

variable (table : NotificationTable)

/-- `saveIfNew`: the table with the row, or `none` when a unique constraint refuses it (`P2002`). -/
def saveIfNew (row : NotificationRow) : Option NotificationTable :=
  if h : row.id ∉ table.rows.map (·.id) ∧ row.pair ∉ table.rows.map (·.pair) then
    some
      { rows := table.rows ++ [row]
        id_unique := table.id_unique.concat h.1
        pair_unique := table.pair_unique.concat h.2 }
  else none

/-- An `UPDATE` that marks rows as read. -/
def markRead (p : NotificationRow → Bool) (now : Instant) : NotificationTable where
  rows := (Table.updateMany p (·.read now) table.rows).1
  id_unique := table.id_unique.updateMany fun _ => rfl
  pair_unique := table.pair_unique.updateMany fun _ => rfl

/-- `markAllRead`. -/
def markAllRead (userId : Option Auth.UserId) (now : Instant) : NotificationTable :=
  table.markRead (·.unreadBy userId) now

/-- The rows that `markOneRead` finds. -/
def isOne (userId : Option Auth.UserId) (id : NotificationId) (row : NotificationRow) : Bool :=
  row.id = id ∧ row.unreadBy userId

/-- `markOneRead`: the table, and whether a row has gone from unread to read. -/
def markOneRead (userId : Option Auth.UserId) (id : NotificationId) (now : Instant) :
    NotificationTable × Bool :=
  (table.markRead (isOne userId id) now,
    (Table.updateMany (isOne userId id) (·.read now) table.rows).2 = 1)

def countUnread (userId : Option Auth.UserId) : ℕ := table.rows.countP (·.unreadBy userId)

variable {table} {table' : NotificationTable} {row : NotificationRow} {p : NotificationRow → Bool}
  {userId : Option Auth.UserId} {id : NotificationId} {now : Instant}

theorem saveIfNew_eq_some (h : table.saveIfNew row = some table') :
    table'.rows = table.rows ++ [row] ∧ row.pair ∉ table.rows.map (·.pair) := by
  unfold saveIfNew at h
  split_ifs at h with fresh
  rw [← Option.some.inj h]
  exact ⟨rfl, fresh.2⟩

theorem pair_of_saveIfNew (h : table.saveIfNew row = none) (fresh : row.id ∉ table.rows.map (·.id)) :
    row.pair ∈ table.rows.map (·.pair) := by
  unfold saveIfNew at h
  split_ifs at h with refused
  by_contra new
  exact refused ⟨fresh, new⟩

theorem map_pair_markRead : (table.markRead p now).rows.map (·.pair) = table.rows.map (·.pair) :=
  Table.map_updateMany fun _ => rfl

/-- Without a transition nothing is written. -/
theorem markOneRead_eq_self (h : ¬(table.markOneRead userId id now).2 = true) :
    (table.markOneRead userId id now).1 = table := by
  have atMost : table.rows.countP (isOne userId id) ≤ 1 :=
    table.id_unique.countP_le_one fun _ hit => (of_decide_eq_true hit).1
  have none : (Table.updateMany (isOne userId id) (·.read now) table.rows).2 = 0 := by
    simp only [markOneRead, decide_eq_true_iff] at h
    show table.rows.countP (isOne userId id) = 0
    change ¬table.rows.countP (isOne userId id) = 1 at h
    omega
  exact NotificationTable.ext (Table.updateMany_eq_self (Table.count_updateMany_eq_zero.1 none))

theorem countUnread_saveIfNew (h : table.saveIfNew row = some table') :
    table'.countUnread userId = table.countUnread userId + if row.unreadBy userId then 1 else 0 := by
  unfold countUnread
  rw [(saveIfNew_eq_some h).1, List.countP_append, List.countP_singleton]

/-- The unread rows that the `UPDATE` finds are not unread any more. -/
theorem countUnread_markRead (p : NotificationRow → Bool) (now : Instant)
    (userId : Option Auth.UserId) (table : NotificationTable) :
    (table.markRead p now).countUnread userId +
      table.rows.countP (fun row => p row ∧ row.unreadBy userId) = table.countUnread userId := by
  show (table.rows.map fun row => if p row then row.read now else row).countP (·.unreadBy userId) +
    _ = table.rows.countP (·.unreadBy userId)
  have read : ∀ row : NotificationRow, (row.read now).unreadBy userId = false := by
    intro row
    simp [NotificationRow.unreadBy, NotificationRow.read]
  induction table.rows with
  | nil => rfl
  | cons row rows ih =>
    rw [List.map_cons, List.countP_cons, List.countP_cons, List.countP_cons, ← ih]
    by_cases hit : p row = true
    · simp only [hit, if_true, read, true_and, Bool.false_eq_true, if_false, Bool.decide_eq_true]
      omega
    · simp only [hit, if_false, false_and, decide_false, Bool.false_eq_true]
      omega

/-- An `UPDATE` of unread rows of one user finds none of another. -/
theorem countP_unreadBy {user u : Auth.UserId}
    (only : ∀ row, p row = true → row.unreadBy (some user) = true) :
    table.rows.countP (fun row => p row ∧ row.unreadBy (some u)) =
      if user = u then table.rows.countP p else 0 := by
  split_ifs with same
  · refine List.countP_congr fun row _ => ?_
    rw [decide_eq_true_iff, ← same]
    exact ⟨fun hit => hit.1, fun hit => ⟨hit, only row hit⟩⟩
  · rw [List.countP_eq_zero]
    intro row _ hit
    have both := of_decide_eq_true hit
    have mine := of_decide_eq_true (only row both.1)
    have yours := of_decide_eq_true both.2
    simp only [Prisma.whereEq_some, decide_eq_true_iff] at mine yours
    exact same (mine.1.symm.trans yours.1)

theorem countUnread_markOneRead {user u : Auth.UserId}
    (transitioned : (table.markOneRead (some user) id now).2 = true) :
    (table.markOneRead (some user) id now).1.countUnread (some u) + (if user = u then 1 else 0) =
      table.countUnread (some u) := by
  have one : table.rows.countP (isOne (some user) id) = 1 := of_decide_eq_true transitioned
  have split := countUnread_markRead (isOne (some user) id) now (some u) table
  rw [countP_unreadBy fun row hit => (of_decide_eq_true hit).2, one] at split
  exact split

theorem countUnread_markAllRead {user u : Auth.UserId} :
    (table.markAllRead (some user) now).countUnread (some u) =
      if user = u then 0 else table.countUnread (some u) := by
  have split := countUnread_markRead (·.unreadBy (some user)) now (some u) table
  rw [countP_unreadBy fun row hit => hit] at split
  unfold markAllRead
  split_ifs at split ⊢ with same
  · subst same
    change _ + table.countUnread (some user) = _ at split
    omega
  · exact split

end NotificationTable

/-! ## `RedisNotificationCounter` -/

/-- The unread counters.  A user that is `undefined` has a key too (`notif:unread:undefined`). -/
abbrev NotificationCounter := Option Auth.UserId → Option ℤ

namespace NotificationCounter

variable (counter : NotificationCounter) (userId : Option Auth.UserId)

/-- `INCR_IF_EXISTS`. -/
def increment : NotificationCounter :=
  fun user => if user = userId then (counter user).map (· + 1) else counter user

/-- `DECR_IF_EXISTS`: no counter goes below zero. -/
def decrement : NotificationCounter :=
  fun user => if user = userId then (counter user).map fun v => max 0 (v - 1) else counter user

/-- `SET NX`. -/
def backfill (count : ℤ) : NotificationCounter :=
  fun user => if user = userId ∧ counter user = none then some count else counter user

/-- `DEL`. -/
def reset : NotificationCounter := fun user => if user = userId then none else counter user

variable {counter userId} {user : Option Auth.UserId}

@[simp] theorem increment_self : counter.increment userId userId = (counter userId).map (· + 1) :=
  if_pos rfl

theorem increment_of_ne (other : user ≠ userId) : counter.increment userId user = counter user :=
  if_neg other

@[simp] theorem decrement_self :
    counter.decrement userId userId = (counter userId).map fun v => max 0 (v - 1) := if_pos rfl

theorem decrement_of_ne (other : user ≠ userId) : counter.decrement userId user = counter user :=
  if_neg other

theorem backfill_of_none {count : ℤ} (missing : counter userId = none) :
    counter.backfill userId count userId = some count := if_pos ⟨rfl, missing⟩

theorem backfill_of_kept {count : ℤ} (kept : user = userId → counter user ≠ none) :
    counter.backfill userId count user = counter user :=
  if_neg fun missing => kept missing.1 missing.2

@[simp] theorem reset_self : counter.reset userId userId = none := if_pos rfl

theorem reset_of_ne (other : user ≠ userId) : counter.reset userId user = counter user :=
  if_neg other

end NotificationCounter

end EstateServer.Notifications
