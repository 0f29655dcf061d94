import EstateServer.Chat.History
import EstateServer.Notifications.Repository
import EstateServer.Number

/-!
# Limits of lists

The endpoints that list notifications and messages pass `Math.min(Number(limit) || 50, cap)` on,
which bounds the number from above only.  A negative number takes rows from the oldest end, and
`-Infinity` is refused by the query; a query on a table takes the whole part of a fraction, and Redis
refuses it.

`list_limits`: whatever the tables and the cache hold, the endpoints answer with the newest rows, at
most `cap` of them, exactly for the strings whose number is at least 1, or missing; for messages, it
must be whole or not below the cap, too.
-/

namespace EstateServer.Listing

open Js Chat Notifications

/-- `Math.min(Number(limit) || fallback, cap)`. -/
def limitOf (fallback cap : ℕ) (limit : Option String) : Number :=
  ((Number.ofOptional limit).or (.finite fallback)).min (.finite cap)

/-- The option `take` of a query, which drops a fraction and is refused unless the rest fits in 64
bits. -/
def take {α : Type*} (limit : Number) (rows : List α) : Option (List α) :=
  limit.trunc64.map fun n => Prisma.take n rows

/-- `LRANGE 0 stop`, which is refused unless `stop` is an integer. -/
def lrange {α : Type*} (stop : Number) (list : List α) : Option (List α) :=
  stop.int64.map fun n => Redis.range 0 n list

/-! ## `NotificationController.listMine` -/

/-- `DEFAULT_LIMIT`. -/
def defaultLimit : ℕ := 50

/-- `MAX_LIMIT`. -/
def maxLimit : ℕ := 100

/-- `NotificationResponseDto`. -/
structure NotificationResponse where
  id : NotificationId
  type : NotificationType
  title : Text
  body : Option Text
  entityType : EntityType
  entityId : EntityId
  buildingId : Option Property.BuildingId
  readAt : Option Instant
  createdAt : Instant
  deriving DecidableEq, Repr

def response (row : NotificationRow) : NotificationResponse where
  id := row.id
  type := row.type
  title := row.title
  body := row.body
  entityType := row.entityType
  entityId := row.entityId
  buildingId := row.buildingId
  readAt := row.readAt
  createdAt := row.createdAt

/-- The notifications of a user. -/
def mine (table : NotificationTable) (userId : Option Auth.UserId) : List NotificationRow :=
  table.rows.filter fun row => Prisma.whereEq userId row.recipientId

/-- `listForUser`; `none` is the exception of a query that is refused. -/
def listForUser (table : NotificationTable) (userId : Option Auth.UserId) (limit : Number) :
    Option (List NotificationRow) :=
  take limit (newestFirst NotificationRow.createdAt (mine table userId))

/-- `GET /notifications`. -/
def listMine (table : NotificationTable) (userId : Option Auth.UserId) (limit : Option String) :
    Option (List NotificationResponse) :=
  (listForUser table userId (limitOf defaultLimit maxLimit limit)).map (·.map response)

/-! ## `ChatController.messages` -/

/-- Why the messages of a room are not shown: an error of the catalogue, or the exception of a query
that is refused. -/
inductive Failure
  | app (error : ChatError)
  | query
  deriving DecidableEq, Repr

/-- `GetMessagesUseCase.execute` with any number as its limit. -/
def getMessagesWith (store : Store) (now : Instant) (userId : Option Auth.UserId) (roomId : RoomId)
    (limit : Number) : Except Failure (List ChatMessagePayload) :=
  match store.rooms.findById roomId with
  | none => .error (.app .roomNotFound)
  | some room =>
    if !room.isParticipant userId then .error (.app .notRoomParticipant)
    else
      match lrange (limit.sub (.finite 1)) (recent store.cache now roomId) with
      | none => .error .query
      | some cached =>
        if cached.length > 0 then .ok cached
        else
          match take limit (newestFirst Message.createdAt (ofRoom store.messages roomId)) with
          | none => .error .query
          | some rows => .ok (rows.map Message.payload)

/-- `GET /chat/rooms/:id/messages`. -/
def messages (store : Store) (now : Instant) (userId : Option Auth.UserId) (roomId : RoomId)
    (limit : Option String) : Except Failure (List ChatMessagePayload) :=
  getMessagesWith store now userId roomId (limitOf recentLimit recentLimit limit)

/-! ## Limits -/

/-- The number is missing or zero, or at least 1. -/
def Accepted : Number → Prop
  | .nan => True
  | .infinity negative => negative = false
  | .finite value => value = 0 ∨ 1 ≤ value

/-- The number is whole, where it is below the cap. -/
def Whole (cap : ℕ) : Number → Prop
  | .finite value => cap ≤ value ∨ value.den = 1
  | _ => True

instance : DecidablePred Accepted
  | .nan => inferInstanceAs (Decidable True)
  | .infinity negative => inferInstanceAs (Decidable (negative = false))
  | .finite value => inferInstanceAs (Decidable (value = 0 ∨ 1 ≤ value))

instance (cap : ℕ) : DecidablePred (Whole cap)
  | .nan => inferInstanceAs (Decidable True)
  | .infinity _ => inferInstanceAs (Decidable True)
  | .finite value => inferInstanceAs (Decidable (cap ≤ value ∨ value.den = 1))

section

variable {fallback cap : ℕ} {limit : Option String}

/-- An accepted string gives a number between 1 and the cap. -/
theorem limitOf_of_accepted (pos : 1 ≤ fallback) (le : fallback ≤ cap)
    (accepted : Accepted (.ofOptional limit)) :
    ∃ value : ℚ, 1 ≤ value ∧ value ≤ cap ∧ limitOf fallback cap limit = .finite value ∧
      (Whole cap (.ofOptional limit) → value.den = 1) := by
  have least : (1 : ℚ) ≤ fallback := by exact_mod_cast pos
  have most : (fallback : ℚ) ≤ cap := by exact_mod_cast le
  unfold limitOf
  cases number : Number.ofOptional limit with
  | nan => exact ⟨fallback, least, most, congrArg Number.finite (if_pos most), fun _ => rfl⟩
  | infinity negative =>
    rw [number] at accepted
    obtain rfl : negative = false := accepted
    exact ⟨cap, least.trans most, le_rfl, rfl, fun _ => rfl⟩
  | finite value =>
    rw [number] at accepted
    by_cases zero : value = 0
    · rw [Number.or, if_pos zero]
      exact ⟨fallback, least, most, congrArg Number.finite (if_pos most), fun _ => rfl⟩
    have low : 1 ≤ value := accepted.resolve_left zero
    rw [Number.or, if_neg zero]
    by_cases small : value ≤ cap
    · refine ⟨value, low, small, congrArg Number.finite (if_pos small), fun whole => ?_⟩
      rcases whole with high | integer
      · rw [le_antisymm small high]
        rfl
      · exact integer
    · exact ⟨cap, least.trans most, le_rfl, congrArg Number.finite (if_neg small), fun _ => rfl⟩

/-- The whole part of a number between 1 and the cap. -/
theorem trunc64_of_accepted {value : ℚ} (low : 1 ≤ value) (le : value ≤ cap) (small : cap ≤ 100) :
    ∃ n : ℕ, 1 ≤ n ∧ n ≤ cap ∧ (Number.finite value).trunc64 = some (n : ℤ) := by
  have nonneg : 0 ≤ value := le_trans (by norm_num) low
  have least : 1 ≤ value.floor := Rat.le_floor_iff.2 (by exact_mod_cast low)
  have most : value.floor ≤ cap := by
    have floor := Rat.floor_monotone le
    rwa [← Int.cast_natCast, Rat.floor_intCast] at floor
  refine ⟨value.floor.toNat, by omega, by omega, ?_⟩
  rw [Number.trunc64, if_pos nonneg, if_pos ⟨by omega, by omega⟩, Int.toNat_of_nonneg (by omega)]

/-- Any other string gives no 64-bit integer, or none that is positive. -/
theorem limitOf_of_not_accepted (pos : 1 ≤ cap) (rejected : ¬ Accepted (.ofOptional limit)) :
    (limitOf fallback cap limit).trunc64 = none ∨
      ∃ k : ℕ, (limitOf fallback cap limit).trunc64 = some (-(k : ℤ)) := by
  unfold limitOf
  cases number : Number.ofOptional limit with
  | nan => exact absurd (number ▸ trivial) rejected
  | infinity negative =>
    rw [number] at rejected
    obtain rfl : negative = true := Bool.eq_true_of_not_eq_false rejected
    exact .inl rfl
  | finite value =>
    rw [number] at rejected
    obtain ⟨nonzero, low⟩ := not_or.1 rejected
    have low : value < 1 := not_le.1 low
    have below : value ≤ cap := low.le.trans (by exact_mod_cast pos)
    rw [Number.or, if_neg nonzero, Number.min, if_pos below, Number.trunc64]
    have whole : (if 0 ≤ value then value.floor else value.ceil) ≤ 0 := by
      split_ifs with nonneg
      · exact Int.lt_add_one_iff.1 (Rat.floor_lt_iff.2 (by exact_mod_cast low))
      · exact Rat.ceil_le_iff.2 (by exact_mod_cast (not_le.1 nonneg).le)
    generalize (if 0 ≤ value then value.floor else value.ceil) = n at whole
    split_ifs
    · exact .inr ⟨n.natAbs, congrArg some (by omega)⟩
    · exact .inl rfl

/-- A fraction below the cap is passed on as it is. -/
theorem limitOf_of_fraction (fallback : ℕ) (accepted : Accepted (.ofOptional limit))
    (fraction : ¬ Whole cap (.ofOptional limit)) :
    ∃ value : ℚ, 1 ≤ value ∧ value < cap ∧ value.den ≠ 1 ∧ Number.Double value ∧
      limitOf fallback cap limit = .finite value := by
  cases number : Number.ofOptional limit with
  | nan => exact absurd (number ▸ trivial) fraction
  | infinity => exact absurd (number ▸ trivial) fraction
  | finite value =>
    rw [number] at accepted fraction
    obtain ⟨low, broken⟩ := not_or.1 fraction
    have small : value < cap := not_le.1 low
    have nonzero : value ≠ 0 := fun zero => broken (zero ▸ rfl)
    refine ⟨value, accepted.resolve_left nonzero, small, broken,
      Number.double_of_ofOptional number, ?_⟩
    rw [limitOf, number, Number.or, if_neg nonzero, Number.min, if_pos small.le]

theorem int64_natCast {n : ℕ} (le : n ≤ 100) : (Number.finite n).int64 = some (n : ℤ) := by
  rw [Number.int64, Rat.den_natCast, Rat.num_natCast, if_pos ⟨rfl, by omega, by omega⟩]

theorem trunc64_natCast {n : ℕ} (le : n ≤ 100) : (Number.finite n).trunc64 = some (n : ℤ) := by
  have whole : (n : ℚ).floor = n := Rat.floor_intCast (n : ℤ)
  rw [Number.trunc64, if_pos (Nat.cast_nonneg n), whole, if_pos ⟨by omega, by omega⟩]

/-- `limit - 1` is exact. -/
theorem sub_one {n : ℕ} (pos : 1 ≤ n) (le : n ≤ 50) :
    (Number.finite n).sub (.finite 1) = .finite ((n - 1 : ℕ) : ℚ) := by
  have exact_ : ∀ n ∈ List.range 51, 1 ≤ n →
      (Number.finite n).sub (.finite 1) = .finite ((n - 1 : ℕ) : ℚ) := by
    decide +kernel
  exact exact_ n (List.mem_range.2 (by omega)) pos

end

/-! ## Rows from the oldest end -/

section

variable {α : Type*} {time : α → ℕ} {rows : List α} {k : ℕ}

theorem take_neg : Prisma.take (-(k : ℤ)) rows = rows.drop (rows.length - k) := by
  rcases Nat.eq_zero_or_pos k with rfl | pos
  · simp [Prisma.take]
  · rw [Prisma.take, if_neg (by omega), Int.natAbs_neg, Int.natAbs_natCast]

/-- A number that is not positive takes rows that are older than the newest one. -/
theorem lt_of_mem_take_neg (ascending : rows.Pairwise fun a b => time a < time b) {b r : α}
    (few : k < rows.length) (last : rows.getLast? = some r)
    (mem : b ∈ Prisma.take (-(k : ℤ)) (newestFirst time rows)) : time b < time r := by
  rw [take_neg, newestFirst_of_ascending ascending, List.drop_reverse, List.mem_reverse,
    List.length_reverse, Nat.sub_sub_self few.le] at mem
  have late : r ∈ rows.drop k := by
    refine List.mem_of_getLast? ?_
    rw [List.getLast?_drop, if_neg (Nat.not_le_of_lt few), last]
  rw [← List.take_append_drop k rows] at ascending
  exact (List.pairwise_append.1 ascending).2.2 b mem r late

theorem length_take_neg :
    (Prisma.take (-(k : ℤ)) (newestFirst time rows)).length = min k rows.length := by
  rw [take_neg, List.length_drop, perm_newestFirst.length_eq]
  omega

/-- With any other string a query takes rows that are older than the newest one, or takes all. -/
theorem older_or_all {fallback cap : ℕ} {limit : Option String} {taken : List α} {r : α}
    (pos : 1 ≤ cap) (rejected : ¬ Accepted (.ofOptional limit))
    (ascending : rows.Pairwise fun a b => time a < time b) (last : rows.getLast? = some r)
    (answer : take (limitOf fallback cap limit) (newestFirst time rows) = some taken) :
    (∀ b ∈ taken, time b < time r) ∨ taken.length = rows.length := by
  rw [take] at answer
  rcases limitOf_of_not_accepted pos rejected with refused | ⟨k, negative⟩
  · rw [refused] at answer
    cases answer
  rw [negative] at answer
  obtain rfl := Option.some.inj answer
  rcases Nat.lt_or_ge k rows.length with few | many
  · exact .inl fun b mem => lt_of_mem_take_neg ascending few last mem
  · exact .inr (length_take_neg.trans (Nat.min_eq_right many))

end

/-! ## Notifications -/

/-- For some number of rows up to the cap, the answer is that many of the newest. -/
def NewestListed (cap : ℕ) (rows : List NotificationRow)
    (answer : Option (List NotificationResponse)) : Prop :=
  ∃ n, 1 ≤ n ∧ n ≤ cap ∧ ∃ newest, Newest NotificationRow.createdAt n rows newest ∧
    answer = some (newest.map response)

section

variable {limit : Option String}

theorem newest_listMine (accepted : Accepted (.ofOptional limit))
    (table : NotificationTable) (userId : Option Auth.UserId) :
    NewestListed maxLimit (mine table userId) (listMine table userId limit) := by
  obtain ⟨value, low, high, passed, -⟩ :=
    limitOf_of_accepted (by decide : 1 ≤ defaultLimit) (by decide : defaultLimit ≤ maxLimit) accepted
  obtain ⟨n, pos, le, whole⟩ := trunc64_of_accepted low high (Nat.le_refl 100)
  refine ⟨n, pos, le, _, newest_take n, ?_⟩
  rw [listMine, passed, listForUser, take, whole, Option.map_some, Prisma.take_natCast]
  rfl

/-- More notifications of user 1 than are ever listed, one at each time. -/
def manyNotifications : NotificationTable where
  rows := (List.range 101).map fun i => ⟨i, 1, .postAdded, [], none, .post, i, none, i, none, i⟩
  id_unique := by
    rw [Table.Unique, List.map_map]
    exact List.nodup_range.map fun _ _ same => same
  pair_unique := by
    rw [Table.Unique, List.map_map]
    exact List.nodup_range.map fun _ _ same => (Prod.mk.inj same).1

theorem not_newest_listMine (rejected : ¬ Accepted (.ofOptional limit)) :
    ¬ NewestListed maxLimit (mine manyNotifications (some 1))
      (listMine manyNotifications (some 1) limit) := by
  have all : mine manyNotifications (some 1) = manyNotifications.rows := by
    refine List.filter_eq_self.2 fun row mem => ?_
    obtain ⟨i, -, rfl⟩ := List.mem_map.1 mem
    rfl
  have length : manyNotifications.rows.length = 101 := by rw [manyNotifications, List.length_map,
    List.length_range]
  have ascending : manyNotifications.rows.Pairwise fun a b => a.createdAt < b.createdAt :=
    List.pairwise_map.2 List.pairwise_lt_range
  have last : manyNotifications.rows.getLast? =
      some ⟨100, 1, .postAdded, [], none, .post, 100, none, 100, none, 100⟩ := by
    rw [manyNotifications, List.getLast?_map]
    rfl
  rintro ⟨n, pos, le, newest, isNewest, answer⟩
  obtain ⟨taken, answer, same⟩ := Option.map_eq_some_iff.1 answer
  rw [all] at isNewest
  rw [listForUser, all] at answer
  rcases older_or_all (by decide) rejected ascending last answer with older | whole
  · -- the newest row is not listed
    obtain ⟨a, ha, new⟩ := isNewest.exists_ge pos (List.mem_of_getLast? last)
    have mem : response a ∈ newest.map response := List.mem_map_of_mem ha
    rw [← same] at mem
    obtain ⟨b, hb, row⟩ := List.mem_map.1 mem
    have times : b.createdAt = a.createdAt := congrArg NotificationResponse.createdAt row
    exact Nat.lt_irrefl _ (Nat.lt_of_lt_of_le (older b hb) (new.trans times.ge))
  · -- more rows are listed than the cap allows
    have lengths := congrArg List.length same
    rw [List.length_map, List.length_map, whole, length, isNewest.length, length] at lengths
    change n ≤ 100 at le
    omega

end

/-! ## Messages -/

/-- The messages of a room, newest first: the list of recent messages, or the table without it. -/
def shown (store : Store) (now : Instant) (roomId : RoomId) : List ChatMessagePayload :=
  if recent store.cache now roomId = [] then
    (newestFirst Message.createdAt (ofRoom store.messages roomId)).map Message.payload
  else recent store.cache now roomId

/-- For some number up to the cap, the answer is at most that many messages, from the newest on. -/
def NewestShown (cap : ℕ) (messages : List ChatMessagePayload)
    (answer : Except Failure (List ChatMessagePayload)) : Prop :=
  ∃ n, 1 ≤ n ∧ n ≤ cap ∧ ∃ newest, answer = .ok newest ∧ newest.length ≤ n ∧
    newest <+: messages ∧ (messages ≠ [] → newest ≠ [])

section

variable {limit : Option String} {store : Store} {now : Instant} {userId : Option Auth.UserId}
  {roomId : RoomId} {room : ChatRoom}

/-- With a whole number up to 50, `GetMessages` is as for any whole number. -/
theorem getMessagesWith_natCast (found : store.rooms.findById roomId = some room)
    (participant : room.isParticipant userId = true) {n : ℕ} (pos : 1 ≤ n) (le : n ≤ 50) :
    getMessagesWith store now userId roomId (.finite n) =
      (Chat.getMessages store now ⟨userId, roomId, n⟩).mapError .app := by
  have cached : lrange ((Number.finite n).sub (.finite 1)) (recent store.cache now roomId) =
      some (getRecent store.cache now roomId n) := by
    have stop : ((n - 1 : ℕ) : ℤ) = n - 1 := by omega
    rw [lrange, sub_one pos le, int64_natCast (by omega), stop]
    rfl
  have rows : take (.finite n) (newestFirst Message.createdAt (ofRoom store.messages roomId)) =
      some (findRecent store.messages roomId n) := by
    rw [take, trunc64_natCast (by omega)]
    rfl
  simp only [getMessagesWith, Chat.getMessages, found, participant, cached, rows, Bool.not_true,
    Bool.false_eq_true, if_false]
  split_ifs <;> rfl

/-- Without recent messages the answer comes from the table. -/
theorem rows_of_getMessagesWith {number : Number} {answer : List ChatMessagePayload}
    (empty : recent store.cache now roomId = [])
    (answered : getMessagesWith store now userId roomId number = .ok answer) :
    ∃ rows, take number (newestFirst Message.createdAt (ofRoom store.messages roomId)) = some rows ∧
      rows.map Message.payload = answer := by
  unfold getMessagesWith at answered
  rw [empty] at answered
  split at answered
  · cases answered
  split_ifs at answered
  split at answered
  · cases answered
  · rename_i cached ranged
    obtain ⟨stop, -, rfl⟩ := Option.map_eq_some_iff.1 ranged
    have none : Redis.range 0 stop ([] : List ChatMessagePayload) = [] := by simp [Redis.range]
    rw [none, List.length_nil, if_neg (Nat.lt_irrefl 0)] at answered
    split at answered
    · cases answered
    · rename_i rows taken
      exact ⟨rows, taken, Except.ok.inj answered⟩

theorem newest_messages (found : store.rooms.findById roomId = some room)
    (participant : room.isParticipant userId = true)
    (accepted : Accepted (.ofOptional limit)) (whole : Whole recentLimit (.ofOptional limit)) :
    NewestShown recentLimit (shown store now roomId) (messages store now userId roomId limit) := by
  obtain ⟨value, low, high, passed, integer⟩ :=
    limitOf_of_accepted (by decide : 1 ≤ recentLimit) (Nat.le_refl recentLimit) accepted
  obtain ⟨n, rfl⟩ := Js.exists_natCast (integer whole) (le_trans (by norm_num) low)
  have pos : 1 ≤ n := by exact_mod_cast low
  have le : n ≤ 50 := by exact_mod_cast high
  refine ⟨n, pos, le, (shown store now roomId).take n, ?_, List.length_take_le _ _,
    List.take_prefix _ _, fun some none => ?_⟩
  · rw [messages, passed, getMessagesWith_natCast found participant pos le,
      History.getMessages_of_participant now pos found participant, shown]
    refine congrArg Except.ok ?_
    split_ifs
    · rw [findRecent, Prisma.take_natCast, List.map_take]
    · rfl
  · rcases List.take_eq_nil_iff.1 none with zero | empty
    · exact absurd zero (Nat.ne_of_gt pos)
    · exact some empty

/-- The room of the owner 1 and the tenant 5, with more messages than are ever shown. -/
def manyMessages : Store :=
  { History.silent.store with
    messages := ⟨(List.range 51).map fun i => ⟨i, 0, 5, "hello", i⟩, by
      rw [Table.Unique, List.map_map]
      exact List.nodup_range.map fun _ _ same => same⟩ }

/-- Redis refuses a fraction. -/
theorem messages_of_fraction (found : store.rooms.findById roomId = some room)
    (participant : room.isParticipant userId = true) (accepted : Accepted (.ofOptional limit))
    (fraction : ¬ Whole recentLimit (.ofOptional limit)) :
    messages store now userId roomId limit = .error .query := by
  obtain ⟨value, low, high, broken, double, passed⟩ := limitOf_of_fraction recentLimit accepted fraction
  have high : value < 50 := by exact_mod_cast high
  have refused : lrange ((Number.finite value).sub (.finite 1)) (recent store.cache now roomId) =
      none := by
    rw [lrange, Number.sub_one_of_fraction double low (high.trans (by norm_num)) broken, Number.int64,
      if_neg fun whole => Number.not_integer_sub_one broken whole.1, Option.map_none]
  simp only [messages, passed, getMessagesWith, found, participant, refused, Bool.not_true,
    Bool.false_eq_true, if_false]

theorem not_newest_messages
    (rejected : ¬ (Accepted (.ofOptional limit) ∧ Whole recentLimit (.ofOptional limit))) :
    ¬ NewestShown recentLimit (shown manyMessages 0 0)
      (messages manyMessages 0 (some 1) 0 limit) := by
  have all : ofRoom manyMessages.messages 0 = manyMessages.messages.rows := by
    refine List.filter_eq_self.2 fun row mem => ?_
    obtain ⟨i, -, rfl⟩ := List.mem_map.1 mem
    rfl
  have length : manyMessages.messages.rows.length = 51 := by
    rw [manyMessages, List.length_map, List.length_range]
  have ascending : manyMessages.messages.rows.Pairwise fun a b => a.createdAt < b.createdAt :=
    List.pairwise_map.2 List.pairwise_lt_range
  have last : manyMessages.messages.rows.getLast? = some ⟨50, 0, 5, "hello", 50⟩ := by
    rw [manyMessages, List.getLast?_map]
    rfl
  rintro ⟨n, pos, le, newest, answer, atMost, ⟨rest, first⟩, nonempty⟩
  have rejected : ¬ Accepted (.ofOptional limit) := by
    intro accepted
    have room : manyMessages.rooms.findById 0 = some ⟨some 0, 2, 1, 5⟩ := rfl
    rw [messages_of_fraction room (by decide) accepted fun whole => rejected ⟨accepted, whole⟩]
      at answer
    cases answer
  have empty : recent manyMessages.cache 0 0 = [] := rfl
  obtain ⟨rows, taken, rfl⟩ := rows_of_getMessagesWith empty answer
  have head : (shown manyMessages 0 0).head? = some ⟨0, 50, 5, "hello", 50⟩ := by
    rw [shown, if_pos empty, all, newestFirst_of_ascending ascending, List.head?_map,
      List.head?_reverse, last]
    rfl
  rw [all] at taken
  rcases older_or_all (by decide) rejected ascending last taken with older | whole
  · -- the newest message is not shown
    have some : rows.map Message.payload ≠ [] := nonempty fun none => by
      rw [none] at head
      cases head
    obtain ⟨top, tail, split⟩ := List.exists_cons_of_ne_nil some
    rw [← first, split] at head
    obtain rfl := Option.some.inj head
    have mem : (⟨0, 50, 5, "hello", 50⟩ : ChatMessagePayload) ∈ rows.map Message.payload :=
      split ▸ List.mem_cons_self
    obtain ⟨b, hb, same⟩ := List.mem_map.1 mem
    have times : b.createdAt = 50 := congrArg ChatMessagePayload.createdAt same
    exact Nat.ne_of_lt (older b hb) times
  · -- more messages are shown than the cap allows
    rw [List.length_map, whole, length] at atMost
    change n ≤ 50 at le
    omega

/-- After any run of `SendMessage` requests whose messages reach the table, what is shown of a room
begins its history. -/
theorem shown_prefix_history {s₀ s : History.State}
    {tr : List (Machine.Step History.State History.Send)} (start : History.sending.start s₀)
    (run : History.sending.Run History.Persisted s₀ tr s) (now : Instant) (roomId : RoomId) :
    shown s.store now roomId <+: History.history s.store roomId := by
  have sound := History.sound_of_run start run
  rw [shown]
  split_ifs
  · rw [newestFirst_of_ascending (sound.ascending roomId), List.map_reverse]
    exact List.prefix_rfl
  · exact History.recent_prefix_history sound now roomId

end

/-! ## The strings -/

/-- Whatever the tables and the cache hold, the notifications that are listed are the newest ones, at
most 100, exactly for the accepted strings, and the messages the newest ones, at most 50, exactly for
those among them that are whole below 50. -/
theorem list_limits (limit : Option String) :
    ((∀ table userId, NewestListed maxLimit (mine table userId) (listMine table userId limit)) ↔
      Accepted (.ofOptional limit)) ∧
    ((∀ store now userId roomId room, store.rooms.findById roomId = some room →
        room.isParticipant userId = true →
        NewestShown recentLimit (shown store now roomId) (messages store now userId roomId limit)) ↔
      Accepted (.ofOptional limit) ∧ Whole recentLimit (.ofOptional limit)) := by
  refine ⟨⟨fun listed => ?_, newest_listMine⟩, ⟨fun answered => ?_, fun accepted => ?_⟩⟩
  · by_contra rejected
    exact not_newest_listMine rejected (listed _ _)
  · by_contra rejected
    have room : manyMessages.rooms.findById 0 = some ⟨some 0, 2, 1, 5⟩ := rfl
    exact not_newest_messages rejected (answered _ _ _ _ _ room (by decide))
  · exact fun store now userId roomId room found participant =>
      newest_messages found participant accepted.1 accepted.2

/-- Of 101 notifications and 51 messages, `limit=-1` lists the oldest one; `limit=0.5` lists no
notification, and `limit=1.5` fails for messages. -/
theorem list_limits_oldest :
    (listMine manyNotifications (some 1) (some "-1")).map (·.map (·.createdAt)) = some [0] ∧
    messages manyMessages 0 (some 1) 0 (some "-1") = .ok [⟨0, 0, 5, "hello", 0⟩] ∧
    listMine manyNotifications (some 1) (some "0.5") = some [] ∧
    messages manyMessages 0 (some 1) 0 (some "1.5") = .error .query ∧
    ¬ NewestListed maxLimit (mine manyNotifications (some 1))
      (listMine manyNotifications (some 1) (some "-1")) ∧
    ¬ NewestShown recentLimit (shown manyMessages 0 0)
      (messages manyMessages 0 (some 1) 0 (some "-1")) := by
  have rejected : ¬ Accepted (.ofOptional (some "-1")) := by decide +kernel
  exact ⟨by decide +kernel, by decide +kernel, by decide +kernel, by decide +kernel,
    not_newest_listMine rejected, not_newest_messages fun accepted => rejected accepted.1⟩

end EstateServer.Listing
