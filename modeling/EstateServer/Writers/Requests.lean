import EstateServer.Board.Repository
import EstateServer.Library.Machine
import EstateServer.Outbox.Store
import Mathlib.Logic.Function.Basic

/-!
# The requests that write to the outbox

`CreatePost`, `CreateComment`, `LikePost` and `RedeemInviteCode` write their rows and an event in
one transaction, and `UnlikePost` takes a like back.  Any number of processes serve one request
each, and their statements interleave under PostgreSQL's READ COMMITTED:

* the writes of a transaction become visible when it commits, and none of a failed one does;
* `INSERT … ON CONFLICT DO NOTHING` of a like waits for an open transaction that inserts or deletes
  the same pair, and then inserts or finds the row;
* `DELETE` of likes fixes the rows that it finds when it starts, waits for open transactions that
  delete one of them, and deletes those that are still there.

After the commit a request still touches the cache and the like counter in Redis, and may fail
there.  The cache is not read by these requests, so a step that only invalidates it leaves the
state as it is.  A broken foreign key fails its statement, as any step may.
-/

namespace EstateServer.Writers

open Machine Board Property Outbox

abbrev Pid := ℕ

/-- The payloads of the events below. -/
inductive EventPayload
  | post (buildingId : BuildingId) (category : PostCategory) (title : String)
  /-- Of a comment or a like. -/
  | ofPost (postId : PostId) (buildingId : BuildingId)
  | ofUnit (unitId : UnitId)
  deriving DecidableEq, Repr

structure RedeemInviteCodeInput where
  tenantId : Option Auth.UserId
  code : String
  deriving DecidableEq, Repr

inductive Request
  | createPost (input : CreatePostInput)
  | createComment (input : CreateCommentInput)
  | likePost (input : LikePostInput)
  | unlikePost (input : LikePostInput)
  | redeemInviteCode (input : RedeemInviteCodeInput)
  deriving DecidableEq, Repr

inductive Failure
  | board (error : BoardError)
  | property (error : PropertyError)
  /-- A `DomainError` with its message. -/
  | domain (message : String)
  deriving DecidableEq, Repr

/-- How a request ends. -/
inductive Result
  | post (post : Post)
  | comment (comment : Comment)
  /-- `LikePostResult` or `UnlikePostResult`. -/
  | like (postId : PostId) (liked : Bool) (likeCount : ℤ)
  | lease (lease : Lease)
  | failed (failure : Failure)
  /-- An exception of the database or of Redis, or the end of the process. -/
  | aborted
  deriving DecidableEq, Repr

/-- What a request does for a member of the building, with the post that it has read. -/
inductive Action
  | createPost (input : CreatePostInput)
  | createComment (input : CreateCommentInput) (post : Post)
  | likePost (input : LikePostInput) (post : Post)
  | unlikePost (input : LikePostInput) (post : Post)
  deriving DecidableEq, Repr

/-- The user and the building that `isMember` is asked about. -/
def Action.member : Action → Option Auth.UserId × BuildingId
  | createPost input => (input.userId, input.buildingId)
  | createComment input post => (input.userId, post.buildingId)
  | likePost input post => (input.userId, post.buildingId)
  | unlikePost input post => (input.userId, post.buildingId)

/-- A row that a transaction inserts, with what its event is made from. -/
inductive Insert
  | post (input : CreatePostInput) (created : PostRow)
  | comment (input : CreateCommentInput) (post : Post) (created : CommentRow)
  | like (input : LikePostInput) (post : Post) (row : PostLikeRow)
  | lease (input : RedeemInviteCodeInput) (saved : LeaseRow)
  deriving DecidableEq, Repr

/-- The random values of a step, the time, and whether Redis answers. -/
structure Draw where
  id : EntityId
  outboxId : OutboxId
  eventId : EventId
  now : Instant
  traceContext : TraceHeaders
  redis : Bool
  deriving DecidableEq, Repr

inductive Phase
  | idle
  | createComment (input : CreateCommentInput)
  | likePost (input : LikePostInput)
  | unlikePost (input : LikePostInput)
  /-- Before the first query of `isMember`, and before the second. -/
  | isMember (action : Action)
  | isTenant (action : Action)
  | member (action : Action)
  | redeem (input : RedeemInviteCodeInput)
  | redeemed (input : RedeemInviteCodeInput) (lease : Lease)
  /-- The row is inserted, uncommitted. -/
  | inserted (insert : Insert)
  /-- The row and its event (`Insert.event`) are inserted, uncommitted. -/
  | queued (insert : Insert) (draw : Draw)
  /-- `like` has found the row. -/
  | known (input : LikePostInput)
  /-- The `DELETE` has found its rows, and has deleted its rows, uncommitted. -/
  | unliking (input : LikePostInput) (targets : List PostLikeRow)
  | unliked (input : LikePostInput) (deleted : List PostLikeRow)
  /-- After the commit: before the cache is invalidated. -/
  | invalidate (result : Result)
  /-- After the commit: before the counter is updated, and before it is read. -/
  | count (input : LikePostInput) (liked : Bool)
  | read (input : LikePostInput) (liked : Bool)
  /-- The counter is missing: before the rows are counted, and before the counter is rebuilt. -/
  | recount (input : LikePostInput) (liked : Bool)
  | rebuild (input : LikePostInput) (liked : Bool) (likeCount : ℤ)
  | done (result : Result)
  deriving DecidableEq, Repr

structure Database where
  buildings : List BuildingRow
  units : List UnitRow
  leases : Table.Keyed LeaseRow.id
  posts : PostTable
  comments : CommentTable
  likes : PostLikeTable
  outbox : OutboxTable EventPayload

structure State where
  db : Database
  /-- The transaction that has inserted or deleted the like of a pair. -/
  likeLock : Locks (PostId × Auth.UserId) Pid
  codes : InviteCodes
  counter : LikeCounter
  phase : Pid → Phase

namespace State

/-- The process goes on to another phase. -/
def enter (s : State) (p : Pid) (phase : Phase) : State :=
  { s with phase := Function.update s.phase p phase }

/-- The transaction of the process ends, and the process goes on. -/
def close (s : State) (p : Pid) (phase : Phase) : State :=
  { s with likeLock := s.likeLock.release p, phase := Function.update s.phase p phase }

end State

/-! ## The events of the use cases -/

/-- The event of `CreatePostUseCase`. -/
def CreatePost.event (input : CreatePostInput) (created : PostRow) (draw : Draw) :
    DomainEvent EventPayload where
  eventId := draw.eventId
  eventType := .postCreated
  occurredAt := draw.now
  actorId := input.userId
  entityType := .post
  entityId := created.id
  payload := .post created.buildingId created.category created.title

/-- The event of `CreateCommentUseCase`. -/
def CreateComment.event (input : CreateCommentInput) (post : Post) (created : CommentRow)
    (draw : Draw) : DomainEvent EventPayload where
  eventId := draw.eventId
  eventType := .commentCreated
  occurredAt := draw.now
  actorId := input.userId
  entityType := .comment
  entityId := created.id
  payload := .ofPost created.postId post.buildingId

/-- The event of `LikePostUseCase`. -/
def LikePost.event (input : LikePostInput) (post : Post) (draw : Draw) :
    DomainEvent EventPayload where
  eventId := draw.eventId
  eventType := .likeCreated
  occurredAt := draw.now
  actorId := input.userId
  entityType := .post
  entityId := input.postId
  payload := .ofPost input.postId post.buildingId

/-- The event of `RedeemInviteCodeUseCase`. -/
def RedeemInviteCode.event (input : RedeemInviteCodeInput) (saved : LeaseRow) (draw : Draw) :
    DomainEvent EventPayload where
  eventId := draw.eventId
  eventType := .tenantJoined
  occurredAt := draw.now
  actorId := input.tenantId
  entityType := .lease
  entityId := saved.id
  payload := .ofUnit saved.unitId

def Insert.event (draw : Draw) : Insert → DomainEvent EventPayload
  | .post input created => CreatePost.event input created draw
  | .comment input found created => CreateComment.event input found created draw
  | .like input found _ => LikePost.event input found draw
  | .lease input saved => RedeemInviteCode.event input saved draw

/-! ## Steps -/

/-- The first phase of a request. -/
def Request.start : Request → Phase
  | createPost input => .isMember (.createPost input)
  | createComment input => .createComment input
  | likePost input => .likePost input
  | unlikePost input => .unlikePost input
  | redeemInviteCode input => .redeem input

/-- The row becomes visible. -/
def Database.insert (db : Database) : Insert → Option Database
  | .post _ created => (db.posts.insert created).map fun posts => { db with posts }
  | .comment _ _ created => (db.comments.insert created).map fun comments => { db with comments }
  | .like _ _ row => (db.likes.insert row).map fun likes => { db with likes }
  | .lease _ saved => (db.leases.insert saved).map fun leases => { db with leases }

/-- The commit of a row and its event. -/
def Database.commit (db : Database) (insert : Insert) (draw : Draw) : Option Database :=
  (db.insert insert).bind fun db =>
    (db.outbox.add (insert.event draw) draw.traceContext draw.outboxId draw.now).map fun outbox =>
      { db with outbox }

/-- What is left to do after the commit of a row. -/
def Insert.after : Insert → Phase
  | .post _ created => .invalidate (.post created.toDomain)
  | .comment _ _ created => .invalidate (.comment created.toDomain)
  | .like input _ _ => .count input true
  | .lease _ saved => .done (.lease saved.toDomain)

def Phase.fail (failure : Failure) : Phase := .done (.failed failure)

/-- The first statement of a transaction, for a member of the building. -/
def Action.begin (s : State) (p : Pid) (draw : Draw) : Action → Option State
  | createPost input =>
    match Post.create input with
    | .error message => some (s.enter p (.fail (.domain message)))
    | .ok post => some (s.enter p (.inserted (.post input (post.row draw.id))))
  | createComment input post =>
    match Comment.create input with
    | .error message => some (s.enter p (.fail (.domain message)))
    | .ok comment => some (s.enter p (.inserted (.comment input post (comment.row draw.id))))
  | likePost input post =>
    match input.userId with
    -- Prisma refuses a row without a user
    | none => some (s.enter p (.done .aborted))
    | some userId =>
      if s.likeLock.available p (input.postId, userId) then
        if s.db.likes.liked input.postId userId then some (s.enter p (.known input))
        else
          some ({ s with likeLock := s.likeLock.acquire p [(input.postId, userId)] }.enter p
            (.inserted (.like input post { id := draw.id, postId := input.postId, userId })))
      else none
  | unlikePost input _ =>
    some (s.enter p (.unliking input (s.db.likes.targets input.postId input.userId)))

/-- A step of the process `p`. -/
def Phase.step (s : State) (p : Pid) (draw : Draw) : Phase → Option State
  | idle => none
  | createComment input =>
    match s.db.posts.findById input.postId with
    | none => some (s.enter p (.fail (.board .postNotFound)))
    | some post => some (s.enter p (.isMember (.createComment input post)))
  | likePost input =>
    match s.db.posts.findById input.postId with
    | none => some (s.enter p (.fail (.board .postNotFound)))
    | some post => some (s.enter p (.isMember (.likePost input post)))
  | unlikePost input =>
    match s.db.posts.findById input.postId with
    | none => some (s.enter p (.fail (.board .postNotFound)))
    | some post => some (s.enter p (.isMember (.unlikePost input post)))
  | isMember action =>
    if ownsBuilding s.db.buildings action.member.1 action.member.2 then some (s.enter p (.member action))
    else some (s.enter p (.isTenant action))
  | isTenant action =>
    if leasesIn s.db.leases.rows s.db.units action.member.1 action.member.2 then
      some (s.enter p (.member action))
    else some (s.enter p (.fail (.board .notBuildingMember)))
  | member action => action.begin s p draw
  | redeem input =>
    let (payload, codes) := s.codes.redeem input.code
    match payload with
    | none => some ({ s with codes }.enter p (.fail (.property .invalidInviteCode)))
    | some payload =>
      match Lease.create payload.unitId input.tenantId with
      | .error message => some ({ s with codes }.enter p (.fail (.domain message)))
      | .ok lease => some ({ s with codes }.enter p (.redeemed input lease))
  | redeemed input lease => some (s.enter p (.inserted (.lease input (lease.row draw.id))))
  | inserted insert => some (s.enter p (.queued insert draw))
  | queued insert draw =>
    (s.db.commit insert draw).map fun db => { s with db }.close p insert.after
  | known input => some (s.close p (.read input true))
  | unliking input targets =>
    let deleted := targets.filter (· ∈ s.db.likes.rows)
    let pairs := deleted.map fun row => (row.postId, row.userId)
    if pairs.all (s.likeLock.available p) then
      some ({ s with likeLock := s.likeLock.acquire p pairs }.enter p (.unliked input deleted))
    else none
  | unliked input deleted =>
    let likes := s.db.likes.delete (deleted.map fun row => row.id)
    some ({ s with db := { s.db with likes } }.close p
      (if deleted.length = 1 then .count input false else .read input false))
  | invalidate result => some (s.enter p (.done result))
  | count input liked =>
    -- an error of the counter is logged and ignored
    let counter :=
      if draw.redis then s.counter.incrBy input.postId (if liked then 1 else -1) else s.counter
    some ({ s with counter }.enter p (.read input liked))
  | read input liked =>
    match if draw.redis then s.counter input.postId else none with
    | some likeCount => some (s.enter p (.done (.like input.postId liked likeCount)))
    | none => some (s.enter p (.recount input liked))
  | recount input liked =>
    some (s.enter p (.rebuild input liked (s.db.likes.countByPost input.postId)))
  | rebuild input liked likeCount =>
    let counter := if draw.redis then s.counter.backfill input.postId likeCount else s.counter
    some ({ s with counter }.enter p (.done (.like input.postId liked likeCount)))
  | done _ => none

inductive Label
  | arrive (p : Pid) (request : Request)
  | step (p : Pid) (draw : Draw)
  | fail (p : Pid)
  | issueCode (code : String) (payload : InviteCodePayload)
  | expireCode (code : String)
  | expireCount (postId : PostId)

/-- The state after a step. -/
def State.next (s : State) : Label → Option State
  | .arrive p request => if s.phase p = .idle then some (s.enter p request.start) else none
  | .step p draw => (s.phase p).step s p draw
  | .fail p =>
    match s.phase p with
    | .idle => none
    | .done _ => none
    | _ => some (s.close p (.done .aborted))
  | .issueCode code payload =>
    some { s with codes := Function.update s.codes code (some payload) }
  | .expireCode code => some { s with codes := Function.update s.codes code none }
  | .expireCount postId => some { s with counter := Function.update s.counter postId none }

/-- The requests at work on tables that start empty, but for buildings and units. -/
def writers : Machine State Label where
  start s := s.db.leases.rows = [] ∧ s.db.posts.rows = [] ∧ s.db.comments.rows = [] ∧
    s.db.likes.rows = [] ∧ s.db.outbox.rows = [] ∧ s.likeLock = .free ∧ s.phase = fun _ => .idle
  next := State.next

/-- User 1 owns building 1, and nothing has happened. -/
def opened : State where
  db :=
    { buildings := [{ id := 1, ownerId := 1 }]
      units := []
      leases := ⟨[], List.nodup_nil⟩
      posts := ⟨[], List.nodup_nil⟩
      comments := ⟨[], List.nodup_nil⟩
      likes := ⟨[], List.nodup_nil, List.nodup_nil⟩
      outbox := ⟨[], List.nodup_nil, List.nodup_nil⟩ }
  likeLock := .free
  codes _ := none
  counter _ := none
  phase _ := .idle

theorem opened_start : writers.start opened := ⟨rfl, rfl, rfl, rfl, rfl, rfl, rfl⟩

/-- A request and its first `n` steps, which draw the ids `id`. -/
def serve (p : Pid) (request : Request) (n : ℕ) (id : ℕ) : List Label :=
  .arrive p request :: List.replicate n
    (.step p { id, outboxId := id, eventId := id, now := 0, traceContext := [], redis := true })

end EstateServer.Writers
