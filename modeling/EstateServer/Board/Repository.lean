import EstateServer.Board.Domain
import EstateServer.Library.Table
import Mathlib.Data.Int.Notation
import Mathlib.Order.Defs.LinearOrder

/-!
# The tables of the board and the queries on them

The rows of posts, comments and likes, the two queries of `isMember`, and the like counter in Redis.
-/

namespace EstateServer.Board

open Property

/-- A row of `Post`. -/
structure PostRow where
  id : PostId
  buildingId : BuildingId
  authorId : Auth.UserId
  category : PostCategory
  title : String
  content : String
  deletedAt : Option Instant
  deriving DecidableEq, Repr

/-- A row of `Comment`. -/
structure CommentRow where
  id : CommentId
  postId : PostId
  authorId : Auth.UserId
  content : String
  deletedAt : Option Instant
  deriving DecidableEq, Repr

/-- A row of `PostLike`. -/
structure PostLikeRow where
  id : PostLikeId
  postId : PostId
  userId : Auth.UserId
  deriving DecidableEq, Repr

abbrev PostTable := Table.Keyed PostRow.id
abbrev CommentTable := Table.Keyed CommentRow.id

structure PostLikeTable where
  rows : List PostLikeRow
  id_unique : Table.Unique (·.id) rows
  pair_unique : Table.Unique (fun row => (row.postId, row.userId)) rows

/-! ## Posts and comments -/

/-- The row that `create` inserts. -/
def Post.row (post : Post) (id : PostId) : PostRow where
  id := id
  buildingId := post.buildingId
  authorId := post.authorId
  category := post.category
  title := post.title
  content := post.content
  deletedAt := none

def PostRow.toDomain (row : PostRow) : Post where
  id := some row.id
  buildingId := row.buildingId
  authorId := row.authorId
  category := row.category
  title := row.title
  content := row.content

def PostTable.findById (posts : PostTable) (id : PostId) : Option Post :=
  (posts.rows.find? fun row => row.id = id ∧ row.deletedAt = none).map (·.toDomain)

/-- The row that `create` inserts. -/
def Comment.row (comment : Comment) (id : CommentId) : CommentRow where
  id := id
  postId := comment.postId
  authorId := comment.authorId
  content := comment.content
  deletedAt := none

def CommentRow.toDomain (row : CommentRow) : Comment where
  id := some row.id
  postId := row.postId
  authorId := row.authorId
  content := row.content

/-! ## `PrismaPostLikeRepository` -/

namespace PostLikeTable

variable (likes : PostLikeTable)

/-- The user likes the post. -/
def liked (postId : PostId) (userId : Auth.UserId) : Bool :=
  likes.rows.any fun row => row.postId = postId ∧ row.userId = userId

/-- The row of a new like. -/
def insert (row : PostLikeRow) : Option PostLikeTable :=
  if h : row.id ∉ likes.rows.map (·.id) ∧
      (row.postId, row.userId) ∉ likes.rows.map fun row => (row.postId, row.userId) then
    some
      { rows := likes.rows ++ [row]
        id_unique := likes.id_unique.concat h.1
        pair_unique := likes.pair_unique.concat h.2 }
  else none

/-- The rows that `unlike` finds. -/
def targets (postId : PostId) (userId : Option Auth.UserId) : List PostLikeRow :=
  likes.rows.filter fun row => row.postId = postId ∧ Prisma.whereEq userId row.userId

/-- `DELETE` of rows. -/
def delete (ids : List PostLikeId) : PostLikeTable where
  rows := likes.rows.filter fun row => row.id ∉ ids
  id_unique := likes.id_unique.sublist (List.filter_sublist.map _)
  pair_unique := likes.pair_unique.sublist (List.filter_sublist.map _)

def countByPost (postId : PostId) : ℕ := likes.rows.countP fun row => row.postId = postId

end PostLikeTable

/-! ## `PrismaMembershipChecker` -/

/-- The first query of `isMember`: the user owns the building. -/
def ownsBuilding (buildings : List BuildingRow) (userId : Option Auth.UserId)
    (buildingId : BuildingId) : Bool :=
  buildings.any fun row => row.id = buildingId ∧ Prisma.whereEq userId row.ownerId

/-- The second query of `isMember`: the user has an active lease in the building. -/
def leasesIn (leases : List LeaseRow) (units : List UnitRow) (userId : Option Auth.UserId)
    (buildingId : BuildingId) : Bool :=
  leases.any fun lease => Prisma.whereEq userId lease.tenantId ∧ lease.status = .active ∧
    units.any fun row => row.id = lease.unitId ∧ row.buildingId = buildingId

/-! ## `RedisLikeCounter` -/

/-- The like counters (`board:like:count:<id>`). -/
abbrev LikeCounter := PostId → Option ℤ

namespace LikeCounter

variable (counter : LikeCounter) (postId : PostId)

/-- `INCRBY_IF_EXISTS`: an absent counter stays absent, and none goes below zero. -/
def incrBy (delta : ℤ) : LikeCounter :=
  fun id => if id = postId then (counter id).map fun count => max 0 (count + delta) else counter id

variable {counter postId} in
theorem incrBy_self {delta : ℤ} :
    counter.incrBy postId delta postId = (counter postId).map fun count => max 0 (count + delta) :=
  if_pos rfl

variable {counter postId} in
theorem incrBy_of_ne {delta : ℤ} {id : PostId} (other : id ≠ postId) :
    counter.incrBy postId delta id = counter id := if_neg other

/-- `SET NX`. -/
def backfill (count : ℤ) : LikeCounter :=
  fun id => if id = postId ∧ counter id = none then some count else counter id

end LikeCounter

end EstateServer.Board
