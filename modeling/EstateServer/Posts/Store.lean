import EstateServer.Board.Repository
import Mathlib.Data.List.Sort

/-!
# Posts, comments and what the cache keeps of them

The tables of posts and comments with the queries of `PrismaPostRepository` and
`PrismaCommentRepository`, `isMember` on them, and the entries of `RedisBoardCache`.

A query with `orderBy` sorts by `createdAt`, and keeps the order of the table where it is the same.
-/

namespace EstateServer.Posts

open Board Property

/-! ## Requests and errors -/

/-- The title or the content of an `UpdatePost`, whose DTO checks only that it is not empty.  Prisma
takes `{ set: text }` for the text in an `update`, and refuses every other value that is not a text; in
a `create` it refuses this one too. -/
inductive TextInput
  | text (text : String)
  | set (text : String)
  | other (truthy : Bool)
  deriving DecidableEq, Repr

instance : Coe String TextInput := ⟨.text⟩

namespace TextInput

def truthy : TextInput → Bool
  | text value => value ≠ ""
  | set _ => true
  | other truthy => truthy

/-- The text that Prisma writes. -/
def written : TextInput → Option String
  | text value => some value
  | set value => some value
  | other _ => none

/-- The text is one that the input says, and not empty unless it says so with `set`. -/
def Says (input : TextInput) (text : String) : Prop := input = .set text ∨ input = .text text ∧ text ≠ ""

theorem says_of_written {input : TextInput} {text : String} (truthy : input.truthy)
    (written : input.written = some text) : input.Says text := by
  cases input with
  | text value =>
    obtain rfl := Option.some.inj written
    exact .inr ⟨rfl, of_decide_eq_true truthy⟩
  | set value =>
    obtain rfl := Option.some.inj written
    exact .inl rfl
  | other => cases written

end TextInput

structure UpdatePostInput where
  userId : Option Auth.UserId
  postId : PostId
  title : TextInput
  content : TextInput
  deriving DecidableEq, Repr

structure DeletePostInput where
  userId : Option Auth.UserId
  postId : PostId
  deriving DecidableEq, Repr

structure GetPostInput where
  userId : Option Auth.UserId
  postId : PostId
  deriving DecidableEq, Repr

structure ListPostsInput where
  userId : Option Auth.UserId
  buildingId : BuildingId
  deriving DecidableEq, Repr

inductive Failure
  | board (error : BoardError)
  /-- `BoardError.NOT_AUTHOR`. -/
  | notAuthor
  /-- A `DomainError` with its message. -/
  | domain (message : String)
  deriving DecidableEq, Repr

/-- The catalogue entry of a failure; a `DomainError` has none. -/
def Failure.spec : Failure → Option AppErrorSpec
  | board error => some error.spec
  | notAuthor => some ⟨"BOARD_NOT_AUTHOR", 403, "글 작성자만 수정·삭제할 수 있습니다."⟩
  | domain _ => none

/-- `Post.edit`, with the texts as Prisma writes them, or `none` where it refuses one; the error is the
message of the `DomainError`. -/
def edit (post : Post) (title content : TextInput) : Except String (Option Post) :=
  if !title.truthy then .error "제목은 필수입니다."
  else if !content.truthy then .error "본문은 필수입니다."
  else
    match title.written, content.written with
    | some title, some content => .ok (some { post with title, content })
    | _, _ => .ok none

theorem edit_eq_some {post edited : Post} {title content : TextInput}
    (h : edit post title content = .ok (some edited)) :
    edited.id = post.id ∧ title.Says edited.title ∧ content.Says edited.content := by
  unfold edit at h
  split_ifs at h with titled filled
  split at h
  · rename_i title' content' titleWritten contentWritten
    obtain rfl := Option.some.inj (Except.ok.inj h)
    refine ⟨rfl, TextInput.says_of_written ?_ titleWritten, TextInput.says_of_written ?_ contentWritten⟩
    · simpa using titled
    · simpa using filled
  · cases h

/-- `Post.isAuthoredBy`. -/
def isAuthoredBy (post : Post) (userId : Option Auth.UserId) : Bool := some post.authorId = userId

/-! ## Tables -/

/-- A row with its `createdAt`. -/
structure Stored (ρ : Type) where
  row : ρ
  createdAt : Instant
  deriving DecidableEq, Repr

structure Database where
  buildings : List BuildingRow
  units : List UnitRow
  leases : Table.Keyed LeaseRow.id
  posts : Table.Keyed fun stored : Stored PostRow => stored.row.id
  comments : Table.Keyed fun stored : Stored CommentRow => stored.row.id

namespace Database

variable (db : Database)

/-- The post is there and not deleted. -/
def findById (id : PostId) : Option Post :=
  (db.posts.rows.find? fun stored => stored.row.id = id ∧ stored.row.deletedAt = none).map
    fun stored => stored.row.toDomain

def findByBuilding (buildingId : BuildingId) : List Post :=
  ((db.posts.rows.filter fun stored =>
    stored.row.buildingId = buildingId ∧ stored.row.deletedAt = none).insertionSort
      fun a b => b.createdAt ≤ a.createdAt).map fun stored => stored.row.toDomain

def findByPost (postId : PostId) : List Comment :=
  ((db.comments.rows.filter fun stored =>
    stored.row.postId = postId ∧ stored.row.deletedAt = none).insertionSort
      fun a b => a.createdAt ≤ b.createdAt).map fun stored => stored.row.toDomain

/-- The rows that become visible when `CreatePost` and `CreateComment` commit. -/
def insertPost (created : Stored PostRow) : Option Database :=
  (db.posts.insert created).map fun posts => { db with posts }

def insertComment (created : Stored CommentRow) : Option Database :=
  (db.comments.insert created).map fun comments => { db with comments }

/-- `PrismaPostRepository.update`: the title and the content of the row, deleted or not. -/
def update (post : Post) : Database :=
  { db with
    posts := db.posts.update (fun stored => post.id = some stored.row.id)
      (fun stored =>
        { stored with row := { stored.row with title := post.title, content := post.content } })
      fun _ => rfl }

/-- The row that `update` returns. -/
def updated (post : Post) : Option Post :=
  ((db.update post).posts.rows.find? fun stored => post.id = some stored.row.id).map
    fun stored => stored.row.toDomain

/-- The rows that the first `UPDATE` of `PrismaPostRepository.delete` finds. -/
def liveComments (postId : PostId) : List CommentId :=
  (db.comments.rows.filter fun stored =>
    stored.row.postId = postId ∧ stored.row.deletedAt = none).map fun stored => stored.row.id

/-- Those of the rows that are still not deleted. -/
def stillLive (targets : List CommentId) : List CommentId :=
  (db.comments.rows.filter fun stored =>
    stored.row.id ∈ targets ∧ stored.row.deletedAt = none).map fun stored => stored.row.id

/-- The two `UPDATE`s of `PrismaPostRepository.delete`. -/
def delete (id : PostId) (comments : List CommentId) (now : Instant) : Database :=
  { db with
    comments := db.comments.update (fun stored => stored.row.id ∈ comments)
      (fun stored => { stored with row := { stored.row with deletedAt := some now } }) fun _ => rfl
    posts := db.posts.update (fun stored => stored.row.id = id)
      (fun stored => { stored with row := { stored.row with deletedAt := some now } }) fun _ => rfl }

/-- A lease ends. -/
def endLease (id : LeaseId) (now : Instant) : Database :=
  { db with
    leases := db.leases.update (fun row => row.id = id)
      (fun row => { row with status := .ended, endDate := some now }) fun _ => rfl }

/-- The two queries of `isMember`. -/
def owns (member : Option Auth.UserId × BuildingId) : Bool :=
  ownsBuilding db.buildings member.1 member.2

def rents (member : Option Auth.UserId × BuildingId) : Bool :=
  leasesIn db.leases.rows db.units member.1 member.2

/-- `isMember`, in one state of the database. -/
def isMember (member : Option Auth.UserId × BuildingId) : Bool := db.owns member || db.rents member

end Database

/-! ## Cache entries -/

structure CommentView where
  id : CommentId
  authorId : Auth.UserId
  content : String
  deriving DecidableEq, Repr

/-- The fields of `PostDetail` that come from the post. -/
structure PostBody where
  id : PostId
  buildingId : BuildingId
  category : PostCategory
  title : String
  content : String
  authorId : Auth.UserId
  deriving DecidableEq, Repr

structure PostDetail extends PostBody where
  comments : List CommentView
  deriving DecidableEq, Repr

structure PostSummary where
  id : PostId
  category : PostCategory
  title : String
  authorId : Auth.UserId
  deriving DecidableEq, Repr

/-- The views of saved entities, whose id is there. -/
def CommentView.of (comment : Comment) : CommentView where
  id := comment.id.getD 0
  authorId := comment.authorId
  content := comment.content

def PostBody.of (post : Post) : PostBody where
  id := post.id.getD 0
  buildingId := post.buildingId
  category := post.category
  title := post.title
  content := post.content
  authorId := post.authorId

def PostDetail.of (post : Post) (comments : List Comment) : PostDetail where
  toPostBody := .of post
  comments := comments.map .of

def PostSummary.of (post : Post) : PostSummary where
  id := post.id.getD 0
  category := post.category
  title := post.title
  authorId := post.authorId

/-- `board:detail:<postId>` and `board:list:<buildingId>`. -/
inductive Key
  | detail (postId : PostId)
  | list (buildingId : BuildingId)
  deriving DecidableEq, Repr

/-- `RedisBoardCache`. -/
structure BoardCache where
  detail : PostId → Option PostDetail
  list : BuildingId → Option (List PostSummary)

namespace BoardCache

variable (cache : BoardCache)

def setDetail (postId : PostId) (detail : PostDetail) : BoardCache :=
  { cache with detail := Function.update cache.detail postId (some detail) }

def setList (buildingId : BuildingId) (posts : List PostSummary) : BoardCache :=
  { cache with list := Function.update cache.list buildingId (some posts) }

/-- `invalidateDetail`, `invalidateList`, or the end of the lifetime of the entry. -/
def drop : Key → BoardCache
  | .detail postId => { cache with detail := Function.update cache.detail postId none }
  | .list buildingId => { cache with list := Function.update cache.list buildingId none }

end BoardCache

end EstateServer.Posts
