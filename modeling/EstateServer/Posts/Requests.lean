import EstateServer.Library.Machine
import EstateServer.Posts.Store

/-!
# The requests on posts and comments

Any number of processes serve one request each: `CreatePost`, `UpdatePost`, `DeletePost`,
`CreateComment`, `GetPost` or `ListPosts`.  Their statements and calls to Redis interleave under
PostgreSQL's READ COMMITTED:

* the rows of a transaction become visible when it commits, and none of a failed one do;
* an `UPDATE` fixes the rows that it finds when it starts, waits for open transactions that have
  written one of them, and writes those that its filter still finds;
* `UpdatePost` is one statement; `DeletePost` updates the comments and then the post in one
  transaction.

A process may fail or crash before any step; a call that throws after it has been applied is a step,
followed by a failure.  Leases begin and end at any time, and cache entries expire at any time.

The outbox rows, and the likes that `GetPost` and `ListPosts` add to what is below, are written and
read apart from all this and are left out.
-/

namespace EstateServer.Posts

open Machine Board Property

abbrev Pid := ℕ

inductive Request
  | createPost (input : CreatePostInput)
  | updatePost (input : UpdatePostInput)
  | deletePost (input : DeletePostInput)
  | createComment (input : CreateCommentInput)
  | getPost (input : GetPostInput)
  | listPosts (input : ListPostsInput)
  deriving DecidableEq, Repr

/-- How a request ends, with the input where it is a read. -/
inductive Result
  | post (post : Post)
  | comment (comment : Comment)
  | deleted
  | detail (input : GetPostInput) (detail : PostDetail)
  | summaries (input : ListPostsInput) (posts : List PostSummary)
  | failed (failure : Failure)
  /-- An exception of the database or of Redis, or the end of the process. -/
  | aborted
  deriving DecidableEq, Repr

/-- What a request does for a member of the building. -/
inductive Action
  | createPost (input : CreatePostInput)
  | createComment (input : CreateCommentInput) (post : Post)
  /-- `GetPost` has found the post in the cache, or in the database. -/
  | getCached (input : GetPostInput) (detail : PostDetail)
  | getPost (input : GetPostInput) (post : Post)
  | listPosts (input : ListPostsInput)
  deriving DecidableEq, Repr

/-- The user and the building that `isMember` is asked about. -/
def Action.member : Action → Option Auth.UserId × BuildingId
  | createPost input => (input.userId, input.buildingId)
  | createComment input post => (input.userId, post.buildingId)
  | getCached input detail => (input.userId, detail.buildingId)
  | getPost input post => (input.userId, post.buildingId)
  | listPosts input => (input.userId, input.buildingId)

/-- A row that a transaction inserts. -/
inductive Insert
  | post (input : CreatePostInput) (created : Stored PostRow)
  | comment (input : CreateCommentInput) (created : Stored CommentRow)
  deriving DecidableEq, Repr

/-- The transaction of a `DeletePost`, with the comments that its first `UPDATE` is about. -/
structure Removal where
  input : DeletePostInput
  post : Post
  now : Instant
  comments : List CommentId
  deriving DecidableEq, Repr

/-- The random values of a step, and the time. -/
structure Draw where
  id : ℕ
  now : Instant
  deriving DecidableEq, Repr

inductive Phase
  | idle
  | createComment (input : CreateCommentInput)
  | updatePost (input : UpdatePostInput)
  | deletePost (input : DeletePostInput)
  /-- Before the cache is read, and before the post is read. -/
  | getPost (input : GetPostInput)
  | findPost (input : GetPostInput)
  /-- Before the first query of `isMember`, and before the second. -/
  | isMember (action : Action)
  | isTenant (action : Action)
  | member (action : Action)
  /-- The row is inserted, uncommitted. -/
  | inserted (insert : Insert)
  /-- Before `update`, with the post as it was read and as it is edited. -/
  | update (input : UpdatePostInput) (post edited : Post)
  /-- Before the transaction of `delete`. -/
  | delete (input : DeletePostInput) (post : Post)
  /-- The first `UPDATE` has found its rows, then has written them, uncommitted; the second has. -/
  | removing (removal : Removal)
  | marked (removal : Removal)
  | removed (removal : Removal)
  /-- After the commit: before the remaining keys are dropped. -/
  | invalidate (keys : List Key) (result : Result)
  /-- Before the cache is filled. -/
  | setDetail (input : GetPostInput) (detail : PostDetail)
  /-- The list is not in the cache: before the posts are read, and before the cache is filled. -/
  | findPosts (input : ListPostsInput)
  | setList (input : ListPostsInput) (posts : List PostSummary)
  | done (result : Result)
  deriving DecidableEq, Repr

structure State where
  db : Database
  cache : BoardCache
  /-- The transaction that has written a comment, or a post. -/
  commentLock : Locks CommentId Pid
  postLock : Locks PostId Pid
  phase : Pid → Phase

namespace State

/-- The process goes on to another phase. -/
def enter (s : State) (p : Pid) (phase : Phase) : State :=
  { s with phase := Function.update s.phase p phase }

/-- The transaction of the process ends, and the process goes on. -/
def close (s : State) (p : Pid) (phase : Phase) : State :=
  { s with
    commentLock := s.commentLock.release p
    postLock := s.postLock.release p
    phase := Function.update s.phase p phase }

end State

/-! ## Steps -/

/-- The first phase of a request. -/
def Request.start : Request → Phase
  | createPost input => .isMember (.createPost input)
  | updatePost input => .updatePost input
  | deletePost input => .deletePost input
  | createComment input => .createComment input
  | getPost input => .getPost input
  | listPosts input => .isMember (.listPosts input)

/-- The phase in which an exception of the use case ends. -/
def Phase.fails (failure : Failure) : Phase := .done (.failed failure)

/-- What comes after `isMember`. -/
def Action.begin (s : State) (draw : Draw) : Action → Phase
  | createPost input =>
    match Post.create input with
    | .error message => .fails (.domain message)
    | .ok post => .inserted (.post input ⟨post.row draw.id, draw.now⟩)
  | createComment input _ =>
    match Comment.create input with
    | .error message => .fails (.domain message)
    | .ok comment => .inserted (.comment input ⟨comment.row draw.id, draw.now⟩)
  | getCached input detail => .done (.detail input detail)
  | getPost input post => .setDetail input (.of post (s.db.findByPost input.postId))
  | listPosts input =>
    match s.cache.list input.buildingId with
    | some posts => .done (.summaries input posts)
    | none => .findPosts input

/-- The next phase, where the step writes neither rows nor the cache. -/
def Phase.read (s : State) (draw : Draw) : Phase → Option Phase
  | createComment input =>
    match s.db.findById input.postId with
    | none => some (.fails (.board .postNotFound))
    | some post => some (.isMember (.createComment input post))
  | updatePost input =>
    match s.db.findById input.postId with
    | none => some (.fails (.board .postNotFound))
    | some post =>
      if !isAuthoredBy post input.userId then some (.fails .notAuthor)
      else
        match edit post input.title input.content with
        | .error message => some (.fails (.domain message))
        -- `update` throws
        | .ok none => some (.done .aborted)
        | .ok (some edited) => some (.update input post edited)
  | deletePost input =>
    match s.db.findById input.postId with
    | none => some (.fails (.board .postNotFound))
    | some post =>
      if !isAuthoredBy post input.userId then some (.fails .notAuthor)
      else some (.delete input post)
  | getPost input =>
    match s.cache.detail input.postId with
    | some detail => some (.isMember (.getCached input detail))
    | none => some (.findPost input)
  | findPost input =>
    match s.db.findById input.postId with
    | none => some (.fails (.board .postNotFound))
    | some post => some (.isMember (.getPost input post))
  | isMember action =>
    if s.db.owns action.member then some (.member action) else some (.isTenant action)
  | isTenant action =>
    if s.db.rents action.member then some (.member action)
    else some (.fails (.board .notBuildingMember))
  | member action => some (action.begin s draw)
  | delete input post =>
    some (.removing ⟨input, post, draw.now, s.db.liveComments input.postId⟩)
  | findPosts input => some (.setList input ((s.db.findByBuilding input.buildingId).map .of))
  | invalidate keys result => if keys = [] then some (.done result) else none
  | _ => none

/-- A step of the process `p`. -/
def Phase.step (s : State) (p : Pid) (draw : Draw) : Phase → Option State
  | inserted (.post input created) =>
    (s.db.insertPost created).map fun db =>
      { s with db }.enter p (.invalidate [.list input.buildingId] (.post created.row.toDomain))
  | inserted (.comment input created) =>
    (s.db.insertComment created).map fun db =>
      { s with db }.enter p (.invalidate [.detail input.postId] (.comment created.row.toDomain))
  | update input post edited =>
    if s.postLock.available p input.postId then
      match s.db.updated edited with
      -- Prisma throws when the row is missing
      | none => some (s.enter p (.done .aborted))
      | some updated =>
        some ({ s with db := s.db.update edited }.enter p
          (.invalidate [.detail input.postId, .list post.buildingId] (.post updated)))
    else none
  | removing removal =>
    let comments := s.db.stillLive removal.comments
    if removal.comments.all (s.commentLock.available p) then
      some ({ s with commentLock := s.commentLock.acquire p comments }.enter p
        (.marked { removal with comments }))
    else none
  | marked removal =>
    if s.postLock.available p removal.input.postId then
      some ({ s with postLock := s.postLock.acquire p [removal.input.postId] }.enter p
        (.removed removal))
    else none
  | removed removal =>
    -- no request deletes a row, so the second `UPDATE` has found the post
    let db := s.db.delete removal.input.postId removal.comments removal.now
    some ({ s with db }.close p
      (.invalidate [.detail removal.input.postId, .list removal.post.buildingId] .deleted))
  | invalidate (key :: keys) result =>
    some ({ s with cache := s.cache.drop key }.enter p (.invalidate keys result))
  | setDetail input detail =>
    some ({ s with cache := s.cache.setDetail input.postId detail }.enter p
      (.done (.detail input detail)))
  | setList input posts =>
    some ({ s with cache := s.cache.setList input.buildingId posts }.enter p
      (.done (.summaries input posts)))
  | phase => (phase.read s draw).map (s.enter p)

inductive Label
  | arrive (p : Pid) (request : Request)
  | step (p : Pid) (draw : Draw)
  | fail (p : Pid)
  | expire (key : Key)
  | createLease (lease : LeaseRow)
  | endLease (id : LeaseId) (now : Instant)
  deriving DecidableEq, Repr

/-- The state after a step. -/
def State.next (s : State) : Label → Option State
  | .arrive p request => if s.phase p = .idle then some (s.enter p request.start) else none
  | .step p draw => (s.phase p).step s p draw
  | .fail p =>
    match s.phase p with
    | .idle => none
    | .done _ => none
    | _ => some (s.close p (.done .aborted))
  | .expire key => some { s with cache := s.cache.drop key }
  | .createLease lease =>
    (s.db.leases.insert lease).map fun leases => { s with db := { s.db with leases } }
  | .endLease id now => some { s with db := s.db.endLease id now }

/-- The board of any buildings, from before its first post. -/
def board : Machine State Label where
  start s := s.db.posts.rows = [] ∧ s.db.comments.rows = [] ∧
    s.cache = ⟨fun _ => none, fun _ => none⟩ ∧
    s.commentLock = Locks.free ∧ s.postLock = Locks.free ∧ s.phase = fun _ => .idle
  next := State.next

/-- Building 1 belongs to user 9. -/
def ours : State where
  db :=
    { buildings := [⟨1, 9⟩]
      units := []
      leases := ⟨[], List.nodup_nil⟩
      posts := ⟨[], List.nodup_nil⟩
      comments := ⟨[], List.nodup_nil⟩ }
  cache := ⟨fun _ => none, fun _ => none⟩
  commentLock := Locks.free
  postLock := Locks.free
  phase _ := .idle

theorem ours_start : board.start ours := ⟨rfl, rfl, rfl, rfl, rfl, rfl⟩

/-- A step that draws the id. -/
def take (p : Pid) (id : ℕ) : Label := .step p { id, now := 0 }

/-- The request and its first `n` steps. -/
def serve (p : Pid) (request : Request) (n id : ℕ) : List Label :=
  .arrive p request :: List.replicate n (take p id)

/-! ## What a step does -/

/-- The process that a label is about. -/
def Label.pid : Label → Option Pid
  | arrive p _ => some p
  | step p _ => some p
  | fail p => some p
  | _ => none

/-- The next step may fail to find what it looks for. -/
def Phase.looks : Phase → Bool
  | createComment _ => true
  | updatePost _ => true
  | deletePost _ => true
  | getPost _ => true
  | findPost _ => true
  | isTenant _ => true
  | member _ => true
  | _ => false

/-- The phase keeps nothing that has been read. -/
def Phase.blank : Phase → Bool
  | findPost _ => true
  | done (.detail _ _) => false
  | done (.summaries _ _) => false
  | done _ => true
  | _ => false

/-- What the steps do that only read, case by case. -/
inductive Reads (s : State) (draw : Draw) : Phase → Phase → Prop
  | blank {before after : Phase} (looks : before.looks) (blank : after.blank) :
      Reads s draw before after
  | createComment {input : CreateCommentInput} {post : Post}
      (found : s.db.findById input.postId = some post) :
      Reads s draw (.createComment input) (.isMember (.createComment input post))
  | updatePost {input : UpdatePostInput} {post edited : Post}
      (found : s.db.findById input.postId = some post) (author : isAuthoredBy post input.userId)
      (ok : edit post input.title input.content = .ok (some edited)) :
      Reads s draw (.updatePost input) (.update input post edited)
  | deletePost {input : DeletePostInput} {post : Post}
      (found : s.db.findById input.postId = some post) (author : isAuthoredBy post input.userId) :
      Reads s draw (.deletePost input) (.delete input post)
  | hitDetail {input : GetPostInput} {detail : PostDetail}
      (cached : s.cache.detail input.postId = some detail) :
      Reads s draw (.getPost input) (.isMember (.getCached input detail))
  | findPost {input : GetPostInput} {post : Post}
      (found : s.db.findById input.postId = some post) :
      Reads s draw (.findPost input) (.isMember (.getPost input post))
  | owns {action : Action} (owns : s.db.owns action.member) :
      Reads s draw (.isMember action) (.member action)
  | ownsNot {action : Action} : Reads s draw (.isMember action) (.isTenant action)
  | rents {action : Action} (rents : s.db.rents action.member) :
      Reads s draw (.isTenant action) (.member action)
  | returnDetail {input : GetPostInput} {detail : PostDetail} :
      Reads s draw (.member (.getCached input detail)) (.done (.detail input detail))
  | findComments {input : GetPostInput} {post : Post} :
      Reads s draw (.member (.getPost input post))
        (.setDetail input (.of post (s.db.findByPost input.postId)))
  | hitList {input : ListPostsInput} {posts : List PostSummary}
      (cached : s.cache.list input.buildingId = some posts) :
      Reads s draw (.member (.listPosts input)) (.done (.summaries input posts))
  | missList {input : ListPostsInput} :
      Reads s draw (.member (.listPosts input)) (.findPosts input)
  | findPosts {input : ListPostsInput} :
      Reads s draw (.findPosts input)
        (.setList input ((s.db.findByBuilding input.buildingId).map .of))
  | delete {input : DeletePostInput} {post : Post} :
      Reads s draw (.delete input post)
        (.removing ⟨input, post, draw.now, s.db.liveComments input.postId⟩)
  | insertPost {input : CreatePostInput} {created : Stored PostRow}
      (same : created.row.buildingId = input.buildingId) (live : created.row.deletedAt = none) :
      Reads s draw (.member (.createPost input)) (.inserted (.post input created))
  | insertComment {input : CreateCommentInput} {post : Post} {created : Stored CommentRow}
      (same : created.row.postId = input.postId) :
      Reads s draw (.member (.createComment input post)) (.inserted (.comment input created))
  | invalidated {result : Result} : Reads s draw (.invalidate [] result) (.done result)

theorem buildingId_of_create {input : CreatePostInput} {post : Post}
    (h : Post.create input = .ok post) : post.buildingId = input.buildingId := by
  unfold Post.create at h
  split at h
  · cases h
  · split_ifs at h
    rw [← Except.ok.inj h]

theorem postId_of_create {input : CreateCommentInput} {comment : Comment}
    (h : Comment.create input = .ok comment) : comment.postId = input.postId := by
  unfold Comment.create at h
  split at h
  · cases h
  · split_ifs at h
    rw [← Except.ok.inj h]

theorem Reads.begin {s : State} {draw : Draw} {action : Action} :
    Reads s draw (.member action) (action.begin s draw) := by
  cases action with
  | createPost input =>
    simp only [Action.begin]
    split
    · exact .blank rfl rfl
    · exact .insertPost (buildingId_of_create ‹_›) rfl
  | createComment input post =>
    simp only [Action.begin]
    split
    · exact .blank rfl rfl
    · exact .insertComment (postId_of_create ‹_›)
  | getCached input detail => exact .returnDetail
  | getPost input post => exact .findComments
  | listPosts input =>
    simp only [Action.begin]
    split
    · exact .hitList ‹_›
    · exact .missList

theorem Reads.of_read {s : State} {draw : Draw} {before after : Phase}
    (h : before.read s draw = some after) : Reads s draw before after := by
  cases before <;> simp only [Phase.read] at h
  case createComment input =>
    split at h <;> rw [← Option.some.inj h]
    · exact .blank rfl rfl
    · exact .createComment ‹_›
  case updatePost input =>
    split at h
    · rw [← Option.some.inj h]
      exact .blank rfl rfl
    · split_ifs at h with author
      · rw [← Option.some.inj h]
        exact .blank rfl rfl
      · split at h <;> rw [← Option.some.inj h]
        · exact .blank rfl rfl
        · exact .blank rfl rfl
        · exact .updatePost ‹_› (by simpa using author) ‹_›
  case deletePost input =>
    split at h
    · rw [← Option.some.inj h]
      exact .blank rfl rfl
    · split_ifs at h with author <;> rw [← Option.some.inj h]
      · exact .blank rfl rfl
      · exact .deletePost ‹_› (by simpa using author)
  case getPost input =>
    split at h <;> rw [← Option.some.inj h]
    · exact .hitDetail ‹_›
    · exact .blank rfl rfl
  case findPost input =>
    split at h <;> rw [← Option.some.inj h]
    · exact .blank rfl rfl
    · exact .findPost ‹_›
  case isMember action =>
    split_ifs at h with owns <;> rw [← Option.some.inj h]
    · exact .owns owns
    · exact .ownsNot
  case isTenant action =>
    split_ifs at h with rents <;> rw [← Option.some.inj h]
    · exact .rents rents
    · exact .blank rfl rfl
  case member action =>
    rw [← Option.some.inj h]
    exact .begin
  case delete input post =>
    rw [← Option.some.inj h]
    exact .delete
  case findPosts input =>
    rw [← Option.some.inj h]
    exact .findPosts
  case invalidate keys result =>
    split_ifs at h with last
    rw [← Option.some.inj h, last]
    exact .invalidated
  all_goals cases h

/-- What the steps do, case by case. -/
inductive Moves (s : State) : Label → State → Prop
  | arrive {p : Pid} {request : Request} (idle : s.phase p = .idle) :
      Moves s (.arrive p request) (s.enter p request.start)
  | read {p : Pid} {draw : Draw} {phase : Phase} (reads : Reads s draw (s.phase p) phase) :
      Moves s (.step p draw) (s.enter p phase)
  | createPost {p : Pid} {draw : Draw} {input : CreatePostInput} {created : Stored PostRow}
      {db : Database} (at_inserted : s.phase p = .inserted (.post input created))
      (committed : s.db.insertPost created = some db) :
      Moves s (.step p draw) ({ s with db }.enter p
        (.invalidate [.list input.buildingId] (.post created.row.toDomain)))
  | createComment {p : Pid} {draw : Draw} {input : CreateCommentInput}
      {created : Stored CommentRow} {db : Database}
      (at_inserted : s.phase p = .inserted (.comment input created))
      (committed : s.db.insertComment created = some db) :
      Moves s (.step p draw) ({ s with db }.enter p
        (.invalidate [.detail input.postId] (.comment created.row.toDomain)))
  | update {p : Pid} {draw : Draw} {input : UpdatePostInput} {post edited updated : Post}
      (at_update : s.phase p = .update input post edited)
      (available : s.postLock.available p input.postId) :
      Moves s (.step p draw) ({ s with db := s.db.update edited }.enter p
        (.invalidate [.detail input.postId, .list post.buildingId] (.post updated)))
  | missing {p : Pid} {draw : Draw} {input : UpdatePostInput} {post edited : Post}
      (at_update : s.phase p = .update input post edited) :
      Moves s (.step p draw) (s.enter p (.done .aborted))
  | mark {p : Pid} {draw : Draw} {removal : Removal} (at_removing : s.phase p = .removing removal)
      (available : ∀ id ∈ removal.comments, s.commentLock.available p id) :
      Moves s (.step p draw)
        ({ s with
            commentLock := s.commentLock.acquire p (s.db.stillLive removal.comments) }.enter p
          (.marked { removal with comments := s.db.stillLive removal.comments }))
  | lock {p : Pid} {draw : Draw} {removal : Removal} (at_marked : s.phase p = .marked removal)
      (available : s.postLock.available p removal.input.postId) :
      Moves s (.step p draw)
        ({ s with postLock := s.postLock.acquire p [removal.input.postId] }.enter p
          (.removed removal))
  | delete {p : Pid} {draw : Draw} {removal : Removal} (at_removed : s.phase p = .removed removal) :
      Moves s (.step p draw)
        ({ s with db := s.db.delete removal.input.postId removal.comments removal.now }.close p
          (.invalidate [.detail removal.input.postId, .list removal.post.buildingId] .deleted))
  | drop {p : Pid} {draw : Draw} {key : Key} {keys : List Key} {result : Result}
      (at_invalidate : s.phase p = .invalidate (key :: keys) result) :
      Moves s (.step p draw)
        ({ s with cache := s.cache.drop key }.enter p (.invalidate keys result))
  | setDetail {p : Pid} {draw : Draw} {input : GetPostInput} {detail : PostDetail}
      (at_set : s.phase p = .setDetail input detail) :
      Moves s (.step p draw) ({ s with cache := s.cache.setDetail input.postId detail }.enter p
        (.done (.detail input detail)))
  | setList {p : Pid} {draw : Draw} {input : ListPostsInput} {posts : List PostSummary}
      (at_set : s.phase p = .setList input posts) :
      Moves s (.step p draw) ({ s with cache := s.cache.setList input.buildingId posts }.enter p
        (.done (.summaries input posts)))
  | fail {p : Pid} (undone : ∀ result, s.phase p ≠ .done result) :
      Moves s (.fail p) (s.close p (.done .aborted))
  | expire {key : Key} : Moves s (.expire key) { s with cache := s.cache.drop key }
  | leases {a : Label} {leases : Table.Keyed LeaseRow.id} (other : ∀ p draw, a ≠ .step p draw) :
      Moves s a { s with db := { s.db with leases } }

namespace Moves

variable {s s' : State}

theorem steps {p : Pid} {draw : Draw} (h : (s.phase p).step s p draw = some s') :
    Moves s (.step p draw) s' := by
  generalize hphase : s.phase p = phase at h
  have reads : (phase.read s draw).map (s.enter p) = some s' → Moves s (.step p draw) s' := by
    intro h
    obtain ⟨after, h, rfl⟩ := Option.map_eq_some_iff.1 h
    exact .read (.of_read (by rwa [hphase]))
  cases phase with
  | inserted insert =>
    cases insert with
    | post input created =>
      obtain ⟨db, committed, rfl⟩ := Option.map_eq_some_iff.1 h
      exact .createPost hphase committed
    | comment input created =>
      obtain ⟨db, committed, rfl⟩ := Option.map_eq_some_iff.1 h
      exact .createComment hphase committed
  | update input post edited =>
    simp only [Phase.step] at h
    split_ifs at h with available
    split at h
    · rw [← Option.some.inj h]
      exact .missing hphase
    · rw [← Option.some.inj h]
      exact .update hphase available
  | removing removal =>
    simp only [Phase.step] at h
    split_ifs at h with available
    rw [← Option.some.inj h]
    exact .mark hphase (List.all_eq_true.1 available)
  | marked removal =>
    simp only [Phase.step] at h
    split_ifs at h with available
    rw [← Option.some.inj h]
    exact .lock hphase available
  | removed removal =>
    rw [← Option.some.inj h]
    exact .delete hphase
  | invalidate keys result =>
    cases keys with
    | nil => exact reads h
    | cons key keys =>
      rw [← Option.some.inj h]
      exact .drop hphase
  | setDetail input detail =>
    rw [← Option.some.inj h]
    exact .setDetail hphase
  | setList input posts =>
    rw [← Option.some.inj h]
    exact .setList hphase
  | _ => exact reads h

theorem of_next {a : Label} (h : board.next s a = some s') : Moves s a s' := by
  cases a with
  | arrive p request =>
    simp only [board, State.next] at h
    split_ifs at h with idle
    rw [← Option.some.inj h]
    exact .arrive idle
  | step p draw => exact steps h
  | fail p =>
    simp only [board, State.next] at h
    split at h
    · cases h
    · cases h
    · rename_i undone
      rw [← Option.some.inj h]
      exact .fail undone
  | expire key =>
    rw [← Option.some.inj h]
    exact .expire
  | createLease lease =>
    obtain ⟨leases, -, rfl⟩ := Option.map_eq_some_iff.1 h
    exact .leases nofun
  | endLease id now =>
    rw [← Option.some.inj h]
    exact .leases nofun

/-- What holds of the phase of a process after a step of `p`. -/
theorem of_update {β : Type} {phases : Pid → Phase} {after : Phase} {p q : Pid} {v : β}
    (f : Phase → Option β) (h : f (Function.update phases p after q) = some v) :
    f (phases q) = some v ∨ q = p ∧ f after = some v := by
  rcases eq_or_ne q p with rfl | other
  · exact .inr ⟨rfl, by rwa [Function.update_self] at h⟩
  · exact .inl (by rwa [Function.update_of_ne other] at h)

/-- A step leaves the other processes where they are. -/
theorem phase_of_ne {a : Label} (h : board.next s a = some s') {q : Pid} (other : a.pid ≠ some q) :
    s'.phase q = s.phase q := by
  cases of_next h with
  | expire => rfl
  | leases => rfl
  | _ => exact Function.update_of_ne (fun same => other (congrArg some same.symm)) _ _

end Moves

end EstateServer.Posts
