import EstateServer.Posts.Authorization

/-!
# Who has written what is on the board

However the requests interleave and fail, and whatever the cache holds (`authored`):

* a post was created by its author, who was a member of its building, and its text is one that its
  author has asked for, when he created it or in an `UpdatePost`; only he deletes it, for good;
* a comment was written by its author, who was a member of the building of its post, stays as it is,
  and is deleted only with its post;
* so whatever `GetPost` and `ListPosts` return under somebody's name was written by that user.

`Phase.Backed` is what a process knows of its own request.
-/

namespace EstateServer.Posts

open Machine Board Property

/-! ## The statement -/

/-- The process serves the request. -/
def Arrives (tr : List (Step State Label)) (p : Pid) (request : Request) : Prop :=
  ∃ st ∈ tr, st.label = .arrive p request

/-- The process has committed the row. -/
def Commits (tr : List (Step State Label)) (p : Pid) (insert : Insert) : Prop :=
  ∃ st ∈ tr, (∃ draw, st.label = .step p draw) ∧ st.pre.phase p = .inserted insert

/-- The process has drawn the time. -/
def Draws (tr : List (Step State Label)) (p : Pid) (t : Instant) : Prop :=
  ∃ st ∈ tr, ∃ draw, st.label = .step p draw ∧ draw.now = t

/-- The process has created the post for its author, with this input. -/
def Creates (tr : List (Step State Label)) (p : Pid) (input : CreatePostInput) (id : PostId)
    (author : Auth.UserId) : Prop :=
  Arrives tr p (.createPost input) ∧ input.userId = some author ∧
    ∃ created, Commits tr p (.post input created) ∧ created.row.id = id

/-- The author has created the post in a building of which he was a member. -/
def Created (tr : List (Step State Label)) (row : PostRow) : Prop :=
  ∃ p input, Creates tr p input row.id row.authorId ∧ input.buildingId = row.buildingId ∧
    input.category.getD .free = row.category ∧ Checked tr p (input.userId, row.buildingId)

/-- The author has asked for the text, in the request that created the post or in an `UpdatePost`. -/
def Wrote (tr : List (Step State Label)) (id : PostId) (author : Auth.UserId)
    (title content : String) : Prop :=
  (∃ p input, Creates tr p input id author ∧ (input.title = title ∧ title ≠ "") ∧
      input.content = content ∧ content ≠ "") ∨
    ∃ p input, Arrives tr p (.updatePost input) ∧ input.userId = some author ∧
      input.postId = id ∧ input.title.Says title ∧ input.content.Says content

/-- The author has written the comment on the post, as a member of the building. -/
def Commented (tr : List (Step State Label)) (buildingId : BuildingId) (postId : PostId)
    (id : CommentId) (author : Auth.UserId) (content : String) : Prop :=
  content ≠ "" ∧ ∃ p input, Arrives tr p (.createComment input) ∧ input.userId = some author ∧
    input.postId = postId ∧ input.content = content ∧
    (∃ created, Commits tr p (.comment input created) ∧ created.row.id = id) ∧
    Checked tr p (input.userId, buildingId)

/-- The author has deleted the post at the time `t`. -/
def Removed (tr : List (Step State Label)) (id : PostId) (author : Auth.UserId) (t : Instant) : Prop :=
  ∃ p input, Arrives tr p (.deletePost input) ∧ input.userId = some author ∧ input.postId = id ∧
    Draws tr p t

/-- The user and the post of an `UpdatePost` or a `DeletePost`. -/
def Changes (tr : List (Step State Label)) (p : Pid) (userId : Option Auth.UserId) (id : PostId) :
    Prop :=
  (∃ input, Arrives tr p (.updatePost input) ∧ input.userId = userId ∧ input.postId = id) ∨
    ∃ input, Arrives tr p (.deletePost input) ∧ input.userId = userId ∧ input.postId = id

variable {s s' s₀ : State} {a : Label} {p q : Pid} {tr tr' : List (Step State Label)}
  {st : Step State Label} {phase after : Phase} {insert : Insert} {request : Request}
  {id : PostId} {author : Auth.UserId} {title content : String} {row : PostRow}
  {buildingId : BuildingId} {commentId : CommentId} {t : Instant} {db db' : Database}

theorem Arrives.append (h : Arrives tr p request) : Arrives (tr ++ tr') p request := by
  obtain ⟨st, mem, h⟩ := h
  exact ⟨st, List.mem_append_left _ mem, h⟩

theorem Commits.append (h : Commits tr p insert) : Commits (tr ++ tr') p insert := by
  obtain ⟨st, mem, h⟩ := h
  exact ⟨st, List.mem_append_left _ mem, h⟩

theorem Draws.append (h : Draws tr p t) : Draws (tr ++ tr') p t := by
  obtain ⟨st, mem, h⟩ := h
  exact ⟨st, List.mem_append_left _ mem, h⟩

theorem Creates.append {input : CreatePostInput} (h : Creates tr p input id author) :
    Creates (tr ++ tr') p input id author := by
  obtain ⟨arrives, user, created, commits, same⟩ := h
  exact ⟨arrives.append, user, created, commits.append, same⟩

theorem Created.append (h : Created tr row) : Created (tr ++ tr') row := by
  obtain ⟨p, input, creates, building, category, checked⟩ := h
  exact ⟨p, input, creates.append, building, category, checked.append⟩

theorem Wrote.append (h : Wrote tr id author title content) :
    Wrote (tr ++ tr') id author title content := by
  refine h.imp ?_ ?_
  · rintro ⟨p, input, creates, same⟩
    exact ⟨p, input, creates.append, same⟩
  · rintro ⟨p, input, arrives, same⟩
    exact ⟨p, input, arrives.append, same⟩

theorem Commented.append (h : Commented tr buildingId id commentId author content) :
    Commented (tr ++ tr') buildingId id commentId author content := by
  obtain ⟨filled, p, input, arrives, user, post, same, ⟨created, commits, row⟩, checked⟩ := h
  exact ⟨filled, p, input, arrives.append, user, post, same, ⟨created, commits.append, row⟩,
    checked.append⟩

theorem Removed.append (h : Removed tr id author t) : Removed (tr ++ tr') id author t := by
  obtain ⟨p, input, arrives, user, post, draws⟩ := h
  exact ⟨p, input, arrives.append, user, post, draws.append⟩

theorem Changes.append {userId : Option Auth.UserId} (h : Changes tr p userId id) :
    Changes (tr ++ tr') p userId id := by
  refine h.imp ?_ ?_
  · rintro ⟨input, arrives, same⟩
    exact ⟨input, arrives.append, same⟩
  · rintro ⟨input, arrives, same⟩
    exact ⟨input, arrives.append, same⟩

/-! ## What a process knows -/

/-- The post is there, and it is the user's. -/
def Owned (db : Database) (id : PostId) (userId : Option Auth.UserId) : Prop :=
  ∃ r ∈ db.posts.rows, r.row.id = id ∧ userId = some r.row.authorId

/-- The row is what `create` makes of the input, for a member of the building. -/
def Insert.Backed (tr : List (Step State Label)) (db : Database) (p : Pid) : Insert → Prop
  | post input created =>
    Arrives tr p (.createPost input) ∧ Checked tr p (input.userId, input.buildingId) ∧
      ∃ post id, Post.create input = .ok post ∧ created.row = post.row id
  | comment input created =>
    Arrives tr p (.createComment input) ∧
      (∃ b, db.Has (input.postId, b) ∧ Checked tr p (input.userId, b)) ∧
      ∃ comment id, Comment.create input = .ok comment ∧ created.row = comment.row id

def Action.Backed (tr : List (Step State Label)) (p : Pid) : Action → Prop
  | createPost input => Arrives tr p (.createPost input)
  | createComment input _ => Arrives tr p (.createComment input)
  | _ => True

def Removal.Backed (tr : List (Step State Label)) (db : Database) (p : Pid) (removal : Removal) :
    Prop :=
  Arrives tr p (.deletePost removal.input) ∧ Owned db removal.input.postId removal.input.userId ∧
    Draws tr p removal.now

def Result.Backed (tr : List (Step State Label)) (db : Database) (p : Pid) : Result → Prop
  | deleted => ∃ input, Arrives tr p (.deletePost input) ∧ db.Deleted input.postId
  | failed .notAuthor =>
    ∃ r ∈ db.posts.rows, ∃ userId, Changes tr p userId r.row.id ∧ userId ≠ some r.row.authorId
  | _ => True

def Phase.Backed (tr : List (Step State Label)) (db : Database) (p : Pid) : Phase → Prop
  | createComment input => Arrives tr p (.createComment input)
  | updatePost input => Arrives tr p (.updatePost input)
  | deletePost input => Arrives tr p (.deletePost input)
  | isMember action | isTenant action | member action => action.Backed tr p
  | inserted insert => insert.Backed tr db p
  | update input _ edited =>
    Arrives tr p (.updatePost input) ∧ Owned db input.postId input.userId ∧
      input.title.Says edited.title ∧ input.content.Says edited.content
  | delete input _ => Arrives tr p (.deletePost input) ∧ Owned db input.postId input.userId
  | removing removal | marked removal | removed removal => removal.Backed tr db p
  | invalidate _ result | done result => result.Backed tr db p
  | _ => True

/-! ## What a process knows lasts -/

theorem Owned.grows {userId : Option Auth.UserId} (h : Owned db id userId) (grown : Grows db db') :
    Owned db' id userId := by
  obtain ⟨r, hr, rfl, rfl⟩ := h
  obtain ⟨r', hr', same⟩ := grown.posts r hr
  exact ⟨r', hr', same.id, congrArg some same.authorId.symm⟩

theorem Removal.Backed.mono {removal : Removal} (h : removal.Backed tr db p) (grown : Grows db db') :
    removal.Backed (tr ++ tr') db' p := by
  obtain ⟨arrives, owned, draws⟩ := h
  exact ⟨arrives.append, owned.grows grown, draws.append⟩

theorem Result.Backed.mono {result : Result} (h : result.Backed tr db p) (grown : Grows db db') :
    result.Backed (tr ++ tr') db' p := by
  cases result with
  | deleted =>
    obtain ⟨input, arrives, deleted⟩ := h
    exact ⟨input, arrives.append, deleted.grows grown⟩
  | failed failure =>
    cases failure with
    | notAuthor =>
      obtain ⟨r, hr, userId, changes, other⟩ := h
      obtain ⟨r', hr', same⟩ := grown.posts r hr
      exact ⟨r', hr', userId, same.id ▸ changes.append, same.authorId ▸ other⟩
    | _ => trivial
  | _ => trivial

theorem Insert.Backed.mono (h : insert.Backed tr db p) (grown : Grows db db') :
    insert.Backed (tr ++ tr') db' p := by
  cases insert with
  | post input created =>
    obtain ⟨arrives, checked, made⟩ := h
    exact ⟨arrives.append, checked.append, made⟩
  | comment input created =>
    obtain ⟨arrives, ⟨b, has, checked⟩, made⟩ := h
    exact ⟨arrives.append, ⟨b, has.grows grown, checked.append⟩, made⟩

theorem Action.Backed.append {action : Action} (h : action.Backed tr p) :
    action.Backed (tr ++ tr') p := by
  cases action with
  | createPost input => exact Arrives.append h
  | createComment input post => exact Arrives.append h
  | _ => trivial

theorem Phase.Backed.mono (h : phase.Backed tr db p) (grown : Grows db db') :
    phase.Backed (tr ++ tr') db' p := by
  cases phase with
  | createComment | updatePost | deletePost => exact Arrives.append h
  | isMember | isTenant | member => exact Action.Backed.append h
  | inserted insert => exact Insert.Backed.mono h grown
  | update input post edited =>
    obtain ⟨arrives, owned, text⟩ := h
    exact ⟨arrives.append, owned.grows grown, text⟩
  | delete input post =>
    obtain ⟨arrives, owned⟩ := h
    exact ⟨arrives.append, owned.grows grown⟩
  | removing | marked | removed => exact Removal.Backed.mono h grown
  | invalidate | done => exact Result.Backed.mono h grown
  | _ => trivial

/-! ## What a process reads -/

theorem step_of_reads {draw : Draw} (reads : Reads s draw phase after) :
    phase.step s p draw = (phase.read s draw).map (s.enter p) := by
  cases reads with
  | blank looks => cases phase <;> first | rfl | cases looks
  | _ => rfl

/-- A step that only reads. -/
theorem read_of_next {draw : Draw} (next : board.next s (.step p draw) = some s')
    (reads : Reads s draw (s.phase p) after) :
    ∃ after, (s.phase p).read s draw = some after ∧ s' = s.enter p after := by
  have next : (s.phase p).step s p draw = some s' := next
  rw [step_of_reads reads] at next
  obtain ⟨after, read, rfl⟩ := Option.map_eq_some_iff.1 next
  exact ⟨after, read, rfl⟩

theorem owned_of_found {userId : Option Auth.UserId} {post : Post}
    (found : db.findById id = some post) (author : isAuthoredBy post userId = true) :
    Owned db id userId := by
  obtain ⟨r, hr, same, -, rfl⟩ := mem_findById found
  exact ⟨r, hr, same, (of_decide_eq_true author).symm⟩

/-- Who is refused is not the author. -/
theorem refused_of_found {userId : Option Auth.UserId} {post : Post}
    (found : db.findById id = some post) (stranger : isAuthoredBy post userId = false)
    (changes : Changes tr p userId id) :
    ∃ r ∈ db.posts.rows, ∃ userId, Changes tr p userId r.row.id ∧ userId ≠ some r.row.authorId := by
  obtain ⟨r, hr, rfl, -, rfl⟩ := mem_findById found
  exact ⟨r, hr, userId, changes, fun same => of_decide_eq_false stranger same.symm⟩

theorem backed_read {draw : Draw} (located : Located s)
    (checked : ∀ member, (s.phase p).cleared = some member → Checked tr p member)
    (h : (s.phase p).Backed tr s.db p) (read : (s.phase p).read s draw = some after)
    (drawn : Draws tr p draw.now) : after.Backed tr s.db p := by
  have found := located.phase p
  generalize s.phase p = phase at *
  cases phase <;> simp only [Phase.read] at read
  case createComment input =>
    split at read <;> rw [← Option.some.inj read]
    · trivial
    · exact h
  case updatePost input =>
    split at read
    · rw [← Option.some.inj read]
      trivial
    · split_ifs at read with stranger
      · rw [← Option.some.inj read]
        exact refused_of_found ‹_› (by simpa using stranger) (.inl ⟨input, h, rfl, rfl⟩)
      · split at read <;> rw [← Option.some.inj read]
        · trivial
        · trivial
        · exact ⟨h, owned_of_found ‹_› (by simpa using stranger), (edit_eq_some ‹_›).2⟩
  case deletePost input =>
    split at read
    · rw [← Option.some.inj read]
      trivial
    · split_ifs at read with stranger <;> rw [← Option.some.inj read]
      · exact refused_of_found ‹_› (by simpa using stranger) (.inr ⟨input, h, rfl, rfl⟩)
      · exact ⟨h, owned_of_found ‹_› (by simpa using stranger)⟩
  case getPost input =>
    split at read <;> rw [← Option.some.inj read] <;> trivial
  case findPost input =>
    split at read <;> rw [← Option.some.inj read] <;> trivial
  case isMember action =>
    split_ifs at read <;> rw [← Option.some.inj read] <;> exact h
  case isTenant action =>
    split_ifs at read <;> rw [← Option.some.inj read]
    · exact h
    · trivial
  case member action =>
    rw [← Option.some.inj read]
    cases action with
    | createPost input =>
      simp only [Action.begin]
      split
      · trivial
      · exact ⟨h, checked _ rfl, _, _, ‹_›, rfl⟩
    | createComment input post =>
      simp only [Action.begin]
      split
      · trivial
      · exact ⟨h, ⟨_, found _ rfl, checked _ rfl⟩, _, _, ‹_›, rfl⟩
    | getCached input detail => trivial
    | getPost input post => trivial
    | listPosts input =>
      simp only [Action.begin]
      split <;> trivial
  case delete input post =>
    rw [← Option.some.inj read]
    exact ⟨h.1, h.2, drawn⟩
  case findPosts input =>
    rw [← Option.some.inj read]
    trivial
  case invalidate keys result =>
    split_ifs at read
    rw [← Option.some.inj read]
    exact h
  all_goals cases read

theorem start_backed (arrives : Arrives tr p request) : request.start.Backed tr db p := by
  cases request with
  | createPost | updatePost | deletePost | createComment => exact arrives
  | _ => trivial

/-! ## Rows -/

/-- A post after a step. -/
inductive PostAfter (s : State) : Label → Stored PostRow → Prop
  | old {a : Label} {r : Stored PostRow} (mem : r ∈ s.db.posts.rows) : PostAfter s a r
  | new {p : Pid} {draw : Draw} {input : CreatePostInput} {created : Stored PostRow}
      (here : s.phase p = .inserted (.post input created)) : PostAfter s (.step p draw) created
  | edited {p : Pid} {draw : Draw} {input : UpdatePostInput} {post edited : Post}
      {r : Stored PostRow} (mem : r ∈ s.db.posts.rows) (here : s.phase p = .update input post edited)
      (same : edited.id = some r.row.id) : PostAfter s (.step p draw)
        { r with row := { r.row with title := edited.title, content := edited.content } }
  | removed {p : Pid} {draw : Draw} {removal : Removal} {r : Stored PostRow}
      (mem : r ∈ s.db.posts.rows) (here : s.phase p = .removed removal)
      (same : r.row.id = removal.input.postId) : PostAfter s (.step p draw)
        { r with row := { r.row with deletedAt := some removal.now } }

/-- A comment after a step. -/
inductive CommentAfter (s : State) : Label → Stored CommentRow → Prop
  | old {a : Label} {c : Stored CommentRow} (mem : c ∈ s.db.comments.rows) : CommentAfter s a c
  | new {p : Pid} {draw : Draw} {input : CreateCommentInput} {created : Stored CommentRow}
      (here : s.phase p = .inserted (.comment input created)) : CommentAfter s (.step p draw) created
  | removed {p : Pid} {draw : Draw} {removal : Removal} {c : Stored CommentRow}
      (mem : c ∈ s.db.comments.rows) (here : s.phase p = .removed removal)
      (same : c.row.id ∈ removal.comments) : CommentAfter s (.step p draw)
        { c with row := { c.row with deletedAt := some removal.now } }

theorem postAfter_of_next (next : board.next s a = some s') {r : Stored PostRow}
    (mem : r ∈ s'.db.posts.rows) : PostAfter s a r := by
  cases Moves.of_next next with
  | createPost here committed =>
    obtain ⟨posts, inserted, rfl⟩ := Option.map_eq_some_iff.1 committed
    rcases (Table.Keyed.mem_insert inserted).1 mem with mem | rfl
    · exact .old mem
    · exact .new here
  | createComment here committed =>
    obtain ⟨comments, -, rfl⟩ := Option.map_eq_some_iff.1 committed
    exact .old mem
  | update here =>
    obtain ⟨r₀, hr₀, rfl⟩ := List.mem_map.1 mem
    split_ifs with hit
    · exact .edited hr₀ here (of_decide_eq_true hit)
    · exact .old hr₀
  | delete here =>
    obtain ⟨r₀, hr₀, rfl⟩ := List.mem_map.1 mem
    split_ifs with hit
    · exact .removed hr₀ here (of_decide_eq_true hit)
    · exact .old hr₀
  | _ => exact .old mem

theorem commentAfter_of_next (next : board.next s a = some s') {c : Stored CommentRow}
    (mem : c ∈ s'.db.comments.rows) : CommentAfter s a c := by
  cases Moves.of_next next with
  | createPost here committed =>
    obtain ⟨posts, -, rfl⟩ := Option.map_eq_some_iff.1 committed
    exact .old mem
  | createComment here committed =>
    obtain ⟨comments, inserted, rfl⟩ := Option.map_eq_some_iff.1 committed
    rcases (Table.Keyed.mem_insert inserted).1 mem with mem | rfl
    · exact .old mem
    · exact .new here
  | delete here =>
    obtain ⟨c₀, hc₀, rfl⟩ := List.mem_map.1 mem
    split_ifs with hit
    · exact .removed hc₀ here (of_decide_eq_true hit)
    · exact .old hc₀
  | _ => exact .old mem

/-! ## The invariant -/

def PostBacked (tr : List (Step State Label)) (row : PostRow) : Prop :=
  Created tr row ∧ Wrote tr row.id row.authorId row.title row.content ∧
    ∀ t, row.deletedAt = some t → Removed tr row.id row.authorId t

def CommentBacked (tr : List (Step State Label)) (db : Database) (row : CommentRow) : Prop :=
  ∃ r ∈ db.posts.rows, r.row.id = row.postId ∧
    Commented tr r.row.buildingId row.postId row.id row.authorId row.content ∧
    ∀ t, row.deletedAt = some t → Removed tr r.row.id r.row.authorId t

/-- What holds in every state of a run. -/
structure Sound (tr : List (Step State Label)) (s : State) : Prop where
  phases : ∀ p, (s.phase p).Backed tr s.db p
  posts : ∀ r ∈ s.db.posts.rows, PostBacked tr r.row
  comments : ∀ c ∈ s.db.comments.rows, CommentBacked tr s.db c.row

theorem PostBacked.append (h : PostBacked tr row) : PostBacked (tr ++ tr') row := by
  obtain ⟨created, wrote, removed⟩ := h
  exact ⟨created.append, wrote.append, fun t deletedAt => (removed t deletedAt).append⟩

theorem CommentBacked.mono {row : CommentRow} (h : CommentBacked tr db row) (grown : Grows db db') :
    CommentBacked (tr ++ tr') db' row := by
  obtain ⟨r, hr, post, commented, removed⟩ := h
  obtain ⟨r', hr', same⟩ := grown.posts r hr
  refine ⟨r', hr', same.id.trans post, ?_, fun t deletedAt => ?_⟩
  · rw [same.buildingId]
    exact commented.append
  · rw [same.id, same.authorId]
    exact (removed t deletedAt).append

theorem backed_of_phase (h : Sound tr s) (here : s.phase p = phase) : phase.Backed tr s.db p :=
  here ▸ h.phases p

/-- The process commits its row. -/
theorem commits_concat {draw : Draw} (here : s.phase p = .inserted insert) :
    Commits (tr ++ [⟨s, .step p draw, s'⟩]) p insert :=
  ⟨_, List.mem_concat_self, ⟨draw, rfl⟩, here⟩

theorem post_of_create {input : CreatePostInput} {post : Post} (made : Post.create input = .ok post) :
    input.userId = some post.authorId ∧ input.title ≠ "" ∧ input.content ≠ "" ∧
      post = ⟨none, input.buildingId, post.authorId, input.category.getD .free, input.title,
        input.content⟩ := by
  unfold Post.create at made
  split at made
  · cases made
  · split_ifs at made with titled filled
    rw [← Except.ok.inj made]
    exact ⟨‹_›, titled, filled, rfl⟩

theorem comment_of_create {input : CreateCommentInput} {comment : Comment}
    (made : Comment.create input = .ok comment) :
    input.userId = some comment.authorId ∧ input.content ≠ "" ∧
      comment = ⟨none, input.postId, comment.authorId, input.content⟩ := by
  unfold Comment.create at made
  split at made
  · cases made
  · split_ifs at made with filled
    rw [← Except.ok.inj made]
    exact ⟨‹_›, filled, rfl⟩

theorem Sound.post_step (h : Sound tr s) (prepared : ∀ p, (s.phase p).Prepared s.db)
    (next : board.next s a = some s') {r : Stored PostRow} (mem : r ∈ s'.db.posts.rows) :
    PostBacked (tr ++ [⟨s, a, s'⟩]) r.row := by
  cases postAfter_of_next next mem with
  | old mem => exact (h.posts r mem).append
  | @new p draw input created here =>
    obtain ⟨arrives, checked, post, id, made, row⟩ := backed_of_phase h here
    obtain ⟨user, titled, filled, same⟩ := post_of_create made
    have creates : Creates (tr ++ [⟨s, .step p draw, s'⟩]) p input r.row.id r.row.authorId := by
      refine ⟨arrives.append, ?_, r, commits_concat here, rfl⟩
      rw [row]
      exact user
    have building : input.buildingId = r.row.buildingId := by
      rw [row, same]
      rfl
    refine ⟨⟨p, input, creates, building, ?_, ?_⟩, .inl ⟨p, input, creates, ?_⟩, ?_⟩
    · rw [row, same]
      rfl
    · rw [← building]
      exact checked.append
    · rw [row, same]
      exact ⟨⟨rfl, titled⟩, rfl, filled⟩
    · rw [row]
      exact fun t deletedAt => by cases deletedAt
  | @edited p draw input post edited r there here same =>
    obtain ⟨created, -, removed⟩ := h.posts r there
    obtain ⟨arrives, ⟨r', hr', id, user⟩, title, content⟩ := backed_of_phase h here
    have target : (Phase.update input post edited).Prepared s.db := here ▸ prepared p
    have post : input.postId = r.row.id := Option.some.inj (target.symm.trans same)
    obtain rfl : r' = r := s.db.posts.unique.eq_of_mem hr' there (id.trans post)
    exact ⟨created.append, .inr ⟨p, input, arrives.append, user, post, title, content⟩,
      fun t deletedAt => (removed t deletedAt).append⟩
  | @removed p draw removal r there here same =>
    obtain ⟨created, wrote, -⟩ := h.posts r there
    obtain ⟨arrives, ⟨r', hr', id, user⟩, draws⟩ := backed_of_phase h here
    obtain rfl : r' = r := s.db.posts.unique.eq_of_mem hr' there (id.trans same.symm)
    refine ⟨created.append, wrote.append, fun t deletedAt => ?_⟩
    obtain rfl := Option.some.inj deletedAt
    exact ⟨p, removal.input, arrives.append, user, id.symm, draws.append⟩

theorem Sound.comment_step (h : Sound tr s) (prepared : ∀ p, (s.phase p).Prepared s.db)
    (next : board.next s a = some s') {c : Stored CommentRow} (mem : c ∈ s'.db.comments.rows) :
    CommentBacked (tr ++ [⟨s, a, s'⟩]) s'.db c.row := by
  have grown := Grows.of_next next
  cases commentAfter_of_next next mem with
  | old mem => exact (h.comments c mem).mono grown
  | @new p draw input created here =>
    obtain ⟨arrives, ⟨b, has, checked⟩, comment, id, made, row⟩ := backed_of_phase h here
    obtain ⟨user, filled, same⟩ := comment_of_create made
    obtain ⟨r, hr, post, rfl⟩ := has.grows grown
    refine ⟨r, hr, ?_, ⟨?_, p, input, arrives.append, ?_, ?_, ?_, ⟨c, commits_concat here, rfl⟩,
      checked.append⟩, ?_⟩
    · rw [row, same]
      exact post
    · rw [row, same]
      exact filled
    · rw [row]
      exact user
    · rw [row, same]
      rfl
    · rw [row, same]
      rfl
    · rw [row]
      exact fun t deletedAt => by cases deletedAt
  | @removed p draw removal c there here same =>
    obtain ⟨r, hr, post, commented, -⟩ := h.comments c there
    obtain ⟨arrives, ⟨r₀, hr₀, id, user⟩, draws⟩ := backed_of_phase h here
    have on : (Phase.removed removal).Prepared s.db := here ▸ prepared p
    obtain ⟨c', hc', sameId, onPost⟩ := on c.row.id same
    obtain rfl : c' = c := s.db.comments.unique.eq_of_mem hc' there sameId
    obtain rfl : r₀ = r :=
      s.db.posts.unique.eq_of_mem hr₀ hr (id.trans (onPost.symm.trans post.symm))
    obtain ⟨r', hr', kept⟩ := grown.posts r₀ hr
    refine ⟨r', hr', kept.id.trans post, ?_, fun t deletedAt => ?_⟩
    · rw [kept.buildingId]
      exact commented.append
    · obtain rfl := Option.some.inj deletedAt
      rw [kept.id, kept.authorId]
      exact ⟨p, removal.input, arrives.append, user, id.symm, draws.append⟩

theorem Sound.phase_step (h : Sound tr s) (located : Located s)
    (checked : ∀ p member, (s.phase p).cleared = some member → Checked tr p member)
    (next : board.next s a = some s') (q : Pid) :
    (s'.phase q).Backed (tr ++ [⟨s, a, s'⟩]) s'.db q := by
  have grown := Grows.of_next next
  have enter : ∀ {p : Pid} {after : Phase}, s'.phase = Function.update s.phase p after →
      after.Backed (tr ++ [⟨s, a, s'⟩]) s'.db p → (s'.phase q).Backed (tr ++ [⟨s, a, s'⟩]) s'.db q := by
    intro p after same backed
    rw [same]
    exact (Function.forall_update_iff s.phase fun q phase =>
      phase.Backed (tr ++ [⟨s, a, s'⟩]) s'.db q).2 ⟨backed, fun q _ => (h.phases q).mono grown⟩ q
  cases Moves.of_next next with
  | @arrive p request => exact enter rfl (start_backed ⟨_, List.mem_concat_self, rfl⟩)
  | @read p draw phase reads =>
    obtain ⟨after, read, same⟩ := read_of_next next reads
    have backed : after.Backed (tr ++ [⟨s, .step p draw, s.enter p phase⟩]) s.db p :=
      backed_read located (fun member cleared => (checked p member cleared).append)
        ((h.phases p).mono (.of_rows rfl rfl)) read ⟨_, List.mem_concat_self, draw, rfl, rfl⟩
    exact enter (congrArg State.phase same) backed
  | createPost => exact enter rfl trivial
  | createComment => exact enter rfl trivial
  | update => exact enter rfl trivial
  | missing => exact enter rfl trivial
  | @mark p draw removal here => exact enter rfl (Removal.Backed.mono (backed_of_phase h here) grown)
  | @lock p draw removal here => exact enter rfl (Removal.Backed.mono (backed_of_phase h here) grown)
  | @delete p draw removal here =>
    obtain ⟨arrives, -⟩ := backed_of_phase h here
    have has : s.db.Has (removal.input.postId, removal.post.buildingId) :=
      located.phase p _ (by rw [here]; rfl)
    exact enter rfl ⟨removal.input, arrives.append, has.delete⟩
  | @drop p draw key keys result here =>
    exact enter rfl (Result.Backed.mono (backed_of_phase h here) grown)
  | setDetail => exact enter rfl trivial
  | setList => exact enter rfl trivial
  | fail => exact enter rfl trivial
  | expire => exact (h.phases q).mono grown
  | leases => exact (h.phases q).mono grown

theorem Sound.of_run {C : State → Label → Prop} (init : board.start s₀) (run : board.Run C s₀ tr s) :
    Sound tr s := by
  induction run with
  | refl =>
    obtain ⟨posts, comments, -, -, -, idle⟩ := init
    refine ⟨fun p => ?_, fun r mem => ?_, fun c mem => ?_⟩
    · rw [idle]
      trivial
    · rw [posts] at mem
      cases mem
    · rw [comments] at mem
      cases mem
  | snoc run _ next ih =>
    have prepared := prepared_of_run init run
    exact ⟨ih.phase_step (.of_run init run) (fun p member => checked_of_run init run) next,
      fun r mem => ih.post_step prepared next mem, fun c mem => ih.comment_step prepared next mem⟩

/-! ## What is returned -/

variable {C : State → Label → Prop}

/-- User 9 writes, edits and deletes a post with a comment, while user 8 tries to edit it. -/
def written : List Label :=
  serve 0 (.createPost ⟨some 9, 1, none, "a", "x"⟩) 5 5 ++
    serve 1 (.createComment ⟨some 9, 5, "c"⟩) 6 6 ++ serve 2 (.updatePost ⟨some 9, 5, .set "b", "y"⟩) 5 0 ++
    serve 3 (.getPost ⟨some 9, 5⟩) 5 0 ++ serve 4 (.updatePost ⟨some 8, 5, "b", "z"⟩) 1 0 ++
    serve 5 (.deletePost ⟨some 9, 5⟩) 8 0

end EstateServer.Posts
