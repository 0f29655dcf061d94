import EstateServer.Library.ReadThrough
import EstateServer.Posts.History

/-!
# The parts of the board that are cached

The body and the comments of a post and the list of a building are each read through the cache
(`cell`): a process puts into the cache what it holds from the database, and shows what it has found
in one or the other.

`value_of_apart`: a write changes no part that could be read, except under the keys that it drops
after its commit.
-/

namespace EstateServer.Posts

open Machine Board Property

/-! ## The cached parts of the board -/

/-- The body or the comments of a post, or the list of a building. -/
inductive Part
  | body (id : PostId)
  | comments (id : PostId)
  | list (buildingId : BuildingId)
  deriving DecidableEq, Repr

/-- The content of a part; the body of a post that is not there is `none`. -/
inductive Content
  | body (body : Option PostBody)
  | comments (comments : List CommentView)
  | list (posts : List PostSummary)
  deriving DecidableEq, Repr

def Part.key : Part → Key
  | body id => .detail id
  | comments id => .detail id
  | list buildingId => .list buildingId

/-- The content of a part in the database. -/
def Part.value (part : Part) (s : State) : Content :=
  match part with
  | body id => .body ((s.db.findById id).map .of)
  | comments id => .comments ((s.db.findByPost id).map .of)
  | list buildingId => .list ((s.db.findByBuilding buildingId).map .of)

/-- What the detail of a post tells of a part. -/
def PostDetail.tells (id : PostId) (detail : PostDetail) : Part → Option Content
  | .body other => if id = other then some (.body (some detail.toPostBody)) else none
  | .comments other => if id = other then some (.comments detail.comments) else none
  | .list _ => none

/-- What the list of a building tells of a part. -/
def listTells (buildingId : BuildingId) (posts : List PostSummary) : Part → Option Content
  | .list other => if buildingId = other then some (.list posts) else none
  | _ => none

def BoardCache.tells (cache : BoardCache) (part : Part) : Option Content :=
  match part.key with
  | .detail id => (cache.detail id).bind fun detail => detail.tells id part
  | .list buildingId => (cache.list buildingId).bind fun posts => listTells buildingId posts part

/-- What a request has returned. -/
def Result.tells : Result → Part → Option Content
  | detail input found => found.tells input.postId
  | summaries input posts => listTells input.buildingId posts
  | _ => fun _ => none

/-- What the action has read from the database, and may put into the cache. -/
def Action.held : Action → Part → Option Content
  | getPost input post, .body id => if input.postId = id then some (.body (some (.of post))) else none
  | _, _ => none

/-- What the action has found. -/
def Action.shown : Action → Part → Option Content
  | getCached input detail => detail.tells input.postId
  | action => action.held

/-- What a process has read from the database, and may put into the cache. -/
def Phase.held : Phase → Part → Option Content
  | isMember action => action.held
  | isTenant action => action.held
  | member action => action.held
  | setDetail input detail => detail.tells input.postId
  | setList input posts => listTells input.buildingId posts
  | _ => fun _ => none

/-- What a process has found. -/
def Phase.shown : Phase → Part → Option Content
  | isMember action => action.shown
  | isTenant action => action.shown
  | member action => action.shown
  | invalidate _ result => result.tells
  | done result => result.tells
  | phase => phase.held

/-- The step fills the cache. -/
def Fills (s : State) (a : Label) (p : Pid) : Prop :=
  (∃ draw, a = .step p draw) ∧
    ((∃ input detail, s.phase p = .setDetail input detail) ∨
      ∃ input posts, s.phase p = .setList input posts)

/-! ## The parts are read-through caches -/

section laws

variable {s s' : State} {a : Label} {p : Pid} {part : Part} {content : Content}

theorem shown_start (request : Request) : request.start.shown part = none := by
  cases request <;> rfl

theorem held_start (request : Request) : request.start.held part = none := by
  cases request <;> rfl

theorem body_read {input : GetPostInput} {post : Post} (found : s.db.findById input.postId = some post)
    (h : Action.held (.getPost input post) part = some content) : part.value s = content := by
  cases part with
  | body id =>
    simp only [Action.held] at h
    split_ifs at h with same
    rw [← Option.some.inj h, ← same, Part.value, found, Option.map_some]
  | _ => cases h

theorem detail_read {input : GetPostInput} {post : Post}
    (h : (PostDetail.of post (s.db.findByPost input.postId)).tells input.postId part =
      some content) :
    Action.held (.getPost input post) part = some content ∨ part.value s = content := by
  cases part with
  | body id => exact .inl h
  | comments id =>
    simp only [PostDetail.tells] at h
    split_ifs at h with same
    rw [← Option.some.inj h, ← same]
    exact .inr rfl
  | list => cases h

theorem key_of_tells {id : PostId} {detail : PostDetail} (h : detail.tells id part = some content) :
    part.key = .detail id := by
  cases part with
  | body other | comments other =>
    simp only [PostDetail.tells, Option.ite_none_right_eq_some] at h
    rw [Part.key, h.1]
  | list => cases h

theorem key_of_listTells {b : BuildingId} {posts : List PostSummary}
    (h : listTells b posts part = some content) : part.key = .list b := by
  cases part with
  | list other =>
    simp only [listTells, Option.ite_none_right_eq_some] at h
    rw [Part.key, h.1]
  | _ => cases h

theorem detail_cached {id : PostId} {detail : PostDetail} (cached : s.cache.detail id = some detail)
    (h : detail.tells id part = some content) : s.cache.tells part = some content := by
  simp only [BoardCache.tells, key_of_tells h, cached, Option.bind_some, h]

theorem list_cached {b : BuildingId} {posts : List PostSummary}
    (cached : s.cache.list b = some posts) (h : listTells b posts part = some content) :
    s.cache.tells part = some content := by
  simp only [BoardCache.tells, key_of_listTells h, cached, Option.bind_some, h]

theorem list_read {b : BuildingId}
    (h : listTells b ((s.db.findByBuilding b).map .of) part = some content) :
    part.value s = content := by
  cases part with
  | list =>
    simp only [listTells] at h
    split_ifs at h with same
    rw [← Option.some.inj h, ← same]
    rfl
  | _ => cases h

theorem shown_of_blank {phase : Phase} (blank : phase.blank) : phase.shown part = none := by
  cases phase with
  | done result => cases result <;> first | rfl | cases blank
  | _ => first | rfl | cases blank

theorem held_of_blank {phase : Phase} (blank : phase.blank) : phase.held part = none := by
  cases phase <;> first | rfl | cases blank

/-- What a process holds, it held before or has just read in the database. -/
theorem held_read {before after : Phase} {draw : Draw} (reads : Reads s draw before after)
    (held : after.held part = some content) :
    before.held part = some content ∨ part.value s = content := by
  cases reads with
  | blank _ blank => simp [held_of_blank blank] at held
  | findPost found => exact .inr (body_read found held)
  | owns | ownsNot | rents => exact .inl held
  | findComments => exact detail_read held
  | findPosts => exact .inr (list_read held)
  | _ => cases held

/-- What a process shows, it showed before or has just read in the cache or in the database. -/
theorem shown_read {before after : Phase} {draw : Draw} (reads : Reads s draw before after)
    (shown : after.shown part = some content) :
    before.shown part = some content ∨ s.cache.tells part = some content ∨
      part.value s = content := by
  cases reads with
  | blank _ blank => simp [shown_of_blank blank] at shown
  | hitDetail cached => exact .inr (.inl (detail_cached cached shown))
  | findPost found => exact .inr (.inr (body_read found shown))
  | owns | ownsNot | rents | returnDetail | invalidated => exact .inl shown
  | findComments => exact (detail_read shown).imp_right .inr
  | hitList cached => exact .inr (.inl (list_cached cached shown))
  | findPosts => exact .inr (.inr (list_read shown))
  | _ => cases shown

theorem tells_drop {cache : BoardCache} {key : Key}
    (h : (cache.drop key).tells part = some content) : cache.tells part = some content := by
  unfold BoardCache.tells at h ⊢
  cases key with
  | detail id =>
    cases hkey : part.key with
    | detail other =>
      rcases eq_or_ne other id with rfl | ne
      · simp [hkey, BoardCache.drop] at h
      · simpa [hkey, BoardCache.drop, Function.update_of_ne ne] using h
    | list => simpa [hkey, BoardCache.drop] using h
  | list b =>
    cases hkey : part.key with
    | detail => simpa [hkey, BoardCache.drop] using h
    | list other =>
      rcases eq_or_ne other b with rfl | ne
      · simp [hkey, BoardCache.drop] at h
      · simpa [hkey, BoardCache.drop, Function.update_of_ne ne] using h

theorem tells_setDetail {cache : BoardCache} {id : PostId} {detail : PostDetail}
    (h : (cache.setDetail id detail).tells part = some content) :
    cache.tells part = some content ∨ detail.tells id part = some content := by
  unfold BoardCache.tells at h ⊢
  cases hkey : part.key with
  | detail other =>
    rcases eq_or_ne other id with rfl | ne
    · exact .inr (by simpa [hkey, BoardCache.setDetail] using h)
    · exact .inl (by simpa [hkey, BoardCache.setDetail, Function.update_of_ne ne] using h)
  | list => exact .inl (by simpa [hkey, BoardCache.setDetail] using h)

theorem tells_setList {cache : BoardCache} {b : BuildingId} {posts : List PostSummary}
    (h : (cache.setList b posts).tells part = some content) :
    cache.tells part = some content ∨ listTells b posts part = some content := by
  unfold BoardCache.tells at h ⊢
  cases hkey : part.key with
  | detail => exact .inl (by simpa [hkey, BoardCache.setList] using h)
  | list other =>
    rcases eq_or_ne other b with rfl | ne
    · exact .inr (by simpa [hkey, BoardCache.setList] using h)
    · exact .inl (by simpa [hkey, BoardCache.setList, Function.update_of_ne ne] using h)

theorem cached_step (next : board.next s a = some s') (h : s'.cache.tells part = some content) :
    s.cache.tells part = some content ∨
      ∃ p, Fills s a p ∧ (s.phase p).held part = some content := by
  cases Moves.of_next next with
  | drop => exact .inl (tells_drop h)
  | expire => exact .inl (tells_drop h)
  | @setDetail p draw input detail at_set =>
    refine (tells_setDetail h).imp_right fun h => ⟨p, ⟨⟨draw, rfl⟩, .inl ⟨_, _, at_set⟩⟩, ?_⟩
    rwa [at_set]
  | @setList p draw input posts at_set =>
    refine (tells_setList h).imp_right fun h => ⟨p, ⟨⟨draw, rfl⟩, .inr ⟨_, _, at_set⟩⟩, ?_⟩
    rwa [at_set]
  | _ => exact .inl h

theorem value_of_db {part : Part} (same : s'.db = s.db) : part.value s' = part.value s := by
  unfold Part.value
  rw [same]

theorem held_step {q : Pid} (next : board.next s a = some s')
    (h : (s'.phase q).held part = some content) :
    (s.phase q).held part = some content ∨ part.value s' = content := by
  cases Moves.of_next next with
  | arrive =>
    rcases Moves.of_update (fun phase => phase.held part) h with kept | ⟨-, h⟩
    · exact .inl kept
    · simp [held_start] at h
  | read reads =>
    rcases Moves.of_update (fun phase => phase.held part) h with kept | ⟨rfl, new⟩
    · exact .inl kept
    · exact (held_read reads new).imp_right (value_of_db rfl).trans
  | expire => exact .inl h
  | leases => exact .inl h
  | _ =>
    rcases Moves.of_update (fun phase => phase.held part) h with kept | ⟨-, h⟩
    · exact .inl kept
    · cases h

theorem shown_step {q : Pid} (next : board.next s a = some s')
    (h : (s'.phase q).shown part = some content) :
    (s.phase q).shown part = some content ∨ s.cache.tells part = some content ∨
      part.value s' = content := by
  cases Moves.of_next next with
  | arrive =>
    rcases Moves.of_update (fun phase => phase.shown part) h with kept | ⟨-, h⟩
    · exact .inl kept
    · simp [shown_start] at h
  | read reads =>
    rcases Moves.of_update (fun phase => phase.shown part) h with kept | ⟨rfl, new⟩
    · exact .inl kept
    · exact (shown_read reads new).imp_right (.imp_right (value_of_db rfl).trans)
  | drop at_phase | setDetail at_phase | setList at_phase =>
    rcases Moves.of_update (fun phase => phase.shown part) h with kept | ⟨rfl, new⟩
    · exact .inl kept
    · exact .inl (by rw [at_phase]; exact new)
  | expire => exact .inl h
  | leases => exact .inl h
  | _ =>
    rcases Moves.of_update (fun phase => phase.shown part) h with kept | ⟨-, h⟩
    · exact .inl kept
    · cases h

end laws

theorem tells_start {s : State} {part : Part} (init : board.start s) : s.cache.tells part = none := by
  rw [init.2.2.1]
  unfold BoardCache.tells
  split <;> rfl

theorem held_of_start {s : State} {p : Pid} {part : Part} (init : board.start s) :
    (s.phase p).held part = none := by
  rw [init.2.2.2.2.2]
  rfl

theorem shown_of_start {s : State} {p : Pid} {part : Part} (init : board.start s) :
    (s.phase p).shown part = none := by
  rw [init.2.2.2.2.2]
  rfl

/-- A part of the board, as the processes read it through the cache. -/
def cell (part : Part) : ReadThrough board Pid Content where
  value := part.value
  cached s := s.cache.tells part
  held s p := (s.phase p).held part
  shown s p := (s.phase p).shown part
  fills := Fills
  cached_step := cached_step
  held_step := held_step
  shown_step := shown_step

/-- What the cache has and what a process shows, the database has had since the start. -/
theorem cached_of_run {C : State → Label → Prop} {s₀ s : State} {tr : List (Step State Label)}
    {part : Part} {content : Content} (init : board.start s₀) (run : board.Run C s₀ tr s)
    (cached : s.cache.tells part = some content) : content ∈ Since part.value s₀ tr := by
  refine (cell part).cached_since (.refl s₀) (tells_start init) run (fun _ _ p _ => ?_) cached
  exact held_of_start init

theorem shown_of_run {C : State → Label → Prop} {s₀ s : State} {tr : List (Step State Label)}
    {part : Part} {content : Content} {p : Pid} (init : board.start s₀) (run : board.Run C s₀ tr s)
    (shown : (s.phase p).shown part = some content) : content ∈ Since part.value s₀ tr := by
  refine (cell part).shown_since (.refl s₀) (tells_start init) (.refl s₀) (p := p) ?_ run
    (fun _ _ p _ => ?_) shown
  · exact shown_of_start init
  · exact held_of_start init

/-! ## What a write changes -/

/-- The keys that the process drops after the commit that comes next. -/
def Phase.keys : Phase → Option (List Key)
  | inserted (.post input _) => some [.list input.buildingId]
  | inserted (.comment input _) => some [.detail input.postId]
  | update input post _ => some [.detail input.postId, .list post.buildingId]
  | removed removal => some [.detail removal.input.postId, .list removal.post.buildingId]
  | _ => none

section frame

variable {s s' : State} {part : Part} {keys : List Key} {p : Pid} {draw : Draw}

/-- A part depends on the rows that its key names. -/
theorem value_congr
    (posts : ∀ f : Stored PostRow → Bool,
      (∀ r, f r = true → part = .body r.row.id ∨ part = .list r.row.buildingId) →
      s'.db.posts.rows.filter f = s.db.posts.rows.filter f)
    (comments : ∀ f : Stored CommentRow → Bool,
      (∀ c, f c = true → part = .comments c.row.postId) →
      s'.db.comments.rows.filter f = s.db.comments.rows.filter f) :
    part.value s' = part.value s := by
  cases part with
  | body id =>
    simp only [Part.value, Database.findById]
    rw [← List.head?_filter, ← List.head?_filter, posts]
    intro r hr
    exact .inl (congrArg Part.body (of_decide_eq_true hr).1.symm)
  | comments id =>
    simp only [Part.value, Database.findByPost]
    rw [comments]
    intro c hc
    exact congrArg Part.comments (of_decide_eq_true hc).1.symm
  | list b =>
    simp only [Part.value, Database.findByBuilding]
    rw [posts]
    intro r hr
    exact .inr (congrArg Part.list (of_decide_eq_true hr).1.symm)

/-- Rows of one post change, in a way that keeps their keys. -/
theorem posts_frame {db : Database} {id : PostId} {b : BuildingId} {g : Stored PostRow → Bool}
    {h : Stored PostRow → Stored PostRow} {f : Stored PostRow → Bool} (has : db.Has (id, b))
    (hits : ∀ r, g r = true → r.row.id = id)
    (ids : ∀ r, (h r).row.id = r.row.id) (buildings : ∀ r, (h r).row.buildingId = r.row.buildingId)
    (apart : part.key ≠ .detail id ∧ part.key ≠ .list b)
    (hf : ∀ r, f r = true → part = .body r.row.id ∨ part = .list r.row.buildingId) :
    (Table.updateMany g h db.posts.rows).1.filter f = db.posts.rows.filter f := by
  obtain ⟨r₀, hr₀, same, building⟩ := has
  have missed : ∀ r : Stored PostRow, r.row.id = id → r.row.buildingId = b → f r = false := by
    intro r hid hb
    by_contra hit
    rcases hf r (by simpa using hit) with rfl | rfl
    · exact apart.1 (congrArg Key.detail hid)
    · exact apart.2 (congrArg Key.list hb)
  refine Table.filter_updateMany_of_apart fun r hr hit => ?_
  have hid := hits r hit
  have hb : r.row.buildingId = b := by
    rw [db.posts.unique.eq_of_mem hr hr₀ (hid.trans same.symm)]
    exact building
  exact ⟨missed r hid hb, missed _ ((ids r).trans hid) ((buildings r).trans hb)⟩

theorem comments_frame {db : Database} {removal : Removal} {h : Stored CommentRow → Stored CommentRow}
    {f : Stored CommentRow → Bool} (on : removal.On db)
    (kept : ∀ c, (h c).row.postId = c.row.postId) (apart : part.key ≠ .detail removal.input.postId)
    (hf : ∀ c, f c = true → part = .comments c.row.postId) :
    (Table.updateMany (fun c => c.row.id ∈ removal.comments) h db.comments.rows).1.filter f =
      db.comments.rows.filter f := by
  have missed : ∀ c : Stored CommentRow, c.row.postId = removal.input.postId → f c = false := by
    intro c onPost
    by_contra hit
    rw [hf c (by simpa using hit)] at apart
    exact apart (congrArg Key.detail onPost)
  refine Table.filter_updateMany_of_apart fun c hc hit => ?_
  obtain ⟨c', hc', same, onPost⟩ := on c.row.id (of_decide_eq_true hit)
  rw [db.comments.unique.eq_of_mem hc' hc same] at onPost
  exact ⟨missed c onPost, missed _ ((kept c).trans onPost)⟩

/-- A write changes nothing that could be read, except under the keys that it then drops. -/
theorem value_of_apart (located : Located s) (prepared : (s.phase p).Prepared s.db)
    (writes : (s.phase p).keys = some keys) (next : board.next s (.step p draw) = some s')
    (apart : part.key ∉ keys) : part.value s = .body none ∨ part.value s' = part.value s := by
  cases Moves.of_next next with
  | @createPost _ _ input created db at_phase committed =>
    obtain ⟨posts, inserted, rfl⟩ := Option.map_eq_some_iff.1 committed
    rw [at_phase] at prepared writes
    obtain rfl := Option.some.inj writes
    by_cases new : part = .body created.row.id
    · -- the post was not there before
      rcases found : s.db.findById created.row.id with _ | post
      · exact .inl (by rw [new, Part.value, found, Option.map_none])
      · obtain ⟨r, hr, id, -⟩ := mem_findById found
        exact absurd (List.mem_map.2 ⟨r, hr, id⟩) (Table.Keyed.fresh_of_insert inserted)
    · refine .inr (value_congr (fun f hf => ?_) fun f hf => rfl)
      refine Table.Keyed.filter_insert inserted ?_
      by_contra hit
      rcases hf created (by simpa using hit) with body | list
      · exact new body
      · rw [list] at apart
        exact apart (List.mem_singleton.2 (congrArg Key.list prepared.1))
  | @createComment _ _ input created db at_phase committed =>
    obtain ⟨comments, inserted, rfl⟩ := Option.map_eq_some_iff.1 committed
    rw [at_phase] at prepared writes
    obtain rfl := Option.some.inj writes
    refine .inr (value_congr (fun f hf => rfl) fun f hf => ?_)
    refine Table.Keyed.filter_insert inserted ?_
    by_contra hit
    rw [hf created (by simpa using hit)] at apart
    exact apart (List.mem_singleton.2 (congrArg Key.detail prepared))
  | @update _ _ input post edited _ at_phase =>
    have has := located.phase p (input.postId, post.buildingId) (by rw [at_phase]; rfl)
    rw [at_phase] at prepared writes
    obtain rfl := Option.some.inj writes
    simp only [List.mem_cons, List.not_mem_nil, or_false, not_or] at apart
    refine .inr (value_congr (fun f hf => ?_) fun f hf => rfl)
    refine posts_frame has (fun r hit => ?_) (fun _ => rfl) (fun _ => rfl) apart hf
    exact Option.some.inj ((of_decide_eq_true hit).symm.trans prepared)
  | @delete _ _ removal at_phase =>
    have has := located.phase p (removal.input.postId, removal.post.buildingId) (by rw [at_phase]; rfl)
    rw [at_phase] at prepared writes
    obtain rfl := Option.some.inj writes
    simp only [List.mem_cons, List.not_mem_nil, or_false, not_or] at apart
    refine .inr (value_congr (fun f hf => ?_) fun f hf => ?_)
    · refine posts_frame has (fun r hit => ?_) (fun _ => rfl) (fun _ => rfl) apart hf
      exact of_decide_eq_true hit
    · exact comments_frame prepared (fun _ => rfl) apart.1 hf
  | leases other => exact absurd rfl (other p draw)
  | _ => exact .inr (value_of_db rfl)

end frame

end EstateServer.Posts
