import EstateServer.Posts.Requests

/-!
# What lasts

No request deletes a row, moves a post to another building or a comment to another post, or brings
back what is deleted (`Grows`).  So a building that a process or the cache has once read for a post
stays the building of that post (`Located`), and what a process is about to write is about the post or
the building that its input names (`Phase.Prepared`).
-/

namespace EstateServer.Posts

open Machine Board Property

/-! ## The queries -/

section queries

variable {db : Database} {k : PostId} {b : BuildingId} {post : Post}

theorem mem_findById (h : db.findById k = some post) :
    ∃ r ∈ db.posts.rows, r.row.id = k ∧ r.row.deletedAt = none ∧ post = r.row.toDomain := by
  obtain ⟨r, found, rfl⟩ := Option.map_eq_some_iff.1 h
  have live := List.find?_some found
  rw [decide_eq_true_eq] at live
  exact ⟨r, List.mem_of_find?_eq_some found, live.1, live.2, rfl⟩

theorem mem_findByBuilding :
    post ∈ db.findByBuilding b ↔ ∃ r ∈ db.posts.rows,
      r.row.buildingId = b ∧ r.row.deletedAt = none ∧ post = r.row.toDomain := by
  simp only [Database.findByBuilding, List.mem_map, List.mem_insertionSort, List.mem_filter,
    decide_eq_true_eq, and_assoc, @eq_comm _ post]

theorem mem_summaries {summary : PostSummary} :
    summary ∈ (db.findByBuilding b).map .of ↔ ∃ r ∈ db.posts.rows,
      r.row.buildingId = b ∧ r.row.deletedAt = none ∧ summary = .of r.row.toDomain := by
  constructor
  · intro h
    obtain ⟨post, mem, rfl⟩ := List.mem_map.1 h
    obtain ⟨r, hr, building, live, rfl⟩ := mem_findByBuilding.1 mem
    exact ⟨r, hr, building, live, rfl⟩
  · rintro ⟨r, hr, building, live, rfl⟩
    exact List.mem_map_of_mem (mem_findByBuilding.2 ⟨r, hr, building, live, rfl⟩)

theorem mem_findByPost {comment : Comment} :
    comment ∈ db.findByPost k ↔ ∃ r ∈ db.comments.rows,
      r.row.postId = k ∧ r.row.deletedAt = none ∧ comment = r.row.toDomain := by
  simp only [Database.findByPost, List.mem_map, List.mem_insertionSort, List.mem_filter,
    decide_eq_true_eq, and_assoc, @eq_comm _ comment]

end queries

/-! ## Rows -/

/-- The same post, perhaps edited; it is deleted if it was. -/
structure SamePost (r r' : PostRow) : Prop where
  id : r'.id = r.id
  buildingId : r'.buildingId = r.buildingId
  authorId : r'.authorId = r.authorId
  category : r'.category = r.category
  deleted : r.deletedAt ≠ none → r'.deletedAt ≠ none

/-- The same comment; it is deleted if it was. -/
structure SameComment (r r' : CommentRow) : Prop where
  id : r'.id = r.id
  postId : r'.postId = r.postId
  authorId : r'.authorId = r.authorId
  content : r'.content = r.content
  deleted : r.deletedAt ≠ none → r'.deletedAt ≠ none

theorem SamePost.refl (r : PostRow) : SamePost r r := ⟨rfl, rfl, rfl, rfl, fun deleted => deleted⟩

theorem SameComment.refl (r : CommentRow) : SameComment r r := ⟨rfl, rfl, rfl, rfl, fun deleted => deleted⟩

theorem SamePost.trans {r r' r'' : PostRow} (h : SamePost r r') (h' : SamePost r' r'') :
    SamePost r r'' where
  id := h'.id.trans h.id
  buildingId := h'.buildingId.trans h.buildingId
  authorId := h'.authorId.trans h.authorId
  category := h'.category.trans h.category
  deleted := h'.deleted ∘ h.deleted

theorem SameComment.trans {r r' r'' : CommentRow} (h : SameComment r r') (h' : SameComment r' r'') :
    SameComment r r'' where
  id := h'.id.trans h.id
  postId := h'.postId.trans h.postId
  authorId := h'.authorId.trans h.authorId
  content := h'.content.trans h.content
  deleted := h'.deleted ∘ h.deleted

/-- Every row is still there. -/
structure Grows (db db' : Database) : Prop where
  posts : ∀ r ∈ db.posts.rows, ∃ r' ∈ db'.posts.rows, SamePost r.row r'.row
  comments : ∀ r ∈ db.comments.rows, ∃ r' ∈ db'.comments.rows, SameComment r.row r'.row

namespace Grows

variable {db db' db'' : Database} {s s' : State} {a : Label}

theorem of_rows (posts : db'.posts = db.posts) (comments : db'.comments = db.comments) :
    Grows db db' where
  posts r hr := ⟨r, posts ▸ hr, .refl _⟩
  comments r hr := ⟨r, comments ▸ hr, .refl _⟩

theorem trans (h : Grows db db') (h' : Grows db' db'') : Grows db db'' where
  posts r hr := by
    obtain ⟨r', hr', same⟩ := h.posts r hr
    obtain ⟨r'', hr'', same'⟩ := h'.posts r' hr'
    exact ⟨r'', hr'', same.trans same'⟩
  comments r hr := by
    obtain ⟨r', hr', same⟩ := h.comments r hr
    obtain ⟨r'', hr'', same'⟩ := h'.comments r' hr'
    exact ⟨r'', hr'', same.trans same'⟩

theorem insertPost {created : Stored PostRow} (h : db.insertPost created = some db') :
    Grows db db' := by
  obtain ⟨posts, inserted, rfl⟩ := Option.map_eq_some_iff.1 h
  refine ⟨fun r hr => ⟨r, ?_, .refl _⟩, fun r hr => ⟨r, hr, .refl _⟩⟩
  exact (Table.Keyed.mem_insert inserted).2 (.inl hr)

theorem insertComment {created : Stored CommentRow} (h : db.insertComment created = some db') :
    Grows db db' := by
  obtain ⟨comments, inserted, rfl⟩ := Option.map_eq_some_iff.1 h
  refine ⟨fun r hr => ⟨r, hr, .refl _⟩, fun r hr => ⟨r, ?_, .refl _⟩⟩
  exact (Table.Keyed.mem_insert inserted).2 (.inl hr)

theorem update {post : Post} : Grows db (db.update post) where
  posts r hr := by
    refine ⟨_, List.mem_map_of_mem hr, ?_⟩
    split_ifs
    · exact ⟨rfl, rfl, rfl, rfl, fun deleted => deleted⟩
    · exact .refl _
  comments r hr := ⟨r, hr, .refl _⟩

theorem delete {k : PostId} {comments : List CommentId} {now : Instant} :
    Grows db (db.delete k comments now) where
  posts r hr := by
    refine ⟨_, List.mem_map_of_mem hr, ?_⟩
    split_ifs
    · exact ⟨rfl, rfl, rfl, rfl, nofun⟩
    · exact .refl _
  comments r hr := by
    refine ⟨_, List.mem_map_of_mem hr, ?_⟩
    split_ifs
    · exact ⟨rfl, rfl, rfl, rfl, nofun⟩
    · exact .refl _

theorem of_next (h : board.next s a = some s') : Grows s.db s'.db := by
  cases Moves.of_next h with
  | createPost _ committed => exact insertPost committed
  | createComment _ committed => exact insertComment committed
  | update => exact update
  | delete => exact delete
  | _ => exact of_rows rfl rfl

theorem of_run {C : State → Label → Prop} {tr : List (Step State Label)} (run : board.Run C s tr s') :
    Grows s.db s'.db :=
  run.invariant (I := fun t => Grows s.db t.db) (fun _ _ _ grown _ step => grown.trans (of_next step))
    (of_rows rfl rfl)

end Grows

/-- The post is there, deleted. -/
def Database.Deleted (db : Database) (k : PostId) : Prop :=
  ∃ r ∈ db.posts.rows, r.row.id = k ∧ r.row.deletedAt ≠ none

theorem Database.Deleted.grows {db db' : Database} {k : PostId} (h : db.Deleted k)
    (grown : Grows db db') : db'.Deleted k := by
  obtain ⟨r, hr, id, deleted⟩ := h
  obtain ⟨r', hr', same⟩ := grown.posts r hr
  exact ⟨r', hr', same.id.trans id, same.deleted deleted⟩

/-- A deleted post is not found. -/
theorem Database.Deleted.findById {db : Database} {k : PostId} (h : db.Deleted k) :
    db.findById k = none := by
  obtain ⟨r, hr, id, deleted⟩ := h
  rcases found : db.findById k with _ | post
  · rfl
  · obtain ⟨r', hr', id', live, -⟩ := mem_findById found
    rw [db.posts.unique.eq_of_mem hr hr' (id.trans id'.symm)] at deleted
    exact absurd live deleted

/-- A deleted post is not listed. -/
theorem Database.Deleted.summaries {db : Database} {k : PostId} (h : db.Deleted k) {b : BuildingId}
    {summary : PostSummary} (mem : summary ∈ (db.findByBuilding b).map .of) : summary.id ≠ k := by
  obtain ⟨r, hr, id, deleted⟩ := h
  obtain ⟨r', hr', -, live, rfl⟩ := mem_summaries.1 mem
  intro same
  rw [db.posts.unique.eq_of_mem hr hr' (id.trans same.symm)] at deleted
  exact deleted live

/-! ## Posts that have been found -/

/-- The post and its building, where an action has read them. -/
def Action.found : Action → Option (PostId × BuildingId)
  | createComment input post => some (input.postId, post.buildingId)
  | getCached input detail => some (input.postId, detail.buildingId)
  | getPost input post => some (input.postId, post.buildingId)
  | _ => none

/-- The post and its building, where a process has read them. -/
def Phase.found : Phase → Option (PostId × BuildingId)
  | isMember action => action.found
  | isTenant action => action.found
  | member action => action.found
  | update input post _ => some (input.postId, post.buildingId)
  | delete input post => some (input.postId, post.buildingId)
  | removing removal => some (removal.input.postId, removal.post.buildingId)
  | marked removal => some (removal.input.postId, removal.post.buildingId)
  | removed removal => some (removal.input.postId, removal.post.buildingId)
  | setDetail input detail => some (input.postId, detail.buildingId)
  | _ => none

/-- There is such a post, deleted or not, in such a building. -/
def Database.Has (db : Database) (place : PostId × BuildingId) : Prop :=
  ∃ r ∈ db.posts.rows, r.row.id = place.1 ∧ r.row.buildingId = place.2

/-- What processes and the cache say of the building of a post is right. -/
structure Located (s : State) : Prop where
  phase : ∀ p place, (s.phase p).found = some place → s.db.Has place
  cache : ∀ k detail, s.cache.detail k = some detail → s.db.Has (k, detail.buildingId)

theorem Database.Has.grows {db db' : Database} {place : PostId × BuildingId} (h : db.Has place)
    (grown : Grows db db') : db'.Has place := by
  obtain ⟨r, hr, id, buildingId⟩ := h
  obtain ⟨r', hr', same⟩ := grown.posts r hr
  exact ⟨r', hr', same.id.trans id, same.buildingId.trans buildingId⟩

theorem Database.Has.of_found {db : Database} {k : PostId} {post : Post}
    (h : db.findById k = some post) : db.Has (k, post.buildingId) := by
  obtain ⟨r, hr, id, -, rfl⟩ := mem_findById h
  exact ⟨r, hr, id, rfl⟩

/-- What `DeletePost` commits. -/
theorem Database.Has.delete {db : Database} {k : PostId} {b : BuildingId} (h : db.Has (k, b))
    {comments : List CommentId} {now : Instant} : (db.delete k comments now).Deleted k := by
  obtain ⟨r, hr, id, -⟩ := h
  refine ⟨_, List.mem_map_of_mem hr, ?_⟩
  rw [if_pos (decide_eq_true id)]
  exact ⟨id, nofun⟩

/-- A post has one building. -/
theorem Database.Has.unique {db : Database} {k : PostId} {b b' : BuildingId} (h : db.Has (k, b))
    (h' : db.Has (k, b')) : b = b' := by
  obtain ⟨r, hr, id, rfl⟩ := h
  obtain ⟨r', hr', id', rfl⟩ := h'
  rw [db.posts.unique.eq_of_mem hr hr' (id.trans id'.symm)]

namespace Located

variable {s s' : State} {a : Label} {p : Pid}

theorem found_of_blank {phase : Phase} (blank : phase.blank) : phase.found = none := by
  cases phase <;> first | rfl | cases blank

/-- What a process has found, it knew already or has just read. -/
theorem read {before after : Phase} {draw : Draw} {place : PostId × BuildingId}
    (reads : Reads s draw before after) (found : after.found = some place) :
    before.found = some place ∨ s.db.Has place ∨
      ∃ detail, s.cache.detail place.1 = some detail ∧ detail.buildingId = place.2 := by
  cases reads with
  | blank _ blank => simp [found_of_blank blank] at found
  | createComment post | updatePost post | deletePost post | findPost post =>
    cases found
    exact .inr (.inl (.of_found post))
  | hitDetail cached =>
    cases found
    exact .inr (.inr ⟨_, cached, rfl⟩)
  | owns | ownsNot | rents | findComments | delete => exact .inl found
  | _ => cases found

/-- The process goes on to `phase`, knowing what it knew. -/
theorem enter {db : Database} {phase : Phase} (h : Located s) (grown : Grows s.db db)
    (same : s'.phase = Function.update s.phase p phase) (stored : s'.db = db)
    (found : ∀ place, phase.found = some place → (s.phase p).found = some place ∨ db.Has place)
    (cached : ∀ k detail, s'.cache.detail k = some detail → s.cache.detail k = some detail ∨
      (s.phase p).found = some (k, detail.buildingId)) : Located s' where
  phase q place hq := by
    rw [stored]
    rw [same] at hq
    rcases eq_or_ne q p with rfl | other
    · rw [Function.update_self] at hq
      rcases found place hq with known | has
      · exact (h.phase _ _ known).grows grown
      · exact has
    · rw [Function.update_of_ne other] at hq
      exact (h.phase q place hq).grows grown
  cache k detail hk := by
    rw [stored]
    rcases cached k detail hk with kept | known
    · exact (h.cache k detail kept).grows grown
    · exact (h.phase _ _ known).grows grown

theorem drop {cache : BoardCache} {key : Key} {k : PostId} {detail : PostDetail}
    (h : (cache.drop key).detail k = some detail) : cache.detail k = some detail := by
  cases key with
  | detail other =>
    rcases eq_or_ne k other with rfl | ne
    · simp [BoardCache.drop] at h
    · simpa [BoardCache.drop, Function.update_of_ne ne] using h
  | list => exact h

theorem step (h : Located s) (next : board.next s a = some s') : Located s' := by
  have grown := Grows.of_next next
  cases Moves.of_next next with
  | arrive idle =>
    rename_i request
    exact enter h grown rfl rfl (fun _ found => by cases request <;> cases found) fun _ _ => .inl
  | read read =>
    refine enter h grown rfl rfl (fun place found => ?_) fun _ _ => .inl
    rcases Located.read read found with known | has | ⟨detail, cached, same⟩
    · exact .inl known
    · exact .inr has
    · exact .inr (by rw [← Prod.mk.eta (p := place), ← same]; exact h.cache _ _ cached)
  | createPost | createComment | update | missing | delete =>
    exact enter h grown rfl rfl (fun _ found => nomatch found) fun _ _ => .inl
  | mark at_phase | lock at_phase =>
    exact enter h grown rfl rfl (fun _ found => .inl (at_phase ▸ found)) fun _ _ => .inl
  | drop =>
    exact enter h grown rfl rfl (fun _ found => nomatch found) fun _ _ found => .inl (drop found)
  | @setDetail _ _ input detail at_set =>
    refine enter h grown rfl rfl (fun _ found => nomatch found) fun k detail' found => ?_
    rcases eq_or_ne k input.postId with rfl | other
    · simp only [State.enter, BoardCache.setDetail, Function.update_self, Option.some.injEq] at found
      exact .inr (by rw [at_set, ← found]; rfl)
    · exact .inl (by simpa [State.enter, BoardCache.setDetail, Function.update_of_ne other] using found)
  | setList => exact enter h grown rfl rfl (fun _ found => nomatch found) fun _ _ => .inl
  | fail => exact enter h grown rfl rfl (fun _ found => nomatch found) fun _ _ => .inl
  | expire => exact ⟨h.phase, fun k detail found => h.cache k detail (drop found)⟩
  | leases => exact ⟨h.phase, h.cache⟩

theorem of_start (h : board.start s) : Located s where
  phase p place found := by
    rw [h.2.2.2.2.2] at found
    cases found
  cache k detail found := by
    rw [h.2.2.1] at found
    cases found

theorem of_run {C : State → Label → Prop} {tr : List (Step State Label)} (init : board.start s)
    (run : board.Run C s tr s') : Located s' :=
  run.invariant (fun _ _ _ h _ next => h.step next) (of_start init)

end Located

/-! ## What is about to be written -/

/-- The comments are comments of the post. -/
def Removal.On (removal : Removal) (db : Database) : Prop :=
  ∀ id ∈ removal.comments, ∃ c ∈ db.comments.rows,
    c.row.id = id ∧ c.row.postId = removal.input.postId

/-- What a process is about to write is about the post or the building that its input names. -/
def Phase.Prepared (db : Database) : Phase → Prop
  | inserted (.post input created) =>
    created.row.buildingId = input.buildingId ∧ created.row.deletedAt = none
  | inserted (.comment input created) => created.row.postId = input.postId
  | update input _ edited => edited.id = some input.postId
  | removing removal => removal.On db
  | marked removal => removal.On db
  | removed removal => removal.On db
  | _ => True

section prepared

variable {s s' : State} {a : Label} {db db' : Database}

theorem Removal.On.grows {removal : Removal} (h : removal.On db) (grown : Grows db db') :
    removal.On db' := by
  intro id hid
  obtain ⟨c, hc, same, onPost⟩ := h id hid
  obtain ⟨c', hc', kept⟩ := grown.comments c hc
  exact ⟨c', hc', kept.id.trans same, kept.postId.trans onPost⟩

theorem Removal.On.still {removal : Removal} (h : removal.On db) :
    { removal with comments := db.stillLive removal.comments }.On db := by
  intro id hid
  refine h id ?_
  simp only [Database.stillLive, List.mem_map, List.mem_filter, decide_eq_true_eq] at hid
  obtain ⟨c, ⟨-, hit, -⟩, rfl⟩ := hid
  exact hit

theorem on_liveComments {input : DeletePostInput} {post : Post} {now : Instant} :
    Removal.On ⟨input, post, now, db.liveComments input.postId⟩ db := by
  intro id hid
  simp only [Database.liveComments, List.mem_map, List.mem_filter, decide_eq_true_eq] at hid
  obtain ⟨c, ⟨hc, onPost, -⟩, rfl⟩ := hid
  exact ⟨c, hc, rfl, onPost⟩

theorem Phase.Prepared.grows {phase : Phase} (h : phase.Prepared db) (grown : Grows db db') :
    phase.Prepared db' := by
  cases phase with
  | inserted insert => cases insert <;> exact h
  | removing | marked | removed => exact Removal.On.grows h grown
  | _ => exact h

theorem prepared_of_blank {phase : Phase} (blank : phase.blank) : phase.Prepared db := by
  cases phase with
  | inserted | update | removing | marked | removed => cases blank
  | _ => trivial

theorem prepared_read {before after : Phase} {draw : Draw} (reads : Reads s draw before after) :
    after.Prepared s.db := by
  cases reads with
  | blank _ blank => exact prepared_of_blank blank
  | updatePost found _ ok =>
    obtain ⟨r, -, id, -, rfl⟩ := mem_findById found
    exact (edit_eq_some ok).1.trans (congrArg some id)
  | delete => exact on_liveComments
  | insertPost same live => exact ⟨same, live⟩
  | insertComment same => exact same
  | _ => trivial

theorem prepared_step (h : ∀ p, (s.phase p).Prepared s.db) (next : board.next s a = some s') :
    ∀ p, (s'.phase p).Prepared s'.db := by
  have grown := Grows.of_next next
  have enter : ∀ {p : Pid} {after : Phase}, s'.phase = Function.update s.phase p after →
      after.Prepared s'.db → ∀ q, (s'.phase q).Prepared s'.db := by
    intro p after same prepared
    rw [same]
    exact (Function.forall_update_iff s.phase fun _ phase => phase.Prepared s'.db).2
      ⟨prepared, fun q _ => (h q).grows grown⟩
  cases Moves.of_next next with
  | @arrive p request => exact enter rfl (by cases request <;> trivial)
  | read reads =>
    have prepared := prepared_read reads
    exact enter rfl prepared
  | @mark p _ removal at_phase =>
    have prepared : (Phase.removing removal).Prepared s.db := at_phase ▸ h p
    exact enter rfl (Removal.On.still prepared)
  | @lock p _ removal at_phase =>
    have prepared : (Phase.marked removal).Prepared s.db := at_phase ▸ h p
    exact enter rfl prepared
  | expire => exact h
  | leases => exact fun p => (h p).grows grown
  | _ => exact enter rfl trivial

theorem prepared_of_run {C : State → Label → Prop} {tr : List (Step State Label)}
    (init : board.start s) (run : board.Run C s tr s') (p : Pid) : (s'.phase p).Prepared s'.db := by
  refine run.invariant (I := fun s => ∀ p, (s.phase p).Prepared s.db)
    (fun _ _ _ h _ next => prepared_step h next) (fun p => ?_) p
  rw [init.2.2.2.2.2]
  trivial

end prepared

end EstateServer.Posts
