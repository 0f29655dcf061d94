import EstateServer.Posts.Parts

/-!
# Who may read the board

`GetPost` asks `isMember` about the building that the cache has for the post, or about the building
in the row; `ListPosts` asks about the building of the request.  The two answers for a post are the
same, as a cached entry says what its row or its rows have said at some time (`OfPost`, `OfList`), and
a post stays in its building.

`authorized`: what a read returns belongs to one building, and `isMember` held of the user and this
building when the same call checked it.
-/

namespace EstateServer.Posts

open Machine Board Property

/-! ## Membership checks -/

/-- A query of `isMember` about the user and the building has answered yes to the process. -/
def Checked (tr : List (Step State Label)) (p : Pid) (member : Option Auth.UserId × BuildingId) :
    Prop :=
  ∃ st ∈ tr, (∃ draw, st.label = .step p draw) ∧ ∃ action : Action, action.member = member ∧
    (st.pre.phase p = .isMember action ∧ st.pre.db.owns member ∨
      st.pre.phase p = .isTenant action ∧ st.pre.db.rents member)

/-- The user and the building of what a read returns. -/
def Result.member : Result → Option (Option Auth.UserId × BuildingId)
  | detail input found => some (input.userId, found.buildingId)
  | summaries input _ => some (input.userId, input.buildingId)
  | _ => none

/-- The user and the building that a process has been cleared for. -/
def Phase.cleared : Phase → Option (Option Auth.UserId × BuildingId)
  | member action => some action.member
  | setDetail input detail => some (input.userId, detail.buildingId)
  | findPosts input => some (input.userId, input.buildingId)
  | setList input _ => some (input.userId, input.buildingId)
  | invalidate _ result => result.member
  | done result => result.member
  | _ => none

section checks

variable {s s' : State} {a : Label} {p : Pid} {tr : List (Step State Label)}
  {member : Option Auth.UserId × BuildingId}

theorem Checked.append {tr' : List (Step State Label)} (h : Checked tr p member) :
    Checked (tr ++ tr') p member := by
  obtain ⟨st, hst, checked⟩ := h
  exact ⟨st, List.mem_append_left _ hst, checked⟩

theorem cleared_of_blank {phase : Phase} (blank : phase.blank) : phase.cleared = none := by
  cases phase with
  | done result => cases result <;> first | rfl | cases blank
  | _ => first | rfl | cases blank

/-- A process is cleared by a query that answers yes. -/
theorem cleared_read {before after : Phase} {draw : Draw} (reads : Reads s draw before after)
    (cleared : after.cleared = some member) :
    before.cleared = some member ∨ ∃ action : Action, action.member = member ∧
      (before = .isMember action ∧ s.db.owns member ∨
        before = .isTenant action ∧ s.db.rents member) := by
  cases reads with
  | blank _ blank => simp [cleared_of_blank blank] at cleared
  | owns owns =>
    obtain rfl := Option.some.inj cleared
    exact .inr ⟨_, rfl, .inl ⟨rfl, owns⟩⟩
  | rents rents =>
    obtain rfl := Option.some.inj cleared
    exact .inr ⟨_, rfl, .inr ⟨rfl, rents⟩⟩
  | returnDetail | findComments | hitList | missList | findPosts | invalidated =>
    exact .inl cleared
  | _ => cases cleared

theorem cleared_start (request : Request) : request.start.cleared = none := by
  cases request <;> rfl

theorem cleared_step {q : Pid} (next : board.next s a = some s')
    (cleared : (s'.phase q).cleared = some member) :
    (s.phase q).cleared = some member ∨ Checked [⟨s, a, s'⟩] q member := by
  cases Moves.of_next next with
  | arrive =>
    rcases Moves.of_update Phase.cleared cleared with kept | ⟨-, new⟩
    · exact .inl kept
    · simp [cleared_start] at new
  | @read p draw phase reads =>
    rcases Moves.of_update Phase.cleared cleared with kept | ⟨rfl, new⟩
    · exact .inl kept
    · refine (cleared_read reads new).imp_right fun ⟨action, same, asked⟩ => ?_
      exact ⟨_, List.mem_singleton_self _, ⟨draw, rfl⟩, action, same, asked⟩
  | drop at_phase | setDetail at_phase | setList at_phase =>
    rcases Moves.of_update Phase.cleared cleared with kept | ⟨rfl, new⟩
    · exact .inl kept
    · exact .inl (by rw [at_phase]; exact new)
  | expire => exact .inl cleared
  | leases => exact .inl cleared
  | _ =>
    rcases Moves.of_update Phase.cleared cleared with kept | ⟨-, new⟩
    · exact .inl kept
    · cases new

/-- Who has been cleared, has been checked. -/
theorem checked_of_run {C : State → Label → Prop} (init : board.start s) (run : board.Run C s tr s')
    (cleared : (s'.phase p).cleared = some member) : Checked tr p member := by
  induction run with
  | refl =>
    rw [init.2.2.2.2.2] at cleared
    cases cleared
  | snoc _ _ next ih =>
    rcases cleared_step next cleared with kept | ⟨st, hst, checked⟩
    · exact (ih kept).append
    · exact ⟨st, List.mem_append_right _ hst, checked⟩

end checks

/-! ## What is read is of its key -/

/-- The detail says of post `k` what its row and its comments have said since the start. -/
structure OfPost (s₀ : State) (tr : List (Step State Label)) (s : State) (k : PostId)
    (detail : PostDetail) : Prop where
  row : ∃ r ∈ s.db.posts.rows, r.row.id = k ∧ detail.id = k ∧
    detail.buildingId = r.row.buildingId ∧ detail.category = r.row.category ∧
    detail.authorId = r.row.authorId
  comment : ∀ view ∈ detail.comments, ∃ c ∈ s.db.comments.rows, c.row.postId = k ∧
    view = .of c.row.toDomain
  body : .body (some detail.toPostBody) ∈ Since (Part.body k).value s₀ tr
  comments : .comments detail.comments ∈ Since (Part.comments k).value s₀ tr

/-- The list says of the posts of building `b` what their rows have said since the start. -/
structure OfList (s₀ : State) (tr : List (Step State Label)) (s : State) (b : BuildingId)
    (posts : List PostSummary) : Prop where
  row : ∀ summary ∈ posts, ∃ r ∈ s.db.posts.rows, r.row.id = summary.id ∧ r.row.buildingId = b ∧
    summary.category = r.row.category ∧ summary.authorId = r.row.authorId
  list : .list posts ∈ Since (Part.list b).value s₀ tr

section contents

variable {C : State → Label → Prop} {s₀ s : State} {tr : List (Step State Label)} {k : PostId}
  {b : BuildingId} {detail : PostDetail} {posts : List PostSummary}

theorem OfPost.of_since (run : board.Run C s₀ tr s)
    (body : .body (some detail.toPostBody) ∈ Since (Part.body k).value s₀ tr)
    (comments : .comments detail.comments ∈ Since (Part.comments k).value s₀ tr) :
    OfPost s₀ tr s k detail where
  row := by
    obtain ⟨_, _, v, -, rest, value⟩ := Since.exists_state run body
    obtain ⟨post, found, same⟩ := Option.map_eq_some_iff.1 (Content.body.inj value)
    obtain ⟨r, hr, id, -, rfl⟩ := mem_findById found
    obtain ⟨r', hr', kept⟩ := (Grows.of_run rest).posts r hr
    refine ⟨r', hr', kept.id.trans id, ?_⟩
    rw [← same, kept.buildingId, kept.category, kept.authorId]
    exact ⟨id, rfl, rfl, rfl⟩
  comment view mem := by
    obtain ⟨_, _, v, -, rest, value⟩ := Since.exists_state run comments
    rw [← Content.comments.inj value] at mem
    obtain ⟨comment, found, rfl⟩ := List.mem_map.1 mem
    obtain ⟨c, hc, onPost, -, rfl⟩ := mem_findByPost.1 found
    obtain ⟨c', hc', kept⟩ := (Grows.of_run rest).comments c hc
    refine ⟨c', hc', kept.postId.trans onPost, ?_⟩
    simp only [CommentView.of, CommentRow.toDomain, kept.id, kept.authorId, kept.content]
  body := body
  comments := comments

theorem OfList.of_since (run : board.Run C s₀ tr s)
    (list : .list posts ∈ Since (Part.list b).value s₀ tr) : OfList s₀ tr s b posts where
  row summary mem := by
    obtain ⟨_, _, v, -, rest, value⟩ := Since.exists_state run list
    rw [← Content.list.inj value] at mem
    obtain ⟨r, hr, building, -, rfl⟩ := mem_summaries.1 mem
    obtain ⟨r', hr', kept⟩ := (Grows.of_run rest).posts r hr
    exact ⟨r', hr', kept.id, kept.buildingId.trans building, kept.category.symm, kept.authorId.symm⟩
  list := list

theorem OfPost.of_cached (init : board.start s₀) (run : board.Run C s₀ tr s)
    (cached : s.cache.detail k = some detail) : OfPost s₀ tr s k detail :=
  .of_since run (cached_of_run init run (detail_cached cached (if_pos rfl)))
    (cached_of_run init run (detail_cached cached (if_pos rfl)))

theorem OfList.of_cached (init : board.start s₀) (run : board.Run C s₀ tr s)
    (cached : s.cache.list b = some posts) : OfList s₀ tr s b posts :=
  .of_since run (cached_of_run init run (list_cached cached (if_pos rfl)))

theorem OfPost.of_returned {p : Pid} {input : GetPostInput} (init : board.start s₀)
    (run : board.Run C s₀ tr s) (returns : s.phase p = .done (.detail input detail)) :
    OfPost s₀ tr s input.postId detail := by
  have shown : ∀ part : Part, (s.phase p).shown part = detail.tells input.postId part := by
    rw [returns]
    exact fun _ => rfl
  exact .of_since run (shown_of_run init run ((shown _).trans (if_pos rfl)))
    (shown_of_run init run ((shown _).trans (if_pos rfl)))

theorem OfList.of_returned {p : Pid} {input : ListPostsInput} (init : board.start s₀)
    (run : board.Run C s₀ tr s) (returns : s.phase p = .done (.summaries input posts)) :
    OfList s₀ tr s input.buildingId posts := by
  have shown : ∀ part : Part, (s.phase p).shown part = listTells input.buildingId posts part := by
    rw [returns]
    exact fun _ => rfl
  exact .of_since run (shown_of_run init run ((shown _).trans (if_pos rfl)))

end contents

/-! ## The cache does not decide -/

/-- The user and the post that an action of `GetPost` is about. -/
def Action.reads : Action → Option (Option Auth.UserId × PostId)
  | getCached input _ => some (input.userId, input.postId)
  | getPost input _ => some (input.userId, input.postId)
  | _ => none

/-- The action about which a process is asking `isMember`. -/
def Phase.asks : Phase → Option Action
  | isMember action => some action
  | isTenant action => some action
  | _ => none

/-- `GetPost` asks about the building in the row of the post, whether the post was in the cache or
not. -/
theorem asks_about_row {s : State} {p : Pid} {action : Action} {u : Option Auth.UserId} {k : PostId}
    (located : Located s) (asks : (s.phase p).asks = some action) (reads : action.reads = some (u, k)) :
    ∃ b, action.member = (u, b) ∧ s.db.Has (k, b) := by
  have found : ∀ place, action.found = some place → s.db.Has place := by
    intro place hplace
    refine located.phase p place ?_
    generalize s.phase p = phase at asks ⊢
    cases phase with
    | isMember | isTenant =>
      obtain rfl := Option.some.inj asks
      exact hplace
    | _ => cases asks
  cases action with
  | getCached | getPost =>
    cases reads
    exact ⟨_, rfl, found _ rfl⟩
  | _ => cases reads

/-- What a read returns belongs to one building, and `isMember` held of the user and this building
when the call checked it; what the cache has is of its key; and whether the cache has a post does not
change what is asked about it. -/
theorem authorized {s₀ s : State} {tr : List (Step State Label)} (init : board.start s₀)
    (run : board.Run Any s₀ tr s) :
    (∀ p input detail, s.phase p = .done (.detail input detail) →
      Checked tr p (input.userId, detail.buildingId) ∧ OfPost s₀ tr s input.postId detail) ∧
    (∀ p input posts, s.phase p = .done (.summaries input posts) →
      Checked tr p (input.userId, input.buildingId) ∧ OfList s₀ tr s input.buildingId posts) ∧
    (∀ k detail, s.cache.detail k = some detail → OfPost s₀ tr s k detail) ∧
    (∀ b posts, s.cache.list b = some posts → OfList s₀ tr s b posts) ∧
    ∀ t, board.Reachable Any t → t.db = s.db → ∀ p q (action action' : Action) u k,
      (s.phase p).asks = some action → (t.phase q).asks = some action' →
      action.reads = some (u, k) → action'.reads = some (u, k) →
      action.member = action'.member ∧ s.db.isMember action.member = t.db.isMember action'.member := by
  refine ⟨fun p input detail returns => ?_, fun p input posts returns => ?_,
    fun k detail cached => .of_cached init run cached, fun b posts cached => .of_cached init run cached,
    ?_⟩
  · exact ⟨checked_of_run init run (by rw [returns]; rfl), .of_returned init run returns⟩
  · exact ⟨checked_of_run init run (by rw [returns]; rfl), .of_returned init run returns⟩
  · rintro t ⟨t₀, tr', init', run'⟩ same p q action action' u k asks asks' reads reads'
    obtain ⟨b, member, has⟩ := asks_about_row (.of_run init run) asks reads
    obtain ⟨b', member', has'⟩ := asks_about_row (.of_run init' run') asks' reads'
    rw [same] at has'
    have agree : action.member = action'.member := by rw [member, member', has.unique has']
    exact ⟨agree, by rw [agree, same]⟩

/-- The second `GetPost` finds the post in the cache. -/
theorem authorized_cached : ∃ tr s, board.Run Any ours tr s ∧
    (s.cache.detail 5).isSome ∧ Checked tr 2 (some 9, 1) := by
  have computed : (board.exec (fun _ _ => true) ours
      (serve 0 (.createPost ⟨some 9, 1, none, "a", "x"⟩) 5 5 ++ serve 1 (.getPost ⟨some 9, 5⟩) 5 0 ++
        serve 2 (.getPost ⟨some 9, 5⟩) 3 0)).map (fun s => ((s.cache.detail 5).isSome, s.phase 2)) =
      some (true, .done (.detail ⟨some 9, 5⟩ ⟨⟨5, 1, .free, "a", "x", 9⟩, []⟩)) := by
    decide
  obtain ⟨s, reached, seen⟩ := Option.map_eq_some_iff.1 computed
  obtain ⟨tr, run, -⟩ := exists_run_of_exec (C := Any) (fun _ _ _ => trivial) reached
  obtain ⟨cached, returns⟩ := Prod.mk.inj seen
  exact ⟨tr, s, run, cached, ((authorized ours_start run).1 2 _ _ returns).1⟩

end EstateServer.Posts
