import EstateServer.Writers.Requests
import Mathlib.Data.List.Forall2

/-!
# No dual write

The rows of posts, comments and leases and their events are committed together, so they correspond
one to one (`Matched`), whatever fails before or after the commit.

A like is the delicate one: `like` writes its event when it has inserted a row, and its row becomes
visible later.  Until then its transaction has the pair to itself (`Pending`), so the commit of
the row is a transition from not liked to liked, and every such transition is one.

`no_dual_write` is the result for every run.
-/

namespace EstateServer.Writers

open Machine Board Property Outbox

/-! ## The steps and their effects -/

/-- The like that the transaction of the process has inserted. -/
def Phase.pending : Phase → Option (LikePostInput × PostLikeRow)
  | inserted (.like input _ row) => some (input, row)
  | queued (.like input _ row) _ => some (input, row)
  | _ => none

/-- A step, with its effect on the tables and the locks. -/
inductive Moves (s : State) : State → Prop
  | outside (codes : InviteCodes) (counter : LikeCounter) : Moves s { s with codes, counter }
  | goes {p : Pid} {phase : Phase} (codes : InviteCodes) (counter : LikeCounter)
      (pending : phase.pending = none ∨ phase.pending = (s.phase p).pending) :
      Moves s ({ s with codes, counter }.enter p phase)
  | closes {p : Pid} {phase : Phase} (pending : phase.pending = none) : Moves s (s.close p phase)
  | likes {p : Pid} {input : LikePostInput} {post : Post} {userId : Auth.UserId}
      {id : PostLikeId} (user : input.userId = some userId)
      (available : s.likeLock.available p (input.postId, userId) = true)
      (unliked : s.db.likes.liked input.postId userId = false) :
      Moves s ({ s with likeLock := s.likeLock.acquire p [(input.postId, userId)] }.enter p
        (.inserted (.like input post { id, postId := input.postId, userId })))
  | unlikes {p : Pid} {phase : Phase} {pairs : List (PostId × Auth.UserId)}
      (available : ∀ pair ∈ pairs, s.likeLock.available p pair) (pending : phase.pending = none) :
      Moves s ({ s with likeLock := s.likeLock.acquire p pairs }.enter p phase)
  | commits {p : Pid} {insert : Insert} {draw : Draw} {db : Database}
      (queued : s.phase p = .queued insert draw)
      (committed : s.db.commit insert draw = some db) :
      Moves s ({ s with db }.close p insert.after)
  | deletes {p : Pid} {phase : Phase} (ids : List PostLikeId) (pending : phase.pending = none) :
      Moves s ({ s with db := { s.db with likes := s.db.likes.delete ids } }.close p phase)

variable {s s' : State} {l : Label}

theorem Moves.enters {p : Pid} {phase : Phase} (pending : phase.pending = none) :
    Moves s (s.enter p phase) := .goes s.codes s.counter (.inl pending)

theorem Moves.begins {p : Pid} {draw : Draw} {action : Action}
    (h : action.begin s p draw = some s') : Moves s s' := by
  cases action with
  | createPost input =>
    simp only [Action.begin] at h
    split at h <;> rw [← Option.some.inj h]
    · exact enters rfl
    · exact enters rfl
  | createComment input post =>
    simp only [Action.begin] at h
    split at h <;> rw [← Option.some.inj h]
    · exact enters rfl
    · exact enters rfl
  | likePost input post =>
    simp only [Action.begin] at h
    split at h
    · rw [← Option.some.inj h]
      exact enters rfl
    · split_ifs at h with available liked
      · rw [← Option.some.inj h]
        exact enters rfl
      · rw [← Option.some.inj h]
        exact .likes ‹_› available (Bool.eq_false_iff.2 liked)
  | unlikePost input post =>
    rw [← Option.some.inj h]
    exact enters rfl

theorem Moves.steps {p : Pid} {draw : Draw} (h : (s.phase p).step s p draw = some s') :
    Moves s s' := by
  generalize hphase : s.phase p = phase at h
  cases phase <;> simp only [Phase.step] at h
  case idle => cases h
  case done => cases h
  case createComment | likePost | unlikePost | isMember | isTenant =>
    split at h <;> rw [← Option.some.inj h] <;> exact enters rfl
  case member => exact begins h
  case redeem input =>
    split at h
    · rw [← Option.some.inj h]
      exact .goes _ s.counter (.inl rfl)
    · split at h <;> rw [← Option.some.inj h] <;> exact .goes _ s.counter (.inl rfl)
  case redeemed | recount | invalidate =>
    rw [← Option.some.inj h]
    exact enters rfl
  case inserted insert =>
    rw [← Option.some.inj h]
    refine .goes s.codes s.counter (.inr ?_)
    rw [hphase]
    cases insert <;> rfl
  case queued insert draw =>
    obtain ⟨db, committed, rfl⟩ := Option.map_eq_some_iff.1 h
    exact .commits hphase committed
  case known =>
    rw [← Option.some.inj h]
    exact .closes rfl
  case unliking input targets =>
    split_ifs at h with available
    rw [← Option.some.inj h]
    exact .unlikes (List.all_eq_true.1 available) rfl
  case unliked input deleted =>
    rw [← Option.some.inj h]
    refine .deletes _ ?_
    split_ifs <;> rfl
  case count | rebuild =>
    rw [← Option.some.inj h]
    exact .goes s.codes _ (.inl rfl)
  case read =>
    split at h <;> rw [← Option.some.inj h] <;> exact enters rfl

theorem moves_of_next (h : s.next l = some s') : Moves s s' := by
  cases l with
  | arrive p request =>
    simp only [State.next] at h
    split_ifs at h
    rw [← Option.some.inj h]
    exact .enters (by cases request <;> rfl)
  | step p draw => exact .steps h
  | fail p =>
    simp only [State.next] at h
    split at h
    · cases h
    · cases h
    · rw [← Option.some.inj h]
      exact .closes rfl
  | issueCode | expireCode =>
    rw [← Option.some.inj h]
    exact .outside _ s.counter
  | expireCount =>
    rw [← Option.some.inj h]
    exact .outside s.codes _

/-! ## The rows of a commit -/

namespace Insert

def posts : Insert → List PostRow
  | .post _ created => [created]
  | _ => []

def comments : Insert → List CommentRow
  | .comment _ _ created => [created]
  | _ => []

def leases : Insert → List LeaseRow
  | .lease _ saved => [saved]
  | _ => []

def likes : Insert → List PostLikeRow
  | .like _ _ row => [row]
  | _ => []

end Insert

theorem likes_insert_rows {likes likes' : PostLikeTable} {row : PostLikeRow}
    (h : likes.insert row = some likes') : likes'.rows = likes.rows ++ [row] := by
  unfold PostLikeTable.insert at h
  split_ifs at h
  rw [← Option.some.inj h]

/-- What a commit appends to the tables. -/
structure Appends (db db' : Database) (insert : Insert) (row : OutboxEvent EventPayload) : Prop where
  posts : db'.posts.rows = db.posts.rows ++ insert.posts
  comments : db'.comments.rows = db.comments.rows ++ insert.comments
  leases : db'.leases.rows = db.leases.rows ++ insert.leases
  likes : db'.likes.rows = db.likes.rows ++ insert.likes
  outbox : db'.outbox.rows = db.outbox.rows ++ [row]

theorem appends_of_commit {db db' : Database} {insert : Insert} {draw : Draw}
    (h : db.commit insert draw = some db') :
    Appends db db' insert
      (newRow (insert.event draw) draw.traceContext draw.outboxId draw.now) := by
  obtain ⟨db₁, inserted, queued⟩ := Option.bind_eq_some_iff.1 h
  obtain ⟨outbox, added, rfl⟩ := Option.map_eq_some_iff.1 queued
  have events := OutboxTable.add_rows added
  cases insert with
  | post input created =>
    obtain ⟨posts, new, rfl⟩ := Option.map_eq_some_iff.1 inserted
    exact ⟨Table.Keyed.insert_rows new, (List.append_nil _).symm, (List.append_nil _).symm,
      (List.append_nil _).symm, events⟩
  | comment input post created =>
    obtain ⟨comments, new, rfl⟩ := Option.map_eq_some_iff.1 inserted
    exact ⟨(List.append_nil _).symm, Table.Keyed.insert_rows new, (List.append_nil _).symm,
      (List.append_nil _).symm, events⟩
  | like input post row =>
    obtain ⟨likes, new, rfl⟩ := Option.map_eq_some_iff.1 inserted
    exact ⟨(List.append_nil _).symm, (List.append_nil _).symm, (List.append_nil _).symm,
      likes_insert_rows new, events⟩
  | lease input saved =>
    obtain ⟨leases, new, rfl⟩ := Option.map_eq_some_iff.1 inserted
    exact ⟨(List.append_nil _).symm, (List.append_nil _).symm, Table.Keyed.insert_rows new,
      (List.append_nil _).symm, events⟩

/-! ## Posts, comments and leases -/

/-- The rows of the outbox with an event type. -/
def Database.eventsOf (db : Database) (type : EventType) : List (OutboxEvent EventPayload) :=
  db.outbox.rows.filter fun row => row.payload.eventType = type

def IsPostEvent (post : PostRow) (row : OutboxEvent EventPayload) : Prop :=
  row.payload.entityType = .post ∧ row.payload.entityId = post.id ∧
    row.payload.payload = .post post.buildingId post.category post.title

def IsCommentEvent (comment : CommentRow) (row : OutboxEvent EventPayload) : Prop :=
  row.payload.entityType = .comment ∧ row.payload.entityId = comment.id ∧
    ∃ buildingId, row.payload.payload = .ofPost comment.postId buildingId

def IsLeaseEvent (lease : LeaseRow) (row : OutboxEvent EventPayload) : Prop :=
  row.payload.entityType = .lease ∧ row.payload.entityId = lease.id ∧
    row.payload.payload = .ofUnit lease.unitId

/-- The rows and the events of their creation correspond, in the order of the commits. -/
structure Matched (db : Database) : Prop where
  posts : List.Forall₂ IsPostEvent db.posts.rows (db.eventsOf .postCreated)
  comments : List.Forall₂ IsCommentEvent db.comments.rows (db.eventsOf .commentCreated)
  leases : List.Forall₂ IsLeaseEvent db.leases.rows (db.eventsOf .tenantJoined)

theorem Matched.commit {db db' : Database} {insert : Insert} {draw : Draw} (h : Matched db)
    (committed : db.commit insert draw = some db') : Matched db' := by
  have appends := appends_of_commit committed
  have events : ∀ type, db'.eventsOf type = db.eventsOf type ++
      [newRow (insert.event draw) draw.traceContext draw.outboxId draw.now].filter
        fun row => row.payload.eventType = type := by
    intro type
    rw [Database.eventsOf, appends.outbox, List.filter_append]
    rfl
  refine ⟨?_, ?_, ?_⟩
  · rw [appends.posts, events]
    refine List.rel_append h.posts ?_
    cases insert with
    | post => exact .cons ⟨rfl, rfl, rfl⟩ .nil
    | comment | like | lease => exact .nil
  · rw [appends.comments, events]
    refine List.rel_append h.comments ?_
    cases insert with
    | comment => exact .cons ⟨rfl, rfl, _, rfl⟩ .nil
    | post | like | lease => exact .nil
  · rw [appends.leases, events]
    refine List.rel_append h.leases ?_
    cases insert with
    | lease => exact .cons ⟨rfl, rfl, rfl⟩ .nil
    | post | comment | like => exact .nil

theorem Matched.of_moves (h : Matched s.db) (move : Moves s s') : Matched s'.db := by
  cases move with
  | outside | goes | closes | likes | unlikes => exact h
  | commits _ committed => exact h.commit committed
  | deletes => exact ⟨h.posts, h.comments, h.leases⟩

/-! ## Likes -/

/-- A like that a transaction has inserted is of a pair that the transaction has to itself and that
is not liked. -/
def Pending (s : State) : Prop :=
  ∀ p input row, (s.phase p).pending = some (input, row) →
    input.postId = row.postId ∧ input.userId = some row.userId ∧
      s.likeLock (row.postId, row.userId) = some p ∧ s.db.likes.liked row.postId row.userId = false

variable {db db' : Database} {insert : Insert} {draw : Draw} {postId : PostId}
  {userId : Auth.UserId}

theorem liked_iff {likes : PostLikeTable} : likes.liked postId userId = true ↔
    ∃ row ∈ likes.rows, row.postId = postId ∧ row.userId = userId := by
  simp only [PostLikeTable.liked, List.any_eq_true, decide_eq_true_eq]

/-- A deletion likes nothing. -/
theorem liked_of_delete {likes : PostLikeTable} {ids : List PostLikeId}
    (h : (likes.delete ids).liked postId userId = true) : likes.liked postId userId = true := by
  obtain ⟨row, hrow, pair⟩ := liked_iff.1 h
  exact liked_iff.2 ⟨row, (List.mem_filter.1 hrow).1, pair⟩

theorem liked_of_commit (committed : db.commit insert draw = some db') :
    db'.likes.liked postId userId = true ↔ db.likes.liked postId userId = true ∨
      ∃ row ∈ insert.likes, row.postId = postId ∧ row.userId = userId := by
  rw [liked_iff, liked_iff, (appends_of_commit committed).likes]
  simp only [List.mem_append, or_and_right, exists_or]

/-- After a step of one process it remains to look at what that process has pending. -/
theorem Pending.of_frame {p : Pid} {phase : Phase} (h : Pending s)
    (moved : s'.phase = Function.update s.phase p phase)
    (lock : ∀ q ≠ p, ∀ pair, s.likeLock pair = some q → s'.likeLock pair = some q)
    (liked : ∀ q ≠ p, ∀ postId userId, s.likeLock (postId, userId) = some q →
      s'.db.likes.liked postId userId = true → s.db.likes.liked postId userId = true)
    (own : ∀ input row, phase.pending = some (input, row) →
      input.postId = row.postId ∧ input.userId = some row.userId ∧
        s'.likeLock (row.postId, row.userId) = some p ∧
        s'.db.likes.liked row.postId row.userId = false) : Pending s' := by
  intro q input row pending
  rw [moved] at pending
  by_cases hq : q = p
  · rw [hq, Function.update_self] at pending
    rw [hq]
    exact own input row pending
  · rw [Function.update_of_ne hq] at pending
    obtain ⟨post, user, locked, unliked⟩ := h q input row pending
    refine ⟨post, user, lock q hq _ locked, Bool.eq_false_iff.2 fun now => ?_⟩
    rw [liked q hq _ _ locked now] at unliked
    cases unliked

/-- After a step of one process with nothing pending, the others keep what they have. -/
theorem Pending.of_quiet {p : Pid} {phase : Phase} (h : Pending s) (none : phase.pending = none)
    (moved : s'.phase = Function.update s.phase p phase)
    (lock : ∀ q ≠ p, ∀ pair, s.likeLock pair = some q → s'.likeLock pair = some q)
    (liked : ∀ q ≠ p, ∀ postId userId, s.likeLock (postId, userId) = some q →
      s'.db.likes.liked postId userId = true → s.db.likes.liked postId userId = true) :
    Pending s' := by
  refine h.of_frame moved lock liked fun input row pending => ?_
  rw [none] at pending
  cases pending

/-- A commit likes no pair that another transaction has to itself. -/
theorem liked_of_queued (h : Pending s) {p q : Pid} (queued : s.phase p = .queued insert draw)
    (committed : s.db.commit insert draw = some db) (hq : q ≠ p)
    (locked : s.likeLock (postId, userId) = some q)
    (liked : db.likes.liked postId userId = true) : s.db.likes.liked postId userId = true := by
  rcases (liked_of_commit committed).1 liked with before | ⟨new, hnew, pair⟩
  · exact before
  · cases insert with
    | like input post row =>
      obtain rfl := List.mem_singleton.1 hnew
      obtain ⟨-, -, locked', -⟩ := h p input new (by rw [queued]; rfl)
      rw [pair.1, pair.2, locked] at locked'
      exact absurd (Option.some.inj locked') hq
    | post | comment | lease => cases hnew

theorem Pending.of_moves (h : Pending s) (move : Moves s s') : Pending s' := by
  cases move with
  | outside => exact h
  | @goes p phase codes counter quiet =>
    rcases quiet with none | same
    · exact h.of_quiet none rfl (fun _ _ _ locked => locked) fun _ _ _ _ _ liked => liked
    · refine h.of_frame rfl (fun _ _ _ locked => locked) (fun _ _ _ _ _ liked => liked)
        fun input row pending => ?_
      exact h p input row (same.symm.trans pending)
  | closes none =>
    exact h.of_quiet none rfl (fun _ hq _ locked => Locks.release_of_held locked hq)
      fun _ _ _ _ _ liked => liked
  | likes user available unliked =>
    refine h.of_frame rfl (fun _ _ _ locked => Locks.acquire_of_held (fun pair hpair => ?_) locked)
      (fun _ _ _ _ _ liked => liked) ?_
    · rw [List.mem_singleton.1 hpair]
      exact available
    · rintro _ _ ⟨⟩
      exact ⟨rfl, user, Locks.acquire_of_mem List.mem_cons_self, unliked⟩
  | unlikes available none =>
    exact h.of_quiet none rfl (fun _ _ _ locked => Locks.acquire_of_held available locked)
      fun _ _ _ _ _ liked => liked
  | @commits p insert draw db queued committed =>
    have none : insert.after.pending = none := by cases insert <;> rfl
    exact h.of_quiet none rfl (fun _ hq _ locked => Locks.release_of_held locked hq)
      fun _ hq _ _ locked liked => liked_of_queued h queued committed hq locked liked
  | deletes ids none =>
    exact h.of_quiet none rfl (fun _ hq _ locked => Locks.release_of_held locked hq)
      fun _ _ _ _ _ liked => liked_of_delete liked

/-- The events of a pair's likes. -/
def Database.likeEvents (db : Database) (postId : PostId) (userId : Auth.UserId) : ℕ :=
  (db.eventsOf .likeCreated).countP fun row =>
    row.payload.entityId = postId ∧ row.payload.actorId = some userId

/-- The step commits a transition of the pair from not liked to liked. -/
def becomesLiked (postId : PostId) (userId : Auth.UserId) (step : Step State Label) : Bool :=
  step.pre.db.likes.liked postId userId = false ∧ step.post.db.likes.liked postId userId = true

theorem likeEvents_of_commit (committed : db.commit insert draw = some db') :
    db'.likeEvents postId userId = db.likeEvents postId userId +
      if (insert.event draw).eventType = .likeCreated ∧ (insert.event draw).entityId = postId ∧
        (insert.event draw).actorId = some userId then 1 else 0 := by
  rw [Database.likeEvents, Database.eventsOf, (appends_of_commit committed).outbox,
    List.filter_append, List.countP_append]
  refine Nat.add_left_cancel_iff.2 ?_
  have payload : (newRow (insert.event draw) draw.traceContext draw.outboxId draw.now).payload =
      insert.event draw := rfl
  rw [List.filter_cons, List.filter_nil, payload]
  by_cases like : (insert.event draw).eventType = .likeCreated
  · simp [like, payload, List.countP_cons]
  · simp [like]

/-- The like events grow by one exactly when the pair becomes liked. -/
theorem likeEvents_of_moves (h : Pending s) (move : Moves s s') :
    s'.db.likeEvents postId userId = s.db.likeEvents postId userId +
      if s.db.likes.liked postId userId = false ∧ s'.db.likes.liked postId userId = true
        then 1 else 0 := by
  have still : ∀ liked : Bool, ¬ (liked = false ∧ liked = true) := by decide
  cases move with
  | outside | goes | closes | likes | unlikes => exact (if_neg (still _)).symm ▸ rfl
  | @commits p insert draw db queued committed =>
    refine (likeEvents_of_commit committed).trans ?_
    refine Nat.add_left_cancel_iff.2 (if_congr ?_ rfl rfl)
    show _ ↔ s.db.likes.liked postId userId = false ∧ db.likes.liked postId userId = true
    rw [liked_of_commit committed]
    cases insert with
    | like input post row =>
      obtain ⟨samePost, user, -, unliked⟩ := h p input row (by rw [queued]; rfl)
      have event : (Insert.event draw (.like input post row)).eventType = .likeCreated ∧
          (Insert.event draw (.like input post row)).entityId = row.postId ∧
          (Insert.event draw (.like input post row)).actorId = some row.userId :=
        ⟨rfl, samePost, user⟩
      rw [event.2.1, event.2.2]
      constructor
      · rintro ⟨-, rfl, same⟩
        rw [← Option.some.inj same]
        exact ⟨unliked, .inr ⟨row, List.mem_cons_self, rfl, rfl⟩⟩
      · rintro ⟨before, after | ⟨new, hnew, rfl, rfl⟩⟩
        · rw [before] at after
          cases after
        · rw [List.mem_singleton.1 hnew]
          exact ⟨event.1, rfl, rfl⟩
    | post | comment | lease =>
      constructor
      · rintro ⟨⟨⟩, -⟩
      · rintro ⟨before, after | ⟨new, hnew, -⟩⟩
        · rw [before] at after
          cases after
        · cases hnew
  | deletes ids =>
    have none : ¬ (s.db.likes.liked postId userId = false ∧
        (s.db.likes.delete ids).liked postId userId = true) := by
      rintro ⟨before, after⟩
      rw [liked_of_delete after] at before
      cases before
    exact (if_neg none).symm ▸ rfl

/-! ## Runs -/

variable {s₀ : State} {tr : List (Step State Label)}

/-- What the tables and the open transactions satisfy in every state, and the likes up to it. -/
theorem invariant_of_run (start : writers.start s₀) (run : writers.Run Any s₀ tr s) :
    Matched s.db ∧ Pending s ∧
      ∀ postId userId, s.db.likeEvents postId userId = tr.countP (becomesLiked postId userId) := by
  obtain ⟨leases, posts, comments, -, outbox, -, phase⟩ := start
  refine run.trace_invariant
    (I := fun tr s => Matched s.db ∧ Pending s ∧
      ∀ postId userId, s.db.likeEvents postId userId = tr.countP (becomesLiked postId userId))
    (fun tr s l s' kept _ step => ?_) ⟨⟨?_, ?_, ?_⟩, ?_, ?_⟩
  · obtain ⟨matched, pending, likes⟩ := kept
    have move := moves_of_next step
    refine ⟨matched.of_moves move, pending.of_moves move, fun postId userId => ?_⟩
    rw [likeEvents_of_moves pending move, likes, List.countP_append]
    simp [becomesLiked, List.countP_cons]
  · rw [posts, Database.eventsOf, outbox]
    exact .nil
  · rw [comments, Database.eventsOf, outbox]
    exact .nil
  · rw [leases, Database.eventsOf, outbox]
    exact .nil
  · intro p input row pending
    rw [phase] at pending
    cases pending
  · intro postId userId
    rw [Database.likeEvents, Database.eventsOf, outbox]
    rfl

/-- No dual write: whatever interleaves and fails, posts, comments and leases correspond one to one
to their events, and a pair has a like event for each time that it became liked. -/
theorem no_dual_write (start : writers.start s₀) (run : writers.Run Any s₀ tr s) :
    Table.OneToOne IsPostEvent s.db.posts.rows (s.db.eventsOf .postCreated) ∧
    Table.OneToOne IsCommentEvent s.db.comments.rows (s.db.eventsOf .commentCreated) ∧
    Table.OneToOne IsLeaseEvent s.db.leases.rows (s.db.eventsOf .tenantJoined) ∧
    ∀ postId userId, s.db.likeEvents postId userId = tr.countP (becomesLiked postId userId) := by
  obtain ⟨matched, -, likes⟩ := invariant_of_run start run
  refine ⟨?_, ?_, ?_, likes⟩
  · exact .of_forall₂ (fun row => row.payload.entityId) matched.posts
      (fun _ _ h => h.2.1.symm) s.db.posts.unique
  · exact .of_forall₂ (fun row => row.payload.entityId) matched.comments
      (fun _ _ h => h.2.1.symm) s.db.comments.unique
  · exact .of_forall₂ (fun row => row.payload.entityId) matched.leases
      (fun _ _ h => h.2.1.symm) s.db.leases.unique

/-- User 1 writes post 5, likes it, takes the like back and likes it again. -/
theorem no_dual_write_twice : ∃ tr s, writers.Run Any opened tr s ∧ s.db.likeEvents 5 1 = 2 ∧
    tr.countP (becomesLiked 5 1) = 2 := by
  have computed : (writers.exec (fun _ _ => true) opened
      (serve 0 (.createPost ⟨some 1, 1, none, "title", "text"⟩) 5 5 ++
        serve 1 (.likePost ⟨some 1, 5⟩) 5 6 ++ serve 2 (.unlikePost ⟨some 1, 5⟩) 5 7 ++
        serve 3 (.likePost ⟨some 1, 5⟩) 5 8)).map (fun s => s.db.likeEvents 5 1) = some 2 := by
    decide
  obtain ⟨s, reached, events⟩ := Option.map_eq_some_iff.1 computed
  obtain ⟨tr, run, -⟩ := exists_run_of_exec (C := Any) (fun _ _ _ => trivial) reached
  exact ⟨tr, s, run, events, ((no_dual_write opened_start run).2.2.2 5 1).symm.trans events⟩

end EstateServer.Writers
