import EstateServer.Library.Counter
import EstateServer.Library.Pool
import EstateServer.Writers.DualWrite

/-!
# The like counter

The like counter of a post against its likes, when Redis answers and the counter is there
(`Calm`).  The counter follows each commit later, in any order, and never goes below zero: in every
state with no request in flight it is the number of likes plus the number of decrements that have met
zero (`like_counter`).

`Tally` is the invariant.  A transaction that takes a like back has the pair to itself
(`Tally.unliked`), so that its commit removes one like.
-/

namespace EstateServer.Writers

open Machine Board Property Outbox

/-! ## What is outstanding -/

/-- The counter step that a phase still owes to the post. -/
def owes (k : PostId) : Phase → ℤ
  | .count input liked => if input.postId = k then if liked then 1 else -1 else 0
  | _ => 0

/-- The step is a decrement that meets zero. -/
def clamps (k : PostId) (st : Step State Label) : Bool :=
  match st.label with
  | .step p _ =>
    match st.pre.phase p with
    | .count input false => input.postId = k ∧ st.pre.counter k = some 0
    | _ => false
  | _ => false

/-- The process is about to take back the likes of a user that is `undefined`. -/
def Phase.anonymous : Phase → Bool
  | .member (.unlikePost input _) => input.userId = none
  | _ => false

/-- Redis answers the counter steps of the post, none of them is lost in a crash, the counter does
not expire, and likes are taken back by users. -/
structure Calm (k : PostId) (s : State) (a : Label) : Prop where
  kept : a ≠ .expireCount k
  answers : ∀ p draw input liked, a = .step p draw → s.phase p = .count input liked →
    input.postId = k → draw.redis = true
  survives : ∀ p input liked, a = .fail p → s.phase p = .count input liked → input.postId ≠ k
  named : ∀ p draw, a = .step p draw → (s.phase p).anonymous = false

/-! ## The steps and their effects on likes -/

/-- The phase is not about a change of likes that is uncommitted or uncounted. -/
def Phase.still : Phase → Bool
  | unliking _ _ => false
  | unliked _ _ => false
  | count _ _ => false
  | _ => true

/-- The process that a label is about. -/
def Label.pid : Label → Option Pid
  | arrive p _ => some p
  | step p _ => some p
  | fail p => some p
  | _ => none

/-- The locks of the other processes are kept. -/
def Kept (s s' : State) (p : Pid) : Prop :=
  ∀ q ≠ p, ∀ pair, s.likeLock pair = some q → s'.likeLock pair = some q

/-- The label takes the process away from a phase that owes nothing to a counter, or makes it fail. -/
inductive Before (s : State) (p : Pid) : Label → Prop
  | arrive {request : Request} (idle : s.phase p = .idle) : Before s p (.arrive p request)
  | step {draw : Draw} (none : ∀ input liked, s.phase p ≠ .count input liked) :
      Before s p (.step p draw)
  | fail : Before s p (.fail p)

/-- A step, with its effect on the likes and on the counters. -/
inductive Tallies (s : State) : Label → State → Prop
  | other {a : Label} {s' : State} {p : Pid} {phase : Phase}
      (moved : s'.phase = Function.update s.phase p phase) (locks : Kept s s' p)
      (likes : s'.db.likes.rows = s.db.likes.rows)
      (counter : ∀ k, s.counter k ≠ none → s'.counter k = s.counter k)
      (before : Before s p a) (after : phase.still) : Tallies s a s'
  | unlike {p : Pid} {draw : Draw} {input : LikePostInput} {post : Post}
      (at_member : s.phase p = .member (.unlikePost input post)) :
      Tallies s (.step p draw)
        (s.enter p (.unliking input (s.db.likes.targets input.postId input.userId)))
  | lock {p : Pid} {draw : Draw} {input : LikePostInput} {targets deleted : List PostLikeRow}
      {pairs : List (PostId × Auth.UserId)} (at_unliking : s.phase p = .unliking input targets)
      (found : deleted = targets.filter (· ∈ s.db.likes.rows))
      (taken : pairs = deleted.map fun row => (row.postId, row.userId))
      (available : ∀ pair ∈ pairs, s.likeLock.available p pair) :
      Tallies s (.step p draw)
        ({ s with likeLock := s.likeLock.acquire p pairs }.enter p (.unliked input deleted))
  | delete {p : Pid} {draw : Draw} {input : LikePostInput} {deleted : List PostLikeRow}
      {likes : PostLikeTable} (at_unliked : s.phase p = .unliked input deleted)
      (removed : likes = s.db.likes.delete (deleted.map fun row => row.id)) :
      Tallies s (.step p draw)
        ({ s with db := { s.db with likes } }.close p
          (if deleted.length = 1 then .count input false else .read input false))
  | like {p : Pid} {draw draw' : Draw} {input : LikePostInput} {post : Post} {row : PostLikeRow}
      {db : Database} (at_queued : s.phase p = .queued (.like input post row) draw')
      (committed : s.db.commit (.like input post row) draw' = some db) :
      Tallies s (.step p draw) ({ s with db }.close p (.count input true))
  | count {p : Pid} {draw : Draw} {input : LikePostInput} {liked : Bool} {counter : LikeCounter}
      (at_count : s.phase p = .count input liked)
      (counted : counter = if draw.redis then
        s.counter.incrBy input.postId (if liked then 1 else -1) else s.counter) :
      Tallies s (.step p draw) ({ s with counter }.enter p (.read input liked))
  | codes {a : Label} {codes : InviteCodes} (other : ∀ p draw, a ≠ .step p draw) :
      Tallies s a { s with codes }
  | expire {postId : PostId} : Tallies s (.expireCount postId)
      { s with counter := Function.update s.counter postId none }

namespace Tallies

variable {s s' : State} {a : Label} {p : Pid} {phase : Phase}

theorem kept_close {db : Database} : Kept s ({ s with db }.close p phase) p :=
  fun _ other _ locked => Locks.release_of_held locked other

/-- A step to another phase. -/
theorem enters (before : Before s p a) (after : phase.still) : Tallies s a (s.enter p phase) :=
  .other rfl (fun _ _ _ locked => locked) rfl (fun _ _ => rfl) before after

theorem begins {draw : Draw} {action : Action} (at_member : s.phase p = .member action)
    (h : action.begin s p draw = some s') : Tallies s (.step p draw) s' := by
  have before : Before s p (.step p draw) := .step (by simp [at_member])
  cases action with
  | createPost input =>
    simp only [Action.begin] at h
    split at h <;> rw [← Option.some.inj h] <;> exact enters before rfl
  | createComment input post =>
    simp only [Action.begin] at h
    split at h <;> rw [← Option.some.inj h] <;> exact enters before rfl
  | likePost input post =>
    simp only [Action.begin] at h
    split at h
    · rw [← Option.some.inj h]
      exact enters before rfl
    · split_ifs at h with available liked
      · rw [← Option.some.inj h]
        exact enters before rfl
      · rw [← Option.some.inj h]
        refine .other rfl (fun _ _ _ locked => Locks.acquire_of_held (fun pair hpair => ?_) locked) rfl
          (fun _ _ => rfl) before rfl
        rw [List.mem_singleton.1 hpair]
        exact available
  | unlikePost input post =>
    rw [← Option.some.inj h]
    exact .unlike at_member

theorem steps {draw : Draw} (h : (s.phase p).step s p draw = some s') :
    Tallies s (.step p draw) s' := by
  generalize hphase : s.phase p = phase at h
  have before : (∀ input liked, phase ≠ .count input liked) → Before s p (.step p draw) :=
    fun none => .step (hphase ▸ none)
  cases phase <;> simp only [Phase.step] at h
  case idle => cases h
  case done => cases h
  case createComment | likePost | unlikePost | isMember | isTenant =>
    split at h <;> rw [← Option.some.inj h] <;> exact enters (before (by simp)) rfl
  case member => exact begins hphase h
  case redeem input =>
    split at h
    · rw [← Option.some.inj h]
      exact .other rfl (fun _ _ _ locked => locked) rfl (fun _ _ => rfl) (before (by simp)) rfl
    · split at h <;> rw [← Option.some.inj h] <;>
        exact .other rfl (fun _ _ _ locked => locked) rfl (fun _ _ => rfl) (before (by simp)) rfl
  case redeemed | recount | invalidate | inserted =>
    rw [← Option.some.inj h]
    exact enters (before (by simp)) rfl
  case queued insert draw' =>
    obtain ⟨db, committed, rfl⟩ := Option.map_eq_some_iff.1 h
    cases insert with
    | like input post row => exact .like hphase committed
    | post | comment | lease =>
      exact .other rfl kept_close ((appends_of_commit committed).likes.trans (List.append_nil _))
        (fun _ _ => rfl) (before (by simp)) rfl
  case known =>
    rw [← Option.some.inj h]
    exact .other rfl kept_close rfl (fun _ _ => rfl) (before (by simp)) rfl
  case unliking input targets =>
    split_ifs at h with available
    rw [← Option.some.inj h]
    exact .lock hphase rfl rfl (List.all_eq_true.1 available)
  case unliked input deleted =>
    rw [← Option.some.inj h]
    exact .delete hphase rfl
  case count =>
    rw [← Option.some.inj h]
    exact .count hphase rfl
  case read =>
    split at h <;> rw [← Option.some.inj h] <;> exact enters (before (by simp)) rfl
  case rebuild input liked likeCount =>
    rw [← Option.some.inj h]
    refine .other rfl (fun _ _ _ locked => locked) rfl (fun k present => ?_)
      (before (by simp)) rfl
    show (if draw.redis then s.counter.backfill input.postId likeCount else s.counter) k = s.counter k
    split_ifs
    · exact if_neg fun missing => present missing.2
    · rfl

theorem of_next (h : s.next a = some s') : Tallies s a s' := by
  cases a with
  | arrive p request =>
    simp only [State.next] at h
    split_ifs at h with idle
    rw [← Option.some.inj h]
    exact enters (.arrive idle) (by cases request <;> rfl)
  | step p draw => exact steps h
  | fail p =>
    simp only [State.next] at h
    split at h
    · cases h
    · cases h
    · rw [← Option.some.inj h]
      exact .other rfl kept_close rfl (fun _ _ => rfl) .fail rfl
  | issueCode | expireCode =>
    rw [← Option.some.inj h]
    exact .codes (by simp)
  | expireCount postId =>
    rw [← Option.some.inj h]
    exact .expire

/-- A step leaves the other processes where they are. -/
theorem phase_of_ne (step : Tallies s a s') {q : Pid} (other : a.pid ≠ some q) :
    s'.phase q = s.phase q := by
  have apart : ∀ p, a.pid = some p → q ≠ p := by
    rintro p taken rfl
    exact other taken
  cases step with
  | @other _ _ p phase moved _ _ _ before =>
    have taken : a.pid = some p := by cases before <;> rfl
    rw [moved, Function.update_of_ne (apart p taken)]
  | codes | expire => rfl
  | _ => exact Function.update_of_ne (apart _ rfl) _ _

end Tallies

/-! ## The number of likes -/

theorem countByPost_insert {likes likes' : PostLikeTable} {row : PostLikeRow} {k : PostId}
    (h : likes'.rows = likes.rows ++ [row]) :
    likes'.countByPost k = likes.countByPost k + if row.postId = k then 1 else 0 := by
  unfold PostLikeTable.countByPost
  rw [h, List.countP_append, List.countP_singleton]
  simp only [decide_eq_true_eq]

theorem countByPost_delete {likes : PostLikeTable} {row : PostLikeRow} {k : PostId}
    (h : row ∈ likes.rows) :
    (likes.delete [row.id]).countByPost k + (if row.postId = k then 1 else 0) =
      likes.countByPost k := by
  have one := likes.id_unique.countP_key h fun row => row.postId = k
  have split := List.countP_eq_countP_filter_add likes.rows (fun row => decide (row.postId = k))
    (fun other => other.id ∉ [row.id])
  unfold PostLikeTable.countByPost PostLikeTable.delete
  rw [split]
  congr 1
  have same : likes.rows.countP (fun other => decide (other.postId = k) && !decide (other.id ∉ [row.id])) =
      likes.rows.countP fun other => other.id = row.id ∧ decide (other.postId = k) :=
    List.countP_congr fun other _ => by simp [and_comm]
  rw [List.countP_filter, same, one]
  simp

theorem delete_nil {likes : PostLikeTable} : (likes.delete []).rows = likes.rows := by
  simp [PostLikeTable.delete]

/-- The pairs of likes are unique, so a user likes a post at most once. -/
theorem length_targets_le {likes : PostLikeTable} {postId : PostId} {userId : Auth.UserId} :
    (likes.targets postId (some userId)).length ≤ 1 := by
  unfold PostLikeTable.targets
  rw [← List.countP_eq_length_filter]
  refine likes.pair_unique.countP_le_one (k := (postId, userId)) fun row hit => ?_
  have both := of_decide_eq_true hit
  rw [Prisma.whereEq_some, decide_eq_true_iff] at both
  exact Prod.ext both.1 both.2

/-! ## The tally of a post -/

structure Tally (k : PostId) (tr : List (Step State Label)) (s : State) : Prop where
  sparse : Pool.Sparse (owes k) s.phase
  pending : Pending s
  unliking : ∀ p input targets, s.phase p = .unliking input targets →
    targets.length ≤ 1 ∧ ∀ row ∈ targets, row.postId = input.postId
  /-- A like that is about to go is there, and its pair is locked. -/
  unliked : ∀ p input deleted, s.phase p = .unliked input deleted →
    deleted.length ≤ 1 ∧ ∀ row ∈ deleted, row.postId = input.postId ∧ row ∈ s.db.likes.rows ∧
      s.likeLock (row.postId, row.userId) = some p
  present : s.counter k ≠ none
  balanced : Counter.Balanced (s.counter k) (s.db.likes.countByPost k)
    (Pool.total (owes k) s.phase) (tr.countP (clamps k))

variable {k : PostId} {tr : List (Step State Label)} {s s' : State} {a : Label} {p : Pid}
  {phase : Phase}

/-- The process does not go on with uncommitted deletions. -/
theorem Phase.still_ne (still : phase.still) :
    (∀ input targets, phase ≠ .unliking input targets) ∧
      ∀ input deleted, phase ≠ .unliked input deleted := by
  cases phase with
  | unliking => cases still
  | unliked => cases still
  | _ => exact ⟨by simp, by simp⟩

theorem owes_of_still (still : phase.still) : owes k phase = 0 := by
  cases phase <;> first | rfl | cases still

theorem owes_of_ne (none : ∀ input liked, phase ≠ .count input liked) : owes k phase = 0 := by
  cases phase with
  | count input liked => exact absurd rfl (none input liked)
  | _ => rfl

theorem clamps_of_ne {draw : Draw} (none : ∀ input liked, s.phase p ≠ .count input liked) :
    clamps k ⟨s, .step p draw, s'⟩ = false := by
  show (match s.phase p with
    | .count input false => decide (input.postId = k ∧ s.counter k = some 0)
    | _ => false) = false
  split
  · exact absurd ‹_› (none _ _)
  · rfl

namespace Tally

/-- A step of the tally: the process `p` goes to another phase. -/
theorem book (h : Tally k tr s) (next : s.next a = some s') (phase : Phase)
    (moved : s'.phase = Function.update s.phase p phase) (locks : Kept s s' p)
    (rows : ∀ q ≠ p, ∀ row ∈ s.db.likes.rows, s.likeLock (row.postId, row.userId) = some q →
      row ∈ s'.db.likes.rows)
    (unliking : ∀ input targets, phase = .unliking input targets →
      targets.length ≤ 1 ∧ ∀ row ∈ targets, row.postId = input.postId)
    (unliked : ∀ input deleted, phase = .unliked input deleted →
      deleted.length ≤ 1 ∧ ∀ row ∈ deleted, row.postId = input.postId ∧ row ∈ s'.db.likes.rows ∧
        s'.likeLock (row.postId, row.userId) = some p)
    (present : s'.counter k ≠ none)
    (balanced : Counter.Balanced (s'.counter k) (s'.db.likes.countByPost k)
      (Pool.total (owes k) s.phase - owes k (s.phase p) + owes k phase)
      (tr.countP (clamps k) + if clamps k ⟨s, a, s'⟩ then 1 else 0)) :
    Tally k (tr ++ [⟨s, a, s'⟩]) s' := by
  refine ⟨?_, h.pending.of_moves (moves_of_next next), ?_, ?_, present, ?_⟩
  · rw [moved]
    exact h.sparse.update
  · intro q input targets at_unliking
    rw [moved] at at_unliking
    rcases eq_or_ne q p with rfl | other
    · rw [Function.update_self] at at_unliking
      exact unliking input targets at_unliking
    · rw [Function.update_of_ne other] at at_unliking
      exact h.unliking q input targets at_unliking
  · intro q input deleted at_unliked
    rw [moved] at at_unliked
    rcases eq_or_ne q p with rfl | other
    · rw [Function.update_self] at at_unliked
      exact unliked input deleted at_unliked
    · rw [Function.update_of_ne other] at at_unliked
      obtain ⟨one, locked⟩ := h.unliked q input deleted at_unliked
      refine ⟨one, fun row hrow => ?_⟩
      obtain ⟨post, here, lock⟩ := locked row hrow
      exact ⟨post, rows q other row here lock, locks q other _ lock⟩
  · rw [moved, Pool.total_update h.sparse, List.countP_append, List.countP_singleton]
    push_cast
    exact balanced

/-- A step that only touches codes or counters of other posts. -/
theorem outside (h : Tally k tr s) (next : s.next a = some s') (db : s'.db = s.db)
    (locks : s'.likeLock = s.likeLock) (moved : s'.phase = s.phase) (counter : s'.counter k = s.counter k)
    (whole : clamps k ⟨s, a, s'⟩ = false) : Tally k (tr ++ [⟨s, a, s'⟩]) s' := by
  refine ⟨moved ▸ h.sparse, h.pending.of_moves (moves_of_next next), moved ▸ h.unliking, ?_,
    counter ▸ h.present, ?_⟩
  · rw [moved, locks, db]
    exact h.unliked
  · rw [counter, db, moved, List.countP_append, List.countP_singleton, whole]
    exact h.balanced

/-- A step that leaves the likes and the counter of the post as they are. -/
theorem keep (h : Tally k tr s) (next : s.next a = some s') (phase : Phase)
    (moved : s'.phase = Function.update s.phase p phase) (locks : Kept s s' p)
    (rows : s'.db.likes.rows = s.db.likes.rows) (counter : s'.counter k = s.counter k)
    (unliking : ∀ input targets, phase = .unliking input targets →
      targets.length ≤ 1 ∧ ∀ row ∈ targets, row.postId = input.postId)
    (unliked : ∀ input deleted, phase = .unliked input deleted →
      deleted.length ≤ 1 ∧ ∀ row ∈ deleted, row.postId = input.postId ∧ row ∈ s'.db.likes.rows ∧
        s'.likeLock (row.postId, row.userId) = some p)
    (before : owes k (s.phase p) = 0) (after : owes k phase = 0)
    (whole : clamps k ⟨s, a, s'⟩ = false) : Tally k (tr ++ [⟨s, a, s'⟩]) s' := by
  refine h.book next phase moved locks (fun _ _ _ here _ => rows ▸ here) unliking unliked
    (counter ▸ h.present) ?_
  have count : s'.db.likes.countByPost k = s.db.likes.countByPost k := by
    unfold PostLikeTable.countByPost
    rw [rows]
  rw [counter, count, before, after, whole]
  simpa using h.balanced

/-- An `unlike` finds its rows. -/
theorem unlike {draw : Draw} {input : LikePostInput} {post : Post} (h : Tally k tr s)
    (calm : Calm k s (.step p draw)) (next : s.next (.step p draw) = some s')
    (at_member : s.phase p = .member (.unlikePost input post))
    (moved : s' = s.enter p (.unliking input (s.db.likes.targets input.postId input.userId))) :
    Tally k (tr ++ [⟨s, .step p draw, s'⟩]) s' := by
  subst moved
  refine h.keep next _ rfl (fun _ _ _ locked => locked) rfl rfl ?_ (by simp) ?_ rfl ?_
  · intro input' targets' same
    obtain ⟨rfl, rfl⟩ := Phase.unliking.inj same
    cases user : input.userId with
    | none =>
      have named := calm.named p draw rfl
      rw [at_member] at named
      exact absurd user (of_decide_eq_false named)
    | some userId =>
      refine ⟨length_targets_le, fun row hrow => ?_⟩
      exact (of_decide_eq_true (List.mem_filter.1 hrow).2).1
  · rw [at_member]
    rfl
  · exact clamps_of_ne (by simp [at_member])

/-- It locks those that are still there. -/
theorem lock {draw : Draw} {input : LikePostInput} {targets deleted : List PostLikeRow}
    {pairs : List (PostId × Auth.UserId)} (h : Tally k tr s) (next : s.next (.step p draw) = some s')
    (at_unliking : s.phase p = .unliking input targets)
    (found : deleted = targets.filter (· ∈ s.db.likes.rows))
    (taken : pairs = deleted.map fun row => (row.postId, row.userId))
    (available : ∀ pair ∈ pairs, s.likeLock.available p pair)
    (moved : s' = { s with likeLock := s.likeLock.acquire p pairs }.enter p (.unliked input deleted)) :
    Tally k (tr ++ [⟨s, .step p draw, s'⟩]) s' := by
  subst moved
  refine h.keep next _ rfl (fun _ _ _ locked => Locks.acquire_of_held available locked) rfl rfl
    (by simp) ?_ ?_ rfl ?_
  · intro input' deleted' same
    obtain ⟨rfl, rfl⟩ := Phase.unliked.inj same
    obtain ⟨one, post⟩ := h.unliking p _ _ at_unliking
    subst found
    refine ⟨(List.length_filter_le ..).trans one, fun row hrow => ?_⟩
    obtain ⟨target, here⟩ := List.mem_filter.1 hrow
    refine ⟨post row target, of_decide_eq_true here, Locks.acquire_of_mem ?_⟩
    rw [taken]
    exact List.mem_map_of_mem hrow
  · rw [at_unliking]
    rfl
  · exact clamps_of_ne (by simp [at_unliking])

/-- It commits. -/
theorem delete {draw : Draw} {input : LikePostInput} {deleted : List PostLikeRow}
    {likes : PostLikeTable} (h : Tally k tr s) (next : s.next (.step p draw) = some s')
    (at_unliked : s.phase p = .unliked input deleted)
    (removed : likes = s.db.likes.delete (deleted.map fun row => row.id))
    (moved : s' = { s with db := { s.db with likes } }.close p
      (if deleted.length = 1 then .count input false else .read input false)) :
    Tally k (tr ++ [⟨s, .step p draw, s'⟩]) s' := by
  subst moved
  obtain ⟨one, locked⟩ := h.unliked p _ _ at_unliked
  have before : owes k (s.phase p) = 0 := by rw [at_unliked]; rfl
  match deleted, one with
  | [], _ =>
    subst removed
    exact h.keep next (.read input false) rfl Tallies.kept_close delete_nil rfl (by simp) (by simp)
      before rfl (clamps_of_ne (by simp [at_unliked]))
  | [row], _ =>
    subst removed
    obtain ⟨post, here, lock⟩ := locked row List.mem_cons_self
    refine h.book next (.count input false) rfl Tallies.kept_close ?_ (by simp) (by simp) h.present ?_
    · intro q other row' here' lock'
      have apart : row'.id ≠ row.id := by
        intro same
        obtain rfl := s.db.likes.id_unique.eq_of_mem here' here same
        exact other (Option.some.inj (lock'.symm.trans lock))
      exact List.mem_filter.2 ⟨here', by simpa using apart⟩
    · have removed := countByPost_delete (k := k) here
      have changed := h.balanced.change (if input.postId = k then -1 else 0)
      rw [clamps_of_ne (by simp [at_unliked]), before]
      show Counter.Balanced (s.counter k) ((s.db.likes.delete [row.id]).countByPost k) _ _
      rw [← removed, post] at changed
      by_cases mine : input.postId = k <;> simpa [owes, mine] using changed
  | _ :: _ :: _, one => simp at one

/-- A like commits. -/
theorem like {draw draw' : Draw} {input : LikePostInput} {post : Post} {row : PostLikeRow}
    {db : Database} (h : Tally k tr s) (next : s.next (.step p draw) = some s')
    (at_queued : s.phase p = .queued (.like input post row) draw')
    (committed : s.db.commit (.like input post row) draw' = some db)
    (moved : s' = { s with db }.close p (.count input true)) :
    Tally k (tr ++ [⟨s, .step p draw, s'⟩]) s' := by
  subst moved
  have appends := (appends_of_commit committed).likes
  obtain ⟨post, -⟩ := h.pending p input row (by rw [at_queued]; rfl)
  refine h.book next (.count input true) rfl Tallies.kept_close ?_ (by simp) (by simp) h.present ?_
  · intro q _ row' here _
    show row' ∈ db.likes.rows
    rw [appends]
    exact List.mem_append_left _ here
  · have before : owes k (s.phase p) = 0 := by rw [at_queued]; rfl
    have counted : db.likes.countByPost k = _ := countByPost_insert (k := k) appends
    have changed := h.balanced.change (if row.postId = k then 1 else 0)
    rw [clamps_of_ne (by simp [at_queued]), before]
    show Counter.Balanced (s.counter k) (db.likes.countByPost k) _ _
    rw [counted]
    by_cases mine : row.postId = k <;> simpa [owes, post, mine] using changed

/-- The counter follows. -/
theorem count {draw : Draw} {input : LikePostInput} {liked : Bool} {counter : LikeCounter}
    (h : Tally k tr s) (calm : Calm k s (.step p draw))
    (next : s.next (.step p draw) = some s') (at_count : s.phase p = .count input liked)
    (counted : counter = if draw.redis then
      s.counter.incrBy input.postId (if liked then 1 else -1) else s.counter)
    (moved : s' = { s with counter }.enter p (.read input liked)) :
    Tally k (tr ++ [⟨s, .step p draw, s'⟩]) s' := by
  subst moved
  have before : owes k (s.phase p) = if input.postId = k then if liked then 1 else -1 else 0 := by
    rw [at_count]
    rfl
  by_cases mine : input.postId = k
  · rw [if_pos (calm.answers p draw input liked rfl at_count mine), mine] at counted
    refine h.book next _ rfl (fun _ _ _ locked => locked) (fun _ _ _ here _ => here) (by simp)
      (by simp) ?_ ?_
    · show counter k ≠ none
      simpa [counted, LikeCounter.incrBy_self] using h.present
    · show Counter.Balanced (counter k) (s.db.likes.countByPost k) _ _
      rw [counted, LikeCounter.incrBy_self, before, if_pos mine]
      cases liked with
      | true =>
        have added := h.balanced.increment
        rw [← h.balanced.map_max_add_one] at added
        simpa [owes, clamps, at_count] using added
      | false =>
        have removed := h.balanced.decrement
        simpa [owes, clamps, at_count, mine, Int.sub_eq_add_neg] using removed
  · refine h.keep next _ rfl (fun _ _ _ locked => locked) rfl ?_ (by simp) (by simp) ?_ rfl ?_
    · show counter k = s.counter k
      rw [counted]
      by_cases redis : draw.redis = true
      · rw [if_pos redis, LikeCounter.incrBy_of_ne (Ne.symm mine)]
      · rw [if_neg redis]
    · rw [before, if_neg mine]
    · cases liked <;> simp [clamps, at_count, mine]

theorem of_tallies (h : Tally k tr s) (calm : Calm k s a) (next : s.next a = some s')
    (step : Tallies s a s') : Tally k (tr ++ [⟨s, a, s'⟩]) s' := by
  cases step with
  | @other _ _ p phase moved locks likes counter before after =>
    have still := Phase.still_ne after
    refine h.keep next phase moved locks likes (counter k h.present)
      (fun input targets at_unliking => absurd at_unliking (still.1 input targets))
      (fun input deleted at_unliked => absurd at_unliked (still.2 input deleted)) ?_
      (owes_of_still after) ?_
    · cases before with
      | arrive idle => rw [idle]; rfl
      | step none => exact owes_of_ne none
      | fail =>
        by_cases counting : ∃ input liked, s.phase p = .count input liked
        · obtain ⟨input, liked, at_count⟩ := counting
          rw [at_count]
          exact if_neg (calm.survives p input liked rfl at_count)
        · exact owes_of_ne fun input liked at_count => counting ⟨input, liked, at_count⟩
    · cases before with
      | step none => exact clamps_of_ne none
      | _ => rfl
  | unlike at_member => exact h.unlike calm next at_member rfl
  | lock at_unliking found taken available =>
    exact h.lock next at_unliking found taken available rfl
  | delete at_unliked removed => exact h.delete next at_unliked removed rfl
  | like at_queued committed => exact h.like next at_queued committed rfl
  | count at_count counted => exact h.count calm next at_count counted rfl
  | codes other =>
    refine h.outside next rfl rfl rfl rfl ?_
    cases a with
    | step q draw => exact absurd rfl (other q draw)
    | _ => rfl
  | @expire postId =>
    refine h.outside next rfl rfl rfl (Function.update_of_ne ?_ _ _) rfl
    rintro rfl
    exact calm.kept rfl

end Tally

/-! ## Runs -/

/-- The process has not begun, or has ended. -/
def Phase.ended : Phase → Bool
  | idle => true
  | done _ => true
  | _ => false

/-- No request is in flight. -/
def State.Quiet (s : State) : Prop := ∀ p, (s.phase p).ended = true

theorem owes_of_ended (ended : phase.ended) : owes k phase = 0 :=
  owes_of_ne fun _ _ counting => by
    rw [counting] at ended
    cases ended

theorem tally_of_run (idle : s.phase = fun _ => .idle)
    (right : s.counter k = some (s.db.likes.countByPost k : ℤ))
    (run : writers.Run (Calm k) s tr s') : Tally k tr s' := by
  have idle : ∀ p, s.phase p = .idle := congrFun idle
  have none : ∀ p, owes k (s.phase p) = 0 := fun p => owes_of_ended (by rw [idle]; rfl)
  refine run.trace_invariant (fun _ _ _ _ h calm next =>
    h.of_tallies calm next (Tallies.of_next next)) ⟨Pool.sparse_of_forall none, ?_, ?_, ?_, ?_, ?_⟩
  · intro p input row pending
    rw [idle] at pending
    cases pending
  · intro p input targets at_unliking
    rw [idle] at at_unliking
    cases at_unliking
  · intro p input deleted at_unliked
    rw [idle] at at_unliked
    cases at_unliked
  · simp [right]
  · rw [right, Pool.total_of_forall none]
    exact .rebuilt (by simp)

/-- With no request in flight the like counter is the number of likes and of decrements that have met
zero. -/
theorem like_counter (idle : s.phase = fun _ => .idle)
    (right : s.counter k = some (s.db.likes.countByPost k : ℤ))
    (run : writers.Run (Calm k) s tr s') (quiet : s'.Quiet) :
    s'.counter k = some ((s'.db.likes.countByPost k : ℤ) + tr.countP (clamps k)) := by
  have tally := tally_of_run idle right run
  have total : Pool.total (owes k) s'.phase = 0 :=
    Pool.total_of_forall fun p => owes_of_ended (quiet p)
  obtain ⟨count, present⟩ := Option.ne_none_iff_exists'.1 tally.present
  rw [present, tally.balanced.settled total present]

/-! ## A like and its withdrawal -/

/-- User 1 owns building 1, and post 5 is there without a like. -/
def unlikedPost : State where
  db := { opened.db with posts := ⟨[⟨5, 1, 1, .free, "title", "text", none⟩], List.nodup_singleton _⟩ }
  likeLock := .free
  codes _ := none
  counter postId := if postId = 5 then some 0 else none
  phase _ := .idle

/-- The label is about process 0 or 1; Redis answers it, and its user is user 1. -/
def answered (s : State) : Label → Bool
  | .arrive p _ => p < 2
  | .step p draw => p < 2 ∧ draw.redis ∧ (s.phase p).anonymous = false
  | _ => false

/-- The other processes have not begun. -/
def Two (s : State) : Prop := ∀ p : ℕ, 2 ≤ p → s.phase p = .idle

theorem Two.step (two : Two s) (step : Tallies s a s') {p : ℕ} (small : p < 2)
    (taken : a.pid = some p) : Two s' := by
  intro q large
  have other : a.pid ≠ some q := by
    rw [taken]
    intro same
    obtain rfl := Option.some.inj same
    omega
  rw [step.phase_of_ne other]
  exact two q large

theorem calm_of_answered (s : State) (a : Label) (s' : State) (two : Two s)
    (checked : answered s a = true) (next : s.next a = some s') : Calm k s a ∧ Two s' := by
  cases a with
  | arrive p request =>
    exact ⟨⟨by simp, by simp, by simp, by simp⟩, two.step (.of_next next) (of_decide_eq_true checked) rfl⟩
  | step p draw =>
    obtain ⟨small, redis, named⟩ := of_decide_eq_true checked
    refine ⟨⟨by simp, ?_, by simp, ?_⟩, two.step (.of_next next) small rfl⟩
    · rintro _ _ input liked ⟨rfl, rfl⟩ - -
      exact redis
    · rintro _ _ ⟨rfl, rfl⟩
      exact named
  | _ => cases checked

theorem Two.quiet (two : Two s) (zero : (s.phase 0).ended = true) (one : (s.phase 1).ended = true) :
    s.Quiet := by
  intro p
  match p with
  | 0 => exact zero
  | 1 => exact one
  | p + 2 =>
    rw [two _ (by omega)]
    rfl

/-- The withdrawal is counted before the like: the counter says one, and nobody likes the post. -/
theorem unlike_overtakes : ∃ tr t, writers.Run (Calm 5) unlikedPost tr t ∧
    unlikedPost.counter 5 = some (unlikedPost.db.likes.countByPost 5 : ℤ) ∧ t.Quiet ∧
    t.counter 5 = some 1 ∧ t.db.likes.countByPost 5 = 0 := by
  have computed : (writers.exec answered unlikedPost
      (serve 0 (.likePost ⟨some 1, 5⟩) 5 6 ++ serve 1 (.unlikePost ⟨some 1, 5⟩) 7 7 ++
        (serve 0 (.likePost ⟨some 1, 5⟩) 2 8).tail)).map
      (fun t => ((t.phase 0).ended && (t.phase 1).ended, t.counter 5, t.db.likes.countByPost 5)) =
      some (true, some 1, 0) := by
    decide
  obtain ⟨t, reached, seen⟩ := Option.map_eq_some_iff.1 computed
  obtain ⟨tr, run, -, two⟩ := exists_run_of_exec_invariant (C := Calm 5)
    calm_of_answered (fun _ _ => rfl) reached
  simp only [Prod.mk.injEq, Bool.and_eq_true] at seen
  obtain ⟨⟨zero, one⟩, counter, rows⟩ := seen
  exact ⟨tr, t, run, rfl, two.quiet zero one, counter, rows⟩

/-- The like is counted first. -/
theorem like_counter_in_order : ∃ tr t, writers.Run (Calm 5) unlikedPost tr t ∧ t.Quiet ∧
    t.counter 5 = some ((0 : ℕ) + tr.countP (clamps 5) : ℤ) := by
  have computed : (writers.exec answered unlikedPost
      (serve 0 (.likePost ⟨some 1, 5⟩) 6 6 ++ serve 1 (.unlikePost ⟨some 1, 5⟩) 7 7 ++
        (serve 0 (.likePost ⟨some 1, 5⟩) 1 8).tail)).map
      (fun t => ((t.phase 0).ended && (t.phase 1).ended, t.db.likes.countByPost 5)) =
      some (true, 0) := by
    decide
  obtain ⟨t, reached, seen⟩ := Option.map_eq_some_iff.1 computed
  obtain ⟨tr, run, -, two⟩ := exists_run_of_exec_invariant (C := Calm 5)
    calm_of_answered (fun _ _ => rfl) reached
  simp only [Prod.mk.injEq, Bool.and_eq_true] at seen
  obtain ⟨⟨zero, one⟩, rows⟩ := seen
  have quiet := two.quiet zero one
  exact ⟨tr, t, run, quiet, rows ▸ like_counter rfl rfl run quiet⟩

end EstateServer.Writers
