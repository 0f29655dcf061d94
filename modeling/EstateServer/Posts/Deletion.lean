import EstateServer.Posts.History

/-!
# Comments of deleted posts

`DeletePost` deletes the comments that its first `UPDATE` finds and then the post; `CreateComment`
has looked for the post before its transaction, and nothing makes it look again.  A comment that is
committed after the `UPDATE` has looked for its rows stays, under a deleted post (`comment_stays`).
Without such a comment (`Overtaken`) every comment of a deleted post is deleted (`comments_deleted`).

`Orderly` is the invariant: an open removal has found all live comments that were not inserted since
(`Looked`), and a deleted post was deleted by a removal.
-/

namespace EstateServer.Posts

open Machine Board Property

/-- Every comment of a deleted post is deleted. -/
def Database.Cascaded (db : Database) : Prop :=
  ∀ c ∈ db.comments.rows, db.Deleted c.row.postId → c.row.deletedAt ≠ none

/-! ## The order of the steps -/

/-- The `DeletePost` of `p` starts its `UPDATE` of the comments of post `k`. -/
def Looks (p : Pid) (k : PostId) (st : Step State Label) : Prop :=
  (∃ draw, st.label = .step p draw) ∧
    ∃ input post, st.pre.phase p = .delete input post ∧ input.postId = k

/-- The transaction of `p` commits and deletes post `k`. -/
def Deletes (p : Pid) (k : PostId) (st : Step State Label) : Prop :=
  (∃ draw, st.label = .step p draw) ∧
    (∃ removal, st.pre.phase p = .removed removal ∧ removal.input.postId = k) ∧ ¬ st.pre.db.Deleted k

/-- A `CreateComment` commits a comment on post `k`. -/
def Inserts (k : PostId) (st : Step State Label) : Prop :=
  ∃ p draw input created, st.label = .step p draw ∧
    st.pre.phase p = .inserted (.comment input created) ∧ created.row.postId = k

/-- A comment is committed on a post after the `DeletePost` that deletes the post has started its
`UPDATE` of the comments. -/
def Overtaken (tr : List (Step State Label)) : Prop :=
  ∃ p k front look back, tr = front ++ look :: back ∧ Looks p k look ∧
    (∃ st ∈ back, Deletes p k st) ∧ ∃ st ∈ back, Inserts k st

/-! ## The rows after a step -/

section rows

variable {db db' : Database} {s s' : State} {a : Label} {k : PostId}

theorem Database.Deleted.of_insertPost {created : Stored PostRow}
    (h : db.insertPost created = some db') (live : created.row.deletedAt = none)
    (deleted : db'.Deleted k) : db.Deleted k := by
  obtain ⟨posts, inserted, rfl⟩ := Option.map_eq_some_iff.1 h
  obtain ⟨r, hr, id, deletedAt⟩ := deleted
  rcases (Table.Keyed.mem_insert inserted).1 hr with hr | rfl
  · exact ⟨r, hr, id, deletedAt⟩
  · exact absurd live deletedAt

theorem Database.Deleted.of_update {post : Post} (deleted : (db.update post).Deleted k) :
    db.Deleted k := by
  obtain ⟨r, hr, id, deletedAt⟩ := deleted
  obtain ⟨r₀, hr₀, rfl⟩ := List.mem_map.1 hr
  refine ⟨r₀, hr₀, ?_⟩
  split_ifs at id deletedAt <;> exact ⟨id, deletedAt⟩

theorem Database.Deleted.of_delete {id : PostId} {comments : List CommentId} {now : Instant}
    (deleted : (db.delete id comments now).Deleted k) : db.Deleted k ∨ id = k := by
  obtain ⟨r, hr, same, deletedAt⟩ := deleted
  obtain ⟨r₀, hr₀, rfl⟩ := List.mem_map.1 hr
  split_ifs at same deletedAt with hit
  · exact .inr ((of_decide_eq_true hit).symm.trans same)
  · exact .inl ⟨r₀, hr₀, same, deletedAt⟩

/-- A post is deleted by the commit of a `DeletePost`. -/
theorem deleted_of_next (prepared : ∀ p, (s.phase p).Prepared s.db)
    (next : board.next s a = some s') (deleted : s'.db.Deleted k) :
    s.db.Deleted k ∨ ∃ p, Deletes p k ⟨s, a, s'⟩ := by
  by_cases before : s.db.Deleted k
  · exact .inl before
  cases Moves.of_next next with
  | @createPost p _ input created _ at_inserted committed =>
    have live : (Phase.inserted (.post input created)).Prepared s.db := at_inserted ▸ prepared p
    exact .inl (deleted.of_insertPost committed live.2)
  | createComment _ committed =>
    obtain ⟨comments, -, rfl⟩ := Option.map_eq_some_iff.1 committed
    exact .inl deleted
  | update => exact .inl deleted.of_update
  | @delete p draw removal at_removed =>
    refine deleted.of_delete.imp_right fun same => ⟨p, ⟨draw, rfl⟩, ⟨removal, at_removed, same⟩, before⟩
  | _ => exact .inl deleted

/-- A live comment was there before, or is inserted. -/
theorem live_of_next (next : board.next s a = some s') {c : Stored CommentRow}
    (hc : c ∈ s'.db.comments.rows) (live : c.row.deletedAt = none) :
    c ∈ s.db.comments.rows ∨ Inserts c.row.postId ⟨s, a, s'⟩ := by
  cases Moves.of_next next with
  | createPost _ committed =>
    obtain ⟨posts, -, rfl⟩ := Option.map_eq_some_iff.1 committed
    exact .inl hc
  | @createComment p draw input created _ at_inserted committed =>
    obtain ⟨comments, inserted, rfl⟩ := Option.map_eq_some_iff.1 committed
    rcases (Table.Keyed.mem_insert inserted).1 hc with hc | rfl
    · exact .inl hc
    · exact .inr ⟨p, draw, input, c, rfl, at_inserted, rfl⟩
  | delete =>
    obtain ⟨c₀, hc₀, rfl⟩ := List.mem_map.1 hc
    split_ifs at live ⊢
    exact .inl hc₀
  | _ => exact .inl hc

end rows

/-! ## The invariant -/

/-- The transaction of a `DeletePost`. -/
def Phase.removal : Phase → Option Removal
  | removing removal => some removal
  | marked removal => some removal
  | removed removal => some removal
  | _ => none

/-- The removal has found the live comments of the post that were not inserted since it looked. -/
def Looked (tr : List (Step State Label)) (p : Pid) (removal : Removal) (db : Database) : Prop :=
  ∃ front look back, tr = front ++ look :: back ∧ Looks p removal.input.postId look ∧
    ∀ c ∈ db.comments.rows, c.row.postId = removal.input.postId → c.row.deletedAt = none →
      c.row.id ∈ removal.comments ∨ ∃ st ∈ back, Inserts removal.input.postId st

/-- The post was deleted by a removal. -/
def Fell (tr : List (Step State Label)) (k : PostId) : Prop :=
  ∃ p front look back, tr = front ++ look :: back ∧ Looks p k look ∧ ∃ st ∈ back, Deletes p k st

structure Orderly (tr : List (Step State Label)) (s : State) : Prop where
  cascaded : s.db.Cascaded
  looked : ∀ p removal, (s.phase p).removal = some removal → Looked tr p removal s.db
  fell : ∀ k, s.db.Deleted k → Fell tr k

section invariant

variable {s s' : State} {a : Label} {tr : List (Step State Label)} {st : Step State Label} {p : Pid}
  {k : PostId} {removal : Removal} {db : Database}

theorem Fell.concat (h : Fell tr k) : Fell (tr ++ [st]) k := by
  obtain ⟨p, front, look, back, rfl, looks, st', hst', deletes⟩ := h
  exact ⟨p, front, look, back ++ [st], by simp, looks, st', List.mem_append_left _ hst', deletes⟩

theorem Looked.concat (h : Looked tr p removal s.db) (next : board.next s a = some s') :
    Looked (tr ++ [⟨s, a, s'⟩]) p removal s'.db := by
  obtain ⟨front, look, back, rfl, looks, found⟩ := h
  refine ⟨front, look, back ++ [⟨s, a, s'⟩], by simp, looks, fun c hc onPost live => ?_⟩
  rcases live_of_next next hc live with before | inserts
  · exact (found c before onPost live).imp_right fun ⟨st, hst, inserts⟩ =>
      ⟨st, List.mem_append_left _ hst, inserts⟩
  · exact .inr ⟨_, List.mem_concat_self, onPost ▸ inserts⟩

/-- The rows that are still live are still found. -/
theorem Looked.still (h : Looked tr p removal db) :
    Looked tr p { removal with comments := db.stillLive removal.comments } db := by
  obtain ⟨front, look, back, rfl, looks, found⟩ := h
  refine ⟨front, look, back, rfl, looks, fun c hc onPost live => ?_⟩
  refine (found c hc onPost live).imp_left fun mem => ?_
  exact List.mem_map.2 ⟨c, List.mem_filter.2 ⟨hc, decide_eq_true ⟨mem, live⟩⟩, rfl⟩

theorem removal_start (request : Request) : request.start.removal = none := by
  cases request <;> rfl

theorem removal_of_blank {phase : Phase} (blank : phase.blank) : phase.removal = none := by
  cases phase <;> first | rfl | cases blank

theorem looked_read {draw : Draw} {phase : Phase} (reads : Reads s draw (s.phase p) phase)
    (opened : phase.removal = some removal) :
    Looked (tr ++ [⟨s, .step p draw, s.enter p phase⟩]) p removal s.db := by
  generalize hbefore : s.phase p = before at reads
  cases reads with
  | blank _ blank => simp [removal_of_blank blank] at opened
  | delete =>
    obtain rfl := Option.some.inj opened
    refine ⟨tr, _, [], rfl, ⟨⟨draw, rfl⟩, _, _, hbefore, rfl⟩, fun c hc onPost live => .inl ?_⟩
    exact List.mem_map.2 ⟨c, List.mem_filter.2 ⟨hc, decide_eq_true ⟨onPost, live⟩⟩, rfl⟩
  | _ => cases opened

theorem looked_step {q : Pid} (h : Orderly tr s) (next : board.next s a = some s')
    (opened : (s'.phase q).removal = some removal) :
    Looked (tr ++ [⟨s, a, s'⟩]) q removal s'.db := by
  have kept : (s.phase q).removal = some removal → Looked (tr ++ [⟨s, a, s'⟩]) q removal s'.db :=
    fun before => (h.looked q removal before).concat next
  cases Moves.of_next next with
  | arrive =>
    rcases Moves.of_update Phase.removal opened with before | ⟨-, new⟩
    · exact kept before
    · simp [removal_start] at new
  | read reads =>
    rcases Moves.of_update Phase.removal opened with before | ⟨rfl, new⟩
    · exact kept before
    · exact looked_read reads new
  | @mark p _ removal at_removing =>
    rcases Moves.of_update Phase.removal opened with before | ⟨rfl, new⟩
    · exact kept before
    · obtain rfl := Option.some.inj new
      exact (h.looked q removal (by rw [at_removing]; rfl)).still.concat next
  | lock at_marked =>
    rcases Moves.of_update Phase.removal opened with before | ⟨rfl, new⟩
    · exact kept before
    · exact kept (by rw [at_marked]; exact new)
  | expire => exact kept opened
  | leases => exact kept opened
  | _ =>
    rcases Moves.of_update Phase.removal opened with before | ⟨-, new⟩
    · exact kept before
    · cases new

/-- The commit of a removal deletes the comments that it has found. -/
theorem deleted_of_found {draw : Draw} (at_removed : s.phase p = .removed removal)
    (next : board.next s (.step p draw) = some s') {c : Stored CommentRow}
    (hc : c ∈ s'.db.comments.rows) (found : c.row.id ∈ removal.comments) :
    c.row.deletedAt ≠ none := by
  have step : (s.phase p).step s p draw = some s' := next
  rw [at_removed] at step
  rw [← Option.some.inj step] at hc
  obtain ⟨c₀, hc₀, rfl⟩ := List.mem_map.1 hc
  split_ifs at found ⊢ with hit
  · exact nofun
  · exact absurd (decide_eq_true found) hit

theorem cascaded_step (h : Orderly tr s) (prepared : ∀ p, (s.phase p).Prepared s.db)
    (next : board.next s a = some s') (inTime : ¬ Overtaken (tr ++ [⟨s, a, s'⟩])) :
    s'.db.Cascaded := by
  intro c hc deleted live
  have last : (⟨s, a, s'⟩ : Step State Label) ∈ [⟨s, a, s'⟩] := List.mem_singleton_self _
  rcases live_of_next next hc live with before | inserts
  · rcases deleted_of_next prepared next deleted with fallen | ⟨p, deletes⟩
    · exact h.cascaded c before fallen live
    · -- the commit of a removal that has missed the comment
      obtain ⟨⟨draw, rfl⟩, ⟨removal, at_removed, onPost⟩, -⟩ := id deletes
      obtain ⟨front, look, back, rfl, looks, found⟩ := h.looked p removal (by rw [at_removed]; rfl)
      rcases found c before onPost.symm live with mem | ⟨st, hst, inserts⟩
      · exact deleted_of_found at_removed next hc mem live
      · rw [onPost] at looks inserts
        exact inTime ⟨p, _, front, look, back ++ [_], by simp, looks,
          ⟨_, List.mem_append_right _ last, deletes⟩, st, List.mem_append_left _ hst, inserts⟩
  · rcases deleted_of_next prepared next deleted with fallen | ⟨p, deletes⟩
    · -- a comment on a post that is already deleted
      obtain ⟨p, front, look, back, rfl, looks, st, hst, deletes⟩ := h.fell _ fallen
      exact inTime ⟨p, _, front, look, back ++ [_], by simp, looks,
        ⟨st, List.mem_append_left _ hst, deletes⟩, _, List.mem_append_right _ last, inserts⟩
    · obtain ⟨⟨draw, label⟩, ⟨removal, at_removed, -⟩, -⟩ := deletes
      obtain ⟨q, draw', input, created, label', at_inserted, -⟩ := inserts
      obtain ⟨rfl, -⟩ := Label.step.inj (label.symm.trans label')
      cases at_removed.symm.trans at_inserted

theorem Orderly.step (h : Orderly tr s) (prepared : ∀ p, (s.phase p).Prepared s.db)
    (next : board.next s a = some s') (inTime : ¬ Overtaken (tr ++ [⟨s, a, s'⟩])) :
    Orderly (tr ++ [⟨s, a, s'⟩]) s' where
  cascaded := cascaded_step h prepared next inTime
  looked p removal opened := looked_step h next opened
  fell k deleted := by
    rcases deleted_of_next prepared next deleted with fallen | ⟨p, deletes⟩
    · exact (h.fell k fallen).concat
    · obtain ⟨-, ⟨removal, at_removed, onPost⟩, -⟩ := id deletes
      obtain ⟨front, look, back, rfl, looks, -⟩ := h.looked p removal (by rw [at_removed]; rfl)
      exact ⟨p, front, look, back ++ [_], by simp, onPost ▸ looks, _,
        List.mem_concat_self, deletes⟩

theorem Orderly.of_start (h : board.start s) : Orderly [] s where
  cascaded c hc := by simp [h.2.1] at hc
  looked p removal opened := by
    rw [h.2.2.2.2.2] at opened
    cases opened
  fell k deleted := by
    obtain ⟨r, hr, -⟩ := deleted
    simp [h.1] at hr

theorem Overtaken.append {tr' : List (Step State Label)} (h : Overtaken tr) :
    Overtaken (tr ++ tr') := by
  obtain ⟨p, k, front, look, back, rfl, looks, ⟨st, hst, deletes⟩, st', hst', inserts⟩ := h
  exact ⟨p, k, front, look, back ++ tr', by simp, looks, ⟨st, List.mem_append_left _ hst, deletes⟩,
    st', List.mem_append_left _ hst', inserts⟩

theorem Orderly.of_run {C : State → Label → Prop} (init : board.start s) (run : board.Run C s tr s')
    (inTime : ¬ Overtaken tr) : Orderly tr s' := by
  induction run with
  | refl => exact of_start init
  | snoc run _ next ih =>
    exact (ih fun overtaken => inTime overtaken.append).step (prepared_of_run init run) next inTime

end invariant

/-- In a run in which no comment is committed on a post after the `DeletePost` that deletes it has
started its `UPDATE` of the comments, every comment of a deleted post is deleted. -/
theorem comments_deleted {s₀ s : State} {tr : List (Step State Label)} (init : board.start s₀)
    (run : board.Run Any s₀ tr s) (inTime : ¬ Overtaken tr) : s.db.Cascaded :=
  (Orderly.of_run init run inTime).cascaded

/-! ## Computed runs -/

/-- The process has not begun, or has ended. -/
def Phase.ended : Phase → Bool
  | idle => true
  | done _ => true
  | _ => false

/-- No request is in flight. -/
def State.Quiet (s : State) : Prop := ∀ p, (s.phase p).ended

/-- Only the processes below `n` have begun. -/
def Few (n : ℕ) (s : State) : Prop := ∀ p : ℕ, n ≤ p → s.phase p = .idle

/-- The label is about a process below `n`. -/
def under (n : ℕ) (_ : State) (a : Label) : Bool := a.pid.all (· < n)

theorem few_of_next {n : ℕ} {s s' : State} {a : Label} (few : Few n s) (h : under n s a = true)
    (next : board.next s a = some s') : Few n s' := by
  intro p hp
  rw [Moves.phase_of_ne next, few p hp]
  intro mine
  simp only [under, mine, Option.all_some, decide_eq_true_eq] at h
  exact absurd h (Nat.not_lt.2 hp)

/-- A comment that is inserted before the post is deleted, and committed after that. -/
theorem comment_stays : ∃ tr s, board.Run Any ours tr s ∧ s.Quiet ∧ ¬ s.db.Cascaded := by
  have computed : (board.exec (under 3) ours
      (serve 0 (.createPost ⟨some 9, 1, none, "a", "x"⟩) 5 5 ++
        serve 1 (.createComment ⟨some 9, 5, "c"⟩) 3 7 ++ serve 2 (.deletePost ⟨some 9, 5⟩) 8 0 ++
        [take 1 0, take 1 0, take 1 0])).map (fun s =>
          ((s.phase 0).ended && (s.phase 1).ended && (s.phase 2).ended, s.db.comments.rows,
            s.db.posts.rows)) =
      some (true, [⟨⟨7, 5, 9, "c", none⟩, 0⟩], [⟨⟨5, 1, 9, .free, "a", "x", some 0⟩, 0⟩]) := by
    decide
  obtain ⟨s, reached, seen⟩ := Option.map_eq_some_iff.1 computed
  obtain ⟨tr, run, -, few⟩ := exists_run_of_exec_invariant (C := Any) (I := Few 3)
    (fun _ _ _ few checked next => ⟨trivial, few_of_next few checked next⟩) (fun _ _ => rfl) reached
  simp only [Prod.mk.injEq, Bool.and_eq_true] at seen
  obtain ⟨⟨⟨zero, one⟩, two⟩, comments, posts⟩ := seen
  refine ⟨tr, s, run, fun p => ?_, fun cascaded => ?_⟩
  · match p with
    | 0 => exact zero
    | 1 => exact one
    | 2 => exact two
    | p + 3 =>
      rw [few (p + 3) (by omega)]
      rfl
  · refine cascaded ⟨⟨7, 5, 9, "c", none⟩, 0⟩ ?_ ⟨⟨⟨5, 1, 9, .free, "a", "x", some 0⟩, 0⟩, ?_, rfl, nofun⟩ rfl
    · rw [comments]
      exact List.mem_singleton_self _
    · rw [posts]
      exact List.mem_singleton_self _

/-- No comment is committed after the first removal has looked. -/
theorem not_overtaken {front back : List (Step State Label)}
    (first : ∀ st ∈ front, ∀ p k, ¬ Looks p k st) (later : ∀ st ∈ back, ∀ k, ¬ Inserts k st) :
    ¬ Overtaken (front ++ back) := by
  rintro ⟨p, k, front', look, back', split, looks, -, st, hst, inserts⟩
  rcases List.append_eq_append_iff.1 split with ⟨rest, rfl, same⟩ | ⟨rest, rfl, same⟩
  · refine later st ?_ k inserts
    rw [same]
    exact List.mem_append_right _ (List.mem_cons_of_mem _ hst)
  · rcases List.cons_eq_append_iff.1 same with ⟨rfl, rfl⟩ | ⟨rest, rfl, rfl⟩
    · exact later st (List.mem_cons_of_mem _ hst) k inserts
    · exact first look (List.mem_append_right _ List.mem_cons_self) p k looks

/-- The step starts no removal. -/
def keepsClear (s : State) : Label → Bool
  | .step p _ =>
    match s.phase p with
    | .delete _ _ => false
    | _ => true
  | _ => true

/-- The step commits no comment. -/
def addsNone (s : State) : Label → Bool
  | .step p _ =>
    match s.phase p with
    | .inserted (.comment _ _) => false
    | _ => true
  | _ => true

/-- The comment is committed before the post is deleted. -/
theorem comments_deleted_in_order : ∃ tr s, board.Run Any ours tr s ∧ ¬ Overtaken tr ∧
    s.db.comments.rows.length = 1 ∧ s.db.Deleted 5 ∧ s.db.Cascaded := by
  have computed : ((board.exec keepsClear ours
      (serve 0 (.createPost ⟨some 9, 1, none, "a", "x"⟩) 5 5 ++
        serve 1 (.createComment ⟨some 9, 5, "c"⟩) 6 7)).bind fun t =>
      (board.exec addsNone t (serve 2 (.deletePost ⟨some 9, 5⟩) 8 0)).map fun s =>
        (s.db.comments.rows.length, s.db.posts.rows)) =
      some (1, [⟨⟨5, 1, 9, .free, "a", "x", some 0⟩, 0⟩]) := by
    decide
  obtain ⟨t, reached, computed⟩ := Option.bind_eq_some_iff.1 computed
  obtain ⟨s, reached', seen⟩ := Option.map_eq_some_iff.1 computed
  obtain ⟨comments, posts⟩ := Prod.mk.inj seen
  obtain ⟨front, run, -⟩ := exists_run_of_exec (fun _ _ checked => checked) reached
  obtain ⟨back, run', -⟩ := exists_run_of_exec (fun _ _ checked => checked) reached'
  have inTime : ¬ Overtaken (front ++ back) := by
    refine not_overtaken (fun st hst p k looks => ?_) fun st hst k inserts => ?_
    · have clear := run.meets_of_mem hst
      obtain ⟨⟨draw, label⟩, input, post, at_delete, -⟩ := looks
      simp [keepsClear, label, at_delete] at clear
    · have none := run'.meets_of_mem hst
      obtain ⟨p, draw, input, created, label, at_inserted, -⟩ := inserts
      simp [addsNone, label, at_inserted] at none
  have whole : board.Run Any ours (front ++ back) s :=
    (run.mono fun _ _ _ => trivial).trans (run'.mono fun _ _ _ => trivial)
  refine ⟨_, s, whole, inTime, comments, ⟨⟨⟨5, 1, 9, .free, "a", "x", some 0⟩, 0⟩, ?_, rfl, nofun⟩,
    comments_deleted ours_start whole inTime⟩
  rw [posts]
  exact List.mem_singleton_self _

end EstateServer.Posts
