import EstateServer.Posts.Parts

/-!
# Reads after a write

A read that misses the cache puts what it has found into the cache later, whatever has become of it
in the database, and no invalidation reaches what is put there afterwards (`StaleFill`): it stays
until the key is dropped again or the entry expires.  Apart from this, a read that starts after a
write has returned finds only content from after the commit of the write (`read_after_write`).

A write that has returned has dropped its keys (`dropped_of_returned`); the rest is the rule
`ReadThrough.shown_since` for the parts of the board.
-/

namespace EstateServer.Posts

open Machine Board Property

/-! ## Invalidation -/

/-- The step drops a key for the process. -/
def Drops (q : Pid) (key : Key) (st : Step State Label) : Prop :=
  (∃ draw, st.label = .step q draw) ∧
    ∃ keys result, st.pre.phase q = .invalidate (key :: keys) result

/-- In the steps after the commit of `q`, which led to the state `s`, a process puts something into
the cache, after `q` has dropped the key of the part, that had read the part before the commit. -/
def StaleFill (q : Pid) (part : Part) (s : State) (tr : List (Step State Label)) : Prop :=
  ∃ front inv back, tr = front ++ inv :: back ∧ Drops q part.key inv ∧
    ∃ st ∈ back, ∃ p, Fills st.pre st.label p ∧ (s.phase p).held part ≠ none

section invalidation

variable {C : State → Label → Prop} {s t : State} {tr tr' : List (Step State Label)} {q : Pid}
  {key : Key} {keys : List Key} {part : Part} {result : Result} {draw : Draw}

theorem StaleFill.apart {front back : List (Step State Label)} {inv : Step State Label}
    (h : ¬ StaleFill q part s (front ++ inv :: back)) (drops : Drops q part.key inv) :
    (cell part).Apart s back := by
  intro st hst p fills
  by_contra held
  exact h ⟨front, inv, back, rfl, drops, st, hst, p, fills, held⟩

/-- A key still to be dropped. -/
def Phase.owes (key : Key) : Phase → Prop
  | invalidate keys _ => key ∈ keys
  | done result => result = .aborted
  | _ => False

theorem owes_step {s s' : State} {a : Label} (next : board.next s a = some s')
    (owes : (s.phase q).owes key) : (s'.phase q).owes key ∨ Drops q key ⟨s, a, s'⟩ := by
  by_cases mine : a.pid = some q
  · cases Moves.of_next next with
    | arrive idle =>
      obtain rfl := Option.some.inj mine
      rw [idle] at owes
      cases owes
    | read reads =>
      obtain rfl := Option.some.inj mine
      generalize s.phase _ = before at reads owes
      cases reads with
      | @blank before _ looks =>
        cases before with
        | invalidate | done => cases looks
        | _ => cases owes
      | _ => cases owes
    | @drop _ draw dropped keys result at_invalidate =>
      obtain rfl := Option.some.inj mine
      rw [at_invalidate] at owes
      rcases List.mem_cons.1 owes with rfl | rest
      · exact .inr ⟨⟨draw, rfl⟩, keys, result, at_invalidate⟩
      · exact .inl (by simpa [State.enter, Phase.owes] using rest)
    | fail =>
      obtain rfl := Option.some.inj mine
      exact .inl (by simp [State.close, Phase.owes])
    | expire => cases mine
    | leases => exact .inl owes
    | createPost at_phase | createComment at_phase | update at_phase | missing at_phase
    | mark at_phase | lock at_phase | delete at_phase | setDetail at_phase | setList at_phase =>
      obtain rfl := Option.some.inj mine
      rw [at_phase] at owes
      cases owes
  · rw [Moves.phase_of_ne next mine]
    exact .inl owes

/-- A process that has returned has dropped every key that it had to drop. -/
theorem dropped_of_returned (run : board.Run C s tr t) (owes : (s.phase q).owes key)
    (returned : t.phase q = .done result) (success : result ≠ .aborted) :
    ∃ front inv back, tr = front ++ inv :: back ∧ Drops q key inv := by
  have kept : (t.phase q).owes key ∨ ∃ st ∈ tr, Drops q key st := by
    refine run.trace_invariant
      (I := fun tr t => (t.phase q).owes key ∨ ∃ st ∈ tr, Drops q key st) ?_ (.inl owes)
    rintro tr s a t (owes | ⟨st, hst, drops⟩) - next
    · exact (owes_step next owes).imp_right fun drops =>
        ⟨_, List.mem_concat_self, drops⟩
    · exact .inr ⟨st, List.mem_append_left _ hst, drops⟩
  rcases kept with owes | ⟨st, hst, drops⟩
  · rw [returned] at owes
    exact absurd owes success
  · obtain ⟨front, back, rfl⟩ := List.append_of_mem hst
    exact ⟨front, st, back, rfl, drops⟩

/-- The commit of a write leaves its keys to be dropped. -/
theorem owes_of_commit (writes : (s.phase q).keys = some keys)
    (commit : board.next s (.step q draw) = some t) (mem : key ∈ keys) : (t.phase q).owes key := by
  cases Moves.of_next commit with
  | read reads =>
    generalize s.phase q = before at reads writes
    cases reads with
    | @blank before _ looks =>
      cases before with
      | inserted | update | removed => cases looks
      | _ => cases writes
    | _ => cases writes
  | missing => simp [State.enter, Phase.owes]
  | createPost at_phase | createComment at_phase | update at_phase =>
    rw [at_phase] at writes
    obtain rfl := Option.some.inj writes
    simpa [State.enter, Phase.owes] using mem
  | delete at_phase =>
    rw [at_phase] at writes
    obtain rfl := Option.some.inj writes
    simpa [State.close, Phase.owes] using mem
  | mark at_phase | lock at_phase | drop at_phase | setDetail at_phase | setList at_phase =>
    rw [at_phase] at writes
    cases writes
  | leases other => exact absurd rfl (other q draw)

theorem cached_of_drops {st : Step State Label} (drops : Drops q part.key st)
    (next : board.next st.pre st.label = some st.post) : (cell part).cached st.post = none := by
  obtain ⟨⟨draw, label⟩, keys, result, at_invalidate⟩ := drops
  rw [label] at next
  have after : { st.pre with cache := st.pre.cache.drop part.key }.enter q (.invalidate keys result) =
      st.post := by
    have step : (st.pre.phase q).step st.pre q draw = some st.post := next
    rw [at_invalidate] at step
    exact Option.some.inj step
  rw [← after]
  show (st.pre.cache.drop part.key).tells part = none
  unfold BoardCache.tells
  cases part.key <;> simp [BoardCache.drop]

end invalidation

/-! ## Reads after the commit -/

section reads

variable {c d u : State} {tr tr₁ tr₂ : List (Step State Label)} {q r : Pid} {part : Part}
  {key : Key} {result : Result} {k : PostId}

/-- The part was dropped on the way from the commit `c` to `d`, and no stale fill comes after. -/
def Dropped (part : Part) (c : State) (tr₁ tr₂ : List (Step State Label)) (d : State) : Prop :=
  ∃ front back u, tr₁ = front ++ back ∧ board.Run Any c front u ∧
    (cell part).cached u = none ∧ board.Run Any u back d ∧ (cell part).Apart c (back ++ tr₂)

theorem Dropped.of_returned (between : board.Run Any c tr₁ d) (owes : (c.phase q).owes part.key)
    (returned : d.phase q = .done result) (success : result ≠ .aborted)
    (fresh : ¬ StaleFill q part c (tr₁ ++ tr₂)) : Dropped part c tr₁ tr₂ d := by
  obtain ⟨front, inv, back, rfl, drops⟩ := dropped_of_returned between owes returned success
  have next := between.next_of_mem (List.mem_append_right _ List.mem_cons_self)
  obtain ⟨left, right⟩ := between.split
  have fresh : ¬ StaleFill q part c (front ++ inv :: (back ++ tr₂)) := by simpa using fresh
  exact ⟨front ++ [inv], back, inv.post, by simp, .snoc left trivial next,
    cached_of_drops drops next, right, StaleFill.apart fresh drops⟩

/-- What a process shows, that starts after the write has returned, is from after the commit. -/
theorem Dropped.shown {content : Content} (h : Dropped part c tr₁ tr₂ d)
    (idle : (d.phase r).shown part = none) (after : board.Run Any d tr₂ u)
    (shown : (u.phase r).shown part = some content) : content ∈ Since part.value c (tr₁ ++ tr₂) := by
  obtain ⟨front, back, u, rfl, left, dropped, right, apart⟩ := h
  rw [List.append_assoc]
  exact (cell part).shown_since left dropped right idle after apart shown

/-- What the cache has after the write has returned, is from after the commit. -/
theorem Dropped.cached {content : Content} (h : Dropped part c tr₁ tr₂ d)
    (after : board.Run Any d tr₂ u) (cached : u.cache.tells part = some content) :
    content ∈ Since part.value c (tr₁ ++ tr₂) := by
  obtain ⟨front, back, u, rfl, left, dropped, right, apart⟩ := h
  rw [List.append_assoc]
  exact (cell part).cached_since left dropped (right.trans after) apart cached

theorem Dropped.step {st : Step State Label} (h : Dropped part c tr₁ (st :: tr₂) d)
    (run : board.Run Any d [st] u) : Dropped part c (tr₁ ++ [st]) tr₂ u := by
  obtain ⟨front, back, v, rfl, left, dropped, right, apart⟩ := h
  refine ⟨front, back ++ [st], v, by simp, left, dropped, right.trans run, ?_⟩
  simpa using apart

theorem Dropped.take (h : Dropped part c tr₁ (tr₂ ++ tr) d) : Dropped part c tr₁ tr₂ d := by
  obtain ⟨front, back, u, split, left, dropped, right, apart⟩ := h
  rw [← List.append_assoc] at apart
  exact ⟨front, back, u, split, left, dropped, right, (ReadThrough.Apart.append.1 apart).1⟩

/-- The cache does not have a post that was deleted by the commit. -/
theorem Dropped.missing (h : Dropped (.body k) c tr₁ tr₂ d) (between : board.Run Any c tr₁ d)
    (after : board.Run Any d tr₂ u) (gone : c.db.Deleted k) : u.cache.detail k = none := by
  rcases found : u.cache.detail k with _ | detail
  · rfl
  · have tells : u.cache.tells (.body k) = some (.body (some detail.toPostBody)) := by
      simp only [BoardCache.tells, Part.key, found, Option.bind_some, PostDetail.tells, if_true]
    obtain ⟨_, -, v, run, -, value⟩ :=
      Since.exists_state (between.trans after) (h.cached after tells)
    rw [Part.value, (gone.grows (.of_run run)).findById] at value
    cases value

/-- What a `GetPost` of a deleted post comes to. -/
def Lost (input : GetPostInput) (phase : Phase) : Prop :=
  phase = .getPost input ∨ phase = .findPost input ∨ phase = .fails (.board .postNotFound) ∨
    phase = .done .aborted

theorem lost_step {s s' : State} {a : Label} {input : GetPostInput} (next : board.next s a = some s')
    (missing : s.cache.detail input.postId = none) (gone : s.db.Deleted input.postId)
    (lost : Lost input (s.phase r)) : Lost input (s'.phase r) := by
  by_cases mine : a.pid = some r
  · cases a with
    | arrive p request =>
      obtain rfl := Option.some.inj mine
      simp only [board, State.next, Option.ite_none_right_eq_some] at next
      simp [Lost, next.1, Phase.fails] at lost
    | step p draw =>
      obtain rfl := Option.some.inj mine
      have step : (s.phase p).step s p draw = some s' := next
      rcases lost with at_phase | at_phase | at_phase | at_phase <;> rw [at_phase] at step
      · simp only [Phase.step, Phase.read, missing, Option.map_some, Option.some.injEq] at step
        rw [← step]
        exact .inr (.inl (Function.update_self ..))
      · simp only [Phase.step, Phase.read, gone.findById, Option.map_some, Option.some.injEq] at step
        rw [← step]
        exact .inr (.inr (.inl (Function.update_self ..)))
      · cases step
      · cases step
    | fail p =>
      obtain rfl := Option.some.inj mine
      cases Moves.of_next next with
      | fail => exact .inr (.inr (.inr (Function.update_self ..)))
      | leases => exact lost
    | _ => cases mine
  · rwa [Moves.phase_of_ne next mine]

theorem Dropped.lost {input : GetPostInput} (h : Dropped (.body input.postId) c tr₁ tr₂ d)
    (between : board.Run Any c tr₁ d) (gone : c.db.Deleted input.postId)
    (after : board.Run Any d tr₂ u) (start : d.phase r = .getPost input) :
    Lost input (u.phase r) := by
  induction after with
  | refl => exact .inl start
  | snoc after _ next ih =>
    exact lost_step next (h.take.missing between after gone)
      (gone.grows (.of_run (between.trans after))) (ih h.take)

end reads

/-! ## The board after a write -/

/-- A write that commits and returns, and a read that arrives afterwards and returns. -/
structure WriteThenRead where
  start : State
  /-- The states around the commit of the write. -/
  writing : State
  written : State
  /-- The states around the arrival of the read, and when it has returned. -/
  arriving : State
  arrived : State
  last : State
  tr₀ : List (Step State Label)
  tr₁ : List (Step State Label)
  tr₂ : List (Step State Label)
  q : Pid
  draw : Draw
  /-- What the write drops from the cache, and how it ends. -/
  keys : List Key
  result : Result
  r : Pid
  request : Request
  result' : Result
  init : board.start start
  before : board.Run Any start tr₀ writing
  writes : (writing.phase q).keys = some keys
  commit : board.next writing (.step q draw) = some written
  between : board.Run Any written tr₁ arriving
  returned : arriving.phase q = .done result
  success : result ≠ .aborted
  arrives : board.next arriving (.arrive r request) = some arrived
  after : board.Run Any arrived tr₂ last
  ends : last.phase r = .done result'

namespace WriteThenRead

variable (w : WriteThenRead)

/-- The arrival of the read. -/
def arrival : Step State Label := ⟨w.arriving, .arrive w.r w.request, w.arrived⟩

/-- The steps from the commit on. -/
def steps : List (Step State Label) := w.tr₁ ++ w.arrival :: w.tr₂

def Stale (part : Part) : Prop := StaleFill w.q part w.written w.steps

variable {w} {part : Part} {content : Content} {removal : Removal}

theorem run_arrival : board.Run Any w.arriving [w.arrival] w.arrived := .single trivial w.arrives

theorem run_steps : board.Run Any w.written w.steps w.last :=
  w.between.trans (w.run_arrival.trans w.after)

theorem idle : w.arriving.phase w.r = .idle ∧
    w.arriving.enter w.r w.request.start = w.arrived := by
  have arrives := w.arrives
  simpa only [board, State.next, Option.ite_none_right_eq_some, Option.some.injEq] using arrives

theorem dropped (mem : part.key ∈ w.keys) (fresh : ¬ w.Stale part) :
    Dropped part w.written w.tr₁ (w.arrival :: w.tr₂) w.arriving :=
  .of_returned w.between (owes_of_commit w.writes w.commit mem) w.returned w.success fresh

theorem since (mem : part.key ∈ w.keys) (fresh : ¬ w.Stale part)
    (tells : w.result'.tells part = some content) : content ∈ Since part.value w.written w.steps := by
  refine (dropped mem fresh).shown (r := w.r) ?_ (w.run_arrival.trans w.after) ?_
  · rw [w.idle.1]
    rfl
  · rwa [w.ends]

theorem has (at_removed : w.writing.phase w.q = .removed removal) :
    w.writing.db.Has (removal.input.postId, removal.post.buildingId) :=
  (Located.of_run w.init w.before).phase w.q _ (by rw [at_removed]; rfl)

theorem keys_of_delete (at_removed : w.writing.phase w.q = .removed removal) :
    w.keys = [.detail removal.input.postId, .list removal.post.buildingId] := by
  have writes := w.writes
  rw [at_removed] at writes
  exact (Option.some.inj writes).symm

theorem gone (at_removed : w.writing.phase w.q = .removed removal) :
    w.written.db.Deleted removal.input.postId := by
  have commit : (w.writing.phase w.q).step w.writing w.q w.draw = some w.written := w.commit
  rw [at_removed] at commit
  rw [← Option.some.inj commit]
  exact (has at_removed).delete

/-- After a `DeletePost`, `GetPost` does not find the post. -/
theorem getPost_of_delete {input : GetPostInput} (at_removed : w.writing.phase w.q = .removed removal)
    (request : w.request = .getPost input) (same : input.postId = removal.input.postId)
    (fresh : ¬ w.Stale (.body input.postId)) :
    w.result' = .failed (.board .postNotFound) ∨ w.result' = .aborted := by
  have mem : (Part.body input.postId).key ∈ w.keys := by
    rw [keys_of_delete at_removed, Part.key, same]
    exact List.mem_cons_self
  have starts : w.arrived.phase w.r = .getPost input := by
    rw [← w.idle.2, request]
    exact Function.update_self ..
  have lost := ((dropped mem fresh).step w.run_arrival).lost (w.between.trans w.run_arrival)
    (same ▸ gone at_removed) w.after starts
  rw [w.ends] at lost
  simpa [Lost, Phase.fails] using lost

/-- After a `DeletePost`, `ListPosts` does not list the post. -/
theorem listPosts_of_delete {input : ListPostsInput} {posts : List PostSummary} {summary : PostSummary}
    (at_removed : w.writing.phase w.q = .removed removal) (returns : w.result' = .summaries input posts)
    (fresh : ¬ w.Stale (.list input.buildingId)) (mem : summary ∈ posts) :
    summary.id ≠ removal.input.postId := by
  intro same
  have tells : w.result'.tells (.list input.buildingId) = some (.list posts) := by
    rw [returns]
    exact if_pos rfl
  by_cases listed : (Part.list input.buildingId).key ∈ w.keys
  · obtain ⟨_, -, v, run, -, value⟩ := Since.exists_state w.run_steps (since listed fresh tells)
    obtain rfl := Content.list.inj value
    exact ((gone at_removed).grows (.of_run run)).summaries mem same
  · -- the list is of another building
    have run : board.Run Any w.writing (_ :: w.steps) w.last :=
      (Run.single trivial w.commit).trans w.run_steps
    have shown : (w.last.phase w.r).shown (.list input.buildingId) = some (.list posts) := by
      rw [w.ends]
      exact tells
    obtain ⟨_, _, v, -, rest, value⟩ :=
      Since.exists_state (w.before.trans run) (shown_of_run w.init (w.before.trans run) shown)
    obtain rfl := Content.list.inj value
    obtain ⟨row, hrow, building, -, rfl⟩ := mem_summaries.1 mem
    have has' : v.db.Has (removal.input.postId, input.buildingId) := ⟨row, hrow, same, building⟩
    rw [(has'.grows (.of_run rest)).unique ((has at_removed).grows (.of_run run)),
      keys_of_delete at_removed] at listed
    exact listed (List.mem_cons_of_mem _ List.mem_cons_self)

end WriteThenRead

/-- Without a stale fill, a read that starts after a write has returned finds only content from after
the commit, under the keys that the write drops; the commit changes nothing else that could be read.
After a `DeletePost`, `GetPost` does not find the post and `ListPosts` does not list it. -/
theorem read_after_write (w : WriteThenRead) :
    (∀ part content, part.key ∈ w.keys → ¬ w.Stale part → w.result'.tells part = some content →
      content ∈ Since part.value w.written w.steps) ∧
    (∀ part : Part, part.key ∉ w.keys →
      part.value w.writing = .body none ∨ part.value w.written = part.value w.writing) ∧
    ∀ removal, w.writing.phase w.q = .removed removal →
      (∀ input, w.request = .getPost input → input.postId = removal.input.postId →
        ¬ w.Stale (.body input.postId) →
        w.result' = .failed (.board .postNotFound) ∨ w.result' = .aborted) ∧
      ∀ input posts, w.result' = .summaries input posts → ¬ w.Stale (.list input.buildingId) →
        ∀ summary ∈ posts, summary.id ≠ removal.input.postId := by
  refine ⟨fun _ _ mem fresh tells => WriteThenRead.since mem fresh tells, fun _ apart => ?_,
    fun removal at_removed => ⟨fun _ request same fresh => ?_, fun _ _ returns fresh _ mem => ?_⟩⟩
  · exact value_of_apart (.of_run w.init w.before) (prepared_of_run w.init w.before w.q) w.writes
      w.commit apart
  · exact WriteThenRead.getPost_of_delete at_removed request same fresh
  · exact WriteThenRead.listPosts_of_delete at_removed returns fresh mem

/-! ## Computed runs -/

/-- The labels of a run on the board of building 1, around the commit of a write and the arrival of
a read. -/
structure Scenario where
  before : List Label
  writer : Pid
  between : List Label
  reader : Pid
  request : Request
  after : List Label

/-- The phase of the writer when the read arrives and of the reader at the end, with the keys that
the write drops and with what `f` reads off the states before the commit, at the arrival and at the
end. -/
def Scenario.exec {β : Type} (run : Scenario) (c : State → Label → Bool)
    (f : State → State → State → β) : Option (Option (List Key) × Phase × Phase × β) :=
  (board.exec (fun _ _ => true) ours run.before).bind fun writing =>
  (board.next writing (take run.writer 0)).bind fun written =>
  (board.exec c written run.between).bind fun arriving =>
  (board.next arriving (.arrive run.reader run.request)).bind fun arrived =>
  (board.exec c arrived run.after).map fun last =>
    ((writing.phase run.writer).keys, arriving.phase run.writer, last.phase run.reader,
      f writing arriving last)

theorem Scenario.exists_writeThenRead {β : Type} {run : Scenario} {c : State → Label → Bool}
    {C : State → Label → Prop} {f : State → State → State → β} {keys : List Key}
    {result result' : Result} {b : β} (hc : ∀ s a, c s a = true → C s a)
    (h : run.exec c f = some (some keys, .done result, .done result', b))
    (success : result ≠ .aborted) :
    ∃ w : WriteThenRead, (w.q = run.writer ∧ w.request = run.request ∧ w.keys = keys ∧
      w.result' = result' ∧ f w.writing w.arriving w.last = b) ∧
      board.Run C w.written w.tr₁ w.arriving ∧ board.Run C w.arrived w.tr₂ w.last := by
  obtain ⟨writing, reached, h⟩ := Option.bind_eq_some_iff.1 h
  obtain ⟨written, commit, h⟩ := Option.bind_eq_some_iff.1 h
  obtain ⟨arriving, reached', h⟩ := Option.bind_eq_some_iff.1 h
  obtain ⟨arrived, arrives, h⟩ := Option.bind_eq_some_iff.1 h
  obtain ⟨last, reached'', h⟩ := Option.map_eq_some_iff.1 h
  simp only [Prod.mk.injEq] at h
  obtain ⟨writes, returned, ends, seen⟩ := h
  obtain ⟨tr₀, before, -⟩ := exists_run_of_exec (C := Any) (fun _ _ _ => trivial) reached
  obtain ⟨tr₁, between, -⟩ := exists_run_of_exec hc reached'
  obtain ⟨tr₂, after, -⟩ := exists_run_of_exec hc reached''
  refine ⟨{ start := ours, writing, written, arriving, arrived, last, tr₀, tr₁, tr₂, q := run.writer,
            draw := ⟨0, 0⟩, keys, result, r := run.reader, request := run.request, result',
            init := ours_start, before, writes, commit, between := between.mono fun _ _ _ => trivial,
            returned, success, arrives, after := after.mono fun _ _ _ => trivial, ends },
    ⟨rfl, rfl, rfl, rfl, seen⟩, between, after⟩

/-- The post of the runs below, before it is edited. -/
def oldBody : PostBody := ⟨5, 1, .free, "a", "x", 9⟩

/-- The post says something else. -/
def Edited (s : State) (_ : Label) : Prop := (Part.body 5).value s ≠ .body (some oldBody)

instance (s : State) (a : Label) : Decidable (Edited s a) :=
  inferInstanceAs (Decidable ((Part.body 5).value s ≠ .body (some oldBody)))

/-- User 9 reads the post before it edits the title, and fills the cache after that. -/
def overtaken : Scenario where
  before := serve 0 (.createPost ⟨some 9, 1, none, "a", "x"⟩) 5 5 ++
    serve 1 (.getPost ⟨some 9, 5⟩) 4 0 ++ serve 2 (.updatePost ⟨some 9, 5, "b", "x"⟩) 1 0
  writer := 2
  between := [take 2 0, take 2 0, take 2 0, take 1 0]
  reader := 3
  request := .getPost ⟨some 9, 5⟩
  after := [take 3 0, take 3 0, take 3 0]

/-- A `GetPost` reads the post, an `UpdatePost` of its title commits and returns, and the `GetPost`
puts what it has read into the cache: the next `GetPost` returns the old title. -/
theorem old_title : ∃ w : WriteThenRead, w.request = .getPost ⟨some 9, 5⟩ ∧ Key.detail 5 ∈ w.keys ∧
    w.result' = .detail ⟨some 9, 5⟩ ⟨oldBody, []⟩ ∧
      .body (some oldBody) ∉ Since (Part.body 5).value w.written w.steps := by
  have computed : overtaken.exec (fun s a => Edited s a)
      (fun _ s t => ((Part.body 5).value s, (Part.body 5).value t)) =
      some (some [.detail 5, .list 1], .done (.post ⟨some 5, 1, 9, .free, "b", "x"⟩),
        .done (.detail ⟨some 9, 5⟩ ⟨oldBody, []⟩),
        .body (some { oldBody with title := "b" }), .body (some { oldBody with title := "b" })) := by
    decide
  obtain ⟨w, ⟨-, request, keys, returns, seen⟩, between, after⟩ :=
    Scenario.exists_writeThenRead (C := Edited) (fun _ _ => of_decide_eq_true) computed nofun
  obtain ⟨edited, edited'⟩ := Prod.mk.inj seen
  refine ⟨w, request, by rw [keys]; exact List.mem_cons_self, returns, ?_⟩
  have arrival : board.Run Edited w.arriving [w.arrival] w.arrived := by
    refine .single ?_ w.arrives
    rw [Edited, edited]
    decide
  refine Since.not_mem (between.trans (arrival.trans after)) (fun _ _ edited => edited) ?_
  rw [edited']
  decide

/-- Nothing is put into the cache. -/
def Unfilled (s : State) (a : Label) : Prop := ∀ p, ¬ Fills s a p

/-- The step does not fill the cache. -/
def spares (s : State) : Label → Bool
  | .step p _ =>
    match s.phase p with
    | .setDetail _ _ => false
    | .setList _ _ => false
    | _ => true
  | _ => true

theorem unfilled_of_spares {s : State} {a : Label} (h : spares s a = true) : Unfilled s a := by
  rintro p ⟨⟨draw, rfl⟩, ⟨input, detail, at_phase⟩ | ⟨input, posts, at_phase⟩⟩ <;>
    simp [spares, at_phase] at h

/-- User 9 reads the post, deletes it and reads it again. -/
def inOrder : Scenario where
  before := serve 0 (.createPost ⟨some 9, 1, none, "a", "x"⟩) 5 5 ++
    serve 1 (.getPost ⟨some 9, 5⟩) 5 0 ++ serve 2 (.deletePost ⟨some 9, 5⟩) 4 0
  writer := 2
  between := [take 2 0, take 2 0, take 2 0]
  reader := 3
  request := .getPost ⟨some 9, 5⟩
  after := [take 3 0, take 3 0]

/-- A post that is in the cache is deleted, and then it is not found. -/
theorem read_after_delete : ∃ w : WriteThenRead, w.writing.cache.detail 5 = some ⟨oldBody, []⟩ ∧
    w.request = .getPost ⟨some 9, 5⟩ ∧
    (w.result' = .failed (.board .postNotFound) ∨ w.result' = .aborted) := by
  have computed : inOrder.exec spares (fun s _ _ => (s.phase 2, s.cache.detail 5)) =
      some (some [.detail 5, .list 1], .done .deleted, .done (.failed (.board .postNotFound)),
        .removed ⟨⟨some 9, 5⟩, ⟨some 5, 1, 9, .free, "a", "x"⟩, 0, []⟩, some ⟨oldBody, []⟩) := by
    decide
  obtain ⟨w, ⟨writer, request, -, -, seen⟩, between, after⟩ :=
    Scenario.exists_writeThenRead (C := Unfilled) (fun _ _ => unfilled_of_spares) computed nofun
  obtain ⟨at_removed, cached⟩ := Prod.mk.inj seen
  have arrival : board.Run Unfilled w.arriving [w.arrival] w.arrived :=
    .single (unfilled_of_spares rfl) w.arrives
  have fresh : ¬ w.Stale (.body 5) := by
    rintro ⟨front, inv, back, split, -, st, hst, p, fills, -⟩
    have mem : st ∈ w.steps := by
      rw [split]
      exact List.mem_append_right _ (List.mem_cons_of_mem _ hst)
    exact (between.trans (arrival.trans after)).meets_of_mem mem p fills
  have removes := (read_after_write w).2.2 _ (by rw [writer]; exact at_removed)
  exact ⟨w, cached, request, removes.1 _ request rfl fresh⟩

end EstateServer.Posts
