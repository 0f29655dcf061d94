import EstateServer.Leases.EndLease

/-!
# A lease ends once

Two requests that have both read an active lease both end it (`ended_twice`).

`ends_once_iff`: the lease ends once exactly in the runs in which every transaction that commits
finds the row still active.  In one direction the row is still active as long as nobody has ended
the lease (`Once`); in the other a request that goes on has read an active row, and if that row is
ended by now, then somebody else has ended it (`Followed`).
-/

namespace EstateServer.Leases

open Machine Property Outbox

/-! ## The statement -/

namespace State

/-- The unit of each lease, which no request changes. -/
def places (s : State) : List (LeaseId × UnitId) := s.leases.rows.map fun row => (row.id, row.unitId)

/-- The lookups of the request find its lease, the unit and the building, and its user owns that. -/
def Entitled (s : State) (input : EndLeaseInput) : Prop :=
  ∃ unitId unit building, (input.leaseId, unitId) ∈ s.places ∧
    s.premises.findUnit unitId = some unit ∧
    s.premises.findBuilding unit.buildingId = some building ∧ building.isOwnedBy input.userId = true

/-- The process has answered a request on the lease with the ended lease. -/
def Ended (s : State) (p : Pid) (k : LeaseId) : Prop :=
  ∃ input lease, s.phase p = .done input (.lease lease) ∧ input.leaseId = k

/-- The number of `LeaseEnded` events of the lease. -/
def events (s : State) (k : LeaseId) : ℕ :=
  s.outbox.rows.countP fun event =>
    event.payload.eventType = .leaseEnded ∧ event.payload.entityId = k

end State

/-- What the lease that ends once comes to, at a step. -/
structure EndsOnce (st : Step State Label) : Prop where
  success : ∀ p q k, st.post.Ended p k → st.post.Ended q k → p = q
  others : ∀ p input failure, st.post.phase p = .done input (.failed failure) →
    st.post.Entitled input → failure = .leaseAlreadyEnded
  events : ∀ k, st.post.events k ≤ 1
  kept : ∀ row ∈ st.pre.leases.rows, ∀ endDate, row.endDate = some endDate →
    ∃ row' ∈ st.post.leases.rows, row'.id = row.id ∧ row'.endDate = some endDate
  agree : ∀ event ∈ st.post.outbox.rows, ∃ row ∈ st.post.leases.rows,
    row.id = event.payload.entityId ∧ event.payload.payload.endedAt = row.endDate ∧
      row.endDate ≠ none

/-- A transaction that commits finds the row still active. -/
def OnActive (s : State) (a : Label) : Prop :=
  ∀ p draw input saved draw', a = .step p draw → s.phase p = .queued input saved draw' →
    ∃ row ∈ s.leases.rows, row.id = saved.id ∧ row.status = .active

/-! ## What a phase knows -/

/-- The row that the transaction of the request writes. -/
def EndLeaseInput.Ends (input : EndLeaseInput) (saved : LeaseRow) : Prop :=
  saved.id = input.leaseId ∧ saved.status = .ended ∧ saved.endDate ≠ none

def Phase.Known (s : State) : Phase → Prop
  | findUnit input lease => lease.id = some input.leaseId ∧ (input.leaseId, lease.unitId) ∈ s.places
  | findBuilding input lease unit =>
    lease.id = some input.leaseId ∧ (input.leaseId, lease.unitId) ∈ s.places ∧
      s.premises.findUnit lease.unitId = some unit
  | update input ended =>
    ended.id = some input.leaseId ∧ ended.status = .ended ∧ ended.endedAt ≠ none
  | updated input saved => input.Ends saved
  | queued input saved _ => input.Ends saved
  | done input (.failed failure) => s.Entitled input → failure = .leaseAlreadyEnded
  | _ => True

variable {s s' s₀ : State} {a : Label} {phase : Phase} {tr : List (Step State Label)} {k : LeaseId}

theorem mem_places {unitId : UnitId} :
    (k, unitId) ∈ s.places ↔ ∃ row ∈ s.leases.rows, row.id = k ∧ row.unitId = unitId := by
  simp only [State.places, List.mem_map, Prod.mk.injEq]

theorem place_unique {unitId unitId' : UnitId} (h : (k, unitId) ∈ s.places)
    (h' : (k, unitId') ∈ s.places) : unitId = unitId' := by
  obtain ⟨row, hrow, rfl, rfl⟩ := mem_places.1 h
  obtain ⟨row', hrow', same, rfl⟩ := mem_places.1 h'
  rw [s.leases.unique.eq_of_mem hrow' hrow same]

theorem findLease_eq_some {lease : Lease} (h : s.findLease k = some lease) :
    ∃ row ∈ s.leases.rows, row.id = k ∧ row.toDomain = lease := by
  obtain ⟨row, found, rfl⟩ := Option.map_eq_some_iff.1 h
  obtain ⟨hrow, rfl⟩ := s.leases.unique.find?_iff.1 found
  exact ⟨row, hrow, rfl, rfl⟩

theorem findLease_eq_none (h : s.findLease k = none) : ∀ row ∈ s.leases.rows, row.id ≠ k := by
  intro row hrow same
  simpa [same] using List.find?_eq_none.1 (Option.map_eq_none_iff.1 h) row hrow

theorem Phase.Known.congr (h : phase.Known s) (premises : s'.premises = s.premises)
    (places : s'.places = s.places) : phase.Known s' := by
  cases phase with
  | done input result =>
    cases result with
    | failed failure =>
      simp only [Known, State.Entitled] at h ⊢
      rwa [premises, places]
    | _ => trivial
  | findUnit => simpa only [Known, places] using h
  | findBuilding => simpa only [Known, places, premises] using h
  | _ => exact h

theorem Reads.known {draw : Draw} {before after : Phase} (reads : Reads s draw before after)
    (known : before.Known s) : after.Known s := by
  cases reads with
  | noLease missing =>
    rintro ⟨unitId, -, -, place, -⟩
    obtain ⟨row, hrow, same, -⟩ := mem_places.1 place
    exact absurd same (findLease_eq_none missing row hrow)
  | lease found =>
    obtain ⟨row, hrow, same, rfl⟩ := findLease_eq_some found
    exact ⟨congrArg some same, mem_places.2 ⟨row, hrow, same, rfl⟩⟩
  | noUnit missing =>
    rintro ⟨unitId, unit, -, place, found, -⟩
    rw [place_unique place known.2, missing] at found
    cases found
  | unit found => exact ⟨known.1, known.2, found⟩
  | notOwner not =>
    rintro ⟨unitId, unit, building, place, found, here, owned⟩
    rw [place_unique place known.2.1, known.2.2] at found
    obtain rfl := Option.some.inj found
    rw [not building here] at owned
    cases owned
  | ended => exact fun _ => rfl
  | active => exact ⟨known.1, rfl, by simp⟩
  | queue => exact known

theorem places_saves {saved : LeaseRow} :
    (s.saves saved).rows.map (fun row => (row.id, row.unitId)) = s.places :=
  Table.map_updateMany fun _ => rfl

theorem Moves.premises (moves : Moves s a s') : s'.premises = s.premises := by
  cases moves <;> rfl

theorem Moves.places (moves : Moves s a s') : s'.places = s.places := by
  cases moves with
  | commit => exact places_saves
  | _ => rfl

theorem Moves.known (moves : Moves s a s') (h : ∀ p, (s.phase p).Known s) :
    ∀ p, (s'.phase p).Known s' := by
  suffices known : ∀ p, (s'.phase p).Known s from
    fun p => (known p).congr moves.premises moves.places
  have enters : ∀ q phase, phase.Known s → ∀ p, (Function.update s.phase q phase p).Known s :=
    fun _ _ known => (Function.forall_update_iff s.phase fun _ phase => phase.Known s).2
      ⟨known, fun p _ => h p⟩
  cases moves with
  | @read q _ _ reads => exact enters _ _ (reads.known (h q))
  | @update q _ input ended row at_update _ id =>
    have known := h q
    rw [at_update] at known
    exact enters _ _ ⟨Option.some.inj (id.trans known.1), known.2⟩
  | arrive | missing | commit | fail => exact enters _ _ trivial

theorem ends_of_queued {p : Pid} {input : EndLeaseInput} {saved : LeaseRow} {draw : Draw}
    (known : ∀ p, (s.phase p).Known s) (at_queued : s.phase p = .queued input saved draw) :
    input.Ends saved := by
  have now := known p
  rwa [at_queued] at now

/-! ## What a step changes -/

theorem Phase.not_ended {p : Pid} (h : ∀ input result, s.phase p ≠ .done input result) :
    ¬ s.Ended p k :=
  fun ⟨input, _, answered, _⟩ => h input _ answered

/-- A process that has not ended goes to another phase. -/
theorem ended_of_moved {p q : Pid} (moved : s'.phase = Function.update s.phase p phase)
    (before : ¬ s.Ended p k) :
    s'.Ended q k ↔ s.Ended q k ∨ q = p ∧ ∃ input lease, phase = .done input (.lease lease) ∧
      input.leaseId = k := by
  unfold State.Ended at before ⊢
  rw [moved]
  rcases eq_or_ne q p with rfl | other
  · simp only [Function.update_self, before, true_and, false_or]
  · simp only [Function.update_of_ne other, other, false_and, or_false]

/-- What a step changes: nothing that matters here, or it commits. -/
inductive Effect (s : State) : Label → State → Prop
  | quiet {a : Label} {s' : State} (leases : s'.leases = s.leases) (outbox : s'.outbox = s.outbox)
      (uncommitted : ∀ p draw input saved draw', a = .step p draw →
        s.phase p ≠ .queued input saved draw')
      (ended : ∀ q k, s'.Ended q k ↔ s.Ended q k) : Effect s a s'
  | commit {p : Pid} {draw draw' : Draw} {input : EndLeaseInput} {saved : LeaseRow} {s' : State}
      (at_queued : s.phase p = .queued input saved draw') (leases : s'.leases = s.saves saved)
      (outbox : s'.outbox.rows = s.outbox.rows ++ [eventRow input saved draw'])
      (ended : ∀ q k, s'.Ended q k ↔ s.Ended q k ∨ q = p ∧ input.leaseId = k) :
      Effect s (.step p draw) s'

theorem Effect.of_moved {p : Pid} (leases : s'.leases = s.leases) (outbox : s'.outbox = s.outbox)
    (moved : s'.phase = Function.update s.phase p phase)
    (uncommitted : ∀ p draw input saved draw', a = .step p draw →
      s.phase p ≠ .queued input saved draw')
    (before : ∀ input result, s.phase p ≠ .done input result)
    (after : ∀ input lease, phase ≠ .done input (.lease lease)) : Effect s a s' := by
  refine .quiet leases outbox uncommitted fun q k => ?_
  rw [ended_of_moved moved (Phase.not_ended before)]
  simp [after]

theorem Reads.unended {draw : Draw} {before after : Phase} (reads : Reads s draw before after) :
    (∀ input saved draw', before ≠ .queued input saved draw') ∧
      (∀ input result, before ≠ .done input result) ∧
      ∀ input lease, after ≠ .done input (.lease lease) := by
  cases reads <;> simp

theorem Moves.effect (moves : Moves s a s') : Effect s a s' := by
  cases moves with
  | arrive idle => exact .of_moved rfl rfl rfl (by simp) (by simp [idle]) (by simp)
  | read reads =>
    obtain ⟨uncommitted, before, after⟩ := reads.unended
    refine .of_moved rfl rfl rfl ?_ before after
    rintro _ _ input saved draw' ⟨rfl, rfl⟩
    exact uncommitted input saved draw'
  | missing at_update =>
    refine .of_moved rfl rfl rfl ?_ (by simp [at_update]) (by simp)
    rintro _ _ input saved draw' ⟨rfl, rfl⟩
    simp [at_update]
  | update at_update =>
    refine .of_moved rfl rfl rfl ?_ (by simp [at_update]) (by simp)
    rintro _ _ input saved draw' ⟨rfl, rfl⟩
    simp [at_update]
  | commit at_queued added =>
    refine .commit at_queued rfl added fun q k => ?_
    rw [ended_of_moved (s := s) rfl (Phase.not_ended (by simp [at_queued]))]
    simp
  | fail undone => exact .of_moved rfl rfl rfl (by simp) undone (by simp)

theorem events_of_append {event : OutboxEvent LeaseEnded}
    (outbox : s'.outbox.rows = s.outbox.rows ++ [event])
    (type : event.payload.eventType = .leaseEnded) :
    s'.events k = s.events k + if event.payload.entityId = k then 1 else 0 := by
  simp [State.events, outbox, List.countP_append, List.countP_singleton, type]

/-- The rows after a commit. -/
theorem mem_saves {saved row : LeaseRow} :
    row ∈ (s.saves saved).rows ↔ ∃ row₀ ∈ s.leases.rows,
      row = if row₀.id = saved.id then
        { row₀ with status := saved.status, endDate := saved.endDate } else row₀ := by
  simp only [State.saves, Table.Keyed.update, Table.mem_updateMany, decide_eq_true_eq,
    eq_comm (b := row)]

theorem mem_saves_of_ne {saved row : LeaseRow} (h : row ∈ s.leases.rows) (apart : row.id ≠ saved.id) :
    row ∈ (s.saves saved).rows :=
  mem_saves.2 ⟨row, h, (if_neg apart).symm⟩

/-! ## Commits on an active row -/

/-- An active lease has not been ended by anybody, and nothing is ended twice. -/
structure Once (s : State) : Prop where
  known : ∀ p, (s.phase p).Known s
  active : ∀ row ∈ s.leases.rows, row.status = .active →
    row.endDate = none ∧ s.events row.id = 0 ∧ ∀ p, ¬ s.Ended p row.id
  success : ∀ p q k, s.Ended p k → s.Ended q k → p = q
  events : ∀ k, s.events k ≤ 1
  agree : ∀ event ∈ s.outbox.rows, ∃ row ∈ s.leases.rows, row.id = event.payload.entityId ∧
    event.payload.payload.endedAt = row.endDate ∧ row.endDate ≠ none

namespace Once

/-- A lease with an end is not the active one. -/
theorem apart (h : Once s) {row old : LeaseRow} (hrow : row ∈ s.leases.rows)
    (dated : row.endDate ≠ none) (hold : old ∈ s.leases.rows) (active : old.status = .active) :
    row.id ≠ old.id := by
  intro clash
  obtain rfl := s.leases.unique.eq_of_mem hrow hold clash
  exact dated (h.active row hrow active).1

/-- A commit on an active row. -/
theorem of_commit {p : Pid} {draw : Draw} {input : EndLeaseInput} {saved old : LeaseRow} (h : Once s)
    (known : ∀ p, (s'.phase p).Known s') (hold : old ∈ s.leases.rows) (same : old.id = saved.id)
    (active : old.status = .active) (at_queued : s.phase p = .queued input saved draw)
    (leases : s'.leases = s.saves saved)
    (outbox : s'.outbox.rows = s.outbox.rows ++ [eventRow input saved draw])
    (ended : ∀ q k, s'.Ended q k ↔ s.Ended q k ∨ q = p ∧ input.leaseId = k) : Once s' := by
  obtain ⟨-, unsent, unended⟩ := h.active old hold active
  obtain ⟨id, status, endDate⟩ := ends_of_queued h.known at_queued
  have count : ∀ k, s'.events k = s.events k + if saved.id = k then 1 else 0 := fun k =>
    events_of_append outbox rfl
  rw [same] at unsent unended
  refine ⟨known, ?_, ?_, ?_, ?_⟩
  · intro row hrow still
    rw [leases] at hrow
    obtain ⟨row₀, hrow₀, rfl⟩ := mem_saves.1 hrow
    split_ifs at still ⊢ with this
    · rw [status] at still
      cases still
    · obtain ⟨undated, unsent, running⟩ := h.active row₀ hrow₀ still
      refine ⟨undated, ?_, fun q => ?_⟩
      · rw [count, unsent, if_neg fun here => this here.symm]
      · rw [ended, ← id]
        rintro (other | ⟨-, here⟩)
        · exact running q other
        · exact this here.symm
  · intro q q' k first second
    rw [ended, ← id] at first second
    rcases first with first | ⟨rfl, rfl⟩ <;> rcases second with second | ⟨rfl, here⟩
    · exact h.success q q' k first second
    · exact absurd (here ▸ first) (unended q)
    · exact absurd second (unended q')
    · rfl
  · intro k
    rw [count]
    split_ifs with this
    · simp only [← this, unsent, Nat.zero_add, Nat.le_refl]
    · exact h.events k
  · intro event hevent
    rw [outbox] at hevent
    rw [leases]
    rcases List.mem_append.1 hevent with hevent | hevent
    · obtain ⟨row, hrow, entity, agree, dated⟩ := h.agree event hevent
      have apart := h.apart hrow dated hold active
      exact ⟨row, mem_saves_of_ne hrow (same ▸ apart), entity, agree, dated⟩
    · obtain rfl := List.mem_singleton.1 hevent
      exact ⟨_, mem_saves.2 ⟨old, hold, (if_pos same).symm⟩, same, rfl, endDate⟩

theorem of_moves (h : Once s) (calm : OnActive s a) (moves : Moves s a s') : Once s' := by
  have known := moves.known h.known
  cases moves.effect with
  | quiet leases outbox _ ended =>
    have count : ∀ k, s'.events k = s.events k := fun k => by simp only [State.events, outbox]
    refine ⟨known, ?_, ?_, ?_, ?_⟩
    · simpa only [leases, count, ended] using h.active
    · simpa only [ended] using h.success
    · simpa only [count] using h.events
    · simpa only [leases, outbox] using h.agree
  | @commit p draw draw' input saved _ at_queued leases outbox ended =>
    obtain ⟨old, hold, same, active⟩ := calm p draw input saved draw' rfl at_queued
    exact h.of_commit known hold same active at_queued leases outbox ended

/-- A step on an active row keeps what `EndsOnce` says. -/
theorem endsOnce (h : Once s) (calm : OnActive s a) (moves : Moves s a s') : EndsOnce ⟨s, a, s'⟩ := by
  obtain ⟨known, -, success, events, agree⟩ := h.of_moves calm moves
  refine ⟨success, fun p input failure answered => ?_, events, fun row hrow endDate dated => ?_, agree⟩
  · have now := known p
    rwa [answered] at now
  · show ∃ row' ∈ s'.leases.rows, _
    cases moves.effect with
    | quiet leases => exact ⟨row, leases ▸ hrow, rfl, dated⟩
    | @commit p draw draw' input saved _ at_queued leases =>
      obtain ⟨old, hold, same, active⟩ := calm p draw input saved draw' rfl at_queued
      have apart := h.apart hrow (by simp [dated]) hold active
      exact ⟨row, leases ▸ mem_saves_of_ne hrow (same ▸ apart), rfl, dated⟩

end Once

/-! ## Requests that go on -/

/-- The lease that a request has read as active. -/
def Phase.onActive : Phase → Option LeaseId
  | findUnit input lease => if lease.status = .active then some input.leaseId else none
  | findBuilding input lease _ => if lease.status = .active then some input.leaseId else none
  | update input _ => some input.leaseId
  | updated input _ => some input.leaseId
  | queued input _ _ => some input.leaseId
  | _ => none

/-- Where a request has read an active lease, the row is still active or somebody has ended it. -/
def Followed (s : State) : Prop :=
  ∀ p k, (s.phase p).onActive = some k →
    (∃ row ∈ s.leases.rows, row.id = k ∧ row.status = .active) ∨ ∃ q, s.Ended q k

theorem Reads.onActive {draw : Draw} {before after : Phase} (reads : Reads s draw before after)
    (h : after.onActive = some k) :
    before.onActive = some k ∨ ∃ row ∈ s.leases.rows, row.id = k ∧ row.status = .active := by
  cases reads with
  | lease found =>
    obtain ⟨row, hrow, same, rfl⟩ := findLease_eq_some found
    simp only [Phase.onActive, Option.ite_none_right_eq_some, Option.some.injEq] at h
    exact .inr ⟨row, hrow, same.trans h.2, h.1⟩
  | active active =>
    refine .inl ?_
    simpa only [Phase.onActive, active, if_true] using h
  | unit => exact .inl h
  | queue => exact .inl h
  | _ => cases h

theorem Moves.onActive (moves : Moves s a s') : ∀ p k, (s'.phase p).onActive = some k →
    (s.phase p).onActive = some k ∨ ∃ row ∈ s.leases.rows, row.id = k ∧ row.status = .active := by
  have enters : ∀ q phase, (∀ k, phase.onActive = some k → (s.phase q).onActive = some k ∨
      ∃ row ∈ s.leases.rows, row.id = k ∧ row.status = .active) →
      ∀ p k, (Function.update s.phase q phase p).onActive = some k →
        (s.phase p).onActive = some k ∨ ∃ row ∈ s.leases.rows, row.id = k ∧ row.status = .active :=
    fun q _ here => (Function.forall_update_iff s.phase fun p phase => ∀ k, phase.onActive = some k →
      (s.phase p).onActive = some k ∨ ∃ row ∈ s.leases.rows, row.id = k ∧ row.status = .active).2
        ⟨here, fun _ _ _ held => .inl held⟩
  cases moves with
  | read reads => exact enters _ _ fun _ => reads.onActive
  | update at_update => exact enters _ _ fun _ held => .inl (by rw [at_update]; exact held)
  | _ => exact enters _ _ fun _ held => nomatch held

theorem Followed.of_moves (h : Followed s) (known : ∀ p, (s.phase p).Known s) (moves : Moves s a s') :
    Followed s' := by
  intro p k reading
  have before : (∃ row ∈ s.leases.rows, row.id = k ∧ row.status = .active) ∨ ∃ q, s.Ended q k := by
    rcases moves.onActive p k reading with reading | active
    · exact h p k reading
    · exact .inl active
  cases moves.effect with
  | quiet leases _ _ ended => simpa only [leases, ended] using before
  | @commit q draw draw' input saved _ at_queued leases _ ended =>
    obtain ⟨id, -⟩ := ends_of_queued known at_queued
    rcases before with ⟨row, hrow, rfl, active⟩ | ⟨q', other⟩
    · rcases eq_or_ne row.id saved.id with same | apart
      · exact .inr ⟨q, (ended _ _).2 (.inr ⟨rfl, id.symm.trans same.symm⟩)⟩
      · exact .inl ⟨row, leases ▸ mem_saves_of_ne hrow apart, rfl, active⟩
    · exact .inr ⟨q', (ended _ _).2 (.inl other)⟩

/-- A commit that leaves one success has met an active row. -/
theorem Followed.active_of_success (h : Followed s) (known : ∀ p, (s.phase p).Known s)
    (moves : Moves s a s') (success : ∀ p q k, s'.Ended p k → s'.Ended q k → p = q) : OnActive s a := by
  cases moves.effect with
  | quiet _ _ uncommitted =>
    intro p draw input saved draw' label at_queued
    exact absurd at_queued (uncommitted p draw input saved draw' label)
  | @commit p draw draw' input saved _ at_queued _ _ ended =>
    rintro _ _ input saved draw' ⟨rfl, rfl⟩ at_queued'
    rw [at_queued] at at_queued'
    obtain ⟨rfl, rfl, rfl⟩ := Phase.queued.inj at_queued'
    obtain ⟨id, -⟩ := ends_of_queued known at_queued
    rcases h p input.leaseId (by rw [at_queued]; rfl) with active | ⟨q, before⟩
    · rwa [id]
    · obtain rfl := success q p input.leaseId ((ended _ _).2 (.inl before))
        ((ended _ _).2 (.inr ⟨rfl, rfl⟩))
      exact absurd before (Phase.not_ended (by simp [at_queued]))

/-! ## Runs -/

theorem once_of_start (init : endings.start s) : Once s := by
  obtain ⟨undated, unsent, -, idle⟩ := init
  have unended : ∀ p k, ¬ s.Ended p k := fun p k => Phase.not_ended (by simp [idle])
  have none : ∀ k, s.events k = 0 := fun k => by simp [State.events, unsent]
  refine ⟨fun p => ?_, fun row hrow active => ?_, fun p q k first => ?_, fun k => ?_, ?_⟩
  · rw [idle]
    trivial
  · exact ⟨undated row hrow active, none _, fun p => unended p _⟩
  · exact absurd first (unended p k)
  · rw [none]
    exact Nat.zero_le 1
  · simp [unsent]

theorem followed_of_start (init : endings.start s) : Followed s := by
  intro p k reading
  rw [init.2.2.2] at reading
  cases reading

/-- The lease ends once exactly where every transaction that commits finds the row still active. -/
theorem ends_once_iff (init : endings.start s₀) (run : endings.Run Any s₀ tr s) :
    (∀ st ∈ tr, OnActive st.pre st.label) ↔ ∀ st ∈ tr, EndsOnce st := by
  constructor
  · intro calm st mem
    have run := run.restrict calm
    have once : Once st.pre := run.invariant_of_mem
      (fun _ _ _ h calm next => h.of_moves calm (.of_next next)) (once_of_start init) mem
    exact once.endsOnce (calm st mem) (.of_next (run.next_of_mem mem))
  · intro ends st mem
    have before : (∀ p, (st.pre.phase p).Known st.pre) ∧ Followed st.pre := run.invariant_of_mem
      (I := fun s => (∀ p, (s.phase p).Known s) ∧ Followed s)
      (fun _ _ _ h _ next => ⟨(Moves.of_next next).known h.1, h.2.of_moves h.1 (.of_next next)⟩)
      ⟨(once_of_start init).known, followed_of_start init⟩ mem
    exact before.2.active_of_success before.1 (.of_next (run.next_of_mem mem)) (ends st mem).success

/-! ## Two requests for one lease -/

/-- User 1 owns building 2 with unit 3, and the lease 4 of user 5 is active. -/
def rented : State where
  premises := ⟨[⟨⟨2, 1⟩, "building", none⟩], [⟨⟨3, 2⟩, "unit", none⟩]⟩
  leases := ⟨[⟨4, 3, 5, .active, none⟩], List.nodup_singleton _⟩
  outbox := ⟨[], List.nodup_nil, List.nodup_nil⟩
  leaseLock := .free
  phase _ := .idle

theorem rented_start : endings.start rented := ⟨by simp [rented], rfl, rfl, rfl⟩

/-- The lookups of a request of user 1. -/
def lookUp (p : Pid) (now : Instant) : List Label :=
  .arrive p ⟨some 1, 4⟩ :: List.replicate 3 (.step p ⟨0, 0, now, []⟩)

/-- Its transaction. -/
def save (p : Pid) (id : ℕ) : List Label := List.replicate 3 (.step p ⟨id, id, 0, []⟩)

/-- `OnActive`, computed. -/
def onActive (s : State) : Label → Bool
  | .step p _ =>
    match s.phase p with
    | .queued _ saved _ => s.leases.rows.any fun row => row.id = saved.id ∧ row.status = .active
    | _ => true
  | _ => true

theorem onActive_of_checked (s : State) (a : Label) (h : onActive s a = true) : OnActive s a := by
  rintro p draw input saved draw' rfl at_queued
  simpa [onActive, at_queued] using h

/-- The second request reads the lease after the first has ended it. -/
theorem ended_in_order : ∃ tr s, endings.Run Any rented tr s ∧
    s.phase 1 = .done ⟨some 1, 4⟩ (.failed .leaseAlreadyEnded) ∧ s.events 4 = 1 ∧
    ∀ st ∈ tr, EndsOnce st := by
  have computed : (endings.exec onActive rented (lookUp 0 100 ++ save 0 8 ++ lookUp 1 200)).map
      (fun s => (s.phase 1, s.events 4)) =
      some (.done ⟨some 1, 4⟩ (.failed .leaseAlreadyEnded), 1) := by
    decide
  obtain ⟨s, reached, seen⟩ := Option.map_eq_some_iff.1 computed
  obtain ⟨tr, run, -⟩ := exists_run_of_exec (C := OnActive) onActive_of_checked reached
  obtain ⟨answer, events⟩ := Prod.mk.inj seen
  have all : endings.Run Any rented tr s := run.mono fun _ _ _ => trivial
  exact ⟨tr, s, all, answer, events,
    (ends_once_iff rented_start all).1 fun _ mem => run.meets_of_mem mem⟩

/-- Both requests read the lease before either ends it: both succeed, there are two events, and the
first of them has a time that the row no longer has. -/
theorem ended_twice : ∃ tr s, endings.start rented ∧ endings.Run Any rented tr s ∧
    s.Ended 0 4 ∧ s.Ended 1 4 ∧ s.events 4 = 2 ∧
    ∃ event ∈ s.outbox.rows, ∃ row ∈ s.leases.rows, event.payload.entityId = row.id ∧
      event.payload.payload.endedAt = some 100 ∧ row.endDate = some 200 := by
  have computed : (endings.exec (fun _ _ => true) rented
      (lookUp 0 100 ++ lookUp 1 200 ++ save 0 8 ++ save 1 9)).map
      (fun s => (s.phase 0, s.phase 1, s.events 4, s.leases.rows,
        s.outbox.rows.any fun event => event.payload.entityId = 4 ∧
          event.payload.payload.endedAt = some 100)) =
      some (.done ⟨some 1, 4⟩ (.lease ⟨some 4, 3, 5, .ended, some 100⟩),
        .done ⟨some 1, 4⟩ (.lease ⟨some 4, 3, 5, .ended, some 200⟩), 2,
        [⟨4, 3, 5, .ended, some 200⟩], true) := by
    decide
  obtain ⟨s, reached, seen⟩ := Option.map_eq_some_iff.1 computed
  obtain ⟨tr, run, -⟩ := exists_run_of_exec (C := Any) (fun _ _ _ => trivial) reached
  simp only [Prod.mk.injEq, List.any_eq_true, decide_eq_true_eq] at seen
  obtain ⟨zero, one, events, rows, event, hevent, entity, endedAt⟩ := seen
  refine ⟨tr, s, rented_start, run, ⟨_, _, zero, rfl⟩, ⟨_, _, one, rfl⟩, events, event, hevent, _,
    rows ▸ List.mem_singleton_self _, entity, endedAt, rfl⟩

end EstateServer.Leases
