import EstateServer.Outbox.Accounting

/-!
# The order of the events of an entity

The partition key of an event is its entity, "so that the events of one entity keep their order".
`fetchPending` does take the rows that it can take in the order of their creation
(`sublist_take`), but it passes over a row that waits for its retry or that another tick has
locked, and a tick goes on after a rejected emit.  So an event can overtake an older one of its
entity (`like_overtakes_post`).

It does not when the older row is never passed over (`inTurn`): then its turn comes first
(`Turn`, `Turn.next`, `published_in_order`).
-/

namespace EstateServer.Outbox

open Machine

variable {P : Type}

namespace State

variable (s : State P)

/-- The index of the first acknowledged emit of a row. -/
def firstAck (id : OutboxId) : Option ℕ := s.emits.findIdx? fun e => e.row.id = id ∧ e.acked

/-- The row has not been acknowledged, and `fetchPending` passes over it: it backs off, or another
tick has locked it. -/
def waits (dbNow : Instant) (id : OutboxId) : Bool :=
  s.firstAck id = none ∧ s.table.rows.any fun row =>
    row.id = id ∧ row.status = .pending ∧ (row.due dbNow = false ∨ s.lock id ≠ none)

def quarantined (id : OutboxId) : Bool :=
  s.table.rows.any fun row => row.id = id ∧ row.status = .failed

end State

/-- The step does not pass over `a` in favour of `b`:

* `b` is not fetched while `a` waits;
* `a` is not rejected while `b` is behind it in the batch;
* a tick that has lost its transaction does not emit `a` when `a` has been quarantined since and
  `b` acknowledged. -/
def inTurn (config : RelayConfig) (a b : OutboxEvent P) (s : State P) : Label P → Bool
  | .fetch _ dbNow ordered =>
    b.id ∈ (ordered.take config.batchSize).map (fun row => row.id) → s.waits dbNow a.id = false
  | .emit t error =>
    match (s.phase t).ahead with
    | [] => true
    | row :: rest =>
      row.id = a.id → s.firstAck a.id = none →
        (error ≠ none → b.id ∉ rest.map fun record => record.id) ∧
        ((s.phase t).isRolledBack → s.quarantined a.id → s.firstAck b.id = none)
  | _ => true

/-- The step fetches neither `a` nor `b`. -/
def unfetched (config : RelayConfig) (a b : OutboxEvent P) (_ : State P) : Label P → Bool
  | .fetch _ _ ordered =>
    a.id ∉ (ordered.take config.batchSize).map (fun row => row.id) ∧
      b.id ∉ (ordered.take config.batchSize).map fun row => row.id
  | _ => true

/-- Two rows of one key, `a` the older, both committed before either has been fetched. -/
structure Paired [DecidableEq P] (config : RelayConfig) (s : State P) (a b : OutboxEvent P) :
    Prop where
  reach : (outbox config).Reachable (fun s l => unfetched config a b s l) s
  left : a ∈ s.table.rows
  right : b ∈ s.table.rows
  key : a.partitionKey = b.partitionKey
  older : a.createdAt < b.createdAt

/-! ## First acknowledgements -/

section

variable {s : State P} {t : TickId} {row : OutboxRecord P} {error : Option String}
  {phase : Phase P} {id : OutboxId} {i : ℕ}

theorem firstAck_lt (h : s.firstAck id = some i) : i < s.emits.length :=
  (List.findIdx?_eq_some_iff_getElem.1 h).1

theorem firstAck_emit : (s.emit t row error phase).firstAck id =
    (s.firstAck id).or (if row.id = id ∧ error = none then some s.emits.length else none) := by
  have last : (s.emit t row error phase).firstAck id = (s.firstAck id).or
      (([⟨t, row, error⟩] : List (Emit P)).findIdx? (fun e => e.row.id = id ∧ e.acked) |>.map
        (· + s.emits.length)) := List.findIdx?_append
  rw [last, List.findIdx?_singleton]
  congr 1
  by_cases hit : row.id = id ∧ error = none
  · simp [hit, Emit.acked]
  · simp [hit, Emit.acked]

theorem firstAck_emit_of_some (h : s.firstAck id = some i) :
    (s.emit t row error phase).firstAck id = some i := by
  rw [firstAck_emit, h, Option.some_or]

theorem firstAck_emit_of_none (h : s.firstAck id = none) :
    (s.emit t row error phase).firstAck id =
      if row.id = id ∧ error = none then some s.emits.length else none := by
  rw [firstAck_emit, h, Option.none_or]

end

/-! ## The order within a batch -/

section

variable {ordered : List (OutboxEvent P)} {a b : OutboxEvent P} {n : ℕ}

/-- A batch that takes `b` takes an older row before it, if it can take it at all. -/
theorem sublist_take (sorted : ordered.Pairwise (·.createdAt ≤ ·.createdAt)) (ha : a ∈ ordered)
    (hb : b ∈ ordered.take n) (older : a.createdAt < b.createdAt) :
    [a, b].Sublist (ordered.take n) := by
  have split := sorted
  rw [← List.take_append_drop n ordered, List.pairwise_append] at split
  obtain ⟨front, -, across⟩ := split
  have ha : a ∈ ordered.take n := by
    rw [← List.take_append_drop n ordered] at ha
    rcases List.mem_append.1 ha with ha | ha
    · exact ha
    · have late : b.createdAt ≤ a.createdAt := across b hb a ha
      exact absurd older (Nat.not_lt.2 late)
  obtain ⟨before, after, parts⟩ := List.append_of_mem ha
  rw [parts] at front hb ⊢
  have rest : b ∈ after := by
    rcases List.mem_append.1 hb with hb | hb
    · have late : b.createdAt ≤ a.createdAt :=
        (List.pairwise_append.1 front).2.2 b hb a List.mem_cons_self
      exact absurd older (Nat.not_lt.2 late)
    · rcases List.mem_cons.1 hb with rfl | hb
      · exact absurd older (Nat.lt_irrefl _)
      · exact hb
  exact ((List.singleton_sublist.2 rest).cons_cons a).trans (List.sublist_append_right _ _)

/-- What comes after something in a list without duplicates is not its head. -/
theorem ne_head_of_sublist {α : Type*} {x y z : α} {l : List α} (h : [x, y].Sublist (z :: l))
    (nodup : (z :: l).Nodup) : y ≠ z := by
  rintro rfl
  have tail : y ∈ l := by
    cases h with
    | cons _ h => exact h.subset (List.mem_cons_of_mem _ List.mem_cons_self)
    | cons_cons _ h => exact h.subset List.mem_cons_self
  exact (List.nodup_cons.1 nodup).1 tail

end

/-! ## Whose turn it is -/

/-- How far `a` and `b` have come: `a` is acknowledged first, or never will be. -/
inductive Turn (s : State P) (a b : OutboxEvent P) : Prop
  /-- `a` is before `b` in each batch that may still emit `b`. -/
  | waiting (left : s.firstAck a.id = none) (right : s.firstAck b.id = none)
      (row : ∃ row ∈ s.table.rows, row.inserted = a.inserted ∧ row.status = .pending)
      (ahead : ∀ t, b.id ∈ (s.phase t).ahead.map (fun record => record.id) →
        [a.id, b.id].Sublist ((s.phase t).ahead.map fun record => record.id))
  | settled {i : ℕ} (left : s.firstAck a.id = some i)
      (right : ∀ j, s.firstAck b.id = some j → i < j)
  | quarantined (left : s.firstAck a.id = none)
      (row : ∃ row ∈ s.table.rows, row.inserted = a.inserted ∧ row.status = .failed)

section

variable {config : RelayConfig} {s s' : State P} {l : Label P} {a b : OutboxEvent P}
  {t : TickId} {row : OutboxRecord P} {error : Option String} {phase : Phase P}

/-- The rows that the loop may still emit are different. -/
theorem Accounted.ahead_nodup (h : Accounted s) (t : TickId) :
    ((s.phase t).ahead.map fun record => record.id).Nodup := by
  cases hphase : s.phase t with
  | idle | committed => exact List.nodup_nil
  | running tick =>
    have all := (h.held t tick hphase).1
    rw [← h.emitted_ids hphase] at all
    exact (List.nodup_append.1 all).2.1
  | rolledBack next => cases next <;> simp [Phase.ahead]

/-- The head of the rows ahead is the one that is emitted. -/
theorem Phase.ahead_of_emit {phase phase' : Phase P} (h : phase.emit error = some (row, phase')) :
    phase.ahead = row :: phase'.ahead := by
  rcases Phase.emit_cases h with ⟨marked, rest, rfl, rfl⟩ | ⟨rfl, rfl⟩ <;> rfl

/-- Once `a` has been acknowledged first, it stays first. -/
theorem Turn.next_settled {i : ℕ} (left : s.firstAck a.id = some i)
    (right : ∀ j, s.firstAck b.id = some j → i < j) (move : Moves config s l s') :
    Turn s' a b := by
  cases move with
  | insert | fetch | mark | commit | abort => exact .settled left right
  | emit emitted =>
    refine .settled (firstAck_emit_of_some left) fun j hj => ?_
    rw [firstAck_emit] at hj
    cases before : s.firstAck b.id with
    | some j' =>
      rw [before, Option.some_or] at hj
      rw [← Option.some.inj hj]
      exact right j' before
    | none =>
      rw [before, Option.none_or] at hj
      split_ifs at hj
      rw [← Option.some.inj hj]
      exact firstAck_lt left

/-- An acknowledged emit of `a` before any of `b` settles the order. -/
theorem Turn.settled_of_emit (left : s.firstAck a.id = none) (right : s.firstAck b.id = none)
    (hrow : row.id = a.id) (hne : a.id ≠ b.id) :
    Turn (s.emit t row none phase) a b := by
  refine .settled ((firstAck_emit_of_none left).trans (if_pos ⟨hrow, rfl⟩)) fun j hj => ?_
  rw [firstAck_emit_of_none right, if_neg fun hit => hne (hrow.symm.trans hit.1)] at hj
  cases hj

/-- What `inTurn` asks of an emit of `a`. -/
theorem inTurn_emit (meets : inTurn config a b s (.emit t error) = true)
    (emitted : (s.phase t).emit error = some (row, phase)) (hrow : row.id = a.id)
    (left : s.firstAck a.id = none) :
    (error ≠ none → b.id ∉ phase.ahead.map fun record => record.id) ∧
      ((s.phase t).isRolledBack = true → s.quarantined a.id = true → s.firstAck b.id = none) := by
  simp only [inTurn, Phase.ahead_of_emit emitted] at meets
  exact of_decide_eq_true meets hrow left

/-- A quarantined row is acknowledged, if at all, before `b`. -/
theorem Turn.next_quarantined (h : Accounted s) (hne : a.id ≠ b.id)
    (left : s.firstAck a.id = none)
    (failed : ∃ row ∈ s.table.rows, row.inserted = a.inserted ∧ row.status = .failed)
    (meets : inTurn config a b s l = true) (move : Moves config s l s') : Turn s' a b := by
  obtain ⟨row₀, hrow₀, inserted, failed⟩ := failed
  have settled : row₀.status ≠ .pending := by
    rw [failed]
    nofun
  have hid : row₀.id = a.id := OutboxEvent.id_of_inserted inserted
  have stays : ∃ row ∈ s'.table.rows, row.inserted = a.inserted ∧ row.status = .failed := by
    obtain ⟨row', hrow', -, same⟩ := row_of_moves h move hrow₀
    exact ⟨row', hrow', by rw [same settled, inserted], by rw [same settled, failed]⟩
  cases move with
  | insert | fetch | mark | commit | abort => exact .quarantined left stays
  | @emit t error row phase emitted =>
    by_cases hit : row.id = a.id ∧ error = none
    · obtain ⟨hrow, rfl⟩ := hit
      rcases Phase.emit_cases emitted with ⟨marked, rest, before, -⟩ | ⟨before, -⟩
      · have held : s.Holds t row₀.id := by
          refine ⟨_, before, List.mem_map.2 ⟨row, ?_, hrow.trans hid.symm⟩⟩
          exact List.mem_append_right _ List.mem_cons_self
        exact absurd (h.pending_of_holds hrow₀ held) settled
      · have quarantined : s.quarantined a.id = true :=
          List.any_eq_true.2 ⟨row₀, hrow₀, decide_eq_true ⟨hid, failed⟩⟩
        have lost : (s.phase t).isRolledBack = true := by
          rw [before]
          rfl
        exact settled_of_emit left ((inTurn_emit meets emitted hrow left).2 lost quarantined)
          hrow hne
    · exact .quarantined ((firstAck_emit_of_none left).trans (if_neg hit)) stays

/-- A fetch of `b` takes `a` before it, unless `a` waits. -/
theorem ahead_of_fetch {dbNow : Instant} {ordered : List (OutboxEvent P)} {row₀ row₁ : OutboxEvent P}
    (older : row₀.createdAt < row₁.createdAt) (left : s.firstAck row₀.id = none)
    (hrow₀ : row₀ ∈ s.table.rows) (pending : row₀.status = .pending)
    (hrow₁ : row₁ ∈ s.table.rows) (ordering : s.table.Ordered s.lock dbNow ordered) {n : ℕ}
    (taken : row₁.id ∈ (ordered.take n).map fun row => row.id)
    (turn : s.waits dbNow row₀.id = false) :
    [row₀.id, row₁.id].Sublist ((ordered.take n).map fun row => row.id) := by
  have hrow₁ : row₁ ∈ ordered.take n := by
    obtain ⟨row, hrow, hid⟩ := List.mem_map.1 taken
    have present := ((OutboxTable.mem_of_ordered ordering).1 (List.mem_of_mem_take hrow)).1
    rwa [← s.table.eq_of_id present hrow₁ hid]
  have due : row₀.due dbNow = true ∧ s.lock row₀.id = none := by
    by_contra passed
    have waits : s.waits dbNow row₀.id = true := by
      refine decide_eq_true ⟨left, List.any_eq_true.2 ⟨row₀, hrow₀, decide_eq_true ⟨rfl, pending, ?_⟩⟩⟩
      by_cases due : row₀.due dbNow = true
      · exact .inr fun free => passed ⟨due, free⟩
      · exact .inl (Bool.eq_false_iff.2 due)
    rw [turn] at waits
    cases waits
  have hrow₀ : row₀ ∈ ordered := (OutboxTable.mem_of_ordered ordering).2 ⟨hrow₀, due⟩
  exact (sublist_take ordering.2 hrow₀ hrow₁ older).map fun row => row.id

/-- `a` comes before `b` in a list that has `b`. -/
def Before (a b : OutboxEvent P) (rows : List (OutboxRecord P)) : Prop :=
  b.id ∈ rows.map (fun record => record.id) →
    [a.id, b.id].Sublist (rows.map fun record => record.id)

theorem before_of_update (ahead : ∀ u, Before a b (s.phase u).ahead)
    (own : Before a b phase.ahead) (u : TickId) :
    Before a b (Function.update s.phase t phase u).ahead := by
  by_cases hu : u = t
  · rw [hu, Function.update_self]
    exact own
  · rw [Function.update_of_ne hu]
    exact ahead u

/-- The head of the rows is not `b`, which has `a` before it. -/
theorem Before.ne_head {record : OutboxRecord P} {rest : List (OutboxRecord P)}
    (own : Before a b (record :: rest))
    (nodup : ((record :: rest).map fun record => record.id).Nodup) : record.id ≠ b.id := by
  unfold Before at own
  rw [List.map_cons] at own nodup
  intro hid
  exact ne_head_of_sublist (own (List.mem_cons.2 (.inl hid.symm))) nodup hid.symm

/-- The rows that a tick fetches, when `a` does not wait. -/
theorem before_of_fetch {dbNow : Instant} {ordered : List (OutboxEvent P)} {n : ℕ}
    (older : a.createdAt < b.createdAt) (left : s.firstAck a.id = none)
    (pending : ∃ row ∈ s.table.rows, row.inserted = a.inserted ∧ row.status = .pending)
    (present : ∃ row ∈ s.table.rows, row.inserted = b.inserted)
    (ordering : s.table.Ordered s.lock dbNow ordered)
    (turn : b.id ∈ (ordered.take n).map (fun row => row.id) → s.waits dbNow a.id = false) :
    Before a b ((ordered.take n).map fun row => row.record) := by
  obtain ⟨row₀, hrow₀, inserted₀, pending₀⟩ := pending
  obtain ⟨row₁, hrow₁, inserted₁⟩ := present
  have hid₀ : row₀.id = a.id := OutboxEvent.id_of_inserted inserted₀
  have hid₁ : row₁.id = b.id := OutboxEvent.id_of_inserted inserted₁
  have created₀ : row₀.createdAt = a.createdAt := OutboxEvent.createdAt_of_inserted inserted₀
  have created₁ : row₁.createdAt = b.createdAt := OutboxEvent.createdAt_of_inserted inserted₁
  have ids : ((ordered.take n).map fun row => row.record).map (fun record => record.id) =
      (ordered.take n).map fun row => row.id := by
    rw [List.map_map]
    rfl
  unfold Before
  rw [ids]
  intro taken
  have turn := turn taken
  rw [← hid₀] at left turn ⊢
  rw [← hid₁] at taken ⊢
  rw [← created₀, ← created₁] at older
  exact ahead_of_fetch older left hrow₀ pending₀ hrow₁ ordering taken turn

/-- An emit while neither is acknowledged: of `a`, or of a row ahead of it. -/
theorem Turn.emit_waiting (h : Accounted s) (hne : a.id ≠ b.id) (left : s.firstAck a.id = none)
    (right : s.firstAck b.id = none)
    (pending : ∃ row ∈ s.table.rows, row.inserted = a.inserted ∧ row.status = .pending)
    (ahead : ∀ u, Before a b (s.phase u).ahead)
    (meets : inTurn config a b s (.emit t error) = true)
    (emitted : (s.phase t).emit error = some (row, phase)) :
    Turn (s.emit t row error phase) a b := by
  have headed := Phase.ahead_of_emit emitted
  have nodup := h.ahead_nodup t
  have turn : Before a b (s.phase t).ahead := ahead t
  rw [headed] at nodup turn
  have other : row.id ≠ b.id := turn.ne_head nodup
  by_cases hrow : row.id = a.id
  · cases error with
    | none => exact settled_of_emit left right hrow hne
    | some message =>
      -- a rejected `a` has no `b` behind it
      refine .waiting ((firstAck_emit_of_none left).trans (if_neg nofun))
        ((firstAck_emit_of_none right).trans (if_neg nofun)) pending
        (before_of_update ahead fun behind => ?_)
      exact absurd behind ((inTurn_emit meets emitted hrow left).1 nofun)
  · refine .waiting ((firstAck_emit_of_none left).trans (if_neg fun hit => hrow hit.1))
      ((firstAck_emit_of_none right).trans (if_neg fun hit => other hit.1)) pending
      (before_of_update ahead fun behind => ?_)
    unfold Before at turn
    rw [List.map_cons] at turn
    rcases List.cons_sublist_cons'.1 (turn (List.mem_cons_of_mem _ behind)) with rest | ⟨hid, -⟩
    · exact rest
    · exact absurd hid.symm hrow

/-- A commit while neither is acknowledged cannot publish `a`. -/
theorem Turn.commit_waiting (h : Accounted s) {marked : List (Marked P)}
    (running : s.phase t = .running { marked, sent := none, rest := [] })
    (left : s.firstAck a.id = none) (right : s.firstAck b.id = none)
    (pending : ∃ row ∈ s.table.rows, row.inserted = a.inserted ∧ row.status = .pending)
    (ahead : ∀ u, Before a b (s.phase u).ahead) : Turn (s.commit t config marked) a b := by
  have ahead' : ∀ u, Before a b (Function.update s.phase t .committed u).ahead :=
    before_of_update ahead fun taken => absurd taken List.not_mem_nil
  obtain ⟨row₀, hrow₀, inserted₀, -⟩ := pending
  have hrow' : row₀.written (marked.map config.write) ∈ (s.commit t config marked).table.rows := by
    show _ ∈ (s.table.commit _).rows
    rw [OutboxTable.commit_rows]
    exact List.mem_map_of_mem hrow₀
  have inserted' : (row₀.written (marked.map config.write)).inserted = a.inserted :=
    OutboxEvent.written_inserted.trans inserted₀
  have hid' : (row₀.written (marked.map config.write)).id = a.id :=
    OutboxEvent.id_of_inserted inserted'
  cases status : (row₀.written (marked.map config.write)).status with
  | pending => exact .waiting left right ⟨_, hrow', inserted', status⟩ ahead'
  | failed => exact .quarantined left ⟨_, hrow', inserted', status⟩
  | published =>
    obtain ⟨e, he, hid, acked⟩ := (h.commit config running).acked_of_published hrow' status
    have missed := List.findIdx?_eq_none_iff.1 left e he
    exact absurd ⟨hid.trans hid', acked⟩ (of_decide_eq_false missed)

/-- While neither is acknowledged, `a` stays before `b` wherever `b` may be emitted. -/
theorem Turn.next_waiting (h : Accounted s) (older : a.createdAt < b.createdAt)
    (hne : a.id ≠ b.id) (left : s.firstAck a.id = none) (right : s.firstAck b.id = none)
    (pending : ∃ row ∈ s.table.rows, row.inserted = a.inserted ∧ row.status = .pending)
    (present : ∃ row ∈ s.table.rows, row.inserted = b.inserted)
    (ahead : ∀ u, Before a b (s.phase u).ahead)
    (meets : inTurn config a b s l = true) (move : Moves config s l s') : Turn s' a b := by
  cases move with
  | insert added =>
    obtain ⟨row₀, hrow₀, inserted₀, pending₀⟩ := pending
    refine .waiting left right ⟨row₀, ?_, inserted₀, pending₀⟩ ahead
    have rows := OutboxTable.add_rows added
    show row₀ ∈ OutboxTable.rows _
    rw [rows]
    exact List.mem_append_left _ hrow₀
  | fetch idle ordering =>
    refine .waiting left right pending (before_of_update ahead ?_)
    exact before_of_fetch older left pending present ordering (of_decide_eq_true meets)
  | emit emitted => exact emit_waiting h hne left right pending ahead meets emitted
  | @mark t now marked row error rest running =>
    refine .waiting left right pending (before_of_update ahead ?_)
    have own : Before a b (s.phase t).ahead := ahead t
    rw [running] at own
    exact own
  | commit running => exact commit_waiting h running left right pending ahead
  | @abort t tick running =>
    refine .waiting left right pending (before_of_update ahead fun behind => ?_)
    -- only the head of the rows ahead is left, which is not `b`
    obtain ⟨record, hrecord, hid⟩ := List.mem_map.1 behind
    obtain ⟨rest, split⟩ := tick.next_head hrecord
    have headed : (s.phase t).ahead = record :: rest := by
      rw [running]
      exact split
    have own : Before a b (s.phase t).ahead := ahead t
    have nodup := h.ahead_nodup t
    rw [headed] at own nodup
    exact absurd hid (own.ne_head nodup)

/-- A step that does not pass over `a` keeps the turns. -/
theorem Turn.next (h : Accounted s) (older : a.createdAt < b.createdAt) (hne : a.id ≠ b.id)
    (present : ∃ row ∈ s.table.rows, row.inserted = b.inserted) (turn : Turn s a b)
    (meets : inTurn config a b s l = true) (move : Moves config s l s') : Turn s' a b := by
  cases turn with
  | waiting left right pending ahead =>
    exact next_waiting h older hne left right pending present ahead meets move
  | settled left right => exact next_settled left right move
  | quarantined left failed => exact next_quarantined h hne left failed meets move

end

/-! ## Runs -/

section

variable [DecidableEq P] {config : RelayConfig} {s s' : State P} {a b : OutboxEvent P}
  {tr : List (Step (State P) (Label P))}

/-- Before they are fetched, the rows of a pair have not been emitted and nobody has them ahead. -/
theorem Paired.untouched (pair : Paired config s a b) :
    (∀ e ∈ s.emits, e.row.id ≠ a.id ∧ e.row.id ≠ b.id) ∧
      ∀ t, ∀ record ∈ (s.phase t).ahead, record.id ≠ a.id ∧ record.id ≠ b.id := by
  refine pair.reach.invariant
    (I := fun u => (∀ e ∈ u.emits, e.row.id ≠ a.id ∧ e.row.id ≠ b.id) ∧
      ∀ t, ∀ record ∈ (u.phase t).ahead, record.id ≠ a.id ∧ record.id ≠ b.id) ?_ ?_
  · rintro u ⟨-, -, emits, phase⟩
    rw [emits, phase]
    refine ⟨fun e he => ?_, fun t record hrecord => ?_⟩
    · cases he
    · cases hrecord
  · rintro u l v ⟨emits, ahead⟩ meets step
    have move := moves_of_next step
    refine ⟨fun e he => ?_, fun t record hrecord => ?_⟩
    · rcases emits_of_moves move with quiet | ⟨e', emitted, he'⟩
      · exact emits e (quiet ▸ he)
      · rw [emitted] at he
        rcases List.mem_append.1 he with old | new
        · exact emits e old
        · rw [List.mem_singleton.1 new]
          exact ahead e'.tick e'.row he'
    · rcases ahead_of_moves move hrecord with old | ⟨dbNow, ordered, rfl, row, hrow, -, -, rfl⟩
      · exact ahead t record old
      · obtain ⟨ha, hb⟩ := of_decide_eq_true meets
        refine ⟨fun hid => ha ?_, fun hid => hb ?_⟩
        · exact List.mem_map.2 ⟨row, hrow, hid⟩
        · exact List.mem_map.2 ⟨row, hrow, hid⟩

/-- The rows of a pair start with `a` waiting for its turn. -/
theorem Paired.turn (pair : Paired config s a b) : Turn s a b := by
  obtain ⟨emits, ahead⟩ := pair.untouched
  have accounted : Accounted s := accounted_of_reachable pair.reach
  have left : s.firstAck a.id = none := by
    refine List.findIdx?_eq_none_iff.2 fun e he => decide_eq_false fun hit => ?_
    exact (emits e he).1 hit.1
  have right : s.firstAck b.id = none := by
    refine List.findIdx?_eq_none_iff.2 fun e he => decide_eq_false fun hit => ?_
    exact (emits e he).2 hit.1
  cases status : a.status with
  | pending =>
    refine .waiting left right ⟨a, pair.left, rfl, status⟩ fun t taken => ?_
    obtain ⟨record, hrecord, hid⟩ := List.mem_map.1 taken
    exact absurd hid (ahead t record hrecord).2
  | failed => exact .quarantined left ⟨a, pair.left, rfl, status⟩
  | published =>
    obtain ⟨e, he, hid, -⟩ := accounted.acked_of_published pair.left status
    exact absurd hid (emits e he).1

/-- Two rows of one key that are committed before either is fetched are acknowledged first in the
order of their creation, when no step passes over the older one. -/
theorem published_in_order (pair : Paired config s a b)
    (run : (outbox config).Run (fun s l => inTurn config a b s l) s tr s') {i j : ℕ}
    (first : s'.firstAck a.id = some i) (second : s'.firstAck b.id = some j) : i < j := by
  have hne : a.id ≠ b.id := by
    intro hid
    have same : a = b := s.table.eq_of_id pair.left pair.right hid
    exact absurd pair.older (by rw [same]; exact Nat.lt_irrefl _)
  have kept := run.invariant
    (I := fun u => (Accounted u ∧ ∃ row ∈ u.table.rows, row.inserted = b.inserted) ∧ Turn u a b)
    (fun u l v kept meets step => ?_)
    ⟨⟨accounted_of_reachable pair.reach, b, pair.right, rfl⟩, pair.turn⟩
  · cases kept.2 with
    | waiting left => rw [left] at first; cases first
    | settled left right =>
      rw [left] at first
      rw [← Option.some.inj first]
      exact right j second
    | quarantined left => rw [left] at first; cases first
  · obtain ⟨⟨accounted, row, hrow, inserted⟩, turn⟩ := kept
    have move := moves_of_next step
    obtain ⟨row', hrow', inserted', -⟩ := row_of_moves accounted move hrow
    exact ⟨⟨accounted.of_moves move, row', hrow', inserted'.trans inserted⟩,
      turn.next accounted pair.older hne ⟨row, hrow, inserted⟩ meets move⟩

/-- A pair and a run after it, computed from their labels. -/
theorem exists_pair_of_exec (before after : List (Label P)) {C : State P → Label P → Prop}
    {c : State P → Label P → Bool} (hc : ∀ s l, c s l = true → C s l) {i j : Option ℕ}
    (key : a.partitionKey = b.partitionKey) (older : a.createdAt < b.createdAt)
    (computed : (((outbox config).exec (unfetched config a b) empty before).bind fun s =>
      ((outbox config).exec c s after).map fun s' =>
        (decide (a ∈ s.table.rows ∧ b ∈ s.table.rows), s'.firstAck a.id, s'.firstAck b.id)) =
      some (true, i, j)) :
    ∃ s tr s', Paired config s a b ∧ (outbox config).Run C s tr s' ∧ s'.firstAck a.id = i ∧
      s'.firstAck b.id = j := by
  obtain ⟨s, reached, computed⟩ := Option.bind_eq_some_iff.1 computed
  obtain ⟨s', reached', facts⟩ := Option.map_eq_some_iff.1 computed
  obtain ⟨present, first, second⟩ := by simpa only [Prod.mk.injEq] using facts
  obtain ⟨left, right⟩ := of_decide_eq_true present
  obtain ⟨tr₀, run₀, -⟩ := exists_run_of_exec
    (C := fun s l => unfetched config a b s l = true) (fun _ _ h => h) reached
  obtain ⟨tr, run, -⟩ := exists_run_of_exec hc reached'
  exact ⟨s, tr, s', ⟨⟨empty, tr₀, empty_start _, run₀⟩, left, right, key, older⟩, run, first, second⟩

end

/-! ## A post and a like of it -/

/-- The outbox row of the post. -/
def postRow : OutboxEvent Unit := newRow (postCreated 7 1) [] 0 10

/-- The outbox row of the like, a moment later. -/
def likeRow : OutboxEvent Unit := newRow (likeCreated 8 1) [] 1 11

/-- Both events are in the outbox. -/
def postAndLike : List (Label Unit) :=
  [.insert (postCreated 7 1) [] 0 10, .insert (likeCreated 8 1) [] 1 11]

/-- One tick publishes both. -/
theorem published_in_order_batch : ∃ s tr s', Paired RelayConfig.default s postRow likeRow ∧
    (outbox RelayConfig.default).Run
      (fun s l => inTurn RelayConfig.default postRow likeRow s l) s tr s' ∧
    s'.firstAck postRow.id = some 0 ∧ s'.firstAck likeRow.id = some 1 ∧ 0 < 1 := by
  have computed : ∃ s tr s', Paired RelayConfig.default s postRow likeRow ∧
      (outbox RelayConfig.default).Run
        (fun s l => inTurn RelayConfig.default postRow likeRow s l) s tr s' ∧
      s'.firstAck postRow.id = some 0 ∧ s'.firstAck likeRow.id = some 1 :=
    exists_pair_of_exec postAndLike
      [.fetch 0 20 [postRow, likeRow], .emit 0 none, .mark 0 21, .emit 0 none]
      (fun _ _ h => h) rfl (by decide) (by decide)
  obtain ⟨s, tr, s', pair, run, first, second⟩ := computed
  exact ⟨s, tr, s', pair, run, first, second, published_in_order pair run first second⟩

/-- The emit of the post is rejected, and the same tick goes on with the like. -/
theorem like_overtakes_post : ∃ s tr s', Paired RelayConfig.default s postRow likeRow ∧
    (outbox RelayConfig.default).Run Any s tr s' ∧
    s'.firstAck postRow.id = some 2 ∧ s'.firstAck likeRow.id = some 1 :=
  exists_pair_of_exec postAndLike
    [.fetch 0 20 [postRow, likeRow], .emit 0 (some "timeout"), .mark 0 21, .emit 0 none,
      .mark 0 22, .commit 0,
      .fetch 1 2000 [{ postRow with
        attempts := 1, lastError := some "timeout", nextAttemptAt := some 1021 }],
      .emit 1 none]
    (c := fun _ _ => true) (fun _ _ _ => trivial) rfl (by decide) (by decide)

end EstateServer.Outbox
