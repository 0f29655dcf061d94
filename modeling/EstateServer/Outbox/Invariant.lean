import EstateServer.Outbox.Relay

/-!
# Emits and marks

An emit cannot be undone and a mark can, so the two are accounted for against each other
(`Accounted`): the committed ticks have emitted each row once for each of its attempts, and once
more if it is published; an open tick has its rows to itself, and has emitted those that it has
marked and the one that it is about to mark.

`Accounted.of_frame` reduces a step to the tick that takes it.  Each step keeps the invariant, and
so does every step (`Accounted.of_moves`).
-/

namespace EstateServer.Outbox

open Machine

variable {P : Type}

namespace Phase

def isCommitted : Phase P → Bool
  | committed => true
  | _ => false

def isRolledBack : Phase P → Bool
  | rolledBack _ => true
  | _ => false

/-- The rows that the loop may still emit. -/
def ahead : Phase P → List (OutboxRecord P)
  | running tick => tick.rest
  | rolledBack next => next.toList
  | _ => []

end Phase

/-- The rows that the tick has fetched. -/
def Tick.batch (tick : Tick P) : List (OutboxRecord P) :=
  tick.marked.map (fun m => m.row) ++ tick.sent.toList.map Prod.fst ++ tick.rest

/-- The emits of the tick, with their errors. -/
def Tick.emitted (tick : Tick P) : List (OutboxRecord P × Option String) :=
  tick.marked.map (fun m => (m.row, m.error)) ++ tick.sent.toList

/-- A tick that has lost its transaction goes on with the first row that it had ahead. -/
theorem Tick.next_head (tick : Tick P) {record : OutboxRecord P} (h : record ∈ tick.next.toList) :
    ∃ rest, tick.rest = record :: rest := by
  unfold Tick.next at h
  split at h
  · exact List.head?_eq_some_iff.1 (Option.mem_toList.1 h)
  · cases h

theorem Tick.next_mem (tick : Tick P) {record : OutboxRecord P} (h : record ∈ tick.next.toList) :
    record ∈ tick.rest := by
  obtain ⟨rest, split⟩ := tick.next_head h
  rw [split]
  exact List.mem_cons_self

namespace State

variable (s : State P)

/-- The row is in the batch of an open tick. -/
def Holds (t : TickId) (id : OutboxId) : Prop :=
  ∃ tick, s.phase t = .running tick ∧ id ∈ tick.batch.map fun record => record.id

def emitsOf (t : TickId) : List (Emit P) := s.emits.filter fun e => e.tick = t

/-- The emits of a row, acknowledged or not, by committed ticks. -/
def tally (id : OutboxId) (acked : Bool) : ℕ :=
  s.emits.countP fun e => e.row.id = id ∧ e.acked = acked ∧ (s.phase e.tick).isCommitted

end State

/-- The invariant of the outbox. -/
structure Accounted (s : State P) : Prop where
  /-- An open tick has locked its rows, which are as it has read them. -/
  held : ∀ t tick, s.phase t = .running tick →
    (tick.batch.map fun record => record.id).Nodup ∧
      ∀ record ∈ tick.batch, s.lock record.id = some t ∧
        ∃ row ∈ s.table.rows, row.status = .pending ∧ row.record = record
  emitted : ∀ t tick, s.phase t = .running tick →
    ((s.emitsOf t).map fun e => (e.row, e.error)) = tick.emitted
  idle : ∀ t, s.phase t = .idle → s.emitsOf t = []
  /-- What has been emitted, or still may be, are rows of the table. -/
  known : ∀ record, (∃ e ∈ s.emits, e.row = record) ∨ (∃ t, record ∈ (s.phase t).ahead) →
    ∃ row ∈ s.table.rows, row.record.inserted = record.inserted
  acked : ∀ row ∈ s.table.rows,
    s.tally row.id true = if row.status = .published then 1 else 0
  rejected : ∀ row ∈ s.table.rows, s.tally row.id false = row.attempts

/-! ## The statement that marks a row -/

section

variable (config : RelayConfig) (m : Marked P) {row : OutboxEvent P}

theorem RelayConfig.write_id : (config.write m).id = m.row.id := by
  unfold RelayConfig.write
  split
  · rfl
  · simp only [markFailed]
    split_ifs <;> rfl

theorem RelayConfig.write_ids (marked : List (Marked P)) :
    (marked.map config.write).map (fun write => write.id) = marked.map fun m => m.row.id := by
  rw [List.map_map]
  exact List.map_congr_left fun m _ => config.write_id m

variable {m}

/-- An acknowledged emit publishes the row. -/
theorem RelayConfig.write_acked (h : m.error = none) (row : OutboxEvent P) :
    ((config.write m).set.apply row).status = .published ∧
      ((config.write m).set.apply row).attempts = row.attempts := by
  unfold RelayConfig.write
  rw [h]
  exact ⟨rfl, rfl⟩

/-- A rejected emit counts as an attempt and does not publish the row. -/
theorem RelayConfig.write_rejected {message : String} (h : m.error = some message)
    (pending : row.status = .pending) :
    ((config.write m).set.apply row).status ≠ .published ∧
      ((config.write m).set.apply row).attempts = m.row.attempts + 1 := by
  unfold RelayConfig.write
  rw [h]
  simp only [markFailed]
  split_ifs
  · exact ⟨nofun, rfl⟩
  · refine ⟨?_, rfl⟩
    show row.status ≠ .published
    rw [pending]
    nofun

end

/-! ## The phase of one tick changes -/

section

variable {s s' : State P} {t u : TickId} {phase : Phase P}

/-- Whether a tick that changes its phase was committed does not change. -/
theorem tally_of_phase (emits : s'.emits = s.emits)
    (hphase : s'.phase = Function.update s.phase t phase)
    (same : phase.isCommitted = (s.phase t).isCommitted) (id : OutboxId) (acked : Bool) :
    s'.tally id acked = s.tally id acked := by
  have commits : ∀ u, (s'.phase u).isCommitted = (s.phase u).isCommitted := by
    intro u
    rw [hphase]
    by_cases hu : u = t
    · rw [hu, Function.update_self, same]
    · rw [Function.update_of_ne hu]
  unfold State.tally
  rw [emits]
  exact List.countP_congr fun e _ => by simp only [commits]

/-- An emit does not count before its tick commits. -/
theorem tally_emit {row : OutboxRecord P} {error : Option String}
    (before : (s.phase t).isCommitted = false) (after : phase.isCommitted = false) (id : OutboxId)
    (acked : Bool) : (s.emit t row error phase).tally id acked = s.tally id acked := by
  have emits : (s.enter t phase).emits = s.emits := rfl
  have entered : (s.enter t phase).tally id acked = s.tally id acked :=
    tally_of_phase emits rfl (after.trans before.symm) id acked
  have last : [(⟨t, row, error⟩ : Emit P)].countP (fun e => e.row.id = id ∧ e.acked = acked ∧
      ((s.emit t row error phase).phase e.tick).isCommitted) = 0 := by
    simp [State.emit, after]
  rw [← entered]
  refine List.countP_append.trans ?_
  rw [last]
  rfl

theorem emitsOf_emit {row : OutboxRecord P} {error : Option String} :
    (s.emit t row error phase).emitsOf t = s.emitsOf t ++ [⟨t, row, error⟩] := by
  simp [State.emitsOf, State.emit]

theorem emitsOf_emit_of_ne {row : OutboxRecord P} {error : Option String} (hu : u ≠ t) :
    (s.emit t row error phase).emitsOf u = s.emitsOf u := by
  simp [State.emitsOf, State.emit, hu.symm]

/-- A tick that commits adds its own emits to the tally. -/
theorem tally_commit (config : RelayConfig) (marked : List (Marked P))
    (open_ : (s.phase t).isCommitted = false) (id : OutboxId) (acked : Bool) :
    (s.commit t config marked).tally id acked =
      s.tally id acked + (s.emitsOf t).countP fun e => e.row.id = id ∧ e.acked = acked := by
  have emits : (s.commit t config marked).emits = s.emits := rfl
  unfold State.tally
  rw [emits, List.countP_eq_countP_filter_add s.emits _ fun e => e.tick = t,
    List.countP_eq_countP_filter_add s.emits
      (fun e => e.row.id = id ∧ e.acked = acked ∧ (s.phase e.tick).isCommitted) fun e => e.tick = t]
  have own : (s.emits.filter fun e => e.tick = t).countP
      (fun e => e.row.id = id ∧ e.acked = acked ∧ (s.phase e.tick).isCommitted) = 0 := by
    refine List.countP_eq_zero.2 fun e he => ?_
    have tick : e.tick = t := of_decide_eq_true (List.mem_filter.1 he).2
    simp [tick, open_]
  have now : (s.emits.filter fun e => e.tick = t).countP (fun e => e.row.id = id ∧ e.acked = acked ∧
        ((s.commit t config marked).phase e.tick).isCommitted) =
      (s.emitsOf t).countP fun e => e.row.id = id ∧ e.acked = acked := by
    refine List.countP_congr fun e he => ?_
    have tick : e.tick = t := of_decide_eq_true (List.mem_filter.1 he).2
    simp [State.commit, tick, Phase.isCommitted]
  have others : (s.emits.filter fun e => !decide (e.tick = t)).countP
        (fun e => e.row.id = id ∧ e.acked = acked ∧
          ((s.commit t config marked).phase e.tick).isCommitted) =
      (s.emits.filter fun e => !decide (e.tick = t)).countP
        (fun e => e.row.id = id ∧ e.acked = acked ∧ (s.phase e.tick).isCommitted) := by
    refine List.countP_congr fun e he => ?_
    have tick : e.tick ≠ t := by simpa using (List.mem_filter.1 he).2
    simp [State.commit, Function.update_of_ne tick]
  rw [own, now, others]
  omega

end

/-- A step of tick `t` into `phase`, seen from the other ticks. -/
structure Frame (s s' : State P) (t : TickId) (phase : Phase P) : Prop where
  moved : s'.phase = Function.update s.phase t phase
  started : phase ≠ .idle
  lock : ∀ u ≠ t, ∀ id, s.lock id = some u → s'.lock id = some u
  kept : ∀ u ≠ t, ∀ row ∈ s.table.rows, s.lock row.id = some u → row ∈ s'.table.rows
  rows : ∀ row ∈ s.table.rows, ∃ row' ∈ s'.table.rows, row'.inserted = row.inserted
  emitsOf : ∀ u ≠ t, s'.emitsOf u = s.emitsOf u

/-! ## The steps keep the invariant -/

namespace Accounted

variable {s s' : State P} {t u : TickId} {tick : Tick P} {phase : Phase P}

/-- An open tick that a step leaves alone keeps its rows. -/
theorem held_of_frame (h : Accounted s) (running : s.phase u = .running tick)
    (lock : ∀ id, s.lock id = some u → s'.lock id = some u)
    (rows : ∀ row ∈ s.table.rows, s.lock row.id = some u → row ∈ s'.table.rows) :
    (tick.batch.map fun record => record.id).Nodup ∧
      ∀ record ∈ tick.batch, s'.lock record.id = some u ∧
        ∃ row ∈ s'.table.rows, row.status = .pending ∧ row.record = record := by
  obtain ⟨nodup, held⟩ := h.held u tick running
  refine ⟨nodup, fun record hrecord => ?_⟩
  obtain ⟨locked, row, hrow, pending, rfl⟩ := held record hrecord
  exact ⟨lock _ locked, row, rows row hrow locked, pending, rfl⟩

/-- After a step of one tick it remains to look at that tick and at the counts. -/
theorem of_frame (h : Accounted s) (frame : Frame s s' t phase)
    (held : ∀ tick, phase = .running tick →
      (tick.batch.map fun record => record.id).Nodup ∧
        ∀ record ∈ tick.batch, s'.lock record.id = some t ∧
          ∃ row ∈ s'.table.rows, row.status = .pending ∧ row.record = record)
    (emitted : ∀ tick, phase = .running tick →
      ((s'.emitsOf t).map fun e => (e.row, e.error)) = tick.emitted)
    (known : ∀ record, (∃ e ∈ s'.emits, e.row = record) ∨ record ∈ phase.ahead →
      ∃ row ∈ s.table.rows, row.record.inserted = record.inserted)
    (acked : ∀ row ∈ s'.table.rows,
      s'.tally row.id true = if row.status = .published then 1 else 0)
    (rejected : ∀ row ∈ s'.table.rows, s'.tally row.id false = row.attempts) :
    Accounted s' := by
  have self : s'.phase t = phase := by rw [frame.moved, Function.update_self]
  have other : ∀ u ≠ t, s'.phase u = s.phase u := by
    intro u hu
    rw [frame.moved, Function.update_of_ne hu]
  refine ⟨fun u tick running => ?_, fun u tick running => ?_, fun u idle => ?_,
    fun record hrecord => ?_, acked, rejected⟩
  · by_cases hu : u = t
    · subst hu
      exact held tick (self.symm.trans running)
    · exact h.held_of_frame ((other u hu).symm.trans running) (frame.lock u hu) (frame.kept u hu)
  · by_cases hu : u = t
    · subst hu
      exact emitted tick (self.symm.trans running)
    · rw [frame.emitsOf u hu]
      exact h.emitted u tick ((other u hu).symm.trans running)
  · have hu : u ≠ t := by
      rintro rfl
      exact frame.started (self.symm.trans idle)
    rw [frame.emitsOf u hu]
    exact h.idle u ((other u hu).symm.trans idle)
  · have old : ∃ row ∈ s.table.rows, row.record.inserted = record.inserted := by
      rcases hrecord with hrecord | ⟨u, hrecord⟩
      · exact known record (.inl hrecord)
      · by_cases hu : u = t
        · rw [hu, self] at hrecord
          exact known record (.inr hrecord)
        · rw [other u hu] at hrecord
          exact h.known record (.inr ⟨u, hrecord⟩)
    obtain ⟨row, hrow, same⟩ := old
    obtain ⟨row', hrow', same'⟩ := frame.rows row hrow
    exact ⟨row', hrow', (congrArg OutboxEvent.record same').trans same⟩

/-- The rows of an open tick are known. -/
theorem known_batch (h : Accounted s) (running : s.phase t = .running tick)
    {record : OutboxRecord P} (hrecord : record ∈ tick.batch) :
    ∃ row ∈ s.table.rows, row.record.inserted = record.inserted := by
  obtain ⟨-, row, hrow, -, rfl⟩ := (h.held t tick running).2 record hrecord
  exact ⟨row, hrow, rfl⟩

/-- Two open ticks have no row in common. -/
theorem holds_unique (h : Accounted s) {id : OutboxId} (left : s.Holds t id)
    (right : s.Holds u id) : t = u := by
  obtain ⟨tick, running, hid⟩ := left
  obtain ⟨tick', running', hid'⟩ := right
  obtain ⟨record, hrecord, rfl⟩ := List.mem_map.1 hid
  obtain ⟨record', hrecord', same⟩ := List.mem_map.1 hid'
  have locked : s.lock record.id = some t := ((h.held t tick running).2 record hrecord).1
  have locked' : s.lock record'.id = some u := ((h.held u tick' running').2 record' hrecord').1
  rw [same, locked] at locked'
  exact Option.some.inj locked'

/-- A row that an open tick holds is pending. -/
theorem pending_of_holds (h : Accounted s) {row : OutboxEvent P} (hrow : row ∈ s.table.rows)
    (holds : s.Holds t row.id) : row.status = .pending := by
  obtain ⟨tick, running, hid⟩ := holds
  obtain ⟨record, hrecord, same⟩ := List.mem_map.1 hid
  obtain ⟨-, row', hrow', pending, rfl⟩ := (h.held t tick running).2 record hrecord
  rwa [s.table.eq_of_id hrow hrow' same.symm]

theorem insert (h : Accounted s) {event : DomainEvent P} {traceContext : TraceHeaders}
    {id : OutboxId} {createdAt : Instant} {table : OutboxTable P}
    (added : s.table.add event traceContext id createdAt = some table) :
    Accounted { s with table } := by
  have rows := OutboxTable.add_rows added
  have old : ∀ row ∈ s.table.rows, row ∈ table.rows := by
    intro row hrow
    rw [rows]
    exact List.mem_append_left _ hrow
  have fresh : ∀ row ∈ s.table.rows, row.id ≠ id := by
    have unique := table.id_unique
    rw [rows, Table.Unique, List.map_append, List.nodup_append] at unique
    intro row hrow
    exact unique.2.2 row.id (List.mem_map_of_mem hrow) id List.mem_cons_self
  -- nothing is known of the new row, so nobody has emitted it
  have unknown : ∀ acked, s.tally id acked = 0 := by
    intro acked
    refine List.countP_eq_zero.2 fun e he hit => ?_
    have hid : e.row.id = id := (of_decide_eq_true hit).1
    obtain ⟨row, hrow, same⟩ := h.known e.row (.inl ⟨e, he, rfl⟩)
    exact fresh row hrow ((OutboxRecord.mk.inj same).1.trans hid)
  refine ⟨fun u tick running => ?_, h.emitted, h.idle, fun record hrecord => ?_, ?_, ?_⟩
  · exact h.held_of_frame running (fun _ locked => locked) fun row hrow _ => old row hrow
  · obtain ⟨row, hrow, same⟩ := h.known record hrecord
    exact ⟨row, old row hrow, same⟩
  · intro row hrow
    change row ∈ table.rows at hrow
    rw [rows, List.mem_append, List.mem_singleton] at hrow
    rcases hrow with hrow | rfl
    · exact h.acked row hrow
    · exact unknown true
  · intro row hrow
    change row ∈ table.rows at hrow
    rw [rows, List.mem_append, List.mem_singleton] at hrow
    rcases hrow with hrow | rfl
    · exact h.rejected row hrow
    · exact unknown false

theorem fetch (h : Accounted s) (idle : s.phase t = .idle) {dbNow : Instant}
    {ordered : List (OutboxEvent P)} (ordering : s.table.Ordered s.lock dbNow ordered) (n : ℕ) :
    Accounted (s.fetch t (ordered.take n)) := by
  have fetched : ∀ row ∈ ordered.take n, row ∈ s.table.rows ∧ row.due dbNow = true ∧
      s.lock row.id = none := fun row hrow =>
    (OutboxTable.mem_of_ordered ordering).1 (List.mem_of_mem_take hrow)
  have free : ∀ u, ∀ id ∈ (ordered.take n).map fun row => row.id, s.lock.available u id := by
    intro u id hid
    obtain ⟨row, hrow, rfl⟩ := List.mem_map.1 hid
    simp [Locks.available, (fetched row hrow).2.2]
  have tally : ∀ id acked, (s.fetch t (ordered.take n)).tally id acked = s.tally id acked := by
    refine tally_of_phase rfl rfl ?_
    rw [idle]
    rfl
  refine h.of_frame
    { moved := rfl
      started := by simp
      lock := fun u _ id locked => Locks.acquire_of_held (free t) locked
      kept := fun _ _ row hrow _ => hrow
      rows := fun row hrow => ⟨row, hrow, rfl⟩
      emitsOf := fun _ _ => rfl }
    ?_ ?_ ?_ (fun row hrow => (tally _ _).trans (h.acked row hrow))
    (fun row hrow => (tally _ _).trans (h.rejected row hrow))
  · rintro tick ⟨⟩
    have batch : (Tick.mk [] none ((ordered.take n).map fun row => row.record)).batch =
        (ordered.take n).map fun row => row.record := rfl
    rw [batch]
    refine ⟨?_, fun record hrecord => ?_⟩
    · rw [List.map_map]
      exact (OutboxTable.nodup_of_ordered ordering).sublist ((List.take_sublist n _).map _)
    · obtain ⟨row, hrow, rfl⟩ := List.mem_map.1 hrecord
      obtain ⟨present, due, -⟩ := fetched row hrow
      exact ⟨Locks.acquire_of_mem (List.mem_map_of_mem hrow), row, present,
        OutboxEvent.status_of_due due, rfl⟩
  · rintro tick ⟨⟩
    have none : s.emitsOf t = [] := h.idle t idle
    change ((s.emitsOf t).map fun e => (e.row, e.error)) = []
    rw [none, List.map_nil]
  · rintro record (hrecord | hrecord)
    · exact h.known record (.inl hrecord)
    · obtain ⟨row, hrow, rfl⟩ := List.mem_map.1 hrecord
      exact ⟨row, (fetched row hrow).1, rfl⟩

theorem mark (h : Accounted s) {now : Instant} {marked : List (Marked P)} {row : OutboxRecord P}
    {error : Option String} {rest : List (OutboxRecord P)}
    (running : s.phase t = .running { marked, sent := some (row, error), rest }) :
    Accounted
      (s.enter t (.running { marked := marked ++ [⟨row, error, now⟩], sent := none, rest })) := by
  have tally : ∀ id acked, (s.enter t (.running
      { marked := marked ++ [⟨row, error, now⟩], sent := none, rest })).tally id acked =
        s.tally id acked := by
    refine tally_of_phase rfl rfl ?_
    rw [running]
    rfl
  refine h.of_frame
    { moved := rfl
      started := by simp
      lock := fun _ _ _ locked => locked
      kept := fun _ _ row hrow _ => hrow
      rows := fun row hrow => ⟨row, hrow, rfl⟩
      emitsOf := fun _ _ => rfl }
    ?_ ?_ ?_ (fun row hrow => (tally _ _).trans (h.acked row hrow))
    (fun row hrow => (tally _ _).trans (h.rejected row hrow))
  · rintro tick ⟨⟩
    have batch : (Tick.mk (marked ++ [⟨row, error, now⟩]) none rest).batch =
        (Tick.mk marked (some (row, error)) rest).batch := by simp [Tick.batch]
    rw [batch]
    exact h.held t _ running
  · rintro tick ⟨⟩
    refine (h.emitted t _ running).trans ?_
    simp [Tick.emitted]
  · rintro record (hrecord | hrecord)
    · exact h.known record (.inl hrecord)
    · exact h.known_batch running (List.mem_append_right _ hrecord)

theorem abort (h : Accounted s) (running : s.phase t = .running tick) :
    Accounted (s.abort t tick) := by
  have tally : ∀ id acked, (s.abort t tick).tally id acked = s.tally id acked := by
    refine tally_of_phase rfl rfl ?_
    rw [running]
    rfl
  refine h.of_frame
    { moved := rfl
      started := by simp
      lock := fun _ hu _ locked => Locks.release_of_held locked hu
      kept := fun _ _ row hrow _ => hrow
      rows := fun row hrow => ⟨row, hrow, rfl⟩
      emitsOf := fun _ _ => rfl }
    ?_ ?_ ?_ (fun row hrow => (tally _ _).trans (h.acked row hrow))
    (fun row hrow => (tally _ _).trans (h.rejected row hrow))
  · rintro _ ⟨⟩
  · rintro _ ⟨⟩
  · rintro record (hrecord | hrecord)
    · exact h.known record (.inl hrecord)
    · have next : record ∈ tick.next.toList := hrecord
      exact h.known_batch running (List.mem_append_right _ (tick.next_mem next))

theorem emit (h : Accounted s) {error : Option String} {row : OutboxRecord P}
    (emitted : (s.phase t).emit error = some (row, phase)) :
    Accounted (s.emit t row error phase) := by
  have tally : ∀ id acked, (s.emit t row error phase).tally id acked = s.tally id acked := by
    intro id acked
    rcases Phase.emit_cases emitted with ⟨marked, rest, before, rfl⟩ | ⟨before, rfl⟩
    · exact tally_emit (by rw [before]; rfl) rfl id acked
    · exact tally_emit (by rw [before]; rfl) rfl id acked
  have started : phase ≠ .idle := by
    rcases Phase.emit_cases emitted with ⟨marked, rest, before, rfl⟩ | ⟨before, rfl⟩
    · rintro ⟨⟩
    · rintro ⟨⟩
  have ahead : row ∈ (s.phase t).ahead ∧ ∀ record ∈ phase.ahead, record ∈ (s.phase t).ahead := by
    rcases Phase.emit_cases emitted with ⟨marked, rest, before, rfl⟩ | ⟨before, rfl⟩ <;> rw [before]
    · exact ⟨List.mem_cons_self, fun record hrecord => List.mem_cons_of_mem _ hrecord⟩
    · exact ⟨List.mem_singleton_self row, fun record hrecord => absurd hrecord List.not_mem_nil⟩
  refine h.of_frame
    { moved := rfl
      started := started
      lock := fun _ _ _ locked => locked
      kept := fun _ _ row hrow _ => hrow
      rows := fun row hrow => ⟨row, hrow, rfl⟩
      emitsOf := fun u hu => emitsOf_emit_of_ne hu }
    ?_ ?_ ?_ (fun row hrow => (tally _ _).trans (h.acked row hrow))
    (fun row hrow => (tally _ _).trans (h.rejected row hrow))
  · rintro tick rfl
    rcases Phase.emit_cases emitted with ⟨marked, rest, before, after⟩ | ⟨-, ⟨⟩⟩
    have batch : tick.batch = (Tick.mk marked none (row :: rest)).batch := by
      rw [Phase.running.inj after]
      simp [Tick.batch]
    rw [batch]
    exact h.held t _ before
  · rintro tick rfl
    rcases Phase.emit_cases emitted with ⟨marked, rest, before, after⟩ | ⟨-, ⟨⟩⟩
    rw [emitsOf_emit, List.map_append, h.emitted t _ before, Phase.running.inj after]
    simp [Tick.emitted]
  · rintro record (⟨e, he, rfl⟩ | hrecord)
    · rcases List.mem_append.1 he with he | he
      · exact h.known e.row (.inl ⟨e, he, rfl⟩)
      · rw [List.mem_singleton.1 he]
        exact h.known row (.inr ⟨t, ahead.1⟩)
    · exact h.known record (.inr ⟨t, ahead.2 record hrecord⟩)

/-- The marks of a tick that is about to commit are of its rows, one for each. -/
theorem marked_rows (h : Accounted s) {marked : List (Marked P)}
    (running : s.phase t = .running { marked, sent := none, rest := [] }) :
    Table.Unique (fun m => m.row.id) marked ∧ ∀ m ∈ marked, s.lock m.row.id = some t ∧
      ∃ row ∈ s.table.rows, row.status = .pending ∧ row.record = m.row := by
  obtain ⟨nodup, held⟩ := h.held t _ running
  have batch : (Tick.mk marked none []).batch = marked.map fun m => m.row := by simp [Tick.batch]
  rw [batch] at nodup held
  rw [List.map_map] at nodup
  exact ⟨nodup, fun m hm => held m.row (List.mem_map_of_mem hm)⟩

/-- What a tick that is about to commit has emitted of a row. -/
theorem count_marked (h : Accounted s) {marked : List (Marked P)}
    (running : s.phase t = .running { marked, sent := none, rest := [] }) (id : OutboxId)
    (acked : Bool) : (s.emitsOf t).countP (fun e => e.row.id = id ∧ e.acked = acked) =
      marked.countP fun m => m.row.id = id ∧ m.error.isNone = acked := by
  have emitted : ((s.emitsOf t).map fun e => (e.row, e.error)) =
      marked.map fun m => (m.row, m.error) := by
    rw [h.emitted t _ running]
    simp [Tick.emitted]
  have count := congrArg
    (List.countP fun x : OutboxRecord P × Option String => x.1.id = id ∧ x.2.isNone = acked) emitted
  rw [List.countP_map, List.countP_map] at count
  exact count

/-- The commit of a tick, for one row: its mark accounts for its emit. -/
theorem count_written (h : Accounted s) {config : RelayConfig} {marked : List (Marked P)}
    (running : s.phase t = .running { marked, sent := none, rest := [] }) {row : OutboxEvent P}
    (hrow : row ∈ s.table.rows) :
    s.tally row.id true + (marked.countP fun m => m.row.id = row.id ∧ m.error.isNone = true) =
        (if (row.written (marked.map config.write)).status = .published then 1 else 0) ∧
      s.tally row.id false + (marked.countP fun m => m.row.id = row.id ∧ m.error.isNone = false) =
        (row.written (marked.map config.write)).attempts := by
  obtain ⟨unique, rows⟩ := h.marked_rows running
  have acked := h.acked row hrow
  have rejected := h.rejected row hrow
  by_cases hit : ∃ m ∈ marked, m.row.id = row.id
  · obtain ⟨m, hm, hid⟩ := hit
    obtain ⟨-, row', hrow', pending, record⟩ := rows m hm
    obtain rfl : row = row' := by
      refine s.table.eq_of_id hrow hrow' ?_
      rw [← hid, ← record]
      rfl
    have written : row.written (marked.map config.write) = (config.write m).set.apply row := by
      refine OutboxEvent.written_of_mem ?_ (List.mem_map_of_mem hm) ?_
      · rw [config.write_ids]
        exact unique
      · rw [config.write_id m, hid]
    have attempts : m.row.attempts = row.attempts := by rw [← record]; rfl
    have good := unique.countP_key hm fun m => decide (m.error.isNone = true)
    have bad := unique.countP_key hm fun m => decide (m.error.isNone = false)
    simp only [hid, decide_eq_true_eq] at good bad
    rw [written, good, bad, acked, rejected, pending]
    cases error : m.error with
    | none =>
      obtain ⟨status, count⟩ := config.write_acked error row
      rw [status, count]
      exact ⟨rfl, rfl⟩
    | some message =>
      obtain ⟨status, count⟩ := config.write_rejected error pending
      rw [if_neg status, count, attempts]
      exact ⟨rfl, rfl⟩
  · have missed : ∀ q : Marked P → Bool,
        marked.countP (fun m => m.row.id = row.id ∧ q m = true) = 0 := by
      intro q
      refine List.countP_eq_zero.2 fun m hm hit' => hit ⟨m, hm, (of_decide_eq_true hit').1⟩
    have same : row.written (marked.map config.write) = row := by
      refine OutboxEvent.written_of_not_mem fun hmem => hit ?_
      rw [config.write_ids] at hmem
      obtain ⟨m, hm, hid⟩ := List.mem_map.1 hmem
      exact ⟨m, hm, hid⟩
    have good := missed fun m => decide (m.error.isNone = true)
    have bad := missed fun m => decide (m.error.isNone = false)
    simp only [decide_eq_true_eq] at good bad
    rw [same, good, bad]
    exact ⟨acked, rejected⟩

theorem commit (h : Accounted s) (config : RelayConfig) {marked : List (Marked P)}
    (running : s.phase t = .running { marked, sent := none, rest := [] }) :
    Accounted (s.commit t config marked) := by
  obtain ⟨-, rows⟩ := h.marked_rows running
  have open_ : (s.phase t).isCommitted = false := by rw [running]; rfl
  have table : (s.commit t config marked).table.rows =
      s.table.rows.map fun row => row.written (marked.map config.write) :=
    OutboxTable.commit_rows
  have counts : ∀ row ∈ (s.commit t config marked).table.rows,
      (s.commit t config marked).tally row.id true = (if row.status = .published then 1 else 0) ∧
        (s.commit t config marked).tally row.id false = row.attempts := by
    intro row hrow
    rw [table] at hrow
    obtain ⟨row, present, rfl⟩ := List.mem_map.1 hrow
    rw [OutboxEvent.written_id, tally_commit config marked open_, tally_commit config marked open_,
      h.count_marked running, h.count_marked running]
    exact h.count_written running present
  refine h.of_frame
    { moved := rfl
      started := by simp
      lock := fun _ hu _ locked => Locks.release_of_held locked hu
      kept := ?_
      rows := ?_
      emitsOf := fun _ _ => rfl }
    ?_ ?_ ?_ (fun row hrow => (counts row hrow).1) (fun row hrow => (counts row hrow).2)
  · intro u hu row hrow locked
    have other : row.written (marked.map config.write) = row := by
      refine OutboxEvent.written_of_not_mem fun hmem => ?_
      obtain ⟨write, hwrite, hid⟩ := List.mem_map.1 hmem
      obtain ⟨m, hm, rfl⟩ := List.mem_map.1 hwrite
      rw [config.write_id] at hid
      have own := (rows m hm).1
      rw [hid, locked] at own
      exact hu (Option.some.inj own)
    rw [table]
    exact List.mem_map.2 ⟨row, hrow, other⟩
  · intro row hrow
    rw [table]
    exact ⟨_, List.mem_map_of_mem hrow, OutboxEvent.written_inserted⟩
  · rintro _ ⟨⟩
  · rintro _ ⟨⟩
  · rintro record (hrecord | hrecord)
    · exact h.known record (.inl hrecord)
    · cases hrecord

/-- Every step keeps the invariant. -/
theorem of_moves (h : Accounted s) {config : RelayConfig} {a : Label P}
    (move : Moves config s a s') : Accounted s' := by
  cases move with
  | insert added => exact h.insert added
  | fetch idle ordering => exact h.fetch idle ordering config.batchSize
  | emit emitted => exact h.emit emitted
  | mark running => exact h.mark running
  | commit running => exact h.commit config running
  | abort running => exact h.abort running

theorem of_start [DecidableEq P] {config : RelayConfig} (h : (outbox config).start s) :
    Accounted s := by
  obtain ⟨rows, -, emits, phase⟩ := h
  refine ⟨fun t tick running => ?_, fun t tick running => ?_, fun t _ => ?_,
    fun record hrecord => ?_, fun row hrow => ?_, fun row hrow => ?_⟩
  · rw [phase] at running
    cases running
  · rw [phase] at running
    cases running
  · rw [State.emitsOf, emits, List.filter_nil]
  · rcases hrecord with ⟨e, he, -⟩ | ⟨t, ht⟩
    · rw [emits] at he
      cases he
    · rw [phase] at ht
      cases ht
  · rw [rows] at hrow
    cases hrow
  · rw [rows] at hrow
    cases hrow

end Accounted

end EstateServer.Outbox
