import EstateServer.Notifications.Requests
import Mathlib.Algebra.Order.BigOperators.Group.List
import Mathlib.Algebra.Order.Group.Nat
import Mathlib.Data.Set.Basic

/-!
# Failed and redelivered events

One `HandleEventUseCase` after the other for the same event, each of which throws somewhere, and a
last one that completes.  The rows end up as after one execution that never fails; the unread
counters do if and only if no execution has thrown between the row and the increment of a recipient
whose counter was right (`redelivery_iff`): the row is there, so the next execution skips the recipient.

`Progress` says what an execution has done, complete or not, and composes (`Progress.trans`).
`ends_execute` runs an execution as a process of the machine.
-/

namespace EstateServer.Notifications

open Machine

structure Store where
  table : NotificationTable
  counter : NotificationCounter

/-- Where an execution throws. -/
inductive Fault
  | resolver
  /-- `saveIfNew` throws, and there is no row. -/
  | save (recipientId : Auth.UserId)
  /-- The insert commits, and `saveIfNew` throws. -/
  | saved (recipientId : Auth.UserId)
  /-- The counter throws before it is incremented. -/
  | increment (recipientId : Auth.UserId)
  deriving DecidableEq, Repr

/-- `cuid()`: an id that no row has. -/
structure Cuid where
  next : List NotificationId → NotificationId
  fresh : ∀ ids, next ids ∉ ids

/-- What an execution draws, and where it throws. -/
structure Execution where
  cuid : Cuid
  now : Auth.UserId → Instant
  fault : Option Fault

/-- The execution throws after the row of the recipient and before the increment. -/
def Execution.Loses (x : Execution) (recipientId : Auth.UserId) : Prop :=
  x.fault = some (.saved recipientId) ∨ x.fault = some (.increment recipientId)

instance (x : Execution) (recipientId : Auth.UserId) : Decidable (x.Loses recipientId) :=
  inferInstanceAs (Decidable (_ ∨ _))

/-- The row that the execution saves for a recipient. -/
def Execution.row (x : Execution) (event : DomainEvent Payload) (content : NotificationContent)
    (recipientId : Auth.UserId) (table : NotificationTable) : NotificationRow :=
  (Notification.create event content recipientId).row (x.cuid.next (table.rows.map (·.id)))
    (x.now recipientId)

/-- The draw of the step that saves it. -/
def Execution.draw (x : Execution) (recipientId : Auth.UserId) (table : NotificationTable) : Draw where
  recipients := []
  id := x.cuid.next (table.rows.map (·.id))
  now := x.now recipientId
  relay := true

/-- The loop of `execute`: the store afterwards, and whether the loop completes. -/
def fanOut (x : Execution) (event : DomainEvent Payload) (content : NotificationContent) :
    List Auth.UserId → Store → Store × Bool
  | [], s => (s, true)
  | recipientId :: rest, s =>
    if x.fault = some (.save recipientId) then (s, false)
    else
      match s.table.saveIfNew (x.row event content recipientId s.table) with
      | none => fanOut x event content rest s
      | some table =>
        if x.Loses recipientId then ({ s with table }, false)
        else
          fanOut x event content rest
            { table, counter := s.counter.increment (some recipientId) }

/-- `HandleEventUseCase.execute`, with the recipients that the resolver returns. -/
def execute (x : Execution) (event : DomainEvent Payload) (recipients : List Auth.UserId)
    (s : Store) : Store × Bool :=
  match buildContent event with
  | none => (s, true)
  | some content =>
    if x.fault = some .resolver then (s, false) else fanOut x event content recipients s

/-- Executions one after the other, each of which throws. -/
def redeliver (event : DomainEvent Payload) (recipients : List Auth.UserId) :
    List Execution → Store → Option Store
  | [], s => some s
  | x :: rest, s =>
    match execute x event recipients s with
    | (_, true) => none
    | (s', false) => redeliver event recipients rest s'

/-! ## What is compared -/

/-- A row without the id and the instant that the database draws. -/
def NotificationRow.data (row : NotificationRow) : Notification where
  id := none
  recipientId := row.recipientId
  type := row.type
  title := row.title
  body := row.body
  entityType := row.entityType
  entityId := row.entityId
  buildingId := row.buildingId
  eventId := row.eventId
  readAt := row.readAt
  createdAt := none

/-- The notifications of the table, apart from drawn columns. -/
def Store.notifications (s : Store) : Set Notification := {n | ∃ row ∈ s.table.rows, row.data = n}

/-- The unread counter is there, and is right. -/
def Store.Tracked (s : Store) (recipientId : Auth.UserId) : Prop :=
  s.counter (some recipientId) = some (s.table.countUnread (some recipientId))

/-- The same notifications, and the same counters of the recipients that `s` tracks. -/
def Same (recipients : List Auth.UserId) (s t u : Store) : Prop :=
  t.notifications = u.notifications ∧
    ∀ r ∈ recipients, s.Tracked r → t.counter (some r) = u.counter (some r)

/-! ## Progress -/

/-- The recipient has no row for the event. -/
def Store.New (s : Store) (event : DomainEvent Payload) (r : Auth.UserId) : Prop :=
  (event.eventId, r) ∉ s.table.rows.map (·.pair)

/-- From `s` to `t` the recipients `served` have got their rows, and those that had none their
increments, but for the recipients `lost`. -/
structure Progress (event : DomainEvent Payload) (content : NotificationContent) (s t : Store)
    (served lost : Set Auth.UserId) : Prop where
  rows : ∀ n, n ∈ t.notifications ↔
    n ∈ s.notifications ∨ ∃ r ∈ served, s.New event r ∧ Notification.create event content r = n
  counted : ∀ r ∈ served, s.New event r → r ∉ lost →
    t.counter (some r) = (s.counter (some r)).map (· + 1)
  kept : ∀ r, (r ∈ served → s.New event r → r ∈ lost) → t.counter (some r) = s.counter (some r)
  lost : ∀ r ∈ lost, r ∈ served ∧ s.New event r

variable {x : Execution} {event : DomainEvent Payload} {content : NotificationContent}
  {recipients : List Auth.UserId} {s t u : Store} {served served' lost lost' : Set Auth.UserId}
  {r : Auth.UserId}

theorem Store.new_iff : s.New event r ↔
    ∀ n ∈ s.notifications, ¬(n.eventId = event.eventId ∧ n.recipientId = r) := by
  unfold New
  rw [List.mem_map]
  constructor
  · rintro new n ⟨row, hrow, rfl⟩ ⟨eventId, recipientId⟩
    exact new ⟨row, hrow, Prod.ext eventId recipientId⟩
  · rintro new ⟨row, hrow, same⟩
    obtain ⟨eventId, recipientId⟩ := Prod.mk.inj same
    exact new row.data ⟨row, hrow, rfl⟩ ⟨eventId, recipientId⟩

namespace Progress

theorem refl : Progress event content s s ∅ ∅ := by
  refine ⟨fun n => ?_, ?_, fun _ _ => rfl, ?_⟩
  · simp
  · intro r hr
    cases hr
  · intro r hr
    cases hr

/-- Whoever has been served is not new any more. -/
theorem new_iff (h : Progress event content s t served lost) :
    t.New event r ↔ s.New event r ∧ r ∉ served := by
  rw [Store.new_iff]
  constructor
  · intro new
    have before : s.New event r := Store.new_iff.2 fun n hn => new n ((h.rows n).2 (.inl hn))
    refine ⟨before, fun hr => ?_⟩
    exact new _ ((h.rows _).2 (.inr ⟨r, hr, before, rfl⟩)) ⟨rfl, rfl⟩
  · rintro ⟨before, apart⟩ n hn ⟨eventId, recipientId⟩
    rcases (h.rows n).1 hn with old | ⟨r', hr', -, rfl⟩
    · exact Store.new_iff.1 before n old ⟨eventId, recipientId⟩
    · exact apart (recipientId ▸ hr')

theorem trans (h : Progress event content s t served lost)
    (h' : Progress event content t u served' lost') :
    Progress event content s u (served ∪ served') (lost ∪ lost') := by
  refine ⟨fun n => ?_, ?_, ?_, ?_⟩
  · rw [h'.rows, h.rows]
    constructor
    · rintro ((old | ⟨r, hr, new, made⟩) | ⟨r, hr, new, made⟩)
      · exact .inl old
      · exact .inr ⟨r, .inl hr, new, made⟩
      · exact .inr ⟨r, .inr hr, (h.new_iff.1 new).1, made⟩
    · rintro (old | ⟨r, hr, new, made⟩)
      · exact .inl (.inl old)
      · by_cases first : r ∈ served
        · exact .inl (.inr ⟨r, first, new, made⟩)
        · exact .inr ⟨r, hr.resolve_left first, h.new_iff.2 ⟨new, first⟩, made⟩
  · rintro r hr new whole
    rw [Set.mem_union, not_or] at whole
    by_cases first : r ∈ served
    · rw [h'.kept r fun _ still => absurd first (h.new_iff.1 still).2]
      exact h.counted r first new whole.1
    · rw [h'.counted r (hr.resolve_left first) (h.new_iff.2 ⟨new, first⟩) whole.2]
      rw [h.kept r fun hr => absurd hr first]
  · intro r skipped
    have first : t.counter (some r) = s.counter (some r) := by
      refine h.kept r fun hr new => (skipped (.inl hr) new).resolve_right fun lost => ?_
      exact (h.new_iff.1 (h'.lost r lost).2).2 hr
    rw [← first]
    refine h'.kept r fun hr still => (skipped (.inr hr) (h.new_iff.1 still).1).resolve_left ?_
    exact fun lost => (h.new_iff.1 still).2 (h.lost r lost).1
  · rintro r (hr | hr)
    · exact ⟨.inl (h.lost r hr).1, (h.lost r hr).2⟩
    · exact ⟨.inr (h'.lost r hr).1, (h.new_iff.1 (h'.lost r hr).2).1⟩

/-- The recipient has its row already. -/
theorem skip (old : ¬s.New event r) : Progress event content s s {r} ∅ := by
  refine ⟨fun n => ⟨.inl, ?_⟩, ?_, fun _ _ => rfl, ?_⟩
  · rintro (here | ⟨_, rfl, new, -⟩)
    · exact here
    · exact absurd new old
  · rintro _ rfl new
    exact absurd new old
  · rintro _ ⟨⟩

/-- The recipient gets its row, and its increment or not. -/
theorem save {table : NotificationTable}
    (saved : s.table.saveIfNew (x.row event content r s.table) = some table) :
    Progress event content s { s with table } {r} {r} ∧
      Progress event content s { table, counter := s.counter.increment (some r) } {r} ∅ := by
  obtain ⟨rows, new⟩ := NotificationTable.saveIfNew_eq_some saved
  have notifications : ∀ counter n, n ∈ (⟨table, counter⟩ : Store).notifications ↔
      n ∈ s.notifications ∨ ∃ r' ∈ ({r} : Set Auth.UserId), s.New event r' ∧
        Notification.create event content r' = n := by
    intro counter n
    have created : (x.row event content r s.table).data = Notification.create event content r := rfl
    show (∃ row ∈ table.rows, row.data = n) ↔ _
    rw [rows]
    constructor
    · rintro ⟨row, hrow, rfl⟩
      rcases List.mem_append.1 hrow with old | last
      · exact .inl ⟨row, old, rfl⟩
      · rw [List.mem_singleton.1 last, created]
        exact .inr ⟨r, rfl, new, rfl⟩
    · rintro (⟨row, hrow, rfl⟩ | ⟨_, rfl, -, rfl⟩)
      · exact ⟨row, List.mem_append_left _ hrow, rfl⟩
      · exact ⟨_, List.mem_concat_self, created⟩
  refine ⟨⟨notifications _, ?_, fun _ _ => rfl, ?_⟩, ⟨notifications _, ?_, ?_, ?_⟩⟩
  · rintro _ rfl - kept
    exact absurd rfl kept
  · rintro _ rfl
    exact ⟨rfl, new⟩
  · rintro _ rfl - -
    exact if_pos rfl
  · intro r' kept
    refine if_neg fun same => ?_
    obtain rfl := Option.some.inj same
    exact kept rfl new
  · rintro _ ⟨⟩

end Progress

/-! ## Executions -/

/-- The recipients whose increments the execution leaves out. -/
def Execution.loses (x : Execution) : Set Auth.UserId := {r | x.Loses r}

/-- What an execution achieves: it serves recipients, all of them and without a loss when it
completes. -/
def Achieves (x : Execution) (event : DomainEvent Payload) (content : NotificationContent)
    (recipients : List Auth.UserId) (s : Store) (out : Store × Bool) : Prop :=
  ∃ served, Progress event content s out.1 served (if out.2 then ∅ else x.loses) ∧
    (∀ r ∈ served, r ∈ recipients) ∧ (out.2 = true → ∀ r ∈ recipients, r ∈ served)

theorem Achieves.throws (h : Progress event content s t served x.loses)
    (only : ∀ r ∈ served, r ∈ recipients) : Achieves x event content recipients s (t, false) :=
  ⟨served, h, only, fun completes => by cases completes⟩

theorem Achieves.nothing (h : x.loses = ∅) : Achieves x event content recipients s (s, false) := by
  have none : Progress event content s s ∅ x.loses := by
    rw [h]
    exact .refl
  exact .throws none fun r hr => absurd hr (Set.notMem_empty r)

theorem Execution.loses_eq_empty (h : ∀ r, ¬x.Loses r) : x.loses = ∅ :=
  Set.eq_empty_of_forall_notMem h

/-- An execution throws only once. -/
theorem Execution.Loses.loses_eq (h : x.Loses r) : x.loses = {r} := by
  ext r'
  show x.Loses r' ↔ r' = r
  rcases h with h | h
  · simp [Execution.Loses, h, eq_comm]
  · simp [Execution.Loses, h, eq_comm]

theorem fanOut_achieves (x : Execution) (recipients : List Auth.UserId) (s : Store) :
    Achieves x event content recipients s (fanOut x event content recipients s) := by
  induction recipients generalizing s with
  | nil =>
    refine ⟨∅, .refl, fun r hr => absurd hr (Set.notMem_empty r), fun _ r hr => ?_⟩
    exact absurd hr List.not_mem_nil
  | cons r rest ih =>
    have goesOn : ∀ t, Progress event content s t {r} ∅ →
        Achieves x event content (r :: rest) s (fanOut x event content rest t) := by
      intro t first
      obtain ⟨served, progress, only, all⟩ := ih t
      refine ⟨{r} ∪ served, ?_, ?_, fun completes r' hr' => ?_⟩
      · have both := first.trans progress
        rwa [Set.empty_union] at both
      · rintro r' (rfl | hr')
        · exact List.mem_cons_self
        · exact List.mem_cons_of_mem _ (only r' hr')
      · rcases List.mem_cons.1 hr' with rfl | hr'
        · exact .inl rfl
        · exact .inr (all completes r' hr')
    unfold fanOut
    by_cases at_save : x.fault = some (.save r)
    · rw [if_pos at_save]
      exact .nothing (x.loses_eq_empty fun r' => by simp [Execution.Loses, at_save])
    · rw [if_neg at_save]
      cases saved : s.table.saveIfNew (x.row event content r s.table) with
      | none =>
        have old := NotificationTable.pair_of_saveIfNew saved (x.cuid.fresh _)
        exact goesOn s (.skip (not_not_intro old))
      | some table =>
        obtain ⟨thrown, whole⟩ := Progress.save saved
        show Achieves x event content (r :: rest) s (if x.Loses r then _ else _)
        by_cases loses : x.Loses r
        · rw [if_pos loses]
          rw [← loses.loses_eq] at thrown
          refine .throws thrown fun r' hr' => ?_
          rw [loses.loses_eq] at hr'
          exact List.mem_cons.2 (.inl hr')
        · rw [if_neg loses]
          exact goesOn _ whole

theorem execute_achieves (notified : buildContent event = some content) (x : Execution)
    (recipients : List Auth.UserId) (s : Store) :
    Achieves x event content recipients s (execute x event recipients s) := by
  unfold execute
  rw [notified]
  show Achieves x event content recipients s (if x.fault = some .resolver then _ else _)
  by_cases resolver : x.fault = some .resolver
  · rw [if_pos resolver]
    exact .nothing (x.loses_eq_empty fun r => by simp [Execution.Loses, resolver])
  · rw [if_neg resolver]
    exact fanOut_achieves x recipients s

theorem fanOut_completes (never : x.fault = none) :
    (fanOut x event content recipients s).2 = true := by
  induction recipients generalizing s with
  | nil => rfl
  | cons r rest ih =>
    simp only [fanOut, Execution.Loses, never, reduceCtorEq, or_self, if_false]
    split <;> exact ih

theorem execute_completes (never : x.fault = none) :
    (execute x event recipients s).2 = true := by
  unfold execute
  split
  · rfl
  · simp only [never, reduceCtorEq, if_false]
    exact fanOut_completes never

/-! ## Deliveries -/

/-- The recipients whose increments one of the executions leaves out. -/
def losses (failed : List Execution) : Set Auth.UserId := fun r => ∃ x ∈ failed, r ∈ x.loses

theorem losses_nil : losses [] = ∅ := Set.eq_empty_of_forall_notMem fun r => by rintro ⟨x, ⟨⟩, -⟩

theorem losses_cons {failed : List Execution} : losses (x :: failed) = x.loses ∪ losses failed := by
  ext r
  show (∃ y ∈ x :: failed, r ∈ y.loses) ↔ r ∈ x.loses ∨ ∃ y ∈ failed, r ∈ y.loses
  rw [List.exists_mem_cons_iff]

theorem redeliver_progress (notified : buildContent event = some content)
    {failed : List Execution} (h : redeliver event recipients failed s = some t) :
    ∃ served, Progress event content s t served (losses failed) ∧ ∀ r ∈ served, r ∈ recipients := by
  induction failed generalizing s with
  | nil =>
    obtain rfl := Option.some.inj h
    refine ⟨∅, ?_, fun r hr => absurd hr (Set.notMem_empty r)⟩
    rw [losses_nil]
    exact .refl
  | cons x failed ih =>
    obtain ⟨served, progress, only, -⟩ := execute_achieves notified x recipients s
    unfold redeliver at h
    generalize execute x event recipients s = out at h progress
    obtain ⟨s', completes⟩ := out
    cases completes with
    | true => cases h
    | false =>
      obtain ⟨served', progress', only'⟩ := ih h
      refine ⟨served ∪ served', ?_, fun r hr => hr.elim (only r) (only' r)⟩
      rw [losses_cons]
      exact progress.trans progress'

/-- Deliveries that throw and a last one that completes serve everybody. -/
theorem redeliver_completes (notified : buildContent event = some content)
    {failed : List Execution} {last : Execution} (fails : redeliver event recipients failed s = some t)
    (completes : (execute last event recipients t).2 = true) :
    Progress event content s (execute last event recipients t).1 (fun r => r ∈ recipients)
      (losses failed) := by
  obtain ⟨served, progress, only⟩ := redeliver_progress notified fails
  obtain ⟨served', progress', only', all⟩ := execute_achieves notified last recipients t
  rw [if_pos completes] at progress'
  have both := progress.trans progress'
  have everybody : (served ∪ served' : Set Auth.UserId) = fun r => r ∈ recipients := by
    ext r
    exact ⟨fun hr => hr.elim (only r) (only' r), fun hr => .inr (all completes r hr)⟩
  rwa [Set.union_empty, everybody] at both

/-- Two ways to serve the same recipients, the second one without a loss. -/
theorem Progress.same_iff (h : Progress event content s t served lost)
    (h' : Progress event content s u served ∅) (all : ∀ r, r ∈ served ↔ r ∈ recipients) :
    Same recipients s t u ↔ ∀ r ∈ lost, ¬s.Tracked r := by
  constructor
  · rintro ⟨-, counters⟩ r hr tracked
    obtain ⟨hs, new⟩ := h.lost r hr
    have agree := counters r ((all r).1 hs) tracked
    rw [h.kept r fun _ _ => hr, h'.counted r hs new (Set.notMem_empty r), tracked] at agree
    have shifted : (s.table.countUnread (some r) : ℤ) = s.table.countUnread (some r) + 1 :=
      Option.some.inj agree
    omega
  · intro whole
    refine ⟨Set.ext fun n => (h.rows n).trans (h'.rows n).symm, fun r hr tracked => ?_⟩
    have hs := (all r).2 hr
    have saved : r ∉ lost := fun hl => whole r hl tracked
    by_cases new : s.New event r
    · rw [h.counted r hs new saved, h'.counted r hs new (Set.notMem_empty r)]
    · rw [h.kept r fun _ n => absurd n new, h'.kept r fun _ n => absurd n new]

/-- Failed deliveries followed by one that completes end like one that never fails, if and only if
none has thrown between the row and the increment of a recipient whose counter was right. -/
theorem redelivery_iff (event : DomainEvent Payload) (recipients : List Auth.UserId)
    (failed : List Execution) (last once : Execution) (s t : Store)
    (fails : redeliver event recipients failed s = some t)
    (completes : (execute last event recipients t).2 = true) (never : once.fault = none) :
    Same recipients s (execute last event recipients t).1 (execute once event recipients s).1 ↔
      ∀ x ∈ failed, ∀ r, x.fault = some (.saved r) ∨ x.fault = some (.increment r) → ¬s.Tracked r := by
  cases notified : buildContent event with
  | none =>
    have nothing : ∀ x s, execute x event recipients s = (s, true) := by
      intro x s
      simp only [execute, notified]
    cases failed with
    | nil =>
      obtain rfl := Option.some.inj fails
      rw [nothing, nothing]
      exact ⟨fun _ x hx => absurd hx List.not_mem_nil, fun _ => ⟨rfl, fun _ _ _ => rfl⟩⟩
    | cons x failed =>
      simp only [redeliver, nothing] at fails
      cases fails
  | some content =>
    have h := redeliver_completes notified fails completes
    have h' : Progress event content s (execute once event recipients s).1
        (fun r => r ∈ recipients) (losses []) :=
      redeliver_completes notified rfl (execute_completes never)
    rw [losses_nil] at h'
    rw [h.same_iff h' fun _ => Iff.rfl]
    constructor
    · intro whole x hx r lost
      exact whole r ⟨x, hx, lost⟩
    · rintro whole r ⟨x, hx, lost⟩
      exact whole x hx r lost

/-- An id above all others. -/
def Cuid.above : Cuid where
  next ids := ids.foldr (· + ·) 0 + 1
  fresh ids h := by
    exact Nat.not_succ_le_self _ (List.le_sum_of_mem h)

def attempt (fault : Option Fault) : Execution where
  cuid := .above
  now _ := 0
  fault := fault

/-- Nothing is unread, and the counter of user 1 says so. -/
def allRead : Store where
  table := empty.table
  counter userId := if userId = some 1 then some 0 else none

/-- The first delivery throws at the increment of user 1, and the second one skips the user. -/
theorem increment_lost : ∃ t, redeliver (posted 7) [1] [attempt (some (.increment 1))] allRead = some t ∧
    (execute (attempt none) (posted 7) [1] t).2 = true ∧
    allRead.Tracked 1 ∧
    (execute (attempt none) (posted 7) [1] t).1.counter (some 1) = some 0 ∧
    (execute (attempt none) (posted 7) [1] allRead).1.counter (some 1) = some 1 ∧
    ¬Same [1] allRead (execute (attempt none) (posted 7) [1] t).1
      (execute (attempt none) (posted 7) [1] allRead).1 := by
  refine ⟨_, rfl, by decide, rfl, by decide, by decide, fun same => ?_⟩
  have agree := same.2 1 List.mem_cons_self rfl
  revert agree
  decide

/-- The deliveries throw at the resolver, at the row of user 2 and after it; user 2 has no counter. -/
theorem redelivery_iff_rows : ∃ t, redeliver (posted 7) [1, 2]
      [attempt (some .resolver), attempt (some (.save 2)), attempt (some (.saved 2))] allRead = some t ∧
    Same [1, 2] allRead (execute (attempt none) (posted 7) [1, 2] t).1
      (execute (attempt none) (posted 7) [1, 2] allRead).1 := by
  have untracked : ¬allRead.Tracked 2 := by
    intro tracked
    cases tracked
  refine ⟨_, rfl, (redelivery_iff (posted 7) [1, 2]
    [attempt (some .resolver), attempt (some (.save 2)), attempt (some (.saved 2))] (attempt none)
    (attempt none) allRead _ rfl (by decide) rfl).2 ?_⟩
  simp [attempt, untracked]

/-! ## Executions as processes -/

def State.store (s : State) : Store := ⟨s.table, s.counter⟩

/-- How an execution ends. -/
def outcome (completes : Bool) : Phase := .done (if completes then .handled else .aborted)

variable {p : Pid} {m n : State} {out : Store × Bool}

/-- Some run of the machine in which `p` ends with this store. -/
def Ends (m : State) (p : Pid) (out : Store × Bool) : Prop :=
  ∃ tr n, notifications.Run Any m tr n ∧ n.store = out.1 ∧ n.phase p = outcome out.2

/-- The process takes a step. -/
theorem Ends.step {phase : Phase} (at_phase : m.phase p = phase) (draw : Draw)
    (step : phase.step m p draw = some n) (h : Ends n p out) : Ends m p out := by
  obtain ⟨tr, l, run, store, ended⟩ := h
  have first : notifications.next m (.step p draw) = some n := by
    rw [← step, ← at_phase]
    rfl
  exact ⟨_, l, (Run.single trivial first).trans run, store, ended⟩

/-- The process throws. -/
theorem Ends.fail {phase : Phase} (at_phase : m.phase p = phase) (begun : phase ≠ .idle)
    (live : ∀ result, phase ≠ .done result) : Ends m p (m.store, false) := by
  refine ⟨_, m.enter p (.done .aborted), Run.single (a := .fail p) trivial ?_, rfl,
    Function.update_self ..⟩
  show State.next m (.fail p) = _
  simp only [State.next, at_phase]

theorem ends_fanOut (x : Execution) (recipients : List Auth.UserId) (m : State)
    (at_save : m.phase p = .save ⟨event, content, recipients⟩) :
    Ends m p (fanOut x event content recipients m.store) := by
  induction recipients generalizing m with
  | nil => exact .step at_save default rfl ⟨[], _, .refl _, rfl, Function.update_self ..⟩
  | cons r rest ih =>
    have row : (Notification.create event content r).row (x.draw r m.table).id (x.draw r m.table).now =
        x.row event content r m.table := rfl
    unfold fanOut
    by_cases at_fault : x.fault = some (.save r)
    · rw [if_pos at_fault]
      exact .fail at_save (by simp) (by simp)
    · rw [if_neg at_fault]
      cases saved : m.store.table.saveIfNew (x.row event content r m.store.table) with
      | none =>
        change m.table.saveIfNew (x.row event content r m.table) = none at saved
        refine .step at_save (x.draw r m.table) ?_ (ih (m.enter p (.save ⟨event, content, rest⟩))
          (Function.update_self ..))
        simp only [Phase.step, row, saved]
      | some table =>
        change m.table.saveIfNew (x.row event content r m.table) = some table at saved
        refine .step at_save (x.draw r m.table) (n := { m with table }.enter p
          (.increment ⟨event, content, rest⟩ (x.row event content r m.table))) ?_ ?_
        · simp only [Phase.step, row, saved]
        show Ends _ p (if x.Loses r then _ else _)
        by_cases loses : x.Loses r
        · rw [if_pos loses]
          exact .fail (Function.update_self ..) (by simp) (by simp)
        · rw [if_neg loses]
          -- the increment, and then the push
          refine .step (Function.update_self ..) default rfl ?_
          refine .step (Function.update_self ..) default rfl ?_
          exact ih _ (Function.update_self ..)

/-- An execution is the work of one process of the machine. -/
theorem ends_execute (x : Execution) (event : DomainEvent Payload)
    (recipients : List Auth.UserId) (m : State) (idle : m.phase p = .idle) :
    Ends m p (execute x event recipients m.store) := by
  have arrives : notifications.next m (.arrive p (.handleEvent event)) =
      some (m.enter p (Request.start (.handleEvent event))) := if_pos idle
  have after : Ends (m.enter p (Request.start (.handleEvent event))) p
      (execute x event recipients m.store) := by
    unfold execute
    cases notified : buildContent event with
    | none =>
      refine ⟨[], _, .refl _, rfl, ?_⟩
      simp only [Request.start, notified]
      exact Function.update_self ..
    | some content =>
      have at_resolve : (m.enter p (Request.start (.handleEvent event))).phase p =
          .resolve event content := by
        simp only [Request.start, notified]
        exact Function.update_self ..
      show Ends _ p (if x.fault = some .resolver then _ else _)
      by_cases at_resolver : x.fault = some .resolver
      · rw [if_pos at_resolver]
        exact .fail at_resolve (by simp) (by simp)
      · rw [if_neg at_resolver]
        refine .step at_resolve { (default : Draw) with recipients } rfl ?_
        exact ends_fanOut x recipients _ (Function.update_self ..)
  obtain ⟨tr, n, run, ended⟩ := after
  exact ⟨_, n, (Run.single trivial arrives).trans run, ended⟩

end EstateServer.Notifications
