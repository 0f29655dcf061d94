import EstateServer.Library.Counter
import EstateServer.Library.Pool
import EstateServer.Notifications.Requests

/-!
# The unread counter

The unread counter of a user against the unread rows, when no call fails and rebuilds stay apart
from the other requests (`Undisturbed`).  In every state with no request in flight the counter is
absent, or it is the number of unread rows plus `drift` (`unread_drift`): the increments and
decrements that were outstanding when the counter was last rebuilt, and one for each decrement that
has met zero since.

`Books` is the invariant: with the increments and decrements that are still outstanding, the counter
is off by just the drift, unless a `MarkAllRead` is about to delete it.
-/

namespace EstateServer.Notifications

open Machine

/-! ## What is outstanding -/

/-- The increment or decrement that a phase still owes to the counter of the user. -/
def owes (u : Auth.UserId) : Phase → ℤ
  | .increment _ created => if created.recipientId = u then 1 else 0
  | .decrement userId => if userId = some u then -1 else 0
  | _ => 0

/-- The increments less the decrements that follow a change of rows and have not been applied. -/
noncomputable def outstanding (u : Auth.UserId) (s : State) : ℤ := Pool.total (owes u) s.phase

/-- The number of unread rows of the user. -/
def unread (u : Auth.UserId) (s : State) : ℤ := s.table.countUnread (some u)

/-- The step rebuilds the counter. -/
def rebuilds (u : Auth.UserId) (st : Step State Label) : Bool :=
  st.pre.counter (some u) = none ∧ st.post.counter (some u) ≠ none

/-- The step is a decrement that meets zero. -/
def clamps (u : Auth.UserId) (st : Step State Label) : Bool :=
  match st.label with
  | .step p _ => st.pre.phase p = .decrement (some u) ∧ st.pre.counter (some u) = some 0
  | _ => false

/-- How far a step takes the counter off. -/
noncomputable def drifts (u : Auth.UserId) (drift : ℤ) (st : Step State Label) : ℤ :=
  if rebuilds u st then outstanding u st.pre else drift + if clamps u st then 1 else 0

/-- What was outstanding when the counter was last rebuilt, and the decrements that have met zero
since. -/
noncomputable def drift (u : Auth.UserId) (tr : List (Step State Label)) : ℤ :=
  tr.foldl (drifts u) 0

/-! ## Undisturbed steps -/

/-- The process has changed rows of the user, and its counter step is next. -/
def Phase.pending (u : Auth.UserId) : Phase → Bool
  | .increment _ created => created.recipientId = u
  | .decrement userId => userId = some u
  | .reset userId => userId = some u
  | _ => false

/-- A request of a user that is `undefined`. -/
def Phase.anonymous : Phase → Bool
  | .markOneRead none _ => true
  | .markAllRead none => true
  | _ => false

/-- No call fails, requests have a user, the counter does not expire while a counter step is
pending, and between the `COUNT` and the `SET NX` of a rebuild no other request changes rows of the
user or takes a counter step. -/
structure Undisturbed (u : Auth.UserId) (s : State) (a : Label) : Prop where
  succeeds : ∀ p, a ≠ .fail p
  named : ∀ p draw, a = .step p draw → (s.phase p).anonymous = false
  kept : a = .expire (some u) → ∀ p, (s.phase p).pending u = false
  apart : ∀ p draw q count, a = .step p draw → q ≠ p → s.phase q = .backfill (some u) count →
    (s.phase p).pending u = false ∧ ∀ t, s.next a = some t → unread u t = unread u s

/-- The process has not begun, or has ended. -/
def Phase.ended : Phase → Bool
  | .idle => true
  | .done _ => true
  | _ => false

/-- No request is in flight. -/
def State.Quiet (s : State) : Prop := ∀ p, (s.phase p).ended = true

/-! ## The books of a user -/

structure Books (u : Auth.UserId) (tr : List (Step State Label)) (s : State) : Prop where
  sparse : Pool.Sparse (owes u) s.phase
  balanced : (∀ p, s.phase p ≠ .reset (some u)) →
    Counter.Balanced (s.counter (some u)) (unread u s) (outstanding u s) (drift u tr)
  /-- A rebuild is about to store the right number. -/
  counted : ∀ p count, s.phase p = .backfill (some u) count → (count : ℤ) = unread u s

variable {u : Auth.UserId} {tr : List (Step State Label)} {s s' : State} {a : Label} {p : Pid}
  {phase : Phase}

theorem drift_concat {st : Step State Label} : drift u (tr ++ [st]) = drifts u (drift u tr) st := by
  unfold drift
  rw [List.foldl_append]
  rfl

/-- A plain phase owes nothing. -/
theorem owes_of_plain (plain : phase.plain) : owes u phase = 0 := by
  cases phase <;> first | rfl | cases plain

theorem owes_of_ended (ended : phase.ended) : owes u phase = 0 ∧ phase ≠ .reset (some u) := by
  cases phase with
  | idle => exact ⟨rfl, by simp⟩
  | done => exact ⟨rfl, by simp⟩
  | _ => cases ended

theorem drifts_of_kept {d : ℤ} (kept : s.counter (some u) = none → s'.counter (some u) = none)
    (whole : clamps u ⟨s, a, s'⟩ = false) : drifts u d ⟨s, a, s'⟩ = d := by
  have none : rebuilds u ⟨s, a, s'⟩ = false := by simpa [rebuilds] using kept
  simp [drifts, none, whole]

theorem clamps_of_phase {draw : Draw} (other : s.phase p ≠ .decrement (some u)) :
    clamps u ⟨s, .step p draw, s'⟩ = false := by
  simp [clamps, other]

namespace Books

/-- A step of the books: the process `p` goes to another phase. -/
theorem book (h : Books u tr s) (undisturbed : Undisturbed u s a) (next : s.next a = some s')
    (phase : Phase) (moved : s'.phase = Function.update s.phase p phase)
    (rows : (∃ draw, a = .step p draw) ∨ unread u s' = unread u s)
    (balanced : phase ≠ .reset (some u) →
      (s.phase p ≠ .reset (some u) →
        Counter.Balanced (s.counter (some u)) (unread u s) (outstanding u s) (drift u tr)) →
      Counter.Balanced (s'.counter (some u)) (unread u s')
        (outstanding u s - owes u (s.phase p) + owes u phase) (drifts u (drift u tr) ⟨s, a, s'⟩))
    (counted : ∀ count, phase = .backfill (some u) count → (count : ℤ) = unread u s') :
    Books u (tr ++ [⟨s, a, s'⟩]) s' := by
  refine ⟨?_, fun none => ?_, fun q count at_backfill => ?_⟩
  · rw [moved]
    exact h.sparse.update
  · rw [moved] at none
    have total : outstanding u s' = outstanding u s - owes u (s.phase p) + owes u phase := by
      unfold outstanding
      rw [moved, Pool.total_update h.sparse]
    rw [drift_concat, total]
    refine balanced ?_ fun other => h.balanced fun q => ?_
    · have := none p
      rwa [Function.update_self] at this
    · rcases eq_or_ne q p with rfl | apart
      · exact other
      · have := none q
        rwa [Function.update_of_ne apart] at this
  · rw [moved] at at_backfill
    rcases eq_or_ne q p with rfl | apart
    · rw [Function.update_self] at at_backfill
      exact counted count at_backfill
    · rw [Function.update_of_ne apart] at at_backfill
      rw [h.counted q count at_backfill]
      rcases rows with ⟨draw, rfl⟩ | same
      · exact ((undisturbed.apart p draw q count rfl apart at_backfill).2 s' next).symm
      · exact same.symm

/-- A step that neither decrements nor rebuilds the counter. -/
theorem apply {draw : Draw} (h : Books u tr s) (undisturbed : Undisturbed u s (.step p draw))
    (next : s.next (.step p draw) = some s') (phase : Phase)
    (moved : s'.phase = Function.update s.phase p phase)
    (other : s.phase p ≠ .decrement (some u))
    (kept : s.counter (some u) = none → s'.counter (some u) = none)
    (balanced : phase ≠ .reset (some u) →
      (s.phase p ≠ .reset (some u) →
        Counter.Balanced (s.counter (some u)) (unread u s) (outstanding u s) (drift u tr)) →
      Counter.Balanced (s'.counter (some u)) (unread u s')
        (outstanding u s - owes u (s.phase p) + owes u phase) (drift u tr))
    (counted : ∀ count, phase ≠ .backfill (some u) count) :
    Books u (tr ++ [⟨s, .step p draw, s'⟩]) s' := by
  refine h.book undisturbed next phase moved (.inl ⟨draw, rfl⟩) ?_ fun count at_backfill =>
    absurd at_backfill (counted count)
  rw [drifts_of_kept kept (clamps_of_phase other)]
  exact balanced

/-- A step that leaves the counter as it is. -/
theorem keep (h : Books u tr s) (undisturbed : Undisturbed u s a) (next : s.next a = some s')
    (taken : a.pid = some p) (phase : Phase) (moved : s'.phase = Function.update s.phase p phase)
    (rows : (∃ draw, a = .step p draw) ∨ unread u s' = unread u s)
    (counter : s'.counter (some u) = s.counter (some u))
    (before : s.phase p ≠ .reset (some u) ∧ s.phase p ≠ .decrement (some u))
    (owed : unread u s' - unread u s = owes u phase - owes u (s.phase p))
    (counted : ∀ count, phase = .backfill (some u) count → (count : ℤ) = unread u s') :
    Books u (tr ++ [⟨s, a, s'⟩]) s' := by
  refine h.book undisturbed next phase moved rows (fun _ balanced => ?_) counted
  have still : drifts u (drift u tr) ⟨s, a, s'⟩ = drift u tr := by
    refine drifts_of_kept (fun missing => counter.trans missing) ?_
    cases a with
    | step q draw =>
      obtain rfl := Option.some.inj taken
      exact clamps_of_phase before.2
    | _ => rfl
  have changed := (balanced before.1).change (owes u phase - owes u (s.phase p))
  rw [still, counter]
  rw [← owed] at changed
  have rows' : unread u s + (unread u s' - unread u s) = unread u s' := by omega
  have total : outstanding u s + (unread u s' - unread u s) =
      outstanding u s - owes u (s.phase p) + owes u phase := by omega
  rwa [rows', total] at changed

/-- The counter step of a new notification. -/
theorem increment {draw : Draw} {delivery : Delivery} {created : NotificationRow} (h : Books u tr s)
    (undisturbed : Undisturbed u s (.step p draw)) (next : s.next (.step p draw) = some s')
    (at_increment : s.phase p = .increment delivery created)
    (post : s' = { s with counter := s.counter.increment (some created.recipientId) }.enter p
      (.push delivery created)) :
    Books u (tr ++ [⟨s, .step p draw, s'⟩]) s' := by
  subst post
  have at_phase : owes u (s.phase p) = if created.recipientId = u then 1 else 0 := by
    rw [at_increment]
    rfl
  refine h.apply undisturbed next (.push delivery created) rfl (by simp [at_increment]) ?_
    (fun _ balanced => ?_) (by simp)
  · intro none
    simp [State.enter, NotificationCounter.increment, none]
  · have balanced := balanced (by simp [at_increment])
    show Counter.Balanced (s.counter.increment _ _) (unread u s) _ _
    rw [at_phase]
    by_cases mine : created.recipientId = u
    · rw [if_pos mine, mine, NotificationCounter.increment_self]
      simpa [owes] using balanced.increment
    · have other : some u ≠ some created.recipientId := by simpa [eq_comm] using mine
      rw [if_neg mine, NotificationCounter.increment_of_ne other]
      simpa [owes] using balanced

/-- One notification is read. -/
theorem markOne {draw : Draw} {userId : Option Auth.UserId} {id : NotificationId} (h : Books u tr s)
    (undisturbed : Undisturbed u s (.step p draw)) (next : s.next (.step p draw) = some s')
    (at_mark : s.phase p = .markOneRead userId id)
    (transitioned : (s.table.markOneRead userId id draw.now).2 = true)
    (post : s' = { s with table := (s.table.markOneRead userId id draw.now).1 }.enter p
      (.decrement userId)) :
    Books u (tr ++ [⟨s, .step p draw, s'⟩]) s' := by
  subst post
  have named := undisturbed.named p draw rfl
  rw [at_mark] at named
  cases userId with
  | none => cases named
  | some user =>
    refine h.keep undisturbed next rfl (.decrement (some user)) rfl (.inl ⟨draw, rfl⟩) rfl ?_ ?_ ?_
    · simp [at_mark]
    · have counted := NotificationTable.countUnread_markOneRead (u := u) transitioned
      show ((s.table.markOneRead (some user) id draw.now).1.countUnread (some u) : ℤ) -
        s.table.countUnread (some u) = _
      rw [at_mark, ← counted]
      simp only [owes, Option.some.injEq]
      split_ifs <;> simp
    · intro count at_backfill
      cases at_backfill

/-- The counter step of a notification that has been read. -/
theorem decrement {draw : Draw} {userId : Option Auth.UserId} (h : Books u tr s)
    (undisturbed : Undisturbed u s (.step p draw)) (next : s.next (.step p draw) = some s')
    (at_decrement : s.phase p = .decrement userId)
    (post : s' = { s with counter := s.counter.decrement userId }.enter p (.done .marked)) :
    Books u (tr ++ [⟨s, .step p draw, s'⟩]) s' := by
  subst post
  by_cases mine : userId = some u
  · subst mine
    refine h.book undisturbed next (.done .marked) rfl (.inl ⟨draw, rfl⟩) (fun _ balanced => ?_)
      (by simp)
    have balanced := balanced (by simp [at_decrement])
    have drifted : drifts u (drift u tr) ⟨s, .step p draw, { s with
          counter := s.counter.decrement (some u) }.enter p (.done .marked)⟩ =
        drift u tr + if s.counter (some u) = some 0 then 1 else 0 := by
      simp [drifts, rebuilds, clamps, at_decrement, State.enter]
    show Counter.Balanced (s.counter.decrement (some u) (some u)) (unread u s) _ _
    rw [drifted, NotificationCounter.decrement_self, at_decrement]
    simpa [owes] using balanced.decrement
  · have other : some u ≠ userId := fun same => mine same.symm
    refine h.keep undisturbed next rfl (.done .marked) rfl (.inl ⟨draw, rfl⟩)
      (NotificationCounter.decrement_of_ne other) ?_ ?_ (by simp)
    · simp [at_decrement, mine]
    · simp [at_decrement, owes, mine, unread, State.enter]

/-- All notifications are read. -/
theorem markAll {draw : Draw} {userId : Option Auth.UserId} (h : Books u tr s)
    (undisturbed : Undisturbed u s (.step p draw)) (next : s.next (.step p draw) = some s')
    (at_mark : s.phase p = .markAllRead userId)
    (post : s' = { s with table := s.table.markAllRead userId draw.now }.enter p (.reset userId)) :
    Books u (tr ++ [⟨s, .step p draw, s'⟩]) s' := by
  subst post
  have named := undisturbed.named p draw rfl
  rw [at_mark] at named
  cases userId with
  | none => cases named
  | some user =>
    by_cases mine : user = u
    · refine h.book undisturbed next (.reset (some user)) rfl (.inl ⟨draw, rfl⟩)
        (fun other => absurd (mine ▸ rfl) other) (fun count at_backfill => by cases at_backfill)
    · refine h.keep undisturbed next rfl (.reset (some user)) rfl (.inl ⟨draw, rfl⟩) rfl ?_ ?_ ?_
      · simp [at_mark]
      · have counted : (s.table.markAllRead (some user) draw.now).countUnread (some u) = _ :=
          NotificationTable.countUnread_markAllRead
        rw [if_neg mine] at counted
        show ((s.table.markAllRead (some user) draw.now).countUnread (some u) : ℤ) -
          s.table.countUnread (some u) = _
        rw [counted, at_mark]
        simp [owes]
      · intro count at_backfill
        cases at_backfill

/-- The counter is deleted after that. -/
theorem reset {draw : Draw} {userId : Option Auth.UserId} (h : Books u tr s)
    (undisturbed : Undisturbed u s (.step p draw)) (next : s.next (.step p draw) = some s')
    (at_reset : s.phase p = .reset userId)
    (post : s' = { s with counter := s.counter.reset userId }.enter p (.done .marked)) :
    Books u (tr ++ [⟨s, .step p draw, s'⟩]) s' := by
  subst post
  by_cases mine : userId = some u
  · subst mine
    refine h.apply undisturbed next (.done .marked) rfl (by simp [at_reset])
      (fun _ => NotificationCounter.reset_self) (fun _ _ => ?_) (by simp)
    show Counter.Balanced (s.counter.reset (some u) (some u)) _ _ _
    rw [NotificationCounter.reset_self]
    exact .absent
  · have other : some u ≠ userId := fun same => mine same.symm
    refine h.keep undisturbed next rfl (.done .marked) rfl (.inl ⟨draw, rfl⟩)
      (NotificationCounter.reset_of_ne other) ?_ ?_ (by simp)
    · simp [at_reset, mine]
    · simp [at_reset, owes, unread, State.enter]

/-- The counter is rebuilt, if it is still missing. -/
theorem backfill {draw : Draw} {userId : Option Auth.UserId} {count : ℕ} (h : Books u tr s)
    (undisturbed : Undisturbed u s (.step p draw)) (next : s.next (.step p draw) = some s')
    (at_backfill : s.phase p = .backfill userId count)
    (post : s' = { s with counter := s.counter.backfill userId count }.enter p
      (.done (.unread count))) :
    Books u (tr ++ [⟨s, .step p draw, s'⟩]) s' := by
  subst post
  by_cases missing : userId = some u ∧ s.counter (some u) = none
  · obtain ⟨rfl, absent⟩ := missing
    refine h.book undisturbed next (.done (.unread count)) rfl (.inl ⟨draw, rfl⟩)
      (fun _ _ => ?_) (by simp)
    have stored : s.counter.backfill (some u) count (some u) = some (unread u s) := by
      rw [NotificationCounter.backfill_of_none absent, h.counted p count at_backfill]
    have drifted : drifts u (drift u tr) ⟨s, .step p draw, { s with
          counter := s.counter.backfill (some u) count }.enter p (.done (.unread count))⟩ =
        outstanding u s := by
      simp [drifts, rebuilds, absent, State.enter, stored]
    show Counter.Balanced (s.counter.backfill (some u) count (some u)) (unread u s) _ _
    rw [drifted, stored, at_backfill]
    have rebuilt : Counter.Balanced (some (unread u s)) (unread u s) (outstanding u s)
        (outstanding u s) := .rebuilt (by simp [unread])
    simpa [owes] using rebuilt
  · refine h.keep undisturbed next rfl (.done (.unread count)) rfl (.inl ⟨draw, rfl⟩)
      (NotificationCounter.backfill_of_kept fun same absent => missing ⟨same.symm, absent⟩) ?_ ?_
      (by simp)
    · simp [at_backfill]
    · simp [at_backfill, owes, unread, State.enter]

/-- A counter expires. -/
theorem expire {userId : Option Auth.UserId} (h : Books u tr s)
    (undisturbed : Undisturbed u s (.expire userId)) (next : s.next (.expire userId) = some s')
    (post : s' = { s with counter := s.counter.reset userId }) :
    Books u (tr ++ [⟨s, .expire userId, s'⟩]) s' := by
  subst post
  refine h.book (p := 0) undisturbed next (s.phase 0) (Function.update_eq_self 0 s.phase).symm
    (.inr rfl) (fun other balanced => ?_) (h.counted 0)
  have drifted : drifts u (drift u tr) ⟨s, .expire userId, { s with
      counter := s.counter.reset userId }⟩ = drift u tr := by
    refine drifts_of_kept (fun missing => ?_) rfl
    simp [NotificationCounter.reset, missing]
  have total : outstanding u s - owes u (s.phase 0) + owes u (s.phase 0) = outstanding u s := by
    omega
  show Counter.Balanced (s.counter.reset userId (some u)) (unread u s) _ _
  rw [drifted, total]
  by_cases mine : userId = some u
  · rw [mine, NotificationCounter.reset_self]
    exact .absent
  · rw [NotificationCounter.reset_of_ne fun same => mine same.symm]
    exact balanced other

theorem of_moves (h : Books u tr s) (undisturbed : Undisturbed u s a) (next : s.next a = some s')
    (move : Moves s a s') : Books u (tr ++ [⟨s, a, s'⟩]) s' := by
  cases move with
  | @insert p draw delivery rest row table at_save key fresh saved =>
    refine h.keep undisturbed next rfl (.increment rest row) rfl (.inl ⟨draw, rfl⟩) rfl ?_ ?_ ?_
    · simp [at_save]
    · have counted : table.countUnread (some u) = s.table.countUnread (some u) +
          if row.unreadBy (some u) then 1 else 0 := NotificationTable.countUnread_saveIfNew saved
      have mine : row.unreadBy (some u) = true ↔ row.recipientId = u := by
        simp [NotificationRow.unreadBy, fresh]
      show (table.countUnread (some u) : ℤ) - s.table.countUnread (some u) = _
      rw [counted, at_save]
      simp only [mine, owes]
      split_ifs <;> simp
    · intro count at_backfill
      cases at_backfill
  | increment at_increment => exact h.increment undisturbed next at_increment rfl
  | @push p draw delivery created published at_push =>
    refine h.keep undisturbed next rfl (.save delivery) rfl (.inl ⟨draw, rfl⟩) rfl ?_ ?_ ?_
    · simp [at_push]
    · simp [at_push, owes, unread, State.enter]
    · intro count at_backfill
      cases at_backfill
  | markOne at_mark transitioned => exact h.markOne undisturbed next at_mark transitioned rfl
  | decrement at_decrement => exact h.decrement undisturbed next at_decrement rfl
  | markAll at_mark => exact h.markAll undisturbed next at_mark rfl
  | reset at_reset => exact h.reset undisturbed next at_reset rfl
  | @count p draw userId at_count =>
    refine h.keep undisturbed next rfl (.backfill userId _) rfl (.inl ⟨draw, rfl⟩) rfl ?_ ?_ ?_
    · simp [at_count]
    · simp [at_count, owes, unread, State.enter]
    · intro count at_backfill
      obtain ⟨rfl, rfl⟩ := Phase.backfill.inj at_backfill
      rfl
  | backfill at_backfill => exact h.backfill undisturbed next at_backfill rfl
  | @pass a p phase taken before after =>
    refine h.keep undisturbed next taken phase rfl (.inr rfl) rfl ?_ ?_ ?_
    · generalize s.phase p = old at before
      cases old <;> simp_all [Phase.plain]
    · rw [owes_of_plain after, owes_of_plain before]
      exact Int.sub_self _
    · rintro count rfl
      cases after
  | @fail p => exact absurd rfl (undisturbed.succeeds p)
  | expire => exact h.expire undisturbed next rfl

end Books

/-! ## Runs -/

/-- The counter is absent or right. -/
def State.Right (u : Auth.UserId) (s : State) : Prop :=
  s.counter (some u) = none ∨ s.counter (some u) = some (unread u s)

theorem books_of_run (start : notifications.start s) (right : s.Right u)
    (run : notifications.Run (Undisturbed u) s tr s') : Books u tr s' := by
  have idle : ∀ p, s.phase p = .idle := fun p => congrFun start p
  have none : ∀ p, owes u (s.phase p) = 0 := by
    intro p
    rw [idle]
    rfl
  refine run.trace_invariant (fun _ _ _ _ h undisturbed next =>
    h.of_moves undisturbed next (Moves.of_next next)) ⟨Pool.sparse_of_forall none, fun _ => ?_, ?_⟩
  · have total : outstanding u s = 0 := Pool.total_of_forall none
    rcases right with absent | right
    · rw [absent]
      exact .absent
    · rw [right, total]
      exact .rebuilt (by simp [unread])
  · intro p count at_backfill
    rw [idle] at at_backfill
    cases at_backfill

/-- Neither a rebuild beside outstanding steps nor a decrement at zero takes the counter off. -/
theorem drift_eq_zero (whole : ∀ st ∈ tr, clamps u st = false)
    (apart : ∀ st ∈ tr, rebuilds u st = true → outstanding u st.pre = 0) : drift u tr = 0 := by
  induction tr using List.reverseRecOn with
  | nil => rfl
  | append_singleton tr st ih =>
    have earlier := ih (fun st hst => whole st (List.mem_append_left _ hst))
      (fun st hst => apart st (List.mem_append_left _ hst))
    have last : st ∈ tr ++ [st] := List.mem_concat_self
    rw [drift_concat, earlier]
    unfold drifts
    split_ifs with rebuilt clamped
    · exact apart st last rebuilt
    · rw [whole st last] at clamped
      cases clamped
    · rfl

/-- With no request in flight the unread counter is absent, or off by the drift; it is right if no
decrement has met zero and every rebuild has found nothing outstanding. -/
theorem unread_drift (start : notifications.start s) (right : s.Right u)
    (run : notifications.Run (Undisturbed u) s tr s') (quiet : s'.Quiet) :
    (∀ v, s'.counter (some u) = some v → v = unread u s' + drift u tr) ∧
      ((∀ st ∈ tr, clamps u st = false) →
        (∀ st ∈ tr, rebuilds u st = true → outstanding u st.pre = 0) → s'.Right u) := by
  have books := books_of_run start right run
  have none : ∀ p, owes u (s'.phase p) = 0 ∧ s'.phase p ≠ .reset (some u) :=
    fun p => owes_of_ended (quiet p)
  have total : outstanding u s' = 0 := Pool.total_of_forall fun p => (none p).1
  have settled : ∀ v, s'.counter (some u) = some v → v = unread u s' + drift u tr :=
    fun v hv => (books.balanced fun p => (none p).2).settled total hv
  refine ⟨settled, fun whole apart => ?_⟩
  cases present : s'.counter (some u) with
  | none => exact .inl present
  | some v =>
    have off := settled v present
    rw [drift_eq_zero whole apart] at off
    exact .inr (by rw [present, off, Int.add_zero])

/-! ## Two requests of user 1 -/

/-- The counter of user 1 is there, and nothing else. -/
def counting : State := { empty with counter := fun user => if user = some 1 then some 0 else none }

theorem counting_start : notifications.start counting := rfl

/-- The process is between the `COUNT` and the `SET NX` of a rebuild. -/
def Phase.rebuilding : Phase → Bool
  | .backfill _ _ => true
  | _ => false

/-- The label is about process 0 or 1, and neither is rebuilding a counter. -/
def paired (s : State) : Label → Bool
  | .arrive p _ => p < 2
  | .step p _ => p < 2 ∧ (s.phase p).anonymous = false ∧
      (s.phase 0).rebuilding = false ∧ (s.phase 1).rebuilding = false
  | _ => false

/-- The other processes have not begun. -/
def Two (s : State) : Prop := ∀ p : ℕ, 2 ≤ p → s.phase p = .idle

theorem undisturbed_of_paired (s : State) (a : Label) (s' : State) (two : Two s)
    (checked : paired s a = true) (next : s.next a = some s') : Undisturbed u s a ∧ Two s' := by
  have taken : ∃ p : ℕ, p < 2 ∧ a.pid = some p := by
    cases a with
    | arrive p _ => exact ⟨p, of_decide_eq_true checked, rfl⟩
    | step p _ => exact ⟨p, (of_decide_eq_true checked).1, rfl⟩
    | _ => cases checked
  obtain ⟨p, small, taken⟩ := taken
  refine ⟨?_, fun q large => ?_⟩
  · cases a with
    | step q draw =>
      obtain ⟨-, named, zero, one⟩ := of_decide_eq_true checked
      refine ⟨by simp, ?_, by simp, ?_⟩
      · rintro r d h
        obtain ⟨rfl, rfl⟩ := Label.step.inj h
        exact named
      · intro r d q' count _ _ at_backfill
        have rebuilding : (s.phase q').rebuilding = true := by rw [at_backfill]; rfl
        match q' with
        | 0 => rw [zero] at rebuilding; cases rebuilding
        | 1 => rw [one] at rebuilding; cases rebuilding
        | q + 2 => rw [two _ (by omega)] at at_backfill; cases at_backfill
    | arrive => exact ⟨by simp, by simp, by simp, by simp⟩
    | _ => cases checked
  · have other : a.pid ≠ some q := by
      rw [taken]
      intro same
      obtain rfl := Option.some.inj same
      omega
    rw [(Moves.of_next next).phase_of_ne other]
    exact two q large

theorem Two.quiet {s : State} (two : Two s) (zero : (s.phase 0).ended = true)
    (one : (s.phase 1).ended = true) : s.Quiet := by
  intro p
  match p with
  | 0 => exact zero
  | 1 => exact one
  | p + 2 =>
    rw [two _ (by omega)]
    rfl

/-- A decrement overtakes the increment of its row: the counter says one, and nothing is unread. -/
theorem unread_overtaken : ∃ tr t, notifications.Run (Undisturbed 1) counting tr t ∧
    counting.Right 1 ∧ t.Quiet ∧ t.counter (some 1) = some 1 ∧ unread 1 t = 0 := by
  have computed : (notifications.exec paired counting
      [.arrive 0 (.handleEvent (posted 7)), take 0 [1] 0, take 0 [] 3,
        .arrive 1 (.markOneRead (some 1) 3), take 1 [] 0, take 1 [] 0,
        take 0 [] 0, take 0 [] 0, take 0 [] 0]).map
      (fun t => ((t.phase 0).ended && (t.phase 1).ended, t.counter (some 1),
        t.table.countUnread (some 1))) = some (true, some 1, 0) := by
    decide
  obtain ⟨t, reached, seen⟩ := Option.map_eq_some_iff.1 computed
  obtain ⟨tr, run, -, two⟩ := exists_run_of_exec_invariant (C := Undisturbed 1)
    undisturbed_of_paired (fun _ _ => rfl) reached
  simp only [Prod.mk.injEq, Bool.and_eq_true] at seen
  obtain ⟨⟨zero, one⟩, counter, rows⟩ := seen
  exact ⟨tr, t, run, .inr rfl, two.quiet zero one, counter, congrArg Nat.cast rows⟩

/-- The increment comes first. -/
theorem unread_drift_zero : ∃ tr t, notifications.Run (Undisturbed 1) counting tr t ∧ t.Quiet ∧
    t.table.rows.length = 1 ∧ 0 = unread 1 t + drift 1 tr := by
  have computed : (notifications.exec paired counting
      [.arrive 0 (.handleEvent (posted 7)), take 0 [1] 0, take 0 [] 3,
        .arrive 1 (.markOneRead (some 1) 3), take 1 [] 0, take 0 [] 0,
        take 1 [] 0, take 0 [] 0, take 0 [] 0]).map
      (fun t => ((t.phase 0).ended && (t.phase 1).ended, t.counter (some 1),
        t.table.rows.length)) = some (true, some 0, 1) := by
    decide
  obtain ⟨t, reached, seen⟩ := Option.map_eq_some_iff.1 computed
  obtain ⟨tr, run, -, two⟩ := exists_run_of_exec_invariant (C := Undisturbed 1)
    undisturbed_of_paired (fun _ _ => rfl) reached
  simp only [Prod.mk.injEq, Bool.and_eq_true] at seen
  obtain ⟨⟨zero, one⟩, counter, rows⟩ := seen
  have quiet := two.quiet zero one
  exact ⟨tr, t, run, quiet, rows, (unread_drift counting_start (.inr rfl) run quiet).1 0 counter⟩

end EstateServer.Notifications
