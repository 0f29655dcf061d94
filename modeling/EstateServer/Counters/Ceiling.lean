import EstateServer.Board.Repository
import EstateServer.Library.Expiring
import EstateServer.Library.Machine
import EstateServer.Notifications.Repository
import Mathlib.Algebra.Group.Int.Defs

/-!
# How long a counter may be wrong

The counters of likes and of unread notifications are keys of Redis that expire.  Their scripts run
without interruption, command by command; between the scripts of any number of processes the clock
goes on and keys expire.

`ceiling`: only a backfill creates a key, and the key expires exactly one TTL after it, whatever
happens in between.  So no value is read longer than the TTL after the rows were counted.
-/

namespace EstateServer.Counters

open Machine
open Expiring (Key live read)

/-! ## Commands of Redis -/

/-- `EXISTS`. -/
def exist (now : Instant) (key : Key ℤ) : Bool := (live now key).isSome

/-- A signed integer of 64 bits. -/
def int64 (v : ℤ) : Bool := -2 ^ 63 ≤ v ∧ v < 2 ^ 63

/-- `INCRBY`: the new value and the key, or an error. -/
def incrBy (delta : ℤ) (now : Instant) (key : Key ℤ) : Option (ℤ × Key ℤ) :=
  let old := (read now key).getD 0
  if int64 old && int64 (old + delta) then
    some (old + delta, Expiring.update (fun _ => old + delta) now key)
  else none

/-- `SET` with `KEEPTTL`. -/
def setKeepTtl (v : ℤ) (now : Instant) (key : Key ℤ) : Key ℤ := Expiring.update (fun _ => v) now key

/-! ## The scripts -/

/-- An increment of a key that is there; `clamp` says whether the value is kept from going below
zero.  A script ends at the first error. -/
def ifExists (clamp : Bool) (delta : ℤ) (now : Instant) (key : Key ℤ) : Key ℤ :=
  if exist now key then
    match incrBy delta now key with
    | none => key
    | some (v, key) => if clamp && v < 0 then setKeepTtl 0 now key else key
  else key

/-- The two implementations. -/
inductive Counter
  | like
  | unread
  deriving DecidableEq, Repr

/-- `RedisLikeCounter`: `INCRBY_IF_EXISTS` with 1 and with -1. -/
def RedisLikeCounter.increment : Instant → Key ℤ → Key ℤ := ifExists true 1

def RedisLikeCounter.decrement : Instant → Key ℤ → Key ℤ := ifExists true (-1)

/-- `RedisNotificationCounter`: `INCR_IF_EXISTS` and `DECR_IF_EXISTS`. -/
def RedisNotificationCounter.increment : Instant → Key ℤ → Key ℤ := ifExists false 1

def RedisNotificationCounter.decrement : Instant → Key ℤ → Key ℤ := ifExists true (-1)

/-- `LIKE_COUNT_TTL_SEC` and `UNREAD_COUNT_TTL_SEC`, in milliseconds. -/
def Counter.ttlMs : Counter → ℕ
  | like => 3600 * 1000
  | unread => 3600 * 1000

/-- A command on one key.  `getMany` and the backfill of several counters are a pipeline of these,
and `remove` is called `reset` for the unread counters. -/
inductive Command
  | backfill (count : ℕ)
  | increment
  | decrement
  | get
  | remove
  deriving DecidableEq, Repr

/-- What a command leaves of its key. -/
def Counter.apply (counter : Counter) (command : Command) (now : Instant) (key : Key ℤ) : Key ℤ :=
  match counter, command with
  | _, .backfill count => Expiring.create counter.ttlMs (count : ℤ) now key
  | .like, .increment => RedisLikeCounter.increment now key
  | .like, .decrement => RedisLikeCounter.decrement now key
  | .unread, .increment => RedisNotificationCounter.increment now key
  | .unread, .decrement => RedisNotificationCounter.decrement now key
  | _, .get => key
  | _, .remove => none

/-- The keys, of posts or of users. -/
structure State (κ : Type*) where
  now : Instant
  keys : κ → Key ℤ

inductive Label (κ : Type*)
  | command (k : κ) (command : Command)
  | advance (now : Instant)
  deriving DecidableEq, Repr

variable {κ : Type*} [DecidableEq κ]

/-- The state after a command. -/
def State.after (s : State κ) (counter : Counter) (k : κ) (command : Command) : State κ :=
  { s with keys := Function.update s.keys k (counter.apply command s.now (s.keys k)) }

/-- The state after a step. -/
def State.next (counter : Counter) (s : State κ) : Label κ → Option (State κ)
  | .command k command => some (s.after counter k command)
  | .advance now => if s.now ≤ now then some { s with now } else none

/-- The keys under any commands, from an empty store. -/
def counting (counter : Counter) : Machine (State κ) (Label κ) where
  start s := s.keys = fun _ => none
  next := State.next counter

/-! ## The statement -/

/-- The key as a command sees it. -/
def State.key (s : State κ) (k : κ) : Key ℤ := live s.now (s.keys k)

/-- The key was created by this step, and it has been there since. -/
structure Created (tr : List (Step (State κ) (Label κ))) (k : κ) (st : Step (State κ) (Label κ)) :
    Prop where
  backfill : ∃ count, st.label = .command k (.backfill count)
  absent : st.pre.key k = none
  since : ∃ front back, tr = front ++ st :: back ∧ ∀ later ∈ st :: back, later.post.key k ≠ none

/-- How far a counter may be off, and for how long. -/
structure Ceiling (counter : Counter) (tr : List (Step (State κ) (Label κ))) (s : State κ) (k : κ) :
    Prop where
  /-- A key comes into existence by a backfill only. -/
  born : ∀ st ∈ tr, st.pre.key k = none → st.post.key k ≠ none →
    ∃ count, st.label = .command k (.backfill count)
  /-- An update of an absent key leaves it absent. -/
  absent : ∀ st ∈ tr, st.pre.key k = none →
    st.label = .command k .increment ∨ st.label = .command k .decrement → st.post.key k = none
  /-- A key expires one TTL after the backfill that created it. -/
  deadline : ∀ cell ∈ s.key k, ∃ st, Created tr k st ∧
    cell.deadline = some (st.pre.now + counter.ttlMs)
  nonneg : ∀ cell ∈ s.key k, 0 ≤ cell.value
  /-- What is read now was rebuilt less than a TTL ago. -/
  fresh : ∀ v, read s.now (s.keys k) = some v → ∃ st, Created tr k st ∧ st.pre.now ≤ s.now ∧
    s.now < st.pre.now + counter.ttlMs

/-! ## What a script does -/

variable {now : Instant} {key : Key ℤ} {cell : Expiring.Cell ℤ} {clamp : Bool} {delta : ℤ}
  {counter : Counter} {command : Command}

/-- The value after a script. -/
def bumped (clamp : Bool) (delta v : ℤ) : ℤ :=
  if int64 v && int64 (v + delta) then if clamp && v + delta < 0 then 0 else v + delta else v

theorem ifExists_of_absent (absent : live now key = none) : ifExists clamp delta now key = key := by
  simp [ifExists, exist, absent]

/-- A script keeps the deadline, on each of its branches. -/
theorem ifExists_of_live (h : live now key = some cell) :
    live now (ifExists clamp delta now key) =
      some { cell with value := bumped clamp delta cell.value } := by
  have there : exist now key = true := by simp [exist, h]
  have added : Expiring.update (fun _ => cell.value + delta) now key =
      some { cell with value := cell.value + delta } := Expiring.update_of_live h
  have seen : live now (some { cell with value := cell.value + delta }) =
      some { cell with value := cell.value + delta } := by
    rw [← added, Expiring.live_update]
  rw [ifExists, if_pos there, incrBy, Expiring.read_of_live h, Option.getD_some, bumped]
  by_cases fits : (int64 cell.value && int64 (cell.value + delta)) = true
  · rw [if_pos fits, if_pos fits, added]
    by_cases low : (clamp && decide (cell.value + delta < 0)) = true
    · simp only [if_pos low]
      rw [setKeepTtl, Expiring.live_update, Expiring.update_of_live seen]
    · simp only [if_neg low]
      exact seen
  · rw [if_neg fits, if_neg fits]
    exact h

theorem bumped_nonneg {v : ℤ} (nonneg : 0 ≤ v) (safe : clamp = true ∨ 0 ≤ delta) :
    0 ≤ bumped clamp delta v := by
  unfold bumped
  split_ifs with fits low
  · exact Int.le_refl 0
  · rcases safe with rfl | grows
    · simpa using low
    · omega
  · exact nonneg

/-! ## What a command does -/

theorem ttlMs_pos : 0 < counter.ttlMs := by cases counter <;> decide

/-- Only a backfill creates a key. -/
theorem apply_of_absent (absent : live now key = none)
    (mem : cell ∈ live now (counter.apply command now key)) :
    ∃ count : ℕ, command = .backfill count ∧ cell = ⟨count, some (now + counter.ttlMs)⟩ := by
  cases command with
  | backfill count =>
    rw [Counter.apply, Expiring.live_create ttlMs_pos, Expiring.create, absent] at mem
    exact ⟨count, rfl, (Option.some.inj mem).symm⟩
  | increment =>
    cases counter <;>
      simp [Counter.apply, RedisLikeCounter.increment, RedisNotificationCounter.increment,
        ifExists_of_absent absent, absent] at mem
  | decrement =>
    cases counter <;>
      simp [Counter.apply, RedisLikeCounter.decrement, RedisNotificationCounter.decrement,
        ifExists_of_absent absent, absent] at mem
  | get => simp [Counter.apply, absent] at mem
  | remove => cases mem

/-- Whatever a command leaves of a key that is there has the same deadline. -/
theorem apply_of_live {old : Expiring.Cell ℤ} (h : live now key = some old)
    (mem : cell ∈ live now (counter.apply command now key)) :
    cell.deadline = old.deadline ∧ (0 ≤ old.value → 0 ≤ cell.value) := by
  have script : ∀ clamp delta, (clamp = true ∨ 0 ≤ delta) →
      cell ∈ live now (ifExists clamp delta now key) →
      cell.deadline = old.deadline ∧ (0 ≤ old.value → 0 ≤ cell.value) := by
    intro clamp delta safe mem
    rw [ifExists_of_live h] at mem
    obtain rfl := Option.some.inj mem
    exact ⟨rfl, fun nonneg => bumped_nonneg nonneg safe⟩
  cases command with
  | backfill count =>
    rw [Counter.apply, Expiring.live_create ttlMs_pos, Expiring.create, h] at mem
    obtain rfl := Option.some.inj mem
    exact ⟨rfl, id⟩
  | increment =>
    cases counter with
    | like => exact script true 1 (.inl rfl) mem
    | unread => exact script false 1 (.inr Int.one_nonneg) mem
  | decrement => cases counter <;> exact script true (-1) (.inl rfl) mem
  | get =>
    obtain rfl := Option.some.inj (h.symm.trans mem)
    exact ⟨rfl, id⟩
  | remove => cases mem

/-! ## Steps and runs -/

section Runs

variable {s s' s₀ : State κ} {a : Label κ} {k : κ} {tr : List (Step (State κ) (Label κ))}
  {st : Step (State κ) (Label κ)}

/-- A key that is there after a step was there before, with its deadline, or the step is a
backfill that creates it. -/
theorem key_of_next (next : (counting counter).next s a = some s') (mem : cell ∈ s'.key k) :
    (∃ old, s.key k = some old ∧ cell.deadline = old.deadline ∧ (0 ≤ old.value → 0 ≤ cell.value)) ∨
      s.key k = none ∧ ∃ count : ℕ, a = .command k (.backfill count) ∧
        cell = ⟨count, some (s.now + counter.ttlMs)⟩ := by
  cases a with
  | command other command =>
    obtain rfl := Option.some.inj next
    by_cases same : k = other
    · subst same
      simp only [State.key, State.after, Function.update_self] at mem
      cases h : s.key k with
      | none =>
        obtain ⟨count, rfl, rfl⟩ := apply_of_absent h mem
        exact .inr ⟨rfl, count, rfl, rfl⟩
      | some old => exact .inl ⟨old, rfl, apply_of_live h mem⟩
    · simp only [State.key, State.after, Function.update_of_ne same] at mem
      exact .inl ⟨cell, mem, rfl, id⟩
  | advance now =>
    simp only [counting, State.next] at next
    split_ifs at next with le
    obtain rfl := Option.some.inj next
    exact .inl ⟨cell, Expiring.live_mono le mem, rfl, id⟩

theorem now_le_of_next (next : (counting counter).next s a = some s') : s.now ≤ s'.now := by
  cases a with
  | command k command =>
    obtain rfl := Option.some.inj next
    exact Nat.le_refl _
  | advance now =>
    simp only [counting, State.next] at next
    split_ifs at next with le
    obtain rfl := Option.some.inj next
    exact le

omit [DecidableEq κ] in
theorem Created.concat {last : Step (State κ) (Label κ)} (h : Created tr k st)
    (there : last.post.key k ≠ none) : Created (tr ++ [last]) k st := by
  obtain ⟨front, back, rfl, since⟩ := h.since
  refine ⟨h.backfill, h.absent, front, back ++ [last], by simp, fun later mem => ?_⟩
  rw [← List.cons_append] at mem
  rcases List.mem_append.1 mem with mem | mem
  · exact since later mem
  · rw [List.mem_singleton.1 mem]
    exact there

/-- What the steps so far tell about a key that is there. -/
structure Dated (counter : Counter) (tr : List (Step (State κ) (Label κ))) (s : State κ) (k : κ)
    (cell : Expiring.Cell ℤ) : Prop where
  nonneg : 0 ≤ cell.value
  created : ∃ st, Created tr k st ∧ st.pre.now ≤ s.now ∧
    cell.deadline = some (st.pre.now + counter.ttlMs)

theorem dated_of_run (init : (counting counter).start s₀)
    (run : (counting counter).Run Any s₀ tr s) : ∀ cell ∈ s.key k, Dated counter tr s k cell := by
  refine run.trace_invariant (I := fun tr s => ∀ cell ∈ s.key k, Dated counter tr s k cell) ?_ ?_
  · intro tr s a s' h _ next cell mem
    have there : s'.key k ≠ none := fun absent => by rw [absent] at mem; cases mem
    rcases key_of_next next mem with ⟨old, seen, same, keeps⟩ | ⟨absent, count, rfl, rfl⟩
    · obtain ⟨st, created, before, deadline⟩ := (h old seen).created
      exact ⟨keeps (h old seen).nonneg, st, created.concat there,
        Nat.le_trans before (now_le_of_next next), same.trans deadline⟩
    · refine ⟨Int.natCast_nonneg count, _, ⟨⟨count, rfl⟩, absent, tr, [], rfl, ?_⟩,
        now_le_of_next next, rfl⟩
      intro later mem
      rw [List.mem_singleton.1 mem]
      exact there
  · intro cell mem
    rw [State.key, show s₀.keys = fun _ => none from init] at mem
    cases mem

/-- Between two rebuilds a counter lives for one TTL, however often it is updated. -/
theorem ceiling (counter : Counter) (init : (counting counter).start s₀)
    (run : (counting counter).Run Any s₀ tr s) (k : κ) : Ceiling counter tr s k := by
  have dated := dated_of_run (k := k) init run
  have born : ∀ st ∈ tr, st.pre.key k = none → st.post.key k ≠ none →
      ∃ count, st.label = .command k (.backfill count) := by
    intro st mem absent there
    obtain ⟨cell, seen⟩ := Option.ne_none_iff_exists'.1 there
    rcases key_of_next (run.next_of_mem mem) seen with ⟨old, before, -⟩ | ⟨-, count, label, -⟩
    · rw [absent] at before
      cases before
    · exact ⟨count, label⟩
  refine ⟨born, ?_, ?_, fun cell mem => (dated cell mem).nonneg, ?_⟩
  · intro st mem absent update
    by_contra there
    obtain ⟨count, label⟩ := born st mem absent there
    rw [label] at update
    simp at update
  · intro cell mem
    obtain ⟨st, created, -, deadline⟩ := (dated cell mem).created
    exact ⟨st, created, deadline⟩
  · intro v reads
    obtain ⟨cell, mem, -⟩ := Option.map_eq_some_iff.1 reads
    obtain ⟨st, created, before, deadline⟩ := (dated cell mem).created
    exact ⟨st, created, before, (Expiring.mem_live.1 mem).2 _ deadline⟩

end Runs

/-! ## A counter that is too low -/

def noKeys : State ℕ := ⟨0, fun _ => none⟩

/-- Post 7 is counted without its newest like, loses a like and gets one. -/
def drifting : List (Label ℕ) :=
  [.command 7 .increment, .command 7 (.backfill 0), .advance 1000, .command 7 .decrement,
    .command 7 .increment, .command 7 (.backfill 5)]

theorem ceiling_drifting : ∃ tr s, (counting .like).Run Any noKeys tr s ∧
    tr.map (·.label) = drifting ∧ s.key 7 = some ⟨1, some 3600000⟩ ∧ Ceiling .like tr s 7 := by
  have computed : ((counting .like).exec (fun _ _ => true) noKeys drifting).map
      (fun s => s.key 7) = some (some ⟨1, some 3600000⟩) := by
    decide
  obtain ⟨s, reached, seen⟩ := Option.map_eq_some_iff.1 computed
  obtain ⟨tr, run, labels⟩ := exists_run_of_exec (C := Any) (fun _ _ _ => trivial) reached
  have init : (counting .like).start noKeys := rfl
  exact ⟨tr, s, run, labels, seen, ceiling .like init run 7⟩

/-! ## The counters without deadlines -/

/-- A reader sees what the counters without deadlines hold, short of an overflow. -/
theorem read_ifExists (fits : ∀ v ∈ read now key, int64 v = true ∧ int64 (v + delta) = true) :
    read now (ifExists clamp delta now key) = (read now key).map fun v =>
      if clamp && v + delta < 0 then 0 else v + delta := by
  cases h : live now key with
  | none => simp only [ifExists_of_absent h, Expiring.read, h, Option.map_none]
  | some cell =>
    obtain ⟨first, second⟩ := fits cell.value (Expiring.read_of_live h)
    rw [Expiring.read_of_live (ifExists_of_live h), Expiring.read_of_live h, bumped, first, second]
    rfl

/-- What a reader sees of the keys. -/
def State.view (s : State κ) (k : κ) : Option ℤ := read s.now (s.keys k)

section View

variable {s : State κ} {k : κ} {count : ℕ}

theorem view_after : (s.after counter k command).view =
    Function.update s.view k (read s.now (counter.apply command s.now (s.keys k))) := by
  funext other
  by_cases same : other = k
  · subst same
    simp [State.view, State.after]
  · simp [State.view, State.after, same]

/-- No step of the counter overflows. -/
def State.Bounded (s : State κ) (k : κ) : Prop := ∀ v ∈ s.view k, -2 ^ 63 < v ∧ v + 1 < 2 ^ 63

omit [DecidableEq κ] in
theorem read_script (bounded : s.Bounded k) (step : delta = 1 ∨ delta = -1) :
    read s.now (ifExists clamp delta s.now (s.keys k)) = (s.view k).map fun v =>
      if clamp && v + delta < 0 then 0 else v + delta := by
  refine read_ifExists fun v mem => ?_
  have := bounded v mem
  simp only [int64, Bool.decide_and, Bool.and_eq_true, decide_eq_true_eq]
  omega

omit [DecidableEq κ] in
theorem read_create : read s.now (Expiring.create counter.ttlMs (count : ℤ) s.now (s.keys k)) =
    some ((s.view k).getD count) := by
  rw [Expiring.read, Expiring.live_create ttlMs_pos, Expiring.create, Option.map_some, State.view,
    Expiring.read]
  cases live s.now (s.keys k) <;> rfl

end View

/-- `Board.LikeCounter`, from the keys. -/
theorem view_like {s : State Board.PostId} {postId : Board.PostId} (bounded : s.Bounded postId) :
    (s.after .like postId .increment).view = Board.LikeCounter.incrBy s.view postId 1 ∧
    (s.after .like postId .decrement).view = Board.LikeCounter.incrBy s.view postId (-1) ∧
    ∀ count : ℕ, (s.after .like postId (.backfill count)).view =
      Board.LikeCounter.backfill s.view postId count := by
  have script : ∀ delta : ℤ, delta = 1 ∨ delta = -1 →
      Function.update s.view postId (read s.now (ifExists true delta s.now (s.keys postId))) =
        Board.LikeCounter.incrBy s.view postId delta := by
    intro delta step
    refine Function.update_eq_iff.2
      ⟨?_, fun id other => (Board.LikeCounter.incrBy_of_ne other).symm⟩
    rw [read_script bounded step, Board.LikeCounter.incrBy_self]
    refine congrArg (Option.map · (s.view postId)) (funext fun v => ?_)
    simp only [Bool.true_and, decide_eq_true_eq]
    split_ifs <;> omega
  refine ⟨view_after.trans (script 1 (.inl rfl)), view_after.trans (script (-1) (.inr rfl)), ?_⟩
  intro count
  rw [view_after]
  refine Function.update_eq_iff.2 ⟨read_create.trans ?_, fun id other => ?_⟩
  · cases h : s.view postId <;> simp [Board.LikeCounter.backfill, h]
  · simp [Board.LikeCounter.backfill, other]

open Notifications (NotificationCounter) in
/-- `Notifications.NotificationCounter`, from the keys. -/
theorem view_unread {s : State (Option Auth.UserId)} {userId : Option Auth.UserId}
    (bounded : s.Bounded userId) :
    (s.after .unread userId .increment).view = NotificationCounter.increment s.view userId ∧
    (s.after .unread userId .decrement).view = NotificationCounter.decrement s.view userId ∧
    (∀ count : ℕ, (s.after .unread userId (.backfill count)).view =
      NotificationCounter.backfill s.view userId count) ∧
    (s.after .unread userId .remove).view = NotificationCounter.reset s.view userId := by
  refine ⟨?_, ?_, fun count => ?_, ?_⟩ <;>
    refine view_after.trans (Function.update_eq_iff.2 ⟨?_, fun user other => ?_⟩)
  · exact (read_script bounded (.inl rfl)).trans NotificationCounter.increment_self.symm
  · exact (NotificationCounter.increment_of_ne other).symm
  · refine (read_script bounded (.inr rfl)).trans ?_
    rw [NotificationCounter.decrement_self]
    refine congrArg (Option.map · (s.view userId)) (funext fun v => ?_)
    simp only [Bool.true_and, decide_eq_true_eq]
    split_ifs <;> omega
  · exact (NotificationCounter.decrement_of_ne other).symm
  · cases h : s.view userId <;> simp [read_create, NotificationCounter.backfill, h, Counter.apply]
  · simp [NotificationCounter.backfill, other]
  · exact NotificationCounter.reset_self.symm
  · exact (NotificationCounter.reset_of_ne other).symm

end EstateServer.Counters
