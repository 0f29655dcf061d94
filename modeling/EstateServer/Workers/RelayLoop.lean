import Mathlib.Data.List.Basic
import Mathlib.Data.Nat.Notation

/-!
# The relay loop

`RelayLoop` runs `tick` on an interval, and `stop` waits for the tick that is in flight.  Intervals
fire, promises settle and continuations run in steps of their own, in any order that the runtime
allows.

* `Valid`: the loop's fields agree with the intervals of the runtime and with the ticks; at most one
  tick is in flight.
* `Stopping`: what holds from a call of `stop` on, as long as `start` is not called.
-/

namespace EstateServer.Workers

/-- How a tick ends.  The handler of a tick that is rejected logs the error, which may fail in turn
(an error without a message). -/
inductive Outcome
  | resolved
  | rejected (logged : Bool)
  deriving DecidableEq, Repr

/-- The promise in `inFlight` is fulfilled. -/
def Outcome.fulfilled : Outcome → Bool
  | resolved => true
  | rejected logged => logged

/-- A call of `tick`: in flight, settled, or settled with its `finally` run. -/
inductive Tick
  | running
  | settled (outcome : Outcome)
  | finished (outcome : Outcome)
  deriving DecidableEq, Repr

/-- The `finally` of the tick has not run. -/
def Tick.pending : Tick → Bool
  | finished _ => false
  | _ => true

/-- A call of `stop`. -/
inductive Stop
  | waiting (tick : ℕ)
  | resolved
  | rejected
  deriving DecidableEq, Repr

structure RelayLoop where
  timer : Option ℕ
  inFlight : Option ℕ
  /-- The intervals that the runtime keeps firing. -/
  intervals : List ℕ
  /-- The number of calls of `setInterval`. -/
  created : ℕ
  /-- The calls of `tick`. -/
  ticks : List Tick
  /-- The calls of `stop`. -/
  stops : List Stop
  deriving DecidableEq, Repr

namespace RelayLoop

/-- `new RelayLoop`. -/
def new : RelayLoop :=
  { timer := none, inFlight := none, intervals := [], created := 0, ticks := [], stops := [] }

variable (loop : RelayLoop)

def start : RelayLoop :=
  if loop.timer.isSome then loop
  else
    { loop with
      timer := some loop.created
      intervals := loop.intervals ++ [loop.created]
      created := loop.created + 1 }

/-- The callback of the interval. -/
def fire : RelayLoop :=
  if loop.inFlight.isSome then loop
  else { loop with inFlight := some loop.ticks.length, ticks := loop.ticks ++ [.running] }

/-- A tick's promise settles. -/
def settle (tick : ℕ) (outcome : Outcome) : RelayLoop :=
  { loop with ticks := loop.ticks.set tick (.settled outcome) }

/-- The callback of `finally`. -/
def finish (tick : ℕ) (outcome : Outcome) : RelayLoop :=
  { loop with inFlight := none, ticks := loop.ticks.set tick (.finished outcome) }

/-- `stop`, up to its `await`. -/
def stop : RelayLoop :=
  { loop with
    timer := none
    intervals := loop.intervals.filter fun interval => loop.timer ≠ some interval
    stops := loop.stops ++ [loop.inFlight.elim .resolved .waiting] }

/-- `stop`, after its `await`. -/
def resume (call : ℕ) (outcome : Outcome) : RelayLoop :=
  { loop with stops := loop.stops.set call (if outcome.fulfilled then .resolved else .rejected) }

inductive Label
  | start
  | stop
  | fire (interval : ℕ)
  | settle (tick : ℕ) (outcome : Outcome)
  | finish (tick : ℕ)
  | resume (call : ℕ)
  deriving DecidableEq, Repr

def next : Label → Option RelayLoop
  | .start => some loop.start
  | .stop => some loop.stop
  | .fire interval => if interval ∈ loop.intervals then some loop.fire else none
  | .settle tick outcome =>
    if loop.ticks[tick]? = some .running then some (loop.settle tick outcome) else none
  | .finish tick =>
    match loop.ticks[tick]? with
    | some (.settled outcome) => some (loop.finish tick outcome)
    | _ => none
  | .resume call =>
    match loop.stops[call]? with
    | some (.waiting tick) =>
      match loop.ticks[tick]? with
      | some (.finished outcome) => some (loop.resume call outcome)
      | _ => none
    | _ => none

/-- What a step of the loop does. -/
inductive Moves : Label → RelayLoop → Prop
  | start : Moves .start loop.start
  | stop : Moves .stop loop.stop
  | fire {interval} (firing : interval ∈ loop.intervals) : Moves (.fire interval) loop.fire
  | settle {tick outcome} (running : loop.ticks[tick]? = some .running) :
      Moves (.settle tick outcome) (loop.settle tick outcome)
  | finish {tick outcome} (settled : loop.ticks[tick]? = some (.settled outcome)) :
      Moves (.finish tick) (loop.finish tick outcome)
  | resume {call tick outcome} (waiting : loop.stops[call]? = some (.waiting tick))
      (finished : loop.ticks[tick]? = some (.finished outcome)) :
      Moves (.resume call) (loop.resume call outcome)

variable {loop} {loop' : RelayLoop} {a : Label}

theorem Moves.of_next (h : loop.next a = some loop') : loop.Moves a loop' := by
  cases a with
  | start =>
    cases h
    exact .start
  | stop =>
    cases h
    exact .stop
  | fire interval =>
    simp only [next, Option.ite_none_right_eq_some, Option.some.injEq] at h
    obtain ⟨firing, rfl⟩ := h
    exact .fire firing
  | settle tick outcome =>
    simp only [next, Option.ite_none_right_eq_some, Option.some.injEq] at h
    obtain ⟨running, rfl⟩ := h
    exact .settle running
  | finish tick =>
    simp only [next] at h
    split at h
    · cases h
      exact .finish ‹_›
    · cases h
  | resume call =>
    simp only [next] at h
    split at h
    · split at h
      · cases h
        exact .resume ‹_› ‹_›
      · cases h
    · cases h

/-! ## Ticks in flight -/

/-- The tick has been called, and its promise has not settled. -/
def InFlight (loop : RelayLoop) (tick : ℕ) : Prop := loop.ticks[tick]? = some .running

/-- The tick's `finally` has not run. -/
def Unfinished (loop : RelayLoop) (tick : ℕ) : Prop := loop.ticks[tick]?.any Tick.pending = true

theorem InFlight.unfinished {tick : ℕ} (h : loop.InFlight tick) : loop.Unfinished tick := by
  rw [Unfinished, h]
  rfl

/-- The tick has run to its end. -/
def Finished (loop : RelayLoop) (tick : ℕ) : Prop :=
  ∃ outcome, loop.ticks[tick]? = some (.finished outcome)

theorem InFlight.lt {tick : ℕ} (h : loop.InFlight tick) : tick < loop.ticks.length :=
  (List.getElem?_eq_some_iff.1 h).1

theorem finished_of_not_unfinished {tick : ℕ} (lt : tick < loop.ticks.length)
    (h : ¬ loop.Unfinished tick) : loop.Finished tick := by
  rw [Unfinished, List.getElem?_eq_getElem lt] at h
  rw [Finished, List.getElem?_eq_getElem lt]
  cases known : loop.ticks[tick] with
  | finished outcome => exact ⟨outcome, rfl⟩
  | _ => simp [known, Tick.pending] at h

theorem unfinished_fire (idle : loop.inFlight = none) (tick : ℕ) :
    loop.fire.Unfinished tick ↔ loop.Unfinished tick ∨ tick = loop.ticks.length := by
  have fired : loop.fire.ticks = loop.ticks ++ [.running] := by simp [fire, idle]
  rw [Unfinished, Unfinished, fired]
  rcases Nat.lt_trichotomy tick loop.ticks.length with lt | rfl | gt
  · rw [List.getElem?_append_left lt]
    simp [Nat.ne_of_lt lt]
  · simp [Tick.pending]
  · have beyond : (loop.ticks ++ [Tick.running]).length ≤ tick := by
      rw [List.length_append, List.length_singleton]
      exact gt
    rw [List.getElem?_eq_none beyond, List.getElem?_eq_none (Nat.le_of_lt gt)]
    simp [Nat.ne_of_gt gt]

theorem unfinished_settle {tick : ℕ} {outcome : Outcome} (running : loop.InFlight tick)
    (other : ℕ) : (loop.settle tick outcome).Unfinished other ↔ loop.Unfinished other := by
  by_cases same : tick = other
  · subst same
    rw [Unfinished, settle, List.getElem?_set_self running.lt]
    exact iff_of_true rfl running.unfinished
  · rw [Unfinished, settle, List.getElem?_set_ne same]
    rfl

theorem unfinished_finish {tick : ℕ} {outcome : Outcome} (other : ℕ) :
    (loop.finish tick outcome).Unfinished other ↔ loop.Unfinished other ∧ tick ≠ other := by
  by_cases same : tick = other
  · subst same
    have none : (loop.finish tick outcome).Unfinished tick ↔ False := by
      rw [Unfinished, finish, List.getElem?_set_self']
      cases loop.ticks[tick]? <;> simp [Tick.pending]
    rw [none]
    exact ⟨False.elim, fun h => h.2 rfl⟩
  · rw [Unfinished, finish, List.getElem?_set_ne same]
    exact ⟨fun h => ⟨h, same⟩, fun h => h.1⟩

/-- The fields of the loop agree with the runtime. -/
structure Valid (loop : RelayLoop) : Prop where
  intervals : loop.intervals = loop.timer.toList
  inFlight : ∀ tick, loop.Unfinished tick ↔ loop.inFlight = some tick

theorem Valid.eq_of_inFlight {tick tick' : ℕ} (valid : loop.Valid) (h : loop.InFlight tick)
    (h' : loop.InFlight tick') : tick = tick' := by
  have first := (valid.inFlight tick).1 h.unfinished
  have second := (valid.inFlight tick').1 h'.unfinished
  rw [first] at second
  exact Option.some.inj second

theorem valid_new : new.Valid where
  intervals := rfl
  inFlight tick := by simp [Unfinished, new]

theorem Valid.next (valid : loop.Valid) (moves : loop.Moves a loop') : loop'.Valid := by
  cases moves with
  | start =>
    rw [RelayLoop.start]
    split_ifs with timer
    · exact valid
    · rw [Option.not_isSome_iff_eq_none] at timer
      exact ⟨by simp [valid.intervals, timer], valid.inFlight⟩
  | stop =>
    refine ⟨?_, valid.inFlight⟩
    cases timer : loop.timer <;> simp [RelayLoop.stop, valid.intervals, timer]
  | fire =>
    by_cases busy : loop.inFlight.isSome = true
    · rw [RelayLoop.fire, if_pos busy]
      exact valid
    · have idle := Option.not_isSome_iff_eq_none.1 busy
      have fired : loop.fire.inFlight = some loop.ticks.length := by simp [RelayLoop.fire, idle]
      have same : loop.fire.intervals = loop.intervals ∧ loop.fire.timer = loop.timer := by
        simp [RelayLoop.fire, idle]
      refine ⟨by rw [same.1, same.2, valid.intervals], fun tick => ?_⟩
      rw [unfinished_fire idle, fired, valid.inFlight, idle, Option.some.injEq]
      constructor
      · rintro (h | h)
        · cases h
        · exact h.symm
      · exact fun h => .inr h.symm
  | @settle tick outcome running =>
    refine ⟨valid.intervals, fun other => ?_⟩
    rw [unfinished_settle running]
    exact valid.inFlight other
  | @finish tick outcome settled =>
    refine ⟨valid.intervals, fun other => ?_⟩
    have busy : loop.inFlight = some tick := (valid.inFlight tick).1 (by
      rw [Unfinished, settled]
      rfl)
    have idle : (loop.finish tick outcome).inFlight = none := rfl
    rw [unfinished_finish, idle, valid.inFlight, busy, Option.some.injEq]
    constructor
    · exact fun h => absurd h.1 h.2
    · intro h
      cases h
  | resume => exact ⟨valid.intervals, valid.inFlight⟩

/-! ## From a call of `stop` on -/

/-- The loop has no interval, and the call of `stop` waits for the tick in flight. -/
structure Stopping (call : ℕ) (loop : RelayLoop) : Prop where
  timer : loop.timer = none
  waits : ∃ stop, loop.stops[call]? = some stop ∧
    ∀ tick, loop.inFlight = some tick → stop = .waiting tick

theorem stopping_stop : loop.stop.Stopping loop.stops.length where
  timer := rfl
  waits := by
    refine ⟨loop.inFlight.elim .resolved .waiting, by simp [RelayLoop.stop], fun tick busy => ?_⟩
    have busy : loop.inFlight = some tick := busy
    rw [busy]
    rfl

/-- The call of `stop` has settled. -/
def Settled (call : ℕ) (loop : RelayLoop) : Prop :=
  ∃ stop, loop.stops[call]? = some stop ∧ ∀ tick, stop ≠ .waiting tick

/-- Once the call has settled, every tick is finished. -/
theorem Stopping.not_unfinished {call tick : ℕ} (stopping : loop.Stopping call)
    (valid : loop.Valid) (settled : loop.Settled call) : ¬ loop.Unfinished tick := by
  intro unfinished
  obtain ⟨stop, found, done⟩ := settled
  obtain ⟨stop', found', waits⟩ := stopping.waits
  rw [found] at found'
  cases found'
  exact done tick (waits tick ((valid.inFlight tick).1 unfinished))

theorem Settled.next {call : ℕ} (settled : loop.Settled call) (moves : loop.Moves a loop') :
    loop'.Settled call := by
  obtain ⟨stop, found, done⟩ := settled
  refine ⟨stop, ?_, done⟩
  cases moves with
  | start =>
    rw [RelayLoop.start]
    split <;> exact found
  | stop =>
    have lt : call < loop.stops.length := (List.getElem?_eq_some_iff.1 found).1
    rw [RelayLoop.stop, List.getElem?_append_left lt]
    exact found
  | fire =>
    rw [fire]
    split <;> exact found
  | settle => exact found
  | finish => exact found
  | @resume other tick outcome waiting _ =>
    have ne : other ≠ call := by
      rintro rfl
      rw [found] at waiting
      exact done tick (Option.some.inj waiting)
    rw [resume, List.getElem?_set_ne ne]
    exact found

theorem Stopping.next {call : ℕ} (stopping : loop.Stopping call) (valid : loop.Valid)
    (moves : loop.Moves a loop') (quiet : a ≠ .start) :
    loop'.Stopping call ∧ loop'.ticks.length = loop.ticks.length := by
  obtain ⟨timer, stop, found, waits⟩ := stopping
  have lt : call < loop.stops.length := (List.getElem?_eq_some_iff.1 found).1
  cases moves with
  | start => exact absurd rfl quiet
  | stop =>
    refine ⟨⟨rfl, stop, ?_, waits⟩, rfl⟩
    rw [RelayLoop.stop, List.getElem?_append_left lt]
    exact found
  | fire firing =>
    rw [valid.intervals, timer] at firing
    cases firing
  | settle => exact ⟨⟨timer, stop, found, waits⟩, List.length_set⟩
  | finish =>
    exact ⟨⟨timer, stop, found, fun tick busy => by cases busy⟩, List.length_set⟩
  | @resume other tick outcome waiting finished =>
    refine ⟨⟨timer, ?_⟩, rfl⟩
    by_cases same : other = call
    · subst same
      refine ⟨if outcome.fulfilled then .resolved else .rejected, by simp [RelayLoop.resume, lt],
        fun tick' busy => ?_⟩
      -- the tick that the call waited for is the one in flight, but it has finished
      have unfinished := (valid.inFlight tick').2 busy
      rw [waiting] at found
      cases found
      cases waits tick' busy
      rw [Unfinished, finished] at unfinished
      cases unfinished
    · refine ⟨stop, ?_, waits⟩
      rw [RelayLoop.resume, List.getElem?_set_ne same]
      exact found

end RelayLoop

end EstateServer.Workers
