import EstateServer.Library.Machine
import EstateServer.Workers.RelayLoop

/-!
# Graceful shutdown

`createShutdownRunner` drains, closes the app and exits, under a watchdog that exits on its own.
The runner and a relay loop run on one event loop: timers, the promises of the ticks, of `drain`, of
`close` and of `Sentry.flush`, and the calls of `start`, `stop` and of the runner come in any order.

`shutdown_safe`: no two ticks overlap, a `stop` that has resolved leaves no tick behind, `drain` and
`close` run at most once and in this order, and `exit` is called at most once, with 0 only where
both have succeeded and the watchdog has not fired.

`exit` does not end a run here: what follows is then another order of the same steps.
-/

namespace EstateServer.Workers

open Machine

/-- The option `drain`: absent, any function, or that of the relay process, `loop.stop`. -/
inductive Drain
  | absent
  | external
  | loopStop
  deriving DecidableEq, Repr

inductive Watchdog
  | unset
  | armed
  | fired
  | cleared
  deriving DecidableEq, Repr

/-- Where the body of the runner is; `call` numbers the call of `loop.stop`, where that is the
drain. -/
inductive Phase
  | idle
  | draining (call : ℕ)
  | closing
  | returned
  deriving DecidableEq, Repr

structure Runner where
  started : Bool
  timedOut : Bool
  watchdog : Watchdog
  phase : Phase
  /-- The codes of the calls of `flushThenExit` whose flush is going on. -/
  flushing : List ℕ
  /-- The number of calls of `drain`. -/
  drains : ℕ
  /-- The number of calls of `app.close`. -/
  closes : ℕ
  /-- The calls of `exit`. -/
  exits : List ℕ
  deriving DecidableEq, Repr

namespace Runner

def new : Runner where
  started := false
  timedOut := false
  watchdog := .unset
  phase := .idle
  flushing := []
  drains := 0
  closes := 0
  exits := []

variable (r : Runner)

/-- A call of the runner, up to its first `await`. -/
def invoke (drain : Drain) (call : ℕ) : Runner :=
  if r.started then r
  else
    { r with
      started := true
      watchdog := .armed
      phase := .draining call
      drains := r.drains + if drain = .absent then 0 else 1 }

/-- The runner returns, after `clearTimeout(watchdog)`. -/
def clear : Runner :=
  { r with
    watchdog := if r.watchdog = .armed then .cleared else r.watchdog
    phase := .returned }

/-- The `catch` block. -/
def fail : Runner :=
  if r.timedOut then r.clear else { r.clear with flushing := r.flushing ++ [1] }

/-- `drain` has settled. -/
def drained (ok : Bool) : Runner :=
  if ok then { r with phase := .closing, closes := r.closes + 1 } else r.fail

/-- `app.close` has settled. -/
def closed (ok : Bool) : Runner :=
  if ok then
    if r.timedOut then r.clear else { r.clear with exits := r.exits ++ [0] }
  else r.fail

/-- The callback of the watchdog. -/
def expire : Runner :=
  { r with timedOut := true, watchdog := .fired, flushing := r.flushing ++ [1] }

/-- A flush has settled. -/
def flushed (i code : ℕ) : Runner :=
  { r with flushing := r.flushing.eraseIdx i, exits := r.exits ++ [code] }

end Runner

structure State where
  loop : RelayLoop
  runner : Runner
  deriving DecidableEq, Repr

inductive Label
  | loop (a : RelayLoop.Label)
  | invoke
  | drained (ok : Bool)
  | closed (ok : Bool)
  | watchdog
  | flushed (i : ℕ) (ok : Bool)
  deriving DecidableEq, Repr

namespace State

def new : State := { loop := .new, runner := .new }

variable (drain : Drain) (s : State)

/-- A call of the runner, which calls `drain` at once if it is the first. -/
def invoke : State where
  loop := if drain = .loopStop ∧ s.runner.started = false then s.loop.stop else s.loop
  runner := s.runner.invoke drain s.loop.stops.length

/-- The promise of `drain` has settled so. -/
def settles (call : ℕ) (ok : Bool) : Bool :=
  match drain with
  | .absent => ok
  | .external => true
  | .loopStop => s.loop.stops[call]? = some (if ok then .resolved else .rejected)

def next : Label → Option State
  | .loop a => (s.loop.next a).map fun loop => { s with loop := loop }
  | .invoke => some (s.invoke drain)
  | .drained ok =>
    match s.runner.phase with
    | .draining call =>
      if s.settles drain call ok then some { s with runner := s.runner.drained ok } else none
    | _ => none
  | .closed ok =>
    if s.runner.phase = .closing then some { s with runner := s.runner.closed ok } else none
  | .watchdog =>
    if s.runner.watchdog = .armed then some { s with runner := s.runner.expire } else none
  | .flushed i _ =>
    s.runner.flushing[i]?.map fun code => { s with runner := s.runner.flushed i code }

/-- What a step does. -/
inductive Moves : Label → State → Prop
  | loop {a loop} (moves : s.loop.Moves a loop) : Moves (.loop a) { s with loop := loop }
  | invoke : Moves .invoke (s.invoke drain)
  | drained {call ok} (phase : s.runner.phase = .draining call)
      (settles : s.settles drain call ok) :
      Moves (.drained ok) { s with runner := s.runner.drained ok }
  | closed {ok} (phase : s.runner.phase = .closing) :
      Moves (.closed ok) { s with runner := s.runner.closed ok }
  | watchdog (armed : s.runner.watchdog = .armed) :
      Moves .watchdog { s with runner := s.runner.expire }
  | flushed {i code ok} (flushing : s.runner.flushing[i]? = some code) :
      Moves (.flushed i ok) { s with runner := s.runner.flushed i code }

variable {drain s} {s' : State} {a : Label}

theorem Moves.of_next (h : s.next drain a = some s') : s.Moves drain a s' := by
  cases a with
  | loop a =>
    obtain ⟨loop, moved, rfl⟩ := Option.map_eq_some_iff.1 h
    exact .loop (.of_next moved)
  | invoke =>
    cases h
    exact .invoke
  | drained ok =>
    simp only [next] at h
    split at h
    · obtain ⟨settles, h⟩ := (Option.ite_none_right_eq_some ..).1 h
      cases h
      exact .drained ‹_› settles
    · cases h
  | closed ok =>
    obtain ⟨phase, h⟩ := (Option.ite_none_right_eq_some ..).1 h
    cases h
    exact .closed phase
  | watchdog =>
    obtain ⟨armed, h⟩ := (Option.ite_none_right_eq_some ..).1 h
    cases h
    exact .watchdog armed
  | flushed i ok =>
    obtain ⟨code, flushing, rfl⟩ := Option.map_eq_some_iff.1 h
    exact .flushed flushing

end State

/-- A process with a relay loop and a shutdown runner. -/
def process (drain : Drain) : Machine State Label where
  start s := s = .new
  next s := s.next drain

/-! ## The runner -/

namespace Runner

section

variable (r : Runner) (ok : Bool)

@[simp] theorem started_fail : r.fail.started = r.started := by
  rw [fail]
  split <;> rfl

@[simp] theorem started_drained : (r.drained ok).started = r.started := by
  rw [drained]
  split
  · rfl
  · exact started_fail r

@[simp] theorem started_closed : (r.closed ok).started = r.started := by
  rw [closed]
  split
  · split <;> rfl
  · exact started_fail r

/-- Calls of the runner after the first are ignored. -/
theorem invoke_of_started {drain : Drain} {call : ℕ} (started : r.started = true) :
    r.invoke drain call = r :=
  if_pos started

end

/-- The runner, after the steps with these labels. -/
structure Valid (labels : List Label) (r : Runner) : Prop where
  idle : r.started = false → r.phase = .idle ∧ r.timedOut = false ∧ r.drains = 0
  armed : r.watchdog = .armed → r.started = true ∧ r.timedOut = false ∧ r.phase ≠ .returned
  timedOut : r.timedOut = true ↔ .watchdog ∈ labels
  drains : r.drains ≤ 1
  closes : r.closes ≤ 1
  closed : 0 < r.closes → (r.phase = .closing ∨ r.phase = .returned) ∧ .drained true ∈ labels
  closing : r.phase = .closing → .drained true ∈ labels
  exits : r.exits.length + r.flushing.length ≤ 1
  pending : r.timedOut = false → r.phase ≠ .returned → r.exits = [] ∧ r.flushing = []
  flushing : ∀ code ∈ r.flushing, code = 1
  codes : ∀ code ∈ r.exits, code = 1 ∨ code = 0 ∧ r.timedOut = false ∧ r.phase = .returned ∧
    .drained true ∈ labels ∧ .closed true ∈ labels

variable {labels : List Label} {r : Runner}

theorem valid_new : new.Valid [] := by
  constructor <;> simp [new]

/-- A step that leaves the runner alone. -/
theorem Valid.append (valid : r.Valid labels) {a : Label} (other : a ≠ .watchdog) :
    r.Valid (labels ++ [a]) :=
  { valid with
    timedOut := by simp [valid.timedOut, other.symm]
    closed := fun pos => (valid.closed pos).imp_right (List.mem_append_left _)
    closing := fun phase => List.mem_append_left _ (valid.closing phase)
    codes := fun code mem => by
      refine (valid.codes code mem).imp_right ?_
      rintro ⟨zero, inTime, returned, drained, closed⟩
      exact ⟨zero, inTime, returned, List.mem_append_left _ drained,
        List.mem_append_left _ closed⟩ }

theorem Valid.invoke (valid : r.Valid labels) (drain : Drain) (call : ℕ) :
    (r.invoke drain call).Valid labels := by
  rw [Runner.invoke]
  split
  · exact valid
  · next fresh =>
    obtain ⟨phase, inTime, drains⟩ := valid.idle (Bool.eq_false_iff.2 fresh)
    obtain ⟨exits, flushing⟩ := valid.pending inTime (by simp [phase])
    exact
      { valid with
        idle := by simp
        armed := by simp [inTime]
        drains := by
          simp only [drains]
          split <;> simp
        closed := fun pos => by simpa [phase] using (valid.closed pos).1
        closing := by simp
        pending := fun _ _ => ⟨exits, flushing⟩
        codes := by simp [exits] }

theorem Valid.clear (valid : r.Valid labels) (busy : r.phase ≠ .idle) : r.clear.Valid labels :=
  { valid with
    idle := fun fresh => absurd (valid.idle fresh).1 busy
    armed := fun armed => by
      simp only [Runner.clear] at armed
      split at armed <;> simp_all
    closed := fun pos => ⟨.inr rfl, (valid.closed pos).2⟩
    closing := by simp [Runner.clear]
    pending := fun _ returned => absurd rfl returned
    codes := fun code mem => by
      refine (valid.codes code mem).imp_right ?_
      rintro ⟨zero, inTime, -, drained, closed⟩
      exact ⟨zero, inTime, rfl, drained, closed⟩ }

theorem Valid.fail (valid : r.Valid labels) (busy : r.phase ≠ .idle) (here : r.phase ≠ .returned) :
    r.fail.Valid labels := by
  rw [Runner.fail]
  split
  · exact valid.clear busy
  · next inTime =>
    obtain ⟨exits, flushing⟩ := valid.pending (Bool.eq_false_iff.2 inTime) here
    exact
      { valid.clear busy with
        exits := by simp [Runner.clear, exits, flushing]
        pending := fun _ returned => absurd rfl returned
        flushing := by simp [flushing] }

theorem Valid.drained {call : ℕ} {ok : Bool} (valid : r.Valid labels)
    (phase : r.phase = .draining call) : (r.drained ok).Valid (labels ++ [.drained ok]) := by
  cases ok with
  | false => exact (valid.fail (by simp [phase]) (by simp [phase])).append (by simp)
  | true =>
    have none : r.closes = 0 := by
      by_contra pos
      simpa [phase] using (valid.closed (Nat.pos_of_ne_zero pos)).1
    rw [Runner.drained, if_pos rfl]
    exact
      { valid.append (a := .drained true) (by simp) with
        idle := fun fresh => by simpa [phase] using (valid.idle fresh).1
        armed := fun armed => ⟨(valid.armed armed).1, (valid.armed armed).2.1, by simp⟩
        closes := by simp [none]
        closed := fun _ => ⟨.inl rfl, List.mem_concat_self⟩
        closing := fun _ => List.mem_concat_self
        pending := fun inTime _ => valid.pending inTime (by simp [phase])
        codes := fun code mem => by
          refine (valid.codes code mem).imp_right ?_
          rintro ⟨-, -, returned, -⟩
          simp [phase] at returned }

theorem Valid.closeSettled {ok : Bool} (valid : r.Valid labels) (phase : r.phase = .closing) :
    (r.closed ok).Valid (labels ++ [.closed ok]) := by
  cases ok with
  | false => exact (valid.fail (by simp [phase]) (by simp [phase])).append (by simp)
  | true =>
    have cleared := (valid.clear (by simp [phase])).append (a := .closed true) (by simp)
    rw [Runner.closed, if_pos rfl]
    split
    · exact cleared
    · next inTime =>
      obtain ⟨exits, flushing⟩ := valid.pending (Bool.eq_false_iff.2 inTime) (by simp [phase])
      have drained := List.mem_append_left [.closed true] (valid.closing phase)
      exact
        { cleared with
          exits := by simp [Runner.clear, exits, flushing]
          pending := fun _ returned => absurd rfl returned
          codes := fun code mem => by
            rw [exits, List.nil_append, List.mem_singleton] at mem
            exact .inr ⟨mem, Bool.eq_false_iff.2 inTime, rfl, drained, List.mem_concat_self⟩ }

theorem Valid.expire (valid : r.Valid labels) (armed : r.watchdog = .armed) :
    r.expire.Valid (labels ++ [.watchdog]) := by
  obtain ⟨started, inTime, here⟩ := valid.armed armed
  obtain ⟨exits, flushing⟩ := valid.pending inTime here
  exact
    { valid with
      idle := fun fresh => by simp [Runner.expire, started] at fresh
      armed := by simp [Runner.expire]
      timedOut := iff_of_true rfl List.mem_concat_self
      closed := fun pos => (valid.closed pos).imp_right (List.mem_append_left _)
      closing := fun phase => List.mem_append_left _ (valid.closing phase)
      exits := by simp [Runner.expire, exits, flushing]
      pending := by simp [Runner.expire]
      flushing := by simp [Runner.expire, flushing]
      codes := by simp [Runner.expire, exits] }

theorem Valid.flushed {i code : ℕ} (valid : r.Valid labels) (found : r.flushing[i]? = some code) :
    (r.flushed i code).Valid labels := by
  have lt : i < r.flushing.length := (List.getElem?_eq_some_iff.1 found).1
  have one : code = 1 := valid.flushing code (List.mem_of_getElem? found)
  exact
    { valid with
      exits := by
        have few := valid.exits
        rw [Runner.flushed, List.length_append, List.length_singleton,
          List.length_eraseIdx_of_lt lt]
        omega
      pending := fun inTime here => by
        rw [(valid.pending inTime here).2] at lt
        cases lt
      flushing := fun code mem => valid.flushing code (List.mem_of_mem_eraseIdx mem)
      codes := fun code' mem => by
        rcases List.mem_append.1 mem with mem | mem
        · exact valid.codes code' mem
        · exact .inl (by rw [List.mem_singleton.1 mem, one]) }

end Runner

/-! ## One step -/

section

variable {drain : Drain} {s s' : State} {a : Label} {labels : List Label} {call : ℕ}

namespace State

theorem Moves.runner_valid (moves : s.Moves drain a s') (valid : s.runner.Valid labels) :
    s'.runner.Valid (labels ++ [a]) := by
  cases moves with
  | loop => exact valid.append (by simp)
  | invoke => exact (valid.invoke drain _).append (by simp)
  | drained phase => exact valid.drained phase
  | closed phase => exact valid.closeSettled phase
  | watchdog armed => exact valid.expire armed
  | flushed found => exact (valid.flushed found).append (by simp)

/-- What a step does to the loop. -/
theorem Moves.loop_cases (moves : s.Moves drain a s') :
    s'.loop = s.loop ∨ ∃ b, s.loop.Moves b s'.loop ∧ (b = .start → a = .loop .start) := by
  cases moves with
  | @loop b loop moves => exact .inr ⟨b, moves, fun start => congrArg Label.loop start⟩
  | invoke =>
    simp only [State.invoke]
    split
    · exact .inr ⟨.stop, .stop, by simp⟩
    · exact .inl rfl
  | _ => exact .inl rfl

theorem Moves.started (moves : s.Moves drain a s') (other : a ≠ .invoke) :
    s'.runner.started = s.runner.started := by
  cases moves with
  | invoke => exact absurd rfl other
  | drained => exact Runner.started_drained ..
  | closed => exact Runner.started_closed ..
  | _ => rfl

theorem Moves.loop_valid (moves : s.Moves drain a s') (valid : s.loop.Valid) : s'.loop.Valid := by
  rcases moves.loop_cases with same | ⟨b, moved, -⟩
  · rwa [same]
  · exact valid.next moved

theorem Moves.settled (moves : s.Moves drain a s') (settled : s.loop.Settled call) :
    s'.loop.Settled call := by
  rcases moves.loop_cases with same | ⟨b, moved, -⟩
  · rwa [same]
  · exact settled.next moved

theorem Moves.stopping (moves : s.Moves drain a s') (quiet : a ≠ .loop .start)
    (valid : s.loop.Valid) (stopping : s.loop.Stopping call) :
    s'.loop.Stopping call ∧ s'.loop.ticks.length = s.loop.ticks.length := by
  rcases moves.loop_cases with same | ⟨b, moved, start⟩
  · rw [same]
    exact ⟨stopping, rfl⟩
  · exact stopping.next valid moved fun h => quiet (start h)

end State

/-- From the call of `drain` on, where that is `loop.stop`: the runner waits for it, or it has
settled. -/
structure Draining (call : ℕ) (s : State) : Prop where
  valid : s.loop.Valid
  started : s.runner.started = true
  stopping : s.loop.Stopping call
  waits : s.runner.phase = .draining call ∨ s.loop.Settled call

theorem Draining.next (h : Draining call s) (moves : s.Moves .loopStop a s')
    (quiet : a ≠ .loop .start) : Draining call s' where
  valid := moves.loop_valid h.valid
  started := by
    by_cases called : a = .invoke
    · subst called
      cases moves
      rw [State.invoke, Runner.invoke_of_started _ h.started, h.started]
    · rw [moves.started called, h.started]
  stopping := (moves.stopping quiet h.valid h.stopping).1
  waits := by
    rcases h.waits with waits | settled
    · cases moves with
      | invoke =>
        rw [State.invoke, Runner.invoke_of_started _ h.started]
        exact .inl waits
      | @drained call' ok phase settles =>
        obtain rfl : call' = call := Phase.draining.inj (phase.symm.trans waits)
        refine .inr ⟨if ok then .resolved else .rejected, ?_, ?_⟩
        · simpa [State.settles] using settles
        · cases ok <;> simp
      | closed phase =>
        rw [phase] at waits
        cases waits
      | _ => exact .inl waits
    · exact .inr (moves.settled settled)

/-- When the runner has gone on from `drain`, every tick is finished. -/
theorem Draining.not_unfinished {tick : ℕ} (h : Draining call s)
    (on : s.runner.phase ≠ .draining call) : ¬ s.loop.Unfinished tick :=
  h.stopping.not_unfinished h.valid (h.waits.resolve_left on)

theorem State.loop_invoke (fresh : s.runner.started = false) :
    (s.invoke .loopStop).loop = s.loop.stop :=
  if_pos ⟨rfl, fresh⟩

/-- The first call of the runner, where `drain` is `loop.stop`. -/
theorem Draining.invoke (valid : s.loop.Valid) (fresh : s.runner.started = false) :
    Draining s.loop.stops.length (s.invoke .loopStop) := by
  have stopped := State.loop_invoke fresh
  have called : (s.invoke .loopStop).runner.started = true ∧
      (s.invoke .loopStop).runner.phase = .draining s.loop.stops.length := by
    simp [State.invoke, Runner.invoke, fresh]
  refine ⟨?_, called.1, ?_, .inl called.2⟩ <;> rw [stopped]
  · exact valid.next .stop
  · exact RelayLoop.stopping_stop

end

/-! ## The statement -/

/-- `start` is not called. -/
def Quiet (tr : List (Step State Label)) : Prop := ∀ st ∈ tr, st.label ≠ .loop .start

/-- The runner is called for the first time. -/
def Drains (st : Step State Label) : Prop := st.label = .invoke ∧ st.pre.runner.started = false

/-- The step calls `stop`. -/
def Stops (drain : Drain) (st : Step State Label) : Prop :=
  st.label = .loop .stop ∨ drain = .loopStop ∧ Drains st

/-- What holds of the loop and of the runner after the steps `tr`. -/
structure Safe (drain : Drain) (tr : List (Step State Label)) (s : State) : Prop where
  oneTick : ∀ tick tick', s.loop.InFlight tick → s.loop.InFlight tick' → tick = tick'
  /-- A `stop` that has resolved, with no `start` since it was called: no tick is in flight, and
  none starts. -/
  stopped : ∀ before st after, tr = before ++ st :: after → Stops drain st → Quiet after →
    s.loop.stops[st.pre.loop.stops.length]? = some .resolved →
    (∀ tick, ¬ s.loop.InFlight tick) ∧ ∀ tr' t, (process drain).Run Any s tr' t → Quiet tr' →
      t.loop.ticks.length = s.loop.ticks.length
  drainOnce : s.runner.drains ≤ 1
  closeOnce : s.runner.closes ≤ 1
  closeAfterDrain : 0 < s.runner.closes → .drained true ∈ tr.map (·.label)
  exitOnce : s.runner.exits.length ≤ 1
  exitZero : 0 ∈ s.runner.exits → .drained true ∈ tr.map (·.label) ∧
    .closed true ∈ tr.map (·.label) ∧ .watchdog ∉ tr.map (·.label)
  /-- The relay process calls `start` before it sets up its shutdown, and not again. -/
  relay : drain = .loopStop → 0 ∈ s.runner.exits →
    (∀ before st after, tr = before ++ st :: after → Drains st → Quiet after) →
    ∀ tick, ¬ s.loop.InFlight tick
  timedOut : .watchdog ∈ tr.map (·.label) → ∀ code ∈ s.runner.exits, code = 1

/-! ## Runs -/

section

variable {drain : Drain} {s t : State} {tr : List (Step State Label)} {call : ℕ}

theorem loop_valid_of_run (run : (process drain).Run Any s tr t) (valid : s.loop.Valid) :
    t.loop.Valid :=
  run.invariant (I := fun s => s.loop.Valid)
    (fun _ _ _ valid _ step => (State.Moves.of_next step).loop_valid valid) valid

theorem runner_valid_of_run (run : (process drain).Run Any .new tr s) :
    s.runner.Valid (tr.map (·.label)) := by
  refine run.trace_invariant (I := fun tr s => s.runner.Valid (tr.map (·.label))) ?_
    Runner.valid_new
  intro tr s a t valid _ step
  rw [List.map_append]
  exact (State.Moves.of_next step).runner_valid valid

/-- While `start` is not called, a loop that stops runs no new tick. -/
theorem stopping_of_run (run : (process drain).Run Any s tr t) (quiet : Quiet tr)
    (valid : s.loop.Valid) (stopping : s.loop.Stopping call) :
    t.loop.Stopping call ∧ t.loop.ticks.length = s.loop.ticks.length := by
  have quiet : (process drain).Run (fun _ a => a ≠ .loop .start) s tr t := run.restrict quiet
  have kept := quiet.invariant (I := fun t => t.loop.Valid ∧ t.loop.Stopping call ∧
    t.loop.ticks.length = s.loop.ticks.length) ?_ ⟨valid, stopping, rfl⟩
  · exact kept.2
  · rintro s' a t' ⟨valid, stopping, ticks⟩ quiet step
    have moves := State.Moves.of_next step
    obtain ⟨stopping, same⟩ := moves.stopping quiet valid stopping
    exact ⟨moves.loop_valid valid, stopping, same.trans ticks⟩

theorem draining_of_run (run : (process .loopStop).Run Any s tr t) (quiet : Quiet tr)
    (h : Draining call s) : Draining call t := by
  have quiet : (process .loopStop).Run (fun _ a => a ≠ .loop .start) s tr t := run.restrict quiet
  exact quiet.invariant (I := Draining call)
    (fun _ _ _ h quiet step => h.next (State.Moves.of_next step) quiet) h

/-- A runner that has started was called. -/
theorem exists_drains (run : (process drain).Run Any .new tr s) :
    s.runner.started = true → ∃ before st after, tr = before ++ st :: after ∧ Drains st := by
  refine run.trace_invariant (I := fun tr s => s.runner.started = true →
    ∃ before st after, tr = before ++ st :: after ∧ Drains st) ?_ (by simp [State.new, Runner.new])
  intro tr s a t ih _ step started
  by_cases fresh : s.runner.started = true
  · obtain ⟨before, st, after, rfl, drains⟩ := ih fresh
    exact ⟨before, st, after ++ [⟨s, a, t⟩], by simp, drains⟩
  · have called : a = .invoke := by
      by_contra other
      rw [(State.Moves.of_next step).started other] at started
      exact fresh started
    exact ⟨tr, ⟨s, a, t⟩, [], rfl, called, Bool.eq_false_iff.2 fresh⟩

/-- The step that calls `stop` begins to stop the loop. -/
theorem Stops.stopping {st : Step State Label} (stops : Stops drain st)
    (step : (process drain).next st.pre st.label = some st.post) :
    st.post.loop.Stopping st.pre.loop.stops.length := by
  obtain ⟨pre, label, post⟩ := st
  rcases stops with rfl | ⟨rfl, rfl, fresh⟩
  · obtain rfl : { pre with loop := pre.loop.stop } = post := Option.some.inj step
    exact RelayLoop.stopping_stop
  · obtain rfl : pre.invoke .loopStop = post := Option.some.inj step
    have stopping : pre.loop.stop.Stopping pre.loop.stops.length := RelayLoop.stopping_stop
    rwa [← State.loop_invoke fresh] at stopping

/-- The step that calls `drain`, where that is `loop.stop`. -/
theorem Drains.draining {st : Step State Label} (drains : Drains st) (valid : st.pre.loop.Valid)
    (step : (process .loopStop).next st.pre st.label = some st.post) :
    Draining st.pre.loop.stops.length st.post := by
  obtain ⟨pre, label, post⟩ := st
  obtain ⟨rfl, fresh⟩ := drains
  obtain rfl : pre.invoke .loopStop = post := Option.some.inj step
  exact .invoke valid fresh

/-- In every order of their steps the loop and the runner keep what they promise. -/
theorem shutdown_safe (run : (process drain).Run Any .new tr s) : Safe drain tr s := by
  have loop := loop_valid_of_run run RelayLoop.valid_new
  have runner := runner_valid_of_run run
  refine
    { oneTick := fun tick tick' h h' => loop.eq_of_inFlight h h'
      stopped := ?_
      drainOnce := runner.drains
      closeOnce := runner.closes
      closeAfterDrain := fun pos => (runner.closed pos).2
      exitOnce := Nat.le_trans (Nat.le_add_right ..) runner.exits
      exitZero := ?_
      relay := ?_
      timedOut := ?_ }
  · rintro before st after rfl stops quiet resolved
    have step := run.next_of_mem (List.mem_append_right _ List.mem_cons_self)
    obtain ⟨front, back⟩ := run.split
    have valid := (State.Moves.of_next step).loop_valid
      (loop_valid_of_run front RelayLoop.valid_new)
    obtain ⟨stopping, -⟩ := stopping_of_run back quiet valid (stops.stopping step)
    have settled : s.loop.Settled _ := ⟨_, resolved, by simp⟩
    refine ⟨fun tick running =>
      stopping.not_unfinished loop settled running.unfinished, ?_⟩
    exact fun tr' t run' quiet' => (stopping_of_run run' quiet' loop stopping).2
  · intro zero
    obtain ⟨-, inTime, -, drained, closed⟩ := (runner.codes 0 zero).resolve_left (by decide)
    refine ⟨drained, closed, fun fired => ?_⟩
    rw [runner.timedOut.2 fired] at inTime
    cases inTime
  · rintro rfl zero quiet tick running
    obtain ⟨-, -, returned, -⟩ := (runner.codes 0 zero).resolve_left (by decide)
    have started : s.runner.started = true := by
      by_contra fresh
      rw [(runner.idle (Bool.eq_false_iff.2 fresh)).1] at returned
      cases returned
    obtain ⟨before, st, after, rfl, drains⟩ := exists_drains run started
    have step := run.next_of_mem (List.mem_append_right _ List.mem_cons_self)
    obtain ⟨front, back⟩ := run.split
    have draining := drains.draining (loop_valid_of_run front RelayLoop.valid_new) step
    have draining := draining_of_run back (quiet before st after rfl drains) draining
    exact draining.not_unfinished (by simp [returned]) running.unfinished
  · intro fired code exit
    refine (runner.codes code exit).resolve_right ?_
    rintro ⟨-, inTime, -⟩
    rw [runner.timedOut.2 fired] at inTime
    cases inTime

end

/-- The relay process is shut down during a tick: the tick ends, and the process exits with 0. -/
theorem shutdown_of_relay : ∃ tr s, (process .loopStop).Run Any .new tr s ∧
    s.runner.exits = [0] ∧ s.loop.ticks = [.finished .resolved] ∧ Safe .loopStop tr s := by
  have computed : ((process .loopStop).exec (fun _ _ => true) .new
      [.loop .start, .loop (.fire 0), .invoke, .loop (.settle 0 .resolved), .loop (.finish 0),
        .loop (.resume 0), .drained true, .closed true]).map
      (fun s => (s.runner.exits, s.loop.ticks)) = some ([0], [.finished .resolved]) := rfl
  obtain ⟨s, reached, last⟩ := Option.map_eq_some_iff.1 computed
  obtain ⟨tr, run, -⟩ := exists_run_of_exec (C := Any) (fun _ _ _ => trivial) reached
  exact ⟨tr, s, run, congrArg Prod.fst last, congrArg Prod.snd last, shutdown_safe run⟩

end EstateServer.Workers
