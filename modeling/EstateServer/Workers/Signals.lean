import EstateServer.Workers.Shutdown

/-!
# Termination signals

`setupGracefulShutdown` registers the runner once for `SIGTERM` and once for `SIGINT`.  A listener
that `process.once` registers is removed when its signal is delivered; a signal without a listener
ends the process at once.  The runner ignores all calls but its first.

`signals_iff`: the process ends only through `exit`, with the tick that was in flight run to its end
unless the watchdog has fired, exactly in the runs in which each signal is delivered at most once.
A second `SIGTERM` cuts the tick short (`killed_by_second_signal`).
-/

namespace EstateServer.Workers

open Machine

inductive Signal
  | sigterm
  | sigint
  deriving DecidableEq, Repr

/-- How the process has ended. -/
inductive End
  | exit (code : ℕ)
  | signal (signal : Signal)
  deriving DecidableEq, Repr

structure Process where
  state : State
  /-- The signals whose listener has not been removed. -/
  listeners : List Signal
  ended : Option End
  deriving DecidableEq, Repr

inductive Event
  | signal (signal : Signal)
  | step (a : Label)
  deriving DecidableEq, Repr

/-- The step of the event loop; a signal calls the runner. -/
def Event.label : Event → Label
  | signal _ => .invoke
  | step a => a

/-- The step is none of the calls that only `bootstrap` and the listeners make. -/
def Label.internal : Label → Bool
  | .invoke => false
  | .loop .start => false
  | .loop .stop => false
  | _ => true

/-- `bootstrap`: the relay process starts its loop, and sets up the shutdown. -/
def bootstrap (drain : Drain) : Process where
  state := { loop := if drain = .loopStop then RelayLoop.new.start else .new, runner := .new }
  listeners := [.sigterm, .sigint]
  ended := none

namespace Process

variable (drain : Drain) (p : Process)

/-- `process.exit` ends the process. -/
def enter (state : State) : Process :=
  { p with state := state, ended := state.runner.exits.head?.map .exit }

def next (e : Event) : Option Process :=
  if p.ended.isSome then none
  else
    match e with
    | .signal signal =>
      if signal ∈ p.listeners then
        some ({ p with listeners := p.listeners.erase signal }.enter (p.state.invoke drain))
      else some { p with ended := some (.signal signal) }
    | .step a => if a.internal then (p.state.next drain a).map p.enter else none

/-- What a step does. -/
inductive Moves : Event → Process → Prop
  | heard {signal} (listening : signal ∈ p.listeners) :
      Moves (.signal signal)
        ({ p with listeners := p.listeners.erase signal }.enter (p.state.invoke drain))
  | killed {signal} (deaf : signal ∉ p.listeners) :
      Moves (.signal signal) { p with ended := some (.signal signal) }
  | step {a state} (internal : a.internal = true) (moves : p.state.Moves drain a state) :
      Moves (.step a) (p.enter state)

variable {drain p} {p' : Process} {e : Event}

theorem Moves.of_next (h : p.next drain e = some p') : p.ended = none ∧ p.Moves drain e p' := by
  simp only [Process.next] at h
  split at h
  · cases h
  · next alive =>
    refine ⟨Option.not_isSome_iff_eq_none.1 alive, ?_⟩
    cases e with
    | signal signal =>
      by_cases listening : signal ∈ p.listeners
      · simp only [if_pos listening, Option.some.injEq] at h
        subst h
        exact .heard listening
      · simp only [if_neg listening, Option.some.injEq] at h
        subst h
        exact .killed listening
    | step a =>
      simp only [Option.ite_none_right_eq_some, Option.map_eq_some_iff] at h
      obtain ⟨internal, state, moved, rfl⟩ := h
      exact .step internal (.of_next moved)

end Process

/-- A process under signals. -/
def node (drain : Drain) : Machine Process Event where
  start p := p = bootstrap drain
  next p := p.next drain

/-! ## The statement -/

/-- The times that the signal has been delivered. -/
def deliveries (signal : Signal) (tr : List (Step Process Event)) : ℕ :=
  (tr.map (·.label)).count (.signal signal)

/-- The shutdown has not been cut short. -/
structure Graceful (drain : Drain) (tr : List (Step Process Event)) (p : Process) : Prop where
  exit : ∀ e, p.ended = some e → ∃ code, e = .exit code
  /-- The tick in flight at the first signal has run to its end, or the watchdog has fired. -/
  tick : drain = .loopStop → p.ended.isSome → ∀ before st after signal tick,
    tr = before ++ st :: after → (∀ signal, deliveries signal before = 0) →
    st.label = .signal signal → st.pre.state.loop.InFlight tick →
    p.state.loop.Finished tick ∨ .step .watchdog ∈ tr.map (·.label)

/-! ## What every run keeps -/

section

variable {drain : Drain} {p q : Process} {tr : List (Step Process Event)} {e : Event}
  {signal : Signal}

/-- The listeners that are left, against the signals that have been delivered. -/
structure Heard (tr : List (Step Process Event)) (p : Process) : Prop where
  listeners : ∀ signal, deliveries signal tr + p.listeners.count signal = 1
  ended : ∀ signal, p.ended ≠ some (.signal signal)

/-- What holds of the process after the steps `tr`. -/
structure Known (tr : List (Step Process Event)) (p : Process) : Prop where
  loop : p.state.loop.Valid
  runner : p.state.runner.Valid (tr.map (·.label.label))
  exits : ∀ code, p.ended = some (.exit code) → code ∈ p.state.runner.exits
  fresh : (∀ signal, deliveries signal tr = 0) → p.state.runner.started = false
  signals : Heard tr p ∨ ∃ signal, p.ended = some (.signal signal) ∧ 2 ≤ deliveries signal tr

theorem deliveries_concat (st : Step Process Event) : deliveries signal (tr ++ [st]) =
    deliveries signal tr + if st.label = .signal signal then 1 else 0 := by
  rw [deliveries, List.map_append, List.count_append, List.map_singleton, List.count_singleton]
  simp [deliveries]

theorem known_bootstrap : Known [] (bootstrap drain) where
  loop := by
    rw [bootstrap]
    split
    · exact RelayLoop.valid_new.next .start
    · exact RelayLoop.valid_new
  runner := Runner.valid_new
  exits := by simp [bootstrap]
  fresh _ := rfl
  signals := .inl ⟨fun signal => by cases signal <;> rfl, by simp [bootstrap]⟩

/-- An exit of the process is a call of `exit`. -/
theorem mem_exits {state : State} {code : ℕ} (ended : (p.enter state).ended = some (.exit code)) :
    code ∈ state.runner.exits := by
  obtain ⟨code', first, same⟩ := Option.map_eq_some_iff.1 ended
  cases same
  exact List.mem_of_mem_head? first

theorem enter_ended (state : State) : (p.enter state).ended ≠ some (.signal signal) := by
  intro ended
  obtain ⟨code, -, same⟩ := Option.map_eq_some_iff.1 ended
  cases same

theorem ne_of_internal {a : Label} (internal : a.internal = true) :
    a ≠ .invoke ∧ a ≠ .loop .start := by
  constructor <;> rintro rfl <;> cases internal

theorem deliveries_signal (p q : Process) (signal : Signal) :
    deliveries signal (tr ++ [⟨p, .signal signal, q⟩]) = deliveries signal tr + 1 := by
  rw [deliveries_concat, if_pos rfl]

/-- While the process lives, every delivery has been heard. -/
theorem Known.heard (known : Known tr p) (alive : ∀ signal, p.ended ≠ some (.signal signal)) :
    Heard tr p := by
  refine known.signals.resolve_right ?_
  rintro ⟨signal, ended, -⟩
  exact alive signal ended

theorem Known.next (known : Known tr p) (alive : p.ended = none) (moves : p.Moves drain e q) :
    Known (tr ++ [⟨p, e, q⟩]) q := by
  have heard := known.heard (by simp [alive])
  cases moves with
  | @heard signal listening =>
    have moves : p.state.Moves drain .invoke (p.state.invoke drain) := .invoke
    refine ⟨moves.loop_valid known.loop, ?_, fun _ => mem_exits, fun none => ?_,
      .inl ⟨fun other => ?_, fun _ => enter_ended _⟩⟩
    · rw [List.map_append]
      exact moves.runner_valid known.runner
    · have zero := none signal
      rw [deliveries_signal] at zero
      cases zero
    · have before := heard.listeners other
      have pos := List.count_pos_iff.2 listening
      rw [deliveries_concat, Process.enter, List.count_erase]
      by_cases same : signal = other
      · subst same
        simp only [if_true, beq_self_eq_true]
        omega
      · simpa [same] using before
  | @killed signal deaf =>
    refine ⟨known.loop, ?_, by simp, fun none => ?_, .inr ⟨signal, rfl, ?_⟩⟩
    · rw [List.map_append]
      exact known.runner.append (by simp [Event.label])
    · have zero := none signal
      rw [deliveries_signal] at zero
      cases zero
    · have before := heard.listeners signal
      rw [List.count_eq_zero.2 deaf, Nat.add_zero] at before
      rw [deliveries_signal]
      omega
  | @step a state internal moves =>
    have same : ∀ signal, deliveries signal (tr ++ [⟨p, .step a, p.enter state⟩]) =
        deliveries signal tr := by
      intro signal
      simp [deliveries_concat]
    refine ⟨moves.loop_valid known.loop, ?_, fun _ => mem_exits, fun none => ?_,
      .inl ⟨fun other => ?_, fun _ => enter_ended _⟩⟩
    · rw [List.map_append]
      exact moves.runner_valid known.runner
    · rw [Process.enter, moves.started (ne_of_internal internal).1]
      exact known.fresh fun signal => (same signal) ▸ none signal
    · rw [same]
      exact heard.listeners other

theorem known_of_run (run : (node drain).Run Any (bootstrap drain) tr p) : Known tr p := by
  refine run.trace_invariant (I := Known) (fun tr p e q known _ step => ?_) known_bootstrap
  obtain ⟨alive, moves⟩ := Process.Moves.of_next step
  exact known.next alive moves

/-- From the first signal on, in the relay process. -/
theorem draining_of_signals {call : ℕ} (run : (node .loopStop).Run Any p tr q)
    (h : Draining call p.state) :
    Draining call q.state ∧ q.state.loop.ticks.length = p.state.loop.ticks.length := by
  refine run.invariant (I := fun q => Draining call q.state ∧
    q.state.loop.ticks.length = p.state.loop.ticks.length) ?_ ⟨h, rfl⟩
  rintro p' e q' ⟨draining, ticks⟩ - step
  cases (Process.Moves.of_next step).2 with
  | heard =>
    have moves : p'.state.Moves .loopStop .invoke (p'.state.invoke .loopStop) := .invoke
    have length := (moves.stopping (by simp) draining.valid draining.stopping).2
    exact ⟨draining.next moves (by simp), length.trans ticks⟩
  | killed => exact ⟨draining, ticks⟩
  | step internal moves =>
    have quiet := (ne_of_internal internal).2
    have length := (moves.stopping quiet draining.valid draining.stopping).2
    exact ⟨draining.next moves quiet, length.trans ticks⟩

/-- The first signal finds its listener, and calls `loop.stop`. -/
theorem draining_of_first (known : Known tr p) (first : ∀ signal, deliveries signal tr = 0)
    (step : (node .loopStop).next p (.signal signal) = some q) :
    Draining p.state.loop.stops.length q.state ∧
      q.state.loop.ticks.length = p.state.loop.ticks.length := by
  obtain ⟨alive, moves⟩ : p.ended = none ∧ p.Moves .loopStop (.signal signal) q :=
    Process.Moves.of_next step
  have heard := (known.heard (by simp [alive])).listeners signal
  rw [first signal, Nat.zero_add] at heard
  have fresh := known.fresh first
  cases moves with
  | killed deaf =>
    rw [List.count_eq_zero.2 deaf] at heard
    cases heard
  | heard =>
    refine ⟨.invoke known.loop fresh, ?_⟩
    rw [Process.enter, State.loop_invoke fresh]
    rfl

/-- A process that has called `exit` has timed out, or has run to the end of its runner. -/
theorem Known.timedOut_or_returned (known : Known tr p) {code : ℕ}
    (ended : p.ended = some (.exit code)) :
    p.state.runner.timedOut = true ∨ p.state.runner.phase = .returned := by
  by_contra early
  rw [not_or, Bool.not_eq_true] at early
  have none := (known.runner.pending early.1 early.2).1
  have mem := known.exits code ended
  rw [none] at mem
  cases mem

/-- The watchdog fires by a step of its own. -/
theorem mem_watchdog (fired : .watchdog ∈ tr.map (·.label.label)) :
    .step .watchdog ∈ tr.map (·.label) := by
  obtain ⟨st, mem, label⟩ := List.mem_map.1 fired
  refine List.mem_map.2 ⟨st, mem, ?_⟩
  cases known : st.label with
  | signal => simp [known, Event.label] at label
  | step a =>
    rw [known] at label
    exact congrArg Event.step label

/-- The process ends gracefully exactly if no signal is delivered twice. -/
theorem signals_iff (run : (node drain).Run Any (bootstrap drain) tr p) :
    Graceful drain tr p ↔ ∀ signal, deliveries signal tr ≤ 1 := by
  have known := known_of_run run
  constructor
  · intro graceful signal
    have heard := known.heard fun signal ended => by
      obtain ⟨code, same⟩ := graceful.exit _ ended
      cases same
    exact Nat.le.intro (heard.listeners signal)
  · intro few
    have exits : ∀ e, p.ended = some e → ∃ code, e = .exit code := by
      intro e ended
      cases e with
      | exit code => exact ⟨code, rfl⟩
      | signal signal =>
        rcases known.signals with heard | ⟨twice, -, two⟩
        · exact absurd ended (heard.ended signal)
        · exact absurd (few twice) (Nat.not_le.2 two)
    refine ⟨exits, ?_⟩
    rintro rfl ended before st after signal tick rfl first label running
    obtain ⟨e, ended⟩ := Option.isSome_iff_exists.1 ended
    obtain ⟨code, rfl⟩ := exits e ended
    obtain ⟨pre, e, post⟩ := st
    obtain rfl : e = .signal signal := label
    have step := run.next_of_mem (List.mem_append_right _ List.mem_cons_self)
    obtain ⟨front, back⟩ := run.split
    obtain ⟨draining, sameLength⟩ := draining_of_first (known_of_run front) first step
    obtain ⟨draining, length⟩ := draining_of_signals back draining
    rcases known.timedOut_or_returned ended with late | returned
    · exact .inr (mem_watchdog (known.runner.timedOut.1 late))
    · have lt := running.lt
      rw [← sameLength, ← length] at lt
      refine .inl (RelayLoop.finished_of_not_unfinished lt (draining.not_unfinished ?_))
      simp [returned]

end

/-! ## One signal of each kind, and two of one kind -/

/-- Both signals come during a tick: the tick ends, and the process exits with 0. -/
theorem graceful_signals : ∃ tr p, (node .loopStop).Run Any (bootstrap .loopStop) tr p ∧
    p.ended = some (.exit 0) ∧ Graceful .loopStop tr p := by
  have computed : ((node .loopStop).exec (fun _ _ => true) (bootstrap .loopStop)
      [.step (.loop (.fire 0)), .signal .sigterm, .signal .sigint,
        .step (.loop (.settle 0 .resolved)), .step (.loop (.finish 0)), .step (.loop (.resume 0)),
        .step (.drained true), .step (.closed true)]).map (·.ended) = some (some (.exit 0)) := rfl
  obtain ⟨p, reached, ended⟩ := Option.map_eq_some_iff.1 computed
  obtain ⟨tr, run, labels⟩ := exists_run_of_exec (C := Any) (fun _ _ _ => trivial) reached
  refine ⟨tr, p, run, ended, (signals_iff run).2 fun signal => ?_⟩
  rw [deliveries, labels]
  cases signal <;> decide

/-- A second `SIGTERM` ends the process in the middle of the tick, before the watchdog fires. -/
theorem killed_by_second_signal : ∃ tr p, (node .loopStop).Run Any (bootstrap .loopStop) tr p ∧
    tr.map (·.label) = [.step (.loop (.fire 0)), .signal .sigterm, .signal .sigterm] ∧
    p.ended = some (.signal .sigterm) ∧ p.state.loop.InFlight 0 ∧
    p.state.runner.timedOut = false ∧ ¬ Graceful .loopStop tr p := by
  have computed : ((node .loopStop).exec (fun _ _ => true) (bootstrap .loopStop)
      [.step (.loop (.fire 0)), .signal .sigterm, .signal .sigterm]).map
      (fun p => (p.ended, p.state.loop.ticks, p.state.runner.timedOut)) =
      some (some (.signal .sigterm), [.running], false) := rfl
  obtain ⟨p, reached, last⟩ := Option.map_eq_some_iff.1 computed
  simp only [Prod.mk.injEq] at last
  obtain ⟨ended, ticks, inTime⟩ := last
  obtain ⟨tr, run, labels⟩ := exists_run_of_exec (C := Any) (fun _ _ _ => trivial) reached
  refine ⟨tr, p, run, labels, ended, congrArg (·[0]?) ticks, inTime, fun graceful => ?_⟩
  obtain ⟨code, exit⟩ := graceful.exit _ ended
  cases exit

end EstateServer.Workers
