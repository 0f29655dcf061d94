import Mathlib.Algebra.Order.Ring.Rat
import Mathlib.Data.Nat.Notation
import Mathlib.Data.Rat.Floor

/-!
# Retries outside a circuit breaker

A call acts on a world, which consists of a clock, a circuit, and an environment; a policy turns a
call into another one.  `IsRetry`, `IsBreaker` and `IsTimeout` say what is relied on of the three
policies.

* `IsRetry.circuit`: where every try fails, `n` retries outside a breaker whose threshold is `t`
  leave the circuit closed exactly if `n + 1` more failures stay below `t`.
* `retrying`, `consecutive` and `deadline` are such policies.
-/

namespace Resilience

variable {Env Error Value : Type}

/-- A circuit with no call in flight: closed, with the failures since the last success, or open. -/
inductive Circuit
  | closed (failures : ℕ)
  | opened (since : ℚ)
  deriving DecidableEq, Repr

structure World (Env : Type) where
  now : ℚ
  circuit : Circuit
  env : Env

/-- What a call answers, and the world after it. -/
abbrev Call (Env Error Value : Type) := World Env → Except Error Value × World Env

abbrev Policy (Env Error Value : Type) := Call Env Error Value → Call Env Error Value

/-- A call that acts on the environment when it begins, and is answered after a delay. -/
def request (act : Env → Except Error Value × ℚ × Env) : Call Env Error Value := fun w =>
  let (answer, delay, env) := act w.env
  (answer, { w with now := w.now + delay, env := env })

/-- The call does not touch the circuit. -/
def Isolated (call : Call Env Error Value) : Prop := ∀ w, (call w).2.circuit = w.circuit

/-- After one more failure. -/
def Circuit.count (threshold failures : ℕ) (now : ℚ) : Circuit :=
  if threshold ≤ failures + 1 then .opened now else .closed (failures + 1)

/-! ## What is relied on -/

/-- The tries of a call, of which all but the last fail with an error that is handled, with any
pause between two of them. -/
inductive Tries (handles : Error → Bool) (call : Call Env Error Value) :
    ℕ → World Env → Except Error Value × World Env → Prop
  | settled {n w} (last : ∀ e, (call w).1 = .error e → handles e → n = 0) :
      Tries handles call n w (call w)
  | again {n w e r} (pause : ℚ) (failed : (call w).1 = .error e) (handled : handles e)
      (rest : Tries handles call n { (call w).2 with now := (call w).2.now + pause } r) :
      Tries handles call (n + 1) w r

/-- Up to `maxAttempts` further tries. -/
def IsRetry (handles : Error → Bool) (maxAttempts : ℕ) (policy : Policy Env Error Value) : Prop :=
  ∀ call w, Tries handles call maxAttempts w (policy call w)

/-- A breaker that opens after `threshold` handled failures in a row. -/
structure IsBreaker (handles : Error → Bool) (threshold : ℕ) (halfOpenAfter : ℚ) (rejection : Error)
    (policy : Policy Env Error Value) : Prop where
  success : ∀ {call w failures v}, Isolated call → w.circuit = .closed failures →
    (call w).1 = .ok v → policy call w = (.ok v, { (call w).2 with circuit := .closed 0 })
  failure : ∀ {call w failures e}, Isolated call → w.circuit = .closed failures →
    (call w).1 = .error e → handles e →
    policy call w =
      (.error e, { (call w).2 with circuit := .count threshold failures (call w).2.now })
  ignore : ∀ {call w failures e}, w.circuit = .closed failures → (call w).1 = .error e →
    handles e = false → policy call w = call w
  reject : ∀ {call w since}, w.circuit = .opened since → w.now < since + halfOpenAfter →
    policy call w = (.error rejection, w)
  /-- Half open, the circuit lets one call through, and opens again when it fails. -/
  probe : ∀ {call w since e}, Isolated call → w.circuit = .opened since →
    since + halfOpenAfter ≤ w.now → (call w).1 = .error e → handles e →
    policy call w = (.error e, { (call w).2 with circuit := .opened (call w).2.now })

/-- A bound on the time that a call takes. -/
structure IsTimeout (ms : ℚ) (cancellation : Error) (policy : Policy Env Error Value) : Prop where
  inTime : ∀ {call w}, (call w).2.now < w.now + ms → policy call w = call w
  /-- A request that is cut has been sent. -/
  cut : ∀ (act : Env → Except Error Value × ℚ × Env) w, ms ≤ (act w.env).2.1 →
    policy (request act) w =
        (.error cancellation, { w with now := w.now + ms, env := (act w.env).2.2 }) ∨
      (act w.env).2.1 = ms ∧ policy (request act) w = request act w

/-- A closed circuit lets every call through. -/
theorem IsBreaker.env_eq {handles : Error → Bool} {threshold failures : ℕ} {halfOpenAfter : ℚ}
    {rejection : Error} {breaker : Policy Env Error Value} {call : Call Env Error Value}
    {w : World Env} (breaks : IsBreaker handles threshold halfOpenAfter rejection breaker)
    (isolated : Isolated call) (closed : w.circuit = .closed failures) :
    (breaker call w).2.env = (call w).2.env := by
  cases answered : (call w).1 with
  | ok v => rw [breaks.success isolated closed answered]
  | error e =>
    cases handled : handles e with
    | true => rw [breaks.failure isolated closed answered handled]
    | false => rw [breaks.ignore closed answered handled]

/-! ## Retries of a call that fails -/

section

variable {handles : Error → Bool} {threshold n failures : ℕ} {halfOpenAfter since : ℚ}
  {rejection : Error} {policy breaker : Policy Env Error Value} {call : Call Env Error Value}
  {w : World Env} {r : Except Error Value × World Env}

/-- The next `n` tries fail, wherever the clock and the circuit are. -/
structure Failing (handles : Error → Bool) (call : Call Env Error Value) (down : ℕ → Env → Prop) :
    Prop where
  isolated : Isolated call
  fails : ∀ {n w}, down (n + 1) w.env →
    ∃ e, (call w).1 = .error e ∧ handles e ∧ down n (call w).2.env

variable {down : ℕ → Env → Prop}
  (breaks : IsBreaker handles threshold halfOpenAfter rejection breaker)
  (unhandled : handles rejection = false) (failing : Failing handles call down)

include breaks unhandled failing

/-- An open circuit stays open. -/
theorem Tries.opened (tries : Tries handles (breaker call) n w r)
    (opened : w.circuit = .opened since) (bad : down (n + 1) w.env) :
    ∃ since, r.2.circuit = .opened since := by
  induction tries generalizing since with
  | @settled n w last =>
    by_cases early : w.now < since + halfOpenAfter
    · rw [breaks.reject opened early]
      exact ⟨since, opened⟩
    · obtain ⟨e, failed, handled, -⟩ := failing.fails bad
      rw [breaks.probe failing.isolated opened (not_lt.1 early) failed handled]
      exact ⟨_, rfl⟩
  | @again n w e r pause failed handled rest ih =>
    by_cases early : w.now < since + halfOpenAfter
    · rw [breaks.reject opened early] at failed
      cases failed
      rw [unhandled] at handled
      cases handled
    · obtain ⟨e, failed, handled, bad⟩ := failing.fails bad
      have probed := breaks.probe failing.isolated opened (not_lt.1 early) failed handled
      rw [probed] at ih
      exact ih rfl bad

/-- A closed circuit counts every try, until it opens. -/
theorem Tries.closed (tries : Tries handles (breaker call) n w r)
    (closed : w.circuit = .closed failures) (bad : down (n + 1) w.env) :
    (failures + n + 1 < threshold → r.2.circuit = .closed (failures + n + 1)) ∧
      (threshold ≤ failures + n + 1 → ∃ since, r.2.circuit = .opened since) := by
  induction tries generalizing failures with
  | @settled n w last =>
    obtain ⟨e, failed, handled, -⟩ := failing.fails bad
    have counted := breaks.failure failing.isolated closed failed handled
    obtain rfl : n = 0 := last e (by rw [counted]) handled
    rw [counted]
    refine ⟨fun below => ?_, fun above => ⟨_, if_pos above⟩⟩
    exact if_neg (not_le.2 below)
  | @again n w e r pause failed handled rest ih =>
    obtain ⟨e, failed, handled, bad⟩ := failing.fails bad
    have counted := breaks.failure failing.isolated closed failed handled
    rw [counted] at ih rest
    by_cases above : threshold ≤ failures + 1
    · obtain ⟨since, opened⟩ := rest.opened breaks unhandled failing (if_pos above) bad
      exact ⟨fun below => absurd above (by omega), fun _ => ⟨since, opened⟩⟩
    · have moved : failures + 1 + n + 1 = failures + (n + 1) + 1 := by omega
      rw [← moved]
      exact ih (if_neg above) bad

/-- Retries leave the circuit closed exactly if their failures stay below the threshold. -/
theorem IsRetry.circuit (retries : IsRetry handles n policy) (closed : w.circuit = .closed failures)
    (bad : down (n + 1) w.env) :
    (∃ failures, (policy (breaker call) w).2.circuit = .closed failures) ↔
      failures + n + 1 < threshold := by
  obtain ⟨stays, opens⟩ := (retries (breaker call) w).closed breaks unhandled failing closed bad
  constructor
  · rintro ⟨count, closed⟩
    by_contra above
    obtain ⟨since, opened⟩ := opens (not_lt.1 above)
    rw [opened] at closed
    cases closed
  · exact fun below => ⟨_, stays below⟩

end

/-! ## Policies -/

/-- Up to `n` further tries, with a fixed pause. -/
def retrying (handles : Error → Bool) (pause : ℚ) : ℕ → Policy Env Error Value
  | 0, call, w => call w
  | n + 1, call, w =>
    match call w with
    | (.ok v, w) => (.ok v, w)
    | (.error e, w) =>
      if handles e then retrying handles pause n call { w with now := w.now + pause }
      else (.error e, w)

/-- A breaker that opens after `threshold` handled failures in a row. -/
def consecutive (handles : Error → Bool) (threshold : ℕ) (halfOpenAfter : ℚ) (rejection : Error) :
    Policy Env Error Value := fun call w =>
  match w.circuit with
  | .closed failures =>
    match call w with
    | (.ok v, w) => (.ok v, { w with circuit := .closed 0 })
    | (.error e, w) =>
      if handles e then (.error e, { w with circuit := .count threshold failures w.now })
      else (.error e, w)
  | .opened since =>
    if w.now < since + halfOpenAfter then (.error rejection, w)
    else
      match call w with
      | (.ok v, w) => (.ok v, { w with circuit := .closed 0 })
      | (.error e, w) =>
        (.error e, { w with circuit := if handles e then .opened w.now else .closed threshold })

/-- A call that takes `ms` or longer is cut. -/
def deadline (ms : ℚ) (cancellation : Error) : Policy Env Error Value := fun call w =>
  let (answer, after) := call w
  if after.now < w.now + ms then (answer, after)
  else (.error cancellation, { after with now := w.now + ms })

theorem isRetry_retrying (handles : Error → Bool) (pause : ℚ) (n : ℕ) :
    IsRetry handles n (retrying handles pause n : Policy Env Error Value) := by
  intro call w
  induction n generalizing w with
  | zero => exact .settled fun _ _ _ => rfl
  | succ n ih =>
    rcases answered : call w with ⟨answer, after⟩
    cases answer with
    | ok v =>
      have same : retrying handles pause (n + 1) call w = call w := by
        simp only [retrying, answered]
      rw [same]
      exact .settled fun e failed => by rw [answered] at failed; cases failed
    | error e =>
      by_cases handled : handles e = true
      · have next : retrying handles pause (n + 1) call w =
            retrying handles pause n call { after with now := after.now + pause } := by
          simp only [retrying, answered, if_pos handled]
        rw [next]
        refine .again pause (by rw [answered]) handled ?_
        rw [answered]
        exact ih _
      · have same : retrying handles pause (n + 1) call w = call w := by
          simp only [retrying, answered, if_neg handled]
        rw [same]
        refine .settled fun e' failed handled' => absurd handled' ?_
        rw [answered] at failed
        cases failed
        exact handled

theorem isBreaker_consecutive (handles : Error → Bool) (threshold : ℕ) (halfOpenAfter : ℚ)
    (rejection : Error) : IsBreaker handles threshold halfOpenAfter rejection
      (consecutive handles threshold halfOpenAfter rejection : Policy Env Error Value) where
  success {call w _ v} _ closed ok := by
    rcases answered : call w with ⟨answer, after⟩
    rw [answered] at ok
    cases ok
    simp only [consecutive, closed, answered]
  failure {call w _ e} _ closed failed handled := by
    rcases answered : call w with ⟨answer, after⟩
    rw [answered] at failed
    cases failed
    simp only [consecutive, closed, answered, if_pos handled]
  ignore {call w _ e} closed failed unhandled := by
    rcases answered : call w with ⟨answer, after⟩
    rw [answered] at failed
    cases failed
    simp [consecutive, closed, answered, unhandled]
  reject opened early := by simp only [consecutive, opened, if_pos early]
  probe {call w _ e} _ opened late failed handled := by
    rcases answered : call w with ⟨answer, after⟩
    rw [answered] at failed
    cases failed
    simp only [consecutive, opened, if_neg (not_lt.2 late), answered, if_pos handled]

theorem isTimeout_deadline (ms : ℚ) (cancellation : Error) :
    IsTimeout ms cancellation (deadline ms cancellation : Policy Env Error Value) where
  inTime early := by simp only [deadline, if_pos early]
  cut act w late := by
    refine .inl ?_
    have le : ¬ (w.now + (act w.env).2.1 < w.now + ms) := by
      rw [add_lt_add_iff_left]
      exact not_lt.2 late
    simp only [deadline, request]
    exact if_neg le

end Resilience
