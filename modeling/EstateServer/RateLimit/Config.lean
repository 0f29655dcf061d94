import EstateServer.RateLimit.Guard
import Mathlib.Data.Rat.Floor
import Mathlib.Tactic.Linarith
import Mathlib.Tactic.Positivity

/-!
# The configuration of the rate limit

`intConfig` takes any number that is finite and positive: it does not ask for an integer, and it
knows no upper bound.  The window is the divisor of the clock, the modulus of the header and the
argument of `EXPIRE`, which takes an integer that fits in 64 bits together with the clock.

`config_iff`: the guard counts, and says when to come back, exactly where every configured number
is an integer and the window fits.  A window of 1.5 seconds is no integer (`config_fraction`).
-/

namespace EstateServer.RateLimit

/-! ## The statement -/

/-- A positive integer. -/
def Whole (v : ℚ) : Prop := v.den = 1 ∧ 0 < v

instance (v : ℚ) : Decidable (Whole v) := inferInstanceAs (Decidable (_ ∧ _))

/-- What the guard makes of its configuration on a route, at a time. -/
structure Configured (env : Env) (route : Route) (now : Instant) : Prop where
  window : Whole (env.windowSec route)
  user : Whole (env.userMax route)
  ip : Whole (env.ipMax route)
  /-- The script does not fail. -/
  counts : ∀ key, (hit (env.windowSec route) now key).2.isSome
  /-- A refused request that comes back after `Retry-After` seconds is counted in another window. -/
  refused : ∀ (call : Call) check count retryAfter, call.request.route = route → call.now ≤ now →
    (call.counted env check now (some count)).outcome = some (.refused retryAfter) →
    retryAfter.den = 1 ∧ 1 ≤ retryAfter ∧ retryAfter ≤ env.windowSec route ∧
      ∀ later : Instant, now + 1000 * retryAfter ≤ later →
        windowStart later (env.windowSec route) ≠ windowStart call.now (env.windowSec route)

/-- The number that is configured, if there is one: on the route, or by a string whose number
is finite and positive. -/
def configured (override : Option ℚ) (value : Option String) : Option ℚ :=
  match override with
  | some v => some v
  | none =>
    match Js.Number.ofOptional value with
    | .finite v => if 0 < v then some v else none
    | _ => none

/-- The window in seconds, configured or not. -/
def configuredWindow (env : Env) (route : Route) : ℚ :=
  (configured (route.options.bind (·.windowSec)) env.rateLimitWindowSec).getD defaultWindowSec

/-- Every configured number is a positive integer, and a window that begins now ends within 64 bits of
milliseconds. -/
structure Sensible (env : Env) (route : Route) (now : Instant) : Prop where
  window : ∀ v ∈ configured (route.options.bind (·.windowSec)) env.rateLimitWindowSec, Whole v
  user : ∀ v ∈ configured (route.options.bind (·.userMax)) env.rateLimitUserMax, Whole v
  ip : ∀ v ∈ configured (route.options.bind (·.ipMax)) env.rateLimitIpMax, Whole v
  short : configuredWindow env route ≤ 9223372036854775
  ends : now + 1000 * configuredWindow env route ≤ 9223372036854775807

/-! ## The effective values -/

variable {env : Env} {route : Route} {now later : Instant} {W : ℚ} {v fallback : ℚ}
  {override : Option ℚ} {value : Option String}

theorem intConfig_eq : intConfig value fallback = (configured none value).getD fallback := by
  cases number : Js.Number.ofOptional value with
  | finite v => by_cases pos : 0 < v <;> simp [intConfig, configured, number, pos]
  | _ => simp [intConfig, configured, number]

theorem getD_configured :
    override.getD (intConfig value fallback) = (configured override value).getD fallback := by
  cases override with
  | some => rfl
  | none => exact intConfig_eq

/-- The fallbacks are positive integers. -/
theorem whole_getD (h : ∀ v ∈ configured override value, Whole v) (default : Whole fallback) :
    Whole ((configured override value).getD fallback) := by
  cases known : configured override value with
  | none => exact default
  | some v => exact h v known

theorem whole_of_mem (h : Whole ((configured override value).getD fallback))
    (known : v ∈ configured override value) : Whole v := by
  rwa [Option.mem_def.1 known] at h

/-! ## Windows of whole seconds -/

theorem floor_div (m n : ℕ) : ((m : ℚ) / n).floor = (m / n : ℕ) :=
  Rat.floor_intCast_div_natCast (m : ℤ) n

/-- The whole seconds of the clock. -/
theorem floor_seconds (now : Instant) : ((now : ℚ) / 1000).floor = (now / 1000 : ℕ) := by
  rw [← Nat.cast_ofNat (n := 1000)]
  exact floor_div now 1000

theorem rem_natCast (m n : ℕ) : Js.rem m n = (m % n : ℕ) := by
  have nonneg : (0 : ℚ) ≤ (m : ℚ) / n := by positivity
  have split : (m : ℚ) = n * (m / n : ℕ) + (m % n : ℕ) := by
    exact_mod_cast (Nat.div_add_mod m n).symm
  simp only [Js.rem, if_pos nonneg, floor_div, Int.cast_natCast]
  linarith

/-- The header, for a window of a whole number of seconds. -/
theorem retryAfter_natCast {w : ℕ} (pos : 0 < w) (now : Instant) :
    retryAfter now w = (w - now / 1000 % w : ℕ) := by
  have le : now / 1000 % w ≤ w := Nat.le_of_lt (Nat.mod_lt _ pos)
  rw [retryAfter, floor_seconds, Int.cast_natCast, rem_natCast, Nat.cast_sub le]

theorem windowStart_natCast (now : Instant) (w : ℕ) : windowStart now w = (now / 1000 / w : ℕ) := by
  have quotient : (now : ℚ) / 1000 / w = (now : ℚ) / (1000 * w : ℕ) := by
    rw [div_div]
    norm_num
  rw [windowStart, quotient, floor_div, Nat.div_div_eq_div_mul]

/-- After the seconds of the header another window has begun. -/
theorem windowStart_lt {w arrived now later : ℕ} (pos : 0 < w) (le : arrived ≤ now)
    (waited : (now : ℚ) + 1000 * retryAfter now w ≤ later) :
    windowStart arrived w < windowStart later w := by
  rw [retryAfter_natCast pos] at waited
  rw [windowStart_natCast, windowStart_natCast]
  have waited : now + 1000 * (w - now / 1000 % w) ≤ later := by exact_mod_cast waited
  have before : arrived / 1000 / w ≤ now / 1000 / w :=
    Nat.div_le_div_right (Nat.div_le_div_right le)
  have next : w * (now / 1000 / w) + w ≤ later / 1000 := by
    have split := Nat.div_add_mod (now / 1000) w
    have small := Nat.mod_lt (now / 1000) pos
    generalize w * (now / 1000 / w) = begun at split ⊢
    generalize now / 1000 % w = rest at split small waited
    omega
  have after : now / 1000 / w + 1 ≤ later / 1000 / w := by
    rw [Nat.le_div_iff_mul_le pos]
    linarith
  exact_mod_cast Nat.lt_of_le_of_lt before after

/-! ## What the guard does with a whole window -/

theorem Whole.exists_natCast (whole : Whole W) : ∃ w : ℕ, 0 < w ∧ W = w := by
  obtain ⟨w, rfl⟩ := Js.exists_natCast whole.1 whole.2.le
  exact ⟨w, by exact_mod_cast whole.2, rfl⟩

theorem hit_isSome (accepts : ExpireAccepts W now) (key : Expiring.Key ℕ) :
    (hit W now key).2.isSome := by
  simp only [hit, expire, if_pos accepts]
  split <;> rfl

/-- The first hit on a key sets its deadline. -/
theorem accepts_of_hit_none (counts : (hit W now none).2.isSome) : ExpireAccepts W now := by
  by_contra refused
  have first : (hit W now none).2 = none := by
    simp [hit, expire, refused, Expiring.read, Expiring.live]
  rw [first] at counts
  cases counts

theorem eq_of_refused {call : Call} {check : Check} {count : ℕ} {seconds : ℚ}
    (refused : (call.counted env check now (some count)).outcome = some (.refused seconds)) :
    seconds = retryAfter now (env.windowSec call.request.route) := by
  simp only [Call.counted] at refused
  split_ifs at refused
  · exact (Outcome.refused.inj (Option.some.inj refused)).symm
  all_goals simp at refused

theorem Sensible.configured (sensible : Sensible env route now) : Configured env route now := by
  have window : Whole (env.windowSec route) := by
    rw [Env.windowSec, getD_configured]
    exact whole_getD sensible.window (by decide)
  have same : env.windowSec route = configuredWindow env route := getD_configured
  have accepts : ExpireAccepts (env.windowSec route) now := by
    refine ⟨window.1, le_trans (by norm_num) window.2.le, same ▸ sensible.short, ?_⟩
    rw [same]
    linarith [sensible.ends]
  refine ⟨window, ?_, ?_, hit_isSome accepts, ?_⟩
  · rw [Env.userMax, getD_configured]
    exact whole_getD sensible.user (by decide)
  · rw [Env.ipMax, getD_configured]
    exact whole_getD sensible.ip (by decide)
  · rintro call check count seconds rfl arrived refused
    rw [eq_of_refused refused]
    obtain ⟨w, pos, whole⟩ := window.exists_natCast
    rw [whole, retryAfter_natCast pos]
    have small : now / 1000 % w < w := Nat.mod_lt _ pos
    refine ⟨rfl, ?_, ?_, fun later waited => ?_⟩
    · exact_mod_cast Nat.sub_pos_of_lt small
    · exact_mod_cast Nat.sub_le ..
    · rw [← retryAfter_natCast pos] at waited
      exact (windowStart_lt pos arrived waited).ne'

theorem Configured.sensible (h : Configured env route now) : Sensible env route now := by
  have window := h.window
  have user := h.user
  have ip := h.ip
  have same : env.windowSec route = configuredWindow env route := getD_configured
  obtain ⟨-, -, short, ends⟩ := accepts_of_hit_none (h.counts none)
  rw [same] at short ends
  rw [Env.windowSec, getD_configured] at window
  rw [Env.userMax, getD_configured] at user
  rw [Env.ipMax, getD_configured] at ip
  exact ⟨fun _ => whole_of_mem window, fun _ => whole_of_mem user, fun _ => whole_of_mem ip, short,
    by linarith⟩

/-- The configuration works exactly where it is made of whole numbers and of a window that is not too
long. -/
theorem config_iff (env : Env) (route : Route) (now : Instant) :
    Sensible env route now ↔ Configured env route now :=
  ⟨Sensible.configured, Configured.sensible⟩

/-! ## A window of 1.5 seconds -/

def fractional : Env where
  rateLimitWindowSec := some "1.5"
  rateLimitUserMax := none
  rateLimitIpMax := none
  verify _ := none

/-- A route without limits of its own. -/
def createPost : Route := { handler := "createPost", skip := false, options := none }

/-- The first request of every window fails, and the guard with it. -/
theorem config_fraction : fractional.windowSec createPost = 3 / 2 ∧
    (hit (fractional.windowSec createPost) 0 none).2 = none ∧
    ¬ Configured fractional createPost 0 := by
  have window : fractional.windowSec createPost = 3 / 2 := by decide +kernel
  have failed : (hit (fractional.windowSec createPost) 0 none).2 = none := by
    rw [window]
    decide +kernel
  refine ⟨window, failed, fun configured => ?_⟩
  have counts := configured.counts none
  rw [failed] at counts
  cases counts

end EstateServer.RateLimit
