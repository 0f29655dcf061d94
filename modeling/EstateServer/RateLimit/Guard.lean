import EstateServer.Library.Expiring
import EstateServer.Library.Machine
import EstateServer.Number
import Mathlib.Logic.Function.Basic

/-!
# The rate limit guard

`canActivate` lets a request through, or counts it under its IP and then under its user, and refuses
it when a count is above the maximum of the route.  Any number of app instances run it at the same time
on one Redis: each count is one run of the Lua script, and counts of different requests interleave.

Clocks count milliseconds and quotients are exact.
-/

namespace EstateServer.RateLimit

open Machine

/-- `RateLimitOptions`: what `@RateLimit` overrides on a route. -/
structure RateLimitOptions where
  userMax : Option ℚ
  ipMax : Option ℚ
  windowSec : Option ℚ
  deriving DecidableEq, Repr

def defaultWindowSec : ℚ := 60
def defaultUserMax : ℚ := 60
def defaultIpMax : ℚ := 120

/-- `RateLimitError.EXCEEDED`. -/
def exceeded : AppErrorSpec := ⟨"RATE_LIMIT_EXCEEDED", 429, "요청이 너무 많습니다. 잠시 후 다시 시도해 주세요."⟩

def writeMethods : List String := ["POST", "PATCH", "PUT", "DELETE"]

/-- A handler with its metadata. -/
structure Route where
  handler : String
  skip : Bool
  options : Option RateLimitOptions
  deriving DecidableEq, Repr

structure Request where
  route : Route
  method : String
  ip : Option String
  authorization : Option String
  deriving DecidableEq, Repr

/-- The environment variables, and what `JwtService.verify` makes of a token: nothing, or the `sub` of its
payload, if there is one. -/
structure Env where
  rateLimitWindowSec : Option String
  rateLimitUserMax : Option String
  rateLimitIpMax : Option String
  verify : String → Option (Option String)

/-- `intConfig`: the number of an environment variable, or the fallback. -/
def intConfig (value : Option String) (fallback : ℚ) : ℚ :=
  match Js.Number.ofOptional value with
  | .finite v => if 0 < v then v else fallback
  | _ => fallback

namespace Env

variable (env : Env) (route : Route)

def windowSec : ℚ :=
  (route.options.bind (·.windowSec)).getD (intConfig env.rateLimitWindowSec defaultWindowSec)

def userMax : ℚ :=
  (route.options.bind (·.userMax)).getD (intConfig env.rateLimitUserMax defaultUserMax)

def ipMax : ℚ :=
  (route.options.bind (·.ipMax)).getD (intConfig env.rateLimitIpMax defaultIpMax)

/-- `extractUserId`: the user of the token, if it is valid. -/
def extractUserId (request : Request) : Option String :=
  match request.authorization with
  | some auth =>
    if "Bearer ".toList.isPrefixOf auth.toList then
      (env.verify (String.ofList (auth.toList.drop 7))).join
    else none
  | none => none

end Env

/-- The guard does not let the request through at once. -/
def Request.limited (request : Request) : Bool :=
  !request.route.skip && (request.route.options.isSome || request.method ∈ writeMethods)

def windowStart (now : Instant) (windowSec : ℚ) : ℤ := ((now : ℚ) / 1000 / windowSec).floor

def retryAfter (now : Instant) (windowSec : ℚ) : ℚ :=
  windowSec - Js.rem ((now : ℚ) / 1000).floor windowSec

inductive Scope
  | user
  | ip
  deriving DecidableEq, Repr

def Scope.text : Scope → String
  | user => "user"
  | ip => "ip"

def rateLimitKey (scope : Scope) (id : String) (windowStart : ℤ) : String :=
  s!"ratelimit:{scope.text}:{id}:{windowStart}"

/-- A key to count, and the greatest count that passes. -/
structure Check where
  key : String
  max : ℚ
  deriving DecidableEq, Repr

/-- The checks of a limited request. -/
def checks (env : Env) (request : Request) (now : Instant) : List Check :=
  let start := windowStart now (env.windowSec request.route)
  let ip := request.ip.getD "unknown"
  let checks := [{ key := rateLimitKey .ip ip start, max := env.ipMax request.route }]
  match Js.truthy (env.extractUserId request) with
  | some userId =>
    checks ++ [{ key := rateLimitKey .user userId start, max := env.userMax request.route }]
  | none => checks

/-! ## The store -/

/-- The argument that `EXPIRE` takes: an integer that fits in 64 bits in milliseconds, as does the
deadline. -/
def ExpireAccepts (seconds : ℚ) (now : Instant) : Prop :=
  seconds.den = 1 ∧ -9223372036854775 ≤ seconds ∧ seconds ≤ 9223372036854775 ∧
    now + 1000 * seconds ≤ 2 ^ 63 - 1

instance (seconds : ℚ) (now : Instant) : Decidable (ExpireAccepts seconds now) :=
  inferInstanceAs (Decidable (_ ∧ _ ∧ _ ∧ _))

/-- `EXPIRE`, or an error; a key is deleted at once by a deadline that is not in the future. -/
def expire (seconds : ℚ) (now : Instant) (key : Expiring.Key ℕ) : Option (Expiring.Key ℕ) :=
  if ExpireAccepts seconds now then
    some (if seconds ≤ 0 then none else Expiring.expire (1000 * seconds.num.toNat) now key)
  else none

/-- `FIXED_WINDOW_LUA` on its key: the key afterwards, and the count, or an error.  An error undoes
nothing. -/
def hit (windowSec : ℚ) (now : Instant) (key : Expiring.Key ℕ) : Expiring.Key ℕ × Option ℕ :=
  let c := (Expiring.read now key).getD 0 + 1
  let counted := Expiring.update (fun _ => c) now key
  if c = 1 then
    match expire windowSec now counted with
    | some key => (key, some c)
    | none => (counted, none)
  else (counted, some c)

/-! ## Requests that run at the same time -/

inductive Outcome
  | admitted
  /-- `RateLimitError.EXCEEDED`, with the header `Retry-After`. -/
  | refused (retryAfter : ℚ)
  /-- An exception of Redis. -/
  | failed
  deriving DecidableEq, Repr

/-- A request that the guard has taken up: when, how many checks it has passed, and how it ended. -/
structure Call where
  request : Request
  now : Instant
  passed : ℕ
  outcome : Option Outcome
  deriving DecidableEq, Repr

structure State where
  clock : Instant
  counters : String → Expiring.Key ℕ
  calls : List Call

inductive Label
  | advance (d : ℕ)
  | arrive (request : Request)
  /-- The next check of a call. -/
  | hit (n : ℕ)
  /-- Redis does not answer. -/
  | fail (n : ℕ)

variable (env : Env)

/-- `canActivate` up to the first check. -/
def Request.call (request : Request) (now : Instant) : Call :=
  { request, now, passed := 0, outcome := if request.limited then none else some .admitted }

/-- The check that a call makes next. -/
def Call.next (call : Call) : Option Check :=
  if call.outcome = none then (checks env call.request call.now)[call.passed]? else none

/-- The call after the count for a check has come back. -/
def Call.counted (call : Call) (check : Check) (now : Instant) : Option ℕ → Call
  | none => { call with outcome := some .failed }
  | some count =>
    if check.max < count then
      { call with outcome := some (.refused (retryAfter now (env.windowSec call.request.route))) }
    else
      { call with
        passed := call.passed + 1
        outcome :=
          if call.passed + 1 = (checks env call.request call.now).length then some .admitted else none }

/-- The state after a step. -/
def next (s : State) : Label → Option State
  | .advance d => some { s with clock := s.clock + d }
  | .arrive request => some { s with calls := s.calls ++ [request.call s.clock] }
  | .hit n => do
    let call ← s.calls[n]?
    let check ← call.next env
    let (key, count) := hit (env.windowSec call.request.route) s.clock (s.counters check.key)
    some { s with
      counters := Function.update s.counters check.key key
      calls := s.calls.set n (call.counted env check s.clock count) }
  | .fail n => do
    let call ← s.calls[n]?
    let _ ← call.next env
    some { s with calls := s.calls.set n { call with outcome := some .failed } }

/-- Requests to the app instances, from an empty Redis. -/
def guarding : Machine State Label where
  start s := s.counters = (fun _ => none) ∧ s.calls = []
  next := next env

end EstateServer.RateLimit
