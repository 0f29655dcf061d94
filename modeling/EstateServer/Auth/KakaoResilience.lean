import EstateServer.Library.Resilience
import EstateServer.Number
import Mathlib.Tactic.Linarith

/-!
# The resilience of the Kakao login

A login exchanges its code for a token and then asks for the profile.  Both requests go through one
circuit breaker; the profile is asked for again while it fails transiently, each try being counted.
`validateResilienceConfig` warns of a threshold below `retryMaxAttempts + 1`, but the breaker opens
when the count reaches the threshold.

`login_iff`: a login whose profile requests all fail leaves the circuit closed exactly if the
threshold is above `retryMaxAttempts + 1`.  One that is equal is not warned about
(`threshold_reached`).

The policies are those of a library, of which `Cockatiel.Lawful` says what is relied on.
-/

namespace EstateServer.Auth.KakaoResilience

open Resilience

/-! ## Errors -/

structure KakaoApiError where
  label : String
  status : ℕ
  deriving DecidableEq, Repr

def KakaoApiError.message (err : KakaoApiError) : String := s!"카카오 {err.label} 실패: {err.status}"

def KakaoApiError.transient (err : KakaoApiError) : Bool := err.status = 429 || err.status ≥ 500

/-- `AuthError.KAKAO_UNAVAILABLE`. -/
def kakaoUnavailable : AppErrorSpec :=
  ⟨"AUTH_KAKAO_UNAVAILABLE", 503,
    "카카오 로그인이 일시적으로 원활하지 않습니다. 잠시 후 다시 시도해주세요."⟩

/-- What a login may throw. -/
inductive Thrown
  | taskCancelled
  | brokenCircuit
  | bulkheadRejected
  | typeError
  | api (err : KakaoApiError)
  | app (spec : AppErrorSpec)
  | error (message : String)
  deriving DecidableEq, Repr

def transientOnly : Thrown → Bool
  | .taskCancelled => true
  | .typeError => true
  | .api err => err.transient
  | _ => false

def mapFailure : Thrown → Thrown
  | .api err => if err.transient then .app kakaoUnavailable else .api err
  | .brokenCircuit => .app kakaoUnavailable
  | .bulkheadRejected => .app kakaoUnavailable
  | .taskCancelled => .app kakaoUnavailable
  | .typeError => .app kakaoUnavailable
  | err => err

/-! ## Configuration -/

inductive ConfigKey
  | kakaoClientId
  | kakaoClientSecret
  | kakaoTimeoutMs
  | kakaoRetryMaxAttempts
  | kakaoBreakerThreshold
  | kakaoBreakerHalfOpenMs
  | kakaoBulkheadConcurrent
  | kakaoBulkheadQueue
  | kakaoTotalTimeoutMs
  deriving DecidableEq, Repr

def ConfigKey.text : ConfigKey → String
  | kakaoClientId => "KAKAO_CLIENT_ID"
  | kakaoClientSecret => "KAKAO_CLIENT_SECRET"
  | kakaoTimeoutMs => "KAKAO_TIMEOUT_MS"
  | kakaoRetryMaxAttempts => "KAKAO_RETRY_MAX_ATTEMPTS"
  | kakaoBreakerThreshold => "KAKAO_BREAKER_THRESHOLD"
  | kakaoBreakerHalfOpenMs => "KAKAO_BREAKER_HALF_OPEN_MS"
  | kakaoBulkheadConcurrent => "KAKAO_BULKHEAD_CONCURRENT"
  | kakaoBulkheadQueue => "KAKAO_BULKHEAD_QUEUE"
  | kakaoTotalTimeoutMs => "KAKAO_TOTAL_TIMEOUT_MS"

/-- `ConfigService`: the environment variables. -/
abbrev Config := ConfigKey → Option String

def parseEnvNumber (raw : Option String) (fallback : Js.Number) : Js.Number :=
  match raw with
  | none => fallback
  | some raw =>
    if Js.trim raw = "" then fallback
    else if (Js.Number.ofString raw).isFinite then Js.Number.ofString raw else fallback

structure ResilienceConfig where
  timeoutMs : Js.Number
  retryMaxAttempts : Js.Number
  breakerThreshold : Js.Number
  breakerHalfOpenMs : Js.Number
  bulkheadConcurrent : Js.Number
  bulkheadQueue : Js.Number
  totalTimeoutMs : Js.Number
  deriving DecidableEq, Repr

/-- `DEFAULTS`. -/
def defaults : ResilienceConfig where
  timeoutMs := .finite 3000
  retryMaxAttempts := .finite 3
  breakerThreshold := .finite 5
  breakerHalfOpenMs := .finite 10000
  bulkheadConcurrent := .finite 10
  bulkheadQueue := .finite 20
  totalTimeoutMs := .finite 8000

/-- The configuration of the environment. -/
def ResilienceConfig.ofEnv (config : Config) : ResilienceConfig where
  timeoutMs := parseEnvNumber (config .kakaoTimeoutMs) defaults.timeoutMs
  retryMaxAttempts := parseEnvNumber (config .kakaoRetryMaxAttempts) defaults.retryMaxAttempts
  breakerThreshold := parseEnvNumber (config .kakaoBreakerThreshold) defaults.breakerThreshold
  breakerHalfOpenMs := parseEnvNumber (config .kakaoBreakerHalfOpenMs) defaults.breakerHalfOpenMs
  bulkheadConcurrent := parseEnvNumber (config .kakaoBulkheadConcurrent) defaults.bulkheadConcurrent
  bulkheadQueue := parseEnvNumber (config .kakaoBulkheadQueue) defaults.bulkheadQueue
  totalTimeoutMs := parseEnvNumber (config .kakaoTotalTimeoutMs) defaults.totalTimeoutMs

/-- The errors of a number that must be finite and at least `min`. -/
def requireMin (label : String) (value min : Js.Number) : List String :=
  if !value.isFinite || value.lt min then [s!"{label}={value.text}(>= {min.text} 이어야 함)"] else []

/-- The errors of an integer that must be at least `min`. -/
def requireIntMin (label : String) (value min : Js.Number) : List String :=
  if !value.isInteger || value.lt min then [s!"{label}={value.text}(>= {min.text} 정수여야 함)"]
  else []

namespace ResilienceConfig

variable (name : String) (cfg : ResilienceConfig)

def errors : List String :=
  requireMin "timeoutMs" cfg.timeoutMs (.finite 1) ++
    requireIntMin "retryMaxAttempts" cfg.retryMaxAttempts (.finite 0) ++
    requireIntMin "breakerThreshold" cfg.breakerThreshold (.finite 1) ++
    requireMin "breakerHalfOpenMs" cfg.breakerHalfOpenMs (.finite 1) ++
    requireIntMin "bulkheadConcurrent" cfg.bulkheadConcurrent (.finite 1) ++
    requireIntMin "bulkheadQueue" cfg.bulkheadQueue (.finite 0) ++
    requireMin "totalTimeoutMs" cfg.totalTimeoutMs (.finite 1)

def multiplier : Js.Number := cfg.retryMaxAttempts.add (.finite 1)

/-- The warning about `breakerThreshold`. -/
def thresholdWarning : String :=
  s!"[{name}] breakerThreshold({cfg.breakerThreshold.text}) < " ++
    s!"retryMaxAttempts+1({cfg.multiplier.text}) — " ++
    "재시도가 브레이커 카운트를 배수로 소모해 로그인 1회 실패로 회로가 열릴 수 있습니다. " ++
    "breakerThreshold를 (재시도 횟수 + 1) 이상으로 두는 것을 권장합니다."

/-- The warning about `totalTimeoutMs`. -/
def budgetWarning : String :=
  s!"[{name}] totalTimeoutMs({cfg.totalTimeoutMs.text}) < timeoutMs({cfg.timeoutMs.text}) — " ++
    "총 예산이 시도당 타임아웃보다 작아 첫 시도도 완료하지 못하고 잘릴 수 있습니다. " ++
    "totalTimeoutMs를 시도당 타임아웃 이상으로 두는 것을 권장합니다."

def warnings : List String :=
  (if cfg.breakerThreshold.lt cfg.multiplier then [cfg.thresholdWarning name] else []) ++
    (if cfg.totalTimeoutMs.lt cfg.timeoutMs then [cfg.budgetWarning name] else [])

end ResilienceConfig

/-- Throws, or returns the warnings. -/
def validateResilienceConfig (name : String) (cfg : ResilienceConfig) :
    Except String (List String) :=
  let errors := ", ".intercalate cfg.errors
  if cfg.errors ≠ [] then .error s!"[{name}] 회복탄력성 설정이 유효하지 않습니다: {errors}"
  else .ok (cfg.warnings name)

/-! ## Kakao -/

structure Request where
  method : String
  url : String
  headers : List (String × String)
  body : Option (List (String × String))
  deriving DecidableEq, Repr

/-- The fields of a JSON body that a login reads. -/
structure Body where
  accessToken : Option String
  id : Option ℕ
  email : Option String
  nickname : Option String
  deriving DecidableEq, Repr

/-- What `fetch` gives: an error of the network, or a response, whose body may not be JSON. -/
inductive Response
  | failed
  | received (status : ℕ) (body : Option Body)
  deriving DecidableEq, Repr

/-- A response and the time that it takes; one that takes longer than the timeout may as well never
come. -/
structure Answer where
  delay : ℚ
  response : Response

/-- What Kakao answers to each request, in the order in which they are sent. -/
structure Network where
  answers : ℕ → Answer
  sent : List Request

/-- The answer to the next request. -/
def Network.next (network : Network) : Answer := network.answers network.sent.length

abbrev KakaoWorld := World Network
abbrev KakaoCall (Value : Type) := Resilience.Call Network Thrown Value
abbrev IPolicy := Policy Network Thrown Body

/-- What is made of a response, inside the policies. -/
def respond (label : String) : Response → Except Thrown Body
  | .failed => .error .typeError
  | .received status body =>
    if status < 200 ∨ 300 ≤ status then .error (.api ⟨label, status⟩)
    else match body with
      | none => .error (.error "SyntaxError")
      | some body => .ok body

/-- Send a request, and read its response. -/
def send (label : String) (request : Request) (network : Network) :
    Except Thrown Body × ℚ × Network :=
  (respond label network.next.response, network.next.delay,
    { network with sent := network.sent ++ [request] })

/-! ## Policies -/

/-- `cockatiel`: the policies that the constructor takes from it. -/
structure Cockatiel where
  wrap : List IPolicy → IPolicy
  timeout : Js.Number → IPolicy
  bulkhead : (limit queue : Js.Number) → IPolicy
  circuitBreaker : (Thrown → Bool) → (halfOpenAfter threshold : Js.Number) → IPolicy
  retry : (Thrown → Bool) → (maxAttempts : Js.Number) → IPolicy

/-- The behaviour that is relied on, for a login that runs alone. -/
structure Cockatiel.Lawful (cockatiel : Cockatiel) : Prop where
  wrap : ∀ policies call, cockatiel.wrap policies call = policies.foldr (fun policy => policy) call
  timeout : ∀ ms : ℚ, 1 ≤ ms → IsTimeout ms .taskCancelled (cockatiel.timeout (.finite ms))
  bulkhead : ∀ (limit queue : ℕ) call, 1 ≤ limit →
    cockatiel.bulkhead (.finite limit) (.finite queue) call = call
  circuitBreaker : ∀ handles (halfOpenAfter : ℚ) (threshold : ℕ), 1 ≤ threshold →
    IsBreaker handles threshold halfOpenAfter .brokenCircuit
      (cockatiel.circuitBreaker handles (.finite halfOpenAfter) (.finite threshold))
  retry : ∀ handles (maxAttempts : ℕ),
    IsRetry handles maxAttempts (cockatiel.retry handles (.finite maxAttempts))

/-- `KakaoResilience`. -/
structure Policies where
  tokenPolicy : IPolicy
  profilePolicy : IPolicy

section

variable (cockatiel : Cockatiel) (cfg : ResilienceConfig)

def timeoutPolicy : IPolicy := cockatiel.timeout cfg.timeoutMs

def bulkheadPolicy : IPolicy := cockatiel.bulkhead cfg.bulkheadConcurrent cfg.bulkheadQueue

def breaker : IPolicy :=
  cockatiel.circuitBreaker transientOnly cfg.breakerHalfOpenMs cfg.breakerThreshold

def retryPolicy : IPolicy := cockatiel.retry transientOnly cfg.retryMaxAttempts

def totalTimeoutPolicy : IPolicy := cockatiel.timeout cfg.totalTimeoutMs

/-- The policies of a configuration. -/
def policies : Policies where
  tokenPolicy := cockatiel.wrap
    [breaker cockatiel cfg, bulkheadPolicy cockatiel cfg, timeoutPolicy cockatiel cfg]
  profilePolicy := cockatiel.wrap
    [totalTimeoutPolicy cockatiel cfg, retryPolicy cockatiel cfg, breaker cockatiel cfg,
      bulkheadPolicy cockatiel cfg, timeoutPolicy cockatiel cfg]

/-- The constructor of `KakaoResilience`: the policies, and the warnings that it reports. -/
def construct (config : Config) : Except String (Policies × List String) :=
  let cfg := ResilienceConfig.ofEnv config
  (validateResilienceConfig "kakao" cfg).map fun warnings => (policies cockatiel cfg, warnings)

end

/-! ## The client -/

structure KakaoProfile where
  providerId : String
  email : Option String
  name : String
  deriving DecidableEq, Repr

def tokenUrl : String := "https://kauth.kakao.com/oauth/token"
def profileUrl : String := "https://kapi.kakao.com/v2/user/me"
def tokenLabel : String := "토큰 교환"
def profileLabel : String := "프로필 조회"

def tokenRequest (clientId clientSecret code redirectUri : String) : Request where
  method := "POST"
  url := tokenUrl
  headers := [("Content-Type", "application/x-www-form-urlencoded")]
  body := some [("grant_type", "authorization_code"), ("client_id", clientId),
    ("client_secret", clientSecret), ("redirect_uri", redirectUri), ("code", code)]

def profileRequest (accessToken : Option String) : Request where
  method := "GET"
  url := profileUrl
  headers := [("Authorization", "Bearer " ++ accessToken.getD "undefined")]
  body := none

def callKakao (policy : IPolicy) (label : String) (request : Request) : KakaoCall Body :=
  fun w =>
    match policy (Resilience.request (send label request)) w with
    | (.ok body, w) => (.ok body, w)
    | (.error err, w) => (.error (mapFailure err), w)

structure KakaoOAuthClient where
  config : Config
  resilience : Policies

def getOrThrow (config : Config) (key : ConfigKey) : Except Thrown String :=
  match config key with
  | some value => .ok value
  | none => .error (.error s!"Configuration key \"{key.text}\" does not exist")

namespace KakaoOAuthClient

variable (client : KakaoOAuthClient) (code redirectUri : String)

/-- The first half of `exchangeAndFetch`: the token exchange. -/
def exchange : KakaoCall Body := fun w =>
  match getOrThrow client.config .kakaoClientId, getOrThrow client.config .kakaoClientSecret with
  | .error err, _ => (.error err, w)
  | _, .error err => (.error err, w)
  | .ok clientId, .ok clientSecret =>
    callKakao client.resilience.tokenPolicy tokenLabel
      (tokenRequest clientId clientSecret code redirectUri) w

/-- The second half: the profile. -/
def fetchProfile (token : Body) : KakaoCall Body :=
  callKakao client.resilience.profilePolicy profileLabel (profileRequest token.accessToken)

def exchangeAndFetch : KakaoCall KakaoProfile := fun w =>
  match client.exchange code redirectUri w with
  | (.error err, w) => (.error err, w)
  | (.ok token, w) =>
    match client.fetchProfile token w with
    | (.error err, w) => (.error err, w)
    | (.ok p, w) =>
      (.ok
        { providerId := p.id.elim "undefined" toString
          email := p.email
          name := p.nickname.getD "카카오사용자" }, w)

end KakaoOAuthClient

/-! ## The statement -/

section

variable (cockatiel : Cockatiel) (cfg : ResilienceConfig) (config : Config)

/-- The client with the policies of a configuration. -/
def clientOf : KakaoOAuthClient := { config := config, resilience := policies cockatiel cfg }

/-- The request for the profile, without the total timeout. -/
def tries (token : Body) : KakaoCall Body :=
  retryPolicy cockatiel cfg <| breaker cockatiel cfg <| bulkheadPolicy cockatiel cfg <|
    timeoutPolicy cockatiel cfg <| request (send profileLabel (profileRequest token.accessToken))

/-- A try that ends so fails transiently: it times out, or the response says so. -/
def Transient (answer : Answer) : Prop :=
  cfg.timeoutMs.value < answer.delay ∨
    ∃ e, respond profileLabel answer.response = .error e ∧ transientOnly e

/-- A login on a closed circuit whose token exchange succeeds, and whose profile requests all fail
transiently within the total budget. -/
structure FailingLogin (code redirectUri : String) (w : KakaoWorld) : Prop where
  clientId : (config .kakaoClientId).isSome
  clientSecret : (config .kakaoClientSecret).isSome
  closed : w.circuit = .closed 0
  exchanged : ∃ token, respond tokenLabel w.env.next.response = .ok token
  inTime : w.env.next.delay < cfg.timeoutMs.value
  failed : ∀ i : ℕ, i ≤ cfg.retryMaxAttempts.value →
    Transient cfg (w.env.answers (w.env.sent.length + 1 + i))
  budget : ∀ token after,
    (clientOf cockatiel cfg config).exchange code redirectUri w = (.ok token, after) →
    (tries cockatiel cfg token after).2.now < after.now + cfg.totalTimeoutMs.value

/-- The circuit is closed, and the next login sends its token request, whenever it comes. -/
structure Survives (client : KakaoOAuthClient) (w : KakaoWorld) : Prop where
  closed : ∃ failures, w.circuit = .closed failures
  attempted : ∀ code redirectUri later, w.now ≤ later →
    ∃ request : Request, request.url = tokenUrl ∧
      (client.exchange code redirectUri { w with now := later }).2.env.sent =
        w.env.sent ++ [request]

end

/-! ## Accepted configurations -/

section

variable {name label : String} {v : Js.Number} {cfg : ResilienceConfig} {warnings : List String}

theorem requireMin_eq_nil {min : ℚ} (h : requireMin label v (.finite min) = []) :
    ∃ q : ℚ, min ≤ q ∧ v = .finite q := by
  cases v with
  | finite q =>
    refine ⟨q, ?_, rfl⟩
    by_contra below
    simp [requireMin, Js.Number.isFinite, Js.Number.lt, not_le.1 below] at h
  | _ => simp [requireMin, Js.Number.isFinite] at h

theorem requireIntMin_eq_nil (min : ℕ) (h : requireIntMin label v (.finite min) = []) :
    ∃ n : ℕ, min ≤ n ∧ v = .finite n := by
  cases v with
  | finite q =>
    obtain ⟨integer, above⟩ : q.den = 1 ∧ (min : ℚ) ≤ q := by
      by_contra bad
      rw [not_and_or, not_le] at bad
      rcases bad with bad | bad <;>
        simp [requireIntMin, Js.Number.isInteger, Js.Number.lt, bad] at h
    obtain ⟨n, rfl⟩ := Js.exists_natCast integer (le_trans (Nat.cast_nonneg min) above)
    exact ⟨n, by exact_mod_cast above, rfl⟩
  | _ => simp [requireIntMin, Js.Number.isInteger] at h

theorem errors_eq_nil (accepted : validateResilienceConfig name cfg = .ok warnings) :
    cfg.errors = [] := by
  by_contra bad
  simp [validateResilienceConfig, bad] at accepted

/-- The numbers of a configuration that is accepted. -/
theorem exists_values (accepted : cfg.errors = []) :
    ∃ (ms halfOpen total : ℚ) (retries threshold limit queue : ℕ),
      cfg = ⟨.finite ms, .finite retries, .finite threshold, .finite halfOpen, .finite limit,
        .finite queue, .finite total⟩ ∧ 1 ≤ ms ∧ 1 ≤ threshold ∧ 1 ≤ limit ∧ 1 ≤ total := by
  obtain ⟨timeoutMs, retryMaxAttempts, breakerThreshold, breakerHalfOpenMs, bulkheadConcurrent,
    bulkheadQueue, totalTimeoutMs⟩ := cfg
  simp only [ResilienceConfig.errors, List.append_eq_nil_iff] at accepted
  obtain ⟨⟨⟨⟨⟨⟨timeout, retries⟩, threshold⟩, halfOpen⟩, limit⟩, queue⟩, total⟩ := accepted
  obtain ⟨ms, msPos, rfl⟩ := requireMin_eq_nil timeout
  obtain ⟨half, -, rfl⟩ := requireMin_eq_nil halfOpen
  obtain ⟨budget, budgetPos, rfl⟩ := requireMin_eq_nil total
  obtain ⟨n, -, rfl⟩ := requireIntMin_eq_nil 0 (by simpa using retries)
  obtain ⟨t, tPos, rfl⟩ := requireIntMin_eq_nil 1 (by simpa using threshold)
  obtain ⟨slots, slotsPos, rfl⟩ := requireIntMin_eq_nil 1 (by simpa using limit)
  obtain ⟨waiting, -, rfl⟩ := requireIntMin_eq_nil 0 (by simpa using queue)
  exact ⟨ms, half, budget, n, t, slots, waiting, rfl, msPos, tPos, slotsPos, budgetPos⟩

end

/-- The constructor succeeds on a configuration that is accepted, and reports its warnings. -/
theorem construct_eq_ok {cockatiel : Cockatiel} {config : Config} {built : Policies} :
    construct cockatiel config = .ok (built, warnings) ↔
      validateResilienceConfig "kakao" (.ofEnv config) = .ok warnings ∧
        built = policies cockatiel (.ofEnv config) := by
  cases accepted : validateResilienceConfig "kakao" (.ofEnv config) with
  | error message => simp [construct, accepted, Except.map]
  | ok reported => simp [construct, accepted, Except.map, eq_comm, and_comm]

/-- The defaults are accepted, without a warning. -/
theorem defaults_accepted (name : String) : validateResilienceConfig name defaults = .ok [] := by
  have errors : defaults.errors = [] := by decide +kernel
  have warnings : defaults.warnings name = [] := by
    have threshold : defaults.breakerThreshold.lt defaults.multiplier = false := by decide +kernel
    have budget : defaults.totalTimeoutMs.lt defaults.timeoutMs = false := by decide +kernel
    simp [ResilienceConfig.warnings, threshold, budget]
  simp [validateResilienceConfig, errors, warnings]

/-! ## The login -/

section

variable {cockatiel : Cockatiel} {cfg : ResilienceConfig} {body : Body} {w : KakaoWorld}
  (label : String) (request : Request)

/-- One try: the request under its own timeout. -/
abbrev attempt (cockatiel : Cockatiel) (cfg : ResilienceConfig) (label : String)
    (request : Request) : KakaoCall Body :=
  timeoutPolicy cockatiel cfg (Resilience.request (send label request))

variable (timeout : IsTimeout cfg.timeoutMs.value .taskCancelled (timeoutPolicy cockatiel cfg))

include timeout

/-- A try is answered in time, or cut. -/
theorem attempt_cases (w : KakaoWorld) :
    (w.env.next.delay ≤ cfg.timeoutMs.value ∧
      attempt cockatiel cfg label request w = Resilience.request (send label request) w) ∨
    (cfg.timeoutMs.value ≤ w.env.next.delay ∧
      attempt cockatiel cfg label request w =
        (.error .taskCancelled,
          { w with
            now := w.now + cfg.timeoutMs.value
            env := (send label request w.env).2.2 })) := by
  by_cases early : w.env.next.delay < cfg.timeoutMs.value
  · exact .inl ⟨early.le, timeout.inTime (add_lt_add_right early w.now)⟩
  · have late : cfg.timeoutMs.value ≤ w.env.next.delay := not_lt.1 early
    rcases timeout.cut (send label request) w late with cut | ⟨same, answered⟩
    · exact .inr ⟨late, cut⟩
    · exact .inl ⟨same.le, answered⟩

theorem isolated_attempt : Isolated (attempt cockatiel cfg label request) := by
  intro w
  rcases attempt_cases label request timeout w with ⟨-, same⟩ | ⟨-, same⟩ <;>
    exact congrArg (·.2.circuit) same

theorem sent_attempt (w : KakaoWorld) :
    (attempt cockatiel cfg label request w).2.env =
      { w.env with sent := w.env.sent ++ [request] } := by
  rcases attempt_cases label request timeout w with ⟨-, same⟩ | ⟨-, same⟩ <;>
    exact congrArg (·.2.env) same

/-- A try that gets a good answer before its timeout. -/
theorem attempt_ok (early : w.env.next.delay < cfg.timeoutMs.value)
    (ok : respond label w.env.next.response = .ok body) :
    (attempt cockatiel cfg label request w).1 = .ok body := by
  rcases attempt_cases label request timeout w with ⟨-, same⟩ | ⟨late, -⟩
  · rw [same]
    exact ok
  · exact absurd early (not_lt.2 late)

/-- The next `n` answers are transient failures. -/
def Down (cfg : ResilienceConfig) (n : ℕ) (network : Network) : Prop :=
  ∀ i < n, Transient cfg (network.answers (network.sent.length + i))

theorem failing_attempt :
    Failing transientOnly (attempt cockatiel cfg profileLabel request) (Down cfg) where
  isolated := isolated_attempt profileLabel request timeout
  fails {n w} down := by
    have rest : Down cfg n (attempt cockatiel cfg profileLabel request w).2.env := by
      intro i lt
      have next := down (i + 1) (Nat.add_lt_add_right lt 1)
      rw [sent_attempt profileLabel request timeout, List.length_append, List.length_singleton,
        Nat.add_right_comm]
      exact next
    rcases attempt_cases profileLabel request timeout w with ⟨inTime, same⟩ | ⟨-, same⟩
    · rcases down 0 (Nat.succ_pos n) with late | ⟨e, answer, handled⟩
      · exact absurd inTime (not_le.2 late)
      · exact ⟨e, by rw [same]; exact answer, handled, rest⟩
    · exact ⟨.taskCancelled, by rw [same], rfl, rest⟩

end

section

variable {cockatiel : Cockatiel} {cfg : ResilienceConfig} {config : Config} {token body : Body}
  {w after : KakaoWorld} {code redirectUri : String} {failures : ℕ}
  {call : KakaoCall Body}

/-- What is relied on of the policies of a configuration. -/
structure Laws (cockatiel : Cockatiel) (cfg : ResilienceConfig) (retries threshold : ℕ) : Prop where
  lawful : cockatiel.Lawful
  retryMaxAttempts : cfg.retryMaxAttempts = .finite retries
  breakerThreshold : cfg.breakerThreshold = .finite threshold
  alone : ∀ call, bulkheadPolicy cockatiel cfg call = call
  timeout : IsTimeout cfg.timeoutMs.value .taskCancelled (timeoutPolicy cockatiel cfg)
  total : IsTimeout cfg.totalTimeoutMs.value .taskCancelled (totalTimeoutPolicy cockatiel cfg)
  retry : IsRetry transientOnly retries (retryPolicy cockatiel cfg)
  breaks : IsBreaker transientOnly threshold cfg.breakerHalfOpenMs.value .brokenCircuit
    (breaker cockatiel cfg)

theorem Cockatiel.Lawful.laws (lawful : cockatiel.Lawful) (accepted : cfg.errors = []) :
    ∃ retries threshold, Laws cockatiel cfg retries threshold := by
  obtain ⟨ms, halfOpen, total, retries, threshold, limit, queue, rfl, ms1, threshold1, limit1,
    total1⟩ := exists_values accepted
  exact ⟨retries, threshold,
    { lawful := lawful
      retryMaxAttempts := rfl
      breakerThreshold := rfl
      alone := fun call => lawful.bulkhead limit queue call limit1
      timeout := lawful.timeout ms ms1
      total := lawful.timeout total total1
      retry := lawful.retry transientOnly retries
      breaks := lawful.circuitBreaker transientOnly halfOpen threshold threshold1 }⟩

variable {retries threshold : ℕ} (laws : Laws cockatiel cfg retries threshold)

include laws

theorem Laws.tokenPolicy_eq : (policies cockatiel cfg).tokenPolicy call =
    breaker cockatiel cfg (timeoutPolicy cockatiel cfg call) := by
  simp only [policies, laws.lawful.wrap, List.foldr_cons, List.foldr_nil, laws.alone]

theorem Laws.profilePolicy_eq : (policies cockatiel cfg).profilePolicy call =
    totalTimeoutPolicy cockatiel cfg (retryPolicy cockatiel cfg
      (breaker cockatiel cfg (timeoutPolicy cockatiel cfg call))) := by
  simp only [policies, laws.lawful.wrap, List.foldr_cons, List.foldr_nil, laws.alone]

theorem Laws.tries_eq : tries cockatiel cfg token =
    retryPolicy cockatiel cfg (breaker cockatiel cfg
      (attempt cockatiel cfg profileLabel (profileRequest token.accessToken))) := by
  simp only [tries, laws.alone]

/-- The token exchange of a client with credentials. -/
theorem Laws.exchange_eq (id : (config .kakaoClientId).isSome)
    (secret : (config .kakaoClientSecret).isSome) (code redirectUri : String) :
    ∃ request : Request, request.url = tokenUrl ∧ ∀ w,
      (clientOf cockatiel cfg config).exchange code redirectUri w =
        match breaker cockatiel cfg (attempt cockatiel cfg tokenLabel request) w with
        | (.ok body, w) => (.ok body, w)
        | (.error err, w) => (.error (mapFailure err), w) := by
  obtain ⟨clientId, id⟩ := Option.isSome_iff_exists.1 id
  obtain ⟨clientSecret, secret⟩ := Option.isSome_iff_exists.1 secret
  refine ⟨tokenRequest clientId clientSecret code redirectUri, rfl, fun w => ?_⟩
  simp only [KakaoOAuthClient.exchange, clientOf, getOrThrow, id, secret, callKakao,
    laws.tokenPolicy_eq]

/-- The exchange on a closed circuit sends its request, whatever becomes of it. -/
theorem Laws.sent_exchange (id : (config .kakaoClientId).isSome)
    (secret : (config .kakaoClientSecret).isSome) (code redirectUri : String)
    (closed : w.circuit = .closed failures) :
    ∃ request : Request, request.url = tokenUrl ∧
      ((clientOf cockatiel cfg config).exchange code redirectUri w).2.env =
        { w.env with sent := w.env.sent ++ [request] } := by
  obtain ⟨request, url, exchange⟩ := laws.exchange_eq id secret code redirectUri
  have isolated := isolated_attempt tokenLabel request laws.timeout
  have sent := laws.breaks.env_eq isolated closed
  rw [sent_attempt tokenLabel request laws.timeout] at sent
  refine ⟨request, url, ?_⟩
  rw [exchange, ← sent]
  rcases breaker cockatiel cfg (attempt cockatiel cfg tokenLabel request) w with ⟨_ | _, _⟩ <;> rfl

/-- An exchange that succeeds leaves no failures behind. -/
theorem Laws.exchange_ok (login : FailingLogin cockatiel cfg config code redirectUri w) :
    ∃ token after,
      (clientOf cockatiel cfg config).exchange code redirectUri w = (.ok token, after) ∧
      after.circuit = .closed 0 ∧ after.env.answers = w.env.answers ∧
      after.env.sent.length = w.env.sent.length + 1 := by
  obtain ⟨request, -, exchange⟩ :=
    laws.exchange_eq login.clientId login.clientSecret code redirectUri
  obtain ⟨token, answer⟩ := login.exchanged
  have ok := attempt_ok tokenLabel request laws.timeout login.inTime answer
  have isolated := isolated_attempt tokenLabel request laws.timeout
  have counted := laws.breaks.success isolated login.closed ok
  have sent := sent_attempt tokenLabel request laws.timeout w
  refine ⟨token, _, by rw [exchange, counted], rfl, ?_, ?_⟩
  · rw [sent]
  · rw [sent, List.length_append, List.length_singleton]

/-- The world after a login whose profile request keeps within its budget. -/
theorem Laws.exchangeAndFetch_snd
    (exchanged : (clientOf cockatiel cfg config).exchange code redirectUri w = (.ok token, after))
    (budget : (tries cockatiel cfg token after).2.now < after.now + cfg.totalTimeoutMs.value) :
    ((clientOf cockatiel cfg config).exchangeAndFetch code redirectUri w).2 =
      (tries cockatiel cfg token after).2 := by
  have inTime : (policies cockatiel cfg).profilePolicy
      (request (send profileLabel (profileRequest token.accessToken))) after =
      tries cockatiel cfg token after := by
    rw [laws.tries_eq] at budget ⊢
    rw [laws.profilePolicy_eq]
    exact laws.total.inTime budget
  have fetched : ((clientOf cockatiel cfg config).fetchProfile token after).2 =
      (tries cockatiel cfg token after).2 := by
    simp only [KakaoOAuthClient.fetchProfile, callKakao, clientOf, inTime]
    rcases tries cockatiel cfg token after with ⟨_ | _, _⟩ <;> rfl
  rw [← fetched]
  simp only [KakaoOAuthClient.exchangeAndFetch, exchanged]
  rcases (clientOf cockatiel cfg config).fetchProfile token after with ⟨_ | _, _⟩ <;> rfl

/-- The circuit after a login whose profile requests all fail. -/
theorem Laws.circuit_iff (login : FailingLogin cockatiel cfg config code redirectUri w) :
    (∃ failures, ((clientOf cockatiel cfg config).exchangeAndFetch code redirectUri w).2.circuit =
      .closed failures) ↔ retries + 1 < threshold := by
  obtain ⟨token, after, exchanged, closed, answers, sent⟩ := laws.exchange_ok login
  have down : Down cfg (retries + 1) after.env := by
    intro i lt
    rw [answers, sent]
    refine login.failed i ?_
    rw [laws.retryMaxAttempts, Js.Number.value]
    exact_mod_cast Nat.lt_succ_iff.1 lt
  rw [laws.exchangeAndFetch_snd exchanged (login.budget token after exchanged), laws.tries_eq]
  have counted := laws.retry.circuit laws.breaks rfl
    (failing_attempt (profileRequest token.accessToken) laws.timeout) closed down
  rwa [Nat.zero_add] at counted

end

/-- A login whose profile requests all fail leaves the circuit closed exactly if the threshold is
above the number of its tries. -/
theorem login_iff {cockatiel : Cockatiel} (lawful : cockatiel.Lawful) {name : String}
    {cfg : ResilienceConfig} {warnings : List String}
    (accepted : validateResilienceConfig name cfg = .ok warnings) {config : Config}
    {code redirectUri : String} {w : KakaoWorld}
    (login : FailingLogin cockatiel cfg config code redirectUri w) :
    Survives (clientOf cockatiel cfg config)
        ((clientOf cockatiel cfg config).exchangeAndFetch code redirectUri w).2 ↔
      cfg.retryMaxAttempts.value + 1 < cfg.breakerThreshold.value := by
  obtain ⟨retries, threshold, laws⟩ := lawful.laws (errors_eq_nil accepted)
  have number : cfg.retryMaxAttempts.value + 1 < cfg.breakerThreshold.value ↔
      retries + 1 < threshold := by
    rw [laws.retryMaxAttempts, laws.breakerThreshold, Js.Number.value, Js.Number.value]
    norm_cast
  rw [number, ← laws.circuit_iff login]
  constructor
  · exact Survives.closed
  · rintro ⟨failures, closed⟩
    refine ⟨⟨failures, closed⟩, fun code redirectUri later _ => ?_⟩
    obtain ⟨request, url, sent⟩ := laws.sent_exchange
      (w := { ((clientOf cockatiel cfg config).exchangeAndFetch _ _ w).2 with now := later })
      login.clientId login.clientSecret code redirectUri closed
    exact ⟨request, url, by rw [sent]⟩

/-! ## An outage -/

/-- Policies that behave as is relied on, with pauses of 128 ms. -/
def reference : Cockatiel where
  wrap policies call := policies.foldr (fun policy => policy) call
  timeout ms := deadline ms.value .taskCancelled
  bulkhead limit _ call :=
    if limit.lt (.finite 1) then fun w => (.error .bulkheadRejected, w) else call
  circuitBreaker handles halfOpenAfter threshold :=
    consecutive handles threshold.value.num.toNat halfOpenAfter.value .brokenCircuit
  retry handles maxAttempts := retrying handles 128 maxAttempts.value.num.toNat

theorem reference_lawful : reference.Lawful where
  wrap _ _ := rfl
  timeout ms _ := isTimeout_deadline ms Thrown.taskCancelled
  bulkhead limit _ _ pos := by
    have enough : ¬ (limit : ℚ) < 1 := not_lt.2 (by exact_mod_cast pos)
    simp [reference, Js.Number.lt, enough]
  circuitBreaker handles halfOpenAfter threshold _ :=
    isBreaker_consecutive handles threshold halfOpenAfter .brokenCircuit
  retry handles n := isRetry_retrying handles 128 n

def credentials : Config := fun key =>
  if key = .kakaoClientId ∨ key = .kakaoClientSecret then some "kakao" else none

def granted : Body := { accessToken := some "token", id := none, email := none, nickname := none }

/-- Kakao gives a token, and is then unavailable. -/
def outage : KakaoWorld where
  now := 0
  circuit := .closed 0
  env :=
    { answers := fun i =>
        { delay := 10
          response := if i = 0 then .received 200 (some granted) else .received 503 none }
      sent := [] }

section

variable {cfg : ResilienceConfig}

/-- The login of the outage. -/
theorem failingLogin_outage (timeout : cfg.timeoutMs = .finite 3000)
    (exchanged :
      ((clientOf reference cfg credentials).exchange "code" "uri" outage).1 = .ok granted)
    (budget : (tries reference cfg granted
      ((clientOf reference cfg credentials).exchange "code" "uri" outage).2).2.now <
        ((clientOf reference cfg credentials).exchange "code" "uri" outage).2.now +
          cfg.totalTimeoutMs.value) :
    FailingLogin reference cfg credentials "code" "uri" outage where
  clientId := rfl
  clientSecret := rfl
  closed := rfl
  exchanged := ⟨granted, rfl⟩
  inTime := by
    rw [timeout]
    decide +kernel
  failed i _ := by
    have later : 0 + 1 + i ≠ 0 := by omega
    exact .inr ⟨.api ⟨profileLabel, 503⟩, congrArg (respond profileLabel) (if_neg later), rfl⟩
  budget token after exchange := by
    rw [exchange] at exchanged budget
    cases exchanged
    exact budget

end

/-- The defaults outlast the outage. -/
theorem survives_outage : Survives (clientOf reference defaults credentials)
    ((clientOf reference defaults credentials).exchangeAndFetch "code" "uri" outage).2 := by
  have login : FailingLogin reference defaults credentials "code" "uri" outage :=
    failingLogin_outage rfl (by decide +kernel) (by decide +kernel)
  exact (login_iff reference_lawful (defaults_accepted "kakao") login).2 (by decide +kernel)

/-- The environment sets the threshold to the number of tries. -/
def lowered : Config := fun key =>
  if key = .kakaoBreakerThreshold then some "4" else credentials key

/-- A threshold that the tries of one login reach is accepted without a warning; the login opens the
circuit, and the next token request is not sent. -/
theorem threshold_reached :
    let cfg := ResilienceConfig.ofEnv lowered
    let client := clientOf reference cfg credentials
    let after := (client.exchangeAndFetch "code" "uri" outage).2
    validateResilienceConfig "kakao" cfg = .ok [] ∧
      FailingLogin reference cfg credentials "code" "uri" outage ∧
      after.circuit = .opened after.now ∧
      (client.exchange "other" "uri" after).1 = .error (.app kakaoUnavailable) ∧
      (client.exchange "other" "uri" after).2.env.sent = after.env.sent ∧
      ¬ Survives client after := by
  have cfg : ResilienceConfig.ofEnv lowered = { defaults with breakerThreshold := .finite 4 } := by
    decide +kernel
  simp only [cfg]
  have opened : ((clientOf reference { defaults with breakerThreshold := .finite 4 }
      credentials).exchangeAndFetch "code" "uri" outage).2.circuit = .opened 434 := by
    decide +kernel
  refine ⟨by decide +kernel, failingLogin_outage rfl (by decide +kernel) (by decide +kernel),
    by decide +kernel, by decide +kernel, by decide +kernel, fun survives => ?_⟩
  obtain ⟨failures, closed⟩ := survives.closed
  rw [opened] at closed
  cases closed

end EstateServer.Auth.KakaoResilience
