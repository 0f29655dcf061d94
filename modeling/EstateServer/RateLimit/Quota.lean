import EstateServer.RateLimit.Guard
import Mathlib.Data.Rat.Floor

/-!
# Quotas

The limited requests of one IP, or of one user, in one window share a counter, and no other request
touches it (`rateLimitKey_inj`).  It lives until the window has ended, because it expires a window's
length after its first hit (`Counter.hit`), so it counts the hits (`Sound.counters`): a request that
passes a check is one of the first ones, and one that is refused comes after as many.

All this is for windows that `EXPIRE` takes.  Where it does not, the first hit leaves a counter without
a deadline, on which the next request is admitted (`deadline_missing`).
-/

namespace EstateServer.RateLimit

open Machine

/-! ## Keys -/

theorem last_separator {α : Type*} {c : α} {a a' b b' : List α} (hb : c ∉ b) (hb' : c ∉ b')
    (h : a ++ c :: b = a' ++ c :: b') : a = a' ∧ b = b' := by
  rcases List.append_eq_append_iff.1 h with ⟨d, rfl, tail⟩ | ⟨d, rfl, tail⟩
  all_goals
    rcases d with _ | ⟨x, d⟩
    · simp_all
    · obtain ⟨rfl, rfl⟩ := List.cons.inj tail
      simp at hb hb'

theorem not_mem_toDigits (n : ℕ) {c : Char} (h : c.isDigit = false) : c ∉ Nat.toDigits 10 n := by
  intro mem
  rw [Nat.isDigit_of_mem_toDigits (by decide) (by decide) mem] at h
  cases h

theorem toDigits_inj {m n : ℕ} (h : Nat.toDigits 10 m = Nat.toDigits 10 n) : m = n := by
  rw [← Nat.ofDigitChars_ten_toDigits (n := m), h, Nat.ofDigitChars_ten_toDigits]

theorem toList_toString (n : ℤ) : (toString n).toList =
    match n with
    | .ofNat m => Nat.toDigits 10 m
    | .negSucc m => '-' :: Nat.toDigits 10 (m + 1) := by
  cases n with
  | ofNat m => exact Nat.toList_repr
  | negSucc m =>
    show ("-" ++ (m + 1).repr).toList = _
    rw [String.toList_append, Nat.toList_repr]
    rfl

theorem toString_inj {m n : ℤ} (h : toString m = toString n) : m = n := by
  have same := congrArg String.toList h
  rw [toList_toString, toList_toString] at same
  cases m with
  | ofNat m =>
    cases n with
    | ofNat n => exact congrArg Int.ofNat (toDigits_inj same)
    | negSucc n =>
      have mem : '-' ∈ Nat.toDigits 10 m := by
        rw [show Nat.toDigits 10 m = _ from same]
        exact List.mem_cons_self
      exact absurd mem (not_mem_toDigits m (by decide))
  | negSucc m =>
    cases n with
    | ofNat n =>
      have mem : '-' ∈ Nat.toDigits 10 n := by
        rw [← show _ = Nat.toDigits 10 n from same]
        exact List.mem_cons_self
      exact absurd mem (not_mem_toDigits n (by decide))
    | negSucc n => exact congrArg Int.negSucc (Nat.succ.inj (toDigits_inj (List.cons.inj same).2))

theorem colon_not_mem_toString (n : ℤ) : ':' ∉ (toString n).toList := by
  rw [toList_toString]
  cases n with
  | ofNat m => exact not_mem_toDigits m (by decide)
  | negSucc m => exact List.not_mem_cons_of_ne_of_not_mem (by decide) (not_mem_toDigits _ (by decide))

variable {scope scope' : Scope} {id id' : String} {w w' : ℤ}

theorem toList_rateLimitKey (scope : Scope) (id : String) (w : ℤ) : (rateLimitKey scope id w).toList =
    ("ratelimit:".toList ++ (scope.text.toList ++ ':' :: id.toList)) ++ ':' :: (toString w).toList := by
  have text (s : String) : toString s = s := rfl
  simp [rateLimitKey, text]

theorem text_inj {rest rest' : List Char}
    (h : scope.text.toList ++ ':' :: rest = scope'.text.toList ++ ':' :: rest') :
    scope = scope' ∧ rest = rest' := by
  cases scope <;> cases scope' <;> simp_all [Scope.text]

/-- Different counters have different keys. -/
theorem rateLimitKey_inj (h : rateLimitKey scope id w = rateLimitKey scope' id' w') :
    scope = scope' ∧ id = id' ∧ w = w' := by
  have same := congrArg String.toList h
  rw [toList_rateLimitKey, toList_rateLimitKey] at same
  obtain ⟨front, number⟩ :=
    last_separator (colon_not_mem_toString w) (colon_not_mem_toString w') same
  obtain ⟨rfl, ids⟩ := text_inj (List.append_cancel_left front)
  exact ⟨rfl, String.toList_injective ids, toString_inj (String.toList_injective number)⟩

/-! ## What a call counts under -/

variable (env : Env) {W : ℕ} {s s' : State} {call : Call} {check : Check} {calls : List Call}

def Scope.rank : Scope → ℕ
  | ip => 0
  | user => 1

/-- The maximum of a route. -/
def Env.max (route : Route) : Scope → ℚ
  | .user => env.userMax route
  | .ip => env.ipMax route

namespace Call

/-- Under whose counter the request falls: its IP, or the user of its token. -/
def subject (call : Call) : Scope → Option String
  | .user => Js.truthy (env.extractUserId call.request)
  | .ip => some (call.request.ip.getD "unknown")

/-- The index of the window that the request computes. -/
def window (call : Call) : ℤ := windowStart call.now (env.windowSec call.request.route)

/-- The request is a limited one of this IP or user in this window. -/
def Of (scope : Scope) (id : String) (w : ℤ) (call : Call) : Prop :=
  call.request.limited = true ∧ call.subject env scope = some id ∧ call.window env = w

/-- The request has hit the counter. -/
def Hit (scope : Scope) (call : Call) : Prop :=
  scope.rank < call.passed ∨ scope.rank = call.passed ∧ ∃ r, call.outcome = some (.refused r)

instance (scope : Scope) (id : String) (w : ℤ) : DecidablePred (Of env scope id w) := fun _ =>
  inferInstanceAs (Decidable (_ ∧ _ ∧ _))

instance : DecidablePred fun call : Call => ∃ r, call.outcome = some (.refused r) := fun call =>
  match h : call.outcome with
  | some (.refused r) => isTrue ⟨r, h⟩
  | none | some .admitted | some .failed => isFalse fun ⟨_, refused⟩ => by rw [h] at refused; cases refused

instance (scope : Scope) : DecidablePred (Hit scope) := fun _ => inferInstanceAs (Decidable (_ ∨ _ ∧ _))

end Call

/-- The limited requests of an IP or a user in a window. -/
def made (scope : Scope) (id : String) (w : ℤ) (calls : List Call) : ℕ :=
  calls.countP fun call => call.Of env scope id w

/-- Those that have hit the counter. -/
def hits (scope : Scope) (id : String) (w : ℤ) (calls : List Call) : ℕ :=
  calls.countP fun call => call.Of env scope id w ∧ call.Hit scope

/-- Those on a route that have passed the check. -/
def passes (scope : Scope) (id : String) (w : ℤ) (route : Route) (calls : List Call) : ℕ :=
  calls.countP fun call => (call.Of env scope id w ∧ call.request.route = route) ∧
    scope.rank < call.passed

/-- Those on a route that have been admitted. -/
def admissions (scope : Scope) (id : String) (w : ℤ) (route : Route) (calls : List Call) : ℕ :=
  calls.countP fun call => (call.Of env scope id w ∧ call.request.route = route) ∧
    call.outcome = some .admitted

/-- The end of a window. -/
def windowEnd (W : ℕ) (w : ℤ) : ℤ := (w + 1) * (1000 * W)

/-- All limited routes have windows of `W` seconds, and a request makes its hits before its window ends. -/
def InTime (W : ℕ) (s : State) : Label → Prop
  | .arrive request => request.limited = true → env.windowSec request.route = W
  | .hit n => ∀ call ∈ s.calls[n]?, s.clock < windowEnd W (call.window env)
  | _ => True

/-- The same, where `EXPIRE` takes the window at every hit. -/
def Timely (W : ℕ) (s : State) (a : Label) : Prop :=
  InTime env W s a ∧ ∀ n, a = .hit n → ExpireAccepts W s.clock

/-! ## A counter -/

/-- After `n` hits: absent, or a value that stays until `e` at least. -/
inductive Counter (e : ℤ) : ℕ → Expiring.Key ℕ → Prop
  | absent : Counter e 0 none
  | counting {n deadline : ℕ} (late : e ≤ deadline) :
    Counter e (n + 1) (some { value := n + 1, deadline := some deadline })

theorem Counter.read {e : ℤ} {n : ℕ} {key : Expiring.Key ℕ} (counter : Counter e n key) {now : ℕ}
    (early : now < e) : (Expiring.read now key).getD 0 = n := by
  cases counter with
  | absent => rfl
  | counting late =>
    rename_i n deadline
    have running : now < deadline := by omega
    simp [Expiring.read, Expiring.live, Option.filter, running]

/-- A hit counts one more, and a first hit sets the deadline. -/
theorem Counter.hit {e : ℤ} {n : ℕ} {key : Expiring.Key ℕ} (counter : Counter e n key) {now : ℕ}
    (pos : 0 < W) (accepts : ExpireAccepts W now) (early : now < e) (soon : e ≤ now + 1000 * W) :
    ∃ key', RateLimit.hit W now key = (key', some (n + 1)) ∧ Counter e (n + 1) key' := by
  cases counter with
  | absent =>
    refine ⟨some { value := 1, deadline := some (now + 1000 * W) }, ?_, .counting (by omega)⟩
    simp [RateLimit.hit, expire, accepts, Expiring.read, Expiring.live, Expiring.update,
      Expiring.expire, pos.ne']
  | counting late =>
    rename_i n deadline
    have running : now < deadline := by omega
    refine ⟨some { value := n + 1 + 1, deadline := some deadline }, ?_, .counting late⟩
    simp [RateLimit.hit, Expiring.read, Expiring.live, Expiring.update, Option.filter, running]

/-! ## Windows -/

theorem window_bounds (pos : 0 < W) (now : ℕ) :
    windowStart now W * (1000 * W) ≤ now ∧ now < windowEnd W (windowStart now W) := by
  have positive : (0 : ℚ) < 1000 * W := by positivity
  have quotient : (now : ℚ) / 1000 / W = now / (1000 * W) := by rw [div_div]
  have lower := Rat.floor_le ((now : ℚ) / 1000 / W)
  have upper := Rat.lt_floor_add_one ((now : ℚ) / 1000 / W)
  rw [quotient, le_div_iff₀ positive] at lower
  rw [quotient, div_lt_iff₀ positive] at upper
  rw [windowStart, windowEnd, quotient]
  exact ⟨by exact_mod_cast lower, by exact_mod_cast upper⟩

/-! ## The next check -/

variable {env} {scope₀ : Scope} {n count : ℕ}

theorem checks_getElem? {i : ℕ} (next : (checks env call.request call.now)[i]? = some check) :
    ∃ scope id, scope.rank = i ∧ call.subject env scope = some id ∧
      check = { key := rateLimitKey scope id (call.window env), max := env.max call.request.route scope } := by
  unfold checks at next
  cases known : Js.truthy (env.extractUserId call.request) with
  | none =>
    rw [known] at next
    match i, next with
    | 0, next => exact ⟨.ip, _, rfl, rfl, (Option.some.inj next).symm⟩
  | some userId =>
    rw [known] at next
    match i, next with
    | 0, next => exact ⟨.ip, _, rfl, rfl, (Option.some.inj next).symm⟩
    | 1, next => exact ⟨.user, userId, rfl, known, (Option.some.inj next).symm⟩

theorem rank_lt_length (known : call.subject env scope = some id) :
    scope.rank < (checks env call.request call.now).length := by
  unfold checks
  cases scope with
  | ip => split <;> simp [Scope.rank]
  | user =>
    rw [show Js.truthy (env.extractUserId call.request) = some id from known]
    simp [Scope.rank]

theorem next_eq_some (next : call.next env = some check) : call.outcome = none ∧
    ∃ scope id, scope.rank = call.passed ∧ call.subject env scope = some id ∧
      check = { key := rateLimitKey scope id (call.window env), max := env.max call.request.route scope } := by
  unfold Call.next at next
  split_ifs at next with running
  exact ⟨running, checks_getElem? next⟩

theorem rank_inj (h : scope.rank = scope'.rank) : scope = scope' := by
  cases scope <;> cases scope' <;> first | rfl | cases h

/-! ## Steps -/

/-- The steps, with their effects. -/
inductive Moves (env : Env) (s : State) : Label → State → Prop
  | advance (d : ℕ) : Moves env s (.advance d) { s with clock := s.clock + d }
  | arrive (request : Request) :
    Moves env s (.arrive request) { s with calls := s.calls ++ [request.call s.clock] }
  | hit {n : ℕ} {call : Call} {check : Check} {key : Expiring.Key ℕ} {count : Option ℕ}
      (known : s.calls[n]? = some call) (next : call.next env = some check)
      (counted : RateLimit.hit (env.windowSec call.request.route) s.clock (s.counters check.key) =
        (key, count)) :
    Moves env s (.hit n) { s with
      counters := Function.update s.counters check.key key
      calls := s.calls.set n (call.counted env check s.clock count) }
  | fail {n : ℕ} {call : Call} {check : Check} (known : s.calls[n]? = some call)
      (next : call.next env = some check) :
    Moves env s (.fail n) { s with calls := s.calls.set n { call with outcome := some .failed } }

theorem moves_of_next {a : Label} (step : next env s a = some s') : Moves env s a s' := by
  cases a with
  | advance d =>
    obtain rfl := Option.some.inj step
    exact .advance d
  | arrive request =>
    obtain rfl := Option.some.inj step
    exact .arrive request
  | hit n =>
    simp only [RateLimit.next, Option.bind_eq_bind, Option.bind_eq_some_iff, Option.some.injEq] at step
    obtain ⟨call, known, check, next, rfl⟩ := step
    exact .hit known next rfl
  | fail n =>
    simp only [RateLimit.next, Option.bind_eq_bind, Option.bind_eq_some_iff, Option.some.injEq] at step
    obtain ⟨call, known, check, next, rfl⟩ := step
    exact .fail known next

/-! ## Counting calls -/

theorem countP_set (p : Call → Bool) (call' : Call) (known : calls[n]? = some call) :
    (calls.set n call').countP p + (if p call then 1 else 0) =
      calls.countP p + if p call' then 1 else 0 := by
  obtain ⟨bound, rfl⟩ := List.getElem?_eq_some_iff.1 known
  have least := List.boole_getElem_le_countP (p := p) bound
  rw [List.countP_set bound]
  omega

theorem hits_le_made : hits env scope id w calls ≤ made env scope id w calls :=
  List.countP_mono_left fun call _ h => by simp only [decide_eq_true_eq] at h ⊢; exact h.1

@[simp] theorem counted_request (call : Call) (check : Check) (now : Instant) (count : Option ℕ) :
    (call.counted env check now count).request = call.request := by
  unfold Call.counted
  split
  · rfl
  · split <;> rfl

@[simp] theorem counted_now (call : Call) (check : Check) (now : Instant) (count : Option ℕ) :
    (call.counted env check now count).now = call.now := by
  unfold Call.counted
  split
  · rfl
  · split <;> rfl

theorem of_congr {call' : Call} (request : call'.request = call.request) (now : call'.now = call.now) :
    call'.Of env scope id w ↔ call.Of env scope id w := by
  have subject : call'.subject env scope = call.subject env scope := by
    cases scope <;> simp [Call.subject, request]
  rw [Call.Of, Call.Of, Call.window, Call.window, request, now, subject]

theorem not_hit (running : call.outcome = none) (turn : scope.rank = call.passed) : ¬ call.Hit scope := by
  rintro (before | ⟨-, r, refused⟩)
  · omega
  · rw [running] at refused
    cases refused

/-- A call whose check has been counted has hit that counter too. -/
theorem hit_counted {now : Instant} (running : call.outcome = none) (turn : scope₀.rank = call.passed) :
    (call.counted env check now (some count)).Hit scope ↔ call.Hit scope ∨ scope = scope₀ := by
  have turn' : scope = scope₀ ↔ scope.rank = call.passed :=
    turn ▸ ⟨fun same => same ▸ rfl, fun same => rank_inj same⟩
  have before : call.Hit scope ↔ scope.rank < call.passed := by simp [Call.Hit, running]
  rw [turn', before, Call.counted]
  split_ifs with above
  · simp [Call.Hit]
  -- a check that has passed is not the one that refused
  all_goals
    refine Iff.trans (or_iff_left ?_) Nat.lt_succ_iff_lt_or_eq
    rintro ⟨-, r, refused⟩
    cases refused

theorem hits_counted {now : Instant} (known : calls[n]? = some call) (running : call.outcome = none)
    (turn : scope₀.rank = call.passed) :
    hits env scope id w (calls.set n (call.counted env check now (some count))) =
      hits env scope id w calls + if scope = scope₀ ∧ call.Of env scope id w then 1 else 0 := by
  have change := countP_set (fun call => call.Of env scope id w ∧ call.Hit scope)
    (call.counted env check now (some count)) known
  have idle : ¬ call.Hit scope₀ := not_hit running turn
  simp only [decide_eq_true_eq, hit_counted running turn,
    of_congr (counted_request call check now _) (counted_now call check now _)] at change
  by_cases same : scope = scope₀
  · subst same
    simp only [idle, and_false, if_false, or_true, and_true, true_and, add_zero] at change ⊢
    exact change
  · simp only [same, or_false, false_and, if_false, add_zero] at change ⊢
    exact Nat.add_right_cancel change

theorem made_set {call' : Call} (known : calls[n]? = some call) (request : call'.request = call.request)
    (now : call'.now = call.now) :
    made env scope id w (calls.set n call') = made env scope id w calls := by
  have change := countP_set (fun call => call.Of env scope id w) call' known
  simp only [decide_eq_true_eq, of_congr request now] at change
  exact Nat.add_right_cancel change

theorem made_counted {now : Instant} {result : Option ℕ} (known : calls[n]? = some call) :
    made env scope id w (calls.set n (call.counted env check now result)) = made env scope id w calls :=
  made_set known (counted_request call check now result) (counted_now call check now result)

theorem hits_failed (known : calls[n]? = some call) (running : call.outcome = none) :
    hits env scope id w (calls.set n { call with outcome := some .failed }) = hits env scope id w calls := by
  have change := countP_set (fun call => call.Of env scope id w ∧ call.Hit scope)
    { call with outcome := some .failed } known
  have same : Call.Hit scope { call with outcome := some .failed } ↔ call.Hit scope := by
    simp [Call.Hit, running]
  have of : Call.Of env scope id w { call with outcome := some .failed } ↔ call.Of env scope id w :=
    of_congr rfl rfl
  simp only [decide_eq_true_eq, same, of] at change
  exact Nat.add_right_cancel change

theorem passes_le_hits {route : Route} :
    passes env scope id w route calls ≤ hits env scope id w calls :=
  List.countP_mono_left fun call _ h => by
    simp only [decide_eq_true_eq] at h ⊢
    exact ⟨h.1.1, .inl h.2⟩

/-- A check is passed by one call more, if the count is within the maximum of the route. -/
theorem passes_counted {now : Instant} {route : Route} (known : calls[n]? = some call)
    (turn : scope₀.rank = call.passed) :
    passes env scope id w route (calls.set n (call.counted env check now (some count))) =
      passes env scope id w route calls +
        if scope = scope₀ ∧ call.Of env scope id w ∧ call.request.route = route ∧ ¬ check.max < count
        then 1 else 0 := by
  have change := countP_set (fun call => (call.Of env scope id w ∧ call.request.route = route) ∧
    scope.rank < call.passed) (call.counted env check now (some count)) known
  have turn' : scope = scope₀ ↔ scope.rank = call.passed :=
    turn ▸ ⟨fun same => same ▸ rfl, fun same => rank_inj same⟩
  have passed : (call.counted env check now (some count)).passed =
      call.passed + if check.max < count then 0 else 1 := by
    unfold Call.counted
    dsimp only
    split_ifs <;> rfl
  simp only [decide_eq_true_eq, counted_request, passed,
    of_congr (counted_request call check now _) (counted_now call check now _)] at change
  simp only [turn', passes]
  by_cases of : call.Of env scope id w ∧ call.request.route = route
  · by_cases above : check.max < count
    · simp only [of, above, if_true, not_true, and_false, if_false, add_zero, true_and] at change ⊢
      exact Nat.add_right_cancel change
    · simp only [of, above, if_false, not_false_iff, and_true, true_and] at change ⊢
      split_ifs at change ⊢ <;> omega
  · have other : ¬ (scope.rank = call.passed ∧ call.Of env scope id w ∧ call.request.route = route ∧
        ¬ check.max < count) := fun h => of ⟨h.2.1, h.2.2.1⟩
    simp only [of, false_and, if_false, other, add_zero] at change ⊢
    exact change

theorem passes_failed {route : Route} (known : calls[n]? = some call) :
    passes env scope id w route (calls.set n { call with outcome := some .failed }) =
      passes env scope id w route calls := by
  have change := countP_set (fun call => (call.Of env scope id w ∧ call.request.route = route) ∧
    scope.rank < call.passed) { call with outcome := some .failed } known
  have of : Call.Of env scope id w { call with outcome := some .failed } ↔ call.Of env scope id w :=
    of_congr rfl rfl
  simp only [decide_eq_true_eq, of] at change
  exact Nat.add_right_cancel change

/-! ## The invariant -/

/-- What holds of one call at the time `now`. -/
structure Call.Sound (env : Env) (W : ℕ) (now : ℕ) (call : Call) : Prop where
  earlier : call.now ≤ now
  uniform : call.request.limited = true → env.windowSec call.request.route = W
  running : call.outcome = none → call.request.limited = true
  complete : call.request.limited = true → call.outcome = some .admitted →
    ∀ scope id, call.subject env scope = some id → scope.rank < call.passed

/-- More requests than the route allows have been made. -/
def Exceeded (env : Env) (calls : List Call) (call : Call) : Prop :=
  ∃ scope id, call.subject env scope = some id ∧
    env.max call.request.route scope < made env scope id (call.window env) calls

structure Sound (env : Env) (W : ℕ) (s : State) : Prop where
  calls : ∀ call ∈ s.calls, call.Sound env W s.clock
  counters : ∀ scope id w, Counter (windowEnd W w) (hits env scope id w s.calls)
    (s.counters (rateLimitKey scope id w))
  deadlines : ∀ key, ∀ cell ∈ s.counters key, cell.deadline ≠ none
  quota : ∀ scope id w route, passes env scope id w route s.calls ≤ ⌊env.max route scope⌋₊
  refused : ∀ call ∈ s.calls, ∀ r, call.outcome = some (.refused r) → Exceeded env s.calls call

theorem Call.Sound.later {now now' : ℕ} (sound : call.Sound env W now) (later : now ≤ now') :
    call.Sound env W now' := { sound with earlier := sound.earlier.trans later }

/-- The next check of a call counts one more than the hits so far. -/
theorem Sound.hit (pos : 0 < W) (sound : Sound env W s) (known : s.calls[n]? = some call)
    (next : call.next env = some check) (timely : Timely env W s (.hit n)) :
    ∃ scope id key, scope.rank = call.passed ∧ call.Of env scope id (call.window env) ∧
      check.key = rateLimitKey scope id (call.window env) ∧ check.max = env.max call.request.route scope ∧
      RateLimit.hit (env.windowSec call.request.route) s.clock (s.counters check.key) =
        (key, some (hits env scope id (call.window env) s.calls + 1)) ∧
      Counter (windowEnd W (call.window env)) (hits env scope id (call.window env) s.calls + 1) key := by
  obtain ⟨running, scope, id, turn, subject, rfl⟩ := next_eq_some next
  have mine := sound.calls call (List.mem_of_getElem? known)
  have limited := mine.running running
  have uniform := mine.uniform limited
  have bounds := (window_bounds pos call.now).1
  have early : s.clock < windowEnd W (call.window env) := timely.1 call known
  have soon : windowEnd W (call.window env) ≤ s.clock + 1000 * W := by
    have earlier : (call.now : ℤ) ≤ s.clock := by exact_mod_cast mine.earlier
    rw [windowEnd, Call.window, uniform, add_mul, one_mul]
    omega
  obtain ⟨key, counted, counter⟩ :=
    (sound.counters scope id (call.window env)).hit pos (timely.2 n rfl) early soon
  rw [uniform]
  exact ⟨scope, id, key, turn, ⟨limited, subject, rfl⟩, rfl, rfl, counted, counter⟩

theorem Call.Sound.counted {now : ℕ} (sound : call.Sound env W now) (running : call.outcome = none) :
    (call.counted env check now (some count)).Sound env W now := by
  have limited := sound.running running
  unfold Call.counted
  dsimp only
  split_ifs with above last
  · exact { sound with running := fun none => (by cases none), complete := fun _ ended => (by cases ended) }
  · refine { sound with running := fun _ => limited, complete := fun _ _ scope id known => ?_ }
    show scope.rank < call.passed + 1
    rw [last]
    exact rank_lt_length (show call.subject env scope = some id from known)
  · exact { sound with running := fun _ => limited, complete := fun _ ended => (by cases ended) }

theorem call_not_refused (request : Request) (now : Instant) (r : ℚ) :
    (request.call now).outcome ≠ some (.refused r) := by
  change (if request.limited then none else some .admitted) ≠ some (Outcome.refused r)
  split_ifs <;> exact fun same => by cases same

theorem call_sound (request : Request) (now : ℕ) (uniform : request.limited = true →
    env.windowSec request.route = W) : (request.call now).Sound env W now := by
  have outcome : (request.call now).outcome = if request.limited then none else some .admitted := rfl
  refine ⟨le_rfl, uniform, fun running => ?_, fun limited ended => ?_⟩
  · change request.limited = true
    by_contra free
    rw [outcome, if_neg free] at running
    cases running
  · rw [outcome, if_pos (show request.limited = true from limited)] at ended
    cases ended

theorem Exceeded.mono {calls' : List Call} (exceeded : Exceeded env calls call)
    (more : ∀ scope id w, made env scope id w calls ≤ made env scope id w calls') :
    Exceeded env calls' call := by
  obtain ⟨scope, id, known, above⟩ := exceeded
  exact ⟨scope, id, known, above.trans_le (Nat.cast_le.2 (more _ _ _))⟩

/-- A new request has hit nothing yet. -/
theorem Sound.arrive (sound : Sound env W s) {request : Request}
    (uniform : request.limited = true → env.windowSec request.route = W) :
    Sound env W { s with calls := s.calls ++ [request.call s.clock] } := by
  have zero : (request.call s.clock).passed = 0 := rfl
  have idle (scope : Scope) : ¬ (request.call s.clock).Hit scope := by
    rintro (before | ⟨-, r, refused⟩)
    · cases before
    · exact call_not_refused request s.clock r refused
  have hits (scope : Scope) (id : String) (w : ℤ) : hits env scope id w (s.calls ++ [request.call s.clock]) =
      hits env scope id w s.calls := by
    simp [RateLimit.hits, idle]
  refine ⟨?_, fun scope id w => hits scope id w ▸ sound.counters scope id w, sound.deadlines,
    fun scope id w route => ?_, ?_⟩
  · rintro call mem
    rcases List.mem_append.1 mem with old | new
    · exact sound.calls call old
    · rw [List.mem_singleton.1 new]
      exact call_sound request s.clock uniform
  · have same : passes env scope id w route (s.calls ++ [request.call s.clock]) =
        passes env scope id w route s.calls := by simp [passes, zero]
    exact same ▸ sound.quota scope id w route
  · rintro call mem r refused
    rcases List.mem_append.1 mem with old | new
    · refine (sound.refused call old r refused).mono fun scope id w => ?_
      rw [made, made, List.countP_append]
      exact Nat.le_add_right _ _
    · rw [List.mem_singleton.1 new] at refused
      exact absurd refused (call_not_refused request s.clock r)

/-- A request that fails counts as before. -/
theorem Sound.fail (sound : Sound env W s) (known : s.calls[n]? = some call) (running : call.outcome = none) :
    Sound env W { s with calls := s.calls.set n { call with outcome := some .failed } } := by
  have mine := sound.calls call (List.mem_of_getElem? known)
  refine ⟨fun call' mem => ?_, fun scope id w => ?_, sound.deadlines, fun scope id w route => ?_,
    fun call' mem r refused => ?_⟩
  · rcases List.mem_or_eq_of_mem_set mem with old | rfl
    · exact sound.calls call' old
    · exact { mine with running := fun none => (by cases none), complete := fun _ ended => (by cases ended) }
  · rw [hits_failed known running]
    exact sound.counters scope id w
  · rw [passes_failed known]
    exact sound.quota scope id w route
  · rcases List.mem_or_eq_of_mem_set mem with old | rfl
    · refine (sound.refused call' old r refused).mono fun scope id w => ?_
      have same : made env scope id w (s.calls.set n { call with outcome := some .failed }) =
          made env scope id w s.calls := made_set known rfl rfl
      exact same.ge
    · cases refused

theorem over_of_refused {now : Instant} {r : ℚ}
    (refused : (call.counted env check now (some count)).outcome = some (.refused r)) :
    check.max < count := by
  unfold Call.counted at refused
  dsimp only at refused
  split_ifs at refused with above
  · exact above
  · exact absurd refused (fun same => by cases same)

theorem Call.Of.unique (of : call.Of env scope id w) (of' : call.Of env scope id' w') :
    id = id' ∧ w = w' :=
  ⟨Option.some.inj (of.2.1.symm.trans of'.2.1), of.2.2.symm.trans of'.2.2⟩

/-- A request that has not hit its counter yet is not among the hits. -/
theorem hits_lt_made (known : calls[n]? = some call) (running : call.outcome = none)
    (turn : scope.rank = call.passed) (of : call.Of env scope id w) :
    hits env scope id w calls + 1 ≤ made env scope id w calls := by
  have counted : hits env scope id w (calls.set n (call.counted env ⟨"", 0⟩ 0 (some 0))) =
      hits env scope id w calls + 1 := by
    rw [hits_counted known running turn, if_pos ⟨rfl, of⟩]
  rw [← counted, ← made_counted known]
  exact hits_le_made

/-- A check that is counted. -/
theorem Sound.counted (pos : 0 < W) (sound : Sound env W s) (known : s.calls[n]? = some call)
    (next : call.next env = some check) (timely : Timely env W s (.hit n)) {key : Expiring.Key ℕ}
    {result : Option ℕ} (hit : RateLimit.hit (env.windowSec call.request.route) s.clock
      (s.counters check.key) = (key, result)) :
    Sound env W { s with
      counters := Function.update s.counters check.key key
      calls := s.calls.set n (call.counted env check s.clock result) } := by
  obtain ⟨running, -⟩ := next_eq_some next
  obtain ⟨scope, id, key', turn, of, keyed, max, hit', counter⟩ := sound.hit pos known next timely
  obtain ⟨rfl, rfl⟩ := Prod.mk.inj (hit.symm.trans hit')
  have mine := sound.calls call (List.mem_of_getElem? known)
  refine ⟨fun call' mem => ?_, fun scope' id' w' => ?_, fun key' cell held => ?_,
    fun scope' id' w' route => ?_, fun call' mem r refused => ?_⟩
  · rcases List.mem_or_eq_of_mem_set mem with old | rfl
    · exact sound.calls call' old
    · exact mine.counted running
  · show Counter _ _ (Function.update s.counters check.key key (rateLimitKey scope' id' w'))
    rw [hits_counted known running turn, keyed]
    split_ifs with first
    · obtain ⟨rfl, of'⟩ := first
      obtain ⟨rfl, rfl⟩ := of'.unique of
      rw [Function.update_self]
      exact counter
    · rw [Function.update_of_ne, add_zero]
      · exact sound.counters scope' id' w'
      · rintro keys
        obtain ⟨rfl, rfl, rfl⟩ := rateLimitKey_inj keys
        exact first ⟨rfl, of⟩
  · change cell ∈ Function.update s.counters check.key key key' at held
    by_cases counted : key' = check.key
    · rw [counted, Function.update_self] at held
      cases counter with
      | counting late =>
        obtain rfl := Option.some.inj held
        exact fun none => by cases none
    · rw [Function.update_of_ne counted] at held
      exact sound.deadlines key' cell held
  · rw [passes_counted known turn]
    split_ifs with first
    · obtain ⟨rfl, of', rfl, within⟩ := first
      obtain ⟨rfl, rfl⟩ := of'.unique of
      rw [max] at within
      calc
        _ ≤ hits env scope' id' (call.window env) s.calls + 1 := Nat.add_le_add_right passes_le_hits 1
        _ ≤ _ := Nat.le_floor (not_lt.1 within)
    · exact sound.quota scope' id' w' route
  · rcases List.mem_or_eq_of_mem_set mem with old | rfl
    · exact (sound.refused call' old r refused).mono fun scope id w => (made_counted known).ge
    · have above := over_of_refused refused
      rw [max] at above
      obtain ⟨-, subject, window⟩ := (of_congr (counted_request call check s.clock _)
        (counted_now call check s.clock _)).2 of
      refine ⟨scope, id, subject, ?_⟩
      rw [counted_request, window, made_counted known]
      exact above.trans_le (Nat.cast_le.2 (hits_lt_made known running turn of))

theorem Sound.of_moves {a : Label} (pos : 0 < W) (sound : Sound env W s) (timely : Timely env W s a)
    (m : Moves env s a s') : Sound env W s' := by
  cases m with
  | advance d =>
    exact { sound with calls := fun call mem => (sound.calls call mem).later (Nat.le_add_right _ _) }
  | arrive request => exact sound.arrive timely.1
  | hit known next hit => exact sound.counted pos known next timely hit
  | fail known next => exact sound.fail known (next_eq_some next).1

theorem sound_of_start (start : (guarding env).start s) : Sound env W s := by
  obtain ⟨counters, calls⟩ := start
  have none : ∀ call, call ∉ s.calls := fun call => calls ▸ List.not_mem_nil
  refine ⟨fun call mem => absurd mem (none call), fun scope id w => ?_, fun key cell held => ?_,
    fun scope id w route => ?_, fun call mem => absurd mem (none call)⟩
  · rw [counters, calls]
    exact .absent
  · rw [counters] at held
    cases held
  · rw [calls]
    exact Nat.zero_le _

/-! ## Admissions and refusals -/

theorem admissions_le_passes (sound : Sound env W s) {route : Route} :
    admissions env scope id w route s.calls ≤ passes env scope id w route s.calls := by
  refine List.countP_mono_left fun call mem h => ?_
  simp only [decide_eq_true_eq] at h ⊢
  exact ⟨h.1, (sound.calls call mem).complete h.1.1.1 h.2 scope id h.1.1.2.1⟩

/-- In each window a route admits at most its maximum of requests of an IP, and of a user; every counter
has a deadline, and counts the hits until its window has ended; and a request is refused only when more
requests than its route allows have been made of its IP, or of its user. -/
theorem rate_limit (pos : 0 < W) (reachable : (guarding env).Reachable (Timely env W) s) :
    (∀ scope id w route, admissions env scope id w route s.calls ≤ ⌊env.max route scope⌋₊) ∧
    (∀ key, ∀ cell ∈ s.counters key, cell.deadline ≠ none) ∧
    (∀ scope id w, s.clock < windowEnd W w →
      (Expiring.read s.clock (s.counters (rateLimitKey scope id w))).getD 0 =
        hits env scope id w s.calls) ∧
    ∀ call ∈ s.calls, ∀ r, call.outcome = some (.refused r) →
      ∃ scope id, call.subject env scope = some id ∧
        env.max call.request.route scope < made env scope id (call.window env) s.calls := by
  obtain ⟨s₀, tr, start, run⟩ := reachable
  have sound : Sound env W s := run.invariant
    (fun s a s' sound timely next => sound.of_moves pos timely (moves_of_next next))
    (sound_of_start start)
  refine ⟨fun scope id w route => ?_, sound.deadlines, fun scope id w early => ?_, sound.refused⟩
  · exact (admissions_le_passes sound).trans (sound.quota scope id w route)
  · exact (sound.counters scope id w).read early

/-- An app with the default limits, whose tokens are the names of their users. -/
def defaultEnv : Env where
  rateLimitWindowSec := none
  rateLimitUserMax := none
  rateLimitIpMax := none
  verify token := some (some token)

/-- A request without a token to a route that admits one request of an IP. -/
def anonymous : Request where
  route := { handler := "login", skip := false, options := some ⟨none, some 1, none⟩ }
  method := "POST"
  ip := some "1.1.1.1"
  authorization := none

/-- A request of a user from the same IP to a route with the default limits. -/
def authenticated : Request where
  route := { handler := "createPost", skip := false, options := none }
  method := "POST"
  ip := some "1.1.1.1"
  authorization := some "Bearer u1"

/-- The check of `InTime`. -/
def inTime (env : Env) (W : ℕ) (s : State) : Label → Bool
  | .arrive request => env.windowSec request.route = W
  | .hit n => s.calls[n]?.all fun call => s.clock < windowEnd W (call.window env)
  | _ => true

theorem inTime_of_check {s : State} {a : Label} (h : inTime env W s a = true) : InTime env W s a := by
  cases a with
  | arrive request => exact fun _ => of_decide_eq_true h
  | hit n => exact fun call known => of_decide_eq_true ((Option.all_eq_true _ _).1 h call known)
  | advance | fail => trivial

/-- Two requests to a route that admits one, and one to another route, hit their counters in turn. -/
theorem rate_limit_one : ∃ s, (guarding defaultEnv).Reachable (Timely defaultEnv 60) s ∧
    s.calls.map (·.outcome) = [some .admitted, some (.refused 55), some .admitted] ∧
    admissions defaultEnv .ip "1.1.1.1" 0 anonymous.route s.calls ≤
      ⌊defaultEnv.max anonymous.route .ip⌋₊ ∧
    (Expiring.read s.clock (s.counters "ratelimit:user:u1:0")).getD 0 = 1 := by
  have computed : ((guarding defaultEnv).exec
      (fun s a => inTime defaultEnv 60 s a && decide (ExpireAccepts 60 s.clock))
      ⟨0, fun _ => none, []⟩ [.advance 5000, .arrive anonymous, .arrive anonymous, .hit 0,
        .arrive authenticated, .hit 1, .hit 2, .hit 2]).map
      (fun s => decide (
        s.calls.map (·.outcome) = [some .admitted, some (.refused 55), some .admitted] ∧
        s.clock < windowEnd 60 0 ∧ hits defaultEnv .user "u1" 0 s.calls = 1)) = some true := by
    decide +kernel
  obtain ⟨s, hs, facts⟩ := Option.map_eq_some_iff.1 computed
  obtain ⟨outcomes, early, counted⟩ := of_decide_eq_true facts
  have checked (s : State) (a : Label)
      (h : (inTime defaultEnv 60 s a && decide (ExpireAccepts 60 s.clock)) = true) :
      Timely defaultEnv 60 s a := by
    obtain ⟨early, accepts⟩ := Bool.and_eq_true_iff.1 h
    exact ⟨inTime_of_check early, fun _ _ => of_decide_eq_true accepts⟩
  have reachable := reachable_of_exec (M := guarding defaultEnv) ⟨rfl, rfl⟩ checked hs
  obtain ⟨admitted, -, counters, -⟩ := rate_limit (by decide) reachable
  exact ⟨s, reachable, outcomes, admitted .ip "1.1.1.1" 0 anonymous.route,
    (counters .user "u1" 0 early).trans counted⟩

/-- An app whose window is longer than `EXPIRE` takes. -/
def longEnv : Env where
  rateLimitWindowSec := some "10000000000000000"
  rateLimitUserMax := none
  rateLimitIpMax := none
  verify _ := none

/-- The first request fails and leaves a counter that never expires; the second one is counted on it. -/
theorem deadline_missing : ∃ s, (guarding longEnv).Reachable (InTime longEnv (10 ^ 16)) s ∧
    s.calls.map (·.outcome) = [some .failed, some .admitted] ∧
    s.counters "ratelimit:ip:1.1.1.1:0" = some { value := 2, deadline := none } := by
  have computed : ((guarding longEnv).exec (inTime longEnv (10 ^ 16)) ⟨0, fun _ => none, []⟩
      [.advance 5000, .arrive authenticated, .hit 0, .arrive authenticated, .hit 1]).map
      (fun s => decide (s.calls.map (·.outcome) = [some .failed, some .admitted] ∧
        s.counters "ratelimit:ip:1.1.1.1:0" = some { value := 2, deadline := none })) = some true := by
    decide +kernel
  obtain ⟨s, hs, facts⟩ := Option.map_eq_some_iff.1 computed
  obtain ⟨outcomes, counter⟩ := of_decide_eq_true facts
  exact ⟨s, reachable_of_exec (M := guarding longEnv) ⟨rfl, rfl⟩ (fun _ _ => inTime_of_check) hs,
    outcomes, counter⟩

end EstateServer.RateLimit
