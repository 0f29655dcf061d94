import EstateServer.Auth.KakaoResilience
import EstateServer.Auth.KakaoSignup
import EstateServer.Auth.UserRow
import EstateServer.Library.Log

/-!
# Accounts and sessions at work together

Any number of processes serve the requests of the auth context on one database: `SignUp` and
`KakaoLogin` (here), `CompleteKakaoSignup` (`EstateServer.Auth.KakaoSignup`) and the requests of
`EstateServer.Auth.Interleaving`.  A step of any of them is a step of `accounts`; each of the three
groups numbers its own processes.  Who asks for a session has an access token with a `sub`.

`Moves` lists the steps with what they check and do, and `event` is what a step adds to the log.
-/

namespace EstateServer.Auth

/-- `User.create`: a user with a password, or the message of the `DomainError`. -/
def User.create (id : UserId) (email name passwordHash : String) (role : Option Role) :
    Except String User :=
  if email = "" then .error "이메일은 필수입니다."
  else if name = "" then .error "이름은 필수입니다."
  else .ok { id, email, name, passwordHash, role := role.getD .tenant }

theorem User.create_eq_ok {id : UserId} {email name passwordHash : String} {role : Option Role}
    {user : User} (h : User.create id email name passwordHash role = .ok user) :
    user = ⟨id, email, name, some passwordHash, role.getD .tenant⟩ := by
  simp only [User.create] at h
  split_ifs at h
  exact (Except.ok.inj h).symm

theorem User.createOAuth_eq_ok {id : UserId} {email name : String} {role : Role} {user : User}
    (h : User.createOAuth id email name role = .ok user) : user = ⟨id, email, name, none, role⟩ := by
  simp only [User.createOAuth] at h
  split_ifs at h
  exact (Except.ok.inj h).symm

namespace Accounts

open Machine
open KakaoSignup (Account AccountTable AuthProvider CompleteKakaoSignupInput Draws)
open KakaoResilience (KakaoProfile Thrown)

structure SignUpInput where
  email : String
  name : String
  password : String
  role : Option Role
  deriving DecidableEq, Repr

/-- `AuthError.KAKAO_EMAIL_REQUIRED`. -/
def kakaoEmailRequired : AppErrorSpec :=
  ⟨"AUTH_KAKAO_EMAIL_REQUIRED", 400, "카카오 이메일 제공 동의가 필요합니다."⟩

/-- `passwordHash` is what `PasswordHasher.hash` makes of the password, and `answer` what
`KakaoOAuth.exchangeAndFetch` makes of the code. -/
inductive Request
  | signUp (input : SignUpInput) (passwordHash : String)
  | kakaoLogin (answer : Except Thrown KakaoProfile)

/-- How a request ends. -/
inductive Result
  | created (user : User)
  | session (pair : TokenPair)
  | onboarding (token : Jwt)
  | failed (failure : Failure)
  /-- An exception of `KakaoOAuth`, or `KAKAO_EMAIL_REQUIRED`. -/
  | kakao (thrown : Thrown)
  /-- An exception of the database, or the end of the process. -/
  | aborted
  deriving DecidableEq, Repr

inductive Phase
  | idle
  /-- Before `findByEmail`. -/
  | signUp (input : SignUpInput) (passwordHash : String)
  /-- Before `save`. -/
  | unknown (input : SignUpInput) (passwordHash : String)
  /-- Before `findByProvider`. -/
  | exchanged (payload : OnboardingPayload)
  /-- Before `findById`. -/
  | linked (userId : UserId)
  /-- Before `issue`. -/
  | issuing (user : User)
  /-- After the insert of the user, before the answer. -/
  | saved (user : User)
  /-- After the insert of the session, before the answer. -/
  | issued (pair : TokenPair)
  | done (result : Result)
  deriving DecidableEq, Repr

/-- A failed check ends the request. -/
def Phase.fail (failure : Failure) : Phase := .done (.failed failure)

/-- `ALLOWED_SELF_SIGNUP_ROLES`. -/
def allowedSelfSignupRoles : List Role := [.owner, .tenant]

/-- The first phase of a request. -/
def Request.start : Request → Phase
  | signUp input passwordHash =>
    if input.role.any (· ∉ allowedSelfSignupRoles) then .fail (.app .invalidRole)
    else .signUp input passwordHash
  | kakaoLogin (.error thrown) => .done (.kakao thrown)
  | kakaoLogin (.ok profile) =>
    match Js.truthy profile.email with
    | none => .done (.kakao (.app kakaoEmailRequired))
    | some email => .exchanged { providerId := profile.providerId, email, name := profile.name }

structure State where
  sessions : Auth.State
  accounts : AccountTable
  /-- The processes of `CompleteKakaoSignup`. -/
  completion : Pid → KakaoSignup.Phase
  phase : Pid → Phase

namespace State

def users (s : State) : UserTable := s.sessions.users

def tokens (s : State) : RefreshTokenTable := s.sessions.tokens

def clock (s : State) : Instant := s.sessions.clock

/-- What `CompleteKakaoSignup` sees of the state. -/
def signups (s : State) : KakaoSignup.State where
  clock := s.clock
  users := s.users
  accounts := s.accounts
  tokens := s.tokens
  phase := s.completion

/-- The state after a step of a `CompleteKakaoSignup`. -/
def withSignups (s : State) (t : KakaoSignup.State) : State :=
  { s with
    sessions.users := t.users
    sessions.tokens := t.tokens
    accounts := t.accounts
    completion := t.phase }

/-- The process goes on to another phase. -/
def enter (s : State) (p : Pid) (phase : Phase) : State :=
  { s with phase := Function.update s.phase p phase }

end State

/-- A step of the process `p`. -/
def Phase.step (env : Env) (jwt : JwtModule) (s : State) (p : Pid) (draws : Draws) :
    Phase → Option State
  | idle => none
  | signUp input passwordHash =>
    match s.users.findByEmail input.email with
    | some _ => some (s.enter p (.fail (.app .emailInUse)))
    | none => some (s.enter p (.unknown input passwordHash))
  | unknown input passwordHash =>
    match User.create draws.userId input.email input.name passwordHash input.role with
    | .error message => some (s.enter p (.fail (.domain message)))
    | .ok user =>
      match KakaoSignup.insertUser s.users user with
      -- P2002
      | none => some (s.enter p (.fail (.app .emailInUse)))
      | some users => some ({ s with sessions.users := users }.enter p (.saved user))
  | exchanged payload =>
    match s.accounts.findByProvider .kakao payload.providerId with
    | some account => some (s.enter p (.linked account.userId))
    | none =>
      some (s.enter p (.done (.onboarding (OnboardingTokenService.issue jwt s.clock payload))))
  | linked userId =>
    match s.users.findById (some userId) with
    | none => some (s.enter p (.fail (.app .userNotFound)))
    | some user => some (s.enter p (.issuing user))
  | issuing user =>
    match issue env s.clock draws.session user none s.tokens with
    | .error failure => some (s.enter p (.fail failure))
    | .ok (pair, tokens) => some ({ s with sessions.tokens := tokens }.enter p (.issued pair))
  | saved user => some (s.enter p (.done (.created user)))
  | issued pair => some (s.enter p (.done (.session pair)))
  | done _ => none

inductive Label
  | session (a : Auth.Label)
  | complete (a : KakaoSignup.Label)
  /-- An exception of the database ends a `CompleteKakaoSignup`. -/
  | failComplete (p : Pid)
  | arrive (p : Pid) (request : Request)
  | step (p : Pid) (draws : Draws)
  /-- An exception of the database ends a `SignUp` or a `KakaoLogin`. -/
  | fail (p : Pid)

/-- The clock is that of the sessions. -/
def timeless : KakaoSignup.Label → Bool
  | .advance _ => false
  | _ => true

/-- The state after a step. -/
def State.next (env : Env) (jwt : JwtModule) (s : State) : Label → Option State
  | .session a => ((Auth.sessions env).next s.sessions a).map fun sessions => { s with sessions }
  | .complete a =>
    if timeless a then ((KakaoSignup.signups env jwt).next s.signups a).map s.withSignups else none
  | .failComplete p =>
    match s.completion p with
    | .idle => none
    | .done _ => none
    | _ => some (s.withSignups (s.signups.enter p (.done .aborted)))
  | .arrive p request => if s.phase p = .idle then some (s.enter p request.start) else none
  | .step p draws => if draws.Fresh env s.signups then (s.phase p).step env jwt s p draws else none
  | .fail p =>
    match s.phase p with
    | .idle => none
    | .done _ => none
    | _ => some (s.enter p (.done .aborted))

/-- The requests of the auth context: any users and accounts, and no session yet. -/
def accounts (env : Env) (jwt : JwtModule) : Machine State Label where
  start s := (Auth.sessions env).start s.sessions ∧ (KakaoSignup.signups env jwt).start s.signups ∧
    s.phase = fun _ => .idle
  next := State.next env jwt

/-! ## The log -/

inductive Event
  | asked (p : Pid) (request : Auth.Request)
  | completes (p : Pid) (input : CompleteKakaoSignupInput)
  | began (p : Pid) (request : Request)
  /-- The `SignUp` of the process has inserted the user. -/
  | signedUp (p : Pid) (user : User)
  /-- The `CompleteKakaoSignup` of the process has inserted the user and its account. -/
  | linked (p : Pid) (user : User) (providerId : String)

/-- What a step adds to the log. -/
def event (st : Step State Label) : Option Event :=
  match st.label with
  | .session (.arrive p request) => some (.asked p request)
  | .complete (.arrive p input) => some (.completes p input)
  | .complete (.step p _) =>
    match st.pre.completion p, st.post.completion p with
    | .unlinked payload _, .issuing user => some (.linked p user payload.providerId)
    | _, _ => none
  | .arrive p request => some (.began p request)
  | .step p _ =>
    match st.post.phase p with
    | .saved user => some (.signedUp p user)
    | _ => none
  | _ => none

section

variable (s : State) {p q : Pid} (phase : Phase)

@[simp] theorem enter_phase_self : (s.enter p phase).phase p = phase := by simp [State.enter]

theorem enter_phase_of_ne (h : q ≠ p) : (s.enter p phase).phase q = s.phase q := by
  simp [State.enter, h]

end

/-! ## What a step does -/

variable {env : Env} {jwt : JwtModule} {s s' : State} {a : Label}

/-- What the steps of `CompleteKakaoSignup` do. -/
inductive Completes (env : Env) (jwt : JwtModule) (s : KakaoSignup.State) :
    KakaoSignup.Label → KakaoSignup.State → Prop
  | arrive {p : Pid} {input : CompleteKakaoSignupInput} (idle : s.phase p = .idle) :
      Completes env jwt s (.arrive p input) (s.enter p (input.start jwt s.clock))
  | lookup {p : Pid} {draws : Draws} {payload : OnboardingPayload} {role : Role} {account : Account}
      (at_lookup : s.phase p = .verified payload role) (mem : account ∈ s.accounts.rows)
      (same : account.link = KakaoSignup.link payload) :
      Completes env jwt s (.step p draws) (s.enter p (.linked account.userId))
  | unlinked {p : Pid} {draws : Draws} {payload : OnboardingPayload} {role : Role}
      (at_lookup : s.phase p = .verified payload role) :
      Completes env jwt s (.step p draws) (s.enter p (.unlinked payload role))
  | found {p : Pid} {draws : Draws} {userId : UserId} {user : User}
      (at_user : s.phase p = .linked userId) (found : s.users.findById (some userId) = some user) :
      Completes env jwt s (.step p draws) (s.enter p (.issuing user))
  | failed {p : Pid} {draws : Draws} {failure : Failure}
      (at_check : (∃ userId, s.phase p = .linked userId) ∨
        ∃ payload role, s.phase p = .unlinked payload role) :
      Completes env jwt s (.step p draws) (s.enter p (.fail failure))
  | saved {p : Pid} {draws : Draws} {payload : OnboardingPayload} {role : Role} {user : User}
      {users : UserTable} {accounts : AccountTable} (at_save : s.phase p = .unlinked payload role)
      (created : User.createOAuth draws.userId payload.email payload.name role = .ok user)
      (saved : KakaoSignup.saveWithAccount s.users s.accounts user (KakaoSignup.link payload)
        draws.accountId = some (users, accounts)) :
      Completes env jwt s (.step p draws) ({ s with users, accounts }.enter p (.issuing user))
  | issued {p : Pid} {draws : Draws} {user : User} {tokens : RefreshTokenTable}
      (at_issue : s.phase p = .issuing user)
      (saved : s.tokens.save (issuedToken env s.clock draws.session user.id none) s.clock =
        some tokens) :
      Completes env jwt s (.step p draws) ({ s with tokens }.enter p (.done (.session
        (issuedPair draws.session user (issuedToken env s.clock draws.session user.id none)))))

/-- What the steps do, case by case. -/
inductive Moves (env : Env) (jwt : JwtModule) (s : State) : Label → State → Prop
  | session {a : Auth.Label} {sessions : Auth.State}
      (next : (Auth.sessions env).next s.sessions a = some sessions) :
      Moves env jwt s (.session a) { s with sessions }
  | complete {a : KakaoSignup.Label} {t : KakaoSignup.State}
      (move : Completes env jwt s.signups a t) : Moves env jwt s (.complete a) (s.withSignups t)
  | failComplete {p : Pid} (busy : ∀ result, s.completion p ≠ .done result) :
      Moves env jwt s (.failComplete p) (s.withSignups (s.signups.enter p (.done .aborted)))
  | arrive {p : Pid} {request : Request} (idle : s.phase p = .idle) :
      Moves env jwt s (.arrive p request) (s.enter p request.start)
  | inUse {p : Pid} {draws : Draws} {input : SignUpInput} {passwordHash : String}
      (at_check : s.phase p = .signUp input passwordHash ∨ s.phase p = .unknown input passwordHash)
      (used : input.email ∈ s.users.rows.map (·.email)) :
      Moves env jwt s (.step p draws) (s.enter p (.fail (.app .emailInUse)))
  | failed {p : Pid} {draws : Draws} {failure : Failure}
      (at_check : (∃ input passwordHash, s.phase p = .unknown input passwordHash) ∨
        ∃ userId, s.phase p = .linked userId)
      (other : failure ≠ .app .emailInUse) :
      Moves env jwt s (.step p draws) (s.enter p (.fail failure))
  | unknown {p : Pid} {draws : Draws} {input : SignUpInput} {passwordHash : String}
      (at_lookup : s.phase p = .signUp input passwordHash) :
      Moves env jwt s (.step p draws) (s.enter p (.unknown input passwordHash))
  | created {p : Pid} {draws : Draws} {input : SignUpInput} {passwordHash : String} {user : User}
      {users : UserTable} (at_save : s.phase p = .unknown input passwordHash)
      (user_eq : user =
        ⟨draws.userId, input.email, input.name, some passwordHash, input.role.getD .tenant⟩)
      (saved : KakaoSignup.insertUser s.users user = some users) :
      Moves env jwt s (.step p draws)
        ({ s with sessions.users := users }.enter p (.saved user))
  | linked {p : Pid} {draws : Draws} {payload : OnboardingPayload} {account : Account}
      (at_lookup : s.phase p = .exchanged payload) (mem : account ∈ s.accounts.rows)
      (same : account.link = KakaoSignup.link payload) :
      Moves env jwt s (.step p draws) (s.enter p (.linked account.userId))
  | onboarding {p : Pid} {draws : Draws} {payload : OnboardingPayload}
      (at_lookup : s.phase p = .exchanged payload) :
      Moves env jwt s (.step p draws)
        (s.enter p (.done (.onboarding (OnboardingTokenService.issue jwt s.clock payload))))
  | found {p : Pid} {draws : Draws} {userId : UserId} {user : User}
      (at_user : s.phase p = .linked userId) (found : s.users.findById (some userId) = some user) :
      Moves env jwt s (.step p draws) (s.enter p (.issuing user))
  | issued {p : Pid} {draws : Draws} {user : User} {tokens : RefreshTokenTable}
      (at_issue : s.phase p = .issuing user)
      (saved : s.tokens.save (issuedToken env s.clock draws.session user.id none) s.clock =
        some tokens) :
      Moves env jwt s (.step p draws) ({ s with sessions.tokens := tokens }.enter p (.issued
        (issuedPair draws.session user (issuedToken env s.clock draws.session user.id none))))
  | welcome {p : Pid} {draws : Draws} {user : User} (at_answer : s.phase p = .saved user) :
      Moves env jwt s (.step p draws) (s.enter p (.done (.created user)))
  | hand {p : Pid} {draws : Draws} {pair : TokenPair} (at_answer : s.phase p = .issued pair) :
      Moves env jwt s (.step p draws) (s.enter p (.done (.session pair)))
  | fail {p : Pid} (busy : ∀ result, s.phase p ≠ .done result) :
      Moves env jwt s (.fail p) (s.enter p (.done .aborted))

/-- New random values are saved. -/
theorem exists_save {tokens : RefreshTokenTable} {draw : Draw} {now : Instant} {userId : UserId}
    (fresh : draw.Fresh env tokens) :
    ∃ saved, tokens.save (issuedToken env now draw userId none) now = some saved := by
  refine Option.isSome_iff_exists.1 ?_
  rw [RefreshTokenTable.save, dif_pos ⟨fresh.1, fresh.2.1⟩]
  rfl

theorem Completes.of_step {s s' : KakaoSignup.State} {p : Pid} {draws : Draws}
    (fresh : draws.Fresh env s) (step : (s.phase p).step env s p draws = some s') :
    Completes env jwt s (.step p draws) s' := by
  generalize at_phase : s.phase p = phase at step
  cases phase with
  | idle => cases step
  | done => cases step
  | verified payload role =>
    simp only [KakaoSignup.Phase.step] at step
    split at step <;> obtain rfl := Option.some.inj step
    · obtain ⟨mem, same⟩ := KakaoSignup.AccountTable.findByProvider_eq_some.1 ‹_›
      exact .lookup at_phase mem same
    · exact .unlinked at_phase
  | linked userId =>
    simp only [KakaoSignup.Phase.step] at step
    split at step <;> obtain rfl := Option.some.inj step
    · exact .failed (.inl ⟨userId, at_phase⟩)
    · exact .found at_phase ‹_›
  | unlinked payload role =>
    simp only [KakaoSignup.Phase.step] at step
    split at step
    · obtain rfl := Option.some.inj step
      exact .failed (.inr ⟨payload, role, at_phase⟩)
    · rename_i user created
      split at step <;> obtain rfl := Option.some.inj step
      · exact .failed (.inr ⟨payload, role, at_phase⟩)
      · exact .saved at_phase created ‹_›
  | issuing user =>
    obtain ⟨tokens, saved⟩ : ∃ tokens, s.tokens.save
        (issuedToken env s.clock draws.session user.id none) s.clock = some tokens :=
      exists_save fresh.2.2
    simp only [KakaoSignup.Phase.step, issue, saved] at step
    obtain rfl := Option.some.inj step
    exact .issued at_phase saved

theorem Completes.of_next {s s' : KakaoSignup.State} {a : KakaoSignup.Label} (own : timeless a = true)
    (next : (KakaoSignup.signups env jwt).next s a = some s') : Completes env jwt s a s' := by
  cases a with
  | advance => cases own
  | arrive p input =>
    obtain ⟨idle, next⟩ := Option.ite_none_right_eq_some.1 next
    obtain rfl := Option.some.inj next
    exact .arrive idle
  | step p draws =>
    obtain ⟨fresh, step⟩ := Option.ite_none_right_eq_some.1 next
    exact .of_step fresh step

namespace Moves

theorem of_step {p : Pid} {draws : Draws} (fresh : draws.Fresh env s.signups)
    (step : (s.phase p).step env jwt s p draws = some s') : Moves env jwt s (.step p draws) s' := by
  generalize at_phase : s.phase p = phase at step
  cases phase with
  | idle => cases step
  | done => cases step
  | signUp input passwordHash =>
    simp only [Phase.step] at step
    split at step <;> obtain rfl := Option.some.inj step
    · rename_i user found
      obtain ⟨row, hit, -⟩ := Option.map_eq_some_iff.1 found
      obtain ⟨same, -⟩ : row.email = input.email ∧ row.deletedAt = none := by
        simpa using List.find?_some hit
      exact .inUse (.inl at_phase) (List.mem_map.2 ⟨row, List.mem_of_find?_eq_some hit, same⟩)
    · exact .unknown at_phase
  | unknown input passwordHash =>
    simp only [Phase.step] at step
    split at step
    · obtain rfl := Option.some.inj step
      exact .failed (.inl ⟨input, passwordHash, at_phase⟩) Failure.noConfusion
    · rename_i user created
      obtain rfl := User.create_eq_ok created
      split at step <;> obtain rfl := Option.some.inj step
      · rename_i refused
        obtain ⟨row, mem, same⟩ := (KakaoSignup.insertUser_eq_none fresh.1).1 refused
        exact .inUse (.inr at_phase) (List.mem_map.2 ⟨row, mem, same⟩)
      · exact .created at_phase rfl ‹_›
  | exchanged payload =>
    simp only [Phase.step] at step
    split at step <;> obtain rfl := Option.some.inj step
    · obtain ⟨mem, same⟩ := KakaoSignup.AccountTable.findByProvider_eq_some.1 ‹_›
      exact .linked at_phase mem same
    · exact .onboarding at_phase
  | linked userId =>
    simp only [Phase.step] at step
    split at step <;> obtain rfl := Option.some.inj step
    · exact .failed (.inr ⟨userId, at_phase⟩) fun same => AuthError.noConfusion (Failure.app.inj same)
    · exact .found at_phase ‹_›
  | issuing user =>
    obtain ⟨tokens, saved⟩ : ∃ tokens, s.tokens.save
        (issuedToken env s.clock draws.session user.id none) s.clock = some tokens :=
      exists_save fresh.2.2
    simp only [Phase.step, issue, saved] at step
    obtain rfl := Option.some.inj step
    exact .issued at_phase saved
  | saved user =>
    obtain rfl := Option.some.inj step
    exact .welcome at_phase
  | issued pair =>
    obtain rfl := Option.some.inj step
    exact .hand at_phase

theorem of_next (next : (accounts env jwt).next s a = some s') : Moves env jwt s a s' := by
  cases a with
  | session a =>
    obtain ⟨sessions, move, rfl⟩ := Option.map_eq_some_iff.1 next
    exact .session move
  | complete a =>
    obtain ⟨own, next⟩ := Option.ite_none_right_eq_some.1 next
    obtain ⟨t, move, rfl⟩ := Option.map_eq_some_iff.1 next
    exact .complete (.of_next own move)
  | failComplete p =>
    simp only [accounts, State.next] at next
    split at next
    · cases next
    · cases next
    · rename_i busy
      obtain rfl := Option.some.inj next
      exact .failComplete busy
  | arrive p request =>
    obtain ⟨idle, next⟩ := Option.ite_none_right_eq_some.1 next
    obtain rfl := Option.some.inj next
    exact .arrive idle
  | step p draws =>
    obtain ⟨fresh, step⟩ := Option.ite_none_right_eq_some.1 next
    exact .of_step fresh step
  | fail p =>
    simp only [accounts, State.next] at next
    split at next
    · cases next
    · cases next
    · rename_i busy
      obtain rfl := Option.some.inj next
      exact .fail busy

end Moves

end Accounts

end EstateServer.Auth
