import EstateServer.Auth.History
import EstateServer.Auth.TokenKinds
import Mathlib.Logic.Function.Basic

/-!
# Completing a Kakao signup

Any number of processes each serve one `CompleteKakaoSignup`.  The lookup of the account and the nested
`INSERT` of the user with its account are separate statements.  A request whose `INSERT` breaks a unique
constraint answers `EMAIL_IN_USE`, whether the email belongs to a stranger or to the signup of the same
Kakao identity that has just committed (`second_signup`).  No other exception of the database ends a
request here; `EstateServer.Auth.Accounts` adds those.

`complete_signup_iff`: the requests of one Kakao identity all end with a session of one user exactly in
the runs in which every nested `INSERT` finds the email and the Kakao identity unused.
-/

namespace EstateServer.Auth.KakaoSignup

open Machine

abbrev AccountId := ℕ
abbrev Pid := ℕ

inductive AuthProvider
  | kakao
  deriving DecidableEq, Repr

/-- A row of `Account`. -/
structure Account where
  id : AccountId
  userId : UserId
  provider : AuthProvider
  providerId : String
  deriving DecidableEq, Repr

/-- The columns of the unique constraint. -/
def Account.link (account : Account) : AuthProvider × String := (account.provider, account.providerId)

structure AccountTable where
  rows : List Account
  id_unique : Table.Unique Account.id rows
  link_unique : Table.Unique Account.link rows

/-! ## The queries -/

/-- `PrismaAccountRepository.findByProvider`. -/
def AccountTable.findByProvider (accounts : AccountTable) (provider : AuthProvider)
    (providerId : String) : Option Account :=
  accounts.rows.find? fun row => row.link = (provider, providerId)

/-- The `INSERT` of a user, which a unique constraint may refuse. -/
def insertUser (users : UserTable) (user : User) : Option UserTable :=
  let row : UserRow := { user with deletedAt := none }
  if h : row.id ∉ users.rows.map (·.id) ∧ row.email ∉ users.rows.map (·.email) then
    some
      { rows := users.rows ++ [row]
        id_unique := users.id_unique.concat h.1
        email_unique := users.email_unique.concat h.2 }
  else none

/-- The `INSERT` of an account, which a unique constraint may refuse. -/
def AccountTable.insert (accounts : AccountTable) (row : Account) : Option AccountTable :=
  if h : row.id ∉ accounts.rows.map Account.id ∧ row.link ∉ accounts.rows.map Account.link then
    some
      { rows := accounts.rows ++ [row]
        id_unique := accounts.id_unique.concat h.1
        link_unique := accounts.link_unique.concat h.2 }
  else none

/-- `saveWithAccount`: both rows or neither. -/
def saveWithAccount (users : UserTable) (accounts : AccountTable) (user : User)
    (link : AuthProvider × String) (accountId : AccountId) : Option (UserTable × AccountTable) :=
  match insertUser users user with
  | none => none
  | some users =>
    let account : Account :=
      { id := accountId, userId := user.id, provider := link.1, providerId := link.2 }
    (accounts.insert account).map fun accounts => (users, accounts)

section

variable {users users' : UserTable} {accounts accounts' : AccountTable} {account : Account}
  {user : User} {link : AuthProvider × String} {accountId : AccountId}

theorem AccountTable.findByProvider_eq_some {provider : AuthProvider} {providerId : String} :
    accounts.findByProvider provider providerId = some account ↔
      account ∈ accounts.rows ∧ account.link = (provider, providerId) :=
  accounts.link_unique.find?_iff

theorem AccountTable.insert_eq_some (h : accounts.insert account = some accounts') :
    (∀ other ∈ accounts.rows, other.link ≠ account.link) ∧
      accounts'.rows = accounts.rows ++ [account] := by
  simp only [insert, Option.dite_none_right_eq_some, Option.some.injEq] at h
  obtain ⟨unused, rfl⟩ := h
  exact ⟨fun other mem same => unused.2 (List.mem_map.2 ⟨other, mem, same⟩), rfl⟩

theorem AccountTable.insert_eq_none (new : account.id ∉ accounts.rows.map Account.id) :
    accounts.insert account = none ↔ ∃ other ∈ accounts.rows, other.link = account.link := by
  unfold insert
  rw [dite_eq_right_iff, ← List.mem_map]
  simp [new]

theorem insertUser_eq_some (h : insertUser users user = some users') :
    (∀ row ∈ users.rows, row.email ≠ user.email) ∧
      users'.rows = users.rows ++ [{ user with deletedAt := none }] := by
  simp only [insertUser, Option.dite_none_right_eq_some, Option.some.injEq] at h
  obtain ⟨unused, rfl⟩ := h
  exact ⟨fun row mem same => unused.2 (List.mem_map.2 ⟨row, mem, same⟩), rfl⟩

theorem insertUser_eq_none (new : user.id ∉ users.rows.map (·.id)) :
    insertUser users user = none ↔ ∃ row ∈ users.rows, row.email = user.email := by
  unfold insertUser
  rw [dite_eq_right_iff]
  simp [new]

theorem saveWithAccount_eq_some
    (h : saveWithAccount users accounts user link accountId = some (users', accounts')) :
    (∀ row ∈ users.rows, row.email ≠ user.email) ∧ (∀ other ∈ accounts.rows, other.link ≠ link) ∧
      users'.rows = users.rows ++ [{ user with deletedAt := none }] ∧
      accounts'.rows = accounts.rows ++ [⟨accountId, user.id, link.1, link.2⟩] := by
  unfold saveWithAccount at h
  split at h
  · cases h
  · obtain ⟨email, rows⟩ := insertUser_eq_some ‹_›
    obtain ⟨_, inserted, pair⟩ := Option.map_eq_some_iff.1 h
    obtain ⟨rfl, rfl⟩ := Prod.mk.inj pair
    obtain ⟨unlinked, rows'⟩ := AccountTable.insert_eq_some inserted
    exact ⟨email, unlinked, rows, rows'⟩

/-- With new ids, only the email and the link can break a constraint. -/
theorem saveWithAccount_eq_none (newUser : user.id ∉ users.rows.map (·.id))
    (newAccount : accountId ∉ accounts.rows.map Account.id)
    (h : saveWithAccount users accounts user link accountId = none) :
    (∃ row ∈ users.rows, row.email = user.email) ∨ ∃ other ∈ accounts.rows, other.link = link := by
  unfold saveWithAccount at h
  split at h
  · exact .inl ((insertUser_eq_none newUser).1 ‹_›)
  · exact .inr ((AccountTable.insert_eq_none newAccount).1 (Option.map_eq_none_iff.1 h))

end

/-! ## Requests -/

structure CompleteKakaoSignupInput where
  onboardingToken : Jwt
  role : Role
  deriving DecidableEq, Repr

/-- `ALLOWED`. -/
def allowed : List Role := [.owner, .tenant]

/-- The columns that the account of the payload would have. -/
def link (payload : OnboardingPayload) : AuthProvider × String := (.kakao, payload.providerId)

/-- The payload that `OnboardingTokenService.verify` reads off the claims. -/
def payloadOf (claims : Claims) : Option OnboardingPayload :=
  match claims.providerId, claims.email, claims.name with
  | some providerId, some email, some name => some { providerId, email, name }
  | _, _, _ => none

/-- How a request ends. -/
inductive Result
  | session (pair : TokenPair)
  | failed (failure : Failure)
  | aborted
  deriving DecidableEq, Repr

inductive Phase
  | idle
  /-- Before `findByProvider`. -/
  | verified (payload : OnboardingPayload) (role : Role)
  /-- Before `findById`. -/
  | linked (userId : UserId)
  /-- Before `saveWithAccount`. -/
  | unlinked (payload : OnboardingPayload) (role : Role)
  /-- Before `issue`. -/
  | issuing (user : User)
  | done (result : Result)
  deriving DecidableEq, Repr

/-- A failed check ends the request. -/
def Phase.fail (failure : Failure) : Phase := .done (.failed failure)

/-- The phase after the checks that read no table. -/
def CompleteKakaoSignupInput.start (jwt : JwtModule) (now : Instant)
    (input : CompleteKakaoSignupInput) : Phase :=
  if input.role ∉ allowed then .fail (.app .invalidRole)
  else
    match OnboardingTokenService.verify jwt now input.onboardingToken with
    | none => .fail (.app .invalidOnboarding)
    | some claims =>
      match payloadOf claims with
      | some payload => .verified payload input.role
      -- no token of this kind lacks a claim: Prisma would throw
      | none => .done .aborted

structure State where
  clock : Instant
  users : UserTable
  accounts : AccountTable
  tokens : RefreshTokenTable
  phase : Pid → Phase

/-- The process goes on to another phase. -/
def State.enter (s : State) (p : Pid) (phase : Phase) : State :=
  { s with phase := Function.update s.phase p phase }

/-- The random values of one step: the ids of a new user and of its account, and those of a session. -/
structure Draws where
  userId : UserId
  accountId : AccountId
  session : Draw

/-- The values are new. -/
def Draws.Fresh (env : Env) (draws : Draws) (s : State) : Prop :=
  draws.userId ∉ s.users.rows.map (·.id) ∧ draws.accountId ∉ s.accounts.rows.map Account.id ∧
    draws.session.Fresh env s.tokens

instance (env : Env) (draws : Draws) (s : State) : Decidable (draws.Fresh env s) :=
  inferInstanceAs (Decidable (_ ∧ _ ∧ _))

/-- A step of the process `p`. -/
def Phase.step (env : Env) (s : State) (p : Pid) (draws : Draws) : Phase → Option State
  | idle => none
  | verified payload role =>
    match s.accounts.findByProvider .kakao payload.providerId with
    | some existing => some (s.enter p (.linked existing.userId))
    | none => some (s.enter p (.unlinked payload role))
  | linked userId =>
    match s.users.findById (some userId) with
    | none => some (s.enter p (.fail (.app .userNotFound)))
    | some user => some (s.enter p (.issuing user))
  | unlinked payload role =>
    match User.createOAuth draws.userId payload.email payload.name role with
    | .error message => some (s.enter p (.fail (.domain message)))
    | .ok user =>
      match saveWithAccount s.users s.accounts user (link payload) draws.accountId with
      -- P2002, whichever constraint it is
      | none => some (s.enter p (.fail (.app .emailInUse)))
      | some (users, accounts) => some ({ s with users, accounts }.enter p (.issuing user))
  | issuing user =>
    match issue env s.clock draws.session user none s.tokens with
    | .error failure => some (s.enter p (.fail failure))
    | .ok (pair, tokens) => some ({ s with tokens }.enter p (.done (.session pair)))
  | done _ => none

inductive Label
  | advance (clock : Instant)
  | arrive (p : Pid) (input : CompleteKakaoSignupInput)
  | step (p : Pid) (draws : Draws)

/-- The state after a step. -/
def State.next (env : Env) (jwt : JwtModule) (s : State) : Label → Option State
  | .advance clock => if s.clock ≤ clock then some { s with clock } else none
  | .arrive p input =>
    if s.phase p = .idle then some (s.enter p (input.start jwt s.clock)) else none
  | .step p draws => if draws.Fresh env s then (s.phase p).step env s p draws else none

/-- The processes at work, with any tables. -/
def signups (env : Env) (jwt : JwtModule) : Machine State Label where
  start s := s.phase = fun _ => .idle
  next := State.next env jwt

/-! ## The statement -/

/-- The request carries a valid onboarding token of the Kakao identity, and an allowed role. -/
def Carries (jwt : JwtModule) (providerId email : String) (s : State) (a : Label) : Prop :=
  ∀ p input, a = .arrive p input → input.role ∈ allowed ∧ ∃ issuedAt name,
    input.onboardingToken = OnboardingTokenService.issue jwt issuedAt { providerId, email, name } ∧
    s.clock < issuedAt + OnboardingTokenService.ttlMs

/-- The user has the email and the account of the Kakao identity. -/
def Owner (providerId email : String) (s : State) (userId : UserId) : Prop :=
  (∃ row ∈ s.users.rows, row.id = userId ∧ row.email = email ∧ row.deletedAt = none) ∧
    ∃ account ∈ s.accounts.rows, account.link = (.kakao, providerId) ∧ account.userId = userId

/-- The session of a pair belongs to the user who has signed up. -/
def Session (env : Env) (providerId email : String) (s : State) (pair : TokenPair) : Prop :=
  Owner providerId email s pair.accessToken.sub ∧ ∃ token ∈ s.tokens.rows,
    token.tokenHash = env.hash pair.refreshToken ∧ token.userId = pair.accessToken.sub

/-- Neither the email nor the Kakao identity is in use. -/
def Unused (providerId email : String) (s : State) : Prop :=
  (∀ row ∈ s.users.rows, row.email ≠ email) ∧
    ∀ account ∈ s.accounts.rows, account.link ≠ (.kakao, providerId)

/-- The number of steps that a request at work still has to take, at most. -/
def Phase.left : Phase → ℕ
  | verified _ _ => 3
  | linked _ => 2
  | unlinked _ _ => 2
  | issuing _ => 1
  | _ => 0

/-- What idempotence comes to, in a state. -/
structure Idempotent (env : Env) (jwt : JwtModule) (providerId email : String) (s : State) : Prop where
  success : ∀ p result, s.phase p = .done result → ∃ pair, result = .session pair
  owner : ∀ p pair, s.phase p = .done (.session pair) → Session env providerId email s pair
  same : ∀ p q pair pair', s.phase p = .done (.session pair) → s.phase q = .done (.session pair') →
    pair.accessToken.sub = pair'.accessToken.sub
  one : ∀ p pair, s.phase p = .done (.session pair) →
    s.users.rows.countP (fun row => row.email = email) = 1 ∧
      s.accounts.rows.countP (fun account => account.link = (.kakao, providerId)) = 1
  /-- No user without its account. -/
  whole : ∀ row ∈ s.users.rows, row.email = email →
    ∃ account ∈ s.accounts.rows, account.link = (.kakao, providerId) ∧ account.userId = row.id
  /-- No request waits, and none goes on for ever. -/
  returns : ∀ p draws, 0 < (s.phase p).left → draws.Fresh env s →
    ∃ s', (signups env jwt).next s (.step p draws) = some s' ∧
      (s'.phase p).left < (s.phase p).left

/-- A nested `INSERT` gets a name and an email, and finds the email and the Kakao identity unused. -/
def Unclaimed (s : State) (a : Label) : Prop :=
  ∀ p draws payload role, a = .step p draws → s.phase p = .unlinked payload role →
    payload.email ≠ "" ∧ payload.name ≠ "" ∧ Unused payload.providerId payload.email s

/-! ## What a step does -/

variable {env : Env} {jwt : JwtModule} {s s' s₀ : State} {a : Label} {providerId email : String}
  {tr : List (Step State Label)}

/-- What the steps do, case by case. -/
inductive Moves (env : Env) (jwt : JwtModule) (s : State) : Label → State → Prop
  | advance {clock : Instant} : Moves env jwt s (.advance clock) { s with clock }
  | arrive {p : Pid} {input : CompleteKakaoSignupInput} :
      Moves env jwt s (.arrive p input) (s.enter p (input.start jwt s.clock))
  | linked {p : Pid} {draws : Draws} {payload : OnboardingPayload} {role : Role} {account : Account}
      (at_lookup : s.phase p = .verified payload role) (mem : account ∈ s.accounts.rows)
      (same : account.link = link payload) :
      Moves env jwt s (.step p draws) (s.enter p (.linked account.userId))
  | unlinked {p : Pid} {draws : Draws} {payload : OnboardingPayload} {role : Role}
      (at_lookup : s.phase p = .verified payload role) :
      Moves env jwt s (.step p draws) (s.enter p (.unlinked payload role))
  | found {p : Pid} {draws : Draws} {user : User} (at_user : s.phase p = .linked user.id) :
      Moves env jwt s (.step p draws) (s.enter p (.issuing user))
  | gone {p : Pid} {draws : Draws} {userId : UserId} (at_user : s.phase p = .linked userId)
      (missing : ∀ row ∈ s.users.rows, row.id = userId → row.deletedAt ≠ none) :
      Moves env jwt s (.step p draws) (s.enter p (.fail (.app .userNotFound)))
  | blank {p : Pid} {draws : Draws} {payload : OnboardingPayload} {role : Role} {message : String}
      (at_save : s.phase p = .unlinked payload role)
      (blank : payload.email = "" ∨ payload.name = "") :
      Moves env jwt s (.step p draws) (s.enter p (.fail (.domain message)))
  | clash {p : Pid} {draws : Draws} {payload : OnboardingPayload} {role : Role}
      (at_save : s.phase p = .unlinked payload role)
      (used : ¬ Unused payload.providerId payload.email s) :
      Moves env jwt s (.step p draws) (s.enter p (.fail (.app .emailInUse)))
  | saved {p : Pid} {draws : Draws} {payload : OnboardingPayload} {role : Role} {users : UserTable}
      {accounts : AccountTable} {user : User} (at_save : s.phase p = .unlinked payload role)
      (named : payload.email ≠ "" ∧ payload.name ≠ "")
      (unused : Unused payload.providerId payload.email s) (hemail : user.email = payload.email)
      (husers : users.rows = s.users.rows ++ [{ user with deletedAt := none }])
      (haccounts : accounts.rows = s.accounts.rows ++
        [⟨draws.accountId, user.id, .kakao, payload.providerId⟩]) :
      Moves env jwt s (.step p draws) ({ s with users, accounts }.enter p (.issuing user))
  | issued {p : Pid} {draws : Draws} {user : User} {tokens : RefreshTokenTable}
      (at_issue : s.phase p = .issuing user)
      (saved : s.tokens.save (issuedToken env s.clock draws.session user.id none) s.clock =
        some tokens) :
      Moves env jwt s (.step p draws) ({ s with tokens }.enter p (.done (.session
        (issuedPair draws.session user (issuedToken env s.clock draws.session user.id none)))))

theorem createOAuth_eq_ok {id : UserId} {name : String} {role : Role} {user : User}
    (h : User.createOAuth id email name role = .ok user) :
    email ≠ "" ∧ name ≠ "" ∧ user.id = id ∧ user.email = email := by
  simp only [User.createOAuth] at h
  split_ifs at h with noEmail noName
  rw [← Except.ok.inj h]
  exact ⟨noEmail, noName, rfl, rfl⟩

theorem createOAuth_eq_error {id : UserId} {name message : String} {role : Role}
    (h : User.createOAuth id email name role = .error message) : email = "" ∨ name = "" := by
  simp only [User.createOAuth] at h
  split_ifs at h with noEmail noName
  · exact .inl noEmail
  · exact .inr noName

theorem Moves.of_step {p : Pid} {draws : Draws} (fresh : draws.Fresh env s)
    (step : (s.phase p).step env s p draws = some s') : Moves env jwt s (.step p draws) s' := by
  generalize hphase : s.phase p = phase at step
  cases phase <;> simp only [Phase.step] at step
  case verified payload role =>
    split at step <;> rw [← Option.some.inj step]
    · obtain ⟨mem, same⟩ := AccountTable.findByProvider_eq_some.1 ‹_›
      exact .linked hphase mem same
    · exact .unlinked hphase
  case linked userId =>
    split at step <;> rw [← Option.some.inj step]
    · exact .gone hphase (UserTable.findById_eq_none.1 ‹_›)
    · obtain ⟨row, mem, rfl, alive, rfl⟩ := UserTable.findById_eq_some.1 ‹_›
      exact .found hphase
  case unlinked payload role =>
    split at step
    · rw [← Option.some.inj step]
      exact .blank hphase (createOAuth_eq_error ‹_›)
    · obtain ⟨email, name, hid, hemail⟩ := createOAuth_eq_ok ‹_›
      split at step <;> rw [← Option.some.inj step]
      · refine .clash hphase fun unused => ?_
        rcases saveWithAccount_eq_none (hid ▸ fresh.1) fresh.2.1 ‹_› with
          ⟨row, mem, same⟩ | ⟨_, mem, same⟩
        · exact unused.1 row mem (same.trans hemail)
        · exact unused.2 _ mem same
      · obtain ⟨freeEmail, freeLink, users, accounts⟩ := saveWithAccount_eq_some ‹_›
        exact .saved hphase ⟨email, name⟩ ⟨hemail ▸ freeEmail, freeLink⟩ hemail users accounts
  case issuing user =>
    have ⟨tokens, hsaved⟩ : ∃ tokens, s.tokens.save
        (issuedToken env s.clock draws.session user.id none) s.clock = some tokens :=
      Option.isSome_iff_exists.1 (by
        rw [RefreshTokenTable.save, dif_pos ⟨fresh.2.2.1, fresh.2.2.2.1⟩]
        rfl)
    simp only [issue, hsaved] at step
    rw [← Option.some.inj step]
    exact .issued hphase hsaved
  all_goals cases step

theorem Moves.of_next (next : (signups env jwt).next s a = some s') : Moves env jwt s a s' := by
  cases a with
  | advance clock =>
    simp only [signups, State.next] at next
    split_ifs at next
    rw [← Option.some.inj next]
    exact .advance
  | arrive p input =>
    simp only [signups, State.next] at next
    split_ifs at next
    rw [← Option.some.inj next]
    exact .arrive
  | step p draws =>
    simp only [signups, State.next] at next
    split_ifs at next with fresh
    exact .of_step fresh next

/-! ## What a phase knows -/

/-- No user and no account is lost. -/
structure Grows (s s' : State) : Prop where
  users : ∀ row ∈ s.users.rows, row ∈ s'.users.rows
  accounts : ∀ account ∈ s.accounts.rows, account ∈ s'.accounts.rows
  tokens : ∀ token ∈ s.tokens.rows, token ∈ s'.tokens.rows

theorem Moves.grows (moves : Moves env jwt s a s') : Grows s s' := by
  have refl : Grows s s := ⟨fun _ mem => mem, fun _ mem => mem, fun _ mem => mem⟩
  cases moves with
  | @saved _ _ _ _ users accounts _ _ _ _ _ husers haccounts =>
    refine ⟨fun row mem => ?_, fun account mem => ?_, fun _ mem => mem⟩
    · show row ∈ users.rows
      rw [husers]
      exact List.mem_append_left _ mem
    · show account ∈ accounts.rows
      rw [haccounts]
      exact List.mem_append_left _ mem
  | @issued _ _ _ tokens _ saved =>
    refine ⟨fun _ mem => mem, fun _ mem => mem, fun token mem => ?_⟩
    show token ∈ tokens.rows
    rw [RefreshTokenTable.save_eq_some saved]
    exact List.mem_append_left _ mem
  | _ => exact ⟨refl.1, refl.2, refl.3⟩

theorem Owner.mono {userId : UserId} (owner : Owner providerId email s userId) (grows : Grows s s') :
    Owner providerId email s' userId := by
  obtain ⟨⟨row, mem, hrow⟩, account, mem', haccount⟩ := owner
  exact ⟨⟨row, grows.users row mem, hrow⟩, account, grows.accounts account mem', haccount⟩

theorem Owner.unique {userId userId' : UserId} (owner : Owner providerId email s userId)
    (owner' : Owner providerId email s userId') : userId = userId' := by
  obtain ⟨⟨row, mem, rfl, hemail, -⟩, -⟩ := owner
  obtain ⟨⟨row', mem', rfl, hemail', -⟩, -⟩ := owner'
  rw [s.users.email_unique.eq_of_mem mem mem' (hemail.trans hemail'.symm)]

/-- What holds of the phase of a process, when no request has failed. -/
def Phase.Known (env : Env) (providerId email : String) (s : State) : Phase → Prop
  | idle => True
  | verified payload _ => payload.providerId = providerId ∧ payload.email = email
  | linked userId => Owner providerId email s userId
  | unlinked payload _ => payload.providerId = providerId ∧ payload.email = email
  | issuing user => Owner providerId email s user.id
  | done (.session pair) => Session env providerId email s pair
  | done _ => False

theorem Phase.Known.mono {phase : Phase} (known : phase.Known env providerId email s)
    (grows : Grows s s') : phase.Known env providerId email s' := by
  cases phase with
  | linked | issuing => exact Owner.mono known grows
  | done result =>
    cases result with
    | session pair =>
      obtain ⟨owner, token, mem, htoken⟩ := known
      exact ⟨owner.mono grows, token, grows.tokens token mem, htoken⟩
    | failed | aborted => exact known
  | _ => exact known

/-- What the users, the accounts and the phases have in common. -/
structure Sound (env : Env) (providerId email : String) (s : State) : Prop where
  signup : Unused providerId email s ∨ ∃ userId, Owner providerId email s userId
  known : ∀ p, (s.phase p).Known env providerId email s

theorem known_start {input : CompleteKakaoSignupInput} {p : Pid}
    (carries : Carries jwt providerId email s (.arrive p input)) :
    (input.start jwt s.clock).Known env providerId email s := by
  obtain ⟨role, issuedAt, name, token, valid⟩ := carries p input rfl
  rw [CompleteKakaoSignupInput.start, if_neg (not_not.2 role), token, verify_onboarding valid]
  exact ⟨rfl, rfl⟩

/-- The new rows of a signup. -/
theorem owner_saved {users : UserTable} {accounts : AccountTable} {user : User} {id : AccountId}
    (hemail : user.email = email)
    (husers : users.rows = s.users.rows ++ [{ user with deletedAt := none }])
    (haccounts : accounts.rows = s.accounts.rows ++ [⟨id, user.id, .kakao, providerId⟩]) :
    Owner providerId email { s with users, accounts } user.id := by
  refine ⟨⟨{ user with deletedAt := none }, ?_, rfl, hemail, rfl⟩,
    ⟨id, user.id, .kakao, providerId⟩, ?_, rfl, rfl⟩
  · show _ ∈ users.rows
    rw [husers]
    exact List.mem_concat_self
  · show _ ∈ accounts.rows
    rw [haccounts]
    exact List.mem_concat_self

/-- The account of the Kakao identity is that of its owner. -/
theorem Owner.of_account {userId : UserId} {account : Account}
    (owner : Owner providerId email s userId) (mem : account ∈ s.accounts.rows)
    (same : account.link = (.kakao, providerId)) : account.userId = userId := by
  obtain ⟨-, account', mem', same', rfl⟩ := owner
  rw [s.accounts.link_unique.eq_of_mem mem mem' (same.trans same'.symm)]

theorem Sound.of_moves (sound : Sound env providerId email s)
    (carries : Carries jwt providerId email s a) (unclaimed : Unclaimed s a)
    (moves : Moves env jwt s a s') : Sound env providerId email s' := by
  have grows := moves.grows
  have enters : ∀ q phase, phase.Known env providerId email s' → ∀ p,
      (Function.update s.phase q phase p).Known env providerId email s' :=
    fun _ _ known => (Function.forall_update_iff s.phase fun _ phase =>
      phase.Known env providerId email s').2 ⟨known, fun p _ => (sound.known p).mono grows⟩
  cases moves with
  | advance => exact ⟨sound.signup, fun p => (sound.known p).mono grows⟩
  | arrive => exact ⟨sound.signup, enters _ _ ((known_start carries).mono grows)⟩
  | @linked p draws payload role account at_lookup mem same =>
    have known := sound.known p
    rw [at_lookup] at known
    rw [KakaoSignup.link, known.1] at same
    refine ⟨sound.signup, enters _ _ ?_⟩
    rcases sound.signup with unused | ⟨userId, owner⟩
    · exact absurd same (unused.2 account mem)
    · exact (owner.of_account mem same ▸ owner).mono grows
  | @unlinked p draws payload role at_lookup =>
    have known := sound.known p
    rw [at_lookup] at known
    exact ⟨sound.signup, enters _ _ known⟩
  | @found p draws user at_user =>
    have known := sound.known p
    rw [at_user] at known
    exact ⟨sound.signup, enters _ _ (Owner.mono known grows)⟩
  | @gone p draws userId at_user missing =>
    have known := sound.known p
    rw [at_user] at known
    obtain ⟨⟨row, mem, hid, -, alive⟩, -⟩ := known
    exact absurd alive (missing row mem hid)
  | blank at_save blank =>
    obtain ⟨email, name, -⟩ := unclaimed _ _ _ _ rfl at_save
    exact absurd blank (not_or.2 ⟨email, name⟩)
  | clash at_save used => exact absurd (unclaimed _ _ _ _ rfl at_save).2.2 used
  | @saved p draws payload role users accounts user at_save named unused hemail husers haccounts =>
    have known := sound.known p
    rw [at_save] at known
    rw [known.1] at haccounts
    have owner : Owner providerId email { s with users, accounts } user.id :=
      owner_saved (hemail.trans known.2) husers haccounts
    exact ⟨.inr ⟨user.id, owner⟩, enters _ _ owner⟩
  | @issued p draws user tokens at_issue saved =>
    have known := sound.known p
    rw [at_issue] at known
    let row : RefreshTokenRow :=
      { issuedToken env s.clock draws.session user.id none with createdAt := s.clock }
    refine ⟨sound.signup, enters _ _ ⟨Owner.mono known grows, row, ?_, rfl, rfl⟩⟩
    show row ∈ tokens.rows
    rw [RefreshTokenTable.save_eq_some saved]
    exact List.mem_concat_self

/-! ## Requests return -/

theorem enter_self {p : Pid} {phase : Phase} : (s.enter p phase).phase p = phase :=
  Function.update_self ..

theorem Moves.left_lt {p : Pid} {draws : Draws} (moves : Moves env jwt s (.step p draws) s') :
    (s'.phase p).left < (s.phase p).left := by
  cases moves with
  | linked at_lookup | unlinked at_lookup =>
    rw [enter_self, at_lookup]
    exact Nat.lt_succ_self 2
  | found at_user | gone at_user =>
    rw [enter_self, at_user]
    simp [Phase.left, Phase.fail]
  | blank at_save | clash at_save | saved at_save =>
    rw [enter_self, at_save]
    simp [Phase.left, Phase.fail]
  | issued at_issue =>
    rw [enter_self, at_issue]
    exact Nat.one_pos

theorem Phase.step_isSome {phase : Phase} {p : Pid} {draws : Draws} (working : 0 < phase.left) :
    (phase.step env s p draws).isSome := by
  cases phase with
  | idle | done => cases working
  | unlinked payload role =>
    simp only [step]
    split
    · rfl
    · split <;> rfl
  | _ =>
    simp only [step]
    split <;> rfl

theorem returns {p : Pid} {draws : Draws} (working : 0 < (s.phase p).left)
    (fresh : draws.Fresh env s) : ∃ s', (signups env jwt).next s (.step p draws) = some s' ∧
      (s'.phase p).left < (s.phase p).left := by
  have enabled : ((s.phase p).step env s p draws).isSome := Phase.step_isSome working
  obtain ⟨s', step⟩ := Option.isSome_iff_exists.1 enabled
  have moves : Moves env jwt s (.step p draws) s' := .of_step fresh step
  exact ⟨s', (if_pos fresh).trans step, moves.left_lt⟩

/-! ## Runs -/

theorem Sound.idempotent (sound : Sound env providerId email s) :
    Idempotent env jwt providerId email s := by
  have session : ∀ p pair, s.phase p = .done (.session pair) →
      Session env providerId email s pair := by
    intro p pair answered
    have known := sound.known p
    rwa [answered] at known
  refine ⟨?_, session, ?_, ?_, ?_, fun p draws => returns⟩
  · intro p result answered
    have known := sound.known p
    rw [answered] at known
    cases result with
    | session pair => exact ⟨pair, rfl⟩
    | failed | aborted => exact known.elim
  · intro p q pair pair' first second
    exact (session p pair first).1.unique (session q pair' second).1
  · intro p pair answered
    obtain ⟨⟨⟨row, mem, -, rfl, -⟩, account, mem', same, -⟩, -⟩ := session p pair answered
    have users := s.users.email_unique.countP_key mem fun _ => true
    have accounts := s.accounts.link_unique.countP_key mem' fun _ => true
    rw [same] at accounts
    exact ⟨by simpa using users, by simpa using accounts⟩
  · intro row mem hemail
    rcases sound.signup with unused | ⟨userId, ⟨row', mem', rfl, hemail', -⟩, account⟩
    · exact absurd hemail (unused.1 row mem)
    · rw [s.users.email_unique.eq_of_mem mem mem' (hemail.trans hemail'.symm)]
      exact account

/-- A nested `INSERT` that ends no request with a failure is not in anybody's way. -/
theorem Moves.unclaimed (moves : Moves env jwt s a s')
    (success : ∀ p result, s'.phase p = .done result → ∃ pair, result = .session pair) :
    Unclaimed s a := by
  rintro p draws payload role rfl at_save
  cases moves with
  | linked h | unlinked h | found h | gone h | issued h =>
    rw [at_save] at h
    cases h
  | blank at_save' | clash at_save' =>
    obtain ⟨pair, answer⟩ := success p _ enter_self
    cases answer
  | saved at_save' named unused =>
    rw [at_save] at at_save'
    obtain ⟨rfl, rfl⟩ := Phase.unlinked.inj at_save'
    exact ⟨named.1, named.2, unused⟩

theorem sound_of_start (init : (signups env jwt).start s)
    (signup : Unused providerId email s ∨ ∃ userId, Owner providerId email s userId) :
    Sound env providerId email s := by
  refine ⟨signup, fun p => ?_⟩
  rw [show s.phase = fun _ => .idle from init]
  trivial

/-- The signups of one Kakao identity are idempotent exactly where every nested `INSERT` finds the
email and the identity unused. -/
theorem complete_signup_iff (init : (signups env jwt).start s₀)
    (signup : Unused providerId email s₀ ∨ ∃ userId, Owner providerId email s₀ userId)
    (run : (signups env jwt).Run (Carries jwt providerId email) s₀ tr s) :
    (∀ st ∈ tr, Unclaimed st.pre st.label) ↔
      ∀ st ∈ tr, Idempotent env jwt providerId email st.post := by
  constructor
  · intro unclaimed st mem
    have calm := run.restrict
      (D := fun s a => Carries jwt providerId email s a ∧ Unclaimed s a)
      fun st mem => ⟨run.meets_of_mem mem, unclaimed st mem⟩
    have sound : Sound env providerId email st.pre := calm.invariant_of_mem
      (fun _ _ _ h meets next => h.of_moves meets.1 meets.2 (.of_next next))
      (sound_of_start init signup) mem
    exact (sound.of_moves (run.meets_of_mem mem) (unclaimed st mem)
      (.of_next (run.next_of_mem mem))).idempotent
  · intro idempotent st mem
    exact (Moves.of_next (run.next_of_mem mem)).unclaimed (idempotent st mem).success

/-! ## Two requests of one user -/

def module : JwtModule := ⟨"secret", 15 * 60 * 1000⟩

/-- Nobody has signed up yet. -/
def nobody : State where
  clock := 0
  users := ⟨[], List.nodup_nil, List.nodup_nil⟩
  accounts := ⟨[], List.nodup_nil, List.nodup_nil⟩
  tokens := ⟨[], List.nodup_nil, List.nodup_nil⟩
  phase _ := .idle

theorem nobody_start : (signups taggedEnv module).start nobody := rfl

theorem nobody_unused : Unused "k1" "a@b.c" nobody :=
  ⟨fun _ mem => (List.not_mem_nil mem).elim, fun _ mem => (List.not_mem_nil mem).elim⟩

/-- The request of the user with the onboarding token of the Kakao identity `k1`. -/
def complete : CompleteKakaoSignupInput :=
  ⟨OnboardingTokenService.issue module 0 ⟨"k1", "a@b.c", "A"⟩, .tenant⟩

/-- Only `complete` arrives, while its token is valid. -/
def carried (s : State) : Label → Bool
  | .arrive _ input => input = complete ∧ s.clock < OnboardingTokenService.ttlMs
  | _ => true

/-- `Unclaimed`, computed. -/
def unclaimed (s : State) : Label → Bool
  | .step p _ =>
    match s.phase p with
    | .unlinked payload _ => payload.email ≠ "" ∧ payload.name ≠ "" ∧
        (∀ row ∈ s.users.rows, row.email ≠ payload.email) ∧
        ∀ account ∈ s.accounts.rows, account.link ≠ (.kakao, payload.providerId)
    | _ => true
  | _ => true

theorem carries_of_carried (s : State) (a : Label) (h : carried s a = true) :
    Carries module "k1" "a@b.c" s a := by
  rintro p input rfl
  obtain ⟨rfl, valid⟩ := of_decide_eq_true h
  exact ⟨by decide, 0, "A", rfl, by rwa [Nat.zero_add]⟩

theorem unclaimed_of_checked (s : State) (a : Label) (h : unclaimed s a = true) : Unclaimed s a := by
  rintro p draws payload role rfl at_save
  simp only [unclaimed, at_save, decide_eq_true_eq] at h
  exact h

/-- The next step of the process `p`, which draws `n`. -/
def turn (p : Pid) (n : ℕ) : Label := .step p ⟨n, n, n, toString n, n⟩

/-- The second request begins when the first has signed up. -/
theorem second_session : ∃ tr s, (signups taggedEnv module).Run Any nobody tr s ∧
    (∃ pair, s.phase 0 = .done (.session pair)) ∧ (∃ pair, s.phase 1 = .done (.session pair)) ∧
    ∀ st ∈ tr, Idempotent taggedEnv module "k1" "a@b.c" st.post := by
  have computed : ((signups taggedEnv module).exec (fun s a => carried s a && unclaimed s a) nobody
      [.arrive 0 complete, turn 0 1, turn 0 2, turn 0 3,
        .arrive 1 complete, turn 1 4, turn 1 5, turn 1 6]).map (fun s => (s.phase 0, s.phase 1)) =
      some (.done (.session ⟨⟨2, "a@b.c", .tenant, 3⟩, "3"⟩),
        .done (.session ⟨⟨2, "a@b.c", .tenant, 6⟩, "6"⟩)) := by
    decide
  obtain ⟨s, reached, seen⟩ := Option.map_eq_some_iff.1 computed
  obtain ⟨tr, run, -⟩ := exists_run_of_exec
    (C := fun s a => Carries module "k1" "a@b.c" s a ∧ Unclaimed s a) (fun s a h =>
      ⟨carries_of_carried s a (Bool.and_eq_true_iff.1 h).1,
        unclaimed_of_checked s a (Bool.and_eq_true_iff.1 h).2⟩) reached
  obtain ⟨first, second⟩ := Prod.mk.inj seen
  exact ⟨tr, s, run.mono fun _ _ _ => trivial, ⟨_, first⟩, ⟨_, second⟩,
    (complete_signup_iff nobody_start (.inl nobody_unused) (run.mono fun _ _ h => h.1)).1
      fun _ mem => (run.meets_of_mem mem).2⟩

/-- Both requests look for the account before either has created it: the second is told that the email
of its own user is in use. -/
theorem second_signup : ∃ tr s, (signups taggedEnv module).start nobody ∧
    Unused "k1" "a@b.c" nobody ∧
    (signups taggedEnv module).Run (Carries module "k1" "a@b.c") nobody tr s ∧
    s.phase 0 = .done (.session ⟨⟨3, "a@b.c", .tenant, 5⟩, "5"⟩) ∧
    s.phase 1 = .done (.failed (.app .emailInUse)) := by
  have computed : ((signups taggedEnv module).exec carried nobody
      [.arrive 0 complete, turn 0 1, .arrive 1 complete, turn 1 2, turn 0 3, turn 1 4, turn 0 5]).map
      (fun s => (s.phase 0, s.phase 1)) =
      some (.done (.session ⟨⟨3, "a@b.c", .tenant, 5⟩, "5"⟩), .done (.failed (.app .emailInUse))) := by
    decide
  obtain ⟨s, reached, seen⟩ := Option.map_eq_some_iff.1 computed
  obtain ⟨tr, run, -⟩ := exists_run_of_exec carries_of_carried reached
  obtain ⟨first, second⟩ := Prod.mk.inj seen
  exact ⟨tr, s, nobody_start, nobody_unused, run, first, second⟩

end EstateServer.Auth.KakaoSignup
