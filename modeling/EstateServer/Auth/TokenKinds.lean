import EstateServer.Auth.UseCases

/-!
# Access tokens and onboarding tokens

Both kinds of token are signed with the secret of the one `JwtModule`.  `OnboardingTokenService.verify`
looks at the claim `typ`; `JwtStrategy.validate` looks at no claim.

A protected route is served with the claims of whatever token the guard lets in.  An onboarding token
has no `sub`, so the user id that reaches the repositories is `undefined`, by which Prisma does not
filter: `Touches` is what a request then reads or changes.  How long a password is to the `MinLength` of
class-validator, `minLength`, is a parameter.
-/

namespace EstateServer.Auth

/-! ## Tokens -/

/-- The claims of a token; a claim that it does not carry is `none` (`undefined`). -/
structure Claims where
  sub : Option UserId := none
  email : Option String := none
  role : Option Role := none
  fam : Option FamilyId := none
  providerId : Option String := none
  name : Option String := none
  typ : Option String := none
  deriving DecidableEq, Repr

/-- A signed token. -/
structure Jwt where
  secret : String
  claims : Claims
  exp : Instant
  deriving DecidableEq, Repr

/-- The ideal `verify`: the claims of the unexpired tokens signed with the secret. -/
def Jwt.verify (secret : String) (now : Instant) (token : Jwt) : Option Claims :=
  if token.secret = secret ∧ now < token.exp then some token.claims else none

/-- The options of `JwtModule`. -/
structure JwtModule where
  secret : String
  /-- `JWT_EXPIRES_IN`, in milliseconds. -/
  expiresIn : ℕ

/-- `JwtTokenService.issue`. -/
def JwtTokenService.issue (jwt : JwtModule) (now : Instant) (payload : TokenPayload) : Jwt :=
  { secret := jwt.secret
    claims := { sub := payload.sub, email := payload.email, role := payload.role, fam := payload.fam }
    exp := now + jwt.expiresIn }

structure OnboardingPayload where
  providerId : String
  email : String
  name : String
  deriving DecidableEq, Repr

namespace OnboardingTokenService

/-- `TYP`. -/
def typ : String := "kakao_onboarding"

/-- `expiresIn: '10m'`. -/
def ttlMs : ℕ := 10 * 60 * 1000

def issue (jwt : JwtModule) (now : Instant) (payload : OnboardingPayload) : Jwt :=
  { secret := jwt.secret
    claims :=
      { providerId := payload.providerId, email := payload.email, name := payload.name, typ := typ }
    exp := now + ttlMs }

/-- `verify`; `none` is a throw. -/
def verify (jwt : JwtModule) (now : Instant) (token : Jwt) : Option Claims :=
  match token.verify jwt.secret now with
  | none => none
  | some decoded =>
    if decoded.typ ≠ some typ then none
    else
      some { providerId := decoded.providerId, email := decoded.email, name := decoded.name }

end OnboardingTokenService

/-- `JwtStrategy.validate`. -/
def JwtStrategy.validate (payload : Claims) : Claims := payload

/-- `JwtAuthGuard`: the user of the request, or `none` for a 401. -/
def JwtAuthGuard.user (jwt : JwtModule) (now : Instant) (token : Jwt) : Option Claims :=
  (token.verify jwt.secret now).map JwtStrategy.validate

/-! ## Protected routes -/

/-- The routes of `AuthController` behind `JwtAuthGuard`, with their bodies; `newHash` is what
`PasswordHasher.hash` makes of the new password. -/
inductive Route
  | me
  | profile
  | editProfile (name : String)
  | editPassword (currentPassword newPassword newHash : String)
  | logoutAll
  | sessions
  | revokeSessionById (familyId : FamilyId)
  deriving DecidableEq, Repr

/-- The checks of `UpdateProfileDto` and `ChangePasswordDto`. -/
def Route.bodyValid (minLength : String → ℕ → Bool) : Route → Bool
  | editProfile name => name ≠ ""
  | editPassword currentPassword newPassword _ =>
    currentPassword ≠ "" ∧ newPassword ≠ "" ∧ minLength newPassword 8 = true
  | _ => true

inductive Response
  | me (id : Option UserId) (email : Option String) (role : Option Role)
  | profile (id : UserId) (email name : String) (role : Role)
  | ok
  | empty
  | sessions (views : List SessionView)
  | unauthorized
  | badRequest
  | failed (failure : Failure)
  deriving DecidableEq, Repr

section

variable (env : Env) (now : Instant) (user : Claims) (db : Db)

/-- The handler of a route: the response, and the tables afterwards. -/
def Route.handle : Route → Response × Db
  | me => (.me user.sub user.email user.role, db)
  | profile =>
    match getProfile db user.sub with
    | .error e => (.failed e, db)
    | .ok u => (.profile u.id u.email u.name u.role, db)
  | editProfile name =>
    match updateProfile db user.sub name with
    | (.error e, db) => (.failed e, db)
    | (.ok u, db) => (.profile u.id u.email u.name u.role, db)
  | editPassword currentPassword _ newHash =>
    match changePassword env now db user.sub currentPassword newHash with
    | (.error e, db) => (.failed e, db)
    | (.ok _, db) => (.ok, db)
  | logoutAll => (.empty, Auth.logoutAll now db user.sub)
  | sessions => (.sessions (listSessions now db user.sub user.fam), db)
  | revokeSessionById familyId =>
    match revokeSession now db user.sub familyId with
    | (.error e, db) => (.failed e, db)
    | (.ok _, db) => (.empty, db)

/-- The rows of `User` that the handler's queries return. -/
def Route.usersRead : Route → List UserRow
  | profile => (db.users.findRow user.sub).toList
  | editProfile _ => (db.users.findRow user.sub).toList
  | editPassword _ _ _ => (db.users.findRow user.sub).toList
  | _ => []

/-- The rows of `RefreshToken` that the handler's queries return. -/
def Route.tokensRead : Route → List RefreshTokenRow
  | sessions => db.refreshTokens.findActive user.sub now
  | revokeSessionById familyId => (db.refreshTokens.findFamilyRow familyId).toList
  | _ => []

end

section

variable (minLength : String → ℕ → Bool) (env : Env) (jwt : JwtModule) (now : Instant) (token : Jwt)
  (db : Db) (route : Route)

/-- A request: the guard, the check of the body, the handler. -/
def serve : Response × Db :=
  match JwtAuthGuard.user jwt now token with
  | none => (.unauthorized, db)
  | some user =>
    if route.bodyValid minLength then route.handle env now user db else (.badRequest, db)

/-- The request reads or changes a row. -/
def Touches : Prop :=
  (∃ user, JwtAuthGuard.user jwt now token = some user ∧ route.bodyValid minLength = true ∧
    (route.usersRead user db ≠ [] ∨ route.tokensRead now user db ≠ [])) ∨
  (serve minLength env jwt now token db route).2.users.rows ≠ db.users.rows ∨
  (serve minLength env jwt now token db route).2.refreshTokens.rows ≠ db.refreshTokens.rows

end

/-- The tables hold a row for the route to act on when the user id does not filter. -/
def Route.Exposed (minLength : String → ℕ → Bool) (now : Instant) (db : Db) : Route → Prop
  | me => False
  | profile => ∃ row ∈ db.users.rows, row.deletedAt = none
  | editProfile name => name ≠ "" ∧ ∃ row ∈ db.users.rows, row.deletedAt = none
  | editPassword currentPassword newPassword _ =>
    (currentPassword ≠ "" ∧ newPassword ≠ "" ∧ minLength newPassword 8 = true) ∧
      ∃ row ∈ db.users.rows, row.deletedAt = none
  | logoutAll => ∃ row ∈ db.refreshTokens.rows, row.revokedAt = none
  | sessions => ∃ row ∈ db.refreshTokens.rows,
      row.usedAt = none ∧ row.revokedAt = none ∧ now < row.expiresAt
  | revokeSessionById familyId => ∃ row ∈ db.refreshTokens.rows, row.familyId = familyId

variable {minLength : String → ℕ → Bool} {env : Env} {jwt : JwtModule} {now issuedAt : Instant}
  {payload : OnboardingPayload}

/-! ## Which verifier takes which token -/

theorem guard_onboarding : JwtAuthGuard.user jwt now (OnboardingTokenService.issue jwt issuedAt payload) =
    if now < issuedAt + OnboardingTokenService.ttlMs then
      some { providerId := payload.providerId, email := payload.email, name := payload.name,
             typ := OnboardingTokenService.typ }
    else none := by
  simp only [JwtAuthGuard.user, Jwt.verify, OnboardingTokenService.issue, true_and]
  split_ifs <;> rfl

theorem guard_onboarding_eq_none :
    JwtAuthGuard.user jwt now (OnboardingTokenService.issue jwt issuedAt payload) = none ↔
      issuedAt + OnboardingTokenService.ttlMs ≤ now := by
  rw [guard_onboarding]
  split_ifs with h
  · simpa using h
  · simpa using h

/-- An access token has no `typ`. -/
theorem verify_access (payload : TokenPayload) :
    OnboardingTokenService.verify jwt now (JwtTokenService.issue jwt issuedAt payload) = none := by
  simp only [OnboardingTokenService.verify, Jwt.verify, JwtTokenService.issue, true_and]
  split_ifs <;> rfl

theorem verify_onboarding (h : now < issuedAt + OnboardingTokenService.ttlMs) :
    OnboardingTokenService.verify jwt now (OnboardingTokenService.issue jwt issuedAt payload) =
      some { providerId := payload.providerId, email := payload.email, name := payload.name } := by
  simp [OnboardingTokenService.verify, Jwt.verify, OnboardingTokenService.issue, h]

/-! ## What an onboarding token reaches -/

section

variable {db : Db} {user : Claims}

theorem findRow_none_ne_none :
    db.users.findRow none ≠ none ↔ ∃ row ∈ db.users.rows, row.deletedAt = none := by
  simp [UserTable.findRow]

theorem findActive_none_ne_nil : db.refreshTokens.findActive none now ≠ [] ↔
    ∃ row ∈ db.refreshTokens.rows,
      row.usedAt = none ∧ row.revokedAt = none ∧ now < row.expiresAt := by
  simp [RefreshTokenTable.findActive]

theorem findFamilyRow_ne_none {familyId : FamilyId} :
    db.refreshTokens.findFamilyRow familyId ≠ none ↔
      ∃ row ∈ db.refreshTokens.rows, row.familyId = familyId := by
  simp [RefreshTokenTable.findFamilyRow]

/-- A revocation changes the table exactly when an unrevoked row is in its scope. -/
theorem revoke_rows_ne {tokens : RefreshTokenTable} {scope : Scope} :
    (tokens.revoke scope now).1.rows ≠ tokens.rows ↔
      ∃ row ∈ tokens.rows, scope.covers row = true ∧ row.revokedAt = none := by
  constructor
  · intro changed
    by_contra none_hit
    refine changed (Table.updateMany_eq_self fun row hrow => ?_)
    exact decide_eq_false fun hit => none_hit ⟨row, hrow, hit⟩
  · rintro ⟨row, hrow, covered, unrevoked⟩ same
    -- an unchanged list has the row itself at the place of the row
    have revoked := List.map_eq_map_iff.1 (same.trans (List.map_id _).symm) row hrow
    rw [if_pos (decide_eq_true ⟨covered, unrevoked⟩)] at revoked
    have set : some now = row.revokedAt := congrArg (·.revokedAt) revoked
    rw [unrevoked] at set
    cases set

theorem revokeSession_undefined (familyId : FamilyId) :
    revokeSession now db none familyId = (.error (.app .notSessionOwner), db) := by
  unfold revokeSession
  rcases db.refreshTokens.findFamilyOwner familyId with _ | owner
  · rfl
  · rfl

theorem updateProfile_of_gone (gone : db.users.findRow none = none) (name : String) :
    updateProfile db none name = (.error (.app .userNotFound), db) := by
  simp only [updateProfile, UserTable.findById, gone, Option.map_none]

theorem changePassword_of_gone (gone : db.users.findRow none = none)
    (currentPassword newHash : String) :
    changePassword env now db none currentPassword newHash = (.error (.app .userNotFound), db) := by
  simp only [changePassword, verifyPassword, UserTable.findById, gone, Option.map_none]

/-- For a handler that changes nothing unless it has found a user, what counts is what it reads. -/
theorem touches_iff_reads {token : Jwt} {route : Route}
    (passes : JwtAuthGuard.user jwt now token = some user)
    (quiet : route.usersRead user db = [] → (route.handle env now user db).2 = db) :
    Touches minLength env jwt now token db route ↔ route.bodyValid minLength = true ∧
      (route.usersRead user db ≠ [] ∨ route.tokensRead now user db ≠ []) := by
  simp only [Touches, serve, passes, Option.some.injEq, exists_eq_left']
  by_cases valid : route.bodyValid minLength = true
  · simp only [valid, if_true, true_and]
    by_cases none_read : route.usersRead user db = []
    · simp only [quiet none_read, none_read, ne_eq, not_true_eq_false, or_false]
    · simp only [ne_eq, none_read, not_false_eq_true, true_or]
  · simp only [valid, Bool.false_eq_true, if_false, false_and, ne_eq, not_true_eq_false, or_false]

/-- What a request without a user id reads or changes. -/
theorem touches_iff_exposed {token : Jwt} (passes : JwtAuthGuard.user jwt now token = some user)
    (sub : user.sub = none) (route : Route) :
    Touches minLength env jwt now token db route ↔ route.Exposed minLength now db := by
  cases route with
  | me =>
    rw [touches_iff_reads passes fun _ => rfl]
    simp [Route.usersRead, Route.tokensRead, Route.Exposed]
  | profile =>
    have same : (Route.profile.handle env now user db).2 = db := by
      simp only [Route.handle]
      split <;> rfl
    rw [touches_iff_reads passes fun _ => same, Route.Exposed, ← findRow_none_ne_none]
    simp [Route.bodyValid, Route.usersRead, Route.tokensRead, sub]
  | editProfile name =>
    rw [touches_iff_reads passes, Route.Exposed, ← findRow_none_ne_none]
    · simp [Route.bodyValid, Route.usersRead, Route.tokensRead, sub]
    · intro none_read
      rw [Route.usersRead, sub, Option.toList_eq_nil_iff] at none_read
      simp only [Route.handle, sub, updateProfile_of_gone none_read]
  | editPassword currentPassword newPassword newHash =>
    rw [touches_iff_reads passes, Route.Exposed, ← findRow_none_ne_none]
    · simp [Route.bodyValid, Route.usersRead, Route.tokensRead, sub]
    · intro none_read
      rw [Route.usersRead, sub, Option.toList_eq_nil_iff] at none_read
      simp only [Route.handle, sub, changePassword_of_gone none_read]
  | logoutAll =>
    -- the one handler that changes rows without a query
    have changed : (db.refreshTokens.revoke (.user none) now).1.rows ≠ db.refreshTokens.rows ↔ _ :=
      revoke_rows_ne
    simp only [Scope.covers, Prisma.whereEq_none, true_and] at changed
    rw [Route.Exposed, ← changed]
    simp [Touches, serve, passes, Route.bodyValid, Route.usersRead, Route.tokensRead, Route.handle,
      logoutAll, RefreshTokenTable.revokeAllByUser, sub]
  | sessions =>
    rw [touches_iff_reads passes fun _ => rfl, Route.Exposed, ← findActive_none_ne_nil]
    simp [Route.bodyValid, Route.usersRead, Route.tokensRead, sub]
  | revokeSessionById familyId =>
    have same : ((Route.revokeSessionById familyId).handle env now user db).2 = db := by
      simp only [Route.handle, sub, revokeSession_undefined]
    rw [touches_iff_reads passes fun _ => same, Route.Exposed, ← findFamilyRow_ne_none]
    simp [Route.bodyValid, Route.usersRead, Route.tokensRead]

/-- A request that the guard refuses reads and changes nothing. -/
theorem not_touches_of_refused {token : Jwt} (refused : JwtAuthGuard.user jwt now token = none)
    (route : Route) : ¬ Touches minLength env jwt now token db route := by
  simp [Touches, serve, refused]

end

/-- The kinds of token are separated exactly when the onboarding token has expired; before that, a
request with it touches every row that its route is exposed to. -/
theorem token_kinds_separated_iff (minLength : String → ℕ → Bool) (jwt : JwtModule)
    (issuedAt now : Instant) (payload : OnboardingPayload) :
    ((JwtAuthGuard.user jwt now (OnboardingTokenService.issue jwt issuedAt payload) = none ∧
      (∀ t access, OnboardingTokenService.verify jwt now (JwtTokenService.issue jwt t access) = none) ∧
      ∀ env db route,
        ¬ Touches minLength env jwt now (OnboardingTokenService.issue jwt issuedAt payload) db route) ↔
      issuedAt + OnboardingTokenService.ttlMs ≤ now) ∧
    ∀ env db route,
      Touches minLength env jwt now (OnboardingTokenService.issue jwt issuedAt payload) db route ↔
        now < issuedAt + OnboardingTokenService.ttlMs ∧ route.Exposed minLength now db := by
  refine ⟨⟨fun h => guard_onboarding_eq_none.1 h.1, fun expired => ?_⟩, fun env db route => ?_⟩
  · have refused : JwtAuthGuard.user jwt now (OnboardingTokenService.issue jwt issuedAt payload) = none :=
      guard_onboarding_eq_none.2 expired
    exact ⟨refused, fun t access => verify_access access,
      fun env db route => not_touches_of_refused refused route⟩
  · by_cases unexpired : now < issuedAt + OnboardingTokenService.ttlMs
    · have passes : JwtAuthGuard.user jwt now (OnboardingTokenService.issue jwt issuedAt payload) = _ :=
        guard_onboarding.trans (if_pos unexpired)
      rw [touches_iff_exposed passes rfl route, and_iff_right unexpired]
    · refine iff_of_false (not_touches_of_refused ?_ route) fun h => unexpired h.1
      exact guard_onboarding_eq_none.2 (Nat.not_lt.1 unexpired)

/-- The user of `oneUser`, logged in. -/
def oneSession : Db := (login taggedEnv 0 ⟨1, "t1", 7⟩ oneUser "a@b.c" "pw").2

/-- A minute-old onboarding token of somebody else reads the profile of the user and logs the user
out. -/
theorem onboarding_token_serves_protected_routes :
    let minLength : String → ℕ → Bool := fun text n => n ≤ text.length
    let jwt : JwtModule := { secret := "s", expiresIn := 15 * 60 * 1000 }
    let token := OnboardingTokenService.issue jwt 0 { providerId := "k1", email := "x@y.z", name := "X" }
    JwtAuthGuard.user jwt 60000 token ≠ none ∧
    (serve minLength taggedEnv jwt 60000 token oneSession .profile).1 = .profile 1 "a@b.c" "A" .tenant ∧
    oneSession.refreshTokens.rows.map (·.revokedAt) = [none] ∧
    (serve minLength taggedEnv jwt 60000 token oneSession .logoutAll).2.refreshTokens.rows.map (·.revokedAt) =
      [some 60000] := by
  decide

end EstateServer.Auth
