import EstateServer.Auth.Repository

/-!
# The use cases of the auth context, run without interference

Each use case as one function of the tables: `RefreshTokensUseCase.execute`, `LoginUseCase.execute`
and so on, with the answer the caller gets and the tables afterwards.  `Env` holds what lies outside
the repository (SHA-256, bcrypt, the configured lifetime) and `Draw` the random values of one call.
-/

namespace EstateServer.Auth

/-- What the use cases are given from outside. -/
structure Env where
  /-- `RefreshTokenGenerator.hash`. -/
  hash : Token → TokenHash
  /-- `PasswordHasher.compare`, of a password with a stored hash. -/
  compare : String → String → Bool
  /-- `ttlDays() * MS_PER_DAY`. -/
  ttlMs : ℕ

/-- The random values of one call: the new token, the `cuid()` of its row, and a `randomUUID()`. -/
structure Draw where
  id : TokenId
  token : Token
  uuid : FamilyId

/-- The tables of the auth context. -/
structure Db where
  users : UserTable
  refreshTokens : RefreshTokenTable

section

variable (env : Env) (now : Instant) (draw : Draw) (db : Db)

/-- The token that `issue` saves.  Without a family id it starts a new family. -/
def issuedToken (userId : UserId) (familyId : Option FamilyId) : RefreshToken :=
  RefreshToken.create draw.id userId (env.hash draw.token) (familyId.getD draw.uuid) (now + env.ttlMs)

@[simp] theorem issuedToken_newFamily (userId : UserId) :
    (issuedToken env now draw userId none).familyId = draw.uuid := rfl

/-- The pair that `issue` returns: the access token is signed after the row is saved. -/
def issuedPair (user : User) (saved : RefreshToken) : TokenPair :=
  { accessToken := { sub := user.id, email := user.email, role := user.role, fam := saved.familyId }
    refreshToken := draw.token }

/-- `IssueSessionService.issue`. -/
def issue (user : User) (familyId : Option FamilyId) (tokens : RefreshTokenTable) :
    Except Failure (TokenPair × RefreshTokenTable) :=
  let saved := issuedToken env now draw user.id familyId
  match tokens.save saved now with
  | none => .error .uniqueViolation
  | some tokens => .ok (issuedPair draw user saved, tokens)

/-- The user that `LoginUseCase` lets in. -/
def authenticate (email password : String) : Except Failure User :=
  match db.users.findByEmail email with
  | none => .error (.app .invalidCredentials)
  | some user =>
    match Js.truthy user.passwordHash with
    | none => .error (.app .invalidCredentials)
    | some passwordHash =>
      if env.compare password passwordHash then .ok user else .error (.app .invalidCredentials)

/-- `LoginUseCase.execute`. -/
def login (email password : String) : Except Failure TokenPair × Db :=
  match authenticate env db email password with
  | .error e => (.error e, db)
  | .ok user =>
    match issue env now draw user none db.refreshTokens with
    | .error e => (.error e, db)
    | .ok (pair, refreshTokens) => (.ok pair, { db with refreshTokens })

/-- `RefreshTokensUseCase.execute`. -/
def refreshTokens (refreshToken : Token) : Except Failure TokenPair × Db :=
  match db.refreshTokens.findByHash (env.hash refreshToken) with
  | none => (.error (.app .invalidRefreshToken), db)
  | some found =>
    if found.isUsed then
      let revoked := db.refreshTokens.revokeFamily found.familyId now
      (.error (.app .refreshTokenReused), { db with refreshTokens := revoked.1 })
    else if !found.isUsable now then (.error (.app .invalidRefreshToken), db)
    else
      match db.users.findById (some found.userId) with
      | none => (.error (.app .invalidRefreshToken), db)
      | some user =>
        let updated := db.refreshTokens.markUsed found.id now
        -- a throw inside the transaction rolls it back
        if updated.2 = 0 then (.error (.app .refreshTokenReused), db)
        else
          match issue env now draw user (some found.familyId) updated.1 with
          | .error e => (.error e, db)
          | .ok (pair, refreshTokens) => (.ok pair, { db with refreshTokens })

/-- `LogoutUseCase.execute`. -/
def logout (refreshToken : Token) : Db :=
  match db.refreshTokens.findByHash (env.hash refreshToken) with
  | none => db
  | some found => { db with refreshTokens := (db.refreshTokens.revokeFamily found.familyId now).1 }

/-- `LogoutAllUseCase.execute`. -/
def logoutAll (userId : Option UserId) : Db :=
  { db with refreshTokens := (db.refreshTokens.revokeAllByUser userId now).1 }

/-- `RevokeSessionUseCase.execute`. -/
def revokeSession (userId : Option UserId) (familyId : FamilyId) : Except Failure Unit × Db :=
  -- `owner !== userId`, where the owner may be `null` and the user id `undefined`
  match db.refreshTokens.findFamilyOwner familyId with
  | none => (.error (.app .notSessionOwner), db)
  | some owner =>
    if some owner ≠ userId then (.error (.app .notSessionOwner), db)
    else (.ok (), { db with refreshTokens := (db.refreshTokens.revokeFamily familyId now).1 })

/-- `SessionView`. -/
structure SessionView where
  familyId : FamilyId
  createdAt : Instant
  current : Bool
  deriving DecidableEq, Repr

/-- `ListSessionsUseCase.execute`. -/
def listSessions (userId : Option UserId) (currentFamilyId : Option FamilyId) : List SessionView :=
  (db.refreshTokens.findActiveFamilies userId now).map fun family =>
    { familyId := family.familyId, createdAt := family.createdAt
      current := some family.familyId = currentFamilyId }

/-- The user whose current password `ChangePasswordUseCase` has checked. -/
def verifyPassword (userId : Option UserId) (currentPassword : String) : Except Failure User :=
  match db.users.findById userId with
  | none => .error (.app .userNotFound)
  | some user =>
    match Js.truthy user.passwordHash with
    | none => .error (.app .invalidCredentials)
    | some passwordHash =>
      if env.compare currentPassword passwordHash then .ok user
      else .error (.app .invalidCredentials)

/-- `ChangePasswordUseCase.execute`; `newHash` is what `PasswordHasher.hash` makes of the new
password. -/
def changePassword (userId : Option UserId) (currentPassword newHash : String) :
    Except Failure Unit × Db :=
  match verifyPassword env db userId currentPassword with
  | .error e => (.error e, db)
  | .ok user =>
    let updated := db.users.update (user.changePassword newHash)
    if updated.2 = 0 then (.error (.app .userNotFound), db)
    else
      (.ok (), { users := updated.1,
                 refreshTokens := (db.refreshTokens.revokeAllByUser userId now).1 })

/-- `GetProfileUseCase.execute`. -/
def getProfile (userId : Option UserId) : Except Failure User :=
  match db.users.findById userId with
  | none => .error (.app .userNotFound)
  | some user => .ok user

/-- `UpdateProfileUseCase.execute`. -/
def updateProfile (userId : Option UserId) (name : String) : Except Failure User × Db :=
  match db.users.findById userId with
  | none => (.error (.app .userNotFound), db)
  | some user =>
    match user.rename name with
    | .error message => (.error (.domain message), db)
    | .ok renamed =>
      let updated := db.users.update renamed
      if updated.2 = 0 then (.error (.app .userNotFound), db)
      else (.ok renamed, { db with users := updated.1 })

end

/-! ## A small instance -/

/-- An environment whose hashes are tagged copies of what they hash. -/
def taggedEnv : Env where
  hash token := "sha256:" ++ token
  compare password passwordHash := passwordHash = "bcrypt:" ++ password
  ttlMs := 14 * 24 * 60 * 60 * 1000

/-- One user, and no refresh token yet. -/
def oneUser : Db where
  users :=
    { rows := [{ id := 1, email := "a@b.c", name := "A", passwordHash := some "bcrypt:pw",
                 role := .tenant, deletedAt := none }]
      id_unique := List.nodup_singleton _
      email_unique := List.nodup_singleton _ }
  refreshTokens := { rows := [], id_unique := List.nodup_nil, tokenHash_unique := List.nodup_nil }

end EstateServer.Auth
