import EstateServer.Common

/-!
# The entities of the auth context

`User` and `RefreshToken` as the repositories rebuild them from rows, the errors of the context,
and the claims of an access token.
-/

namespace EstateServer.Auth

abbrev UserId := ℕ
abbrev TokenId := ℕ
abbrev FamilyId := ℕ

/-- A refresh token as the client holds it. -/
abbrev Token := String

/-- The hash of a refresh token, the only form in which it is stored. -/
abbrev TokenHash := String

inductive Role
  | owner
  | tenant
  | admin
  deriving DecidableEq, Repr

/-- `AuthError`: the errors of the catalogue that the use cases below throw. -/
inductive AuthError
  | emailInUse
  | invalidCredentials
  | invalidRole
  | userNotFound
  | invalidOnboarding
  | invalidRefreshToken
  | refreshTokenReused
  | notSessionOwner
  deriving DecidableEq, Repr

/-- The catalogue entry of an error. -/
def AuthError.spec : AuthError → AppErrorSpec
  | emailInUse => ⟨"AUTH_EMAIL_IN_USE", 409, "이미 사용 중인 이메일입니다."⟩
  | invalidCredentials =>
    ⟨"AUTH_INVALID_CREDENTIALS", 401, "이메일 또는 비밀번호가 올바르지 않습니다."⟩
  | invalidRole => ⟨"AUTH_INVALID_ROLE", 400, "허용되지 않은 역할입니다."⟩
  | userNotFound => ⟨"AUTH_USER_NOT_FOUND", 404, "사용자를 찾을 수 없습니다."⟩
  | invalidOnboarding =>
    ⟨"AUTH_INVALID_ONBOARDING", 401, "가입 세션이 만료되었어요. 다시 시도해주세요."⟩
  | invalidRefreshToken =>
    ⟨"AUTH_INVALID_REFRESH_TOKEN", 401, "세션이 만료되었습니다. 다시 로그인해주세요."⟩
  | refreshTokenReused =>
    ⟨"AUTH_REFRESH_TOKEN_REUSED", 401, "세션이 만료되었습니다. 다시 로그인해주세요."⟩
  | notSessionOwner => ⟨"AUTH_NOT_SESSION_OWNER", 403, "해당 세션에 대한 권한이 없습니다."⟩

/-- A failed request throws an error of the catalogue, a `DomainError` (its message), or what the
database throws. -/
inductive Failure
  | app (error : AuthError)
  | domain (message : String)
  /-- `P2002`: a unique constraint refuses a row. -/
  | uniqueViolation
  deriving DecidableEq, Repr

/-! ## Users -/

/-- `User`, as `reconstitute` builds it from a row. -/
structure User where
  id : UserId
  email : String
  name : String
  passwordHash : Option String
  role : Role
  deriving DecidableEq, Repr

namespace User

/-- `createOAuth`: a user without a password, or the message of the `DomainError`; the `id` is the
`cuid()` that the database draws for the row. -/
def createOAuth (id : UserId) (email name : String) (role : Role) : Except String User :=
  if email = "" then .error "이메일은 필수입니다."
  else if name = "" then .error "이름은 필수입니다."
  else .ok { id, email, name, passwordHash := none, role }

/-- `rename`: the user with another name, or the message of the `DomainError`. -/
def rename (user : User) (name : String) : Except String User :=
  let trimmed := Js.trim name
  if trimmed = "" then .error "이름은 필수입니다." else .ok { user with name := trimmed }

def changePassword (user : User) (newHash : String) : User := { user with passwordHash := some newHash }

end User

/-! ## Refresh tokens -/

/-- `RefreshToken`, as `reconstitute` builds it from a row. -/
structure RefreshToken where
  id : TokenId
  userId : UserId
  tokenHash : TokenHash
  familyId : FamilyId
  expiresAt : Instant
  usedAt : Option Instant
  revokedAt : Option Instant
  deriving DecidableEq, Repr

namespace RefreshToken

/-- `create`; the `id` is the `cuid()` that the database draws for the row. -/
def create (id : TokenId) (userId : UserId) (tokenHash : TokenHash) (familyId : FamilyId)
    (expiresAt : Instant) : RefreshToken :=
  { id, userId, tokenHash, familyId, expiresAt, usedAt := none, revokedAt := none }

def isUsable (token : RefreshToken) (now : Instant) : Bool :=
  token.usedAt = none ∧ token.revokedAt = none ∧ now < token.expiresAt

def isUsed (token : RefreshToken) : Bool := token.usedAt ≠ none

theorem isUsable_iff (token : RefreshToken) (now : Instant) : token.isUsable now ↔
    token.usedAt = none ∧ token.revokedAt = none ∧ now < token.expiresAt := by
  simp [isUsable]

end RefreshToken

/-! ## Sessions -/

/-- `TokenPayload`: the claims of an access token; `fam` is the session it belongs to. -/
structure TokenPayload where
  sub : UserId
  email : String
  role : Role
  fam : FamilyId
  deriving DecidableEq, Repr

/-- `TokenPair`; the access token is given by its claims. -/
structure TokenPair where
  accessToken : TokenPayload
  refreshToken : Token
  deriving DecidableEq, Repr

end EstateServer.Auth
