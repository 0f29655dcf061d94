import EstateServer.Auth.UseCases
import EstateServer.Library.Machine
import Mathlib.Logic.Function.Basic

/-!
# Requests that run at the same time

Any number of processes serve one request each, and their database statements interleave under
PostgreSQL's READ COMMITTED:

* a statement reads the committed tables;
* an `UPDATE` fixes the rows that it finds when it starts, waits until nobody else has written them,
  and checks its condition again (`revoke`, `revoking`).  All rows are locked at once here, when the
  last of them is free: until then a lock on some of them would only hold others up;
* the writes of a transaction become visible when it commits, and no write of a failed one does.

`Phase` is where a request stands between two statements.  `Phase.advance` is a step that only reads;
`next` adds the steps that lock or write.  `Moves` lists the steps with their effects, and the proofs
about runs go by cases on it (`moves_of_next`).
-/

namespace EstateServer.Auth

open Machine

abbrev Pid := ℕ

/-- The `userId` is the `sub` of the access token.  The guard also lets in tokens that have no `sub`;
what their requests touch is in `EstateServer.Auth.TokenKinds` and is no part of the runs here. -/
inductive Request
  | login (email password : String)
  | refreshTokens (refreshToken : Token)
  | logout (refreshToken : Token)
  | logoutAll (userId : UserId)
  | revokeSession (userId : UserId) (familyId : FamilyId)
  | changePassword (userId : UserId) (currentPassword newHash : String)
  | updateProfile (userId : UserId) (name : String)
  deriving DecidableEq, Repr

/-- How a request ends; `refreshed` also names the token that was exchanged. -/
inductive Result
  | loggedIn (pair : TokenPair)
  | refreshed (found : RefreshToken) (pair : TokenPair)
  | ok
  | updated (user : User)
  | failed (failure : Failure)
  /-- An exception of the database, of the signing key, or the end of the process. -/
  | aborted
  deriving DecidableEq, Repr

/-- A transaction that revokes: on its own, or after the `UPDATE` of the user. -/
structure Revocation where
  scope : Scope
  revokedAt : Instant
  user : Option User
  deriving DecidableEq, Repr

inductive Phase
  | idle
  | login (email password : String)
  | loginRead (user : User) (password passwordHash : String)
  | loginVerified (user : User)
  | loginSaved (pair : TokenPair)
  | refresh (refreshToken : Token) (now : Instant)
  | refreshUsable (found : RefreshToken) (now : Instant)
  /-- Before `markUsed`. -/
  | rotating (found : RefreshToken) (user : User) (now : Instant)
  /-- After `markUsed`, uncommitted. -/
  | consumed (found : RefreshToken) (user : User) (now : Instant)
  /-- After `save`, uncommitted: the row to insert and the pair to return. -/
  | replaced (found : RefreshToken) (now : Instant) (row : RefreshTokenRow) (pair : TokenPair)
  | logout (refreshToken : Token)
  | revokeSession (userId : UserId) (familyId : FamilyId)
  | changePassword (userId : UserId) (currentPassword newHash : String)
  | passwordRead (userId : UserId) (user : User) (currentPassword passwordHash newHash : String)
  /-- Before the `UPDATE` of the user. -/
  | passwordVerified (userId : UserId) (user : User)
  | updateProfile (userId : UserId) (name : String)
  /-- Before the `UPDATE` of the user. -/
  | renamed (user : User)
  /-- Before the revoking `UPDATE`. -/
  | revoke (tx : Revocation) (result : Result)
  /-- The revoking `UPDATE` has found its rows. -/
  | revoking (tx : Revocation) (result : Result) (targets : List TokenId)
  /-- The revoking `UPDATE` has written its rows, uncommitted. -/
  | revoked (tx : Revocation) (result : Result) (targets : List TokenId)
  | done (result : Result)
  deriving DecidableEq, Repr

structure State where
  clock : Instant
  users : UserTable
  tokens : RefreshTokenTable
  userLock : Locks UserId Pid
  tokenLock : Locks TokenId Pid
  request : Pid → Option Request
  phase : Pid → Phase

namespace State

/-- The process goes on to another phase. -/
def enter (s : State) (p : Pid) (phase : Phase) : State :=
  { s with phase := Function.update s.phase p phase }

/-- The request ends: its transaction, if any, is over and its locks are released. -/
def finish (s : State) (p : Pid) (result : Result) : State :=
  { s with
    userLock := s.userLock.release p
    tokenLock := s.tokenLock.release p
    phase := Function.update s.phase p (.done result) }

end State

/-- The first phase of a request. -/
def Request.start (now : Instant) : Request → Phase
  | login email password => .login email password
  | refreshTokens refreshToken => .refresh refreshToken now
  | logout refreshToken => .logout refreshToken
  | logoutAll userId => .revoke { scope := .user (some userId), revokedAt := now, user := none } .ok
  | revokeSession userId familyId => .revokeSession userId familyId
  | changePassword userId currentPassword newHash => .changePassword userId currentPassword newHash
  | updateProfile userId name => .updateProfile userId name

/-- The rows that a revoking `UPDATE` finds. -/
def Scope.targets (scope : Scope) (tokens : RefreshTokenTable) : List TokenId :=
  (tokens.rows.filter fun row => scope.covers row ∧ row.revokedAt = none).map (·.id)

/-- A row with this id is there and not revoked. -/
def RefreshTokenTable.unrevoked (tokens : RefreshTokenTable) (id : TokenId) : Bool :=
  tokens.rows.any fun row => row.id = id ∧ row.revokedAt = none

/-- The writes of a revoking `UPDATE` that has found these rows. -/
def RefreshTokenTable.revokeRows (tokens : RefreshTokenTable) (targets : List TokenId)
    (revokedAt : Instant) : RefreshTokenTable :=
  (tokens.updateMany (fun row => row.id ∈ targets ∧ row.revokedAt = none) (.revokedAt revokedAt)).1

theorem RefreshTokenTable.evolve_revokeRows {tokens : RefreshTokenTable} (targets : List TokenId)
    (t : Instant) : Evolve tokens (tokens.revokeRows targets t) := by
  refine RefreshTokenTable.evolve_updateMany fun row hit => ?_
  obtain ⟨-, unrevoked⟩ := of_decide_eq_true hit
  exact row.evolves_setRevoked t unrevoked

/-- A failed check ends the request. -/
def Phase.fail (error : AuthError) : Phase := .done (.failed (.app error))

/-- The steps that only read the committed tables. -/
def Phase.advance (env : Env) (s : State) (draw : Draw) : Phase → Option Phase
  | login email password =>
    match s.users.findByEmail email with
    | none => some (fail .invalidCredentials)
    | some user =>
      match Js.truthy user.passwordHash with
      | none => some (fail .invalidCredentials)
      | some passwordHash => some (.loginRead user password passwordHash)
  | loginRead user password passwordHash =>
    if env.compare password passwordHash then some (.loginVerified user)
    else some (fail .invalidCredentials)
  | loginSaved pair => some (.done (.loggedIn pair))
  | refresh refreshToken now =>
    match s.tokens.findByHash (env.hash refreshToken) with
    | none => some (fail .invalidRefreshToken)
    | some found =>
      if found.isUsed then
        some (.revoke { scope := .family found.familyId, revokedAt := now, user := none }
          (.failed (.app .refreshTokenReused)))
      else if !found.isUsable now then some (fail .invalidRefreshToken)
      else some (.refreshUsable found now)
  | refreshUsable found now =>
    match s.users.findById (some found.userId) with
    | none => some (fail .invalidRefreshToken)
    | some user => some (.rotating found user now)
  | consumed found user now =>
    let saved := issuedToken env s.clock draw user.id (some found.familyId)
    some (.replaced found now { saved with createdAt := s.clock } (issuedPair draw user saved))
  | logout refreshToken =>
    match s.tokens.findByHash (env.hash refreshToken) with
    | none => some (.done .ok)
    | some found =>
      some (.revoke { scope := .family found.familyId, revokedAt := s.clock, user := none } .ok)
  | revokeSession userId familyId =>
    if s.tokens.findFamilyOwner familyId ≠ some userId then some (fail .notSessionOwner)
    else some (.revoke { scope := .family familyId, revokedAt := s.clock, user := none } .ok)
  | changePassword userId currentPassword newHash =>
    match s.users.findById (some userId) with
    | none => some (fail .userNotFound)
    | some user =>
      match Js.truthy user.passwordHash with
      | none => some (fail .invalidCredentials)
      | some passwordHash => some (.passwordRead userId user currentPassword passwordHash newHash)
  | passwordRead userId user currentPassword passwordHash newHash =>
    if env.compare currentPassword passwordHash then
      some (.passwordVerified userId (user.changePassword newHash))
    else some (fail .invalidCredentials)
  | updateProfile userId name =>
    match s.users.findById (some userId) with
    | none => some (fail .userNotFound)
    | some user =>
      match user.rename name with
      | .error message => some (.done (.failed (.domain message)))
      | .ok user => some (.renamed user)
  | revoke tx result => some (.revoking tx result (tx.scope.targets s.tokens))
  | _ => none

/-- `draw` holds the random values of the step, which only the steps that issue a token use. -/
inductive Label
  | advance (clock : Instant)
  | arrive (p : Pid) (request : Request)
  | step (p : Pid) (draw : Draw)
  | fail (p : Pid)

/-- The state after a step. -/
def next (env : Env) (s : State) : Label → Option State
  | .advance clock => if s.clock ≤ clock then some { s with clock } else none
  | .arrive p request =>
    if s.phase p = .idle then
      some ({ s with request := Function.update s.request p (some request) }.enter p
        (request.start s.clock))
    else none
  | .fail p =>
    match s.phase p with
    | .idle => none
    | .done _ => none
    | _ => some (s.finish p .aborted)
  | .step p draw =>
    match s.phase p with
    | .loginVerified user =>
      let saved := issuedToken env s.clock draw user.id none
      -- `randomUUID()` starts a family that nobody has
      if draw.uuid ∈ s.tokens.rows.map (·.familyId) then none
      else (s.tokens.save saved s.clock).map fun tokens =>
        { s with tokens }.enter p (.loginSaved (issuedPair draw user saved))
    | .rotating found user now =>
      if (s.tokens.markUsed found.id now).2 = 0 then
        some (s.finish p (.failed (.app .refreshTokenReused)))
      else if s.tokenLock.available p found.id then
        some ({ s with tokenLock := s.tokenLock.acquire p [found.id] }.enter p
          (.consumed found user now))
      else none
    | .replaced found now row pair =>
      ((s.tokens.markUsed found.id now).1.save row.toRefreshToken row.createdAt).map fun tokens =>
        { s with tokens }.finish p (.refreshed found pair)
    | .passwordVerified userId user =>
      if (s.users.update user).2 = 0 then some (s.finish p (.failed (.app .userNotFound)))
      else if s.userLock.available p user.id then
        some ({ s with userLock := s.userLock.acquire p [user.id] }.enter p
          (.revoke { scope := .user (some userId), revokedAt := s.clock, user := some user } .ok))
      else none
    | .renamed user =>
      if (s.users.update user).2 = 0 then some (s.finish p (.failed (.app .userNotFound)))
      else if s.userLock.available p user.id then
        some ({ s with users := (s.users.update user).1 }.finish p (.updated user))
      else none
    | .revoking tx result targets =>
      let hits := targets.filter s.tokens.unrevoked
      if hits.all (s.tokenLock.available p) then
        some ({ s with tokenLock := s.tokenLock.acquire p hits }.enter p (.revoked tx result hits))
      else none
    | .revoked tx result targets =>
      let tokens := s.tokens.revokeRows targets tx.revokedAt
      let users := match tx.user with
        | none => s.users
        | some user => (s.users.update user).1
      some ({ s with tokens, users }.finish p result)
    | phase => (phase.advance env s draw).map (s.enter p)

/-- The auth context under interleaved requests: no session yet, nobody at work. -/
def sessions (env : Env) : Machine State Label where
  start s := s.tokens.rows = [] ∧ s.userLock = .free ∧ s.tokenLock = .free ∧
    s.request = (fun _ => none) ∧ s.phase = fun _ => .idle
  next := next env

/-- The user of `oneUser`, and nobody at work. -/
def calm : State where
  clock := 0
  users := oneUser.users
  tokens := oneUser.refreshTokens
  userLock := .free
  tokenLock := .free
  request _ := none
  phase _ := .idle

theorem calm_start (env : Env) : (sessions env).start calm := ⟨rfl, rfl, rfl, rfl, rfl⟩

/-- The next step of `p`, when it draws nothing. -/
def go (p : Pid) : Label := .step p ⟨0, "", 0⟩

/-- The steps of a login of the user of `oneUser` that is issued the token `token`. -/
def loginSteps (p : Pid) (draw : Draw) : List Label :=
  [.arrive p (.login "a@b.c" "pw"), go p, go p, .step p draw, go p]

/-! ## The steps and their effects -/

/-- The users after a revocation, whose transaction may have updated one. -/
def Revocation.users (tx : Revocation) (users : UserTable) : UserTable :=
  match tx.user with
  | none => users
  | some user => (users.update user).1

/-- A reading step, with what it finds in the committed tables. -/
inductive Reads (env : Env) (s : State) (draw : Draw) : Phase → Phase → Prop
  | failed {phase : Phase} {failure : Failure} : Reads env s draw phase (.done (.failed failure))
  | loggedIn {pair : TokenPair} : Reads env s draw (.loginSaved pair) (.done (.loggedIn pair))
  | unknown {refreshToken : Token} : Reads env s draw (.logout refreshToken) (.done .ok)
  | loginRead {email password passwordHash : String} {user : User}
      (found : s.users.findByEmail email = some user)
      (hash : Js.truthy user.passwordHash = some passwordHash) :
      Reads env s draw (.login email password) (.loginRead user password passwordHash)
  | loginVerified {user : User} {password passwordHash : String}
      (compare : env.compare password passwordHash = true) :
      Reads env s draw (.loginRead user password passwordHash) (.loginVerified user)
  | reused {refreshToken : Token} {now : Instant} {found : RefreshToken}
      (h : s.tokens.findByHash (env.hash refreshToken) = some found) (used : found.isUsed = true) :
      Reads env s draw (.refresh refreshToken now)
        (.revoke { scope := .family found.familyId, revokedAt := now, user := none }
          (.failed (.app .refreshTokenReused)))
  | usable {refreshToken : Token} {now : Instant} {found : RefreshToken}
      (h : s.tokens.findByHash (env.hash refreshToken) = some found)
      (usable : found.isUsable now = true) :
      Reads env s draw (.refresh refreshToken now) (.refreshUsable found now)
  | rotating {found : RefreshToken} {user : User} {now : Instant}
      (h : s.users.findById (some found.userId) = some user) :
      Reads env s draw (.refreshUsable found now) (.rotating found user now)
  | replaced {found : RefreshToken} {user : User} {now : Instant} {saved : RefreshToken}
      (h : saved = issuedToken env s.clock draw user.id (some found.familyId)) :
      Reads env s draw (.consumed found user now)
        (.replaced found now { saved with createdAt := s.clock } (issuedPair draw user saved))
  | logout {refreshToken : Token} {found : RefreshToken}
      (h : s.tokens.findByHash (env.hash refreshToken) = some found) :
      Reads env s draw (.logout refreshToken)
        (.revoke { scope := .family found.familyId, revokedAt := s.clock, user := none } .ok)
  | revokeSession {userId : UserId} {familyId : FamilyId}
      (owner : s.tokens.findFamilyOwner familyId = some userId) :
      Reads env s draw (.revokeSession userId familyId)
        (.revoke { scope := .family familyId, revokedAt := s.clock, user := none } .ok)
  | passwordRead {userId : UserId} {user : User} {currentPassword passwordHash newHash : String}
      (found : s.users.findById (some userId) = some user)
      (hash : Js.truthy user.passwordHash = some passwordHash) :
      Reads env s draw (.changePassword userId currentPassword newHash)
        (.passwordRead userId user currentPassword passwordHash newHash)
  | passwordVerified {userId : UserId} {user : User} {currentPassword passwordHash newHash : String}
      (compare : env.compare currentPassword passwordHash = true) :
      Reads env s draw (.passwordRead userId user currentPassword passwordHash newHash)
        (.passwordVerified userId (user.changePassword newHash))
  | renamed {userId : UserId} {name : String} {user renamed : User}
      (found : s.users.findById (some userId) = some user) (rename : user.rename name = .ok renamed) :
      Reads env s draw (.updateProfile userId name) (.renamed renamed)
  | revoking {tx : Revocation} {result : Result} :
      Reads env s draw (.revoke tx result) (.revoking tx result (tx.scope.targets s.tokens))

theorem reads_of_advance {env : Env} {s : State} {draw : Draw} {phase phase' : Phase}
    (h : phase.advance env s draw = some phase') : Reads env s draw phase phase' := by
  have failed : ∀ {failure}, some (.done (.failed failure)) = some phase' →
      Reads env s draw phase phase' := by
    rintro failure ⟨⟩
    exact .failed
  cases phase with
  | login email password =>
    simp only [Phase.advance] at h
    split at h
    · exact failed h
    · rename_i user found
      split at h
      · exact failed h
      · rename_i passwordHash hash
        obtain rfl := Option.some.inj h
        exact .loginRead found hash
  | loginRead user password passwordHash =>
    simp only [Phase.advance] at h
    split_ifs at h with compare
    · obtain rfl := Option.some.inj h
      exact .loginVerified compare
    · exact failed h
  | loginSaved pair =>
    obtain rfl := Option.some.inj h
    exact .loggedIn
  | refresh refreshToken now =>
    simp only [Phase.advance] at h
    split at h
    · exact failed h
    · rename_i found known
      split_ifs at h with used unusable
      · obtain rfl := Option.some.inj h
        exact .reused known used
      · exact failed h
      · obtain rfl := Option.some.inj h
        exact .usable known (by simpa using unusable)
  | refreshUsable found now =>
    simp only [Phase.advance] at h
    split at h
    · exact failed h
    · rename_i user known
      obtain rfl := Option.some.inj h
      exact .rotating known
  | consumed found user now =>
    obtain rfl := Option.some.inj h
    exact .replaced rfl
  | logout refreshToken =>
    simp only [Phase.advance] at h
    split at h
    · obtain rfl := Option.some.inj h
      exact .unknown
    · rename_i found known
      obtain rfl := Option.some.inj h
      exact .logout known
  | revokeSession userId familyId =>
    simp only [Phase.advance] at h
    split_ifs at h with owner
    · exact failed h
    · obtain rfl := Option.some.inj h
      exact .revokeSession (not_not.1 owner)
  | changePassword userId currentPassword newHash =>
    simp only [Phase.advance] at h
    split at h
    · exact failed h
    · rename_i user found
      split at h
      · exact failed h
      · rename_i passwordHash hash
        obtain rfl := Option.some.inj h
        exact .passwordRead found hash
  | passwordRead userId user currentPassword passwordHash newHash =>
    simp only [Phase.advance] at h
    split_ifs at h with compare
    · obtain rfl := Option.some.inj h
      exact .passwordVerified compare
    · exact failed h
  | updateProfile userId name =>
    simp only [Phase.advance] at h
    split at h
    · exact failed h
    · rename_i user found
      split at h
      · exact failed h
      · rename_i renamed rename
        obtain rfl := Option.some.inj h
        exact .renamed found rename
  | revoke tx result =>
    obtain rfl := Option.some.inj h
    exact .revoking
  | idle | loginVerified | rotating | replaced | passwordVerified | renamed | revoking | revoked
    | done => simp [Phase.advance] at h

/-- `Moves env s a s'`: the step `a` leads from `s` to `s'`, with what it checks and does. -/
inductive Moves (env : Env) (s : State) : Label → State → Prop
  | advance {clock : Instant} (later : s.clock ≤ clock) :
      Moves env s (.advance clock) { s with clock }
  | arrive {p : Pid} {request : Request} (idle : s.phase p = .idle) :
      Moves env s (.arrive p request) ({ s with request := Function.update s.request p (some request) }.enter
        p (request.start s.clock))
  | fail {p : Pid} (busy : s.phase p ≠ .idle) (open' : ∀ result, s.phase p ≠ .done result) :
      Moves env s (.fail p) (s.finish p .aborted)
  /-- A step that only reads. -/
  | read {p : Pid} {draw : Draw} {phase : Phase}
      (h : (s.phase p).advance env s draw = some phase) :
      Moves env s (.step p draw) (s.enter p phase)
  | login {p : Pid} {draw : Draw} {user : User} {tokens : RefreshTokenTable}
      (h : s.phase p = .loginVerified user)
      (fresh : draw.uuid ∉ s.tokens.rows.map (·.familyId))
      (save : s.tokens.save (issuedToken env s.clock draw user.id none) s.clock = some tokens) :
      Moves env s (.step p draw) ({ s with tokens }.enter p
        (.loginSaved (issuedPair draw user (issuedToken env s.clock draw user.id none))))
  /-- The compare-and-set finds the token used. -/
  | lose {p : Pid} {draw : Draw} {found : RefreshToken} {user : User} {now : Instant}
      (h : s.phase p = .rotating found user now)
      (used : (s.tokens.markUsed found.id now).2 = 0) :
      Moves env s (.step p draw) (s.finish p (.failed (.app .refreshTokenReused)))
  | consume {p : Pid} {draw : Draw} {found : RefreshToken} {user : User} {now : Instant}
      (h : s.phase p = .rotating found user now)
      (unused : (s.tokens.markUsed found.id now).2 ≠ 0)
      (available : s.tokenLock.available p found.id = true) :
      Moves env s (.step p draw) ({ s with tokenLock := s.tokenLock.acquire p [found.id] }.enter p
        (.consumed found user now))
  | rotate {p : Pid} {draw : Draw} {found : RefreshToken} {now : Instant} {row : RefreshTokenRow}
      {pair : TokenPair} {tokens : RefreshTokenTable} (h : s.phase p = .replaced found now row pair)
      (save : (s.tokens.markUsed found.id now).1.save row.toRefreshToken row.createdAt = some tokens) :
      Moves env s (.step p draw) ({ s with tokens }.finish p (.refreshed found pair))
  /-- The user of an `UPDATE` is gone. -/
  | gone {p : Pid} {draw : Draw} {user : User}
      (h : (∃ userId, s.phase p = .passwordVerified userId user) ∨ s.phase p = .renamed user)
      (missing : (s.users.update user).2 = 0) :
      Moves env s (.step p draw) (s.finish p (.failed (.app .userNotFound)))
  | lockUser {p : Pid} {draw : Draw} {userId : UserId} {user : User}
      (h : s.phase p = .passwordVerified userId user) (found : (s.users.update user).2 ≠ 0)
      (available : s.userLock.available p user.id = true) :
      Moves env s (.step p draw) ({ s with userLock := s.userLock.acquire p [user.id] }.enter p
        (.revoke { scope := .user (some userId), revokedAt := s.clock, user := some user } .ok))
  | rename {p : Pid} {draw : Draw} {user : User} (h : s.phase p = .renamed user)
      (found : (s.users.update user).2 ≠ 0) (available : s.userLock.available p user.id = true) :
      Moves env s (.step p draw) ({ s with users := (s.users.update user).1 }.finish p (.updated user))
  | lockTokens {p : Pid} {draw : Draw} {tx : Revocation} {result : Result} {targets : List TokenId}
      (h : s.phase p = .revoking tx result targets)
      (available : ∀ id ∈ targets.filter s.tokens.unrevoked, s.tokenLock.available p id = true) :
      Moves env s (.step p draw)
        ({ s with tokenLock := s.tokenLock.acquire p (targets.filter s.tokens.unrevoked) }.enter p
          (.revoked tx result (targets.filter s.tokens.unrevoked)))
  | revoke {p : Pid} {draw : Draw} {tx : Revocation} {result : Result} {targets : List TokenId}
      (h : s.phase p = .revoked tx result targets) :
      Moves env s (.step p draw) ({ s with
        tokens := s.tokens.revokeRows targets tx.revokedAt
        users := tx.users s.users }.finish p result)

theorem moves_of_next {env : Env} {s s' : State} {a : Label}
    (h : (sessions env).next s a = some s') : Moves env s a s' := by
  change next env s a = some s' at h
  cases a with
  | advance clock =>
    simp only [next, Option.ite_none_right_eq_some, Option.some.injEq] at h
    obtain ⟨later, rfl⟩ := h
    exact .advance later
  | arrive p request =>
    simp only [next, Option.ite_none_right_eq_some, Option.some.injEq] at h
    obtain ⟨idle, rfl⟩ := h
    exact .arrive idle
  | fail p =>
    simp only [next] at h
    split at h
    · cases h
    · cases h
    · rename_i busy done
      obtain rfl := Option.some.inj h
      exact .fail busy done
  | step p draw =>
    simp only [next] at h
    split at h
    · rename_i user hp
      split_ifs at h with fresh
      obtain ⟨tokens, save, rfl⟩ := Option.map_eq_some_iff.1 h
      exact .login hp fresh save
    · rename_i found user now hp
      split_ifs at h with used available
      · obtain rfl := Option.some.inj h
        exact .lose hp used
      · obtain rfl := Option.some.inj h
        exact .consume hp used available
    · rename_i found now row pair hp
      obtain ⟨tokens, save, rfl⟩ := Option.map_eq_some_iff.1 h
      exact .rotate hp save
    · rename_i userId user hp
      split_ifs at h with missing available
      · obtain rfl := Option.some.inj h
        exact .gone (.inl ⟨userId, hp⟩) missing
      · obtain rfl := Option.some.inj h
        exact .lockUser hp missing available
    · rename_i user hp
      split_ifs at h with missing available
      · obtain rfl := Option.some.inj h
        exact .gone (.inr hp) missing
      · obtain rfl := Option.some.inj h
        exact .rename hp missing available
    · rename_i tx result targets hp
      split_ifs at h with available
      obtain rfl := Option.some.inj h
      exact .lockTokens hp (List.all_eq_true.1 available)
    · rename_i tx result targets hp
      obtain rfl := Option.some.inj h
      exact .revoke hp
    · obtain ⟨phase, advance, rfl⟩ := Option.map_eq_some_iff.1 h
      exact .read advance

/-! ## Whose step it is -/

variable {env : Env} {s s' : State} {a : Label} {p q : Pid}

/-- The process that takes the step. -/
def Label.pid : Label → Option Pid
  | advance _ => none
  | arrive p _ => some p
  | step p _ => some p
  | fail p => some p

@[simp] theorem enter_phase_self (s : State) (p : Pid) (phase : Phase) :
    (s.enter p phase).phase p = phase := by simp [State.enter]

theorem enter_phase_of_ne (s : State) (phase : Phase) (h : q ≠ p) :
    (s.enter p phase).phase q = s.phase q := by simp [State.enter, h]

@[simp] theorem finish_phase_self (s : State) (p : Pid) (result : Result) :
    (s.finish p result).phase p = .done result := by simp [State.finish]

theorem finish_phase_of_ne (s : State) (result : Result) (h : q ≠ p) :
    (s.finish p result).phase q = s.phase q := by simp [State.finish, h]

/-- A step changes the phase of no other process. -/
theorem Moves.phase_of_ne (m : Moves env s a s') (h : a.pid ≠ some q) : s'.phase q = s.phase q := by
  cases m with
  | advance => rfl
  | arrive | read | login | consume | lockUser | lockTokens =>
    exact enter_phase_of_ne _ _ fun e => h (congrArg some e.symm)
  | fail | lose | rotate | gone | rename | revoke =>
    exact finish_phase_of_ne _ _ fun e => h (congrArg some e.symm)

/-- A step changes the request of no other process. -/
theorem Moves.request_of_ne (m : Moves env s a s') (h : a.pid ≠ some q) :
    s'.request q = s.request q := by
  cases m with
  | arrive => exact Function.update_of_ne (fun e => h (congrArg some e.symm)) _ _
  | _ => rfl

/-- A process that takes no step in a run stays in its phase. -/
theorem phase_of_run {C : State → Label → Prop} {tr : List (Step State Label)}
    (run : (sessions env).Run C s tr s') (h : ∀ st ∈ tr, st.label.pid ≠ some q) :
    s'.phase q = s.phase q := by
  induction run with
  | refl => rfl
  | snoc _ _ step ih =>
    rw [(moves_of_next step).phase_of_ne (h _ List.mem_concat_self)]
    exact ih fun st hst => h st (List.mem_append_left _ hst)

end EstateServer.Auth
