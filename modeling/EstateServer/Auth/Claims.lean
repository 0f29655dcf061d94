import EstateServer.Auth.Accounts
import EstateServer.Auth.PasswordChange

/-!
# What an access token says stays so

An access token carries the email and the role of its user and is not looked up again until it expires,
so a route that trusts the claims is right only if the tables still say what they said.
`claims_stay_true`: they do, in every state after the pair was handed out, whatever other requests run.

The processes carry users that they have read a while ago.  `Known` is what is still right of such a
user: no request changes an `Identity`.
-/

namespace EstateServer.Auth.Accounts

open Machine
open KakaoSignup (AccountTable CompleteKakaoSignupInput Draws)

/-! ## The statement -/

/-- What no request changes of a user: everything but the name, and whether there is a password. -/
structure Identity where
  id : UserId
  email : String
  role : Role
  deletedAt : Option Instant
  hasPassword : Bool
  deriving DecidableEq, Repr

def identity (row : UserRow) : Identity :=
  { id := row.id, email := row.email, role := row.role, deletedAt := row.deletedAt,
    hasPassword := row.passwordHash.isSome }

def identities (users : UserTable) : List Identity := users.rows.map identity

/-- The identity of a user that is not deleted. -/
def User.identity (user : User) : Identity := Accounts.identity { user with deletedAt := none }

/-- The pair is the answer to a request. -/
inductive Issued (s : State) : TokenPair → Prop
  | loggedIn {p : Pid} {pair : TokenPair} (h : s.sessions.phase p = .done (.loggedIn pair)) :
      Issued s pair
  | refreshed {p : Pid} {found : RefreshToken} {pair : TokenPair}
      (h : s.sessions.phase p = .done (.refreshed found pair)) : Issued s pair
  | completed {p : Pid} {pair : TokenPair} (h : s.completion p = .done (.session pair)) :
      Issued s pair
  | kakao {p : Pid} {pair : TokenPair} (h : s.phase p = .done (.session pair)) : Issued s pair

/-- The tables say what the access token says, and the refresh token is of the same session. -/
structure Backed (env : Env) (users : UserTable) (tokens : RefreshTokenTable) (pair : TokenPair) :
    Prop where
  user : ∃ user, users.findById (some pair.accessToken.sub) = some user ∧
    user.email = pair.accessToken.email ∧ user.role = pair.accessToken.role
  session : ∃ row ∈ tokens.rows, row.tokenHash = env.hash pair.refreshToken ∧
    row.userId = pair.accessToken.sub ∧ row.familyId = pair.accessToken.fam

/-! ## Users that a process carries -/

variable {env : Env} {jwt : JwtModule} {users users' : UserTable} {tokens tokens' : RefreshTokenTable}
  {user : User} {pair : TokenPair}

/-- The identity of the user is still that of its row. -/
def Known (users : UserTable) (user : User) : Prop := User.identity user ∈ identities users

theorem known_of_mem {row : UserRow} (mem : row ∈ users.rows) (alive : row.deletedAt = none) :
    Known users row.toUser := by
  refine List.mem_map.2 ⟨row, mem, ?_⟩
  simp [User.identity, identity, alive]

theorem known_of_findById {id : UserId} (found : users.findById (some id) = some user) :
    Known users user := by
  obtain ⟨row, mem, -, alive, rfl⟩ := UserTable.findById_eq_some.1 found
  exact known_of_mem mem alive

theorem known_of_findByEmail {email : String} (found : users.findByEmail email = some user) :
    Known users user := by
  obtain ⟨row, hit, rfl⟩ := Option.map_eq_some_iff.1 found
  obtain ⟨-, alive⟩ : row.email = email ∧ row.deletedAt = none := by
    simpa using List.find?_some hit
  exact known_of_mem (List.mem_of_find?_eq_some hit) alive

theorem Known.findById (known : Known users user) : ∃ found,
    users.findById (some user.id) = some found ∧ User.identity found = User.identity user := by
  obtain ⟨row, mem, same⟩ := List.mem_map.1 known
  obtain ⟨id, email, role, alive, hash⟩ := Identity.mk.inj same
  refine ⟨row.toUser, UserTable.findById_eq_some.2 ⟨row, mem, id, alive, rfl⟩, ?_⟩
  simp only [User.identity, identity, Identity.mk.injEq]
  exact ⟨id, email, role, trivial, hash⟩

/-- Writing back a name and a password hash leaves the identities alone. -/
theorem Known.identities_update (known : Known users user) :
    identities (users.update user).1 = identities users := by
  obtain ⟨row, mem, same⟩ := List.mem_map.1 known
  obtain ⟨id, -, -, -, hash⟩ := Identity.mk.inj same
  simp only [identities, UserTable.update, Table.updateMany, List.map_map]
  refine List.map_congr_left fun row' mem' => ?_
  simp only [Function.comp_apply]
  split_ifs with hit
  · obtain rfl := users.id_unique.eq_of_mem mem mem' (id.trans (of_decide_eq_true hit).symm)
    simp only [identity, ← hash]
  · rfl

/-- What a row of the table of sessions stands for. -/
def origin (row : RefreshTokenRow) : TokenHash × UserId × FamilyId :=
  (row.tokenHash, row.userId, row.familyId)

/-- No user and no session is lost. -/
structure Grows (users users' : UserTable) (tokens tokens' : RefreshTokenTable) : Prop where
  identities : identities users <+: identities users'
  origins : tokens.rows.map origin <+: tokens'.rows.map origin

theorem Grows.refl (users : UserTable) (tokens : RefreshTokenTable) :
    Grows users users tokens tokens := ⟨List.prefix_rfl, List.prefix_rfl⟩

theorem Known.mono (known : Known users user) (grows : Grows users users' tokens tokens') :
    Known users' user := grows.identities.subset known

theorem Backed.mono (backed : Backed env users tokens pair)
    (grows : Grows users users' tokens tokens') : Backed env users' tokens' pair where
  user := by
    obtain ⟨user, found, email, role⟩ := backed.user
    obtain ⟨row, -, id, -, rfl⟩ := UserTable.findById_eq_some.1 found
    obtain ⟨user', found', same⟩ := ((known_of_findById found).mono grows).findById
    obtain ⟨-, email', role', -⟩ := Identity.mk.inj same
    exact ⟨user', id ▸ found', email'.trans email, role'.trans role⟩
  session := by
    obtain ⟨row, mem, hash, userId, familyId⟩ := backed.session
    obtain ⟨row', mem', same⟩ := List.mem_map.1 (grows.origins.subset (List.mem_map_of_mem mem))
    obtain ⟨hash', same⟩ := Prod.mk.inj same
    obtain ⟨userId', familyId'⟩ := Prod.mk.inj same
    exact ⟨row', mem', hash'.trans hash, userId'.trans userId, familyId'.trans familyId⟩

/-- A pair of a user whose row of the session has been saved. -/
theorem Known.backed {row : RefreshTokenRow} (known : Known users user) (mem : row ∈ tokens.rows)
    (hash : row.tokenHash = env.hash pair.refreshToken) (userId : row.userId = user.id)
    (claims : pair.accessToken = ⟨user.id, user.email, user.role, row.familyId⟩) :
    Backed env users tokens pair where
  user := by
    obtain ⟨found, hfound, same⟩ := known.findById
    obtain ⟨-, email, role, -⟩ := Identity.mk.inj same
    rw [claims]
    exact ⟨found, hfound, email, role⟩
  session := by
    rw [claims]
    exact ⟨row, mem, hash, userId, rfl⟩

section

variable {token : RefreshToken} {now : Instant} {draw : Draw}

theorem origins_save (save : tokens.save token now = some tokens') :
    tokens.rows.map origin <+: tokens'.rows.map origin := by
  rw [RefreshTokenTable.save_eq_some save, List.map_append]
  exact List.prefix_append _ _

theorem origins_updateMany (p : RefreshTokenRow → Bool) (set : Assignment) :
    (tokens.updateMany p set).1.rows.map origin = tokens.rows.map origin :=
  Table.map_updateMany fun row => by cases set <;> rfl

/-- A pair of a new session. -/
theorem Known.issued (known : Known users user)
    (save : tokens.save (issuedToken env now draw user.id none) now = some tokens') :
    Backed env users tokens' (issuedPair draw user (issuedToken env now draw user.id none)) := by
  have saved : ({ issuedToken env now draw user.id none with createdAt := now } : RefreshTokenRow) ∈
      tokens'.rows := by
    rw [RefreshTokenTable.save_eq_some save]
    exact List.mem_concat_self
  exact known.backed saved rfl rfl rfl

end

/-! ## What the phases of a session carry -/

def Answers (env : Env) (users : UserTable) (tokens : RefreshTokenTable) : Auth.Result → Prop
  | .loggedIn pair => Backed env users tokens pair
  | .refreshed _ pair => Backed env users tokens pair
  | .updated user => Known users user
  | _ => True

/-- A transaction that revokes, and its answer. -/
def Revokes (env : Env) (users : UserTable) (tokens : RefreshTokenTable) (tx : Revocation)
    (result : Auth.Result) : Prop :=
  (∀ user, tx.user = some user → Known users user) ∧ Answers env users tokens result

/-- The row that a refresh is about to save is that of its pair. -/
structure Replaces (env : Env) (users : UserTable) (row : RefreshTokenRow) (pair : TokenPair) :
    Prop where
  user : ∃ user, Known users user ∧ row.userId = user.id ∧
    pair.accessToken = ⟨user.id, user.email, user.role, row.familyId⟩
  hash : row.tokenHash = env.hash pair.refreshToken

/-- What holds of the phase of a process that serves a session. -/
def Holds (env : Env) (users : UserTable) (tokens : RefreshTokenTable) : Auth.Phase → Prop
  | .loginRead user _ _ => Known users user
  | .loginVerified user => Known users user
  | .loginSaved pair => Backed env users tokens pair
  | .rotating _ user _ => Known users user
  | .consumed _ user _ => Known users user
  | .replaced _ _ row pair => Replaces env users row pair
  | .passwordRead _ user _ _ _ => Known users user ∧ user.passwordHash.isSome = true
  | .passwordVerified _ user => Known users user
  | .renamed user => Known users user
  | .revoke tx result => Revokes env users tokens tx result
  | .revoking tx result _ => Revokes env users tokens tx result
  | .revoked tx result _ => Revokes env users tokens tx result
  | .done result => Answers env users tokens result
  | _ => True

theorem Answers.mono {result : Auth.Result} (h : Answers env users tokens result)
    (grows : Grows users users' tokens tokens') : Answers env users' tokens' result := by
  cases result with
  | loggedIn | refreshed => exact Backed.mono h grows
  | updated => exact Known.mono h grows
  | _ => trivial

theorem Holds.mono {phase : Auth.Phase} (h : Holds env users tokens phase)
    (grows : Grows users users' tokens tokens') : Holds env users' tokens' phase := by
  have revokes : ∀ tx result, Revokes env users tokens tx result →
      Revokes env users' tokens' tx result :=
    fun tx result h => ⟨fun user hu => (h.1 user hu).mono grows, h.2.mono grows⟩
  cases phase with
  | loginRead | loginVerified | rotating | consumed | passwordVerified | renamed =>
    exact Known.mono h grows
  | loginSaved => exact Backed.mono h grows
  | replaced =>
    obtain ⟨⟨user, known, same⟩, hash⟩ := h
    exact ⟨⟨user, known.mono grows, same⟩, hash⟩
  | passwordRead => exact ⟨h.1.mono grows, h.2⟩
  | revoke | revoking | revoked => exact revokes _ _ h
  | done => exact Answers.mono h grows
  | _ => trivial

/-- A reading step. -/
theorem Holds.read {s : Auth.State} {draw : Draw} {phase phase' : Auth.Phase}
    (h : Holds env s.users s.tokens phase) (read : Reads env s draw phase phase') :
    Holds env s.users s.tokens phase' := by
  cases read with
  | loggedIn => exact h
  | loginRead found hash => exact known_of_findByEmail found
  | loginVerified => exact h
  | rotating found => exact known_of_findById found
  | replaced same =>
    subst same
    exact ⟨⟨_, h, rfl, rfl⟩, rfl⟩
  | passwordRead found hash =>
    exact ⟨known_of_findById found, Option.isSome_iff_exists.2 ⟨_, hash_of_truthy hash⟩⟩
  | @passwordVerified _ user _ _ newHash =>
    obtain ⟨known, hash⟩ := h
    have same : User.identity (user.changePassword newHash) = User.identity user := by
      simp only [User.identity, identity, User.changePassword, hash, Option.isSome_some]
    rwa [Holds, Known, same]
  | renamed found rename =>
    obtain ⟨-, rfl⟩ := rename_eq_ok rename
    have known := known_of_findById found
    exact known
  | revoking => exact h
  | reused | logout | revokeSession => exact ⟨nofun, trivial⟩
  | _ => trivial

theorem holds_start (request : Auth.Request) (now : Instant) :
    Holds env users tokens (request.start now) := by
  cases request with
  | logoutAll => exact ⟨nofun, trivial⟩
  | _ => trivial

/-- The identities stay, and no session is lost. -/
theorem session_grows {s s' : Auth.State} {a : Auth.Label} (m : Auth.Moves env s a s')
    (h : ∀ p, Holds env s.users s.tokens (s.phase p)) :
    identities s'.users = identities s.users ∧
      s.tokens.rows.map origin <+: s'.tokens.rows.map origin := by
  cases m with
  | login _ _ save => exact ⟨rfl, origins_save save⟩
  | @rotate p _ found now row _ tokens _ save =>
    refine ⟨rfl, ?_⟩
    have saved := origins_save save
    rwa [RefreshTokenTable.markUsed, origins_updateMany] at saved
  | @rename p _ user at_update =>
    have known := h p
    rw [at_update] at known
    exact ⟨Known.identities_update known, List.prefix_rfl⟩
  | @revoke p _ tx result targets at_update =>
    have known := h p
    rw [at_update] at known
    refine ⟨?_, ?_⟩
    · show identities (tx.users s.users) = _
      unfold Revocation.users
      split
      · rfl
      · exact (known.1 _ ‹_›).identities_update
    · have same : (s.tokens.revokeRows targets tx.revokedAt).rows.map origin =
        s.tokens.rows.map origin := origins_updateMany _ _
      exact same ▸ List.prefix_rfl
  | _ => exact ⟨rfl, List.prefix_rfl⟩

theorem holds_of_moves {s s' : Auth.State} {a : Auth.Label} (m : Auth.Moves env s a s')
    (h : ∀ p, Holds env s.users s.tokens (s.phase p)) (q : Pid) :
    Holds env s'.users s'.tokens (s'.phase q) := by
  obtain ⟨identities, origins⟩ := session_grows m h
  have grows : Grows s.users s'.users s.tokens s'.tokens := ⟨identities ▸ List.prefix_rfl, origins⟩
  by_cases hq : a.pid = some q
  · have holds := (h q).mono grows
    cases m with
    | advance => cases hq
    | @arrive p request =>
      obtain rfl := Option.some.inj hq
      rw [Auth.enter_phase_self]
      exact holds_start request s.clock
    | read read =>
      obtain rfl := Option.some.inj hq
      rw [Auth.enter_phase_self]
      exact holds.read (reads_of_advance read)
    | @login p _ _ _ at_save _ save =>
      obtain rfl := Option.some.inj hq
      have known := h p
      rw [at_save] at known
      rw [Auth.enter_phase_self]
      exact Known.issued known save
    | consume at_lock =>
      obtain rfl := Option.some.inj hq
      rw [at_lock] at holds
      rw [Auth.enter_phase_self]
      exact holds
    | @rotate p _ _ _ row _ tokens at_commit save =>
      obtain rfl := Option.some.inj hq
      have known := h p
      rw [at_commit] at known
      obtain ⟨⟨user, known, userId, claims⟩, hash⟩ := known
      rw [Auth.finish_phase_self]
      refine Known.backed known ?_ hash userId claims
      show row ∈ tokens.rows
      rw [RefreshTokenTable.save_eq_some save]
      exact List.mem_concat_self
    | lockUser at_lock =>
      obtain rfl := Option.some.inj hq
      rw [at_lock] at holds
      rw [Auth.enter_phase_self]
      refine ⟨fun user hu => ?_, trivial⟩
      obtain rfl := Option.some.inj hu
      exact holds
    | lockTokens at_lock =>
      obtain rfl := Option.some.inj hq
      rw [at_lock] at holds
      rw [Auth.enter_phase_self]
      exact holds
    | rename at_update =>
      obtain rfl := Option.some.inj hq
      rw [at_update] at holds
      rw [Auth.finish_phase_self]
      exact holds
    | revoke at_update =>
      obtain rfl := Option.some.inj hq
      rw [at_update] at holds
      rw [Auth.finish_phase_self]
      exact holds.2
    | fail | lose | gone =>
      obtain rfl := Option.some.inj hq
      rw [Auth.finish_phase_self]
      trivial
  · rw [m.phase_of_ne hq]
    exact (h q).mono grows

/-! ## What the other requests carry -/

/-- What holds of the phase of a `CompleteKakaoSignup`. -/
def Completing (env : Env) (users : UserTable) (tokens : RefreshTokenTable) :
    KakaoSignup.Phase → Prop
  | .issuing user => Known users user
  | .done (.session pair) => Backed env users tokens pair
  | _ => True

/-- What holds of the phase of a `SignUp` or a `KakaoLogin`. -/
def Entering (env : Env) (users : UserTable) (tokens : RefreshTokenTable) : Phase → Prop
  | .issuing user => Known users user
  | .issued pair => Backed env users tokens pair
  | .done (.session pair) => Backed env users tokens pair
  | _ => True

theorem Completing.mono {phase : KakaoSignup.Phase} (h : Completing env users tokens phase)
    (grows : Grows users users' tokens tokens') : Completing env users' tokens' phase := by
  cases phase with
  | issuing => exact Known.mono h grows
  | done result =>
    cases result with
    | session => exact Backed.mono h grows
    | _ => trivial
  | _ => trivial

theorem Entering.mono {phase : Phase} (h : Entering env users tokens phase)
    (grows : Grows users users' tokens tokens') : Entering env users' tokens' phase := by
  cases phase with
  | issuing => exact Known.mono h grows
  | issued => exact Backed.mono h grows
  | done result =>
    cases result with
    | session => exact Backed.mono h grows
    | _ => trivial
  | _ => trivial

theorem completing_start (input : CompleteKakaoSignupInput) (now : Instant) :
    Completing env users tokens (input.start jwt now) := by
  unfold CompleteKakaoSignupInput.start
  split_ifs
  · split
    · trivial
    · split <;> trivial
  · trivial

theorem entering_start (request : Request) : Entering env users tokens request.start := by
  unfold Request.start
  split
  · split_ifs <;> trivial
  · trivial
  · split <;> trivial

variable {s s' s₀ : State} {a : Label} {tr tr' : List (Step State Label)}

/-- What the processes carry is right. -/
structure Carried (env : Env) (s : State) : Prop where
  sessions : ∀ p, Holds env s.users s.tokens (s.sessions.phase p)
  completion : ∀ p, Completing env s.users s.tokens (s.completion p)
  phase : ∀ p, Entering env s.users s.tokens (s.phase p)

theorem identities_insertUser (saved : KakaoSignup.insertUser users user = some users') :
    identities users' = identities users ++ [User.identity user] := by
  rw [identities, (KakaoSignup.insertUser_eq_some saved).2, List.map_append]
  rfl

theorem identities_saveWithAccount {accounts accounts' : AccountTable}
    {link : KakaoSignup.AuthProvider × String} {id : KakaoSignup.AccountId}
    (saved : KakaoSignup.saveWithAccount users accounts user link id = some (users', accounts')) :
    identities users' = identities users ++ [User.identity user] := by
  rw [identities, (KakaoSignup.saveWithAccount_eq_some saved).2.2.1, List.map_append]
  rfl

theorem known_newcomer (rows : identities users' = identities users ++ [User.identity user]) :
    Known users' user := by
  rw [Known, rows]
  exact List.mem_concat_self

theorem Completes.grows {s s' : KakaoSignup.State} {a : KakaoSignup.Label}
    (m : Completes env jwt s a s') : Grows s.users s'.users s.tokens s'.tokens := by
  cases m with
  | saved _ _ saved =>
    exact ⟨identities_saveWithAccount saved ▸ List.prefix_append _ _, List.prefix_rfl⟩
  | issued _ saved => exact ⟨List.prefix_rfl, origins_save saved⟩
  | _ => exact .refl _ _

theorem Moves.grows (m : Moves env jwt s a s') (h : Carried env s) :
    Grows s.users s'.users s.tokens s'.tokens := by
  cases m with
  | session next =>
    obtain ⟨identities, origins⟩ := session_grows (moves_of_next next) h.sessions
    exact ⟨identities ▸ List.prefix_rfl, origins⟩
  | complete move => exact move.grows
  | created _ _ saved =>
    exact ⟨identities_insertUser saved ▸ List.prefix_append _ _, List.prefix_rfl⟩
  | issued _ saved => exact ⟨List.prefix_rfl, origins_save saved⟩
  | _ => exact .refl _ _

theorem completing_of_move {s s' : KakaoSignup.State} {a : KakaoSignup.Label}
    (m : Completes env jwt s a s') (h : ∀ p, Completing env s.users s.tokens (s.phase p)) (q : Pid) :
    Completing env s'.users s'.tokens (s'.phase q) := by
  have enters : ∀ p phase, Completing env s'.users s'.tokens phase →
      Completing env s'.users s'.tokens (Function.update s.phase p phase q) :=
    fun p phase entered => (Function.forall_update_iff s.phase fun _ phase =>
      Completing env s'.users s'.tokens phase).2 ⟨entered, fun q _ => (h q).mono m.grows⟩ q
  cases m with
  | @arrive p input =>
    exact enters p _ (completing_start input s.clock)
  | found _ found => exact enters _ _ (known_of_findById found)
  | saved _ _ saved => exact enters _ _ (known_newcomer (identities_saveWithAccount saved))
  | @issued p _ _ _ at_issue saved =>
    have known := h p
    rw [at_issue] at known
    exact enters _ _ (Known.issued known saved)
  | _ => exact enters _ _ trivial

theorem Carried.of_moves (h : Carried env s) (m : Moves env jwt s a s') : Carried env s' := by
  have grows := m.grows h
  have enters : ∀ p phase, Entering env s'.users s'.tokens phase →
      ∀ q, Entering env s'.users s'.tokens (Function.update s.phase p phase q) :=
    fun p phase entered => (Function.forall_update_iff s.phase fun _ phase =>
      Entering env s'.users s'.tokens phase).2 ⟨entered, fun q _ => (h.phase q).mono grows⟩
  have sessions : ∀ p, Holds env s'.users s'.tokens (s.sessions.phase p) :=
    fun p => (h.sessions p).mono grows
  have completion : ∀ p, Completing env s'.users s'.tokens (s.completion p) :=
    fun p => (h.completion p).mono grows
  cases m with
  | session next =>
    exact ⟨holds_of_moves (moves_of_next next) h.sessions, completion, fun p => (h.phase p).mono grows⟩
  | complete move =>
    exact ⟨sessions, completing_of_move move h.completion, fun p => (h.phase p).mono grows⟩
  | failComplete =>
    exact ⟨sessions, (Function.forall_update_iff s.completion fun _ phase =>
      Completing env s.users s.tokens phase).2 ⟨trivial, fun p _ => completion p⟩, h.phase⟩
  | @arrive p request =>
    exact ⟨sessions, completion, enters p _ (entering_start request)⟩
  | found _ found => exact ⟨sessions, completion, enters _ _ (known_of_findById found)⟩
  | @issued p _ _ _ at_issue saved =>
    have known := h.phase p
    rw [at_issue] at known
    exact ⟨sessions, completion, enters p _ (Known.issued known saved)⟩
  | @hand p _ _ at_answer =>
    have backed := h.phase p
    rw [at_answer] at backed
    exact ⟨sessions, completion, enters p _ backed⟩
  | _ => exact ⟨sessions, completion, enters _ _ trivial⟩

theorem carried_of_start (init : (accounts env jwt).start s) : Carried env s := by
  obtain ⟨⟨-, -, -, -, idle⟩, idle', idle''⟩ := init
  refine ⟨fun p => ?_, fun p => ?_, fun p => ?_⟩
  · rw [idle]
    trivial
  · rw [show s.completion = fun _ => .idle from idle']
    trivial
  · rw [idle'']
    trivial

theorem carried_of_run {C : State → Label → Prop} (init : (accounts env jwt).start s₀)
    (run : (accounts env jwt).Run C s₀ tr s) : Carried env s :=
  run.invariant (fun _ _ _ h _ next => h.of_moves (.of_next next)) (carried_of_start init)

theorem Carried.backed (h : Carried env s) (issued : Issued s pair) :
    Backed env s.users s.tokens pair := by
  cases issued with
  | @loggedIn p _ answered =>
    have holds := h.sessions p
    rwa [answered] at holds
  | @refreshed p _ _ answered =>
    have holds := h.sessions p
    rwa [answered] at holds
  | @completed p _ answered =>
    have holds := h.completion p
    rwa [answered] at holds
  | @kakao p _ answered =>
    have holds := h.phase p
    rwa [answered] at holds

/-- The claims of an access token that has been handed out are right in every later state. -/
theorem claims_stay_true (init : (accounts env jwt).start s₀)
    (run : (accounts env jwt).Run Any s₀ tr s) (issued : Issued s pair)
    (later : (accounts env jwt).Run Any s tr' s') : Backed env s'.users s'.tokens pair := by
  have carried := carried_of_run init run
  have grown : Carried env s' ∧ Grows s.users s'.users s.tokens s'.tokens := by
    refine later.invariant
      (I := fun t => Carried env t ∧ Grows s.users t.users s.tokens t.tokens) ?_
      ⟨carried, .refl _ _⟩
    rintro t b u ⟨carried, grown⟩ - next
    have grows := (Moves.of_next next).grows carried
    exact ⟨carried.of_moves (.of_next next), grown.identities.trans grows.identities,
      grown.origins.trans grows.origins⟩
  exact (carried.backed issued).mono grown.2

/-! ## A user who signs up and logs in -/

/-- No user yet, and nobody at work. -/
def deserted : State where
  sessions :=
    { clock := 0, users := KakaoSignup.nobody.users, tokens := KakaoSignup.nobody.tokens,
      userLock := .free, tokenLock := .free, request := fun _ => none, phase := fun _ => .idle }
  accounts := KakaoSignup.nobody.accounts
  completion _ := .idle
  phase _ := .idle

theorem deserted_start (env : Env) (jwt : JwtModule) : (accounts env jwt).start deserted :=
  ⟨⟨rfl, rfl, rfl, rfl, rfl⟩, rfl, rfl⟩

/-- The next step of the process `p`, which draws `n`. -/
def turn (p : Pid) (n : ℕ) : Label := .step p ⟨n, n, n, toString n, n⟩

/-- The steps of a `SignUp` that draws `n`. -/
def signingUp (p : Pid) (n : ℕ) (email : String) (role : Option Role) : List Label :=
  [.arrive p (.signUp ⟨email, "A", "pw", role⟩ "bcrypt:pw"), turn p n, turn p n, turn p (n + 1)]

/-- A user signs up, logs in and is renamed. -/
theorem claims_stay_true_renamed : ∃ tr s tr' s',
    (accounts taggedEnv KakaoSignup.module).Run Any deserted tr s ∧
    Issued s ⟨⟨1, "a@b.c", .tenant, 2⟩, "t"⟩ ∧
    (accounts taggedEnv KakaoSignup.module).Run Any s tr' s' ∧
    s'.users.rows.map (·.name) = ["B"] ∧
    Backed taggedEnv s'.users s'.tokens ⟨⟨1, "a@b.c", .tenant, 2⟩, "t"⟩ := by
  have computed : ((accounts taggedEnv KakaoSignup.module).exec (fun _ _ => true) deserted
      (signingUp 0 1 "a@b.c" none ++ (loginSteps 0 ⟨2, "t", 2⟩).map .session)).bind (fun s =>
        ((accounts taggedEnv KakaoSignup.module).exec (fun _ _ => true) s
          ([.arrive 1 (.updateProfile 1 "B"), go 1, go 1].map .session)).map fun s' =>
            (s.sessions.phase 0, s'.users.rows.map (·.name))) =
      some (.done (.loggedIn ⟨⟨1, "a@b.c", .tenant, 2⟩, "t"⟩), ["B"]) := by
    decide
  obtain ⟨s, reached, rest⟩ := Option.bind_eq_some_iff.1 computed
  obtain ⟨s', reached', seen⟩ := Option.map_eq_some_iff.1 rest
  obtain ⟨answered, renamed⟩ := Prod.mk.inj seen
  obtain ⟨run, -⟩ := run_of_exec (C := Any) (fun _ _ _ => trivial) reached
  obtain ⟨later, -⟩ := run_of_exec (C := Any) (fun _ _ _ => trivial) reached'
  exact ⟨_, s, _, s', run, .loggedIn answered, later, renamed,
    claims_stay_true (deserted_start _ _) run (.loggedIn answered) later⟩

end EstateServer.Auth.Accounts
