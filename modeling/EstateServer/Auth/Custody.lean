import EstateServer.Auth.Registry

/-!
# Where a password comes from

Requests write whole users back, and a late write may bring an older password back
(`old_password_restored`).  It is always one of the user's own: `custody` says that a password hash of
the table goes back, through changes each of which has verified the password before it, to the sign-up
of the user or to the start.  So a login is of somebody who has given such a password, and a user who
has signed up with Kakao is never logged in with one.
-/

namespace EstateServer.Auth.Accounts

open Machine
open KakaoSignup (AccountTable CompleteKakaoSignupInput Draws)

/-! ## The statement -/

/-- The hash of a password that the user has had. -/
inductive Given (env : Env) (log : List Event) (s₀ : State) : UserId → String → Prop
  | start {row : UserRow} {hash : String} (mem : row ∈ s₀.users.rows)
      (same : row.passwordHash = some hash) : Given env log s₀ row.id hash
  | signUp {p : Pid} {user : User} {hash : String} (signedUp : .signedUp p user ∈ log)
      (same : user.passwordHash = some hash) : Given env log s₀ user.id hash
  | change {p : Pid} {userId : UserId} {hash currentPassword newHash : String}
      (given : Given env log s₀ userId hash)
      (asked : .asked p (.changePassword userId currentPassword newHash) ∈ log)
      (verified : env.compare currentPassword hash = true) : Given env log s₀ userId newHash

/-- The process serves a login with the email of the user and a password that the user has had. -/
def Entered (env : Env) (log : List Event) (s₀ : State) (p : Pid) (userId : UserId)
    (email : String) : Prop :=
  ∃ password hash, .asked p (.login email password) ∈ log ∧ Given env log s₀ userId hash ∧
    env.compare password hash = true

structure Custody (env : Env) (log : List Event) (s₀ s : State) : Prop where
  hash : ∀ row ∈ s.users.rows, ∀ hash, row.passwordHash = some hash → Given env log s₀ row.id hash
  login : ∀ p pair, s.sessions.phase p = .done (.loggedIn pair) →
    Entered env log s₀ p pair.accessToken.sub pair.accessToken.email
  /-- Without a password at the sign-up there is none later. -/
  passwordless : ∀ p user providerId, .linked p user providerId ∈ log →
    (∀ row ∈ s.users.rows, row.id = user.id → row.passwordHash = none) ∧
    ∀ q pair, s.sessions.phase q = .done (.loggedIn pair) → pair.accessToken.sub ≠ user.id

/-! ## The users that a session carries -/

variable {env : Env} {jwt : JwtModule} {log : List Event} {s s' s₀ : State} {a : Label} {p : Pid}
  {user : User} {userId : UserId} {hash : String} {tr : List (Step State Label)}

theorem Given.mono (h : Given env log s₀ userId hash) (more : List Event) :
    Given env (log ++ more) s₀ userId hash := by
  induction h with
  | start mem same => exact .start mem same
  | signUp signedUp same => exact .signUp (List.mem_append_left _ signedUp) same
  | change _ asked verified ih => exact .change ih (List.mem_append_left _ asked) verified

theorem Entered.mono {email : String} (h : Entered env log s₀ p userId email) (more : List Event) :
    Entered env (log ++ more) s₀ p userId email := by
  obtain ⟨password, hash, asked, given, verified⟩ := h
  exact ⟨password, hash, List.mem_append_left _ asked, given.mono more, verified⟩

/-- The password hash of the user is one that he has had. -/
def Owned (env : Env) (log : List Event) (s₀ : State) (user : User) : Prop :=
  ∀ hash, user.passwordHash = some hash → Given env log s₀ user.id hash

def OwnedRows (env : Env) (log : List Event) (s₀ : State) (users : UserTable) : Prop :=
  ∀ row ∈ users.rows, Owned env log s₀ row.toUser

theorem Owned.mono (h : Owned env log s₀ user) (more : List Event) :
    Owned env (log ++ more) s₀ user := fun hash same => (h hash same).mono more

/-- What holds of the phase of a process that serves a session. -/
def Keeps (env : Env) (log : List Event) (s₀ : State) (p : Pid) : Auth.Phase → Prop
  | .login email password => .asked p (.login email password) ∈ log
  | .loginRead user password hash => .asked p (.login user.email password) ∈ log ∧
      Given env log s₀ user.id hash
  | .loginVerified user => Entered env log s₀ p user.id user.email
  | .loginSaved pair => Entered env log s₀ p pair.accessToken.sub pair.accessToken.email
  | .changePassword userId currentPassword newHash =>
      .asked p (.changePassword userId currentPassword newHash) ∈ log
  | .passwordRead _ user currentPassword hash newHash =>
      .asked p (.changePassword user.id currentPassword newHash) ∈ log ∧
        Given env log s₀ user.id hash
  | .passwordVerified _ user => Owned env log s₀ user
  | .renamed user => Owned env log s₀ user
  | .revoke tx result => (∀ user, tx.user = some user → Owned env log s₀ user) ∧
      ∀ pair, result ≠ .loggedIn pair
  | .revoking tx result _ => (∀ user, tx.user = some user → Owned env log s₀ user) ∧
      ∀ pair, result ≠ .loggedIn pair
  | .revoked tx result _ => (∀ user, tx.user = some user → Owned env log s₀ user) ∧
      ∀ pair, result ≠ .loggedIn pair
  | .done (.loggedIn pair) => Entered env log s₀ p pair.accessToken.sub pair.accessToken.email
  | _ => True

theorem Keeps.mono {phase : Auth.Phase} (h : Keeps env log s₀ p phase) (more : List Event) :
    Keeps env (log ++ more) s₀ p phase := by
  cases phase with
  | login | changePassword => exact List.mem_append_left _ h
  | loginRead | passwordRead => exact ⟨List.mem_append_left _ h.1, h.2.mono more⟩
  | loginVerified | loginSaved => exact Entered.mono h more
  | passwordVerified | renamed => exact Owned.mono h more
  | revoke | revoking | revoked => exact ⟨fun user hu => (h.1 user hu).mono more, h.2⟩
  | done result =>
    cases result with
    | loggedIn => exact Entered.mono h more
    | _ => trivial
  | _ => trivial

theorem keeps_start (log : List Event) (p : Pid) (request : Auth.Request) (now : Instant) :
    Keeps env (log ++ [.asked p request]) s₀ p (request.start now) := by
  cases request with
  | login | changePassword => exact List.mem_concat_self
  | logoutAll => exact ⟨nofun, nofun⟩
  | _ => trivial

theorem OwnedRows.findById {users : UserTable} (h : OwnedRows env log s₀ users)
    (found : users.findById (some userId) = some user) : user.id = userId ∧ Owned env log s₀ user := by
  obtain ⟨row, mem, id, -, rfl⟩ := UserTable.findById_eq_some.1 found
  exact ⟨id, h row mem⟩

theorem OwnedRows.findByEmail {users : UserTable} {email : String} (h : OwnedRows env log s₀ users)
    (found : users.findByEmail email = some user) : user.email = email ∧ Owned env log s₀ user := by
  obtain ⟨row, hit, rfl⟩ := Option.map_eq_some_iff.1 found
  obtain ⟨same, -⟩ : row.email = email ∧ row.deletedAt = none := by
    simpa using List.find?_some hit
  exact ⟨same, h row (List.mem_of_find?_eq_some hit)⟩

/-- Writing back a user with a password of his own. -/
theorem OwnedRows.update {users : UserTable} (h : OwnedRows env log s₀ users)
    (owned : Owned env log s₀ user) : OwnedRows env log s₀ (users.update user).1 := by
  intro row' mem'
  obtain ⟨row, mem, rfl⟩ := Table.mem_updateMany.1 mem'
  split_ifs with hit
  · have id : row.id = user.id := of_decide_eq_true hit
    intro hash same
    exact id ▸ owned hash same
  · exact h row mem

theorem Keeps.read {t : Auth.State} {draw : Draw} {phase phase' : Auth.Phase}
    (h : Keeps env log s₀ p phase) (rows : OwnedRows env log s₀ t.users)
    (read : Reads env t draw phase phase') : Keeps env log s₀ p phase' := by
  cases read with
  | loggedIn => exact h
  | loginRead found hash =>
    obtain ⟨rfl, owned⟩ := rows.findByEmail found
    exact ⟨h, owned _ (hash_of_truthy hash)⟩
  | loginVerified compare => exact ⟨_, _, h.1, h.2, compare⟩
  | passwordRead found hash =>
    obtain ⟨rfl, owned⟩ := rows.findById found
    exact ⟨h, owned _ (hash_of_truthy hash)⟩
  | passwordVerified compare =>
    intro hash same
    obtain rfl := Option.some.inj same
    exact .change h.2 h.1 compare
  | renamed found rename =>
    obtain ⟨-, rfl⟩ := rename_eq_ok rename
    obtain ⟨-, owned⟩ := rows.findById found
    exact owned
  | revoking => exact h
  | reused | logout | revokeSession => exact ⟨nofun, nofun⟩
  | _ => trivial

theorem rows_of_moves {t t' : Auth.State} {a : Auth.Label} (m : Auth.Moves env t a t')
    (rows : OwnedRows env log s₀ t.users) (h : ∀ p, Keeps env log s₀ p (t.phase p)) :
    OwnedRows env log s₀ t'.users := by
  cases m with
  | @rename p _ user at_update =>
    have keeps := h p
    rw [at_update] at keeps
    exact rows.update keeps
  | @revoke p _ tx _ _ at_update =>
    have keeps := h p
    rw [at_update] at keeps
    show OwnedRows env log s₀ (tx.users t.users)
    unfold Revocation.users
    split
    · exact rows
    · exact rows.update (keeps.1 _ ‹_›)
  | _ => exact rows

theorem keeps_of_moves {t t' : Auth.State} {a : Auth.Label} (m : Auth.Moves env t a t')
    (rows : OwnedRows env log s₀ t.users) (h : ∀ p, Keeps env log s₀ p (t.phase p)) (q : Pid) :
    Keeps env (log ++ (event ⟨s, .session a, s'⟩).toList) s₀ q (t'.phase q) := by
  by_cases hq : a.pid = some q
  · have keeps := h q
    cases m with
    | advance => cases hq
    | @arrive p request =>
      obtain rfl := Option.some.inj hq
      rw [Auth.enter_phase_self]
      exact keeps_start log p request t.clock
    | read read =>
      obtain rfl := Option.some.inj hq
      rw [Auth.enter_phase_self]
      exact (keeps.read rows (reads_of_advance read)).mono _
    | login at_save =>
      obtain rfl := Option.some.inj hq
      rw [at_save] at keeps
      rw [Auth.enter_phase_self]
      exact Entered.mono keeps _
    | lockUser at_lock =>
      obtain rfl := Option.some.inj hq
      rw [at_lock] at keeps
      rw [Auth.enter_phase_self]
      refine ⟨fun user hu => ?_, nofun⟩
      obtain rfl := Option.some.inj hu
      exact Owned.mono keeps _
    | lockTokens at_lock =>
      obtain rfl := Option.some.inj hq
      rw [at_lock] at keeps
      rw [Auth.enter_phase_self]
      exact ⟨fun user hu => (keeps.1 user hu).mono _, keeps.2⟩
    | @revoke p _ _ result _ at_update =>
      obtain rfl := Option.some.inj hq
      rw [at_update] at keeps
      rw [Auth.finish_phase_self]
      cases result with
      | loggedIn pair => exact absurd rfl (keeps.2 pair)
      | _ => trivial
    | consume =>
      obtain rfl := Option.some.inj hq
      rw [Auth.enter_phase_self]
      trivial
    | fail | lose | rotate | gone | rename =>
      obtain rfl := Option.some.inj hq
      rw [Auth.finish_phase_self]
      trivial
  · rw [m.phase_of_ne hq]
    exact (h q).mono _

/-! ## Runs -/

/-- Every password hash, in the table and on its way there, is one that its user has had. -/
structure Guarded (env : Env) (log : List Event) (s₀ s : State) : Prop where
  rows : OwnedRows env log s₀ s.users
  sessions : ∀ p, Keeps env log s₀ p (s.sessions.phase p)

/-- A `CompleteKakaoSignup` inserts users without a password. -/
theorem rows_of_completes {t t' : KakaoSignup.State} {a : KakaoSignup.Label} {row : UserRow}
    (m : Completes env jwt t a t') (mem : row ∈ t'.users.rows) :
    row ∈ t.users.rows ∨ row.passwordHash = none := by
  cases m with
  | saved _ created saved =>
    simp only [KakaoSignup.State.enter, (KakaoSignup.saveWithAccount_eq_some saved).2.2.1] at mem
    refine (List.mem_append.1 mem).imp id fun new => ?_
    rw [List.mem_singleton.1 new, User.createOAuth_eq_ok created]
  | _ => exact .inl mem

theorem Guarded.of_moves (h : Guarded env log s₀ s) (m : Moves env jwt s a s') :
    Guarded env (log ++ (event ⟨s, a, s'⟩).toList) s₀ s' := by
  have keeps : ∀ more p, Keeps env (log ++ more) s₀ p (s.sessions.phase p) :=
    fun more p => (h.sessions p).mono more
  cases m with
  | session next =>
    exact ⟨fun row mem => (rows_of_moves (moves_of_next next) h.rows h.sessions row mem).mono _,
      keeps_of_moves (moves_of_next next) h.rows h.sessions⟩
  | complete move =>
    refine ⟨fun row mem => ?_, keeps _⟩
    rcases rows_of_completes move mem with old | none
    · exact (h.rows row old).mono _
    · intro hash same
      rw [none] at same
      cases same
  | @created p draws input passwordHash user users at_save user_eq saved =>
    refine ⟨fun row mem => ?_, keeps _⟩
    have mem : row ∈ users.rows := mem
    rw [(KakaoSignup.insertUser_eq_some saved).2] at mem
    rcases List.mem_append.1 mem with old | new
    · exact (h.rows row old).mono _
    · rw [List.mem_singleton.1 new]
      intro hash same
      refine .signUp (p := p) (List.mem_append_right _ ?_) same
      simp [event]
  | _ => exact ⟨fun row mem => (h.rows row mem).mono _, keeps _⟩

theorem guarded_of_run {C : State → Label → Prop} (init : (accounts env jwt).start s₀)
    (run : (accounts env jwt).Run C s₀ tr s) : Guarded env (events event tr) s₀ s := by
  refine run.log_invariant (I := fun log s => Guarded env log s₀ s)
    (fun _ _ _ _ h _ next => h.of_moves (.of_next next)) ?_
  obtain ⟨⟨-, -, -, -, idle⟩, -⟩ := init
  refine ⟨fun row mem hash same => .start mem same, fun p => ?_⟩
  rw [idle]
  trivial

/-- Who has had a password has had one from the beginning. -/
theorem Given.hasPassword (h : Given env log s₀ userId hash) (registry : Registry jwt log s₀ s) :
    ∃ who ∈ identities s.users, who.id = userId ∧ who.hasPassword = true := by
  induction h with
  | @start row hash mem same =>
    refine ⟨identity row, ?_, rfl, by simp [identity, same]⟩
    rw [registry.users]
    exact List.mem_append_left _ (List.mem_map_of_mem mem)
  | @signUp p user hash signedUp same =>
    refine ⟨User.identity user, ?_, rfl, by simp [User.identity, identity, same]⟩
    rw [registry.users]
    exact List.mem_append_right _ (List.mem_filterMap.2 ⟨_, signedUp, rfl⟩)
  | change _ _ _ ih => exact ih

/-- A password hash goes back to the sign-up of its user, and so does a login with a password. -/
theorem custody (init : (accounts env jwt).start s₀) (run : (accounts env jwt).Run Any s₀ tr s) :
    Custody env (events event tr) s₀ s := by
  have guarded := guarded_of_run init run
  have registry := (sound_of_run init run).registry
  have login : ∀ p pair, s.sessions.phase p = .done (.loggedIn pair) →
      Entered env (events event tr) s₀ p pair.accessToken.sub pair.accessToken.email := by
    intro p pair answered
    have keeps := guarded.sessions p
    rwa [answered] at keeps
  refine ⟨guarded.rows, login, fun p user providerId linked => ?_⟩
  have without : ∀ userId hash, Given env (events event tr) s₀ userId hash → userId ≠ user.id := by
    rintro userId hash given rfl
    obtain ⟨who, mem, id, has⟩ := given.hasPassword registry
    obtain ⟨payload, -, -, user_eq⟩ := registry.linked p user providerId linked
    have mem' : User.identity user ∈ identities s.users := by
      rw [registry.users]
      exact List.mem_append_right _ (List.mem_filterMap.2 ⟨_, linked, rfl⟩)
    have unique : Table.Unique Identity.id (identities s.users) := by
      rw [Table.Unique, identities, List.map_map]
      exact s.users.id_unique
    rw [unique.eq_of_mem mem mem' id, user_eq] at has
    cases has
  refine ⟨fun row mem id => ?_, fun q pair answered => ?_⟩
  · cases same : row.passwordHash with
    | none => rfl
    | some hash => exact absurd id (without row.id hash (guarded.rows row mem hash same))
  · obtain ⟨password, hash, -, given, -⟩ := login q pair answered
    exact without _ hash given

/-- A user signs up, logs in, changes the password and logs in again. -/
theorem custody_of_change : ∃ tr s, (accounts taggedEnv KakaoSignup.module).Run Any deserted tr s ∧
    s.sessions.phase 2 = .done (.loggedIn ⟨⟨1, "a@b.c", .tenant, 3⟩, "u"⟩) ∧
    s.users.rows.map (·.passwordHash) = [some "bcrypt:new"] ∧
    Custody taggedEnv (events event tr) deserted s := by
  have computed : ((accounts taggedEnv KakaoSignup.module).exec (fun _ _ => true) deserted
      (signingUp 0 1 "a@b.c" none ++ (loginSteps 0 ⟨2, "t", 2⟩ ++
        [.arrive 1 (.changePassword 1 "pw" "bcrypt:new"), go 1, go 1, go 1, go 1, go 1, go 1,
          .arrive 2 (.login "a@b.c" "new"), go 2, go 2, .step 2 ⟨3, "u", 3⟩, go 2]).map
        .session)).map (fun s => (s.sessions.phase 2, s.users.rows.map (·.passwordHash))) =
      some (.done (.loggedIn ⟨⟨1, "a@b.c", .tenant, 3⟩, "u"⟩), [some "bcrypt:new"]) := by
    decide
  obtain ⟨s, reached, seen⟩ := Option.map_eq_some_iff.1 computed
  obtain ⟨answered, changed⟩ := Prod.mk.inj seen
  obtain ⟨run, -⟩ := run_of_exec (C := Any) (fun _ _ _ => trivial) reached
  exact ⟨_, s, run, answered, changed, custody (deserted_start _ _) run⟩

end EstateServer.Auth.Accounts
