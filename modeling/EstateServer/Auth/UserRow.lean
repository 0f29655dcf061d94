import EstateServer.Auth.Interleaving

/-!
# When the updates of a user row are serial

`UpdateProfile` and `ChangePassword` read the whole user and later write name and password hash back
together.  `current` is the condition that what such a write takes from its read is still so: the hash
that a renaming writes back, the name that a password change writes back, and that the password it has
checked is still the password.  Then the table is the result of the committed requests one after the
other (`users_serial_of_current`).  Without it a renaming brings an old password back
(`old_password_restored`).
-/

namespace EstateServer.Auth

open Machine

variable {env : Env} {s s' : State} {a : Label} {p q : Pid}

/-! ## The committed requests, and running them in sequence -/

/-- The request whose write of the user the step commits. -/
def committedWrite (s : State) : Label → Option Request
  | .step p _ =>
    match s.phase p with
    | .renamed _ => s.request p
    | .revoked tx _ _ => if tx.user.isSome then s.request p else none
    | _ => none
  | _ => none

/-- The users after a request that runs alone and succeeds. -/
def runAlone (env : Env) (tokens : RefreshTokenTable) (users : UserTable) : Request → Option UserTable
  | .updateProfile userId name =>
    match updateProfile ⟨users, tokens⟩ (some userId) name with
    | (.ok _, db) => some db.users
    | (.error _, _) => none
  | .changePassword userId currentPassword newHash =>
    match changePassword env 0 ⟨users, tokens⟩ (some userId) currentPassword newHash with
    | (.ok _, db) => some db.users
    | (.error _, _) => none
  | _ => none

/-- The users after the requests have run one after the other, each with success. -/
def serial (env : Env) (tokens : RefreshTokenTable) (users : UserTable) (requests : List Request) :
    Option UserTable :=
  requests.foldlM (runAlone env tokens) users

/-! ## The condition on writes -/

/-- A write of a user takes nothing from its read that has changed since. -/
def current (env : Env) (s : State) : Label → Bool
  | .step p _ =>
    match s.phase p, s.request p with
    | .renamed user, _ =>
      ∀ row ∈ s.users.rows, row.id = user.id → row.passwordHash = user.passwordHash
    | .revoked ⟨_, _, some user⟩ _ _, some (.changePassword _ currentPassword _) =>
      ∀ row ∈ s.users.rows, row.id = user.id → row.name = user.name ∧
        (Js.truthy row.passwordHash).any (env.compare currentPassword) = true
    | _, _ => true
  | _ => true

/-! ## What a process knows of its user -/

/-- The user is there. -/
def Live (users : UserTable) (userId : UserId) : Prop :=
  ∃ row ∈ users.rows, row.id = userId ∧ row.deletedAt = none

/-- The user as the request `changePassword userId currentPassword newHash` writes it. -/
def Rehashed (users : UserTable) (request : Option Request) (user : User) : Prop :=
  ∃ currentPassword newHash, request = some (.changePassword user.id currentPassword newHash) ∧
    user.passwordHash = some newHash ∧ Live users user.id

/-- What holds of the phase of a process that serves `request`. -/
def Phase.Serves (users : UserTable) (request : Option Request) : Phase → Prop
  | changePassword userId currentPassword newHash =>
      request = some (.changePassword userId currentPassword newHash)
  | passwordRead userId user currentPassword _ newHash =>
      request = some (.changePassword userId currentPassword newHash) ∧ user.id = userId ∧
        Live users user.id
  | passwordVerified userId user => user.id = userId ∧ Rehashed users request user
  | updateProfile userId name => request = some (.updateProfile userId name)
  | renamed user => ∃ name, request = some (.updateProfile user.id name) ∧
      user.name = Js.trim name ∧ Js.trim name ≠ "" ∧ Live users user.id
  | revoke tx _ => ∀ user, tx.user = some user → Rehashed users request user
  | revoking tx _ _ => ∀ user, tx.user = some user → Rehashed users request user
  | revoked tx _ _ => ∀ user, tx.user = some user → Rehashed users request user
  | _ => True

/-- Every process serves its request. -/
def Serving (s : State) : Prop := ∀ p, (s.phase p).Serves s.users (s.request p)

/-! ## Updates keep the users -/

theorem Live.update {users : UserTable} {userId : UserId} (h : Live users userId) (user : User) :
    Live (users.update user).1 userId := by
  obtain ⟨row, hrow, hid, alive⟩ := h
  refine ⟨_, Table.mem_updateMany.2 ⟨row, hrow, rfl⟩, ?_⟩
  split_ifs
  · exact ⟨hid, alive⟩
  · exact ⟨hid, alive⟩

theorem Live.users {users : UserTable} {userId : UserId} (h : Live users userId) (tx : Revocation) :
    Live (tx.users users) userId := by
  unfold Revocation.users
  split
  · exact h
  · exact h.update _

theorem Phase.Serves.mono {users users' : UserTable} {request : Option Request} {phase : Phase}
    (h : phase.Serves users request) (live : ∀ userId, Live users userId → Live users' userId) :
    phase.Serves users' request := by
  have rehashed : ∀ user, Rehashed users request user → Rehashed users' request user := by
    rintro user ⟨currentPassword, newHash, hrequest, hash, alive⟩
    exact ⟨currentPassword, newHash, hrequest, hash, live _ alive⟩
  cases phase with
  | passwordRead => exact ⟨h.1, h.2.1, live _ h.2.2⟩
  | passwordVerified => exact ⟨h.1, rehashed _ h.2⟩
  | renamed =>
    obtain ⟨name, hrequest, hname, nonempty, alive⟩ := h
    exact ⟨name, hrequest, hname, nonempty, live _ alive⟩
  | revoke | revoking | revoked => exact fun user hu => rehashed user (h user hu)
  | changePassword | updateProfile => exact h
  | _ => trivial

theorem live_of_findById {users : UserTable} {userId : UserId} {user : User}
    (h : users.findById (some userId) = some user) : user.id = userId ∧ Live users userId := by
  obtain ⟨row, hrow, hid, alive, rfl⟩ := UserTable.findById_eq_some.1 h
  exact ⟨hid, row, hrow, hid, alive⟩

theorem rename_eq_ok {user renamed : User} {name : String} (h : user.rename name = .ok renamed) :
    Js.trim name ≠ "" ∧ renamed = { user with name := Js.trim name } := by
  simp only [User.rename] at h
  split_ifs at h with empty
  exact ⟨empty, (Except.ok.inj h).symm⟩

theorem Phase.Serves.read {phase phase' : Phase} {draw : Draw} {request : Option Request}
    (h : phase.Serves s.users request) (read : Reads env s draw phase phase') :
    phase'.Serves s.users request := by
  cases read with
  | passwordRead found =>
    obtain ⟨hid, alive⟩ := live_of_findById found
    exact ⟨h, hid, hid ▸ alive⟩
  | passwordVerified =>
    obtain ⟨hrequest, hid, alive⟩ := h
    exact ⟨hid, _, _, hid ▸ hrequest, rfl, alive⟩
  | renamed found rename =>
    obtain ⟨hid, alive⟩ := live_of_findById found
    obtain ⟨nonempty, rfl⟩ := rename_eq_ok rename
    subst hid
    exact ⟨_, h, rfl, nonempty, alive⟩
  | revoking => exact h
  | reused | logout | revokeSession => exact fun user hu => by cases hu
  | _ => trivial

theorem Request.start_serves (request : Request) (now : Instant) (users : UserTable) :
    (request.start now).Serves users (some request) := by
  cases request with
  | changePassword | updateProfile => rfl
  | logoutAll => exact fun user hu => by cases hu
  | _ => trivial

/-- The users after a step: as before, renamed, or as a revocation leaves them. -/
theorem users_of_moves (m : Moves env s a s') :
    s'.users = s.users ∧ committedWrite s a = none ∨
    (∃ p draw user, a = .step p draw ∧ s.phase p = .renamed user ∧
      (s'.users = (s.users.update user).1 ∨ (s.users.update user).2 = 0)) ∨
    ∃ p draw tx result targets, a = .step p draw ∧ s.phase p = .revoked tx result targets ∧
      s'.users = tx.users s.users := by
  cases m with
  | advance | arrive | fail => exact .inl ⟨rfl, rfl⟩
  | @read p draw phase h =>
    refine .inl ⟨rfl, ?_⟩
    simp only [committedWrite]
    split
    · rename_i hp
      rw [hp] at h
      cases h
    · rename_i hp
      rw [hp] at h
      cases h
    · rfl
  | login h | lose h | consume h | rotate h | lockUser h | lockTokens h =>
    exact .inl ⟨rfl, by simp only [committedWrite, h]⟩
  | gone h missing =>
    rcases h with ⟨_, h⟩ | h
    · exact .inl ⟨rfl, by simp only [committedWrite, h]⟩
    · exact .inr (.inl ⟨_, _, _, rfl, h, .inr missing⟩)
  | rename h => exact .inr (.inl ⟨_, _, _, rfl, h, .inl rfl⟩)
  | revoke h => exact .inr (.inr ⟨_, _, _, _, _, rfl, h, rfl⟩)

theorem live_of_moves {userId : UserId} (m : Moves env s a s') (h : Live s.users userId) :
    Live s'.users userId := by
  cases m with
  | rename => exact h.update _
  | revoke => exact h.users _
  | _ => exact h

theorem serving_of_moves (serving : Serving s) (m : Moves env s a s') : Serving s' := by
  intro q
  by_cases hq : a.pid = some q
  · have h := (serving q).mono fun userId => live_of_moves m
    cases m with
    | advance => cases hq
    | @arrive p' request =>
      obtain rfl := Option.some.inj hq
      rw [enter_phase_self]
      change (request.start s.clock).Serves s.users (Function.update s.request p' (some request) p')
      rw [Function.update_self]
      exact request.start_serves _ _
    | read read =>
      obtain rfl := Option.some.inj hq
      rw [enter_phase_self]
      exact h.read (reads_of_advance read)
    | lockUser hp =>
      obtain rfl := Option.some.inj hq
      rw [hp] at h
      rw [enter_phase_self]
      intro user hu
      obtain rfl := Option.some.inj hu
      exact h.2
    | lockTokens hp =>
      obtain rfl := Option.some.inj hq
      rw [hp] at h
      rw [enter_phase_self]
      exact h
    | login | consume =>
      obtain rfl := Option.some.inj hq
      rw [enter_phase_self]
      trivial
    | fail | lose | rotate | gone | rename | revoke =>
      obtain rfl := Option.some.inj hq
      rw [finish_phase_self]
      trivial
  · rw [m.phase_of_ne hq, m.request_of_ne hq]
    exact (serving q).mono fun userId => live_of_moves m

/-! ## A committed write is a request run alone -/

section

variable {users : UserTable} {tokens : RefreshTokenTable} {row : UserRow} {user : User}

theorem runAlone_updateProfile {name : String} (hrow : row ∈ users.rows)
    (alive : row.deletedAt = none) (nonempty : Js.trim name ≠ "") :
    runAlone env tokens users (.updateProfile row.id name) =
      some (users.update { row.toUser with name := Js.trim name }).1 := by
  have found : users.findById (some row.id) = some row.toUser :=
    UserTable.findById_eq_some.2 ⟨row, hrow, rfl, alive, rfl⟩
  have hits : (users.update { row.toUser with name := Js.trim name }).2 ≠ 0 :=
    fun missing => UserTable.count_update_eq_zero.1 missing row hrow rfl
  simp only [runAlone, updateProfile, found, User.rename, if_neg nonempty, if_neg hits]

theorem runAlone_changePassword {currentPassword newHash hash : String} (hrow : row ∈ users.rows)
    (alive : row.deletedAt = none) (hhash : Js.truthy row.passwordHash = some hash)
    (compare : env.compare currentPassword hash = true) :
    runAlone env tokens users (.changePassword row.id currentPassword newHash) =
      some (users.update (row.toUser.changePassword newHash)).1 := by
  have found : users.findById (some row.id) = some row.toUser :=
    UserTable.findById_eq_some.2 ⟨row, hrow, rfl, alive, rfl⟩
  have hits : (users.update (row.toUser.changePassword newHash)).2 ≠ 0 :=
    fun missing => UserTable.count_update_eq_zero.1 missing row hrow rfl
  simp only [runAlone, changePassword, verifyPassword, found, hhash, compare, if_true, if_neg hits]

end

/-- The table after a committed write is the table after its request has run alone. -/
theorem runAlone_of_moves (tokens : RefreshTokenTable) (serving : Serving s) (m : Moves env s a s')
    (hcurrent : current env s a = true) :
    s'.users = s.users ∧ committedWrite s a = none ∨
    ∃ request, committedWrite s a = some request ∧
      runAlone env tokens s.users request = some s'.users := by
  rcases users_of_moves m with quiet | ⟨p, draw, user, rfl, hp, written⟩ |
    ⟨p, draw, tx, result, targets, rfl, hp, written⟩
  · exact .inl quiet
  · have serves := serving p
    rw [hp] at serves
    simp only [current, hp, decide_eq_true_eq] at hcurrent
    obtain ⟨name, hrequest, hname, nonempty, row, hrow, hid, alive⟩ := serves
    refine .inr ⟨_, by simp only [committedWrite, hp]; exact hrequest, ?_⟩
    rcases written with written | missing
    · rw [written, ← hid, runAlone_updateProfile hrow alive nonempty]
      refine congrArg some (UserTable.update_congr hid fun r hr e => ⟨hname.symm, ?_⟩)
      exact hcurrent row hrow hid
    · exact absurd hid (UserTable.count_update_eq_zero.1 missing row hrow)
  · have serves := serving p
    rw [hp] at serves
    obtain ⟨scope, revokedAt, user⟩ := tx
    rcases user with _ | user
    · exact .inl ⟨written, by simp [committedWrite, hp]⟩
    · obtain ⟨currentPassword, newHash, hrequest, hhash, row, hrow, hid, alive⟩ := serves user rfl
      simp only [current, hp, hrequest, decide_eq_true_eq] at hcurrent
      obtain ⟨name, check⟩ := hcurrent row hrow hid
      obtain ⟨hash, truthy, compare⟩ := (Option.any_eq_true _ _).1 check
      refine .inr ⟨_, by simpa [committedWrite, hp] using hrequest, ?_⟩
      rw [written, Revocation.users, ← hid, runAlone_changePassword hrow alive truthy compare]
      exact congrArg some (UserTable.update_congr hid fun r hr e => ⟨name, hhash.symm⟩)

theorem serving_of_start (start : (sessions env).start s) : Serving s := by
  obtain ⟨-, -, -, -, idle⟩ := start
  intro p
  rw [idle]
  trivial

/-- In a run whose writes are current, the users are the result of running the committed requests alone,
one after the other in the order of their commits, each with success. -/
theorem users_serial_of_current {s₀ : State} {tr : List (Step State Label)}
    (start : (sessions env).start s₀) (run : (sessions env).Run (fun s a => current env s a) s₀ tr s) :
    serial env s₀.tokens s₀.users (tr.filterMap fun st => committedWrite st.pre st.label) =
      some s.users := by
  have h : Serving s ∧ serial env s₀.tokens s₀.users
      (tr.filterMap fun st => committedWrite st.pre st.label) = some s.users := by
    refine run.trace_invariant (I := fun tr s => Serving s ∧ serial env s₀.tokens s₀.users
      (tr.filterMap fun st => committedWrite st.pre st.label) = some s.users)
      (fun tr s a s' h current step => ?_) ⟨serving_of_start start, rfl⟩
    have m : Moves env s a s' := moves_of_next step
    refine ⟨serving_of_moves h.1 m, ?_⟩
    rw [List.filterMap_append, serial, List.foldlM_append, ← serial, h.2]
    rcases runAlone_of_moves s₀.tokens h.1 m current with ⟨same, quiet⟩ | ⟨r, commit, alone⟩
    · simp [quiet, same]
    · simp [commit, alone]
  exact h.2

/-- A renaming, and then a password change. -/
theorem users_serial_of_current_renaming : ∃ tr s,
    (sessions taggedEnv).Run (fun s a => current taggedEnv s a) calm tr s ∧
    s.users.rows.map (fun row => (row.name, row.passwordHash)) = [("B", some "bcrypt:new")] ∧
    serial taggedEnv calm.tokens calm.users
      (tr.filterMap fun st => committedWrite st.pre st.label) = some s.users := by
  have computed : ((sessions taggedEnv).exec (current taggedEnv) calm
      [.arrive 1 (.updateProfile 1 " B "), go 1, go 1, .arrive 2 (.changePassword 1 "pw" "bcrypt:new"),
        go 2, go 2, go 2, go 2, go 2, go 2]).map (fun s =>
          s.users.rows.map fun row => (row.name, row.passwordHash)) =
      some [("B", some "bcrypt:new")] := by decide
  obtain ⟨s, exec, rows⟩ := Option.map_eq_some_iff.1 computed
  obtain ⟨tr, run, -⟩ := exists_run_of_exec (C := fun s a => current taggedEnv s a) (fun _ _ h => h) exec
  exact ⟨tr, s, run, rows, users_serial_of_current (calm_start _) run⟩

/-- A stale write: a renaming reads the user, a password change commits, the renaming writes the old
hash back; no order of the two requests gives that row. -/
theorem old_password_restored : ∃ tr s,
    (sessions taggedEnv).Run Any calm tr s ∧
    (∃ user, s.phase 1 = .done (.updated user)) ∧ s.phase 2 = .done .ok ∧
    s.users.rows.map (fun row => (row.name, row.passwordHash)) = [("B", some "bcrypt:pw")] ∧
    ∀ requests ∈ [[Request.updateProfile 1 "B", .changePassword 1 "pw" "bcrypt:new"],
        [.changePassword 1 "pw" "bcrypt:new", .updateProfile 1 "B"]],
      (serial taggedEnv calm.tokens calm.users requests).map
        (fun users => users.rows.map fun row => (row.name, row.passwordHash)) =
      some [("B", some "bcrypt:new")] := by
  have computed : ((sessions taggedEnv).exec (fun _ _ => true) calm
      [.arrive 1 (.updateProfile 1 "B"), go 1, .arrive 2 (.changePassword 1 "pw" "bcrypt:new"),
        go 2, go 2, go 2, go 2, go 2, go 2, go 1]).map (fun s =>
          (s.phase 1, s.phase 2, s.users.rows.map fun row => (row.name, row.passwordHash))) =
      some (.done (.updated ⟨1, "a@b.c", "B", some "bcrypt:pw", .tenant⟩), .done .ok,
        [("B", some "bcrypt:pw")]) := by decide
  obtain ⟨s, exec, facts⟩ := Option.map_eq_some_iff.1 computed
  obtain ⟨tr, run, -⟩ := exists_run_of_exec (C := Any) (fun _ _ _ => trivial) exec
  obtain ⟨renamed, facts⟩ := Prod.mk.inj facts
  obtain ⟨changed, rows⟩ := Prod.mk.inj facts
  exact ⟨tr, s, run, ⟨_, renamed⟩, changed, rows, by decide⟩

end EstateServer.Auth
