import EstateServer.Auth.Interleaving

/-!
# When a password change ends the old sessions

`Login` checks the password against the hash that it has read and inserts the refresh token some time
later, outside any transaction; `ChangePassword` revokes the tokens that it can see.

`InTime` is the condition that every login inserts its token while the hash that it has checked is
the user's, and not while a password change of the user has already found the tokens to revoke.  Then
every unrevoked token comes from a login with the current hash (`tokens_current_of_inTime`).  Without it
a login with the old password outlives the change (`old_password_session`).
-/

namespace EstateServer.Auth

open Machine

variable {env : Env} {s s' : State} {a : Label} {p q : Pid} {tr : List (Step State Label)}

/-! ## Requests, conditions, and the logins behind the tokens -/

/-- Only logins and password changes arrive. -/
def PasswordsOnly : Label → Prop
  | .arrive _ (.login _ _) => True
  | .arrive _ (.changePassword _ _ _) => True
  | .arrive _ _ => False
  | _ => True

/-- A login inserts its token while the hash that it has checked is current, and while no password
change of its user waits to revoke or to commit. -/
def InTime (s : State) : Label → Prop
  | .step p _ => ∀ user, s.phase p = .loginVerified user →
      (∀ row ∈ s.users.rows, row.id = user.id → row.passwordHash = user.passwordHash) ∧
      ∀ q tx result targets changed,
        s.phase q = .revoking tx result targets ∨ s.phase q = .revoked tx result targets →
        tx.user = some changed → changed.id ≠ user.id
  | _ => True

/-- The request is a login whose password matches the hash of the user that it has read. -/
def Checked (env : Env) (request : Option Request) (user : User) : Prop :=
  ∃ email password hash, request = some (.login email password) ∧ user.passwordHash = some hash ∧
    env.compare password hash = true

/-- The token was issued by a login that has checked the password of this user. -/
def IssuedBy (env : Env) (tr : List (Step State Label)) (row : RefreshTokenRow) (user : User) : Prop :=
  ∃ st ∈ tr, ∃ p draw, st.label = .step p draw ∧ st.pre.phase p = .loginVerified user ∧
    draw.id = row.id ∧ user.id = row.userId ∧ Checked env (st.pre.request p) user

/-! ## What a process knows -/

/-- The unrevoked tokens of the user are among `targets`. -/
def Found (tokens : RefreshTokenTable) (userId : UserId) (targets : List TokenId) : Prop :=
  ∀ row ∈ tokens.rows, row.userId = userId → row.revokedAt = none → row.id ∈ targets

/-- What holds of the phase of a process, when only logins and password changes arrive. -/
def Phase.Minds (env : Env) (tokens : RefreshTokenTable) (request : Option Request) : Phase → Prop
  | login email password => request = some (.login email password)
  | loginRead user password hash =>
      (∃ email, request = some (.login email password)) ∧ user.passwordHash = some hash
  | loginVerified user => Checked env request user
  | passwordRead userId user _ _ _ => user.id = userId
  | passwordVerified userId user => user.id = userId
  | revoke tx _ => ∃ user, tx.user = some user ∧ tx.scope = .user (some user.id)
  | revoking tx _ targets => ∃ user, tx.user = some user ∧ Found tokens user.id targets
  | revoked tx _ targets => ∃ user, tx.user = some user ∧ Found tokens user.id targets
  | idle => True
  | loginSaved _ => True
  | changePassword _ _ _ => True
  | done _ => True
  | _ => False

/-- The invariant: the processes, and the logins behind the unrevoked tokens. -/
structure PasswordsKept (env : Env) (tr : List (Step State Label)) (s : State) : Prop where
  minds : ∀ p, (s.phase p).Minds env s.tokens (s.request p)
  issued : ∀ row ∈ s.tokens.rows, row.revokedAt = none → ∃ user, IssuedBy env tr row user ∧
    ∀ userRow ∈ s.users.rows, userRow.id = row.userId → userRow.passwordHash = user.passwordHash

theorem Phase.Minds.mono {tokens tokens' : RefreshTokenTable} {request : Option Request} {phase : Phase}
    (h : phase.Minds env tokens request)
    (found : ∀ tx result targets user, phase = .revoking tx result targets ∨
      phase = .revoked tx result targets → tx.user = some user → Found tokens user.id targets →
      Found tokens' user.id targets) : phase.Minds env tokens' request := by
  cases phase with
  | revoking =>
    obtain ⟨user, huser, hfound⟩ := h
    exact ⟨user, huser, found _ _ _ user (.inl rfl) huser hfound⟩
  | revoked =>
    obtain ⟨user, huser, hfound⟩ := h
    exact ⟨user, huser, found _ _ _ user (.inr rfl) huser hfound⟩
  | _ => exact h

theorem hash_of_truthy {value : Option String} {hash : String} (h : Js.truthy value = some hash) :
    value = some hash := by
  unfold Js.truthy at h
  split at h
  · split_ifs at h
    exact h
  · cases h

theorem found_targets (tokens : RefreshTokenTable) (userId : UserId) :
    Found tokens userId ((Scope.user (some userId)).targets tokens) := by
  intro row hrow huser unrevoked
  exact List.mem_map_of_mem (List.mem_filter.2 ⟨hrow, decide_eq_true ⟨decide_eq_true huser, unrevoked⟩⟩)

theorem Phase.Minds.read {phase phase' : Phase} {draw : Draw} {request : Option Request}
    (h : phase.Minds env s.tokens request) (read : Reads env s draw phase phase') :
    phase'.Minds env s.tokens request := by
  cases read with
  | loginRead _ hash => exact ⟨⟨_, h⟩, hash_of_truthy hash⟩
  | loginVerified compare =>
    obtain ⟨⟨email, hrequest⟩, hhash⟩ := h
    exact ⟨email, _, _, hrequest, hhash, compare⟩
  | passwordRead found =>
    obtain ⟨row, -, hid, -, rfl⟩ := UserTable.findById_eq_some.1 found
    exact hid
  | passwordVerified => exact h
  | revoking =>
    obtain ⟨user, huser, hscope⟩ := h
    rw [hscope]
    exact ⟨user, huser, found_targets _ _⟩
  | failed | loggedIn => trivial
  | unknown | reused | usable | rotating | replaced | logout | revokeSession | renamed => cases h

theorem Found.updateMany {tokens : RefreshTokenTable} {userId : UserId} {targets : List TokenId}
    {p : RefreshTokenRow → Bool} {t : Instant} (h : Found tokens userId targets) :
    Found (tokens.updateMany p (.revokedAt t)).1 userId targets := by
  intro row hrow huser unrevoked
  obtain ⟨row₀, hrow₀, rfl⟩ := RefreshTokenTable.mem_updateMany.1 hrow
  split_ifs at huser unrevoked ⊢
  · cases unrevoked
  · exact h row₀ hrow₀ huser unrevoked

theorem IssuedBy.mono {tr' : List (Step State Label)} {row : RefreshTokenRow} {user : User}
    (h : IssuedBy env tr row user) : IssuedBy env (tr ++ tr') row user := by
  obtain ⟨st, hst, rest⟩ := h
  exact ⟨st, List.mem_append_left _ hst, rest⟩

/-! ## The invariant is kept -/

theorem Request.start_minds {request : Request} (h : PasswordsOnly (.arrive p request)) (now : Instant)
    (tokens : RefreshTokenTable) : (request.start now).Minds env tokens (some request) := by
  cases request with
  | login | changePassword => trivial
  | _ => cases h

namespace PasswordsKept

/-- No password change loses sight of a token. -/
theorem found_of_moves (h : PasswordsKept env tr s) (m : Moves env s a s') (inTime : InTime s a)
    {tx : Revocation} {result : Result} {targets : List TokenId} {user : User}
    (waiting : s.phase q = .revoking tx result targets ∨ s.phase q = .revoked tx result targets)
    (huser : tx.user = some user) (found : Found s.tokens user.id targets) :
    Found s'.tokens user.id targets := by
  cases m with
  | @login p draw user' tokens hp fresh save =>
    intro row hrow hid unrevoked
    change row ∈ tokens.rows at hrow
    rw [RefreshTokenTable.save_eq_some save, List.mem_append, List.mem_singleton] at hrow
    rcases hrow with hrow | rfl
    · exact found row hrow hid unrevoked
    · exact absurd hid.symm ((inTime _ hp).2 q tx result targets user waiting huser)
  | @rotate p _ _ _ _ _ _ hp =>
    have minds := h.minds p
    rw [hp] at minds
    cases minds
  | revoke => exact found.updateMany
  | _ => exact found

theorem minds_of_moves (h : PasswordsKept env tr s) (m : Moves env s a s') (arrives : PasswordsOnly a)
    (inTime : InTime s a) (q : Pid) : (s'.phase q).Minds env s'.tokens (s'.request q) := by
  by_cases hq : a.pid = some q
  · have minds := h.minds q
    cases m with
    | advance => cases hq
    | @arrive p request =>
      obtain rfl := Option.some.inj hq
      rw [enter_phase_self]
      change (request.start s.clock).Minds env s.tokens (Function.update s.request p (some request) p)
      rw [Function.update_self]
      exact Request.start_minds arrives _ _
    | read read =>
      obtain rfl := Option.some.inj hq
      rw [enter_phase_self]
      exact minds.read (reads_of_advance read)
    | lockUser hp =>
      obtain rfl := Option.some.inj hq
      rw [hp] at minds
      rw [enter_phase_self]
      exact ⟨_, rfl, by rw [minds]⟩
    | lockTokens hp =>
      obtain rfl := Option.some.inj hq
      rw [hp] at minds
      obtain ⟨user, huser, found⟩ := minds
      rw [enter_phase_self]
      refine ⟨user, huser, fun row hrow hid unrevoked =>
        List.mem_filter.2 ⟨found row hrow hid unrevoked, ?_⟩⟩
      exact List.any_eq_true.2 ⟨row, hrow, decide_eq_true ⟨rfl, unrevoked⟩⟩
    | consume hp =>
      obtain rfl := Option.some.inj hq
      rw [hp] at minds
      cases minds
    | login =>
      obtain rfl := Option.some.inj hq
      rw [enter_phase_self]
      trivial
    | fail | lose | rotate | gone | rename | revoke =>
      obtain rfl := Option.some.inj hq
      rw [finish_phase_self]
      trivial
  · rw [m.phase_of_ne hq, m.request_of_ne hq]
    exact (h.minds q).mono fun tx result targets user waiting huser =>
      h.found_of_moves m inTime waiting huser

theorem issued_of_moves (h : PasswordsKept env tr s) (m : Moves env s a s') (inTime : InTime s a) :
    ∀ row ∈ s'.tokens.rows, row.revokedAt = none →
      ∃ user, IssuedBy env (tr ++ [⟨s, a, s'⟩]) row user ∧
        ∀ userRow ∈ s'.users.rows, userRow.id = row.userId →
          userRow.passwordHash = user.passwordHash := by
  have before : ∀ row ∈ s.tokens.rows, row.revokedAt = none →
      ∃ user, IssuedBy env (tr ++ [⟨s, a, s'⟩]) row user ∧
        ∀ userRow ∈ s.users.rows, userRow.id = row.userId →
          userRow.passwordHash = user.passwordHash := by
    intro row hrow unrevoked
    obtain ⟨user, issued, same⟩ := h.issued row hrow unrevoked
    exact ⟨user, issued.mono, same⟩
  cases m with
  | @login p draw user tokens hp fresh save =>
    intro row hrow unrevoked
    change row ∈ tokens.rows at hrow
    rw [RefreshTokenTable.save_eq_some save, List.mem_append, List.mem_singleton] at hrow
    rcases hrow with hrow | rfl
    · exact before row hrow unrevoked
    · have minds := h.minds p
      rw [hp] at minds
      refine ⟨user, ⟨_, List.mem_concat_self, p, draw, rfl, hp, rfl, rfl,
        minds⟩, (inTime user hp).1⟩
  | @rotate p _ _ _ _ _ _ hp =>
    have minds := h.minds p
    rw [hp] at minds
    cases minds
  | @rename p _ _ hp =>
    have minds := h.minds p
    rw [hp] at minds
    cases minds
  | @revoke p draw tx result targets hp =>
    have minds := h.minds p
    rw [hp] at minds
    obtain ⟨changed, huser, found⟩ := minds
    intro row hrow unrevoked
    obtain ⟨row₀, hrow₀, rfl⟩ := RefreshTokenTable.mem_updateMany.1 hrow
    split_ifs at unrevoked ⊢ with hit
    · cases unrevoked
    -- an unrevoked token is one of another user, whose row the change does not write
    have other : row₀.userId ≠ changed.id := fun e =>
      hit (decide_eq_true ⟨found row₀ hrow₀ e unrevoked, unrevoked⟩)
    obtain ⟨user, issued, same⟩ := before row₀ hrow₀ unrevoked
    refine ⟨user, issued, fun userRow huserRow hid => ?_⟩
    change userRow ∈ (tx.users s.users).rows at huserRow
    rw [Revocation.users, huser] at huserRow
    obtain ⟨u₀, hu₀, rfl⟩ := Table.mem_updateMany.1 huserRow
    split_ifs at hid ⊢ with written
    · exact absurd (hid.symm.trans (of_decide_eq_true written)) other
    · exact same u₀ hu₀ hid
  | _ => exact before

theorem moves (h : PasswordsKept env tr s) (m : Moves env s a s') (arrives : PasswordsOnly a)
    (inTime : InTime s a) : PasswordsKept env (tr ++ [⟨s, a, s'⟩]) s' :=
  ⟨h.minds_of_moves m arrives inTime, h.issued_of_moves m inTime⟩

end PasswordsKept

/-- In a run of logins and password changes in which every login is in time: every token that is not
revoked was issued by a login that has checked its password against the current hash of its user. -/
theorem tokens_current_of_inTime {s₀ : State} (start : (sessions env).start s₀)
    (run : (sessions env).Run (fun s a => PasswordsOnly a ∧ InTime s a) s₀ tr s) :
    ∀ row ∈ s.tokens.rows, row.usedAt = none → row.revokedAt = none → s.clock < row.expiresAt →
      ∃ user, IssuedBy env tr row user ∧
        ∀ userRow ∈ s.users.rows, userRow.id = row.userId →
          userRow.passwordHash = user.passwordHash := by
  have h : PasswordsKept env tr s := by
    refine run.trace_invariant (I := PasswordsKept env)
      (fun tr s a s' h inTime step => h.moves (moves_of_next step) inTime.1 inTime.2) ⟨?_, ?_⟩
    · intro p
      rw [start.2.2.2.2]
      trivial
    · intro row hrow
      rw [start.1] at hrow
      cases hrow
  exact fun row hrow _ unrevoked _ => h.issued row hrow unrevoked

/-- A step that inserts no token of a login. -/
def noInsert (s : State) : Label → Bool
  | .arrive _ (.login _ _) => true
  | .arrive _ (.changePassword _ _ _) => true
  | .arrive _ _ => false
  | .step p _ =>
    match s.phase p with
    | .loginVerified _ => false
    | _ => true
  | _ => true

theorem inTime_of_noInsert (s : State) (a : Label) (h : noInsert s a = true) :
    PasswordsOnly a ∧ InTime s a := by
  cases a with
  | arrive p request => cases request <;> first | exact ⟨trivial, trivial⟩ | cases h
  | step p draw =>
    refine ⟨trivial, fun user hp => ?_⟩
    simp [noInsert, hp] at h
  | advance | fail => exact ⟨trivial, trivial⟩

/-- A password change, and then a login with the new password. -/
theorem tokens_current_of_inTime_login : ∃ tr s,
    (sessions taggedEnv).Run (fun s a => PasswordsOnly a ∧ InTime s a) calm tr s ∧
    ∃ row ∈ s.tokens.rows, ∃ user, IssuedBy taggedEnv tr row user ∧
      ∀ userRow ∈ s.users.rows, userRow.id = row.userId →
        userRow.passwordHash = user.passwordHash := by
  let labels : List Label := [.arrive 2 (.changePassword 1 "pw" "bcrypt:new"), go 2, go 2, go 2, go 2,
    go 2, go 2, .arrive 3 (.login "a@b.c" "new"), go 3, go 3]
  have computed : (((sessions taggedEnv).exec noInsert calm labels).bind fun s =>
      ((sessions taggedEnv).next s (.step 3 ⟨1, "t1", 7⟩)).map fun t => decide (
        s.phase 2 = .done .ok ∧ s.phase 3 = .loginVerified ⟨1, "a@b.c", "A", some "bcrypt:new", .tenant⟩ ∧
        (∀ row ∈ s.users.rows, row.passwordHash = some "bcrypt:new") ∧
        ∃ row ∈ t.tokens.rows,
          row.usedAt = none ∧ row.revokedAt = none ∧ t.clock < row.expiresAt)) = some true := by decide
  obtain ⟨s, exec, computed⟩ := Option.bind_eq_some_iff.1 computed
  obtain ⟨t, insert, facts⟩ := Option.map_eq_some_iff.1 computed
  obtain ⟨changed, verified, hashes, row, hrow, unused, unrevoked, unexpired⟩ := of_decide_eq_true facts
  obtain ⟨tr, run, hlabels⟩ := exists_run_of_exec inTime_of_noInsert exec
  have inTime : InTime s (.step 3 ⟨1, "t1", 7⟩) := by
    intro user hp
    obtain rfl := Phase.loginVerified.inj (hp.symm.trans verified)
    refine ⟨fun row hrow _ => hashes row hrow, fun q tx result targets _ waiting _ => ?_⟩
    -- the only processes that have moved are 2 and 3
    have idle : q ≠ 2 → q ≠ 3 → s.phase q = .idle := fun h2 h3 => phase_of_run run fun st hst e => by
      have hpid : st.label.pid ∈ labels.map Label.pid := by
        rw [← hlabels]
        exact List.mem_map_of_mem (List.mem_map_of_mem hst)
      rw [e] at hpid
      have : q = 2 ∨ q = 3 := by simpa [labels, Label.pid, go, or_comm] using hpid
      exact this.elim h2 h3
    by_cases h2 : q = 2
    · subst h2
      rw [changed] at waiting
      rcases waiting with h | h <;> cases h
    · by_cases h3 : q = 3
      · subst h3
        rw [verified] at waiting
        rcases waiting with h | h <;> cases h
      · rw [idle h2 h3] at waiting
        rcases waiting with h | h <;> cases h
  have meets : PasswordsOnly (.step 3 ⟨1, "t1", 7⟩) ∧ InTime s (.step 3 ⟨1, "t1", 7⟩) := ⟨trivial, inTime⟩
  have run := run.snoc meets insert
  exact ⟨_, t, run, row, hrow,
    tokens_current_of_inTime (calm_start _) run row hrow unused unrevoked unexpired⟩

/-- A late insert: a login checks the old password, the password change commits, the login inserts
its token. -/
theorem old_password_session : ∃ tr s s' user tr' u,
    (sessions taggedEnv).Run Any calm tr s ∧ s.phase 2 = .done .ok ∧
    s.phase 1 = .loginVerified user ∧ user.passwordHash = some "bcrypt:pw" ∧
    (sessions taggedEnv).next s (.step 1 ⟨1, "t1", 7⟩) = some s' ∧
    (sessions taggedEnv).Run Any s' tr' u ∧
    u.users.rows.map (fun row => (row.id, row.passwordHash)) = [(1, some "bcrypt:new")] ∧
    ∃ row ∈ u.tokens.rows, row.id = 1 ∧ row.userId = 1 ∧
      row.usedAt = none ∧ row.revokedAt = none ∧ u.clock < row.expiresAt := by
  have computed : (((sessions taggedEnv).exec (fun _ _ => true) calm
      [.arrive 1 (.login "a@b.c" "pw"), go 1, go 1, .arrive 2 (.changePassword 1 "pw" "bcrypt:new"),
        go 2, go 2, go 2, go 2, go 2, go 2]).bind fun s =>
      ((sessions taggedEnv).next s (.step 1 ⟨1, "t1", 7⟩)).bind fun s' =>
        ((sessions taggedEnv).exec (fun _ _ => true) s' [go 1]).map fun u => decide (
          s.phase 2 = .done .ok ∧
          s.phase 1 = .loginVerified ⟨1, "a@b.c", "A", some "bcrypt:pw", .tenant⟩ ∧
          u.users.rows.map (fun row => (row.id, row.passwordHash)) = [(1, some "bcrypt:new")] ∧
          ∃ row ∈ u.tokens.rows, row.id = 1 ∧ row.userId = 1 ∧
            row.usedAt = none ∧ row.revokedAt = none ∧ u.clock < row.expiresAt)) = some true := by
    decide
  obtain ⟨tr, s, s', tr', u, run, insert, run', facts⟩ :=
    exists_step_of_exec (C := Any) (fun _ _ _ => trivial) computed
  obtain ⟨changed, verified, users, live⟩ := of_decide_eq_true facts
  exact ⟨tr, s, s', _, tr', u, run, changed, verified, rfl, insert, run', users, live⟩

end EstateServer.Auth
