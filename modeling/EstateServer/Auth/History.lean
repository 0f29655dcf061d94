import EstateServer.Auth.UseCases
import EstateServer.Library.Machine

/-!
# Histories of calls that run one after the other

`history env` is the machine whose steps are whole calls, at times that do not decrease, each with
fresh random values.  `Effect` lists what one call can do to the table of refresh tokens
(`Call.effect`), and every invariant of a history is read off it:

* `Evolve`: no row is lost, and a timestamp that is set is never changed;
* `Locked f`: once every row of the family `f` is revoked, it stays so, and no token of `f` is
  exchanged any more;
* `Call.untouched`: a call leaves the rows of the families that it does not target alone.
-/

namespace EstateServer.Auth

open Machine

/-- A call of a history.  `outside` stands for whatever else changes the users (sign-up, profile,
deletion). -/
inductive Call
  | login (email password : String)
  | refreshTokens (refreshToken : Token)
  | logout (refreshToken : Token)
  | logoutAll (userId : UserId)
  | revokeSession (userId : UserId) (familyId : FamilyId)
  | changePassword (userId : UserId) (currentPassword newHash : String)
  | outside (users : UserTable)

/-- The tables after a call. -/
def Call.run (env : Env) (now : Instant) (draw : Draw) (db : Db) : Call → Db
  | login email password => (Auth.login env now draw db email password).2
  | refreshTokens refreshToken => (Auth.refreshTokens env now draw db refreshToken).2
  | logout refreshToken => Auth.logout env now db refreshToken
  | logoutAll userId => Auth.logoutAll now db (some userId)
  | revokeSession userId familyId => (Auth.revokeSession now db (some userId) familyId).2
  | changePassword userId currentPassword newHash =>
    (Auth.changePassword env now db (some userId) currentPassword newHash).2
  | outside users => { db with users }

/-- The random values of the call are new. -/
def Draw.Fresh (env : Env) (draw : Draw) (tokens : RefreshTokenTable) : Prop :=
  draw.id ∉ tokens.rows.map (·.id) ∧ env.hash draw.token ∉ tokens.rows.map (·.tokenHash) ∧
    draw.uuid ∉ tokens.rows.map (·.familyId)

instance (env : Env) (draw : Draw) (tokens : RefreshTokenTable) : Decidable (draw.Fresh env tokens) :=
  inferInstanceAs (Decidable (_ ∧ _ ∧ _))

/-- A call with the time it is made and its random values. -/
structure TimedCall where
  now : Instant
  draw : Draw
  call : Call

structure HistoryState where
  clock : Instant
  db : Db

/-- Calls that run atomically, one after the other, from an empty table of refresh tokens. -/
def history (env : Env) : Machine HistoryState TimedCall where
  start s := s.db.refreshTokens.rows = []
  next s e :=
    if s.clock ≤ e.now ∧ e.draw.Fresh env s.db.refreshTokens then
      some ⟨e.now, e.call.run env e.now e.draw s.db⟩
    else none

variable {env : Env} {now : Instant} {draw : Draw} {db : Db} {t : Token} {row : RefreshTokenRow}

/-! ## The ways a refresh ends -/

/-- The token has a row, and this row, its user and the time allow an exchange. -/
def Exchangeable (env : Env) (now : Instant) (db : Db) (t : Token) : Prop :=
  ∃ row ∈ db.refreshTokens.rows, row.tokenHash = env.hash t ∧ row.usedAt = none ∧
    row.revokedAt = none ∧ now < row.expiresAt ∧
    ∃ user ∈ db.users.rows, user.id = row.userId ∧ user.deletedAt = none

/-- The new row of an exchange. -/
def successor (env : Env) (now : Instant) (draw : Draw) (row : RefreshTokenRow) : RefreshTokenRow :=
  { issuedToken env now draw row.userId (some row.familyId) with createdAt := now }

theorem refreshTokens_unknown (h : ∀ row ∈ db.refreshTokens.rows, row.tokenHash ≠ env.hash t) :
    refreshTokens env now draw db t = (.error (.app .invalidRefreshToken), db) := by
  simp only [refreshTokens, RefreshTokenTable.findByHash_eq_none.2 h]

theorem findByHash_of_mem (hrow : row ∈ db.refreshTokens.rows) (hash : row.tokenHash = env.hash t) :
    db.refreshTokens.findByHash (env.hash t) = some row.toRefreshToken :=
  RefreshTokenTable.findByHash_eq_some.2 ⟨row, hrow, hash, rfl⟩

theorem refreshTokens_used (hrow : row ∈ db.refreshTokens.rows) (hash : row.tokenHash = env.hash t)
    (used : row.usedAt ≠ none) : refreshTokens env now draw db t = (.error (.app .refreshTokenReused),
      { db with refreshTokens := (db.refreshTokens.revokeFamily row.familyId now).1 }) := by
  simp only [refreshTokens, findByHash_of_mem hrow hash, RefreshToken.isUsed, used, decide_true,
    ne_eq, not_false_eq_true, if_true]

theorem refreshTokens_dead (hrow : row ∈ db.refreshTokens.rows) (hash : row.tokenHash = env.hash t)
    (unused : row.usedAt = none) (dead : ¬ Exchangeable env now db t) :
    refreshTokens env now draw db t = (.error (.app .invalidRefreshToken), db) := by
  simp only [refreshTokens, findByHash_of_mem hrow hash, RefreshToken.isUsed, unused, ne_eq,
    not_true_eq_false, decide_false, Bool.false_eq_true, if_false]
  by_cases usable : row.isUsable now = true
  · have gone : db.users.findById (some row.userId) = none := by
      rw [UserTable.findById_eq_none]
      intro user huser hid alive
      rw [RefreshToken.isUsable_iff] at usable
      exact dead ⟨row, hrow, hash, unused, usable.2.1, usable.2.2, user, huser, hid, alive⟩
    simp only [usable, gone, Bool.not_true, Bool.false_eq_true, if_false]
  · simp only [usable, Bool.not_false, if_true]

theorem count_markUsed_ne_zero (hrow : row ∈ db.refreshTokens.rows) (unused : row.usedAt = none) :
    (db.refreshTokens.markUsed row.id now).2 ≠ 0 :=
  fun h => RefreshTokenTable.count_markUsed_eq_zero.1 h row hrow rfl unused

theorem Draw.Fresh.save_markUsed {tokens : RefreshTokenTable} (fresh : draw.Fresh env tokens)
    (now : Instant) (id : TokenId) (userId : UserId) (familyId : Option FamilyId) :
    ∃ saved, (tokens.markUsed id now).1.save (issuedToken env now draw userId familyId) now =
      some saved := by
  have hid : (tokens.markUsed id now).1.rows.map (·.id) = tokens.rows.map (·.id) :=
    Table.map_updateMany (Assignment.apply_id _)
  have hhash : (tokens.markUsed id now).1.rows.map (·.tokenHash) = tokens.rows.map (·.tokenHash) :=
    Table.map_updateMany (Assignment.apply_tokenHash _)
  refine Option.isSome_iff_exists.1 ?_
  simp only [RefreshTokenTable.save, hid, hhash]
  rw [dif_pos ⟨fresh.1, fresh.2.1⟩]
  rfl

theorem refreshTokens_live (fresh : draw.Fresh env db.refreshTokens)
    (hrow : row ∈ db.refreshTokens.rows) (hash : row.tokenHash = env.hash t)
    (live : Exchangeable env now db t) : ∃ user saved, user.id = row.userId ∧
      (db.refreshTokens.markUsed row.id now).1.save
        (issuedToken env now draw row.userId (some row.familyId)) now = some saved ∧
      refreshTokens env now draw db t =
        (.ok (issuedPair draw user (issuedToken env now draw row.userId (some row.familyId))),
          { db with refreshTokens := saved }) := by
  obtain ⟨r, hr, hhash, unused, unrevoked, unexpired, userRow, huser, hid, alive⟩ := live
  obtain rfl := RefreshTokenTable.eq_of_tokenHash hrow hr (hash.trans hhash.symm)
  have found : db.users.findById (some row.userId) = some userRow.toUser :=
    UserTable.findById_eq_some.2 ⟨userRow, huser, hid, alive, rfl⟩
  have usable : row.isUsable now = true := (row.isUsable_iff now).2 ⟨unused, unrevoked, unexpired⟩
  obtain ⟨saved, hsaved⟩ := fresh.save_markUsed now row.id row.userId (some row.familyId)
  refine ⟨userRow.toUser, saved, hid, hsaved, ?_⟩
  simp only [refreshTokens, findByHash_of_mem hrow hash, RefreshToken.isUsed, unused, ne_eq,
    not_true_eq_false, decide_false, Bool.false_eq_true, if_false, usable, Bool.not_true, found,
    count_markUsed_ne_zero hrow unused, issue, hid, hsaved]

/-! ## What a call does to the table -/

/-- The families whose rows a call may change. -/
def Call.Targets (env : Env) (tokens : RefreshTokenTable) : Call → FamilyId → Prop
  | login _ _, _ => False
  | refreshTokens t, f => ∃ row ∈ tokens.rows, row.tokenHash = env.hash t ∧ row.familyId = f
  | logout t, f => ∃ row ∈ tokens.rows, row.tokenHash = env.hash t ∧ row.familyId = f
  | logoutAll userId, f => ∃ row ∈ tokens.rows, row.userId = userId ∧ row.familyId = f
  | revokeSession _ familyId, f => familyId = f
  | changePassword userId _ _, f => ∃ row ∈ tokens.rows, row.userId = userId ∧ row.familyId = f
  | outside _, _ => False

/-- The ways a call can change the table, where `T` are the families that it targets. -/
inductive Effect (env : Env) (now : Instant) (draw : Draw) (tokens : RefreshTokenTable)
    (T : FamilyId → Prop) : RefreshTokenTable → Prop
  | unchanged : Effect env now draw tokens T tokens
  | issued {tokens' : RefreshTokenTable} (userId : UserId)
      (save : tokens.save (issuedToken env now draw userId none) now = some tokens') :
      Effect env now draw tokens T tokens'
  | rotated {tokens' : RefreshTokenTable} (row : RefreshTokenRow) (mem : row ∈ tokens.rows)
      (unrevoked : row.revokedAt = none) (target : T row.familyId)
      (save : (tokens.markUsed row.id now).1.save
        (issuedToken env now draw row.userId (some row.familyId)) now = some tokens') :
      Effect env now draw tokens T tokens'
  | revoked (scope : Scope)
      (target : ∀ row ∈ tokens.rows, scope.covers row = true → T row.familyId) :
      Effect env now draw tokens T (tokens.revoke scope now).1

theorem login_effect {T : FamilyId → Prop} (email password : String) :
    Effect env now draw db.refreshTokens T (login env now draw db email password).2.refreshTokens := by
  unfold login issue
  rcases authenticate env db email password with e | user
  · exact .unchanged
  · rcases h : db.refreshTokens.save (issuedToken env now draw user.id none) now with _ | tokens
    · simp only [h]
      exact .unchanged
    · simp only [h]
      exact .issued user.id h

theorem refreshTokens_effect (fresh : draw.Fresh env db.refreshTokens) (t : Token) :
    Effect env now draw db.refreshTokens ((Call.refreshTokens t).Targets env db.refreshTokens)
      (refreshTokens env now draw db t).2.refreshTokens := by
  by_cases known : ∃ row ∈ db.refreshTokens.rows, row.tokenHash = env.hash t
  · obtain ⟨row, hrow, hash⟩ := known
    by_cases unused : row.usedAt = none
    · by_cases live : Exchangeable env now db t
      · obtain ⟨user, saved, -, save, eq⟩ := refreshTokens_live fresh hrow hash live
        obtain ⟨r, hr, hhash, -, unrevoked, -⟩ := live
        obtain rfl := RefreshTokenTable.eq_of_tokenHash hrow hr (hash.trans hhash.symm)
        rw [eq]
        exact .rotated row hrow unrevoked ⟨row, hrow, hash, rfl⟩ save
      · rw [refreshTokens_dead hrow hash unused live]
        exact .unchanged
    · rw [refreshTokens_used hrow hash unused]
      refine .revoked (.family row.familyId) fun r _ hr => ?_
      exact ⟨row, hrow, hash, (of_decide_eq_true hr).symm⟩
  · rw [refreshTokens_unknown fun row hrow hash => known ⟨row, hrow, hash⟩]
    exact .unchanged

theorem logout_effect (t : Token) :
    Effect env now draw db.refreshTokens ((Call.logout t).Targets env db.refreshTokens)
      (logout env now db t).refreshTokens := by
  unfold logout
  rcases h : db.refreshTokens.findByHash (env.hash t) with _ | found
  · exact .unchanged
  · obtain ⟨row, hrow, hash, rfl⟩ := RefreshTokenTable.findByHash_eq_some.1 h
    refine .revoked (.family row.familyId) fun r _ hr => ?_
    exact ⟨row, hrow, hash, (of_decide_eq_true hr).symm⟩

theorem logoutAll_effect (userId : UserId) :
    Effect env now draw db.refreshTokens ((Call.logoutAll userId).Targets env db.refreshTokens)
      (logoutAll now db (some userId)).refreshTokens :=
  .revoked (.user (some userId)) fun row hrow hr => ⟨row, hrow, of_decide_eq_true hr, rfl⟩

theorem revokeSession_effect (userId : UserId) (familyId : FamilyId) :
    Effect env now draw db.refreshTokens
      ((Call.revokeSession userId familyId).Targets env db.refreshTokens)
      (revokeSession now db (some userId) familyId).2.refreshTokens := by
  unfold revokeSession
  rcases db.refreshTokens.findFamilyOwner familyId with _ | owner
  · exact .unchanged
  · dsimp only
    split_ifs
    · exact .unchanged
    · exact .revoked (.family familyId) fun row _ hr => (of_decide_eq_true hr).symm

theorem changePassword_effect (userId : UserId) (currentPassword newHash : String) :
    Effect env now draw db.refreshTokens
      ((Call.changePassword userId currentPassword newHash).Targets env db.refreshTokens)
      (changePassword env now db (some userId) currentPassword newHash).2.refreshTokens := by
  unfold changePassword
  rcases verifyPassword env db (some userId) currentPassword with e | user
  · exact .unchanged
  · dsimp only
    split_ifs
    · exact .unchanged
    · exact .revoked (.user (some userId)) fun row hrow hr => ⟨row, hrow, of_decide_eq_true hr, rfl⟩

theorem Call.effect (fresh : draw.Fresh env db.refreshTokens) (call : Call) :
    Effect env now draw db.refreshTokens (call.Targets env db.refreshTokens)
      (call.run env now draw db).refreshTokens := by
  cases call with
  | login email password => exact login_effect email password
  | refreshTokens t => exact refreshTokens_effect fresh t
  | logout t => exact logout_effect t
  | logoutAll userId => exact logoutAll_effect userId
  | revokeSession userId familyId => exact revokeSession_effect userId familyId
  | changePassword userId current newHash => exact changePassword_effect userId current newHash
  | outside users => exact .unchanged

namespace Effect

variable {tokens tokens' : RefreshTokenTable} {T : FamilyId → Prop} {f : FamilyId}

theorem evolve (h : Effect env now draw tokens T tokens') : Evolve tokens tokens' := by
  cases h with
  | unchanged => exact .refl tokens
  | issued _ save => exact RefreshTokenTable.evolve_save save
  | rotated row _ _ _ save =>
    exact (RefreshTokenTable.evolve_markUsed row.id now).trans (RefreshTokenTable.evolve_save save)
  | revoked scope => exact RefreshTokenTable.evolve_revoke scope now

/-- A family that is there and is not a target keeps its rows. -/
theorem untouched (h : Effect env now draw tokens T tokens') (fresh : draw.Fresh env tokens)
    (known : f ∈ tokens.rows.map (·.familyId)) (spared : ¬ T f) :
    tokens'.rows.filter (·.familyId = f) = tokens.rows.filter (·.familyId = f) := by
  cases h with
  | unchanged => rfl
  | issued userId save =>
    have hne : draw.uuid ≠ f := fun e => fresh.2.2 (e ▸ known)
    rw [RefreshTokenTable.save_eq_some save, List.filter_append]
    simp [issuedToken, RefreshToken.create, hne]
  | rotated row mem _ target save =>
    have hne : row.familyId ≠ f := fun e => spared (e ▸ target)
    rw [RefreshTokenTable.save_eq_some save, List.filter_append]
    have marked : (tokens.markUsed row.id now).1.rows.filter (·.familyId = f) =
        tokens.rows.filter (·.familyId = f) := by
      refine Table.filter_updateMany (fun r hr e => ?_) fun r => by simp
      refine decide_eq_false fun ⟨hid, _⟩ => hne ?_
      rw [← RefreshTokenTable.eq_of_id hr mem hid]
      exact of_decide_eq_true e
    rw [marked]
    simp [issuedToken, RefreshToken.create, hne]
  | revoked scope target =>
    refine Table.filter_updateMany (fun r hr e => ?_) fun r => by simp
    exact decide_eq_false fun ⟨hcov, _⟩ => spared (of_decide_eq_true e ▸ target r hr hcov)

end Effect

/-! ## Families that are locked out -/

theorem Locked.effect {tokens tokens' : RefreshTokenTable} {T : FamilyId → Prop} {f : FamilyId}
    (locked : Locked f tokens) (fresh : draw.Fresh env tokens)
    (h : Effect env now draw tokens T tokens') : Locked f tokens' := by
  cases h with
  | unchanged => exact locked
  | issued userId save =>
    refine locked.save save fun e => fresh.2.2 ?_
    rw [issuedToken_newFamily] at e
    exact e ▸ locked.known
  | rotated row mem unrevoked _ save =>
    exact locked.updateMany.save save fun e => locked.revoked mem e unrevoked
  | revoked scope => exact locked.updateMany

section

variable {s s' : HistoryState} {tr : List (Step HistoryState TimedCall)} {e : TimedCall}

theorem history_next : (history env).next s e = some s' ↔
    (s.clock ≤ e.now ∧ e.draw.Fresh env s.db.refreshTokens) ∧
      s' = ⟨e.now, e.call.run env e.now e.draw s.db⟩ := by
  simp only [history, Option.ite_none_right_eq_some, Option.some.injEq]
  exact and_congr_right' eq_comm

theorem Run.locked {f : FamilyId} (run : (history env).Run Any s tr s')
    (locked : Locked f s.db.refreshTokens) : Locked f s'.db.refreshTokens := by
  refine run.invariant (I := fun s => Locked f s.db.refreshTokens) (fun s e s' h _ step => ?_) locked
  obtain ⟨⟨_, fresh⟩, rfl⟩ := history_next.1 step
  exact h.effect fresh (e.call.effect fresh)

theorem Run.evolve (run : (history env).Run Any s tr s') :
    Evolve s.db.refreshTokens s'.db.refreshTokens := by
  refine run.invariant (I := fun s' => Evolve s.db.refreshTokens s'.db.refreshTokens)
    (fun s e s' h _ step => ?_) (.refl _)
  obtain ⟨⟨_, fresh⟩, rfl⟩ := history_next.1 step
  exact h.trans (e.call.effect fresh).evolve

end

theorem Locked.not_exchangeable (locked : Locked row.familyId db.refreshTokens)
    (hrow : row ∈ db.refreshTokens.rows) (hash : row.tokenHash = env.hash t) :
    ¬ Exchangeable env now db t := by
  rintro ⟨r, hr, hhash, -, unrevoked, -⟩
  obtain rfl := RefreshTokenTable.eq_of_tokenHash hrow hr (hash.trans hhash.symm)
  exact locked.revoked hrow rfl unrevoked

/-- Revoking a family that has rows locks it. -/
theorem locked_revokeFamily {tokens : RefreshTokenTable} (hrow : row ∈ tokens.rows) :
    Locked row.familyId (tokens.revokeFamily row.familyId now).1 := by
  refine ⟨(RefreshTokenTable.evolve_revoke _ now).known (List.mem_map_of_mem hrow),
    fun r hr hf unrevoked => ?_⟩
  obtain ⟨r₀, hr₀, rfl⟩ := RefreshTokenTable.mem_updateMany.1 hr
  split_ifs at hf unrevoked with hp
  · cases unrevoked
  · exact absurd (decide_eq_true ⟨decide_eq_true hf, unrevoked⟩) hp

/-! ## Reuse detection -/

theorem exchangeable_of_ok {pair : TokenPair}
    (ok : (refreshTokens env now draw db t).1 = .ok pair) : Exchangeable env now db t := by
  by_contra dead
  by_cases known : ∃ row ∈ db.refreshTokens.rows, row.tokenHash = env.hash t
  · obtain ⟨row, hrow, hash⟩ := known
    by_cases unused : row.usedAt = none
    · rw [refreshTokens_dead hrow hash unused dead] at ok
      cases ok
    · rw [refreshTokens_used hrow hash unused] at ok
      cases ok
  · rw [refreshTokens_unknown fun row hrow hash => known ⟨row, hrow, hash⟩] at ok
    cases ok

theorem refreshTokens_ok_iff (fresh : draw.Fresh env db.refreshTokens) :
    (∃ pair, (refreshTokens env now draw db t).1 = .ok pair) ↔ Exchangeable env now db t := by
  refine ⟨fun ⟨pair, ok⟩ => exchangeable_of_ok ok, fun live => ?_⟩
  have ⟨row, hrow, hash, _⟩ := live
  obtain ⟨user, saved, -, -, eq⟩ := refreshTokens_live fresh hrow hash live
  exact ⟨_, by rw [eq]⟩

/-- An exchange consumes the row of the token and adds its successor. -/
theorem refreshTokens_ok_rows (fresh : draw.Fresh env db.refreshTokens) {pair : TokenPair}
    (ok : (refreshTokens env now draw db t).1 = .ok pair) :
    ∃ row ∈ db.refreshTokens.rows, row.tokenHash = env.hash t ∧ pair.refreshToken = draw.token ∧
      (refreshTokens env now draw db t).2.users = db.users ∧
      (refreshTokens env now draw db t).2.refreshTokens.rows =
        (db.refreshTokens.rows.map fun r => if r = row then { r with usedAt := some now } else r) ++
          [successor env now draw row] := by
  obtain ⟨row, hrow, hash, unused, live⟩ := (refreshTokens_ok_iff fresh).1 ⟨pair, ok⟩
  obtain ⟨user, saved, -, save, eq⟩ :=
    refreshTokens_live fresh hrow hash ⟨row, hrow, hash, unused, live⟩
  rw [eq] at ok ⊢
  refine ⟨row, hrow, hash, ?_, rfl, ?_⟩
  · rw [← Except.ok.inj ok]
    rfl
  · dsimp only
    rw [RefreshTokenTable.save_eq_some save]
    refine congrArg (· ++ _) (List.map_congr_left fun r hr => ?_)
    by_cases h : r = row
    · subst h
      simp [unused, Assignment.apply]
    · rw [if_neg h, if_neg]
      exact fun hp => h (RefreshTokenTable.eq_of_id hr hrow (of_decide_eq_true hp).1)

/-- A refresh at the end of any history: when it succeeds and what it then changes, what the replay
of a used token does for good, what every other failure leaves; and for any next call, the rows it
leaves alone. -/
theorem reuse_detection {s₀ s s' : HistoryState} {tr : List (Step HistoryState TimedCall)}
    (run : (history env).Run Any s₀ tr s)
    (step : (history env).next s ⟨now, draw, .refreshTokens t⟩ = some s') :
    ((∃ pair, (refreshTokens env now draw s.db t).1 = .ok pair) ↔ Exchangeable env now s.db t) ∧
    (∀ pair, (refreshTokens env now draw s.db t).1 = .ok pair →
      ∃ row ∈ s.db.refreshTokens.rows, row.tokenHash = env.hash t ∧ pair.refreshToken = draw.token ∧
        s'.db.users = s.db.users ∧
        s'.db.refreshTokens.rows = (s.db.refreshTokens.rows.map fun r =>
          if r = row then { r with usedAt := some now } else r) ++ [successor env now draw row]) ∧
    (∀ row ∈ s.db.refreshTokens.rows, row.tokenHash = env.hash t → row.usedAt ≠ none →
      (refreshTokens env now draw s.db t).1 = .error (.app .refreshTokenReused) ∧
      s'.db.users = s.db.users ∧
      (∀ r ∈ s'.db.refreshTokens.rows, r.familyId = row.familyId → r.revokedAt ≠ none) ∧
      ∀ tr' u, (history env).Run Any s' tr' u →
        ∀ r ∈ u.db.refreshTokens.rows, r.familyId = row.familyId → ∀ t', env.hash t' = r.tokenHash →
          ∀ now' draw' pair, (refreshTokens env now' draw' u.db t').1 ≠ .ok pair) ∧
    (¬ Exchangeable env now s.db t →
      (∀ row ∈ s.db.refreshTokens.rows, row.tokenHash = env.hash t → row.usedAt = none) →
      (refreshTokens env now draw s.db t).1 = .error (.app .invalidRefreshToken) ∧ s'.db = s.db) ∧
    (∀ e u, (history env).next s e = some u → ∀ f ∈ s.db.refreshTokens.rows.map (·.familyId),
      ¬ e.call.Targets env s.db.refreshTokens f →
      u.db.refreshTokens.rows.filter (·.familyId = f) =
        s.db.refreshTokens.rows.filter (·.familyId = f)) ∧
    Evolve s₀.db.refreshTokens s.db.refreshTokens ∧ Evolve s.db.refreshTokens s'.db.refreshTokens := by
  have evolve : Evolve s.db.refreshTokens s'.db.refreshTokens := Run.evolve (.single trivial step)
  obtain ⟨⟨_, fresh⟩, rfl⟩ := history_next.1 step
  refine ⟨refreshTokens_ok_iff fresh, fun pair ok => refreshTokens_ok_rows fresh ok, ?_, ?_, ?_,
    Run.evolve run, evolve⟩
  · intro row hrow hash used
    have eq : refreshTokens env now draw s.db t = _ := refreshTokens_used hrow hash used
    have locked : Locked row.familyId (refreshTokens env now draw s.db t).2.refreshTokens := by
      rw [eq]
      exact locked_revokeFamily hrow
    refine ⟨by rw [eq], ?_, fun r hr => locked.revoked hr, ?_⟩
    · simp only [Call.run, eq]
    · intro tr' u later r hr hf t' hash' now' draw' pair ok
      have locked' : Locked r.familyId u.db.refreshTokens := hf ▸ Run.locked later locked
      exact locked'.not_exchangeable hr hash'.symm (exchangeable_of_ok ok)
  · intro dead unused
    by_cases known : ∃ row ∈ s.db.refreshTokens.rows, row.tokenHash = env.hash t
    · obtain ⟨row, hrow, hash⟩ := known
      simp only [Call.run, refreshTokens_dead hrow hash (unused row hrow hash) dead, and_self]
    · have unknown : ∀ row ∈ s.db.refreshTokens.rows, row.tokenHash ≠ env.hash t :=
        fun row hrow hash => known ⟨row, hrow, hash⟩
      simp only [Call.run, refreshTokens_unknown unknown, and_self]
  · intro e u next f known spared
    obtain ⟨⟨_, fresh⟩, rfl⟩ := history_next.1 next
    exact (e.call.effect fresh).untouched fresh known spared

/-! ### A replayed token -/

theorem reuse_detection_replay : ∃ s s' row,
    (history taggedEnv).next s ⟨30, ⟨3, "t3", 9⟩, .refreshTokens "t1"⟩ = some s' ∧
    row ∈ s.db.refreshTokens.rows ∧ row.tokenHash = taggedEnv.hash "t1" ∧ row.usedAt = some 20 ∧
    (refreshTokens taggedEnv 30 ⟨3, "t3", 9⟩ s.db "t1").1 = .error (.app .refreshTokenReused) ∧
    ∀ r ∈ s'.db.refreshTokens.rows, r.familyId = row.familyId → r.revokedAt ≠ none := by
  have computed : (((history taggedEnv).exec (fun _ _ => true) ⟨0, oneUser⟩
      [⟨10, ⟨1, "t1", 7⟩, .login "a@b.c" "pw"⟩, ⟨20, ⟨2, "t2", 8⟩, .refreshTokens "t1"⟩]).bind fun t =>
        ((history taggedEnv).next t ⟨30, ⟨3, "t3", 9⟩, .refreshTokens "t1"⟩).bind fun u =>
          ((history taggedEnv).exec (fun _ _ => true) u []).map fun _ =>
            decide (∃ row ∈ t.db.refreshTokens.rows,
              row.tokenHash = taggedEnv.hash "t1" ∧ row.usedAt = some 20)) = some true := by decide
  obtain ⟨tr, s, s', -, -, run, step, -, used⟩ :=
    exists_step_of_exec (C := Any) (fun _ _ _ => trivial) computed
  obtain ⟨row, hrow, hash, used⟩ := of_decide_eq_true used
  obtain ⟨answer, -, revoked, -⟩ :=
    (reuse_detection run step).2.2.1 row hrow hash (by rw [used]; exact Option.some_ne_none _)
  exact ⟨s, s', row, step, hrow, hash, used, answer, revoked⟩

end EstateServer.Auth
