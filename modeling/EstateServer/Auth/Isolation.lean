import EstateServer.Auth.Families

/-!
# The sessions of one user

One user `u` lists and revokes sessions, in processes of its own (`mine`), while any other processes
serve requests of other users; the statements of all of them interleave.

* `Serves P` says that a process works for a user with `P`; it then leaves the rows of the other users
  alone (`filter_of_moves`), because a family has one user (`Chained.oneUser`).
* `State.only u mine` is what is left of a state when everybody else is taken away.  The steps of `u`
  are steps there and the other steps cannot be seen (`run_only`), so two runs with the same steps of
  `u` end alike for `u` (`sessions_isolated`).
-/

namespace EstateServer.Auth.Isolation

open Machine

/-! ## Listing sessions while others work -/

/-- Where a `ListSessions` of the user stands. -/
inductive Listing
  | idle
  | finding (currentFamilyId : Option FamilyId) (now : Instant)
  | grouping (currentFamilyId : Option FamilyId) (familyIds : List FamilyId)
  | done (sessions : List SessionView)
  deriving DecidableEq, Repr

/-- The second query of `findActiveFamilies`. -/
def groupFamilies (tokens : RefreshTokenTable) (userId : Option UserId) (familyIds : List FamilyId) :
    List SessionSummary :=
  let grouped := tokens.rows.filter fun row =>
    Prisma.whereEq userId row.userId ∧ row.familyId ∈ familyIds
  let summaries := (grouped.map (·.familyId)).dedup.filterMap fun familyId =>
    ((grouped.filter (·.familyId = familyId)).map (·.createdAt)).min?.map fun createdAt =>
      { familyId, createdAt }
  summaries.mergeSort fun a b => b.createdAt ≤ a.createdAt

theorem findActiveFamilies_eq (tokens : RefreshTokenTable) (userId : Option UserId) (now : Instant) :
    tokens.findActiveFamilies userId now =
      groupFamilies tokens userId ((tokens.findActive userId now).map (·.familyId)) := rfl

/-- The processes of the auth context, and those that list sessions. -/
structure State where
  world : Auth.State
  listing : Pid → Listing

inductive Label
  | world (a : Auth.Label)
  | list (p : Pid) (currentFamilyId : Option FamilyId)
  | query (p : Pid)

/-- The next query of a `ListSessions`. -/
def Listing.query (u : UserId) (tokens : RefreshTokenTable) : Listing → Option Listing
  | finding currentFamilyId now =>
    let active := tokens.findActive (some u) now
    if active.length = 0 then some (.done [])
    else some (.grouping currentFamilyId (active.map (·.familyId)))
  | grouping currentFamilyId familyIds =>
    some (.done ((groupFamilies tokens (some u) familyIds).map fun family =>
      { familyId := family.familyId, createdAt := family.createdAt
        current := some family.familyId = currentFamilyId }))
  | _ => none

/-- The state after a step; the listing processes are those of `u`. -/
def next (env : Env) (u : UserId) (s : State) : Label → Option State
  | .world a => (Auth.next env s.world a).map fun world => { s with world }
  | .list p currentFamilyId =>
    if s.listing p = .idle then
      some { s with
        listing := Function.update s.listing p (.finding currentFamilyId s.world.clock) }
    else none
  | .query p => ((s.listing p).query u s.world.tokens).map fun listing =>
      { s with listing := Function.update s.listing p listing }

/-- The sessions that interleaved requests lead to, and the listings of `u`. -/
def managing (env : Env) (u : UserId) : Machine State Label where
  start s := (sessions env).Reachable Any s.world
  next := next env u

/-! ## For whom a process works -/

/-- The user that a request names. -/
def named : Request → Option UserId
  | .logoutAll userId => some userId
  | .revokeSession userId _ => some userId
  | .changePassword userId _ _ => some userId
  | .updateProfile userId _ => some userId
  | _ => none

/-- The step takes up a request of a user with `P`: the one that the request names, the one who logs in,
or the one whose token is submitted. -/
def Speaks (env : Env) (P : UserId → Prop) (s : Auth.State) : Auth.Label → Prop
  | .arrive _ request => ∀ userId ∈ named request, P userId
  | .step p _ =>
    match s.phase p with
    | .login email _ => ∀ user ∈ s.users.findByEmail email, P user.id
    | .refresh t _ => ∀ found ∈ s.tokens.findByHash (env.hash t), P found.userId
    | .logout t => ∀ found ∈ s.tokens.findByHash (env.hash t), P found.userId
    | _ => True
  | _ => True

/-- The rows that a scope covers belong to a user with `P`. -/
def ScopeOf (P : UserId → Prop) (tokens : RefreshTokenTable) : Scope → Prop
  | .family f => ∃ row ∈ tokens.rows, row.familyId = f ∧ P row.userId
  | .user v => ∃ userId, v = some userId ∧ P userId

/-- The ids are those of rows of users with `P`. -/
def RowsOf (P : UserId → Prop) (tokens : RefreshTokenTable) (ids : List TokenId) : Prop :=
  ∀ id ∈ ids, ∃ row ∈ tokens.rows, row.id = id ∧ P row.userId

/-- The phase is one of a request of a user with `P`. -/
def Serves (P : UserId → Prop) (tokens : RefreshTokenTable) : Phase → Prop
  | .loginRead user _ _ => P user.id
  | .loginVerified user => P user.id
  | .refreshUsable found _ => P found.userId
  | .rotating found _ _ => P found.userId
  | .consumed found _ _ => P found.userId
  | .replaced found _ _ _ => P found.userId
  | .revokeSession userId _ => P userId
  | .changePassword userId _ _ => P userId
  | .passwordRead userId _ _ _ _ => P userId
  | .passwordVerified userId _ => P userId
  | .revoke tx _ => ScopeOf P tokens tx.scope
  | .revoking _ _ targets => RowsOf P tokens targets
  | .revoked _ _ targets => RowsOf P tokens targets
  | _ => True

/-- A request that manages the sessions of `u`. -/
def Manages (u : UserId) (request : Request) : Prop :=
  request = .logoutAll u ∨ ∃ f, request = .revokeSession u f

/-- The steps of the processes of `u` manage its sessions, and the other steps are taken for other
users. -/
def Turns (env : Env) (u : UserId) (mine : Pid → Bool) (s : State) (a : Label) : Prop :=
  ∀ b p, a = .world b → b.pid = some p →
    if mine p then ∀ request, b = .arrive p request → Manages u request
    else Speaks env (· ≠ u) s.world b

/-- A state from which `u` begins: reached by any requests, with the processes of `u` idle and the other
ones at work for other users. -/
structure Ready (env : Env) (u : UserId) (mine : Pid → Bool) (s : State) : Prop where
  reachable : (managing env u).start s
  idle : s.listing = fun _ => .idle
  own : ∀ p, mine p = true → s.world.phase p = .idle
  others : ∀ p, mine p = false → Serves (· ≠ u) s.world.tokens (s.world.phase p)

/-- The states have the same rows of `u`, at the same time. -/
structure Agree (u : UserId) (s s' : State) : Prop where
  clock : s.world.clock = s'.world.clock
  rows : s.world.tokens.rows.filter (fun row => row.userId = u) =
    s'.world.tokens.rows.filter fun row => row.userId = u

/-- The steps of the other processes. -/
def hidden (mine : Pid → Bool) (st : Step State Label) : Bool :=
  match st.label with
  | .world b => b.pid.any fun p => !mine p
  | _ => false

/-- The steps of the processes of `u`, and those of the clock. -/
def visible (mine : Pid → Bool) (tr : List (Step State Label)) : List Label :=
  (tr.filter fun st => !hidden mine st).map (·.label)

/-! ## Rows of other users are left alone -/

variable {env : Env} {u : UserId} {mine : Pid → Bool} {w w' : Auth.State} {b : Auth.Label} {p q : Pid}
  {P : UserId → Prop} {tokens tokens' : RefreshTokenTable}

/-- A family has one user. -/
def OneUser (tokens : RefreshTokenTable) : Prop :=
  ∀ row ∈ tokens.rows, ∀ row' ∈ tokens.rows, row.familyId = row'.familyId → row.userId = row'.userId

theorem ScopeOf.covers {scope : Scope} {row : RefreshTokenRow} (h : ScopeOf P tokens scope)
    (one : OneUser tokens) (mem : row ∈ tokens.rows) (covers : scope.covers row = true) :
    P row.userId := by
  cases scope with
  | family f =>
    obtain ⟨row', mem', rfl, hP⟩ := h
    rw [one row mem row' mem' (of_decide_eq_true covers)]
    exact hP
  | user v =>
    obtain ⟨userId, rfl, hP⟩ := h
    rw [Scope.covers, Prisma.whereEq_some, decide_eq_true_eq] at covers
    rwa [covers]

theorem RowsOf.of_mem {ids : List TokenId} {row : RefreshTokenRow} (h : RowsOf P tokens ids)
    (mem : row ∈ tokens.rows) (hit : row.id ∈ ids) : P row.userId := by
  obtain ⟨row', mem', same, hP⟩ := h row.id hit
  rwa [← RefreshTokenTable.eq_of_id mem' mem same]

theorem ScopeOf.evolve {scope : Scope} (h : ScopeOf P tokens scope) (later : Evolve tokens tokens') :
    ScopeOf P tokens' scope := by
  cases scope with
  | family f =>
    obtain ⟨row, mem, rfl, hP⟩ := h
    obtain ⟨row', mem', e⟩ := later row mem
    exact ⟨row', mem', e.familyId, e.userId ▸ hP⟩
  | user v => exact h

theorem RowsOf.evolve {ids : List TokenId} (h : RowsOf P tokens ids) (later : Evolve tokens tokens') :
    RowsOf P tokens' ids := by
  intro id hid
  obtain ⟨row, mem, rfl, hP⟩ := h id hid
  obtain ⟨row', mem', e⟩ := later row mem
  exact ⟨row', mem', e.id, e.userId ▸ hP⟩

theorem Serves.evolve {phase : Phase} (h : Serves P tokens phase) (later : Evolve tokens tokens') :
    Serves P tokens' phase := by
  cases phase with
  | revoke => exact ScopeOf.evolve h later
  | revoking | revoked => exact RowsOf.evolve h later
  | _ => exact h

theorem rowsOf_targets {scope : Scope} (h : ScopeOf P tokens scope) (one : OneUser tokens) :
    RowsOf P tokens (scope.targets tokens) := by
  intro id mem
  obtain ⟨row, hit, rfl⟩ := List.mem_map.1 mem
  obtain ⟨mem, covers⟩ := List.mem_filter.1 hit
  exact ⟨row, mem, rfl, h.covers one mem (of_decide_eq_true covers).1⟩

theorem evolve_of_moves (sound : Sound w) (m : Moves env w b w') : Evolve w.tokens w'.tokens := by
  rcases tokenMove_of_moves sound m with ⟨same, -⟩ | ⟨p, draw, -, move⟩
  · rw [same]
    exact .refl _
  · exact move.evolve

/-- The owner of a family is the user of one of its rows. -/
theorem row_of_findFamilyOwner {f : FamilyId} {v : UserId} (h : tokens.findFamilyOwner f = some v) :
    ∃ row ∈ tokens.rows, row.familyId = f ∧ row.userId = v := by
  obtain ⟨row, found, same⟩ := Option.map_eq_some_iff.1 h
  rw [RefreshTokenTable.findFamilyRow] at found
  exact ⟨row, List.mem_of_find?_eq_some found, by simpa using List.find?_some found, same⟩

/-- A token that is found belongs to a family of its user. -/
theorem scopeOf_found {hash : TokenHash} {found : RefreshToken}
    (h : tokens.findByHash hash = some found) (hP : P found.userId) :
    ScopeOf P tokens (.family found.familyId) := by
  obtain ⟨row, mem, -, rfl⟩ := RefreshTokenTable.findByHash_eq_some.1 h
  exact ⟨row, mem, rfl, hP⟩

theorem Serves.read {phase phase' : Phase} {draw : Draw} (h : Serves P w.tokens phase)
    (one : OneUser w.tokens) (hphase : w.phase p = phase) (speaks : Speaks env P w (.step p draw))
    (read : Reads env w draw phase phase') : Serves P w.tokens phase' := by
  cases read with
  | failed | loggedIn | unknown | renamed => trivial
  | loginRead found =>
    simp only [Speaks, hphase] at speaks
    exact speaks _ found
  | reused known =>
    simp only [Speaks, hphase] at speaks
    exact scopeOf_found known (speaks _ known)
  | usable known =>
    simp only [Speaks, hphase] at speaks
    exact speaks _ known
  | logout known =>
    simp only [Speaks, hphase] at speaks
    exact scopeOf_found known (speaks _ known)
  | revokeSession owner =>
    obtain ⟨row, mem, family, rfl⟩ := row_of_findFamilyOwner owner
    exact ⟨row, mem, family, h⟩
  | revoking => exact rowsOf_targets h one
  | loginVerified | rotating | replaced | passwordRead | passwordVerified => exact h

theorem serves_start {request : Request} {now : Instant} (h : ∀ userId ∈ named request, P userId) :
    Serves P tokens (request.start now) := by
  cases request with
  | logoutAll userId => exact ⟨userId, rfl, h userId rfl⟩
  | revokeSession userId | changePassword userId => exact h userId rfl
  | _ => trivial

/-- A step goes on with the request of its user. -/
theorem serves_of_moves (sound : Sound w) (one : OneUser w.tokens) (m : Moves env w b w')
    (hp : b.pid = some p) (h : Serves P w.tokens (w.phase p)) (speaks : Speaks env P w b) :
    Serves P w'.tokens (w'.phase p) := by
  have later := evolve_of_moves sound m
  cases m with
  | advance => cases hp
  | arrive =>
    obtain rfl := Option.some.inj hp
    rw [enter_phase_self]
    exact serves_start speaks
  | read read =>
    obtain rfl := Option.some.inj hp
    rw [enter_phase_self]
    exact h.read one rfl speaks (reads_of_advance read)
  | consume hphase =>
    obtain rfl := Option.some.inj hp
    rw [hphase] at h
    rw [enter_phase_self]
    exact h
  | lockUser hphase =>
    obtain rfl := Option.some.inj hp
    rw [hphase] at h
    rw [enter_phase_self]
    exact ⟨_, rfl, h⟩
  | lockTokens hphase =>
    obtain rfl := Option.some.inj hp
    rw [hphase] at h
    rw [enter_phase_self]
    exact fun id mem => h id (List.mem_filter.1 mem).1
  | login =>
    obtain rfl := Option.some.inj hp
    rw [enter_phase_self]
    trivial
  | fail | lose | rotate | gone | rename | revoke =>
    obtain rfl := Option.some.inj hp
    rw [finish_phase_self]
    trivial

/-- The rows of the users without `P` stay as they are. -/
theorem filter_of_moves (sound : Sound w) (m : Moves env w b w') (hp : b.pid = some p)
    (h : Serves P w.tokens (w.phase p)) (others : UserId → Bool)
    (apart : ∀ userId, P userId → others userId = false) :
    w'.tokens.rows.filter (fun row => others row.userId) =
      w.tokens.rows.filter fun row => others row.userId := by
  rcases tokenMove_of_moves sound m with ⟨same, -⟩ | ⟨q, draw, rfl, move⟩
  · rw [same]
  · obtain rfl := Option.some.inj hp
    generalize w'.tokens = tokens at move ⊢
    cases move with
    | login hphase _ save =>
      rw [hphase] at h
      rw [RefreshTokenTable.save_eq_some save, List.filter_append, List.filter_singleton]
      simp [issuedToken, RefreshToken.create, apart _ h]
    | @rotate found now new _ _ row hphase shadows _ _ _ userId _ save =>
      rw [hphase] at h
      have mine : others row.userId = false := apart _ (shadows.2.2.1 ▸ h)
      rw [RefreshTokenTable.save_eq_some save, List.filter_append, List.filter_singleton]
      have kept : (w.tokens.markUsed row.id now).1.rows.filter (fun row => others row.userId) =
          w.tokens.rows.filter fun row => others row.userId := by
        refine Table.filter_updateMany (fun r hr other => ?_) fun r => by simp
        refine decide_eq_false fun hit => ?_
        rw [RefreshTokenTable.eq_of_id hr shadows.1 hit.1, mine] at other
        cases other
      rw [kept]
      simp [userId, mine]
    | @revoke tx _ targets hphase =>
      rw [hphase] at h
      refine Table.filter_updateMany (fun r hr other => ?_) fun r => by simp
      refine decide_eq_false fun hit => ?_
      rw [apart _ (RowsOf.of_mem h hr hit.1)] at other
      cases other

/-! ## The state without the others -/

/-- Nobody. -/
def noUsers : UserTable := ⟨[], List.nodup_nil, List.nodup_nil⟩

/-- The rows of `u`. -/
def ownTokens (u : UserId) (tokens : RefreshTokenTable) : RefreshTokenTable where
  rows := tokens.rows.filter fun row => row.userId = u
  id_unique := tokens.id_unique.sublist (List.filter_sublist.map _)
  tokenHash_unique := tokens.tokenHash_unique.sublist (List.filter_sublist.map _)

/-- The locks that the processes of `u` hold. -/
def ownLocks (mine : Pid → Bool) (locks : Locks TokenId Pid) : Locks TokenId Pid :=
  fun id => (locks id).filter mine

/-- What is left of a state for the user `u`. -/
def only (u : UserId) (mine : Pid → Bool) (w : Auth.State) : Auth.State where
  clock := w.clock
  users := noUsers
  tokens := ownTokens u w.tokens
  userLock := .free
  tokenLock := ownLocks mine w.tokenLock
  request p := if mine p then w.request p else none
  phase p := if mine p then w.phase p else .idle

def State.only (u : UserId) (mine : Pid → Bool) (s : State) : State :=
  { s with world := Isolation.only u mine s.world }

theorem ext_rows (h : tokens.rows = tokens'.rows) : tokens = tokens' := by
  cases tokens
  cases tokens'
  obtain rfl := h
  rfl

section

variable {locks : Locks TokenId Pid} {ids : List TokenId}

theorem ownLocks_acquire_of_other (other : mine p = false)
    (available : ∀ id ∈ ids, locks.available p id = true) :
    ownLocks mine (locks.acquire p ids) = ownLocks mine locks := by
  funext id
  by_cases mem : id ∈ ids
  · rw [ownLocks, Locks.acquire_of_mem mem]
    rcases of_decide_eq_true (available id mem) with free | held
    · simp [ownLocks, free, other]
    · simp [ownLocks, held]
  · rw [ownLocks, ownLocks, Locks.acquire, if_neg mem]

theorem ownLocks_release_of_other (other : mine p = false) :
    ownLocks mine (locks.release p) = ownLocks mine locks := by
  funext id
  by_cases held : locks id = some p
  · simp [ownLocks, Locks.release, held, Option.filter_some, other]
  · simp [ownLocks, Locks.release, held]

theorem ownLocks_acquire (own : mine p = true) :
    ownLocks mine (locks.acquire p ids) = (ownLocks mine locks).acquire p ids := by
  funext id
  by_cases mem : id ∈ ids
  · simp [ownLocks, Locks.acquire, mem, own]
  · simp [ownLocks, Locks.acquire, mem]

theorem ownLocks_release (own : mine p = true) :
    ownLocks mine (locks.release p) = (ownLocks mine locks).release p := by
  funext id
  cases held : locks id with
  | none => simp [ownLocks, Locks.release, held]
  | some q =>
    by_cases same : q = p
    · subst same
      simp [ownLocks, Locks.release, held, own]
    · cases seen : mine q <;> simp [ownLocks, Locks.release, held, Option.filter_some, same, seen]

theorem ownLocks_available (own : mine p = true) {id : TokenId}
    (available : locks.available p id = true) : (ownLocks mine locks).available p id = true := by
  rcases of_decide_eq_true available with free | held
  · exact decide_eq_true (.inl (by simp [ownLocks, free]))
  · exact decide_eq_true (.inr (by simp [ownLocks, held, own]))

end

/-- A step for another user cannot be seen. -/
theorem only_of_others (sound : Sound w) (m : Moves env w b w') (hp : b.pid = some p)
    (other : mine p = false) (h : Serves (· ≠ u) w.tokens (w.phase p)) :
    only u mine w' = only u mine w := by
  have rows : ownTokens u w'.tokens = ownTokens u w.tokens := by
    have same := filter_of_moves sound m hp h (fun userId => userId = u) (by simp)
    exact ext_rows same
  have clock : w'.clock = w.clock := by
    cases m with
    | advance => cases hp
    | _ => rfl
  have locks : ownLocks mine w'.tokenLock = ownLocks mine w.tokenLock := by
    cases m with
    | advance | arrive | read | login | lockUser => rfl
    | consume _ _ available =>
      obtain rfl := Option.some.inj hp
      refine ownLocks_acquire_of_other other fun id mem => ?_
      rw [List.mem_singleton.1 mem]
      exact available
    | lockTokens _ available =>
      obtain rfl := Option.some.inj hp
      exact ownLocks_acquire_of_other other available
    | fail | lose | rotate | gone | rename | revoke =>
      obtain rfl := Option.some.inj hp
      exact ownLocks_release_of_other other
  have apart : ∀ q, mine q = true → b.pid ≠ some q := by
    intro q hq same
    rw [hp, Option.some.injEq] at same
    rw [same, hq] at other
    cases other
  have request : ∀ q, (if mine q then w'.request q else none) = if mine q then w.request q else none := by
    intro q
    split_ifs with hq
    · exact m.request_of_ne (apart q hq)
    · rfl
  have phase : ∀ q, (if mine q then w'.phase q else .idle) = if mine q then w.phase q else .idle := by
    intro q
    split_ifs with hq
    · exact m.phase_of_ne (apart q hq)
    · rfl
  rw [only, only, rows, clock, locks, funext request, funext phase]

/-! ## The steps of the user -/

theorem update_own {β : Type*} (own : mine p = true) (f : Pid → β) (x d : β) :
    (fun q => if mine q then Function.update f p x q else d) =
      Function.update (fun q => if mine q then f q else d) p x := by
  funext q
  by_cases same : q = p
  · subst same
    rw [if_pos own, Function.update_self, Function.update_self]
  · rw [Function.update_of_ne same, Function.update_of_ne same]

theorem only_enter (own : mine p = true) (phase : Phase) :
    only u mine (w.enter p phase) = (only u mine w).enter p phase :=
  congrArg (Auth.State.mk _ _ _ _ _ _) (update_own own w.phase phase .idle)

theorem only_finish (own : mine p = true) (result : Result) :
    only u mine (w.finish p result) = (only u mine w).finish p result := by
  have phase := update_own own w.phase (.done result) .idle
  have locks : ownLocks mine (w.tokenLock.release p) = _ := ownLocks_release own
  have free : (Locks.free : Locks UserId Pid) = Locks.release .free p := by
    funext id
    simp [Locks.release, Locks.free]
  simp only [only, Auth.State.finish, locks, phase, ← free]

theorem only_acquire (own : mine p = true) (ids : List TokenId) :
    only u mine { w with tokenLock := w.tokenLock.acquire p ids } =
      { only u mine w with tokenLock := (only u mine w).tokenLock.acquire p ids } :=
  congrArg (fun locks => { only u mine w with tokenLock := locks }) (ownLocks_acquire own)

theorem only_request (own : mine p = true) (request : Option Request) :
    only u mine { w with request := Function.update w.request p request } =
      { only u mine w with request := Function.update (only u mine w).request p request } :=
  congrArg (fun requests => { only u mine w with request := requests })
    (update_own own w.request request none)

/-- The phases of a request that manages sessions. -/
def Managing : Phase → Prop
  | .idle => True
  | .revokeSession _ _ => True
  | .revoke tx _ => tx.user = none
  | .revoking tx _ _ => tx.user = none
  | .revoked tx _ _ => tx.user = none
  | .done _ => True
  | _ => False

theorem findFamilyOwner_iff (one : OneUser tokens) {f : FamilyId} :
    tokens.findFamilyOwner f = some u ↔ ∃ row ∈ tokens.rows, row.familyId = f ∧ row.userId = u := by
  refine ⟨row_of_findFamilyOwner, ?_⟩
  rintro ⟨row, mem, family, same⟩
  have known : (tokens.findFamilyRow f).isSome := by
    rw [RefreshTokenTable.findFamilyRow, List.find?_isSome]
    exact ⟨row, mem, decide_eq_true family⟩
  obtain ⟨first, found⟩ := Option.isSome_iff_exists.1 known
  have owner : tokens.findFamilyOwner f = some first.userId :=
    congrArg (Option.map fun row : RefreshTokenRow => row.userId) found
  obtain ⟨first', mem', family', same'⟩ := row_of_findFamilyOwner owner
  rw [owner, ← same', one first' mem' row mem (family'.trans family.symm), same]

theorem mem_ownTokens {row : RefreshTokenRow} :
    row ∈ (ownTokens u tokens).rows ↔ row ∈ tokens.rows ∧ row.userId = u := by
  simp [ownTokens]

theorem OneUser.own (one : OneUser tokens) : OneUser (ownTokens u tokens) :=
  fun row mem row' mem' => one row (mem_ownTokens.1 mem).1 row' (mem_ownTokens.1 mem').1

theorem findFamilyOwner_own (one : OneUser tokens) {f : FamilyId} :
    (ownTokens u tokens).findFamilyOwner f = some u ↔ tokens.findFamilyOwner f = some u := by
  rw [findFamilyOwner_iff one, findFamilyOwner_iff one.own]
  simp only [mem_ownTokens]
  exact exists_congr fun row => by tauto

theorem targets_own {scope : Scope} (h : ScopeOf (· = u) tokens scope) (one : OneUser tokens) :
    scope.targets (ownTokens u tokens) = scope.targets tokens := by
  refine congrArg (List.map _) ?_
  rw [ownTokens, List.filter_filter]
  refine List.filter_congr fun row mem => ?_
  cases covers : scope.covers row with
  | false => simp
  | true => simp [h.covers one mem covers]

theorem unrevoked_own {ids : List TokenId} (h : RowsOf (· = u) tokens ids) :
    ids.filter (ownTokens u tokens).unrevoked = ids.filter tokens.unrevoked := by
  refine List.filter_congr fun id hid => ?_
  rw [Bool.eq_iff_iff, RefreshTokenTable.unrevoked, RefreshTokenTable.unrevoked, List.any_eq_true,
    List.any_eq_true]
  refine exists_congr fun row => and_congr_left fun hit => ?_
  rw [mem_ownTokens, and_iff_left_iff_imp]
  intro mem
  rw [decide_eq_true_eq] at hit
  exact h.of_mem mem (hit.1 ▸ hid)

theorem revokeRows_own {ids : List TokenId} {t : Instant} :
    ownTokens u (tokens.revokeRows ids t) = (ownTokens u tokens).revokeRows ids t := by
  refine ext_rows ?_
  simp only [ownTokens, RefreshTokenTable.revokeRows, RefreshTokenTable.updateMany, Table.updateMany,
    List.filter_map]
  refine congrArg (List.map _) (List.filter_congr fun row _ => ?_)
  simp only [Function.comp_apply]
  split_ifs
  · rw [Assignment.apply_userId]
  · rfl

theorem advance_only {phase : Phase} {draw : Draw} (managing : Managing phase)
    (serves : Serves (· = u) w.tokens phase) (one : OneUser w.tokens) :
    phase.advance env (only u mine w) draw = phase.advance env w draw := by
  cases phase with
  | revokeSession userId familyId =>
    obtain rfl : userId = u := serves
    simp only [Phase.advance, only, ne_eq, findFamilyOwner_own one]
  | revoke tx result =>
    simp only [Phase.advance, only, targets_own serves one]
  | idle | revoking | revoked | done => rfl
  | _ => exact managing.elim

/-- A step of the user is the same step without the others. -/
theorem only_of_own {draw : Draw} (one : OneUser w.tokens) (own : mine p = true)
    (serves : Serves (· = u) w.tokens (w.phase p)) (managing : Managing (w.phase p))
    (step : Auth.next env w (.step p draw) = some w') :
    Auth.next env (only u mine w) (.step p draw) = some (only u mine w') := by
  have phase : (only u mine w).phase p = w.phase p := if_pos own
  have reading : ((w.phase p).advance env w draw).map (w.enter p) = some w' →
      ((w.phase p).advance env (only u mine w) draw).map ((only u mine w).enter p) =
        some (only u mine w') := by
    intro read
    obtain ⟨phase', advanced, rfl⟩ := Option.map_eq_some_iff.1 read
    exact Option.map_eq_some_iff.2 ⟨phase', (advance_only managing serves one).trans advanced,
      (only_enter own phase').symm⟩
  simp only [Auth.next, phase] at step ⊢
  generalize w.phase p = before at *
  cases before with
  | revoking tx result targets =>
    simp only [Option.ite_none_right_eq_some, Option.some.injEq] at step ⊢
    obtain ⟨available, rfl⟩ := step
    have same : targets.filter (only u mine w).tokens.unrevoked = targets.filter w.tokens.unrevoked :=
      unrevoked_own serves
    rw [same, only_enter own, only_acquire own]
    exact ⟨List.all_eq_true.2 fun id mem => ownLocks_available own (List.all_eq_true.1 available id mem),
      rfl⟩
  | revoked tx result targets =>
    obtain rfl := Option.some.inj step
    rw [only_finish own]
    have gone : tx.user = none := managing
    simp only [gone, only, revokeRows_own]
  | idle | revokeSession | revoke | done => exact reading step
  | _ => exact managing.elim

/-- What holds of a process of the user stays true. -/
theorem managing_of_moves (m : Moves env w b w') (hp : b.pid = some p) (managing : Managing (w.phase p))
    (arrives : ∀ request, b = .arrive p request → Manages u request) : Managing (w'.phase p) := by
  cases m with
  | advance => cases hp
  | @arrive _ request =>
    obtain rfl := Option.some.inj hp
    rw [enter_phase_self]
    rcases arrives request rfl with rfl | ⟨f, rfl⟩
    · exact rfl
    · trivial
  | @read q draw phase read =>
    obtain rfl := Option.some.inj hp
    rw [enter_phase_self]
    generalize w.phase q = before at *
    have reads := reads_of_advance read
    cases reads with
    | failed | unknown | loggedIn => trivial
    | revokeSession => exact rfl
    | revoking => exact managing
    | _ => exact managing.elim
  | lockTokens hphase =>
    obtain rfl := Option.some.inj hp
    rw [hphase] at managing
    rw [enter_phase_self]
    exact managing
  | login hphase | consume hphase | lockUser hphase =>
    obtain rfl := Option.some.inj hp
    rw [hphase] at managing
    exact managing.elim
  | fail | lose | rotate | gone | rename | revoke =>
    obtain rfl := Option.some.inj hp
    rw [finish_phase_self]
    trivial

/-! ## Runs -/

/-- What the processes keep true. -/
structure Kept (u : UserId) (mine : Pid → Bool) (w : Auth.State) : Prop where
  sound : Sound w
  chained : ∃ tr, Chained w.tokens tr
  own : ∀ p, mine p = true → Serves (· = u) w.tokens (w.phase p) ∧ Managing (w.phase p)
  others : ∀ p, mine p = false → Serves (· ≠ u) w.tokens (w.phase p)

theorem Kept.one (kept : Kept u mine w) : OneUser w.tokens := kept.chained.elim fun _ h => h.oneUser

theorem speaks_own (managing : Managing (w.phase p)) (hp : b.pid = some p)
    (arrives : ∀ request, b = .arrive p request → Manages u request) : Speaks env (· = u) w b := by
  cases b with
  | advance | fail => trivial
  | arrive q request =>
    obtain rfl := Option.some.inj hp
    rcases arrives request rfl with rfl | ⟨f, rfl⟩ <;> exact fun v hv => (Option.some.inj hv).symm
  | step q draw =>
    obtain rfl := Option.some.inj hp
    simp only [Speaks]
    split <;> rename_i hphase <;> first | trivial | exact (hphase ▸ managing).elim

theorem Kept.of_next {s s' : State} {a : Label} (kept : Kept u mine s.world)
    (turns : Turns env u mine s a) (next : (managing env u).next s a = some s') :
    Kept u mine s'.world := by
  cases a with
  | list p currentFamilyId =>
    simp only [Isolation.managing, Isolation.next, Option.ite_none_right_eq_some,
      Option.some.injEq] at next
    obtain ⟨-, rfl⟩ := next
    exact kept
  | query p =>
    obtain ⟨listing, -, rfl⟩ := Option.map_eq_some_iff.1 next
    exact kept
  | world b =>
    obtain ⟨world, step, rfl⟩ := Option.map_eq_some_iff.1 next
    have m : Moves env s.world b world := moves_of_next step
    have later := evolve_of_moves kept.sound m
    refine ⟨sound_of_moves kept.sound m, ?_, fun p own => ?_, fun p other => ?_⟩
    · obtain ⟨tr, chained⟩ := kept.chained
      exact ⟨_, chained_of_moves kept.sound m chained⟩
    · by_cases hp : b.pid = some p
      · have turn := turns b p rfl hp
        rw [if_pos own] at turn
        have speaks : Speaks env (· = u) s.world b := speaks_own (kept.own p own).2 hp turn
        exact ⟨serves_of_moves kept.sound kept.one m hp (kept.own p own).1 speaks,
          managing_of_moves m hp (kept.own p own).2 turn⟩
      · rw [m.phase_of_ne hp]
        exact ⟨(kept.own p own).1.evolve later, (kept.own p own).2⟩
    · by_cases hp : b.pid = some p
      · have turn := turns b p rfl hp
        rw [other] at turn
        exact serves_of_moves kept.sound kept.one m hp (kept.others p other) turn
      · rw [m.phase_of_ne hp]
        exact (kept.others p other).evolve later

theorem groupFamilies_own {ids : List FamilyId} :
    groupFamilies (ownTokens u tokens) (some u) ids = groupFamilies tokens (some u) ids := by
  have same : (ownTokens u tokens).rows.filter (fun row =>
      Prisma.whereEq (some u) row.userId ∧ row.familyId ∈ ids) =
      tokens.rows.filter fun row => Prisma.whereEq (some u) row.userId ∧ row.familyId ∈ ids := by
    rw [ownTokens, List.filter_filter]
    refine List.filter_congr fun row _ => ?_
    by_cases own : row.userId = u <;> simp [own]
  unfold groupFamilies
  rw [same]

theorem findActive_own {now : Instant} :
    (ownTokens u tokens).findActive (some u) now = tokens.findActive (some u) now := by
  rw [RefreshTokenTable.findActive, RefreshTokenTable.findActive, ownTokens, List.filter_filter]
  refine List.filter_congr fun row _ => ?_
  by_cases own : row.userId = u <;> simp [own]

theorem query_own (listing : Listing) :
    listing.query u (ownTokens u tokens) = listing.query u tokens := by
  cases listing with
  | finding => simp only [Listing.query, findActive_own]
  | grouping => simp only [Listing.query, groupFamilies_own]
  | idle | done => rfl

theorem hidden_same {s s' : State} {a : Label} (kept : Kept u mine s.world)
    (next : (managing env u).next s a = some s') (hid : hidden mine ⟨s, a, s'⟩ = true) :
    s'.only u mine = s.only u mine := by
  cases a with
  | world b =>
    obtain ⟨world, step, rfl⟩ := Option.map_eq_some_iff.1 next
    obtain ⟨p, hp, other⟩ := (Option.any_eq_true _ _).1 hid
    have other : mine p = false := by simpa using other
    have same : only u mine world = only u mine s.world :=
      only_of_others kept.sound (moves_of_next step) hp other (kept.others p other)
    rw [State.only, State.only, same]
  | list | query => cases hid

theorem visible_seen {s s' : State} {a : Label} (kept : Kept u mine s.world)
    (next : (managing env u).next s a = some s') (visible : hidden mine ⟨s, a, s'⟩ = false) :
    (managing env u).next (s.only u mine) a = some (s'.only u mine) := by
  cases a with
  | list p currentFamilyId =>
    simp only [Isolation.managing, Isolation.next, Option.ite_none_right_eq_some,
      Option.some.injEq] at next ⊢
    obtain ⟨idle, rfl⟩ := next
    exact ⟨idle, rfl⟩
  | query p =>
    obtain ⟨listing, query, rfl⟩ := Option.map_eq_some_iff.1 next
    exact Option.map_eq_some_iff.2 ⟨listing, (query_own _).trans query, rfl⟩
  | world b =>
    obtain ⟨world, step, rfl⟩ := Option.map_eq_some_iff.1 next
    refine Option.map_eq_some_iff.2 ⟨only u mine world, ?_, rfl⟩
    show Auth.next env (only u mine s.world) b = some (only u mine world)
    have own : ∀ p, b.pid = some p → mine p = true := by
      intro p hp
      simpa [hidden, hp] using visible
    cases b with
    | advance clock =>
      simp only [Auth.next, Option.ite_none_right_eq_some, Option.some.injEq] at step ⊢
      obtain ⟨later, rfl⟩ := step
      exact ⟨later, rfl⟩
    | arrive p request =>
      have own : mine p = true := own p rfl
      simp only [Auth.next, Option.ite_none_right_eq_some, Option.some.injEq] at step ⊢
      obtain ⟨idle, rfl⟩ := step
      rw [only_enter own, only_request own]
      exact ⟨(if_pos own).trans idle, rfl⟩
    | step p draw =>
      have own : mine p = true := own p rfl
      exact only_of_own kept.one own (kept.own p own).1 (kept.own p own).2 step
    | fail p =>
      have own : mine p = true := own p rfl
      have phase : (only u mine s.world).phase p = s.world.phase p := if_pos own
      simp only [Auth.next, phase] at step ⊢
      split at step
      · cases step
      · cases step
      · rename_i busy undone
        obtain rfl := Option.some.inj step
        exact congrArg some (only_finish own .aborted).symm

/-- A run without the other users: the steps of the user, one after the other. -/
theorem run_only {s s' : State} {tr : List (Step State Label)} (kept : Kept u mine s.world)
    (run : (managing env u).Run (Turns env u mine) s tr s') :
    ∃ tr', (managing env u).Run Any (s.only u mine) tr' (s'.only u mine) ∧
      tr'.map (·.label) = visible mine tr :=
  run.hide_of_invariant (I := fun s => Kept u mine s.world) (State.only u mine) (hidden mine)
    (fun _ _ _ kept turns next => kept.of_next turns next)
    (fun _ _ _ kept _ next hid => hidden_same kept next hid)
    (fun _ _ _ kept _ next visible => visible_seen kept next visible) kept

/-! ## Before the user begins -/

theorem working_of_reads {phase phase' : Phase} {draw : Draw} (reads : Reads env w draw phase phase') :
    phase' ≠ .idle := by
  cases reads <;> exact fun same => by cases same

theorem working_of_moves (m : Moves env w b w') (hp : b.pid = some p) : w'.phase p ≠ .idle := by
  cases m with
  | advance => cases hp
  | @arrive _ request =>
    obtain rfl := Option.some.inj hp
    rw [enter_phase_self]
    cases request <;> exact fun same => by cases same
  | read read =>
    obtain rfl := Option.some.inj hp
    rw [enter_phase_self]
    exact working_of_reads (reads_of_advance read)
  | login | consume | lockUser | lockTokens =>
    obtain rfl := Option.some.inj hp
    rw [enter_phase_self]
    exact fun same => by cases same
  | fail | lose | rotate | gone | rename | revoke =>
    obtain rfl := Option.some.inj hp
    rw [finish_phase_self]
    exact fun same => by cases same

/-- A lock of another process was there before. -/
theorem tokenLock_of_ne (m : Moves env w b w') (hp : b.pid ≠ some p) {id : TokenId}
    (held : w'.tokenLock id = some p) : w.tokenLock id = some p := by
  have acquired : ∀ q ids, b.pid = some q → w.tokenLock.acquire q ids id = some p →
      w.tokenLock id = some p := by
    intro q ids hq held
    rw [Locks.acquire] at held
    split_ifs at held
    · exact absurd (hq.trans held) hp
    · exact held
  cases m with
  | advance | arrive | read | login | lockUser => exact held
  | consume => exact acquired _ _ rfl held
  | lockTokens => exact acquired _ _ rfl held
  | fail | lose | rotate | gone | rename | revoke =>
    change Locks.release w.tokenLock _ id = some p at held
    rw [Locks.release] at held
    split_ifs at held
    exact held

/-- An idle process has no request and no locks. -/
theorem idle_of_reachable (reachable : (sessions env).Reachable Any w) (idle : w.phase p = .idle) :
    w.request p = none ∧ ∀ id, w.tokenLock id ≠ some p := by
  refine reachable.invariant
    (I := fun w => ∀ p, w.phase p = .idle → w.request p = none ∧ ∀ id, w.tokenLock id ≠ some p)
    (fun w start p _ => ?_) (fun w b w' kept _ next p idle => ?_) p idle
  · obtain ⟨-, -, locks, requests, -⟩ := start
    rw [locks, requests]
    exact ⟨rfl, fun id held => by cases held⟩
  · have m : Moves env w b w' := moves_of_next next
    have hp : b.pid ≠ some p := fun hp => working_of_moves m hp idle
    rw [m.phase_of_ne hp] at idle
    obtain ⟨none, free⟩ := kept p idle
    exact ⟨(m.request_of_ne hp).trans none, fun id held => free id (tokenLock_of_ne m hp held)⟩

variable {s s' t t' : State} {tr tr' : List (Step State Label)}

theorem Ready.kept (ready : Ready env u mine s) : Kept u mine s.world := by
  obtain ⟨w₀, tr, start, run⟩ := ready.reachable
  obtain ⟨sound, chained⟩ := chained_of_run start run
  refine ⟨sound, ⟨tr, chained⟩, fun p own => ?_, ready.others⟩
  rw [ready.own p own]
  exact ⟨trivial, trivial⟩

/-- A state from which `u` begins has no trace of the others but the rows of `u`. -/
theorem Ready.only_eq (ready : Ready env u mine s) : s.only u mine =
    ⟨⟨s.world.clock, noUsers, ownTokens u s.world.tokens, .free, .free, fun _ => none, fun _ => .idle⟩,
      fun _ => .idle⟩ := by
  have locks : ownLocks mine s.world.tokenLock = .free := by
    funext id
    refine Option.filter_eq_none_iff.2 fun p held own => ?_
    exact (idle_of_reachable ready.reachable (ready.own p own)).2 id held
  have requests : (fun p => if mine p then s.world.request p else none) = fun _ => none := by
    funext p
    split_ifs with own
    · exact (idle_of_reachable ready.reachable (ready.own p own)).1
    · rfl
  have phases : (fun p => if mine p then s.world.phase p else .idle) = fun _ => Phase.idle := by
    funext p
    split_ifs with own
    · exact ready.own p own
    · rfl
  rw [State.only, Isolation.only, locks, requests, phases, ready.idle]

theorem Agree.only_eq (ready : Ready env u mine s) (ready' : Ready env u mine s')
    (agree : Agree u s s') : s.only u mine = s'.only u mine := by
  have rows : ownTokens u s.world.tokens = ownTokens u s'.world.tokens := ext_rows agree.rows
  rw [ready.only_eq, ready'.only_eq, agree.clock, rows]

/-! ## Isolation -/

/-- The steps of `u` change rows of `u` alone. -/
theorem others_kept {a : Label} (kept : Kept u mine s.world)
    (next : (managing env u).next s a = some s') (own : hidden mine ⟨s, a, s'⟩ = false) :
    s'.world.tokens.rows.filter (fun row => row.userId ≠ u) =
      s.world.tokens.rows.filter fun row => row.userId ≠ u := by
  cases a with
  | list p currentFamilyId =>
    simp only [Isolation.managing, Isolation.next, Option.ite_none_right_eq_some,
      Option.some.injEq] at next
    obtain ⟨-, rfl⟩ := next
    rfl
  | query p =>
    obtain ⟨listing, -, rfl⟩ := Option.map_eq_some_iff.1 next
    rfl
  | world b =>
    obtain ⟨world, step, rfl⟩ := Option.map_eq_some_iff.1 next
    have m : Moves env s.world b world := moves_of_next step
    cases hp : b.pid with
    | none =>
      cases m with
      | advance => rfl
      | _ => cases hp
    | some p =>
      have own : mine p = true := by simpa [hidden, hp] using own
      exact filter_of_moves kept.sound m hp (kept.own p own).1 (fun userId => userId ≠ u) (by simp)

/-- Revoking a family of somebody else, or one that is not there. -/
theorem refused {p : Pid} {draw : Draw} {f : FamilyId}
    (next : (managing env u).next s (.world (.step p draw)) = some s')
    (asks : s.world.phase p = .revokeSession u f)
    (foreign : ∀ row ∈ s.world.tokens.rows, row.familyId = f → row.userId ≠ u) :
    s'.world.phase p = .done (.failed (.app .notSessionOwner)) ∧ s'.world.tokens = s.world.tokens := by
  obtain ⟨world, step, rfl⟩ := Option.map_eq_some_iff.1 next
  have owner : s.world.tokens.findFamilyOwner f ≠ some u := by
    intro owner
    obtain ⟨row, mem, family, same⟩ := row_of_findFamilyOwner owner
    exact foreign row mem family same
  simp only [Auth.next, asks, Phase.advance, owner, ne_eq, not_false_eq_true, if_true, Option.map_some,
    Option.some.injEq] at step
  rw [← step]
  exact ⟨enter_phase_self _ _ _, rfl⟩

/-- The calls of `u` change rows of `u` alone, and a family of somebody else is refused like one that is
not there; and in two states that agree on the rows of `u`, the same steps of `u` get the same answers
and have the same effects on these rows, whatever the others do in between. -/
theorem sessions_isolated (ready : Ready env u mine s) (run : (managing env u).Run (Turns env u mine) s tr t) :
    (∀ st ∈ tr, hidden mine st = false →
      st.post.world.tokens.rows.filter (fun row => row.userId ≠ u) =
        st.pre.world.tokens.rows.filter fun row => row.userId ≠ u) ∧
    (∀ st ∈ tr, ∀ p draw f, st.label = .world (.step p draw) →
      st.pre.world.phase p = .revokeSession u f →
      (∀ row ∈ st.pre.world.tokens.rows, row.familyId = f → row.userId ≠ u) →
      st.post.world.phase p = .done (.failed (.app .notSessionOwner)) ∧
        st.post.world.tokens = st.pre.world.tokens) ∧
    ∀ s' tr' t', Ready env u mine s' → Agree u s s' →
      (managing env u).Run (Turns env u mine) s' tr' t' → visible mine tr = visible mine tr' →
      (∀ p, mine p = true → t.world.phase p = t'.world.phase p) ∧ t.listing = t'.listing ∧
        Agree u t t' := by
  refine ⟨fun st mem own => ?_, fun st mem p draw f label asks foreign => ?_,
    fun s' tr' t' ready' agree run' same => ?_⟩
  · have kept : Kept u mine st.pre.world := run.invariant_of_mem (I := fun s => Kept u mine s.world)
      (fun _ _ _ kept turns next => kept.of_next turns next) ready.kept mem
    exact others_kept kept (run.next_of_mem mem) own
  · have next := run.next_of_mem mem
    rw [label] at next
    exact refused next asks foreign
  · obtain ⟨alone, seen, labels⟩ := run_only ready.kept run
    obtain ⟨alone', seen', labels'⟩ := run_only ready'.kept run'
    rw [agree.only_eq ready ready'] at seen
    have last : t.only u mine = t'.only u mine :=
      seen.eq_of_labels seen' (labels.trans (same.trans labels'.symm))
    obtain ⟨world, listing⟩ := State.mk.inj last
    have clock : (only u mine t.world).clock = (only u mine t'.world).clock :=
      congrArg Auth.State.clock world
    refine ⟨fun p own => ?_, listing, clock, ?_⟩
    · have phase := congrFun (congrArg Auth.State.phase world) p
      simpa only [Isolation.only, own, if_true] using phase
    · exact congrArg (fun w => w.tokens.rows) world

/-- Requests of the others that all have ended leave a state from which `u` begins. -/
theorem ready_of_run {w₀ : Auth.State} {steps : List (Step Auth.State Auth.Label)}
    (start : (sessions env).start w₀) (run : (sessions env).Run Any w₀ steps w)
    (ended : ∀ a ∈ steps.map (·.label), ∀ p, a.pid = some p →
      mine p = false ∧ ∃ result, w.phase p = .done result) :
    Ready env u mine ⟨w, fun _ => .idle⟩ := by
  have idle : ∀ p, (∀ a ∈ steps.map (·.label), a.pid ≠ some p) → w.phase p = .idle := by
    intro p absent
    obtain ⟨-, -, -, -, phases⟩ := start
    rw [phase_of_run run fun st mem => absent _ (List.mem_map_of_mem mem), phases]
  refine ⟨⟨w₀, steps, start, run⟩, rfl, fun p own => idle p fun a mem hp => ?_, fun p other => ?_⟩
  · rw [(ended a mem p hp).1] at own
    cases own
  · by_cases served : ∃ a ∈ steps.map (·.label), a.pid = some p
    · obtain ⟨a, mem, hp⟩ := served
      obtain ⟨-, result, phase⟩ := ended a mem p hp
      show Serves _ _ (w.phase p)
      rw [phase]
      trivial
    · show Serves _ _ (w.phase p)
      rw [idle p fun a mem hp => served ⟨a, mem, hp⟩]
      trivial

/-- Two users, and no refresh token yet. -/
def twoUsers : Auth.State :=
  { calm with
    users :=
      { rows := [{ id := 1, email := "a@b.c", name := "A", passwordHash := some "bcrypt:pw",
                   role := .tenant, deletedAt := none },
                 { id := 2, email := "b@b.c", name := "B", passwordHash := some "bcrypt:pw",
                   role := .owner, deletedAt := none }]
        id_unique := show List.Nodup [1, 2] by decide
        email_unique := show List.Nodup ["a@b.c", "b@b.c"] by decide } }

/-- The checks that the first user, in the process 5, only revokes sessions. -/
def revoking (_ : State) : Label → Bool
  | .world (.arrive p (.revokeSession userId _)) => p = 5 ∧ userId = 1
  | .world (.step p _) => p = 5
  | _ => false

theorem turns_of_revoking (s : State) (a : Label) (checked : revoking s a = true) :
    Turns env 1 (· = 5) s a := by
  intro b p label hp
  subst label
  cases b with
  | advance | fail => cases checked
  | step q draw =>
    obtain rfl : q = 5 := of_decide_eq_true checked
    obtain rfl := Option.some.inj hp
    exact fun request arrives => by cases arrives
  | arrive q request =>
    cases request with
    | revokeSession userId f =>
      obtain ⟨rfl, rfl⟩ : q = 5 ∧ userId = 1 := of_decide_eq_true checked
      obtain rfl := Option.some.inj hp
      rintro _ ⟨⟩
      exact .inr ⟨f, rfl⟩
    | _ => cases checked

theorem visible_of_labels {as : List Auth.Label} (own : mine p = true) (pids : ∀ b ∈ as, b.pid = some p)
    (labels : tr.map (·.label) = as.map .world) : visible mine tr = as.map .world := by
  refine (congrArg (List.map _) (List.filter_eq_self.2 fun st mem => ?_)).trans labels
  have known : st.label ∈ tr.map (·.label) := List.mem_map_of_mem mem
  rw [labels] at known
  obtain ⟨b, hb, label⟩ := List.mem_map.1 known
  simp [hidden, ← label, pids b hb, own]

/-- The first user revokes a family that is not there, or that the second user has logged in with in
the meantime: the answers are the same. -/
theorem sessions_isolated_revoke : ∃ s s' tr tr' t t',
    (managing taggedEnv 1).Run (Turns taggedEnv 1 (· = 5)) s tr t ∧
    (managing taggedEnv 1).Run (Turns taggedEnv 1 (· = 5)) s' tr' t' ∧
    (∀ row ∈ s.world.tokens.rows, row.familyId ≠ 8) ∧
    (∃ row ∈ s'.world.tokens.rows, row.familyId = 8) ∧
    t'.world.phase 5 = .done (.failed (.app .notSessionOwner)) ∧
    t.world.phase 5 = t'.world.phase 5 := by
  let logins := loginSteps 1 ⟨1, "t1", 7⟩
  let logins' := logins ++ [.arrive 2 (.login "b@b.c" "pw"), go 2, go 2, .step 2 ⟨2, "t2", 8⟩, go 2]
  let others : List Auth.Label → Option Auth.State :=
    (sessions taggedEnv).exec (fun _ _ => true) twoUsers
  let revoke : List Auth.Label := [.arrive 5 (.revokeSession 1 8), go 5]
  let own : Auth.State → Option State := fun w =>
    (managing taggedEnv 1).exec revoking ⟨w, fun _ => .idle⟩ (revoke.map .world)
  have computed : ((others logins).bind fun w => (others logins').bind fun w' =>
      (own w).bind fun x => (own w').map fun x' => decide (
        w.clock = w'.clock ∧
        w.tokens.rows.filter (fun row => row.userId = 1) =
          w'.tokens.rows.filter (fun row => row.userId = 1) ∧
        w.phase 1 = .done (.loggedIn ⟨⟨1, "a@b.c", .tenant, 7⟩, "t1"⟩) ∧
        w'.phase 1 = .done (.loggedIn ⟨⟨1, "a@b.c", .tenant, 7⟩, "t1"⟩) ∧
        w'.phase 2 = .done (.loggedIn ⟨⟨2, "b@b.c", .owner, 8⟩, "t2"⟩) ∧
        (∀ row ∈ w.tokens.rows, row.familyId ≠ 8) ∧ (∃ row ∈ w'.tokens.rows, row.familyId = 8) ∧
        x'.world.phase 5 = .done (.failed (.app .notSessionOwner)))) = some true := by decide
  obtain ⟨w, hw, computed⟩ := Option.bind_eq_some_iff.1 computed
  obtain ⟨w', hw', computed⟩ := Option.bind_eq_some_iff.1 computed
  obtain ⟨x, hx, computed⟩ := Option.bind_eq_some_iff.1 computed
  obtain ⟨x', hx', facts⟩ := Option.map_eq_some_iff.1 computed
  obtain ⟨clock, rows, ended, ended', ended'', unknown, known, refused⟩ := of_decide_eq_true facts
  have start : (sessions taggedEnv).start twoUsers := ⟨rfl, rfl, rfl, rfl, rfl⟩
  obtain ⟨steps, before, labels⟩ := exists_run_of_exec (C := Any) (fun _ _ _ => trivial) hw
  obtain ⟨steps', before', labels'⟩ := exists_run_of_exec (C := Any) (fun _ _ _ => trivial) hw'
  obtain ⟨tr, run, asked⟩ := exists_run_of_exec (C := Turns taggedEnv 1 (· = 5)) turns_of_revoking hx
  obtain ⟨tr', run', asked'⟩ :=
    exists_run_of_exec (C := Turns taggedEnv 1 (· = 5)) turns_of_revoking hx'
  have first : ∀ a ∈ logins, a.pid = some 1 := by decide
  have either : ∀ a ∈ logins', a.pid = some 1 ∨ a.pid = some 2 := by decide
  have ready : Ready taggedEnv 1 (· = 5) ⟨w, fun _ => .idle⟩ := by
    refine ready_of_run start before fun a mem p hp => ?_
    obtain rfl := Option.some.inj ((first a (labels ▸ mem)).symm.trans hp)
    exact ⟨rfl, _, ended⟩
  have ready' : Ready taggedEnv 1 (· = 5) ⟨w', fun _ => .idle⟩ := by
    refine ready_of_run start before' fun a mem p hp => ?_
    rcases either a (labels' ▸ mem) with pid | pid <;> obtain rfl := Option.some.inj (pid.symm.trans hp)
    · exact ⟨rfl, _, ended'⟩
    · exact ⟨rfl, _, ended''⟩
  have pids : ∀ b ∈ revoke, b.pid = some 5 := by decide
  have seen : visible (· = 5) tr = revoke.map .world := visible_of_labels rfl pids asked
  have seen' : visible (· = 5) tr' = revoke.map .world := visible_of_labels rfl pids asked'
  obtain ⟨-, -, same⟩ := sessions_isolated ready run
  obtain ⟨answers, -, -⟩ := same _ tr' x' ready' ⟨clock, rows⟩ run' (seen.trans seen'.symm)
  exact ⟨_, _, tr, tr', x, x', run, run', unknown, known, refused, answers 5 rfl⟩

end EstateServer.Auth.Isolation
