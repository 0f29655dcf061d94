import EstateServer.Auth.Claims

/-!
# Who has signed up

`registry`: at any moment of any run, the table of users is that of the start and one user for every
sign-up of the log, in this order, up to names and password hashes; the table of accounts likewise.  So
a sign-up that was answered is in the table for good, one that was refused has left nothing, and of the
requests that race for an email one at most is in the log (the table has a unique constraint).  A request
that ends by an exception may have inserted its user before.  Nobody becomes an admin, and nobody gets a
password who has signed up without one.
-/

namespace EstateServer.Auth.Accounts

open Machine
open KakaoSignup (Account AccountTable AuthProvider CompleteKakaoSignupInput Draws)

/-! ## The statement -/

/-- The user that an event has inserted. -/
def enrolled : Event → Option Identity
  | .signedUp _ user => some (User.identity user)
  | .linked _ user _ => some (User.identity user)
  | _ => none

/-- The owner of an account and what it links to. -/
def holder (account : Account) : UserId × AuthProvider × String := (account.userId, account.link)

def holders (accounts : AccountTable) : List (UserId × AuthProvider × String) :=
  accounts.rows.map holder

/-- The account that an event has inserted. -/
def linkedTo : Event → Option (UserId × AuthProvider × String)
  | .linked _ user providerId => some (user.id, .kakao, providerId)
  | _ => none

/-- The request that has inserted a user: a `SignUp`, or a `CompleteKakaoSignup`. -/
def enroller : Event → Option (Pid ⊕ Pid)
  | .signedUp p _ => some (.inl p)
  | .linked p _ _ => some (.inr p)
  | _ => none

/-- The process serves this `SignUp`, which asks for no role that it may not have. -/
def Asks (log : List Event) (p : Pid) (input : SignUpInput) (passwordHash : String) : Prop :=
  .began p (.signUp input passwordHash) ∈ log ∧ input.role ≠ some .admin

/-- The process serves a `CompleteKakaoSignup` for this role, whose token held the payload when it was
verified. -/
def Presents (jwt : JwtModule) (log : List Event) (p : Pid) (payload : OnboardingPayload)
    (role : Role) : Prop :=
  ∃ input now claims, .completes p input ∈ log ∧ input.role = role ∧ role ≠ .admin ∧
    OnboardingTokenService.verify jwt now input.onboardingToken = some claims ∧
    KakaoSignup.payloadOf claims = some payload

/-- The user that a `SignUp` is answered with, or is about to be. -/
def Phase.created : Phase → Option User
  | .saved user => some user
  | .done (.created user) => some user
  | _ => none

/-- The request is on the way from the insert of the user to a session, or has ended by an exception. -/
def Finishing (user : User) : KakaoSignup.Phase → Prop
  | .issuing found => found = user
  | .done (.session pair) => pair.accessToken.sub = user.id
  | .done .aborted => True
  | _ => False

/-- The tables of users and accounts, by the log. -/
structure Registry (jwt : JwtModule) (log : List Event) (s₀ s : State) : Prop where
  users : identities s.users = identities s₀.users ++ log.filterMap enrolled
  accounts : holders s.accounts = holders s₀.accounts ++ log.filterMap linkedTo
  /-- A request inserts one user at most. -/
  once : (log.filterMap enroller).Nodup
  signedUp : ∀ p user, .signedUp p user ∈ log → ∃ input passwordHash,
    Asks log p input passwordHash ∧
      user = ⟨user.id, input.email, input.name, some passwordHash, input.role.getD .tenant⟩
  linked : ∀ p user providerId, .linked p user providerId ∈ log → ∃ payload,
    Presents jwt log p payload user.role ∧ payload.providerId = providerId ∧
      user = ⟨user.id, payload.email, payload.name, none, user.role⟩
  /-- A `SignUp` is answered with the user that it has inserted. -/
  created : ∀ p user, (s.phase p).created = some user → .signedUp p user ∈ log
  /-- After the insert of its user, a `SignUp` is not refused. -/
  answered : ∀ p user, .signedUp p user ∈ log →
    (s.phase p).created = some user ∨ s.phase p = .done .aborted
  /-- After the insert of its user, a `CompleteKakaoSignup` is not refused. -/
  completed : ∀ p user providerId, .linked p user providerId ∈ log →
    Finishing user (s.completion p)
  /-- A refused `SignUp` has found its email in use. -/
  inUse : ∀ p, s.phase p = .fail (.app .emailInUse) → ∃ input passwordHash,
    Asks log p input passwordHash ∧ input.email ∈ (identities s.users).map (·.email)
  /-- Nobody is made an admin. -/
  admins : ∀ who ∈ identities s.users, who.role = .admin → who ∈ identities s₀.users

/-! ## What the log says stays so -/

variable {env : Env} {jwt : JwtModule} {log more : List Event} {s s' s₀ : State} {a : Label} {p : Pid}
  {user : User} {tr : List (Step State Label)}

theorem Asks.mono {input : SignUpInput} {passwordHash : String} (h : Asks log p input passwordHash)
    (more : List Event) : Asks (log ++ more) p input passwordHash :=
  ⟨List.mem_append_left _ h.1, h.2⟩

theorem Presents.mono {payload : OnboardingPayload} {role : Role}
    (h : Presents jwt log p payload role) (more : List Event) :
    Presents jwt (log ++ more) p payload role := by
  obtain ⟨input, now, claims, mem, rest⟩ := h
  exact ⟨input, now, claims, List.mem_append_left _ mem, rest⟩

namespace Registry

/-- Steps that add events, and the rows that these say. -/
theorem extend (h : Registry jwt log s₀ s)
    (users : identities s'.users = identities s.users ++ more.filterMap enrolled)
    (accounts : holders s'.accounts = holders s.accounts ++ more.filterMap linkedTo)
    (once : (more.filterMap enroller).Nodup)
    (new : ∀ k ∈ more.filterMap enroller, k ∉ log.filterMap enroller)
    (signedUp : ∀ p user, .signedUp p user ∈ more → ∃ input passwordHash,
      Asks log p input passwordHash ∧
        user = ⟨user.id, input.email, input.name, some passwordHash, input.role.getD .tenant⟩)
    (linked : ∀ p user providerId, .linked p user providerId ∈ more → ∃ payload,
      Presents jwt log p payload user.role ∧ payload.providerId = providerId ∧
        user = ⟨user.id, payload.email, payload.name, none, user.role⟩)
    (created : ∀ p user, (s'.phase p).created = some user →
      (s.phase p).created = some user ∨ .signedUp p user ∈ more)
    (answered : ∀ p user, ((s.phase p).created = some user ∨ s.phase p = .done .aborted) ∨
      .signedUp p user ∈ more → (s'.phase p).created = some user ∨ s'.phase p = .done .aborted)
    (completed : ∀ p user, Finishing user (s.completion p) ∨
      (∃ providerId, .linked p user providerId ∈ more) → Finishing user (s'.completion p))
    (inUse : ∀ p, s'.phase p = .fail (.app .emailInUse) → s.phase p = .fail (.app .emailInUse) ∨
      ∃ input passwordHash, Asks log p input passwordHash ∧
        input.email ∈ (identities s.users).map (·.email)) :
    Registry jwt (log ++ more) s₀ s' where
  users := by rw [users, h.users, List.filterMap_append, List.append_assoc]
  accounts := by rw [accounts, h.accounts, List.filterMap_append, List.append_assoc]
  once := by
    rw [List.filterMap_append]
    exact List.nodup_append'.2 ⟨h.once, once, fun k old there => new k there old⟩
  signedUp p user mem := by
    obtain ⟨input, passwordHash, asks, same⟩ :=
      (List.mem_append.1 mem).elim (h.signedUp p user) (signedUp p user)
    exact ⟨input, passwordHash, asks.mono more, same⟩
  linked p user providerId mem := by
    obtain ⟨payload, presents, same⟩ :=
      (List.mem_append.1 mem).elim (h.linked p user providerId) (linked p user providerId)
    exact ⟨payload, presents.mono more, same⟩
  created p user at_answer :=
    List.mem_append.2 ((created p user at_answer).imp (h.created p user) id)
  answered p user mem := answered p user ((List.mem_append.1 mem).imp (h.answered p user) id)
  completed p user providerId mem := completed p user <|
    (List.mem_append.1 mem).imp (h.completed p user providerId) fun new => ⟨providerId, new⟩
  inUse p at_done := by
    obtain ⟨input, passwordHash, asks, used⟩ := (inUse p at_done).elim (h.inUse p) id
    rw [users, List.map_append]
    exact ⟨input, passwordHash, asks.mono more, List.mem_append_left _ used⟩
  admins who mem role := by
    rw [users, List.mem_append] at mem
    refine mem.elim (fun old => h.admins who old role) fun new => ?_
    obtain ⟨e, there, same⟩ := List.mem_filterMap.1 new
    cases e with
    | signedUp p user =>
      obtain ⟨input, passwordHash, asks, user_eq⟩ := signedUp p user there
      obtain rfl := Option.some.inj same
      have chosen : input.role.getD .tenant = .admin := by
        rw [user_eq] at role
        exact role
      refine absurd ?_ asks.2
      cases hrole : input.role with
      | none => rw [hrole] at chosen; cases chosen
      | some _ => rw [hrole] at chosen; exact congrArg some chosen
    | linked p user providerId =>
      obtain ⟨payload, ⟨-, -, -, -, -, other, -⟩, -⟩ := linked p user providerId there
      obtain rfl := Option.some.inj same
      exact absurd role other
    | _ => cases same

/-- Steps that insert nobody. -/
theorem keep (h : Registry jwt log s₀ s) (silent : ∀ e ∈ more, enroller e = none)
    (users : identities s'.users = identities s.users) (accounts : s'.accounts = s.accounts)
    (created : ∀ p user, (s'.phase p).created = some user → (s.phase p).created = some user)
    (answered : ∀ p user, (s.phase p).created = some user ∨ s.phase p = .done .aborted →
      (s'.phase p).created = some user ∨ s'.phase p = .done .aborted)
    (completed : ∀ p user, Finishing user (s.completion p) → Finishing user (s'.completion p))
    (inUse : ∀ p, s'.phase p = .fail (.app .emailInUse) → s.phase p = .fail (.app .emailInUse) ∨
      ∃ input passwordHash, Asks log p input passwordHash ∧
        input.email ∈ (identities s.users).map (·.email)) :
    Registry jwt (log ++ more) s₀ s' := by
  have nothing : more.filterMap enroller = [] := List.filterMap_eq_nil_iff.2 silent
  have enrolled : more.filterMap enrolled = [] := List.filterMap_eq_nil_iff.2 fun e mem => by
    have quiet := silent e mem
    cases e <;> first | rfl | cases quiet
  have linkedTo : more.filterMap linkedTo = [] := List.filterMap_eq_nil_iff.2 fun e mem => by
    have quiet := silent e mem
    cases e <;> first | rfl | cases quiet
  refine h.extend (by rw [users, enrolled, List.append_nil])
    (by rw [accounts, linkedTo, List.append_nil]) (nothing ▸ List.nodup_nil)
    (nothing ▸ nofun) (fun p user mem => ?_) (fun p user providerId mem => ?_)
    (fun p user at_answer => .inl (created p user at_answer)) (fun p user => ?_) (fun p user => ?_)
    inUse
  · cases silent _ mem
  · cases silent _ mem
  · rintro (old | mem)
    · exact answered p user old
    · cases silent _ mem
  · rintro (old | ⟨providerId, mem⟩)
    · exact completed p user old
    · cases silent _ mem

/-- The insert of a `SignUp`. -/
theorem signUp {input : SignUpInput} {passwordHash : String} (h : Registry jwt log s₀ s)
    (at_save : s.phase p = .unknown input passwordHash) (asks : Asks log p input passwordHash)
    (user_eq : user =
      ⟨user.id, input.email, input.name, some passwordHash, input.role.getD .tenant⟩)
    (users : identities s'.users = identities s.users ++ [User.identity user])
    (accounts : s'.accounts = s.accounts) (completion : s'.completion = s.completion)
    (phase : s'.phase = Function.update s.phase p (.saved user)) :
    Registry jwt (log ++ [.signedUp p user]) s₀ s' := by
  refine h.extend users (by rw [accounts]; exact (List.append_nil _).symm) (List.nodup_singleton _)
    (fun k there => ?_) (fun q other mem => ?_) (fun q other providerId mem => ?_)
    (fun q other => ?_) (fun q other => ?_) (fun q other => ?_) (fun q at_done => ?_)
  · obtain rfl := List.mem_singleton.1 there
    rw [List.mem_filterMap]
    rintro ⟨e, mem, same⟩
    cases e with
    | signedUp q other =>
      obtain rfl := Sum.inl.inj (Option.some.inj same)
      have answered := h.answered q other mem
      rw [at_save] at answered
      rcases answered with created | aborted
      · cases created
      · cases aborted
    | linked => cases Option.some.inj same
    | _ => cases same
  · obtain ⟨rfl, rfl⟩ := Event.signedUp.inj (List.mem_singleton.1 mem)
    exact ⟨input, passwordHash, asks, user_eq⟩
  · cases List.mem_singleton.1 mem
  · rw [phase]
    rcases eq_or_ne q p with rfl | ne
    · rw [Function.update_self]
      intro saved
      obtain rfl := Option.some.inj saved
      exact .inr List.mem_cons_self
    · rw [Function.update_of_ne ne]
      exact .inl
  · rw [phase]
    rintro (old | mem)
    · rcases eq_or_ne q p with rfl | ne
      · rw [at_save] at old
        rcases old with created | aborted
        · cases created
        · cases aborted
      · rwa [Function.update_of_ne ne]
    · obtain ⟨rfl, rfl⟩ := Event.signedUp.inj (List.mem_singleton.1 mem)
      rw [Function.update_self]
      exact .inl rfl
  · rw [completion]
    rintro (old | ⟨providerId, mem⟩)
    · exact old
    · cases List.mem_singleton.1 mem
  · rcases eq_or_ne q p with rfl | ne
    · rw [phase, Function.update_self] at at_done
      cases at_done
    · rw [phase, Function.update_of_ne ne] at at_done
      exact .inl at_done

/-- The nested insert of a `CompleteKakaoSignup`. -/
theorem link {payload : OnboardingPayload} {role : Role} (h : Registry jwt log s₀ s)
    (at_save : s.completion p = .unlinked payload role)
    (presents : Presents jwt log p payload role)
    (user_eq : user = ⟨user.id, payload.email, payload.name, none, role⟩)
    (users : identities s'.users = identities s.users ++ [User.identity user])
    (accounts : holders s'.accounts =
      holders s.accounts ++ [(user.id, .kakao, payload.providerId)])
    (completion : s'.completion = Function.update s.completion p (.issuing user))
    (phase : s'.phase = s.phase) :
    Registry jwt (log ++ [.linked p user payload.providerId]) s₀ s' := by
  refine h.extend users accounts (List.nodup_singleton _) (fun k there => ?_)
    (fun q other mem => ?_) (fun q other providerId mem => ?_)
    (fun q other at_answer => .inl (phase ▸ at_answer)) (fun q other => ?_) (fun q other => ?_)
    (fun q at_done => .inl (phase ▸ at_done))
  · obtain rfl := List.mem_singleton.1 there
    rw [List.mem_filterMap]
    rintro ⟨e, mem, same⟩
    cases e with
    | linked q other providerId =>
      obtain rfl := Sum.inr.inj (Option.some.inj same)
      have finishing := h.completed q other providerId mem
      rw [at_save] at finishing
      exact finishing
    | signedUp => cases Option.some.inj same
    | _ => cases same
  · cases List.mem_singleton.1 mem
  · obtain ⟨rfl, rfl, rfl⟩ := Event.linked.inj (List.mem_singleton.1 mem)
    have same : other.role = role := congrArg (·.role) user_eq
    exact ⟨payload, same ▸ presents, rfl, same ▸ user_eq⟩
  · rintro (old | mem)
    · rwa [phase]
    · cases List.mem_singleton.1 mem
  · rw [completion]
    rintro (old | ⟨providerId, mem⟩)
    · rcases eq_or_ne q p with rfl | ne
      · rw [at_save] at old
        exact old.elim
      · rwa [Function.update_of_ne ne]
    · obtain ⟨rfl, rfl, -⟩ := Event.linked.inj (List.mem_singleton.1 mem)
      rw [Function.update_self]
      rfl

end Registry

/-! ## What the requests at work rely on -/

/-- What a `SignUp` has been asked for. -/
def Signing (log : List Event) (p : Pid) : Phase → Prop
  | .signUp input passwordHash => Asks log p input passwordHash
  | .unknown input passwordHash => Asks log p input passwordHash
  | _ => True

/-- What a `CompleteKakaoSignup` has been asked for. -/
def Filling (jwt : JwtModule) (log : List Event) (p : Pid) : KakaoSignup.Phase → Prop
  | .verified payload role => Presents jwt log p payload role
  | .unlinked payload role => Presents jwt log p payload role
  | _ => True

theorem Signing.mono {phase : Phase} (h : Signing log p phase) (more : List Event) :
    Signing (log ++ more) p phase := by
  cases phase with
  | signUp | unknown => exact Asks.mono h more
  | _ => trivial

theorem Filling.mono {phase : KakaoSignup.Phase} (h : Filling jwt log p phase) (more : List Event) :
    Filling jwt (log ++ more) p phase := by
  cases phase with
  | verified | unlinked => exact Presents.mono h more
  | _ => trivial

theorem signing_start (log : List Event) (p : Pid) (request : Request) :
    Signing (log ++ [.began p request]) p request.start := by
  unfold Request.start
  split
  · rename_i input passwordHash
    split_ifs with refused
    · trivial
    · refine ⟨List.mem_concat_self, fun isAdmin => refused ?_⟩
      rw [isAdmin]
      rfl
  · trivial
  · split <;> trivial

/-- No request ends like this when it arrives. -/
theorem start_ne (request : Request) :
    request.start.created = none ∧ request.start ≠ .fail (.app .emailInUse) := by
  unfold Request.start
  split
  · split_ifs <;> exact ⟨rfl, by simp [Phase.fail]⟩
  · exact ⟨rfl, by simp [Phase.fail]⟩
  · split <;> exact ⟨rfl, by simp [Phase.fail]⟩

theorem filling_start (log : List Event) (p : Pid) (input : CompleteKakaoSignupInput)
    (now : Instant) : Filling jwt (log ++ [.completes p input]) p (input.start jwt now) := by
  unfold CompleteKakaoSignupInput.start
  split_ifs with allowed
  · split
    · trivial
    · split
      · refine ⟨input, now, _, List.mem_concat_self, rfl, fun isAdmin => ?_, ‹_›, ‹_›⟩
        rw [isAdmin] at allowed
        exact absurd allowed (by decide)
      · trivial
  · trivial

/-- The tables, the log and the requests at work fit together. -/
structure Sound (env : Env) (jwt : JwtModule) (log : List Event) (s₀ s : State) : Prop where
  carried : Carried env s
  registry : Registry jwt log s₀ s
  signing : ∀ p, Signing log p (s.phase p)
  filling : ∀ p, Filling jwt log p (s.completion p)

theorem silent_nil : ∀ e ∈ ([] : List Event), enroller e = none :=
  fun _ mem => absurd mem List.not_mem_nil

/-- A step of a `SignUp` or a `KakaoLogin` that inserts nobody. -/
theorem Sound.enter {t : State} {phase : Phase} (h : Sound env jwt log s₀ s)
    (carried : Carried env (t.enter p phase)) (silent : ∀ e ∈ more, enroller e = none)
    (users : t.users = s.users) (accounts : t.accounts = s.accounts)
    (completion : t.completion = s.completion) (same : t.phase = s.phase)
    (busy : ∀ result, s.phase p ≠ .done result)
    (created : phase.created = (s.phase p).created ∨ phase = .done .aborted)
    (inUse : phase = .fail (.app .emailInUse) → ∃ input passwordHash,
      Asks log p input passwordHash ∧ input.email ∈ (identities s.users).map (·.email))
    (signing : Signing (log ++ more) p phase) : Sound env jwt (log ++ more) s₀ (t.enter p phase) where
  carried := carried
  registry := by
    refine h.registry.keep silent (congrArg identities users) accounts (fun q user at_answer => ?_)
      (fun q user old => ?_) (fun q user finishing => ?_) (fun q at_done => ?_)
    · rcases eq_or_ne q p with rfl | ne
      · rw [enter_phase_self] at at_answer
        rcases created with same | rfl
        · rwa [← same]
        · cases at_answer
      · rwa [enter_phase_of_ne _ _ ne, same] at at_answer
    · rcases eq_or_ne q p with rfl | ne
      · rw [enter_phase_self]
        have old := old.resolve_right (busy .aborted)
        exact created.imp (fun same => same.trans old) id
      · rwa [enter_phase_of_ne _ _ ne, same]
    · show Finishing user (t.completion q)
      rwa [completion]
    · rcases eq_or_ne q p with rfl | ne
      · rw [enter_phase_self] at at_done
        exact .inr (inUse at_done)
      · rw [enter_phase_of_ne _ _ ne, same] at at_done
        exact .inl at_done
  signing q := by
    rcases eq_or_ne q p with rfl | ne
    · rwa [enter_phase_self]
    · rw [enter_phase_of_ne _ _ ne, same]
      exact (h.signing q).mono more
  filling q := by
    show Filling jwt (log ++ more) q (t.completion q)
    rw [completion]
    exact (h.filling q).mono more

/-- Such a step from one phase to the next, which adds nothing to the log. -/
theorem Sound.pass {t : State} {old phase : Phase} (h : Sound env jwt log s₀ s)
    (at_phase : s.phase p = old) (carried : Carried env (t.enter p phase)) (users : t.users = s.users)
    (accounts : t.accounts = s.accounts) (completion : t.completion = s.completion)
    (same : t.phase = s.phase) (unended : ∀ result, old ≠ .done result)
    (created : phase.created = old.created)
    (inUse : phase = .fail (.app .emailInUse) → ∃ input passwordHash,
      Asks log p input passwordHash ∧ input.email ∈ (identities s.users).map (·.email))
    (signing : Signing (log ++ []) p phase) : Sound env jwt (log ++ []) s₀ (t.enter p phase) :=
  h.enter carried silent_nil users accounts completion same (fun result => at_phase ▸ unended result)
    (.inl (at_phase ▸ created)) inUse signing

/-- A step of a `CompleteKakaoSignup` that inserts nobody. -/
theorem Sound.fill {t : KakaoSignup.State} {phase : KakaoSignup.Phase} (h : Sound env jwt log s₀ s)
    (carried : Carried env (s.withSignups t)) (silent : ∀ e ∈ more, enroller e = none)
    (users : t.users = s.users) (accounts : t.accounts = s.accounts)
    (entered : t.phase = Function.update s.completion p phase)
    (finishing : ∀ user, Finishing user (s.completion p) → Finishing user phase)
    (filling : Filling jwt (log ++ more) p phase) :
    Sound env jwt (log ++ more) s₀ (s.withSignups t) where
  carried := carried
  registry := by
    refine h.registry.keep silent (congrArg identities users) accounts (fun _ _ => id)
      (fun _ _ => id) (fun q user old => ?_) (fun q at_done => .inl at_done)
    show Finishing user (t.phase q)
    rw [entered]
    rcases eq_or_ne q p with rfl | ne
    · rw [Function.update_self]
      exact finishing user old
    · rwa [Function.update_of_ne ne]
  signing q := (h.signing q).mono more
  filling q := by
    show Filling jwt (log ++ more) q (t.phase q)
    rw [entered]
    rcases eq_or_ne q p with rfl | ne
    · rwa [Function.update_self]
    · rw [Function.update_of_ne ne]
      exact (h.filling q).mono more

theorem silent_session {e : Event} {a : Auth.Label}
    (mem : e ∈ (event ⟨s, .session a, s'⟩).toList) : enroller e = none := by
  cases a with
  | arrive p request =>
    obtain rfl := Option.some.inj (Option.mem_toList.1 mem)
    rfl
  | _ => cases mem

theorem holders_saveWithAccount {users users' : UserTable} {accounts accounts' : AccountTable}
    {link : AuthProvider × String} {id : KakaoSignup.AccountId}
    (saved : KakaoSignup.saveWithAccount users accounts user link id = some (users', accounts')) :
    holders accounts' = holders accounts ++ [(user.id, link)] := by
  rw [holders, (KakaoSignup.saveWithAccount_eq_some saved).2.2.2, List.map_append]
  rfl

theorem Sound.of_completes {a : KakaoSignup.Label} {t : KakaoSignup.State}
    (h : Sound env jwt log s₀ s) (m : Completes env jwt s.signups a t) :
    Sound env jwt (log ++ (event ⟨s, .complete a, s.withSignups t⟩).toList) s₀ (s.withSignups t) := by
  have carried := h.carried.of_moves (.complete m)
  cases m with
  | @arrive p input idle =>
    refine h.fill carried (fun e mem => ?_) rfl rfl rfl (fun user old => ?_)
      (filling_start log p input s.clock)
    · obtain rfl := List.mem_singleton.1 mem
      rfl
    · rw [show s.completion p = .idle from idle] at old
      exact old.elim
  | @lookup p draws payload role account at_lookup mem same =>
    have at_lookup : s.completion p = .verified payload role := at_lookup
    simp only [event, at_lookup, Option.toList_none]
    exact h.fill carried silent_nil rfl rfl rfl (fun user old => by rw [at_lookup] at old; exact old.elim)
      trivial
  | @unlinked p draws payload role at_lookup =>
    have at_lookup : s.completion p = .verified payload role := at_lookup
    have presents := h.filling p
    rw [at_lookup] at presents
    simp only [event, at_lookup, Option.toList_none]
    exact h.fill carried silent_nil rfl rfl rfl (fun user old => by rw [at_lookup] at old; exact old.elim)
      (Presents.mono presents _)
  | @found p draws userId user at_user found =>
    have at_user : s.completion p = .linked userId := at_user
    simp only [event, at_user, Option.toList_none]
    exact h.fill carried silent_nil rfl rfl rfl (fun user old => by rw [at_user] at old; exact old.elim)
      trivial
  | @failed p draws failure at_check =>
    have silent : event ⟨s, .complete (.step p draws),
        s.withSignups (s.signups.enter p (.fail failure))⟩ = none := by
      have ended : (s.withSignups (s.signups.enter p (.fail failure))).completion p =
        .done (.failed failure) := Function.update_self ..
      simp only [event, ended]
      split
      · rename_i same
        cases same
      · rfl
    rw [silent]
    refine h.fill carried silent_nil rfl rfl rfl (fun user old => ?_) trivial
    rcases at_check with ⟨userId, at_check⟩ | ⟨payload, role, at_check⟩
    all_goals
      rw [show s.completion p = _ from at_check] at old
      exact old.elim
  | @saved p draws payload role user users accounts at_save created saved =>
    have at_save : s.completion p = .unlinked payload role := at_save
    have presents := h.filling p
    rw [at_save] at presents
    have entered : (s.withSignups ({ s.signups with users, accounts }.enter p
      (.issuing user))).completion p = .issuing user := Function.update_self ..
    simp only [event, at_save, entered, Option.toList_some]
    have named := User.createOAuth_eq_ok created
    refine ⟨carried, h.registry.link at_save presents ?_ (identities_saveWithAccount saved)
      (holders_saveWithAccount saved) rfl rfl, fun q => (h.signing q).mono _, fun q => ?_⟩
    · rw [named]
    · show Filling jwt _ q (Function.update s.completion p (.issuing user) q)
      rcases eq_or_ne q p with rfl | ne
      · rw [Function.update_self]
        trivial
      · rw [Function.update_of_ne ne]
        exact (h.filling q).mono _
  | @issued p draws user tokens at_issue saved =>
    have at_issue : s.completion p = .issuing user := at_issue
    simp only [event, at_issue, Option.toList_none]
    refine h.fill carried silent_nil rfl rfl rfl (fun other old => ?_) trivial
    rw [at_issue] at old
    obtain rfl : user = other := old
    rfl

theorem Sound.of_moves (h : Sound env jwt log s₀ s) (m : Moves env jwt s a s') :
    Sound env jwt (log ++ (event ⟨s, a, s'⟩).toList) s₀ s' := by
  have carried := h.carried.of_moves m
  cases m with
  | session next =>
    obtain ⟨users, -⟩ := session_grows (moves_of_next next) h.carried.sessions
    exact ⟨carried, h.registry.keep (fun e mem => silent_session mem) users rfl (fun _ _ => id)
      (fun _ _ => id) (fun _ _ => id) (fun _ => .inl), fun p => (h.signing p).mono _,
      fun p => (h.filling p).mono _⟩
  | complete move => exact h.of_completes move
  | failComplete busy =>
    simp only [event, Option.toList_none]
    exact h.fill carried silent_nil rfl rfl rfl (fun _ _ => trivial) trivial
  | @arrive p request idle =>
    obtain ⟨uncreated, unrefused⟩ := start_ne request
    refine h.enter carried (fun e mem => ?_) rfl rfl rfl rfl (fun _ => idle ▸ Phase.noConfusion)
      (.inl (idle ▸ uncreated)) (fun same => absurd same unrefused) (signing_start log p request)
    obtain rfl := List.mem_singleton.1 mem
    rfl
  | @inUse p draws input passwordHash at_check used =>
    have asks : Asks log p input passwordHash := by
      have signing := h.signing p
      rcases at_check with at_check | at_check
      all_goals
        rw [at_check] at signing
        exact signing
    have used : input.email ∈ (identities s.users).map (·.email) := by
      rw [identities, List.map_map]
      exact used
    simp only [event, enter_phase_self, Phase.fail, Option.toList_none]
    rcases at_check with at_check | at_check
    all_goals
      exact h.pass at_check carried rfl rfl rfl rfl (fun _ => Phase.noConfusion) rfl
        (fun _ => ⟨input, passwordHash, asks, used⟩) trivial
  | @failed p draws failure at_check other =>
    have unused : Phase.fail failure ≠ .fail (.app .emailInUse) :=
      fun same => other (Result.failed.inj (Phase.done.inj same))
    simp only [event, enter_phase_self, Phase.fail, Option.toList_none]
    rcases at_check with ⟨input, passwordHash, at_check⟩ | ⟨userId, at_check⟩
    all_goals
      exact h.pass at_check carried rfl rfl rfl rfl (fun _ => Phase.noConfusion) rfl
        (fun same => absurd same unused) trivial
  | @unknown p draws input passwordHash at_lookup =>
    have signing := h.signing p
    rw [at_lookup] at signing
    simp only [event, enter_phase_self, Option.toList_none]
    exact h.pass at_lookup carried rfl rfl rfl rfl (fun _ => Phase.noConfusion) rfl
      Phase.noConfusion (Asks.mono signing _)
  | @created p draws input passwordHash user users at_save user_eq saved =>
    have asks := h.signing p
    rw [at_save] at asks
    simp only [event, enter_phase_self, Option.toList_some]
    refine ⟨carried, h.registry.signUp at_save asks ?_ (identities_insertUser saved) rfl rfl rfl,
      fun q => ?_, fun q => (h.filling q).mono _⟩
    · rw [user_eq]
    · rcases eq_or_ne q p with rfl | ne
      · rw [enter_phase_self]
        trivial
      · rw [enter_phase_of_ne _ _ ne]
        exact (h.signing q).mono _
  | linked at_lookup =>
    simp only [event, enter_phase_self, Option.toList_none]
    exact h.pass at_lookup carried rfl rfl rfl rfl (fun _ => Phase.noConfusion) rfl
      Phase.noConfusion trivial
  | onboarding at_lookup =>
    simp only [event, enter_phase_self, Option.toList_none]
    exact h.pass at_lookup carried rfl rfl rfl rfl (fun _ => Phase.noConfusion) rfl
      (fun same => by cases Phase.done.inj same) trivial
  | found at_user =>
    simp only [event, enter_phase_self, Option.toList_none]
    exact h.pass at_user carried rfl rfl rfl rfl (fun _ => Phase.noConfusion) rfl
      Phase.noConfusion trivial
  | issued at_issue =>
    simp only [event, enter_phase_self, Option.toList_none]
    exact h.pass at_issue carried rfl rfl rfl rfl (fun _ => Phase.noConfusion) rfl
      Phase.noConfusion trivial
  | welcome at_answer | hand at_answer =>
    simp only [event, enter_phase_self, Option.toList_none]
    exact h.pass at_answer carried rfl rfl rfl rfl (fun _ => Phase.noConfusion) rfl
      (fun same => by cases Phase.done.inj same) trivial
  | fail busy =>
    simp only [event, Option.toList_none]
    exact h.enter carried silent_nil rfl rfl rfl rfl busy (.inr rfl) (fun same => by cases same) trivial

theorem sound_of_start (init : (accounts env jwt).start s) : Sound env jwt [] s s := by
  obtain ⟨-, idle, idle'⟩ := id init
  have idle : ∀ p, s.completion p = .idle := fun p => congrFun idle p
  refine ⟨carried_of_start init, ?_, fun p => ?_, fun p => ?_⟩
  · have nothing : ∀ e : Event, e ∉ ([] : List Event) := fun _ => List.not_mem_nil
    refine ⟨(List.append_nil _).symm, (List.append_nil _).symm, List.nodup_nil,
      fun _ _ mem => absurd mem (nothing _), fun _ _ _ mem => absurd mem (nothing _),
      fun p user at_answer => ?_, fun _ _ mem => absurd mem (nothing _),
      fun _ _ _ mem => absurd mem (nothing _), fun p at_done => ?_, fun who mem _ => mem⟩
    · simp [idle', Phase.created] at at_answer
    · simp [idle', Phase.fail] at at_done
  · rw [idle']
    trivial
  · rw [idle p]
    trivial

theorem sound_of_run {C : State → Label → Prop} (init : (accounts env jwt).start s₀)
    (run : (accounts env jwt).Run C s₀ tr s) : Sound env jwt (events event tr) s₀ s :=
  run.log_invariant (I := fun log s => Sound env jwt log s₀ s)
    (fun _ _ _ _ h _ next => h.of_moves (.of_next next)) (sound_of_start init)

/-- The tables of users and accounts are those of the start and the sign-ups of the log. -/
theorem registry (init : (accounts env jwt).start s₀) (run : (accounts env jwt).Run Any s₀ tr s) :
    Registry jwt (events event tr) s₀ s :=
  (sound_of_run init run).registry

/-- Two requests for one email pass the check of the other, and one of them is in the table.  A third
inserts its user and ends by an exception. -/
theorem registry_of_race : ∃ tr s, (accounts taggedEnv KakaoSignup.module).Run Any deserted tr s ∧
    s.phase 0 = .fail (.app .emailInUse) ∧
    s.phase 1 = .done (.created ⟨2, "a@b.c", "A", some "bcrypt:pw", .owner⟩) ∧
    s.phase 2 = .done .aborted ∧ s.users.rows.map (·.email) = ["a@b.c", "b@b.c"] ∧
    Registry KakaoSignup.module (events event tr) deserted s := by
  let input (email : String) (role : Option Role) : Request :=
    .signUp ⟨email, "A", "pw", role⟩ "bcrypt:pw"
  have computed : ((accounts taggedEnv KakaoSignup.module).exec (fun _ _ => true) deserted
      [.arrive 0 (input "a@b.c" none), .arrive 1 (input "a@b.c" (some .owner)), turn 0 1, turn 1 1,
        turn 1 2, turn 0 3, turn 1 3, .arrive 2 (input "b@b.c" none), turn 2 3, turn 2 3,
        .fail 2]).map (fun s => (s.phase 0, s.phase 1, s.phase 2, s.users.rows.map (·.email))) =
      some (.fail (.app .emailInUse), .done (.created ⟨2, "a@b.c", "A", some "bcrypt:pw", .owner⟩),
        .done .aborted, ["a@b.c", "b@b.c"]) := by
    decide
  obtain ⟨s, reached, seen⟩ := Option.map_eq_some_iff.1 computed
  obtain ⟨refused, seen⟩ := Prod.mk.inj seen
  obtain ⟨created, seen⟩ := Prod.mk.inj seen
  obtain ⟨aborted, emails⟩ := Prod.mk.inj seen
  obtain ⟨run, -⟩ := run_of_exec (C := Any) (fun _ _ _ => trivial) reached
  exact ⟨_, s, run, refused, created, aborted, emails, registry (deserted_start _ _) run⟩

end EstateServer.Auth.Accounts
