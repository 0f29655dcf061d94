import EstateServer.Auth.Registry

/-!
# Whose Kakao account it is

Between `KakaoLogin` and `CompleteKakaoSignup` the identity travels through the client, in an onboarding
token.  `authentic`: if tokens cannot be forged, every account that is linked in a run is of an identity
that Kakao has given for a login earlier in the run, with the email and the name that Kakao has given;
and a session that a login or a signup answers with is of the one user to whom the identity is linked.
-/

namespace EstateServer.Auth.Accounts

open Machine
open KakaoSignup (Account AccountTable AuthProvider CompleteKakaoSignupInput Draws)
open KakaoResilience (KakaoProfile)

/-! ## The statement -/

/-- A token signed with the secret is one of the two kinds that the server signs: an onboarding token
that some `KakaoLogin` has answered with, or an access token. -/
def Unforged (jwt : JwtModule) (s : State) (a : Label) : Prop :=
  ∀ p input, a = .complete (.arrive p input) → input.onboardingToken.secret = jwt.secret →
    (∃ q, s.phase q = .done (.onboarding input.onboardingToken)) ∨
      ∃ issuedAt payload, input.onboardingToken = JwtTokenService.issue jwt issuedAt payload

/-- Kakao has given the profile for the `KakaoLogin` of the process. -/
def Profiled (log : List Event) (p : Pid) (payload : OnboardingPayload) : Prop :=
  ∃ profile, .began p (.kakaoLogin (.ok profile)) ∈ log ∧ profile.providerId = payload.providerId ∧
    profile.email = some payload.email ∧ profile.name = payload.name

/-- The process serves a `CompleteKakaoSignup` whose token carries the payload. -/
def Carries (log : List Event) (p : Pid) (payload : OnboardingPayload) : Prop :=
  ∃ input, .completes p input ∈ log ∧
    KakaoSignup.payloadOf input.onboardingToken.claims = some payload

/-- The identity of the payload is linked to the user. -/
def Links (accounts : AccountTable) (payload : OnboardingPayload) (userId : UserId) : Prop :=
  (userId, KakaoSignup.link payload) ∈ holders accounts

structure Authentic (log : List Event) (s : State) : Prop where
  linked : ∀ p user providerId, .linked p user providerId ∈ log → ∃ q profile,
    [.began q (.kakaoLogin (.ok profile)), .linked p user providerId].Sublist log ∧
      profile = ⟨providerId, some user.email, user.name⟩
  kakao : ∀ p pair, s.phase p = .done (.session pair) → ∃ payload,
    Profiled log p payload ∧ Links s.accounts payload pair.accessToken.sub
  completed : ∀ p pair, s.completion p = .done (.session pair) → ∃ payload q,
    Carries log p payload ∧ Profiled log q payload ∧ Links s.accounts payload pair.accessToken.sub
  /-- An identity has one user. -/
  one : ∀ payload payload' userId userId', payload.providerId = payload'.providerId →
    Links s.accounts payload userId → Links s.accounts payload' userId' → userId = userId'

/-! ## What the requests at work know -/

variable {env : Env} {jwt : JwtModule} {log : List Event} {s s' s₀ : State} {a : Label} {p : Pid}
  {payload : OnboardingPayload} {userId : UserId} {table table' : AccountTable}
  {tr : List (Step State Label)}

theorem Profiled.mono (h : Profiled log p payload) (more : List Event) :
    Profiled (log ++ more) p payload := by
  obtain ⟨profile, began, same⟩ := h
  exact ⟨profile, List.mem_append_left _ began, same⟩

theorem Carries.mono (h : Carries log p payload) (more : List Event) :
    Carries (log ++ more) p payload := by
  obtain ⟨input, completes, same⟩ := h
  exact ⟨input, List.mem_append_left _ completes, same⟩

theorem links_of_mem {account : Account} (mem : account ∈ table.rows)
    (same : account.link = KakaoSignup.link payload) : Links table payload account.userId :=
  List.mem_map.2 ⟨account, mem, Prod.ext rfl same⟩

theorem Links.unique {payload' : OnboardingPayload} {userId' : UserId}
    (h : Links table payload userId) (same : payload.providerId = payload'.providerId)
    (h' : Links table payload' userId') : userId = userId' := by
  obtain ⟨account, mem, holds⟩ := List.mem_map.1 h
  obtain ⟨account', mem', holds'⟩ := List.mem_map.1 h'
  obtain ⟨rfl, link⟩ := Prod.mk.inj holds
  obtain ⟨rfl, link'⟩ := Prod.mk.inj holds'
  have agree : account.link = account'.link := by
    rw [link, link', KakaoSignup.link, KakaoSignup.link, same]
  rw [table.link_unique.eq_of_mem mem mem' agree]

/-- A login that is answered for this identity. -/
def Identified (log : List Event) (table : AccountTable) (p : Pid) (userId : UserId) : Prop :=
  ∃ payload, Profiled log p payload ∧ Links table payload userId

/-- A signup that is answered for this identity. -/
def Vouched (log : List Event) (table : AccountTable) (p : Pid) (userId : UserId) : Prop :=
  ∃ payload q, Carries log p payload ∧ Profiled log q payload ∧ Links table payload userId

/-- What holds of the phase of a `SignUp` or a `KakaoLogin`. -/
def Identifies (jwt : JwtModule) (log : List Event) (table : AccountTable) (p : Pid) :
    Phase → Prop
  | .exchanged payload => Profiled log p payload
  | .linked userId => Identified log table p userId
  | .issuing user => Identified log table p user.id
  | .issued pair => Identified log table p pair.accessToken.sub
  | .done (.session pair) => Identified log table p pair.accessToken.sub
  | .done (.onboarding token) => ∃ issuedAt payload, Profiled log p payload ∧
      token = OnboardingTokenService.issue jwt issuedAt payload
  | _ => True

/-- What holds of the phase of a `CompleteKakaoSignup`. -/
def Vouches (log : List Event) (table : AccountTable) (p : Pid) : KakaoSignup.Phase → Prop
  | .verified payload _ => Carries log p payload ∧ ∃ q, Profiled log q payload
  | .unlinked payload _ => Carries log p payload ∧ ∃ q, Profiled log q payload
  | .linked userId => Vouched log table p userId
  | .issuing user => Vouched log table p user.id
  | .done (.session pair) => Vouched log table p pair.accessToken.sub
  | _ => True

theorem Identified.mono (h : Identified log table p userId) (more : List Event)
    (grows : holders table ⊆ holders table') :
    Identified (log ++ more) table' p userId := by
  obtain ⟨payload, profiled, links⟩ := h
  exact ⟨payload, profiled.mono more, grows links⟩

theorem Vouched.mono (h : Vouched log table p userId) (more : List Event)
    (grows : holders table ⊆ holders table') : Vouched (log ++ more) table' p userId := by
  obtain ⟨payload, q, carries, profiled, links⟩ := h
  exact ⟨payload, q, carries.mono more, profiled.mono more, grows links⟩

theorem Identifies.mono {phase : Phase} (h : Identifies jwt log table p phase)
    (more : List Event) (grows : holders table ⊆ holders table') :
    Identifies jwt (log ++ more) table' p phase := by
  cases phase with
  | exchanged => exact Profiled.mono h more
  | linked | issuing | issued => exact Identified.mono h more grows
  | done result =>
    cases result with
    | session => exact Identified.mono h more grows
    | onboarding =>
      obtain ⟨issuedAt, payload, profiled, same⟩ := h
      exact ⟨issuedAt, payload, profiled.mono more, same⟩
    | _ => trivial
  | _ => trivial

theorem Vouches.mono {phase : KakaoSignup.Phase} (h : Vouches log table p phase)
    (more : List Event) (grows : holders table ⊆ holders table') :
    Vouches (log ++ more) table' p phase := by
  cases phase with
  | verified | unlinked =>
    obtain ⟨carries, q, profiled⟩ := h
    exact ⟨carries.mono more, q, profiled.mono more⟩
  | linked | issuing => exact Vouched.mono h more grows
  | done result =>
    cases result with
    | session => exact Vouched.mono h more grows
    | _ => trivial
  | _ => trivial

theorem identifies_start (log : List Event) (table : AccountTable) (p : Pid) (request : Request) :
    Identifies jwt (log ++ [.began p request]) table p request.start := by
  unfold Request.start
  split
  · split_ifs <;> trivial
  · trivial
  · split
    · trivial
    · exact ⟨_, List.mem_concat_self, rfl, hash_of_truthy ‹_›, rfl⟩

/-- A token that is verified as an onboarding token is one that a `KakaoLogin` has answered with. -/
theorem vouches_start {input : CompleteKakaoSignupInput}
    (unforged : Unforged jwt s (.complete (.arrive p input)))
    (h : ∀ q, Identifies jwt log s.accounts q (s.phase q)) (now : Instant) :
    Vouches (log ++ [.completes p input]) s.accounts p (input.start jwt now) := by
  unfold CompleteKakaoSignupInput.start
  split_ifs
  · split
    · trivial
    · rename_i claims verified
      split
      · rename_i payload payloadOf
        have signed : input.onboardingToken.secret = jwt.secret := by
          by_contra other
          simp [OnboardingTokenService.verify, Jwt.verify, other] at verified
        rcases unforged p input rfl signed with ⟨q, answered⟩ | ⟨issuedAt, access, same⟩
        · have identifies := h q
          rw [answered] at identifies
          obtain ⟨issuedAt, payload', profiled, same⟩ := identifies
          have valid : now < issuedAt + OnboardingTokenService.ttlMs := by
            by_contra expired
            simp [OnboardingTokenService.verify, Jwt.verify, same, OnboardingTokenService.issue,
              expired] at verified
          rw [same, verify_onboarding valid] at verified
          obtain rfl := Option.some.inj verified
          obtain rfl : payload' = payload := Option.some.inj payloadOf
          refine ⟨⟨input, List.mem_concat_self, ?_⟩, q, profiled.mono _⟩
          rw [same]
          rfl
        · rw [same, verify_access] at verified
          cases verified
      · trivial
  · trivial

/-- What the log says of the accounts, and what the requests at work know of them. -/
structure Traced (jwt : JwtModule) (log : List Event) (s : State) : Prop where
  linked : ∀ p user providerId, .linked p user providerId ∈ log → ∃ q profile,
    [.began q (.kakaoLogin (.ok profile)), .linked p user providerId].Sublist log ∧
      profile = ⟨providerId, some user.email, user.name⟩
  phase : ∀ p, Identifies jwt log s.accounts p (s.phase p)
  completion : ∀ p, Vouches log s.accounts p (s.completion p)

variable {more : List Event}

/-- Steps that link nothing. -/
theorem Traced.keep (h : Traced jwt log s) (unlinked : ∀ p user k, .linked p user k ∉ more)
    (phase : ∀ p, Identifies jwt (log ++ more) s'.accounts p (s'.phase p))
    (completion : ∀ p, Vouches (log ++ more) s'.accounts p (s'.completion p)) :
    Traced jwt (log ++ more) s' where
  linked p user k mem := by
    rcases List.mem_append.1 mem with old | new
    · obtain ⟨q, profile, chain, same⟩ := h.linked p user k old
      exact ⟨q, profile, sublist_concat chain more, same⟩
    · exact absurd new (unlinked p user k)
  phase := phase
  completion := completion

theorem unlinked_of_event {user : User} {providerId : String}
    (mem : .linked p user providerId ∈ (event ⟨s, a, s'⟩).toList) :
    ∃ draws, a = .complete (.step p draws) := by
  rw [Option.mem_toList] at mem
  unfold event at mem
  split at mem
  · cases mem
  · cases mem
  · rename_i q draws same
    split at mem
    · obtain ⟨rfl, -, -⟩ := Event.linked.inj (Option.some.inj mem)
      exact ⟨draws, same⟩
    · cases mem
  · cases mem
  · split at mem <;> cases mem
  · cases mem

theorem holders_of_completes {t t' : KakaoSignup.State} {a : KakaoSignup.Label}
    (m : Completes env jwt t a t') : holders t.accounts ⊆ holders t'.accounts := by
  cases m with
  | @saved _ _ _ _ _ _ accounts _ _ saved =>
    show _ ⊆ holders accounts
    rw [holders_saveWithAccount saved]
    exact List.subset_append_left _ _
  | _ => exact List.Subset.refl _

theorem Traced.of_completes {a : KakaoSignup.Label} {t : KakaoSignup.State}
    (h : Traced jwt log s) (unforged : Unforged jwt s (.complete a))
    (m : Completes env jwt s.signups a t) :
    Traced jwt (log ++ (event ⟨s, .complete a, s.withSignups t⟩).toList) (s.withSignups t) := by
  have grows : holders s.accounts ⊆ holders t.accounts := holders_of_completes m
  have phase : ∀ more q, Identifies jwt (log ++ more) t.accounts q (s.phase q) :=
    fun more q => (h.phase q).mono more grows
  have enters : ∀ more p phase, Vouches (log ++ more) t.accounts p phase →
      ∀ q, Vouches (log ++ more) t.accounts q (Function.update s.completion p phase q) := by
    intro more p phase entered q
    rcases eq_or_ne q p with rfl | ne
    · rwa [Function.update_self]
    · rw [Function.update_of_ne ne]
      exact (h.completion q).mono more grows
  cases m with
  | @arrive p input =>
    refine h.keep (fun _ _ _ mem => ?_) (phase _)
      (enters _ p _ (vouches_start unforged h.phase s.clock))
    cases List.mem_singleton.1 mem
  | @lookup p draws payload role account at_lookup mem same =>
    have at_lookup : s.completion p = .verified payload role := at_lookup
    have known := h.completion p
    rw [at_lookup] at known
    obtain ⟨carries, q, profiled⟩ := known
    simp only [event, at_lookup, Option.toList_none]
    exact h.keep (fun _ _ _ => List.not_mem_nil) (phase _) (enters _ p _
      ⟨payload, q, carries.mono _, profiled.mono _, links_of_mem mem same⟩)
  | @unlinked p draws payload role at_lookup =>
    have at_lookup : s.completion p = .verified payload role := at_lookup
    have known := h.completion p
    rw [at_lookup] at known
    obtain ⟨carries, q, profiled⟩ := known
    simp only [event, at_lookup, Option.toList_none]
    exact h.keep (fun _ _ _ => List.not_mem_nil) (phase _)
      (enters _ p _ ⟨carries.mono _, q, profiled.mono _⟩)
  | @found p draws userId user at_user found =>
    have at_user : s.completion p = .linked userId := at_user
    have known := h.completion p
    rw [at_user] at known
    obtain ⟨row, -, rfl, -, rfl⟩ := UserTable.findById_eq_some.1 found
    simp only [event, at_user, Option.toList_none]
    exact h.keep (fun _ _ _ => List.not_mem_nil) (phase _)
      (enters _ p _ (Vouched.mono known _ grows))
  | @failed p draws failure at_check =>
    refine h.keep (fun q user k mem => ?_) (phase _) (enters _ p _ trivial)
    have ended : (s.withSignups (s.signups.enter p (.fail failure))).completion p =
      .done (.failed failure) := Function.update_self ..
    rw [Option.mem_toList] at mem
    simp only [event, ended] at mem
    split at mem
    · rename_i same
      cases same
    · cases mem
  | @saved p draws payload role user users accounts at_save created saved =>
    have at_save : s.completion p = .unlinked payload role := at_save
    have known := h.completion p
    rw [at_save] at known
    obtain ⟨carries, q, profiled⟩ := known
    have entered : (s.withSignups ({ s.signups with users, accounts }.enter p
      (.issuing user))).completion p = .issuing user := Function.update_self ..
    simp only [event, at_save, entered, Option.toList_some]
    obtain rfl := User.createOAuth_eq_ok created
    refine ⟨fun p' user' k mem => ?_, phase _, enters _ p _
      ⟨payload, q, carries.mono _, profiled.mono _, ?_⟩⟩
    · rcases List.mem_append.1 mem with old | new
      · obtain ⟨q, profile, chain, same⟩ := h.linked p' user' k old
        exact ⟨q, profile, sublist_concat chain _, same⟩
      · obtain ⟨rfl, rfl, rfl⟩ := Event.linked.inj (List.mem_singleton.1 new)
        obtain ⟨profile, began, providerId, email, name⟩ := profiled
        refine ⟨q, profile, sublist_snoc (List.singleton_sublist.2 began) _, ?_⟩
        cases profile
        exact KakaoProfile.mk.injEq .. ▸ ⟨providerId, email, name⟩
    · show _ ∈ holders accounts
      rw [holders_saveWithAccount saved]
      exact List.mem_concat_self
  | @issued p draws user tokens at_issue saved =>
    have at_issue : s.completion p = .issuing user := at_issue
    have known := h.completion p
    rw [at_issue] at known
    simp only [event, at_issue, Option.toList_none]
    exact h.keep (fun _ _ _ => List.not_mem_nil) (phase _)
      (enters _ p _ (Vouched.mono known _ grows))

theorem Traced.of_moves (h : Traced jwt log s) (unforged : Unforged jwt s a)
    (m : Moves env jwt s a s') : Traced jwt (log ++ (event ⟨s, a, s'⟩).toList) s' := by
  have unlinked : (∀ b, a ≠ .complete b) →
      ∀ p user k, .linked p user k ∉ (event ⟨s, a, s'⟩).toList := by
    intro other p user k mem
    obtain ⟨draws, same⟩ := unlinked_of_event mem
    exact other _ same
  have completion : ∀ more q, Vouches (log ++ more) s.accounts q (s.completion q) :=
    fun more q => (h.completion q).mono more (List.Subset.refl _)
  have enters : ∀ more p phase, Identifies jwt (log ++ more) s.accounts p phase →
      ∀ q, Identifies jwt (log ++ more) s.accounts q (Function.update s.phase p phase q) := by
    intro more p phase entered q
    rcases eq_or_ne q p with rfl | ne
    · rwa [Function.update_self]
    · rw [Function.update_of_ne ne]
      exact (h.phase q).mono more (List.Subset.refl _)
  cases m with
  | complete move => exact h.of_completes unforged move
  | session =>
    exact h.keep (unlinked fun _ => Label.noConfusion)
      (fun q => (h.phase q).mono _ (List.Subset.refl _)) (completion _)
  | @failComplete p =>
    refine h.keep (unlinked fun _ => Label.noConfusion)
      (fun q => (h.phase q).mono _ (List.Subset.refl _)) ?_
    exact (Function.forall_update_iff s.completion fun q phase =>
      Vouches _ s.accounts q phase).2 ⟨trivial, fun q _ => completion _ q⟩
  | @arrive p request =>
    exact h.keep (unlinked fun _ => Label.noConfusion)
      (enters _ p _ (identifies_start log s.accounts p request)) (completion _)
  | @linked p draws payload account at_lookup mem same =>
    have known := h.phase p
    rw [at_lookup] at known
    exact h.keep (unlinked fun _ => Label.noConfusion)
      (enters _ p _ ⟨payload, Profiled.mono known _, links_of_mem mem same⟩) (completion _)
  | @onboarding p draws payload at_lookup =>
    have known := h.phase p
    rw [at_lookup] at known
    exact h.keep (unlinked fun _ => Label.noConfusion)
      (enters _ p _ ⟨s.clock, payload, Profiled.mono known _, rfl⟩) (completion _)
  | @found p draws userId user at_user found =>
    have known := h.phase p
    rw [at_user] at known
    obtain ⟨row, -, rfl, -, rfl⟩ := UserTable.findById_eq_some.1 found
    exact h.keep (unlinked fun _ => Label.noConfusion)
      (enters _ p _ (Identified.mono known _ (List.Subset.refl _))) (completion _)
  | @issued p draws user tokens at_issue saved =>
    have known := h.phase p
    rw [at_issue] at known
    exact h.keep (unlinked fun _ => Label.noConfusion)
      (enters _ p _ (Identified.mono known _ (List.Subset.refl _))) (completion _)
  | @hand p draws pair at_answer =>
    have known := h.phase p
    rw [at_answer] at known
    exact h.keep (unlinked fun _ => Label.noConfusion)
      (enters _ p _ (Identified.mono known _ (List.Subset.refl _))) (completion _)
  | _ => exact h.keep (unlinked fun _ => Label.noConfusion) (enters _ _ _ trivial) (completion _)

theorem traced_of_run (init : (accounts env jwt).start s₀)
    (run : (accounts env jwt).Run (Unforged jwt) s₀ tr s) : Traced jwt (events event tr) s := by
  refine run.log_invariant (I := fun log s => Traced jwt log s)
    (fun _ _ _ _ h unforged next => h.of_moves unforged (.of_next next)) ?_
  obtain ⟨-, idle, idle'⟩ := init
  refine ⟨nofun, fun p => ?_, fun p => ?_⟩
  · rw [idle']
    trivial
  · rw [show s₀.completion = fun _ => .idle from idle]
    trivial

/-- Kakao accounts and sessions are of identities that Kakao has given. -/
theorem authentic (init : (accounts env jwt).start s₀)
    (run : (accounts env jwt).Run (Unforged jwt) s₀ tr s) : Authentic (events event tr) s := by
  have traced := traced_of_run init run
  refine ⟨traced.linked, fun p pair answered => ?_, fun p pair answered => ?_,
    fun payload payload' userId userId' same links links' => links.unique same links'⟩
  · have known := traced.phase p
    rwa [answered] at known
  · have known := traced.completion p
    rwa [answered] at known

/-- The profile of the Kakao identity `k1`. -/
def profile : KakaoProfile := ⟨"k1", some "a@b.c", "A"⟩

/-- `Unforged`, computed: the token of a signup is the answer of the login `0`. -/
def unforged (s : State) : Label → Bool
  | .complete (.arrive _ input) => s.phase 0 = .done (.onboarding input.onboardingToken)
  | _ => true

theorem unforged_of_checked (s : State) (a : Label) (h : unforged s a = true) :
    Unforged KakaoSignup.module s a := by
  rintro p input rfl -
  exact .inl ⟨0, of_decide_eq_true h⟩

/-- An identity logs in, signs up and logs in again. -/
theorem authentic_of_signup : ∃ tr s,
    (accounts taggedEnv KakaoSignup.module).Run (Unforged KakaoSignup.module) deserted tr s ∧
    s.completion 0 = .done (.session ⟨⟨2, "a@b.c", .tenant, 3⟩, "3"⟩) ∧
    s.phase 1 = .done (.session ⟨⟨2, "a@b.c", .tenant, 6⟩, "6"⟩) ∧
    Authentic (events event tr) s := by
  have computed : ((accounts taggedEnv KakaoSignup.module).exec unforged deserted
      [.arrive 0 (.kakaoLogin (.ok profile)), turn 0 0,
        .complete (.arrive 0 KakaoSignup.complete), .complete (KakaoSignup.turn 0 1),
        .complete (KakaoSignup.turn 0 2), .complete (KakaoSignup.turn 0 3),
        .arrive 1 (.kakaoLogin (.ok profile)), turn 1 4, turn 1 5, turn 1 6, turn 1 7]).map
      (fun s => (s.completion 0, s.phase 1)) =
      some (.done (.session ⟨⟨2, "a@b.c", .tenant, 3⟩, "3"⟩),
        .done (.session ⟨⟨2, "a@b.c", .tenant, 6⟩, "6"⟩)) := by
    decide
  obtain ⟨s, reached, seen⟩ := Option.map_eq_some_iff.1 computed
  obtain ⟨first, second⟩ := Prod.mk.inj seen
  obtain ⟨tr, run, -⟩ := exists_run_of_exec unforged_of_checked reached
  exact ⟨tr, s, run, first, second, authentic (deserted_start _ _) run⟩

end EstateServer.Auth.Accounts
