import EstateServer.Auth.History

/-!
# The list of sessions

`ListSessions` groups the rows of a user by family.  A call of a history changes nothing of the rows that
are there but their two timestamps, and adds at most one row (`Effect.inserted`), so the rows of a family
have one user and the table is in the order of `createdAt` (`Sound`): the first row of a family is the
one with the least `createdAt`, and stays it.
-/

namespace EstateServer.Auth

open Machine

/-- The row as it was inserted. -/
def RefreshTokenRow.inserted (row : RefreshTokenRow) : RefreshTokenRow :=
  { row with usedAt := none, revokedAt := none }

namespace RefreshTokenTable

/-- The rows as they were inserted, in this order. -/
def inserted (tokens : RefreshTokenTable) : List RefreshTokenRow := tokens.rows.map (·.inserted)

theorem inserted_updateMany (tokens : RefreshTokenTable) (p : RefreshTokenRow → Bool) (set : Assignment) :
    (tokens.updateMany p set).1.inserted = tokens.inserted :=
  Table.map_updateMany fun row => by cases set <;> rfl

theorem inserted_save {tokens tokens' : RefreshTokenTable} {token : RefreshToken} {now : Instant}
    (save : tokens.save token now = some tokens') (unused : token.usedAt = none)
    (unrevoked : token.revokedAt = none) :
    tokens'.inserted = tokens.inserted ++ [{ token with createdAt := now }] := by
  cases token
  dsimp only at unused unrevoked
  subst unused unrevoked
  rw [inserted, save_eq_some save, List.map_append]
  rfl

end RefreshTokenTable

theorem mem_inserted {tokens : RefreshTokenTable} {row : RefreshTokenRow} (mem : row ∈ tokens.rows) :
    row.inserted ∈ tokens.inserted := List.mem_map_of_mem mem

variable {env : Env} {now t : Instant} {draw : Draw} {tokens tokens' : RefreshTokenTable} {u : UserId}
  {f : FamilyId} {clock : Instant}

/-- A row that a call inserts: of a new family, or of one that is there and has the same user. -/
structure Inserts (env : Env) (now : Instant) (draw : Draw) (tokens : RefreshTokenTable)
    (row : RefreshTokenRow) : Prop where
  createdAt : row.createdAt = now
  hash : row.tokenHash = env.hash draw.token
  family : row.familyId = draw.uuid ∨
    ∃ r ∈ tokens.rows, r.familyId = row.familyId ∧ r.userId = row.userId

theorem Effect.inserted {T : FamilyId → Prop} (h : Effect env now draw tokens T tokens') :
    tokens'.inserted = tokens.inserted ∨
      ∃ row, Inserts env now draw tokens row ∧ tokens'.inserted = tokens.inserted ++ [row] := by
  cases h with
  | unchanged => exact .inl rfl
  | revoked scope => exact .inl (tokens.inserted_updateMany _ _)
  | issued userId save =>
    exact .inr ⟨{ issuedToken env now draw userId none with createdAt := now }, ⟨rfl, rfl, .inl rfl⟩,
      RefreshTokenTable.inserted_save save rfl rfl⟩
  | rotated row mem _ _ save =>
    refine .inr ⟨successor env now draw row, ⟨rfl, rfl, .inr ⟨row, mem, rfl, rfl⟩⟩, ?_⟩
    rw [RefreshTokenTable.inserted_save save rfl rfl]
    exact congrArg (· ++ _) (tokens.inserted_updateMany _ _)

/-! ## What a history keeps -/

/-- Rows inserted up to a time, each for a token, in the order of their times, and one user a family. -/
structure Orderly (env : Env) (clock : Instant) (rows : List RefreshTokenRow) : Prop where
  recent : ∀ row ∈ rows, row.createdAt ≤ clock
  issued : ∀ row ∈ rows, ∃ token, row.tokenHash = env.hash token
  oneUser : ∀ row ∈ rows, ∀ row' ∈ rows, row.familyId = row'.familyId → row.userId = row'.userId
  ascending : rows.Pairwise fun row row' => row.createdAt ≤ row'.createdAt

theorem Orderly.later {rows : List RefreshTokenRow} (orderly : Orderly env clock rows) (h : clock ≤ now) :
    Orderly env now rows := { orderly with recent := fun row mem => Nat.le_trans (orderly.recent row mem) h }

theorem Orderly.insert {row : RefreshTokenRow} (orderly : Orderly env now tokens.inserted)
    (fresh : draw.Fresh env tokens) (inserts : Inserts env now draw tokens row) :
    Orderly env now (tokens.inserted ++ [row]) := by
  have user : ∀ r ∈ tokens.inserted, r.familyId = row.familyId → r.userId = row.userId := by
    intro r mem same
    obtain ⟨r₀, mem₀, rfl⟩ := List.mem_map.1 mem
    rcases inserts.family with new | ⟨r', mem', family, user⟩
    · exact absurd (List.mem_map.2 ⟨r₀, mem₀, same.trans new⟩) fresh.2.2
    · exact (orderly.oneUser _ mem _ (mem_inserted mem') (same.trans family.symm)).trans user
  refine ⟨fun r mem => ?_, fun r mem => ?_, fun r mem r' mem' same => ?_, ?_⟩
  · rcases List.mem_append.1 mem with old | new
    · exact orderly.recent r old
    · exact Nat.le_of_eq (List.mem_singleton.1 new ▸ inserts.createdAt)
  · rcases List.mem_append.1 mem with old | new
    · exact orderly.issued r old
    · exact ⟨draw.token, List.mem_singleton.1 new ▸ inserts.hash⟩
  · rw [List.mem_append, List.mem_singleton] at mem mem'
    rcases mem with old | rfl <;> rcases mem' with old' | rfl
    · exact orderly.oneUser r old r' old' same
    · exact user r old same
    · exact (user r' old' same.symm).symm
    · rfl
  · refine List.pairwise_append.2 ⟨orderly.ascending, List.pairwise_singleton _ _, ?_⟩
    intro r mem r' mem'
    rw [List.mem_singleton.1 mem', inserts.createdAt]
    exact orderly.recent r mem

theorem Effect.orderly {T : FamilyId → Prop} (orderly : Orderly env clock tokens.inserted)
    (h : clock ≤ now) (fresh : draw.Fresh env tokens) (effect : Effect env now draw tokens T tokens') :
    Orderly env now tokens'.inserted := by
  rcases effect.inserted with same | ⟨row, inserts, more⟩
  · exact same ▸ orderly.later h
  · exact more ▸ (orderly.later h).insert fresh inserts

section

variable {s₀ s s' : HistoryState} {tr tr' : List (Step HistoryState TimedCall)}

theorem orderly_of_run (start : (history env).start s₀) (run : (history env).Run Any s₀ tr s) :
    Orderly env s.clock s.db.refreshTokens.inserted := by
  refine run.invariant (I := fun s => Orderly env s.clock s.db.refreshTokens.inserted)
    (fun s e s' orderly _ step => ?_) ?_
  · obtain ⟨⟨later, fresh⟩, rfl⟩ := history_next.1 step
    exact (e.call.effect fresh).orderly orderly later fresh
  · rw [RefreshTokenTable.inserted, start]
    exact ⟨nofun, nofun, nofun, .nil⟩

/-- The rows of a table stay the first ones of the tables after it. -/
theorem inserted_of_run (run : (history env).Run Any s tr s') :
    s.db.refreshTokens.inserted <+: s'.db.refreshTokens.inserted := by
  refine run.invariant (I := fun s' => s.db.refreshTokens.inserted <+: s'.db.refreshTokens.inserted)
    (fun s' e t first _ step => ?_) List.prefix_rfl
  obtain ⟨⟨-, fresh⟩, rfl⟩ := history_next.1 step
  have effect : Effect env e.now _ _ _ _ := e.call.effect fresh
  rcases effect.inserted with same | ⟨row, -, more⟩
  · exact same ▸ first
  · exact more ▸ first.trans (List.prefix_append _ _)

end

/-! ## The first row of a family -/

theorem find?_inserted (tokens : RefreshTokenTable) (f : FamilyId) :
    tokens.inserted.find? (·.familyId = f) = (tokens.findFamilyRow f).map (·.inserted) :=
  List.find?_map

/-- It stays the first one. -/
theorem findFamilyRow_of_later {row : RefreshTokenRow} (later : tokens.inserted <+: tokens'.inserted)
    (first : tokens.findFamilyRow f = some row) :
    ∃ row', tokens'.findFamilyRow f = some row' ∧ row'.createdAt = row.createdAt := by
  obtain ⟨more, same⟩ := later
  have found : tokens'.inserted.find? (·.familyId = f) = some row.inserted := by
    rw [← same, List.find?_append, find?_inserted, first]
    rfl
  rw [find?_inserted] at found
  obtain ⟨row', first', inserted⟩ := Option.map_eq_some_iff.1 found
  exact ⟨row', first', congrArg (·.createdAt) inserted⟩

theorem Orderly.user {row row' : RefreshTokenRow} (orderly : Orderly env clock tokens.inserted)
    (mem : row ∈ tokens.rows) (mem' : row' ∈ tokens.rows) (same : row.familyId = row'.familyId) :
    row.userId = row'.userId :=
  orderly.oneUser row.inserted (mem_inserted mem) row'.inserted (mem_inserted mem') same

/-- The first row of a family has the least `createdAt`. -/
theorem min_createdAt (orderly : Orderly env clock tokens.inserted) (f : FamilyId) :
    ((tokens.rows.filter (·.familyId = f)).map (·.createdAt)).min? =
      (tokens.findFamilyRow f).map (·.createdAt) := by
  have ascending : tokens.rows.Pairwise fun row row' => row.inserted.createdAt ≤ row'.inserted.createdAt :=
    (List.pairwise_map (R := fun a b : RefreshTokenRow => a.createdAt ≤ b.createdAt)).1
      orderly.ascending
  have sorted : ((tokens.rows.filter (·.familyId = f)).map (·.createdAt)).Pairwise
      fun a b => min a b = a :=
    List.pairwise_map.2 ((ascending.filter _).imp Nat.min_eq_left)
  rw [List.min?_eq_head? sorted, List.head?_map, List.head?_filter]
  rfl

/-! ## The families that are listed -/

/-- The rows of an active family, as `findActiveFamilies` groups them. -/
theorem filter_grouped (orderly : Orderly env clock tokens.inserted) {active : RefreshTokenRow}
    (mem : active ∈ tokens.findActive (some u) t) (same : active.familyId = f) :
    (tokens.rows.filter fun row => Prisma.whereEq (some u) row.userId ∧
        row.familyId ∈ (tokens.findActive (some u) t).map (·.familyId)).filter (·.familyId = f) =
      tokens.rows.filter (·.familyId = f) := by
  obtain ⟨known, conditions⟩ := List.mem_filter.1 mem
  obtain ⟨mine, -⟩ := of_decide_eq_true conditions
  rw [List.filter_filter]
  refine List.filter_congr fun row mem' => ?_
  by_cases family : row.familyId = f
  · have user : row.userId = u :=
      (orderly.user mem' known (family.trans same.symm)).trans (of_decide_eq_true mine)
    have listed : row.familyId ∈ (tokens.findActive (some u) t).map (·.familyId) :=
      List.mem_map.2 ⟨active, mem, same.trans family.symm⟩
    simp only [family, user, Prisma.whereEq_some, decide_true, true_and, Bool.true_and] at listed ⊢
    exact decide_eq_true listed
  · simp [family]

theorem mem_findActiveFamilies (orderly : Orderly env clock tokens.inserted) {summary : SessionSummary} :
    summary ∈ tokens.findActiveFamilies (some u) t ↔
      (∃ row ∈ tokens.findActive (some u) t, row.familyId = summary.familyId) ∧
        (tokens.findFamilyRow summary.familyId).map (·.createdAt) = some summary.createdAt := by
  simp only [RefreshTokenTable.findActiveFamilies, List.mem_mergeSort, List.mem_filterMap, List.mem_dedup]
  constructor
  · rintro ⟨f, mem, found⟩
    obtain ⟨createdAt, least, rfl⟩ := Option.map_eq_some_iff.1 found
    obtain ⟨row, grouped, rfl⟩ := List.mem_map.1 mem
    obtain ⟨-, conditions⟩ := List.mem_filter.1 grouped
    obtain ⟨active, known, same⟩ := List.mem_map.1 (of_decide_eq_true conditions).2
    rw [filter_grouped orderly known same, min_createdAt orderly] at least
    exact ⟨⟨active, known, same⟩, least⟩
  · rintro ⟨⟨active, known, same⟩, first⟩
    refine ⟨summary.familyId, ?_, ?_⟩
    · obtain ⟨mem, conditions⟩ := List.mem_filter.1 known
      refine List.mem_map.2 ⟨active, List.mem_filter.2 ⟨mem, decide_eq_true ?_⟩, same⟩
      exact ⟨(of_decide_eq_true conditions).1, List.mem_map_of_mem known⟩
    · rw [filter_grouped orderly known same, min_createdAt orderly, first]
      rfl

theorem nodup_findActiveFamilies (tokens : RefreshTokenTable) (userId : Option UserId) (t : Instant) :
    ((tokens.findActiveFamilies userId t).map (·.familyId)).Nodup := by
  refine ((List.mergeSort_perm _ _).map _).nodup_iff.2 ?_
  rw [List.map_filterMap]
  refine (List.nodup_dedup _).filterMap fun f f' g mem mem' => ?_
  have family : ∀ {f : FamilyId} {c : Option Instant},
      g ∈ (c.map fun createdAt => SessionSummary.mk f createdAt).map (·.familyId) → f = g := by
    intro f c mem
    obtain ⟨summary, made, rfl⟩ := Option.map_eq_some_iff.1 mem
    obtain ⟨createdAt, -, rfl⟩ := Option.map_eq_some_iff.1 made
    rfl
  exact (family mem).trans (family mem').symm

theorem newest_findActiveFamilies (tokens : RefreshTokenTable) (userId : Option UserId) (t : Instant) :
    (tokens.findActiveFamilies userId t).Pairwise fun a b => b.createdAt ≤ a.createdAt := by
  let newer : SessionSummary → SessionSummary → Bool := fun a b => b.createdAt ≤ a.createdAt
  have sorted (l : List SessionSummary) : (l.mergeSort newer).Pairwise fun a b => newer a b := by
    refine List.pairwise_mergeSort (fun a b c h h' => ?_) (fun a b => ?_) l
    · exact decide_eq_true (Nat.le_trans (of_decide_eq_true h') (of_decide_eq_true h))
    · rcases Nat.le_total a.createdAt b.createdAt with h | h <;> simp [newer, h]
  exact (sorted _).imp of_decide_eq_true

/-! ## Listing sessions -/

theorem mem_families (orderly : Orderly env clock tokens.inserted) :
    f ∈ (tokens.findActiveFamilies (some u) t).map (·.familyId) ↔
      ∃ row ∈ tokens.findActive (some u) t, row.familyId = f := by
  constructor
  · intro mem
    obtain ⟨summary, listed, rfl⟩ := List.mem_map.1 mem
    exact ((mem_findActiveFamilies orderly).1 listed).1
  · rintro ⟨row, active, rfl⟩
    have known : row ∈ tokens.rows := (List.mem_filter.1 active).1
    have some : (tokens.findFamilyRow row.familyId).isSome = true :=
      List.find?_isSome.2 ⟨row, known, decide_eq_true rfl⟩
    obtain ⟨first, found⟩ := Option.isSome_iff_exists.1 some
    refine List.mem_map.2 ⟨⟨row.familyId, first.createdAt⟩, ?_, rfl⟩
    refine (mem_findActiveFamilies orderly).2 ⟨⟨row, active, rfl⟩, ?_⟩
    rw [found]
    rfl

/-- A row is active exactly when a refresh with its token succeeds. -/
theorem mem_findActive_iff {db : Db} {user : UserRow} (orderly : Orderly env clock db.refreshTokens.inserted)
    (known : user ∈ db.users.rows) (alive : user.deletedAt = none) (fresh : draw.Fresh env db.refreshTokens)
    {row : RefreshTokenRow} : row ∈ db.refreshTokens.findActive (some user.id) t ↔
      row ∈ db.refreshTokens.rows ∧ row.userId = user.id ∧
        ∃ token pair, env.hash token = row.tokenHash ∧
          (refreshTokens env t draw db token).1 = .ok pair := by
  rw [RefreshTokenTable.findActive, List.mem_filter, decide_eq_true_eq, Prisma.whereEq_some,
    decide_eq_true_eq]
  refine and_congr_right fun mem => and_congr_right fun mine => ?_
  constructor
  · rintro ⟨unused, unrevoked, unexpired⟩
    obtain ⟨token, hash⟩ := orderly.issued row.inserted (mem_inserted mem)
    have accepted : ∃ pair, (refreshTokens env t draw db token).1 = .ok pair :=
      (refreshTokens_ok_iff fresh).2
        ⟨row, mem, hash, unused, unrevoked, unexpired, user, known, mine.symm, alive⟩
    obtain ⟨pair, ok⟩ := accepted
    exact ⟨token, pair, hash.symm, ok⟩
  · rintro ⟨token, pair, hash, ok⟩
    obtain ⟨r, mem', hash', unused, unrevoked, unexpired, -⟩ := exchangeable_of_ok ok
    obtain rfl := RefreshTokenTable.eq_of_tokenHash mem mem' (hash.symm.trans hash'.symm)
    exact ⟨unused, unrevoked, unexpired⟩

/-- The list of sessions of an existing user, at the end of any history and at any time: a family of the
user is in it, once, exactly when a refresh with one of its tokens would succeed; it shows the time of
the first row of the family, which stays the same; the newest come first, and `current` tells the given
family. -/
theorem list_sessions_exact {s₀ s : HistoryState} {tr : List (Step HistoryState TimedCall)}
    (start : (history env).start s₀) (run : (history env).Run Any s₀ tr s) {user : UserRow}
    (known : user ∈ s.db.users.rows) (alive : user.deletedAt = none)
    (fresh : draw.Fresh env s.db.refreshTokens) (t : Instant) (fam : Option FamilyId) :
    let sessions := listSessions t s.db (some user.id) fam
    (∀ f, f ∈ sessions.map (·.familyId) ↔
      ∃ row ∈ s.db.refreshTokens.rows, row.userId = user.id ∧ row.familyId = f ∧
        ∃ token pair, env.hash token = row.tokenHash ∧
          (refreshTokens env t draw s.db token).1 = .ok pair) ∧
    (sessions.map (·.familyId)).Nodup ∧
    (∀ view ∈ sessions, (s.db.refreshTokens.findFamilyRow view.familyId).map (·.createdAt) =
      some view.createdAt) ∧
    (∀ tr' s' t' fam', (history env).Run Any s tr' s' →
      ∀ view ∈ sessions, ∀ view' ∈ listSessions t' s'.db (some user.id) fam',
        view'.familyId = view.familyId → view'.createdAt = view.createdAt) ∧
    sessions.Pairwise (fun a b => b.createdAt ≤ a.createdAt) ∧
    ∀ view ∈ sessions, view.current = true ↔ some view.familyId = fam := by
  have orderly := orderly_of_run start run
  have families : (listSessions t s.db (some user.id) fam).map (·.familyId) =
      (s.db.refreshTokens.findActiveFamilies (some user.id) t).map (·.familyId) := by
    rw [listSessions, List.map_map]
    rfl
  have first {s : HistoryState} (orderly : Orderly env s.clock s.db.refreshTokens.inserted)
      {t : Instant} {fam : Option FamilyId} {view : SessionView}
      (mem : view ∈ listSessions t s.db (some user.id) fam) :
      (s.db.refreshTokens.findFamilyRow view.familyId).map (·.createdAt) = some view.createdAt := by
    obtain ⟨summary, listed, rfl⟩ := List.mem_map.1 mem
    exact ((mem_findActiveFamilies orderly).1 listed).2
  refine ⟨fun f => ?_, families ▸ nodup_findActiveFamilies _ _ _, fun view mem => first orderly mem,
    fun tr' s' t' fam' run' view mem view' mem' same => ?_, ?_, fun view mem => ?_⟩
  · rw [families, mem_families orderly]
    refine exists_congr fun row => ?_
    rw [mem_findActive_iff orderly known alive fresh]
    constructor
    · rintro ⟨⟨mem, mine, accepted⟩, family⟩
      exact ⟨mem, mine, family, accepted⟩
    · rintro ⟨mem, mine, family, accepted⟩
      exact ⟨⟨mem, mine, accepted⟩, family⟩
  · obtain ⟨row, found, createdAt⟩ := Option.map_eq_some_iff.1 (first orderly mem)
    obtain ⟨row', found', stays⟩ := findFamilyRow_of_later (inserted_of_run run') found
    have shown := first (orderly_of_run start (run.trans run')) mem'
    rw [same, found'] at shown
    exact (Option.some.inj shown).symm.trans (stays.trans createdAt)
  · exact List.pairwise_map.2 (newest_findActiveFamilies _ _ _)
  · obtain ⟨summary, -, rfl⟩ := List.mem_map.1 mem
    exact decide_eq_true_iff

/-- A session that was opened at 10 and rotated at 20. -/
theorem list_sessions_exact_rotated : ∃ s : HistoryState,
    7 ∈ (listSessions 30 s.db (some 1) (some 7)).map (·.familyId) ∧
    ∀ view ∈ listSessions 30 s.db (some 1) (some 7), view.createdAt = 10 ∧ view.current = true := by
  have computed : ((history taggedEnv).exec (fun _ _ => true) ⟨0, oneUser⟩
      [⟨10, ⟨1, "t1", 7⟩, .login "a@b.c" "pw"⟩, ⟨20, ⟨2, "t2", 8⟩, .refreshTokens "t1"⟩]).map (fun s =>
        decide (s.db.users.rows = oneUser.users.rows ∧
          (⟨3, "t3", 9⟩ : Draw).Fresh taggedEnv s.db.refreshTokens ∧
          (∃ row ∈ s.db.refreshTokens.rows, row.userId = 1 ∧ row.familyId = 7 ∧
            taggedEnv.hash "t2" = row.tokenHash ∧ row.usedAt = none ∧ row.revokedAt = none ∧
            30 < row.expiresAt) ∧
          (∀ row ∈ s.db.refreshTokens.rows, row.familyId = 7) ∧
          (s.db.refreshTokens.findFamilyRow 7).map (·.createdAt) = some 10)) = some true := by decide
  obtain ⟨s, hs, facts⟩ := Option.map_eq_some_iff.1 computed
  obtain ⟨users, fresh, ⟨row, mem, mine, family, hash, usable⟩, families, first⟩ := of_decide_eq_true facts
  obtain ⟨tr, run, -⟩ := exists_run_of_exec (C := Any) (fun _ _ _ => trivial) hs
  have known : ∃ user ∈ s.db.users.rows, user.id = 1 ∧ user.deletedAt = none := by
    rw [users]
    exact ⟨_, List.mem_singleton_self _, rfl, rfl⟩
  obtain ⟨user, known, id, alive⟩ := known
  have live : Exchangeable taggedEnv 30 s.db "t2" :=
    ⟨row, mem, hash.symm, usable.1, usable.2.1, usable.2.2, user, known, id.trans mine.symm, alive⟩
  obtain ⟨pair, ok⟩ := (refreshTokens_ok_iff fresh).2 live
  have start : (history taggedEnv).start ⟨0, oneUser⟩ := rfl
  have listed := list_sessions_exact start run known alive fresh 30 (some 7)
  rw [id] at listed
  obtain ⟨exactly, -, created, -, -, current⟩ := listed
  refine ⟨s, (exactly 7).2 ⟨row, mem, mine, family, "t2", pair, hash, ok⟩, fun view shown => ?_⟩
  obtain ⟨r, known, -, same, -⟩ := (exactly view.familyId).1 (List.mem_map_of_mem shown)
  have seven : view.familyId = 7 := same.symm.trans (families r known)
  have createdAt := created view shown
  rw [seven, first] at createdAt
  exact ⟨(Option.some.inj createdAt).symm, (current view shown).2 (congrArg some seven)⟩

end EstateServer.Auth
