import EstateServer.Auth.Families

/-!
# When a revocation is final

`markUsed` compares and sets `usedAt`; it does not look at `revokedAt`.  A rotation may therefore
commit after its row has been revoked, or while a revocation that has found the row waits for it, and
its successor then lives on in a revoked family (`revocation_escaped`).

`Unraced` excludes these two kinds of commit and nothing else.  A revocation is then final
(`revocation_final_of_unraced`): the rows that its `UPDATE` finds are all that its families have
until it commits (`Covered`), and afterwards the families stay locked.
-/

namespace EstateServer.Auth

open Machine

variable {env : Env} {s s' : State} {a : Label} {p q : Pid} {f : FamilyId} {targets : List TokenId}

/-- The step commits no rotation of a row that is revoked, or that a waiting revocation has found. -/
def Unraced (s : State) (a : Label) : Prop :=
  ∀ found, rotated s a = some found →
    (∀ row ∈ s.tokens.rows, row.id = found.id → row.revokedAt = none) ∧
    ∀ q tx result targets, s.phase q = .revoking tx result targets → found.id ∉ targets

theorem Covered.moves (sound : Sound s) (m : Moves env s a s') (unraced : Unraced s a)
    (spared : ∀ found, rotated s a = some found → found.id ∉ targets)
    (h : Covered f targets s.tokens) : Covered f targets s'.tokens := by
  rcases tokenMove_of_moves sound m with ⟨same, -⟩ | ⟨p, draw, rfl, move⟩
  · rw [same]
    exact h
  · generalize s'.tokens = tokens at move ⊢
    cases move with
    | login _ fresh save =>
      refine h.save save fun e => fresh ?_
      rw [issuedToken_newFamily] at e
      exact e ▸ h.known
    | @rotate found _ _ _ _ row hp shadows _ _ familyId _ _ save =>
      have commit : rotated s (.step p draw) = some found := by simp only [rotated, hp]
      refine h.updateMany.save save fun e => spared found commit ?_
      rw [← shadows.2.1]
      exact h.covered row shadows.1 (familyId ▸ e)
        ((unraced found commit).1 row shadows.1 shadows.2.1)
    | revoke => exact h.updateMany

/-- The revoking `UPDATE` of `q` has found every unrevoked row of the family (or `q` has failed). -/
def Pending (q : Pid) (tx : Revocation) (result : Result) (f : FamilyId) (s : State) : Prop :=
  (∃ result, s.phase q = .done result) ∨ ∃ targets, Covered f targets s.tokens ∧
    (s.phase q = .revoking tx result targets ∨ s.phase q = .revoked tx result targets)

/-- A request that has ended takes no further step. -/
theorem Moves.not_done {result : Result} (m : Moves env s a s') (hq : a.pid = some q) :
    s.phase q ≠ .done result := by
  intro ended
  cases m with
  | advance => cases hq
  | fail _ running =>
    obtain rfl := Option.some.inj hq
    exact running result ended
  | read h =>
    obtain rfl := Option.some.inj hq
    rw [ended] at h
    cases h
  | gone h =>
    obtain rfl := Option.some.inj hq
    rcases h with ⟨_, h⟩ | h <;> cases h.symm.trans ended
  | arrive h | login h | lose h | consume h | rotate h | lockUser h | rename h | lockTokens h
    | revoke h =>
    obtain rfl := Option.some.inj hq
    cases h.symm.trans ended

/-- A revoking `UPDATE` that waits goes on with the rows that are still unrevoked, or fails. -/
theorem Moves.of_revoking {tx : Revocation} {result : Result} (m : Moves env s a s')
    (hq : a.pid = some q) (waiting : s.phase q = .revoking tx result targets) :
    s'.tokens = s.tokens ∧ ((∃ r, s'.phase q = .done r) ∨
      s'.phase q = .revoked tx result (targets.filter s.tokens.unrevoked)) := by
  cases m with
  | advance => cases hq
  | fail =>
    obtain rfl := Option.some.inj hq
    exact ⟨rfl, .inl ⟨_, finish_phase_self _ _ _⟩⟩
  | read h =>
    obtain rfl := Option.some.inj hq
    rw [waiting] at h
    cases h
  | gone h =>
    obtain rfl := Option.some.inj hq
    rcases h with ⟨_, h⟩ | h <;> cases h.symm.trans waiting
  | lockTokens h =>
    obtain rfl := Option.some.inj hq
    cases h.symm.trans waiting
    exact ⟨rfl, .inr (enter_phase_self _ _ _)⟩
  | arrive h | login h | lose h | consume h | rotate h | lockUser h | rename h | revoke h =>
    obtain rfl := Option.some.inj hq
    cases h.symm.trans waiting

/-- A revocation that has written its rows commits or fails. -/
theorem Moves.of_revoked {tx : Revocation} {result : Result} (m : Moves env s a s')
    (hq : a.pid = some q) (written : s.phase q = .revoked tx result targets) :
    ∃ r, s'.phase q = .done r := by
  cases m with
  | advance => cases hq
  | fail | revoke =>
    obtain rfl := Option.some.inj hq
    exact ⟨_, finish_phase_self _ _ _⟩
  | read h =>
    obtain rfl := Option.some.inj hq
    rw [written] at h
    cases h
  | gone h =>
    obtain rfl := Option.some.inj hq
    rcases h with ⟨_, h⟩ | h <;> cases h.symm.trans written
  | arrive h | login h | lose h | consume h | rotate h | lockUser h | rename h | lockTokens h =>
    obtain rfl := Option.some.inj hq
    cases h.symm.trans written

theorem Covered.filter_unrevoked {tokens : RefreshTokenTable} (h : Covered f targets tokens) :
    Covered f (targets.filter tokens.unrevoked) tokens := by
  refine ⟨h.known, fun row hrow hf unrevoked =>
    List.mem_filter.2 ⟨h.covered row hrow hf unrevoked, ?_⟩⟩
  exact List.any_eq_true.2 ⟨row, hrow, decide_eq_true ⟨rfl, unrevoked⟩⟩

theorem Pending.moves {tx : Revocation} {result : Result} (sound : Sound s) (m : Moves env s a s')
    (unraced : Unraced s a) (h : Pending q tx result f s) : Pending q tx result f s' := by
  rcases h with ⟨r, ended⟩ | ⟨targets, covered, waiting | written⟩
  · refine .inl ⟨r, ?_⟩
    rw [m.phase_of_ne fun hq => m.not_done hq ended, ended]
  · by_cases hq : a.pid = some q
    · obtain ⟨same, ended | locked⟩ := m.of_revoking hq waiting
      · exact .inl ended
      · refine .inr ⟨_, ?_, .inr locked⟩
        rw [same]
        exact covered.filter_unrevoked
    · refine .inr ⟨targets, covered.moves sound m unraced ?_, .inl ?_⟩
      · exact fun found commit => (unraced found commit).2 q tx result targets waiting
      · rw [m.phase_of_ne hq, waiting]
  · by_cases hq : a.pid = some q
    · exact .inl (m.of_revoked hq written)
    · refine .inr ⟨targets, covered.moves sound m unraced ?_, .inr ?_⟩
      · -- `q` has locked its rows, and a rotation commits a row that its own process has locked
        intro found commit target
        obtain ⟨p, draw, now, new, pair, rfl, hp⟩ := rotated_eq_some commit
        have mine := sound p
        have theirs := sound q
        rw [hp] at mine
        rw [written] at theirs
        exact hq (mine.2.1.symm.trans (theirs found.id target))
      · rw [m.phase_of_ne hq, written]

/-! ## After the revocation -/

def Result.Spares (f : FamilyId) : Result → Prop
  | refreshed found _ => found.familyId ≠ f
  | _ => True

/-- The process exchanges no token of the family. -/
def Phase.Spares (f : FamilyId) : Phase → Prop
  | refreshUsable found _ => found.familyId ≠ f
  | rotating found _ _ => found.familyId ≠ f
  | consumed found _ _ => found.familyId ≠ f
  | replaced found _ _ _ => found.familyId ≠ f
  | revoke _ result => result.Spares f
  | revoking _ result _ => result.Spares f
  | revoked _ result _ => result.Spares f
  | done result => result.Spares f
  | _ => True

theorem Phase.Spares.read {phase phase' : Phase} {draw : Draw} (locked : Locked f s.tokens)
    (h : phase.Spares f) (read : Reads env s draw phase phase') : phase'.Spares f := by
  cases read with
  | usable known usable =>
    obtain ⟨row, hrow, -, rfl⟩ := RefreshTokenTable.findByHash_eq_some.1 known
    exact fun e => locked.revoked hrow e ((RefreshToken.isUsable_iff _ _).1 usable).2.1
  | rotating | replaced | revoking => exact h
  | _ => trivial

theorem spares_of_moves (locked : Locked f s.tokens) (m : Moves env s a s')
    (h : (s.phase p).Spares f) : (s'.phase p).Spares f := by
  by_cases hp : a.pid = some p
  · cases m with
    | advance => cases hp
    | @arrive p' request =>
      obtain rfl := Option.some.inj hp
      rw [enter_phase_self]
      cases request <;> trivial
    | read read =>
      obtain rfl := Option.some.inj hp
      rw [enter_phase_self]
      exact h.read locked (reads_of_advance read)
    | consume hphase | lockTokens hphase =>
      obtain rfl := Option.some.inj hp
      rw [hphase] at h
      rw [enter_phase_self]
      exact h
    | rotate hphase | revoke hphase =>
      obtain rfl := Option.some.inj hp
      rw [hphase] at h
      rw [finish_phase_self]
      exact h
    | login | lockUser =>
      obtain rfl := Option.some.inj hp
      rw [enter_phase_self]
      trivial
    | fail | lose | gone | rename =>
      obtain rfl := Option.some.inj hp
      rw [finish_phase_self]
      trivial
  · rw [m.phase_of_ne hp]
    exact h

/-! ## Revocation is final -/

/-- The `UPDATE` of a revocation finds every unrevoked row of a family in its scope. -/
theorem covered_targets {scope : Scope} {row : RefreshTokenRow}
    (oneUser : ∀ r ∈ s.tokens.rows, ∀ r' ∈ s.tokens.rows, r.familyId = r'.familyId →
      r.userId = r'.userId)
    (hrow : row ∈ s.tokens.rows) (covers : scope.covers row = true) :
    Covered row.familyId (scope.targets s.tokens) s.tokens := by
  refine ⟨List.mem_map_of_mem hrow, fun r hr hf unrevoked => List.mem_map_of_mem ?_⟩
  refine List.mem_filter.2 ⟨hr, decide_eq_true ⟨?_, unrevoked⟩⟩
  cases scope with
  | family familyId =>
    simp only [Scope.covers, decide_eq_true_eq] at covers ⊢
    exact hf.trans covers
  | user userId =>
    simp only [Scope.covers] at covers ⊢
    rw [oneUser r hr row hrow hf]
    exact covers

theorem locked_revokeRows {tokens : RefreshTokenTable} {now : Instant}
    (h : Covered f targets tokens) : Locked f (tokens.revokeRows targets now) := by
  refine ⟨h.updateMany.known, fun row hrow hf unrevoked => ?_⟩
  obtain ⟨row₀, hrow₀, rfl⟩ := RefreshTokenTable.mem_updateMany.1 hrow
  split_ifs at hf unrevoked with hit
  · cases unrevoked
  · exact absurd (decide_eq_true ⟨h.covered row₀ hrow₀ hf unrevoked, unrevoked⟩) hit

theorem pending_of_update {tx : Revocation} {result : Result} {draw : Draw} {row : RefreshTokenRow}
    (covered : Covered row.familyId (tx.scope.targets s.tokens) s.tokens)
    (ready : s.phase q = .revoke tx result) (update : next env s (.step q draw) = some s') :
    Pending q tx result row.familyId s' := by
  simp only [next, ready, Phase.advance, Option.map_some, Option.some.injEq] at update
  subst update
  exact .inr ⟨_, covered, .inl (enter_phase_self _ _ _)⟩

theorem locked_of_commit {tx : Revocation} {result : Result} {draw : Draw}
    (pending : Pending q tx result f s) (written : s.phase q = .revoked tx result targets)
    (commit : next env s (.step q draw) = some s') : Locked f s'.tokens := by
  rcases pending with ⟨r, ended⟩ | ⟨targets', covered, waiting | written'⟩
  · cases ended.symm.trans written
  · cases waiting.symm.trans written
  · cases written'.symm.trans written
    simp only [next, written, Option.some.injEq] at commit
    subst commit
    exact locked_revokeRows covered

/-- In a run without racing rotations: a revocation of `q` runs its `UPDATE` when a row of its scope is
there, and commits.  From then on no row of the family of that row is live, and no refresh that had
not started yet exchanges a token of the family. -/
theorem revocation_final_of_unraced {s₀ s₁ s₂ s₃ s₄ : State} {tr tr' tr'' : List (Step State Label)}
    {tx : Revocation} {result : Result} {draw draw' : Draw} {row : RefreshTokenRow}
    (start : (sessions env).start s₀) (before : (sessions env).Run Unraced s₀ tr s)
    (hrow : row ∈ s.tokens.rows) (covers : tx.scope.covers row = true)
    (ready : s.phase q = .revoke tx result)
    (update : (sessions env).next s (.step q draw) = some s₁)
    (during : (sessions env).Run Unraced s₁ tr' s₂)
    (written : s₂.phase q = .revoked tx result targets)
    (commit : (sessions env).next s₂ (.step q draw') = some s₃)
    (after : (sessions env).Run Unraced s₃ tr'' s₄) :
    (∀ r ∈ s₄.tokens.rows, r.familyId = row.familyId →
      ¬ (r.usedAt = none ∧ r.revokedAt = none ∧ s₄.clock < r.expiresAt)) ∧
    ∀ p, s₃.phase p = .idle →
      ∀ found pair, s₄.phase p = .done (.refreshed found pair) → found.familyId ≠ row.familyId := by
  obtain ⟨sound, chained⟩ := chained_of_run start before
  have pending : Pending q tx result row.familyId s₁ :=
    pending_of_update (covered_targets chained.oneUser hrow covers) ready update
  obtain ⟨sound, pending⟩ : Sound s₂ ∧ Pending q tx result row.familyId s₂ := by
    refine during.invariant (I := fun s => Sound s ∧ Pending q tx result row.familyId s)
      (fun s a s' h unraced step => ?_) ⟨sound_of_moves sound (moves_of_next update), pending⟩
    have m : Moves env s a s' := moves_of_next step
    exact ⟨sound_of_moves h.1 m, h.2.moves h.1 m unraced⟩
  have sound : Sound s₃ := sound_of_moves sound (moves_of_next commit)
  have locked : Locked row.familyId s₃.tokens := locked_of_commit pending written commit
  have stays : Sound s₄ ∧ Locked row.familyId s₄.tokens ∧
      ∀ p, s₃.phase p = .idle → (s₄.phase p).Spares row.familyId := by
    refine after.invariant (I := fun s => Sound s ∧ Locked row.familyId s.tokens ∧
        ∀ p, s₃.phase p = .idle → (s.phase p).Spares row.familyId)
      (fun s a s' h unraced step => ?_) ⟨sound, locked, fun p idle => by rw [idle]; trivial⟩
    have m : Moves env s a s' := moves_of_next step
    refine ⟨sound_of_moves h.1 m, h.2.1.moves h.1 m unraced fun _ _ => List.not_mem_nil, ?_⟩
    exact fun p idle => spares_of_moves h.2.1 m (h.2.2 p idle)
  obtain ⟨-, locked, spares⟩ := stays
  refine ⟨fun r hr hf live => locked.revoked hr hf live.2.1, fun p idle found pair ended => ?_⟩
  have spared := spares p idle
  rw [ended] at spared
  exact spared

theorem unraced_of_isNone {s : State} {a : Label} (h : (rotated s a).isNone = true) : Unraced s a := by
  intro found commit
  rw [commit] at h
  cases h

/-- A step of a process below 3; where it commits a rotation, no row is revoked and none of these
processes revokes. -/
def calmStep (s : State) (a : Label) : Bool :=
  a.pid.all (· < 3) && ((rotated s a).isNone || (s.tokens.rows.all (·.revokedAt = none) &&
    [0, 1, 2].all fun p =>
      match s.phase p with
      | .revoking _ _ _ => false
      | _ => true))

theorem unraced_of_calmStep {s s' : State} {a : Label} (others : ∀ q : ℕ, 3 ≤ q → s.phase q = .idle)
    (h : calmStep s a = true) (step : (sessions env).next s a = some s') :
    Unraced s a ∧ ∀ q : ℕ, 3 ≤ q → s'.phase q = .idle := by
  obtain ⟨below, calm⟩ := Bool.and_eq_true_iff.1 h
  refine ⟨fun found commit => ?_, fun q hq => ?_⟩
  · rw [commit, Option.isNone_some, Bool.false_or, Bool.and_eq_true_iff] at calm
    obtain ⟨unrevoked, quiet⟩ := calm
    refine ⟨fun row hrow _ => of_decide_eq_true (List.all_eq_true.1 unrevoked row hrow), ?_⟩
    intro q tx result targets revoking
    have mem : q ∈ [0, 1, 2] := by
      match q with
      | 0 | 1 | 2 => decide
      | q + 3 =>
        rw [others (q + 3) (Nat.le_add_left 3 q)] at revoking
        cases revoking
    have still := List.all_eq_true.1 quiet q mem
    rw [revoking] at still
    cases still
  · rw [(moves_of_next step).phase_of_ne fun mine => ?_, others q hq]
    rw [mine, Option.all_some, decide_eq_true_eq] at below
    exact absurd below (Nat.not_lt.2 hq)

/-- A login, a rotation, a logout that nothing races with, and a refresh that comes too late. -/
theorem revocation_final_of_unraced_logout : ∃ s₃ tr s₄,
    (sessions taggedEnv).Run Unraced s₃ tr s₄ ∧
    (∀ r ∈ s₄.tokens.rows, r.familyId = 7 →
      ¬ (r.usedAt = none ∧ r.revokedAt = none ∧ s₄.clock < r.expiresAt)) ∧
    ∀ found pair, s₄.phase 3 = .done (.refreshed found pair) → found.familyId ≠ 7 := by
  let M := sessions taggedEnv
  let quiet : State → Label → Bool := fun s a => (rotated s a).isNone
  have computed : ((M.exec calmStep calm (loginSteps 0 ⟨1, "t1", 7⟩ ++
      [.arrive 1 (.refreshTokens "t1"), go 1, go 1, go 1, .step 1 ⟨2, "t2", 8⟩, go 1,
        .arrive 2 (.logout "t2"), go 2])).bind fun s => (M.next s (go 2)).bind fun s₁ =>
        (M.exec quiet s₁ [go 2]).bind fun s₂ => (M.next s₂ (go 2)).bind fun s₃ =>
          (M.exec quiet s₃ [.arrive 3 (.refreshTokens "t2"), go 3]).map fun _ => decide (
            (∃ row ∈ s.tokens.rows, row.familyId = 7) ∧
            s.phase 2 = .revoke { scope := .family 7, revokedAt := 0, user := none } .ok ∧
            s₂.phase 2 = .revoked { scope := .family 7, revokedAt := 0, user := none } .ok [1, 2] ∧
            s₃.phase 3 = .idle)) = some true := by decide
  obtain ⟨s, hs, computed⟩ := Option.bind_eq_some_iff.1 computed
  obtain ⟨s₁, update, computed⟩ := Option.bind_eq_some_iff.1 computed
  obtain ⟨s₂, hs₂, computed⟩ := Option.bind_eq_some_iff.1 computed
  obtain ⟨s₃, commit, computed⟩ := Option.bind_eq_some_iff.1 computed
  obtain ⟨s₄, hs₄, facts⟩ := Option.map_eq_some_iff.1 computed
  obtain ⟨⟨row, hrow, family⟩, ready, written, idle⟩ := of_decide_eq_true facts
  obtain ⟨tr, before, -⟩ := exists_run_of_exec_invariant (C := Unraced)
    (I := fun s => ∀ q : ℕ, 3 ≤ q → s.phase q = .idle)
    (fun _ _ _ others => unraced_of_calmStep others) (fun _ _ => rfl) hs
  obtain ⟨tr', during, -⟩ := exists_run_of_exec (C := Unraced) (fun _ _ => unraced_of_isNone) hs₂
  obtain ⟨tr'', after, -⟩ := exists_run_of_exec (C := Unraced) (fun _ _ => unraced_of_isNone) hs₄
  have covers : (Scope.family 7).covers row = true := decide_eq_true family
  obtain ⟨dead, spared⟩ :=
    revocation_final_of_unraced (calm_start _) before hrow covers ready update during written commit
      after
  simp only [family] at dead spared
  exact ⟨s₃, tr'', s₄, after, dead, spared 3 idle⟩

/-- A race: a refresh reads its row, a logout revokes the family, the refresh commits. -/
theorem revocation_escaped : ∃ tr s s' tr' u,
    (sessions taggedEnv).Run Any calm tr s ∧ (sessions taggedEnv).next s (go 2) = some s' ∧
    s.phase 2 = .revoked { scope := .family 7, revokedAt := 0, user := none } .ok [1] ∧
    (∃ row ∈ s.tokens.rows, row.familyId = 7) ∧ s'.phase 2 = .done .ok ∧
    (sessions taggedEnv).Run Any s' tr' u ∧
    ∃ row ∈ u.tokens.rows, row.familyId = 7 ∧
      row.usedAt = none ∧ row.revokedAt = none ∧ u.clock < row.expiresAt := by
  have computed : (((sessions taggedEnv).exec (fun _ _ => true) calm (loginSteps 0 ⟨1, "t1", 7⟩ ++
      [.arrive 1 (.refreshTokens "t1"), go 1, go 1,
        .arrive 2 (.logout "t1"), go 2, go 2, go 2])).bind fun s =>
      ((sessions taggedEnv).next s (go 2)).bind fun s' =>
        ((sessions taggedEnv).exec (fun _ _ => true) s' [go 1, .step 1 ⟨2, "t2", 8⟩, go 1]).map
          fun u => decide (
            s.phase 2 = .revoked { scope := .family 7, revokedAt := 0, user := none } .ok [1] ∧
            (∃ row ∈ s.tokens.rows, row.familyId = 7) ∧ s'.phase 2 = .done .ok ∧
            ∃ row ∈ u.tokens.rows, row.familyId = 7 ∧
              row.usedAt = none ∧ row.revokedAt = none ∧ u.clock < row.expiresAt)) =
      some true := by decide
  obtain ⟨tr, s, s', tr', u, run, commit, run', facts⟩ :=
    exists_step_of_exec (C := Any) (fun _ _ _ => trivial) computed
  obtain ⟨written, known, ended, live⟩ := of_decide_eq_true facts
  exact ⟨tr, s, s', tr', u, run, commit, written, known, ended, run', live⟩

end EstateServer.Auth
