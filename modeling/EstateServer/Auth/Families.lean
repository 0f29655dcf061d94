import EstateServer.Auth.Interleaving

/-!
# Every family is a chain

Under any interleaving a family of refresh tokens has one user, one unused row, and one used row for
each committed rotation.

* `Phase.Sound` says what a process knows in each phase: the rows behind the entities it holds, and
  the locks it has.  The rows that a process has locked are not written by others (`Moves.untouched`),
  so what it knows stays true (`sound_of_moves`).
* `TokenMove` is what a step then does to the table.  `Chained` is the invariant of the table and of
  the rotations committed so far (`chained_of_moves`).
-/

namespace EstateServer.Auth

open Machine

variable {env : Env} {s s' : State} {a : Label} {p q : Pid}

/-! ## What a process knows -/

/-- The entity is a version of a row of the table. -/
def Shadows (tokens : RefreshTokenTable) (found : RefreshToken) (row : RefreshTokenRow) : Prop :=
  row ∈ tokens.rows ∧ row.id = found.id ∧ row.userId = found.userId ∧ row.familyId = found.familyId

/-- What holds of the phase of the process `p`, given the table and its locks. -/
def Phase.Sound (tokens : RefreshTokenTable) (lock : Locks TokenId Pid) (p : Pid) : Phase → Prop
  | refreshUsable found _ => ∃ row, Shadows tokens found row
  | rotating found user _ => (∃ row, Shadows tokens found row) ∧ user.id = found.userId
  | consumed found user _ => (∃ row, Shadows tokens found row ∧ row.usedAt = none) ∧
      lock found.id = some p ∧ user.id = found.userId
  | replaced found _ new _ => (∃ row, Shadows tokens found row ∧ row.usedAt = none) ∧
      lock found.id = some p ∧ new.familyId = found.familyId ∧ new.userId = found.userId ∧
      new.usedAt = none ∧ new.revokedAt = none
  | revoked _ _ targets => ∀ id ∈ targets, lock id = some p
  | _ => True

/-- Every process knows what its phase says. -/
def Sound (s : State) : Prop := ∀ p, (s.phase p).Sound s.tokens s.tokenLock p

/-- A step takes no lock away from another process. -/
theorem Moves.tokenLock_of_held (m : Moves env s a s') (h : a.pid ≠ some q) {id : TokenId}
    (held : s.tokenLock id = some q) : s'.tokenLock id = some q := by
  cases m with
  | advance | arrive | read | login | lockUser => exact held
  | consume _ _ available =>
    refine Locks.acquire_of_held (fun k hk => ?_) held
    rw [List.mem_singleton.1 hk]
    exact available
  | lockTokens _ available => exact Locks.acquire_of_held available held
  | fail | lose | rotate | gone | rename | revoke =>
    exact Locks.release_of_held held fun e => h (congrArg some e.symm)

/-! ## What a step does to the table -/

/-- The token whose rotation the step commits. -/
def rotated (s : State) : Label → Option RefreshToken
  | .step p _ =>
    match s.phase p with
    | .replaced found _ _ _ => some found
    | _ => none
  | _ => none

theorem rotated_eq_some {found : RefreshToken} (h : rotated s a = some found) :
    ∃ p draw now new pair, a = .step p draw ∧ s.phase p = .replaced found now new pair := by
  unfold rotated at h
  split at h
  · split at h
    · rename_i hp
      obtain rfl := Option.some.inj h
      exact ⟨_, _, _, _, _, rfl, hp⟩
    · cases h
  · cases h

/-- How a step of `p` writes the table, given what `p` knows. -/
inductive TokenMove (env : Env) (s : State) (p : Pid) : RefreshTokenTable → Prop
  | login {draw : Draw} {user : User} {tokens : RefreshTokenTable}
      (h : s.phase p = .loginVerified user)
      (fresh : draw.uuid ∉ s.tokens.rows.map (·.familyId))
      (save : s.tokens.save (issuedToken env s.clock draw user.id none) s.clock = some tokens) :
      TokenMove env s p tokens
  | rotate {found : RefreshToken} {now : Instant} {new : RefreshTokenRow} {pair : TokenPair}
      {tokens : RefreshTokenTable} (row : RefreshTokenRow) (h : s.phase p = .replaced found now new pair)
      (shadows : Shadows s.tokens found row) (unused : row.usedAt = none)
      (locked : s.tokenLock row.id = some p) (familyId : new.familyId = row.familyId)
      (userId : new.userId = row.userId) (fresh : new.usedAt = none ∧ new.revokedAt = none)
      (save : (s.tokens.markUsed row.id now).1.save new.toRefreshToken new.createdAt = some tokens) :
      TokenMove env s p tokens
  | revoke {tx : Revocation} {result : Result} {targets : List TokenId}
      (h : s.phase p = .revoked tx result targets)
      (locked : ∀ id ∈ targets, s.tokenLock id = some p) :
      TokenMove env s p (s.tokens.revokeRows targets tx.revokedAt)

theorem tokenMove_of_moves (sound : Sound s) (m : Moves env s a s') :
    s'.tokens = s.tokens ∧ rotated s a = none ∨
      ∃ p draw, a = .step p draw ∧ TokenMove env s p s'.tokens := by
  cases m with
  | advance | arrive | fail => exact .inl ⟨rfl, rfl⟩
  | @read p draw phase h =>
    refine .inl ⟨rfl, ?_⟩
    simp only [rotated]
    split
    · rename_i hp
      rw [hp] at h
      cases h
    · rfl
  | lose h | consume h | rename h | lockUser h | lockTokens h =>
    exact .inl ⟨rfl, by simp only [rotated, h]⟩
  | gone h =>
    rcases h with ⟨_, h⟩ | h <;> exact .inl ⟨rfl, by simp only [rotated, h]⟩
  | login h fresh save => exact .inr ⟨_, _, rfl, .login h fresh save⟩
  | @rotate p draw found now new pair tokens h save =>
    have known := sound p
    rw [h] at known
    obtain ⟨⟨row, shadows, unused⟩, locked, familyId, userId, fresh⟩ := known
    have ⟨_, hid, huser, hfamily⟩ := shadows
    refine .inr ⟨p, draw, rfl, .rotate row h shadows unused ?_ ?_ ?_ fresh ?_⟩
    · rw [hid]
      exact locked
    · rw [familyId, hfamily]
    · rw [userId, huser]
    · rw [hid]
      exact save
  | @revoke p draw tx result targets h =>
    have known := sound p
    rw [h] at known
    exact .inr ⟨p, draw, rfl, .revoke h known⟩

namespace TokenMove

variable {tokens : RefreshTokenTable} {row : RefreshTokenRow}

theorem evolve (m : TokenMove env s p tokens) : Evolve s.tokens tokens := by
  cases m with
  | login _ _ save => exact RefreshTokenTable.evolve_save save
  | rotate row _ _ _ _ _ _ _ save =>
    exact (RefreshTokenTable.evolve_markUsed row.id _).trans (RefreshTokenTable.evolve_save save)
  | revoke => exact RefreshTokenTable.evolve_revokeRows _ _

/-- The rows that the process has not locked stay as they are. -/
theorem untouched (m : TokenMove env s p tokens) (hrow : row ∈ s.tokens.rows)
    (other : s.tokenLock row.id ≠ some p) : row ∈ tokens.rows := by
  cases m with
  | login _ _ save =>
    rw [RefreshTokenTable.save_eq_some save]
    exact List.mem_append_left _ hrow
  | rotate r _ _ _ locked _ _ _ save =>
    rw [RefreshTokenTable.save_eq_some save]
    refine List.mem_append_left _ (RefreshTokenTable.mem_updateMany.2 ⟨row, hrow, if_neg ?_⟩)
    exact fun hit => other ((of_decide_eq_true hit).1 ▸ locked)
  | revoke h locked =>
    refine RefreshTokenTable.mem_updateMany.2 ⟨row, hrow, if_neg ?_⟩
    exact fun hit => other (locked _ (of_decide_eq_true hit).1)

end TokenMove

/-! ## Processes stay sound -/

theorem Shadows.evolve {tokens tokens' : RefreshTokenTable} {found : RefreshToken}
    (h : ∃ row, Shadows tokens found row) (e : Evolve tokens tokens') :
    ∃ row, Shadows tokens' found row := by
  obtain ⟨row, hrow, hid, huser, hfamily⟩ := h
  obtain ⟨row', hrow', later⟩ := e row hrow
  exact ⟨row', hrow', later.id.trans hid, later.userId.trans huser, later.familyId.trans hfamily⟩

/-- What a process knows survives the steps of the others. -/
theorem Phase.Sound.mono {tokens tokens' : RefreshTokenTable} {lock lock' : Locks TokenId Pid}
    {phase : Phase} (sound : phase.Sound tokens lock p) (e : Evolve tokens tokens')
    (held : ∀ id, lock id = some p → lock' id = some p)
    (kept : ∀ row ∈ tokens.rows, lock row.id = some p → row ∈ tokens'.rows) :
    phase.Sound tokens' lock' p := by
  cases phase with
  | refreshUsable found now => exact Shadows.evolve sound e
  | rotating found user now => exact ⟨Shadows.evolve sound.1 e, sound.2⟩
  | consumed found user now =>
    obtain ⟨⟨row, shadows, unused⟩, locked, huser⟩ := sound
    refine ⟨⟨row, ⟨kept row shadows.1 ?_, shadows.2⟩, unused⟩, held _ locked, huser⟩
    rw [shadows.2.1]
    exact locked
  | replaced found now new pair =>
    obtain ⟨⟨row, shadows, unused⟩, locked, rest⟩ := sound
    refine ⟨⟨row, ⟨kept row shadows.1 ?_, shadows.2⟩, unused⟩, held _ locked, rest⟩
    rw [shadows.2.1]
    exact locked
  | revoked tx result targets => exact fun id hid => held id (sound id hid)
  | _ => trivial

/-- A reading step tells the process what its next phase says. -/
theorem Phase.Sound.read {phase phase' : Phase} {draw : Draw}
    (sound : phase.Sound s.tokens s.tokenLock p) (h : Reads env s draw phase phase') :
    phase'.Sound s.tokens s.tokenLock p := by
  cases h with
  | usable known =>
    obtain ⟨row, hrow, -, rfl⟩ := RefreshTokenTable.findByHash_eq_some.1 known
    exact ⟨row, hrow, rfl, rfl, rfl⟩
  | rotating known =>
    obtain ⟨userRow, -, hid, -, rfl⟩ := UserTable.findById_eq_some.1 known
    exact ⟨sound, hid⟩
  | replaced saved =>
    obtain ⟨row, locked, huser⟩ := sound
    subst saved
    exact ⟨row, locked, rfl, huser, rfl, rfl⟩
  | _ => trivial

theorem Request.start_sound (request : Request) (now : Instant) (tokens : RefreshTokenTable)
    (lock : Locks TokenId Pid) : (request.start now).Sound tokens lock p := by
  cases request <;> trivial

/-- A compare-and-set that hits has found the row unused. -/
theorem unused_of_markUsed {tokens : RefreshTokenTable} {found : RefreshToken} {now : Instant}
    (known : ∃ row, Shadows tokens found row) (hits : (tokens.markUsed found.id now).2 ≠ 0) :
    ∃ row, Shadows tokens found row ∧ row.usedAt = none := by
  obtain ⟨row, shadows⟩ := known
  refine ⟨row, shadows, ?_⟩
  by_contra used
  refine hits (RefreshTokenTable.count_markUsed_eq_zero.2 fun r hr hid => ?_)
  rw [RefreshTokenTable.eq_of_id hr shadows.1 (hid.trans shadows.2.1.symm)]
  exact used

theorem sound_of_moves (sound : Sound s) (m : Moves env s a s') : Sound s' := by
  have evolve : Evolve s.tokens s'.tokens := by
    rcases tokenMove_of_moves sound m with ⟨same, -⟩ | ⟨p, draw, -, move⟩
    · rw [same]
      exact .refl _
    · exact move.evolve
  -- the processes that do not move
  have others : ∀ q, a.pid ≠ some q → (s'.phase q).Sound s'.tokens s'.tokenLock q := by
    intro q hq
    rw [m.phase_of_ne hq]
    refine (sound q).mono evolve (fun id => m.tokenLock_of_held hq) fun row hrow held => ?_
    rcases tokenMove_of_moves sound m with ⟨same, -⟩ | ⟨p, draw, rfl, move⟩
    · rw [same]
      exact hrow
    · exact move.untouched hrow fun mine => hq (mine.symm.trans held)
  -- the process that moves
  have mover : ∀ p, a.pid = some p → (s'.phase p).Sound s'.tokens s'.tokenLock p := by
    intro p hp
    cases m with
    | advance => cases hp
    | arrive =>
      obtain rfl := Option.some.inj hp
      rw [enter_phase_self]
      exact Request.start_sound _ _ _ _
    | read h =>
      obtain rfl := Option.some.inj hp
      rw [enter_phase_self]
      exact (sound _).read (reads_of_advance h)
    | login | lockUser =>
      obtain rfl := Option.some.inj hp
      rw [enter_phase_self]
      trivial
    | @consume p' draw found user now h hits available =>
      obtain rfl := Option.some.inj hp
      have known := sound p'
      rw [h] at known
      rw [enter_phase_self]
      exact ⟨unused_of_markUsed known.1 hits, Locks.acquire_of_mem (List.mem_singleton.2 rfl), known.2⟩
    | lockTokens h available =>
      obtain rfl := Option.some.inj hp
      rw [enter_phase_self]
      exact fun id hid => Locks.acquire_of_mem hid
    | fail | lose | rotate | gone | rename | revoke =>
      obtain rfl := Option.some.inj hp
      rw [finish_phase_self]
      trivial
  intro q
  by_cases hq : a.pid = some q
  · exact mover q hq
  · exact others q hq

theorem sound_of_start (start : (sessions env).start s) : Sound s := by
  obtain ⟨-, -, -, -, idle⟩ := start
  intro p
  rw [idle]
  trivial

/-! ## The rows of a family -/

/-- The rotations that a run has committed of tokens with `q`. -/
def rotations (q : TokenId → FamilyId → Bool) (tr : List (Step State Label)) : ℕ :=
  tr.countP fun st => (rotated st.pre st.label).any fun found => q found.id found.familyId

theorem rotations_concat (q : TokenId → FamilyId → Bool) (tr : List (Step State Label))
    (st : Step State Label) : rotations q (tr ++ [st]) = rotations q tr +
      if (rotated st.pre st.label).any (fun found => q found.id found.familyId) then 1 else 0 := by
  rw [rotations, List.countP_append, List.countP_singleton]
  rfl

/-- The table of a run: families have one user and one unused row, and the used rows are those that
the committed rotations have consumed. -/
structure Chained (tokens : RefreshTokenTable) (tr : List (Step State Label)) : Prop where
  oneUser : ∀ row ∈ tokens.rows, ∀ row' ∈ tokens.rows, row.familyId = row'.familyId →
    row.userId = row'.userId
  oneUnused : ∀ f ∈ tokens.rows.map (·.familyId),
    tokens.rows.countP (fun row => row.familyId = f ∧ row.usedAt = none) = 1
  used : ∀ q : TokenId → FamilyId → Bool,
    tokens.rows.countP (fun row => q row.id row.familyId ∧ row.usedAt ≠ none) = rotations q tr

/-- A rotation replaces a row by its used version and appends its successor. -/
theorem rows_of_rotation {tokens tokens' : RefreshTokenTable} {row new : RefreshTokenRow}
    {now : Instant} (hrow : row ∈ tokens.rows) (unused : row.usedAt = none)
    (save : (tokens.markUsed row.id now).1.save new.toRefreshToken new.createdAt = some tokens') :
    ∃ front back, tokens.rows = front ++ row :: back ∧
      tokens'.rows = front ++ { row with usedAt := some now } :: back ++ [new] := by
  have one : ∀ r ∈ tokens.rows, decide (r.id = row.id ∧ r.usedAt = none) = true ↔ r = row := by
    intro r hr
    rw [decide_eq_true_iff]
    refine ⟨fun h => RefreshTokenTable.eq_of_id hr hrow h.1, ?_⟩
    rintro rfl
    exact ⟨rfl, unused⟩
  obtain ⟨front, back, rows, marked⟩ :=
    Table.updateMany_of_one (f := Assignment.apply (.usedAt now)) tokens.id_unique.nodup hrow one
  refine ⟨front, back, rows, ?_⟩
  rw [RefreshTokenTable.save_eq_some save]
  exact congrArg (· ++ _) marked

namespace Chained

variable {tokens tokens' : RefreshTokenTable} {tr : List (Step State Label)}

theorem login {draw : Draw} {userId : UserId} {now : Instant} (h : Chained tokens tr)
    (fresh : draw.uuid ∉ tokens.rows.map (·.familyId))
    (save : tokens.save (issuedToken env now draw userId none) now = some tokens') :
    Chained tokens' tr := by
  have rows := RefreshTokenTable.save_eq_some save
  have fresh' : ∀ row ∈ tokens.rows, row.familyId ≠ draw.uuid :=
    fun row hrow e => fresh (List.mem_map.2 ⟨row, hrow, e⟩)
  refine ⟨?_, ?_, ?_⟩
  · intro row hrow row' hrow' e
    rw [rows, List.mem_append, List.mem_singleton] at hrow hrow'
    rcases hrow with hrow | rfl <;> rcases hrow' with hrow' | rfl
    · exact h.oneUser row hrow row' hrow' e
    · exact absurd e (fresh' row hrow)
    · exact absurd e.symm (fresh' row' hrow')
    · rfl
  · intro f hf
    rw [rows, List.map_append, List.mem_append] at hf
    rw [rows, List.countP_append]
    rcases hf with hf | hf
    · have other : draw.uuid ≠ f := fun e => fresh (e ▸ hf)
      rw [h.oneUnused f hf]
      simp [issuedToken, RefreshToken.create, other]
    · have same : draw.uuid = f := by simpa [issuedToken, RefreshToken.create, eq_comm] using hf
      have none_before : tokens.rows.countP (fun row => row.familyId = f ∧ row.usedAt = none) = 0 := by
        rw [List.countP_eq_zero]
        intro row hrow hit
        exact fresh' row hrow ((of_decide_eq_true hit).1.trans same.symm)
      rw [none_before]
      simp [issuedToken, RefreshToken.create, same]
  · intro q
    rw [rows, List.countP_append, h.used q]
    simp [issuedToken, RefreshToken.create]

theorem rotate {row new : RefreshTokenRow} {now : Instant} (h : Chained tokens tr)
    (hrow : row ∈ tokens.rows) (unused : row.usedAt = none) (familyId : new.familyId = row.familyId)
    (userId : new.userId = row.userId) (fresh : new.usedAt = none)
    (save : (tokens.markUsed row.id now).1.save new.toRefreshToken new.createdAt = some tokens')
    {st : Step State Label} {found : RefreshToken} (commit : rotated st.pre st.label = some found)
    (shadows : Shadows tokens found row) : Chained tokens' (tr ++ [st]) := by
  obtain ⟨front, back, rows, rows'⟩ := rows_of_rotation hrow unused save
  refine ⟨?_, ?_, ?_⟩
  · -- every row comes from one of the same user and family
    have origin : ∀ r' ∈ tokens'.rows,
        ∃ r ∈ tokens.rows, r.userId = r'.userId ∧ r.familyId = r'.familyId := by
      intro r' hr'
      rw [rows', List.mem_append, List.mem_append, List.mem_cons, List.mem_singleton] at hr'
      rw [rows]
      rcases hr' with (hr' | rfl | hr') | rfl
      · exact ⟨r', List.mem_append_left _ hr', rfl, rfl⟩
      · exact ⟨row, List.mem_append_right _ List.mem_cons_self, rfl, rfl⟩
      · exact ⟨r', List.mem_append_right _ (List.mem_cons_of_mem _ hr'), rfl, rfl⟩
      · exact ⟨row, List.mem_append_right _ List.mem_cons_self, userId.symm, familyId.symm⟩
    intro r hr r' hr' e
    obtain ⟨o, ho, huser, hfamily⟩ := origin r hr
    obtain ⟨o', ho', huser', hfamily'⟩ := origin r' hr'
    rw [← huser, ← huser', h.oneUser o ho o' ho' (by rw [hfamily, hfamily', e])]
  · intro f hf
    have known : f ∈ tokens.rows.map (·.familyId) := by
      rw [rows'] at hf
      rw [rows]
      simpa [familyId, or_comm, or_assoc, or_left_comm] using hf
    have one := h.oneUnused f known
    rw [rows] at one
    rw [rows']
    simpa [List.countP_append, List.countP_cons, unused, fresh, familyId, Nat.add_assoc] using one
  · intro q
    have before := h.used q
    rw [rows] at before
    rw [rows', rotations_concat, commit, ← before]
    simp [List.countP_append, List.countP_cons, unused, fresh, shadows.2.1, shadows.2.2.2]
    omega

theorem revoke {targets : List TokenId} {now : Instant} (h : Chained tokens tr) :
    Chained (tokens.revokeRows targets now) tr := by
  have counts : ∀ Q : RefreshTokenRow → Bool,
      (∀ row, Q ((Assignment.revokedAt now).apply row) = Q row) →
      (tokens.revokeRows targets now).rows.countP Q = tokens.rows.countP Q := by
    intro Q hQ
    rw [RefreshTokenTable.revokeRows]
    refine List.countP_map.trans (List.countP_congr fun row _ => ?_)
    simp only [Function.comp_apply]
    split_ifs
    · rw [hQ]
    · rfl
  refine ⟨?_, ?_, ?_⟩
  · intro row hrow row' hrow' e
    obtain ⟨r, hr, -, huser, hfamily⟩ := RefreshTokenTable.origin_updateMany hrow
    obtain ⟨r', hr', -, huser', hfamily'⟩ := RefreshTokenTable.origin_updateMany hrow'
    rw [huser, huser', h.oneUser r hr r' hr' (by rw [← hfamily, ← hfamily', e])]
  · intro f hf
    obtain ⟨row, hrow, rfl⟩ := List.mem_map.1 hf
    obtain ⟨r, hr, -, -, hfamily⟩ := RefreshTokenTable.origin_updateMany hrow
    rw [counts _ fun row => rfl, hfamily]
    exact h.oneUnused _ (List.mem_map_of_mem hr)
  · intro q
    rw [counts _ fun row => rfl]
    exact h.used q

end Chained

/-- A step keeps the chains. -/
theorem chained_of_moves {tr : List (Step State Label)} (sound : Sound s) (m : Moves env s a s')
    (h : Chained s.tokens tr) : Chained s'.tokens (tr ++ [⟨s, a, s'⟩]) := by
  -- a step that commits no rotation adds nothing to the counts
  have quiet : ∀ {tokens}, rotated s a = none → Chained tokens tr →
      Chained tokens (tr ++ [⟨s, a, s'⟩]) := by
    intro tokens silent h
    refine ⟨h.oneUser, h.oneUnused, fun q => ?_⟩
    rw [rotations_concat, silent, h.used q]
    rfl
  rcases tokenMove_of_moves sound m with ⟨same, silent⟩ | ⟨p, draw, rfl, move⟩
  · rw [same]
    exact quiet silent h
  · generalize s'.tokens = tokens at move ⊢
    cases move with
    | login hp fresh save => exact quiet (by simp only [rotated, hp]) (h.login fresh save)
    | rotate row hp shadows unused _ familyId userId fresh save =>
      exact h.rotate shadows.1 unused familyId userId fresh.1 save (by simp only [rotated, hp]) shadows
    | revoke hp => exact quiet (by simp only [rotated, hp]) h.revoke

theorem chained_of_run {s₀ : State} {tr : List (Step State Label)} {C : State → Label → Prop}
    (start : (sessions env).start s₀) (run : (sessions env).Run C s₀ tr s) :
    Sound s ∧ Chained s.tokens tr := by
  refine run.trace_invariant (I := fun tr s => Sound s ∧ Chained s.tokens tr)
    (fun tr s a t h _ step => ?_) ⟨sound_of_start start, ?_⟩
  · have m : Moves env s a t := moves_of_next step
    exact ⟨sound_of_moves h.1 m, chained_of_moves h.1 m h.2⟩
  · have empty : s₀.tokens.rows = [] := start.1
    refine ⟨?_, ?_, fun q => ?_⟩ <;> simp [empty, rotations]

/-! ## Every session is a linear chain -/

theorem existsUnique_of_countP_eq_one {α : Type*} {l : List α} {P : α → Prop} [DecidablePred P]
    (h : l.countP (fun x => P x) = 1) : ∃! x, x ∈ l ∧ P x := by
  rw [List.countP_eq_length_filter, List.length_eq_one_iff] at h
  obtain ⟨x, hx⟩ := h
  have mem : ∀ y, y ∈ l ∧ P y ↔ y = x := fun y => by
    rw [← List.mem_singleton, ← hx, List.mem_filter, decide_eq_true_iff]
  exact ⟨x, (mem x).2 rfl, fun y hy => (mem y).1 hy⟩

/-- In every state that interleaved requests reach, a family has one user and exactly one unused row,
its used rows are as many as its committed rotations, and no token has been exchanged twice. -/
theorem sessions_are_linear_chains {s₀ : State} {tr : List (Step State Label)}
    (start : (sessions env).start s₀) (run : (sessions env).Run Any s₀ tr s) :
    (∀ f ∈ s.tokens.rows.map (·.familyId),
      (∃! userId, ∃ row ∈ s.tokens.rows, row.familyId = f ∧ row.userId = userId) ∧
      (∃! row, row ∈ s.tokens.rows ∧ row.familyId = f ∧ row.usedAt = none) ∧
      s.tokens.rows.countP (fun row => row.familyId = f ∧ row.usedAt ≠ none) =
        rotations (fun _ familyId => familyId = f) tr) ∧
    ∀ row ∈ s.tokens.rows,
      rotations (fun id _ => id = row.id) tr = if row.usedAt = none then 0 else 1 := by
  have h := (chained_of_run start run).2
  refine ⟨fun f hf => ⟨?_, ?_, ?_⟩, fun row hrow => ?_⟩
  · obtain ⟨row, hrow, rfl⟩ := List.mem_map.1 hf
    refine ⟨row.userId, ⟨row, hrow, rfl, rfl⟩, ?_⟩
    rintro _ ⟨r, hr, hfamily, rfl⟩
    exact h.oneUser r hr row hrow hfamily
  · exact existsUnique_of_countP_eq_one (h.oneUnused f hf)
  · simpa using h.used fun _ familyId => familyId = f
  · rw [← h.used]
    have one := s.tokens.id_unique.countP_key hrow fun r => decide (r.usedAt ≠ none)
    by_cases unused : row.usedAt = none
    · simpa [unused] using one
    · simpa [unused] using one

/-- Two submissions of one token at the same time: one of them is exchanged. -/
theorem sessions_are_linear_chains_race : ∃ tr s,
    (sessions taggedEnv).Run Any calm tr s ∧
    s.phase 2 = .done (.failed (.app .refreshTokenReused)) ∧
    s.tokens.rows.countP (fun row => row.familyId = 7 ∧ row.usedAt ≠ none) =
      rotations (fun _ familyId => familyId = 7) tr ∧
    ∃! row, row ∈ s.tokens.rows ∧ row.familyId = 7 ∧ row.usedAt = none := by
  have computed : ((sessions taggedEnv).exec (fun _ _ => true) calm (loginSteps 0 ⟨1, "t1", 7⟩ ++
      [.arrive 1 (.refreshTokens "t1"), .arrive 2 (.refreshTokens "t1"), go 1, go 2, go 1, go 2,
        go 1, .step 1 ⟨2, "t2", 8⟩, go 1, go 2])).map (fun s =>
      (decide (7 ∈ s.tokens.rows.map (·.familyId)), s.phase 2)) =
      some (true, .done (.failed (.app .refreshTokenReused))) := by decide
  obtain ⟨s, exec, facts⟩ := Option.map_eq_some_iff.1 computed
  obtain ⟨tr, run, -⟩ := exists_run_of_exec (C := Any) (fun _ _ _ => trivial) exec
  obtain ⟨known, lost⟩ := Prod.mk.inj facts
  obtain ⟨-, one, used⟩ :=
    (sessions_are_linear_chains (calm_start _) run).1 7 (of_decide_eq_true known)
  exact ⟨tr, s, run, lost, used, one⟩

end EstateServer.Auth
