import EstateServer.Auth.Domain
import EstateServer.Library.Table
import Mathlib.Data.List.Dedup

/-!
# The tables of the auth context and the queries on them

`PrismaUserRepository` and `PrismaRefreshTokenRepository`, one definition for each query.  The
tables carry their unique constraints, so a statement that would break one is not a statement of
the model: `save` fails instead.

Where the source passes a user id into a filter, the id is optional here: `none` is `undefined`,
which Prisma does not filter by (`Prisma.whereEq`).
-/

namespace EstateServer.Auth

/-- A row of `User`. -/
structure UserRow extends User where
  deletedAt : Option Instant
  deriving DecidableEq, Repr

/-- A row of `RefreshToken`. -/
structure RefreshTokenRow extends RefreshToken where
  createdAt : Instant
  deriving DecidableEq, Repr

/-- `SessionSummary`: a line of the list of sessions. -/
structure SessionSummary where
  familyId : FamilyId
  createdAt : Instant
  deriving DecidableEq, Repr

@[ext]
structure UserTable where
  rows : List UserRow
  id_unique : Table.Unique (·.id) rows
  email_unique : Table.Unique (·.email) rows

structure RefreshTokenTable where
  rows : List RefreshTokenRow
  id_unique : Table.Unique (·.id) rows
  tokenHash_unique : Table.Unique (·.tokenHash) rows

/-! ## `PrismaUserRepository` -/

namespace UserTable

variable (users : UserTable)

def findByEmail (email : String) : Option User :=
  (users.rows.find? fun row => row.email = email ∧ row.deletedAt = none).map (·.toUser)

/-- The row that `findById` asks for. -/
def findRow (id : Option UserId) : Option UserRow :=
  users.rows.find? fun row => Prisma.whereEq id row.id ∧ row.deletedAt = none

def findById (id : Option UserId) : Option User := (users.findRow id).map (·.toUser)

/-- `update` writes the name and the password hash of the row together; the count is `0` when the
row is gone (`P2025`). -/
def update (user : User) : UserTable × ℕ :=
  let statement := Table.updateMany (·.id = user.id)
    (fun row => { row with name := user.name, passwordHash := user.passwordHash }) users.rows
  ({ rows := statement.1
     id_unique := users.id_unique.updateMany fun _ => rfl
     email_unique := users.email_unique.updateMany fun _ => rfl }, statement.2)

end UserTable

/-! ## `PrismaRefreshTokenRepository` -/

/-- The filter of a revocation. -/
inductive Scope
  | family (familyId : FamilyId)
  | user (userId : Option UserId)
  deriving DecidableEq, Repr

def Scope.covers : Scope → RefreshTokenRow → Bool
  | family familyId, row => row.familyId = familyId
  | user userId, row => Prisma.whereEq userId row.userId

/-- The assignment of an `UPDATE`. -/
inductive Assignment
  | usedAt (t : Instant)
  | revokedAt (t : Instant)
  deriving DecidableEq, Repr

def Assignment.apply : Assignment → RefreshTokenRow → RefreshTokenRow
  | usedAt t, row => { row with usedAt := some t }
  | revokedAt t, row => { row with revokedAt := some t }

section

variable (set : Assignment) (row : RefreshTokenRow)

@[simp] theorem Assignment.apply_id : (set.apply row).id = row.id := by cases set <;> rfl

@[simp] theorem Assignment.apply_userId : (set.apply row).userId = row.userId := by
  cases set <;> rfl

@[simp] theorem Assignment.apply_tokenHash : (set.apply row).tokenHash = row.tokenHash := by
  cases set <;> rfl

@[simp] theorem Assignment.apply_familyId : (set.apply row).familyId = row.familyId := by
  cases set <;> rfl

end

namespace RefreshTokenTable

variable (tokens : RefreshTokenTable)

/-- `updateMany`: the table afterwards, and how many rows changed. -/
def updateMany (p : RefreshTokenRow → Bool) (set : Assignment) : RefreshTokenTable × ℕ :=
  let statement := Table.updateMany p set.apply tokens.rows
  ({ rows := statement.1
     id_unique := tokens.id_unique.updateMany set.apply_id
     tokenHash_unique := tokens.tokenHash_unique.updateMany set.apply_tokenHash }, statement.2)

/-- `save`: an `INSERT`, which the unique constraints may refuse (`P2002`). -/
def save (token : RefreshToken) (now : Instant) : Option RefreshTokenTable :=
  let row : RefreshTokenRow := { token with createdAt := now }
  if h : row.id ∉ tokens.rows.map (·.id) ∧ row.tokenHash ∉ tokens.rows.map (·.tokenHash) then
    some
      { rows := tokens.rows ++ [row]
        id_unique := tokens.id_unique.concat h.1
        tokenHash_unique := tokens.tokenHash_unique.concat h.2 }
  else none

def findByHash (tokenHash : TokenHash) : Option RefreshToken :=
  (tokens.rows.find? fun row => row.tokenHash = tokenHash).map (·.toRefreshToken)

/-- Compare-and-set on `usedAt`. -/
def markUsed (id : TokenId) (usedAt : Instant) : RefreshTokenTable × ℕ :=
  tokens.updateMany (fun row => row.id = id ∧ row.usedAt = none) (.usedAt usedAt)

/-- A revocation leaves the rows that are already revoked alone: their first `revokedAt` stays. -/
def revoke (scope : Scope) (revokedAt : Instant) : RefreshTokenTable × ℕ :=
  tokens.updateMany (fun row => scope.covers row ∧ row.revokedAt = none) (.revokedAt revokedAt)

def revokeFamily (familyId : FamilyId) (revokedAt : Instant) : RefreshTokenTable × ℕ :=
  tokens.revoke (.family familyId) revokedAt

def revokeAllByUser (userId : Option UserId) (revokedAt : Instant) : RefreshTokenTable × ℕ :=
  tokens.revoke (.user userId) revokedAt

/-- The rows that `findActiveFamilies` asks for first. -/
def findActive (userId : Option UserId) (now : Instant) : List RefreshTokenRow :=
  tokens.rows.filter fun row => Prisma.whereEq userId row.userId ∧ row.usedAt = none ∧
    row.revokedAt = none ∧ now < row.expiresAt

/-- The families with an active row, each with the time of its first row, newest first (the database
chooses the order of families of one instant; here it is that of the table). -/
def findActiveFamilies (userId : Option UserId) (now : Instant) : List SessionSummary :=
  let familyIds := (tokens.findActive userId now).map (·.familyId)
  let grouped := tokens.rows.filter fun row =>
    Prisma.whereEq userId row.userId ∧ row.familyId ∈ familyIds
  let summaries := (grouped.map (·.familyId)).dedup.filterMap fun familyId =>
    ((grouped.filter (·.familyId = familyId)).map (·.createdAt)).min?.map fun createdAt =>
      { familyId, createdAt }
  summaries.mergeSort fun a b => b.createdAt ≤ a.createdAt

/-- The row that `findFamilyOwner` asks for. -/
def findFamilyRow (familyId : FamilyId) : Option RefreshTokenRow :=
  tokens.rows.find? (·.familyId = familyId)

def findFamilyOwner (familyId : FamilyId) : Option UserId :=
  (tokens.findFamilyRow familyId).map (·.userId)

end RefreshTokenTable

section

variable {users : UserTable} {id : UserId}

theorem UserTable.findById_eq_some {user : User} : users.findById (some id) = some user ↔
    ∃ row ∈ users.rows, row.id = id ∧ row.deletedAt = none ∧ row.toUser = user := by
  simp only [findById, findRow, Prisma.whereEq_some, decide_eq_true_eq, Option.map_eq_some_iff]
  rw [exists_congr fun row => and_congr_left' (Table.find?_iff ?_)]
  · simp only [decide_eq_true_eq, and_assoc]
  · intro r hr r' hr' h h'
    exact users.id_unique.eq_of_mem hr hr'
      ((of_decide_eq_true h).1.trans (of_decide_eq_true h').1.symm)

theorem UserTable.count_update_eq_zero {user : User} :
    (users.update user).2 = 0 ↔ ∀ row ∈ users.rows, row.id ≠ user.id := by
  simp [update, Table.updateMany]

/-- Two updates that set the columns of the row alike. -/
theorem UserTable.update_congr {user user' : User} (hid : user.id = user'.id)
    (h : ∀ row ∈ users.rows, row.id = user.id →
      user.name = user'.name ∧ user.passwordHash = user'.passwordHash) :
    (users.update user).1 = (users.update user').1 := by
  refine UserTable.ext (List.map_congr_left fun row hrow => ?_)
  rw [← hid]
  split_ifs with hit
  · obtain ⟨name, hash⟩ := h row hrow (of_decide_eq_true hit)
    rw [name, hash]
  · rfl

theorem UserTable.findById_eq_none : users.findById (some id) = none ↔
    ∀ row ∈ users.rows, row.id = id → row.deletedAt ≠ none := by
  simp [findById, findRow]

end

/-! ## What the statements keep

No statement deletes a row of `RefreshToken`, changes anything but the two timestamps of a row, or
changes a timestamp that is set. -/

/-- `row'` is a later version of `row`. -/
structure RefreshTokenRow.Evolves (row row' : RefreshTokenRow) : Prop where
  id : row'.id = row.id
  userId : row'.userId = row.userId
  tokenHash : row'.tokenHash = row.tokenHash
  familyId : row'.familyId = row.familyId
  expiresAt : row'.expiresAt = row.expiresAt
  createdAt : row'.createdAt = row.createdAt
  usedAt : ∀ t, row.usedAt = some t → row'.usedAt = some t
  revokedAt : ∀ t, row.revokedAt = some t → row'.revokedAt = some t

namespace RefreshTokenRow.Evolves

theorem refl (row : RefreshTokenRow) : row.Evolves row :=
  ⟨rfl, rfl, rfl, rfl, rfl, rfl, fun _ h => h, fun _ h => h⟩

theorem trans {a b c : RefreshTokenRow} (h : a.Evolves b) (h' : b.Evolves c) : a.Evolves c :=
  ⟨h'.id.trans h.id, h'.userId.trans h.userId, h'.tokenHash.trans h.tokenHash,
    h'.familyId.trans h.familyId, h'.expiresAt.trans h.expiresAt, h'.createdAt.trans h.createdAt,
    fun _ e => h'.usedAt _ (h.usedAt _ e), fun _ e => h'.revokedAt _ (h.revokedAt _ e)⟩

end RefreshTokenRow.Evolves

theorem RefreshTokenRow.evolves_setRevoked (row : RefreshTokenRow) (t : Instant)
    (unrevoked : row.revokedAt = none) : row.Evolves ((Assignment.revokedAt t).apply row) :=
  ⟨rfl, rfl, rfl, rfl, rfl, rfl, fun _ e => e,
    fun _ e => absurd (unrevoked.symm.trans e) (by simp)⟩

/-- Every row of `tokens` is in `tokens'`, in a later version. -/
def Evolve (tokens tokens' : RefreshTokenTable) : Prop :=
  ∀ row ∈ tokens.rows, ∃ row' ∈ tokens'.rows, row.Evolves row'

section

variable {tokens tokens' tokens'' : RefreshTokenTable} {row : RefreshTokenRow}

theorem Evolve.refl (tokens : RefreshTokenTable) : Evolve tokens tokens :=
  fun row h => ⟨row, h, .refl row⟩

theorem Evolve.trans (h : Evolve tokens tokens') (h' : Evolve tokens' tokens'') :
    Evolve tokens tokens'' := by
  intro row hrow
  obtain ⟨row', hrow', e⟩ := h row hrow
  obtain ⟨row'', hrow'', e'⟩ := h' row' hrow'
  exact ⟨row'', hrow'', e.trans e'⟩

namespace RefreshTokenTable

variable {p : RefreshTokenRow → Bool} {set : Assignment}

theorem mem_updateMany : row ∈ (tokens.updateMany p set).1.rows ↔
    ∃ row₀ ∈ tokens.rows, (if p row₀ then set.apply row₀ else row₀) = row :=
  Table.mem_updateMany

/-- An update writes no row anew: each comes from one of the same user and family. -/
theorem origin_updateMany (h : row ∈ (tokens.updateMany p set).1.rows) :
    ∃ row₀ ∈ tokens.rows, row.id = row₀.id ∧ row.userId = row₀.userId ∧
      row.familyId = row₀.familyId := by
  obtain ⟨row₀, hrow₀, rfl⟩ := mem_updateMany.1 h
  refine ⟨row₀, hrow₀, ?_⟩
  split_ifs
  · exact ⟨set.apply_id row₀, set.apply_userId row₀, set.apply_familyId row₀⟩
  · exact ⟨rfl, rfl, rfl⟩

theorem evolve_updateMany (h : ∀ row, p row = true → row.Evolves (set.apply row)) :
    Evolve tokens (tokens.updateMany p set).1 := by
  intro row hrow
  refine ⟨_, mem_updateMany.2 ⟨row, hrow, rfl⟩, ?_⟩
  split_ifs with hp
  · exact h row hp
  · exact .refl row

theorem count_markUsed_eq_zero {id : TokenId} {t : Instant} : (tokens.markUsed id t).2 = 0 ↔
    ∀ row ∈ tokens.rows, row.id = id → row.usedAt ≠ none := by
  refine (Table.count_updateMany_eq_zero (f := Assignment.apply (.usedAt t))).trans ?_
  simp

theorem evolve_markUsed (id : TokenId) (t : Instant) : Evolve tokens (tokens.markUsed id t).1 := by
  refine evolve_updateMany fun row hp => ?_
  obtain ⟨-, unused⟩ := of_decide_eq_true hp
  exact ⟨rfl, rfl, rfl, rfl, rfl, rfl, fun _ e => absurd (unused.symm.trans e) (by simp),
    fun _ e => e⟩

theorem evolve_revoke (scope : Scope) (t : Instant) : Evolve tokens (tokens.revoke scope t).1 := by
  refine evolve_updateMany fun row hp => ?_
  obtain ⟨-, unrevoked⟩ := of_decide_eq_true hp
  exact row.evolves_setRevoked t unrevoked

theorem save_eq_some {token : RefreshToken} {t : Instant} (h : tokens.save token t = some tokens') :
    tokens'.rows = tokens.rows ++ [{ token with createdAt := t }] := by
  simp only [save, Option.dite_none_right_eq_some, Option.some.injEq] at h
  obtain ⟨_, rfl⟩ := h
  rfl

theorem evolve_save {token : RefreshToken} {t : Instant} (h : tokens.save token t = some tokens') :
    Evolve tokens tokens' := by
  intro row hrow
  exact ⟨row, by rw [save_eq_some h]; exact List.mem_append_left _ hrow, .refl row⟩

theorem findByHash_eq_some {tokenHash : TokenHash} {found : RefreshToken} :
    tokens.findByHash tokenHash = some found ↔
      ∃ row ∈ tokens.rows, row.tokenHash = tokenHash ∧ row.toRefreshToken = found := by
  simp only [findByHash, Option.map_eq_some_iff, tokens.tokenHash_unique.find?_iff, and_assoc]

theorem findByHash_eq_none {tokenHash : TokenHash} :
    tokens.findByHash tokenHash = none ↔ ∀ row ∈ tokens.rows, row.tokenHash ≠ tokenHash := by
  simp [findByHash]

theorem eq_of_id {row row' : RefreshTokenRow} (h : row ∈ tokens.rows) (h' : row' ∈ tokens.rows)
    (e : row.id = row'.id) : row = row' :=
  tokens.id_unique.eq_of_mem h h' e

theorem eq_of_tokenHash {row row' : RefreshTokenRow} (h : row ∈ tokens.rows)
    (h' : row' ∈ tokens.rows) (e : row.tokenHash = row'.tokenHash) : row = row' :=
  tokens.tokenHash_unique.eq_of_mem h h' e

end RefreshTokenTable

/-! ## Families that are locked out -/

/-- The family has rows, and those that are not revoked are among `targets`. -/
structure Covered (f : FamilyId) (targets : List TokenId) (tokens : RefreshTokenTable) : Prop where
  known : f ∈ tokens.rows.map (·.familyId)
  covered : ∀ row ∈ tokens.rows, row.familyId = f → row.revokedAt = none → row.id ∈ targets

/-- The family has rows, and all of them are revoked. -/
abbrev Locked (f : FamilyId) (tokens : RefreshTokenTable) : Prop := Covered f [] tokens

variable {f : FamilyId} {targets : List TokenId}

theorem Locked.revoked (locked : Locked f tokens) (hrow : row ∈ tokens.rows) (hf : row.familyId = f) :
    row.revokedAt ≠ none :=
  fun unrevoked => List.not_mem_nil (locked.covered row hrow hf unrevoked)

theorem Evolve.known (h : Evolve tokens tokens') (known : f ∈ tokens.rows.map (·.familyId)) :
    f ∈ tokens'.rows.map (·.familyId) := by
  obtain ⟨row, hrow, rfl⟩ := List.mem_map.1 known
  obtain ⟨row', hrow', later⟩ := h row hrow
  exact List.mem_map.2 ⟨row', hrow', later.familyId⟩

theorem Covered.updateMany {p : RefreshTokenRow → Bool} {set : Assignment}
    (h : Covered f targets tokens) : Covered f targets (tokens.updateMany p set).1 := by
  refine ⟨?_, fun row hrow hf unrevoked => ?_⟩
  · rw [show (tokens.updateMany p set).1.rows.map (·.familyId) = tokens.rows.map (·.familyId) from
      Table.map_updateMany set.apply_familyId]
    exact h.known
  · obtain ⟨row₀, hrow₀, rfl⟩ := RefreshTokenTable.mem_updateMany.1 hrow
    split_ifs at hf unrevoked ⊢
    · rw [Assignment.apply_familyId] at hf
      rw [Assignment.apply_id]
      cases set with
      | usedAt t => exact h.covered row₀ hrow₀ hf unrevoked
      | revokedAt t => cases unrevoked
    · exact h.covered row₀ hrow₀ hf unrevoked

theorem Covered.save {token : RefreshToken} {t : Instant} (h : Covered f targets tokens)
    (save : tokens.save token t = some tokens') (other : token.familyId ≠ f) :
    Covered f targets tokens' := by
  refine ⟨(RefreshTokenTable.evolve_save save).known h.known, fun row hrow hf unrevoked => ?_⟩
  rw [RefreshTokenTable.save_eq_some save, List.mem_append, List.mem_singleton] at hrow
  rcases hrow with hrow | rfl
  · exact h.covered row hrow hf unrevoked
  · exact absurd hf other

end

end EstateServer.Auth
