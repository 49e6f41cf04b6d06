import Leetrank.Library.ReadCommitted
import Leetrank.Library.Threads

namespace Leetrank
set_option autoImplicit true

open EventMachine ReadCommitted Threads

/-- Instants and durations, in microseconds as the database keeps them. -/
abbrev Time := Int

def second : Time := 1000000
def minute : Time := 60 * second
def hour : Time := 60 * minute

def refreshTTL : Time := 30 * 24 * hour

abbrev TokenHash := String

/-- A row of `RefreshToken`, without its primary key `tokenHash`. -/
structure RefreshToken where
  userId : String
  expiresAt : Time
  createdAt : Time
  revokedAt : Option Time
  rotatedFrom : Option TokenHash

/-- The token can be rotated: it is neither revoked nor expired. -/
def RefreshToken.Live (r : RefreshToken) (now : Time) : Prop :=
  r.revokedAt = none ∧ now ≤ r.expiresAt

/-- The database as the key store uses it, and the clock. -/
structure KeyStore where
  tokens : Table TokenHash RefreshToken
  now : Time

def KeyStore.rollback (s : KeyStore) (tx : Nat) : KeyStore :=
  { s with tokens := s.tokens.rollback tx }

def KeyStore.commit (s : KeyStore) (tx : Nat) : KeyStore := { s with tokens := s.tokens.commit tx }

structure Rotated where
  newPlain : String
  userId : String
  expiresAt : Time

/-- The statements of `RotateRefresh`, with the start of its transaction, which is its `NOW()`. -/
inductive RotatePc where
  | begin
  | select (startedAt : Time)
  | update (startedAt : Time) (userId : String)
  | insert (startedAt : Time) (userId : String)
  | commit (rotated : Rotated)
  | returned (result : Except String Rotated)

/-- The tokens that a statement revokes: the given one, or those of a user. -/
inductive RevokeScope where
  | refresh (plain : String)
  | allForUser (userId : String)

/-- A revocation waits for locks on the rows that its snapshot covers. -/
inductive RevokePc where
  | execute
  | waiting (startedAt : Time) (covered : TokenHash → Bool)
  | returned (covered : TokenHash → Bool)
  | failed (err : String)

inductive IssuePc where
  | execute
  | returned (result : Except String String)

inductive KeyStoreCall where
  | issue (userId : String) (pc : IssuePc)
  | rotate (plain : String) (pc : RotatePc)
  | revoke (scope : RevokeScope) (pc : RevokePc)

inductive KeyStoreRequest where
  | issueRefresh (userId : String)
  | rotateRefresh (plain : String)
  | revokeRefresh (plain : String)
  | revokeAllForUser (userId : String)

/-- What decides how a statement goes on: nothing, the random value of a new token, an error that
the database or the deadline of the request raises, or a commit whose answer is lost. -/
inductive KeyStoreEvent where
  | proceed
  | random (plain : String)
  | fail (err : String)
  | lost (err : String)

section
variable (hashRefresh : String → TokenHash)

/-- `IssueRefresh` is one statement that commits by itself. -/
def issueStep (s : KeyStore) (userId : String) :
    IssuePc → KeyStoreEvent → Option (KeyStore × IssuePc)
  | .execute, .random plain =>
    let hash := hashRefresh plain
    if (s.tokens.pending hash).isSome then none
    else if (s.tokens.rows hash).isSome then
      some (s, .returned (.error "jwks: persist refresh: duplicate key"))
    else
      some ({ s with tokens := s.tokens.insertNow hash ⟨userId, s.now + refreshTTL, s.now, none, none⟩ },
        .returned (.ok plain))
  | .execute, .fail err => some (s, .returned (.error err))
  | _, _ => none

/-- The checks of `RotateRefresh` on the row that it selected. -/
def rotateCheck (now : Time) : Option RefreshToken → Except String String
  | none => .error "refresh token not recognised"
  | some r =>
    if r.revokedAt.isSome then .error "refresh token already used"
    else if r.expiresAt < now then .error "refresh token expired"
    else .ok r.userId

/-- The transaction of `RotateRefresh`; its `UPDATE` does not test `revokedAt` again. -/
def rotateStep (s : KeyStore) (tx : Nat) (plain : String) :
    RotatePc → KeyStoreEvent → Option (KeyStore × RotatePc)
  | .begin, .proceed => some (s, .select s.now)
  | .select t, .proceed =>
    match rotateCheck s.now (s.tokens.visible tx (hashRefresh plain)) with
    | .error err => some (s.rollback tx, .returned (.error err))
    | .ok userId => some (s, .update t userId)
  | .update t userId, .proceed =>
    (s.tokens.updateKey tx (hashRefresh plain) fun r => { r with revokedAt := some t }).map
      fun tokens => ({ s with tokens := tokens }, .insert t userId)
  | .insert t userId, .random plainNext =>
    let hashNext := hashRefresh plainNext
    if s.tokens.lockedFor tx hashNext then none
    else if (s.tokens.visible tx hashNext).isSome then
      some (s.rollback tx, .returned (.error "duplicate key"))
    else
      let expiresAt := s.now + refreshTTL
      let row : RefreshToken := ⟨userId, expiresAt, t, none, some (hashRefresh plain)⟩
      some ({ s with tokens := s.tokens.write tx hashNext row }, .commit ⟨plainNext, userId, expiresAt⟩)
  | .commit rotated, .proceed => some (s.commit tx, .returned (.ok rotated))
  | .commit _, .lost err => some (s.commit tx, .returned (.error err))
  | .returned _, _ => none
  | _, .fail err => some (s.rollback tx, .returned (.error err))
  | _, _ => none

/-- The steps of a rotation. -/
inductive RotateStep (s : KeyStore) (tx : Nat) (plain : String) :
    RotatePc → KeyStoreEvent → KeyStore → RotatePc → Prop where
  | begin : RotateStep s tx plain .begin .proceed s (.select s.now)
  | refuse (h : rotateCheck s.now (s.tokens.visible tx (hashRefresh plain)) = .error err) :
    RotateStep s tx plain (.select t) .proceed (s.rollback tx) (.returned (.error err))
  | select (h : rotateCheck s.now (s.tokens.visible tx (hashRefresh plain)) = .ok userId) :
    RotateStep s tx plain (.select t) .proceed s (.update t userId)
  | updateNone (h : s.tokens.visible tx (hashRefresh plain) = none) :
    RotateStep s tx plain (.update t userId) .proceed s (.insert t userId)
  | update (h : s.tokens.visible tx (hashRefresh plain) = some r)
      (hl : s.tokens.lockedFor tx (hashRefresh plain) = false) :
    RotateStep s tx plain (.update t userId) .proceed
      { s with tokens := s.tokens.write tx (hashRefresh plain) { r with revokedAt := some t } }
      (.insert t userId)
  | insert (hl : s.tokens.lockedFor tx (hashRefresh plainNext) = false)
      (hv : s.tokens.visible tx (hashRefresh plainNext) = none) :
    RotateStep s tx plain (.insert t userId) (.random plainNext)
      ⟨s.tokens.write tx (hashRefresh plainNext)
        ⟨userId, s.now + refreshTTL, t, none, some (hashRefresh plain)⟩, s.now⟩
      (.commit ⟨plainNext, userId, s.now + refreshTTL⟩)
  | commit : RotateStep s tx plain (.commit rotated) e (s.commit tx) (.returned result)
  | fail : RotateStep s tx plain pc e (s.rollback tx) (.returned (.error err))

theorem rotateStep_cases (h : rotateStep hashRefresh s tx plain pc e = some (s', pc')) :
    RotateStep hashRefresh s tx plain pc e s' pc' := by
  unfold rotateStep at h
  split at h
  next => -- begin
    cases h
    exact .begin
  next => -- select
    split at h
    next err herr =>
      cases h
      exact .refuse herr
    next userId hok =>
      cases h
      exact .select hok
  next => -- update
    obtain ⟨tokens, ht, he⟩ := Option.map_eq_some_iff.1 h
    cases he
    obtain ⟨hv, rfl⟩ | ⟨r, hv, hl, rfl⟩ := Table.updateKey_cases ht
    · exact .updateNone hv
    · exact .update hv hl
  next => -- insert
    dsimp only at h
    split at h
    next => cases h
    next hl =>
      split at h
      next =>
        cases h
        exact .fail
      next hv =>
        cases h
        exact .insert (Bool.not_eq_true _ ▸ hl) (Option.not_isSome_iff_eq_none.1 hv)
  next => -- commit
    cases h
    exact .commit
  next => -- commit, and its answer is lost
    cases h
    exact .commit
  next => cases h
  next => -- a statement fails
    cases h
    exact .fail
  next => cases h

/-- The `WHERE` of a revocation. -/
def RevokeScope.covers : RevokeScope → TokenHash → RefreshToken → Bool
  | .refresh plain, hash, r => hash == hashRefresh plain && r.revokedAt.isNone
  | .allForUser userId, _, r => r.userId == userId && r.revokedAt.isNone

def revokeRows (tokens : Table TokenHash RefreshToken) (t : Time) (covered : TokenHash → Bool) :
    Table TokenHash RefreshToken :=
  tokens.updateWhere (fun hash r => covered hash && r.revokedAt.isNone) fun r =>
    { r with revokedAt := some t }

/-- `RevokeRefresh` and `RevokeAllForUser`: one statement over the rows that its snapshot covers. If
one of them is locked, it waits and then tests the rows again. -/
def revokeStep (s : KeyStore) (scope : RevokeScope) :
    RevokePc → KeyStoreEvent → Option (KeyStore × RevokePc)
  | .execute, .proceed =>
    let covered := fun hash => (s.tokens.rows hash).any (scope.covers hashRefresh hash)
    if s.tokens.blocked fun hash _ => covered hash then some (s, .waiting s.now covered)
    else some ({ s with tokens := revokeRows s.tokens s.now covered }, .returned covered)
  | .waiting t covered, .proceed =>
    if s.tokens.blocked fun hash _ => covered hash then none
    else some ({ s with tokens := revokeRows s.tokens t covered }, .returned covered)
  | .execute, .fail err | .waiting _ _, .fail err => some (s, .failed err)
  | _, _ => none

def keyStoreStep (s : KeyStore) (tx : Nat) :
    KeyStoreCall → KeyStoreEvent → Option (KeyStore × KeyStoreCall)
  | .issue userId pc, e =>
    (issueStep hashRefresh s userId pc e).map fun (s, pc) => (s, .issue userId pc)
  | .rotate plain pc, e =>
    (rotateStep hashRefresh s tx plain pc e).map fun (s, pc) => (s, .rotate plain pc)
  | .revoke scope pc, e =>
    (revokeStep hashRefresh s scope pc e).map fun (s, pc) => (s, .revoke scope pc)

def KeyStoreRequest.start : KeyStoreRequest → KeyStoreCall
  | .issueRefresh userId => .issue userId .execute
  | .rotateRefresh plain => .rotate plain .begin
  | .revokeRefresh plain => .revoke (.refresh plain) .execute
  | .revokeAllForUser userId => .revoke (.allForUser userId) .execute

def keyStoreProgram : Program KeyStore KeyStoreCall KeyStoreRequest Nat KeyStoreEvent where
  start := fun _ request => request.start
  ambient := fun s elapsed => { s with now := s.now + elapsed }
  step := keyStoreStep hashRefresh

/-- Any number of calls over a table of refresh tokens that was empty at first. -/
def keyStore : Machine (World KeyStore KeyStoreCall) (Event KeyStoreRequest Nat KeyStoreEvent) :=
  (keyStoreProgram hashRefresh).machine fun s => s.tokens = .ofRows fun _ => none

end

def plain₀ : String := "AAAAAAAAAAAAAAAAAAAAAAAAAAAAAAAAAAAAAAAAAAA"
def plain₁ : String := "AQEBAQEBAQEBAQEBAQEBAQEBAQEBAQEBAQEBAQEBAQE"
def plain₂ : String := "AgICAgICAgICAgICAgICAgICAgICAgICAgICAgICAgI"

/-- The hashes of these tokens. -/
def hashTable (plain : String) : TokenHash :=
  if plain = plain₀ then "DwBzhbb51LfusnSGBa_hqYSgo7-j8BTQnip4TOnlzRo"
  else if plain = plain₁ then "VtX6czP210fbQsI5QH5dpMMvTHnzXQkrE0_TWkAtnFw"
  else "bB1ju9q0N8VDaMu9iIaohqea2XcpfiZe6_H19fAVM7k"

end Leetrank
