import Leetrank.Auth.PasswordReset

namespace Leetrank
set_option autoImplicit true

open EventMachine ReadCommitted Threads

/-- A row of `EmailVerificationToken` has the columns of a `PasswordResetToken`. -/
abbrev EmailVerificationToken := PasswordResetToken

/-- What a verification reads and writes of a row of `User`. -/
structure VerifiedUser where
  emailVerified : Bool
  updatedAt : Time

/-- A verification that was committed: the token, its user, and when the token was checked. -/
structure Verification where
  token : TokenHash
  userId : String
  checkedAt : Time

/-- The two tables, the clock, and the verifications committed so far, the last one first. -/
structure VerificationStore where
  tokens : Table TokenHash EmailVerificationToken
  users : Table String VerifiedUser
  now : Time
  verifications : List Verification

def VerificationStore.rollback (s : VerificationStore) (tx : Nat) : VerificationStore :=
  { s with tokens := s.tokens.rollback tx, users := s.users.rollback tx }

def VerificationStore.commit (s : VerificationStore) (tx : Nat) (v : Verification) :
    VerificationStore where
  tokens := s.tokens.commit tx
  users := s.users.commit tx
  now := s.now
  verifications := v :: s.verifications

def emailVerifyTTL : Time := 24 * hour

/-- The statements of `verifyEmail`, with the start of the transaction, which is its `NOW()`. -/
inductive VerifyPc where
  | begin
  | select (startedAt : Time)
  | consume (startedAt checkedAt : Time) (userId : String)
  | setVerified (startedAt checkedAt : Time) (userId : String)
  | commit (checkedAt : Time) (userId : String)
  | returned (response : ResetResponse)

/-- The steps of `issueEmailVerification`, which returns the token that it has stored. -/
inductive IssueVerificationPc where
  | newOpaqueToken
  | insert (plain : String) (expiresAt : Time)
  | returned (plain : Option String)

inductive VerificationCall where
  | verify (token : String) (pc : VerifyPc)
  | issue (userId : String) (pc : IssueVerificationPc)

/-- A request to verify, whose body is `none` if it is no JSON, or the issue of a token for the user
of a session or of a registration. -/
inductive VerificationRequest where
  | verify (body : Option String)
  | issue (userId : String)

/-- What decides how a statement goes on: nothing, the token that is drawn, an error, or an effect
whose answer is lost. -/
inductive VerificationEvent where
  | proceed
  | drawn (plain : String)
  | fail
  | lost

/-- The checks before the transaction. -/
def verifyRequestError : Option String → Option ResetResponse
  | none => some ⟨400, .error "invalid JSON body"⟩
  | some token => if trimSpace token = "" then some ⟨400, .error "token required"⟩ else none

def verificationStart : VerificationRequest → VerificationCall
  | .verify body =>
    .verify (trimSpace (body.getD "")) ((verifyRequestError body).elim .begin .returned)
  | .issue userId => .issue userId .newOpaqueToken

section
variable (hashOpaqueToken : String → TokenHash)

/-- The transaction of `verifyEmail`; its `UPDATE` of the token does not test `usedAt` again. -/
def verifyStep (s : VerificationStore) (tx : Nat) (token : String) :
    VerifyPc → VerificationEvent → Option (VerificationStore × VerifyPc)
  | .begin, .proceed => some (s, .select s.now)
  | .select t, .proceed =>
    match validResetToken s.now (s.tokens.visible tx (hashOpaqueToken token)) with
    | none => some (s.rollback tx, .returned invalidToken)
    | some userId => some (s, .consume t s.now userId)
  | .select _, .fail => some (s.rollback tx, .returned invalidToken)
  | .consume t checkedAt userId, .proceed =>
    (s.tokens.updateKey tx (hashOpaqueToken token) fun r => { r with usedAt := some t }).map
      fun tokens => ({ s with tokens := tokens }, .setVerified t checkedAt userId)
  | .setVerified t checkedAt userId, .proceed =>
    (s.users.updateKey tx userId fun _ => ⟨true, t⟩).map
      fun users => ({ s with users := users }, .commit checkedAt userId)
  | .commit checkedAt userId, .proceed =>
    some (s.commit tx ⟨hashOpaqueToken token, userId, checkedAt⟩, .returned resetOk)
  | .commit checkedAt userId, .lost =>
    some (s.commit tx ⟨hashOpaqueToken token, userId, checkedAt⟩, .returned internalError)
  | .returned _, _ => none
  | _, .fail => some (s.rollback tx, .returned internalError)
  | _, _ => none

/-- The `INSERT` of `issueEmailVerification` commits by itself; a hash that is taken violates the
primary key. -/
def issueVerificationStep (s : VerificationStore) (userId : String) :
    IssueVerificationPc → VerificationEvent → Option (VerificationStore × IssueVerificationPc)
  | .newOpaqueToken, .drawn plain => some (s, .insert plain (s.now + emailVerifyTTL))
  | .insert plain expiresAt, .proceed =>
    match s.tokens.rows (hashOpaqueToken plain) with
    | some _ => some (s, .returned none)
    | none =>
      let tokens := s.tokens.insertNow (hashOpaqueToken plain) ⟨userId, expiresAt, none⟩
      some ({ s with tokens := tokens }, .returned (some plain))
  | .insert plain expiresAt, .lost =>
    match s.tokens.rows (hashOpaqueToken plain) with
    | some _ => some (s, .returned none)
    | none =>
      let tokens := s.tokens.insertNow (hashOpaqueToken plain) ⟨userId, expiresAt, none⟩
      some ({ s with tokens := tokens }, .returned none)
  | .newOpaqueToken, .fail | .insert _ _, .fail => some (s, .returned none)
  | _, _ => none

def verificationStep (s : VerificationStore) (i : Nat) (call : VerificationCall)
    (e : VerificationEvent) : Option (VerificationStore × VerificationCall) :=
  match call with
  | .verify token pc =>
    (verifyStep hashOpaqueToken s i token pc e).map fun (s, pc) => (s, .verify token pc)
  | .issue userId pc =>
    (issueVerificationStep hashOpaqueToken s userId pc e).map fun (s, pc) => (s, .issue userId pc)

def verificationProgram :
    Program VerificationStore VerificationCall VerificationRequest Nat VerificationEvent where
  start := fun _ req => verificationStart req
  ambient := fun s elapsed => { s with now := s.now + elapsed }
  step := verificationStep hashOpaqueToken

end

/-- No transaction is open, and the tokens that are used have verified their users. -/
structure VerificationStart (s : VerificationStore) : Prop where
  tokens : ∀ k, s.tokens.pending k = none
  users : ∀ u, s.users.pending u = none
  verifications : s.verifications = []
  used : ∀ k r row, s.tokens.rows k = some r → r.usedAt.isSome = true →
    s.users.rows r.userId = some row → row.emailVerified = true

/-- Any number of verifications and of tokens being issued. -/
def emailVerification (hashOpaqueToken : String → TokenHash) :
    Machine (World VerificationStore VerificationCall)
      (Event VerificationRequest Nat VerificationEvent) :=
  (verificationProgram hashOpaqueToken).machine VerificationStart

def VerificationStore.IsVerified (s : VerificationStore) (u : String) : Prop :=
  ∃ row, s.users.rows u = some row ∧ row.emailVerified = true

/-- The token is in the table, used, and was no older than it may be when it was checked. -/
def Verification.Backed (s : VerificationStore) (v : Verification) : Prop :=
  ∃ r, s.tokens.rows v.token = some r ∧ r.userId = v.userId ∧ v.checkedAt ≤ r.expiresAt ∧
    r.usedAt.isSome = true

/-- The versions that transactions have written, and the rows: users become verified by a
verification only, and together with the use of its token. -/
structure SoundStore (verified₀ : String → Prop) (s : VerificationStore) : Prop where
  tokens : ∀ k t r, s.tokens.pending k = some (t, r) →
    ∃ r₀, s.tokens.rows k = some r₀ ∧ r.userId = r₀.userId ∧ r.expiresAt = r₀.expiresAt ∧
      r.usedAt.isSome = true
  users : ∀ u t row, s.users.pending u = some (t, row) →
    s.users.rows u ≠ none ∧ row.emailVerified = true
  backed : ∀ v ∈ s.verifications, v.Backed s
  verified : ∀ u row, s.users.rows u = some row → row.emailVerified = true →
    verified₀ u ∨ ∃ v ∈ s.verifications, v.userId = u
  used : ∀ k r row, s.tokens.rows k = some r → r.usedAt.isSome = true →
    s.users.rows r.userId = some row → row.emailVerified = true

/-- Tokens keep their users and their times, and no user appears. -/
structure VerificationStore.Later (s s' : VerificationStore) : Prop where
  tokens : ∀ k r, s.tokens.rows k = some r → ∃ r', s'.tokens.rows k = some r' ∧
    r'.userId = r.userId ∧ r'.expiresAt = r.expiresAt
  users : ∀ u, s'.users.rows u = none ↔ s.users.rows u = none

/-- The token was one of the user, and valid, when it was checked. -/
def CheckedToken (s : VerificationStore) (p : TokenHash) (checkedAt : Time) (userId : String) :
    Prop :=
  ∃ r, s.tokens.rows p = some r ∧ r.userId = userId ∧ checkedAt ≤ r.expiresAt

/-- The transaction has written nothing for the user, who does not exist, or the user's row. -/
def WroteUser (s : VerificationStore) (tx : Nat) (userId : String) : Prop :=
  s.users.Wrote tx [] ∧ s.users.rows userId = none ∨ ∃ row, s.users.Wrote tx [(userId, row)]

/-- What the transaction of a verification has done so far, and what it has found. -/
def VerifyOwns (s : VerificationStore) (tx : Nat) (p : TokenHash) : VerifyPc → Prop
  | .begin | .select _ | .returned _ => s.tokens.Wrote tx [] ∧ s.users.Wrote tx []
  | .consume _ checkedAt userId =>
    (s.tokens.Wrote tx [] ∧ s.users.Wrote tx []) ∧ CheckedToken s p checkedAt userId
  | .setVerified _ checkedAt userId =>
    ((∃ r, s.tokens.Wrote tx [(p, r)]) ∧ s.users.Wrote tx []) ∧ CheckedToken s p checkedAt userId
  | .commit checkedAt userId =>
    ((∃ r, s.tokens.Wrote tx [(p, r)]) ∧ WroteUser s tx userId) ∧ CheckedToken s p checkedAt userId

/-- What the steps of one thread leave to the others. -/
structure VerificationStore.Keeps (s : VerificationStore) (i : Nat) (s' : VerificationStore) :
    Prop where
  later : s.Later s'
  tokens : s.tokens.Respects i s'.tokens
  users : s.users.Respects i s'.users

section

variable {s s' : VerificationStore} {tx : Nat} {p : TokenHash} {verified₀ : String → Prop}

theorem VerificationStore.Later.refl (s : VerificationStore) : s.Later s :=
  ⟨fun _ r hr => ⟨r, hr, rfl, rfl⟩, fun _ => Iff.rfl⟩

theorem VerificationStore.Keeps.refl (s : VerificationStore) (i : Nat) : s.Keeps i s :=
  ⟨.refl s, .refl .., .refl ..⟩

theorem CheckedToken.later (h : CheckedToken s p checkedAt userId) (hl : s.Later s') :
    CheckedToken s' p checkedAt userId := by
  obtain ⟨r, hr, huser, hexp⟩ := h
  obtain ⟨r', hr', huser', hexp'⟩ := hl.tokens p r hr
  exact ⟨r', hr', huser'.trans huser, hexp' ▸ hexp⟩

theorem VerifyOwns.keeps (h : VerifyOwns s tx p pc) (hk : s.Keeps i s') (hne : tx ≠ i) :
    VerifyOwns s' tx p pc := by
  cases pc with
  | begin | select | returned =>
    exact ⟨h.1.respects hk.tokens hne, h.2.respects hk.users hne⟩
  | consume =>
    obtain ⟨⟨htok, husr⟩, hchk⟩ := h
    exact ⟨⟨htok.respects hk.tokens hne, husr.respects hk.users hne⟩, hchk.later hk.later⟩
  | setVerified =>
    obtain ⟨⟨⟨r, htok⟩, husr⟩, hchk⟩ := h
    exact ⟨⟨⟨r, htok.respects hk.tokens hne⟩, husr.respects hk.users hne⟩, hchk.later hk.later⟩
  | commit =>
    obtain ⟨⟨⟨r, htok⟩, husr⟩, hchk⟩ := h
    refine ⟨⟨⟨r, htok.respects hk.tokens hne⟩, ?_⟩, hchk.later hk.later⟩
    rcases husr with ⟨hw, hnone⟩ | ⟨row, hw⟩
    · exact .inl ⟨hw.respects hk.users hne, (hk.later.users _).2 hnone⟩
    · exact .inr ⟨row, hw.respects hk.users hne⟩

theorem SoundStore.rollback (h : SoundStore verified₀ s) (tx : Nat) :
    SoundStore verified₀ (s.rollback tx) where
  tokens := fun k t r hp => h.tokens k t r ((Table.pending_rollback s.tokens tx).1 hp).1
  users := fun u t row hp => h.users u t row ((Table.pending_rollback s.users tx).1 hp).1
  backed := h.backed
  verified := h.verified
  used := h.used

theorem VerificationStore.Keeps.rollback (s : VerificationStore) (tx : Nat) :
    s.Keeps tx (s.rollback tx) :=
  ⟨⟨fun _ r hr => ⟨r, hr, rfl, rfl⟩, fun _ => Iff.rfl⟩, .rollback .., .rollback ..⟩

theorem VerifyOwns.rolledBack (s : VerificationStore) (tx : Nat) (p : TokenHash)
    (response : ResetResponse) : VerifyOwns (s.rollback tx) tx p (.returned response) :=
  ⟨Table.Wrote.rollback s.tokens tx, Table.Wrote.rollback s.users tx⟩

theorem SoundStore.later (h : SoundStore verified₀ s) (hrows : s'.tokens.rows = s.tokens.rows)
    (husers : s'.users.rows = s.users.rows) (hlog : s'.verifications = s.verifications)
    (htok : ∀ k t r, s'.tokens.pending k = some (t, r) →
      ∃ r₀, s.tokens.rows k = some r₀ ∧ r.userId = r₀.userId ∧ r.expiresAt = r₀.expiresAt ∧
        r.usedAt.isSome = true)
    (husr : ∀ u t row, s'.users.pending u = some (t, row) →
      s.users.rows u ≠ none ∧ row.emailVerified = true) :
    SoundStore verified₀ s' where
  tokens := by
    rw [hrows]
    exact htok
  users := by
    rw [husers]
    exact husr
  backed := by
    intro v hv
    rw [Verification.Backed, hrows]
    exact h.backed v (hlog ▸ hv)
  verified := by
    rw [husers, hlog]
    exact h.verified
  used := by
    rw [hrows, husers]
    exact h.used

/-- The use of a token, of which nothing is committed yet. -/
theorem SoundStore.consume (h : SoundStore verified₀ s) (hrow : s.tokens.rows p = some r)
    (t : Time) (tx : Nat) :
    SoundStore verified₀
      { s with tokens := s.tokens.write tx p { r with usedAt := some t } } := by
  refine h.later rfl rfl rfl ?_ h.users
  intro k t' r' hp
  obtain ⟨rfl, hx⟩ | ⟨-, hp⟩ := Table.pending_write hp
  · cases hx
    exact ⟨r, hrow, rfl, rfl, rfl⟩
  · exact h.tokens k t' r' hp

theorem SoundStore.setVerified (h : SoundStore verified₀ s)
    (hrow : s.users.rows u ≠ none) (t : Time) (tx : Nat) :
    SoundStore verified₀ { s with users := s.users.write tx u ⟨true, t⟩ } := by
  refine h.later rfl rfl rfl h.tokens ?_
  intro u' t' row hp
  obtain ⟨rfl, hx⟩ | ⟨-, hp⟩ := Table.pending_write hp
  · cases hx
    exact ⟨hrow, rfl⟩
  · exact h.users u' t' row hp

/-- The rows of the users once the transaction has been committed. -/
theorem WroteUser.rows_commit (h : WroteUser s tx u) (hs : SoundStore verified₀ s) :
    (∀ row, (s.users.commit tx).rows u = some row → row.emailVerified = true) ∧
      (∀ u', u' ≠ u → (s.users.commit tx).rows u' = s.users.rows u') ∧
      ∀ u', (s.users.commit tx).rows u' = none ↔ s.users.rows u' = none := by
  rcases h with ⟨hw, hnone⟩ | ⟨row, hw⟩
  · rw [hw.rows_commit]
    exact ⟨fun row hrow => (nomatch hnone.symm.trans hrow), fun _ _ => rfl, fun _ => Iff.rfl⟩
  · obtain ⟨hsome, hver⟩ := hs.users u tx row ((hw u row).2 List.mem_cons_self)
    have hrows : (s.users.commit tx).rows = Function.update s.users.rows u (some row) :=
      hw.rows_commit
    rw [hrows]
    refine ⟨?_, fun u' hu => Function.update_of_ne hu _ _, ?_⟩
    · intro row' hrow
      rw [Function.update_self] at hrow
      cases hrow
      exact hver
    · intro u'
      by_cases hu : u' = u
      · rw [hu, Function.update_self]
        exact iff_of_false nofun hsome
      · rw [Function.update_of_ne hu]

theorem SoundStore.commit (h : SoundStore verified₀ s) (htok : s.tokens.Wrote tx [(p, r)])
    (husr : WroteUser s tx u) (hchk : CheckedToken s p checkedAt u) :
    SoundStore verified₀ (s.commit tx ⟨p, u, checkedAt⟩) ∧
      s.Later (s.commit tx ⟨p, u, checkedAt⟩) := by
  obtain ⟨r₁, hr₁, huser, hexp⟩ := hchk
  obtain ⟨r₀, hr₀, huser₀, hexp₀, hused⟩ := h.tokens p tx r ((htok p r).2 List.mem_cons_self)
  cases hr₁.symm.trans hr₀
  obtain ⟨hnew, hold, hnone⟩ := husr.rows_commit h
  have hrows : (s.tokens.commit tx).rows = Function.update s.tokens.rows p (some r) :=
    htok.rows_commit
  have hadvance : ∀ k r', s.tokens.rows k = some r' →
      ∃ r'', (s.tokens.commit tx).rows k = some r'' ∧ r''.userId = r'.userId ∧
        r''.expiresAt = r'.expiresAt ∧ (r'.usedAt.isSome = true → r''.usedAt.isSome = true) := by
    intro k r' hr'
    rw [hrows]
    by_cases hk : k = p
    · subst hk
      cases hr'.symm.trans hr₀
      exact ⟨r, Function.update_self .., huser₀, hexp₀, fun _ => hused⟩
    · exact ⟨r', (Function.update_of_ne hk ..).trans hr', rfl, rfl, id⟩
  constructor
  · constructor
    · intro k t r' hp
      obtain ⟨hp, hne⟩ := (Table.pending_rollback s.tokens tx).1 hp
      obtain ⟨r'', hr'', hu'', he'', hs''⟩ := h.tokens k t r' hp
      obtain ⟨r₂, hr₂, hu₂, he₂, -⟩ := hadvance k r'' hr''
      exact ⟨r₂, hr₂, hu''.trans hu₂.symm, he''.trans he₂.symm, hs''⟩
    · intro u' t row hp
      obtain ⟨hsome, hver⟩ := h.users u' t row ((Table.pending_rollback s.users tx).1 hp).1
      exact ⟨fun hgone => hsome ((hnone u').1 hgone), hver⟩
    · intro v hv
      rcases List.mem_cons.1 hv with rfl | hv
      · refine ⟨r, ?_, huser₀.trans huser, hexp₀ ▸ hexp, hused⟩
        exact (congrFun hrows p).trans (Function.update_self ..)
      · obtain ⟨r', hr', hu', he', hs'⟩ := h.backed v hv
        obtain ⟨r₂, hr₂, hu₂, he₂, hs₂⟩ := hadvance v.token r' hr'
        exact ⟨r₂, hr₂, hu₂.trans hu', he₂ ▸ he', hs₂ hs'⟩
    · intro u' row hrow hver
      by_cases hu : u' = u
      · exact .inr ⟨_, List.mem_cons_self, hu.symm⟩
      · rcases h.verified u' row ((hold u' hu).symm.trans hrow) hver with h₀ | ⟨v, hv, hvu⟩
        · exact .inl h₀
        · exact .inr ⟨v, List.mem_cons_of_mem _ hv, hvu⟩
    · intro k r' row hr' hs' hrow
      by_cases hu : r'.userId = u
      · exact hnew row (hu ▸ hrow)
      · have hk : k ≠ p := by
          rintro rfl
          rw [VerificationStore.commit, hrows, Function.update_self] at hr'
          cases hr'
          exact hu (huser₀.trans huser)
        rw [VerificationStore.commit, hrows, Function.update_of_ne hk] at hr'
        exact h.used k r' row hr' hs' ((hold r'.userId hu).symm.trans hrow)
  · constructor
    · intro k r' hr'
      obtain ⟨r₂, hr₂, hu₂, he₂, -⟩ := hadvance k r' hr'
      exact ⟨r₂, hr₂, hu₂, he₂⟩
    · exact hnone

theorem SoundStore.issue (h : SoundStore verified₀ s) (hnone : s.tokens.rows p = none)
    (userId : String) (expiresAt : Time) (i : Nat) :
    s.Keeps i { s with tokens := s.tokens.insertNow p ⟨userId, expiresAt, none⟩ } ∧
      SoundStore verified₀ { s with tokens := s.tokens.insertNow p ⟨userId, expiresAt, none⟩ } := by
  have hne : ∀ k r, s.tokens.rows k = some r → k ≠ p := by
    rintro k r hr rfl
    rw [hnone] at hr
    cases hr
  have hpending : s.tokens.pending p = none := by
    cases hp : s.tokens.pending p with
    | none => rfl
    | some x =>
      obtain ⟨r₀, hr₀, -⟩ := h.tokens p x.1 x.2 hp
      exact absurd rfl (hne p r₀ hr₀)
  have hkept : ∀ k r, s.tokens.rows k = some r →
      (s.tokens.insertNow p ⟨userId, expiresAt, none⟩).rows k = some r :=
    fun k r hr => (Function.update_of_ne (hne k r hr) _ _).trans hr
  constructor
  · refine ⟨⟨fun k r hr => ⟨r, hkept k r hr, rfl, rfl⟩, fun _ => Iff.rfl⟩, ?_, .refl ..⟩
    exact .insertNow hpending i _
  · constructor
    · intro k t r hp
      obtain ⟨r₀, hr₀, hx⟩ := h.tokens k t r hp
      exact ⟨r₀, hkept k r₀ hr₀, hx⟩
    · exact h.users
    · intro v hv
      obtain ⟨r, hr, hx⟩ := h.backed v hv
      exact ⟨r, hkept v.token r hr, hx⟩
    · exact h.verified
    · intro k r row hr hused hrow
      by_cases hk : k = p
      · subst hk
        change Function.update s.tokens.rows k _ k = some r at hr
        rw [Function.update_self] at hr
        cases hr
        cases hused
      · change Function.update s.tokens.rows p _ k = some r at hr
        rw [Function.update_of_ne hk] at hr
        exact h.used k r row hr hused hrow

variable {hashOpaqueToken : String → TokenHash}

theorem issueVerificationStep_spec (hs : SoundStore verified₀ s)
    (h : issueVerificationStep hashOpaqueToken s userId pc e = some (s', pc')) (i : Nat) :
    s.Keeps i s' ∧ SoundStore verified₀ s' := by
  unfold issueVerificationStep at h
  split at h
  next =>
    cases h
    exact ⟨.refl s i, hs⟩
  next plain expiresAt =>
    split at h
    next =>
      cases h
      exact ⟨.refl s i, hs⟩
    next hnone =>
      cases h
      exact hs.issue hnone userId expiresAt i
  next plain expiresAt =>
    split at h
    next =>
      cases h
      exact ⟨.refl s i, hs⟩
    next hnone =>
      cases h
      exact hs.issue hnone userId expiresAt i
  next =>
    cases h
    exact ⟨.refl s i, hs⟩
  next =>
    cases h
    exact ⟨.refl s i, hs⟩
  next => cases h

theorem validResetToken_some (h : validResetToken now row = some userId) :
    ∃ r, row = some r ∧ r.userId = userId ∧ now ≤ r.expiresAt := by
  obtain ⟨r, hr, hif⟩ := Option.bind_eq_some_iff.1 h
  split at hif
  next => cases hif
  next hvalid =>
    cases hif
    rw [Bool.or_eq_true, not_or, decide_eq_true_iff] at hvalid
    exact ⟨r, hr, rfl, Int.not_lt.1 hvalid.2⟩

theorem verifyStep_spec (hs : SoundStore verified₀ s)
    (ho : VerifyOwns s tx (hashOpaqueToken token) pc)
    (h : verifyStep hashOpaqueToken s tx token pc e = some (s', pc')) :
    s.Keeps tx s' ∧ SoundStore verified₀ s' ∧ VerifyOwns s' tx (hashOpaqueToken token) pc' := by
  unfold verifyStep at h
  split at h
  next => -- begin
    cases h
    exact ⟨.refl s tx, hs, ho⟩
  next t => -- select
    split at h
    next =>
      cases h
      exact ⟨.rollback s tx, hs.rollback tx, .rolledBack ..⟩
    next userId hvalid =>
      cases h
      obtain ⟨r, hr, huser, hexp⟩ := validResetToken_some hvalid
      rw [ho.1.visible_of_not_mem fun _ => List.not_mem_nil] at hr
      exact ⟨.refl s tx, hs, ho, r, hr, huser, hexp⟩
  next => -- a select that fails
    cases h
    exact ⟨.rollback s tx, hs.rollback tx, .rolledBack ..⟩
  next t checkedAt userId => -- consume
    obtain ⟨tokens, ht, hx⟩ := Option.map_eq_some_iff.1 h
    cases hx
    obtain ⟨⟨htok, husr⟩, hchk⟩ := ho
    obtain ⟨r, hr, -⟩ := id hchk
    have hsees : s.tokens.visible tx (hashOpaqueToken token) = some r :=
      (htok.visible_of_not_mem fun _ => List.not_mem_nil).trans hr
    obtain ⟨hv, -⟩ | ⟨r', hv, hl, rfl⟩ := Table.updateKey_cases ht
    · rw [hsees] at hv
      cases hv
    · rw [hsees] at hv
      cases hv
      refine ⟨⟨⟨fun _ r hr => ⟨r, hr, rfl, rfl⟩, fun _ => Iff.rfl⟩, .write hl _, .refl ..⟩,
        hs.consume hr t tx, ⟨⟨_, htok.write (fun _ => List.not_mem_nil) _⟩, husr⟩, hchk⟩
  next t checkedAt userId => -- setVerified
    obtain ⟨users, hu, hx⟩ := Option.map_eq_some_iff.1 h
    cases hx
    obtain ⟨⟨htok, husr⟩, hchk⟩ := ho
    have hsees : s.users.visible tx userId = s.users.rows userId :=
      husr.visible_of_not_mem fun _ => List.not_mem_nil
    obtain ⟨hv, rfl⟩ | ⟨row, hv, hl, rfl⟩ := Table.updateKey_cases hu
    · exact ⟨.refl s tx, hs, ⟨htok, .inl ⟨husr, hsees.symm.trans hv⟩⟩, hchk⟩
    · have hrow : s.users.rows userId ≠ none := by
        rw [← hsees, hv]
        nofun
      refine ⟨⟨⟨fun _ r hr => ⟨r, hr, rfl, rfl⟩, fun _ => Iff.rfl⟩, .refl .., .write hl _⟩,
        hs.setVerified hrow t tx, ⟨htok, .inr ⟨_, husr.write (fun _ => List.not_mem_nil) _⟩⟩, hchk⟩
  next checkedAt userId => -- commit
    cases h
    obtain ⟨⟨⟨r, htok⟩, husr⟩, hchk⟩ := ho
    obtain ⟨hs', hl⟩ := hs.commit htok husr hchk
    exact ⟨⟨hl, .commit .., .commit ..⟩, hs', Table.Wrote.commit s.tokens tx,
      Table.Wrote.commit s.users tx⟩
  next checkedAt userId => -- commit, and its answer is lost
    cases h
    obtain ⟨⟨⟨r, htok⟩, husr⟩, hchk⟩ := ho
    obtain ⟨hs', hl⟩ := hs.commit htok husr hchk
    exact ⟨⟨hl, .commit .., .commit ..⟩, hs', Table.Wrote.commit s.tokens tx,
      Table.Wrote.commit s.users tx⟩
  next => cases h
  next => -- a statement fails
    cases h
    exact ⟨.rollback s tx, hs.rollback tx, .rolledBack ..⟩
  next => cases h

/-- What the call with this number has done so far: nothing until it starts. -/
def VerificationCallOwns (hashOpaqueToken : String → TokenHash) (s : VerificationStore) (i : Nat) :
    Option VerificationCall → Prop
  | some (.verify token pc) => VerifyOwns s i (hashOpaqueToken token) pc
  | some (.issue _ _) | none => s.tokens.Wrote i [] ∧ s.users.Wrote i []

theorem VerificationCallOwns.keeps {o : Option VerificationCall}
    (h : VerificationCallOwns hashOpaqueToken s j o) (hk : s.Keeps i s') (hne : j ≠ i) :
    VerificationCallOwns hashOpaqueToken s' j o :=
  match o with
  | some (.verify _ _) => VerifyOwns.keeps h hk hne
  | some (.issue _ _) | none => ⟨h.1.respects hk.tokens hne, h.2.respects hk.users hne⟩

theorem emailVerification_stable (verified₀ : String → Prop) :
    (verificationProgram hashOpaqueToken).Stable (fun _ _ _ _ => True) (SoundStore verified₀)
      (VerificationCallOwns hashOpaqueToken) where
  start := by
    intro s i req _ h
    cases req with
    | issue userId => exact h
    | verify body =>
      change VerifyOwns s i _ ((verifyRequestError body).elim .begin .returned)
      cases verifyRequestError body with
      | none => exact h
      | some => exact h
  ambient := by
    intro s elapsed hs
    refine ⟨⟨hs.tokens, hs.users, hs.backed, hs.verified, hs.used⟩, ?_⟩
    intro i o ho
    cases o with
    | none => exact ho
    | some call =>
      cases call with
      | issue => exact ho
      | verify token pc => cases pc <;> exact ho
  step := by
    intro s i call e s' call' hs ho _ h
    cases call with
    | verify token pc =>
      obtain ⟨⟨s₁, pc₁⟩, hstep, hx⟩ := Option.map_eq_some_iff.1 h
      cases hx
      obtain ⟨hk, hs', ho'⟩ := verifyStep_spec hs ho hstep
      exact ⟨hs', ho', fun j o hj hoj => hoj.keeps hk hj⟩
    | issue userId pc =>
      obtain ⟨⟨s₁, pc₁⟩, hstep, hx⟩ := Option.map_eq_some_iff.1 h
      cases hx
      obtain ⟨hk, hs'⟩ := issueVerificationStep_spec hs hstep i
      -- no transaction has the number of this thread, which may as well be another's
      have hown := (issueVerificationStep_spec hs hstep (i + 1)).1
      refine ⟨hs', ⟨?_, ?_⟩, fun j o hj hoj => hoj.keeps hk hj⟩
      · exact Table.Wrote.respects ho.1 hown.tokens (Nat.succ_ne_self i).symm
      · exact Table.Wrote.respects ho.2 hown.users (Nat.succ_ne_self i).symm

theorem VerificationStart.holds (h₀ : (emailVerification hashOpaqueToken).init w₀) :
    Holds (SoundStore w₀.shared.IsVerified) (VerificationCallOwns hashOpaqueToken) w₀ := by
  obtain ⟨⟨htok, husr, hlog, hused⟩, hnil⟩ := h₀
  constructor
  · constructor
    · intro k t r hp
      rw [htok] at hp
      cases hp
    · intro u t row hp
      rw [husr] at hp
      cases hp
    · rw [hlog]
      exact fun v hv => absurd hv List.not_mem_nil
    · exact fun u row hrow hver => .inl ⟨row, hrow, hver⟩
    · exact hused
  · intro i
    rw [hnil]
    constructor
    · intro k r
      simp [htok]
    · intro k r
      simp [husr]

/-- However verifications interleave, also of one token, a user is verified only by a token of his
own that was still valid when it was checked, and a token is used up only together with that. -/
theorem emailVerification_sound (h₀ : (emailVerification hashOpaqueToken).init w₀)
    (hr : (emailVerification hashOpaqueToken).run w₀ es = some w) :
    (∀ u, w.shared.IsVerified u → w₀.shared.IsVerified u ∨
      ∃ v ∈ w.shared.verifications, v.userId = u ∧ v.Backed w.shared) ∧
      ∀ k r, w.shared.tokens.rows k = some r → r.usedAt.isSome = true →
        w.shared.users.rows r.userId = none ∨ w.shared.IsVerified r.userId := by
  have hstable : (verificationProgram hashOpaqueToken).Stable _ _ _ :=
    emailVerification_stable w₀.shared.IsVerified
  have hinv := hstable.invariant VerificationStart
  have hs := (hinv.run (VerificationStart.holds h₀) hr).1
  constructor
  · rintro u ⟨row, hrow, hver⟩
    refine (hs.verified u row hrow hver).imp_right ?_
    rintro ⟨v, hv, hvu⟩
    exact ⟨v, hv, hvu, hs.backed v hv⟩
  · intro k r hrow hused
    cases huser : w.shared.users.rows r.userId with
    | none => exact .inl rfl
    | some row => exact .inr ⟨row, huser, hs.used k r row hrow hused huser⟩

end

/-- One user, not verified yet, and no token. -/
def unverified : World VerificationStore VerificationCall where
  shared := {
    tokens := .ofRows fun _ => none
    users := .ofRows fun id => if id = "u1" then some ⟨false, 0⟩ else none
    now := 0
    verifications := []
  }
  threads := []

/-- A token is issued, and two requests present it at once. -/
def presentedTwice : List (Event VerificationRequest Nat VerificationEvent) :=
  [.spawn (.issue "u1"), .act 0 (.drawn plain₀), .act 0 .proceed,
    .spawn (.verify (some plain₀)), .spawn (.verify (some plain₀)),
    .act 1 .proceed, .act 2 .proceed, .act 1 .proceed, .act 2 .proceed, .act 1 .proceed,
    .act 1 .proceed, .act 1 .proceed, .act 2 .proceed, .act 2 .proceed, .act 2 .proceed]

theorem unverified_init : (emailVerification hashTable).init unverified :=
  ⟨⟨fun _ => rfl, fun _ => rfl, rfl, nofun⟩, rfl⟩

theorem presentedTwice_run :
    ∃ w, (emailVerification hashTable).run unverified presentedTwice = some w ∧
      w.shared.users.rows "u1" = some ⟨true, 0⟩ :=
  ⟨_, rfl, rfl⟩

theorem emailVerification_sound_presentedTwice :
    ∃ w, (emailVerification hashTable).run unverified presentedTwice = some w ∧
      (unverified.shared.IsVerified "u1" ∨
        ∃ v ∈ w.shared.verifications, v.userId = "u1" ∧ v.Backed w.shared) := by
  obtain ⟨w, hw, hrow⟩ := presentedTwice_run
  exact ⟨w, hw, (emailVerification_sound unverified_init hw).1 "u1" ⟨_, hrow, rfl⟩⟩

end Leetrank
