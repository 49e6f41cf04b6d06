import Leetrank.Auth.KeyStore
import Leetrank.Strings

namespace Leetrank
set_option autoImplicit true

open EventMachine ReadCommitted Threads

/-- A row of `PasswordResetToken`, without its primary key `tokenHash`. -/
structure PasswordResetToken where
  userId : String
  expiresAt : Time
  usedAt : Option Time

/-- What a reset reads and writes of a row of `User`. -/
structure Credential where
  password : String
  updatedAt : Time

/-- A reset that was committed: the token it used up, and the password it set. -/
structure CommittedReset where
  token : TokenHash
  userId : String
  password : String

/-- The two tables, the clock, and the resets committed so far, the last one first. -/
structure CredentialStore where
  tokens : Table TokenHash PasswordResetToken
  users : Table String Credential
  now : Time
  resets : List CommittedReset

def CredentialStore.rollback (s : CredentialStore) (tx : Nat) : CredentialStore :=
  { s with tokens := s.tokens.rollback tx, users := s.users.rollback tx }

def CredentialStore.commit (s : CredentialStore) (tx : Nat) (reset : CommittedReset) :
    CredentialStore where
  tokens := s.tokens.commit tx
  users := s.users.commit tx
  now := s.now
  resets := reset :: s.resets

/-- The body of an answer is an error text, or `ok`. -/
structure ResetResponse where
  status : Nat
  body : Except String Unit

def resetOk : ResetResponse := ⟨200, .ok ()⟩
def internalError : ResetResponse := ⟨500, .error "internal server error"⟩
def invalidToken : ResetResponse := ⟨401, .error "invalid or expired token"⟩

/-- The statements of `resetPassword`, with the start of the transaction, which is its `NOW()`. -/
inductive ResetPc where
  | begin
  | select (startedAt : Time)
  | consume (startedAt : Time) (userId : String)
  | hash (startedAt : Time) (userId : String)
  | setPassword (startedAt : Time) (userId : String) (newHash : String)
  | commit (userId : String) (newHash : String)
  | returned (response : ResetResponse)

structure ResetCall where
  token : String
  pc : ResetPc

structure ResetPasswordRequest where
  token : String
  newPassword : String

/-- What decides how a statement goes on: nothing, the salted hash of the new password, an error, or
a commit whose answer is lost. -/
inductive ResetEvent where
  | proceed
  | hashed (newHash : String)
  | fail
  | lost

/-- The checks before the transaction; a body that is no JSON is `none`. -/
def resetRequestError : Option ResetPasswordRequest → Option ResetResponse
  | none => some ⟨400, .error "invalid JSON body"⟩
  | some req =>
    if trimSpace req.token = "" then some ⟨400, .error "token required"⟩
    else if req.newPassword.utf8ByteSize < 8 then
      some ⟨400, .error "new password must be at least 8 characters"⟩
    else none

def resetStart (body : Option ResetPasswordRequest) : ResetCall where
  token := trimSpace (body.elim "" fun req => req.token)
  pc := (resetRequestError body).elim .begin .returned

/-- The user of a token that is known, unused and not expired. -/
def validResetToken (now : Time) (row : Option PasswordResetToken) : Option String :=
  row.bind fun r => if r.usedAt.isSome || r.expiresAt < now then none else some r.userId

section
variable (hashOpaqueToken : String → TokenHash)

/-- The transaction of `resetPassword`; its `UPDATE` of the token does not test `usedAt` again. -/
def resetStep (s : CredentialStore) (tx : Nat) (token : String) :
    ResetPc → ResetEvent → Option (CredentialStore × ResetPc)
  | .begin, .proceed => some (s, .select s.now)
  | .select t, .proceed =>
    match validResetToken s.now (s.tokens.visible tx (hashOpaqueToken token)) with
    | none => some (s.rollback tx, .returned invalidToken)
    | some userId => some (s, .consume t userId)
  | .select _, .fail => some (s.rollback tx, .returned invalidToken)
  | .consume t userId, .proceed =>
    (s.tokens.updateKey tx (hashOpaqueToken token) fun r => { r with usedAt := some t }).map
      fun tokens => ({ s with tokens := tokens }, .hash t userId)
  | .hash t userId, .hashed newHash => some (s, .setPassword t userId newHash)
  | .setPassword t userId newHash, .proceed =>
    (s.users.updateKey tx userId fun _ => ⟨newHash, t⟩).map
      fun users => ({ s with users := users }, .commit userId newHash)
  | .commit userId newHash, .proceed =>
    some (s.commit tx ⟨hashOpaqueToken token, userId, newHash⟩, .returned resetOk)
  | .commit userId newHash, .lost =>
    some (s.commit tx ⟨hashOpaqueToken token, userId, newHash⟩, .returned internalError)
  | .returned _, _ => none
  | _, .fail => some (s.rollback tx, .returned internalError)
  | _, _ => none

def passwordResetProgram :
    Program CredentialStore ResetCall (Option ResetPasswordRequest) Nat ResetEvent where
  start := fun _ body => resetStart body
  ambient := fun s elapsed => { s with now := s.now + elapsed }
  step := fun s tx call e =>
    (resetStep hashOpaqueToken s tx call.token call.pc e).map fun (s, pc) => (s, ⟨call.token, pc⟩)

/-- Any number of requests over any tables. -/
def passwordReset :
    Machine (World CredentialStore ResetCall) (Event (Option ResetPasswordRequest) Nat ResetEvent) :=
  (passwordResetProgram hashOpaqueToken).machine fun s =>
    (∀ k, s.tokens.pending k = none) ∧ (∀ k, s.users.pending k = none) ∧ s.resets = []

end

/-- The transaction has used up the token, whose committed row is unused. -/
structure Consuming (T : Table TokenHash PasswordResetToken) (tx : Nat) (p : TokenHash) (t : Time)
    (r : PasswordResetToken) : Prop where
  row : T.rows p = some r
  unused : r.usedAt = none
  wrote : T.Wrote tx [(p, { r with usedAt := some t })]

/-- What the transaction of a reset has done to the tokens so far. -/
def ResetOwns (T : Table TokenHash PasswordResetToken) (tx : Nat) (p : TokenHash) : ResetPc → Prop
  | .hash _ _ | .setPassword _ _ _ | .commit _ _ => ∃ t r, Consuming T tx p t r
  | .begin | .select _ | .consume _ _ | .returned _ => T.Wrote tx []

theorem ResetOwns.respects (h : ResetOwns T tx p pc) (hr : T.Respects tx' T')
    (hne : tx ≠ tx') : ResetOwns T' tx p pc := by
  cases pc with
  | hash | setPassword | commit =>
    obtain ⟨t, r, h⟩ := h
    refine ⟨t, r, ?_, h.unused, h.wrote.respects hr hne⟩
    exact (h.wrote.rows_respects List.mem_cons_self hr hne).trans h.row
  | begin | select | consume | returned => exact Table.Wrote.respects h hr hne

/-- The resets have used up different tokens. -/
structure SingleUse (s : CredentialStore) : Prop where
  used : ∀ reset ∈ s.resets, ∃ r, s.tokens.rows reset.token = some r ∧ r.usedAt.isSome = true
  distinct : (s.resets.map fun reset => reset.token).Nodup

theorem SingleUse.commit (h : SingleUse s) (hc : Consuming s.tokens tx p t r)
    (userId newHash : String) : SingleUse (s.commit tx ⟨p, userId, newHash⟩) := by
  have hrows : (s.tokens.commit tx).rows = Function.update s.tokens.rows p _ := hc.wrote.rows_commit
  constructor
  · intro reset hmem
    change ∃ r, (s.tokens.commit tx).rows reset.token = some r ∧ r.usedAt.isSome = true
    rw [hrows]
    by_cases hp : reset.token = p
    · rw [hp, Function.update_self]
      exact ⟨_, rfl, rfl⟩
    · rw [Function.update_of_ne hp]
      rcases List.mem_cons.1 hmem with rfl | hmem
      · exact absurd rfl hp
      · exact h.used reset hmem
  · apply List.nodup_cons.2
    refine ⟨?_, h.distinct⟩
    intro hmem
    obtain ⟨reset, hreset, hp⟩ := List.mem_map.1 hmem
    obtain ⟨r', hr', hused⟩ := h.used reset hreset
    rw [hp, hc.row] at hr'
    cases hr'
    rw [hc.unused] at hused
    cases hused

section
variable {hashOpaqueToken : String → TokenHash}

/-- When a reset makes its `UPDATE`, the committed row of the token is unused. -/
def ConsumesUnused (hashOpaqueToken : String → TokenHash) :
    StepProp CredentialStore ResetCall ResetEvent
  | s, _, ⟨token, .consume _ _⟩, .proceed =>
    ∃ r, s.tokens.rows (hashOpaqueToken token) = some r ∧ r.usedAt = none
  | _, _, _, _ => True

theorem resetStep_spec (hs : SingleUse s) (ho : ResetOwns s.tokens tx (hashOpaqueToken token) pc)
    (hc : ConsumesUnused hashOpaqueToken s tx ⟨token, pc⟩ e)
    (h : resetStep hashOpaqueToken s tx token pc e = some (s', pc')) :
    s.tokens.Respects tx s'.tokens ∧ SingleUse s' ∧
      ResetOwns s'.tokens tx (hashOpaqueToken token) pc' := by
  unfold resetStep at h
  split at h
  next => -- begin
    cases h
    exact ⟨.refl .., hs, ho⟩
  next => -- select
    split at h
    next =>
      cases h
      exact ⟨.rollback .., ⟨hs.used, hs.distinct⟩, Table.Wrote.rollback s.tokens tx⟩
    next =>
      cases h
      exact ⟨.refl .., hs, ho⟩
  next => -- a select that fails
    cases h
    exact ⟨.rollback .., ⟨hs.used, hs.distinct⟩, Table.Wrote.rollback s.tokens tx⟩
  next t userId => -- consume
    obtain ⟨tokens, ht, he⟩ := Option.map_eq_some_iff.1 h
    cases he
    obtain ⟨r, hr, hunused⟩ := hc
    have hw : s.tokens.Wrote tx [] := ho
    have hsees := hw.visible_of_not_mem (k := hashOpaqueToken token) fun _ => List.not_mem_nil
    obtain ⟨hv, -⟩ | ⟨r', hv, hl, rfl⟩ := Table.updateKey_cases ht
    · rw [hsees, hr] at hv
      cases hv
    · rw [hsees, hr] at hv
      cases hv
      refine ⟨.write hl _, ⟨hs.used, hs.distinct⟩, t, r, hr, hunused, ?_⟩
      exact hw.write (fun _ => List.not_mem_nil) _
  next => -- hash
    cases h
    exact ⟨.refl .., hs, ho⟩
  next => -- setPassword
    obtain ⟨users, _, he⟩ := Option.map_eq_some_iff.1 h
    cases he
    exact ⟨.refl .., ⟨hs.used, hs.distinct⟩, ho⟩
  next userId newHash => -- commit
    cases h
    obtain ⟨t, r, hc⟩ := ho
    exact ⟨.commit .., hs.commit hc userId newHash, Table.Wrote.commit s.tokens tx⟩
  next userId newHash => -- commit, and its answer is lost
    cases h
    obtain ⟨t, r, hc⟩ := ho
    exact ⟨.commit .., hs.commit hc userId newHash, Table.Wrote.commit s.tokens tx⟩
  next => cases h
  next => -- a statement fails
    cases h
    exact ⟨.rollback .., ⟨hs.used, hs.distinct⟩, Table.Wrote.rollback s.tokens tx⟩
  next => cases h

/-- What the call with this number has done to the tokens so far: nothing until it starts. -/
def ResetCallOwns (hashOpaqueToken : String → TokenHash) (s : CredentialStore) (tx : Nat) :
    Option ResetCall → Prop
  | none => s.tokens.Wrote tx []
  | some call => ResetOwns s.tokens tx (hashOpaqueToken call.token) call.pc

theorem passwordReset_stable : (passwordResetProgram hashOpaqueToken).Stable
    (ConsumesUnused hashOpaqueToken) SingleUse (ResetCallOwns hashOpaqueToken) where
  start := by
    intro s i body _ h
    change ResetOwns s.tokens i _ ((resetRequestError body).elim .begin .returned)
    cases resetRequestError body with
    | none => exact h
    | some => exact h
  ambient := fun _ _ h => ⟨⟨h.used, h.distinct⟩, fun _ o ho => by cases o <;> exact ho⟩
  step := by
    intro s i call e s' call' hs ho hc h
    obtain ⟨⟨s₁, pc₁⟩, hstep, he⟩ := Option.map_eq_some_iff.1 h
    cases he
    obtain ⟨hr, hs', ho'⟩ := resetStep_spec hs ho hc hstep
    refine ⟨hs', ho', ?_⟩
    intro j o hj hoj
    cases o with
    | none => exact Table.Wrote.respects hoj hr hj
    | some => exact ResetOwns.respects hoj hr hj

/-- As long as every reset uses up a token that is still unused, no token is used for two resets. -/
theorem reset_once (h₀ : (passwordReset hashOpaqueToken).init w₀)
    (hr : (passwordReset hashOpaqueToken).run w₀ es = some w)
    (hC : (passwordReset hashOpaqueToken).Always (OnSteps (ConsumesUnused hashOpaqueToken)) w₀ es) :
    (w.shared.resets.map fun reset => reset.token).Nodup := by
  have hstart : ∀ s : CredentialStore,
      ((∀ k, s.tokens.pending k = none) ∧ (∀ k, s.users.pending k = none) ∧ s.resets = []) →
        SingleUse s ∧ ∀ tx, ResetCallOwns hashOpaqueToken s tx none := by
    rintro s ⟨hp, _, hnil⟩
    refine ⟨⟨by simp [hnil], by simp [hnil]⟩, ?_⟩
    intro tx k r
    simp [hp]
  exact ((passwordReset_stable.preserves _).run (holds_start h₀ hstart) hC hr).1.distinct

end

/-- One user, who has asked for a reset token. -/
def oneUser : World CredentialStore ResetCall where
  shared := {
    tokens := .ofRows fun k => if k = hashTable plain₀ then some ⟨"u1", hour, none⟩ else none
    users := .ofRows fun id => if id = "u1" then some ⟨"$2a$12$old", 0⟩ else none
    now := 0
    resets := []
  }
  threads := []

theorem oneUser_init : (passwordReset hashTable).init oneUser :=
  ⟨⟨fun _ => rfl, fun _ => rfl, rfl⟩, rfl⟩

abbrev ResetTrace := List (Event (Option ResetPasswordRequest) Nat ResetEvent)

/-- The token is presented again after the reset. -/
def presentedAgain : ResetTrace :=
  [.spawn (some ⟨plain₀, "new password"⟩), .act 0 .proceed, .act 0 .proceed, .act 0 .proceed,
    .act 0 (.hashed "$2a$12$new"), .act 0 .proceed, .act 0 .proceed,
    .spawn (some ⟨plain₀, "other password"⟩), .act 1 .proceed, .act 1 .proceed]

theorem presentedAgain_unused :
    (passwordReset hashTable).Always (OnSteps (ConsumesUnused hashTable)) oneUser
      presentedAgain := by
  apply Machine.always_cons rfl (.spawn _)
  apply Machine.always_cons rfl (.act rfl trivial)
  apply Machine.always_cons rfl (.act rfl trivial)
  apply Machine.always_cons rfl (.act rfl ⟨_, rfl, rfl⟩)
  apply Machine.always_cons rfl (.act rfl trivial)
  apply Machine.always_cons rfl (.act rfl trivial)
  apply Machine.always_cons rfl (.act rfl trivial)
  apply Machine.always_cons rfl (.spawn _)
  apply Machine.always_cons rfl (.act rfl trivial)
  apply Machine.always_cons rfl (.act rfl trivial)
  trivial

theorem presentedAgain_run :
    ∃ w, (passwordReset hashTable).run oneUser presentedAgain = some w ∧
      w.shared.resets = [⟨hashTable plain₀, "u1", "$2a$12$new"⟩] :=
  ⟨_, rfl, rfl⟩

theorem reset_once_presentedAgain :
    ∃ w, (passwordReset hashTable).run oneUser presentedAgain = some w ∧
      (w.shared.resets.map fun reset => reset.token).Nodup := by
  obtain ⟨w, hw, _⟩ := presentedAgain_run
  exact ⟨w, hw, reset_once oneUser_init hw presentedAgain_unused⟩

/-- Two requests select the token before one of them uses it up. -/
def twoResets : ResetTrace :=
  [.spawn (some ⟨plain₀, "new password"⟩), .spawn (some ⟨plain₀, "other password"⟩),
    .act 0 .proceed, .act 1 .proceed, .act 0 .proceed, .act 1 .proceed, .act 0 .proceed,
    .act 0 (.hashed "$2a$12$new"), .act 0 .proceed, .act 0 .proceed, .act 1 .proceed,
    .act 1 (.hashed "$2a$12$other"), .act 1 .proceed, .act 1 .proceed]

theorem twoResets_run :
    ∃ w, (passwordReset hashTable).run oneUser twoResets = some w ∧
      w.shared.resets = [⟨hashTable plain₀, "u1", "$2a$12$other"⟩,
        ⟨hashTable plain₀, "u1", "$2a$12$new"⟩] :=
  ⟨_, rfl, rfl⟩

theorem reset_twice :
    ¬ ∀ (hashOpaqueToken : String → TokenHash) (w₀ w : World CredentialStore ResetCall)
      (es : ResetTrace), (passwordReset hashOpaqueToken).init w₀ →
      (passwordReset hashOpaqueToken).run w₀ es = some w →
      (w.shared.resets.map fun reset => reset.token).Nodup := by
  intro h
  obtain ⟨w, hw, hresets⟩ := twoResets_run
  have hnodup := h hashTable _ w _ oneUser_init hw
  rw [hresets] at hnodup
  exact absurd hnodup (by simp)

end Leetrank
