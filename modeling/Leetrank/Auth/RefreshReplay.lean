import Leetrank.Auth.RefreshSafety
import Leetrank.Strings

namespace Leetrank
set_option autoImplicit true

open EventMachine ReadCommitted Rotation Threads

/-- What `refresh` reads of a request: its cookie, and the field `refreshToken` of its body. -/
structure RefreshRequest where
  cookie : Option String
  body : Option String

def RefreshRequest.plain (request : RefreshRequest) : String :=
  let plain := request.cookie.getD ""
  if plain = "" then trimSpace (request.body.getD "") else plain

inductive RefreshBody where
  | error (text : String)
  | tokens (token refreshToken : String) (expiresIn : Nat)

inductive CookieChange where
  | keep
  | clear
  | set (value : String)

structure RefreshResponse where
  status : Nat
  body : RefreshBody
  sessionCookie : CookieChange
  refreshCookie : CookieChange

def accessSeconds : Nat := 15 * 60

def refreshTokenRequired : RefreshResponse :=
  ⟨401, .error "refresh token required", .keep, .keep⟩

/-- The call that `refresh` makes, unless the request has no token. -/
def refreshCall (request : RefreshRequest) : Except RefreshResponse KeyStoreRequest :=
  if request.plain = "" then .error refreshTokenRequired
  else .ok (.rotateRefresh request.plain)

/-- What `refresh` answers, given the role of the user, if it can be read, and a way to sign. -/
def refreshResponse (role : Option String) (sign : String → String → Except String String) :
    Except String Rotated → RefreshResponse
  | .error err => ⟨401, .error err, .keep, .clear⟩
  | .ok rotated =>
    match sign rotated.userId (role.getD "user") with
    | .error _ => ⟨500, .error "internal server error", .keep, .keep⟩
    | .ok access =>
      ⟨200, .tokens access rotated.newPlain accessSeconds, .set access, .set rotated.newPlain⟩

def NoLive (rows : TokenHash → Option RefreshToken) (userId : String) (now : Time) : Prop :=
  ∀ k r, rows k = some r → r.userId = userId → ¬ r.Live now

section
variable {hashRefresh : String → TokenHash}

/-- A transaction that has not begun has changed nothing. -/
def Unstarted (s : KeyStore) (tx : Nat) : Option KeyStoreCall → Prop
  | none => s.tokens.Wrote tx []
  | some _ => True

theorem keyStore_stable_unstarted : (keyStoreProgram hashRefresh).Stable (fun _ _ _ _ => True)
    (fun _ => True) Unstarted where
  start := fun _ _ _ _ _ => trivial
  ambient := fun _ _ _ => ⟨trivial, fun _ _ h => h⟩
  step := by
    intro s i call e s' call' _ _ _ h
    refine ⟨trivial, trivial, ?_⟩
    intro j o hj ho
    cases o with
    | none => exact Table.Wrote.respects ho (keyStoreStep_respects h) hj
    | some => trivial

theorem unstarted_of_reachable (hw : (keyStore hashRefresh).Reachable w) :
    w.shared.tokens.Wrote w.threads.length [] := by
  obtain ⟨w₀, es, h₀, hr⟩ := hw
  have hstart : ∀ s : KeyStore, (s.tokens = .ofRows fun _ => none) →
      True ∧ ∀ tx, Unstarted s tx none := by
    intro s hs
    exact ⟨trivial, (keyStore_start hashRefresh s hs).2⟩
  have hC : (keyStore hashRefresh).Always (OnSteps fun _ _ _ _ => True) w₀ es :=
    Machine.always_of_events fun _ _ _ _ _ _ _ _ _ => trivial
  have hholds := (keyStore_stable_unstarted.preserves _).run (holds_start h₀ hstart) hC hr
  have hnone := hholds.2 w.threads.length
  rwa [List.getElem?_eq_none (Nat.le_refl _)] at hnone

/-- A rotation of a revoked token ends with an error as soon as it has selected the token. -/
structure Replaying (rows : TokenHash → Option RefreshToken) (plain : String) (i : Nat)
    (w : World KeyStore KeyStoreCall) : Prop where
  rows : w.shared.tokens.rows = rows
  wrote : w.shared.tokens.Wrote i []
  call : ∃ pc, w.threads[i]? = some (.rotate plain pc) ∧
    (pc = .begin ∨ (∃ t, pc = .select t) ∨ ∃ err, pc = .returned (.error err))

theorem Replaying.step {rows : TokenHash → Option RefreshToken}
    (hp : rows (hashRefresh plain) = some r) (hrev : r.revokedAt.isSome = true) (i : Nat) :
    (keyStore hashRefresh).Preserves (fun _ e _ => e.Alone i) (Replaying rows plain i) := by
  intro w e w' h hstep he
  cases e with
  | spawn request => cases he
  | ambient elapsed =>
    cases hstep
    exact ⟨h.rows, h.wrote, h.call⟩
  | act j e =>
    cases he
    obtain ⟨call, s, call', hcall, hs, rfl⟩ := Program.next_act hstep
    obtain ⟨pc, hpc, hcases⟩ := h.call
    rw [hpc] at hcall
    cases hcall
    obtain ⟨⟨s', pc'⟩, hs', he'⟩ := Option.map_eq_some_iff.1 hs
    cases he'
    have hthread := List.getElem?_set_self (a := KeyStoreCall.rotate plain pc')
      (World.lt_length hpc)
    cases rotateStep_cases hashRefresh hs' with
    | begin => exact ⟨h.rows, h.wrote, _, hthread, .inr (.inl ⟨_, rfl⟩)⟩
    | refuse => exact ⟨h.rows, Table.Wrote.rollback _ i, _, hthread, .inr (.inr ⟨_, rfl⟩)⟩
    | fail => exact ⟨h.rows, Table.Wrote.rollback _ i, _, hthread, .inr (.inr ⟨_, rfl⟩)⟩
    | select hok =>
      -- the check refuses a revoked row
      rw [h.wrote.visible_of_not_mem fun _ => List.not_mem_nil, h.rows, hp, rotateCheck,
        if_pos hrev] at hok
      cases hok
    | updateNone | update | insert | commit => simp at hcases

theorem refreshCall_eq {request : RefreshRequest} (h : refreshCall request = .ok call) :
    call = .rotateRefresh request.plain := by
  unfold refreshCall at h
  split at h
  next => cases h
  next =>
    cases h
    rfl

/-- A refresh request that presents a revoked token is refused, and leaves no live token of the user
exactly if there was none when it came in, apart from those that expire in the meantime. -/
theorem replay_iff (role : Option String) (sign : String → String → Except String String)
    {request : RefreshRequest} (hw : (keyStore hashRefresh).Reachable w)
    (hp : w.shared.tokens.rows (hashRefresh request.plain) = some r)
    (hrev : r.revokedAt.isSome = true) (hcall : refreshCall request = .ok call)
    (hr : (keyStore hashRefresh).run w (.spawn call :: es) = some w')
    (hes : ∀ e ∈ es, e.Alone w.threads.length)
    (hret : w'.threads[w.threads.length]? = some (.rotate request.plain (.returned result))) :
    (∃ err, refreshResponse role sign result = ⟨401, .error err, .keep, .clear⟩) ∧
      (NoLive w'.shared.tokens.rows r.userId w'.shared.now ↔
        NoLive w.shared.tokens.rows r.userId w'.shared.now) := by
  cases refreshCall_eq hcall
  obtain ⟨u, hu, hr⟩ := Machine.run_cons_some hr
  cases hu
  have hstart : Replaying w.shared.tokens.rows request.plain w.threads.length
      ⟨w.shared, w.threads ++ [.rotate request.plain .begin]⟩ :=
    ⟨rfl, unstarted_of_reachable hw, _, List.getElem?_concat_length, .inl rfl⟩
  have hend := (Replaying.step hp hrev _).run hstart
    (Machine.always_of_events fun e he _ _ => hes e he) hr
  refine ⟨?_, by rw [hend.rows]⟩
  obtain ⟨pc, hpc, hcases⟩ := hend.call
  rw [hret] at hpc
  cases hpc
  rcases hcases with h | ⟨t, h⟩ | ⟨err, h⟩
  · cases h
  · cases h
  · cases h
    exact ⟨err, rfl⟩

end

/-- The token that was rotated is presented again. -/
def replayedRequest : RefreshRequest := ⟨some plain₀, none⟩

def replay : KeyStoreTrace :=
  [.spawn (.rotateRefresh plain₀), .act 2 .proceed, .act 2 .proceed]

theorem replay_alone : ∀ e ∈ replay.tail, e.Alone 2 := by
  intro e he
  simp [replay] at he
  rw [he]
  rfl

theorem replay_run :
    ∃ w w' r r' err, (keyStore hashTable).run emptyKeyStore oneRotation = some w ∧
      (keyStore hashTable).run w replay = some w' ∧ w.threads.length = 2 ∧
      w.shared.tokens.rows (hashTable replayedRequest.plain) = some r ∧
      r.revokedAt.isSome = true ∧ r.userId = "u1" ∧
      w'.threads[2]? = some (.rotate replayedRequest.plain (.returned (.error err))) ∧
      w'.shared.tokens.rows (hashTable plain₁) = some r' ∧ r'.userId = "u1" ∧
      r'.Live w'.shared.now :=
  ⟨_, _, _, _, _, rfl, rfl, rfl, rfl, rfl, rfl, rfl, rfl, rfl, rfl, by decide⟩

theorem replay_iff_oneRotation :
    ∃ w w', (keyStore hashTable).run emptyKeyStore oneRotation = some w ∧
      (keyStore hashTable).run w replay = some w' ∧
      (NoLive w'.shared.tokens.rows "u1" w'.shared.now ↔
        NoLive w.shared.tokens.rows "u1" w'.shared.now) := by
  obtain ⟨w, w', r, _, err, hw, hw', hlen, hp, hrev, huser, hret, _⟩ := replay_run
  have hreach : (keyStore hashTable).Reachable w := ⟨_, _, ⟨rfl, rfl⟩, hw⟩
  have hiff := (replay_iff none (fun _ _ => .ok "") hreach hp hrev rfl hw'
    (by rw [hlen]; exact replay_alone) (hlen ▸ hret)).2
  exact ⟨w, w', hw, hw', huser ▸ hiff⟩

/-- The successor of the token stays live. -/
theorem replay_undetected :
    ¬ ∀ (hashRefresh : String → TokenHash) (w w' : World KeyStore KeyStoreCall)
      (es : KeyStoreTrace) (request : RefreshRequest) (call : KeyStoreRequest) (r : RefreshToken)
      (result : Except String Rotated), (keyStore hashRefresh).Reachable w →
      w.shared.tokens.rows (hashRefresh request.plain) = some r → r.revokedAt.isSome = true →
      refreshCall request = .ok call → (keyStore hashRefresh).run w (.spawn call :: es) = some w' →
      (∀ e ∈ es, e.Alone w.threads.length) →
      w'.threads[w.threads.length]? = some (.rotate request.plain (.returned result)) →
      NoLive w'.shared.tokens.rows r.userId w'.shared.now := by
  intro h
  obtain ⟨w, w', r, r', err, hw, hw', hlen, hp, hrev, huser, hret, hk, huser', hlive⟩ := replay_run
  have hreach : (keyStore hashTable).Reachable w := ⟨_, _, ⟨rfl, rfl⟩, hw⟩
  have hno := h hashTable w w' _ replayedRequest _ r _ hreach hp hrev rfl hw'
    (by rw [hlen]; exact replay_alone) (hlen ▸ hret)
  exact hno _ r' hk (huser'.trans huser.symm) hlive

end Leetrank
