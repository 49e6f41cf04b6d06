import Leetrank.Auth.LoginThrottle
import Mathlib.Order.Nat

namespace Leetrank
set_option autoImplicit true

open EventMachine Threads

/-- No lock lasts longer than `lockoutDuration` from now. -/
def LockoutStore.Bounded (s : LockoutStore) : Prop :=
  ∀ identifier row, s.lockouts identifier = some row → row.lockedUntil ≤ s.now + lockoutDuration

/-- The instants that a request carries: an expired lock that it purges, a lock that it stores. -/
def LoginPc.Timely (now : Time) : LoginPc → Prop
  | .purge t => t < now
  | .lock t => t ≤ now + lockoutDuration
  | .check | .checkTime _ | .refuse _ | .lookup | .compare _ | .recordFailure _ | .countSince
  | .count _ | .lockUntil | .locked _ | .recordSuccess _ | .clear _ | .finish _ | .returned _ => True

theorem LoginPc.Timely.of_timeless {pc : LoginPc} (h : pc.timeless = true) (now : Time) :
    pc.Timely now := by
  cases pc <;> trivial

theorem LoginPc.Timely.mono {pc : LoginPc} (h : pc.Timely now) (hle : now ≤ now') :
    pc.Timely now' := by
  cases pc with
  | purge t => exact Int.lt_of_lt_of_le h hle
  | lock t => exact Int.le_trans h (Int.add_le_add_right hle _)
  | check | checkTime | refuse | lookup | compare | recordFailure | countSince | count | lockUntil
  | locked | recordSuccess | clear | finish | returned => trivial

theorem LoginStep.now_eq (h : LoginStep s call e s' call') : s'.now = s.now := by
  cases h with
  | purge =>
    rw [LockoutStore.purge]
    split <;> rfl
  | goOn _ hn => exact hn
  | unlocked | locked | checkFailed | expired | unexpired | refuse | lockUntil | lock | clear => rfl

theorem LoginStep.identifier_eq (h : LoginStep s call e s' call') :
    call'.identifier = call.identifier := by
  cases h <;> rfl

theorem LoginStep.timely (h : LoginStep s call e s' call') : call'.pc.Timely s'.now := by
  rw [h.now_eq]
  cases h with
  | expired _ ht => exact ht
  | lockUntil => exact Int.le_refl _
  | lock _ hpc' => exact .of_timeless hpc' _
  | goOn _ _ _ _ hpc' => exact .of_timeless hpc' _
  | unlocked | locked | checkFailed | unexpired | refuse | purge | clear => trivial

/-- A step changes the lock of its own identifier only, and in one of three ways. -/
theorem LoginStep.lockouts_cases (h : LoginStep s call e s' call') :
    s'.lockouts = s.lockouts ∨
      (∃ t row, call.pc = .purge t ∧ s.lockouts call.identifier = some row ∧
        row.lockedUntil = t ∧ s'.lockouts = Function.update s.lockouts call.identifier none) ∨
      (∃ t, call.pc = .lock t ∧
        s'.lockouts = Function.update s.lockouts call.identifier
          (some ⟨t, "too_many_failed_logins"⟩)) ∨
      ∃ userId, call.pc = .clear userId ∧ e = .proceed ∧
        s'.lockouts = Function.update s.lockouts call.identifier none := by
  cases h with
  | @purge t _ hpc =>
    rw [LockoutStore.purge]
    split
    next hseen =>
      obtain ⟨row, hrow, ht⟩ := (Option.any_eq_true ..).1 hseen
      exact .inr (.inl ⟨t, row, hpc, hrow, beq_iff_eq.1 ht, rfl⟩)
    next => exact .inl rfl
  | lock hpc => exact .inr (.inr (.inl ⟨_, hpc, rfl⟩))
  | clear hpc => exact .inr (.inr (.inr ⟨_, hpc, rfl, rfl⟩))
  | goOn hl => exact .inl hl
  | unlocked | locked | checkFailed | expired | unexpired | refuse | lockUntil => exact .inl rfl

theorem row_of_update_none {f : String → Option AccountLockout}
    (h : Function.update f k none identifier = some row) : f identifier = some row := by
  by_cases hi : identifier = k
  · rw [hi, Function.update_self] at h
    cases h
  · rwa [Function.update_of_ne hi] at h

theorem LoginStep.bounded (h : LoginStep s call e s' call') (hb : s.Bounded)
    (ht : call.pc.Timely s.now) : s'.Bounded := by
  intro identifier row hrow
  rw [h.now_eq]
  rcases h.lockouts_cases with he | ⟨_, _, _, _, _, he⟩ | ⟨t, hpc, he⟩ | ⟨_, _, _, he⟩
  · exact hb identifier row (he ▸ hrow)
  · exact hb identifier row (row_of_update_none (he ▸ hrow))
  · rw [he] at hrow
    by_cases hi : identifier = call.identifier
    · rw [hi, Function.update_self] at hrow
      cases hrow
      rw [hpc] at ht
      exact ht
    · rw [Function.update_of_ne hi] at hrow
      exact hb identifier row hrow
  · exact hb identifier row (row_of_update_none (he ▸ hrow))

/-- The instants that a request carries, or nothing if it has not started. -/
def TimelyCall (s : LockoutStore) (_ : Nat) (o : Option LoginCall) : Prop :=
  ∀ call, o = some call → call.pc.Timely s.now

theorem loginProgram_stable :
    loginProgram.Stable (fun _ _ _ _ => True) LockoutStore.Bounded TimelyCall where
  start := by
    rintro s i request _ _ _ ⟨⟩
    trivial
  ambient := by
    intro s elapsed hb
    have hle : s.now ≤ s.now + elapsed := Int.le_add_of_nonneg_right (Int.natCast_nonneg elapsed)
    refine ⟨?_, fun i o h call hcall => (h call hcall).mono hle⟩
    intro identifier row hrow
    exact Int.le_trans (hb identifier row hrow) (Int.add_le_add_right hle _)
  step := by
    intro s i call e s' call' hb ht _ h
    have hstep := loginStep_cases h
    refine ⟨hstep.bounded hb (ht call rfl), ?_, ?_⟩
    · rintro _ ⟨⟩
      exact hstep.timely
    · intro j o _ ho call₁ hcall₁
      rw [hstep.now_eq]
      exact ho call₁ hcall₁

theorem timely_of_reachable (hw : loginService.Reachable w) :
    Holds LockoutStore.Bounded TimelyCall w := by
  obtain ⟨w₀, es, h₀, hr⟩ := hw
  have hC : loginService.Always (OnSteps fun _ _ _ _ => True) w₀ es :=
    Machine.always_of_events fun _ _ _ _ _ _ _ _ _ => trivial
  refine (loginProgram_stable.preserves _).run (holds_start h₀ ?_) hC hr
  rintro s ⟨_, hnone⟩
  refine ⟨?_, nofun⟩
  intro identifier row hrow
  rw [hnone] at hrow
  cases hrow

/-- The account is locked at least until `B`, and the locks that requests in progress still store
expire no earlier. -/
def LockedFor (w : World LockoutStore LoginCall) (a : String) (B : Time) : Prop :=
  (∃ row, w.shared.lockouts a = some row ∧ B ≤ row.lockedUntil) ∧
    ∀ (i : Nat) (call : LoginCall) (t : Time), w.threads[i]? = some call →
      call.identifier = a → call.pc = .lock t → B ≤ t

/-- No login with the right password clears the lock. -/
def KeepsLock (a : String) : StepProp LockoutStore LoginCall LoginEvent := fun _ _ call e =>
  call.identifier = a → ∀ userId, call.pc = .clear userId → e ≠ .proceed

/-- The request has not read the lock yet, or is being refused because of it. -/
def LoginPc.Refused (B : Time) : LoginPc → Prop
  | .checkTime t => B ≤ t
  | .check | .refuse _ | .returned _ => True
  | .purge _ | .lookup | .compare _ | .recordFailure _ | .countSince | .count _ | .lockUntil
  | .lock _ | .locked _ | .recordSuccess _ | .clear _ | .finish _ => False

theorem LoginPc.Refused.not_admitted {pc : LoginPc} (h : pc.Refused B) : pc.admitted = false := by
  cases pc <;> trivial

structure Locking (a : String) (B : Time) (s : LockoutStore) : Prop where
  soon : B ≤ s.now + lockoutDuration
  locked : s.now ≤ B → ∃ row, s.lockouts a = some row ∧ B ≤ row.lockedUntil

/-- What holds of a request for the account, unless it is exempt or its check failed. -/
structure HeldOff (B : Time) (exempt : Prop) (s : LockoutStore) (call : LoginCall) : Prop where
  timely : call.pc.Timely s.now
  lock : ∀ t, call.pc = .lock t → B ≤ t
  refused : s.now ≤ B → ¬ exempt → call.checkFailed = false → call.pc.Refused B

theorem Locking.step (hG : Locking a B s) (h : LoginStep s call e s' call')
    (hc : call.identifier = a → HeldOff B exempt s call)
    (hk : call.identifier = a → ∀ userId, call.pc = .clear userId → e ≠ .proceed) :
    Locking a B s' := by
  refine ⟨h.now_eq ▸ hG.soon, ?_⟩
  intro hnow
  rw [h.now_eq] at hnow
  obtain ⟨row, hrow, hB⟩ := hG.locked hnow
  by_cases ha : call.identifier = a
  · rcases h.lockouts_cases with he | ⟨t, row', hpc, hrow', ht, _⟩ | ⟨t, hpc, he⟩ | ⟨u, hpc, hp, _⟩
    · exact ⟨row, he ▸ hrow, hB⟩
    · -- the lock that a request purges has expired
      have htimely := (hc ha).timely
      rw [ha, hrow] at hrow'
      cases hrow'
      rw [hpc] at htimely
      exact absurd (Int.lt_of_lt_of_le htimely hnow) (Int.not_lt.2 (ht ▸ hB))
    · exact ⟨_, by rw [he, ha, Function.update_self], (hc ha).lock t hpc⟩
    · exact absurd hp (hk ha u hpc)
  · have hsame : s'.lockouts a = s.lockouts a := by
      rcases h.lockouts_cases with he | ⟨_, _, _, _, _, he⟩ | ⟨_, _, he⟩ | ⟨_, _, _, he⟩
      · rw [he]
      all_goals rw [he, Function.update_of_ne (Ne.symm ha)]
    exact ⟨row, hsame.trans hrow, hB⟩

theorem LoginStep.lock_eq (h : LoginStep s call e s' call') (hpc : call'.pc = .lock t) :
    t = s.now + lockoutDuration := by
  cases h with
  | lockUntil =>
    cases hpc
    rfl
  | lock _ ht | goOn _ _ _ _ ht =>
    rw [LoginCall.goto_pc] at hpc
    rw [hpc] at ht
    cases ht
  | unlocked | locked | checkFailed | expired | unexpired | refuse | purge | clear => cases hpc

theorem HeldOff.step (hG : Locking a B s) (h : LoginStep s call e s' call')
    (ha : call.identifier = a) (hc : HeldOff B exempt s call) : HeldOff B exempt s' call' where
  timely := h.timely
  lock := fun t hpc => h.lock_eq hpc ▸ hG.soon
  refused := by
    intro hnow he hf
    rw [h.now_eq] at hnow
    have hold := hc.refused hnow he
    cases h with
    | unlocked _ hnone =>
      obtain ⟨row, hrow, _⟩ := hG.locked hnow
      rw [ha, hrow] at hnone
      cases hnone
    | locked _ hrow =>
      obtain ⟨row, hrow', hB⟩ := hG.locked hnow
      rw [ha, hrow'] at hrow
      cases hrow
      exact hB
    | checkFailed => cases hf
    | expired hpc ht =>
      rw [hpc] at hold
      exact absurd (Int.lt_of_lt_of_le ht hnow) (Int.not_lt.2 (hold hf))
    | unexpired | refuse => trivial
    | purge hpc | lockUntil hpc | lock hpc _ | clear hpc =>
      rw [hpc] at hold
      exact (hold hf).elim
    | goOn _ _ _ hpc _ =>
      rw [(hold hf).not_admitted] at hpc
      cases hpc

def HeldOffCall (a : String) (B : Time) (exempt : Nat → Prop) (s : LockoutStore) (i : Nat)
    (o : Option LoginCall) : Prop :=
  ∀ call, o = some call → call.identifier = a → HeldOff B (exempt i) s call

theorem lockout_stable (a : String) (B : Time) (exempt : Nat → Prop) :
    loginProgram.Stable (KeepsLock a) (Locking a B) (HeldOffCall a B exempt) where
  start := by
    rintro s i request _ _ _ ⟨⟩ _
    exact ⟨trivial, nofun, fun _ _ _ => trivial⟩
  ambient := by
    intro s elapsed hG
    have hle : s.now ≤ s.now + elapsed := Int.le_add_of_nonneg_right (Int.natCast_nonneg elapsed)
    refine ⟨⟨?_, fun hnow => hG.locked (Int.le_trans hle hnow)⟩, ?_⟩
    · exact Int.le_trans hG.soon (Int.add_le_add_right hle _)
    · intro i o h call hcall ha
      obtain ⟨ht, hl, hr⟩ := h call hcall ha
      exact ⟨ht.mono hle, hl, fun hnow => hr (Int.le_trans hle hnow)⟩
  step := by
    intro s i call e s' call' hG hc hk h
    have hstep := loginStep_cases h
    refine ⟨hG.step hstep (hc call rfl) hk, ?_, ?_⟩
    · rintro _ ⟨⟩ ha
      rw [hstep.identifier_eq] at ha
      exact (hc call rfl ha).step hG hstep ha
    · intro j o _ ho call₁ hcall₁ ha
      obtain ⟨ht, hl, hr⟩ := ho call₁ hcall₁ ha
      rw [← hstep.now_eq] at ht hr
      exact ⟨ht, hl, hr⟩

theorem recentFailureCount_record (s : LockoutStore) (identifier : String) (userId : Option String)
    (ip userAgent : String) (since : Time) :
    (s.recordLoginAttempt identifier userId ip userAgent false).recentFailureCount identifier
        since = s.recentFailureCount identifier since + if since ≤ s.now then 1 else 0 := by
  simp [LockoutStore.recentFailureCount, LockoutStore.recordLoginAttempt, List.countP_cons]

theorem LoginStep.attempts_suffix (h : LoginStep s call e s' call') :
    s.attempts <:+ s'.attempts := by
  cases h with
  | purge =>
    rw [LockoutStore.purge]
    split <;> exact List.suffix_rfl
  | goOn _ _ ha => exact ha
  | unlocked | locked | checkFailed | expired | unexpired | refuse | lockUntil | lock | clear =>
    exact List.suffix_rfl

/-- No attempt is ever forgotten. -/
theorem recentFailureCount_mono (identifier : String) (since : Time)
    (hr : loginService.run w es = some w') :
    w.shared.recentFailureCount identifier since ≤
      w'.shared.recentFailureCount identifier since := by
  refine Machine.run_mono (f := fun w : World LockoutStore LoginCall =>
    w.shared.recentFailureCount identifier since) ?_ hr
  intro w e w' hs
  cases e with
  | spawn | ambient =>
    cases hs
    exact Nat.le_refl _
  | act i e =>
    obtain ⟨call, s, call', -, hstep, rfl⟩ := Program.next_act hs
    exact (loginStep_cases hstep).attempts_suffix.sublist.countP_le

/-- The next statement of a request succeeds, and then others go on for a while, and time passes. -/
def Proceeds (i : Nat) (w : World LockoutStore LoginCall)
    (Q : World LockoutStore LoginCall → Prop) : Prop :=
  AndThen loginService i .proceed w Q

/-- The five statements and readings of the clock after a comparison that fails: the attempt is
recorded, the window read, the count decides, the expiry is computed and the lock written. -/
theorem failure_locks (hi : w.threads[i]? = some call) (hpc : call.pc = .recordFailure user) :
    Proceeds i w fun w₁ => Proceeds i w₁ fun w₂ =>
      w.shared.recentFailureCount call.identifier (w₁.shared.now - lockoutWindow) +
          (if w₁.shared.now - lockoutWindow ≤ w.shared.now then 1 else 0) ≤
        w₂.shared.recentFailureCount call.identifier (w₁.shared.now - lockoutWindow) ∧
      (lockoutThreshold ≤
          w₂.shared.recentFailureCount call.identifier (w₁.shared.now - lockoutWindow) →
        Proceeds i w₂ fun w₃ => Proceeds i w₃ fun w₄ =>
          ∃ w', loginService.step w₄ (.act i .proceed) = some w' ∧
            w'.shared.lockouts call.identifier =
              some ⟨w₃.shared.now + lockoutDuration, "too_many_failed_logins"⟩) := by
  obtain ⟨identifier, ip, userAgent, checkFailed, pc⟩ := call
  cases hpc
  refine Program.andThen hi rfl ?_
  intro es₁ w₁ hr₁ h₁
  refine Program.andThen h₁ rfl ?_
  intro es₂ w₂ hr₂ h₂
  constructor
  · rw [← recentFailureCount_record w.shared identifier user ip userAgent]
    have hbefore := recentFailureCount_mono identifier (w₁.shared.now - lockoutWindow) hr₁
    have hafter := recentFailureCount_mono identifier (w₁.shared.now - lockoutWindow) hr₂
    exact Nat.le_trans hbefore hafter
  · intro hn
    have hdecided : loginStep w₂.shared
        ⟨identifier, ip, userAgent, checkFailed, .count (w₁.shared.now - lockoutWindow)⟩ .proceed =
          some (w₂.shared, ⟨identifier, ip, userAgent, checkFailed, .lockUntil⟩) :=
      if_neg (Nat.not_lt.2 hn)
    refine Program.andThen h₂ hdecided ?_
    intro es₃ w₃ hr₃ h₃
    refine Program.andThen h₃ rfl ?_
    intro es₄ w₄ hr₄ h₄
    exact ⟨_, Program.step_act h₄ rfl _, Function.update_self ..⟩

/-- Whatever others do in between, a request that records a failure counts it and those before it
that are still in the window, and stores a lock if these are enough and its statements succeed.
Until the lock expires, and as long as no login clears it, a password is compared only for requests
that had read the lock before, or whose check fails. -/
theorem lockout_effective (hw : loginService.Reachable w) :
    (∀ (i : Nat) (call : LoginCall) (user : Option String), w.threads[i]? = some call →
      call.pc = .recordFailure user →
      Proceeds i w fun w₁ => Proceeds i w₁ fun w₂ =>
        w.shared.recentFailureCount call.identifier (w₁.shared.now - lockoutWindow) +
            (if w₁.shared.now - lockoutWindow ≤ w.shared.now then 1 else 0) ≤
          w₂.shared.recentFailureCount call.identifier (w₁.shared.now - lockoutWindow) ∧
        (lockoutThreshold ≤
            w₂.shared.recentFailureCount call.identifier (w₁.shared.now - lockoutWindow) →
          Proceeds i w₂ fun w₃ => Proceeds i w₃ fun w₄ =>
            ∃ w', loginService.step w₄ (.act i .proceed) = some w' ∧
              w'.shared.lockouts call.identifier =
                some ⟨w₃.shared.now + lockoutDuration, "too_many_failed_logins"⟩)) ∧
      ∀ a B, LockedFor w a B → ∀ es w', loginService.run w es = some w' →
        loginService.Always (OnSteps (KeepsLock a)) w es → w'.shared.now ≤ B →
          ∀ (i : Nat) (call : LoginCall) (user : Option String), w'.threads[i]? = some call →
            call.identifier = a → call.pc = .compare user →
            call.checkFailed = true ∨
              ∃ call₀, w.threads[i]? = some call₀ ∧ call₀.pc ≠ .check := by
  constructor
  · intro i call user hi hpc
    exact failure_locks hi hpc
  · rintro a B ⟨⟨row, hrow, hB⟩, hlocks⟩ es w' hr hC hnow i call user hi ha hpc
    obtain ⟨hb, ht⟩ := timely_of_reachable hw
    let exempt : Nat → Prop := fun i => ∃ call₀, w.threads[i]? = some call₀ ∧ call₀.pc ≠ .check
    have hstart : Holds (Locking a B) (HeldOffCall a B exempt) w := by
      refine ⟨⟨Int.le_trans hB (hb a row hrow), fun _ => ⟨row, hrow, hB⟩⟩, ?_⟩
      intro j call₁ hj ha₁
      refine ⟨ht j call₁ hj, fun t hpc => hlocks j call₁ t hj ha₁ hpc, ?_⟩
      intro _ he _
      have hcheck : call₁.pc = .check := by
        by_contra hne
        exact he ⟨call₁, hj, hne⟩
      rw [hcheck]
      trivial
    have hend := ((lockout_stable a B exempt).preserves _).run hstart hC hr
    by_contra hno
    rw [not_or, Bool.not_eq_true] at hno
    have hrefused := (hend.2 i call hi ha).refused hnow hno.2 hno.1
    rw [hpc] at hrefused
    exact hrefused

def noAttempts : World LockoutStore LoginCall := ⟨⟨[], fun _ => none, 0⟩, []⟩

abbrev LoginTrace := List (Event LoginRequest Nat LoginEvent)

/-- The request with this number finds no lock and compares a wrong password. -/
def wrongPassword (i : Nat) : LoginTrace :=
  [.spawn ⟨"alice", "10.0.0.1", "curl"⟩, .act i .proceed, .act i (.found "u1"),
    .act i (.compared false)]

/-- It records the failure and counts those of the last hour. -/
def failedLogin (i : Nat) : LoginTrace :=
  wrongPassword i ++ [.act i .proceed, .act i .proceed, .act i .proceed]

/-- Five failures, and four more as soon as the limiters let the account pass again. -/
def nineFailures : LoginTrace :=
  (List.range 5).flatMap failedLogin ++ [.ambient (15 * minute + 1).toNat] ++
    ([5, 6, 7, 8] : List Nat).flatMap failedLogin

def eleventhRequest : LoginTrace :=
  [.spawn ⟨"alice", "10.0.0.1", "curl"⟩, .act 10 .proceed, .act 10 (.found "u1")]

/-- While the tenth failure is recorded, counted and answered by a lock, time passes, and another
request compares its password. -/
theorem lockout_effective_nineFailures :
    ∃ w w₁ w₂ w₃ w₄ w', loginService.run noAttempts (nineFailures ++ wrongPassword 9) = some w ∧
      loginService.run w [.act 9 .proceed, .ambient 1] = some w₁ ∧
      loginService.run w₁ (.act 9 .proceed :: eleventhRequest) = some w₂ ∧
      loginService.run w₂ [.act 9 .proceed, .ambient 2] = some w₃ ∧
      loginService.run w₃ [.act 9 .proceed, .act 10 (.compared false)] = some w₄ ∧
      loginService.step w₄ (.act 9 .proceed) = some w' ∧
      w'.shared.lockouts "alice" =
        some ⟨15 * minute + 1 + 1 + 2 + lockoutDuration, "too_many_failed_logins"⟩ := by
  obtain ⟨w, call, w₁, w₂, w₃, w₄, hw, hi, ha, hpc, h₁, h₂, hcount, h₃, hnow, h₄⟩ :
      ∃ w call w₁ w₂ w₃ w₄,
        loginService.run noAttempts (nineFailures ++ wrongPassword 9) = some w ∧
        w.threads[9]? = some call ∧ call.identifier = "alice" ∧
        call.pc = .recordFailure (some "u1") ∧
        loginService.run w [.act 9 .proceed, .ambient 1] = some w₁ ∧
        loginService.run w₁ (.act 9 .proceed :: eleventhRequest) = some w₂ ∧
        w₂.shared.recentFailureCount "alice" (w₁.shared.now - lockoutWindow) = 10 ∧
        loginService.run w₂ [.act 9 .proceed, .ambient 2] = some w₃ ∧
        w₃.shared.now = 15 * minute + 1 + 1 + 2 ∧
        loginService.run w₃ [.act 9 .proceed, .act 10 (.compared false)] = some w₄ :=
    ⟨_, _, _, _, _, _, rfl, rfl, rfl, rfl, rfl, rfl, rfl, rfl, rfl, rfl⟩
  have hreach : loginService.Reachable w := ⟨_, _, ⟨⟨rfl, rfl⟩, rfl⟩, hw⟩
  have hlocks := (lockout_effective hreach).1 9 call _ hi hpc
  have hcounted := ((hlocks.2 [.ambient 1] w₁ (by simp) h₁).2 eleventhRequest w₂
    (by simp [eleventhRequest]) h₂).2
  rw [ha, hcount] at hcounted
  obtain ⟨w', hs, hlock⟩ := ((hcounted (by decide)).2 [.ambient 2] w₃ (by simp) h₃).2
    [.act 10 (.compared false)] w₄ (by simp) h₄
  rw [hnow] at hlock
  exact ⟨w, w₁, w₂, w₃, w₄, w', hw, h₁, h₂, h₃, h₄, hs, hlock⟩

/-- The requests of a run pass a limiter that goes by some part of them. -/
def withinLimit (key : LoginRequest → String) : RateEntries → Time → LoginTrace → Bool
  | _, _, [] => true
  | entries, now, .spawn request :: es =>
    (entries.allow (key request) now).2.1 &&
      withinLimit key (entries.allow (key request) now).1 now es
  | entries, now, .ambient elapsed :: es => withinLimit key entries (now + elapsed) es
  | entries, now, .act _ _ :: es => withinLimit key entries now es

/-- The requests of a run from the start of a process pass both of its limiters. No request names
another client in its headers. -/
def PassLimiters (now : Time) (es : LoginTrace) : Prop :=
  withinLimit LoginRequest.accountKey (fun _ => none) now es = true ∧
    withinLimit LoginRequest.ip (fun _ => none) now es = true

/-- The tenth failure comes at the end of the second window of the limiters; it is recorded, but the
query that counts the failures returns an error. -/
def countFails : LoginTrace :=
  nineFailures ++ [.ambient (15 * minute).toNat] ++ wrongPassword 9 ++
    [.act 9 .proceed, .act 9 .proceed, .act 9 .fail]

/-- With the third window the next request compares a password. -/
def nextLogin : LoginTrace := .ambient 1 :: eleventhRequest

theorem countFails_run :
    ∃ w w' w'' call, loginService.run noAttempts countFails = some w ∧
      w.shared.recentFailureCount "alice" (w.shared.now - lockoutWindow) = 10 ∧
      loginService.run w nextLogin = some w' ∧ w'.shared.now = w.shared.now + 1 ∧
      w'.threads[10]? = some call ∧ call.identifier = "alice" ∧
      loginService.step w' (.act 10 (.compared true)) = some w'' :=
  ⟨_, _, _, _, rfl, rfl, rfl, rfl, rfl, rfl, rfl⟩

theorem countFails_passes : PassLimiters 0 (countFails ++ nextLogin) := by
  constructor <;> decide +kernel

theorem lockout_ineffective :
    ¬ ∀ (w₀ w w' : World LockoutStore LoginCall) (es es' : LoginTrace) (a : String) (i : Nat)
      (call : LoginCall) (matched : Bool), loginService.init w₀ →
      PassLimiters w₀.shared.now (es ++ es') → loginService.run w₀ es = some w →
      lockoutThreshold ≤ w.shared.recentFailureCount a (w.shared.now - lockoutWindow) →
      loginService.run w es' = some w' → w'.shared.now ≤ w.shared.now + lockoutDuration →
      w'.threads[i]? = some call → call.identifier = a →
      loginService.step w' (.act i (.compared matched)) = none := by
  intro h
  obtain ⟨w, w', w'', call, hw, hcount, hw', hnow, hi, ha, hstep⟩ := countFails_run
  have hsoon : w'.shared.now ≤ w.shared.now + lockoutDuration := by
    rw [hnow]
    exact Int.add_le_add_left (by decide) _
  have hnone := h noAttempts w w' _ _ "alice" 10 call true ⟨⟨rfl, rfl⟩, rfl⟩ countFails_passes hw
    (by rw [hcount]; decide) hw' hsoon hi ha
  rw [hstep] at hnone
  cases hnone

end Leetrank
