import Leetrank.Auth.KeyStore

namespace Leetrank
set_option autoImplicit true

open EventMachine Threads

/-- The number of failed logins in a window that locks an account. -/
def lockoutThreshold : Nat := 10
def lockoutWindow : Time := hour
def lockoutDuration : Time := 15 * minute

structure LoginAttempt where
  identifier : String
  userId : Option String
  success : Bool
  ipAddress : String
  userAgent : String
  createdAt : Time

/-- A row of `AccountLockout`, without its key. -/
structure AccountLockout where
  lockedUntil : Time
  reason : String

structure LockoutStore where
  attempts : List LoginAttempt
  lockouts : String → Option AccountLockout
  now : Time

def LockoutStore.recordLoginAttempt (s : LockoutStore) (identifier : String)
    (userId : Option String) (ip userAgent : String) (success : Bool) : LockoutStore :=
  { s with attempts := ⟨identifier, userId, success, ip, userAgent, s.now⟩ :: s.attempts }

@[simp] theorem LockoutStore.recordLoginAttempt_now (s : LockoutStore) (identifier : String)
    (userId : Option String) (ip userAgent : String) (success : Bool) :
    (s.recordLoginAttempt identifier userId ip userAgent success).now = s.now := rfl

def LockoutStore.recentFailureCount (s : LockoutStore) (identifier : String) (since : Time) : Nat :=
  s.attempts.countP fun attempt =>
    attempt.identifier == identifier && !attempt.success && decide (since ≤ attempt.createdAt)

/-- The deletion of an expired lock, as it was read. -/
def LockoutStore.purge (s : LockoutStore) (identifier : String) (seen : Time) : LockoutStore :=
  if (s.lockouts identifier).any fun row => row.lockedUntil == seen then
    { s with lockouts := Function.update s.lockouts identifier none }
  else s

def LockoutStore.lockAccount (s : LockoutStore) (identifier : String) (lockedUntil : Time) :
    LockoutStore :=
  { s with
    lockouts := Function.update s.lockouts identifier
      (some ⟨lockedUntil, "too_many_failed_logins"⟩) }

def LockoutStore.clearLockout (s : LockoutStore) (identifier : String) : LockoutStore :=
  { s with lockouts := Function.update s.lockouts identifier none }

structure LoginResponse where
  status : Nat
  error : Option String
  retryAfter : Option Int

/-- Whole seconds until an instant, rounded towards zero. -/
def secondsUntil (now t : Time) : Int := (t - now).tdiv second

def accountLocked (now lockedUntil : Time) : LoginResponse :=
  ⟨429, some "account_locked", some (max 1 (secondsUntil now lockedUntil))⟩

def invalidCredentials (retryAfter : Option Int) : LoginResponse :=
  ⟨401, some "invalid credentials", retryAfter⟩

/-- The statements of `login`, and its readings of the clock, from `isLocked` on. -/
inductive LoginPc where
  | check
  | checkTime (lockedUntil : Time)
  | purge (lockedUntil : Time)
  | refuse (lockedUntil : Time)
  | lookup
  | compare (userId : Option String)
  | recordFailure (userId : Option String)
  | countSince
  | count (since : Time)
  | lockUntil
  | lock (lockedUntil : Time)
  | locked (lockedUntil : Time)
  | recordSuccess (userId : String)
  | clear (userId : String)
  | finish (userId : String)
  | returned (response : LoginResponse)

/-- A request under its account key, and whether `isLocked` returned an error to it. -/
structure LoginCall where
  identifier : String
  ip : String
  userAgent : String
  checkFailed : Bool
  pc : LoginPc

/-- A request that has passed the limiters in memory, with the lower-cased identifier. -/
structure LoginRequest where
  accountKey : String
  ip : String
  userAgent : String

/-- What decides how a statement goes on: nothing, the user that was found, the outcome of the
comparison of passwords, an error, or a statement that takes effect but returns an error. -/
inductive LoginEvent where
  | proceed
  | found (userId : String)
  | compared (matched : Bool)
  | fail
  | lost

def loginStart (request : LoginRequest) : LoginCall :=
  ⟨request.accountKey, request.ip, request.userAgent, false, .check⟩

def LoginCall.goto (call : LoginCall) (pc : LoginPc) : LoginCall := { call with pc := pc }

@[simp] theorem LoginCall.goto_identifier (call : LoginCall) (pc : LoginPc) :
    (call.goto pc).identifier = call.identifier := rfl

@[simp] theorem LoginCall.goto_checkFailed (call : LoginCall) (pc : LoginPc) :
    (call.goto pc).checkFailed = call.checkFailed := rfl

@[simp] theorem LoginCall.goto_pc (call : LoginCall) (pc : LoginPc) : (call.goto pc).pc = pc := rfl

/-- One statement of `login`, or one reading of the clock. -/
def loginStep (s : LockoutStore) (call : LoginCall) (e : LoginEvent) :
    Option (LockoutStore × LoginCall) :=
  match call.pc, e with
  | .check, .proceed =>
    match s.lockouts call.identifier with
    | none => some (s, call.goto .lookup)
    | some row => some (s, call.goto (.checkTime row.lockedUntil))
  -- an error of the check lets the request pass
  | .check, .fail => some (s, { call with checkFailed := true, pc := .lookup })
  | .checkTime t, .proceed => some (s, call.goto (if t < s.now then .purge t else .refuse t))
  | .purge t, .proceed => some (s.purge call.identifier t, call.goto .lookup)
  | .purge _, .fail => some (s, call.goto .lookup)
  | .refuse t, .proceed => some (s, call.goto (.returned (accountLocked s.now t)))
  | .lookup, .found userId => some (s, call.goto (.compare (some userId)))
  | .lookup, .fail => some (s, call.goto (.compare none))
  | .compare (some userId), .compared true => some (s, call.goto (.recordSuccess userId))
  -- the comparison with a dummy hash never succeeds
  | .compare userId, .compared _ => some (s, call.goto (.recordFailure userId))
  | .recordFailure userId, .proceed =>
    some (s.recordLoginAttempt call.identifier userId call.ip call.userAgent false,
      call.goto .countSince)
  | .recordFailure _, .fail => some (s, call.goto .countSince)
  | .countSince, .proceed => some (s, call.goto (.count (s.now - lockoutWindow)))
  | .count since, .proceed =>
    if s.recentFailureCount call.identifier since < lockoutThreshold then
      some (s, call.goto (.returned (invalidCredentials none)))
    else some (s, call.goto .lockUntil)
  | .count _, .fail => some (s, call.goto (.returned (invalidCredentials none)))
  | .lockUntil, .proceed => some (s, call.goto (.lock (s.now + lockoutDuration)))
  | .lock t, .proceed => some (s.lockAccount call.identifier t, call.goto (.locked t))
  | .lock t, .lost =>
    some (s.lockAccount call.identifier t, call.goto (.returned (invalidCredentials none)))
  | .lock _, .fail => some (s, call.goto (.returned (invalidCredentials none)))
  | .locked t, .proceed =>
    some (s, call.goto (.returned (invalidCredentials (some (secondsUntil s.now t + 1)))))
  | .recordSuccess userId, .proceed =>
    some (s.recordLoginAttempt call.identifier (some userId) call.ip call.userAgent true,
      call.goto (.clear userId))
  | .recordSuccess userId, .fail => some (s, call.goto (.clear userId))
  | .clear userId, .proceed => some (s.clearLockout call.identifier, call.goto (.finish userId))
  | .clear userId, .fail => some (s, call.goto (.finish userId))
  | .finish _, .proceed => some (s, call.goto (.returned ⟨200, none, none⟩))
  | .finish _, .fail => some (s, call.goto (.returned ⟨500, some "internal server error", none⟩))
  | _, _ => none

def loginProgram : Program LockoutStore LoginCall LoginRequest Nat LoginEvent where
  start := fun _ request => loginStart request
  ambient := fun s elapsed => { s with now := s.now + elapsed }
  step := fun s _ call e => loginStep s call e

/-- Any number of requests over tables that were empty at first. -/
def loginService : Machine (World LockoutStore LoginCall) (Event LoginRequest Nat LoginEvent) :=
  loginProgram.machine fun s => s.attempts = [] ∧ s.lockouts = fun _ => none

/-- The request was let through to the comparison of passwords. -/
def LoginPc.admitted : LoginPc → Bool
  | .purge _ | .lookup | .compare _ | .recordFailure _ | .countSince | .count _ | .lockUntil
  | .lock _ | .locked _ | .recordSuccess _ | .clear _ | .finish _ => true
  | .check | .checkTime _ | .refuse _ | .returned _ => false

/-- The request carries no instant that a later statement compares or stores. -/
def LoginPc.timeless : LoginPc → Bool
  | .purge _ | .lock _ => false
  | .check | .checkTime _ | .refuse _ | .lookup | .compare _ | .recordFailure _ | .countSince
  | .count _ | .lockUntil | .locked _ | .recordSuccess _ | .clear _ | .finish _ | .returned _ => true

/-- What a step does to the locks, and where it takes its request. -/
inductive LoginStep (s : LockoutStore) (call : LoginCall) :
    LoginEvent → LockoutStore → LoginCall → Prop where
  | unlocked (hpc : call.pc = .check) (h : s.lockouts call.identifier = none) :
    LoginStep s call e s (call.goto .lookup)
  | locked (hpc : call.pc = .check) (h : s.lockouts call.identifier = some row) :
    LoginStep s call e s (call.goto (.checkTime row.lockedUntil))
  | checkFailed (hpc : call.pc = .check) :
    LoginStep s call e s { call with checkFailed := true, pc := .lookup }
  | expired (hpc : call.pc = .checkTime t) (h : t < s.now) :
    LoginStep s call e s (call.goto (.purge t))
  | unexpired (hpc : call.pc = .checkTime t) : LoginStep s call e s (call.goto (.refuse t))
  | refuse (hpc : call.pc = .refuse t) : LoginStep s call e s (call.goto (.returned response))
  | purge (hpc : call.pc = .purge t) :
    LoginStep s call e (s.purge call.identifier t) (call.goto .lookup)
  | lockUntil (hpc : call.pc = .lockUntil) :
    LoginStep s call e s (call.goto (.lock (s.now + lockoutDuration)))
  | lock (hpc : call.pc = .lock t) (hpc' : pc'.timeless = true) :
    LoginStep s call e (s.lockAccount call.identifier t) (call.goto pc')
  | clear (hpc : call.pc = .clear userId) :
    LoginStep s call .proceed (s.clearLockout call.identifier) (call.goto (.finish userId))
  | goOn (hl : s'.lockouts = s.lockouts) (hn : s'.now = s.now)
      (ha : s.attempts <:+ s'.attempts) (hpc : call.pc.admitted = true)
      (hpc' : pc'.timeless = true) : LoginStep s call e s' (call.goto pc')

theorem loginStep_cases (h : loginStep s call e = some (s', call')) :
    LoginStep s call e s' call' := by
  unfold loginStep at h
  split at h
  next hpc => -- check
    split at h
    next hn =>
      cases h
      exact .unlocked hpc hn
    next row hr =>
      cases h
      exact .locked hpc hr
  next hpc => -- check, with an error
    cases h
    exact .checkFailed hpc
  next t hpc => -- checkTime
    cases h
    split
    next ht => exact .expired hpc ht
    next => exact .unexpired hpc
  next t hpc => -- purge
    cases h
    exact .purge hpc
  next t hpc => -- purge, with an error
    cases h
    exact .goOn rfl rfl List.suffix_rfl (by rw [hpc]; rfl) rfl
  next t hpc => -- refuse
    cases h
    exact .refuse hpc
  next userId hpc => -- lookup
    cases h
    exact .goOn rfl rfl List.suffix_rfl (by rw [hpc]; rfl) rfl
  next hpc => -- lookup, without a user
    cases h
    exact .goOn rfl rfl List.suffix_rfl (by rw [hpc]; rfl) rfl
  next userId hpc => -- compare, matched
    cases h
    exact .goOn rfl rfl List.suffix_rfl (by rw [hpc]; rfl) rfl
  next userId _ hpc => -- compare
    cases h
    exact .goOn rfl rfl List.suffix_rfl (by rw [hpc]; rfl) rfl
  next userId hpc => -- recordFailure
    cases h
    exact .goOn rfl rfl (List.suffix_cons ..) (by rw [hpc]; rfl) rfl
  next hpc => -- recordFailure, with an error
    cases h
    exact .goOn rfl rfl List.suffix_rfl (by rw [hpc]; rfl) rfl
  next hpc => -- countSince
    cases h
    exact .goOn rfl rfl List.suffix_rfl (by rw [hpc]; rfl) rfl
  next since hpc => -- count
    split at h
    next =>
      cases h
      exact .goOn rfl rfl List.suffix_rfl (by rw [hpc]; rfl) rfl
    next =>
      cases h
      exact .goOn rfl rfl List.suffix_rfl (by rw [hpc]; rfl) rfl
  next hpc => -- count, with an error
    cases h
    exact .goOn rfl rfl List.suffix_rfl (by rw [hpc]; rfl) rfl
  next hpc => -- lockUntil
    cases h
    exact .lockUntil hpc
  next t hpc => -- lock
    cases h
    exact .lock hpc rfl
  next t hpc => -- lock, and its answer is lost
    cases h
    exact .lock hpc rfl
  next hpc => -- lock, with an error
    cases h
    exact .goOn rfl rfl List.suffix_rfl (by rw [hpc]; rfl) rfl
  next t hpc => -- locked
    cases h
    exact .goOn rfl rfl List.suffix_rfl (by rw [hpc]; rfl) rfl
  next userId hpc => -- recordSuccess
    cases h
    exact .goOn rfl rfl (List.suffix_cons ..) (by rw [hpc]; rfl) rfl
  next userId hpc => -- recordSuccess, with an error
    cases h
    exact .goOn rfl rfl List.suffix_rfl (by rw [hpc]; rfl) rfl
  next userId hpc => -- clear
    cases h
    exact .clear hpc
  next userId hpc => -- clear, with an error
    cases h
    exact .goOn rfl rfl List.suffix_rfl (by rw [hpc]; rfl) rfl
  next hpc => -- finish
    cases h
    exact .goOn rfl rfl List.suffix_rfl (by rw [hpc]; rfl) rfl
  next hpc => -- finish, with an error
    cases h
    exact .goOn rfl rfl List.suffix_rfl (by rw [hpc]; rfl) rfl
  next => cases h

end Leetrank
