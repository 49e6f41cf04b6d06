import Leetrank.Library.PerKey
import Leetrank.Library.Threads
import Leetrank.Strings
import Leetrank.Web.MemoryLimit

namespace Leetrank
set_option autoImplicit true

open EventMachine PerKey SlidingWindow Threads

/-- A use of the in-process limiter: how its keys begin, and its limit. -/
structure LimiterUse where
  keyPrefix : String
  max : Nat
  windowMs : Nat

/-- The uses of the limiter other than by the login. -/
def otherLimiters : List LimiterUse :=
  [⟨"study-plan-start:", 10, 60000⟩, ⟨"study-plan-abandon:", 10, 60000⟩, ⟨"profile:", 10, 60000⟩,
    ⟨"register:ip:", 5, 3600000⟩, ⟨"register:email:", 3, 3600000⟩, ⟨"search:", 30, 60000⟩,
    ⟨"bookmark:", 30, 60000⟩, ⟨"chat:", 10, 60000⟩, ⟨"discussion-create:", 5, 60000⟩,
    ⟨"discussion-edit:", 10, 60000⟩, ⟨"comment:", 10, 60000⟩, ⟨"discussion-vote:", 30, 60000⟩,
    ⟨"upvote:", 5, 60000⟩, ⟨"hint-unlock:", 30, 60000⟩, ⟨"solution-create:", 3, 3600000⟩,
    ⟨"run-code:", 10, 60000⟩, ⟨"contest-join:", 10, 60000⟩, ⟨"admin:", 60, 60000⟩]

def loginLimitMax : Nat := 5
def loginLimitWindowMs : Nat := 15 * 60000

/-- A check at the time of the clock. -/
def MemoryLimiter.check (s : MemoryLimiter) (key : String) (max windowMs : Nat) :
    MemoryLimiter × RateLimitResult :=
  let (buckets, result) := memoryCheck s.buckets key max windowMs s.clock
  let admitted := if result.allowed then s.admitted ++ [(key, s.clock)] else s.admitted
  (⟨s.clock, buckets, admitted⟩, result)

/-- A login that the bucket of an account has let through: the number of the call, the account, its
generation then, and the time. -/
structure LoginPass where
  call : Nat
  account : String
  generation : Nat
  time : Nat

/-- The limiter and the generations of the accounts. Nothing reads the logs of the logins that were
let through, and of those whose password was compared, with the time of that. -/
structure LoginService where
  limiter : MemoryLimiter
  generationByEmail : String → Nat
  passed : List LoginPass
  compared : List (LoginPass × Nat)

def accountKey (e : String) (gen : Nat) : String := "login:user:" ++ e ++ ":gen" ++ toString gen

/-- A login from an address, with the error of its body or the email in it. -/
structure WebLogin where
  ip : String
  body : Except String String

/-- Where a login stands. One that waits for the query of its user carries its pass for the
log. -/
inductive WebLoginPc where
  | ipLimit
  | body
  | accountLimit (email : String)
  | findUser (pass : LoginPass)
  | comparing
  | answered (status : Nat) (error : Option String) (retryAfter : Option Nat)

structure WebLoginCall where
  request : WebLogin
  pc : WebLoginPc

/-- Whether the query finds a user, how the comparison ends, or that either of them throws. -/
inductive WebLoginEvent where
  | proceed
  | found (user : Bool)
  | compared (valid : Bool)
  | failed

/-- What else happens in the process: time passes, a password is changed, another route asks the
limiter, or the timer of the limiter fires. -/
inductive LoginAmbient where
  | elapse (ms : Nat)
  | changePassword (email : String)
  | limited (i : Fin otherLimiters.length) (suffix : String)
  | gc

section
variable (toLowerCase : String → String)

def normalizeEmail (email : String) : String := toLowerCase (Text.trim jsSpace email)

def LoginService.loginAccountKey (s : LoginService) (email : String) : String :=
  let e := normalizeEmail toLowerCase email
  accountKey e (s.generationByEmail e)

def LoginService.bumpLoginBucketFor (s : LoginService) (email : String) : LoginService :=
  let e := normalizeEmail toLowerCase email
  { s with generationByEmail := Function.update s.generationByEmail e (s.generationByEmail e + 1) }

/-- What the bucket of the account is asked for by a call, and answers. -/
def LoginService.checkAccount (s : LoginService) (call : Nat) (email : String) :
    LoginService × LoginPass × RateLimitResult :=
  let e := normalizeEmail toLowerCase email
  let pass : LoginPass := ⟨call, e, s.generationByEmail e, s.limiter.clock⟩
  let (limiter, result) :=
    s.limiter.check (s.loginAccountKey toLowerCase email) loginLimitMax loginLimitWindowMs
  ({ s with
      limiter := limiter
      passed := if result.allowed then s.passed ++ [pass] else s.passed },
    pass, result)

def webLoginStep (s : LoginService) (i : Nat) (call : WebLoginCall) (e : WebLoginEvent) :
    Option (LoginService × WebLoginCall) :=
  match call.pc, e with
  | .ipLimit, .proceed =>
    let (limiter, limit) :=
      s.limiter.check ("login:" ++ call.request.ip) loginLimitMax loginLimitWindowMs
    let pc :=
      if limit.allowed then .body
      else .answered 429 (some "Too many login attempts. Try again later.")
        (some (retryAfterSeconds limit.resetAt s.limiter.clock))
    some ({ s with limiter := limiter }, { call with pc := pc })
  | .body, .proceed =>
    match call.request.body with
    | .error text => some (s, { call with pc := .answered 400 (some text) none })
    | .ok email => some (s, { call with pc := .accountLimit email })
  | .accountLimit email, .proceed =>
    let (s', pass, limit) := s.checkAccount toLowerCase i email
    let pc :=
      if limit.allowed then .findUser pass
      else .answered 429 (some "Too many login attempts for this account. Try again later.")
        (some (retryAfterSeconds limit.resetAt s.limiter.clock))
    some (s', { call with pc := pc })
  | .findUser pass, .found true =>
    some ({ s with compared := s.compared ++ [(pass, s.limiter.clock)] },
      { call with pc := .comparing })
  | .findUser _, .found false | .comparing, .compared false =>
    some (s, { call with pc := .answered 401 (some "Invalid credentials") none })
  | .comparing, .compared true => some (s, { call with pc := .answered 200 none none })
  | .findUser _, .failed | .comparing, .failed =>
    some (s, { call with pc := .answered 500 (some "Internal server error") none })
  | _, _ => none

def loginAmbient (s : LoginService) : LoginAmbient → LoginService
  | .elapse ms => { s with limiter := { s.limiter with clock := s.limiter.clock + ms } }
  | .changePassword email => s.bumpLoginBucketFor toLowerCase email
  | .limited i suffix =>
    let use := otherLimiters.get i
    { s with limiter := (s.limiter.check (use.keyPrefix ++ suffix) use.max use.windowMs).1 }
  | .gc =>
    { s with limiter := { s.limiter with buckets := s.limiter.buckets.gc s.limiter.clock } }

def webLoginProgram : Program LoginService WebLoginCall WebLogin LoginAmbient WebLoginEvent where
  start := fun _ request => ⟨request, .ipLimit⟩
  ambient := loginAmbient toLowerCase
  step := webLoginStep toLowerCase

/-- Any number of logins, in a process that has just started. -/
def webLogin : Machine (World LoginService WebLoginCall)
    (Event WebLogin LoginAmbient WebLoginEvent) :=
  (webLoginProgram toLowerCase).machine fun s =>
    s.limiter.buckets = (fun _ => none) ∧ s.limiter.admitted = [] ∧
      s.generationByEmail = (fun _ => 0) ∧ s.passed = [] ∧ s.compared = []

end

/-- When the bucket of an account has let logins through, at one of its generations. -/
def passTimes (passed : List LoginPass) (e : String) (gen : Nat) : List Int :=
  (passed.filter fun x => x.account = e ∧ x.generation = gen).map fun x => (x.time : Int)

/-- The bucket of an account has let a login through in an interval as long as a window. -/
def LoginPass.In (e : String) (start : Int) (x : LoginPass) : Prop :=
  x.account = e ∧ start ≤ x.time ∧ x.time < start + loginLimitWindowMs

instance (e : String) (start : Int) (x : LoginPass) : Decidable (x.In e start) :=
  inferInstanceAs (Decidable (x.account = e ∧ start ≤ x.time ∧ x.time < start + loginLimitWindowMs))

/-- How many logins let through then have had their password compared. -/
def LoginService.guesses (s : LoginService) (e : String) (start : Int) : Nat :=
  s.compared.countP fun c => c.1.In e start

/-- How often a password of an account was compared in an interval as long as a window. -/
def LoginService.comparisons (s : LoginService) (e : String) (start : Int) : Nat :=
  s.compared.countP fun c => c.1.account = e ∧ start ≤ c.2 ∧ c.2 < start + loginLimitWindowMs

section Keys

theorem digits_not_colon (n : Nat) : ':' ∉ "gen".toList ++ (toString n).toList := by
  intro h
  rcases List.mem_append.1 h with hgen | hdigit
  · exact absurd hgen (by decide)
  · exact absurd (isDigit_of_mem_toString hdigit) (by decide)

/-- Two accounts or two generations never have one bucket. -/
theorem accountKey_inj (h : accountKey e n = accountKey e' n') : e = e' ∧ n = n' := by
  have hlist := congrArg String.toList h
  simp only [accountKey, String.toList_append, List.append_assoc] at hlist
  have hcut : (e.toList ++ ':' :: ("gen".toList ++ (toString n).toList)) =
      e'.toList ++ ':' :: ("gen".toList ++ (toString n').toList) :=
    List.append_cancel_left hlist
  obtain ⟨he, hn⟩ := Text.cut_last (digits_not_colon n) (digits_not_colon n') hcut
  exact ⟨String.toList_inj.1 he, toString_inj (List.append_cancel_left hn)⟩

/-- No other route has a bucket of an account. -/
theorem otherLimiters_key_ne (i : Fin otherLimiters.length) (suffix e : String) (n : Nat) :
    (otherLimiters.get i).keyPrefix ++ suffix ≠ accountKey e n := by
  intro h
  have hlist := congrArg (fun s => s.toList.take 4) h
  simp only [accountKey, String.toList_append, List.append_assoc] at hlist
  have hlong : ∀ use ∈ otherLimiters, 4 ≤ use.keyPrefix.toList.length ∧
      use.keyPrefix.toList.take 4 ≠ "logi".toList := by decide
  obtain ⟨hlen, hne⟩ := hlong _ (List.get_mem _ i)
  rw [List.take_append_of_le_length hlen] at hlist
  exact hne hlist

end Keys

section Limiter

variable {s : MemoryLimiter} {key k : String} {max m windowMs W : Nat}

theorem MemoryLimiter.check_step (s : MemoryLimiter) (key : String) (m W : Nat) :
    s.step s.clock (.check key m W) = some (s.check key m W).1 := by
  rw [MemoryLimiter.step]
  dsimp only
  rw [if_neg (Nat.lt_irrefl _)]
  rfl

theorem MemoryLimiter.Tracks.check (h : s.Tracks k max windowMs) (hmax : 1 ≤ max)
    (hk : key = k → m = max ∧ W = windowMs) : (s.check key m W).1.Tracks k max windowMs :=
  h.step hmax (s.check_step key m W) hk

theorem MemoryLimiter.Tracks.gc (h : s.Tracks k max windowMs) (hmax : 1 ≤ max) :
    MemoryLimiter.Tracks { s with buckets := s.buckets.gc s.clock } k max windowMs :=
  have hstep : s.step s.clock .gc = some { s with buckets := s.buckets.gc s.clock } :=
    if_neg (Nat.lt_irrefl _)
  h.step hmax hstep trivial

theorem MemoryLimiter.Tracks.elapse (h : s.Tracks k max windowMs) (ms : Nat) :
    MemoryLimiter.Tracks { s with clock := s.clock + ms } k max windowMs := by
  constructor
  · intro w hw
    obtain ⟨before, current, hepoch, htimes, hcount, hreset⟩ := h.window w hw
    refine ⟨before, current, hepoch, htimes, hcount, ?_⟩
    dsimp only
    omega
  · intro hnone
    refine (h.swept hnone).imp_right ?_
    rintro ⟨opened, before, current, hepoch, htimes, hlast⟩
    refine ⟨opened, before, current, hepoch, htimes, ?_⟩
    dsimp only
    omega

theorem MemoryLimiter.admitted_check (s : MemoryLimiter) (key k : String) (m W : Nat) :
    admittedTimes (s.check key m W).1.admitted k = admittedTimes s.admitted k ++
      if key = k ∧ (s.check key m W).2.allowed = true then [(s.clock : Int)] else [] := by
  have hadm : (s.check key m W).1.admitted =
      if (s.check key m W).2.allowed = true then s.admitted ++ [(key, s.clock)]
      else s.admitted := rfl
  rw [hadm]
  by_cases hallowed : (s.check key m W).2.allowed = true
  · rw [if_pos hallowed]
    by_cases hk : key = k
    · subst hk
      rw [admittedTimes_concat_self, if_pos ⟨rfl, hallowed⟩]
    · rw [admittedTimes_concat_of_ne hk, if_neg fun h => hk h.1, List.append_nil]
  · rw [if_neg hallowed, if_neg fun h => hallowed h.2, List.append_nil]

theorem MemoryLimiter.admitted_sublist (s : MemoryLimiter) (key k : String) (m W : Nat) :
    (admittedTimes s.admitted k).Sublist (admittedTimes (s.check key m W).1.admitted k) := by
  rw [MemoryLimiter.admitted_check]
  exact List.sublist_append_left ..

end Limiter

/-- The logins let through are among what the buckets of the accounts have admitted. -/
structure LoginService.Budgeted (s : LoginService) : Prop where
  tracks : ∀ e n, s.limiter.Tracks (accountKey e n) loginLimitMax loginLimitWindowMs
  logged : ∀ e n,
    (passTimes s.passed e n).Sublist (admittedTimes s.limiter.admitted (accountKey e n))
  current : ∀ x ∈ s.passed, x.generation ≤ s.generationByEmail x.account

/-- No bucket of a generation to come has been used. -/
def LoginService.Unused (s : LoginService) : Prop :=
  ∀ e n, s.generationByEmail e < n → s.limiter.buckets (accountKey e n) = none

section

variable {toLowerCase : String → String} {s s' : LoginService} {email e : String}

theorem LoginService.Budgeted.check (h : s.Budgeted)
    (hk : ∀ e n, key = accountKey e n → m = loginLimitMax ∧ W = loginLimitWindowMs) :
    LoginService.Budgeted { s with limiter := (s.limiter.check key m W).1 } where
  tracks := fun e n => (h.tracks e n).check (by decide) (hk e n)
  logged := fun e n => (h.logged e n).trans (s.limiter.admitted_sublist key _ m W)
  current := h.current

theorem passTimes_concat (passed : List LoginPass) (x : LoginPass) (e : String) (n : Nat) :
    passTimes (passed ++ [x]) e n = passTimes passed e n ++
      if x.account = e ∧ x.generation = n then [(x.time : Int)] else [] := by
  simp only [passTimes, List.filter_append, List.map_append, List.filter_cons, List.filter_nil,
    decide_eq_true_eq]
  congr 1
  split <;> rfl

theorem LoginService.Budgeted.checkAccount (h : s.Budgeted) (i : Nat) (email : String) :
    (s.checkAccount toLowerCase i email).1.Budgeted := by
  have hkeys : ∀ e n, s.loginAccountKey toLowerCase email = accountKey e n →
      loginLimitMax = loginLimitMax ∧ loginLimitWindowMs = loginLimitWindowMs :=
    fun _ _ _ => ⟨rfl, rfl⟩
  have hcheck := h.check hkeys
  by_cases hallowed : (s.limiter.check (s.loginAccountKey toLowerCase email) loginLimitMax
      loginLimitWindowMs).2.allowed = true
  · refine ⟨hcheck.tracks, ?_, ?_⟩
    · intro e n
      simp only [LoginService.checkAccount, if_pos hallowed]
      rw [passTimes_concat, MemoryLimiter.admitted_check]
      refine (h.logged e n).append ?_
      dsimp only
      split
      next hx =>
        obtain ⟨rfl, rfl⟩ := hx
        rw [if_pos ⟨rfl, hallowed⟩]
      next => exact List.nil_sublist _
    · intro x hx
      simp only [LoginService.checkAccount, if_pos hallowed] at hx
      rcases List.mem_append.1 hx with hx | hx
      · exact h.current x hx
      · rw [List.mem_singleton.1 hx]
        exact Nat.le_refl _
  · simp only [LoginService.checkAccount, if_neg hallowed]
    exact hcheck

theorem LoginService.Budgeted.bump (h : s.Budgeted) (email : String) :
    (s.bumpLoginBucketFor toLowerCase email).Budgeted where
  tracks := h.tracks
  logged := h.logged
  current := by
    intro x hx
    refine Nat.le_trans (h.current x hx) ?_
    dsimp only [LoginService.bumpLoginBucketFor]
    by_cases he : x.account = normalizeEmail toLowerCase email
    · rw [he, Function.update_self]
      exact Nat.le_succ _
    · rw [Function.update_of_ne he]

theorem LoginService.Budgeted.ambient (h : s.Budgeted) (x : LoginAmbient) :
    (loginAmbient toLowerCase s x).Budgeted := by
  cases x with
  | elapse ms => exact ⟨fun e n => (h.tracks e n).elapse ms, h.logged, h.current⟩
  | changePassword email => exact h.bump email
  | limited i suffix =>
    exact h.check fun e n hk => absurd hk (otherLimiters_key_ne i suffix e n)
  | gc => exact ⟨fun e n => (h.tracks e n).gc (by decide), h.logged, h.current⟩

/-- All that a step of a login does to the service. -/
theorem webLoginStep_cases (h : webLoginStep toLowerCase s i call x = some (s', call')) :
    call'.request = call.request ∧
      (s' = s ∨
        s' = { s with limiter := (s.limiter.check ("login:" ++ call.request.ip) loginLimitMax
          loginLimitWindowMs).1 } ∨
        (∃ email, s' = (s.checkAccount toLowerCase i email).1) ∨
        ∃ pass, call.pc = .findUser pass ∧ call'.pc = .comparing ∧
          s' = { s with compared := s.compared ++ [(pass, s.limiter.clock)] }) := by
  unfold webLoginStep at h
  split at h
  next =>
    cases h
    exact ⟨rfl, .inr (.inl rfl)⟩
  next =>
    split at h
    next =>
      cases h
      exact ⟨rfl, .inl rfl⟩
    next =>
      cases h
      exact ⟨rfl, .inl rfl⟩
  next email _ =>
    cases h
    exact ⟨rfl, .inr (.inr (.inl ⟨email, rfl⟩))⟩
  next pass hpc =>
    cases h
    exact ⟨rfl, .inr (.inr (.inr ⟨pass, hpc, rfl, rfl⟩))⟩
  next =>
    cases h
    exact ⟨rfl, .inl rfl⟩
  next =>
    cases h
    exact ⟨rfl, .inl rfl⟩
  next =>
    cases h
    exact ⟨rfl, .inl rfl⟩
  next =>
    cases h
    exact ⟨rfl, .inl rfl⟩
  next =>
    cases h
    exact ⟨rfl, .inl rfl⟩
  next => cases h

theorem webLogin_budgeted : (webLoginProgram toLowerCase).Stable (fun _ _ _ _ => True)
    LoginService.Budgeted (fun _ _ _ => True) where
  start := fun _ _ _ _ _ => trivial
  ambient := fun _ x h => ⟨h.ambient x, fun _ _ _ => trivial⟩
  step := by
    intro s i call e s' call' h _ _ hstep
    refine ⟨?_, trivial, fun _ _ _ _ => trivial⟩
    obtain ⟨-, rfl | rfl | ⟨email, rfl⟩ | ⟨pass, -, -, rfl⟩⟩ := webLoginStep_cases hstep
    · exact h
    · exact h.check fun _ _ _ => ⟨rfl, rfl⟩
    · exact h.checkAccount i email
    · exact ⟨h.tracks, h.logged, h.current⟩

/-- A call that has not compared a password yet. -/
def LoginService.Fresh (s : LoginService) (i : Nat) : Prop := ∀ c ∈ s.compared, c.1.call ≠ i

/-- What is compared has been let through before, once for each call. -/
structure LoginService.Once (s : LoginService) : Prop where
  passed : ∀ c ∈ s.compared, c.1 ∈ s.passed ∧ c.1.time ≤ c.2
  nodup : (s.compared.map fun c => c.1.call).Nodup

/-- The password has been compared, or there is an answer without that. -/
def WebLoginPc.Done : WebLoginPc → Prop
  | .comparing | .answered .. => True
  | .ipLimit | .body | .accountLimit _ | .findUser _ => False

/-- A call that waits for its user carries its own pass, and none has compared a password
before. -/
structure LoginService.Carries (s : LoginService) (i : Nat) (o : Option WebLoginCall) : Prop where
  own : ∀ call x, o = some call → call.pc = .findUser x →
    x.call = i ∧ x ∈ s.passed ∧ x.time ≤ s.limiter.clock
  fresh : (∀ call, o = some call → ¬call.pc.Done) → s.Fresh i

/-- The logs only grow by what other calls add, and the clock goes on. -/
theorem LoginService.Carries.of_le (h : s.Carries i o) (hpassed : s.passed ⊆ s'.passed)
    (hclock : s.limiter.clock ≤ s'.limiter.clock) (hfresh : s.Fresh i → s'.Fresh i) :
    s'.Carries i o where
  own := by
    intro call x ho hpc
    obtain ⟨hcall, hmem, htime⟩ := h.own call x ho hpc
    exact ⟨hcall, hpassed hmem, htime.trans hclock⟩
  fresh := fun hdone => hfresh (h.fresh hdone)

theorem LoginService.passed_subset (s : LoginService) (i : Nat) (email : String) :
    s.passed ⊆ (s.checkAccount toLowerCase i email).1.passed := by
  rw [LoginService.checkAccount]
  dsimp only
  split
  · exact List.subset_append_left ..
  · exact List.Subset.refl _

theorem LoginService.mem_passed (s : LoginService) (i : Nat) (email : String)
    (hallowed : (s.checkAccount toLowerCase i email).2.2.allowed = true) :
    (s.checkAccount toLowerCase i email).2.1 ∈ (s.checkAccount toLowerCase i email).1.passed := by
  simp only [LoginService.checkAccount] at hallowed ⊢
  rw [if_pos hallowed]
  exact List.mem_append_right _ (List.mem_singleton_self _)

theorem findUser_of_ite {b : Prop} [Decidable b] {pc : WebLoginPc} {pass x : LoginPass}
    (hpc : ∀ y, pc ≠ .findUser y) (h : (if b then .findUser pass else pc) = .findUser x) :
    b ∧ pass = x := by
  by_cases hb : b
  · rw [if_pos hb] at h
    cases h
    exact ⟨hb, rfl⟩
  · rw [if_neg hb] at h
    exact absurd h (hpc x)

theorem ite_ne_findUser {b : Prop} [Decidable b] {pc pc' : WebLoginPc} {x : LoginPass}
    (hpc : pc ≠ .findUser x) (hpc' : pc' ≠ .findUser x) :
    (if b then pc else pc') ≠ .findUser x := by
  split
  · exact hpc
  · exact hpc'

/-- What a login carries is what the bucket of its account has just let through. -/
theorem webLoginStep_findUser {e : WebLoginEvent}
    (h : webLoginStep toLowerCase s i call e = some (s', call'))
    (hpc : call'.pc = .findUser x) :
    x.call = i ∧ x ∈ s'.passed ∧ x.time ≤ s'.limiter.clock := by
  unfold webLoginStep at h
  split at h
  next =>
    obtain ⟨-, rfl⟩ := Prod.mk.inj (Option.some.inj h)
    exact absurd hpc (ite_ne_findUser nofun nofun)
  next => split at h <;> cases h <;> cases hpc
  next email _ =>
    obtain ⟨rfl, rfl⟩ := Prod.mk.inj (Option.some.inj h)
    have hpassed : (s.checkAccount toLowerCase i email).2.2.allowed = true ∧
        (s.checkAccount toLowerCase i email).2.1 = x :=
        findUser_of_ite (fun _ heq => WebLoginPc.noConfusion heq) hpc
    obtain ⟨hallowed, rfl⟩ := hpassed
    exact ⟨rfl, s.mem_passed i email hallowed, Nat.le_refl _⟩
  all_goals
    cases h
    try cases hpc

theorem webLoginStep_done {e : WebLoginEvent}
    (h : webLoginStep toLowerCase s i call e = some (s', call'))
    (hdone : call.pc.Done) : call'.pc.Done := by
  unfold webLoginStep at h
  split at h
  next hpc =>
    rw [hpc] at hdone
    exact hdone.elim
  next hpc =>
    rw [hpc] at hdone
    exact hdone.elim
  next hpc =>
    rw [hpc] at hdone
    exact hdone.elim
  next hpc =>
    rw [hpc] at hdone
    exact hdone.elim
  all_goals
    cases h
    try trivial

theorem ambient_carries (toLowerCase : String → String) (s : LoginService) (x : LoginAmbient) :
    (loginAmbient toLowerCase s x).passed = s.passed ∧
      (loginAmbient toLowerCase s x).compared = s.compared ∧
      s.limiter.clock ≤ (loginAmbient toLowerCase s x).limiter.clock := by
  cases x with
  | elapse ms => exact ⟨rfl, rfl, Nat.le_add_right ..⟩
  | changePassword email => exact ⟨rfl, rfl, Nat.le_refl _⟩
  | limited j suffix => exact ⟨rfl, rfl, Nat.le_refl _⟩
  | gc => exact ⟨rfl, rfl, Nat.le_refl _⟩

theorem LoginService.Once.of_le (h : s.Once) (hpassed : s.passed ⊆ s'.passed)
    (hcompared : s'.compared = s.compared) : s'.Once where
  passed := by
    rw [hcompared]
    exact fun c hc => ⟨hpassed (h.passed c hc).1, (h.passed c hc).2⟩
  nodup := by
    rw [hcompared]
    exact h.nodup

theorem LoginService.Fresh.of_eq (h : s.Fresh i) (hcompared : s'.compared = s.compared) :
    s'.Fresh i := by
  rwa [LoginService.Fresh, hcompared]

/-- A call compares the password that its own pass is for. -/
theorem LoginService.Once.compare (h : s.Once) (hmem : x ∈ s.passed)
    (htime : x.time ≤ s.limiter.clock) (hfresh : s.Fresh x.call) :
    LoginService.Once { s with compared := s.compared ++ [(x, s.limiter.clock)] } where
  passed := by
    intro c hc
    rcases List.mem_append.1 hc with hc | hc
    · exact h.passed c hc
    · rw [List.mem_singleton.1 hc]
      exact ⟨hmem, htime⟩
  nodup := by
    dsimp only
    rw [List.map_append, List.map_singleton, List.nodup_append]
    refine ⟨h.nodup, List.pairwise_singleton .., ?_⟩
    rintro a ha b hb rfl
    obtain ⟨c, hc, hcall⟩ := List.mem_map.1 ha
    exact hfresh c hc (hcall.trans (List.mem_singleton.1 hb))

theorem webLogin_once : (webLoginProgram toLowerCase).Stable (fun _ _ _ _ => True)
    LoginService.Once LoginService.Carries where
  start := by
    intro s i request _ hold
    refine ⟨?_, fun _ => hold.fresh fun _ ho => nomatch ho⟩
    rintro call x ⟨⟩ hpc
    cases hpc
  ambient := by
    intro s x hs
    obtain ⟨hpassed, hcompared, hclock⟩ := ambient_carries toLowerCase s x
    have hsubset : s.passed ⊆ (loginAmbient toLowerCase s x).passed := by
      rw [hpassed]
      exact List.Subset.refl _
    exact ⟨hs.of_le hsubset hcompared,
      fun i o hold => hold.of_le hsubset hclock fun hf => hf.of_eq hcompared⟩
  step := by
    intro s i call e s' call' hs hown _ hstep
    have hcarried := fun x hpc => webLoginStep_findUser (x := x) hstep hpc
    have hdone := webLoginStep_done hstep
    have hown' : (s.Fresh i → s'.Fresh i) → s'.Carries i (some call') := by
      intro hfresh
      refine ⟨?_, fun hnot => hfresh (hown.fresh ?_)⟩
      · rintro _ x ⟨⟩ hpc
        exact hcarried x hpc
      · rintro _ ⟨⟩ hpc
        exact hnot call' rfl (hdone hpc)
    obtain ⟨-, rfl | rfl | ⟨email, rfl⟩ | ⟨pass, hpc, hpc', rfl⟩⟩ := webLoginStep_cases hstep
    · exact ⟨hs, hown' id, fun _ _ _ hold => hold⟩
    · exact ⟨hs.of_le (List.Subset.refl _) rfl, hown' id,
        fun _ _ _ hold => hold.of_le (List.Subset.refl _) (Nat.le_refl _) id⟩
    · exact ⟨hs.of_le (s.passed_subset i email) rfl, hown' id,
        fun _ _ _ hold => hold.of_le (s.passed_subset i email) (Nat.le_refl _) id⟩
    · obtain ⟨rfl, hmem, htime⟩ := hown.own call pass rfl hpc
      have hfresh : s.Fresh pass.call := by
        refine hown.fresh ?_
        rintro _ ⟨⟩ hd
        rw [hpc] at hd
        exact hd
      refine ⟨hs.compare hmem htime hfresh, ⟨?_, fun hnot => ?_⟩, fun j o hj hold => ?_⟩
      · rintro _ x ⟨⟩ hx
        rw [hpc'] at hx
        cases hx
      · refine absurd ?_ (hnot call' rfl)
        rw [hpc']
        trivial
      · refine hold.of_le (List.Subset.refl _) (Nat.le_refl _) fun hf c hc => ?_
        rcases List.mem_append.1 hc with hc | hc
        · exact hf c hc
        · rw [List.mem_singleton.1 hc]
          exact Ne.symm hj

theorem LoginService.Budgeted.passed_le (h : s.Budgeted) (e : String) (start : Int) :
    s.passed.countP (fun x => x.In e start) ≤
      (s.generationByEmail e + 1) * (2 * loginLimitMax - 1) := by
  have hgen : ∀ n, s.passed.countP (fun x => x.In e start ∧ x.generation = n) ≤
      2 * loginLimitMax - 1 := by
    intro n
    have hbound := ((h.logged e n).countP_le (p := fun a => decide (start ≤ a ∧
      a < start + loginLimitWindowMs))).trans ((h.tracks e n).bounded start)
    rw [passTimes, List.countP_map, List.countP_filter] at hbound
    refine Nat.le_trans (Nat.le_of_eq ?_) hbound
    apply List.countP_congr
    intro x _
    refine decide_eq_true_iff.trans ?_
    simp only [LoginPass.In, decide_eq_true_eq, Function.comp_apply, Bool.and_eq_true]
    tauto
  refine Nat.le_trans (List.countP_mono_left ?_) (countP_lt_rank_le hgen _)
  intro x hx hcount
  have hcount := of_decide_eq_true hcount
  have hle := h.current x hx
  rw [hcount.1] at hle
  exact decide_eq_true ⟨hcount, Nat.lt_succ_of_le hle⟩

/-- A password is compared for a login that was let through, and only once. -/
theorem LoginService.Once.guesses_le (h : s.Once) (e : String) (start : Int) :
    s.guesses e start ≤ s.passed.countP fun x => x.In e start := by
  have hnodup : (s.compared.map Prod.fst).Nodup := by
    have hcalls := h.nodup
    rw [← Function.comp_def (fun x : LoginPass => x.call) Prod.fst, ← List.map_map] at hcalls
    exact List.Pairwise.of_map _ (fun x y hne heq => hne (heq ▸ rfl)) hcalls
  have hsubset : s.compared.map Prod.fst ⊆ s.passed := by
    intro x hx
    obtain ⟨c, hc, rfl⟩ := List.mem_map.1 hx
    exact (h.passed c hc).1
  have hcount := (List.subperm_of_subset hnodup hsubset).countP_le fun x => decide (x.In e start)
  rwa [List.countP_map] at hcount

/-- Comparisons that come within a window fall to the admissions of two windows. -/
theorem LoginService.Once.comparisons_le (h : s.Once) (e : String) (start : Int)
    (hdelay : ∀ c ∈ s.compared, c.2 ≤ c.1.time + loginLimitWindowMs) :
    s.comparisons e start ≤ s.guesses e (start - loginLimitWindowMs) + s.guesses e start := by
  apply countP_le_add
  rintro c hc ⟨haccount, hstart, hstop⟩
  have hpast := (h.passed c hc).2
  have hprompt := hdelay c hc
  by_cases hbefore : (c.1.time : Int) < start
  · exact .inl ⟨haccount, by omega, by omega⟩
  · exact .inr ⟨haccount, by omega, by omega⟩

theorem reachable_once (h : (webLogin toLowerCase).Reachable w) :
    w.shared.Budgeted ∧ w.shared.Once := by
  have hbudgeted : (webLoginProgram toLowerCase).Stable _ _ _ := webLogin_budgeted
  have honce : (webLoginProgram toLowerCase).Stable _ _ _ := webLogin_once
  refine ⟨((hbudgeted.invariant _).reachable (fun w hw => holds_start hw ?_) h).1,
    ((honce.invariant _).reachable (fun w hw => holds_start hw ?_) h).1⟩
  · rintro s ⟨hbuckets, hadmitted, -, hpassed, -⟩
    refine ⟨⟨?_, ?_, ?_⟩, fun _ => trivial⟩
    · intro e n
      refine ⟨fun w hw => ?_, fun _ => .inl ?_⟩
      · rw [hbuckets] at hw
        cases hw
      · rw [hadmitted]
        rfl
    · intro e n
      rw [hpassed]
      exact List.nil_sublist _
    · rw [hpassed]
      exact fun x hx => absurd hx List.not_mem_nil
  · rintro s ⟨-, -, -, -, hcompared⟩
    have hfresh : ∀ i, s.Fresh i := by
      intro i c hc
      rw [hcompared] at hc
      cases hc
    refine ⟨⟨?_, ?_⟩, fun i => ⟨(fun _ _ ho => nomatch ho), fun _ => hfresh i⟩⟩
    · rw [hcompared]
      exact fun c hc => absurd hc List.not_mem_nil
    · rw [hcompared]
      exact List.nodup_nil

/-- A login has its password compared at most once, after the bucket of its account has let it
through. Of those that it lets through in an interval as long as a window at most nine for each
password of the account have theirs compared, whatever the addresses and the spellings of the email.
If no comparison comes later than a window after that, twice as many fall into any such interval. -/
theorem webLogin_guesses (h : (webLogin toLowerCase).Reachable w) (e : String) (start : Int) :
    w.shared.Once ∧
      w.shared.guesses e start ≤
        (w.shared.generationByEmail e + 1) * (2 * loginLimitMax - 1) ∧
      ((∀ c ∈ w.shared.compared, c.2 ≤ c.1.time + loginLimitWindowMs) →
        w.shared.comparisons e start ≤
          2 * ((w.shared.generationByEmail e + 1) * (2 * loginLimitMax - 1))) := by
  obtain ⟨hbudgeted, honce⟩ := reachable_once h
  have hguesses := fun start => (honce.guesses_le e start).trans (hbudgeted.passed_le e start)
  refine ⟨honce, hguesses start, fun hdelay => ?_⟩
  have hsplit := honce.comparisons_le e start hdelay
  have hbefore := hguesses (start - loginLimitWindowMs)
  have hafter := hguesses start
  omega

/-- The address is not spelled like the bucket of an account. -/
def PlainAddress (ip : String) : Prop := ¬"user:".toList <+: ip.toList

/-- A login, if the event is the start of one, comes from such an address. -/
def PlainEvent : Event WebLogin LoginAmbient WebLoginEvent → Prop
  | .spawn request => PlainAddress request.ip
  | .ambient _ | .act _ _ => True

theorem ipKey_ne (h : PlainAddress ip) (e : String) (n : Nat) :
    "login:" ++ ip ≠ accountKey e n := by
  intro hk
  have hlist := congrArg String.toList hk
  simp only [accountKey, String.toList_append, List.append_assoc] at hlist
  have hip : ip.toList = "user:".toList ++ (e.toList ++ (":gen".toList ++ (toString n).toList)) :=
    @List.append_cancel_left _ "login:".toList _ _ hlist
  exact h ⟨_, hip.symm⟩

theorem LoginService.Unused.check (h : s.Unused)
    (hk : ∀ e n, s.generationByEmail e < n → key ≠ accountKey e n) :
    LoginService.Unused { s with limiter := (s.limiter.check key m W).1 } :=
  fun e n hn => (memoryCheck_of_ne (hk e n hn).symm).trans (h e n hn)

theorem LoginService.Unused.checkAccount (h : s.Unused) (i : Nat) (email : String) :
    (s.checkAccount toLowerCase i email).1.Unused := by
  refine h.check fun e n hn hk => ?_
  obtain ⟨rfl, rfl⟩ := accountKey_inj hk
  exact Nat.lt_irrefl _ hn

theorem LoginService.Unused.ambient (h : s.Unused) (x : LoginAmbient) :
    (loginAmbient toLowerCase s x).Unused := by
  cases x with
  | elapse ms => exact h
  | changePassword email =>
    intro e n hn
    refine h e n (Nat.lt_of_le_of_lt ?_ hn)
    dsimp only [loginAmbient, LoginService.bumpLoginBucketFor]
    by_cases he : e = normalizeEmail toLowerCase email
    · rw [he, Function.update_self]
      exact Nat.le_succ _
    · rw [Function.update_of_ne he]
  | limited i suffix => exact h.check fun e n _ => otherLimiters_key_ne i suffix e n
  | gc => exact fun e n hn => Buckets.gc_none (h e n hn)

theorem webLogin_unused : (webLogin toLowerCase).Preserves (fun _ e _ => PlainEvent e)
    fun w => w.shared.Unused ∧ ∀ call ∈ w.threads, PlainAddress call.request.ip := by
  rintro w e w' ⟨hunused, hplain⟩ hstep he
  cases e with
  | spawn request =>
    cases hstep
    refine ⟨hunused, fun call hcall => ?_⟩
    rcases List.mem_append.1 hcall with hcall | hcall
    · exact hplain call hcall
    · rw [List.mem_singleton.1 hcall]
      exact he
  | ambient x =>
    cases hstep
    exact ⟨hunused.ambient x, hplain⟩
  | act i x =>
    obtain ⟨call, s', call', hi, hcall, rfl⟩ := Program.next_act hstep
    obtain ⟨hrequest, hs'⟩ := webLoginStep_cases hcall
    have hip := hplain call (List.mem_of_getElem? hi)
    constructor
    · rcases hs' with hs' | hs' | ⟨email, hs'⟩ | ⟨pass, -, -, hs'⟩
      · exact hs' ▸ hunused
      · exact hs' ▸ hunused.check fun e n _ => ipKey_ne hip e n
      · exact hs' ▸ hunused.checkAccount i email
      · exact hs' ▸ hunused
    · intro c hc
      rcases List.mem_or_eq_of_mem_set hc with hc | rfl
      · exact hplain c hc
      · rw [hrequest]
        exact hip

/-- After a change of its password an account has a fresh budget, under every spelling of the email,
and no other account has got anything, whichever call asks. No two accounts or generations have one
key, and no other route has a key of theirs. -/
theorem changePassword_fresh (h₀ : (webLogin toLowerCase).init w₀)
    (hr : (webLogin toLowerCase).run w₀ es = some w)
    (hplain : ∀ e ∈ es, PlainEvent e) (email email' : String) (call : Nat) :
    ((w.shared.bumpLoginBucketFor toLowerCase email).checkAccount toLowerCase call email').2.2 =
        (if normalizeEmail toLowerCase email' = normalizeEmail toLowerCase email then
          ⟨true, 4, w.shared.limiter.clock + loginLimitWindowMs, none⟩
        else (w.shared.checkAccount toLowerCase call email').2.2) ∧
      (∀ e e' n n', accountKey e n = accountKey e' n' → e = e' ∧ n = n') ∧
      ∀ (i : Fin otherLimiters.length) (suffix e : String) (n : Nat),
        (otherLimiters.get i).keyPrefix ++ suffix ≠ accountKey e n := by
  refine ⟨?_, fun _ _ _ _ => accountKey_inj, otherLimiters_key_ne⟩
  have hstart : w₀.shared.Unused ∧ ∀ call ∈ w₀.threads, PlainAddress call.request.ip := by
    refine ⟨fun e n _ => congrFun h₀.1.1 _, ?_⟩
    rw [h₀.2]
    exact fun call hcall => absurd hcall List.not_mem_nil
  have halways := Machine.always_of_events (M := webLogin toLowerCase) (s := w₀)
    fun e he _ _ => hplain e he
  have hunused := webLogin_unused.run hstart halways hr
  split
  next he =>
    have hnone := hunused.1 (normalizeEmail toLowerCase email) _ (Nat.lt_succ_self _)
    simp only [LoginService.checkAccount, LoginService.loginAccountKey,
      LoginService.bumpLoginBucketFor, he, Function.update_self, MemoryLimiter.check, memoryCheck,
      hnone]
    rfl
  next he =>
    simp only [LoginService.checkAccount, LoginService.loginAccountKey,
      LoginService.bumpLoginBucketFor, Function.update_of_ne he]

end

def asciiLower (s : String) : String := String.ofList (s.toList.map Char.toLower)

def processStart : World LoginService WebLoginCall :=
  ⟨⟨⟨0, fun _ => none, []⟩, fun _ => 0, [], []⟩, []⟩

/-- A wrong guess at the password of an account, which takes its time to be compared. -/
def wrongGuess : List (Event WebLogin LoginAmbient WebLoginEvent) :=
  [.spawn ⟨"10.0.0.1", .ok "A@x.c"⟩, .act 0 .proceed, .act 0 .proceed, .act 0 .proceed,
    .ambient (.elapse 40), .act 0 (.found true), .act 0 (.compared false)]

theorem wrongGuess_run : ∃ w, (webLogin asciiLower).run processStart wrongGuess = some w ∧
    w.shared.compared = [(⟨0, "a@x.c", 0, 0⟩, 40)] :=
  ⟨_, rfl, rfl⟩

theorem wrongGuess_plain : ∀ e ∈ wrongGuess, PlainEvent e := by
  intro e he
  simp only [wrongGuess, List.mem_cons, List.not_mem_nil, or_false] at he
  rcases he with rfl | rfl | rfl | rfl | rfl | rfl | rfl
  · show ¬_ <+: _
    decide
  all_goals trivial

theorem processStart_init : (webLogin asciiLower).init processStart :=
  ⟨⟨rfl, rfl, rfl, rfl, rfl⟩, rfl⟩

theorem webLogin_guesses_wrongGuess :
    ∃ w : World LoginService WebLoginCall,
      w.shared.compared = [(⟨0, "a@x.c", 0, 0⟩, 40)] ∧
        w.shared.comparisons "a@x.c" 30 ≤
          2 * ((w.shared.generationByEmail "a@x.c" + 1) * (2 * loginLimitMax - 1)) := by
  obtain ⟨w, hw, hcompared⟩ := wrongGuess_run
  refine ⟨w, hcompared, (webLogin_guesses ⟨_, _, processStart_init, hw⟩ "a@x.c" 30).2.2 ?_⟩
  rw [hcompared]
  decide

theorem changePassword_fresh_wrongGuess :
    ∃ w : World LoginService WebLoginCall, w.shared.compared = [(⟨0, "a@x.c", 0, 0⟩, 40)] ∧
      ((w.shared.bumpLoginBucketFor asciiLower "a@x.c").checkAccount asciiLower 1 " a@X.c").2.2 =
        ⟨true, 4, w.shared.limiter.clock + loginLimitWindowMs, none⟩ := by
  obtain ⟨w, hw, hcompared⟩ := wrongGuess_run
  refine ⟨w, hcompared, ?_⟩
  rw [(changePassword_fresh processStart_init hw wrongGuess_plain "a@x.c" " a@X.c" 1).1,
    if_pos (by decide)]

end Leetrank
