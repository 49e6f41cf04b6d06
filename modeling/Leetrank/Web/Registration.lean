import Leetrank.Library.Path
import Leetrank.Web.LoginBudget

namespace Leetrank.Registration
set_option autoImplicit true

open EventMachine PerKey SlidingWindow Threads

/-- The headers that tell where a request comes from. -/
structure Headers where
  xForwardedFor : Option String
  xTrustedProxy : Option String
  xRealIp : Option String

def entries (xff : String) : List String :=
  (Text.splitAt (· == ',') xff.toList).map fun s => Text.trim jsSpace (String.ofList s)

/-- The first address that a trusted proxy has sent, and without one the last of all. -/
def clientIp (trustedToken : Option String) (headers : Headers) : String :=
  let xff := truthy headers.xForwardedFor
  let fromProxy := (truthy trustedToken).bind fun token =>
    if headers.xTrustedProxy = some token then xff.bind fun xff => truthy (entries xff).head?
    else none
  let fromHop := xff.bind fun xff => ((entries xff).filter (· ≠ "")).getLast?
  (fromProxy.or fromHop).getD (headers.xRealIp.getD "unknown")

/-- The host that a request is received from, as an entry of the header. -/
structure Hop where
  address : String
  ne_empty : address ≠ ""
  plain : ',' ∉ address.toList
  trimmed : Text.trim jsSpace address = address

/-- A proxy appends the address that it has seen to what it was sent. -/
def Hop.forward (hop : Hop) (sent : Headers) : Headers :=
  { sent with
    xForwardedFor := some <|
      match sent.xForwardedFor with
      | none => hop.address
      | some xff => xff ++ ", " ++ hop.address }

theorem Hop.not_comma (hop : Hop) (hc : c ∈ hop.address.toList) : (c == ',') = false := by
  apply beq_eq_false_iff_ne.2
  rintro rfl
  exact hop.plain hc

theorem Hop.entries_address (hop : Hop) : entries hop.address = [hop.address] := by
  rw [entries, Paths.splitAt_eq_singleton _ fun _ => hop.not_comma, List.map_singleton,
    String.ofList_toList, hop.trimmed]

theorem Hop.entries_append (hop : Hop) (xff : String) :
    entries (xff ++ ", " ++ hop.address) = entries xff ++ [hop.address] := by
  have hlist : (xff ++ ", " ++ hop.address).toList =
      xff.toList ++ ',' :: ' ' :: hop.address.toList := by
    simp
  have hplain : ∀ c ∈ ' ' :: hop.address.toList, (c == ',') = false := by
    intro c hc
    rcases List.mem_cons.1 hc with rfl | hc
    · rfl
    · exact hop.not_comma hc
  have hspace : Text.trim jsSpace (String.ofList (' ' :: hop.address.toList)) = hop.address := by
    rw [Text.trim, String.toList_ofList, List.dropWhile_cons_of_pos (by decide)]
    exact hop.trimmed
  rw [entries, hlist, Text.splitAt_append_sep (by decide), Paths.splitAt_eq_singleton _ hplain,
    List.map_append, List.map_singleton, hspace]
  rfl

theorem Hop.last_entry (hop : Hop) (l : List String) :
    ((l ++ [hop.address]).filter (· ≠ "")).getLast? = some hop.address := by
  rw [List.filter_append, List.filter_singleton, decide_eq_true hop.ne_empty]
  exact List.getLast?_concat

/-- Whatever a sender who does not know the token claims, the address is the one of the hop. -/
theorem clientIp_forward (hop : Hop) (sent : Headers)
    (h : ∀ token, truthy trustedToken = some token → sent.xTrustedProxy ≠ some token) :
    clientIp trustedToken (hop.forward sent) = hop.address := by
  have hproxy : ∀ o : Option String, ((truthy trustedToken).bind fun token =>
      if (hop.forward sent).xTrustedProxy = some token then o else none) = none := by
    intro o
    cases ht : truthy trustedToken with
    | none => rfl
    | some token => exact if_neg (h token ht)
  have hhop : (truthy (hop.forward sent).xForwardedFor).bind
      (fun xff => ((entries xff).filter (· ≠ "")).getLast?) = some hop.address := by
    rw [Hop.forward]
    split
    next =>
      rw [truthy, Option.filter_some, if_pos (decide_eq_true hop.ne_empty), Option.bind_some,
        hop.entries_address]
      exact hop.last_entry []
    next xff _ =>
      have hne : xff ++ ", " ++ hop.address ≠ "" := by
        intro he
        have hlen := congrArg (·.toList.length) he
        simp at hlen
      rw [truthy, Option.filter_some, if_pos (decide_eq_true hne), Option.bind_some,
        hop.entries_append]
      exact hop.last_entry _
  rw [clientIp, hhop, hproxy]
  rfl

/-- The two limits of the route. -/
def ipUse : LimiterUse := ⟨"register:ip:", 5, 3600000⟩

def emailUse : LimiterUse := ⟨"register:email:", 3, 3600000⟩

/-- The uses of the limiter by the other routes. -/
def otherUses : List LimiterUse :=
  ⟨"login:", loginLimitMax, loginLimitWindowMs⟩ ::
    otherLimiters.filter fun use => use.keyPrefix.toList.take 9 ≠ "register:".toList

structure RegisterFields where
  email : String
  username : String

/-- A registration from a sender who does not know the token of the trusted proxies, with the error
of its body or the fields in it. -/
structure Request (trustedToken : Option String) where
  hop : Hop
  sent : Headers
  untrusted : ∀ token, truthy trustedToken = some token → sent.xTrustedProxy ≠ some token
  body : Except String RegisterFields

/-- A registration that both limits have let through. -/
structure Passed where
  address : String
  mailbox : String
  time : Nat

structure RegisterService where
  limiter : MemoryLimiter
  users : List RegisterFields
  passed : List Passed

inductive RegisterPc where
  | limits
  | findFirst (fields : RegisterFields)
  | create (fields : RegisterFields)
  | answered (status : Nat) (error : Option String) (retryAfter : Option Nat)

structure RegisterCall (trustedToken : Option String) where
  request : Request trustedToken
  pc : RegisterPc

inductive RegisterEvent where
  | proceed
  | fail

/-- What else happens in the process: time passes, another route asks the limiter, or the timer of
the limiter fires. -/
inductive Ambient where
  | elapse (ms : Nat)
  | limited (i : Fin otherUses.length) (suffix : String)
  | gc

section
variable (toLowerCase : String → String) {trustedToken : Option String}

def emailPrefix (email : String) : String :=
  toLowerCase (String.ofList (email.toList.takeWhile (· ≠ '@')))

/-- Both limits, which are checked without waiting for anything in between. -/
def RegisterService.checkLimits (s : RegisterService) (request : Request trustedToken)
    (fields : RegisterFields) : RegisterService × RegisterPc :=
  let ip := clientIp trustedToken (request.hop.forward request.sent)
  let (limiter, ipLimit) :=
    s.limiter.check (ipUse.keyPrefix ++ ip) ipUse.max ipUse.windowMs
  if ipLimit.allowed then
    let mailbox := emailPrefix toLowerCase fields.email
    let (limiter, emailLimit) :=
      limiter.check (emailUse.keyPrefix ++ mailbox) emailUse.max emailUse.windowMs
    if emailLimit.allowed then
      let passed := ⟨request.hop.address, mailbox, s.limiter.clock⟩
      ({ s with limiter := limiter, passed := s.passed ++ [passed] }, .findFirst fields)
    else
      ({ s with limiter := limiter },
        .answered 429 (some "Too many registration attempts for this email. Try again later.")
          (some (retryAfterSeconds emailLimit.resetAt s.limiter.clock)))
  else
    ({ s with limiter := limiter },
      .answered 429 (some "Too many registration attempts. Try again later.")
        (some (retryAfterSeconds ipLimit.resetAt s.limiter.clock)))

def RegisterService.takenBy (s : RegisterService) (fields : RegisterFields) :
    Option RegisterFields :=
  s.users.find? fun user => user.email = fields.email ∨ user.username = fields.username

def registerStep (s : RegisterService) (_ : Nat) (call : RegisterCall trustedToken)
    (e : RegisterEvent) : Option (RegisterService × RegisterCall trustedToken) :=
  match call.pc, e with
  | .limits, .proceed =>
    match call.request.body with
    | .error text => some (s, { call with pc := .answered 400 (some text) none })
    | .ok fields =>
      let (s', pc) := s.checkLimits toLowerCase call.request fields
      some (s', { call with pc := pc })
  | .findFirst fields, .proceed =>
    match s.takenBy fields with
    | none => some (s, { call with pc := .create fields })
    | some existing =>
      let field := if existing.email = fields.email then "Email" else "Username"
      some (s, { call with pc := .answered 409 (some (field ++ " already in use")) none })
  | .create fields, .proceed =>
    match s.takenBy fields with
    | none =>
      some ({ s with users := s.users ++ [fields] }, { call with pc := .answered 201 none none })
    -- the unique columns of the table refuse the row
    | some _ =>
      some (s, { call with pc := .answered 500 (some "Internal server error") none })
  | .findFirst _, .fail | .create _, .fail =>
    some (s, { call with pc := .answered 500 (some "Internal server error") none })
  | .limits, .fail | .answered _ _ _, _ => none

def ambient (s : RegisterService) : Ambient → RegisterService
  | .elapse ms => { s with limiter := { s.limiter with clock := s.limiter.clock + ms } }
  | .limited i suffix =>
    let use := otherUses.get i
    { s with limiter := (s.limiter.check (use.keyPrefix ++ suffix) use.max use.windowMs).1 }
  | .gc =>
    { s with limiter := { s.limiter with buckets := s.limiter.buckets.gc s.limiter.clock } }

def registerProgram (trustedToken : Option String) :
    Program RegisterService (RegisterCall trustedToken) (Request trustedToken) Ambient
      RegisterEvent where
  start := fun _ request => ⟨request, .limits⟩
  ambient := ambient
  step := registerStep toLowerCase

/-- Any number of registrations, in a process that has just started. -/
def registration (trustedToken : Option String) :
    Machine (World RegisterService (RegisterCall trustedToken))
      (Event (Request trustedToken) Ambient RegisterEvent) :=
  (registerProgram toLowerCase trustedToken).machine fun s =>
    s.limiter.buckets = (fun _ => none) ∧ s.limiter.admitted = [] ∧ s.passed = []

end

/-- When registrations of an address, or of a mailbox, have passed both limits. -/
def passedTimes (passed : List Passed) (field : Passed → String) (k : String) : List Int :=
  (passed.filter fun x => field x = k).map fun x => (x.time : Int)

/-- What has passed is among what the buckets of one limit have admitted. -/
structure Within (use : LimiterUse) (field : Passed → String) (limiter : MemoryLimiter)
    (passed : List Passed) : Prop where
  tracks : ∀ k, limiter.Tracks (use.keyPrefix ++ k) use.max use.windowMs
  logged : ∀ k,
    (passedTimes passed field k).Sublist (admittedTimes limiter.admitted (use.keyPrefix ++ k))

section Within

variable {use : LimiterUse} {field : Passed → String} {limiter : MemoryLimiter}
  {passed : List Passed}

theorem passedTimes_concat (passed : List Passed) (x : Passed) (field : Passed → String)
    (k : String) : passedTimes (passed ++ [x]) field k =
      passedTimes passed field k ++ if field x = k then [(x.time : Int)] else [] := by
  simp only [passedTimes, List.filter_append, List.map_append, List.filter_cons, List.filter_nil,
    decide_eq_true_eq]
  congr 1
  split <;> rfl

theorem Within.new (hbuckets : limiter.buckets = fun _ => none) (hadmitted : limiter.admitted = [])
    : Within use field limiter [] where
  tracks := by
    refine fun k => ⟨fun w hw => ?_, fun _ => .inl ?_⟩
    · rw [hbuckets] at hw
      cases hw
    · rw [hadmitted]
      rfl
  logged := fun _ => List.nil_sublist _

theorem Within.check (h : Within use field limiter passed) (hmax : 1 ≤ use.max)
    (hk : ∀ k, key = use.keyPrefix ++ k → m = use.max ∧ W = use.windowMs) :
    Within use field (limiter.check key m W).1 passed where
  tracks := fun k => (h.tracks k).check hmax (hk k)
  logged := fun k => (h.logged k).trans (limiter.admitted_sublist key _ m W)

theorem Within.elapse (h : Within use field limiter passed) (ms : Nat) :
    Within use field { limiter with clock := limiter.clock + ms } passed where
  tracks := fun k => (h.tracks k).elapse ms
  logged := h.logged

theorem Within.gc (h : Within use field limiter passed) (hmax : 1 ≤ use.max) :
    Within use field { limiter with buckets := limiter.buckets.gc limiter.clock } passed where
  tracks := fun k => (h.tracks k).gc hmax
  logged := h.logged

/-- What a bucket admits may pass. -/
theorem Within.pass (h : Within use field limiter passed) (hmax : 1 ≤ use.max) (x : Passed)
    (htime : x.time = limiter.clock)
    (hallowed : (limiter.check (use.keyPrefix ++ field x) use.max use.windowMs).2.allowed = true) :
    Within use field (limiter.check (use.keyPrefix ++ field x) use.max use.windowMs).1
      (passed ++ [x]) where
  tracks := (h.check hmax fun _ _ => ⟨rfl, rfl⟩).tracks
  logged := by
    intro k
    rw [passedTimes_concat, MemoryLimiter.admitted_check]
    refine (h.logged k).append ?_
    split
    next hx =>
      rw [hx, if_pos ⟨rfl, hx ▸ hallowed⟩, htime]
    next => exact List.nil_sublist _

theorem Within.bounded (h : Within use field limiter passed) (k : String) (start : Int) :
    countWithin (use.windowMs : Int) start (passedTimes passed field k) ≤ 2 * use.max - 1 :=
  ((h.logged k).countP_le).trans ((h.tracks k).bounded start)

end Within

/-- Keys that begin differently are different. -/
theorem key_ne {p p' : String} (n : Nat) (hp : n ≤ p.toList.length) (hp' : n ≤ p'.toList.length)
    (h : p.toList.take n ≠ p'.toList.take n) (s s' : String) : p ++ s ≠ p' ++ s' := by
  intro he
  have hlist := congrArg (·.toList.take n) he
  simp only [String.toList_append] at hlist
  rw [List.take_append_of_le_length hp, List.take_append_of_le_length hp'] at hlist
  exact h hlist

theorem ipKey_ne_emailKey (s s' : String) : ipUse.keyPrefix ++ s ≠ emailUse.keyPrefix ++ s' :=
  key_ne 10 (by decide) (by decide) (by decide) s s'

/-- No other route has a bucket of a registration. -/
theorem otherUses_key_ne (i : Fin otherUses.length) (h : use ∈ [ipUse, emailUse])
    (suffix s : String) : (otherUses.get i).keyPrefix ++ suffix ≠ use.keyPrefix ++ s := by
  have hall : ∀ other ∈ otherUses, 5 ≤ other.keyPrefix.toList.length ∧
      ∀ use ∈ [ipUse, emailUse], 5 ≤ use.keyPrefix.toList.length ∧
        other.keyPrefix.toList.take 5 ≠ use.keyPrefix.toList.take 5 := by decide
  obtain ⟨hlen, hother⟩ := hall _ (List.get_mem otherUses i)
  obtain ⟨hlen', hne⟩ := hother use h
  exact key_ne 5 hlen hlen' hne suffix s

structure RegisterService.Budgeted (s : RegisterService) : Prop where
  ip : Within ipUse Passed.address s.limiter s.passed
  email : Within emailUse Passed.mailbox s.limiter s.passed

section

variable {toLowerCase : String → String} {trustedToken : Option String}
  {s s' : RegisterService} {call call' : RegisterCall trustedToken}

theorem RegisterService.Budgeted.ambient (h : s.Budgeted) (x : Ambient) :
    (ambient s x).Budgeted := by
  cases x with
  | elapse ms => exact ⟨h.ip.elapse ms, h.email.elapse ms⟩
  | limited i suffix =>
    constructor
    · exact h.ip.check (by decide) fun k hk =>
        absurd hk (otherUses_key_ne i List.mem_cons_self suffix k)
    · exact h.email.check (by decide) fun k hk =>
        absurd hk (otherUses_key_ne i (List.mem_cons_of_mem _ List.mem_cons_self) suffix k)
  | gc => exact ⟨h.ip.gc (by decide), h.email.gc (by decide)⟩

theorem RegisterService.Budgeted.checkLimits (h : s.Budgeted) (request : Request trustedToken)
    (fields : RegisterFields) : (s.checkLimits toLowerCase request fields).1.Budgeted := by
  have hemailKey : ∀ address k, ipUse.keyPrefix ++ address = emailUse.keyPrefix ++ k →
      ipUse.max = emailUse.max ∧ ipUse.windowMs = emailUse.windowMs :=
    fun address k hk => absurd hk (ipKey_ne_emailKey address k)
  have hipKey : ∀ mailbox k, emailUse.keyPrefix ++ mailbox = ipUse.keyPrefix ++ k →
      emailUse.max = ipUse.max ∧ emailUse.windowMs = ipUse.windowMs :=
    fun mailbox k hk => absurd hk.symm (ipKey_ne_emailKey k mailbox)
  rw [RegisterService.checkLimits, clientIp_forward request.hop request.sent request.untrusted]
  dsimp only
  have hipKeys : ∀ k, ipUse.keyPrefix ++ request.hop.address = ipUse.keyPrefix ++ k →
      ipUse.max = ipUse.max ∧ ipUse.windowMs = ipUse.windowMs := fun _ _ => ⟨rfl, rfl⟩
  have hipChecked := h.ip.check (by decide) hipKeys
  have hemail := h.email.check (by decide) (hemailKey request.hop.address)
  split
  next hip =>
    split
    next hallowed =>
      let x : Passed :=
        ⟨request.hop.address, emailPrefix toLowerCase fields.email, s.limiter.clock⟩
      constructor
      · exact (h.ip.pass (by decide) x rfl hip).check (by decide) (hipKey x.mailbox)
      · exact hemail.pass (by decide) x rfl hallowed
    next =>
      constructor
      · exact hipChecked.check (by decide) (hipKey _)
      · exact hemail.check (by decide) fun _ _ => ⟨rfl, rfl⟩
  next => exact ⟨hipChecked, hemail⟩

/-- All that a step of a registration does to the limits. -/
theorem registerStep_cases (h : registerStep toLowerCase s i call e = some (s', call')) :
    (s'.limiter = s.limiter ∧ s'.passed = s.passed) ∨
      ∃ fields, s' = (s.checkLimits toLowerCase call.request fields).1 := by
  unfold registerStep at h
  split at h
  next =>
    split at h
    next =>
      cases h
      exact .inl ⟨rfl, rfl⟩
    next fields _ =>
      cases h
      exact .inr ⟨fields, rfl⟩
  next =>
    split at h
    next =>
      cases h
      exact .inl ⟨rfl, rfl⟩
    next =>
      cases h
      exact .inl ⟨rfl, rfl⟩
  next =>
    split at h
    next =>
      cases h
      exact .inl ⟨rfl, rfl⟩
    next =>
      cases h
      exact .inl ⟨rfl, rfl⟩
  next =>
    cases h
    exact .inl ⟨rfl, rfl⟩
  next =>
    cases h
    exact .inl ⟨rfl, rfl⟩
  next => cases h
  next => cases h

theorem registration_budgeted : (registerProgram toLowerCase trustedToken).Stable
    (fun _ _ _ _ => True) RegisterService.Budgeted (fun _ _ _ => True) where
  start := fun _ _ _ _ _ => trivial
  ambient := fun _ x h => ⟨h.ambient x, fun _ _ _ => trivial⟩
  step := by
    intro s i call e s' call' h _ _ hstep
    refine ⟨?_, trivial, fun _ _ _ _ => trivial⟩
    rcases registerStep_cases (i := i) hstep with ⟨hlimiter, hpassed⟩ | ⟨fields, rfl⟩
    · refine ⟨?_, ?_⟩
      · rw [hlimiter, hpassed]
        exact h.ip
      · rw [hlimiter, hpassed]
        exact h.email
    · exact h.checkLimits call.request fields

/-- In an interval as long as a window at most nine registrations of an address reach the database,
whatever the senders claim in their headers, as the address that is found is that of the last hop;
and at most five of a mailbox from all addresses. -/
theorem registration_budget (h : (registration toLowerCase trustedToken).Reachable w)
    (address mailbox : String) (start : Int) :
    countWithin (3600000 : Int) start (passedTimes w.shared.passed Passed.address address) ≤ 9 ∧
      countWithin (3600000 : Int) start (passedTimes w.shared.passed Passed.mailbox mailbox) ≤ 5 ∧
      ∀ request : Request trustedToken,
        clientIp trustedToken (request.hop.forward request.sent) = request.hop.address := by
  have hstable : (registerProgram toLowerCase trustedToken).Stable _ _ _ := registration_budgeted
  have hinv := hstable.invariant fun s =>
    s.limiter.buckets = (fun _ => none) ∧ s.limiter.admitted = [] ∧ s.passed = []
  have hstart : ∀ w, (registration toLowerCase trustedToken).init w →
      Holds RegisterService.Budgeted (fun _ _ _ => True) w := by
    intro w hw
    refine holds_start hw ?_
    rintro s ⟨hbuckets, hadmitted, hpassed⟩
    refine ⟨⟨?_, ?_⟩, fun _ => trivial⟩
    · rw [hpassed]
      exact .new hbuckets hadmitted
    · rw [hpassed]
      exact .new hbuckets hadmitted
  have hbudget := (hinv.reachable hstart h).1
  refine ⟨hbudget.ip.bounded address start, hbudget.email.bounded mailbox start, ?_⟩
  exact fun request => clientIp_forward request.hop request.sent request.untrusted

end

/-- A registration that claims to come from somewhere else. -/
def forged (claim email username : String) : Request none where
  hop := ⟨"10.0.0.9", by decide, by decide, by decide⟩
  sent := ⟨some claim, some "guess", none⟩
  untrusted := fun _ h => nomatch h
  body := .ok ⟨email, username⟩

def processStart : World RegisterService (RegisterCall none) :=
  ⟨⟨⟨0, fun _ => none, []⟩, [], []⟩, []⟩

/-- Four registrations of a mailbox; the second one goes past the limits before the first one has
looked for its user, and the fourth one is refused. -/
def forgedFour : List (Event (Request none) Ambient RegisterEvent) :=
  [.spawn (forged "1.1.1.1, , 2.2.2.2" "Ann@x.c" "ann"), .spawn (forged "3.3.3.3" "ann@y.c" "ann2"),
    .act 0 .proceed, .act 1 .proceed, .act 0 .proceed, .act 0 .proceed, .act 1 .proceed,
    .act 1 .proceed, .ambient (.elapse 1000), .spawn (forged "" "ANN@x.c" "ann3"), .act 2 .proceed,
    .act 2 .fail, .spawn (forged "4.4.4.4" "ann@z.c" "ann4"), .act 3 .proceed]

def RegisterPc.status : RegisterPc → Option Nat
  | .answered status _ _ => some status
  | .limits | .findFirst _ | .create _ => none

theorem forgedFour_run :
    ((registration asciiLower none).run processStart forgedFour).map (fun w =>
        (w.threads.map fun call => call.pc.status,
          w.shared.passed.map fun x => (x.address, x.mailbox, x.time))) =
      some ([some 201, some 201, some 500, some 429],
        [("10.0.0.9", "ann", 0), ("10.0.0.9", "ann", 0), ("10.0.0.9", "ann", 1000)]) := by
  decide +kernel

theorem registration_budget_forged :
    ∃ w, (registration asciiLower none).run processStart forgedFour = some w ∧
      w.shared.passed.length = 3 ∧
      countWithin (3600000 : Int) 0 (passedTimes w.shared.passed Passed.address "10.0.0.9") ≤ 9 ∧
      countWithin (3600000 : Int) 0 (passedTimes w.shared.passed Passed.mailbox "ann") ≤ 5 := by
  obtain ⟨w, hw, hrun⟩ := Option.map_eq_some_iff.1 forgedFour_run
  have hpassed := congrArg (fun x => x.2.length) hrun
  dsimp only at hpassed
  rw [List.length_map] at hpassed
  have hbudget := registration_budget ⟨_, _, ⟨⟨rfl, rfl, rfl⟩, rfl⟩, hw⟩ "10.0.0.9" "ann" 0
  exact ⟨w, hw, hpassed, hbudget.1, hbudget.2.1⟩

end Leetrank.Registration
