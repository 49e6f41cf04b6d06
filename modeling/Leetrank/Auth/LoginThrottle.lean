import Leetrank.Auth.Lockout
import Leetrank.Auth.Recovery
import Leetrank.Library.PerKey

namespace Leetrank
set_option autoImplicit true

open PerKey

structure RateAttempt where
  count : Nat
  windowEnd : Time

abbrev RateEntries := String → Option RateAttempt

def rateLimitMax : Nat := 5
def rateLimitWin : Time := 15 * minute

/-- `allow` under the mutex: whether the request may pass, or else in how many seconds. -/
def RateEntries.allow (entries : RateEntries) (key : String) (now : Time) :
    RateEntries × Bool × Int :=
  match entries key with
  | none => (Function.update entries key (some ⟨1, now + rateLimitWin⟩), true, 0)
  | some e =>
    if e.windowEnd < now then
      (Function.update entries key (some ⟨1, now + rateLimitWin⟩), true, 0)
    else
      (Function.update entries key (some ⟨e.count + 1, e.windowEnd⟩),
        if rateLimitMax < e.count + 1 then (false, secondsUntil now e.windowEnd + 1)
        else (true, 0))

structure Limiters where
  account : RateEntries
  ip : RateEntries

/-- A request from a client over a connection with a source port. The body names an identifier, and
is `none` if it is no JSON; the limiters read the clock one after the other. -/
structure LoginArrival where
  port : Nat
  identifier : Option String
  forwardedFor : String
  userAgent : String
  accountAt : Time
  ipAt : Time

/-- `RemoteAddr` of a connection from a host. -/
def remoteAddr (host : String) (port : Nat) : String := host ++ ":" ++ toString port

/-- The first address of `X-Forwarded-For` if the header is there, up to the first comma. -/
def LoginArrival.clientIP (r : LoginArrival) (host : String) : String :=
  if r.forwardedFor = "" then remoteAddr host r.port
  else String.ofList (r.forwardedFor.toList.takeWhile fun c => c ≠ ',')

def tooManyAttempts (retryAfter : Int) : LoginResponse :=
  ⟨429, some "too many login attempts, please try again later", some retryAfter⟩

section
variable (m : CaseMap) (host : String)

def LoginArrival.accountKey (r : LoginArrival) : String :=
  m.toLower (trimSpace (r.identifier.getD ""))

/-- `login` up to the lockout and the credential check. -/
def loginGate (s : Limiters) (r : LoginArrival) : Limiters × Except LoginResponse LoginRequest :=
  if r.identifier = none then (s, .error ⟨400, some "invalid JSON body", none⟩)
  else
    match s.account.allow (r.accountKey m) r.accountAt with
    | (account, false, retryAfter) => (⟨account, s.ip⟩, .error (tooManyAttempts retryAfter))
    | (account, true, _) =>
      match s.ip.allow (remoteAddr host r.port) r.ipAt with
      | (ip, false, retryAfter) => (⟨account, ip⟩, .error (tooManyAttempts retryAfter))
      | (ip, true, _) =>
        (⟨account, ip⟩, .ok ⟨r.accountKey m, r.clientIP host, r.userAgent⟩)

/-- The requests of a sequence that pass the limiters. -/
def passed : Limiters → List LoginArrival → List LoginRequest
  | _, [] => []
  | s, r :: rs =>
    match loginGate m host s r with
    | (s', .error _) => passed s' rs
    | (s', .ok req) => req :: passed s' rs

/-- Those of a sequence that are among the first to name their identifiers. -/
def namedEarly (rs : List LoginArrival) : List LoginArrival :=
  firstPerKey rateLimitMax (LoginArrival.accountKey m) (fun _ => 0)
    (rs.filter fun r => r.identifier ≠ none)

/-- The requests come within one window from an instant on, and no earlier window reaches into
it. -/
structure WithinWindow (s : Limiters) (start : Time) (rs : List LoginArrival) : Prop where
  account : ∀ key e, s.account key = some e → e.windowEnd < start
  ip : ∀ key e, s.ip key = some e → e.windowEnd < start
  times : ∀ r ∈ rs, (start ≤ r.accountAt ∧ r.accountAt ≤ start + rateLimitWin) ∧
    start ≤ r.ipAt ∧ r.ipAt ≤ start + rateLimitWin

/-- Whichever of the requests that pass the limiters an account lockout leaves, at most so many
reach the credential check. -/
def Throttled (s : Limiters) (rs : List LoginArrival) : Prop :=
  ∀ checked : List LoginRequest, checked.Sublist (passed m host s rs) →
    checked.length ≤ rateLimitMax

end

/-- So many requests under each key have asked a limiter since an instant. -/
def RateEntries.Counts (entries : RateEntries) (start : Time) (seen : String → Nat) : Prop :=
  ∀ key, seen key = 0 ∧ (∀ e, entries key = some e → e.windowEnd < start) ∨
    ∃ windowEnd, entries key = some ⟨seen key, windowEnd⟩ ∧ start + rateLimitWin ≤ windowEnd

variable {m : CaseMap} {host : String} {s : Limiters} {start now : Time}

theorem RateEntries.Counts.update {entries : RateEntries} (h : entries.Counts start seen)
    (key : String) (hend : start + rateLimitWin ≤ windowEnd) :
    RateEntries.Counts (Function.update entries key (some ⟨seen key + 1, windowEnd⟩)) start
      (Function.update seen key (seen key + 1)) := by
  intro k
  by_cases hk : k = key
  · subst hk
    rw [Function.update_self, Function.update_self]
    exact .inr ⟨windowEnd, rfl, hend⟩
  · rw [Function.update_of_ne hk, Function.update_of_ne hk]
    exact h k

/-- Within the window a limiter lets the first requests of a key through. -/
theorem RateEntries.Counts.allow {entries : RateEntries} (h : entries.Counts start seen)
    (hnow : start ≤ now ∧ now ≤ start + rateLimitWin) (key : String) :
    ∃ entries' retryAfter,
      entries.allow key now = (entries', decide (seen key < rateLimitMax), retryAfter) ∧
        entries'.Counts start (Function.update seen key (seen key + 1)) := by
  have hnew : start + rateLimitWin ≤ now + rateLimitWin := Int.add_le_add_right hnow.1 _
  have hupdate := h.update key hnew
  rcases h key with ⟨hzero, hold⟩ | ⟨windowEnd, hkey, hend⟩
  · rw [hzero] at hupdate ⊢
    unfold RateEntries.allow
    split
    next => exact ⟨_, 0, rfl, hupdate⟩
    next e he =>
      rw [if_pos (Int.lt_of_lt_of_le (hold e he) hnow.1)]
      exact ⟨_, 0, rfl, hupdate⟩
  · unfold RateEntries.allow
    rw [hkey]
    dsimp only
    rw [if_neg (Int.not_lt.2 (Int.le_trans hnow.2 hend))]
    by_cases hmax : rateLimitMax < seen key + 1
    · rw [if_pos hmax, decide_eq_false (by omega)]
      exact ⟨_, _, rfl, h.update key hend⟩
    · rw [if_neg hmax, decide_eq_true (by omega)]
      exact ⟨_, _, rfl, h.update key hend⟩

/-- Those pass that are early for their identifiers, and among these for their connections. -/
theorem length_passed (ha : s.account.Counts start seen) (hi : s.ip.Counts start seenIp)
    (ht : ∀ r ∈ rs, (start ≤ r.accountAt ∧ r.accountAt ≤ start + rateLimitWin) ∧
      start ≤ r.ipAt ∧ r.ipAt ≤ start + rateLimitWin) :
    (passed m host s rs).length =
      (firstPerKey rateLimitMax (fun r => remoteAddr host r.port) seenIp
        (firstPerKey rateLimitMax (LoginArrival.accountKey m) seen
          (rs.filter fun r => r.identifier ≠ none))).length := by
  induction rs generalizing s seen seenIp with
  | nil => rfl
  | cons r rs ih =>
    rw [List.forall_mem_cons] at ht
    obtain ⟨⟨hta, hti⟩, ht⟩ := ht
    rw [passed, loginGate]
    by_cases hid : r.identifier = none
    · rw [if_pos hid, List.filter_cons_of_neg (by simpa using hid)]
      exact ih ha hi ht
    · obtain ⟨account, retryAfter, hallow, hcount⟩ := ha.allow hta (r.accountKey m)
      rw [if_neg hid, List.filter_cons_of_pos (by simpa using hid), firstPerKey, hallow]
      by_cases hearly : seen (r.accountKey m) < rateLimitMax
      · obtain ⟨ip, retryIp, hip, hcountIp⟩ := hi.allow hti (remoteAddr host r.port)
        rw [if_pos hearly, decide_eq_true hearly, firstPerKey]
        dsimp only
        rw [hip]
        by_cases hconn : seenIp (remoteAddr host r.port) < rateLimitMax
        · rw [if_pos hconn, decide_eq_true hconn]
          exact congrArg Nat.succ (ih hcount hcountIp ht)
        · rw [if_neg hconn, decide_eq_false hconn]
          exact ih hcount hcountIp ht
      · rw [if_neg hearly, decide_eq_false hearly]
        exact ih hcount hi ht

theorem remoteAddr_inj {p q : Nat} : remoteAddr host p = remoteAddr host q ↔ p = q := by
  rw [remoteAddr, remoteAddr, String.append_right_inj]
  constructor
  · intro h
    exact toString_inj (congrArg String.toList h)
  · rintro rfl
    rfl

/-- At most so many requests of a host reach the credential check exactly if no more are early for
their identifiers, or those that are all come over one connection. -/
theorem login_throttled_iff (h : WithinWindow s start rs) :
    Throttled m host s rs ↔ (namedEarly m rs).length ≤ rateLimitMax ∨
      ∃ port, ∀ r ∈ namedEarly m rs, r.port = port := by
  have hlen : (passed m host s rs).length =
      (firstPerKey rateLimitMax (fun r => remoteAddr host r.port) (fun _ => 0)
        (namedEarly m rs)).length :=
    length_passed (fun key => .inl ⟨rfl, h.account key⟩) (fun key => .inl ⟨rfl, h.ip key⟩) h.times
  have hthrottled : Throttled m host s rs ↔ (passed m host s rs).length ≤ rateLimitMax := by
    constructor
    · intro hall
      exact hall _ (List.Sublist.refl _)
    · intro hle checked hsub
      exact Nat.le_trans hsub.length_le hle
  rw [hthrottled, hlen, length_firstPerKey_le_iff (by decide)]
  apply or_congr_right
  change (∃ addr, ∀ r ∈ namedEarly m rs, remoteAddr host r.port = addr) ↔ _
  constructor
  · rintro ⟨addr, haddr⟩
    cases hrs : namedEarly m rs with
    | nil => exact ⟨0, nofun⟩
    | cons r rest =>
      refine ⟨r.port, ?_⟩
      intro r' hr'
      have hfirst := haddr r (hrs ▸ List.mem_cons_self)
      exact remoteAddr_inj.1 ((haddr r' (hrs ▸ hr')).trans hfirst.symm)
  · rintro ⟨port, hport⟩
    exact ⟨remoteAddr host port, fun r hr => congrArg (remoteAddr host) (hport r hr)⟩

def noLimiters : Limiters := ⟨fun _ => none, fun _ => none⟩

/-- Requests with six identifiers, each over a connection of its own if `spread` is 1. -/
def guesses (spread : Nat) : List LoginArrival :=
  ["ann", "bob", "cleo", "dan", "eve", "finn"].mapIdx fun i name =>
    ⟨50000 + spread * i, some name, "", "curl", i, i⟩

theorem guesses_within (spread : Nat) : WithinWindow noLimiters 0 (guesses spread) where
  account := nofun
  ip := nofun
  times := by
    intro r hr
    obtain ⟨i, hi, rfl⟩ := List.mem_mapIdx.1 hr
    simp only [List.length_cons, List.length_nil] at hi
    have hsoon : (0 : Int) ≤ i ∧ (i : Int) ≤ 0 + 15 * (60 * 1000000) := by omega
    exact ⟨hsoon, hsoon⟩

theorem login_throttled_one_connection : Throttled goCaseMap "192.0.2.1" noLimiters (guesses 0) :=
  (login_throttled_iff (guesses_within 0)).2 (.inr ⟨50000, by decide +kernel⟩)

/-- Over six connections all of them pass. -/
theorem login_not_throttled :
    WithinWindow noLimiters 0 (guesses 1) ∧
      rateLimitMax < (passed goCaseMap "192.0.2.1" noLimiters (guesses 1)).length :=
  ⟨guesses_within 1, by decide +kernel⟩

end Leetrank
