import Leetrank.Realtime.ServeWs

namespace Leetrank
set_option autoImplicit true

open EventMachine KeyedSets Threads

variable {parse : String → Option String} {s s' : Realtime}

/-- The subject and the IP for which a thread has acquired quota that it has not released. -/
def ServeThread.quota : ServeThread → Option (String × String)
  | .accept _ sub ip | .add _ sub ip | .serving _ sub ip | .leaving _ sub ip | .closing sub ip =>
    some (sub, ip)
  | _ => none

/-- The subject and the IP of an open connection. -/
def ServeThread.connection : ServeThread → Option (String × String)
  | .serving _ sub ip => some (sub, ip)
  | _ => none

/-- An attempt that has begun and neither serves its connection nor has returned. -/
def ServeThread.midFlight : ServeThread → Bool
  | .verify _ | .acquire _ _ | .refused _ _ _ | .refund _ _ _ | .accept _ _ _ | .add _ _ _ => true
  | .leaving _ _ _ | .closing _ _ => true
  | _ => false

def Limiter.Counter.holds (k : Limiter.Counter) (p : ServeThread) : Bool :=
  p.quota.any fun (sub, ip) => k.counts sub ip

def Limiter.Counter.opened (k : Limiter.Counter) (p : ServeThread) : Bool :=
  p.connection.any fun (sub, ip) => k.counts sub ip

/-- The limiter admits the attempt, and an admitted attempt is upgraded. -/
def Admitted : StepProp Realtime ServeThread ServeEvent
  | s, _, .acquire r sub, _ => ∃ limiter, s.limiter.acquire sub (clientIP r) = .ok limiter
  | _, _, .accept _ _ _, .upgrade ok => ok = true
  | _, _, _, _ => True

/-- A thread that the limiter has refused and that is about to release what it does not hold. -/
def ServeThread.TurnedAway : ServeThread → Prop
  | .refused _ _ _ | .refund _ _ _ => True
  | _ => False

theorem ServeMove.not_turnedAway (hm : ServeMove parse s i p e s' p') (hp : ¬p.TurnedAway)
    (hC : Admitted s i p e) : ¬p'.TurnedAway := by
  cases hm with
  | refuse r sub reason ha =>
    obtain ⟨limiter, ho⟩ := hC
    rw [ha] at ho
    cases ho
  | turnAway sub ip reason ok => exact absurd trivial hp
  | _ => exact id

theorem turnedAway_stable :
    (serveProgram parse).Stable Admitted (fun _ => True) (OfThreads fun p => ¬p.TurnedAway) := by
  refine Program.stable_ofThreads ?_ ?_
  · intro s a
    cases a <;> exact id
  · intro s i p e s' p' hp hC hs
    exact (serveStep_move hs).not_turnedAway hp hC

/-- A counter is the number of the threads that hold quota it counts. -/
theorem Limiter.Counter.accounts (k : Limiter.Counter) :
    (serveProgram parse).AccountsUnder
      (fun s i p e => (Admitted s i p e ∧ ¬p.TurnedAway) ∧
        (k.holds p = true → 0 < (k.value s.limiter : Int)))
      (fun s => k.value s.limiter) k.holds where
  start := by
    intro s a
    cases a <;> rfl
  ambient := fun _ x => x.elim
  step := by
    intro s i p e s' p' ⟨⟨hC, ht⟩, hpos⟩ hs
    have released (sub ip : String)
        (hpos : k.counts sub ip = true → 0 < (k.value s.limiter : Int)) :
        (k.value (s.limiter.release sub ip) : Int) - k.value s.limiter =
          -(k.counts sub ip).toInt := by
      rw [(k.release s.limiter sub ip).1]
      cases hc : k.counts sub ip with
      | false => exact Int.sub_self _
      | true =>
        have := hpos hc
        change ((k.value s.limiter - 1 : Nat) : Int) - k.value s.limiter = -1
        omega
    cases serveStep_move hs with
    | admitted r sub limiter ha =>
      obtain ⟨hv, -, -⟩ := k.acquire _ _ _ _ ha
      change (k.value limiter : Int) - k.value s.limiter = (k.counts sub (clientIP r)).toInt - 0
      rw [hv]
      cases k.counts sub (clientIP r) with
      | false => exact Int.sub_self _
      | true =>
        change ((k.value s.limiter + 1 : Nat) : Int) - k.value s.limiter = 1
        omega
    | refund sub ip outcome => exact absurd trivial ht
    | upgradeFailed r sub ip => cases hC
    | release sub ip =>
      change _ = 0 - (k.counts sub ip).toInt
      rw [Int.zero_sub]
      exact released sub ip hpos
    | _ => simp [Limiter.Counter.holds, ServeThread.quota]

variable {w w₀ : World Realtime ServeThread} {es : List (Event ServeStart Empty ServeEvent)}
  {perSubject perIP : Int}

theorem Limiter.Counter.value_eq_count (k : Limiter.Counter)
    (h₀ : (serveMachine parse perSubject perIP).init w₀) (hk : k.value w₀.shared.limiter = 0)
    (hC : (serveMachine parse perSubject perIP).Always (OnSteps Admitted) w₀ es)
    (hr : (serveMachine parse perSubject perIP).run w₀ es = some w) :
    k.value w.shared.limiter = w.count k.holds := by
  have hC' : (serveMachine parse perSubject perIP).Always
      (OnSteps fun s i p e => Admitted s i p e ∧ ¬p.TurnedAway) w₀ es := by
    refine (turnedAway_stable.preserves _).always (holds_ofThreads h₀) hC ?_
    intro w e w' hw _ hC i x p he hp
    exact ⟨hC i x p he hp, hw.2 i p hp⟩
  have hzero : (k.value w₀.shared.limiter : Int) = w₀.count k.holds := by
    rw [hk, World.count, h₀.2]
    rfl
  exact Int.ofNat.inj ((k.accounts.preserves _).run hzero hC' hr)

/-- Without an attempt in mid-flight, who holds quota has an open connection. -/
theorem count_holds_eq (k : Limiter.Counter) (hq : ∀ p ∈ w.threads, p.midFlight = false) :
    w.count k.holds = w.count k.opened := by
  apply List.countP_congr
  intro p hp
  have hflight := hq p hp
  cases p with
  | accept r sub ip => cases hflight
  | add r sub ip => cases hflight
  | leaving r sub ip => cases hflight
  | closing sub ip => cases hflight
  | _ => exact Iff.rfl

/-- No counter exceeds its cap, whatever happens. -/
theorem Limiter.Counter.bounded (k : Limiter.Counter) (n : Nat) :
    (serveProgram parse).Stable (fun _ _ _ _ => True)
      (fun s => k.value s.limiter ≤ n ∧ k.cap s.limiter = n) (fun _ _ _ => True) where
  start := fun _ _ _ _ _ => trivial
  ambient := fun _ x => x.elim
  step := by
    rintro s i p e s' p' ⟨hle, hcap⟩ - - hs
    refine ⟨?_, trivial, fun _ _ _ _ => trivial⟩
    have released (sub ip : String) : k.value (s.limiter.release sub ip) ≤ n ∧
        k.cap (s.limiter.release sub ip) = n := by
      obtain ⟨hv, hc⟩ := k.release s.limiter sub ip
      rw [hv, hc]
      exact ⟨Nat.le_trans (Nat.sub_le _ _) hle, hcap⟩
    cases serveStep_move hs with
    | admitted r sub limiter ha =>
      obtain ⟨hv, hc, hlt⟩ := k.acquire _ _ _ _ ha
      refine ⟨?_, hc.trans hcap⟩
      change k.value limiter ≤ n
      rw [hv]
      cases hcount : k.counts sub (clientIP r) with
      | false => exact hle
      | true =>
        have := hlt hcount
        change k.value s.limiter + 1 ≤ n
        omega
    | refund sub ip outcome => exact released sub ip
    | release sub ip => exact released sub ip
    | _ => exact ⟨hle, hcap⟩

theorem Limiter.Counter.quota (k : Limiter.Counter)
    (h₀ : (serveMachine parse perSubject perIP).init w₀) (hk : k.value w₀.shared.limiter = 0)
    (hC : (serveMachine parse perSubject perIP).Always (OnSteps Admitted) w₀ es)
    (hr : (serveMachine parse perSubject perIP).run w₀ es = some w)
    (hq : ∀ p ∈ w.threads, p.midFlight = false) :
    k.value w.shared.limiter = w.count k.opened ∧
      k.value w.shared.limiter ≤ k.cap (NewLimiter perSubject perIP) := by
  refine ⟨(k.value_eq_count h₀ hk hC hr).trans (count_holds_eq k hq), ?_⟩
  have hinit : k.value w₀.shared.limiter ≤ k.cap (NewLimiter perSubject perIP) ∧
      k.cap w₀.shared.limiter = k.cap (NewLimiter perSubject perIP) := by
    rw [hk, h₀.1]
    exact ⟨Nat.zero_le _, rfl⟩
  have hstart := holds_start (L := fun _ _ _ => True) h₀ fun s hs =>
    ⟨show k.value s.limiter ≤ _ ∧ k.cap s.limiter = _ from hs ▸ h₀.1 ▸ hinit, fun _ => trivial⟩
  exact (((k.bounded _).preserves _).run hstart (OnSteps.always_true w₀ es) hr).1.1

/-- In a run without refusals and without failing upgrades, whenever no attempt is in mid-flight
each counter is the number of open connections of its subject or IP, at most the cap. -/
theorem quota_accounting (h₀ : (serveMachine parse perSubject perIP).init w₀)
    (hC : (serveMachine parse perSubject perIP).Always (OnSteps Admitted) w₀ es)
    (hr : (serveMachine parse perSubject perIP).run w₀ es = some w)
    (hq : ∀ p ∈ w.threads, p.midFlight = false) :
    (∀ sub ≠ "", w.shared.limiter.bySub sub =
        w.count (fun p => p.connection.any fun c => decide (c.1 = sub)) ∧
      w.shared.limiter.bySub sub ≤ (NewLimiter perSubject perIP).perSubject) ∧
    ∀ ip ≠ "", w.shared.limiter.byIP ip =
        w.count (fun p => p.connection.any fun c => decide (c.2 = ip)) ∧
      w.shared.limiter.byIP ip ≤ (NewLimiter perSubject perIP).perIP := by
  have hzero : w₀.shared.limiter = NewLimiter perSubject perIP := by
    rw [h₀.1]
    rfl
  constructor
  · exact fun sub hsub => (Limiter.ofSubject sub hsub).quota h₀ (by rw [hzero]; rfl) hC hr hq
  · exact fun ip hip => (Limiter.ofIP ip hip).quota h₀ (by rw [hzero]; rfl) hC hr hq

/-- An upgrade request with a token that is its subject. -/
def plainUpgrade (sub : String) : UpgradeRequest := ⟨sub, "", "", "", "10.0.0.1:5000"⟩

def realtimeStart (perSubject : Int) : World Realtime ServeThread := ⟨.new perSubject 0, []⟩

/-- The thread goes from its start to the upgrade. -/
def handshake (i : Nat) : List (Event ServeStart Empty ServeEvent) :=
  [.spawn (.attempt (plainUpgrade "u1")), .act i .next, .act i .next, .act i .next]

def connected (i : Nat) : List (Event ServeStart Empty ServeEvent) :=
  handshake i ++ [.act i (.upgrade true), .act i .next]

/-- Two connections of one user, whose attempts interleave, and a third in place of the first. -/
def reconnected : List (Event ServeStart Empty ServeEvent) :=
  handshake 0 ++ handshake 1 ++
    [.act 1 (.upgrade true), .act 0 (.upgrade true), .act 0 .next, .act 1 .next, .act 0 .hangup,
      .act 0 .next, .act 0 .next] ++
    connected 2

theorem reconnected_admitted :
    (serveMachine some 2 0).Always (OnSteps Admitted) (realtimeStart 2) reconnected := by
  iterate 2
    apply Machine.always_cons rfl (OnSteps.spawn _)
    apply Machine.always_cons rfl (OnSteps.act rfl trivial)
    apply Machine.always_cons rfl (OnSteps.act rfl trivial)
    apply Machine.always_cons rfl (OnSteps.act rfl ⟨_, rfl⟩)
  apply Machine.always_cons rfl (OnSteps.act rfl rfl)
  apply Machine.always_cons rfl (OnSteps.act rfl rfl)
  iterate 5 apply Machine.always_cons rfl (OnSteps.act rfl trivial)
  apply Machine.always_cons rfl (OnSteps.spawn _)
  apply Machine.always_cons rfl (OnSteps.act rfl trivial)
  apply Machine.always_cons rfl (OnSteps.act rfl trivial)
  apply Machine.always_cons rfl (OnSteps.act rfl ⟨_, rfl⟩)
  apply Machine.always_cons rfl (OnSteps.act rfl rfl)
  exact Machine.always_cons rfl (OnSteps.act rfl trivial) trivial

theorem reconnected_run :
    ∃ w, (serveMachine some 2 0).run (realtimeStart 2) reconnected = some w ∧
      w.threads = [.returned (.closed 1000 "bye"), .serving (plainUpgrade "u1") "u1" "10.0.0.1",
        .serving (plainUpgrade "u1") "u1" "10.0.0.1"] :=
  ⟨_, rfl, rfl⟩

theorem quota_accounting_reconnected :
    ∃ w, (serveMachine some 2 0).run (realtimeStart 2) reconnected = some w ∧
      (w.count fun p => p.connection.any fun c => decide (c.1 = "u1")) = 2 ∧
      w.shared.limiter.bySub "u1" = 2 ∧ w.shared.limiter.byIP "10.0.0.1" = 2 := by
  obtain ⟨w, hr, hw⟩ := reconnected_run
  have hq : ∀ p ∈ w.threads, p.midFlight = false := by
    rw [hw]
    decide
  obtain ⟨hsub, hip⟩ := quota_accounting ⟨rfl, rfl⟩ reconnected_admitted hr hq
  refine ⟨w, hr, ?_, (hsub "u1" (by decide)).1.trans ?_, (hip "10.0.0.1" (by decide)).1.trans ?_⟩
  all_goals
    rw [World.count, hw]
    rfl

/-- A refused attempt releases the quota of the connection that is open, so that the next attempt
is admitted beyond the cap; and an upgrade that fails keeps its quota for good. -/
theorem quota_drifts :
    (∃ w, (serveMachine some 1 0).run (realtimeStart 1)
        (connected 0 ++ (handshake 1 ++ [.act 1 (.upgrade true), .act 1 .next]) ++ connected 2) =
          some w ∧
      (∀ p ∈ w.threads, p.midFlight = false) ∧ w.shared.limiter.perSubject = 1 ∧
      w.shared.limiter.bySub "u1" = 1 ∧
      (w.count fun p => p.connection.any fun c => decide (c.1 = "u1")) = 2) ∧
    ∃ w, (serveMachine some 1 0).run (realtimeStart 1) (handshake 0 ++ [.act 0 (.upgrade false)]) =
          some w ∧
      (∀ p ∈ w.threads, p.midFlight = false) ∧ w.shared.limiter.bySub "u1" = 1 ∧
      (w.count fun p => p.connection.any fun c => decide (c.1 = "u1")) = 0 := by
  refine ⟨⟨_, rfl, ?_, rfl, rfl, rfl⟩, ⟨_, rfl, ?_, rfl, rfl⟩⟩
  · decide
  · decide

end Leetrank
