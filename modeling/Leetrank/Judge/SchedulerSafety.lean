import Leetrank.Judge.Scheduler
import Mathlib.Algebra.Group.Basic
import Mathlib.Algebra.Group.Int.Defs

namespace Leetrank
set_option autoImplicit true

open EventMachine Threads

/-- The call has a token in the global channel. -/
@[simp] def AcquirePc.holdsGlobal : AcquirePc → Bool
  | .accept | .held | .releaseGlobal => true
  | .findSlot | .takeIP | .takeGlobal | .returnIP _ | .reject _ | .failed _ | .releaseIP | .finish
  | .released => false

/-- The call has a token in the channel of its address. -/
@[simp] def AcquirePc.holdsIP : AcquirePc → Bool
  | .takeGlobal | .returnIP _ | .accept | .held | .releaseGlobal | .releaseIP => true
  | .findSlot | .takeIP | .reject _ | .failed _ | .finish | .released => false

/-- The call is counted in `inflightByIP` and `currentInUse`. -/
@[simp] def AcquirePc.inUse : AcquirePc → Bool
  | .held | .releaseGlobal | .releaseIP | .finish => true
  | .findSlot | .takeIP | .takeGlobal | .returnIP _ | .reject _ | .failed _ | .accept
  | .released => false

@[simp] def AcquirePc.accepted : AcquirePc → Bool
  | .held | .releaseGlobal | .releaseIP | .finish | .released => true
  | .findSlot | .takeIP | .takeGlobal | .returnIP _ | .reject _ | .failed _ | .accept => false

@[simp] def AcquirePc.rejected : AcquirePc → Bool
  | .failed _ => true
  | .findSlot | .takeIP | .takeGlobal | .returnIP _ | .reject _ | .accept | .held | .releaseGlobal
  | .releaseIP | .finish | .released => false

/-- `Acquire` has not returned yet. -/
def AcquirePc.inProgress (pc : AcquirePc) : Bool := !pc.accepted && !pc.rejected

/-- The call is over: `Acquire` returned an error, or its release has returned. -/
def AcquirePc.over : AcquirePc → Bool
  | .failed _ | .released => true
  | .findSlot | .takeIP | .takeGlobal | .returnIP _ | .reject _ | .accept | .held | .releaseGlobal
  | .releaseIP | .finish => false

def Acquire.holdsGlobal (call : Acquire) : Bool := call.pc.holdsGlobal

def Acquire.holdsIP (ip : String) (call : Acquire) : Bool := call.ip == ip && call.pc.holdsIP

def Acquire.inUse (ip : String) (call : Acquire) : Bool := call.ip == ip && call.pc.inUse

/-- A caller that holds a slot and came from this address. -/
def Acquire.holderFrom (ip : String) (call : Acquire) : Bool :=
  call.ip == ip && call.holdsGlobal

/-- A step takes and gives back the tokens, and counts the outcomes, that its program counters
stand for. -/
structure Balanced (ip : String) (s s' : Scheduler) (pc pc' : AcquirePc) : Prop where
  global : (s'.global : Int) - s.global = pc'.holdsGlobal.toInt - pc.holdsGlobal.toInt
  own : (s'.slotLen ip : Int) - s.slotLen ip = pc'.holdsIP.toInt - pc.holdsIP.toInt
  others : ∀ ip', ip' ≠ ip → s'.slotLen ip' = s.slotLen ip'
  accepted : s'.totalAccepted - s.totalAccepted = pc'.accepted.toInt - pc.accepted.toInt
  rejected : s'.totalRejected - s.totalRejected = pc'.rejected.toInt - pc.rejected.toInt

theorem Balanced.setIP (s : Scheduler) (ip : String) (n : Nat)
    (hn : (n : Int) - s.slotLen ip = pc'.holdsIP.toInt - pc.holdsIP.toInt)
    (hg : pc'.holdsGlobal = pc.holdsGlobal) (ha : pc'.accepted = pc.accepted)
    (hr : pc'.rejected = pc.rejected) :
    Balanced ip s { s with perIP := Function.update s.perIP ip (some n) } pc pc' where
  global := by rw [hg, Int.sub_self, Int.sub_self]
  own := by
    rw [Scheduler.slotLen_update, if_pos rfl]
    exact hn
  others := fun ip' hne => by rw [Scheduler.slotLen_update, if_neg hne]
  accepted := by rw [ha, Int.sub_self, Int.sub_self]
  rejected := by rw [hr, Int.sub_self, Int.sub_self]

theorem Balanced.setGlobal (s : Scheduler) (ip : String) (n : Nat)
    (hn : (n : Int) - s.global = pc'.holdsGlobal.toInt - pc.holdsGlobal.toInt)
    (hi : pc'.holdsIP = pc.holdsIP) (ha : pc'.accepted = pc.accepted)
    (hr : pc'.rejected = pc.rejected) : Balanced ip s { s with global := n } pc pc' where
  global := hn
  own := by
    rw [hi, Int.sub_self]
    exact Int.sub_self _
  others := fun _ _ => rfl
  accepted := by rw [ha, Int.sub_self, Int.sub_self]
  rejected := by rw [hr, Int.sub_self, Int.sub_self]

theorem AcquireStep.balanced (h : AcquireStep s ip pc s' pc') : Balanced ip s s' pc pc' := by
  cases h with
  | findSlot =>
    have hrest : (s.ipSlot ip).global = s.global ∧
        (s.ipSlot ip).totalAccepted = s.totalAccepted ∧
        (s.ipSlot ip).totalRejected = s.totalRejected := by
      rw [Scheduler.ipSlot]
      split <;> exact ⟨rfl, rfl, rfl⟩
    constructor <;> simp [hrest, Scheduler.slotLen_ipSlot]
  | takeIP hs =>
    obtain ⟨_, rfl⟩ := Scheduler.sendIP_eq_some hs
    refine .setIP s ip _ ?_ rfl rfl rfl
    change _ = (1 : Int) - 0
    omega
  | returnIP hs | releaseIP hs =>
    obtain ⟨n, hn, rfl⟩ := Scheduler.receiveIP_eq_some hs
    refine .setIP s ip n ?_ rfl rfl rfl
    change _ = (0 : Int) - 1
    omega
  | takeGlobal hs =>
    obtain ⟨_, rfl⟩ := Scheduler.sendGlobal_eq_some hs
    refine .setGlobal s ip _ ?_ rfl rfl rfl
    change _ = (1 : Int) - 0
    omega
  | releaseGlobal hs =>
    obtain ⟨n, hn, rfl⟩ := Scheduler.receiveGlobal_eq_some hs
    refine .setGlobal s ip n ?_ rfl rfl rfl
    change _ = (0 : Int) - 1
    omega
  | giveUp | abort | release | again => constructor <;> simp
  | reject | accept | finish =>
    constructor <;>
      simp [Scheduler.slotLen, Scheduler.recordReject, Scheduler.recordAccept,
        Scheduler.recordRelease]

theorem globalTokens_accounts :
    acquireProgram.Accounts (fun s => s.global) Acquire.holdsGlobal where
  start := fun _ _ => rfl
  ambient := fun _ x => nomatch x
  step := fun _ i _ _ _ _ h => (acquireStep_cases (i := i) h).2.balanced.global

theorem ipTokens_accounts (ip : String) :
    acquireProgram.Accounts (fun s => s.slotLen ip) (Acquire.holdsIP ip) where
  start := fun _ _ => Bool.and_false _
  ambient := fun _ x => nomatch x
  step := by
    intro s i call e s' call' h
    obtain ⟨hip, hstep⟩ := acquireStep_cases (i := i) h
    rw [Acquire.holdsIP, Acquire.holdsIP, hip]
    by_cases h₁ : call.ip = ip
    · subst ip
      rw [beq_self_eq_true, Bool.true_and, Bool.true_and]
      exact hstep.balanced.own
    · rw [beq_eq_false_iff_ne.2 h₁, Bool.false_and, Bool.false_and,
        hstep.balanced.others ip (Ne.symm h₁), Int.sub_self, Int.sub_self]

theorem totalAccepted_accounts :
    acquireProgram.Accounts (fun s => s.totalAccepted) fun call => call.pc.accepted where
  start := fun _ _ => rfl
  ambient := fun _ x => nomatch x
  step := fun _ i _ _ _ _ h => (acquireStep_cases (i := i) h).2.balanced.accepted

theorem totalRejected_accounts :
    acquireProgram.Accounts (fun s => s.totalRejected) fun call => call.pc.rejected where
  start := fun _ _ => rfl
  ambient := fun _ x => nomatch x
  step := fun _ i _ _ _ _ h => (acquireStep_cases (i := i) h).2.balanced.rejected

/-- The channels hold at most as many tokens as they have room for. -/
def Scheduler.Capped (limits : ConcurrencyConfig) (s : Scheduler) : Prop :=
  s.cfg = limits ∧ s.global ≤ limits.globalMax ∧ ∀ ip, s.slotLen ip ≤ limits.perIPMax

theorem Scheduler.Capped.setIP {s : Scheduler} (h : s.Capped limits) (hn : n ≤ limits.perIPMax)
    (ip : String) :
    Scheduler.Capped limits { s with perIP := Function.update s.perIP ip (some n) } := by
  refine ⟨h.1, h.2.1, ?_⟩
  intro ip'
  rw [Scheduler.slotLen_update]
  split
  · exact hn
  · exact h.2.2 ip'

theorem Scheduler.Capped.step {s : Scheduler} (h : s.Capped limits)
    (hs : AcquireStep s ip pc s' pc') : s'.Capped limits := by
  obtain ⟨hcfg, hglobal, hip⟩ := h
  cases hs with
  | findSlot =>
    have hrest : (s.ipSlot ip).cfg = s.cfg ∧ (s.ipSlot ip).global = s.global := by
      rw [Scheduler.ipSlot]
      split <;> exact ⟨rfl, rfl⟩
    refine ⟨hrest.1.trans hcfg, hrest.2 ▸ hglobal, ?_⟩
    intro ip'
    rw [Scheduler.slotLen_ipSlot]
    exact hip ip'
  | takeIP hs =>
    obtain ⟨hlt, rfl⟩ := Scheduler.sendIP_eq_some hs
    rw [hcfg] at hlt
    exact Scheduler.Capped.setIP ⟨hcfg, hglobal, hip⟩ hlt ip
  | returnIP hs | releaseIP hs =>
    obtain ⟨n, hn, rfl⟩ := Scheduler.receiveIP_eq_some hs
    have hle := hip ip
    exact Scheduler.Capped.setIP ⟨hcfg, hglobal, hip⟩ (by omega) ip
  | takeGlobal hs =>
    obtain ⟨hlt, rfl⟩ := Scheduler.sendGlobal_eq_some hs
    exact ⟨hcfg, hcfg ▸ hlt, hip⟩
  | releaseGlobal hs =>
    obtain ⟨n, hn, rfl⟩ := Scheduler.receiveGlobal_eq_some hs
    refine ⟨hcfg, ?_, hip⟩
    change n ≤ limits.globalMax
    omega
  | giveUp | abort | release | again | reject | accept | finish => exact ⟨hcfg, hglobal, hip⟩

/-- The entry of an address in `inflightByIP`, by the number of its calls that are in use. -/
def tally (n : Nat) : Option Int := if n = 0 then none else some n

theorem tally_getD (n : Nat) : (tally n).getD 0 = n := by
  rw [tally]
  split
  next h => simp [h]
  next => rfl

/-- A step enters and removes a call at its own address. -/
theorem AcquireStep.inflight {s s' : Scheduler} (h : AcquireStep s ip pc s' pc') (ip' : String)
    (ht : s.inflightByIP ip' = tally n) (hn : ip' = ip → pc.inUse = true → 0 < n)
    (hm : m + (ip == ip' && pc.inUse).toNat = n + (ip == ip' && pc'.inUse).toNat) :
    s'.inflightByIP ip' = tally m := by
  have hsame (hi : s'.inflightByIP = s.inflightByIP) (hu : pc'.inUse = pc.inUse) :
      s'.inflightByIP ip' = tally m := by
    rw [hu] at hm
    rw [hi, ht, Nat.add_right_cancel hm]
  cases h with
  | findSlot => exact hsame (by rw [Scheduler.ipSlot]; split <;> rfl) rfl
  | takeIP hs =>
    obtain ⟨_, rfl⟩ := Scheduler.sendIP_eq_some hs
    exact hsame rfl rfl
  | takeGlobal hs =>
    obtain ⟨_, rfl⟩ := Scheduler.sendGlobal_eq_some hs
    exact hsame rfl rfl
  | returnIP hs | releaseIP hs =>
    obtain ⟨_, _, rfl⟩ := Scheduler.receiveIP_eq_some hs
    exact hsame rfl rfl
  | releaseGlobal hs =>
    obtain ⟨_, _, rfl⟩ := Scheduler.receiveGlobal_eq_some hs
    exact hsame rfl rfl
  | giveUp | abort | reject | release | again => exact hsame rfl rfl
  | accept =>
    simp only [Scheduler.recordAccept]
    by_cases hip : ip' = ip
    · subst ip'
      have hm' : m = n + 1 := by simpa using hm
      rw [Function.update_self, ht, tally_getD, hm', tally, if_neg (Nat.succ_ne_zero n)]
      rfl
    · have hm' : m = n := by simpa [beq_eq_false_iff_ne.2 (Ne.symm hip)] using hm
      rw [Function.update_of_ne hip, ht, hm']
  | finish =>
    simp only [Scheduler.recordRelease]
    by_cases hip : ip' = ip
    · subst ip'
      have hm' : m + 1 = n := by simpa using hm
      rw [Function.update_self, ht, tally_getD, ← hm', tally]
      by_cases h₀ : m = 0
      · simp [h₀]
      · simp [h₀]
    · have hm' : m = n := by simpa [beq_eq_false_iff_ne.2 (Ne.symm hip)] using hm
      rw [Function.update_of_ne hip, ht, hm']

theorem capped_invariant (limits : ConcurrencyConfig) :
    (judgeScheduler limits).Invariant fun w => w.shared.Capped limits := by
  intro w e w' hw hs _
  cases e with
  | spawn ip =>
    cases hs
    exact hw
  | ambient x => exact nomatch x
  | act i e =>
    obtain ⟨call, s, call', _, hst, rfl⟩ := Program.next_act hs
    exact hw.step (acquireStep_cases (i := i) hst).2

theorem inflight_invariant (limits : ConcurrencyConfig) :
    (judgeScheduler limits).Invariant fun w =>
      ∀ ip, w.shared.inflightByIP ip = tally (w.count (Acquire.inUse ip)) := by
  intro w e w' hw hs _ ip
  cases e with
  | spawn ip' =>
    cases hs
    rw [World.count_append]
    simpa [acquireProgram, Acquire.inUse] using hw ip
  | ambient x => exact nomatch x
  | act i e =>
    obtain ⟨call, s, call', hp, hst, rfl⟩ := Program.next_act hs
    obtain ⟨hip, hstep⟩ := acquireStep_cases (i := i) hst
    have hm := World.count_set hp s call' (Acquire.inUse ip)
    rw [Acquire.inUse, Acquire.inUse, hip] at hm
    apply hstep.inflight ip (hw ip) _ hm
    rintro rfl hu
    apply World.count_pos hp
    rw [Acquire.inUse, hu, beq_self_eq_true, Bool.and_self]

theorem AcquirePc.over_spec {pc : AcquirePc} (h : pc.over = true) :
    pc.holdsGlobal = false ∧ pc.holdsIP = false ∧ pc.inUse = false := by
  cases pc with
  | failed | released => exact ⟨rfl, rfl, rfl⟩
  | findSlot | takeIP | takeGlobal | returnIP | reject | accept | held | releaseGlobal | releaseIP
    | finish => cases h

theorem AcquirePc.rejected_of_not_inProgress {pc : AcquirePc} (h : pc.inProgress = false) :
    pc.rejected = !pc.accepted := by
  cases pc with
  | failed | held | releaseGlobal | releaseIP | finish | released => rfl
  | findSlot | takeIP | takeGlobal | returnIP | reject | accept => cases h

theorem count_outcomes {calls : List Acquire} (h : ∀ call ∈ calls, call.pc.inProgress = false) :
    calls.countP (fun call => call.pc.accepted) + calls.countP (fun call => call.pc.rejected) =
      calls.length := by
  rw [List.length_eq_countP_add_countP fun call : Acquire => call.pc.accepted]
  congr 1
  apply List.countP_congr
  intro call hcall
  rw [AcquirePc.rejected_of_not_inProgress (h call hcall)]
  simp

theorem global_eq_count (h₀ : (judgeScheduler limits).init w₀)
    (hr : (judgeScheduler limits).run w₀ es = some w) :
    w.shared.global = w.count Acquire.holdsGlobal := by
  have htotal := globalTokens_accounts.total h₀ hr
  simp only [h₀.1, newScheduler] at htotal
  omega

theorem slotLen_eq_count (h₀ : (judgeScheduler limits).init w₀)
    (hr : (judgeScheduler limits).run w₀ es = some w) (ip : String) :
    w.shared.slotLen ip = w.count (Acquire.holdsIP ip) := by
  have htotal := (ipTokens_accounts ip).total h₀ hr
  have hnew : (newScheduler limits).slotLen ip = 0 := rfl
  simp only [h₀.1, hnew] at htotal
  omega

theorem count_holderFrom_le (w : World Scheduler Acquire) (ip : String) :
    w.count (Acquire.holderFrom ip) ≤ w.count (Acquire.holdsIP ip) := by
  apply World.count_mono
  rintro ⟨ip', pc⟩ hc
  obtain ⟨hip, hpc⟩ := Bool.and_eq_true_iff.1 hc
  apply Bool.and_eq_true_iff.2
  refine ⟨hip, ?_⟩
  change pc.holdsGlobal = true at hpc
  cases pc <;> first | rfl | cases hpc

/-- A call that has failed has taken what it has given back. -/
theorem failed_contributes_nothing (h₀ : (judgeScheduler limits).init w₀)
    (hr : (judgeScheduler limits).run w₀ es = some w)
    (hi : w.threads[i]? = some ⟨ip, .failed err⟩) :
    acquireProgram.contribution (fun s => s.global) i w₀ es = 0 ∧
      ∀ ip', acquireProgram.contribution (fun s => s.slotLen ip') i w₀ es = 0 := by
  have hstart (holds : Acquire → Bool) : w₀.share holds i = 0 := by
    rw [World.share, h₀.2]
    rfl
  refine ⟨?_, fun ip' => ?_⟩
  · rw [globalTokens_accounts.contribution hr, World.share_of_some hi, hstart]
    rfl
  · rw [(ipTokens_accounts ip').contribution hr, World.share_of_some hi, hstart]
    simp [Acquire.holdsIP]

theorem returnIP_enabled (h₀ : (judgeScheduler limits).init w₀)
    (hr : (judgeScheduler limits).run w₀ es = some w)
    (hi : w.threads[i]? = some ⟨ip, .returnIP err⟩) :
    ((judgeScheduler limits).step w (.act i .proceed)).isSome = true := by
  have hpos : 0 < w.shared.slotLen ip := by
    rw [slotLen_eq_count h₀ hr ip]
    exact World.count_pos hi (by simp [Acquire.holdsIP])
  obtain ⟨s, hs⟩ := Option.isSome_iff_exists.1 (w.shared.receiveIP_isSome hpos)
  simp [judgeScheduler, Program.machine, Program.next, acquireProgram, hi, acquireStep, hs]

/-- Once every call is over nothing is left in the scheduler. -/
theorem empty_of_over (h₀ : (judgeScheduler limits).init w₀)
    (hr : (judgeScheduler limits).run w₀ es = some w)
    (hover : ∀ call ∈ w.threads, call.pc.over = true) :
    w.shared.global = 0 ∧ ∀ ip, w.shared.slotLen ip = 0 ∧ w.shared.inflightByIP ip = none := by
  have hinflight := (inflight_invariant limits).run
    (fun ip => by rw [h₀.1, World.count, h₀.2]; rfl) hr
  refine ⟨?_, fun ip => ⟨?_, ?_⟩⟩
  · rw [global_eq_count h₀ hr]
    exact World.count_eq_zero fun call hc => (AcquirePc.over_spec (hover call hc)).1
  · rw [slotLen_eq_count h₀ hr ip]
    apply World.count_eq_zero
    intro call hc
    rw [Acquire.holdsIP, (AcquirePc.over_spec (hover call hc)).2.1, Bool.and_false]
  · rw [hinflight ip, World.count_eq_zero]
    · rfl
    · intro call hc
      rw [Acquire.inUse, (AcquirePc.over_spec (hover call hc)).2.2, Bool.and_false]

/-- In every reachable state the callers that hold a slot are within both limits, a call that
returned an error left the channels as they were, a call that gives up after taking its per-IP
token can give it back at once, nothing is left in the scheduler once every call is over, and with
no `Acquire` in progress each call made was counted as accepted or as rejected. -/
theorem scheduler_safe (h₀ : (judgeScheduler limits).init w₀)
    (hr : (judgeScheduler limits).run w₀ es = some w) :
    (w.count Acquire.holdsGlobal ≤ limits.globalMax ∧
        ∀ ip, w.count (Acquire.holderFrom ip) ≤ limits.perIPMax) ∧
      (∀ i ip err, w.threads[i]? = some ⟨ip, .failed err⟩ →
        acquireProgram.contribution (fun s => s.global) i w₀ es = 0 ∧
          ∀ ip', acquireProgram.contribution (fun s => s.slotLen ip') i w₀ es = 0) ∧
      (∀ i ip err, w.threads[i]? = some ⟨ip, .returnIP err⟩ →
        ((judgeScheduler limits).step w (.act i .proceed)).isSome = true) ∧
      ((∀ call ∈ w.threads, call.pc.over = true) →
        w.shared.global = 0 ∧ ∀ ip, w.shared.slotLen ip = 0 ∧ w.shared.inflightByIP ip = none) ∧
      ((∀ call ∈ w.threads, call.pc.inProgress = false) →
        w.shared.totalAccepted + w.shared.totalRejected = w.threads.length) := by
  have hcap : w.shared.Capped limits :=
    (capped_invariant limits).run
      (h₀.1 ▸ ⟨rfl, Nat.zero_le _, fun _ => Nat.zero_le _⟩) hr
  refine ⟨⟨?_, ?_⟩, fun i ip err hi => failed_contributes_nothing h₀ hr hi,
    fun i ip err hi => returnIP_enabled h₀ hr hi, empty_of_over h₀ hr, ?_⟩
  · rw [← global_eq_count h₀ hr]
    exact hcap.2.1
  · intro ip
    exact Nat.le_trans (count_holderFrom_le w ip) (slotLen_eq_count h₀ hr ip ▸ hcap.2.2 ip)
  · intro hdone
    have ha := totalAccepted_accounts.total h₀ hr
    have hj := totalRejected_accounts.total h₀ hr
    have hsum := count_outcomes hdone
    simp only [h₀.1, newScheduler, World.count] at ha hj
    omega

def idleScheduler : World Scheduler Acquire := ⟨newScheduler ⟨1, 1⟩, []⟩

/-- A call takes the only slot, and the deadline of another one passes while it waits for it. -/
def contendedCalls : List (Event String Empty AcquireEvent) :=
  [.spawn "10.0.0.1", .act 0 .proceed, .act 0 .proceed, .act 0 .proceed, .act 0 .proceed,
    .spawn "10.0.0.2", .act 1 .proceed, .act 1 .proceed, .act 1 .deadline, .act 1 .proceed,
    .act 1 .proceed]

theorem contendedCalls_run :
    ∃ w, (judgeScheduler ⟨1, 1⟩).run idleScheduler contendedCalls = some w ∧
      w.threads[1]? = some ⟨"10.0.0.2", .failed .errJudgeBusy⟩ :=
  ⟨_, rfl, rfl⟩

theorem scheduler_safe_contended :
    ∃ w, (judgeScheduler ⟨1, 1⟩).run idleScheduler contendedCalls = some w ∧
      w.count Acquire.holdsGlobal ≤ 1 ∧
        acquireProgram.contribution (fun s => s.global) 1 idleScheduler contendedCalls = 0 := by
  obtain ⟨w, hw, hi⟩ := contendedCalls_run
  have h₀ : (judgeScheduler ⟨1, 1⟩).init idleScheduler := ⟨rfl, rfl⟩
  obtain ⟨⟨hglobal, _⟩, herr, _⟩ := scheduler_safe h₀ hw
  exact ⟨w, hw, hglobal, (herr 1 _ _ hi).1⟩

end Leetrank
