import Leetrank.Judge.SchedulerSafety
import Mathlib.Data.Set.Card

namespace Leetrank
set_option autoImplicit true

open EventMachine Threads

structure SchedulerSnapshot where
  globalMax : Nat
  perIPMax : Nat
  inUse : Int
  totalAccepted : Int
  totalRejected : Int
  activeIPs : Nat

/-- The entries of `inflightByIP` are counted over the addresses that have called. -/
def snapshot (w : World Scheduler Acquire) : SchedulerSnapshot where
  globalMax := w.shared.cfg.globalMax
  perIPMax := w.shared.cfg.perIPMax
  inUse := w.shared.currentInUse
  totalAccepted := w.shared.totalAccepted
  totalRejected := w.shared.totalRejected
  activeIPs :=
    ((w.threads.map (·.ip)).dedup.filter fun ip => (w.shared.inflightByIP ip).isSome).length

/-- `Acquire` has returned, and its release was not called yet. -/
def Acquire.holding (call : Acquire) : Bool :=
  match call.pc with
  | .held => true
  | .findSlot | .takeIP | .takeGlobal | .returnIP _ | .reject _ | .failed _ | .accept
  | .releaseGlobal | .releaseIP | .finish | .released => false

/-- `Acquire` has its global token and has not counted itself yet. -/
def Acquire.uncounted (call : Acquire) : Bool :=
  match call.pc with
  | .accept => true
  | .findSlot | .takeIP | .takeGlobal | .returnIP _ | .reject _ | .failed _ | .held
  | .releaseGlobal | .releaseIP | .finish | .released => false

/-- A release has given its global token back and is still counted. -/
def Acquire.stillCounted (call : Acquire) : Bool :=
  match call.pc with
  | .releaseIP | .finish => true
  | .findSlot | .takeIP | .takeGlobal | .returnIP _ | .reject _ | .failed _ | .accept | .held
  | .releaseGlobal | .released => false

def Acquire.counted (call : Acquire) : Bool := call.pc.inUse

/-- The figure that a snapshot reports is within the limit, and covers the callers that hold. -/
def StatsConsistent (w : World Scheduler Acquire) : Prop :=
  w.count Acquire.holding ≤ (snapshot w).inUse ∧ (snapshot w).inUse ≤ (snapshot w).globalMax

/-- Whenever a call counts itself, the releases that are still counted without a global token are
fewer than the free global tokens and the calls that have one and are not counted. -/
def CountsInRoom (w : World Scheduler Acquire) (e : Event String Empty AcquireEvent)
    (_ : World Scheduler Acquire) : Prop :=
  ∀ i ip, e = .act i .proceed → w.threads[i]? = some ⟨ip, .accept⟩ →
    w.count Acquire.stillCounted <
      w.shared.cfg.globalMax - w.shared.global + w.count Acquire.uncounted

theorem AcquireStep.currentInUse {s s' : Scheduler} (h : AcquireStep s ip pc s' pc') :
    s'.currentInUse - s.currentInUse = pc'.inUse.toInt - pc.inUse.toInt := by
  have hsame (hs : s'.currentInUse = s.currentInUse) (hpc : pc'.inUse = pc.inUse) :
      s'.currentInUse - s.currentInUse = pc'.inUse.toInt - pc.inUse.toInt := by
    rw [hs, hpc, Int.sub_self, Int.sub_self]
  cases h with
  | findSlot => exact hsame (by rw [Scheduler.ipSlot]; split <;> rfl) rfl
  | takeIP hs =>
    obtain ⟨_, rfl⟩ := Scheduler.sendIP_eq_some hs
    exact hsame rfl rfl
  | takeGlobal hs =>
    obtain ⟨_, rfl⟩ := Scheduler.sendGlobal_eq_some hs
    exact hsame rfl rfl
  | returnIP hs | releaseIP hs =>
    obtain ⟨_, _, rfl⟩ := Scheduler.receiveIP_eq_some hs
    exact hsame rfl rfl
  | releaseGlobal hs =>
    obtain ⟨_, _, rfl⟩ := Scheduler.receiveGlobal_eq_some hs
    exact hsame rfl rfl
  | giveUp | abort | reject | release | again => exact hsame rfl rfl
  | accept =>
    change s.currentInUse + 1 - s.currentInUse = 1 - 0
    omega
  | finish =>
    change s.currentInUse - 1 - s.currentInUse = 0 - 1
    omega

theorem currentInUse_accounts :
    acquireProgram.Accounts (fun s => s.currentInUse) Acquire.counted where
  start := fun _ _ => rfl
  ambient := fun _ x => nomatch x
  step := fun _ i _ _ _ _ h => (acquireStep_cases (i := i) h).2.currentInUse

/-- What the counter and the channel stand for. -/
structure StatsKept (limits : ConcurrencyConfig) (w : World Scheduler Acquire) : Prop where
  inUse : w.shared.currentInUse = w.count Acquire.counted
  global : w.shared.global = w.count Acquire.holdsGlobal
  capped : w.shared.Capped limits

theorem statsKept_invariant (limits : ConcurrencyConfig) :
    (judgeScheduler limits).Invariant (StatsKept limits) := by
  intro w e w' hw hs _
  have hi := currentInUse_accounts.invariant (fun s => s = newScheduler limits) 0 w e w'
    (hw.inUse.trans (Int.zero_add _).symm) hs trivial
  have hg := globalTokens_accounts.invariant (fun s => s = newScheduler limits) 0 w e w'
    ((congrArg Int.ofNat hw.global).trans (Int.zero_add _).symm) hs trivial
  refine ⟨hi.trans (Int.zero_add _), ?_, capped_invariant limits w e w' hw.capped hs trivial⟩
  exact Int.ofNat_inj.1 (hg.trans (Int.zero_add _))

theorem statsKept_init (h₀ : (judgeScheduler limits).init w) : StatsKept limits w := by
  obtain ⟨hs, ht⟩ := h₀
  constructor
  · rw [hs, World.count, ht]
    rfl
  · rw [hs, World.count, ht]
    rfl
  · rw [hs]
    exact ⟨rfl, Nat.zero_le _, fun _ => Nat.zero_le _⟩

/-- The calls that are counted differ from those with a global token by the calls on their way. -/
theorem count_counted (w : World Scheduler Acquire) :
    w.count Acquire.counted + w.count Acquire.uncounted =
      w.count Acquire.holdsGlobal + w.count Acquire.stillCounted := by
  rw [World.count, World.count, World.count, World.count]
  induction w.threads with
  | nil => rfl
  | cons call calls ih =>
    obtain ⟨ip, pc⟩ := call
    simp only [List.countP_cons]
    cases pc <;>
      simp [Acquire.counted, Acquire.uncounted, Acquire.holdsGlobal, Acquire.stillCounted] <;>
      omega

theorem count_holding_le (w : World Scheduler Acquire) :
    w.count Acquire.holding ≤ w.count Acquire.counted := by
  apply World.count_mono
  rintro ⟨ip, pc⟩ h
  cases pc with
  | held => rfl
  | findSlot | takeIP | takeGlobal | returnIP | reject | failed | accept | releaseGlobal
    | releaseIP | finish | released => cases h

theorem StatsKept.consistent_iff (h : StatsKept limits w) :
    StatsConsistent w ↔ w.count Acquire.counted ≤ limits.globalMax := by
  have hle := count_holding_le w
  rw [StatsConsistent, snapshot, h.inUse, h.capped.1]
  constructor
  · exact fun hc => Int.ofNat_le.1 hc.2
  · exact fun hc => ⟨Int.ofNat_le.2 hle, Int.ofNat_le.2 hc⟩

/-- Only a call that counts itself raises the figure. -/
theorem AcquireStep.inUse_of_inUse (h : AcquireStep s ip pc s' pc') (hpc : pc ≠ .accept)
    (hi : pc'.inUse = true) : pc.inUse = true := by
  cases h with
  | accept => exact absurd rfl hpc
  | release | releaseGlobal | releaseIP => rfl
  | findSlot | takeIP | giveUp | takeGlobal | abort | returnIP | reject | finish | again => cases hi

theorem AcquireStep.counted_le (h : AcquireStep s ip pc s' pc') (hpc : pc ≠ .accept) :
    pc'.inUse.toNat ≤ pc.inUse.toNat := by
  cases hi : pc'.inUse with
  | false => exact Nat.zero_le _
  | true => exact Nat.le_of_eq (congrArg Bool.toNat (h.inUse_of_inUse hpc hi).symm)

theorem StatsKept.consistent_next (h : StatsKept limits w) (hc : StatsConsistent w)
    (hs : (judgeScheduler limits).step w e = some w') :
    StatsConsistent w' ↔ CountsInRoom w e w' := by
  have h' := statsKept_invariant limits w e w' h hs trivial
  rw [h.consistent_iff] at hc
  rw [h'.consistent_iff]
  cases e with
  | spawn ip =>
    cases hs
    rw [World.count_append]
    exact iff_of_true hc fun _ _ he _ => nomatch he
  | ambient x => exact nomatch x
  | act i e =>
    obtain ⟨⟨ip, pc⟩, s, ⟨ip', pc'⟩, hp, hst, rfl⟩ := Program.next_act hs
    obtain ⟨hip, hstep⟩ := acquireStep_cases (i := i) hst
    have hcount := World.count_set hp s ⟨ip', pc'⟩ Acquire.counted
    by_cases hpc : pc = .accept
    · subst hpc
      cases e <;> cases hst
      change _ + 0 = w.count Acquire.counted + 1 at hcount
      have hbalance := count_counted w
      have hglobal := h.capped.2.1
      rw [h.global] at hglobal
      constructor
      · intro hle j ip' he hj
        rw [h.capped.1, h.global]
        omega
      · intro hroom
        have hlt := hroom i ip rfl hp
        rw [h.capped.1, h.global] at hlt
        omega
    · have hle : (Acquire.counted ⟨ip', pc'⟩).toNat ≤ (Acquire.counted ⟨ip, pc⟩).toNat :=
        hstep.counted_le hpc
      refine iff_of_true (by omega) ?_
      intro j jp he hj
      cases he
      rw [hp] at hj
      cases hj
      exact absurd rfl hpc

/-- The snapshots of a run are consistent exactly if every call is counted in room. -/
theorem snapshot_consistent_iff (h₀ : (judgeScheduler limits).init w₀) :
    StatsConsistent w₀ ∧ (judgeScheduler limits).Always (fun _ _ w => StatsConsistent w) w₀ es ↔
      (judgeScheduler limits).Always CountsInRoom w₀ es := by
  have hkept := statsKept_init h₀
  have hc : StatsConsistent w₀ := by
    rw [hkept.consistent_iff, World.count, h₀.2]
    exact Nat.zero_le _
  rw [and_iff_right hc]
  apply (statsKept_invariant limits).always_state_iff hkept hc
  exact fun w e w' hw hcw hs => hw.consistent_next hcw hs

/-- One call holds the only token for a while, and gives everything back. -/
def oneCall : List (Event String Empty AcquireEvent) :=
  [.spawn "10.0.0.1", .act 0 .proceed, .act 0 .proceed, .act 0 .proceed, .act 0 .proceed,
    .act 0 .release, .act 0 .proceed, .act 0 .proceed, .act 0 .proceed]

theorem snapshot_consistent_oneCall :
    StatsConsistent idleScheduler ∧
        (judgeScheduler ⟨1, 1⟩).Always (fun _ _ w => StatsConsistent w) idleScheduler oneCall ↔
      (judgeScheduler ⟨1, 1⟩).Always CountsInRoom idleScheduler oneCall :=
  snapshot_consistent_iff ⟨rfl, rfl⟩

/-- The release of the first call has freed its global token but is still counted, while the second
call takes the token and counts itself. -/
def overcountedCalls : List (Event String Empty AcquireEvent) :=
  [.spawn "10.0.0.1", .act 0 .proceed, .act 0 .proceed, .act 0 .proceed, .act 0 .proceed,
    .act 0 .release, .act 0 .proceed,
    .spawn "10.0.0.2", .act 1 .proceed, .act 1 .proceed, .act 1 .proceed, .act 1 .proceed]

theorem overcountedCalls_run :
    ∃ w, (judgeScheduler ⟨1, 1⟩).run idleScheduler overcountedCalls = some w ∧
      (snapshot w).inUse = 2 ∧ (snapshot w).globalMax = 1 :=
  ⟨_, rfl, rfl, rfl⟩

/-- A snapshot reports two slots in use of one. -/
theorem snapshot_exceeds :
    ¬ ∀ (limits : ConcurrencyConfig) (w₀ w : World Scheduler Acquire)
      (es : List (Event String Empty AcquireEvent)), (judgeScheduler limits).init w₀ →
      (judgeScheduler limits).run w₀ es = some w → StatsConsistent w := by
  intro h
  obtain ⟨w, hw, hin, hmax⟩ := overcountedCalls_run
  have hle := (h ⟨1, 1⟩ idleScheduler w overcountedCalls ⟨rfl, rfl⟩ hw).2
  rw [hin, hmax] at hle
  exact absurd hle (by decide)

/-- In every state the figure covers the callers that hold, and is above the limit by no more than
the releases that are still counted. -/
theorem inUse_bounds (h₀ : (judgeScheduler limits).init w₀)
    (hr : (judgeScheduler limits).run w₀ es = some w) :
    w.count Acquire.holding ≤ (snapshot w).inUse ∧
      (snapshot w).inUse ≤ (snapshot w).globalMax + w.count Acquire.stillCounted := by
  have h := (statsKept_invariant limits).run (statsKept_init h₀) hr
  have hbalance := count_counted w
  have hglobal := h.capped.2.1
  have hholding := count_holding_le w
  rw [h.global] at hglobal
  have hin : (snapshot w).inUse = w.count Acquire.counted := h.inUse
  have hmax : (snapshot w).globalMax = limits.globalMax :=
    congrArg ConcurrencyConfig.globalMax h.capped.1
  rw [hin, hmax]
  constructor <;> omega

theorem inflight_isSome (h₀ : (judgeScheduler limits).init w₀)
    (hr : (judgeScheduler limits).run w₀ es = some w)
    (hip : (w.shared.inflightByIP ip).isSome = true) : ∃ call ∈ w.threads, call.ip = ip := by
  have hinflight := (inflight_invariant limits).run
    (fun ip => by rw [h₀.1, World.count, h₀.2]; rfl) hr
  rw [hinflight ip, tally] at hip
  split at hip
  next => cases hip
  next hpos =>
    obtain ⟨call, hcall, hu⟩ := List.countP_pos_iff.1 (Nat.pos_of_ne_zero hpos)
    exact ⟨call, hcall, beq_iff_eq.1 (Bool.and_eq_true_iff.1 hu).1⟩

/-- A snapshot counts every entry of `inflightByIP`. -/
theorem snapshot_activeIPs (h₀ : (judgeScheduler limits).init w₀)
    (hr : (judgeScheduler limits).run w₀ es = some w) :
    (snapshot w).activeIPs = {ip | (w.shared.inflightByIP ip).isSome = true}.ncard := by
  have hset : {ip | (w.shared.inflightByIP ip).isSome = true} =
      (((w.threads.map (·.ip)).dedup.filter fun ip => (w.shared.inflightByIP ip).isSome).toFinset :
        Set String) := by
    ext ip
    simp only [Set.mem_ofPred_eq, List.coe_toFinset, List.mem_filter, List.mem_dedup]
    exact ⟨fun hip => ⟨List.mem_map.2 (inflight_isSome h₀ hr hip), hip⟩, fun h => h.2⟩
  rw [hset, Set.ncard_coe_finset, List.toFinset_card_of_nodup ((List.nodup_dedup _).filter _)]
  rfl

end Leetrank
