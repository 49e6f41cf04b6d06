import Leetrank.Library.Threads
import Mathlib.Logic.Function.Basic

namespace Leetrank
set_option autoImplicit true

open EventMachine Threads

structure ConcurrencyConfig where
  globalMax : Nat
  perIPMax : Nat

def defaultConcurrency : ConcurrencyConfig := ⟨16, 4⟩

inductive AcquireError where
  | errJudgeBusy
  | ctxErr (message : String)

def AcquireError.text : AcquireError → String
  | .errJudgeBusy => "judge is busy; please retry shortly"
  | .ctxErr message => message

/-- The scheduler, with a channel of tokens given by the number of tokens in its buffer. -/
structure Scheduler where
  cfg : ConcurrencyConfig
  global : Nat
  perIP : String → Option Nat
  inflightByIP : String → Option Int
  totalAccepted : Int
  totalRejected : Int
  currentInUse : Int

def newScheduler (cfg : ConcurrencyConfig) : Scheduler where
  cfg := cfg
  global := 0
  perIP := fun _ => none
  inflightByIP := fun _ => none
  totalAccepted := 0
  totalRejected := 0
  currentInUse := 0

def Scheduler.ipSlot (s : Scheduler) (ip : String) : Scheduler :=
  match s.perIP ip with
  | some _ => s
  | none => { s with perIP := Function.update s.perIP ip (some 0) }

/-- A send blocks while the buffer is full, and a receive while it is empty. -/
def Scheduler.sendIP (s : Scheduler) (ip : String) : Option Scheduler :=
  match s.perIP ip with
  | some n =>
    if n < s.cfg.perIPMax then
      some { s with perIP := Function.update s.perIP ip (some (n + 1)) }
    else none
  | none => none

def Scheduler.receiveIP (s : Scheduler) (ip : String) : Option Scheduler :=
  match s.perIP ip with
  | some (n + 1) => some { s with perIP := Function.update s.perIP ip (some n) }
  | some 0 | none => none

def Scheduler.sendGlobal (s : Scheduler) : Option Scheduler :=
  if s.global < s.cfg.globalMax then some { s with global := s.global + 1 } else none

def Scheduler.receiveGlobal (s : Scheduler) : Option Scheduler :=
  match s.global with
  | n + 1 => some { s with global := n }
  | 0 => none

def Scheduler.recordAccept (s : Scheduler) (ip : String) : Scheduler :=
  { s with
    inflightByIP := Function.update s.inflightByIP ip (some ((s.inflightByIP ip).getD 0 + 1))
    totalAccepted := s.totalAccepted + 1
    currentInUse := s.currentInUse + 1 }

def Scheduler.recordReject (s : Scheduler) : Scheduler :=
  { s with totalRejected := s.totalRejected + 1 }

def Scheduler.recordRelease (s : Scheduler) (ip : String) : Scheduler :=
  let n := (s.inflightByIP ip).getD 0 - 1
  { s with
    inflightByIP := Function.update s.inflightByIP ip (if n ≤ 0 then none else some n)
    currentInUse := s.currentInUse - 1 }

/-- Where a call of `Acquire`, and then of the release that it returned, is in its code. -/
inductive AcquirePc where
  | findSlot
  | takeIP
  | takeGlobal
  | returnIP (err : AcquireError)
  | reject (err : AcquireError)
  | failed (err : AcquireError)
  | accept
  | held
  | releaseGlobal
  | releaseIP
  | finish
  | released

structure Acquire where
  ip : String
  pc : AcquirePc

inductive AcquireEvent where
  | proceed
  | deadline
  | done (message : String)
  | release

/-- A critical section of the mutex is one step. A call of a release that was called before does
nothing. -/
def acquireStep (s : Scheduler) (_ : Nat) (call : Acquire) (e : AcquireEvent) :
    Option (Scheduler × Acquire) :=
  match call.pc, e with
  | .findSlot, .proceed => some (s.ipSlot call.ip, ⟨call.ip, .takeIP⟩)
  | .takeIP, .proceed => (s.sendIP call.ip).map fun s => (s, ⟨call.ip, .takeGlobal⟩)
  | .takeIP, .deadline => some (s, ⟨call.ip, .reject .errJudgeBusy⟩)
  | .takeIP, .done message => some (s, ⟨call.ip, .reject (.ctxErr message)⟩)
  | .takeGlobal, .proceed => s.sendGlobal.map fun s => (s, ⟨call.ip, .accept⟩)
  | .takeGlobal, .deadline => some (s, ⟨call.ip, .returnIP .errJudgeBusy⟩)
  | .takeGlobal, .done message => some (s, ⟨call.ip, .returnIP (.ctxErr message)⟩)
  | .returnIP err, .proceed => (s.receiveIP call.ip).map fun s => (s, ⟨call.ip, .reject err⟩)
  | .reject err, .proceed => some (s.recordReject, ⟨call.ip, .failed err⟩)
  | .accept, .proceed => some (s.recordAccept call.ip, ⟨call.ip, .held⟩)
  | .held, .release => some (s, ⟨call.ip, .releaseGlobal⟩)
  | .releaseGlobal, .proceed => s.receiveGlobal.map fun s => (s, ⟨call.ip, .releaseIP⟩)
  | .releaseIP, .proceed => (s.receiveIP call.ip).map fun s => (s, ⟨call.ip, .finish⟩)
  | .finish, .proceed => some (s.recordRelease call.ip, ⟨call.ip, .released⟩)
  | .released, .release => some (s, call)
  | _, _ => none

def acquireProgram : Program Scheduler Acquire String Empty AcquireEvent where
  start := fun _ ip => ⟨ip, .findSlot⟩
  ambient := fun s _ => s
  step := acquireStep

/-- Any number of calls from any addresses, over a scheduler that was just made. -/
def judgeScheduler (cfg : ConcurrencyConfig) :
    Machine (World Scheduler Acquire) (Event String Empty AcquireEvent) :=
  acquireProgram.machine fun s => s = newScheduler cfg

/-- The steps of a call, without the events that choose between them. -/
inductive AcquireStep (s : Scheduler) (ip : String) : AcquirePc → Scheduler → AcquirePc → Prop where
  | findSlot : AcquireStep s ip .findSlot (s.ipSlot ip) .takeIP
  | takeIP (h : s.sendIP ip = some s') : AcquireStep s ip .takeIP s' .takeGlobal
  | giveUp (err : AcquireError) : AcquireStep s ip .takeIP s (.reject err)
  | takeGlobal (h : s.sendGlobal = some s') : AcquireStep s ip .takeGlobal s' .accept
  | abort (err : AcquireError) : AcquireStep s ip .takeGlobal s (.returnIP err)
  | returnIP (h : s.receiveIP ip = some s') : AcquireStep s ip (.returnIP err) s' (.reject err)
  | reject : AcquireStep s ip (.reject err) s.recordReject (.failed err)
  | accept : AcquireStep s ip .accept (s.recordAccept ip) .held
  | release : AcquireStep s ip .held s .releaseGlobal
  | releaseGlobal (h : s.receiveGlobal = some s') : AcquireStep s ip .releaseGlobal s' .releaseIP
  | releaseIP (h : s.receiveIP ip = some s') : AcquireStep s ip .releaseIP s' .finish
  | finish : AcquireStep s ip .finish (s.recordRelease ip) .released
  | again : AcquireStep s ip .released s .released

theorem acquireStep_cases (h : acquireStep s i call e = some (s', call')) :
    call'.ip = call.ip ∧ AcquireStep s call.ip call.pc s' call'.pc := by
  obtain ⟨ip, pc⟩ := call
  cases pc with
  | findSlot =>
    cases e <;> cases h
    exact ⟨rfl, .findSlot⟩
  | takeIP =>
    cases e with
    | proceed =>
      obtain ⟨t, ht, h⟩ := Option.map_eq_some_iff.1 h
      cases h
      exact ⟨rfl, .takeIP ht⟩
    | deadline | done =>
      cases h
      exact ⟨rfl, .giveUp _⟩
    | release => cases h
  | takeGlobal =>
    cases e with
    | proceed =>
      obtain ⟨t, ht, h⟩ := Option.map_eq_some_iff.1 h
      cases h
      exact ⟨rfl, .takeGlobal ht⟩
    | deadline | done =>
      cases h
      exact ⟨rfl, .abort _⟩
    | release => cases h
  | returnIP err =>
    cases e with
    | proceed =>
      obtain ⟨t, ht, h⟩ := Option.map_eq_some_iff.1 h
      cases h
      exact ⟨rfl, .returnIP ht⟩
    | deadline | done | release => cases h
  | reject err =>
    cases e <;> cases h
    exact ⟨rfl, .reject⟩
  | failed err => cases e <;> cases h
  | accept =>
    cases e <;> cases h
    exact ⟨rfl, .accept⟩
  | held =>
    cases e <;> cases h
    exact ⟨rfl, .release⟩
  | releaseGlobal =>
    cases e with
    | proceed =>
      obtain ⟨t, ht, h⟩ := Option.map_eq_some_iff.1 h
      cases h
      exact ⟨rfl, .releaseGlobal ht⟩
    | deadline | done | release => cases h
  | releaseIP =>
    cases e with
    | proceed =>
      obtain ⟨t, ht, h⟩ := Option.map_eq_some_iff.1 h
      cases h
      exact ⟨rfl, .releaseIP ht⟩
    | deadline | done | release => cases h
  | finish =>
    cases e <;> cases h
    exact ⟨rfl, .finish⟩
  | released =>
    cases e <;> cases h
    exact ⟨rfl, .again⟩

def Scheduler.slotLen (s : Scheduler) (ip : String) : Nat := (s.perIP ip).getD 0

theorem Scheduler.slotLen_update (s : Scheduler) (ip ip' : String) (n : Option Nat) :
    Scheduler.slotLen { s with perIP := Function.update s.perIP ip n } ip' =
      if ip' = ip then n.getD 0 else s.slotLen ip' := by
  simp only [Scheduler.slotLen, Function.update_apply]
  split <;> rfl

theorem Scheduler.slotLen_ipSlot (s : Scheduler) (ip ip' : String) :
    (s.ipSlot ip).slotLen ip' = s.slotLen ip' := by
  rw [Scheduler.ipSlot]
  split
  next => rfl
  next h =>
    rw [Scheduler.slotLen_update]
    split
    next hip =>
      rw [hip, Scheduler.slotLen, h]
      rfl
    next => rfl

theorem Scheduler.sendIP_eq_some {s s' : Scheduler} (h : s.sendIP ip = some s') :
    s.slotLen ip < s.cfg.perIPMax ∧
      s' = { s with perIP := Function.update s.perIP ip (some (s.slotLen ip + 1)) } := by
  rw [Scheduler.sendIP] at h
  split at h
  next n hn =>
    split at h
    next hlt =>
      cases h
      rw [Scheduler.slotLen, hn]
      exact ⟨hlt, rfl⟩
    next => cases h
  next => cases h

theorem Scheduler.receiveIP_eq_some {s s' : Scheduler} (h : s.receiveIP ip = some s') :
    ∃ n, s.slotLen ip = n + 1 ∧
      s' = { s with perIP := Function.update s.perIP ip (some n) } := by
  rw [Scheduler.receiveIP] at h
  split at h
  next n hn =>
    cases h
    rw [Scheduler.slotLen, hn]
    exact ⟨n, rfl, rfl⟩
  next => cases h
  next => cases h

/-- A receive does not block as long as the channel holds a token. -/
theorem Scheduler.receiveIP_isSome (s : Scheduler) (h : 0 < s.slotLen ip) :
    (s.receiveIP ip).isSome = true := by
  rw [Scheduler.slotLen] at h
  rw [Scheduler.receiveIP]
  split
  next => rfl
  next hn => simp [hn] at h
  next hn => simp [hn] at h

theorem Scheduler.sendGlobal_eq_some {s s' : Scheduler} (h : s.sendGlobal = some s') :
    s.global < s.cfg.globalMax ∧ s' = { s with global := s.global + 1 } := by
  rw [Scheduler.sendGlobal] at h
  split at h
  next hlt =>
    cases h
    exact ⟨hlt, rfl⟩
  next => cases h

theorem Scheduler.receiveGlobal_eq_some {s s' : Scheduler} (h : s.receiveGlobal = some s') :
    ∃ n, s.global = n + 1 ∧ s' = { s with global := n } := by
  rw [Scheduler.receiveGlobal] at h
  split at h
  next n hn =>
    cases h
    exact ⟨n, hn, rfl⟩
  next => cases h

end Leetrank
