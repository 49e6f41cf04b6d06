import Leetrank.Library.Machine
import Leetrank.Library.SlidingWindow
import Leetrank.Web.RateLimit
import Mathlib.Algebra.Order.Group.Int

namespace Leetrank
set_option autoImplicit true

open EventMachine SlidingWindow

/-- The sweep of the timer, which drops the windows that are over. -/
def Buckets.gc (buckets : Buckets) (now : Nat) : Buckets :=
  fun key => (buckets key).filter fun w => ¬w.resetAt < now

inductive MemoryEvent where
  | check (key : String) (max windowMs : Nat)
  | gc

/-- The limiter of one process, with the requests that it has admitted. -/
structure MemoryLimiter where
  clock : Nat
  buckets : Buckets
  admitted : List (String × Nat)

/-- The times at which requests of a key have been admitted. -/
def admittedTimes (admitted : List (String × Nat)) (key : String) : List Int :=
  (admitted.filter fun x => x.1 = key).map fun x => (x.2 : Int)

def MemoryLimiter.step (s : MemoryLimiter) (now : Nat) : MemoryEvent → Option MemoryLimiter
  | .check key max windowMs =>
    let (buckets, result) := memoryCheck s.buckets key max windowMs now
    if now < s.clock then none
    else some ⟨now, buckets, if result.allowed then s.admitted ++ [(key, now)] else s.admitted⟩
  | .gc => if now < s.clock then none else some ⟨now, s.buckets.gc now, s.admitted⟩

/-- Events at times that never go back. -/
def memoryMachine : Machine MemoryLimiter (Nat × MemoryEvent) where
  init := fun s => s.buckets = (fun _ => none) ∧ s.admitted = []
  step := fun s e => s.step e.1 e.2

/-- The window that a key has, or had when it was last swept, explains what has been admitted. -/
structure MemoryLimiter.Tracks (s : MemoryLimiter) (key : String) (max windowMs : Nat) :
    Prop where
  window : ∀ w, s.buckets key = some w → ∃ before current,
    Epoch (windowMs : Int) max (w.resetAt - windowMs) before current ∧
      admittedTimes s.admitted key = before ++ current ∧ w.count = current.length ∧
      w.resetAt ≤ s.clock + windowMs
  swept : s.buckets key = none → admittedTimes s.admitted key = [] ∨ ∃ opened before current,
    Epoch (windowMs : Int) max opened before current ∧
      admittedTimes s.admitted key = before ++ current ∧ opened + windowMs < s.clock

/-- The checks of a key all have the same limit. -/
def MemoryEvent.Limits (key : String) (max windowMs : Nat) : MemoryEvent → Prop
  | .check k m w => k = key → m = max ∧ w = windowMs
  | .gc => True

variable {s t : MemoryLimiter} {key : String} {max windowMs now : Nat}
  {admitted : List (String × Nat)}

theorem Buckets.gc_none {buckets : Buckets} (h : buckets key = none) :
    buckets.gc now key = none := by
  rw [Buckets.gc, h, Option.filter_none]

theorem Buckets.gc_over {buckets : Buckets} (h : buckets key = some w) (hover : w.resetAt < now) :
    buckets.gc now key = none := by
  rw [Buckets.gc, h, Option.filter_some, if_neg (by simpa using hover)]

theorem Buckets.gc_open {buckets : Buckets} (h : buckets key = some w) (hopen : ¬w.resetAt < now) :
    buckets.gc now key = some w := by
  rw [Buckets.gc, h, Option.filter_some, if_pos (decide_eq_true hopen)]

theorem admittedTimes_concat_self (admitted : List (String × Nat)) (key : String) (now : Nat) :
    admittedTimes (admitted ++ [(key, now)]) key = admittedTimes admitted key ++ [(now : Int)] := by
  rw [admittedTimes, List.filter_append, List.map_append, ← admittedTimes,
    List.filter_cons, if_pos (decide_eq_true rfl)]
  rfl

theorem admittedTimes_concat_of_ne (h : other ≠ key) (admitted : List (String × Nat)) (now : Nat) :
    admittedTimes (admitted ++ [(other, now)]) key = admittedTimes admitted key := by
  rw [admittedTimes, List.filter_append, List.filter_cons, if_neg (by simpa using h),
    List.filter_nil, List.append_nil, ← admittedTimes]

/-- All that a step can do to a key, and to what has been admitted of it. -/
theorem MemoryLimiter.step_cases (h : s.step now e = some t) (he : e.Limits key max windowMs) :
    s.clock ≤ now ∧ t.clock = now ∧
      (t.buckets key = s.buckets key ∧ admittedTimes t.admitted key = admittedTimes s.admitted key ∨
      (∃ w, s.buckets key = some w ∧ w.resetAt < now ∧ t.buckets key = none ∧
        admittedTimes t.admitted key = admittedTimes s.admitted key) ∨
      ((∀ w, s.buckets key = some w → w.resetAt < now) ∧
        t.buckets key = some ⟨1, now + windowMs⟩ ∧
        admittedTimes t.admitted key = admittedTimes s.admitted key ++ [(now : Int)]) ∨
      ∃ w, s.buckets key = some w ∧ now ≤ w.resetAt ∧ w.count < max ∧
        t.buckets key = some ⟨w.count + 1, w.resetAt⟩ ∧
        admittedTimes t.admitted key = admittedTimes s.admitted key ++ [(now : Int)]) := by
  cases e with
  | gc =>
    rw [MemoryLimiter.step] at h
    split at h
    next => cases h
    next hclock =>
      cases h
      refine ⟨Nat.not_lt.1 hclock, rfl, ?_⟩
      cases hw : s.buckets key with
      | none => exact .inl ⟨Buckets.gc_none hw, rfl⟩
      | some w =>
        by_cases hover : w.resetAt < now
        · exact .inr (.inl ⟨w, rfl, hover, Buckets.gc_over hw hover, rfl⟩)
        · exact .inl ⟨Buckets.gc_open hw hover, rfl⟩
  | check k m W =>
    rw [MemoryLimiter.step] at h
    dsimp only at h
    split at h
    next => cases h
    next hclock =>
      cases h
      refine ⟨Nat.not_lt.1 hclock, rfl, ?_⟩
      by_cases hk : k = key
      · obtain ⟨rfl, rfl⟩ := he hk
        subst hk
        obtain ⟨hover, hw, hallowed⟩ | ⟨w, hw, hopen, ⟨-, hsame, hallowed⟩ |
          ⟨hroom, hw', hallowed⟩⟩ := @memoryCheck_spec s.buckets k m W now
        · refine .inr (.inr (.inl ⟨hover, ?_, ?_⟩))
          · exact (congrFun hw k).trans (Function.update_self ..)
          · rw [hallowed, if_pos rfl, admittedTimes_concat_self]
        · refine .inl ⟨?_, ?_⟩
          · exact congrFun hsame k
          · rw [hallowed, if_neg Bool.false_ne_true]
        · refine .inr (.inr (.inr ⟨w, hw, hopen, hroom, ?_, ?_⟩))
          · exact (congrFun hw' k).trans (Function.update_self ..)
          · rw [hallowed, if_pos rfl, admittedTimes_concat_self]
      · refine .inl ⟨memoryCheck_of_ne (Ne.symm hk), ?_⟩
        split
        · exact admittedTimes_concat_of_ne hk s.admitted now
        · rfl

theorem cast_resetAt (now windowMs : Nat) : ((now + windowMs : Nat) : Int) - windowMs = now := by
  omega

/-- What was counted in the last window, once that is over. -/
theorem MemoryLimiter.Tracks.over (h : s.Tracks key max windowMs) (hclock : s.clock ≤ now)
    (hover : ∀ w, s.buckets key = some w → w.resetAt < now) :
    admittedTimes s.admitted key = [] ∨ ∃ opened before current,
      Epoch (windowMs : Int) max opened before current ∧
        admittedTimes s.admitted key = before ++ current ∧ opened + windowMs < now := by
  cases hw : s.buckets key with
  | none =>
    refine (h.swept hw).imp_right ?_
    rintro ⟨opened, before, current, hepoch, htimes, hswept⟩
    exact ⟨opened, before, current, hepoch, htimes, by omega⟩
  | some w =>
    obtain ⟨before, current, hepoch, htimes, -, -⟩ := h.window w hw
    have hlast := hover w hw
    exact .inr ⟨_, before, current, hepoch, htimes, by omega⟩

/-- A window just opened explains what has been admitted. -/
theorem MemoryLimiter.Tracks.opened (h : s.Tracks key max windowMs) (hmax : 1 ≤ max)
    (hclock : s.clock ≤ now) (hover : ∀ w, s.buckets key = some w → w.resetAt < now) :
    ∃ before, Epoch (windowMs : Int) max (now : Int) before [(now : Int)] ∧
      admittedTimes s.admitted key = before := by
  obtain hnil | ⟨opened, before, current, hepoch, htimes, hlast⟩ := h.over hclock hover
  · exact ⟨[], Epoch.new _ hmax (by omega) _, hnil⟩
  · exact ⟨before ++ current, hepoch.reopen hmax (by omega) hlast, htimes⟩

theorem MemoryLimiter.Tracks.step (h : s.Tracks key max windowMs) (hmax : 1 ≤ max)
    (ht : s.step now e = some t) (he : e.Limits key max windowMs) :
    t.Tracks key max windowMs := by
  obtain ⟨hclock, htclock, ⟨hbucket, htimes⟩ | ⟨w, hw, hover, hbucket, htimes⟩ |
    ⟨hover, hbucket, htimes⟩ | ⟨w, hw, hopen, hroom, hbucket, htimes⟩⟩ :=
      MemoryLimiter.step_cases ht he
  · refine ⟨fun w hw => ?_, fun hnone => ?_⟩
    · rw [hbucket] at hw
      obtain ⟨before, current, hepoch, hadmitted, hcount, hreset⟩ := h.window w hw
      exact ⟨before, current, hepoch, htimes.trans hadmitted, hcount, by omega⟩
    · rw [hbucket] at hnone
      rw [htimes, htclock]
      refine (h.swept hnone).imp_right ?_
      rintro ⟨opened, before, current, hepoch, hadmitted, hlast⟩
      exact ⟨opened, before, current, hepoch, hadmitted, by omega⟩
  · refine ⟨fun w' hw' => (nomatch hbucket.symm.trans hw'), fun _ => ?_⟩
    obtain ⟨before, current, hepoch, hadmitted, -, -⟩ := h.window w hw
    exact .inr ⟨_, before, current, hepoch, htimes.trans hadmitted, by omega⟩
  · refine ⟨fun w' hw' => ?_, fun hnone => (nomatch hbucket.symm.trans hnone)⟩
    cases hbucket.symm.trans hw'
    obtain ⟨before, hepoch, hadmitted⟩ := h.opened hmax hclock hover
    refine ⟨before, [(now : Int)], ?_, by rw [htimes, hadmitted], rfl, ?_⟩
    · rw [cast_resetAt]
      exact hepoch
    · dsimp only
      omega
  · refine ⟨fun w' hw' => ?_, fun hnone => (nomatch hbucket.symm.trans hnone)⟩
    cases hbucket.symm.trans hw'
    obtain ⟨before, current, hepoch, hadmitted, hcount, hreset⟩ := h.window w hw
    refine ⟨before, current ++ [(now : Int)], hepoch.push ?_ ?_ ?_, ?_, ?_, ?_⟩
    · rwa [← hcount]
    · omega
    · omega
    · rw [htimes, hadmitted, List.append_assoc]
    · rw [List.length_append, List.length_singleton, ← hcount]
    · dsimp only
      omega

theorem MemoryLimiter.tracks_of_run (hmax : 1 ≤ max) (hs : memoryMachine.init s)
    (hr : memoryMachine.run s es = some t) (hes : ∀ e ∈ es, e.2.Limits key max windowMs) :
    t.Tracks key max windowMs := by
  have hinit : s.Tracks key max windowMs := by
    refine ⟨fun w hw => ?_, fun _ => .inl ?_⟩
    · rw [hs.1] at hw
      cases hw
    · rw [hs.2]
      rfl
  have hstep : memoryMachine.Preserves (fun _ e _ => e.2.Limits key max windowMs)
      fun s => s.Tracks key max windowMs :=
    fun _ _ _ h ht he => h.step hmax ht he
  exact hstep.run hinit (Machine.always_of_events fun e he _ _ => hes e he) hr

theorem MemoryLimiter.Tracks.bounded (h : s.Tracks key max windowMs) :
    Bounded (windowMs : Int) (2 * max - 1) (admittedTimes s.admitted key) := by
  cases hw : s.buckets key with
  | none =>
    obtain hnil | ⟨_, _, _, hepoch, htimes, -⟩ := h.swept hw
    · rw [hnil]
      exact bounded_nil
    · rw [htimes]
      exact hepoch.bounded
  | some w =>
    obtain ⟨_, _, hepoch, htimes, -⟩ := h.window w hw
    rw [htimes]
    exact hepoch.bounded

/-- An interval as long as a window holds less than twice the limit, and what is admitted since a
window was opened is what the window has counted. -/
theorem memoryMachine_admitted (hmax : 1 ≤ max) (hs : memoryMachine.init s)
    (hr : memoryMachine.run s es = some t) (hes : ∀ e ∈ es, e.2.Limits key max windowMs) :
    (∀ start : Int,
      countWithin (windowMs : Int) start (admittedTimes t.admitted key) ≤ 2 * max - 1) ∧
      ∀ w, t.buckets key = some w → w.count ≤ max ∧
        (admittedTimes t.admitted key).countP (fun a => (w.resetAt : Int) - windowMs ≤ a) =
          w.count := by
  have h := MemoryLimiter.tracks_of_run hmax hs hr hes
  refine ⟨h.bounded, fun w hw => ?_⟩
  obtain ⟨before, current, hepoch, htimes, hcount, -⟩ := h.window w hw
  rw [htimes, hepoch.countP_since, hcount]
  exact ⟨hepoch.size, rfl⟩

/-- Two requests at the end of a window and two at the start of the next one. -/
def burst : List (Nat × MemoryEvent) :=
  [0, 9, 10, 11, 12].map fun now => (now, .check "login:ann" 2 10)

theorem memoryMachine_admitted_burst :
    ∃ t, memoryMachine.run ⟨0, fun _ => none, []⟩ burst = some t ∧
      countWithin 10 3 (admittedTimes t.admitted "login:ann") ≤ 3 := by
  obtain ⟨t, ht⟩ : ∃ t, memoryMachine.run ⟨0, fun _ => none, []⟩ burst = some t := ⟨_, rfl⟩
  have hburst : ∀ e ∈ burst, e.2.Limits "login:ann" 2 10 := by
    intro e he
    obtain ⟨now, -, rfl⟩ := List.mem_map.1 he
    exact fun _ => ⟨rfl, rfl⟩
  exact ⟨t, ht, (memoryMachine_admitted (by decide) ⟨rfl, rfl⟩ ht hburst).1 3⟩

/-- Three requests of two that are allowed in ten milliseconds. -/
theorem memoryMachine_burst :
    ∃ t, memoryMachine.run ⟨0, fun _ => none, []⟩ burst = some t ∧
      admittedTimes t.admitted "login:ann" = [0, 9, 11, 12] ∧
      countWithin 10 9 (admittedTimes t.admitted "login:ann") = 3 :=
  ⟨_, rfl, by decide, by decide⟩

end Leetrank
