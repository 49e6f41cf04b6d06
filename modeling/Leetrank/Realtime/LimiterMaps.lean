import Leetrank.Library.CounterMaps
import Leetrank.Library.Machine
import Leetrank.Realtime.Limiter
import Mathlib.Data.List.Count

namespace Leetrank
set_option autoImplicit true

open CounterMaps EventMachine

/-- The limiter with its maps as the code keeps them, of which `Limiter` has the readings. -/
structure LimiterMaps where
  bySub : CounterMap String
  byIP : CounterMap String
  perSubject : Int64
  perIP : Int64

def newLimiterMaps (perSubject perIP : Int64) : LimiterMaps where
  bySub := fun _ => none
  byIP := fun _ => none
  perSubject := if perSubject ≤ 0 then Int64.ofNat DefaultPerSubject else perSubject
  perIP := if perIP ≤ 0 then Int64.ofNat DefaultPerIP else perIP

/-- What `Acquire` does to one of the maps. -/
def acquireKey (m : CounterMap String) (key : String) : CounterMap String :=
  if key ≠ "" then m.set key (m.read key + 1) else m

/-- What `Release` does to one of the maps. -/
def releaseKey (m : CounterMap String) (key : String) : CounterMap String :=
  if key ≠ "" then
    let m := if m.read key > 0 then m.set key (m.read key - 1) else m
    if m.read key = 0 then m.delete key else m
  else m

def LimiterMaps.acquire (l : LimiterMaps) (subject ip : String) : LimiterMaps × Bool × String :=
  if subject ≠ "" ∧ l.bySub.read subject ≥ l.perSubject then
    (l, false, "policy violation: per-user limit")
  else if ip ≠ "" ∧ l.byIP.read ip ≥ l.perIP then
    (l, false, "policy violation: per-ip limit")
  else
    let l := { l with bySub := acquireKey l.bySub subject }
    let l := { l with byIP := acquireKey l.byIP ip }
    (l, true, "")

def LimiterMaps.release (l : LimiterMaps) (subject ip : String) : LimiterMaps :=
  let l := { l with bySub := releaseKey l.bySub subject }
  { l with byIP := releaseKey l.byIP ip }

/-- The maps have the counters of the limiter and its caps. -/
structure LimiterMaps.Refines (l : LimiterMaps) (a : Limiter) : Prop where
  bySub : Tracks l.bySub a.bySub
  byIP : Tracks l.byIP a.byIP
  perSubject : l.perSubject.toInt = a.perSubject
  perIP : l.perIP.toInt = a.perIP

variable {l l' : LimiterMaps} {a a' : Limiter} {m : CounterMap String} {n : String → Nat}
  {cap : Int64}

/-- A counter below its cap can be counted up. -/
theorem tracks_acquireKey (h : Tracks m n) (hcap : key = "" ∨ (n key : Int) < cap.toInt) :
    Tracks (acquireKey m key) (recount n key (· + 1)) := by
  rw [acquireKey, recount]
  by_cases hk : key = ""
  · rw [if_neg (not_not_intro hk), if_pos hk]
    exact h
  · rw [if_pos hk, if_neg hk]
    exact h.set (h.toInt_succ (hcap.resolve_left hk)) (Nat.succ_pos _)

/-- A counter that comes down to 0 is deleted, and one that is at 0 has no entry to begin with. -/
theorem tracks_releaseKey (h : Tracks m n) (key : String) :
    Tracks (releaseKey m key) (recount n key (· - 1)) := by
  rw [releaseKey, recount]
  by_cases hk : key = ""
  · rw [if_neg (not_not_intro hk), if_pos hk]
    exact h
  · rw [if_pos hk, if_neg hk]
    by_cases hpos : 0 < n key
    · have hread := h.toInt_pred hpos
      simp only [gt_iff_lt, (h.read_pos_iff key).2 hpos, if_true, CounterMap.read_set,
        CounterMap.delete_set]
      split
      next hlast =>
        have hone : n key - 1 = 0 := by
          rw [hlast] at hread
          exact (Int.ofNat.inj hread).symm
        rw [hone]
        exact h.delete
      next hmore =>
        refine h.set hread (Nat.pos_of_ne_zero fun hone => hmore ?_)
        rw [← Int64.toInt_inj, hread, hone]
        rfl
    · have hnone : n key = 0 := Nat.eq_zero_of_not_pos hpos
      have hread : m.read key = 0 := by
        rw [← Int64.toInt_inj, h.toInt_read, hnone]
        rfl
      have hngt : ¬m.read key > 0 := fun hgt => hpos ((h.read_pos_iff key).1 hgt)
      simp only [if_neg hngt, if_pos hread, hnone]
      exact h.delete

theorem toInt_cap (cap : Int64) {default : Nat} (hdefault : (Int64.ofNat default).toInt = default) :
    (if cap ≤ 0 then Int64.ofNat default else cap).toInt =
      ((if cap.toInt ≤ 0 then default else cap.toInt.toNat : Nat) : Int) := by
  have hzero : (0 : Int64).toInt = 0 := rfl
  have hle : cap ≤ 0 ↔ cap.toInt ≤ 0 := by rw [Int64.le_iff_toInt_le, hzero]
  by_cases hcap : cap.toInt ≤ 0
  · rw [if_pos (hle.2 hcap), if_pos hcap, hdefault]
  · rw [if_neg (mt hle.1 hcap), if_neg hcap]
    omega

theorem refines_new (perSubject perIP : Int64) :
    (newLimiterMaps perSubject perIP).Refines (NewLimiter perSubject.toInt perIP.toInt) where
  bySub := tracks_empty
  byIP := tracks_empty
  perSubject := toInt_cap perSubject (by decide)
  perIP := toInt_cap perIP (by decide)

theorem full_iff (h : Tracks m n) (hcap : cap.toInt = (c : Nat)) (key : String) :
    key ≠ "" ∧ m.read key ≥ cap ↔ key ≠ "" ∧ c ≤ n key := by
  rw [ge_iff_le, Int64.le_iff_toInt_le, hcap, h.toInt_read, Int.ofNat_le]

/-- The maps refuse a call if and only if the limiter does, for the same reason and without any
change, and otherwise they count it as the limiter does. -/
theorem LimiterMaps.Refines.acquire (h : l.Refines a) (subject ip : String) :
    (∃ l' a', l.acquire subject ip = (l', true, "") ∧ a.acquire subject ip = .ok a' ∧
      l'.Refines a') ∨
    ∃ reason, l.acquire subject ip = (l, false, reason) ∧
      a.acquire subject ip = .error reason := by
  have hsub := full_iff h.bySub h.perSubject subject
  have hip := full_iff h.byIP h.perIP ip
  rw [LimiterMaps.acquire, Limiter.acquire]
  by_cases hs : subject ≠ "" ∧ a.perSubject ≤ a.bySub subject
  · rw [if_pos hs, if_pos (hsub.2 hs)]
    exact .inr ⟨_, rfl, rfl⟩
  · rw [if_neg hs, if_neg (mt hsub.1 hs)]
    by_cases hi : ip ≠ "" ∧ a.perIP ≤ a.byIP ip
    · rw [if_pos hi, if_pos (hip.2 hi)]
      exact .inr ⟨_, rfl, rfl⟩
    · rw [if_neg hi, if_neg (mt hip.1 hi)]
      have hs' : subject = "" ∨ (a.bySub subject : Int) < l.perSubject.toInt := by
        rw [h.perSubject, Int.ofNat_lt]
        exact below_of_not_full hs
      have hi' : ip = "" ∨ (a.byIP ip : Int) < l.perIP.toInt := by
        rw [h.perIP, Int.ofNat_lt]
        exact below_of_not_full hi
      exact .inl ⟨_, _, rfl, rfl, tracks_acquireKey h.bySub hs', tracks_acquireKey h.byIP hi',
        h.perSubject, h.perIP⟩

theorem LimiterMaps.Refines.release (h : l.Refines a) (subject ip : String) :
    (l.release subject ip).Refines (a.release subject ip) where
  bySub := tracks_releaseKey h.bySub subject
  byIP := tracks_releaseKey h.byIP ip
  perSubject := h.perSubject
  perIP := h.perIP

/-- A connection that `Acquire` admitted. -/
structure Admission where
  subject : String
  ip : String
  deriving DecidableEq

/-- How many of these admissions there are with a key, by their subject or by their IP; the empty
key is not counted. -/
def held (side : Admission → String) (outstanding : List Admission) (key : String) : Nat :=
  if key = "" then 0 else outstanding.countP fun c => side c = key

/-- The counters are those of these admissions, and within the caps. -/
structure Limiter.Holds (a : Limiter) (outstanding : List Admission) : Prop where
  bySub : a.bySub = held Admission.subject outstanding
  byIP : a.byIP = held Admission.ip outstanding
  bySub_le : ∀ subject, a.bySub subject ≤ a.perSubject
  byIP_le : ∀ ip, a.byIP ip ≤ a.perIP

theorem held_cons (side : Admission → String) (c : Admission) (outstanding : List Admission) :
    held side (c :: outstanding) = recount (held side outstanding) (side c) (· + 1) := by
  funext key
  by_cases hk : key = ""
  · rw [hk, recount_empty, held, held, if_pos rfl, if_pos rfl]
  · rw [recount_add _ _ hk, held, held, if_neg hk, if_neg hk, List.countP_cons]
    by_cases hc : side c = key
    · simp [hc]
    · simp [hc]

theorem held_erase (side : Admission → String) (h : c ∈ outstanding) :
    held side (outstanding.erase c) = recount (held side outstanding) (side c) (· - 1) := by
  have hperm : held side outstanding = held side (c :: outstanding.erase c) := by
    funext key
    rw [held, held, (List.perm_cons_erase h).countP_eq]
  rw [hperm, held_cons]
  funext key
  by_cases hk : key = ""
  · rw [hk, recount_empty, recount_empty]
  · rw [recount_sub _ _ hk, recount_add _ _ hk, Nat.add_sub_cancel]

theorem recount_le {cap : Nat} {f : Nat → Nat} (h : ∀ key, n key ≤ cap)
    (hkey : key = "" ∨ f (n key) ≤ cap) (k : String) : recount n key f k ≤ cap := by
  rw [recount]
  split
  next => exact h k
  next hne =>
    rw [Function.update_apply]
    split
    next => exact hkey.resolve_left hne
    next => exact h k

theorem Limiter.Holds.acquire (h : a.Holds outstanding) (hok : a.acquire subject ip = .ok a') :
    a'.Holds (⟨subject, ip⟩ :: outstanding) := by
  obtain ⟨hsub, hip, rfl⟩ := Limiter.acquire_ok hok
  refine ⟨?_, ?_, recount_le h.bySub_le hsub, recount_le h.byIP_le hip⟩
  · rw [held_cons, ← h.bySub]
  · rw [held_cons, ← h.byIP]

theorem Limiter.Holds.release (h : a.Holds outstanding) (hmem : ⟨subject, ip⟩ ∈ outstanding) :
    (a.release subject ip).Holds (outstanding.erase ⟨subject, ip⟩) where
  bySub := by
    rw [held_erase Admission.subject hmem, ← h.bySub]
    rfl
  byIP := by
    rw [held_erase Admission.ip hmem, ← h.byIP]
    rfl
  bySub_le :=
    recount_le (f := (· - 1)) h.bySub_le (.inr ((Nat.sub_le _ 1).trans (h.bySub_le subject)))
  byIP_le := recount_le (f := (· - 1)) h.byIP_le (.inr ((Nat.sub_le _ 1).trans (h.byIP_le ip)))

inductive LimiterCall where
  | acquire (subject ip : String)
  | release (subject ip : String)

def LimiterCall.subject : LimiterCall → String
  | .acquire subject _ => subject
  | .release subject _ => subject

def LimiterCall.ip : LimiterCall → String
  | .acquire _ ip => ip
  | .release _ ip => ip

/-- The limiter, with the connections that were admitted and have not been released. -/
structure LimiterRun where
  limiter : LimiterMaps
  outstanding : List Admission

/-- One call under the mutex; each release is for one of the outstanding admissions. -/
def limiterStep (s : LimiterRun) : LimiterCall → Option LimiterRun
  | .acquire subject ip =>
    match s.limiter.acquire subject ip with
    | (limiter, true, _) => some ⟨limiter, ⟨subject, ip⟩ :: s.outstanding⟩
    | (limiter, false, _) => some ⟨limiter, s.outstanding⟩
  | .release subject ip =>
    if ⟨subject, ip⟩ ∈ s.outstanding then
      some ⟨s.limiter.release subject ip, s.outstanding.erase ⟨subject, ip⟩⟩
    else none

def limiterMachine (perSubject perIP : Int64) : Machine LimiterRun LimiterCall where
  init := fun s => s = ⟨newLimiterMaps perSubject perIP, []⟩
  step := limiterStep

theorem limiterStep_cases (h : limiterStep s call = some t) :
    (∃ subject ip l reason, call = .acquire subject ip ∧
      s.limiter.acquire subject ip = (l, true, reason) ∧
      t = ⟨l, ⟨subject, ip⟩ :: s.outstanding⟩) ∨
    (∃ subject ip l reason, call = .acquire subject ip ∧
      s.limiter.acquire subject ip = (l, false, reason) ∧ t = ⟨l, s.outstanding⟩) ∨
    ∃ subject ip, call = .release subject ip ∧ ⟨subject, ip⟩ ∈ s.outstanding ∧
      t = ⟨s.limiter.release subject ip, s.outstanding.erase ⟨subject, ip⟩⟩ := by
  cases call with
  | acquire subject ip =>
    rw [limiterStep] at h
    split at h
    next l reason hl =>
      cases h
      exact .inl ⟨subject, ip, l, reason, rfl, hl, rfl⟩
    next l reason hl =>
      cases h
      exact .inr (.inl ⟨subject, ip, l, reason, rfl, hl, rfl⟩)
  | release subject ip =>
    rw [limiterStep] at h
    split at h
    next hmem =>
      cases h
      exact .inr (.inr ⟨subject, ip, rfl, hmem, rfl⟩)
    next => cases h

/-- The maps have the counters of the outstanding admissions, with these caps. -/
def LimiterRun.Accounted (perSubject perIP : Int64) (s : LimiterRun) : Prop :=
  ∃ a : Limiter, s.limiter.Refines a ∧ a.Holds s.outstanding ∧
    a.perSubject = (NewLimiter perSubject.toInt perIP.toInt).perSubject ∧
    a.perIP = (NewLimiter perSubject.toInt perIP.toInt).perIP

theorem accounted_new (perSubject perIP : Int64) :
    LimiterRun.Accounted perSubject perIP ⟨newLimiterMaps perSubject perIP, []⟩ := by
  have hnone (side : Admission → String) : held side [] = fun _ => 0 :=
    funext fun key => ite_self 0
  refine ⟨_, refines_new perSubject perIP, ⟨(hnone _).symm, (hnone _).symm, ?_, ?_⟩, rfl, rfl⟩
  · exact fun _ => Nat.zero_le _
  · exact fun _ => Nat.zero_le _

theorem limiterMachine_accounted (perSubject perIP : Int64) :
    (limiterMachine perSubject perIP).Invariant (LimiterRun.Accounted perSubject perIP) := by
  intro s call t h ht _
  obtain ⟨a, hrefines, hholds, hsub, hip⟩ := h
  rcases limiterStep_cases ht with ⟨subject, ip, l, reason, rfl, hl, rfl⟩ |
    ⟨subject, ip, l, reason, rfl, hl, rfl⟩ | ⟨subject, ip, rfl, hmem, rfl⟩
  · rcases hrefines.acquire subject ip with ⟨l', a', hl', ha, h'⟩ | ⟨_, hl', _⟩
    · rw [hl] at hl'
      cases hl'
      obtain ⟨-, -, rfl⟩ := Limiter.acquire_ok ha
      exact ⟨_, h', hholds.acquire ha, hsub, hip⟩
    · rw [hl] at hl'
      cases hl'
  · rcases hrefines.acquire subject ip with ⟨_, _, hl', _, _⟩ | ⟨_, hl', _⟩
    · rw [hl] at hl'
      cases hl'
    · rw [hl] at hl'
      cases hl'
      exact ⟨a, hrefines, hholds, hsub, hip⟩
  · exact ⟨a.release subject ip, hrefines.release subject ip, hholds.release hmem, hsub, hip⟩

/-- Calls with a subject and an IP leave only such admissions. -/
theorem limiterMachine_outstanding (perSubject perIP : Int64) :
    (limiterMachine perSubject perIP).Preserves
      (fun _ call _ => call.subject ≠ "" ∧ call.ip ≠ "")
      fun s => ∀ c ∈ s.outstanding, c.subject ≠ "" ∧ c.ip ≠ "" := by
  intro s call t h ht hcall
  rcases limiterStep_cases ht with ⟨subject, ip, l, reason, rfl, _, rfl⟩ |
    ⟨subject, ip, l, reason, rfl, _, rfl⟩ | ⟨subject, ip, rfl, _, rfl⟩
  · exact List.forall_mem_cons.2 ⟨hcall, h⟩
  · exact h
  · exact fun c hc => h c (List.mem_of_mem_erase hc)

theorem held_of_ne {side : Admission → String} (h : ∀ c ∈ outstanding, side c ≠ "")
    (key : String) : held side outstanding key = outstanding.countP fun c => side c = key := by
  rw [held]
  split
  next hk =>
    subst hk
    refine (List.countP_eq_zero.2 fun c hc he => ?_).symm
    exact h c hc (of_decide_eq_true he)
  next => rfl

/-- A call is refused if and only if there are as many admissions outstanding for its subject or
for its IP as the cap allows. -/
theorem limiter_refuses_iff (hr : (limiterMachine perSubject perIP).run
      ⟨newLimiterMaps perSubject perIP, []⟩ calls = some s) (hs : subject ≠ "") (hi : ip ≠ "") :
    (s.limiter.acquire subject ip).2.1 = false ↔
      (newLimiterMaps perSubject perIP).perSubject.toInt ≤
        s.outstanding.countP (fun c => c.subject = subject) ∨
      (newLimiterMaps perSubject perIP).perIP.toInt ≤
        s.outstanding.countP fun c => c.ip = ip := by
  obtain ⟨a, hrefines, hholds, hsub, hip⟩ :=
    (limiterMachine_accounted perSubject perIP).run (accounted_new perSubject perIP) hr
  have hcaps := refines_new perSubject perIP
  have hsubject : a.bySub subject = s.outstanding.countP fun c => c.subject = subject := by
    rw [hholds.bySub, held, if_neg hs]
  have haddress : a.byIP ip = s.outstanding.countP fun c => c.ip = ip := by
    rw [hholds.byIP, held, if_neg hi]
  rw [hcaps.perSubject, hcaps.perIP, ← hsub, ← hip, ← hsubject, ← haddress, Int.ofNat_le,
    Int.ofNat_le]
  have hfull := full_iff hrefines.bySub hrefines.perSubject subject
  have hfull' := full_iff hrefines.byIP hrefines.perIP ip
  rw [LimiterMaps.acquire]
  by_cases h : subject ≠ "" ∧ s.limiter.bySub.read subject ≥ s.limiter.perSubject
  · rw [if_pos h]
    exact iff_of_true rfl (.inl (hfull.1 h).2)
  · rw [if_neg h]
    by_cases h' : ip ≠ "" ∧ s.limiter.byIP.read ip ≥ s.limiter.perIP
    · rw [if_pos h']
      exact iff_of_true rfl (.inr (hfull'.1 h').2)
    · rw [if_neg h']
      refine iff_of_false Bool.noConfusion ?_
      rintro (hle | hle)
      · exact h (hfull.2 ⟨hs, hle⟩)
      · exact h' (hfull'.2 ⟨hi, hle⟩)

theorem limiter_refuses_iff_third : ∃ s : LimiterRun,
    (limiterMachine 2 0).run ⟨newLimiterMaps 2 0, []⟩
        [.acquire "alice" "1.1.1.1", .acquire "alice" "2.2.2.2"] = some s ∧
      (s.limiter.acquire "alice" "1.1.1.1").2.1 = false := by
  have hrun : ((limiterMachine 2 0).run ⟨newLimiterMaps 2 0, []⟩
      [.acquire "alice" "1.1.1.1", .acquire "alice" "2.2.2.2"]).map LimiterRun.outstanding =
        some [⟨"alice", "2.2.2.2"⟩, ⟨"alice", "1.1.1.1"⟩] := rfl
  obtain ⟨s, hs, hout⟩ := Option.map_eq_some_iff.1 hrun
  refine ⟨s, hs, (limiter_refuses_iff hs (by decide) (by decide)).2 (.inl ?_)⟩
  rw [hout]
  decide

theorem LimiterMaps.acquire_refused (h : l.acquire subject ip = (l', false, reason)) : l' = l := by
  rw [LimiterMaps.acquire] at h
  split at h
  next =>
    cases h
    rfl
  next =>
    split at h
    next =>
      cases h
      rfl
    next => cases h

/-- After whatever calls with a subject and an IP, where each release is for an `Acquire` that
succeeded, the counters are the numbers of the admissions still outstanding, within the caps and
without an entry for a number that is 0, and a refused call changes nothing. -/
theorem limiter_accounting (hne : ∀ call ∈ calls, call.subject ≠ "" ∧ call.ip ≠ "")
    (hr : (limiterMachine perSubject perIP).run ⟨newLimiterMaps perSubject perIP, []⟩ calls =
      some s) :
    (∀ subject, (s.limiter.bySub.read subject).toInt =
      s.outstanding.countP fun c => c.subject = subject) ∧
    (∀ ip, (s.limiter.byIP.read ip).toInt = s.outstanding.countP fun c => c.ip = ip) ∧
    (∀ subject, s.limiter.bySub.read subject ≤ (newLimiterMaps perSubject perIP).perSubject) ∧
    (∀ ip, s.limiter.byIP.read ip ≤ (newLimiterMaps perSubject perIP).perIP) ∧
    (∀ key, s.limiter.bySub key ≠ some 0 ∧ s.limiter.byIP key ≠ some 0) ∧
    ∀ subject ip l reason, s.limiter.acquire subject ip = (l, false, reason) →
      l = s.limiter := by
  obtain ⟨a, hrefines, hholds, hsub, hip⟩ :=
    (limiterMachine_accounted perSubject perIP).run (accounted_new perSubject perIP) hr
  have hout : ∀ c ∈ s.outstanding, c.subject ≠ "" ∧ c.ip ≠ "" :=
    (limiterMachine_outstanding perSubject perIP).run (fun _ h => absurd h List.not_mem_nil)
      (Machine.always_of_events fun call hcall _ _ => hne call hcall) hr
  have hcaps := refines_new perSubject perIP
  refine ⟨fun subject => ?_, fun ip => ?_, fun subject => ?_, fun ip => ?_,
    fun key => ⟨hrefines.bySub.ne_zero key, hrefines.byIP.ne_zero key⟩,
    fun _ _ _ _ => LimiterMaps.acquire_refused⟩
  · rw [hrefines.bySub.toInt_read, hholds.bySub, held_of_ne fun c hc => (hout c hc).1]
  · rw [hrefines.byIP.toInt_read, hholds.byIP, held_of_ne fun c hc => (hout c hc).2]
  · rw [Int64.le_iff_toInt_le, hrefines.bySub.toInt_read, hcaps.perSubject, ← hsub, Int.ofNat_le]
    exact hholds.bySub_le subject
  · rw [Int64.le_iff_toInt_le, hrefines.byIP.toInt_read, hcaps.perIP, ← hip, Int.ofNat_le]
    exact hholds.byIP_le ip

/-- Two connections of one user are admitted, the third is refused, and one of the two ends. -/
def threeConnections : List LimiterCall :=
  [.acquire "alice" "1.1.1.1", .acquire "alice" "2.2.2.2", .acquire "alice" "1.1.1.1",
    .release "alice" "1.1.1.1"]

theorem limiter_accounting_three : ∃ s : LimiterRun,
    (limiterMachine 2 0).run ⟨newLimiterMaps 2 0, []⟩ threeConnections = some s ∧
      s.outstanding = [⟨"alice", "2.2.2.2"⟩] ∧ (s.limiter.bySub.read "alice").toInt = 1 := by
  have hne : ∀ call ∈ threeConnections, call.subject ≠ "" ∧ call.ip ≠ "" := by decide
  have hrun : ((limiterMachine 2 0).run ⟨newLimiterMaps 2 0, []⟩ threeConnections).map
      LimiterRun.outstanding = some [⟨"alice", "2.2.2.2"⟩] := rfl
  obtain ⟨s, hs, hout⟩ := Option.map_eq_some_iff.1 hrun
  obtain ⟨hsub, _⟩ := limiter_accounting hne hs
  refine ⟨s, hs, hout, ?_⟩
  rw [hsub, hout]
  rfl

end Leetrank
