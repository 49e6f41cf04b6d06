import Leetrank.Library.SortedSet
import Leetrank.Web.MemoryLimit
import Mathlib.Data.String.Basic

namespace Leetrank
set_option autoImplicit true

open EventMachine SlidingWindow SortedSets

/-- A sorted set of Redis, with the time at which it may expire. -/
structure RedisSet where
  members : SortedSet String Int
  expiresAt : Option Nat

/-- The keys that hold a sorted set; one without members is gone. -/
abbrev RedisDb := String → Option RedisSet

def zremrangebyscore (db : RedisDb) (k : String) (min max : Int) : RedisDb :=
  let trimmed := (db k).map fun v => { v with members := v.members.removeByScore min max }
  Function.update db k (trimmed.filter fun v => v.members.rows.length ≠ 0)

def zadd (db : RedisDb) (k : String) (score : Int) (member : String) : RedisDb :=
  let v := (db k).getD ⟨.empty, none⟩
  Function.update db k (some { v with members := v.members.add member score })

def zcard (db : RedisDb) (k : String) : Nat :=
  match db k with
  | none => 0
  | some v => v.members.rows.length

def pexpire (db : RedisDb) (k : String) (ttl now : Nat) : RedisDb :=
  Function.update db k ((db k).map fun v => { v with expiresAt := some (now + ttl) })

/-- The results that a pipeline returns: for each command an error or a number. -/
abbrev PipelineReply := Option (List (Option String × Nat))

/-- The cardinality among the results of the pipeline. -/
def cardinality (res : PipelineReply) : Except String Nat :=
  match res with
  | none => .error "redis pipeline returned null"
  | some replies =>
    match replies[2]? with
    | none => .error "redis pipeline missing zcard result"
    | some (some err, _) => .error err
    | some (none, count) => .ok count

/-- The pipeline, all of whose commands succeed. -/
def execPipeline (db : RedisDb) (k member : String) (windowMs now : Nat) :
    RedisDb × PipelineReply :=
  let trimmed := zremrangebyscore db k 0 (now - windowMs)
  let added := zadd trimmed k now member
  let card := zcard added k
  (pexpire added k windowMs now,
    some [(none, zcard db k - zcard trimmed k), (none, card - zcard trimmed k), (none, card),
      (none, 1)])

def redisResult (max windowMs now count : Nat) : RateLimitResult :=
  let resetAt := now + windowMs
  if max < count then
    ⟨false, 0, resetAt, some (Nat.max 1 ((windowMs + 999) / 1000))⟩
  else ⟨true, Nat.max 0 (max - count), resetAt, none⟩

/-- A check at a time, with the identifier that it draws. -/
def redisCheck (db : RedisDb) (key : String) (max windowMs now : Nat) (uuid : String) :
    RedisDb × Except String RateLimitResult :=
  let k := "rl:" ++ key
  let member := toString now ++ "-" ++ uuid
  let (db, res) := execPipeline db k member windowMs now
  (db, (cardinality res).map (redisResult max windowMs now))

inductive RedisEvent where
  | check (key : String) (max windowMs : Nat) (uuid : String)
  | expire (k : String)

/-- The database that the replicas share, with the requests that they have admitted. -/
structure RedisLimiter where
  clock : Nat
  db : RedisDb
  admitted : List (String × Nat)

/-- The members of the set of a key. -/
def RedisDb.members (db : RedisDb) (k : String) : List (String × Int) :=
  match db k with
  | none => []
  | some v => v.members.rows

/-- A check whose member is new, or the end of a key that is due. -/
def RedisLimiter.step (s : RedisLimiter) (now : Nat) : RedisEvent → Option RedisLimiter
  | .check key max windowMs uuid =>
    if now < s.clock ∨
        toString now ++ "-" ++ uuid ∈ (s.db.members ("rl:" ++ key)).map fun x => x.1 then none
    else
      match redisCheck s.db key max windowMs now uuid with
      | (db, .ok result) =>
        some ⟨now, db, if result.allowed then s.admitted ++ [(key, now)] else s.admitted⟩
      | (_, .error _) => none
  | .expire k =>
    match (s.db k).bind RedisSet.expiresAt with
    | none => none
    | some deadline =>
      if now < s.clock ∨ now < deadline then none
      else some ⟨now, Function.update s.db k none, s.admitted⟩

def redisMachine : Machine RedisLimiter (Nat × RedisEvent) where
  init := fun s => s.db = (fun _ => none) ∧ s.admitted = []
  step := fun s e => s.step e.1 e.2

/-- The members that a check leaves in its set. -/
def unexpired (windowMs now : Nat) (members : List (String × Int)) : List (String × Int) :=
  members.filter fun x => ¬(0 ≤ x.2 ∧ x.2 ≤ now - windowMs)

/-- A set holds what has been admitted in the last window, and cannot expire before that is over. -/
structure RedisLimiter.Tracks (s : RedisLimiter) (key : String) (max windowMs : Nat) : Prop where
  counted : ∀ u : Int, s.clock ≤ u →
    recent (windowMs : Int) u (admittedTimes s.admitted key) ≤
      recent (windowMs : Int) u ((s.db.members ("rl:" ++ key)).map fun x => x.2)
  scores : ∀ x ∈ s.db.members ("rl:" ++ key), x.2 ≤ s.clock
  deadline : ∀ d, (s.db ("rl:" ++ key)).bind RedisSet.expiresAt = some d →
    ∀ x ∈ s.db.members ("rl:" ++ key), x.2 + windowMs ≤ d
  bounded : Bounded (windowMs : Int) max (admittedTimes s.admitted key)

/-- The checks of a key all have the same limit. -/
def RedisEvent.Limits (key : String) (max windowMs : Nat) : RedisEvent → Prop
  | .check k m w _ => k = key → m = max ∧ w = windowMs
  | .expire _ => True

variable {s t : RedisLimiter} {db : RedisDb} {key k member uuid : String}
  {max windowMs now : Nat} {score : Int}

theorem RedisDb.members_of_some (h : db k = some v) : db.members k = v.members.rows := by
  rw [RedisDb.members, h]

theorem zcard_eq (db : RedisDb) (k : String) : zcard db k = (db.members k).length := by
  rw [zcard, RedisDb.members]
  split <;> rfl

theorem members_zremrangebyscore (db : RedisDb) (k : String) (low high : Int) :
    (zremrangebyscore db k low high).members k =
      (db.members k).filter fun x => ¬(low ≤ x.2 ∧ x.2 ≤ high) := by
  rw [RedisDb.members, RedisDb.members, zremrangebyscore, Function.update_self]
  cases db k with
  | none => rfl
  | some v =>
    rw [Option.map_some, Option.filter_some]
    by_cases hempty : (v.members.removeByScore low high).rows.length = 0
    · rw [if_neg (by simpa using hempty)]
      exact (List.length_eq_zero_iff.1 hempty).symm
    · rw [if_pos (decide_eq_true hempty)]
      rfl

theorem members_zadd (h : member ∉ (db.members k).map fun x => x.1) :
    ((zadd db k score member).members k).Perm ((member, score) :: db.members k) := by
  rw [zadd, RedisDb.members_of_some (Function.update_self ..)]
  cases hv : db k with
  | none =>
    have hnil : db.members k = [] := by rw [RedisDb.members, hv]
    rw [hnil]
    exact SortedSet.rows_add_perm List.not_mem_nil
  | some v =>
    rw [RedisDb.members_of_some hv] at h ⊢
    exact SortedSet.rows_add_perm h

theorem members_pexpire (db : RedisDb) (k : String) (ttl now : Nat) :
    (pexpire db k ttl now).members k = db.members k := by
  rw [RedisDb.members, RedisDb.members, pexpire, Function.update_self]
  cases db k <;> rfl

theorem members_execPipeline (h : member ∉ (db.members k).map fun x => x.1) :
    ((execPipeline db k member windowMs now).1.members k).Perm
      ((member, (now : Int)) :: unexpired windowMs now (db.members k)) := by
  have hmembers := members_zremrangebyscore db k 0 (now - windowMs)
  rw [execPipeline]
  dsimp only
  rw [members_pexpire, unexpired, ← hmembers]
  apply members_zadd
  rw [hmembers]
  exact fun hmem => h ((List.filter_sublist.map _).subset hmem)

theorem execPipeline_of_ne (hk : other ≠ k) :
    (execPipeline db k member windowMs now).1 other = db other := by
  rw [execPipeline]
  dsimp only
  rw [pexpire, Function.update_of_ne hk, zadd, Function.update_of_ne hk, zremrangebyscore,
    Function.update_of_ne hk]

theorem deadline_execPipeline :
    ((execPipeline db k member windowMs now).1 k).bind RedisSet.expiresAt =
      some (now + windowMs) := by
  rw [execPipeline]
  dsimp only
  rw [pexpire, Function.update_self, zadd, Function.update_self]
  rfl

/-- A check adds its member to those that it leaves, and goes by how many there are then. -/
theorem redisCheck_result (h : member ∉ (db.members k).map fun x => x.1) :
    cardinality (execPipeline db k member windowMs now).2 =
      .ok ((unexpired windowMs now (db.members k)).length + 1) := by
  have hlen := (@members_execPipeline db k member windowMs now h).length_eq
  rw [List.length_cons, execPipeline] at hlen
  dsimp only at hlen
  rw [members_pexpire, ← zcard_eq] at hlen
  rw [← hlen]
  rfl

theorem redisCheck_eq
    (h : toString now ++ "-" ++ uuid ∉ (db.members ("rl:" ++ key)).map fun x => x.1) :
    redisCheck db key max windowMs now uuid =
      ((execPipeline db ("rl:" ++ key) (toString now ++ "-" ++ uuid) windowMs now).1,
        .ok (redisResult max windowMs now
          ((unexpired windowMs now (db.members ("rl:" ++ key))).length + 1))) := by
  rw [redisCheck]
  dsimp only
  rw [redisCheck_result h]
  rfl

theorem redisResult_allowed : (redisResult max windowMs now n).allowed = decide (n ≤ max) := by
  rw [redisResult]
  split
  next h => exact (decide_eq_false (Nat.not_le.2 h)).symm
  next h => exact (decide_eq_true (Nat.not_lt.1 h)).symm

/-- All that a step can do to the set of a key, and to what has been admitted of it. -/
theorem RedisLimiter.step_cases (h : s.step now e = some t) (he : e.Limits key max windowMs) :
    s.clock ≤ now ∧ t.clock = now ∧
      (t.db ("rl:" ++ key) = s.db ("rl:" ++ key) ∧
          admittedTimes t.admitted key = admittedTimes s.admitted key ∨
      (∃ d, (s.db ("rl:" ++ key)).bind RedisSet.expiresAt = some d ∧ d ≤ now ∧
        t.db ("rl:" ++ key) = none ∧
        admittedTimes t.admitted key = admittedTimes s.admitted key) ∨
      ∃ member, (t.db.members ("rl:" ++ key)).Perm
          ((member, (now : Int)) :: unexpired windowMs now (s.db.members ("rl:" ++ key))) ∧
        (t.db ("rl:" ++ key)).bind RedisSet.expiresAt = some (now + windowMs) ∧
        (admittedTimes t.admitted key = admittedTimes s.admitted key ∨
          (unexpired windowMs now (s.db.members ("rl:" ++ key))).length + 1 ≤ max ∧
          admittedTimes t.admitted key = admittedTimes s.admitted key ++ [(now : Int)])) := by
  cases e with
  | expire k =>
    rw [RedisLimiter.step] at h
    split at h
    next => cases h
    next d hd =>
      split at h
      next => cases h
      next hdue =>
        cases h
        rw [not_or, Nat.not_lt, Nat.not_lt] at hdue
        refine ⟨hdue.1, rfl, ?_⟩
        by_cases hk : k = "rl:" ++ key
        · subst hk
          exact .inr (.inl ⟨d, hd, hdue.2, Function.update_self .., rfl⟩)
        · exact .inl ⟨Function.update_of_ne (Ne.symm hk) .., rfl⟩
  | check k m W uuid =>
    rw [RedisLimiter.step] at h
    split at h
    next => cases h
    next hfresh =>
      rw [not_or, Nat.not_lt] at hfresh
      rw [redisCheck_eq hfresh.2] at h
      cases h
      refine ⟨hfresh.1, rfl, ?_⟩
      by_cases hk : k = key
      · obtain ⟨rfl, rfl⟩ := he hk
        subst hk
        refine .inr (.inr ⟨_, members_execPipeline hfresh.2, deadline_execPipeline, ?_⟩)
        dsimp only
        rw [redisResult_allowed]
        split
        next hroom =>
          rw [admittedTimes_concat_self]
          exact .inr ⟨of_decide_eq_true hroom, rfl⟩
        next => exact .inl rfl
      · refine .inl ⟨execPipeline_of_ne ?_, ?_⟩
        · intro heq
          exact hk (String.append_right_inj _ |>.1 heq).symm
        · dsimp only
          split
          · exact admittedTimes_concat_of_ne hk s.admitted now
          · rfl

/-- Nothing recent is left out. -/
theorem recent_unexpired {u : Int} (hu : now ≤ u) (rows : List (String × Int)) :
    recent (windowMs : Int) u ((unexpired windowMs now rows).map fun x => x.2) =
      recent (windowMs : Int) u (rows.map fun x => x.2) := by
  rw [recent, recent, List.countP_map, List.countP_map, unexpired, List.countP_filter]
  apply List.countP_congr
  intro x _
  simp only [Function.comp_apply, Bool.and_eq_true, decide_eq_true_eq]
  omega

theorem RedisLimiter.Tracks.keep (h : s.Tracks key max windowMs) (hclock : s.clock ≤ t.clock)
    (hdb : t.db ("rl:" ++ key) = s.db ("rl:" ++ key))
    (htimes : admittedTimes t.admitted key = admittedTimes s.admitted key) :
    t.Tracks key max windowMs := by
  have hmembers : t.db.members ("rl:" ++ key) = s.db.members ("rl:" ++ key) := by
    rw [RedisDb.members, RedisDb.members, hdb]
  constructor
  · intro u hu
    rw [htimes, hmembers]
    exact h.counted u (by omega)
  · intro x hx
    rw [hmembers] at hx
    have hscore := h.scores x hx
    omega
  · intro d hd x hx
    rw [hdb] at hd
    rw [hmembers] at hx
    exact h.deadline d hd x hx
  · rw [htimes]
    exact h.bounded

/-- A key that expires is one whose members are all out of the window. -/
theorem RedisLimiter.Tracks.expire (h : s.Tracks key max windowMs) (hclock : s.clock ≤ t.clock)
    (hd : (s.db ("rl:" ++ key)).bind RedisSet.expiresAt = some d) (hdue : d ≤ t.clock)
    (hdb : t.db ("rl:" ++ key) = none)
    (htimes : admittedTimes t.admitted key = admittedTimes s.admitted key) :
    t.Tracks key max windowMs := by
  have hmembers : t.db.members ("rl:" ++ key) = [] := by
    rw [RedisDb.members, hdb]
  constructor
  · intro u hu
    rw [htimes]
    refine (h.counted u (by omega)).trans ?_
    rw [recent_eq_zero]
    · exact Nat.zero_le _
    · intro a ha
      obtain ⟨x, hx, rfl⟩ := List.mem_map.1 ha
      have hlives := h.deadline d hd x hx
      omega
  · intro x hx
    rw [hmembers] at hx
    cases hx
  · intro d' hd'
    rw [hdb] at hd'
    cases hd'
  · rw [htimes]
    exact h.bounded

/-- A refused check is counted as well, so that what is admitted stays within what is counted. -/
theorem RedisLimiter.Tracks.check (h : s.Tracks key max windowMs) (hclock : s.clock ≤ t.clock)
    (hmembers : (t.db.members ("rl:" ++ key)).Perm
      ((member, (t.clock : Int)) :: unexpired windowMs t.clock (s.db.members ("rl:" ++ key))))
    (hdeadline : (t.db ("rl:" ++ key)).bind RedisSet.expiresAt = some (t.clock + windowMs))
    (hadmitted : admittedTimes t.admitted key = admittedTimes s.admitted key ∨
      (unexpired windowMs t.clock (s.db.members ("rl:" ++ key))).length + 1 ≤ max ∧
        admittedTimes t.admitted key = admittedTimes s.admitted key ++ [(t.clock : Int)]) :
    t.Tracks key max windowMs := by
  have hscores : ∀ u : Int, t.clock ≤ u →
      recent (windowMs : Int) u ((t.db.members ("rl:" ++ key)).map fun x => x.2) =
        recent (windowMs : Int) u ((s.db.members ("rl:" ++ key)).map fun x => x.2) +
          if u < t.clock + windowMs then 1 else 0 := by
    intro u hu
    rw [recent_perm ((hmembers.map _).trans (List.perm_append_singleton ..).symm), recent_concat,
      recent_unexpired hu]
  constructor
  · intro u hu
    have hcounted := h.counted u (by omega)
    rw [hscores u hu]
    rcases hadmitted with htimes | ⟨-, htimes⟩
    · rw [htimes]
      omega
    · rw [htimes, recent_concat]
      omega
  · intro x hx
    rcases List.mem_cons.1 (hmembers.subset hx) with rfl | hx
    · exact le_rfl
    · have hscore := h.scores x (List.mem_of_mem_filter hx)
      omega
  · intro d hd x hx
    cases hdeadline.symm.trans hd
    rcases List.mem_cons.1 (hmembers.subset hx) with rfl | hx
    · exact le_rfl
    · have hscore := h.scores x (List.mem_of_mem_filter hx)
      omega
  · rcases hadmitted with htimes | ⟨hroom, htimes⟩
    · rw [htimes]
      exact h.bounded
    · rw [htimes]
      apply h.bounded.concat
      have hcounted := h.counted t.clock (by omega)
      rw [← recent_unexpired le_rfl] at hcounted
      have hlen : recent (windowMs : Int) t.clock ((unexpired windowMs t.clock
          (s.db.members ("rl:" ++ key))).map fun x => x.2) ≤ _ := List.countP_le_length
      rw [List.length_map] at hlen
      omega

theorem RedisLimiter.Tracks.step (h : s.Tracks key max windowMs) (ht : s.step now e = some t)
    (he : e.Limits key max windowMs) : t.Tracks key max windowMs := by
  obtain ⟨hclock, rfl, ⟨hdb, htimes⟩ | ⟨d, hd, hdue, hdb, htimes⟩ |
    ⟨member, hmembers, hdeadline, hadmitted⟩⟩ := RedisLimiter.step_cases ht he
  · exact h.keep hclock hdb htimes
  · exact h.expire hclock hd hdue hdb htimes
  · exact h.check hclock hmembers hdeadline hadmitted

/-- Every interval as long as the window holds no more admitted requests of a key than its limit. -/
theorem redisMachine_admitted (hs : redisMachine.init s) (hr : redisMachine.run s es = some t)
    (hes : ∀ e ∈ es, e.2.Limits key max windowMs) (start : Int) :
    countWithin (windowMs : Int) start (admittedTimes t.admitted key) ≤ max := by
  have hinit : s.Tracks key max windowMs := by
    have hmembers : s.db.members ("rl:" ++ key) = [] := by rw [RedisDb.members, hs.1]
    constructor
    · intro u _
      rw [hs.2]
      exact Nat.zero_le _
    · intro x hx
      rw [hmembers] at hx
      cases hx
    · intro d _ x hx
      rw [hmembers] at hx
      cases hx
    · rw [hs.2]
      exact bounded_nil
  have hstep : redisMachine.Preserves (fun _ e _ => e.2.Limits key max windowMs)
      fun s => s.Tracks key max windowMs :=
    fun _ _ _ h ht he => h.step ht he
  exact (hstep.run hinit (Machine.always_of_events fun e he _ _ => hes e he) hr).bounded start

/-- Checks of which the third and the fourth are refused, the fourth because of the third. -/
def loginChecks : List (Nat × RedisEvent) :=
  [(0, "x"), (9, "y"), (9, "z"), (12, "u")].map fun (now, uuid) =>
    (now, .check "login:ann" 2 10 uuid)

theorem redisMachine_admitted_loginChecks :
    ∃ t, redisMachine.run ⟨0, fun _ => none, []⟩ loginChecks = some t ∧
      admittedTimes t.admitted "login:ann" = [0, 9] ∧
      countWithin 10 5 (admittedTimes t.admitted "login:ann") ≤ 2 := by
  obtain ⟨t, ht, htimes⟩ : ∃ t, redisMachine.run ⟨0, fun _ => none, []⟩ loginChecks = some t ∧
      admittedTimes t.admitted "login:ann" = [0, 9] := ⟨_, rfl, by decide +kernel⟩
  have hchecks : ∀ e ∈ loginChecks, e.2.Limits "login:ann" 2 10 := by
    intro e he
    obtain ⟨x, -, rfl⟩ := List.mem_map.1 he
    exact fun _ => ⟨rfl, rfl⟩
  exact ⟨t, ht, htimes, redisMachine_admitted ⟨rfl, rfl⟩ ht hchecks 5⟩

end Leetrank
