import Mathlib.Data.Set.Card
import Leetrank.Achievements.DailyChallenge
import Leetrank.Library.Threads

namespace Leetrank
set_option autoImplicit true

open EventMachine Threads

/-- Where a call of `recordDailySolveIfApplicable` stands, each time before its next statement. -/
inductive SolvePc where
  | finding (user : String)
  | selecting (user : String) (c : DailyChallenge)
  | upserting (user : String) (c : DailyChallenge) (u : StreakUpdate)
  | counting (c : DailyChallenge)
  | returned (advanced matchedDailyChallenge : Bool)
  | threw

def DailyTables.upsert (t : DailyTables) (user : String) (u : StreakUpdate) (today : Int) :
    DailyTables :=
  { t with
    streaks := Function.update t.streaks user
      (some { u.state with lastSolvedDate := some (u.state.lastSolvedDate.getD today) }) }

def DailyTables.increment (t : DailyTables) (id : String) : DailyTables :=
  { t with completions := Function.update t.completions id (t.completions id + 1) }

def SolvePc.statement (challenge : Int → Option DailyChallenge) (problemId : String) (today : Int)
    (t : DailyTables) : SolvePc → Option (DailyTables × SolvePc)
  | .finding user =>
    match challenge today with
    | none => some (t, .returned false false)
    | some c =>
      if c.problemId ≠ problemId then some (t, .returned false false)
      else some (t, .selecting user c)
  | .selecting user c =>
    some (t, .upserting user c (applyDailySolve ((t.streaks user).getD noStreak) today))
  | .upserting user c u =>
    some (t.upsert user u today, if u.advanced then .counting c else .returned false true)
  | .counting c => some (t.increment c.id, .returned true true)
  | .returned _ _ | .threw => none

def solveStep (challenge : Int → Option DailyChallenge) (problemId : String) (today : Int) :
    DailyTables → Nat → SolvePc → Outcome → Option (DailyTables × SolvePc) :=
  statementStep (SolvePc.statement challenge problemId today) fun _ => .threw

/-- Any number of calls for accepted submissions of one problem, by any users on one day. -/
def solveProgram (challenge : Int → Option DailyChallenge) (problemId : String) (today : Int) :
    Program DailyTables SolvePc String Empty Outcome where
  start := fun _ user => .finding user
  ambient := fun t _ => t
  step := solveStep challenge problemId today

def DailyTables.dateOf (t : DailyTables) (user : String) : Option Int :=
  (t.streaks user).bind StreakState.lastSolvedDate

/-- The users whose date is the day. -/
def DailyTables.solvers (t : DailyTables) (today : Int) : Set String :=
  {user | t.dateOf user = some today}

/-- A day on which the challenge has not been solved yet. -/
def solveMachine (challenge : Int → Option DailyChallenge) (problemId : String) (today : Int) :
    Machine (World DailyTables SolvePc) (Event String Empty Outcome) :=
  (solveProgram challenge problemId today).machine fun t =>
    (∀ c, challenge today = some c → t.completions c.id = 0) ∧ t.solvers today = ∅

def SolvePc.isOver : SolvePc → Bool
  | .returned _ _ | .threw => true
  | _ => false

def SolvePc.isCounting : SolvePc → Bool
  | .counting _ => true
  | _ => false

/-- An upsert that advances a streak which another call of the user has advanced already. -/
def staleUpsert (today : Int) (t : DailyTables) : SolvePc → Outcome → Nat
  | .upserting user _ u, .proceed | .upserting user _ u, .lost =>
    if u.advanced = true ∧ t.dateOf user = some today then 1 else 0
  | _, _ => 0

/-- A call that has advanced a streak and fails before the completion is counted. -/
def lostIncrement (_ : DailyTables) : SolvePc → Outcome → Nat
  | .counting _, .fail => 1
  | .upserting _ _ u, .lost => u.advanced.toNat
  | _, _ => 0

/-- What a call knows of the streak of its user: an update that advances it is for a date that has
not passed the day, and any other update repeats a date that has come to the day. -/
def SolvePc.Sound (challenge : Int → Option DailyChallenge) (today : Int) (t : DailyTables) :
    SolvePc → Prop
  | .selecting _ c | .counting c => challenge today = some c
  | .upserting user c u => challenge today = some c ∧
    ∃ day, u.state.lastSolvedDate = some day ∧
      if u.advanced = true then day = today ∧ ∀ last, t.dateOf user = some last → last ≤ today
      else t.dateOf user = some day ∧ today ≤ day
  | _ => True

/-- The call is before a statement that only reads. -/
def SolvePc.looks : SolvePc → Bool
  | .finding _ | .selecting _ _ => true
  | _ => false

/-- What a statement of a call does, and what the call knows after it. -/
inductive SolveMove (challenge : Int → Option DailyChallenge) (today : Int) (t : DailyTables) :
    SolvePc → DailyTables → SolvePc → Prop where
  | look (hp : p.looks = true) (hp' : p'.isCounting = false) (hs : p'.Sound challenge today t) :
    SolveMove challenge today t p t p'
  | upsert (user : String) (c : DailyChallenge) (u : StreakUpdate)
    (hc : challenge today = some c) :
    SolveMove challenge today t (.upserting user c u) (t.upsert user u today)
      (if u.advanced then .counting c else .returned false true)
  | count (c : DailyChallenge) (hc : challenge today = some c) :
    SolveMove challenge today t (.counting c) (t.increment c.id) (.returned true true)

variable {challenge : Int → Option DailyChallenge} {problemId user : String} {today : Int}
  {t t' : DailyTables} {w w' w₀ : World DailyTables SolvePc} {p p' q : SolvePc} {i : Nat}

theorem DailyTables.dateOf_upsert_self (hu : u.state.lastSolvedDate = some day) :
    (t.upsert user u today).dateOf user = some day := by
  simp only [DailyTables.dateOf, DailyTables.upsert, Function.update_self, Option.bind_some, hu,
    Option.getD_some]

theorem DailyTables.dateOf_upsert_of_ne (h : user' ≠ user) :
    (t.upsert user u today).dateOf user' = t.dateOf user' := by
  simp only [DailyTables.dateOf, DailyTables.upsert, Function.update_of_ne h]

/-- What the update computed from the row of a user is, by the date that was read. -/
theorem applyDailySolve_cases (row : Option StreakState) (today : Int) :
    let u := applyDailySolve (row.getD noStreak) today
    ∃ day, u.state.lastSolvedDate = some day ∧
      if u.advanced = true then
        day = today ∧ ∀ last, row.bind StreakState.lastSolvedDate = some last → last ≤ today
      else row.bind StreakState.lastSolvedDate = some day ∧ today ≤ day := by
  by_cases hu : Unsolved row today
  · obtain ⟨hlast, hadv⟩ := applyDailySolve_unsolved hu
    refine ⟨today, hlast, ?_⟩
    rw [if_pos hadv]
    exact ⟨rfl, fun last hlast => Int.le_of_lt (hu last hlast)⟩
  · obtain ⟨streak, day, rfl, hlast, he⟩ := applyDailySolve_solved hu
    change ∃ d, (applyDailySolve streak today).state.lastSolvedDate = some d ∧ _
    simp only [Option.getD_some, he, Option.bind_some, hlast, Bool.false_eq_true, if_false]
    refine ⟨day, rfl, rfl, ?_⟩
    by_contra hlt
    refine hu fun d hd => ?_
    rw [Option.bind_some, hlast] at hd
    cases hd
    exact Int.lt_of_not_ge hlt

/-- An update of one call leaves what another call knows true. -/
theorem SolvePc.Sound.upsert (h : (SolvePc.upserting user c u).Sound challenge today t)
    (hq : q.Sound challenge today t) : q.Sound challenge today (t.upsert user u today) := by
  obtain ⟨-, day, hday, hu⟩ := h
  cases q with
  | selecting | counting => exact hq
  | finding | returned | threw => trivial
  | upserting user' c' v =>
    obtain ⟨hc, day', hday', hv⟩ := hq
    refine ⟨hc, day', hday', ?_⟩
    by_cases huser : user' = user
    · subst huser
      rw [DailyTables.dateOf_upsert_self hday]
      by_cases hadv : u.advanced = true
      · rw [if_pos hadv] at hu
        obtain ⟨rfl, hpast⟩ := hu
        split
        next hadv' =>
          rw [if_pos hadv'] at hv
          refine ⟨hv.1, fun last hlast => ?_⟩
          cases hlast
          exact Int.le_refl _
        next hadv' =>
          rw [if_neg hadv'] at hv
          rw [Int.le_antisymm (hpast day' hv.1) hv.2]
          exact ⟨rfl, Int.le_refl _⟩
      · rw [if_neg hadv] at hu
        rw [← hu.1]
        exact hv
    · rw [DailyTables.dateOf_upsert_of_ne huser]
      exact hv

/-- The users who have solved the challenge after an update of one of them. -/
theorem SolvePc.Sound.solvers (h : (SolvePc.upserting user c u).Sound challenge today t) :
    (t.upsert user u today).solvers today =
      if u.advanced = true then insert user (t.solvers today) else t.solvers today := by
  obtain ⟨-, day, hday, hu⟩ := h
  have hof (user' : String) : user' ∈ (t.upsert user u today).solvers today ↔
      if user' = user then day = today else user' ∈ t.solvers today := by
    by_cases huser : user' = user
    · subst huser
      rw [if_pos rfl, DailyTables.solvers, Set.mem_ofPred_eq, DailyTables.dateOf_upsert_self hday,
        Option.some.injEq]
    · rw [if_neg huser, DailyTables.solvers, Set.mem_ofPred_eq,
        DailyTables.dateOf_upsert_of_ne huser]
      rfl
  ext user'
  rw [hof]
  by_cases hadv : u.advanced = true
  · rw [if_pos hadv] at hu ⊢
    rw [Set.mem_insert_iff]
    split
    next huser => exact iff_of_true hu.1 (.inl huser)
    next huser => exact (or_iff_right huser).symm
  · rw [if_neg hadv] at hu ⊢
    split
    next huser =>
      subst huser
      rw [DailyTables.solvers, Set.mem_ofPred_eq, hu.1, Option.some.injEq]
    next huser => rfl

theorem SolvePc.Sound.same (hq : q.Sound challenge today t) (h : t'.streaks = t.streaks) :
    q.Sound challenge today t' := by
  have hdate : t'.dateOf = t.dateOf := by
    funext user
    rw [DailyTables.dateOf, h, DailyTables.dateOf]
  cases q with
  | upserting user c u =>
    rw [SolvePc.Sound, hdate]
    exact hq
  | finding | selecting | counting | returned | threw => exact hq

theorem statement_move (hp : p.Sound challenge today t)
    (h : SolvePc.statement challenge problemId today t p = some (t', p')) :
    SolveMove challenge today t p t' p' := by
  cases p with
  | finding user =>
    simp only [SolvePc.statement] at h
    split at h
    next =>
      cases h
      exact .look rfl rfl trivial
    next c hc =>
      split at h
      next =>
        cases h
        exact .look rfl rfl trivial
      next =>
        cases h
        exact .look rfl rfl hc
  | selecting user c =>
    cases h
    exact .look rfl rfl ⟨hp, applyDailySolve_cases (t.streaks user) today⟩
  | upserting user c u =>
    cases h
    exact .upsert user c u hp.1
  | counting c =>
    cases h
    exact .count c hp
  | returned | threw => cases h

theorem DailyTables.solvers_increment (t : DailyTables) (id : String) :
    (t.increment id).solvers today = t.solvers today := rfl

/-- What is counted and about to be counted, beyond the users who have solved the challenge. -/
noncomputable def balance (id : String) (today : Int) (w : World DailyTables SolvePc) : Int :=
  w.shared.completions id + w.count SolvePc.isCounting - (w.shared.solvers today).ncard

/-- An update that advances a streak adds its user, unless the user is there already. -/
theorem SolvePc.Sound.ncard (h : (SolvePc.upserting user c u).Sound challenge today t)
    (hf : (t.solvers today).Finite) :
    ((t.upsert user u today).solvers today).ncard +
        staleUpsert today t (.upserting user c u) .proceed =
      (t.solvers today).ncard + u.advanced.toNat := by
  rw [h.solvers]
  have hmem : t.dateOf user = some today ↔ user ∈ t.solvers today := Iff.rfl
  simp only [staleUpsert, hmem]
  cases u.advanced with
  | false => simp
  | true =>
    by_cases huser : user ∈ t.solvers today
    · rw [if_pos rfl, Set.insert_eq_of_mem huser, if_pos ⟨rfl, huser⟩]
      rfl
    · rw [if_pos rfl, Set.ncard_insert_of_notMem huser hf, if_neg fun h => huser h.2]
      rfl

/-- A step counts a user once who has just solved the challenge, unless it is stale or fails. -/
theorem solveStep_balance (hc : challenge today = some c) (hf : (t.solvers today).Finite)
    (hp : p.Sound challenge today t)
    (h : solveStep challenge problemId today t i p x = some (t', p')) :
    t'.completions c.id + p'.isCounting.toNat - (t'.solvers today).ncard + lostIncrement t p x =
      t.completions c.id + p.isCounting.toNat - (t.solvers today).ncard +
        staleUpsert today t p x := by
  obtain ⟨⟨t₁, p₁⟩, hst, hx⟩ := Option.map_eq_some_iff.1 h
  cases statement_move hp hst with
  | look hlook hp₁ hs =>
    have hquiet : p.isCounting = false ∧ lostIncrement t p x = 0 ∧ staleUpsert today t p x = 0 := by
      cases p with
      | finding | selecting => cases x <;> exact ⟨rfl, rfl, rfl⟩
      | upserting | counting | returned | threw => cases hlook
    rw [hquiet.1, hquiet.2.1, hquiet.2.2]
    cases x with
    | proceed =>
      cases hx
      rw [hp₁]
    | fail | lost =>
      cases hx
      rfl
  | count c' hc' =>
    cases hc.symm.trans hc'
    have hinc : (t.increment c.id).completions c.id = t.completions c.id + 1 :=
      Function.update_self ..
    cases x with
    | proceed | lost =>
      cases hx
      rw [DailyTables.solvers_increment, hinc]
      simp [SolvePc.isCounting, lostIncrement, staleUpsert]
    | fail =>
      cases hx
      simp [SolvePc.isCounting, lostIncrement, staleUpsert]
      omega
  | upsert user c' u hc' =>
    have hcard := SolvePc.Sound.ncard hp hf
    have hcounts : (t.upsert user u today).completions = t.completions := rfl
    have hcounting : (if u.advanced then SolvePc.counting c' else .returned false true).isCounting =
        u.advanced := by cases u.advanced <;> rfl
    cases x with
    | proceed =>
      cases hx
      rw [hcounts, hcounting]
      simp only [SolvePc.isCounting, lostIncrement, Bool.toNat_false]
      omega
    | lost =>
      cases hx
      rw [hcounts]
      simp only [SolvePc.isCounting, lostIncrement, Bool.toNat_false]
      simp only [staleUpsert] at hcard ⊢
      omega
    | fail =>
      cases hx
      rfl

/-- A statement leaves what the calls know true. -/
theorem SolveMove.sound (h : SolveMove challenge today t p t' p')
    (hp : p.Sound challenge today t) (hf : (t.solvers today).Finite) :
    (t'.solvers today).Finite ∧ p'.Sound challenge today t' ∧
      ∀ q : SolvePc, q.Sound challenge today t → q.Sound challenge today t' := by
  cases h with
  | look hlook hp' hs => exact ⟨hf, hs, fun _ hq => hq⟩
  | count c hc => exact ⟨hf, trivial, fun _ hq => hq.same rfl⟩
  | upsert user c u hc =>
    refine ⟨?_, ?_, fun _ hq => SolvePc.Sound.upsert hp hq⟩
    · rw [SolvePc.Sound.solvers hp]
      split
      next => exact hf.insert user
      next => exact hf
    · split
      next => exact hc
      next => trivial

theorem solve_stable (challenge : Int → Option DailyChallenge) (problemId : String) (today : Int) :
    (solveProgram challenge problemId today).Stable (fun _ _ _ _ => True)
      (fun t => (t.solvers today).Finite)
      (fun t _ o => ∀ p, o = some p → p.Sound challenge today t) where
  start := by
    rintro t i user - - p hp
    cases hp
    trivial
  ambient := fun t x => nomatch x
  step := by
    intro t i p x t' p' hf hL _ h
    have hp := hL p rfl
    obtain ⟨⟨t₁, p₁⟩, hst, hx⟩ := Option.map_eq_some_iff.1 h
    obtain ⟨hf', hp', hothers⟩ := (statement_move hp hst).sound hp hf
    cases x with
    | proceed =>
      cases hx
      refine ⟨hf', fun q hq => ?_, fun j o _ ho q hq => hothers q (ho q hq)⟩
      cases hq
      exact hp'
    | fail =>
      cases hx
      refine ⟨hf, fun q hq => ?_, fun j o _ ho => ho⟩
      cases hq
      trivial
    | lost =>
      cases hx
      refine ⟨hf', fun q hq => ?_, fun j o _ ho q hq => hothers q (ho q hq)⟩
      cases hq
      trivial

/-- A call that nothing interrupts does what `recordDailySolveIfApplicable` does at once. -/
theorem solveProgram_alone (challenge : Int → Option DailyChallenge) (t : DailyTables)
    (user problemId : String) (now : Int) (i : Nat) :
    ∃ n p, p.isOver = true ∧
      (solveProgram challenge problemId (toUtcDayStart now)).alone i t (.finding user)
          (List.replicate n .proceed) =
        some (recordDailySolveIfApplicable challenge t user problemId now, p) := by
  cases hc : challenge (toUtcDayStart now) with
  | none =>
    refine ⟨1, .returned false false, rfl, ?_⟩
    simp [List.replicate, Program.alone, solveProgram, solveStep, statementStep, SolvePc.statement,
      recordDailySolveIfApplicable, hc]
  | some c =>
    by_cases hp : c.problemId = problemId
    · cases hadv : (applyDailySolve ((t.streaks user).getD noStreak)
          (toUtcDayStart now)).advanced with
      | true =>
        refine ⟨4, .returned true true, rfl, ?_⟩
        simp [List.replicate, Program.alone, solveProgram, solveStep, statementStep,
          SolvePc.statement, recordDailySolveIfApplicable, DailyTables.upsert,
          DailyTables.increment, hc, hp, hadv]
      | false =>
        refine ⟨3, .returned false true, rfl, ?_⟩
        simp [List.replicate, Program.alone, solveProgram, solveStep, statementStep,
          SolvePc.statement, recordDailySolveIfApplicable, DailyTables.upsert, hc, hp, hadv]
    · refine ⟨1, .returned false false, rfl, ?_⟩
      simp [List.replicate, Program.alone, solveProgram, solveStep, statementStep,
        SolvePc.statement, recordDailySolveIfApplicable, hc, hp]

/-- What holds of the tables and of each call throughout a run. -/
def SolvesSound (challenge : Int → Option DailyChallenge) (today : Int) :
    World DailyTables SolvePc → Prop :=
  Holds (fun t => (t.solvers today).Finite)
    (fun t _ o => ∀ p, o = some p → p.Sound challenge today t)

theorem balance_step (hc : challenge today = some c) (hw : SolvesSound challenge today w)
    (hs : (solveMachine challenge problemId today).step w e = some w') :
    balance c.id today w' + perStep lostIncrement w e =
      balance c.id today w + perStep (staleUpsert today) w e := by
  cases e with
  | spawn user =>
    cases hs
    rw [balance, World.count_append]
    rfl
  | ambient x => cases x
  | act i x =>
    obtain ⟨p, t', p', hi, hstep, rfl⟩ := Program.next_act hs
    have hcount := World.count_set hi t' p' SolvePc.isCounting
    have hstepbal := solveStep_balance (i := i) hc hw.1 (hw.2 i p hi) hstep
    rw [perStep_act hi, perStep_act hi, balance, balance]
    dsimp only
    omega

/-- A run counts one completion for each user who has solved the challenge exactly if its stale
updates are as many as the increments it loses. -/
theorem completions_counted_iff {es : List (Event String Empty Outcome)}
    (hc : challenge today = some c) (h₀ : (solveMachine challenge problemId today).init w₀)
    (hr : (solveMachine challenge problemId today).run w₀ es = some w)
    (hover : ∀ p ∈ w.threads, p.isOver = true) :
    w.shared.completions c.id = (w.shared.solvers today).ncard ↔
      (solveMachine challenge problemId today).total (perStep (staleUpsert today)) w₀ es =
        (solveMachine challenge problemId today).total (perStep lostIncrement) w₀ es := by
  have hinv : (solveMachine challenge problemId today).Invariant (SolvesSound challenge today) :=
    (solve_stable challenge problemId today).invariant _
  have hsound : SolvesSound challenge today w₀ := by
    refine holds_start h₀ fun t ht => ⟨?_, fun i p hp => nomatch hp⟩
    rw [ht.2]
    exact Set.finite_empty
  have hstep (v : World DailyTables SolvePc) (e : Event String Empty Outcome)
      (v' : World DailyTables SolvePc) (hv : SolvesSound challenge today v)
      (hs : (solveMachine challenge problemId today).step v e = some v') :=
    balance_step hc hv hs
  have hbal := hinv.run_balance hsound hstep hr
  have hstart : balance c.id today w₀ = 0 := by
    rw [balance, h₀.1.1 c hc, h₀.1.2, Set.ncard_empty, World.count, h₀.2]
    rfl
  have hend : w.count SolvePc.isCounting = 0 := by
    refine World.count_eq_zero fun p hp => ?_
    have hp' := hover p hp
    cases p with
    | finding | selecting | upserting | counting => cases hp'
    | returned | threw => rfl
  rw [hstart, balance, hend] at hbal
  omega

/-- The problem `p` is the challenge of the day of the runs below. -/
def challengeP : Int → Option DailyChallenge := fun _ => some ⟨"d1", "p"⟩

def noSolves : World DailyTables SolvePc := ⟨⟨fun _ => none, fun _ => 0⟩, []⟩

theorem noSolves_init : (solveMachine challengeP "p" 1).init noSolves := by
  refine ⟨⟨fun _ _ => rfl, ?_⟩, rfl⟩
  refine Set.eq_empty_iff_forall_notMem.2 fun user h => ?_
  cases h

/-- Two accepted submissions; the second reads its user's streak before the first one is done. -/
def twoSolves (first second : String) : List (Event String Empty Outcome) :=
  let solve (i : Nat) : List (Event String Empty Outcome) := List.replicate 2 (.act i .proceed)
  [.spawn first, .spawn second] ++ solve 0 ++ solve 1 ++ solve 0 ++ solve 1

theorem completions_counted_two :
    ∃ w, (solveMachine challengeP "p" 1).run noSolves (twoSolves "u" "v") = some w ∧
      w.shared.completions "d1" = 2 ∧
      w.shared.completions "d1" = (w.shared.solvers 1).ncard := by
  have hrun : ∃ w, (solveMachine challengeP "p" 1).run noSolves (twoSolves "u" "v") = some w ∧
      w.shared.completions "d1" = 2 ∧ w.threads.all SolvePc.isOver = true := ⟨_, rfl, rfl, rfl⟩
  obtain ⟨w, hr, hcount, hover⟩ := hrun
  have hc : challengeP 1 = some ⟨"d1", "p"⟩ := rfl
  refine ⟨w, hr, hcount, ?_⟩
  exact (completions_counted_iff hc noSolves_init hr (List.all_eq_true.1 hover)).2 (by decide)

/-- Two submissions of one user that are accepted at the same time count twice. -/
theorem completions_counted_twice :
    ∃ w, (solveMachine challengeP "p" 1).run noSolves (twoSolves "u" "u") = some w ∧
      w.threads = [.returned true true, .returned true true] ∧ w.shared.solvers 1 = {"u"} ∧
      w.shared.completions "d1" = 2 ∧
      w.shared.completions "d1" ≠ (w.shared.solvers 1).ncard := by
  have hrun : ∃ w, (solveMachine challengeP "p" 1).run noSolves (twoSolves "u" "u") = some w ∧
      w.threads = [.returned true true, .returned true true] ∧
      w.shared.streaks = Function.update (Function.update (fun _ => none) "u"
        (some ⟨1, 1, some 1⟩)) "u" (some ⟨1, 1, some 1⟩) ∧
      w.shared.completions "d1" = 2 := ⟨_, rfl, rfl, rfl, rfl⟩
  obtain ⟨w, hr, hthreads, hstreaks, hcount⟩ := hrun
  have hsolvers : w.shared.solvers 1 = {"u"} := by
    ext user
    rw [DailyTables.solvers, Set.mem_ofPred_eq, DailyTables.dateOf, hstreaks, Set.mem_singleton_iff]
    by_cases hu : user = "u"
    · subst hu
      simp
    · simp [hu]
  refine ⟨w, hr, hthreads, hsolvers, hcount, ?_⟩
  rw [hcount, hsolvers, Set.ncard_singleton]
  decide

end Leetrank
