import Mathlib.Logic.Function.Basic

namespace Leetrank
set_option autoImplicit true

/-- A date at UTC midnight is the number of the day. -/
def toUtcDayStart (ms : Int) : Int := ms / (24 * 60 * 60 * 1000)

def daysBetweenUtc (a b : Int) : Int := b - a

/-- A row of `DailyChallengeStreak`, whose date is always stored at UTC midnight. -/
structure StreakState where
  currentStreak : Int
  longestStreak : Int
  lastSolvedDate : Option Int
  deriving DecidableEq

structure StreakUpdate where
  state : StreakState
  advanced : Bool

def applyDailySolve (prev : StreakState) (today : Int) : StreakUpdate :=
  match prev.lastSolvedDate with
  | none => ⟨⟨1, max 1 prev.longestStreak, some today⟩, true⟩
  | some last =>
    let gap := daysBetweenUtc last today
    if gap = 0 then ⟨{ prev with lastSolvedDate := some last }, false⟩
    else if gap < 0 then ⟨{ prev with lastSolvedDate := some last }, false⟩
    else
      let nextStreak := if gap = 1 then prev.currentStreak + 1 else 1
      ⟨⟨nextStreak, max prev.longestStreak nextStreak, some today⟩, true⟩

structure DailyChallenge where
  id : String
  problemId : String

/-- The streaks of the users and how often each challenge was completed. -/
structure DailyTables where
  streaks : String → Option StreakState
  completions : String → Int

def noStreak : StreakState := ⟨0, 0, none⟩

def recordDailySolveIfApplicable (challenge : Int → Option DailyChallenge) (t : DailyTables)
    (userId problemId : String) (now : Int) : DailyTables :=
  let today := toUtcDayStart now
  match challenge today with
  | none => t
  | some c =>
    if c.problemId ≠ problemId then t
    else
      let update := applyDailySolve ((t.streaks userId).getD noStreak) today
      let state := { update.state with
        lastSolvedDate := some (update.state.lastSolvedDate.getD today) }
      { streaks := Function.update t.streaks userId (some state)
        completions :=
          if update.advanced then Function.update t.completions c.id (t.completions c.id + 1)
          else t.completions }

/-- The user has not solved a challenge of that day or of a later one. -/
def Unsolved (streak : Option StreakState) (today : Int) : Prop :=
  ∀ day, streak.bind StreakState.lastSolvedDate = some day → day < today

/-- The problem is the challenge of the day and the user has not solved it. -/
def AdvancesStreak (challenge : Int → Option DailyChallenge) (streak : Option StreakState)
    (problemId : String) (now : Int) : Prop :=
  (∃ c, challenge (toUtcDayStart now) = some c ∧ c.problemId = problemId) ∧
    Unsolved streak (toUtcDayStart now)

/-- A solve of the same day or of an earlier one changes nothing. -/
theorem applyDailySolve_of_le {state : StreakState} (hlast : state.lastSolvedDate = some last)
    (h : today ≤ last) : applyDailySolve state today = ⟨state, false⟩ := by
  have hsame : ({ state with lastSolvedDate := some last } : StreakState) = state := by
    rw [← hlast]
  by_cases hgap : daysBetweenUtc last today = 0
  · simp only [applyDailySolve, hlast, hgap, if_true, hsame]
  · have hneg : daysBetweenUtc last today < 0 := by
      rw [daysBetweenUtc] at hgap ⊢
      omega
    simp only [applyDailySolve, hlast, hgap, hneg, if_true, if_false, hsame]

/-- A solve of a later day extends the streak or starts a new one. -/
theorem applyDailySolve_of_lt {state : StreakState} (hlast : state.lastSolvedDate = some last)
    (h : last < today) :
    applyDailySolve state today =
      let nextStreak := if today - 1 = last then state.currentStreak + 1 else 1
      ⟨⟨nextStreak, max state.longestStreak nextStreak, some today⟩, true⟩ := by
  have hzero : ¬daysBetweenUtc last today = 0 := by
    rw [daysBetweenUtc]
    omega
  have hneg : ¬daysBetweenUtc last today < 0 := by
    rw [daysBetweenUtc]
    omega
  have hone : daysBetweenUtc last today = 1 ↔ today - 1 = last := by
    rw [daysBetweenUtc]
    omega
  simp only [applyDailySolve, hlast, hzero, hneg, hone, if_false]

theorem applyDailySolve_unsolved {row : Option StreakState} (h : Unsolved row today) :
    (applyDailySolve (row.getD noStreak) today).state.lastSolvedDate = some today ∧
      (applyDailySolve (row.getD noStreak) today).advanced = true := by
  cases hlast : (row.getD noStreak).lastSolvedDate with
  | none => simp only [applyDailySolve, hlast, and_self]
  | some last =>
    have hlt : last < today := by
      apply h last
      cases row with
      | none => cases hlast
      | some streak => exact hlast
    rw [applyDailySolve_of_lt hlast hlt]
    exact ⟨rfl, rfl⟩

/-- Solving it again, or a challenge of an earlier day, changes nothing. -/
theorem applyDailySolve_solved {row : Option StreakState} (h : ¬Unsolved row today) :
    ∃ streak day, row = some streak ∧ streak.lastSolvedDate = some day ∧
      applyDailySolve streak today = ⟨streak, false⟩ := by
  simp only [Unsolved, not_forall] at h
  obtain ⟨day, hday, hle⟩ := h
  obtain ⟨streak, rfl, hlast⟩ := Option.bind_eq_some_iff.1 hday
  exact ⟨streak, day, rfl, hlast, applyDailySolve_of_le hlast (Int.not_lt.1 hle)⟩

variable {challenge : Int → Option DailyChallenge} {t : DailyTables} {userId problemId : String}
  {now : Int}

theorem recordDailySolve_advances (h : AdvancesStreak challenge (t.streaks userId) problemId now) :
    ∃ streak : StreakState, streak.lastSolvedDate = some (toUtcDayStart now) ∧
      (recordDailySolveIfApplicable challenge t userId problemId now).streaks =
        Function.update t.streaks userId (some streak) := by
  obtain ⟨⟨c, hc, hp⟩, hu⟩ := h
  have hlast := (applyDailySolve_unsolved hu).1
  have hstreaks : (recordDailySolveIfApplicable challenge t userId problemId now).streaks =
      Function.update t.streaks userId
        (some { (applyDailySolve ((t.streaks userId).getD noStreak) (toUtcDayStart now)).state with
          lastSolvedDate := some (toUtcDayStart now) }) := by
    simp only [recordDailySolveIfApplicable, hc, hp, hlast, ne_eq, not_true, if_false,
      Option.getD_some]
  exact ⟨_, rfl, hstreaks⟩

theorem recordDailySolve_quiet (h : ¬AdvancesStreak challenge (t.streaks userId) problemId now) :
    recordDailySolveIfApplicable challenge t userId problemId now = t := by
  simp only [recordDailySolveIfApplicable]
  split
  next => rfl
  next c hc =>
    by_cases hp : c.problemId = problemId
    · have hu : ¬Unsolved (t.streaks userId) (toUtcDayStart now) := fun hu => h ⟨⟨c, hc, hp⟩, hu⟩
      obtain ⟨streak, day, hrow, hlast, hsame⟩ := applyDailySolve_solved hu
      have hstate : ({ streak with lastSolvedDate := some day } : StreakState) = streak := by
        rw [← hlast]
      simp only [hp, hrow, hsame, hlast, hstate, ne_eq, not_true, if_false, Option.getD_some,
        Bool.false_eq_true]
      rw [← hrow, Function.update_eq_self]
    · rw [if_pos hp]

end Leetrank
