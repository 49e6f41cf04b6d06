import Leetrank.Achievements.SolvedSets
import Leetrank.Library.ListRuns

namespace Leetrank
set_option autoImplicit true

open ListRuns

/-- The loop of `_current_streak` over the reversed cells; it breaks at a day without a solve. -/
def currentLoop : Nat → List Int → Nat
  | streak, [] => streak
  | streak, v :: cells => if 0 < v then currentLoop (streak + 1) cells else streak

def currentStreak (cells : List Int) : Nat := currentLoop 0 cells.reverse

/-- The loop of `_longest_streak`. -/
def longestLoop : Nat → Nat → List Int → Nat
  | longest, _, [] => longest
  | longest, cur, v :: cells =>
    if 0 < v then longestLoop (max longest (cur + 1)) (cur + 1) cells
    else longestLoop longest 0 cells

def longestStreak (cells : List Int) : Nat := longestLoop 0 0 cells

theorem currentLoop_add (streak : Nat) (cells : List Int) :
    currentLoop streak cells = streak + currentLoop 0 cells := by
  induction cells generalizing streak with
  | nil => rfl
  | cons v cells ih =>
    rw [currentLoop, currentLoop]
    split
    next =>
      rw [ih, ih (0 + 1)]
      omega
    next => rfl

theorem isGreatest_currentStreak (cells : List Int) :
    IsGreatest (EndRuns (0 < ·) cells) (currentStreak cells) := by
  induction cells using List.reverseRecOn with
  | nil => exact isGreatest_endRuns_nil _
  | append_singleton cells v ih =>
    rw [currentStreak, List.reverse_concat, currentLoop]
    split
    next hv =>
      rw [currentLoop_add, Nat.add_comm]
      exact isGreatest_endRuns_concat ih hv
    next hv => exact isGreatest_endRuns_concat_of_not cells hv

/-- The counters are the longest run of the cells that the loop has gone through, and the run at
their end. -/
theorem isGreatest_longestLoop {seen : List Int} {longest cur : Nat} (cells : List Int)
    (hlongest : IsGreatest (InnerRuns (0 < ·) seen) longest)
    (hcur : IsGreatest (EndRuns (0 < ·) seen) cur) :
    IsGreatest (InnerRuns (0 < ·) (seen ++ cells)) (longestLoop longest cur cells) := by
  induction cells generalizing seen longest cur with
  | nil =>
    rw [List.append_nil]
    exact hlongest
  | cons v cells ih =>
    rw [List.append_cons, longestLoop]
    split
    next hv =>
      have hend := isGreatest_endRuns_concat hcur hv
      exact ih (isGreatest_innerRuns_concat hlongest hend) hend
    next hv =>
      have hend := isGreatest_endRuns_concat_of_not seen hv
      have hinner := isGreatest_innerRuns_concat hlongest hend
      rw [Nat.max_zero] at hinner
      exact ih hinner hend

/-- The streaks of a heatmap are the lengths of the longest run of days with a solve, and of the run
of such days up to the last one. -/
theorem heatmap_streaks (cells : List Int) :
    IsGreatest {k | ∃ run, run <:+: cells ∧ (∀ v ∈ run, 0 < v) ∧ run.length = k}
      (longestStreak cells) ∧
    IsGreatest {k | ∃ run, run <:+ cells ∧ (∀ v ∈ run, 0 < v) ∧ run.length = k}
      (currentStreak cells) ∧
    currentStreak cells ≤ longestStreak cells ∧ longestStreak cells ≤ cells.length := by
  have hlongest : IsGreatest (InnerRuns (0 < ·) cells) (longestStreak cells) :=
    isGreatest_longestLoop cells (isGreatest_innerRuns_nil _) (isGreatest_endRuns_nil _)
  have hcurrent := isGreatest_currentStreak cells
  refine ⟨hlongest, hcurrent, ?_, ?_⟩
  · exact hlongest.2 (endRuns_subset _ _ hcurrent.1)
  · exact le_length_of_innerRuns hlongest.1

theorem currentLoop_ofNat (cells : List Nat) :
    currentLoop 0 (cells.map Int.ofNat) = (cells.takeWhile (0 < ·)).length := by
  induction cells with
  | nil => rfl
  | cons v cells ih =>
    have hpos : 0 < Int.ofNat v ↔ 0 < v := Int.natCast_pos
    rw [List.map_cons, currentLoop, List.takeWhile_cons]
    by_cases hv : 0 < v
    · rw [if_pos (hpos.2 hv), currentLoop_add, ih, if_pos (decide_eq_true hv), List.length_cons]
      omega
    · rw [if_neg fun h => hv (hpos.1 h), if_neg fun h => hv (of_decide_eq_true h)]
      rfl

theorem longestLoop_ofNat (longest cur : Nat) (cells : List Nat) :
    longestLoop longest cur (cells.map Int.ofNat) =
      (cells.foldl (fun (longest, cur) v =>
        if 0 < v then (max longest (cur + 1), cur + 1) else (longest, 0)) (longest, cur)).1 := by
  induction cells generalizing longest cur with
  | nil => rfl
  | cons v cells ih =>
    have hpos : 0 < Int.ofNat v ↔ 0 < v := Int.natCast_pos
    rw [List.map_cons, longestLoop, List.foldl_cons]
    by_cases hv : 0 < v
    · rw [if_pos (hpos.2 hv), ih]
      simp only [hv, if_true]
    · rw [if_neg fun h => hv (hpos.1 h), ih]
      simp only [hv, if_false]

/-- On the counts of a heatmap the loops are its streaks. -/
theorem streaks_of_counts (cells : List Nat) :
    currentStreakOf cells = currentStreak (cells.map Int.ofNat) ∧
      longestStreakOf cells = longestStreak (cells.map Int.ofNat) := by
  constructor
  · rw [currentStreak, ← List.map_reverse, currentLoop_ofNat]
    rfl
  · exact (longestLoop_ofNat 0 0 cells).symm

end Leetrank
