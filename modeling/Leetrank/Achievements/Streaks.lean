import Leetrank.Achievements.DailyChallenge
import Leetrank.Library.Runs
import Mathlib.Data.List.Induction

namespace Leetrank
set_option autoImplicit true
open Runs

/-- The state after solves at the given instants. -/
def streakAfter (instants : List Int) : StreakState :=
  instants.foldl (fun state solvedAt => (applyDailySolve state (toUtcDayStart solvedAt)).state)
    noStreak

/-- The days of a list of instants. -/
def daysOf (instants : List Int) : Set Int := {day | day ∈ instants.map toUtcDayStart}

/-- What a state says of the days of all solves, of which the last is given. -/
structure Counts (days : Set Int) (last : Int) (state : StreakState) : Prop where
  lastSolvedDate : state.lastSolvedDate = some last
  last_mem : last ∈ days
  le_last : ∀ day ∈ days, day ≤ last
  current : ∃ k : Nat, state.currentStreak = k ∧ LengthAt days last k
  longest : ∃ k : Nat, state.longestStreak = k ∧ LongestLength days k

variable {days : Set Int} {last today : Int} {state : StreakState} {instants : List Int}

theorem toUtcDayStart_mono {a b : Int} (h : a ≤ b) : toUtcDayStart a ≤ toUtcDayStart b :=
  Int.ediv_le_ediv (by decide) h

/-- The first solve. -/
theorem Counts.first (today : Int) :
    Counts (insert today ∅) today (applyDailySolve noStreak today).state := by
  have hcurrent : LengthAt (insert today ∅) today 1 :=
    (lengthAt_zero (Set.notMem_empty (today - 1))).insert
  have hlongest := longestLength_empty.insert (fun x hx => absurd hx (Set.notMem_empty x)) hcurrent
  refine ⟨rfl, Set.mem_insert today ∅, fun day hday => ?_, ⟨1, rfl, hcurrent⟩, 1, rfl, hlongest⟩
  obtain rfl | hday := hday
  · exact le_rfl
  · exact absurd hday (Set.notMem_empty day)

/-- A solve on a later day extends the run that ends the day before, which may be empty. -/
theorem Counts.solve_later (h : Counts days last state) (hlt : last < today) :
    Counts (insert today days) today (applyDailySolve state today).state := by
  obtain ⟨k, hk, hcurrent⟩ := h.current
  obtain ⟨m, hm, hlongest⟩ := h.longest
  have hbelow : ∀ day ∈ days, day < today := fun day hday => (h.le_last day hday).trans_lt hlt
  obtain ⟨c, hc, hrun⟩ : ∃ c : Nat,
      (if today - 1 = last then state.currentStreak + 1 else 1) = (c + 1 : Nat) ∧
        LengthAt days (today - 1) c := by
    by_cases hnext : today - 1 = last
    · refine ⟨k, ?_, hnext ▸ hcurrent⟩
      rw [if_pos hnext, hk, Nat.cast_succ]
    · refine ⟨0, if_neg hnext, lengthAt_zero fun hmem => ?_⟩
      have hle := h.le_last _ hmem
      omega
  rw [applyDailySolve_of_lt h.lastSolvedDate hlt]
  refine ⟨rfl, Set.mem_insert today days, fun day hday => ?_, ⟨c + 1, hc, hrun.insert⟩,
    max m (c + 1), ?_, hlongest.insert hbelow hrun.insert⟩
  · obtain rfl | hday := hday
    · exact le_rfl
    · exact (hbelow day hday).le
  · change max state.longestStreak _ = _
    rw [hc, hm]
    omega

theorem Counts.solve (h : Counts days last state) (hle : last ≤ today) :
    Counts (insert today days) today (applyDailySolve state today).state := by
  obtain rfl | hlt := hle.eq_or_lt
  · rw [applyDailySolve_of_le h.lastSolvedDate le_rfl, Set.insert_eq_of_mem h.last_mem]
    exact h
  · exact h.solve_later hlt

theorem daysOf_concat (instants : List Int) (solvedAt : Int) :
    daysOf (instants ++ [solvedAt]) = insert (toUtcDayStart solvedAt) (daysOf instants) := by
  ext day
  rw [daysOf, Set.mem_ofPred_eq, List.map_append, List.mem_append, List.map_singleton,
    List.mem_singleton, Set.mem_insert_iff, or_comm]
  rfl

theorem streakAfter_concat (instants : List Int) (solvedAt : Int) :
    streakAfter (instants ++ [solvedAt]) =
      (applyDailySolve (streakAfter instants) (toUtcDayStart solvedAt)).state := by
  rw [streakAfter, List.foldl_append, ← streakAfter]
  rfl

/-- The fold counts the runs of all days so far. -/
theorem counts_streakAfter (hs : instants.Pairwise (· ≤ ·))
    (hlast : instants.getLast? = some last) :
    Counts (daysOf instants) (toUtcDayStart last) (streakAfter instants) := by
  induction instants using List.reverseRecOn generalizing last with
  | nil => cases hlast
  | append_singleton instants solvedAt ih =>
    rw [List.getLast?_concat, Option.some.injEq] at hlast
    subst hlast
    rw [daysOf_concat, streakAfter_concat]
    obtain ⟨hsorted, -, hle⟩ := List.pairwise_append.1 hs
    cases hprev : instants.getLast? with
    | none =>
      rw [List.getLast?_eq_none_iff] at hprev
      subst hprev
      have hempty : daysOf [] = ∅ := Set.eq_empty_of_forall_notMem fun _ => List.not_mem_nil
      rw [hempty]
      exact Counts.first (toUtcDayStart solvedAt)
    | some prev =>
      have hprevle := hle prev (List.mem_of_getLast? hprev) solvedAt (List.mem_singleton_self _)
      exact (ih hsorted hprev).solve (toUtcDayStart_mono hprevle)

/-- The longest streak never decreases, from any state. -/
theorem longestStreak_le (state : StreakState) (today : Int) :
    state.longestStreak ≤ (applyDailySolve state today).state.longestStreak := by
  cases hlast : state.lastSolvedDate with
  | none =>
    simp only [applyDailySolve, hlast]
    exact le_max_right ..
  | some last =>
    obtain hle | hlt := le_or_gt today last
    · rw [applyDailySolve_of_le hlast hle]
    · rw [applyDailySolve_of_lt hlast hlt]
      exact le_max_left ..

theorem longestStreak_take_le (instants : List Int) {i j : Nat} (h : i ≤ j) :
    (streakAfter (instants.take i)).longestStreak ≤
      (streakAfter (instants.take j)).longestStreak := by
  induction h with
  | refl => exact le_rfl
  | @step j h ih =>
    rw [List.take_add_one]
    cases instants[j]? with
    | none => rwa [Option.toList_none, List.append_nil]
    | some solvedAt =>
      rw [Option.toList_some, streakAfter_concat]
      exact ih.trans (longestStreak_le ..)

/-- The current streak is one of the runs. -/
theorem currentStreak_le (hs : instants.Pairwise (· ≤ ·)) :
    (streakAfter instants).currentStreak ≤ (streakAfter instants).longestStreak := by
  cases hlast : instants.getLast? with
  | none =>
    rw [List.getLast?_eq_none_iff] at hlast
    rw [hlast]
    decide
  | some last =>
    have h := counts_streakAfter hs hlast
    obtain ⟨k, hk, hcurrent⟩ := h.current
    obtain ⟨m, hm, hlongest⟩ := h.longest
    rw [hk, hm, Nat.cast_le]
    exact hlongest.2 ⟨_, hcurrent.1⟩

/-- The streaks are the lengths of the run that ends at the last day and of the longest run. -/
theorem streak_fold (instants : List Int) (hs : instants.Pairwise (· ≤ ·)) :
    (∀ last, instants.getLast? = some last → ∃ k : Nat,
        (streakAfter instants).currentStreak = k ∧
          LengthAt (daysOf instants) (toUtcDayStart last) k) ∧
      (∃ k : Nat, (streakAfter instants).longestStreak = k ∧ LongestLength (daysOf instants) k) ∧
      (∀ i, (streakAfter (instants.take i)).currentStreak ≤
        (streakAfter (instants.take i)).longestStreak) ∧
      (∀ i j, i ≤ j → (streakAfter (instants.take i)).longestStreak ≤
        (streakAfter (instants.take j)).longestStreak) ∧
      ∀ prev day solvedAt, prev.lastSolvedDate = some day → toUtcDayStart solvedAt ≤ day →
        (applyDailySolve prev (toUtcDayStart solvedAt)).state.currentStreak = prev.currentStreak ∧
          (applyDailySolve prev (toUtcDayStart solvedAt)).state.longestStreak =
            prev.longestStreak ∧
          (applyDailySolve prev (toUtcDayStart solvedAt)).advanced = false := by
  refine ⟨fun last hlast => (counts_streakAfter hs hlast).current, ?_, fun i => ?_,
    fun i j h => longestStreak_take_le instants h, fun prev day solvedAt hlast hle => ?_⟩
  · cases hlast : instants.getLast? with
    | none =>
      rw [List.getLast?_eq_none_iff] at hlast
      subst hlast
      have hempty : daysOf [] = ∅ := Set.eq_empty_of_forall_notMem fun _ => List.not_mem_nil
      exact ⟨0, rfl, hempty ▸ longestLength_empty⟩
    | some last => exact (counts_streakAfter hs hlast).longest
  · exact currentStreak_le (hs.sublist (List.take_sublist i instants))
  · rw [applyDailySolve_of_le hlast hle]
    exact ⟨rfl, rfl, rfl⟩

/-- Solves on two consecutive days and, after a gap, twice on a third one. -/
theorem streak_fold_gap :
    (∃ k : Nat, (streakAfter [0, 90000000, 400000000, 400000001]).currentStreak = k ∧
        LengthAt (daysOf [0, 90000000, 400000000, 400000001]) (toUtcDayStart 400000001) k) ∧
      ∃ k : Nat, (streakAfter [0, 90000000, 400000000, 400000001]).longestStreak = k ∧
        LongestLength (daysOf [0, 90000000, 400000000, 400000001]) k := by
  obtain ⟨hcurrent, hlongest, -⟩ :=
    streak_fold [0, 90000000, 400000000, 400000001] (by decide)
  exact ⟨hcurrent _ rfl, hlongest⟩

end Leetrank
