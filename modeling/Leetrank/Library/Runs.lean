import Mathlib.Algebra.Order.Ring.Int
import Mathlib.Order.Bounds.Basic
import Mathlib.Data.Set.Insert

namespace Runs
set_option autoImplicit true

/-- Consecutive numbers of a set, the last one given. -/
def Run (s : Set Int) (last : Int) (k : Nat) : Prop := ∀ i : Nat, i < k → last - i ∈ s

/-- The length of the longest run that ends at a number. -/
def LengthAt (s : Set Int) (last : Int) (k : Nat) : Prop := IsGreatest {k | Run s last k} k

/-- The length of the longest run. -/
def LongestLength (s : Set Int) (k : Nat) : Prop := IsGreatest {k | ∃ last, Run s last k} k

variable {s : Set Int} {t last : Int} {k c : Nat}

theorem run_zero (s : Set Int) (last : Int) : Run s last 0 :=
  fun _ h => absurd h (Nat.not_lt_zero _)

theorem Run.mono {s' : Set Int} (h : Run s last k) (hsub : s ⊆ s') : Run s' last k :=
  fun i hi => hsub (h i hi)

theorem Run.le (h : Run s last k) (hle : c ≤ k) : Run s last c :=
  fun i hi => h i (hi.trans_le hle)

/-- A run goes on from the number before its last one. -/
theorem run_succ_iff : Run s t (k + 1) ↔ t ∈ s ∧ Run s (t - 1) k := by
  constructor
  · intro h
    refine ⟨?_, fun i hi => ?_⟩
    · have hzero := h 0 k.succ_pos
      rwa [Nat.cast_zero, sub_zero] at hzero
    · have hnext := h (i + 1) (Nat.succ_lt_succ hi)
      rwa [Nat.cast_succ, add_comm, ← sub_sub] at hnext
  · rintro ⟨ht, h⟩ i hi
    cases i with
    | zero => rwa [Nat.cast_zero, sub_zero]
    | succ i =>
      have hnext := h i (Nat.lt_of_succ_lt_succ hi)
      rwa [Nat.cast_succ, add_comm, ← sub_sub]

/-- A later number does not change the runs that end before it. -/
theorem run_insert_iff (h : last < t) : Run (insert t s) last k ↔ Run s last k := by
  constructor
  · intro hrun i hi
    exact (hrun i hi).resolve_left (by omega)
  · intro hrun
    exact hrun.mono (Set.subset_insert t s)

theorem lengthAt_zero (h : last ∉ s) : LengthAt s last 0 := by
  refine ⟨run_zero s last, ?_⟩
  rintro (_ | k) hk
  · exact le_rfl
  · exact absurd (run_succ_iff.1 hk).1 h

/-- A new last number makes the run that ends just before it one longer. -/
theorem LengthAt.insert (h : LengthAt s (t - 1) c) : LengthAt (insert t s) t (c + 1) := by
  have hbefore : t - 1 < t := Int.sub_one_lt_of_le le_rfl
  constructor
  · exact run_succ_iff.2 ⟨Set.mem_insert t s, (run_insert_iff hbefore).2 h.1⟩
  · rintro (_ | k) hk
    · exact Nat.zero_le _
    · exact Nat.succ_le_succ (h.2 ((run_insert_iff hbefore).1 (run_succ_iff.1 hk).2))

/-- The longest run with a new last number is the old one or the one that ends there. -/
theorem LongestLength.insert {m : Nat} (h : LongestLength s m) (hlast : ∀ x ∈ s, x < t)
    (hc : LengthAt (insert t s) t c) : LongestLength (insert t s) (max m c) := by
  constructor
  · obtain hle | hle := le_total m c
    · rw [max_eq_right hle]
      exact ⟨t, hc.1⟩
    · rw [max_eq_left hle]
      obtain ⟨last, hrun⟩ := h.1
      exact ⟨last, hrun.mono (Set.subset_insert t s)⟩
  · rintro k ⟨last, hrun⟩
    obtain hlt | rfl | hgt := lt_trichotomy last t
    · exact le_max_of_le_left (h.2 ⟨last, (run_insert_iff hlt).1 hrun⟩)
    · exact le_max_of_le_right (hc.2 hrun)
    · cases k with
      | zero => exact Nat.zero_le _
      | succ k =>
        obtain rfl | hmem := (run_succ_iff.1 hrun).1
        · exact absurd hgt (lt_irrefl _)
        · exact absurd (hlast last hmem) (lt_asymm hgt)

theorem longestLength_empty : LongestLength ∅ 0 := by
  refine ⟨⟨0, run_zero ∅ 0⟩, ?_⟩
  rintro (_ | k) ⟨last, hrun⟩
  · exact le_rfl
  · exact absurd (run_succ_iff.1 hrun).1 (Set.notMem_empty last)

end Runs
