import Mathlib.Algebra.GroupWithZero.Nat
import Mathlib.Algebra.Order.Field.Basic
import Mathlib.Algebra.Order.Floor.Ring
import Mathlib.Algebra.Order.Ring.Cast

namespace Histogram
set_option autoImplicit true

/-- How many elements of a list go into each of `n` cells. -/
def counts (cell : α → Nat) (n : Nat) (l : List α) : List Nat :=
  l.foldl (fun cs a => cs.modify (cell a) (· + 1)) (List.replicate n 0)

variable {cell : α → Nat} {n i : Nat} {l : List α} {cs : List Nat}

theorem length_foldl_modify :
    (l.foldl (fun cs a => cs.modify (cell a) (· + 1)) cs).length = cs.length := by
  induction l generalizing cs with
  | nil => rfl
  | cons a l ih => rw [List.foldl_cons, ih, List.length_modify]

theorem getElem?_foldl_modify :
    (l.foldl (fun cs a => cs.modify (cell a) (· + 1)) cs)[i]? =
      cs[i]?.map (· + l.countP fun a => cell a = i) := by
  induction l generalizing cs with
  | nil => exact Option.map_id'.symm
  | cons a l ih =>
    rw [List.foldl_cons, ih, List.getElem?_modify, Option.map_eq_map, Option.map_map]
    apply congrArg (Option.map · _)
    funext c
    rw [Function.comp_apply, List.countP_cons]
    by_cases ha : cell a = i
    · rw [if_pos ha, if_pos (decide_eq_true ha)]
      omega
    · rw [if_neg ha, if_neg (by simpa using ha), Nat.add_zero]

theorem sum_modify (h : i < cs.length) : (cs.modify i (· + 1)).sum = cs.sum + 1 := by
  induction cs generalizing i with
  | nil => exact absurd h (Nat.not_lt_zero i)
  | cons c cs ih =>
    cases i with
    | zero =>
      rw [List.modify_zero_cons, List.sum_cons, List.sum_cons]
      omega
    | succ i =>
      rw [List.modify_succ_cons, List.sum_cons, List.sum_cons, ih (Nat.lt_of_succ_lt_succ h)]
      omega

theorem sum_foldl_modify (h : ∀ a ∈ l, cell a < cs.length) :
    (l.foldl (fun cs a => cs.modify (cell a) (· + 1)) cs).sum = cs.sum + l.length := by
  induction l generalizing cs with
  | nil => rfl
  | cons a l ih =>
    rw [List.forall_mem_cons] at h
    have hrest : ∀ b ∈ l, cell b < (cs.modify (cell a) (· + 1)).length := by
      intro b hb
      rw [List.length_modify]
      exact h.2 b hb
    rw [List.foldl_cons, ih hrest, sum_modify h.1, List.length_cons]
    omega

@[simp]
theorem length_counts (cell : α → Nat) (n : Nat) (l : List α) : (counts cell n l).length = n := by
  rw [counts, length_foldl_modify, List.length_replicate]

/-- A cell holds the number of the elements that go into it. -/
theorem getElem?_counts (hi : i < n) :
    (counts cell n l)[i]? = some (l.countP fun a => cell a = i) := by
  rw [counts, getElem?_foldl_modify, List.getElem?_replicate, if_pos hi, Option.map_some,
    Nat.zero_add]

/-- No element is lost if each has a cell. -/
theorem sum_counts (h : ∀ a ∈ l, cell a < n) : (counts cell n l).sum = l.length := by
  rw [counts, sum_foldl_modify, List.sum_replicate_nat, Nat.mul_zero, Nat.zero_add]
  intro a ha
  rw [List.length_replicate]
  exact h a ha

section Intervals

variable {K : Type u} [Field K] {lo hi r width : K}

/-- The last of `n` intervals of one width ends where the whole interval does. -/
theorem last_end [CharZero K] (hn : n ≠ 0) : lo + (hi - lo) / n * n = hi := by
  rw [div_mul_cancel₀ _ (Nat.cast_ne_zero.2 hn), add_sub_cancel]

variable [LinearOrder K] [IsStrictOrderedRing K] [FloorRing K]

theorem floor_div_nonneg (hw : 0 < width) (hlo : lo ≤ r) : 0 ≤ ⌊(r - lo) / width⌋ :=
  Int.floor_nonneg.2 (div_nonneg (sub_nonneg.2 hlo) hw.le)

theorem le_floor_div_iff {z : Int} (hw : 0 < width) :
    z ≤ ⌊(r - lo) / width⌋ ↔ lo + width * z ≤ r := by
  rw [Int.le_floor, le_div_iff₀ hw, le_sub_iff_add_le, mul_comm width, add_comm lo]

end Intervals

end Histogram
