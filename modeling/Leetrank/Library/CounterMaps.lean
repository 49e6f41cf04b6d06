import Leetrank.Library.MachineInt
import Mathlib.Logic.Function.Basic

namespace CounterMaps
set_option autoImplicit true

/-- A map of counters; a key that is absent reads 0. -/
abbrev CounterMap (κ : Type u) := κ → Option Int64

def CounterMap.read (m : CounterMap κ) (k : κ) : Int64 := (m k).getD 0

/-- The counters are these numbers, and there is no entry for a number that is 0. -/
def Tracks (m : CounterMap κ) (n : κ → Nat) : Prop :=
  ∀ k, (m k).map Int64.toInt = if n k = 0 then none else some (n k : Int)

variable {m : CounterMap κ} {n : κ → Nat} {k : κ} {v : Int64} {j : Nat}

theorem tracks_empty : Tracks (fun _ : κ => none) fun _ => 0 := fun _ => rfl

theorem Tracks.toInt_read (h : Tracks m n) (k : κ) : (m.read k).toInt = n k := by
  have hk := h k
  rw [CounterMap.read]
  cases hm : m k with
  | none =>
    rw [hm, Option.map_none] at hk
    split at hk
    next hn =>
      rw [hn]
      rfl
    next => cases hk
  | some v =>
    rw [hm, Option.map_some] at hk
    split at hk
    next => cases hk
    next => exact Option.some.inj hk

theorem Tracks.read_pos_iff (h : Tracks m n) (k : κ) : 0 < m.read k ↔ 0 < n k := by
  have hzero : (0 : Int64).toInt = 0 := rfl
  rw [Int64.lt_iff_toInt_lt, h.toInt_read, hzero]
  exact Int.natCast_pos

/-- Counting up does not leave the range of the integers where a counter is below some integer. -/
theorem Tracks.toInt_succ {cap : Int64} (h : Tracks m n) (hcap : (n k : Int) < cap.toInt) :
    (m.read k + 1).toInt = (n k + 1 : Nat) := by
  have hread := h.toInt_read k
  have hone : (1 : Int64).toInt = 1 := rfl
  have hlt := cap.toInt_lt
  rw [MachineInt.toInt_add_of_fits, hread, hone]
  · rfl
  · rw [hread, hone]
    exact ⟨by omega, by omega⟩

theorem Tracks.toInt_pred (h : Tracks m n) (hpos : 0 < n k) :
    (m.read k - 1).toInt = (n k - 1 : Nat) := by
  have hread := h.toInt_read k
  have hone : (1 : Int64).toInt = 1 := rfl
  have hlt := (m.read k).toInt_lt
  rw [MachineInt.toInt_sub_of_fits, hread, hone]
  · omega
  · rw [hread, hone]
    exact ⟨by omega, by omega⟩

theorem Tracks.ne_zero (h : Tracks m n) (k : κ) : m k ≠ some 0 := by
  intro hm
  have hk := h k
  rw [hm, Option.map_some] at hk
  split at hk
  next => cases hk
  next hn =>
    have hzero : (0 : Int) = n k := Option.some.inj hk
    omega

variable [DecidableEq κ]

def CounterMap.set (m : CounterMap κ) (k : κ) (v : Int64) : CounterMap κ :=
  Function.update m k (some v)

def CounterMap.delete (m : CounterMap κ) (k : κ) : CounterMap κ := Function.update m k none

@[simp] theorem CounterMap.read_set (m : CounterMap κ) (k : κ) (v : Int64) :
    (m.set k v).read k = v := by
  rw [CounterMap.read, CounterMap.set, Function.update_self, Option.getD_some]

@[simp] theorem CounterMap.delete_set (m : CounterMap κ) (k : κ) (v : Int64) :
    (m.set k v).delete k = m.delete k := Function.update_idem _ _ m

theorem Tracks.set (h : Tracks m n) (hv : v.toInt = j) (hpos : 0 < j) :
    Tracks (m.set k v) (Function.update n k j) := by
  intro i
  by_cases hi : i = k
  · subst hi
    rw [CounterMap.set, Function.update_self, Function.update_self, if_neg (Nat.ne_of_gt hpos),
      ← hv]
    rfl
  · rw [CounterMap.set, Function.update_of_ne hi, Function.update_of_ne hi]
    exact h i

theorem Tracks.delete (h : Tracks m n) : Tracks (m.delete k) (Function.update n k 0) := by
  intro i
  by_cases hi : i = k
  · subst hi
    rw [CounterMap.delete, Function.update_self, Function.update_self]
    rfl
  · rw [CounterMap.delete, Function.update_of_ne hi, Function.update_of_ne hi]
    exact h i

end CounterMaps
