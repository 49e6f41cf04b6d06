import Mathlib.Algebra.Order.Group.Defs
import Mathlib.Algebra.Order.Monoid.Unbundled.Basic
import Mathlib.Data.List.Count
import Mathlib.Data.List.Perm.Basic

namespace SlidingWindow
set_option autoImplicit true

variable {T : Type u} [AddCommGroup T] [LinearOrder T]

/-- How many of the times lie in the interval of length `W` that `t` starts. -/
def countWithin (W t : T) (times : List T) : Nat := times.countP fun a => t ≤ a ∧ a < t + W

/-- How many of the times are less than `W` ago. -/
def recent (W now : T) (times : List T) : Nat := times.countP fun a => now < a + W

/-- No half-open interval of length `W` has more than `n` of the times. -/
def Bounded (W : T) (n : Nat) (times : List T) : Prop := ∀ t, countWithin W t times ≤ n

/-- A window of length `W` that was opened at some time and counts up to `n`, with the times counted
since then and those before, of which too few are left for more than `2 * n - 1` in an interval. -/
structure Epoch (W : T) (n : Nat) (opened : T) (before current : List T) : Prop where
  first : ∃ rest, current = opened :: rest
  size : current.length ≤ n
  later : ∀ a ∈ current, opened ≤ a ∧ a ≤ opened + W
  earlier : ∀ a ∈ before, a < opened
  tail : ∀ t, opened < t + W → (before.countP fun a => t ≤ a) + 1 ≤ n
  bounded : Bounded W (2 * n - 1) (before ++ current)

variable {W t now opened : T} {n : Nat} {times before current : List T}

theorem bounded_nil : Bounded W n ([] : List T) := fun _ => Nat.zero_le n

theorem countWithin_concat (now : T) : countWithin W t (times ++ [now]) =
    countWithin W t times + if t ≤ now ∧ now < t + W then 1 else 0 := by
  rw [countWithin, List.countP_append, List.countP_singleton, countWithin]
  simp only [decide_eq_true_eq]

theorem recent_concat (a : T) : recent W now (times ++ [a]) =
    recent W now times + if now < a + W then 1 else 0 := by
  rw [recent, List.countP_append, List.countP_singleton, recent]
  simp only [decide_eq_true_eq]

theorem recent_perm {l : List T} (h : times.Perm l) : recent W now times = recent W now l :=
  h.countP_eq _

theorem recent_eq_zero (h : ∀ a ∈ times, a + W ≤ now) : recent W now times = 0 := by
  rw [recent, List.countP_eq_zero]
  intro a ha
  rw [decide_eq_true_eq, not_lt]
  exact h a ha

theorem countWithin_le_countP : countWithin W t times ≤ times.countP fun a => t ≤ a := by
  apply List.countP_mono_left
  simp only [decide_eq_true_eq]
  exact fun _ _ ha => ha.1

/-- The times from some time after the opening on are at most those after the first one. -/
theorem Epoch.countP_lt (h : Epoch W n opened before current) (ht : opened < t) :
    ((before ++ current).countP fun a => t ≤ a) < current.length := by
  obtain ⟨rest, hrest⟩ := h.first
  have hbefore : (before.countP fun a => t ≤ a) = 0 := by
    rw [List.countP_eq_zero]
    intro a ha
    rw [decide_eq_true_eq, not_le]
    exact (h.earlier a ha).trans ht
  rw [List.countP_append, hbefore, Nat.zero_add, hrest,
    List.countP_cons_of_neg (by simpa using ht), List.length_cons]
  exact Nat.lt_succ_of_le List.countP_le_length

/-- What has been counted since the window was opened. -/
theorem Epoch.countP_since (h : Epoch W n opened before current) :
    ((before ++ current).countP fun a => opened ≤ a) = current.length := by
  have hbefore : (before.countP fun a => opened ≤ a) = 0 := by
    rw [List.countP_eq_zero]
    intro a ha
    rw [decide_eq_true_eq, not_le]
    exact h.earlier a ha
  rw [List.countP_append, hbefore, Nat.zero_add, List.countP_eq_length]
  exact fun a ha => decide_eq_true (h.later a ha).1

/-- A window that is not full counts one more. -/
theorem Epoch.push (h : Epoch W n opened before current) (hroom : current.length < n)
    (hopened : opened ≤ now) (hnow : now ≤ opened + W) :
    Epoch W n opened before (current ++ [now]) where
  first := by
    obtain ⟨rest, rfl⟩ := h.first
    exact ⟨rest ++ [now], rfl⟩
  size := by
    rw [List.length_append, List.length_singleton]
    exact hroom
  later := by
    intro a ha
    rcases List.mem_append.1 ha with ha | ha
    · exact h.later a ha
    · rw [List.mem_singleton.1 ha]
      exact ⟨hopened, hnow⟩
  earlier := h.earlier
  tail := h.tail
  bounded := by
    intro t
    rw [← List.append_assoc, countWithin_concat]
    split
    next hin =>
      rcases le_or_gt t opened with ht | ht
      · have htail := h.tail t (hopened.trans_lt hin.2)
        have hbefore : countWithin W t before ≤ before.countP fun a => t ≤ a :=
          countWithin_le_countP
        have hcurrent : countWithin W t current ≤ current.length := List.countP_le_length
        have hsum : countWithin W t (before ++ current) =
            countWithin W t before + countWithin W t current :=
          List.countP_append ..
        omega
      · have hlt := h.countP_lt ht
        have hle : countWithin W t (before ++ current) ≤
            (before ++ current).countP fun a => t ≤ a := countWithin_le_countP
        omega
    next => exact h.bounded t

variable [IsOrderedAddMonoid T]

/-- What lies with `now` in an interval is recent at `now`. -/
theorem countWithin_le_recent (h : now < t + W) : countWithin W t times ≤ recent W now times := by
  apply List.countP_mono_left
  intro a _ ha
  rw [decide_eq_true_eq] at ha ⊢
  exact h.trans_le (by gcongr; exact ha.1)

/-- One more fits in as long as few are recent. -/
theorem Bounded.concat (h : Bounded W n times) (hroom : recent W now times + 1 ≤ n) :
    Bounded W n (times ++ [now]) := by
  intro t
  rw [countWithin_concat]
  split
  next hnow => exact (Nat.succ_le_succ (countWithin_le_recent hnow.2)).trans hroom
  next => exact h t

theorem Epoch.new (W : T) (hn : 0 < n) (hW : 0 ≤ W) (now : T) : Epoch W n now [] [now] where
  first := ⟨[], rfl⟩
  size := hn
  later := by
    intro a ha
    rw [List.mem_singleton.1 ha]
    exact ⟨le_rfl, le_add_of_nonneg_right hW⟩
  earlier := fun _ ha => (List.not_mem_nil ha).elim
  tail := fun _ _ => hn
  bounded := by
    intro t
    have hone : countWithin W t [now] ≤ 1 := List.countP_le_length
    rw [List.nil_append]
    omega

/-- The next window opens when the last one is over. -/
theorem Epoch.reopen (h : Epoch W n opened before current) (hn : 0 < n) (hW : 0 ≤ W)
    (hnow : opened + W < now) : Epoch W n now (before ++ current) [now] := by
  have htail : ∀ t, now < t + W → ((before ++ current).countP fun a => t ≤ a) + 1 ≤ n := by
    intro t ht
    have hopened : opened < t := lt_of_add_lt_add_right (hnow.trans ht)
    exact (h.countP_lt hopened).trans_le h.size
  refine ⟨⟨[], rfl⟩, hn, ?_, ?_, htail, ?_⟩
  · intro a ha
    rw [List.mem_singleton.1 ha]
    exact ⟨le_rfl, le_add_of_nonneg_right hW⟩
  · intro a ha
    rcases List.mem_append.1 ha with ha | ha
    · exact (h.earlier a ha).trans_le ((le_add_of_nonneg_right hW).trans hnow.le)
    · exact (h.later a ha).2.trans_lt hnow
  · intro t
    rw [countWithin_concat]
    split
    next hin =>
      have hle : countWithin W t (before ++ current) ≤ (before ++ current).countP fun a => t ≤ a :=
        countWithin_le_countP
      have hlt := htail t hin.2
      omega
    next => exact h.bounded t

end SlidingWindow
