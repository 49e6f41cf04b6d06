import Leetrank.Library.Illinois
import Mathlib.Analysis.SpecialFunctions.Log.Basic

namespace Leetrank
namespace Glicko2
set_option autoImplicit true
open Real Illinois

noncomputable section

def CONVERGENCE_EPSILON : ℝ := 1e-6

/-- The function whose root is the logarithm of the squared volatility. -/
def f (phi v delta sigma tau x : ℝ) : ℝ :=
  exp x * (delta * delta - phi * phi - v - exp x) / (2 * (phi * phi + v + exp x) ^ 2) -
    (x - log (sigma * sigma)) / (tau * tau)

/-- The loop that counts `k` up, if it ends within a number of rounds. -/
def lowerB (f : ℝ → ℝ) (a tau : ℝ) : Nat → Nat → Option Nat
  | 0, _ => none
  | fuel + 1, k => if f (a - k * tau) < 0 then lowerB f a tau fuel (k + 1) else some k

/-- The ends with which the iteration starts. -/
def initialEnds (fuel : Nat) (phi v delta sigma tau : ℝ) : Option (Ends ℝ) :=
  let a := log (sigma * sigma)
  let f := f phi v delta sigma tau
  let B :=
    if phi * phi + v < delta * delta then some (log (delta * delta - phi * phi - v))
    else (lowerB f a tau fuel 1).map fun k : Nat => a - k * tau
  B.map fun B => ⟨a, B, f a, f B⟩

def newVolatility (fuel : Nat) (phi v delta sigma tau epsilon : ℝ) : Option ℝ :=
  (initialEnds fuel phi v delta sigma tau).map fun ends =>
    exp ((loop (f phi v delta sigma tau) 2 epsilon 100 ends).A / 2)

end

variable {phi v delta sigma tau : ℝ}

/-- The first summand of the function is bounded from below. -/
theorem neg_half_le_quotient {p d y : ℝ} (hp : 0 < p) (hd : 0 ≤ d) (hy : 0 < y) :
    -(1 / 2) ≤ y * (d - p - y) / (2 * (p + y) ^ 2) := by
  have hpos : 0 < 2 * (p + y) ^ 2 := by positivity
  rw [le_div_iff₀ hpos]
  have hdiff : y * (d - p - y) - -(1 / 2) * (2 * (p + y) ^ 2) = y * d + p * (p + y) := by ring
  have hnonneg : 0 ≤ y * d + p * (p + y) := by positivity
  linarith

theorem f_lowered (phi delta sigma : ℝ) (hv : 0 < v) (hτ : 0 < tau) {k : Nat} (hk : tau / 2 ≤ k) :
    0 ≤ f phi v delta sigma tau (log (sigma * sigma) - k * tau) := by
  have hp : 0 < phi * phi + v := add_pos_of_nonneg_of_pos (mul_self_nonneg phi) hv
  have hquot := neg_half_le_quotient hp (mul_self_nonneg delta)
    (exp_pos (log (sigma * sigma) - k * tau))
  have hline : (log (sigma * sigma) - k * tau - log (sigma * sigma)) / (tau * tau) =
      -(k / tau) := by
    field_simp
    ring
  have hhalf : 1 / 2 ≤ k / tau := by
    rw [le_div_iff₀ hτ]
    linarith
  rw [f, hline, sub_sub (delta * delta)]
  linarith

theorem lowerB_mono {f : ℝ → ℝ} {a : ℝ} {fuel fuel' k m : Nat} (hle : fuel ≤ fuel')
    (h : lowerB f a tau fuel k = some m) : lowerB f a tau fuel' k = some m := by
  induction fuel generalizing fuel' k with
  | zero => cases h
  | succ fuel ih =>
    cases fuel' with
    | zero => cases hle
    | succ fuel' =>
      rw [lowerB] at h ⊢
      split at h
      next hneg =>
        rw [if_pos hneg]
        exact ih (Nat.le_of_succ_le_succ hle) h
      next hnonneg => rw [if_neg hnonneg, h]

/-- The loop ends at a point where the function is not negative, if it comes to one. -/
theorem exists_lowerB {f : ℝ → ℝ} {a : ℝ} {fuel k : Nat} (h : 0 ≤ f (a - (k + fuel : Nat) * tau)) :
    ∃ m, lowerB f a tau (fuel + 1) k = some m ∧ 0 ≤ f (a - m * tau) := by
  induction fuel generalizing k with
  | zero =>
    rw [Nat.add_zero] at h
    exact ⟨k, by rw [lowerB, if_neg (not_lt.2 h)], h⟩
  | succ fuel ih =>
    rw [lowerB]
    split
    next hneg =>
      apply ih
      rwa [Nat.add_right_comm]
    next hnonneg => exact ⟨k, rfl, not_lt.1 hnonneg⟩

theorem continuous_f (hv : 0 < v) : Continuous (f phi v delta sigma tau) := by
  have hden (x : ℝ) : 2 * (phi * phi + v + exp x) ^ 2 ≠ 0 := by
    have hpos : 0 < phi * phi + v + exp x :=
      add_pos (add_pos_of_nonneg_of_pos (mul_self_nonneg phi) hv) (exp_pos x)
    positivity
  apply Continuous.sub
  · apply Continuous.div _ _ hden
    · fun_prop
    · fun_prop
  · fun_prop

/-- Where the improvement is large, the ends are those of the source's first case. -/
theorem brackets_large (hτ : 0 < tau) (hv : 0 < v)
    (h : phi * phi + v < delta * delta) :
    let a := log (sigma * sigma)
    let B := log (delta * delta - phi * phi - v)
    Brackets (f phi v delta sigma tau)
      ⟨a, B, f phi v delta sigma tau a, f phi v delta sigma tau B⟩ := by
  intro a B
  have hd : 0 < delta * delta - phi * phi - v := by linarith
  have hττ : 0 < tau * tau := mul_pos hτ hτ
  have hB : f phi v delta sigma tau B = (a - B) / (tau * tau) := by
    rw [f, exp_log hd, sub_self, mul_zero, zero_div, zero_sub, ← neg_div, neg_sub]
  have ha : f phi v delta sigma tau a =
      exp a * (exp B - exp a) / (2 * (phi * phi + v + exp a) ^ 2) := by
    rw [f, sub_self, zero_div, sub_zero, exp_log hd]
  have hden : 0 < 2 * (phi * phi + v + exp a) ^ 2 := by
    have hpos : 0 < phi * phi + v + exp a :=
      add_pos (add_pos_of_nonneg_of_pos (mul_self_nonneg phi) hv) (exp_pos a)
    positivity
  refine ⟨?_, rfl, rfl, ?_⟩
  · change f phi v delta sigma tau a * f phi v delta sigma tau B ≤ 0
    rw [ha, hB]
    obtain hle | hle := le_total a B
    · apply mul_nonpos_of_nonneg_of_nonpos
      · exact div_nonneg (mul_nonneg (exp_pos a).le (sub_nonneg.2 (exp_le_exp.2 hle))) hden.le
      · exact div_nonpos_of_nonpos_of_nonneg (sub_nonpos.2 hle) hττ.le
    · apply mul_nonpos_of_nonpos_of_nonneg
      · apply div_nonpos_of_nonpos_of_nonneg _ hden.le
        exact mul_nonpos_of_nonneg_of_nonpos (exp_pos a).le (sub_nonpos.2 (exp_le_exp.2 hle))
      · exact div_nonneg (sub_nonneg.2 hle) hττ.le
  · intro hne _ hzero
    have hquot : (a - B) / (tau * tau) = 0 := hB.symm.trans hzero
    have hsub : a - B = 0 := (div_eq_zero_iff.1 hquot).resolve_right hττ.ne'
    exact hne (sub_eq_zero.1 hsub)

/-- Where it is not, the first end lies below zero. -/
theorem f_neg_of_small (hv : 0 < v) (h : ¬phi * phi + v < delta * delta) :
    f phi v delta sigma tau (log (sigma * sigma)) < 0 := by
  have hpos := exp_pos (log (sigma * sigma))
  have hp : 0 < phi * phi + v := add_pos_of_nonneg_of_pos (mul_self_nonneg phi) hv
  rw [f, sub_self, zero_div, sub_zero]
  apply div_neg_of_neg_of_pos
  · apply mul_neg_of_pos_of_neg hpos
    linarith
  · positivity

theorem brackets_small {B : ℝ} (hv : 0 < v) (h : ¬phi * phi + v < delta * delta)
    (hB : 0 ≤ f phi v delta sigma tau B) :
    Brackets (f phi v delta sigma tau) ⟨log (sigma * sigma), B,
      f phi v delta sigma tau (log (sigma * sigma)), f phi v delta sigma tau B⟩ :=
  ⟨mul_nonpos_of_nonpos_of_nonneg (f_neg_of_small hv h).le hB, rfl, rfl,
    fun _ hzero => absurd hzero (f_neg_of_small hv h).ne⟩

/-- The loop that lowers the second end needs at most half of tau rounds more than one. -/
theorem exists_initialEnds (phi delta sigma : ℝ) (hv : 0 < v) (hτ : 0 < tau) :
    ∃ start, (∀ fuel, ⌈tau / 2⌉₊ + 1 ≤ fuel → initialEnds fuel phi v delta sigma tau = some start) ∧
      Brackets (f phi v delta sigma tau) start := by
  by_cases hlarge : phi * phi + v < delta * delta
  · refine ⟨_, fun fuel _ => ?_, brackets_large hτ hv hlarge⟩
    rw [initialEnds, if_pos hlarge, Option.map_some]
  · have hceil : tau / 2 ≤ (1 + ⌈tau / 2⌉₊ : Nat) := by
      have hle := Nat.le_ceil (tau / 2)
      push_cast
      linarith
    obtain ⟨m, hm, hnonneg⟩ := exists_lowerB (f_lowered phi delta sigma hv hτ hceil)
    refine ⟨_, fun fuel hfuel => ?_, brackets_small hv hlarge hnonneg⟩
    rw [initialEnds, if_neg hlarge, lowerB_mono hfuel hm, Option.map_some, Option.map_some]

theorem exists_newVolatility (phi delta sigma epsilon : ℝ) (hv : 0 < v) (hτ : 0 < tau) :
    ∃ sigma', ∀ fuel, ⌈tau / 2⌉₊ + 1 ≤ fuel →
      newVolatility fuel phi v delta sigma tau epsilon = some sigma' := by
  obtain ⟨start, hstart, -⟩ := exists_initialEnds phi delta sigma hv hτ
  exact ⟨_, fun fuel hfuel => congrArg (Option.map _) (hstart fuel hfuel)⟩

/-- The loop that lowers the second end terminates, the iteration keeps a root between its ends and
never divides by zero, and what it returns is positive. -/
theorem newVolatility_sound (phi v delta sigma tau epsilon : ℝ) (hv : 0 < v) (hτ : 0 < tau)
    (hepsilon : 0 < epsilon) :
    ∃ enough start, (∀ fuel, enough ≤ fuel →
        initialEnds fuel phi v delta sigma tau = some start) ∧
      (∀ left s, Head (f phi v delta sigma tau) 2 epsilon start 100 left s →
        s.fA * s.fB ≤ 0 ∧ SignType.sign s.fA = SignType.sign (f phi v delta sigma tau s.A) ∧
          s.fB = f phi v delta sigma tau s.B ∧
          (∃ x ∈ Set.uIcc s.A s.B, f phi v delta sigma tau x = 0) ∧
          (s.A ≠ s.B → s.fB - s.fA ≠ 0) ∧ (epsilon < |s.B - s.A| → s.fB - s.fA ≠ 0)) ∧
      ∃ left s, Head (f phi v delta sigma tau) 2 epsilon start 100 left s ∧ 0 < exp (s.A / 2) ∧
        ∀ fuel, enough ≤ fuel →
          newVolatility fuel phi v delta sigma tau epsilon = some (exp (s.A / 2)) := by
  obtain ⟨start, hstart, hbrackets⟩ := exists_initialEnds phi delta sigma hv hτ
  obtain ⟨left, hend⟩ :=
    head_loop (.start : Head (f phi v delta sigma tau) 2 epsilon start 100 100 _)
  refine ⟨⌈tau / 2⌉₊ + 1, start, hstart, ?_, left, _, hend, exp_pos _, ?_⟩
  · intro left s hs
    have h := hs.brackets two_pos hepsilon hbrackets
    exact ⟨h.opposite, h.sign, h.value, h.exists_root (continuous_f hv), h.sub_ne_zero,
      fun hgo => h.sub_ne_zero (ends_ne_of_lt hepsilon hgo)⟩
  · intro fuel hfuel
    rw [newVolatility, hstart fuel hfuel, Option.map_some]

/-- A newcomer who does as well as expected, with the constants of the system. -/
theorem newVolatility_sound_newcomer :
    ∃ enough start, (∀ fuel, enough ≤ fuel → initialEnds fuel 2 3 0 0.06 0.5 = some start) ∧
      ∃ left s, Head (f 2 3 0 0.06 0.5) 2 CONVERGENCE_EPSILON start 100 left s ∧
        ∀ fuel, enough ≤ fuel →
          newVolatility fuel 2 3 0 0.06 0.5 CONVERGENCE_EPSILON = some (exp (s.A / 2)) := by
  obtain ⟨enough, start, hstart, -, left, s, hs, -, hsigma⟩ := newVolatility_sound 2 3 0 0.06 0.5
    CONVERGENCE_EPSILON (by norm_num) (by norm_num) (by norm_num [CONVERGENCE_EPSILON])
  exact ⟨enough, start, hstart, left, s, hs, hsigma⟩

end Glicko2
end Leetrank
