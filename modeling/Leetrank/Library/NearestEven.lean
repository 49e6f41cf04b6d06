import Mathlib.Algebra.Order.Field.Power
import Mathlib.Analysis.Real.Sqrt
import Mathlib.Data.Int.Log
import Mathlib.Data.Rat.Floor

namespace NearestEven
set_option autoImplicit true
open Real

section Field

variable {K : Type*} [Field K] [LinearOrder K] [FloorRing K]

/-- The nearest whole number, the even one of two. -/
def roundHalfEven (x : K) : Int :=
  if x - ⌊x⌋ < ⌊x⌋ + 1 - x ∨ x - ⌊x⌋ = ⌊x⌋ + 1 - x ∧ ⌊x⌋ % 2 = 0 then ⌊x⌋ else ⌊x⌋ + 1

/-- The exponent of the last binary place that a number of `p + 1` places keeps. -/
def exponent (p : Nat) (least : Int) (x : K) : Int := max (Int.log 2 |x| - p) least

/-- The last binary place of a number. -/
def place (p : Nat) (least : Int) (x : K) : ℚ := 2 ^ exponent p least x

/-- The nearest number of `p + 1` binary places, the one with an even last place of two. -/
def nearest (p : Nat) (least : Int) (x : K) : ℚ :=
  roundHalfEven (x / place p least x) * place p least x

theorem floor_le_roundHalfEven (x : K) : ⌊x⌋ ≤ roundHalfEven x := by
  rw [roundHalfEven]
  split <;> omega

theorem roundHalfEven_le (x : K) : roundHalfEven x ≤ ⌊x⌋ + 1 := by
  rw [roundHalfEven]
  split <;> omega

theorem nearest_eq (p : Nat) (least : Int) (x : K) : nearest p least x =
    roundHalfEven (x / 2 ^ exponent p least x) * 2 ^ exponent p least x := by
  rw [nearest, place]
  push_cast
  rfl

variable [IsStrictOrderedRing K] {x y : K}

theorem roundHalfEven_eq (x : K) : roundHalfEven x =
    if x - ⌊x⌋ < 1 / 2 ∨ x - ⌊x⌋ = 1 / 2 ∧ ⌊x⌋ % 2 = 0 then ⌊x⌋ else ⌊x⌋ + 1 := by
  have hlt : x - ⌊x⌋ < ⌊x⌋ + 1 - x ↔ x - ⌊x⌋ < 1 / 2 := by
    rw [lt_div_iff₀ two_pos]
    constructor <;> intro h <;> linarith
  have heq : x - ⌊x⌋ = ⌊x⌋ + 1 - x ↔ x - ⌊x⌋ = 1 / 2 := by
    rw [eq_div_iff two_ne_zero]
    constructor <;> intro h <;> linarith
  simp only [roundHalfEven, hlt, heq]

theorem roundHalfEven_mono (h : x ≤ y) : roundHalfEven x ≤ roundHalfEven y := by
  rcases (Int.floor_le_floor h).lt_or_eq with hlt | heq
  · calc roundHalfEven x ≤ ⌊x⌋ + 1 := roundHalfEven_le x
      _ ≤ ⌊y⌋ := hlt
      _ ≤ roundHalfEven y := floor_le_roundHalfEven y
  · rw [roundHalfEven_eq, roundHalfEven_eq, heq]
    -- over one whole number the smaller one is rounded down if the larger one is
    by_cases hy : y - ⌊y⌋ < 1 / 2 ∨ y - ⌊y⌋ = 1 / 2 ∧ ⌊y⌋ % 2 = 0
    · have hle : x - ⌊y⌋ ≤ y - ⌊y⌋ := sub_le_sub_right h _
      have hx : x - ⌊y⌋ < 1 / 2 ∨ x - ⌊y⌋ = 1 / 2 ∧ ⌊y⌋ % 2 = 0 := by
        rcases hy with hy | ⟨hy, heven⟩
        · exact .inl (hle.trans_lt hy)
        · rcases (hle.trans_eq hy).lt_or_eq with hx | hx
          · exact .inl hx
          · exact .inr ⟨hx, heven⟩
      rw [if_pos hx, if_pos hy]
    · rw [if_neg hy]
      split <;> omega

theorem roundHalfEven_intCast (n : Int) : roundHalfEven (n : K) = n := by
  rw [roundHalfEven_eq, Int.floor_intCast, sub_self, if_pos (.inl (by norm_num))]

theorem exponent_mono (p : Nat) (least : Int) (hx : 0 < x) (h : x ≤ y) :
    exponent p least x ≤ exponent p least y := by
  rw [exponent, exponent, abs_of_pos hx, abs_of_pos (hx.trans_le h)]
  have hlog : Int.log 2 x ≤ Int.log 2 y := Int.log_mono_right hx h
  exact max_le_max (by omega) le_rfl

theorem nearest_zero (p : Nat) (least : Int) : nearest p least (0 : K) = 0 := by
  have hzero : roundHalfEven (0 : K) = 0 := by
    have h := roundHalfEven_intCast (K := K) 0
    rwa [Int.cast_zero] at h
  rw [nearest_eq, zero_div, hzero, Int.cast_zero, zero_mul]

theorem nearest_nonneg (p : Nat) (least : Int) (hx : 0 ≤ x) : 0 ≤ nearest p least x := by
  have hdiv : 0 ≤ x / 2 ^ exponent p least x := by positivity
  have hround : 0 ≤ roundHalfEven (x / 2 ^ exponent p least x) :=
    (Int.floor_nonneg.2 hdiv).trans (floor_le_roundHalfEven _)
  have hcast : (0 : ℚ) ≤ roundHalfEven (x / 2 ^ exponent p least x) := Int.cast_nonneg hround
  rw [nearest_eq]
  positivity

theorem zpow_div_zpow {k n : Int} (hk : k ≤ n) : (2 : K) ^ n / 2 ^ k = ((2 ^ (n - k).toNat : Int) : K) := by
  obtain ⟨d, rfl⟩ : ∃ d : Nat, n = k + d := ⟨(n - k).toNat, by omega⟩
  have hd : (k + d - k : Int).toNat = d := by omega
  rw [hd, zpow_add₀ two_ne_zero, zpow_natCast, mul_div_cancel_left₀ _ (by positivity)]
  push_cast
  rfl

/-- A power of two on the grid of a number is on the same side of it after rounding. -/
theorem nearest_le_zpow {p : Nat} {least n : Int} (hn : exponent p least x ≤ n)
    (h : x ≤ 2 ^ n) : nearest p least x ≤ 2 ^ n := by
  have hround : roundHalfEven (x / 2 ^ exponent p least x) ≤
      2 ^ (n - exponent p least x).toNat := by
    have hdiv : x / 2 ^ exponent p least x ≤ 2 ^ n / 2 ^ exponent p least x := by gcongr
    rw [zpow_div_zpow hn] at hdiv
    exact (roundHalfEven_mono hdiv).trans (roundHalfEven_intCast _).le
  have hcast : (roundHalfEven (x / 2 ^ exponent p least x) : ℚ) ≤
      2 ^ n / 2 ^ exponent p least x := by
    rw [zpow_div_zpow (K := ℚ) hn]
    exact_mod_cast hround
  rw [nearest_eq]
  exact (le_div_iff₀ (by positivity)).1 hcast

theorem zpow_le_nearest {p : Nat} {least n : Int} (hn : exponent p least x ≤ n)
    (h : 2 ^ n ≤ x) : 2 ^ n ≤ nearest p least x := by
  have hround : 2 ^ (n - exponent p least x).toNat ≤
      roundHalfEven (x / 2 ^ exponent p least x) := by
    have hdiv : 2 ^ n / 2 ^ exponent p least x ≤ x / 2 ^ exponent p least x := by gcongr
    rw [zpow_div_zpow hn] at hdiv
    exact (roundHalfEven_intCast (K := K) _).ge.trans (roundHalfEven_mono hdiv)
  have hcast : 2 ^ n / 2 ^ exponent p least x ≤
      (roundHalfEven (x / 2 ^ exponent p least x) : ℚ) := by
    rw [zpow_div_zpow (K := ℚ) hn]
    exact_mod_cast hround
  rw [nearest_eq]
  exact (div_le_iff₀ (by positivity)).1 hcast

/-- Rounding keeps the order, within one grid and over a power of two between two grids. -/
theorem nearest_mono (p : Nat) (least : Int) (hx : 0 ≤ x) (h : x ≤ y) :
    nearest p least x ≤ nearest p least y := by
  rcases hx.eq_or_lt with rfl | hx
  · rw [nearest_zero]
    exact nearest_nonneg p least h
  · rcases (exponent_mono p least hx h).eq_or_lt with heq | hlt
    · have hround : roundHalfEven (x / 2 ^ exponent p least y) ≤
          roundHalfEven (y / 2 ^ exponent p least y) := by
        apply roundHalfEven_mono
        gcongr
      have hcast : (roundHalfEven (x / 2 ^ exponent p least y) : ℚ) ≤
          roundHalfEven (y / 2 ^ exponent p least y) := by exact_mod_cast hround
      rw [nearest_eq, nearest_eq, heq]
      gcongr
    · have hy := hx.trans_le h
      have hexp : exponent p least y = Int.log 2 y - p := by
        rw [exponent, exponent, abs_of_pos hx, abs_of_pos hy] at hlt
        rw [exponent, abs_of_pos hy]
        omega
      have hlog : Int.log 2 x < Int.log 2 y := by
        rw [hexp, exponent, abs_of_pos hx] at hlt
        omega
      have hbelow : x ≤ 2 ^ Int.log 2 y := by
        have hlt := (Int.lt_zpow_iff_log_lt (b := 2) one_lt_two hx).2 hlog
        exact_mod_cast hlt.le
      have habove : 2 ^ Int.log 2 y ≤ y := by
        have hle := Int.zpow_log_le_self (b := 2) one_lt_two hy
        exact_mod_cast hle
      calc nearest p least x ≤ 2 ^ Int.log 2 y := nearest_le_zpow (by omega) hbelow
        _ ≤ nearest p least y := zpow_le_nearest (by omega) habove

end Field

section Grid

variable {p : Nat} {least : Int} {v t : ℚ}

/-- Between a number that is no power of two and the one before it on its grid there is none. -/
theorem le_sub_of_lt (hv : nearest p least v = v) (ht : nearest p least t = t) (hpos : 0 < v)
    (hlt : v < t) (hbinade : 2 ^ (p + exponent p least t) < t) :
    v ≤ t - 2 ^ exponent p least t := by
  generalize he : exponent p least t = e at hbinade
  obtain ⟨m, hm⟩ : ∃ m : Int, t = m * 2 ^ e := by
    rw [nearest_eq, he] at ht
    exact ⟨_, ht.symm⟩
  have hpow : (0 : ℚ) < 2 ^ e := by positivity
  have hpred : t - 2 ^ e = (m - 1) * 2 ^ e := by
    rw [hm]
    ring
  rw [hpred]
  rcases le_or_gt e (exponent p least v) with hexp | hexp
  · -- on the same grid or a coarser one the smaller number is a whole step below
    obtain ⟨n, hn⟩ : ∃ n : Int, v = n * 2 ^ e := by
      obtain ⟨k, hk⟩ : ∃ k : Int, v = k * 2 ^ exponent p least v := by
        rw [nearest_eq] at hv
        exact ⟨_, hv.symm⟩
      generalize exponent p least v = f at hk hexp
      have hscale := zpow_div_zpow (K := ℚ) hexp
      rw [div_eq_iff hpow.ne'] at hscale
      refine ⟨k * 2 ^ (f - e).toNat, ?_⟩
      rw [hk, hscale]
      push_cast
      ring
    have hnm : n + 1 ≤ m := by
      rw [hn, hm] at hlt
      exact_mod_cast lt_of_mul_lt_mul_right hlt hpow.le
    have hnm' : (n : ℚ) ≤ m - 1 := by
      have hcast : ((n + 1 : Int) : ℚ) ≤ m := Int.cast_le.2 hnm
      push_cast at hcast
      linarith
    rw [hn]
    gcongr
  · -- on a finer one it lies below the power of two
    have hlog : Int.log 2 v < p + e := by
      rw [exponent, abs_of_pos hpos] at hexp
      omega
    have hbelow : v < 2 ^ (p + e) := by
      exact_mod_cast (Int.lt_zpow_iff_log_lt (b := 2) one_lt_two hpos).2 hlog
    have hmp : (2 : ℚ) ^ p ≤ m - 1 := by
      rw [hm, zpow_add₀ two_ne_zero, zpow_natCast] at hbinade
      have hstep : ((2 ^ p : Int) : ℚ) < m := by
        push_cast
        exact lt_of_mul_lt_mul_right hbinade hpow.le
      have hstep' : (2 ^ p : Int) + 1 ≤ m := Int.cast_lt.1 hstep
      have hcast : ((2 ^ p + 1 : Int) : ℚ) ≤ m := Int.cast_le.2 hstep'
      push_cast at hcast
      linarith
    calc v ≤ 2 ^ (p + e) := hbelow.le
      _ = 2 ^ p * 2 ^ e := by rw [zpow_add₀ two_ne_zero, zpow_natCast]
      _ ≤ (m - 1) * 2 ^ e := by gcongr

end Grid

section Sqrt

/-- The whole number nearest to a root. -/
def roundSqrt (q : ℚ) : Int :=
  let root : Int := Nat.sqrt ⌊q⌋₊
  let half : ℚ := root * root + root + 1 / 4
  if q < half ∨ q = half ∧ root % 2 = 0 then root else root + 1

def sqrtExponent (p : Nat) (least : Int) (q : ℚ) : Int := max (Int.log 2 q / 2 - p) least

/-- The number of `p + 1` binary places nearest to a root. -/
def nearestSqrt (p : Nat) (least : Int) (q : ℚ) : ℚ :=
  roundSqrt (q / 4 ^ sqrtExponent p least q) * 2 ^ sqrtExponent p least q

variable {q r : ℚ}

theorem floor_sqrt (hq : 0 ≤ q) : ⌊√(q : ℝ)⌋ = (Nat.sqrt ⌊q⌋₊ : Int) := by
  have hq' : (0 : ℝ) ≤ q := Rat.cast_nonneg.2 hq
  rw [Int.floor_eq_iff]
  constructor
  · apply le_sqrt_of_sq_le
    have hroot : ((Nat.sqrt ⌊q⌋₊ ^ 2 : Nat) : ℚ) ≤ q :=
      (Nat.cast_le.2 (Nat.sqrt_le' _)).trans (Nat.floor_le hq)
    exact_mod_cast hroot
  · rw [sqrt_lt' (by positivity)]
    have hroot : q < ((Nat.sqrt ⌊q⌋₊ + 1) ^ 2 : Nat) :=
      (Nat.lt_floor_add_one q).trans_le (by exact_mod_cast Nat.lt_succ_sqrt' ⌊q⌋₊)
    exact_mod_cast hroot

theorem roundSqrt_eq (hq : 0 ≤ q) : roundSqrt q = roundHalfEven √(q : ℝ) := by
  have hq' : (0 : ℝ) ≤ q := Rat.cast_nonneg.2 hq
  rw [roundSqrt, roundHalfEven_eq, floor_sqrt hq]
  generalize Nat.sqrt ⌊q⌋₊ = root
  have hroot : (0 : ℝ) ≤ root := Nat.cast_nonneg root
  -- a root and a half squared is the bound that the remainder is compared with
  have hsq : ((root : ℝ) + 1 / 2) ^ 2 = ((root * root + root + 1 / 4 : ℚ) : ℝ) := by
    push_cast
    ring
  have hlt : √(q : ℝ) - root < 1 / 2 ↔ q < root * root + root + 1 / 4 := by
    rw [sub_lt_iff_lt_add', sqrt_lt' (by positivity), hsq, Rat.cast_lt]
  have heq : √(q : ℝ) - root = 1 / 2 ↔ q = root * root + root + 1 / 4 := by
    rw [sub_eq_iff_eq_add', sqrt_eq_iff_eq_sq hq' (by positivity), hsq, Rat.cast_inj]
  simp only [Int.cast_natCast, hlt, heq]

theorem log_sqrt (hq : 0 < q) : Int.log 2 √(q : ℝ) = Int.log 2 q / 2 := by
  have hq' : (0 : ℝ) < q := Rat.cast_pos.2 hq
  refine eq_of_forall_le_iff fun k => ?_
  have hsq : ((2 : ℝ) ^ k) ^ 2 = (((2 : ℚ) ^ (2 * k) : ℚ) : ℝ) := by
    push_cast
    rw [zpow_mul', zpow_ofNat]
  have hroot := Int.zpow_le_iff_le_log (b := 2) (x := k) one_lt_two (sqrt_pos.2 hq')
  have hfull := Int.zpow_le_iff_le_log (b := 2) (x := 2 * k) one_lt_two hq
  push_cast at hroot hfull
  rw [← hroot, le_sqrt (by positivity) hq'.le, hsq, Rat.cast_le, hfull]
  omega

theorem nearestSqrt_eq (p : Nat) (least : Int) (hq : 0 < q) :
    nearestSqrt p least q = nearest p least √(q : ℝ) := by
  have hexp : exponent p least √(q : ℝ) = sqrtExponent p least q := by
    rw [exponent, abs_of_nonneg (sqrt_nonneg _), log_sqrt hq, sqrtExponent]
  rw [nearestSqrt, nearest_eq, hexp]
  generalize sqrtExponent p least q = e
  have hroot : √(q : ℝ) / 2 ^ e = √((q / 4 ^ e : ℚ) : ℝ) := by
    have hfour : (4 : ℝ) ^ e = (2 ^ e) ^ 2 := by
      rw [← zpow_natCast, ← zpow_mul, mul_comm, zpow_mul]
      norm_num
    push_cast
    rw [sqrt_div (Rat.cast_nonneg.2 hq.le), hfour, sqrt_sq (by positivity)]
  rw [hroot, roundSqrt_eq (by positivity)]

theorem nearestSqrt_zero (p : Nat) (least : Int) : nearestSqrt p least 0 = 0 := by
  have hzero : roundSqrt 0 = 0 := by norm_num [roundSqrt]
  rw [nearestSqrt, zero_div, hzero, Int.cast_zero, zero_mul]

theorem nearestSqrt_nonneg (p : Nat) (least : Int) (hq : 0 ≤ q) : 0 ≤ nearestSqrt p least q := by
  rcases hq.eq_or_lt with rfl | hq
  · exact (nearestSqrt_zero p least).ge
  · rw [nearestSqrt_eq p least hq]
    exact nearest_nonneg p least (sqrt_nonneg _)

theorem nearestSqrt_mono (p : Nat) (least : Int) (hq : 0 ≤ q) (h : q ≤ r) :
    nearestSqrt p least q ≤ nearestSqrt p least r := by
  rcases hq.eq_or_lt with rfl | hq
  · rw [nearestSqrt_zero]
    exact nearestSqrt_nonneg p least h
  · rw [nearestSqrt_eq p least hq, nearestSqrt_eq p least (hq.trans_le h)]
    exact nearest_mono p least (sqrt_nonneg _) (sqrt_le_sqrt (Rat.cast_le.2 h))

end Sqrt

end NearestEven
