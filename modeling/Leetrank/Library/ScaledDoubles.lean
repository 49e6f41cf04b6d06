import Leetrank.Library.Doubles
import Mathlib.Algebra.Order.Floor.Semifield

namespace NearestEven
set_option autoImplicit true

/-- Hands a number over as soon as it is computed, so that the kernel computes it once. -/
def forced (n : Nat) (f : Nat → α) : α :=
  match n with
  | 0 => f 0
  | k + 1 => f (k + 1)

@[simp]
theorem forced_eq (n : Nat) (f : Nat → α) : forced n f = f n := by
  cases n <;> rfl

/-- The whole number nearest to a fraction, the even one of two. -/
def roundFraction (n d : Nat) : Nat :=
  forced (2 * (n % d)) fun rest =>
    bif rest.blt d || rest.beq d && (n / d % 2).beq 0 then n / d else n / d + 1

/-- The whole number nearest to the root of a fraction, whose whole part has the root `root`. -/
def roundRoot (n d root : Nat) : Nat :=
  forced ((4 * (root * root + root) + 1) * d) fun half =>
    bif (4 * n).blt half || (4 * n).beq half && (root % 2).beq 0 then root else root + 1

variable {n d s p : Nat} {least : Int}

theorem roundFraction_eq (n d : Nat) : roundFraction n d =
    if 2 * (n % d) < d ∨ 2 * (n % d) = d ∧ n / d % 2 = 0 then n / d else n / d + 1 := by
  simp only [roundFraction, forced_eq, Bool.cond_eq_ite, Bool.or_eq_true, Bool.and_eq_true,
    Nat.blt_eq, Nat.beq_eq]

theorem roundRoot_eq (n d root : Nat) : roundRoot n d root =
    if 4 * n < (4 * (root * root + root) + 1) * d ∨
        4 * n = (4 * (root * root + root) + 1) * d ∧ root % 2 = 0 then root else root + 1 := by
  simp only [roundRoot, forced_eq, Bool.cond_eq_ite, Bool.or_eq_true, Bool.and_eq_true,
    Nat.blt_eq, Nat.beq_eq]

theorem roundFraction_mul (n d : Nat) {c : Nat} (hc : 0 < c) :
    roundFraction (n * c) (d * c) = roundFraction n d := by
  rw [roundFraction_eq, roundFraction_eq, Nat.mul_div_mul_right n d hc, Nat.mul_mod_mul_right,
    ← mul_assoc]
  simp only [Nat.mul_lt_mul_right hc, Nat.mul_left_inj hc.ne']

theorem roundRoot_mul (n d root : Nat) {c : Nat} (hc : 0 < c) :
    roundRoot (n * c) (d * c) root = roundRoot n d root := by
  rw [roundRoot_eq, roundRoot_eq, ← mul_assoc, ← mul_assoc]
  simp only [Nat.mul_lt_mul_right hc, Nat.mul_left_inj hc.ne']

theorem roundHalfEven_fraction (hd : 0 < d) :
    roundHalfEven (n / d : ℚ) = roundFraction n d := by
  have hd' : (0 : ℚ) < d := Nat.cast_pos.2 hd
  have hrest : (n / d : ℚ) - ((n / d : Nat) : ℚ) = (n % d : Nat) / d := by
    rw [sub_eq_iff_eq_add, div_add' _ _ _ hd'.ne', div_left_inj' hd'.ne']
    exact_mod_cast (Nat.mod_add_div' n d).symm
  have hlt : (n % d : Nat) / (d : ℚ) < 1 / 2 ↔ 2 * (n % d) < d := by
    rw [div_lt_div_iff₀ hd' two_pos, one_mul, mul_comm]
    exact_mod_cast Iff.rfl
  have heq : (n % d : Nat) / (d : ℚ) = 1 / 2 ↔ 2 * (n % d) = d := by
    rw [div_eq_div_iff hd'.ne' two_ne_zero, one_mul, mul_comm]
    exact_mod_cast Iff.rfl
  have hfloor : ⌊(n / d : ℚ)⌋ = ((n / d : Nat) : Int) := Rat.floor_natCast_div_natCast n d
  rw [roundHalfEven_eq, hfloor, Int.cast_natCast, hrest, roundFraction_eq]
  simp only [hlt, heq]
  split <;> split <;> first | rfl | omega

theorem roundSqrt_fraction (hd : 0 < d) :
    roundSqrt (n / d) = roundRoot n d (Nat.sqrt (n / d)) := by
  have hd' : (0 : ℚ) < d := Nat.cast_pos.2 hd
  rw [roundSqrt, roundRoot_eq, Nat.floor_div_eq_div]
  generalize Nat.sqrt (n / d) = root
  have hhalf : ((root : Int) : ℚ) * (root : Int) + (root : Int) + 1 / 4 =
      (4 * (root * root + root) + 1 : Nat) / 4 := by
    push_cast
    ring
  have hlt : (n / d : ℚ) < ((root : Int) : ℚ) * (root : Int) + (root : Int) + 1 / 4 ↔
      4 * n < (4 * (root * root + root) + 1) * d := by
    rw [hhalf, div_lt_div_iff₀ hd' four_pos, mul_comm (n : ℚ)]
    exact_mod_cast Iff.rfl
  have heq : (n / d : ℚ) = ((root : Int) : ℚ) * (root : Int) + (root : Int) + 1 / 4 ↔
      4 * n = (4 * (root * root + root) + 1) * d := by
    rw [hhalf, div_eq_div_iff hd'.ne' four_ne_zero, mul_comm (n : ℚ)]
    exact_mod_cast Iff.rfl
  simp only [hlt, heq]
  split <;> split <;> first | rfl | omega

theorem le_log_fraction {a b : Nat} (hd : 0 < d) (hn : 0 < n) (h : 2 ^ a * d ≤ n * 2 ^ b) :
    (a - b : Int) ≤ Int.log 2 (n / d : ℚ) := by
  have hd' : (0 : ℚ) < d := Nat.cast_pos.2 hd
  have hn' : (0 : ℚ) < n := Nat.cast_pos.2 hn
  apply (Int.zpow_le_iff_le_log one_lt_two (by positivity)).1
  rw [Nat.cast_ofNat, zpow_sub₀ two_ne_zero, zpow_natCast, zpow_natCast,
    div_le_div_iff₀ (by positivity) hd']
  exact_mod_cast h

theorem log_fraction_lt {a b : Nat} (hd : 0 < d) (hn : 0 < n) (h : n * 2 ^ b < 2 ^ a * d) :
    Int.log 2 (n / d : ℚ) < a - b := by
  have hd' : (0 : ℚ) < d := Nat.cast_pos.2 hd
  have hn' : (0 : ℚ) < n := Nat.cast_pos.2 hn
  apply (Int.lt_zpow_iff_log_lt one_lt_two (by positivity)).1
  rw [Nat.cast_ofNat, zpow_sub₀ two_ne_zero, zpow_natCast, zpow_natCast,
    div_lt_div_iff₀ hd' (by positivity)]
  exact_mod_cast h

/-- A positive fraction keeps `s` binary places behind the point if it is to have `p + 1`. -/
structure KeepsPlaces (p s n d : Nat) : Prop where
  denominator : 0 < d
  lower : 2 ^ p * d ≤ n * 2 ^ s
  upper : n * 2 ^ s < 2 ^ (p + 1) * d

theorem KeepsPlaces.numerator_pos (h : KeepsPlaces p s n d) : 0 < n := by
  have hpos : 0 < 2 ^ p * d := Nat.mul_pos (by positivity) h.denominator
  exact Nat.pos_of_mul_pos_right (hpos.trans_le h.lower)

theorem KeepsPlaces.exponent_eq (h : KeepsPlaces p s n d) (hs : least ≤ -s) :
    exponent p least (n / d : ℚ) = -s := by
  have hlower := le_log_fraction h.denominator h.numerator_pos h.lower
  have hupper := log_fraction_lt h.denominator h.numerator_pos h.upper
  rw [exponent, abs_of_nonneg (by positivity)]
  omega

theorem KeepsPlaces.nearest_eq (h : KeepsPlaces p s n d) (hs : least ≤ -s) :
    nearest p least (n / d : ℚ) = roundFraction (n * 2 ^ s) d / 2 ^ s := by
  have hscaled : (n / d : ℚ) / 2 ^ (-s : Int) = (n * 2 ^ s : Nat) / d := by
    rw [zpow_neg, zpow_natCast, div_inv_eq_mul]
    push_cast
    ring
  rw [NearestEven.nearest_eq, h.exponent_eq hs, hscaled, roundHalfEven_fraction h.denominator,
    zpow_neg, zpow_natCast, Int.cast_natCast, ← div_eq_mul_inv]

/-- A root keeps half the places that its square keeps. -/
theorem nearestSqrt_fraction (hd : 0 < d) (hlower : 2 ^ (2 * p) * d ≤ n * 2 ^ (2 * s))
    (hupper : n * 2 ^ (2 * s) < 2 ^ (2 * p + 2) * d) (hs : least ≤ -s) :
    nearestSqrt p least (n / d) =
      roundRoot (n * 2 ^ (2 * s)) d (Nat.sqrt (n * 2 ^ (2 * s) / d)) / 2 ^ s := by
  have hn : 0 < n := by
    have hpos : 0 < 2 ^ (2 * p) * d := Nat.mul_pos (by positivity) hd
    exact Nat.pos_of_mul_pos_right (hpos.trans_le hlower)
  have hexp : sqrtExponent p least (n / d) = -s := by
    have hle := le_log_fraction hd hn hlower
    have hlt := log_fraction_lt hd hn hupper
    rw [sqrtExponent]
    omega
  have hscaled : (n / d : ℚ) / 4 ^ (-s : Int) = (n * 2 ^ (2 * s) : Nat) / d := by
    rw [zpow_neg, zpow_natCast, div_inv_eq_mul]
    push_cast
    rw [pow_mul]
    ring
  rw [nearestSqrt, hexp, hscaled, roundSqrt_fraction hd, zpow_neg, zpow_natCast,
    Int.cast_natCast, ← div_eq_mul_inv]

theorem roundFraction_le {b : Nat} (h : n < b * d) : roundFraction n d ≤ b := by
  have hdiv : n / d < b := Nat.div_lt_of_lt_mul (by rwa [mul_comm])
  rw [roundFraction_eq]
  split <;> omega

/-- The binary logarithm of a number below `2 ^ 128`, bit by bit of the logarithm. -/
def logOf : List Nat → Nat → Nat
  | [], _ => 0
  | k :: rest, n =>
    bif (2 ^ k).ble n then forced (n / 2 ^ k) fun n => k + logOf rest n else logOf rest n

def logBits : List Nat := [64, 32, 16, 8, 4, 2, 1]

/-- Steps of the search for a whole root. -/
def newton (n : Nat) : Nat → Nat → Nat
  | 0, root => root
  | steps + 1, root => forced ((root + n / root) / 2) (newton n steps)

end NearestEven

namespace Js.Number
set_option autoImplicit true

open NearestEven

/-- A double above the subnormal ones as a whole number and the binary places behind its point. -/
structure Scaled where
  num : Nat
  places : Nat

def Scaled.value (x : Scaled) : ℚ := x.num / 2 ^ x.places

/-- A guess, which `Scaled.ofFraction` checks. -/
def Scaled.placesOf (n d : Nat) : Nat :=
  forced (53 + logOf logBits d - logOf logBits n) fun most =>
    bif (n * 2 ^ most).blt (2 ^ 53 * d) then most else most - 1

/-- The double nearest to a fraction, if that is a double above the subnormal ones. -/
def Scaled.ofFraction (n d : Nat) : Option Scaled :=
  forced n fun n => forced d fun d => forced (placesOf n d) fun places =>
    forced (n * 2 ^ places) fun shifted =>
      bif Nat.blt 0 d && (2 ^ 52 * d).ble shifted && shifted.blt (2 ^ 53 * d) && places.ble 1074 then
        forced (roundFraction shifted d) fun num => some ⟨num, places⟩
      else none

/-- The double nearest to a number with `k` binary places behind the point. -/
def Scaled.ofDyadic (n k : Nat) : Option Scaled :=
  forced n fun n => forced (52 + k - logOf logBits n) fun places =>
    forced (2 ^ (k - places)) fun d =>
      bif (2 ^ 52 * d).ble n && n.blt (2 ^ 53 * d) && places.ble k && places.ble 1074 then
        forced (roundFraction n d) fun num => some ⟨num, places⟩
      else none

def Scaled.add (x y : Scaled) : Option Scaled :=
  ofDyadic (x.num * 2 ^ y.places + y.num * 2 ^ x.places) (x.places + y.places)

def Scaled.mul (x y : Scaled) : Option Scaled :=
  ofDyadic (x.num * y.num) (x.places + y.places)

def Scaled.div (x y : Scaled) : Option Scaled :=
  ofFraction (x.num * 2 ^ y.places) (y.num * 2 ^ x.places)

def Scaled.sqrt (x : Scaled) : Option Scaled :=
  forced ((105 + x.places - logOf logBits x.num) / 2) fun places =>
    forced (x.num * 2 ^ (2 * places - x.places)) fun square =>
      -- eight steps reach the root of a square of 105 or 106 places
      forced (newton square 8 (2 ^ 53)) fun root =>
        bif (2 ^ 104).ble square && square.blt (2 ^ 106) && x.places.ble (2 * places) &&
            places.ble 1074 && (root * root).ble square && square.blt ((root + 1) * (root + 1)) then
          forced (roundRoot square 1 root) fun num => some ⟨num, places⟩
        else none

/-- The nearest whole number, the larger one of two. -/
def Scaled.round (x : Scaled) : Nat := (2 * x.num + 2 ^ x.places) / 2 ^ (x.places + 1)

variable {n d k s : Nat} {x y z : Scaled}

theorem ofRat_of_keepsPlaces (h : KeepsPlaces 52 s n d) (hs : s ≤ 1074) :
    ofRat (n / d) = finite (Scaled.value ⟨roundFraction (n * 2 ^ s) d, s⟩) := by
  have hnearest : nearest 52 (-1074) (n / d : ℚ) = roundFraction (n * 2 ^ s) d / 2 ^ s :=
    h.nearest_eq (by omega)
  have hnum : (roundFraction (n * 2 ^ s) d : ℚ) ≤ 2 ^ 53 := by
    exact_mod_cast roundFraction_le h.upper
  have hle : (roundFraction (n * 2 ^ s) d / 2 ^ s : ℚ) ≤ 2 ^ 53 :=
    (div_le_self (Nat.cast_nonneg _) (one_le_pow₀ one_le_two)).trans hnum
  have hnonneg : (0 : ℚ) ≤ roundFraction (n * 2 ^ s) d / 2 ^ s := by positivity
  rw [ofRat, hnearest, if_neg, if_neg]
  · rfl
  · exact not_le.2 (lt_of_lt_of_le (by norm_num) hnonneg)
  · exact not_le.2 (hle.trans_lt (pow_lt_pow_right₀ one_lt_two (by norm_num)))

theorem Scaled.ofFraction_eq (h : ofFraction n d = some x) :
    0 < d ∧ ofRat (n / d) = finite x.value := by
  simp only [ofFraction, forced_eq, Bool.cond_eq_ite, Bool.and_eq_true, Nat.blt_eq, Nat.ble_eq] at h
  split at h
  · rename_i hkeeps
    obtain ⟨⟨⟨hd, hlower⟩, hupper⟩, hplaces⟩ := hkeeps
    cases h
    exact ⟨hd, ofRat_of_keepsPlaces ⟨hd, hlower, hupper⟩ hplaces⟩
  · cases h

theorem Scaled.ofDyadic_keeps (h : ofDyadic n k = some x) :
    KeepsPlaces 52 x.places n (2 ^ k) ∧ x.places ≤ 1074 ∧
      x.num = roundFraction (n * 2 ^ x.places) (2 ^ k) := by
  simp only [ofDyadic, forced_eq, Bool.cond_eq_ite, Bool.and_eq_true, Nat.blt_eq, Nat.ble_eq] at h
  split at h
  · rename_i hkeeps
    obtain ⟨⟨⟨hlower, hupper⟩, hle⟩, hplaces⟩ := hkeeps
    generalize 52 + k - logOf logBits n = places at *
    cases h
    have hpow : 2 ^ k = 2 ^ (k - places) * 2 ^ places := by
      rw [← pow_add, Nat.sub_add_cancel hle]
    refine ⟨⟨Nat.two_pow_pos k, ?_, ?_⟩, hplaces, ?_⟩
    · rw [hpow, ← mul_assoc]
      exact Nat.mul_le_mul_right _ hlower
    · rw [hpow, ← mul_assoc]
      exact Nat.mul_lt_mul_of_pos_right hupper (Nat.two_pow_pos places)
    · rw [hpow, roundFraction_mul _ _ (Nat.two_pow_pos places)]
  · cases h

theorem Scaled.ofDyadic_eq (h : ofDyadic n k = some x) :
    ofRat (n / 2 ^ k) = finite x.value := by
  obtain ⟨hkeeps, hplaces, hnum⟩ := ofDyadic_keeps h
  have hvalue := ofRat_of_keepsPlaces hkeeps hplaces
  rw [← hnum, Nat.cast_pow, Nat.cast_ofNat] at hvalue
  exact hvalue

theorem Scaled.add_eq (h : x.add y = some z) :
    (finite x.value).add (finite y.value) = finite z.value := by
  rw [← ofDyadic_eq h]
  apply congrArg ofRat
  rw [value, value, div_add_div _ _ (by positivity) (by positivity), pow_add]
  push_cast
  ring

theorem Scaled.mul_eq (h : x.mul y = some z) :
    (finite x.value).mul (finite y.value) = finite z.value := by
  rw [← ofDyadic_eq h]
  apply congrArg ofRat
  rw [value, value, div_mul_div_comm, pow_add]
  push_cast
  rfl

theorem Scaled.div_eq (h : x.div y = some z) :
    (finite x.value).div (finite y.value) = finite z.value := by
  obtain ⟨hpos, hz⟩ := ofFraction_eq h
  have hy : y.value ≠ 0 := by
    have hnum : 0 < y.num := Nat.pos_of_mul_pos_right hpos
    have hnum' : (0 : ℚ) < y.num := Nat.cast_pos.2 hnum
    rw [value]
    positivity
  rw [← hz, Number.div, if_neg hy]
  apply congrArg ofRat
  rw [value, value, div_div_div_eq]
  push_cast
  rw [mul_comm ((2 : ℚ) ^ x.places)]

theorem Scaled.sqrt_eq (h : x.sqrt = some z) : (finite x.value).sqrt = finite z.value := by
  simp only [Scaled.sqrt, forced_eq, Bool.cond_eq_ite, Bool.and_eq_true, Nat.blt_eq,
    Nat.ble_eq] at h
  generalize (105 + x.places - logOf logBits x.num) / 2 = places at h
  generalize hsquare : x.num * 2 ^ (2 * places - x.places) = square at h
  generalize newton square 8 (2 ^ 53) = root at h
  split at h
  · rename_i hkeeps
    obtain ⟨⟨⟨⟨⟨hlower, hupper⟩, hle⟩, hplaces⟩, hroot⟩, hroot'⟩ := hkeeps
    cases h
    have hshifted : x.num * 2 ^ (2 * places) = square * 2 ^ x.places := by
      rw [← hsquare, mul_assoc, ← pow_add, Nat.sub_add_cancel hle]
    have hpos : 0 < 2 ^ x.places := Nat.two_pow_pos _
    have hleast : (-1074 : Int) ≤ -places := by omega
    have hnearest := nearestSqrt_fraction (p := 52) hpos
      (hshifted ▸ Nat.mul_le_mul_right _ hlower)
      (hshifted ▸ Nat.mul_lt_mul_of_pos_right hupper hpos) hleast
    have hnonneg : 0 ≤ x.value := by
      rw [value]
      positivity
    have hone : roundRoot (square * 2 ^ x.places) (2 ^ x.places) root = roundRoot square 1 root := by
      have h := roundRoot_mul square 1 root hpos
      rwa [one_mul] at h
    rw [hshifted, Nat.mul_div_cancel _ hpos, ← Nat.eq_sqrt.2 ⟨hroot, hroot'⟩, hone, Nat.cast_pow,
      Nat.cast_ofNat] at hnearest
    rw [Number.sqrt, if_neg (not_lt.2 hnonneg), value, value, hnearest]
  · cases h

theorem Scaled.round_eq : (finite x.value).round = finite x.round := by
  have hhalf : x.value + 1 / 2 = (2 * x.num + 2 ^ x.places : Nat) / (2 ^ (x.places + 1) : Nat) := by
    rw [value, pow_succ, div_add_div _ _ (by positivity) two_ne_zero]
    push_cast
    ring
  rw [Number.round, hhalf, Rat.floor_natCast_div_natCast]
  rfl

end Js.Number
