import Leetrank.Library.JsValue
import Mathlib.Data.Sign.Defs

namespace Js.Number
set_option autoImplicit true

open NearestEven

/-- The sign of a number, which NaN has none of. -/
def sign : Number → SignType
  | .finite q => SignType.sign q
  | .posInfinity => 1
  | .negInfinity => -1
  | .nan => 0

def infinity : SignType → Number
  | .pos => .posInfinity
  | .neg => .negInfinity
  | .zero => .nan

def add : Number → Number → Number
  | .finite p, .finite q => ofRat (p + q)
  | .posInfinity, .finite _ | .finite _, .posInfinity => .posInfinity
  | .posInfinity, .posInfinity => .posInfinity
  | .negInfinity, .finite _ | .finite _, .negInfinity => .negInfinity
  | .negInfinity, .negInfinity => .negInfinity
  | _, _ => .nan

def mul : Number → Number → Number
  | .finite p, .finite q => ofRat (p * q)
  | x, y => infinity (x.sign * y.sign)

/-- A quotient, where a zero divisor is the positive one. -/
def div : Number → Number → Number
  | .finite p, .finite q => if q = 0 then infinity (SignType.sign p) else ofRat (p / q)
  | x, .finite q => infinity (if q < 0 then -x.sign else x.sign)
  | .finite _, .posInfinity | .finite _, .negInfinity => .finite 0
  | _, _ => .nan

def sqrt : Number → Number
  | .finite q => if q < 0 then .nan else .finite (nearestSqrt 52 (-1074) q)
  | .posInfinity => .posInfinity
  | _ => .nan

/-- `Math.round`, which rounds a half up. -/
def round : Number → Number
  | .finite q => .finite ⌊q + 1 / 2⌋
  | x => x

/-- The smaller of a finite number and another, as `Math.min` has it. -/
def min (most : ℚ) : Number → Number
  | .nan => .nan
  | .posInfinity => .finite most
  | .negInfinity => .negInfinity
  | .finite q => .finite (Min.min most q)

instance : LE Number := ⟨fun x y => y.gt x ∨ x = y ∧ x ≠ .nan⟩

instance (x y : Number) : Decidable (x ≤ y) :=
  inferInstanceAs (Decidable (y.gt x ∨ x = y ∧ x ≠ .nan))

/-- A number that double precision has. -/
def IsDouble : Number → Prop
  | .finite q => ofRat q = .finite q
  | _ => True

instance : (x : Number) → Decidable x.IsDouble
  | .finite q => inferInstanceAs (Decidable (ofRat q = .finite q))
  | .nan | .posInfinity | .negInfinity => .isTrue trivial

variable {x x' y y' : Number} {p q : ℚ}

@[simp]
theorem finite_le_finite : finite p ≤ finite q ↔ p ≤ q := by
  constructor
  · rintro (hlt | ⟨heq, -⟩)
    · exact (of_decide_eq_true hlt).le
    · exact (finite.inj heq).le
  · intro h
    rcases h.lt_or_eq with hlt | rfl
    · exact .inl (decide_eq_true hlt)
    · exact .inr ⟨rfl, nofun⟩

@[simp]
theorem finite_le_posInfinity : finite p ≤ posInfinity :=
  .inl rfl

@[simp]
theorem posInfinity_le_posInfinity : posInfinity ≤ posInfinity :=
  .inr ⟨rfl, nofun⟩

/-- From a finite number on there are the larger ones and the infinite one. -/
theorem cases_of_finite_le (h : finite p ≤ x) : x = posInfinity ∨ ∃ q, p ≤ q ∧ x = finite q := by
  cases x with
  | posInfinity => exact .inl rfl
  | finite q => exact .inr ⟨q, finite_le_finite.1 h, rfl⟩
  | nan | negInfinity =>
    rcases h with hgt | ⟨heq, -⟩
    · cases hgt
    · cases heq

theorem eq_posInfinity_of_le (h : posInfinity ≤ x) : x = posInfinity := by
  rcases h with hgt | ⟨heq, -⟩
  · cases x <;> cases hgt
  · exact heq.symm

theorem le_refl_of_finite_le (hx : finite p ≤ x) : x ≤ x := by
  rcases cases_of_finite_le hx with rfl | ⟨a, -, rfl⟩
  · exact posInfinity_le_posInfinity
  · exact finite_le_finite.2 le_rfl

theorem finite_le_trans (hx : finite p ≤ x) (h : x ≤ x') : finite p ≤ x' := by
  rcases cases_of_finite_le hx with rfl | ⟨a, ha, rfl⟩
  · rwa [eq_posInfinity_of_le h]
  · rcases cases_of_finite_le h with rfl | ⟨b, hab, rfl⟩
    · exact finite_le_posInfinity
    · exact finite_le_finite.2 (ha.trans hab)

theorem ofRat_mono (hp : 0 ≤ p) (h : p ≤ q) : ofRat p ≤ ofRat q := by
  have hnonneg : ∀ r : ℚ, 0 ≤ r → ¬nearest 52 (-1074) r ≤ -(2 : ℚ) ^ 1024 := by
    intro r hr
    have hneg : -(2 : ℚ) ^ 1024 < 0 := neg_lt_zero.2 (by positivity)
    exact not_le.2 (hneg.trans_le (nearest_nonneg 52 (-1074) hr))
  have hle := nearest_mono 52 (-1074) hp h
  rw [ofRat, ofRat, if_neg (hnonneg p hp), if_neg (hnonneg q (hp.trans h))]
  split
  · rename_i hbig
    rw [if_pos (hbig.trans hle)]
    exact posInfinity_le_posInfinity
  · split
    · exact finite_le_posInfinity
    · exact finite_le_finite.2 hle

theorem ofRat_zero : ofRat 0 = finite 0 := by
  rw [ofRat, nearest_zero, if_neg (by norm_num), if_neg (by norm_num)]

theorem ofRat_nonneg (hp : 0 ≤ p) : finite 0 ≤ ofRat p := by
  have h := ofRat_mono le_rfl hp
  rwa [ofRat_zero] at h

/-- Of two numbers in order the larger one is infinite, or both are finite. -/
theorem cases_of_le (hx : finite p ≤ x) (h : x ≤ x') :
    x' = posInfinity ∨ ∃ a b, p ≤ a ∧ a ≤ b ∧ x = finite a ∧ x' = finite b := by
  rcases cases_of_finite_le hx with rfl | ⟨a, ha, rfl⟩
  · exact .inl (eq_posInfinity_of_le h)
  · rcases cases_of_finite_le h with rfl | ⟨b, hab, rfl⟩
    · exact .inl rfl
    · exact .inr ⟨a, b, ha, hab, rfl, rfl⟩

theorem le_posInfinity (hx : finite p ≤ x) : x ≤ posInfinity := by
  rcases cases_of_finite_le hx with rfl | ⟨a, -, rfl⟩
  · exact posInfinity_le_posInfinity
  · exact finite_le_posInfinity

theorem posInfinity_add (hy : finite p ≤ y) : posInfinity.add y = posInfinity := by
  rcases cases_of_finite_le hy with rfl | ⟨a, -, rfl⟩ <;> rfl

theorem add_nonneg (hx : finite 0 ≤ x) (hy : finite 0 ≤ y) : finite 0 ≤ x.add y := by
  rcases cases_of_finite_le hx with rfl | ⟨a, ha, rfl⟩
  · rw [posInfinity_add hy]
    exact finite_le_posInfinity
  · rcases cases_of_finite_le hy with rfl | ⟨b, hb, rfl⟩
    · exact finite_le_posInfinity
    · exact ofRat_nonneg (by positivity)

theorem add_mono (hx : finite 0 ≤ x) (hxx : x ≤ x') (hy : finite 0 ≤ y) (hyy : y ≤ y') :
    x.add y ≤ x'.add y' := by
  have hle := le_posInfinity (add_nonneg hx hy)
  rcases cases_of_le hx hxx with rfl | ⟨a, b, ha, hab, rfl, rfl⟩
  · rcases cases_of_le hy hyy with rfl | ⟨c, d, -, -, rfl, rfl⟩
    · exact hle
    · exact hle
  · rcases cases_of_le hy hyy with rfl | ⟨c, d, hc, hcd, rfl, rfl⟩
    · exact hle
    · exact ofRat_mono (by positivity) (by linarith)

theorem mul_self_nonneg (hx : finite 0 ≤ x) : finite 0 ≤ x.mul x := by
  rcases cases_of_finite_le hx with rfl | ⟨a, ha, rfl⟩
  · exact finite_le_posInfinity
  · exact ofRat_nonneg (by positivity)

theorem mul_self_mono (hx : finite 0 ≤ x) (h : x ≤ x') : x.mul x ≤ x'.mul x' := by
  have hle := le_posInfinity (mul_self_nonneg hx)
  rcases cases_of_le hx h with rfl | ⟨a, b, ha, hab, rfl, rfl⟩
  · exact hle
  · exact ofRat_mono (by positivity) (mul_self_le_mul_self ha hab)

theorem posInfinity_mul (hq : 0 < q) : posInfinity.mul (finite q) = posInfinity := by
  rw [mul, sign, sign, sign_pos hq]
  · rfl
  · exact nofun

theorem mul_finite_nonneg (hx : finite 0 ≤ x) (hq : 0 < q) : finite 0 ≤ x.mul (finite q) := by
  rcases cases_of_finite_le hx with rfl | ⟨a, ha, rfl⟩
  · rw [posInfinity_mul hq]
    exact finite_le_posInfinity
  · exact ofRat_nonneg (by positivity)

theorem mul_finite_mono (hx : finite 0 ≤ x) (h : x ≤ x') (hq : 0 < q) :
    x.mul (finite q) ≤ x'.mul (finite q) := by
  have hle := le_posInfinity (mul_finite_nonneg hx hq)
  rcases cases_of_le hx h with rfl | ⟨a, b, ha, hab, rfl, rfl⟩
  · rwa [posInfinity_mul hq]
  · exact ofRat_mono (by positivity) (by gcongr)

theorem sqrt_nonneg (hx : finite 0 ≤ x) : finite 0 ≤ x.sqrt := by
  rcases cases_of_finite_le hx with rfl | ⟨a, ha, rfl⟩
  · exact finite_le_posInfinity
  · rw [sqrt, if_neg (not_lt.2 ha)]
    exact finite_le_finite.2 (nearestSqrt_nonneg 52 (-1074) ha)

theorem sqrt_mono (hx : finite 0 ≤ x) (h : x ≤ x') : x.sqrt ≤ x'.sqrt := by
  have hle := le_posInfinity (sqrt_nonneg hx)
  rcases cases_of_le hx h with rfl | ⟨a, b, ha, hab, rfl, rfl⟩
  · exact hle
  · rw [sqrt, sqrt, if_neg (not_lt.2 ha), if_neg (not_lt.2 (ha.trans hab))]
    exact finite_le_finite.2 (nearestSqrt_mono 52 (-1074) ha hab)

theorem round_mono (hx : finite p ≤ x) (h : x ≤ x') : x.round ≤ x'.round := by
  rcases cases_of_le hx h with rfl | ⟨a, b, -, hab, rfl, rfl⟩
  · rcases cases_of_finite_le hx with rfl | ⟨a, -, rfl⟩
    · exact posInfinity_le_posInfinity
    · exact finite_le_posInfinity
  · have hfloor : ⌊a + 1 / 2⌋ ≤ ⌊b + 1 / 2⌋ := Int.floor_le_floor (by linarith)
    exact finite_le_finite.2 (Int.cast_le.2 hfloor)

theorem round_nonneg (hx : finite 0 ≤ x) : finite 0 ≤ x.round := by
  rcases cases_of_finite_le hx with rfl | ⟨a, ha, rfl⟩
  · exact finite_le_posInfinity
  · have hfloor : 0 ≤ ⌊a + 1 / 2⌋ := Int.floor_nonneg.2 (by positivity)
    exact finite_le_finite.2 (Int.cast_nonneg hfloor)

theorem min_mono (most : ℚ) (hx : finite p ≤ x) (h : x ≤ x') : x.min most ≤ x'.min most := by
  rcases cases_of_le hx h with rfl | ⟨a, b, -, hab, rfl, rfl⟩
  · rcases cases_of_finite_le hx with rfl | ⟨a, -, rfl⟩
    · exact finite_le_finite.2 le_rfl
    · exact finite_le_finite.2 (min_le_left most a)
  · exact finite_le_finite.2 (min_le_min_left most hab)

theorem nearest_of_isDouble (h : (finite q).IsDouble) : nearest 52 (-1074) q = q := by
  rw [IsDouble, ofRat] at h
  split at h
  · cases h
  · split at h
    · cases h
    · exact finite.inj h

/-- Between a double that is no power of two and the one before it there is none. -/
theorem le_sub_of_isDouble (hp : (finite p).IsDouble) (hq : (finite q).IsDouble)
    (hpos : 0 < p) (hlt : p < q)
    (hbinade : 2 ^ ((52 : Nat) + NearestEven.exponent 52 (-1074) q) < q) :
    p ≤ q - 2 ^ NearestEven.exponent 52 (-1074) q :=
  le_sub_of_lt (nearest_of_isDouble hp) (nearest_of_isDouble hq) hpos hlt hbinade

end Js.Number
