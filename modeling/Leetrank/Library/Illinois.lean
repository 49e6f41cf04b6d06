import Mathlib.Topology.Instances.Real.Lemmas
import Mathlib.Topology.Order.IntermediateValue
import Mathlib.Data.Sign.Basic

namespace Illinois
set_option autoImplicit true

variable {K : Type u} [Field K] [LinearOrder K] [IsStrictOrderedRing K]

/-- Two ends of an interval, with the values that the method keeps for them. -/
structure Ends (K : Type u) where
  A : K
  B : K
  fA : K
  fB : K

/-- Where the line through the two values meets zero. -/
def Ends.secant (s : Ends K) : K := s.A + (s.A - s.B) * s.fA / (s.fB - s.fA)

/-- One round. The value of an end that stays is divided, by 2 in the original method. -/
def step (f : K → K) (d : K) (s : Ends K) : Ends K :=
  let C := s.secant
  let fC := f C
  if fC * s.fB ≤ 0 then ⟨s.B, C, s.fB, fC⟩ else ⟨s.A, C, s.fA / d, fC⟩

/-- The values at the ends have opposite signs, up to a divided value at the first end. -/
structure Brackets (f : K → K) (s : Ends K) : Prop where
  opposite : s.fA * s.fB ≤ 0
  sign : SignType.sign s.fA = SignType.sign (f s.A)
  value : s.fB = f s.B
  /-- While the ends differ, at most one of the values is zero. -/
  nonzero : s.A ≠ s.B → s.fA = 0 → s.fB ≠ 0

variable {f : K → K} {d : K} {s : Ends K}

theorem Brackets.sub_ne_zero (h : Brackets f s) (hne : s.A ≠ s.B) : s.fB - s.fA ≠ 0 := by
  intro hzero
  have heq : s.fB = s.fA := sub_eq_zero.1 hzero
  have hsq : s.fA * s.fA ≤ 0 := by
    have hopp := h.opposite
    rwa [heq] at hopp
  have hA : s.fA = 0 := mul_self_eq_zero.1 (le_antisymm hsq (mul_self_nonneg _))
  exact h.nonzero hne hA (heq.trans hA)

omit [LinearOrder K] [IsStrictOrderedRing K] in
/-- If the second value is zero already, the secant stays at its end. -/
theorem secant_eq_of_zero (hA : s.fA ≠ 0) (hB : s.fB = 0) : s.secant = s.B := by
  rw [Ends.secant, hB, zero_sub, mul_div_assoc, div_neg, div_self hA, mul_neg_one]
  ring

theorem sign_div (hd : 0 < d) (x : K) : SignType.sign (x / d) = SignType.sign x := by
  obtain hneg | rfl | hpos := lt_trichotomy x 0
  · rw [sign_neg hneg, sign_neg (div_neg_of_neg_of_pos hneg hd)]
  · rw [zero_div]
  · rw [sign_pos hpos, sign_pos (div_pos hpos hd)]

/-- A round keeps the bracket. -/
theorem Brackets.step (hd : 0 < d) (h : Brackets f s) (hne : s.A ≠ s.B) :
    Brackets f (step f d s) := by
  unfold Illinois.step
  by_cases hC : f s.secant * s.fB ≤ 0
  · simp only [if_pos hC]
    refine ⟨?_, ?_, rfl, ?_⟩
    · rwa [mul_comm]
    · rw [h.value]
    · -- both values vanish only where the secant has met the second end
      intro hends hB hfC
      have hA : s.fA ≠ 0 := fun hA => h.nonzero hne hA hB
      exact hends (secant_eq_of_zero hA hB).symm
  · simp only [if_neg hC]
    have hpos : 0 < f s.secant * s.fB := not_le.1 hC
    refine ⟨?_, ?_, rfl, ?_⟩
    · obtain ⟨hC, hB⟩ | ⟨hC, hB⟩ := mul_pos_iff.1 hpos
      · have hA : s.fA ≤ 0 := nonpos_of_mul_nonpos_left h.opposite hB
        exact mul_nonpos_of_nonpos_of_nonneg (div_nonpos_of_nonpos_of_nonneg hA hd.le) hC.le
      · have hA : 0 ≤ s.fA := nonneg_of_mul_nonpos_left h.opposite hB
        exact mul_nonpos_of_nonneg_of_nonpos (div_nonneg hA hd.le) hC.le
    · rw [sign_div hd, h.sign]
    · intro _ _ hfC
      have hzero : f s.secant * s.fB = 0 := mul_eq_zero_of_left hfC s.fB
      exact hpos.ne' hzero

/-- A loop of at most `limit` rounds, as long as the ends are more than `epsilon` apart. -/
def loop (f : K → K) (d epsilon : K) : Nat → Ends K → Ends K
  | 0, s => s
  | limit + 1, s => if epsilon < |s.B - s.A| then loop f d epsilon limit (step f d s) else s

/-- The states in which the loop tests its condition, with the rounds that are left. -/
inductive Head (f : K → K) (d epsilon : K) (start : Ends K) (limit : Nat) : Nat → Ends K → Prop
  | start : Head f d epsilon start limit limit start
  | round {s : Ends K} : Head f d epsilon start limit (left + 1) s → epsilon < |s.B - s.A| →
      Head f d epsilon start limit left (step f d s)

omit [IsStrictOrderedRing K] in
/-- The loop stops at one of the states in which it tests its condition. -/
theorem head_loop {epsilon : K} {start : Ends K} {limit left : Nat}
    (h : Head f d epsilon start limit left s) :
    ∃ left', Head f d epsilon start limit left' (loop f d epsilon left s) := by
  induction left generalizing s with
  | zero => exact ⟨0, h⟩
  | succ left ih =>
    rw [loop]
    by_cases hgo : epsilon < |s.B - s.A|
    · rw [if_pos hgo]
      exact ih (.round h hgo)
    · rw [if_neg hgo]
      exact ⟨_, h⟩

theorem ends_ne_of_lt {epsilon : K} (hepsilon : 0 < epsilon) (h : epsilon < |s.B - s.A|) :
    s.A ≠ s.B := by
  intro heq
  rw [heq, sub_self, abs_zero] at h
  exact lt_asymm hepsilon h

/-- What holds at the start holds at every test of the condition. -/
theorem Head.brackets {epsilon : K} (hd : 0 < d) (hepsilon : 0 < epsilon) {start : Ends K}
    {limit left : Nat} (hstart : Brackets f start) (h : Head f d epsilon start limit left s) :
    Brackets f s := by
  induction h with
  | start => exact hstart
  | round _ hgo ih => exact ih.step hd (ends_ne_of_lt hepsilon hgo)

/-- A continuous function has a root between ends that it brackets. -/
theorem Brackets.exists_root {f : ℝ → ℝ} {s : Ends ℝ} (h : Brackets f s) (hf : Continuous f) :
    ∃ x ∈ Set.uIcc s.A s.B, f x = 0 := by
  have hopp := h.opposite
  rw [h.value] at hopp
  have hmem : (0 : ℝ) ∈ Set.uIcc (f s.A) (f s.B) := by
    rw [Set.mem_uIcc]
    have hsign := h.sign
    obtain hneg | hzero | hpos := lt_trichotomy (f s.A) 0
    · rw [sign_neg hneg, sign_eq_neg_one_iff] at hsign
      exact .inl ⟨hneg.le, nonneg_of_mul_nonpos_right hopp hsign⟩
    · obtain hle | hle := le_total 0 (f s.B)
      · exact .inl ⟨hzero.le, hle⟩
      · exact .inr ⟨hle, hzero.ge⟩
    · rw [sign_pos hpos, sign_eq_one_iff] at hsign
      exact .inr ⟨nonpos_of_mul_nonpos_right hopp hsign, hpos.le⟩
  exact intermediate_value_uIcc hf.continuousOn hmem

end Illinois
