import Leetrank.Library.Histogram
import Leetrank.Library.JsValue

namespace Leetrank.Runtimes
set_option autoImplicit true

/-- The value of a runtime, unless it is one that is skipped. -/
def validRuntime : Js.Number → Option ℚ
  | .finite r => if 0 ≤ r then some r else none
  | .nan | .posInfinity | .negInfinity => none

def validRuntimes (runtimes : List Js.Number) : List ℚ := runtimes.filterMap validRuntime

structure DistributionBucket where
  min : ℚ
  max : ℚ
  bucket : Nat
  count : Nat
deriving DecidableEq

/-- `Math.min` of the values, of which there is at least one. -/
def minOf (valid : List ℚ) : ℚ := valid.min?.getD 0

def maxOf (valid : List ℚ) : ℚ := valid.max?.getD 0

/-- The index that is counted up for a value. -/
def countingIndex (min width : ℚ) (safeBuckets : Nat) (r : ℚ) : Nat :=
  let idx : Int := ⌊(r - min) / width⌋
  let idx : Int := if safeBuckets ≤ idx then safeBuckets - 1 else idx
  let idx : Int := if idx < 0 then 0 else idx
  idx.toNat

def safeBuckets (buckets : ℚ) : Nat := (max 1 ⌊buckets⌋).toNat

def runtimeDistribution (runtimes : List Js.Number) (buckets : ℚ) : List DistributionBucket :=
  let safeBuckets := safeBuckets buckets
  let valid := validRuntimes runtimes
  if valid.length = 0 then
    (List.range safeBuckets).map fun i => { min := 0, max := 0, bucket := i, count := 0 }
  else
    let min := minOf valid
    let max := maxOf valid
    if min = max then
      (List.range safeBuckets).map fun i =>
        { min := min, max := max, bucket := i, count := if i = 0 then valid.length else 0 }
    else
      let width := (max - min) / safeBuckets
      let counts := Histogram.counts (countingIndex min width safeBuckets) safeBuckets valid
      counts.zipIdx.map fun (count, i) =>
        { min := min + width * i
          max := if i = safeBuckets - 1 then max else min + width * (i + 1)
          bucket := i
          count := count }

/-- Only the last bucket holds its upper bound. -/
def DistributionBucket.holds (b : DistributionBucket) (isLast : Bool) (runtime : ℚ) : Bool :=
  b.min ≤ runtime && if isLast then runtime ≤ b.max else runtime < b.max

def bucketIndexFor (runtime : Js.Number) (distribution : List DistributionBucket) : Int :=
  match validRuntime runtime with
  | none => -1
  | some r =>
    match distribution.zipIdx.findIdx? fun (b, i) => b.holds (i = distribution.length - 1) r with
    | none => -1
    | some i => i

/-- The index of the bucket in which a distribution has counted a valid value. -/
def countedIn (runtimes : List Js.Number) (buckets : ℚ) (r : ℚ) : Nat :=
  let valid := validRuntimes runtimes
  if minOf valid = maxOf valid then 0
  else
    countingIndex (minOf valid) ((maxOf valid - minOf valid) / safeBuckets buckets)
      (safeBuckets buckets) r

/-- Buckets side by side from the least value to the greatest one, each with the number of the
values between its bounds. -/
structure Covers (valid : List ℚ) (distribution : List DistributionBucket) : Prop where
  first : ∃ b, distribution.head? = some b ∧ IsLeast {r | r ∈ valid} b.min
  last : ∃ b, distribution.getLast? = some b ∧ IsGreatest {r | r ∈ valid} b.max
  contiguous : distribution.IsChain fun a b => a.max = b.min
  increasing : ∀ b ∈ distribution, b.min < b.max
  counts : ∀ (i : Nat) (b : DistributionBucket), distribution[i]? = some b →
    b.count = valid.countP (b.holds (i = distribution.length - 1))

/-- There are two values that differ. -/
def Spread (valid : List ℚ) : Prop := ∃ a ∈ valid, ∃ b ∈ valid, a ≠ b

variable {runtimes : List Js.Number} {valid : List ℚ} {lo hi width r : ℚ} {n i : Nat}

theorem safeBuckets_natCast (hn : 1 ≤ n) : safeBuckets n = n := by
  rw [safeBuckets, Int.floor_natCast]
  omega

theorem minOf_isLeast (h : valid ≠ []) : IsLeast {a | a ∈ valid} (minOf valid) := by
  obtain ⟨m, hm⟩ := Option.isSome_iff_exists.1 (List.isSome_min?_of_ne_nil h)
  obtain ⟨hmem, hle⟩ := List.min?_eq_some_iff.1 hm
  rw [minOf, hm]
  exact ⟨hmem, hle⟩

theorem maxOf_isGreatest (h : valid ≠ []) : IsGreatest {a | a ∈ valid} (maxOf valid) := by
  obtain ⟨m, hm⟩ := Option.isSome_iff_exists.1 (List.isSome_max?_of_ne_nil h)
  obtain ⟨hmem, hle⟩ := List.max?_eq_some_iff.1 hm
  rw [maxOf, hm]
  exact ⟨hmem, hle⟩

theorem minOf_ne_maxOf_iff : minOf valid ≠ maxOf valid ↔ Spread valid := by
  constructor
  · intro hne
    have hvalid : valid ≠ [] := by
      rintro rfl
      exact hne rfl
    exact ⟨_, (minOf_isLeast hvalid).1, _, (maxOf_isGreatest hvalid).1, hne⟩
  · rintro ⟨a, ha, b, hb, hab⟩ heq
    have hvalid := List.ne_nil_of_mem ha
    have hall : ∀ c ∈ valid, c = minOf valid := by
      intro c hc
      exact le_antisymm (heq ▸ (maxOf_isGreatest hvalid).2 hc) ((minOf_isLeast hvalid).2 hc)
    exact hab ((hall a ha).trans (hall b hb).symm)

theorem minOf_lt_maxOf (h : Spread valid) : minOf valid < maxOf valid := by
  have hvalid : valid ≠ [] := List.ne_nil_of_mem h.choose_spec.1
  exact lt_of_le_of_ne ((minOf_isLeast hvalid).2 (maxOf_isGreatest hvalid).1)
    (minOf_ne_maxOf_iff.2 h)

theorem countingIndex_lt (hn : 1 ≤ n) : countingIndex lo width n r < n := by
  rw [countingIndex]
  split_ifs <;> omega

/-- The clamp only matters for the greatest value, which the last bucket holds. -/
theorem countingIndex_eq_iff (hw : 0 < width) (hlo : lo ≤ r) (hi : i < n) :
    countingIndex lo width n r = i ↔
      lo + width * i ≤ r ∧ (i = n - 1 ∨ r < lo + width * (i + 1)) := by
  have hz := Histogram.floor_div_nonneg hw hlo
  have hle : (i : Int) ≤ ⌊(r - lo) / width⌋ ↔ lo + width * i ≤ r := by
    exact_mod_cast Histogram.le_floor_div_iff hw
  have hlt : (i + 1 : Int) ≤ ⌊(r - lo) / width⌋ ↔ lo + width * (i + 1) ≤ r := by
    exact_mod_cast Histogram.le_floor_div_iff hw
  rw [← hle, ← not_le, ← hlt, countingIndex]
  split_ifs <;> omega

/-- The bound between two buckets of `n`. -/
def bound (valid : List ℚ) (n i : Nat) : ℚ :=
  minOf valid + (maxOf valid - minOf valid) / n * i

theorem bound_succ : bound valid n (i + 1) =
    minOf valid + (maxOf valid - minOf valid) / n * (i + 1) := by
  rw [bound, Nat.cast_succ]

theorem bound_zero : bound valid n 0 = minOf valid := by
  rw [bound, Nat.cast_zero, mul_zero, add_zero]

theorem bound_self (hn : 1 ≤ n) : bound valid n n = maxOf valid :=
  Histogram.last_end (Nat.one_le_iff_ne_zero.1 hn)

theorem bound_lt (h : Spread valid) (hn : 1 ≤ n) : bound valid n i < bound valid n (i + 1) := by
  have hw : 0 < (maxOf valid - minOf valid) / n :=
    div_pos (sub_pos.2 (minOf_lt_maxOf h)) (Nat.cast_pos.2 hn)
  rw [bound_succ, bound]
  gcongr
  exact lt_add_one _

theorem one_le_safeBuckets (buckets : ℚ) : 1 ≤ safeBuckets buckets := by
  rw [safeBuckets]
  omega

@[simp]
theorem length_runtimeDistribution (runtimes : List Js.Number) (buckets : ℚ) :
    (runtimeDistribution runtimes buckets).length = safeBuckets buckets := by
  rw [runtimeDistribution]
  dsimp only
  split_ifs
  · rw [List.length_map, List.length_range]
  · rw [List.length_map, List.length_range]
  · rw [List.length_map, List.length_zipIdx, Histogram.length_counts]

theorem getElem?_of_spread (h : Spread (validRuntimes runtimes)) (hi : i < safeBuckets buckets) :
    (runtimeDistribution runtimes buckets)[i]? = some
      { min := bound (validRuntimes runtimes) (safeBuckets buckets) i
        max := bound (validRuntimes runtimes) (safeBuckets buckets) (i + 1)
        bucket := i
        count := (validRuntimes runtimes).countP fun r => countedIn runtimes buckets r = i } := by
  have hvalid : (validRuntimes runtimes).length ≠ 0 :=
    fun h0 => List.ne_nil_of_mem h.choose_spec.1 (List.length_eq_zero_iff.1 h0)
  have hne := minOf_ne_maxOf_iff.2 h
  rw [runtimeDistribution]
  simp only [if_neg hvalid, if_neg hne, List.getElem?_map, List.getElem?_zipIdx,
    Histogram.getElem?_counts hi, Option.map_some, countedIn, Nat.zero_add]
  congr 2
  split_ifs
  next hlast =>
    rw [hlast, Nat.sub_add_cancel (one_le_safeBuckets buckets),
      bound_self (one_le_safeBuckets buckets)]
  next => exact bound_succ.symm

theorem count_of_getElem? (h : (runtimeDistribution runtimes buckets)[i]? = some b) :
    b.bucket = i ∧
      b.count = (validRuntimes runtimes).countP fun r => countedIn runtimes buckets r = i := by
  have hi : i < safeBuckets buckets := by
    rw [← length_runtimeDistribution runtimes]
    exact (List.getElem?_eq_some_iff.1 h).1
  by_cases hs : Spread (validRuntimes runtimes)
  · rw [getElem?_of_spread hs hi] at h
    cases h
    exact ⟨rfl, rfl⟩
  · have heq := not_not.1 (mt minOf_ne_maxOf_iff.1 hs)
    -- all values are equal, or there is none
    have hcounted : ∀ r, countedIn runtimes buckets r = 0 := fun _ => if_pos heq
    simp only [hcounted]
    rw [runtimeDistribution] at h
    dsimp only at h
    rw [if_pos heq] at h
    split at h
    next hnone =>
      rw [List.getElem?_map, List.getElem?_range hi] at h
      cases h
      exact ⟨rfl, by rw [List.length_eq_zero_iff.1 hnone, List.countP_nil]⟩
    next =>
      rw [List.getElem?_map, List.getElem?_range hi] at h
      cases h
      refine ⟨rfl, ?_⟩
      by_cases h0 : i = 0
      · simp [h0]
      · simp [h0, Ne.symm h0]

/-- Each bucket counts the values that are counted in it. -/
theorem map_count_eq (runtimes : List Js.Number) (buckets : ℚ) :
    (runtimeDistribution runtimes buckets).map (fun b => b.count) =
      Histogram.counts (countedIn runtimes buckets) (safeBuckets buckets)
        (validRuntimes runtimes) := by
  apply List.ext_getElem?
  intro i
  by_cases hi : i < safeBuckets buckets
  · have hlen : i < (runtimeDistribution runtimes buckets).length := by
      rwa [length_runtimeDistribution]
    have hb := List.getElem?_eq_getElem hlen
    rw [List.getElem?_map, Histogram.getElem?_counts hi, hb, Option.map_some,
      (count_of_getElem? hb).2]
  · rw [List.getElem?_eq_none, List.getElem?_eq_none]
    · rw [Histogram.length_counts]
      exact Nat.le_of_not_lt hi
    · rw [List.length_map, length_runtimeDistribution]
      exact Nat.le_of_not_lt hi

theorem countedIn_lt (runtimes : List Js.Number) (buckets r : ℚ) :
    countedIn runtimes buckets r < safeBuckets buckets := by
  rw [countedIn]
  split
  · exact one_le_safeBuckets buckets
  · exact countingIndex_lt (one_le_safeBuckets buckets)

/-- Every value is counted once. -/
theorem sum_count (runtimes : List Js.Number) (buckets : ℚ) :
    ((runtimeDistribution runtimes buckets).map fun b => b.count).sum =
      (validRuntimes runtimes).length := by
  rw [map_count_eq]
  exact Histogram.sum_counts fun r _ => countedIn_lt runtimes buckets r

/-- Where the values differ, a bucket holds just what is counted in it. -/
theorem holds_iff (h : Spread (validRuntimes runtimes)) (hr : r ∈ validRuntimes runtimes)
    (hb : (runtimeDistribution runtimes buckets)[i]? = some b) :
    b.holds (i = safeBuckets buckets - 1) r = true ↔ countedIn runtimes buckets r = i := by
  have hi : i < safeBuckets buckets := by
    rw [← length_runtimeDistribution runtimes]
    exact (List.getElem?_eq_some_iff.1 hb).1
  have hvalid := List.ne_nil_of_mem hr
  have hw : 0 < (maxOf (validRuntimes runtimes) - minOf (validRuntimes runtimes)) /
      safeBuckets buckets :=
    div_pos (sub_pos.2 (minOf_lt_maxOf h)) (Nat.cast_pos.2 (one_le_safeBuckets buckets))
  rw [getElem?_of_spread h hi] at hb
  cases hb
  rw [countedIn]
  rw [if_neg (minOf_ne_maxOf_iff.2 h),
    countingIndex_eq_iff hw ((minOf_isLeast hvalid).2 hr) hi, DistributionBucket.holds,
    Bool.and_eq_true, decide_eq_true_eq]
  refine and_congr Iff.rfl ?_
  by_cases hlast : i = safeBuckets buckets - 1
  · rw [if_pos (decide_eq_true hlast), decide_eq_true_eq]
    refine iff_of_true ?_ (.inl hlast)
    rw [hlast, Nat.sub_add_cancel (one_le_safeBuckets buckets),
      bound_self (one_le_safeBuckets buckets)]
    exact (maxOf_isGreatest hvalid).2 hr
  · rw [if_neg (by simpa using hlast), decide_eq_true_eq, or_iff_right hlast, bound_succ]

theorem runtimeDistribution_covers (h : Spread (validRuntimes runtimes)) (buckets : ℚ) :
    Covers (validRuntimes runtimes) (runtimeDistribution runtimes buckets) := by
  have hk := one_le_safeBuckets buckets
  have hvalid : validRuntimes runtimes ≠ [] := List.ne_nil_of_mem h.choose_spec.1
  have hlen := length_runtimeDistribution runtimes buckets
  constructor
  · have h0 := getElem?_of_spread h hk
    rw [← List.head?_eq_getElem?] at h0
    refine ⟨_, h0, ?_⟩
    rw [bound_zero]
    exact minOf_isLeast hvalid
  · have hlast := getElem?_of_spread h (Nat.sub_lt hk Nat.one_pos)
    rw [← hlen, ← List.getLast?_eq_getElem?, hlen] at hlast
    refine ⟨_, hlast, ?_⟩
    rw [Nat.sub_add_cancel hk, bound_self hk]
    exact maxOf_isGreatest hvalid
  · rw [List.isChain_iff_getElem]
    intro i hi
    rw [hlen] at hi
    obtain ⟨_, ha⟩ := List.getElem?_eq_some_iff.1 (getElem?_of_spread h (Nat.lt_of_succ_lt hi))
    obtain ⟨_, hb⟩ := List.getElem?_eq_some_iff.1 (getElem?_of_spread h hi)
    rw [ha, hb]
  · intro b hb
    obtain ⟨i, hi⟩ := List.mem_iff_getElem?.1 hb
    have hlt : i < safeBuckets buckets := by
      rw [← hlen]
      exact (List.getElem?_eq_some_iff.1 hi).1
    rw [getElem?_of_spread h hlt] at hi
    cases hi
    exact bound_lt h hk
  · intro i b hb
    rw [(count_of_getElem? hb).2, hlen]
    apply List.countP_congr
    intro r hr
    rw [decide_eq_true_eq]
    exact (holds_iff h hr hb).symm

theorem validRuntime_eq_some_iff {x : Js.Number} :
    validRuntime x = some r ↔ x = .finite r ∧ 0 ≤ r := by
  cases x with
  | nan => simp [validRuntime]
  | posInfinity => simp [validRuntime]
  | negInfinity => simp [validRuntime]
  | finite q =>
    simp only [validRuntime, Option.ite_none_right_eq_some, Option.some.injEq,
      Js.Number.finite.injEq]
    constructor
    · rintro ⟨hq, rfl⟩
      exact ⟨rfl, hq⟩
    · rintro ⟨rfl, hr⟩
      exact ⟨hr, rfl⟩

theorem validRuntime_of_mem (hr : r ∈ validRuntimes runtimes) :
    validRuntime (.finite r) = some r := by
  obtain ⟨x, -, hx⟩ := List.mem_filterMap.1 hr
  exact validRuntime_eq_some_iff.2 ⟨rfl, (validRuntime_eq_some_iff.1 hx).2⟩

/-- The lookup finds the only bucket that holds a value. -/
theorem bucketIndexFor_eq {distribution : List DistributionBucket}
    (hr : validRuntime (.finite r) = some r) (hi : i < distribution.length)
    (h : ∀ (j : Nat) (b : DistributionBucket), distribution[j]? = some b →
      (b.holds (j = distribution.length - 1) r = true ↔ i = j)) :
    bucketIndexFor (.finite r) distribution = i := by
  have hfind : distribution.zipIdx.findIdx?
      (fun (b, i) => b.holds (i = distribution.length - 1) r) = some i := by
    rw [List.findIdx?_eq_some_iff_getElem]
    refine ⟨by rwa [List.length_zipIdx], ?_, ?_⟩
    · rw [List.getElem_zipIdx, Nat.zero_add]
      exact (h i _ (List.getElem?_eq_getElem hi)).2 rfl
    · intro j hj
      rw [List.getElem_zipIdx, Nat.zero_add]
      intro hholds
      exact Nat.ne_of_gt hj ((h j _ (List.getElem?_eq_getElem (hj.trans hi))).1 hholds)
  rw [bucketIndexFor, hr]
  dsimp only
  rw [hfind]

theorem bucketIndexFor_of_spread (h : Spread (validRuntimes runtimes))
    (hr : r ∈ validRuntimes runtimes) (buckets : ℚ) :
    bucketIndexFor (.finite r) (runtimeDistribution runtimes buckets) =
      countedIn runtimes buckets r := by
  apply bucketIndexFor_eq (validRuntime_of_mem hr)
  · rw [length_runtimeDistribution]
    exact countedIn_lt runtimes buckets r
  · intro j b hb
    rw [length_runtimeDistribution]
    exact holds_iff h hr hb

theorem getElem?_of_not_spread (h : ¬Spread (validRuntimes runtimes))
    (hr : r ∈ validRuntimes runtimes)
    (hb : (runtimeDistribution runtimes buckets)[i]? = some b) : b.min = r ∧ b.max = r := by
  have heq := not_not.1 (mt minOf_ne_maxOf_iff.1 h)
  have hvalid := List.ne_nil_of_mem hr
  have hmin : minOf (validRuntimes runtimes) = r := by
    by_contra hne
    exact h ⟨_, (minOf_isLeast hvalid).1, r, hr, hne⟩
  rw [runtimeDistribution] at hb
  dsimp only at hb
  rw [if_neg (fun h0 => hvalid (List.length_eq_zero_iff.1 h0)), if_pos heq, List.getElem?_map]
    at hb
  obtain ⟨j, -, rfl⟩ := Option.map_eq_some_iff.1 hb
  exact ⟨hmin, heq.symm.trans hmin⟩

/-- Equal values are looked up in the last bucket. -/
theorem bucketIndexFor_of_not_spread (h : ¬Spread (validRuntimes runtimes))
    (hr : r ∈ validRuntimes runtimes) (buckets : ℚ) :
    bucketIndexFor (.finite r) (runtimeDistribution runtimes buckets) =
      (safeBuckets buckets - 1 : Nat) := by
  have hk := one_le_safeBuckets buckets
  apply bucketIndexFor_eq (validRuntime_of_mem hr)
  · rw [length_runtimeDistribution]
    exact Nat.sub_lt hk Nat.one_pos
  · intro j b hb
    obtain ⟨hmin, hmax⟩ := getElem?_of_not_spread h hr hb
    rw [length_runtimeDistribution, DistributionBucket.holds, hmin, hmax]
    by_cases hj : j = safeBuckets buckets - 1
    · simp [hj]
    · simp [hj, Ne.symm hj]

/-- The runtimes are counted once each, and between the bounds of the buckets if they differ. -/
theorem runtimeDistribution_partition (runtimes : List Js.Number) (n : Nat) (hn : 1 ≤ n) :
    (runtimeDistribution runtimes n).length = n ∧
      ((runtimeDistribution runtimes n).map fun b => b.count).sum =
        (validRuntimes runtimes).length ∧
      (Spread (validRuntimes runtimes) →
        Covers (validRuntimes runtimes) (runtimeDistribution runtimes n)) := by
  refine ⟨?_, sum_count runtimes n, fun h => runtimeDistribution_covers h n⟩
  rw [length_runtimeDistribution, safeBuckets_natCast hn]

theorem spread_two_runtimes : Spread (validRuntimes [.finite 2, .nan, .finite 8]) :=
  ⟨2, by decide +kernel, 8, by decide +kernel, by decide +kernel⟩

theorem runtimeDistribution_three :
    ((runtimeDistribution [.finite 2, .nan, .finite 8] (3 : Nat)).map fun b => b.count).sum = 2 ∧
      Covers (validRuntimes [.finite 2, .nan, .finite 8])
        (runtimeDistribution [.finite 2, .nan, .finite 8] (3 : Nat)) :=
  have h := runtimeDistribution_partition [.finite 2, .nan, .finite 8] 3 (by decide)
  ⟨h.2.1.trans (by decide +kernel), h.2.2 spread_two_runtimes⟩

/-- The lookup finds where a runtime was counted, unless all are equal and there are more buckets
than one. -/
theorem bucketIndexFor_eq_countedIn_iff (runtimes : List Js.Number) (n : Nat) (hn : 1 ≤ n) (r : ℚ)
    (hr : r ∈ validRuntimes runtimes) :
    bucketIndexFor (.finite r) (runtimeDistribution runtimes n) = countedIn runtimes n r ↔
      n = 1 ∨ Spread (validRuntimes runtimes) := by
  by_cases h : Spread (validRuntimes runtimes)
  · exact iff_of_true (bucketIndexFor_of_spread h hr n) (.inr h)
  · have hcounted : countedIn runtimes n r = 0 := if_pos (not_not.1 (mt minOf_ne_maxOf_iff.1 h))
    rw [bucketIndexFor_of_not_spread h hr, hcounted, safeBuckets_natCast hn, or_iff_left h]
    omega

theorem bucketIndexFor_greatest :
    bucketIndexFor (.finite 8) (runtimeDistribution [.finite 2, .nan, .finite 8] (3 : Nat)) =
      countedIn [.finite 2, .nan, .finite 8] (3 : Nat) 8 :=
  (bucketIndexFor_eq_countedIn_iff [.finite 2, .nan, .finite 8] 3 (by decide) 8
    (by decide +kernel)).2 (.inr spread_two_runtimes)

/-- Both runtimes are counted in the first bucket and looked up in the second one. -/
theorem bucketIndexFor_equal_runtimes :
    (runtimeDistribution [.finite 5, .finite 5] (2 : Nat)).map (fun b => b.count) = [2, 0] ∧
      bucketIndexFor (.finite 5) (runtimeDistribution [.finite 5, .finite 5] (2 : Nat)) = 1 ∧
      countedIn [.finite 5, .finite 5] (2 : Nat) 5 = 0 := by
  decide +kernel

end Leetrank.Runtimes
