import Leetrank.Library.ScaledDoubles
import Mathlib.Data.List.GetD

namespace Leetrank
namespace Inactivity
set_option autoImplicit true
open Js Js.Number
open NearestEven (forced forced_eq)

def RATING_SCALE : Number := .ofRat 173.7178

def DEFAULT_RD : ℚ := 350

def DEFAULT_VOLATILITY : Number := .ofRat 0.06

structure RatingState where
  userId : String
  rating : Number
  ratingDeviation : Number
  ratingVolatility : Number

def toPhi (rd : Number) : Number := rd.div RATING_SCALE

def fromPhi (phi : Number) : Number := phi.mul RATING_SCALE

def inflateInactivity (state : RatingState) : RatingState :=
  let phi := toPhi state.ratingDeviation
  let phiStar := ((phi.mul phi).add (state.ratingVolatility.mul state.ratingVolatility)).sqrt
  let inflatedRd := (fromPhi phiStar).round.min DEFAULT_RD
  { state with ratingDeviation := inflatedRd }

/-- The RD after a period of inactivity. -/
def inflatedRd (rd volatility : Number) : Number :=
  (inflateInactivity ⟨"", .finite 1500, rd, volatility⟩).ratingDeviation

/-- For the RDs from 109 to 349 the least volatility that lets an RD grow, in units of
`1 / 2 ^ 57`. -/
def thresholds : List Nat := [
  8671139136586637, 8710733585139132, 8750148870533418, 8789387403097195, 8828451539593521,
  8867343584872460, 8906065793458140, 8944620371074042, 8983009476108596, 9021235221026370,
  9059299673722750, 9097204858830936, 9134952758978400, 9172545315995636, 9209984432083314,
  9247271970935492, 9284409758820128, 9321399585625400, 9358243205865594, 9394942339650350,
  9431498673624344, 9467913861870802, 9504189526784236, 9540327259914118, 9576328622780772,
  9612195147661008, 9647928338350196, 9683529670898450, 9719000594320292, 9754342531284268,
  9789556878779210, 9824645008756224, 9859608268754978, 9894447982506724, 9929165450517700,
  9963761950638132, 9998238738608620, 10032597048593002, 10066838093694790, 10100963066455318,
  10134973139338722, 10168869465203344, 10202653177756010, 10236325391994812, 10269887204639850,
  10303339694548438, 10336683923119546, 10369920934689328, 10403051756909500, 10436077401119674,
  10468998862708442, 10501817121461324, 10534533141902452, 10567147873625646, 10599662251614368,
  10632077196555784, 10664393615145388, 10696612400380736, 10728734431851886, 10760760576020362,
  10792691686491128, 10824528604280292, 10856272158071316, 10887923164467012, 10919482428236466,
  10950950742551702, 10982328889221138, 11013617638916322, 11044817751392356, 11075929975704246,
  11106955050414440, 11137893703800300, 11168746654051294, 11199514609464120, 11230198268634104,
  11260798320636952, 11291315445212198, 11321750312938150, 11352103585404014, 11382375915377696,
  11412567946969596, 11442680315792308, 11472713649117758, 11502668566027644, 11532545677564144,
  11562345586875138, 11592068889355278, 11621716172785588, 11651288017468868, 11680784996362042,
  11710207675206454, 11739556612653296, 11768832360388148, 11798035463251788, 11827166459358292,
  11856225880211710, 11885214250817252, 11914132089793718, 11942979909481552, 11971758216047782,
  12000467509590604, 12029108284239638, 12057681028257060, 12086186224132814, 12114624348680622,
  12142995873130664, 12171301263221442, 12199540979287844, 12227715476349250, 12255825204194884,
  12283870607467586, 12311852125745894, 12339770193624216, 12367625240792356, 12395417692111538,
  12423147967690770, 12450816482960738, 12478423648746440, 12505969871338326, 12533455552562090,
  12560881089846860, 12588246876292982, 12615553300736292, 12642800747815144, 12669989598029774,
  12697120227807422, 12724193009563836, 12751208311758748, 12778166498957834, 12805067931890112,
  12831912967501900, 12858701959014796, 12885435255977912, 12912113204321982, 12938736146411250,
  12965304421095426, 12991818363758944, 13018278306370808, 13044684577534314, 13071037502531662,
  13097337403373536, 13123584598844746, 13149779404547888, 13175922132947286, 13202013093415980,
  13228052592273530, 13254040932831496, 13279978415434280, 13305865337497894, 13331701993550452,
  13357488675274370, 13383225671537882, 13408913268439010, 13434551749342308, 13460141394910874,
  13485682483144944, 13511175289420546, 13536620086515938, 13562017144653854, 13587366731531236,
  13612669112350798, 13637924549855762, 13663133304363408, 13688295633789916, 13713411793687610,
  13738482037273522, 13763506615456162, 13788485776869186, 13813419767898530, 13838308832707754,
  13863153213270296, 13887953149396902, 13912708878758304, 13937420636914466, 13962088657343384,
  13986713171462178, 14011294408653422, 14035832596294038, 14060327959775200, 14084780722526518,
  14109191106044064, 14133559329911164, 14157885611818172, 14182170167592672, 14206413211215616,
  14230614954843658, 14254775608834712, 14278895381767984, 14302974480460440, 14327013109993336,
  14351011473730962, 14374969773338142, 14398888208802596, 14422766978455984, 14446606278987046,
  14470406305466238, 14494167251364042, 14517889308565160, 14541572667389168, 14565217516611474,
  14588824043473596, 14612392433706480, 14635922871547226, 14659415539751780, 14682870619613722,
  14706288290984978, 14729668732282794, 14753012120512832, 14776318631284468, 14799588438820592,
  14822821715978412, 14846018634264448, 14869179363843370, 14892304073559736, 14915392930949218,
  14938446102250000, 14961463752421998, 14984446045159070, 15007393142898300, 15030305206838924,
  15053182396954008, 15076024872001028, 15098832789537166, 15121606305933530, 15144345576381840,
  15167050754912286, 15189721994405064, 15212359446599956, 15234963262107290, 15257533590426284,
  15280070579949308, 15302574377974496, 15325045130722398, 15347482983340136, 15369888079915356,
  15392260563489424, 15414600576064166, 15436908258612710, 15459183751092094, 15481427192454698,
  15503638720651514]

/-- The least volatility, of the default one and the larger ones, that lets an RD grow, in units of
`1 / 2 ^ 57`. -/
def thresholdUnits (rd : Int) : Nat :=
  if rd < 109 then 8646911284551352 else thresholds.getD (rd - 109).toNat 0

def threshold (rd : Int) : ℚ := thresholdUnits rd / 2 ^ 57

/-- The double before one that is no power of two. -/
def before (q : ℚ) : ℚ := q - 2 ^ NearestEven.exponent 52 (-1074) q

/-- At its threshold an RD grows, and at the double before it it does not. -/
structure Sharp (rd : Int) : Prop where
  grows : finite (rd + 1) ≤ inflatedRd (finite rd) (finite (threshold rd))
  stays : 109 ≤ rd → inflatedRd (finite rd) (finite (before (threshold rd))) ≤ finite rd
  isDouble : ofRat (threshold rd) = finite (threshold rd)
  binade : 2 ^ ((52 : Nat) + NearestEven.exponent 52 (-1074) (threshold rd)) < threshold rd
  le_last : threshold rd ≤ threshold 349

/-- The RD after a period, computed in whole numbers. -/
def scaledRd (rd : Nat) (volatility : Scaled) : Option Nat := do
  let scale : Scaled := ⟨1528037928413325, 43⟩
  let phi ← Scaled.div ⟨rd, 0⟩ scale
  let uncertainty ← phi.mul phi
  let growth ← volatility.mul volatility
  let sum ← uncertainty.add growth
  let phiStar ← sum.sqrt
  let inflated ← phiStar.mul scale
  return Min.min 350 inflated.round

/-- What makes a threshold sharp, in whole numbers. -/
def certified (rd units : Nat) : Bool :=
  forced (bif units.blt (2 ^ 53) then 1 else 2) fun step =>
    (scaledRd rd ⟨units, 57⟩).any (fun r => rd.blt r) &&
      (rd.blt 109 || (scaledRd rd ⟨units - step, 57⟩).any (fun r => r.ble rd)) &&
      (Scaled.ofDyadic units 57).any (fun x =>
        (x.num * 2 ^ 57).beq (units * 2 ^ x.places) && (step * 2 ^ x.places).beq (2 ^ 57)) &&
      (2 ^ 52 * step).blt units && units.ble 15503638720651514

/-- The square of the RD grows by half a unit of the RD there, in whole numbers. -/
def certifiedNear (rd units : Nat) : Bool :=
  forced (4 * 10 ^ 10 * (1737178 * units) ^ 2) fun grown =>
    forced ((4 * rd + 1) * 10 ^ 10 * (10 ^ 8 * 2 ^ 114)) fun half =>
      grown.blt (half + 4 * (10 ^ 8 * 2 ^ 114)) && half.blt (grown + 4 * (10 ^ 8 * 2 ^ 114))

/-- Whether a table has a threshold for each RD from `rd` to below `last`, and each is certified. -/
def certifiedFrom (last : Nat) : Nat → List Nat → Bool
  | rd, [] => last.ble rd
  | rd, units :: rest =>
    certified rd units && (rd.blt 109 || certifiedNear rd units) &&
      forced (rd + 1) fun next => certifiedFrom last next rest

variable {state : RatingState} {rd rd' : Int} {v : Number}

theorem RATING_SCALE_eq : RATING_SCALE = finite (1528037928413325 / 2 ^ 43) := by
  have h : Scaled.ofFraction 1737178 10000 = some ⟨6112151713653300, 45⟩ := by rfl
  have hscale := (Scaled.ofFraction_eq h).2
  rw [Scaled.value] at hscale
  rw [RATING_SCALE]
  convert hscale using 2 <;> norm_num

theorem DEFAULT_VOLATILITY_eq : DEFAULT_VOLATILITY = finite (8646911284551352 / 2 ^ 57) := by
  have h : Scaled.ofFraction 6 100 = some ⟨8646911284551352, 57⟩ := by rfl
  have hvolatility := (Scaled.ofFraction_eq h).2
  rw [Scaled.value] at hvolatility
  rw [DEFAULT_VOLATILITY]
  convert hvolatility using 2 <;> norm_num

theorem scaledRd_eq {rd r : Nat} {volatility : Scaled} (h : scaledRd rd volatility = some r) :
    inflatedRd (finite rd) (finite volatility.value) = finite r := by
  simp only [scaledRd, Option.bind_eq_bind, Option.bind_eq_some_iff, Option.pure_def,
    Option.some.injEq] at h
  obtain ⟨phi, hphi, uncertainty, hsquare, growth, hgrowth, sum, hsum, phiStar, hroot, inflated,
    hback, rfl⟩ := h
  have hscale : RATING_SCALE = finite (Scaled.value ⟨1528037928413325, 43⟩) := RATING_SCALE_eq
  have hrd : (rd : ℚ) = Scaled.value ⟨rd, 0⟩ := by
    rw [Scaled.value, pow_zero, div_one]
  rw [inflatedRd, inflateInactivity]
  dsimp only
  rw [toPhi, fromPhi, hscale, hrd, Scaled.div_eq hphi, Scaled.mul_eq hsquare,
    Scaled.mul_eq hgrowth, Scaled.add_eq hsum, Scaled.sqrt_eq hroot, Scaled.mul_eq hback,
    Scaled.round_eq, Number.min, DEFAULT_RD]
  push_cast
  rfl

theorem thresholdUnits_last : thresholdUnits 349 = 15503638720651514 := by
  rfl

/-- A certified threshold is sharp: its last place is one of the `step` units. -/
theorem sharp_of_certified {rd : Nat} (h : certified rd (thresholdUnits rd)) : Sharp rd := by
  rw [certified, forced_eq] at h
  generalize (bif (thresholdUnits rd).blt (2 ^ 53) then 1 else 2) = step at h
  simp only [Bool.and_eq_true, Bool.or_eq_true, Option.any_eq_true, Nat.blt_eq, Nat.ble_eq,
    Nat.beq_eq] at h
  obtain ⟨⟨⟨⟨⟨r, hr, hgrows⟩, hstays⟩, x, hx, hnum, hstep⟩, hbinade⟩, hlast⟩ := h
  obtain ⟨hkeeps, hplaces, -⟩ := Scaled.ofDyadic_keeps hx
  have hthreshold : threshold rd = thresholdUnits rd / (2 ^ 57 : Nat) := by
    rw [threshold, Nat.cast_pow, Nat.cast_ofNat]
  have hexp : NearestEven.exponent 52 (-1074) (threshold rd) = -x.places := by
    rw [hthreshold]
    exact hkeeps.exponent_eq (by omega)
  have hplace : (2 : ℚ) ^ (-x.places : Int) = step / 2 ^ 57 := by
    have hstep' : (step : ℚ) * 2 ^ x.places = 2 ^ 57 := by exact_mod_cast hstep
    rw [zpow_neg, zpow_natCast, eq_div_iff (by positivity), ← hstep', mul_comm (step : ℚ),
      inv_mul_cancel_left₀ (by positivity)]
  have hstep : step ≤ thresholdUnits rd := by omega
  have hbefore : before (threshold rd) = Scaled.value ⟨thresholdUnits rd - step, 57⟩ := by
    rw [before, hexp, hplace, threshold, Scaled.value, ← sub_div, Nat.cast_sub hstep]
  refine ⟨?_, fun hlarge => ?_, ?_, ?_, ?_⟩
  · have hcast : ((rd : Int) + 1 : ℚ) ≤ r := by exact_mod_cast hgrows
    exact (scaledRd_eq hr).symm ▸ finite_le_finite.2 hcast
  · obtain hsmall | ⟨r', hr', hle⟩ := hstays
    · omega
    · rw [hbefore, Int.cast_natCast, scaledRd_eq hr']
      exact finite_le_finite.2 (Nat.cast_le.2 hle)
  · have hvalue : x.value = threshold rd := by
      rw [threshold, Scaled.value, div_eq_div_iff (by positivity) (by positivity)]
      exact_mod_cast hnum
    rw [← hvalue, ← Scaled.ofDyadic_eq hx, hvalue, threshold]
  · have hbinade' : (2 ^ 52 * step : ℚ) < thresholdUnits rd := by exact_mod_cast hbinade
    rw [hexp, zpow_add₀ two_ne_zero, zpow_natCast, hplace, threshold, mul_div_assoc']
    gcongr
  · have hlast' : (thresholdUnits rd : ℚ) ≤ thresholdUnits 349 := by
      rw [thresholdUnits_last]
      exact Nat.cast_le.2 hlast
    rw [threshold, threshold]
    gcongr

theorem certifiedFrom_getD {last first : Nat} {table : List Nat}
    (h : certifiedFrom last first table) {i : Nat} (hi : first + i < last) :
    certified (first + i) (table.getD i 0) ∧
      (109 ≤ first + i → certifiedNear (first + i) (table.getD i 0)) := by
  induction table generalizing first i with
  | nil =>
    have hlast : last ≤ first := Nat.le_of_ble_eq_true h
    omega
  | cons units rest ih =>
    rw [certifiedFrom, forced_eq, Bool.and_eq_true, Bool.and_eq_true, Bool.or_eq_true,
      Nat.blt_eq] at h
    cases i with
    | zero => exact ⟨h.1.1, fun hlarge => h.1.2.resolve_left (by omega)⟩
    | succ i =>
      have hrest := ih h.2 (i := i) (by omega)
      rwa [Nat.add_right_comm] at hrest

theorem thresholds_certified :
    certifiedFrom 350 30 (List.replicate 79 8646911284551352 ++ thresholds) := by
  decide +kernel

theorem thresholdUnits_eq (i : Nat) : thresholdUnits (30 + i : Nat) =
    (List.replicate 79 8646911284551352 ++ thresholds).getD i 0 := by
  rcases Nat.lt_or_ge i 79 with hsmall | hlarge
  · rw [thresholdUnits, if_pos (by omega), List.getD_append _ _ _ _ (by simpa using hsmall),
      List.getD_replicate _ hsmall]
  · rw [thresholdUnits, if_neg (by omega), List.getD_append_right _ _ _ _ (by simpa using hlarge),
      List.length_replicate]
    congr 1
    omega

/-- Up to the rounding a threshold is where the square of the RD grows by half a unit of the RD. -/
theorem threshold_near (hmin : 109 ≤ rd) (hmax : rd < 350) :
    |(173.7178 * threshold rd) ^ 2 - (rd + 1 / 4)| < 1 / 10 ^ 10 := by
  obtain ⟨i, rfl⟩ : ∃ i : Nat, rd = (30 + i : Nat) := ⟨(rd - 30).toNat, by omega⟩
  have h := (certifiedFrom_getD thresholds_certified (i := i) (by omega)).2 (by omega)
  rw [← thresholdUnits_eq] at h
  simp only [certifiedNear, forced_eq, Bool.and_eq_true, Nat.blt_eq] at h
  rw [threshold, Int.cast_natCast]
  generalize thresholdUnits (30 + i : Nat) = units at h ⊢
  generalize 30 + i = rd at h ⊢
  -- over the common denominator
  have hscale : (0 : ℚ) < 4 * 10 ^ 10 * (10 ^ 8 * 2 ^ 114) := by positivity
  have hgrown : (173.7178 * (units / 2 ^ 57) : ℚ) ^ 2 =
      (4 * 10 ^ 10 * (1737178 * units) ^ 2 : Nat) / (4 * 10 ^ 10 * (10 ^ 8 * 2 ^ 114)) := by
    push_cast
    ring
  have hhalf : (rd + 1 / 4 : ℚ) = ((4 * rd + 1) * 10 ^ 10 * (10 ^ 8 * 2 ^ 114) : Nat) /
      (4 * 10 ^ 10 * (10 ^ 8 * 2 ^ 114)) := by
    push_cast
    ring
  have hunit : (1 / 10 ^ 10 : ℚ) = (4 * (10 ^ 8 * 2 ^ 114) : Nat) /
      (4 * 10 ^ 10 * (10 ^ 8 * 2 ^ 114)) := by
    norm_num
  rw [hgrown, hhalf, hunit, div_sub_div_same, abs_div, abs_of_pos hscale,
    div_lt_div_iff_of_pos_right hscale, abs_sub_lt_iff, sub_lt_iff_lt_add', sub_lt_iff_lt_add']
  exact ⟨by exact_mod_cast h.1, by exact_mod_cast h.2⟩

theorem sharp (hmin : 30 ≤ rd) (hmax : rd < 350) : Sharp rd := by
  obtain ⟨i, rfl⟩ : ∃ i : Nat, rd = (30 + i : Nat) := ⟨(rd - 30).toNat, by omega⟩
  apply sharp_of_certified
  rw [thresholdUnits_eq]
  exact (certifiedFrom_getD thresholds_certified (by omega)).1

theorem threshold_of_lt (h : rd < 109) : finite (threshold rd) = DEFAULT_VOLATILITY := by
  rw [DEFAULT_VOLATILITY_eq, threshold, thresholdUnits, if_pos h, Nat.cast_ofNat]

theorem toPhi_mono {rd rd' : ℚ} (hrd : 0 ≤ rd) (h : rd ≤ rd') :
    finite 0 ≤ toPhi (finite rd) ∧ toPhi (finite rd) ≤ toPhi (finite rd') := by
  rw [toPhi, toPhi, RATING_SCALE_eq, div, div, if_neg (by norm_num), if_neg (by norm_num)]
  exact ⟨ofRat_nonneg (by positivity), ofRat_mono (by positivity) (by gcongr)⟩

/-- Each operation of the code keeps the order, and so does their composition. -/
theorem inflatedRd_mono {rd rd' : ℚ} {v v' : Number} (hrd : 0 ≤ rd) (hrds : rd ≤ rd')
    (hv : finite 0 ≤ v) (hvs : v ≤ v') :
    inflatedRd (finite rd) v ≤ inflatedRd (finite rd') v' := by
  have hscale : (0 : ℚ) < 1528037928413325 / 2 ^ 43 := by norm_num
  obtain ⟨hphi, hphis⟩ := toPhi_mono hrd hrds
  have hsquare := mul_self_nonneg hphi
  have hsum := add_nonneg hsquare (mul_self_nonneg hv)
  have hsums := add_mono hsquare (mul_self_mono hphi hphis) (mul_self_nonneg hv)
    (mul_self_mono hv hvs)
  have hroot := sqrt_nonneg hsum
  have hroots := sqrt_mono hsum hsums
  have hback := mul_finite_nonneg hroot hscale
  have hbacks := mul_finite_mono hroot hroots hscale
  rw [← RATING_SCALE_eq] at hback hbacks
  exact min_mono DEFAULT_RD (round_nonneg hback) (round_mono hback hbacks)

/-- The RD after a period is a whole number again, and the ceiling at most. -/
theorem exists_inflatedRd_eq {rd : ℚ} {v : Number} (hrd : 0 ≤ rd) (hv : finite 0 ≤ v) :
    ∃ rd' : Int, inflatedRd (finite rd) v = finite rd' ∧ 0 ≤ rd' ∧ rd' ≤ 350 := by
  have hscale : (0 : ℚ) < 1528037928413325 / 2 ^ 43 := by norm_num
  have hphi := (toPhi_mono hrd le_rfl).1
  have hroot := sqrt_nonneg (add_nonneg (mul_self_nonneg hphi) (mul_self_nonneg hv))
  have hback := mul_finite_nonneg hroot hscale
  rw [← RATING_SCALE_eq] at hback
  rw [inflatedRd, inflateInactivity]
  rcases cases_of_finite_le hback with hinf | ⟨q, hpos, hq⟩
  · exact ⟨350, congrArg (fun x => x.round.min DEFAULT_RD) hinf, by decide, le_rfl⟩
  · have hround : 0 ≤ ⌊q + 1 / 2⌋ := Int.floor_nonneg.2 (by positivity)
    refine ⟨Min.min 350 ⌊q + 1 / 2⌋, ?_, le_min (by decide) hround, min_le_left ..⟩
    rw [Int.cast_min]
    exact congrArg (fun x => x.round.min DEFAULT_RD) hq

theorem nonneg_of_default_le (hvol : DEFAULT_VOLATILITY ≤ v) : finite 0 ≤ v := by
  rw [DEFAULT_VOLATILITY_eq] at hvol
  have hpos : finite 0 ≤ finite (8646911284551352 / 2 ^ 57) := finite_le_finite.2 (by norm_num)
  exact finite_le_trans hpos hvol

/-- A volatility short of the threshold leaves an RD where it is. -/
theorem inflatedRd_le (hmin : 30 ≤ rd) (hmax : rd < 350) (hdouble : v.IsDouble)
    (hvol : DEFAULT_VOLATILITY ≤ v) (h : ¬finite (threshold rd) ≤ v) :
    inflatedRd (finite rd) v ≤ finite rd := by
  have hsharp := sharp hmin hmax
  have hv := nonneg_of_default_le hvol
  have hrd : (0 : ℚ) ≤ rd := Int.cast_nonneg (by omega)
  have hlarge : 109 ≤ rd := by
    by_contra hsmall
    rw [threshold_of_lt (by omega)] at h
    exact h hvol
  rw [DEFAULT_VOLATILITY_eq] at hvol
  rcases cases_of_finite_le hvol with rfl | ⟨q, hq, rfl⟩
  · exact absurd finite_le_posInfinity h
  · have hpos : 0 < q := lt_of_lt_of_le (by norm_num) hq
    have hlt : q < threshold rd := not_le.1 (mt finite_le_finite.2 h)
    have hbefore : q ≤ before (threshold rd) :=
      le_sub_of_isDouble hdouble hsharp.isDouble hpos hlt hsharp.binade
    have hle := inflatedRd_mono hrd le_rfl hv (finite_le_finite.2 hbefore)
    obtain ⟨k, hk, -, -⟩ := exists_inflatedRd_eq hrd hv
    rw [hk] at hle ⊢
    exact finite_le_trans hle (hsharp.stays hlarge)

theorem lt_inflatedRd_iff (hmin : 30 ≤ rd) (hmax : rd < 350) (hdouble : v.IsDouble)
    (hvol : DEFAULT_VOLATILITY ≤ v) :
    finite (rd + 1) ≤ inflatedRd (finite rd) v ↔ finite (threshold rd) ≤ v := by
  have hsharp := sharp hmin hmax
  have hv := nonneg_of_default_le hvol
  have hrd : (0 : ℚ) ≤ rd := Int.cast_nonneg (by omega)
  have hthreshold : finite 0 ≤ finite (threshold rd) :=
    finite_le_finite.2 (le_trans (by positivity) hsharp.binade.le)
  constructor
  · intro hgrows
    by_contra h
    have hstays := inflatedRd_le hmin hmax hdouble hvol h
    have hle : finite (rd + 1) ≤ finite rd := finite_le_trans hgrows hstays
    linarith [finite_le_finite.1 hle]
  · intro h
    have hgrows := inflatedRd_mono hrd le_rfl hthreshold h
    exact finite_le_trans hsharp.grows hgrows

/-- The rule of one period, over the whole numbers that the RDs are. -/
theorem exists_lt_iff (hmin : 30 ≤ rd) (hmax : rd < 350) (hdouble : v.IsDouble)
    (hvol : DEFAULT_VOLATILITY ≤ v) :
    (∃ rd' : Int, inflatedRd (finite rd) v = finite rd' ∧ rd < rd' ∧ rd' ≤ 350) ↔
      finite (threshold rd) ≤ v := by
  have hrd : (0 : ℚ) ≤ rd := Int.cast_nonneg (by omega)
  rw [← lt_inflatedRd_iff hmin hmax hdouble hvol]
  obtain ⟨k, hk, -, hcap⟩ := exists_inflatedRd_eq hrd (nonneg_of_default_le hvol)
  have hcast : finite (rd + 1 : ℚ) ≤ finite k ↔ rd < k := by
    rw [finite_le_finite, ← Int.add_one_le_iff, ← Int.cast_one, ← Int.cast_add, Int.cast_le]
  rw [hk, hcast]
  constructor
  · rintro ⟨rd', heq, hlt, -⟩
    have hrd' : k = rd' := Int.cast_inj.1 (finite.inj heq)
    rwa [hrd']
  · intro hlt
    exact ⟨k, rfl, hlt, hcap⟩

theorem inflateInactivity_eq (h : state.ratingDeviation = finite rd) :
    (inflateInactivity state).ratingDeviation =
      inflatedRd (finite rd) state.ratingVolatility := by
  rw [← h]
  rfl

/-- With enough volatility for the last step each period brings the RD closer to the ceiling. -/
theorem exists_iterate_eq_ceiling (hstate : state.ratingDeviation = finite rd) (hmin : 30 ≤ rd)
    (hmax : rd ≤ 350) (hdouble : state.ratingVolatility.IsDouble)
    (hvol : DEFAULT_VOLATILITY ≤ state.ratingVolatility)
    (h : finite (threshold 349) ≤ state.ratingVolatility) :
    ∃ m, (inflateInactivity^[m] state).ratingDeviation = finite 350 := by
  induction hn : (350 - rd).toNat using Nat.strong_induction_on generalizing state rd with
  | _ n ih =>
    rcases hmax.lt_or_eq with hlt | rfl
    · have hthreshold : finite (threshold rd) ≤ state.ratingVolatility :=
        finite_le_trans (finite_le_finite.2 (sharp hmin hlt).le_last) h
      obtain ⟨rd', hrd', hgrows, hcap⟩ := (exists_lt_iff hmin hlt hdouble hvol).2 hthreshold
      have hnext := (inflateInactivity_eq hstate).trans hrd'
      obtain ⟨m, hm⟩ := ih _ (by omega) hnext (by omega) hcap hdouble hvol h rfl
      exact ⟨m + 1, hm⟩
    · exact ⟨0, hstate⟩

/-- With less the RD stays below the ceiling, as it does from the last RD below it. -/
theorem iterate_lt_ceiling (hstate : state.ratingDeviation = finite rd) (hmin : 0 ≤ rd)
    (hmax : rd < 350) (hdouble : state.ratingVolatility.IsDouble)
    (hvol : DEFAULT_VOLATILITY ≤ state.ratingVolatility)
    (h : ¬finite (threshold 349) ≤ state.ratingVolatility) (m : Nat) :
    ∃ rd' : Int, (inflateInactivity^[m] state).ratingDeviation = finite rd' ∧ rd' < 350 := by
  induction m generalizing state rd with
  | zero => exact ⟨rd, hstate, hmax⟩
  | succ m ih =>
    have hv := nonneg_of_default_le hvol
    have hrd : (0 : ℚ) ≤ rd := Int.cast_nonneg hmin
    have hrd349 : (rd : ℚ) ≤ (349 : Int) := Int.cast_le.2 (by omega)
    obtain ⟨k, hk, hk0, -⟩ := exists_inflatedRd_eq hrd hv
    have hle : finite k ≤ inflatedRd (finite (349 : Int)) state.ratingVolatility := by
      rw [← hk]
      exact inflatedRd_mono hrd hrd349 hv (le_refl_of_finite_le hv)
    have hlast := inflatedRd_le (by decide) (by decide) hdouble hvol h
    have hk349 : k ≤ 349 := Int.cast_le.1 (finite_le_finite.1 (finite_le_trans hle hlast))
    exact ih ((inflateInactivity_eq hstate).trans hk) hk0 (by omega) hdouble hvol h

/-- A period of inactivity raises a whole RD exactly if the volatility reaches the threshold of
that RD, and repeated ones bring it to the ceiling exactly if it reaches the last threshold. -/
theorem inflateInactivity_iff (state : RatingState) (rd : Int)
    (hstate : state.ratingDeviation = finite rd) (hmin : 30 ≤ rd) (hmax : rd < 350)
    (hdouble : state.ratingVolatility.IsDouble)
    (hvol : DEFAULT_VOLATILITY ≤ state.ratingVolatility) :
    ((∃ rd' : Int, (inflateInactivity state).ratingDeviation = finite rd' ∧
        rd < rd' ∧ rd' ≤ 350) ↔ finite (threshold rd) ≤ state.ratingVolatility) ∧
    ((∃ m, (inflateInactivity^[m] state).ratingDeviation = finite 350) ↔
      finite (threshold 349) ≤ state.ratingVolatility) := by
  constructor
  · rw [inflateInactivity_eq hstate]
    exact exists_lt_iff hmin hmax hdouble hvol
  · constructor
    · rintro ⟨m, hm⟩
      by_contra h
      obtain ⟨k, hk, hlt⟩ := iterate_lt_ceiling hstate (by omega) hmax hdouble hvol h m
      have hcap : (k : ℚ) = (350 : Int) := finite.inj (hk.symm.trans hm)
      exact hlt.ne (Int.cast_inj.1 hcap)
    · exact exists_iterate_eq_ceiling hstate hmin hmax.le hdouble hvol

/-- A veteran with a high volatility. -/
def veteran : RatingState := ⟨"veteran", .finite 1650, .finite 90, .ofRat 0.12⟩

theorem inflateInactivity_veteran :
    (∃ rd' : Int, (inflateInactivity veteran).ratingDeviation = finite rd' ∧
      90 < rd' ∧ rd' ≤ 350) ∧
    ∃ m, (inflateInactivity^[m] veteran).ratingDeviation = finite 350 := by
  have h := inflateInactivity_iff veteran 90 rfl (by decide) (by decide) (by decide +kernel)
    (by decide +kernel)
  exact ⟨h.1.2 (by decide +kernel), h.2.2 (by decide +kernel)⟩

/-- With the volatility of a newcomer an RD of 200 stays at 200. -/
theorem inactivity_keeps_rd :
    (inflateInactivity ⟨"regular", .finite 1500, .finite 200, .ofRat 0.06⟩).ratingDeviation =
      .finite 200 := by
  decide +kernel

end Inactivity
end Leetrank
