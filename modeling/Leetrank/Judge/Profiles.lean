import Leetrank.Judge.Languages
import Leetrank.Library.MachineInt

namespace Leetrank.Profiles
set_option autoImplicit true

open MachineInt

/-- The caps of a language, as machine integers. -/
structure LanguageProfile where
  memMB : Int64
  cpuSeconds : Int64
  wallSeconds : Int64

/-- `profiles.json`, with its map in the order in which it is ranged over. A field that is not there
is zero. -/
structure ProfilesFile where
  default : LanguageProfile
  languages : List (String × LanguageProfile)
  unique : (languages.map Prod.fst).Nodup

inductive ProfilesRead where
  | missing
  | failed (err : String)
  | notJson (err : String)
  | file (f : ProfilesFile)

/-- The profiles by id, the latest first of an id that was set twice. -/
structure ProfileRegistry where
  default : LanguageProfile
  byId : List (String × LanguageProfile)
  loaded : Bool
  cpu_pos : 0 < default.cpuSeconds
  wall_pos : 0 < default.wallSeconds

/-- The caps of `DefaultSandboxLimits`. -/
def defaultProfile : LanguageProfile := ⟨256, 5, 10⟩

/-- A profile that falls back to another one where a field is unset. -/
def LanguageProfile.over (v base : LanguageProfile) : LanguageProfile where
  memMB := if v.memMB > 0 then v.memMB else base.memMB
  cpuSeconds := if v.cpuSeconds > 0 then v.cpuSeconds else base.cpuSeconds
  wallSeconds := if v.wallSeconds > 0 then v.wallSeconds else base.wallSeconds

theorem LanguageProfile.over_pos (v : LanguageProfile) {base : LanguageProfile}
    (hcpu : 0 < base.cpuSeconds) (hwall : 0 < base.wallSeconds) :
    0 < (v.over base).cpuSeconds ∧ 0 < (v.over base).wallSeconds := by
  constructor
  · rw [LanguageProfile.over]
    dsimp only
    split
    next h => exact h
    next => exact hcpu
  · rw [LanguageProfile.over]
    dsimp only
    split
    next h => exact h
    next => exact hwall

def ProfileRegistry.fallback : ProfileRegistry := ⟨defaultProfile, [], false, by decide, by decide⟩

def loadProfiles (m : CaseMap) (path : String) : ProfilesRead → ProfileRegistry × Option String
  | .missing => (ProfileRegistry.fallback, none)
  | .failed err => (ProfileRegistry.fallback, some ("read " ++ path ++ ": " ++ err))
  | .notJson err => (ProfileRegistry.fallback, some ("parse " ++ path ++ ": " ++ err))
  | .file f =>
    have hpos : 0 < (f.default.over defaultProfile).cpuSeconds ∧
        0 < (f.default.over defaultProfile).wallSeconds :=
      f.default.over_pos (by decide) (by decide)
    ({ default := f.default.over defaultProfile
       byId := f.languages.foldl (fun byId (id, p) => (m.toLower (trimSpace id), p) :: byId) []
       loaded := true
       cpu_pos := hpos.1
       wall_pos := hpos.2 }, none)

def ProfileRegistry.lookup (r : ProfileRegistry) (m : CaseMap) (id : String) : LanguageProfile :=
  match r.byId.lookup (m.toLower (trimSpace id)) with
  | none => r.default
  | some v => v.over r.default

structure Limits where
  memMB : Int64
  cpuSeconds : Int64
  wallSeconds : Int64

/-- A limit of a profile, or what a request asks for if that is less. -/
def granted (limit timeLimitMs request : Int64) : Int64 :=
  if timeLimitMs > 0 ∧ request > 0 ∧ request < limit then request else limit

def LanguageProfile.cpuFor (p : LanguageProfile) (timeLimitMs : Int64) : Int64 :=
  granted p.cpuSeconds timeLimitMs (timeLimitMs / 1000 + 1)

def LanguageProfile.wallFor (p : LanguageProfile) (timeLimitMs : Int64) : Int64 :=
  granted p.wallSeconds timeLimitMs ((timeLimitMs + 999) / 1000)

def limitsForLang (m : CaseMap) (profiles : ProfileRegistry) (langId : String)
    (timeLimitMs : Int64) : Limits :=
  let p := profiles.lookup m langId
  let cpu := p.cpuFor timeLimitMs
  let cpu := if cpu < 1 then 1 else cpu
  let wall := p.wallFor timeLimitMs
  let wall := if wall < cpu then cpu + 1 else wall
  ⟨p.memMB, cpu, wall⟩

/-- The limits are positive, and those of the profile bound them. -/
structure Limits.Within (l : Limits) (p : LanguageProfile) : Prop where
  cpu_pos : 0 < l.cpuSeconds
  wall_pos : 0 < l.wallSeconds
  cpu_le : l.cpuSeconds ≤ p.cpuSeconds
  wall_le : l.wallSeconds ≤ p.wallSeconds

/-- The wall limit of a profile leaves room for the CPU limit and what a request asks for. That is
rounded up to whole seconds, if there is no overflow. -/
def LanguageProfile.LeavesRoom (p : LanguageProfile) (timeLimitMs : Int64) : Prop :=
  if timeLimitMs.toInt ≤ 0 then p.cpuSeconds.toInt ≤ p.wallSeconds.toInt
  else
    min p.cpuSeconds.toInt (timeLimitMs.toInt / 1000 + 1) < p.wallSeconds.toInt ∨
      min p.cpuSeconds.toInt (timeLimitMs.toInt / 1000 + 1) = p.wallSeconds.toInt ∧
        (p.wallSeconds.toInt ≤ (timeLimitMs.toInt + 999) / 1000 ∨
          9223372036854775808 ≤ timeLimitMs.toInt + 999)

variable {m : CaseMap} {profiles : ProfileRegistry} {langId : String} {t : Int64}
  {p : LanguageProfile}

theorem ProfileRegistry.lookup_pos (r : ProfileRegistry) (m : CaseMap) (id : String) :
    0 < (r.lookup m id).cpuSeconds ∧ 0 < (r.lookup m id).wallSeconds := by
  unfold ProfileRegistry.lookup
  split
  next => exact ⟨r.cpu_pos, r.wall_pos⟩
  next v _ => exact v.over_pos r.cpu_pos r.wall_pos

theorem toInt_granted (limit t request : Int64) :
    (granted limit t request).toInt = if t.toInt ≤ 0 ∨ request.toInt ≤ 0 then limit.toInt
      else min limit.toInt request.toInt := by
  have hzero : (0 : Int64).toInt = 0 := rfl
  rw [granted]
  simp only [gt_iff_lt, Int64.lt_iff_toInt_lt, hzero]
  split
  next h =>
    rw [if_neg (by omega)]
    omega
  next h =>
    split
    next => rfl
    next hpos => omega

theorem toInt_thousandth (t : Int64) : (t / 1000).toInt = t.toInt.tdiv 1000 :=
  Int64.toInt_div_of_ne_right t 1000 (by decide)

theorem toInt_cpuFor (p : LanguageProfile) (t : Int64) :
    (p.cpuFor t).toInt = if t.toInt ≤ 0 then p.cpuSeconds.toInt
      else min p.cpuSeconds.toInt (t.toInt / 1000 + 1) := by
  rw [LanguageProfile.cpuFor, toInt_granted]
  by_cases ht : t.toInt ≤ 0
  · rw [if_pos (.inl ht), if_pos ht]
  · have hrequest : (t / 1000 + 1).toInt = t.toInt / 1000 + 1 := by
      have hquotient : (t / 1000).toInt = t.toInt / 1000 := by
        rw [toInt_thousandth, Int.tdiv_eq_ediv_of_nonneg (by omega)]
      have hlt := t.toInt_lt
      have hone : (1 : Int64).toInt = 1 := rfl
      rw [toInt_add_of_fits, hquotient, hone]
      rw [hquotient, hone, Fits]
      omega
    rw [hrequest, if_neg ht, if_neg (by omega)]

/-- Where the rounding up overflows, the request is not honoured. -/
theorem toInt_wallFor (p : LanguageProfile) (t : Int64) :
    (p.wallFor t).toInt = if t.toInt ≤ 0 ∨ 9223372036854775808 ≤ t.toInt + 999 then
      p.wallSeconds.toInt else min p.wallSeconds.toInt ((t.toInt + 999) / 1000) := by
  have hslack : (999 : Int64).toInt = 999 := rfl
  have hlt := t.toInt_lt
  rw [LanguageProfile.wallFor, toInt_granted, toInt_thousandth]
  by_cases ht : t.toInt ≤ 0
  · rw [if_pos (.inl ht), if_pos (.inl ht)]
  · by_cases hover : 9223372036854775808 ≤ t.toInt + 999
    · have hsum : (t + 999).toInt = t.toInt + 999 - 18446744073709551616 :=
        toInt_add_of_le hover
      have hneg : (t + 999).toInt.tdiv 1000 ≤ 0 := by
        have h : 0 ≤ (-(t + 999).toInt).tdiv 1000 := Int.tdiv_nonneg (by omega) (by decide)
        rw [Int.neg_tdiv] at h
        exact Int.neg_nonneg.1 h
      rw [if_pos (.inr hneg), if_pos (.inr hover)]
    · have hsum : (t + 999).toInt = t.toInt + 999 :=
        toInt_add_of_fits (by rw [hslack, Fits]; omega)
      rw [hsum, Int.tdiv_eq_ediv_of_nonneg (by omega), if_neg (by omega), if_neg (by omega)]

theorem Limits.within_iff {l : Limits} : l.Within p ↔
    0 < l.cpuSeconds.toInt ∧ 0 < l.wallSeconds.toInt ∧
      l.cpuSeconds.toInt ≤ p.cpuSeconds.toInt ∧ l.wallSeconds.toInt ≤ p.wallSeconds.toInt := by
  simp only [← Int64.le_iff_toInt_le]
  constructor
  · rintro ⟨hcpu, hwall, hcpuLe, hwallLe⟩
    exact ⟨Int64.lt_iff_toInt_lt.1 hcpu, Int64.lt_iff_toInt_lt.1 hwall, hcpuLe, hwallLe⟩
  · rintro ⟨hcpu, hwall, hcpuLe, hwallLe⟩
    exact ⟨Int64.lt_iff_toInt_lt.2 hcpu, Int64.lt_iff_toInt_lt.2 hwall, hcpuLe, hwallLe⟩

/-- What is granted is positive, and no more than the profile has. -/
theorem cpuFor_bounds (hcpu : 0 < p.cpuSeconds) (t : Int64) :
    0 < (p.cpuFor t).toInt ∧ (p.cpuFor t).toInt ≤ p.cpuSeconds.toInt := by
  have hpos := Int64.lt_iff_toInt_lt.1 hcpu
  have hzero : (0 : Int64).toInt = 0 := rfl
  rw [toInt_cpuFor]
  split <;> omega

theorem wallFor_bounds (hwall : 0 < p.wallSeconds) (t : Int64) :
    0 < (p.wallFor t).toInt ∧ (p.wallFor t).toInt ≤ p.wallSeconds.toInt := by
  have hpos := Int64.lt_iff_toInt_lt.1 hwall
  have hzero : (0 : Int64).toInt = 0 := rfl
  rw [toInt_wallFor]
  split <;> omega

/-- The wall limit leaves room if what is granted of it covers the CPU limit, or the profile has
more. -/
theorem leavesRoom_iff (hcpu : 0 < p.cpuSeconds) (hwall : 0 < p.wallSeconds) (t : Int64) :
    p.LeavesRoom t ↔ (p.cpuFor t).toInt ≤ (p.wallFor t).toInt ∨
      (p.cpuFor t).toInt < p.wallSeconds.toInt := by
  have hcpos := Int64.lt_iff_toInt_lt.1 hcpu
  have hwpos := Int64.lt_iff_toInt_lt.1 hwall
  have hzero : (0 : Int64).toInt = 0 := rfl
  rw [LanguageProfile.LeavesRoom, toInt_cpuFor, toInt_wallFor]
  by_cases ht : t.toInt ≤ 0
  · rw [if_pos ht, if_pos ht, if_pos (.inl ht)]
    omega
  · rw [if_neg ht, if_neg ht]
    split <;> omega

/-- For every file and request: the repair of a wall limit below the CPU limit stays within the
profile exactly if that has more than the CPU limit. -/
theorem limitsForLang_within_iff (m : CaseMap) (path : String) (read : ProfilesRead)
    (langId : String) (t : Int64) :
    (limitsForLang m (loadProfiles m path read).1 langId t).Within
        ((loadProfiles m path read).1.lookup m langId) ↔
      ((loadProfiles m path read).1.lookup m langId).LeavesRoom t := by
  generalize (loadProfiles m path read).1 = profiles
  obtain ⟨hcpu, hwall⟩ := profiles.lookup_pos m langId
  rw [leavesRoom_iff hcpu hwall, limitsForLang]
  generalize profiles.lookup m langId = p at hcpu hwall
  obtain ⟨hc, hcle⟩ := cpuFor_bounds hcpu t
  obtain ⟨hw, hwle⟩ := wallFor_bounds hwall t
  have hzero : (0 : Int64).toInt = 0 := rfl
  have hone : (1 : Int64).toInt = 1 := rfl
  have hlow : ¬p.cpuFor t < 1 := by
    rw [Int64.lt_iff_toInt_lt]
    omega
  rw [if_neg hlow, Limits.within_iff]
  split
  next hlt =>
    dsimp only
    have hlt := Int64.lt_iff_toInt_lt.1 hlt
    have hbelow := (p.cpuFor t).toInt_lt
    by_cases hfits : (p.cpuFor t).toInt + 1 < 9223372036854775808
    · have hnext : (p.cpuFor t + 1).toInt = (p.cpuFor t).toInt + 1 :=
        toInt_add_of_fits (by rw [hone, Fits]; omega)
      omega
    · have hnext : (p.cpuFor t + 1).toInt = (p.cpuFor t).toInt + 1 - 18446744073709551616 :=
        toInt_add_of_le (by rw [hone]; omega)
      have hmax := p.wallSeconds.toInt_lt
      omega
  next hge =>
    dsimp only
    have hge := Int64.lt_iff_toInt_lt.not.1 hge
    omega

/-- A profile whose wall limit is its CPU limit. -/
def tightProfiles : ProfilesFile where
  default := ⟨256, 5, 10⟩
  languages := [("c", ⟨256, 2, 2⟩)]
  unique := by decide

/-- For a request of one second the wall limit is repaired to three seconds. -/
theorem limitsForLang_exceeds :
    (limitsForLang goCaseMap (loadProfiles goCaseMap "profiles.json" (.file tightProfiles)).1 "c"
      1000).wallSeconds = 3 ∧
    ¬(limitsForLang goCaseMap (loadProfiles goCaseMap "profiles.json" (.file tightProfiles)).1 "c"
      1000).Within ((loadProfiles goCaseMap "profiles.json"
        (.file tightProfiles)).1.lookup goCaseMap "c") := by
  refine ⟨by decide, fun h => ?_⟩
  have hle := h.wall_le
  revert hle
  decide

def LanguageProfile.toInt (p : LanguageProfile) : Leetrank.LanguageProfile :=
  ⟨p.memMB.toInt, p.cpuSeconds.toInt, p.wallSeconds.toInt⟩

def ProfileRegistry.toInt (r : ProfileRegistry) : Leetrank.ProfileRegistry :=
  ⟨r.default.toInt, r.byId.map fun x => (x.1, x.2.toInt)⟩

theorem lookup_map_toInt (byId : List (String × LanguageProfile)) (id : String) :
    (byId.map fun x => (x.1, x.2.toInt)).lookup id =
      (byId.lookup id).map LanguageProfile.toInt := by
  induction byId with
  | nil => rfl
  | cons x byId ih =>
    rw [List.map_cons, List.lookup_cons, List.lookup_cons, ih]
    split <;> rfl

theorem toInt_over (v base : LanguageProfile) : (v.over base).toInt =
    { memMB := if v.memMB.toInt > 0 then v.memMB.toInt else base.memMB.toInt
      cpuSeconds := if v.cpuSeconds.toInt > 0 then v.cpuSeconds.toInt else base.cpuSeconds.toInt
      wallSeconds :=
        if v.wallSeconds.toInt > 0 then v.wallSeconds.toInt else base.wallSeconds.toInt } := by
  have hpos (a : Int64) : a > 0 ↔ a.toInt > 0 := Int64.lt_iff_toInt_lt
  simp only [LanguageProfile.over, LanguageProfile.toInt, hpos, apply_ite Int64.toInt]

theorem toInt_lookup (r : ProfileRegistry) (id : String) :
    (r.lookup goCaseMap id).toInt = r.toInt.lookup id := by
  have hkey : goCaseMap.toLower (trimSpace id) = toLower (trimSpace id) := rfl
  rw [ProfileRegistry.lookup, Leetrank.ProfileRegistry.lookup, hkey, ProfileRegistry.toInt]
  dsimp only
  rw [lookup_map_toInt]
  cases r.byId.lookup (toLower (trimSpace id)) with
  | none => rfl
  | some v => exact toInt_over v r.default

theorem cpuFor_eq_tdiv (p : LanguageProfile) (t : Int64) :
    (if t.toInt > 0 ∧ t.toInt.tdiv 1000 + 1 > 0 ∧ t.toInt.tdiv 1000 + 1 < p.toInt.cpuSeconds then
      t.toInt.tdiv 1000 + 1 else p.toInt.cpuSeconds) = (p.cpuFor t).toInt := by
  have hlimit : p.toInt.cpuSeconds = p.cpuSeconds.toInt := rfl
  rw [toInt_cpuFor]
  by_cases ht : t.toInt ≤ 0
  · rw [if_pos ht, if_neg (by omega), hlimit]
  · rw [if_neg ht, Int.tdiv_eq_ediv_of_nonneg (by omega)]
    split <;> omega

theorem wallFor_eq_tdiv (p : LanguageProfile) {t : Int64}
    (ht : t.toInt + 999 < 9223372036854775808) :
    (if t.toInt > 0 ∧ (t.toInt + 999).tdiv 1000 > 0 ∧
        (t.toInt + 999).tdiv 1000 < p.toInt.wallSeconds then
      (t.toInt + 999).tdiv 1000 else p.toInt.wallSeconds) = (p.wallFor t).toInt := by
  have hlimit : p.toInt.wallSeconds = p.wallSeconds.toInt := rfl
  rw [toInt_wallFor]
  by_cases hneg : t.toInt ≤ 0
  · rw [if_neg (by omega), if_pos (.inl hneg), hlimit]
  · have hhonoured : ¬(t.toInt ≤ 0 ∨ 9223372036854775808 ≤ t.toInt + 999) := by omega
    rw [if_neg hhonoured, Int.tdiv_eq_ediv_of_nonneg (by omega)]
    split <;> omega

/-- Where nothing overflows, the limits are those over unbounded integers. -/
theorem limitsForLang_toInt (r : ProfileRegistry) (id : String) (t : Int64)
    (ht : t.toInt + 999 < 9223372036854775808)
    (hcpu : (r.lookup goCaseMap id).cpuSeconds.toInt + 1 < 9223372036854775808) :
    Leetrank.limitsForLang r.toInt id t.toInt =
      ⟨(limitsForLang goCaseMap r id t).memMB.toInt,
        (limitsForLang goCaseMap r id t).cpuSeconds.toInt,
        (limitsForLang goCaseMap r id t).wallSeconds.toInt, 0, 0, 0⟩ := by
  obtain ⟨hpos, _⟩ := r.lookup_pos goCaseMap id
  rw [Leetrank.limitsForLang, ← toInt_lookup, limitsForLang]
  generalize r.lookup goCaseMap id = p at hcpu hpos
  obtain ⟨hc, hcle⟩ := cpuFor_bounds hpos t
  have hone : (1 : Int64).toInt = 1 := rfl
  have hlow : ¬p.cpuFor t < 1 := by
    rw [Int64.lt_iff_toInt_lt]
    omega
  have hnext : (p.cpuFor t + 1).toInt = (p.cpuFor t).toInt + 1 :=
    toInt_add_of_fits (by rw [hone, Fits]; omega)
  dsimp only
  rw [cpuFor_eq_tdiv, wallFor_eq_tdiv p ht, if_neg hlow, if_neg (by omega),
    apply_ite Int64.toInt, hnext]
  simp only [Int64.lt_iff_toInt_lt]
  rfl

end Leetrank.Profiles
