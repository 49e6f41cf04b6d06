import Leetrank.Contest.Rating
import Leetrank.Contest.Volatility
import Mathlib.Analysis.Real.Pi.Bounds

namespace Leetrank
namespace Glicko2
set_option autoImplicit true
open Real

noncomputable section

def RATING_SCALE : ℝ := 173.7178
def RATING_BASE : ℝ := 1500
def SYSTEM_TAU : ℝ := 0.5

/-- The rating state of a user in exact numbers. -/
structure RatingState where
  userId : String
  rating : ℝ
  ratingDeviation : ℝ
  ratingVolatility : ℝ

structure ContestParticipant extends RatingState where
  rank : Nat

structure RatingChangeResult where
  userId : String
  beforeRating : ℝ
  afterRating : ℝ
  delta : ℝ
  beforeRd : ℝ
  afterRd : ℝ
  beforeVolatility : ℝ
  afterVolatility : ℝ
  rank : Nat

def toMu (rating : ℝ) : ℝ := (rating - RATING_BASE) / RATING_SCALE

def toPhi (rd : ℝ) : ℝ := rd / RATING_SCALE

def fromMu (mu : ℝ) : ℝ := mu * RATING_SCALE + RATING_BASE

def fromPhi (phi : ℝ) : ℝ := phi * RATING_SCALE

/-- The nearest whole number, the larger one of two. -/
def mathRound (x : ℝ) : Int := ⌊x + 0.5⌋

def gPhi (phi : ℝ) : ℝ := 1 / √(1 + 3 * phi * phi / (π * π))

def expectedScore (mu muJ phiJ : ℝ) : ℝ := 1 / (1 + exp (-gPhi phiJ * (mu - muJ)))

structure Opponent where
  muJ : ℝ
  phiJ : ℝ
  score : ℝ

/-- What `updateOne` returns. -/
structure Next where
  mu : ℝ
  phi : ℝ
  sigma : ℝ

/-- What an opponent adds to the inverse of the variance. -/
def information (mu : ℝ) (o : Opponent) : ℝ :=
  let g := gPhi o.phiJ
  let e := expectedScore mu o.muJ o.phiJ
  g * g * e * (1 - e)

/-- What an opponent adds to the improvement. -/
def improvement (mu : ℝ) (o : Opponent) : ℝ :=
  let g := gPhi o.phiJ
  let e := expectedScore mu o.muJ o.phiJ
  g * (o.score - e)

def updateOne (fuel : Nat) (mu phi sigma : ℝ) (opponents : List Opponent) (tau : ℝ) :
    Option Next :=
  if opponents.length = 0 then some ⟨mu, √(phi * phi + sigma * sigma), sigma⟩
  else
    let vInverse := (opponents.map (information mu)).sum
    let v := 1 / vInverse
    let deltaSum := (opponents.map (improvement mu)).sum
    let delta := v * deltaSum
    (newVolatility fuel phi v delta sigma tau CONVERGENCE_EPSILON).map fun sigmaPrime =>
      let phiStar := √(phi * phi + sigmaPrime * sigmaPrime)
      let phiPrime := 1 / √(1 / (phiStar * phiStar) + 1 / v)
      ⟨mu + phiPrime * phiPrime * deltaSum, phiPrime, sigmaPrime⟩

def unrated (p : ContestParticipant) : RatingChangeResult where
  userId := p.userId
  beforeRating := p.rating
  afterRating := p.rating
  delta := 0
  beforeRd := p.ratingDeviation
  afterRd := p.ratingDeviation
  beforeVolatility := p.ratingVolatility
  afterVolatility := p.ratingVolatility
  rank := p.rank

/-- An opponent as a participant sees it. -/
def opponentOf (me opp : ContestParticipant) : Opponent :=
  ⟨toMu opp.rating, toPhi opp.ratingDeviation, (scoreFromRanks me.rank opp.rank : ℚ)⟩

def ratedAgainst (fuel : Nat) (tau : ℝ) (me : ContestParticipant)
    (opponents : List ContestParticipant) : Option RatingChangeResult :=
  (updateOne fuel (toMu me.rating) (toPhi me.ratingDeviation) me.ratingVolatility
    (opponents.map (opponentOf me)) tau).map fun next =>
      let newRating : ℝ := mathRound (fromMu next.mu)
      let newRd : ℝ := max 30 (mathRound (fromPhi next.phi))
      { userId := me.userId
        beforeRating := me.rating
        afterRating := newRating
        delta := newRating - me.rating
        beforeRd := me.ratingDeviation
        afterRd := newRd
        beforeVolatility := me.ratingVolatility
        afterVolatility := next.sigma
        rank := me.rank }

/-- The loop over the participants, of which those before have been rated. -/
def rateFrom (fuel : Nat) (tau : ℝ) (before : List ContestParticipant) :
    List ContestParticipant → Option (List RatingChangeResult)
  | [] => some []
  | p :: after => do
    return (← ratedAgainst fuel tau p (before ++ after)) ::
      (← rateFrom fuel tau (before ++ [p]) after)

def calculateRatingChanges (fuel : Nat) (participants : List ContestParticipant) (tau : ℝ) :
    Option (List RatingChangeResult) :=
  if participants.length < 2 then some (participants.map unrated)
  else rateFrom fuel tau [] participants

end

variable {fuel : Nat} {tau : ℝ} {me : ContestParticipant} {mu phi sigma : ℝ}

theorem RATING_SCALE_pos : 0 < RATING_SCALE := by
  norm_num [RATING_SCALE]

theorem gPhi_pos (phi : ℝ) : 0 < gPhi phi := by
  have hsq : 0 ≤ 3 * phi * phi := by nlinarith [mul_self_nonneg phi]
  rw [gPhi]
  positivity

theorem expectedScore_pos (mu muJ phiJ : ℝ) : 0 < expectedScore mu muJ phiJ := by
  rw [expectedScore]
  positivity

theorem expectedScore_lt_one (mu muJ phiJ : ℝ) : expectedScore mu muJ phiJ < 1 := by
  rw [expectedScore, div_lt_one (by positivity)]
  linarith [exp_pos (-gPhi phiJ * (mu - muJ))]

/-- Every game tells something. -/
theorem information_pos (mu : ℝ) (o : Opponent) : 0 < information mu o := by
  have he := expectedScore_pos mu o.muJ o.phiJ
  have he' := sub_pos.2 (expectedScore_lt_one mu o.muJ o.phiJ)
  have hg := gPhi_pos o.phiJ
  exact mul_pos (mul_pos (mul_pos hg hg) he) he'

/-- A win improves and a loss does not. -/
theorem improvement_nonneg {o : Opponent} (h : o.score = 1) : 0 ≤ improvement mu o := by
  rw [improvement, h]
  exact mul_nonneg (gPhi_pos _).le (sub_nonneg.2 (expectedScore_lt_one ..).le)

theorem improvement_nonpos {o : Opponent} (h : o.score = 0) : improvement mu o ≤ 0 := by
  rw [improvement, h, zero_sub]
  exact mul_nonpos_of_nonneg_of_nonpos (gPhi_pos _).le (neg_nonpos.2 (expectedScore_pos ..).le)

/-- Enough rounds for the loop that looks for a bracket let every update end. -/
theorem exists_updateOne (hτ : 0 < tau) (mu phi sigma : ℝ) (opponents : List Opponent) :
    ∃ next, ∀ fuel, ⌈tau / 2⌉₊ + 1 ≤ fuel →
      updateOne fuel mu phi sigma opponents tau = some next := by
  by_cases hnil : opponents.length = 0
  · exact ⟨_, fun fuel _ => if_pos hnil⟩
  · have hpos : 0 < (opponents.map (information mu)).sum := by
      apply List.sum_pos
      · intro x hx
        obtain ⟨o, -, rfl⟩ := List.mem_map.1 hx
        exact information_pos mu o
      · rw [← List.length_pos_iff, List.length_map]
        omega
    obtain ⟨sigmaPrime, hsigma⟩ := exists_newVolatility phi
      (1 / (opponents.map (information mu)).sum * (opponents.map (improvement mu)).sum) sigma
      CONVERGENCE_EPSILON (one_div_pos.2 hpos) hτ
    exact ⟨_, fun fuel hfuel => (if_neg hnil).trans (congrArg (Option.map _) (hsigma fuel hfuel))⟩

theorem exists_ratedAgainst (hτ : 0 < tau) (me : ContestParticipant)
    (opponents : List ContestParticipant) :
    ∃ r, ∀ fuel, ⌈tau / 2⌉₊ + 1 ≤ fuel → ratedAgainst fuel tau me opponents = some r := by
  obtain ⟨next, hnext⟩ := exists_updateOne hτ (toMu me.rating) (toPhi me.ratingDeviation)
    me.ratingVolatility (opponents.map (opponentOf me))
  exact ⟨_, fun fuel hfuel => congrArg (Option.map _) (hnext fuel hfuel)⟩

/-- An update does not see the order of the opponents. -/
theorem ratedAgainst_perm {opponents opponents' : List ContestParticipant}
    (h : opponents.Perm opponents') :
    ratedAgainst fuel tau me opponents = ratedAgainst fuel tau me opponents' := by
  have hmap := h.map (opponentOf me)
  rw [ratedAgainst, ratedAgainst, updateOne, updateOne, hmap.length_eq,
    (hmap.map (information (toMu me.rating))).sum_eq,
    (hmap.map (improvement (toMu me.rating))).sum_eq]

theorem rateFrom_cons_eq_some_iff {p : ContestParticipant} {before after : List ContestParticipant}
    {rs : List RatingChangeResult} :
    rateFrom fuel tau before (p :: after) = some rs ↔
      ∃ r, ratedAgainst fuel tau p (before ++ after) = some r ∧
        ∃ rest, rateFrom fuel tau (before ++ [p]) after = some rest ∧ r :: rest = rs := by
  rw [rateFrom]
  constructor
  · intro h
    obtain ⟨r, hr, h⟩ := Option.bind_eq_some_iff.1 h
    obtain ⟨rest, hrest, h⟩ := Option.bind_eq_some_iff.1 h
    exact ⟨r, hr, rest, hrest, Option.some.inj h⟩
  · rintro ⟨r, hr, rest, hrest, rfl⟩
    rw [hr, hrest]
    rfl

/-- Each participant is rated against all others as they were before. -/
theorem rateFrom_eq_some_iff {before after : List ContestParticipant}
    {rs : List RatingChangeResult} :
    rateFrom fuel tau before after = some rs ↔ rs.length = after.length ∧
      ∀ i (hi : i < after.length) (hi' : i < rs.length),
        ratedAgainst fuel tau after[i] (before ++ after.eraseIdx i) = some rs[i] := by
  induction after generalizing before rs with
  | nil =>
    constructor
    · intro h
      cases h
      exact ⟨rfl, fun i hi => absurd hi (Nat.not_lt_zero i)⟩
    · rintro ⟨hlen, -⟩
      rw [List.length_nil, List.length_eq_zero_iff] at hlen
      rw [hlen, rateFrom]
  | cons p after ih =>
    rw [rateFrom_cons_eq_some_iff]
    constructor
    · rintro ⟨r, hr, rest, hrest, rfl⟩
      obtain ⟨hlen, hrest⟩ := ih.1 hrest
      refine ⟨congrArg (· + 1) hlen, fun i hi hi' => ?_⟩
      cases i with
      | zero => exact hr
      | succ i =>
        have hi := hrest i (Nat.lt_of_succ_lt_succ hi) (Nat.lt_of_succ_lt_succ hi')
        rwa [List.append_assoc, List.singleton_append] at hi
    · rintro ⟨hlen, hrs⟩
      cases rs with
      | nil => cases hlen
      | cons r rest =>
        refine ⟨r, hrs 0 (Nat.succ_pos _) (Nat.succ_pos _), rest, ?_, rfl⟩
        refine ih.2 ⟨Nat.succ.inj hlen, fun i hi hi' => ?_⟩
        rw [List.append_assoc, List.singleton_append]
        exact hrs (i + 1) (Nat.succ_lt_succ hi) (Nat.succ_lt_succ hi')

/-- The participants apart from one. -/
def others {n : Nat} (ps : Fin n → ContestParticipant) (i : Fin n) : Multiset ContestParticipant :=
  (Finset.univ.erase i).val.map ps

variable {n : Nat} {ps : Fin n → ContestParticipant} {rs : Fin n → RatingChangeResult}

theorem eraseIdx_ofFn (ps : Fin n → ContestParticipant) (i : Fin n) :
    (((List.ofFn ps).eraseIdx i : List ContestParticipant) : Multiset ContestParticipant) =
      others ps i := by
  have hlt : (i : Nat) < (List.ofFn ps).length := by
    rw [List.length_ofFn]
    exact i.2
  have hperm := List.getElem_cons_eraseIdx_perm hlt
  have hall : ((List.ofFn ps : List ContestParticipant) : Multiset ContestParticipant) =
      Finset.univ.val.map ps := by
    rw [Fin.univ_val_map]
  have hsplit : Finset.univ.val.map ps = ps i ::ₘ others ps i := by
    rw [others, ← Multiset.map_cons, ← Finset.insert_val_of_notMem (Finset.notMem_erase i _),
      Finset.insert_erase (Finset.mem_univ i)]
  have hcons := Multiset.coe_eq_coe.2 hperm
  rw [hall, hsplit, ← Multiset.cons_coe, List.getElem_ofFn] at hcons
  exact (Multiset.cons_inj_right _).1 hcons

/-- The changes of a contest with at least two participants. -/
theorem calculateRatingChanges_iff (hn : 2 ≤ n) :
    calculateRatingChanges fuel (List.ofFn ps) tau = some (List.ofFn rs) ↔
      ∀ i, ratedAgainst fuel tau (ps i) (others ps i).toList = some (rs i) := by
  have hlen : ¬(List.ofFn ps).length < 2 := by
    rw [List.length_ofFn]
    omega
  have hperm (i : Fin n) : ((List.ofFn ps).eraseIdx i).Perm (others ps i).toList := by
    rw [← Multiset.coe_eq_coe, Multiset.coe_toList, eraseIdx_ofFn]
  rw [calculateRatingChanges, if_neg hlen, rateFrom_eq_some_iff]
  constructor
  · rintro ⟨-, h⟩ i
    have hi := h i (by rw [List.length_ofFn]; exact i.2) (by rw [List.length_ofFn]; exact i.2)
    rw [List.getElem_ofFn, List.getElem_ofFn, List.nil_append] at hi
    rw [← hi, ratedAgainst_perm (hperm i)]
  · intro h
    refine ⟨by rw [List.length_ofFn, List.length_ofFn], fun i hi hi' => ?_⟩
    rw [List.length_ofFn] at hi
    rw [List.getElem_ofFn, List.getElem_ofFn, List.nil_append, ← h ⟨i, hi⟩,
      ← ratedAgainst_perm (hperm ⟨i, hi⟩)]

theorem others_perm (ps : Fin n → ContestParticipant) (e : Equiv.Perm (Fin n)) (i : Fin n) :
    others (ps ∘ e) i = others ps (e i) := by
  have hmap : (Finset.univ.erase i).val.map e = (Finset.univ.erase (e i)).val := by
    have hmap := Finset.map_erase e.toEmbedding Finset.univ i
    rw [Finset.map_univ_equiv] at hmap
    exact congrArg Finset.val hmap
  rw [others, others, ← hmap, Multiset.map_map]

theorem exists_calculateRatingChanges (hτ : 0 < tau) (hn : 2 ≤ n)
    (ps : Fin n → ContestParticipant) :
    ∃ rs : Fin n → RatingChangeResult, ∀ fuel, ⌈tau / 2⌉₊ + 1 ≤ fuel →
      calculateRatingChanges fuel (List.ofFn ps) tau = some (List.ofFn rs) := by
  choose rs hrs using fun i => exists_ratedAgainst hτ (ps i) (others ps i).toList
  exact ⟨rs, fun fuel hfuel => (calculateRatingChanges_iff hn).2 fun i => hrs i fuel hfuel⟩

/-- A result is a function of the participant and the multiset of the others, so the results of a
permuted list are the permuted results. -/
theorem calculateRatingChanges_perm (fuel : Nat) (tau : ℝ) :
    ∃ F : ContestParticipant → Multiset ContestParticipant → Option RatingChangeResult,
      ∀ n, 2 ≤ n → ∀ ps : Fin n → ContestParticipant,
        (0 < tau → ⌈tau / 2⌉₊ + 1 ≤ fuel → ∃ rs : Fin n → RatingChangeResult,
          calculateRatingChanges fuel (List.ofFn ps) tau = some (List.ofFn rs)) ∧
        ∀ rs, calculateRatingChanges fuel (List.ofFn ps) tau = some (List.ofFn rs) →
          (∀ i, F (ps i) (others ps i) = some (rs i)) ∧
          ∀ e : Equiv.Perm (Fin n), calculateRatingChanges fuel (List.ofFn (ps ∘ e)) tau =
            some (List.ofFn (rs ∘ e)) := by
  refine ⟨fun p ps => ratedAgainst fuel tau p ps.toList, fun n hn ps => ⟨?_, ?_⟩⟩
  · intro hτ hfuel
    obtain ⟨rs, hrs⟩ := exists_calculateRatingChanges hτ hn ps
    exact ⟨rs, hrs fuel hfuel⟩
  · intro rs hrs
    rw [calculateRatingChanges_iff hn] at hrs
    refine ⟨hrs, fun e => ?_⟩
    rw [calculateRatingChanges_iff hn]
    intro i
    rw [others_perm]
    exact hrs (e i)

theorem le_mathRound {x : ℝ} {k : Int} (h : (k : ℝ) ≤ x) : k ≤ mathRound x := by
  rw [mathRound, Int.le_floor]
  linarith

theorem mathRound_le {x : ℝ} {k : Int} (h : x ≤ k) : mathRound x ≤ k := by
  have hlt : mathRound x < k + 1 := by
    rw [mathRound, Int.floor_lt]
    push_cast
    linarith
  omega

theorem fromMu_toMu_add (rating d : ℝ) :
    fromMu (toMu rating + d) = rating + d * RATING_SCALE := by
  rw [fromMu, toMu, add_mul, div_mul_cancel₀ _ RATING_SCALE_pos.ne']
  ring

/-- An update adds a multiple of the improvement, which no rounding turns around. -/
theorem ratedAgainst_rating {opponents : List ContestParticipant} {r : RatingChangeResult}
    (h : ratedAgainst fuel tau me opponents = some r) :
    r.beforeRating = me.rating ∧ ∃ c, 0 ≤ c ∧ r.afterRating = mathRound (me.rating + c *
      (opponents.map fun opp => improvement (toMu me.rating) (opponentOf me opp)).sum) := by
  obtain ⟨next, hnext, hr⟩ := Option.map_eq_some_iff.1 h
  subst hr
  refine ⟨rfl, ?_⟩
  rw [updateOne] at hnext
  split at hnext
  next hnil =>
    rw [List.length_map, List.length_eq_zero_iff] at hnil
    have hmu : next.mu = toMu me.rating + 0 := by
      rw [← Option.some.inj hnext, add_zero]
    refine ⟨0, le_rfl, ?_⟩
    change (mathRound (fromMu next.mu) : ℝ) = _
    rw [hmu, fromMu_toMu_add, zero_mul, zero_mul]
  next =>
    obtain ⟨sigmaPrime, -, hnext⟩ := Option.map_eq_some_iff.1 hnext
    have hsum : (opponents.map fun opp => improvement (toMu me.rating) (opponentOf me opp)).sum =
        ((opponents.map (opponentOf me)).map (improvement (toMu me.rating))).sum := by
      rw [List.map_map]
      rfl
    have hmu : next.mu = toMu me.rating + next.phi * next.phi *
        (opponents.map fun opp => improvement (toMu me.rating) (opponentOf me opp)).sum := by
      rw [hsum, ← hnext]
    refine ⟨next.phi * next.phi * RATING_SCALE,
      mul_nonneg (mul_self_nonneg _) RATING_SCALE_pos.le, ?_⟩
    change (mathRound (fromMu next.mu) : ℝ) = _
    rw [hmu, fromMu_toMu_add, mul_right_comm]

theorem forall_others {P : ContestParticipant → Prop} {i : Fin n} (h : ∀ j, j ≠ i → P (ps j)) :
    ∀ opp ∈ (others ps i).toList, P opp := by
  intro opp hopp
  rw [Multiset.mem_toList, others, Multiset.mem_map] at hopp
  obtain ⟨j, hj, rfl⟩ := hopp
  have hj : j ∈ Finset.univ.erase i := hj
  exact h j (Finset.ne_of_mem_erase hj)

/-- Wins only improve. -/
theorem sum_improvement_nonneg {opponents : List ContestParticipant}
    (h : ∀ opp ∈ opponents, me.rank < opp.rank) :
    0 ≤ (opponents.map fun opp => improvement (toMu me.rating) (opponentOf me opp)).sum := by
  apply List.sum_nonneg
  intro x hx
  obtain ⟨opp, hopp, rfl⟩ := List.mem_map.1 hx
  apply improvement_nonneg
  rw [opponentOf, scoreFromRanks, if_pos (h opp hopp), Rat.cast_one]

theorem sum_improvement_nonpos {opponents : List ContestParticipant}
    (h : ∀ opp ∈ opponents, opp.rank < me.rank) :
    (opponents.map fun opp => improvement (toMu me.rating) (opponentOf me opp)).sum ≤ 0 := by
  have hterms : ∀ x ∈ opponents.map fun opp => improvement (toMu me.rating) (opponentOf me opp),
      x ≤ 0 := by
    intro x hx
    obtain ⟨opp, hopp, rfl⟩ := List.mem_map.1 hx
    apply improvement_nonpos
    rw [opponentOf, scoreFromRanks, if_neg (lt_asymm (h opp hopp)), if_pos (h opp hopp),
      Rat.cast_zero]
  have hle := List.sum_le_card_nsmul _ 0 hterms
  rwa [nsmul_zero] at hle

/-- Who beats everyone loses no rating, and whom everyone beats gains none. -/
theorem winner_keeps_rating (tau : ℝ) (hτ : 0 < tau) (n : Nat) (hn : 2 ≤ n)
    (ps : Fin n → ContestParticipant) (hint : ∀ i, ∃ k : Int, (ps i).rating = k) :
    ∃ enough, ∃ rs : Fin n → RatingChangeResult, (∀ fuel, enough ≤ fuel →
        calculateRatingChanges fuel (List.ofFn ps) tau = some (List.ofFn rs)) ∧
      ∀ i, (rs i).beforeRating = (ps i).rating ∧
        ((∀ j, j ≠ i → (ps i).rank < (ps j).rank) → (rs i).beforeRating ≤ (rs i).afterRating) ∧
        ((∀ j, j ≠ i → (ps j).rank < (ps i).rank) → (rs i).afterRating ≤ (rs i).beforeRating) := by
  obtain ⟨rs, hrs⟩ := exists_calculateRatingChanges hτ hn ps
  refine ⟨⌈tau / 2⌉₊ + 1, rs, hrs, fun i => ?_⟩
  have hi := (calculateRatingChanges_iff hn).1 (hrs _ le_rfl) i
  obtain ⟨hbefore, c, hc, hafter⟩ := ratedAgainst_rating hi
  obtain ⟨k, hk⟩ := hint i
  refine ⟨hbefore, fun hwins => ?_, fun hloses => ?_⟩
  · have hsum := sum_improvement_nonneg (forall_others hwins)
    have hle := hk.ge.trans (le_add_of_nonneg_right (mul_nonneg hc hsum))
    calc
      (rs i).beforeRating = k := hbefore.trans hk
      _ ≤ (rs i).afterRating := by
        rw [hafter]
        exact Int.cast_le.2 (le_mathRound hle)
  · have hsum := sum_improvement_nonpos (forall_others hloses)
    have hle := (add_le_of_nonpos_right (mul_nonpos_of_nonneg_of_nonpos hc hsum)).trans hk.le
    calc
      (rs i).afterRating ≤ k := by
        rw [hafter]
        exact Int.cast_le.2 (mathRound_le hle)
      _ = (rs i).beforeRating := (hbefore.trans hk).symm

/-- A newcomer before a veteran. -/
def duel : Fin 2 → ContestParticipant
  | 0 => ⟨⟨"newcomer", 1500, 350, 0.06⟩, 1⟩
  | 1 => ⟨⟨"veteran", 1700, 80, 0.05⟩, 2⟩

theorem winner_keeps_rating_duel :
    ∃ enough, ∃ rs : Fin 2 → RatingChangeResult, (∀ fuel, enough ≤ fuel →
        calculateRatingChanges fuel (List.ofFn duel) SYSTEM_TAU = some (List.ofFn rs)) ∧
      (rs 0).beforeRating = 1500 ∧ (rs 0).beforeRating ≤ (rs 0).afterRating := by
  have hint (i : Fin 2) : ∃ k : Int, (duel i).rating = k := by
    fin_cases i
    · exact ⟨1500, by norm_num [duel]⟩
    · exact ⟨1700, by norm_num [duel]⟩
  obtain ⟨enough, rs, hrs, h⟩ := winner_keeps_rating SYSTEM_TAU (by norm_num [SYSTEM_TAU]) 2
    le_rfl duel hint
  obtain ⟨hbefore, hwins, -⟩ := h 0
  refine ⟨enough, rs, hrs, hbefore, hwins fun j hj => ?_⟩
  fin_cases j
  · exact absurd rfl hj
  · decide

end Glicko2
end Leetrank
