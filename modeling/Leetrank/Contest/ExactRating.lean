import Leetrank.Contest.Glicko2

namespace Leetrank
namespace Glicko2
set_option autoImplicit true

/-- A participant of the database and one in exact numbers, where `R` relates a double to the number
that it stands for. -/
structure StandsFor (R : Float → ℝ → Prop) (p : Leetrank.ContestParticipant)
    (q : ContestParticipant) : Prop where
  userId : q.userId = p.userId
  rating : q.rating = p.rating
  ratingDeviation : q.ratingDeviation = p.ratingDeviation
  ratingVolatility : R p.ratingVolatility q.ratingVolatility
  rank : q.rank = p.rank

/-- The changes of two such participants. -/
structure ChangeStandsFor (R : Float → ℝ → Prop) (c : Leetrank.RatingChangeResult)
    (d : RatingChangeResult) : Prop where
  userId : d.userId = c.userId
  beforeRating : d.beforeRating = c.beforeRating
  afterRating : d.afterRating = c.afterRating
  delta : d.delta = c.delta
  beforeRd : d.beforeRd = c.beforeRd
  afterRd : d.afterRd = c.afterRd
  beforeVolatility : R c.beforeVolatility d.beforeVolatility
  afterVolatility : R c.afterVolatility d.afterVolatility
  rank : d.rank = c.rank

/-- What the engine makes of a participant and the opponents. -/
def engineResult (engine : RatingEngine) (p : Leetrank.ContestParticipant)
    (opponents : List Leetrank.ContestParticipant) : UpdatedRating :=
  engine p.toRatingState
    (opponents.map fun opp => (opp.toRatingState, scoreFromRanks p.rank opp.rank))

/-- The engine errs so little from the exact update of a participant that both round to the same
rating and RD. -/
def FollowsExact (R : Float → ℝ → Prop) (engine : RatingEngine) (fuel : Nat) (tau : ℝ)
    (x : Leetrank.ContestParticipant × ContestParticipant)
    (opponents : List (Leetrank.ContestParticipant × ContestParticipant)) : Prop :=
  let updated := engineResult engine x.1 (opponents.map Prod.fst)
  ∃ next, updateOne fuel (toMu x.2.rating) (toPhi x.2.ratingDeviation) x.2.ratingVolatility
      ((opponents.map Prod.snd).map (opponentOf x.2)) tau = some next ∧
    mathRound (fromMu next.mu) = updated.rating ∧
    mathRound (fromPhi next.phi) = updated.ratingDeviation ∧
    R updated.ratingVolatility next.sigma

variable {R : Float → ℝ → Prop} {engine : RatingEngine} {fuel : Nat} {tau : ℝ}
  {x : Leetrank.ContestParticipant × ContestParticipant}
  {before xs : List (Leetrank.ContestParticipant × ContestParticipant)}

theorem unrated_standsFor (h : StandsFor R x.1 x.2) :
    ChangeStandsFor R (Leetrank.unrated x.1) (unrated x.2) where
  userId := h.userId
  beforeRating := h.rating
  afterRating := h.rating
  delta := Int.cast_zero.symm
  beforeRd := h.ratingDeviation
  afterRd := h.ratingDeviation
  beforeVolatility := h.ratingVolatility
  afterVolatility := h.ratingVolatility
  rank := h.rank

theorem ratedAgainst_standsFor (h : StandsFor R x.1 x.2)
    (hengine : FollowsExact R engine fuel tau x xs) :
    ∃ d, ratedAgainst fuel tau x.2 (xs.map Prod.snd) = some d ∧
      ChangeStandsFor R (Leetrank.ratedAgainst engine x.1 (xs.map Prod.fst)) d := by
  obtain ⟨next, hnext, hrating, hrd, hvolatility⟩ := hengine
  refine ⟨_, congrArg (Option.map _) hnext, ?_⟩
  constructor
  · exact h.userId
  · exact h.rating
  · change (mathRound (fromMu next.mu) : ℝ) = _
    rw [hrating]
    rfl
  · change (mathRound (fromMu next.mu) : ℝ) - x.2.rating = _
    rw [hrating, h.rating, ← Int.cast_sub]
    rfl
  · exact h.ratingDeviation
  · change max (30 : ℝ) (mathRound (fromPhi next.phi)) = _
    rw [hrd]
    exact (Int.cast_max (R := ℝ) (a := 30)).symm
  · exact h.ratingVolatility
  · exact hvolatility
  · exact h.rank

theorem rateFrom_standsFor (hstands : ∀ x ∈ xs, StandsFor R x.1 x.2)
    (hengine : ∀ done x rest, xs = done ++ x :: rest →
      FollowsExact R engine fuel tau x (before ++ done ++ rest)) :
    ∃ ds, rateFrom fuel tau (before.map Prod.snd) (xs.map Prod.snd) = some ds ∧
      List.Forall₂ (ChangeStandsFor R)
        (Leetrank.rateFrom engine (before.map Prod.fst) (xs.map Prod.fst)) ds := by
  induction xs generalizing before with
  | nil => exact ⟨[], rfl, .nil⟩
  | cons x xs ih =>
    have hfirst := hengine [] x xs rfl
    rw [List.append_nil] at hfirst
    obtain ⟨d, hd, hchange⟩ := ratedAgainst_standsFor (hstands x List.mem_cons_self) hfirst
    have hlater : ∀ done y rest, xs = done ++ y :: rest →
        FollowsExact R engine fuel tau y (before ++ [x] ++ done ++ rest) := by
      rintro done y rest rfl
      have hy := hengine (x :: done) y rest rfl
      rwa [List.append_cons before x done] at hy
    obtain ⟨ds, hds, hrest⟩ := ih (fun y hy => hstands y (List.mem_cons_of_mem x hy)) hlater
    rw [List.map_append] at hds hrest
    rw [List.map_append] at hd
    refine ⟨d :: ds, ?_, .cons ?_ hrest⟩
    · change (do return (← ratedAgainst fuel tau x.2 _) :: (← rateFrom fuel tau _ _)) = _
      rw [hd]
      change (rateFrom fuel tau (before.map Prod.snd ++ [x].map Prod.snd) (xs.map Prod.snd)).bind
        (fun rest => some (d :: rest)) = _
      rw [hds]
      rfl
    · rwa [List.map_append] at hchange

/-- The rating changes of a contest are the exact ones, as long as the engine follows the exact
update of each participant. -/
theorem calculateRatingChanges_standsFor (hstands : ∀ x ∈ xs, StandsFor R x.1 x.2)
    (hengine : ∀ done x rest, xs = done ++ x :: rest →
      FollowsExact R engine fuel tau x (done ++ rest)) :
    ∃ ds, calculateRatingChanges fuel (xs.map Prod.snd) tau = some ds ∧
      List.Forall₂ (ChangeStandsFor R)
        (Leetrank.calculateRatingChanges engine (xs.map Prod.fst)) ds := by
  rw [calculateRatingChanges, Leetrank.calculateRatingChanges, List.length_map, List.length_map]
  split
  · refine ⟨_, rfl, ?_⟩
    simp only [List.forall₂_map_left_iff, List.forall₂_map_right_iff, List.forall₂_same]
    exact fun x hx => unrated_standsFor (hstands x hx)
  · have hlater : ∀ done x rest, xs = done ++ x :: rest →
        FollowsExact R engine fuel tau x ([] ++ done ++ rest) := hengine
    exact rateFrom_standsFor hstands hlater

end Glicko2
end Leetrank
