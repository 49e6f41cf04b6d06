import Mathlib.Algebra.Order.Ring.Rat
import Mathlib.Data.List.Forall2

namespace Leetrank
set_option autoImplicit true

/-- The rating state of a user before an update, on the public scale. -/
structure RatingState where
  userId : String
  rating : Int
  ratingDeviation : Int
  ratingVolatility : Float

structure ContestParticipant extends RatingState where
  rank : Nat

structure RatingChangeResult where
  userId : String
  beforeRating : Int
  afterRating : Int
  delta : Int
  beforeRd : Int
  afterRd : Int
  beforeVolatility : Float
  afterVolatility : Float
  rank : Nat

/-- What `updateOne` returns, rounded on the public scale. -/
structure UpdatedRating where
  rating : Int
  ratingDeviation : Int
  ratingVolatility : Float

/-- The floating-point update of one user against opponents and the scores against them. -/
abbrev RatingEngine := RatingState → List (RatingState × ℚ) → UpdatedRating

def scoreFromRanks (rankI rankJ : Nat) : ℚ :=
  if rankI < rankJ then 1 else if rankJ < rankI then 0 else 1 / 2

def unrated (p : ContestParticipant) : RatingChangeResult where
  userId := p.userId
  beforeRating := p.rating
  afterRating := p.rating
  delta := 0
  beforeRd := p.ratingDeviation
  afterRd := p.ratingDeviation
  beforeVolatility := p.ratingVolatility
  afterVolatility := p.ratingVolatility
  rank := p.rank

def ratedAgainst (updateOne : RatingEngine) (p : ContestParticipant)
    (opponents : List ContestParticipant) : RatingChangeResult :=
  let next := updateOne p.toRatingState
    (opponents.map fun opp => (opp.toRatingState, scoreFromRanks p.rank opp.rank))
  { userId := p.userId
    beforeRating := p.rating
    afterRating := next.rating
    delta := next.rating - p.rating
    beforeRd := p.ratingDeviation
    afterRd := max 30 next.ratingDeviation
    beforeVolatility := p.ratingVolatility
    afterVolatility := next.ratingVolatility
    rank := p.rank }

/-- The loop over the participants, of which those before have been rated. -/
def rateFrom (updateOne : RatingEngine) (before : List ContestParticipant) :
    List ContestParticipant → List RatingChangeResult
  | [] => []
  | p :: after => ratedAgainst updateOne p (before ++ after) :: rateFrom updateOne (before ++ [p]) after

def calculateRatingChanges (updateOne : RatingEngine) (participants : List ContestParticipant) :
    List RatingChangeResult :=
  if participants.length < 2 then participants.map unrated else rateFrom updateOne [] participants

theorem exists_of_mem_left {R : α → β → Prop} (h : List.Forall₂ R l l') (ha : a ∈ l) :
    ∃ b ∈ l', R a b := by
  induction h with
  | nil => cases ha
  | cons hab _ ih =>
    rcases List.mem_cons.1 ha with rfl | ha
    · exact ⟨_, List.mem_cons_self, hab⟩
    · obtain ⟨b, hb, hab⟩ := ih ha
      exact ⟨b, List.mem_cons_of_mem _ hb, hab⟩

/-- The change belongs to the participant. -/
structure RatingChangeResult.Of (c : RatingChangeResult) (p : ContestParticipant) : Prop where
  userId : c.userId = p.userId
  beforeRating : c.beforeRating = p.rating
  rank : c.rank = p.rank

theorem rateFrom_of (updateOne : RatingEngine) (before ps : List ContestParticipant) :
    List.Forall₂ RatingChangeResult.Of (rateFrom updateOne before ps) ps := by
  induction ps generalizing before with
  | nil => exact .nil
  | cons p ps ih => exact .cons ⟨rfl, rfl, rfl⟩ (ih _)

theorem calculateRatingChanges_of (updateOne : RatingEngine) (ps : List ContestParticipant) :
    List.Forall₂ RatingChangeResult.Of (calculateRatingChanges updateOne ps) ps := by
  unfold calculateRatingChanges
  split
  next =>
    rw [List.forall₂_map_left_iff, List.forall₂_same]
    exact fun p _ => ⟨rfl, rfl, rfl⟩
  next => exact rateFrom_of updateOne [] ps

end Leetrank
