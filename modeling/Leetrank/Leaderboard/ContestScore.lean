import Leetrank.Leaderboard.Rebuild
import Mathlib.Data.Rat.Floor
import Mathlib.Tactic.Linarith
import Mathlib.Tactic.Ring

namespace Leetrank
set_option autoImplicit true

open SortedSets

def CONTEST_SCORE_SCALE : ℚ := 10000000000

/-- Points and the time of the last submission as one score, over exact arithmetic. -/
def encodeContestScore (points lastSubmissionUnix : Int) : ℚ :=
  points * CONTEST_SCORE_SCALE - lastSubmissionUnix

def decodeContestPoints (composite : ℚ) : Int := ⌈composite / CONTEST_SCORE_SCALE⌉

/-- What is packed: no negative points, and a time below the scale. -/
structure ContestResult where
  points : Int
  lastSubmissionUnix : Int
  points_nonneg : 0 ≤ points
  time_nonneg : 0 ≤ lastSubmissionUnix
  time_lt : lastSubmissionUnix < 10000000000

def ContestResult.score (r : ContestResult) : ℚ := encodeContestScore r.points r.lastSubmissionUnix

abbrev ContestBoard := SortedSet String ℚ

/-- `ZREVRANGE` from the start, with the points that the scores stand for. -/
def listContestTop (board : ContestBoard) (limit : Nat) : List LeaderboardEntry :=
  (board.range 0 (limit - 1)).mapIdx fun i x => ⟨i + 1, x.1, decodeContestPoints x.2⟩

variable {p p₁ p₂ t t₁ t₂ : Int}

theorem decode_encode (h0 : 0 ≤ t) (hlt : t < 10000000000) :
    decodeContestPoints (encodeContestScore p t) = p := by
  have h0' : (0 : ℚ) ≤ t := Int.cast_nonneg h0
  have hlt' : (t : ℚ) < 10000000000 := by exact_mod_cast hlt
  have hquotient : encodeContestScore p t / CONTEST_SCORE_SCALE = p - t / 10000000000 := by
    rw [encodeContestScore, CONTEST_SCORE_SCALE]
    ring
  rw [decodeContestPoints, hquotient, Int.ceil_eq_iff]
  constructor
  · linarith
  · linarith

/-- One more point outweighs every difference of the times. -/
theorem encode_lt_encode (hp : p₂ < p₁) (h2 : 0 ≤ t₂) (h1 : t₁ < 10000000000) :
    encodeContestScore p₂ t₂ < encodeContestScore p₁ t₁ := by
  have hp' : (p₂ : ℚ) + 1 ≤ p₁ := by exact_mod_cast hp
  have h2' : (0 : ℚ) ≤ t₂ := Int.cast_nonneg h2
  have h1' : (t₁ : ℚ) < 10000000000 := by exact_mod_cast h1
  simp only [encodeContestScore, CONTEST_SCORE_SCALE]
  linarith

theorem encode_lt_encode_of_eq (p : Int) :
    encodeContestScore p t₂ < encodeContestScore p t₁ ↔ t₁ < t₂ := by
  simp only [encodeContestScore]
  rw [sub_lt_sub_iff_left]
  exact_mod_cast Iff.rfl

theorem encode_lt_encode_iff (h1 : 0 ≤ t₁) (h1' : t₁ < 10000000000) (h2 : 0 ≤ t₂)
    (h2' : t₂ < 10000000000) :
    encodeContestScore p₂ t₂ < encodeContestScore p₁ t₁ ↔ p₂ < p₁ ∨ p₁ = p₂ ∧ t₁ < t₂ := by
  rcases lt_trichotomy p₂ p₁ with hp | rfl | hp
  · exact iff_of_true (encode_lt_encode hp h2 h1') (.inl hp)
  · rw [encode_lt_encode_of_eq]
    simp
  · refine iff_of_false (encode_lt_encode hp h1 h2').not_gt ?_
    rintro (h | ⟨h, _⟩)
    · exact h.not_gt hp
    · exact hp.ne h

theorem ContestResult.decode_score (r : ContestResult) : decodeContestPoints r.score = r.points :=
  decode_encode r.time_nonneg r.time_lt

theorem ContestResult.score_lt_iff (r₁ r₂ : ContestResult) :
    r₂.score < r₁.score ↔ r₂.points < r₁.points ∨
      r₁.points = r₂.points ∧ r₁.lastSubmissionUnix < r₂.lastSubmissionUnix :=
  encode_lt_encode_iff r₁.time_nonneg r₁.time_lt r₂.time_nonneg r₂.time_lt

/-- A score that is not above another one has fewer points, or as many and no earlier time. -/
theorem ContestResult.not_score_lt {r₁ r₂ : ContestResult} (h : ¬r₁.score < r₂.score) :
    r₂.points < r₁.points ∨
      r₂.points = r₁.points ∧ r₁.lastSubmissionUnix ≤ r₂.lastSubmissionUnix := by
  rw [ContestResult.score_lt_iff, not_or, not_lt, not_and, not_lt] at h
  obtain ⟨hpoints, htime⟩ := h
  rcases lt_or_eq_of_le hpoints with hlt | heq
  · exact .inl hlt
  · exact .inr ⟨heq, htime heq⟩

/-- The score of a result stands for its points, and orders the results by their points and then
by their times. -/
theorem contest_score_embedding (r₁ r₂ : ContestResult) :
    decodeContestPoints r₁.score = r₁.points ∧
    (r₂.score < r₁.score ↔ r₂.points < r₁.points ∨
      r₁.points = r₂.points ∧ r₁.lastSubmissionUnix < r₂.lastSubmissionUnix) :=
  ⟨r₁.decode_score, r₁.score_lt_iff r₂⟩

variable {board : ContestBoard} {result : String → ContestResult}

/-- A board on which each user has the score of a result. -/
def ContestBoard.Holds (board : ContestBoard) (result : String → ContestResult) : Prop :=
  ∀ x ∈ board.rows, x.2 = (result x.1).score

theorem range_sublist (board : ContestBoard) (start stop : Nat) :
    (board.range start stop).Sublist board.rows :=
  (List.take_sublist _ _).trans (List.drop_sublist _ _)

/-- The top of a contest lists the points of its users, the most points first and of equal ones the
earlier last submission. -/
theorem listContestTop_ordered (h : board.Holds result) (limit : Nat) :
    (∀ e ∈ listContestTop board limit, e.score = (result e.username).points) ∧
    (listContestTop board limit).Pairwise fun a b => b.score < a.score ∨ b.score = a.score ∧
      (result a.username).lastSubmissionUnix ≤ (result b.username).lastSubmissionUnix := by
  have hsub := range_sublist board 0 (limit - 1)
  have hpoints (x : String × ℚ) (hx : x ∈ board.range 0 (limit - 1)) :
      decodeContestPoints x.2 = (result x.1).points := by
    rw [h x (hsub.subset hx), ContestResult.decode_score]
  constructor
  · intro e he
    obtain ⟨i, hi, rfl⟩ := List.mem_mapIdx.1 he
    exact hpoints _ (List.getElem_mem hi)
  · rw [List.pairwise_iff_getElem]
    intro i j hi hj hij
    have hi' : i < (board.range 0 (limit - 1)).length := List.length_mapIdx ▸ hi
    have hj' : j < (board.range 0 (limit - 1)).length := List.length_mapIdx ▸ hj
    have habove := List.pairwise_iff_getElem.1 (board.sorted.sublist hsub) i j hi' hj' hij
    have hx := List.getElem_mem hi'
    have hy := List.getElem_mem hj'
    simp only [listContestTop, List.getElem_mapIdx, hpoints _ hx, hpoints _ hy]
    apply ContestResult.not_score_lt
    rw [← h _ (hsub.subset hx), ← h _ (hsub.subset hy)]
    rcases habove with hlt | ⟨heq, _⟩
    · exact hlt.not_gt
    · exact heq.not_gt

end Leetrank
