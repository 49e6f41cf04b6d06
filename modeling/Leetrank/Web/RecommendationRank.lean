import Leetrank.Web.Recommendations
import Mathlib.Algebra.Order.Ring.Cast

namespace Leetrank
set_option autoImplicit true

open Ranking

/-- The comparator of the ranking, where `localeCompare` compares the ids. -/
def compareRanked (localeCompare : String → String → Int) (a b : ScoredProblem) : Rat :=
  if b.score ≠ a.score then b.score - a.score
  else
    let arA := a.problem.acceptanceRate.getD 0
    let arB := b.problem.acceptanceRate.getD 0
    if arB ≠ arA then arB - arA else localeCompare a.problem.id b.problem.id

/-- The ranking for any comparison of the ids. -/
def rankRecommendationsBy (localeCompare : String → String → Int)
    (candidates : List ProblemForScoring) (history : UserSolveHistory) (limit : Nat) (now : Int) :
    List ScoredRecommendation :=
  (((eligible candidates history now).mergeSort fun a b =>
    compareRanked localeCompare a b ≤ 0).take limit).map fun s =>
      let (reason, reasonTag) := reasonOf history now s.problem
      ⟨s.problem, s.score, reason, reasonTag⟩

/-- The comparison is a strict total order on some ids. -/
structure OrdersIds (localeCompare : String → String → Int) (ids : List String) : Prop where
  self : ∀ a ∈ ids, localeCompare a a = 0
  distinct : ∀ a ∈ ids, ∀ b ∈ ids, a ≠ b → localeCompare a b ≠ 0
  swap : ∀ a ∈ ids, ∀ b ∈ ids, localeCompare a b < 0 ↔ 0 < localeCompare b a
  trans : ∀ a ∈ ids, ∀ b ∈ ids, ∀ c ∈ ids,
    localeCompare a b < 0 → localeCompare b c < 0 → localeCompare a c < 0

def ScoredProblem.rate (s : ScoredProblem) : Rat := s.problem.acceptanceRate.getD 0

/-- By score from the highest down, then by acceptance rate from the highest down, then by id. -/
def RanksAbove (localeCompare : String → String → Int) : ScoredProblem → ScoredProblem → Prop :=
  Descending ScoredProblem.score <| Descending ScoredProblem.rate fun a b =>
    localeCompare a.problem.id b.problem.id < 0

/-- The comparison of ids by their code points. -/
def compareCodePoints (a b : String) : Int := if a < b then -1 else if a = b then 0 else 1

variable {localeCompare : String → String → Int} {candidates : List ProblemForScoring}
  {history : UserSolveHistory} {now : Int} {a b c : ScoredProblem} {ids : List String}

theorem mem_eligible {x : ScoredProblem} : x ∈ eligible candidates history now ↔
    ∃ p ∈ candidates, p.id ∉ history.solvedProblemIds ∧
      x = ⟨p, scoreProblem p history now {}⟩ ∧ 0 < x.score := by
  rw [eligible, List.mem_filter, List.mem_map, decide_eq_true_eq]
  constructor
  · rintro ⟨⟨p, hp, rfl⟩, hpos⟩
    rw [List.mem_filter, decide_eq_true_eq] at hp
    exact ⟨p, hp.1, hp.2, rfl, hpos⟩
  · rintro ⟨p, hp, hnot, rfl, hpos⟩
    exact ⟨⟨p, List.mem_filter.2 ⟨hp, decide_eq_true hnot⟩, rfl⟩, hpos⟩

theorem compareRanked_nonpos_iff : compareRanked localeCompare a b ≤ 0 ↔
    Descending ScoredProblem.score (Descending ScoredProblem.rate fun a b =>
      localeCompare a.problem.id b.problem.id ≤ 0) a b := by
  rw [compareRanked, Descending, Descending, ScoredProblem.rate, ScoredProblem.rate]
  dsimp only
  split
  next hscore =>
    rw [sub_nonpos, Int.cast_le, or_iff_left (fun hand => hscore hand.1)]
    exact ⟨fun hle => lt_of_le_of_ne hle hscore, le_of_lt⟩
  next hscore =>
    rw [not_not] at hscore
    rw [or_iff_right (not_lt.2 hscore.ge), and_iff_right hscore]
    split
    next hrate =>
      rw [sub_nonpos, or_iff_left (fun hand => hrate hand.1)]
      exact ⟨fun hle => lt_of_le_of_ne hle hrate, le_of_lt⟩
    next hrate =>
      rw [not_not] at hrate
      rw [or_iff_right (not_lt.2 hrate.ge), and_iff_right hrate, Int.cast_nonpos]

theorem OrdersIds.nonpos_iff (h : OrdersIds localeCompare ids) {x y : String} (hx : x ∈ ids)
    (hy : y ∈ ids) : localeCompare x y ≤ 0 ↔ x = y ∨ localeCompare x y < 0 := by
  constructor
  · intro hle
    by_cases hxy : x = y
    · exact .inl hxy
    · exact .inr (lt_of_le_of_ne hle (h.distinct x hx y hy hxy))
  · rintro (rfl | hlt)
    · exact (h.self x hx).le
    · exact hlt.le

theorem OrdersIds.nonpos_trans (h : OrdersIds localeCompare ids) {x y z : String} (hx : x ∈ ids)
    (hy : y ∈ ids) (hz : z ∈ ids) (hxy : localeCompare x y ≤ 0) (hyz : localeCompare y z ≤ 0) :
    localeCompare x z ≤ 0 := by
  rw [h.nonpos_iff hx hy] at hxy
  rw [h.nonpos_iff hy hz] at hyz
  rcases hxy with rfl | hxy
  · exact (h.nonpos_iff hx hz).2 hyz
  · rcases hyz with rfl | hyz
    · exact hxy.le
    · exact (h.trans x hx y hy z hz hxy hyz).le

theorem OrdersIds.nonpos_total (h : OrdersIds localeCompare ids) {x y : String} (hx : x ∈ ids)
    (hy : y ∈ ids) : localeCompare x y ≤ 0 ∨ localeCompare y x ≤ 0 := by
  rcases le_or_gt (localeCompare x y) 0 with hle | hlt
  · exact .inl hle
  · exact .inr ((h.swap y hy x hx).2 hlt).le

theorem OrdersIds.mono (h : OrdersIds localeCompare ids) {ids' : List String} (hsub : ids' ⊆ ids) :
    OrdersIds localeCompare ids' where
  self a ha := h.self a (hsub ha)
  distinct a ha b hb := h.distinct a (hsub ha) b (hsub hb)
  swap a ha b hb := h.swap a (hsub ha) b (hsub hb)
  trans a ha b hb c hc := h.trans a (hsub ha) b (hsub hb) c (hsub hc)

/-- The candidates of the ranking are some of those given. -/
theorem id_of_mem_eligible {x : ScoredProblem} (h : x ∈ eligible candidates history now) :
    x.problem.id ∈ candidates.map ProblemForScoring.id := by
  obtain ⟨p, hp, -, rfl, -⟩ := mem_eligible.1 h
  exact List.mem_map_of_mem hp

theorem eligible_ids_nodup (h : (candidates.map ProblemForScoring.id).Nodup) :
    ((eligible candidates history now).map fun s => s.problem.id).Nodup := by
  apply List.Nodup.sublist (List.filter_sublist.map _)
  rw [List.map_map]
  exact h.sublist (List.filter_sublist.map _)

theorem eligible_perm {candidates' : List ProblemForScoring} (h : candidates'.Perm candidates) :
    (eligible candidates' history now).Perm (eligible candidates history now) :=
  ((h.filter _).map _).filter _

/-- The candidates in the order of the comparator. -/
def sortedBy (localeCompare : String → String → Int) (candidates : List ProblemForScoring)
    (history : UserSolveHistory) (now : Int) : List ScoredProblem :=
  (eligible candidates history now).mergeSort fun a b => compareRanked localeCompare a b ≤ 0

theorem sortedBy_perm (localeCompare : String → String → Int) (candidates : List ProblemForScoring)
    (history : UserSolveHistory) (now : Int) :
    (sortedBy localeCompare candidates history now).Perm (eligible candidates history now) :=
  List.mergeSort_perm ..

theorem sortedBy_sorted
    (h : OrdersIds localeCompare (candidates.map ProblemForScoring.id)) :
    (sortedBy localeCompare candidates history now).Pairwise fun a b =>
      compareRanked localeCompare a b ≤ 0 := by
  have hs : (sortedBy localeCompare candidates history now).Pairwise fun a b =>
      decide (compareRanked localeCompare a b ≤ 0) = true := ?_
  · exact hs.imp of_decide_eq_true
  apply pairwise_mergeSort_of_mem
  · intro a ha b hb c hc hab hbc
    rw [decide_eq_true_eq, compareRanked_nonpos_iff] at hab hbc ⊢
    have hid := h.nonpos_trans (id_of_mem_eligible ha) (id_of_mem_eligible hb)
      (id_of_mem_eligible hc)
    exact Descending.trans (Descending.trans hid) hab hbc
  · intro a ha b hb
    rw [Bool.or_eq_true, decide_eq_true_eq, decide_eq_true_eq, compareRanked_nonpos_iff,
      compareRanked_nonpos_iff]
    have hid := h.nonpos_total (id_of_mem_eligible ha) (id_of_mem_eligible hb)
    exact Descending.total (Descending.total hid)

/-- The comparator puts the candidates into their order. -/
theorem sortedBy_ranksAbove (hids : (candidates.map ProblemForScoring.id).Nodup)
    (h : OrdersIds localeCompare (candidates.map ProblemForScoring.id)) :
    (sortedBy localeCompare candidates history now).Pairwise (RanksAbove localeCompare) := by
  have hperm := sortedBy_perm localeCompare candidates history now
  have hdistinct : (sortedBy localeCompare candidates history now).Pairwise
      fun a b => a.problem.id ≠ b.problem.id :=
    List.pairwise_map.1 ((hperm.map _).nodup_iff.2 (eligible_ids_nodup hids))
  apply ((sortedBy_sorted h).and hdistinct).imp_of_mem
  rintro a b ha hb ⟨hab, hne⟩
  have hida := id_of_mem_eligible (hperm.mem_iff.1 ha)
  have hidb := id_of_mem_eligible (hperm.mem_iff.1 hb)
  rw [compareRanked_nonpos_iff] at hab
  refine (descending_congr (descending_congr ?_)).1 hab
  exact (h.nonpos_iff hida hidb).trans (or_iff_right hne)

theorem RanksAbove.asymm (h : OrdersIds localeCompare ids) (ha : a.problem.id ∈ ids)
    (hb : b.problem.id ∈ ids) (hab : RanksAbove localeCompare a b) :
    ¬RanksAbove localeCompare b a := by
  have hid : localeCompare a.problem.id b.problem.id < 0 →
      ¬localeCompare b.problem.id a.problem.id < 0 :=
    fun hlt hgt => lt_asymm hlt ((h.swap _ hb _ ha).1 hgt)
  exact Descending.asymm (Descending.asymm hid) hab

/-- There is one such order only. -/
theorem eq_sortedBy {ranking : List ScoredProblem}
    (hids : (candidates.map ProblemForScoring.id).Nodup)
    (h : OrdersIds localeCompare (candidates.map ProblemForScoring.id))
    (hperm : ranking.Perm (eligible candidates history now))
    (hsorted : ranking.Pairwise (RanksAbove localeCompare)) :
    ranking = sortedBy localeCompare candidates history now := by
  refine List.Perm.eq_of_pairwise ?_ hsorted (sortedBy_ranksAbove hids h)
    (hperm.trans (sortedBy_perm ..).symm)
  intro a b ha hb hab hba
  have hida := id_of_mem_eligible (hperm.mem_iff.1 ha)
  have hidb := id_of_mem_eligible ((sortedBy_perm ..).mem_iff.1 hb)
  exact absurd hba (RanksAbove.asymm h hida hidb hab)

theorem rankRecommendationsBy_eq (candidates : List ProblemForScoring) (limit : Nat) :
    rankRecommendationsBy localeCompare candidates history limit now =
      ((sortedBy localeCompare candidates history now).take limit).map fun s =>
        ⟨s.problem, s.score, (reasonOf history now s.problem).1,
          (reasonOf history now s.problem).2⟩ :=
  rfl

theorem compareCodePoints_nonpos_iff (x y : String) : compareCodePoints x y ≤ 0 ↔ x ≤ y := by
  rw [compareCodePoints]
  split
  next hlt => simp [hlt.le]
  next hnot =>
    split
    next heq => simp [heq]
    next hne => simpa using lt_of_le_of_ne (not_lt.1 hnot) (Ne.symm hne)

theorem compareCodePoints_neg_iff (x y : String) : compareCodePoints x y < 0 ↔ x < y := by
  rw [compareCodePoints]
  split
  next hlt => simp [hlt]
  next hnot =>
    split <;> simp [hnot]

theorem rankedBefore_iff_descending : rankedBefore a b ↔
    Descending ScoredProblem.score (Descending ScoredProblem.rate fun a b =>
      a.problem.id ≤ b.problem.id) a b := by
  rw [rankedBefore, Descending, Descending, ScoredProblem.rate, ScoredProblem.rate]
  dsimp only
  split
  next hscore => simp [hscore]
  next hscore =>
    rw [not_not] at hscore
    split
    next hrate => simp [hscore, hrate]
    next hrate =>
      rw [not_not] at hrate
      simp [hscore, hrate]

/-- The ranking that the catalogue is ranked with is the one by code points. -/
theorem rankRecommendations_eq (candidates : List ProblemForScoring) (limit : Nat) :
    rankRecommendations candidates history limit now =
      rankRecommendationsBy compareCodePoints candidates history limit now := by
  have hle : rankedBefore = fun a b => decide (compareRanked compareCodePoints a b ≤ 0) := by
    funext a b
    rw [Bool.eq_iff_iff, decide_eq_true_eq, compareRanked_nonpos_iff, rankedBefore_iff_descending]
    exact descending_congr (descending_congr (compareCodePoints_nonpos_iff _ _).symm)
  rw [rankRecommendations, hle]
  rfl

theorem ordersIds_compareCodePoints (ids : List String) : OrdersIds compareCodePoints ids where
  self a _ := by simp [compareCodePoints]
  distinct a _ b _ hne := by
    rw [compareCodePoints, if_neg hne]
    split <;> decide
  swap a _ b _ := by
    rw [compareCodePoints_neg_iff, ← not_le, ← compareCodePoints_nonpos_iff, not_le]
  trans a _ b _ c _ hab hbc := by
    rw [compareCodePoints_neg_iff] at hab hbc ⊢
    exact hab.trans hbc

/-- The unsolved candidates with a positive score, in the order of the ranking. -/
structure IsRanking (localeCompare : String → String → Int) (candidates : List ProblemForScoring)
    (history : UserSolveHistory) (now : Int) (ranking : List ScoredProblem) : Prop where
  problems : (ranking.map ScoredProblem.problem).Perm (candidates.filter fun p =>
    p.id ∉ history.solvedProblemIds ∧ 0 < scoreProblem p history now {})
  scores : ∀ s ∈ ranking, s.score = scoreProblem s.problem history now {}
  order : ranking.Pairwise (RanksAbove localeCompare)

theorem eligible_eq (candidates : List ProblemForScoring) (history : UserSolveHistory)
    (now : Int) : eligible candidates history now =
      (candidates.filter fun p => p.id ∉ history.solvedProblemIds ∧
        0 < scoreProblem p history now {}).map fun p => ⟨p, scoreProblem p history now {}⟩ := by
  rw [eligible, List.filter_map, List.filter_filter]
  congr 1
  apply List.filter_congr
  intro p _
  rw [Bool.eq_iff_iff, Bool.and_eq_true, decide_eq_true_eq, Function.comp, decide_eq_true_eq,
    decide_eq_true_eq, and_comm]

theorem isRanking_iff {ranking : List ScoredProblem} :
    IsRanking localeCompare candidates history now ranking ↔
      ranking.Perm (eligible candidates history now) ∧
        ranking.Pairwise (RanksAbove localeCompare) := by
  constructor
  · intro h
    have hscored : (ranking.map ScoredProblem.problem).map
        (fun p => ⟨p, scoreProblem p history now {}⟩) = ranking := by
      rw [List.map_map]
      conv =>
        rhs
        rw [← List.map_id ranking]
      apply List.map_congr_left
      intro s hs
      rw [Function.comp, ← h.scores s hs, id]
    rw [eligible_eq, ← hscored]
    exact ⟨h.problems.map _, hscored.symm ▸ h.order⟩
  · rintro ⟨hperm, horder⟩
    constructor
    · have hmap := hperm.map ScoredProblem.problem
      have hid : ScoredProblem.problem ∘
          (fun p => (⟨p, scoreProblem p history now {}⟩ : ScoredProblem)) = id := rfl
      rw [eligible_eq, List.map_map, hid, List.map_id] at hmap
      exact hmap
    · intro s hs
      obtain ⟨p, -, -, rfl, -⟩ := mem_eligible.1 (hperm.mem_iff.1 hs)
      rfl
    · exact horder

/-- The recommendations are the first of one ranking, whatever order the candidates come in. -/
theorem rankRecommendationsBy_top (candidates : List ProblemForScoring)
    (history : UserSolveHistory) (now : Int)
    (hids : (candidates.map ProblemForScoring.id).Nodup)
    (h : OrdersIds localeCompare (candidates.map ProblemForScoring.id)) :
    ∃ ranking, IsRanking localeCompare candidates history now ranking ∧
      (∀ ranking', IsRanking localeCompare candidates history now ranking' → ranking' = ranking) ∧
      ∀ limit, ∀ candidates', candidates'.Perm candidates →
        (rankRecommendationsBy localeCompare candidates' history limit now =
          rankRecommendationsBy localeCompare candidates history limit now) ∧
        (rankRecommendationsBy localeCompare candidates' history limit now).map
            (fun r => ⟨r.problem, r.score⟩) = ranking.take (min limit ranking.length) := by
  refine ⟨sortedBy localeCompare candidates history now, ?_, ?_, ?_⟩
  · exact isRanking_iff.2 ⟨sortedBy_perm .., sortedBy_ranksAbove hids h⟩
  · intro ranking' hranking'
    rw [isRanking_iff] at hranking'
    exact eq_sortedBy hids h hranking'.1 hranking'.2
  · intro limit candidates' hperm
    have hids' : (candidates'.map ProblemForScoring.id).Nodup := (hperm.map _).nodup_iff.2 hids
    have h' : OrdersIds localeCompare (candidates'.map ProblemForScoring.id) :=
      h.mono fun id hid => (hperm.map _).mem_iff.1 hid
    have hsorted : sortedBy localeCompare candidates' history now =
        sortedBy localeCompare candidates history now :=
      eq_sortedBy hids h ((sortedBy_perm ..).trans (eligible_perm hperm))
        (sortedBy_ranksAbove hids' h')
    have hresult : rankRecommendationsBy localeCompare candidates' history limit now =
        rankRecommendationsBy localeCompare candidates history limit now := by
      rw [rankRecommendationsBy_eq, rankRecommendationsBy_eq, hsorted]
    refine ⟨hresult, ?_⟩
    rw [hresult, rankRecommendationsBy_eq, List.map_map, ← List.take_eq_take_min]
    exact List.map_id _

/-- Two problems that the ids alone decide between. -/
def tiedProblems : List ProblemForScoring :=
  [⟨"three-sum", .medium, none, ["array"], 0⟩, ⟨"four-sum", .medium, some 0, ["array"], 0⟩]

theorem rankRecommendationsBy_tied :
    ∃ ranking, IsRanking compareCodePoints tiedProblems ⟨[], [], []⟩ 0 ranking ∧
      ∀ limit,
        rankRecommendationsBy compareCodePoints tiedProblems.reverse ⟨[], [], []⟩ limit 0 =
          rankRecommendationsBy compareCodePoints tiedProblems ⟨[], [], []⟩ limit 0 ∧
        (rankRecommendationsBy compareCodePoints tiedProblems ⟨[], [], []⟩ limit 0).map
            (fun r => ⟨r.problem, r.score⟩) = ranking.take (min limit ranking.length) := by
  have hids := ordersIds_compareCodePoints (tiedProblems.map ProblemForScoring.id)
  obtain ⟨ranking, hranking, -, htop⟩ :=
    rankRecommendationsBy_top tiedProblems ⟨[], [], []⟩ 0 (by decide) hids
  refine ⟨ranking, hranking, ?_⟩
  intro limit
  constructor
  · exact (htop limit _ (List.reverse_perm _)).1
  · exact (htop limit _ (.refl _)).2

end Leetrank
