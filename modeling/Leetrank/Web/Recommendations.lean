import Leetrank.Library.Ranking
import Leetrank.Achievements.SolvedSets
import Mathlib.Algebra.Order.Ring.Rat
import Mathlib.Data.Prod.Lex
import Mathlib.Data.String.Basic

namespace Leetrank
set_option autoImplicit true

open Ranking

/-- A problem of the catalogue, with the slugs of its tags. -/
structure CatalogueProblem where
  id : String
  title : String
  slug : String
  difficulty : String
  acceptanceRate : Option Rat
  createdAt : Int
  tagSlugs : List String

/-- The two tables that the suggestions are drawn from. -/
structure RecommendationDb where
  problems : List CatalogueProblem
  submissions : List SubmissionRecord
  unique : (problems.map CatalogueProblem.id).Nodup
  references : ∀ s ∈ submissions, s.problemId ∈ problems.map CatalogueProblem.id

structure ProblemForScoring where
  id : String
  difficulty : Difficulty
  acceptanceRate : Option Rat
  tagSlugs : List String
  createdAt : Int

structure SolveSummary where
  problemId : String
  difficulty : Difficulty
  tagSlugs : List String
  solvedAt : Int

structure UserSolveHistory where
  solvedProblemIds : List String
  recentSolves : List SolveSummary
  recentlyShownIds : List String

def difficultyRank : Difficulty → Nat
  | .easy => 0
  | .medium => 1
  | .hard => 2

def normaliseDifficulty (input : Option String) : Difficulty :=
  match input.map fun text => text.map Char.toLower with
  | some "easy" => .easy
  | some "hard" => .hard
  | _ => .medium

def medianDifficulty (solves : List SolveSummary) : Difficulty :=
  let ranks := (solves.map fun s => difficultyRank s.difficulty).mergeSort
  let mid := ranks.length / 2
  if solves = [] then .easy
  else
    -- `Math.round` rounds a half up.
    match if ranks.length % 2 = 0 then (ranks.getD (mid - 1) 0 + ranks.getD mid 0 + 1) / 2
      else ranks.getD mid 0 with
    | 0 => .easy
    | 1 => .medium
    | _ => .hard

structure ScoreWeights where
  base : Int := 50
  sameDifficulty : Int := 15
  oneStepUp : Int := 20
  twoStepUp : Int := -25
  oneStepDown : Int := 5
  tagOverlapPer : Int := 7
  tagOverlapMax : Int := 21
  acceptanceSweetSpot : Int := 8
  acceptanceTooHard : Int := -6
  freshnessRecent : Int := 5
  recentlyShown : Int := -15

def freshnessWindowMs : Int := 30 * 24 * 60 * 60 * 1000

def recentTags (history : UserSolveHistory) : List String :=
  (history.recentSolves.take 10).flatMap SolveSummary.tagSlugs

def ScoreWeights.progression (weights : ScoreWeights) (problem : ProblemForScoring)
    (history : UserSolveHistory) : Int :=
  if history.recentSolves = [] then 0
  else
    let delta : Int := (difficultyRank problem.difficulty : Int) -
      difficultyRank (medianDifficulty history.recentSolves)
    if delta = 0 then weights.sameDifficulty
    else if delta = 1 then weights.oneStepUp
    else if delta = 2 then weights.twoStepUp
    else if delta = -1 then weights.oneStepDown
    else 0

def ScoreWeights.overlap (weights : ScoreWeights) (problem : ProblemForScoring)
    (history : UserSolveHistory) : Int :=
  let overlap := problem.tagSlugs.countP fun t => t ∈ recentTags history
  min weights.tagOverlapMax (overlap * weights.tagOverlapPer)

def ScoreWeights.acceptance (weights : ScoreWeights) (problem : ProblemForScoring) : Int :=
  match problem.acceptanceRate with
  | none => 0
  | some ar =>
    if 2 / 5 ≤ ar ∧ ar ≤ 7 / 10 then weights.acceptanceSweetSpot
    else if ar < 1 / 5 then weights.acceptanceTooHard
    else 0

def scoreProblem (problem : ProblemForScoring) (history : UserSolveHistory) (now : Int)
    (weights : ScoreWeights) : Int :=
  if problem.id ∈ history.solvedProblemIds then 0
  else
    let fresh := if now - problem.createdAt < freshnessWindowMs then weights.freshnessRecent else 0
    let shown := if problem.id ∈ history.recentlyShownIds then weights.recentlyShown else 0
    max 0 (min 100 (weights.base + weights.progression problem history +
      weights.overlap problem history + weights.acceptance problem + fresh + shown))

inductive RecommendationReason where
  | sameTopic
  | nextStepUp
  | freshness
  | trending
  | general

structure ScoredProblem where
  problem : ProblemForScoring
  score : Int

structure ScoredRecommendation where
  problem : ProblemForScoring
  score : Int
  reason : RecommendationReason
  reasonTag : Option String

/-- Whether the comparator of the ranking is at most 0. Ids are of digits and small letters, which
`localeCompare` puts into the order of their code points. -/
def rankedBefore (a b : ScoredProblem) : Bool :=
  if b.score ≠ a.score then b.score < a.score
  else
    let arA := a.problem.acceptanceRate.getD 0
    let arB := b.problem.acceptanceRate.getD 0
    if arB ≠ arA then arB < arA else a.problem.id ≤ b.problem.id

/-- The candidates that the ranking is about, with their scores. -/
def eligible (candidates : List ProblemForScoring) (history : UserSolveHistory) (now : Int) :
    List ScoredProblem :=
  ((candidates.filter fun p => p.id ∉ history.solvedProblemIds).map fun p =>
    ⟨p, scoreProblem p history now {}⟩).filter fun s => 0 < s.score

def reasonOf (history : UserSolveHistory) (now : Int) (problem : ProblemForScoring) :
    RecommendationReason × Option String :=
  match problem.tagSlugs.find? fun t => t ∈ recentTags history with
  | some overlap =>
    if overlap ≠ "" then (.sameTopic, some overlap) else (withoutOverlap, none)
  | none => (withoutOverlap, none)
where
  withoutOverlap : RecommendationReason :=
    if history.recentSolves ≠ [] ∧
        difficultyRank problem.difficulty =
          difficultyRank (medianDifficulty history.recentSolves) + 1
    then .nextStepUp
    else if now - problem.createdAt < freshnessWindowMs then .freshness
    else if history.recentSolves = [] then .trending
    else .general

def rankRecommendations (candidates : List ProblemForScoring) (history : UserSolveHistory)
    (limit : Nat) (now : Int) : List ScoredRecommendation :=
  (((eligible candidates history now).mergeSort rankedBefore).take limit).map fun s =>
    let (reason, reasonTag) := reasonOf history now s.problem
    ⟨s.problem, s.score, reason, reasonTag⟩

structure ApiRecommendation where
  id : String
  title : String
  slug : String
  difficulty : String
  reason : RecommendationReason
  reasonTag : Option String

def recommendationLimit : Nat := 5
def candidatePoolSize : Nat := 200
def recentSolvesWindow : Nat := 50

/-- The newest rows; of rows of the same time the database may put any one first. -/
def newest (createdAt : α → Int) (rows : List α) : List α :=
  rows.mergeSort fun a b => createdAt b ≤ createdAt a

def RecommendationDb.loadCandidates (db : RecommendationDb) : List ProblemForScoring :=
  ((newest CatalogueProblem.createdAt db.problems).take candidatePoolSize).map fun r =>
    ⟨r.id, normaliseDifficulty (some r.difficulty), r.acceptanceRate, r.tagSlugs, r.createdAt⟩

/-- The latest accepted submissions of a user, as many as the history takes. -/
def RecommendationDb.recentAccepted (db : RecommendationDb) (userId : String) :
    List SubmissionRecord :=
  (newest SubmissionRecord.createdAt (db.submissions.filter fun s =>
    s.userId = userId ∧ s.status = .accepted)).take recentSolvesWindow

def RecommendationDb.problem (db : RecommendationDb) (id : String) : Option CatalogueProblem :=
  db.problems.find? fun p => p.id = id

def RecommendationDb.loadUserHistory (db : RecommendationDb) (userId : String) :
    UserSolveHistory where
  solvedProblemIds := (db.recentAccepted userId).map SubmissionRecord.problemId
  recentSolves := (db.recentAccepted userId).map fun s =>
    ⟨s.problemId, normaliseDifficulty ((db.problem s.problemId).map CatalogueProblem.difficulty),
      ((db.problem s.problemId).map CatalogueProblem.tagSlugs).getD [], s.createdAt⟩
  recentlyShownIds := []

def RecommendationDb.attachMeta (db : RecommendationDb)
    (ranked : List (String × RecommendationReason × Option String)) : List ApiRecommendation :=
  ranked.filterMap fun (problemId, reason, reasonTag) =>
    (db.problem problemId).map fun m => ⟨m.id, m.title, m.slug, m.difficulty, reason, reasonTag⟩

/-- The ids of the problems with the most submissions, of whatever user and status. -/
def RecommendationDb.mostSubmitted (db : RecommendationDb) : List String :=
  let ids := db.submissions.map SubmissionRecord.problemId
  (ids.eraseDups.mergeSort fun a b => ids.count b ≤ ids.count a).take recommendationLimit

def RecommendationDb.buildAnon (db : RecommendationDb) : List ApiRecommendation :=
  if db.mostSubmitted = [] then
    ((newest CatalogueProblem.createdAt db.problems).take recommendationLimit).map fun p =>
      ⟨p.id, p.title, p.slug, p.difficulty, .trending, none⟩
  else db.attachMeta (db.mostSubmitted.map fun problemId => (problemId, .trending, none))

def RecommendationDb.buildAuthed (db : RecommendationDb) (userId : String) (now : Int) :
    List ApiRecommendation :=
  let ranked := rankRecommendations db.loadCandidates (db.loadUserHistory userId)
    recommendationLimit now
  if ranked = [] then db.buildAnon
  else db.attachMeta (ranked.map fun r => (r.problem.id, r.reason, r.reasonTag))

def RecommendationDb.Solved (db : RecommendationDb) (userId id : String) : Prop :=
  ∃ s ∈ db.submissions, (s.userId = userId ∧ s.status = .accepted) ∧ s.problemId = id

/-- Nothing is suggested that the user has solved. -/
def RecommendationDb.ExcludesSolved (db : RecommendationDb) (userId : String) (now : Int) : Prop :=
  ∀ r ∈ db.buildAuthed userId now, ¬db.Solved userId r.id

/-- The candidates that are not among the latest accepted submissions, with their scores. -/
def RecommendationDb.pool (db : RecommendationDb) (userId : String) (now : Int) :
    List ScoredProblem :=
  eligible db.loadCandidates (db.loadUserHistory userId) now

/-- There is nothing to suggest; or some candidate is not among the latest accepted submissions, and
of these candidates at least five come before each one that was solved earlier. -/
def RecommendationDb.Recommendable (db : RecommendationDb) (userId : String) (now : Int) : Prop :=
  db.problems = [] ∨
    (∃ p ∈ db.loadCandidates, p.id ∉ (db.recentAccepted userId).map SubmissionRecord.problemId) ∧
      ∀ x ∈ db.pool userId now, db.Solved userId x.problem.id →
        recommendationLimit ≤ before rankedBefore (db.pool userId now) x

variable {db : RecommendationDb} {userId id : String} {now : Int}

theorem progression_ge (problem : ProblemForScoring) (history : UserSolveHistory) :
    -25 ≤ ScoreWeights.progression {} problem history := by
  unfold ScoreWeights.progression
  dsimp only
  split_ifs <;> decide

theorem overlap_nonneg (problem : ProblemForScoring) (history : UserSolveHistory) :
    0 ≤ ScoreWeights.overlap {} problem history := by
  unfold ScoreWeights.overlap
  dsimp only
  omega

theorem acceptance_ge (problem : ProblemForScoring) :
    -6 ≤ ScoreWeights.acceptance {} problem := by
  unfold ScoreWeights.acceptance
  split
  next => decide
  next => split_ifs <;> decide

/-- Where nothing has been shown before, only a solved problem scores 0. -/
theorem scoreProblem_pos {history : UserSolveHistory} (h : p.id ∉ history.solvedProblemIds)
    (hshown : history.recentlyShownIds = []) : 0 < scoreProblem p history now {} := by
  have h1 := progression_ge p history
  have h2 := overlap_nonneg p history
  have h3 := acceptance_ge p
  rw [scoreProblem, if_neg h, hshown, if_neg List.not_mem_nil]
  dsimp only
  split_ifs <;> omega

theorem RecommendationDb.mem_pool : x ∈ db.pool userId now ↔
    ∃ p ∈ db.loadCandidates, p.id ∉ (db.recentAccepted userId).map SubmissionRecord.problemId ∧
      x = ⟨p, scoreProblem p (db.loadUserHistory userId) now {}⟩ := by
  rw [RecommendationDb.pool, eligible, List.mem_filter, List.mem_map]
  constructor
  · rintro ⟨⟨p, hp, rfl⟩, -⟩
    rw [List.mem_filter, decide_eq_true_eq] at hp
    exact ⟨p, hp.1, hp.2, rfl⟩
  · rintro ⟨p, hp, hnot, rfl⟩
    refine ⟨⟨p, List.mem_filter.2 ⟨hp, decide_eq_true hnot⟩, rfl⟩, ?_⟩
    exact decide_eq_true (scoreProblem_pos hnot rfl)

theorem mem_newest {createdAt : α → Int} : x ∈ newest createdAt rows ↔ x ∈ rows :=
  List.mem_mergeSort

theorem RecommendationDb.problem_isSome_iff :
    (∃ p, db.problem id = some p) ↔ id ∈ db.problems.map CatalogueProblem.id := by
  rw [← Option.isSome_iff_exists, RecommendationDb.problem, List.find?_isSome, List.mem_map]
  simp only [decide_eq_true_eq]

theorem RecommendationDb.problem_id (h : db.problem id = some p) : p.id = id := by
  have hid := List.find?_some h
  rwa [decide_eq_true_eq] at hid

/-- The suggestions are those of the ranked problems that the catalogue has. -/
theorem RecommendationDb.exists_attachMeta_iff :
    (∃ r ∈ db.attachMeta ranked, r.id = id) ↔
      id ∈ ranked.map (fun r => r.1) ∧ id ∈ db.problems.map CatalogueProblem.id := by
  rw [← RecommendationDb.problem_isSome_iff]
  constructor
  · rintro ⟨r, hr, rfl⟩
    obtain ⟨⟨problemId, reason⟩, hx, hr⟩ := List.mem_filterMap.1 hr
    obtain ⟨p, hp, rfl⟩ := Option.map_eq_some_iff.1 hr
    have hid := RecommendationDb.problem_id hp
    dsimp only
    rw [hid]
    exact ⟨List.mem_map_of_mem hx, p, hp⟩
  · rintro ⟨hid, p, hp⟩
    obtain ⟨⟨problemId, reason⟩, hx, rfl⟩ := List.mem_map.1 hid
    refine ⟨_, List.mem_filterMap.2 ⟨_, hx, Option.map_eq_some_iff.2 ⟨p, hp, rfl⟩⟩, ?_⟩
    exact RecommendationDb.problem_id hp

def rankKey (s : ScoredProblem) : Int ×ₗ Rat ×ₗ String :=
  toLex (-s.score, toLex (-s.problem.acceptanceRate.getD 0, s.problem.id))

theorem rankedBefore_iff (a b : ScoredProblem) : rankedBefore a b ↔ rankKey a ≤ rankKey b := by
  rw [rankKey, rankKey, Prod.Lex.toLex_le_toLex, Prod.Lex.toLex_le_toLex, rankedBefore]
  dsimp only
  rw [neg_lt_neg_iff, neg_inj, neg_lt_neg_iff, neg_inj]
  split_ifs with hscore har
  · simp [Ne.symm hscore]
  · simp [not_not.1 hscore, Ne.symm har]
  · simp [not_not.1 hscore, not_not.1 har]

theorem RecommendationDb.nodup_candidates (db : RecommendationDb) :
    (db.loadCandidates.map ProblemForScoring.id).Nodup := by
  have hnewest : ((newest CatalogueProblem.createdAt db.problems).map CatalogueProblem.id).Nodup :=
    ((List.mergeSort_perm _ _).map _).nodup_iff.2 db.unique
  rw [RecommendationDb.loadCandidates, List.map_map]
  exact hnewest.sublist ((List.take_sublist _ _).map _)

theorem RecommendationDb.pool_ranks (db : RecommendationDb) (userId : String) (now : Int) :
    Ranks rankedBefore (db.pool userId now) where
  total := by
    intro a b
    rw [Bool.or_eq_true, rankedBefore_iff, rankedBefore_iff]
    exact le_total _ _
  trans := by
    intro a b c hab hbc
    rw [rankedBefore_iff] at hab hbc ⊢
    exact hab.trans hbc
  distinct := by
    have hids : ((db.pool userId now).map fun s => s.problem.id).Nodup := by
      apply List.Nodup.sublist (List.filter_sublist.map _)
      rw [List.map_map]
      exact db.nodup_candidates.sublist (List.filter_sublist.map _)
    refine (List.pairwise_map.1 hids).imp ?_
    rintro a b hne ⟨hab, hba⟩
    rw [rankedBefore_iff] at hab hba
    have hkey : rankKey a = rankKey b := le_antisymm hab hba
    exact hne (congrArg (fun k => (ofLex (ofLex k).2).2) hkey)

theorem RecommendationDb.mem_pool_catalogue (h : x ∈ db.pool userId now) :
    x.problem.id ∈ db.problems.map CatalogueProblem.id := by
  obtain ⟨p, hp, -, rfl⟩ := RecommendationDb.mem_pool.1 h
  obtain ⟨r, hr, rfl⟩ := List.mem_map.1 hp
  exact List.mem_map_of_mem (mem_newest.1 (List.mem_of_mem_take hr))

/-- Where the ranking has candidates, its first five are suggested. -/
theorem RecommendationDb.excludes_ranked_iff (h : db.pool userId now ≠ []) :
    db.ExcludesSolved userId now ↔ ∀ x ∈ db.pool userId now, db.Solved userId x.problem.id →
      recommendationLimit ≤ before rankedBefore (db.pool userId now) x := by
  have hranks := db.pool_ranks userId now
  have hranked : rankRecommendations db.loadCandidates (db.loadUserHistory userId)
      recommendationLimit now ≠ [] := by
    intro hnil
    have hlen := congrArg List.length hnil
    rw [rankRecommendations, List.length_map, List.length_take, List.length_mergeSort] at hlen
    have hpos : 0 < (db.pool userId now).length := List.length_pos_iff.2 h
    exact absurd hlen (Nat.ne_of_gt (lt_min (by decide) hpos))
  have hids (id : String) : (∃ r ∈ db.buildAuthed userId now, r.id = id) ↔
      ∃ x ∈ ((db.pool userId now).mergeSort rankedBefore).take recommendationLimit,
        x.problem.id = id := by
    rw [RecommendationDb.buildAuthed, if_neg hranked, RecommendationDb.exists_attachMeta_iff,
      List.map_map, rankRecommendations, List.map_map, List.mem_map]
    constructor
    · rintro ⟨hx, -⟩
      exact hx
    · rintro ⟨x, hx, rfl⟩
      have hpool := ((hranks.mem_take_mergeSort_iff _ x).1 hx).1
      exact ⟨⟨x, hx, rfl⟩, RecommendationDb.mem_pool_catalogue hpool⟩
  constructor
  · intro hexcl x hx hsolved
    by_contra hlt
    have htop := (hranks.mem_take_mergeSort_iff _ x).2 ⟨hx, Nat.lt_of_not_le hlt⟩
    obtain ⟨r, hr, hid⟩ := (hids _).2 ⟨x, htop, rfl⟩
    exact hexcl r hr (hid ▸ hsolved)
  · intro hcond r hr hsolved
    obtain ⟨x, hx, hid⟩ := (hids r.id).1 ⟨r, hr, rfl⟩
    obtain ⟨hpool, hlt⟩ := (hranks.mem_take_mergeSort_iff _ x).1 hx
    exact Nat.not_le_of_lt hlt (hcond x hpool (hid ▸ hsolved))

theorem RecommendationDb.pool_eq_nil_iff : db.pool userId now = [] ↔
    ∀ p ∈ db.loadCandidates, p.id ∈ (db.recentAccepted userId).map SubmissionRecord.problemId := by
  rw [List.eq_nil_iff_forall_not_mem]
  constructor
  · intro h p hp
    by_contra hnot
    exact h _ (RecommendationDb.mem_pool.2 ⟨p, hp, hnot, rfl⟩)
  · intro h x hx
    obtain ⟨p, hp, hnot, -⟩ := RecommendationDb.mem_pool.1 hx
    exact hnot (h p hp)

/-- If all candidates are among the latest accepted submissions, so is the whole catalogue, which is
smaller than the pool of candidates. -/
theorem RecommendationDb.solved_of_pool_eq_nil (h : db.pool userId now = [])
    (hp : p ∈ db.problems) : db.Solved userId p.id := by
  rw [RecommendationDb.pool_eq_nil_iff] at h
  have hlen : db.loadCandidates.length ≤ recentSolvesWindow := by
    have hsub : db.loadCandidates.map ProblemForScoring.id ⊆
        (db.recentAccepted userId).map SubmissionRecord.problemId := by
      intro id hid
      obtain ⟨p, hp, rfl⟩ := List.mem_map.1 hid
      exact h p hp
    have hle := (List.subperm_of_subset db.nodup_candidates hsub).length_le
    rw [List.length_map, List.length_map] at hle
    exact hle.trans (List.length_take_le _ _)
  have hall : (newest CatalogueProblem.createdAt db.problems).take candidatePoolSize =
      newest CatalogueProblem.createdAt db.problems := by
    rw [RecommendationDb.loadCandidates, List.length_map, List.length_take] at hlen
    apply List.take_of_length_le
    by_contra hlt
    rw [min_eq_left (Nat.le_of_not_le hlt)] at hlen
    exact absurd hlen (by decide)
  have hcand : p.id ∈ (db.recentAccepted userId).map SubmissionRecord.problemId := by
    refine h ⟨p.id, normaliseDifficulty (some p.difficulty), p.acceptanceRate, p.tagSlugs,
      p.createdAt⟩ ?_
    rw [RecommendationDb.loadCandidates, hall]
    exact List.mem_map.2 ⟨p, mem_newest.2 hp, rfl⟩
  obtain ⟨s, hs, hid⟩ := List.mem_map.1 hcand
  obtain ⟨hs, hmine⟩ := List.mem_filter.1 (mem_newest.1 (List.mem_of_mem_take hs))
  exact ⟨s, hs, of_decide_eq_true hmine, hid⟩

theorem RecommendationDb.mostSubmitted_mem (h : id ∈ db.mostSubmitted) :
    id ∈ db.problems.map CatalogueProblem.id := by
  have hid := List.mem_mergeSort.1 (List.mem_of_mem_take h)
  rw [List.mem_eraseDups] at hid
  obtain ⟨s, hs, rfl⟩ := List.mem_map.1 hid
  exact db.references s hs

theorem RecommendationDb.mostSubmitted_ne_nil (h : s ∈ db.submissions) : db.mostSubmitted ≠ [] := by
  intro hnil
  have hlen := congrArg List.length hnil
  rw [RecommendationDb.mostSubmitted, List.length_take, List.length_mergeSort] at hlen
  have hmem : s.problemId ∈ (db.submissions.map SubmissionRecord.problemId).eraseDups := by
    rw [List.mem_eraseDups]
    exact List.mem_map_of_mem h
  exact absurd hlen (Nat.ne_of_gt (lt_min (by decide) (List.length_pos_of_mem hmem)))

/-- The fallback suggests problems that the user has solved, as there are no others. -/
theorem RecommendationDb.excludes_fallback_iff (h : db.pool userId now = []) :
    db.ExcludesSolved userId now ↔ db.problems = [] := by
  have hanon : db.buildAuthed userId now = db.buildAnon := by
    have hnil : rankRecommendations db.loadCandidates (db.loadUserHistory userId)
        recommendationLimit now = [] := by
      change (((db.pool userId now).mergeSort rankedBefore).take recommendationLimit).map _ = []
      rw [h, List.mergeSort_nil]
      rfl
    rw [RecommendationDb.buildAuthed, if_pos hnil]
  constructor
  · intro hexcl
    by_contra hne
    obtain ⟨p, hp⟩ := List.exists_mem_of_ne_nil _ hne
    obtain ⟨s, hs, -⟩ := RecommendationDb.solved_of_pool_eq_nil h hp
    have hmost := RecommendationDb.mostSubmitted_ne_nil hs
    obtain ⟨id, hid⟩ := List.exists_mem_of_ne_nil _ hmost
    have hcat := RecommendationDb.mostSubmitted_mem hid
    have hshown : ∃ r ∈ db.buildAuthed userId now, r.id = id := by
      rw [hanon, RecommendationDb.buildAnon, if_neg hmost,
        RecommendationDb.exists_attachMeta_iff, List.map_map]
      exact ⟨List.mem_map.2 ⟨id, hid, rfl⟩, hcat⟩
    obtain ⟨r, hr, rfl⟩ := hshown
    obtain ⟨q, hq, hqid⟩ := List.mem_map.1 hcat
    exact hexcl r hr (hqid ▸ RecommendationDb.solved_of_pool_eq_nil h hq)
  · rintro hnone r - ⟨s, hs, -⟩
    have hcat := db.references s hs
    rw [hnone] at hcat
    cases hcat

/-- The suggestions contain nothing that the user has solved exactly if the catalogue is empty, or
not all of it is among the 50 latest accepted submissions and of what is not, at least five problems
come before each one that was solved earlier. -/
theorem recommendations_exclude_solved_iff (db : RecommendationDb) (userId : String) (now : Int) :
    db.ExcludesSolved userId now ↔ db.Recommendable userId now := by
  by_cases hpool : db.pool userId now = []
  · rw [RecommendationDb.excludes_fallback_iff hpool, RecommendationDb.Recommendable]
    constructor
    · exact .inl
    · rintro (hnone | ⟨⟨p, hp, hnot⟩, -⟩)
      · exact hnone
      · exact absurd (RecommendationDb.pool_eq_nil_iff.1 hpool p hp) hnot
  · rw [RecommendationDb.excludes_ranked_iff hpool, RecommendationDb.Recommendable]
    have hsome : ∃ p ∈ db.loadCandidates,
        p.id ∉ (db.recentAccepted userId).map SubmissionRecord.problemId := by
      rw [RecommendationDb.pool_eq_nil_iff, not_forall] at hpool
      obtain ⟨p, hp⟩ := hpool
      exact ⟨p, Classical.not_imp.1 hp⟩
    constructor
    · intro h
      exact .inr ⟨hsome, h⟩
    · rintro (hnone | ⟨-, h⟩) x hx hsolved
      · have hcat := RecommendationDb.mem_pool_catalogue hx
        rw [hnone] at hcat
        cases hcat
      · exact h x hx hsolved

/-- A user who has solved the only problem. -/
def solvedCatalogue : RecommendationDb where
  problems := [⟨"p1", "Two Sum", "two-sum", "Easy", none, 0, ["array"]⟩]
  submissions := [⟨"s1", "ann", "p1", .accepted, "python", 5⟩]
  unique := by decide
  references := by decide

/-- The only problem is suggested to the user who has solved it. -/
theorem solved_problem_recommended :
    (∃ r ∈ solvedCatalogue.buildAuthed "ann" 10, r.id = "p1" ∧
      solvedCatalogue.Solved "ann" r.id) ∧ ¬solvedCatalogue.ExcludesSolved "ann" 10 := by
  have hnil : solvedCatalogue.pool "ann" 10 = [] := by
    rw [RecommendationDb.pool_eq_nil_iff]
    simp [RecommendationDb.loadCandidates, RecommendationDb.recentAccepted, newest, solvedCatalogue,
      candidatePoolSize, recentSolvesWindow]
  have hnot : ¬solvedCatalogue.ExcludesSolved "ann" 10 := by
    rw [RecommendationDb.excludes_fallback_iff hnil]
    exact List.cons_ne_nil _ _
  refine ⟨?_, hnot⟩
  simp only [RecommendationDb.ExcludesSolved, not_forall, not_not] at hnot
  obtain ⟨r, hr, s, hs, hmine, hid⟩ := hnot
  rw [List.mem_singleton.1 hs] at hid
  exact ⟨r, hr, hid.symm, s, hs, hmine, List.mem_singleton.1 hs ▸ hid⟩

end Leetrank
