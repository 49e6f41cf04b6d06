import Mathlib.Data.List.Nodup
import Mathlib.Logic.Function.Basic

namespace Leetrank
set_option autoImplicit true

inductive Difficulty where
  | easy
  | medium
  | hard
  deriving DecidableEq

inductive AchievementCriteria where
  | firstSolution
  | problemsSolved (threshold : Int)
  | difficultyMaster (difficulty : Difficulty) (threshold : Int)
  | polyglot (threshold : Int)
  | speedDemon (maxRuntimeMs : Int)
  | currentStreak (threshold : Int)
  | longestStreak (threshold : Int)
  | ratingThreshold (threshold : Int)
  | contestParticipated (threshold : Int)
  | contestTopRank (threshold : Int)
  | leaderboardTopN (threshold : Int)
  | discussionPosted (threshold : Int)

structure UserStats where
  totalAccepted : Nat
  uniqueSolved : Nat
  byDifficulty : Difficulty → Nat
  uniqueLanguages : Nat
  fastestRuntime : Option Int
  currentStreak : Int
  longestStreak : Int
  rating : Int
  contestEntries : Nat
  bestRank : Option Int
  leaderboardRank : Option Int
  discussionPosts : Nat

structure CriteriaResult where
  earned : Bool
  progress : Int
  deriving DecidableEq

/-- The criteria that ask for a count of at least a threshold. -/
def reaches (count threshold : Int) : CriteriaResult := ⟨threshold ≤ count, min count threshold⟩

/-- The criteria that ask for a value, if there is one, of at most a limit. -/
def within (value : Option Int) (limit : Int) : CriteriaResult :=
  ⟨value.any (· ≤ limit), value.getD 0⟩

def evaluateCriteria (criteria : AchievementCriteria) (stats : UserStats) : CriteriaResult :=
  match criteria with
  | .firstSolution => ⟨1 ≤ stats.totalAccepted, stats.totalAccepted⟩
  | .problemsSolved threshold => reaches stats.uniqueSolved threshold
  | .difficultyMaster difficulty threshold => reaches (stats.byDifficulty difficulty) threshold
  | .polyglot threshold => reaches stats.uniqueLanguages threshold
  | .speedDemon maxRuntimeMs => within stats.fastestRuntime maxRuntimeMs
  | .currentStreak threshold => reaches stats.currentStreak threshold
  | .longestStreak threshold => reaches stats.longestStreak threshold
  | .ratingThreshold threshold => reaches stats.rating threshold
  | .contestParticipated threshold => reaches stats.contestEntries threshold
  | .contestTopRank threshold => within stats.bestRank threshold
  | .leaderboardTopN threshold => within stats.leaderboardRank threshold
  | .discussionPosted threshold => reaches stats.discussionPosts threshold

structure AwardedAchievement where
  slug : String
  title : String
  icon : String
  points : Int
  deriving DecidableEq

/-- A row of the `Achievement` table. -/
structure Achievement where
  id : String
  slug : String
  title : String
  icon : String
  points : Int
  criteria : AchievementCriteria

def Achievement.award (a : Achievement) : AwardedAchievement := ⟨a.slug, a.title, a.icon, a.points⟩

def Achievement.MetBy (a : Achievement) (stats : UserStats) : Prop :=
  (evaluateCriteria a.criteria stats).earned = true

instance (a : Achievement) (stats : UserStats) : Decidable (a.MetBy stats) :=
  inferInstanceAs (Decidable (_ = true))

/-- The table of achievements, whose ids and slugs are unique. -/
structure AchievementCatalog where
  achievements : List Achievement
  ids : (achievements.map Achievement.id).Nodup
  slugs : (achievements.map Achievement.slug).Nodup

theorem AchievementCatalog.eq_of_id {cat : AchievementCatalog} (ha : a ∈ cat.achievements)
    (hb : b ∈ cat.achievements) (h : a.id = b.id) : a = b :=
  List.inj_on_of_nodup_map cat.ids ha hb h

theorem AchievementCatalog.eq_of_award {cat : AchievementCatalog} (ha : a ∈ cat.achievements)
    (hb : b ∈ cat.achievements) (h : a.award = b.award) : a = b :=
  List.inj_on_of_nodup_map cat.slugs ha hb (congrArg AwardedAchievement.slug h)

/-- A row of the `UserAchievement` table; its time is in milliseconds. -/
structure UserAchievement where
  earnedAt : Nat
  progress : Int
  deriving DecidableEq

/-- `new Date(0)`, the `earnedAt` of a row that only tracks progress. -/
def epoch : Nat := 0

abbrev UserAchievements := String → String → Option UserAchievement

/-- `upsert` on the key of a row; where the row exists, its progress alone is written. -/
def UserAchievements.upsert (rows : UserAchievements) (user id : String) (progress : Int)
    (earnedAt : Nat) : UserAchievements :=
  let row : UserAchievement := match rows user id with
    | none => ⟨earnedAt, progress⟩
    | some row => { row with progress := progress }
  Function.update rows user (Function.update (rows user) id (some row))

/-- The ids of the rows of a user, whatever their `earnedAt`. -/
def UserAchievements.earnedIds (rows : UserAchievements) (user : String) : String → Bool :=
  fun id => (rows user id).isSome

/-- The row of the achievement exists and tells a real time. -/
def UserAchievements.Earned (rows : UserAchievements) (user id : String) : Prop :=
  ∃ row, rows user id = some row ∧ row.earnedAt ≠ epoch

/-- What an iteration of the loop writes for one achievement. -/
inductive Visit where
  | award (progress : Int)
  | track (progress : Int)
  | keep

def visit (stats : UserStats) (earnedIds : String → Bool) (a : Achievement) : Visit :=
  let result := evaluateCriteria a.criteria stats
  if result.earned && !earnedIds a.id then .award result.progress
  else if !result.earned then .track result.progress
  else .keep

/-- The loop of `evaluateAchievements` where no upsert fails. -/
def awardLoop (stats : UserStats) (earnedIds : String → Bool) (user : String) (now : Nat)
    (rows : UserAchievements) : List Achievement → UserAchievements × List AwardedAchievement
  | [] => (rows, [])
  | a :: rest =>
    match visit stats earnedIds a with
    | .award progress =>
      let (rows', newlyAwarded) :=
        awardLoop stats earnedIds user now (rows.upsert user a.id progress now) rest
      (rows', a.award :: newlyAwarded)
    | .track progress =>
      awardLoop stats earnedIds user now (rows.upsert user a.id progress epoch) rest
    | .keep => awardLoop stats earnedIds user now rows rest

variable {rows : UserAchievements} {user id user' id' : String}

theorem UserAchievements.upsert_self (h : rows user id = none) :
    rows.upsert user id progress earnedAt user id = some ⟨earnedAt, progress⟩ := by
  simp only [UserAchievements.upsert, h, Function.update_self]

theorem UserAchievements.upsert_of_ne (h : user' ≠ user ∨ id' ≠ id) :
    rows.upsert user id progress earnedAt user' id' = rows user' id' := by
  by_cases hu : user' = user
  · subst hu
    have hid : id' ≠ id := h.resolve_left fun hne => hne rfl
    simp only [UserAchievements.upsert, Function.update_self, Function.update_of_ne hid]
  · simp only [UserAchievements.upsert, Function.update_of_ne hu]

theorem UserAchievements.earned_of_ne (h : user' ≠ user ∨ id' ≠ id) :
    (rows.upsert user id progress earnedAt).Earned user' id' ↔ rows.Earned user' id' := by
  rw [UserAchievements.Earned, UserAchievements.upsert_of_ne h, UserAchievements.Earned]

/-- Tracking progress neither earns an achievement nor takes it back. -/
theorem UserAchievements.earned_track (rows : UserAchievements) (user id : String) :
    (rows.upsert user id progress epoch).Earned user' id' ↔ rows.Earned user' id' := by
  by_cases h : user' ≠ user ∨ id' ≠ id
  · exact UserAchievements.earned_of_ne h
  · rw [not_or, not_not, not_not] at h
    obtain ⟨rfl, rfl⟩ := h
    simp only [UserAchievements.Earned, UserAchievements.upsert, Function.update_self]
    cases hrow : rows user' id' with
    | none => simp
    | some row => simp

theorem UserAchievements.earned_upsert (h : rows user id = none) (hn : 0 < earnedAt) :
    (rows.upsert user id progress earnedAt).Earned user id :=
  ⟨_, UserAchievements.upsert_self h, Nat.pos_iff_ne_zero.1 hn⟩

theorem visit_award (h : visit stats earnedIds a = .award progress) :
    a.MetBy stats ∧ earnedIds a.id = false := by
  simp only [visit] at h
  split at h
  next hc =>
    rw [Bool.and_eq_true, Bool.not_eq_true'] at hc
    exact hc
  next => split at h <;> cases h

theorem visit_other (h : ∀ progress, visit stats earnedIds a ≠ .award progress) :
    a.MetBy stats → earnedIds a.id = true := by
  intro hm
  by_contra hid
  rw [Bool.not_eq_true] at hid
  refine h (evaluateCriteria a.criteria stats).progress ?_
  have he : (evaluateCriteria a.criteria stats).earned = true := hm
  simp only [visit, he, hid, Bool.not_false, Bool.and_self, if_true]

/-- The loop earns the achievements that are met and had no row when the rows were read. -/
theorem awardLoop_earned (hn : 0 < now) (hids : (rest.map Achievement.id).Nodup)
    (hrows : ∀ a ∈ rest, earnedIds a.id = false → rows user a.id = none) :
    (awardLoop stats earnedIds user now rows rest).1.Earned user' id' ↔
      rows.Earned user' id' ∨ user' = user ∧
        ∃ a ∈ rest, a.id = id' ∧ a.MetBy stats ∧ earnedIds a.id = false := by
  induction rest generalizing rows with
  | nil => simp [awardLoop]
  | cons a rest ih =>
    rw [List.map_cons, List.nodup_cons] at hids
    obtain ⟨hnew, hids⟩ := hids
    have hne (b : Achievement) (hb : b ∈ rest) : b.id ≠ a.id :=
      fun he => hnew (he ▸ List.mem_map_of_mem hb)
    have hlater (progress : Int) (earnedAt : Nat) (b : Achievement) (hb : b ∈ rest)
        (hid : earnedIds b.id = false) :
        rows.upsert user a.id progress earnedAt user b.id = none :=
      (UserAchievements.upsert_of_ne (.inr (hne b hb))).trans
        (hrows b (List.mem_cons_of_mem a hb) hid)
    have hskip (h : ∀ progress, visit stats earnedIds a ≠ .award progress) :
        ¬(a.id = id' ∧ a.MetBy stats ∧ earnedIds a.id = false) := by
      rintro ⟨-, hm, hid⟩
      rw [visit_other h hm] at hid
      cases hid
    rw [awardLoop, List.exists_mem_cons_iff]
    split
    next progress hv =>
      obtain ⟨hm, hid⟩ := visit_award hv
      rw [ih hids (hlater progress now)]
      by_cases hu : user' = user ∧ id' = a.id
      · obtain ⟨rfl, rfl⟩ := hu
        have hrow := hrows a List.mem_cons_self hid
        exact ⟨fun _ => .inr ⟨rfl, .inl ⟨rfl, hm, hid⟩⟩,
          fun _ => .inl (UserAchievements.earned_upsert hrow hn)⟩
      · have hu' : user' ≠ user ∨ id' ≠ a.id := Decidable.not_and_iff_or_not.1 hu
        rw [UserAchievements.earned_of_ne hu']
        refine or_congr_right (and_congr_right fun huser => ?_)
        rw [or_iff_right fun h => hu ⟨huser, h.1.symm⟩]
    next progress hv =>
      rw [ih hids (hlater progress epoch), UserAchievements.earned_track,
        or_iff_right (hskip (by rw [hv]; nofun))]
    next hv =>
      rw [ih hids fun b hb => hrows b (List.mem_cons_of_mem a hb),
        or_iff_right (hskip (by rw [hv]; nofun))]

end Leetrank
