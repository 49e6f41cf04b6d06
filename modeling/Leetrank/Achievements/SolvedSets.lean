import Leetrank.Achievements.JudgingModes
import Mathlib.Algebra.Ring.Nat

namespace Leetrank
set_option autoImplicit true

open EventMachine

/-- A row of the `Submission` table as the readers of solved problems see it. -/
structure SubmissionRecord where
  id : SubmissionId
  userId : String
  problemId : String
  status : SubmissionStatus
  language : String
  createdAt : Int

def Site.records (s : Site) : List SubmissionRecord :=
  s.postings.filterMap fun p => (s.db p.id).map fun row =>
    ⟨p.id, p.userId, p.problemId, row.status, row.language, row.createdAt⟩

/-- The columns of the tables that the queries join: user names and problem slugs, by id. -/
structure Directory where
  username : String → Option String
  slug : String → Option String

/-- The queries that count solved submissions, with their own filters. -/
inductive SolvedQuery where
  | studyPlan (userId : String) (problemIds : List String)
  | heatmap (username : String) (cutoff : Int)
  | problemStats (slug : String)

def SolvedQuery.within (dir : Directory) : SolvedQuery → SubmissionRecord → Bool
  | .studyPlan userId problemIds, r => r.userId = userId ∧ r.problemId ∈ problemIds
  | .heatmap username cutoff, r => dir.username r.userId = some username ∧ cutoff ≤ r.createdAt
  | .problemStats slug, r => dir.slug r.problemId = some slug

/-- What each query compares the status column with. -/
def SolvedQuery.literal : SolvedQuery → String
  | .studyPlan _ _ => "Accepted"
  | .heatmap _ _ | .problemStats _ => "ACCEPTED"

/-- The rows that the query counts. -/
def SolvedQuery.counted (dir : Directory) (q : SolvedQuery) (s : Site) : List SubmissionRecord :=
  s.records.filter fun r => q.within dir r && r.status.text == q.literal

/-- The rows within the filters of the query that a writer has marked as accepted. -/
def SolvedQuery.marked (dir : Directory) (q : SolvedQuery) (s : Site) : List SubmissionRecord :=
  s.records.filter fun r => q.within dir r && r.status == .accepted

/-- What the detail of a study plan says of its problems to a caller who may be signed in. -/
def solvedProblemIds (dir : Directory) (s : Site) (session : Option String)
    (problemIds : List String) : List String :=
  match session with
  | none => []
  | some userId => (((SolvedQuery.studyPlan userId problemIds).counted dir s).map
      SubmissionRecord.problemId).eraseDups

/-- The answer of the database to the fallback for snake_case schemas. -/
def undefinedTable : String := "relation \"submissions\" does not exist"

def dayMs : Int := 86400000

structure Heatmap where
  username : String
  days : Nat
  start : Int
  stop : Int
  totalAccepted : Nat
  currentStreak : Nat
  longestStreak : Nat
  cells : List Nat

def currentStreakOf (cells : List Nat) : Nat := (cells.reverse.takeWhile (0 < ·)).length

def longestStreakOf (cells : List Nat) : Nat :=
  (cells.foldl (fun (longest, cur) v =>
    if 0 < v then (max longest (cur + 1), cur + 1) else (longest, 0)) (0, 0)).1

/-- Times are in milliseconds, and `today` is the number of the day that is the last cell. -/
def heatmapForUser (dir : Directory) (s : Site) (username : String) (days : Nat)
    (utcnow today : Int) : Except String Heatmap :=
  let rows := (SolvedQuery.heatmap username (utcnow - days * dayMs)).counted dir s
  if rows.isEmpty then .error undefinedTable
  else
    let start := today - (days - 1)
    let cells := (List.range days).map fun i => rows.countP fun r => r.createdAt / dayMs = start + i
    .ok { username := username, days := days, start := start, stop := today,
          totalAccepted := cells.sum, currentStreak := currentStreakOf cells,
          longestStreak := longestStreakOf cells, cells := cells }

structure LanguageStats where
  language : String
  accepted : Nat
  total : Nat
  acceptanceRate : Rat

structure ProblemStats where
  slug : String
  totalSubmissions : Nat
  totalAccepted : Nat
  acceptanceRate : Rat
  languages : List LanguageStats

/-- The group of a language; a rate of no submissions is zero. -/
def languageStats (q : SolvedQuery) (rows : List SubmissionRecord) (language : String) :
    LanguageStats :=
  let group := rows.filter fun r => r.language = language
  let accepted := group.countP fun r => r.status.text == q.literal
  ⟨language, accepted, group.length, accepted / group.length⟩

def problemStats (dir : Directory) (s : Site) (slug : String) : Except String ProblemStats :=
  let q := SolvedQuery.problemStats slug
  let rows := s.records.filter (q.within dir)
  if rows.isEmpty then .error undefinedTable
  else
    let languages := ((rows.map SubmissionRecord.language).eraseDups.map
      (languageStats q rows)).mergeSort fun a b => b.total ≤ a.total
    let total := (languages.map LanguageStats.total).sum
    let accepted := (languages.map LanguageStats.accepted).sum
    .ok ⟨slug, total, accepted, accepted / total, languages⟩

variable {s : Site} {dir : Directory}

/-- No writer spells a status the way the readers do. -/
theorem SubmissionStatus.text_ne_literal (status : SubmissionStatus) (q : SolvedQuery) :
    status.text ≠ q.literal := by
  have hplan : status.text ≠ "Accepted" := by cases status <;> decide
  have hanalytics : status.text ≠ "ACCEPTED" := by cases status <;> decide
  cases q with
  | studyPlan => exact hplan
  | heatmap | problemStats => exact hanalytics

theorem SolvedQuery.counted_eq_nil (dir : Directory) (q : SolvedQuery) (s : Site) :
    q.counted dir s = [] := by
  rw [SolvedQuery.counted, List.filter_eq_nil_iff]
  intro r _ h
  rw [Bool.and_eq_true, beq_iff_eq] at h
  exact r.status.text_ne_literal q h.2

theorem solvedProblemIds_eq_nil (dir : Directory) (s : Site) (session : Option String)
    (problemIds : List String) : solvedProblemIds dir s session problemIds = [] := by
  cases session with
  | none => rfl
  | some userId =>
    rw [solvedProblemIds, SolvedQuery.counted_eq_nil]
    rfl

theorem heatmapForUser_raises (dir : Directory) (s : Site) (username : String) (days : Nat)
    (utcnow today : Int) :
    heatmapForUser dir s username days utcnow today = .error undefinedTable := by
  rw [heatmapForUser, SolvedQuery.counted_eq_nil]
  rfl

theorem problemStats_totalAccepted (h : problemStats dir s slug = .ok stats) :
    stats.totalAccepted = 0 := by
  simp only [problemStats] at h
  split at h
  next => cases h
  next =>
    cases h
    refine List.sum_eq_zero_iff_forall_eq_nat.2 fun n hn => ?_
    obtain ⟨l, hl, rfl⟩ := List.mem_map.1 hn
    rw [List.mem_mergeSort] at hl
    obtain ⟨language, -, rfl⟩ := List.mem_map.1 hl
    refine List.countP_eq_zero.2 fun r _ h => ?_
    exact r.status.text_ne_literal _ (beq_iff_eq.1 h)

/-- A query counts the accepted rows within its filters exactly if there is none. -/
theorem solved_sets_agree_iff (dir : Directory) (q : SolvedQuery) (s : Site) :
    q.counted dir s = q.marked dir s ↔
      ∀ r ∈ s.records, q.within dir r = true → r.status ≠ .accepted := by
  rw [SolvedQuery.counted_eq_nil, eq_comm, SolvedQuery.marked, List.filter_eq_nil_iff]
  simp only [Bool.and_eq_true, beq_iff_eq, not_and, ne_eq]

/-- The table with both writers: the synchronous route, and the route and the workers that judge
later. -/
inductive WriterEvent where
  | sync (r : PostedCode)
  | async (e : AsyncEvent)

def writerStep (pf : Platform) (w : AsyncSite) : WriterEvent → Option AsyncSite
  | .sync r => (postSync pf w.site r).map fun site => { w with site := site }
  | .async e => asyncStep pf w e

def writerMachine (pf : Platform) : Machine AsyncSite WriterEvent where
  init := fun w => (∀ k, w.runs k = none) ∧ w.site.postings = [] ∧ ∀ id, w.site.db id = none
  step := writerStep pf

/-- One problem and one user, both under their ids. -/
def directory : Directory := ⟨some, some⟩

/-- The synchronous route accepts a submission, and then a worker accepts the same code again. -/
def acceptTwice : List WriterEvent :=
  .sync (passing "p") :: (judgedRun { passing "p" with id := "s2" }).map .async

def acceptedRecord (id : SubmissionId) : SubmissionRecord :=
  ⟨id, "u", "p", .accepted, "python", 86400000⟩

/-- No reader counts the two accepted submissions of the user. -/
theorem accepted_uncounted :
    ∃ w, (writerMachine dailyPlatform).run ⟨freshSite none, fun _ => none⟩ acceptTwice =
        some w ∧
      ∀ q ∈ [SolvedQuery.studyPlan "u" ["p"], .heatmap "u" 0, .problemStats "p"],
        q.counted directory w.site = [] ∧
          q.marked directory w.site = [acceptedRecord "s1", acceptedRecord "s2"] ∧
          q.counted directory w.site ≠ q.marked directory w.site := by
  have hrun : ∃ w, (writerMachine dailyPlatform).run ⟨freshSite none, fun _ => none⟩
      acceptTwice = some w ∧ w.site.records = [acceptedRecord "s1", acceptedRecord "s2"] :=
    ⟨_, rfl, rfl⟩
  obtain ⟨w, hr, hrecords⟩ := hrun
  refine ⟨w, hr, fun q hq => ?_⟩
  have hmarked : q.marked directory w.site = [acceptedRecord "s1", acceptedRecord "s2"] := by
    rw [SolvedQuery.marked, hrecords]
    simp only [List.mem_cons, List.not_mem_nil, or_false] at hq
    rcases hq with rfl | rfl | rfl <;> rfl
  refine ⟨SolvedQuery.counted_eq_nil .., hmarked, ?_⟩
  rw [SolvedQuery.counted_eq_nil, hmarked]
  nofun

end Leetrank
