import Leetrank.Achievements.Criteria
import Leetrank.Achievements.DailyChallenge
import Leetrank.Contest.FinalizeRating
import Leetrank.Web.JudgingCluster

namespace Leetrank
set_option autoImplicit true

open EventMachine

structure HostedProblem where
  difficulty : String
  testCases : List TestCase

/-- The tables that posting and judging submissions only read; users come with their rating. -/
structure Platform where
  problem : String → Option HostedProblem
  users : List (String × Int)
  entries : List ContestEntry
  discussions : List String
  challenge : Int → Option DailyChallenge
  catalog : AchievementCatalog

/-- The columns of a submission that say whose and what it is. -/
structure Posting where
  id : SubmissionId
  userId : String
  problemId : String

structure Site where
  db : Db
  postings : List Posting
  daily : DailyTables
  badges : UserAchievements

def Difficulty.text : Difficulty → String
  | .easy => "easy"
  | .medium => "medium"
  | .hard => "hard"

/-- The accepted submissions of a user, each with its problem. -/
def Site.acceptedRows (s : Site) (user : String) : List (String × Submission) :=
  s.postings.filterMap fun p => (s.db p.id).bind fun row =>
    if p.userId = user ∧ row.status = .accepted then some (p.problemId, row) else none

def Platform.gatherStats (pf : Platform) (s : Site) (user : String) : Option UserStats :=
  (pf.users.lookup user).map fun rating =>
    let accepted := s.acceptedRows user
    let solved := (accepted.map Prod.fst).eraseDups
    let streak := s.daily.streaks user
    let entries := pf.entries.filter (·.userId = user)
    { totalAccepted := accepted.length
      uniqueSolved := solved.length
      -- only letters of ASCII have one of those in the three words for a lower case
      byDifficulty := fun d => solved.countP fun id =>
        (pf.problem id).any fun p => p.difficulty.map Char.toLower = d.text
      uniqueLanguages := (accepted.map (·.2.language)).eraseDups.length
      fastestRuntime := (accepted.filterMap (·.2.runtime)).min?
      currentStreak := (streak.map StreakState.currentStreak).getD 0
      longestStreak := (streak.map StreakState.longestStreak).getD 0
      rating := rating
      contestEntries := entries.length
      bestRank := (entries.filterMap ContestEntry.rank).min?.map Int.ofNat
      leaderboardRank := some (pf.users.countP (rating < ·.2) + 1)
      discussionPosts := pf.discussions.count user }

def Platform.evaluateAchievements (pf : Platform) (s : Site) (user : String) (now : Nat) : Site :=
  match pf.gatherStats s user with
  | none => s
  | some stats =>
    { s with
      badges := (awardLoop stats (s.badges.earnedIds user) user now s.badges
        pf.catalog.achievements).1 }

/-- A submission, with the answer its call of the judge gets and the time it is made at. -/
structure PostedCode where
  id : SubmissionId
  userId : String
  problemId : String
  language : String
  code : String
  outcome : FetchOutcome
  now : Nat
  now_pos : 0 < now

def PostedCode.queuedRow (r : PostedCode) (p : HostedProblem) : Submission where
  status := .queued
  code := r.code
  language := r.language
  testCases := p.testCases
  runtime := none
  error := none
  output := none
  createdAt := r.now

/-- The row of a submission that was judged before it was created. -/
def PostedCode.judgedRow (r : PostedCode) (p : HostedProblem) (update : TerminalUpdate) :
    Submission :=
  update.applyTo (r.queuedRow p)

def Site.create (s : Site) (r : PostedCode) (row : Submission) : Site :=
  { s with
    db := Function.update s.db r.id (some row)
    postings := s.postings ++ [⟨r.id, r.userId, r.problemId⟩] }

/-- What the synchronous branch does once a submission was accepted; no hook fails. -/
def Platform.onAccept (pf : Platform) (s : Site) (r : PostedCode) : Site :=
  pf.evaluateAchievements
    { s with daily := recordDailySolveIfApplicable pf.challenge s.daily r.userId r.problemId r.now }
    r.userId r.now

/-- `POST` with the synchronous branch; the id of a new row is a fresh one. -/
def postSync (pf : Platform) (s : Site) (r : PostedCode) : Option Site :=
  match pf.problem r.problemId with
  | none => some s
  | some p =>
    match syncOutcome (executeCode r.outcome) with
    | .error _ => some s
    | .ok update =>
      if s.db r.id = none then
        let created := s.create r (r.judgedRow p update)
        some (if update.status = .accepted then pf.onAccept created r else created)
      else none

/-- The site with the runs of the judge handler that its queue has started. -/
structure AsyncSite where
  site : Site
  runs : RunId → Option HandlerRun

inductive AsyncEvent where
  | post (r : PostedCode)
  | start (k : RunId) (id : SubmissionId)
  | reply (k : RunId) (r : Reply)
  | sweepStuck (cutoff : Int)

def AsyncSite.judge (w : AsyncSite) (e : ClusterEvent) : Option AsyncSite :=
  (clusterStep ⟨w.site.db, w.runs⟩ e).map fun c => ⟨{ w.site with db := c.db }, c.runs⟩

/-- `POST` with the asynchronous branch, and the steps of the workers. -/
def asyncStep (pf : Platform) (w : AsyncSite) : AsyncEvent → Option AsyncSite
  | .post r =>
    match pf.problem r.problemId with
    | none => some w
    | some p =>
      if w.site.db r.id = none then some { w with site := w.site.create r (r.queuedRow p) }
      else none
  | .start k id => w.judge (.start k id)
  | .reply k r => w.judge (.reply k r)
  | .sweepStuck cutoff => w.judge (.sweepStuck cutoff)

def syncMachine (pf : Platform) : Machine Site PostedCode where
  init := fun _ => True
  step := postSync pf

def asyncMachine (pf : Platform) : Machine AsyncSite AsyncEvent where
  init := fun w => ∀ k, w.runs k = none
  step := asyncStep pf

def AsyncEvent.posted : AsyncEvent → Option PostedCode
  | .post r => some r
  | _ => none

/-- The asynchronous branch has taken the submissions and all their judging has finished. -/
structure JudgedAsync (pf : Platform) (s : Site) (rs : List PostedCode) (w : AsyncSite) :
    Prop where
  run : ∃ es, (asyncMachine pf).run ⟨s, fun _ => none⟩ es = some w ∧
    es.filterMap AsyncEvent.posted = rs
  finished : ∀ r ∈ rs, ∀ status, w.site.db.status r.id = some status → status.Terminal

end Leetrank
