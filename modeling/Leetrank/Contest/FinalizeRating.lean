import Leetrank.Contest.Rating
import Leetrank.Library.Threads
import Mathlib.Data.List.Sort

namespace Leetrank
set_option autoImplicit true

open EventMachine Threads

structure Contest where
  id : String
  status : String
  endTime : Int

structure ContestEntry where
  contestId : String
  userId : String
  score : Int
  rank : Option Nat
  joinedAt : Int

/-- The rows of `ContestEntry`: a user has one entry in a contest. -/
structure EntryTable where
  rows : List ContestEntry
  unique : (rows.map fun e => (e.contestId, e.userId)).Nodup

/-- What a finalisation reads and writes of a row of `User`. -/
structure RatedUser where
  rating : Int
  maxRating : Int
  ratingDeviation : Int
  ratingVolatility : Float

structure RatingChange where
  userId : String
  contestId : String
  beforeRating : Int
  afterRating : Int
  delta : Int
  rank : Nat

/-- The tables, with the contests by slug and the rating changes in the order of their commits. -/
structure RatingDb where
  contests : String → Option Contest
  entries : EntryTable
  users : String → RatedUser
  ratingChanges : List RatingChange
  now : Int

/-- The order of the standings: by score, the highest first, then by the time of joining. -/
def ContestEntry.Before (a b : ContestEntry) : Prop :=
  b.score < a.score ∨ b.score = a.score ∧ a.joinedAt ≤ b.joinedAt

instance (a b : ContestEntry) : Decidable (a.Before b) :=
  inferInstanceAs (Decidable (_ ∨ _ ∧ _))

/-- The entries of a contest in order, each with its user. -/
def RatingDb.standings (db : RatingDb) (contestId : String) : List (ContestEntry × RatedUser) :=
  ((db.entries.rows.filter fun e => e.contestId == contestId).insertionSort ContestEntry.Before).map
    fun e => (e, db.users e.userId)

def participantOf (e : ContestEntry) (user : RatedUser) (rank : Nat) : ContestParticipant :=
  ⟨⟨e.userId, user.rating, user.ratingDeviation, user.ratingVolatility⟩, rank⟩

/-- The standard competition ranking: equal scores share a rank. -/
def rankFrom (idx : Nat) (prevScore : Option Int) (prevRank : Nat) :
    List (ContestEntry × RatedUser) → List ContestParticipant
  | [] => []
  | (e, user) :: rest =>
    let rank := if some e.score = prevScore then prevRank else idx + 1
    participantOf e user rank :: rankFrom (idx + 1) (some e.score) rank rest

def ratingChangesOf (updateOne : RatingEngine) (entries : List (ContestEntry × RatedUser)) :
    List RatingChangeResult :=
  calculateRatingChanges updateOne (rankFrom 0 none 0 entries)

def updateUser (users : String → RatedUser) (c : RatingChangeResult) (before : RatedUser) :
    String → RatedUser :=
  Function.update users c.userId
    ⟨c.afterRating, max before.maxRating c.afterRating, c.afterRd, c.afterVolatility⟩

theorem updateUser_self (users : String → RatedUser) (c : RatingChangeResult) (before : RatedUser) :
    updateUser users c before c.userId =
      ⟨c.afterRating, max before.maxRating c.afterRating, c.afterRd, c.afterVolatility⟩ :=
  Function.update_self ..

theorem updateUser_of_ne {users : String → RatedUser} {c : RatingChangeResult}
    (h : userId ≠ c.userId) (before : RatedUser) :
    updateUser users c before userId = users userId :=
  Function.update_of_ne h _ _

/-- The updates of the users, each with the entry that was read at the same place. -/
def updateUsers (users : String → RatedUser) :
    List RatingChangeResult → List (ContestEntry × RatedUser) → String → RatedUser
  | c :: changes, (_, before) :: entries => updateUsers (updateUser users c before) changes entries
  | _, _ => users

def ratingChangeRow (contestId : String) (c : RatingChangeResult) : RatingChange :=
  ⟨c.userId, contestId, c.beforeRating, c.afterRating, c.delta, c.rank⟩

/-- The inserts of the rating changes, which fail on the second one of a user in a contest. -/
def createRatingChanges (contestId : String) (rows : List RatingChange) :
    List RatingChangeResult → Option (List RatingChange)
  | [] => some rows
  | c :: changes =>
    if rows.any fun row => row.contestId == contestId && row.userId == c.userId then none
    else createRatingChanges contestId (rows ++ [ratingChangeRow contestId c]) changes

def RatingDb.endContest (db : RatingDb) (contestId : String) : String → Option Contest := fun slug =>
  (db.contests slug).map fun c => if c.id = contestId then { c with status := "ended" } else c

/-- The transaction, which fails as a whole. -/
def RatingDb.persist (db : RatingDb) (contestId : String) (entries : List (ContestEntry × RatedUser))
    (changes : List RatingChangeResult) : Option RatingDb :=
  (createRatingChanges contestId db.ratingChanges changes).map fun rows =>
    { db with
      users := updateUsers db.users changes entries
      ratingChanges := rows
      contests := db.endContest contestId }

def ContestEntry.setRank (contestId : String) (c : RatingChangeResult) (e : ContestEntry) :
    ContestEntry :=
  if e.contestId = contestId ∧ e.userId = c.userId then { e with rank := some c.rank } else e

theorem ContestEntry.setRank_key (contestId : String) (c : RatingChangeResult) (e : ContestEntry) :
    ((e.setRank contestId c).contestId, (e.setRank contestId c).userId) =
      (e.contestId, e.userId) := by
  unfold ContestEntry.setRank
  split <;> rfl

def EntryTable.setRank (entries : EntryTable) (contestId : String) (c : RatingChangeResult) :
    EntryTable where
  rows := entries.rows.map (ContestEntry.setRank contestId c)
  unique := by
    rw [List.map_map]
    simp only [Function.comp_def, ContestEntry.setRank_key]
    exact entries.unique

/-- The backfill of one rank. -/
def RatingDb.setRank (db : RatingDb) (contestId : String) (c : RatingChangeResult) : RatingDb :=
  { db with entries := db.entries.setRank contestId c }

inductive FinalizeBody where
  | error (text : String)
  | finalized (changes : List RatingChangeResult)

structure FinalizeResponse where
  status : Nat
  body : FinalizeBody

def contestNotFound : FinalizeResponse := ⟨404, .error "Contest not found"⟩
def contestNotFinished : FinalizeResponse := ⟨409, .error "Contest is not finished yet"⟩
def alreadyFinalised : FinalizeResponse := ⟨409, .error "Rating already finalised for this contest"⟩
def tooFewParticipants : FinalizeResponse :=
  ⟨422, .error "Need at least two participants to finalise rating"⟩
def internalServerError : FinalizeResponse := ⟨500, .error "Internal server error"⟩

/-- The database steps of a request that has passed `requireAdmin`. -/
inductive FinalizePc where
  | find
  | count (contestId : String)
  | read (contestId : String)
  | commit (contestId : String) (entries : List (ContestEntry × RatedUser))
  | backfill (contestId : String) (changes todo : List RatingChangeResult)
  | returned (response : FinalizeResponse)

structure FinalizeCall where
  slug : String
  pc : FinalizePc

/-- A step succeeds, fails, or takes effect although the request sees an error. -/
inductive FinalizeEvent where
  | proceed
  | fail
  | lost

def finalizeStep (updateOne : RatingEngine) (db : RatingDb) (slug : String) :
    FinalizePc → FinalizeEvent → Option (RatingDb × FinalizePc)
  | .find, .proceed =>
    match db.contests slug with
    | none => some (db, .returned contestNotFound)
    | some contest =>
      if contest.status = "ended" ∨ contest.endTime ≤ db.now then some (db, .count contest.id)
      else some (db, .returned contestNotFinished)
  | .count contestId, .proceed =>
    if 0 < db.ratingChanges.countP fun row => row.contestId == contestId then
      some (db, .returned alreadyFinalised)
    else some (db, .read contestId)
  | .read contestId, .proceed =>
    if (db.standings contestId).length < 2 then some (db, .returned tooFewParticipants)
    else some (db, .commit contestId (db.standings contestId))
  | .commit contestId entries, .proceed =>
    let changes := ratingChangesOf updateOne entries
    match db.persist contestId entries changes with
    | none => some (db, .returned internalServerError)
    | some db' => some (db', .backfill contestId changes changes)
  | .commit contestId entries, .lost =>
    some ((db.persist contestId entries (ratingChangesOf updateOne entries)).getD db,
      .returned internalServerError)
  | .backfill contestId changes (c :: todo), .proceed =>
    some (db.setRank contestId c, .backfill contestId changes todo)
  | .backfill contestId _ (c :: _), .lost =>
    some (db.setRank contestId c, .returned internalServerError)
  | .backfill _ changes [], .proceed => some (db, .returned ⟨200, .finalized changes⟩)
  | .backfill _ _ [], _ | .returned _, _ => none
  | _, .fail => some (db, .returned internalServerError)
  | _, _ => none

def finalizeProgram (updateOne : RatingEngine) :
    Program RatingDb FinalizeCall String Nat FinalizeEvent where
  start := fun _ slug => ⟨slug, .find⟩
  ambient := fun db elapsed => { db with now := db.now + elapsed }
  step := fun db _ call e =>
    (finalizeStep updateOne db call.slug call.pc e).map fun (db, pc) => (db, ⟨call.slug, pc⟩)

/-- Any number of requests over tables in which no contest was finalised at first. -/
def finalizeService (updateOne : RatingEngine) :
    Machine (World RatingDb FinalizeCall) (Event String Nat FinalizeEvent) :=
  (finalizeProgram updateOne).machine fun db => db.ratingChanges = []

/-- The steps of a request; all that is not listed by itself ends it without any effect. -/
inductive FinalizeStep (updateOne : RatingEngine) (db : RatingDb) (slug : String) :
    FinalizePc → FinalizeEvent → RatingDb → FinalizePc → Prop where
  | find (h : db.contests slug = some contest) :
    FinalizeStep updateOne db slug .find .proceed db (.count contest.id)
  | count : FinalizeStep updateOne db slug (.count contestId) .proceed db (.read contestId)
  | read : FinalizeStep updateOne db slug (.read contestId) .proceed db
      (.commit contestId (db.standings contestId))
  | commit (h : db.persist contestId entries (ratingChangesOf updateOne entries) = some db') :
    FinalizeStep updateOne db slug (.commit contestId entries) .proceed db'
      (.backfill contestId (ratingChangesOf updateOne entries) (ratingChangesOf updateOne entries))
  | commitLost (h : db.persist contestId entries (ratingChangesOf updateOne entries) = some db') :
    FinalizeStep updateOne db slug (.commit contestId entries) .lost db'
      (.returned internalServerError)
  | setRank : FinalizeStep updateOne db slug (.backfill contestId changes (c :: todo)) .proceed
      (db.setRank contestId c) (.backfill contestId changes todo)
  | setRankLost : FinalizeStep updateOne db slug (.backfill contestId changes (c :: todo)) .lost
      (db.setRank contestId c) (.returned internalServerError)
  | done : FinalizeStep updateOne db slug (.backfill contestId changes []) .proceed db
      (.returned ⟨200, .finalized changes⟩)
  | stop (h : response.status ≠ 200) : FinalizeStep updateOne db slug pc e db (.returned response)

theorem finalizeStep_cases (h : finalizeStep updateOne db slug pc e = some (db', pc')) :
    FinalizeStep updateOne db slug pc e db' pc' := by
  unfold finalizeStep at h
  split at h
  next => -- find
    split at h
    next =>
      cases h
      exact .stop (by decide)
    next contest hc =>
      split at h
      next =>
        cases h
        exact .find hc
      next =>
        cases h
        exact .stop (by decide)
  next => -- count
    split at h
    next =>
      cases h
      exact .stop (by decide)
    next =>
      cases h
      exact .count
  next => -- read
    split at h
    next =>
      cases h
      exact .stop (by decide)
    next =>
      cases h
      exact .read
  next => -- commit
    dsimp only at h
    split at h
    next =>
      cases h
      exact .stop (by decide)
    next db₁ hp =>
      cases h
      exact .commit hp
  next contestId entries => -- commit, and its answer is lost
    cases hp : db.persist contestId entries (ratingChangesOf updateOne entries) with
    | none =>
      rw [hp] at h
      cases h
      exact .stop (by decide)
    | some db₁ =>
      rw [hp] at h
      cases h
      exact .commitLost hp
  next => -- backfill
    cases h
    exact .setRank
  next => -- backfill, and its answer is lost
    cases h
    exact .setRankLost
  next => -- the end of the backfill
    cases h
    exact .done
  next => cases h
  next => cases h
  next => -- a step fails
    cases h
    exact .stop (by decide)
  next => cases h

/-- The transaction goes through if the users are different and have no change of the contest. -/
theorem createRatingChanges_eq_some_iff {changes : List RatingChangeResult} :
    createRatingChanges contestId rows changes = some rows' ↔
      (changes.map fun c => c.userId).Nodup ∧
        (∀ c ∈ changes, ∀ row ∈ rows, row.contestId = contestId → row.userId ≠ c.userId) ∧
        rows' = rows ++ changes.map (ratingChangeRow contestId) := by
  induction changes generalizing rows with
  | nil => simp [createRatingChanges, eq_comm]
  | cons c changes ih =>
    rw [createRatingChanges]
    split
    next htaken =>
      constructor
      · exact nofun
      · rintro ⟨_, hfree, _⟩
        obtain ⟨row, hrow, hkey⟩ := List.any_eq_true.1 htaken
        rw [Bool.and_eq_true, beq_iff_eq, beq_iff_eq] at hkey
        exact absurd hkey.2 (hfree c List.mem_cons_self row hrow hkey.1)
    next htaken =>
      have hfree : ∀ row ∈ rows, row.contestId = contestId → row.userId ≠ c.userId := by
        intro row hrow hid huser
        apply htaken
        rw [List.any_eq_true]
        exact ⟨row, hrow, by simp [hid, huser]⟩
      rw [ih, List.map_cons, List.nodup_cons, List.map_cons, List.append_assoc]
      constructor
      · rintro ⟨hnodup, hrest, rfl⟩
        refine ⟨⟨?_, hnodup⟩, ?_, rfl⟩
        · intro hmem
          obtain ⟨c', hc', huser⟩ := List.mem_map.1 hmem
          exact hrest c' hc' (ratingChangeRow contestId c) (by simp) rfl huser.symm
        · intro c' hc' row hrow
          rcases List.mem_cons.1 hc' with rfl | hc'
          · exact hfree row hrow
          · exact hrest c' hc' row (List.mem_append_left _ hrow)
      · rintro ⟨⟨hnew, hnodup⟩, hrest, rfl⟩
        refine ⟨hnodup, ?_, rfl⟩
        intro c' hc' row hrow hid
        rcases List.mem_append.1 hrow with hrow | hrow
        · exact hrest c' (List.mem_cons_of_mem c hc') row hrow hid
        · rw [List.mem_singleton.1 hrow]
          intro huser
          exact hnew (List.mem_map.2 ⟨c', hc', huser.symm⟩)

theorem persist_eq_some_iff {db db' : RatingDb} {entries : List (ContestEntry × RatedUser)}
    {changes : List RatingChangeResult} :
    db.persist contestId entries changes = some db' ↔
      (changes.map fun c => c.userId).Nodup ∧
        (∀ c ∈ changes, ∀ row ∈ db.ratingChanges, row.contestId = contestId →
          row.userId ≠ c.userId) ∧
        db' = { db with
          users := updateUsers db.users changes entries
          ratingChanges := db.ratingChanges ++ changes.map (ratingChangeRow contestId)
          contests := db.endContest contestId } := by
  rw [RatingDb.persist, Option.map_eq_some_iff]
  constructor
  · rintro ⟨rows, hrows, rfl⟩
    obtain ⟨hnodup, hfree, rfl⟩ := createRatingChanges_eq_some_iff.1 hrows
    exact ⟨hnodup, hfree, rfl⟩
  · rintro ⟨hnodup, hfree, rfl⟩
    exact ⟨_, createRatingChanges_eq_some_iff.2 ⟨hnodup, hfree, rfl⟩, rfl⟩

/-- A change belongs to the entry that was read at the same place. -/
structure RatingChangeResult.From (c : RatingChangeResult) (x : ContestEntry × RatedUser) :
    Prop where
  userId : c.userId = x.1.userId
  beforeRating : c.beforeRating = x.2.rating

theorem rankFrom_of (idx : Nat) (prevScore : Option Int) (prevRank : Nat)
    (entries : List (ContestEntry × RatedUser)) :
    List.Forall₂ (fun p x => p.userId = x.1.userId ∧ p.rating = x.2.rating)
      (rankFrom idx prevScore prevRank entries) entries := by
  induction entries generalizing idx prevScore prevRank with
  | nil => exact .nil
  | cons x entries ih => exact .cons ⟨rfl, rfl⟩ (ih ..)

theorem ratingChangesOf_from (updateOne : RatingEngine)
    (entries : List (ContestEntry × RatedUser)) :
    List.Forall₂ RatingChangeResult.From (ratingChangesOf updateOne entries) entries := by
  have hof := calculateRatingChanges_of updateOne (rankFrom 0 none 0 entries)
  have hentries := rankFrom_of 0 none 0 entries
  rw [ratingChangesOf]
  generalize calculateRatingChanges updateOne (rankFrom 0 none 0 entries) = changes at hof ⊢
  generalize rankFrom 0 none 0 entries = ps at hof hentries
  induction hof generalizing entries with
  | nil =>
    cases hentries
    exact .nil
  | cons hc _ ih =>
    cases hentries with
    | cons hp hentries =>
      exact .cons ⟨hc.userId.trans hp.1, hc.beforeRating.trans hp.2⟩ (ih _ hentries)

theorem ratingChangesOf_userIds (updateOne : RatingEngine)
    (entries : List (ContestEntry × RatedUser)) :
    (ratingChangesOf updateOne entries).map (fun c => c.userId) =
      entries.map fun x => x.1.userId := by
  rw [← List.forall₂_eq_eq_eq, List.forall₂_map_left_iff, List.forall₂_map_right_iff]
  exact (ratingChangesOf_from updateOne entries).imp fun c x h => h.userId

theorem exists_change_of_mem (h : List.Forall₂ RatingChangeResult.From changes entries)
    (hx : x ∈ entries) : ∃ c ∈ changes, RatingChangeResult.From c x :=
  exists_of_mem_left h.flip hx

/-- The engine on the first contest of two newcomers. -/
def newcomerEngine : RatingEngine := fun _ opponents =>
  match opponents with
  | [(_, score)] =>
    if score = 1 then ⟨1662, 290, 0.05999967537233814⟩
    else if score = 0 then ⟨1338, 290, 0.05999967537233814⟩
    else ⟨1500, 290, 0.05999896144314354⟩
  | _ => ⟨1500, 350, 0.06⟩

/-- Two newcomers have entered two contests, each of which another one wins. -/
def twoContests : World RatingDb FinalizeCall where
  shared := {
    contests := fun slug =>
      if slug = "spring-cup" then some ⟨"c1", "ended", 0⟩
      else if slug = "summer-cup" then some ⟨"c2", "ended", 0⟩
      else none
    entries := {
      rows := [⟨"c1", "u1", 300, none, 0⟩, ⟨"c1", "u2", 200, none, 0⟩,
        ⟨"c2", "u1", 100, none, 0⟩, ⟨"c2", "u2", 200, none, 0⟩]
      unique := by decide
    }
    users := fun _ => ⟨1500, 1500, 350, 0.06⟩
    ratingChanges := []
    now := 0
  }
  threads := []

abbrev FinalizeTrace := List (Event String Nat FinalizeEvent)

end Leetrank
