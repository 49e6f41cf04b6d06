import Leetrank.Contest.FrozenContest
import Leetrank.Contest.FinalizeAtomic
import Leetrank.Web.ProblemList

namespace Leetrank
set_option autoImplicit true

open EventMachine Threads

structure Profile where
  username : String
  avatar : Option String

structure LeaderboardUser where
  id : String
  username : String
  avatar : Option String

structure LeaderboardRow where
  rank : Nat
  score : Int
  user : LeaderboardUser
  rating : Int
  ratingDelta : Option Int

inductive LeaderboardBody where
  | error (text : String)
  | standings (contestStatus : String) (leaderboard : List LeaderboardRow)

structure LeaderboardResponse where
  status : Nat
  body : LeaderboardBody

def leaderboardLimit (param : Option String) : Nat := min 200 (countParam param 50)

def RatingDb.deltaByUser (db : RatingDb) (contestId userId : String) : Option RatingChange :=
  db.ratingChanges.find? fun c => c.contestId = contestId ∧ c.userId = userId

/-- The entries that the query of the leaderboard returns. -/
def RatingDb.topEntries (db : RatingDb) (contestId : String) (limit : Option String) :
    List (ContestEntry × RatedUser) :=
  (db.standings contestId).take (leaderboardLimit limit)

def leaderboardRow (db : RatingDb) (profiles : String → Profile) (contestId : String) (i : Nat)
    (x : ContestEntry × RatedUser) : LeaderboardRow :=
  let rc := db.deltaByUser contestId x.1.userId
  { rank := i + 1
    score := x.1.score
    user := ⟨x.1.userId, (profiles x.1.userId).username, (profiles x.1.userId).avatar⟩
    rating := (rc.map fun c => c.afterRating).getD x.2.rating
    ratingDelta := rc.map fun c => c.delta }

def getLeaderboard (db : RatingDb) (profiles : String → Profile) (slug : String)
    (limit : Option String) : LeaderboardResponse :=
  match db.contests slug with
  | none => ⟨404, .error "Contest not found"⟩
  | some contest =>
    ⟨200, .standings contest.status
      ((db.topEntries contest.id limit).mapIdx (leaderboardRow db profiles contest.id))⟩

/-- The rank that the tables hold for a user of the contest, with the entry and with the rating
change. -/
structure RatingDb.StoresRank (db : RatingDb) (contestId userId : String) (rank : Nat) : Prop where
  entry : ∃ e ∈ db.entries.rows, e.contestId = contestId ∧ e.userId = userId ∧ e.rank = some rank
  change : ∃ c ∈ db.ratingChanges, c.contestId = contestId ∧ c.userId = userId ∧ c.rank = rank

/-- No two of the entries that the leaderboard shows have the same score. -/
def RatingDb.NoTies (db : RatingDb) (contestId : String) (limit : Option String) : Prop :=
  ((db.topEntries contestId limit).map fun x => x.1.score).Nodup

variable {updateOne : RatingEngine} {db db' : RatingDb} {contestId : String}
  {entries : List (ContestEntry × RatedUser)} {x : ContestEntry × RatedUser}

theorem pairwise_iff_take {R : α → α → Prop} {l : List α} :
    l.Pairwise R ↔ ∀ i x, l[i]? = some x → ∀ y ∈ l.take i, R y x := by
  rw [List.pairwise_iff_getElem]
  constructor
  · intro h i x hx y hy
    obtain ⟨hi, rfl⟩ := List.getElem?_eq_some_iff.1 hx
    obtain ⟨j, hj, rfl⟩ := List.getElem_of_mem hy
    rw [List.length_take, lt_min_iff] at hj
    rw [List.getElem_take]
    exact h j i hj.2 hi hj.1
  · intro h i j hi hj hij
    exact h j _ (List.getElem?_eq_getElem hj) _ (List.mem_take_iff_getElem.2
      ⟨i, lt_min hij hi, rfl⟩)

/-- As many entries as stand before one have a higher score exactly if none of them ties with it. -/
theorem higher_eq_index_iff (hs : entries.Pairwise fun x y => y.1.score ≤ x.1.score)
    (hx : entries[i]? = some x) :
    higher entries x.1 = i ↔ ∀ y ∈ entries.take i, x.1.score < y.1.score := by
  obtain ⟨hi, rfl⟩ := List.getElem?_eq_some_iff.1 hx
  have hafter : ∀ y ∈ entries.drop i, y.1.score ≤ entries[i].1.score := by
    rw [List.drop_eq_getElem_cons hi]
    have hrest := hs.sublist (List.drop_sublist i entries)
    rw [List.drop_eq_getElem_cons hi, List.pairwise_cons] at hrest
    rintro y (_ | ⟨_, hy⟩)
    · exact le_rfl
    · exact hrest.1 y hy
  have hbefore := higher_append (entries.take i) hafter
  rw [List.take_append_drop] at hbefore
  have hlen : (entries.take i).length = i := by
    rw [List.length_take, Nat.min_eq_left hi.le]
  rw [hbefore, higher]
  conv =>
    lhs
    rhs
    rw [← hlen]
  rw [List.countP_eq_length]
  simp only [decide_eq_true_eq]

/-- The places of the first entries are their ranks exactly if there are no ties between them. -/
theorem noTies_iff (db : RatingDb) (contestId : String) (limit : Option String) :
    db.NoTies contestId limit ↔ ∀ i x, (db.topEntries contestId limit)[i]? = some x →
      db.competitionRank x.1 = i + 1 := by
  have hsorted := db.standings_sorted contestId
  have hstrict : db.NoTies contestId limit ↔
      (db.topEntries contestId limit).Pairwise fun x y => y.1.score < x.1.score := by
    have htop := hsorted.sublist (List.take_sublist (leaderboardLimit limit) _)
    rw [RatingDb.NoTies, List.Nodup, List.pairwise_map]
    constructor
    · intro h
      exact htop.imp₂ (fun x y hle hne => lt_of_le_of_ne hle (Ne.symm hne)) h
    · intro h
      exact h.imp fun h => h.ne'
  rw [hstrict, pairwise_iff_take]
  refine forall_congr' fun i => forall_congr' fun x => forall_congr' fun hx => ?_
  have hall : (db.standings contestId)[i]? = some x ∧ i < leaderboardLimit limit := by
    rw [RatingDb.topEntries, List.getElem?_take] at hx
    split at hx
    next hi => exact ⟨hx, hi⟩
    next => cases hx
  rw [RatingDb.topEntries, List.take_take, Nat.min_eq_left hall.2.le,
    ← higher_eq_index_iff hsorted hall.1,
    ← RatingDb.higher_standings (List.mem_of_getElem? hall.1), Nat.add_right_cancel_iff]

/-- A finalised contest stores the competition rank of each of its entries. -/
theorem Finalised.storesRank_iff (h : Finalised updateOne db contestId db')
    (hx : x ∈ db.standings contestId) :
    db'.StoresRank contestId x.1.userId rank ↔ db.competitionRank x.1 = rank := by
  obtain ⟨done, hp, hall⟩ := h
  obtain ⟨hmem, hid⟩ := RatingDb.mem_standings hx
  have hdone := hall x.1 hmem hid
  constructor
  · rintro ⟨⟨e, he, heid, heuser, hrank⟩, -⟩
    rw [hp.ranks] at he
    obtain ⟨e₀, he₀, rfl⟩ := List.mem_map.1 he
    have hkey : e₀.contestId = contestId ∧ e₀.userId = x.1.userId := by
      split at heid <;> split at heuser <;> exact ⟨heid, heuser⟩
    have hsame : e₀ = x.1 := by
      apply List.inj_on_of_nodup_map db.entries.unique he₀ hmem
      rw [hkey.1, hkey.2, hid]
    subst hsame
    rw [if_pos ⟨hid, hdone⟩] at hrank
    exact Option.some.inj hrank
  · rintro rfl
    constructor
    · refine ⟨{ x.1 with rank := some (db.competitionRank x.1) }, ?_, hid, rfl, rfl⟩
      rw [hp.ranks]
      exact List.mem_map.2 ⟨x.1, hmem, if_pos ⟨hid, hdone⟩⟩
    · obtain ⟨c, hc, huser, hrank⟩ :=
        exists_of_mem_left (ratingChangesOf_rank updateOne db contestId).flip hx
      refine ⟨ratingChangeRow contestId c, ?_, rfl, huser, hrank⟩
      rw [hp.ratingChanges]
      exact List.mem_append_right _ (List.mem_map_of_mem hc)

/-- The leaderboard shows the ranks that a finalisation of the same entries stores exactly if no two
of the entries that it shows are tied. -/
theorem leaderboard_rank_iff (hl : getLeaderboard w.shared profiles slug limit =
      ⟨200, .standings contestStatus rows⟩)
    (hr : (finalizeService updateOne).run w (.spawn slug :: es) = some w')
    (hes : ∀ e ∈ es, e.Alone w.threads.length)
    (hret : w'.threads[w.threads.length]? = some ⟨slug, .returned ⟨200, body⟩⟩)
    (hc : w.shared.contests slug = some contest) :
    (∀ row ∈ rows, w'.shared.StoresRank contest.id row.user.id row.rank) ↔
      w.shared.NoTies contest.id limit := by
  obtain ⟨pc, hpc, hprogress⟩ := progress_of_run hr hes
  rw [hret] at hpc
  cases hpc
  have hfinalised := hprogress.finalised rfl hc
  have hrows : rows = (w.shared.topEntries contest.id limit).mapIdx
      (leaderboardRow w.shared profiles contest.id) := by
    rw [getLeaderboard, hc] at hl
    cases hl
    rfl
  have hstored (i : Nat) (x : ContestEntry × RatedUser)
      (hx : (w.shared.topEntries contest.id limit)[i]? = some x) :
      w'.shared.StoresRank contest.id x.1.userId (i + 1) ↔
        w.shared.competitionRank x.1 = i + 1 :=
    hfinalised.storesRank_iff (List.mem_of_mem_take (List.mem_of_getElem? hx))
  rw [noTies_iff, hrows]
  constructor
  · intro h i x hx
    refine (hstored i x hx).1 (h (leaderboardRow w.shared profiles contest.id i x) ?_)
    rw [List.mem_iff_getElem?]
    exact ⟨i, by rw [List.getElem?_mapIdx, hx]; rfl⟩
  · intro h row hrow
    obtain ⟨i, hi⟩ := List.mem_iff_getElem?.1 hrow
    rw [List.getElem?_mapIdx, Option.map_eq_some_iff] at hi
    obtain ⟨x, hx, rfl⟩ := hi
    exact (hstored i x hx).2 (h i x hx)

def finalizedOnce : FinalizeTrace :=
  [.act 0 .proceed, .act 0 .proceed, .act 0 .proceed, .act 0 .proceed, .act 0 .proceed,
    .act 0 .proceed, .act 0 .proceed]

theorem finalizedOnce_alone : ∀ e ∈ finalizedOnce, e.Alone 0 := by
  simp [finalizedOnce, Event.Alone]

theorem finalizedOnce_run :
    ∃ w' changes, (finalizeService newcomerEngine).run twoContests
        (.spawn "spring-cup" :: finalizedOnce) = some w' ∧
      w'.threads[0]? = some ⟨"spring-cup", .returned ⟨200, .finalized changes⟩⟩ :=
  ⟨_, _, rfl, rfl⟩

def cupProfiles : String → Profile := fun userId => ⟨userId, none⟩

theorem leaderboard_rank_twoContests :
    ∃ w' rows, (finalizeService newcomerEngine).run twoContests
        (.spawn "spring-cup" :: finalizedOnce) = some w' ∧
      getLeaderboard twoContests.shared cupProfiles "spring-cup" none =
        ⟨200, .standings "ended" rows⟩ ∧
      rows.map (fun row => row.rank) = [1, 2] ∧
      ∀ row ∈ rows, w'.shared.StoresRank "c1" row.user.id row.rank := by
  obtain ⟨w', changes, hw, hret⟩ := finalizedOnce_run
  have hrows : ∃ rows, getLeaderboard twoContests.shared cupProfiles "spring-cup" none =
      ⟨200, .standings "ended" rows⟩ ∧ rows.map (fun row => row.rank) = [1, 2] := ⟨_, rfl, rfl⟩
  obtain ⟨rows, hl, hranks⟩ := hrows
  refine ⟨w', rows, hw, hl, hranks, ?_⟩
  refine (leaderboard_rank_iff hl hw finalizedOnce_alone hret rfl).2 ?_
  unfold RatingDb.NoTies
  decide

/-- Two newcomers with the same score. -/
def tiedCup : World RatingDb FinalizeCall where
  shared := { twoContests.shared with
    entries := {
      rows := [⟨"c1", "u1", 300, none, 0⟩, ⟨"c1", "u2", 300, none, 1⟩]
      unique := by decide
    } }
  threads := []

/-- The leaderboard shows the second of the two behind the first one. -/
theorem leaderboard_rank_tied :
    ∃ w' rows changes, (finalizeService newcomerEngine).run tiedCup
        (.spawn "spring-cup" :: finalizedOnce) = some w' ∧
      w'.threads = [⟨"spring-cup", .returned ⟨200, .finalized changes⟩⟩] ∧
      getLeaderboard tiedCup.shared cupProfiles "spring-cup" none =
        ⟨200, .standings "ended" rows⟩ ∧
      rows.map (fun row => (row.user.id, row.rank)) = [("u1", 1), ("u2", 2)] ∧
      w'.shared.entries.rows.map (fun e => (e.userId, e.rank)) =
        [("u1", some 1), ("u2", some 1)] :=
  ⟨_, _, _, rfl, rfl, rfl, rfl, rfl⟩

end Leetrank
