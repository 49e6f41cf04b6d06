import Leetrank.Library.SortedPrefix
import Leetrank.Solutions.VoteAutomaton
import Leetrank.Strings

namespace Leetrank.Discussions
set_option autoImplicit true

open SortedPrefix

structure Discussion where
  id : String
  title : String
  upvotes : Int
  createdAt : Nat
deriving DecidableEq

inductive SortMode where
  | hot
  | new
  | top
deriving DecidableEq

inductive OrderBy where
  | createdAt
  | upvotes

/-- The parameters of a query, as far as they are given. -/
structure ListQuery where
  page : Option String
  limit : Option String
  sort : Option String

def defaultLimit : Int := 20
def maxLimit : Int := 50

def parseSort : Option String → SortMode
  | some "new" => .new
  | some "top" => .top
  | _ => .hot

/-- A parsed number, unless it is one of the numbers that count as false. -/
def numberOr (v : Option Int) (fallback : Int) : Int := (v.filter (· ≠ 0)).getD fallback

def ListQuery.pageNumber (q : ListQuery) : Nat :=
  (max 1 (numberOr (parseInt (q.page.getD "1")) 1)).toNat

def ListQuery.limitNumber (q : ListQuery) : Nat :=
  (min maxLimit
    (max 1 (numberOr (parseInt (q.limit.getD (toString defaultLimit))) defaultLimit))).toNat

def ListQuery.sortMode (q : ListQuery) : SortMode := parseSort q.sort

/-- The discussions of a page, of which only a sort by hotness has computed the scores. -/
structure Listing where
  discussions : List (Discussion × Option Int)
  total : Nat
  page : Nat
  limit : Nat
  sort : SortMode

section
variable [LinearOrder K] (hotRank : Int → Nat → K)

def hotter (votes : DiscussionVotes) (a b : Discussion) : Bool :=
  decide (hotRank (votes.sum b.id) b.createdAt ≤ hotRank (votes.sum a.id) a.createdAt)

/-- The list of a problem, whose discussions the database returns in each of the two orders. -/
def listDiscussions (findMany : OrderBy → List Discussion) (votes : DiscussionVotes)
    (q : ListQuery) : Listing :=
  let page := q.pageNumber
  let limit := q.limitNumber
  let total := (findMany .createdAt).length
  match q.sortMode with
  | .hot =>
    let rows := (findMany .createdAt).take (page * limit)
    let sorted := rows.mergeSort (hotter hotRank votes)
    let discussions := (sorted.take (page * limit)).drop ((page - 1) * limit)
    ⟨discussions.map fun r => (r, some (votes.sum r.id)), total, page, limit, .hot⟩
  | .new =>
    let rows := ((findMany .createdAt).drop ((page - 1) * limit)).take limit
    ⟨rows.map fun r => (r, none), total, page, limit, .new⟩
  | .top =>
    let rows := ((findMany .upvotes).drop ((page - 1) * limit)).take limit
    ⟨rows.map fun r => (r, none), total, page, limit, .top⟩

def getDiscussions (findMany : String → OrderBy → List Discussion) (votes : DiscussionVotes)
    (problemId : Option String) (q : ListQuery) : Except (Nat × String) Listing :=
  match truthy problemId with
  | none => .error (400, "Problem ID is required.")
  | some problemId => .ok (listDiscussions hotRank (findMany problemId) votes q)

end

variable [LinearOrder K] {hotRank : Int → Nat → K} {findMany : OrderBy → List Discussion}
  {votes : DiscussionVotes} {q q' : ListQuery} {r : Discussion}

theorem pageNumber_pos (q : ListQuery) : 0 < q.pageNumber := by
  rw [ListQuery.pageNumber]
  omega

theorem limitNumber_pos (q : ListQuery) : 0 < q.limitNumber := by
  rw [ListQuery.limitNumber, maxLimit]
  omega

theorem hotter_trans (a b c : Discussion) (hab : hotter hotRank votes a b)
    (hbc : hotter hotRank votes b c) : hotter hotRank votes a c :=
  decide_eq_true (le_trans (of_decide_eq_true hbc) (of_decide_eq_true hab))

theorem hotter_total (a b : Discussion) :
    hotter hotRank votes a b || hotter hotRank votes b a := by
  rw [Bool.or_eq_true, hotter, hotter, decide_eq_true_eq, decide_eq_true_eq]
  exact le_total _ _

/-- The discussions that a query shows. -/
def Listing.shows (l : Listing) (r : Discussion) : Prop := ∃ score, (r, score) ∈ l.discussions

/-- A page of the hot discussions sorts no more than the discussions up to that page. -/
theorem hot_shows_iff (h : q.sortMode = .hot) :
    (listDiscussions hotRank findMany votes q).shows r ↔
      r ∈ sortedPage (hotter hotRank votes) q.limitNumber (findMany .createdAt)
        (q.pageNumber - 1) := by
  have hpage : q.pageNumber - 1 + 1 = q.pageNumber := Nat.sub_add_cancel (pageNumber_pos q)
  have hlimit : q.pageNumber * q.limitNumber - (q.pageNumber - 1) * q.limitNumber =
      q.limitNumber := by
    rw [← Nat.sub_mul, Nat.sub_sub_self (pageNumber_pos q), Nat.one_mul]
  rw [Listing.shows, listDiscussions, h, sortedPage, Paging.page, hpage]
  dsimp only
  rw [List.drop_take, hlimit]
  constructor
  · rintro ⟨score, hmem⟩
    obtain ⟨r', hr', heq⟩ := List.mem_map.1 hmem
    cases heq
    exact hr'
  · exact fun hr => ⟨_, List.mem_map.2 ⟨r, hr, rfl⟩⟩

/-- The route shows the hot discussions of the problem that is asked for, and none without one. -/
theorem getDiscussions_shows_iff {findMany : String → OrderBy → List Discussion}
    {problemId : Option String} (h : q.sortMode = .hot) :
    (∃ l, getDiscussions hotRank findMany votes problemId q = .ok l ∧ l.shows r) ↔
      ∃ id, truthy problemId = some id ∧
        r ∈ sortedPage (hotter hotRank votes) q.limitNumber (findMany id .createdAt)
          (q.pageNumber - 1) := by
  rw [getDiscussions]
  cases truthy problemId with
  | none =>
    constructor
    · rintro ⟨l, hl, -⟩
      cases hl
    · rintro ⟨id, hid, -⟩
      cases hid
  | some id =>
    constructor
    · rintro ⟨_, ⟨⟩, hshows⟩
      exact ⟨id, rfl, (hot_shows_iff h).1 hshows⟩
    · rintro ⟨_, ⟨⟩, hmem⟩
      exact ⟨_, rfl, (hot_shows_iff h).2 hmem⟩

theorem length_hot (h : q.sortMode = .hot) :
    (listDiscussions hotRank findMany votes q).discussions.length =
      (Paging.page q.limitNumber (findMany .createdAt) (q.pageNumber - 1)).length := by
  have hpage : q.pageNumber - 1 + 1 = q.pageNumber := Nat.sub_add_cancel (pageNumber_pos q)
  rw [← length_sortedPage (hotter hotRank votes), listDiscussions, h, sortedPage, Paging.page,
    hpage]
  dsimp only
  simp only [List.length_map, List.length_drop, List.length_take, List.length_mergeSort]
  have hsucc := Nat.succ_mul (q.pageNumber - 1) q.limitNumber
  rw [Nat.succ_eq_add_one, hpage] at hsucc
  omega

/-- A hot page is as long as a page of the newest discussions. It shows those that it has fetched,
but that have as many hotter ones among these as the pages before have places; so a discussion is on
successive pages from the first one that fetches it on, or on none, and the hottest of all is on
none unless it is among the newest of a page. -/
theorem hotPages (h : q.sortMode = .hot) (hrows : (findMany .createdAt).Nodup)
    (hr : (findMany .createdAt)[i]? = some r) :
    (listDiscussions hotRank findMany votes q).discussions.length =
        (Paging.page q.limitNumber (findMany .createdAt) (q.pageNumber - 1)).length ∧
      ((listDiscussions hotRank findMany votes q).shows r ↔
        i < q.pageNumber * q.limitNumber ∧ (q.pageNumber - 1) * q.limitNumber ≤
          ahead (hotter hotRank votes) (findMany .createdAt) (q.pageNumber * q.limitNumber) r i) ∧
      ((listDiscussions hotRank findMany votes q).shows r → ∀ q' : ListQuery,
        q'.sortMode = .hot → q'.limitNumber = q.limitNumber → i / q.limitNumber < q'.pageNumber →
        q'.pageNumber ≤ q.pageNumber → (listDiscussions hotRank findMany votes q').shows r) ∧
      ((∀ y ∈ findMany .createdAt, y ≠ r → hotRank (votes.sum y.id) y.createdAt <
          hotRank (votes.sum r.id) r.createdAt) →
        (listDiscussions hotRank findMany votes q).shows r → i < q.limitNumber) := by
  have htrans : ∀ a b c, hotter hotRank votes a b → hotter hotRank votes b c →
      hotter hotRank votes a c := hotter_trans
  have htotal : ∀ a b, hotter hotRank votes a b || hotter hotRank votes b a := hotter_total
  have hpage : q.pageNumber - 1 + 1 = q.pageNumber := Nat.sub_add_cancel (pageNumber_pos q)
  refine ⟨length_hot h, ?_, ?_, ?_⟩
  · rw [hot_shows_iff h, mem_sortedPage_iff htrans htotal hrows hr, hpage]
  · intro hshows q' h' hlimit hfirst hle
    have hmem := (hot_shows_iff h).1 hshows
    apply (hot_shows_iff h').2
    rw [hlimit]
    apply mem_sortedPage_of_le htrans htotal hrows hr (limitNumber_pos q) hmem
    · exact Nat.le_sub_one_of_lt hfirst
    · exact Nat.sub_le_sub_right hle 1
  · intro hottest hshows
    have hfirst : ∀ y ∈ findMany .createdAt, y ≠ r →
        hotter hotRank votes r y ∧ ¬hotter hotRank votes y r := by
      intro y hy hne
      have hlt := hottest y hy hne
      exact ⟨decide_eq_true hlt.le, fun hge => absurd (of_decide_eq_true hge) hlt.not_ge⟩
    apply (exists_sortedPage_first_iff htrans htotal hrows hr (limitNumber_pos q) hfirst).1
    exact ⟨_, (hot_shows_iff h).1 hshows⟩

/-- A new discussion without votes and an older one with many. -/
def twoDiscussions : List Discussion :=
  [⟨"d2", "Why O(n)?", 0, 3600000⟩, ⟨"d1", "Two pointers", 0, 0⟩]

def manyVotes : DiscussionVotes where
  rows := [⟨"v1", "d1", "ann", .up⟩, ⟨"v2", "d1", "bob", .up⟩]
  ids := by decide
  users := by decide

theorem hotPages_twoDiscussions :
    ¬(listDiscussions (fun score _ => score) (fun _ => twoDiscussions) manyVotes
      ⟨some "2", some "1", none⟩).shows ⟨"d1", "Two pointers", 0, 0⟩ := by
  intro hshows
  have hottest : ∀ y ∈ twoDiscussions, y ≠ ⟨"d1", "Two pointers", 0, 0⟩ →
      manyVotes.sum y.id < manyVotes.sum "d1" := by decide
  have hpages := @hotPages Int _ (fun score _ => score) (fun _ => twoDiscussions) manyVotes
    ⟨some "2", some "1", none⟩ _ 1 (by decide) (by decide) rfl
  exact absurd (hpages.2.2.2 hottest hshows) (by decide)

end Leetrank.Discussions
