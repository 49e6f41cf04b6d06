import Leetrank.Library.Paging
import Leetrank.Library.Tally
import Leetrank.Strings
import Mathlib.Algebra.Group.Nat.Defs
import Mathlib.Data.List.Dedup
import Mathlib.Data.List.Forall2
import Mathlib.Order.OrderDual

namespace Leetrank.SolvedLeaderboard
set_option autoImplicit true
open InsertionOrder OrderBy

structure User where
  id : String
  username : String
  avatar : Option String
  createdAt : Nat
deriving DecidableEq

structure Submission where
  userId : String
  problemId : String
  status : String

/-- What the leaderboard reads; a submission refers to its user. -/
structure Db where
  users : List User
  submissions : List Submission
  unique : (users.map fun u => u.id).Nodup
  hasUser : ∀ s ∈ submissions, ∃ u ∈ users, u.id = s.userId

/-- The query parameters, `none` for one that is absent. -/
structure Request where
  page : Option String
  limit : Option String

structure Entry where
  rank : Nat
  user : User
  username : String
  solved : Nat
  score : Nat
deriving DecidableEq

structure Response where
  leaderboard : List Entry
  total : Nat
  page : Nat
  limit : Nat
deriving DecidableEq

/-- `Number.isFinite` of an integer that `parseInt` reads. -/
def isFinite (n : Int) : Bool := n.natAbs < 2 ^ 1024 - 2 ^ 970

structure ParseLimitOptions where
  max : Option Nat
  fallback : Option Nat

def parseLimit (raw : Option String) (options : ParseLimitOptions) : Nat :=
  let max := options.max.getD 50
  let fallback := options.fallback.getD (min 50 max)
  match parseInt (raw.getD (toString fallback)) with
  | some n =>
    if !isFinite n || n ≤ 0 then min (Nat.max 1 fallback) max else min max (Nat.max 1 n.toNat)
  | none => min (Nat.max 1 fallback) max

def parsePage (raw : Option String) : Nat :=
  match parseInt (raw.getD "1") with
  | some n => if !isFinite n || n < 1 then 1 else n.toNat
  | none => 1

/-- The page size of the route, which leaves the options at their defaults. -/
def pageSize (limit : Option String) : Nat := parseLimit limit ⟨none, none⟩

/-- The groups of accepted submissions by user and problem; a query may return them in any order. -/
def Db.accepted (db : Db) : List (String × String) :=
  ((db.submissions.filter fun s => s.status == "accepted").map
    fun s => (s.userId, s.problemId)).dedup

def solvedByUser (accepted : List (String × String)) : InsertionMap String Nat :=
  countBy Prod.fst accepted

def sortedUserIds (accepted : List (String × String)) : List String :=
  ((solvedByUser accepted).entries.reverse.insertionSort
    (Order.Preimage Sigma.snd (· ≥ ·))).map Sigma.fst

def Db.findMany (db : Db) (ids : List String) : List User :=
  db.users.filter fun u => ids.contains u.id

/-- The response of the route, where the first query returns the groups given. -/
def Db.get (db : Db) (accepted : List (String × String)) (r : Request) : Response :=
  let limit := pageSize r.limit
  let start := (parsePage r.page - 1) * limit
  let pageUserIds := ((sortedUserIds accepted).drop start).take limit
  let users := db.findMany pageUserIds
  let solved := fun userId => (AList.lookup userId (solvedByUser accepted)).getD 0
  { leaderboard := pageUserIds.zipIdx.filterMap fun (userId, i) =>
      (users.find? fun u => u.id == userId).map fun user =>
        { rank := start + i + 1
          user := user
          username := user.username
          solved := solved userId
          score := solved userId * 100 }
    total := (sortedUserIds accepted).length
    page := parsePage r.page
    limit := limit }

/-- The entries of the first pages, each answered with groups of its own. -/
def Db.allPages (db : Db) (groups : Nat → List (String × String)) (requests : Nat → Request)
    (n : Nat) : List Entry :=
  (List.range n).flatMap fun p => (db.get (groups p) (requests p)).leaderboard

/-- The users with an accepted submission. -/
def Db.solvers (db : Db) : List String :=
  (db.users.map fun u => u.id).filter fun id =>
    db.submissions.any fun s => s.status == "accepted" && s.userId == id

/-- How many problems a user has solved. -/
def Db.solved (db : Db) (userId : String) : Nat := db.accepted.countP fun row => row.1 = userId

/-- The entries are all users with an accepted submission, from the first rank on. -/
structure Db.Partition (db : Db) (entries : List Entry) : Prop where
  users : (entries.map fun e => e.user.id).Perm db.solvers
  ranks : (entries.map fun e => e.rank) = List.range' 1 db.solvers.length
  solved : entries.Pairwise fun a b => b.solved ≤ a.solved

/-- No page ends between two users who have solved equally many problems. -/
def Db.NoTieAcrossPages (db : Db) (limit : Nat) : Prop :=
  ∀ u ∈ db.solvers, ∀ p, p * limit ≤ db.solvers.countP (fun v => db.solved u < db.solved v) ∨
    db.solvers.countP (fun v => db.solved u ≤ db.solved v) ≤ p * limit

theorem pageSize_bounds (limit : Option String) : 0 < pageSize limit ∧ pageSize limit ≤ 50 := by
  rw [pageSize, parseLimit]
  split
  · split
    · decide
    · exact ⟨lt_min (by decide) (le_max_left 1 _), min_le_left ..⟩
  · decide

theorem Db.solvers_nodup (db : Db) : db.solvers.Nodup := db.unique.filter _

theorem Db.accepted_nodup (db : Db) : db.accepted.Nodup := List.nodup_dedup _

theorem Db.mem_solvers_iff {db : Db} {u : String} :
    u ∈ db.solvers ↔ u ∈ db.accepted.map Prod.fst := by
  simp only [Db.solvers, Db.accepted, List.mem_filter, List.mem_map, List.mem_dedup,
    List.any_eq_true, Bool.and_eq_true, beq_iff_eq]
  constructor
  · rintro ⟨-, s, hs, hst, rfl⟩
    exact ⟨_, ⟨s, ⟨hs, hst⟩, rfl⟩, rfl⟩
  · rintro ⟨-, ⟨s, ⟨hs, hst⟩, rfl⟩, rfl⟩
    exact ⟨db.hasUser s hs, s, hs, hst, rfl⟩

variable {db : Db} {rows : List (String × String)} {r : Request} {p : Nat}

theorem solved_of_mem_entries (hrows : rows.Perm db.accepted)
    (he : e ∈ (solvedByUser rows).entries) : e.2 = db.solved e.1 := by
  have hlookup : AList.lookup e.1 (solvedByUser rows) = some e.2 := AList.mem_lookup_iff.2 he
  have hcount := lookup_countBy Prod.fst rows e.1
  rw [← solvedByUser, hlookup, hrows.countP_eq] at hcount
  exact hcount

/-- The users are sorted by the problems they have solved, and by nothing else. -/
theorem sortedUserIds_ordered (hrows : rows.Perm db.accepted) :
    Ordered (OrderDual.toDual ∘ db.solved) db.solvers (sortedUserIds rows) := by
  have hperm : (sortedUserIds rows).Perm (solvedByUser rows).keys :=
    ((List.perm_insertionSort ..).trans (List.reverse_perm _)).map _
  constructor
  · rw [List.perm_ext_iff_of_nodup (hperm.nodup_iff.2 (AList.keys_nodup _)) db.solvers_nodup]
    intro u
    rw [hperm.mem_iff, ← AList.mem_keys, solvedByUser, mem_countBy, Db.mem_solvers_iff,
      (hrows.map Prod.fst).mem_iff]
  · rw [sortedUserIds, List.pairwise_map]
    apply (List.pairwise_insertionSort ..).imp_of_mem
    intro a b ha hb hab
    rw [List.mem_insertionSort, List.mem_reverse] at ha hb
    change db.solved b.1 ≤ db.solved a.1
    rw [← solved_of_mem_entries hrows ha, ← solved_of_mem_entries hrows hb]
    exact hab

/-- Every such order comes from some order of the groups. -/
theorem exists_rows (h : Ordered (OrderDual.toDual ∘ db.solved) db.solvers l) :
    ∃ rows : List (String × String), rows.Perm db.accepted ∧ sortedUserIds rows = l := by
  let groups (u : String) := db.accepted.filter fun row => row.1 = u
  have hl : l.Nodup := h.perm.nodup_iff.2 db.solvers_nodup
  have hgroups {u : String} {row : String × String} :
      row ∈ groups u ↔ row ∈ db.accepted ∧ row.1 = u := by
    rw [List.mem_filter, decide_eq_true_eq]
  have hmem {u : String} : u ∈ l ↔ ∃ row ∈ db.accepted, row.1 = u := by
    rw [h.perm.mem_iff, Db.mem_solvers_iff, List.mem_map]
  have hrows : (l.flatMap groups).Perm db.accepted := by
    have hnodup : (l.flatMap groups).Nodup := by
      rw [List.nodup_flatMap]
      constructor
      · exact fun u _ => db.accepted_nodup.filter _
      · apply hl.imp
        intro u v hne row hu hv
        exact hne ((hgroups.1 hu).2.symm.trans (hgroups.1 hv).2)
    rw [List.perm_ext_iff_of_nodup hnodup db.accepted_nodup]
    intro row
    rw [List.mem_flatMap]
    constructor
    · rintro ⟨u, -, hrow⟩
      exact (hgroups.1 hrow).1
    · intro hrow
      exact ⟨row.1, hmem.2 ⟨row, hrow, rfl⟩, hgroups.2 ⟨hrow, rfl⟩⟩
  have hkeys : (solvedByUser (l.flatMap groups)).entries.reverse.map Sigma.fst = l := by
    rw [List.map_reverse]
    apply keys_countBy_flatMap hl
    · intro u hu
      obtain ⟨row, hrow, hfst⟩ := hmem.1 hu
      exact List.ne_nil_of_mem (hgroups.2 ⟨hrow, hfst⟩)
    · exact fun u _ row hrow => (hgroups.1 hrow).2
  refine ⟨l.flatMap groups, hrows, ?_⟩
  -- the map has the users in this order already
  rw [sortedUserIds, List.Pairwise.insertionSort_eq, hkeys]
  have hs := h.sorted
  rw [← hkeys, List.pairwise_map] at hs
  apply hs.imp_of_mem
  intro a b ha hb hab
  rw [List.mem_reverse] at ha hb
  change b.2 ≤ a.2
  rw [solved_of_mem_entries hrows ha, solved_of_mem_entries hrows hb]
  exact hab

theorem Db.exists_findMany {ids : List String} {u : String}
    (hu : u ∈ db.users.map fun user => user.id) (hids : u ∈ ids) :
    ∃ user, (db.findMany ids).find? (fun user => user.id == u) = some user ∧ user.id = u := by
  obtain ⟨user, huser, rfl⟩ := List.mem_map.1 hu
  have hfound : user ∈ db.findMany ids :=
    List.mem_filter.2 ⟨huser, List.elem_eq_true_of_mem hids⟩
  have hsome : ((db.findMany ids).find? fun x => x.id == user.id).isSome = true :=
    List.find?_isSome.2 ⟨user, hfound, beq_self_eq_true _⟩
  obtain ⟨found, heq⟩ := Option.isSome_iff_exists.1 hsome
  have hid := List.find?_some heq
  exact ⟨found, heq, beq_iff_eq.1 hid⟩

theorem forall₂_filterMap {f : α → Option β} {R : α → β → Prop} {l : List α}
    (h : ∀ x ∈ l, ∃ y, f x = some y ∧ R x y) : List.Forall₂ R l (l.filterMap f) := by
  induction l with
  | nil => exact .nil
  | cons x l ih =>
    rw [List.forall_mem_cons] at h
    obtain ⟨⟨y, hy, hr⟩, hl⟩ := h
    rw [List.filterMap_cons_some hy]
    exact .cons hr (ih hl)

theorem map_eq_of_forall₂ {R : α → β → Prop} {f : α → γ} {g : β → γ} {l : List α} {l' : List β}
    (h : List.Forall₂ R l l') (hfg : ∀ x y, R x y → f x = g y) : l'.map g = l.map f := by
  induction h with
  | nil => rfl
  | cons hr _ ih => rw [List.map_cons, List.map_cons, ih, hfg _ _ hr]

/-- A page shows the users of its part of the order, and leaves none out. -/
theorem Db.get_page (hrows : rows.Perm db.accepted) (hp : parsePage r.page = p + 1) :
    List.Forall₂ (fun x e => e.user.id = x.1 ∧ e.rank = p * pageSize r.limit + x.2 + 1 ∧
        e.solved = db.solved x.1)
      (Paging.page (pageSize r.limit) (sortedUserIds rows) p).zipIdx
      (db.get rows r).leaderboard := by
  rw [Db.get, hp, Nat.add_sub_cancel, ← Paging.page]
  apply forall₂_filterMap
  rintro ⟨u, i⟩ hx
  have hpage : u ∈ Paging.page (pageSize r.limit) (sortedUserIds rows) p :=
    List.fst_mem_of_mem_zipIdx hx
  have hsolver : u ∈ db.solvers := (sortedUserIds_ordered hrows).perm.mem_iff.1
    (List.mem_of_mem_drop (List.mem_of_mem_take hpage))
  obtain ⟨user, hfind, hid⟩ := db.exists_findMany (List.mem_of_mem_filter hsolver) hpage
  dsimp only
  rw [hfind]
  refine ⟨_, rfl, hid, rfl, ?_⟩
  have hcount := lookup_countBy Prod.fst rows u
  rw [hrows.countP_eq] at hcount
  exact hcount

/-- The solved counts in their order. -/
def Db.solvedCounts (db : Db) : List Nat := (db.solvers.map db.solved).insertionSort (· ≥ ·)

theorem map_solved_sortedUserIds (hrows : rows.Perm db.accepted) :
    (sortedUserIds rows).map db.solved = db.solvedCounts := by
  have hordered := sortedUserIds_ordered hrows
  have hperm := (hordered.perm.map db.solved).trans
    (List.perm_insertionSort (· ≥ ·) (db.solvers.map db.solved)).symm
  apply List.Perm.eq_of_pairwise' (r := (· ≥ ·)) _ _ hperm
  · rw [List.pairwise_map]
    exact hordered.sorted
  · exact List.pairwise_insertionSort ..

theorem Db.get_page_ranks (hrows : rows.Perm db.accepted) (hp : parsePage r.page = p + 1) :
    (db.get rows r).leaderboard.map (fun e => e.rank) =
      Paging.page (pageSize r.limit) (List.range' 1 db.solvers.length) p := by
  have hranks := map_eq_of_forall₂ (f := fun x => p * pageSize r.limit + x.2 + 1)
    (g := fun e => e.rank) (db.get_page hrows hp) fun _ _ h => h.2.1.symm
  rw [hranks, ← (sortedUserIds_ordered hrows).perm.length_eq]
  apply List.ext_getElem
  · simp [Paging.page]
  · intro i _ _
    simp [Paging.page]
    omega

theorem Db.get_page_users (hrows : rows.Perm db.accepted) (hp : parsePage r.page = p + 1) :
    (db.get rows r).leaderboard.map (fun e => e.user.id) =
      Paging.page (pageSize r.limit) (sortedUserIds rows) p := by
  rw [map_eq_of_forall₂ (f := fun x => x.1) (db.get_page hrows hp) fun _ _ h => h.1.symm]
  exact List.zipIdx_map_fst ..

/-- The total is the same on every page. -/
theorem Db.get_total (hrows : rows.Perm db.accepted) :
    (db.get rows r).total = db.solvers.length :=
  (sortedUserIds_ordered hrows).perm.length_eq

theorem Db.get_page_solved (hrows : rows.Perm db.accepted) (hp : parsePage r.page = p + 1) :
    (db.get rows r).leaderboard.map (fun e => e.solved) =
      Paging.page (pageSize r.limit) db.solvedCounts p := by
  rw [map_eq_of_forall₂ (f := db.solved ∘ Prod.fst) (db.get_page hrows hp)
    fun _ _ h => h.2.2.symm]
  rw [← List.map_map, List.zipIdx_map_fst, Paging.page_map, map_solved_sortedUserIds hrows]

variable {groups : Nat → List (String × String)} {page : Nat → Option String}
  {param : Option String} {n : Nat}

theorem Db.map_allPages (f : Entry → α) (lists : Nat → List α)
    (h : ∀ p < n, (db.get (groups p) ⟨page p, param⟩).leaderboard.map f =
      Paging.page (pageSize param) (lists p) p) :
    (db.allPages groups (fun p => ⟨page p, param⟩) n).map f =
      Paging.pages (pageSize param) lists n := by
  rw [Db.allPages, List.map_flatMap, Paging.pages]
  apply List.flatMap_congr
  intro p hp
  exact h p (List.mem_range.1 hp)

/-- Ranks and solved counts are right in any case; what is at stake is who is shown. -/
theorem Db.partition_iff_perm (hpage : ∀ p < n, parsePage (page p) = p + 1)
    (hn : db.solvers.length ≤ n * pageSize param) (hgroups : ∀ p, (groups p).Perm db.accepted) :
    db.Partition (db.allPages groups (fun p => ⟨page p, param⟩) n) ↔
      (Paging.pages (pageSize param) (fun p => sortedUserIds (groups p)) n).Perm db.solvers := by
  have husers := db.map_allPages (fun e => e.user.id) (fun p => sortedUserIds (groups p))
    fun p hp => db.get_page_users (r := ⟨page p, param⟩) (hgroups p) (hpage p hp)
  have hranks := db.map_allPages (fun e => e.rank) (fun _ => List.range' 1 db.solvers.length)
    fun p hp => db.get_page_ranks (r := ⟨page p, param⟩) (hgroups p) (hpage p hp)
  have hsolved := db.map_allPages (fun e => e.solved) (fun _ => db.solvedCounts)
    fun p hp => db.get_page_solved (r := ⟨page p, param⟩) (hgroups p) (hpage p hp)
  rw [Paging.pages_const] at hranks hsolved
  constructor
  · intro h
    rw [← husers]
    exact h.users
  · intro h
    refine ⟨husers ▸ h, ?_, ?_⟩
    · rw [hranks, List.take_of_length_le]
      rwa [List.length_range']
    · have hsorted : (db.solvedCounts.take (n * pageSize param)).Pairwise (· ≥ ·) :=
        (List.pairwise_insertionSort ..).sublist (List.take_sublist ..)
      rw [← hsolved, List.pairwise_map] at hsorted
      exact hsorted

/-- The pages show every user with an accepted submission once, with the ranks one after another,
whatever the orders of the groups are, exactly if no page ends within a tie. -/
theorem pages_partition_iff (db : Db) (limit : Option String) (page : Nat → Option String) (n : Nat)
    (hpage : ∀ p < n, parsePage (page p) = p + 1)
    (hn : db.solvers.length ≤ n * pageSize limit) :
    (∀ groups : Nat → List (String × String), (∀ p, (groups p).Perm db.accepted) →
      db.Partition (db.allPages groups (fun p => ⟨page p, limit⟩) n)) ↔
      db.NoTieAcrossPages (pageSize limit) := by
  have huntied : db.NoTieAcrossPages (pageSize limit) ↔
      Paging.Untied (OrderDual.toDual ∘ db.solved) db.solvers (pageSize limit) := Iff.rfl
  rw [huntied, ← Paging.pages_perm_iff db.solvers_nodup (pageSize_bounds limit).1 hn]
  constructor
  · intro h orders horders
    choose groups hgroups hsorted using fun p => exists_rows (horders p)
    have hperm := (db.partition_iff_perm hpage hn hgroups).1 (h groups hgroups)
    rwa [funext hsorted] at hperm
  · intro h groups hgroups
    rw [db.partition_iff_perm hpage hn hgroups]
    exact h _ fun p => sortedUserIds_ordered (hgroups p)

/-- Two users with two solved problems each and one with one. -/
def board : Db where
  users := [⟨"u1", "ann", none, 1⟩, ⟨"u2", "bob", none, 2⟩, ⟨"u3", "cy", none, 3⟩]
  submissions := [⟨"u3", "p1", "accepted"⟩, ⟨"u1", "p1", "accepted"⟩, ⟨"u1", "p2", "accepted"⟩,
    ⟨"u1", "p2", "accepted"⟩, ⟨"u2", "p2", "accepted"⟩, ⟨"u2", "p1", "accepted"⟩]
  unique := by decide
  hasUser := by decide

def numbered (p : Nat) : Option String := some (toString (p + 1))

theorem pages_partition_iff_board :
    board.Partition (board.allPages
      (fun p => if p = 0 then board.accepted else board.accepted.reverse)
      (fun p => ⟨numbered p, some "2"⟩) 2) := by
  have hsize : pageSize (some "2") = 2 := by decide +kernel
  have huntied : board.NoTieAcrossPages 2 := by
    have hcounts : (board.solvers.all fun u =>
        (board.solvers.countP fun v => board.solved u < board.solved v,
          board.solvers.countP fun v => board.solved u ≤ board.solved v) ∈
            [(0, 2), (2, 3)]) = true := by decide +kernel
    intro u hu p
    have hu := of_decide_eq_true (List.all_eq_true.1 hcounts u hu)
    rw [List.mem_cons, List.mem_singleton, Prod.mk.injEq, Prod.mk.injEq] at hu
    omega
  refine (pages_partition_iff board (some "2") numbered 2 (by decide +kernel)
    (by decide +kernel)).2 (by rwa [hsize]) _ fun p => ?_
  split
  · exact .refl _
  · exact List.reverse_perm _

/-- Two users with one solved problem each. -/
def tiedBoard : Db where
  users := [⟨"u1", "ann", none, 1⟩, ⟨"u2", "bob", none, 2⟩]
  submissions := [⟨"u1", "p1", "accepted"⟩, ⟨"u2", "p1", "accepted"⟩]
  unique := by decide
  hasUser := by decide

/-- With pages of one user, ann is on both pages and bob on none. -/
theorem tied_user_repeated :
    ¬∀ groups : Nat → List (String × String), (∀ p, (groups p).Perm tiedBoard.accepted) →
      tiedBoard.Partition (tiedBoard.allPages groups (fun p => ⟨numbered p, some "1"⟩) 2) := by
  intro h
  have husers := (h (fun p => if p = 0 then tiedBoard.accepted else tiedBoard.accepted.reverse)
    (fun p => by
      split
      · exact .refl _
      · exact List.reverse_perm _)).users
  have htwice : (tiedBoard.allPages
      (fun p => if p = 0 then tiedBoard.accepted else tiedBoard.accepted.reverse)
      (fun p => ⟨numbered p, some "1"⟩) 2).map (fun e => e.user.id) = ["u1", "u1"] := by
    decide +kernel
  rw [htwice] at husers
  have hnodup := husers.nodup_iff.2 tiedBoard.solvers_nodup
  exact absurd hnodup (by decide)

end Leetrank.SolvedLeaderboard
