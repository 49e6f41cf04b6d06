import Leetrank.Api.Pagination
import Leetrank.Leaderboard.Pages

namespace Leetrank.SolvedLeaderboard
set_option autoImplicit true
open InsertionOrder OrderBy

structure TopEntry where
  rank : Nat
  user : User
  solved : Nat
deriving DecidableEq

def topN : Nat := 10

/-- The top of the web application, and of the separate API, where the query returns the groups
given. -/
def Db.computeTop (db : Db) (accepted : List (String × String)) : List TopEntry :=
  let ids := (sortedUserIds accepted).take topN
  let users := db.findMany ids
  ids.zipIdx.filterMap fun (id, i) =>
    (users.find? fun u => u.id == id).map fun user =>
      ⟨i + 1, user, (AList.lookup id (solvedByUser accepted)).getD 0⟩

/-- `COUNT(DISTINCT s."problemId")` of the accepted submissions of a user. -/
def Db.distinctSolved (db : Db) (u : User) : Nat :=
  ((db.submissions.filter fun s => s.status == "accepted" && s.userId == u.id).map
    fun s => s.problemId).dedup.length

/-- The groups of the problems service, one for each user with an accepted submission. -/
def Db.topGroups (db : Db) : List User :=
  db.users.filter fun u => db.submissions.any fun s => s.status == "accepted" && s.userId == u.id

structure LeaderboardEntry where
  rank : Nat
  userId : String
  username : String
  avatar : Option String
  solved : Nat
deriving DecidableEq

/-- The top of the problems service, where the database returns its groups in the order given. -/
def Db.leaderboardTop (db : Db) (order : List User) (limit : String) : List LeaderboardEntry :=
  let limit := Pagination.clamp (Pagination.parseIntOr limit 10) 1 50
  (order.take limit.toInt.toNat).zipIdx.map fun (u, i) =>
    ⟨i + 1, u.id, u.username, u.avatar, db.distinctSolved u⟩

variable {db : Db} {rows : List (String × String)} {order : List User} {u : User}

/-- The two queries count the same. -/
theorem Db.distinctSolved_eq (db : Db) (u : User) : db.distinctSolved u = db.solved u.id := by
  have hinj : (db.accepted.filter fun row => row.1 = u.id).Pairwise fun a b => a.2 ≠ b.2 := by
    apply (db.accepted_nodup.filter _).imp_of_mem
    intro a b ha hb hne heq
    have ha := of_decide_eq_true (List.mem_filter.1 ha).2
    have hb := of_decide_eq_true (List.mem_filter.1 hb).2
    exact hne (Prod.ext (ha.trans hb.symm) heq)
  have hperm : ((db.submissions.filter fun s => s.status == "accepted" && s.userId == u.id).map
      fun s => s.problemId).dedup.Perm
        ((db.accepted.filter fun row => row.1 = u.id).map Prod.snd) := by
    rw [List.perm_ext_iff_of_nodup (List.nodup_dedup _) (List.pairwise_map.2 hinj)]
    intro problemId
    simp only [List.mem_dedup, List.mem_map, List.mem_filter, Bool.and_eq_true, beq_iff_eq,
      Db.accepted, decide_eq_true_eq, Prod.exists, Prod.mk.injEq]
    constructor
    · rintro ⟨s, ⟨hs, hst, hu⟩, rfl⟩
      exact ⟨s.userId, s.problemId, ⟨⟨s, ⟨hs, hst⟩, rfl, rfl⟩, hu⟩, rfl⟩
    · rintro ⟨_, _, ⟨⟨s, ⟨hs, hst⟩, rfl, rfl⟩, hu⟩, rfl⟩
      exact ⟨s, ⟨hs, hst, hu⟩, rfl⟩
  rw [Db.distinctSolved, hperm.length_eq, List.length_map, Db.solved, List.countP_eq_length_filter]

theorem Db.map_id_topGroups (db : Db) : db.topGroups.map (fun u => u.id) = db.solvers := by
  rw [Db.topGroups, Db.solvers, List.filter_map]
  rfl

/-- The groups of the problems service, as users in the order of what they have solved. -/
theorem topGroups_ordered (h : Ordered (OrderDual.toDual ∘ db.distinctSolved) db.topGroups order) :
    Ordered (OrderDual.toDual ∘ db.solved) db.solvers (order.map fun u => u.id) := by
  rw [← db.map_id_topGroups]
  exact h.map fun u _ => congrArg OrderDual.toDual (db.distinctSolved_eq u).symm

/-- The top of the web application is the first page of its leaderboard, with ten users. -/
theorem Db.computeTop_eq (db : Db) (rows : List (String × String)) :
    db.computeTop rows = (db.get rows ⟨none, some "10"⟩).leaderboard.map
      fun e => ⟨e.rank, e.user, e.solved⟩ := by
  have hsize : pageSize (some "10") = topN := by decide +kernel
  have hpage : parsePage none = 1 := by decide +kernel
  simp only [Db.computeTop, Db.get, hsize, hpage, Nat.sub_self, Nat.zero_mul, List.drop_zero,
    Nat.zero_add, List.map_filterMap, Option.map_map, Function.comp_def]

theorem Db.computeTop_forall₂ (hrows : rows.Perm db.accepted) :
    List.Forall₂ (fun x e => e.user.id = x.1 ∧ e.rank = x.2 + 1 ∧ e.solved = db.solved x.1)
      ((sortedUserIds rows).take topN).zipIdx (db.computeTop rows) := by
  have hsize : pageSize (some "10") = topN := by decide +kernel
  have hpage : parsePage none = 0 + 1 := by decide +kernel
  have h := db.get_page (r := ⟨none, some "10"⟩) hrows hpage
  simp only [hsize, Paging.page, Nat.zero_mul, List.drop_zero, Nat.zero_add] at h
  rw [db.computeTop_eq, List.forall₂_map_right_iff]
  exact h

/-- Ranks and solved counts, from the counts in their order. -/
def numberedCounts (counts : List Nat) : List (Nat × Nat) :=
  counts.zipIdx.map fun x => (x.2 + 1, x.1)

theorem numberedCounts_map (f : α → Nat) (l : List α) :
    numberedCounts (l.map f) = l.zipIdx.map fun x => (x.2 + 1, f x.1) := by
  rw [numberedCounts, List.zipIdx_map, List.map_map]
  rfl

theorem Db.computeTop_counts (hrows : rows.Perm db.accepted) :
    (db.computeTop rows).map (fun e => (e.rank, e.solved)) =
      numberedCounts (((sortedUserIds rows).take topN).map db.solved) := by
  rw [numberedCounts_map]
  apply map_eq_of_forall₂ (db.computeTop_forall₂ hrows)
  rintro x e ⟨-, hrank, hsolved⟩
  rw [hrank, hsolved]

theorem Db.computeTop_users (hrows : rows.Perm db.accepted) :
    (db.computeTop rows).map (fun e => e.user.id) = (sortedUserIds rows).take topN := by
  rw [map_eq_of_forall₂ (f := fun x => x.1) (db.computeTop_forall₂ hrows) fun _ _ h => h.1.symm]
  exact List.zipIdx_map_fst ..

theorem Db.leaderboardTop_eq (db : Db) (order : List User) :
    db.leaderboardTop order "" = (order.take topN).zipIdx.map fun x =>
      ⟨x.2 + 1, x.1.id, x.1.username, x.1.avatar, db.distinctSolved x.1⟩ := by
  have hlimit : (Pagination.clamp (Pagination.parseIntOr "" 10) 1 50).toInt.toNat = topN := by
    decide +kernel
  rw [Db.leaderboardTop, hlimit]

theorem Db.leaderboardTop_counts (db : Db) (order : List User) :
    (db.leaderboardTop order "").map (fun e => (e.rank, e.solved)) =
      numberedCounts (((order.map fun u => u.id).take topN).map db.solved) := by
  rw [← List.map_take, List.map_map, numberedCounts_map, db.leaderboardTop_eq, List.map_map]
  apply List.map_congr_left
  intro x _
  exact congrArg (Prod.mk _) (db.distinctSolved_eq x.1)

theorem Db.leaderboardTop_users (db : Db) (order : List User) :
    (db.leaderboardTop order "").map (fun e => e.userId) =
      (order.map fun u => u.id).take topN := by
  rw [← List.map_take, db.leaderboardTop_eq, List.map_map]
  conv =>
    rhs
    rw [← List.zipIdx_map_fst 0 (order.take topN), List.map_map]
  rfl

/-- Whatever the orders in which the databases return their groups, the top of the web application
and that of the problems service have the same ranks and solved counts, and the same users but for
those who tie across the end. -/
theorem tops_agree (hrows : rows.Perm db.accepted)
    (horder : Ordered (OrderDual.toDual ∘ db.distinctSolved) db.topGroups order) :
    (db.computeTop rows).map (fun e => (e.rank, e.solved)) =
        (db.leaderboardTop order "").map (fun e => (e.rank, e.solved)) ∧
      ∀ u ∈ db.solvers, topN ≤ db.solvers.countP (fun v => db.solved u < db.solved v) ∨
          db.solvers.countP (fun v => db.solved u ≤ db.solved v) ≤ topN →
        (u ∈ (db.computeTop rows).map (fun e => e.user.id) ↔
          u ∈ (db.leaderboardTop order "").map fun e => e.userId) := by
  have hweb := sortedUserIds_ordered hrows
  have hservice := topGroups_ordered horder
  constructor
  · have hcounts : (sortedUserIds rows).map db.solved = (order.map fun u => u.id).map db.solved :=
      hweb.map_key_eq hservice
    rw [db.computeTop_counts hrows, db.leaderboardTop_counts, List.map_take, List.map_take, hcounts]
  · intro u hu htie
    rw [db.computeTop_users hrows, db.leaderboardTop_users]
    exact (Paging.mem_take_iff_of_untied hweb db.solvers_nodup hu htie).trans
      (Paging.mem_take_iff_of_untied hservice db.solvers_nodup hu htie).symm

/-- Two users who have solved one problem each may stand in either order. -/
theorem tops_agree_tied :
    (tiedBoard.computeTop tiedBoard.accepted).map (fun e => (e.rank, e.solved)) =
      (tiedBoard.leaderboardTop tiedBoard.users.reverse "").map fun e => (e.rank, e.solved) := by
  have horder : Ordered (OrderDual.toDual ∘ tiedBoard.distinctSolved) tiedBoard.topGroups
      tiedBoard.users.reverse := by
    constructor
    · exact List.reverse_perm tiedBoard.users
    · decide +kernel
  exact (tops_agree (.refl _) horder).1

end Leetrank.SolvedLeaderboard
