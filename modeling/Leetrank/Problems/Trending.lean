import Leetrank.Api.Pagination
import Leetrank.Library.Paging
import Leetrank.Strings
import Mathlib.Algebra.Order.Ring.Rat
import Mathlib.Data.List.Dedup
import Mathlib.Data.Prod.Lex
import Mathlib.Order.OrderDual

namespace Leetrank.Trending
set_option autoImplicit true

open OrderBy

structure Problem where
  id : String
  title : String
  slug : String
  difficulty : String
deriving DecidableEq

structure Submission where
  problemId : String
  status : String
  createdAt : Nat

/-- What the trending lists read; a submission refers to its problem. -/
structure Db where
  problems : List Problem
  submissions : List Submission
  unique : (problems.map fun p => p.id).Nodup
  hasProblem : ∀ s ∈ submissions, ∃ p ∈ problems, p.id = s.problemId

def windowMs : Nat := 7 * 24 * 60 * 60 * 1000

def Submission.recent (now : Nat) (s : Submission) : Bool := decide (now ≤ s.createdAt + windowMs)

def Submission.accepted (now : Nat) (s : Submission) : Bool :=
  s.status == "accepted" && s.recent now

def Db.acceptedOf (db : Db) (now : Nat) (id : String) : Nat :=
  db.submissions.countP fun s => s.accepted now && s.problemId == id

def Db.recentOf (db : Db) (now : Nat) (id : String) : Nat :=
  db.submissions.countP fun s => s.recent now && s.problemId == id

structure TrendingProblem where
  problem : Problem
  recentAccepted : Nat
deriving DecidableEq

/-- The limit of the web application. -/
def webLimit (raw : Option String) : Nat :=
  (min 30 (max 1 (((parseInt (raw.getD "10")).filter (· ≠ 0)).getD 10))).toNat

/-- `groupBy` of the recent accepted submissions. -/
def Db.groups (db : Db) (now : Nat) : List (String × Nat) :=
  ((db.submissions.filter fun s => s.accepted now).map fun s => s.problemId).dedup.map
    fun id => (id, db.acceptedOf now id)

def Db.findMany (db : Db) (ids : List String) : List Problem :=
  db.problems.filter fun p => ids.contains p.id

/-- The list of the web application, where the database returns its groups in the order given. -/
def Db.computeTrending (db : Db) (order : List (String × Nat)) (limit : Nat) :
    List TrendingProblem :=
  let groups := order.take limit
  let problems := db.findMany (groups.map Prod.fst)
  groups.filterMap fun g =>
    (problems.find? fun p => p.id == g.1).map fun p => ⟨p, g.2⟩

structure TrendingItem where
  problem : Problem
  acceptanceRate : ℚ
  recentAccepted : Nat

/-- A group of the problems service. -/
structure TrendingRow where
  problem : Problem
  recentAccepted : Nat
  recentTotal : Nat

/-- The limit of the problems service. -/
def serviceLimit (raw : String) : Nat :=
  (Pagination.clamp (Pagination.parseIntOr raw 10) 1 50).toInt.toNat

def Db.rows (db : Db) (now : Nat) : List TrendingRow :=
  (db.problems.filter fun p => 0 < db.recentOf now p.id).map fun p =>
    ⟨p, db.acceptedOf now p.id, db.recentOf now p.id⟩

/-- `ORDER BY recent_accepted DESC, recent_total DESC` -/
def TrendingRow.key (r : TrendingRow) : Natᵒᵈ ×ₗ Natᵒᵈ :=
  toLex (OrderDual.toDual r.recentAccepted, OrderDual.toDual r.recentTotal)

def TrendingRow.item (r : TrendingRow) : TrendingItem where
  problem := r.problem
  acceptanceRate := if 0 < r.recentTotal then r.recentAccepted / r.recentTotal else 0
  recentAccepted := r.recentAccepted

/-- The list of the problems service, where the database returns its rows in the order given. -/
def trending (order : List TrendingRow) (limit : Nat) : List TrendingItem :=
  (order.take limit).map TrendingRow.item

/-- An item of the problems service as the web application has it. -/
def TrendingItem.forWeb (item : TrendingItem) : TrendingProblem :=
  ⟨item.problem, item.recentAccepted⟩

def TrendingItem.solved (item : TrendingItem) : Bool := decide (0 < item.recentAccepted)

/-- The orders in which the database may return the groups of the web application. -/
abbrev Db.WebOrder (db : Db) (now : Nat) (order : List (String × Nat)) : Prop :=
  Ordered (OrderDual.toDual ∘ Prod.snd) (db.groups now) order

/-- The orders in which it may return the rows of the problems service. -/
abbrev Db.ServiceOrder (db : Db) (now : Nat) (order : List TrendingRow) : Prop :=
  Ordered TrendingRow.key (db.rows now) order

variable {db : Db} {now limit : Nat} {groups : List (String × Nat)} {order : List TrendingRow}

theorem Db.acceptedOf_pos_iff {id : String} : 0 < db.acceptedOf now id ↔
    id ∈ (db.submissions.filter fun s => s.accepted now).map fun s => s.problemId := by
  simp only [Db.acceptedOf, List.countP_pos_iff, List.mem_map, List.mem_filter, Bool.and_eq_true,
    beq_iff_eq]
  exact ⟨fun ⟨s, hs, ha, hid⟩ => ⟨s, ⟨hs, ha⟩, hid⟩, fun ⟨s, ⟨hs, ha⟩, hid⟩ => ⟨s, hs, ha, hid⟩⟩

theorem Db.acceptedOf_le (db : Db) (now : Nat) (id : String) :
    db.acceptedOf now id ≤ db.recentOf now id := by
  apply List.countP_mono_left
  intro s _ hs
  rw [Bool.and_eq_true, Submission.accepted, Bool.and_eq_true] at hs
  rw [Bool.and_eq_true]
  exact ⟨hs.1.2, hs.2⟩

/-- The problems of the two queries that have been solved are the same. -/
theorem Db.solved_perm (db : Db) (now : Nat) :
    ((db.problems.filter fun p => 0 < db.acceptedOf now p.id).map fun p => p.id).Perm
      ((db.submissions.filter fun s => s.accepted now).map fun s => s.problemId).dedup := by
  have hnodup : ((db.problems.filter fun p => 0 < db.acceptedOf now p.id).map
      fun p => p.id).Nodup := db.unique.sublist (List.filter_sublist.map _)
  rw [List.perm_ext_iff_of_nodup hnodup (List.nodup_dedup _)]
  intro id
  rw [List.mem_dedup, ← Db.acceptedOf_pos_iff, List.mem_map]
  constructor
  · rintro ⟨p, hp, rfl⟩
    exact of_decide_eq_true (List.mem_filter.1 hp).2
  · intro hpos
    obtain ⟨s, hs, rfl⟩ := List.mem_map.1 (Db.acceptedOf_pos_iff.1 hpos)
    obtain ⟨p, hp, hid⟩ := db.hasProblem s (List.mem_of_mem_filter hs)
    exact ⟨p, List.mem_filter.2 ⟨hp, decide_eq_true (hid ▸ hpos)⟩, hid⟩

def TrendingRow.solved (r : TrendingRow) : Bool := decide (0 < r.recentAccepted)

def TrendingRow.group (r : TrendingRow) : String × Nat := (r.problem.id, r.recentAccepted)

theorem Db.solved_rows (db : Db) (now : Nat) :
    ((db.rows now).filter TrendingRow.solved).map TrendingRow.group =
      ((db.problems.filter fun p => 0 < db.acceptedOf now p.id).map fun p => p.id).map
        fun id => (id, db.acceptedOf now id) := by
  have hboth : (fun p : Problem => decide (0 < db.acceptedOf now p.id) &&
      decide (0 < db.recentOf now p.id)) = fun p => decide (0 < db.acceptedOf now p.id) := by
    funext p
    have hle := db.acceptedOf_le now p.id
    rw [← Bool.decide_and]
    congr 1
    exact propext ⟨And.left, fun h => ⟨h, h.trans_le hle⟩⟩
  rw [Db.rows, List.filter_map, List.map_map, List.map_map]
  change ((db.problems.filter fun p => decide (0 < db.recentOf now p.id)).filter
    fun p => decide (0 < db.acceptedOf now p.id)).map _ = _
  rw [List.filter_filter, hboth]
  rfl

theorem TrendingRow.le_of_key {a b : TrendingRow} (h : a.key ≤ b.key) :
    b.recentAccepted ≤ a.recentAccepted := by
  rcases Prod.Lex.le_iff.1 h with hlt | ⟨heq, -⟩
  · exact hlt.le
  · exact heq.le

/-- The solved problems of the service, as groups of the web application. -/
theorem Db.ServiceOrder.webOrder (h : db.ServiceOrder now order) :
    db.WebOrder now ((order.filter TrendingRow.solved).map TrendingRow.group) where
  perm := by
    have hrows := (h.perm.filter TrendingRow.solved).map TrendingRow.group
    rw [db.solved_rows now] at hrows
    exact hrows.trans ((db.solved_perm now).map _)
  sorted := by
    rw [List.pairwise_map]
    exact (h.sorted.filter _).imp TrendingRow.le_of_key

theorem Db.ServiceOrder.solved_first (h : db.ServiceOrder now order) :
    order.Pairwise fun a b => b.solved → a.solved := by
  apply h.sorted.imp
  intro a b hab hb
  exact decide_eq_true ((of_decide_eq_true hb).trans_le (TrendingRow.le_of_key hab))

theorem Db.find_problem (db : Db) {p : Problem} {ids : List String} (hp : p ∈ db.problems)
    (hids : p.id ∈ ids) : (db.findMany ids).find? (fun q => q.id == p.id) = some p := by
  have hfound : p ∈ db.findMany ids := List.mem_filter.2 ⟨hp, List.elem_eq_true_of_mem hids⟩
  have hsome : ((db.findMany ids).find? fun q => q.id == p.id).isSome = true :=
    List.find?_isSome.2 ⟨p, hfound, beq_self_eq_true _⟩
  obtain ⟨q, hq⟩ := Option.isSome_iff_exists.1 hsome
  have hmem := List.mem_of_mem_filter (List.mem_of_find?_eq_some hq)
  have hid : (q.id == p.id) = true := List.find?_some (p := fun q : Problem => q.id == p.id) hq
  have hid := beq_iff_eq.1 hid
  rw [hq, List.inj_on_of_nodup_map db.unique hmem hp hid]

/-- Where every group is of a problem that is there, none is dropped. -/
theorem Db.computeTrending_map {l : List α} {group : α → String × Nat} {problem : α → Problem}
    (h : ∀ a ∈ l, problem a ∈ db.problems ∧ (problem a).id = (group a).1) (limit : Nat) :
    db.computeTrending (l.map group) limit =
      (l.take limit).map fun a => ⟨problem a, (group a).2⟩ := by
  have hfind : ∀ a ∈ l.take limit, ((db.findMany (((l.take limit).map group).map
      Prod.fst)).find? fun p => p.id == (group a).1) = some (problem a) := by
    intro a ha
    obtain ⟨hproblem, hid⟩ := h a (List.mem_of_mem_take ha)
    rw [← hid]
    apply db.find_problem hproblem
    rw [hid]
    exact List.mem_map_of_mem (List.mem_map_of_mem ha)
  rw [Db.computeTrending, ← List.map_take, List.filterMap_map]
  calc
    _ = (l.take limit).filterMap
        fun a => some (⟨problem a, (group a).2⟩ : TrendingProblem) := by
      apply List.filterMap_congr
      intro a ha
      exact congrArg (Option.map fun p => (⟨p, (group a).2⟩ : TrendingProblem)) (hfind a ha)
    _ = (l.take limit).map fun a => ⟨problem a, (group a).2⟩ :=
      congrFun List.filterMap_eq_map _

/-- Every group is of a problem, so the list has the counts of the groups. -/
theorem Db.WebOrder.counts (h : db.WebOrder now groups) (limit : Nat) :
    (db.computeTrending groups limit).map (fun p => p.recentAccepted) =
      (groups.take limit).map Prod.snd := by
  have hproblem : ∀ g ∈ groups, ∃ p, p ∈ db.problems ∧ p.id = g.1 := by
    intro g hg
    obtain ⟨id, hid, rfl⟩ := List.mem_map.1 (h.perm.mem_iff.1 hg)
    obtain ⟨s, hs, rfl⟩ := List.mem_map.1 (List.mem_dedup.1 hid)
    exact db.hasProblem s (List.mem_of_mem_filter hs)
  have : Nonempty Problem := ⟨⟨"", "", "", ""⟩⟩
  choose! problem hproblem using hproblem
  have hlist : db.computeTrending (groups.map id) limit =
      (groups.take limit).map fun g => ⟨problem g, g.2⟩ := db.computeTrending_map hproblem limit
  rw [List.map_id] at hlist
  rw [hlist, List.map_map]
  rfl

/-- The web application and the problems service list the same problems with the same counts, as far
as they have been solved, up to the order of those that tie in the counts: the list of the service
without the problems that nobody has solved is one that the web application may give as well, and
every one that it may give has the same counts. -/
theorem trending_agree (h : db.ServiceOrder now order) (raw : Option String) (raw' : String)
    (hlimit : webLimit raw = serviceLimit raw') :
    (∃ groups, db.WebOrder now groups ∧ db.computeTrending groups (webLimit raw) =
        ((trending order (serviceLimit raw')).filter TrendingItem.solved).map
          TrendingItem.forWeb) ∧
      ∀ groups, db.WebOrder now groups →
        (db.computeTrending groups (webLimit raw)).map (fun p => p.recentAccepted) =
          ((trending order (serviceLimit raw')).filter TrendingItem.solved).map
            fun item => item.recentAccepted := by
  have hproblem : ∀ r ∈ order.filter TrendingRow.solved,
      r.problem ∈ db.problems ∧ r.problem.id = r.group.1 := by
    intro r hr
    obtain ⟨p, hp, rfl⟩ := List.mem_map.1 (h.perm.mem_iff.1 (List.mem_of_mem_filter hr))
    exact ⟨List.mem_of_mem_filter hp, rfl⟩
  have hshown : (trending order (serviceLimit raw')).filter TrendingItem.solved =
      ((order.filter TrendingRow.solved).take (webLimit raw)).map TrendingRow.item := by
    rw [trending, List.filter_map, hlimit,
      ← Paging.filter_take_of_pairwise h.solved_first (serviceLimit raw')]
    rfl
  rw [hshown, List.map_map, List.map_map]
  constructor
  · exact ⟨_, h.webOrder, db.computeTrending_map hproblem _⟩
  · intro groups hgroups
    have hcounts : groups.map Prod.snd =
        ((order.filter TrendingRow.solved).map TrendingRow.group).map Prod.snd :=
      hgroups.map_key_eq h.webOrder
    rw [hgroups.counts, List.map_take, hcounts, List.map_map, ← List.map_take]
    rfl

/-- Two problems solved once each, and one that was only tried. -/
def tiedDb : Db where
  problems := [⟨"a", "A", "a", "easy"⟩, ⟨"b", "B", "b", "hard"⟩, ⟨"c", "C", "c", "hard"⟩]
  submissions := [⟨"a", "accepted", 0⟩, ⟨"c", "wrong_answer", 0⟩, ⟨"b", "accepted", 0⟩,
    ⟨"b", "wrong_answer", 0⟩]
  unique := by decide +kernel
  hasProblem := by decide +kernel

theorem trending_agree_tied :
    (tiedDb.computeTrending [("a", 1), ("b", 1)] (webLimit (some "1"))).map
        (fun p => p.recentAccepted) =
      ((trending [⟨⟨"b", "B", "b", "hard"⟩, 1, 2⟩, ⟨⟨"a", "A", "a", "easy"⟩, 1, 1⟩,
        ⟨⟨"c", "C", "c", "hard"⟩, 0, 1⟩] (serviceLimit "1")).filter TrendingItem.solved).map
          fun item => item.recentAccepted := by
  have hservice : tiedDb.ServiceOrder 0 [⟨⟨"b", "B", "b", "hard"⟩, 1, 2⟩,
      ⟨⟨"a", "A", "a", "easy"⟩, 1, 1⟩, ⟨⟨"c", "C", "c", "hard"⟩, 0, 1⟩] := by
    constructor
    · exact List.Perm.swap _ _ _
    · decide +kernel
  have hweb : tiedDb.WebOrder 0 [("a", 1), ("b", 1)] := by
    constructor
    · exact List.Perm.refl _
    · decide +kernel
  exact (trending_agree hservice (some "1") "1" (by decide +kernel)).2 _ hweb

end Leetrank.Trending
