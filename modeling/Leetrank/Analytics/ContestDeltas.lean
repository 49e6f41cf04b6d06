import Leetrank.Library.Paging
import Leetrank.Library.Ranking
import Mathlib.Algebra.BigOperators.Group.List.Basic
import Mathlib.Algebra.Order.Ring.Int
import Mathlib.Data.List.Dedup
import Mathlib.Data.List.Induction

namespace Leetrank.ContestDeltas
set_option autoImplicit true

open Paging Ranking

/-- A row of `ContestStanding` with the name of its user. -/
structure StandingRow where
  username : String
  score : Int
  snapshotAt : Nat

/-- The keys of `snapshots`, sorted. -/
def timestamps (rows : List StandingRow) : List Nat :=
  (rows.map fun r => r.snapshotAt).dedup.mergeSort fun a b => a ≤ b

/-- The users and scores of a snapshot, in the order of the rows. -/
def snapshot (rows : List StandingRow) (ts : Nat) : List (String × Int) :=
  (rows.filter fun r => r.snapshotAt = ts).map fun r => (r.username, r.score)

/-- `sorted(users, key=lambda x: -x[1])`. -/
def sortedUsers (users : List (String × Int)) : List (String × Int) :=
  users.mergeSort fun x y => decide (-x.2 ≤ -y.2)

/-- `{u: i + 1 for i, (u, _) in enumerate(users)}`, in which the last one of a user counts. -/
def enumerateRanks (users : List (String × Int)) : String → Option Nat :=
  users.zipIdx.foldl (fun ranks x => Function.update ranks x.1.1 (some (x.2 + 1))) fun _ => none

def ranksAt (rows : List StandingRow) (ts : Nat) : String → Option Nat :=
  enumerateRanks (sortedUsers (snapshot rows ts))

structure ContestDelta where
  username : String
  previousRank : Option Nat
  currentRank : Option Nat
  delta : Option Int

def rankDelta (prev cur : String → Option Nat) (u : String) : ContestDelta where
  username := u
  previousRank := prev u
  currentRank := cur u
  delta := (prev u).bind fun p => (cur u).map fun c : Nat => (p : Int) - (c : Int)

/-- The key of the sort, a rank that is there before one that is not. -/
def ContestDelta.sortKey (d : ContestDelta) : Nat × Nat :=
  (if d.currentRank.isNone then 1 else 0, d.currentRank.getD 0)

def ContestDelta.sortLe (d d' : ContestDelta) : Bool :=
  d.sortKey.1 < d'.sortKey.1 || (d.sortKey.1 == d'.sortKey.1 && d.sortKey.2 ≤ d'.sortKey.2)

/-- The timestamps of the last two snapshots. -/
def lastTwo (rows : List StandingRow) : Option (Nat × Nat) :=
  match (timestamps rows).reverse with
  | cur :: prev :: _ => some (prev, cur)
  | _ => none

structure ContestDeltasReply where
  snapshots : List Nat
  deltas : List ContestDelta

/-- `contest_deltas`; `users` is the set of the users of the last two snapshots, in the order in
which it happens to be gone through. -/
def contestDeltas (rows : List StandingRow) (users : List String) : ContestDeltasReply where
  snapshots := timestamps rows
  deltas :=
    match lastTwo rows with
    | none => []
    | some (prev, cur) =>
      (users.map (rankDelta (ranksAt rows prev) (ranksAt rows cur))).mergeSort ContestDelta.sortLe

/-- A list that the set of the users may be gone through as. -/
structure AllUsers (rows : List StandingRow) (users : List String) : Prop where
  nodup : users.Nodup
  mem : ∀ prev cur, lastTwo rows = some (prev, cur) →
    ∀ u, u ∈ users ↔ ranksAt rows prev u ≠ none ∨ ranksAt rows cur u ≠ none

structure StandingsDeltasReply where
  snapshots : List Nat
  page : Int
  pageSize : Int
  totalMovers : Nat
  totalFallers : Nat
  topMovers : List ContestDelta
  biggestFallers : List ContestDelta

/-- `l[start:stop]` for positions that are not negative. -/
def slice (l : List α) (start stop : Int) : List α :=
  (l.drop start.toNat).take (stop.toNat - start.toNat)

def moversOf (deltas : List ContestDelta) : List ContestDelta :=
  (deltas.filter fun d => d.delta.isSome).mergeSort fun d d' => -d.delta.getD 0 ≤ -d'.delta.getD 0

def fallersOf (deltas : List ContestDelta) : List ContestDelta :=
  (deltas.filter fun d => d.delta.isSome).mergeSort fun d d' => d.delta.getD 0 ≤ d'.delta.getD 0

def contestStandingsDeltas (rows : List StandingRow) (users : List String) (page pageSize : Int) :
    StandingsDeltasReply :=
  let page := max 1 page
  let pageSize := max 1 (min pageSize 100)
  let raw := contestDeltas rows users
  let start := (page - 1) * pageSize
  { snapshots := raw.snapshots
    page := page
    pageSize := pageSize
    totalMovers := (moversOf raw.deltas).length
    totalFallers := (fallersOf raw.deltas).length
    topMovers := slice (moversOf raw.deltas) start (start + pageSize)
    biggestFallers := slice (fallersOf raw.deltas) start (start + pageSize) }

section

variable {rows : List StandingRow} {users : List (String × Int)} {u v : String}

/-- The rank of a user is the last place at which the user stands. -/
theorem enumerateRanks_some (h : enumerateRanks users u = some k) :
    ∃ i, k = i + 1 ∧ users[i]?.map Prod.fst = some u := by
  unfold enumerateRanks at h
  induction users using List.reverseRecOn generalizing k with
  | nil => cases h
  | append_singleton users x ih =>
    rw [List.zipIdx_append, List.foldl_append, List.zipIdx_singleton, List.foldl_cons,
      List.foldl_nil] at h
    by_cases hu : u = x.1
    · subst hu
      rw [Function.update_self] at h
      cases h
      exact ⟨users.length, by simp, by simp⟩
    · rw [Function.update_of_ne hu] at h
      obtain ⟨i, hk, hi⟩ := ih h
      obtain ⟨y, hy, hfst⟩ := Option.map_eq_some_iff.1 hi
      have hlt := (List.getElem?_eq_some_iff.1 hy).1
      exact ⟨i, hk, by rw [List.getElem?_append_left hlt, hy, ← hfst]; rfl⟩

theorem enumerateRanks_isSome_iff : enumerateRanks users u ≠ none ↔ u ∈ users.map Prod.fst := by
  unfold enumerateRanks
  induction users using List.reverseRecOn with
  | nil => simp
  | append_singleton users x ih =>
    rw [List.zipIdx_append, List.foldl_append, List.zipIdx_singleton, List.foldl_cons,
      List.foldl_nil, List.map_append, List.mem_append]
    by_cases hu : u = x.1
    · subst hu
      rw [Function.update_self]
      simp
    · rw [Function.update_of_ne hu, ih]
      simp [hu]

/-- Two users never have the same rank, even if a user stands in a snapshot twice. -/
theorem enumerateRanks_inj (hu : enumerateRanks users u = some k)
    (hv : enumerateRanks users v = some k) : u = v := by
  obtain ⟨i, hki, hi⟩ := enumerateRanks_some hu
  obtain ⟨j, hkj, hj⟩ := enumerateRanks_some hv
  have hij : i = j := by omega
  subst hij
  rw [hi] at hj
  exact Option.some.inj hj

/-- The users of both snapshots, the best current rank first. -/
def ranked (prev cur : String → Option Nat) (users : List String) : List ContestDelta :=
  ((users.map (rankDelta prev cur)).mergeSort ContestDelta.sortLe).filter fun d => d.delta.isSome

variable {prev cur : String → Option Nat}

theorem rankDelta_isSome (h : (rankDelta prev cur u).delta.isSome = true) :
    ∃ p c : Nat, prev u = some p ∧ cur u = some c ∧
      rankDelta prev cur u = ⟨u, some p, some c, some ((p : Int) - c)⟩ := by
  unfold rankDelta at h ⊢
  cases hp : prev u with
  | none => simp [hp] at h
  | some p =>
    cases hc : cur u with
    | none => simp [hp, hc] at h
    | some c => exact ⟨p, c, rfl, rfl, by simp⟩

theorem sortLe_iff {d d' : ContestDelta} : d.sortLe d' = true ↔
    d.sortKey.1 < d'.sortKey.1 ∨ d.sortKey.1 = d'.sortKey.1 ∧ d.sortKey.2 ≤ d'.sortKey.2 := by
  simp [ContestDelta.sortLe]

theorem mem_ranked {order : List String} {d : ContestDelta} :
    d ∈ ranked prev cur order ↔
      ∃ u ∈ order, ∃ p c : Nat, prev u = some p ∧ cur u = some c ∧
        d = ⟨u, some p, some c, some ((p : Int) - c)⟩ := by
  rw [ranked, List.mem_filter, List.mem_mergeSort, List.mem_map]
  constructor
  · rintro ⟨⟨u, hu, rfl⟩, hsome⟩
    obtain ⟨p, c, hp, hc, heq⟩ := rankDelta_isSome hsome
    exact ⟨u, hu, p, c, hp, hc, heq⟩
  · rintro ⟨u, hu, p, c, hp, hc, rfl⟩
    refine ⟨⟨u, hu, ?_⟩, rfl⟩
    simp [rankDelta, hp, hc]

theorem ranked_perm {order order' : List String} (h : order.Perm order') :
    (ranked prev cur order).Perm (ranked prev cur order') :=
  (((List.mergeSort_perm ..).trans (h.map _)).trans (List.mergeSort_perm ..).symm).filter _

/-- The current ranks of the list go up. -/
theorem ranked_sorted {order : List String} (hnodup : order.Nodup)
    (hinj : ∀ u v k, cur u = some k → cur v = some k → u = v) :
    (ranked prev cur order).Pairwise fun d d' => d.currentRank.getD 0 < d'.currentRank.getD 0 := by
  have htrans : ∀ a b c : ContestDelta, a.sortLe b → b.sortLe c → a.sortLe c := by
    simp only [sortLe_iff]
    omega
  have htotal : ∀ a b : ContestDelta, a.sortLe b || b.sortLe a := by
    simp only [Bool.or_eq_true, sortLe_iff]
    omega
  have hsorted := List.pairwise_mergeSort htrans htotal (order.map (rankDelta prev cur))
  have hnames : ((order.map (rankDelta prev cur)).mergeSort ContestDelta.sortLe).Pairwise
      fun d d' => d.username ≠ d'.username := by
    rw [(List.mergeSort_perm ..).pairwise_iff fun h => h.symm, List.pairwise_map]
    exact hnodup
  refine ((hsorted.and hnames).filter _).imp_of_mem ?_
  rintro d d' hd hd' ⟨hle, hne⟩
  obtain ⟨u, -, p, c, -, hc, rfl⟩ := mem_ranked.1 hd
  obtain ⟨u', -, p', c', -, hc', rfl⟩ := mem_ranked.1 hd'
  have hcc : c ≠ c' := by
    rintro rfl
    exact hne (hinj u u' c hc hc')
  have hle' := sortLe_iff.1 hle
  simp only [ContestDelta.sortKey, Option.isNone_some, Option.getD_some] at hle' ⊢
  omega

/-- The order of a list of deltas by a score, ties going to the better current rank. -/
def Before (f : ContestDelta → Int) : ContestDelta → ContestDelta → Prop :=
  Descending f fun d d' => d.currentRank.getD 0 < d'.currentRank.getD 0

theorem sort_before {l : List ContestDelta} {le : ContestDelta → ContestDelta → Bool}
    {f : ContestDelta → Int}
    (hl : l.Pairwise fun d d' => d.currentRank.getD 0 < d'.currentRank.getD 0)
    (hle : ∀ d d', le d d' = true ↔ f d' ≤ f d) : (l.mergeSort le).Pairwise (Before f) := by
  have htrans : ∀ a b c, le a b → le b c → le a c := by
    simp only [hle]
    exact fun a b c hab hbc => hbc.trans hab
  have htotal : ∀ a b, le a b || le b a := by
    simp only [Bool.or_eq_true, hle]
    exact fun a b => le_total _ _
  refine (pairwise_mergeSort_stable htrans htotal hl).imp ?_
  rintro d d' ⟨hdd, htie⟩
  rw [hle] at hdd htie
  rcases hdd.lt_or_eq with hlt | heq
  · exact .inl hlt
  · exact .inr ⟨heq, htie heq.ge⟩

theorem before_unique {f : ContestDelta → Int} {l l' : List ContestDelta} (hp : l.Perm l')
    (hl : l.Pairwise (Before f)) (hl' : l'.Pairwise (Before f)) : l = l' := by
  refine List.Perm.eq_of_pairwise ?_ hl hl' hp
  intro d d' _ _ hdd hdd'
  exact absurd hdd' (hdd.asymm fun hlt => lt_asymm hlt)

theorem moversOf_sorted {l : List ContestDelta} (hl : (l.filter fun d => d.delta.isSome).Pairwise
    fun d d' => d.currentRank.getD 0 < d'.currentRank.getD 0) :
    (moversOf l).Pairwise (Before fun d => d.delta.getD 0) :=
  sort_before hl fun d d' => by rw [decide_eq_true_eq, neg_le_neg_iff]

theorem fallersOf_sorted {l : List ContestDelta} (hl : (l.filter fun d => d.delta.isSome).Pairwise
    fun d d' => d.currentRank.getD 0 < d'.currentRank.getD 0) :
    (fallersOf l).Pairwise (Before fun d => -d.delta.getD 0) :=
  sort_before hl fun d d' => by rw [decide_eq_true_eq, neg_le_neg_iff]

theorem slice_page (l : List α) {page size : Int} (hpage : 1 ≤ page) (hsize : 1 ≤ size) :
    slice l ((page - 1) * size) ((page - 1) * size + size) =
      Paging.page size.toNat l (page - 1).toNat := by
  have hstart : ((page - 1) * size).toNat = (page - 1).toNat * size.toNat :=
    Int.toNat_mul (by omega) (by omega)
  have hnonneg : 0 ≤ (page - 1) * size := Int.mul_nonneg (by omega) (by omega)
  have hlength : ((page - 1) * size + size).toNat - ((page - 1) * size).toNat = size.toNat := by
    omega
  rw [slice, Paging.page, hlength, hstart]

theorem ranksAt_ne_none {ts : Nat} :
    ranksAt rows ts u ≠ none ↔ u ∈ (snapshot rows ts).map Prod.fst := by
  rw [ranksAt, enumerateRanks_isSome_iff, sortedUsers]
  exact ((List.mergeSort_perm ..).map Prod.fst).mem_iff

/-- The set can be gone through in some order. -/
theorem exists_allUsers (rows : List StandingRow) : ∃ users, AllUsers rows users := by
  cases hlast : lastTwo rows with
  | none => exact ⟨[], .nil, fun prev cur h => nomatch hlast.symm.trans h⟩
  | some ts =>
    obtain ⟨prev, cur⟩ := ts
    refine ⟨((snapshot rows prev).map Prod.fst ++ (snapshot rows cur).map Prod.fst).dedup,
      List.nodup_dedup _, fun prev' cur' h u => ?_⟩
    cases hlast.symm.trans h
    rw [List.mem_dedup, List.mem_append, ranksAt_ne_none, ranksAt_ne_none]

theorem contestDeltas_filter (hlast : lastTwo rows = some (t, t')) (users : List String) :
    ((contestDeltas rows users).deltas.filter fun d => d.delta.isSome) =
      ranked (ranksAt rows t) (ranksAt rows t') users := by
  rw [contestDeltas, hlast]
  rfl

theorem contestDeltas_none (hlast : lastTwo rows = none) (users : List String) :
    (contestDeltas rows users).deltas = [] := by
  rw [contestDeltas, hlast]

theorem AllUsers.sorted {users : List String} (h : AllUsers rows users) :
    ((contestDeltas rows users).deltas.filter fun d => d.delta.isSome).Pairwise
      fun d d' => d.currentRank.getD 0 < d'.currentRank.getD 0 := by
  cases hlast : lastTwo rows with
  | none =>
    rw [contestDeltas_none hlast]
    exact .nil
  | some ts =>
    rw [contestDeltas_filter hlast]
    exact ranked_sorted h.nodup fun u v k => enumerateRanks_inj

theorem AllUsers.perm {users users' : List String} (h : AllUsers rows users)
    (h' : AllUsers rows users') :
    ((contestDeltas rows users).deltas.filter fun d => d.delta.isSome).Perm
      ((contestDeltas rows users').deltas.filter fun d => d.delta.isSome) := by
  cases hlast : lastTwo rows with
  | none => rw [contestDeltas_none hlast, contestDeltas_none hlast]
  | some ts =>
    rw [contestDeltas_filter hlast, contestDeltas_filter hlast]
    refine ranked_perm ((List.perm_ext_iff_of_nodup h.nodup h'.nodup).2 fun u => ?_)
    exact (h.mem _ _ hlast u).trans (h'.mem _ _ hlast u).symm

theorem AllUsers.mem_filter {users : List String} (h : AllUsers rows users) (d : ContestDelta) :
    d ∈ ((contestDeltas rows users).deltas.filter fun d => d.delta.isSome) ↔
      ∃ prev cur u, ∃ p c : Nat, lastTwo rows = some (prev, cur) ∧ ranksAt rows prev u = some p ∧
        ranksAt rows cur u = some c ∧ d = ⟨u, some p, some c, some ((p : Int) - c)⟩ := by
  cases hlast : lastTwo rows with
  | none =>
    rw [contestDeltas_none hlast]
    refine iff_of_false List.not_mem_nil ?_
    rintro ⟨_, _, _, _, _, hsome, -⟩
    cases hsome
  | some ts =>
    rw [contestDeltas_filter hlast, mem_ranked]
    constructor
    · rintro ⟨u, -, p, c, hp, hc, rfl⟩
      exact ⟨ts.1, ts.2, u, p, c, rfl, hp, hc, rfl⟩
    · rintro ⟨_, _, u, p, c, hts, hp, hc, rfl⟩
      cases hts
      refine ⟨u, (h.mem _ _ hlast u).2 (.inl ?_), p, c, hp, hc, rfl⟩
      rw [hp]
      nofun

theorem AllUsers.movers_eq {users users' : List String} (h : AllUsers rows users)
    (h' : AllUsers rows users') :
    moversOf (contestDeltas rows users).deltas = moversOf (contestDeltas rows users').deltas :=
  before_unique (((List.mergeSort_perm ..).trans (h.perm h')).trans (List.mergeSort_perm ..).symm)
    (moversOf_sorted h.sorted) (moversOf_sorted h'.sorted)

theorem AllUsers.fallers_eq {users users' : List String} (h : AllUsers rows users)
    (h' : AllUsers rows users') :
    fallersOf (contestDeltas rows users).deltas = fallersOf (contestDeltas rows users').deltas :=
  before_unique (((List.mergeSort_perm ..).trans (h.perm h')).trans (List.mergeSort_perm ..).symm)
    (fallersOf_sorted h.sorted) (fallersOf_sorted h'.sorted)

/-- Whatever order the set of the users comes in, the pages are those of two fixed lists of the
users in both snapshots, from the greatest rise and from the greatest fall on. -/
theorem standingsDeltas_pages (rows : List StandingRow) : ∃ movers fallers : List ContestDelta,
    (∀ users, AllUsers rows users → ∀ page pageSize,
      contestStandingsDeltas rows users page pageSize =
        ⟨timestamps rows, max 1 page, max 1 (min pageSize 100), movers.length, fallers.length,
          Paging.page (max 1 (min pageSize 100)).toNat movers (max 1 page - 1).toNat,
          Paging.page (max 1 (min pageSize 100)).toNat fallers (max 1 page - 1).toNat⟩) ∧
    movers.Perm fallers ∧ movers.Pairwise (Before fun d => d.delta.getD 0) ∧
    fallers.Pairwise (Before fun d => -d.delta.getD 0) ∧
    ∀ d, d ∈ movers ↔ ∃ prev cur u, ∃ p c : Nat, lastTwo rows = some (prev, cur) ∧
      ranksAt rows prev u = some p ∧ ranksAt rows cur u = some c ∧
        d = ⟨u, some p, some c, some ((p : Int) - c)⟩ := by
  obtain ⟨users, husers⟩ := exists_allUsers rows
  refine ⟨moversOf (contestDeltas rows users).deltas, fallersOf (contestDeltas rows users).deltas,
    fun users' husers' page pageSize => ?_, ?_, moversOf_sorted husers.sorted,
    fallersOf_sorted husers.sorted, fun d => ?_⟩
  · unfold contestStandingsDeltas
    dsimp only
    rw [husers'.movers_eq husers, husers'.fallers_eq husers, slice_page _ (by omega) (by omega),
      slice_page _ (by omega) (by omega)]
    rfl
  · exact (List.mergeSort_perm ..).trans (List.mergeSort_perm ..).symm
  · rw [← husers.mem_filter, moversOf, List.mem_mergeSort]

/-- No user stands twice in a snapshot. -/
def OncePerSnapshot (rows : List StandingRow) (ts : Nat) : Prop :=
  ((snapshot rows ts).map Prod.fst).Nodup

theorem enumerateRanks_getElem (hnodup : (users.map Prod.fst).Nodup) {i : Nat}
    (hi : users[i]? = some x) : enumerateRanks users x.1 = some (i + 1) := by
  obtain ⟨k, hk⟩ := Option.ne_none_iff_exists'.1
    (enumerateRanks_isSome_iff.2 (List.mem_map_of_mem (List.mem_of_getElem? hi)))
  obtain ⟨j, rfl, hj⟩ := enumerateRanks_some hk
  have hfst : (users.map Prod.fst)[i]? = some x.1 := by
    rw [List.getElem?_map, hi]
    rfl
  rw [← List.getElem?_map] at hj
  have hij : i = j :=
    (List.getElem?_inj (List.getElem?_eq_some_iff.1 hfst).1 hnodup).1 (hfst.trans hj.symm)
  rw [hk, hij]

/-- The ranks of the users of a snapshot are the numbers from 1 on. -/
theorem ranks_perm {ts : Nat} (h : OncePerSnapshot rows ts) {order : List String}
    (horder : order.Nodup) (hmem : ∀ u, u ∈ order ↔ ranksAt rows ts u ≠ none) :
    (order.map (ranksAt rows ts)).Perm
      ((List.range (snapshot rows ts).length).map fun i => some (i + 1)) := by
  have hsorted : (sortedUsers (snapshot rows ts)).Perm (snapshot rows ts) :=
    List.mergeSort_perm ..
  have hnodup : ((sortedUsers (snapshot rows ts)).map Prod.fst).Nodup :=
    (hsorted.map Prod.fst).nodup_iff.2 h
  have hperm : order.Perm ((sortedUsers (snapshot rows ts)).map Prod.fst) := by
    rw [List.perm_ext_iff_of_nodup horder hnodup]
    intro u
    rw [hmem, ranksAt, enumerateRanks_isSome_iff]
  refine (hperm.map _).trans (List.Perm.of_eq ?_)
  refine List.ext_getElem? fun i => ?_
  rw [List.getElem?_map, List.getElem?_map, List.getElem?_map]
  by_cases hi : i < (snapshot rows ts).length
  · have hlt : i < (sortedUsers (snapshot rows ts)).length := hsorted.length_eq ▸ hi
    have hget := List.getElem?_eq_getElem hlt
    rw [hget, List.getElem?_range hi, Option.map_some, Option.map_some, Option.map_some, ranksAt,
      enumerateRanks_getElem hnodup hget]
  · have hge : (sortedUsers (snapshot rows ts)).length ≤ i := hsorted.length_eq ▸ Nat.not_lt.1 hi
    rw [List.getElem?_eq_none hge, List.getElem?_eq_none (by rw [List.length_range]; omega)]
    rfl

/-- If the same users stand in both snapshots, what some of them gain others lose, as the ranks of
either snapshot are the numbers from 1 on. -/
theorem contestDeltas_sum {prev cur : Nat} {users : List String} (hu : AllUsers rows users)
    (hlast : lastTwo rows = some (prev, cur)) (hprev : OncePerSnapshot rows prev)
    (hcur : OncePerSnapshot rows cur)
    (hsame : ∀ u, ranksAt rows prev u ≠ none ↔ ranksAt rows cur u ≠ none) :
    ((contestDeltas rows users).deltas.map fun d => d.delta.getD 0).sum = 0 ∧
      ((contestDeltas rows users).deltas.map fun d => d.previousRank).Perm
        ((List.range (snapshot rows prev).length).map fun i => some (i + 1)) ∧
      ((contestDeltas rows users).deltas.map fun d => d.currentRank).Perm
        ((List.range (snapshot rows cur).length).map fun i => some (i + 1)) := by
  have hperm : (contestDeltas rows users).deltas.Perm
      (users.map (rankDelta (ranksAt rows prev) (ranksAt rows cur))) := by
    rw [contestDeltas, hlast]
    exact List.mergeSort_perm ..
  have hmemPrev : ∀ u, u ∈ users ↔ ranksAt rows prev u ≠ none := fun u => by
    rw [hu.mem _ _ hlast u, ← hsame, or_self]
  have hmemCur : ∀ u, u ∈ users ↔ ranksAt rows cur u ≠ none := fun u => by
    rw [hmemPrev, hsame]
  have hp := ranks_perm hprev hu.nodup hmemPrev
  have hc := ranks_perm hcur hu.nodup hmemCur
  have hprevRanks := hperm.map fun d => d.previousRank
  have hcurRanks := hperm.map fun d => d.currentRank
  rw [List.map_map] at hprevRanks hcurRanks
  refine ⟨?_, hprevRanks.trans hp, hcurRanks.trans hc⟩
  have hlength : (snapshot rows prev).length = (snapshot rows cur).length := by
    have hlen := hp.length_eq.symm.trans ((List.length_map _).trans
      ((List.length_map _).symm.trans hc.length_eq))
    simpa using hlen
  have hdelta : ∀ u ∈ users, (rankDelta (ranksAt rows prev) (ranksAt rows cur) u).delta.getD 0 =
      (((ranksAt rows prev u).getD 0 : Nat) : Int) -
        (((ranksAt rows cur u).getD 0 : Nat) : Int) := by
    intro u hmem
    obtain ⟨p, hpu⟩ := Option.ne_none_iff_exists'.1 ((hmemPrev u).1 hmem)
    obtain ⟨c, hcu⟩ := Option.ne_none_iff_exists'.1 ((hmemCur u).1 hmem)
    simp [rankDelta, hpu, hcu]
  have hsum : (users.map fun u => (((ranksAt rows prev u).getD 0 : Nat) : Int)).sum =
      (users.map fun u => (((ranksAt rows cur u).getD 0 : Nat) : Int)).sum := by
    have hboth := (hp.trans (hlength ▸ hc.symm)).map fun o => ((o.getD 0 : Nat) : Int)
    rw [List.map_map, List.map_map] at hboth
    exact hboth.sum_eq
  have hdiff : ((contestDeltas rows users).deltas.map fun d => d.delta.getD 0).sum =
      (users.map fun u => (((ranksAt rows prev u).getD 0 : Nat) : Int) -
        (((ranksAt rows cur u).getD 0 : Nat) : Int)).sum := by
    rw [(hperm.map _).sum_eq, List.map_map]
    exact congrArg List.sum (List.map_congr_left hdelta)
  have hadd := List.sum_map_add (l := users)
    (f := fun u => (((ranksAt rows prev u).getD 0 : Nat) : Int) -
      (((ranksAt rows cur u).getD 0 : Nat) : Int))
    (g := fun u => (((ranksAt rows cur u).getD 0 : Nat) : Int))
  simp only [sub_add_cancel] at hadd
  omega

def overtaken : List StandingRow :=
  [⟨"ann", 300, 1⟩, ⟨"bob", 200, 1⟩, ⟨"ann", 300, 2⟩, ⟨"bob", 500, 2⟩]

theorem timestamps_overtaken : timestamps overtaken = [1, 2] := by
  have hdedup : (overtaken.map fun r => r.snapshotAt).dedup = [1, 2] := by decide
  rw [timestamps, hdedup]
  exact List.mergeSort_of_pairwise (by decide)

theorem contestDeltas_sum_overtaken :
    ((contestDeltas overtaken ["bob", "ann"]).deltas.map fun d => d.delta.getD 0).sum = 0 ∧
      ((contestDeltas overtaken ["bob", "ann"]).deltas.map fun d => d.currentRank).Perm
        [some 1, some 2] := by
  have hlast : lastTwo overtaken = some (1, 2) := by
    rw [lastTwo, timestamps_overtaken]
    rfl
  have hnames : (snapshot overtaken 1).map Prod.fst = ["ann", "bob"] ∧
      (snapshot overtaken 2).map Prod.fst = ["ann", "bob"] := by decide
  have honce : OncePerSnapshot overtaken 1 ∧ OncePerSnapshot overtaken 2 := by
    rw [OncePerSnapshot, OncePerSnapshot, hnames.1, hnames.2]
    decide
  have husers : AllUsers overtaken ["bob", "ann"] := by
    refine ⟨by decide, fun prev cur h u => ?_⟩
    cases hlast.symm.trans h
    rw [ranksAt_ne_none, ranksAt_ne_none, hnames.1, hnames.2, or_self]
    simp [or_comm]
  have hsame : ∀ u, ranksAt overtaken 1 u ≠ none ↔ ranksAt overtaken 2 u ≠ none := fun u => by
    rw [ranksAt_ne_none, ranksAt_ne_none, hnames.1, hnames.2]
  obtain ⟨hsum, -, hranks⟩ := contestDeltas_sum husers hlast honce.1 honce.2 hsame
  exact ⟨hsum, hranks⟩

/-- The rank of a user counts the users with a higher score, and those with the same one whose name
comes before in the order of the rows. -/
theorem ranksAt_eq [LinearOrder κ] {collate : String → κ} {ts : Nat}
    (hrows : (snapshot rows ts).Pairwise fun x y => collate x.1 < collate y.1)
    {x : String × Int} (hx : x ∈ snapshot rows ts) :
    ranksAt rows ts x.1 = some ((snapshot rows ts).countP
      (fun y => x.2 < y.2 ∨ y.2 = x.2 ∧ collate y.1 < collate x.1) + 1) := by
  have hsorted : (sortedUsers (snapshot rows ts)).Perm (snapshot rows ts) :=
    List.mergeSort_perm ..
  have hnodup : ((sortedUsers (snapshot rows ts)).map Prod.fst).Nodup := by
    rw [(hsorted.map Prod.fst).nodup_iff, List.Nodup, List.pairwise_map]
    exact hrows.imp fun hlt heq => (ne_of_lt hlt) (congrArg collate heq)
  have hbefore : (sortedUsers (snapshot rows ts)).Pairwise
      (Descending Prod.snd fun x y => collate x.1 < collate y.1) := by
    have htrans : ∀ a b c : String × Int, decide (-a.2 ≤ -b.2) → decide (-b.2 ≤ -c.2) →
        decide (-a.2 ≤ -c.2) := by
      simp only [decide_eq_true_eq]
      omega
    have htotal : ∀ a b : String × Int, decide (-a.2 ≤ -b.2) || decide (-b.2 ≤ -a.2) := by
      simp only [Bool.or_eq_true, decide_eq_true_eq]
      omega
    refine (pairwise_mergeSort_stable htrans htotal hrows).imp ?_
    rintro a b ⟨hab, htie⟩
    simp only [decide_eq_true_eq] at hab htie
    by_cases heq : b.2 = a.2
    · exact .inr ⟨heq, htie (by omega)⟩
    · exact .inl (by omega)
  obtain ⟨i, hi⟩ := List.mem_iff_getElem?.1 (hsorted.mem_iff.2 hx)
  let le : String × Int → String × Int → Bool :=
    fun a b => decide (b.2 < a.2 ∨ b.2 = a.2 ∧ collate a.1 ≤ collate b.1)
  have hindex : before le (sortedUsers (snapshot rows ts)) x = i := by
    refine before_eq_index (hbefore.imp ?_) (hbefore.imp ?_) ?_ hi
    · rintro a b (hlt | ⟨heq, hlt⟩)
      · exact decide_eq_true (.inl hlt)
      · exact decide_eq_true (.inr ⟨heq, hlt.le⟩)
    · rintro a b hab hba
      rcases hab with hlt | ⟨heq, hlt⟩
      · rcases of_decide_eq_true hba with hlt' | ⟨heq', -⟩
        · exact lt_asymm hlt hlt'
        · exact hlt.ne' heq'
      · rcases of_decide_eq_true hba with hlt' | ⟨-, hle⟩
        · exact hlt'.ne' heq
        · exact absurd hlt hle.not_gt
    · exact decide_eq_true (.inr ⟨rfl, le_rfl⟩)
  have hcount : before le (sortedUsers (snapshot rows ts)) x = (snapshot rows ts).countP
      (fun y => x.2 < y.2 ∨ y.2 = x.2 ∧ collate y.1 < collate x.1) := by
    rw [before, hsorted.countP_eq]
    refine List.countP_congr fun y _ => ?_
    simp only [le, Bool.not_eq_true', decide_eq_false_iff_not, decide_eq_true_eq, not_or, not_and,
      not_lt, not_le]
    constructor
    · rintro ⟨hle, htie⟩
      rcases hle.lt_or_eq with hlt | heq
      · exact .inl hlt
      · exact .inr ⟨heq.symm, htie heq.symm⟩
    · rintro (hlt | ⟨heq, hlt⟩)
      · exact ⟨hlt.le, fun heq => absurd heq hlt.ne'⟩
      · exact ⟨heq.ge, fun _ => hlt⟩
  rw [ranksAt, enumerateRanks_getElem hnodup hi, ← hindex, hcount]

end

end Leetrank.ContestDeltas
