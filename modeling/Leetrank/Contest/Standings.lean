import Leetrank.Contest.FinalizeRating

namespace Leetrank
set_option autoImplicit true

/-- One more than the number of entries of the same contest with a higher score. -/
def RatingDb.competitionRank (db : RatingDb) (e : ContestEntry) : Nat :=
  db.entries.rows.countP (fun x => x.contestId == e.contestId && decide (e.score < x.score)) + 1

instance : Std.Total ContestEntry.Before where
  total := by
    intro a b
    unfold ContestEntry.Before
    omega

instance : IsTrans ContestEntry ContestEntry.Before where
  trans := by
    intro a b c
    unfold ContestEntry.Before
    omega

theorem RatingDb.standings_perm (db : RatingDb) (contestId : String) :
    ((db.standings contestId).map fun x => x.1).Perm
      (db.entries.rows.filter fun e => e.contestId == contestId) := by
  rw [RatingDb.standings, List.map_map]
  simp only [Function.comp_def, List.map_id']
  exact List.perm_insertionSort ..

theorem RatingDb.standings_sorted (db : RatingDb) (contestId : String) :
    (db.standings contestId).Pairwise fun x y => y.1.score ≤ x.1.score := by
  rw [RatingDb.standings, List.pairwise_map]
  apply (List.pairwise_insertionSort ContestEntry.Before _).imp
  intro a b h
  change b.score ≤ a.score
  unfold ContestEntry.Before at h
  omega

theorem RatingDb.mem_standings {db : RatingDb} (h : x ∈ db.standings contestId) :
    x.1 ∈ db.entries.rows ∧ x.1.contestId = contestId := by
  have hmem := (db.standings_perm contestId).mem_iff.1 (List.mem_map_of_mem h)
  rw [List.mem_filter, beq_iff_eq] at hmem
  exact hmem

theorem RatingDb.exists_standing {db : RatingDb} (he : e ∈ db.entries.rows)
    (hid : e.contestId = contestId) : ∃ x ∈ db.standings contestId, x.1 = e := by
  have hmem := (db.standings_perm contestId).mem_iff.2 (List.mem_filter.2 ⟨he, by simp [hid]⟩)
  exact List.mem_map.1 hmem

theorem RatingDb.standings_nodup (db : RatingDb) (contestId : String) :
    ((db.standings contestId).map fun x => x.1.userId).Nodup := by
  have hkeys : ((db.entries.rows.filter fun e => e.contestId == contestId).map
      fun e => (e.contestId, e.userId)).Nodup :=
    db.entries.unique.sublist (List.filter_sublist.map _)
  have hperm := (db.standings_perm contestId).map fun e => (e.contestId, e.userId)
  rw [← hperm.nodup_iff, List.map_map] at hkeys
  -- all keys have the same contest, so the users differ
  rw [List.Nodup, List.pairwise_map] at hkeys ⊢
  apply hkeys.imp_of_mem
  intro x y hx hy hne huser
  apply hne
  change (x.1.contestId, x.1.userId) = (y.1.contestId, y.1.userId)
  rw [(RatingDb.mem_standings hx).2, (RatingDb.mem_standings hy).2, huser]

/-- The number of entries read so far with a higher score. -/
def higher (pre : List (ContestEntry × RatedUser)) (e : ContestEntry) : Nat :=
  pre.countP fun y => decide (e.score < y.1.score)

theorem higher_append (pre : List (ContestEntry × RatedUser))
    {rest : List (ContestEntry × RatedUser)} (h : ∀ y ∈ rest, y.1.score ≤ e.score) :
    higher (pre ++ rest) e = higher pre e := by
  have hrest : higher rest e = 0 := by
    rw [higher, List.countP_eq_zero]
    intro y hy
    simpa using h y hy
  rw [higher, List.countP_append]
  exact congrArg (higher pre e + ·) hrest

/-- When a new score begins, everyone before has a higher one. -/
theorem higher_eq_length {x : ContestEntry × RatedUser} {pre rest : List (ContestEntry × RatedUser)}
    (hs : (pre ++ x :: rest).Pairwise fun x y => y.1.score ≤ x.1.score)
    (hne : ¬ some x.1.score = pre.getLast?.map fun y => y.1.score) :
    higher pre x.1 = pre.length := by
  rcases List.eq_nil_or_concat pre with rfl | ⟨front, last, rfl⟩
  · rfl
  · rw [List.concat_eq_append] at hs hne ⊢
    rw [List.getLast?_concat, Option.map_some, Option.some.injEq] at hne
    obtain ⟨hpre, _, hcross⟩ := List.pairwise_append.1 hs
    have hlast : x.1.score ≤ last.1.score := hcross last (by simp) x List.mem_cons_self
    rw [higher, List.countP_eq_length]
    intro y hy
    have hy' : last.1.score ≤ y.1.score := by
      rcases List.mem_append.1 hy with hy | hy
      · exact (List.pairwise_append.1 hpre).2.2 y hy last List.mem_cons_self
      · rw [List.mem_singleton.1 hy]
    rw [decide_eq_true_eq]
    omega

/-- In a sorted list the loop gives each entry one more than the number of higher scores. -/
theorem rankFrom_eq {pre rest : List (ContestEntry × RatedUser)}
    (hs : (pre ++ rest).Pairwise fun x y => y.1.score ≤ x.1.score)
    (hprev : prevScore = pre.getLast?.map fun x => x.1.score)
    (hrank : ∀ x ∈ pre.getLast?, prevRank = higher pre x.1 + 1) :
    rankFrom pre.length prevScore prevRank rest =
      rest.map fun x => participantOf x.1 x.2 (higher (pre ++ rest) x.1 + 1) := by
  induction rest generalizing pre prevScore prevRank with
  | nil => rfl
  | cons x rest ih =>
    have hlow : ∀ y ∈ x :: rest, y.1.score ≤ x.1.score := by
      intro y hy
      rcases List.mem_cons.1 hy with rfl | hy
      · exact Int.le_refl _
      · exact (List.pairwise_cons.1 (List.pairwise_append.1 hs).2.1).1 y hy
    have hx : (if some x.1.score = prevScore then prevRank else pre.length + 1) =
        higher pre x.1 + 1 := by
      split
      next heq =>
        rw [hprev] at heq
        obtain ⟨y, hy, hscore⟩ := Option.map_eq_some_iff.1 heq.symm
        rw [hrank y hy, higher, higher, hscore]
      next hne => rw [higher_eq_length hs (hprev ▸ hne)]
    have hall := higher_append pre hlow
    have hone : higher (pre ++ [x]) x.1 = higher pre x.1 :=
      higher_append pre fun y hy => hlow y (List.mem_singleton.1 hy ▸ List.mem_cons_self)
    have hsplit : pre ++ x :: rest = (pre ++ [x]) ++ rest := by rw [List.append_assoc]; rfl
    rw [List.map_cons, rankFrom, hx, hall]
    congr 1
    rw [hsplit] at hs ⊢
    have hlen : pre.length + 1 = (pre ++ [x]).length := by rw [List.length_append]; rfl
    rw [hlen]
    apply ih hs
    · rw [List.getLast?_concat]
      rfl
    · intro y hy
      rw [List.getLast?_concat] at hy
      cases hy
      rw [hone]

theorem RatingDb.higher_standings {db : RatingDb} (h : x ∈ db.standings contestId) :
    higher (db.standings contestId) x.1 + 1 = db.competitionRank x.1 := by
  have hperm := (db.standings_perm contestId).countP_eq fun e => decide (x.1.score < e.score)
  rw [List.countP_map, List.countP_filter] at hperm
  rw [RatingDb.competitionRank, (RatingDb.mem_standings h).2]
  simp only [Function.comp_def, Bool.and_comm] at hperm ⊢
  rw [higher, hperm]

/-- In sorted entries the change of each entry has one more than the number of higher scores. -/
theorem ratingChangesOf_higher (updateOne : RatingEngine)
    (hs : entries.Pairwise fun x y => y.1.score ≤ x.1.score) :
    List.Forall₂ (fun c x => c.userId = x.1.userId ∧ c.beforeRating = x.2.rating ∧
      c.rank = higher entries x.1 + 1) (ratingChangesOf updateOne entries) entries := by
  have hsorted : List.Pairwise (fun x y => y.1.score ≤ x.1.score) ([] ++ entries) := hs
  have hranks : rankFrom 0 none 0 entries =
      entries.map fun x => participantOf x.1 x.2 (higher entries x.1 + 1) :=
    rankFrom_eq hsorted rfl nofun
  have hof := calculateRatingChanges_of updateOne (rankFrom 0 none 0 entries)
  rw [hranks, List.forall₂_map_right_iff] at hof
  rw [ratingChangesOf, hranks]
  exact hof.imp fun c x h => ⟨h.userId, h.beforeRating, h.rank⟩

/-- The rank of each change is the place of its entry in the contest. -/
theorem ratingChangesOf_rank (updateOne : RatingEngine) (db : RatingDb) (contestId : String) :
    List.Forall₂ (fun c x => c.userId = x.1.userId ∧ c.rank = db.competitionRank x.1)
      (ratingChangesOf updateOne (db.standings contestId)) (db.standings contestId) := by
  have hhigher := ratingChangesOf_higher updateOne (db.standings_sorted contestId)
  have hmem := (List.forall₂_and_left _ _).2 ⟨fun x hx => hx, hhigher.flip⟩
  have hrank := hmem.imp fun x c ⟨hx, huser, _, hr⟩ =>
    (⟨huser, hr.trans (RatingDb.higher_standings hx)⟩ :
      c.userId = x.1.userId ∧ c.rank = db.competitionRank x.1)
  exact hrank.flip

end Leetrank
