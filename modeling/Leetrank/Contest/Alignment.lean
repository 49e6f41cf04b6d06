import Leetrank.Contest.Standings

namespace Leetrank
set_option autoImplicit true

/-- A change belongs to the entry at the same place, and has its competition rank. -/
structure RatingChangeResult.Aligned (entries : List (ContestEntry × RatedUser))
    (c : RatingChangeResult) (x : ContestEntry × RatedUser) : Prop where
  userId : c.userId = x.1.userId
  beforeRating : c.beforeRating = x.2.rating
  rank : c.rank = 1 + entries.countP fun y => decide (x.1.score < y.1.score)

/-- The ranks that are written after the transaction. -/
def RatingDb.backfill (db : RatingDb) (contestId : String) (changes : List RatingChangeResult) :
    RatingDb :=
  changes.foldl (fun db c => db.setRank contestId c) db

variable {updateOne : RatingEngine} {contestId : String} {changes : List RatingChangeResult}
  {entries : List (ContestEntry × RatedUser)} {c : RatingChangeResult}
  {x : ContestEntry × RatedUser} {db db' : RatingDb} {e : ContestEntry} {i : Nat}

theorem ratingChangesOf_aligned (updateOne : RatingEngine)
    (hs : entries.Pairwise fun x y => y.1.score ≤ x.1.score) :
    List.Forall₂ (RatingChangeResult.Aligned entries) (ratingChangesOf updateOne entries)
      entries := by
  have hhigher := ratingChangesOf_higher updateOne hs
  exact hhigher.imp fun c x ⟨huser, hbefore, hrank⟩ =>
    ⟨huser, hbefore, hrank.trans (Nat.add_comm ..)⟩

theorem exists_getElem?_left {R : α → β → Prop} {l : List α} {l' : List β} {b : β}
    (h : List.Forall₂ R l l') (hi : l'[i]? = some b) :
    ∃ a, l[i]? = some a ∧ R a b := by
  induction h generalizing i with
  | nil => cases hi
  | cons hab _ ih =>
    cases i with
    | zero =>
      cases hi
      exact ⟨_, rfl, hab⟩
    | succ i => exact ih hi

theorem updateUsers_of_not_mem {users : String → RatedUser}
    (h : userId ∉ changes.map fun c => c.userId) (entries : List (ContestEntry × RatedUser)) :
    updateUsers users changes entries userId = users userId := by
  induction changes generalizing users entries with
  | nil => cases entries <;> rfl
  | cons c changes ih =>
    rw [List.map_cons, List.mem_cons, not_or] at h
    cases entries with
    | nil => rfl
    | cons x entries =>
      rw [updateUsers, ih h.2, updateUser_of_ne h.1]

/-- The row of each user gets the change at the same place, and its maximum is that of the user who
was read there. -/
theorem updateUsers_of_getElem? {users : String → RatedUser}
    (hnodup : (changes.map fun c => c.userId).Nodup) (hc : changes[i]? = some c)
    (hx : entries[i]? = some x) :
    updateUsers users changes entries c.userId =
      ⟨c.afterRating, max x.2.maxRating c.afterRating, c.afterRd, c.afterVolatility⟩ := by
  induction changes generalizing users entries i with
  | nil => cases hc
  | cons c' changes ih =>
    rw [List.map_cons, List.nodup_cons] at hnodup
    cases entries with
    | nil => cases hx
    | cons x' entries =>
      rw [updateUsers]
      cases i with
      | zero =>
        cases hc
        cases hx
        rw [updateUsers_of_not_mem hnodup.1, updateUser_self]
      | succ i => exact ih hnodup.2 hc hx

theorem backfill_users (db : RatingDb) (contestId : String) (changes : List RatingChangeResult) :
    (db.backfill contestId changes).users = db.users ∧
      (db.backfill contestId changes).ratingChanges = db.ratingChanges := by
  induction changes generalizing db with
  | nil => exact ⟨rfl, rfl⟩
  | cons c changes ih => exact ih (db.setRank contestId c)

/-- What the backfill does to the rows of the entries. -/
theorem backfill_rows (db : RatingDb) (contestId : String) (changes : List RatingChangeResult) :
    (db.backfill contestId changes).entries.rows = db.entries.rows.map fun e =>
      changes.foldl (fun e c => e.setRank contestId c) e := by
  induction changes generalizing db with
  | nil => exact (List.map_id' _).symm
  | cons c changes ih =>
    have hrows : (db.setRank contestId c).entries.rows =
        db.entries.rows.map (ContestEntry.setRank contestId c) := rfl
    rw [RatingDb.backfill, List.foldl_cons, ← RatingDb.backfill, ih, hrows, List.map_map]
    rfl

theorem setRank_userId (contestId : String) (c : RatingChangeResult) (e : ContestEntry) :
    (e.setRank contestId c).contestId = e.contestId ∧ (e.setRank contestId c).userId = e.userId :=
  Prod.mk.inj (e.setRank_key contestId c)

theorem foldl_setRank_key (contestId : String) (changes : List RatingChangeResult)
    (e : ContestEntry) :
    (changes.foldl (fun e c => e.setRank contestId c) e).contestId = e.contestId ∧
      (changes.foldl (fun e c => e.setRank contestId c) e).userId = e.userId := by
  induction changes generalizing e with
  | nil => exact ⟨rfl, rfl⟩
  | cons c changes ih =>
    obtain ⟨hcontest, huser⟩ := setRank_userId contestId c e
    exact ⟨(ih _).1.trans hcontest, (ih _).2.trans huser⟩

theorem foldl_setRank_of_not_mem (h : e.userId ∉ changes.map fun c => c.userId) :
    changes.foldl (fun e c => e.setRank contestId c) e = e := by
  induction changes with
  | nil => rfl
  | cons c changes ih =>
    rw [List.map_cons, List.mem_cons, not_or] at h
    rw [List.foldl_cons, ContestEntry.setRank, if_neg fun hkey => h.1 hkey.2]
    exact ih h.2

/-- The entry of a user in the contest gets the rank of the user's change. -/
theorem foldl_setRank_rank (hnodup : (changes.map fun c => c.userId).Nodup) (hc : c ∈ changes)
    (hcontest : e.contestId = contestId) (huser : e.userId = c.userId) :
    (changes.foldl (fun e c => e.setRank contestId c) e).rank = some c.rank := by
  induction changes generalizing e with
  | nil => cases hc
  | cons c' changes ih =>
    rw [List.map_cons, List.nodup_cons] at hnodup
    obtain ⟨hcontest', huser'⟩ := setRank_userId contestId c' e
    rw [List.foldl_cons]
    rcases List.mem_cons.1 hc with rfl | hc
    · have hnot : (e.setRank contestId c).userId ∉ changes.map fun c => c.userId := by
        rw [huser', huser]
        exact hnodup.1
      rw [foldl_setRank_of_not_mem hnot, ContestEntry.setRank, if_pos ⟨hcontest, huser⟩]
    · exact ih hnodup.2 hc (hcontest'.trans hcontest) (huser'.trans huser)

/-- The ranks are competition ranks, the changes are aligned with the entries, and what is written
of a change is written for the user of its entry. -/
theorem finalize_aligned (updateOne : RatingEngine) (entries : List (ContestEntry × RatedUser))
    (hs : entries.Pairwise fun x y => y.1.score ≤ x.1.score) :
    (ratingChangesOf updateOne entries).length = entries.length ∧
      ∀ (i : Nat) (x : ContestEntry × RatedUser), entries[i]? = some x → ∃ c,
        (ratingChangesOf updateOne entries)[i]? = some c ∧ c.Aligned entries x ∧
        ∀ (db db' : RatingDb) contestId,
          db.persist contestId entries (ratingChangesOf updateOne entries) = some db' →
          (db'.backfill contestId (ratingChangesOf updateOne entries)).users x.1.userId =
              ⟨c.afterRating, max x.2.maxRating c.afterRating, c.afterRd, c.afterVolatility⟩ ∧
          (db'.backfill contestId (ratingChangesOf updateOne entries)).ratingChanges[
              db.ratingChanges.length + i]? =
            some ⟨x.1.userId, contestId, x.2.rating, c.afterRating, c.delta, c.rank⟩ ∧
          ∀ e ∈ (db'.backfill contestId (ratingChangesOf updateOne entries)).entries.rows,
            e.contestId = contestId → e.userId = x.1.userId → e.rank = some c.rank := by
  have haligned := ratingChangesOf_aligned updateOne hs
  refine ⟨haligned.length_eq, fun i x hx => ?_⟩
  obtain ⟨c, hc, hcx⟩ := exists_getElem?_left haligned hx
  refine ⟨c, hc, hcx, fun db db' contestId hpersist => ?_⟩
  obtain ⟨hnodup, -, rfl⟩ := persist_eq_some_iff.1 hpersist
  obtain ⟨husers, hchanges⟩ := backfill_users { db with
    users := updateUsers db.users (ratingChangesOf updateOne entries) entries
    ratingChanges := db.ratingChanges ++
      (ratingChangesOf updateOne entries).map (ratingChangeRow contestId)
    contests := db.endContest contestId } contestId (ratingChangesOf updateOne entries)
  refine ⟨?_, ?_, ?_⟩
  · rw [husers, ← hcx.userId]
    exact updateUsers_of_getElem? hnodup hc hx
  · rw [hchanges, List.getElem?_append_right (Nat.le_add_right ..), Nat.add_sub_cancel_left,
      List.getElem?_map, hc, Option.map_some, ratingChangeRow, hcx.userId, hcx.beforeRating]
  · intro e he hcontest huser
    rw [backfill_rows] at he
    obtain ⟨e, -, rfl⟩ := List.mem_map.1 he
    obtain ⟨hcontest', huser'⟩ := foldl_setRank_key contestId (ratingChangesOf updateOne entries) e
    exact foldl_setRank_rank hnodup (List.mem_of_getElem? hc) (hcontest'.symm.trans hcontest)
      (huser'.symm.trans (huser.trans hcx.userId.symm))

/-- Three newcomers, two of whom share the second place. -/
def tiedEntries : List (ContestEntry × RatedUser) :=
  [(⟨"c1", "u1", 300, none, 0⟩, ⟨1500, 1500, 350, 0.06⟩),
    (⟨"c1", "u2", 200, none, 0⟩, ⟨1500, 1500, 350, 0.06⟩),
    (⟨"c1", "u3", 200, none, 1⟩, ⟨1500, 1500, 350, 0.06⟩)]

theorem finalize_aligned_tied :
    (ratingChangesOf newcomerEngine tiedEntries).length = 3 ∧
      ∃ c, (ratingChangesOf newcomerEngine tiedEntries)[2]? = some c ∧ c.userId = "u3" ∧
        c.rank = 2 := by
  obtain ⟨hlen, h⟩ := finalize_aligned newcomerEngine tiedEntries (by decide)
  obtain ⟨c, hc, hcx, -⟩ := h 2 _ rfl
  exact ⟨hlen, c, hc, hcx.userId, hcx.rank⟩

end Leetrank
