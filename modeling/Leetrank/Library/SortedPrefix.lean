import Leetrank.Library.Paging
import Leetrank.Library.Ranking

namespace SortedPrefix
set_option autoImplicit true

open Ranking

variable {α : Type u} {le : α → α → Bool} {l : List α} {x : α} {i m n p q limit : Nat}

/-- A page of a list of which no more is sorted than is needed for that page. -/
def sortedPage (le : α → α → Bool) (limit : Nat) (l : List α) (p : Nat) : List α :=
  Paging.page limit ((l.take ((p + 1) * limit)).mergeSort le) p

/-- How many of the first `n` elements come before the one at an index; of those that tie, the
earlier ones do. -/
def ahead (le : α → α → Bool) (l : List α) (n : Nat) (x : α) (i : Nat) : Nat :=
  before (List.zipIdxLE le) (l.take n).zipIdx (x, i)

theorem length_sortedPage (le : α → α → Bool) (limit : Nat) (l : List α) (p : Nat) :
    (sortedPage le limit l p).length = (Paging.page limit l p).length := by
  simp only [sortedPage, Paging.page, List.length_take, List.length_drop, List.length_mergeSort,
    Nat.succ_mul]
  omega

/-- The order with the index in it has no ties. -/
theorem ranks_zipIdx (htrans : ∀ a b c, le a b → le b c → le a c)
    (htotal : ∀ a b, le a b || le b a) (l : List α) : Ranks (List.zipIdxLE le) l.zipIdx where
  total := List.zipIdxLE_total htotal
  trans := List.zipIdxLE_trans htrans
  distinct := by
    have hindex : (l.zipIdx.map Prod.snd).Pairwise fun i j => i < j := by
      rw [List.zipIdx_map_snd]
      exact List.pairwise_lt_range'
    rw [List.pairwise_map] at hindex
    apply hindex.imp
    rintro ⟨a, i⟩ ⟨b, j⟩ hlt ⟨hab, hba⟩
    unfold List.zipIdxLE at hab hba
    dsimp only at hlt hab hba
    split at hab
    next hle =>
      rw [if_pos hle] at hba
      split at hba
      next => exact absurd (of_decide_eq_true hba) (Nat.not_le.2 hlt)
      next => cases hba
    next => cases hab

theorem ahead_le (le : α → α → Bool) (l : List α) (n m : Nat) (x : α) (i : Nat) :
    ahead le l (n + m) x i ≤ ahead le l n x i + m := by
  have hlen : ((l.drop n).take m).length ≤ m := List.length_take_le ..
  rw [ahead, before, List.take_add, List.zipIdx_append, List.countP_append]
  apply Nat.add_le_add_left
  apply Nat.le_trans List.countP_le_length
  rwa [List.length_zipIdx]

/-- Nothing is ahead of an element that comes strictly first. -/
theorem ahead_eq_zero (hl : l.Nodup) (hx : l[i]? = some x) (hrefl : le x x)
    (hfirst : ∀ y ∈ l, y ≠ x → le x y ∧ ¬le y x) (n : Nat) : ahead le l n x i = 0 := by
  rw [ahead, before, List.countP_eq_zero]
  rintro ⟨y, j⟩ hy
  have hj := List.mk_mem_zipIdx_iff_getElem?.1 hy
  have hmem : y ∈ l := List.mem_of_mem_take (List.mem_of_getElem? hj)
  rw [List.getElem?_take] at hj
  split at hj
  next =>
    unfold List.zipIdxLE
    dsimp only
    by_cases hyx : y = x
    · subst hyx
      obtain ⟨hi, -⟩ := List.getElem?_eq_some_iff.1 hx
      have heq : i = j := (List.getElem?_inj hi hl).1 (hx.trans hj.symm)
      rw [if_pos hrefl, if_pos hrefl, heq]
      simp
    · obtain ⟨hle, hnot⟩ := hfirst y hmem hyx
      rw [if_pos hle, if_neg hnot]
      exact Bool.false_ne_true
  next => cases hj

section

variable (htrans : ∀ a b c, le a b → le b c → le a c) (htotal : ∀ a b, le a b || le b a)
include htrans htotal

theorem mem_take_iff (hl : l.Nodup) (hx : l[i]? = some x) :
    x ∈ ((l.take n).mergeSort le).take m ↔ i < n ∧ ahead le l n x i < m := by
  have hranks := ranks_zipIdx htrans htotal (l.take n)
  rw [← List.mergeSort_zipIdx, ← List.map_take, List.mem_map]
  constructor
  · rintro ⟨⟨y, j⟩, hmem, rfl⟩
    obtain ⟨hj, hbefore⟩ := (hranks.mem_take_mergeSort_iff m (y, j)).1 hmem
    have hj := List.mk_mem_zipIdx_iff_getElem?.1 hj
    rw [List.getElem?_take] at hj
    split at hj
    next hlt =>
      obtain ⟨hi, -⟩ := List.getElem?_eq_some_iff.1 hx
      have heq : i = j := (List.getElem?_inj hi hl).1 (hx.trans hj.symm)
      rw [heq]
      exact ⟨hlt, hbefore⟩
    next => cases hj
  · rintro ⟨hi, hahead⟩
    have hmem : (x, i) ∈ (l.take n).zipIdx := by
      rw [List.mk_mem_zipIdx_iff_getElem?, List.getElem?_take, if_pos hi]
      exact hx
    exact ⟨(x, i), (hranks.mem_take_mergeSort_iff m (x, i)).2 ⟨hmem, hahead⟩, rfl⟩

/-- A page shows the elements fetched for it before which as many come as stand on the pages
before. -/
theorem mem_sortedPage_iff (hl : l.Nodup) (hx : l[i]? = some x) :
    x ∈ sortedPage le limit l p ↔
      i < (p + 1) * limit ∧ p * limit ≤ ahead le l ((p + 1) * limit) x i := by
  have hfetched := Paging.mem_take_index (n := (p + 1) * limit) hl hx
  have hearlier := mem_take_iff (n := (p + 1) * limit) (m := p * limit) htrans htotal hl hx
  have hmem : x ∈ (l.take ((p + 1) * limit)).mergeSort le ↔ x ∈ l.take ((p + 1) * limit) :=
    List.mem_mergeSort
  have hnodup : ((l.take ((p + 1) * limit)).mergeSort le).Nodup :=
    (List.mergeSort_perm _ le).nodup_iff.2 (hl.sublist (List.take_sublist ..))
  have hshort : ((l.take ((p + 1) * limit)).mergeSort le).length ≤ p * limit + limit := by
    rw [List.length_mergeSort, ← Nat.succ_mul]
    exact List.length_take_le ..
  rw [sortedPage, Paging.page]
  generalize (l.take ((p + 1) * limit)).mergeSort le = sorted at *
  have hall : (sorted.drop (p * limit)).take limit = sorted.drop (p * limit) := by
    apply List.take_of_length_le
    rw [List.length_drop]
    omega
  have hsplit : x ∈ sorted ↔ x ∈ sorted.take (p * limit) ∨ x ∈ sorted.drop (p * limit) := by
    rw [← List.mem_append, List.take_append_drop]
  have hdisjoint : x ∈ sorted.take (p * limit) → x ∉ sorted.drop (p * limit) := by
    rw [← List.take_append_drop (p * limit) sorted] at hnodup
    exact fun ha hb => List.disjoint_of_nodup_append hnodup ha hb
  rw [hall, ← hfetched, ← hmem]
  constructor
  · intro hlate
    refine ⟨hsplit.2 (.inr hlate), Nat.le_of_not_lt fun hlt => ?_⟩
    have hi : i < (p + 1) * limit := hfetched.1 (hmem.1 (hsplit.2 (.inr hlate)))
    exact hdisjoint (hearlier.2 ⟨hi, hlt⟩) hlate
  · rintro ⟨hin, hle⟩
    rcases hsplit.1 hin with hearly | hlate
    · exact absurd (hearlier.1 hearly).2 (Nat.not_lt.2 hle)
    · exact hlate

/-- An element on a page was on the page before, if that one had fetched it already. -/
theorem mem_sortedPage_of_succ (hl : l.Nodup) (hx : l[i]? = some x)
    (h : x ∈ sortedPage le limit l (p + 1)) (hi : i < (p + 1) * limit) :
    x ∈ sortedPage le limit l p := by
  have hlater := ((mem_sortedPage_iff htrans htotal hl hx).1 h).2
  rw [Nat.succ_mul (p + 1)] at hlater
  have hgrow := ahead_le le l ((p + 1) * limit) limit x i
  refine (mem_sortedPage_iff htrans htotal hl hx).2 ⟨hi, ?_⟩
  have hpage : (p + 1) * limit = p * limit + limit := Nat.succ_mul ..
  omega

/-- The pages that show an element follow one another, from the first one that fetches it on. -/
theorem mem_sortedPage_of_le (hl : l.Nodup) (hx : l[i]? = some x) (hlimit : 0 < limit)
    (h : x ∈ sortedPage le limit l p) (hq : i / limit ≤ q) (hqp : q ≤ p) :
    x ∈ sortedPage le limit l q := by
  induction p, hqp using Nat.le_induction with
  | base => exact h
  | succ p hqp ih =>
    apply ih
    apply mem_sortedPage_of_succ htrans htotal hl hx h
    exact (Nat.div_lt_iff_lt_mul hlimit).1 (Nat.lt_succ_of_le (hq.trans hqp))

theorem exists_sortedPage_iff (hl : l.Nodup) (hx : l[i]? = some x) (hlimit : 0 < limit) :
    (∃ p, x ∈ sortedPage le limit l p) ↔ x ∈ sortedPage le limit l (i / limit) := by
  constructor
  · rintro ⟨p, hp⟩
    have hi := ((mem_sortedPage_iff htrans htotal hl hx).1 hp).1
    have hfirst : i / limit ≤ p := Nat.le_of_lt_succ ((Nat.div_lt_iff_lt_mul hlimit).2 hi)
    exact mem_sortedPage_of_le htrans htotal hl hx hlimit hp le_rfl hfirst
  · exact fun h => ⟨_, h⟩

/-- The element that comes first of all is on no page, unless the first page fetches it. -/
theorem exists_sortedPage_first_iff (hl : l.Nodup) (hx : l[i]? = some x) (hlimit : 0 < limit)
    (hfirst : ∀ y ∈ l, y ≠ x → le x y ∧ ¬le y x) :
    (∃ p, x ∈ sortedPage le limit l p) ↔ i < limit := by
  have hrefl : le x x := by
    have hxx := htotal x x
    rwa [Bool.or_self] at hxx
  rw [exists_sortedPage_iff htrans htotal hl hx hlimit, mem_sortedPage_iff htrans htotal hl hx,
    ahead_eq_zero hl hx hrefl hfirst, Nat.le_zero, Nat.mul_eq_zero]
  constructor
  · rintro ⟨-, hzero | hzero⟩
    · exact Nat.lt_of_div_eq_zero hlimit hzero
    · exact absurd hzero hlimit.ne'
  · intro hi
    rw [Nat.div_eq_of_lt hi]
    exact ⟨by omega, .inl rfl⟩

end

end SortedPrefix
