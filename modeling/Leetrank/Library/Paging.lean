import Leetrank.Library.OrderBy
import Mathlib.Data.List.Nodup
import Mathlib.Data.List.Sort
import Mathlib.Order.RelIso.Basic

namespace Paging
set_option autoImplicit true
open OrderBy

/-- A page of a list, counted from 0. -/
def page (limit : Nat) (l : List α) (p : Nat) : List α := (l.drop (p * limit)).take limit

/-- The first pages end to end, each of a list of its own. -/
def pages (limit : Nat) (orders : Nat → List α) (n : Nat) : List α :=
  (List.range n).flatMap fun p => page limit (orders p) p

theorem page_map (f : α → β) (limit : Nat) (l : List α) (p : Nat) :
    (page limit l p).map f = page limit (l.map f) p := by
  rw [page, page, List.map_take, List.map_drop]

/-- The pages of one list are the list. -/
theorem pages_const (limit : Nat) (l : List α) (n : Nat) :
    pages limit (fun _ => l) n = l.take (n * limit) := by
  induction n with
  | zero => rw [Nat.zero_mul, List.take_zero]; rfl
  | succ n ih =>
    rw [pages, List.range_succ, List.flatMap_append, ← pages, ih, Nat.succ_mul, List.take_add,
      List.flatMap_singleton, page]

variable {l xs : List α} {x : α} {i p limit n : Nat}

/-- What satisfies a predicate stands first, so to keep it commutes with taking the first ones. -/
theorem filter_take_of_pairwise {f : α → Bool} (h : l.Pairwise fun a b => f b → f a) (n : Nat) :
    (l.take n).filter f = (l.filter f).take n := by
  induction l generalizing n with
  | nil => rw [List.take_nil, List.filter_nil, List.take_nil]
  | cons a l ih =>
    cases n with
    | zero => rw [List.take_zero, List.take_zero, List.filter_nil]
    | succ n =>
      rw [List.pairwise_cons] at h
      rw [List.take_succ_cons]
      by_cases ha : f a = true
      · rw [List.filter_cons_of_pos ha, List.filter_cons_of_pos ha, List.take_succ_cons, ih h.2]
      · have hnone : ∀ b ∈ l, ¬f b = true := fun b hb hfb => ha (h.1 b hb hfb)
        rw [List.filter_cons_of_neg ha, List.filter_cons_of_neg ha,
          List.filter_eq_nil_iff.2 fun b hb => hnone b (List.mem_of_mem_take hb),
          List.filter_eq_nil_iff.2 hnone, List.take_nil]

theorem mem_take_index (hl : l.Nodup) (hx : l[i]? = some x) : x ∈ l.take n ↔ i < n := by
  rw [List.mem_iff_getElem?]
  constructor
  · rintro ⟨j, hj⟩
    rw [List.getElem?_take] at hj
    split at hj
    next hlt =>
      obtain ⟨hi, -⟩ := List.getElem?_eq_some_iff.1 hx
      rw [(List.getElem?_inj hi hl).1 (hx.trans hj.symm)]
      exact hlt
    next => cases hj
  · intro hi
    refine ⟨i, ?_⟩
    rw [List.getElem?_take, if_pos hi]
    exact hx

/-- An element of a list without repetitions is on the page of its index. -/
theorem mem_page_iff (hl : l.Nodup) (hlimit : 0 < limit) (hx : l[i]? = some x) :
    x ∈ page limit l p ↔ i / limit = p := by
  have hindex : x ∈ page limit l p ↔ ∃ j < limit, l[p * limit + j]? = some x := by
    rw [page, List.mem_iff_getElem?]
    refine exists_congr fun j => ?_
    rw [List.getElem?_take, List.getElem?_drop]
    by_cases hlt : j < limit
    · rw [if_pos hlt, and_iff_right hlt]
    · rw [if_neg hlt]
      exact iff_of_false nofun fun h => hlt h.1
  rw [hindex]
  constructor
  · rintro ⟨j, hlt, hj⟩
    obtain ⟨hi, -⟩ := List.getElem?_eq_some_iff.1 hx
    have heq : i = p * limit + j := (List.getElem?_inj hi hl).1 (hx.trans hj.symm)
    apply Nat.div_eq_of_lt_le
    · omega
    · rw [Nat.succ_mul]
      omega
  · rintro rfl
    exact ⟨i % limit, Nat.mod_lt i hlimit, by rw [Nat.div_add_mod']; exact hx⟩

variable [LinearOrder κ] {key : α → κ} {orders : Nat → List α}

/-- How many elements have a lower key. -/
def below (key : α → κ) (xs : List α) (x : α) : Nat := xs.countP fun y => key y < key x

/-- How many elements have no higher key. -/
def upTo (key : α → κ) (xs : List α) (x : α) : Nat := xs.countP fun y => key y ≤ key x

/-- No page ends between two elements with the same key. -/
def Untied (key : α → κ) (xs : List α) (limit : Nat) : Prop :=
  ∀ x ∈ xs, ∀ p, p * limit ≤ below key xs x ∨ upTo key xs x ≤ p * limit

/-- In a sorted list an element stands after those with a lower key and before those with a higher
one. -/
theorem index_bounds (h : Ordered key xs l) (hx : l[i]? = some x) :
    below key xs x ≤ i ∧ i < upTo key xs x := by
  obtain ⟨hi, rfl⟩ := List.getElem?_eq_some_iff.1 hx
  have hsplit : l = l.take i ++ l[i] :: l.drop (i + 1) := by
    rw [← List.drop_eq_getElem_cons hi, List.take_append_drop]
  have hs := h.sorted
  rw [hsplit, List.pairwise_append, List.pairwise_cons] at hs
  obtain ⟨-, ⟨hafter, -⟩, hbefore⟩ := hs
  have hlen : (l.take i).length = i := by
    rw [List.length_take, Nat.min_eq_left hi.le]
  generalize hy : l[i] = y at *
  rw [below, upTo, ← h.perm.countP_eq, ← h.perm.countP_eq, hsplit, List.countP_append,
    List.countP_append, List.countP_cons, List.countP_cons]
  constructor
  · have hnone : (l.drop (i + 1)).countP (fun z => decide (key z < key y)) = 0 := by
      rw [List.countP_eq_zero]
      intro z hz
      simpa using hafter z hz
    have hle := List.countP_le_length (p := fun z => decide (key z < key y)) (l := l.take i)
    have hself : decide (key y < key y) = false := decide_eq_false (lt_irrefl _)
    rw [hnone, hself, if_neg Bool.false_ne_true]
    omega
  · have hall : (l.take i).countP (fun z => decide (key z ≤ key y)) = i := by
      conv =>
        rhs
        rw [← hlen]
      rw [List.countP_eq_length]
      intro z hz
      exact decide_eq_true (hbefore z hz y List.mem_cons_self)
    have hself : decide (key y ≤ key y) = true := decide_eq_true le_rfl
    rw [hall, hself, if_pos rfl]
    omega

/-- An element that does not tie across the end is among the first ones in every order, or in none. -/
theorem mem_take_iff_of_untied (h : Ordered key xs l) (hxs : xs.Nodup) (hx : x ∈ xs)
    (htie : n ≤ below key xs x ∨ upTo key xs x ≤ n) : x ∈ l.take n ↔ upTo key xs x ≤ n := by
  obtain ⟨i, hi⟩ := List.mem_iff_getElem?.1 (h.perm.mem_iff.2 hx)
  obtain ⟨hlow, hhigh⟩ := index_bounds h hi
  rw [mem_take_index (h.perm.nodup_iff.2 hxs) hi]
  omega

/-- Without such ties an element is on the same page whatever the order is. -/
theorem Untied.mem_page_iff (h : Untied key xs limit) (hxs : xs.Nodup) (hlimit : 0 < limit)
    (hl : Ordered key xs l) : x ∈ page limit l p ↔ x ∈ xs ∧ below key xs x / limit = p := by
  have hmem (hx : x ∈ xs) : x ∈ page limit l p ↔ below key xs x / limit = p := by
    obtain ⟨i, hi⟩ := List.mem_iff_getElem?.1 (hl.perm.mem_iff.2 hx)
    obtain ⟨hlow, hhigh⟩ := index_bounds hl hi
    rw [Paging.mem_page_iff (hl.perm.nodup_iff.2 hxs) hlimit hi]
    -- the next boundary lies behind all elements with the same key
    have hpage : i / limit = below key xs x / limit := by
      have hnext := Nat.lt_div_mul_add (a := below key xs x) hlimit
      apply Nat.div_eq_of_lt_le
      · exact (Nat.div_mul_le_self ..).trans hlow
      · obtain hle | hle := h x hx (below key xs x / limit + 1)
        · rw [Nat.succ_mul] at hle
          omega
        · exact hhigh.trans_le hle
    rw [hpage]
  constructor
  · intro hx
    have hxs := hl.perm.mem_iff.1 (List.mem_of_mem_drop (List.mem_of_mem_take hx))
    exact ⟨hxs, (hmem hxs).1 hx⟩
  · rintro ⟨hx, hp⟩
    exact (hmem hx).2 hp

theorem below_lt_length (hx : x ∈ xs) : below key xs x < xs.length := by
  apply lt_of_le_of_ne List.countP_le_length
  intro heq
  exact lt_irrefl _ (of_decide_eq_true (List.countP_eq_length.1 heq x hx))

/-- Then the pages of any orders are the list, up to its order. -/
theorem Untied.pages_perm (h : Untied key xs limit) (hxs : xs.Nodup) (hlimit : 0 < limit)
    (hn : xs.length ≤ n * limit) (horders : ∀ p, Ordered key xs (orders p)) :
    (pages limit orders n).Perm xs := by
  have hnodup : (pages limit orders n).Nodup := by
    rw [pages, List.nodup_flatMap]
    constructor
    · intro p _
      have hl := (horders p).perm.nodup_iff.2 hxs
      exact (hl.sublist (List.drop_sublist ..)).sublist (List.take_sublist ..)
    · apply List.nodup_range.imp
      intro p q hne x hp hq
      rw [h.mem_page_iff hxs hlimit (horders _)] at hp hq
      exact hne (hp.2.symm.trans hq.2)
  rw [List.perm_ext_iff_of_nodup hnodup hxs]
  intro x
  rw [pages, List.mem_flatMap]
  constructor
  · rintro ⟨p, -, hx⟩
    exact ((h.mem_page_iff hxs hlimit (horders p)).1 hx).1
  · intro hx
    refine ⟨below key xs x / limit, ?_, (h.mem_page_iff hxs hlimit (horders _)).2 ⟨hx, rfl⟩⟩
    rw [List.mem_range, Nat.div_lt_iff_lt_mul hlimit]
    exact (below_lt_length hx).trans_le hn

/-- Some order of a list. -/
theorem exists_ordered (key : α → κ) (xs : List α) : ∃ l, Ordered key xs l :=
  ⟨xs.insertionSort (Order.Preimage key (· ≤ ·)), List.perm_insertionSort ..,
    List.pairwise_insertionSort ..⟩

/-- The places of a tie have its key. -/
theorem key_eq_of_bounds (h : Ordered key xs l) {y : α} (hy : l[i]? = some y)
    (hlow : below key xs x ≤ i) (hhigh : i < upTo key xs x) : key y = key x := by
  obtain ⟨hlow', hhigh'⟩ := index_bounds h hy
  obtain hlt | heq | hgt := lt_trichotomy (key y) (key x)
  · have hle : upTo key xs y ≤ below key xs x := by
      apply List.countP_mono_left
      intro z _ hz
      rw [decide_eq_true_eq] at hz ⊢
      exact hz.trans_lt hlt
    omega
  · exact heq
  · have hle : upTo key xs x ≤ below key xs y := by
      apply List.countP_mono_left
      intro z _ hz
      rw [decide_eq_true_eq] at hz ⊢
      exact hz.trans_lt hgt
    omega

/-- An element at the end of a page of one order and at the start of the next one of another is on
two pages. -/
theorem not_nodup_pages {l' : List α} (hl : l.Nodup) (hl' : l'.Nodup) (hlimit : 0 < limit)
    (hb : (p + 1) * limit = i + 1) (hx : l[i]? = some x) (hx' : l'[i + 1]? = some x)
    (hn : p + 1 < n) : ¬(pages limit (fun q => if q < p + 1 then l else l') n).Nodup := by
  intro hnodup
  rw [pages, List.nodup_flatMap] at hnodup
  have hpage : x ∈ page limit l p := by
    rw [mem_page_iff hl hlimit hx]
    apply Nat.div_eq_of_lt_le
    · rw [Nat.succ_mul] at hb
      omega
    · omega
  have hpage' : x ∈ page limit l' (p + 1) := by
    rw [mem_page_iff hl' hlimit hx', ← hb, Nat.mul_div_cancel _ hlimit]
  have hdisjoint := List.pairwise_iff_getElem.1 hnodup.2 p (p + 1)
    (by rw [List.length_range]; omega) (by rw [List.length_range]; omega) p.lt_succ_self
  rw [List.getElem_range, List.getElem_range] at hdisjoint
  have hdisjoint : List.Disjoint (page limit (if p < p + 1 then l else l') p)
      (page limit (if p + 1 < p + 1 then l else l') (p + 1)) := hdisjoint
  rw [if_pos p.lt_succ_self, if_neg (lt_irrefl _)] at hdisjoint
  exact hdisjoint hpage hpage'

/-- Two neighbours in a tie come in both orders. -/
theorem exists_swapped {b : Nat} (hlow : below key xs x ≤ b) (hhigh : b + 1 < upTo key xs x) :
    ∃ l l' y, Ordered key xs l ∧ Ordered key xs l' ∧ l[b]? = some y ∧ l'[b + 1]? = some y := by
  obtain ⟨l, hl⟩ := exists_ordered key xs
  have hlen : upTo key xs x ≤ l.length := hl.perm.length_eq ▸ List.countP_le_length
  have hb : b + 1 < l.length := by omega
  have hu := List.getElem?_eq_getElem (l := l) (i := b) (by omega)
  have hv := List.getElem?_eq_getElem (l := l) (i := b + 1) hb
  have hkeys : key l[b] = key l[b + 1] :=
    (key_eq_of_bounds (x := x) hl hu (by omega) (by omega)).trans
      (key_eq_of_bounds hl hv (by omega) (by omega)).symm
  have hsplit : l = l.take b ++ l[b] :: l[b + 1] :: l.drop (b + 2) := by
    rw [← List.drop_eq_getElem_cons hb, ← List.drop_eq_getElem_cons, List.take_append_drop]
  refine ⟨l, l.take b ++ l[b + 1] :: l[b] :: l.drop (b + 2), l[b], hl, ⟨?_, ?_⟩, hu, ?_⟩
  · apply List.Perm.trans _ hl.perm
    conv =>
      rhs
      rw [hsplit]
    exact (List.Perm.swap ..).append_left _
  · have hs := hl.sorted
    rw [← List.pairwise_map (R := fun a b => a ≤ b)] at hs ⊢
    rw [hsplit] at hs
    rw [List.map_append, List.map_cons, List.map_cons] at hs ⊢
    rw [hkeys] at hs ⊢
    exact hs
  · have htake : (l.take b).length = b := by
      rw [List.length_take, Nat.min_eq_left (by omega)]
    rw [List.getElem?_append_right (by omega), htake, Nat.add_sub_cancel_left]
    rfl

/-- The pages show every element once, whatever the order of each of them is, exactly if no page
ends within a tie. -/
theorem pages_perm_iff (hxs : xs.Nodup) (hlimit : 0 < limit) (hn : xs.length ≤ n * limit) :
    (∀ orders, (∀ p, Ordered key xs (orders p)) → (pages limit orders n).Perm xs) ↔
      Untied key xs limit := by
  constructor
  · intro h x hx p
    by_contra hnot
    rw [not_or, Nat.not_le, Nat.not_le] at hnot
    obtain ⟨hlow, hhigh⟩ := hnot
    obtain ⟨p, rfl⟩ : ∃ q, p = q + 1 := by
      refine Nat.exists_eq_add_one.2 (Nat.pos_of_ne_zero ?_)
      rintro rfl
      omega
    obtain ⟨b, hb⟩ : ∃ b, (p + 1) * limit = b + 1 := Nat.exists_eq_add_one.2 (by omega)
    -- the element at the end of page p is at the start of the next one in another order
    obtain ⟨l, l', y, hl, hl', hy, hy'⟩ :=
      exists_swapped (Nat.lt_succ_iff.1 (hb ▸ hlow)) (hb ▸ hhigh)
    have horders (q : Nat) : Ordered key xs (if q < p + 1 then l else l') := by
      split
      · exact hl
      · exact hl'
    have hlast : p + 1 < n := by
      have hle : upTo key xs x ≤ xs.length := List.countP_le_length
      exact Nat.lt_of_mul_lt_mul_right (hhigh.trans_le (hle.trans hn))
    have hnodup := (h _ horders).nodup_iff.2 hxs
    exact not_nodup_pages (hl.perm.nodup_iff.2 hxs) (hl'.perm.nodup_iff.2 hxs) hlimit hb hy hy'
      hlast hnodup
  · intro h orders horders
    exact h.pages_perm hxs hlimit hn horders

end Paging
