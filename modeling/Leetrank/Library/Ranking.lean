import Mathlib.Data.List.Sort

namespace Ranking
set_option autoImplicit true

variable {α : Type u} {le : α → α → Bool} {l : List α} {x : α}

/-- How many elements of a list come strictly before an element. -/
def before (le : α → α → Bool) (l : List α) (x : α) : Nat := l.countP fun y => !le x y

/-- In a list without ties as many come before an element as stand before it. -/
theorem before_eq_index (hs : l.Pairwise fun a b => le a b) (hne : l.Pairwise fun a b => ¬le b a)
    (hrefl : le x x) (hx : l[i]? = some x) : before le l x = i := by
  obtain ⟨hi, rfl⟩ := List.getElem?_eq_some_iff.1 hx
  have hlen : (l.take i).length = i := by
    rw [List.length_take, Nat.min_eq_left hi.le]
  have hearlier : (l.take i).countP (fun y => !le l[i] y) = i := by
    conv =>
      rhs
      rw [← hlen]
    rw [List.countP_eq_length]
    intro y hy
    obtain ⟨j, hj, rfl⟩ := List.mem_iff_getElem.1 hy
    rw [List.length_take] at hj
    have hlt : j < i := lt_of_lt_of_le hj (min_le_left ..)
    rw [List.getElem_take]
    have hnot := List.pairwise_iff_getElem.1 hne j i (hlt.trans hi) hi hlt
    simpa using hnot
  have hlater : (l.drop i).countP (fun y => !le l[i] y) = 0 := by
    rw [List.drop_eq_getElem_cons hi, List.countP_eq_zero]
    rintro y (_ | ⟨_, hy⟩)
    · simpa using hrefl
    · have hrest := hs.sublist (List.drop_sublist i l)
      rw [List.drop_eq_getElem_cons hi, List.pairwise_cons] at hrest
      simpa using hrest.1 y hy
  calc
    before le l l[i] = ((l.take i).countP fun y => !le l[i] y) +
        (l.drop i).countP fun y => !le l[i] y := by
      rw [before, ← List.countP_append, List.take_append_drop]
    _ = i := by rw [hearlier, hlater, Nat.add_zero]

/-- A total order without ties between different elements of a list. -/
structure Ranks (le : α → α → Bool) (l : List α) : Prop where
  total : ∀ a b, le a b || le b a
  trans : ∀ a b c, le a b → le b c → le a c
  distinct : l.Pairwise fun a b => ¬(le a b ∧ le b a)

theorem Ranks.refl (h : Ranks le l) (x : α) : le x x := by
  have hxx := h.total x x
  rwa [Bool.or_self] at hxx

/-- The first `n` elements in such an order are those that fewer than `n` come before. -/
theorem Ranks.mem_take_mergeSort_iff (h : Ranks le l) (n : Nat) (x : α) :
    x ∈ (l.mergeSort le).take n ↔ x ∈ l ∧ before le l x < n := by
  have hperm := List.mergeSort_perm l le
  have hs := List.pairwise_mergeSort h.trans h.total l
  have hne : (l.mergeSort le).Pairwise fun a b => ¬le b a := by
    have hdistinct : (l.mergeSort le).Pairwise fun a b => ¬(le a b ∧ le b a) :=
      (hperm.pairwise_iff fun hab => fun hba => hab hba.symm).2 h.distinct
    exact hs.imp₂ (fun a b hab hnot hba => hnot ⟨hab, hba⟩) hdistinct
  have hbefore : before le (l.mergeSort le) x = before le l x := hperm.countP_eq _
  constructor
  · intro hx
    have hmem : x ∈ l := List.mem_mergeSort.1 (List.mem_of_mem_take hx)
    obtain ⟨i, hi⟩ := List.mem_iff_getElem?.1 hx
    rw [List.getElem?_take] at hi
    split at hi
    next hlt =>
      rw [← hbefore, before_eq_index hs hne (h.refl x) hi]
      exact ⟨hmem, hlt⟩
    next => cases hi
  · rintro ⟨hmem, hlt⟩
    have hsorted : x ∈ l.mergeSort le := List.mem_mergeSort.2 hmem
    obtain ⟨i, hi⟩ := List.mem_iff_getElem?.1 hsorted
    rw [← hbefore, before_eq_index hs hne (h.refl x) hi] at hlt
    apply List.mem_of_getElem? (i := i)
    rw [List.getElem?_take, if_pos hlt]
    exact hi

/-- A comparison sorts a list if it is transitive and total on the elements of the list. -/
theorem pairwise_mergeSort_of_mem
    (htrans : ∀ a ∈ l, ∀ b ∈ l, ∀ c ∈ l, le a b → le b c → le a c)
    (htotal : ∀ a ∈ l, ∀ b ∈ l, le a b || le b a) :
    (l.mergeSort le).Pairwise fun a b => le a b := by
  have hattach : (l.attach.mergeSort fun a b => le a.1 b.1).map Subtype.val = l.mergeSort le := by
    rw [List.map_mergeSort (s := le) fun _ _ _ _ => rfl, List.attach_map_subtype_val]
  rw [← hattach, List.pairwise_map]
  apply List.pairwise_mergeSort
  · exact fun a b c => htrans a.1 a.2 b.1 b.2 c.1 c.2
  · exact fun a b => htotal a.1 a.2 b.1 b.2

/-- A stable sort keeps the order of what ties. -/
theorem pairwise_mergeSort_stable {r : α → α → Prop} (htrans : ∀ a b c, le a b → le b c → le a c)
    (htotal : ∀ a b, le a b || le b a) (hr : l.Pairwise r) :
    (l.mergeSort le).Pairwise fun a b => le a b ∧ (le b a → r a b) := by
  rw [← List.mergeSort_zipIdx, List.pairwise_map]
  have hperm := List.mergeSort_perm l.zipIdx (List.zipIdxLE le)
  have hsorted := List.pairwise_mergeSort (List.zipIdxLE_trans htrans) (List.zipIdxLE_total htotal)
    l.zipIdx
  have hnodup : (l.zipIdx.mergeSort (List.zipIdxLE le)).Pairwise fun a b => a.2 ≠ b.2 := by
    rw [hperm.pairwise_iff fun h => h.symm, ← List.pairwise_map (R := fun a b => a ≠ b),
      List.zipIdx_map_snd]
    exact List.nodup_range'
  refine (hsorted.and hnodup).imp_of_mem ?_
  rintro ⟨a, i⟩ ⟨b, j⟩ ha hb ⟨hle, hne⟩
  have hi := List.mk_mem_zipIdx_iff_getElem?.1 (hperm.mem_iff.1 ha)
  have hj := List.mk_mem_zipIdx_iff_getElem?.1 (hperm.mem_iff.1 hb)
  unfold List.zipIdxLE at hle
  dsimp only at hle hne ⊢
  split at hle
  next hab =>
    refine ⟨hab, fun hba => ?_⟩
    rw [if_pos hba] at hle
    have hlt : i < j := lt_of_le_of_ne (of_decide_eq_true hle) hne
    obtain ⟨hi', rfl⟩ := List.getElem?_eq_some_iff.1 hi
    obtain ⟨hj', rfl⟩ := List.getElem?_eq_some_iff.1 hj
    exact List.pairwise_iff_getElem.1 hr i j hi' hj' hlt
  next => cases hle

section Keys

variable {κ : Type v} [LinearOrder κ] {f : α → κ} {r : α → α → Prop} {a b c : α}

/-- The order by a key from its greatest value down, in which `r` decides between equal keys. -/
def Descending (f : α → κ) (r : α → α → Prop) (a b : α) : Prop := f b < f a ∨ f b = f a ∧ r a b

theorem Descending.trans (h : r a b → r b c → r a c) (hab : Descending f r a b)
    (hbc : Descending f r b c) : Descending f r a c := by
  rcases hab with hab | ⟨hab, rab⟩
  · rcases hbc with hbc | ⟨hbc, -⟩
    · exact .inl (hbc.trans hab)
    · exact .inl (hbc ▸ hab)
  · rcases hbc with hbc | ⟨hbc, rbc⟩
    · exact .inl (hab ▸ hbc)
    · exact .inr ⟨hbc.trans hab, h rab rbc⟩

theorem Descending.total (h : r a b ∨ r b a) : Descending f r a b ∨ Descending f r b a := by
  rcases lt_trichotomy (f b) (f a) with hlt | heq | hlt
  · exact .inl (.inl hlt)
  · exact h.imp (fun rab => .inr ⟨heq, rab⟩) fun rba => .inr ⟨heq.symm, rba⟩
  · exact .inr (.inl hlt)

theorem Descending.asymm (h : r a b → ¬r b a) (hab : Descending f r a b) :
    ¬Descending f r b a := by
  rintro (hba | ⟨hba, rba⟩)
  · rcases hab with hab | ⟨hab, -⟩
    · exact lt_asymm hab hba
    · exact hba.ne' hab
  · rcases hab with hab | ⟨-, rab⟩
    · exact hab.ne' hba
    · exact h rab rba

theorem descending_congr (h : r a b ↔ r' a b) : Descending f r a b ↔ Descending f r' a b :=
  or_congr Iff.rfl (and_congr Iff.rfl h)

end Keys

end Ranking
