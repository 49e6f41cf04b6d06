import Mathlib.Data.List.Basic
import Mathlib.Order.Defs.PartialOrder

namespace OrderBy
set_option autoImplicit true

variable [PartialOrder κ] {key : α → κ} {rows l : List α}

/-- The lists in which a query that sorts by a key only may return its rows. -/
structure Ordered (key : α → κ) (rows l : List α) : Prop where
  perm : l.Perm rows
  sorted : l.Pairwise fun a b => key a ≤ key b

/-- A row with a lowest key may come first. -/
theorem Ordered.front (hs : rows.Pairwise fun a b => key a ≤ key b) (hb : b ∈ rows)
    (hlow : ∀ a ∈ rows, key b ≤ key a) : ∃ rest, Ordered key rows (b :: rest) := by
  obtain ⟨pre, post, rfl⟩ := List.append_of_mem hb
  refine ⟨pre ++ post, List.perm_middle.symm, List.pairwise_cons.2 ⟨fun a ha => hlow a ?_, ?_⟩⟩
  · rcases List.mem_append.1 ha with ha | ha
    · exact List.mem_append_left _ ha
    · exact List.mem_append_right _ (List.mem_cons_of_mem _ ha)
  · exact hs.sublist ((List.Sublist.refl pre).append (List.sublist_cons_self b post))

/-- The order of sorted rows is determined exactly if rows with the same key are equal. -/
theorem ordered_unique_iff (hs : rows.Pairwise fun a b => key a ≤ key b) :
    (∀ l, Ordered key rows l → l = rows) ↔ ∀ a ∈ rows, ∀ b ∈ rows, key a = key b → a = b := by
  constructor
  · intro h
    induction rows with
    | nil => exact fun _ ha => (List.not_mem_nil ha).elim
    | cons x rows ih =>
      obtain ⟨hx, hs'⟩ := List.pairwise_cons.1 hs
      have hrows := ih hs' fun l hl => List.cons.inj (h (x :: l) ⟨hl.perm.cons x,
        List.pairwise_cons.2 ⟨fun a ha => hx a (hl.perm.mem_iff.1 ha), hl.sorted⟩⟩) |>.2
      -- a row that ties with the first one could come in its place
      have hfirst : ∀ b ∈ rows, key x = key b → x = b := by
        intro b hb heq
        have hlow : ∀ a ∈ x :: rows, key b ≤ key a := by
          intro a ha
          rw [← heq]
          rcases List.mem_cons.1 ha with rfl | ha
          · exact le_rfl
          · exact hx a ha
        obtain ⟨rest, hrest⟩ := Ordered.front hs (List.mem_cons_of_mem x hb) hlow
        exact (List.cons.inj (h _ hrest)).1.symm
      intro a ha b hb heq
      rcases List.mem_cons.1 ha with hax | har <;> rcases List.mem_cons.1 hb with hbx | hbr
      · exact hax.trans hbx.symm
      · rw [hax] at heq ⊢
        exact hfirst b hbr heq
      · rw [hbx] at heq ⊢
        exact (hfirst a har heq.symm).symm
      · exact hrows a har b hbr heq
  · intro h l hl
    refine List.Perm.eq_of_pairwise ?_ hl.sorted hs hl.perm
    intro a b ha hb hab hba
    exact h a (hl.perm.mem_iff.1 ha) b hb (le_antisymm hab hba)

/-- All such lists have the same keys in the same order. -/
theorem Ordered.map_key_eq (h : Ordered key rows l) (h' : Ordered key rows l') :
    l.map key = l'.map key := by
  have hperm : (l.map key).Perm (l'.map key) := (h.perm.trans h'.perm.symm).map key
  have hs : (l.map key).Pairwise fun a b => a ≤ b := List.pairwise_map.2 h.sorted
  have hs' : (l'.map key).Pairwise fun a b => a ≤ b := List.pairwise_map.2 h'.sorted
  exact hperm.eq_of_pairwise (fun _ _ _ _ hab hba => le_antisymm hab hba) hs hs'

theorem Ordered.map {key' : β → κ} {enc : α → β} (hkey : ∀ a ∈ rows, key' (enc a) = key a)
    (h : Ordered key rows l) : Ordered key' (rows.map enc) (l.map enc) where
  perm := h.perm.map enc
  sorted := by
    rw [List.pairwise_map]
    apply h.sorted.imp_of_mem
    intro a b ha hb hab
    rw [hkey a (h.perm.mem_iff.1 ha), hkey b (h.perm.mem_iff.1 hb)]
    exact hab

theorem filterMap_map_of_decodes {enc : α → β} {dec : β → Option α}
    (h : ∀ a ∈ l, dec (enc a) = some a) : (l.map enc).filterMap dec = l := by
  rw [List.filterMap_map]
  conv =>
    rhs
    rw [← List.filterMap_some (l := l)]
  exact List.filterMap_congr h

/-- Rows that are read back from a table keep their order. -/
theorem Ordered.decode {key' : β → κ} {enc : α → β} {dec : β → Option α}
    (hkey : ∀ a ∈ rows, key' (enc a) = key a) (hdec : ∀ a ∈ rows, dec (enc a) = some a)
    (h : Ordered key' (rows.map enc) l') : Ordered key rows (l'.filterMap dec) where
  perm := by
    have hperm := h.perm.filterMap dec
    rwa [filterMap_map_of_decodes hdec] at hperm
  sorted := by
    rw [List.pairwise_filterMap]
    apply h.sorted.imp_of_mem
    intro x y hx hy hxy a ha b hb
    obtain ⟨c, hc, rfl⟩ := List.mem_map.1 (h.perm.mem_iff.1 hx)
    obtain ⟨d, hd, rfl⟩ := List.mem_map.1 (h.perm.mem_iff.1 hy)
    rw [hdec c hc] at ha
    rw [hdec d hd] at hb
    cases ha
    cases hb
    rwa [hkey a hc, hkey b hd] at hxy

/-- What is read back from a table is what was stored, whatever order the query returns, exactly
if the order of the rows is determined. -/
theorem decode_unique_iff {key' : β → κ} {enc : α → β} {dec : β → Option α}
    (hkey : ∀ a ∈ rows, key' (enc a) = key a) (hdec : ∀ a ∈ rows, dec (enc a) = some a) :
    (∀ l', Ordered key' (rows.map enc) l' → l'.filterMap dec = rows) ↔
      ∀ l, Ordered key rows l → l = rows := by
  constructor
  · intro h l hl
    rw [← h _ (hl.map hkey), filterMap_map_of_decodes]
    exact fun a ha => hdec a (hl.perm.mem_iff.1 ha)
  · exact fun h l' hl' => h _ (hl'.decode hkey hdec)

end OrderBy
