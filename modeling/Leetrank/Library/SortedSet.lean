import Mathlib.Data.List.Sort
import Mathlib.Order.Lattice

namespace SortedSets
set_option autoImplicit true

variable {κ : Type u} {α : Type v} [LinearOrder κ] [LinearOrder α]

/-- The order from the highest score down; of equal scores the greater member comes first. -/
def Above (a b : κ × α) : Prop := b.2 < a.2 ∨ b.2 = a.2 ∧ b.1 ≤ a.1

instance (a b : κ × α) : Decidable (Above a b) := inferInstanceAs (Decidable (_ ∨ _ ∧ _))

instance : Std.Total (Above (κ := κ) (α := α)) where
  total := by
    intro a b
    rcases lt_trichotomy b.2 a.2 with h | h | h
    · exact .inl (.inl h)
    · rcases le_total b.1 a.1 with hk | hk
      · exact .inl (.inr ⟨h, hk⟩)
      · exact .inr (.inr ⟨h.symm, hk⟩)
    · exact .inr (.inl h)

instance : IsTrans (κ × α) Above where
  trans := by
    rintro a b c (hab | ⟨hab, hk⟩) (hbc | ⟨hbc, hk'⟩)
    · exact .inl (hbc.trans hab)
    · exact .inl (hbc ▸ hab)
    · exact .inl (hab ▸ hbc)
    · exact .inr ⟨hbc.trans hab, hk'.trans hk⟩

/-- Members with a score each, in the order of their ranks. -/
@[ext]
structure SortedSet (κ : Type u) (α : Type v) [LinearOrder κ] [LinearOrder α] where
  rows : List (κ × α)
  sorted : rows.Pairwise Above
  unique : (rows.map fun x => x.1).Nodup

def SortedSet.empty : SortedSet κ α := ⟨[], .nil, .nil⟩

/-- Give a member a score; one that is there loses the score that it had. -/
def SortedSet.add (s : SortedSet κ α) (member : κ) (score : α) : SortedSet κ α where
  rows := (s.rows.filter fun x => x.1 ≠ member).orderedInsert Above (member, score)
  sorted := (s.sorted.sublist List.filter_sublist).orderedInsert (member, score) _
  unique := by
    rw [((List.perm_orderedInsert Above (member, score) _).map _).nodup_iff, List.map_cons,
      List.nodup_cons]
    refine ⟨?_, s.unique.sublist (List.filter_sublist.map _)⟩
    intro h
    obtain ⟨x, hx, hmember⟩ := List.mem_map.1 h
    exact of_decide_eq_true (List.mem_filter.1 hx).2 hmember

/-- Remove the members with a score between two bounds, both included. -/
def SortedSet.removeByScore (s : SortedSet κ α) (low high : α) : SortedSet κ α where
  rows := s.rows.filter fun x => ¬(low ≤ x.2 ∧ x.2 ≤ high)
  sorted := s.sorted.sublist List.filter_sublist
  unique := s.unique.sublist (List.filter_sublist.map _)

def SortedSet.addAll (s : SortedSet κ α) (rows : List (κ × α)) : SortedSet κ α :=
  rows.foldl (fun s x => s.add x.1 x.2) s

/-- The rows from one rank to another, both counted from 0. -/
def SortedSet.range (s : SortedSet κ α) (start stop : Nat) : List (κ × α) :=
  (s.rows.drop start).take (stop + 1 - start)

def SortedSet.scoreOf (s : SortedSet κ α) (member : κ) : Option α :=
  (s.rows.find? fun x => x.1 = member).map fun x => x.2

/-- The rank of a member, counted from 0 at the highest score. -/
def SortedSet.revRank (s : SortedSet κ α) (member : κ) : Option Nat :=
  s.rows.findIdx? fun x => x.1 = member

theorem SortedSet.mem_of_scoreOf {s : SortedSet κ α} (h : s.scoreOf member = some score) :
    (member, score) ∈ s.rows := by
  obtain ⟨x, hx, rfl⟩ := Option.map_eq_some_iff.1 h
  have hmember := List.find?_some hx
  rw [decide_eq_true_eq] at hmember
  subst hmember
  exact List.mem_of_find?_eq_some hx

theorem SortedSet.revRank_eq_none_iff {s : SortedSet κ α} :
    s.revRank member = none ↔ member ∉ s.rows.map fun x => x.1 := by
  simp only [SortedSet.revRank, List.findIdx?_eq_none_iff, decide_eq_false_iff_not,
    List.mem_map, not_exists, not_and]

theorem SortedSet.getElem?_of_revRank {s : SortedSet κ α} (h : s.revRank member = some i) :
    (s.rows.map fun x => x.1)[i]? = some member := by
  obtain ⟨hi, hmember, -⟩ := List.findIdx?_eq_some_iff_getElem.1 h
  rw [List.getElem?_map, List.getElem?_eq_getElem hi, Option.map_some]
  exact congrArg some (of_decide_eq_true hmember)

theorem SortedSet.rows_add_perm {s : SortedSet κ α} (h : member ∉ s.rows.map fun x => x.1) :
    (s.add member score).rows.Perm ((member, score) :: s.rows) := by
  have hall : s.rows.filter (fun x => x.1 ≠ member) = s.rows := by
    rw [List.filter_eq_self]
    intro x hx
    rw [decide_eq_true_eq]
    rintro rfl
    exact h (List.mem_map_of_mem hx)
  rw [SortedSet.add]
  dsimp only
  rw [hall]
  exact List.perm_orderedInsert ..

theorem SortedSet.length_add {s : SortedSet κ α} (h : member ∉ s.rows.map fun x => x.1) :
    (s.add member score).rows.length = s.rows.length + 1 :=
  (SortedSet.rows_add_perm h).length_eq

theorem SortedSet.mem_members_add {s : SortedSet κ α} :
    k ∈ (s.add member score).rows.map (fun x => x.1) ↔
      k = member ∨ k ∈ s.rows.map fun x => x.1 := by
  simp only [SortedSet.add, List.mem_map, List.mem_orderedInsert, List.mem_filter,
    decide_eq_true_eq]
  constructor
  · rintro ⟨x, rfl | ⟨hx, -⟩, rfl⟩
    · exact .inl rfl
    · exact .inr ⟨x, hx, rfl⟩
  · rintro (rfl | ⟨x, hx, rfl⟩)
    · exact ⟨_, .inl rfl, rfl⟩
    · by_cases hk : x.1 = member
      · exact ⟨_, .inl rfl, hk.symm⟩
      · exact ⟨x, .inr ⟨hx, hk⟩, rfl⟩

theorem SortedSet.length_addAll {s : SortedSet κ α} {rows : List (κ × α)}
    (hrows : (rows.map fun x => x.1).Nodup)
    (hnew : ∀ k ∈ rows.map fun x => x.1, k ∉ s.rows.map fun x => x.1) :
    (s.addAll rows).rows.length = s.rows.length + rows.length := by
  induction rows generalizing s with
  | nil => rfl
  | cons x rows ih =>
    rw [List.map_cons, List.nodup_cons] at hrows
    rw [List.map_cons, List.forall_mem_cons] at hnew
    have hrest : ∀ k ∈ rows.map fun x => x.1, k ∉ (s.add x.1 x.2).rows.map fun x => x.1 := by
      intro k hk hmem
      rcases SortedSet.mem_members_add.1 hmem with rfl | hold
      · exact hrows.1 hk
      · exact hnew.2 k hk hold
    change ((s.add x.1 x.2).addAll rows).rows.length = _
    rw [ih hrows.2 hrest, SortedSet.length_add hnew.1, List.length_cons]
    omega

theorem SortedSet.length_range_zero (s : SortedSet κ α) (stop : Nat) :
    (s.range 0 stop).length = min (stop + 1) s.rows.length := by
  rw [SortedSet.range, List.length_take, List.drop_zero, Nat.sub_zero]

end SortedSets
