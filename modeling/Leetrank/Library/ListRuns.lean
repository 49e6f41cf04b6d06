import Mathlib.Order.Bounds.Basic
import Mathlib.Order.Nat

namespace ListRuns
set_option autoImplicit true

variable {α : Type u} {p : α → Prop} {l : List α} {a : α} {k longest : Nat}

/-- The lengths of the contiguous runs of elements with a property. -/
def InnerRuns (p : α → Prop) (l : List α) : Set Nat :=
  {k | ∃ run, run <:+: l ∧ (∀ a ∈ run, p a) ∧ run.length = k}

/-- The lengths of those runs that end with the last element. -/
def EndRuns (p : α → Prop) (l : List α) : Set Nat :=
  {k | ∃ run, run <:+ l ∧ (∀ a ∈ run, p a) ∧ run.length = k}

theorem endRuns_subset (p : α → Prop) (l : List α) : EndRuns p l ⊆ InnerRuns p l := by
  rintro k ⟨run, hrun, hp, hk⟩
  exact ⟨run, hrun.isInfix, hp, hk⟩

theorem le_length_of_innerRuns (h : k ∈ InnerRuns p l) : k ≤ l.length := by
  obtain ⟨run, hrun, _, rfl⟩ := h
  exact hrun.length_le

theorem zero_mem_endRuns (p : α → Prop) (l : List α) : 0 ∈ EndRuns p l :=
  ⟨[], List.nil_suffix, fun _ h => (List.not_mem_nil h).elim, rfl⟩

theorem isGreatest_endRuns_nil (p : α → Prop) : IsGreatest (EndRuns p []) 0 := by
  refine ⟨zero_mem_endRuns p [], ?_⟩
  rintro k ⟨run, hrun, _, rfl⟩
  exact hrun.length_le

theorem isGreatest_innerRuns_nil (p : α → Prop) : IsGreatest (InnerRuns p []) 0 :=
  ⟨endRuns_subset p [] (zero_mem_endRuns p []), fun _ h => le_length_of_innerRuns h⟩

/-- One more element with the property makes the run at the end longer by one. -/
theorem isGreatest_endRuns_concat (h : IsGreatest (EndRuns p l) k) (ha : p a) :
    IsGreatest (EndRuns p (l ++ [a])) (k + 1) := by
  obtain ⟨⟨run, hrun, hp, rfl⟩, hmax⟩ := h
  constructor
  · refine ⟨run ++ [a], ?_, ?_, List.length_append⟩
    · obtain ⟨pre, rfl⟩ := hrun
      exact ⟨pre, (List.append_assoc pre run [a]).symm⟩
    · exact List.forall_mem_append.2 ⟨hp, List.forall_mem_singleton.2 ha⟩
  · rintro m ⟨other, hother, hpo, rfl⟩
    rcases List.suffix_concat_iff.1 hother with rfl | ⟨init, rfl, hinit⟩
    · exact Nat.zero_le _
    · have hle := hmax ⟨init, hinit, fun b hb => hpo b (List.mem_append_left _ hb), rfl⟩
      rw [List.length_append]
      exact Nat.succ_le_succ hle

/-- One without it leaves no run at the end. -/
theorem isGreatest_endRuns_concat_of_not (l : List α) (ha : ¬p a) :
    IsGreatest (EndRuns p (l ++ [a])) 0 := by
  refine ⟨zero_mem_endRuns p _, ?_⟩
  rintro m ⟨other, hother, hpo, rfl⟩
  rcases List.suffix_concat_iff.1 hother with rfl | ⟨init, rfl, _⟩
  · exact Nat.zero_le _
  · exact absurd (hpo a (List.mem_append_right _ List.mem_cons_self)) ha

theorem innerRuns_concat (p : α → Prop) (l : List α) (a : α) :
    InnerRuns p (l ++ [a]) = InnerRuns p l ∪ EndRuns p (l ++ [a]) := by
  ext k
  constructor
  · rintro ⟨run, hrun, hp, hk⟩
    rcases List.infix_concat_iff.1 hrun with hend | hinner
    · exact .inr ⟨run, hend, hp, hk⟩
    · exact .inl ⟨run, hinner, hp, hk⟩
  · rintro (⟨run, hrun, hp, hk⟩ | hend)
    · exact ⟨run, List.infix_concat_iff.2 (.inr hrun), hp, hk⟩
    · exact endRuns_subset p _ hend

/-- The longest run is the longest one so far, or the one at the new end. -/
theorem isGreatest_innerRuns_concat (h : IsGreatest (InnerRuns p l) longest)
    (hend : IsGreatest (EndRuns p (l ++ [a])) k) :
    IsGreatest (InnerRuns p (l ++ [a])) (max longest k) := by
  rw [innerRuns_concat]
  exact h.union hend

end ListRuns
