import Leetrank.Library.InsertionMap
import Mathlib.Data.List.Induction
import Mathlib.Data.List.Perm.Basic

namespace InsertionOrder
set_option autoImplicit true

variable {κ : Type u} [DecidableEq κ] {f : α → κ} {m : InsertionMap κ Nat} {k : κ}

/-- One more of a key. -/
def InsertionMap.count (m : InsertionMap κ Nat) (k : κ) : InsertionMap κ Nat :=
  m.set k ((AList.lookup k m).getD 0 + 1)

/-- How many elements have each key, in the order in which the keys first occur. -/
def countBy (f : α → κ) (l : List α) : InsertionMap κ Nat :=
  l.foldl (fun m a => InsertionMap.count m (f a)) ∅

theorem lookup_foldl_count (l : List α) :
    (AList.lookup k (l.foldl (fun m a => InsertionMap.count m (f a)) m)).getD 0 =
      (AList.lookup k m).getD 0 + l.countP fun a => f a = k := by
  induction l generalizing m with
  | nil => rfl
  | cons a l ih =>
    rw [List.foldl_cons, ih, InsertionMap.count, InsertionMap.lookup_set, List.countP_cons]
    by_cases hk : k = f a
    · subst hk
      rw [if_pos rfl, Option.getD_some, if_pos (decide_eq_true rfl)]
      omega
    · rw [if_neg hk, if_neg fun heq => hk (of_decide_eq_true heq).symm, Nat.add_zero]

theorem lookup_countBy (f : α → κ) (l : List α) (k : κ) :
    (AList.lookup k (countBy f l)).getD 0 = l.countP fun a => f a = k := by
  rw [countBy, lookup_foldl_count, AList.lookup_empty, Option.getD_none, Nat.zero_add]

theorem mem_foldl_count (l : List α) :
    k ∈ l.foldl (fun m a => InsertionMap.count m (f a)) m ↔ k ∈ m ∨ k ∈ l.map f := by
  induction l generalizing m with
  | nil => exact (or_iff_left List.not_mem_nil).symm
  | cons a l ih =>
    rw [List.foldl_cons, ih, InsertionMap.count, mem_set, List.map_cons, List.mem_cons]
    tauto

theorem mem_countBy (f : α → κ) (l : List α) (k : κ) : k ∈ countBy f l ↔ k ∈ l.map f := by
  rw [countBy, mem_foldl_count]
  exact or_iff_right (AList.notMem_empty k)

/-- Elements with a key that is there do not change the order. -/
theorem keys_foldl_count_of_mem {l : List α} (hm : k ∈ m) (h : ∀ a ∈ l, f a = k) :
    (l.foldl (fun m a => InsertionMap.count m (f a)) m).keys = m.keys := by
  induction l generalizing m with
  | nil => rfl
  | cons a l ih =>
    rw [List.forall_mem_cons] at h
    have hm' : k ∈ m.count (f a) := mem_set.2 (.inr hm)
    rw [List.foldl_cons, ih hm' h.2, InsertionMap.count, h.1, keys_set_of_mem hm]

/-- Elements that come key by key leave the keys in this order. -/
theorem keys_countBy_flatMap {ks : List κ} {g : κ → List α} (hks : ks.Nodup)
    (hne : ∀ k ∈ ks, g k ≠ []) (hg : ∀ k ∈ ks, ∀ a ∈ g k, f a = k) :
    (countBy f (ks.flatMap g)).keys.reverse = ks := by
  induction ks using List.reverseRecOn with
  | nil => rfl
  | append_singleton ks k ih =>
    have hrest := ih (hks.sublist (List.sublist_append_left ..))
      (fun j hj => hne j (List.mem_append_left _ hj))
      fun j hj => hg j (List.mem_append_left _ hj)
    have hlast : k ∈ ks ++ [k] := List.mem_append_right _ (List.mem_singleton_self k)
    obtain ⟨a, l, hal⟩ := List.exists_cons_of_ne_nil (hne k hlast)
    have hall := hg k hlast
    rw [hal, List.forall_mem_cons] at hall
    have hnew : k ∉ countBy f (ks.flatMap g) := by
      rw [AList.mem_keys, ← List.mem_reverse, hrest]
      intro hmem
      exact (List.nodup_append.1 hks).2.2 k hmem k (List.mem_singleton_self k) rfl
    have hkeys : (countBy f ((ks ++ [k]).flatMap g)).keys =
        k :: (countBy f (ks.flatMap g)).keys := by
      rw [countBy, List.flatMap_append, List.flatMap_singleton, hal, List.foldl_append,
        List.foldl_cons, hall.1, ← countBy]
      have hmem : k ∈ (countBy f (ks.flatMap g)).count k := mem_set.2 (.inl rfl)
      rw [keys_foldl_count_of_mem hmem hall.2, InsertionMap.count, keys_set_of_not_mem hnew]
    rw [hkeys, List.reverse_cons, hrest]

end InsertionOrder
