import Mathlib.Data.List.AList

namespace InsertionOrder
set_option autoImplicit true

/-- A map that remembers its order of insertion, from the key inserted last to the first one. -/
abbrev InsertionMap (κ : Type u) (α : Type v) := AList fun _ : κ => α

variable [DecidableEq κ]

/-- Give a key a value; a key that is there keeps its place in the order. -/
def InsertionMap.set (m : InsertionMap κ α) (k : κ) (a : α) : InsertionMap κ α :=
  if k ∈ m then m.replace k a else m.insert k a

def InsertionMap.oldest (m : InsertionMap κ α) : Option κ := m.keys.getLast?

theorem dlookup_kreplace (l : List (Sigma fun _ : κ => α)) (k j : κ) (a : α) :
    (l.kreplace k a).dlookup j =
      if j = k then (l.dlookup j).map fun _ => a else l.dlookup j := by
  induction l with
  | nil => simp [List.kreplace]
  | cons e l ih =>
    obtain ⟨i, b⟩ := e
    rw [List.kreplace, List.lookmap_cons]
    by_cases hk : k = i
    · subst hk
      by_cases hj : j = k
      · subst hj
        simp
      · have hne (b : α) : List.dlookup j (⟨k, b⟩ :: l) = l.dlookup j :=
          List.dlookup_cons_ne l ⟨k, b⟩ hj
        simp [hj, hne]
    · rw [← List.kreplace]
      by_cases hj : j = i
      · subst hj
        simp [hk, Ne.symm hk]
      · have hne (l : List (Sigma fun _ : κ => α)) : List.dlookup j (⟨i, b⟩ :: l) = l.dlookup j :=
          List.dlookup_cons_ne l ⟨i, b⟩ hj
        simp only [hk, ↓reduceIte, hne, ih]

theorem InsertionMap.lookup_replace (m : InsertionMap κ α) (k j : κ) (a : α) :
    AList.lookup j (m.replace k a) =
      if j = k then (m.lookup j).map fun _ => a else m.lookup j :=
  dlookup_kreplace m.entries k j a

theorem InsertionMap.lookup_set (m : InsertionMap κ α) (k j : κ) (a : α) :
    AList.lookup j (m.set k a) = if j = k then some a else m.lookup j := by
  rw [InsertionMap.set]
  split
  next hk =>
    rw [InsertionMap.lookup_replace]
    by_cases hj : j = k
    · subst hj
      obtain ⟨b, hb⟩ := Option.isSome_iff_exists.1 (AList.lookup_isSome.2 hk)
      simp [hb]
    · simp [hj]
  next hk =>
    by_cases hj : j = k
    · subst hj
      simp
    · simp [hj]

theorem InsertionMap.lookup_erase (m : InsertionMap κ α) (k j : κ) :
    AList.lookup j (m.erase k) = if j = k then none else m.lookup j := by
  by_cases hj : j = k
  · subst hj
    simp
  · simp [hj, AList.lookup_erase_ne]

section Keys

variable {m : InsertionMap κ α} {j k : κ} {a : α}

theorem mem_set : j ∈ m.set k a ↔ j = k ∨ j ∈ m := by
  rw [← AList.lookup_isSome, InsertionMap.lookup_set]
  split
  next hj => exact iff_of_true rfl (.inl hj)
  next hj => rw [AList.lookup_isSome, or_iff_right hj]

theorem keys_set_of_mem (h : k ∈ m) : (m.set k a).keys = m.keys := by
  rw [InsertionMap.set, if_pos h, AList.keys_replace]

theorem keys_set_of_not_mem (h : k ∉ m) : (m.set k a).keys = k :: m.keys := by
  rw [InsertionMap.set, if_neg h, AList.keys_insert, List.erase_of_not_mem h]

omit [DecidableEq κ] in
theorem length_keys (m : InsertionMap κ α) : m.keys.length = m.entries.length := List.length_map ..

/-- Without its oldest key a map is one smaller. -/
theorem keys_erase_oldest (h : m.oldest = some k) : m.keys = (m.erase k).keys ++ [k] := by
  have hnodup := m.keys_nodup
  obtain ⟨ks, hks⟩ := List.getLast?_eq_some_iff.1 h
  rw [hks] at hnodup
  have hk : k ∉ ks := by
    intro hmem
    exact (List.nodup_append.1 hnodup).2.2 k hmem k (List.mem_singleton_self k) rfl
  rw [AList.keys_erase, hks, List.erase_append_right _ hk, List.erase_cons_head, List.append_nil]

end Keys

theorem flatMap_of_key {l : List (Sigma fun _ : κ => α)} {f : (Sigma fun _ : κ => α) → List β}
    {k : κ} (hl : l.NodupKeys) (hf : ∀ e ∈ l, e.1 ≠ k → f e = []) :
    l.reverse.flatMap f = ((l.dlookup k).map fun a => f ⟨k, a⟩).getD [] := by
  induction l with
  | nil => rfl
  | cons e l ih =>
    rw [List.forall_mem_cons] at hf
    rw [List.nodupKeys_cons] at hl
    rw [List.reverse_cons, List.flatMap_append, List.flatMap_singleton, ih hl.2 hf.2]
    obtain ⟨j, a⟩ := e
    by_cases hj : j = k
    · subst hj
      rw [List.dlookup_eq_none.2 hl.1, List.dlookup_cons_eq]
      rfl
    · rw [List.dlookup_cons_ne _ _ (Ne.symm hj), hf.1 hj, List.append_nil]

/-- Only the entry of one key contributes. -/
theorem InsertionMap.flatMap_entries (m : InsertionMap κ α)
    {f : (Sigma fun _ : κ => α) → List β} {k : κ}
    (hf : ∀ e ∈ m.entries, e.1 ≠ k → f e = []) :
    m.entries.reverse.flatMap f = ((AList.lookup k m).map fun a => f ⟨k, a⟩).getD [] :=
  flatMap_of_key m.nodupKeys hf

/-- An element of a list without equal keys is found by its key. -/
theorem find?_of_key {f : α → κ} {l : List α} {a : α} (hl : (l.map f).Nodup) (ha : a ∈ l) :
    (l.find? fun b => f b = f a) = some a := by
  cases hfind : l.find? fun b => f b = f a with
  | none =>
    have hnone := List.find?_eq_none.1 hfind a ha
    exact absurd (decide_eq_true rfl) hnone
  | some b =>
    have hkey : f b = f a := of_decide_eq_true (List.find?_some hfind :)
    rw [List.inj_on_of_nodup_map hl (List.mem_of_find?_eq_some hfind) ha hkey]

end InsertionOrder
