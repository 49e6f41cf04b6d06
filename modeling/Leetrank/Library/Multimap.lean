import Mathlib.Data.Finset.Basic
import Mathlib.Data.Finset.Insert

namespace KeyedSets
set_option autoImplicit true

/-- A map from keys to sets of values; a key without values is absent. -/
abbrev Multimap (κ : Type u) (α : Type v) := κ → Option (Finset α)

variable [DecidableEq κ] [DecidableEq α] {m : Multimap κ α}

def Multimap.get (m : Multimap κ α) (k : κ) : Finset α := (m k).getD ∅

/-- Give each of the keys one more value. -/
def Multimap.link (m : Multimap κ α) (ks : Finset κ) (a : α) : Multimap κ α := fun k =>
  if k ∈ ks then some (insert a ((m k).getD ∅)) else m k

/-- Take a value from each of the keys, and drop the keys that have no other one. -/
def Multimap.unlink (m : Multimap κ α) (ks : Finset κ) (a : α) : Multimap κ α := fun k =>
  if k ∈ ks then (m k).bind fun vs => if vs.erase a = ∅ then none else some (vs.erase a) else m k

@[simp] theorem Multimap.mem_get_link (ks : Finset κ) (a b : α) (k : κ) :
    b ∈ Multimap.get (m.link ks a) k ↔ (b = a ∧ k ∈ ks) ∨ b ∈ m.get k := by
  rw [Multimap.get, Multimap.link]
  split
  next hk => simp [Multimap.get, hk]
  next hk => simp [Multimap.get, hk]

@[simp] theorem Multimap.mem_get_unlink (ks : Finset κ) (a b : α) (k : κ) :
    b ∈ Multimap.get (m.unlink ks a) k ↔ ¬(b = a ∧ k ∈ ks) ∧ b ∈ m.get k := by
  rw [Multimap.get, Multimap.unlink]
  split
  next hk =>
    cases hm : m k with
    | none => simp [Multimap.get, hm]
    | some vs =>
      by_cases he : vs.erase a = ∅
      · have hb := Finset.ext_iff.1 he b
        simp only [Finset.mem_erase, Finset.notMem_empty, iff_false] at hb
        simp [Multimap.get, hm, hk, he]
        tauto
      · simp [Multimap.get, hm, hk, he]
  next hk => simp [Multimap.get, hk]

/-- No key is kept for an empty set. -/
def Multimap.Tidy (m : Multimap κ α) : Prop := ∀ k, m k ≠ some ∅

theorem Multimap.Tidy.link (h : m.Tidy) (ks : Finset κ) (a : α) : (m.link ks a).Tidy := by
  intro k hk
  rw [Multimap.link] at hk
  split at hk
  · exact Finset.insert_ne_empty _ _ (Option.some.inj hk)
  · exact h k hk

theorem Multimap.Tidy.unlink (h : m.Tidy) (ks : Finset κ) (a : α) : (m.unlink ks a).Tidy := by
  intro k hk
  rw [Multimap.unlink] at hk
  split at hk
  · obtain ⟨vs, -, hvs⟩ := Option.bind_eq_some_iff.1 hk
    split at hvs
    next => cases hvs
    next he => exact he (Option.some.inj hvs)
  · exact h k hk

end KeyedSets
