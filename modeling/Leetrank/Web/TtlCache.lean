import Leetrank.Library.InsertionMap
import Leetrank.Library.Machine

namespace Leetrank
set_option autoImplicit true

open EventMachine InsertionOrder

structure CacheEntry (α : Type u) where
  value : α
  expiresAt : Int

/-- The in-process cache; a load in flight stands for the promise of its loader. -/
structure TtlCache (α : Type u) where
  store : InsertionMap String (CacheEntry α)
  inflight : InsertionMap String Nat
  hits : Nat
  misses : Nat
  maxEntries : Nat

def TtlCache.new (maxEntries : Nat) : TtlCache α := ⟨∅, ∅, 0, 0, maxEntries⟩

variable {c : TtlCache α}

def TtlCache.get (c : TtlCache α) (now : Int) (key : String) : Option α × TtlCache α :=
  match c.store.lookup key with
  | none => (none, { c with misses := c.misses + 1 })
  | some entry =>
    if entry.expiresAt < now then
      (none, { c with store := c.store.erase key, misses := c.misses + 1 })
    else
      (some entry.value,
        { c with store := InsertionMap.set (c.store.erase key) key entry, hits := c.hits + 1 })

def TtlCache.evictOldest (c : TtlCache α) : TtlCache α :=
  match c.store.oldest with
  | none => c
  | some oldestKey => { c with store := c.store.erase oldestKey }

def TtlCache.set (c : TtlCache α) (now : Int) (key : String) (value : α) (ttlMs : Int) :
    TtlCache α :=
  let c := if c.maxEntries ≤ c.store.entries.length ∧ key ∉ c.store then c.evictOldest else c
  { c with store := c.store.set key ⟨value, now + ttlMs⟩ }

def TtlCache.delete (c : TtlCache α) (key : String) : TtlCache α :=
  { c with store := c.store.erase key }

def TtlCache.clear (c : TtlCache α) : TtlCache α :=
  { c with store := ∅, inflight := ∅, hits := 0, misses := 0 }

/-- The store has the value under the key, whether it has expired or not. -/
def TtlCache.Holds (c : TtlCache α) (key : String) (value : α) : Prop :=
  ∃ expiresAt, c.store.lookup key = some ⟨value, expiresAt⟩

@[simp] theorem TtlCache.get_inflight (c : TtlCache α) (now : Int) (key : String) :
    (c.get now key).2.inflight = c.inflight := by
  rw [TtlCache.get]
  split
  · rfl
  · split <;> rfl

@[simp] theorem TtlCache.set_inflight (c : TtlCache α) (now : Int) (key : String) (value : α)
    (ttlMs : Int) : (c.set now key value ttlMs).inflight = c.inflight := by
  simp only [TtlCache.set, TtlCache.evictOldest]
  split
  · split <;> rfl
  · rfl

@[simp] theorem TtlCache.delete_inflight (c : TtlCache α) (key : String) :
    (c.delete key).inflight = c.inflight := rfl

theorem TtlCache.holds_of_erase {value : α}
    (h : TtlCache.Holds { c with store := c.store.erase key } k value) :
    k ≠ key ∧ c.Holds k value := by
  obtain ⟨t, h⟩ := h
  rw [InsertionMap.lookup_erase] at h
  split at h
  next => cases h
  next hk => exact ⟨hk, t, h⟩

theorem TtlCache.holds_of_get {value : α} (h : (c.get now key).2.Holds k value) :
    c.Holds k value := by
  rw [TtlCache.get] at h
  split at h
  next => exact h
  next entry he =>
    split at h
    · exact (TtlCache.holds_of_erase h).2
    · obtain ⟨t, h⟩ := h
      rw [InsertionMap.lookup_set, InsertionMap.lookup_erase] at h
      split at h
      next hk =>
        cases h
        cases hk
        exact ⟨t, he⟩
      next => exact ⟨t, h⟩

theorem TtlCache.holds_of_hit {value : α} (h : (c.get now key).1 = some value) :
    c.Holds key value := by
  rw [TtlCache.get] at h
  split at h
  next => cases h
  next entry he =>
    split at h
    · cases h
    · cases h
      exact ⟨entry.expiresAt, he⟩

theorem TtlCache.holds_of_evictOldest {value : α} (h : c.evictOldest.Holds k value) :
    c.Holds k value := by
  rw [TtlCache.evictOldest] at h
  split at h
  next => exact h
  next => exact (TtlCache.holds_of_erase h).2

theorem TtlCache.holds_of_set {value v : α} (h : (c.set now key v ttlMs).Holds k value) :
    (k = key ∧ value = v) ∨ c.Holds k value := by
  obtain ⟨t, h⟩ := h
  rw [TtlCache.set, InsertionMap.lookup_set] at h
  split at h
  next hk =>
    cases h
    exact .inl ⟨hk, rfl⟩
  next =>
    right
    split at h
    · exact TtlCache.holds_of_evictOldest ⟨t, h⟩
    · exact ⟨t, h⟩

theorem TtlCache.holds_of_delete {value : α} (h : (c.delete key).Holds k value) :
    k ≠ key ∧ c.Holds k value :=
  TtlCache.holds_of_erase h

/-- A deleted key is a miss. -/
theorem TtlCache.get_delete (c : TtlCache α) (now : Int) (key : String) :
    ((c.delete key).get now key).1 = none := by
  cases h : ((c.delete key).get now key).1 with
  | none => rfl
  | some value => exact absurd rfl (TtlCache.holds_of_delete (TtlCache.holds_of_hit h)).1

end Leetrank
