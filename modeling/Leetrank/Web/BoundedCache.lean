import Leetrank.Web.TtlCache

namespace Leetrank
set_option autoImplicit true

open EventMachine InsertionOrder

inductive TtlCall (α : Type u) where
  | get (key : String)
  | set (key : String) (value : α) (ttlMs : Int)
  | delete (key : String)
  | clear

def TtlCache.perform (c : TtlCache α) (now : Int) : TtlCall α → TtlCache α
  | .get key => (c.get now key).2
  | .set key value ttlMs => c.set now key value ttlMs
  | .delete key => c.delete key
  | .clear => c.clear

/-- The keys that a call makes room with. -/
def TtlCache.evictedBy (c : TtlCache α) (now : Int) : TtlCall α → List String
  | .set key value ttlMs => c.store.keys.filter fun k => k ∉ (c.set now key value ttlMs).store
  | .get _ | .delete _ | .clear => []

/-- A set of a new key when there is room for none. -/
def TtlCall.Overfills (c : TtlCache α) (maxEntries : Nat) : TtlCall α → Prop
  | .set key _ _ => key ∉ c.store ∧ c.store.entries.length = maxEntries
  | .get _ | .delete _ | .clear => False

/-- A map whose values expire, which a cache stands for. -/
abbrev TtlMap (α : Type u) := String → Option (CacheEntry α)

/-- The last value set for each key that has not since been deleted, cleared, evicted or found
expired. -/
def TtlMap.perform (m : TtlMap α) (now : Int) (evicted : List String) :
    TtlCall α → String → Option (CacheEntry α)
  | .get key, k => (m k).filter fun entry => ¬(k = key ∧ entry.expiresAt < now)
  | .set key value ttlMs, k =>
    if k = key then some ⟨value, now + ttlMs⟩ else if k ∈ evicted then none else m k
  | .delete key, k => if k = key then none else m k
  | .clear, _ => none

def TtlMap.read (m : TtlMap α) (now : Int) (key : String) : Option α :=
  ((m key).filter fun entry => ¬entry.expiresAt < now).map CacheEntry.value

/-- A cache with the map that it stands for, and the number of gets since it was last cleared. -/
structure TtlRun (α : Type u) where
  clock : Int
  cache : TtlCache α
  map : TtlMap α
  gets : Nat

def TtlRun.getsAfter (s : TtlRun α) : TtlCall α → Nat
  | .get _ => s.gets + 1
  | .clear => 0
  | .set .. | .delete _ => s.gets

/-- Calls at times that never go back. -/
def ttlMachine (maxEntries : Nat) : Machine (TtlRun α) (Int × TtlCall α) where
  init := fun s => s.cache = .new maxEntries ∧ s.map = (fun _ => none) ∧ s.gets = 0
  step := fun s (now, call) =>
    if now < s.clock then none
    else some
      { clock := now
        cache := s.cache.perform now call
        map := s.map.perform now (s.cache.evictedBy now call) call
        gets := s.getsAfter call }

/-- The cache behaves as the map that it stands for, within its bound. -/
structure TtlRun.Refines (s : TtlRun α) (maxEntries : Nat) : Prop where
  size : s.cache.store.entries.length ≤ maxEntries
  reads : ∀ now key, (s.cache.get now key).1 = s.map.read now key
  evicts : ∀ now call, call.Overfills s.cache maxEntries →
    (s.cache.evictedBy now call).length = 1
  keeps : ∀ now call, ¬call.Overfills s.cache maxEntries → s.cache.evictedBy now call = []
  counts : s.cache.hits + s.cache.misses = s.gets

structure TtlRun.Inv (s : TtlRun α) (maxEntries : Nat) : Prop where
  bound : s.cache.maxEntries = maxEntries
  size : s.cache.store.entries.length ≤ maxEntries
  map : ∀ key, s.cache.store.lookup key = s.map key
  counts : s.cache.hits + s.cache.misses = s.gets

variable {c : TtlCache α} {s t : TtlRun α} {key : String} {value : α} {now ttlMs : Int}
  {maxEntries : Nat} {call : TtlCall α}

/-- A set of a new key in a full cache makes room with the oldest key first. -/
theorem TtlCache.set_cases (c : TtlCache α) (now : Int) (key : String) (value : α)
    (ttlMs : Int) :
    ((key ∈ c.store ∨ c.store.entries.length < c.maxEntries ∨ c.store.entries.length = 0) ∧
      (c.set now key value ttlMs).store = c.store.set key ⟨value, now + ttlMs⟩) ∨
    ∃ oldest, key ∉ c.store ∧ c.maxEntries ≤ c.store.entries.length ∧
      c.store.oldest = some oldest ∧ (c.set now key value ttlMs).store =
        InsertionMap.set (c.store.erase oldest) key ⟨value, now + ttlMs⟩ := by
  rw [TtlCache.set]
  by_cases hfull : c.maxEntries ≤ c.store.entries.length ∧ key ∉ c.store
  · cases ho : c.store.oldest with
    | none =>
      rw [InsertionMap.oldest, List.getLast?_eq_none_iff] at ho
      have hlen := length_keys c.store
      rw [ho, List.length_nil] at hlen
      refine .inl ⟨.inr (.inr hlen.symm), ?_⟩
      rw [if_pos hfull, TtlCache.evictOldest, InsertionMap.oldest, ho, List.getLast?_nil]
    | some oldest =>
      refine .inr ⟨oldest, hfull.2, hfull.1, rfl, ?_⟩
      rw [if_pos hfull, TtlCache.evictOldest, ho]
  · left
    rw [if_neg hfull]
    refine ⟨?_, rfl⟩
    by_cases hkey : key ∈ c.store
    · exact .inl hkey
    · exact .inr (.inl (Nat.not_le.1 fun hle => hfull ⟨hle, hkey⟩))

theorem TtlCache.get_reply (c : TtlCache α) (now : Int) (key : String) :
    (c.get now key).1 =
      ((c.store.lookup key).filter fun entry => ¬entry.expiresAt < now).map CacheEntry.value := by
  rw [TtlCache.get]
  cases he : c.store.lookup key with
  | none => rfl
  | some entry =>
    dsimp only
    rw [Option.filter_some]
    by_cases hexp : entry.expiresAt < now
    · rw [if_pos hexp, if_neg (by simpa using hexp)]
      rfl
    · rw [if_neg hexp, if_pos (decide_eq_true hexp)]
      rfl

theorem TtlCache.get_cases (c : TtlCache α) (now : Int) (key : String) :
    (c.store.lookup key = none ∧ (c.get now key).2.store = c.store ∧
        (c.get now key).2.hits = c.hits ∧ (c.get now key).2.misses = c.misses + 1) ∨
    (∃ entry, c.store.lookup key = some entry ∧ entry.expiresAt < now ∧
        (c.get now key).2.store = c.store.erase key ∧
        (c.get now key).2.hits = c.hits ∧ (c.get now key).2.misses = c.misses + 1) ∨
    ∃ entry, c.store.lookup key = some entry ∧ ¬entry.expiresAt < now ∧
        (c.get now key).2.store = InsertionMap.set (c.store.erase key) key entry ∧
        (c.get now key).2.hits = c.hits + 1 ∧ (c.get now key).2.misses = c.misses := by
  rw [TtlCache.get]
  cases he : c.store.lookup key with
  | none => exact .inl ⟨rfl, rfl, rfl, rfl⟩
  | some entry =>
    by_cases hexp : entry.expiresAt < now
    · refine .inr (.inl ⟨entry, rfl, hexp, ?_⟩)
      simp only [if_pos hexp, and_self]
    · refine .inr (.inr ⟨entry, rfl, hexp, ?_⟩)
      simp only [if_neg hexp, and_self]

theorem TtlCache.set_counters (c : TtlCache α) (now : Int) (key : String) (value : α)
    (ttlMs : Int) :
    (c.set now key value ttlMs).hits = c.hits ∧ (c.set now key value ttlMs).misses = c.misses ∧
      (c.set now key value ttlMs).maxEntries = c.maxEntries := by
  simp only [TtlCache.set, TtlCache.evictOldest]
  split
  · split <;> exact ⟨rfl, rfl, rfl⟩
  · exact ⟨rfl, rfl, rfl⟩

theorem TtlCache.get_maxEntries (c : TtlCache α) (now : Int) (key : String) :
    (c.get now key).2.maxEntries = c.maxEntries := by
  rw [TtlCache.get]
  split
  · rfl
  · split <;> rfl

/-- A key that is moved to the front leaves the size as it was. -/
theorem length_keys_bump {m : InsertionMap String β} (h : key ∈ m) (b : β) :
    (InsertionMap.set (m.erase key) key b).keys.length = m.keys.length := by
  have hnew : key ∉ m.erase key := fun hmem => (AList.mem_erase.1 hmem).1 rfl
  rw [keys_set_of_not_mem hnew, List.length_cons, AList.keys_erase,
    List.length_erase_of_mem (AList.mem_keys.1 h)]
  have hpos := List.length_pos_of_mem (AList.mem_keys.1 h)
  omega

theorem TtlCache.size_get (c : TtlCache α) (now : Int) (key : String) :
    (c.get now key).2.store.entries.length ≤ c.store.entries.length := by
  rw [← length_keys, ← length_keys]
  obtain ⟨-, hstore, -⟩ | ⟨_, -, -, hstore, -⟩ | ⟨_, he, -, hstore, -⟩ := c.get_cases now key
  · rw [hstore]
  · rw [hstore, AList.keys_erase]
    exact List.length_erase_le
  · rw [hstore, length_keys_bump (AList.lookup_isSome.1 (Option.isSome_of_eq_some he))]

theorem TtlCache.size_set (hmax : 1 ≤ c.maxEntries) (h : c.store.entries.length ≤ c.maxEntries) :
    (c.set now key value ttlMs).store.entries.length ≤ c.maxEntries := by
  rw [← length_keys] at h ⊢
  obtain ⟨hroom, hstore⟩ | ⟨oldest, hkey, -, ho, hstore⟩ := c.set_cases now key value ttlMs
  · rw [hstore]
    by_cases hkey : key ∈ c.store
    · rwa [keys_set_of_mem hkey]
    · have hlt := hroom.resolve_left hkey
      rw [← length_keys] at hlt
      rw [keys_set_of_not_mem hkey, List.length_cons]
      omega
  · have hnew : key ∉ c.store.erase oldest := fun hmem => hkey (AList.mem_erase.1 hmem).2
    rw [keys_erase_oldest ho, List.length_append, List.length_singleton] at h
    rw [hstore, keys_set_of_not_mem hnew]
    exact h

theorem TtlCache.evictedBy_set (c : TtlCache α) (now : Int) (key : String) (value : α)
    (ttlMs : Int) :
    ((key ∈ c.store ∨ c.store.entries.length < c.maxEntries ∨ c.store.entries.length = 0) ∧
      c.evictedBy now (.set key value ttlMs) = [] ∧
      (c.set now key value ttlMs).store = c.store.set key ⟨value, now + ttlMs⟩) ∨
    ∃ oldest, key ∉ c.store ∧ c.maxEntries ≤ c.store.entries.length ∧
      c.store.oldest = some oldest ∧ c.evictedBy now (.set key value ttlMs) = [oldest] ∧
      (c.set now key value ttlMs).store =
        InsertionMap.set (c.store.erase oldest) key ⟨value, now + ttlMs⟩ := by
  obtain ⟨hroom, hstore⟩ | ⟨oldest, hkey, hfull, ho, hstore⟩ := c.set_cases now key value ttlMs
  · refine .inl ⟨hroom, ?_, hstore⟩
    rw [TtlCache.evictedBy, List.filter_eq_nil_iff]
    intro k hk
    rw [decide_eq_true_eq, not_not, hstore]
    exact mem_set.2 (.inr hk)
  · refine .inr ⟨oldest, hkey, hfull, ho, ?_, hstore⟩
    have hmem : oldest ∈ c.store.keys := List.mem_of_getLast? ho
    have hgone : ∀ k ∈ c.store.keys, (k ∉ (c.set now key value ttlMs).store ↔ k = oldest) := by
      intro k hk
      have hne : k ≠ key := fun heq => hkey (heq ▸ hk)
      rw [hstore, mem_set, or_iff_right hne, AList.mem_erase, not_and, not_imp_not]
      exact ⟨fun h => h hk, fun h _ => h⟩
    rw [TtlCache.evictedBy, List.filter_congr fun k hk => decide_eq_decide.2 (hgone k hk),
      List.filter_eq, List.count_eq_one_of_mem c.store.keys_nodup hmem]
    rfl

theorem TtlMap.perform_get_of_ne (m : TtlMap α) (now : Int) (evicted : List String)
    (hk : k ≠ key) : m.perform now evicted (.get key) k = m k := by
  rw [TtlMap.perform]
  cases m k with
  | none => rfl
  | some entry =>
    simp only [Option.filter_some, hk, false_and, not_false_eq_true, decide_true, if_true]

theorem TtlMap.perform_get_self (m : TtlMap α) (now : Int) (evicted : List String)
    (key : String) : m.perform now evicted (.get key) key =
      (m key).filter fun entry => ¬entry.expiresAt < now := by
  simp only [TtlMap.perform, true_and]

theorem TtlRun.Inv.map_get (h : s.Inv maxEntries) (now : Int) (key k : String) :
    (s.cache.get now key).2.store.lookup k = s.map.perform now [] (.get key) k := by
  by_cases hk : k = key
  · subst hk
    rw [TtlMap.perform_get_self, ← h.map]
    obtain ⟨he, hstore, -⟩ | ⟨entry, he, hexp, hstore, -⟩ | ⟨entry, he, hexp, hstore, -⟩ :=
      s.cache.get_cases now k
    · rw [hstore, he]
      rfl
    · rw [hstore, InsertionMap.lookup_erase, if_pos rfl, he, Option.filter_some,
        if_neg (by simpa using hexp)]
    · rw [hstore, InsertionMap.lookup_set, if_pos rfl, he, Option.filter_some,
        if_pos (decide_eq_true hexp)]
  · rw [TtlMap.perform_get_of_ne _ _ _ hk, ← h.map]
    obtain ⟨-, hstore, -⟩ | ⟨_, -, -, hstore, -⟩ | ⟨_, -, -, hstore, -⟩ := s.cache.get_cases now key
    · rw [hstore]
    · rw [hstore, InsertionMap.lookup_erase, if_neg hk]
    · rw [hstore, InsertionMap.lookup_set, if_neg hk, InsertionMap.lookup_erase, if_neg hk]

theorem TtlRun.Inv.map_perform (h : s.Inv maxEntries) (now : Int) (call : TtlCall α)
    (k : String) :
    (s.cache.perform now call).store.lookup k =
      s.map.perform now (s.cache.evictedBy now call) call k := by
  cases call with
  | get key => exact h.map_get now key k
  | set key value ttlMs =>
    rw [TtlCache.perform, TtlMap.perform, ← h.map]
    obtain ⟨-, hevicted, hstore⟩ | ⟨oldest, -, -, -, hevicted, hstore⟩ :=
      s.cache.evictedBy_set now key value ttlMs
    · rw [hstore, InsertionMap.lookup_set, hevicted, if_neg List.not_mem_nil]
    · rw [hstore, InsertionMap.lookup_set, InsertionMap.lookup_erase, hevicted]
      simp only [List.mem_singleton]
  | delete key =>
    rw [TtlMap.perform, ← h.map]
    exact InsertionMap.lookup_erase ..
  | clear => rfl

theorem TtlRun.Inv.step (h : s.Inv maxEntries) (hmax : 1 ≤ maxEntries)
    (ht : (ttlMachine maxEntries).step s (now, call) = some t) : t.Inv maxEntries := by
  rw [ttlMachine] at ht
  dsimp only at ht
  split at ht
  next => cases ht
  next =>
    cases ht
    have hbound := h.bound
    have hcounts := h.counts
    refine ⟨?_, ?_, h.map_perform now call, ?_⟩
    · cases call with
      | get key => exact (s.cache.get_maxEntries now key).trans hbound
      | set key value ttlMs => exact (s.cache.set_counters now key value ttlMs).2.2.trans hbound
      | delete key => exact hbound
      | clear => exact hbound
    · cases call with
      | get key => exact Nat.le_trans (s.cache.size_get now key) h.size
      | set key value ttlMs =>
        have hsize := h.size
        rw [← hbound] at hsize hmax ⊢
        exact TtlCache.size_set hmax hsize
      | delete key =>
        rw [← length_keys]
        refine Nat.le_trans ?_ h.size
        rw [← length_keys]
        exact (AList.keys_erase key s.cache.store).symm ▸ List.length_erase_le
      | clear => exact Nat.zero_le _
    · cases call with
      | get key =>
        obtain ⟨-, -, hh, hm⟩ | ⟨_, -, -, -, hh, hm⟩ | ⟨_, -, -, -, hh, hm⟩ :=
          s.cache.get_cases now key
        all_goals
          simp only [TtlCache.perform, TtlRun.getsAfter, hh, hm]
          omega
      | set key value ttlMs =>
        obtain ⟨hh, hm, -⟩ := s.cache.set_counters now key value ttlMs
        simp only [TtlCache.perform, TtlRun.getsAfter, hh, hm]
        exact hcounts
      | delete key => exact hcounts
      | clear => rfl

theorem TtlRun.Inv.refines (h : s.Inv maxEntries) (hmax : 1 ≤ maxEntries) :
    s.Refines maxEntries where
  size := h.size
  reads := by
    intro now key
    rw [TtlCache.get_reply, TtlMap.read, h.map]
  evicts := by
    intro now call hcall
    cases call with
    | set key value ttlMs =>
      rw [← h.bound] at hmax hcall
      obtain ⟨hroom, -⟩ | ⟨oldest, -, -, -, hevicted, -⟩ :=
        s.cache.evictedBy_set now key value ttlMs
      · have hlen := hcall.2
        have hlt := hroom.resolve_left hcall.1
        omega
      · rw [hevicted]
        rfl
    | get key => cases hcall
    | delete key => cases hcall
    | clear => cases hcall
  keeps := by
    intro now call hcall
    cases call with
    | set key value ttlMs =>
      have hsize := h.size
      rw [← h.bound] at hmax hcall hsize
      obtain ⟨-, hevicted, -⟩ | ⟨oldest, hkey, hfull, -⟩ :=
        s.cache.evictedBy_set now key value ttlMs
      · exact hevicted
      · exact absurd ⟨hkey, Nat.le_antisymm hsize hfull⟩ hcall
    | get key => rfl
    | delete key => rfl
    | clear => rfl
  counts := h.counts

/-- Whatever calls it gets, the cache is a bounded map whose values expire. -/
theorem ttlMachine_refines (hmax : 1 ≤ maxEntries) {s t : TtlRun α}
    (hs : (ttlMachine maxEntries).init s) (hr : (ttlMachine maxEntries).run s es = some t) :
    t.Refines maxEntries := by
  obtain ⟨hcache, hmap, hgets⟩ := hs
  have hinit : s.Inv maxEntries := by
    constructor
    · rw [hcache]
      rfl
    · rw [hcache]
      exact Nat.zero_le _
    · intro key
      rw [hcache, hmap]
      rfl
    · rw [hcache, hgets]
      rfl
  have hinv : (ttlMachine maxEntries).Invariant fun s : TtlRun α => s.Inv maxEntries :=
    fun _ _ _ h ht _ => h.step hmax ht
  exact (hinv.run hinit hr).refines hmax

theorem ttlMachine_refines_two :
    ∃ t : TtlRun Nat, (ttlMachine 2).run ⟨0, .new 2, fun _ => none, 0⟩
        [(0, .set "a" 1 10), (1, .set "b" 2 10), (2, .get "a"), (3, .set "c" 3 10),
          (20, .get "a")] = some t ∧ t.Refines 2 := by
  obtain ⟨t, ht⟩ : ∃ t : TtlRun Nat, (ttlMachine 2).run ⟨0, .new 2, fun _ => none, 0⟩
        [(0, .set "a" 1 10), (1, .set "b" 2 10), (2, .get "a"), (3, .set "c" 3 10),
          (20, .get "a")] = some t := ⟨_, rfl⟩
  exact ⟨t, ht, ttlMachine_refines (by decide) ⟨rfl, rfl, rfl⟩ ht⟩

end Leetrank
