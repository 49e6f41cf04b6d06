import Leetrank.Web.BoundedCache

namespace Leetrank
set_option autoImplicit true

open EventMachine InsertionOrder

/-- A cache with the keys of its successful gets and of its sets, the last one first. -/
structure RecencyRun (α : Type u) where
  clock : Int
  cache : TtlCache α
  uses : List String

def RecencyRun.usesAfter (s : RecencyRun α) (now : Int) : TtlCall α → List String
  | .get key => if (s.cache.get now key).1.isSome then key :: s.uses else s.uses
  | .set key _ _ => key :: s.uses
  | .delete _ | .clear => s.uses

/-- Calls at times that never go back. -/
def recencyMachine (maxEntries : Nat) : Machine (RecencyRun α) (Int × TtlCall α) where
  init := fun s => s.cache = .new maxEntries ∧ s.uses = []
  step := fun s (now, call) =>
    if now < s.clock then none
    else some ⟨now, s.cache.perform now call, s.usesAfter now call⟩

/-- The key that a call evicts has been used less recently than all others that are stored. -/
def EvictsLeastRecent (s : RecencyRun α) (e : Int × TtlCall α) (_ : RecencyRun α) : Prop :=
  ∀ evicted ∈ s.cache.evictedBy e.1 e.2, ∀ k ∈ s.cache.store, k ≠ evicted →
    s.uses.idxOf k < s.uses.idxOf evicted

/-- A set does not overwrite a value, unless it is that of the stored key used last. -/
def OverwritesNewest (s : RecencyRun α) (e : Int × TtlCall α) (_ : RecencyRun α) : Prop :=
  match e.2 with
  | .set key _ _ => key ∈ s.cache.store → s.cache.store.keys.head? = some key
  | .get _ | .delete _ | .clear => True

/-- The keys are in the order of their last uses. -/
def ByRecency (uses keys : List String) : Prop :=
  keys.Pairwise fun a b => uses.idxOf a < uses.idxOf b

variable {s t : RecencyRun α} {key : String} {uses keys : List String} {maxEntries : Nat}

theorem ByRecency.use (h : ByRecency uses keys) (hkey : key ∉ keys) :
    ByRecency (key :: uses) (key :: keys) := by
  have hidx : ∀ k ∈ keys, (key :: uses).idxOf k = uses.idxOf k + 1 := by
    intro k hk
    exact List.idxOf_cons_ne _ fun heq => hkey (heq ▸ hk)
  refine List.pairwise_cons.2 ⟨?_, h.imp_of_mem ?_⟩
  · intro k hk
    rw [List.idxOf_cons_self, hidx k hk]
    exact Nat.succ_pos _
  · intro a b ha hb hab
    rw [hidx a ha, hidx b hb]
    exact Nat.succ_lt_succ hab

theorem ByRecency.erase (h : ByRecency uses keys) (key : String) :
    ByRecency uses (keys.erase key) :=
  h.sublist List.erase_sublist

/-- A key moved to the front is the one used last. -/
theorem ByRecency.bump (h : ByRecency uses keys) (hkeys : keys.Nodup) (key : String) :
    ByRecency (key :: uses) (key :: keys.erase key) :=
  (h.erase key).use fun hmem => (hkeys.mem_erase_iff.1 hmem).1 rfl

theorem ByRecency.get {c : TtlCache α} (h : ByRecency uses c.store.keys) (now : Int)
    (key : String) :
    ByRecency (if (c.get now key).1.isSome then key :: uses else uses)
      (c.get now key).2.store.keys := by
  have hreply := c.get_reply now key
  obtain ⟨he, hstore, -⟩ | ⟨entry, he, hexp, hstore, -⟩ | ⟨entry, he, hexp, hstore, -⟩ :=
    c.get_cases now key
  · rw [he] at hreply
    rw [hreply, hstore]
    exact h
  · rw [he, Option.filter_some, if_neg (by simpa using hexp)] at hreply
    rw [hreply, hstore, AList.keys_erase]
    exact h.erase key
  · rw [he, Option.filter_some, if_pos (decide_eq_true hexp)] at hreply
    have hnew : key ∉ c.store.erase key := fun hmem => (AList.mem_erase.1 hmem).1 rfl
    rw [hreply, hstore, keys_set_of_not_mem hnew, AList.keys_erase]
    exact h.bump c.store.keys_nodup key

theorem ByRecency.set {c : TtlCache α} (h : ByRecency uses c.store.keys)
    (hnewest : key ∈ c.store → c.store.keys.head? = some key) (now : Int) (value : α)
    (ttlMs : Int) : ByRecency (key :: uses) (c.set now key value ttlMs).store.keys := by
  obtain ⟨-, hstore⟩ | ⟨oldest, hkey, -, ho, hstore⟩ := c.set_cases now key value ttlMs
  · rw [hstore]
    by_cases hkey : key ∈ c.store
    · rw [keys_set_of_mem hkey]
      -- the key is in front already
      obtain ⟨rest, hrest⟩ := List.head?_eq_some_iff.1 (hnewest hkey)
      have hnodup := c.store.keys_nodup
      rw [hrest] at h hnodup ⊢
      have htail : ByRecency uses rest := (List.pairwise_cons.1 h).2
      exact htail.use (List.nodup_cons.1 hnodup).1
    · rw [keys_set_of_not_mem hkey]
      exact h.use hkey
  · have hnew : key ∉ c.store.erase oldest := fun hmem => hkey (AList.mem_erase.1 hmem).2
    rw [hstore, keys_set_of_not_mem hnew, AList.keys_erase]
    refine (h.erase oldest).use ?_
    rwa [← AList.keys_erase, ← AList.mem_keys]

theorem recencyMachine_step (h : (recencyMachine maxEntries).step s (now, call) = some t) :
    t.cache = s.cache.perform now call ∧ t.uses = s.usesAfter now call := by
  rw [recencyMachine] at h
  dsimp only at h
  split at h
  next => cases h
  next =>
    cases h
    exact ⟨rfl, rfl⟩

theorem recency_preserved : (recencyMachine (α := α) maxEntries).Preserves OverwritesNewest
    fun s => ByRecency s.uses s.cache.store.keys := by
  rintro s ⟨now, call⟩ t h ht hnewest
  obtain ⟨hcache, huses⟩ := recencyMachine_step ht
  rw [hcache, huses]
  cases call with
  | get key => exact h.get now key
  | set key value ttlMs => exact h.set hnewest now value ttlMs
  | delete key =>
    have hkeys : (s.cache.delete key).store.keys = s.cache.store.keys.erase key :=
      AList.keys_erase ..
    rw [TtlCache.perform, hkeys]
    exact h.erase key
  | clear => exact List.Pairwise.nil

/-- The oldest key in the order of insertion is the least recently used one. -/
theorem evictsLeastRecent_of_byRecency (h : ByRecency s.uses s.cache.store.keys) (now : Int)
    (call : TtlCall α) (t : RecencyRun α) : EvictsLeastRecent s (now, call) t := by
  intro evicted hevicted k hk hne
  cases call with
  | get key => cases hevicted
  | delete key => cases hevicted
  | clear => cases hevicted
  | set key value ttlMs =>
    dsimp only at hevicted
    obtain ⟨-, hnone, -⟩ | ⟨oldest, -, -, ho, hone, -⟩ :=
      s.cache.evictedBy_set now key value ttlMs
    · rw [hnone] at hevicted
      cases hevicted
    · rw [hone] at hevicted
      rw [List.mem_singleton.1 hevicted] at hne ⊢
      rw [AList.mem_keys] at hk
      rw [keys_erase_oldest ho] at h hk
      have hold := (List.mem_append.1 hk).resolve_right fun hmem => hne (List.mem_singleton.1 hmem)
      exact (List.pairwise_append.1 h).2.2 k hold oldest (List.mem_singleton_self oldest)

/-- As long as no other stored key is overwritten than the one used last, what is evicted is the
least recently used key. -/
theorem recencyMachine_evicts {s : RecencyRun α} (hs : (recencyMachine maxEntries).init s)
    (hes : (recencyMachine maxEntries).Always OverwritesNewest s es) :
    (recencyMachine maxEntries).Always EvictsLeastRecent s es := by
  have hinit : ByRecency s.uses s.cache.store.keys := by
    rw [hs.1]
    exact List.Pairwise.nil
  exact recency_preserved.always hinit hes fun s e t h _ _ =>
    evictsLeastRecent_of_byRecency h e.1 e.2 t

/-- The value of the key that has just been read is overwritten, and the other key evicted. -/
theorem recencyMachine_evicts_other :
    (recencyMachine 2).Always EvictsLeastRecent (⟨0, .new 2, []⟩ : RecencyRun Nat)
      [(0, .set "a" 1 10), (1, .set "b" 2 10), (2, .get "a"), (3, .set "a" 3 10),
        (4, .set "c" 4 10)] := by
  apply recencyMachine_evicts ⟨rfl, rfl⟩
  refine Machine.always_cons rfl (fun h => absurd h (by decide +kernel)) ?_
  refine Machine.always_cons rfl (fun h => absurd h (by decide +kernel)) ?_
  refine Machine.always_cons rfl trivial ?_
  refine Machine.always_cons rfl (fun _ => rfl) ?_
  exact Machine.always_cons rfl (fun h => absurd h (by decide +kernel)) trivial

/-- The key whose value has just been overwritten is evicted, though the other is less recent. -/
theorem recencyMachine_evicts_overwritten :
    ¬(recencyMachine 2).Always EvictsLeastRecent (⟨0, .new 2, []⟩ : RecencyRun Nat)
      ([(0, .set "a" 1 10), (1, .set "b" 2 10), (2, .set "a" 3 10)] ++ [(3, .set "c" 4 10)]) := by
  intro h
  have hlast := h.last rfl rfl
  have hlt := hlast "a" (by decide +kernel) "b" (by decide +kernel) (by decide)
  revert hlt
  decide +kernel

end Leetrank
