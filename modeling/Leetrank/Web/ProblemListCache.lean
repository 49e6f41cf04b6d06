import Leetrank.Web.CacheInvalidation
import Leetrank.Web.ProblemList

namespace Leetrank
set_option autoImplicit true

open EventMachine InsertionOrder

variable {w w' w₀ : CacheWorld α} {es : List (CacheEvent α)}

/-- The keys under which the list route and the trending route cache. -/
def Produced (key : String) : Prop :=
  (∃ r : ListRequest, r.cacheable ∧ key = r.cacheKey) ∨ ∃ limit, key = trendingKey limit

/-- What requests of the two routes do with the cache. -/
inductive ProblemTraffic : CacheEvent α → Prop where
  | list (r : ListRequest) (h : r.cacheable) : ProblemTraffic (.remember r.cacheKey 60000)
  | trending (limit : Option String) : ProblemTraffic (.remember (trendingKey limit) 300000)
  | resolve (n : Nat) (value : α) : ProblemTraffic (.resolve n (some value))
  | reject (n : Nat) (err : String) : ProblemTraffic (.reject n err)
  | store (n : Nat) : ProblemTraffic (.store n)
  | land (n : Nat) : ProblemTraffic (.land n)
  | resume (i : Nat) : ProblemTraffic (.resume i)
  | clock (now : Int) : ProblemTraffic (.clock now)

def KeysProduced (w : CacheWorld α) : Prop :=
  (∀ (n : Nat) (l : Load α), w.loads[n]? = some l → Produced l.key) ∧
    ∀ key r, w.cache.Holds key r → Produced key

theorem keysProduced_preserved :
    (cacheMachine (α := α) maxEntries).Preserves (fun _ e _ => ProblemTraffic e) KeysProduced := by
  rintro w e w' ⟨hl, hs⟩ h he
  have hclear : e ≠ .clear := by
    rintro rfl
    cases he
  have moved {n m : Nat} {l k : Load α} {stage : LoadStage α}
      (hw : w'.loads = (w.setStage n stage).loads) (hm : w'.loads[m]? = some k) :
      Produced k.key := by
    rw [hw, w.getElem?_setStage] at hm
    split at hm
    · obtain ⟨k', hk', rfl⟩ := Option.map_eq_some_iff.1 hm
      exact hl m k' hk'
    · exact hl m k hm
  constructor
  · intro m k hm
    obtain ⟨-, hw⟩ | ⟨key, ttlMs, rfl, -, -, hw⟩ | ⟨n, l, stage, -, -, -, -, -, hw⟩ |
      ⟨n, l, outcome, -, -, -, hw⟩ := cacheStep_loads h hclear
    · exact hl m k (hw ▸ hm)
    · rw [hw, getElem?_concat] at hm
      split at hm
      · cases hm
        cases he with
        | list r hr => exact .inl ⟨r, hr, rfl⟩
        | trending limit => exact .inr ⟨limit, rfl⟩
      · exact hl m k hm
    · exact moved (l := l) hw hm
    · exact moved (l := l) hw hm
  · intro key r hr
    obtain hr | ⟨value, ttlMs, -, rfl⟩ | ⟨n, l, value, -, hn, rfl, -⟩ := cacheStep_holds h hr
    · exact hs key r hr
    · cases he
    · exact hl n l hn

theorem keysProduced_init (h : (cacheMachine (α := α) maxEntries).init w) : KeysProduced w := by
  obtain ⟨hc, hl, -⟩ := h
  constructor
  · intro n l hn
    rw [hl] at hn
    cases hn
  · rintro key r ⟨t, hr⟩
    rw [hc] at hr
    cases hr

theorem TtlCache.holds_of_mem {c : TtlCache α} (h : key ∈ c.store) : ∃ value, c.Holds key value := by
  obtain ⟨entry, he⟩ := Option.isSome_iff_exists.1 (AList.lookup_isSome.2 h)
  exact ⟨entry.value, entry.expiresAt, he⟩

theorem run_deletes (w : CacheWorld α) (keys : List String) :
    (cacheMachine maxEntries).run w (keys.map .delete) =
      some { w with cache := keys.foldl .delete w.cache } := by
  induction keys generalizing w with
  | nil => rfl
  | cons key keys ih =>
    rw [List.map_cons, Machine.run]
    exact ih { w with cache := w.cache.delete key }

theorem mem_deletes (c : TtlCache α) (keys : List String) :
    key ∈ (keys.foldl .delete c).store ↔ key ∈ c.store ∧ key ∉ keys := by
  induction keys generalizing c with
  | nil => simp
  | cons k keys ih =>
    rw [List.foldl_cons, ih, TtlCache.delete, AList.mem_erase, List.mem_cons]
    tauto

/-- The key of a list request has more separators than any key that the invalidation tries. -/
theorem cacheKey_notMem (r : ListRequest) : r.cacheKey ∉ invalidateProblemsCache := by
  have hkeys : ∀ key ∈ invalidateProblemsCache, key.toList.count ':' ≤ 5 := by decide
  intro h
  have hle := hkeys _ h
  rw [r.cacheKey_toList, List.count_append, List.append_assoc, List.cons_append, List.count_append,
    r.count_filterText, List.count_cons_self, List.count_append, List.count_cons_self] at hle
  have hhead : "problems:list:".toList.count ':' = 2 := by decide
  omega

def sweptTrending : List String := ["trending:10", "trending:20", "trending:30"]

theorem swept_subset : sweptTrending ⊆ invalidateProblemsCache := by decide

/-- Of the keys of the two routes the invalidation tries those three only. -/
theorem Produced.swept (h : Produced key) (hkey : key ∈ invalidateProblemsCache) :
    key ∈ sweptTrending := by
  obtain ⟨r, -, rfl⟩ | ⟨limit, rfl⟩ := h
  · exact absurd hkey (cacheKey_notMem r)
  · have hall : ∀ n ∈ List.range' 1 30, s!"trending:{n}" ∈ invalidateProblemsCache →
        s!"trending:{n}" ∈ sweptTrending := by decide
    obtain ⟨hpos, hle⟩ := trendingLimit_bounds limit
    exact hall (trendingLimit limit) (List.mem_range'_1.2 ⟨hpos, by omega⟩) hkey

/-- After the invalidation nothing of the two routes is cached if and only if, before it, the cache
had at most the trending lists of 10, 20 and 30 problems. -/
theorem problems_invalidated_iff (h₀ : (cacheMachine maxEntries).init w₀)
    (hes : ∀ e ∈ es, ProblemTraffic e) (hr : (cacheMachine maxEntries).run w₀ es = some w) :
    ∃ w', (cacheMachine maxEntries).run w Invalidation.problems.events = some w' ∧
      ((∀ key, Produced key → key ∉ w'.cache.store) ↔
        ∀ key ∈ w.cache.store, key ∈ sweptTrending) := by
  have hw : KeysProduced w := keysProduced_preserved.run (keysProduced_init h₀)
    (Machine.always_of_events fun e he _ _ => hes e he) hr
  have hproduced (key : String) (hkey : key ∈ w.cache.store) : Produced key := by
    obtain ⟨value, hv⟩ := TtlCache.holds_of_mem hkey
    exact hw.2 key value hv
  refine ⟨_, run_deletes w invalidateProblemsCache, ?_⟩
  constructor
  · intro hnone key hkey
    have hp := hproduced key hkey
    by_contra hswept
    exact hnone key hp ((mem_deletes w.cache _).2 ⟨hkey, mt hp.swept hswept⟩)
  · intro hswept key hp hkey
    obtain ⟨hstored, hnot⟩ := (mem_deletes w.cache _).1 hkey
    exact hnot (swept_subset (hswept key hstored))

/-- A trending list of the default length, cached. -/
def trendingCached : List (CacheEvent String) :=
  [.remember (trendingKey none) 300000, .resolve 0 (some "ranked"), .store 0, .land 0, .resume 0]

theorem problems_invalidated_trending :
    ∃ w w', (cacheMachine 2000).run emptyCache trendingCached = some w ∧
      (cacheMachine 2000).run w Invalidation.problems.events = some w' ∧
      ∀ key, Produced key → key ∉ w'.cache.store := by
  have hrun : ∃ w, (cacheMachine 2000).run emptyCache trendingCached = some w ∧
      ∀ key ∈ w.cache.store.keys, key ∈ sweptTrending := ⟨_, rfl, by decide⟩
  obtain ⟨w, hr, hw⟩ := hrun
  have hes : ∀ e ∈ trendingCached, ProblemTraffic e := by
    rw [trendingCached, List.forall_mem_cons]
    refine ⟨.trending none, ?_⟩
    simp only [List.forall_mem_cons, List.not_mem_nil, false_imp_iff, implies_true, and_true]
    exact ⟨.resolve 0 _, .store 0, .land 0, .resume 0⟩
  obtain ⟨w', hr', hiff⟩ := problems_invalidated_iff ⟨rfl, rfl, rfl⟩ hes hr
  exact ⟨w, w', hr, hr', hiff.2 hw⟩

def plainList : ListRequest := ⟨none, none, none, none, none, none, none⟩

def plainCached : List (CacheEvent String) :=
  [.remember plainList.cacheKey 60000, .resolve 0 (some "before"), .store 0]

/-- The first page of the unfiltered list survives the invalidation. -/
theorem list_survives :
    ∃ w w', (∀ e ∈ plainCached, ProblemTraffic e) ∧
      (cacheMachine 2000).run emptyCache plainCached = some w ∧
      (cacheMachine 2000).run w Invalidation.problems.events = some w' ∧
      Produced plainList.cacheKey ∧ plainList.cacheKey ∈ w'.cache.store := by
  refine ⟨_, _, ?_, rfl, rfl, .inl ⟨plainList, rfl, rfl⟩, ?_⟩
  · simp only [plainCached, List.forall_mem_cons, List.not_mem_nil, false_imp_iff, implies_true,
      and_true]
    exact ⟨.list plainList rfl, .resolve 0 _, .store 0⟩
  · decide

end Leetrank
