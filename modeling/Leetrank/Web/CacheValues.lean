import Leetrank.Web.CacheSingleFlight

namespace Leetrank
set_option autoImplicit true

open EventMachine InsertionOrder

variable {w w' : CacheWorld α} {Good : String → Option α → Prop}

/-- The value of a load, once its loader has produced one. -/
def LoadStage.value? : LoadStage α → Option (Option α)
  | .resolved value | .stored value | .settled (.ok value) => some value
  | _ => none

theorem LoadStage.Next.value? {s t : LoadStage α} (h : s.Next t) (ht : t.value? = some v) :
    s.value? = some v ∨ (s = .pending ∧ t = .resolved v) := by
  cases h with
  | resolve value =>
    cases ht
    exact .inr ⟨rfl, rfl⟩
  | reject err => cases ht
  | store value => exact .inl ht
  | fulfil value => exact .inl ht
  | fail err => cases ht

/-- Every value that the cache has, is loading or has given out is good for its key. -/
structure Vouched (Good : String → Option α → Prop) (w : CacheWorld α) : Prop where
  store : ∀ key r, w.cache.Holds key r → Good key r.value
  loads : ∀ (n : Nat) (l : Load α) v, w.loads[n]? = some l → l.stage.value? = some v → Good l.key v
  calls : ∀ (i : Nat) (call : CacheCall α) (r : Sourced α), w.calls[i]? = some call →
    call.reply = some (.ok r) → Good call.key r.value

/-- The values that an event brings in from outside are good for their keys. -/
def Vouching (Good : String → Option α → Prop) (w : CacheWorld α) : CacheEvent α → Prop
  | .get key => Good key none
  | .set key value _ => Good key value
  | .resolve n value => ∀ l, w.loads[n]? = some l → Good l.key value
  | .clear => False
  | _ => True

theorem vouched_loads {n : Nat} {l : Load α} (hw : Vouched Good w) (h : cacheStep w e = some w')
    (he : e ≠ .clear) (hC : Vouching Good w e) (hl : w'.loads[n]? = some l)
    (hv : l.stage.value? = some v) : Good l.key v := by
  have moved {m : Nat} {l₀ : Load α} {stage : LoadStage α} (hm : w.loads[m]? = some l₀)
      (hnext : l₀.stage.Next stage) (hresolve : ∀ v, stage = .resolved v → e = .resolve m v)
      (hloads : w'.loads = (w.setStage m stage).loads) : Good l.key v := by
    rw [hloads, w.getElem?_setStage] at hl
    split at hl
    next hmn =>
      subst hmn
      rw [hm] at hl
      cases hl
      rcases hnext.value? hv with hv | ⟨-, hs⟩
      · exact hw.loads m l₀ v hm hv
      · have hev : e = .resolve m v := hresolve v hs
        subst hev
        exact hC l₀ hm
    next => exact hw.loads n l v hl hv
  obtain ⟨-, hloads⟩ | ⟨key, ttlMs, -, -, -, hloads⟩ |
    ⟨m, l₀, stage, hm, hnext, -, hresolve, -, hloads⟩ |
    ⟨m, l₀, outcome, hm, hnext, -, hloads⟩ := cacheStep_loads h he
  · exact hw.loads n l v (hloads ▸ hl) hv
  · rw [hloads, getElem?_concat] at hl
    split at hl
    · cases hl
      cases hv
    · exact hw.loads n l v hl hv
  · exact moved hm hnext hresolve hloads
  · exact moved hm hnext nofun hloads

/-- Where only good values come in, only good values go out. -/
theorem vouched_preserved :
    (cacheMachine (α := α) maxEntries).Preserves (fun w e _ => Vouching Good w e)
      fun w => (SingleFlight w ∧ JoinedOutcome w) ∧ Vouched Good w := by
  rintro w e w' ⟨hj, hw⟩ h hC
  have he : e ≠ .clear := by
    rintro rfl
    exact hC
  have hidle : ClearsIdle w e w' := by
    cases e <;> trivial
  have hjoined : (cacheMachine (α := α) maxEntries).Preserves ClearsIdle
      fun w => SingleFlight w ∧ JoinedOutcome w := joinedOutcome_clearsIdle
  refine ⟨hjoined w e w' hj h hidle, ?_⟩
  constructor
  case store =>
    intro key r hr
    obtain hr | ⟨value, ttlMs, rfl, rfl⟩ | ⟨n, l, value, rfl, hn, rfl, hs⟩ :=
      cacheStep_holds h hr
    · exact hw.store key r hr
    · exact hC
    · exact hw.loads n l value hn (by rw [hs]; rfl)
  case loads => exact fun n l v hl hv => vouched_loads hw h he hC hl hv
  case calls =>
    intro i call r hi hr
    obtain hi | ⟨r', -, hr', hs⟩ | ⟨m, -, hr', -⟩ | ⟨n, l, outcome, hi, hl, hs, -, hr'⟩ :=
      cacheStep_calls h hi
    · exact hw.calls i call r hi hr
    · rw [hr] at hr'
      cases hr'
      rcases hs with ⟨rfl, rfl⟩ | hs
      · exact hC
      · exact hw.store call.key r hs
    · rw [hr] at hr'
      cases hr'
    · -- the load that the call waited for is one of its key
      rw [hr] at hr'
      cases outcome with
      | error err => cases hr'
      | ok value =>
        cases hr'
        obtain ⟨l', hl', hk, -⟩ := hj.2 i _ n hi rfl
        rw [hl] at hl'
        cases hl'
        have hv := hw.loads n l value hl (by rw [hs]; rfl)
        rw [hk] at hv
        exact hv

theorem vouched_init (h : (cacheMachine maxEntries).init w) : Vouched Good w := by
  obtain ⟨hnew, hloads, hcalls⟩ := h
  constructor
  case store =>
    rintro key r ⟨t, hr⟩
    rw [hnew] at hr
    cases hr
  case loads =>
    intro n l v hn
    rw [hloads] at hn
    cases hn
  case calls =>
    intro i call r hi
    rw [hcalls] at hi
    cases hi

/-- An event of the loads and of those who wait for them, that no caller of the cache starts. -/
def CacheEvent.Background : CacheEvent α → Prop
  | .resolve _ _ | .reject _ _ | .store _ | .land _ | .resume _ | .clock _ => True
  | _ => False

theorem CacheWorld.setStage_keys (w : CacheWorld α) (n : Nat) (stage : LoadStage α) :
    (w.setStage n stage).loads.map (·.key) = w.loads.map (·.key) := by
  apply List.ext_getElem?
  intro m
  rw [List.getElem?_map, List.getElem?_map, w.getElem?_setStage]
  split
  · rw [Option.map_map]
    rfl
  · rfl

/-- The loads and the calls stay what they are for. -/
theorem cacheStep_keys (h : cacheStep w e = some w') (he : e.Background) :
    w'.loads.map (·.key) = w.loads.map (·.key) ∧ w'.calls.map (·.key) = w.calls.map (·.key) := by
  cases e with
  | resolve n value =>
    obtain ⟨key, ttlMs, -, rfl⟩ := cacheStep_resolve h
    exact ⟨w.setStage_keys n _, rfl⟩
  | reject n err =>
    obtain ⟨key, ttlMs, -, rfl⟩ := cacheStep_reject h
    exact ⟨w.setStage_keys n _, rfl⟩
  | store n =>
    obtain ⟨key, ttlMs, value, -, rfl⟩ := cacheStep_store h
    exact ⟨w.setStage_keys n _, rfl⟩
  | land n =>
    obtain ⟨l, outcome, -, -, rfl⟩ := cacheStep_land h
    exact ⟨w.setStage_keys n _, rfl⟩
  | resume i =>
    obtain ⟨key, n, l, outcome, hi, -, -, rfl⟩ := cacheStep_resume h
    refine ⟨rfl, ?_⟩
    apply List.ext_getElem?
    intro j
    rw [List.getElem?_map, List.getElem?_map, List.getElem?_set]
    split
    next hij =>
      subst hij
      rw [if_pos (List.getElem?_eq_some_iff.1 hi).1, hi]
      rfl
    next => rfl
  | clock now =>
    cases h
    exact ⟨rfl, rfl⟩
  | _ => exact he.elim

end Leetrank
