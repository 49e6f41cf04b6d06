import Leetrank.Web.TtlCache

namespace Leetrank
set_option autoImplicit true

open EventMachine InsertionOrder

/-- A value of the cache, `none` being `undefined`, with the load that produced it. -/
structure Sourced (α : Type u) where
  value : Option α
  load : Option Nat

/-- How far a loader and the two callbacks chained to its promise are. -/
inductive LoadStage (α : Type u) where
  | pending
  -- the callback that stores the value is queued
  | resolved (value : Option α)
  -- the callback that ends the flight is queued
  | stored (value : Option α)
  | rejected (err : String)
  | settled (outcome : Except String (Option α))

structure Load (α : Type u) where
  key : String
  ttlMs : Int
  stage : LoadStage α

/-- A call of `get` or `remember`, with the load whose promise it was given and its reply. -/
structure CacheCall (α : Type u) where
  key : String
  joined : Option Nat
  reply : Option (Except String (Sourced α))

structure CacheWorld (α : Type u) where
  cache : TtlCache (Sourced α)
  loads : List (Load α)
  calls : List (CacheCall α)
  now : Int

inductive CacheEvent (α : Type u) where
  | get (key : String)
  | set (key : String) (value : Option α) (ttlMs : Int)
  | delete (key : String)
  | clear
  | remember (key : String) (ttlMs : Int)
  | resolve (n : Nat) (value : Option α)
  | reject (n : Nat) (err : String)
  | store (n : Nat)
  | land (n : Nat)
  | resume (i : Nat)
  | clock (now : Int)

variable {w w' : CacheWorld α}

def CacheWorld.reply (w : CacheWorld α) (key : String) (r : Sourced α) : CacheWorld α :=
  { w with calls := w.calls ++ [⟨key, none, some (.ok r)⟩] }

def CacheWorld.join (w : CacheWorld α) (key : String) (n : Nat) : CacheWorld α :=
  { w with calls := w.calls ++ [⟨key, some n, none⟩] }

def CacheWorld.get (w : CacheWorld α) (key : String) : CacheWorld α :=
  let (cached, c) := w.cache.get w.now key
  CacheWorld.reply { w with cache := c } key (cached.getD ⟨none, none⟩)

def CacheWorld.startLoad (w : CacheWorld α) (key : String) (ttlMs : Int) : CacheWorld α :=
  { w with
    cache := { w.cache with inflight := w.cache.inflight.set key w.loads.length }
    loads := w.loads ++ [⟨key, ttlMs, .pending⟩] }

def CacheWorld.remember (w : CacheWorld α) (key : String) (ttlMs : Int) : CacheWorld α :=
  let (cached, c) := w.cache.get w.now key
  let w := { w with cache := c }
  match cached.filter (·.value.isSome), c.inflight.lookup key with
  | some r, _ => w.reply key r
  | none, some n => w.join key n
  | none, none => (w.startLoad key ttlMs).join key w.loads.length

def CacheWorld.setStage (w : CacheWorld α) (n : Nat) (stage : LoadStage α) : CacheWorld α :=
  { w with loads := w.loads.modify n fun l => { l with stage := stage } }

def LoadStage.outcome : LoadStage α → Option (Except String (Option α))
  | .settled outcome => some outcome
  | _ => none

/-- The callback that `finally` was given. -/
def CacheWorld.land (w : CacheWorld α) (n : Nat) (key : String)
    (outcome : Except String (Option α)) : CacheWorld α :=
  { w.setStage n (.settled outcome) with
    cache := { w.cache with inflight := w.cache.inflight.erase key } }

def cacheStep (w : CacheWorld α) : CacheEvent α → Option (CacheWorld α)
  | .get key => some (w.get key)
  | .set key value ttlMs => some { w with cache := w.cache.set w.now key ⟨value, none⟩ ttlMs }
  | .delete key => some { w with cache := w.cache.delete key }
  | .clear => some { w with cache := w.cache.clear }
  | .remember key ttlMs => some (w.remember key ttlMs)
  | .resolve n value =>
    match w.loads[n]? with
    | some ⟨_, _, .pending⟩ => some (w.setStage n (.resolved value))
    | _ => none
  | .reject n err =>
    match w.loads[n]? with
    | some ⟨_, _, .pending⟩ => some (w.setStage n (.rejected err))
    | _ => none
  | .store n =>
    match w.loads[n]? with
    | some ⟨key, ttlMs, .resolved value⟩ =>
      some { w.setStage n (.stored value) with
        cache := w.cache.set w.now key ⟨value, some n⟩ ttlMs }
    | _ => none
  | .land n =>
    match w.loads[n]? with
    | some ⟨key, _, .stored value⟩ => some (w.land n key (.ok value))
    | some ⟨key, _, .rejected err⟩ => some (w.land n key (.error err))
    | _ => none
  | .resume i =>
    match w.calls[i]? with
    | some ⟨key, some n, none⟩ =>
      (w.loads[n]?.bind (·.stage.outcome)).map fun outcome =>
        { w with calls := w.calls.set i ⟨key, some n, some (outcome.map (⟨·, some n⟩))⟩ }
    | _ => none
  | .clock now => some { w with now := now }

def cacheMachine (maxEntries : Nat) : Machine (CacheWorld α) (CacheEvent α) where
  init := fun w => w.cache = .new maxEntries ∧ w.loads = [] ∧ w.calls = []
  step := cacheStep

/-- One stage of a load to the next one. -/
inductive LoadStage.Next : LoadStage α → LoadStage α → Prop where
  | resolve (value : Option α) : Next .pending (.resolved value)
  | reject (err : String) : Next .pending (.rejected err)
  | store (value : Option α) : Next (.resolved value) (.stored value)
  | fulfil (value : Option α) : Next (.stored value) (.settled (.ok value))
  | fail (err : String) : Next (.rejected err) (.settled (.error err))

def LoadStage.InProgress : LoadStage α → Prop
  | .settled _ => False
  | _ => True

theorem LoadStage.Next.inProgress {s t : LoadStage α} (h : s.Next t) : s.InProgress := by
  cases h <;> trivial

theorem getElem?_concat (l : List β) (a : β) (m : Nat) :
    (l ++ [a])[m]? = if m = l.length then some a else l[m]? := by
  rcases Nat.lt_trichotomy m l.length with hm | rfl | hm
  · rw [List.getElem?_append_left hm, if_neg (Nat.ne_of_lt hm)]
  · rw [List.getElem?_concat_length, if_pos rfl]
  · rw [if_neg (Nat.ne_of_gt hm), List.getElem?_eq_none (by simp; omega),
      List.getElem?_eq_none (Nat.le_of_lt hm)]

theorem CacheWorld.getElem?_setStage (w : CacheWorld α) (n m : Nat) (stage : LoadStage α) :
    (w.setStage n stage).loads[m]? =
      if n = m then w.loads[m]?.map fun l => { l with stage := stage } else w.loads[m]? := by
  rw [CacheWorld.setStage, List.getElem?_modify]
  split <;> simp

/-- What `remember` does: it is a hit, it joins the load in flight, or it starts one. -/
theorem CacheWorld.remember_cases (w : CacheWorld α) (key : String) (ttlMs : Int) :
    (∃ r, (w.cache.get w.now key).1 = some r ∧
        w.remember key ttlMs =
          CacheWorld.reply { w with cache := (w.cache.get w.now key).2 } key r) ∨
      (∃ n, w.cache.inflight.lookup key = some n ∧
        w.remember key ttlMs =
          CacheWorld.join { w with cache := (w.cache.get w.now key).2 } key n) ∨
      (w.cache.inflight.lookup key = none ∧
        w.remember key ttlMs =
          CacheWorld.join
            (CacheWorld.startLoad { w with cache := (w.cache.get w.now key).2 } key ttlMs)
            key w.loads.length) := by
  simp only [CacheWorld.remember]
  split
  next r hr => exact .inl ⟨r, (Option.filter_eq_some_iff.1 hr).1, rfl⟩
  next n hr hn => exact .inr (.inl ⟨n, by simpa using hn, rfl⟩)
  next hr hn => exact .inr (.inr ⟨by simpa using hn, rfl⟩)

theorem cacheStep_resolve {value : Option α} (h : cacheStep w (.resolve n value) = some w') :
    ∃ key ttlMs, w.loads[n]? = some ⟨key, ttlMs, .pending⟩ ∧
      w' = w.setStage n (.resolved value) := by
  rw [cacheStep] at h
  split at h
  next key ttlMs hl => exact ⟨key, ttlMs, hl, (Option.some.inj h).symm⟩
  next => cases h

theorem cacheStep_reject (h : cacheStep w (.reject n err) = some w') :
    ∃ key ttlMs, w.loads[n]? = some ⟨key, ttlMs, .pending⟩ ∧
      w' = w.setStage n (.rejected err) := by
  rw [cacheStep] at h
  split at h
  next key ttlMs hl => exact ⟨key, ttlMs, hl, (Option.some.inj h).symm⟩
  next => cases h

theorem cacheStep_store (h : cacheStep w (.store n) = some w') :
    ∃ key ttlMs value, w.loads[n]? = some ⟨key, ttlMs, .resolved value⟩ ∧
      w' = { w.setStage n (.stored value) with
        cache := w.cache.set w.now key ⟨value, some n⟩ ttlMs } := by
  rw [cacheStep] at h
  split at h
  next key ttlMs value hl => exact ⟨key, ttlMs, value, hl, (Option.some.inj h).symm⟩
  next => cases h

theorem cacheStep_land (h : cacheStep w (.land n) = some w') :
    ∃ l outcome, w.loads[n]? = some l ∧ l.stage.Next (.settled outcome) ∧
      w' = w.land n l.key outcome := by
  rw [cacheStep] at h
  split at h
  next key ttlMs value hl => exact ⟨_, _, hl, .fulfil value, (Option.some.inj h).symm⟩
  next key ttlMs err hl => exact ⟨_, _, hl, .fail err, (Option.some.inj h).symm⟩
  next => cases h

theorem cacheStep_resume (h : cacheStep w (.resume i) = some w') :
    ∃ key n l outcome, w.calls[i]? = some ⟨key, some n, none⟩ ∧ w.loads[n]? = some l ∧
      l.stage = .settled outcome ∧
      w' = { w with
        calls := w.calls.set i ⟨key, some n, some (outcome.map (⟨·, some n⟩))⟩ } := by
  rw [cacheStep] at h
  split at h
  next key n hi =>
    obtain ⟨outcome, ho, rfl⟩ := Option.map_eq_some_iff.1 h
    obtain ⟨⟨k, ttlMs, stage⟩, hl, ho⟩ := Option.bind_eq_some_iff.1 ho
    cases stage with
    | settled o =>
      cases ho
      exact ⟨key, n, _, _, hi, hl, rfl, rfl⟩
    | _ => cases ho
  next => cases h

/-- What a step other than `clear` does to the loads and to the map of those in flight. -/
theorem cacheStep_loads (h : cacheStep w e = some w') (he : e ≠ .clear) :
    (w'.cache.inflight = w.cache.inflight ∧ w'.loads = w.loads) ∨
      (∃ key ttlMs, e = .remember key ttlMs ∧ w.cache.inflight.lookup key = none ∧
        w'.cache.inflight = w.cache.inflight.set key w.loads.length ∧
        w'.loads = w.loads ++ [⟨key, ttlMs, .pending⟩]) ∨
      (∃ n l stage, w.loads[n]? = some l ∧ l.stage.Next stage ∧ stage.InProgress ∧
        (∀ value, stage = .resolved value → e = .resolve n value) ∧
        w'.cache.inflight = w.cache.inflight ∧ w'.loads = (w.setStage n stage).loads) ∨
      (∃ n l outcome, w.loads[n]? = some l ∧ l.stage.Next (.settled outcome) ∧
        w'.cache.inflight = w.cache.inflight.erase l.key ∧
        w'.loads = (w.setStage n (.settled outcome)).loads) := by
  cases e with
  | get key =>
    cases h
    exact .inl ⟨TtlCache.get_inflight _ _ _, rfl⟩
  | set key value ttlMs =>
    cases h
    exact .inl ⟨TtlCache.set_inflight _ _ _ _ _, rfl⟩
  | delete key =>
    cases h
    exact .inl ⟨rfl, rfl⟩
  | clear => exact absurd rfl he
  | remember key ttlMs =>
    cases h
    obtain ⟨r, -, hw⟩ | ⟨n, -, hw⟩ | ⟨hn, hw⟩ := w.remember_cases key ttlMs
    · rw [hw]
      exact .inl ⟨TtlCache.get_inflight _ _ _, rfl⟩
    · rw [hw]
      exact .inl ⟨TtlCache.get_inflight _ _ _, rfl⟩
    · rw [hw]
      refine .inr (.inl ⟨key, ttlMs, rfl, hn, ?_, rfl⟩)
      simp only [CacheWorld.join, CacheWorld.startLoad, TtlCache.get_inflight]
  | resolve n value =>
    obtain ⟨key, ttlMs, hl, rfl⟩ := cacheStep_resolve h
    refine .inr (.inr (.inl ⟨n, _, _, hl, .resolve value, trivial, ?_, rfl, rfl⟩))
    rintro _ ⟨rfl⟩
    rfl
  | reject n err =>
    obtain ⟨key, ttlMs, hl, rfl⟩ := cacheStep_reject h
    exact .inr (.inr (.inl ⟨n, _, _, hl, .reject err, trivial, nofun, rfl, rfl⟩))
  | store n =>
    obtain ⟨key, ttlMs, value, hl, rfl⟩ := cacheStep_store h
    exact .inr (.inr (.inl ⟨n, _, _, hl, .store value, trivial, nofun,
      TtlCache.set_inflight _ _ _ _ _, rfl⟩))
  | land n =>
    obtain ⟨l, outcome, hl, ho, rfl⟩ := cacheStep_land h
    exact .inr (.inr (.inr ⟨n, l, outcome, hl, ho, rfl, rfl⟩))
  | resume i =>
    obtain ⟨key, n, l, outcome, -, -, -, rfl⟩ := cacheStep_resume h
    exact .inl ⟨rfl, rfl⟩
  | clock now =>
    cases h
    exact .inl ⟨rfl, rfl⟩

/-- A key has a load in flight if and only if a load of the key is in progress. -/
def SingleFlight (w : CacheWorld α) : Prop :=
  ∀ key n, w.cache.inflight.lookup key = some n ↔
    ∃ l, w.loads[n]? = some l ∧ l.key = key ∧ l.stage.InProgress

theorem singleFlight_init (h : (cacheMachine (α := α) maxEntries).init w) : SingleFlight w := by
  obtain ⟨hc, hl, -⟩ := h
  intro key n
  simp [hc, hl, TtlCache.new]

/-- No load of the key was in progress, and the new one is. -/
theorem SingleFlight.start (hw : SingleFlight w) (hn : w.cache.inflight.lookup key = none)
    (hi : w'.cache.inflight = w.cache.inflight.set key w.loads.length)
    (hl : w'.loads = w.loads ++ [⟨key, ttlMs, .pending⟩]) : SingleFlight w' := by
  have hnone (m : Nat) : ¬∃ l, w.loads[m]? = some l ∧ l.key = key ∧ l.stage.InProgress := by
    rw [← hw key m, hn]
    exact nofun
  intro k m
  rw [hi, hl, InsertionMap.lookup_set, getElem?_concat]
  by_cases hm : m = w.loads.length
  · subst hm
    rw [if_pos rfl]
    constructor
    · intro hk
      split at hk
      next hkey => exact ⟨_, rfl, hkey.symm, trivial⟩
      next =>
        obtain ⟨l, hl, -⟩ := (hw k _).1 hk
        simp at hl
    · rintro ⟨l, ⟨rfl⟩, rfl, -⟩
      rw [if_pos rfl]
  · rw [if_neg hm]
    by_cases hk : k = key
    · subst hk
      rw [if_pos rfl]
      exact ⟨fun h => absurd (Option.some.inj h).symm hm, fun h => absurd h (hnone m)⟩
    · rw [if_neg hk]
      exact hw k m

/-- The load that moves was in progress and stays so. -/
theorem SingleFlight.advance {l : Load α} {stage : LoadStage α} (hw : SingleFlight w)
    (hn : w.loads[n]? = some l) (hnext : l.stage.Next stage) (hs : stage.InProgress)
    (hi : w'.cache.inflight = w.cache.inflight) (hl : w'.loads = (w.setStage n stage).loads) :
    SingleFlight w' := by
  intro k m
  rw [hi, hl, hw k m, w.getElem?_setStage]
  by_cases hm : n = m
  · subst hm
    rw [if_pos rfl, hn]
    constructor
    · rintro ⟨_, ⟨rfl⟩, hk, -⟩
      exact ⟨_, rfl, hk, hs⟩
    · rintro ⟨_, ⟨rfl⟩, hk, -⟩
      exact ⟨l, rfl, hk, hnext.inProgress⟩
  · rw [if_neg hm]

/-- The load that lands was the one in flight. -/
theorem SingleFlight.land {l : Load α} {outcome : Except String (Option α)} (hw : SingleFlight w)
    (hn : w.loads[n]? = some l) (hnext : l.stage.Next (.settled outcome))
    (hi : w'.cache.inflight = w.cache.inflight.erase l.key)
    (hl : w'.loads = (w.setStage n (.settled outcome)).loads) : SingleFlight w' := by
  have hlk : w.cache.inflight.lookup l.key = some n :=
    (hw l.key n).2 ⟨l, hn, rfl, hnext.inProgress⟩
  intro k m
  rw [hi, hl, InsertionMap.lookup_erase, w.getElem?_setStage]
  by_cases hm : n = m
  · subst hm
    rw [if_pos rfl, hn]
    constructor
    · intro hk
      split at hk
      next => cases hk
      next hne =>
        obtain ⟨l', hl', rfl, -⟩ := (hw k n).1 hk
        rw [hn] at hl'
        cases hl'
        exact absurd rfl hne
    · rintro ⟨_, ⟨rfl⟩, -, hs⟩
      exact hs.elim
  · rw [if_neg hm, ← hw k m]
    split
    next hk =>
      subst hk
      rw [hlk]
      exact ⟨nofun, fun h => absurd (Option.some.inj h) hm⟩
    next => rfl

theorem singleFlight_preserved :
    (cacheMachine (α := α) maxEntries).Preserves (fun _ e _ => e ≠ .clear) SingleFlight := by
  intro w e w' hw h he
  obtain ⟨hi, hl⟩ | ⟨key, ttlMs, -, hn, hi, hl⟩ | ⟨n, l, stage, hn, hnext, hs, -, hi, hl⟩ |
    ⟨n, l, outcome, hn, hnext, hi, hl⟩ := cacheStep_loads h he
  · intro k m
    rw [hi, hl]
    exact hw k m
  · exact hw.start hn hi hl
  · exact hw.advance hn hnext hs hi hl
  · exact hw.land hn hnext hi hl

end Leetrank
