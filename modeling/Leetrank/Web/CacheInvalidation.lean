import Leetrank.Web.CacheLoads

namespace Leetrank
set_option autoImplicit true

open EventMachine InsertionOrder

variable {w w' : CacheWorld α} {l : Load α} {n i : Nat}

/-- No call of the key from number `K` on has been given the value of a load below `N`. -/
def CacheWorld.FreshSince (w : CacheWorld α) (key : String) (K N : Nat) : Prop :=
  ∀ (i : Nat) (call : CacheCall α) (r : Sourced α) (n : Nat), K ≤ i → w.calls[i]? = some call →
    call.key = key → call.reply = some (.ok r) → r.load = some n → N ≤ n

/-- The load has nothing more to store or to give to a call. -/
def LoadStage.Spent : LoadStage α → Prop
  | .rejected _ | .settled _ => True
  | _ => False

def LoadStage.Failing : LoadStage α → Prop
  | .rejected _ | .settled (.error _) => True
  | _ => False

theorem LoadStage.Next.spent {s t : LoadStage α} (h : s.Next t) (hs : s.Spent) : t.Spent := by
  cases h <;> trivial

theorem LoadStage.Next.failing {s t : LoadStage α} (h : s.Next t) (hs : s.Failing) :
    t.Failing := by
  cases h <;> trivial

def CacheWorld.Failing (w : CacheWorld α) (n : Nat) : Prop :=
  ∃ l, w.loads[n]? = some l ∧ l.stage.Failing

/-- A load stays, with its key, and moves by at most one stage. -/
theorem cacheStep_load (h : cacheStep w e = some w') (he : e ≠ .clear)
    (hl : w.loads[n]? = some l) :
    ∃ l' : Load α, w'.loads[n]? = some l' ∧ l'.key = l.key ∧
      (l'.stage = l.stage ∨ l.stage.Next l'.stage) := by
  have moved {m : Nat} {k : Load α} {stage : LoadStage α} (hm : w.loads[m]? = some k)
      (hk : k.stage.Next stage) (hw : w'.loads = (w.setStage m stage).loads) :
      ∃ l' : Load α, w'.loads[n]? = some l' ∧ l'.key = l.key ∧
        (l'.stage = l.stage ∨ l.stage.Next l'.stage) := by
    rw [hw, w.getElem?_setStage]
    by_cases hmn : m = n
    · subst hmn
      rw [hl] at hm
      cases hm
      rw [if_pos rfl, hl]
      exact ⟨_, rfl, rfl, .inr hk⟩
    · rw [if_neg hmn]
      exact ⟨l, hl, rfl, .inl rfl⟩
  obtain ⟨-, hw⟩ | ⟨key, ttlMs, -, -, -, hw⟩ | ⟨m, k, stage, hm, hk, -, -, -, hw⟩ |
    ⟨m, k, outcome, hm, hk, -, hw⟩ := cacheStep_loads h he
  · rw [hw]
    exact ⟨l, hl, rfl, .inl rfl⟩
  · rw [hw, List.getElem?_append_left (List.getElem?_eq_some_iff.1 hl).1]
    exact ⟨l, hl, rfl, .inl rfl⟩
  · exact moved hm hk hw
  · exact moved hm hk hw

theorem cacheStep_length (h : cacheStep w e = some w') (he : e ≠ .clear) :
    w.loads.length ≤ w'.loads.length := by
  obtain ⟨-, hw⟩ | ⟨key, ttlMs, -, -, -, hw⟩ | ⟨m, k, stage, -, -, -, -, -, hw⟩ |
    ⟨m, k, outcome, -, -, -, hw⟩ := cacheStep_loads h he
  · exact Nat.le_of_eq (congrArg List.length hw.symm)
  · rw [hw, List.length_append]
    exact Nat.le_add_right _ _
  · rw [hw, CacheWorld.setStage, List.length_modify]
  · rw [hw, CacheWorld.setStage, List.length_modify]

theorem CacheWorld.Failing.step (h : cacheStep w e = some w') (he : e ≠ .clear)
    (hn : w.Failing n) : w'.Failing n := by
  obtain ⟨l, hl, hf⟩ := hn
  obtain ⟨l', hl', -, hs | hs⟩ := cacheStep_load h he hl
  · exact ⟨l', hl', hs ▸ hf⟩
  · exact ⟨l', hl', hs.failing hf⟩

theorem cacheStep_inflight (h : cacheStep w e = some w') (he : e ≠ .clear)
    (hn : w'.cache.inflight.lookup key = some n) :
    w.cache.inflight.lookup key = some n ∨ n = w.loads.length := by
  obtain ⟨hi, -⟩ | ⟨k, ttlMs, -, -, hi, -⟩ | ⟨m, l, stage, -, -, -, -, hi, -⟩ |
    ⟨m, l, outcome, -, -, hi, -⟩ := cacheStep_loads h he
  · exact .inl (hi ▸ hn)
  · rw [hi, InsertionMap.lookup_set] at hn
    split at hn
    · exact .inr (Option.some.inj hn).symm
    · exact .inl hn
  · exact .inl (hi ▸ hn)
  · rw [hi, InsertionMap.lookup_erase] at hn
    split at hn
    · cases hn
    · exact .inl hn

/-- A value that a step puts in the store was given to `set` or is that of a load resolved. -/
theorem cacheStep_holds (h : cacheStep w e = some w') (hr : w'.cache.Holds key r) :
    w.cache.Holds key r ∨ (∃ value ttlMs, r = ⟨value, none⟩ ∧ e = .set key value ttlMs) ∨
      ∃ (n : Nat) (l : Load α) (value : Option α), r = ⟨value, some n⟩ ∧ w.loads[n]? = some l ∧
        l.key = key ∧ l.stage = .resolved value := by
  cases e with
  | get k =>
    cases h
    exact .inl (TtlCache.holds_of_get hr)
  | set k value ttlMs =>
    cases h
    obtain ⟨rfl, rfl⟩ | hr := TtlCache.holds_of_set hr
    · exact .inr (.inl ⟨value, ttlMs, rfl, rfl⟩)
    · exact .inl hr
  | delete k =>
    cases h
    exact .inl (TtlCache.holds_of_delete hr).2
  | clear =>
    cases h
    obtain ⟨t, hr⟩ := hr
    cases hr
  | remember k ttlMs =>
    cases h
    obtain ⟨r, -, hw⟩ | ⟨n, -, hw⟩ | ⟨hn, hw⟩ := w.remember_cases k ttlMs <;>
      exact .inl (TtlCache.holds_of_get (hw ▸ hr))
  | resolve n value =>
    obtain ⟨k, ttlMs, hl, rfl⟩ := cacheStep_resolve h
    exact .inl hr
  | reject n err =>
    obtain ⟨k, ttlMs, hl, rfl⟩ := cacheStep_reject h
    exact .inl hr
  | store n =>
    obtain ⟨k, ttlMs, value, hl, rfl⟩ := cacheStep_store h
    obtain ⟨rfl, rfl⟩ | hr := TtlCache.holds_of_set hr
    · exact .inr (.inr ⟨n, _, value, rfl, hl, rfl, rfl⟩)
    · exact .inl hr
  | land n =>
    obtain ⟨l, outcome, -, -, rfl⟩ := cacheStep_land h
    exact .inl hr
  | resume i =>
    obtain ⟨k, n, l, outcome, -, -, -, rfl⟩ := cacheStep_resume h
    exact .inl hr
  | clock now =>
    cases h
    exact .inl hr

/-- A call after a step was there before it, has been given a value of the store, waits for the
load in flight or for a new one, or has been given the outcome of the load it waited for. -/
theorem cacheStep_calls {call : CacheCall α} (h : cacheStep w e = some w')
    (hi : w'.calls[i]? = some call) :
    w.calls[i]? = some call ∨
      (∃ r, call.joined = none ∧ call.reply = some (.ok r) ∧
        ((r = ⟨none, none⟩ ∧ e = .get call.key) ∨ w.cache.Holds call.key r)) ∨
      (∃ n, call.joined = some n ∧ call.reply = none ∧
        (w.cache.inflight.lookup call.key = some n ∨ (n = w.loads.length ∧
          ∃ ttlMs, w'.loads[n]? = some ⟨call.key, ttlMs, .pending⟩))) ∨
      (∃ (n : Nat) (l : Load α) (outcome : Except String (Option α)),
        w.calls[i]? = some ⟨call.key, some n, none⟩ ∧ w.loads[n]? = some l ∧
          l.stage = .settled outcome ∧ call.joined = some n ∧
          call.reply = some (outcome.map (⟨·, some n⟩))) := by
  have added {call' : CacheCall α} (hw : w'.calls = w.calls ++ [call']) :
      w.calls[i]? = some call ∨ call = call' := by
    rw [hw, getElem?_concat] at hi
    split at hi
    · exact .inr (Option.some.inj hi).symm
    · exact .inl hi
  cases e with
  | get key =>
    cases h
    have hg : (w.get key).calls = w.calls ++
        [⟨key, none, some (.ok ((w.cache.get w.now key).1.getD ⟨none, none⟩))⟩] := rfl
    obtain hi | rfl := added hg
    · exact .inl hi
    · refine .inr (.inl ⟨_, rfl, rfl, ?_⟩)
      cases hc : (w.cache.get w.now key).1 with
      | none => exact .inl ⟨rfl, rfl⟩
      | some r => exact .inr (TtlCache.holds_of_hit hc)
  | remember key ttlMs =>
    cases h
    obtain ⟨r, hr, hw⟩ | ⟨n, hn, hw⟩ | ⟨-, hw⟩ := w.remember_cases key ttlMs
    · rw [hw] at added
      obtain hi | rfl := added rfl
      · exact .inl hi
      · exact .inr (.inl ⟨r, rfl, rfl, .inr (TtlCache.holds_of_hit hr)⟩)
    · rw [hw] at added
      obtain hi | rfl := added rfl
      · exact .inl hi
      · exact .inr (.inr (.inl ⟨n, rfl, rfl, .inl hn⟩))
    · rw [hw] at added
      obtain hi | rfl := added rfl
      · exact .inl hi
      · refine .inr (.inr (.inl ⟨w.loads.length, rfl, rfl, .inr ⟨rfl, ttlMs, ?_⟩⟩))
        rw [hw]
        exact List.getElem?_concat_length
  | resume j =>
    obtain ⟨key, n, l, outcome, hj, hl, hs, rfl⟩ := cacheStep_resume h
    by_cases hij : j = i
    · subst hij
      have hlt : j < w.calls.length := (List.getElem?_eq_some_iff.1 hj).1
      rw [List.getElem?_set_self hlt] at hi
      cases hi
      exact .inr (.inr (.inr ⟨n, l, outcome, hj, hl, hs, rfl, rfl⟩))
    · rw [List.getElem?_set_ne hij] at hi
      exact .inl hi
  | set key value ttlMs =>
    cases h
    exact .inl hi
  | delete key =>
    cases h
    exact .inl hi
  | clear =>
    cases h
    exact .inl hi
  | resolve n value =>
    obtain ⟨key, ttlMs, -, rfl⟩ := cacheStep_resolve h
    exact .inl hi
  | reject n err =>
    obtain ⟨key, ttlMs, -, rfl⟩ := cacheStep_reject h
    exact .inl hi
  | store n =>
    obtain ⟨key, ttlMs, value, -, rfl⟩ := cacheStep_store h
    exact .inl hi
  | land n =>
    obtain ⟨l, outcome, -, -, rfl⟩ := cacheStep_land h
    exact .inl hi
  | clock now =>
    cases h
    exact .inl hi

/-- The loads below `N` of the key can no longer reach a call from number `K` on. -/
structure Superseded (key : String) (K N : Nat) (w : CacheWorld α) : Prop where
  started : N ≤ w.loads.length
  store : ∀ (r : Sourced α) (n : Nat), w.cache.Holds key r → r.load = some n → N ≤ n
  loads : ∀ (n : Nat) (l : Load α), w.loads[n]? = some l → l.key = key → n < N → l.stage.Spent
  inflight : ∀ (n : Nat), w.cache.inflight.lookup key = some n → n < N → w.Failing n
  joined : ∀ (i : Nat) (call : CacheCall α) (n : Nat), K ≤ i → w.calls[i]? = some call →
    call.key = key → call.joined = some n → n < N → w.Failing n
  fresh : w.FreshSince key K N

theorem Superseded.joined_step {call : CacheCall α} (hw : Superseded key K N w)
    (h : cacheStep w e = some w') (he : e ≠ .clear) (hK : K ≤ i) (hi : w'.calls[i]? = some call)
    (hkey : call.key = key) (hn : call.joined = some n) (hlt : n < N) : w'.Failing n := by
  obtain hi | ⟨r, hj, -⟩ | ⟨m, hj, -, hm⟩ | ⟨m, l, outcome, hi, -, -, hj, -⟩ :=
    cacheStep_calls h hi
  · exact (hw.joined i call n hK hi hkey hn hlt).step h he
  · rw [hn] at hj
    cases hj
  · rw [hn] at hj
    cases hj
    rcases hm with hm | ⟨rfl, -⟩
    · exact (hw.inflight n (hkey ▸ hm) hlt).step h he
    · exact absurd hw.started (Nat.not_le_of_lt hlt)
  · rw [hn] at hj
    cases hj
    exact (hw.joined i _ n hK hi hkey rfl hlt).step h he

theorem Superseded.fresh_step {call : CacheCall α} (hw : Superseded key K N w)
    (h : cacheStep w e = some w') (hK : K ≤ i) (hi : w'.calls[i]? = some call)
    (hkey : call.key = key) (hr : call.reply = some (.ok r)) (hn : r.load = some n) : N ≤ n := by
  obtain hi | ⟨r', -, hr', hs⟩ | ⟨m, -, hr', -⟩ | ⟨m, l, outcome, hi, hl, hs, -, hr'⟩ :=
    cacheStep_calls h hi
  · exact hw.fresh i call r n hK hi hkey hr hn
  · rw [hr] at hr'
    cases hr'
    rcases hs with ⟨rfl, -⟩ | hs
    · cases hn
    · exact hw.store r n (hkey ▸ hs) hn
  · rw [hr] at hr'
    cases hr'
  · -- a call that waits for a load below `N` is not given a value
    rw [hr] at hr'
    cases outcome with
    | error err => cases hr'
    | ok value =>
      cases hr'
      cases hn
      refine Nat.le_of_not_lt fun hlt => ?_
      obtain ⟨l', hl', hf⟩ := hw.joined i _ _ hK hi hkey rfl hlt
      rw [hl] at hl'
      cases hl'
      rw [hs] at hf
      exact hf

theorem superseded_preserved :
    (cacheMachine (α := α) maxEntries).Preserves (fun _ e _ => e ≠ .clear)
      (Superseded key K N) := by
  intro w e w' hw h he
  constructor
  case started => exact Nat.le_trans hw.started (cacheStep_length h he)
  case store =>
    intro r n hr hn
    obtain hr | ⟨value, ttlMs, rfl, -⟩ | ⟨m, l, value, rfl, hl, hk, hs⟩ := cacheStep_holds h hr
    · exact hw.store r n hr hn
    · cases hn
    · cases hn
      -- a load that is about to store its value is not spent
      refine Nat.le_of_not_lt fun hlt => ?_
      have hspent := hw.loads n l hl hk hlt
      rw [hs] at hspent
      exact hspent
  case loads =>
    intro n l' hl' hk hlt
    obtain ⟨l, hl⟩ : ∃ l, w.loads[n]? = some l :=
      ⟨_, List.getElem?_eq_getElem (Nat.lt_of_lt_of_le hlt hw.started)⟩
    obtain ⟨_, hl'', hkey, hs⟩ := cacheStep_load h he hl
    rw [hl'] at hl''
    cases hl''
    have hspent := hw.loads n l hl (hkey ▸ hk) hlt
    rcases hs with hs | hs
    · rw [hs]
      exact hspent
    · exact hs.spent hspent
  case inflight =>
    intro n hn hlt
    obtain hn | rfl := cacheStep_inflight h he hn
    · exact (hw.inflight n hn hlt).step h he
    · exact absurd hw.started (Nat.not_le_of_lt hlt)
  case joined =>
    intro i call n hK hi hkey hn hlt
    exact hw.joined_step h he hK hi hkey hn hlt
  case fresh =>
    intro i call r n hK hi hkey hr hn
    exact hw.fresh_step h hK hi hkey hr hn

theorem LoadStage.failing_of_inProgress {s : LoadStage α} (h : s.InProgress) (hs : s.Spent) :
    s.Failing := by
  cases s <;> trivial

theorem superseded_delete (hw : SingleFlight w)
    (hspent : ∀ l ∈ w.loads, l.key = key → l.stage.Spent) :
    Superseded key w.calls.length w.loads.length { w with cache := w.cache.delete key } := by
  constructor
  case started => exact Nat.le_refl _
  case store => exact fun r n hr => absurd rfl (TtlCache.holds_of_delete hr).1
  case loads => exact fun n l hl hk _ => hspent l (List.mem_of_getElem? hl) hk
  case inflight =>
    intro n hn _
    obtain ⟨l, hl, hk, hp⟩ := (hw key n).1 hn
    exact ⟨l, hl, LoadStage.failing_of_inProgress hp (hspent l (List.mem_of_getElem? hl) hk)⟩
  case joined =>
    intro i call n hK hi
    exact absurd (List.getElem?_eq_some_iff.1 hi).1 (Nat.not_lt_of_le hK)
  case fresh =>
    intro i call r n hK hi
    exact absurd (List.getElem?_eq_some_iff.1 hi).1 (Nat.not_lt_of_le hK)

/-- A run without `clear` gives a call of the key the value of the load. -/
def Gives (maxEntries : Nat) (key : String) (i n : Nat) (w : CacheWorld α) : Prop :=
  ∃ es w' call r, .clear ∉ es ∧ (cacheMachine maxEntries).run w es = some w' ∧
    w'.calls[i]? = some call ∧ call.key = key ∧ call.reply = some (.ok r) ∧ r.load = some n

theorem Gives.of_step (h : cacheStep w e = some w') (he : e ≠ .clear)
    (hg : Gives maxEntries key i n w') : Gives maxEntries key i n w := by
  obtain ⟨es, u, call, r, hes, hr, hcall⟩ := hg
  refine ⟨e :: es, u, call, r, ?_, ?_, hcall⟩
  · rw [List.mem_cons, not_or]
    exact ⟨he.symm, hes⟩
  · rw [Machine.run]
    exact Option.bind_eq_some_iff.2 ⟨w', h, hr⟩

theorem CacheWorld.setStage_self (w : CacheWorld α) {s : LoadStage α}
    (hl : w.loads[n]? = some ⟨k, ttlMs, s⟩) (stage : LoadStage α) :
    (w.setStage n stage).loads[n]? = some ⟨k, ttlMs, stage⟩ := by
  rw [w.getElem?_setStage, if_pos rfl, hl]
  rfl

theorem gives_of_settled (hc : w.calls[i]? = some ⟨key, some n, none⟩)
    (hl : w.loads[n]? = some ⟨k, ttlMs, .settled (.ok value)⟩) :
    Gives maxEntries key i n w := by
  have hstep : cacheStep w (.resume i) =
      some { w with calls := w.calls.set i ⟨key, some n, some (.ok ⟨value, some n⟩)⟩ } := by
    simp only [cacheStep, hc, hl]
    rfl
  refine Gives.of_step hstep (by simp) ⟨[], _, ⟨key, some n, some (.ok ⟨value, some n⟩)⟩, _,
    List.not_mem_nil, rfl, ?_, rfl, rfl, rfl⟩
  exact List.getElem?_set_self (List.getElem?_eq_some_iff.1 hc).1

theorem gives_of_stored (hc : w.calls[i]? = some ⟨key, some n, none⟩)
    (hl : w.loads[n]? = some ⟨k, ttlMs, .stored value⟩) : Gives maxEntries key i n w := by
  have hstep : cacheStep w (.land n) = some (w.land n k (.ok value)) := by
    simp only [cacheStep, hl]
  exact Gives.of_step hstep (by simp)
    (gives_of_settled hc (w.setStage_self hl (.settled (.ok value))))

theorem gives_of_resolved (hc : w.calls[i]? = some ⟨key, some n, none⟩)
    (hl : w.loads[n]? = some ⟨k, ttlMs, .resolved value⟩) : Gives maxEntries key i n w := by
  have hstep : cacheStep w (.store n) = some { w.setStage n (.stored value) with
      cache := w.cache.set w.now k ⟨value, some n⟩ ttlMs } := by
    simp only [cacheStep, hl]
  exact Gives.of_step hstep (by simp) (gives_of_stored hc (w.setStage_self hl (.stored value)))

theorem gives_of_pending (hc : w.calls[i]? = some ⟨key, some n, none⟩)
    (hl : w.loads[n]? = some ⟨k, ttlMs, .pending⟩) : Gives maxEntries key i n w := by
  have hstep : cacheStep w (.resolve n none) = some (w.setStage n (.resolved none)) := by
    simp only [cacheStep, hl]
  exact Gives.of_step hstep (by simp) (gives_of_resolved hc (w.setStage_self hl (.resolved none)))

/-- A call that waits for a load that is not spent may be given its value. -/
theorem gives_of_not_spent (hc : w.calls[i]? = some ⟨key, some n, none⟩)
    (hl : w.loads[n]? = some l) (hs : ¬l.stage.Spent) : Gives maxEntries key i n w := by
  obtain ⟨k, ttlMs, stage⟩ := l
  cases stage with
  | pending => exact gives_of_pending hc hl
  | resolved value => exact gives_of_resolved hc hl
  | stored value => exact gives_of_stored hc hl
  | rejected err => exact absurd trivial hs
  | settled outcome => exact absurd trivial hs

/-- A `remember` right after the `delete` joins the load in flight. -/
theorem remember_delete (hn : w.cache.inflight.lookup key = some n) (ttlMs : Int) :
    ∃ c, CacheWorld.remember { w with cache := w.cache.delete key } key ttlMs =
      CacheWorld.join { w with cache := c } key n := by
  obtain ⟨r, hr, -⟩ | ⟨m, hm, hw⟩ | ⟨hm, -⟩ :=
    CacheWorld.remember_cases { w with cache := w.cache.delete key } key ttlMs
  · rw [TtlCache.get_delete] at hr
    cases hr
  · rw [TtlCache.delete_inflight, hn] at hm
    cases hm
    exact ⟨_, hw⟩
  · rw [TtlCache.delete_inflight, hn] at hm
    cases hm

theorem gives_after_delete (hw : SingleFlight w) (hl : w.loads[n]? = some l)
    (hk : l.key = key) (hs : ¬l.stage.Spent) :
    Gives maxEntries key w.calls.length n { w with cache := w.cache.delete key } := by
  have hp : l.stage.InProgress := by
    revert hs
    cases l.stage with
    | settled outcome => exact fun hs => hs trivial
    | _ => exact fun _ => trivial
  obtain ⟨c, hc⟩ := remember_delete ((hw key n).2 ⟨l, hl, hk, hp⟩) 0
  have hstep : cacheStep { w with cache := w.cache.delete key } (.remember key 0) =
      some (CacheWorld.join { w with cache := c } key n) := congrArg some hc
  exact Gives.of_step hstep (by simp)
    (gives_of_not_spent List.getElem?_concat_length hl hs)

variable {w₀ : CacheWorld α} {past : List (CacheEvent α)}

theorem singleFlight_run (h₀ : (cacheMachine maxEntries).init w₀) (hpast : .clear ∉ past)
    (hr : (cacheMachine maxEntries).run w₀ past = some w) : SingleFlight w :=
  singleFlight_preserved.run (singleFlight_init h₀)
    (Machine.always_of_events fun _ he _ _ heq => hpast (heq ▸ he)) hr

theorem Superseded.run (h : Superseded key K N w) (hes : .clear ∉ es)
    (hr : (cacheMachine maxEntries).run w es = some w') : Superseded key K N w' :=
  superseded_preserved.run h (Machine.always_of_events fun _ he _ _ heq => hes (heq ▸ he)) hr

/-- After `delete` no call of the key is given the value of an older load, whatever happens, if
and only if each load of the key has been rejected or has settled. -/
theorem delete_effective_iff (h₀ : (cacheMachine maxEntries).init w₀) (hpast : .clear ∉ past)
    (hr : (cacheMachine maxEntries).run w₀ past = some w) (key : String) :
    (∀ es w', .clear ∉ es → (cacheMachine maxEntries).run w (.delete key :: es) = some w' →
        w'.FreshSince key w.calls.length w.loads.length) ↔
      ∀ l ∈ w.loads, l.key = key → l.stage.Spent := by
  have hw := singleFlight_run h₀ hpast hr
  constructor
  · intro hfresh l hl hk
    obtain ⟨n, hl⟩ := List.getElem?_of_mem hl
    by_contra hs
    obtain ⟨es, w', call, r, hes, hr', hcall, hkey, hreply, hn⟩ :=
      gives_after_delete hw hl hk hs
    have hle := hfresh es w' hes hr' _ call r n (Nat.le_refl _) hcall hkey hreply hn
    exact absurd (List.getElem?_eq_some_iff.1 hl).1 (Nat.not_lt_of_le hle)
  · intro hspent es w' hes hr'
    exact ((superseded_delete hw hspent).run hes hr').fresh

/-- A cache in which nothing has happened yet. -/
def emptyCache : CacheWorld String := ⟨.new 2000, [], [], 0⟩

/-- One call of `remember` and a load that succeeds. -/
def settledLoad : List (CacheEvent String) :=
  [.remember "contests:all" 60000, .resolve 0 (some "before"), .store 0, .land 0, .resume 0]

theorem delete_effective_iff_settled :
    ∃ w, (cacheMachine 2000).run emptyCache settledLoad = some w ∧
      ∀ es w', .clear ∉ es →
        (cacheMachine 2000).run w (.delete "contests:all" :: es) = some w' →
          w'.FreshSince "contests:all" w.calls.length w.loads.length := by
  have hrun : ∃ w, (cacheMachine 2000).run emptyCache settledLoad = some w ∧
      w.loads = [⟨"contests:all", 60000, .settled (.ok (some "before"))⟩] := ⟨_, rfl, rfl⟩
  obtain ⟨w, hr, hl⟩ := hrun
  refine ⟨w, hr, (delete_effective_iff ⟨rfl, rfl, rfl⟩ ?_ hr "contests:all").2 ?_⟩
  · simp [settledLoad]
  · intro l hmem _
    rw [hl, List.mem_singleton] at hmem
    cases hmem
    trivial

/-- A load that is pending at the `delete` puts what it had read before it back into the store. -/
theorem delete_ineffective :
    ∃ w w', (cacheMachine 2000).run emptyCache [.remember "contests:all" 60000] = some w ∧
      (cacheMachine 2000).run w
        [.delete "contests:all", .resolve 0 (some "before"), .store 0, .land 0,
          .get "contests:all"] = some w' ∧
      ¬w'.FreshSince "contests:all" w.calls.length w.loads.length := by
  refine ⟨_, _, rfl, rfl, fun h => ?_⟩
  exact absurd (h 1 ⟨"contests:all", none, some (.ok ⟨some "before", some 0⟩)⟩ _ 0 (Nat.le_refl _)
    rfl rfl rfl rfl) (Nat.not_succ_le_zero 0)

def deletePrefix (pre : String) : List String :=
  [pre, pre ++ ":", pre ++ ":1:50", pre ++ ":1:20"] ++
    (if pre = "problems:list" then
      (List.range' 1 10).flatMap fun page =>
        [20, 50].map fun limit => s!"problems:list:::{page}:{limit}"
    else []) ++
    (if pre = "trending" then [10, 20, 30].map fun limit => s!"trending:{limit}" else [])

def invalidateProblemsCache : List String :=
  deletePrefix "problems:list" ++ deletePrefix "trending"

def invalidateContestsCache (slug : Option String) : List String :=
  "contests:all" ::
    match slug with
    | some slug => if slug = "" then [] else ["contests:detail:" ++ slug]
    | none => []

def invalidateTagsCache : List String := ["tags:all"]

def invalidateLeaderboardCache : List String := ["leaderboard:top"]

inductive Invalidation where
  | problems
  | contests (slug : Option String)
  | tags
  | leaderboard

/-- The keys that the helper deletes, in the order of its calls of `delete`. -/
def Invalidation.keys : Invalidation → List String
  | .problems => invalidateProblemsCache
  | .contests slug => invalidateContestsCache slug
  | .tags => invalidateTagsCache
  | .leaderboard => invalidateLeaderboardCache

def Invalidation.events (helper : Invalidation) : List (CacheEvent α) := helper.keys.map .delete

theorem freshSince_of_deletes {keys : List String} {es : List (CacheEvent α)} (hw : SingleFlight w)
    (hkey : key ∈ keys) (hspent : ∀ l ∈ w.loads, l.key = key → l.stage.Spent) (hes : .clear ∉ es)
    (hr : (cacheMachine maxEntries).run w (keys.map .delete ++ es) = some w') :
    w'.FreshSince key w.calls.length w.loads.length := by
  induction keys generalizing w with
  | nil => cases hkey
  | cons k keys ih =>
    have hclear : .clear ∉ keys.map .delete ++ es := by
      rw [List.mem_append, not_or]
      exact ⟨by simp, hes⟩
    obtain ⟨u, hu, hr⟩ := Machine.run_cons_some hr
    cases hu
    by_cases hk : k = key
    · subst hk
      exact ((superseded_delete hw hspent).run hclear hr).fresh
    · exact ih (w := { w with cache := w.cache.delete k }) hw
        ((List.mem_cons.1 hkey).resolve_left (Ne.symm hk)) hspent hr

/-- A helper is effective on each of its keys that has no load in progress when it is called. -/
theorem invalidation_effective (h₀ : (cacheMachine maxEntries).init w₀) (hpast : .clear ∉ past)
    (hr : (cacheMachine maxEntries).run w₀ past = some w) (helper : Invalidation)
    (hkey : key ∈ helper.keys) (hspent : ∀ l ∈ w.loads, l.key = key → l.stage.Spent)
    (hes : .clear ∉ es) (hr' : (cacheMachine maxEntries).run w (helper.events ++ es) = some w') :
    w'.FreshSince key w.calls.length w.loads.length :=
  freshSince_of_deletes (singleFlight_run h₀ hpast hr) hkey hspent hes hr'

end Leetrank
