import Leetrank.Web.CacheInvalidation

namespace Leetrank
set_option autoImplicit true

open EventMachine InsertionOrder

variable {w w' w₀ : CacheWorld α} {l : Load α} {n i : Nat} {call : CacheCall α}

/-- When the cache is cleared, no load is in progress. -/
def ClearsIdle : CacheWorld α → CacheEvent α → CacheWorld α → Prop
  | w, .clear, _ => ∀ l ∈ w.loads, ¬l.stage.InProgress
  | _, _, _ => True

theorem SingleFlight.clear (h : ∀ l ∈ w.loads, ¬l.stage.InProgress) :
    SingleFlight { w with cache := w.cache.clear } := by
  intro key n
  constructor
  · intro hn
    cases hn
  · rintro ⟨l, hl, -, hp⟩
    exact absurd hp (h l (List.mem_of_getElem? hl))

theorem singleFlight_clearsIdle :
    (cacheMachine (α := α) maxEntries).Preserves ClearsIdle SingleFlight := by
  intro w e w' hw h hC
  by_cases he : e = .clear
  · subst he
    cases h
    exact .clear hC
  · have hsingle : (cacheMachine (α := α) maxEntries).Preserves (fun _ e _ => e ≠ .clear)
        SingleFlight := singleFlight_preserved
    exact hsingle w e w' hw h he

/-- A key has at most one load in progress. -/
theorem SingleFlight.unique {l l' : Load α} (h : SingleFlight w) (hn : w.loads[n]? = some l)
    (hm : w.loads[m]? = some l') (hk : l.key = l'.key) (hp : l.stage.InProgress)
    (hp' : l'.stage.InProgress) : n = m := by
  have hin := (h l.key n).2 ⟨l, hn, rfl, hp⟩
  rw [(h l.key m).2 ⟨l', hm, hk.symm, hp'⟩] at hin
  exact (Option.some.inj hin).symm

theorem SingleFlight.land_keeps (h : SingleFlight w) (hs : cacheStep w (.land n) = some w')
    (hne : m ≠ n) (hm : w.cache.inflight.lookup key = some m) :
    w'.cache.inflight.lookup key = some m := by
  obtain ⟨l, outcome, hl, hnext, rfl⟩ := cacheStep_land hs
  obtain ⟨l', hl', hk, hp⟩ := (h key m).1 hm
  change AList.lookup key (w.cache.inflight.erase l.key) = some m
  rw [InsertionMap.lookup_erase, if_neg, hm]
  intro he
  exact hne (h.unique hl' hl (hk.trans he) hp hnext.inProgress)

/-- The call has the outcome of the load that it joined, or is about to be given it. -/
def Receives (w : CacheWorld α) (i n : Nat) (call : CacheCall α) (l : Load α) : Prop :=
  (call.reply = none ∧ ∀ outcome, l.stage = .settled outcome →
    cacheStep w (.resume i) = some { w with
      calls := w.calls.set i { call with reply := some (outcome.map (⟨·, some n⟩)) } }) ∨
    ∃ outcome, l.stage = .settled outcome ∧ call.reply = some (outcome.map (⟨·, some n⟩))

/-- A call has joined a load of its key and, if it has a reply, has the outcome of that load. -/
def JoinedOutcome (w : CacheWorld α) : Prop :=
  ∀ (i : Nat) (call : CacheCall α) (n : Nat), w.calls[i]? = some call → call.joined = some n →
    ∃ l, w.loads[n]? = some l ∧ l.key = call.key ∧
      (call.reply = none ∨
        ∃ outcome, l.stage = .settled outcome ∧ call.reply = some (outcome.map (⟨·, some n⟩)))

theorem cacheStep_settled {outcome : Except String (Option α)} (h : cacheStep w e = some w')
    (he : e ≠ .clear) (hl : w.loads[n]? = some l) (hs : l.stage = .settled outcome) :
    ∃ l', w'.loads[n]? = some l' ∧ l'.key = l.key ∧ l'.stage = .settled outcome := by
  obtain ⟨l', hl', hk, hs' | hs'⟩ := cacheStep_load h he hl
  · exact ⟨l', hl', hk, hs'.trans hs⟩
  · rw [hs] at hs'
    cases hs'

theorem joinedOutcome_clearsIdle :
    (cacheMachine (α := α) maxEntries).Preserves ClearsIdle
      fun w => SingleFlight w ∧ JoinedOutcome w := by
  rintro w e w' ⟨hw, hj⟩ h hC
  have hsingle : (cacheMachine (α := α) maxEntries).Preserves ClearsIdle SingleFlight :=
    singleFlight_clearsIdle
  refine ⟨hsingle w e w' hw h hC, ?_⟩
  by_cases he : e = .clear
  · subst he
    cases h
    exact hj
  · intro i call n hi hn
    obtain hi | ⟨r, hnone, -⟩ | ⟨m, hm, hr, hm'⟩ | ⟨m, l, outcome, hi, hl, hs, hm, hr⟩ :=
      cacheStep_calls h hi
    · obtain ⟨l, hl, hk, ho⟩ := hj i call n hi hn
      rcases ho with ho | ⟨outcome, hs, ho⟩
      · obtain ⟨l', hl', hk', -⟩ := cacheStep_load h he hl
        exact ⟨l', hl', hk'.trans hk, .inl ho⟩
      · obtain ⟨l', hl', hk', hs'⟩ := cacheStep_settled h he hl hs
        exact ⟨l', hl', hk'.trans hk, .inr ⟨outcome, hs', ho⟩⟩
    · rw [hn] at hnone
      cases hnone
    · rw [hn] at hm
      cases hm
      rcases hm' with hin | ⟨-, ttlMs, hl⟩
      · -- the call has joined the load in flight, which is one of its key
        obtain ⟨l, hl, hk, -⟩ := (hw call.key n).1 hin
        obtain ⟨l', hl', hk', -⟩ := cacheStep_load h he hl
        exact ⟨l', hl', hk'.trans hk, .inl hr⟩
      · exact ⟨_, hl, rfl, .inl hr⟩
    · rw [hn] at hm
      cases hm
      obtain ⟨l₁, hl₁, hk, -⟩ := hj i _ n hi rfl
      rw [hl] at hl₁
      cases hl₁
      obtain ⟨l', hl', hk', hs'⟩ := cacheStep_settled h he hl hs
      exact ⟨l', hl', hk'.trans hk, .inr ⟨outcome, hs', hr⟩⟩

theorem joinedOutcome_init (h : (cacheMachine (α := α) maxEntries).init w) :
    SingleFlight w ∧ JoinedOutcome w := by
  refine ⟨singleFlight_init h, ?_⟩
  intro i call n hi
  rw [h.2.2] at hi
  cases hi

theorem cacheStep_resume_settled {key : String} {outcome : Except String (Option α)}
    (hi : w.calls[i]? = some ⟨key, some n, none⟩) (hl : w.loads[n]? = some l)
    (hs : l.stage = .settled outcome) :
    cacheStep w (.resume i) = some { w with
      calls := w.calls.set i ⟨key, some n, some (outcome.map (⟨·, some n⟩))⟩ } := by
  rw [cacheStep, hi]
  simp only [hl, Option.bind_some, hs]
  rfl

theorem JoinedOutcome.receives (h : JoinedOutcome w) (hi : w.calls[i]? = some call)
    (hn : call.joined = some n) :
    ∃ l, w.loads[n]? = some l ∧ l.key = call.key ∧ Receives w i n call l := by
  obtain ⟨l, hl, hk, ho⟩ := h i call n hi hn
  refine ⟨l, hl, hk, ?_⟩
  rcases ho with ho | ho
  · refine .inl ⟨ho, ?_⟩
    intro outcome hs
    obtain ⟨key, joined, reply⟩ := call
    cases hn
    cases ho
    exact cacheStep_resume_settled hi hl hs
  · exact .inr ho

/-- As long as the cache is only cleared while no load is in progress, a key has at most one load
in progress, whoever joins a load is given its outcome, and a load that lands leaves the loads in
flight other than itself where they are. -/
theorem single_flight (h₀ : (cacheMachine maxEntries).init w₀)
    (hr : (cacheMachine maxEntries).run w₀ es = some w)
    (hC : (cacheMachine maxEntries).Always ClearsIdle w₀ es) :
    (∀ (n m : Nat) (l l' : Load α), w.loads[n]? = some l → w.loads[m]? = some l' →
        l.key = l'.key → l.stage.InProgress → l'.stage.InProgress → n = m) ∧
      (∀ (i n : Nat) (call : CacheCall α), w.calls[i]? = some call → call.joined = some n →
        ∃ l, w.loads[n]? = some l ∧ l.key = call.key ∧ Receives w i n call l) ∧
      ∀ n w', cacheStep w (.land n) = some w' → ∀ key m, m ≠ n →
        w.cache.inflight.lookup key = some m → w'.cache.inflight.lookup key = some m := by
  obtain ⟨hw, hj⟩ := joinedOutcome_clearsIdle.run (joinedOutcome_init h₀) hC hr
  refine ⟨?_, ?_, ?_⟩
  · exact fun n m l l' => hw.unique
  · exact fun i n call => hj.receives
  · exact fun n w' hs key m => hw.land_keeps hs

/-- The condition is needed: after a `clear` with a load in progress, a call of its key starts
another one. -/
theorem clear_duplicates (hl : w.loads[n]? = some l) (ttlMs : Int) :
    ∃ w', (cacheMachine maxEntries).run w [.clear, .remember l.key ttlMs] = some w' ∧
      w'.loads[n]? = some l ∧ w'.loads[w.loads.length]? = some ⟨l.key, ttlMs, .pending⟩ := by
  refine ⟨CacheWorld.remember { w with cache := w.cache.clear } l.key ttlMs, rfl, ?_⟩
  obtain ⟨r, hr, -⟩ | ⟨m, hm, -⟩ | ⟨-, hw⟩ :=
    CacheWorld.remember_cases { w with cache := w.cache.clear } l.key ttlMs
  · cases hr
  · cases hm
  · rw [hw]
    constructor
    · exact (List.getElem?_append_left (List.getElem?_eq_some_iff.1 hl).1).trans hl
    · exact List.getElem?_concat_length

/-- Two calls of one key, and a third one after the cache has been cleared. -/
def clearedIdle : List (CacheEvent String) :=
  [.remember "contests:all" 60000, .remember "contests:all" 60000, .resolve 0 (some "before"),
    .store 0, .land 0, .resume 0, .clear, .remember "contests:all" 60000]

theorem clearedIdle_clearsIdle :
    (cacheMachine 2000).Always ClearsIdle emptyCache clearedIdle := by
  apply Machine.always_cons rfl trivial
  apply Machine.always_cons rfl trivial
  apply Machine.always_cons rfl trivial
  apply Machine.always_cons rfl trivial
  apply Machine.always_cons rfl trivial
  apply Machine.always_cons rfl trivial
  refine Machine.always_cons rfl ?_ (Machine.always_cons rfl trivial trivial)
  intro l hl
  cases List.mem_singleton.1 hl
  exact id

theorem single_flight_clearedIdle :
    ∃ w, (cacheMachine 2000).run emptyCache clearedIdle = some w ∧
      ∀ (n m : Nat) (l l' : Load String), w.loads[n]? = some l → w.loads[m]? = some l' →
        l.key = l'.key → l.stage.InProgress → l'.stage.InProgress → n = m := by
  have hrun : ∃ w, (cacheMachine 2000).run emptyCache clearedIdle = some w := ⟨_, rfl⟩
  obtain ⟨w, hw⟩ := hrun
  exact ⟨w, hw, (single_flight ⟨rfl, rfl, rfl⟩ hw clearedIdle_clearsIdle).1⟩

/-- A load that was in progress when the cache was cleared takes the newer one out of flight. -/
theorem flight_duplicated :
    ∃ w w' : CacheWorld String, (cacheMachine 2000).run emptyCache
        [.remember "contests:all" 60000, .clear, .remember "contests:all" 60000,
          .resolve 0 (some "before"), .store 0] = some w ∧
      w.loads[0]? = some ⟨"contests:all", 60000, .stored (some "before")⟩ ∧
      w.loads[1]? = some ⟨"contests:all", 60000, .pending⟩ ∧
      cacheStep w (.land 0) = some w' ∧
      w.cache.inflight.lookup "contests:all" = some 1 ∧
      w'.cache.inflight.lookup "contests:all" = none :=
  ⟨_, _, rfl, rfl, rfl, rfl, rfl, rfl⟩

end Leetrank
