import Leetrank.Library.Threads
import Mathlib.Logic.Function.Basic

namespace Leetrank
set_option autoImplicit true

open EventMachine Threads

/-- A message of the channel `analytics:invalidate`, `none` for a field that is not there. -/
structure InvalidateEvent where
  type : Option String
  username : Option String
  slug : Option String

/-- A request as it is routed: the segment of the path that names the user is not empty. -/
structure HeatmapRequest where
  username : String
  days : Int
  nonempty : username ≠ ""

def clampDays (days : Int) : Int := max 7 (min days 730)

def invalidatedDays : List Int := [30, 90, 365, 730]

def cachePrefix : String := "analytics:cache:"

/-- The key of an entry, for the digest in use. -/
def keyFor (sha1 : String → String) (ns : String) (parts : List String) : String :=
  cachePrefix ++ ns ++ ":" ++ String.ofList ((sha1 ("|".intercalate parts)).toList.take 16)

def heatmapKey (sha1 : String → String) (username : String) (days : Int) : String :=
  keyFor sha1 "heatmap" [username, toString days]

def HeatmapRequest.key (sha1 : String → String) (r : HeatmapRequest) : String :=
  heatmapKey sha1 r.username (clampDays r.days)

/-- The keys that the handling of a submit event deletes, in its order. -/
def InvalidateEvent.keys (sha1 : String → String) (e : InvalidateEvent) : List String :=
  let username := e.username.getD ""
  let slug := e.slug.getD ""
  (if username ≠ "" then invalidatedDays.map (heatmapKey sha1 username) else []) ++
    if slug ≠ "" then [keyFor sha1 "problem_stats" [slug]] else []

/-- A heatmap by what it was made from; `readAt` messages had been published when its producer read
the database. -/
structure ProducedHeatmap where
  username : String
  days : Int
  readAt : Nat

/-- The cache and the messages published so far. Kept beside them are the keys that each message's
handling has come past, and the messages, each with its user, that have been handled. -/
structure AnalyticsCache where
  store : String → Option ProducedHeatmap
  published : List InvalidateEvent
  deleted : List (String × Nat)
  handled : List (Nat × String)

inductive AnalyticsTask where
  | heatmap (r : HeatmapRequest)
  | handle (n : Nat)

/-- Where a request or the handling of a message stands. A request knows the messages that had been
handled when it came. -/
inductive AnalyticsPc where
  | get (r : HeatmapRequest) (since : List (Nat × String))
  | produce (r : HeatmapRequest) (since : List (Nat × String)) (cached : Bool)
  | set (r : HeatmapRequest) (since : List (Nat × String)) (value : ProducedHeatmap)
  | returned (r : HeatmapRequest) (since : List (Nat × String)) (value : ProducedHeatmap)
  | invalidate (n : Nat) (username : String) (keys : List String)
  | done
  | raised

/-- Besides, messages are published and entries expire. -/
inductive AnalyticsChange where
  | publish (e : InvalidateEvent)
  | expire (key : String)

inductive BackendOutcome where
  | ok
  | failed

def analyticsStart (sha1 : String → String) (s : AnalyticsCache) : AnalyticsTask → AnalyticsPc
  | .heatmap r => .get r s.handled
  | .handle n =>
    match s.published[n]? with
    | none => .done
    | some e => if e.type ≠ some "submit" then .done
      else .invalidate n (e.username.getD "") (e.keys sha1)

/-- A step of `cached_call` or of `_handle_invalidate`. Without a cache its operations fail. -/
def analyticsStep (sha1 : String → String) (s : AnalyticsCache) :
    AnalyticsPc → BackendOutcome → Option (AnalyticsCache × AnalyticsPc)
  | .get r since, .ok =>
    match s.store (r.key sha1) with
    | some hit => some (s, .returned r since hit)
    | none => some (s, .produce r since true)
  | .get r since, .failed => some (s, .produce r since false)
  | .produce r since cached, .ok =>
    let value := ⟨r.username, clampDays r.days, s.published.length⟩
    some (s, if cached then .set r since value else .returned r since value)
  | .produce _ _ _, .failed => some (s, .raised)
  | .set r since value, .ok =>
    some ({ s with store := Function.update s.store (r.key sha1) (some value) },
      .returned r since value)
  | .set r since value, .failed => some (s, .returned r since value)
  | .invalidate n username (key :: keys), x =>
    let store := match x with
      | .ok => Function.update s.store key none
      | .failed => s.store
    some ({ s with store := store, deleted := (key, n) :: s.deleted },
      .invalidate n username keys)
  | .invalidate n username [], _ =>
    some ({ s with handled := (n, username) :: s.handled }, .done)
  | .returned _ _ _, _ | .done, _ | .raised, _ => none

def analyticsAmbient (s : AnalyticsCache) : AnalyticsChange → AnalyticsCache
  | .publish e => { s with published := s.published ++ [e] }
  | .expire key => { s with store := Function.update s.store key none }

/-- Requests for heatmaps and the handling of messages, any number of each at a time. -/
def analyticsService (sha1 : String → String) :
    Program AnalyticsCache AnalyticsPc AnalyticsTask AnalyticsChange BackendOutcome where
  start := analyticsStart sha1
  ambient := analyticsAmbient
  step := fun s _ => analyticsStep sha1 s

/-- The cache is empty and nothing has been published. -/
def AnalyticsCache.Fresh (s : AnalyticsCache) : Prop := s = ⟨fun _ => none, [], [], []⟩

/-- A request is given no value that was read before a message of its user that had been handled
when the request came. -/
def AnalyticsPc.UpToDate : AnalyticsPc → Prop
  | .returned r since value => ∀ n, (n, r.username) ∈ since → n < value.readAt
  | _ => True

/-- A request that came after a handled message of its user and finds an entry asks for one of the
numbers of days that are deleted; no value is stored under a key that has been deleted for a message
published since it was read; no deletion of an entry fails. -/
def InvalidationCovers (sha1 : String → String) :
    StepProp AnalyticsCache AnalyticsPc BackendOutcome
  | s, _, .get r since, .ok => (s.store (r.key sha1)).isSome →
    (∃ n, (n, r.username) ∈ since) → clampDays r.days ∈ invalidatedDays
  | s, _, .set r _ value, .ok => ∀ n, (r.key sha1, n) ∈ s.deleted → n < value.readAt
  | s, _, .invalidate _ _ (key :: _), .failed => s.store key = none
  | _, _, _, _ => True

variable {sha1 : String → String} {s s' : AnalyticsCache} {p p' : AnalyticsPc}

/-- No entry is older than a message for which its key has been deleted, and all keys of a handled
message have been deleted. -/
structure AnalyticsInv (sha1 : String → String) (s : AnalyticsCache) : Prop where
  stored : ∀ key value n, s.store key = some value → (key, n) ∈ s.deleted → n < value.readAt
  handled : ∀ n username, (n, username) ∈ s.handled → n < s.published.length ∧
    (username ≠ "" → ∀ d ∈ invalidatedDays, (heatmapKey sha1 username d, n) ∈ s.deleted)

/-- What a thread knows while it is at a point. -/
def AnalyticsPc.Inv (sha1 : String → String) (s : AnalyticsCache) : AnalyticsPc → Prop
  | .get _ since | .produce _ since _ => ∀ h ∈ since, h ∈ s.handled
  | .set r since value | .returned r since value =>
    ∀ n, (n, r.username) ∈ since → n < value.readAt
  | .invalidate n username keys => n < s.published.length ∧ (username ≠ "" →
      ∀ d ∈ invalidatedDays, heatmapKey sha1 username d ∈ keys ∨
        (heatmapKey sha1 username d, n) ∈ s.deleted)
  | .done | .raised => True

/-- The store apart, a step only adds. -/
structure AnalyticsCache.Grows (s s' : AnalyticsCache) : Prop where
  published : s.published.length ≤ s'.published.length
  deleted : ∀ x ∈ s.deleted, x ∈ s'.deleted
  handled : ∀ x ∈ s.handled, x ∈ s'.handled

theorem AnalyticsPc.Inv.grow (h : p.Inv sha1 s) (hs : s.Grows s') : p.Inv sha1 s' := by
  cases p with
  | get r since | produce r since cached => exact fun x hx => hs.handled x (h x hx)
  | set r since value | returned r since value => exact h
  | invalidate n username keys =>
    obtain ⟨hn, hkeys⟩ := h
    refine ⟨Nat.lt_of_lt_of_le hn hs.published, ?_⟩
    intro hne d hd
    exact (hkeys hne d hd).imp_right (hs.deleted _)
  | done | raised => trivial

theorem AnalyticsCache.Grows.same (s : AnalyticsCache) (store : String → Option ProducedHeatmap) :
    s.Grows { s with store := store } :=
  ⟨Nat.le_refl _, fun _ => id, fun _ => id⟩

theorem analyticsStep_grows (h : analyticsStep sha1 s p x = some (s', p')) : s.Grows s' := by
  cases p with
  | get r since =>
    cases x with
    | ok =>
      simp only [analyticsStep] at h
      split at h <;> cases h <;> exact .same s s.store
    | failed =>
      cases h
      exact .same s s.store
  | produce r since cached | set r since value => cases x <;> cases h <;> exact .same s _
  | invalidate n username keys =>
    cases keys with
    | nil =>
      cases h
      exact ⟨Nat.le_refl _, fun _ => id, fun _ => List.mem_cons_of_mem _⟩
    | cons key keys =>
      cases h
      exact ⟨Nat.le_refl _, fun _ => List.mem_cons_of_mem _, fun _ => id⟩
  | returned | done | raised => cases h

/-- The keys of a message cover its user. -/
theorem InvalidateEvent.mem_keys (e : InvalidateEvent) (hne : e.username.getD "" ≠ "")
    (hd : d ∈ invalidatedDays) : heatmapKey sha1 (e.username.getD "") d ∈ e.keys sha1 := by
  unfold InvalidateEvent.keys
  dsimp only
  rw [if_pos hne]
  exact List.mem_append_left _ (List.mem_map_of_mem hd)

theorem analyticsStart_inv (s : AnalyticsCache) (a : AnalyticsTask) :
    (analyticsStart sha1 s a).Inv sha1 s := by
  unfold analyticsStart
  split
  next => exact fun _ => id
  next n =>
    split
    next => trivial
    next e he =>
      split
      next => trivial
      next =>
        refine ⟨(List.getElem?_eq_some_iff.1 he).1, ?_⟩
        intro hne d hd
        exact .inl (e.mem_keys hne hd)

/-- A value that is there after a deletion was there before. -/
theorem stored_of_deleted {store : String → Option ProducedHeatmap}
    (h : Function.update store key none k = some value) : store k = some value := by
  rw [Function.update_apply] at h
  split at h
  next => cases h
  next => exact h

theorem AnalyticsInv.delete (hG : AnalyticsInv sha1 s) (hkey : store key = none)
    (hother : ∀ k value, store k = some value → s.store k = some value) (n : Nat) :
    AnalyticsInv sha1 { s with store := store, deleted := (key, n) :: s.deleted } where
  stored := by
    intro k value m hv hdel
    rcases List.mem_cons.1 hdel with heq | hdel
    · cases heq
      exact absurd (hkey.symm.trans hv) nofun
    · exact hG.stored k value m (hother k value hv) hdel
  handled := by
    intro m user hm
    obtain ⟨hlt, hall⟩ := hG.handled m user hm
    exact ⟨hlt, fun hne d hd => List.mem_cons_of_mem _ (hall hne d hd)⟩

theorem AnalyticsInv.put (hG : AnalyticsInv sha1 s)
    (hnew : ∀ n, (key, n) ∈ s.deleted → n < value.readAt) :
    AnalyticsInv sha1 { s with store := Function.update s.store key (some value) } where
  stored := by
    intro k v n hv hdel
    dsimp only at hv hdel
    rw [Function.update_apply] at hv
    split at hv
    next hkey =>
      cases hv
      exact hnew n (hkey ▸ hdel)
    next => exact hG.stored k v n hv hdel
  handled := hG.handled

theorem AnalyticsInv.handle (hG : AnalyticsInv sha1 s)
    (hp : (AnalyticsPc.invalidate n username []).Inv sha1 s) :
    AnalyticsInv sha1 { s with handled := (n, username) :: s.handled } where
  stored := hG.stored
  handled := by
    obtain ⟨hn, hkeys⟩ := hp
    rintro m user (_ | ⟨_, hm⟩)
    · exact ⟨hn, fun hne d hd => (hkeys hne d hd).resolve_left List.not_mem_nil⟩
    · exact hG.handled m user hm

/-- A key that has been deleted need not be any more. -/
theorem AnalyticsPc.Inv.deleted (hp : (AnalyticsPc.invalidate n username (key :: keys)).Inv sha1 s)
    (store : String → Option ProducedHeatmap) :
    (AnalyticsPc.invalidate n username keys).Inv sha1
      { s with store := store, deleted := (key, n) :: s.deleted } := by
  obtain ⟨hn, hkeys⟩ := hp
  refine ⟨hn, ?_⟩
  intro hne d hd
  rcases hkeys hne d hd with hmem | hdel
  · rcases List.mem_cons.1 hmem with rfl | hmem
    · exact .inr (List.mem_cons_self ..)
    · exact .inl hmem
  · exact .inr (List.mem_cons_of_mem _ hdel)

/-- One step, under the condition, keeps what is known of the cache and establishes what its own
thread knows next. -/
theorem analyticsStep_inv (hG : AnalyticsInv sha1 s) (hp : p.Inv sha1 s)
    (hC : InvalidationCovers sha1 s i p x) (h : analyticsStep sha1 s p x = some (s', p')) :
    AnalyticsInv sha1 s' ∧ p'.Inv sha1 s' := by
  cases p with
  | get r since =>
    cases x with
    | ok =>
      simp only [analyticsStep] at h
      split at h
      next hit hstore =>
        cases h
        refine ⟨hG, ?_⟩
        intro n hn
        -- The key was deleted for the message, and since then only newer values are stored.
        have hd := hC (Option.isSome_of_eq_some hstore) ⟨n, hn⟩
        exact hG.stored _ _ _ hstore (((hG.handled _ _ (hp _ hn)).2 r.nonempty) _ hd)
      next =>
        cases h
        exact ⟨hG, hp⟩
    | failed =>
      cases h
      exact ⟨hG, hp⟩
  | produce r since cached =>
    cases x with
    | ok =>
      have hnew : ∀ n, (n, r.username) ∈ since → n < s.published.length :=
        fun n hn => (hG.handled _ _ (hp _ hn)).1
      cases cached <;> cases h <;> exact ⟨hG, hnew⟩
    | failed =>
      cases h
      exact ⟨hG, trivial⟩
  | set r since value =>
    cases x with
    | ok =>
      cases h
      exact ⟨hG.put hC, hp⟩
    | failed =>
      cases h
      exact ⟨hG, hp⟩
  | invalidate n username keys =>
    cases keys with
    | nil =>
      cases h
      exact ⟨hG.handle hp, trivial⟩
    | cons key keys =>
      cases h
      refine ⟨?_, hp.deleted _⟩
      cases x with
      | ok =>
        exact hG.delete (Function.update_self ..) (fun _ _ => stored_of_deleted) n
      | failed => exact hG.delete hC (fun _ _ => id) n
  | returned | done | raised => cases h

theorem analytics_stable :
    (analyticsService sha1).Stable (InvalidationCovers sha1) (AnalyticsInv sha1)
      fun s _ o => ∀ p, o = some p → p.Inv sha1 s where
  start := by
    rintro s i a - - p ⟨⟩
    exact analyticsStart_inv s a
  ambient := by
    intro s x hG
    cases x with
    | publish e =>
      have hlen : s.published.length ≤ (s.published ++ [e]).length := by
        rw [List.length_append]
        exact Nat.le_add_right _ _
      refine ⟨⟨hG.stored, ?_⟩, fun i o ho p hp => (ho p hp).grow ⟨hlen, fun _ => id, fun _ => id⟩⟩
      intro n username hn
      exact ⟨Nat.lt_of_lt_of_le (hG.handled n username hn).1 hlen, (hG.handled n username hn).2⟩
    | expire key =>
      refine ⟨⟨?_, hG.handled⟩, fun i o ho p hp => (ho p hp).grow (.same s _)⟩
      intro k value n hv hdel
      exact hG.stored k value n (stored_of_deleted hv) hdel
  step := by
    intro s i p x s' p' hG hp hC hs
    obtain ⟨hG', hp'⟩ := analyticsStep_inv hG (hp p rfl) hC hs
    refine ⟨hG', ?_, fun j o hj ho q hq => (ho q hq).grow (analyticsStep_grows hs)⟩
    rintro q ⟨⟩
    exact hp'

/-- In every run whose steps satisfy the condition no request is given a value that was read before
a message of its user whose handling had ended. -/
theorem heatmap_invalidation_complete {w w' : World AnalyticsCache AnalyticsPc}
    (h₀ : ((analyticsService sha1).machine AnalyticsCache.Fresh).init w)
    (hr : ((analyticsService sha1).machine AnalyticsCache.Fresh).run w es = some w')
    (hC : ((analyticsService sha1).machine AnalyticsCache.Fresh).Always
      (OnSteps (InvalidationCovers sha1)) w es) :
    ∀ p ∈ w'.threads, p.UpToDate := by
  have hstart : Holds (AnalyticsInv sha1)
      (fun s _ o => ∀ p, o = some p → AnalyticsPc.Inv sha1 s p) w := by
    refine holds_start h₀ ?_
    rintro s rfl
    exact ⟨⟨nofun, nofun⟩, nofun⟩
  obtain ⟨-, hL⟩ := (analytics_stable.preserves AnalyticsCache.Fresh).run hstart hC hr
  intro p hp
  obtain ⟨i, hi⟩ := List.mem_iff_getElem?.1 hp
  have hinv := hL i p hi
  cases p with
  | returned r since value => exact hinv
  | get | produce | set | invalidate | done | raised => trivial

/-- The digests of the keys below. -/
def digests (raw : String) : String :=
  if raw = "ann|30" then "235a4e91f607e25643357d97b603401ceac2b33e"
  else if raw = "ann|90" then "9b6deb366b9b76e66fbcc8bee8bbaf9ea2613a2d"
  else if raw = "ann|365" then "aaf6282d62143df3b93a9302ee0668117890a7bc"
  else if raw = "ann|730" then "58ab0b112a85110a99b6d62a9626b6878865ea15"
  else "695575e252ab3c01e568e293f472976ac9f426fd"

def heatmapOfAnn (days : Int) : HeatmapRequest := ⟨"ann", days, by decide⟩

def emptyAnalytics : World AnalyticsCache AnalyticsPc := ⟨⟨fun _ => none, [], [], []⟩, []⟩

abbrev AnalyticsEvent := Event AnalyticsTask AnalyticsChange BackendOutcome

def submitOfAnn : AnalyticsEvent := .ambient (.publish ⟨some "submit", some "ann", none⟩)

/-- A request, the handling of a message by thread 1, and the same request after it. -/
def aroundSubmit (days : Int) (before after : List AnalyticsEvent) : List AnalyticsEvent :=
  [.spawn (.heatmap (heatmapOfAnn days))] ++ before ++ [submitOfAnn, .spawn (.handle 0)] ++
    List.replicate 5 (.act 1 .ok) ++ after ++ [.spawn (.heatmap (heatmapOfAnn days)), .act 2 .ok]

/-- An entry for 30 days is gone after the message. -/
theorem heatmap_invalidation_complete_ann :
    ∃ w, ((analyticsService digests).machine AnalyticsCache.Fresh).run emptyAnalytics
        (aroundSubmit 30 [.act 0 .ok, .act 0 .ok, .act 0 .ok] []) = some w ∧
      w.threads.length = 3 ∧ ∀ p ∈ w.threads, p.UpToDate := by
  have hC : ((analyticsService digests).machine AnalyticsCache.Fresh).Always
      (OnSteps (InvalidationCovers digests)) emptyAnalytics
      (aroundSubmit 30 [.act 0 .ok, .act 0 .ok, .act 0 .ok] []) := by
    apply Machine.always_cons rfl (OnSteps.spawn _)
    apply Machine.always_cons rfl (OnSteps.act rfl fun _ _ => by decide)
    apply Machine.always_cons rfl (OnSteps.act rfl trivial)
    apply Machine.always_cons rfl (OnSteps.act rfl fun _ h => nomatch h)
    apply Machine.always_cons rfl (OnSteps.ambient _)
    apply Machine.always_cons rfl (OnSteps.spawn _)
    iterate 5 apply Machine.always_cons rfl (OnSteps.act rfl trivial)
    apply Machine.always_cons rfl (OnSteps.spawn _)
    exact Machine.always_cons rfl (OnSteps.act rfl fun _ _ => by decide) trivial
  refine ⟨_, rfl, rfl, heatmap_invalidation_complete (w := emptyAnalytics) ⟨rfl, rfl⟩ ?_ hC⟩
  rfl

/-- A heatmap of 100 days stays in the cache; and a producer that read the database before the
message stores a heatmap of 30 days after it. -/
theorem stale_heatmap_served :
    (∃ w value, ((analyticsService digests).machine AnalyticsCache.Fresh).run emptyAnalytics
        (aroundSubmit 100 [.act 0 .ok, .act 0 .ok, .act 0 .ok] []) = some w ∧
      w.threads[2]? = some (.returned (heatmapOfAnn 100) [(0, "ann")] value) ∧
      value.readAt = 0) ∧
    ∃ w value, ((analyticsService digests).machine AnalyticsCache.Fresh).run emptyAnalytics
        (aroundSubmit 30 [.act 0 .ok, .act 0 .ok] [.act 0 .ok]) = some w ∧
      w.threads[2]? = some (.returned (heatmapOfAnn 30) [(0, "ann")] value) ∧
      value.readAt = 0 :=
  ⟨⟨_, _, rfl, rfl, rfl⟩, _, _, rfl, rfl, rfl⟩

end Leetrank
