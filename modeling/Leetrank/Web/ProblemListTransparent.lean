import Leetrank.Web.CacheValues
import Leetrank.Web.ProblemList

namespace Leetrank
set_option autoImplicit true

open EventMachine InsertionOrder

/-- The list route over its cache. Each load runs `compute` for a request, each call of `remember`
serves one, and a request with a search is served without the cache. -/
structure ListWorld where
  cache : CacheWorld ListResult
  loaders : List ListRequest
  requests : List ListRequest
  uncached : List (ListRequest × ListResult)

inductive ListEvent where
  | request (r : ListRequest)
  | resolve (n : Nat)
  | reject (n : Nat) (err : String)
  | store (n : Nat)
  | land (n : Nat)
  | resume (i : Nat)
  | clock (now : Int)

variable {db : Catalogue} {asked : ListRequest → Prop} {w w' w₀ : ListWorld}

def ListWorld.request (w : ListWorld) (db : Catalogue) (r : ListRequest) : ListWorld :=
  if r.cacheable then
    let cache := w.cache.remember r.cacheKey 60000
    { w with
      cache := cache
      loaders := if cache.loads.length = w.cache.loads.length then w.loaders else w.loaders ++ [r]
      requests := w.requests ++ [r] }
  else
    { w with uncached := w.uncached ++ [(r, r.compute db)] }

def ListWorld.background (w : ListWorld) (e : CacheEvent ListResult) : Option ListWorld :=
  (cacheStep w.cache e).map fun c => { w with cache := c }

def listStep (db : Catalogue) (w : ListWorld) : ListEvent → Option ListWorld
  | .request r => some (w.request db r)
  | .resolve n =>
    w.loaders[n]?.bind fun r => w.background (.resolve n (some (r.compute db)))
  | .reject n err => w.background (.reject n err)
  | .store n => w.background (.store n)
  | .land n => w.background (.land n)
  | .resume i => w.background (.resume i)
  | .clock now => w.background (.clock now)

def listMachine (db : Catalogue) (maxEntries : Nat) : Machine ListWorld ListEvent where
  init := fun w => (cacheMachine maxEntries).init w.cache ∧ w.loaders = [] ∧ w.requests = [] ∧
    w.uncached = []
  step := listStep db

/-- A request has been answered with a list, `none` being `undefined`. -/
def ListWorld.Answered (w : ListWorld) (r : ListRequest) (list : Option ListResult) : Prop :=
  (∃ p ∈ w.uncached, p.1 = r ∧ some p.2 = list) ∨
    ∃ (i : Nat) (call : CacheCall ListResult) (x : Sourced ListResult), w.requests[i]? = some r ∧
      w.cache.calls[i]? = some call ∧ call.reply = some (.ok x) ∧ x.value = list

/-- A step either serves a request or is one of the cache's own. -/
theorem listStep_cases (h : listStep db w e = some w') :
    (∃ r, e = .request r ∧ w' = w.request db r) ∨
      ∃ ce, ce.Background ∧ w.background ce = some w' ∧
        ∀ n v, ce = .resolve n v → ∃ r, w.loaders[n]? = some r ∧ v = some (r.compute db) := by
  cases e with
  | request r => exact .inl ⟨r, rfl, (Option.some.inj h).symm⟩
  | resolve n =>
    obtain ⟨r, hr, h⟩ := Option.bind_eq_some_iff.1 h
    refine .inr ⟨.resolve n (some (r.compute db)), trivial, h, ?_⟩
    rintro m v ⟨⟩
    exact ⟨r, hr, rfl⟩
  | reject n err => exact .inr ⟨.reject n err, trivial, h, nofun⟩
  | store n => exact .inr ⟨.store n, trivial, h, nofun⟩
  | land n => exact .inr ⟨.land n, trivial, h, nofun⟩
  | resume i => exact .inr ⟨.resume i, trivial, h, nofun⟩
  | clock now => exact .inr ⟨.clock now, trivial, h, nofun⟩

/-- Of the requests that are asked, those that may be cached are told apart by their keys. -/
def Separated (db : Catalogue) (asked : ListRequest → Prop) : Prop :=
  ∀ r r', asked r → asked r' → r.cacheable → r'.cacheable → r.Distinguished r' db

/-- The list of every request asked with the key. -/
def ListOf (db : Catalogue) (asked : ListRequest → Prop) (key : String)
    (list : Option ListResult) : Prop :=
  ∀ r, asked r → r.cacheable → r.cacheKey = key → list = some (r.compute db)

structure ListInv (db : Catalogue) (asked : ListRequest → Prop) (w : ListWorld) : Prop where
  loaderKeys : w.loaders.map (·.cacheKey) = w.cache.loads.map (·.key)
  requestKeys : w.requests.map (·.cacheKey) = w.cache.calls.map (·.key)
  loaders : ∀ r ∈ w.loaders, r.cacheable ∧ asked r
  requests : ∀ r ∈ w.requests, r.cacheable ∧ asked r
  cache : (SingleFlight w.cache ∧ JoinedOutcome w.cache) ∧ Vouched (ListOf db asked) w.cache
  uncached : ∀ p ∈ w.uncached, p.2 = p.1.compute db

theorem CacheWorld.remember_loads (w : CacheWorld α) (key : String) (ttlMs : Int) :
    (w.remember key ttlMs).loads = w.loads ∨
      (w.remember key ttlMs).loads = w.loads ++ [⟨key, ttlMs, .pending⟩] := by
  obtain ⟨r, -, hw⟩ | ⟨n, -, hw⟩ | ⟨-, hw⟩ := w.remember_cases key ttlMs
  · exact .inl (hw ▸ rfl)
  · exact .inl (hw ▸ rfl)
  · exact .inr (hw ▸ rfl)

theorem CacheWorld.remember_calls (w : CacheWorld α) (key : String) (ttlMs : Int) :
    (w.remember key ttlMs).calls.map (·.key) = w.calls.map (·.key) ++ [key] := by
  obtain ⟨r, -, hw⟩ | ⟨n, -, hw⟩ | ⟨-, hw⟩ := w.remember_cases key ttlMs
  · rw [hw, CacheWorld.reply, List.map_append]
    rfl
  · rw [hw, CacheWorld.join, List.map_append]
    rfl
  · rw [hw, CacheWorld.join, List.map_append]
    rfl

/-- The steps of a cache do not depend on its capacity. -/
theorem listOf_preserved (db : Catalogue) (asked : ListRequest → Prop) :
    (cacheMachine 0).Preserves (fun w e _ => Vouching (ListOf db asked) w e)
      fun w => (SingleFlight w ∧ JoinedOutcome w) ∧ Vouched (ListOf db asked) w :=
  vouched_preserved

/-- A loader is added exactly when a load is started. -/
theorem ListWorld.request_loads (w : ListWorld) (db : Catalogue) (hc : r.cacheable) :
    ((w.request db r).cache.loads = w.cache.loads ∧ (w.request db r).loaders = w.loaders) ∨
      ((w.request db r).cache.loads = w.cache.loads ++ [⟨r.cacheKey, 60000, .pending⟩] ∧
        (w.request db r).loaders = w.loaders ++ [r]) := by
  rw [ListWorld.request, if_pos hc]
  obtain hl | hl := w.cache.remember_loads r.cacheKey 60000
  · exact .inl ⟨hl, if_pos (congrArg List.length hl)⟩
  · exact .inr ⟨hl, if_neg (by simp [hl])⟩

theorem ListInv.request (hw : ListInv db asked w) (hr : asked r) :
    ListInv db asked (w.request db r) := by
  by_cases hc : r.cacheable
  · have hloads := w.request_loads db hc
    have hnew : r.cacheable ∧ asked r := ⟨hc, hr⟩
    constructor
    case loaderKeys =>
      obtain ⟨hl, hr⟩ | ⟨hl, hr⟩ := hloads
      · rw [hl, hr, hw.loaderKeys]
      · rw [hl, hr, List.map_append, List.map_append, hw.loaderKeys]
        rfl
    case loaders =>
      obtain ⟨-, hr⟩ | ⟨-, hr⟩ := hloads
      · rw [hr]
        exact hw.loaders
      · rw [hr, List.forall_mem_append]
        exact ⟨hw.loaders, List.forall_mem_singleton.2 hnew⟩
    all_goals rw [ListWorld.request, if_pos hc]
    case requestKeys =>
      rw [List.map_append, hw.requestKeys]
      exact (w.cache.remember_calls r.cacheKey 60000).symm
    case requests =>
      rw [List.forall_mem_append]
      exact ⟨hw.requests, List.forall_mem_singleton.2 hnew⟩
    case cache =>
      exact listOf_preserved db asked w.cache (.remember r.cacheKey 60000) _ hw.cache rfl trivial
    case uncached => exact hw.uncached
  · rw [ListWorld.request, if_neg hc]
    refine { hw with uncached := ?_ }
    rw [List.forall_mem_append]
    exact ⟨hw.uncached, List.forall_mem_singleton.2 rfl⟩

/-- A load of a request is given the list of every request with its key. -/
theorem ListInv.vouching (hw : ListInv db asked w) (hsep : Separated db asked)
    (hce : ce.Background)
    (hv : ∀ n v, ce = .resolve n v → ∃ r, w.loaders[n]? = some r ∧ v = some (r.compute db)) :
    Vouching (ListOf db asked) w.cache ce := by
  cases ce with
  | resolve n v =>
    intro l hl r hr hcr hkey
    obtain ⟨r₀, hr₀, rfl⟩ := hv n v rfl
    have hkeys := congrArg (·[n]?) hw.loaderKeys
    simp only [List.getElem?_map, hr₀, hl, Option.map_some, Option.some.injEq] at hkeys
    obtain ⟨hc, hasked⟩ := hw.loaders r₀ (List.mem_of_getElem? hr₀)
    exact congrArg some
      (ListRequest.compute_eq hc hcr (hsep r₀ r hasked hr hc hcr) (hkeys.trans hkey.symm))
  | reject n err => trivial
  | store n => trivial
  | land n => trivial
  | resume i => trivial
  | clock now => trivial
  | _ => exact hce.elim

theorem listInv_preserved (hsep : Separated db asked) :
    (listMachine db maxEntries).Preserves (fun _ e _ => ∀ r, e = .request r → asked r)
      (ListInv db asked) := by
  intro w e w' hw h hC
  obtain ⟨r, rfl, rfl⟩ | ⟨ce, hce, hb, hv⟩ := listStep_cases h
  · exact hw.request (hC r rfl)
  · obtain ⟨c, hc, rfl⟩ := Option.map_eq_some_iff.1 hb
    obtain ⟨hl, hk⟩ := cacheStep_keys hc hce
    refine { hw with loaderKeys := ?_, requestKeys := ?_, cache := ?_ }
    · exact hw.loaderKeys.trans hl.symm
    · exact hw.requestKeys.trans hk.symm
    · exact listOf_preserved db asked w.cache ce c hw.cache hc (hw.vouching hsep hce hv)

theorem listInv_init (h : (listMachine db maxEntries).init w) : ListInv db asked w := by
  obtain ⟨hc, hl, hr, hu⟩ := h
  constructor
  case loaderKeys =>
    rw [hl, hc.2.1]
    rfl
  case requestKeys =>
    rw [hr, hc.2.2]
    rfl
  case loaders =>
    rw [hl]
    exact nofun
  case requests =>
    rw [hr]
    exact nofun
  case cache => exact ⟨joinedOutcome_init hc, vouched_init hc⟩
  case uncached =>
    rw [hu]
    exact nofun

variable {es : List ListEvent}

/-- In a history whose cached requests do not share a key, unless they have the same filters or
select nothing, each request is answered with its own list. -/
theorem list_transparent (h₀ : (listMachine db maxEntries).init w₀)
    (hsep : Separated db fun r => .request r ∈ es)
    (hr : (listMachine db maxEntries).run w₀ es = some w) (ha : w.Answered r list) :
    list = some (r.compute db) := by
  have hw : ListInv db (fun r => .request r ∈ es) w := (listInv_preserved hsep).run
    (listInv_init h₀) (Machine.always_of_events fun e he _ _ r hreq => hreq ▸ he) hr
  obtain ⟨p, hp, rfl, rfl⟩ | ⟨i, call, x, hi, hcall, hx, rfl⟩ := ha
  · exact congrArg some (hw.uncached p hp)
  · have hkeys := congrArg (·[i]?) hw.requestKeys
    simp only [List.getElem?_map, hi, hcall, Option.map_some, Option.some.injEq] at hkeys
    obtain ⟨hc, hasked⟩ := hw.requests r (List.mem_of_getElem? hi)
    exact hw.cache.2.calls i call x hcall hx r hasked hc hkeys

/-- No difficulty and no tag of the catalogue has the separator of the key in it. -/
def Catalogue.ColonFree (db : Catalogue) : Prop :=
  ∀ p ∈ db.problems, ':' ∉ p.difficulty.toList ∧ ∀ tag ∈ p.tags, ':' ∉ tag.slug.toList

theorem ListRequest.exists_tag {r : ListRequest} {p : ProblemRow} {clause : Tag → Bool}
    (hs : r.selects db p = true) (hc : clause ∈ r.tagClauses) :
    ∃ tag ∈ p.tags, clause tag = true := by
  rw [ListRequest.selects, Bool.and_eq_true] at hs
  exact List.any_eq_true.1 (List.all_eq_true.1 hs.2 clause hc)

theorem Catalogue.ColonFree.selectsNothing (hdb : db.ColonFree) (r : ListRequest) :
    r.ColonSelectsNothing db := by
  rintro ⟨s, hs, hcolon⟩ p hp
  by_contra hsel
  rw [Bool.not_eq_false] at hsel
  obtain ⟨hdiff, htags⟩ := hdb p hp
  have hslug (clause : Tag → Bool) (hc : clause ∈ r.tagClauses)
      (hclause : ∀ tag, clause tag = true → tag.slug = s) : False := by
    obtain ⟨tag, ht, htrue⟩ := ListRequest.exists_tag hsel hc
    exact htags tag ht (hclause tag htrue ▸ hcolon)
  simp only [ListRequest.filters, List.mem_cons, List.not_mem_nil, or_false] at hs
  rcases hs with rfl | rfl | rfl | rfl
  · simp only [ListRequest.selects, truthy_of_mem hcolon, Bool.and_eq_true, Option.all_some,
      beq_iff_eq] at hsel
    exact hdiff (hsel.1.1 ▸ hcolon)
  · refine hslug (fun tag => tag.slug == r.tag.getD "") ?_ ?_
    · simp [ListRequest.tagClauses, truthy_of_mem hcolon]
    · simp
  · refine hslug (fun tag => tag.slug == r.topic.getD "" && tag.category == "topic") ?_ ?_
    · simp [ListRequest.tagClauses, truthy_of_mem hcolon]
    · simp +contextual
  · refine hslug (fun tag => tag.slug == r.company.getD "" && tag.category == "company") ?_ ?_
    · simp [ListRequest.tagClauses, truthy_of_mem hcolon]
    · simp +contextual

/-- Over such a catalogue every history is answered as without the cache. -/
theorem Catalogue.ColonFree.separated (hdb : db.ColonFree) (asked : ListRequest → Prop) :
    Separated db asked :=
  fun r r' _ _ _ _ => (hdb.selectsNothing r).distinguished (hdb.selectsNothing r')

/-- One problem, with a tag whose slug has the separator if `slug` has. -/
def taggedCatalogue (slug : String) : Catalogue where
  problems := [⟨"p1", "Pointers", "pointers", "easy", 1, [⟨"t1", "C", slug, "topic"⟩], 0⟩]
  containsInsensitive := fun _ _ => false

def taggedRequest (difficulty tag : Option String) : ListRequest :=
  ⟨difficulty, tag, none, none, none, none, none⟩

/-- Requests served one after the other, of which the second is a hit. -/
def servedTwice (r r' : ListRequest) : List ListEvent :=
  [.request r, .resolve 0, .store 0, .land 0, .resume 0, .request r']

def emptyListWorld : ListWorld := ⟨⟨.new 2000, [], [], 0⟩, [], [], []⟩

theorem list_transparent_tagged :
    ∃ w list, (listMachine (taggedCatalogue "c") 2000).run emptyListWorld
        (servedTwice (taggedRequest none (some "c")) (taggedRequest none (some "c"))) = some w ∧
      w.Answered (taggedRequest none (some "c")) list ∧
      list = some ((taggedRequest none (some "c")).compute (taggedCatalogue "c")) := by
  have hrun : ∃ w list, (listMachine (taggedCatalogue "c") 2000).run emptyListWorld
        (servedTwice (taggedRequest none (some "c")) (taggedRequest none (some "c"))) = some w ∧
      w.Answered (taggedRequest none (some "c")) list :=
    ⟨_, _, rfl, .inr ⟨1, _, _, rfl, rfl, rfl, rfl⟩⟩
  obtain ⟨w, list, hr, ha⟩ := hrun
  have hdb : (taggedCatalogue "c").ColonFree := by
    unfold Catalogue.ColonFree
    decide
  exact ⟨w, list, hr, ha, list_transparent ⟨⟨rfl, rfl, rfl⟩, rfl, rfl, rfl⟩
    (hdb.separated _) hr ha⟩

/-- A request for a tag with the separator in its slug is a hit on the empty list that is cached
for another request. -/
theorem list_poisoned :
    ∃ w list, (listMachine (taggedCatalogue "lang:c") 2000).run emptyListWorld
        (servedTwice (taggedRequest (some ":lang") (some "c"))
          (taggedRequest none (some "lang:c"))) = some w ∧
      w.Answered (taggedRequest none (some "lang:c")) (some list) ∧ list.total = 0 ∧
      ((taggedRequest none (some "lang:c")).compute (taggedCatalogue "lang:c")).total = 1 :=
  ⟨_, _, rfl, .inr ⟨1, _, _, rfl, rfl, rfl, rfl⟩, rfl, rfl⟩

end Leetrank
