import Leetrank.Library.InsertionMap
import Leetrank.Library.Text
import Leetrank.Library.Threads

namespace Leetrank
set_option autoImplicit true

open EventMachine InsertionOrder Text Threads

/-- A URL without its fragment, which a cache does not look at. -/
structure Url where
  origin : String
  pathname : String
  search : String
  deriving DecidableEq

/-- A request as the fetch listener of the worker sees it. -/
structure WorkerRequest where
  method : String
  url : Url
  mode : String

/-- The names of the headers are in lower case. -/
structure WebResponse where
  status : Nat
  statusText : String
  headers : List (String × String)
  body : String

def WebResponse.ok (res : WebResponse) : Bool := 200 ≤ res.status ∧ res.status ≤ 299

abbrev WebCache := Url → Option WebResponse

def shellCache : String := "leetrank-shell-v1"
def runtimeCache : String := "leetrank-runtime-v1"

def shellUrls : List String :=
  ["/", "/problems", "/contests", "/leaderboard", "/login", "/offline"]

def runtimeTtlMs : Int := 24 * 60 * 60 * 1000

/-- The pattern `^base(\/|$|\?)`. -/
def underPath (base pathname : String) : Bool :=
  hasPrefix pathname base &&
    match pathname.toList.drop base.toList.length with
    | [] => true
    | c :: _ => c = '/' || c = '?'

def isRuntimeApi (pathname : String) : Bool :=
  underPath "/api/problems" pathname || underPath "/api/tags" pathname

def isNetworkFirstApi (pathname : String) : Bool := hasPrefix pathname "/api/auth/"

def isNeverCacheApi (pathname : String) : Bool := underPath "/api/submissions" pathname

/-- How the worker handles a request; one that it lets pass goes to the network untouched. -/
inductive Strategy where
  | pass
  | navigation
  | networkFirst
  | staleWhileRevalidate
  deriving DecidableEq

/-- The fetch listener of the worker at an origin. -/
def strategy (origin : String) (req : WorkerRequest) : Strategy :=
  if req.method ≠ "GET" then .pass
  else if req.url.origin ≠ origin then .pass
  else if req.mode = "navigate" then .navigation
  else if isNeverCacheApi req.url.pathname then .pass
  else if isNetworkFirstApi req.url.pathname then .networkFirst
  else if isRuntimeApi req.url.pathname then .staleWhileRevalidate
  else .pass

def gatewayTimeout : WebResponse :=
  ⟨504, "Gateway Timeout", [("content-type", "text/plain;charset=UTF-8")], ""⟩

def offlineError : WebResponse :=
  ⟨503, "", [("content-type", "application/json")], "\x7b\"error\":\"offline\"\x7d"⟩

def offlineText : WebResponse := ⟨503, "", [("content-type", "text/plain")], "Offline"⟩

/-- The caches of an origin by name, the clock, and all that the network has answered so far. -/
structure ServiceWorker where
  caches : InsertionMap String WebCache
  now : Int
  sent : List (Url × WebResponse)

def ServiceWorker.cache (s : ServiceWorker) (name : String) : WebCache :=
  (s.caches.lookup name).getD fun _ => none

/-- Opening a cache makes it if there is none of that name. -/
def ServiceWorker.openCache (s : ServiceWorker) (name : String) : ServiceWorker :=
  { s with caches := s.caches.set name (s.cache name) }

def ServiceWorker.put (s : ServiceWorker) (name : String) (url : Url) (res : WebResponse) :
    ServiceWorker :=
  { s with caches := s.caches.set name (Function.update (s.cache name) url (some res)) }

def ServiceWorker.delete (s : ServiceWorker) (name : String) : ServiceWorker :=
  { s with caches := s.caches.erase name }

def ServiceWorker.send (s : ServiceWorker) (url : Url) (res : WebResponse) : ServiceWorker :=
  { s with sent := (url, res) :: s.sent }

/-- How a call that a handler awaits ends. -/
inductive AwaitEvent where
  | proceed
  | response (res : WebResponse)
  | deleted (name : String)
  | undeleted (name : String)
  | fail

/-- A fetch event, with what the network has answered the handler, whether the network or a write to
a cache has failed it, whether it was rejected because a cache could not be opened or read, and the
answer that it has given, with its time. -/
structure Fetch where
  request : WorkerRequest
  received : Option WebResponse
  failed : Bool
  rejected : Bool
  answer : Option (WebResponse × Int)

def Fetch.new (request : WorkerRequest) : Fetch := ⟨request, none, false, false, none⟩

def Fetch.receive (f : Fetch) (res : WebResponse) : Fetch := { f with received := some res }

def Fetch.fail (f : Fetch) : Fetch := { f with failed := true }

def Fetch.reject (f : Fetch) : Fetch := { f with rejected := true }

def Fetch.respond (f : Fetch) (now : Int) (res : WebResponse) : Fetch :=
  { f with answer := some (res, now) }

inductive InstallPc where
  | opening
  | fetching
  | putting (res : WebResponse)
  | done

inductive ActivatePc where
  | keys
  | deleting (names : List String) (rejected : Bool)

inductive NavigationPc where
  | fetching
  | offline
  | done

inductive NetworkFirstPc where
  | opening
  | fetching
  | putting (res : WebResponse)
  | matching
  | done

inductive RevalidatePc where
  | matching
  | fetching (cached : Option WebResponse)
  | putting (cached : Option WebResponse) (res : WebResponse)
  | done

/-- One of the pre-fetches of an install, the deletions of an activation, or a fetch event. -/
inductive WorkerTask where
  | install (url : Url) (pc : InstallPc)
  | activate (pc : ActivatePc)
  | pass (f : Fetch)
  | navigation (f : Fetch) (pc : NavigationPc)
  | networkFirst (f : Fetch) (pc : NetworkFirstPc)
  | staleWhileRevalidate (f : Fetch) (pc : RevalidatePc)

inductive Job where
  | install (i : Fin shellUrls.length)
  | activate
  | fetch (req : WorkerRequest)

/-- A pre-fetch of the install; if it fails, the others go on. -/
def installStep (s : ServiceWorker) (url : Url) :
    InstallPc → AwaitEvent → Option (ServiceWorker × InstallPc)
  | .opening, .proceed => some (s.openCache shellCache, .fetching)
  | .fetching, .response res => some (s.send url res, if res.ok then .putting res else .done)
  | .putting res, .proceed => some (s.put shellCache url res, .done)
  | .opening, .fail | .fetching, .fail | .putting _, .fail => some (s, .done)
  | _, _ => none

/-- The deletions are under way at once, and end in any order; one that fails rejects the
activation, and the others go on. -/
def activateStep (s : ServiceWorker) : ActivatePc → AwaitEvent → Option (ServiceWorker × ActivatePc)
  | .keys, .proceed =>
    some (s, .deleting (s.caches.keys.filter fun k => k ≠ shellCache && k ≠ runtimeCache) false)
  | .keys, .fail => some (s, .deleting [] true)
  | .deleting names rejected, .deleted name =>
    if name ∈ names then some (s.delete name, .deleting (names.erase name) rejected) else none
  | .deleting names _, .undeleted name =>
    if name ∈ names then some (s, .deleting (names.erase name) true) else none
  | _, _ => none

section
variable (origin : String)

def shellUrl (path : String) : Url := ⟨origin, path, ""⟩

def navigationStep (s : ServiceWorker) (f : Fetch) :
    NavigationPc → AwaitEvent → Option (ServiceWorker × Fetch × NavigationPc)
  | .fetching, .response res =>
    some (s.send f.request.url res, (f.receive res).respond s.now res, .done)
  | .fetching, .fail => some (s, f.fail, .offline)
  | .offline, .proceed =>
    let s := s.openCache shellCache
    let offline := s.cache shellCache (shellUrl origin "/offline")
    some (s, f.respond s.now (offline.getD offlineText), .done)
  | .offline, .fail => some (s, f.reject, .done)
  | _, _ => none

/-- A write to the cache that fails is caught like a fetch that does; that the cache cannot be
opened or read is not. -/
def networkFirstStep (s : ServiceWorker) (f : Fetch) :
    NetworkFirstPc → AwaitEvent → Option (ServiceWorker × Fetch × NetworkFirstPc)
  | .opening, .proceed => some (s.openCache runtimeCache, f, .fetching)
  | .fetching, .response res =>
    let s := s.send f.request.url res
    let f := f.receive res
    some (if res.ok then (s, f, .putting res) else (s, f.respond s.now res, .done))
  | .putting res, .proceed =>
    some (s.put runtimeCache f.request.url res, f.respond s.now res, .done)
  | .fetching, .fail | .putting _, .fail => some (s, f.fail, .matching)
  | .matching, .proceed =>
    let cached := s.cache runtimeCache f.request.url
    some (s, f.respond s.now (cached.getD offlineError), .done)
  | .opening, .fail | .matching, .fail => some (s, f.reject, .done)
  | _, _ => none

/-- The end of a revalidation, whose outcome is the answer unless the cached entry has been it. -/
def Fetch.settle (f : Fetch) (now : Int) (network cached : Option WebResponse) : Fetch :=
  if f.answer.isSome then f else f.respond now ((network.or cached).getD gatewayTimeout)

variable (dateParse : String → Option Int)

/-- `Date.parse` of the header, `none` if that is `NaN`; without a header it is the year 1970. -/
def WebResponse.fetchedAt (res : WebResponse) : Option Int :=
  match res.headers.lookup "date" with
  | none => some 0
  | some header => if header = "" then some 0 else dateParse header

def WebResponse.isFresh (res : WebResponse) (now : Int) : Bool :=
  (res.fetchedAt dateParse).any fun t => now - t < runtimeTtlMs

/-- The fetch begins before the entry is judged; a write to the cache that fails makes its outcome
`null`. -/
def revalidateStep (s : ServiceWorker) (f : Fetch) :
    RevalidatePc → AwaitEvent → Option (ServiceWorker × Fetch × RevalidatePc)
  | .matching, .proceed =>
    let s := s.openCache runtimeCache
    let cached := s.cache runtimeCache f.request.url
    match cached with
    | none => some (s, f, .fetching none)
    | some res =>
      some (s, if res.isFresh dateParse s.now then f.respond s.now res else f, .fetching (some res))
  | .fetching cached, .response res =>
    let s := s.send f.request.url res
    let f := f.receive res
    some (if res.ok then (s, f, .putting cached res)
      else (s, f.settle s.now (some res) cached, .done))
  | .putting cached res, .proceed =>
    some (s.put runtimeCache f.request.url res, f.settle s.now (some res) cached, .done)
  | .fetching cached, .fail | .putting cached _, .fail =>
    some (s, f.fail.settle s.now none cached, .done)
  | .matching, .fail => some (s, f.reject, .done)
  | _, _ => none

def taskStart : Job → WorkerTask
  | .install i => .install (shellUrl origin (shellUrls.get i)) .opening
  | .activate => .activate .keys
  | .fetch req =>
    match strategy origin req with
    | .pass => .pass (.new req)
    | .navigation => .navigation (.new req) .fetching
    | .networkFirst => .networkFirst (.new req) .opening
    | .staleWhileRevalidate => .staleWhileRevalidate (.new req) .matching

def taskStep (s : ServiceWorker) (t : WorkerTask) (e : AwaitEvent) :
    Option (ServiceWorker × WorkerTask) :=
  match t with
  | .install url pc => (installStep s url pc e).map fun (s, pc) => (s, .install url pc)
  | .activate pc => (activateStep s pc e).map fun (s, pc) => (s, .activate pc)
  | .pass _ => none
  | .navigation f pc =>
    (navigationStep origin s f pc e).map fun (s, f, pc) => (s, .navigation f pc)
  | .networkFirst f pc =>
    (networkFirstStep s f pc e).map fun (s, f, pc) => (s, .networkFirst f pc)
  | .staleWhileRevalidate f pc =>
    (revalidateStep dateParse s f pc e).map fun (s, f, pc) => (s, .staleWhileRevalidate f pc)

def serviceWorkerProgram : Program ServiceWorker WorkerTask Job Int AwaitEvent where
  start := fun _ job => taskStart origin job
  ambient := fun s elapsed => { s with now := s.now + elapsed }
  step := fun s _ t e => taskStep origin dateParse s t e

end

/-- The response is one with an OK status that the network has sent for the URL. -/
def Genuine (s : ServiceWorker) (url : Url) (res : WebResponse) : Prop :=
  res.ok = true ∧ (url, res) ∈ s.sent

/-- A URL that an entry of the runtime cache may have. -/
structure Cacheable (origin : String) (url : Url) : Prop where
  sameOrigin : url.origin = origin
  cached : isNetworkFirstApi url.pathname = true ∨ isRuntimeApi url.pathname = true
  never : isNeverCacheApi url.pathname = false

def ShellUrl (origin : String) (url : Url) : Prop := ∃ path ∈ shellUrls, url = shellUrl origin path

/-- A cache of this version of the worker, and a URL that it may have an entry for. -/
def Belongs (origin name : String) (url : Url) : Prop :=
  name = shellCache ∧ ShellUrl origin url ∨ name = runtimeCache ∧ Cacheable origin url

/-- The two caches hold what the network has sent for the URLs that belong there. -/
def Stored (origin : String) (s : ServiceWorker) : Prop :=
  ∀ name, name = shellCache ∨ name = runtimeCache → ∀ url res,
    s.cache name url = some res → Genuine s url res ∧ Belongs origin name url

/-- A cache of another version of the worker. -/
def Outdated (s : ServiceWorker) (name : String) : Prop :=
  name ∈ s.caches ∧ name ≠ shellCache ∧ name ≠ runtimeCache

/-- What a response to a fetch event has to be, by the way the event is handled: the network's, or
one from a cache or of the worker's own, where a failure excuses it. -/
def Justified (origin : String) (dateParse : String → Option Int) (s : ServiceWorker) (f : Fetch)
    (res : WebResponse) (now : Int) : Strategy → Prop
  | .pass => False
  | .navigation =>
    f.received = some res ∨
      f.failed = true ∧ (res = offlineText ∨ Genuine s (shellUrl origin "/offline") res)
  | .networkFirst =>
    f.received = some res ∨
      f.failed = true ∧ (res = offlineError ∨ Genuine s f.request.url res)
  | .staleWhileRevalidate =>
    f.received = some res ∨ f.failed = true ∧ res = gatewayTimeout ∨
      Genuine s f.request.url res ∧ (f.failed = true ∨ res.isFresh dateParse now = true)

/-- Any number of installs, activations and fetch events, over what an earlier worker has left. -/
def serviceWorker (origin : String) (dateParse : String → Option Int) :
    Machine (World ServiceWorker WorkerTask) (Event Job Int AwaitEvent) :=
  (serviceWorkerProgram origin dateParse).machine (Stored origin)

section Caches

variable {s : ServiceWorker} {name k origin : String} {url : Url} {res : WebResponse}

@[simp] theorem ServiceWorker.cache_openCache (s : ServiceWorker) (name k : String) :
    (s.openCache name).cache k = s.cache k := by
  rw [ServiceWorker.cache, ServiceWorker.openCache, InsertionMap.lookup_set]
  split
  next h => rw [h, Option.getD_some]
  next => rfl

theorem ServiceWorker.cache_put (s : ServiceWorker) (name k : String) (url : Url)
    (res : WebResponse) : (s.put name url res).cache k =
      if k = name then Function.update (s.cache name) url (some res) else s.cache k := by
  rw [ServiceWorker.cache, ServiceWorker.put, InsertionMap.lookup_set]
  split
  next => rw [Option.getD_some]
  next => rfl

theorem ServiceWorker.cache_delete (s : ServiceWorker) (name k : String) :
    (s.delete name).cache k = if k = name then fun _ => none else s.cache k := by
  rw [ServiceWorker.cache, ServiceWorker.delete, InsertionMap.lookup_erase]
  split <;> rfl

/-- The network has sent more since, and no cache of another version has come. -/
structure ServiceWorker.Later (s s' : ServiceWorker) : Prop where
  sent : ∀ x ∈ s.sent, x ∈ s'.sent
  outdated : ∀ k, Outdated s' k → Outdated s k

theorem ServiceWorker.Later.refl (s : ServiceWorker) : s.Later s := ⟨fun _ h => h, fun _ h => h⟩

theorem ServiceWorker.Later.genuine (h : s.Later s') (hg : Genuine s url res) :
    Genuine s' url res :=
  ⟨hg.1, h.sent _ hg.2⟩

theorem ServiceWorker.Later.send (s : ServiceWorker) (url : Url) (res : WebResponse) :
    s.Later (s.send url res) :=
  ⟨fun _ h => List.mem_cons_of_mem _ h, fun _ h => h⟩

theorem ServiceWorker.Later.set (hname : name = shellCache ∨ name = runtimeCache) (c : WebCache) :
    s.Later { s with caches := s.caches.set name c } := by
  refine ⟨fun _ h => h, ?_⟩
  rintro k ⟨hk, hne⟩
  refine ⟨?_, hne⟩
  rcases mem_set.1 hk with rfl | hk
  · rcases hname with hn | hn
    · exact absurd hn hne.1
    · exact absurd hn hne.2
  · exact hk

theorem ServiceWorker.Later.delete (s : ServiceWorker) (name : String) :
    s.Later (s.delete name) := by
  refine ⟨fun _ h => h, ?_⟩
  rintro k ⟨hk, hne⟩
  exact ⟨AList.mem_erase.1 hk |>.2, hne⟩

theorem Stored.later (h : Stored origin s) (hl : s.Later s')
    (hcache : ∀ k, s'.cache k = s.cache k) : Stored origin s' := by
  intro name hname url res hres
  rw [hcache] at hres
  exact (h name hname url res hres).imp_left hl.genuine

theorem Stored.put (h : Stored origin s) (hg : Genuine s url res)
    (hb : Belongs origin name url) : Stored origin (s.put name url res) := by
  intro k hk url' res' hres
  rw [ServiceWorker.cache_put] at hres
  split at hres
  next hname =>
    subst hname
    by_cases hu : url' = url
    · subst hu
      rw [Function.update_self] at hres
      cases hres
      exact ⟨hg, hb⟩
    · rw [Function.update_of_ne hu] at hres
      exact h k hk url' res' hres
  next => exact h k hk url' res' hres

theorem Stored.delete (h : Stored origin s) (name : String) : Stored origin (s.delete name) := by
  intro k hk url res hres
  rw [ServiceWorker.cache_delete] at hres
  split at hres
  next => cases hres
  next => exact h k hk url res hres

end Caches

section Tasks

variable {origin : String} {dateParse : String → Option Int} {s s' : ServiceWorker} {f f' : Fetch}

theorem Justified.mono {how : Strategy} (h : Justified origin dateParse s f res now how)
    (hs : s.Later s') (hreq : f'.request = f.request)
    (hrec : ∀ res, f.received = some res → f'.received = some res)
    (hfail : f.failed = true → f'.failed = true) :
    Justified origin dateParse s' f' res now how := by
  cases how with
  | pass => exact h
  | navigation => exact h.imp (hrec res) (And.imp hfail (Or.imp_right hs.genuine))
  | networkFirst =>
    refine h.imp (hrec res) (And.imp hfail (Or.imp_right ?_))
    rw [hreq]
    exact hs.genuine
  | staleWhileRevalidate =>
    refine h.imp (hrec res) (Or.imp (And.imp_left hfail) (And.imp ?_ (Or.imp_left hfail)))
    rw [hreq]
    exact hs.genuine

/-- A fetch event that is handled in one way, and whose answer so far is as it has to be. -/
structure Fetch.Ok (origin : String) (dateParse : String → Option Int) (how : Strategy)
    (s : ServiceWorker) (f : Fetch) : Prop where
  handled : strategy origin f.request = how
  received : ∀ res, f.received = some res → (f.request.url, res) ∈ s.sent
  justified : ∀ res now, f.answer = some (res, now) → Justified origin dateParse s f res now how

theorem Fetch.Ok.new (req : WorkerRequest) :
    (Fetch.new req).Ok origin dateParse (strategy origin req) s :=
  ⟨rfl, nofun, nofun⟩

theorem Fetch.Ok.later (h : f.Ok origin dateParse how s) (hs : s.Later s') :
    f.Ok origin dateParse how s' where
  handled := h.handled
  received := fun res hres => hs.sent _ (h.received res hres)
  justified := fun res now hres => (h.justified res now hres).mono hs rfl (fun _ h => h) id

theorem Fetch.Ok.receive (h : f.Ok origin dateParse how s) (hnone : f.received = none)
    (res : WebResponse) :
    (f.receive res).Ok origin dateParse how (s.send f.request.url res) where
  handled := h.handled
  received := by
    rintro _ ⟨⟩
    exact List.mem_cons_self
  justified := by
    intro res' now hres
    refine (h.justified res' now hres).mono (.send s _ res) rfl ?_ id
    intro r hr
    rw [hnone] at hr
    cases hr

theorem Fetch.Ok.fail (h : f.Ok origin dateParse how s) : f.fail.Ok origin dateParse how s where
  handled := h.handled
  received := h.received
  justified := fun res now hres =>
    (h.justified res now hres).mono (.refl s) rfl (fun _ h => h) fun _ => rfl

theorem Fetch.Ok.respond (h : f.Ok origin dateParse how s)
    (hj : Justified origin dateParse s f res now how) :
    (f.respond now res).Ok origin dateParse how s where
  handled := h.handled
  received := h.received
  justified := by
    rintro _ _ ⟨⟩
    exact hj.mono (.refl s) rfl (fun _ h => h) id

theorem Fetch.Ok.reject (h : f.Ok origin dateParse how s) : f.reject.Ok origin dateParse how s where
  handled := h.handled
  received := h.received
  justified := fun res now hres =>
    (h.justified res now hres).mono (.refl s) rfl (fun _ h => h) id

theorem Fetch.Ok.genuine (h : f.Ok origin dateParse how s) (hrec : f.received = some res)
    (hok : res.ok = true) : Genuine s f.request.url res :=
  ⟨hok, h.received res hrec⟩

def InstallPc.Ok (s : ServiceWorker) (url : Url) : InstallPc → Prop
  | .putting res => Genuine s url res
  | .opening | .fetching | .done => True

/-- The caches of other versions that there still are wait for their deletion. -/
def ActivatePc.Ok (s : ServiceWorker) : ActivatePc → Prop
  | .keys => True
  | .deleting names rejected => rejected = false → ∀ k, Outdated s k → k ∈ names

/-- The event has its answer, or its handler was rejected without one. -/
def Fetch.Ended (f : Fetch) : Prop := f.answer.isSome = true ∨ f.rejected = true ∧ f.answer = none

def NavigationPc.Ok (f : Fetch) : NavigationPc → Prop
  | .fetching => f.received = none ∧ f.answer = none
  | .offline => f.failed = true ∧ f.answer = none
  | .done => f.Ended

def NetworkFirstPc.Ok (f : Fetch) : NetworkFirstPc → Prop
  | .opening | .fetching => f.received = none ∧ f.answer = none
  | .putting res => f.received = some res ∧ res.ok = true ∧ f.answer = none
  | .matching => f.failed = true ∧ f.answer = none
  | .done => f.Ended

/-- The entry that was found stays one that the network has sent, whatever becomes of the cache. -/
def RevalidatePc.Ok (s : ServiceWorker) (f : Fetch) : RevalidatePc → Prop
  | .matching => f.received = none ∧ f.answer = none
  | .fetching cached =>
    f.received = none ∧ ∀ res ∈ cached, Genuine s f.request.url res
  | .putting cached res =>
    f.received = some res ∧ res.ok = true ∧ ∀ res ∈ cached, Genuine s f.request.url res
  | .done => f.Ended

/-- What the handlers rely on in each other: the caches hold nothing but what belongs there. -/
structure Kept (origin : String) (s s' : ServiceWorker) : Prop where
  later : s.Later s'
  stored : Stored origin s'

theorem Kept.refl (h : Stored origin s) : Kept origin s s := ⟨.refl s, h⟩

theorem Kept.send (h : Stored origin s) (url : Url) (res : WebResponse) :
    Kept origin s (s.send url res) :=
  ⟨.send s url res, h.later (.send s url res) fun _ => rfl⟩

theorem Kept.openCache (h : Stored origin s) (hname : name = shellCache ∨ name = runtimeCache) :
    Kept origin s (s.openCache name) :=
  ⟨.set hname _, h.later (.set hname _) (s.cache_openCache name)⟩

theorem Kept.put (h : Stored origin s) (hg : Genuine s url res) (hb : Belongs origin name url) :
    Kept origin s (s.put name url res) :=
  ⟨.set (hb.imp And.left And.left) _, h.put hg hb⟩

theorem installStep_spec (hs : Stored origin s) (hurl : ShellUrl origin url) (hpc : pc.Ok s url)
    (h : installStep s url pc e = some (s', pc')) : Kept origin s s' ∧ pc'.Ok s' url := by
  unfold installStep at h
  split at h
  next =>
    cases h
    exact ⟨.openCache hs (.inl rfl), trivial⟩
  next res =>
    cases h
    refine ⟨.send hs url res, ?_⟩
    split
    next hok => exact ⟨hok, List.mem_cons_self⟩
    next => trivial
  next res =>
    cases h
    exact ⟨.put hs hpc (.inl ⟨rfl, hurl⟩), trivial⟩
  next =>
    cases h
    exact ⟨.refl hs, trivial⟩
  next =>
    cases h
    exact ⟨.refl hs, trivial⟩
  next =>
    cases h
    exact ⟨.refl hs, trivial⟩
  next => cases h

theorem activateStep_spec (hs : Stored origin s) (hpc : pc.Ok s)
    (h : activateStep s pc e = some (s', pc')) : Kept origin s s' ∧ pc'.Ok s' := by
  unfold activateStep at h
  split at h
  next =>
    cases h
    refine ⟨.refl hs, ?_⟩
    rintro - k ⟨hk, hshell, hruntime⟩
    rw [List.mem_filter]
    exact ⟨AList.mem_keys.1 hk, by simp [hshell, hruntime]⟩
  next =>
    cases h
    exact ⟨.refl hs, fun hrejected => nomatch hrejected⟩
  next names rejected name =>
    split at h
    next =>
      cases h
      refine ⟨⟨.delete s name, hs.delete name⟩, ?_⟩
      intro hrejected k hk
      have hne : k ≠ name := (AList.mem_erase.1 hk.1).1
      exact (List.mem_erase_of_ne hne).2
        (hpc hrejected k ((ServiceWorker.Later.delete s name).outdated k hk))
    next => cases h
  next names _ name =>
    split at h
    next =>
      cases h
      exact ⟨.refl hs, fun hrejected => nomatch hrejected⟩
    next => cases h
  next => cases h

theorem navigationStep_spec (hs : Stored origin s)
    (hf : f.Ok origin dateParse .navigation s) (hpc : pc.Ok f)
    (h : navigationStep origin s f pc e = some (s', f', pc')) :
    Kept origin s s' ∧ f'.Ok origin dateParse .navigation s' ∧ pc'.Ok f' := by
  unfold navigationStep at h
  split at h
  next res =>
    cases h
    exact ⟨.send hs f.request.url res, (hf.receive hpc.1 res).respond (.inl rfl), .inl rfl⟩
  next =>
    cases h
    exact ⟨.refl hs, hf.fail, rfl, hpc.2⟩
  next =>
    cases h
    have hkept : Kept origin s (s.openCache shellCache) := .openCache hs (.inl rfl)
    refine ⟨hkept, (hf.later hkept.later).respond (.inr ⟨hpc.1, ?_⟩), .inl rfl⟩
    cases hoff : (s.openCache shellCache).cache shellCache (shellUrl origin "/offline") with
    | none => exact .inl rfl
    | some res => exact .inr (hkept.stored shellCache (.inl rfl) _ res hoff).1
  next =>
    cases h
    exact ⟨.refl hs, hf.reject, .inr ⟨rfl, hpc.2⟩⟩
  next => cases h

theorem cacheable_networkFirst (h : strategy origin req = .networkFirst) :
    Cacheable origin req.url := by
  unfold strategy at h
  grind [Cacheable]

theorem cacheable_staleWhileRevalidate (h : strategy origin req = .staleWhileRevalidate) :
    Cacheable origin req.url := by
  unfold strategy at h
  grind [Cacheable]

theorem networkFirstStep_spec (hs : Stored origin s)
    (hf : f.Ok origin dateParse .networkFirst s) (hpc : pc.Ok f)
    (h : networkFirstStep s f pc e = some (s', f', pc')) :
    Kept origin s s' ∧ f'.Ok origin dateParse .networkFirst s' ∧ pc'.Ok f' := by
  unfold networkFirstStep at h
  split at h
  next =>
    cases h
    have hkept : Kept origin s (s.openCache runtimeCache) := .openCache hs (.inr rfl)
    exact ⟨hkept, hf.later hkept.later, hpc⟩
  next res =>
    have hf' := hf.receive hpc.1 res
    split at h
    next hok =>
      cases h
      exact ⟨.send hs f.request.url res, hf', rfl, hok, hpc.2⟩
    next =>
      cases h
      exact ⟨.send hs f.request.url res, hf'.respond (.inl rfl), .inl rfl⟩
  next res =>
    cases h
    have hkept : Kept origin s (s.put runtimeCache f.request.url res) :=
      .put hs (hf.genuine hpc.1 hpc.2.1) (.inr ⟨rfl, cacheable_networkFirst hf.handled⟩)
    exact ⟨hkept, (hf.later hkept.later).respond (.inl hpc.1), .inl rfl⟩
  next =>
    cases h
    exact ⟨.refl hs, hf.fail, rfl, hpc.2⟩
  next =>
    cases h
    exact ⟨.refl hs, hf.fail, rfl, hpc.2.2⟩
  next =>
    cases h
    refine ⟨.refl hs, hf.respond (.inr ⟨hpc.1, ?_⟩), .inl rfl⟩
    cases hcached : s.cache runtimeCache f.request.url with
    | none => exact .inl rfl
    | some res => exact .inr (hs runtimeCache (.inr rfl) _ res hcached).1
  next =>
    cases h
    exact ⟨.refl hs, hf.reject, .inr ⟨rfl, hpc.2⟩⟩
  next =>
    cases h
    exact ⟨.refl hs, hf.reject, .inr ⟨rfl, hpc.2⟩⟩
  next => cases h

theorem Fetch.settle_isSome (f : Fetch) (now : Int) (network cached : Option WebResponse) :
    (f.settle now network cached).answer.isSome = true := by
  rw [Fetch.settle]
  split
  next hsome => exact hsome
  next => rfl

theorem Fetch.Ok.settle_response (h : f.Ok origin dateParse .staleWhileRevalidate s)
    (hrec : f.received = some res) (cached : Option WebResponse) (now : Int) :
    (f.settle now (some res) cached).Ok origin dateParse .staleWhileRevalidate s := by
  rw [Fetch.settle]
  split
  next => exact h
  next => exact h.respond (.inl hrec)

theorem Fetch.Ok.settle_failed (h : f.Ok origin dateParse .staleWhileRevalidate s)
    (hcached : ∀ res ∈ cached, Genuine s f.request.url res) (now : Int) :
    (f.fail.settle now none cached).Ok origin dateParse .staleWhileRevalidate s := by
  rw [Fetch.settle]
  split
  next => exact h.fail
  next =>
    apply h.fail.respond
    cases cached with
    | none => exact .inr (.inl ⟨rfl, rfl⟩)
    | some res => exact .inr (.inr ⟨hcached res rfl, .inl rfl⟩)

theorem revalidateStep_spec (hs : Stored origin s)
    (hf : f.Ok origin dateParse .staleWhileRevalidate s) (hpc : pc.Ok s f)
    (h : revalidateStep dateParse s f pc e = some (s', f', pc')) :
    Kept origin s s' ∧ f'.Ok origin dateParse .staleWhileRevalidate s' ∧ pc'.Ok s' f' := by
  unfold revalidateStep at h
  split at h
  next =>
    have hkept : Kept origin s (s.openCache runtimeCache) := .openCache hs (.inr rfl)
    have hf' := hf.later hkept.later
    dsimp only at h
    split at h
    next =>
      cases h
      exact ⟨hkept, hf', hpc.1, nofun⟩
    next res hcached =>
      cases h
      have hg := (hkept.stored runtimeCache (.inr rfl) _ res hcached).1
      split
      next hfresh =>
        refine ⟨hkept, hf'.respond (.inr (.inr ⟨hg, .inr hfresh⟩)), hpc.1, ?_⟩
        rintro _ ⟨⟩
        exact hg
      next =>
        refine ⟨hkept, hf', hpc.1, ?_⟩
        rintro _ ⟨⟩
        exact hg
  next cached res =>
    have hkept : Kept origin s (s.send f.request.url res) := .send hs f.request.url res
    have hf' := hf.receive hpc.1 res
    dsimp only at h
    split at h
    next hok =>
      cases h
      exact ⟨hkept, hf', rfl, hok, fun r hr => hkept.later.genuine (hpc.2 r hr)⟩
    next =>
      cases h
      exact ⟨hkept, hf'.settle_response rfl cached s.now, .inl (Fetch.settle_isSome ..)⟩
  next cached res =>
    cases h
    have hkept : Kept origin s (s.put runtimeCache f.request.url res) :=
      .put hs (hf.genuine hpc.1 hpc.2.1) (.inr ⟨rfl, cacheable_staleWhileRevalidate hf.handled⟩)
    exact ⟨hkept, (hf.later hkept.later).settle_response hpc.1 cached s.now,
      .inl (Fetch.settle_isSome ..)⟩
  next cached =>
    cases h
    exact ⟨.refl hs, hf.settle_failed hpc.2 s.now, .inl (Fetch.settle_isSome ..)⟩
  next cached res =>
    cases h
    exact ⟨.refl hs, hf.settle_failed hpc.2.2 s.now, .inl (Fetch.settle_isSome ..)⟩
  next =>
    cases h
    exact ⟨.refl hs, hf.reject, .inr ⟨rfl, hpc.2⟩⟩
  next => cases h

/-- What holds of a task while the others take their steps. -/
def WorkerTask.Ok (origin : String) (dateParse : String → Option Int) (s : ServiceWorker) :
    WorkerTask → Prop
  | .install url pc => ShellUrl origin url ∧ pc.Ok s url
  | .activate pc => pc.Ok s
  | .pass f => f.Ok origin dateParse .pass s
  | .navigation f pc => f.Ok origin dateParse .navigation s ∧ pc.Ok f
  | .networkFirst f pc => f.Ok origin dateParse .networkFirst s ∧ pc.Ok f
  | .staleWhileRevalidate f pc => f.Ok origin dateParse .staleWhileRevalidate s ∧ pc.Ok s f

theorem WorkerTask.Ok.later {t : WorkerTask} (h : t.Ok origin dateParse s) (hs : s.Later s') :
    t.Ok origin dateParse s' := by
  cases t with
  | install url pc =>
    refine ⟨h.1, ?_⟩
    cases pc with
    | putting res => exact hs.genuine h.2
    | opening | fetching | done => trivial
  | activate pc =>
    cases pc with
    | keys => trivial
    | deleting names rejected => exact fun hrejected k hk => h hrejected k (hs.outdated k hk)
  | pass f => exact Fetch.Ok.later h hs
  | navigation f pc | networkFirst f pc => exact ⟨h.1.later hs, h.2⟩
  | staleWhileRevalidate f pc =>
    refine ⟨h.1.later hs, ?_⟩
    cases pc with
    | matching | done => exact h.2
    | fetching cached => exact ⟨h.2.1, fun res hres => hs.genuine (h.2.2 res hres)⟩
    | putting cached res =>
      exact ⟨h.2.1, h.2.2.1, fun res hres => hs.genuine (h.2.2.2 res hres)⟩

theorem taskStart_ok (s : ServiceWorker) (job : Job) :
    (taskStart origin job).Ok origin dateParse s := by
  cases job with
  | install i => exact ⟨⟨shellUrls.get i, List.get_mem _ _, rfl⟩, trivial⟩
  | activate => trivial
  | fetch req =>
    have hnew : (Fetch.new req).Ok origin dateParse (strategy origin req) s := .new req
    rw [taskStart]
    split
    next h => rwa [h] at hnew
    next h =>
      rw [h] at hnew
      exact ⟨hnew, rfl, rfl⟩
    next h =>
      rw [h] at hnew
      exact ⟨hnew, rfl, rfl⟩
    next h =>
      rw [h] at hnew
      exact ⟨hnew, rfl, rfl⟩

theorem taskStep_spec {t t' : WorkerTask} (hs : Stored origin s) (ht : t.Ok origin dateParse s)
    (h : taskStep origin dateParse s t e = some (s', t')) :
    Kept origin s s' ∧ t'.Ok origin dateParse s' := by
  cases t with
  | install url pc =>
    obtain ⟨⟨s₁, pc₁⟩, hstep, hx⟩ := Option.map_eq_some_iff.1 h
    cases hx
    exact (installStep_spec hs ht.1 ht.2 hstep).imp_right fun hpc => ⟨ht.1, hpc⟩
  | activate pc =>
    obtain ⟨⟨s₁, pc₁⟩, hstep, hx⟩ := Option.map_eq_some_iff.1 h
    cases hx
    exact activateStep_spec hs ht hstep
  | pass f => cases h
  | navigation f pc =>
    obtain ⟨⟨s₁, f₁, pc₁⟩, hstep, hx⟩ := Option.map_eq_some_iff.1 h
    cases hx
    exact navigationStep_spec hs ht.1 ht.2 hstep
  | networkFirst f pc =>
    obtain ⟨⟨s₁, f₁, pc₁⟩, hstep, hx⟩ := Option.map_eq_some_iff.1 h
    cases hx
    exact networkFirstStep_spec hs ht.1 ht.2 hstep
  | staleWhileRevalidate f pc =>
    obtain ⟨⟨s₁, f₁, pc₁⟩, hstep, hx⟩ := Option.map_eq_some_iff.1 h
    cases hx
    exact revalidateStep_spec hs ht.1 ht.2 hstep

theorem serviceWorker_stable (origin : String) (dateParse : String → Option Int) :
    (serviceWorkerProgram origin dateParse).Stable (fun _ _ _ _ => True) (Stored origin)
      (fun s _ o => ∀ t, o = some t → t.Ok origin dateParse s) where
  start := by
    rintro s i job - - _ ⟨⟩
    exact taskStart_ok s job
  ambient := by
    intro s elapsed hs
    have hl : s.Later { s with now := s.now + elapsed } := ⟨fun _ h => h, fun _ h => h⟩
    exact ⟨hs.later hl fun _ => rfl, fun i o ho t ht => (ho t ht).later hl⟩
  step := by
    intro s i t e s' t' hs ht _ hstep
    obtain ⟨hkept, ht'⟩ := taskStep_spec hs (ht t rfl) hstep
    refine ⟨hkept.stored, ?_, fun j o _ ho t ht => (ho t ht).later hkept.later⟩
    rintro _ ⟨⟩
    exact ht'

end Tasks

def WorkerTask.fetch? : WorkerTask → Option Fetch
  | .install _ _ | .activate _ => none
  | .pass f | .navigation f _ | .networkFirst f _ | .staleWhileRevalidate f _ => some f

/-- A task with nothing left to do, an activation if it was not rejected. -/
def WorkerTask.finished : WorkerTask → Bool
  | .install _ .done | .activate (.deleting [] false) | .pass _ | .navigation _ .done
  | .networkFirst _ .done | .staleWhileRevalidate _ .done => true
  | _ => false

section Runs

variable {origin : String} {dateParse : String → Option Int} {w : World ServiceWorker WorkerTask}
  {t : WorkerTask} {i : Nat}

theorem serviceWorker_holds (h : (serviceWorker origin dateParse).Reachable w) :
    Holds (Stored origin) (fun s _ o => ∀ t, o = some t → t.Ok origin dateParse s) w := by
  have hinv := (serviceWorker_stable origin dateParse).invariant (Stored origin)
  exact Machine.Invariant.reachable hinv
    (fun w hw => holds_start hw fun s hs => ⟨hs, fun _ _ h => nomatch h⟩) h

theorem WorkerTask.Ok.fetch (h : t.Ok origin dateParse s)
    (hf : t.fetch? = some f) : f.Ok origin dateParse (strategy origin f.request) s := by
  cases t with
  | install | activate => cases hf
  | pass f =>
    cases hf
    rw [h.handled]
    exact h
  | navigation f pc | networkFirst f pc | staleWhileRevalidate f pc =>
    cases hf
    rw [h.1.handled]
    exact h.1

/-- Every answer is the network's own to this very request, or an excused one, and a handler that
has ended has given one, or could not open or read a cache. -/
theorem serviceWorker_answers (h : (serviceWorker origin dateParse).Reachable w)
    (ht : w.threads[i]? = some t) (hf : t.fetch? = some f) :
    (∀ res now, f.answer = some (res, now) →
      Justified origin dateParse w.shared f res now (strategy origin f.request)) ∧
    (t.finished = true → strategy origin f.request ≠ .pass →
      f.answer.isSome = true ∨ f.rejected = true ∧ f.answer = none) := by
  have hok := (serviceWorker_holds h).2 i t ht
  refine ⟨(hok.fetch hf).justified, ?_⟩
  intro hdone hhow
  cases t with
  | install | activate => cases hf
  | pass f =>
    cases hf
    exact absurd hok.handled hhow
  | navigation f pc | networkFirst f pc | staleWhileRevalidate f pc =>
    cases hf
    cases pc with
    | done => exact hok.2
    | _ => cases hdone

def tagsRequest : WorkerRequest := ⟨"GET", ⟨"https://leetrank", "/api/tags", ""⟩, "cors"⟩

def tagsResponse : WebResponse := ⟨200, "OK", [("date", "now")], "[]"⟩

/-- The tags, fetched once and put into the cache. -/
def tagsCached : ServiceWorker :=
  let opened := ServiceWorker.openCache ⟨∅, 0, []⟩ runtimeCache
  (opened.send tagsRequest.url tagsResponse).put runtimeCache tagsRequest.url tagsResponse

/-- A second fetch of the tags is answered from the cache while its own is still under way. -/
def tagsTwice : World ServiceWorker WorkerTask where
  shared := tagsCached.openCache runtimeCache
  threads := [.staleWhileRevalidate
      ⟨tagsRequest, some tagsResponse, false, false, some (tagsResponse, 0)⟩ .done,
    .staleWhileRevalidate ⟨tagsRequest, none, false, false, some (tagsResponse, 0)⟩
      (.fetching (some tagsResponse))]

theorem stored_empty (origin : String) : Stored origin ⟨∅, 0, []⟩ := nofun

theorem tagsTwice_reachable :
    (serviceWorker "https://leetrank" fun _ => some 0).Reachable tagsTwice := by
  refine ⟨⟨⟨∅, 0, []⟩, []⟩, [.spawn (.fetch tagsRequest), .act 0 .proceed,
    .act 0 (.response tagsResponse), .act 0 .proceed, .spawn (.fetch tagsRequest),
    .act 1 .proceed], ⟨stored_empty _, rfl⟩, ?_⟩
  rfl

theorem serviceWorker_answers_tags :
    Justified "https://leetrank" (fun _ => some 0) tagsTwice.shared
      ⟨tagsRequest, none, false, false, some (tagsResponse, 0)⟩ tagsResponse 0
      (strategy "https://leetrank" tagsRequest) :=
  (serviceWorker_answers (i := 1) tagsTwice_reachable rfl rfl).1 tagsResponse 0 rfl

/-- Whatever is under way, the two caches hold nothing but OK responses of the network for the URLs
that belong there, and once an activation has ended no other cache is left. -/
theorem serviceWorker_caches (h : (serviceWorker origin dateParse).Reachable w) :
    Stored origin w.shared ∧
      (w.threads[i]? = some (.activate pc) → (WorkerTask.activate pc).finished = true →
        ∀ name ∈ w.shared.caches, name = shellCache ∨ name = runtimeCache) := by
  obtain ⟨hs, htasks⟩ := serviceWorker_holds h
  refine ⟨hs, ?_⟩
  intro ht hdone name hname
  have hok : pc.Ok w.shared := htasks i _ ht
  cases pc with
  | keys => cases hdone
  | deleting names rejected =>
    cases names with
    | cons => cases hdone
    | nil =>
      cases rejected with
      | true => cases hdone
      | false =>
        by_contra hother
        exact List.not_mem_nil (hok rfl name ⟨hname, not_or.1 hother⟩)

/-- The shell cache of an older version of the worker. -/
def oldShell : ServiceWorker := ServiceWorker.openCache ⟨∅, 0, []⟩ "leetrank-shell-v0"

theorem stored_oldShell (origin : String) : Stored origin oldShell := by
  rintro _ (rfl | rfl) url res hres <;> cases hres

theorem serviceWorker_caches_oldShell :
    Stored "https://leetrank" (oldShell.delete "leetrank-shell-v0") ∧
      "leetrank-shell-v0" ∉ (oldShell.delete "leetrank-shell-v0").caches := by
  have hreach : (serviceWorker "https://leetrank" fun _ => some 0).Reachable
      ⟨oldShell.delete "leetrank-shell-v0", [.activate (.deleting [] false)]⟩ := by
    refine ⟨⟨oldShell, []⟩, [.spawn .activate, .act 0 .proceed,
      .act 0 (.deleted "leetrank-shell-v0")], ⟨stored_oldShell _, rfl⟩, ?_⟩
    rfl
  obtain ⟨hstored, hdone⟩ := serviceWorker_caches (i := 0) hreach
  refine ⟨hstored, fun hname => ?_⟩
  have hkept := hdone rfl rfl _ hname
  exact absurd hkept (by decide)

end Runs

end Leetrank
