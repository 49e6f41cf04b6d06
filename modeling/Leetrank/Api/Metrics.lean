import Leetrank.Library.Tally
import Mathlib.Algebra.Order.Ring.Rat
import Mathlib.Data.List.Sort
import Mathlib.Data.Nat.Cast.Order.Ring
import Mathlib.Data.String.Basic
import Mathlib.Order.RelIso.Basic

namespace Leetrank.Metrics
set_option autoImplicit true
open InsertionOrder

abbrev LabelSet := List (String × String)

structure CounterEntry where
  labels : LabelSet
  value : Nat

structure HistogramEntry where
  labels : LabelSet
  buckets : InsertionMap ℚ Nat
  count : Nat
  sum : ℚ

/-- The bounds of the buckets, in seconds. -/
def DURATION_BUCKETS : List ℚ := [0.005, 0.01, 0.025, 0.05, 0.1, 0.25, 0.5, 1, 2.5, 5, 10]

/-- The stores of the module. -/
structure Stores where
  requestsTotal : InsertionMap String CounterEntry
  requestDuration : InsertionMap String HistogramEntry
  requestsInFlight : Nat

def Stores.empty : Stores := ⟨∅, ∅, 0⟩

def labelKey (labels : LabelSet) : String :=
  ",".intercalate ((labels.insertionSort (Order.Preimage Prod.fst (· ≤ ·))).map
    fun (k, v) => k ++ "=\"" ++ v ++ "\"")

/-- The calls by which the service changes the stores. -/
inductive Call where
  | incRequestsTotal (method path : String) (status : Nat)
  | observeRequestDuration (method path : String) (durationSeconds : ℚ)
  | incInFlight
  | decInFlight

def incRequestsTotal (m : Stores) (method path : String) (status : Nat) : Stores :=
  let labels := [("method", method), ("path", path), ("status", toString status)]
  let key := labelKey labels
  let value := ((AList.lookup key m.requestsTotal).getD ⟨labels, 0⟩).value
  let labels := ((AList.lookup key m.requestsTotal).getD ⟨labels, 0⟩).labels
  { m with requestsTotal := m.requestsTotal.set key ⟨labels, value + 1⟩ }

def HistogramEntry.new (labels : LabelSet) : HistogramEntry where
  labels := labels
  buckets := DURATION_BUCKETS.foldl (fun buckets le => buckets.set le 0) ∅
  count := 0
  sum := 0

def HistogramEntry.bucket (entry : HistogramEntry) (le : ℚ) : Nat :=
  (AList.lookup le entry.buckets).getD 0

def HistogramEntry.observe (entry : HistogramEntry) (durationSeconds : ℚ) : HistogramEntry where
  labels := entry.labels
  count := entry.count + 1
  sum := entry.sum + durationSeconds
  buckets := DURATION_BUCKETS.foldl (fun buckets le =>
    if durationSeconds ≤ le then InsertionMap.count buckets le else buckets) entry.buckets

def durationLabels (method path : String) : LabelSet := [("method", method), ("path", path)]

def observeRequestDuration (m : Stores) (method path : String) (durationSeconds : ℚ) : Stores :=
  let labels := durationLabels method path
  let key := labelKey labels
  let entry := (AList.lookup key m.requestDuration).getD (.new labels)
  { m with requestDuration := m.requestDuration.set key (entry.observe durationSeconds) }

def Stores.call (m : Stores) : Call → Stores
  | .incRequestsTotal method path status => incRequestsTotal m method path status
  | .observeRequestDuration method path durationSeconds =>
    observeRequestDuration m method path durationSeconds
  | .incInFlight => { m with requestsInFlight := m.requestsInFlight + 1 }
  | .decInFlight => { m with requestsInFlight := m.requestsInFlight - 1 }

def Stores.run (calls : List Call) : Stores := calls.foldl Stores.call .empty

/-- The value of the label `le`. -/
inductive Le where
  | bound (seconds : ℚ)
  | infinity
deriving DecidableEq

/-- A line of the exposition format; the label `le` stands apart from the others. -/
inductive Line where
  | help (name text : String)
  | type (name kind : String)
  | sample (name : String) (labels : LabelSet) (le : Option Le) (value : ℚ)

/-- The loop over the bounds, with what has been added up so far. -/
def bucketLines (entry : HistogramEntry) : Nat → List ℚ → List Line
  | _, [] => []
  | cumulative, le :: les =>
    .sample "leetrank_api_http_request_duration_seconds_bucket" entry.labels (some (.bound le))
        (cumulative + entry.bucket le : Nat) ::
      bucketLines entry (cumulative + entry.bucket le) les

def HistogramEntry.lines (entry : HistogramEntry) : List Line :=
  bucketLines entry 0 DURATION_BUCKETS ++
    [.sample "leetrank_api_http_request_duration_seconds_bucket" entry.labels (some .infinity)
        entry.count,
      .sample "leetrank_api_http_request_duration_seconds_count" entry.labels none entry.count,
      .sample "leetrank_api_http_request_duration_seconds_sum" entry.labels none entry.sum]

def renderPrometheus (m : Stores) (uptime : ℚ) : List Line :=
  [Line.help "leetrank_api_http_requests_total" "Total HTTP requests",
    Line.type "leetrank_api_http_requests_total" "counter"] ++
  m.requestsTotal.entries.reverse.map (fun x =>
    Line.sample "leetrank_api_http_requests_total" x.2.labels none x.2.value) ++
  [Line.help "leetrank_api_http_request_duration_seconds" "HTTP request latency",
    Line.type "leetrank_api_http_request_duration_seconds" "histogram"] ++
  m.requestDuration.entries.reverse.flatMap (fun x => x.2.lines) ++
  [Line.help "leetrank_api_http_requests_in_flight" "Current in-flight requests",
    Line.type "leetrank_api_http_requests_in_flight" "gauge",
    Line.sample "leetrank_api_http_requests_in_flight" [] none m.requestsInFlight,
    Line.help "leetrank_api_process_uptime_seconds" "Process uptime in seconds",
    Line.type "leetrank_api_process_uptime_seconds" "gauge",
    Line.sample "leetrank_api_process_uptime_seconds" [] none uptime]

structure Observation where
  method : String
  path : String
  durationSeconds : ℚ

def Observation.labels (o : Observation) : LabelSet := durationLabels o.method o.path

def Observation.key (o : Observation) : String := labelKey o.labels

def Call.observation : Call → Option Observation
  | .observeRequestDuration method path durationSeconds => some ⟨method, path, durationSeconds⟩
  | .incRequestsTotal .. | .incInFlight | .decInFlight => none

def observations (calls : List Call) : List Observation := calls.filterMap Call.observation

/-- The bucket that a line shows of a label set. -/
def Line.bucketOf (labels : LabelSet) : Line → Option (Le × ℚ)
  | .sample name ls (some le) value =>
    if name = "leetrank_api_http_request_duration_seconds_bucket" ∧ ls = labels then
      some (le, value)
    else none
  | .sample _ _ none _ | .help .. | .type .. => none

def bucketsOf (lines : List Line) (labels : LabelSet) : List (Le × ℚ) :=
  lines.filterMap (Line.bucketOf labels)

/-- How many observations of a label set there are. -/
def observed (os : List Observation) (labels : LabelSet) : Nat :=
  os.countP fun o => o.labels = labels

def observedAtMost (os : List Observation) (labels : LabelSet) (le : ℚ) : Nat :=
  os.countP fun o => o.labels = labels ∧ o.durationSeconds ≤ le

/-- The buckets of each label set show how many of its observations are at most the bound. -/
structure Exact (os : List Observation) (lines : List Line) : Prop where
  buckets : ∀ o ∈ os, bucketsOf lines o.labels =
    DURATION_BUCKETS.map (fun le => (.bound le, (observedAtMost os o.labels le : ℚ))) ++
      [(.infinity, (observed os o.labels : ℚ))]
  monotone : ∀ o ∈ os, (bucketsOf lines o.labels).Pairwise fun a b => a.2 ≤ b.2

/-- Nothing is counted in more than the last bucket, and no two label sets share a key. -/
structure Undistorted (os : List Observation) : Prop where
  slow : ∀ o ∈ os, 5 < o.durationSeconds
  keys : ∀ o ∈ os, ∀ o' ∈ os, o.key = o'.key → o.labels = o'.labels

variable {entry : HistogramEntry} {m : Stores} {calls : List Call} {os : List Observation}
  {o : Observation} {labels : LabelSet} {le : ℚ} {key : String}

theorem bucket_new (labels : LabelSet) (le : ℚ) : (HistogramEntry.new labels).bucket le = 0 := by
  have hfold : ∀ (les : List ℚ) (buckets : InsertionMap ℚ Nat),
      (AList.lookup le buckets).getD 0 = 0 →
      (AList.lookup le
        (les.foldl (fun buckets le => InsertionMap.set buckets le 0) buckets)).getD 0 = 0 := by
    intro les
    induction les with
    | nil => exact fun _ h => h
    | cons le' les ih =>
      intro buckets h
      apply ih
      rw [InsertionMap.lookup_set]
      split
      · rfl
      · exact h
  exact hfold DURATION_BUCKETS ∅ rfl

theorem bucket_observe (entry : HistogramEntry) (d : ℚ) (hle : le ∈ DURATION_BUCKETS) :
    (entry.observe d).bucket le = entry.bucket le + if d ≤ le then 1 else 0 := by
  have hloop : (entry.observe d).buckets = (DURATION_BUCKETS.filter (d ≤ ·)).foldl
      (fun buckets le => InsertionMap.count buckets (id le)) entry.buckets := by
    rw [List.foldl_filter, HistogramEntry.observe]
    simp only [decide_eq_true_eq, id_eq]
  have hnodup : DURATION_BUCKETS.Nodup := by decide +kernel
  rw [HistogramEntry.bucket, hloop, lookup_foldl_count, ← HistogramEntry.bucket]
  apply congrArg (entry.bucket le + ·)
  by_cases hd : d ≤ le
  · have hmem : le ∈ DURATION_BUCKETS.filter (d ≤ ·) :=
      List.mem_filter.2 ⟨hle, decide_eq_true hd⟩
    rw [if_pos hd, ← List.count_eq_one_of_mem (hnodup.filter _) hmem, List.count_eq_countP]
    rfl
  · rw [if_neg hd, List.countP_eq_zero]
    intro a ha
    rw [decide_eq_true_eq]
    rintro rfl
    exact hd (of_decide_eq_true (List.mem_filter.1 ha).2)

/-- The entry of a key after the observations that have the key. -/
structure EntryOf (os : List Observation) (key : String) (entry : HistogramEntry) : Prop where
  labels : ∃ o ∈ os, o.key = key ∧ entry.labels = o.labels
  count : entry.count = os.countP fun o => o.key = key
  bucket : ∀ le ∈ DURATION_BUCKETS,
    entry.bucket le = os.countP fun o => o.key = key ∧ o.durationSeconds ≤ le

/-- The store holds an entry for each key that has been observed. -/
structure Represents (os : List Observation) (m : Stores) : Prop where
  entry : ∀ key entry, AList.lookup key m.requestDuration = some entry → EntryOf os key entry
  none : ∀ key, AList.lookup key m.requestDuration = none → ∀ o ∈ os, o.key ≠ key

theorem Represents.count (h : Represents os m) (key : String) (labels : LabelSet) :
    ((AList.lookup key m.requestDuration).getD (.new labels)).count =
      os.countP fun o => o.key = key := by
  cases he : AList.lookup key m.requestDuration with
  | some entry => exact (h.entry key entry he).count
  | none =>
    refine (List.countP_eq_zero.2 ?_).symm
    intro o ho
    rw [decide_eq_true_eq]
    exact h.none key he o ho

theorem Represents.bucket (h : Represents os m) (key : String) (labels : LabelSet)
    (hle : le ∈ DURATION_BUCKETS) :
    ((AList.lookup key m.requestDuration).getD (.new labels)).bucket le =
      os.countP fun o => o.key = key ∧ o.durationSeconds ≤ le := by
  cases he : AList.lookup key m.requestDuration with
  | some entry => exact (h.entry key entry he).bucket le hle
  | none =>
    refine (bucket_new labels le).trans (List.countP_eq_zero.2 ?_).symm
    intro o ho
    rw [decide_eq_true_eq]
    exact fun hkey => h.none key he o ho hkey.1

theorem EntryOf.keep (h : EntryOf os key entry) {o : Observation} (hne : o.key ≠ key) :
    EntryOf (os ++ [o]) key entry := by
  obtain ⟨o', ho', hlabels⟩ := h.labels
  refine ⟨⟨o', List.mem_append_left _ ho', hlabels⟩, ?_, ?_⟩
  · rw [h.count, List.countP_append, List.countP_singleton, if_neg (by simpa using hne),
      Nat.add_zero]
  · intro le hle
    have hnot : ¬decide (o.key = key ∧ o.durationSeconds ≤ le) = true := by
      rw [decide_eq_true_eq]
      exact fun hand => hne hand.1
    rw [h.bucket le hle, List.countP_append, List.countP_singleton, if_neg hnot, Nat.add_zero]

theorem Represents.entryOf_observe (h : Represents os m) (o : Observation) :
    EntryOf (os ++ [o]) o.key
      (((AList.lookup o.key m.requestDuration).getD (.new o.labels)).observe
        o.durationSeconds) := by
  constructor
  · cases hm : AList.lookup o.key m.requestDuration with
    | none => exact ⟨o, List.mem_append_right _ (List.mem_singleton_self o), rfl, rfl⟩
    | some entry =>
      obtain ⟨o', ho', hlabels⟩ := (h.entry _ _ hm).labels
      exact ⟨o', List.mem_append_left _ ho', hlabels⟩
  · rw [List.countP_append, List.countP_singleton, if_pos (decide_eq_true rfl), ← h.count]
    rfl
  · intro le hle
    rw [bucket_observe _ _ hle, h.bucket _ _ hle, List.countP_append, List.countP_singleton]
    simp only [true_and, decide_eq_true_eq]

theorem Represents.observe (h : Represents os m) (o : Observation) :
    Represents (os ++ [o]) (observeRequestDuration m o.method o.path o.durationSeconds) := by
  have hold : ∀ k, k ≠ o.key → AList.lookup k
      (observeRequestDuration m o.method o.path o.durationSeconds).requestDuration =
        AList.lookup k m.requestDuration :=
    fun k hk => (InsertionMap.lookup_set ..).trans (if_neg hk)
  have hnew : AList.lookup o.key
      (observeRequestDuration m o.method o.path o.durationSeconds).requestDuration =
        some (((AList.lookup o.key m.requestDuration).getD (.new o.labels)).observe
          o.durationSeconds) :=
    (InsertionMap.lookup_set ..).trans (if_pos rfl)
  constructor
  · intro k entry he
    by_cases hk : k = o.key
    · subst hk
      rw [hnew] at he
      cases he
      exact h.entryOf_observe o
    · rw [hold k hk] at he
      exact (h.entry k entry he).keep (Ne.symm hk)
  · intro k hnone o' ho'
    by_cases hk : k = o.key
    · subst hk
      rw [hnew] at hnone
      cases hnone
    · rw [hold k hk] at hnone
      rcases List.mem_append.1 ho' with ho' | ho'
      · exact h.none k hnone o' ho'
      · rw [List.mem_singleton.1 ho']
        exact Ne.symm hk

theorem observations_concat (calls : List Call) (c : Call) :
    observations (calls ++ [c]) = observations calls ++ c.observation.toList := by
  rw [observations, List.filterMap_append, ← observations]
  cases hc : c.observation with
  | none => rw [List.filterMap_cons_none hc]; rfl
  | some o => rw [List.filterMap_cons_some hc]; rfl

theorem represents_run (calls : List Call) :
    Represents (observations calls) (Stores.run calls) := by
  induction calls using List.reverseRecOn with
  | nil => exact ⟨fun _ _ h => (nomatch h), fun _ _ _ ho => (List.not_mem_nil ho).elim⟩
  | append_singleton calls c ih =>
    rw [Stores.run, List.foldl_append, observations_concat]
    cases c with
    | observeRequestDuration method path d => exact ih.observe ⟨method, path, d⟩
    | incRequestsTotal method path status =>
      rw [Call.observation, Option.toList_none, List.append_nil]
      exact ⟨ih.entry, ih.none⟩
    | incInFlight =>
      rw [Call.observation, Option.toList_none, List.append_nil]
      exact ⟨ih.entry, ih.none⟩
    | decInFlight =>
      rw [Call.observation, Option.toList_none, List.append_nil]
      exact ⟨ih.entry, ih.none⟩

/-- The buckets that the loop over the bounds shows. -/
def shown (entry : HistogramEntry) : Nat → List ℚ → List (Le × ℚ)
  | _, [] => []
  | cumulative, le :: les =>
    (.bound le, (cumulative + entry.bucket le : Nat)) ::
      shown entry (cumulative + entry.bucket le) les

theorem bucketsOf_bucketLines (entry : HistogramEntry) (labels : LabelSet) (cumulative : Nat)
    (les : List ℚ) :
    bucketsOf (bucketLines entry cumulative les) labels =
      if entry.labels = labels then shown entry cumulative les else [] := by
  induction les generalizing cumulative with
  | nil => rw [bucketLines, shown, ite_self]; rfl
  | cons le les ih =>
    simp only [bucketsOf] at ih ⊢
    rw [bucketLines, List.filterMap_cons, ih, shown, Line.bucketOf]
    by_cases hl : entry.labels = labels
    · simp only [hl, and_self, if_true]
    · simp only [hl, and_false, if_false]

theorem bucketsOf_lines (entry : HistogramEntry) (labels : LabelSet) :
    bucketsOf entry.lines labels =
      if entry.labels = labels then
        shown entry 0 DURATION_BUCKETS ++ [(.infinity, (entry.count : ℚ))]
      else [] := by
  have hloop := bucketsOf_bucketLines entry labels 0 DURATION_BUCKETS
  rw [bucketsOf] at hloop ⊢
  rw [HistogramEntry.lines, List.filterMap_append, hloop]
  by_cases hl : entry.labels = labels
  · simp [hl, Line.bucketOf]
  · simp [hl, Line.bucketOf]

theorem bucketsOf_renderPrometheus (m : Stores) (uptime : ℚ) (labels : LabelSet) :
    bucketsOf (renderPrometheus m uptime) labels =
      m.requestDuration.entries.reverse.flatMap fun x => bucketsOf x.2.lines labels := by
  have hcounters : ∀ l : List (Sigma fun _ : String => CounterEntry),
      (l.map fun x => Line.sample "leetrank_api_http_requests_total" x.2.labels none
        x.2.value).filterMap (Line.bucketOf labels) = [] := by
    intro l
    rw [List.filterMap_map, List.filterMap_eq_nil_iff]
    exact fun _ _ => rfl
  rw [bucketsOf, renderPrometheus, List.filterMap_append, List.filterMap_append,
    List.filterMap_append, List.filterMap_append, hcounters, List.filterMap_flatMap]
  exact List.append_nil _

/-- The loop shows the counts of the buckets only if it adds up nothing before the last one. -/
theorem shown_eq_iff (entry : HistogramEntry) (cumulative : Nat) (les : List ℚ) :
    shown entry cumulative les = les.map (fun le => (.bound le, (entry.bucket le : ℚ))) ↔
      les = [] ∨ cumulative = 0 ∧ ∀ le ∈ les.dropLast, entry.bucket le = 0 := by
  induction les generalizing cumulative with
  | nil => exact iff_of_true rfl (.inl rfl)
  | cons le les ih =>
    rw [shown, List.map_cons, List.cons.injEq, ih, Prod.mk.injEq, Nat.cast_inj]
    cases les with
    | nil => simp
    | cons le' les =>
      rw [List.dropLast_cons_cons, List.forall_mem_cons]
      simp only [true_and, reduceCtorEq, false_or]
      constructor
      · rintro ⟨-, hsum, hrest⟩
        exact ⟨by omega, by omega, hrest⟩
      · rintro ⟨hcumulative, hbucket, hrest⟩
        exact ⟨by omega, by omega, hrest⟩

/-- What is shown of a label set that has been observed. -/
theorem Represents.bucketsOf_render (h : Represents os m) (ho : o ∈ os) (uptime : ℚ) :
    ∃ entry, AList.lookup o.key m.requestDuration = some entry ∧
      bucketsOf (renderPrometheus m uptime) o.labels =
        if entry.labels = o.labels then
          shown entry 0 DURATION_BUCKETS ++ [(.infinity, (entry.count : ℚ))]
        else [] := by
  cases he : AList.lookup o.key m.requestDuration with
  | none => exact absurd rfl (h.none o.key he o ho)
  | some entry =>
    refine ⟨entry, rfl, ?_⟩
    have hother : ∀ x ∈ m.requestDuration.entries, x.1 ≠ o.key →
        bucketsOf x.2.lines o.labels = [] := by
      intro x hx hkey
      obtain ⟨o', -, hkey', hlabels⟩ :=
        (h.entry x.1 x.2 (List.mem_dlookup m.requestDuration.nodupKeys hx)).labels
      rw [bucketsOf_lines, if_neg]
      intro heq
      rw [← hkey', Observation.key, ← hlabels, heq] at hkey
      exact hkey rfl
    rw [bucketsOf_renderPrometheus, InsertionMap.flatMap_entries _ hother, he, Option.map_some,
      Option.getD_some, bucketsOf_lines]

/-- Where label sets have keys of their own, the entry of a key counts one label set. -/
theorem EntryOf.exact (h : EntryOf os o.key entry) (ho : o ∈ os)
    (hkeys : ∀ o ∈ os, ∀ o' ∈ os, o.key = o'.key → o.labels = o'.labels) :
    entry.labels = o.labels ∧ entry.count = observed os o.labels ∧
      ∀ le ∈ DURATION_BUCKETS, entry.bucket le = observedAtMost os o.labels le := by
  have hsame : ∀ o' ∈ os, o'.key = o.key ↔ o'.labels = o.labels := by
    intro o' ho'
    exact ⟨hkeys o' ho' o ho, congrArg labelKey⟩
  obtain ⟨o', ho', hkey, hlabels⟩ := h.labels
  refine ⟨hlabels.trans ((hsame o' ho').1 hkey), ?_, ?_⟩
  · rw [h.count, observed]
    apply List.countP_congr
    intro o' ho'
    rw [decide_eq_true_eq, decide_eq_true_eq, hsame o' ho']
  · intro le hle
    rw [h.bucket le hle, observedAtMost]
    apply List.countP_congr
    intro o' ho'
    rw [decide_eq_true_eq, decide_eq_true_eq, hsame o' ho']

theorem observedAtMost_mono (os : List Observation) (labels : LabelSet) {a b : ℚ} (hab : a ≤ b) :
    observedAtMost os labels a ≤ observedAtMost os labels b := by
  apply List.countP_mono_left
  simp only [decide_eq_true_eq]
  exact fun _ _ hand => ⟨hand.1, hand.2.trans hab⟩

theorem observedAtMost_le (os : List Observation) (labels : LabelSet) (le : ℚ) :
    observedAtMost os labels le ≤ observed os labels := by
  apply List.countP_mono_left
  simp only [decide_eq_true_eq]
  exact fun _ _ hand => hand.1

/-- Exact buckets are cumulative. -/
theorem monotone_of_exact (os : List Observation) (labels : LabelSet) :
    (DURATION_BUCKETS.map (fun le => (Le.bound le, (observedAtMost os labels le : ℚ))) ++
      [(Le.infinity, (observed os labels : ℚ))]).Pairwise fun a b => a.2 ≤ b.2 := by
  have hsorted : DURATION_BUCKETS.Pairwise (· ≤ ·) := by decide +kernel
  rw [List.pairwise_append]
  refine ⟨?_, List.pairwise_singleton .., ?_⟩
  · rw [List.pairwise_map]
    exact hsorted.imp fun hab => Nat.cast_le.2 (observedAtMost_mono os labels hab)
  · intro a ha b hb
    obtain ⟨le, -, rfl⟩ := List.mem_map.1 ha
    rw [List.mem_singleton.1 hb]
    exact Nat.cast_le.2 (observedAtMost_le os labels le)

theorem Represents.buckets_iff (h : Represents os m) (ho : o ∈ os)
    (hkeys : ∀ o ∈ os, ∀ o' ∈ os, o.key = o'.key → o.labels = o'.labels) (uptime : ℚ) :
    bucketsOf (renderPrometheus m uptime) o.labels =
        DURATION_BUCKETS.map (fun le => (.bound le, (observedAtMost os o.labels le : ℚ))) ++
          [(.infinity, (observed os o.labels : ℚ))] ↔
      ∀ le ∈ DURATION_BUCKETS.dropLast, observedAtMost os o.labels le = 0 := by
  obtain ⟨entry, he, hshown⟩ := h.bucketsOf_render ho uptime
  obtain ⟨hlabels, hcount, hbucket⟩ := (h.entry o.key entry he).exact ho hkeys
  have hexpected :
      DURATION_BUCKETS.map (fun le => (Le.bound le, (observedAtMost os o.labels le : ℚ))) =
        DURATION_BUCKETS.map fun le => (Le.bound le, (entry.bucket le : ℚ)) := by
    apply List.map_congr_left
    intro le hle
    rw [hbucket le hle]
  have hne : DURATION_BUCKETS ≠ [] := List.cons_ne_nil _ _
  rw [hshown, if_pos hlabels, hcount, hexpected, List.append_left_inj, shown_eq_iff,
    or_iff_right hne, and_iff_right rfl]
  apply forall₂_congr
  intro le hle
  rw [hbucket le ((List.dropLast_sublist _).subset hle)]

/-- The label sets that are shown have keys of their own. -/
theorem Represents.keys_of_exact (h : Represents os m)
    (hexact : Exact os (renderPrometheus m uptime)) :
    ∀ o ∈ os, ∀ o' ∈ os, o.key = o'.key → o.labels = o'.labels := by
  have hlabels : ∀ o ∈ os, ∃ entry, AList.lookup o.key m.requestDuration = some entry ∧
      entry.labels = o.labels := by
    intro o ho
    obtain ⟨entry, he, hshown⟩ := h.bucketsOf_render ho uptime
    refine ⟨entry, he, ?_⟩
    by_contra hne
    rw [if_neg hne, hexact.buckets o ho] at hshown
    exact List.append_ne_nil_of_right_ne_nil _ (List.cons_ne_nil _ _) hshown
  intro o ho o' ho' hkey
  obtain ⟨entry, he, hl⟩ := hlabels o ho
  obtain ⟨entry', he', hl'⟩ := hlabels o' ho'
  rw [hkey, he'] at he
  cases he
  exact hl.symm.trans hl'

theorem le_five_of_mem (hle : le ∈ DURATION_BUCKETS.dropLast) : le ≤ 5 := by
  have hall : (DURATION_BUCKETS.dropLast.all fun le => le ≤ 5) = true := by decide +kernel
  exact of_decide_eq_true (List.all_eq_true.1 hall le hle)

/-- The buckets are exact just as long as every observation is above all bounds but the last, and
no two label sets that are observed share a key. -/
theorem exact_iff (calls : List Call) (uptime : ℚ) :
    Exact (observations calls) (renderPrometheus (Stores.run calls) uptime) ↔
      Undistorted (observations calls) := by
  have h := represents_run calls
  generalize observations calls = os at h ⊢
  constructor
  · intro hexact
    have hkeys := h.keys_of_exact hexact
    refine ⟨fun o ho => ?_, hkeys⟩
    have hfive : (5 : ℚ) ∈ DURATION_BUCKETS.dropLast := by decide +kernel
    have hnone := (h.buckets_iff ho hkeys uptime).1 (hexact.buckets o ho) 5 hfive
    have hslow := List.countP_eq_zero.1 hnone o ho
    rw [decide_eq_true_eq] at hslow
    exact not_le.1 fun hle => hslow ⟨rfl, hle⟩
  · intro hu
    have hbuckets : ∀ o ∈ os, bucketsOf (renderPrometheus (Stores.run calls) uptime) o.labels =
        DURATION_BUCKETS.map (fun le => (.bound le, (observedAtMost os o.labels le : ℚ))) ++
          [(.infinity, (observed os o.labels : ℚ))] := by
      intro o ho
      refine (h.buckets_iff ho hu.keys uptime).2 ?_
      intro le hle
      refine List.countP_eq_zero.2 ?_
      intro o' ho'
      rw [decide_eq_true_eq]
      rintro ⟨-, hd⟩
      exact absurd (hu.slow o' ho') (not_lt.2 (hd.trans (le_five_of_mem hle)))
    exact ⟨hbuckets, fun o ho => hbuckets o ho ▸ monotone_of_exact os o.labels⟩

/-- A fast request is counted in all buckets, and adds up from one to the next. -/
theorem shown_of_fast_request :
    bucketsOf (renderPrometheus (Stores.run [.observeRequestDuration "GET" "/health" 0.001]) 1)
        (durationLabels "GET" "/health") =
      (DURATION_BUCKETS.zip [1, 2, 3, 4, 5, 6, 7, 8, 9, 10, 11]).map
          (fun (le, value) => (.bound le, value)) ++
        [(.infinity, 1)] := by
  decide +kernel

theorem not_exact_of_fast_request :
    ¬Exact (observations [.observeRequestDuration "GET" "/health" 0.001])
      (renderPrometheus (Stores.run [.observeRequestDuration "GET" "/health" 0.001]) 1) := by
  intro h
  have hbuckets := h.buckets ⟨"GET", "/health", 0.001⟩ (List.mem_singleton_self _)
  rw [Observation.labels, shown_of_fast_request] at hbuckets
  revert hbuckets
  decide +kernel

end Leetrank.Metrics
