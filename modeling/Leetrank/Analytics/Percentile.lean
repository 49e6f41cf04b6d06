import Leetrank.Analytics.RuntimeDistribution
import Leetrank.Library.Doubles
import Leetrank.Library.InsertionMap
import Leetrank.Playback.Routes
import Mathlib.Data.List.Nodup
import Mathlib.Data.List.Sort

namespace Leetrank.Runtimes
set_option autoImplicit true

open InsertionOrder

/-- The loop that counts the valid values, and those of them that are slower. -/
def countBeaten (runtime : ℚ) (allRuntimes : List Js.Number) : Nat × Nat :=
  allRuntimes.foldl (fun (beaten, total) x =>
    match validRuntime x with
    | none => (beaten, total)
    | some r => (if runtime < r then beaten + 1 else beaten, total + 1)) (0, 0)

/-- The rounded share of the slower runtimes, in double precision. -/
def computePercentile (runtime : Js.Number) (allRuntimes : List Js.Number) : Js.Number :=
  if allRuntimes.length = 0 then .finite 0
  else
    match validRuntime runtime with
    | none => .finite 0
    | some runtime =>
      let (beaten, total) := countBeaten runtime allRuntimes
      if total = 0 then .finite 0
      else
        let pct := ((Js.Number.finite beaten).div (.finite total)).mul (.finite 100)
        (pct.mul (.finite 10)).round.div (.finite 10)

structure Submission where
  id : String
  userId : String
  problemId : String
  language : String
  runtime : Option Int
  status : String

structure Db where
  submissions : List Submission
  unique : (submissions.map fun s => s.id).Nodup

def MAX_BUCKETS : Nat := 20

def MAX_POPULATION : Nat := 5000

/-- The accepted runtimes for a problem and a language. -/
def Db.population (db : Db) (problemId language : String) : List Int :=
  (db.submissions.filter fun s =>
    s.problemId == problemId && s.language == language && s.status == "accepted").filterMap
      fun s => s.runtime

/-- The query of the route, which drops what has no runtime itself. -/
def Db.findPeers (db : Db) (problemId language : String) : List Int :=
  ((db.population problemId language).insertionSort (· ≤ ·)).take MAX_POPULATION

structure PercentileResponse where
  percentile : Js.Number
  runtime : Int
  language : String
  totalSubmissions : Nat
  runtimes : List Int
  distribution : List DistributionBucket

inductive PercentileBody where
  | error (text : String)
  | payload (response : PercentileResponse)

structure PercentileReply where
  status : Nat
  body : PercentileBody

def PercentileReply.error (status : Nat) (text : String) : PercentileReply :=
  ⟨status, .error text⟩

def numbers (runtimes : List Int) : List Js.Number :=
  runtimes.map fun r : Int => .finite (r : ℚ)

/-- What the route computes when its cache holds nothing for the submission. -/
def Db.payload (db : Db) (problemId language : String) (runtime : Int) : PercentileResponse :=
  let runtimes := db.findPeers problemId language
  { percentile := computePercentile (.finite runtime) (numbers runtimes)
    runtime := runtime
    language := language
    totalSubmissions := runtimes.length
    runtimes := runtimes
    distribution := runtimeDistribution (numbers runtimes) MAX_BUCKETS }

/-- The answer of the route, where `cached` is what its cache holds for the submission. -/
def Db.getPercentile (db : Db) (session : Option Viewer) (id : String)
    (cached : Option PercentileResponse) : PercentileReply :=
  match session with
  | none => .error 401 "Unauthorized"
  | some viewer =>
    match db.submissions.find? fun s => s.id == id with
    | none => .error 404 "Submission not found"
    | some submission =>
      if submission.userId ≠ viewer.userId ∧ viewer.role ≠ "admin" then .error 403 "Forbidden"
      else
        match submission.status == "accepted", submission.runtime with
        | true, some runtime =>
          ⟨200, .payload
            (cached.getD (db.payload submission.problemId submission.language runtime))⟩
        | _, _ =>
          .error 422
            "Percentile is only available for accepted submissions with a recorded runtime."

/-- The figures of a response are those over some runtimes. -/
structure PercentileResponse.Over (response : PercentileResponse) (runtimes : List Int) : Prop where
  percentile : response.percentile =
    computePercentile (.finite response.runtime) (numbers runtimes)
  totalSubmissions : response.totalSubmissions = runtimes.length

/-- An accepted submission with a runtime, and somebody who may see it. -/
structure Db.MaySee (db : Db) (viewer : Viewer) (submission : Submission) (runtime : Int) :
    Prop where
  mem : submission ∈ db.submissions
  viewer : submission.userId = viewer.userId ∨ viewer.role = "admin"
  accepted : submission.status = "accepted"
  runtime : submission.runtime = some runtime

variable {db : Db} {viewer : Viewer} {submission : Submission} {runtime : Int}
  {runtimes peers : List Int}

theorem foldl_countBeaten (runtime : ℚ) (l : List Js.Number) (beaten total : Nat) :
    l.foldl (fun (beaten, total) x =>
        match validRuntime x with
        | none => (beaten, total)
        | some r => (if runtime < r then beaten + 1 else beaten, total + 1)) (beaten, total) =
      (beaten + (validRuntimes l).countP (runtime < ·), total + (validRuntimes l).length) := by
  induction l generalizing beaten total with
  | nil => rfl
  | cons x l ih =>
    rw [List.foldl_cons, validRuntimes]
    cases hx : validRuntime x with
    | none =>
      rw [List.filterMap_cons_none hx]
      exact ih beaten total
    | some r =>
      rw [List.filterMap_cons_some hx, List.length_cons, List.countP_cons]
      dsimp only
      rw [ih, validRuntimes]
      by_cases hr : runtime < r
      · rw [if_pos hr, if_pos (decide_eq_true hr), Prod.mk.injEq]
        omega
      · rw [if_neg hr, if_neg (by simpa using hr), Prod.mk.injEq]
        omega

theorem countBeaten_eq (runtime : ℚ) (l : List Js.Number) :
    countBeaten runtime l =
      ((validRuntimes l).countP (runtime < ·), (validRuntimes l).length) := by
  rw [countBeaten, foldl_countBeaten, Nat.zero_add, Nat.zero_add]

/-- The order in which the runtimes come does not matter. -/
theorem computePercentile_perm (x : Js.Number) {as bs : List Js.Number} (h : as.Perm bs) :
    computePercentile x as = computePercentile x bs := by
  have hvalid : (validRuntimes as).Perm (validRuntimes bs) := h.filterMap _
  simp only [computePercentile, countBeaten_eq, h.length_eq, hvalid.length_eq,
    hvalid.countP_eq]

theorem Db.find?_of_mem (h : submission ∈ db.submissions) :
    db.submissions.find? (fun s => s.id == submission.id) = some submission :=
  find?_of_key db.unique h

theorem Db.getPercentile_of_maySee (h : db.MaySee viewer submission runtime) :
    db.getPercentile (some viewer) submission.id none =
      ⟨200, .payload (db.payload submission.problemId submission.language runtime)⟩ := by
  have hviewer : ¬(submission.userId ≠ viewer.userId ∧ viewer.role ≠ "admin") := by
    rintro ⟨hne, hrole⟩
    exact h.viewer.elim hne hrole
  rw [Db.getPercentile, Db.find?_of_mem h.mem]
  simp only [if_neg hviewer, h.accepted, h.runtime, beq_self_eq_true, Option.getD_none]

theorem Db.length_findPeers (db : Db) (problemId language : String) :
    (db.findPeers problemId language).length =
      min MAX_POPULATION (db.population problemId language).length := by
  rw [Db.findPeers, List.length_take, List.length_insertionSort]

theorem Db.findPeers_subperm (db : Db) (problemId language : String) :
    (db.findPeers problemId language).Subperm (db.population problemId language) :=
  (List.take_sublist _ _).subperm.trans (List.perm_insertionSort _ _).subperm

theorem Db.findPeers_perm
    (h : (db.population problemId language).length ≤ MAX_POPULATION) :
    (db.findPeers problemId language).Perm (db.population problemId language) := by
  rw [Db.findPeers, List.take_of_length_le]
  · exact List.perm_insertionSort _ _
  · rwa [List.length_insertionSort]

theorem PercentileResponse.Over.perm {response : PercentileResponse} (h : response.Over peers)
    (hperm : peers.Perm runtimes) : response.Over runtimes where
  percentile := by
    have hnumbers : (numbers peers).Perm (numbers runtimes) := hperm.map _
    exact h.percentile.trans (computePercentile_perm _ hnumbers)
  totalSubmissions := h.totalSubmissions.trans hperm.length_eq

theorem Db.payload_over (db : Db) (problemId language : String) (runtime : Int) :
    (db.payload problemId language runtime).Over (db.findPeers problemId language) :=
  ⟨rfl, rfl⟩

/-- The figures are those over all accepted submissions with a runtime, or over as many of them as
the route pulls into memory. -/
theorem Db.getPercentile_over (h : db.MaySee viewer submission runtime) :
    ∃ response, db.getPercentile (some viewer) submission.id none = ⟨200, .payload response⟩ ∧
      response.runtime = runtime ∧
      ∃ peers : List Int,
        peers.Subperm (db.population submission.problemId submission.language) ∧
        peers.length = min MAX_POPULATION
          (db.population submission.problemId submission.language).length ∧
        response.Over peers ∧
        ((db.population submission.problemId submission.language).length ≤ MAX_POPULATION →
          response.Over (db.population submission.problemId submission.language)) := by
  refine ⟨_, Db.getPercentile_of_maySee h, rfl, _, db.findPeers_subperm _ _,
    db.length_findPeers _ _, db.payload_over _ _ _, ?_⟩
  intro hle
  exact (db.payload_over _ _ _).perm (Db.findPeers_perm hle)

/-- An accepted submission with a runtime, at its place in a list. -/
def acceptedRow (x : Int × Nat) : Submission where
  id := String.ofList (List.replicate x.2 'a')
  userId := "ann"
  problemId := "two-sum"
  language := "go"
  runtime := some x.1
  status := "accepted"

def Db.ofRuntimes (runtimes : List Int) : Db where
  submissions := runtimes.zipIdx.map acceptedRow
  unique := by
    have hids : (runtimes.zipIdx.map acceptedRow).map (fun s => s.id) =
        (runtimes.zipIdx.map Prod.snd).map fun i => String.ofList (List.replicate i 'a') := by
      rw [List.map_map, List.map_map]
      rfl
    rw [hids, List.zipIdx_map_snd]
    apply (List.nodup_range' ..).map
    intro i j hij
    have hlen := congrArg List.length (String.ofList_injective hij)
    rwa [List.length_replicate, List.length_replicate] at hlen

theorem Db.population_ofRuntimes (runtimes : List Int) :
    (Db.ofRuntimes runtimes).population "two-sum" "go" = runtimes := by
  have hall : (runtimes.zipIdx.map acceptedRow).filter (fun s =>
      s.problemId == "two-sum" && s.language == "go" && s.status == "accepted") =
        runtimes.zipIdx.map acceptedRow := by
    rw [List.filter_eq_self]
    intro s hs
    obtain ⟨x, -, rfl⟩ := List.mem_map.1 hs
    rfl
  rw [Db.population, Db.ofRuntimes]
  dsimp only
  rw [hall, List.filterMap_map]
  have hruntime : (fun s : Submission => s.runtime) ∘ acceptedRow = some ∘ Prod.fst := rfl
  rw [hruntime, List.filterMap_eq_map, List.zipIdx_map_fst]

theorem Db.maySee_ofRuntimes (h : (runtime, i) ∈ runtimes.zipIdx) :
    (Db.ofRuntimes runtimes).MaySee ⟨"ann", "user"⟩ (acceptedRow (runtime, i)) runtime where
  mem := List.mem_map_of_mem h
  viewer := .inl rfl
  accepted := rfl
  runtime := rfl

/-- Two submissions are few enough for the figures to be those over both of them. -/
theorem Db.getPercentile_two :
    ∃ response : PercentileResponse, response.runtime = 3 ∧
      response.Over ((Db.ofRuntimes [3, 8]).population "two-sum" "go") := by
  have hmem : ((3 : Int), 0) ∈ List.zipIdx [3, 8] := List.mem_cons_self ..
  obtain ⟨response, -, hruntime, peers, -, -, -, hall⟩ :=
    Db.getPercentile_over (Db.maySee_ofRuntimes hmem)
  refine ⟨response, hruntime, hall ?_⟩
  decide +kernel

theorem validRuntimes_numbers (h : ∀ r ∈ runtimes, 0 ≤ r) :
    validRuntimes (numbers runtimes) = runtimes.map fun r : Int => (r : ℚ) := by
  rw [validRuntimes, numbers, List.filterMap_map, ← List.filterMap_eq_map]
  apply List.filterMap_congr
  intro r hr
  exact validRuntime_eq_some_iff.2 ⟨rfl, Int.cast_nonneg (h r hr)⟩

/-- What a percentile comes to over runtimes that are all valid. -/
theorem computePercentile_numbers (runtime : Int) (hruntime : 0 ≤ runtime)
    (h : ∀ r ∈ runtimes, 0 ≤ r)
    (hne : runtimes ≠ []) :
    computePercentile (.finite runtime) (numbers runtimes) =
      (((((Js.Number.finite (runtimes.countP (runtime < ·))).div (.finite runtimes.length)).mul
        (.finite 100)).mul (.finite 10)).round).div (.finite 10) := by
  have hvalid : validRuntime (.finite runtime) = some (runtime : ℚ) :=
    validRuntime_eq_some_iff.2 ⟨rfl, Int.cast_nonneg hruntime⟩
  have hlen : runtimes.length ≠ 0 := fun h0 => hne (List.length_eq_zero_iff.1 h0)
  have hnumbers : (numbers runtimes).length = runtimes.length := List.length_map ..
  rw [computePercentile, hnumbers, if_neg hlen, hvalid]
  dsimp only
  rw [countBeaten_eq, validRuntimes_numbers h, List.countP_map, List.length_map]
  dsimp only
  rw [if_neg hlen]
  have hslower : (fun r : ℚ => decide ((runtime : ℚ) < r)) ∘ (fun r : Int => (r : ℚ)) =
      fun r : Int => decide (runtime < r) := by
    funext r
    exact decide_eq_decide.2 Int.cast_lt
  rw [hslower]

-- 28.75 in exact arithmetic, which the doubles miss by so much that they round it down
example : computePercentile (.finite 1)
    (numbers (List.replicate 57 1 ++ List.replicate 23 2)) = .ofRat 28.7 := by decide +kernel

/-- Fast runtimes, a slower one, and as many that are slower still. -/
def crowd (n : Nat) : List Int := List.replicate n 1 ++ 2 :: List.replicate n 3

theorem crowd_sorted (n : Nat) : (crowd n).Pairwise (· ≤ ·) := by
  rw [crowd, List.pairwise_append, List.pairwise_cons]
  refine ⟨List.pairwise_replicate.2 (.inr le_rfl), ⟨?_, List.pairwise_replicate.2 (.inr le_rfl)⟩,
    ?_⟩
  · intro r hr
    rw [List.eq_of_mem_replicate hr]
    decide
  · intro r hr r' hr'
    rw [List.eq_of_mem_replicate hr]
    rcases List.mem_cons.1 hr' with rfl | hr'
    · decide
    · rw [List.eq_of_mem_replicate hr']
      decide

theorem findPeers_crowd :
    (Db.ofRuntimes (crowd MAX_POPULATION)).findPeers "two-sum" "go" =
      List.replicate MAX_POPULATION 1 := by
  rw [Db.findPeers, Db.population_ofRuntimes, (crowd_sorted _).insertionSort_eq, crowd,
    List.take_left' List.length_replicate]

theorem percentile_of_fast (n : Nat) (hn : 0 < n) :
    computePercentile (.finite (2 : Int)) (numbers (List.replicate n 1)) = .finite 0 := by
  have hcount : (List.replicate n (1 : Int)).countP (fun r => 2 < r) = 0 := by
    rw [List.countP_replicate]
    rfl
  refine (computePercentile_numbers 2 (by decide) ?_ ?_).trans ?_
  · intro r hr
    rw [List.eq_of_mem_replicate hr]
    decide
  · rw [Ne, List.replicate_eq_nil_iff]
    exact Nat.ne_of_gt hn
  · have hne : ((List.replicate n (1 : Int)).length : ℚ) ≠ 0 := by
      rw [List.length_replicate]
      exact Nat.cast_ne_zero.2 hn.ne'
    rw [hcount, Nat.cast_zero, Js.Number.div, if_neg hne, zero_div, Js.Number.ofRat_zero]
    decide +kernel

theorem percentile_of_crowd (n : Nat) :
    computePercentile (.finite (2 : Int)) (numbers (crowd n)) =
      (((((Js.Number.finite n).div (.finite (n + (n + 1) : Nat))).mul
        (.finite 100)).mul (.finite 10)).round).div (.finite 10) := by
  have hcount : (crowd n).countP (fun r => 2 < r) = n := by
    rw [crowd, List.countP_append, List.countP_cons, List.countP_replicate, List.countP_replicate]
    simp
  have hlen : (crowd n).length = n + (n + 1) := by
    rw [crowd, List.length_append, List.length_cons, List.length_replicate, List.length_replicate]
  refine (computePercentile_numbers 2 (by decide) ?_ ?_).trans ?_
  · intro r hr
    rcases List.mem_append.1 hr with hr | hr
    · rw [List.eq_of_mem_replicate hr]
      decide
    · rcases List.mem_cons.1 hr with rfl | hr
      · decide
      · rw [List.eq_of_mem_replicate hr]
        decide
  · exact List.append_ne_nil_of_right_ne_nil _ (List.cons_ne_nil _ _)
  · rw [hcount, hlen]

theorem mem_zipIdx_crowd (n : Nat) : ((2 : Int), n) ∈ (crowd n).zipIdx := by
  rw [List.mem_zipIdx_iff_getElem?]
  dsimp only
  rw [crowd, List.getElem?_append_right List.length_replicate.le, List.length_replicate,
    Nat.sub_self, List.getElem?_cons_zero]

/-- The submission between the halves beats half of the others, and none of those in memory. -/
theorem getPercentile_of_crowd :
    ∃ response : PercentileResponse,
      (Db.ofRuntimes (crowd MAX_POPULATION)).getPercentile (some ⟨"ann", "user"⟩)
        (acceptedRow (2, MAX_POPULATION)).id none = ⟨200, .payload response⟩ ∧
      response.percentile = .finite 0 ∧ response.totalSubmissions = MAX_POPULATION ∧
      computePercentile (.finite (2 : Int)) (numbers (crowd MAX_POPULATION)) = .finite 50 ∧
      ¬response.Over ((Db.ofRuntimes (crowd MAX_POPULATION)).population "two-sum" "go") := by
  have hover := (Db.ofRuntimes (crowd MAX_POPULATION)).payload_over "two-sum" "go" 2
  rw [findPeers_crowd] at hover
  have hpercentile := hover.percentile.trans (percentile_of_fast MAX_POPULATION (by decide +kernel))
  have htotal := hover.totalSubmissions.trans List.length_replicate
  have hall : computePercentile (.finite (2 : Int)) (numbers (crowd MAX_POPULATION)) = .finite 50 := by
    rw [percentile_of_crowd]
    decide +kernel
  refine ⟨_, Db.getPercentile_of_maySee (Db.maySee_ofRuntimes (mem_zipIdx_crowd _)), hpercentile,
    htotal, hall, ?_⟩
  intro h
  have heq := h.percentile
  rw [Db.population_ofRuntimes] at heq
  have hzero : (0 : ℚ) = 50 :=
    Js.Number.finite.inj (hpercentile.symm.trans (heq.trans hall))
  norm_num at hzero

end Leetrank.Runtimes
