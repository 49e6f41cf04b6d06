import Leetrank.Contest.FrozenContest

namespace Leetrank
set_option autoImplicit true

open EventMachine Threads

/-- Codeforces-style division eligibility; a contest without a division is open. -/
def isEligibleForDivision (rating : Int) (division : Option String) : Bool :=
  match division with
  | none | some "" => true
  | some "div1" => 1900 ≤ rating
  | some "div2" => 1600 ≤ rating && rating < 1900
  | some "div3" => rating < 1600
  | some _ => true

/-- What changes in the tables beside the requests: time goes by, users get other ratings. -/
inductive TableChange where
  | elapse (elapsed : Nat)
  | rate (userId : String) (user : RatedUser)

def ContestDb.change (s : ContestDb) : TableChange → ContestDb
  | .elapse elapsed => { s with db := { s.db with now := s.db.now + elapsed } }
  | .rate userId user =>
    { s with db := { s.db with users := Function.update s.db.users userId user } }

/-- Any number of requests to the routes of contests, under any history of ratings. -/
def divisionProgram (updateOne : RatingEngine) :
    Program ContestDb ContestCall ContestRequest TableChange Outcome where
  start := fun _ r => r.call
  ambient := ContestDb.change
  step := contestStep updateOne

/-- The routes over tables without entries, so that every entry is made by a request. -/
def divisionMachine (updateOne : RatingEngine) :
    Machine (World ContestDb ContestCall) (Event ContestRequest TableChange Outcome) :=
  (divisionProgram updateOne).machine fun s => s.db.entries.rows = []

/-- The rating of the user lies in the division of the contest. -/
def RatingDb.Eligible (db : RatingDb) (divisions : String → Option String)
    (contestId userId : String) : Prop :=
  isEligibleForDivision (db.users userId).rating (divisions contestId) = true

/-- Each user who gets an entry between two states is eligible then. -/
def AdmitsEligible (divisions : String → Option String) (s s' : ContestDb) : Prop :=
  ∀ contestId, ∀ userId ∈ s'.db.entrants contestId, userId ∉ s.db.entrants contestId →
    s.db.Eligible divisions contestId userId

/-- An insert that a join gets to is for a user who has the entry already or is eligible. -/
def JoinsInDivision (divisions : String → Option String) (s : ContestDb) (p : ContestCall)
    (x : Outcome) : Prop :=
  ∀ slug contestId userId, p = .join slug userId (.create contestId) → x ≠ .fail →
    userId ∉ s.db.entrants contestId → s.db.Eligible divisions contestId userId

variable {updateOne : RatingEngine} {s s' : ContestDb} {divisions : String → Option String}
  {contestId userId slug : String} {p p' : ContestCall} {pc : JoinPc}
  {w₀ : World ContestDb ContestCall}

/-- Each rating lies in exactly one of the three divisions. -/
theorem eligible_one_division (rating : Int) :
    ∃! division, division ∈ ["div1", "div2", "div3"] ∧
      isEligibleForDivision rating (some division) = true := by
  have honly (division : String) (hd : ∀ d ∈ ["div1", "div2", "div3"], d ≠ division →
      isEligibleForDivision rating (some d) = false) :
      ∀ d, d ∈ ["div1", "div2", "div3"] ∧ isEligibleForDivision rating (some d) = true →
        d = division := by
    rintro d ⟨hmem, he⟩
    by_contra hne
    rw [hd d hmem hne] at he
    cases he
  by_cases h1 : 1900 ≤ rating
  · refine ⟨"div1", ⟨by decide, decide_eq_true h1⟩, honly _ ?_⟩
    simp [isEligibleForDivision]
    omega
  · by_cases h2 : 1600 ≤ rating
    · refine ⟨"div2", ⟨by decide, ?_⟩, honly _ ?_⟩
      · simp [isEligibleForDivision]
        omega
      · simp [isEligibleForDivision]
        omega
    · refine ⟨"div3", ⟨by decide, ?_⟩, honly _ ?_⟩
      · simp [isEligibleForDivision]
        omega
      · simp [isEligibleForDivision]
        omega

theorem admitsEligible_of_entrants
    (h : ∀ contestId, s'.db.entrants contestId ⊆ s.db.entrants contestId) :
    AdmitsEligible divisions s s' :=
  fun contestId _ hin hout => (hout (h contestId hin)).elim

/-- The only user whom an insert admits is the one it is for. -/
theorem createEntry_admits_iff (h : s.createEntry contestId userId = some s') :
    AdmitsEligible divisions s s' ↔ s.db.Eligible divisions contestId userId := by
  obtain ⟨hnew, hin, -⟩ := createEntry_entrants h
  constructor
  · exact fun hadmits => hadmits contestId userId hin hnew
  · intro he cid user huser hout
    obtain ⟨rfl, rfl⟩ := ((mem_entrants_createEntry h).1 huser).resolve_left hout
    exact he

/-- A request other than a join admits nobody. -/
theorem contestStep_entrants (h : contestStep updateOne s i p x = some (s', p'))
    (hp : ∀ slug userId pc, p ≠ .join slug userId pc) (contestId : String) :
    s'.db.entrants contestId ⊆ s.db.entrants contestId := by
  cases contestStep_move h with
  | quiet he => exact (he contestId).subset
  | commit _ hpersist => exact ((persist_rated hpersist).1 contestId).subset
  | create => exact (hp _ _ _ rfl).elim
  | delete _ hdelete => exact fun user hin => ((mem_entrants_deleteEntry hdelete).1 hin).1

/-- A step of a join admits the eligible exactly if its insert does. -/
theorem join_admits_iff
    (h : contestStep updateOne s i (.join slug userId pc) x = some (s', p')) :
    AdmitsEligible divisions s s' ↔ JoinsInDivision divisions s (.join slug userId pc) x := by
  obtain ⟨⟨s₁, pc₁⟩, hstep, he⟩ := Option.map_eq_some_iff.1 h
  cases he
  rcases statementStep_cases hstep with ⟨hx, rfl⟩ | ⟨hx, pc₂, hst⟩
  · exact iff_of_true (admitsEligible_of_entrants fun _ => subset_rfl) fun _ _ _ _ hfail =>
      (hfail hx).elim
  · rcases joinStatement_cases hst with ⟨id, rfl, hcreate⟩ | ⟨rfl, hnone⟩
    · rw [createEntry_admits_iff hcreate]
      constructor
      · rintro he _ _ _ ⟨⟩ _ _
        exact he
      · exact fun hjoin => hjoin slug id userId rfl hx (createEntry_entrants hcreate).1
    · refine iff_of_true (admitsEligible_of_entrants fun _ => subset_rfl) ?_
      rintro _ id _ ⟨⟩ _ hout
      exact (hout (createEntry_eq_none_iff.1 (hnone id rfl))).elim

theorem contestStep_admits_iff (h : contestStep updateOne s i p x = some (s', p')) :
    AdmitsEligible divisions s s' ↔ JoinsInDivision divisions s p x := by
  by_cases hp : ∃ slug userId pc, p = .join slug userId pc
  · obtain ⟨slug, userId, pc, rfl⟩ := hp
    exact join_admits_iff h
  · refine iff_of_true (admitsEligible_of_entrants (contestStep_entrants h ?_)) ?_
    · rintro slug userId pc rfl
      exact hp ⟨slug, userId, pc, rfl⟩
    · rintro slug id userId rfl
      exact (hp ⟨slug, userId, _, rfl⟩).elim

/-- In a run every entry is made for a user of the division exactly if the joins that get to their
insert come from users of the division. -/
theorem joined_eligible_iff (updateOne : RatingEngine) (divisions : String → Option String)
    (w₀ : World ContestDb ContestCall) (es : List (Event ContestRequest TableChange Outcome)) :
    (divisionMachine updateOne).Always
        (fun w _ w' => AdmitsEligible divisions w.shared w'.shared) w₀ es ↔
      (divisionMachine updateOne).Always
        (OnSteps fun s _ p x => JoinsInDivision divisions s p x) w₀ es := by
  apply Program.always_change_iff
  · exact fun s => admitsEligible_of_entrants fun _ => subset_rfl
  · intro s x
    cases x with
    | elapse | rate => exact admitsEligible_of_entrants fun _ => subset_rfl
  · intro s i p x s' p' h
    exact contestStep_admits_iff h

/-- A contest of the first division that nobody has entered yet. -/
def firstDivisionCup : World ContestDb ContestCall where
  shared := {
    db := { twoContests.shared with
      contests := fun slug => if slug = "spring-cup" then some ⟨"c1", "active", 0⟩ else none
      entries := ⟨[], .nil⟩ }
    entryIds := fun _ _ => 0
    nextId := 0
  }
  threads := []

def newcomerJoins : List (Event ContestRequest TableChange Outcome) :=
  [.spawn (.join "spring-cup" "u3"), .act 0 .proceed, .act 0 .proceed, .act 0 .proceed]

theorem newcomer_in_first_division :
    (divisionMachine newcomerEngine).init firstDivisionCup ∧
      (∃ w, (divisionMachine newcomerEngine).run firstDivisionCup newcomerJoins = some w ∧
        w.threads = [.join "spring-cup" "u3" (.returned ⟨201, .entry 0 0 none false⟩)]) ∧
      ¬(divisionMachine newcomerEngine).Always
        (fun w _ w' => AdmitsEligible (fun _ => some "div1") w.shared w'.shared)
        firstDivisionCup newcomerJoins := by
  refine ⟨⟨rfl, rfl⟩, ⟨_, rfl, rfl⟩, fun h => ?_⟩
  obtain ⟨u, v, hu, hv, hentry, hnone, hrating⟩ :
      ∃ u v, (divisionMachine newcomerEngine).run firstDivisionCup newcomerJoins.dropLast = some u ∧
        (divisionMachine newcomerEngine).step u (.act 0 .proceed) = some v ∧
        v.shared.db.entries.rows = [⟨"c1", "u3", 0, none, 0⟩] ∧ u.shared.db.entries.rows = [] ∧
        (u.shared.db.users "u3").rating = 1500 := ⟨_, _, rfl, rfl, rfl, rfl, rfl⟩
  have hin : "u3" ∈ v.shared.db.entrants "c1" :=
    ⟨_, hentry ▸ List.mem_cons_self, rfl, rfl⟩
  have hout : "u3" ∉ u.shared.db.entrants "c1" := by
    rintro ⟨e, he, -⟩
    rw [hnone] at he
    cases he
  have hlow := Machine.Always.last h hu hv "c1" "u3" hin hout
  rw [RatingDb.Eligible, hrating] at hlow
  revert hlow
  decide

end Leetrank
