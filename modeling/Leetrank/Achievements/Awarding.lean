import Leetrank.Achievements.Criteria
import Leetrank.Library.Threads

namespace Leetrank
set_option autoImplicit true

open EventMachine Threads

/-- The rows of all users, the database's clock, and how many runs have gathered statistics. -/
structure Badges where
  rows : UserAchievements
  now : Nat
  gathered : Nat
  now_pos : 0 < now

/-- The statistics a run has gathered for a user, numbered by when it did so. -/
structure Evaluation where
  user : String
  turn : Nat
  stats : UserStats

def Evaluation.Meets (e : Evaluation) (user : String) (a : Achievement) : Prop :=
  e.user = user ∧ a.MetBy e.stats

/-- Where a run of `evaluateAchievements` stands. -/
inductive EvalThread where
  | gathering (user : String)
  | reading (e : Evaluation)
  | awarding (e : Evaluation) (earnedIds : String → Bool) (rest : List Achievement)
      (newlyAwarded : List AwardedAchievement)
  | returned (e : Option Evaluation) (newlyAwarded : List AwardedAchievement)

inductive EvalEvent where
  -- no statistics where the user does not exist or a query has failed
  | gathered (stats : Option UserStats)
  | read (ok : Bool)
  | upsert (ok : Bool)
  | done

def Badges.upsert (s : Badges) (user id : String) (progress : Int) (earnedAt : Nat) : Badges :=
  { s with rows := s.rows.upsert user id progress earnedAt }

def evaluateStep (cat : AchievementCatalog) (s : Badges) (_ : Nat) :
    EvalThread → EvalEvent → Option (Badges × EvalThread)
  | .gathering _, .gathered none => some (s, .returned none [])
  | .gathering user, .gathered (some stats) =>
    some ({ s with gathered := s.gathered + 1 }, .reading ⟨user, s.gathered, stats⟩)
  | .reading e, .read true =>
    some (s, .awarding e (s.rows.earnedIds e.user) cat.achievements [])
  | .awarding e earnedIds (a :: rest) newlyAwarded, .upsert ok =>
    match visit e.stats earnedIds a with
    | .award progress =>
      if ok then
        some (s.upsert e.user a.id progress s.now,
          .awarding e earnedIds rest (newlyAwarded ++ [a.award]))
      else some (s, .returned (some e) [])
    | .track progress =>
      -- a failure to track progress is swallowed
      some (if ok then s.upsert e.user a.id progress epoch else s,
        .awarding e earnedIds rest newlyAwarded)
    | .keep => some (s, .awarding e earnedIds rest newlyAwarded)
  | .awarding e _ [] newlyAwarded, .done => some (s, .returned (some e) newlyAwarded)
  | .reading e, .read false => some (s, .returned (some e) [])
  | _, _ => none

/-- Any number of runs for any users, while time goes by. -/
def evaluateProgram (cat : AchievementCatalog) :
    Program Badges EvalThread String Nat EvalEvent where
  start := fun _ user => .gathering user
  ambient := fun s elapsed =>
    { s with now := s.now + elapsed, now_pos := Nat.add_pos_left s.now_pos elapsed }
  step := evaluateStep cat

def evaluateMachine (cat : AchievementCatalog) :
    Machine (World Badges EvalThread) (Event String Nat EvalEvent) :=
  (evaluateProgram cat).machine fun s => (∀ user id, s.rows user id = none) ∧ s.gathered = 0

def EvalThread.evaluation : EvalThread → Option Evaluation
  | .gathering _ => none
  | .reading e | .awarding e _ _ _ => some e
  | .returned e _ => e

def EvalThread.newlyAwarded : EvalThread → List AwardedAchievement
  | .gathering _ | .reading _ => []
  | .awarding _ _ _ newlyAwarded | .returned _ newlyAwarded => newlyAwarded

def EvalThread.hasReturned : EvalThread → Bool
  | .returned _ _ => true
  | _ => false

/-- What the runs have gathered, by the number of the run. -/
def evaluations (w : World Badges EvalThread) (i : Nat) : Option Evaluation :=
  w.threads[i]?.bind EvalThread.evaluation

/-- The run is the first one to have gathered statistics of the user that meet the criteria. -/
def FirstToMeet (ev : Nat → Option Evaluation) (user : String) (a : Achievement) (i : Nat) :
    Prop :=
  ∃ e, ev i = some e ∧ e.Meets user a ∧
    ∀ j e', ev j = some e' → e'.Meets user a → e.turn ≤ e'.turn

/-- The run has awarded the achievement to the user. -/
def EvalThread.Awards (p : EvalThread) (user : String) (a : Achievement) : Prop :=
  a.award ∈ p.newlyAwarded ∧ ∃ e, p.evaluation = some e ∧ e.user = user

/-- Each achievement is awarded by the first run whose statistics meet its criteria, by no other
run, and has a row with a real time ever after. -/
def AwardedOnce (cat : AchievementCatalog) (w : World Badges EvalThread) : Prop :=
  ∀ user, ∀ a ∈ cat.achievements, ∀ (i : Nat) (p : EvalThread), w.threads[i]? = some p →
    (FirstToMeet (evaluations w) user a i → p.hasReturned = true → p.Awards user a) ∧
    (p.Awards user a → FirstToMeet (evaluations w) user a i ∧ w.shared.rows.Earned user a.id ∧
      ∀ (j : Nat) (q : EvalThread), w.threads[j]? = some q → q.Awards user a → j = i)

/-- Statistics that meet the same criteria were gathered earlier, whatever they are. -/
def Preceded (cat : AchievementCatalog) (w : World Badges EvalThread) (e : Evaluation) : Prop :=
  ∀ a ∈ cat.achievements, a.MetBy e.stats →
    ∃ j e', evaluations w j = some e' ∧ e'.Meets e.user a ∧ e'.turn < e.turn

/-- A run reads no row that only tracks the progress of an achievement its statistics meet. When
it awards an achievement there is no row, and runs that gathered such statistics earlier are over.
And a query or the upsert of an award fails only in runs that come too late for every award. -/
def Undisturbed (cat : AchievementCatalog) (w : World Badges EvalThread) :
    EvalThread → EvalEvent → Prop
  | .reading e, .read ok =>
    if ok then
      ∀ a ∈ cat.achievements, a.MetBy e.stats →
        w.shared.rows e.user a.id = none ∨ w.shared.rows.Earned e.user a.id
    else Preceded cat w e
  | .awarding e earnedIds (a :: _) _, .upsert ok =>
    a.MetBy e.stats → earnedIds a.id = false →
      if ok then
        w.shared.rows e.user a.id = none ∧
          ∀ (j : Nat) (p : EvalThread) (e' : Evaluation), w.threads[j]? = some p →
            p.evaluation = some e' → e'.Meets e.user a → e'.turn < e.turn → p.hasReturned = true
      else Preceded cat w e
  | _, _ => True

def UndisturbedStep (cat : AchievementCatalog) (w : World Badges EvalThread)
    (ev : Event String Nat EvalEvent) (_ : World Badges EvalThread) : Prop :=
  ∀ i x p, ev = .act i x → w.threads[i]? = some p → Undisturbed cat w p x

/-- What a step of a run can do. -/
inductive EvalMove (cat : AchievementCatalog) (s : Badges) :
    EvalThread → EvalEvent → Badges → EvalThread → Prop where
  | absent (user : String) : EvalMove cat s (.gathering user) (.gathered none) s (.returned none [])
  | gather (user : String) (stats : UserStats) :
    EvalMove cat s (.gathering user) (.gathered (some stats))
      { s with gathered := s.gathered + 1 } (.reading ⟨user, s.gathered, stats⟩)
  | read (e : Evaluation) :
    EvalMove cat s (.reading e) (.read true) s
      (.awarding e (s.rows.earnedIds e.user) cat.achievements [])
  | unread (e : Evaluation) : EvalMove cat s (.reading e) (.read false) s (.returned (some e) [])
  | award (e : Evaluation) (ids : String → Bool) (a : Achievement) (rest : List Achievement)
    (l : List AwardedAchievement) (progress : Int) (hm : a.MetBy e.stats)
    (hid : ids a.id = false) :
    EvalMove cat s (.awarding e ids (a :: rest) l) (.upsert true)
      (s.upsert e.user a.id progress s.now) (.awarding e ids rest (l ++ [a.award]))
  | failed (e : Evaluation) (ids : String → Bool) (a : Achievement) (rest : List Achievement)
    (l : List AwardedAchievement) (hm : a.MetBy e.stats) (hid : ids a.id = false) :
    EvalMove cat s (.awarding e ids (a :: rest) l) (.upsert false) s (.returned (some e) [])
  | pass (e : Evaluation) (ids : String → Bool) (a : Achievement) (rest : List Achievement)
    (l : List AwardedAchievement) (ok : Bool) (s' : Badges)
    (hm : a.MetBy e.stats → ids a.id = true) (hg : s'.gathered = s.gathered)
    (hE : ∀ user id, s'.rows.Earned user id ↔ s.rows.Earned user id) :
    EvalMove cat s (.awarding e ids (a :: rest) l) (.upsert ok) s' (.awarding e ids rest l)
  | done (e : Evaluation) (ids : String → Bool) (l : List AwardedAchievement) :
    EvalMove cat s (.awarding e ids [] l) .done s (.returned (some e) l)

theorem evaluateStep_move (hs : evaluateStep cat s i p x = some (s', p')) :
    EvalMove cat s p x s' p' := by
  unfold evaluateStep at hs
  split at hs
  next user =>
    cases hs
    exact .absent user
  next user stats =>
    cases hs
    exact .gather user stats
  next e =>
    cases hs
    exact .read e
  next e ids a rest l ok =>
    split at hs
    next progress hv =>
      obtain ⟨hm, hid⟩ := visit_award hv
      split at hs
      next hok =>
        cases hs
        subst hok
        exact .award e ids a rest l progress hm hid
      next hok =>
        cases hs
        rw [Bool.not_eq_true] at hok
        subst hok
        exact .failed e ids a rest l hm hid
    next progress hv =>
      cases hs
      refine .pass e ids a rest l ok _ (visit_other (by rw [hv]; nofun)) ?_ fun user id => ?_
      · split <;> rfl
      · split
        · exact UserAchievements.earned_track ..
        · rfl
    next hv =>
      cases hs
      exact .pass e ids a rest l ok s (visit_other (by rw [hv]; nofun)) rfl fun _ _ => Iff.rfl
  next e ids l =>
    cases hs
    exact .done e ids l
  next e =>
    cases hs
    exact .unread e
  next => cases hs

/-- A run whose upserts succeed and that nothing interrupts goes through the loop at once. -/
theorem evaluateProgram_alone (cat : AchievementCatalog) (i : Nat) (s : Badges) (e : Evaluation)
    (ids : String → Bool) (rest : List Achievement) (l : List AwardedAchievement) :
    (evaluateProgram cat).alone i s (.awarding e ids rest l)
        (rest.map (fun _ => .upsert true) ++ [.done]) =
      some ({ s with rows := (awardLoop e.stats ids e.user s.now s.rows rest).1 },
        .returned (some e) (l ++ (awardLoop e.stats ids e.user s.now s.rows rest).2)) := by
  induction rest generalizing s l with
  | nil =>
    rw [awardLoop, List.append_nil]
    rfl
  | cons a rest ih =>
    rw [List.map_cons, List.cons_append]
    cases hv : visit e.stats ids a with
    | award progress =>
      have hstep : (evaluateProgram cat).step s i (.awarding e ids (a :: rest) l) (.upsert true) =
          some (s.upsert e.user a.id progress s.now, .awarding e ids rest (l ++ [a.award])) := by
        simp only [evaluateProgram, evaluateStep, hv, if_true]
      rw [Program.alone_cons hstep, ih, awardLoop, hv, List.append_assoc]
      rfl
    | track progress =>
      have hstep : (evaluateProgram cat).step s i (.awarding e ids (a :: rest) l) (.upsert true) =
          some (s.upsert e.user a.id progress epoch, .awarding e ids rest l) := by
        simp only [evaluateProgram, evaluateStep, hv, if_true]
      rw [Program.alone_cons hstep, ih, awardLoop, hv]
      rfl
    | keep =>
      have hstep : (evaluateProgram cat).step s i (.awarding e ids (a :: rest) l) (.upsert true) =
          some (s, .awarding e ids rest l) := by
        simp only [evaluateProgram, evaluateStep, hv]
      rw [Program.alone_cons hstep, ih, awardLoop, hv]

end Leetrank
