import Mathlib.Data.List.Sort
import Leetrank.Achievements.AwardedOnce

namespace Leetrank
set_option autoImplicit true

open EventMachine Threads

/-- A row of the `Achievement` table with the columns that only the listing reads. -/
structure AchievementRow extends Achievement where
  description : String
  category : String
  isHidden : Bool

def AchievementRow.listedBefore (a b : AchievementRow) : Bool :=
  a.category < b.category ∨ a.category = b.category ∧ a.points ≤ b.points

structure AchievementTable where
  rows : List AchievementRow
  ids : (rows.map fun a => a.id).Nodup
  slugs : (rows.map fun a => a.slug).Nodup

/-- The columns of the table that `evaluateAchievements` reads. -/
def AchievementTable.catalog (table : AchievementTable) : AchievementCatalog where
  achievements := table.rows.map AchievementRow.toAchievement
  ids := by
    rw [List.map_map]
    exact table.ids
  slugs := by
    rw [List.map_map]
    exact table.slugs

structure ListedAchievement where
  id : String
  slug : String
  title : String
  description : String
  icon : String
  category : String
  points : Int
  isHidden : Bool
  earned : Bool
  earnedAt : Option Nat
  progress : Int

/-- The totals over the items that are earned. -/
structure ListedTotals where
  earnedCount : Nat
  points : Int

structure AchievementList where
  items : List ListedAchievement
  totals : ListedTotals
  total : Nat

/-- The `earnedAt` of a row, unless it is the sentinel of a row that only tracks progress. -/
def UserAchievement.realEarnedAt (u : UserAchievement) : Option Nat :=
  if u.earnedAt = epoch then none else some u.earnedAt

def listItem (earnedMap : String → Option UserAchievement) (a : AchievementRow) :
    ListedAchievement :=
  let u := earnedMap a.id
  let earnedAt := u.bind UserAchievement.realEarnedAt
  { id := a.id, slug := a.slug, title := a.title, description := a.description, icon := a.icon,
    category := a.category, points := a.points, isHidden := a.isHidden,
    earned := earnedAt.isSome, earnedAt := earnedAt, progress := (u.map (·.progress)).getD 0 }

def ListedTotals.add (acc : ListedTotals) (item : ListedAchievement) : ListedTotals :=
  if item.earned then ⟨acc.earnedCount + 1, acc.points + item.points⟩ else acc

/-- What `GET /api/achievements` answers to a caller, who may not be logged in. -/
def listAchievements (table : AchievementTable) (rows : UserAchievements)
    (userId : Option String) : AchievementList :=
  let earnedMap : String → Option UserAchievement := fun id => userId.bind (rows · id)
  let items := ((table.rows.mergeSort AchievementRow.listedBefore).filter
    fun a => !a.isHidden || (earnedMap a.id).isSome).map (listItem earnedMap)
  ⟨items, items.foldl ListedTotals.add ⟨0, 0⟩, items.length⟩

/-- The listing contains the achievement. -/
def AchievementList.Shows (l : AchievementList) (id : String) : Prop :=
  ∃ item ∈ l.items, item.id = id

/-- Some run has gathered statistics of the user that meet the criteria. -/
def MetBefore (w : World Badges EvalThread) (user : String) (a : Achievement) : Prop :=
  ∃ i e, evaluations w i = some e ∧ e.Meets user a

/-- No user is shown a hidden achievement whose criteria were never satisfied at a run. -/
def HiddenUntilMet (table : AchievementTable) (w : World Badges EvalThread) : Prop :=
  ∀ user, ∀ a ∈ table.rows, a.isHidden = true →
    (listAchievements table w.shared.rows (some user)).Shows a.id →
      MetBefore w user a.toAchievement

/-- The achievement whose row a step writes, and the statistics it does so for. -/
def EvalThread.writes : EvalThread → EvalEvent → Option (Evaluation × Achievement)
  | .awarding e earnedIds (a :: _) _, .upsert true =>
    match visit e.stats earnedIds a with
    | .keep => none
    | _ => some (e, a)
  | _, _ => none

/-- A step that writes the row of a hidden achievement does so with statistics that meet it, or for
a user who has met it before. -/
def TracksMet (table : AchievementTable) (w : World Badges EvalThread) (p : EvalThread)
    (x : EvalEvent) : Prop :=
  ∀ e, ∀ a ∈ table.rows, p.writes x = some (e, a.toAchievement) → a.isHidden = true →
    ¬a.MetBy e.stats → MetBefore w e.user a.toAchievement

def TracksMetStep (table : AchievementTable) (w : World Badges EvalThread)
    (ev : Event String Nat EvalEvent) (_ : World Badges EvalThread) : Prop :=
  ∀ i x p, ev = .act i x → w.threads[i]? = some p → TracksMet table w p x

variable {table : AchievementTable} {w w' : World Badges EvalThread} {a : AchievementRow}
  {user id : String} {rows : UserAchievements}

/-- A hidden achievement is listed as soon as there is a row, whatever the row says. -/
theorem shows_hidden_iff (ha : a ∈ table.rows) (hh : a.isHidden = true) :
    (listAchievements table rows (some user)).Shows a.id ↔ (rows user a.id).isSome = true := by
  constructor
  · rintro ⟨item, hitem, hid⟩
    obtain ⟨b, hb, rfl⟩ := List.mem_map.1 hitem
    rw [List.mem_filter, List.mem_mergeSort] at hb
    have hba : b = a := List.inj_on_of_nodup_map table.ids hb.1 ha hid
    subst hba
    simpa [hh] using hb.2
  · intro hrow
    refine ⟨_, List.mem_map_of_mem (List.mem_filter.2 ⟨List.mem_mergeSort.2 ha, ?_⟩), rfl⟩
    simpa [hh] using hrow

theorem UserAchievements.isSome_upsert :
    (rows.upsert user id progress earnedAt user' id').isSome = true ↔
      (rows user' id').isSome = true ∨ user = user' ∧ id = id' := by
  by_cases h : user' ≠ user ∨ id' ≠ id
  · have hne : ¬(user = user' ∧ id = id') := by
      rintro ⟨rfl, rfl⟩
      exact h.elim (· rfl) (· rfl)
    rw [UserAchievements.upsert_of_ne h, or_iff_left hne]
  · rw [not_or, not_not, not_not] at h
    obtain ⟨rfl, rfl⟩ := h
    simp only [UserAchievements.upsert, Function.update_self, Option.isSome_some, and_self, or_true]

theorem evaluateStep_rows (hs : evaluateStep cat s i p x = some (s', p')) :
    (s'.rows user id).isSome = true ↔ (s.rows user id).isSome = true ∨
      ∃ e a, p.writes x = some (e, a) ∧ e.user = user ∧ a.id = id := by
  have hkeep (hw : p.writes x = none) : (s.rows user id).isSome = true ↔
      (s.rows user id).isSome = true ∨
        ∃ e a, p.writes x = some (e, a) ∧ e.user = user ∧ a.id = id := by
    rw [hw]
    simp
  have hwrite (e : Evaluation) (a : Achievement) (progress : Int) (earnedAt : Nat)
      (hw : p.writes x = some (e, a)) :
      ((s.rows.upsert e.user a.id progress earnedAt) user id).isSome = true ↔
        (s.rows user id).isSome = true ∨
          ∃ e a, p.writes x = some (e, a) ∧ e.user = user ∧ a.id = id := by
    rw [UserAchievements.isSome_upsert, hw]
    simp
  unfold evaluateStep at hs
  split at hs
  next user =>
    cases hs
    exact hkeep rfl
  next user stats =>
    cases hs
    exact hkeep rfl
  next e =>
    cases hs
    exact hkeep rfl
  next e ids a rest l ok =>
    split at hs
    next progress hv =>
      split at hs
      next hok =>
        cases hs
        subst hok
        exact hwrite e a progress s.now (by simp only [EvalThread.writes, hv])
      next hok =>
        cases hs
        rw [Bool.not_eq_true] at hok
        subst hok
        exact hkeep rfl
    next progress hv =>
      cases hs
      cases ok with
      | true => exact hwrite e a progress epoch (by simp only [EvalThread.writes, hv])
      | false => exact hkeep rfl
    next hv =>
      cases hs
      cases ok with
      | true => exact hkeep (by simp only [EvalThread.writes, hv])
      | false => exact hkeep rfl
  next e ids l =>
    cases hs
    exact hkeep rfl
  next e =>
    cases hs
    exact hkeep rfl
  next => cases hs

/-- A step that writes a row goes on with the same statistics. -/
theorem EvalThread.writes_some (hw : EvalThread.writes p x = some (e, b)) :
    p.evaluation = some e ∧ b ∈ p.rest := by
  unfold EvalThread.writes at hw
  split at hw
  next e ids a rest l =>
    split at hw
    next => cases hw
    next =>
      cases hw
      exact ⟨rfl, List.mem_cons_self⟩
  next => cases hw

/-- What has been gathered stays. -/
theorem MetBefore.next {b : Achievement}
    (hs : (evaluateMachine cat).step w ev = some w') (h : MetBefore w user b) :
    MetBefore w' user b := by
  obtain ⟨i, e, he, hm⟩ := h
  cases ev with
  | spawn user' =>
    cases hs
    refine ⟨i, e, ?_, hm⟩
    rw [evaluations_spawn]
    exact he
  | ambient elapsed =>
    cases hs
    exact ⟨i, e, he, hm⟩
  | act j x =>
    obtain ⟨p, s', p', hj, hstep, rfl⟩ := Program.next_act hs
    refine ⟨i, e, ?_, hm⟩
    rcases (evaluateStep_move (i := j) hstep).turn with ⟨hsame, -⟩ | ⟨hnone, -, -⟩
    · rw [evaluations_set_same hj hsame]
      exact he
    · have hij : i ≠ j := by
        rintro rfl
        rw [evaluations_of_some hj, hnone] at he
        cases he
      rw [evaluations_set hj, Function.update_of_ne hij]
      exact he

theorem TracksMetStep.act {p : EvalThread} (hp : w.threads[i]? = some p)
    (h : TracksMet table w p x) :
    TracksMetStep table w (.act i x) w' := by
  intro j y q he hq
  cases he
  rw [hp] at hq
  cases hq
  exact h

/-- A step keeps the hidden achievements hidden exactly if it tracks no progress towards one that
its user has never met. -/
theorem hiddenUntilMet_step (hT : TurnInv table.catalog w) (hw : HiddenUntilMet table w)
    (hs : (evaluateMachine table.catalog).step w ev = some w') :
    HiddenUntilMet table w' ↔ TracksMetStep table w ev w' := by
  have hold (hrows : w'.shared.rows = w.shared.rows) : HiddenUntilMet table w' := by
    intro user a ha hh hshow
    rw [hrows] at hshow
    exact (hw user a ha hh hshow).next hs
  cases ev with
  | spawn user' =>
    refine iff_of_true (hold ?_) fun i x p he => nomatch he
    cases hs
    rfl
  | ambient elapsed =>
    refine iff_of_true (hold ?_) fun i x p he => nomatch he
    cases hs
    rfl
  | act j x =>
    obtain ⟨p, s', p', hj, hstep, rfl⟩ := Program.next_act hs
    have hrow (user id : String) : (s'.rows user id).isSome = true ↔
        (w.shared.rows user id).isSome = true ∨
          ∃ e a, p.writes x = some (e, a) ∧ e.user = user ∧ a.id = id :=
      evaluateStep_rows (i := j) hstep
    constructor
    · intro h
      refine TracksMetStep.act hj fun e a ha hwrite hh _ => ?_
      have hmet : MetBefore ⟨s', w.threads.set j p'⟩ e.user a.toAchievement := by
        refine h e.user a ha hh ((shows_hidden_iff ha hh).2 ?_)
        exact (hrow e.user a.id).2 (.inr ⟨e, _, hwrite, rfl, rfl⟩)
      obtain ⟨he, -⟩ := EvalThread.writes_some hwrite
      rcases (evaluateStep_move (i := j) hstep).turn with ⟨hsame, -⟩ | ⟨hnone, -, -⟩
      · rw [MetBefore, evaluations_set_same hj hsame] at hmet
        exact hmet
      · rw [hnone] at he
        cases he
    · intro hC user a ha hh hshow
      rcases (hrow user a.id).1 ((shows_hidden_iff ha hh).1 hshow) with
        hsome | ⟨e, b, hwrite, rfl, hid⟩
      · exact (hw user a ha hh ((shows_hidden_iff ha hh).2 hsome)).next hs
      · obtain ⟨he, hb⟩ := EvalThread.writes_some hwrite
        obtain ⟨c, hc, rfl⟩ := List.mem_map.1 (hT.rest j p hj hb)
        have hca : c = a := List.inj_on_of_nodup_map table.ids hc ha hid
        subst hca
        by_cases hm : c.MetBy e.stats
        · have hown : MetBefore w e.user c.toAchievement :=
            ⟨j, e, (evaluations_of_some hj).trans he, rfl, hm⟩
          exact hown.next hs
        · exact (hC j x p rfl hj e c hc hwrite hh hm).next hs

/-- In every run hidden achievements stay hidden exactly if no step tracks the progress of one
towards which its user has never been. -/
theorem hidden_until_met_iff {es : List (Event String Nat EvalEvent)}
    {w₀ : World Badges EvalThread} (h₀ : (evaluateMachine table.catalog).init w₀) :
    (evaluateMachine table.catalog).Always (fun _ _ w => HiddenUntilMet table w) w₀ es ↔
      (evaluateMachine table.catalog).Always (TracksMetStep table) w₀ es := by
  have hT : TurnInv table.catalog w₀ := turnInv_init h₀
  have hw : HiddenUntilMet table w₀ := by
    intro user a ha hh hshow
    have hrow := (shows_hidden_iff ha hh).1 hshow
    rw [h₀.1.1] at hrow
    cases hrow
  exact (turnInv_invariant table.catalog).always_state_iff hT hw
    fun _ _ _ hT hw hs => hiddenUntilMet_step hT hw hs

/-- The table of the runs below: its one achievement is hidden. -/
def hiddenSolver : AchievementTable where
  rows := [⟨⟨"c1", "solver", "Solver", "star", 10, .problemsSolved 2⟩, "Solve two problems",
    "solving", true⟩]
  ids := List.nodup_singleton _
  slugs := List.nodup_singleton _

theorem hidden_until_met_earned :
    (evaluateMachine hiddenSolver.catalog).Always (fun _ _ w => HiddenUntilMet hiddenSolver w)
      noBadges (evaluateRun 0 2 ++ evaluateRun 1 1) := by
  refine (hidden_until_met_iff ⟨⟨fun _ _ => rfl, rfl⟩, rfl⟩).2 ?_
  have hmet (e : Evaluation) (a : AchievementRow) (ha : a ∈ hiddenSolver.rows)
      (he : e.stats = solved 2) (hm : ¬a.MetBy e.stats) : False := by
    rw [List.mem_singleton.1 ha, he] at hm
    exact hm (by decide)
  refine Machine.always_cons rfl (fun _ _ _ he => nomatch he) ?_
  refine Machine.always_cons rfl (TracksMetStep.act rfl fun _ _ _ h => nomatch h) ?_
  refine Machine.always_cons rfl (TracksMetStep.act rfl fun _ _ _ h => nomatch h) ?_
  refine Machine.always_cons rfl (TracksMetStep.act rfl fun e a ha h _ hm => ?_) ?_
  · cases (EvalThread.writes_some h).1
    exact (hmet _ a ha rfl hm).elim
  refine Machine.always_cons rfl (TracksMetStep.act rfl fun _ _ _ h => nomatch h) ?_
  refine Machine.always_cons rfl (fun _ _ _ he => nomatch he) ?_
  refine Machine.always_cons rfl (TracksMetStep.act rfl fun _ _ _ h => nomatch h) ?_
  refine Machine.always_cons rfl (TracksMetStep.act rfl fun _ _ _ h => nomatch h) ?_
  refine Machine.always_cons rfl (TracksMetStep.act rfl fun e a ha h _ _ => ?_) ?_
  · cases (EvalThread.writes_some h).1
    rw [List.mem_singleton.1 ha]
    exact ⟨0, _, rfl, rfl, by decide⟩
  exact Machine.always_cons rfl (TracksMetStep.act rfl fun _ _ _ h => nomatch h) trivial

/-- A run that tracks progress towards a hidden achievement gives it away. -/
theorem hidden_listed_unmet :
    ∃ w, (evaluateMachine hiddenSolver.catalog).run noBadges (evaluateRun 0 1) = some w ∧
      (listAchievements hiddenSolver w.shared.rows (some "u")).Shows "c1" ∧
      (¬∃ a ∈ hiddenSolver.rows, MetBefore w "u" a.toAchievement) ∧
      ¬HiddenUntilMet hiddenSolver w := by
  have hrun : ∃ w, (evaluateMachine hiddenSolver.catalog).run noBadges (evaluateRun 0 1) =
      some w ∧ w.threads = [.returned (some ⟨"u", 0, solved 1⟩) []] ∧
      (w.shared.rows "u" "c1").isSome = true := ⟨_, rfl, rfl, rfl⟩
  obtain ⟨w, hr, hthreads, hrow⟩ := hrun
  have hshows (a : AchievementRow) (ha : a ∈ hiddenSolver.rows) (hh : a.isHidden = true) :
      (w.shared.rows "u" a.id).isSome = true →
        (listAchievements hiddenSolver w.shared.rows (some "u")).Shows a.id :=
    (shows_hidden_iff ha hh).2
  have hshow := hshows _ List.mem_cons_self rfl hrow
  have hmet : ¬∃ a ∈ hiddenSolver.rows, MetBefore w "u" a.toAchievement := by
    rintro ⟨a, ha, i, e, he, -, hm⟩
    rw [evaluations, hthreads] at he
    rw [List.mem_singleton.1 ha] at hm
    cases i with
    | zero =>
      cases he
      exact absurd hm (by decide)
    | succ i => cases he
  refine ⟨w, hr, hshow, hmet, fun h => hmet ⟨_, List.mem_cons_self, ?_⟩⟩
  exact h "u" _ List.mem_cons_self rfl hshow

end Leetrank
