import Leetrank.Achievements.Awarding

namespace Leetrank
set_option autoImplicit true

open EventMachine Threads

variable {cat : AchievementCatalog} {w w' w₀ : World Badges EvalThread} {s' : Badges}
  {ev : Nat → Option Evaluation} {user : String} {a : Achievement} {p p' : EvalThread} {i j : Nat}

/-- The iterations of the loop that a run has yet to make. -/
def EvalThread.rest : EvalThread → List Achievement
  | .awarding _ _ rest _ => rest
  | _ => []

/-- The run has yet to come to the achievement, and will not take it for one that is earned. -/
def EvalThread.Pending : EvalThread → Achievement → Prop
  | .reading _, _ => True
  | .awarding _ earnedIds rest _, a => a ∈ rest ∧ earnedIds a.id = false
  | _, _ => False

/-- Runs gather one after the other, and loop over the catalog. -/
structure TurnInv (cat : AchievementCatalog) (w : World Badges EvalThread) : Prop where
  turns : ∀ i e, evaluations w i = some e → e.turn < w.shared.gathered
  distinct : ∀ i j e e', evaluations w i = some e → evaluations w j = some e' →
    e.turn = e'.turn → i = j
  rest : ∀ (i : Nat) (p : EvalThread), w.threads[i]? = some p → p.rest ⊆ cat.achievements

/-- The row of an achievement is real exactly if a run has awarded it; that run was the first one
to meet it, and the first one to meet it has awarded it or is going to. -/
structure AwardInv (user : String) (a : Achievement) (w : World Badges EvalThread) : Prop where
  earned : w.shared.rows.Earned user a.id →
    ∃ (i : Nat) (p : EvalThread), w.threads[i]? = some p ∧ p.Awards user a
  awarded : ∀ (i : Nat) (p : EvalThread), w.threads[i]? = some p → p.Awards user a →
    w.shared.rows.Earned user a.id ∧ FirstToMeet (evaluations w) user a i
  pending : ∀ (i : Nat) (p : EvalThread), w.threads[i]? = some p →
    FirstToMeet (evaluations w) user a i → p.Pending a ∨ p.Awards user a

theorem exists_firstToMeet (hj : ev j = some e) (hm : e.Meets user a) :
    ∃ i e', ev i = some e' ∧ e'.turn ≤ e.turn ∧ FirstToMeet ev user a i := by
  induction hn : e.turn using Nat.strongRecOn generalizing j e with
  | ind n ih =>
    by_cases hmin : ∃ k e', ev k = some e' ∧ e'.Meets user a ∧ e'.turn < n
    · obtain ⟨k, e', hk, hm', hlt⟩ := hmin
      obtain ⟨i, e₁, hi, hle, hfirst⟩ := ih e'.turn hlt hk hm' rfl
      exact ⟨i, e₁, hi, Nat.le_trans hle (Nat.le_of_lt hlt), hfirst⟩
    · refine ⟨j, e, hj, Nat.le_of_eq hn, e, hj, hm, fun k e' hk hm' => ?_⟩
      by_contra hlt
      exact hmin ⟨k, e', hk, hm', hn ▸ Nat.lt_of_not_le hlt⟩

theorem FirstToMeet.unique (hi : FirstToMeet (evaluations w) user a i)
    (hj : FirstToMeet (evaluations w) user a j) (hT : TurnInv cat w) : i = j := by
  obtain ⟨e, he, hm, hmin⟩ := hi
  obtain ⟨e', he', hm', hmin'⟩ := hj
  exact hT.distinct i j e e' he he' (Nat.le_antisymm (hmin j e' he' hm') (hmin' i e he hm))

/-- Statistics gathered later do not change which run was the first. -/
theorem firstToMeet_update (hj : ev j = none) (hturn : ∀ i e, ev i = some e → e.turn < e₁.turn)
    (hij : i ≠ j) :
    FirstToMeet (Function.update ev j (some e₁)) user a i ↔ FirstToMeet ev user a i := by
  constructor
  · rintro ⟨e, he, hm, hmin⟩
    rw [Function.update_of_ne hij] at he
    refine ⟨e, he, hm, fun k e' hk => hmin k e' ?_⟩
    have hkj : k ≠ j := by
      rintro rfl
      rw [hj] at hk
      cases hk
    rw [Function.update_of_ne hkj]
    exact hk
  · rintro ⟨e, he, hm, hmin⟩
    refine ⟨e, (Function.update_of_ne hij ..).trans he, hm, fun k e' hk hm' => ?_⟩
    by_cases hkj : k = j
    · subst hkj
      rw [Function.update_self] at hk
      cases hk
      exact Nat.le_of_lt (hturn i e he)
    · rw [Function.update_of_ne hkj] at hk
      exact hmin k e' hk hm'

theorem evaluations_of_some (hi : w.threads[i]? = some p) : evaluations w i = p.evaluation := by
  rw [evaluations, hi]
  rfl

theorem evaluations_set (hj : w.threads[j]? = some p) :
    evaluations ⟨s', w.threads.set j p'⟩ = Function.update (evaluations w) j p'.evaluation := by
  funext i
  by_cases hij : i = j
  · subst hij
    rw [Function.update_self]
    exact evaluations_of_some (List.getElem?_set_self (World.lt_length hj))
  · rw [Function.update_of_ne hij, evaluations, evaluations]
    exact congrArg (·.bind EvalThread.evaluation) (List.getElem?_set_ne (Ne.symm hij))

theorem evaluations_set_same (hj : w.threads[j]? = some p) (he : p'.evaluation = p.evaluation) :
    evaluations ⟨s', w.threads.set j p'⟩ = evaluations w := by
  rw [evaluations_set hj, he, ← evaluations_of_some hj, Function.update_eq_self]

/-- A thread that has just been started has gathered nothing. -/
theorem thread_spawn (hi : (w.threads ++ [.gathering user])[i]? = some q) :
    w.threads[i]? = some q ∨ evaluations w i = none ∧ q = .gathering user := by
  by_cases hlt : i < w.threads.length
  · rw [List.getElem?_append_left hlt] at hi
    exact .inl hi
  · rw [List.getElem?_append_right (Nat.le_of_not_lt hlt)] at hi
    refine .inr ⟨?_, List.mem_singleton.1 (List.mem_of_getElem? hi)⟩
    rw [evaluations, List.getElem?_eq_none (Nat.le_of_not_lt hlt)]
    rfl

theorem evaluations_spawn (cat : AchievementCatalog) (w : World Badges EvalThread)
    (user : String) :
    evaluations ⟨w.shared, w.threads ++ [(evaluateProgram cat).start w.shared user]⟩ =
      evaluations w := by
  funext i
  rw [evaluations]
  cases hi : (w.threads ++ [.gathering user])[i]? with
  | none =>
    have hnone : w.threads[i]? = none := by
      rw [List.getElem?_eq_none_iff, List.length_append] at hi
      exact List.getElem?_eq_none (Nat.le_of_add_right_le hi)
    rw [evaluations, hnone]
    exact congrArg (·.bind EvalThread.evaluation) hi
  | some q =>
    refine (congrArg (·.bind EvalThread.evaluation) hi).trans ?_
    rcases thread_spawn hi with hi | ⟨hnone, rfl⟩
    · exact (evaluations_of_some hi).symm
    · exact hnone.symm

theorem AwardInv.keep (hw : AwardInv user a w) (hj : w.threads[j]? = some p)
    (he : p'.evaluation = p.evaluation)
    (hE : s'.rows.Earned user a.id ↔ w.shared.rows.Earned user a.id)
    (hA : p'.Awards user a ↔ p.Awards user a)
    (hP : FirstToMeet (evaluations w) user a j → p.Pending a → p'.Pending a ∨ p'.Awards user a) :
    AwardInv user a ⟨s', w.threads.set j p'⟩ := by
  refine ⟨fun h => ?_, fun i q hi hq => ?_, fun i q hi hq => ?_⟩
  · obtain ⟨i, q, hi, hq⟩ := hw.earned (hE.1 h)
    by_cases hij : i = j
    · subst hij
      rw [hj] at hi
      cases hi
      exact ⟨i, p', List.getElem?_set_self (World.lt_length hj), hA.2 hq⟩
    · exact ⟨i, q, (List.getElem?_set_ne (Ne.symm hij)).trans hi, hq⟩
  · rw [evaluations_set_same hj he]
    rcases World.set_cases hj hi with ⟨rfl, rfl⟩ | ⟨-, hi⟩
    · exact (hw.awarded i p hj (hA.1 hq)).imp_left hE.2
    · exact (hw.awarded i q hi hq).imp_left hE.2
  · rw [evaluations_set_same hj he] at hq
    rcases World.set_cases hj hi with ⟨rfl, rfl⟩ | ⟨-, hi⟩
    · exact (hw.pending i p hj hq).elim (hP hq) fun h => .inr (hA.2 h)
    · exact hw.pending i q hi hq

theorem EvalMove.turn (hm : EvalMove cat s p x s' p') :
    p'.evaluation = p.evaluation ∧ s'.gathered = s.gathered ∨
      p.evaluation = none ∧ s'.gathered = s.gathered + 1 ∧
        ∃ e, p'.evaluation = some e ∧ e.turn = s.gathered := by
  cases hm with
  | gather user stats => exact .inr ⟨rfl, rfl, _, rfl, rfl⟩
  | pass e ids a rest l ok s' hm hg hE => exact .inl ⟨rfl, hg⟩
  | absent | read | unread | award | failed | done => exact .inl ⟨rfl, rfl⟩

theorem EvalMove.rest_subset (hm : EvalMove cat s p x s' p') (h : p.rest ⊆ cat.achievements) :
    p'.rest ⊆ cat.achievements := by
  cases hm with
  | read e => exact List.Subset.refl _
  | award | pass => exact fun _ hb => h (List.mem_cons_of_mem _ hb)
  | absent | gather | unread | failed | done => exact List.nil_subset _

theorem TurnInv.spawn (hw : TurnInv cat w) (user : String) :
    TurnInv cat ⟨w.shared, w.threads ++ [(evaluateProgram cat).start w.shared user]⟩ := by
  refine ⟨?_, ?_, fun i p hi => ?_⟩
  · rw [evaluations_spawn]
    exact hw.turns
  · rw [evaluations_spawn]
    exact hw.distinct
  · rcases thread_spawn hi with hi | ⟨-, rfl⟩
    · exact hw.rest i p hi
    · exact List.nil_subset _

/-- A new number is above all those given out before. -/
theorem TurnInv.cases_update (hw : TurnInv cat w) (hturn : e₁.turn = w.shared.gathered)
    (hi : Function.update (evaluations w) j (some e₁) i = some e) :
    i = j ∧ e = e₁ ∨ i ≠ j ∧ evaluations w i = some e ∧ e.turn < e₁.turn := by
  by_cases hij : i = j
  · subst hij
    rw [Function.update_self] at hi
    cases hi
    exact .inl ⟨rfl, rfl⟩
  · rw [Function.update_of_ne hij] at hi
    exact .inr ⟨hij, hi, hturn ▸ hw.turns i e hi⟩

theorem TurnInv.act (hw : TurnInv cat w) (hj : w.threads[j]? = some p)
    (hm : EvalMove cat w.shared p x s' p') : TurnInv cat ⟨s', w.threads.set j p'⟩ := by
  have hrest (i : Nat) (q : EvalThread) (hi : (w.threads.set j p')[i]? = some q) :
      q.rest ⊆ cat.achievements := by
    rcases World.set_cases hj hi with ⟨rfl, rfl⟩ | ⟨-, hi⟩
    · exact hm.rest_subset (hw.rest i p hj)
    · exact hw.rest i q hi
  rcases hm.turn with ⟨he, hg⟩ | ⟨hnone, hg, e₁, he, hturn⟩
  · refine ⟨?_, ?_, hrest⟩
    · rw [evaluations_set_same hj he, hg]
      exact hw.turns
    · rw [evaluations_set_same hj he]
      exact hw.distinct
  · refine ⟨fun i e hi => ?_, fun i k e e' hi hk heq => ?_, hrest⟩
    · rw [evaluations_set hj, he] at hi
      rw [hg]
      rcases hw.cases_update hturn hi with ⟨-, rfl⟩ | ⟨-, -, h⟩
      · exact Nat.lt_succ_of_le (Nat.le_of_eq hturn)
      · exact Nat.lt_succ_of_lt (hturn ▸ h)
    · rw [evaluations_set hj, he] at hi hk
      rcases hw.cases_update hturn hi with ⟨rfl, rfl⟩ | ⟨-, hi, h⟩
      · rcases hw.cases_update hturn hk with ⟨rfl, -⟩ | ⟨-, -, h'⟩
        · rfl
        · exact absurd heq (Nat.ne_of_gt h')
      · rcases hw.cases_update hturn hk with ⟨-, rfl⟩ | ⟨-, hk, -⟩
        · exact absurd heq (Nat.ne_of_lt h)
        · exact hw.distinct i k e e' hi hk heq

theorem turnInv_invariant (cat : AchievementCatalog) :
    (evaluateMachine cat).Invariant (TurnInv cat) := by
  rintro w e w' hw hs -
  cases e with
  | spawn user =>
    cases hs
    exact hw.spawn user
  | ambient elapsed =>
    cases hs
    exact ⟨hw.turns, hw.distinct, hw.rest⟩
  | act j x =>
    obtain ⟨p, s', p', hj, hstep, rfl⟩ := Program.next_act hs
    exact hw.act hj (evaluateStep_move (i := j) hstep)

theorem FirstToMeet.meets (h : FirstToMeet ev user a j) (hj : ev j = some e) :
    e.Meets user a ∧ ∀ k e', ev k = some e' → e'.Meets user a → e.turn ≤ e'.turn := by
  obtain ⟨e₁, he₁, hm⟩ := h
  rw [hj] at he₁
  cases he₁
  exact hm

theorem Preceded.not_first (h : Preceded cat w e) (ha : a ∈ cat.achievements)
    (hj : evaluations w j = some e) : ¬FirstToMeet (evaluations w) e.user a j := by
  intro hf
  obtain ⟨hm, hmin⟩ := hf.meets hj
  obtain ⟨k, e', hk, hm', hlt⟩ := h a ha hm.2
  exact absurd (hmin k e' hk hm') (Nat.not_le_of_lt hlt)

/-- A run that comes too late for every award does not have one. -/
theorem AwardInv.not_awards (hw : AwardInv user a w) (ha : a ∈ cat.achievements)
    (hj : w.threads[j]? = some p) (he : p.evaluation = some e) (h : Preceded cat w e) :
    ¬FirstToMeet (evaluations w) user a j ∧ ¬p.Awards user a := by
  have hev : evaluations w j = some e := (evaluations_of_some hj).trans he
  have hfirst : ¬FirstToMeet (evaluations w) user a j := by
    intro hf
    have huser : e.user = user := (hf.meets hev).1.1
    exact h.not_first ha hev (huser.symm ▸ hf)
  exact ⟨hfirst, fun hA => hfirst (hw.awarded j p hj hA).2⟩

/-- The run that awards the achievement undisturbed is the first one to have met it. -/
theorem AwardInv.first_of_award (hw : AwardInv e.user a w) (hj : w.threads[j]? = some p)
    (he : p.evaluation = some e) (hm : a.MetBy e.stats)
    (hrow : w.shared.rows e.user a.id = none)
    (hover : ∀ (k : Nat) (q : EvalThread) (e' : Evaluation), w.threads[k]? = some q →
      q.evaluation = some e' → e'.Meets e.user a → e'.turn < e.turn → q.hasReturned = true) :
    FirstToMeet (evaluations w) e.user a j := by
  have hev : evaluations w j = some e := (evaluations_of_some hj).trans he
  obtain ⟨i, e', hi, hle, hfirst⟩ := exists_firstToMeet hev ⟨rfl, hm⟩
  obtain ⟨q, hq, hqe⟩ := Option.bind_eq_some_iff.1 hi
  obtain ⟨hm', hmin⟩ := hfirst.meets hi
  by_cases hlt : e'.turn < e.turn
  · have hret := hover i q e' hq hqe hm' hlt
    -- the first run is over, so it has awarded the achievement, and the row exists
    rcases hw.pending i q hq hfirst with hp | hA
    · cases q with
      | gathering | reading | awarding => cases hret
      | returned => exact hp.elim
    · obtain ⟨row, hr, -⟩ := (hw.awarded i q hq hA).1
      rw [hrow] at hr
      cases hr
  · have heq : e'.turn = e.turn := Nat.le_antisymm hle (Nat.le_of_not_lt hlt)
    exact ⟨e, hev, ⟨rfl, hm⟩, fun k e₂ hk hm₂ => heq ▸ hmin k e₂ hk hm₂⟩

theorem AwardInv.gather (hw : AwardInv user a w) (hT : TurnInv cat w)
    (hj : w.threads[j]? = some (.gathering user')) (stats : UserStats) :
    AwardInv user a ⟨{ w.shared with gathered := w.shared.gathered + 1 },
      w.threads.set j (.reading ⟨user', w.shared.gathered, stats⟩)⟩ := by
  have hnone : evaluations w j = none := evaluations_of_some hj
  have hfirst (i : Nat) (hij : i ≠ j) :
      FirstToMeet (Function.update (evaluations w) j (some ⟨user', w.shared.gathered, stats⟩))
        user a i ↔ FirstToMeet (evaluations w) user a i := firstToMeet_update hnone hT.turns hij
  refine ⟨fun h => ?_, fun i q hi hq => ?_, fun i q hi hq => ?_⟩
  · obtain ⟨i, q, hi, hq⟩ := hw.earned h
    refine ⟨i, q, ?_, hq⟩
    have hij : j ≠ i := by
      rintro rfl
      rw [hj] at hi
      cases hi
      exact List.not_mem_nil hq.1
    exact (List.getElem?_set_ne hij).trans hi
  · rw [evaluations_set hj]
    rcases World.set_cases hj hi with ⟨rfl, rfl⟩ | ⟨hij, hi⟩
    · exact (List.not_mem_nil hq.1).elim
    · exact (hw.awarded i q hi hq).imp_right (hfirst i hij).2
  · rw [evaluations_set hj] at hq
    rcases World.set_cases hj hi with ⟨rfl, rfl⟩ | ⟨hij, hi⟩
    · exact .inl trivial
    · exact hw.pending i q hi ((hfirst i hij).1 hq)

/-- The award of the achievement itself. -/
theorem AwardInv.award (hw : AwardInv e.user a w) (hT : TurnInv cat w)
    (hj : w.threads[j]? = some (.awarding e ids (a :: rest) l)) (hm : a.MetBy e.stats)
    (hrow : w.shared.rows e.user a.id = none)
    (hover : ∀ (k : Nat) (q : EvalThread) (e' : Evaluation), w.threads[k]? = some q →
      q.evaluation = some e' → e'.Meets e.user a → e'.turn < e.turn → q.hasReturned = true) :
    AwardInv e.user a ⟨w.shared.upsert e.user a.id progress w.shared.now,
      w.threads.set j (.awarding e ids rest (l ++ [a.award]))⟩ := by
  have hfirst := hw.first_of_award hj rfl hm hrow hover
  have hown : (EvalThread.awarding e ids rest (l ++ [a.award])).Awards e.user a :=
    ⟨List.mem_append_right l List.mem_cons_self, e, rfl, rfl⟩
  have hsame : (EvalThread.awarding e ids rest (l ++ [a.award])).evaluation =
      (EvalThread.awarding e ids (a :: rest) l).evaluation := rfl
  refine ⟨fun _ => ⟨j, _, List.getElem?_set_self (World.lt_length hj), hown⟩, fun i q hi hq => ?_,
    fun i q hi hq => ?_⟩
  · rw [evaluations_set_same hj hsame]
    rcases World.set_cases hj hi with ⟨rfl, rfl⟩ | ⟨-, hi⟩
    · exact ⟨UserAchievements.earned_upsert hrow w.shared.now_pos, hfirst⟩
    · obtain ⟨row, hr, -⟩ := (hw.awarded i q hi hq).1
      rw [hrow] at hr
      cases hr
  · rw [evaluations_set_same hj hsame] at hq
    rcases World.set_cases hj hi with ⟨rfl, rfl⟩ | ⟨hij, -⟩
    · exact .inr hown
    · exact (hij (hq.unique hfirst hT)).elim

theorem EvalThread.awards_iff (he : p.evaluation = some e) :
    p.Awards user a ↔ a.award ∈ p.newlyAwarded ∧ e.user = user := by
  constructor
  · rintro ⟨h, e', he', hu⟩
    rw [he] at he'
    cases he'
    exact ⟨h, hu⟩
  · exact fun h => ⟨h.1, e, he, h.2⟩

theorem AwardInv.spawn (hw : AwardInv user a w) (cat : AchievementCatalog) (user' : String) :
    AwardInv user a ⟨w.shared, w.threads ++ [(evaluateProgram cat).start w.shared user']⟩ := by
  refine ⟨fun h => ?_, fun i q hi hq => ?_, fun i q hi hq => ?_⟩
  · obtain ⟨i, q, hi, hq⟩ := hw.earned h
    exact ⟨i, q, (List.getElem?_append_left (World.lt_length hi)).trans hi, hq⟩
  · rw [evaluations_spawn]
    rcases thread_spawn hi with hi | ⟨-, rfl⟩
    · exact hw.awarded i q hi hq
    · exact (List.not_mem_nil hq.1).elim
  · rw [evaluations_spawn] at hq
    rcases thread_spawn hi with hi | ⟨hn, -⟩
    · exact hw.pending i q hi hq
    · obtain ⟨e, he, -⟩ := hq
      rw [hn] at he
      cases he

/-- A run that comes too late for every award may give up. -/
theorem AwardInv.giveUp (hw : AwardInv user a w) (ha : a ∈ cat.achievements)
    (hj : w.threads[j]? = some p) (he : p.evaluation = some e) (h : Preceded cat w e) :
    AwardInv user a ⟨w.shared, w.threads.set j (.returned (some e) [])⟩ := by
  obtain ⟨hf, hA⟩ := hw.not_awards ha hj he h
  exact hw.keep hj he.symm Iff.rfl
    ⟨fun h => (List.not_mem_nil h.1).elim, fun h => (hA h).elim⟩ fun h => (hf h).elim

theorem AwardInv.read (hw : AwardInv user a w) (hT : TurnInv cat w) (ha : a ∈ cat.achievements)
    (hj : w.threads[j]? = some (.reading e))
    (hrows : a.MetBy e.stats →
      w.shared.rows e.user a.id = none ∨ w.shared.rows.Earned e.user a.id) :
    AwardInv user a ⟨w.shared, w.threads.set j
      (.awarding e (w.shared.rows.earnedIds e.user) cat.achievements [])⟩ := by
  refine hw.keep hj rfl Iff.rfl Iff.rfl fun hf _ => .inl ⟨ha, ?_⟩
  obtain ⟨rfl, hm⟩ := (hf.meets (evaluations_of_some hj)).1
  rw [UserAchievements.earnedIds, Option.isSome_eq_false_iff, Option.isNone_iff_eq_none]
  refine (hrows hm).resolve_right fun hE => ?_
  -- a real row was awarded by the first run, which is this one
  obtain ⟨i, q, hi, hq⟩ := hw.earned hE
  have hij : i = j := (hw.awarded i q hi hq).2.unique hf hT
  subst hij
  rw [hj] at hi
  cases hi
  exact List.not_mem_nil hq.1

/-- An award of another achievement, or to another user. -/
theorem AwardInv.awardOther (hw : AwardInv user a w) (ha : a ∈ cat.achievements)
    (hb : b ∈ cat.achievements) (hj : w.threads[j]? = some (.awarding e ids (b :: rest) l))
    (hother : ¬(e.user = user ∧ b = a)) :
    AwardInv user a ⟨w.shared.upsert e.user b.id progress w.shared.now,
      w.threads.set j (.awarding e ids rest (l ++ [b.award]))⟩ := by
  have hne : user ≠ e.user ∨ a.id ≠ b.id := by
    by_contra h
    rw [not_or, not_not, not_not] at h
    exact hother ⟨h.1.symm, cat.eq_of_id hb ha h.2.symm⟩
  refine hw.keep hj rfl (UserAchievements.earned_of_ne hne) ?_ fun hf hp => .inl ?_
  · rw [EvalThread.awards_iff rfl, EvalThread.awards_iff rfl, and_congr_left_iff]
    intro huser
    refine ⟨fun h => (List.mem_append.1 h).resolve_right fun h => ?_, List.mem_append_left _⟩
    exact hother ⟨huser, (cat.eq_of_award ha hb (List.mem_singleton.1 h)).symm⟩
  · have huser := (hf.meets (evaluations_of_some hj)).1.1
    exact hp.imp_left fun h =>
      (List.mem_cons.1 h).resolve_left fun hab => hother ⟨huser, hab.symm⟩

/-- An iteration that awards nothing. -/
theorem AwardInv.pass (hw : AwardInv user a w)
    (hj : w.threads[j]? = some (.awarding e ids (b :: rest) l))
    (hm : b.MetBy e.stats → ids b.id = true)
    (hE : s'.rows.Earned user a.id ↔ w.shared.rows.Earned user a.id) :
    AwardInv user a ⟨s', w.threads.set j (.awarding e ids rest l)⟩ := by
  refine hw.keep hj rfl hE Iff.rfl fun hf hp => .inl ⟨?_, hp.2⟩
  refine (List.mem_cons.1 hp.1).resolve_left ?_
  rintro rfl
  have hid := hm (hf.meets (evaluations_of_some hj)).1.2
  rw [hp.2] at hid
  cases hid

theorem awardInv_preserved (ha : a ∈ cat.achievements) :
    (evaluateMachine cat).Preserves (UndisturbedStep cat)
      fun w => TurnInv cat w ∧ AwardInv user a w := by
  rintro w ev w' ⟨hT, hw⟩ hs hC
  refine ⟨turnInv_invariant cat w ev w' hT hs trivial, ?_⟩
  cases ev with
  | spawn user' =>
    cases hs
    exact hw.spawn cat user'
  | ambient elapsed =>
    cases hs
    exact ⟨hw.earned, hw.awarded, hw.pending⟩
  | act j x =>
    obtain ⟨p, s', p', hj, hstep, rfl⟩ := Program.next_act hs
    have hD : Undisturbed cat w p x := hC j x p rfl hj
    cases evaluateStep_move (i := j) hstep with
    | absent user' =>
      exact hw.keep hj rfl Iff.rfl
        ⟨fun h => (List.not_mem_nil h.1).elim, fun h => (List.not_mem_nil h.1).elim⟩
        fun _ h => h.elim
    | gather user' stats => exact hw.gather hT hj stats
    | read e => exact hw.read hT ha hj (hD a ha)
    | unread e => exact hw.giveUp ha hj rfl hD
    | award e ids b rest l progress hm hid =>
      by_cases hown : e.user = user ∧ b = a
      · obtain ⟨rfl, rfl⟩ := hown
        obtain ⟨hrow, hover⟩ := hD hm hid
        exact hw.award hT hj hm hrow hover
      · exact hw.awardOther ha (hT.rest j _ hj List.mem_cons_self) hj hown
    | failed e ids b rest l hm hid => exact hw.giveUp ha hj rfl (hD hm hid)
    | pass e ids b rest l ok s' hm hg hE => exact hw.pass hj hm (hE user a.id)
    | done e ids l => exact hw.keep hj rfl Iff.rfl Iff.rfl fun _ h => (List.not_mem_nil h.1).elim

theorem UndisturbedStep.act (hp : w.threads[i]? = some p) (h : Undisturbed cat w p x) :
    UndisturbedStep cat w (.act i x) w' := by
  intro j y q he hq
  cases he
  rw [hp] at hq
  cases hq
  exact h

theorem UndisturbedStep.spawn : UndisturbedStep cat w (.spawn user) w' := by
  intro i x p he
  cases he

theorem evaluations_init (h₀ : (evaluateMachine cat).init w₀) (i : Nat) (e : Evaluation) :
    evaluations w₀ i ≠ some e := by
  intro h
  obtain ⟨p, hp, -⟩ := Option.bind_eq_some_iff.1 h
  rw [h₀.2] at hp
  cases hp

theorem turnInv_init (h₀ : (evaluateMachine cat).init w₀) : TurnInv cat w₀ := by
  refine ⟨fun i e h => (evaluations_init h₀ i e h).elim,
    fun i _ e _ h => (evaluations_init h₀ i e h).elim, fun i p h => ?_⟩
  rw [h₀.2] at h
  cases h

theorem awardInv_init (h₀ : (evaluateMachine cat).init w₀) :
    TurnInv cat w₀ ∧ AwardInv user a w₀ := by
  have hnone (i : Nat) (p : EvalThread) : w₀.threads[i]? ≠ some p := by
    rw [h₀.2]
    nofun
  refine ⟨turnInv_init h₀, ?_, fun i p h => (hnone i p h).elim, fun i p h => (hnone i p h).elim⟩
  rintro ⟨row, hrow, -⟩
  rw [h₀.1.1] at hrow
  cases hrow

/-- In a run of undisturbed steps each achievement is awarded once, by the first run to meet it. -/
theorem achievements_awarded_once {es : List (Event String Nat EvalEvent)}
    (h₀ : (evaluateMachine cat).init w₀)
    (hC : (evaluateMachine cat).Always (UndisturbedStep cat) w₀ es)
    (hr : (evaluateMachine cat).run w₀ es = some w) : AwardedOnce cat w := by
  intro user a ha i p hi
  have hinv : TurnInv cat w ∧ AwardInv user a w :=
    (awardInv_preserved ha).run (awardInv_init h₀) hC hr
  obtain ⟨hT, hw⟩ := hinv
  refine ⟨fun hf hret => ?_, fun hA => ?_⟩
  · refine (hw.pending i p hi hf).resolve_left fun hp => ?_
    cases p with
    | gathering | reading | awarding => cases hret
    | returned => exact hp
  · obtain ⟨hE, hf⟩ := hw.awarded i p hi hA
    exact ⟨hf, hE, fun j q hj hq => (hw.awarded j q hj hq).2.unique hf hT⟩

/-- The catalog of the runs below. -/
def solverCatalog : AchievementCatalog where
  achievements := [⟨"c1", "solver", "Solver", "star", 10, .problemsSolved 2⟩]
  ids := List.nodup_singleton _
  slugs := List.nodup_singleton _

def solved (n : Nat) : UserStats :=
  ⟨n, n, fun _ => 0, 1, none, 0, 0, 1500, 0, none, none, 0⟩

def noBadges : World Badges EvalThread := ⟨⟨fun _ _ => none, 1, 0, Nat.one_pos⟩, []⟩

/-- One run of `evaluateAchievements` for the user, with the statistics it gathers. -/
def evaluateRun (i n : Nat) : List (Event String Nat EvalEvent) :=
  [.spawn "u", .act i (.gathered (some (solved n))), .act i (.read true), .act i (.upsert true),
    .act i .done]

/-- The statistics fall below the threshold again after the award. -/
theorem solver_undisturbed :
    (evaluateMachine solverCatalog).Always (UndisturbedStep solverCatalog) noBadges
      (evaluateRun 0 2 ++ evaluateRun 1 1) := by
  have hlow (a : Achievement) (ha : a ∈ solverCatalog.achievements) : ¬a.MetBy (solved 1) := by
    rw [List.mem_singleton.1 ha]
    decide
  refine Machine.always_cons rfl UndisturbedStep.spawn ?_
  refine Machine.always_cons rfl (UndisturbedStep.act rfl trivial) ?_
  refine Machine.always_cons rfl (UndisturbedStep.act rfl fun _ _ _ => .inl rfl) ?_
  refine Machine.always_cons rfl (UndisturbedStep.act rfl fun _ _ => ⟨rfl, ?_⟩) ?_
  · exact fun _ _ _ _ _ _ hlt => (Nat.not_lt_zero _ hlt).elim
  refine Machine.always_cons rfl (UndisturbedStep.act rfl trivial) ?_
  refine Machine.always_cons rfl UndisturbedStep.spawn ?_
  refine Machine.always_cons rfl (UndisturbedStep.act rfl trivial) ?_
  refine Machine.always_cons rfl
    (UndisturbedStep.act rfl fun a ha hm => (hlow a ha hm).elim) ?_
  refine Machine.always_cons rfl
    (UndisturbedStep.act rfl fun hm => (hlow _ List.mem_cons_self hm).elim) ?_
  exact Machine.always_cons rfl (UndisturbedStep.act rfl trivial) trivial

theorem achievements_awarded_once_solver :
    ∃ w, (evaluateMachine solverCatalog).run noBadges (evaluateRun 0 2 ++ evaluateRun 1 1) =
        some w ∧
      w.threads = [.returned (some ⟨"u", 0, solved 2⟩) [⟨"solver", "Solver", "star", 10⟩],
        .returned (some ⟨"u", 1, solved 1⟩) []] ∧
      w.shared.rows "u" "c1" = some ⟨1, 1⟩ ∧ AwardedOnce solverCatalog w := by
  have hrun : ∃ w, (evaluateMachine solverCatalog).run noBadges
      (evaluateRun 0 2 ++ evaluateRun 1 1) = some w ∧
      w.threads = [.returned (some ⟨"u", 0, solved 2⟩) [⟨"solver", "Solver", "star", 10⟩],
        .returned (some ⟨"u", 1, solved 1⟩) []] ∧
      w.shared.rows "u" "c1" = some ⟨1, 1⟩ := ⟨_, rfl, rfl, rfl⟩
  obtain ⟨w, hr, hthreads, hrow⟩ := hrun
  exact ⟨w, hr, hthreads, hrow,
    achievements_awarded_once ⟨⟨fun _ _ => rfl, rfl⟩, rfl⟩ solver_undisturbed hr⟩

/-- A run that tracks progress leaves a row behind, and the run that meets the criteria takes the
achievement for earned. -/
theorem award_suppressed :
    ∃ w, (evaluateMachine solverCatalog).run noBadges (evaluateRun 0 1 ++ evaluateRun 1 2) =
        some w ∧
      w.threads = [.returned (some ⟨"u", 0, solved 1⟩) [],
        .returned (some ⟨"u", 1, solved 2⟩) []] ∧
      w.shared.rows "u" "c1" = some ⟨epoch, 1⟩ ∧ ¬AwardedOnce solverCatalog w := by
  have hrun : ∃ w, (evaluateMachine solverCatalog).run noBadges
      (evaluateRun 0 1 ++ evaluateRun 1 2) = some w ∧
      w.threads = [.returned (some ⟨"u", 0, solved 1⟩) [],
        .returned (some ⟨"u", 1, solved 2⟩) []] ∧
      w.shared.rows "u" "c1" = some ⟨epoch, 1⟩ := ⟨_, rfl, rfl, rfl⟩
  obtain ⟨w, hr, hthreads, hrow⟩ := hrun
  refine ⟨w, hr, hthreads, hrow, fun h => ?_⟩
  have hfirst : FirstToMeet (evaluations w) "u" ⟨"c1", "solver", "Solver", "star", 10,
      .problemsSolved 2⟩ 1 := by
    refine ⟨⟨"u", 1, solved 2⟩, by rw [evaluations, hthreads]; rfl, ⟨rfl, by decide⟩,
      fun j e' hj hm => ?_⟩
    rw [evaluations, hthreads] at hj
    match j with
    | 0 =>
      cases hj
      exact absurd hm.2 (by decide)
    | 1 =>
      cases hj
      exact Nat.le_refl _
    | j + 2 => cases hj
  obtain ⟨hA, -⟩ := (h "u" _ List.mem_cons_self 1 _ (by rw [hthreads]; rfl)).1 hfirst rfl
  exact List.not_mem_nil hA

end Leetrank
