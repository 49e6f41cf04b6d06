import Leetrank.Achievements.AcceptHooks

namespace Leetrank
set_option autoImplicit true

open EventMachine

/-- What accepted submissions have brought the users: their streaks and awarded achievements. -/
@[ext] structure Effects where
  streaks : String → Option StreakState
  awarded : String → String → Prop

def Site.effects (s : Site) : Effects := ⟨s.daily.streaks, s.badges.Earned⟩

/-- The second streak has a challenge of a later day. -/
def SolvedLater (row row' : Option StreakState) : Prop :=
  ∃ day, row'.bind StreakState.lastSolvedDate = some day ∧ Unsolved row day

theorem SolvedLater.trans (h : SolvedLater row row') (h' : SolvedLater row' row'') :
    SolvedLater row row'' := by
  obtain ⟨day, hday, hu⟩ := h
  obtain ⟨day', hday', hu'⟩ := h'
  exact ⟨day', hday', fun d hd => (hu d hd).trans (hu' day hday)⟩

theorem SolvedLater.irrefl (row : Option StreakState) : ¬SolvedLater row row := by
  rintro ⟨day, hday, hu⟩
  exact absurd (hu day hday) (Int.lt_irrefl day)

/-- Streaks only go to later days, and awards stay. -/
instance : PartialOrder Effects where
  le x y := (∀ user, x.streaks user = y.streaks user ∨ SolvedLater (x.streaks user) (y.streaks user)) ∧
    ∀ user id, x.awarded user id → y.awarded user id
  le_refl x := ⟨fun _ => .inl rfl, fun _ _ h => h⟩
  le_trans x y z hxy hyz := by
    refine ⟨fun user => ?_, fun user id h => hyz.2 user id (hxy.2 user id h)⟩
    rcases hxy.1 user with h | h
    · rw [h]
      exact hyz.1 user
    · rcases hyz.1 user with h' | h'
      · exact .inr (h' ▸ h)
      · exact .inr (h.trans h')
  le_antisymm x y hxy hyx := by
    refine Effects.ext (funext fun user => ?_) (funext fun user => funext fun id => ?_)
    · rcases hxy.1 user with h | h
      · exact h
      · rcases hyx.1 user with h' | h'
        · exact h'.symm
        · exact (SolvedLater.irrefl _ (h.trans h')).elim
    · exact propext ⟨hxy.2 user id, hyx.2 user id⟩

variable {pf : Platform} {s t : Site} {w w' : AsyncSite} {r : PostedCode}

theorem AsyncSite.judge_effects (h : w.judge e = some w') :
    w'.site.effects = w.site.effects := by
  obtain ⟨c, -, rfl⟩ := Option.map_eq_some_iff.1 h
  rfl

/-- No step of the asynchronous branch or of a worker touches a streak or an achievement. -/
theorem async_effects (x : Effects) :
    (asyncMachine pf).Invariant fun w => w.site.effects = x := by
  rintro w e w' hw hs -
  refine Eq.trans ?_ hw
  cases e with
  | post r =>
    change asyncStep pf w (.post r) = some w' at hs
    simp only [asyncStep] at hs
    split at hs
    next =>
      cases hs
      rfl
    next p hp =>
      split at hs
      next =>
        cases hs
        rfl
      next => cases hs
  | start k id => exact AsyncSite.judge_effects hs
  | reply k r => exact AsyncSite.judge_effects hs
  | sweepStuck cutoff =>
    change w.judge (.sweepStuck cutoff) = some w' at hs
    exact AsyncSite.judge_effects hs

theorem JudgedAsync.effects (h : JudgedAsync pf s rs w) : w.site.effects = s.effects := by
  obtain ⟨⟨es, hr, -⟩, -⟩ := h
  exact (async_effects s.effects).run rfl hr

/-- Where the hooks run at this point, they find no challenge that its user has yet to solve, and a
row for each achievement that the user's statistics meet. -/
def HooksIdle (pf : Platform) (s : Site) (r : PostedCode) : Prop :=
  ¬AdvancesStreak pf.challenge (s.daily.streaks r.userId) r.problemId r.now ∧
    ∀ stats, pf.gatherStats s r.userId = some stats →
      ∀ a ∈ pf.catalog.achievements, a.MetBy stats → s.badges r.userId a.id ≠ none

/-- The synchronous branch does not accept the submission, or leaves its hooks nothing to do. -/
def Quiet (pf : Platform) (s : Site) (r : PostedCode) : Prop :=
  ∀ p reply, pf.problem r.problemId = some p → executeCode r.outcome = .ok reply →
    allPassed reply.results = true → HooksIdle pf (s.create r (r.judgedRow p (syncUpdate reply))) r

theorem evaluateAchievements_daily (pf : Platform) (s : Site) (user : String) (now : Nat) :
    (pf.evaluateAchievements s user now).daily = s.daily := by
  rw [Platform.evaluateAchievements]
  split <;> rfl

theorem evaluateAchievements_earned (pf : Platform) (s : Site) (user : String) (hn : 0 < now)
    (user' id : String) :
    (pf.evaluateAchievements s user now).badges.Earned user' id ↔
      s.badges.Earned user' id ∨ user' = user ∧ ∃ stats, pf.gatherStats s user = some stats ∧
        ∃ a ∈ pf.catalog.achievements, a.id = id ∧ a.MetBy stats ∧ s.badges user a.id = none := by
  rw [Platform.evaluateAchievements]
  split
  next hnone => simp [hnone]
  next stats hstats =>
    have hids (a : Achievement) :
        s.badges.earnedIds user a.id = false ↔ s.badges user a.id = none := by
      rw [UserAchievements.earnedIds, Option.isSome_eq_false_iff, Option.isNone_iff_eq_none]
    rw [awardLoop_earned hn pf.catalog.ids fun a _ h => (hids a).1 h, hstats]
    simp only [hids, Option.some.injEq, exists_eq_left']

theorem onAccept_idle (h : HooksIdle pf s r) : (pf.onAccept s r).effects = s.effects := by
  have hdaily := recordDailySolve_quiet h.1
  rw [Platform.onAccept, hdaily]
  refine Effects.ext ?_ (funext fun user => funext fun id => propext ?_)
  · exact congrArg DailyTables.streaks (evaluateAchievements_daily ..)
  · refine (evaluateAchievements_earned pf s r.userId r.now_pos user id).trans (or_iff_left ?_)
    rintro ⟨-, stats, hstats, a, ha, -, hm, hrow⟩
    exact h.2 stats hstats a ha hm hrow

theorem onAccept_streaks_advance
    (h : AdvancesStreak pf.challenge (s.daily.streaks r.userId) r.problemId r.now) :
    ∃ streak : StreakState, streak.lastSolvedDate = some (toUtcDayStart r.now) ∧
      (pf.onAccept s r).daily.streaks = Function.update s.daily.streaks r.userId (some streak) := by
  obtain ⟨streak, hlast, hstreaks⟩ := recordDailySolve_advances h
  exact ⟨streak, hlast,
    (congrArg DailyTables.streaks (evaluateAchievements_daily ..)).trans hstreaks⟩

theorem onAccept_le (pf : Platform) (s : Site) (r : PostedCode) :
    s.effects ≤ (pf.onAccept s r).effects := by
  constructor
  · intro user
    by_cases hadv : AdvancesStreak pf.challenge (s.daily.streaks r.userId) r.problemId r.now
    · obtain ⟨streak, hlast, hstreaks⟩ := onAccept_streaks_advance hadv
      change _ = (pf.onAccept s r).daily.streaks user ∨ SolvedLater _ ((pf.onAccept s r).daily.streaks user)
      rw [hstreaks]
      by_cases hu : user = r.userId
      · subst hu
        rw [Function.update_self]
        exact .inr ⟨_, hlast, hadv.2⟩
      · rw [Function.update_of_ne hu]
        exact .inl rfl
    · left
      change _ = (pf.onAccept s r).daily.streaks user
      rw [Platform.onAccept, evaluateAchievements_daily, recordDailySolve_quiet hadv]
      rfl
  · intro user id h
    exact (evaluateAchievements_earned pf _ r.userId r.now_pos user id).2 (.inl h)

/-- The hooks leave everything as it was exactly if they are idle. -/
theorem onAccept_eq_iff (pf : Platform) (s : Site) (r : PostedCode) :
    (pf.onAccept s r).effects = s.effects ↔ HooksIdle pf s r := by
  refine ⟨fun h => ?_, onAccept_idle⟩
  have hadv : ¬AdvancesStreak pf.challenge (s.daily.streaks r.userId) r.problemId r.now := by
    intro hadv
    obtain ⟨streak, hlast, hstreaks⟩ := onAccept_streaks_advance hadv
    have hrow : s.daily.streaks r.userId = some streak := by
      have hsame := congrFun (congrArg Effects.streaks h) r.userId
      change (pf.onAccept s r).daily.streaks r.userId = s.daily.streaks r.userId at hsame
      rw [← hsame, hstreaks, Function.update_self]
    have hu := hadv.2 (toUtcDayStart r.now)
    rw [hrow] at hu
    exact absurd (hu hlast) (Int.lt_irrefl _)
  refine ⟨hadv, fun stats hstats a ha hm hrow => ?_⟩
  have hearned := (evaluateAchievements_earned pf s r.userId r.now_pos r.userId a.id).2
    (.inr ⟨rfl, stats, hstats, a, ha, rfl, hm, hrow⟩)
  have hsame := congrFun (congrFun (congrArg Effects.awarded h) r.userId) a.id
  rw [Platform.onAccept, recordDailySolve_quiet hadv] at hsame
  obtain ⟨row, hr, -⟩ := hsame.mp hearned
  rw [hrow] at hr
  cases hr

theorem syncOutcome_ok (h : syncOutcome o = .ok update) :
    ∃ reply, o = .ok reply ∧ update = syncUpdate reply := by
  cases o with
  | ok reply =>
    cases h
    exact ⟨reply, rfl, rfl⟩
  | error e => cases e <;> cases h

/-- A synchronous submission takes no effect back, and has none exactly if it is quiet. -/
theorem postSync_effects (h : postSync pf s r = some t) :
    s.effects ≤ t.effects ∧ (t.effects = s.effects ↔ Quiet pf s r) := by
  unfold postSync at h
  split at h
  next hnone =>
    cases h
    refine ⟨le_rfl, iff_of_true rfl fun p reply hp => ?_⟩
    rw [hnone] at hp
    cases hp
  next p hp =>
    split at h
    next n herr =>
      cases h
      refine ⟨le_rfl, iff_of_true rfl fun q reply _ hr => ?_⟩
      rw [hr] at herr
      cases herr
    next update hok =>
      obtain ⟨reply, hreply, rfl⟩ := syncOutcome_ok hok
      split at h
      next =>
        cases h
        split
        next hacc =>
          refine ⟨onAccept_le pf (s.create r _) r, (onAccept_eq_iff pf _ r).trans ?_⟩
          constructor
          · intro hidle q reply' hq hr _
            rw [hp] at hq
            rw [hreply] at hr
            cases hq
            cases hr
            exact hidle
          · exact fun hq => hq p reply hp hreply ((syncStatus_eq_accepted_iff _).1 hacc)
        next hacc =>
          refine ⟨le_rfl, iff_of_true rfl fun q reply' _ hr hpass => ?_⟩
          rw [hreply] at hr
          cases hr
          exact (hacc ((syncStatus_eq_accepted_iff _).2 hpass)).elim
      next => cases h

/-- Synchronous and asynchronous submissions have the same effects exactly if every submission of
the synchronous run is quiet. -/
theorem mode_effects_iff (hsync : (syncMachine pf).run s rs = some t)
    (hasync : JudgedAsync pf s rs w) :
    t.effects = w.site.effects ↔
      (syncMachine pf).Always (fun s r _ => Quiet pf s r) s rs := by
  have hmono : ∀ s r t, (syncMachine pf).step s r = some t → s.effects ≤ t.effects :=
    fun s r t h => (postSync_effects h).1
  rw [hasync.effects, Machine.run_eq_iff_always hmono hsync]
  have hinv : (syncMachine pf).Invariant fun _ => True := fun _ _ _ _ _ _ => trivial
  exact hinv.always_iff trivial fun s r t _ h => (postSync_effects h).2

/-- A platform on which the problem `p` is the challenge of every day. -/
def dailyPlatform : Platform where
  problem := fun _ => some ⟨"Easy", [⟨"1", "1"⟩]⟩
  users := [("u", 1500)]
  entries := []
  discussions := []
  challenge := fun _ => some ⟨"d1", "p"⟩
  catalog := ⟨[⟨"c1", "first", "First", "star", 10, .firstSolution⟩], List.nodup_singleton _,
    List.nodup_singleton _⟩

/-- A site without submissions, on which every user has the same row for every achievement. -/
def freshSite (badge : Option UserAchievement) : Site :=
  ⟨fun _ => none, [], ⟨fun _ => none, fun _ => 0⟩, fun _ _ => badge⟩

def passing (problemId : String) : PostedCode where
  id := "s1"
  userId := "u"
  problemId := problemId
  language := "python"
  code := "print(1)"
  outcome := .response 200 none (.json
    ⟨some [⟨some true, none, none, none, none, none⟩], some "accepted"⟩)
  now := 86400000
  now_pos := by decide

/-- The submission is posted, and a run of the handler judges it. -/
def judgedRun (r : PostedCode) : List AsyncEvent :=
  [.post r, .start 0 r.id, .reply 0 .done, .reply 0 .done, .reply 0 (.fetched r.outcome),
    .reply 0 .done]

theorem judgedRun_finished (badge : Option UserAchievement) (problemId : String) :
    ∃ w, JudgedAsync dailyPlatform (freshSite badge) [passing problemId] w ∧
      w.site.db.status "s1" = some .accepted := by
  have hrun : ∃ w, (asyncMachine dailyPlatform).run ⟨freshSite badge, fun _ => none⟩
      (judgedRun (passing problemId)) = some w ∧ w.site.db.status "s1" = some .accepted :=
    ⟨_, rfl, rfl⟩
  obtain ⟨w, hr, hs⟩ := hrun
  refine ⟨w, ⟨⟨_, hr, rfl⟩, fun r hmem status hst => ?_⟩, hs⟩
  rw [List.mem_singleton.1 hmem] at hst
  cases hs.symm.trans hst
  decide

/-- The user has the badge already, and the problem is not the challenge. -/
theorem passing_quiet :
    (syncMachine dailyPlatform).Always (fun s r _ => Quiet dailyPlatform s r)
      (freshSite (some ⟨1, 1⟩)) [passing "q"] := by
  refine Machine.always_cons rfl (fun p reply _ _ _ => ⟨?_, fun stats _ a _ _ => nofun⟩) trivial
  rintro ⟨⟨c, hc, hp⟩, -⟩
  cases hc
  exact absurd hp (by decide)

theorem mode_effects_quiet :
    ∃ t w, (syncMachine dailyPlatform).run (freshSite (some ⟨1, 1⟩)) [passing "q"] = some t ∧
      JudgedAsync dailyPlatform (freshSite (some ⟨1, 1⟩)) [passing "q"] w ∧
      t.effects = w.site.effects := by
  have hrun : ∃ t, (syncMachine dailyPlatform).run (freshSite (some ⟨1, 1⟩)) [passing "q"] =
      some t := ⟨_, rfl⟩
  obtain ⟨t, ht⟩ := hrun
  obtain ⟨w, hw, -⟩ := judgedRun_finished (some ⟨1, 1⟩) "q"
  exact ⟨t, w, ht, hw, (mode_effects_iff ht hw).2 passing_quiet⟩

/-- An accepted solution of the challenge starts a streak and earns a badge in one mode alone. -/
theorem mode_effects_differ :
    ∃ t w, (syncMachine dailyPlatform).run (freshSite none) [passing "p"] = some t ∧
      JudgedAsync dailyPlatform (freshSite none) [passing "p"] w ∧
      t.db.status "s1" = some .accepted ∧ w.site.db.status "s1" = some .accepted ∧
      t.daily.streaks "u" = some ⟨1, 1, some 1⟩ ∧ w.site.daily.streaks "u" = none ∧
      t.badges.Earned "u" "c1" ∧ ¬w.site.badges.Earned "u" "c1" ∧
      t.effects ≠ w.site.effects := by
  have hrun : ∃ t, (syncMachine dailyPlatform).run (freshSite none) [passing "p"] = some t ∧
      t.db.status "s1" = some .accepted ∧ t.daily.streaks "u" = some ⟨1, 1, some 1⟩ ∧
      t.badges "u" "c1" = some ⟨86400000, 1⟩ := ⟨_, rfl, rfl, rfl, rfl⟩
  obtain ⟨t, ht, hacc, hstreak, hbadge⟩ := hrun
  obtain ⟨w, hw, hacc'⟩ := judgedRun_finished none "p"
  have hstreak' : w.site.daily.streaks "u" = none :=
    congrFun (congrArg Effects.streaks hw.effects) "u"
  refine ⟨t, w, ht, hw, hacc, hacc', hstreak, hstreak', ⟨_, hbadge, by decide⟩, ?_, ?_⟩
  · intro h
    have hsame := congrFun (congrFun (congrArg Effects.awarded hw.effects) "u") "c1"
    obtain ⟨row, hrow, -⟩ := hsame.mp h
    cases hrow
  · intro h
    have hsame := congrFun (congrArg Effects.streaks h) "u"
    change t.daily.streaks "u" = w.site.daily.streaks "u" at hsame
    rw [hstreak, hstreak'] at hsame
    cases hsame

end Leetrank
