import Leetrank.Web.Verdict

namespace Leetrank
set_option autoImplicit true

inductive JudgingPath where
  | sync
  | async
  deriving DecidableEq

/-- The terminal status persisted after the judge was called, if there is one. -/
def persistedStatus (path : JudgingPath) (o : FetchOutcome) : Option SubmissionStatus :=
  match path with
  | .sync => (syncOutcome (executeCode o)).toOption.map TerminalUpdate.status
  | .async => (judgeOutcome (executeCode o)).toOption.map TerminalUpdate.status

def GoJudgeResponse.resultList (data : GoJudgeResponse) : List RunResult := data.results.getD []

/-- The judge's own status does not overrule the results on this path. -/
def Untrusted (path : JudgingPath) (data : GoJudgeResponse) : Prop :=
  path = .async → trustedJudgeStatus (data.status.getD "") = none

theorem executeCode_json (hs : responseOk status = true) :
    executeCode (.response status text (.json data)) =
      .ok ⟨data.resultList, data.status.getD ""⟩ := by
  simp only [executeCode, hs, if_true, GoJudgeResponse.resultList]

theorem persistedStatus_accepted_iff (path : JudgingPath) (data : GoJudgeResponse)
    (hs : responseOk status = true) :
    persistedStatus path (.response status text (.json data)) = some .accepted ↔
      allPassed data.resultList = true ∧ Untrusted path data := by
  unfold persistedStatus Untrusted
  rw [executeCode_json hs]
  cases path with
  | sync =>
    simp only [syncOutcome, Except.toOption, Option.map_some, Option.some.injEq, syncUpdate,
      syncStatus_eq_accepted_iff, reduceCtorEq, false_implies, and_true]
  | async =>
    simp only [judgeOutcome, Except.toOption, Option.map_some, Option.some.injEq, terminalUpdate,
      asyncStatus_eq_accepted_iff, true_implies, and_comm]

/-- The judge evaluated every test case of the request and each of them passed. -/
def EveryTestPassed (testCases : List TestCase) (data : GoJudgeResponse) : Prop :=
  ∃ results, data.results = some results ∧ results.length = testCases.length ∧
    0 < results.length ∧ ∀ r ∈ results, r.passed = some true

def Complete (testCases : List TestCase) (data : GoJudgeResponse) : Prop :=
  data.resultList.length = testCases.length ∧ 0 < data.resultList.length

theorem allPassed_iff (results : List RunResult) :
    allPassed results = true ↔ ∀ r ∈ results, r.passed = some true := by
  simp only [allPassed, List.all_eq_true, RunResult.hasPassed, beq_iff_eq]

theorem everyTestPassed_iff (testCases : List TestCase) (data : GoJudgeResponse) :
    EveryTestPassed testCases data ↔
      Complete testCases data ∧ allPassed data.resultList = true := by
  rw [allPassed_iff]
  constructor
  · rintro ⟨results, hr, hlen, hpos, hpass⟩
    simp only [Complete, GoJudgeResponse.resultList, hr, Option.getD_some]
    exact ⟨⟨hlen, hpos⟩, hpass⟩
  · rintro ⟨⟨hlen, hpos⟩, hpass⟩
    cases hr : data.results with
    | none => simp [GoJudgeResponse.resultList, hr] at hpos
    | some results =>
      simp only [GoJudgeResponse.resultList, hr, Option.getD_some] at hlen hpos hpass
      exact ⟨results, hr, hlen, hpos, hpass⟩

/-- On either path an accepted submission passed all its tests exactly when the reply is complete,
or does not amount to acceptance in the first place. -/
theorem accepted_sound_iff (path : JudgingPath) (testCases : List TestCase)
    (data : GoJudgeResponse) (hs : responseOk status = true) :
    (persistedStatus path (.response status text (.json data)) = some .accepted →
        EveryTestPassed testCases data) ↔
      Complete testCases data ∨ (∃ r ∈ data.resultList, r.passed ≠ some true) ∨
        ¬ Untrusted path data := by
  rw [persistedStatus_accepted_iff path data hs, everyTestPassed_iff]
  constructor
  · intro h
    by_cases hp : allPassed data.resultList = true
    · by_cases hu : Untrusted path data
      · exact .inl (h ⟨hp, hu⟩).1
      · exact .inr (.inr hu)
    · rw [allPassed_iff] at hp
      simp only [not_forall] at hp
      obtain ⟨r, hr, hf⟩ := hp
      exact .inr (.inl ⟨r, hr, hf⟩)
  · rintro (hc | ⟨r, hr, hf⟩ | hu) ⟨hp, hu'⟩
    · exact ⟨hc, hp⟩
    · exact (hf ((allPassed_iff _).1 hp r hr)).elim
    · exact (hu hu').elim

theorem accepted_sound_passing_reply :
    persistedStatus .async (.response 200 none (.json
        ⟨some [⟨some true, none, none, none, none, none⟩], some "accepted"⟩)) = some .accepted ∧
      EveryTestPassed [⟨"1", "1"⟩]
        ⟨some [⟨some true, none, none, none, none, none⟩], some "accepted"⟩ := by
  have hs : persistedStatus .async (.response 200 none (.json
      ⟨some [⟨some true, none, none, none, none, none⟩], some "accepted"⟩)) = some .accepted := by
    decide
  exact ⟨hs, (accepted_sound_iff .async [⟨"1", "1"⟩] _ (by decide)).2 (.inl ⟨rfl, by decide⟩) hs⟩

/-- A reply with an empty list of results is persisted as accepted on both paths. -/
theorem accepted_without_results :
    ¬ ∀ (path : JudgingPath) (testCases : List TestCase) (data : GoJudgeResponse),
      persistedStatus path (.response 200 none (.json data)) = some .accepted →
        EveryTestPassed testCases data := by
  intro h
  obtain ⟨results, hr, _, hpos, _⟩ := h .async [⟨"1", "1"⟩] ⟨some [], some "accepted"⟩ (by decide)
  cases hr
  exact absurd hpos (by decide)

def SamePathStatus (reply : JudgeResult) : Prop :=
  trustedJudgeStatus reply.status = none ∧
    (Erroneous reply.results →
      isCompileError (firstError reply.results) = false ∧
        isMemoryError (firstError reply.results) = false)

theorem syncStatus_not_trusted (results : List RunResult) :
    syncStatus results ∉ trustedJudgeStatuses := by
  rw [syncStatus]
  split
  · decide
  · split <;> decide

/-- The synchronous route and the worker persist the same status exactly for the replies whose
top-level status is not one the worker trusts and whose first error it does not reclassify. -/
theorem sync_eq_async_iff (reply : JudgeResult) :
    (syncUpdate reply).status = (terminalUpdate reply).status ↔ SamePathStatus reply := by
  change syncStatus reply.results = asyncStatus reply.results reply.status ↔ _
  rw [SamePathStatus]
  cases ht : trustedJudgeStatus reply.status with
  | some s =>
    simp only [asyncStatus_trusted ht, reduceCtorEq, false_and, iff_false]
    intro h
    have hm := (trustedJudgeStatus_mem ht).1
    rw [← h] at hm
    exact syncStatus_not_trusted _ hm
  | none =>
    rw [asyncStatus_untrusted ht]
    by_cases he : Erroneous reply.results
    · rw [syncStatus_erroneous he, eq_comm, derivedStatus_eq_runtimeError_iff]
      simp only [he, true_and, true_implies]
    · simp only [derivedStatus_eq_syncStatus he, he, false_implies, and_self]

theorem sync_ne_async_compile_error :
    ¬ ∀ reply : JudgeResult, (syncUpdate reply).status = (terminalUpdate reply).status := by
  intro h
  have hr := h ⟨[⟨some false, none, none, none, none, some "SyntaxError: invalid syntax"⟩],
    "compile_error"⟩
  exact absurd hr (by decide)

end Leetrank
