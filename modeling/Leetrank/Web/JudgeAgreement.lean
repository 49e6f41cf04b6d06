import Leetrank.Web.Submissions

namespace Leetrank
set_option autoImplicit true

/-- A result as the client decodes it; an empty error is omitted from the JSON object. -/
def TestResult.wire (res : TestResult) : RunResult where
  passed := some res.passed
  input := some res.input
  expected := some res.expected
  actual := some res.actual
  runtime := some res.runtime
  error := if res.error = "" then none else some res.error

def ExecuteResponse.wire (response : ExecuteResponse) : GoJudgeResponse where
  results := some (response.results.map TestResult.wire)
  status := some response.status.text

def verdictReply (results : List TestResult) : ExecuteResponse := ⟨results, aggregateStatus results⟩

def TestResult.erring (res : TestResult) : Bool := res.error != ""

@[simp] theorem TestResult.wire_hasPassed (res : TestResult) : res.wire.hasPassed = res.passed := by
  simp [TestResult.wire, RunResult.hasPassed]

@[simp] theorem TestResult.wire_hasError (res : TestResult) : res.wire.hasError = res.erring := by
  by_cases h : res.error = "" <;> simp [TestResult.wire, RunResult.hasError, TestResult.erring, h]

theorem TestResult.wire_error {res : TestResult} (h : res.erring = true) :
    res.wire.error = some res.error := by
  simp only [TestResult.erring, bne_iff_ne] at h
  simp only [TestResult.wire, h, if_false]

theorem allPassed_wire (results : List TestResult) :
    allPassed (results.map TestResult.wire) = (firstFailing results).isNone := by
  rw [allPassed, List.all_map, firstFailing, Bool.eq_iff_iff]
  simp [List.all_eq_true]

theorem hasError_wire (results : List TestResult) :
    hasError (results.map TestResult.wire) = results.any TestResult.erring := by
  rw [hasError, List.any_map]
  congr 1
  funext res
  exact res.wire_hasError

def firstErrorText (results : List TestResult) : String :=
  ((results.find? TestResult.erring).map TestResult.error).getD ""

theorem firstError_wire (results : List TestResult) :
    firstError (results.map TestResult.wire) = firstErrorText results := by
  rw [firstError, firstError?, firstErrorText, List.find?_map]
  have hfun : RunResult.hasError ∘ TestResult.wire = TestResult.erring := by
    funext res
    exact res.wire_hasError
  rw [hfun]
  cases h : results.find? TestResult.erring with
  | none => rfl
  | some res =>
    have herr := List.find?_some h
    simp only [Option.map_some, Option.bind_some, Option.getD_some, res.wire_error herr]

theorem aggregateStatus_of_failing (hf : firstFailing results = some res) :
    aggregateStatus results = failureStatus res := by
  rw [aggregateStatus_eq, hf]
  rfl

/-- Where the worker computes a status of its own: it takes an error anywhere in the list for more
than a wrong answer, and reads the text of the first error once more. -/
def Reclassified (results : List TestResult) : Prop :=
  (aggregateStatus results = .wrongAnswer ∧ ∃ res ∈ results, res.error ≠ "") ∨
    (aggregateStatus results = .runtimeError ∧
      (isCompileError (firstErrorText results) = true ∨
        isMemoryError (firstErrorText results) = true))

theorem any_erring_iff (results : List TestResult) :
    results.any TestResult.erring = true ↔ ∃ res ∈ results, res.error ≠ "" := by
  simp [TestResult.erring]

theorem asyncStatus_text_trusted (h : trustedJudgeStatus judgeStatus = some s) :
    (asyncStatus results judgeStatus).text = judgeStatus := by
  rw [asyncStatus_trusted h]
  exact (trustedJudgeStatus_mem h).2

theorem asyncStatus_wrongAnswer (hf : firstFailing results = some res) :
    asyncStatus (results.map TestResult.wire) "wrong_answer" = .wrongAnswer ↔
      ¬ ∃ res ∈ results, res.error ≠ "" := by
  rw [asyncStatus_untrusted (by decide), derivedStatus_eq_wrongAnswer_iff, hasError_wire,
    allPassed_wire, hf, ← any_erring_iff]
  simp

theorem asyncStatus_runtimeError (hf : firstFailing results = some res) (he : res.error ≠ "") :
    asyncStatus (results.map TestResult.wire) "runtime_error" = .runtimeError ↔
      ¬ (isCompileError (firstErrorText results) = true ∨
        isMemoryError (firstErrorText results) = true) := by
  have herr : Erroneous (results.map TestResult.wire) := by
    constructor
    · rw [hasError_wire, any_erring_iff]
      exact ⟨res, List.mem_of_find?_eq_some hf, he⟩
    · rw [allPassed_wire, hf]
      rfl
  rw [asyncStatus_untrusted (by decide), derivedStatus_eq_runtimeError_iff, firstError_wire]
  simp [herr]

theorem asyncStatus_agrees_iff (results : List TestResult) :
    (asyncStatus (results.map TestResult.wire) (aggregateStatus results).text).text =
        (aggregateStatus results).text ↔ ¬ Reclassified results := by
  rw [Reclassified]
  cases hf : firstFailing results with
  | none =>
    have ha : aggregateStatus results = .accepted := by rw [aggregateStatus_eq, hf]; rfl
    have hs : asyncStatus (results.map TestResult.wire) "accepted" = .accepted := by
      rw [asyncStatus_eq_accepted_iff, allPassed_wire, hf]
      exact ⟨by decide, rfl⟩
    simp only [ha, reduceCtorEq, false_and, or_self, not_false_eq_true, iff_true]
    exact congrArg SubmissionStatus.text hs
  | some res =>
    have ha := aggregateStatus_of_failing hf
    have hc := failureStatus_cases res
    rw [← ha] at hc
    simp only [List.mem_cons, List.not_mem_nil, or_false] at hc
    -- the worker takes over the last three of the five statuses
    rcases hc with hc | hc | hc | hc | hc
    · rw [hc]
      simp only [reduceCtorEq, false_and, or_false, true_and]
      rw [← asyncStatus_wrongAnswer hf]
      exact ⟨fun h => SubmissionStatus.text_injective h, congrArg SubmissionStatus.text⟩
    · have he : res.error ≠ "" := by
        intro he
        have hw := (failureStatus_eq_wrongAnswer_iff res).2 he
        rw [← ha, hc] at hw
        cases hw
      rw [hc]
      simp only [reduceCtorEq, false_and, false_or, true_and]
      rw [← asyncStatus_runtimeError hf he]
      exact ⟨fun h => SubmissionStatus.text_injective h, congrArg SubmissionStatus.text⟩
    all_goals
      rw [hc]
      simp only [reduceCtorEq, false_and, or_self, not_false_eq_true, iff_true]
    · exact asyncStatus_text_trusted (s := .compileError) rfl
    · exact asyncStatus_text_trusted (s := .memoryLimitExceeded) rfl
    · exact asyncStatus_text_trusted (s := .timeLimitExceeded) rfl

/-- The status the worker persists for a reply is the judge's own, unless it is one of the two that
the worker computes anew and the results hold an error that makes a difference. -/
theorem worker_agrees_iff (results : List TestResult) :
    (persistedStatus .async (.response 200 none (.json (verdictReply results).wire))).map
        SubmissionStatus.text = some (verdictReply results).status.text ↔
      ¬ Reclassified results := by
  rw [← asyncStatus_agrees_iff]
  exact Option.some_inj

/-- The judge stops at a wrong answer; the worker goes on to an error in a later test. -/
theorem worker_disagrees :
    ¬ ∀ results : List TestResult, results ≠ [] →
      (persistedStatus .async (.response 200 none (.json (verdictReply results).wire))).map
        SubmissionStatus.text = some (verdictReply results).status.text := by
  intro h
  have hr := h [⟨false, "1", "1", "2", 5, ""⟩,
    ⟨false, "2", "4", "", 5, "ZeroDivisionError: division by zero"⟩] (by decide)
  exact absurd hr (by decide)

end Leetrank
