import Leetrank.Web.JudgeClient

namespace Leetrank
set_option autoImplicit true

/-- The values the services write to `Submission.status`. -/
inductive SubmissionStatus where
  | queued
  | judging
  | accepted
  | wrongAnswer
  | runtimeError
  | compileError
  | memoryLimitExceeded
  | timeLimitExceeded
  | securityError
  | failed
  deriving DecidableEq, Repr

def SubmissionStatus.text : SubmissionStatus → String
  | .queued => "queued"
  | .judging => "judging"
  | .accepted => "accepted"
  | .wrongAnswer => "wrong_answer"
  | .runtimeError => "runtime_error"
  | .compileError => "compile_error"
  | .memoryLimitExceeded => "memory_limit_exceeded"
  | .timeLimitExceeded => "time_limit_exceeded"
  | .securityError => "security_error"
  | .failed => "failed"

theorem SubmissionStatus.text_injective {s t : SubmissionStatus} (h : s.text = t.text) : s = t := by
  cases s <;> cases t <;> first | rfl | exact absurd h (by decide)

def SubmissionStatus.Terminal (s : SubmissionStatus) : Prop := s ≠ .queued ∧ s ≠ .judging

instance (s : SubmissionStatus) : Decidable s.Terminal := inferInstanceAs (Decidable (_ ∧ _))

/-- The statuses a judged submission can end in; `failed` is the sweeper's alone. -/
def SubmissionStatus.isVerdict (s : SubmissionStatus) : Bool :=
  s != .queued && s != .judging && s != .failed

def trustedJudgeStatuses : List SubmissionStatus :=
  [.compileError, .memoryLimitExceeded, .timeLimitExceeded, .securityError]

/-- `TRUSTED_JUDGE_STATUSES.has(judgeStatus)`, with the status it stands for. -/
def trustedJudgeStatus (judgeStatus : String) : Option SubmissionStatus :=
  trustedJudgeStatuses.find? fun s => s.text = judgeStatus

def compileErrorPatterns : List String :=
  ["SyntaxError", "syntax error", "Unexpected identifier", "Unexpected token", "IndentationError",
    "compile error", "compilation failed"]

def isCompileError (errorMsg : String) : Bool :=
  if errorMsg = "" then false else compileErrorPatterns.any (testIgnoreCase · errorMsg)

def isMemoryError (errorMsg : String) : Bool :=
  Text.contains errorMsg "MemoryError" || Text.contains errorMsg "out of memory"

/-- JavaScript's truth value of `r.passed`. -/
def RunResult.hasPassed (r : RunResult) : Bool := r.passed == some true

/-- JavaScript's truth value of `r.error`. -/
def RunResult.hasError (r : RunResult) : Bool := r.error.getD "" != ""

def allPassed (results : List RunResult) : Bool := results.all RunResult.hasPassed

def hasError (results : List RunResult) : Bool := results.any RunResult.hasError

def firstError? (results : List RunResult) : Option String :=
  (results.find? RunResult.hasError).bind RunResult.error

def firstError (results : List RunResult) : String := (firstError? results).getD ""

/-- `Math.round` of the average, the mean of an empty list being zero. -/
def averageRuntime (results : List RunResult) : Int :=
  let sum := results.foldl (fun sum r => sum + r.runtime.getD 0) 0
  let count : Nat := max 1 results.length
  (2 * sum + count) / (2 * count)

def failingOutput (results : List RunResult) : Option String :=
  ((results.find? fun r => !r.hasPassed).bind RunResult.actual).bind fun actual =>
    let trimmed := Text.trim jsSpace actual
    if trimmed = "" then none else some trimmed

/-- The columns a finished judging writes; its status is always a verdict. -/
structure TerminalUpdate where
  status : SubmissionStatus
  runtime : Option Int
  error : Option String
  output : Option String
  verdict : status.isVerdict = true

theorem TerminalUpdate.terminal (u : TerminalUpdate) : u.status.Terminal := by
  have h := u.verdict
  simp only [SubmissionStatus.isVerdict, Bool.and_eq_true, bne_iff_ne] at h
  exact h.1

theorem TerminalUpdate.status_ne_failed (u : TerminalUpdate) : u.status ≠ .failed := by
  have h := u.verdict
  simp only [SubmissionStatus.isVerdict, Bool.and_eq_true, bne_iff_ne] at h
  exact h.2

/-- The status the worker derives from the results when it does not trust the judge's own. -/
def derivedStatus (results : List RunResult) : SubmissionStatus :=
  if hasError results && !allPassed results then
    if isCompileError (firstError results) then .compileError
    else if isMemoryError (firstError results) then .memoryLimitExceeded
    else .runtimeError
  else if allPassed results then .accepted
  else .wrongAnswer

def asyncStatus (results : List RunResult) (judgeStatus : String) : SubmissionStatus :=
  match trustedJudgeStatus judgeStatus with
  | some s => s
  | none => derivedStatus results

/-- The status of the synchronous route, which does not look at the judge's own. -/
def syncStatus (results : List RunResult) : SubmissionStatus :=
  if hasError results && !allPassed results then .runtimeError
  else if allPassed results then .accepted
  else .wrongAnswer

theorem trustedJudgeStatus_mem (h : trustedJudgeStatus judgeStatus = some s) :
    s ∈ trustedJudgeStatuses ∧ s.text = judgeStatus := by
  rw [trustedJudgeStatus] at h
  have ht := List.find?_some h
  exact ⟨List.mem_of_find?_eq_some h, of_decide_eq_true ht⟩

theorem trusted_isVerdict (h : s ∈ trustedJudgeStatuses) : s.isVerdict = true := by
  simp only [trustedJudgeStatuses, List.mem_cons, List.not_mem_nil, or_false] at h
  rcases h with rfl | rfl | rfl | rfl <;> rfl

theorem asyncStatus_trusted (h : trustedJudgeStatus judgeStatus = some s) :
    asyncStatus results judgeStatus = s := by
  simp only [asyncStatus, h]

theorem asyncStatus_untrusted (h : trustedJudgeStatus judgeStatus = none) :
    asyncStatus results judgeStatus = derivedStatus results := by
  simp only [asyncStatus, h]

/-- A failing test with an error somewhere in the list is what both paths look for first. -/
def Erroneous (results : List RunResult) : Prop :=
  hasError results = true ∧ allPassed results = false

theorem derivedStatus_erroneous (h : Erroneous results) :
    derivedStatus results =
      if isCompileError (firstError results) then .compileError
      else if isMemoryError (firstError results) then .memoryLimitExceeded
      else .runtimeError := by
  simp only [derivedStatus, h.1, h.2, Bool.not_false, Bool.and_self, if_true]

theorem syncStatus_erroneous (h : Erroneous results) : syncStatus results = .runtimeError := by
  simp only [syncStatus, h.1, h.2, Bool.not_false, Bool.and_self, if_true]

theorem not_erroneous_guard (h : ¬ Erroneous results) :
    (hasError results && !allPassed results) = false := by
  cases he : hasError results with
  | false => rfl
  | true =>
    cases ha : allPassed results with
    | false => exact (h ⟨he, ha⟩).elim
    | true => rfl

theorem derivedStatus_eq_syncStatus (h : ¬ Erroneous results) :
    derivedStatus results = syncStatus results := by
  simp only [derivedStatus, syncStatus, not_erroneous_guard h, Bool.false_eq_true, if_false]

theorem syncStatus_eq_accepted_iff (results : List RunResult) :
    syncStatus results = .accepted ↔ allPassed results = true := by
  by_cases he : Erroneous results
  · simp [syncStatus_erroneous he, he.2]
  · simp only [syncStatus, not_erroneous_guard he, Bool.false_eq_true, if_false]
    cases allPassed results <;> simp

theorem syncStatus_eq_wrongAnswer_iff (results : List RunResult) :
    syncStatus results = .wrongAnswer ↔ hasError results = false ∧ allPassed results = false := by
  by_cases he : Erroneous results
  · simp [syncStatus_erroneous he, he.1]
  · simp only [syncStatus, not_erroneous_guard he, Bool.false_eq_true, if_false]
    cases ha : allPassed results with
    | true => simp
    | false =>
      have hn : hasError results = false := by
        rw [← Bool.not_eq_true]
        exact fun hr => he ⟨hr, ha⟩
      simp [hn]

theorem derivedStatus_ne_erroneous (h : Erroneous results) :
    derivedStatus results ≠ .accepted ∧ derivedStatus results ≠ .wrongAnswer := by
  rw [derivedStatus_erroneous h]
  split
  · exact ⟨by decide, by decide⟩
  · split <;> exact ⟨by decide, by decide⟩

theorem derivedStatus_eq_accepted_iff (results : List RunResult) :
    derivedStatus results = .accepted ↔ allPassed results = true := by
  by_cases he : Erroneous results
  · simp [derivedStatus_ne_erroneous he, he.2]
  · rw [derivedStatus_eq_syncStatus he, syncStatus_eq_accepted_iff]

theorem derivedStatus_eq_wrongAnswer_iff (results : List RunResult) :
    derivedStatus results = .wrongAnswer ↔
      hasError results = false ∧ allPassed results = false := by
  by_cases he : Erroneous results
  · simp [derivedStatus_ne_erroneous he, he.1]
  · rw [derivedStatus_eq_syncStatus he, syncStatus_eq_wrongAnswer_iff]

theorem derivedStatus_eq_runtimeError_iff (results : List RunResult) :
    derivedStatus results = .runtimeError ↔
      Erroneous results ∧ isCompileError (firstError results) = false ∧
        isMemoryError (firstError results) = false := by
  by_cases he : Erroneous results
  · rw [derivedStatus_erroneous he]
    cases isCompileError (firstError results) <;> cases isMemoryError (firstError results) <;>
      simp [he]
  · rw [derivedStatus_eq_syncStatus he]
    simp only [syncStatus, not_erroneous_guard he, Bool.false_eq_true, if_false, he, false_and,
      iff_false]
    split <;> decide

theorem derivedStatus_isVerdict (results : List RunResult) :
    (derivedStatus results).isVerdict = true := by
  rw [derivedStatus]
  split
  · split
    · rfl
    · split <;> rfl
  · split <;> rfl

theorem asyncStatus_isVerdict (results : List RunResult) (judgeStatus : String) :
    (asyncStatus results judgeStatus).isVerdict = true := by
  cases h : trustedJudgeStatus judgeStatus with
  | some s =>
    rw [asyncStatus_trusted h]
    exact trusted_isVerdict (trustedJudgeStatus_mem h).1
  | none =>
    rw [asyncStatus_untrusted h]
    exact derivedStatus_isVerdict results

theorem syncStatus_isVerdict (results : List RunResult) :
    (syncStatus results).isVerdict = true := by
  rw [syncStatus]
  split
  · rfl
  · split <;> rfl

/-- The worker accepts exactly the lists without a failing test, unless the judge overrules it. -/
theorem asyncStatus_eq_accepted_iff (results : List RunResult) (judgeStatus : String) :
    asyncStatus results judgeStatus = .accepted ↔
      trustedJudgeStatus judgeStatus = none ∧ allPassed results = true := by
  cases h : trustedJudgeStatus judgeStatus with
  | some s =>
    have hm := (trustedJudgeStatus_mem h).1
    simp only [asyncStatus_trusted h, reduceCtorEq, false_and, iff_false]
    rintro rfl
    exact absurd hm (by decide)
  | none => simp only [asyncStatus_untrusted h, derivedStatus_eq_accepted_iff, true_and]

def terminalUpdate (reply : JudgeResult) : TerminalUpdate where
  status := asyncStatus reply.results reply.status
  runtime := some (averageRuntime reply.results)
  error := firstError? reply.results
  output :=
    if asyncStatus reply.results reply.status = .accepted then none
    else failingOutput reply.results
  verdict := asyncStatus_isVerdict reply.results reply.status

def syncUpdate (reply : JudgeResult) : TerminalUpdate where
  status := syncStatus reply.results
  runtime := some (averageRuntime reply.results)
  error := firstError? reply.results
  output := if syncStatus reply.results = .accepted then none else failingOutput reply.results
  verdict := syncStatus_isVerdict reply.results

/-- What the worker records when judging crashed for a reason other than the judge being down. -/
def crashUpdate (message : String) : TerminalUpdate where
  status := .runtimeError
  runtime := none
  error := some message
  output := none
  verdict := rfl

/-- The `try` and `catch` of the worker: an unavailable judge is rethrown, any other error is
recorded. -/
def judgeOutcome : Except JudgeError JudgeResult → Except String TerminalUpdate
  | .ok reply => .ok (terminalUpdate reply)
  | .error (.judgeUnavailable message) => .error (JudgeError.judgeUnavailable message).text
  | .error (.error message) => .ok (crashUpdate message)

/-- The synchronous branch of the route: the columns of the created row, or the error status. -/
def syncOutcome : Except JudgeError JudgeResult → Except Nat TerminalUpdate
  | .ok reply => .ok (syncUpdate reply)
  | .error (.judgeUnavailable _) => .error 503
  | .error (.error _) => .error 500

end Leetrank
