import Leetrank.Strings

namespace Leetrank
set_option autoImplicit true

structure TestCase where
  input : String
  expected : String
  deriving DecidableEq, Repr

structure ExecuteRequest where
  code : String
  language : String
  testCases : List TestCase
  timeLimit : Int
  deriving DecidableEq

structure TestResult where
  passed : Bool
  input : String
  expected : String
  actual : String
  runtime : Int
  error : String
  deriving DecidableEq, Repr

inductive JudgeStatus where
  | accepted
  | wrongAnswer
  | runtimeError
  | compileError
  | memoryLimitExceeded
  | timeLimitExceeded
  | securityError
  | rateLimited
  | error
  | busy
  deriving DecidableEq, Repr

def JudgeStatus.text : JudgeStatus → String
  | .accepted => "accepted"
  | .wrongAnswer => "wrong_answer"
  | .runtimeError => "runtime_error"
  | .compileError => "compile_error"
  | .memoryLimitExceeded => "memory_limit_exceeded"
  | .timeLimitExceeded => "time_limit_exceeded"
  | .securityError => "security_error"
  | .rateLimited => "rate_limited"
  | .error => "error"
  | .busy => "busy"

structure ExecuteResponse where
  results : List TestResult
  status : JudgeStatus
  deriving DecidableEq, Repr

/-- What the judge takes for the output of a compiler anywhere in an error text. -/
def compileErrorMarks : List String :=
  ["SyntaxError", "syntax error", "Unexpected identifier", "Unexpected token", "IndentationError",
    "compile error", "compilation failed", "cannot find", "expected", "undefined:"]

def looksLikeCompileError (errMsg : String) : Bool :=
  compileErrorMarks.any (Text.contains errMsg) || Text.hasPrefix (trimSpace errMsg) "error["

def memoryErrorMarks : List String := ["MemoryError", "out of memory", "OOM", "Cannot allocate"]

def looksLikeMemoryError (errMsg : String) : Bool := memoryErrorMarks.any (Text.contains errMsg)

def failureStatus (res : TestResult) : JudgeStatus :=
  if res.error = "Time Limit Exceeded" then .timeLimitExceeded
  else if res.error ≠ "" then
    if looksLikeCompileError res.error then .compileError
    else if looksLikeMemoryError res.error then .memoryLimitExceeded
    else .runtimeError
  else .wrongAnswer

/-- The loop of `executeHandler` over the results, which stops at the first failing test. -/
def aggregateStatus : List TestResult → JudgeStatus
  | [] => .accepted
  | res :: results => if res.passed then aggregateStatus results else failureStatus res

def firstFailing (results : List TestResult) : Option TestResult :=
  results.find? fun res => !res.passed

theorem aggregateStatus_eq (results : List TestResult) :
    aggregateStatus results = ((firstFailing results).map failureStatus).getD .accepted := by
  induction results with
  | nil => rfl
  | cons res results ih =>
    rw [aggregateStatus, firstFailing, List.find?_cons]
    cases res.passed with
    | true => exact ih
    | false => rfl

theorem failureStatus_cases (res : TestResult) :
    failureStatus res ∈ [JudgeStatus.wrongAnswer, .runtimeError, .compileError,
      .memoryLimitExceeded, .timeLimitExceeded] := by
  rw [failureStatus]
  split
  · decide
  · split
    · split
      · decide
      · split <;> decide
    · decide

theorem failureStatus_eq_wrongAnswer_iff (res : TestResult) :
    failureStatus res = .wrongAnswer ↔ res.error = "" := by
  rw [failureStatus]
  split
  next h => simp [h]
  · split
    next h =>
      simp only [h, iff_false]
      split
      · decide
      · split <;> decide
    next h => simpa using h

theorem failureStatus_eq_compileError_iff (res : TestResult) :
    failureStatus res = .compileError ↔ looksLikeCompileError res.error = true := by
  rw [failureStatus]
  split
  next h =>
    rw [h]
    decide
  · split
    · cases hc : looksLikeCompileError res.error with
      | true => simp
      | false =>
        simp only [Bool.false_eq_true, if_false, iff_false]
        split <;> decide
    next he =>
      have hemp : res.error = "" := by simpa using he
      rw [hemp]
      decide

end Leetrank
