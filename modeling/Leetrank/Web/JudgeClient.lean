import Leetrank.Judge.Protocol

namespace Leetrank
set_option autoImplicit true

structure JudgeRequest where
  code : String
  language : String
  testCases : List TestCase
  timeLimit : Option Int
  deriving DecidableEq

def JudgeRequest.body (request : JudgeRequest) : ExecuteRequest where
  code := request.code
  language := request.language
  testCases := request.testCases
  timeLimit := request.timeLimit.getD 5000

/-- One element of a judge reply; any field may be missing from the JSON object. -/
structure RunResult where
  passed : Option Bool
  input : Option String
  expected : Option String
  actual : Option String
  runtime : Option Int
  error : Option String
  deriving DecidableEq, Repr

structure GoJudgeResponse where
  results : Option (List RunResult)
  status : Option String
  deriving DecidableEq, Repr

structure JudgeResult where
  results : List RunResult
  status : String
  deriving DecidableEq, Repr

/-- The error a rejected `fetch`, or a rejected read of the reply body, carries. -/
structure FetchError where
  name : String
  message : String
  code : Option String
  causeCode : Option String
  deriving DecidableEq, Repr

/-- How the body of a 2xx reply is read: decoded, interrupted by the connection or the timer, or
not of the expected shape (`res.json()` or the mapping over its results throws). -/
inductive ReplyBody where
  | json (data : GoJudgeResponse)
  | interrupted (err : FetchError)
  | malformed (message : String)
  deriving DecidableEq, Repr

inductive FetchOutcome where
  | rejected (err : FetchError)
  | response (status : Nat) (text : Option String) (body : ReplyBody)
  deriving DecidableEq, Repr

inductive JudgeError where
  | judgeUnavailable (message : String)
  | error (message : String)
  deriving DecidableEq, Repr

def judgeUrl : String := "http://localhost:9090"

/-- `String(err)`. -/
def JudgeError.text : JudgeError → String
  | .judgeUnavailable m =>
    "JudgeUnavailableError: Judge service is unavailable at " ++ judgeUrl ++ ": " ++ m
  | .error m => "Error: " ++ m

def networkErrorCodes : List String :=
  ["ECONNREFUSED", "ENOTFOUND", "ETIMEDOUT", "ECONNRESET", "UND_ERR_SOCKET"]

def isAbortOrNetworkError (e : FetchError) : Bool :=
  if e.name = "AbortError" then true
  else
    match e.code.or e.causeCode with
    | some code => networkErrorCodes.contains code
    | none => false

def responseOk (status : Nat) : Bool := 200 ≤ status && status ≤ 299

def safeText (text : Option String) : String := text.getD "<no body>"

/-- The `catch` clause of `executeCode`. -/
def rethrow (e : FetchError) : JudgeError :=
  if isAbortOrNetworkError e then .judgeUnavailable e.message else .error e.message

def executeCode : FetchOutcome → Except JudgeError JudgeResult
  | .rejected e => .error (rethrow e)
  | .response status text body =>
    if responseOk status then
      match body with
      | .json data => .ok ⟨data.results.getD [], data.status.getD ""⟩
      | .interrupted e => .error (rethrow e)
      | .malformed message => .error (.error message)
    else .error (.error ("Judge returned HTTP " ++ toString status ++ ": " ++ safeText text))

/-- An answer of the HTTP call that the client takes for a failure of the connection. -/
def FetchOutcome.transient : FetchOutcome → Bool
  | .rejected e => isAbortOrNetworkError e
  | .response status _ (.interrupted e) => responseOk status && isAbortOrNetworkError e
  | .response _ _ _ => false

theorem executeCode_transient {o : FetchOutcome} (h : o.transient = true) :
    ∃ m, executeCode o = .error (.judgeUnavailable m) := by
  cases o with
  | rejected e =>
    refine ⟨e.message, ?_⟩
    simp only [FetchOutcome.transient] at h
    simp only [executeCode, rethrow, h, if_true]
  | response status text body =>
    cases body with
    | interrupted e =>
      simp only [FetchOutcome.transient, Bool.and_eq_true] at h
      refine ⟨e.message, ?_⟩
      simp only [executeCode, rethrow, h.1, h.2, if_true]
    | json | malformed => cases h

end Leetrank
