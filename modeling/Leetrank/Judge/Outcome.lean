import Leetrank.Judge.Execute

namespace Leetrank
set_option autoImplicit true

/-- How far a test of a registry language got. -/
inductive TestOutcome where
  | setupFailed (message : String)
  | compileTimedOut
  | compileFailed (message : String)
  | timedOut
  | sandboxFailed (message output : String)
  | crashed (exitCode : Int) (output : String)
  | finished (output : String)
  deriving DecidableEq

def TestOutcome.InCompile : TestOutcome → Prop
  | .compileTimedOut | .compileFailed _ => True
  | .setupFailed _ | .timedOut | .sandboxFailed _ _ | .crashed _ _ | .finished _ => False

def TestOutcome.Passes (tc : TestCase) : TestOutcome → Prop
  | .finished output => trimSpace output = trimSpace tc.expected
  | .setupFailed _ | .compileTimedOut | .compileFailed _ | .timedOut | .sandboxFailed _ _
  | .crashed _ _ => False

instance (tc : TestCase) : DecidablePred (TestOutcome.Passes tc)
  | .finished _ => inferInstanceAs (Decidable (_ = _))
  | .setupFailed _ | .compileTimedOut | .compileFailed _ | .timedOut | .sandboxFailed _ _
  | .crashed _ _ => inferInstanceAs (Decidable False)

def TestOutcome.result (tc : TestCase) (runtime : Int) : TestOutcome → TestResult
  | .setupFailed message => errorResult tc message runtime
  | .compileTimedOut => failedResult tc runtime "" "Compilation Time Limit Exceeded"
  | .compileFailed message => failedResult tc runtime "" ("Compilation error: " ++ message)
  | .timedOut => failedResult tc runtime "" "Time Limit Exceeded"
  | .sandboxFailed message output => failedResult tc runtime (trimSpace output) message
  | .crashed exitCode output =>
    failedResult tc runtime (trimSpace output) (exitMessage exitCode output)
  | .finished output => comparedResult tc runtime output

def compileOutcome (s : Server) (host : Host) (lc : LanguageConfig) (ectx : ExecContext) :
    Option TestOutcome :=
  let res := runSandboxed s.mode host.compile (compileRequest lc ectx)
  if lc.compileCmd = [] then none
  else if res.timedOut || host.compileDeadline then some .compileTimedOut
  else if res.err ≠ none ∨ res.exitCode ≠ 0 then some (.compileFailed (compileMessage res))
  else none

def runOutcome (s : Server) (host : Host) (lc : LanguageConfig) (ectx : ExecContext)
    (tc : TestCase) (timeLimitMs : Int) : TestOutcome :=
  let res := runSandboxed s.mode host.run (runRequest s lc ectx tc timeLimitMs)
  if res.timedOut || host.deadline then .timedOut
  else
    match res.err with
    | some err => .sandboxFailed err res.combined
    | none => if res.exitCode ≠ 0 then .crashed res.exitCode res.combined else .finished res.combined

def testOutcome (s : Server) (host : Host) (lc : LanguageConfig) (code : String) (tc : TestCase)
    (timeLimitMs : Int) : TestOutcome :=
  match host.mkdirTemp ("judge_" ++ lc.id ++ "_*") with
  | .error err => .setupFailed ("Failed to create workdir: " ++ err)
  | .ok workdir =>
    let ectx := execContext lc workdir
    match host.writeFile ectx.srcPath code with
    | some err => .setupFailed ("Failed to write source: " ++ err)
    | none => (compileOutcome s host lc ectx).getD (runOutcome s host lc ectx tc timeLimitMs)

/-- The compile step passes the test on, or ends it with the error of its outcome. -/
theorem compileStep_cases (s : Server) (host : Host) (lc : LanguageConfig) (ectx : ExecContext)
    (tc : TestCase) (runtime : Int) :
    (compileStep s host lc ectx = none ∧ compileOutcome s host lc ectx = none) ∨
      ∃ err o, compileStep s host lc ectx = some err ∧ compileOutcome s host lc ectx = some o ∧
        o.result tc runtime = failedResult tc runtime "" err := by
  unfold compileStep compileOutcome
  by_cases hc : lc.compileCmd = []
  · simp only [hc, if_true, and_self, true_or]
  · simp only [hc, if_false, expandPlaceholders_eq_nil]
    split
    · exact .inr ⟨_, _, rfl, rfl, rfl⟩
    · split
      · exact .inr ⟨_, _, rfl, rfl, rfl⟩
      · exact .inl ⟨rfl, rfl⟩

theorem runStep_eq (s : Server) (host : Host) (hlc : lc.runCmd ≠ []) (ectx : ExecContext)
    (tc : TestCase) (timeLimitMs : Int) :
    runStep s host lc ectx tc timeLimitMs =
      (runOutcome s host lc ectx tc timeLimitMs).result tc host.elapsed := by
  simp only [runStep, runOutcome, expandPlaceholders_eq_nil, hlc, if_false]
  generalize runSandboxed s.mode host.run (runRequest s lc ectx tc timeLimitMs) = res
  split
  · rfl
  · cases res.err with
    | some err => rfl
    | none =>
      simp only
      split <;> rfl

/-- The result of a test is the account of how far it got. -/
theorem executeFromConfig_eq (s : Server) (host : Host) (hlc : lc.Valid) (code : String)
    (tc : TestCase) (timeLimitMs : Int) :
    executeFromConfig s host lc code tc timeLimitMs =
      (testOutcome s host lc code tc timeLimitMs).result tc host.elapsed := by
  unfold executeFromConfig testOutcome
  cases host.mkdirTemp ("judge_" ++ lc.id ++ "_*") with
  | error => rfl
  | ok workdir =>
    simp only
    cases host.writeFile (execContext lc workdir).srcPath code with
    | some => rfl
    | none =>
      simp only
      rcases compileStep_cases s host lc (execContext lc workdir) tc host.elapsed with
        ⟨hs, ho⟩ | ⟨err, o, hs, ho, hr⟩
      · rw [hs, ho]
        exact runStep_eq s host hlc.runCmd_ne _ tc timeLimitMs
      · rw [hs, ho]
        exact hr.symm

theorem TestOutcome.result_passed_iff (tc : TestCase) (runtime : Int) (o : TestOutcome) :
    (o.result tc runtime).passed = true ↔ o.Passes tc := by
  cases o with
  | finished output =>
    simp only [TestOutcome.result, comparedResult, TestOutcome.Passes, beq_iff_eq]
  | _ => simp [TestOutcome.result, errorResult, failedResult, TestOutcome.Passes]

end Leetrank
