import Leetrank.Judge.Outcome
import Leetrank.Judge.Runners

namespace Leetrank
set_option autoImplicit true

open Paths

theorem trimmedTrace_eq_empty (isSpace : Char → Bool) (lines : List Char → List (List Char))
    (hl : (lines []).length ≤ 10) (stderr : String) :
    trimmedTrace isSpace lines stderr = "" ↔ Text.Blank isSpace stderr := by
  unfold trimmedTrace Text.Blank
  by_cases h : (lines (Text.trim isSpace stderr).toList).length > 10
  · simp only [h, if_true, Text.lastLines_ne_empty (by decide : 1 < 10) h, false_iff]
    intro he
    rw [he] at h
    change (lines []).length > 10 at h
    omega
  · simp only [h, if_false]

def WrapperLanguage.space : WrapperLanguage → Char → Bool
  | .python => pySpace
  | .javascript => jsSpace
  | .ruby => rubySpace

theorem WrapperLanguage.trace_eq_empty (w : WrapperLanguage) (stderr : String) :
    w.trace stderr = "" ↔ Text.Blank w.space stderr := by
  cases w with
  | python => exact trimmedTrace_eq_empty pySpace splitlines (by decide) stderr
  | javascript =>
    exact trimmedTrace_eq_empty jsSpace (Text.splitAt (· == '\n')) (by decide) stderr
  | ruby => exact trimmedTrace_eq_empty rubySpace rubyLines (by decide) stderr

/-- The exit code that the host sees; a signal shows as a negative code, or through nsjail as one
above 128. -/
def observedExit (mode : SandboxMode) : ProcessEnd → Int
  | .exited code => code
  | .signaled signal =>
    match mode with
    | .nsjail _ => 128 + signal
    | .off => -1
  | .timedOut => -1

def ProcessRun.registryRun (mode : SandboxMode) (run : ProcessRun) : CmdRun String where
  combined := run.combined
  exitCode := some (observedExit mode run.ending)
  deadline := run.ending = .timedOut
  err := if run.ending.succeeded then none else some .exitError

/-- The same run under a runner script, which exits normally after printing its report. -/
def ProcessRun.wrapperRun (w : WrapperLanguage) (run : ProcessRun) : CmdRun RunnerStdout where
  combined := .json (w.runner run)
  exitCode := some 0
  deadline := false
  err := none

/-- A host on which everything but the user's program succeeds. -/
def ProcessRun.host (run : ProcessRun) (mode : SandboxMode) (w : WrapperLanguage)
    (tmpPath workdir : Path) (elapsed : Int) : Host where
  createTemp := fun _ => .ok tmpPath
  mkdirTemp := fun _ => .ok workdir
  writeFile := fun _ _ => none
  compile := fun _ => ⟨"", some 0, false, none⟩
  compileDeadline := false
  run := fun _ => run.registryRun mode
  wrapper := fun _ => run.wrapperRun w
  deadline := false
  elapsed := elapsed

theorem observedExit_eq_zero_iff (mode : SandboxMode) (e : ProcessEnd) :
    observedExit mode e = 0 ↔ e.succeeded = true := by
  cases e with
  | exited code => simp [observedExit, ProcessEnd.succeeded]
  | signaled signal =>
    cases mode with
    | nsjail =>
      simp only [observedExit, ProcessEnd.succeeded, Bool.false_eq_true, iff_false]
      omega
    | off => simp [observedExit, ProcessEnd.succeeded]
  | timedOut => simp [observedExit, ProcessEnd.succeeded]

theorem runnerResult_passed_iff (tc : TestCase) (runtime : Int) (out : RunnerOutput) :
    (runnerResult tc runtime out).passed = true ↔
      out.timedOut = false ∧ out.error = "" ∧ trimSpace out.output = trimSpace tc.expected := by
  rw [runnerResult]
  split
  next h => simp [failedResult, h]
  next h =>
    split
    next he => simp [failedResult, he]
    next he =>
      simp only [ne_eq, Decidable.not_not] at he
      simp [comparedResult, h, he]

def WrapperLanguage.Stops (w : WrapperLanguage) (e : ProcessEnd) : Prop :=
  e = .timedOut ∨ w = .javascript ∧ e = .signaled 15

instance (w : WrapperLanguage) (e : ProcessEnd) : Decidable (w.Stops e) :=
  inferInstanceAs (Decidable (_ ∨ _))

theorem WrapperLanguage.runner_eq (w : WrapperLanguage) (run : ProcessRun) :
    w.runner run = if w.Stops run.ending then timedOutReport else runnerReport w.trace run := by
  cases w with
  | python => simp [WrapperLanguage.runner, pythonRunner, WrapperLanguage.Stops,
      WrapperLanguage.trace]
  | javascript => simp [WrapperLanguage.runner, jsRunner, WrapperLanguage.Stops,
      WrapperLanguage.trace, or_comm]
  | ruby => simp [WrapperLanguage.runner, rubyRunner, WrapperLanguage.Stops,
      WrapperLanguage.trace]

section

variable {lc : LanguageConfig} (s : Server) (w : WrapperLanguage) (run : ProcessRun)

/-- The wrapper path passes a run whose standard output is right and of which the runner reports
nothing: it succeeded, or it failed without a word. -/
theorem executeWrapper_passed_iff (tmpPath workdir : Path) (elapsed : Int) (code : String)
    (tc : TestCase) (timeLimitMs : Int) :
    (executeWrapper s (run.host s.mode w tmpPath workdir elapsed) w code tc timeLimitMs).passed =
        true ↔
      ¬ w.Stops run.ending ∧ (run.ending.succeeded = true ∨ Text.Blank w.space run.stderr) ∧
        trimSpace run.stdout = trimSpace tc.expected := by
  have hargv : (wrapperRequest s w tmpPath tc timeLimitMs).argv ≠ [] := by
    cases w <;> exact List.cons_ne_nil _ _
  have hres : executeWrapper s (run.host s.mode w tmpPath workdir elapsed) w code tc timeLimitMs =
      runnerResult tc elapsed (w.runner run) := by
    simp only [executeWrapper, ProcessRun.host, wrapperStep, runSandboxed_const _ _ _ hargv,
      ProcessRun.wrapperRun, Bool.or_self, Bool.false_eq_true, if_false]
  rw [hres, runnerResult_passed_iff, w.runner_eq]
  by_cases hs : w.Stops run.ending
  · simp only [hs, if_true, timedOutReport, reduceCtorEq, false_and, not_true_eq_false]
  · rw [if_neg hs]
    cases he : run.ending.succeeded with
    | true => simp only [runnerReport, he, if_true, hs, not_false_eq_true, true_and, true_or]
    | false =>
      simp only [runnerReport, he, Bool.false_eq_true, if_false, hs, not_false_eq_true, true_and,
        false_or, w.trace_eq_empty]

theorem compileOutcome_host (tmpPath workdir : Path) (elapsed : Int) (ectx : ExecContext) :
    compileOutcome s (run.host s.mode w tmpPath workdir elapsed) lc ectx = none := by
  rw [compileOutcome]
  by_cases hc : lc.compileCmd = []
  · simp only [hc, if_true]
  · have hargv : (compileRequest lc ectx).argv ≠ [] :=
      fun h => hc (expandPlaceholders_eq_nil.1 h)
    simp [hc, ProcessRun.host, runSandboxed_const _ _ _ hargv, cmdFailure]

/-- With the compile step out of the way the outcome of the test is that of its run step. -/
theorem testOutcome_host (tmpPath workdir : Path) (elapsed : Int) (code : String) (tc : TestCase)
    (timeLimitMs : Int) :
    testOutcome s (run.host s.mode w tmpPath workdir elapsed) lc code tc timeLimitMs =
      runOutcome s (run.host s.mode w tmpPath workdir elapsed) lc (execContext lc workdir) tc
        timeLimitMs := by
  change (compileOutcome s _ lc (execContext lc workdir)).getD _ = _
  rw [compileOutcome_host]
  rfl

/-- The registry-driven path passes a successful run whose two streams together are right. -/
theorem executeFromConfig_passed_iff (hlc : lc.Valid) (tmpPath workdir : Path) (elapsed : Int)
    (code : String) (tc : TestCase) (timeLimitMs : Int) :
    (executeFromConfig s (run.host s.mode w tmpPath workdir elapsed) lc code tc timeLimitMs).passed =
        true ↔
      run.ending.succeeded = true ∧ trimSpace run.combined = trimSpace tc.expected := by
  have hargv : (runRequest s lc (execContext lc workdir) tc timeLimitMs).argv ≠ [] :=
    fun h => hlc.runCmd_ne (expandPlaceholders_eq_nil.1 h)
  rw [executeFromConfig_eq s _ hlc, TestOutcome.result_passed_iff,
    testOutcome_host, runOutcome]
  simp only [ProcessRun.host, runSandboxed_const _ _ _ hargv, ProcessRun.registryRun]
  by_cases ht : run.ending = .timedOut
  · simp [ht, TestOutcome.Passes, ProcessEnd.succeeded]
  · cases he : run.ending.succeeded with
    | true =>
      have hexit := (observedExit_eq_zero_iff s.mode run.ending).2 he
      simp [ht, TestOutcome.Passes, hexit, cmdFailure]
    | false =>
      have hexit : observedExit s.mode run.ending ≠ 0 := by
        rw [ne_eq, observedExit_eq_zero_iff, he]
        decide
      simp [ht, TestOutcome.Passes, hexit, cmdFailure]

theorem WrapperLanguage.Stops.not_succeeded {w : WrapperLanguage} {e : ProcessEnd} (h : w.Stops e) :
    e.succeeded = false := by
  rcases h with rfl | ⟨_, rfl⟩ <;> rfl

def PassedSound (run : ProcessRun) (tc : TestCase) (res : TestResult) : Prop :=
  res.passed = true →
    run.ending.succeeded = true ∧ trimSpace run.stdout = trimSpace tc.expected

/-- What the error stream of a successful run adds does not change the comparison, and a failed run
left a message or the wrong output, unless the runner stopped it. -/
def Discernible (w : WrapperLanguage) (run : ProcessRun) (tc : TestCase) : Prop :=
  if run.ending.succeeded then
    (trimSpace run.combined = trimSpace tc.expected ↔
      trimSpace run.stdout = trimSpace tc.expected)
  else
    w.Stops run.ending ∨ ¬ Text.Blank w.space run.stderr ∨
      trimSpace run.stdout ≠ trimSpace tc.expected

/-- Both paths are sound for a run and agree on it exactly when the run is discernible. -/
theorem passed_sound_iff (hlc : lc ∈ s.languages.byId) (tmpPath workdir : Path) (elapsed : Int)
    (code : String) (tc : TestCase) (timeLimitMs : Int) :
    (PassedSound run tc (executeWrapper s (run.host s.mode w tmpPath workdir elapsed) w code tc
          timeLimitMs) ∧
        PassedSound run tc (executeFromConfig s (run.host s.mode w tmpPath workdir elapsed) lc code
          tc timeLimitMs) ∧
        (executeWrapper s (run.host s.mode w tmpPath workdir elapsed) w code tc
            timeLimitMs).passed =
          (executeFromConfig s (run.host s.mode w tmpPath workdir elapsed) lc code tc
            timeLimitMs).passed) ↔
      Discernible w run tc := by
  have hwrap := executeWrapper_passed_iff s w run tmpPath workdir elapsed code tc timeLimitMs
  have hreg := executeFromConfig_passed_iff s w run (s.languages.valid lc hlc) tmpPath workdir
    elapsed code tc timeLimitMs
  unfold PassedSound Discernible
  generalize (executeWrapper s (run.host s.mode w tmpPath workdir elapsed) w code tc
    timeLimitMs).passed = a at hwrap ⊢
  generalize (executeFromConfig s (run.host s.mode w tmpPath workdir elapsed) lc code tc
    timeLimitMs).passed = b at hreg ⊢
  rw [Bool.eq_iff_iff (a := a) (b := b), hwrap, hreg]
  cases he : run.ending.succeeded with
  | true =>
    have hs : ¬ w.Stops run.ending := by
      intro hs
      rw [hs.not_succeeded] at he
      cases he
    simp only [hs, not_false_eq_true, true_and, true_or, if_true]
    constructor
    · rintro ⟨_, _, h⟩
      exact h.symm
    · intro h
      exact ⟨fun hw => hw, h.1, h.symm⟩
  | false =>
    simp only [Bool.false_eq_true, false_or, false_and, if_false, imp_false, iff_false,
      not_false_eq_true, true_and, and_self, not_and_or, Decidable.not_not]

end

def quietRun : ProcessRun := ⟨.exited 0, [(.stdout, "42"), (.stderr, "\n")]⟩

def silentFailure : ProcessRun := ⟨.exited 3, [(.stdout, "42")]⟩

def answerTest : TestCase := ⟨"", "42"⟩

def pythonHost (run : ProcessRun) : Host :=
  run.host shippedServer.mode .python ["tmp", "judge_1.py"] ["tmp", "judge_c_1"] 7

theorem passed_sound_quiet :
    (PassedSound quietRun answerTest
          (executeWrapper shippedServer (pythonHost quietRun) .python "" answerTest 5000) ∧
        PassedSound quietRun answerTest
          (executeFromConfig shippedServer (pythonHost quietRun) cConfig "" answerTest 5000) ∧
        (executeWrapper shippedServer (pythonHost quietRun) .python "" answerTest 5000).passed =
          (executeFromConfig shippedServer (pythonHost quietRun) cConfig "" answerTest
            5000).passed) ↔
      Discernible .python quietRun answerTest :=
  passed_sound_iff shippedServer .python quietRun (by decide +kernel) ["tmp", "judge_1.py"]
    ["tmp", "judge_c_1"] 7 "" answerTest 5000

/-- The wrapper path passes a program that fails silently behind the right output. -/
theorem passed_unsound :
    ¬ ∀ (s : Server) (w : WrapperLanguage) (lc : LanguageConfig) (run : ProcessRun)
      (tmpPath workdir : Path) (elapsed : Int) (code : String) (tc : TestCase) (timeLimitMs : Int),
      lc ∈ s.languages.byId →
        PassedSound run tc (executeWrapper s (run.host s.mode w tmpPath workdir elapsed) w code tc
            timeLimitMs) ∧
          PassedSound run tc (executeFromConfig s (run.host s.mode w tmpPath workdir elapsed) lc
            code tc timeLimitMs) ∧
          (executeWrapper s (run.host s.mode w tmpPath workdir elapsed) w code tc
              timeLimitMs).passed =
            (executeFromConfig s (run.host s.mode w tmpPath workdir elapsed) lc code tc
              timeLimitMs).passed := by
  intro h
  obtain ⟨hsound, _⟩ := h shippedServer .python cConfig silentFailure ["tmp", "judge_1.py"]
    ["tmp", "judge_c_1"] 7 "" answerTest 5000 (by decide +kernel)
  obtain ⟨hsucceeded, _⟩ := hsound (by decide +kernel)
  cases hsucceeded

end Leetrank
