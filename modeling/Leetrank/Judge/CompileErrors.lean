import Leetrank.Judge.Outcome

namespace Leetrank
set_option autoImplicit true

/-- The text holds one of the marks of a compiler, wherever it came from. -/
def Marked (text : String) : Prop := compileErrorMarks.any (Text.contains text) = true

instance (text : String) : Decidable (Marked text) := inferInstanceAs (Decidable (_ = _))

theorem marked_congr {s t : String}
    (h : ∀ p ∈ compileErrorMarks, Text.contains s p = Text.contains t p) : Marked s ↔ Marked t := by
  simp only [Marked, List.any_eq_true]
  constructor
  · rintro ⟨p, hp, hc⟩
    exact ⟨p, hp, (h p hp).symm.trans hc⟩
  · rintro ⟨p, hp, hc⟩
    exact ⟨p, hp, (h p hp).trans hc⟩

/-- Behind a visible first letter the other form of a compiler's report is out of the question. -/
theorem looksLikeCompileError_iff (h : s.toList = c :: rest) (hs : goSpace c = false)
    (hc : c ≠ 'e') : looksLikeCompileError s = true ↔ Marked s := by
  obtain ⟨t, ht⟩ := Text.trim_head h hs
  have hp : Text.hasPrefix (trimSpace s) "error[" = false :=
    Text.hasPrefix_eq_false ht (by rfl) hc
  rw [looksLikeCompileError, hp, Bool.or_false, Marked]

theorem compileErrorMarks_separate_compilation : ∀ p ∈ compileErrorMarks,
    Text.Separates p.toList "Compilation error: ".toList ∧
      ¬ p.toList <:+: ("" ++ "Compilation error: ").toList := by
  decide +kernel

/-- The prefix that the judge puts before the text of the compiler holds no mark of its own. -/
theorem looksLikeCompileError_compilation (msg : String) :
    looksLikeCompileError ("Compilation error: " ++ msg) = true ↔ Marked msg := by
  have hfront : "Compilation error: ".toList = 'C' :: "ompilation error: ".toList := rfl
  have hl : ("Compilation error: " ++ msg).toList =
      'C' :: ("ompilation error: ".toList ++ msg.toList) := by
    rw [String.toList_append, hfront, List.cons_append]
  rw [looksLikeCompileError_iff hl (by decide) (by decide)]
  apply marked_congr
  intro p hp
  obtain ⟨hsep, hne⟩ := compileErrorMarks_separate_compilation p hp
  have h := Text.contains_append "" "Compilation error: " msg hsep hne
  rwa [String.empty_append] at h

def exitChar (c : Char) : Bool := c.isDigit || "Runtime error (exit -): ".toList.contains c

theorem digits_exitChar (n : Nat) : ∀ c ∈ (toString n).toList, exitChar c = true := by
  intro c hc
  simp [exitChar, isDigit_of_mem_toString hc]

theorem exitCode_exitChar (n : Int) : ∀ c ∈ (toString n).toList, exitChar c = true := by
  cases n with
  | ofNat n => exact digits_exitChar n
  | negSucc n =>
    have hsign : "-".toList.all exitChar = true := rfl
    intro c hc
    change c ∈ ("-" ++ toString (n + 1)).toList at hc
    rw [String.toList_append] at hc
    rcases List.mem_append.1 hc with hc | hc
    · exact List.all_eq_true.1 hsign c hc
    · exact digits_exitChar _ c hc

theorem exitHeader_exitChar (exitCode : Int) :
    ∀ c ∈ ("Runtime error (exit " ++ toString exitCode ++ "): ").toList, exitChar c = true := by
  have hfront : "Runtime error (exit ".toList.all exitChar = true := rfl
  have hback : "): ".toList.all exitChar = true := rfl
  intro c hc
  simp only [String.toList_append, List.mem_append] at hc
  rcases hc with (hc | hc) | hc
  · exact List.all_eq_true.1 hfront c hc
  · exact exitCode_exitChar exitCode c hc
  · exact List.all_eq_true.1 hback c hc

theorem compileErrorMarks_separate_exit : ∀ p ∈ compileErrorMarks,
    Text.Separates p.toList "): ".toList ∧ p.toList.all exitChar = false := by
  decide +kernel

theorem exitMessage_head (exitCode : Int) (output : String) :
    ∃ rest, (exitMessage exitCode output).toList = 'R' :: rest := by
  have hfront : "Runtime error (exit ".toList = 'R' :: "untime error (exit ".toList := rfl
  have hmessage (code out : String) :
      ("Runtime error (exit " ++ code ++ "): " ++ out).toList =
        'R' :: ("untime error (exit ".toList ++ (code ++ "): " ++ out).toList) := by
    rw [String.append_assoc, String.append_assoc, String.toList_append, hfront, List.cons_append,
      ← String.append_assoc]
  exact ⟨_, hmessage (toString exitCode) (trimSpace output)⟩

/-- The report of an exit code holds the marks of the output that follows it, and no others. -/
theorem looksLikeCompileError_exit (exitCode : Int) (output : String) :
    looksLikeCompileError (exitMessage exitCode output) = true ↔ Marked (trimSpace output) := by
  obtain ⟨rest, hl⟩ := exitMessage_head exitCode output
  rw [looksLikeCompileError_iff hl (by decide) (by decide)]
  apply marked_congr
  intro p hp
  obtain ⟨hsep, hall⟩ := compileErrorMarks_separate_exit p hp
  obtain ⟨c, hc, hne⟩ := List.all_eq_false.1 hall
  -- the header is made of other characters than the marks, whatever the exit code
  apply Text.contains_append ("Runtime error (exit " ++ toString exitCode) "): " _ hsep
  apply Text.not_infix_of_mem hc
  intro hmem
  exact hne (exitHeader_exitChar exitCode c hmem)

/-- Reading the error text attributes this outcome to the right phase: a failed compilation left one
of the marks in its text, and any other failure left none. -/
def Attributable : TestOutcome → Prop
  | .compileTimedOut => False
  | .compileFailed message => Marked message
  | .setupFailed message | .sandboxFailed message _ => looksLikeCompileError message = false
  | .crashed _ output => ¬ Marked (trimSpace output)
  | .timedOut | .finished _ => True

theorem attributable_iff (tc : TestCase) (runtime : Int) (o : TestOutcome) :
    (failureStatus (o.result tc runtime) = .compileError ↔ o.InCompile) ↔ Attributable o := by
  rw [failureStatus_eq_compileError_iff]
  cases o with
  | setupFailed message | sandboxFailed message =>
    simp only [TestOutcome.result, errorResult, failedResult, TestOutcome.InCompile, iff_false,
      Bool.not_eq_true, Attributable]
  | compileTimedOut =>
    simp only [TestOutcome.result, failedResult, TestOutcome.InCompile, iff_true, Attributable,
      iff_false]
    decide
  | compileFailed message =>
    simp only [TestOutcome.result, failedResult, TestOutcome.InCompile, iff_true, Attributable]
    exact looksLikeCompileError_compilation message
  | crashed exitCode output =>
    simp only [TestOutcome.result, failedResult, TestOutcome.InCompile, iff_false, Attributable]
    exact not_congr (looksLikeCompileError_exit exitCode output)
  | timedOut =>
    simp only [TestOutcome.result, failedResult, TestOutcome.InCompile, iff_false, Attributable,
      iff_true]
    decide
  | finished output =>
    simp only [TestOutcome.result, comparedResult, TestOutcome.InCompile, iff_false, Attributable,
      iff_true]
    decide

abbrev outcomeOf (s : Server) (lc : LanguageConfig) (code : String) (timeLimitMs : Int)
    (test : Host × TestCase) : TestOutcome :=
  testOutcome s test.1 lc code test.2 timeLimitMs

def firstFailingOutcome (s : Server) (lc : LanguageConfig) (code : String) (timeLimitMs : Int)
    (tests : List (Host × TestCase)) : Option TestOutcome :=
  (tests.find? fun test => !decide ((outcomeOf s lc code timeLimitMs test).Passes test.2)).map
    (outcomeOf s lc code timeLimitMs)

theorem executeTestCase_registry (hw : wrapperLanguage? language = none)
    (hl : s.languages.get language = some lc) (host : Host) (code : String) (tc : TestCase)
    (timeLimitMs : Int) :
    executeTestCase s host code language tc timeLimitMs =
      (testOutcome s host lc code tc timeLimitMs).result tc host.elapsed := by
  simp only [executeTestCase, hw, hl]
  exact executeFromConfig_eq s host (s.languages.valid lc (LanguageRegistry.mem_of_get hl)) ..

theorem firstFailing_runConcurrent (hw : wrapperLanguage? language = none)
    (hl : s.languages.get language = some lc) (code : String) (timeLimitMs : Int)
    (tests : List (Host × TestCase)) :
    firstFailing (runConcurrent s code language timeLimitMs tests) =
      (tests.find? fun test => !decide ((outcomeOf s lc code timeLimitMs test).Passes test.2)).map
        fun test => (outcomeOf s lc code timeLimitMs test).result test.2 test.1.elapsed := by
  have hrun : runConcurrent s code language timeLimitMs tests =
      tests.map fun test =>
        (outcomeOf s lc code timeLimitMs test).result test.2 test.1.elapsed := by
    apply List.map_congr_left
    intro test _
    exact executeTestCase_registry hw hl test.1 code test.2 timeLimitMs
  have hfails : (fun res : TestResult => !res.passed) ∘ (fun test : Host × TestCase =>
      (outcomeOf s lc code timeLimitMs test).result test.2 test.1.elapsed) =
      fun test => !decide ((outcomeOf s lc code timeLimitMs test).Passes test.2) := by
    funext test
    apply congrArg not
    rw [Bool.eq_iff_iff, decide_eq_true_iff]
    exact TestOutcome.result_passed_iff ..
  rw [firstFailing, hrun, List.find?_map, hfails]

/-- For a language of the registry the judge answers `compile_error` exactly when the first failing
test failed in its compile step, provided that the text of that failure is attributable; and where
it is not, the answer is wrong. -/
theorem compileError_iff (hw : wrapperLanguage? language = none)
    (hl : s.languages.get language = some lc) (code : String) (timeLimitMs : Int)
    (tests : List (Host × TestCase)) :
    (aggregateStatus (runConcurrent s code language timeLimitMs tests) = .compileError ↔
        ∃ o, firstFailingOutcome s lc code timeLimitMs tests = some o ∧ o.InCompile) ↔
      ∀ o, firstFailingOutcome s lc code timeLimitMs tests = some o → Attributable o := by
  rw [aggregateStatus_eq, firstFailing_runConcurrent hw hl, firstFailingOutcome]
  cases tests.find? fun test =>
      !decide ((outcomeOf s lc code timeLimitMs test).Passes test.2) with
  | none => simp
  | some test =>
    simp only [Option.map_some, Option.getD_some, Option.some.injEq, exists_eq_left',
      forall_eq']
    exact attributable_iff ..

def rejectedTests : List (Host × TestCase) :=
  [(scriptedHost (1, "main.c:1:1: error: expected ';'") (0, ""), ⟨"1", "1"⟩)]

def printingTests : List (Host × TestCase) :=
  [(scriptedHost (0, "") (1, "expected 3 numbers"), ⟨"1", "1"⟩)]

theorem wrapperLanguage?_c : wrapperLanguage? "c" = none := rfl

theorem shippedServer_c : shippedServer.languages.get "c" = some cConfig := rfl

theorem compileError_rejected :
    (aggregateStatus (runConcurrent shippedServer "int main() {}" "c" 5000 rejectedTests) =
          .compileError ↔
        ∃ o, firstFailingOutcome shippedServer cConfig "int main() {}" 5000 rejectedTests = some o ∧
          o.InCompile) ↔
      ∀ o, firstFailingOutcome shippedServer cConfig "int main() {}" 5000 rejectedTests = some o →
        Attributable o :=
  compileError_iff wrapperLanguage?_c shippedServer_c "int main() {}" 5000 rejectedTests

/-- What a program prints before it exits with status 1 makes it a compile error. -/
theorem compileError_from_output :
    ¬ ∀ (s : Server) (language : String) (lc : LanguageConfig) (code : String) (timeLimitMs : Int)
      (tests : List (Host × TestCase)), wrapperLanguage? language = none →
      s.languages.get language = some lc → lc.kind = "compiled" →
        (aggregateStatus (runConcurrent s code language timeLimitMs tests) = .compileError ↔
          ∃ o, firstFailingOutcome s lc code timeLimitMs tests = some o ∧ o.InCompile) := by
  intro h
  have hiff := h shippedServer "c" cConfig "int main() {}" 5000 printingTests wrapperLanguage?_c
    shippedServer_c rfl
  have hstatus : aggregateStatus
      (runConcurrent shippedServer "int main() {}" "c" 5000 printingTests) = .compileError := by
    decide +kernel
  have hout : firstFailingOutcome shippedServer cConfig "int main() {}" 5000 printingTests =
      some (.crashed 1 "expected 3 numbers") := by decide +kernel
  obtain ⟨o, ho, hcompile⟩ := hiff.1 hstatus
  cases hout.symm.trans ho
  exact hcompile

end Leetrank
