import Leetrank.Judge.Languages
import Leetrank.Judge.Protocol

namespace Leetrank
set_option autoImplicit true

open Paths

structure RunnerOutput where
  output : String
  error : String
  timedOut : Bool
  deriving DecidableEq, Repr

/-- What the host reads from a runner: its document, or any other text. -/
inductive RunnerStdout where
  | json (out : RunnerOutput)
  | raw (text : String)

instance : Inhabited RunnerStdout := ⟨.raw ""⟩

structure Server where
  mode : SandboxMode
  runnersDir : Path
  languages : LanguageRegistry
  profiles : ProfileRegistry

def Server.shipped (mode : SandboxMode) (runnersDir : Path) (profiles : ProfileRegistry) : Server :=
  ⟨mode, runnersDir, shippedRegistry, profiles⟩

def shippedServer : Server := .shipped .off ["srv", "runners"] ⟨⟨256, 5, 10⟩, []⟩

/-- The answers of the operating system to one test: for the temporary files, for the commands, and
whether the contexts of the compile step and of the whole test are over behind them. -/
structure Host where
  createTemp : String → Except String Path
  mkdirTemp : String → Except String Path
  writeFile : Path → String → Option String
  compile : Command → CmdRun String
  compileDeadline : Bool
  run : Command → CmdRun String
  wrapper : Command → CmdRun RunnerStdout
  deadline : Bool
  elapsed : Int

/-- A host on which the compiler and the program write the given texts and exit with the given
codes. -/
def scriptedHost (compiler : Int × String) (program : Int × String) : Host where
  createTemp := fun _ => .ok ["tmp", "judge_1.py"]
  mkdirTemp := fun _ => .ok ["tmp", "judge_c_1"]
  writeFile := fun _ _ => none
  compile := fun _ => ⟨compiler.2, some compiler.1, false, some .exitError⟩
  compileDeadline := false
  run := fun _ => ⟨program.2, some program.1, false, some .exitError⟩
  wrapper := fun _ => ⟨.raw "", some 0, false, none⟩
  deadline := false
  elapsed := 7

def failedResult (tc : TestCase) (runtime : Int) (actual error : String) : TestResult where
  passed := false
  input := tc.input
  expected := tc.expected
  actual := actual
  runtime := runtime
  error := error

def errorResult (tc : TestCase) (msg : String) (runtime : Int) : TestResult :=
  failedResult tc runtime "" msg

def comparedResult (tc : TestCase) (runtime : Int) (output : String) : TestResult where
  passed := trimSpace output == trimSpace tc.expected
  input := tc.input
  expected := tc.expected
  actual := trimSpace output
  runtime := runtime
  error := ""

/-- Java is special: the file is named after the public class. -/
def sourceName (lc : LanguageConfig) : String :=
  if lc.mainClass = "" then "main" ++ lc.extension else lc.mainClass ++ lc.extension

def execContext (lc : LanguageConfig) (workdir : Path) : ExecContext where
  workdir := workdir
  srcPath := join workdir (sourceName lc)
  binPath := join workdir "solution"

def compileLimits : SandboxLimits where
  memMB := 512
  cpuSeconds := 15
  wallSeconds := 15
  maxProcesses := 32
  maxOpenFiles := 256
  maxFileMB := 64

def compileRequest (lc : LanguageConfig) (ectx : ExecContext) : SandboxRequest where
  workdir := some ectx.workdir
  argv := expandPlaceholders lc.compileCmd ectx
  stdin := ""
  limits := compileLimits

def runRequest (s : Server) (lc : LanguageConfig) (ectx : ExecContext) (tc : TestCase)
    (timeLimitMs : Int) : SandboxRequest where
  workdir := some ectx.workdir
  argv := expandPlaceholders lc.runCmd ectx
  stdin := tc.input
  limits := limitsForLang s.profiles lc.id timeLimitMs

/-- The text of a failed compilation: what the compiler wrote, or else the sandbox's own error. -/
def compileMessage (res : SandboxResult String) : String :=
  let msg := trimSpace res.combined
  if msg = "" then res.err.getD "" else msg

def compileStep (s : Server) (host : Host) (lc : LanguageConfig) (ectx : ExecContext) :
    Option String :=
  if lc.compileCmd = [] then none
  else if expandPlaceholders lc.compileCmd ectx = [] then some ("Empty compileCmd for " ++ lc.id)
  else
    let res := runSandboxed s.mode host.compile (compileRequest lc ectx)
    if res.timedOut || host.compileDeadline then some "Compilation Time Limit Exceeded"
    else if res.err ≠ none ∨ res.exitCode ≠ 0 then
      some ("Compilation error: " ++ compileMessage res)
    else none

def exitMessage (exitCode : Int) (output : String) : String :=
  "Runtime error (exit " ++ toString exitCode ++ "): " ++ trimSpace output

def runStep (s : Server) (host : Host) (lc : LanguageConfig) (ectx : ExecContext) (tc : TestCase)
    (timeLimitMs : Int) : TestResult :=
  if expandPlaceholders lc.runCmd ectx = [] then
    errorResult tc ("Empty runCmd for " ++ lc.id) host.elapsed
  else
    let res := runSandboxed s.mode host.run (runRequest s lc ectx tc timeLimitMs)
    if res.timedOut || host.deadline then
      failedResult tc host.elapsed "" "Time Limit Exceeded"
    else
      match res.err with
      | some err => failedResult tc host.elapsed (trimSpace res.combined) err
      | none =>
        if res.exitCode ≠ 0 then
          failedResult tc host.elapsed (trimSpace res.combined)
            (exitMessage res.exitCode res.combined)
        else comparedResult tc host.elapsed res.combined

def executeFromConfig (s : Server) (host : Host) (lc : LanguageConfig) (code : String)
    (tc : TestCase) (timeLimitMs : Int) : TestResult :=
  match host.mkdirTemp ("judge_" ++ lc.id ++ "_*") with
  | .error err => errorResult tc ("Failed to create workdir: " ++ err) host.elapsed
  | .ok workdir =>
    let ectx := execContext lc workdir
    match host.writeFile ectx.srcPath code with
    | some err => errorResult tc ("Failed to write source: " ++ err) host.elapsed
    | none =>
      match compileStep s host lc ectx with
      | some err => failedResult tc host.elapsed "" err
      | none => runStep s host lc ectx tc timeLimitMs

inductive WrapperLanguage where
  | python
  | javascript
  | ruby
  deriving DecidableEq

def WrapperLanguage.text : WrapperLanguage → String
  | .python => "python"
  | .javascript => "javascript"
  | .ruby => "ruby"

def wrapperLanguage? (language : String) : Option WrapperLanguage :=
  [WrapperLanguage.python, .javascript, .ruby].find? fun w => w.text = language

def extensionFor : WrapperLanguage → String
  | .python => ".py"
  | .javascript => ".js"
  | .ruby => ".rb"

def wrapperArgv (s : Server) (w : WrapperLanguage) (tmpPath : Path) : List String :=
  match w with
  | .python => ["python3", (join s.runnersDir "python_runner.py").text, tmpPath.text]
  | .javascript => ["node", (join s.runnersDir "js_runner.js").text, tmpPath.text]
  | .ruby => ["ruby", (join s.runnersDir "ruby_runner.rb").text, tmpPath.text]

def wrapperRequest (s : Server) (w : WrapperLanguage) (tmpPath : Path) (tc : TestCase)
    (timeLimitMs : Int) : SandboxRequest where
  workdir := some (parent tmpPath)
  argv := wrapperArgv s w tmpPath
  stdin := tc.input
  limits := limitsForLang s.profiles w.text timeLimitMs

def runnerResult (tc : TestCase) (runtime : Int) (out : RunnerOutput) : TestResult :=
  if out.timedOut then failedResult tc runtime "" "Time Limit Exceeded"
  else if out.error ≠ "" then
    failedResult tc runtime (trimSpace out.output) (trimSpace out.error)
  else comparedResult tc runtime out.output

/-- The part of `executeTestCase` behind the temporary file. -/
def wrapperStep (s : Server) (host : Host) (w : WrapperLanguage) (tmpPath : Path) (tc : TestCase)
    (timeLimitMs : Int) : TestResult :=
  let res := runSandboxed s.mode host.wrapper (wrapperRequest s w tmpPath tc timeLimitMs)
  if res.timedOut || host.deadline then failedResult tc host.elapsed "" "Time Limit Exceeded"
  else
    match res.combined with
    | .json out => runnerResult tc host.elapsed out
    | .raw text =>
      match res.err with
      | some err => errorResult tc (err ++ ": " ++ trimSpace text) host.elapsed
      | none => errorResult tc (trimSpace text) host.elapsed

def executeWrapper (s : Server) (host : Host) (w : WrapperLanguage) (code : String)
    (tc : TestCase) (timeLimitMs : Int) : TestResult :=
  match host.createTemp ("judge_*" ++ extensionFor w) with
  | .error err => errorResult tc ("Failed to create temp file: " ++ err) host.elapsed
  | .ok tmpPath =>
    match host.writeFile tmpPath code with
    | some err => errorResult tc ("Failed to write code: " ++ err) host.elapsed
    | none => wrapperStep s host w tmpPath tc timeLimitMs

def executeTestCase (s : Server) (host : Host) (code language : String) (tc : TestCase)
    (timeLimitMs : Int) : TestResult :=
  match wrapperLanguage? language with
  | some w => executeWrapper s host w code tc timeLimitMs
  | none =>
    match s.languages.get language with
    | none => errorResult tc ("Unsupported language: " ++ language) host.elapsed
    | some lc => executeFromConfig s host lc code tc timeLimitMs

/-- The tests of one request, each with the answers of the system to it. -/
def runConcurrent (s : Server) (code language : String) (timeLimitMs : Int)
    (tests : List (Host × TestCase)) : List TestResult :=
  tests.map fun (host, tc) => executeTestCase s host code language tc timeLimitMs

end Leetrank
