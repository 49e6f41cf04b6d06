import Leetrank.Judge.Execute

namespace Leetrank
set_option autoImplicit true

inductive Stream where
  | stdout
  | stderr
  deriving DecidableEq

inductive ProcessEnd where
  | exited (code : Nat)
  | signaled (signal : Nat)
  | timedOut
  deriving DecidableEq

/-- A run of the user's program: how it ended and what it wrote, in the order of the writes. -/
structure ProcessRun where
  ending : ProcessEnd
  writes : List (Stream × String)

def writtenTo (p : Stream → Bool) (writes : List (Stream × String)) : String :=
  String.join ((writes.filter fun w => p w.1).map Prod.snd)

def ProcessRun.stdout (run : ProcessRun) : String := writtenTo (· = .stdout) run.writes

def ProcessRun.stderr (run : ProcessRun) : String := writtenTo (· = .stderr) run.writes

def ProcessRun.combined (run : ProcessRun) : String := writtenTo (fun _ => true) run.writes

def ProcessEnd.succeeded : ProcessEnd → Bool
  | .exited code => code == 0
  | .signaled _ | .timedOut => false

/-- Python's `str.splitlines`. -/
def pyLineBreak (c : Char) : Bool :=
  (0xa ≤ c.val && c.val ≤ 0xd) || (0x1c ≤ c.val && c.val ≤ 0x1e) || c.val == 0x85 ||
    c.val == 0x2028 || c.val == 0x2029

def splitlines : List Char → List (List Char)
  | [] => []
  | '\r' :: '\n' :: s => [] :: splitlines s
  | c :: s =>
    if pyLineBreak c then [] :: splitlines s
    else
      match splitlines s with
      | [] => [[c]]
      | line :: lines => (c :: line) :: lines

/-- Ruby's `String#split` on newlines drops empty lines at the end. -/
def rubyLines (s : List Char) : List (List Char) :=
  (Text.splitAt (· == '\n') s).rdropWhile List.isEmpty

/-- The error text of a failed run: long traces are cut to their last ten lines. -/
def trimmedTrace (isSpace : Char → Bool) (lines : List Char → List (List Char)) (stderr : String) :
    String :=
  let stripped := Text.trim isSpace stderr
  if (lines stripped.toList).length > 10 then Text.lastLines 10 (lines stripped.toList)
  else stripped

def pythonTrace (stderr : String) : String := trimmedTrace pySpace splitlines stderr

def jsTrace (stderr : String) : String := trimmedTrace jsSpace (Text.splitAt (· == '\n')) stderr

def rubyTrace (stderr : String) : String := trimmedTrace rubySpace rubyLines stderr

def runnerReport (trace : String → String) (run : ProcessRun) : RunnerOutput :=
  if run.ending.succeeded then ⟨run.stdout, "", false⟩
  else ⟨run.stdout, trace run.stderr, false⟩

def timedOutReport : RunnerOutput := ⟨"", "", true⟩

def pythonRunner (run : ProcessRun) : RunnerOutput :=
  if run.ending = .timedOut then timedOutReport else runnerReport pythonTrace run

/-- `spawnSync` stops a process by SIGTERM, so any death by that signal counts as a time-out. -/
def jsRunner (run : ProcessRun) : RunnerOutput :=
  if run.ending = .signaled 15 ∨ run.ending = .timedOut then timedOutReport
  else runnerReport jsTrace run

def rubyRunner (run : ProcessRun) : RunnerOutput :=
  if run.ending = .timedOut then timedOutReport else runnerReport rubyTrace run

def WrapperLanguage.runner : WrapperLanguage → ProcessRun → RunnerOutput
  | .python => pythonRunner
  | .javascript => jsRunner
  | .ruby => rubyRunner

def WrapperLanguage.trace : WrapperLanguage → String → String
  | .python => pythonTrace
  | .javascript => jsTrace
  | .ruby => rubyTrace

end Leetrank
