import Leetrank.Library.Path
import Leetrank.Strings

namespace Leetrank
set_option autoImplicit true

open Paths

structure SandboxLimits where
  memMB : Int
  cpuSeconds : Int
  wallSeconds : Int
  maxProcesses : Int
  maxOpenFiles : Int
  maxFileMB : Int
  deriving DecidableEq

def defaultSandboxLimits : SandboxLimits where
  memMB := 256
  cpuSeconds := 5
  wallSeconds := 10
  maxProcesses := 16
  maxOpenFiles := 64
  maxFileMB := 32

/-- A zero field stands for the default. -/
def SandboxLimits.applyDefaults (l : SandboxLimits) : SandboxLimits where
  memMB := if l.memMB = 0 then defaultSandboxLimits.memMB else l.memMB
  cpuSeconds := if l.cpuSeconds = 0 then defaultSandboxLimits.cpuSeconds else l.cpuSeconds
  wallSeconds := if l.wallSeconds = 0 then defaultSandboxLimits.wallSeconds else l.wallSeconds
  maxProcesses := if l.maxProcesses = 0 then defaultSandboxLimits.maxProcesses else l.maxProcesses
  maxOpenFiles := if l.maxOpenFiles = 0 then defaultSandboxLimits.maxOpenFiles else l.maxOpenFiles
  maxFileMB := if l.maxFileMB = 0 then defaultSandboxLimits.maxFileMB else l.maxFileMB

structure SandboxRequest where
  workdir : Option Path
  argv : List String
  stdin : String
  limits : SandboxLimits

inductive SandboxMode where
  | nsjail (njpath : String)
  | off
  deriving DecidableEq

inductive NsjailFlag where
  | once
  | reallyQuiet
  | timeLimit (seconds : Int)
  | rlimit (resource : String) (value : Int)
  | user (id : Nat)
  | group (id : Nat)
  | disableCloneNewuser
  | bindmountRo (dir : Path)
  | tmpfsmount (dir : Path)
  | env (binding : String)
  | bindmount (src dst : Path)
  | cwd (dir : Path)
  deriving DecidableEq

def NsjailFlag.args : NsjailFlag → List String
  | .once => ["--mode", "o"]
  | .reallyQuiet => ["--really_quiet"]
  | .timeLimit seconds => ["--time_limit", toString seconds]
  | .rlimit resource value => ["--rlimit_" ++ resource, toString value]
  | .user id => ["--user", toString id]
  | .group id => ["--group", toString id]
  | .disableCloneNewuser => ["--disable_clone_newuser"]
  | .bindmountRo dir => ["--bindmount_ro", dir.text]
  | .tmpfsmount dir => ["--tmpfsmount", dir.text]
  | .env binding => ["--env", binding]
  | .bindmount src dst => ["--bindmount", src.text ++ ":" ++ dst.text]
  | .cwd dir => ["--cwd", dir.text]

/-- The working directory is mounted read-write at its own place. -/
def workdirFlags : Option Path → List NsjailFlag
  | some workdir => [.bindmount (clean workdir) (clean workdir), .cwd (clean workdir)]
  | none => [.cwd ["tmp"]]

def nsjailFlags (workdir : Option Path) (l : SandboxLimits) : List NsjailFlag :=
  [.once, .reallyQuiet, .timeLimit l.wallSeconds, .rlimit "as" l.memMB, .rlimit "cpu" l.cpuSeconds,
    .rlimit "nproc" l.maxProcesses, .rlimit "nofile" l.maxOpenFiles, .rlimit "fsize" l.maxFileMB,
    .user 65534, .group 65534, .disableCloneNewuser, .bindmountRo ["usr"], .bindmountRo ["bin"],
    .bindmountRo ["lib"], .bindmountRo ["lib64"], .bindmountRo ["etc"], .tmpfsmount ["tmp"],
    .env "PATH=/usr/local/sbin:/usr/local/bin:/usr/sbin:/usr/bin:/sbin:/bin", .env "HOME=/tmp",
    .env "LANG=C.UTF-8"] ++ workdirFlags workdir

def buildNsjailArgv (njpath : String) (workdir : Option Path) (l : SandboxLimits)
    (inner : List String) : List String :=
  njpath :: (nsjailFlags workdir l).flatMap NsjailFlag.args ++ "--" :: inner

def writableMounts (workdir : Option Path) (l : SandboxLimits) : List Path :=
  (nsjailFlags workdir l).filterMap fun
    | .bindmount src _ => some src
    | _ => none

theorem writableMounts_eq (workdir : Option Path) (l : SandboxLimits) :
    writableMounts workdir l = (workdir.map clean).toList := by
  cases workdir <;> rfl

structure Command where
  argv : List String
  dir : Option Path
  stdin : String

inductive CmdError where
  | exitError
  | other (message : String)
  deriving DecidableEq

/-- How a command ended: what it wrote, the exit code of the process if there was one, whether the
deadline of its context had passed, and the error of `cmd.Run`. -/
structure CmdRun (β : Type u) where
  combined : β
  exitCode : Option Int
  deadline : Bool
  err : Option CmdError

structure SandboxResult (β : Type u) where
  combined : β
  exitCode : Int
  timedOut : Bool
  err : Option String

def sandboxCommand (mode : SandboxMode) (req : SandboxRequest) : Command :=
  match mode with
  | .nsjail njpath =>
    ⟨buildNsjailArgv njpath req.workdir req.limits.applyDefaults req.argv, none, req.stdin⟩
  | .off => ⟨req.argv, req.workdir, req.stdin⟩

/-- An ordinary non-zero exit is not an error of the sandbox. -/
def cmdFailure : Option CmdError → Option String
  | some (.other message) => some message
  | some .exitError | none => none

def runSandboxed [Inhabited β] (mode : SandboxMode) (exec : Command → CmdRun β)
    (req : SandboxRequest) : SandboxResult β :=
  if req.argv = [] then ⟨default, -1, false, some "sandbox: empty argv"⟩
  else
    let run := exec (sandboxCommand mode req)
    if run.deadline then ⟨run.combined, run.exitCode.getD (-1), true, none⟩
    else ⟨run.combined, run.exitCode.getD (-1), false, cmdFailure run.err⟩

theorem runSandboxed_const [Inhabited β] (mode : SandboxMode) (run : CmdRun β)
    (req : SandboxRequest) (h : req.argv ≠ []) :
    runSandboxed mode (fun _ => run) req =
      ⟨run.combined, run.exitCode.getD (-1), run.deadline,
        if run.deadline then none else cmdFailure run.err⟩ := by
  rw [runSandboxed, if_neg h]
  cases hd : run.deadline <;> simp [hd]

end Leetrank
