import Leetrank.Judge.Execute

namespace Leetrank
set_option autoImplicit true

def dangerousPatterns : List (String × List String) :=
  [("python", ["import os", "import subprocess", "import shutil", "import socket",
      "import ctypes", "import importlib", "__import__", "__builtins__", "eval(", "compile(",
      "globals(", "locals(", "vars(", "open('/etc", "open(\"/etc", "open('/proc", "open(\"/proc",
      "open('/sys", "open(\"/sys", "open('/root", "open(\"/root"]),
    ("javascript", ["require('child_process')", "require(\"child_process\")", "require('fs')",
      "require(\"fs\")", "require('net')", "require(\"net\")", "process.exit", "process.env",
      "process.binding", "__dirname", "__filename", "globalThis.process"]),
    ("typescript", ["require('child_process')", "require(\"child_process\")", "require('fs')",
      "require(\"fs\")", "require('net')", "require(\"net\")", "from 'child_process'",
      "from \"child_process\"", "from 'fs'", "from \"fs\"", "from 'net'", "from \"net\"",
      "process.exit", "process.env", "process.binding", "__dirname", "__filename"]),
    ("ruby", ["require 'open3'", "require \"open3\"", "require 'fileutils'",
      "require \"fileutils\"", "system(", "`", "exec(", "spawn(", "File.delete", "FileUtils.rm",
      "IO.popen", "Kernel.system", "Open3"]),
    ("go", ["\"os/exec\"", "\"syscall\"", "\"net\"", "\"net/http\"", "\"os\"", "\"io/ioutil\"",
      "\"bufio\"", "os.Remove", "os.Exit", "syscall."]),
    ("c", ["#include <unistd.h>", "#include <sys/socket.h>", "#include <netdb.h>", "system(",
      "popen(", "fork(", "execve(", "execl(", "socket(", "connect(", "fopen(/etc",
      "fopen(\"/etc"]),
    ("cpp", ["#include <unistd.h>", "#include <sys/socket.h>", "#include <netdb.h>",
      "std::system", "system(", "popen(", "fork(", "execve(", "execl(", "socket(", "connect(",
      "std::ifstream(\"/etc"]),
    ("rust", ["std::process::Command", "std::process::exit", "std::net::", "std::fs::",
      "std::os::unix", "unsafe ", "unsafe\x7b", "extern ", "asm!"]),
    ("java", ["Runtime.getRuntime", "ProcessBuilder", "System.exit", "java.net.", "java.io.File",
      "java.io.FileWriter", "java.io.FileOutputStream", "java.lang.reflect.", "sun.misc.Unsafe",
      "Class.forName"]),
    ("php", ["system(", "exec(", "shell_exec(", "passthru(", "popen(", "proc_open(", "fopen(",
      "file_get_contents(/etc", "file_get_contents(\"/etc", "eval(", "assert(", "include ",
      "require ", "include_once", "require_once"]),
    ("bash", ["rm -rf", ">/dev/", "</dev/tcp", "curl ", "wget ", "nc ", "ncat ", "/etc/passwd",
      "/etc/shadow", "$(curl", "$(wget", "chmod +x /", "ssh ", "scp "]),
    ("sql", ["attach database", "load_extension", "pragma ", ".system", ".shell", ".import",
      "vacuum into", "create virtual table", "writefile"]),
    ("kotlin", ["Runtime.getRuntime", "ProcessBuilder", "System.exit",
      "kotlin.system.exitProcess", "java.io.File", "java.net.", "java.io.FileWriter",
      "java.io.FileOutputStream", "java.lang.reflect.", "sun.misc.Unsafe", "Class.forName"]),
    ("csharp", ["System.Diagnostics.Process", "System.IO.File", "System.IO.Directory",
      "System.Net.", "Environment.Exit", "System.Reflection.", "Assembly.Load",
      "System.Runtime.InteropServices"]),
    ("r", ["system(", "system2(", "Sys.getenv", "file.remove", "unlink(", "readLines(",
      "writeLines(", "download.file(", "url(", "socketConnection(", "pipe(", "fifo("]),
    ("lua", ["os.execute", "os.remove", "io.open", "loadfile", "dofile", "require(\"io\")",
      "require'io'", "require(\"os\")", "require'os'", "require(\"socket\")", "require'socket'"]),
    ("perl", ["system(", "exec(", "qx\x7b", "qx/", "open(", "unlink ", "unlink(", "`"]),
    ("scala", ["sys.process.", "Runtime.getRuntime", "java.io.File", "java.net.",
      "scala.sys.process", "System.exit", "ProcessBuilder", "java.lang.reflect.",
      "Class.forName"]),
    ("elixir", ["System.cmd", ":os.cmd", "File.rm", "File.write", "Port.open", ":file.",
      ":gen_tcp", ":httpc", "System.halt"]),
    ("d", ["import std.process", "import std.socket", "import std.file", "executeShell",
      "spawnProcess", "spawnShell"]),
    ("pascal", ["uses Process", "uses Sockets", "ExecuteProcess", "FpExec", "fpExecve", "fpFork",
      "fpSocket"]),
    ("nim", ["import os", "import osproc", "import net", "import nativesockets", "execShellCmd",
      "execProcess", "startProcess", "writeFile"]),
    ("fortran", ["call system", "call execute_command_line", "open(unit="]),
    ("groovy", [".execute()", "Runtime.getRuntime", "ProcessBuilder", "java.io.File", "java.net.",
      "System.exit"]),
    ("clojure", ["(sh ", "(clojure.java.shell/sh", "(java.lang.Runtime", "(.exec", "(System/exit",
      "java.io.File", "java.net."]),
    ("haskell", ["System.Process", "System.IO", "System.Directory", "Network.", "Foreign.",
      "unsafePerformIO", "unsafeCoerce"]),
    ("ocaml", ["Unix.system", "Unix.execv", "Unix.fork", "Unix.socket", "Sys.command",
      "open_process", "Stdlib.exit"]),
    ("racket", ["(system ", "(process ", "(subprocess ", "(open-input-file", "(open-output-file",
      "(file-exists? \"/etc"]),
    ("sbcl", ["(sb-ext:run-program", "(sb-ext:exit", "(sb-ext:quit", "(uiop:run-program",
      "(open ", "(with-open-file", "sb-bsd-sockets", "sb-posix:"]),
    ("erlang", ["os:cmd", "erlang:halt", "file:delete", "file:write_file", "gen_tcp:", "ssh:",
      "httpc:"]),
    ("fsharp", ["System.Diagnostics.Process", "System.IO.File", "System.IO.Directory",
      "System.Net.", "Environment.Exit", "Assembly.Load"]),
    ("julia", ["run(", "Cmd(", "readchomp(", "ENV[", "download(", "open(", "rm("]),
    ("tcl", ["exec ", "open |", "socket ", "file delete", "puts -nonewline "]),
    ("awk", ["system(", "getline cmd", "| getline", "close("])]

def isSafe (code language : String) : Bool :=
  match dangerousPatterns.lookup language with
  | none => true
  | some patterns => patterns.all fun p => !Text.contains (toLower code) (toLower p)

def errorResponse (status : JudgeStatus) (error : String) : ExecuteResponse :=
  ⟨[⟨false, "", "", "", 0, error⟩], status⟩

def effectiveTimeLimit (timeLimit : Int) : Int :=
  if timeLimit ≤ 0 ∨ timeLimit > 10000 then 5000 else timeLimit

/-- The body of `executeHandler` behind the decoding of the request. -/
def handleRequest (s : Server) (acquireErr : Option String) (hosts : Nat → Host)
    (req : ExecuteRequest) : Nat × ExecuteResponse :=
  let language := toLower (trimSpace req.language)
  if (s.languages.get language).isNone then
    (400, errorResponse .error ("Unsupported language: " ++ language))
  else if trimSpace req.code = "" then (400, errorResponse .error "Code cannot be empty")
  else if req.testCases.length = 0 then
    (400, errorResponse .error "At least one test case is required")
  else if req.testCases.length > 20 then
    (400, errorResponse .error "Maximum 20 test cases allowed per request")
  else if !isSafe req.code language then
    (200, errorResponse .securityError "Forbidden: dangerous operations detected in code")
  else
    match acquireErr with
    | some err => (503, errorResponse .busy err)
    | none =>
      let results := runConcurrent s req.code language (effectiveTimeLimit req.timeLimit)
        (req.testCases.mapIdx fun i tc => (hosts i, tc))
      (200, ⟨results, aggregateStatus results⟩)

/-- The handler, given the decision of the rate limiter, the decoded body if it is JSON, and the
error of the scheduler if there is one. -/
def executeHandler (s : Server) (allowed : Bool) (body : Option ExecuteRequest)
    (acquireErr : Option String) (hosts : Nat → Host) : Nat × ExecuteResponse :=
  if !allowed then
    (429, errorResponse .rateLimited "Too many requests. Please slow down.")
  else
    match body with
    | none => (400, errorResponse .error "Invalid JSON request body")
    | some req => handleRequest s acquireErr hosts req

end Leetrank
