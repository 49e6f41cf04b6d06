import Leetrank.Judge.Sandbox

namespace Leetrank
set_option autoImplicit true

open Paths

structure LanguageConfig where
  id : String
  extension : String
  kind : String
  compileCmd : List String
  runCmd : List String
  mainClass : String
  deriving DecidableEq

/-- What the loader demands of an entry. -/
structure LanguageConfig.Valid (lc : LanguageConfig) : Prop where
  id_ne : lc.id ≠ ""
  extension_ne : lc.extension ≠ ""
  runCmd_ne : lc.runCmd ≠ []
  compileCmd_ne : lc.kind = "compiled" → lc.compileCmd ≠ []

/-- The configurations by id; every entry passed the loader's checks. -/
structure LanguageRegistry where
  byId : List LanguageConfig
  valid : ∀ lc ∈ byId, lc.Valid
  nodup : (byId.map LanguageConfig.id).Nodup

def LanguageRegistry.lookup (r : LanguageRegistry) (id : String) : Option LanguageConfig :=
  r.byId.find? fun lc => lc.id = id

/-- `Get`, whatever the lower case of a letter is. -/
def LanguageRegistry.getBy (r : LanguageRegistry) (m : CaseMap) (id : String) :
    Option LanguageConfig :=
  r.lookup (m.toLower (trimSpace id))

/-- `Get`, which ignores the case of letters and the space around the id. -/
def LanguageRegistry.get (r : LanguageRegistry) (id : String) : Option LanguageConfig :=
  r.getBy goCaseMap id

def LanguageRegistry.empty : LanguageRegistry := ⟨[], by simp, by simp⟩

theorem LanguageRegistry.lookup_eq_none {r : LanguageRegistry} {id : String}
    (h : r.lookup id = none) :
    id ∉ r.byId.map LanguageConfig.id := by
  intro hid
  obtain ⟨lc, hlc, rfl⟩ := List.mem_map.1 hid
  have hn := List.find?_eq_none.1 h lc hlc
  exact hn (decide_eq_true rfl)

/-- A character as the verb `%q` prints it, for which every one outside ASCII is a printable one. -/
def quoteChar (c : Char) : List Char :=
  match c.toNat with
  | 34 | 92 => [Char.ofNat 92, c]
  | 7 => [Char.ofNat 92, 'a']
  | 8 => [Char.ofNat 92, 'b']
  | 9 => [Char.ofNat 92, 't']
  | 10 => [Char.ofNat 92, 'n']
  | 11 => [Char.ofNat 92, 'v']
  | 12 => [Char.ofNat 92, 'f']
  | 13 => [Char.ofNat 92, 'r']
  | n =>
    if n < 32 ∨ n = 127 then
      [Char.ofNat 92, 'x', Nat.digitChar (n / 16), Nat.digitChar (n % 16)]
    else [c]

def quote (s : String) : String :=
  "\"" ++ String.ofList (s.toList.flatMap quoteChar) ++ "\""

/-- One round of the loader's loop over the entries of the file. -/
def LanguageRegistry.add (r : LanguageRegistry) (path : String) (i : Nat) (lc : LanguageConfig) :
    Except String LanguageRegistry :=
  if hid : lc.id = "" then .error (path ++ "[" ++ toString i ++ "]: id required")
  else if hext : lc.extension = "" then
    .error (path ++ "[" ++ lc.id ++ "]: extension required")
  else if hrun : lc.runCmd = [] then .error (path ++ "[" ++ lc.id ++ "]: runCmd required")
  else if hcomp : lc.kind = "compiled" ∧ lc.compileCmd = [] then
    .error (path ++ "[" ++ lc.id ++ "]: compiled kind requires compileCmd")
  else if hdup : (r.lookup lc.id).isSome then
    .error (path ++ ": duplicate id " ++ quote lc.id)
  else
    .ok {
      byId := r.byId ++ [lc]
      valid := by
        intro lc' h
        rcases List.mem_append.1 h with h | h
        · exact r.valid lc' h
        · rw [List.mem_singleton.1 h]
          exact ⟨hid, hext, hrun, fun hk hc => hcomp ⟨hk, hc⟩⟩
      nodup := by
        have hn : r.lookup lc.id = none := by simpa using hdup
        rw [List.map_append, List.map_singleton, List.nodup_append]
        refine ⟨r.nodup, by simp, fun a ha b hb hab => ?_⟩
        rw [List.mem_singleton] at hb
        subst a b
        exact LanguageRegistry.lookup_eq_none hn ha }

def LanguageRegistry.addAll (r : LanguageRegistry) (path : String) (i : Nat) :
    List LanguageConfig → Except String LanguageRegistry
  | [] => .ok r
  | lc :: languages =>
    match r.add path i lc with
    | .ok r' => r'.addAll path (i + 1) languages
    | .error err => .error err

def loadLanguageRegistry (path : String) (languages : List LanguageConfig) :
    Except String LanguageRegistry :=
  if languages = [] then .error (path ++ ": no languages defined")
  else LanguageRegistry.empty.addAll path 0 languages

/-- The contents of `languages.json`. -/
def languages : List LanguageConfig :=
  [⟨"python", ".py", "interpreted", [], ["python3", "{src}"], ""⟩,
    ⟨"javascript", ".js", "interpreted", [], ["node", "{src}"], ""⟩,
    ⟨"typescript", ".ts", "interpreted", [], ["tsx", "{src}"], ""⟩,
    ⟨"ruby", ".rb", "interpreted", [], ["ruby", "{src}"], ""⟩,
    ⟨"php", ".php", "interpreted", [], ["php", "{src}"], ""⟩,
    ⟨"bash", ".sh", "interpreted", [], ["bash", "{src}"], ""⟩,
    ⟨"lua", ".lua", "interpreted", [], ["lua5.4", "{src}"], ""⟩,
    ⟨"perl", ".pl", "interpreted", [], ["perl", "{src}"], ""⟩,
    ⟨"elixir", ".ex", "interpreted", [], ["elixir", "{src}"], ""⟩,
    ⟨"go", ".go", "compiled", ["go", "build", "-o", "{bin}", "{src}"], ["{bin}"], ""⟩,
    ⟨"rust", ".rs", "compiled", ["rustc", "-O", "-o", "{bin}", "{src}"], ["{bin}"], ""⟩,
    ⟨"c", ".c", "compiled", ["gcc", "-O2", "-std=c17", "-o", "{bin}", "{src}"], ["{bin}"], ""⟩,
    ⟨"cpp", ".cpp", "compiled", ["g++", "-O2", "-std=c++20", "-o", "{bin}", "{src}"],
      ["{bin}"], ""⟩,
    ⟨"csharp", ".cs", "compiled", ["mcs", "-out:{workdir}/main.exe", "{src}"],
      ["mono", "{workdir}/main.exe"], ""⟩,
    ⟨"d", ".d", "compiled", ["gdc", "-O", "-o", "{bin}", "{src}"], ["{bin}"], ""⟩,
    ⟨"pascal", ".pas", "compiled", ["fpc", "-O2", "-o{bin}", "{src}"], ["{bin}"], ""⟩,
    ⟨"fortran", ".f90", "compiled", ["gfortran", "-O2", "-o", "{bin}", "{src}"], ["{bin}"], ""⟩,
    ⟨"java", ".java", "compiled", ["javac", "-d", "{workdir}", "{src}"],
      ["java", "-cp", "{workdir}", "Main"], "Main"⟩,
    ⟨"kotlin", ".kt", "compiled", ["kotlinc", "{src}", "-include-runtime", "-d", "{workdir}/main.jar"],
      ["java", "-jar", "{workdir}/main.jar"], ""⟩,
    ⟨"scala", ".scala", "compiled", ["scalac", "-d", "{workdir}", "{src}"],
      ["scala", "-cp", "{workdir}", "Main"], "Main"⟩,
    ⟨"groovy", ".groovy", "interpreted", [], ["groovy", "{src}"], ""⟩,
    ⟨"clojure", ".clj", "interpreted", [], ["clojure", "-M", "{src}"], ""⟩,
    ⟨"haskell", ".hs", "interpreted", [], ["runghc", "{src}"], ""⟩,
    ⟨"ocaml", ".ml", "interpreted", [], ["ocaml", "{src}"], ""⟩,
    ⟨"racket", ".rkt", "interpreted", [], ["racket", "{src}"], ""⟩,
    ⟨"sbcl", ".lisp", "interpreted", [], ["sbcl", "--script", "{src}"], ""⟩,
    ⟨"erlang", ".erl", "interpreted", [], ["escript", "{src}"], ""⟩,
    ⟨"fsharp", ".fsx", "interpreted", [], ["fsharpi", "--exec", "{src}"], ""⟩,
    ⟨"sql", ".sql", "interpreted", [], ["sqlite3", ":memory:", ".read {src}"], ""⟩,
    ⟨"r", ".r", "interpreted", [], ["Rscript", "{src}"], ""⟩,
    ⟨"tcl", ".tcl", "interpreted", [], ["tclsh", "{src}"], ""⟩,
    ⟨"awk", ".awk", "interpreted", [], ["gawk", "-f", "{src}"], ""⟩]

theorem LanguageRegistry.mem_of_get {r : LanguageRegistry} {id : String} (h : r.get id = some lc) :
    lc ∈ r.byId := List.mem_of_find?_eq_some h

theorem languages_valid : ∀ lc ∈ languages, lc.Valid := by
  have h : ∀ lc ∈ languages, lc.id ≠ "" ∧ lc.extension ≠ "" ∧ lc.runCmd ≠ [] ∧
      (lc.kind = "compiled" → lc.compileCmd ≠ []) := by
    decide +kernel
  intro lc hlc
  obtain ⟨h₁, h₂, h₃, h₄⟩ := h lc hlc
  exact ⟨h₁, h₂, h₃, h₄⟩

def shippedRegistry : LanguageRegistry where
  byId := languages
  valid := languages_valid
  nodup := by decide +kernel

def cConfig : LanguageConfig :=
  ⟨"c", ".c", "compiled", ["gcc", "-O2", "-std=c17", "-o", "{bin}", "{src}"], ["{bin}"], ""⟩

structure ExecContext where
  workdir : Path
  srcPath : Path
  binPath : Path

def expandArg (ctx : ExecContext) (arg : String) : String :=
  let s := replaceAll arg "{src}" ctx.srcPath.text
  let s := replaceAll s "{bin}" ctx.binPath.text
  replaceAll s "{workdir}" ctx.workdir.text

def expandPlaceholders (cmd : List String) (ctx : ExecContext) : List String :=
  cmd.map (expandArg ctx)

theorem expandPlaceholders_eq_nil {cmd : List String} :
    expandPlaceholders cmd ctx = [] ↔ cmd = [] := List.map_eq_nil_iff

structure LanguageProfile where
  memMB : Int
  cpuSeconds : Int
  wallSeconds : Int

structure ProfileRegistry where
  default : LanguageProfile
  byId : List (String × LanguageProfile)

/-- An entry overrides the default in its positive fields. -/
def ProfileRegistry.lookup (r : ProfileRegistry) (id : String) : LanguageProfile :=
  match r.byId.lookup (toLower (trimSpace id)) with
  | none => r.default
  | some v =>
    { memMB := if v.memMB > 0 then v.memMB else r.default.memMB
      cpuSeconds := if v.cpuSeconds > 0 then v.cpuSeconds else r.default.cpuSeconds
      wallSeconds := if v.wallSeconds > 0 then v.wallSeconds else r.default.wallSeconds }

/-- A request may ask for less than its profile grants; the wall time is raised to the CPU time. -/
def limitsForLang (profiles : ProfileRegistry) (langId : String) (timeLimitMs : Int) :
    SandboxLimits :=
  let p := profiles.lookup langId
  let reqCpu := timeLimitMs.tdiv 1000 + 1
  let reqWall := (timeLimitMs + 999).tdiv 1000
  let cpu := if timeLimitMs > 0 ∧ reqCpu > 0 ∧ reqCpu < p.cpuSeconds then reqCpu else p.cpuSeconds
  let wall :=
    if timeLimitMs > 0 ∧ reqWall > 0 ∧ reqWall < p.wallSeconds then reqWall else p.wallSeconds
  let cpu := if cpu < 1 then 1 else cpu
  let wall := if wall < cpu then cpu + 1 else wall
  ⟨p.memMB, cpu, wall, 0, 0, 0⟩

end Leetrank
