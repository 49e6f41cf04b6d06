import Leetrank.Judge.Execute
import Leetrank.Library.Machine
import Mathlib.Data.List.Nodup

namespace Leetrank
set_option autoImplicit true

open EventMachine Paths

inductive ExecutionPath where
  | wrapper (w : WrapperLanguage)
  | registry (lc : LanguageConfig)

def executionPath (s : Server) (language : String) : Option ExecutionPath :=
  match wrapperLanguage? language with
  | some w => some (.wrapper w)
  | none => (s.languages.get language).map .registry

/-- The name that `os.CreateTemp` or `os.MkdirTemp` makes of its pattern and a random number. -/
def ExecutionPath.tempName : ExecutionPath → Nat → String
  | .wrapper w, random => "judge_" ++ toString random ++ extensionFor w
  | .registry lc, random => "judge_" ++ lc.id ++ "_" ++ toString random

inductive ExecutionPhase where
  | created
  | written
  | running
  deriving DecidableEq

/-- A live execution: its temporary file or directory, and what its sandbox built so far. -/
structure Execution where
  id : Nat
  path : ExecutionPath
  base : Path
  phase : ExecutionPhase
  artefacts : List Path
  tc : TestCase
  timeLimitMs : Int

def Execution.source (e : Execution) : Path :=
  match e.path with
  | .wrapper _ => e.base
  | .registry lc => (execContext lc e.base).srcPath

def Execution.files (e : Execution) : List Path :=
  match e.phase with
  | .created => []
  | .written | .running => e.source :: e.artefacts

def Execution.requests (s : Server) (e : Execution) : List SandboxRequest :=
  match e.path with
  | .wrapper w => [wrapperRequest s w e.base e.tc e.timeLimitMs]
  | .registry lc =>
    let ectx := execContext lc e.base
    (if lc.compileCmd = [] then [] else [compileRequest lc ectx]) ++
      [runRequest s lc ectx e.tc e.timeLimitMs]

/-- The host directories that are mounted read-write into the sandbox of a running execution. -/
def Execution.mounts (s : Server) (e : Execution) : List Path :=
  match s.mode, e.phase with
  | .nsjail _, .running =>
    (e.requests s).flatMap fun req => writableMounts req.workdir req.limits.applyDefaults
  | _, _ => []

def ExecutionPath.isRegistry : ExecutionPath → Bool
  | .registry _ => true
  | .wrapper _ => false

abbrev JudgeHost := List Execution

inductive HostEvent where
  | createTemp (id : Nat) (language : String) (random : Nat) (tc : TestCase) (timeLimitMs : Int)
  | writeSource (id : Nat)
  | sandbox (id : Nat)
  | build (id : Nat) (rest : Path)
  | cleanUp (id : Nat)

def Execution.write (e : Execution) : Option Execution :=
  match e.phase with
  | .created => some { e with phase := .written }
  | .written | .running => none

def Execution.enter (e : Execution) : Option Execution :=
  match e.phase with
  | .written => some { e with phase := .running }
  | .created | .running => none

/-- A toolchain writes below the working directory, the JavaScript runner beside its script. -/
def Execution.build (e : Execution) (rest : Path) : Option Execution :=
  match e.phase, e.path with
  | .running, .registry _ =>
    if rest = [] then none else some { e with artefacts := (e.base ++ rest) :: e.artefacts }
  | .running, .wrapper .javascript =>
    some { e with artefacts :=
      (e.base.dropLast ++ [e.base.getLastD "" ++ ".wrapped.js"]) :: e.artefacts }
  | _, _ => none

def changeExecution (id : Nat) (f : Execution → Option Execution) : JudgeHost → Option JudgeHost
  | [] => none
  | e :: es =>
    if e.id = id then (f e).map (· :: es) else (changeExecution id f es).map (e :: ·)

structure TempDir where
  path : Path
  plain : ∀ name ∈ path, Plain name

/-- The temporary name must not exist on the host. -/
def hostStep (s : Server) (tempDir : TempDir) (w : JudgeHost) : HostEvent → Option JudgeHost
  | .createTemp id language random tc timeLimitMs =>
    (executionPath s language).bind fun path =>
      let base := tempDir.path ++ [path.tempName random]
      if ∀ e ∈ w, e.id ≠ id ∧ e.base ≠ base then
        some (⟨id, path, base, .created, [], tc, timeLimitMs⟩ :: w)
      else none
  | .writeSource id => changeExecution id Execution.write w
  | .sandbox id => changeExecution id Execution.enter w
  | .build id rest => changeExecution id (fun e => e.build rest) w
  | .cleanUp id => some (w.filter fun e => e.id != id)

def judgeHost (s : Server) (tempDir : TempDir) : Machine JudgeHost HostEvent where
  init := fun w => w = []
  step := hostStep s tempDir

theorem changeExecution_some {id : Nat} (h : changeExecution id f w = some w') :
    ∃ before e after e', w = before ++ e :: after ∧ f e = some e' ∧
      w' = before ++ e' :: after := by
  induction w generalizing w' with
  | nil => cases h
  | cons e es ih =>
    rw [changeExecution] at h
    split at h
    · obtain ⟨e', he, rfl⟩ := Option.map_eq_some_iff.1 h
      exact ⟨[], e, es, e', rfl, he, rfl⟩
    · obtain ⟨es', hes, rfl⟩ := Option.map_eq_some_iff.1 h
      obtain ⟨before, d, after, d', rfl, hd, rfl⟩ := ih hes
      exact ⟨e :: before, d, after, d', rfl, hd, rfl⟩

def PlainNames (lc : LanguageConfig) : Prop := Plain (sourceName lc) ∧ '/' ∉ lc.id.toList

theorem languages_plainNames : ∀ lc ∈ languages, PlainNames lc := by
  have h : ∀ lc ∈ languages, Plain (sourceName lc) ∧ '/' ∉ lc.id.toList := by decide +kernel
  exact h

theorem plain_of_judge {name : String} (rest : String) (h : name = "judge_" ++ rest)
    (hs : '/' ∉ rest.toList) : Plain name := by
  have hl : name.toList = "judge_".toList ++ rest.toList := by rw [h, String.toList_append]
  have hhead : "judge_".toList = 'j' :: "udge_".toList := by decide +kernel
  rw [hhead, List.cons_append] at hl
  refine ⟨?_, ?_, ?_, ?_⟩
  -- none of the three special names starts with a letter
  · rintro rfl
    cases hl
  · rintro rfl
    cases hl
  · rintro rfl
    cases hl
  · rw [hl, List.mem_cons, List.mem_append]
    rintro (hj | hj | hj)
    · cases hj
    · revert hj
      decide +kernel
    · exact hs hj

theorem slash_not_mem_toString (n : Nat) : '/' ∉ (toString n).toList := by
  intro h
  exact absurd (isDigit_of_mem_toString h) (by decide)

def ExecutionPath.Shipped : ExecutionPath → Prop
  | .wrapper _ => True
  | .registry lc => lc ∈ languages

theorem executionPath_shipped (h : executionPath (.shipped mode runnersDir profiles) language =
    some path) : path.Shipped := by
  rw [executionPath] at h
  split at h
  · cases h
    trivial
  · obtain ⟨lc, hlc, rfl⟩ := Option.map_eq_some_iff.1 h
    exact LanguageRegistry.mem_of_get hlc

theorem tempName_plain {path : ExecutionPath} (h : path.Shipped) (random : Nat) :
    Plain (path.tempName random) := by
  have hslash := slash_not_mem_toString random
  cases path with
  | wrapper w =>
    apply plain_of_judge _ (String.append_assoc ..)
    rw [String.toList_append, List.mem_append, not_or]
    exact ⟨hslash, by cases w <;> decide +kernel⟩
  | registry lc =>
    apply plain_of_judge (lc.id ++ ("_" ++ toString random))
    · simp only [ExecutionPath.tempName, String.append_assoc]
    · rw [String.toList_append, String.toList_append, List.mem_append, List.mem_append, not_or,
        not_or]
      exact ⟨(languages_plainNames lc h).2, by decide +kernel, hslash⟩

/-- The name of a temporary directory ends in a digit, unlike that of a wrapped script. -/
theorem tempName_ne_wrapped (lc : LanguageConfig) (random : Nat) (stem : String) :
    (ExecutionPath.registry lc).tempName random ≠ stem ++ ".wrapped.js" := by
  intro h
  have hdigits : (toString random).toList ≠ [] := by
    rw [Nat.toString_eq_repr, Nat.repr, String.toList_ofList]
    exact Nat.toDigits_ne_nil
  have hl := congrArg (fun s => s.toList.getLast?) h
  have hjs : ".wrapped.js".toList = ".wrapped.j".toList ++ ['s'] := by decide +kernel
  simp only [ExecutionPath.tempName, String.toList_append, hjs] at hl
  rw [List.getLast?_append_of_ne_nil _ hdigits, ← List.append_assoc, List.getLast?_concat] at hl
  exact absurd (isDigit_of_mem_toString (List.mem_of_getLast? hl)) (by decide)

/-- The base of the execution is an entry of the temporary directory, and its artefacts lie where
its sandbox puts them. -/
structure Execution.Sound (tempDir : TempDir) (e : Execution) : Prop where
  shipped : e.path.Shipped
  base : ∃ random, e.base = tempDir.path ++ [e.path.tempName random]
  artefacts : ∀ p ∈ e.artefacts, (∃ rest, p = e.base ++ rest) ∨
    ∃ stem, p = tempDir.path ++ [stem ++ ".wrapped.js"]

structure HostSound (tempDir : TempDir) (w : JudgeHost) : Prop where
  sound : ∀ e ∈ w, e.Sound tempDir
  nodup : (w.map Execution.base).Nodup

theorem HostSound.change {id : Nat} {tempDir : TempDir} (h : HostSound tempDir w)
    (hw : changeExecution id f w = some w')
    (hf : ∀ e e', e.Sound tempDir → f e = some e' → e'.Sound tempDir ∧ e'.base = e.base) :
    HostSound tempDir w' := by
  obtain ⟨before, e, after, e', rfl, he, rfl⟩ := changeExecution_some hw
  have hmem : e ∈ before ++ e :: after := List.mem_append_right _ List.mem_cons_self
  obtain ⟨hs, hb⟩ := hf e e' (h.sound e hmem) he
  constructor
  · intro d hd
    rcases List.mem_append.1 hd with hd | hd
    · exact h.sound d (List.mem_append_left _ hd)
    · rcases List.mem_cons.1 hd with rfl | hd
      · exact hs
      · exact h.sound d (List.mem_append_right _ (List.mem_cons_of_mem _ hd))
  · have hn := h.nodup
    rw [List.map_append, List.map_cons] at hn ⊢
    rw [hb]
    exact hn

theorem Execution.Sound.phase {tempDir : TempDir} {e : Execution} (h : e.Sound tempDir)
    (phase : ExecutionPhase) : Execution.Sound tempDir { e with phase := phase } :=
  ⟨h.shipped, h.base, h.artefacts⟩

theorem Execution.write_sound {tempDir : TempDir} {e e' : Execution} (h : e.Sound tempDir)
    (he : e.write = some e') : e'.Sound tempDir ∧ e'.base = e.base := by
  rw [Execution.write] at he
  split at he
  · cases he
    exact ⟨h.phase _, rfl⟩
  · cases he
  · cases he

theorem Execution.enter_sound {tempDir : TempDir} {e e' : Execution} (h : e.Sound tempDir)
    (he : e.enter = some e') : e'.Sound tempDir ∧ e'.base = e.base := by
  rw [Execution.enter] at he
  split at he
  · cases he
    exact ⟨h.phase _, rfl⟩
  · cases he
  · cases he

theorem Execution.Sound.add {tempDir : TempDir} {e : Execution} (h : e.Sound tempDir)
    (hp : (∃ rest, p = e.base ++ rest) ∨ ∃ stem, p = tempDir.path ++ [stem ++ ".wrapped.js"]) :
    Execution.Sound tempDir { e with artefacts := p :: e.artefacts } := by
  refine ⟨h.shipped, h.base, ?_⟩
  intro p' hp'
  rcases List.mem_cons.1 hp' with rfl | hp'
  · exact hp
  · exact h.artefacts p' hp'

theorem Execution.build_sound {tempDir : TempDir} {e e' : Execution} (h : e.Sound tempDir)
    (he : e.build rest = some e') : e'.Sound tempDir ∧ e'.base = e.base := by
  rw [Execution.build] at he
  split at he
  · split at he
    · cases he
    · cases he
      exact ⟨h.add (.inl ⟨rest, rfl⟩), rfl⟩
  · cases he
    obtain ⟨random, hb⟩ := h.base
    refine ⟨h.add (.inr ⟨e.base.getLastD "", ?_⟩), rfl⟩
    rw [hb, List.dropLast_concat]
  · cases he

/-- The temporary files of the live executions stay distinct entries of the temporary directory. -/
theorem hostSound_invariant (tempDir : TempDir) :
    (judgeHost (.shipped mode runnersDir profiles) tempDir).Invariant (HostSound tempDir) := by
  rintro w event w' h hw -
  cases event with
  | createTemp id language random tc timeLimitMs =>
    obtain ⟨path, hpath, hw⟩ := Option.bind_eq_some_iff.1 hw
    simp only at hw
    split at hw
    next hfresh =>
      cases hw
      constructor
      · intro e he
        rcases List.mem_cons.1 he with rfl | he
        · refine ⟨executionPath_shipped hpath, ⟨random, rfl⟩, ?_⟩
          rintro p ⟨⟩
        · exact h.sound e he
      · rw [List.map_cons, List.nodup_cons]
        refine ⟨fun hmem => ?_, h.nodup⟩
        obtain ⟨e, he, hb⟩ := List.mem_map.1 hmem
        exact (hfresh e he).2 hb
    · cases hw
  | writeSource id => exact h.change hw fun e e' => Execution.write_sound
  | sandbox id => exact h.change hw fun e e' => Execution.enter_sound
  | build id rest => exact h.change hw fun e e' => Execution.build_sound
  | cleanUp id =>
    cases hw
    constructor
    · intro e he
      exact h.sound e (List.mem_of_mem_filter he)
    · exact h.nodup.sublist (List.filter_sublist.map _)

def Execution.workdir (e : Execution) : Path :=
  match e.path with
  | .wrapper _ => parent e.base
  | .registry _ => e.base

theorem Execution.requests_workdir {e : Execution} (h : req ∈ e.requests s) :
    req.workdir = some e.workdir := by
  rw [Execution.requests] at h
  rw [Execution.workdir]
  split at h
  · rw [List.mem_singleton.1 h]
    rfl
  · rcases List.mem_append.1 h with h | h
    · split at h
      · cases h
      · rw [List.mem_singleton.1 h]
        rfl
    · rw [List.mem_singleton.1 h]
      rfl

theorem Execution.requests_ne_nil (s : Server) (e : Execution) : e.requests s ≠ [] := by
  rw [Execution.requests]
  split
  · exact List.cons_ne_nil _ _
  · exact List.append_ne_nil_of_right_ne_nil _ (List.cons_ne_nil _ _)

theorem Execution.mem_mounts {e : Execution} (hr : e.phase = .running) :
    dir ∈ e.mounts s ↔ s.mode ≠ .off ∧ dir = clean e.workdir := by
  rw [Execution.mounts]
  rw [hr]
  cases hm : s.mode with
  | off => simp
  | nsjail njpath =>
    have hmount : ∀ req ∈ e.requests s,
        writableMounts req.workdir req.limits.applyDefaults = [clean e.workdir] := by
      intro req hreq
      rw [writableMounts_eq, requests_workdir hreq]
      rfl
    rw [List.mem_flatMap]
    constructor
    · intro h
      obtain ⟨req, hreq, hd⟩ := h
      rw [hmount req hreq] at hd
      exact ⟨SandboxMode.noConfusion, List.mem_singleton.1 hd⟩
    · rintro ⟨-, rfl⟩
      obtain ⟨req, hreq⟩ := List.exists_mem_of_ne_nil _ (e.requests_ne_nil s)
      refine ⟨req, hreq, ?_⟩
      rw [hmount req hreq]
      exact List.mem_singleton_self _

theorem Execution.Sound.base_plain {tempDir : TempDir} {e : Execution} (h : e.Sound tempDir) :
    ∀ name ∈ e.base, Plain name := by
  obtain ⟨random, hb⟩ := h.base
  intro name hname
  rw [hb] at hname
  rcases List.mem_append.1 hname with hname | hname
  · exact tempDir.plain name hname
  · rw [List.mem_singleton.1 hname]
    exact tempName_plain h.shipped random

/-- A wrapper mounts the directory of all temporary files, a registry-driven path its own one. -/
theorem Execution.Sound.clean_workdir {tempDir : TempDir} {e : Execution} (h : e.Sound tempDir) :
    clean e.workdir = if e.path.isRegistry then e.base else tempDir.path := by
  rw [Execution.workdir]
  cases hp : e.path with
  | wrapper w =>
    obtain ⟨random, hb⟩ := h.base
    rw [hb]
    simp only [ExecutionPath.isRegistry, Bool.false_eq_true, if_false]
    rw [parent_append tempDir.plain, clean_plain tempDir.plain]
  | registry lc =>
    simp only [ExecutionPath.isRegistry, if_true]
    exact clean_plain h.base_plain

theorem Execution.Sound.source {tempDir : TempDir} {e : Execution} (h : e.Sound tempDir) :
    ∃ rest, e.source = e.base ++ rest := by
  have hs := h.shipped
  rw [Execution.source]
  cases hp : e.path with
  | wrapper w => exact ⟨[], (List.append_nil _).symm⟩
  | registry lc =>
    rw [hp] at hs
    exact ⟨[sourceName lc], join_plain h.base_plain (languages_plainNames lc hs).1⟩

theorem Execution.Sound.files {tempDir : TempDir} {e : Execution} (h : e.Sound tempDir)
    (hp : p ∈ e.files) :
    (∃ rest, p = e.base ++ rest) ∨ ∃ stem, p = tempDir.path ++ [stem ++ ".wrapped.js"] := by
  have hfiles : p = e.source ∨ p ∈ e.artefacts := by
    rw [Execution.files] at hp
    split at hp
    · cases hp
    · exact List.mem_cons.1 hp
    · exact List.mem_cons.1 hp
  rcases hfiles with rfl | hp
  · exact .inl h.source
  · exact h.artefacts p hp

/-- No directory that is mounted read-write for the first execution has a file of the second. -/
def Isolated (s : Server) (e₁ e₂ : Execution) : Prop :=
  ∀ dir ∈ e₁.mounts s, ∀ p ∈ e₂.files, ¬ dir.Contains p

theorem base_not_contains {tempDir : TempDir} {e₁ e₂ : Execution} (h₁ : e₁.Sound tempDir)
    (h₂ : e₂.Sound tempDir) (hb : e₁.base ≠ e₂.base) (hreg : e₁.path.isRegistry = true)
    (hp : p ∈ e₂.files) : ¬ e₁.base.Contains p := by
  obtain ⟨random₁, hb₁⟩ := h₁.base
  obtain ⟨random₂, hb₂⟩ := h₂.base
  rw [hb₁]
  rcases h₂.files hp with ⟨rest, rfl⟩ | ⟨stem, rfl⟩
  · rw [hb₂, List.append_assoc]
    apply not_contains_of_ne
    intro hname
    rw [hb₁, hb₂, hname] at hb
    exact hb rfl
  · apply not_contains_of_ne
    cases hpath : e₁.path with
    | registry lc => exact tempName_ne_wrapped lc random₁ stem
    | wrapper w =>
      rw [hpath] at hreg
      cases hreg

theorem tempDir_contains_source {tempDir : TempDir} {e : Execution} (h : e.Sound tempDir) :
    tempDir.path.Contains e.source := by
  obtain ⟨random, hb⟩ := h.base
  obtain ⟨rest, hs⟩ := h.source
  rw [hs, hb, List.append_assoc]
  exact Path.contains_append _ _

theorem HostSound.base_ne {tempDir : TempDir} (h : HostSound tempDir w) (h₁ : e₁ ∈ w)
    (h₂ : e₂ ∈ w) (hne : e₁ ≠ e₂) : e₁.base ≠ e₂.base :=
  fun hb => hne (List.inj_on_of_nodup_map h.nodup h₁ h₂ hb)

/-- On a judge that uses the sandbox, a live execution is isolated from another one exactly when it
takes the registry-driven path. -/
theorem isolated_iff {tempDir : TempDir}
    (hw : (judgeHost (.shipped mode runnersDir profiles) tempDir).Reachable w) (h₁ : e₁ ∈ w)
    (h₂ : e₂ ∈ w) (hne : e₁ ≠ e₂) (hr₁ : e₁.phase = .running) (hr₂ : e₂.phase ≠ .created) :
    Isolated (.shipped mode runnersDir profiles) e₁ e₂ ↔
      mode = .off ∨ e₁.path.isRegistry = true := by
  have hs : HostSound tempDir w := by
    apply (hostSound_invariant tempDir).reachable _ hw
    rintro _ rfl
    exact ⟨fun e he => absurd he List.not_mem_nil, List.nodup_nil⟩
  have hs₁ := hs.sound e₁ h₁
  have hs₂ := hs.sound e₂ h₂
  constructor
  · intro hiso
    rw [or_iff_not_imp_left]
    intro hmode
    by_contra hreg
    have hsource : e₂.source ∈ e₂.files := by
      rw [Execution.files]
      split
      · contradiction
      · exact List.mem_cons_self
      · exact List.mem_cons_self
    -- a wrapper mounts the directory of the temporary files, where the other source lies
    apply hiso _ ((Execution.mem_mounts hr₁).2 ⟨hmode, rfl⟩) _ hsource
    rw [hs₁.clean_workdir, if_neg hreg]
    exact tempDir_contains_source hs₂
  · intro hcond dir hdir p hp
    obtain ⟨hmode, rfl⟩ := (Execution.mem_mounts hr₁).1 hdir
    have hreg := hcond.resolve_left hmode
    rw [hs₁.clean_workdir, if_pos hreg]
    exact base_not_contains hs₁ hs₂ (hs.base_ne h₁ h₂ hne) hreg hp

def tmpDir : TempDir := ⟨["tmp"], by decide +kernel⟩

def nsjailServer : Server :=
  .shipped (.nsjail "/usr/bin/nsjail") ["srv", "runners"] ⟨⟨256, 5, 10⟩, []⟩

def twoTests : List HostEvent :=
  [.createTemp 1 "c" 1 ⟨"", "42"⟩ 5000, .createTemp 2 "python" 2 ⟨"", "42"⟩ 5000,
    .writeSource 1, .writeSource 2, .sandbox 1, .sandbox 2]

theorem twoTests_run :
    ∃ e₁ e₂, (judgeHost nsjailServer tmpDir).run [] twoTests = some [e₂, e₁] ∧ e₁ ≠ e₂ ∧
      e₁.phase = .running ∧ e₂.phase = .running ∧ e₁.path.isRegistry = true ∧
        ["tmp"] ∈ e₂.mounts nsjailServer ∧ Path.Contains ["tmp"] e₁.source := by
  refine ⟨_, _, rfl, fun h => ?_, rfl, rfl, rfl, by decide +kernel, by decide +kernel⟩
  exact absurd (congrArg Execution.id h) (by decide)

theorem isolated_c :
    ∃ e₁ e₂, (judgeHost nsjailServer tmpDir).run [] twoTests = some [e₂, e₁] ∧
      Isolated nsjailServer e₁ e₂ := by
  obtain ⟨e₁, e₂, hrun, hne, hr₁, hr₂, hreg, -⟩ := twoTests_run
  have hmem : e₁ ∈ [e₂, e₁] := List.mem_cons_of_mem _ List.mem_cons_self
  have hwritten : e₂.phase ≠ .created := by
    rw [hr₂]
    decide
  have hiff := isolated_iff ⟨[], twoTests, rfl, hrun⟩ hmem List.mem_cons_self hne hr₁ hwritten
  exact ⟨e₁, e₂, hrun, hiff.2 (.inr hreg)⟩

/-- The sandbox of the Python test can write to the source of the C test. -/
theorem not_isolated_python :
    ¬ ∀ w e₁ e₂, (judgeHost nsjailServer tmpDir).Reachable w → e₁ ∈ w → e₂ ∈ w → e₁ ≠ e₂ →
      e₁.phase = .running → e₂.phase = .running → Isolated nsjailServer e₁ e₂ := by
  intro h
  obtain ⟨e₁, e₂, hrun, hne, hr₁, hr₂, -, hmount, hsource⟩ := twoTests_run
  have hmem : e₁ ∈ [e₂, e₁] := List.mem_cons_of_mem _ List.mem_cons_self
  have hiso := h _ e₂ e₁ ⟨[], twoTests, rfl, hrun⟩ List.mem_cons_self hmem hne.symm hr₂ hr₁
  apply hiso ["tmp"] hmount e₁.source _ hsource
  rw [Execution.files]
  rw [hr₁]
  exact List.mem_cons_self

end Leetrank
