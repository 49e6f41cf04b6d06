import Leetrank.Judge.Execute
import Leetrank.Library.Templates

namespace Leetrank
set_option autoImplicit true

open Paths Templates

/-- `execContext` with any texts in its fields. -/
structure ExecTexts where
  workdir : String
  srcPath : String
  binPath : String

def ExecTexts.expandArg (ctx : ExecTexts) (arg : String) : String :=
  let s := replaceAll arg "{src}" ctx.srcPath
  let s := replaceAll s "{bin}" ctx.binPath
  replaceAll s "{workdir}" ctx.workdir

def ExecTexts.expandPlaceholders (ctx : ExecTexts) (cmd : List String) : List String :=
  cmd.map ctx.expandArg

def ExecContext.texts (ctx : ExecContext) : ExecTexts where
  workdir := ctx.workdir.text
  srcPath := ctx.srcPath.text
  binPath := ctx.binPath.text

theorem expandPlaceholders_eq (cmd : List String) (ctx : ExecContext) :
    expandPlaceholders cmd ctx = ctx.texts.expandPlaceholders cmd := rfl

inductive Placeholder where
  | src
  | bin
  | workdir
  deriving DecidableEq

def Placeholder.text : Placeholder → String
  | .src => "{src}"
  | .bin => "{bin}"
  | .workdir => "{workdir}"

def ExecTexts.value (ctx : ExecTexts) : Placeholder → String
  | .src => ctx.srcPath
  | .bin => ctx.binPath
  | .workdir => ctx.workdir

/-- The placeholders begin with a brace and have no other one of its kind. -/
def placeholders : Marks Placeholder Char where
  holes := [.src, .bin, .workdir]
  complete := by
    intro p
    cases p <;> decide
  opening := '{'
  rest := fun p => p.text.toList.tail
  opening_not_mem := by
    intro p
    cases p <;> decide
  eq_of_prefix := by
    intro p q h
    revert h
    cases p <;> cases q <;> decide

/-- Replace all the placeholders of an argument at once. -/
def ExecTexts.substArg (ctx : ExecTexts) (arg : String) : String :=
  String.ofList (placeholders.subst (fun p => (ctx.value p).toList) arg.toList)

/-- Replace the placeholders one after the other, in this order. -/
def ExecTexts.expandIn (ctx : ExecTexts) (order : List Placeholder) (arg : String) : String :=
  order.foldl (fun s p => replaceAll s p.text (ctx.value p)) arg

structure BraceFreePath (s : String) : Prop where
  absolute : s.toList.head? = some '/'
  opening : '{' ∉ s.toList
  closing : '}' ∉ s.toList

variable {ctx : ExecTexts} {arg s : String} {old new : List Char}

theorem placeholders_mark (p : Placeholder) : placeholders.mark p = p.text.toList := by
  cases p <;> rfl

theorem replaceFrom_skip (u s : List Char) :
    replaceFrom old new u.length (u ++ s) = replaceFrom old new 0 s := by
  induction u with
  | nil => rfl
  | cons c u ih => exact ih

theorem replaces_replaceFrom (h : old ≠ []) : Replaces old new (replaceFrom old new 0) where
  nil := rfl
  occurrence := by
    intro s
    obtain ⟨c, rest, rfl⟩ := List.exists_cons_of_ne_nil h
    have hfront : (c :: rest).isPrefixOf (c :: (rest ++ s)) = true :=
      List.isPrefixOf_iff_prefix.2 (List.prefix_append (c :: rest) s)
    rw [List.cons_append, replaceFrom, if_pos hfront]
    exact congrArg (new ++ ·) (replaceFrom_skip rest s)
  symbol := by
    intro c s hfront
    rw [← List.isPrefixOf_iff_prefix] at hfront
    rw [replaceFrom, if_neg hfront]

theorem replaces_placeholder (ctx : ExecTexts) (p : Placeholder) :
    Replaces (placeholders.mark p) (ctx.value p).toList
      (replaceFrom p.text.toList (ctx.value p).toList 0) := by
  rw [placeholders_mark]
  apply replaces_replaceFrom
  cases p <;> decide

theorem slash_not_mem_mark (p : Placeholder) : '/' ∉ placeholders.mark p := by
  cases p <;> decide

theorem BraceFreePath.inert (h : BraceFreePath s) : placeholders.Inert s.toList where
  head := by
    obtain ⟨w, hw⟩ := List.head?_eq_some_iff.1 h.absolute
    exact ⟨'/', w, hw, slash_not_mem_mark⟩
  opening := h.opening

/-- Whatever the order of the replacements, they come to the one that replaces all at once. -/
theorem ExecTexts.expandIn_eq_substArg (hctx : ∀ p, BraceFreePath (ctx.value p))
    {order : List Placeholder} (hall : ∀ p, p ∈ order) (arg : String) :
    ctx.expandIn order arg = ctx.substArg arg := by
  have hlist (done : List Placeholder) : (ctx.expandIn done arg).toList =
      done.foldl (fun s p => replaceFrom p.text.toList (ctx.value p).toList 0 s) arg.toList := by
    induction done using List.reverseRecOn with
    | nil => rfl
    | append_singleton done p ih =>
      rw [ExecTexts.expandIn, List.foldl_append, List.foldl_append, ← ih]
      exact String.toList_ofList
  rw [← String.toList_inj, hlist order, ExecTexts.substArg, String.toList_ofList]
  exact Marks.foldl_replace (replaces_placeholder ctx) (fun p => (hctx p).inert) hall arg.toList

theorem ExecTexts.expandArg_eq_substArg (hctx : ∀ p, BraceFreePath (ctx.value p))
    (arg : String) : ctx.expandArg arg = ctx.substArg arg := by
  have hall (p : Placeholder) : p ∈ [Placeholder.src, .bin, .workdir] := placeholders.complete p
  exact ExecTexts.expandIn_eq_substArg hctx hall arg

theorem ExecTexts.expandPlaceholders_eq_map (hctx : ∀ p, BraceFreePath (ctx.value p))
    (cmd : List String) : ctx.expandPlaceholders cmd = cmd.map ctx.substArg :=
  List.map_congr_left fun arg _ => ExecTexts.expandArg_eq_substArg hctx arg

theorem ExecTexts.substArg_occurrence (ctx : ExecTexts) (before : String) (p : Placeholder)
    (after : String) : ctx.substArg (before ++ p.text ++ after) =
      ctx.substArg before ++ ctx.value p ++ ctx.substArg after := by
  rw [← String.toList_inj]
  simp only [ExecTexts.substArg, String.toList_append, String.toList_ofList, List.append_assoc]
  rw [← placeholders_mark, Marks.subst_occurrence]

theorem ExecTexts.substArg_eq_self (h : ∀ p : Placeholder, Text.contains arg p.text = false) :
    ctx.substArg arg = arg := by
  rw [ExecTexts.substArg, Marks.subst_of_not_infix, String.ofList_toList]
  intro p hp
  have hcontains : Text.contains arg p.text = true := by
    rw [Text.contains, Text.occursIn_iff, ← placeholders_mark]
    exact hp
  rw [h p] at hcontains
  exact Bool.false_ne_true hcontains

/-- With absolute paths that have no braces, every occurrence of a placeholder in a command is
replaced by its value and all other text stays, in whatever order the placeholders have their
turn. -/
theorem expandPlaceholders_simultaneous (hctx : ∀ p, BraceFreePath (ctx.value p))
    (cmd : List String) :
    ctx.expandPlaceholders cmd = cmd.map ctx.substArg ∧
    (∀ order : List Placeholder, (∀ p, p ∈ order) →
      cmd.map (ctx.expandIn order) = ctx.expandPlaceholders cmd) ∧
    (∀ (before : String) (p : Placeholder) (after : String),
      ctx.expandArg (before ++ p.text ++ after) =
        ctx.expandArg before ++ ctx.value p ++ ctx.expandArg after) ∧
    ∀ arg : String, (∀ p : Placeholder, Text.contains arg p.text = false) →
      ctx.expandArg arg = arg := by
  have hexpand : ctx.expandArg = ctx.substArg := funext (ExecTexts.expandArg_eq_substArg hctx)
  refine ⟨ExecTexts.expandPlaceholders_eq_map hctx cmd, fun order hall => ?_,
    fun before p after => ?_, fun arg harg => ?_⟩
  · rw [ExecTexts.expandPlaceholders_eq_map hctx]
    exact List.map_congr_left fun arg _ => ExecTexts.expandIn_eq_substArg hctx hall arg
  · rw [hexpand]
    exact ctx.substArg_occurrence before p after
  · rw [hexpand]
    exact ExecTexts.substArg_eq_self harg

def cppTexts : ExecTexts where
  workdir := "/tmp/judge_cpp_1"
  srcPath := "/tmp/judge_cpp_1/main.cpp"
  binPath := "/tmp/judge_cpp_1/solution"

theorem expandPlaceholders_simultaneous_nested :
    cppTexts.expandPlaceholders ["g++", "-o", "{{bin}src}", "{src}.{out}"] =
      ["g++", "-o", "{/tmp/judge_cpp_1/solutionsrc}", "/tmp/judge_cpp_1/main.cpp.{out}"] := by
  have hctx (p : Placeholder) : BraceFreePath (cppTexts.value p) := by
    cases p <;> exact ⟨by decide, by decide, by decide⟩
  rw [(expandPlaceholders_simultaneous hctx _).1]
  rfl

def notBrace (c : Char) : Bool := c != '{' && c != '}'

theorem braceFreePath_text {p : Path} (hp : p.MadeOf fun c => notBrace c = true) :
    BraceFreePath p.text where
  absolute := by
    rw [Path.text, String.toList_append]
    rfl
  opening := fun h => Bool.false_ne_true (hp.text rfl '{' h)
  closing := fun h => Bool.false_ne_true (hp.text rfl '}' h)

theorem execContext_braceFree {workdir : Path} (hw : workdir.MadeOf fun c => notBrace c = true)
    (hname : (sourceName lc).toList.all notBrace = true) (p : Placeholder) :
    BraceFreePath ((execContext lc workdir).texts.value p) := by
  have hsolution : "solution".toList.all notBrace = true := rfl
  cases p with
  | src => exact braceFreePath_text (hw.join (List.all_eq_true.1 hname))
  | bin => exact braceFreePath_text (hw.join (List.all_eq_true.1 hsolution))
  | workdir => exact braceFreePath_text hw

theorem languages_sourceName :
    ∀ lc ∈ languages, (sourceName lc).toList.all notBrace = true := by
  decide +kernel

/-- In a temporary directory without braces both commands of a language are run with all their
placeholders replaced at once. -/
theorem languages_argv {workdir : Path} (hlc : lc ∈ languages)
    (hw : workdir.MadeOf fun c => notBrace c = true) :
    (compileRequest lc (execContext lc workdir)).argv =
      lc.compileCmd.map (execContext lc workdir).texts.substArg ∧
    ∀ (s : Server) (tc : TestCase) (timeLimitMs : Int),
      (runRequest s lc (execContext lc workdir) tc timeLimitMs).argv =
        lc.runCmd.map (execContext lc workdir).texts.substArg := by
  have hctx := execContext_braceFree hw (languages_sourceName lc hlc)
  have hargv (cmd : List String) : expandPlaceholders cmd (execContext lc workdir) =
      cmd.map (execContext lc workdir).texts.substArg := by
    rw [expandPlaceholders_eq]
    exact ExecTexts.expandPlaceholders_eq_map hctx cmd
  exact ⟨hargv lc.compileCmd, fun s tc timeLimitMs => hargv lc.runCmd⟩

end Leetrank
