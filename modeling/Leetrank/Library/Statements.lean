import Mathlib.Algebra.GroupWithZero.Nat
import Mathlib.Data.List.Basic

namespace Statements
set_option autoImplicit true

/-- A statement while it is put together: clauses with numbered placeholders, and the arguments that
have been bound. -/
structure Statement (κ : Type u) (α : Type v) where
  clauses : List κ
  args : List α

/-- The argument for a placeholder; they are numbered from 1 on. -/
def argument (args : List α) : Nat → Option α
  | 0 => none
  | n + 1 => args[n]?

def Statement.bind (s : Statement κ α) (a : α) (clause : Nat → κ) : Statement κ α where
  clauses := s.clauses ++ [clause (s.args.length + 1)]
  args := s.args ++ [a]

def Statement.literal (s : Statement κ α) (clause : κ) : Statement κ α :=
  { s with clauses := s.clauses ++ [clause] }

/-- A statement that is put together with a counter of its own for the placeholders. -/
structure Counted (κ : Type u) (α : Type v) extends Statement κ α where
  next : Nat

def Counted.bind (s : Counted κ α) (a : α) (clause : Nat → κ) : Counted κ α where
  clauses := s.clauses ++ [clause s.next]
  args := s.args ++ [a]
  next := s.next + 1

/-- The counter stands at the next argument. -/
def Counted.Exact (s : Counted κ α) : Prop := s.next = s.args.length + 1

/-- The clauses can be read with the arguments, also when more are bound after them. -/
def Statement.Means (read : List α → κ → Option μ) (s : Statement κ α) (ms : List μ) : Prop :=
  ∀ more, s.clauses.mapM (read (s.args ++ more)) = some ms

/-- There are as many arguments as placeholders. -/
def Statement.Complete (width : κ → Nat) (s : Statement κ α) : Prop :=
  (s.clauses.map width).sum = s.args.length

variable {s : Statement κ α} {read : List α → κ → Option μ} {ms : List μ} {width : κ → Nat}

theorem argument_bound (args : List α) (a : α) (more : List α) :
    argument (args ++ a :: more) (args.length + 1) = some a := by
  rw [argument, List.getElem?_append_right (Nat.le_refl _), Nat.sub_self]
  rfl

theorem Statement.Means.mapM_append (h : s.Means read ms) (hm : read (s.args ++ more) c = some m) :
    (s.clauses ++ [c]).mapM (read (s.args ++ more)) = some (ms ++ [m]) := by
  rw [List.mapM_append, h more, List.mapM_cons, hm]
  rfl

/-- A clause is read with the argument that is bound for it, whatever is bound later. -/
theorem Statement.Means.bind (h : s.Means read ms) (clause : Nat → κ)
    (hm : ∀ args n, argument args n = some a → read args (clause n) = some m) :
    (s.bind a clause).Means read (ms ++ [m]) := by
  intro more
  rw [Statement.bind, List.append_assoc, List.singleton_append]
  exact h.mapM_append (hm _ _ (argument_bound s.args a more))

theorem Statement.Means.bindIf {b : Prop} [Decidable b] (h : s.Means read ms) (clause : Nat → κ)
    (hm : ∀ args n, argument args n = some a → read args (clause n) = some m) :
    (if b then s.bind a clause else s).Means read (if b then ms ++ [m] else ms) := by
  split
  next => exact h.bind clause hm
  next => exact h

theorem Statement.Means.bindSome (h : s.Means read ms) (o : Option β) (arg : β → α)
    (clause : Nat → κ) (f : β → μ)
    (hm : ∀ b args n, argument args n = some (arg b) → read args (clause n) = some (f b)) :
    (o.elim s fun b => s.bind (arg b) clause).Means read (ms ++ (o.map f).toList) := by
  cases o with
  | none => exact (List.append_nil ms).symm ▸ h
  | some b => exact h.bind clause (hm b)

theorem Statement.Means.literal (h : s.Means read ms) (hm : ∀ args, read args c = some m) :
    (s.literal c).Means read (ms ++ [m]) :=
  fun _ => h.mapM_append (hm _)

theorem Statement.Means.empty (read : List α → κ → Option μ) : Means read ⟨[], []⟩ [] :=
  fun _ => rfl

theorem Statement.Means.mapM (h : s.Means read ms) : s.clauses.mapM (read s.args) = some ms := by
  have hnone := h []
  rwa [List.append_nil] at hnone

theorem Statement.Complete.bind (h : s.Complete width) (a : α) (clause : Nat → κ)
    (hw : ∀ n, width (clause n) = 1) : (s.bind a clause).Complete width := by
  rw [Statement.Complete, Statement.bind, List.map_append, List.sum_append, h, List.map_singleton,
    hw, List.length_append]
  rfl

theorem Statement.Complete.bindIf {b : Prop} [Decidable b] (h : s.Complete width) (a : α)
    (clause : Nat → κ) (hw : ∀ n, width (clause n) = 1) :
    (if b then s.bind a clause else s).Complete width := by
  split
  next => exact h.bind a clause hw
  next => exact h

theorem Statement.Complete.literal (h : s.Complete width) (hw : width c = 0) :
    (s.literal c).Complete width := by
  rw [Statement.Complete, Statement.literal, List.map_append, List.sum_append, h,
    List.map_singleton, hw]
  rfl

theorem Counted.Exact.bind {s : Counted κ α} (h : s.Exact) (a : α) (clause : Nat → κ) :
    (s.bind a clause).Exact := by
  rw [Counted.Exact, Counted.bind, h, List.length_append]
  rfl

/-- With an exact counter a clause gets the placeholder of its own argument. -/
theorem Counted.Exact.toStatement_bind {s : Counted κ α} (h : s.Exact) (a : α)
    (clause : Nat → κ) : (s.bind a clause).toStatement = s.toStatement.bind a clause := by
  rw [Counted.bind, h]
  rfl

theorem Counted.Exact.bindIf {s : Counted κ α} {t : Statement κ α} {b : Prop} [Decidable b]
    (h : s.Exact ∧ s.toStatement = t) (a : α) (clause : Nat → κ) :
    (if b then s.bind a clause else s).Exact ∧
      (if b then s.bind a clause else s).toStatement = if b then t.bind a clause else t := by
  obtain ⟨hexact, rfl⟩ := h
  split
  · exact ⟨hexact.bind a clause, hexact.toStatement_bind a clause⟩
  · exact ⟨hexact, rfl⟩

end Statements
