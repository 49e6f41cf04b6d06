import Mathlib.Logic.Function.Basic

namespace Leasing
set_option autoImplicit true

/-- The life of a task that one worker at a time may carry out. -/
inductive Lease (α : Type u) where
  | free
  | held (a : α)
  | revoked (a : α)
  | lost
  | settled
  deriving DecidableEq

/-- The worker that believes it holds the task; a revoked worker does not know it yet. -/
def Lease.holder : Lease α → Option α
  | .held a | .revoked a => some a
  | .free | .lost | .settled => none

inductive Lease.Step : Lease α → Lease α → Prop where
  | acquire (a : α) : Step .free (.held a)
  -- the task is given to a worker that never learns of it
  | mislay : Step .free .lost
  | release (a : α) : Step (.held a) .free
  | settle (a : α) : Step (.held a) .settled
  | abandon (a : α) : Step (.held a) .lost
  | revoke (a : α) : Step (.held a) (.revoked a)
  | quit (a : α) : Step (.revoked a) .settled
  | expire : Step .lost .settled

theorem Lease.Step.to_revoked {a : α} {l : Lease α} (h : Lease.Step l (.revoked a)) :
    l = .held a := by
  cases h
  rfl

theorem Lease.holder_eq_some {l : Lease α} (h : l.holder = some a) :
    l = .held a ∨ l = .revoked a := by
  cases l with
  | held b => exact .inl (congrArg Lease.held (Option.some.inj h))
  | revoked b => exact .inr (congrArg Lease.revoked (Option.some.inj h))
  | free | lost | settled => cases h

abbrev Table (κ : Type v) (α : Type u) : Type (max u v) := κ → Lease α

def Table.Step (T U : Table κ α) : Prop := ∀ k, U k = T k ∨ Lease.Step (T k) (U k)

theorem Table.step_update [DecidableEq κ] (T : Table κ α) (h : Lease.Step (T k) l) :
    Table.Step T (Function.update T k l) := by
  intro k'
  by_cases hk : k' = k
  · subst k'
    rw [Function.update_self]
    exact .inr h
  · exact .inl (Function.update_of_ne hk l T)

end Leasing
