import Mathlib.Data.List.Infix
import Mathlib.Logic.Relation

namespace Fifo
set_option autoImplicit true

/-- A waiting line, with what was taken off its front so far. -/
structure Line (α : Type u) where
  taken : List α
  waiting : List α

/-- An element joins at the back, or the one at the front is taken off. -/
inductive Line.Step : Line α → Line α → Prop
  | push (taken waiting : List α) (x : α) : Step ⟨taken, waiting⟩ ⟨taken, waiting ++ [x]⟩
  | shift (taken waiting : List α) (x : α) : Step ⟨taken, x :: waiting⟩ ⟨taken ++ [x], waiting⟩

/-- Every element that ever joined the line, in the order of joining. -/
def Line.joined (l : Line α) : List α := l.taken ++ l.waiting

variable {l l' : Line α} {first : List α}

theorem Line.Step.joined (h : Line.Step l l') : l.joined <+: l'.joined := by
  cases h with
  | push taken waiting x => exact ⟨[x], List.append_assoc taken waiting [x]⟩
  | shift taken waiting x =>
    rw [Line.joined, Line.joined, List.append_assoc]
    exact List.prefix_rfl

theorem Line.Step.taken (h : Line.Step l l') : l.taken <+: l'.taken := by
  cases h with
  | push taken waiting x => exact List.prefix_rfl
  | shift taken waiting x => exact List.prefix_append taken [x]

theorem joined_of_steps (h : Relation.ReflTransGen Line.Step l l') : l.joined <+: l'.joined := by
  induction h with
  | refl => exact List.prefix_rfl
  | tail _ hs ih => exact ih.trans hs.joined

theorem taken_of_steps (h : Relation.ReflTransGen Line.Step l l') : l.taken <+: l'.taken := by
  induction h with
  | refl => exact List.prefix_rfl
  | tail _ hs ih => exact ih.trans hs.taken

/-- What is taken off later are the elements that wait now, from the first one on, before any
other. -/
theorem taken_since (h : Relation.ReflTransGen Line.Step l l') (hf : first <+: l.waiting) :
    ∃ since, l'.taken = l.taken ++ since ∧ (since <+: first ∨ first <+: since) := by
  obtain ⟨since, hs⟩ := taken_of_steps h
  refine ⟨since, hs.symm, ?_⟩
  have hjoined : l.taken ++ l.waiting <+: l.taken ++ (since ++ l'.waiting) := by
    have hj := joined_of_steps h
    rwa [Line.joined, Line.joined, ← hs, List.append_assoc] at hj
  have hwaiting : first <+: since ++ l'.waiting :=
    hf.trans ((List.prefix_append_right_inj l.taken).1 hjoined)
  exact List.prefix_or_prefix_of_prefix (List.prefix_append since l'.waiting) hwaiting

end Fifo
