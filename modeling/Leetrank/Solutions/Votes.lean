import Mathlib.Algebra.Ring.Int.Defs
import Mathlib.Data.List.Nodup
import Leetrank.Library.Threads

namespace Leetrank
set_option autoImplicit true

open EventMachine Threads

inductive VoteValue where
  | up
  | down
  deriving DecidableEq

def VoteValue.toInt : VoteValue → Int
  | .up => 1
  | .down => -1

/-- The votes on one solution; a user has at most one. -/
structure VoteTable where
  rows : List (String × VoteValue)
  users : (rows.map Prod.fst).Nodup

def VoteTable.find (t : VoteTable) (user : String) : Option VoteValue := t.rows.lookup user

/-- `SUM(value)`, which of no rows is zero. -/
def VoteTable.sum (t : VoteTable) : Int := (t.rows.map fun r => r.2.toInt).sum

/-- `INSERT`, unless the key exists. -/
def VoteTable.insert (t : VoteTable) (user : String) (value : VoteValue) : Option VoteTable :=
  if h : user ∈ t.rows.map Prod.fst then none
  else some {
    rows := t.rows ++ [(user, value)]
    users := by
      rw [List.map_append, List.map_singleton, ← List.concat_eq_append]
      exact t.users.concat h }

def VoteTable.delete (t : VoteTable) (user : String) : VoteTable where
  rows := t.rows.filter (·.1 ≠ user)
  users := t.users.sublist (List.filter_sublist.map Prod.fst)

def VoteTable.update (t : VoteTable) (user : String) (value : VoteValue) : VoteTable where
  rows := t.rows.map fun r => if r.1 = user then (user, value) else r
  users := by
    have hsame : (t.rows.map fun r => if r.1 = user then (user, value) else r).map Prod.fst =
        t.rows.map Prod.fst := by
      rw [List.map_map]
      refine List.map_congr_left fun r _ => ?_
      simp only [Function.comp]
      split
      next h => exact h.symm
      next => rfl
    rw [hsame]
    exact t.users

structure SolutionDb where
  votes : VoteTable
  voteCount : Int

inductive VoteResponse where
  | voted (score userVote : Int)
  | failed (status : Nat) (error : String)
  deriving DecidableEq

def voteFailed : VoteResponse := .failed 500 "Internal server error"

/-- Where a vote of a user stands, each time before the statement of that name. -/
inductive VotePc where
  | finding (user : String) (value : VoteValue)
  | selecting (user : String) (value : VoteValue)
  | writing (user : String) (value : VoteValue) (existing : Option VoteValue)
  | summing (userVote : Int)
  | storing (userVote sum : Int)
  | returned (r : VoteResponse)

/-- The toggle, with the vote that it tells the user of; `none` where the key exists already. -/
def VoteTable.toggle (t : VoteTable) (user : String) (value : VoteValue) :
    Option VoteValue → Option (VoteTable × Int)
  | none => (t.insert user value).map fun t' => (t', value.toInt)
  | some old =>
    if old = value then some (t.delete user, 0) else some (t.update user value, value.toInt)

def SolutionDb.toggle (s : SolutionDb) (user : String) (value : VoteValue)
    (existing : Option VoteValue) : SolutionDb :=
  match s.votes.toggle user value existing with
  | none => s
  | some (votes, _) => { s with votes := votes }

/-- The next statement of a request, if its answer arrives. -/
def VotePc.statement (s : SolutionDb) : VotePc → Option (SolutionDb × VotePc)
  | .finding user value => some (s, .selecting user value)
  | .selecting user value => some (s, .writing user value (s.votes.find user))
  | .writing user value existing =>
    some (s.toggle user value existing,
      match s.votes.toggle user value existing with
      | none => .returned voteFailed
      | some (_, userVote) => .summing userVote)
  | .summing userVote => some (s, .storing userVote s.votes.sum)
  | .storing userVote sum => some ({ s with voteCount := sum }, .returned (.voted sum userVote))
  | .returned _ => none

def voteStep : SolutionDb → Nat → VotePc → Outcome → Option (SolutionDb × VotePc) :=
  statementStep VotePc.statement fun _ => .returned voteFailed

/-- Any number of votes of any users on one solution. -/
def voteProgram : Program SolutionDb VotePc (String × VoteValue) Empty Outcome where
  start := fun _ (user, value) => .finding user value
  ambient := fun s _ => s
  step := voteStep

def SolutionDb.Exact (s : SolutionDb) : Prop := s.voteCount = s.votes.sum

def voteMachine : Machine (World SolutionDb VotePc) (Event (String × VoteValue) Empty Outcome) :=
  voteProgram.machine SolutionDb.Exact

def VotePc.isOver : VotePc → Bool
  | .returned _ => true
  | _ => false

/-- The request is going to store the sum of the votes as they are. -/
def VotePc.Recounts (s : SolutionDb) : VotePc → Prop
  | .summing _ => True
  | .storing _ sum => sum = s.votes.sum
  | _ => False

/-- The count is exact, or another request is going to make it so. -/
def ExactWithout (w : World SolutionDb VotePc) (i : Nat) (s : SolutionDb) : Prop :=
  s.Exact ∨ w.OthersMend VotePc.Recounts i s

/-- A request that gives up after its vote was written, or stores a sum that is not that of the
votes any more, leaves a count that is exact or that another request is going to make so. -/
def Recounted (w : World SolutionDb VotePc) (i : Nat) : VotePc → Outcome → Prop
  | .writing user value existing, .lost => ExactWithout w i (w.shared.toggle user value existing)
  | .summing _, .fail | .summing _, .lost | .storing _ _, .fail => ExactWithout w i w.shared
  | .storing _ sum, .proceed | .storing _ sum, .lost =>
    ExactWithout w i { w.shared with voteCount := sum }
  | _, _ => True

def RecountedStep (w : World SolutionDb VotePc) (e : Event (String × VoteValue) Empty Outcome)
    (_ : World SolutionDb VotePc) : Prop :=
  ∀ i x p, e = .act i x → w.threads[i]? = some p → Recounted w i p x

variable {w w' w₀ : World SolutionDb VotePc} {s s' : SolutionDb} {p p' : VotePc} {i : Nat}

theorem RecountedStep.act (hi : w.threads[i]? = some p) (h : Recounted w i p x) :
    RecountedStep w (.act i x) w' := by
  intro j y q he hj
  cases he
  rw [hi] at hj
  cases hj
  exact h

theorem recountedStep_act (hw : Mending SolutionDb.Exact VotePc.Recounts w)
    (hi : w.threads[i]? = some p) (hs : voteStep w.shared i p x = some (s', p')) :
    Mending SolutionDb.Exact VotePc.Recounts ⟨s', w.threads.set i p'⟩ ↔
      Recounted w i p x := by
  have hquiet (hp : ¬p.Recounts w.shared) (hsame : s' = w.shared) :
      s'.Exact ∨ p'.Recounts s' ∨ w.OthersMend VotePc.Recounts i s' := by
    rw [hsame]
    exact (hw.others hi hp).imp_right .inr
  have hover (hp' : ¬p'.Recounts s') : s'.Exact ∨ p'.Recounts s' ∨
      w.OthersMend VotePc.Recounts i s' ↔ ExactWithout w i s' := by
    rw [or_iff_right hp', ExactWithout]
  rw [mending_set_iff hi]
  cases p with
  | finding user value | selecting user value =>
    refine iff_of_true (hquiet id ?_) ?_
    · cases x <;> cases hs <;> rfl
    · cases x <;> trivial
  | writing user value existing =>
    cases x with
    | proceed =>
      refine iff_of_true ?_ trivial
      cases ht : w.shared.votes.toggle user value existing with
      | none =>
        refine hquiet id ?_
        simp only [voteStep, statementStep, VotePc.statement, SolutionDb.toggle, ht,
          Option.map_some, Option.some.injEq, Prod.mk.injEq] at hs
        exact hs.1.symm
      | some r =>
        obtain ⟨votes, userVote⟩ := r
        simp only [voteStep, statementStep, VotePc.statement, SolutionDb.toggle, ht,
          Option.map_some, Option.some.injEq, Prod.mk.injEq] at hs
        rw [← hs.2]
        exact .inr (.inl trivial)
    | fail =>
      cases hs
      exact iff_of_true (hquiet id rfl) trivial
    | lost =>
      cases hs
      exact hover id
  | summing userVote =>
    cases x with
    | proceed =>
      cases hs
      exact iff_of_true (.inr (.inl rfl)) trivial
    | fail | lost =>
      cases hs
      exact hover id
  | storing userVote sum =>
    cases x <;> cases hs <;> exact hover id
  | returned r => cases hs

/-- A step leaves the count exact, or waiting for a request that makes it so, exactly if it is a
recounted one. -/
theorem mending_step (hw : Mending SolutionDb.Exact VotePc.Recounts w)
    (hs : voteMachine.step w e = some w') :
    Mending SolutionDb.Exact VotePc.Recounts w' ↔ RecountedStep w e w' := by
  cases e with
  | spawn a =>
    cases hs
    refine iff_of_true ?_ fun i x p he => nomatch he
    refine hw.imp_right ?_
    rintro ⟨i, p, hi, hp⟩
    exact ⟨i, p, (List.getElem?_append_left (World.lt_length hi)).trans hi, hp⟩
  | ambient x => cases x
  | act i x =>
    obtain ⟨p, s', p', hi, hstep, rfl⟩ := Program.next_act hs
    rw [recountedStep_act (i := i) hw hi hstep]
    exact ⟨RecountedStep.act hi, fun h => h i x p rfl hi⟩

theorem mending_preserved :
    voteMachine.Preserves RecountedStep (Mending SolutionDb.Exact VotePc.Recounts) :=
  fun _ _ _ hw hs hC => (mending_step hw hs).2 hC

/-- A state that waits for no request is exact. -/
theorem exact_of_over (hw : Mending SolutionDb.Exact VotePc.Recounts w)
    (hover : ∀ p ∈ w.threads, p.isOver = true) : w.shared.Exact := by
  refine hw.resolve_right ?_
  rintro ⟨i, p, hi, hp⟩
  have hp' := hover p (List.mem_of_getElem? hi)
  cases p with
  | finding | selecting | writing | returned => exact hp
  | summing | storing => cases hp'

theorem voteStep_fail (hp : p.isOver = false) :
    voteStep s i p .fail = some (s, .returned voteFailed) := by
  cases p with
  | finding | selecting | writing | summing | storing => rfl
  | returned => cases hp

/-- In a run of recounted steps the count is exact whenever no request is in progress. -/
theorem vote_count_exact {es : List (Event (String × VoteValue) Empty Outcome)}
    (h₀ : voteMachine.init w₀) (hC : voteMachine.Always RecountedStep w₀ es)
    (hr : voteMachine.run w₀ es = some w) (hover : ∀ p ∈ w.threads, p.isOver = true) :
    w.shared.voteCount = w.shared.votes.sum :=
  exact_of_over (mending_preserved.run (.inl h₀.1) hC hr) hover

/-- After a step that is not recounted the requests in progress need only fail for the count to stay
wrong. -/
theorem vote_count_wrong (hw : Mending SolutionDb.Exact VotePc.Recounts w)
    (hs : voteMachine.step w e = some w') (hC : ¬RecountedStep w e w') :
    ∃ es w₁, voteMachine.run w' es = some w₁ ∧ (∀ p ∈ w₁.threads, p.isOver = true) ∧
      ¬w₁.shared.Exact := by
  have hend (s : SolutionDb) (i : Nat) (p : VotePc) (hp : p.isOver = false) :
      ∃ e p', voteProgram.step s i p e = some (s, p') ∧ p'.isOver = true :=
    ⟨.fail, .returned voteFailed, voteStep_fail (i := i) hp, rfl⟩
  obtain ⟨es, w₁, hrun, hshared, hover⟩ := voteProgram.drain SolutionDb.Exact hend w'
  refine ⟨es, w₁, hrun, hover, fun h => hC ((mending_step hw hs).1 (.inl ?_))⟩
  rw [← hshared]
  exact h

def noVotes : World SolutionDb VotePc := ⟨⟨⟨[], List.nodup_nil⟩, 0⟩, []⟩

/-- Two users vote for the solution; the second one votes between the sum and the update of the
first one, and finishes after it or before it. -/
def twoVotes (second : List (Event (String × VoteValue) Empty Outcome)) :
    List (Event (String × VoteValue) Empty Outcome) :=
  [.spawn ("a", .up), .spawn ("b", .up), .act 0 .proceed, .act 0 .proceed, .act 0 .proceed,
    .act 0 .proceed, .act 1 .proceed, .act 1 .proceed, .act 1 .proceed] ++ second

def finishesAfter : List (Event (String × VoteValue) Empty Outcome) :=
  [.act 0 .proceed, .act 1 .proceed, .act 1 .proceed]

def finishesBefore : List (Event (String × VoteValue) Empty Outcome) :=
  [.act 1 .proceed, .act 1 .proceed, .act 0 .proceed]

theorem vote_count_exact_after :
    ∃ w, voteMachine.run noVotes (twoVotes finishesAfter) = some w ∧
      w.shared.votes.rows = [("a", .up), ("b", .up)] ∧
      w.shared.voteCount = w.shared.votes.sum := by
  have hrun : ∃ w, voteMachine.run noVotes (twoVotes finishesAfter) = some w ∧
      w.shared.votes.rows = [("a", .up), ("b", .up)] ∧
      w.threads.all VotePc.isOver = true := ⟨_, rfl, rfl, rfl⟩
  obtain ⟨w, hr, hrows, hover⟩ := hrun
  have h₀ : voteMachine.init noVotes := ⟨rfl, rfl⟩
  refine ⟨w, hr, hrows, vote_count_exact h₀ ?_ hr (List.all_eq_true.1 hover)⟩
  refine Machine.always_cons rfl (fun i x p he => nomatch he) ?_
  refine Machine.always_cons rfl (fun i x p he => nomatch he) ?_
  iterate 7 refine Machine.always_cons rfl (RecountedStep.act rfl trivial) ?_
  refine Machine.always_cons rfl (RecountedStep.act rfl (.inr ?_)) ?_
  · exact ⟨1, _, by decide, rfl, trivial⟩
  refine Machine.always_cons rfl (RecountedStep.act rfl trivial) ?_
  exact Machine.always_cons rfl (RecountedStep.act rfl (.inl rfl)) trivial

/-- The sum of the first request, taken before the second vote, is stored last. -/
theorem vote_count_stale :
    ∃ w, voteMachine.run noVotes (twoVotes finishesBefore) = some w ∧
      w.threads = [.returned (.voted 1 1), .returned (.voted 2 1)] ∧
      w.shared.votes.rows = [("a", .up), ("b", .up)] ∧ w.shared.voteCount = 1 ∧
      w.shared.voteCount ≠ w.shared.votes.sum := by
  refine ⟨_, rfl, rfl, rfl, rfl, ?_⟩
  decide

end Leetrank
