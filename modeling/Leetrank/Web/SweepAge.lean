import Leetrank.Web.JudgingCluster

namespace Leetrank
set_option autoImplicit true

open EventMachine

def defaultStuckThreshold : Int := 60000

/-- The threshold that `Sweeper.Run` goes by. -/
def stuckThreshold (configured : Int) : Int :=
  if configured ≤ 0 then defaultStuckThreshold else configured

/-- The cluster with a clock, the cutoffs of the sweeps whose statement has yet to be executed, and
since when each row in judging has been so. -/
structure SweptCluster where
  cluster : Cluster
  now : Int
  cutoffs : List Int
  since : SubmissionId → Option Int

inductive SweptEvent where
  | elapse (ms : Nat)
  | create (id : SubmissionId) (row : Submission)
  | start (k : RunId) (id : SubmissionId)
  | reply (k : RunId) (r : Reply)
  | aim
  | sweep (i : Nat)

/-- A row that was in judging before the step and is so after it has been so all along. -/
def judgingSince (since : SubmissionId → Option Int) (before after : Db) (now : Int) :
    SubmissionId → Option Int := fun id =>
  if after.status id = some .judging then
    if before.status id = some .judging then since id else some now
  else none

def SweptCluster.move (w : SweptCluster) (e : ClusterEvent) : Option SweptCluster :=
  (clusterStep w.cluster e).map fun cluster =>
    { w with
      cluster := cluster
      since := judgingSince w.since w.cluster.db cluster.db w.now }

/-- A sweep reads the clock for its cutoff, and its statement is executed some time later. -/
def sweptStep (configured : Int) (w : SweptCluster) : SweptEvent → Option SweptCluster
  | .elapse ms => some { w with now := w.now + ms }
  | .create id row => w.move (.create id { row with createdAt := w.now })
  | .start k id => w.move (.start k id)
  | .reply k r => w.move (.reply k r)
  | .aim => some { w with cutoffs := w.cutoffs ++ [w.now - stuckThreshold configured] }
  | .sweep i =>
    w.cutoffs[i]?.bind fun cutoff =>
      { w with cutoffs := w.cutoffs.eraseIdx i }.move (.sweepStuck cutoff)

/-- Each row in judging has a time since when it is. -/
def SweptCluster.Timed (w : SweptCluster) : Prop :=
  ∀ id, w.cluster.db.status id = some .judging → (w.since id).isSome = true

def sweptMachine (configured : Int) : Machine SweptCluster SweptEvent where
  init := fun w => judgingCluster.init w.cluster ∧ w.cutoffs = [] ∧ w.Timed
  step := sweptStep configured

/-- A sweep moves only rows to failed that have been in judging for at least the threshold. -/
def SweepsStuck (configured : Int) (w : SweptCluster) (e : SweptEvent) (w' : SweptCluster) :
    Prop :=
  ∀ i id, e = .sweep i → w.cluster.db.status id = some .judging →
    w'.cluster.db.status id = some .failed →
      ∃ t, w.since id = some t ∧ t + stuckThreshold configured ≤ w.now

/-- A row that came into judging less than the threshold before a sweep was not created before the
cutoff of the sweep. -/
def ClaimedEarly (configured : Int) (w : SweptCluster) (e : SweptEvent) (_ : SweptCluster) :
    Prop :=
  ∀ i cutoff id row t, e = .sweep i → w.cutoffs[i]? = some cutoff →
    w.cluster.db id = some row → row.status = .judging → w.since id = some t →
      w.now < t + stuckThreshold configured → cutoff ≤ row.createdAt

variable {w w' : SweptCluster} {configured : Int} {id : SubmissionId} {db : Db}

/-- The sweep looks at the age of the row, whatever part of it the row has spent in judging. -/
theorem sweepStuck_fails_iff (hrow : db id = some row) (hj : row.status = .judging) :
    (sweepStuck db cutoff).status id = some .failed ↔ row.createdAt < cutoff := by
  simp only [Db.status, sweepStuck, hrow, Option.map_some, sweepRow, hj, true_and]
  split
  next h => simp [h]
  next h => simp [h, hj]

theorem SweptCluster.move_some (h : w.move e = some w') :
    ∃ cluster, clusterStep w.cluster e = some cluster ∧
      w' = { w with
        cluster := cluster
        since := judgingSince w.since w.cluster.db cluster.db w.now } := by
  obtain ⟨cluster, hc, rfl⟩ := Option.map_eq_some_iff.1 h
  exact ⟨cluster, hc, rfl⟩

theorem SweptCluster.Timed.move (hw : w.Timed) (h : w.move e = some w') : w'.Timed := by
  obtain ⟨cluster, -, rfl⟩ := SweptCluster.move_some h
  intro id hj
  change (judgingSince w.since w.cluster.db cluster.db w.now id).isSome = true
  rw [judgingSince, if_pos hj]
  split
  next hb => exact hw id hb
  next => rfl

theorem timed_invariant (configured : Int) :
    (sweptMachine configured).Invariant SweptCluster.Timed := by
  rintro w e w' hw h -
  cases e with
  | elapse | aim =>
    cases h
    exact hw
  | create | start | reply => exact hw.move h
  | sweep i =>
    obtain ⟨cutoff, -, h⟩ := Option.bind_eq_some_iff.1 h
    have haimed : SweptCluster.Timed { w with cutoffs := w.cutoffs.eraseIdx i } := hw
    exact haimed.move h

theorem sweptStep_sweep (h : sweptStep configured w (.sweep i) = some w') :
    ∃ cutoff, w.cutoffs[i]? = some cutoff ∧
      w'.cluster.db = sweepStuck w.cluster.db cutoff := by
  obtain ⟨cutoff, hi, h⟩ := Option.bind_eq_some_iff.1 h
  obtain ⟨cluster, hc, rfl⟩ := SweptCluster.move_some h
  cases hc
  exact ⟨cutoff, hi, rfl⟩

theorem sweepsStuck_iff (hw : w.Timed) (h : sweptStep configured w e = some w') :
    SweepsStuck configured w e w' ↔ ClaimedEarly configured w e w' := by
  constructor
  · intro hs i cutoff id row t he hi hrow hj ht hlt
    subst he
    obtain ⟨cutoff', hi', hdb⟩ := sweptStep_sweep h
    rw [hi] at hi'
    cases hi'
    by_contra hold
    have hfailed : w'.cluster.db.status id = some .failed := by
      rw [hdb]
      exact (sweepStuck_fails_iff hrow hj).2 (Int.lt_of_not_ge hold)
    have hjudging : w.cluster.db.status id = some .judging := by
      rw [Db.status_of_row hrow, hj]
    obtain ⟨t', ht', hle⟩ := hs i id rfl hjudging hfailed
    rw [ht] at ht'
    cases ht'
    omega
  · intro hr i id he hj hf
    subst he
    obtain ⟨cutoff, hi, hdb⟩ := sweptStep_sweep h
    obtain ⟨row, hrow, hjudging⟩ := Db.status_eq_some hj
    rw [hdb, sweepStuck_fails_iff hrow hjudging] at hf
    obtain ⟨t, ht⟩ := Option.isSome_iff_exists.1 (hw id hj)
    refine ⟨t, ht, ?_⟩
    by_contra hlt
    have hrecent := hr i cutoff id row t rfl hi hrow hjudging ht (Int.lt_of_not_ge hlt)
    omega

/-- In every run the sweeper fails only stuck rows exactly if at each sweep the rows that came into
judging too late for it were created too late for it as well. -/
theorem sweeps_stuck_iff {w₀ : SweptCluster} {es : List SweptEvent}
    (h₀ : (sweptMachine configured).init w₀) :
    (sweptMachine configured).Always (SweepsStuck configured) w₀ es ↔
      (sweptMachine configured).Always (ClaimedEarly configured) w₀ es :=
  (timed_invariant configured).always_iff h₀.2.2 fun _ _ _ hw h => sweepsStuck_iff hw h

def emptyCluster : SweptCluster := ⟨⟨fun _ => none, fun _ => none⟩, 0, [], fun _ => none⟩

/-- A submission that is queued for a time, then claimed, and swept another time later. -/
def queuedThenSwept (queued judging : Nat) : List SweptEvent :=
  [.create "s1" ⟨.queued, "print(1)", "python", [⟨"", "1"⟩], none, none, none, 0⟩,
    .elapse queued, .start 0 "s1", .reply 0 .done, .reply 0 .done, .elapse judging, .aim, .sweep 0]

theorem sweeps_stuck_claimed :
    (sweptMachine 0).Always (SweepsStuck 0) emptyCluster (queuedThenSwept 0 60001) := by
  refine (sweeps_stuck_iff ⟨fun _ => rfl, rfl, fun _ h => by cases h⟩).2 ?_
  iterate 7 refine Machine.always_cons rfl (fun _ _ _ _ _ he => nomatch he) ?_
  refine Machine.always_cons rfl ?_ trivial
  intro i cutoff id row t he hi hrow hj ht hlt
  by_cases hid : id = "s1"
  · subst hid
    cases ht
    exact absurd hlt (by decide)
  · change Function.update (Function.update (fun _ => none) "s1" _) "s1" _ id = some row at hrow
    rw [Function.update_of_ne hid, Function.update_of_ne hid] at hrow
    cases hrow

/-- A submission that has waited longer than the threshold is failed as soon as it is claimed. -/
theorem claimed_swept_at_once :
    ∃ w w', (sweptMachine 0).run emptyCluster (queuedThenSwept 60001 0).dropLast = some w ∧
      (sweptMachine 0).step w (.sweep 0) = some w' ∧
      w.cluster.db.status "s1" = some .judging ∧ w.since "s1" = some w.now ∧
      w'.cluster.db.status "s1" = some .failed ∧ ¬SweepsStuck 0 w (.sweep 0) w' := by
  have hrun : ∃ w w', (sweptMachine 0).run emptyCluster (queuedThenSwept 60001 0).dropLast =
      some w ∧ (sweptMachine 0).step w (.sweep 0) = some w' ∧
      w.cluster.db.status "s1" = some .judging ∧ w.now = 60001 ∧ w.since "s1" = some 60001 ∧
      w'.cluster.db.status "s1" = some .failed := ⟨_, _, rfl, rfl, rfl, rfl, rfl, rfl⟩
  obtain ⟨w, w', hr, hs, hj, hnow, hsince, hf⟩ := hrun
  refine ⟨w, w', hr, hs, hj, by rw [hsince, hnow], hf, fun h => ?_⟩
  obtain ⟨t, ht, hle⟩ := h 0 "s1" rfl hj hf
  rw [hsince] at ht
  cases ht
  rw [hnow] at hle
  exact absurd hle (by decide)

end Leetrank
