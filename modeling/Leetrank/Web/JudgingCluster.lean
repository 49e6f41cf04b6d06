import Leetrank.Library.Lease
import Leetrank.Library.Machine
import Leetrank.Web.JudgeHandler

namespace Leetrank
set_option autoImplicit true

open EventMachine Leasing

abbrev RunId := Nat

structure HandlerRun where
  submissionId : SubmissionId
  pc : HandlerPc

/-- The database and every run of the handler that was ever started. -/
structure Cluster where
  db : Db
  runs : RunId → Option HandlerRun

inductive ClusterEvent where
  | create (id : SubmissionId) (row : Submission)
  | start (k : RunId) (id : SubmissionId)
  | reply (k : RunId) (r : Reply)
  | sweepStuck (cutoff : Int)

def ClusterEvent.isSweep : ClusterEvent → Bool
  | .sweepStuck _ => true
  | .create _ _ | .start _ _ | .reply _ _ => false

/-- Rows are created queued, runs are started under fresh ids, and the sweeper runs at any time. -/
def clusterStep (w : Cluster) : ClusterEvent → Option Cluster
  | .create id row =>
    if w.db id = none ∧ row.status = .queued then
      some { w with db := Function.update w.db id (some row) }
    else none
  | .start k id =>
    if (w.runs k).isNone then
      some { w with runs := Function.update w.runs k (some ⟨id, .reading⟩) }
    else none
  | .reply k r =>
    (w.runs k).bind fun run =>
      (handlerStep w.db run.submissionId run.pc r).map fun (db', pc') =>
        ⟨db', Function.update w.runs k (some { run with pc := pc' })⟩
  | .sweepStuck cutoff => some { w with db := sweepStuck w.db cutoff }

/-- The workers start without a run in progress over a table in any state. -/
def judgingCluster : Machine Cluster ClusterEvent where
  init := fun w => ∀ k, w.runs k = none
  step := clusterStep

/-- The run has claimed the submission and neither rolled the claim back nor finished. -/
def Cluster.Holds (w : Cluster) (k : RunId) (id : SubmissionId) : Prop :=
  ∃ run, w.runs k = some run ∧ run.submissionId = id ∧ run.pc.holding = true

variable {w w' : Cluster} {id id' : SubmissionId} {k k' : RunId}

theorem clusterStep_create (h : clusterStep w (.create id row) = some w') :
    w.db id = none ∧ row.status = .queued ∧
      w' = { w with db := Function.update w.db id (some row) } := by
  simp only [clusterStep] at h
  split at h
  next hc =>
    cases h
    exact ⟨hc.1, hc.2, rfl⟩
  · cases h

theorem clusterStep_start (h : clusterStep w (.start k id) = some w') :
    w.runs k = none ∧ w' = { w with runs := Function.update w.runs k (some ⟨id, .reading⟩) } := by
  simp only [clusterStep, Option.isNone_iff_eq_none] at h
  split at h
  next hk =>
    cases h
    exact ⟨hk, rfl⟩
  · cases h

theorem clusterStep_reply (h : clusterStep w (.reply k r) = some w') :
    ∃ id pc db' pc', w.runs k = some ⟨id, pc⟩ ∧ handlerStep w.db id pc r = some (db', pc') ∧
      w' = ⟨db', Function.update w.runs k (some ⟨id, pc'⟩)⟩ := by
  obtain ⟨⟨id, pc⟩, hk, h⟩ := Option.bind_eq_some_iff.1 h
  obtain ⟨⟨db', pc'⟩, hs, rfl⟩ := Option.map_eq_some_iff.1 h
  exact ⟨id, pc, db', pc', hk, hs, rfl⟩

theorem Cluster.holds_iff (hk : w.runs k = some ⟨id, pc⟩) :
    w.Holds k id' ↔ id = id' ∧ pc.holding = true := by
  constructor
  · rintro ⟨run, hr, hid, hh⟩
    cases hk.symm.trans hr
    exact ⟨hid, hh⟩
  · rintro ⟨rfl, hh⟩
    exact ⟨_, hk, rfl, hh⟩

/-- The status of a row as the lease on its judging explains it. -/
def Describes (status : Option SubmissionStatus) : Lease RunId → Prop
  | .free => status = none ∨ status = some .queued
  | .held _ | .lost => status = some .judging
  | .revoked _ => status = some .failed
  | .settled => ∃ s, status = some s ∧ s.Terminal

/-- Each row is leased to the one run that holds its claim. -/
def Leased (w : Cluster) (T : Table SubmissionId RunId) : Prop :=
  ∀ id, Describes (w.db.status id) (T id) ∧ ∀ k, w.Holds k id ↔ (T id).holder = some k

theorem Describes.free_of_queued (h : Describes (some .queued) l) : l = .free := by
  cases l with
  | free => rfl
  | held | lost | revoked => cases h
  | settled =>
    obtain ⟨s, hs, ht⟩ := h
    cases hs
    exact absurd ht (by decide)

/-- While a run holds the claim its row is in judging, unless the sweeper failed it. -/
theorem Leased.of_holds {T : Table SubmissionId RunId} (h : Leased w T) (hk : w.Holds k id) :
    T id = .held k ∧ w.db.status id = some .judging ∨
      T id = .revoked k ∧ w.db.status id = some .failed := by
  obtain ⟨hd, hh⟩ := h id
  rcases Lease.holder_eq_some ((hh k).1 hk) with hl | hl
  · rw [hl] at hd
    exact .inl ⟨hl, hd⟩
  · rw [hl] at hd
    exact .inr ⟨hl, hd⟩

theorem Leased.holder_unique {T : Table SubmissionId RunId} (h : Leased w T) (hk : w.Holds k id)
    (hk' : w.Holds k' id) : k = k' :=
  Option.some.inj ((((h id).2 k).1 hk).symm.trans (((h id).2 k').1 hk'))

theorem Leased.reply {T : Table SubmissionId RunId} (h : Leased w T)
    (hk : w.runs k = some ⟨id, pc⟩) (hstep : HandlerStep w.db id pc r db' pc') (l : Lease RunId)
    (hd : Describes (db'.status id) l)
    (hl : l.holder = if pc'.holding = true then some k else none)
    (hT : (T id).holder = none ∨ (T id).holder = some k) :
    Leased ⟨db', Function.update w.runs k (some ⟨id, pc'⟩)⟩ (Function.update T id l) := by
  intro id₁
  by_cases hid : id₁ = id
  · subst id₁
    rw [Function.update_self]
    refine ⟨hd, ?_⟩
    intro k₁
    rw [hl]
    by_cases hk₁ : k₁ = k
    · subst k₁
      rw [Cluster.holds_iff (Function.update_self ..)]
      simp
    · -- nobody else held the lease before, and nobody else gets it
      have hn : ¬ w.Holds k₁ id := by
        intro hh
        rcases hT with hT | hT
        · exact absurd (((h id).2 k₁).1 hh) (by simp [hT])
        · exact hk₁ (Option.some.inj ((((h id).2 k₁).1 hh).symm.trans hT))
      have hsame : Cluster.Holds ⟨db', Function.update w.runs k (some ⟨id, pc'⟩)⟩ k₁ id ↔
          w.Holds k₁ id := by
        simp only [Cluster.Holds, Function.update_of_ne hk₁]
      rw [hsame, iff_false_left hn]
      split
      · exact fun he => hk₁ (Option.some.inj he).symm
      · simp
  · rw [Function.update_of_ne hid]
    constructor
    · change Describes (db'.status id₁) (T id₁)
      rw [hstep.status_of_ne hid]
      exact (h id₁).1
    · intro k₁
      rw [← (h id₁).2 k₁]
      by_cases hk₁ : k₁ = k
      · subst k₁
        rw [Cluster.holds_iff (Function.update_self ..), Cluster.holds_iff hk]
        simp [Ne.symm hid]
      · simp only [Cluster.Holds, Function.update_of_ne hk₁]

end Leetrank
