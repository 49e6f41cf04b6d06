import Leetrank.Web.JudgingCluster

namespace Leetrank
set_option autoImplicit true

open EventMachine Leasing

variable {w w' : Cluster} {T : Table SubmissionId RunId} {id id' : SubmissionId} {k k' : RunId}

theorem Leased.frame (h : Leased w T)
    (hd : ∀ id, Describes (w.db.status id) (T id) → Describes (w'.db.status id) (T id))
    (hh : ∀ k id, w'.Holds k id ↔ w.Holds k id) : Leased w' T :=
  fun id => ⟨hd id (h id).1, fun k => (hh k id).trans ((h id).2 k)⟩

theorem Cluster.holds_update (hk : w.runs k = some ⟨id, pc⟩) (hpc : pc.holding = pc'.holding)
    (k' : RunId) (id' : SubmissionId) :
    Cluster.Holds ⟨db', Function.update w.runs k (some ⟨id, pc'⟩)⟩ k' id' ↔ w.Holds k' id' := by
  by_cases hk' : k' = k
  · subst k'
    rw [Cluster.holds_iff (Function.update_self ..), Cluster.holds_iff hk, hpc]
  · simp only [Cluster.Holds, Function.update_of_ne hk']

theorem Leased.create (h : Leased w T) (hn : w.db id = none) (hq : row.status = .queued) :
    Leased { w with db := Function.update w.db id (some row) } T := by
  apply h.frame
  · intro id' hd
    change Describes (Db.status (Function.update w.db id (some row)) id') (T id')
    by_cases hid : id' = id
    · subst id'
      rw [Db.status_update_self, hq]
      rw [Db.status_eq_none.2 hn] at hd
      -- a lease on a row that is not there can only be free
      cases hT : T id with
      | free => exact .inr rfl
      | held | lost | revoked =>
        rw [hT] at hd
        cases hd
      | settled =>
        rw [hT] at hd
        obtain ⟨s, hs, _⟩ := hd
        cases hs
    · rw [Db.status_update_of_ne hid]
      exact hd
  · intro _ _
    exact Iff.rfl

theorem Leased.start (h : Leased w T) (hk : w.runs k = none) :
    Leased { w with runs := Function.update w.runs k (some ⟨id, .reading⟩) } T := by
  apply h.frame
  · intro _ hd
    exact hd
  · intro k' id'
    by_cases hk' : k' = k
    · subst k'
      rw [Cluster.holds_iff (Function.update_self ..)]
      constructor
      · intro hh
        cases hh.2
      · intro hh
        obtain ⟨run, hr, _⟩ := hh
        rw [hk] at hr
        cases hr
    · simp only [Cluster.Holds, Function.update_of_ne hk']

/-- The lease after the sweeper: what it failed it took from the run that was judging it. -/
def sweepLease (w : Cluster) (cutoff : Int) (T : Table SubmissionId RunId) :
    Table SubmissionId RunId := fun id =>
  if (sweepStuck w.db cutoff).status id = w.db.status id then T id
  else
    match T id with
    | .held k => .revoked k
    | _ => .settled

theorem Leased.sweep (h : Leased w T) (cutoff : Int) :
    Leased { w with db := sweepStuck w.db cutoff } (sweepLease w cutoff T) ∧
      Table.Step T (sweepLease w cutoff T) := by
  -- the sweep moves every lease on its own
  have hpoint (id : SubmissionId) :
      Describes ((sweepStuck w.db cutoff).status id) (sweepLease w cutoff T id) ∧
        (sweepLease w cutoff T id).holder = (T id).holder ∧
        (sweepLease w cutoff T id = T id ∨ Lease.Step (T id) (sweepLease w cutoff T id)) := by
    rw [sweepLease]
    rcases sweepStuck_status w.db cutoff id with hs | ⟨hj, hs⟩
    · rw [if_pos hs, hs]
      exact ⟨(h id).1, rfl, .inl rfl⟩
    · have hd := (h id).1
      rw [hj] at hd
      rw [hs, hj, if_neg (by decide)]
      cases hT : T id with
      | held k => exact ⟨rfl, rfl, .inr (.revoke k)⟩
      | lost => exact ⟨⟨_, rfl, by decide⟩, rfl, .inr .expire⟩
      | free =>
        rw [hT] at hd
        rcases hd with hd | hd <;> cases hd
      | revoked =>
        rw [hT] at hd
        cases hd
      | settled =>
        rw [hT] at hd
        obtain ⟨s, hs', ht⟩ := hd
        cases hs'
        exact absurd ht (by decide)
  refine ⟨fun id => ⟨(hpoint id).1, fun k => ?_⟩, fun id => (hpoint id).2.2⟩
  rw [(hpoint id).2.1]
  exact (h id).2 k

theorem Leased.answer (h : Leased w T) (hk : w.runs k = some ⟨id, pc⟩)
    (hstep : HandlerStep w.db id pc r db' pc') :
    ∃ T', Leased ⟨db', Function.update w.runs k (some ⟨id, pc'⟩)⟩ T' ∧
      (T' = T ∨ Table.Step T T') := by
  have hholds (hpc : pc.holding = true) : w.Holds k id := (Cluster.holds_iff hk).2 ⟨rfl, hpc⟩
  cases hstep with
  | advance hpc => exact ⟨T, h.frame (fun _ hd => hd) (Cluster.holds_update hk hpc), .inl rfl⟩
  | skip hpc => exact ⟨T, h.frame (fun _ hd => hd) (Cluster.holds_update hk hpc), .inl rfl⟩
  | fail hpc => exact ⟨T, h.frame (fun _ hd => hd) (Cluster.holds_update hk hpc), .inl rfl⟩
  | claim hrow hs =>
    have hd := (h id).1
    rw [hs] at hd
    have hT := hd.free_of_queued
    refine ⟨_, h.reply hk (.claim hrow hs) (.held k) ?_ rfl (.inl (by rw [hT]; rfl)), .inr ?_⟩
    · exact Db.status_update_self ..
    · exact Table.step_update T (by rw [hT]; exact .acquire k)
  | claimLost hrow hs =>
    have hd := (h id).1
    rw [hs] at hd
    have hT := hd.free_of_queued
    refine ⟨_, h.reply hk (.claimLost hrow hs) .lost ?_ rfl (.inl (by rw [hT]; rfl)), .inr ?_⟩
    · exact Db.status_update_self ..
    · exact Table.step_update T (by rw [hT]; exact .mislay)
  | reopen hrow hs hr =>
    rcases h.of_holds (hholds rfl) with ⟨hT, _⟩ | ⟨_, hf⟩
    · refine ⟨_, h.reply hk (.reopen hrow hs hr) .free ?_ rfl (.inr (by rw [hT]; rfl)), .inr ?_⟩
      · exact .inr (Db.status_update_self ..)
      · exact Table.step_update T (by rw [hT]; exact .release k)
    · rw [hs] at hf
      cases hf
  | @settle row update r pc' hrow hr hpc' =>
    have hidle : Lease.holder .settled = if pc'.holding = true then some k else none := by
      cases pc' with
      | returned | threw => rfl
      | reading | claiming | judging | updating | rollingBack => cases hpc'
    have hd : Describes (Db.status (Function.update w.db id (some (update.applyTo row))) id)
        .settled :=
      ⟨_, Db.status_update_self .., update.terminal⟩
    rcases h.of_holds (hholds rfl) with ⟨hT, _⟩ | ⟨hT, _⟩
    · refine ⟨_, h.reply hk (.settle hrow hr hpc') .settled hd hidle (.inr (by rw [hT]; rfl)),
        .inr ?_⟩
      exact Table.step_update T (by rw [hT]; exact .settle k)
    · refine ⟨_, h.reply hk (.settle hrow hr hpc') .settled hd hidle (.inr (by rw [hT]; rfl)),
        .inr ?_⟩
      exact Table.step_update T (by rw [hT]; exact .quit k)
  | abandon hpc hr =>
    rcases h.of_holds (hholds hpc) with ⟨hT, hj⟩ | ⟨hT, hf⟩
    · refine ⟨_, h.reply hk (.abandon hpc hr) .lost hj rfl (.inr (by rw [hT]; rfl)), .inr ?_⟩
      exact Table.step_update T (by rw [hT]; exact .abandon k)
    · refine ⟨_, h.reply hk (.abandon hpc hr) .settled ?_ rfl (.inr (by rw [hT]; rfl)), .inr ?_⟩
      · exact ⟨_, hf, by decide⟩
      · exact Table.step_update T (by rw [hT]; exact .quit k)

/-- The cluster of workers refines a table of leases, one for each submission. -/
theorem judgingCluster_refines : judgingCluster.Simulation Table.Step Leased := by
  constructor
  intro w e w' T h he
  cases e with
  | create id row =>
    obtain ⟨hn, hq, rfl⟩ := clusterStep_create he
    exact ⟨T, h.create hn hq, .inl rfl⟩
  | start k id =>
    obtain ⟨hk, rfl⟩ := clusterStep_start he
    exact ⟨T, h.start hk, .inl rfl⟩
  | reply k r =>
    obtain ⟨id, pc, db', pc', hk, hstep, rfl⟩ := clusterStep_reply he
    exact h.answer hk (handlerStep_cases hstep)
  | sweepStuck cutoff =>
    cases he
    exact ⟨_, (h.sweep cutoff).1, .inr (h.sweep cutoff).2⟩

/-- Before any run is started, a row in judging is leased to nobody. -/
def initialLease (w : Cluster) : Table SubmissionId RunId := fun id =>
  match w.db.status id with
  | none | some .queued => .free
  | some .judging => .lost
  | some _ => .settled

theorem leased_init (h : judgingCluster.init w) : Leased w (initialLease w) := by
  intro id
  have hn (k : RunId) : ¬ w.Holds k id := by
    intro hk
    obtain ⟨run, hr, _⟩ := hk
    rw [h k] at hr
    cases hr
  have hl : Describes (w.db.status id) (initialLease w id) ∧ (initialLease w id).holder = none := by
    rw [initialLease]
    cases hs : w.db.status id with
    | none => exact ⟨.inl rfl, rfl⟩
    | some s =>
      cases s with
      | queued => exact ⟨.inr rfl, rfl⟩
      | judging => exact ⟨rfl, rfl⟩
      | _ => exact ⟨⟨_, rfl, by decide⟩, rfl⟩
  constructor
  · exact hl.1
  · intro k
    rw [hl.2]
    simp [hn k]

theorem leased_invariant : judgingCluster.Invariant fun w => ∃ T, Leased w T :=
  judgingCluster_refines.invariant

def queuedCluster : Cluster := ⟨fun id => if id = "s1" then some queuedRow else none, fun _ => none⟩

def claimEvents : List ClusterEvent := [.start 0 "s1", .reply 0 .done, .reply 0 .done]

theorem clusterStep_create_row (he : clusterStep w (.create id' row') = some w')
    (hrow : w.db id = some row) : w'.db id = some row := by
  obtain ⟨hnone, _, rfl⟩ := clusterStep_create he
  have hid : id ≠ id' := by
    rintro rfl
    rw [hnone] at hrow
    cases hrow
  change Function.update w.db id' (some row') id = some row
  rw [Function.update_of_ne hid, hrow]

theorem clusterStep_create_status (he : clusterStep w (.create id' row') = some w')
    (hs : w.db.status id = some s) : w'.db.status id = some s := by
  obtain ⟨row, hrow, rfl⟩ := Db.status_eq_some hs
  exact Db.status_of_row (clusterStep_create_row he hrow)

/-- Nothing but the sweeper fails a row that is being judged. -/
theorem judging_ne_failed (he : clusterStep w e = some w') (hn : e.isSweep = false)
    (hs : w.db.status id = some .judging) : w'.db.status id ≠ some .failed := by
  cases e with
  | create id' row =>
    rw [clusterStep_create_status he hs]
    decide
  | start =>
    obtain ⟨_, rfl⟩ := clusterStep_start he
    change w.db.status id ≠ some .failed
    rw [hs]
    decide
  | sweepStuck => cases hn
  | reply k r =>
    obtain ⟨id', pc, db', pc', _, hstep, rfl⟩ := clusterStep_reply he
    have hstep := handlerStep_cases hstep
    change db'.status id ≠ some .failed
    by_cases hid : id = id'
    · subst id'
      cases hstep with
      | advance | skip | fail | abandon =>
        rw [hs]
        decide
      | claim | claimLost | reopen =>
        rw [Db.status_update_self]
        simp
      | @settle _ update =>
        rw [Db.status_update_self]
        exact fun hf => update.status_ne_failed (Option.some.inj hf)
    · rw [hstep.status_of_ne hid, hs]
      decide

/-- No lease was taken away from the run that holds it. -/
def Unrevoked (w : Cluster) : Prop := ∃ T, Leased w T ∧ ∀ id k, T id ≠ .revoked k

theorem unrevoked_init (h : judgingCluster.init w) : Unrevoked w := by
  refine ⟨_, leased_init h, fun id k hr => ?_⟩
  rw [initialLease] at hr
  split at hr <;> cases hr

theorem unrevoked_preserved :
    judgingCluster.Preserves (fun _ e _ => e.isSweep = false) Unrevoked := by
  rintro w e w' ⟨T, hT, hr⟩ he hn
  obtain ⟨T', hT', hstep⟩ := judgingCluster_refines.step w e w' T hT he
  refine ⟨T', hT', fun id k hk => ?_⟩
  have hd := (hT' id).1
  rw [hk] at hd
  have hlease : T' id = T id ∨ Lease.Step (T id) (T' id) := by
    rcases hstep with rfl | hstep
    · exact .inl rfl
    · exact hstep id
  rcases hlease with hsame | hlease
  · exact hr id k (hsame.symm.trans hk)
  · -- the row would have gone from judging to failed in this step
    rw [hk] at hlease
    have hheld := hlease.to_revoked
    have hj := (hT id).1
    rw [hheld] at hj
    exact judging_ne_failed he hn hj hd

theorem Unrevoked.judging (h : Unrevoked w) (hk : w.Holds k id) :
    w.db.status id = some .judging := by
  obtain ⟨T, hT, hr⟩ := h
  rcases hT.of_holds hk with ⟨_, hj⟩ | ⟨hf, _⟩
  · exact hj
  · exact (hr id k hf).elim

def WritesVerdict (w w' : Cluster) (id : SubmissionId) : Prop :=
  ∃ row row', w.db id = some row ∧ w'.db id = some row' ∧ row' ≠ row ∧ row'.status.isVerdict = true

/-- A verdict comes from a run that holds the claim, by an answer to its final update. -/
theorem verdict_by_holder (he : clusterStep w e = some w') (hn : e.isSweep = false)
    (hv : WritesVerdict w w' id) : ∃ k r, e = .reply k r ∧ w.Holds k id := by
  obtain ⟨row, row', hrow, hrow', hne, hs⟩ := hv
  cases e with
  | create id' row₁ =>
    exact (hne (Option.some.inj (hrow'.symm.trans (clusterStep_create_row he hrow)))).elim
  | start =>
    obtain ⟨_, rfl⟩ := clusterStep_start he
    exact (hne (Option.some.inj (hrow'.symm.trans hrow))).elim
  | sweepStuck => cases hn
  | reply k r =>
    obtain ⟨id', pc, db', pc', hk, hstep, rfl⟩ := clusterStep_reply he
    have hstep := handlerStep_cases hstep
    change db' id = some row' at hrow'
    have hid : id = id' := by
      by_contra hid
      rw [hstep.row_of_ne hid, hrow] at hrow'
      exact hne (Option.some.inj hrow').symm
    subst id'
    refine ⟨k, r, rfl, (Cluster.holds_iff hk).2 ⟨rfl, ?_⟩⟩
    cases hstep with
    | advance | skip | fail | abandon => exact (hne (Option.some.inj (hrow'.symm.trans hrow))).elim
    | claim | claimLost | reopen =>
      rw [Function.update_self] at hrow'
      cases hrow'
      cases hs
    | settle => rfl

/-- In every state that workers reach without the sweeper, one run at most holds the claim on a
submission, and a verdict is only written by that run, to the row it has in judging. -/
theorem claim_exclusive (h : judgingCluster.init w₀) (hr : judgingCluster.run w₀ es = some w)
    (hn : ∀ e ∈ es, e.isSweep = false) :
    (∀ id k k', w.Holds k id → w.Holds k' id → k = k') ∧
      ∀ e w' id, clusterStep w e = some w' → e.isSweep = false → WritesVerdict w w' id →
        ∃ k r, e = .reply k r ∧ w.Holds k id ∧ w.db.status id = some .judging := by
  have hu : Unrevoked w :=
    unrevoked_preserved.run (unrevoked_init h) (Machine.always_of_events fun e he _ _ => hn e he) hr
  constructor
  · obtain ⟨T, hT, _⟩ := hu
    exact fun id k k' => hT.holder_unique
  · intro e w' id he hne hv
    obtain ⟨k, r, rfl, hk⟩ := verdict_by_holder he hne hv
    exact ⟨k, r, rfl, hk, hu.judging hk⟩

def duplicateEvents : List ClusterEvent := claimEvents ++ [.start 1 "s1", .reply 1 .done]

theorem claim_exclusive_two_runs :
    ∃ w, judgingCluster.run queuedCluster duplicateEvents = some w ∧
      (∀ id k k', w.Holds k id → w.Holds k' id → k = k') ∧
      ∀ e w' id, clusterStep w e = some w' → e.isSweep = false → WritesVerdict w w' id →
        ∃ k r, e = .reply k r ∧ w.Holds k id ∧ w.db.status id = some .judging := by
  have hs : (judgingCluster.run queuedCluster duplicateEvents).isSome = true := rfl
  obtain ⟨w, hw⟩ := Option.isSome_iff_exists.1 hs
  exact ⟨w, hw, claim_exclusive (fun _ => rfl) hw (by decide)⟩

/-- No step changes the status of a row that has reached a terminal one. -/
def TerminalKept (w w' : Cluster) : Prop :=
  ∀ id s, w.db.status id = some s → s.Terminal → w'.db.status id = some s

/-- A final update finds its row not swept away since the run claimed it. -/
def FinalUpdateInForce (w : Cluster) (e : ClusterEvent) : Prop :=
  ∀ k id update r, e = .reply k r → r.takesEffect = true →
    w.runs k = some ⟨id, .updating update⟩ → w.db.status id ≠ some .failed

theorem terminalKept_sweep (w : Cluster) (cutoff : Int) :
    TerminalKept w { w with db := sweepStuck w.db cutoff } := by
  intro id s hs ht
  rcases sweepStuck_status w.db cutoff id with h | ⟨h, _⟩
  · exact h.trans hs
  · rw [h] at hs
    cases hs
    exact absurd ht (by decide)

theorem terminalKept_answer (hstep : HandlerStep w.db id pc r db' pc')
    (hu : ∀ update, pc = .updating update → r.takesEffect = true →
      w.db.status id = some .judging) :
    TerminalKept w ⟨db', runs⟩ := by
  intro id' s hs ht
  change db'.status id' = some s
  by_cases hid : id' = id
  · subst id'
    cases hstep with
    | advance | skip | fail | abandon => exact hs
    | claim _ hq | claimLost _ hq | reopen _ hq =>
      rw [hq] at hs
      cases hs
      exact absurd ht (by decide)
    | settle _ hr =>
      rw [hu _ rfl hr] at hs
      cases hs
      exact absurd ht (by decide)
  · rw [hstep.status_of_ne hid, hs]

/-- The step that breaks a terminal status is a final update behind the sweeper's back. -/
theorem terminalKept_iff (h : Leased w T) (he : clusterStep w e = some w') :
    TerminalKept w w' ↔ FinalUpdateInForce w e := by
  constructor
  · rintro hkept k id update r rfl hr hk hf
    obtain ⟨id', pc, db', pc', hk', hstep, rfl⟩ := clusterStep_reply he
    cases hk.symm.trans hk'
    have hs : db'.status id = some .failed := hkept id .failed hf (by decide)
    rw [handlerStep_final hstep hr hf] at hs
    exact update.status_ne_failed (Option.some.inj hs)
  · intro hc
    cases e with
    | create => exact fun _ _ hs _ => clusterStep_create_status he hs
    | start k id =>
      obtain ⟨_, rfl⟩ := clusterStep_start he
      exact fun _ _ hs _ => hs
    | sweepStuck cutoff =>
      cases he
      exact terminalKept_sweep w cutoff
    | reply k r =>
      obtain ⟨id, pc, db', pc', hk, hstep, rfl⟩ := clusterStep_reply he
      apply terminalKept_answer (handlerStep_cases hstep)
      rintro update rfl hr
      rcases h.of_holds ((Cluster.holds_iff hk).2 ⟨rfl, rfl⟩) with ⟨_, hj⟩ | ⟨_, hf⟩
      · exact hj
      · exact (hc k id update r rfl hr hk hf).elim

/-- Along every run, terminal statuses are final exactly as long as no final update overwrites the
row of a run that the sweeper has failed. -/
theorem terminal_final_iff (h : judgingCluster.init w) (es : List ClusterEvent) :
    judgingCluster.Always (fun w _ w' => TerminalKept w w') w es ↔
      judgingCluster.Always (fun w e _ => FinalUpdateInForce w e) w es := by
  apply leased_invariant.always_iff ⟨_, leased_init h⟩
  intro w e w' hw he
  obtain ⟨T, hT⟩ := hw
  exact terminalKept_iff hT he

theorem terminal_final_unswept :
    judgingCluster.Always (fun w _ w' => TerminalKept w w') queuedCluster
        (claimEvents ++ [.reply 0 (.fetched acceptedReply), .reply 0 .done, .sweepStuck 1]) ↔
      judgingCluster.Always (fun w e _ => FinalUpdateInForce w e) queuedCluster
        (claimEvents ++ [.reply 0 (.fetched acceptedReply), .reply 0 .done, .sweepStuck 1]) :=
  terminal_final_iff (fun _ => rfl) _

/-- The sweeper fails the row while the judge is running, and the late verdict overwrites that. -/
theorem terminal_not_final :
    ¬ ∀ w es, judgingCluster.init w →
      judgingCluster.Always (fun w _ w' => TerminalKept w w') w es := by
  intro h
  have hkept := (h queuedCluster
    ((claimEvents ++ [.sweepStuck 1, .reply 0 (.fetched acceptedReply)]) ++ [.reply 0 .done])
    fun _ => rfl).last rfl rfl
  have hs := hkept "s1" .failed rfl (by decide)
  exact absurd hs (by decide)

end Leetrank
