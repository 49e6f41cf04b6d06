import Leetrank.Web.JudgingCluster

namespace Leetrank
set_option autoImplicit true

open EventMachine

def maxDurationMs : Nat := 60000

inductive StreamFrame where
  | status (status : SubmissionStatus) (runtime : Option Int) (error : Option String)
  | progress (completed total : Nat)
  | done
  | ping
  deriving DecidableEq

/-- A frame, when it was sent, and the status read by the poll that sent it. -/
structure SentFrame where
  frame : StreamFrame
  sentAt : Nat
  read : Option SubmissionStatus
  deriving DecidableEq

/-- The columns that a poll selects. -/
structure FreshRow where
  status : SubmissionStatus
  runtime : Option Int
  error : Option String

def Submission.fresh (row : Submission) : FreshRow := ⟨row.status, row.runtime, row.error⟩

/-- A call of the polling timer's function, which the next one does not wait for. -/
inductive StreamPoll where
  | asked
  | found (fresh : Option FreshRow)
  | over

structure SubmissionStream where
  id : SubmissionId
  totalTests : Nat
  lastStatus : SubmissionStatus
  lastProgress : Nat
  startedAt : Nat
  timers : Bool
  closed : Bool
  polls : List StreamPoll
  sent : List SentFrame

/-- `safeEnqueue`: what is sent to a closed stream is dropped, and the timers are stopped. -/
def SubmissionStream.send (s : SubmissionStream) (now : Nat) (read : Option SubmissionStatus)
    (frame : StreamFrame) : SubmissionStream :=
  if s.closed then { s with timers := false }
  else { s with sent := s.sent ++ [⟨frame, now, read⟩] }

def SubmissionStream.stopTimers (s : SubmissionStream) : SubmissionStream :=
  { s with timers := false }

def SubmissionStream.close (s : SubmissionStream) : SubmissionStream := { s with closed := true }

def startStream (id : SubmissionId) (status : SubmissionStatus) (totalTests now : Nat) :
    SubmissionStream :=
  let s : SubmissionStream :=
    { id := id, totalTests := totalTests, lastStatus := status, lastProgress := 0,
      startedAt := now, timers := true, closed := false, polls := [], sent := [] }
  (s.send now none (.status status none none)).send now none (.progress 0 totalTests)

def SubmissionStream.reportStatus (s : SubmissionStream) (now : Nat) (fresh : FreshRow) :
    SubmissionStream :=
  if fresh.status ≠ s.lastStatus then
    { s with lastStatus := fresh.status }.send now (some fresh.status)
      (.status fresh.status fresh.runtime fresh.error)
  else s

def SubmissionStream.reportProgress (s : SubmissionStream) (now : Nat) (fresh : FreshRow) :
    SubmissionStream :=
  if fresh.status.text ≠ "pending" ∧ s.lastProgress < s.totalTests then
    { s with lastProgress := s.totalTests }.send now (some fresh.status)
      (.progress s.totalTests s.totalTests)
  else s

/-- What the polling function does with the row it has found. -/
def SubmissionStream.report (s : SubmissionStream) (now : Nat) (fresh : FreshRow) :
    SubmissionStream :=
  let s := (s.reportStatus now fresh).reportProgress now fresh
  if fresh.status.text ≠ "pending" ∨ maxDurationMs < now - s.startedAt then
    (s.stopTimers.send now (some fresh.status) .done).close
  else s

/-- Where the request for the stream of a submission stands. -/
inductive StreamClient where
  | connecting (id : SubmissionId)
  | counting (id : SubmissionId) (status : SubmissionStatus)
  | notFound
  | streaming (s : SubmissionStream)

structure StreamWorld where
  cluster : Cluster
  now : Nat
  client : StreamClient

/-- What can happen to an open stream: its timers fire, its polls go on, its client leaves. -/
inductive TimerEvent where
  | poll
  | read (k : Nat)
  | reply (k : Nat)
  | fail (k : Nat)
  | heartbeat
  | abort

inductive StreamEvent where
  | cluster (e : ClusterEvent)
  | elapse (ms : Nat)
  | lookup
  | count
  | timer (e : TimerEvent)

def SubmissionStream.setPoll (s : SubmissionStream) (k : Nat) (p : StreamPoll) : SubmissionStream :=
  { s with polls := s.polls.set k p }

def SubmissionStream.step (db : Db) (now : Nat) (s : SubmissionStream) :
    TimerEvent → Option SubmissionStream
  | .poll => if s.timers then some { s with polls := s.polls ++ [.asked] } else none
  | .read k =>
    match s.polls[k]? with
    | some .asked => some (s.setPoll k (.found ((db.findUnique s.id).map Submission.fresh)))
    | _ => none
  | .reply k =>
    match s.polls[k]? with
    | some (.found none) => some (s.setPoll k .over)
    | some (.found (some fresh)) => some ((s.report now fresh).setPoll k .over)
    | _ => none
  | .fail k =>
    match s.polls[k]? with
    | some .asked | some (.found _) => some (s.setPoll k .over)
    | _ => none
  | .heartbeat => if s.timers then some (s.send now none .ping) else none
  | .abort => some s.stopTimers.close

/-- One request for the stream of a submission, next to the workers and the sweeper. -/
def streamStep (w : StreamWorld) : StreamEvent → Option StreamWorld
  | .cluster e => (clusterStep w.cluster e).map fun cluster => { w with cluster := cluster }
  | .elapse ms => some { w with now := w.now + ms }
  | .lookup =>
    match w.client with
    | .connecting id =>
      some { w with client := match w.cluster.db.findUnique id with
        | none => .notFound
        | some row => .counting id row.status }
    | _ => none
  | .count =>
    match w.client with
    | .counting id status =>
      let totalTests := ((w.cluster.db id).map fun row => row.testCases.length).getD 0
      some { w with client := .streaming (startStream id status totalTests w.now) }
    | _ => none
  | .timer e =>
    match w.client with
    | .streaming s =>
      (s.step w.cluster.db w.now e).map fun s' => { w with client := .streaming s' }
    | _ => none

def streamMachine : Machine StreamWorld StreamEvent where
  init := fun w => judgingCluster.init w.cluster ∧ ∃ id, w.client = .connecting id
  step := streamStep

/-- Before its deadline the stream tells of a submission that is done only if the status read by
the poll was a terminal one. -/
def SubmissionStream.ReportsFinished (s : SubmissionStream) : Prop :=
  ∀ f ∈ s.sent, ∀ status, f.read = some status →
    f.frame = .done ∨ f.frame = .progress s.totalTests s.totalTests →
    f.sentAt ≤ s.startedAt + maxDurationMs → status.Terminal

def ReportsFinished (w : StreamWorld) : Prop :=
  ∀ s, w.client = .streaming s → s.ReportsFinished

/-- A row that a poll brings back to an open stream before the deadline is in a terminal status. -/
def FindsFinished (w : StreamWorld) (e : StreamEvent) (_ : StreamWorld) : Prop :=
  ∀ k s fresh, e = .timer (.reply k) → w.client = .streaming s →
    s.polls[k]? = some (.found (some fresh)) → s.closed = false →
    w.now ≤ s.startedAt + maxDurationMs → fresh.status.Terminal

variable {s s' : SubmissionStream} {w w' : StreamWorld} {now : Nat}

/-- No service writes the status that the stream waits to see gone. -/
theorem SubmissionStatus.text_ne_pending (s : SubmissionStatus) : s.text ≠ "pending" := by
  cases s <;> decide

/-- The stream `t` is what `s` becomes by sending frames of a poll that has read `status`. -/
structure SubmissionStream.Sends (now : Nat) (status : SubmissionStatus)
    (s t : SubmissionStream) : Prop where
  closed : t.closed = s.closed
  totalTests : t.totalTests = s.totalTests
  startedAt : t.startedAt = s.startedAt
  old : s.sent ⊆ t.sent
  new : ∀ f ∈ t.sent,
    f ∈ s.sent ∨ s.closed = false ∧ f.read = some status ∧ f.sentAt = now

theorem SubmissionStream.Sends.refl (s : SubmissionStream) : s.Sends now status s :=
  ⟨rfl, rfl, rfl, List.Subset.refl _, fun _ => .inl⟩

theorem SubmissionStream.Sends.trans (h : s.Sends now status t) (h' : t.Sends now status u) :
    s.Sends now status u where
  closed := h'.closed.trans h.closed
  totalTests := h'.totalTests.trans h.totalTests
  startedAt := h'.startedAt.trans h.startedAt
  old := fun _ hf => h'.old (h.old hf)
  new := fun f hf => (h'.new f hf).elim (h.new f) fun hnew => .inr (h.closed ▸ hnew)

theorem SubmissionStream.sends_send (s : SubmissionStream) (now : Nat) (status : SubmissionStatus)
    (frame : StreamFrame) : s.Sends now status (s.send now (some status) frame) := by
  rw [SubmissionStream.send]
  split
  next => exact ⟨rfl, rfl, rfl, List.Subset.refl _, fun _ => .inl⟩
  next h =>
    rw [Bool.not_eq_true] at h
    refine ⟨rfl, rfl, rfl, List.subset_append_left _ _, fun f hf => ?_⟩
    refine (List.mem_append.1 hf).imp_right fun hf => ?_
    rw [List.mem_singleton.1 hf]
    exact ⟨h, rfl, rfl⟩

theorem SubmissionStream.mem_send (h : s.closed = false) :
    ⟨frame, now, status⟩ ∈ (s.send now status frame).sent := by
  rw [SubmissionStream.send, if_neg (by rw [h]; exact Bool.false_ne_true)]
  exact List.mem_append_right _ List.mem_cons_self

theorem SubmissionStream.sends_reportStatus (s : SubmissionStream) (now : Nat)
    (fresh : FreshRow) : s.Sends now fresh.status (s.reportStatus now fresh) := by
  rw [SubmissionStream.reportStatus]
  split
  · have h : s.Sends now fresh.status { s with lastStatus := fresh.status } :=
      ⟨rfl, rfl, rfl, List.Subset.refl _, fun _ => .inl⟩
    exact h.trans (sends_send ..)
  · exact .refl s

theorem SubmissionStream.sends_reportProgress (s : SubmissionStream) (now : Nat)
    (fresh : FreshRow) : s.Sends now fresh.status (s.reportProgress now fresh) := by
  rw [SubmissionStream.reportProgress]
  split
  · have h : s.Sends now fresh.status { s with lastProgress := s.totalTests } :=
      ⟨rfl, rfl, rfl, List.Subset.refl _, fun _ => .inl⟩
    exact h.trans (sends_send ..)
  · exact .refl s

/-- A row that was found is reported as done, whatever its status. -/
theorem SubmissionStream.report_sends (s : SubmissionStream) (now : Nat) (fresh : FreshRow) :
    ∃ t, s.Sends now fresh.status t ∧ s.report now fresh = t.close ∧
      (s.closed = false → ⟨.done, now, some fresh.status⟩ ∈ t.sent) := by
  have hreport := (s.sends_reportStatus now fresh).trans (sends_reportProgress _ now fresh)
  have hstop : s.Sends now fresh.status
      ((s.reportStatus now fresh).reportProgress now fresh).stopTimers :=
    hreport.trans ⟨rfl, rfl, rfl, List.Subset.refl _, fun _ => .inl⟩
  refine ⟨_, hstop.trans (sends_send ..), if_pos (.inl fresh.status.text_ne_pending), ?_⟩
  intro h
  exact mem_send (hstop.closed.trans h)

/-- Whether an open stream stays truthful is decided by the status that the poll has read. -/
theorem SubmissionStream.report_reportsFinished (hs : s.ReportsFinished) (fresh : FreshRow) :
    (s.report now fresh).ReportsFinished ↔
      (s.closed = false → now ≤ s.startedAt + maxDurationMs → fresh.status.Terminal) := by
  obtain ⟨t, ht, he, hdone⟩ := s.report_sends now fresh
  rw [he]
  constructor
  · intro h hc hnow
    exact h _ (hdone hc) fresh.status rfl (.inl rfl) (ht.startedAt ▸ hnow)
  · intro hfin f hf status hread hframe hnow
    change f ∈ t.sent at hf
    change f.frame = .done ∨ f.frame = .progress t.totalTests t.totalTests at hframe
    change f.sentAt ≤ t.startedAt + maxDurationMs at hnow
    rw [ht.totalTests] at hframe
    rw [ht.startedAt] at hnow
    rcases ht.new f hf with hold | ⟨hc, hr, hat⟩
    · exact hs f hold status hread hframe hnow
    · rw [hr] at hread
      cases hread
      exact hfin hc (hat ▸ hnow)

theorem SubmissionStream.ReportsFinished.send (hs : s.ReportsFinished) (frame : StreamFrame) :
    (s.send now none frame).ReportsFinished := by
  rw [SubmissionStream.send]
  split
  · exact hs
  · intro f hf status hread hframe hnow
    rcases List.mem_append.1 hf with hf | hf
    · exact hs f hf status hread hframe hnow
    · rw [List.mem_singleton.1 hf] at hread
      cases hread

theorem startStream_reportsFinished (id : SubmissionId) (status : SubmissionStatus)
    (totalTests now : Nat) : (startStream id status totalTests now).ReportsFinished := by
  refine SubmissionStream.ReportsFinished.send (SubmissionStream.ReportsFinished.send ?_ _) _
  intro f hf
  cases hf

theorem SubmissionStream.step_reportsFinished (hs : s.ReportsFinished)
    (hstep : s.step db now e = some s') :
    s'.ReportsFinished ↔ ∀ k fresh, e = .reply k →
      s.polls[k]? = some (.found (some fresh)) → s.closed = false →
        now ≤ s.startedAt + maxDurationMs → fresh.status.Terminal := by
  have hquiet (hs' : s'.ReportsFinished) (hno : ∀ k, e = .reply k →
      ∀ fresh, s.polls[k]? ≠ some (.found (some fresh))) : s'.ReportsFinished ↔
      ∀ k fresh, e = .reply k → s.polls[k]? = some (.found (some fresh)) →
        s.closed = false → now ≤ s.startedAt + maxDurationMs → fresh.status.Terminal :=
    iff_of_true hs' fun k fresh he hk => (hno k he fresh hk).elim
  cases e with
  | poll =>
    simp only [step] at hstep
    split at hstep
    · cases hstep
      exact hquiet hs nofun
    · cases hstep
  | read k =>
    simp only [step] at hstep
    split at hstep
    · cases hstep
      exact hquiet hs nofun
    · cases hstep
  | reply k =>
    simp only [step] at hstep
    split at hstep
    next hk =>
      cases hstep
      refine hquiet hs fun k' he fresh hk' => ?_
      cases he
      rw [hk] at hk'
      cases hk'
    next fresh hk =>
      cases hstep
      refine (report_reportsFinished hs fresh).trans ?_
      constructor
      · intro h k' fresh' he hk'
        cases he
        rw [hk] at hk'
        cases hk'
        exact h
      · exact fun h => h k fresh rfl hk
    next => cases hstep
  | fail k =>
    simp only [step] at hstep
    split at hstep
    · cases hstep
      exact hquiet hs nofun
    · cases hstep
      exact hquiet hs nofun
    · cases hstep
  | heartbeat =>
    simp only [step] at hstep
    split at hstep
    · cases hstep
      exact hquiet (hs.send .ping) nofun
    · cases hstep
  | abort =>
    cases hstep
    exact hquiet hs nofun

theorem streamStep_reportsFinished (hw : ReportsFinished w) (hs : streamStep w e = some w') :
    ReportsFinished w' ↔ FindsFinished w e w' := by
  cases e with
  | cluster e =>
    obtain ⟨c, -, rfl⟩ := Option.map_eq_some_iff.1 hs
    exact iff_of_true hw fun k s fresh he => nomatch he
  | elapse ms =>
    cases hs
    exact iff_of_true hw fun k s fresh he => nomatch he
  | lookup =>
    simp only [streamStep] at hs
    split at hs
    next id _ =>
      cases hs
      refine iff_of_true ?_ fun k s fresh he => nomatch he
      intro s hclient
      change (match w.cluster.db.findUnique id with
        | none => StreamClient.notFound
        | some row => .counting id row.status) = .streaming s at hclient
      split at hclient <;> cases hclient
    next => cases hs
  | count =>
    simp only [streamStep] at hs
    split at hs
    next id status _ =>
      cases hs
      refine iff_of_true ?_ fun k s fresh he => nomatch he
      intro s hclient
      cases hclient
      exact startStream_reportsFinished _ _ _ _
    next => cases hs
  | timer e =>
    simp only [streamStep] at hs
    split at hs
    next s hclient =>
      obtain ⟨s', hstep, rfl⟩ := Option.map_eq_some_iff.1 hs
      have hiff := SubmissionStream.step_reportsFinished (hw s hclient) hstep
      constructor
      · intro h k s₁ fresh he hs₁
        cases he
        rw [hclient] at hs₁
        cases hs₁
        exact hiff.1 (h s' rfl) k fresh rfl
      · intro h s₁ hs₁
        cases hs₁
        exact hiff.2 fun k fresh he => h k s fresh (congrArg StreamEvent.timer he) hclient
    next => cases hs

/-- In every run of the stream it reports only what is finished exactly if no poll brings back a
row that is not. -/
theorem stream_reports_finished_iff {es : List StreamEvent} {w₀ : StreamWorld}
    (h₀ : streamMachine.init w₀) :
    streamMachine.Always (fun _ _ w => ReportsFinished w) w₀ es ↔
      streamMachine.Always FindsFinished w₀ es := by
  have hinv : streamMachine.Invariant fun _ => True := fun _ _ _ _ _ _ => trivial
  refine hinv.always_state_iff trivial ?_ fun _ _ _ _ hw hs => streamStep_reportsFinished hw hs
  obtain ⟨-, id, hclient⟩ := h₀
  intro s hs
  rw [hclient] at hs
  cases hs

/-- A submission of a problem with one test case, as it is created for the worker. -/
def queuedSubmission : Submission :=
  ⟨.queued, "print(1)", "python", [⟨"", "1"⟩], none, none, none, 0⟩

def connecting : StreamWorld := ⟨⟨fun _ => none, fun _ => none⟩, 0, .connecting "s1"⟩

def subscribe : List StreamEvent := [.cluster (.create "s1" queuedSubmission), .lookup, .count]

/-- The poll that is asked one second after the last event. -/
def pollOnce (k : Nat) : List StreamEvent :=
  [.elapse 1000, .timer .poll, .timer (.read k), .timer (.reply k)]

def failJudging : List StreamEvent :=
  [.cluster (.start 0 "s1"), .cluster (.reply 0 .done), .cluster (.reply 0 .done),
    .cluster (.sweepStuck 1)]

/-- The sweeper fails the submission before the first poll. -/
theorem stream_reports_finished_failed :
    streamMachine.Always (fun _ _ w => ReportsFinished w) connecting
      (subscribe ++ failJudging ++ pollOnce 0) := by
  refine (stream_reports_finished_iff ⟨fun _ => rfl, "s1", rfl⟩).2 ?_
  iterate 10 refine Machine.always_cons rfl (fun _ _ _ he => nomatch he) ?_
  refine Machine.always_cons rfl ?_ trivial
  intro k s fresh he hs hk
  cases he
  cases hs
  cases hk
  decide

/-- One second after it was queued the submission is reported as done. -/
theorem stream_done_while_queued :
    ∃ w s, streamMachine.run connecting (subscribe ++ pollOnce 0) = some w ∧
      w.cluster.db.status "s1" = some .queued ∧ w.client = .streaming s ∧
      s.sent = [⟨.status .queued none none, 0, none⟩, ⟨.progress 0 1, 0, none⟩,
        ⟨.progress 1 1, 1000, some .queued⟩, ⟨.done, 1000, some .queued⟩] ∧
      ¬ReportsFinished w := by
  have hrun : ∃ w s, streamMachine.run connecting (subscribe ++ pollOnce 0) = some w ∧
      w.cluster.db.status "s1" = some .queued ∧ w.client = .streaming s ∧ s.totalTests = 1 ∧
      s.startedAt = 0 ∧
      s.sent = [⟨.status .queued none none, 0, none⟩, ⟨.progress 0 1, 0, none⟩,
        ⟨.progress 1 1, 1000, some .queued⟩, ⟨.done, 1000, some .queued⟩] :=
    ⟨_, _, rfl, rfl, rfl, rfl, rfl, rfl⟩
  obtain ⟨w, s, hr, hdb, hclient, htotal, hstart, hsent⟩ := hrun
  refine ⟨w, s, hr, hdb, hclient, hsent, fun h => ?_⟩
  have hdone : ⟨.done, 1000, some .queued⟩ ∈ s.sent := by
    rw [hsent]
    decide
  have hdeadline : 1000 ≤ s.startedAt + maxDurationMs := by
    rw [hstart]
    decide
  exact (h s hclient _ hdone .queued rfl (.inl rfl) hdeadline).1 rfl

end Leetrank
