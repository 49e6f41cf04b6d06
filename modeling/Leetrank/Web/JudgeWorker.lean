import Leetrank.Library.Machine
import Leetrank.Web.JudgeHandler
import Leetrank.Web.WorkerQueue

namespace Leetrank
set_option autoImplicit true

open EventMachine

abbrev JudgeQueue := WorkerQueue SubmissionId HandlerPc

def judgeHandlers (type : String) : Option (QueueJob SubmissionId → HandlerPc) :=
  if type = "judge-submission" then some fun _ => .reading else none

/-- A worker process over its database, and the ids it was ever asked to judge. -/
structure Worker where
  db : Db
  queue : JudgeQueue
  enqueued : List SubmissionId

inductive WorkerEvent where
  | create (id : SubmissionId) (row : Submission)
  | enqueueJudgeSubmission (id : SubmissionId)
  | reply (n : Nat) (r : Reply)
  | retryTimer (n : Nat)

/-- A suspended call goes on until it waits again, returns or throws. -/
def settleCall (q : JudgeQueue) (job : QueueJob SubmissionId) : HandlerPc → JudgeQueue
  | .returned => q.resolve
  | .threw err => q.reject job err
  | pc => { q with running := ⟨job, pc⟩ :: q.running }

/-- A submission is created before it is enqueued; it may be enqueued any number of times. -/
def workerStep (w : Worker) : WorkerEvent → Option Worker
  | .create id row =>
    if w.db id = none ∧ row.status = .queued ∧ id ∉ w.enqueued then
      some { w with db := Function.update w.db id (some row) }
    else none
  | .enqueueJudgeSubmission id =>
    some { w with
      queue := w.queue.enqueue "judge-submission" id
      enqueued := id :: w.enqueued }
  | .reply n r =>
    (pick (fun call => call.job.number == n) w.queue.running).bind fun (call, rest) =>
      (handlerStep w.db call.job.payload call.state r).map fun (db', pc') =>
        { w with
          db := db'
          queue := settleCall { w.queue with running := rest } call.job pc' }
  | .retryTimer n =>
    (pick (fun job => job.number == n) w.queue.retrying).map fun (job, rest) =>
      { w with queue := WorkerQueue.retry { w.queue with retrying := rest } job }

/-- The worker starts with an empty queue over a table without a judging in progress. -/
def judgeWorker (limits : QueueLimits) : Machine Worker WorkerEvent where
  init := fun w => w.queue = .new limits judgeHandlers ∧ w.enqueued = [] ∧
    ∀ id, w.db.status id ≠ some .judging
  step := workerStep

variable {w w' : Worker} {id id' : SubmissionId} {q : JudgeQueue}

theorem workerStep_create (h : workerStep w (.create id row) = some w') :
    w.db id = none ∧ row.status = .queued ∧ id ∉ w.enqueued ∧
      w' = { w with db := Function.update w.db id (some row) } := by
  simp only [workerStep] at h
  split at h
  next hc =>
    cases h
    exact ⟨hc.1, hc.2.1, hc.2.2, rfl⟩
  · cases h

theorem workerStep_reply (h : workerStep w (.reply n r) = some w') :
    ∃ call rest db' pc', call.job.number = n ∧ w.queue.running.Perm (call :: rest) ∧
      HandlerStep w.db call.job.payload call.state r db' pc' ∧
      w' = { w with
        db := db'
        queue := settleCall { w.queue with running := rest } call.job pc' } := by
  obtain ⟨⟨call, rest⟩, hp, h⟩ := Option.bind_eq_some_iff.1 h
  obtain ⟨⟨db', pc'⟩, hs, rfl⟩ := Option.map_eq_some_iff.1 h
  have hn := pick_prop hp
  exact ⟨call, rest, db', pc', beq_iff_eq.1 hn, pick_perm hp, handlerStep_cases hs, rfl⟩

theorem workerStep_retryTimer (h : workerStep w (.retryTimer n) = some w') :
    ∃ job rest, w.queue.retrying.Perm (job :: rest) ∧
      w' = { w with queue := WorkerQueue.retry { w.queue with retrying := rest } job } := by
  obtain ⟨⟨job, rest⟩, hp, rfl⟩ := Option.map_eq_some_iff.1 h
  exact ⟨job, rest, pick_perm hp, rfl⟩

/-- Somebody looks after the submission: an enqueued row in the queue has a job that will come to
it, or one that was given up, and a row in judging has the call that claimed it, as long as its
calls end safely. -/
def Tended (safe : Prop) (asked : List SubmissionId) (db : Db) (q : JudgeQueue)
    (id : SubmissionId) : Prop :=
  (id ∈ asked → db.status id = some .queued → q.Live id ∨ q.GaveUp id) ∧
    (safe → db.status id = some .judging →
      ∃ call ∈ q.running, call.job.payload = id ∧ call.state.holding = true)

theorem Tended.keep (h : Tended safe asked db q id) (hk : q.Keeps q')
    (hs : db'.status id = db.status id) : Tended safe asked db' q' id := by
  constructor
  · intro ha hq
    rw [hs] at hq
    rcases h.1 ha hq with hl | hg
    · exact .inl (hk.live id hl)
    · exact .inr (hk.gaveUp id hg)
  · intro hsafe hj
    rw [hs] at hj
    obtain ⟨call, hc, hh⟩ := h.2 hsafe hj
    exact ⟨call, hk.running call hc, hh⟩

theorem Tended.of_terminal (hs : db.status id = some s) (ht : s.Terminal) :
    Tended safe asked db q id := by
  constructor
  · intro _ hq
    rw [hs] at hq
    exact (ht.1 (Option.some.inj hq)).elim
  · intro _ hj
    rw [hs] at hj
    exact (ht.2 (Option.some.inj hj)).elim

theorem Tended.of_queued (hs : db.status id = some .queued)
    (h : id ∈ asked → q.Live id ∨ q.GaveUp id) : Tended safe asked db q id := by
  constructor
  · intro ha _
    exact h ha
  · intro _ hj
    rw [hs] at hj
    cases hj

theorem Tended.without (h : Tended safe asked db q id) (hp : q.running.Perm (call :: rest))
    (hne : call.job.payload ≠ id) : Tended safe asked db { q with running := rest } id := by
  have hmem {c : Inflight SubmissionId HandlerPc} (hc : c ∈ q.running)
      (hid : c.job.payload = id) : c ∈ rest := by
    rcases List.mem_cons.1 (hp.mem_iff.1 hc) with rfl | hc
    · exact (hne hid).elim
    · exact hc
  constructor
  · intro ha hq
    rcases h.1 ha hq with (hl | ⟨c, hc, hid⟩) | hg
    · exact .inl (.inl hl)
    · exact .inl (.inr ⟨c, hmem hc hid, hid⟩)
    · exact .inr hg
  · intro hsafe hj
    obtain ⟨c, hc, hid, hh⟩ := h.2 hsafe hj
    exact ⟨c, hmem hc hid, hid, hh⟩

def Ready (q : JudgeQueue) : Prop :=
  q.Bounded ∧ (q.handlers "judge-submission").isSome = true

theorem Ready.mono (h : Ready q) (hb : q'.Bounded) (hk : q.Keeps q') : Ready q' := by
  refine ⟨hb, ?_⟩
  rw [hk.handlers]
  exact h.2

/-- What becomes of the job when its call goes on, returns or throws. -/
theorem settleCall_spec (h : q.Bounded) (hh : (q.handlers job.type).isSome = true)
    (hm : job.attempts ≤ q.limits.maxAttempts) (pc : HandlerPc) :
    (settleCall q job pc).Bounded ∧ q.Keeps (settleCall q job pc) ∧
      (pc.finished = false → ⟨job, pc⟩ ∈ (settleCall q job pc).running) ∧
      ∀ err, pc = .threw err →
        (settleCall q job pc).Live job.payload ∨ (settleCall q job pc).GaveUp job.payload := by
  cases pc with
  | returned =>
    exact ⟨h.resolve.1, h.resolve.2, Bool.noConfusion, fun _ he => HandlerPc.noConfusion he⟩
  | threw err =>
    obtain ⟨hb, hk, hc⟩ := h.reject hh hm err
    exact ⟨hb, hk, Bool.noConfusion, fun _ _ => hc⟩
  | reading | claiming | judging | updating | rollingBack =>
    refine ⟨⟨h.waiting, ?_⟩, ?_, fun _ => List.mem_cons_self, fun _ he => HandlerPc.noConfusion he⟩
    · intro call hc
      rcases List.mem_cons.1 hc with rfl | hc
      · exact ⟨hh, hm⟩
      · exact h.running call hc
    · exact .of_mem (fun _ hj => hj) (fun _ => List.mem_cons_of_mem _) (fun _ hd => hd) rfl rfl

def Cares (safe : Prop) (w : Worker) (id : SubmissionId) : Prop :=
  Ready w.queue ∧ Tended safe w.enqueued w.db w.queue id

theorem cares_init (h : (judgeWorker limits).init w) (id : SubmissionId) :
    Cares safe w id := by
  obtain ⟨hq, ha, hj⟩ := h
  refine ⟨⟨?_, ?_⟩, ?_, fun _ hs => (hj id hs).elim⟩
  · rw [hq]
    constructor
    · rintro job (hjob | hjob) <;> cases hjob
    · rintro call ⟨⟩
  · rw [hq]
    rfl
  · rw [ha]
    rintro ⟨⟩

/-- A final update or a rollback throws without an effect, or a claim takes effect and throws. -/
def ThrowsInJudging (db : Db) (id : SubmissionId) (pc : HandlerPc) (r : Reply) : Prop :=
  (pc.holding = true ∧ ∃ message, r = .rejected message) ∨
    db.status id = some .queued ∧ ∃ request message, pc = .claiming request ∧ r = .lost message

/-- This happens to a call for this submission. -/
def LeavesJudging (w : Worker) (e : WorkerEvent) (id : SubmissionId) : Prop :=
  ∃ n r, e = .reply n r ∧
    ∃ call ∈ w.queue.running, call.job.number = n ∧ call.job.payload = id ∧
      ThrowsInJudging w.db id call.state r

/-- A reply leaves its own submission tended, provided that it is safe if it ends a judging. -/
theorem Tended.answer (h : Tended safe asked db q job.payload) (hb : q.Bounded)
    (hp : q.running.Perm (⟨job, pc⟩ :: rest)) (hstep : HandlerStep db job.payload pc r db' pc')
    (hr : safe → ¬ ThrowsInJudging db job.payload pc r) :
    Tended safe asked db' (settleCall { q with running := rest } job pc') job.payload := by
  have hrun := hb.running _ (hp.mem_iff.2 List.mem_cons_self)
  obtain ⟨_, hk, hlive, hthrew⟩ := settleCall_spec (hb.without hp) hrun.1 hrun.2 pc'
  have hidle (hpc : pc.holding = false) (hsafe : safe)
      (hj : db.status job.payload = some .judging) :
      ∃ call ∈ (settleCall { q with running := rest } job pc').running,
        call.job.payload = job.payload ∧ call.state.holding = true := by
    obtain ⟨c, hc, hid, hh⟩ := h.2 hsafe hj
    rcases List.mem_cons.1 (hp.mem_iff.1 hc) with rfl | hc
    · exact Bool.noConfusion (hpc.symm.trans hh)
    · exact ⟨c, hk.running c hc, hid, hh⟩
  cases hstep with
  | advance hpc hl =>
    constructor
    · intro _ _
      exact .inl (.inr ⟨_, hlive hl, rfl⟩)
    · intro hsafe hj
      cases hh : pc.holding with
      | true => exact ⟨_, hlive hl, rfl, hpc.symm.trans hh⟩
      | false => exact hidle hh hsafe hj
  | skip hpc hs => exact ⟨fun _ hq => (hs hq).elim, hidle hpc⟩
  | fail hpc => exact ⟨fun _ _ => hthrew _ rfl, hidle hpc⟩
  | claim =>
    constructor
    · intro _ hq
      rw [Db.status_update_self] at hq
      cases hq
    · intro _ _
      exact ⟨_, hlive rfl, rfl, rfl⟩
  | @claimLost _ request message _ hs =>
    constructor
    · intro _ hq
      rw [Db.status_update_self] at hq
      cases hq
    · intro hsafe _
      exact (hr hsafe (.inr ⟨hs, request, message, rfl, rfl⟩)).elim
  | reopen => exact .of_queued (Db.status_update_self ..) fun _ => hthrew _ rfl
  | @settle _ update => exact .of_terminal (Db.status_update_self ..) update.terminal
  | abandon hpc hm =>
    -- only an exception leaves the row in judging behind, with no call that holds it
    constructor
    · intro _ _
      exact hthrew _ rfl
    · intro hsafe hj
      rcases hm with hm | hm
      · exact (hr hsafe (.inl ⟨hpc, hm⟩)).elim
      · exact (hm hj).elim

theorem cares_create (h : Cares safe w id) (he : workerStep w (.create id' row) = some w') :
    Cares safe w' id := by
  obtain ⟨hn, hq, ha, rfl⟩ := workerStep_create he
  refine ⟨h.1, ?_⟩
  by_cases hid : id = id'
  · subst id'
    have hs := Db.status_update_self w.db id row
    exact .of_queued (hs.trans (congrArg some hq)) fun ha' => (ha ha').elim
  · have hs : Db.status (Function.update w.db id' (some row)) id = w.db.status id :=
      Db.status_update_of_ne hid (some row)
    exact h.2.keep ⟨fun _ ha => ha, fun _ ha => ha, fun _ hc => hc, rfl⟩ hs

theorem cares_enqueue (h : Cares safe w id)
    (he : workerStep w (.enqueueJudgeSubmission id') = some w') : Cares safe w' id := by
  cases he
  obtain ⟨hb, hk, hl⟩ := h.1.1.enqueue h.1.2 id'
  refine ⟨h.1.mono hb hk, ?_⟩
  have ht := h.2.keep hk rfl
  constructor
  · intro ha hs
    rcases List.mem_cons.1 ha with rfl | ha
    · exact .inl hl
    · exact ht.1 ha hs
  · exact ht.2

theorem cares_reply (h : Cares safe w id) (he : workerStep w (.reply n r) = some w')
    (hc : safe → ¬ LeavesJudging w (.reply n r) id) : Cares safe w' id := by
  obtain ⟨⟨job, pc⟩, rest, db', pc', hn, hp, hstep, rfl⟩ := workerStep_reply he
  have hb := h.1.1
  have hcall := hp.mem_iff.2 (List.mem_cons_self (a := ⟨job, pc⟩) (l := rest))
  have hrun := hb.running _ hcall
  obtain ⟨hb', hk, _⟩ := settleCall_spec (hb.without hp) hrun.1 hrun.2 pc'
  have hready : Ready { w.queue with running := rest } := ⟨hb.without hp, h.1.2⟩
  refine ⟨hready.mono hb' hk, ?_⟩
  by_cases hid : job.payload = id
  · subst id
    apply h.2.answer hb hp hstep
    intro hsafe hthrows
    exact hc hsafe ⟨n, r, rfl, _, hcall, hn, rfl, hthrows⟩
  · exact (h.2.without hp hid).keep hk (hstep.status_of_ne (Ne.symm hid))

theorem cares_preserved (limits : QueueLimits) (safe : Prop) (id : SubmissionId) :
    (judgeWorker limits).Preserves (fun w e _ => safe → ¬ LeavesJudging w e id)
      (Cares safe · id) := by
  intro w e w' h he hc
  cases e with
  | create => exact cares_create h he
  | enqueueJudgeSubmission => exact cares_enqueue h he
  | reply => exact cares_reply h he hc
  | retryTimer n =>
    obtain ⟨job, rest, hp, rfl⟩ := workerStep_retryTimer he
    obtain ⟨hb, hk⟩ := h.1.1.retry hp
    exact ⟨h.1.mono hb hk, h.2.keep hk rfl⟩

theorem Cares.idle (h : Cares safe w id) (hi : w.queue.Idle) (ha : id ∈ w.enqueued)
    (hs : w.db.status id = some s) :
    s.Terminal ∨ s = .queued ∧ w.queue.GaveUp id ∨ s = .judging ∧ ¬ safe := by
  obtain ⟨hqueue, hrunning, hretrying⟩ := hi
  by_cases hq : s = .queued
  · subst s
    rcases h.2.1 ha hs with (⟨job, hjob | hjob, _⟩ | ⟨call, hcall, _⟩) | hg
    · rw [hqueue] at hjob
      cases hjob
    · rw [hretrying] at hjob
      cases hjob
    · rw [hrunning] at hcall
      cases hcall
    · exact .inr (.inl ⟨rfl, hg⟩)
  · by_cases hj : s = .judging
    · subst s
      right; right
      refine ⟨rfl, ?_⟩
      intro hsafe
      obtain ⟨call, hcall, _⟩ := h.2.2 hsafe hs
      rw [hrunning] at hcall
      cases hcall
    · exact .inl ⟨hq, hj⟩

/-- When the queue has come to rest, an enqueued submission is finished, or waits in the queue
because a job of its failed as often as it may, or is left in judging by a run whose final update
or rollback threw, or whose claim took effect and threw. -/
theorem not_stranded (h : (judgeWorker limits).init w₀)
    (hr : (judgeWorker limits).run w₀ es = some w) (hi : w.queue.Idle) (ha : id ∈ w.enqueued)
    (hs : w.db.status id = some s) :
    s.Terminal ∨ s = .queued ∧ w.queue.GaveUp id ∨
      s = .judging ∧
        ¬ (judgeWorker limits).Always (fun w e _ => ¬ LeavesJudging w e id) w₀ es := by
  have hcares := (cares_preserved limits _ id).run (cares_init h id)
    (Machine.always_of_imp fun hsafe => hsafe) hr
  exact hcares.idle hi ha hs

def defaultLimits : QueueLimits := .ofOptions none none

def idleWorker : Worker := ⟨fun _ => none, .new defaultLimits judgeHandlers, []⟩

theorem idleWorker_init : (judgeWorker defaultLimits).init idleWorker :=
  ⟨rfl, rfl, fun _ => by simp [idleWorker, Db.status]⟩

/-- An attempt at the job that claims the row, finds the judge down and rolls the claim back. -/
def refusedAttempt : List WorkerEvent :=
  [.reply 1 .done, .reply 1 .done, .reply 1 (.fetched refusedReply), .reply 1 .done]

def refusedEvents : List WorkerEvent :=
  [.create "s1" queuedRow, .enqueueJudgeSubmission "s1"] ++ refusedAttempt ++ [.retryTimer 1] ++
    refusedAttempt ++ [.retryTimer 1] ++ refusedAttempt

theorem refusedEvents_run :
    ∃ w, (judgeWorker defaultLimits).run idleWorker refusedEvents = some w ∧ w.queue.Idle ∧
      "s1" ∈ w.enqueued ∧ w.db.status "s1" = some .queued :=
  ⟨_, rfl, ⟨rfl, rfl, rfl⟩, List.mem_cons_self, rfl⟩

theorem not_stranded_refused :
    ∃ w, (judgeWorker defaultLimits).run idleWorker refusedEvents = some w ∧
      (SubmissionStatus.queued.Terminal ∨
        SubmissionStatus.queued = .queued ∧ w.queue.GaveUp "s1" ∨
          SubmissionStatus.queued = .judging ∧
            ¬ (judgeWorker defaultLimits).Always (fun w e _ => ¬ LeavesJudging w e "s1")
              idleWorker refusedEvents) := by
  obtain ⟨w, hw, hi, ha, hs⟩ := refusedEvents_run
  exact ⟨w, hw, not_stranded idleWorker_init hw hi ha hs⟩

/-- After three refused connections the queue is at rest and the submission is still queued. -/
theorem stranded_in_queue :
    ¬ ∀ limits w₀ es w id s, (judgeWorker limits).init w₀ →
      (judgeWorker limits).run w₀ es = some w → w.queue.Idle → id ∈ w.enqueued →
        w.db.status id = some s → s.Terminal := by
  intro h
  obtain ⟨w, hw, hi, ha, hs⟩ := refusedEvents_run
  exact absurd (h defaultLimits idleWorker refusedEvents w "s1" .queued idleWorker_init hw hi ha hs)
    (by decide)

/-- The final update of the first attempt throws, and the second one finds the row in judging. -/
theorem stranded_in_judging :
    ∃ es w, (judgeWorker defaultLimits).run idleWorker es = some w ∧ w.queue.Idle ∧
      "s1" ∈ w.enqueued ∧ w.db.status "s1" = some .judging :=
  ⟨[.create "s1" queuedRow, .enqueueJudgeSubmission "s1", .reply 1 .done, .reply 1 .done,
    .reply 1 (.fetched acceptedReply), .reply 1 (.rejected "connection closed"), .retryTimer 1,
    .reply 1 .done], _, rfl, ⟨rfl, rfl, rfl⟩, List.mem_cons_self, rfl⟩

/-- The claim of the first attempt is carried out, but its reply is lost. -/
theorem stranded_by_lost_claim :
    ∃ es w, (judgeWorker defaultLimits).run idleWorker es = some w ∧ w.queue.Idle ∧
      "s1" ∈ w.enqueued ∧ w.db.status "s1" = some .judging :=
  ⟨[.create "s1" queuedRow, .enqueueJudgeSubmission "s1", .reply 1 .done,
    .reply 1 (.lost "connection closed"), .retryTimer 1, .reply 1 .done],
    _, rfl, ⟨rfl, rfl, rfl⟩, List.mem_cons_self, rfl⟩

end Leetrank
