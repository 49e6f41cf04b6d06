import Leetrank.Library.Fifo
import Leetrank.Library.JsValue
import Leetrank.Web.QueueConservation

namespace Leetrank
set_option autoImplicit true

open EventMachine Js

structure QueueOptions where
  concurrency : Option Number
  maxAttempts : Option Number

/-- The queue between two turns of its code, with the types that a handler is registered for and
the jobs whose handlers run. -/
structure QueueTurns (α : Type u) where
  concurrency : Number
  maxAttempts : Number
  handlers : String → Bool
  queue : List (QueueJob α)
  running : List (QueueJob α)
  retrying : List (QueueJob α)
  nextId : Nat
  processed : Nat
  failed : Nat
  deadLetter : List (DeadLetter α)

def QueueTurns.new (opts : QueueOptions) : QueueTurns α where
  concurrency := (opts.concurrency.getD (.finite 4)).max 1
  maxAttempts := (opts.maxAttempts.getD (.finite 3)).max 1
  handlers := fun _ => false
  queue := []
  running := []
  retrying := []
  nextId := 1
  processed := 0
  failed := 0
  deadLetter := []

/-- The test of the loop in `pump`. -/
def QueueTurns.hasRoom (q : QueueTurns α) : Bool :=
  q.concurrency.gt (.finite q.running.length)

/-- `run` up to the call of the handler; a job without a handler is over at once. -/
def QueueTurns.begin (q : QueueTurns α) (job : QueueJob α) : QueueTurns α :=
  if q.handlers job.type then { q with running := q.running ++ [job.attempt] }
  else { q with failed := q.failed + 1, deadLetter := q.deadLetter ++ [.unhandled job] }

/-- What `run` does when the handler has thrown. -/
def QueueTurns.caught (q : QueueTurns α) (job : QueueJob α) (err : String) : QueueTurns α :=
  if q.maxAttempts.gt (.finite job.attempts) then { q with retrying := q.retrying ++ [job] }
  else { q with failed := q.failed + 1, deadLetter := q.deadLetter ++ [.exhausted err job] }

/-- The queue with the jobs that were enqueued, the jobs that `pump` has passed to `run` and the
jobs that were passed on to a handler. -/
structure QueueLog (α : Type u) where
  state : QueueTurns α
  enqueued : List (QueueJob α)
  started : List (QueueJob α)
  called : List (QueueJob α)

/-- One turn of the loop in `pump`, which takes the first job off the queue. -/
def QueueLog.shifted (r : QueueLog α) (job : QueueJob α) (jobs : List (QueueJob α)) :
    QueueLog α where
  state := { r.state with queue := jobs }.begin job
  enqueued := r.enqueued
  started := r.started ++ [job]
  called := if r.state.handlers job.type then r.called ++ [job.attempt] else r.called

/-- The turns of the code. A call of `pump` may be under way inside a handler, another `pump` or a
timer, so a turn of its loop may come between any two others. -/
inductive QueueTurn (α : Type u) where
  | on (type : String)
  | enqueue (type : String) (payload : α)
  | shift
  | returned (n : Nat)
  | threw (n : Nat) (err : String)
  | retryTimer (n : Nat)

def queueTurn (r : QueueLog α) : QueueTurn α → Option (QueueLog α)
  | .on type =>
    some { r with state.handlers := Function.update r.state.handlers type true }
  | .enqueue type payload =>
    let job : QueueJob α := ⟨r.state.nextId, type, payload, 0⟩
    some { r with
      state.queue := r.state.queue ++ [job]
      state.nextId := r.state.nextId + 1
      enqueued := r.enqueued ++ [job] }
  | .shift =>
    match r.state.queue with
    | [] => none
    | job :: jobs => if r.state.hasRoom then some (r.shifted job jobs) else none
  | .returned n =>
    (pick (fun job => job.number == n) r.state.running).map fun (_, rest) =>
      { r with state.running := rest, state.processed := r.state.processed + 1 }
  | .threw n err =>
    (pick (fun job => job.number == n) r.state.running).map fun (job, rest) =>
      { r with state := { r.state with running := rest }.caught job err }
  | .retryTimer n =>
    (pick (fun job => job.number == n) r.state.retrying).map fun (job, rest) =>
      { r with state.queue := r.state.queue ++ [job], state.retrying := rest }

def queueTurns (opts : QueueOptions) : Machine (QueueLog α) (QueueTurn α) where
  init := fun r => r.state = .new opts ∧ r.enqueued = [] ∧ r.started = [] ∧ r.called = []
  step := queueTurn

variable {r r' : QueueLog α}

/-- The queue as a waiting line, in which the jobs that were started are those taken off. -/
def QueueLog.line (r : QueueLog α) : Fifo.Line (QueueJob α) := ⟨r.started, r.state.queue⟩

theorem QueueTurns.begin_queue (q : QueueTurns α) (job : QueueJob α) :
    (q.begin job).queue = q.queue ∧ (q.begin job).retrying = q.retrying ∧
      ∀ j ∈ (q.begin job).running, j ∈ q.running ∨ j = job.attempt := by
  rw [QueueTurns.begin]
  split
  · exact ⟨rfl, rfl, fun j hj => (List.mem_append.1 hj).imp_right List.mem_singleton.1⟩
  · exact ⟨rfl, rfl, fun j hj => .inl hj⟩

theorem QueueTurns.caught_queue (q : QueueTurns α) (job : QueueJob α) (err : String) :
    (q.caught job err).queue = q.queue ∧ (q.caught job err).running = q.running ∧
      ∀ j ∈ (q.caught job err).retrying, j ∈ q.retrying ∨ j = job := by
  rw [QueueTurns.caught]
  split
  · exact ⟨rfl, rfl, fun j hj => (List.mem_append.1 hj).imp_right List.mem_singleton.1⟩
  · exact ⟨rfl, rfl, fun j hj => .inl hj⟩

theorem queueTurn_of_room (hq : r.state.queue = job :: jobs) (hroom : r.state.hasRoom = true) :
    queueTurn r .shift = some (r.shifted job jobs) := by
  simp only [queueTurn, hq, hroom, if_true]

theorem queueTurn_shift (h : queueTurn r .shift = some r') :
    ∃ job jobs, r.state.queue = job :: jobs ∧ r' = r.shifted job jobs := by
  simp only [queueTurn] at h
  split at h
  next => cases h
  next job jobs hq =>
    split at h
    next hroom =>
      cases h
      exact ⟨job, jobs, hq, rfl⟩
    next => cases h

theorem queueTurn_returned (h : queueTurn r (.returned n) = some r') :
    ∃ job rest, r.state.running.Perm (job :: rest) ∧
      r' = { r with state.running := rest, state.processed := r.state.processed + 1 } := by
  obtain ⟨⟨job, rest⟩, hp, rfl⟩ := Option.map_eq_some_iff.1 h
  exact ⟨job, rest, pick_perm hp, rfl⟩

theorem queueTurn_threw (h : queueTurn r (.threw n err) = some r') :
    ∃ job rest, r.state.running.Perm (job :: rest) ∧
      r' = { r with state := { r.state with running := rest }.caught job err } := by
  obtain ⟨⟨job, rest⟩, hp, rfl⟩ := Option.map_eq_some_iff.1 h
  exact ⟨job, rest, pick_perm hp, rfl⟩

theorem queueTurn_retryTimer (h : queueTurn r (.retryTimer n) = some r') :
    ∃ job rest, job.number = n ∧ r.state.retrying.Perm (job :: rest) ∧
      r' = { r with state.queue := r.state.queue ++ [job], state.retrying := rest } := by
  obtain ⟨⟨job, rest⟩, hp, rfl⟩ := Option.map_eq_some_iff.1 h
  have hn := pick_prop hp
  exact ⟨job, rest, beq_iff_eq.1 hn, pick_perm hp, rfl⟩

theorem QueueLog.shifted_line (r : QueueLog α) (job : QueueJob α) (jobs : List (QueueJob α)) :
    (r.shifted job jobs).line = ⟨r.started ++ [job], jobs⟩ :=
  congrArg (Fifo.Line.mk (r.started ++ [job])) (QueueTurns.begin_queue _ job).1

/-- Each turn leaves the line alone, adds to its back or takes off its front. -/
theorem queueTurns_line (opts : QueueOptions) :
    (queueTurns opts).Simulation Fifo.Line.Step fun (r : QueueLog α) l => l = r.line := by
  constructor
  rintro r e r' l rfl he
  refine ⟨r'.line, rfl, ?_⟩
  cases e with
  | on type =>
    cases he
    exact .inl rfl
  | enqueue type payload =>
    cases he
    exact .inr (.push r.started r.state.queue _)
  | shift =>
    obtain ⟨job, jobs, hq, rfl⟩ := queueTurn_shift he
    right
    rw [QueueLog.shifted_line, QueueLog.line, hq]
    exact .shift r.started jobs job
  | returned n =>
    obtain ⟨job, rest, _, rfl⟩ := queueTurn_returned he
    exact .inl rfl
  | threw n err =>
    obtain ⟨job, rest, _, rfl⟩ := queueTurn_threw he
    left
    rw [QueueLog.line, QueueLog.line, (QueueTurns.caught_queue _ job err).1]
  | retryTimer n =>
    obtain ⟨job, rest, _, _, rfl⟩ := queueTurn_retryTimer he
    exact .inr (.push r.started r.state.queue job)

theorem line_steps {opts : QueueOptions} (hr : (queueTurns opts).run r es = some r') :
    Relation.ReflTransGen Fifo.Line.Step r.line r'.line := by
  obtain ⟨l, rfl, hl⟩ := (queueTurns_line opts).run rfl hr
  exact hl

def QueueJob.isFirst (job : QueueJob α) : Bool := job.attempts == 0

/-- The jobs that joined the line without an attempt are those that were enqueued. -/
structure FirstAttempts (r : QueueLog α) : Prop where
  joined : r.line.joined.filter QueueJob.isFirst = r.enqueued
  running : ∀ job ∈ r.state.running, 0 < job.attempts
  retrying : ∀ job ∈ r.state.retrying, 0 < job.attempts
  called : r.called.Sublist (r.started.map QueueJob.attempt)

theorem firstAttempts_init {opts : QueueOptions} (h : (queueTurns opts).init r) :
    FirstAttempts r := by
  obtain ⟨hs, he, hst, hc⟩ := h
  constructor
  · rw [Fifo.Line.joined, QueueLog.line, hst, hs, he]
    rfl
  · rw [hs]
    rintro job ⟨⟩
  · rw [hs]
    rintro job ⟨⟩
  · rw [hc]
    exact List.nil_sublist _

theorem FirstAttempts.shift (h : FirstAttempts r) (he : queueTurn r .shift = some r') :
    FirstAttempts r' := by
  obtain ⟨job, jobs, hq, rfl⟩ := queueTurn_shift he
  obtain ⟨_, hretrying, hrunning⟩ :=
    QueueTurns.begin_queue { r.state with queue := jobs } job
  constructor
  case joined =>
    refine Eq.trans ?_ h.joined
    rw [QueueLog.shifted_line, QueueLog.line, hq, Fifo.Line.joined, Fifo.Line.joined,
      List.append_assoc]
    rfl
  case running =>
    intro j hj
    rcases hrunning j hj with hj | rfl
    · exact h.running j hj
    · exact Nat.succ_pos _
  case retrying =>
    intro j hj
    rw [QueueLog.shifted, hretrying] at hj
    exact h.retrying j hj
  case called =>
    rw [QueueLog.shifted, List.map_append]
    split
    · exact h.called.append_right _
    · exact h.called.trans (List.sublist_append_left _ _)

theorem FirstAttempts.threw (h : FirstAttempts r)
    (he : queueTurn r (.threw n err) = some r') : FirstAttempts r' := by
  obtain ⟨job, rest, hp, rfl⟩ := queueTurn_threw he
  obtain ⟨hqueue, hrunning, hretrying⟩ :=
    QueueTurns.caught_queue { r.state with running := rest } job err
  constructor
  case joined =>
    rw [← h.joined, Fifo.Line.joined, Fifo.Line.joined, QueueLog.line, QueueLog.line, hqueue]
  case running =>
    rw [hrunning]
    exact fun j hj => h.running j (hp.mem_iff.2 (List.mem_cons_of_mem job hj))
  case retrying =>
    intro j hj
    rcases hretrying j hj with hj | rfl
    · exact h.retrying j hj
    · exact h.running j (hp.mem_iff.2 List.mem_cons_self)
  case called => exact h.called

theorem FirstAttempts.retryTimer (h : FirstAttempts r)
    (he : queueTurn r (.retryTimer n) = some r') : FirstAttempts r' := by
  obtain ⟨job, rest, _, hp, rfl⟩ := queueTurn_retryTimer he
  have hjob : job.isFirst = false :=
    beq_false_of_ne (Nat.ne_of_gt (h.retrying job (hp.mem_iff.2 List.mem_cons_self)))
  constructor
  case joined =>
    rw [← h.joined, Fifo.Line.joined, QueueLog.line, ← List.append_assoc, List.filter_append,
      List.filter_singleton, hjob, Bool.cond_false, List.append_nil]
    rfl
  case running => exact h.running
  case retrying => exact fun j hj => h.retrying j (hp.mem_iff.2 (List.mem_cons_of_mem job hj))
  case called => exact h.called

theorem firstAttempts_invariant (opts : QueueOptions) :
    (queueTurns opts).Invariant fun r : QueueLog α => FirstAttempts r := by
  intro r e r' h he _
  cases e with
  | on type =>
    cases he
    exact ⟨h.joined, h.running, h.retrying, h.called⟩
  | enqueue type payload =>
    cases he
    refine ⟨?_, h.running, h.retrying, h.called⟩
    rw [← h.joined, Fifo.Line.joined, QueueLog.line, ← List.append_assoc, List.filter_append]
    rfl
  | shift => exact h.shift he
  | returned n =>
    obtain ⟨job, rest, hp, rfl⟩ := queueTurn_returned he
    refine ⟨h.joined, ?_, h.retrying, h.called⟩
    exact fun j hj => h.running j (hp.mem_iff.2 (List.mem_cons_of_mem job hj))
  | threw n err => exact h.threw he
  | retryTimer n => exact h.retryTimer he

/-- The jobs that were started for the first time, and those that reached a handler then. -/
def QueueLog.firstStarts (r : QueueLog α) : List (QueueJob α) := r.started.filter QueueJob.isFirst

def QueueLog.firstCalls (r : QueueLog α) : List (QueueJob α) :=
  r.called.filter fun job => job.attempts == 1

theorem FirstAttempts.firstStarts (h : FirstAttempts r) : r.firstStarts <+: r.enqueued := by
  rw [← h.joined]
  exact (List.prefix_append r.started r.state.queue).filter _

theorem FirstAttempts.firstCalls (h : FirstAttempts r) :
    r.firstCalls.Sublist (r.enqueued.map QueueJob.attempt) := by
  have hone :
      (fun job : QueueJob α => job.attempts == 1) ∘ QueueJob.attempt = QueueJob.isFirst := by
    funext job
    simp [QueueJob.attempt, QueueJob.isFirst]
  refine (h.called.filter _).trans ?_
  rw [List.filter_map, hone]
  exact h.firstStarts.sublist.map QueueJob.attempt

/-- First attempts are started in the order of enqueuing, and what is started once a retry timer has
fired are the jobs that waited at that moment, in their order, and only then the retry. -/
theorem queue_starts_in_order {opts : QueueOptions} {r₀ r : QueueLog α}
    (h₀ : (queueTurns opts).init r₀) (hr : (queueTurns opts).run r₀ es = some r) :
    r.firstStarts <+: r.enqueued ∧ r.firstCalls.Sublist (r.enqueued.map QueueJob.attempt) ∧
      ∀ n r₁ later r₂, queueTurn r (.retryTimer n) = some r₁ →
        (queueTurns opts).run r₁ later = some r₂ →
        ∃ job since, job ∈ r.state.retrying ∧ job.number = n ∧ r₂.started = r.started ++ since ∧
          (since <+: r.state.queue ++ [job] ∨ r.state.queue ++ [job] <+: since) := by
  have h := (firstAttempts_invariant opts).run (firstAttempts_init h₀) hr
  refine ⟨h.firstStarts, h.firstCalls, ?_⟩
  intro n r₁ later r₂ he hlater
  obtain ⟨job, rest, hn, hp, rfl⟩ := queueTurn_retryTimer he
  obtain ⟨since, hs, horder⟩ := Fifo.taken_since (line_steps hlater) List.prefix_rfl
  exact ⟨job, since, hp.mem_iff.2 List.mem_cons_self, hn, hs, horder⟩

def emailOptions : QueueOptions := ⟨some (.finite 1), none⟩

/-- The first job throws, upon which the second one starts, and two others come to wait. -/
def retriedTurns : List (QueueTurn String) :=
  [.on "email", .enqueue "email" "a", .shift, .enqueue "email" "b", .threw 1 "boom", .shift,
    .enqueue "email" "c", .enqueue "email" "d"]

/-- The first job starts again after both. -/
def afterTimer : List (QueueTurn String) :=
  [.returned 2, .shift, .returned 3, .shift, .returned 4, .shift]

def emptyLog : QueueLog String := ⟨.new emailOptions, [], [], []⟩

theorem retried_run :
    ∃ r r₁ r₂, (queueTurns emailOptions).run emptyLog retriedTurns = some r ∧
      queueTurn r (.retryTimer 1) = some r₁ ∧
      (queueTurns emailOptions).run r₁ afterTimer = some r₂ ∧
      r.state.queue.map (·.number) = [3, 4] ∧ r₂.started.map (·.number) = [1, 2, 3, 4, 1] :=
  ⟨_, _, _, rfl, rfl, rfl, rfl, rfl⟩

theorem queue_starts_in_order_retried :
    ∃ r r₂ : QueueLog String, r.firstStarts <+: r.enqueued ∧
      r.state.queue.map (·.number) = [3, 4] ∧ r₂.started.map (·.number) = [1, 2, 3, 4, 1] ∧
      ∃ job since, job ∈ r.state.retrying ∧ job.number = 1 ∧ r₂.started = r.started ++ since ∧
        (since <+: r.state.queue ++ [job] ∨ r.state.queue ++ [job] <+: since) := by
  obtain ⟨r, r₁, r₂, hr, he, hlater, hqueue, hstarted⟩ := retried_run
  obtain ⟨hfirst, _, hretry⟩ := queue_starts_in_order ⟨rfl, rfl, rfl, rfl⟩ hr
  exact ⟨r, r₂, hfirst, hqueue, hstarted, hretry 1 r₁ afterTimer r₂ he hlater⟩

/-- What the turns see of a queue whose pumps run to their end. -/
def WorkerQueue.turns (q : WorkerQueue α Unit) : QueueTurns α where
  concurrency := .finite q.limits.concurrency
  maxAttempts := .finite q.limits.maxAttempts
  handlers := fun type => (q.handlers type).isSome
  queue := q.queue
  running := q.running.map (·.job)
  retrying := q.retrying
  nextId := q.nextId
  processed := q.processed
  failed := q.failed
  deadLetter := q.deadLetter

theorem finite_gt_natCast (m n : Nat) :
    Number.gt (.finite m) (.finite n) = decide (n < m) :=
  decide_eq_decide.2 Nat.cast_lt

theorem WorkerQueue.turns_hasRoom (q : WorkerQueue α Unit) (jobs : List (QueueJob α)) :
    QueueTurns.hasRoom { q.turns with queue := jobs } =
      decide (q.inflight < q.limits.concurrency) := by
  rw [QueueTurns.hasRoom, WorkerQueue.turns, finite_gt_natCast, List.length_map]
  rfl

theorem WorkerQueue.turns_begin (q : WorkerQueue α Unit) (job : QueueJob α)
    (jobs : List (QueueJob α)) :
    QueueTurns.begin { q.turns with queue := jobs } job =
      { (q.begin job).turns with queue := jobs } := by
  cases h : q.handlers job.type with
  | none => simp [QueueTurns.begin, WorkerQueue.begin, WorkerQueue.turns, h]
  | some handler => simp [QueueTurns.begin, WorkerQueue.begin, WorkerQueue.turns, h]

theorem WorkerQueue.turns_caught (q : WorkerQueue α Unit) (job : QueueJob α) (err : String) :
    ∃ q' : WorkerQueue α Unit, q.turns.caught job err = q'.turns ∧ q.reject job err = q'.pump := by
  have htest : q.turns.maxAttempts.gt (.finite job.attempts) =
      decide (job.attempts < q.limits.maxAttempts) :=
    finite_gt_natCast q.limits.maxAttempts job.attempts
  rw [QueueTurns.caught, htest, WorkerQueue.reject]
  by_cases h : job.attempts < q.limits.maxAttempts
  · rw [if_pos h, decide_eq_true h]
    exact ⟨{ q with retrying := q.retrying ++ [job] }, rfl, rfl⟩
  · rw [if_neg h, decide_eq_false h]
    exact ⟨{ q with failed := q.failed + 1, deadLetter := q.deadLetter ++ [.exhausted err job] },
      rfl, rfl⟩

/-- A pump that runs to its end is a row of turns. -/
theorem pumpFrom_turns (opts : QueueOptions) (q : WorkerQueue α Unit) (jobs : List (QueueJob α))
    {r : QueueLog α} (hr : r.state = { q.turns with queue := jobs }) :
    ∃ turns r', (queueTurns opts).run r turns = some r' ∧
      r'.state = (q.pumpFrom jobs).turns ∧ r'.enqueued = r.enqueued := by
  induction jobs generalizing q r with
  | nil => exact ⟨[], r, rfl, hr, rfl⟩
  | cons job jobs ih =>
    rw [WorkerQueue.pumpFrom]
    split
    next hlt =>
      have hqueue : r.state.queue = job :: jobs := by rw [hr]
      have hroom : r.state.hasRoom = true := by
        rw [hr, q.turns_hasRoom]
        exact decide_eq_true hlt
      have hnext : QueueTurns.begin { r.state with queue := jobs } job =
          { (q.begin job).turns with queue := jobs } := by
        rw [hr]
        exact q.turns_begin job jobs
      obtain ⟨turns, r', hrun, hs, he⟩ := ih (q.begin job) (r := r.shifted job jobs) hnext
      exact ⟨.shift :: turns, r', Machine.run_cons (queueTurn_of_room hqueue hroom) hrun, hs, he⟩
    next => exact ⟨[], r, rfl, hr, rfl⟩

/-- The turns see the queue of a run and the jobs that it enqueued. -/
def QueueRun.Shows (r : QueueRun α) (l : QueueLog α) : Prop :=
  l.state = r.queue.turns ∧ l.enqueued = r.enqueued

theorem turn_then_pump (opts : QueueOptions) {q : WorkerQueue α Unit} {l l₁ : QueueLog α}
    (ht : queueTurn l turn = some l₁) (hq : l₁.state = q.turns) :
    ∃ turns l', (queueTurns opts).run l turns = some l' ∧ l'.state = q.pump.turns ∧
      l'.enqueued = l₁.enqueued := by
  obtain ⟨turns, l', hrun, hs, he⟩ := pumpFrom_turns opts q q.queue hq
  exact ⟨turn :: turns, l', Machine.run_cons ht hrun, hs, he⟩

theorem pick_map (p : γ → Bool) (f : β → γ) (l : List β) :
    pick p (l.map f) = (pick (fun x => p (f x)) l).map fun (x, rest) => (f x, rest.map f) := by
  rw [pick, pick, List.find?_map, List.eraseP_map, Option.map_map, Option.map_map]
  rfl

theorem pick_running {r : QueueRun α} {l : QueueLog α} (hstate : l.state = r.queue.turns)
    (hp : pick (fun call => call.job.number == n) r.queue.running = some (call, rest)) :
    pick (fun job => job.number == n) l.state.running =
      some (call.job, rest.map Inflight.job) := by
  rw [hstate]
  exact (pick_map _ Inflight.job _).trans (congrArg _ hp)

/-- A step of the queue that pumps to the end is a row of turns. -/
theorem queueStep_turns (opts : QueueOptions) {r r' : QueueRun α} {l : QueueLog α}
    (hs : r.Shows l) (he : queueStep r e = some r') :
    ∃ turns l', (queueTurns opts).run l turns = some l' ∧ r'.Shows l' := by
  obtain ⟨hstate, henq⟩ := hs
  cases e with
  | enqueue type payload =>
    cases he
    have ht : queueTurn l (.enqueue type payload) = some _ := rfl
    obtain ⟨turns, l', hrun, hl', he'⟩ := turn_then_pump opts ht
      (q := { r.queue with
        queue := r.queue.queue ++ [⟨r.queue.nextId, type, payload, 0⟩]
        nextId := r.queue.nextId + 1 }) (by rw [hstate]; rfl)
    refine ⟨turns, l', hrun, hl', he'.trans ?_⟩
    rw [hstate, henq]
    rfl
  | returned n =>
    obtain ⟨⟨call, rest⟩, hp, rfl⟩ := Option.map_eq_some_iff.1 he
    have hpick := pick_running hstate hp
    have ht : queueTurn l (.returned n) = some { l with
        state.running := rest.map Inflight.job, state.processed := l.state.processed + 1 } := by
      simp only [queueTurn, hpick, Option.map_some]
    obtain ⟨turns, l', hrun, hl', he'⟩ := turn_then_pump opts ht
      (q := { r.queue with running := rest, processed := r.queue.processed + 1 })
      (by rw [hstate]; rfl)
    exact ⟨turns, l', hrun, hl', he'.trans henq⟩
  | threw n err =>
    obtain ⟨⟨call, rest⟩, hp, rfl⟩ := Option.map_eq_some_iff.1 he
    have hpick := pick_running hstate hp
    obtain ⟨q', hcaught, hreject⟩ :=
      WorkerQueue.turns_caught { r.queue with running := rest } call.job err
    have ht : queueTurn l (.threw n err) = some { l with
        state := { l.state with running := rest.map Inflight.job }.caught call.job err } := by
      simp only [queueTurn, hpick, Option.map_some]
    obtain ⟨turns, l', hrun, hl', he'⟩ := turn_then_pump opts ht
      (q := q') (by rw [hstate]; exact hcaught)
    refine ⟨turns, l', hrun, hl'.trans ?_, he'.trans henq⟩
    exact congrArg WorkerQueue.turns hreject.symm
  | retryTimer n =>
    obtain ⟨⟨job, rest⟩, hp, rfl⟩ := Option.map_eq_some_iff.1 he
    have hpick : pick (fun job => job.number == n) l.state.retrying = some (job, rest) := by
      rw [hstate]
      exact hp
    have ht : queueTurn l (.retryTimer n) = some { l with
        state.queue := l.state.queue ++ [job], state.retrying := rest } := by
      simp only [queueTurn, hpick, Option.map_some]
    obtain ⟨turns, l', hrun, hl', he'⟩ := turn_then_pump opts ht
      (q := { r.queue with queue := r.queue.queue ++ [job], retrying := rest })
      (by rw [hstate]; rfl)
    exact ⟨turns, l', hrun, hl', he'.trans henq⟩

theorem workerQueue_turns (opts : QueueOptions) {r r' : QueueRun α} {l : QueueLog α}
    (hs : r.Shows l) (hr : (workerQueue bounds handlerOf).run r es = some r') :
    ∃ turns l', (queueTurns opts).run l turns = some l' ∧ r'.Shows l' := by
  induction es generalizing r l with
  | nil =>
    cases hr
    exact ⟨[], l, rfl, hs⟩
  | cons e es ih =>
    obtain ⟨u, hu, hr⟩ := Machine.run_cons_some hr
    obtain ⟨first, k, hfirst, hk⟩ := queueStep_turns opts hs hu
    obtain ⟨turns, l', hturns, hl'⟩ := ih hk hr
    exact ⟨first ++ turns, l', (Machine.run_append hfirst turns).trans hturns, hl'⟩

/-- The jobs that wait for their first attempt are the last ones that were enqueued. -/
theorem waiting_first_attempts {r₀ r : QueueRun α} (h₀ : (workerQueue bounds handlerOf).init r₀)
    (hr : (workerQueue bounds handlerOf).run r₀ es = some r) :
    r.queue.queue.filter QueueJob.isFirst <:+ r.enqueued := by
  obtain ⟨hq, he, _⟩ := h₀
  have hinit : FirstAttempts (⟨r₀.queue.turns, [], [], []⟩ : QueueLog α) := by
    rw [hq]
    constructor
    · rfl
    · rintro job ⟨⟩
    · rintro job ⟨⟩
    · exact List.nil_sublist _
  have hshows : r₀.Shows ⟨r₀.queue.turns, [], [], []⟩ := ⟨rfl, he.symm⟩
  obtain ⟨turns, l, hrun, hstate, henq⟩ := workerQueue_turns ⟨none, none⟩ hshows hr
  have h := ((firstAttempts_invariant _).run hinit hrun).joined
  rw [Fifo.Line.joined, QueueLog.line, List.filter_append, henq, hstate] at h
  exact ⟨_, h⟩

end Leetrank
