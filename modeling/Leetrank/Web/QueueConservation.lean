import Leetrank.Library.Machine
import Leetrank.Web.WorkerQueue
import Mathlib.Algebra.Order.Floor.Semiring
import Mathlib.Data.Rat.Floor
import Mathlib.Data.List.Nodup

namespace Leetrank
set_option autoImplicit true

open EventMachine

/-- The limits of a queue whose options may be any numbers: a whole number of jobs is below a
number if and only if it is below the number rounded up. -/
def QueueLimits.ofNumbers (concurrency maxAttempts : ℚ) : QueueLimits where
  concurrency := ⌈max 1 concurrency⌉₊
  maxAttempts := ⌈max 1 maxAttempts⌉₊
  concurrency_pos := Nat.one_le_ceil_iff.2 (lt_max_of_lt_left one_pos)
  maxAttempts_pos := Nat.one_le_ceil_iff.2 (lt_max_of_lt_left one_pos)

/-- A worker queue, with every job that was enqueued, the jobs that were processed and how often
the handler of each job has thrown. -/
structure QueueRun (α : Type) where
  queue : WorkerQueue α Unit
  enqueued : List (QueueJob α)
  settled : List (QueueJob α)
  failures : Nat → Nat

inductive QueueEvent (α : Type) where
  | enqueue (type : String) (payload : α)
  | returned (n : Nat)
  | threw (n : Nat) (err : String)
  | retryTimer (n : Nat)

def queueStep (r : QueueRun α) : QueueEvent α → Option (QueueRun α)
  | .enqueue type payload =>
    some { r with
      queue := r.queue.enqueue type payload
      enqueued := r.enqueued ++ [⟨r.queue.nextId, type, payload, 0⟩] }
  | .returned n =>
    (pick (fun call => call.job.number == n) r.queue.running).map fun (call, rest) =>
      { r with
        queue := WorkerQueue.resolve { r.queue with running := rest }
        settled := r.settled ++ [call.job] }
  | .threw n err =>
    (pick (fun call => call.job.number == n) r.queue.running).map fun (call, rest) =>
      { r with
        queue := WorkerQueue.reject { r.queue with running := rest } call.job err
        failures := Function.update r.failures n (r.failures n + 1) }
  | .retryTimer n =>
    (pick (fun job => job.number == n) r.queue.retrying).map fun (job, rest) =>
      { r with queue := WorkerQueue.retry { r.queue with retrying := rest } job }

def workerQueue (limits : QueueLimits) (handlers : String → Option (QueueJob α → Unit)) :
    Machine (QueueRun α) (QueueEvent α) where
  init := fun r => r.queue = .new limits handlers ∧ r.enqueued = [] ∧ r.settled = [] ∧
    ∀ n, r.failures n = 0
  step := queueStep

variable {r r' : QueueRun α}

theorem queueStep_returned (h : queueStep r (.returned n) = some r') :
    ∃ call rest, call.job.number = n ∧ r.queue.running.Perm (call :: rest) ∧
      r' = { r with
        queue := WorkerQueue.resolve { r.queue with running := rest }
        settled := r.settled ++ [call.job] } := by
  obtain ⟨⟨call, rest⟩, hp, rfl⟩ := Option.map_eq_some_iff.1 h
  have hn := pick_prop hp
  exact ⟨call, rest, beq_iff_eq.1 hn, pick_perm hp, rfl⟩

theorem queueStep_threw (h : queueStep r (.threw n err) = some r') :
    ∃ call rest, call.job.number = n ∧ r.queue.running.Perm (call :: rest) ∧
      r' = { r with
        queue := WorkerQueue.reject { r.queue with running := rest } call.job err
        failures := Function.update r.failures n (r.failures n + 1) } := by
  obtain ⟨⟨call, rest⟩, hp, rfl⟩ := Option.map_eq_some_iff.1 h
  have hn := pick_prop hp
  exact ⟨call, rest, beq_iff_eq.1 hn, pick_perm hp, rfl⟩

theorem queueStep_retryTimer (h : queueStep r (.retryTimer n) = some r') :
    ∃ job rest, r.queue.retrying.Perm (job :: rest) ∧
      r' = { r with queue := WorkerQueue.retry { r.queue with retrying := rest } job } := by
  obtain ⟨⟨job, rest⟩, hp, rfl⟩ := Option.map_eq_some_iff.1 h
  exact ⟨job, rest, pick_perm hp, rfl⟩

/-- What stays the same of a job from its enqueuing on. -/
structure Ticket (α : Type u) where
  number : Nat
  type : String
  payload : α

def QueueJob.ticket (job : QueueJob α) : Ticket α := ⟨job.number, job.type, job.payload⟩

def DeadLetter.job : DeadLetter α → QueueJob α
  | .unhandled job | .exhausted _ job => job

/-- The jobs in the queue, in its calls, in its timers and in its dead letters. -/
def WorkerQueue.tickets (q : WorkerQueue α σ) : List (Ticket α) :=
  q.queue.map (·.ticket) ++ q.running.map (·.job.ticket) ++ q.retrying.map (·.ticket) ++
    q.deadLetter.map (·.job.ticket)

theorem WorkerQueue.tickets_first (q : WorkerQueue α σ) (first : List (QueueJob α)) :
    ((q.calls first).map (·.job.ticket) ++ (q.dropped first).map (·.job.ticket)).Perm
      (first.map (·.ticket)) := by
  induction first with
  | nil => exact .refl _
  | cons job first ih =>
    cases h : q.handlers job.type with
    | none =>
      have hc : q.calls (job :: first) = q.calls first := by simp [WorkerQueue.calls, h]
      have hd : q.dropped (job :: first) = .unhandled job :: q.dropped first := by
        simp [WorkerQueue.dropped, h]
      rw [hc, hd, List.map_cons, List.map_cons]
      exact List.perm_middle.trans (ih.cons _)
    | some handler =>
      have hc : q.calls (job :: first) = ⟨job.attempt, handler job.attempt⟩ :: q.calls first := by
        simp [WorkerQueue.calls, h]
      have hd : q.dropped (job :: first) = q.dropped first := by simp [WorkerQueue.dropped, h]
      rw [hc, hd, List.map_cons, List.map_cons, List.cons_append]
      exact ih.cons _

theorem WorkerQueue.tickets_pump (q : WorkerQueue α σ) : q.pump.tickets.Perm q.tickets := by
  classical
  obtain ⟨first, waiting, hq, he⟩ := q.pump_eq
  rw [he, List.perm_iff_count]
  intro t
  have hf := (q.tickets_first first).count_eq t
  simp only [WorkerQueue.tickets, WorkerQueue.started, hq, List.map_append,
    List.count_append] at hf ⊢
  omega

theorem WorkerQueue.tickets_enqueue (q : WorkerQueue α σ) (type : String) (a : α) :
    (q.enqueue type a).tickets.Perm (⟨q.nextId, type, a⟩ :: q.tickets) := by
  refine (WorkerQueue.tickets_pump _).trans ?_
  simp only [WorkerQueue.tickets, List.map_append, List.append_assoc]
  exact List.perm_middle

theorem WorkerQueue.tickets_resolve (q : WorkerQueue α σ) : q.resolve.tickets.Perm q.tickets :=
  WorkerQueue.tickets_pump _

theorem WorkerQueue.tickets_reject (q : WorkerQueue α σ) (job : QueueJob α) (err : String) :
    (q.reject job err).tickets.Perm (job.ticket :: q.tickets) := by
  classical
  rw [WorkerQueue.reject]
  split
  · refine (WorkerQueue.tickets_pump _).trans ?_
    rw [List.perm_iff_count]
    intro t
    simp only [WorkerQueue.tickets, List.map_append, List.count_append, List.map_cons,
      List.map_nil, List.count_cons, List.count_nil]
    omega
  · refine (WorkerQueue.tickets_pump _).trans ?_
    rw [List.perm_iff_count]
    intro t
    simp only [WorkerQueue.tickets, List.map_append, List.count_append, List.map_cons,
      List.map_nil, List.count_cons, List.count_nil, DeadLetter.job]
    omega

theorem WorkerQueue.tickets_retry (q : WorkerQueue α σ) (job : QueueJob α) :
    (q.retry job).tickets.Perm (job.ticket :: q.tickets) := by
  refine (WorkerQueue.tickets_pump _).trans ?_
  simp only [WorkerQueue.tickets, List.map_append, List.append_assoc]
  exact List.perm_middle

theorem WorkerQueue.tickets_running {q : WorkerQueue α σ} (h : q.running.Perm (call :: rest)) :
    q.tickets.Perm (call.job.ticket :: WorkerQueue.tickets { q with running := rest }) := by
  have hm := ((h.map (·.job.ticket)).append_left (q.queue.map (·.ticket))).trans List.perm_middle
  exact (hm.append_right _).append_right _

theorem WorkerQueue.tickets_retrying {q : WorkerQueue α σ} (h : q.retrying.Perm (job :: rest)) :
    q.tickets.Perm (job.ticket :: WorkerQueue.tickets { q with retrying := rest }) := by
  have hm := ((h.map (·.ticket)).append_left
    (q.queue.map (·.ticket) ++ q.running.map (·.job.ticket))).trans List.perm_middle
  exact hm.append_right _

/-- The attempts of each job are the throws of its handler, and the call that runs. -/
structure WorkerQueue.Tried (failures : Nat → Nat) (q : WorkerQueue α σ) : Prop where
  waiting : ∀ job, job ∈ q.queue ∨ job ∈ q.retrying →
    job.attempts = failures job.number ∧ job.attempts < q.limits.maxAttempts
  running : ∀ call ∈ q.running, call.job.attempts = failures call.job.number + 1 ∧
    call.job.attempts ≤ q.limits.maxAttempts
  dead : ∀ dead ∈ q.deadLetter, failures dead.job.number ≤ q.limits.maxAttempts ∧
    ((q.handlers dead.job.type).isSome = true → failures dead.job.number = q.limits.maxAttempts)

theorem WorkerQueue.Tried.pump {q : WorkerQueue α σ} (h : q.Tried failures) :
    q.pump.Tried failures := by
  obtain ⟨first, waiting, hq, he⟩ := q.pump_eq
  rw [he]
  constructor
  · rintro job (hjob | hjob)
    · exact h.waiting job (.inl (hq ▸ List.mem_append_right first hjob))
    · exact h.waiting job (.inr hjob)
  · intro call hc
    rcases List.mem_append.1 hc with hc | hc
    · exact h.running call hc
    · obtain ⟨job, hjob, hcall⟩ := WorkerQueue.mem_calls hc
      obtain ⟨ha, hlt⟩ := h.waiting job (.inl (hq ▸ List.mem_append_left waiting hjob))
      rw [hcall]
      exact ⟨congrArg (· + 1) ha, hlt⟩
  · intro dead hd
    rcases List.mem_append.1 hd with hd | hd
    · exact h.dead dead hd
    · -- a job that `pump` drops has no handler
      obtain ⟨job, hjob, rfl⟩ := List.mem_map.1 hd
      obtain ⟨hjob, hnone⟩ := List.mem_filter.1 hjob
      obtain ⟨ha, hlt⟩ := h.waiting job (.inl (hq ▸ List.mem_append_left waiting hjob))
      refine ⟨Nat.le_of_lt (ha ▸ hlt), ?_⟩
      intro hsome
      have hsome' : (q.handlers job.type).isSome = true := hsome
      rw [Option.isNone_iff_eq_none.1 hnone] at hsome'
      cases hsome'

theorem WorkerQueue.mem_tickets {q : WorkerQueue α σ} :
    (∀ job, job ∈ q.queue ∨ job ∈ q.retrying → job.ticket ∈ q.tickets) ∧
      (∀ call ∈ q.running, call.job.ticket ∈ q.tickets) ∧
        ∀ dead ∈ q.deadLetter, dead.job.ticket ∈ q.tickets := by
  simp only [WorkerQueue.tickets, List.mem_append, List.mem_map]
  refine ⟨?_, fun call hc => .inl (.inl (.inr ⟨call, hc, rfl⟩)), fun dead hd => .inr ⟨dead, hd, rfl⟩⟩
  rintro job (hjob | hjob)
  · exact .inl (.inl (.inl ⟨job, hjob, rfl⟩))
  · exact .inl (.inr ⟨job, hjob, rfl⟩)

/-- A throw of another job changes nothing for the jobs in the queue. -/
theorem WorkerQueue.Tried.congr {q : WorkerQueue α σ} (h : q.Tried failures)
    (hf : ∀ t ∈ q.tickets, failures' t.number = failures t.number) : q.Tried failures' := by
  obtain ⟨hw, hr, hd⟩ := q.mem_tickets
  constructor
  · intro job hjob
    rw [show failures' job.number = failures job.number from hf _ (hw job hjob)]
    exact h.waiting job hjob
  · intro call hc
    rw [show failures' call.job.number = failures call.job.number from hf _ (hr call hc)]
    exact h.running call hc
  · intro dead hdead
    rw [show failures' dead.job.number = failures dead.job.number from hf _ (hd dead hdead)]
    exact h.dead dead hdead

theorem WorkerQueue.Tried.enqueue {q : WorkerQueue α σ} (h : q.Tried failures)
    (hn : failures q.nextId = 0) (type : String) (a : α) :
    (q.enqueue type a).Tried failures := by
  apply WorkerQueue.Tried.pump
  refine ⟨?_, h.running, h.dead⟩
  rintro job (hjob | hjob)
  · rcases List.mem_append.1 hjob with hjob | hjob
    · exact h.waiting job (.inl hjob)
    · rw [List.mem_singleton.1 hjob]
      exact ⟨hn.symm, q.limits.maxAttempts_pos⟩
  · exact h.waiting job (.inr hjob)

theorem WorkerQueue.Tried.resolve {q : WorkerQueue α σ} (h : q.Tried failures) :
    q.resolve.Tried failures := by
  apply WorkerQueue.Tried.pump
  exact ⟨h.waiting, h.running, h.dead⟩

theorem WorkerQueue.Tried.reject {q : WorkerQueue α σ} (h : q.Tried failures)
    (ha : job.attempts = failures job.number) (hm : job.attempts ≤ q.limits.maxAttempts)
    (err : String) : (q.reject job err).Tried failures := by
  rw [WorkerQueue.reject]
  split
  next hlt =>
    apply WorkerQueue.Tried.pump
    refine ⟨?_, h.running, h.dead⟩
    rintro job' (hjob | hjob)
    · exact h.waiting job' (.inl hjob)
    · rcases List.mem_append.1 hjob with hjob | hjob
      · exact h.waiting job' (.inr hjob)
      · rw [List.mem_singleton.1 hjob]
        exact ⟨ha, hlt⟩
  next hge =>
    apply WorkerQueue.Tried.pump
    refine ⟨h.waiting, h.running, ?_⟩
    intro dead hd
    rcases List.mem_append.1 hd with hd | hd
    · exact h.dead dead hd
    · have heq : failures job.number = q.limits.maxAttempts := by omega
      rw [List.mem_singleton.1 hd]
      exact ⟨Nat.le_of_eq heq, fun _ => heq⟩

theorem WorkerQueue.Tried.retry {q : WorkerQueue α σ} (h : q.Tried failures)
    (hp : q.retrying.Perm (job :: rest)) :
    (WorkerQueue.retry { q with retrying := rest } job).Tried failures := by
  apply WorkerQueue.Tried.pump
  refine ⟨?_, h.running, h.dead⟩
  rintro job' (hjob | hjob)
  · rcases List.mem_append.1 hjob with hjob | hjob
    · exact h.waiting job' (.inl hjob)
    · rw [List.mem_singleton.1 hjob]
      exact h.waiting job (.inr (hp.mem_iff.2 List.mem_cons_self))
  · exact h.waiting job' (.inr (hp.mem_iff.2 (List.mem_cons_of_mem job hjob)))

theorem WorkerQueue.Tried.without {q : WorkerQueue α σ} (h : q.Tried failures)
    (hp : q.running.Perm (call :: rest)) :
    WorkerQueue.Tried failures { q with running := rest } :=
  ⟨h.waiting, fun c hc => h.running c (hp.mem_iff.2 (List.mem_cons_of_mem _ hc)), h.dead⟩

/-- Pumping starts jobs only while there is room for them, and changes nothing else. -/
theorem WorkerQueue.pumpFrom_room {q : WorkerQueue α σ} (h : q.inflight ≤ q.limits.concurrency)
    (jobs : List (QueueJob α)) :
    (q.pumpFrom jobs).inflight ≤ q.limits.concurrency := by
  induction jobs generalizing q with
  | nil => exact h
  | cons job jobs ih =>
    rw [WorkerQueue.pumpFrom]
    split
    next hlt =>
      have hlimits : (q.begin job).limits = q.limits := by
        rw [WorkerQueue.begin]
        split <;> rfl
      have hroom : (q.begin job).inflight ≤ (q.begin job).limits.concurrency := by
        rw [hlimits, WorkerQueue.begin]
        split
        · exact h
        · simpa [WorkerQueue.inflight, Nat.succ_le_iff] using hlt
      exact hlimits ▸ ih hroom
    next => exact h

/-- What no operation of the queue changes, and the room that each one leaves. -/
structure WorkerQueue.Frame (q q' : WorkerQueue α σ) : Prop where
  limits : q'.limits = q.limits
  handlers : q'.handlers = q.handlers
  nextId : q'.nextId = q.nextId
  room : q.inflight ≤ q.limits.concurrency → q'.inflight ≤ q.limits.concurrency

theorem WorkerQueue.frame_pump (q : WorkerQueue α σ) : q.Frame q.pump := by
  obtain ⟨first, waiting, _, he⟩ := q.pump_eq
  refine ⟨?_, ?_, ?_, fun h => WorkerQueue.pumpFrom_room h q.queue⟩ <;> rw [he] <;> rfl

theorem WorkerQueue.frame_reject (q : WorkerQueue α σ) (job : QueueJob α) (err : String) :
    q.Frame (q.reject job err) := by
  rw [WorkerQueue.reject]
  split
  · have hf := WorkerQueue.frame_pump { q with retrying := q.retrying ++ [job] }
    exact ⟨hf.limits, hf.handlers, hf.nextId, hf.room⟩
  · have hf := WorkerQueue.frame_pump
      { q with failed := q.failed + 1, deadLetter := q.deadLetter ++ [.exhausted err job] }
    exact ⟨hf.limits, hf.handlers, hf.nextId, hf.room⟩

/-- The jobs that were enqueued are accounted for, each one in one place. -/
structure Conserved (bounds : QueueLimits) (handlerOf : String → Option (QueueJob α → Unit))
    (r : QueueRun α) : Prop where
  limits : r.queue.limits = bounds
  handlers : r.queue.handlers = handlerOf
  room : r.queue.inflight ≤ bounds.concurrency
  tickets : (r.queue.tickets ++ r.settled.map (·.ticket)).Perm (r.enqueued.map (·.ticket))
  numbers : r.enqueued.map (·.number) = List.range' 1 r.enqueued.length
  nextId : r.queue.nextId = r.enqueued.length + 1
  fresh : ∀ n, r.queue.nextId ≤ n → r.failures n = 0
  tried : r.queue.Tried r.failures
  settled : ∀ job ∈ r.settled, r.failures job.number + 1 ≤ bounds.maxAttempts

variable {bounds : QueueLimits} {handlerOf : String → Option (QueueJob α → Unit)}

theorem Conserved.number_lt (h : Conserved bounds handlerOf r)
    (ht : t ∈ r.queue.tickets ++ r.settled.map (·.ticket)) : t.number < r.queue.nextId := by
  obtain ⟨job, hjob, rfl⟩ := List.mem_map.1 (h.tickets.mem_iff.1 ht)
  have hmem : job.number ∈ r.enqueued.map (·.number) := List.mem_map_of_mem hjob
  rw [h.numbers, List.mem_range'_1] at hmem
  have := h.nextId
  change job.number < _
  omega

theorem Conserved.nodup (h : Conserved bounds handlerOf r) :
    ((r.queue.tickets ++ r.settled.map (·.ticket)).map (·.number)).Nodup := by
  rw [(h.tickets.map (·.number)).nodup_iff, List.map_map]
  change (r.enqueued.map (·.number)).Nodup
  rw [h.numbers]
  exact List.nodup_range'

/-- The number of a running job belongs to no other job. -/
theorem Conserved.alone (h : Conserved bounds handlerOf r)
    (hp : r.queue.running.Perm (call :: rest))
    (ht : t ∈ WorkerQueue.tickets { r.queue with running := rest } ++ r.settled.map (·.ticket)) :
    t.number ≠ call.job.number := by
  have hn := h.nodup
  rw [(((WorkerQueue.tickets_running hp).append_right _).map _).nodup_iff, List.cons_append,
    List.map_cons, List.nodup_cons] at hn
  intro he
  apply hn.1
  rw [← show t.number = call.job.ticket.number from he]
  exact List.mem_map_of_mem ht

theorem conserved_init (h : (workerQueue bounds handlerOf).init r) :
    Conserved bounds handlerOf r := by
  obtain ⟨hq, he, hs, hf⟩ := h
  constructor
  case tickets => rw [hq, he, hs]; exact .refl _
  case tried =>
    rw [hq]
    constructor
    · rintro job (hjob | hjob) <;> cases hjob
    · rintro call ⟨⟩
    · rintro dead ⟨⟩
  case room => rw [hq]; exact Nat.zero_le _
  case settled => rw [hs]; rintro job ⟨⟩
  case fresh => exact fun n _ => hf n
  all_goals simp [hq, he, WorkerQueue.new]

theorem Conserved.enqueue (h : Conserved bounds handlerOf r)
    (type : String) (a : α) :
    Conserved bounds handlerOf
      { r with
        queue := r.queue.enqueue type a
        enqueued := r.enqueued ++ [⟨r.queue.nextId, type, a, 0⟩] } := by
  have hf := WorkerQueue.frame_pump
    { r.queue with
      queue := r.queue.queue ++ [⟨r.queue.nextId, type, a, 0⟩], nextId := r.queue.nextId + 1 }
  have hnext : (r.queue.enqueue type a).nextId = r.queue.nextId + 1 := hf.nextId
  constructor
  case limits => exact hf.limits.trans h.limits
  case handlers => exact hf.handlers.trans h.handlers
  case room => exact h.limits ▸ hf.room (h.limits ▸ h.room)
  case tickets =>
    rw [List.map_append]
    refine ((r.queue.tickets_enqueue type a).append_right _).trans ?_
    exact (h.tickets.cons _).trans (@List.perm_append_comm _ [_] _)
  case numbers =>
    rw [List.map_append, h.numbers, List.length_append, List.length_singleton,
      List.range'_1_concat, Nat.add_comm 1, ← h.nextId]
    rfl
  case nextId =>
    rw [List.length_append, List.length_singleton, ← h.nextId]
    exact hnext
  case fresh =>
    intro n hn
    have hle : r.queue.nextId + 1 ≤ n := hnext ▸ hn
    exact h.fresh n (Nat.le_of_succ_le hle)
  case tried => exact h.tried.enqueue (h.fresh _ (Nat.le_refl _)) type a
  case settled => exact h.settled

theorem Conserved.returned (h : Conserved bounds handlerOf r)
    (hp : r.queue.running.Perm (call :: rest)) :
    Conserved bounds handlerOf
      { r with
        queue := WorkerQueue.resolve { r.queue with running := rest }
        settled := r.settled ++ [call.job] } := by
  have hf := WorkerQueue.frame_pump
    { r.queue with running := rest, processed := r.queue.processed + 1 }
  have hcall := h.tried.running call (hp.mem_iff.2 List.mem_cons_self)
  have hlen : rest.length ≤ bounds.concurrency := by
    have hroom := h.room
    rw [WorkerQueue.inflight, hp.length_eq, List.length_cons] at hroom
    omega
  constructor
  case limits => exact hf.limits.trans h.limits
  case handlers => exact hf.handlers.trans h.handlers
  case room => exact h.limits ▸ hf.room (h.limits ▸ hlen)
  case tickets =>
    rw [List.map_append]
    refine ((WorkerQueue.tickets_resolve _).append_right _).trans ?_
    refine List.Perm.trans ?_ h.tickets
    refine List.Perm.trans ?_ ((WorkerQueue.tickets_running hp).append_right _).symm
    rw [← List.append_assoc]
    exact @List.perm_append_comm _ _ [_]
  case numbers => exact h.numbers
  case nextId => exact hf.nextId.trans h.nextId
  case fresh => exact fun n hn => h.fresh n (hf.nextId ▸ hn)
  case tried => exact (h.tried.without hp).resolve
  case settled =>
    intro job hjob
    rcases List.mem_append.1 hjob with hjob | hjob
    · exact h.settled job hjob
    · rw [List.mem_singleton.1 hjob, ← hcall.1, ← h.limits]
      exact hcall.2

theorem Conserved.threw (h : Conserved bounds handlerOf r)
    (hp : r.queue.running.Perm (call :: rest)) (err : String) :
    Conserved bounds handlerOf
      { r with
        queue := WorkerQueue.reject { r.queue with running := rest } call.job err
        failures := Function.update r.failures call.job.number
          (r.failures call.job.number + 1) } := by
  have hf := WorkerQueue.frame_reject { r.queue with running := rest } call.job err
  have hmem : call ∈ r.queue.running := hp.mem_iff.2 List.mem_cons_self
  have hcall := h.tried.running call hmem
  have hlen : rest.length ≤ bounds.concurrency := by
    have hroom := h.room
    rw [WorkerQueue.inflight, hp.length_eq, List.length_cons] at hroom
    omega
  have hother (t : Ticket α)
      (ht : t ∈ WorkerQueue.tickets { r.queue with running := rest } ++ r.settled.map (·.ticket)) :
      Function.update r.failures call.job.number (r.failures call.job.number + 1) t.number =
        r.failures t.number :=
    Function.update_of_ne (h.alone hp ht) _ _
  constructor
  case limits => exact hf.limits.trans h.limits
  case handlers => exact hf.handlers.trans h.handlers
  case room => exact h.limits ▸ hf.room (h.limits ▸ hlen)
  case tickets =>
    refine ((WorkerQueue.tickets_reject _ _ _).append_right _).trans ?_
    exact ((WorkerQueue.tickets_running hp).append_right _).symm.trans h.tickets
  case numbers => exact h.numbers
  case nextId => exact hf.nextId.trans h.nextId
  case fresh =>
    intro n hn
    have hlt := h.number_lt (List.mem_append_left _ (r.queue.mem_tickets.2.1 call hmem))
    have hn' : r.queue.nextId ≤ n := hf.nextId ▸ hn
    have hne : n ≠ call.job.number := by
      rintro rfl
      exact absurd (Nat.lt_of_lt_of_le hlt hn') (Nat.lt_irrefl _)
    exact (Function.update_of_ne hne _ _).trans (h.fresh n hn')
  case tried =>
    have ht := (h.tried.without hp).congr fun t ht => hother t (List.mem_append_left _ ht)
    refine ht.reject ?_ hcall.2 err
    rw [Function.update_self]
    exact hcall.1
  case settled =>
    intro job hjob
    have := hother job.ticket (List.mem_append_right _ (List.mem_map_of_mem hjob))
    change Function.update r.failures call.job.number _ job.number + 1 ≤ _
    rw [show Function.update r.failures call.job.number _ job.number = _ from this]
    exact h.settled job hjob

theorem Conserved.retry (h : Conserved bounds handlerOf r)
    (hp : r.queue.retrying.Perm (job :: rest)) :
    Conserved bounds handlerOf
      { r with queue := WorkerQueue.retry { r.queue with retrying := rest } job } := by
  have hf := WorkerQueue.frame_pump
    { r.queue with retrying := rest, queue := r.queue.queue ++ [job] }
  constructor
  case limits => exact hf.limits.trans h.limits
  case handlers => exact hf.handlers.trans h.handlers
  case room => exact h.limits ▸ hf.room (h.limits ▸ h.room)
  case tickets =>
    refine ((WorkerQueue.tickets_retry _ _).append_right _).trans ?_
    exact ((WorkerQueue.tickets_retrying hp).append_right _).symm.trans h.tickets
  case numbers => exact h.numbers
  case nextId => exact hf.nextId.trans h.nextId
  case fresh => exact fun n hn => h.fresh n (hf.nextId ▸ hn)
  case tried => exact h.tried.retry hp
  case settled => exact h.settled

theorem conserved_invariant (bounds : QueueLimits)
    (handlerOf : String → Option (QueueJob α → Unit)) :
    (workerQueue bounds handlerOf).Invariant (Conserved bounds handlerOf) := by
  intro r e r' h he _
  cases e with
  | enqueue type payload =>
    cases he
    exact h.enqueue type payload
  | returned n =>
    obtain ⟨call, rest, _, hp, rfl⟩ := queueStep_returned he
    exact h.returned hp
  | threw n err =>
    obtain ⟨call, rest, rfl, hp, rfl⟩ := queueStep_threw he
    exact h.threw hp err
  | retryTimer n =>
    obtain ⟨job, rest, hp, rfl⟩ := queueStep_retryTimer he
    exact h.retry hp

/-- How many jobs with this number are in each place. -/
def QueueRun.waiting (r : QueueRun α) (n : Nat) : Nat := r.queue.queue.countP (·.number == n)

def QueueRun.inFlight (r : QueueRun α) (n : Nat) : Nat := r.queue.running.countP (·.job.number == n)

def QueueRun.retrying (r : QueueRun α) (n : Nat) : Nat := r.queue.retrying.countP (·.number == n)

def QueueRun.processed (r : QueueRun α) (n : Nat) : Nat := r.settled.countP (·.number == n)

def QueueRun.dead (r : QueueRun α) (n : Nat) : Nat := r.queue.deadLetter.countP (·.job.number == n)

/-- How often the handler of a job was run: its throws, its return and the call that runs. -/
def QueueRun.runs (r : QueueRun α) (n : Nat) : Nat := r.failures n + r.processed n + r.inFlight n

theorem Conserved.once (h : Conserved bounds handlerOf r) (hj : job ∈ r.enqueued) :
    r.waiting job.number + r.inFlight job.number + r.retrying job.number +
      r.processed job.number + r.dead job.number = 1 := by
  have hcount := h.tickets.countP_eq fun t => t.number == job.number
  have hone : r.enqueued.countP (fun j => j.number == job.number) = 1 := by
    have hn : (r.enqueued.map (·.number)).Nodup := h.numbers ▸ List.nodup_range'
    have hmem : job.number ∈ r.enqueued.map (·.number) := List.mem_map_of_mem hj
    have hcount := List.count_eq_one_of_mem hn hmem
    rwa [List.count_eq_countP, List.countP_map] at hcount
  simp only [WorkerQueue.tickets, List.countP_append, List.countP_map, Function.comp_def] at hcount
  have hright : r.enqueued.countP (fun j => j.ticket.number == job.number) = 1 := hone
  rw [hright] at hcount
  change r.waiting job.number + r.inFlight job.number + r.retrying job.number +
    r.dead job.number + r.processed job.number = 1 at hcount
  omega

theorem countP_number_pos {l : List β} (number : β → Nat)
    (h : 0 < l.countP fun x => number x == n) : ∃ x ∈ l, number x = n := by
  obtain ⟨x, hx, hn⟩ := List.countP_pos_iff.1 h
  exact ⟨x, hx, beq_iff_eq.1 hn⟩

theorem Conserved.runs_le (h : Conserved bounds handlerOf r) (hj : job ∈ r.enqueued) :
    r.runs job.number ≤ bounds.maxAttempts := by
  have honce := h.once hj
  have hlimits := h.limits
  rw [QueueRun.runs]
  by_cases hf : 0 < r.inFlight job.number
  · obtain ⟨call, hc, hn⟩ := countP_number_pos _ hf
    obtain ⟨ha, hm⟩ := h.tried.running call hc
    rw [hn] at ha
    rw [hlimits] at hm
    omega
  by_cases hp : 0 < r.processed job.number
  · obtain ⟨job', hc, hn⟩ := countP_number_pos _ hp
    have hm := h.settled job' hc
    rw [hn] at hm
    omega
  by_cases hd : 0 < r.dead job.number
  · obtain ⟨dead, hc, hn⟩ := countP_number_pos (fun d : DeadLetter α => d.job.number) hd
    obtain ⟨hm, _⟩ := h.tried.dead dead hc
    rw [hn, hlimits] at hm
    omega
  · -- it waits in the queue or in a timer
    have hw : ∃ job', (job' ∈ r.queue.queue ∨ job' ∈ r.queue.retrying) ∧
        job'.number = job.number := by
      by_cases hq : 0 < r.waiting job.number
      · obtain ⟨job', hc, hn⟩ := countP_number_pos _ hq
        exact ⟨job', .inl hc, hn⟩
      · have hr : 0 < r.retrying job.number := by omega
        obtain ⟨job', hc, hn⟩ := countP_number_pos _ hr
        exact ⟨job', .inr hc, hn⟩
    obtain ⟨job', hc, hn⟩ := hw
    obtain ⟨ha, hm⟩ := h.tried.waiting job' hc
    rw [hn] at ha
    rw [hlimits] at hm
    omega

theorem Conserved.dead_failures (h : Conserved bounds handlerOf r) (hj : job ∈ r.enqueued)
    (hh : (handlerOf job.type).isSome = true) (hd : 0 < r.dead job.number) :
    r.failures job.number = bounds.maxAttempts := by
  obtain ⟨dead, hc, hn⟩ := countP_number_pos (fun d : DeadLetter α => d.job.number) hd
  -- the dead letter is the job that was enqueued under its number, so it has the same type
  have hmem := List.mem_append_left (r.settled.map (·.ticket)) (r.queue.mem_tickets.2.2 dead hc)
  obtain ⟨job', hj', ht⟩ := List.mem_map.1 (h.tickets.mem_iff.1 hmem)
  have hnodup : (r.enqueued.map (·.number)).Nodup := h.numbers ▸ List.nodup_range'
  have hnum : job'.number = job.number := (congrArg Ticket.number ht).trans hn
  have hsame : job' = job := List.inj_on_of_nodup_map hnodup hj' hj hnum
  have htype : dead.job.type = job.type := by
    rw [← hsame]
    exact (congrArg Ticket.type ht).symm
  have hfail := (h.tried.dead dead hc).2
  rw [htype, h.handlers, hn, h.limits] at hfail
  exact hfail hh

theorem Conserved.idle (h : Conserved bounds handlerOf r) (hj : job ∈ r.enqueued)
    (hi : r.queue.Idle) : r.processed job.number + r.dead job.number = 1 := by
  obtain ⟨hqueue, hrunning, hretrying⟩ := hi
  have honce := h.once hj
  rw [QueueRun.waiting, QueueRun.inFlight, QueueRun.retrying, hqueue, hrunning, hretrying] at honce
  simpa using honce

/-- The jobs in flight never exceed the concurrency rounded up, every enqueued job is in exactly one
place, its handler runs at most `maxAttempts` times, rounded up, and a job with a handler is dead
only after that many throws; when `drain` resolves, each job is processed or dead. -/
theorem queue_conserves {c m : ℚ} (hc : 1 ≤ c) (hm : 1 ≤ m)
    (h₀ : (workerQueue (.ofNumbers c m) handlerOf).init r₀)
    (hr : (workerQueue (.ofNumbers c m) handlerOf).run r₀ es = some r) :
    r.queue.inflight ≤ ⌈c⌉₊ ∧
      ∀ job ∈ r.enqueued,
        r.waiting job.number + r.inFlight job.number + r.retrying job.number +
            r.processed job.number + r.dead job.number = 1 ∧
          r.runs job.number ≤ ⌈m⌉₊ ∧
          ((handlerOf job.type).isSome = true → 0 < r.dead job.number →
            r.failures job.number = ⌈m⌉₊) ∧
          (r.queue.Idle → r.processed job.number + r.dead job.number = 1) := by
  have h := (conserved_invariant _ handlerOf).run (conserved_init h₀) hr
  have hconc : (QueueLimits.ofNumbers c m).concurrency = ⌈c⌉₊ :=
    congrArg Nat.ceil (max_eq_right hc)
  have hmax : (QueueLimits.ofNumbers c m).maxAttempts = ⌈m⌉₊ :=
    congrArg Nat.ceil (max_eq_right hm)
  refine ⟨hconc ▸ h.room, ?_⟩
  intro job hj
  refine ⟨h.once hj, hmax ▸ h.runs_le hj, ?_, h.idle hj⟩
  intro hh hd
  exact hmax ▸ h.dead_failures hj hh hd

def emailHandler (type : String) : Option (QueueJob String → Unit) :=
  if type = "email" then some fun _ => () else none

def emptyRun (limits : QueueLimits) : QueueRun String :=
  ⟨.new limits emailHandler, [], [], fun _ => 0⟩

theorem emptyRun_init (limits : QueueLimits) :
    (workerQueue limits emailHandler).init (emptyRun limits) :=
  ⟨rfl, rfl, rfl, fun _ => rfl⟩

theorem ofNumbers_three_halves : QueueLimits.ofNumbers (3 / 2) 2 = ⟨2, 2, by decide, by decide⟩ := by
  have hc : ⌈max 1 (3 / 2 : ℚ)⌉₊ = 2 := by norm_num [Nat.ceil_eq_iff]
  have hm : ⌈max 1 (2 : ℚ)⌉₊ = 2 := by norm_num [Nat.ceil_eq_iff]
  simp only [QueueLimits.ofNumbers, hc, hm]

/-- One job fails twice, the other one is still running. -/
def failedTwice : List (QueueEvent String) :=
  [.enqueue "email" "a", .enqueue "email" "b", .threw 1 "boom", .retryTimer 1, .threw 1 "boom"]

theorem failedTwice_run :
    ∃ r, (workerQueue ⟨2, 2, by decide, by decide⟩ emailHandler).run
        (emptyRun ⟨2, 2, by decide, by decide⟩) failedTwice = some r ∧
      ⟨1, "email", "a", 0⟩ ∈ r.enqueued ∧ 0 < r.dead 1 :=
  ⟨_, rfl, List.mem_cons_self, by decide⟩

theorem queue_conserves_failedTwice :
    ∃ r, (workerQueue (.ofNumbers (3 / 2) 2) emailHandler).run
        (emptyRun (.ofNumbers (3 / 2) 2)) failedTwice = some r ∧ r.failures 1 = ⌈(2 : ℚ)⌉₊ := by
  obtain ⟨r, hr, hj, hd⟩ := failedTwice_run
  rw [← ofNumbers_three_halves] at hr
  obtain ⟨_, hjobs⟩ := queue_conserves (by norm_num) (by norm_num) (emptyRun_init _) hr
  obtain ⟨_, _, hdead, _⟩ := hjobs _ hj
  exact ⟨r, hr, hdead rfl hd⟩

theorem twoInFlight_run :
    ∃ r, (workerQueue ⟨2, 2, by decide, by decide⟩ emailHandler).run
        (emptyRun ⟨2, 2, by decide, by decide⟩) [.enqueue "email" "a", .enqueue "email" "b"] =
          some r ∧ r.queue.inflight = 2 :=
  ⟨_, rfl, rfl⟩

/-- With a concurrency of one and a half, two jobs are in flight. -/
theorem concurrency_exceeded :
    ¬ ∀ (c m : ℚ) (handlerOf : String → Option (QueueJob String → Unit)) (r₀ r : QueueRun String)
      (es : List (QueueEvent String)), 1 ≤ c → 1 ≤ m →
      (workerQueue (.ofNumbers c m) handlerOf).init r₀ →
      (workerQueue (.ofNumbers c m) handlerOf).run r₀ es = some r →
      (r.queue.inflight : ℚ) ≤ c := by
  intro h
  obtain ⟨r, hr, hin⟩ := twoInFlight_run
  rw [← ofNumbers_three_halves] at hr
  have hle := h (3 / 2) 2 emailHandler _ r _ (by norm_num) (by norm_num) (emptyRun_init _) hr
  rw [hin] at hle
  norm_num at hle

end Leetrank
