import Mathlib.Data.List.Basic

namespace Leetrank
set_option autoImplicit true

/-- A job, with the number that its id is made of. -/
structure QueueJob (α : Type u) where
  number : Nat
  type : String
  payload : α
  attempts : Nat

def QueueJob.attempt (job : QueueJob α) : QueueJob α := { job with attempts := job.attempts + 1 }

/-- An entry of the dead-letter list: a job without a handler, or one that ran out of attempts. -/
inductive DeadLetter (α : Type u) where
  | unhandled (job : QueueJob α)
  | exhausted (error : String) (job : QueueJob α)

/-- A call of `run` that awaits its handler, suspended in a state of type `σ`. -/
structure Inflight (α : Type u) (σ : Type v) where
  job : QueueJob α
  state : σ

structure QueueLimits where
  concurrency : Nat
  maxAttempts : Nat
  concurrency_pos : 1 ≤ concurrency
  maxAttempts_pos : 1 ≤ maxAttempts

def QueueLimits.ofOptions (concurrency maxAttempts : Option Nat) : QueueLimits where
  concurrency := max 1 (concurrency.getD 4)
  maxAttempts := max 1 (maxAttempts.getD 3)
  concurrency_pos := Nat.le_max_left ..
  maxAttempts_pos := Nat.le_max_left ..

/-- The queue with the jobs that its suspended calls and armed timers keep alive. -/
structure WorkerQueue (α : Type u) (σ : Type v) where
  limits : QueueLimits
  handlers : String → Option (QueueJob α → σ)
  queue : List (QueueJob α)
  running : List (Inflight α σ)
  retrying : List (QueueJob α)
  nextId : Nat
  processed : Nat
  failed : Nat
  deadLetter : List (DeadLetter α)

def WorkerQueue.inflight (q : WorkerQueue α σ) : Nat := q.running.length

def WorkerQueue.new (limits : QueueLimits) (handlers : String → Option (QueueJob α → σ)) :
    WorkerQueue α σ where
  limits := limits
  handlers := handlers
  queue := []
  running := []
  retrying := []
  nextId := 1
  processed := 0
  failed := 0
  deadLetter := []

/-- `run` up to its first `await`; a job without a handler is over at once. -/
def WorkerQueue.begin (q : WorkerQueue α σ) (job : QueueJob α) : WorkerQueue α σ :=
  match q.handlers job.type with
  | none => { q with failed := q.failed + 1, deadLetter := q.deadLetter ++ [.unhandled job] }
  | some handler => { q with running := q.running ++ [⟨job.attempt, handler job.attempt⟩] }

/-- The loop of `pump` over the waiting jobs. -/
def WorkerQueue.pumpFrom (q : WorkerQueue α σ) : List (QueueJob α) → WorkerQueue α σ
  | [] => { q with queue := [] }
  | job :: jobs =>
    if q.inflight < q.limits.concurrency then (q.begin job).pumpFrom jobs
    else { q with queue := job :: jobs }

def WorkerQueue.pump (q : WorkerQueue α σ) : WorkerQueue α σ := q.pumpFrom q.queue

def WorkerQueue.enqueue (q : WorkerQueue α σ) (type : String) (payload : α) : WorkerQueue α σ :=
  let job : QueueJob α := ⟨q.nextId, type, payload, 0⟩
  { q with queue := q.queue ++ [job], nextId := q.nextId + 1 }.pump

def WorkerQueue.resolve (q : WorkerQueue α σ) : WorkerQueue α σ :=
  { q with processed := q.processed + 1 }.pump

def WorkerQueue.reject (q : WorkerQueue α σ) (job : QueueJob α) (err : String) :
    WorkerQueue α σ :=
  if job.attempts < q.limits.maxAttempts then
    { q with retrying := q.retrying ++ [job] }.pump
  else
    { q with failed := q.failed + 1, deadLetter := q.deadLetter ++ [DeadLetter.exhausted err job] }.pump

def WorkerQueue.retry (q : WorkerQueue α σ) (job : QueueJob α) : WorkerQueue α σ :=
  { q with queue := q.queue ++ [job] }.pump

/-- The condition under which `drain` resolves. -/
def WorkerQueue.Idle (q : WorkerQueue α σ) : Prop :=
  q.queue = [] ∧ q.running = [] ∧ q.retrying = []

def pick (p : β → Bool) (l : List β) : Option (β × List β) :=
  (l.find? p).map fun x => (x, l.eraseP p)

theorem pick_perm {l : List β} (h : pick p l = some (x, rest)) : l.Perm (x :: rest) := by
  obtain ⟨y, hy, hx⟩ := Option.map_eq_some_iff.1 h
  cases hx
  obtain ⟨hp, l₁, l₂, rfl, hl₁⟩ := List.find?_eq_some_iff_append.1 hy
  have hskip : ∀ z ∈ l₁, ¬ p z = true := fun z hz => by simpa using hl₁ z hz
  rw [List.eraseP_append_right _ hskip, List.eraseP_cons_of_pos hp]
  exact List.perm_middle

theorem pick_prop {l : List β} (h : pick p l = some (x, rest)) : p x = true := by
  obtain ⟨y, hy, hx⟩ := Option.map_eq_some_iff.1 h
  cases hx
  exact List.find?_some hy

def WorkerQueue.calls (q : WorkerQueue α σ) (started : List (QueueJob α)) :
    List (Inflight α σ) :=
  started.filterMap fun job =>
    (q.handlers job.type).map fun handler => ⟨job.attempt, handler job.attempt⟩

def WorkerQueue.dropped (q : WorkerQueue α σ) (started : List (QueueJob α)) :
    List (DeadLetter α) :=
  (started.filter fun job => (q.handlers job.type).isNone).map .unhandled

/-- The queue after its first waiting jobs were started. -/
def WorkerQueue.started (q : WorkerQueue α σ) (first waiting : List (QueueJob α)) :
    WorkerQueue α σ :=
  { q with
    queue := waiting
    running := q.running ++ q.calls first
    failed := q.failed + (q.dropped first).length
    deadLetter := q.deadLetter ++ q.dropped first }

theorem WorkerQueue.begin_started (q : WorkerQueue α σ) (job : QueueJob α)
    (first waiting : List (QueueJob α)) :
    (q.begin job).started first waiting = q.started (job :: first) waiting := by
  cases h : q.handlers job.type with
  | none =>
    simp [WorkerQueue.begin, WorkerQueue.started, WorkerQueue.calls, WorkerQueue.dropped, h,
      Nat.add_assoc, Nat.add_comm]
  | some handler =>
    simp [WorkerQueue.begin, WorkerQueue.started, WorkerQueue.calls, WorkerQueue.dropped, h]

/-- Pumping starts the first waiting jobs in their order and leaves the rest waiting. -/
theorem WorkerQueue.pumpFrom_eq (q : WorkerQueue α σ) (jobs : List (QueueJob α)) :
    ∃ first waiting, jobs = first ++ waiting ∧ q.pumpFrom jobs = q.started first waiting := by
  induction jobs generalizing q with
  | nil =>
    refine ⟨[], [], rfl, ?_⟩
    simp [WorkerQueue.pumpFrom, WorkerQueue.started, WorkerQueue.calls, WorkerQueue.dropped]
  | cons job jobs ih =>
    rw [WorkerQueue.pumpFrom]
    split
    · -- the rest is pumped over the queue that runs this job already
      obtain ⟨first, waiting, rfl, hq⟩ := ih (q.begin job)
      exact ⟨job :: first, waiting, rfl, hq.trans (q.begin_started job first waiting)⟩
    · refine ⟨[], job :: jobs, rfl, ?_⟩
      simp [WorkerQueue.started, WorkerQueue.calls, WorkerQueue.dropped]

theorem WorkerQueue.pump_eq (q : WorkerQueue α σ) :
    ∃ first waiting, q.queue = first ++ waiting ∧ q.pump = q.started first waiting :=
  q.pumpFrom_eq q.queue

/-- Every job in the queue has a handler and attempts to spare, and none exceeds its attempts. -/
structure WorkerQueue.Bounded (q : WorkerQueue α σ) : Prop where
  waiting : ∀ job, job ∈ q.queue ∨ job ∈ q.retrying →
    (q.handlers job.type).isSome ∧ job.attempts < q.limits.maxAttempts
  running : ∀ call ∈ q.running,
    (q.handlers call.job.type).isSome ∧ call.job.attempts ≤ q.limits.maxAttempts

/-- A job with this payload waits, runs, or will be retried. -/
def WorkerQueue.Live (q : WorkerQueue α σ) (a : α) : Prop :=
  (∃ job, (job ∈ q.queue ∨ job ∈ q.retrying) ∧ job.payload = a) ∨
    ∃ call ∈ q.running, call.job.payload = a

def WorkerQueue.GaveUp (q : WorkerQueue α σ) (a : α) : Prop :=
  ∃ err job, .exhausted err job ∈ q.deadLetter ∧ job.payload = a ∧
    job.attempts = q.limits.maxAttempts

theorem WorkerQueue.Bounded.without {q : WorkerQueue α σ} (h : q.Bounded)
    (hp : q.running.Perm (call :: rest)) : WorkerQueue.Bounded { q with running := rest } :=
  ⟨h.waiting, fun c hc => h.running c (hp.mem_iff.2 (List.mem_cons_of_mem _ hc))⟩

theorem WorkerQueue.mem_calls {q : WorkerQueue α σ} (h : call ∈ q.calls first) :
    ∃ job ∈ first, call.job = job.attempt := by
  obtain ⟨job, hjob, hc⟩ := List.mem_filterMap.1 h
  obtain ⟨handler, _, rfl⟩ := Option.map_eq_some_iff.1 hc
  exact ⟨job, hjob, rfl⟩

theorem WorkerQueue.call_of_mem {q : WorkerQueue α σ} (h : job ∈ first)
    (hh : (q.handlers job.type).isSome = true) :
    ∃ call ∈ q.calls first, call.job = job.attempt := by
  obtain ⟨handler, hs⟩ := Option.isSome_iff_exists.1 hh
  refine ⟨⟨job.attempt, handler job.attempt⟩, List.mem_filterMap.2 ⟨job, h, ?_⟩, rfl⟩
  rw [hs, Option.map_some]

theorem WorkerQueue.Bounded.pump {q : WorkerQueue α σ} (h : q.Bounded) : q.pump.Bounded := by
  obtain ⟨first, waiting, hq, he⟩ := q.pump_eq
  rw [he]
  constructor
  · rintro job (hjob | hjob)
    · exact h.waiting job (.inl (hq ▸ List.mem_append_right first hjob))
    · exact h.waiting job (.inr hjob)
  · intro call hc
    rcases List.mem_append.1 hc with hc | hc
    · exact h.running call hc
    · obtain ⟨job, hjob, hcall⟩ := WorkerQueue.mem_calls hc
      have hw := h.waiting job (.inl (hq ▸ List.mem_append_left waiting hjob))
      rw [hcall]
      exact ⟨hw.1, hw.2⟩

/-- Whatever one queue has in its care the other one has as well. -/
structure WorkerQueue.Keeps (q q' : WorkerQueue α σ) : Prop where
  live : ∀ a, q.Live a → q'.Live a
  gaveUp : ∀ a, q.GaveUp a → q'.GaveUp a
  running : ∀ call ∈ q.running, call ∈ q'.running
  handlers : q'.handlers = q.handlers

theorem WorkerQueue.Keeps.trans {q₁ q₂ q₃ : WorkerQueue α σ} (h : q₁.Keeps q₂)
    (h' : q₂.Keeps q₃) : q₁.Keeps q₃ :=
  ⟨fun a ha => h'.live a (h.live a ha), fun a ha => h'.gaveUp a (h.gaveUp a ha),
    fun call hc => h'.running call (h.running call hc), h'.handlers.trans h.handlers⟩

theorem WorkerQueue.Keeps.of_mem {q q' : WorkerQueue α σ}
    (hw : ∀ job, job ∈ q.queue ∨ job ∈ q.retrying → job ∈ q'.queue ∨ job ∈ q'.retrying)
    (hr : ∀ call ∈ q.running, call ∈ q'.running) (hd : ∀ dead ∈ q.deadLetter, dead ∈ q'.deadLetter)
    (hl : q'.limits = q.limits) (hh : q'.handlers = q.handlers) : q.Keeps q' := by
  refine ⟨?_, ?_, hr, hh⟩
  · rintro a (⟨job, hjob, ha⟩ | ⟨call, hc, ha⟩)
    · exact .inl ⟨job, hw job hjob, ha⟩
    · exact .inr ⟨call, hr call hc, ha⟩
  · rintro a ⟨err, job, hdead, ha, hm⟩
    exact ⟨err, job, hd _ hdead, ha, hm.trans (congrArg QueueLimits.maxAttempts hl.symm)⟩

theorem WorkerQueue.Bounded.live_pump {q : WorkerQueue α σ} (h : q.Bounded) (ha : q.Live a) :
    q.pump.Live a := by
  obtain ⟨first, waiting, hq, he⟩ := q.pump_eq
  rw [he]
  rcases ha with ⟨job, hjob | hjob, rfl⟩ | ⟨call, hc, rfl⟩
  · have hmem : job ∈ first ++ waiting := hq ▸ hjob
    rcases List.mem_append.1 hmem with hf | hw
    · obtain ⟨call, hc, hcall⟩ := WorkerQueue.call_of_mem hf (h.waiting job (.inl hjob)).1
      exact .inr ⟨call, List.mem_append_right _ hc, by rw [hcall]; rfl⟩
    · exact .inl ⟨job, .inl hw, rfl⟩
  · exact .inl ⟨job, .inr hjob, rfl⟩
  · exact .inr ⟨call, List.mem_append_left _ hc, rfl⟩

theorem WorkerQueue.handlers_pump (q : WorkerQueue α σ) : q.pump.handlers = q.handlers := by
  obtain ⟨first, waiting, _, he⟩ := q.pump_eq
  rw [he]
  rfl

theorem WorkerQueue.Bounded.keeps_pump {q : WorkerQueue α σ} (h : q.Bounded) :
    q.Keeps q.pump := by
  refine ⟨fun a => h.live_pump, ?_, ?_, q.handlers_pump⟩
  · rintro a ⟨err, job, hd, hp, hm⟩
    obtain ⟨first, waiting, _, he⟩ := q.pump_eq
    rw [he]
    exact ⟨err, job, List.mem_append_left _ hd, hp, hm⟩
  · intro call hc
    obtain ⟨first, waiting, _, he⟩ := q.pump_eq
    rw [he]
    exact List.mem_append_left _ hc

theorem WorkerQueue.Bounded.enqueue {q : WorkerQueue α σ} (h : q.Bounded)
    (ht : (q.handlers type).isSome = true) (a : α) :
    (q.enqueue type a).Bounded ∧ q.Keeps (q.enqueue type a) ∧ (q.enqueue type a).Live a := by
  have hb : WorkerQueue.Bounded
      { q with queue := q.queue ++ [⟨q.nextId, type, a, 0⟩], nextId := q.nextId + 1 } := by
    refine ⟨?_, h.running⟩
    rintro job (hjob | hjob)
    · rcases List.mem_append.1 hjob with hjob | hjob
      · exact h.waiting job (.inl hjob)
      · rw [List.mem_singleton.1 hjob]
        exact ⟨ht, q.limits.maxAttempts_pos⟩
    · exact h.waiting job (.inr hjob)
  have hk : q.Keeps
      { q with queue := q.queue ++ [⟨q.nextId, type, a, 0⟩], nextId := q.nextId + 1 } :=
    .of_mem (fun _ => Or.imp_left (List.mem_append_left _)) (fun _ hc => hc) (fun _ hd => hd)
      rfl rfl
  refine ⟨hb.pump, hk.trans hb.keeps_pump, hb.live_pump ?_⟩
  refine .inl ⟨⟨q.nextId, type, a, 0⟩, .inl ?_, rfl⟩
  exact List.mem_append_right _ (List.mem_singleton_self _)

theorem WorkerQueue.Bounded.resolve {q : WorkerQueue α σ} (h : q.Bounded) :
    q.resolve.Bounded ∧ q.Keeps q.resolve := by
  have hb : WorkerQueue.Bounded { q with processed := q.processed + 1 } := ⟨h.waiting, h.running⟩
  have hk : q.Keeps { q with processed := q.processed + 1 } :=
    .of_mem (fun _ hj => hj) (fun _ hc => hc) (fun _ hd => hd) rfl rfl
  exact ⟨hb.pump, hk.trans hb.keeps_pump⟩

/-- A thrown job is put aside for another attempt or given up for good. -/
theorem WorkerQueue.Bounded.reject {q : WorkerQueue α σ} (h : q.Bounded)
    (hh : (q.handlers job.type).isSome = true) (hm : job.attempts ≤ q.limits.maxAttempts)
    (err : String) :
    (q.reject job err).Bounded ∧ q.Keeps (q.reject job err) ∧
      ((q.reject job err).Live job.payload ∨ (q.reject job err).GaveUp job.payload) := by
  rw [WorkerQueue.reject]
  split
  next hlt =>
    have hb : WorkerQueue.Bounded { q with retrying := q.retrying ++ [job] } := by
      refine ⟨?_, h.running⟩
      rintro job' (hjob | hjob)
      · exact h.waiting job' (.inl hjob)
      · rcases List.mem_append.1 hjob with hjob | hjob
        · exact h.waiting job' (.inr hjob)
        · rw [List.mem_singleton.1 hjob]
          exact ⟨hh, hlt⟩
    have hk : q.Keeps { q with retrying := q.retrying ++ [job] } :=
      .of_mem (fun _ => Or.imp_right (List.mem_append_left _)) (fun _ hc => hc) (fun _ hd => hd)
        rfl rfl
    refine ⟨hb.pump, hk.trans hb.keeps_pump, .inl (hb.live_pump (.inl ⟨job, .inr ?_, rfl⟩))⟩
    exact List.mem_append_right _ (List.mem_singleton_self job)
  next hge =>
    have hb : WorkerQueue.Bounded
        { q with failed := q.failed + 1, deadLetter := q.deadLetter ++ [.exhausted err job] } :=
      ⟨h.waiting, h.running⟩
    have hk : q.Keeps
        { q with failed := q.failed + 1, deadLetter := q.deadLetter ++ [.exhausted err job] } :=
      .of_mem (fun _ hj => hj) (fun _ hc => hc) (fun _ => List.mem_append_left _) rfl rfl
    refine ⟨hb.pump, hk.trans hb.keeps_pump, .inr (hb.keeps_pump.gaveUp _ ⟨err, job, ?_, rfl, ?_⟩)⟩
    · exact List.mem_append_right _ (List.mem_singleton_self _)
    · change job.attempts = q.limits.maxAttempts
      omega

theorem WorkerQueue.Bounded.retry {q : WorkerQueue α σ} (h : q.Bounded)
    (hp : q.retrying.Perm (job :: rest)) :
    (WorkerQueue.retry { q with retrying := rest } job).Bounded ∧
      q.Keeps (WorkerQueue.retry { q with retrying := rest } job) := by
  have hmem {job' : QueueJob α} : job' ∈ q.retrying ↔ job' = job ∨ job' ∈ rest :=
    hp.mem_iff.trans List.mem_cons
  have hb : WorkerQueue.Bounded { q with retrying := rest, queue := q.queue ++ [job] } := by
    refine ⟨?_, h.running⟩
    rintro job' (hjob | hjob)
    · rcases List.mem_append.1 hjob with hjob | hjob
      · exact h.waiting job' (.inl hjob)
      · exact h.waiting job' (.inr (hmem.2 (.inl (List.mem_singleton.1 hjob))))
    · exact h.waiting job' (.inr (hmem.2 (.inr hjob)))
  have hk : q.Keeps { q with retrying := rest, queue := q.queue ++ [job] } := by
    refine .of_mem ?_ (fun _ hc => hc) (fun _ hd => hd) rfl rfl
    rintro job' (hjob | hjob)
    · exact .inl (List.mem_append_left _ hjob)
    · rcases hmem.1 hjob with rfl | hjob
      · exact .inl (List.mem_append_right _ (List.mem_singleton_self _))
      · exact .inr hjob
  exact ⟨hb.pump, hk.trans hb.keeps_pump⟩

end Leetrank
