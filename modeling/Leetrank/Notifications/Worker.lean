import Mathlib.Data.List.Basic
import Leetrank.Library.Threads

namespace Leetrank
set_option autoImplicit true

open EventMachine Threads

/-- What `JSON.parse` makes of a text. -/
inductive Json where
  | null
  | bool (b : Bool)
  | num (literal : String)
  | str (s : String)
  | arr (elems : List Json)
  | obj (fields : List (String × Json))

/-- `msg["key"]` raises no error, as it does on numbers, booleans and arrays. -/
def Json.indexable : Json → Bool
  | .str _ | .obj _ => true
  | _ => false

/-- Ruby's `Hash#merge` of one key. -/
def mergeField (fields : List (String × Json)) (key : String) (value : Json) :
    List (String × Json) :=
  if fields.any (·.1 == key) then
    fields.map fun field => if field.1 = key then (key, value) else field
  else fields ++ [(key, value)]

/-- A payload of the queue, numbered by when it was enqueued. -/
structure Payload where
  id : Nat
  raw : String

/-- The two lists in Redis, the queue from the payload enqueued last on, with the payloads that
SMTP or the webhook has taken and the number of all payloads ever enqueued. -/
structure Notifications where
  queue : List Payload
  dlq : List (Nat × Json)
  delivered : List Nat
  enqueued : Nat

/-- Where a worker process stands in its loop. -/
inductive NotifierThread where
  | polling
  -- BRPOP has taken the payload, its reply has not arrived
  | popped (p : Payload)
  | delivering (p : Payload) (msg : Json)
  | rescuing (p : Payload) (msg : Json) (error : String)
  | exited

inductive NotifierEvent where
  | pop
  | reply
  | connectionLost
  | sent
  | failed (error : String)
  | pushDlq (ok : Bool)
  -- a signal, whose trap exits, or a crash
  | stop

variable {parse : String → Option Json} {webhook : Bool}

def Notifications.enqueue (s : Notifications) (raw : String) : Notifications :=
  { s with queue := ⟨s.enqueued, raw⟩ :: s.queue, enqueued := s.enqueued + 1 }

def notifierStep (parse : String → Option Json) (webhook : Bool) (s : Notifications) (_ : Nat) :
    NotifierThread → NotifierEvent → Option (Notifications × NotifierThread)
  | .polling, .pop =>
    match s.queue.getLast? with
    | none => some (s, .polling)
    | some p => some ({ s with queue := s.queue.dropLast }, .popped p)
  | .popped p, .reply =>
    match parse p.raw with
    -- the error of `JSON.parse` is raised outside the `rescue`
    | none => some (s, .exited)
    | some .null => some (s, .polling)
    | some msg => some (s, .delivering p msg)
  | .delivering p msg, .sent =>
    -- an e-mail reads the fields of `msg` before it is sent, the webhook's log line afterwards
    if msg.indexable then some ({ s with delivered := p.id :: s.delivered }, .polling)
    else if webhook then
      some ({ s with delivered := p.id :: s.delivered }, .rescuing p msg "NoMethodError")
    else none
  | .delivering p msg, .failed error => some (s, .rescuing p msg error)
  | .rescuing p (.obj fields) error, .pushDlq ok =>
    if ok then
      some ({ s with
        dlq := (p.id, .obj (mergeField fields "dlq_reason" (.str error))) :: s.dlq }, .polling)
    else some (s, .exited)
  -- the log line or `payload.merge` raises inside the `rescue`
  | .rescuing _ _ _, .pushDlq _ => some (s, .exited)
  | .polling, .connectionLost | .popped _, .connectionLost => some (s, .exited)
  | .polling, .stop | .popped _, .stop | .delivering _ _, .stop | .rescuing _ _ _, .stop =>
    some (s, .exited)
  | _, _ => none

/-- Any number of workers, started at any time, and payloads enqueued at any time. -/
def notifierProgram (parse : String → Option Json) (webhook : Bool) :
    Program Notifications NotifierThread Unit String NotifierEvent where
  start := fun _ _ => .polling
  ambient := Notifications.enqueue
  step := notifierStep parse webhook

def notifierMachine (parse : String → Option Json) (webhook : Bool) :
    Machine (World Notifications NotifierThread) (Event Unit String NotifierEvent) :=
  (notifierProgram parse webhook).machine (· = ⟨[], [], [], 0⟩)

/-- The payload that a live worker holds. -/
def NotifierThread.holds : NotifierThread → Option Nat
  | .popped p | .delivering p _ | .rescuing p _ _ => some p.id
  | _ => none

/-- The payload is in one of the lists or was delivered. -/
def Notifications.Placed (s : Notifications) (n : Nat) : Prop :=
  n ∈ s.queue.map Payload.id ∨ n ∈ s.dlq.map Prod.fst ∨ n ∈ s.delivered

/-- Every payload ever enqueued is in the queue, dead-lettered, delivered or held. -/
def Accounted (w : World Notifications NotifierThread) : Prop :=
  ∀ n < w.shared.enqueued, w.shared.Placed n ∨
    ∃ (i : Nat) (p : NotifierThread), w.threads[i]? = some p ∧ p.holds = some n

/-- Payloads that are popped parse, to something else than `null`; where a delivery fails, the
payload is an object and its dead-letter push succeeds; and a worker is not stopped, and the reply
of BRPOP not lost, while it holds a payload that has not been delivered. -/
def Careful (parse : String → Option Json) : StepProp Notifications NotifierThread NotifierEvent
  | _, _, .popped p, .reply => ∃ msg, parse p.raw = some msg ∧ msg ≠ .null
  | _, _, .popped _, .connectionLost => False
  | _, _, .popped _, .stop | _, _, .delivering _ _, .stop => False
  | s, _, .rescuing p msg _, .pushDlq ok =>
    ((∃ fields, msg = .obj fields) ∧ ok = true) ∨ p.id ∈ s.delivered
  | s, _, .rescuing p _ _, .stop => p.id ∈ s.delivered
  | _, _, _, _ => True

/-- What a step of a worker can do. -/
inductive NotifierMove (parse : String → Option Json) (s : Notifications) :
    NotifierThread → NotifierEvent → Notifications → NotifierThread → Prop where
  | idle : NotifierMove parse s .polling .pop s .polling
  | pop (queue : List Payload) (p : Payload) (hq : s.queue = queue ++ [p]) :
    NotifierMove parse s .polling .pop { s with queue := queue } (.popped p)
  | malformed (p : Payload) (hp : parse p.raw = none) :
    NotifierMove parse s (.popped p) .reply s .exited
  | null (p : Payload) (hp : parse p.raw = some .null) :
    NotifierMove parse s (.popped p) .reply s .polling
  | parsed (p : Payload) (msg : Json) :
    NotifierMove parse s (.popped p) .reply s (.delivering p msg)
  | sent (p : Payload) (msg : Json) (p' : NotifierThread)
    (hp : p' = .polling ∨ p' = .rescuing p msg "NoMethodError") :
    NotifierMove parse s (.delivering p msg) .sent { s with delivered := p.id :: s.delivered } p'
  | failed (p : Payload) (msg : Json) (error : String) :
    NotifierMove parse s (.delivering p msg) (.failed error) s (.rescuing p msg error)
  | deadLetter (p : Payload) (msg : Json) (error : String) (entry : Json) :
    NotifierMove parse s (.rescuing p msg error) (.pushDlq true)
      { s with dlq := (p.id, entry) :: s.dlq } .polling
  | raised (p : Payload) (msg : Json) (error : String) (ok : Bool)
    (h : (∀ fields, msg ≠ .obj fields) ∨ ok = false) :
    NotifierMove parse s (.rescuing p msg error) (.pushDlq ok) s .exited
  | disconnected : NotifierMove parse s .polling .connectionLost s .exited
  | replyLost (p : Payload) : NotifierMove parse s (.popped p) .connectionLost s .exited
  | stop (p : NotifierThread) : NotifierMove parse s p .stop s .exited

theorem notifierStep_move {s s' : Notifications}
    (hs : notifierStep parse webhook s i p e = some (s', p')) : NotifierMove parse s p e s' p' := by
  unfold notifierStep at hs
  split at hs
  next =>
    split at hs
    next =>
      cases hs
      exact .idle
    next q hq =>
      cases hs
      exact .pop _ q (List.dropLast_append_getLast? q hq).symm
  next p =>
    split at hs
    next hp =>
      cases hs
      exact .malformed p hp
    next hp =>
      cases hs
      exact .null p hp
    next msg _ hp =>
      cases hs
      exact .parsed p msg
  next p msg =>
    split at hs
    next =>
      cases hs
      exact .sent p msg _ (.inl rfl)
    next =>
      split at hs
      next =>
        cases hs
        exact .sent p msg _ (.inr rfl)
      next => cases hs
  next p msg error =>
    cases hs
    exact .failed p msg error
  next p fields error ok =>
    split at hs
    next hok =>
      cases hs
      subst hok
      exact .deadLetter p _ error _
    next hok =>
      cases hs
      exact .raised p _ error ok (.inr (Bool.eq_false_iff.2 hok))
  next p msg error ok hmsg =>
    cases hs
    refine .raised p msg error ok (.inl ?_)
    rintro fields rfl
    exact hmsg fields rfl
  next =>
    cases hs
    exact .disconnected
  next p =>
    cases hs
    exact .replyLost p
  next =>
    cases hs
    exact .stop _
  next p =>
    cases hs
    exact .stop _
  next p msg =>
    cases hs
    exact .stop _
  next p msg error =>
    cases hs
    exact .stop _
  next => cases hs

/-- What a careful step does with the payloads: those in the lists and the one that the worker
holds stay accounted for. -/
theorem NotifierMove.keeps {s s' : Notifications} {p p' : NotifierThread}
    (hm : NotifierMove parse s p e s' p') (hC : Careful parse s i p e) :
    s'.enqueued = s.enqueued ∧ (∀ n, s.Placed n → s'.Placed n ∨ p'.holds = some n) ∧
      ∀ n, p.holds = some n → s'.Placed n ∨ p'.holds = some n := by
  cases hm with
  | idle => exact ⟨rfl, fun n h => .inl h, nofun⟩
  | pop queue p hq =>
    refine ⟨rfl, fun n h => ?_, nofun⟩
    rcases h with h | h
    · rw [hq, List.map_append, List.mem_append] at h
      rcases h with h | h
      · exact .inl (.inl h)
      · exact .inr (congrArg some (List.mem_singleton.1 h).symm)
    · exact .inl (.inr h)
  | malformed p hp =>
    obtain ⟨msg, hmsg, -⟩ := hC
    rw [hp] at hmsg
    cases hmsg
  | null p hp =>
    obtain ⟨msg, hmsg, hne⟩ := hC
    rw [hp] at hmsg
    cases hmsg
    exact absurd rfl hne
  | parsed p msg => exact ⟨rfl, fun n h => .inl h, fun n h => .inr h⟩
  | sent p msg p' hp =>
    refine ⟨rfl, fun n h => .inl (h.imp_right (Or.imp_right (List.mem_cons_of_mem _))), ?_⟩
    rintro n ⟨⟩
    exact .inl (.inr (.inr List.mem_cons_self))
  | failed p msg error => exact ⟨rfl, fun n h => .inl h, fun n h => .inr h⟩
  | deadLetter p msg error entry =>
    refine ⟨rfl, fun n h => .inl (h.imp_right (Or.imp_left (List.mem_cons_of_mem _))), ?_⟩
    rintro n ⟨⟩
    exact .inl (.inr (.inl List.mem_cons_self))
  | raised p msg error ok h =>
    refine ⟨rfl, fun n h => .inl h, ?_⟩
    rintro n ⟨⟩
    rcases hC with ⟨⟨fields, rfl⟩, rfl⟩ | hd
    · rcases h with h | h
      · exact absurd rfl (h fields)
      · cases h
    · exact .inl (.inr (.inr hd))
  | disconnected => exact ⟨rfl, fun n h => .inl h, nofun⟩
  | replyLost p => exact hC.elim
  | stop p =>
    refine ⟨rfl, fun n h => .inl h, fun n h => ?_⟩
    cases p with
    | polling => cases h
    | popped p => exact hC.elim
    | delivering p msg => exact hC.elim
    | rescuing p msg error =>
      cases h
      exact .inl (.inr (.inr hC))
    | exited => cases h

theorem accounted_preserved :
    (notifierMachine parse webhook).Preserves (OnSteps (Careful parse)) Accounted := by
  intro w e w' hw hs hC n hn
  cases e with
  | spawn a =>
    cases hs
    refine (hw n hn).imp_right ?_
    rintro ⟨i, p, hi, hp⟩
    exact ⟨i, p, (List.getElem?_append_left (World.lt_length hi)).trans hi, hp⟩
  | ambient raw =>
    cases hs
    by_cases hlt : n < w.shared.enqueued
    · exact (hw n hlt).imp_left (Or.imp_left (List.mem_cons_of_mem _))
    · have heq : n = w.shared.enqueued :=
        Nat.le_antisymm (Nat.le_of_lt_succ hn) (Nat.le_of_not_lt hlt)
      exact .inl (.inl (heq ▸ List.mem_cons_self))
  | act j e =>
    obtain ⟨p, s, p', hp, hstep, rfl⟩ := Program.next_act hs
    obtain ⟨henq, hplaced, hheld⟩ :=
      (notifierStep_move (i := j) hstep).keeps (hC j e p rfl hp)
    have own (h : s.Placed n ∨ p'.holds = some n) : s.Placed n ∨
        ∃ (i : Nat) (q : NotifierThread), (w.threads.set j p')[i]? = some q ∧ q.holds = some n :=
      h.imp_right fun h => ⟨j, p', List.getElem?_set_self (World.lt_length hp), h⟩
    obtain h | ⟨i, q, hi, hq⟩ := hw n (henq ▸ hn)
    · exact own (hplaced n h)
    · by_cases hj : j = i
      · subst hj
        rw [hp] at hi
        cases hi
        exact own (hheld n hq)
      · exact .inr ⟨i, q, (List.getElem?_set_ne hj).trans hi, hq⟩

variable {w w₀ : World Notifications NotifierThread} {es : List (Event Unit String NotifierEvent)}

/-- In a run of careful steps no payload is lost. -/
theorem notifications_kept (h₀ : (notifierMachine parse webhook).init w₀)
    (hC : (notifierMachine parse webhook).Always (OnSteps (Careful parse)) w₀ es)
    (hr : (notifierMachine parse webhook).run w₀ es = some w) : Accounted w := by
  refine accounted_preserved.run ?_ hC hr
  intro n hn
  rw [h₀.1] at hn
  exact absurd hn (Nat.not_lt_zero n)

/-- The two texts that the runs below enqueue, the second of which is no JSON. -/
def parseEmpty (raw : String) : Option Json := if raw = "\x7b\x7d" then some (.obj []) else none

def noNotifications : World Notifications NotifierThread := ⟨⟨[], [], [], 0⟩, []⟩

/-- A payload whose delivery fails and that is dead-lettered. -/
def deadLettered : List (Event Unit String NotifierEvent) :=
  [.ambient "\x7b\x7d", .spawn (), .act 0 .pop, .act 0 .reply, .act 0 (.failed "Net::ReadTimeout"),
    .act 0 (.pushDlq true), .act 0 .stop]

theorem deadLettered_careful :
    (notifierMachine parseEmpty false).Always (OnSteps (Careful parseEmpty)) noNotifications
      deadLettered := by
  apply Machine.always_cons rfl (OnSteps.ambient _)
  apply Machine.always_cons rfl (OnSteps.spawn _)
  apply Machine.always_cons rfl (OnSteps.act rfl trivial)
  apply Machine.always_cons rfl (OnSteps.act rfl ⟨.obj [], rfl, nofun⟩)
  apply Machine.always_cons rfl (OnSteps.act rfl trivial)
  apply Machine.always_cons rfl (OnSteps.act rfl (.inl ⟨⟨[], rfl⟩, rfl⟩))
  exact Machine.always_cons rfl (OnSteps.act rfl trivial) trivial

theorem notifications_kept_deadLettered :
    ∃ w, (notifierMachine parseEmpty false).run noNotifications deadLettered = some w ∧
      w.shared.enqueued = 1 ∧ Accounted w := by
  have hrun : ∃ w, (notifierMachine parseEmpty false).run noNotifications deadLettered = some w ∧
      w.shared.enqueued = 1 := ⟨_, rfl, rfl⟩
  obtain ⟨w, hr, henq⟩ := hrun
  exact ⟨w, hr, henq, notifications_kept ⟨rfl, rfl⟩ deadLettered_careful hr⟩

/-- A malformed payload, and one whose delivery a SIGTERM interrupts, are nowhere afterwards. -/
theorem notifications_lost :
    (∃ w, (notifierMachine parseEmpty false).run noNotifications
        [.ambient "not json", .spawn (), .act 0 .pop, .act 0 .reply] = some w ∧
      w.shared = ⟨[], [], [], 1⟩ ∧ w.threads = [.exited] ∧ ¬Accounted w) ∧
    ∃ w, (notifierMachine parseEmpty false).run noNotifications
        [.ambient "\x7b\x7d", .spawn (), .act 0 .pop, .act 0 .reply, .act 0 .stop] = some w ∧
      w.shared = ⟨[], [], [], 1⟩ ∧ w.threads = [.exited] ∧ ¬Accounted w := by
  have hlost {w : World Notifications NotifierThread} (hs : w.shared = ⟨[], [], [], 1⟩)
      (ht : w.threads = [.exited]) : ¬Accounted w := by
    intro hw
    obtain h | ⟨i, p, hi, hp⟩ := hw 0 (by rw [hs]; exact Nat.one_pos)
    · rw [hs] at h
      simp [Notifications.Placed] at h
    · rw [ht] at hi
      rw [List.mem_singleton.1 (List.mem_of_getElem? hi)] at hp
      cases hp
  exact ⟨⟨_, rfl, rfl, rfl, hlost rfl rfl⟩, ⟨_, rfl, rfl, rfl, hlost rfl rfl⟩⟩

end Leetrank
