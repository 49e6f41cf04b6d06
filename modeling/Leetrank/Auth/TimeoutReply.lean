import Leetrank.Library.Machine
import Leetrank.Strings
import Mathlib.Algebra.Ring.Nat

namespace Leetrank
set_option autoImplicit true

open EventMachine

/-- Who calls the methods of a `ResponseWriter`. -/
inductive ReplyAuthor where
  | handler
  | middleware
deriving DecidableEq

structure ResponseHeaders where
  contentType : Option String
  contentLength : Option Nat
  others : List (String × String)

/-- A response as it goes to the client: the headers so far, the status line with those headers that
were sent with it, the chunks of the body, and the calls of `WriteHeader` and `Write`. -/
structure ResponseWriter where
  header : ResponseHeaders
  sent : Option (ReplyAuthor × Nat × ResponseHeaders)
  body : List (ReplyAuthor × String)
  calls : List ReplyAuthor

inductive WriterOp where
  | contentType (value : String)
  | contentLength (n : Nat)
  | setHeader (name value : String)
  | writeHeader (status : Nat)
  | write (chunk : String)

/-- The operation is part of a reply, and does not only change the headers. -/
def WriterOp.Writes : WriterOp → Prop
  | .writeHeader _ | .write _ => True
  | .contentType _ | .contentLength _ | .setHeader _ _ => False

/-- A second status is superfluous and is ignored. -/
def ResponseWriter.sendHeader (w : ResponseWriter) (author : ReplyAuthor) (status : Nat) :
    ResponseWriter :=
  if w.sent.isSome then w else { w with sent := some (author, status, w.header) }

/-- A chunk sends the status 200 if there is none yet, and is refused beyond `Content-Length`. -/
def ResponseWriter.append (w : ResponseWriter) (author : ReplyAuthor) (chunk : String) :
    ResponseWriter :=
  let w := w.sendHeader author 200
  let written := (w.body.map fun x => x.2.utf8ByteSize).sum + chunk.utf8ByteSize
  if (w.sent.bind fun x => x.2.2.contentLength).any fun n => n < written then w
  else { w with body := w.body ++ [(author, chunk)] }

def ResponseWriter.apply (w : ResponseWriter) (author : ReplyAuthor) : WriterOp → ResponseWriter
  | .contentType value => { w with header := { w.header with contentType := some value } }
  | .contentLength n => { w with header := { w.header with contentLength := some n } }
  | .setHeader name value =>
    { w with header := { w.header with others := w.header.others ++ [(name, value)] } }
  | .writeHeader status =>
    { w.sendHeader author status with calls := w.calls ++ [author] }
  | .write chunk => { w.append author chunk with calls := w.calls ++ [author] }

/-- The operations of `JSON` for a body that has been encoded. -/
def jsonOps (status : Nat) (body : String) : List WriterOp :=
  [.contentType "application/json", .contentLength body.utf8ByteSize, .writeHeader status,
    .write body]

def timedOutBody : String := "\x7b\"error\":\"Request timed out\"\x7d"

inductive ContextErr where
  | deadlineExceeded
  | canceled

/-- Where the middleware stands: at its `select`, within the reply of a time-out, or returned. -/
inductive TimeoutPc where
  | select
  | json (op : WriterOp) (ops : List WriterOp)
  | returned (timedOut : Bool)

/-- The response, whether the handler has returned, the error of the context if it is done, and the
middleware. -/
structure TimeoutState where
  writer : ResponseWriter
  done : Bool
  ctx : Option ContextErr
  pc : TimeoutPc

/-- The handler goes on, the context ends, a branch of the `select` is taken, or the reply of the
time-out goes on. -/
inductive TimeoutEvent where
  | handler (op : WriterOp)
  | handlerReturns
  | ctxDone (err : ContextErr)
  | selectDone
  | selectCtx
  | reply

def nextReply : List WriterOp → TimeoutPc
  | [] => .returned true
  | op :: ops => .json op ops

def timeoutStep (s : TimeoutState) : TimeoutEvent → Option TimeoutState
  | .handler op =>
    if s.done then none else some { s with writer := s.writer.apply .handler op }
  | .handlerReturns => if s.done then none else some { s with done := true }
  | .ctxDone err => if s.ctx.isSome then none else some { s with ctx := some err }
  | .selectDone =>
    match s.pc with
    | .select => if s.done then some { s with pc := .returned false } else none
    | .json _ _ | .returned _ => none
  | .selectCtx =>
    match s.pc, s.ctx with
    | .select, some .deadlineExceeded =>
      some { s with pc := nextReply (jsonOps 504 timedOutBody) }
    | .select, some .canceled => some { s with pc := .returned false }
    | _, _ => none
  | .reply =>
    match s.pc with
    | .json op ops => some { s with writer := s.writer.apply .middleware op, pc := nextReply ops }
    | .select | .returned _ => none

def timeoutStart : TimeoutState := ⟨⟨⟨none, none, []⟩, none, [], []⟩, false, none, .select⟩

/-- A request for a handler that may do anything, with the deadline at any point. -/
def timeoutMachine : Machine TimeoutState TimeoutEvent where
  init := fun s => s = timeoutStart
  step := timeoutStep

/-- All of the reply comes from one side. -/
def ResponseWriter.OneReply (w : ResponseWriter) : Prop :=
  .handler ∉ w.calls ∨ .middleware ∉ w.calls

/-- The branch of the deadline has been taken. -/
def TimeoutPc.TimedOut : TimeoutPc → Prop
  | .json _ _ | .returned true => True
  | .select | .returned false => False

/-- The branch of the deadline is taken only if the handler has not begun a reply, and the handler
writes nothing from then on. -/
def DeadlineApart (s : TimeoutState) (e : TimeoutEvent) (_ : TimeoutState) : Prop :=
  (∀ op, e = .handler op → op.Writes → ¬s.pc.TimedOut) ∧
    (e = .selectCtx → s.ctx = some .deadlineExceeded → .handler ∉ s.writer.calls)

variable {s t u : TimeoutState}

/-- A call is recorded if and only if it writes. -/
theorem mem_calls_apply {w : ResponseWriter} {author a : ReplyAuthor} {op : WriterOp} :
    a ∈ (w.apply author op).calls ↔ a ∈ w.calls ∨ a = author ∧ op.Writes := by
  cases op with
  | contentType | contentLength | setHeader =>
    simp only [ResponseWriter.apply, WriterOp.Writes, and_false, or_false]
  | writeHeader status =>
    simp only [ResponseWriter.apply, WriterOp.Writes, and_true, List.mem_append,
      List.mem_singleton]
  | write chunk =>
    simp only [ResponseWriter.apply, WriterOp.Writes, and_true, List.mem_append,
      List.mem_singleton]

/-- What goes to the client has been given by a caller. -/
structure ResponseWriter.Authored (w : ResponseWriter) : Prop where
  sent : ∀ x, w.sent = some x → x.1 ∈ w.calls
  body : ∀ x ∈ w.body, x.1 ∈ w.calls

theorem sendHeader_cases (w : ResponseWriter) (author : ReplyAuthor) (status : Nat) :
    w.sendHeader author status = w ∨
      w.sendHeader author status = { w with sent := some (author, status, w.header) } := by
  unfold ResponseWriter.sendHeader
  split
  next => exact .inl rfl
  next => exact .inr rfl

theorem ResponseWriter.Authored.apply {w : ResponseWriter} (h : w.Authored) (author : ReplyAuthor)
    (op : WriterOp) : (w.apply author op).Authored := by
  have hsent (status : Nat) (x : ReplyAuthor × Nat × ResponseHeaders)
      (hx : (w.sendHeader author status).sent = some x) : x.1 ∈ w.calls ++ [author] := by
    rcases sendHeader_cases w author status with heq | heq
    · rw [heq] at hx
      exact List.mem_append_left _ (h.sent x hx)
    · rw [heq] at hx
      cases hx
      exact List.mem_append_right _ (List.mem_singleton.2 rfl)
  have hbody (status : Nat) (x : ReplyAuthor × String)
      (hx : x ∈ (w.sendHeader author status).body) : x.1 ∈ w.calls ++ [author] := by
    apply List.mem_append_left
    rcases sendHeader_cases w author status with heq | heq <;> rw [heq] at hx <;>
      exact h.body x hx
  cases op with
  | contentType | contentLength | setHeader => exact ⟨h.sent, h.body⟩
  | writeHeader status => exact ⟨hsent status, hbody status⟩
  | write chunk =>
    rw [ResponseWriter.apply, ResponseWriter.append]
    split
    next => exact ⟨hsent 200, hbody 200⟩
    next =>
      refine ⟨hsent 200, ?_⟩
      intro x hx
      rcases List.mem_append.1 hx with hx | hx
      · exact hbody 200 x hx
      · rw [List.mem_singleton.1 hx]
        exact List.mem_append_right _ (List.mem_singleton.2 rfl)

/-- One reply is one status line and one body, of the same author. -/
theorem ResponseWriter.OneReply.author {w : ResponseWriter} (h : w.OneReply) (ha : w.Authored) :
    ∃ a, (∀ x, w.sent = some x → x.1 = a) ∧ ∀ x ∈ w.body, x.1 = a := by
  have honly : ∃ a, ∀ b ∈ w.calls, b = a := by
    rcases h with hno | hno
    · refine ⟨.middleware, ?_⟩
      intro b hb
      cases b with
      | handler => exact absurd hb hno
      | middleware => rfl
    · refine ⟨.handler, ?_⟩
      intro b hb
      cases b with
      | handler => rfl
      | middleware => exact absurd hb hno
  obtain ⟨a, hall⟩ := honly
  exact ⟨a, fun x hx => hall _ (ha.sent x hx), fun x hx => hall _ (ha.body x hx)⟩

/-- What a step does. -/
inductive TimeoutMove (s : TimeoutState) : TimeoutEvent → TimeoutState → Prop where
  | handler (op : WriterOp) :
    TimeoutMove s (.handler op) { s with writer := s.writer.apply .handler op }
  | handlerReturns : TimeoutMove s .handlerReturns { s with done := true }
  | ctxDone (err : ContextErr) : TimeoutMove s (.ctxDone err) { s with ctx := some err }
  | selectDone (hpc : s.pc = .select) : TimeoutMove s .selectDone { s with pc := .returned false }
  | canceled (hpc : s.pc = .select) (hctx : s.ctx = some .canceled) :
    TimeoutMove s .selectCtx { s with pc := .returned false }
  | deadline (hpc : s.pc = .select) (hctx : s.ctx = some .deadlineExceeded) :
    TimeoutMove s .selectCtx { s with pc := nextReply (jsonOps 504 timedOutBody) }
  | reply (hpc : s.pc = .json op ops) :
    TimeoutMove s .reply
      { s with writer := s.writer.apply .middleware op, pc := nextReply ops }

theorem timeoutStep_move (h : timeoutMachine.step s e = some t) : TimeoutMove s e t := by
  change timeoutStep s e = some t at h
  unfold timeoutStep at h
  cases e with
  | handler op =>
    dsimp only at h
    split at h
    next => cases h
    next =>
      cases h
      exact .handler op
  | handlerReturns =>
    dsimp only at h
    split at h
    next => cases h
    next =>
      cases h
      exact .handlerReturns
  | ctxDone err =>
    dsimp only at h
    split at h
    next => cases h
    next =>
      cases h
      exact .ctxDone err
  | selectDone =>
    dsimp only at h
    split at h
    next hpc =>
      split at h
      next =>
        cases h
        exact .selectDone hpc
      next => cases h
    all_goals cases h
  | selectCtx =>
    dsimp only at h
    split at h
    next hpc hctx =>
      cases h
      exact .deadline hpc hctx
    next hpc hctx =>
      cases h
      exact .canceled hpc hctx
    next => cases h
  | reply =>
    dsimp only at h
    split at h
    next hpc =>
      cases h
      exact .reply hpc
    all_goals cases h

theorem timedOut_nextReply (ops : List WriterOp) : (nextReply ops).TimedOut := by
  cases ops <;> trivial

/-- Before the branch of the deadline only the handler has written, and after it only the
middleware. -/
def TimeoutState.Apart (s : TimeoutState) : Prop :=
  (s.pc.TimedOut → .handler ∉ s.writer.calls) ∧ (¬s.pc.TimedOut → .middleware ∉ s.writer.calls)

theorem TimeoutState.Apart.oneReply (h : s.Apart) : s.writer.OneReply := by
  by_cases hpc : s.pc.TimedOut
  · exact .inl (h.1 hpc)
  · exact .inr (h.2 hpc)

theorem apart_start : timeoutStart.Apart := ⟨nofun, fun _ => List.not_mem_nil⟩

theorem apart_preserves : timeoutMachine.Preserves DeadlineApart TimeoutState.Apart := by
  rintro s e t ⟨hout, hin⟩ hs ⟨hwrite, hselect⟩
  cases timeoutStep_move hs with
  | handler op =>
    constructor
    · intro hpc hmem
      rcases mem_calls_apply.1 hmem with hold | ⟨-, hw⟩
      · exact hout hpc hold
      · exact hwrite op rfl hw hpc
    · intro hpc hmem
      rcases mem_calls_apply.1 hmem with hold | ⟨hauthor, -⟩
      · exact hin hpc hold
      · cases hauthor
  | handlerReturns | ctxDone err => exact ⟨hout, hin⟩
  | selectDone hpc | canceled hpc =>
    refine ⟨nofun, fun _ => hin ?_⟩
    rw [hpc]
    exact id
  | deadline hpc hctx =>
    refine ⟨fun _ => hselect rfl hctx, ?_⟩
    intro hnot
    exact absurd (timedOut_nextReply (jsonOps 504 timedOutBody)) hnot
  | @reply op ops hpc =>
    refine ⟨?_, fun hnot => absurd (timedOut_nextReply ops) hnot⟩
    intro _ hmem
    rcases mem_calls_apply.1 hmem with hold | ⟨hauthor, -⟩
    · rw [hpc] at hout
      exact hout trivial hold
    · cases hauthor

/-- In a run of such steps the status line and the whole body come from one side. -/
theorem timeout_one_author (h₀ : timeoutMachine.init s) (hr : timeoutMachine.run s es = some t)
    (hC : timeoutMachine.Always DeadlineApart s es) :
    ∃ a, (∀ x, t.writer.sent = some x → x.1 = a) ∧ ∀ x ∈ t.writer.body, x.1 = a := by
  have hinv : timeoutMachine.Invariant fun s => s.writer.Authored := by
    intro u e v hu hs _
    cases timeoutStep_move hs with
    | handler op => exact hu.apply .handler op
    | @reply op ops => exact hu.apply .middleware op
    | handlerReturns | ctxDone | selectDone | canceled | deadline => exact hu
  cases h₀
  have hstart : timeoutStart.writer.Authored := ⟨nofun, nofun⟩
  exact (apart_preserves.run apart_start hC hr).oneReply.author (hinv.run hstart hr)

/-- Once the branch of the deadline has been taken, the middleware has written or will write before
it returns. -/
def TimeoutPc.Owes (w : ResponseWriter) : TimeoutPc → Prop
  | .json op ops => .middleware ∈ w.calls ∨ ∃ o ∈ op :: ops, o.Writes
  | .returned true => .middleware ∈ w.calls
  | .select | .returned false => True

theorem TimeoutPc.Owes.mono {pc : TimeoutPc} (h : pc.Owes w)
    (hw : .middleware ∈ w.calls → .middleware ∈ w'.calls) : pc.Owes w' := by
  cases pc with
  | select => trivial
  | json op ops => exact h.imp_left hw
  | returned timedOut =>
    cases timedOut with
    | false => trivial
    | true => exact hw h

end Leetrank
