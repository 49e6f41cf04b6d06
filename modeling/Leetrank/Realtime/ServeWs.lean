import Mathlib.Data.Finset.Card
import Leetrank.Library.Threads
import Leetrank.Realtime.Hub
import Leetrank.Realtime.Limiter
import Leetrank.Strings

namespace Leetrank
set_option autoImplicit true

open EventMachine KeyedSets Threads

/-- What an upgrade request carries; a header or query parameter that is absent is empty. -/
structure UpgradeRequest where
  token : String
  channels : String
  authorization : String
  forwardedFor : String
  remoteAddr : String

def UpgradeRequest.bearer (r : UpgradeRequest) : String :=
  if r.token = "" then
    if Text.hasPrefix r.authorization "Bearer " then
      String.ofList (r.authorization.toList.drop "Bearer ".toList.length)
    else ""
  else r.token

/-- The subject of a token that `parse`, the JWT library with the secret, accepts. -/
def authVerify (parse : String → Option String) (token : String) : Option String :=
  if token = "" then none else parse token

def clientIP (r : UpgradeRequest) : String :=
  if r.forwardedFor ≠ "" then
    let first := r.forwardedFor.toList.takeWhile (· ≠ ',')
    if ',' ∈ r.forwardedFor.toList ∧ first ≠ [] then trimSpace (String.ofList first)
    else trimSpace r.forwardedFor
  else
    let host := (r.remoteAddr.toList.rdropWhile (· ≠ ':')).dropLast
    if host ≠ [] then String.ofList host else r.remoteAddr

/-- The channels that the handshake names. -/
def UpgradeRequest.named (r : UpgradeRequest) : List String :=
  ((Text.splitAt (· == ',') r.channels.toList).map fun c => trimSpace (String.ofList c)).filter
    (· ≠ "")

def initialChannels (r : UpgradeRequest) (sub : String) : List String :=
  if r.named = [] then ["verdicts:user:" ++ sub] else r.named

def channelAllowed (name : String) : Bool :=
  if 128 < name.utf8ByteSize then false
  else ["verdicts:user:", "contests:", "problems:", "global"].any fun p =>
    name == p || Text.hasPrefix name p

structure ClientCommand where
  action : String
  channel : String

structure ServerEvent where
  type : String
  channel : String
  error : String

/-- What the read loop does with the data of a message, which is `none` if it is invalid JSON: the
hub after it and the event that it writes back. -/
def readCommand (h : Hub) (c : Nat) (cmd : Option ClientCommand) : Hub × Option ServerEvent :=
  match cmd with
  | none => (h, some ⟨"error", "", "invalid json"⟩)
  | some cmd =>
    if cmd.action = "subscribe" then
      if cmd.channel = "" ∨ channelAllowed cmd.channel = false then
        (h, some ⟨"error", "", "bad channel"⟩)
      else (h.subscribe c cmd.channel, some ⟨"ack", cmd.channel, ""⟩)
    else if cmd.action = "unsubscribe" then
      if cmd.channel = "" then (h, none)
      else (h.unsubscribe c cmd.channel, some ⟨"ack", cmd.channel, ""⟩)
    else if cmd.action = "ping" then (h, some ⟨"pong", "", ""⟩)
    else (h, some ⟨"error", "", "unknown action"⟩)

theorem readCommand_clients (h : Hub) (c : Nat) (cmd : Option ClientCommand) :
    (readCommand h c cmd).1.clients = h.clients := by
  unfold readCommand
  cases cmd with
  | none => rfl
  | some cmd =>
    dsimp only
    split_ifs <;> rfl

/-- How the service leaves a request. -/
inductive ServeOutcome where
  | http (status : Nat) (body : String)
  | upgradeFailed
  | closed (code : Nat) (reason : String)

/-- Where `ServeWS` stands, and the shutdown of `main`. -/
inductive ServeThread where
  | start (r : UpgradeRequest)
  | verify (r : UpgradeRequest)
  | acquire (r : UpgradeRequest) (sub : String)
  | refused (sub ip reason : String)
  | refund (sub ip : String) (outcome : ServeOutcome)
  | accept (r : UpgradeRequest) (sub ip : String)
  | add (r : UpgradeRequest) (sub ip : String)
  | serving (r : UpgradeRequest) (sub ip : String)
  | leaving (r : UpgradeRequest) (sub ip : String)
  | closing (sub ip : String)
  | returned (outcome : ServeOutcome)
  | shutdown
  | drain
  | waiting
  | forceClose
  | drained (n : Nat)

inductive ServeStart where
  | attempt (r : UpgradeRequest)
  | shutdown

inductive ServeEvent where
  | next
  -- how `websocket.Accept` ends
  | upgrade (ok : Bool)
  | message (cmd : Option ClientCommand)
  | hangup
  | tick
  | deadline

structure Realtime where
  hub : Hub
  limiter : Limiter
  draining : Bool

variable {parse : String → Option String}

def serveStep (parse : String → Option String) (s : Realtime) (i : Nat) :
    ServeThread → ServeEvent → Option (Realtime × ServeThread)
  | .start r, .next =>
    if s.draining then some (s, .returned (.http 503 "shutting down")) else some (s, .verify r)
  | .verify r, .next =>
    match authVerify parse r.bearer with
    | none => some (s, .returned (.http 401 "unauthorized"))
    | some sub => some (s, .acquire r sub)
  | .acquire r sub, .next =>
    match s.limiter.acquire sub (clientIP r) with
    | .error reason => some (s, .refused sub (clientIP r) reason)
    | .ok limiter => some ({ s with limiter := limiter }, .accept r sub (clientIP r))
  | .refused sub ip reason, .upgrade ok =>
    some (s, .refund sub ip (if ok then .closed 1008 reason else .upgradeFailed))
  | .refund sub ip outcome, .next =>
    some ({ s with limiter := s.limiter.release sub ip }, .returned outcome)
  | .accept r sub ip, .upgrade ok =>
    if ok then some (s, .add r sub ip) else some (s, .returned .upgradeFailed)
  | .add r sub ip, .next =>
    some ({ s with hub := (s.hub.newClient i (initialChannels r sub)).add i }, .serving r sub ip)
  | .serving r sub ip, .message cmd =>
    some ({ s with hub := (readCommand s.hub i cmd).1 }, .serving r sub ip)
  | .serving r sub ip, .hangup => some (s, .leaving r sub ip)
  | .leaving _ sub ip, .next => some ({ s with hub := s.hub.remove i }, .closing sub ip)
  | .closing sub ip, .next =>
    some ({ s with limiter := s.limiter.release sub ip }, .returned (.closed 1000 "bye"))
  | .shutdown, .next =>
    -- a channel is closed once
    if s.draining then none else some ({ s with draining := true }, .drain)
  | .drain, .next =>
    if s.hub.clients.card = 0 then some (s, .drained 0) else some (s, .waiting)
  | .waiting, .tick => some (s, .drain)
  | .waiting, .deadline => some (s, .forceClose)
  | .forceClose, .next => some (s, .drained s.hub.clients.card)
  | _, _ => none

def serveProgram (parse : String → Option String) :
    Program Realtime ServeThread ServeStart Empty ServeEvent where
  start := fun _ a =>
    match a with
    | .attempt r => .start r
    | .shutdown => .shutdown
  ambient := fun _ x => x.elim
  step := serveStep parse

def Realtime.new (perSubject perIP : Int) : Realtime :=
  ⟨.new, NewLimiter perSubject perIP, false⟩

def serveMachine (parse : String → Option String) (perSubject perIP : Int) :
    Machine (World Realtime ServeThread) (Event ServeStart Empty ServeEvent) :=
  (serveProgram parse).machine (· = .new perSubject perIP)

/-- What a step of a thread can do. -/
inductive ServeMove (parse : String → Option String) (s : Realtime) (i : Nat) :
    ServeThread → ServeEvent → Realtime → ServeThread → Prop where
  | unavailable (r : UpgradeRequest) (hd : s.draining) :
    ServeMove parse s i (.start r) .next s (.returned (.http 503 "shutting down"))
  | proceed (r : UpgradeRequest) (hd : s.draining = false) :
    ServeMove parse s i (.start r) .next s (.verify r)
  | unauthorized (r : UpgradeRequest) (hv : authVerify parse r.bearer = none) :
    ServeMove parse s i (.verify r) .next s (.returned (.http 401 "unauthorized"))
  | authorized (r : UpgradeRequest) (sub : String)
    (hv : authVerify parse r.bearer = some sub) :
    ServeMove parse s i (.verify r) .next s (.acquire r sub)
  | refuse (r : UpgradeRequest) (sub reason : String)
    (ha : s.limiter.acquire sub (clientIP r) = .error reason) :
    ServeMove parse s i (.acquire r sub) .next s (.refused sub (clientIP r) reason)
  | admitted (r : UpgradeRequest) (sub : String) (limiter : Limiter)
    (ha : s.limiter.acquire sub (clientIP r) = .ok limiter) :
    ServeMove parse s i (.acquire r sub) .next { s with limiter := limiter }
      (.accept r sub (clientIP r))
  | turnAway (sub ip reason : String) (ok : Bool) :
    ServeMove parse s i (.refused sub ip reason) (.upgrade ok) s
      (.refund sub ip (if ok then .closed 1008 reason else .upgradeFailed))
  | refund (sub ip : String) (outcome : ServeOutcome) :
    ServeMove parse s i (.refund sub ip outcome) .next
      { s with limiter := s.limiter.release sub ip } (.returned outcome)
  | upgraded (r : UpgradeRequest) (sub ip : String) :
    ServeMove parse s i (.accept r sub ip) (.upgrade true) s (.add r sub ip)
  | upgradeFailed (r : UpgradeRequest) (sub ip : String) :
    ServeMove parse s i (.accept r sub ip) (.upgrade false) s (.returned .upgradeFailed)
  | register (r : UpgradeRequest) (sub ip : String) :
    ServeMove parse s i (.add r sub ip) .next
      { s with hub := (s.hub.newClient i (initialChannels r sub)).add i } (.serving r sub ip)
  | message (r : UpgradeRequest) (sub ip : String) (cmd : Option ClientCommand) :
    ServeMove parse s i (.serving r sub ip) (.message cmd)
      { s with hub := (readCommand s.hub i cmd).1 } (.serving r sub ip)
  | hangup (r : UpgradeRequest) (sub ip : String) :
    ServeMove parse s i (.serving r sub ip) .hangup s (.leaving r sub ip)
  | unregister (r : UpgradeRequest) (sub ip : String) :
    ServeMove parse s i (.leaving r sub ip) .next { s with hub := s.hub.remove i }
      (.closing sub ip)
  | release (sub ip : String) :
    ServeMove parse s i (.closing sub ip) .next
      { s with limiter := s.limiter.release sub ip } (.returned (.closed 1000 "bye"))
  | close (hd : s.draining = false) :
    ServeMove parse s i .shutdown .next { s with draining := true } .drain
  | empty (hn : s.hub.clients = ∅) : ServeMove parse s i .drain .next s (.drained 0)
  | wait (hn : s.hub.clients ≠ ∅) : ServeMove parse s i .drain .next s .waiting
  | tick : ServeMove parse s i .waiting .tick s .drain
  | deadline : ServeMove parse s i .waiting .deadline s .forceClose
  | force : ServeMove parse s i .forceClose .next s (.drained s.hub.clients.card)

theorem serveStep_move {s s' : Realtime} (hs : serveStep parse s i p e = some (s', p')) :
    ServeMove parse s i p e s' p' := by
  unfold serveStep at hs
  split at hs
  next r =>
    split at hs
    next hd =>
      cases hs
      exact .unavailable r hd
    next hd =>
      cases hs
      exact .proceed r (Bool.eq_false_of_not_eq_true hd)
  next r =>
    split at hs
    next hv =>
      cases hs
      exact .unauthorized r hv
    next sub hv =>
      cases hs
      exact .authorized r sub hv
  next r sub =>
    split at hs
    next reason ha =>
      cases hs
      exact .refuse r sub reason ha
    next limiter ha =>
      cases hs
      exact .admitted r sub limiter ha
  next sub ip reason ok =>
    cases hs
    exact .turnAway sub ip reason ok
  next sub ip outcome =>
    cases hs
    exact .refund sub ip outcome
  next r sub ip ok =>
    cases ok with
    | true =>
      cases hs
      exact .upgraded r sub ip
    | false =>
      cases hs
      exact .upgradeFailed r sub ip
  next r sub ip =>
    cases hs
    exact .register r sub ip
  next r sub ip cmd =>
    cases hs
    exact .message r sub ip cmd
  next r sub ip =>
    cases hs
    exact .hangup r sub ip
  next r sub ip =>
    cases hs
    exact .unregister r sub ip
  next sub ip =>
    cases hs
    exact .release sub ip
  next =>
    split at hs
    next => cases hs
    next hd =>
      cases hs
      exact .close (Bool.eq_false_of_not_eq_true hd)
  next =>
    split at hs
    next hn =>
      cases hs
      exact .empty (Finset.card_eq_zero.1 hn)
    next hn =>
      cases hs
      exact .wait (mt Finset.card_eq_zero.2 hn)
  next =>
    cases hs
    exact .tick
  next =>
    cases hs
    exact .deadline
  next =>
    cases hs
    exact .force
  next => cases hs

end Leetrank
