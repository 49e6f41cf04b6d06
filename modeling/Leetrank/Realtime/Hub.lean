import Leetrank.Library.Multimap

namespace Leetrank
set_option autoImplicit true

open KeyedSets

def ClientSendBuffer : Nat := 64

structure Message where
  channel : String
  payload : String

/-- A client object: its channels, the buffer of its `send` channel, and the messages that its
write loop has taken from the buffer. -/
structure HubClient where
  channels : Finset String
  send : List Message
  written : List Message

/-- The hub, with the client objects at the addresses where one was allocated. -/
structure Hub where
  clients : Finset Nat
  bySub : Multimap String Nat
  objects : Nat → Option HubClient

def Hub.new : Hub := ⟨∅, fun _ => none, fun _ => none⟩

variable {h : Hub} {c : Nat}

def Hub.client (h : Hub) (c : Nat) : HubClient := (h.objects c).getD ⟨∅, [], []⟩

def Hub.setClient (h : Hub) (c : Nat) (object : HubClient) : Hub :=
  { h with objects := Function.update h.objects c (some object) }

def Hub.newClient (h : Hub) (c : Nat) (initial : List String) : Hub :=
  h.setClient c ⟨initial.toFinset, [], []⟩

def Hub.add (h : Hub) (c : Nat) : Hub :=
  { h with
    clients := insert c h.clients
    bySub := h.bySub.link (h.client c).channels c }

def Hub.remove (h : Hub) (c : Nat) : Hub :=
  { h with
    clients := h.clients.erase c
    bySub := h.bySub.unlink (h.client c).channels c }

def Hub.subscribe (h : Hub) (c : Nat) (ch : String) : Hub :=
  { h.setClient c { h.client c with channels := insert ch (h.client c).channels } with
    bySub := h.bySub.link {ch} c }

def Hub.unsubscribe (h : Hub) (c : Nat) (ch : String) : Hub :=
  { h.setClient c { h.client c with channels := (h.client c).channels.erase ch } with
    bySub := h.bySub.unlink {ch} c }

/-- Whether a message can be put in the buffer of a client without waiting. -/
def Hub.hasRoom (h : Hub) (c : Nat) : Bool := (h.client c).send.length < ClientSendBuffer

/-- The `select` with a default: a message for a full buffer is dropped. -/
def Hub.trySend (h : Hub) (c : Nat) (m : Message) : Hub :=
  if h.hasRoom c then
    h.setClient c { h.client c with send := (h.client c).send ++ [m] }
  else h

/-- The write loop takes a message from the buffer. -/
def Hub.recv (h : Hub) (c : Nat) : Option Hub :=
  match (h.client c).send with
  | [] => none
  | m :: send =>
    some (h.setClient c { h.client c with send := send, written := (h.client c).written ++ [m] })

/-- Who a message on the channel is for. -/
def Hub.subscribers (h : Hub) (ch : String) : Finset Nat := h.bySub.get ch

/-- The two indexes agree: a client is under a channel if and only if it is registered and has the
channel, and no channel is kept without clients. -/
structure Hub.Routed (h : Hub) : Prop where
  subscribed : ∀ c ch, c ∈ h.subscribers ch ↔ c ∈ h.clients ∧ ch ∈ (h.client c).channels
  tidy : h.bySub.Tidy

theorem Hub.setClient_client (h : Hub) (c c' : Nat) (object : HubClient) :
    (h.setClient c object).client c' = if c' = c then object else h.client c' := by
  simp only [Hub.client, Hub.setClient, Function.update_apply]
  split <;> rfl

theorem Hub.subscribe_client (h : Hub) (c c' : Nat) (ch : String) :
    (h.subscribe c ch).client c' =
      if c' = c then { h.client c with channels := insert ch (h.client c).channels }
      else h.client c' :=
  h.setClient_client ..

theorem Hub.unsubscribe_client (h : Hub) (c c' : Nat) (ch : String) :
    (h.unsubscribe c ch).client c' =
      if c' = c then { h.client c with channels := (h.client c).channels.erase ch }
      else h.client c' :=
  h.setClient_client ..

theorem Hub.mem_subscribers_add (h : Hub) (c c' : Nat) (ch : String) :
    c' ∈ (h.add c).subscribers ch ↔
      (c' = c ∧ ch ∈ (h.client c).channels) ∨ c' ∈ h.subscribers ch :=
  Multimap.mem_get_link ..

theorem Hub.mem_subscribers_remove (h : Hub) (c c' : Nat) (ch : String) :
    c' ∈ (h.remove c).subscribers ch ↔
      ¬(c' = c ∧ ch ∈ (h.client c).channels) ∧ c' ∈ h.subscribers ch :=
  Multimap.mem_get_unlink ..

theorem Hub.mem_subscribers_subscribe (h : Hub) (c c' : Nat) (ch ch' : String) :
    c' ∈ (h.subscribe c ch).subscribers ch' ↔ (c' = c ∧ ch' = ch) ∨ c' ∈ h.subscribers ch' := by
  rw [← Finset.mem_singleton (a := ch)]
  exact Multimap.mem_get_link ..

theorem Hub.mem_subscribers_unsubscribe (h : Hub) (c c' : Nat) (ch ch' : String) :
    c' ∈ (h.unsubscribe c ch).subscribers ch' ↔
      ¬(c' = c ∧ ch' = ch) ∧ c' ∈ h.subscribers ch' := by
  rw [← Finset.mem_singleton (a := ch)]
  exact Multimap.mem_get_unlink ..

theorem Hub.routed_new : Hub.new.Routed := by
  constructor
  · intro c ch
    simp [Hub.subscribers, Multimap.get, Hub.new]
  · intro ch
    simp [Hub.new]

/-- The object of a client can change if its channels do not, or if it is not registered. -/
theorem Hub.Routed.setClient {object : HubClient} (hr : h.Routed)
    (hc : c ∈ h.clients → object.channels = (h.client c).channels) :
    (h.setClient c object).Routed := by
  constructor
  · intro c' ch
    rw [Hub.setClient_client]
    change c' ∈ h.subscribers ch ↔ c' ∈ h.clients ∧ _
    rw [hr.subscribed]
    split
    next heq =>
      subst heq
      exact and_congr_right fun hreg => by rw [hc hreg]
    next => rfl
  · exact hr.tidy

theorem Hub.Routed.newClient (hr : h.Routed) (hc : c ∉ h.clients) (initial : List String) :
    (h.newClient c initial).Routed :=
  hr.setClient fun hreg => absurd hreg hc

theorem Hub.Routed.add (hr : h.Routed) (c : Nat) : (h.add c).Routed := by
  constructor
  · intro c' ch
    rw [Hub.mem_subscribers_add, hr.subscribed]
    simp only [Hub.add, Finset.mem_insert]
    by_cases heq : c' = c
    · subst heq
      tauto
    · tauto
  · exact hr.tidy.link _ _

theorem Hub.Routed.remove (hr : h.Routed) (c : Nat) : (h.remove c).Routed := by
  constructor
  · intro c' ch
    rw [Hub.mem_subscribers_remove, hr.subscribed]
    simp only [Hub.remove, Finset.mem_erase]
    by_cases heq : c' = c
    · subst heq
      tauto
    · tauto
  · exact hr.tidy.unlink _ _

theorem Hub.Routed.subscribe (hr : h.Routed) (hc : c ∈ h.clients) (ch : String) :
    (h.subscribe c ch).Routed := by
  constructor
  · intro c' ch'
    rw [Hub.mem_subscribers_subscribe, hr.subscribed, Hub.subscribe_client]
    change _ ↔ c' ∈ h.clients ∧ _
    split
    next heq =>
      subst heq
      rw [Finset.mem_insert]
      tauto
    next heq => tauto
  · exact hr.tidy.link _ _

theorem Hub.Routed.unsubscribe (hr : h.Routed) (c : Nat) (ch : String) :
    (h.unsubscribe c ch).Routed := by
  constructor
  · intro c' ch'
    rw [Hub.mem_subscribers_unsubscribe, hr.subscribed, Hub.unsubscribe_client]
    change _ ↔ c' ∈ h.clients ∧ _
    split
    next heq =>
      subst heq
      rw [Finset.mem_erase]
      tauto
    next heq => tauto
  · exact hr.tidy.unlink _ _

theorem Hub.Routed.trySend (hr : h.Routed) (c : Nat) (m : Message) : (h.trySend c m).Routed := by
  rw [Hub.trySend]
  split
  · exact hr.setClient fun _ => rfl
  · exact hr

theorem Hub.Routed.recv (hr : h.Routed) (hs : h.recv c = some h') : h'.Routed := by
  rw [Hub.recv] at hs
  split at hs
  next => cases hs
  next m send _ =>
    cases hs
    exact hr.setClient fun _ => rfl

/-- A client that is not registered is under no channel. -/
theorem Hub.Routed.notMem_subscribers (hr : h.Routed) (hc : c ∉ h.clients) (ch : String) :
    c ∉ h.subscribers ch :=
  fun hs => hc ((hr.subscribed c ch).1 hs).1

end Leetrank
