import Leetrank.Library.Threads
import Leetrank.Realtime.Hub

namespace Leetrank
set_option autoImplicit true

open EventMachine KeyedSets Threads

/-- A fanout over the slice that it copied: whom it has tried, with what came of it, and whom it
has still to try. -/
structure Fanout where
  message : Message
  tried : List (Nat × Bool)
  rest : List Nat
  once : (tried.map Prod.fst ++ rest).Nodup

def Fanout.start (message : Message) (slice : List Nat) (h : slice.Nodup) : Fanout :=
  ⟨message, [], slice, h⟩

def Fanout.advance {later : List Nat} (f : Fanout) (h : f.rest = c :: later) (room : Bool) :
    Fanout where
  message := f.message
  tried := f.tried ++ [(c, room)]
  rest := later
  once := by
    have hn := f.once
    rw [h] at hn
    simpa using hn

/-- The clients whose buffer took the message. -/
def Fanout.delivered (f : Fanout) (c : Nat) : Bool := decide ((c, true) ∈ f.tried)

inductive HubThread where
  | fresh (initial : List String)
  | created
  | registered
  | removed
  | publishing (m : Message)
  | sending (f : Fanout)

/-- The life of a client, or a fanout. -/
inductive HubStart where
  | client (initial : List String)
  | fanout (m : Message)

inductive HubEvent where
  | next
  | subscribe (ch : String)
  | unsubscribe (ch : String)
  | remove
  | recv
  | copy (slice : List Nat)

def hubStep (h : Hub) (i : Nat) : HubThread → HubEvent → Option (Hub × HubThread)
  | .fresh initial, .next => some (h.newClient i initial, .created)
  | .created, .next => some (h.add i, .registered)
  | .registered, .subscribe ch => some (h.subscribe i ch, .registered)
  | .registered, .unsubscribe ch => some (h.unsubscribe i ch, .registered)
  | .registered, .remove => some (h.remove i, .removed)
  | .registered, .recv => (h.recv i).map (·, .registered)
  | .removed, .recv => (h.recv i).map (·, .removed)
  | .publishing m, .copy slice =>
    -- a map is ranged over in any order
    if hs : slice.Nodup ∧ slice.toFinset = h.subscribers m.channel then
      some (h, .sending (.start m slice hs.1))
    else none
  | .sending f, .next =>
    match hf : f.rest with
    | [] => none
    | c :: _ => some (h.trySend c f.message, .sending (f.advance hf (h.hasRoom c)))
  | _, _ => none

def hubProgram : Program Hub HubThread HubStart Empty HubEvent where
  start := fun _ a =>
    match a with
    | .client initial => .fresh initial
    | .fanout m => .publishing m
  ambient := fun _ x => x.elim
  step := hubStep

def hubMachine : Machine (World Hub HubThread) (Event HubStart Empty HubEvent) :=
  hubProgram.machine fun h => h = .new

/-- What a step of a thread can do. -/
inductive HubMove (h : Hub) (i : Nat) : HubThread → Hub → HubThread → Prop where
  | create (initial : List String) :
    HubMove h i (.fresh initial) (h.newClient i initial) .created
  | add : HubMove h i .created (h.add i) .registered
  | subscribe (ch : String) : HubMove h i .registered (h.subscribe i ch) .registered
  | unsubscribe (ch : String) : HubMove h i .registered (h.unsubscribe i ch) .registered
  | remove : HubMove h i .registered (h.remove i) .removed
  | recv (hp : p = .registered ∨ p = .removed) (hr : h.recv i = some h') : HubMove h i p h' p
  | copy (m : Message) (slice : List Nat) (hn : slice.Nodup)
    (hs : slice.toFinset = h.subscribers m.channel) :
    HubMove h i (.publishing m) h (.sending (.start m slice hn))
  | send {later : List Nat} (f : Fanout) (c : Nat) (hf : f.rest = c :: later) :
    HubMove h i (.sending f) (h.trySend c f.message) (.sending (f.advance hf (h.hasRoom c)))

variable {h h' : Hub} {i c : Nat}

theorem hubStep_move (hs : hubStep h i p e = some (h', p')) : HubMove h i p h' p' := by
  unfold hubStep at hs
  split at hs
  next initial =>
    cases hs
    exact .create initial
  next =>
    cases hs
    exact .add
  next ch =>
    cases hs
    exact .subscribe ch
  next ch =>
    cases hs
    exact .unsubscribe ch
  next =>
    cases hs
    exact .remove
  next =>
    obtain ⟨u, hu, he⟩ := Option.map_eq_some_iff.1 hs
    cases he
    exact .recv (.inl rfl) hu
  next =>
    obtain ⟨u, hu, he⟩ := Option.map_eq_some_iff.1 hs
    cases he
    exact .recv (.inr rfl) hu
  next m slice =>
    split at hs
    next hslice =>
      cases hs
      exact .copy m slice hslice.1 hslice.2
    next => cases hs
  next f =>
    split at hs
    next => cases hs
    next c later hf =>
      cases hs
      exact .send f c hf
  next => cases hs

/-- What is known of the hub by where a thread is. -/
def HubThread.Knows (h : Hub) (i : Nat) : Option HubThread → Prop
  | none | some (.fresh _) => i ∉ h.clients ∧ h.objects i = none
  | some .created => i ∉ h.clients ∧ (h.objects i).isSome
  | some .registered => i ∈ h.clients
  | some .removed | some (.publishing _) => i ∉ h.clients
  | some (.sending f) => i ∉ h.clients ∧ ∀ c ∈ f.rest, (h.objects c).isSome

/-- The indexes agree, and only clients that were allocated are registered. -/
structure Hub.Sound (h : Hub) : Prop where
  routed : h.Routed
  allocated : ∀ c ∈ h.clients, (h.objects c).isSome

/-- A step for the client `i` or for clients that were allocated. -/
structure Hub.Touches (h h' : Hub) (i : Nat) : Prop where
  clients : ∀ j, j ≠ i → (j ∈ h'.clients ↔ j ∈ h.clients)
  kept : ∀ j, (h.objects j).isSome → (h'.objects j).isSome
  free : ∀ j, j ≠ i → h.objects j = none → h'.objects j = none

theorem HubThread.Knows.frame (ht : h.Touches h' i) (hj : j ≠ i) (hk : HubThread.Knows h j o) :
    HubThread.Knows h' j o := by
  cases o with
  | none => exact ⟨(ht.clients j hj).not.2 hk.1, ht.free j hj hk.2⟩
  | some p =>
    cases p with
    | fresh initial => exact ⟨(ht.clients j hj).not.2 hk.1, ht.free j hj hk.2⟩
    | created => exact ⟨(ht.clients j hj).not.2 hk.1, ht.kept j hk.2⟩
    | registered => exact (ht.clients j hj).2 hk
    | removed => exact (ht.clients j hj).not.2 hk
    | publishing m => exact (ht.clients j hj).not.2 hk
    | sending f => exact ⟨(ht.clients j hj).not.2 hk.1, fun c hc => ht.kept c (hk.2 c hc)⟩

theorem Hub.Touches.refl (h : Hub) (i : Nat) : h.Touches h i :=
  ⟨fun _ _ => Iff.rfl, fun _ hj => hj, fun _ _ hj => hj⟩

theorem Hub.touches_of_update {object : HubClient} (hclients : h'.clients = h.clients)
    (hobjects : h'.objects = Function.update h.objects c (some object))
    (hc : c = i ∨ (h.objects c).isSome) : h.Touches h' i := by
  constructor
  case clients => exact fun j _ => by rw [hclients]
  case kept =>
    intro j hj
    rw [hobjects, Function.update_apply]
    split
    · rfl
    · exact hj
  case free =>
    intro j hj hnone
    have hne : j ≠ c := by
      rintro rfl
      rcases hc with rfl | hc
      · exact hj rfl
      · rw [hnone] at hc
        cases hc
    rw [hobjects, Function.update_of_ne hne]
    exact hnone

theorem Hub.touches_trySend (m : Message) (hc : (h.objects c).isSome) (i : Nat) :
    h.Touches (h.trySend c m) i := by
  rw [Hub.trySend]
  split
  · exact Hub.touches_of_update rfl rfl (.inr hc)
  · exact .refl h i

theorem Hub.touches_recv (hr : h.recv i = some h') : h.Touches h' i := by
  rw [Hub.recv] at hr
  split at hr
  next => cases hr
  next m send _ =>
    cases hr
    exact Hub.touches_of_update rfl rfl (.inl rfl)

theorem HubMove.touches (hm : HubMove h i p h' p') (hk : HubThread.Knows h i (some p)) :
    h.Touches h' i := by
  cases hm with
  | create initial => exact Hub.touches_of_update rfl rfl (.inl rfl)
  | add =>
    refine ⟨fun j hj => ?_, fun _ hj => hj, fun _ _ hj => hj⟩
    simp [Hub.add, hj]
  | subscribe ch => exact Hub.touches_of_update rfl rfl (.inl rfl)
  | unsubscribe ch => exact Hub.touches_of_update rfl rfl (.inl rfl)
  | remove =>
    refine ⟨fun j hj => ?_, fun _ hj => hj, fun _ _ hj => hj⟩
    simp [Hub.remove, hj]
  | recv hp hr => exact Hub.touches_recv hr
  | copy m slice hn hs => exact .refl h i
  | send f c hf =>
    exact Hub.touches_trySend f.message (hk.2 c (hf ▸ List.mem_cons_self)) i

theorem Hub.recv_clients (hr : h.recv c = some h') : h'.clients = h.clients := by
  rw [Hub.recv] at hr
  split at hr
  next => cases hr
  next m send _ =>
    cases hr
    rfl

theorem Hub.trySend_clients (h : Hub) (c : Nat) (m : Message) :
    (h.trySend c m).clients = h.clients := by
  rw [Hub.trySend]
  split <;> rfl

theorem HubMove.routed (hm : HubMove h i p h' p') (hr : h.Routed)
    (hk : HubThread.Knows h i (some p)) : h'.Routed := by
  cases hm with
  | create initial => exact hr.newClient hk.1 initial
  | add => exact hr.add i
  | subscribe ch => exact hr.subscribe hk ch
  | unsubscribe ch => exact hr.unsubscribe i ch
  | remove => exact hr.remove i
  | recv hp hrecv => exact hr.recv hrecv
  | copy m slice hn hs => exact hr
  | send f c hf => exact hr.trySend c f.message

/-- A step establishes what its thread knows after it. -/
theorem HubMove.knows (hm : HubMove h i p h' p') (hs : h.Sound)
    (hk : HubThread.Knows h i (some p)) : HubThread.Knows h' i (some p') := by
  have ht := hm.touches hk
  cases hm with
  | create initial =>
    refine ⟨hk.1, ?_⟩
    simp [Hub.newClient, Hub.setClient]
  | add => exact Finset.mem_insert_self i h.clients
  | subscribe ch => exact hk
  | unsubscribe ch => exact hk
  | remove => exact Finset.notMem_erase i h.clients
  | recv hp hr =>
    rcases hp with rfl | rfl
    · change i ∈ h'.clients
      rw [Hub.recv_clients hr]
      exact hk
    · change i ∉ h'.clients
      rw [Hub.recv_clients hr]
      exact hk
  | copy m slice hn hslice =>
    refine ⟨hk, fun c hc => hs.allocated c ?_⟩
    have hsub : c ∈ h.subscribers m.channel := hslice ▸ List.mem_toFinset.2 hc
    exact ((hs.routed.subscribed c m.channel).1 hsub).1
  | send f c hf =>
    refine ⟨?_, fun c' hc' => ht.kept c' (hk.2 c' ?_)⟩
    · rw [Hub.trySend_clients]
      exact hk.1
    · rw [hf]
      exact List.mem_cons_of_mem c hc'

theorem HubMove.sound (hm : HubMove h i p h' p') (hs : h.Sound)
    (hk : HubThread.Knows h i (some p)) : h'.Sound := by
  have ht := hm.touches hk
  refine ⟨hm.routed hs.routed hk, fun c hc => ht.kept c ?_⟩
  by_cases hci : c = i
  · subst hci
    cases hm with
    | create initial => exact absurd hc hk.1
    | add => exact hk.2
    | subscribe ch => exact hs.allocated c hk
    | unsubscribe ch => exact hs.allocated c hk
    | remove => exact hs.allocated c hk
    | recv hp hr => exact hs.allocated c (Hub.recv_clients hr ▸ hc)
    | copy m slice hn hslice => exact absurd hc hk
    | send f c' hf => exact absurd (Hub.trySend_clients h c' f.message ▸ hc) hk.1
  · exact hs.allocated c ((ht.clients c hci).1 hc)

theorem hub_stable : hubProgram.Stable (fun _ _ _ _ => True) Hub.Sound HubThread.Knows where
  start := by
    intro h i a _ hk
    cases a with
    | client initial => exact hk
    | fanout m => exact hk.1
  ambient := fun _ x => x.elim
  step := by
    intro h i p e h' p' hs hk _ hstep
    have hm := hubStep_move hstep
    exact ⟨hm.sound hs hk, hm.knows hs hk, fun j o hj hj' => hj'.frame (hm.touches hk) hj⟩

variable {w w' w₀ : World Hub HubThread} {es : List (Event HubStart Empty HubEvent)}

theorem hub_holds (h₀ : hubMachine.init w₀) (hr : hubMachine.run w₀ es = some w) :
    Holds Hub.Sound HubThread.Knows w := by
  refine (hub_stable.preserves _).run (holds_start h₀ ?_) (OnSteps.always_true w₀ es) hr
  rintro h rfl
  refine ⟨⟨Hub.routed_new, fun c hc => absurd hc (Finset.notMem_empty c)⟩, fun i => ?_⟩
  exact ⟨Finset.notMem_empty i, rfl⟩

/-- How many messages the buffer of a client has taken. -/
def Hub.enqueued (h : Hub) (c : Nat) : Int :=
  ((h.client c).written.length + (h.client c).send.length : Nat)

def HubThread.delivered (c : Nat) : HubThread → Bool
  | .sending f => f.delivered c
  | _ => false

theorem Hub.enqueued_of_free (hc : h.objects c = none) : h.enqueued c = 0 := by
  simp [Hub.enqueued, Hub.client, hc]

theorem Hub.enqueued_setClient (h : Hub) (c c' : Nat) (object : HubClient) :
    (h.setClient c object).enqueued c' =
      if c' = c then ((object.written.length + object.send.length : Nat) : Int)
      else h.enqueued c' := by
  rw [Hub.enqueued, Hub.setClient_client]
  split <;> rfl

theorem Hub.enqueued_subscribe (h : Hub) (c c' : Nat) (ch : String) :
    (h.subscribe c ch).enqueued c' = h.enqueued c' := by
  rw [Hub.enqueued, Hub.subscribe_client]
  split
  next hc => rw [hc, Hub.enqueued]
  next => rfl

theorem Hub.enqueued_unsubscribe (h : Hub) (c c' : Nat) (ch : String) :
    (h.unsubscribe c ch).enqueued c' = h.enqueued c' := by
  rw [Hub.enqueued, Hub.unsubscribe_client]
  split
  next hc => rw [hc, Hub.enqueued]
  next => rfl

theorem Hub.enqueued_recv (hr : h.recv c = some h') (c' : Nat) :
    h'.enqueued c' = h.enqueued c' := by
  rw [Hub.recv] at hr
  split at hr
  next => cases hr
  next m send hs =>
    cases hr
    rw [Hub.enqueued_setClient]
    split
    next hc =>
      rw [hc, Hub.enqueued, hs]
      simp only [List.length_append, List.length_cons, List.length_nil]
      omega
    next => rfl

theorem Hub.enqueued_trySend (h : Hub) (c c' : Nat) (m : Message) :
    (h.trySend c m).enqueued c' = h.enqueued c' + (decide (c' = c) && h.hasRoom c).toInt := by
  rw [Hub.trySend]
  split
  next hroom =>
    rw [Hub.enqueued_setClient, hroom]
    split
    next hc =>
      rw [hc, Hub.enqueued]
      simp only [List.length_append, List.length_cons, List.length_nil]
      simp
      omega
    next hc => simp [hc]
  next hroom => simp [hroom]

theorem Fanout.delivered_advance {later : List Nat} (f : Fanout) (hf : f.rest = c :: later)
    (room : Bool) (c' : Nat) :
    ((f.advance hf room).delivered c').toInt =
      (f.delivered c').toInt + (decide (c' = c) && room).toInt := by
  have hn := f.once
  rw [hf, List.nodup_append] at hn
  have hfresh : (c, true) ∉ f.tried := fun hc =>
    hn.2.2 c (List.mem_map_of_mem (f := Prod.fst) hc) c List.mem_cons_self rfl
  by_cases hc : c' = c
  · subst hc
    cases room <;> simp [Fanout.delivered, Fanout.advance, hfresh]
  · simp [Fanout.delivered, Fanout.advance, hc]

/-- A fanout adds one message to the buffers that it reports as delivered, and no one else adds
any. -/
theorem enqueued_accounts (c : Nat) :
    hubProgram.AccountsUnder (fun h i p _ => HubThread.Knows h i (some p)) (·.enqueued c)
      (HubThread.delivered c) where
  start := by
    intro h a
    cases a <;> rfl
  ambient := fun _ x => x.elim
  step := by
    intro h i p e h' p' hk hstep
    cases hubStep_move hstep with
    | create initial =>
      change (h.newClient i initial).enqueued c - _ = 0
      rw [Hub.newClient, Hub.enqueued_setClient]
      split
      next hc =>
        rw [hc, Hub.enqueued_of_free hk.2]
        rfl
      next => omega
    | add => exact Int.sub_self _
    | subscribe ch => exact Int.sub_eq_zero.2 (Hub.enqueued_subscribe h i c ch)
    | unsubscribe ch => exact Int.sub_eq_zero.2 (Hub.enqueued_unsubscribe h i c ch)
    | remove => exact Int.sub_self _
    | recv hp hr =>
      rw [Hub.enqueued_recv hr]
      omega
    | copy m slice hn hs =>
      simp [HubThread.delivered, Fanout.delivered, Fanout.start]
    | send f c' hf =>
      change (h.trySend c' f.message).enqueued c - h.enqueued c =
        ((f.advance hf (h.hasRoom c')).delivered c).toInt - (f.delivered c).toInt
      rw [Hub.enqueued_trySend, Fanout.delivered_advance]
      omega

/-- The thread is a fanout of the message over the slice. -/
def SendsOut (i : Nat) (m : Message) (slice : List Nat) (w : World Hub HubThread) : Prop :=
  ∃ f, w.threads[i]? = some (.sending f) ∧ f.message = m ∧
    f.tried.map Prod.fst ++ f.rest = slice

theorem sendsOut_invariant : hubMachine.Invariant (SendsOut i m slice) := by
  rintro w e w' ⟨f, hi, hm, hslice⟩ hstep -
  obtain hi' | ⟨x, p', rfl, hs, hi'⟩ := Program.next_thread hstep hi
  · exact ⟨f, hi', hm, hslice⟩
  · have hmove := hubStep_move hs
    generalize w'.shared = h' at hmove
    cases hmove with
    | recv hp hr => rcases hp with hp | hp <;> cases hp
    | send f c hf =>
      refine ⟨_, hi', hm, ?_⟩
      rw [← hslice, hf]
      simp [Fanout.advance]

theorem hubStep_copy {m : Message} {slice : List Nat}
    (hs : hubStep h i (.publishing m) (.copy slice) = some (h', p')) :
    slice.toFinset = h.subscribers m.channel ∧ h' = h ∧
      ∃ hn, p' = .sending (.start m slice hn) := by
  unfold hubStep at hs
  obtain ⟨hslice, hs⟩ := Option.dite_none_right_eq_some.1 hs
  cases hs
  exact ⟨hslice.2, rfl, hslice.1, rfl⟩

theorem hubStep_send {f : Fanout} {later : List Nat} (h : Hub) (i : Nat)
    (hf : f.rest = c :: later) :
    hubStep h i (.sending f) .next =
      some (h.trySend c f.message, .sending (f.advance hf (h.hasRoom c))) := by
  obtain ⟨message, tried, rest, once⟩ := f
  cases hf
  rfl

/-- What a fanout adds to a buffer from its snapshot on. -/
theorem fanout_contribution (hu : Holds Hub.Sound HubThread.Knows w)
    (hi : w.threads[i]? = some (.sending (.start m slice hn)))
    (hr : hubMachine.run w es = some w') {f : Fanout} (hi' : w'.threads[i]? = some (.sending f))
    (c : Nat) : hubProgram.contribution (·.enqueued c) i w es = (f.delivered c).toInt := by
  have hC : hubMachine.Always (OnSteps fun h i p _ => HubThread.Knows h i (some p)) w es := by
    refine (hub_stable.preserves _).always hu (OnSteps.always_true w es) ?_
    intro w e w' hw _ _ i x p _ hp
    exact hp ▸ hw.2 i
  rw [(enqueued_accounts c).contribution hC hr i, World.share_of_some hi, World.share_of_some hi']
  simp [HubThread.delivered, Fanout.delivered, Fanout.start]

/-- The hub is exactly two-way indexed, a removed client is nowhere, and a fanout tries each
subscriber of its snapshot once and enqueues the message where the buffer has room. -/
theorem hub_routing (h₀ : hubMachine.init w₀) (hr : hubMachine.run w₀ es = some w) :
    (∀ c ch, c ∈ w.shared.subscribers ch ↔
        c ∈ w.shared.clients ∧ ch ∈ (w.shared.client c).channels) ∧
      (∀ ch, w.shared.bySub ch ≠ some ∅) ∧
      (∀ c, w.threads[c]? = some .removed →
        c ∉ w.shared.clients ∧ ∀ ch, c ∉ w.shared.subscribers ch) ∧
      (∀ i m slice u, w.threads[i]? = some (.publishing m) →
        hubMachine.step w (.act i (.copy slice)) = some u →
          (∀ c, c ∈ slice ↔ c ∈ w.shared.clients ∧ m.channel ∈ (w.shared.client c).channels) ∧
            ∀ es' w', hubMachine.run u es' = some w' →
              ∃ f, w'.threads[i]? = some (.sending f) ∧ f.message = m ∧
                f.tried.map Prod.fst ++ f.rest = slice ∧
                ∀ c, hubProgram.contribution (·.enqueued c) i u es' = (f.delivered c).toInt) ∧
      ∀ i f c later, w.threads[i]? = some (.sending f) → ∀ hf : f.rest = c :: later,
        hubMachine.step w (.act i .next) = some
          ⟨w.shared.trySend c f.message,
            w.threads.set i (.sending (f.advance hf (w.shared.hasRoom c)))⟩ := by
  have hw := hub_holds h₀ hr
  refine ⟨hw.1.routed.subscribed, hw.1.routed.tidy, ?_, ?_, ?_⟩
  · intro c hc
    have hk : HubThread.Knows w.shared c (some .removed) := hc ▸ hw.2 c
    exact ⟨hk, hw.1.routed.notMem_subscribers hk⟩
  · intro i m slice u hi hu
    obtain ⟨p, h', p', hp, hstep, rfl⟩ := Program.next_act hu
    rw [hi] at hp
    cases hp
    obtain ⟨hslice, rfl, hn, rfl⟩ := hubStep_copy (i := i) hstep
    constructor
    · intro c
      rw [← List.mem_toFinset, hslice]
      exact hw.1.routed.subscribed c m.channel
    · intro es' w' hr'
      have hset : (w.threads.set i (.sending (.start m slice hn)))[i]? =
          some (.sending (.start m slice hn)) := List.getElem?_set_self (World.lt_length hi)
      obtain ⟨f, hi', hm, hslice'⟩ :=
        sendsOut_invariant.run (show SendsOut i m slice ⟨_, _⟩ from ⟨_, hset, rfl, rfl⟩) hr'
      refine ⟨f, hi', hm, hslice', fanout_contribution ?_ hset hr' hi'⟩
      exact hub_stable.preserves (· = Hub.new) w _ _ hw hu fun _ _ _ _ _ => trivial
  · intro i f c later hi hf
    change hubProgram.next w (.act i .next) = _
    rw [Program.next, hi, Option.bind_some]
    change (hubStep w.shared i (.sending f) .next).map _ = _
    rw [hubStep_send w.shared i hf]
    rfl

/-- A client that has the channel, and a fanout that delivers to it before it is removed. -/
def deliveredOnce : List (Event HubStart Empty HubEvent) :=
  [.spawn (.client ["global"]), .act 0 .next, .act 0 .next,
    .spawn (.fanout ⟨"global", "hello"⟩), .act 1 (.copy [0]), .act 1 .next, .act 0 .remove]

theorem hub_routing_delivered :
    ∃ w, hubMachine.run ⟨.new, []⟩ deliveredOnce = some w ∧ w.threads[0]? = some .removed ∧
      (w.shared.client 0).send = [⟨"global", "hello"⟩] ∧
      ∀ ch, 0 ∉ w.shared.subscribers ch := by
  have hrun : ∃ w, hubMachine.run ⟨.new, []⟩ deliveredOnce = some w ∧
      w.threads[0]? = some .removed ∧ (w.shared.client 0).send = [⟨"global", "hello"⟩] :=
    ⟨_, rfl, rfl, rfl⟩
  obtain ⟨w, hr, hremoved, hsend⟩ := hrun
  obtain ⟨-, -, hnowhere, -⟩ := hub_routing ⟨rfl, rfl⟩ hr
  exact ⟨w, hr, hremoved, hsend, (hnowhere 0 hremoved).2⟩

end Leetrank
