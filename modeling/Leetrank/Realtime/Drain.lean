import Leetrank.Realtime.Quota

namespace Leetrank
set_option autoImplicit true

open EventMachine KeyedSets Threads

variable {parse : String → Option String} {s s' : Realtime}
  {w w' w₀ : World Realtime ServeThread} {es : List (Event ServeStart Empty ServeEvent)}
  {perSubject perIP : Int}

/-- An attempt that has passed the drain check, may still be admitted and is not registered. -/
def ServeThread.inHandshake (parse : String → Option String) : ServeThread → Bool
  | .verify r => (authVerify parse r.bearer).isSome
  | .acquire _ _ | .accept _ _ _ | .add _ _ _ => true
  | _ => false

/-- When `Drain` finds no client, no attempt is between the drain check and its registration. -/
def Settled (parse : String → Option String) (w : World Realtime ServeThread)
    (e : Event ServeStart Empty ServeEvent) (_ : World Realtime ServeThread) : Prop :=
  ∀ i p, e = .act i .next → w.threads[i]? = some p → p = .drain ∨ p = .forceClose →
    w.shared.hub.clients = ∅ → ∀ q ∈ w.threads, q.inHandshake parse = false

/-- The shutdown has closed the drain channel. -/
def ServeThread.shuttingDown : ServeThread → Bool
  | .drain | .waiting | .forceClose | .drained _ => true
  | _ => false

theorem draining_stable :
    (serveProgram parse).Stable (fun _ _ _ _ => True) (fun _ => True)
      (fun s _ o => ∀ p, o = some p → p.shuttingDown = true → s.draining = true) where
  start := by
    rintro s i a - - p ⟨⟩
    cases a <;> exact nofun
  ambient := fun _ x => x.elim
  step := by
    intro s i p e s' p' _ hp _ hs
    have hmono : (s.draining = true → s'.draining = true) ∧
        (p'.shuttingDown = true → s'.draining = true) := by
      cases serveStep_move hs with
      | close hd => exact ⟨fun _ => rfl, fun _ => rfl⟩
      | empty hn => exact ⟨id, fun _ => hp _ rfl rfl⟩
      | wait hn => exact ⟨id, fun _ => hp _ rfl rfl⟩
      | tick => exact ⟨id, fun _ => hp _ rfl rfl⟩
      | deadline => exact ⟨id, fun _ => hp _ rfl rfl⟩
      | force => exact ⟨id, fun _ => hp _ rfl rfl⟩
      | _ => exact ⟨id, nofun⟩
    refine ⟨trivial, ?_, ?_⟩
    · rintro q ⟨⟩
      exact hmono.2
    · exact fun j o _ ho q hq hsd => hmono.1 (ho q hq hsd)

/-- The service refuses new attempts, has no client and nobody on the way to become one. -/
structure Closed (parse : String → Option String) (w : World Realtime ServeThread) : Prop where
  draining : w.shared.draining = true
  clients : w.shared.hub.clients = ∅
  idle : ∀ q ∈ w.threads, q.inHandshake parse = false

theorem ServeMove.closed (hm : ServeMove parse s i p e s' p') (hd : s.draining = true)
    (hc : s.hub.clients = ∅) (hp : p.inHandshake parse = false) :
    s'.draining = true ∧ s'.hub.clients = ∅ ∧ p'.inHandshake parse = false := by
  cases hm with
  | proceed r hopen =>
    rw [hd] at hopen
    cases hopen
  | authorized r sub hv =>
    rw [ServeThread.inHandshake, hv] at hp
    cases hp
  | refuse r sub reason ha => cases hp
  | admitted r sub limiter ha => cases hp
  | upgraded r sub ip => cases hp
  | upgradeFailed r sub ip => cases hp
  | register r sub ip => cases hp
  | message r sub ip cmd => exact ⟨hd, (readCommand_clients s.hub i cmd).trans hc, rfl⟩
  | unregister r sub ip =>
    refine ⟨hd, ?_, rfl⟩
    change s.hub.clients.erase i = ∅
    rw [hc]
    rfl
  | close hopen =>
    rw [hd] at hopen
    cases hopen
  | _ => exact ⟨hd, hc, rfl⟩

theorem closed_invariant :
    (serveMachine parse perSubject perIP).Invariant (Closed parse) := by
  rintro w e w' ⟨hd, hc, hidle⟩ hs -
  cases e with
  | spawn a =>
    cases hs
    refine ⟨hd, hc, List.forall_mem_append.2 ⟨hidle, List.forall_mem_singleton.2 ?_⟩⟩
    cases a <;> rfl
  | ambient x => exact x.elim
  | act i e =>
    obtain ⟨p, s, p', hp, hstep, rfl⟩ := Program.next_act hs
    obtain ⟨hd', hc', hp'⟩ :=
      (serveStep_move hstep).closed hd hc (hidle p (List.mem_of_getElem? hp))
    refine ⟨hd', hc', fun q hq => ?_⟩
    rcases List.mem_or_eq_of_mem_set hq with hq | rfl
    · exact hidle q hq
    · exact hp'

/-- `Drain` returns 0 only when it finds no client. -/
theorem ServeMove.drained (hm : ServeMove parse s i p e s' (.drained 0)) :
    e = .next ∧ (p = .drain ∨ p = .forceClose) ∧ s.hub.clients = ∅ ∧ s' = s := by
  generalize hq : ServeThread.drained 0 = q at hm
  cases hm with
  | empty hn => exact ⟨rfl, .inl rfl, hn, rfl⟩
  | force =>
    injection hq with hq
    exact ⟨rfl, .inr rfl, Finset.card_eq_zero.1 hq.symm, rfl⟩
  | _ => cases hq

/-- Once `Drain` has returned 0 the service is closed. -/
def DrainedClosed (parse : String → Option String) (w : World Realtime ServeThread) : Prop :=
  .drained 0 ∈ w.threads → Closed parse w

theorem drainedClosed_preserved :
    (serveMachine parse perSubject perIP).Preserves (Settled parse) fun w =>
      Holds (fun _ => True)
        (fun s _ o => ∀ p, o = some p → p.shuttingDown = true → s.draining = true) w ∧
      DrainedClosed parse w := by
  rintro w e w' ⟨hw, hclosed⟩ hs hC
  refine ⟨draining_stable.preserves _ w e w' hw hs fun _ _ _ _ _ => trivial, fun hd => ?_⟩
  have hinv : (serveMachine parse perSubject perIP).Invariant (Closed parse) := closed_invariant
  refine hinv w e w' ?_ hs trivial
  by_cases hbefore : .drained 0 ∈ w.threads
  · exact hclosed hbefore
  · -- this is the step with which `Drain` returns
    cases e with
    | spawn a =>
      cases hs
      obtain hd | hd := List.mem_append.1 hd
      · exact absurd hd hbefore
      · cases a <;> cases List.mem_singleton.1 hd
    | ambient x => exact x.elim
    | act i e =>
      obtain ⟨p, s, p', hp, hstep, rfl⟩ := Program.next_act hs
      obtain hd | rfl := List.mem_or_eq_of_mem_set hd
      · exact absurd hd hbefore
      · obtain ⟨rfl, hor, hempty, -⟩ := (serveStep_move hstep).drained
        refine ⟨hw.2 i p hp ?_, hempty, hC i p rfl hp hor hempty⟩
        rcases hor with rfl | rfl <;> rfl

/-- Where each `Drain` that finds no client finds no attempt on its way in either, no client is
registered in any state after `Drain` has returned 0. -/
theorem graceful_drain (h₀ : (serveMachine parse perSubject perIP).init w₀)
    (hC : (serveMachine parse perSubject perIP).Always (Settled parse) w₀ es)
    (hr : (serveMachine parse perSubject perIP).run w₀ es = some w)
    (hd : .drained 0 ∈ w.threads) : w.shared.draining = true ∧ w.shared.hub.clients = ∅ := by
  have hstart := holds_start (L := fun s _ o =>
    ∀ p, o = some p → ServeThread.shuttingDown p = true → s.draining = true) h₀
    fun _ _ => ⟨trivial, fun _ => nofun⟩
  have hnone : DrainedClosed parse w₀ := by
    intro hmem
    rw [h₀.2] at hmem
    cases hmem
  have hclosed := (drainedClosed_preserved.run ⟨hstart, hnone⟩ hC hr).2 hd
  exact ⟨hclosed.draining, hclosed.clients⟩

theorem Settled.spawn (a : ServeStart) : Settled parse w (.spawn a) w' := by
  intro i p he
  cases he

theorem Settled.other {p : ServeThread} (hp : w.threads[i]? = some p)
    (h : p.shuttingDown = false) : Settled parse w (.act i e) w' := by
  intro j q he hq hor
  cases he
  rw [hp] at hq
  cases hq
  rcases hor with rfl | rfl <;> cases h

/-- A client leaves before `Drain` looks. -/
def drainedInTime : List (Event ServeStart Empty ServeEvent) :=
  connected 0 ++ [.spawn .shutdown, .act 1 .next, .act 0 .hangup, .act 0 .next, .act 1 .next]

theorem drainedInTime_settled :
    (serveMachine some 1 0).Always (Settled some) (realtimeStart 1) drainedInTime := by
  apply Machine.always_cons rfl (Settled.spawn _)
  apply Machine.always_cons rfl (Settled.other rfl rfl)
  apply Machine.always_cons rfl (Settled.other rfl rfl)
  apply Machine.always_cons rfl (Settled.other rfl rfl)
  apply Machine.always_cons rfl (Settled.other rfl rfl)
  apply Machine.always_cons rfl (Settled.other rfl rfl)
  apply Machine.always_cons rfl (Settled.spawn _)
  apply Machine.always_cons rfl (Settled.other rfl rfl)
  apply Machine.always_cons rfl (Settled.other rfl rfl)
  apply Machine.always_cons rfl (Settled.other rfl rfl)
  refine Machine.always_cons rfl ?_ trivial
  intro i p _ _ _ _
  decide

theorem graceful_drain_inTime :
    ∃ w, (serveMachine some 1 0).run (realtimeStart 1) drainedInTime = some w ∧
      .drained 0 ∈ w.threads ∧ w.shared.draining = true ∧ w.shared.hub.clients = ∅ := by
  have hrun : ∃ w, (serveMachine some 1 0).run (realtimeStart 1) drainedInTime = some w ∧
      w.threads[1]? = some (.drained 0) := ⟨_, rfl, rfl⟩
  obtain ⟨w, hr, hw⟩ := hrun
  have hd := List.mem_of_getElem? hw
  exact ⟨w, hr, hd, graceful_drain ⟨rfl, rfl⟩ drainedInTime_settled hr hd⟩

/-- An attempt that has passed the drain check registers after `Drain` has returned 0. -/
theorem drain_overtaken :
    ∃ w w', (serveMachine some 1 0).run (realtimeStart 1)
        (handshake 0 ++ [.spawn .shutdown, .act 1 .next, .act 1 .next]) = some w ∧
      w.shared.draining = true ∧ w.threads[1]? = some (.drained 0) ∧
      (serveMachine some 1 0).run w [.act 0 (.upgrade true), .act 0 .next] = some w' ∧
      w'.shared.hub.clients = {0} :=
  ⟨_, _, rfl, rfl, rfl, rfl, rfl⟩

end Leetrank
