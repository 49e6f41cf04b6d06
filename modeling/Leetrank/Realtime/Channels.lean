import Leetrank.Realtime.Drain

namespace Leetrank
set_option autoImplicit true

open EventMachine KeyedSets Threads

variable {parse : String → Option String} {s s' : Realtime}
  {w w' w₀ : World Realtime ServeThread} {es past : List (Event ServeStart Empty ServeEvent)}
  {perSubject perIP : Int}

/-- The handshake of a client that is in the hub, with its subject. -/
def ServeThread.client : ServeThread → Option (UpgradeRequest × String)
  | .serving r sub _ | .leaving r sub _ => some (r, sub)
  | _ => none

/-- The handshake of an attempt whose token has been verified, with the subject of the token. -/
def ServeThread.authenticated : ServeThread → Option (UpgradeRequest × String)
  | .acquire r sub | .accept r sub _ | .add r sub _ | .serving r sub _ | .leaving r sub _ =>
    some (r, sub)
  | _ => none

/-- A thread is registered while it has a client, and its subject is that of its token. -/
structure ServeThread.Knows (parse : String → Option String) (s : Realtime) (i : Nat)
    (o : Option ServeThread) : Prop where
  registered : i ∈ s.hub.clients ↔ (o.bind ServeThread.client).isSome
  subject : ∀ r sub, o.bind ServeThread.authenticated = some (r, sub) →
    authVerify parse r.bearer = some sub

theorem readCommand_routed (hr : h.Routed) (hc : c ∈ h.clients) (cmd : Option ClientCommand) :
    (readCommand h c cmd).1.Routed := by
  unfold readCommand
  cases cmd with
  | none => exact hr
  | some cmd =>
    dsimp only
    split_ifs
    · exact hr
    · exact hr.subscribe hc cmd.channel
    · exact hr
    · exact hr.unsubscribe c cmd.channel
    · exact hr
    · exact hr

theorem Hub.subscribe_of_ne (h : Hub) (ch : String) (hc : c' ≠ c) :
    (h.subscribe c ch).client c' = h.client c' := by
  rw [Hub.subscribe_client, if_neg hc]

theorem Hub.unsubscribe_of_ne (h : Hub) (ch : String) (hc : c' ≠ c) :
    (h.unsubscribe c ch).client c' = h.client c' := by
  rw [Hub.unsubscribe_client, if_neg hc]

theorem readCommand_of_ne (h : Hub) (cmd : Option ClientCommand) (hc : c' ≠ c) :
    (readCommand h c cmd).1.client c' = h.client c' := by
  unfold readCommand
  cases cmd with
  | none => rfl
  | some cmd =>
    dsimp only
    split_ifs
    · rfl
    · exact h.subscribe_of_ne cmd.channel hc
    · rfl
    · exact h.unsubscribe_of_ne cmd.channel hc
    · rfl
    · rfl

/-- A message gives its client no channel but the one that it asks for and that is allowed. -/
theorem readCommand_channels (h : Hub) (c : Nat) (cmd : Option ClientCommand)
    (hch : ch ∈ ((readCommand h c cmd).1.client c).channels) :
    ch ∈ (h.client c).channels ∨
      ∃ cmd', cmd = some cmd' ∧ cmd'.action = "subscribe" ∧ cmd'.channel = ch ∧
        channelAllowed ch = true := by
  unfold readCommand at hch
  cases cmd with
  | none => exact .inl hch
  | some cmd =>
    dsimp only at hch
    split_ifs at hch with hact hbad
    · exact .inl hch
    · rw [Hub.subscribe_client, if_pos rfl, Finset.mem_insert] at hch
      rcases hch with rfl | hch
      · rw [not_or, Bool.not_eq_false] at hbad
        exact .inr ⟨cmd, rfl, hact, rfl, hbad.2⟩
      · exact .inl hch
    · exact .inl hch
    · rw [Hub.unsubscribe_client, if_pos rfl] at hch
      exact .inl (Finset.mem_of_mem_erase hch)
    · exact .inl hch
    · exact .inl hch

theorem ServeMove.routed (hm : ServeMove parse s i p e s' p') (hr : s.hub.Routed)
    (hk : ServeThread.Knows parse s i (some p)) : s'.hub.Routed := by
  cases hm with
  | register r sub ip =>
    refine (hr.newClient ?_ _).add i
    rw [hk.registered]
    exact nofun
  | message r sub ip cmd =>
    exact readCommand_routed hr (hk.registered.2 rfl) cmd
  | unregister r sub ip => exact hr.remove i
  | _ => exact hr

theorem ServeMove.clients (hm : ServeMove parse s i p e s' p') (hj : j ≠ i) :
    j ∈ s'.hub.clients ↔ j ∈ s.hub.clients := by
  cases hm with
  | register r sub ip => exact Finset.mem_insert.trans (or_iff_right hj)
  | message r sub ip cmd =>
    change j ∈ (readCommand s.hub i cmd).1.clients ↔ _
    rw [readCommand_clients]
  | unregister r sub ip => exact Finset.mem_erase.trans (and_iff_right hj)
  | _ => exact Iff.rfl

theorem ServeMove.knows (hm : ServeMove parse s i p e s' p')
    (hk : ServeThread.Knows parse s i (some p)) : ServeThread.Knows parse s' i (some p') := by
  constructor
  case registered =>
    cases hm with
    | register r sub ip => exact iff_of_true (Finset.mem_insert_self i _) rfl
    | message r sub ip cmd =>
      change i ∈ (readCommand s.hub i cmd).1.clients ↔ _
      rw [readCommand_clients]
      exact hk.registered
    | unregister r sub ip => exact iff_of_false (Finset.notMem_erase i _) nofun
    | _ => exact hk.registered
  case subject =>
    cases hm with
    | authorized r sub hv =>
      rintro r' sub' ⟨⟩
      exact hv
    | refuse r sub reason ha => exact nofun
    | upgradeFailed r sub ip => exact nofun
    | unregister r sub ip => exact nofun
    | _ => exact hk.subject

theorem serve_stable :
    (serveProgram parse).Stable (fun _ _ _ _ => True) (fun s => s.hub.Routed)
      (ServeThread.Knows parse) where
  start := by
    intro s i a _ hk
    constructor
    · rw [hk.registered]
      cases a <;> rfl
    · cases a <;> exact nofun
  ambient := fun _ x => x.elim
  step := by
    intro s i p e s' p' hr hk _ hs
    have hm := serveStep_move hs
    refine ⟨hm.routed hr hk, hm.knows hk, fun j o hj hj' => ⟨?_, hj'.subject⟩⟩
    rw [hm.clients hj, hj'.registered]

theorem ServeMove.object_of_ne (hm : ServeMove parse s i p e s' p') (hj : j ≠ i) :
    s'.hub.client j = s.hub.client j := by
  cases hm with
  | register r sub ip =>
    change (s.hub.newClient i (initialChannels r sub)).client j = _
    rw [Hub.newClient, Hub.setClient_client, if_neg hj]
  | message r sub ip cmd => exact readCommand_of_ne s.hub cmd hj
  | _ => rfl

/-- Where the channels of a client come from, step by step. -/
theorem ServeMove.channels {r : UpgradeRequest} (hm : ServeMove parse s i p e s' p')
    (hc : p'.client = some (r, sub)) (hch : ch ∈ (s'.hub.client i).channels) :
    ch ∈ initialChannels r sub ∨ (p.client = some (r, sub) ∧ ch ∈ (s.hub.client i).channels) ∨
      ∃ cmd, e = .message (some cmd) ∧ cmd.action = "subscribe" ∧ cmd.channel = ch ∧
        channelAllowed ch = true := by
  cases hm with
  | register r' sub' ip =>
    cases hc
    change ch ∈ ((s.hub.newClient i (initialChannels r sub)).client i).channels at hch
    rw [Hub.newClient, Hub.setClient_client, if_pos rfl, List.mem_toFinset] at hch
    exact .inl hch
  | message r' sub' ip cmd =>
    obtain hch | ⟨cmd', rfl, hask⟩ := readCommand_channels s.hub i cmd hch
    · exact .inr (.inl ⟨hc, hch⟩)
    · exact .inr (.inr ⟨cmd', rfl, hask⟩)
  | hangup r' sub' ip => exact .inr (.inl ⟨hc, hch⟩)
  | _ => cases hc

theorem ServeThread.authenticated_of_client {p : ServeThread} {r : UpgradeRequest}
    (h : p.client = some (r, sub)) : p.authenticated = some (r, sub) := by
  cases p <;> first | exact h | cases h

theorem readCommand_subscribe {cmd : ClientCommand} (h : Hub) (c : Nat)
    (hact : cmd.action = "subscribe") (hne : cmd.channel ≠ "")
    (hok : channelAllowed cmd.channel = true) :
    (readCommand h c (some cmd)).1 = h.subscribe c cmd.channel := by
  simp [readCommand, hact, hne, hok]

/-- The client has sent a subscribe message for a channel that is allowed. -/
def Asked (past : List (Event ServeStart Empty ServeEvent)) (i : Nat) (ch : String) : Prop :=
  channelAllowed ch = true ∧ ∃ cmd : ClientCommand, cmd.action = "subscribe" ∧ cmd.channel = ch ∧
    .act i (.message (some cmd)) ∈ past

def Origins (past : List (Event ServeStart Empty ServeEvent)) (w : World Realtime ServeThread) :
    Prop :=
  ∀ i p r sub ch, w.threads[i]? = some p → p.client = some (r, sub) →
    ch ∈ (w.shared.hub.client i).channels → ch ∈ initialChannels r sub ∨ Asked past i ch

theorem Asked.more (h : Asked past i ch) (e : Event ServeStart Empty ServeEvent) :
    Asked (past ++ [e]) i ch := by
  obtain ⟨hok, cmd, hact, hcmd, hmem⟩ := h
  exact ⟨hok, cmd, hact, hcmd, List.mem_append_left [e] hmem⟩

/-- The step of another thread leaves the object of a client alone. -/
theorem serveNext_object (hs : (serveProgram parse).next w e = some w')
    (he : ∀ x, e ≠ .act i x) : w'.shared.hub.client i = w.shared.hub.client i := by
  cases e with
  | spawn a =>
    cases hs
    rfl
  | ambient x => exact x.elim
  | act j x =>
    obtain ⟨p, s, q, -, hstep, rfl⟩ := Program.next_act hs
    refine (serveStep_move hstep).object_of_ne ?_
    rintro rfl
    exact he x rfl

theorem origins_records : (serveMachine parse perSubject perIP).Records Origins := by
  intro past w e w' hw hs i p' r sub ch hi hc hch
  have kept {p : ServeThread} (hp : w.threads[i]? = some p) (hc : p.client = some (r, sub))
      (hch : ch ∈ (w.shared.hub.client i).channels) :
      ch ∈ initialChannels r sub ∨ Asked (past ++ [e]) i ch :=
    (hw i p r sub ch hp hc hch).imp_right fun ha => ha.more e
  obtain ⟨hp, he⟩ | ⟨a, rfl, rfl⟩ | ⟨x, p, rfl, hp, hstep⟩ := Program.next_thread_cases hs hi
  · exact kept hp hc (serveNext_object hs he ▸ hch)
  · cases a <;> cases hc
  · obtain hin | ⟨hc', hch'⟩ | ⟨cmd, rfl, hact, hcmd, hok⟩ :=
      (serveStep_move hstep).channels hc hch
    · exact .inl hin
    · exact kept hp hc' hch'
    · exact .inr ⟨hok, cmd, hact, hcmd, List.mem_append_right past (List.mem_singleton_self _)⟩

/-- The default channel is the client's own, so a handshake has to name those of others. -/
theorem named_of_initial (hin : "verdicts:user:" ++ other ∈ initialChannels r sub)
    (hne : other ≠ sub) : "verdicts:user:" ++ other ∈ r.named := by
  rw [initialChannels] at hin
  split at hin
  next =>
    have hl := congrArg String.toList (List.mem_singleton.1 hin)
    rw [String.toList_append, String.toList_append, List.append_cancel_left_eq] at hl
    exact absurd (String.toList_inj.1 hl) hne
  next => exact hin

/-- A subscribe message for a channel that is allowed is granted. -/
theorem subscribe_granted (hi : w.threads[i]? = some (.serving r sub ip))
    (hact : cmd.action = "subscribe") (hne : cmd.channel ≠ "")
    (hok : channelAllowed cmd.channel = true) :
    ∃ w', (serveMachine parse perSubject perIP).step w (.act i (.message (some cmd))) = some w' ∧
      i ∈ w'.shared.hub.subscribers cmd.channel := by
  refine ⟨⟨{ w.shared with hub := (readCommand w.shared.hub i (some cmd)).1 },
    w.threads.set i (.serving r sub ip)⟩, ?_, ?_⟩
  · change (serveProgram parse).next w (.act i (.message (some cmd))) = _
    rw [Program.next, hi]
    rfl
  · rw [readCommand_subscribe w.shared.hub i hact hne hok]
    exact (Hub.mem_subscribers_subscribe ..).2 (.inl ⟨rfl, rfl⟩)

/-- A client is under a channel only if its handshake started it there or it asked for the
channel and that is allowed, so under the verdicts of another subject only if it named them; and
whoever asks for a channel that is allowed is given it. -/
theorem channel_isolation (h₀ : (serveMachine parse perSubject perIP).init w₀)
    (hr : (serveMachine parse perSubject perIP).run w₀ es = some w) :
    (∀ i ch, i ∈ w.shared.hub.subscribers ch →
      ∃ p r sub, w.threads[i]? = some p ∧ p.client = some (r, sub) ∧
        authVerify parse r.bearer = some sub ∧ (ch ∈ initialChannels r sub ∨ Asked es i ch) ∧
        ∀ other ≠ sub, ch = "verdicts:user:" ++ other → ch ∈ r.named ∨ Asked es i ch) ∧
    ∀ i r sub ip cmd, w.threads[i]? = some (.serving r sub ip) → cmd.action = "subscribe" →
      cmd.channel ≠ "" → channelAllowed cmd.channel = true →
        ∃ w', (serveMachine parse perSubject perIP).step w (.act i (.message (some cmd))) =
          some w' ∧ i ∈ w'.shared.hub.subscribers cmd.channel := by
  have hw : Holds (fun s => s.hub.Routed) (ServeThread.Knows parse) w := by
    refine (serve_stable.preserves _).run (holds_start h₀ ?_) (OnSteps.always_true w₀ es) hr
    rintro s rfl
    refine ⟨Hub.routed_new, fun i => ⟨?_, fun _ _ => nofun⟩⟩
    exact iff_of_false (Finset.notMem_empty i) nofun
  have hempty : Origins [] w₀ := by
    intro i p r sub ch hi
    rw [h₀.2] at hi
    cases hi
  have horigin : Origins es w := origins_records.run hempty hr
  constructor
  · intro i ch hsub
    obtain ⟨hreg, hch⟩ := (hw.1.subscribed i ch).1 hsub
    obtain ⟨⟨r, sub⟩, hclient⟩ := Option.isSome_iff_exists.1 ((hw.2 i).registered.1 hreg)
    obtain ⟨p, hp, hc⟩ := Option.bind_eq_some_iff.1 hclient
    have hor := horigin i p r sub ch hp hc hch
    refine ⟨p, r, sub, hp, hc, ?_, hor, ?_⟩
    · refine (hw.2 i).subject r sub ?_
      rw [hp]
      exact ServeThread.authenticated_of_client hc
    · rintro other hne rfl
      exact hor.imp_left fun hin => named_of_initial hin hne
  · intro i r sub ip cmd hi hact hne hok
    exact subscribe_granted hi hact hne hok

def subscribeTo (ch : String) : Event ServeStart Empty ServeEvent :=
  .act 0 (.message (some ⟨"subscribe", ch⟩))

theorem channel_isolation_contest :
    ∃ w, (serveMachine some 1 0).run (realtimeStart 1) (connected 0 ++ [subscribeTo "contests:1"]) =
        some w ∧
      0 ∈ w.shared.hub.subscribers "contests:1" ∧
      ∃ p r sub, w.threads[0]? = some p ∧ p.client = some (r, sub) ∧
        authVerify some r.bearer = some sub ∧
        ("contests:1" ∈ initialChannels r sub ∨
          Asked (connected 0 ++ [subscribeTo "contests:1"]) 0 "contests:1") := by
  have hrun : ∃ w, (serveMachine some 1 0).run (realtimeStart 1)
      (connected 0 ++ [subscribeTo "contests:1"]) = some w ∧
      0 ∈ w.shared.hub.subscribers "contests:1" := by
    refine ⟨_, rfl, ?_⟩
    decide
  obtain ⟨w, hr, hsub⟩ := hrun
  obtain ⟨p, r, sub, hp, hc, hv, hor, -⟩ :=
    (channel_isolation ⟨rfl, rfl⟩ hr).1 0 "contests:1" hsub
  exact ⟨w, hr, hsub, p, r, sub, hp, hc, hv, hor⟩

/-- A handshake names any channel at all, and a client asks for the verdicts of someone else. -/
theorem channels_not_isolated :
    (∃ w, (serveMachine some 1 0).run (realtimeStart 1)
        [.spawn (.attempt { plainUpgrade "u1" with channels := "secret" }), .act 0 .next,
          .act 0 .next, .act 0 .next, .act 0 (.upgrade true), .act 0 .next] = some w ∧
      0 ∈ w.shared.hub.subscribers "secret" ∧ channelAllowed "secret" = false) ∧
    ∃ w r ip, (serveMachine some 1 0).run (realtimeStart 1)
        (connected 0 ++ [subscribeTo "verdicts:user:u2"]) = some w ∧
      w.threads[0]? = some (.serving r "u1" ip) ∧
      0 ∈ w.shared.hub.subscribers "verdicts:user:u2" := by
  refine ⟨⟨_, rfl, ?_, ?_⟩, ⟨_, _, _, rfl, rfl, ?_⟩⟩
  · decide
  · decide
  · decide

end Leetrank
