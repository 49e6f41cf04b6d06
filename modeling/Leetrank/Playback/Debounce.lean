import Leetrank.Playback.Frames

namespace Leetrank
set_option autoImplicit true

/-- Keep of each run the last element only; `R` says that two neighbours are of the same run. -/
def lastOfRuns (R : α → α → Bool) : List α → List α
  | [] => []
  | [a] => [a]
  | a :: b :: l => if R a b then lastOfRuns R (b :: l) else a :: lastOfRuns R (b :: l)

/-- The type and the time of an event. -/
abbrev Tick := PlaybackEventType × ℚ

def PlaybackEvent.tick (ev : PlaybackEvent) : Tick := (ev.payload.type, ev.ts)

/-- Of two keystrokes in a row the second one falls into the window of the first. -/
def coalesces (windowMs : ℚ) (a b : Tick) : Bool :=
  a.1 = .keystroke ∧ b.1 = .keystroke ∧ b.2 - a.2 < windowMs

def debounceLoop (windowMs : ℚ) (out : List PlaybackEvent) (lastKept : Option PlaybackEvent) :
    List PlaybackEvent → List PlaybackEvent
  | [] => out
  | ev :: events =>
    if lastKept.any fun last => coalesces windowMs last.tick ev.tick then
      debounceLoop windowMs (out.dropLast ++ [ev]) (some ev) events
    else debounceLoop windowMs (out ++ [ev]) (some ev) events

def debounceEvents (events : List PlaybackEvent) (windowMs : ℚ) : List PlaybackEvent :=
  if windowMs ≤ 0 ∨ events.length ≤ 1 then events else debounceLoop windowMs [] none events

def DEFAULT_DEBOUNCE_MS : ℚ := 500

/-- After each keystroke that is dropped for the next one comes a snapshot of the code. -/
def Resets (windowMs : ℚ) : List Tick → Prop
  | a :: b :: ticks =>
    (coalesces windowMs a b = true → ∃ tick ∈ ticks, tick.1 = .snapshot) ∧
      Resets windowMs (b :: ticks)
  | _ => True

variable {R : α → α → Bool} {windowMs : ℚ} {events : List PlaybackEvent} {ticks : List Tick}
  {code code' : JsString}

theorem lastOfRuns_map (f : β → α) (l : List β) :
    lastOfRuns R (l.map f) = (lastOfRuns (fun a b => R (f a) (f b)) l).map f := by
  induction l with
  | nil => rfl
  | cons a l ih =>
    cases l with
    | nil => rfl
    | cons b l =>
      rw [List.map_cons, List.map_cons, lastOfRuns, lastOfRuns, ← List.map_cons, ih]
      split <;> rfl

theorem lastOfRuns_ne_nil (h : l ≠ []) : lastOfRuns R l ≠ [] := by
  induction l with
  | nil => exact absurd rfl h
  | cons a l ih =>
    cases l with
    | nil => exact h
    | cons b l =>
      rw [lastOfRuns]
      split
      · exact ih (List.cons_ne_nil b l)
      · exact List.cons_ne_nil _ _

/-- The loop has kept the last event, and goes on as one that has just seen it. -/
theorem debounceLoop_eq (windowMs : ℚ) (out : List PlaybackEvent) (last : PlaybackEvent)
    (events : List PlaybackEvent) :
    debounceLoop windowMs (out ++ [last]) (some last) events =
      out ++ lastOfRuns (fun a b => coalesces windowMs a.tick b.tick) (last :: events) := by
  induction events generalizing out last with
  | nil => rfl
  | cons ev events ih =>
    rw [debounceLoop, lastOfRuns, Option.any_some, List.dropLast_concat]
    split
    · exact ih out ev
    · rw [ih (out ++ [last]) ev, List.append_assoc]
      rfl

/-- With a window, debouncing keeps the last keystroke of each run. -/
theorem debounceEvents_eq (h : 0 < windowMs) (events : List PlaybackEvent) :
    debounceEvents events windowMs =
      lastOfRuns (fun a b => coalesces windowMs a.tick b.tick) events := by
  unfold debounceEvents
  match events with
  | [] => exact if_pos (.inr (Nat.zero_le 1))
  | [ev] => exact if_pos (.inr (Nat.le_refl 1))
  | ev :: ev' :: events =>
    have hnot : ¬(windowMs ≤ 0 ∨ (ev :: ev' :: events).length ≤ 1) := by
      rintro (hw | hlen)
      · exact absurd h (not_lt.2 hw)
      · simp at hlen
    rw [if_neg hnot, debounceLoop]
    exact debounceLoop_eq windowMs [] ev (ev' :: events)

/-- What was there before does not matter once there is a snapshot. -/
theorem replayed_of_snapshot (h : ∃ tick ∈ events.map PlaybackEvent.tick, tick.1 = .snapshot) :
    replayed code events = replayed code' events := by
  induction events generalizing code code' with
  | nil =>
    obtain ⟨_, hmem, -⟩ := h
    cases hmem
  | cons ev events ih =>
    rw [replayed_cons, replayed_cons]
    obtain ⟨tick, hmem, htype⟩ := h
    rcases List.mem_cons.1 hmem with rfl | hmem
    · obtain ⟨ts, payload⟩ := ev
      cases payload with
      | snapshot => rfl
      | keystroke | paste | select => cases htype
    · exact ih ⟨tick, hmem, htype⟩

theorem replayed_lastOfRuns (h : Resets windowMs (events.map PlaybackEvent.tick))
    (code : JsString) :
    replayed code (lastOfRuns (fun a b => coalesces windowMs a.tick b.tick) events) =
      replayed code events := by
  induction events generalizing code with
  | nil => rfl
  | cons a events ih =>
    cases events with
    | nil => rfl
    | cons b events =>
      obtain ⟨hreset, hrest⟩ := h
      rw [lastOfRuns]
      split
      next hab =>
        rw [ih hrest, replayed_cons code a]
        obtain ⟨tick, hmem, htype⟩ := hreset hab
        exact replayed_of_snapshot ⟨tick, List.mem_cons_of_mem _ hmem, htype⟩
      next => rw [replayed_cons, replayed_cons, ih hrest]

/-- Where the dropped keystrokes are reset, the code at the end is that of all events. -/
theorem finalCode_debounceEvents
    (h : windowMs ≤ 0 ∨ Resets windowMs (events.map PlaybackEvent.tick))
    (opts : PlaybackOptions) :
    finalCode (debounceEvents events windowMs) opts = finalCode events opts := by
  by_cases hw : 0 < windowMs
  · rw [debounceEvents_eq hw]
    by_cases hne : events = []
    · subst hne
      rfl
    · rw [finalCode_eq (lastOfRuns_ne_nil hne), finalCode_eq hne,
        replayed_lastOfRuns (h.resolve_left (not_le.2 hw))]
  · rw [debounceEvents, if_pos (.inl (not_lt.1 hw))]

def countEdit (n : Nat) : PlaybackEventType → Nat
  | .keystroke | .paste => n + 1
  | .select => n
  | .snapshot => 0

/-- The number of edits after the last snapshot; without a snapshot, `n` more than all edits. -/
def editsSince (n : Nat) (ticks : List Tick) : Nat :=
  ticks.foldl (fun n tick => countEdit n tick.1) n

/-- The event of a type and a time that puts one character at the start of the code. -/
def insertAt : Tick → PlaybackEvent
  | (.keystroke, ts) => ⟨ts, .keystroke ⟨DEFAULT_SELECTION, [120], 0⟩⟩
  | (.paste, ts) => ⟨ts, .paste ⟨DEFAULT_SELECTION, [120], 0⟩⟩
  | (.select, ts) => ⟨ts, .select DEFAULT_SELECTION⟩
  | (.snapshot, ts) => ⟨ts, .snapshot []⟩

theorem editsSince_cons (n : Nat) (tick : Tick) (ticks : List Tick) :
    editsSince n (tick :: ticks) = editsSince (countEdit n tick.1) ticks :=
  rfl

theorem tick_insertAt (tick : Tick) : (insertAt tick).tick = tick := by
  obtain ⟨type, ts⟩ := tick
  cases type <;> rfl

theorem map_tick_insertAt (ticks : List Tick) :
    (ticks.map insertAt).map PlaybackEvent.tick = ticks := by
  rw [List.map_map]
  conv =>
    rhs
    rw [← List.map_id ticks]
  exact List.map_congr_left fun tick _ => tick_insertAt tick

theorem replayed_insertAt (code : JsString) (ticks : List Tick) :
    (replayed code (ticks.map insertAt)).length = editsSince code.length ticks := by
  have hinsert (code : JsString) :
      (applyEdit code DEFAULT_SELECTION [120]).length = code.length + 1 := by
    have h := applyEdit_length code DEFAULT_SELECTION [120] (Nat.le_refl _)
    simpa [DEFAULT_SELECTION] using h
  induction ticks generalizing code with
  | nil => rfl
  | cons tick ticks ih =>
    obtain ⟨type, ts⟩ := tick
    rw [List.map_cons, replayed_cons, ih]
    cases type with
    | keystroke | paste => exact congrArg (editsSince · ticks) (hinsert code)
    | select | snapshot => rfl

/-- One more edit counts, unless a snapshot follows. -/
theorem editsSince_succ (n : Nat) (ticks : List Tick) :
    editsSince n ticks ≤ editsSince (n + 1) ticks ∧
      (editsSince n ticks = editsSince (n + 1) ticks → ∃ tick ∈ ticks, tick.1 = .snapshot) := by
  induction ticks generalizing n with
  | nil => exact ⟨Nat.le_succ n, fun h => absurd h (Nat.ne_of_lt (Nat.lt_succ_self n))⟩
  | cons tick ticks ih =>
    obtain ⟨type, ts⟩ := tick
    have hlater (h : ∃ tick ∈ ticks, tick.1 = .snapshot) :
        ∃ tick ∈ (type, ts) :: ticks, tick.1 = .snapshot := by
      obtain ⟨tick, hmem, htype⟩ := h
      exact ⟨tick, List.mem_cons_of_mem _ hmem, htype⟩
    cases type with
    | snapshot => exact ⟨Nat.le_refl _, fun _ => ⟨_, List.mem_cons_self, rfl⟩⟩
    | keystroke | paste => exact (ih (n + 1)).imp_right fun h heq => hlater (h heq)
    | select => exact (ih n).imp_right fun h heq => hlater (h heq)

/-- Fewer edits are left after the last snapshot, unless each dropped one is reset. -/
theorem editsSince_lastOfRuns (n : Nat) (ticks : List Tick) :
    editsSince n (lastOfRuns (coalesces windowMs) ticks) ≤ editsSince n ticks ∧
      (editsSince n (lastOfRuns (coalesces windowMs) ticks) = editsSince n ticks →
        Resets windowMs ticks) := by
  induction ticks generalizing n with
  | nil => exact ⟨Nat.le_refl _, fun _ => trivial⟩
  | cons a ticks ih =>
    cases ticks with
    | nil => exact ⟨Nat.le_refl _, fun _ => trivial⟩
    | cons b ticks =>
      rw [lastOfRuns]
      split
      next hab =>
        have hkeys := hab
        simp only [coalesces, decide_eq_true_eq] at hkeys
        obtain ⟨hle, hreset⟩ := ih n
        obtain ⟨hsucc, hsnapshot⟩ := editsSince_succ n (b :: ticks)
        rw [editsSince_cons n a, hkeys.1, countEdit]
        refine ⟨hle.trans hsucc, fun heq => ⟨fun _ => ?_, hreset (by omega)⟩⟩
        obtain ⟨tick, hmem, htype⟩ := hsnapshot (by omega)
        rcases List.mem_cons.1 hmem with rfl | hmem
        · rw [hkeys.2.1] at htype
          cases htype
        · exact ⟨tick, hmem, htype⟩
      next hab =>
        rw [editsSince_cons n a, editsSince_cons n a]
        exact (ih (countEdit n a.1)).imp_right fun h heq => ⟨fun h' => absurd h' hab, h heq⟩

/-- Debouncing keeps the code at the end, for all recordings of events of given types and times,
exactly if it drops no keystroke or resets those it drops. -/
theorem debounce_preserves_code_iff (windowMs : ℚ) (ticks : List Tick) :
    (∀ events, events.map PlaybackEvent.tick = ticks → ∀ opts,
      finalCode (debounceEvents events windowMs) opts = finalCode events opts) ↔
      windowMs ≤ 0 ∨ Resets windowMs ticks := by
  constructor
  · intro h
    by_cases hw : 0 < windowMs
    · right
      have hcode := h (ticks.map insertAt) (map_tick_insertAt ticks) ⟨none, none⟩
      rw [debounceEvents_eq hw, lastOfRuns_map] at hcode
      simp only [tick_insertAt] at hcode
      by_cases hne : ticks = []
      · subst hne
        trivial
      · rw [finalCode_eq, finalCode_eq] at hcode
        · have hlength := congrArg List.length (Option.some.inj hcode)
          rw [replayed_insertAt, replayed_insertAt] at hlength
          exact (editsSince_lastOfRuns _ ticks).2 hlength
        · exact fun hnil => hne (List.map_eq_nil_iff.1 hnil)
        · exact fun hnil => lastOfRuns_ne_nil hne (List.map_eq_nil_iff.1 hnil)
    · exact .inl (not_lt.1 hw)
  · rintro h events rfl opts
    exact finalCode_debounceEvents h opts

/-- Two letters typed one after the other within the default window. -/
def twoLetters : List PlaybackEvent :=
  [⟨0, .keystroke ⟨⟨1, 1, 1, 1⟩, [97], 0⟩⟩, ⟨50, .keystroke ⟨⟨1, 2, 1, 2⟩, [98], 0⟩⟩]

theorem debounce_loses_letter :
    (twoLetters.Pairwise fun a b => a.ts ≤ b.ts) ∧
      finalCode twoLetters ⟨none, none⟩ = some [97, 98] ∧
      finalCode (debounceEvents twoLetters DEFAULT_DEBOUNCE_MS) ⟨none, none⟩ = some [98] := by
  decide +kernel

end Leetrank
