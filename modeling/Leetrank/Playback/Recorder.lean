import Leetrank.Library.Machine
import Leetrank.Playback.Debounce

namespace Leetrank
set_option autoImplicit true

open EventMachine

/-- The replacement of a range of the editor by a text. -/
structure MonacoChange where
  range : PlaybackRange
  text : JsString
  rangeLength : Int

/-- The recorder and what it has sent for submissions; it has not started while `startedAt` is 0. -/
structure Recorder where
  now : Int
  startedAt : Int
  subscribed : Bool
  buffer : List PlaybackEvent
  sent : List (String × List PlaybackEvent)

inductive RecorderEvent where
  | elapse (ms : Nat)
  | mount (value : Option JsString)
  | unmount
  | content (changes : List MonacoChange)
  | selection (selection : PlaybackRange)
  | flush (submissionId : String)
  | reset

/-- The milliseconds since the start of the session. -/
def Recorder.ts (s : Recorder) : ℚ := ((s.now - s.startedAt : Int) : ℚ)

/-- A full buffer takes no more events. -/
def Recorder.push (s : Recorder) (payload : PlaybackPayload) : Recorder :=
  if MAX_EVENTS_PER_FLUSH ≤ s.buffer.length then s
  else { s with buffer := s.buffer ++ [⟨s.ts, payload⟩] }

def MonacoChange.edit (change : MonacoChange) : KeystrokePayload :=
  ⟨change.range, change.text, change.rangeLength⟩

/-- Several changes at once or a long one count as a paste. -/
def contentPayload (changes : List MonacoChange) (change : MonacoChange) : PlaybackPayload :=
  if 1 < changes.length ∨ ∃ c ∈ changes, 32 < c.text.length then .paste change.edit
  else .keystroke change.edit

/-- The start of a session records the code that is there. -/
def Recorder.start (s : Recorder) (value : Option JsString) : Recorder :=
  if s.startedAt = 0 then
    { s with
      startedAt := s.now
      buffer := s.buffer ++ (value.map fun code => ⟨0, .snapshot code⟩).toList }
  else s

/-- The last events that fit into a batch. -/
def lastBatch (events : List PlaybackEvent) : List PlaybackEvent :=
  events.drop (events.length - MAX_EVENTS_PER_FLUSH)

def Recorder.flush (s : Recorder) (debounceMs : ℚ) (submissionId : String) : Recorder :=
  let events := debounceEvents s.buffer debounceMs
  if events.length = 0 then s
  else
    match serializeEvents ((lastBatch events).map PlaybackEvent.row) with
    | .error _ => { s with buffer := [] }
    | .ok serialized => { s with buffer := [], sent := s.sent ++ [(submissionId, serialized)] }

def recorderStep (debounceMs : ℚ) (s : Recorder) : RecorderEvent → Option Recorder
  | .elapse ms => some { s with now := s.now + ms }
  | .mount value => if s.subscribed then none else some { s.start value with subscribed := true }
  | .unmount => if s.subscribed then some { s with subscribed := false } else none
  | .content changes =>
    if s.subscribed then
      some (changes.foldl (fun s change => s.push (contentPayload changes change)) s)
    else none
  | .selection selection => if s.subscribed then some (s.push (.select selection)) else none
  | .flush submissionId => some (s.flush debounceMs submissionId)
  | .reset => some { s with buffer := [], startedAt := 0 }

/-- A recorder that nothing has happened to yet. -/
def recorderMachine (debounceMs : ℚ) : Machine Recorder RecorderEvent where
  init := fun s => 0 < s.now ∧ s = ⟨s.now, 0, false, [], []⟩
  step := recorderStep debounceMs

def InOrder (events : List PlaybackEvent) : Prop := events.Pairwise fun a b => a.ts ≤ b.ts

instance (events : List PlaybackEvent) : Decidable (InOrder events) :=
  inferInstanceAs (Decidable (events.Pairwise _))

/-- Events are recorded only within a session. -/
def RecordsInSession (s : Recorder) (e : RecorderEvent) (_ : Recorder) : Prop :=
  match e with
  | .content _ | .selection _ => s.startedAt ≠ 0
  | _ => True

/-- The buffer is in order and belongs to the session; so are the batches. -/
structure Recorder.Inv (s : Recorder) : Prop where
  now : 0 < s.now
  buffer : InOrder s.buffer
  past : ∀ ev ∈ s.buffer, ev.ts ≤ s.ts
  idle : s.startedAt = 0 → s.buffer = []
  sent : ∀ x ∈ s.sent, InOrder x.2

variable {s t : Recorder} {events : List PlaybackEvent} {debounceMs : ℚ}

theorem lastOfRuns_sublist (R : α → α → Bool) (l : List α) : (lastOfRuns R l).Sublist l := by
  induction l with
  | nil => exact .slnil
  | cons a l ih =>
    cases l with
    | nil => exact List.Sublist.refl _
    | cons b l =>
      rw [lastOfRuns]
      split
      · exact ih.cons a
      · exact ih.cons_cons a

theorem debounceEvents_sublist (events : List PlaybackEvent) (windowMs : ℚ) :
    (debounceEvents events windowMs).Sublist events := by
  by_cases hw : 0 < windowMs
  · rw [debounceEvents_eq hw]
    exact lastOfRuns_sublist _ events
  · rw [debounceEvents, if_pos (.inl (not_lt.1 hw))]

theorem serializeEvents_inOrder
    (h : serializeEvents (events.map PlaybackEvent.row) = .ok serialized) (hs : InOrder events) :
    InOrder serialized := by
  rw [serializeEvents] at h
  split at h
  next => cases h
  next =>
    rw [serializeAll_row_eq h, InOrder, List.pairwise_map]
    exact hs.imp fun hab => wholeMs_mono hab

theorem Recorder.Inv.push (h : s.Inv) (hs : s.startedAt ≠ 0) (payload : PlaybackPayload) :
    (s.push payload).Inv ∧ (s.push payload).startedAt ≠ 0 := by
  unfold Recorder.push
  split
  next => exact ⟨h, hs⟩
  next =>
    refine ⟨⟨h.now, ?_, ?_, fun h0 => (hs h0).elim, h.sent⟩, hs⟩
    · refine List.pairwise_append.2 ⟨h.buffer, List.pairwise_singleton .., fun a ha b hb => ?_⟩
      rw [List.mem_singleton.1 hb]
      exact h.past a ha
    · intro ev hev
      rcases List.mem_append.1 hev with hev | hev
      · exact h.past ev hev
      · rw [List.mem_singleton.1 hev]
        exact le_rfl

theorem Recorder.Inv.pushAll (h : s.Inv) (hs : s.startedAt ≠ 0)
    (payload : α → PlaybackPayload) (changes : List α) :
    (changes.foldl (fun s change => s.push (payload change)) s).Inv := by
  induction changes generalizing s with
  | nil => exact h
  | cons change changes ih =>
    obtain ⟨h', hs'⟩ := h.push hs (payload change)
    exact ih h' hs'

theorem Recorder.Inv.flush (h : s.Inv) (debounceMs : ℚ) (submissionId : String) :
    (s.flush debounceMs submissionId).Inv := by
  unfold Recorder.flush
  dsimp only
  split
  next => exact h
  next =>
    split
    next => exact ⟨h.now, .nil, nofun, fun _ => rfl, h.sent⟩
    next serialized hser =>
      refine ⟨h.now, .nil, nofun, fun _ => rfl, ?_⟩
      intro x hx
      rcases List.mem_append.1 hx with hx | hx
      · exact h.sent x hx
      · rw [List.mem_singleton.1 hx]
        have hsub : (lastBatch (debounceEvents s.buffer debounceMs)).Sublist s.buffer :=
          (List.drop_sublist ..).trans (debounceEvents_sublist ..)
        exact serializeEvents_inOrder hser (h.buffer.sublist hsub)

theorem Recorder.Inv.elapse (h : s.Inv) (ms : Nat) : { s with now := s.now + ms }.Inv := by
  refine ⟨by have := h.now; simp only; omega, h.buffer, fun ev hev => ?_, h.idle, h.sent⟩
  refine (h.past ev hev).trans (Int.cast_le.2 ?_)
  simp only
  omega

/-- The content that the editor has when it is mounted begins the recording of a session. -/
theorem Recorder.Inv.start (h : s.Inv) (value : Option JsString) : (s.start value).Inv := by
  unfold Recorder.start
  split
  next h0 =>
    rw [h.idle h0, List.nil_append]
    refine ⟨h.now, ?_, ?_, fun hzero => absurd hzero (Int.ne_of_gt h.now), h.sent⟩
    · cases value with
      | none => exact .nil
      | some code => exact List.pairwise_singleton ..
    · intro ev hev
      cases value with
      | none => cases hev
      | some code =>
        rw [List.mem_singleton.1 hev]
        simp [Recorder.ts]
  next => exact h

/-- Whether the editor is subscribed to says nothing about what is recorded. -/
theorem Recorder.Inv.subscribe (h : s.Inv) (subscribed : Bool) :
    { s with subscribed := subscribed }.Inv :=
  ⟨h.now, h.buffer, h.past, h.idle, h.sent⟩

theorem Recorder.Inv.step (h : s.Inv) (hs : recorderStep debounceMs s e = some t)
    (hC : RecordsInSession s e t) : t.Inv := by
  cases e with
  | elapse ms =>
    cases hs
    exact h.elapse ms
  | mount value =>
    rw [recorderStep] at hs
    split at hs
    next => cases hs
    next =>
      cases hs
      exact (h.start value).subscribe true
  | unmount =>
    rw [recorderStep] at hs
    split at hs
    next =>
      cases hs
      exact h.subscribe false
    next => cases hs
  | content changes =>
    rw [recorderStep] at hs
    split at hs
    next =>
      cases hs
      exact h.pushAll hC (contentPayload changes) changes
    next => cases hs
  | selection selection =>
    rw [recorderStep] at hs
    split at hs
    next =>
      cases hs
      exact (h.push hC _).1
    next => cases hs
  | flush submissionId =>
    cases hs
    exact h.flush debounceMs submissionId
  | reset =>
    cases hs
    exact ⟨h.now, .nil, nofun, fun _ => rfl, h.sent⟩

/-- What is sent in a run that records within sessions only is in order. -/
theorem recorder_inOrder (h₀ : (recorderMachine debounceMs).init s)
    (hr : (recorderMachine debounceMs).run s es = some t)
    (hC : (recorderMachine debounceMs).Always RecordsInSession s es) :
    ∀ x ∈ t.sent, InOrder x.2 := by
  have hinv : (recorderMachine debounceMs).Preserves RecordsInSession Recorder.Inv :=
    fun _ _ _ h hs hC => h.step hs hC
  have hstart : s.Inv := by
    obtain ⟨hnow, hs⟩ := h₀
    rw [hs]
    exact ⟨hnow, .nil, nofun, fun _ => rfl, nofun⟩
  exact (hinv.run hstart hC hr).sent

end Leetrank
