import Mathlib.Data.List.Basic
import Mathlib.Data.Rat.Floor

namespace Leetrank
set_option autoImplicit true

/-- A string of JavaScript: its UTF-16 code units. -/
abbrev JsString := List UInt16

structure PlaybackRange where
  startLineNumber : Int
  startColumn : Int
  endLineNumber : Int
  endColumn : Int
deriving DecidableEq

structure KeystrokePayload where
  range : PlaybackRange
  text : JsString
  rangeLength : Int
deriving DecidableEq

inductive PlaybackEventType where
  | keystroke
  | paste
  | select
  | snapshot
deriving DecidableEq

/-- What an event of each type records. -/
inductive PlaybackPayload where
  | keystroke (edit : KeystrokePayload)
  | paste (edit : KeystrokePayload)
  | select (selection : PlaybackRange)
  | snapshot (code : JsString)
deriving DecidableEq

/-- An event, with the milliseconds since the start of its session. -/
structure PlaybackEvent where
  ts : ℚ
  payload : PlaybackPayload
deriving DecidableEq

def PlaybackPayload.type : PlaybackPayload → PlaybackEventType
  | .keystroke _ => .keystroke
  | .paste _ => .paste
  | .select _ => .select
  | .snapshot _ => .snapshot

def PlaybackEventType.text : PlaybackEventType → String
  | .keystroke => "keystroke"
  | .paste => "paste"
  | .select => "select"
  | .snapshot => "snapshot"

def isPlaybackEventType : String → Option PlaybackEventType
  | "keystroke" => some .keystroke
  | "paste" => some .paste
  | "select" => some .select
  | "snapshot" => some .snapshot
  | _ => none

/-- What a JSON object has in the fields of a payload; one of the wrong kind counts as missing. -/
structure PayloadFields where
  range : Option PlaybackRange
  text : Option JsString
  rangeLength : Option Int
  selection : Option PlaybackRange
  code : Option JsString

/-- A payload of unknown shape. -/
inductive JsonPayload where
  | undefined
  | null
  | primitive
  | object (fields : PayloadFields)

/-- An event in the body of a request, and a row of `SubmissionEvent` without its submission. -/
structure EventRow where
  type : String
  ts : ℚ
  payload : JsonPayload

def MAX_EVENTS_PER_FLUSH : Nat := 5000

/-- A time in whole milliseconds. -/
def wholeMs (ts : ℚ) : ℚ := ((max 0 ⌊ts⌋ : Int) : ℚ)

/-- The fields of a payload, of which `first` is read first. -/
def JsonPayload.read (first : String) : JsonPayload → Except String PayloadFields
  | .undefined => .error ("Cannot read properties of undefined (reading '" ++ first ++ "')")
  | .null => .error ("Cannot read properties of null (reading '" ++ first ++ "')")
  | .primitive => .ok ⟨none, none, none, none, none⟩
  | .object fields => .ok fields

def canonicalRange (r : PlaybackRange) : PlaybackRange :=
  ⟨max 1 r.startLineNumber, max 1 r.startColumn, max 1 r.endLineNumber, max 1 r.endColumn⟩

def canonicalEdit (type : PlaybackEventType) (payload : JsonPayload) :
    Except String KeystrokePayload := do
  let fields ← payload.read "range"
  match fields.range, fields.text with
  | some range, some text =>
    .ok ⟨canonicalRange range, text, max 0 (fields.rangeLength.getD 0)⟩
  | _, _ => .error (type.text ++ " payload missing range or text")

def canonicalPayload (type : PlaybackEventType) (payload : JsonPayload) :
    Except String PlaybackPayload :=
  match type with
  | .keystroke => return .keystroke (← canonicalEdit .keystroke payload)
  | .paste => return .paste (← canonicalEdit .paste payload)
  | .select => do
    let fields ← payload.read "selection"
    match fields.selection with
    | some selection => .ok (.select (canonicalRange selection))
    | none => .error "select payload missing selection"
  | .snapshot => do
    let fields ← payload.read "code"
    match fields.code with
    | some code => .ok (.snapshot code)
    | none => .error "snapshot payload missing code"

def serializeEvent (ev : EventRow) : Except String PlaybackEvent := do
  match isPlaybackEventType ev.type with
  | none => .error ("unknown playback event type: " ++ ev.type)
  | some type =>
    if ev.ts < 0 then .error "playback event ts must be a non-negative number"
    else return ⟨wholeMs ev.ts, ← canonicalPayload type ev.payload⟩

def serializeAll : List EventRow → Except String (List PlaybackEvent)
  | [] => .ok []
  | ev :: events => return (← serializeEvent ev) :: (← serializeAll events)

def serializeEvents (events : List EventRow) : Except String (List PlaybackEvent) :=
  if MAX_EVENTS_PER_FLUSH < events.length then
    .error "playback flush exceeds MAX_EVENTS_PER_FLUSH (5000)"
  else serializeAll events

/-- The event of a row, unless the row is corrupt. -/
def deserializeEvent (row : EventRow) : Option PlaybackEvent := do
  let type ← isPlaybackEventType row.type
  match row.payload with
  | .object fields =>
    let payload ← (canonicalPayload type (.object fields)).toOption
    return ⟨wholeMs row.ts, payload⟩
  | .undefined | .null | .primitive => none

def deserializeEvents (rows : List EventRow) : List PlaybackEvent :=
  (rows.filterMap deserializeEvent).mergeSort fun a b => a.ts ≤ b.ts

def PlaybackPayload.fields : PlaybackPayload → PayloadFields
  | .keystroke edit | .paste edit =>
    ⟨some edit.range, some edit.text, some edit.rangeLength, none, none⟩
  | .select selection => ⟨none, none, none, some selection, none⟩
  | .snapshot code => ⟨none, none, none, none, some code⟩

/-- An event as it is sent and stored. -/
def PlaybackEvent.row (ev : PlaybackEvent) : EventRow :=
  ⟨ev.payload.type.text, ev.ts, .object ev.payload.fields⟩

def KeystrokePayload.canonical (edit : KeystrokePayload) : KeystrokePayload :=
  ⟨canonicalRange edit.range, edit.text, max 0 edit.rangeLength⟩

def PlaybackPayload.canonical : PlaybackPayload → PlaybackPayload
  | .keystroke edit => .keystroke edit.canonical
  | .paste edit => .paste edit.canonical
  | .select selection => .select (canonicalRange selection)
  | .snapshot code => .snapshot code

/-- The event at a whole millisecond, with lines, columns and lengths raised to the lowest valid
ones. -/
def PlaybackEvent.canonical (ev : PlaybackEvent) : PlaybackEvent :=
  ⟨wholeMs ev.ts, ev.payload.canonical⟩

variable {ev : PlaybackEvent} {events : List PlaybackEvent}

@[simp]
theorem wholeMs_wholeMs (ts : ℚ) : wholeMs (wholeMs ts) = wholeMs ts := by
  rw [wholeMs, wholeMs, Int.floor_intCast, max_eq_right (le_max_left 0 ⌊ts⌋)]

theorem wholeMs_mono {a b : ℚ} (h : a ≤ b) : wholeMs a ≤ wholeMs b :=
  Int.cast_le.2 (max_le_max le_rfl (Int.floor_le_floor h))

theorem isPlaybackEventType_text (type : PlaybackEventType) :
    isPlaybackEventType type.text = some type := by
  cases type <;> rfl

theorem canonicalRange_canonical (r : PlaybackRange) :
    canonicalRange (canonicalRange r) = canonicalRange r := by
  simp [canonicalRange]

@[simp]
theorem PlaybackEvent.canonical_canonical (ev : PlaybackEvent) :
    ev.canonical.canonical = ev.canonical := by
  obtain ⟨ts, payload⟩ := ev
  cases payload <;> simp [PlaybackEvent.canonical, PlaybackPayload.canonical,
    KeystrokePayload.canonical, canonicalRange_canonical]

theorem canonicalPayload_fields (p : PlaybackPayload) :
    canonicalPayload p.type (.object p.fields) = .ok p.canonical := by
  cases p <;> rfl

theorem serializeEvent_row (h : 0 ≤ ev.ts) : serializeEvent ev.row = .ok ev.canonical := by
  simp only [serializeEvent, PlaybackEvent.row, isPlaybackEventType_text, not_lt.2 h, if_false,
    canonicalPayload_fields]
  rfl

theorem serializeEvent_row_eq (h : serializeEvent ev.row = .ok ev') : ev' = ev.canonical := by
  by_cases hts : 0 ≤ ev.ts
  · rw [serializeEvent_row hts] at h
    cases h
    rfl
  · simp only [serializeEvent, PlaybackEvent.row, isPlaybackEventType_text, not_le.1 hts,
      if_true] at h
    cases h

theorem serializeAll_row (h : ∀ ev ∈ events, 0 ≤ ev.ts) :
    serializeAll (events.map PlaybackEvent.row) = .ok (events.map PlaybackEvent.canonical) := by
  induction events with
  | nil => rfl
  | cons ev events ih =>
    rw [List.forall_mem_cons] at h
    rw [List.map_cons, serializeAll, serializeEvent_row h.1, ih h.2]
    rfl

/-- Whatever comes through the checks is in its canonical form. -/
theorem serializeAll_row_eq (h : serializeAll (events.map PlaybackEvent.row) = .ok events') :
    events' = events.map PlaybackEvent.canonical := by
  induction events generalizing events' with
  | nil =>
    cases h
    rfl
  | cons ev events ih =>
    rw [List.map_cons, serializeAll] at h
    cases hev : serializeEvent ev.row with
    | error text =>
      rw [hev] at h
      cases h
    | ok ev' =>
      rw [hev] at h
      cases hrest : serializeAll (events.map PlaybackEvent.row) with
      | error text =>
        rw [hrest] at h
        cases h
      | ok rest =>
        rw [hrest] at h
        cases h
        rw [serializeEvent_row_eq hev, ih hrest, List.map_cons]

/-- What is sent is accepted, and comes through the checks in its canonical form. -/
theorem serializeEvents_row (hlen : events.length ≤ MAX_EVENTS_PER_FLUSH)
    (h : ∀ ev ∈ events, 0 ≤ ev.ts) :
    serializeEvents (events.map PlaybackEvent.row) = .ok (events.map PlaybackEvent.canonical) := by
  rw [serializeEvents, List.length_map, if_neg (Nat.not_lt.2 hlen), serializeAll_row h]

theorem deserializeEvent_row (ev : PlaybackEvent) :
    deserializeEvent ev.row = some ev.canonical := by
  rw [deserializeEvent, PlaybackEvent.row, isPlaybackEventType_text]
  change (canonicalPayload ev.payload.type (.object ev.payload.fields)).toOption.bind _ = _
  rw [canonicalPayload_fields]
  rfl

/-- Rows that come in the order of their times are read in this order. -/
theorem deserializeEvents_of_sorted {rows : List EventRow}
    (h : rows.Pairwise fun a b => a.ts ≤ b.ts) :
    deserializeEvents rows = rows.filterMap deserializeEvent := by
  apply List.mergeSort_of_pairwise
  rw [List.pairwise_filterMap]
  apply h.imp
  intro a b hab x hx y hy
  have hts {row : EventRow} {e : PlaybackEvent} (he : deserializeEvent row = some e) :
      e.ts = wholeMs row.ts := by
    obtain ⟨type, -, he⟩ := Option.bind_eq_some_iff.1 he
    cases hp : row.payload with
    | object fields =>
      rw [hp] at he
      obtain ⟨payload, -, he⟩ := Option.bind_eq_some_iff.1 he
      cases he
      rfl
    | undefined | null | primitive =>
      rw [hp] at he
      cases he
  rw [decide_eq_true_eq, hts hx, hts hy]
  exact wholeMs_mono hab

/-- Deserialising the rows of a sorted stream gives the stream. -/
theorem deserializeEvents_row (h : events.Pairwise fun a b => a.ts ≤ b.ts) :
    deserializeEvents (events.map PlaybackEvent.row) = events.map PlaybackEvent.canonical := by
  rw [deserializeEvents_of_sorted, List.filterMap_map]
  · rw [← List.filterMap_eq_map]
    apply List.filterMap_congr
    intro ev _
    exact deserializeEvent_row ev
  · rw [List.pairwise_map]
    exact h

end Leetrank
