import Leetrank.Library.JsValue
import Leetrank.Playback.Events

namespace Leetrank
namespace Wire
set_option autoImplicit true
open Js

/-- A range whose fields are any numbers that the conversion gives. -/
structure Range where
  startLineNumber : Number
  startColumn : Number
  endLineNumber : Number
  endColumn : Number
deriving DecidableEq

inductive Payload where
  | edit (range : Range) (text : JsString) (rangeLength : Number)
  | select (selection : Range)
  | snapshot (code : JsString)
deriving DecidableEq

structure Event where
  type : PlaybackEventType
  ts : Number
  payload : Payload
deriving DecidableEq

/-- An event in the body of a request. -/
structure BodyEvent where
  type : String
  ts : Number
  payload : Option Value

/-- A row of the events as JSON has it. -/
structure Row where
  type : String
  ts : Value
  payload : Value

def eventTypes : List PlaybackEventType := [.keystroke, .paste, .select, .snapshot]

def eventSchema : Value → Option BodyEvent
  | .object fields =>
    match fields.lookup "type", fields.lookup "ts" with
    | some (.string s), some (.number (.finite ts)) => do
      let type ← eventTypes.find? fun type => units type.text == s
      if ts.isInt ∧ 0 ≤ ts then some ⟨type.text, .finite ts, fields.lookup "payload"⟩ else none
    | _, _ => none
  | _ => none

def flushSchema : Value → Option (List BodyEvent)
  | .object fields =>
    match fields.lookup "events" with
    | some (.array xs) =>
      if xs.length ≤ MAX_EVENTS_PER_FLUSH then xs.mapM eventSchema else none
    | _ => none
  | _ => none

/-- A value as a whole number that is not below a bound. -/
def integer (least : Nat) (v : Option Value) : Except String Number := do
  return (← Value.toNumber v).floor.max least

def canonicalRange (r : Option Value) : Except String Range := do
  return ⟨← integer 1 (← Value.get "startLineNumber" r), ← integer 1 (← Value.get "startColumn" r),
    ← integer 1 (← Value.get "endLineNumber" r), ← integer 1 (← Value.get "endColumn" r)⟩

/-- The length of the replaced range, which is 0 if there is none. -/
def lengthOrZero (rangeLength : Option Value) : Option Value :=
  if Value.isNullish rangeLength then some (.number (.finite 0)) else rangeLength

def canonicalEdit (type : PlaybackEventType) (payload : Option Value) : Except String Payload := do
  let range ← Value.get "range" payload
  match Value.truthy range, ← Value.get "text" payload with
  | true, some (.string text) =>
    return .edit (← canonicalRange range) text
      (← integer 0 (lengthOrZero (← Value.get "rangeLength" payload)))
  | _, _ => .error (type.text ++ " payload missing range or text")

def canonicalPayload (type : PlaybackEventType) (payload : Option Value) :
    Except String Payload := do
  match type with
  | .keystroke | .paste => canonicalEdit type payload
  | .select =>
    let selection ← Value.get "selection" payload
    if Value.truthy selection then return .select (← canonicalRange selection)
    else .error "select payload missing selection"
  | .snapshot =>
    match ← Value.get "code" payload with
    | some (.string code) => return .snapshot code
    | _ => .error "snapshot payload missing code"

def serializeEvent (ev : BodyEvent) : Except String Event := do
  match isPlaybackEventType ev.type with
  | none => .error ("unknown playback event type: " ++ ev.type)
  | some type =>
    match ev.ts with
    | .finite ts =>
      if ts < 0 then .error "playback event ts must be a non-negative number"
      else return ⟨type, ev.ts.floor.max 0, ← canonicalPayload type ev.payload⟩
    | _ => .error "playback event ts must be a non-negative number"

def serializeAll : List BodyEvent → Except String (List Event)
  | [] => .ok []
  | ev :: events => return (← serializeEvent ev) :: (← serializeAll events)

def serializeEvents (events : List BodyEvent) : Except String (List Event) :=
  if MAX_EVENTS_PER_FLUSH < events.length then
    .error "playback flush exceeds MAX_EVENTS_PER_FLUSH (5000)"
  else serializeAll events

/-- The event of a row, unless the row is corrupt. -/
def deserializeEvent (row : Row) : Option Event := do
  let type ← isPlaybackEventType row.type
  match row.payload with
  | .array _ | .object _ =>
    let ts ← (integer 0 (some row.ts)).toOption
    let payload ← (canonicalPayload type (some row.payload)).toOption
    return ⟨type, ts, payload⟩
  | _ => none

def byTime (a b : Event) : Bool := !a.ts.gt b.ts

def deserializeEvents (rows : List Row) : List Event :=
  (rows.filterMap deserializeEvent).mergeSort byTime

def Range.value (r : Range) : Value :=
  .object [("startLineNumber", .number r.startLineNumber), ("startColumn", .number r.startColumn),
    ("endLineNumber", .number r.endLineNumber), ("endColumn", .number r.endColumn)]

def Payload.value : Payload → Value
  | .edit range text rangeLength =>
    .object [("range", range.value), ("text", .string text), ("rangeLength", .number rangeLength)]
  | .select selection => .object [("selection", selection.value)]
  | .snapshot code => .object [("code", .string code)]

/-- A record once it has been written as JSON. -/
def Event.written (ev : Event) : Row :=
  ⟨ev.type.text, (Value.number ev.ts).throughJson, ev.payload.value.throughJson⟩

/-- A whole number that is not below a bound. -/
def WholeFrom (least : Nat) (x : Number) : Prop := ∃ n : Nat, least ≤ n ∧ x = .finite n

structure Range.Valid (r : Range) : Prop where
  startLineNumber : WholeFrom 1 r.startLineNumber
  startColumn : WholeFrom 1 r.startColumn
  endLineNumber : WholeFrom 1 r.endLineNumber
  endColumn : WholeFrom 1 r.endColumn

def Payload.Valid : Payload → Prop
  | .edit range _ rangeLength => range.Valid ∧ WholeFrom 0 rangeLength
  | .select selection => selection.Valid
  | .snapshot _ => True

def Event.Valid (ev : Event) : Prop := WholeFrom 0 ev.ts ∧ ev.payload.Valid

/-- A value converts to a number other than NaN and the positive infinity. -/
def converts (v : Option Value) : Bool :=
  match Value.toNumber v with
  | .error _ | .ok .nan | .ok .posInfinity => false
  | .ok .negInfinity | .ok (.finite _) => true

def fieldConverts (key : String) (v : Option Value) : Bool :=
  match Value.get key v with
  | .error _ => false
  | .ok field => converts field

def rangeConverts (key : String) (payload : Option Value) : Bool :=
  match Value.get key payload with
  | .error _ => false
  | .ok r => ["startLineNumber", "startColumn", "endLineNumber", "endColumn"].all fun field =>
    fieldConverts field r

def lengthConverts (payload : Option Value) : Bool :=
  match Value.get "rangeLength" payload with
  | .error _ => false
  | .ok rangeLength => Value.isNullish rangeLength || converts rangeLength

/-- All the numbers of an event convert. -/
def BodyEvent.converts (ev : BodyEvent) : Bool :=
  match isPlaybackEventType ev.type with
  | some .keystroke | some .paste => rangeConverts "range" ev.payload && lengthConverts ev.payload
  | some .select => rangeConverts "selection" ev.payload
  | some .snapshot | none => true

variable {v : Option Value} {x : Number} {r : Range} {ev : BodyEvent} {record : Event}

theorem integer_finite (least : Nat) (q : ℚ) :
    WholeFrom least ((Number.finite q).floor.max least) := by
  have hmax : Max.max (least : ℚ) (⌊q⌋ : ℚ) = ((Max.max (least : Int) ⌊q⌋).toNat : ℚ) := by
    have hint : (((Max.max (least : Int) ⌊q⌋).toNat : Int) : ℚ) =
        ((Max.max (least : Int) ⌊q⌋ : Int) : ℚ) := by
      rw [Int.toNat_of_nonneg ((Int.natCast_nonneg least).trans (le_max_left ..))]
    rw [← Int.cast_natCast (Max.max (least : Int) ⌊q⌋).toNat, hint, Int.cast_max, Int.cast_natCast]
  refine ⟨(Max.max (least : Int) ⌊q⌋).toNat, ?_, ?_⟩
  · have hle : (least : Int) ≤ Max.max (least : Int) ⌊q⌋ := le_max_left ..
    omega
  · rw [Number.floor, Number.max, hmax]

/-- The conversion gives a whole number exactly if the value converts. -/
theorem integer_whole_iff {least : Nat} (h : integer least v = .ok x) :
    WholeFrom least x ↔ converts v := by
  obtain ⟨y, hy, hx⟩ := bind_eq_ok.1 h
  cases hx
  rw [converts, hy]
  cases y with
  | nan =>
    constructor
    · rintro ⟨n, -, hn⟩
      cases hn
    · exact nofun
  | posInfinity =>
    constructor
    · rintro ⟨n, -, hn⟩
      cases hn
    · exact nofun
  | negInfinity => exact iff_of_true ⟨least, le_rfl, rfl⟩ rfl
  | finite q => exact iff_of_true (integer_finite least q) rfl

/-- A whole number that is not below the bound comes back as it was. -/
theorem integer_of_whole {least : Nat} (h : WholeFrom least x) :
    (Value.number x).throughJson = .number x ∧ integer least (some (.number x)) = .ok x := by
  obtain ⟨n, hn, rfl⟩ := h
  refine ⟨rfl, ?_⟩
  have hmax : Max.max (least : ℚ) n = n := max_eq_right (Nat.cast_le.2 hn)
  have hfloor : ((⌊(n : ℚ)⌋ : Int) : ℚ) = n := by
    rw [Int.floor_natCast, Int.cast_natCast]
  change Except.ok (Number.finite (Max.max (least : ℚ) ⌊(n : ℚ)⌋)) = _
  rw [hfloor, hmax]

theorem canonicalRange_valid_iff (h : canonicalRange v = .ok r) :
    r.Valid ↔ ["startLineNumber", "startColumn", "endLineNumber", "endColumn"].all
      (fun field => fieldConverts field v) = true := by
  simp only [canonicalRange, bind_eq_ok] at h
  obtain ⟨a, ha, x, hx, b, hb, y, hy, c, hc, z, hz, d, hd, w, hw, hr⟩ := h
  cases hr
  simp only [List.all_cons, List.all_nil, Bool.and_true, Bool.and_eq_true, fieldConverts, ha, hb,
    hc, hd, ← integer_whole_iff hx, ← integer_whole_iff hy, ← integer_whole_iff hz,
    ← integer_whole_iff hw]
  exact ⟨fun ⟨h1, h2, h3, h4⟩ => ⟨h1, h2, h3, h4⟩, fun ⟨h1, h2, h3, h4⟩ => ⟨h1, h2, h3, h4⟩⟩

theorem Range.Valid.throughJson (h : r.Valid) : r.value.throughJson = r.value := by
  simp only [Range.value, Value.throughJson_object, Value.fieldsThroughJson_cons,
    Value.fieldsThroughJson_nil, (integer_of_whole h.startLineNumber).1,
    (integer_of_whole h.startColumn).1, (integer_of_whole h.endLineNumber).1,
    (integer_of_whole h.endColumn).1]

theorem canonicalRange_of_valid (h : r.Valid) : canonicalRange (some r.value) = .ok r := by
  change (do return (⟨← integer 1 (some (.number r.startLineNumber)),
    ← integer 1 (some (.number r.startColumn)), ← integer 1 (some (.number r.endLineNumber)),
    ← integer 1 (some (.number r.endColumn))⟩ : Range)) = _
  rw [(integer_of_whole h.startLineNumber).2, (integer_of_whole h.startColumn).2,
    (integer_of_whole h.endLineNumber).2, (integer_of_whole h.endColumn).2]
  rfl

section Payloads

variable {type : PlaybackEventType} {payload : Option Value} {p : Payload}

theorem canonicalEdit_ok (h : canonicalEdit type payload = .ok p) :
    ∃ range r text len n, Value.get "range" payload = .ok range ∧ canonicalRange range = .ok r ∧
      Value.get "rangeLength" payload = .ok len ∧ integer 0 (lengthOrZero len) = .ok n ∧
      p = .edit r text n := by
  simp only [canonicalEdit, bind_eq_ok] at h
  obtain ⟨range, hrange, text, -, h⟩ := h
  split at h
  next text _ =>
    simp only [bind_eq_ok] at h
    obtain ⟨r, hr, len, hlen, n, hn, hp⟩ := h
    cases hp
    exact ⟨range, r, text, len, n, hrange, hr, hlen, hn, rfl⟩
  next => cases h

theorem canonicalPayload_select_ok (h : canonicalPayload .select payload = .ok p) :
    ∃ selection r, Value.get "selection" payload = .ok selection ∧
      canonicalRange selection = .ok r ∧ p = .select r := by
  simp only [canonicalPayload, bind_eq_ok] at h
  obtain ⟨selection, hselection, h⟩ := h
  split at h
  · obtain ⟨r, hr, hp⟩ := bind_eq_ok.1 h
    cases hp
    exact ⟨selection, r, hselection, hr, rfl⟩
  · cases h

theorem canonicalPayload_snapshot_ok (h : canonicalPayload .snapshot payload = .ok p) :
    ∃ code, p = .snapshot code := by
  simp only [canonicalPayload, bind_eq_ok] at h
  obtain ⟨code, -, h⟩ := h
  split at h
  · cases h
    exact ⟨_, rfl⟩
  · cases h

theorem converts_lengthOrZero (len : Option Value) :
    converts (lengthOrZero len) = (Value.isNullish len || converts len) := by
  rw [lengthOrZero]
  cases hnull : Value.isNullish len
  · rfl
  · rw [if_pos rfl, Bool.true_or]
    decide

theorem canonicalEdit_valid_iff (h : canonicalEdit type payload = .ok p) :
    p.Valid ↔ (rangeConverts "range" payload && lengthConverts payload) = true := by
  obtain ⟨range, r, text, len, n, hrange, hr, hlen, hn, rfl⟩ := canonicalEdit_ok h
  rw [rangeConverts, hrange, lengthConverts, hlen, Bool.and_eq_true, Payload.Valid,
    canonicalRange_valid_iff hr, integer_whole_iff hn, converts_lengthOrZero]

/-- What an event checks and what it stores. -/
theorem canonicalPayload_valid_iff (h : canonicalPayload type payload = .ok p) :
    p.Valid ↔ BodyEvent.converts ⟨type.text, .nan, payload⟩ = true := by
  cases type with
  | keystroke => exact canonicalEdit_valid_iff h
  | paste => exact canonicalEdit_valid_iff h
  | select =>
    obtain ⟨selection, r, hselection, hr, rfl⟩ := canonicalPayload_select_ok h
    change r.Valid ↔ rangeConverts "selection" payload = true
    rw [rangeConverts, hselection, canonicalRange_valid_iff hr]
  | snapshot =>
    obtain ⟨code, rfl⟩ := canonicalPayload_snapshot_ok h
    exact iff_of_true trivial rfl

theorem canonicalEdit_written (h : canonicalEdit type payload = .ok p) (hvalid : p.Valid) :
    p.value.throughJson = p.value ∧ canonicalEdit type (some p.value) = .ok p := by
  obtain ⟨-, r, text, -, n, -, -, -, -, rfl⟩ := canonicalEdit_ok h
  obtain ⟨hr, hn⟩ := hvalid
  constructor
  · simp only [Payload.value, Value.throughJson_object, Value.fieldsThroughJson_cons,
      Value.fieldsThroughJson_nil, Value.throughJson_string, hr.throughJson,
      (integer_of_whole hn).1]
  · change (canonicalRange (some r.value) >>= fun r => integer 0 (some (.number n)) >>= fun n =>
      return Payload.edit r text n) = _
    rw [canonicalRange_of_valid hr]
    change (integer 0 (some (.number n)) >>= fun n => return Payload.edit r text n) = _
    rw [(integer_of_whole hn).2]
    rfl

/-- A valid payload is read back as it was written. -/
theorem canonicalPayload_written (h : canonicalPayload type payload = .ok p) (hvalid : p.Valid) :
    p.value.throughJson = p.value ∧ canonicalPayload type (some p.value) = .ok p := by
  cases type with
  | keystroke => exact canonicalEdit_written h hvalid
  | paste => exact canonicalEdit_written h hvalid
  | select =>
    obtain ⟨-, r, -, -, rfl⟩ := canonicalPayload_select_ok h
    have hr : r.Valid := hvalid
    constructor
    · simp only [Payload.value, Value.throughJson_object, Value.fieldsThroughJson_cons,
        Value.fieldsThroughJson_nil, hr.throughJson]
    · change (do return Payload.select (← canonicalRange (some r.value))) = _
      rw [canonicalRange_of_valid hr]
      rfl
  | snapshot =>
    obtain ⟨code, rfl⟩ := canonicalPayload_snapshot_ok h
    exact ⟨rfl, rfl⟩

end Payloads

theorem serializeEvent_ok (h : serializeEvent ev = .ok record) :
    ∃ ts, 0 ≤ ts ∧ ev.ts = .finite ts ∧ record.ts = (Number.finite ts).floor.max 0 ∧
      isPlaybackEventType ev.type = some record.type ∧
      canonicalPayload record.type ev.payload = .ok record.payload := by
  rw [serializeEvent] at h
  split at h
  next => cases h
  next type htype =>
    split at h
    next ts hts =>
      split at h
      next => cases h
      next hnonneg =>
        obtain ⟨p, hp, hrecord⟩ := bind_eq_ok.1 h
        cases hrecord
        exact ⟨ts, not_lt.1 hnonneg, hts, by rw [hts], htype, hp⟩
    next => cases h

/-- An accepted event is stored with whole numbers exactly if its values convert. -/
theorem serializeEvent_valid_iff (h : serializeEvent ev = .ok record) :
    record.Valid ↔ ev.converts = true := by
  obtain ⟨ts, -, -, hts, htype, hp⟩ := serializeEvent_ok h
  have hwhole : WholeFrom 0 record.ts := hts ▸ integer_finite 0 ts
  have hpayload := canonicalPayload_valid_iff hp
  rw [BodyEvent.converts, isPlaybackEventType_text] at hpayload
  rw [Event.Valid, BodyEvent.converts, htype, hpayload]
  exact and_iff_right hwhole

theorem deserializeEvent_written (h : serializeEvent ev = .ok record) (hvalid : record.Valid) :
    deserializeEvent record.written = some record := by
  obtain ⟨ts, -, -, -, -, hp⟩ := serializeEvent_ok h
  obtain ⟨hts, hpayload⟩ := hvalid
  obtain ⟨hwritten, hread⟩ := canonicalPayload_written hp hpayload
  obtain ⟨htime, hint⟩ := integer_of_whole hts
  obtain ⟨fields, hfields⟩ : ∃ fields, record.payload.value = .object fields := by
    cases record.payload <;> exact ⟨_, rfl⟩
  rw [deserializeEvent, Event.written, isPlaybackEventType_text, htime, hwritten]
  rw [hfields] at hread ⊢
  change ((integer 0 (some (.number record.ts))).toOption.bind fun ts =>
    (canonicalPayload record.type (some (.object fields))).toOption.bind fun payload =>
      some (⟨record.type, ts, payload⟩ : Event)) = _
  rw [hint, hread]
  rfl

theorem serializeAll_ok {events : List BodyEvent} {records : List Event}
    (h : serializeAll events = .ok records) :
    List.Forall₂ (fun ev record => serializeEvent ev = .ok record) events records := by
  induction events generalizing records with
  | nil =>
    cases h
    exact .nil
  | cons ev events ih =>
    obtain ⟨record, hrecord, h⟩ := bind_eq_ok.1 h
    obtain ⟨records, hrecords, h⟩ := bind_eq_ok.1 h
    cases h
    exact .cons hrecord (ih hrecords)

/-- The records of a list of events are valid exactly if the values of each event convert. -/
theorem records_valid_iff {events : List BodyEvent} {records : List Event}
    (h : List.Forall₂ (fun ev record => serializeEvent ev = .ok record) events records) :
    (∀ record ∈ records, record.Valid) ↔ ∀ ev ∈ events, ev.converts = true := by
  induction h with
  | nil => exact iff_of_true (List.forall_mem_nil _) (List.forall_mem_nil _)
  | cons hrecord _ ih =>
    rw [List.forall_mem_cons, List.forall_mem_cons, serializeEvent_valid_iff hrecord, ih]

/-- Valid records are all read back. -/
theorem filterMap_written {events : List BodyEvent} {records : List Event}
    (h : List.Forall₂ (fun ev record => serializeEvent ev = .ok record) events records)
    (hvalid : ∀ record ∈ records, record.Valid) :
    (records.map Event.written).filterMap deserializeEvent = records := by
  induction h with
  | nil => rfl
  | cons hrecord _ ih =>
    rw [List.forall_mem_cons] at hvalid
    rw [List.map_cons, List.filterMap_cons_some (deserializeEvent_written hrecord hvalid.1),
      ih hvalid.2]

/-- Accepted events are stored with whole numbers and read back in the order of their times exactly
if their values convert. -/
theorem stored_events_iff (body : Value) (events : List BodyEvent) (records : List Event)
    (_hbody : flushSchema body = some events) (hrecords : serializeEvents events = .ok records) :
    ((∀ record ∈ records, record.Valid) ∧
        deserializeEvents (records.map Event.written) = records.mergeSort byTime) ↔
      ∀ ev ∈ events, ev.converts = true := by
  rw [serializeEvents] at hrecords
  split at hrecords
  next => cases hrecords
  next =>
    have hall := serializeAll_ok hrecords
    rw [← records_valid_iff hall, and_iff_left_iff_imp]
    intro hvalid
    rw [deserializeEvents, filterMap_written hall hvalid]

/-- A letter that is pasted at a range written with a text, a fraction and a place before the
document. -/
def pastedBody : Value :=
  .object [("events", .array [.object [("type", .string (units "paste")),
    ("ts", .number (.finite 7)), ("payload", .object [("text", .string (units "x")),
      ("range", .object [("startLineNumber", .string (units " 2 ")),
        ("startColumn", .number (.finite (5 / 2))), ("endLineNumber", .number (.finite 2)),
        ("endColumn", .number (.finite (-3)))])])]])]

def pastedRecord : Event :=
  ⟨.paste, .finite 7, .edit ⟨.finite 2, .finite 2, .finite 2, .finite 1⟩ (units "x") (.finite 0)⟩

theorem stored_events_pasted :
    (∀ record ∈ [pastedRecord], record.Valid) ∧
      deserializeEvents ([pastedRecord].map Event.written) = [pastedRecord].mergeSort byTime :=
  (stored_events_iff pastedBody _ [pastedRecord] rfl (by decide +kernel)).2
    (List.forall_mem_singleton.2 (by decide +kernel))

/-- A letter typed at a range without fields. -/
def emptyRangeBody : Value :=
  .object [("events", .array [.object [("type", .string (units "keystroke")),
    ("ts", .number (.finite 0)),
    ("payload", .object [("range", .object []), ("text", .string (units "x"))])]])]

def emptyRangeRecord : Event :=
  ⟨.keystroke, .finite 0, .edit ⟨.nan, .nan, .nan, .nan⟩ (units "x") (.finite 0)⟩

/-- It is accepted and stored without numbers, and read back at the start of the document. -/
theorem empty_range_stored :
    (flushSchema emptyRangeBody).map serializeEvents = some (.ok [emptyRangeRecord]) ∧
      ¬emptyRangeRecord.Valid ∧
      deserializeEvents ([emptyRangeRecord].map Event.written) =
        [⟨.keystroke, .finite 0, .edit ⟨.finite 1, .finite 1, .finite 1, .finite 1⟩ (units "x")
          (.finite 0)⟩] := by
  refine ⟨by decide +kernel, ?_, ?_⟩
  · rintro ⟨-, ⟨⟨n, -, hn⟩, -, -, -⟩, -⟩
    cases hn
  · rw [deserializeEvents]
    exact List.mergeSort_singleton _

def ofRange (r : PlaybackRange) : Range :=
  ⟨.finite r.startLineNumber, .finite r.startColumn, .finite r.endLineNumber, .finite r.endColumn⟩

def ofPayload : PlaybackPayload → Payload
  | .keystroke edit | .paste edit => .edit (ofRange edit.range) edit.text (.finite edit.rangeLength)
  | .select selection => .select (ofRange selection)
  | .snapshot code => .snapshot code

/-- An event of an editor as JSON values. -/
def ofEvent (ev : PlaybackEvent) : Event := ⟨ev.payload.type, .finite ev.ts, ofPayload ev.payload⟩

theorem integer_int (least : Nat) (n : Int) :
    integer least (some (.number (.finite n))) = .ok (.finite (Max.max (least : Int) n : Int)) := by
  change Except.ok (Number.finite (Max.max (least : ℚ) ⌊(n : ℚ)⌋)) = _
  rw [Int.floor_intCast, Int.cast_max, Int.cast_natCast]

theorem canonicalRange_ofRange (r : PlaybackRange) :
    canonicalRange (some (ofRange r).value) = .ok (ofRange (Leetrank.canonicalRange r)) := by
  change (do return (⟨← integer 1 (some (.number (.finite r.startLineNumber))),
    ← integer 1 (some (.number (.finite r.startColumn))),
    ← integer 1 (some (.number (.finite r.endLineNumber))),
    ← integer 1 (some (.number (.finite r.endColumn)))⟩ : Range)) = _
  rw [integer_int, integer_int, integer_int, integer_int]
  rfl

/-- On the events of an editor the checks do what they do on the typed events. -/
theorem serializeEvent_ofEvent {ev : PlaybackEvent} (h : 0 ≤ ev.ts) :
    serializeEvent ⟨ev.payload.type.text, .finite ev.ts, some (ofPayload ev.payload).value⟩ =
      .ok (ofEvent ev.canonical) := by
  have hedit (type : PlaybackEventType) (edit : KeystrokePayload) :
      canonicalEdit type (some (ofPayload (.keystroke edit)).value) =
        .ok (ofPayload (.keystroke edit.canonical)) := by
    change (canonicalRange (some (ofRange edit.range).value) >>= fun r =>
      integer 0 (some (.number (.finite edit.rangeLength))) >>= fun n =>
        return Payload.edit r edit.text n) = _
    rw [canonicalRange_ofRange, integer_int]
    rfl
  have hpayload : canonicalPayload ev.payload.type (some (ofPayload ev.payload).value) =
      .ok (ofPayload ev.payload.canonical) := by
    cases ev.payload with
    | keystroke edit => exact hedit .keystroke edit
    | paste edit => exact hedit .paste edit
    | select selection =>
      change (canonicalRange (some (ofRange selection).value) >>= fun r =>
        return Payload.select r) = _
      rw [canonicalRange_ofRange]
      rfl
    | snapshot code => rfl
  have hts : (Number.finite ev.ts).floor.max 0 = .finite (wholeMs ev.ts) := by
    rw [wholeMs, Int.cast_max]
    rfl
  have htype : ev.payload.canonical.type = ev.payload.type := by
    cases ev.payload <;> rfl
  simp only [serializeEvent, isPlaybackEventType_text, not_lt.2 h, if_false, hpayload, hts]
  rw [ofEvent, PlaybackEvent.canonical, htype]
  rfl

end Wire
end Leetrank
