import Leetrank.Playback.Events

namespace Leetrank
set_option autoImplicit true

structure PlaybackOptions where
  speed : Option ℚ
  initialCode : Option JsString

structure PlaybackFrame where
  ts : Int
  code : JsString
  selection : PlaybackRange
  eventIndex : Nat

def DEFAULT_SELECTION : PlaybackRange := ⟨1, 1, 1, 1⟩

def newline : UInt16 := 10

/-- The first place of a code unit from an offset on. -/
def JsString.indexOf (s : JsString) (c : UInt16) (offset : Nat) : Option Nat :=
  ((s.drop offset).idxOf? c).map (offset + ·)

/-- The offset at which the loop stops that skips a number of lines. -/
def skipLines (code : JsString) (offset : Nat) : Nat → Nat
  | 0 => offset
  | lines + 1 =>
    if offset < code.length then
      match JsString.indexOf code newline offset with
      | none => code.length
      | some nl => skipLines code (nl + 1) lines
    else offset

/-- The offset of a place, counted from line and column 1, within the code. -/
def offsetForPosition (code : JsString) (line column : Int) : Nat :=
  if line ≤ 1 then (min (code.length : Int) (column - 1)).toNat
  else (min (code.length : Int) (skipLines code 0 (line - 1).toNat + (column - 1))).toNat

def applyEdit (code : JsString) (range : PlaybackRange) (text : JsString) : JsString :=
  let start := offsetForPosition code range.startLineNumber range.startColumn
  let stop := offsetForPosition code range.endLineNumber range.endColumn
  if stop < start then code else code.take start ++ text ++ code.drop stop

/-- The cursor after a text that is put in the place of a range. -/
def collapsedAfter (range : PlaybackRange) (text : JsString) : PlaybackRange :=
  let lines := text.splitOn newline
  let lineDelta := lines.length - 1
  let endLine := range.startLineNumber + lineDelta
  let endColumn : Int :=
    if lineDelta = 0 then range.startColumn + (lines.headD []).length
    else (lines.getLastD []).length + 1
  ⟨endLine, endColumn, endLine, endColumn⟩

/-- The code after an event. -/
def codeAfter (code : JsString) : PlaybackPayload → JsString
  | .snapshot code' => code'
  | .select _ => code
  | .keystroke edit | .paste edit => applyEdit code edit.range edit.text

def selectionAfter (selection : PlaybackRange) : PlaybackPayload → PlaybackRange
  | .snapshot _ => selection
  | .select selection' => selection'
  | .keystroke edit | .paste edit => collapsedAfter edit.range edit.text

def playbackFrom (speed : ℚ) (code : JsString) (selection : PlaybackRange) (i : Nat) :
    List PlaybackEvent → List PlaybackFrame
  | [] => []
  | ev :: events =>
    let code' := codeAfter code ev.payload
    let selection' := selectionAfter selection ev.payload
    ⟨⌊ev.ts / speed⌋, code', selection', i⟩ ::
      playbackFrom speed code' selection' (i + 1) events

/-- The speed that is asked for, if it is positive. -/
def PlaybackOptions.rate (opts : PlaybackOptions) : ℚ :=
  match opts.speed with
  | some speed => if 0 < speed then speed else 1
  | none => 1

def playback (events : List PlaybackEvent) (opts : PlaybackOptions) : List PlaybackFrame :=
  playbackFrom opts.rate (opts.initialCode.getD []) DEFAULT_SELECTION 0 events

def durationMs (events : List PlaybackEvent) : ℚ :=
  match events.getLast? with
  | none => 0
  | some ev => max 0 ev.ts

/-- The code of the last frame. -/
def finalCode (events : List PlaybackEvent) (opts : PlaybackOptions) : Option JsString :=
  (playback events opts).getLast?.map fun frame => frame.code

/-- The code that events turn a code into. -/
def replayed (code : JsString) (events : List PlaybackEvent) : JsString :=
  events.foldl (fun code ev => codeAfter code ev.payload) code

variable {code code' : JsString} {ev : PlaybackEvent} {events : List PlaybackEvent}

theorem replayed_cons (code : JsString) (ev : PlaybackEvent) (events : List PlaybackEvent) :
    replayed code (ev :: events) = replayed (codeAfter code ev.payload) events :=
  rfl

/-- A frame for each event, in order. -/
theorem playback_length (events : List PlaybackEvent) (opts : PlaybackOptions) :
    (playback events opts).length = events.length := by
  have hfrom (code : JsString) (selection : PlaybackRange) (i : Nat) :
      (playbackFrom opts.rate code selection i events).length = events.length := by
    induction events generalizing code selection i with
    | nil => rfl
    | cons ev events ih => rw [playbackFrom, List.length_cons, ih, List.length_cons]
  exact hfrom _ _ _

theorem getLast?_playbackFrom (speed : ℚ) (code : JsString) (selection : PlaybackRange) (i : Nat)
    (ev : PlaybackEvent) (events : List PlaybackEvent) :
    (playbackFrom speed code selection i (ev :: events)).getLast?.map (fun frame => frame.code) =
      some (replayed code (ev :: events)) := by
  induction events generalizing code selection i ev with
  | nil => rfl
  | cons ev' events ih =>
    rw [playbackFrom, replayed_cons]
    have hrest := ih (codeAfter code ev.payload) (selectionAfter selection ev.payload) (i + 1) ev'
    rw [playbackFrom] at hrest ⊢
    rw [List.getLast?_cons_cons]
    exact hrest

/-- The last frame shows what the events make of the initial code. -/
theorem finalCode_eq (hne : events ≠ []) (opts : PlaybackOptions) :
    finalCode events opts = some (replayed (opts.initialCode.getD []) events) := by
  obtain ⟨ev, events, rfl⟩ := List.exists_cons_of_ne_nil hne
  exact getLast?_playbackFrom _ _ _ _ ev events

/-- An offset lies within the code. -/
theorem offsetForPosition_le (code : JsString) (line column : Int) :
    offsetForPosition code line column ≤ code.length := by
  unfold offsetForPosition
  split <;> omega

/-- An edit replaces what lies between two places by its text. -/
theorem applyEdit_length (code : JsString) (range : PlaybackRange) (text : JsString) :
    let start := offsetForPosition code range.startLineNumber range.startColumn
    let stop := offsetForPosition code range.endLineNumber range.endColumn
    start ≤ stop → (applyEdit code range text).length + (stop - start) =
      code.length + text.length := by
  intro start stop hle
  have hstop : stop ≤ code.length := offsetForPosition_le ..
  have hnot : ¬stop < start := Nat.not_lt.2 hle
  have hedit : applyEdit code range text = code.take start ++ text ++ code.drop stop :=
    if_neg hnot
  rw [hedit, List.length_append, List.length_append, List.length_take, List.length_drop]
  omega

example : applyEdit [1, 10, 2, 3, 10, 4] ⟨2, 1, 2, 3⟩ [5] = [1, 10, 5, 10, 4] := by decide

end Leetrank
