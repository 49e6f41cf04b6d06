import Leetrank.Playback.Frames
import Leetrank.Library.TextPosition
import Mathlib.Data.List.GetD

namespace Leetrank
set_option autoImplicit true
open TextPosition

def linesOf (code : JsString) : List JsString := code.splitOn newline

/-- A place in a document: on one of its lines, and not beyond the end of that line. -/
structure InDocument (code : JsString) (line column : Int) : Prop where
  line_pos : 1 ≤ line
  line_le : line ≤ (linesOf code).length
  column_pos : 1 ≤ column
  column_le : column ≤ ((linesOf code).getD (line - 1).toNat []).length + 1

structure RangeInDocument (code : JsString) (range : PlaybackRange) : Prop where
  start : InDocument code range.startLineNumber range.startColumn
  stop : InDocument code range.endLineNumber range.endColumn
  ordered : range.startLineNumber < range.endLineNumber ∨
    range.startLineNumber = range.endLineNumber ∧ range.startColumn ≤ range.endColumn

/-- How many code units come before a place: the lines above it, each with its newline, and what
is left of it on its own. -/
def trueOffset (code : JsString) (line column : Int) : Nat :=
  lineStart newline code (line - 1).toNat + (column - 1).toNat

/-- The line of an offset. -/
def lineOf (code : JsString) (offset : Nat) : Int := TextPosition.line newline code offset + 1

/-- The column of an offset. -/
def columnOf (code : JsString) (offset : Nat) : Int := TextPosition.column newline code offset + 1

variable {code text : JsString} {range : PlaybackRange} {line column : Int}

/-- The loop stops at the start of the line it looks for. -/
theorem skipLines_eq (pre : JsString) {rest : JsString} {n : Nat}
    (hn : n < (rest.splitOn newline).length) :
    skipLines (pre ++ rest) pre.length n = pre.length + lineStart newline rest n := by
  induction n generalizing pre rest with
  | zero => rfl
  | succ n ih =>
    induction rest using lines_induction newline with
    | last s hs =>
      rw [splitOn_last hs, List.length_singleton] at hn
      omega
    | cons first rest hfirst _ =>
      have hlt : pre.length < (pre ++ (first ++ newline :: rest)).length := by
        rw [List.length_append, List.length_append, List.length_cons]
        omega
      have hindex : JsString.indexOf (pre ++ (first ++ newline :: rest)) newline pre.length =
          some (pre.length + first.length) := by
        have hfound : (first ++ newline :: rest).idxOf? newline = some first.length := by
          rw [List.idxOf?_eq_some_iff]
          refine ⟨by simp, by simp, fun i hi heq => hfirst ?_⟩
          rw [List.getElem_append_left hi] at heq
          exact heq ▸ List.getElem_mem hi
        rw [JsString.indexOf, List.drop_left, hfound, Option.map_some]
      have hrest : n < (rest.splitOn newline).length := by
        rw [splitOn_line hfirst, List.length_cons] at hn
        exact Nat.lt_of_succ_lt_succ hn
      have hih := ih (pre ++ first ++ [newline]) hrest
      have happ : pre ++ first ++ [newline] ++ rest = pre ++ (first ++ newline :: rest) := by
        rw [List.append_assoc, List.append_assoc, List.singleton_append]
      have hlen : (pre ++ first ++ [newline]).length = pre.length + first.length + 1 := by
        rw [List.length_append, List.length_append, List.length_singleton]
      rw [happ, hlen] at hih
      rw [skipLines, if_pos hlt, hindex, lineStart_succ hfirst]
      calc
        skipLines (pre ++ (first ++ newline :: rest)) (pre.length + first.length + 1) n =
            pre.length + first.length + 1 + lineStart newline rest n := hih
        _ = pre.length + (first.length + 1 + lineStart newline rest n) := by omega

theorem InDocument.inText (h : InDocument code line column) :
    InText newline code (line - 1).toNat (column - 1).toNat := by
  have hpos := h.line_pos
  have hle := h.line_le
  have hlt : (line - 1).toNat < (linesOf code).length := by omega
  have hcol := h.column_le
  rw [List.getD_eq_getElem _ _ hlt] at hcol
  exact ⟨(linesOf code)[(line - 1).toNat], List.getElem?_eq_getElem hlt, by omega⟩

theorem inDocument_of_inText {n c : Nat} (h : InText newline code n c) :
    InDocument code (n + 1) (c + 1) := by
  obtain ⟨l, hl, hc⟩ := h
  obtain ⟨hlt, rfl⟩ := List.getElem?_eq_some_iff.1 hl
  have hn : ((n : Int) + 1 - 1).toNat = n := by omega
  refine ⟨by omega, ?_, by omega, ?_⟩
  · rw [linesOf]
    omega
  · rw [hn, linesOf, List.getD_eq_getElem _ _ hlt]
    omega

/-- In a document the scan for the newlines finds the true offset. -/
theorem offsetForPosition_eq (h : InDocument code line column) :
    offsetForPosition code line column = trueOffset code line column := by
  have hin := h.inText
  have hle := (position_of_inText hin).1
  have hpos := h.line_pos
  have hcol := h.column_pos
  have hskip : skipLines code 0 (line - 1).toNat = lineStart newline code (line - 1).toNat := by
    obtain ⟨l, hl, -⟩ := hin
    have hskip := skipLines_eq [] (List.getElem?_eq_some_iff.1 hl).1
    rwa [List.nil_append, List.length_nil, Nat.zero_add] at hskip
  unfold offsetForPosition trueOffset
  by_cases hfirst : line ≤ 1
  · have hzero : (line - 1).toNat = 0 := by omega
    rw [hzero, lineStart_zero] at hle ⊢
    rw [if_pos hfirst]
    omega
  · rw [if_neg hfirst, hskip]
    omega

/-- An offset is that of its line and column. -/
theorem offsetForPosition_position {offset : Nat} (h : offset ≤ code.length) :
    InDocument code (lineOf code offset) (columnOf code offset) ∧
      offsetForPosition code (lineOf code offset) (columnOf code offset) = offset := by
  obtain ⟨heq, hin⟩ := lineStart_add_column newline h
  have hdoc : InDocument code (lineOf code offset) (columnOf code offset) :=
    inDocument_of_inText hin
  refine ⟨hdoc, ?_⟩
  have hline : (lineOf code offset - 1).toNat = TextPosition.line newline code offset := by
    rw [lineOf]
    omega
  have hcolumn : (columnOf code offset - 1).toNat = TextPosition.column newline code offset := by
    rw [columnOf]
    omega
  rw [offsetForPosition_eq hdoc, trueOffset, hline, hcolumn, heq]

/-- A place is the line and column of its offset. -/
theorem position_trueOffset (h : InDocument code line column) :
    trueOffset code line column ≤ code.length ∧
      lineOf code (trueOffset code line column) = line ∧
      columnOf code (trueOffset code line column) = column := by
  obtain ⟨hle, hline, hcolumn⟩ := position_of_inText h.inText
  have hpos := h.line_pos
  have hcol := h.column_pos
  refine ⟨hle, ?_, ?_⟩
  · rw [lineOf, trueOffset, hline]
    omega
  · rw [columnOf, trueOffset, hcolumn]
    omega

/-- The places of a range are in the order of their offsets. -/
theorem RangeInDocument.offset_le (h : RangeInDocument code range) :
    trueOffset code range.startLineNumber range.startColumn ≤
      trueOffset code range.endLineNumber range.endColumn := by
  have hstart := h.start.line_pos
  have hstop := h.stop.line_pos
  apply offset_le_of_inText h.start.inText h.stop.inText
  obtain hlt | ⟨heq, hle⟩ := h.ordered
  · left
    omega
  · right
    rw [heq]
    omega

/-- An edit of a range of the document is a splice. -/
theorem RangeInDocument.applyEdit_eq (h : RangeInDocument code range) (text : JsString) :
    applyEdit code range text =
      code.take (trueOffset code range.startLineNumber range.startColumn) ++ text ++
        code.drop (trueOffset code range.endLineNumber range.endColumn) := by
  have hnot := Nat.not_lt.2 h.offset_le
  rw [applyEdit, offsetForPosition_eq h.start, offsetForPosition_eq h.stop]
  exact if_neg hnot

/-- Edits splice, and the offset of a place and the place of an offset are inverse. -/
theorem applyEdit_splices (code : JsString) :
    (∀ range text, RangeInDocument code range →
      applyEdit code range text =
        code.take (trueOffset code range.startLineNumber range.startColumn) ++ text ++
          code.drop (trueOffset code range.endLineNumber range.endColumn)) ∧
      (∀ offset, offset ≤ code.length →
        InDocument code (lineOf code offset) (columnOf code offset) ∧
          offsetForPosition code (lineOf code offset) (columnOf code offset) = offset) ∧
      ∀ line column, InDocument code line column →
        offsetForPosition code line column = trueOffset code line column ∧
          lineOf code (offsetForPosition code line column) = line ∧
          columnOf code (offsetForPosition code line column) = column := by
  refine ⟨fun range text h => h.applyEdit_eq text, fun offset h => offsetForPosition_position h, ?_⟩
  intro line column h
  obtain ⟨-, hline, hcolumn⟩ := position_trueOffset h
  rw [offsetForPosition_eq h]
  exact ⟨rfl, hline, hcolumn⟩

/-- The range from the second line's first column to the empty last line. -/
theorem rangeInDocument_lines : RangeInDocument [1, 10, 2, 3, 10] ⟨2, 1, 3, 1⟩ :=
  ⟨⟨by decide, by decide, by decide, by decide⟩, ⟨by decide, by decide, by decide, by decide⟩,
    by decide⟩

theorem applyEdit_splices_lines :
    applyEdit [1, 10, 2, 3, 10] ⟨2, 1, 3, 1⟩ [4, 10] = [1, 10] ++ [4, 10] ++ [] ∧
      offsetForPosition [1, 10, 2, 3, 10] (lineOf [1, 10, 2, 3, 10] 5)
        (columnOf [1, 10, 2, 3, 10] 5) = 5 :=
  ⟨(applyEdit_splices [1, 10, 2, 3, 10]).1 ⟨2, 1, 3, 1⟩ [4, 10] rangeInDocument_lines,
    ((applyEdit_splices [1, 10, 2, 3, 10]).2.1 5 (by decide)).2⟩

/-- The cursor after a text is where the text ends in the document that has it. -/
theorem RangeInDocument.collapsedAfter_eq (h : RangeInDocument code range) (text : JsString) :
    let stop := trueOffset code range.startLineNumber range.startColumn + text.length
    let line := lineOf (applyEdit code range text) stop
    let column := columnOf (applyEdit code range text) stop
    collapsedAfter range text = ⟨line, column, line, column⟩ := by
  obtain ⟨hle, hline, hcolumn⟩ := position_trueOffset h.start
  generalize hstart : trueOffset code range.startLineNumber range.startColumn = start at *
  have hlen : (code.take start).length = start := by
    rw [List.length_take, Nat.min_eq_left hle]
  have hedit := h.applyEdit_eq text
  rw [hstart] at hedit
  have hline' : lineOf (applyEdit code range text) (start + text.length) =
      range.startLineNumber + ((text.splitOn newline).length - 1 : Nat) := by
    have happ := line_append newline (code.take start) text
      (code.drop (trueOffset code range.endLineNumber range.endColumn))
    have htake : TextPosition.line newline (code.take start) start =
        TextPosition.line newline code start := by
      rw [TextPosition.line, List.take_take, Nat.min_self, TextPosition.line]
    rw [hlen, htake] at happ
    rw [lineOf] at hline
    rw [hedit, lineOf, happ, length_splitOn]
    omega
  have hcolumn' : columnOf (applyEdit code range text) (start + text.length) =
      if (text.splitOn newline).length - 1 = 0 then
        range.startColumn + ((text.splitOn newline).headD []).length
      else ((text.splitOn newline).getLastD []).length + 1 := by
    have happ := column_append newline (code.take start) text
      (code.drop (trueOffset code range.endLineNumber range.endColumn))
    have htake : TextPosition.column newline (code.take start) start =
        TextPosition.column newline code start := by
      rw [TextPosition.column, List.take_take, Nat.min_self, TextPosition.column]
    rw [hlen, htake] at happ
    rw [columnOf] at hcolumn
    rw [hedit, columnOf, happ, length_splitOn, Nat.add_sub_cancel]
    by_cases hsep : newline ∈ text
    · rw [if_pos hsep, if_neg (Nat.ne_of_gt (List.count_pos_iff.2 hsep)), length_getLast_splitOn]
    · rw [if_neg hsep, if_pos (List.count_eq_zero_of_not_mem hsep), splitOn_last hsep]
      simp only [List.headD_cons]
      omega
  simp only [collapsedAfter, hline', hcolumn']

/-- The frame of an event shows what the event makes of the code that the events before it left. -/
theorem playbackFrom_getElem? (speed : ℚ) (code : JsString) (selection : PlaybackRange) (i : Nat)
    (earlier later : List PlaybackEvent) (ev : PlaybackEvent) :
    ∃ selection', (playbackFrom speed code selection i (earlier ++ ev :: later))[earlier.length]? =
      some ⟨⌊ev.ts / speed⌋, codeAfter (replayed code earlier) ev.payload,
        selectionAfter selection' ev.payload, i + earlier.length⟩ := by
  induction earlier generalizing code selection i with
  | nil => exact ⟨selection, rfl⟩
  | cons ev' earlier ih =>
    obtain ⟨selection', hframe⟩ := ih (codeAfter code ev'.payload)
      (selectionAfter selection ev'.payload) (i + 1)
    refine ⟨selection', ?_⟩
    rw [List.cons_append, playbackFrom, List.length_cons, List.getElem?_cons_succ, hframe,
      replayed_cons, Nat.add_assoc, Nat.add_comm 1]

/-- After an edit within the document playback selects the end of the text that was put in. -/
theorem playback_cursor (opts : PlaybackOptions) (earlier later : List PlaybackEvent)
    (ev : PlaybackEvent) (edit : KeystrokePayload)
    (hev : ev.payload = .keystroke edit ∨ ev.payload = .paste edit)
    (hrange : RangeInDocument (replayed (opts.initialCode.getD []) earlier) edit.range) :
    ∃ frame, (playback (earlier ++ ev :: later) opts)[earlier.length]? = some frame ∧
      frame.code =
        applyEdit (replayed (opts.initialCode.getD []) earlier) edit.range edit.text ∧
      let stop := trueOffset (replayed (opts.initialCode.getD []) earlier)
        edit.range.startLineNumber edit.range.startColumn + edit.text.length
      frame.selection = ⟨lineOf frame.code stop, columnOf frame.code stop,
        lineOf frame.code stop, columnOf frame.code stop⟩ := by
  obtain ⟨selection, hframe⟩ := playbackFrom_getElem? opts.rate (opts.initialCode.getD [])
    DEFAULT_SELECTION 0 earlier later ev
  obtain hev | hev := hev
  all_goals
    rw [hev] at hframe
    exact ⟨_, hframe, rfl, hrange.collapsedAfter_eq edit.text⟩

theorem playback_cursor_lines :
    ∃ frame, (playback [⟨0, .paste ⟨⟨2, 1, 3, 1⟩, [4, 10], 3⟩⟩]
        ⟨none, some [1, 10, 2, 3, 10]⟩)[0]? = some frame ∧
      frame.code = [1, 10, 4, 10] ∧ frame.selection = ⟨3, 1, 3, 1⟩ := by
  obtain ⟨frame, hframe, hcode, hselection⟩ :=
    playback_cursor ⟨none, some [1, 10, 2, 3, 10]⟩ [] [] ⟨0, .paste ⟨⟨2, 1, 3, 1⟩, [4, 10], 3⟩⟩
      ⟨⟨2, 1, 3, 1⟩, [4, 10], 3⟩ (.inr rfl) rangeInDocument_lines
  have hcode' : frame.code = [1, 10, 4, 10] := by
    rw [hcode]
    decide
  refine ⟨frame, hframe, hcode', ?_⟩
  rw [hselection, hcode']
  decide

end Leetrank
