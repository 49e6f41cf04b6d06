import Mathlib.Algebra.GroupWithZero.Nat
import Mathlib.Data.List.TakeWhile

namespace TextPosition
set_option autoImplicit true

variable {α : Type u} [DecidableEq α] {sep : α} {first rest s t : List α}

/-- The number of separators before an offset. -/
def line (sep : α) (s : List α) (offset : Nat) : Nat := (s.take offset).count sep

/-- How far an offset is from the start of its line. -/
def column (sep : α) (s : List α) (offset : Nat) : Nat :=
  ((s.take offset).reverse.takeWhile (· != sep)).length

/-- Where a line starts: after the lines before it, each with its separator. -/
def lineStart (sep : α) (s : List α) (line : Nat) : Nat :=
  (((s.splitOn sep).take line).map fun l => l.length + 1).sum

/-- A column of a line of a text, the place after its last element included. -/
def InText (sep : α) (s : List α) (line column : Nat) : Prop :=
  ∃ l, (s.splitOn sep)[line]? = some l ∧ column ≤ l.length

/-- Induction on the lines of a text. -/
theorem lines_induction {motive : List α → Prop} (sep : α)
    (last : ∀ l, sep ∉ l → motive l)
    (cons : ∀ first rest, sep ∉ first → motive rest → motive (first ++ sep :: rest))
    (s : List α) : motive s := by
  induction hn : s.length using Nat.strong_induction_on generalizing s with
  | _ n ih =>
    by_cases hsep : sep ∈ s
    · obtain ⟨first, rest, rfl, hfirst⟩ := List.eq_append_cons_of_mem hsep
      have hlt : rest.length < n := by
        rw [← hn, List.length_append, List.length_cons]
        omega
      exact cons first rest hfirst (ih _ hlt rest rfl)
    · exact last s hsep

theorem splitOn_last (h : sep ∉ s) : s.splitOn sep = [s] :=
  List.splitOn_eq_singleton h

theorem splitOn_line (h : sep ∉ first) :
    (first ++ sep :: rest).splitOn sep = first :: rest.splitOn sep :=
  List.splitOn_append_cons_self_of_not_mem h rest

@[simp]
theorem lineStart_zero : lineStart sep s 0 = 0 :=
  rfl

theorem lineStart_succ (h : sep ∉ first) (n : Nat) :
    lineStart sep (first ++ sep :: rest) (n + 1) = first.length + 1 + lineStart sep rest n := by
  rw [lineStart, splitOn_line h, List.take_succ_cons, List.map_cons, List.sum_cons, lineStart]

theorem takeWhile_line (h : sep ∉ s) : s.takeWhile (· != sep) = s := by
  rw [List.takeWhile_eq_self_iff]
  intro x hx
  exact bne_iff_ne.2 fun heq => h (heq ▸ hx)

/-- What comes before a separator does not count for the column. -/
theorem takeWhile_append_separator (s t : List α) :
    (s ++ sep :: t).takeWhile (· != sep) = s.takeWhile (· != sep) := by
  induction s with
  | nil => simp
  | cons x s ih =>
    by_cases hx : x = sep
    · subst hx
      simp
    · have hne : (x != sep) = true := bne_iff_ne.2 hx
      simp only [List.cons_append, List.takeWhile_cons, hne, if_true, ih]

omit [DecidableEq α] in
theorem not_mem_take (h : sep ∉ s) (offset : Nat) : sep ∉ s.take offset :=
  fun hmem => h (List.mem_of_mem_take hmem)

/-- The offsets of a text of one line. -/
theorem line_last (h : sep ∉ s) (offset : Nat) : line sep s offset = 0 :=
  List.count_eq_zero_of_not_mem (not_mem_take h offset)

theorem column_last (h : sep ∉ s) {offset : Nat} (hle : offset ≤ s.length) :
    column sep s offset = offset := by
  have hnot : sep ∉ (s.take offset).reverse := by
    rw [List.mem_reverse]
    exact not_mem_take h offset
  rw [column, takeWhile_line hnot, List.length_reverse, List.length_take, Nat.min_eq_left hle]

omit [DecidableEq α] in
/-- The offsets of the first line. -/
theorem take_first {offset : Nat} (hle : offset ≤ first.length) :
    (first ++ sep :: rest).take offset = first.take offset :=
  List.take_append_of_le_length hle

omit [DecidableEq α] in
/-- The offsets of the later lines. -/
theorem take_later (offset : Nat) :
    (first ++ sep :: rest).take (first.length + 1 + offset) =
      first ++ sep :: rest.take offset := by
  rw [Nat.add_assoc, List.take_length_add_append, Nat.add_comm 1, List.take_succ_cons]

theorem line_later (h : sep ∉ first) (offset : Nat) :
    line sep (first ++ sep :: rest) (first.length + 1 + offset) = line sep rest offset + 1 := by
  rw [line, take_later, List.count_append, List.count_eq_zero_of_not_mem h, List.count_cons_self,
    Nat.zero_add, line]

theorem column_later (offset : Nat) :
    column sep (first ++ sep :: rest) (first.length + 1 + offset) = column sep rest offset := by
  rw [column, take_later, List.reverse_append, List.reverse_cons, List.append_assoc,
    List.singleton_append, takeWhile_append_separator, column]

/-- An offset lies at its column of its line. -/
theorem lineStart_add_column (sep : α) {offset : Nat} (h : offset ≤ s.length) :
    lineStart sep s (line sep s offset) + column sep s offset = offset ∧
      InText sep s (line sep s offset) (column sep s offset) := by
  induction s using lines_induction sep generalizing offset with
  | last s hs =>
    rw [line_last hs, column_last hs h, lineStart_zero, Nat.zero_add]
    exact ⟨rfl, s, by rw [splitOn_last hs]; rfl, h⟩
  | cons first rest hfirst ih =>
    by_cases hle : offset ≤ first.length
    · have hline : line sep (first ++ sep :: rest) offset = 0 := by
        rw [line, take_first hle, ← line, line_last hfirst]
      have hcolumn : column sep (first ++ sep :: rest) offset = offset := by
        rw [column, take_first hle, ← column, column_last hfirst hle]
      rw [hline, hcolumn, lineStart_zero, Nat.zero_add]
      exact ⟨rfl, first, by rw [splitOn_line hfirst]; rfl, hle⟩
    · obtain ⟨offset, rfl⟩ := Nat.exists_eq_add_of_lt (Nat.lt_of_not_le hle)
      rw [Nat.add_right_comm] at h ⊢
      have hrest : offset ≤ rest.length := by
        rw [List.length_append, List.length_cons] at h
        omega
      obtain ⟨heq, l, hl, hcol⟩ := ih hrest
      rw [line_later hfirst, column_later, lineStart_succ hfirst, Nat.add_assoc, heq]
      exact ⟨rfl, l, by rw [splitOn_line hfirst, List.getElem?_cons_succ, hl], hcol⟩

/-- A place in a text lies within it, and its offset has it as its line and column. -/
theorem position_of_inText {n column' : Nat} (h : InText sep s n column') :
    lineStart sep s n + column' ≤ s.length ∧
      line sep s (lineStart sep s n + column') = n ∧
      column sep s (lineStart sep s n + column') = column' := by
  obtain ⟨l, hl, hcol⟩ := h
  induction s using lines_induction sep generalizing n with
  | last s hs =>
    rw [splitOn_last hs] at hl
    obtain ⟨rfl, rfl⟩ : n = 0 ∧ s = l := by
      cases n with
      | zero => exact ⟨rfl, Option.some.inj hl⟩
      | succ n => cases hl
    rw [lineStart_zero, Nat.zero_add]
    exact ⟨hcol, line_last hs _, column_last hs hcol⟩
  | cons first rest hfirst ih =>
    rw [splitOn_line hfirst] at hl
    cases n with
    | zero =>
      obtain rfl : first = l := Option.some.inj hl
      rw [lineStart_zero, Nat.zero_add, List.length_append]
      refine ⟨by omega, ?_, ?_⟩
      · rw [line, take_first hcol, ← line, line_last hfirst]
      · rw [column, take_first hcol, ← column, column_last hfirst hcol]
    | succ n =>
      rw [List.getElem?_cons_succ] at hl
      obtain ⟨hle, hline, hcolumn⟩ := ih hl
      rw [lineStart_succ hfirst, Nat.add_assoc, line_later hfirst, column_later, hline, hcolumn,
        List.length_append, List.length_cons]
      exact ⟨by omega, rfl, rfl⟩

/-- Places in the order of their lines and columns are in the order of their offsets. -/
theorem offset_le_of_inText (h : InText sep s n c) (h' : InText sep s n' c')
    (hle : n < n' ∨ n = n' ∧ c ≤ c') : lineStart sep s n + c ≤ lineStart sep s n' + c' := by
  obtain hlt | ⟨rfl, hc⟩ := hle
  · by_contra hnot
    have hmono : line sep s (lineStart sep s n' + c') ≤ line sep s (lineStart sep s n + c) :=
      (List.take_sublist_take_left (Nat.le_of_not_le hnot)).count_le sep
    rw [(position_of_inText h).2.1, (position_of_inText h').2.1] at hmono
    omega
  · omega

/-- The lines after the first are as many as the separators. -/
theorem length_splitOn (s : List α) : (s.splitOn sep).length = s.count sep + 1 := by
  induction s using lines_induction sep with
  | last s hs => rw [splitOn_last hs, List.count_eq_zero_of_not_mem hs]; rfl
  | cons first rest hfirst ih =>
    rw [splitOn_line hfirst, List.length_cons, ih, List.count_append,
      List.count_eq_zero_of_not_mem hfirst, List.count_cons_self, Nat.zero_add]

/-- The last line is what follows the last separator. -/
theorem length_getLast_splitOn (s : List α) :
    ((s.splitOn sep).getLastD []).length = (s.reverse.takeWhile (· != sep)).length := by
  induction s using lines_induction sep with
  | last s hs =>
    have hnot : sep ∉ s.reverse := fun h => hs (List.mem_reverse.1 h)
    rw [splitOn_last hs, takeWhile_line hnot, List.length_reverse]
    rfl
  | cons first rest hfirst ih =>
    obtain ⟨l, ls, hls⟩ := List.exists_cons_of_ne_nil (List.splitOn_ne_nil sep rest)
    have hlast : (first :: rest.splitOn sep).getLastD [] = (rest.splitOn sep).getLastD [] := by
      rw [hls]
      rfl
    rw [splitOn_line hfirst, hlast, ih, List.reverse_append, List.reverse_cons, List.append_assoc,
      List.singleton_append, takeWhile_append_separator]

/-- The line at the end of a text that follows another. -/
theorem line_append (sep : α) (s t u : List α) :
    line sep (s ++ t ++ u) (s.length + t.length) = line sep s s.length + t.count sep := by
  rw [line, ← List.length_append, List.take_left, List.count_append, line, List.take_length]

/-- The column there: on from the column where the text starts, unless the text has a separator. -/
theorem column_append (sep : α) (s t u : List α) :
    column sep (s ++ t ++ u) (s.length + t.length) =
      if sep ∈ t then (t.reverse.takeWhile (· != sep)).length
      else column sep s s.length + t.length := by
  rw [column, ← List.length_append, List.take_left, column, List.take_length, List.reverse_append]
  by_cases hsep : sep ∈ t
  · obtain ⟨a, b, hab, -⟩ := List.eq_append_cons_of_mem (List.mem_reverse.2 hsep)
    rw [if_pos hsep, hab, List.append_assoc, List.cons_append, takeWhile_append_separator,
      takeWhile_append_separator]
  · have hnot : ∀ x ∈ t.reverse, (x != sep) = true := fun x hx =>
      bne_iff_ne.2 fun heq => hsep (heq ▸ List.mem_reverse.1 hx)
    rw [if_neg hsep, List.takeWhile_append_of_pos hnot, List.length_append, List.length_reverse,
      Nat.add_comm]

end TextPosition
