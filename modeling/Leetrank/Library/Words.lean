import Mathlib.Data.List.Basic
import Mathlib.Data.List.TakeWhile

namespace Words
set_option autoImplicit true

variable {α : Type u} {p : α → Bool} {sep : α} {a : α} {l w : List α} {ws : List (List α)} {n : Nat}

/-- A word is not empty, and of letters only. -/
structure Word (p : α → Bool) (w : List α) : Prop where
  ne_nil : w ≠ []
  letters : ∀ a ∈ w, p a = true

/-- The maximal runs of letters. -/
def words (p : α → Bool) (l : List α) : List (List α) :=
  (l.splitOnP fun a => !p a).filter fun w => !w.isEmpty

/-- The words with a separator between each two. -/
def join (sep : α) : List (List α) → List α
  | [] => []
  | [w] => w
  | w :: ws => w ++ sep :: join sep ws

/-- A text of words with single separators between them. -/
def Joined (p : α → Bool) (sep : α) (l : List α) : Prop :=
  ∃ ws, (∀ w ∈ ws, Word p w) ∧ l = join sep ws

theorem join_cons_of_ne_nil (w : List α) (h : ws ≠ []) :
    join sep (w :: ws) = w ++ sep :: join sep ws := by
  cases ws with
  | nil => exact absurd rfl h
  | cons v ws => rfl

theorem join_eq_nil_iff (h : ∀ w ∈ ws, Word p w) : join sep ws = [] ↔ ws = [] := by
  cases ws with
  | nil => exact iff_of_true rfl rfl
  | cons w ws =>
    have hw := (h w List.mem_cons_self).ne_nil
    refine iff_of_false ?_ (List.cons_ne_nil w ws)
    cases ws with
    | nil => exact hw
    | cons v ws => exact fun h => hw (List.append_eq_nil_iff.1 h).1

theorem join_last (h : ∀ w ∈ ws, Word p w) (ha : a ∈ (join sep ws).getLast?) : p a = true := by
  induction ws with
  | nil => cases ha
  | cons w ws ih =>
    obtain ⟨hw, hws⟩ := List.forall_mem_cons.1 h
    by_cases hnil : ws = []
    · subst hnil
      exact hw.letters a (List.mem_of_getLast? ha)
    · rw [join_cons_of_ne_nil w hnil, List.getLast?_append_cons,
        List.getLast?_cons_of_ne_nil fun h => hnil ((join_eq_nil_iff hws).1 h)] at ha
      exact ih hws ha

theorem words_cons_of_not (h : p sep = false) (l : List α) : words p (sep :: l) = words p l := by
  have hsep : (!p sep) = true := by rw [h]; rfl
  rw [words, List.splitOnP_cons_eq_if_modifyHead, if_pos hsep]
  rfl

theorem words_append_cons (hw : Word p w) (h : p sep = false) (l : List α) :
    words p (w ++ sep :: l) = w :: words p l := by
  have hletters : ∀ a ∈ w, (!p a) = false := fun a ha => by rw [hw.letters a ha]; rfl
  have hsep : (!p sep) = true := by rw [h]; rfl
  rw [words, List.splitOnP_append_cons_of_forall_mem hletters sep hsep,
    List.filter_cons_of_pos (by simpa using hw.ne_nil)]
  rfl

theorem words_word (hw : Word p w) : words p w = [w] := by
  have hletters : ∀ a ∈ w, (!p a) = false := fun a ha => by rw [hw.letters a ha]; rfl
  rw [words, List.splitOnP_eq_singleton hletters,
    List.filter_cons_of_pos (by simpa using hw.ne_nil), List.filter_nil]

/-- A text is empty, or starts with no letter, or is a word, or starts with a word before another
character. -/
theorem text_induction {P : List α → Prop} (nil : P [])
    (skip : ∀ a l, p a = false → P l → P (a :: l)) (last : ∀ w, Word p w → P w)
    (next : ∀ w a l, Word p w → p a = false → P l → P (w ++ a :: l)) (l : List α) : P l := by
  induction hn : l.length using Nat.strongRecOn generalizing l with
  | ind n ih =>
    cases l with
    | nil => exact nil
    | cons a l =>
      subst hn
      cases ha : p a with
      | false => exact skip a l ha (ih l.length (Nat.lt_succ_self _) l rfl)
      | true =>
        have hword : Word p (List.takeWhile p (a :: l)) := by
          refine ⟨?_, fun b hb => List.mem_takeWhile_imp hb⟩
          rw [List.takeWhile_cons_of_pos ha]
          exact List.cons_ne_nil _ _
        rw [← List.takeWhile_append_dropWhile (p := p) (l := a :: l)]
        cases hrest : List.dropWhile p (a :: l) with
        | nil =>
          rw [List.append_nil]
          exact last _ hword
        | cons b rest =>
          have hb : p b = false := by
            have hhead := List.head?_dropWhile_not p (a :: l)
            rw [hrest] at hhead
            exact hhead
          refine next _ b rest hword hb (ih rest.length ?_ rest rfl)
          have hlength := congrArg List.length
            (List.takeWhile_append_dropWhile (p := p) (l := a :: l))
          rw [hrest, List.length_append, List.length_cons] at hlength
          omega

theorem words_are_words (p : α → Bool) (l : List α) : ∀ w ∈ words p l, Word p w := by
  induction l using text_induction (p := p) with
  | nil => exact fun _ h => nomatch h
  | skip a l ha ih =>
    rw [words_cons_of_not ha]
    exact ih
  | last w hw =>
    rw [words_word hw]
    exact List.forall_mem_singleton.2 hw
  | next w a l hw ha ih =>
    rw [words_append_cons hw ha]
    exact List.forall_mem_cons.2 ⟨hw, ih⟩

theorem words_join (hsep : p sep = false) (h : ∀ w ∈ ws, Word p w) :
    words p (join sep ws) = ws := by
  induction ws with
  | nil => rfl
  | cons w ws ih =>
    obtain ⟨hw, hws⟩ := List.forall_mem_cons.1 h
    cases ws with
    | nil => exact words_word hw
    | cons v ws =>
      rw [join_cons_of_ne_nil w (List.cons_ne_nil v ws), words_append_cons hw hsep, ih hws]

theorem joined_join (p : α → Bool) (sep : α) (l : List α) : Joined p sep (join sep (words p l)) :=
  ⟨words p l, words_are_words p l, rfl⟩

theorem Joined.eq (hsep : p sep = false) (h : Joined p sep l) : join sep (words p l) = l := by
  obtain ⟨ws, hws, rfl⟩ := h
  rw [words_join hsep hws]

theorem joined_word (hw : Word p w) : Joined p sep w :=
  ⟨[w], List.forall_mem_singleton.2 hw, rfl⟩

/-- After a word and a separator the text goes on with words. -/
theorem joined_append_cons_iff (hsep : p sep = false) (hw : Word p w) (l : List α) :
    Joined p sep (w ++ sep :: l) ↔ l ≠ [] ∧ Joined p sep l := by
  constructor
  · intro h
    have heq := h.eq hsep
    rw [words_append_cons hw hsep] at heq
    cases hl : words p l with
    | nil =>
      rw [hl] at heq
      have hlength := congrArg List.length heq
      rw [join, List.length_append, List.length_cons] at hlength
      omega
    | cons v ws =>
      rw [hl, join_cons_of_ne_nil w (List.cons_ne_nil v ws), ← hl] at heq
      have hrest : join sep (words p l) = l := (List.cons.inj (List.append_cancel_left heq)).2
      refine ⟨?_, hrest ▸ joined_join p sep l⟩
      rintro rfl
      cases hl
  · rintro ⟨hne, ws, hws, rfl⟩
    refine ⟨w :: ws, List.forall_mem_cons.2 ⟨hw, hws⟩, (join_cons_of_ne_nil w ?_).symm⟩
    rintro rfl
    exact hne rfl

theorem Word.take (hw : Word p w) (n : Nat) : Word p (w.take (n + 1)) := by
  refine ⟨?_, fun a ha => hw.letters a (List.mem_of_mem_take ha)⟩
  rw [ne_eq, List.take_eq_nil_iff, not_or]
  exact ⟨Nat.succ_ne_zero n, hw.ne_nil⟩

theorem length_join_take (w : List α) (hws : ws ≠ []) {k : Nat} (hk : 0 < k) :
    (join sep ((w :: ws).take (k + 1))).length =
      w.length + (1 + (join sep (ws.take k)).length) := by
  have hne : ws.take k ≠ [] := by
    rw [ne_eq, List.take_eq_nil_iff, not_or]
    exact ⟨hk.ne', hws⟩
  rw [List.take_succ_cons, join_cons_of_ne_nil w hne, List.length_append, List.length_cons,
    Nat.add_comm 1]

/-- The lengths of the first words of a text, told by the first one and by those of the rest. -/
theorem lengths_cons_iff (w : List α) (hws : ws ≠ []) (n : Nat) :
    (∀ k, 0 < k → k < (w :: ws).length → (join sep ((w :: ws).take k)).length ≠ n) ↔
      w.length ≠ n ∧
        ∀ k, 0 < k → k < ws.length → w.length + (1 + (join sep (ws.take k)).length) ≠ n := by
  have hlength : 0 < ws.length := List.length_pos_iff.2 hws
  constructor
  · intro hall
    refine ⟨hall 1 Nat.one_pos (Nat.succ_lt_succ hlength), ?_⟩
    intro k hk hlt
    rw [← length_join_take w hws hk]
    exact hall (k + 1) (Nat.succ_pos k) (Nat.succ_lt_succ hlt)
  · rintro ⟨hone, hall⟩ k hk hlt
    obtain ⟨k, rfl⟩ := Nat.exists_eq_add_of_lt hk
    rw [Nat.zero_add] at hlt ⊢
    rcases Nat.eq_zero_or_pos k with rfl | hpos
    · exact hone
    · rw [length_join_take w hws hpos]
      exact hall k hpos (Nat.lt_of_succ_lt_succ hlt)

/-- A cut behind the first separator is a cut of the words after it. -/
theorem take_beyond (w : List α) (sep : α) (l : List α) (m : Nat) :
    (w ++ sep :: l).take (w.length + (1 + m) + 1) = w ++ sep :: l.take (m + 1) := by
  have hrest : w.length + (1 + m) + 1 - w.length = m + 1 + 1 := by omega
  rw [List.take_append, List.take_of_length_le (by omega), hrest, List.take_succ_cons]

/-- A cut leaves a text of words unless the last element that it leaves is a separator: the one
after the first words. -/
theorem joined_take_iff (hsep : p sep = false) (h : ∀ w ∈ ws, Word p w) (n : Nat) :
    Joined p sep ((join sep ws).take (n + 1)) ↔
      ∀ k, 0 < k → k < ws.length → (join sep (ws.take k)).length ≠ n := by
  induction ws generalizing n with
  | nil =>
    refine iff_of_true ⟨[], List.forall_mem_nil _, List.take_nil⟩ ?_
    intro k _ hlt
    exact absurd hlt (Nat.not_lt_zero k)
  | cons w ws ih =>
    obtain ⟨hw, hws⟩ := List.forall_mem_cons.1 h
    by_cases hnil : ws = []
    · subst hnil
      refine iff_of_true (joined_word (hw.take n)) ?_
      intro k hk hlt
      rw [List.length_singleton] at hlt
      omega
    · rw [join_cons_of_ne_nil w hnil, lengths_cons_iff w hnil]
      rcases lt_trichotomy n w.length with hn | rfl | hn
      · rw [List.take_append_of_le_length hn]
        refine iff_of_true (joined_word (hw.take n)) ⟨hn.ne', ?_⟩
        intro k _ _
        omega
      · -- The cut is right after the separator that follows the first word.
        refine iff_of_false ?_ fun hall => hall.1 rfl
        rw [List.take_append, List.take_of_length_le (Nat.le_succ _), Nat.add_sub_cancel_left,
          List.take_succ_cons, List.take_zero, joined_append_cons_iff hsep hw]
        exact fun hjoined => hjoined.1 rfl
      · obtain ⟨m, rfl⟩ : ∃ m, n = w.length + (1 + m) := ⟨n - w.length - 1, by omega⟩
        have hne : (join sep ws).take (m + 1) ≠ [] := by
          rw [ne_eq, List.take_eq_nil_iff, not_or, join_eq_nil_iff hws]
          exact ⟨Nat.succ_ne_zero m, hnil⟩
        rw [take_beyond, joined_append_cons_iff hsep hw, and_iff_right hne, ih hws,
          and_iff_right hn.ne]
        simp only [ne_eq, Nat.add_left_cancel_iff]

end Words
