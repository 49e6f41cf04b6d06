import Mathlib.Data.List.Infix

namespace Delimited
set_option autoImplicit true

variable {d s front inside rest tail : List α} {bs : List (List α × List α)}

/-- Behind a text the delimiter comes for the first time. -/
def First (d : List α) : List α → Prop
  | [] => True
  | a :: front => ¬d <+: a :: (front ++ d) ∧ First d front

instance First.decide [DecidableEq α] (d : List α) : (front : List α) → Decidable (First d front)
  | [] => isTrue trivial
  | a :: front =>
    have := First.decide d front
    inferInstanceAs (Decidable (¬d <+: a :: (front ++ d) ∧ First d front))

/-- Whether a delimiter starts in front of another is decided by what lies up to its end. -/
theorem prefix_append_iff (front rest : List α) :
    d <+: front ++ d ++ rest ↔ d <+: front ++ d := by
  constructor
  · intro h
    refine List.prefix_of_prefix_length_le h (List.prefix_append ..) ?_
    rw [List.length_append]
    exact Nat.le_add_left ..
  · exact fun h => h.trans (List.prefix_append ..)

/-- Blocks with what is in front of each of them, and what follows the last one. -/
def render (d : List α) (bs : List (List α × List α)) (tail : List α) : List α :=
  bs.flatMap (fun b => b.1 ++ d ++ (b.2 ++ d)) ++ tail

theorem render_cons (b : List α × List α) (bs : List (List α × List α)) (tail : List α) :
    render d (b :: bs) tail = b.1 ++ d ++ (b.2 ++ d ++ render d bs tail) := by
  simp only [render, List.flatMap_cons, List.append_assoc]

section

variable [DecidableEq α]

/-- The text before the first delimiter and the text behind it. -/
def cut (d : List α) : List α → Option (List α × List α)
  | [] => if d.isPrefixOf [] then some ([], []) else none
  | a :: s =>
    if d.isPrefixOf (a :: s) then some ([], (a :: s).drop d.length)
    else (cut d s).map fun x => (a :: x.1, x.2)

theorem cut_of_prefixed (h : d <+: s) : cut d s = some ([], s.drop d.length) := by
  cases s with
  | nil =>
    rw [cut, if_pos (List.isPrefixOf_iff_prefix.2 h), List.drop_nil]
  | cons a s => rw [cut, if_pos (List.isPrefixOf_iff_prefix.2 h)]

theorem cut_cons (a : α) (h : ¬d <+: a :: s) :
    cut d (a :: s) = (cut d s).map fun x => (a :: x.1, x.2) := by
  rw [cut, if_neg]
  rwa [List.isPrefixOf_iff_prefix]

theorem cut_complete (h : First d front) (rest : List α) :
    cut d (front ++ d ++ rest) = some (front, rest) := by
  induction front with
  | nil =>
    rw [List.nil_append, cut_of_prefixed (List.prefix_append ..), List.drop_left]
  | cons a front ih =>
    have hnot : ¬d <+: a :: (front ++ d ++ rest) := by
      have hiff := prefix_append_iff (d := d) (a :: front) rest
      exact fun hpre => h.1 (hiff.1 hpre)
    rw [List.cons_append, List.cons_append, cut_cons a hnot, ih h.2]
    rfl

theorem cut_sound (h : cut d s = some (front, rest)) : s = front ++ d ++ rest ∧ First d front := by
  induction s generalizing front with
  | nil =>
    rw [cut] at h
    split at h
    next hpre =>
      cases h
      rw [List.prefix_nil.1 (List.isPrefixOf_iff_prefix.1 hpre)]
      exact ⟨rfl, trivial⟩
    next => cases h
  | cons a s ih =>
    by_cases hpre : d <+: a :: s
    · rw [cut_of_prefixed hpre] at h
      cases h
      obtain ⟨rest, hrest⟩ := hpre
      rw [← hrest, List.drop_left]
      exact ⟨rfl, trivial⟩
    · rw [cut_cons a hpre] at h
      obtain ⟨⟨front, rest⟩, hcut, hx⟩ := Option.map_eq_some_iff.1 h
      cases hx
      obtain ⟨rfl, hfirst⟩ := ih hcut
      refine ⟨rfl, fun hp => hpre ?_, hfirst⟩
      exact (prefix_append_iff (d := d) (a :: front) rest).2 hp

/-- The first block: what is in front of it, what is between its delimiters, and what follows. -/
def firstBlock (d s : List α) : Option (List α × List α × List α) :=
  (cut d s).bind fun (outside, rest) => (cut d rest).map fun (inside, rest) => (outside, inside, rest)

theorem firstBlock_complete (hout : First d front) (hin : First d inside) (rest : List α) :
    firstBlock d (front ++ d ++ (inside ++ d ++ rest)) = some (front, inside, rest) := by
  rw [firstBlock, cut_complete hout, Option.bind_some]
  dsimp only
  rw [cut_complete hin]
  rfl

theorem firstBlock_sound (h : firstBlock d s = some (front, inside, rest)) :
    s = front ++ d ++ (inside ++ d ++ rest) ∧ First d front ∧ First d inside := by
  obtain ⟨⟨outside, rest₁⟩, hout, h⟩ := Option.bind_eq_some_iff.1 h
  obtain ⟨⟨inside, rest₂⟩, hin, hx⟩ := Option.map_eq_some_iff.1 h
  cases hx
  obtain ⟨rfl, hfirst⟩ := cut_sound hout
  obtain ⟨rfl, hfirst'⟩ := cut_sound hin
  exact ⟨rfl, hfirst, hfirst'⟩

/-- The blocks of a text one after the other, from the first delimiter to the next one. -/
def pieces (d s : List α) : List (List α × List α) × List α :=
  match firstBlock d s with
  | none => ([], s)
  | some (outside, inside, rest) =>
    if rest.length < s.length then
      ((outside, inside) :: (pieces d rest).1, (pieces d rest).2)
    else ([], s)
termination_by s.length

/-- Replace each block, with its delimiters. -/
def replaceBlocks (d : List α) (f : List α → List α) (s : List α) : List α :=
  ((pieces d s).1.flatMap fun b => b.1 ++ f (d ++ b.2 ++ d)) ++ (pieces d s).2

theorem pieces_of_none (h : firstBlock d s = none) : pieces d s = ([], s) := by
  rw [pieces, h]

theorem pieces_of_some (hd : d ≠ []) (h : firstBlock d s = some (front, inside, rest)) :
    pieces d s = ((front, inside) :: (pieces d rest).1, (pieces d rest).2) := by
  have hpos : 0 < d.length := List.length_pos_iff.2 hd
  have hlt : rest.length < s.length := by
    rw [(firstBlock_sound h).1]
    simp only [List.length_append]
    omega
  rw [pieces, h]
  dsimp only
  rw [if_pos hlt]

/-- Blocks and a text without any. -/
structure Pieces (d : List α) (bs : List (List α × List α)) (tail : List α) : Prop where
  first : ∀ b ∈ bs, First d b.1 ∧ First d b.2
  tail : firstBlock d tail = none

theorem pieces_complete (hd : d ≠ []) (h : Pieces d bs tail) :
    pieces d (render d bs tail) = (bs, tail) := by
  obtain ⟨hfirst, htail⟩ := h
  induction bs with
  | nil => exact pieces_of_none htail
  | cons b bs ih =>
    rw [List.forall_mem_cons] at hfirst
    rw [render_cons, pieces_of_some hd (firstBlock_complete hfirst.1.1 hfirst.1.2 _), ih hfirst.2]

theorem pieces_sound (hd : d ≠ []) (s : List α) :
    render d (pieces d s).1 (pieces d s).2 = s ∧ Pieces d (pieces d s).1 (pieces d s).2 := by
  induction hn : s.length using Nat.strongRecOn generalizing s with
  | ind n ih =>
    subst hn
    cases h : firstBlock d s with
    | none =>
      rw [pieces_of_none h]
      exact ⟨rfl, nofun, h⟩
    | some b =>
      obtain ⟨outside, inside, rest⟩ := b
      obtain ⟨hs, hout, hin⟩ := firstBlock_sound h
      have hpos : 0 < d.length := List.length_pos_iff.2 hd
      have hlt : rest.length < s.length := by
        rw [hs]
        simp only [List.length_append]
        omega
      obtain ⟨hrender, hpieces⟩ := ih rest.length hlt rest rfl
      rw [pieces_of_some hd h]
      refine ⟨?_, List.forall_mem_cons.2 ⟨⟨hout, hin⟩, hpieces.first⟩, hpieces.tail⟩
      rw [render_cons, hrender, hs]

/-- A replacement that keeps the delimiters leaves the rest of the text and the blocks apart: they
are found again, each with its new inside. -/
theorem pieces_replaceBlocks (hd : d ≠ []) {f g : List α → List α}
    (hf : ∀ inside, f (d ++ inside ++ d) = d ++ g inside ++ d)
    (hg : ∀ inside, First d inside → First d (g inside)) (s : List α) :
    pieces d (replaceBlocks d f s) =
      ((pieces d s).1.map fun b => (b.1, g b.2), (pieces d s).2) := by
  obtain ⟨-, hpieces⟩ := pieces_sound hd s
  have hrender : replaceBlocks d f s =
      render d ((pieces d s).1.map fun b => (b.1, g b.2)) (pieces d s).2 := by
    rw [replaceBlocks, render, List.flatMap_map]
    congr 1
    refine List.flatMap_congr fun b _ => ?_
    rw [hf, List.append_assoc, List.append_assoc]
  rw [hrender]
  refine pieces_complete hd ⟨fun b hb => ?_, hpieces.tail⟩
  obtain ⟨b₀, hmem, rfl⟩ := List.mem_map.1 hb
  obtain ⟨hout, hin⟩ := hpieces.first b₀ hmem
  exact ⟨hout, hg _ hin⟩

/-- Blocks that are replaced by themselves. -/
theorem replaceBlocks_eq_self (hd : d ≠ []) {f : List α → List α}
    (hf : ∀ b ∈ (pieces d s).1, f (d ++ b.2 ++ d) = d ++ b.2 ++ d) : replaceBlocks d f s = s := by
  obtain ⟨hrender, -⟩ := pieces_sound hd s
  have hsame : (pieces d s).1.flatMap (fun b => b.1 ++ f (d ++ b.2 ++ d)) =
      (pieces d s).1.flatMap fun b => b.1 ++ d ++ (b.2 ++ d) := by
    refine List.flatMap_congr fun b hb => ?_
    rw [hf b hb, List.append_assoc, List.append_assoc]
  rw [replaceBlocks, hsame]
  exact hrender

end

end Delimited
