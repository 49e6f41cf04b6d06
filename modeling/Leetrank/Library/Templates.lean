import Mathlib.Data.List.Infix
import Mathlib.Data.List.Induction

namespace Templates
set_option autoImplicit true

/-- A symbol that stands for itself, or a hole to put a text in. -/
inductive Piece (ι : Type u) (α : Type v) where
  | symbol (a : α)
  | hole (i : ι)

/-- Put a text in each hole, in all of them at once. -/
def fill (value : ι → List α) : List (Piece ι α) → List α
  | [] => []
  | .symbol a :: t => a :: fill value t
  | .hole i :: t => value i ++ fill value t

/-- The texts that mark holes. One symbol opens each of them and is nowhere else in them, and none
of them is the front of another. -/
structure Marks (ι : Type u) (α : Type v) where
  holes : List ι
  complete : ∀ i, i ∈ holes
  opening : α
  rest : ι → List α
  opening_not_mem : ∀ i, opening ∉ rest i
  eq_of_prefix : ∀ i j, rest i <+: rest j → i = j

def Marks.mark (M : Marks ι α) (i : ι) : List α := M.opening :: M.rest i

variable {M : Marks ι α} {value : ι → List α} {i j : ι} {a : α} {s u w : List α}

theorem fill_append (value : ι → List α) (t t' : List (Piece ι α)) :
    fill value (t ++ t') = fill value t ++ fill value t' := by
  induction t with
  | nil => rfl
  | cons p t ih =>
    cases p with
    | symbol a => exact congrArg (a :: ·) ih
    | hole i => rw [List.cons_append, fill, ih, fill, List.append_assoc]

theorem Marks.mark_inj (hi : M.mark i <+: s) (hj : M.mark j <+: s) : i = j := by
  rcases List.prefix_or_prefix_of_prefix hi hj with h | h
  · exact M.eq_of_prefix i j (List.cons_prefix_cons.1 h).2
  · exact (M.eq_of_prefix j i (List.cons_prefix_cons.1 h).2).symm

/-- A text begins with a mark, or with a symbol at which there is none. -/
theorem Marks.text_induction (M : Marks ι α) {P : List α → Prop} (nil : P [])
    (mark : ∀ i s, P s → P (M.mark i ++ s))
    (symbol : ∀ a s, (∀ i, ¬M.mark i <+: a :: s) → P s → P (a :: s)) (s : List α) : P s := by
  induction hn : s.length using Nat.strongRecOn generalizing s with
  | ind n ih =>
    subst hn
    cases s with
    | nil => exact nil
    | cons a s =>
      by_cases h : ∃ i, M.mark i <+: a :: s
      · obtain ⟨i, s', hs⟩ := h
        rw [← hs]
        refine mark i s' (ih s'.length ?_ s' rfl)
        rw [← hs, List.length_append, Marks.mark, List.length_cons]
        omega
      · rw [not_exists] at h
        exact symbol a s h (ih s.length (Nat.lt_succ_self _) s rfl)

/-- A mark does not begin before the opening symbol of another and end behind it. -/
theorem Marks.prefix_of_append (h : M.mark j <+: a :: u ++ (M.mark i ++ s)) :
    M.mark j <+: a :: u := by
  rcases List.prefix_or_prefix_of_prefix h (List.prefix_append (a :: u) _) with h | ⟨w, hw⟩
  · exact h
  · cases w with
    | nil => exact ⟨[], by rw [← hw, List.append_nil, List.append_nil]⟩
    | cons b w =>
      rw [← hw, List.prefix_append_right_inj, Marks.mark, List.cons_append,
        List.cons_prefix_cons] at h
      rw [h.1, List.cons_append, Marks.mark, List.cons.injEq] at hw
      have hmem : M.opening ∈ M.rest j := by
        rw [← hw.2]
        exact List.mem_append_right _ List.mem_cons_self
      exact absurd hmem (M.opening_not_mem j)

/-- A text that no mark reaches into: it begins with a symbol that no mark has, and opens none. -/
structure Marks.Inert (M : Marks ι α) (v : List α) : Prop where
  head : ∃ a w, v = a :: w ∧ ∀ i, a ∉ M.mark i
  opening : M.opening ∉ v

/-- Replacing one text by another from the left to the right. -/
structure Replaces (old new : List α) (f : List α → List α) : Prop where
  nil : f [] = []
  occurrence : ∀ s, f (old ++ s) = new ++ f s
  symbol : ∀ a s, ¬old <+: a :: s → f (a :: s) = a :: f s

/-- What has no opening symbol is copied. -/
theorem Replaces.copy {v : List α} {f : List α → List α} (hf : Replaces (M.mark i) v f)
    (hu : M.opening ∉ u) (s : List α) : f (u ++ s) = u ++ f s := by
  induction u with
  | nil => rfl
  | cons a u ih =>
    rw [List.mem_cons, not_or] at hu
    have hfront : ¬M.mark i <+: a :: (u ++ s) := fun h => hu.1 (List.cons_prefix_cons.1 h).1
    rw [List.cons_append, hf.symbol a _ hfront, ih hu.2]
    rfl

theorem Replaces.copy_mark {v : List α} {f : List α → List α} (hf : Replaces (M.mark i) v f)
    (hij : i ≠ j) (s : List α) : f (M.mark j ++ s) = M.mark j ++ f s := by
  have hfront : ¬M.mark i <+: M.opening :: (M.rest j ++ s) :=
    fun h => hij (Marks.mark_inj h (List.prefix_append (M.mark j) s))
  rw [Marks.mark, List.cons_append, hf.symbol _ _ hfront, hf.copy (M.opening_not_mem j)]
  rfl

variable [DecidableEq α]

def Marks.holeAt (M : Marks ι α) (s : List α) : Option ι :=
  M.holes.find? fun i => (M.mark i).isPrefixOf s

/-- Read a text as a template; `skip` counts the symbols of the mark that was just read. -/
def Marks.read (M : Marks ι α) : Nat → List α → List (Piece ι α)
  | _, [] => []
  | skip + 1, _ :: s => M.read skip s
  | 0, a :: s =>
    match M.holeAt (a :: s) with
    | some i => .hole i :: M.read (M.rest i).length s
    | none => .symbol a :: M.read 0 s

/-- Put the values for the marks in a text, for all of them at once. -/
def Marks.subst (M : Marks ι α) (value : ι → List α) (s : List α) : List α :=
  fill value (M.read 0 s)

theorem Marks.holeAt_mark (h : M.mark i <+: s) : M.holeAt s = some i := by
  cases hfind : M.holeAt s with
  | none =>
    have hnone := List.find?_eq_none.1 hfind i (M.complete i)
    exact absurd (List.isPrefixOf_iff_prefix.2 h) hnone
  | some j =>
    have hj := List.find?_some hfind
    rw [Marks.mark_inj (List.isPrefixOf_iff_prefix.1 hj) h]

theorem Marks.holeAt_eq_none (h : ∀ i, ¬M.mark i <+: s) : M.holeAt s = none := by
  rw [Marks.holeAt, List.find?_eq_none]
  exact fun i _ hi => h i (List.isPrefixOf_iff_prefix.1 hi)

theorem Marks.read_skip (u s : List α) : M.read u.length (u ++ s) = M.read 0 s := by
  induction u with
  | nil => rfl
  | cons a u ih => exact ih

theorem Marks.read_mark (i : ι) (s : List α) :
    M.read 0 (M.mark i ++ s) = .hole i :: M.read 0 s := by
  have hat : M.holeAt (M.opening :: (M.rest i ++ s)) = some i :=
    Marks.holeAt_mark (List.prefix_append (M.mark i) s)
  rw [Marks.mark, List.cons_append, Marks.read, hat]
  exact congrArg _ (Marks.read_skip (M.rest i) s)

theorem Marks.read_symbol (h : ∀ i, ¬M.mark i <+: a :: s) :
    M.read 0 (a :: s) = .symbol a :: M.read 0 s := by
  rw [Marks.read, Marks.holeAt_eq_none h]

theorem Marks.fill_read (M : Marks ι α) (s : List α) : fill M.mark (M.read 0 s) = s := by
  induction s using M.text_induction with
  | nil => rfl
  | mark i s ih => rw [Marks.read_mark, fill, ih]
  | symbol a s h ih => rw [Marks.read_symbol h, fill, ih]

theorem Marks.read_append (s : List α) (i : ι) (s' : List α) :
    M.read 0 (s ++ (M.mark i ++ s')) = M.read 0 s ++ .hole i :: M.read 0 s' := by
  induction s using M.text_induction with
  | nil => exact Marks.read_mark i s'
  | mark j s ih =>
    rw [List.append_assoc, Marks.read_mark, ih, Marks.read_mark]
    rfl
  | symbol a s h ih =>
    have hout : ∀ j, ¬M.mark j <+: a :: (s ++ (M.mark i ++ s')) :=
      fun j hj => h j (Marks.prefix_of_append hj)
    rw [List.cons_append, Marks.read_symbol hout, ih, Marks.read_symbol h]
    rfl

/-- An occurrence of a mark is replaced, whatever is around it. -/
theorem Marks.subst_occurrence (value : ι → List α) (s : List α) (i : ι) (s' : List α) :
    M.subst value (s ++ (M.mark i ++ s')) = M.subst value s ++ (value i ++ M.subst value s') := by
  rw [Marks.subst, Marks.read_append, fill_append]
  rfl

/-- A text without marks stays as it is. -/
theorem Marks.subst_of_not_infix (h : ∀ i, ¬M.mark i <:+: s) : M.subst value s = s := by
  induction s with
  | nil => rfl
  | cons a s ih =>
    have hfront : ∀ i, ¬M.mark i <+: a :: s := fun i hi => h i hi.isInfix
    have hrest : ∀ i, ¬M.mark i <:+: s := fun i hi => h i (hi.trans (List.suffix_cons a s).isInfix)
    rw [Marks.subst, Marks.read_symbol hfront, fill]
    exact congrArg (a :: ·) (ih hrest)

variable [DecidableEq ι]

/-- The values for the marks that have been replaced, the others being what they are. -/
def Marks.after (M : Marks ι α) (value : ι → List α) (done : List ι) (i : ι) : List α :=
  if i ∈ done then value i else M.mark i

/-- No piece of a mark comes from a value, nor from a mark behind it. -/
theorem Marks.prefix_of_fill (hv : ∀ i, M.Inert (value i)) (done : List ι) (hw : w ⊆ M.rest i)
    (h : w <+: fill (M.after value done) (M.read 0 s)) : w <+: s := by
  have hopening : M.opening ∉ w := fun hmem => M.opening_not_mem i (hw hmem)
  induction s using M.text_induction generalizing w with
  | nil => exact h
  | mark j s ih =>
    rw [Marks.read_mark, fill] at h
    cases w with
    | nil => exact List.nil_prefix
    | cons b w =>
      rw [Marks.after] at h
      split at h
      next =>
        obtain ⟨a, v, hva, hout⟩ := (hv j).head
        rw [hva, List.cons_append, List.cons_prefix_cons] at h
        have hb : b ∈ M.mark i := List.mem_cons_of_mem _ (hw List.mem_cons_self)
        rw [h.1] at hb
        exact absurd hb (hout i)
      next =>
        rw [Marks.mark, List.cons_append, List.cons_prefix_cons] at h
        rw [h.1] at hopening
        exact absurd List.mem_cons_self hopening
  | symbol a s hfront ih =>
    cases w with
    | nil => exact List.nil_prefix
    | cons b w =>
      rw [List.cons_subset] at hw
      rw [List.mem_cons, not_or] at hopening
      rw [Marks.read_symbol hfront, fill, List.cons_prefix_cons] at h
      exact List.cons_prefix_cons.2 ⟨h.1, ih hw.2 h.2 hopening.2⟩

/-- Replacing one more mark puts its value in its holes and changes nothing else. -/
theorem Replaces.fill_after {f : List α → List α} (hf : Replaces (M.mark i) (value i) f)
    (hv : ∀ i, M.Inert (value i)) (done : List ι) (s : List α) :
    f (fill (M.after value done) (M.read 0 s)) =
      fill (M.after value (done ++ [i])) (M.read 0 s) := by
  induction s using M.text_induction with
  | nil => exact hf.nil
  | mark j s ih =>
    rw [Marks.read_mark, fill, fill, ← ih]
    by_cases hdone : j ∈ done
    · rw [Marks.after, if_pos hdone, Marks.after, if_pos (List.mem_append_left _ hdone)]
      exact hf.copy (hv j).opening _
    · rw [Marks.after, if_neg hdone, Marks.after]
      by_cases hij : i = j
      · subst hij
        rw [if_pos (List.mem_append_right _ List.mem_cons_self)]
        exact hf.occurrence _
      · have hout : j ∉ done ++ [i] := by
          rw [List.mem_append, List.mem_singleton, not_or]
          exact ⟨hdone, Ne.symm hij⟩
        rw [if_neg hout]
        exact hf.copy_mark hij _
  | symbol a s h ih =>
    have hfront : ¬M.mark i <+: a :: fill (M.after value done) (M.read 0 s) := by
      intro hmark
      obtain ⟨ha, hrest⟩ := List.cons_prefix_cons.1 hmark
      refine h i (List.cons_prefix_cons.2 ⟨ha, ?_⟩)
      exact Marks.prefix_of_fill hv done (List.Subset.refl _) hrest
    rw [Marks.read_symbol h, fill, fill, ← ih]
    exact hf.symbol a _ hfront

/-- One replacement after the other, in whatever order, comes to the substitution if every mark has
its turn. -/
theorem Marks.foldl_replace {f : ι → List α → List α}
    (hf : ∀ i, Replaces (M.mark i) (value i) (f i)) (hv : ∀ i, M.Inert (value i))
    {order : List ι} (hall : ∀ i, i ∈ order) (s : List α) :
    order.foldl (fun s i => f i s) s = M.subst value s := by
  have hrun (done : List ι) :
      done.foldl (fun s i => f i s) s = fill (M.after value done) (M.read 0 s) := by
    induction done using List.reverseRecOn with
    | nil =>
      have hafter : M.after value [] = M.mark := funext fun i => if_neg List.not_mem_nil
      rw [hafter, Marks.fill_read]
      rfl
    | append_singleton done i ih =>
      rw [List.foldl_append, ih]
      exact (hf i).fill_after hv done s
  have hafter : M.after value order = value := funext fun i => if_pos (hall i)
  rw [hrun order, hafter, Marks.subst]

end Templates
