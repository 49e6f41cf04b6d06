import Mathlib.Data.List.Nodup

namespace References
set_option autoImplicit true

variable {α : Type u} {κ : Type v}

/-- Every row that refers to a row refers to one that is there. -/
def Referential (key : α → κ) (parent : α → Option κ) (rows : List α) : Prop :=
  ∀ a ∈ rows, ∀ k ∈ parent a, k ∈ rows.map key

/-- A row that refers to no row has depth one, any other one more than the row it refers to. -/
inductive AtDepth (key : α → κ) (parent : α → Option κ) (rows : List α) : Nat → α → Prop where
  | root (ha : a ∈ rows) (hp : parent a = none) : AtDepth key parent rows 1 a
  | reply (ha : a ∈ rows) (hp : parent a = some (key b)) (hb : AtDepth key parent rows n b) :
    AtDepth key parent rows (n + 1) a

/-- Every row has a depth, and none has one above `max`. -/
def Shallow (key : α → κ) (parent : α → Option κ) (max : Nat) (rows : List α) : Prop :=
  ∀ a ∈ rows, ∃ n ≤ max, AtDepth key parent rows n a

variable {key : α → κ} {parent : α → Option κ} {rows kept : List α} {gone : List κ} {a b : α}
  {n m : Nat}

theorem AtDepth.mem (h : AtDepth key parent rows n a) : a ∈ rows := by
  cases h with
  | root ha _ => exact ha
  | reply ha _ _ => exact ha

theorem AtDepth.pos (h : AtDepth key parent rows n a) : 0 < n := by
  cases h with
  | root => exact Nat.one_pos
  | reply => exact Nat.succ_pos _

theorem AtDepth.mono (hsub : rows ⊆ kept) (h : AtDepth key parent rows n a) :
    AtDepth key parent kept n a := by
  induction h with
  | root ha hp => exact .root (hsub ha) hp
  | reply ha hp _ ih => exact .reply (hsub ha) hp ih

/-- Rows that refer among themselves have the depths that they had among more rows. -/
theorem AtDepth.restrict (hkeys : (rows.map key).Nodup) (hsub : kept ⊆ rows)
    (href : Referential key parent kept) (h : AtDepth key parent rows n a) (ha : a ∈ kept) :
    AtDepth key parent kept n a := by
  induction h with
  | root _ hp => exact .root ha hp
  | @reply a b n _ hp hb ih =>
    obtain ⟨c, hc, hkey⟩ := List.mem_map.1 (href a ha (key b) hp)
    have hcb : c = b := List.inj_on_of_nodup_map hkeys (hsub hc) hb.mem hkey
    subst hcb
    exact .reply ha hp (ih hc)

theorem AtDepth.unique (hkeys : (rows.map key).Nodup) (hn : AtDepth key parent rows n a)
    (hm : AtDepth key parent rows m a) : n = m := by
  induction hn generalizing m with
  | root _ hp =>
    cases hm with
    | root => rfl
    | reply _ hp' _ =>
      rw [hp] at hp'
      cases hp'
  | reply _ hp hb ih =>
    cases hm with
    | root _ hp' =>
      rw [hp] at hp'
      cases hp'
    | reply _ hp' hc =>
      rw [hp] at hp'
      have hbc := List.inj_on_of_nodup_map hkeys hb.mem hc.mem (Option.some.inj hp')
      subst hbc
      rw [ih hc]

theorem Shallow.restrict (hkeys : (rows.map key).Nodup) (hsub : kept ⊆ rows)
    (href : Referential key parent kept) (h : Shallow key parent n rows) :
    Shallow key parent n kept := by
  intro a ha
  obtain ⟨m, hm, hdepth⟩ := h a (hsub ha)
  exact ⟨m, hm, hdepth.restrict hkeys hsub href ha⟩

/-- A new row may be put under one that is above the greatest depth. -/
theorem Shallow.concat (h : Shallow key parent n rows) (hpos : 0 < n)
    (ha : ∀ k ∈ parent a, ∃ b m, key b = k ∧ AtDepth key parent rows m b ∧ m < n) :
    Shallow key parent n (rows ++ [a]) := by
  have hsub : rows ⊆ rows ++ [a] := List.subset_append_left rows [a]
  intro c hc
  rcases List.mem_append.1 hc with hc | hc
  · obtain ⟨m, hm, hdepth⟩ := h c hc
    exact ⟨m, hm, hdepth.mono hsub⟩
  · obtain rfl := List.mem_singleton.1 hc
    have hmem : c ∈ rows ++ [c] := List.mem_append_right rows hc
    cases hp : parent c with
    | none => exact ⟨1, hpos, .root hmem hp⟩
    | some k =>
      obtain ⟨b, m, rfl, hdepth, hm⟩ := ha k hp
      exact ⟨m + 1, hm, .reply hmem hp (hdepth.mono hsub)⟩

variable [DecidableEq κ]

/-- A reference to one of some keys. -/
def refersTo (parent : α → Option κ) (gone : List κ) (a : α) : Bool :=
  (parent a).any fun k => decide (k ∈ gone)

/-- Deletion on cascade: where the rows of some keys are gone, those that refer to them go next. -/
def cascade (key : α → κ) (parent : α → Option κ) : Nat → List κ → List α → List α
  | 0, _, rows => rows
  | n + 1, gone, rows =>
    cascade key parent n ((rows.filter (refersTo parent gone)).map key)
      (rows.filter fun a => !refersTo parent gone a)

theorem refersTo_iff : refersTo parent gone a = true ↔ ∃ k ∈ parent a, k ∈ gone := by
  rw [refersTo, Option.any_eq_true]
  simp only [decide_eq_true_eq]
  rfl

theorem cascade_sublist (n : Nat) (gone : List κ) (rows : List α) :
    (cascade key parent n gone rows).Sublist rows := by
  induction n generalizing gone rows with
  | zero => exact List.Sublist.refl rows
  | succ n ih => exact (ih _ _).trans List.filter_sublist

theorem cascade_nil (n : Nat) (rows : List α) : cascade key parent n [] rows = rows := by
  induction n generalizing rows with
  | zero => rfl
  | succ n ih =>
    have hnone : refersTo parent ([] : List κ) = fun _ => false := by
      funext a
      rw [Bool.eq_false_iff]
      intro h
      obtain ⟨k, _, hk⟩ := refersTo_iff.1 h
      cases hk
    simp only [cascade, hnone, List.filter_false, List.map_nil, Bool.not_false, List.filter_true]
    exact ih rows

/-- As many rounds as there are rows, and one more, leave no reference to a row that is gone. -/
theorem referential_cascade (hn : rows.length < n)
    (h : ∀ a ∈ rows, ∀ k ∈ parent a, k ∈ gone ∨ k ∈ rows.map key) :
    Referential key parent (cascade key parent n gone rows) := by
  induction n generalizing gone rows with
  | zero => omega
  | succ n ih =>
    rw [cascade]
    have hrest : ∀ a ∈ rows.filter fun a => !refersTo parent gone a, ∀ k ∈ parent a,
        k ∈ (rows.filter (refersTo parent gone)).map key ∨
          k ∈ (rows.filter fun a => !refersTo parent gone a).map key := by
      intro a ha k hk
      obtain ⟨ha, hkept⟩ := List.mem_filter.1 ha
      rcases h a ha k hk with hgone | hkey
      · rw [refersTo_iff.2 ⟨k, hk, hgone⟩] at hkept
        cases hkept
      · obtain ⟨b, hb, rfl⟩ := List.mem_map.1 hkey
        cases hrefers : refersTo parent gone b with
        | true => exact .inl (List.mem_map_of_mem (List.mem_filter.2 ⟨hb, hrefers⟩))
        | false =>
          exact .inr (List.mem_map_of_mem (List.mem_filter.2 ⟨hb, by rw [hrefers]; rfl⟩))
    have hcount := List.length_eq_length_filter_add (l := rows) (refersTo parent gone)
    cases hnext : rows.filter (refersTo parent gone) with
    | nil =>
      rw [hnext] at hrest
      rw [List.map_nil, cascade_nil]
      intro a ha k hk
      rcases hrest a ha k hk with hnil | hkey
      · cases hnil
      · exact hkey
    | cons b bs =>
      rw [hnext] at hrest hcount
      refine ih ?_ hrest
      rw [List.length_cons] at hcount
      omega

end References
