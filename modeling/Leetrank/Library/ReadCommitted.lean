import Mathlib.Logic.Function.Basic

namespace ReadCommitted
set_option autoImplicit true

/-- A table at the isolation level READ COMMITTED: the committed rows and, for a row that an open
transaction has changed, the number of that transaction and its version of the row. Such a row is
locked. The list names the rows that may be locked. -/
structure Table (κ ρ : Type) where
  rows : κ → Option ρ
  pending : κ → Option (Nat × ρ)
  touched : List κ
  mem_touched : ∀ k, (pending k).isSome = true → k ∈ touched

def Table.ofRows (rows : κ → Option ρ) : Table κ ρ where
  rows := rows
  pending := fun _ => none
  touched := []
  mem_touched := fun _ h => nomatch h

/-- A transaction sees its own changes and otherwise what was committed last. -/
def Table.visible (T : Table κ ρ) (t : Nat) (k : κ) : Option ρ :=
  match T.pending k with
  | some (t', r) => if t' = t then some r else T.rows k
  | none => T.rows k

/-- The transaction would have to wait for another one to change this row. -/
def Table.lockedFor (T : Table κ ρ) (t : Nat) (k : κ) : Bool :=
  match T.pending k with
  | some (t', _) => t' != t
  | none => false

def Table.write [DecidableEq κ] (T : Table κ ρ) (t : Nat) (k : κ) (r : ρ) : Table κ ρ where
  rows := T.rows
  pending := Function.update T.pending k (some (t, r))
  touched := k :: T.touched
  mem_touched := by
    intro k' h
    by_cases hk : k' = k
    · exact hk ▸ List.mem_cons_self
    · rw [Function.update_of_ne hk] at h
      exact List.mem_cons_of_mem k (T.mem_touched k' h)

/-- The table without the changes of a transaction. -/
def Table.rollback (T : Table κ ρ) (t : Nat) : Table κ ρ where
  rows := T.rows
  pending := fun k => (T.pending k).filter fun p => p.1 != t
  touched := T.touched
  mem_touched := by
    intro k h
    apply T.mem_touched
    cases hp : T.pending k with
    | none => rw [hp] at h; exact h
    | some p => rfl

def Table.commit (T : Table κ ρ) (t : Nat) : Table κ ρ :=
  { T.rollback t with rows := T.visible t }

/-- An update of the row with this key: it changes nothing if the transaction sees no such row,
and waits if the row is locked. -/
def Table.updateKey [DecidableEq κ] (T : Table κ ρ) (t : Nat) (k : κ) (f : ρ → ρ) :
    Option (Table κ ρ) :=
  match T.visible t k with
  | none => some T
  | some r => if T.lockedFor t k then none else some (T.write t k (f r))

/-- A statement that commits by itself and changes the rows that satisfy a condition. -/
def Table.updateWhere (T : Table κ ρ) (cond : κ → ρ → Bool) (f : ρ → ρ) : Table κ ρ :=
  { T with rows := fun k => (T.rows k).map fun r => if cond k r then f r else r }

/-- A committed row that satisfies the condition is locked. -/
def Table.blocked (T : Table κ ρ) (cond : κ → ρ → Bool) : Bool :=
  T.touched.any fun k => (T.pending k).isSome && (T.rows k).any (cond k)

def Table.insertNow [DecidableEq κ] (T : Table κ ρ) (k : κ) (r : ρ) : Table κ ρ :=
  { T with rows := Function.update T.rows k (some r) }

variable {T : Table κ ρ}

theorem Table.lockedFor_eq_false (h : T.lockedFor t k = false) (hp : T.pending k = some (t', r)) :
    t' = t := by
  rw [Table.lockedFor, hp] at h
  exact bne_eq_false_iff_eq.1 h

/-- An update that does not wait: it finds no row, or changes the one that it sees. -/
theorem Table.updateKey_cases [DecidableEq κ] (h : T.updateKey t k f = some T') :
    (T.visible t k = none ∧ T' = T) ∨
      ∃ r, T.visible t k = some r ∧ T.lockedFor t k = false ∧ T' = T.write t k (f r) := by
  rw [Table.updateKey] at h
  split at h
  next hv =>
    cases h
    exact .inl ⟨hv, rfl⟩
  next r hv =>
    split at h
    next => cases h
    next hl =>
      cases h
      exact .inr ⟨r, hv, Bool.not_eq_true _ ▸ hl, rfl⟩

theorem Table.cond_of_not_blocked {cond : κ → ρ → Bool} (h : T.blocked cond = false)
    (hp : T.pending k = some p) (hr : T.rows k = some r) : cond k r = false := by
  have hk := T.mem_touched k (by rw [hp]; rfl)
  have hno := List.any_eq_false.1 h k hk
  rw [hp, hr] at hno
  simpa using hno

theorem Table.blocked_mono {cond cond' : κ → ρ → Bool}
    (h : ∀ k r, cond k r = true → cond' k r = true) (hb : T.blocked cond' = false) : T.blocked cond = false := by
  rw [Table.blocked, List.any_eq_false] at hb ⊢
  intro k hk hc
  apply hb k hk
  rw [Bool.and_eq_true, Option.any_eq_true] at hc ⊢
  obtain ⟨hp, r, hr, hcond⟩ := hc
  exact ⟨hp, r, hr, h k r hcond⟩

/-- The transaction has changed exactly the rows in the list, to the versions in it. -/
def Table.Wrote (T : Table κ ρ) (t : Nat) (changes : List (κ × ρ)) : Prop :=
  ∀ k r, T.pending k = some (t, r) ↔ (k, r) ∈ changes

theorem Table.Wrote.visible_of_not_mem (h : T.Wrote t changes) (hm : ∀ r, (k, r) ∉ changes) :
    T.visible t k = T.rows k := by
  rw [Table.visible]
  split
  next t' r hp =>
    split
    next ht => exact absurd ((h k r).1 (ht ▸ hp)) (hm r)
    next => rfl
  next => rfl

theorem Table.Wrote.write [DecidableEq κ] (h : T.Wrote t changes)
    (hk : ∀ r, (k, r) ∉ changes) (r : ρ) : (T.write t k r).Wrote t ((k, r) :: changes) := by
  intro k' r'
  rw [List.mem_cons]
  by_cases hne : k' = k
  · subst k'
    simp only [Table.write, Function.update_self]
    constructor
    · intro he
      cases he
      exact .inl rfl
    · rintro (he | hmem)
      · cases he
        rfl
      · exact absurd hmem (hk r')
  · simp only [Table.write, Function.update_of_ne hne, h k' r']
    constructor
    · exact .inr
    · rintro (he | hmem)
      · cases he
        exact absurd rfl hne
      · exact hmem

theorem Table.pending_rollback (T : Table κ ρ) (t : Nat) :
    (T.rollback t).pending k = some (t', r) ↔ T.pending k = some (t', r) ∧ t' ≠ t := by
  simp [Table.rollback, Option.filter_eq_some_iff]

/-- An open version of a row after a write is the one written, or was there before. -/
theorem Table.pending_write [DecidableEq κ] (h : (T.write t k r).pending k' = some x) :
    k' = k ∧ x = (t, r) ∨ k' ≠ k ∧ T.pending k' = some x := by
  change Function.update T.pending k (some (t, r)) k' = some x at h
  by_cases hk : k' = k
  · subst hk
    rw [Function.update_self] at h
    cases h
    exact .inl ⟨rfl, rfl⟩
  · rw [Function.update_of_ne hk] at h
    exact .inr ⟨hk, h⟩

theorem Table.Wrote.rollback (T : Table κ ρ) (t : Nat) : (T.rollback t).Wrote t [] := by
  intro k r
  rw [Table.pending_rollback]
  constructor
  · exact fun h => absurd rfl h.2
  · exact fun h => absurd h List.not_mem_nil

theorem Table.Wrote.commit (T : Table κ ρ) (t : Nat) : (T.commit t).Wrote t [] :=
  Table.Wrote.rollback T t

/-- The rows after changes, the first of which is made last. -/
def overwrite [DecidableEq κ] (rows : κ → Option ρ) : List (κ × ρ) → κ → Option ρ
  | [] => rows
  | (k, r) :: changes => Function.update (overwrite rows changes) k (some r)

theorem overwrite_of_mem [DecidableEq κ] (rows : κ → Option ρ) (hm : (k, r) ∈ changes) :
    ∃ r', (k, r') ∈ changes ∧ overwrite rows changes k = some r' := by
  induction changes with
  | nil => exact absurd hm List.not_mem_nil
  | cons change changes ih =>
    obtain ⟨k', r'⟩ := change
    by_cases hk : k = k'
    · subst k'
      exact ⟨r', List.mem_cons_self, Function.update_self ..⟩
    · rcases List.mem_cons.1 hm with he | hm
      · exact absurd (congrArg Prod.fst he) hk
      · obtain ⟨r₁, hr₁, ho⟩ := ih hm
        exact ⟨r₁, List.mem_cons_of_mem _ hr₁, (Function.update_of_ne hk ..).trans ho⟩

theorem overwrite_of_not_mem [DecidableEq κ] (rows : κ → Option ρ) (hm : ∀ r, (k, r) ∉ changes) :
    overwrite rows changes k = rows k := by
  induction changes with
  | nil => rfl
  | cons change changes ih =>
    obtain ⟨k', r'⟩ := change
    have hk : k ≠ k' := by
      rintro rfl
      exact hm r' List.mem_cons_self
    exact (Function.update_of_ne hk ..).trans (ih fun r hr => hm r (List.mem_cons_of_mem _ hr))

/-- A commit makes the changes of the transaction to the rows that were committed before. -/
theorem Table.Wrote.rows_commit [DecidableEq κ] (h : T.Wrote t changes) :
    (T.commit t).rows = overwrite T.rows changes := by
  funext k
  change T.visible t k = overwrite T.rows changes k
  by_cases hm : ∃ r, (k, r) ∈ changes
  · obtain ⟨r, hr⟩ := hm
    obtain ⟨r', hr', ho⟩ := overwrite_of_mem T.rows hr
    rw [ho, Table.visible, (h k r').2 hr']
    exact if_pos rfl
  · rw [not_exists] at hm
    rw [h.visible_of_not_mem hm, overwrite_of_not_mem T.rows hm]

/-- A step of one transaction, or of a statement that commits by itself, that keeps the locks of all
others: it changes neither their versions nor the rows that they have locked. -/
structure Table.Respects (T : Table κ ρ) (t : Nat) (T' : Table κ ρ) : Prop where
  pending : ∀ k t' r, t' ≠ t → (T'.pending k = some (t', r) ↔ T.pending k = some (t', r))
  rows : ∀ k t' r, t' ≠ t → T.pending k = some (t', r) → T'.rows k = T.rows k

theorem Table.Respects.refl (T : Table κ ρ) (t : Nat) : T.Respects t T :=
  ⟨fun _ _ _ _ => Iff.rfl, fun _ _ _ _ _ => rfl⟩

theorem Table.Respects.write [DecidableEq κ] (hl : T.lockedFor t k = false) (r : ρ) :
    T.Respects t (T.write t k r) := by
  refine ⟨?_, fun _ _ _ _ _ => rfl⟩
  intro k' t' r' hne
  by_cases hk : k' = k
  · subst k'
    simp only [Table.write, Function.update_self]
    constructor
    · intro he
      cases he
      exact absurd rfl hne
    · exact fun hp => absurd (Table.lockedFor_eq_false hl hp) hne
  · simp only [Table.write, Function.update_of_ne hk]

theorem Table.Respects.rollback (T : Table κ ρ) (t : Nat) : T.Respects t (T.rollback t) := by
  refine ⟨?_, fun _ _ _ _ _ => rfl⟩
  intro k t' r hne
  rw [Table.pending_rollback]
  exact and_iff_left hne

theorem Table.Respects.commit (T : Table κ ρ) (t : Nat) : T.Respects t (T.commit t) := by
  refine ⟨(Table.Respects.rollback T t).pending, ?_⟩
  intro k t' r hne hp
  change T.visible t k = T.rows k
  rw [Table.visible, hp]
  exact if_neg hne

theorem Table.Respects.updateWhere {cond : κ → ρ → Bool} (h : T.blocked cond = false) (t : Nat)
    (f : ρ → ρ) : T.Respects t (T.updateWhere cond f) := by
  refine ⟨fun _ _ _ _ => Iff.rfl, ?_⟩
  intro k t' r _ hp
  cases hr : T.rows k with
  | none => simp [Table.updateWhere, hr]
  | some r' => simp [Table.updateWhere, hr, Table.cond_of_not_blocked h hp hr]

theorem Table.Respects.insertNow [DecidableEq κ] (h : T.pending k = none) (t : Nat) (r : ρ) :
    T.Respects t (T.insertNow k r) := by
  refine ⟨fun _ _ _ _ => Iff.rfl, ?_⟩
  intro k' t' r' _ hp
  have hne : k' ≠ k := by
    intro he
    rw [he, h] at hp
    cases hp
  exact Function.update_of_ne hne _ _

theorem Table.Wrote.respects (h : T.Wrote t changes) (hr : T.Respects t' T') (hne : t ≠ t') :
    T'.Wrote t changes := by
  intro k r
  rw [hr.pending k t r hne]
  exact h k r

theorem Table.Wrote.rows_respects (h : T.Wrote t changes) (hm : (k, r) ∈ changes)
    (hr : T.Respects t' T') (hne : t ≠ t') : T'.rows k = T.rows k :=
  hr.rows k t r hne ((h k r).2 hm)

end ReadCommitted
