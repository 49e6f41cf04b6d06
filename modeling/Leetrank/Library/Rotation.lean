import Mathlib.Data.Set.Insert
import Mathlib.Logic.Function.Basic
import Mathlib.Logic.Relation

namespace Rotation
set_option autoImplicit true

/-- Tokens that can be used once, either by exchanging one for a successor or by revoking it. -/
@[ext] structure Family (κ : Type) where
  known : Set κ
  spent : Set κ
  parent : κ → Option κ

variable {F F' : Family κ}

def Family.Live (F : Family κ) (k : κ) : Prop := k ∈ F.known ∧ k ∉ F.spent

/-- Every successor was obtained by spending its predecessor, which has no other successor. -/
structure Family.Valid (F : Family κ) : Prop where
  known : ∀ k p, F.parent k = some p → k ∈ F.known ∧ p ∈ F.known
  spent : ∀ k p, F.parent k = some p → p ∈ F.spent
  unforked : ∀ k k' p, F.parent k = some p → F.parent k' = some p → k = k'

/-- The token was revoked before it was ever rotated. -/
structure Family.Barren (F : Family κ) (p : κ) : Prop where
  known : p ∈ F.known
  spent : p ∈ F.spent
  childless : ∀ k, F.parent k ≠ some p

/-- The token was obtained from the other one by one or more rotations. -/
def Family.Descends (F : Family κ) : κ → κ → Prop :=
  Relation.TransGen fun p k => F.parent k = some p

theorem Family.Barren.not_descends (h : F.Barren p) (k : κ) : ¬ F.Descends p k := by
  intro hd
  induction hd with
  | single hk => exact h.childless _ hk
  | tail _ _ ih => exact ih

def Family.revoke (F : Family κ) (S : Set κ) : Family κ := { F with spent := F.spent ∪ S }

theorem Family.Valid.barren_revoke (h : F.Valid) (hl : F.Live p) (hS : p ∈ S) :
    (F.revoke S).Barren p where
  known := hl.1
  spent := .inr hS
  childless := fun k hk => hl.2 (h.spent k p hk)

variable [DecidableEq κ]

def Family.issue (F : Family κ) (k : κ) : Family κ :=
  ⟨insert k F.known, F.spent, Function.update F.parent k none⟩

def Family.rotate (F : Family κ) (p c : κ) : Family κ :=
  ⟨insert c F.known, insert p F.spent, Function.update F.parent c (some p)⟩

/-- The atomic operations: a token is issued once, and only one that was not spent is rotated. -/
inductive Family.Step (F : Family κ) : Family κ → Prop where
  | issue (hk : k ∉ F.known) : Step F (F.issue k)
  | rotate (hp : p ∈ F.known) (hs : p ∉ F.spent) (hc : c ∉ F.known) : Step F (F.rotate p c)
  | revoke (S : Set κ) : Step F (F.revoke S)

theorem Family.parent_issue (h : (F.issue k).parent a = some p) : F.parent a = some p := by
  by_cases hne : a = k
  · rw [hne] at h
    simp [Family.issue] at h
  · simpa [Family.issue, hne] using h

theorem Family.parent_rotate (h : (F.rotate p c).parent a = some q) :
    a = c ∧ q = p ∨ F.parent a = some q := by
  by_cases hne : a = c
  · subst hne
    simp only [Family.rotate, Function.update_self, Option.some.injEq] at h
    exact .inl ⟨rfl, h.symm⟩
  · simp only [Family.rotate, Function.update_of_ne hne] at h
    exact .inr h

theorem Family.Step.known (hs : F.Step F') (hk : k ∈ F.known) : k ∈ F'.known := by
  cases hs with
  | issue | rotate => exact Set.mem_insert_of_mem _ hk
  | revoke => exact hk

theorem Family.Valid.step (h : F.Valid) (hs : F.Step F') : F'.Valid := by
  cases hs with
  | @issue k hk =>
    constructor
    · intro a p ha
      obtain ⟨hk₁, hk₂⟩ := h.known a p (Family.parent_issue ha)
      exact ⟨Set.mem_insert_of_mem k hk₁, Set.mem_insert_of_mem k hk₂⟩
    · exact fun a p ha => h.spent a p (Family.parent_issue ha)
    · exact fun a b p ha hb => h.unforked a b p (Family.parent_issue ha) (Family.parent_issue hb)
  | @rotate p c hp hs hc =>
    constructor
    · intro a q ha
      rcases Family.parent_rotate ha with ⟨rfl, rfl⟩ | ha'
      · exact ⟨Set.mem_insert a _, Set.mem_insert_of_mem a hp⟩
      · obtain ⟨hk₁, hk₂⟩ := h.known a q ha'
        exact ⟨Set.mem_insert_of_mem c hk₁, Set.mem_insert_of_mem c hk₂⟩
    · intro a q ha
      rcases Family.parent_rotate ha with ⟨_, rfl⟩ | ha'
      · exact Set.mem_insert q _
      · exact Set.mem_insert_of_mem p (h.spent a q ha')
    · -- a second successor of `p` would have spent it before
      intro a b q ha hb
      rcases Family.parent_rotate ha with ⟨hac, hq⟩ | ha'
      · rcases Family.parent_rotate hb with ⟨hbc, _⟩ | hb'
        · exact hac.trans hbc.symm
        · exact absurd (h.spent b q hb') (hq ▸ hs)
      · rcases Family.parent_rotate hb with ⟨_, hq⟩ | hb'
        · exact absurd (h.spent a q ha') (hq ▸ hs)
        · exact h.unforked a b q ha' hb'
  | revoke S =>
    exact ⟨h.known, fun a p ha => .inl (h.spent a p ha), h.unforked⟩

theorem Family.Barren.step (h : F.Barren p) (hs : F.Step F') : F'.Barren p := by
  cases hs with
  | @issue k hk =>
    exact ⟨Set.mem_insert_of_mem k h.known, h.spent,
      fun a ha => h.childless a (Family.parent_issue ha)⟩
  | @rotate q c hq hs hc =>
    refine ⟨Set.mem_insert_of_mem c h.known, Set.mem_insert_of_mem q h.spent, ?_⟩
    intro a ha
    rcases Family.parent_rotate ha with ⟨_, hpq⟩ | ha'
    · exact hs (hpq ▸ h.spent)
    · exact h.childless a ha'
  | revoke S => exact ⟨h.known, .inl h.spent, h.childless⟩

end Rotation
