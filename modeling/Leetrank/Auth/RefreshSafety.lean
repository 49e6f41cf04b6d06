import Leetrank.Auth.KeyStore
import Leetrank.Library.Rotation

namespace Leetrank
set_option autoImplicit true

open EventMachine ReadCommitted Rotation Threads

/-- The committed refresh tokens as tokens that can be used once. -/
def family (rows : TokenHash → Option RefreshToken) : Family TokenHash where
  known := {k | (rows k).isSome = true}
  spent := {k | ∃ r, rows k = some r ∧ r.revokedAt.isSome = true}
  parent := fun k => (rows k).bind fun r => r.rotatedFrom

section
variable {rows : TokenHash → Option RefreshToken}

theorem family_parent : (family rows).parent k = some p ↔
    ∃ r, rows k = some r ∧ r.rotatedFrom = some p :=
  Option.bind_eq_some_iff

theorem family_live (hr : rows k = some r) : (family rows).Live k ↔ r.revokedAt = none := by
  constructor
  · intro h
    rw [← Option.not_isSome_iff_eq_none]
    exact fun hrev => h.2 ⟨r, hr, hrev⟩
  · intro h
    refine ⟨by simp [family, hr], ?_⟩
    rintro ⟨r', hr', hrev⟩
    rw [hr] at hr'
    cases hr'
    simp [h] at hrev

theorem family_issue (hk : rows k = none) (userId : String) (expiresAt createdAt : Time) :
    family (Function.update rows k (some ⟨userId, expiresAt, createdAt, none, none⟩)) =
      (family rows).issue k := by
  refine Family.ext ?_ ?_ ?_
  · ext a
    by_cases ha : a = k <;> simp [family, Family.issue, ha]
  · ext a
    by_cases ha : a = k <;> simp [family, Family.issue, ha, hk]
  · funext a
    by_cases ha : a = k <;> simp [family, Family.issue, ha]

theorem family_rotate (hp : rows p = some r) (hc : rows c = none)
    (hrow : row.revokedAt = none) (hfrom : row.rotatedFrom = some p) (t : Time) :
    family (overwrite rows [(c, row), (p, { r with revokedAt := some t })]) =
      (family rows).rotate p c := by
  have hne : p ≠ c := by
    rintro rfl
    rw [hp] at hc
    cases hc
  refine Family.ext ?_ ?_ ?_
  · ext a
    by_cases ha : a = c
    · simp [family, Family.rotate, overwrite, ha]
    by_cases ha' : a = p <;> simp [family, Family.rotate, overwrite, ha, ha', hp, hne]
  · ext a
    by_cases ha : a = c
    · simp [family, Family.rotate, overwrite, ha, hc, hrow, Ne.symm hne]
    by_cases ha' : a = p <;> simp [family, Family.rotate, overwrite, ha, ha', hp, hne]
  · funext a
    by_cases ha : a = c
    · simp [family, Family.rotate, overwrite, ha, hfrom]
    by_cases ha' : a = p <;> simp [family, Family.rotate, overwrite, ha, ha', hp, hne]

theorem family_revoke (cond : TokenHash → RefreshToken → Bool) (t : Time) :
    family (fun k => (rows k).map fun r => if cond k r then { r with revokedAt := some t } else r) =
      (family rows).revoke {k | ∃ r, rows k = some r ∧ cond k r = true} := by
  refine Family.ext ?_ ?_ ?_
  · ext a
    cases ha : rows a <;> simp [family, Family.revoke, ha]
  · ext a
    cases ha : rows a with
    | none => simp [family, Family.revoke, ha]
    | some r => by_cases hc : cond a r = true <;> simp [family, Family.revoke, ha, hc]
  · funext a
    cases ha : rows a with
    | none => simp [family, Family.revoke, ha]
    | some r => by_cases hc : cond a r = true <;> simp [family, Family.revoke, ha, hc]

end

/-- The transaction has revoked this token, whose committed row is not revoked, after which it made
the other changes. -/
structure Revoking (T : Table TokenHash RefreshToken) (tx : Nat) (p : TokenHash) (t : Time)
    (r : RefreshToken) (more : List (TokenHash × RefreshToken)) : Prop where
  row : T.rows p = some r
  unrevoked : r.revokedAt = none
  wrote : T.Wrote tx (more ++ [(p, { r with revokedAt := some t })])

theorem Revoking.respects (h : Revoking T tx p t r more) (hr : T.Respects tx' T')
    (hne : tx ≠ tx') : Revoking T' tx p t r more where
  row := (h.wrote.rows_respects (List.mem_append_right more List.mem_cons_self) hr hne).trans h.row
  unrevoked := h.unrevoked
  wrote := h.wrote.respects hr hne

/-- The transaction has also inserted the token's successor. -/
structure Rotating (T : Table TokenHash RefreshToken) (tx : Nat) (p : TokenHash) (t : Time)
    (r : RefreshToken) (c : TokenHash) (child : RefreshToken) : Prop where
  revoking : Revoking T tx p t r [(c, child)]
  fresh : T.rows c = none
  live : child.revokedAt = none
  parent : child.rotatedFrom = some p

theorem Rotating.respects (h : Rotating T tx p t r c child) (hr : T.Respects tx' T')
    (hne : tx ≠ tx') : Rotating T' tx p t r c child where
  revoking := h.revoking.respects hr hne
  fresh := (h.revoking.wrote.rows_respects List.mem_cons_self hr hne).trans h.fresh
  live := h.live
  parent := h.parent

theorem Rotating.family_commit (h : Rotating T tx p t r c child) :
    (family T.rows).Step (family (T.commit tx).rows) := by
  have hp := h.revoking.row
  rw [h.revoking.wrote.rows_commit, List.singleton_append, family_rotate hp h.fresh h.live h.parent]
  apply Family.Step.rotate
  · exact Option.isSome_iff_exists.2 ⟨r, hp⟩
  · exact ((family_live hp).2 h.revoking.unrevoked).2
  · simp [family, h.fresh]

section
variable {hashRefresh : String → TokenHash}

/-- What the transaction of a rotation has done so far. -/
def RotateOwns (T : Table TokenHash RefreshToken) (tx : Nat) (p : TokenHash) : RotatePc → Prop
  | .insert t _ => ∃ r, Revoking T tx p t r []
  | .commit _ => ∃ t r c child, Rotating T tx p t r c child
  | .begin | .select _ | .update _ _ | .returned _ => T.Wrote tx []

/-- Only rotations have open transactions. -/
def Owns (hashRefresh : String → TokenHash) (s : KeyStore) (tx : Nat) : Option KeyStoreCall → Prop
  | some (.rotate plain pc) => RotateOwns s.tokens tx (hashRefresh plain) pc
  | none | some (.issue _ _) | some (.revoke _ _) => s.tokens.Wrote tx []

theorem RotateOwns.respects (h : RotateOwns T tx p pc) (hr : T.Respects tx' T')
    (hne : tx ≠ tx') : RotateOwns T' tx p pc := by
  cases pc with
  | insert =>
    obtain ⟨r, h⟩ := h
    exact ⟨r, h.respects hr hne⟩
  | commit =>
    obtain ⟨t, r, c, child, h⟩ := h
    exact ⟨t, r, c, child, h.respects hr hne⟩
  | begin | select | update | returned => exact Table.Wrote.respects h hr hne

theorem Owns.respects (h : Owns hashRefresh s tx o) (hr : s.tokens.Respects tx' s'.tokens)
    (hne : tx ≠ tx') : Owns hashRefresh s' tx o := by
  cases o with
  | none => exact Table.Wrote.respects h hr hne
  | some call =>
    cases call with
    | rotate => exact RotateOwns.respects h hr hne
    | issue | revoke => exact Table.Wrote.respects h hr hne

/-- When a rotation makes its `UPDATE`, the committed row of the token is not revoked. -/
def RotatesFresh (hashRefresh : String → TokenHash) : StepProp KeyStore KeyStoreCall KeyStoreEvent
  | s, _, .rotate plain (.update _ _), .proceed =>
    ∃ r, s.tokens.rows (hashRefresh plain) = some r ∧ r.revokedAt = none
  | _, _, _, _ => True

/-- A step of a call keeps the locks of the others, and commits at most one operation. -/
structure Advances (s : KeyStore) (tx : Nat) (s' : KeyStore) : Prop where
  respects : s.tokens.Respects tx s'.tokens
  committed : Relation.ReflGen Family.Step (family s.tokens.rows) (family s'.tokens.rows)

theorem Advances.refl (s : KeyStore) (tx : Nat) : Advances s tx s :=
  ⟨.refl .., .refl⟩

theorem issueStep_advances (h : issueStep hashRefresh s userId pc e = some (s', pc')) (tx : Nat) :
    Advances s tx s' ∧ s'.tokens.pending = s.tokens.pending := by
  unfold issueStep at h
  split at h
  next plain =>
    dsimp only at h
    split at h
    next => cases h
    next hp =>
      split at h
      next =>
        cases h
        exact ⟨.refl .., rfl⟩
      next hr =>
        cases h
        rw [Option.not_isSome_iff_eq_none] at hp hr
        refine ⟨⟨.insertNow hp .., ?_⟩, rfl⟩
        apply Relation.ReflGen.single
        change (family s.tokens.rows).Step (family (Function.update s.tokens.rows _ (some _)))
        rw [family_issue hr]
        exact .issue (by simp [family, hr])
  next =>
    cases h
    exact ⟨.refl .., rfl⟩
  next => cases h

theorem RotateStep.respects (h : RotateStep hashRefresh s tx plain pc e s' pc') :
    s.tokens.Respects tx s'.tokens := by
  cases h with
  | begin | select | updateNone => exact .refl ..
  | refuse | fail => exact .rollback ..
  | update _ hl => exact .write hl _
  | insert hl => exact .write hl _
  | commit => exact .commit ..

theorem RotateStep.owns (h : RotateStep hashRefresh s tx plain pc e s' pc')
    (ho : RotateOwns s.tokens tx (hashRefresh plain) pc)
    (hc : RotatesFresh hashRefresh s tx (.rotate plain pc) e) :
    Relation.ReflGen Family.Step (family s.tokens.rows) (family s'.tokens.rows) ∧
      RotateOwns s'.tokens tx (hashRefresh plain) pc' := by
  cases h with
  | begin | select => exact ⟨.refl, ho⟩
  | refuse | fail => exact ⟨.refl, Table.Wrote.rollback s.tokens tx⟩
  | updateNone hv =>
    obtain ⟨r, hr, _⟩ := hc
    rw [Table.Wrote.visible_of_not_mem ho fun _ => List.not_mem_nil, hr] at hv
    cases hv
  | update hv hl =>
    obtain ⟨r, hr, hrev⟩ := hc
    have hw : s.tokens.Wrote tx [] := ho
    rw [hw.visible_of_not_mem fun _ => List.not_mem_nil, hr] at hv
    cases hv
    exact ⟨.refl, _, hr, hrev, hw.write (fun _ => List.not_mem_nil) _⟩
  | @insert plainNext t userId hl hv =>
    obtain ⟨r, hr⟩ := ho
    -- the new token is not the one that was revoked, which the transaction sees
    have hmem : ∀ r', (hashRefresh plainNext, r') ∉
        ([] ++ [(hashRefresh plain, { r with revokedAt := some t })] : List _) := by
      intro r' hm
      simp [Table.visible, (hr.wrote _ _).2 hm] at hv
    refine ⟨.refl, t, r, _, _, ⟨hr.row, hr.unrevoked, hr.wrote.write hmem _⟩, ?_, rfl, rfl⟩
    exact (hr.wrote.visible_of_not_mem hmem).symm.trans hv
  | commit =>
    obtain ⟨t, r, c, child, hr⟩ := ho
    exact ⟨.single hr.family_commit, Table.Wrote.commit s.tokens tx⟩

theorem revokeRows_advances {covered : TokenHash → Bool} (tx : Nat)
    (hb : (s.tokens.blocked fun hash _ => covered hash) = false) (t : Time) :
    Advances s tx { s with tokens := revokeRows s.tokens t covered } := by
  refine ⟨.updateWhere (Table.blocked_mono ?_ hb) .., ?_⟩
  · exact fun k r hk => (Bool.and_eq_true_iff.1 hk).1
  · apply Relation.ReflGen.single
    change (family s.tokens.rows).Step (family fun k => (s.tokens.rows k).map _)
    rw [family_revoke]
    exact .revoke _

theorem revokeStep_advances (h : revokeStep hashRefresh s scope pc e = some (s', pc')) (tx : Nat) :
    Advances s tx s' ∧ s'.tokens.pending = s.tokens.pending := by
  unfold revokeStep at h
  split at h
  next => -- execute
    dsimp only at h
    split at h
    next =>
      cases h
      exact ⟨.refl .., rfl⟩
    next hb =>
      cases h
      exact ⟨revokeRows_advances tx (Bool.not_eq_true _ ▸ hb) _, rfl⟩
  next => -- waiting
    split at h
    next => cases h
    next hb =>
      cases h
      exact ⟨revokeRows_advances tx (Bool.not_eq_true _ ▸ hb) _, rfl⟩
  next =>
    cases h
    exact ⟨.refl .., rfl⟩
  next =>
    cases h
    exact ⟨.refl .., rfl⟩
  next => cases h

/-- Every step keeps the locks of the other transactions. -/
theorem keyStoreStep_respects (h : keyStoreStep hashRefresh s tx call e = some (s', call')) :
    s.tokens.Respects tx s'.tokens := by
  cases call with
  | issue =>
    obtain ⟨_, hs, he⟩ := Option.map_eq_some_iff.1 h
    cases he
    exact (issueStep_advances hs tx).1.respects
  | rotate =>
    obtain ⟨_, hs, he⟩ := Option.map_eq_some_iff.1 h
    cases he
    exact (rotateStep_cases hashRefresh hs).respects
  | revoke =>
    obtain ⟨_, hs, he⟩ := Option.map_eq_some_iff.1 h
    cases he
    exact (revokeStep_advances hs tx).1.respects

theorem keyStoreStep_spec (ho : Owns hashRefresh s tx (some call))
    (hc : RotatesFresh hashRefresh s tx call e)
    (h : keyStoreStep hashRefresh s tx call e = some (s', call')) :
    Advances s tx s' ∧ Owns hashRefresh s' tx (some call') := by
  cases call with
  | issue =>
    obtain ⟨_, hs, he⟩ := Option.map_eq_some_iff.1 h
    cases he
    obtain ⟨ha, hp⟩ := issueStep_advances hs tx
    exact ⟨ha, fun k r => hp ▸ ho k r⟩
  | rotate =>
    obtain ⟨_, hs, he⟩ := Option.map_eq_some_iff.1 h
    cases he
    have hstep := rotateStep_cases hashRefresh hs
    obtain ⟨hcommitted, ho'⟩ := hstep.owns ho hc
    exact ⟨⟨hstep.respects, hcommitted⟩, ho'⟩
  | revoke =>
    obtain ⟨_, hs, he⟩ := Option.map_eq_some_iff.1 h
    cases he
    obtain ⟨ha, hp⟩ := revokeStep_advances hs tx
    exact ⟨ha, fun k r => hp ▸ ho k r⟩

theorem Advances.valid (h : Advances s tx s') (hv : (family s.tokens.rows).Valid) :
    (family s'.tokens.rows).Valid := by
  rcases (Relation.reflGen_iff ..).1 h.committed with he | hs
  · rw [he]
    exact hv
  · exact hv.step hs

theorem keyStore_stable : (keyStoreProgram hashRefresh).Stable (RotatesFresh hashRefresh)
    (fun s => (family s.tokens.rows).Valid) (Owns hashRefresh) where
  start := by
    intro s i request _ h
    cases request <;> exact h
  ambient := fun _ _ h => ⟨h, fun _ _ ho => ho⟩
  step := by
    intro s i call e s' call' hv ho hc h
    obtain ⟨ha, ho'⟩ := keyStoreStep_spec ho hc h
    exact ⟨ha.valid hv, ho', fun j o hj hoj => hoj.respects ha.respects hj⟩

theorem keyStore_start (hashRefresh : String → TokenHash) (s : KeyStore)
    (hs : s.tokens = .ofRows fun _ => none) :
    (family s.tokens.rows).Valid ∧ ∀ tx, Owns hashRefresh s tx none := by
  refine ⟨⟨?_, ?_, ?_⟩, ?_⟩
  · intro k p h
    simp [hs, family, Table.ofRows] at h
  · intro k p h
    simp [hs, family, Table.ofRows] at h
  · intro k k' p h
    simp [hs, family, Table.ofRows] at h
  · intro tx k r
    simp [hs, Table.ofRows]

/-- As long as every rotation revokes a token that is not revoked yet, a token has at most one
successor. -/
theorem rotated_once (h₀ : (keyStore hashRefresh).init w₀)
    (hr : (keyStore hashRefresh).run w₀ es = some w)
    (hC : (keyStore hashRefresh).Always (OnSteps (RotatesFresh hashRefresh)) w₀ es)
    (hk : w.shared.tokens.rows k = some r) (hp : r.rotatedFrom = some p)
    (hk' : w.shared.tokens.rows k' = some r') (hp' : r'.rotatedFrom = some p) : k = k' := by
  have hw := (keyStore_stable.preserves _).run (holds_start h₀ (keyStore_start hashRefresh)) hC hr
  exact hw.1.unforked k k' p (family_parent.2 ⟨r, hk, hp⟩) (family_parent.2 ⟨r', hk', hp'⟩)

end

def emptyKeyStore : World KeyStore KeyStoreCall := ⟨⟨.ofRows fun _ => none, 0⟩, []⟩

abbrev KeyStoreTrace := List (Event KeyStoreRequest Nat KeyStoreEvent)

/-- A token is issued and rotated. -/
def oneRotation : KeyStoreTrace :=
  [.spawn (.issueRefresh "u1"), .act 0 (.random plain₀), .spawn (.rotateRefresh plain₀),
    .act 1 .proceed, .act 1 .proceed, .act 1 .proceed, .act 1 (.random plain₁), .act 1 .proceed]

/-- The rotated token is refused, and its successor is rotated in turn. -/
def rotationChain : KeyStoreTrace :=
  oneRotation ++ [.spawn (.rotateRefresh plain₀), .act 2 .proceed, .act 2 .proceed,
    .spawn (.rotateRefresh plain₁), .act 3 .proceed, .act 3 .proceed, .act 3 .proceed,
    .act 3 (.random plain₂), .act 3 .proceed]

theorem rotationChain_fresh :
    (keyStore hashTable).Always (OnSteps (RotatesFresh hashTable)) emptyKeyStore rotationChain := by
  apply Machine.always_cons rfl (.spawn _)
  apply Machine.always_cons rfl (.act rfl trivial)
  apply Machine.always_cons rfl (.spawn _)
  apply Machine.always_cons rfl (.act rfl trivial)
  apply Machine.always_cons rfl (.act rfl trivial)
  apply Machine.always_cons rfl (.act rfl ⟨_, rfl, rfl⟩)
  apply Machine.always_cons rfl (.act rfl trivial)
  apply Machine.always_cons rfl (.act rfl trivial)
  apply Machine.always_cons rfl (.spawn _)
  apply Machine.always_cons rfl (.act rfl trivial)
  apply Machine.always_cons rfl (.act rfl trivial)
  apply Machine.always_cons rfl (.spawn _)
  apply Machine.always_cons rfl (.act rfl trivial)
  apply Machine.always_cons rfl (.act rfl trivial)
  apply Machine.always_cons rfl (.act rfl ⟨_, rfl, rfl⟩)
  apply Machine.always_cons rfl (.act rfl trivial)
  exact Machine.always_cons rfl (.act rfl trivial) trivial

theorem rotationChain_run :
    ∃ w, (keyStore hashTable).run emptyKeyStore rotationChain = some w ∧
      (∃ r, w.shared.tokens.rows (hashTable plain₁) = some r ∧
        r.rotatedFrom = some (hashTable plain₀)) ∧
      ∃ r, w.shared.tokens.rows (hashTable plain₂) = some r ∧
        r.rotatedFrom = some (hashTable plain₁) :=
  ⟨_, rfl, ⟨_, rfl, rfl⟩, _, rfl, rfl⟩

theorem rotated_once_rotationChain :
    ∃ w, (keyStore hashTable).run emptyKeyStore rotationChain = some w ∧
      (∀ k r, w.shared.tokens.rows k = some r → r.rotatedFrom = some (hashTable plain₀) →
        k = hashTable plain₁) ∧
      ∀ k r, w.shared.tokens.rows k = some r → r.rotatedFrom = some (hashTable plain₁) →
        k = hashTable plain₂ := by
  obtain ⟨w, hw, ⟨r₁, hr₁, hp₁⟩, r₂, hr₂, hp₂⟩ := rotationChain_run
  refine ⟨w, hw, ?_, ?_⟩
  · exact fun k r hk hp => rotated_once ⟨rfl, rfl⟩ hw rotationChain_fresh hk hp hr₁ hp₁
  · exact fun k r hk hp => rotated_once ⟨rfl, rfl⟩ hw rotationChain_fresh hk hp hr₂ hp₂

/-- Two requests select the token before one of them revokes it. -/
def twoRotations : KeyStoreTrace :=
  [.spawn (.issueRefresh "u1"), .act 0 (.random plain₀), .spawn (.rotateRefresh plain₀),
    .spawn (.rotateRefresh plain₀), .act 1 .proceed, .act 2 .proceed, .act 1 .proceed,
    .act 2 .proceed, .act 1 .proceed, .act 1 (.random plain₁), .act 1 .proceed, .act 2 .proceed,
    .act 2 (.random plain₂), .act 2 .proceed]

theorem twoRotations_run :
    ∃ w, (keyStore hashTable).run emptyKeyStore twoRotations = some w ∧
      (∃ r, w.shared.tokens.rows (hashTable plain₁) = some r ∧
        r.rotatedFrom = some (hashTable plain₀)) ∧
      ∃ r, w.shared.tokens.rows (hashTable plain₂) = some r ∧
        r.rotatedFrom = some (hashTable plain₀) :=
  ⟨_, rfl, ⟨_, rfl, rfl⟩, _, rfl, rfl⟩

theorem rotated_twice :
    ¬ ∀ (hashRefresh : String → TokenHash) (w₀ w : World KeyStore KeyStoreCall)
      (es : KeyStoreTrace) (p k k' : TokenHash) (r r' : RefreshToken),
      (keyStore hashRefresh).init w₀ → (keyStore hashRefresh).run w₀ es = some w →
      w.shared.tokens.rows k = some r → r.rotatedFrom = some p →
      w.shared.tokens.rows k' = some r' → r'.rotatedFrom = some p → k = k' := by
  intro h
  obtain ⟨w, hw, ⟨r, hr, hp⟩, r', hr', hp'⟩ := twoRotations_run
  have heq := h hashTable _ w _ _ _ _ r r' ⟨rfl, rfl⟩ hw hr hp hr' hp'
  exact absurd heq (by decide)

end Leetrank
