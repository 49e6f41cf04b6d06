import Leetrank.Auth.RefreshSafety

namespace Leetrank
set_option autoImplicit true

open EventMachine ReadCommitted Rotation Threads

section
variable {hashRefresh : String → TokenHash}

/-- What a revocation has achieved. -/
def Covers (s : KeyStore) : Option KeyStoreCall → Prop
  | some (.revoke _ (.waiting _ covered)) =>
    ∀ k, covered k = true → k ∈ (family s.tokens.rows).known
  | some (.revoke _ (.returned covered)) =>
    ∀ k, covered k = true → (family s.tokens.rows).Barren k
  | _ => True

/-- When a revocation that had to wait goes on, no token that it covers has been rotated. -/
def RevokesUnrotated : StepProp KeyStore KeyStoreCall KeyStoreEvent
  | s, _, .revoke _ (.waiting _ covered), .proceed =>
    ∀ k, covered k = true → ∀ c r, s.tokens.rows c = some r → r.rotatedFrom ≠ some k
  | _, _, _, _ => True

theorem Covers.advances (h : Covers s o) (ha : Advances s tx s') : Covers s' o := by
  rcases (Relation.reflGen_iff ..).1 ha.committed with he | hs
  · unfold Covers
    rw [he]
    exact h
  · unfold Covers at h ⊢
    split
    next => exact fun k hk => hs.known (h k hk)
    next => exact fun k hk => (h k hk).step hs
    next => trivial

theorem unrevoked_of_covered {s : KeyStore} {scope : RevokeScope} {hash : TokenHash}
    (h : (s.tokens.rows hash).any (scope.covers hashRefresh hash) = true) :
    ∃ r, s.tokens.rows hash = some r ∧ r.revokedAt = none := by
  rw [Option.any_eq_true] at h
  obtain ⟨r, hr, hc⟩ := h
  refine ⟨r, hr, ?_⟩
  cases scope with
  | refresh => exact Option.isNone_iff_eq_none.1 (Bool.and_eq_true_iff.1 hc).2
  | allForUser => exact Option.isNone_iff_eq_none.1 (Bool.and_eq_true_iff.1 hc).2

theorem family_revokeRows (T : Table TokenHash RefreshToken) (t : Time)
    (covered : TokenHash → Bool) :
    family (revokeRows T t covered).rows =
      (family T.rows).revoke
        {k | ∃ r, T.rows k = some r ∧ (covered k && r.revokedAt.isNone) = true} :=
  family_revoke _ t

theorem revokeStep_covers (hv : (family s.tokens.rows).Valid)
    (hl : Covers s (some (.revoke scope pc)))
    (hc : RevokesUnrotated s tx (.revoke scope pc) e)
    (h : revokeStep hashRefresh s scope pc e = some (s', pc')) :
    Covers s' (some (.revoke scope pc')) := by
  unfold revokeStep at h
  split at h
  next => -- execute
    dsimp only at h
    split at h
    next =>
      cases h
      intro k hk
      obtain ⟨r, hr, _⟩ := unrevoked_of_covered hk
      exact Option.isSome_iff_exists.2 ⟨r, hr⟩
    next =>
      cases h
      intro k hk
      obtain ⟨r, hr, hrev⟩ := unrevoked_of_covered hk
      change (family (revokeRows s.tokens _ _).rows).Barren k
      rw [family_revokeRows]
      apply hv.barren_revoke ((family_live hr).2 hrev)
      exact ⟨r, hr, Bool.and_eq_true_iff.2 ⟨hk, Option.isNone_iff_eq_none.2 hrev⟩⟩
  next => -- waiting
    split at h
    next => cases h
    next =>
      cases h
      intro k hk
      have hknown := hl k hk
      obtain ⟨r, hr⟩ := Option.isSome_iff_exists.1 hknown
      change (family (revokeRows s.tokens _ _).rows).Barren k
      rw [family_revokeRows]
      constructor
      · exact hknown
      · by_cases hrev : r.revokedAt = none
        · exact .inr ⟨r, hr, Bool.and_eq_true_iff.2 ⟨hk, Option.isNone_iff_eq_none.2 hrev⟩⟩
        · exact .inl ⟨r, hr, Option.isSome_iff_ne_none.2 hrev⟩
      · intro c hp
        obtain ⟨child, hchild, hfrom⟩ := family_parent.1 hp
        exact hc k hk c child hchild hfrom
  next =>
    cases h
    trivial
  next =>
    cases h
    trivial
  next => cases h

theorem keyStore_stable_covers : (keyStoreProgram hashRefresh).Stable
    (fun s i call e => RotatesFresh hashRefresh s i call e ∧ RevokesUnrotated s i call e)
    (fun s => (family s.tokens.rows).Valid)
    (fun s i o => Owns hashRefresh s i o ∧ Covers s o) where
  start := by
    intro s i request hv h
    refine ⟨keyStore_stable.start s i request hv h.1, ?_⟩
    cases request <;> trivial
  ambient := fun _ _ h => ⟨h, fun _ _ ho => ho⟩
  step := by
    intro s i call e s' call' hv ho hc h
    obtain ⟨ha, ho'⟩ := keyStoreStep_spec ho.1 hc.1 h
    refine ⟨ha.valid hv, ⟨ho', ?_⟩, ?_⟩
    swap
    · exact fun j o hj hoj => ⟨hoj.1.respects ha.respects hj, hoj.2.advances ha⟩
    cases call with
    | issue userId pc =>
      obtain ⟨_, _, he⟩ := Option.map_eq_some_iff.1 h
      cases he
      trivial
    | rotate plain pc =>
      obtain ⟨_, _, he⟩ := Option.map_eq_some_iff.1 h
      cases he
      trivial
    | revoke scope pc =>
      obtain ⟨_, hs, he⟩ := Option.map_eq_some_iff.1 h
      cases he
      exact revokeStep_covers hv ho.2 hc.2 hs

/-- As long as every rotation revokes a token that is not revoked yet, and every revocation that had
to wait goes on before the tokens it covers are rotated, no token obtained from a covered one is
live once the revocation is committed. -/
theorem revocation_complete (h₀ : (keyStore hashRefresh).init w₀)
    (hr : (keyStore hashRefresh).run w₀ es = some w)
    (hC : (keyStore hashRefresh).Always (OnSteps fun s i call e =>
      RotatesFresh hashRefresh s i call e ∧ RevokesUnrotated s i call e) w₀ es)
    {i : Nat} (hi : w.threads[i]? = some (.revoke scope (.returned covered)))
    (hp : covered p = true) :
    ¬ ∃ k r, (family w.shared.tokens.rows).Descends p k ∧ w.shared.tokens.rows k = some r ∧
      r.Live w.shared.now := by
  have hstart : ∀ s : KeyStore, (s.tokens = .ofRows fun _ => none) →
      (family s.tokens.rows).Valid ∧ ∀ tx, Owns hashRefresh s tx none ∧ Covers s none := by
    intro s hs
    obtain ⟨hv, ho⟩ := keyStore_start hashRefresh s hs
    exact ⟨hv, fun tx => ⟨ho tx, trivial⟩⟩
  have hw := (keyStore_stable_covers.preserves _).run (holds_start h₀ hstart) hC hr
  have hcov : Covers w.shared (some (.revoke scope (.returned covered))) := hi ▸ (hw.2 i).2
  rintro ⟨k, r, hd, _⟩
  exact (hcov p hp).not_descends k hd

end

/-- A revocation waits for a rotation, which then fails. -/
def oneRevocation : KeyStoreTrace :=
  [.spawn (.issueRefresh "u1"), .act 0 (.random plain₀), .spawn (.rotateRefresh plain₀),
    .act 1 .proceed, .act 1 .proceed, .act 1 .proceed, .spawn (.revokeAllForUser "u1"),
    .act 2 .proceed, .act 1 (.fail "context deadline exceeded"), .act 2 .proceed]

theorem oneRevocation_fresh :
    (keyStore hashTable).Always (OnSteps fun s i call e =>
      RotatesFresh hashTable s i call e ∧ RevokesUnrotated s i call e)
      emptyKeyStore oneRevocation := by
  apply Machine.always_cons rfl (.spawn _)
  apply Machine.always_cons rfl (.act rfl ⟨trivial, trivial⟩)
  apply Machine.always_cons rfl (.spawn _)
  apply Machine.always_cons rfl (.act rfl ⟨trivial, trivial⟩)
  apply Machine.always_cons rfl (.act rfl ⟨trivial, trivial⟩)
  apply Machine.always_cons rfl (.act rfl ⟨⟨_, rfl, rfl⟩, trivial⟩)
  apply Machine.always_cons rfl (.spawn _)
  apply Machine.always_cons rfl (.act rfl ⟨trivial, trivial⟩)
  apply Machine.always_cons rfl (.act rfl ⟨trivial, trivial⟩)
  refine Machine.always_cons rfl (.act rfl ⟨trivial, ?_⟩) trivial
  -- the only committed row is the one that was issued
  intro k _ c r hc
  by_cases hne : c = hashTable plain₀
  · subst hne
    cases hc
    exact nofun
  · exact absurd ((Function.update_of_ne hne _ _).symm.trans hc) nofun

theorem oneRevocation_run :
    ∃ w covered, (keyStore hashTable).run emptyKeyStore oneRevocation = some w ∧
      w.threads[2]? = some (.revoke (.allForUser "u1") (.returned covered)) ∧
        covered (hashTable plain₀) = true :=
  ⟨_, _, rfl, rfl, rfl⟩

theorem revocation_complete_oneRevocation :
    ∃ w, (keyStore hashTable).run emptyKeyStore oneRevocation = some w ∧
      ¬ ∃ k r, (family w.shared.tokens.rows).Descends (hashTable plain₀) k ∧
        w.shared.tokens.rows k = some r ∧ r.Live w.shared.now := by
  obtain ⟨w, covered, hw, hi, hp⟩ := oneRevocation_run
  exact ⟨w, hw, revocation_complete ⟨rfl, rfl⟩ hw oneRevocation_fresh hi hp⟩

/-- A rotation selects the token before a logout revokes it, and inserts its successor later. -/
def revokedMeanwhile : KeyStoreTrace :=
  [.spawn (.issueRefresh "u1"), .act 0 (.random plain₀), .spawn (.rotateRefresh plain₀),
    .act 1 .proceed, .act 1 .proceed, .spawn (.revokeRefresh plain₀), .act 2 .proceed,
    .act 1 .proceed, .act 1 (.random plain₁), .act 1 .proceed]

theorem revokedMeanwhile_run :
    ∃ w covered r, (keyStore hashTable).run emptyKeyStore revokedMeanwhile = some w ∧
      w.threads[2]? = some (.revoke (.refresh plain₀) (.returned covered)) ∧
      covered (hashTable plain₀) = true ∧
      (family w.shared.tokens.rows).parent (hashTable plain₁) = some (hashTable plain₀) ∧
      w.shared.tokens.rows (hashTable plain₁) = some r ∧ r.Live w.shared.now :=
  ⟨_, _, _, rfl, rfl, rfl, rfl, rfl, rfl, by decide⟩

theorem revocation_incomplete :
    ¬ ∀ (hashRefresh : String → TokenHash) (w₀ w : World KeyStore KeyStoreCall)
      (es : KeyStoreTrace) (i : Nat) (scope : RevokeScope) (covered : TokenHash → Bool)
      (p : TokenHash), (keyStore hashRefresh).init w₀ →
      (keyStore hashRefresh).run w₀ es = some w →
      w.threads[i]? = some (.revoke scope (.returned covered)) → covered p = true →
      ¬ ∃ k r, (family w.shared.tokens.rows).Descends p k ∧ w.shared.tokens.rows k = some r ∧
        r.Live w.shared.now := by
  intro h
  obtain ⟨w, covered, r, hw, hi, hp, hfrom, hk, hlive⟩ := revokedMeanwhile_run
  exact h hashTable _ w _ 2 _ covered _ ⟨rfl, rfl⟩ hw hi hp ⟨_, r, .single hfrom, hk, hlive⟩

/-- A revocation of all tokens waits for a rotation that then commits. -/
def revokedTooLate : KeyStoreTrace :=
  [.spawn (.issueRefresh "u1"), .act 0 (.random plain₀), .spawn (.rotateRefresh plain₀),
    .act 1 .proceed, .act 1 .proceed, .act 1 .proceed, .act 1 (.random plain₁),
    .spawn (.revokeAllForUser "u1"), .act 2 .proceed, .act 1 .proceed, .act 2 .proceed]

/-- A rotation of a token that is not revoked yet escapes the revocation of all tokens as well. -/
theorem revocation_incomplete_waiting :
    (keyStore hashTable).Always (OnSteps (RotatesFresh hashTable)) emptyKeyStore revokedTooLate ∧
      ∃ w covered r, (keyStore hashTable).run emptyKeyStore revokedTooLate = some w ∧
        w.threads[2]? = some (.revoke (.allForUser "u1") (.returned covered)) ∧
        covered (hashTable plain₀) = true ∧
        (family w.shared.tokens.rows).parent (hashTable plain₁) = some (hashTable plain₀) ∧
        w.shared.tokens.rows (hashTable plain₁) = some r ∧ r.Live w.shared.now := by
  refine ⟨?_, _, _, _, rfl, rfl, rfl, rfl, rfl, rfl, by decide⟩
  apply Machine.always_cons rfl (.spawn _)
  apply Machine.always_cons rfl (.act rfl trivial)
  apply Machine.always_cons rfl (.spawn _)
  apply Machine.always_cons rfl (.act rfl trivial)
  apply Machine.always_cons rfl (.act rfl trivial)
  apply Machine.always_cons rfl (.act rfl ⟨_, rfl, rfl⟩)
  apply Machine.always_cons rfl (.act rfl trivial)
  apply Machine.always_cons rfl (.spawn _)
  apply Machine.always_cons rfl (.act rfl trivial)
  apply Machine.always_cons rfl (.act rfl trivial)
  apply Machine.always_cons rfl (.act rfl trivial)
  trivial

end Leetrank
