import Mathlib.Logic.Function.Basic

namespace Leetrank
set_option autoImplicit true

/-- The counters of open connections; a key that is absent from a map reads 0. -/
structure Limiter where
  bySub : String → Nat
  byIP : String → Nat
  perSubject : Nat
  perIP : Nat

def DefaultPerSubject : Nat := 5

def DefaultPerIP : Nat := 50

def NewLimiter (perSubject perIP : Int) : Limiter where
  bySub := fun _ => 0
  byIP := fun _ => 0
  perSubject := if perSubject ≤ 0 then DefaultPerSubject else perSubject.toNat
  perIP := if perIP ≤ 0 then DefaultPerIP else perIP.toNat

/-- Change the counter of a key that is not empty. -/
def recount (m : String → Nat) (key : String) (f : Nat → Nat) : String → Nat :=
  if key = "" then m else Function.update m key (f (m key))

def Limiter.acquire (l : Limiter) (subject ip : String) : Except String Limiter :=
  if subject ≠ "" ∧ l.perSubject ≤ l.bySub subject then
    .error "policy violation: per-user limit"
  else if ip ≠ "" ∧ l.perIP ≤ l.byIP ip then
    .error "policy violation: per-ip limit"
  else
    .ok { l with bySub := recount l.bySub subject (· + 1), byIP := recount l.byIP ip (· + 1) }

/-- A counter at 0 stays there; that its key is then deleted does not show. -/
def Limiter.release (l : Limiter) (subject ip : String) : Limiter :=
  { l with bySub := recount l.bySub subject (· - 1), byIP := recount l.byIP ip (· - 1) }

variable {l l' : Limiter}

theorem recount_apply (m : String → Nat) (key : String) (f : Nat → Nat) (hk : k ≠ "") :
    recount m key f k = if key = k then f (m k) else m k := by
  rw [recount]
  split
  next he =>
    subst he
    rw [if_neg (Ne.symm hk)]
  next =>
    rw [Function.update_apply]
    by_cases h : key = k
    · subst h
      simp
    · rw [if_neg (Ne.symm h), if_neg h]

theorem recount_empty (m : String → Nat) (key : String) (f : Nat → Nat) :
    recount m key f "" = m "" := by
  rw [recount]
  split
  next => rfl
  next hk => exact Function.update_of_ne (Ne.symm hk) _ _

theorem recount_add (m : String → Nat) (key : String) (hk : k ≠ "") :
    recount m key (· + 1) k = m k + (decide (key = k)).toNat := by
  rw [recount_apply m key _ hk]
  split
  next he => simp [he]
  next he => simp [he]

theorem recount_sub (m : String → Nat) (key : String) (hk : k ≠ "") :
    recount m key (· - 1) k = m k - (decide (key = k)).toNat := by
  rw [recount_apply m key _ hk]
  split
  next he => simp [he]
  next he => simp [he]

theorem below_of_not_full {k c : Nat} (h : ¬(key ≠ "" ∧ c ≤ k)) : key = "" ∨ k < c := by
  by_cases hk : key = ""
  · exact .inl hk
  · exact .inr (Nat.lt_of_not_le fun hle => h ⟨hk, hle⟩)

theorem Limiter.acquire_ok (h : l.acquire subject ip = .ok l') :
    (subject = "" ∨ l.bySub subject < l.perSubject) ∧ (ip = "" ∨ l.byIP ip < l.perIP) ∧
      l' = { l with
        bySub := recount l.bySub subject (· + 1)
        byIP := recount l.byIP ip (· + 1) } := by
  rw [Limiter.acquire] at h
  split at h
  next => cases h
  next hsub =>
    split at h
    next => cases h
    next hip =>
      cases h
      exact ⟨below_of_not_full hsub, below_of_not_full hip, rfl⟩

/-- A counter of the limiter with its cap, and the pairs of a subject and an IP that it counts. -/
structure Limiter.Counter where
  value : Limiter → Nat
  cap : Limiter → Nat
  counts : String → String → Bool
  acquire : ∀ l subject ip l', l.acquire subject ip = .ok l' →
    value l' = value l + (counts subject ip).toNat ∧ cap l' = cap l ∧
      (counts subject ip = true → value l < cap l)
  release : ∀ l subject ip, value (l.release subject ip) = value l - (counts subject ip).toNat ∧
    cap (l.release subject ip) = cap l

def Limiter.ofSubject (subject : String) (hs : subject ≠ "") : Limiter.Counter where
  value := fun l => l.bySub subject
  cap := fun l => l.perSubject
  counts := fun s _ => decide (s = subject)
  acquire := by
    intro l s ip l' h
    obtain ⟨hcap, -, rfl⟩ := Limiter.acquire_ok h
    refine ⟨recount_add _ _ hs, rfl, ?_⟩
    intro he
    obtain rfl := of_decide_eq_true he
    exact hcap.resolve_left hs
  release := fun _ _ _ => ⟨recount_sub _ _ hs, rfl⟩

def Limiter.ofIP (ip : String) (hi : ip ≠ "") : Limiter.Counter where
  value := fun l => l.byIP ip
  cap := fun l => l.perIP
  counts := fun _ i => decide (i = ip)
  acquire := by
    intro l s i l' h
    obtain ⟨-, hcap, rfl⟩ := Limiter.acquire_ok h
    refine ⟨recount_add _ _ hi, rfl, ?_⟩
    intro he
    obtain rfl := of_decide_eq_true he
    exact hcap.resolve_left hi
  release := fun _ _ _ => ⟨recount_sub _ _ hi, rfl⟩

end Leetrank
