import Mathlib.Logic.Function.Basic

namespace Leetrank
set_option autoImplicit true

structure Window where
  count : Nat
  resetAt : Nat

/-- The windows of one process, by key. -/
abbrev Buckets := String → Option Window

structure RateLimitResult where
  allowed : Bool
  remaining : Int
  resetAt : Nat
  retryAfter : Option Nat

/-- Whole seconds from one time in milliseconds to another, rounded up, and at least one. -/
def retryAfterSeconds (resetAt now : Nat) : Nat := max 1 ((resetAt - now + 999) / 1000)

def memoryCheck (buckets : Buckets) (key : String) (limit windowMs now : Nat) :
    Buckets × RateLimitResult :=
  let opened : Buckets × RateLimitResult :=
    (Function.update buckets key (some ⟨1, now + windowMs⟩),
      ⟨true, limit - 1, now + windowMs, none⟩)
  match buckets key with
  | none => opened
  | some w =>
    if w.resetAt < now then opened
    else if limit ≤ w.count then
      (buckets, ⟨false, 0, w.resetAt, some (retryAfterSeconds w.resetAt now)⟩)
    else
      (Function.update buckets key (some ⟨w.count + 1, w.resetAt⟩),
        ⟨true, limit - (w.count + 1), w.resetAt, none⟩)

variable {buckets : Buckets} {key : String} {limit windowMs now : Nat}

/-- A check opens the window of its key, or finds one that is full or has room. -/
theorem memoryCheck_spec :
    ((∀ w, buckets key = some w → w.resetAt < now) ∧
      (memoryCheck buckets key limit windowMs now).1 =
        Function.update buckets key (some ⟨1, now + windowMs⟩) ∧
      (memoryCheck buckets key limit windowMs now).2.allowed = true) ∨
    ∃ w, buckets key = some w ∧ now ≤ w.resetAt ∧
      (limit ≤ w.count ∧ (memoryCheck buckets key limit windowMs now).1 = buckets ∧
          (memoryCheck buckets key limit windowMs now).2.allowed = false ∨
        w.count < limit ∧
          (memoryCheck buckets key limit windowMs now).1 =
            Function.update buckets key (some ⟨w.count + 1, w.resetAt⟩) ∧
          (memoryCheck buckets key limit windowMs now).2.allowed = true) := by
  unfold memoryCheck
  dsimp only
  split
  next hnone => exact .inl ⟨fun w hw => (nomatch hnone.symm.trans hw), rfl, rfl⟩
  next w hw =>
    split
    next hover =>
      refine .inl ⟨fun w' hw' => ?_, rfl, rfl⟩
      cases hw.symm.trans hw'
      exact hover
    next hopen =>
      refine .inr ⟨w, hw, Nat.not_lt.1 hopen, ?_⟩
      split
      next hfull => exact .inl ⟨hfull, rfl, rfl⟩
      next hroom => exact .inr ⟨Nat.not_le.1 hroom, rfl, rfl⟩

theorem memoryCheck_cases :
    (memoryCheck buckets key limit windowMs now).1 = buckets ∨
      ∃ w, (memoryCheck buckets key limit windowMs now).1 = Function.update buckets key (some w) ∧
        (w.count = 1 ∨ w.count ≤ limit) := by
  obtain ⟨-, hw, -⟩ | ⟨w, -, -, ⟨-, hsame, -⟩ | ⟨hroom, hw, -⟩⟩ := memoryCheck_spec
  · exact .inr ⟨_, hw, .inl rfl⟩
  · exact .inl hsame
  · exact .inr ⟨_, hw, .inr hroom⟩

theorem memoryCheck_of_ne (h : other ≠ key) :
    (memoryCheck buckets key limit windowMs now).1 other = buckets other := by
  rcases memoryCheck_cases with hsame | ⟨w, hw, -⟩
  · rw [hsame]
  · rw [hw, Function.update_of_ne h]

end Leetrank
