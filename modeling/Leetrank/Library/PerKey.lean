import Mathlib.Data.List.Count
import Mathlib.Logic.Function.Basic

namespace PerKey
set_option autoImplicit true

variable {α : Type u} {κ : Type v} [DecidableEq κ] {n : Nat} {key : α → κ} {l : List α}

/-- Keep the first `n` elements of each key, where `seen` of a key have been there before. -/
def firstPerKey (n : Nat) (key : α → κ) : (κ → Nat) → List α → List α
  | _, [] => []
  | seen, a :: l =>
    let rest := firstPerKey n key (Function.update seen (key a) (seen (key a) + 1)) l
    if seen (key a) < n then a :: rest else rest

theorem firstPerKey_sublist (seen : κ → Nat) (l : List α) :
    (firstPerKey n key seen l).Sublist l := by
  induction l generalizing seen with
  | nil => exact .slnil
  | cons a l ih =>
    rw [firstPerKey]
    split
    next => exact (ih _).cons_cons a
    next => exact (ih _).cons a

/-- Of each key there are kept as many as there are, up to what is left of `n`. -/
theorem countP_firstPerKey (seen : κ → Nat) (k : κ) (l : List α) :
    (firstPerKey n key seen l).countP (fun a => key a = k) =
      min (l.countP fun a => key a = k) (n - seen k) := by
  induction l generalizing seen with
  | nil => simp [firstPerKey]
  | cons a l ih =>
    rw [firstPerKey]
    by_cases hk : key a = k
    · subst hk
      split
      next hlt =>
        rw [List.countP_cons_of_pos (by simp), List.countP_cons_of_pos (by simp), ih,
          Function.update_self]
        omega
      next hge =>
        rw [List.countP_cons_of_pos (by simp), ih, Function.update_self]
        omega
    · have hseen := Function.update_of_ne (Ne.symm hk) (seen (key a) + 1) seen
      split
      next =>
        rw [List.countP_cons_of_neg (by simpa using hk),
          List.countP_cons_of_neg (by simpa using hk),
          ih, hseen]
      next => rw [List.countP_cons_of_neg (by simpa using hk), ih, hseen]

/-- Nothing is dropped as long as no key has too many. -/
theorem firstPerKey_eq_self (seen : κ → Nat)
    (h : ∀ a ∈ l, seen (key a) + l.countP (fun b => key b = key a) ≤ n) :
    firstPerKey n key seen l = l := by
  induction l generalizing seen with
  | nil => rfl
  | cons a l ih =>
    rw [List.forall_mem_cons] at h
    obtain ⟨ha, hl⟩ := h
    rw [List.countP_cons_of_pos (by simp)] at ha
    rw [firstPerKey, if_pos (by omega), ih]
    intro b hb
    have hcount := hl b hb
    by_cases hk : key b = key a
    · rw [hk, Function.update_self]
      omega
    · rw [Function.update_of_ne hk]
      rwa [List.countP_cons_of_neg (by simpa using Ne.symm hk)] at hcount

/-- What is kept of a key that has more is `n` elements. -/
theorem countP_eq_of_lt (h : n < l.countP fun a => key a = k) :
    (firstPerKey n key (fun _ => 0) l).countP (fun a => key a = k) = n := by
  rw [countP_firstPerKey]
  omega

/-- Where elements are left out, some key has more than `n`. -/
theorem exists_lt_countP (h : (firstPerKey n key (fun _ => 0) l).length < l.length) :
    ∃ a ∈ l, n < l.countP fun b => key b = key a := by
  by_contra hfew
  have hall : firstPerKey n key (fun _ => 0) l = l := by
    apply firstPerKey_eq_self
    intro a ha
    have hnot : ¬n < l.countP fun b => key b = key a := fun hlt => hfew ⟨a, ha, hlt⟩
    omega
  rw [hall] at h
  exact Nat.lt_irrefl _ h

/-- Of each key that occurs some element is kept. -/
theorem exists_mem_firstPerKey (hn : 0 < n) (hb : b ∈ l) :
    ∃ c ∈ firstPerKey n key (fun _ => 0) l, key c = key b := by
  have hpos : 0 < l.countP fun c => key c = key b :=
    List.countP_pos_iff.2 ⟨b, hb, decide_eq_true rfl⟩
  have hkept : 0 < (firstPerKey n key (fun _ => 0) l).countP fun c => key c = key b := by
    rw [countP_firstPerKey]
    omega
  obtain ⟨c, hc, hck⟩ := List.countP_pos_iff.1 hkept
  exact ⟨c, hc, of_decide_eq_true hck⟩

/-- No more than `n` elements are kept exactly if there are no more, or all have one key. -/
theorem length_firstPerKey_le_iff (hn : 0 < n) :
    (firstPerKey n key (fun _ => 0) l).length ≤ n ↔ l.length ≤ n ∨ ∃ k, ∀ a ∈ l, key a = k := by
  constructor
  · intro hle
    by_contra hno
    rw [not_or, Nat.not_le] at hno
    obtain ⟨hlen, hkeys⟩ := hno
    -- a key that is cut down fills the list, and any other one is there at least once
    obtain ⟨a, -, hmany⟩ := exists_lt_countP (Nat.lt_of_le_of_lt hle hlen)
    apply hkeys
    refine ⟨key a, ?_⟩
    intro b hb
    obtain ⟨c, hc, hck⟩ : ∃ c ∈ firstPerKey n key (fun _ => 0) l, key c = key b :=
      exists_mem_firstPerKey hn hb
    by_contra hne
    have hlt : (firstPerKey n key (fun _ => 0) l).countP (fun b => key b = key a) <
        (firstPerKey n key (fun _ => 0) l).length := by
      refine Nat.lt_of_le_of_ne List.countP_le_length ?_
      intro heq
      have hca := of_decide_eq_true (List.countP_eq_length.1 heq c hc)
      exact hne (hck.symm.trans hca)
    rw [countP_eq_of_lt hmany] at hlt
    exact Nat.not_le.2 hlt hle
  · rintro (hle | ⟨k, hk⟩)
    · exact Nat.le_trans (firstPerKey_sublist _ l).length_le hle
    · have hall : (firstPerKey n key (fun _ => 0) l).countP (fun a => key a = k) =
          (firstPerKey n key (fun _ => 0) l).length := by
        rw [List.countP_eq_length]
        intro a ha
        exact decide_eq_true (hk a ((firstPerKey_sublist _ l).subset ha))
      rw [← hall, countP_firstPerKey]
      omega

theorem countP_le_add {p q r : α → Prop} [DecidablePred p] [DecidablePred q] [DecidablePred r]
    (h : ∀ a ∈ l, p a → q a ∨ r a) :
    l.countP (fun a => p a) ≤ l.countP (fun a => q a) + l.countP (fun a => r a) := by
  induction l with
  | nil => exact Nat.le_refl 0
  | cons a l ih =>
    have ha := h a List.mem_cons_self
    have hl := ih fun b hb => h b (List.mem_cons_of_mem a hb)
    simp only [List.countP_cons, decide_eq_true_eq]
    grind

/-- Of a list whose elements have one of so many ranks, no rank too often. -/
theorem countP_lt_rank_le {p : α → Prop} [DecidablePred p] {rank : α → Nat} {b : Nat}
    (h : ∀ n, l.countP (fun a => p a ∧ rank a = n) ≤ b) (N : Nat) :
    l.countP (fun a => p a ∧ rank a < N) ≤ N * b := by
  induction N with
  | zero => simp
  | succ N ih =>
    have hsplit := countP_le_add (l := l) (p := fun a => p a ∧ rank a < N + 1)
      (q := fun a => p a ∧ rank a < N) (r := fun a => p a ∧ rank a = N) fun a _ ha =>
        (Nat.lt_succ_iff_lt_or_eq.1 ha.2).imp (⟨ha.1, ·⟩) (⟨ha.1, ·⟩)
    have hN := h N
    rw [Nat.succ_mul]
    omega

end PerKey
