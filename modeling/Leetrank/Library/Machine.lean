import Mathlib.Data.Option.Basic
import Mathlib.Logic.Relation
import Mathlib.Order.Defs.PartialOrder

namespace EventMachine
set_option autoImplicit true

/-- A machine whose every choice is an event; a disabled event has no successor. -/
structure Machine (σ : Type u) (ε : Type v) where
  init : σ → Prop
  step : σ → ε → Option σ

variable {M : Machine σ ε}

/-- Feed a machine a list of events, failing at the first disabled one. -/
def Machine.run (M : Machine σ ε) : σ → List ε → Option σ
  | s, [] => some s
  | s, e :: es => (M.step s e).bind fun t => M.run t es

/-- The steps of a run all satisfy a property of the state, the event and the successor. -/
def Machine.Always (M : Machine σ ε) (C : σ → ε → σ → Prop) : σ → List ε → Prop
  | _, [] => True
  | s, e :: es => ∀ t, M.step s e = some t → C s e t ∧ M.Always C t es

/-- A property of some state that a run comes through, its first and its last one included. -/
def Machine.Sometime (M : Machine σ ε) (P : σ → Prop) : σ → List ε → Prop
  | s, [] => P s
  | s, e :: es => P s ∨ ∃ t, M.step s e = some t ∧ M.Sometime P t es

def Machine.Reachable (M : Machine σ ε) (t : σ) : Prop :=
  ∃ s es, M.init s ∧ M.run s es = some t

/-- A predicate that the steps satisfying `C` preserve. -/
def Machine.Preserves (M : Machine σ ε) (C : σ → ε → σ → Prop) (I : σ → Prop) : Prop :=
  ∀ s e t, I s → M.step s e = some t → C s e t → I t

theorem Machine.run_cons_some (h : M.run s (e :: es) = some t) :
    ∃ u, M.step s e = some u ∧ M.run u es = some t := by
  rw [Machine.run] at h
  exact Option.bind_eq_some_iff.1 h

theorem Machine.run_cons (ht : M.step s e = some t) (hr : M.run t es = some u) :
    M.run s (e :: es) = some u := by
  rw [Machine.run, ht]
  exact hr

theorem Machine.run_append (hr : M.run s es = some t) (es' : List ε) :
    M.run s (es ++ es') = M.run t es' := by
  induction es generalizing s with
  | nil =>
    cases hr
    rfl
  | cons e es ih =>
    obtain ⟨u, hu, hr⟩ := Machine.run_cons_some hr
    rw [List.cons_append, Machine.run, hu]
    exact ih hr

theorem Machine.run_concat (hr : M.run s es = some t) (ht : M.step t e = some u) :
    M.run s (es ++ [e]) = some u := by
  rw [Machine.run_append hr, Machine.run, ht]
  rfl

/-- Checking a property along a run checks it at the step the run ends with. -/
theorem Machine.Always.last (h : M.Always C s (es ++ [e])) (hr : M.run s es = some t)
    (ht : M.step t e = some u) : C t e u := by
  induction es generalizing s with
  | nil =>
    cases hr
    exact (h u ht).1
  | cons e' es ih =>
    obtain ⟨v, hv, hr⟩ := Machine.run_cons_some hr
    exact ih (h v hv).2 hr

theorem Machine.always_cons {C : σ → ε → σ → Prop} (ht : M.step s e = some t) (hC : C s e t)
    (hs : M.Always C t es) : M.Always C s (e :: es) := by
  intro u hu
  rw [ht] at hu
  cases hu
  exact ⟨hC, hs⟩

theorem Machine.always_of_events (h : ∀ e ∈ es, ∀ s t, C s e t) : M.Always C s es := by
  induction es generalizing s with
  | nil => trivial
  | cons e es ih =>
    rw [List.forall_mem_cons] at h
    exact fun t _ => ⟨h.1 s t, ih h.2⟩

theorem Machine.always_of_imp {C : σ → ε → σ → Prop} (h : P → M.Always C s es) :
    M.Always (fun s e t => P → C s e t) s es := by
  induction es generalizing s with
  | nil => trivial
  | cons e es ih => exact fun t ht => ⟨fun hp => (h hp t ht).1, ih fun hp => (h hp t ht).2⟩

/-- An invariant of the steps satisfying `C` holds at the end of every run of such steps. -/
theorem Machine.Preserves.run {C : σ → ε → σ → Prop} (hI : M.Preserves C I) (h : I s)
    (hC : M.Always C s es) (hr : M.run s es = some t) : I t := by
  induction es generalizing s with
  | nil =>
    cases hr
    exact h
  | cons e es ih =>
    obtain ⟨u, hu, hr⟩ := Machine.run_cons_some hr
    obtain ⟨hs, hC⟩ := hC u hu
    exact ih (hI s e u h hu hs) hC hr

theorem Machine.Preserves.always {C D : σ → ε → σ → Prop} (hI : M.Preserves C I) (h : I s)
    (hC : M.Always C s es)
    (hD : ∀ s e t, I s → M.step s e = some t → C s e t → D s e t) : M.Always D s es := by
  induction es generalizing s with
  | nil => trivial
  | cons e es ih =>
    intro t ht
    obtain ⟨hs, hes⟩ := hC t ht
    exact ⟨hD s e t h ht hs, ih (hI s e t h ht hs) hes⟩

/-- An invariant of every step, whatever the event. -/
def Machine.Invariant (M : Machine σ ε) (I : σ → Prop) : Prop :=
  M.Preserves (fun _ _ _ => True) I

theorem Machine.Invariant.preserves (hI : M.Invariant I) (C : σ → ε → σ → Prop) :
    M.Preserves C I :=
  fun s e t h ht _ => hI s e t h ht trivial

theorem Machine.Invariant.run (hI : M.Invariant I) (h : I s) (hr : M.run s es = some t) : I t :=
  Machine.Preserves.run hI h (Machine.always_of_events fun _ _ _ _ => trivial) hr

theorem Machine.Invariant.reachable (hI : M.Invariant I) (h₀ : ∀ s, M.init s → I s)
    (h : M.Reachable t) : I t := by
  obtain ⟨s, es, hs, hr⟩ := h
  exact hI.run (h₀ s hs) hr

/-- A property of the events so far and the state they have led to. -/
def Machine.Records (M : Machine σ ε) (I : List ε → σ → Prop) : Prop :=
  ∀ past s e t, I past s → M.step s e = some t → I (past ++ [e]) t

theorem Machine.Records.run {I : List ε → σ → Prop} (hI : M.Records I) (h : I past s)
    (hr : M.run s es = some t) : I (past ++ es) t := by
  induction es generalizing s past with
  | nil =>
    cases hr
    rw [List.append_nil]
    exact h
  | cons e es ih =>
    obtain ⟨u, hu, hr⟩ := Machine.run_cons_some hr
    have hrest := ih (hI past s e u h hu) hr
    rw [List.append_assoc] at hrest
    exact hrest

/-- Two properties that agree on the steps out of an invariant's states agree on runs. -/
theorem Machine.Invariant.always_iff {C D : σ → ε → σ → Prop} (hI : M.Invariant I) (h : I s)
    (hCD : ∀ s e t, I s → M.step s e = some t → (C s e t ↔ D s e t)) :
    M.Always C s es ↔ M.Always D s es :=
  ⟨fun hC => (hI.preserves C).always h hC fun s e t hs ht => (hCD s e t hs ht).1,
    fun hD => (hI.preserves D).always h hD fun s e t hs ht => (hCD s e t hs ht).2⟩

/-- A predicate holds in every state of a run exactly if each step satisfies the condition under
which a step keeps it. -/
theorem Machine.Invariant.always_state_iff {C : σ → ε → σ → Prop} {I J : σ → Prop}
    (hJ : M.Invariant J) (hj : J s) (hi : I s)
    (hIC : ∀ s e t, J s → I s → M.step s e = some t → (I t ↔ C s e t)) :
    M.Always (fun _ _ t => I t) s es ↔ M.Always C s es := by
  induction es generalizing s with
  | nil => exact Iff.rfl
  | cons e es ih =>
    refine forall_congr' fun t => forall_congr' fun ht => ?_
    have hstep := hIC s e t hj hi ht
    constructor
    · rintro ⟨hI, hes⟩
      exact ⟨hstep.1 hI, (ih (hJ s e t hj ht trivial) hI).1 hes⟩
    · rintro ⟨hC, hes⟩
      have hI := hstep.2 hC
      exact ⟨hI, (ih (hJ s e t hj ht trivial) hI).2 hes⟩

theorem Machine.Sometime.start (h : P s) (es : List ε) : M.Sometime P s es := by
  cases es with
  | nil => exact h
  | cons e es => exact .inl h

theorem Machine.Sometime.stop (hr : M.run s es = some t) (h : P t) : M.Sometime P s es := by
  induction es generalizing s with
  | nil =>
    cases hr
    exact h
  | cons e es ih =>
    obtain ⟨u, hu, hr⟩ := Machine.run_cons_some hr
    exact .inr ⟨u, hu, ih hr⟩

theorem Machine.sometime_cons {P : σ → Prop} (ht : M.step s e = some t) :
    M.Sometime P s (e :: es) ↔ P s ∨ M.Sometime P t es := by
  constructor
  · rintro (h | ⟨u, hu, h⟩)
    · exact .inl h
    · rw [ht] at hu
      cases hu
      exact .inr h
  · rintro (h | h)
    · exact .inl h
    · exact .inr ⟨t, ht, h⟩

/-- What the steps bring about only where `P` holds is there from the start, or `P` held at some
moment of the run. -/
theorem Machine.sometime_of_run {P I : σ → Prop}
    (h : ∀ s e t, M.step s e = some t → I t → I s ∨ P s) (hr : M.run s es = some t) (ht : I t) :
    I s ∨ M.Sometime P s es := by
  induction es generalizing s with
  | nil =>
    cases hr
    exact .inl ht
  | cons e es ih =>
    obtain ⟨u, hu, hr⟩ := Machine.run_cons_some hr
    rcases ih hr with hI | hP
    · rcases h s e u hu hI with hs | hs
      · exact .inl hs
      · exact .inr (.inl hs)
    · exact .inr (.inr ⟨u, hu, hP⟩)

/-- A quantity that no step decreases is not decreased by a run. -/
theorem Machine.run_mono [Preorder α] {f : σ → α}
    (hf : ∀ s e t, M.step s e = some t → f s ≤ f t) (hr : M.run s es = some t) : f s ≤ f t := by
  induction es generalizing s with
  | nil =>
    cases hr
    exact le_rfl
  | cons e es ih =>
    obtain ⟨u, hu, hr⟩ := Machine.run_cons_some hr
    exact le_trans (hf s e u hu) (ih hr)

/-- A run leaves such a quantity as it was exactly if each of its steps does. -/
theorem Machine.run_eq_iff_always [PartialOrder α] {f : σ → α}
    (hf : ∀ s e t, M.step s e = some t → f s ≤ f t) (hr : M.run s es = some t) :
    f t = f s ↔ M.Always (fun s _ t => f t = f s) s es := by
  induction es generalizing s with
  | nil =>
    cases hr
    exact iff_of_true rfl trivial
  | cons e es ih =>
    obtain ⟨u, hu, hr⟩ := Machine.run_cons_some hr
    constructor
    · intro h v hv
      rw [hu] at hv
      cases hv
      have hus : f u = f s := le_antisymm (h ▸ Machine.run_mono hf hr) (hf s e u hu)
      exact ⟨hus, (ih hr).1 (h.trans hus.symm)⟩
    · intro h
      obtain ⟨hus, hes⟩ := h u hu
      exact ((ih hr).2 hes).trans hus

/-- What the steps of a run add up to. -/
def Machine.total (M : Machine σ ε) (f : σ → ε → Nat) : σ → List ε → Nat
  | _, [] => 0
  | s, e :: es =>
    match M.step s e with
    | none => 0
    | some t => f s e + M.total f t es

/-- A quantity that each step raises by `f` and lowers by `g` is raised and lowered by a run by what
its steps add up to. -/
theorem Machine.Invariant.run_balance {J : σ → Prop} {q : σ → Int} {f g : σ → ε → Nat}
    (hJ : M.Invariant J) (hj : J s)
    (h : ∀ s e t, J s → M.step s e = some t → q t + g s e = q s + f s e)
    (hr : M.run s es = some t) : q t + M.total g s es = q s + M.total f s es := by
  induction es generalizing s with
  | nil =>
    cases hr
    rfl
  | cons e es ih =>
    obtain ⟨u, hu, hr⟩ := Machine.run_cons_some hr
    have hstep := h s e u hj hu
    have hrest := ih (hJ s e u hj hu trivial) hr
    simp only [Machine.total, hu, Int.natCast_add]
    omega

/-- A state of the abstract machine explains each state of the concrete one, and each concrete
step is explained by no step or one step of the abstract relation. -/
structure Machine.Simulation (M : Machine σ ε) (Step : τ → τ → Prop) (R : σ → τ → Prop) : Prop where
  step : ∀ s e t a, R s a → M.step s e = some t → ∃ b, R t b ∧ (b = a ∨ Step a b)

theorem Machine.Simulation.run {Step : τ → τ → Prop} (h : M.Simulation Step R) (hs : R s a)
    (hr : M.run s es = some t) : ∃ b, R t b ∧ Relation.ReflTransGen Step a b := by
  induction es generalizing s a with
  | nil =>
    cases hr
    exact ⟨a, hs, .refl⟩
  | cons e es ih =>
    obtain ⟨u, hu, hr⟩ := Machine.run_cons_some hr
    obtain ⟨c, hc, hstep⟩ := h.step s e u a hs hu
    obtain ⟨b, hb, hcb⟩ := ih hc hr
    rcases hstep with rfl | hac
    · exact ⟨b, hb, hcb⟩
    · exact ⟨b, hb, .head hac hcb⟩

theorem Machine.Simulation.invariant {Step : τ → τ → Prop} (h : M.Simulation Step R) :
    M.Invariant fun s => ∃ a, R s a := by
  rintro s e t ⟨a, ha⟩ ht -
  obtain ⟨b, hb, _⟩ := h.step s e t a ha ht
  exact ⟨b, hb⟩

end EventMachine
