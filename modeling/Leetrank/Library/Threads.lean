import Leetrank.Library.Machine

namespace Threads
set_option autoImplicit true

open EventMachine

/-- The code that any number of threads run over a shared state, in an environment that changes
the state as well. -/
structure Program (σ π α χ ε : Type) where
  start : σ → α → π
  ambient : σ → χ → σ
  step : σ → Nat → π → ε → Option (σ × π)

/-- The shared state and every thread that was ever started, at its number. -/
structure World (σ π : Type) where
  shared : σ
  threads : List π

inductive Event (α χ ε : Type) where
  | spawn (a : α)
  | ambient (x : χ)
  | act (i : Nat) (e : ε)

variable {P : Program σ π α χ ε} {w w' : World σ π}

def Program.next (P : Program σ π α χ ε) (w : World σ π) : Event α χ ε → Option (World σ π)
  | .spawn a => some { w with threads := w.threads ++ [P.start w.shared a] }
  | .ambient x => some { w with shared := P.ambient w.shared x }
  | .act i e =>
    w.threads[i]?.bind fun p =>
      (P.step w.shared i p e).map fun (s, p') => ⟨s, w.threads.set i p'⟩

/-- The program from the states with no thread in which the shared state satisfies `I`. -/
def Program.machine (P : Program σ π α χ ε) (I : σ → Prop) :
    Machine (World σ π) (Event α χ ε) where
  init := fun w => I w.shared ∧ w.threads = []
  step := P.next

theorem Program.next_act (h : P.next w (.act i e) = some w') :
    ∃ p s p', w.threads[i]? = some p ∧ P.step w.shared i p e = some (s, p') ∧
      w' = ⟨s, w.threads.set i p'⟩ := by
  obtain ⟨p, hp, h⟩ := Option.bind_eq_some_iff.1 h
  obtain ⟨⟨s, p'⟩, hs, rfl⟩ := Option.map_eq_some_iff.1 h
  exact ⟨p, s, p', hp, hs, rfl⟩

theorem World.lt_length (h : w.threads[i]? = some p) : i < w.threads.length :=
  (List.getElem?_eq_some_iff.1 h).1

/-- Once thread `j` has gone to `p'`, a thread is that one or has stayed where it was. -/
theorem World.set_cases (hj : w.threads[j]? = some p) (hi : (w.threads.set j p')[i]? = some q) :
    i = j ∧ q = p' ∨ i ≠ j ∧ w.threads[i]? = some q := by
  by_cases hij : i = j
  · subst hij
    rw [List.getElem?_set_self (World.lt_length hj)] at hi
    cases hi
    exact .inl ⟨rfl, rfl⟩
  · rw [List.getElem?_set_ne (Ne.symm hij)] at hi
    exact .inr ⟨hij, hi⟩

/-- After a step a thread is where it was, or where its own step has brought it. -/
theorem Program.next_thread (h : P.next w e = some w') (hp : w.threads[i]? = some p) :
    w'.threads[i]? = some p ∨
      ∃ x p', e = .act i x ∧ P.step w.shared i p x = some (w'.shared, p') ∧
        w'.threads[i]? = some p' := by
  cases e with
  | spawn a =>
    cases h
    exact .inl ((List.getElem?_append_left (World.lt_length hp)).trans hp)
  | ambient x =>
    cases h
    exact .inl hp
  | act j x =>
    obtain ⟨q, s, q', hq, hs, rfl⟩ := Program.next_act h
    by_cases hj : j = i
    · subst hj
      rw [hp] at hq
      cases hq
      exact .inr ⟨x, q', rfl, hs, List.getElem?_set_self (World.lt_length hp)⟩
    · exact .inl ((List.getElem?_set_ne hj).trans hp)

/-- A thread after a step was there before it, has just been started, or has taken the step. -/
theorem Program.next_thread_cases (h : P.next w e = some w') (hi : w'.threads[i]? = some p') :
    (w.threads[i]? = some p' ∧ ∀ x, e ≠ .act i x) ∨
      (∃ a, e = .spawn a ∧ p' = P.start w.shared a) ∨
      ∃ x p, e = .act i x ∧ w.threads[i]? = some p ∧
        P.step w.shared i p x = some (w'.shared, p') := by
  cases e with
  | spawn a =>
    cases h
    change (w.threads ++ [P.start w.shared a])[i]? = some p' at hi
    by_cases hlt : i < w.threads.length
    · rw [List.getElem?_append_left hlt] at hi
      exact .inl ⟨hi, nofun⟩
    · rw [List.getElem?_append_right (Nat.le_of_not_lt hlt)] at hi
      exact .inr (.inl ⟨a, rfl, List.mem_singleton.1 (List.mem_of_getElem? hi)⟩)
  | ambient x =>
    cases h
    exact .inl ⟨hi, nofun⟩
  | act j x =>
    obtain ⟨p, s, q, hp, hs, rfl⟩ := Program.next_act h
    rcases World.set_cases hp hi with ⟨rfl, rfl⟩ | ⟨hij, hi⟩
    · exact .inr (.inr ⟨x, p, rfl, hp, hs⟩)
    · refine .inl ⟨hi, fun y hy => hij ?_⟩
      cases hy
      rfl

/-- The events of one thread, and of the environment. -/
def Event.Alone (i : Nat) : Event α χ ε → Prop
  | .act j _ => j = i
  | .ambient _ => True
  | .spawn _ => False

/-- The steps of one thread while no other one takes any. -/
def Program.alone (P : Program σ π α χ ε) (i : Nat) : σ → π → List ε → Option (σ × π)
  | s, p, [] => some (s, p)
  | s, p, e :: es => (P.step s i p e).bind fun (s', p') => P.alone i s' p' es

theorem Program.alone_cons (h : P.step s i p e = some (s', p')) :
    P.alone i s p (e :: es) = P.alone i s' p' es := by
  rw [Program.alone, h]
  rfl

theorem Program.step_act (hp : w.threads[i]? = some p)
    (hs : P.step w.shared i p x = some (s, p')) (I : σ → Prop) :
    (P.machine I).step w (.act i x) = some ⟨s, w.threads.set i p'⟩ := by
  change P.next w (.act i x) = some ⟨s, w.threads.set i p'⟩
  simp [Program.next, hp, hs]

theorem Program.run_alone (hp : w.threads[i]? = some p)
    (h : P.alone i w.shared p es = some (s, p')) (I : σ → Prop) :
    (P.machine I).run w (es.map (.act i)) = some ⟨s, w.threads.set i p'⟩ := by
  induction es generalizing w p with
  | nil =>
    cases h
    obtain ⟨hi, rfl⟩ := List.getElem?_eq_some_iff.1 hp
    rw [List.set_getElem_self]
    rfl
  | cons e es ih =>
    obtain ⟨⟨s₁, p₁⟩, hs, hrest⟩ := Option.bind_eq_some_iff.1 h
    have hset : (w.threads.set i p₁)[i]? = some p₁ := List.getElem?_set_self (World.lt_length hp)
    have hnext : P.next w (.act i e) = some ⟨s₁, w.threads.set i p₁⟩ :=
      Program.step_act hp hs I
    have hrun := ih (w := ⟨s₁, w.threads.set i p₁⟩) hset hrest
    rw [List.set_set] at hrun
    rw [List.map_cons, Machine.run]
    change (P.next w (.act i e)).bind _ = _
    rw [hnext]
    exact hrun

/-- Whatever the other threads do, a thread stays where it is. -/
theorem Program.run_others {I : σ → Prop} (hes : ∀ y, Event.act i y ∉ es)
    (hp : w.threads[i]? = some p) (hr : (P.machine I).run w es = some w') :
    w'.threads[i]? = some p := by
  induction es generalizing w with
  | nil =>
    cases hr
    exact hp
  | cons e es ih =>
    obtain ⟨u, hu, hr⟩ := Machine.run_cons_some hr
    refine ih (fun y hy => hes y (List.mem_cons_of_mem e hy)) ?_ hr
    rcases Program.next_thread hu hp with hi | ⟨y, _, rfl, _⟩
    · exact hi
    · exact absurd List.mem_cons_self (hes y)

/-- A thread can take a step, and once it has and the others have gone on for as long as they like,
`Q` holds. -/
def AndThen (M : Machine (World σ π) (Event α χ ε)) (i : Nat) (x : ε) (w : World σ π)
    (Q : World σ π → Prop) : Prop :=
  (∃ u, M.step w (.act i x) = some u) ∧
    ∀ es w', (∀ y, Event.act i y ∉ es) → M.run w (.act i x :: es) = some w' → Q w'

theorem Program.andThen {I : σ → Prop} {Q : World σ π → Prop} (hp : w.threads[i]? = some p)
    (hs : P.step w.shared i p x = some (s, p'))
    (hQ : ∀ es w', (P.machine I).run ⟨s, w.threads.set i p'⟩ es = some w' →
      w'.threads[i]? = some p' → Q w') : AndThen (P.machine I) i x w Q := by
  refine ⟨⟨_, Program.step_act hp hs I⟩, ?_⟩
  intro es w' hes hr
  obtain ⟨u, hu, hr⟩ := Machine.run_cons_some hr
  rw [Program.step_act hp hs I] at hu
  cases hu
  exact hQ es w' hr (Program.run_others hes (List.getElem?_set_self (World.lt_length hp)) hr)

/-- A step of the program, on the shared state and the thread that takes it. -/
abbrev StepProp (σ π ε : Type) : Type := σ → Nat → π → ε → Prop

/-- A condition on the steps of the threads, as a condition on the events of the machine. -/
def OnSteps (C : StepProp σ π ε) (w : World σ π) (e : Event α χ ε) (_ : World σ π) : Prop :=
  ∀ i x p, e = .act i x → w.threads[i]? = some p → C w.shared i p x

theorem OnSteps.spawn {C : StepProp σ π ε} (a : α) :
    OnSteps C w (.spawn a : Event α χ ε) w' := by
  intro i x p he
  cases he

theorem OnSteps.ambient {C : StepProp σ π ε} (x : χ) :
    OnSteps C w (.ambient x : Event α χ ε) w' := by
  intro i y p he
  cases he

theorem OnSteps.act {C : StepProp σ π ε} (hp : w.threads[i]? = some p) (h : C w.shared i p x) :
    OnSteps C w (.act i x : Event α χ ε) w' := by
  intro j y q he hq
  cases he
  rw [hp] at hq
  cases hq
  exact h

/-- Assertions of the shared state and of each thread, started or not, that every step keeps: its
own thread establishes its assertion again and does not interfere with those of the others. -/
structure Program.Stable (P : Program σ π α χ ε) (C : StepProp σ π ε) (G : σ → Prop)
    (L : σ → Nat → Option π → Prop) : Prop where
  start : ∀ s i a, G s → L s i none → L s i (some (P.start s a))
  ambient : ∀ s x, G s → G (P.ambient s x) ∧ ∀ i o, L s i o → L (P.ambient s x) i o
  step : ∀ s i p e s' p', G s → L s i (some p) → C s i p e → P.step s i p e = some (s', p') →
    G s' ∧ L s' i (some p') ∧ ∀ j o, j ≠ i → L s j o → L s' j o

def Holds (G : σ → Prop) (L : σ → Nat → Option π → Prop) (w : World σ π) : Prop :=
  G w.shared ∧ ∀ i, L w.shared i w.threads[i]?

theorem holds_start {G : σ → Prop} {L : σ → Nat → Option π → Prop} (h : (P.machine I).init w)
    (hI : ∀ s, I s → G s ∧ ∀ i, L s i none) : Holds G L w := by
  obtain ⟨hG, hL⟩ := hI w.shared h.1
  refine ⟨hG, ?_⟩
  intro i
  rw [h.2]
  exact hL i

/-- Assertions that are stable hold throughout every run of steps that satisfy the condition. -/
theorem Program.Stable.preserves {C : StepProp σ π ε} (h : P.Stable C G L) (I : σ → Prop) :
    (P.machine I).Preserves (OnSteps C) (Holds G L) := by
  rintro w e w' ⟨hG, hL⟩ hstep hC
  cases e with
  | spawn a =>
    cases hstep
    refine ⟨hG, ?_⟩
    intro i
    have hi := hL i
    rcases Nat.lt_trichotomy i w.threads.length with hlt | heq | hgt
    · change L w.shared i (w.threads ++ [P.start w.shared a])[i]?
      rw [List.getElem?_append_left hlt]
      exact hi
    · subst heq
      rw [List.getElem?_eq_none (Nat.le_refl _)] at hi
      change L w.shared w.threads.length (w.threads ++ [P.start w.shared a])[w.threads.length]?
      rw [List.getElem?_concat_length]
      exact h.start w.shared _ a hG hi
    · rw [List.getElem?_eq_none (Nat.le_of_lt hgt)] at hi
      have hlen : (w.threads ++ [P.start w.shared a]).length ≤ i := by
        rw [List.length_append]
        exact hgt
      change L w.shared i (w.threads ++ [P.start w.shared a])[i]?
      rw [List.getElem?_eq_none hlen]
      exact hi
  | ambient x =>
    cases hstep
    obtain ⟨hG', hL'⟩ := h.ambient w.shared x hG
    exact ⟨hG', fun i => hL' i _ (hL i)⟩
  | act i e =>
    obtain ⟨p, s, p', hp, hs, rfl⟩ := Program.next_act hstep
    have hi : L w.shared i (some p) := hp ▸ hL i
    obtain ⟨hG', hown, hother⟩ := h.step w.shared i p e s p' hG hi (hC i e p rfl hp) hs
    refine ⟨hG', ?_⟩
    intro j
    by_cases hj : j = i
    · subst j
      change L s i (w.threads.set i p')[i]?
      rw [List.getElem?_set_self (World.lt_length hp)]
      exact hown
    · change L s j (w.threads.set i p')[j]?
      rw [List.getElem?_set_ne (Ne.symm hj)]
      exact hother j _ hj (hL j)

theorem Program.Stable.invariant (h : P.Stable (fun _ _ _ _ => True) G L) (I : σ → Prop) :
    (P.machine I).Invariant (Holds G L) :=
  fun w e w' hw hs _ => h.preserves I w e w' hw hs fun _ _ _ _ _ => trivial

/-- A predicate of every thread that was started. -/
def OfThreads (Q : π → Prop) (_ : σ) (_ : Nat) (o : Option π) : Prop := ∀ p, o = some p → Q p

theorem Program.stable_ofThreads {P : Program σ π α χ ε} {C : StepProp σ π ε} {Q : π → Prop}
    (hstart : ∀ s a, Q (P.start s a))
    (hstep : ∀ s i p x s' p', Q p → C s i p x → P.step s i p x = some (s', p') → Q p') :
    P.Stable C (fun _ => True) (OfThreads Q) where
  start := by
    rintro s i a - - p ⟨⟩
    exact hstart s a
  ambient := fun _ _ _ => ⟨trivial, fun _ _ h => h⟩
  step := by
    intro s i p x s' p' _ hp hC hs
    refine ⟨trivial, ?_, fun _ _ _ h => h⟩
    rintro q ⟨⟩
    exact hstep s i p x s' p' (hp p rfl) hC hs

theorem holds_ofThreads {P : Program σ π α χ ε} {Q : π → Prop} (h : (P.machine I).init w) :
    Holds (fun _ => True) (OfThreads Q) w := by
  refine holds_start h fun _ _ => ⟨trivial, fun _ => ?_⟩
  nofun

/-- A predicate of the shared state holds throughout a run exactly if every step of a thread
satisfies the condition under which it is kept there. -/
theorem Program.always_shared_iff {P : Program σ π α χ ε} {Q : π → Prop} {I J : σ → Prop}
    {C : StepProp σ π ε} (hstart : ∀ s a, Q (P.start s a))
    (hthread : ∀ s i p x s' p', P.step s i p x = some (s', p') → Q p')
    (hambient : ∀ s x, I s → I (P.ambient s x))
    (hstep : ∀ s i p x s' p', Q p → I s → P.step s i p x = some (s', p') → (I s' ↔ C s i p x))
    (h₀ : (P.machine J).init w) (hI : I w.shared) :
    (P.machine J).Always (fun _ _ w => I w.shared) w es ↔
      (P.machine J).Always (OnSteps C) w es := by
  have hstable : P.Stable (fun _ _ _ _ => True) (fun _ => True) (OfThreads Q) :=
    Program.stable_ofThreads hstart fun s i p x s' p' _ _ => hthread s i p x s' p'
  refine (hstable.invariant J).always_state_iff (holds_ofThreads h₀) hI ?_
  rintro u e u' ⟨-, hthreads⟩ hu hs
  cases e with
  | spawn a =>
    cases hs
    exact iff_of_true hu (.spawn a)
  | ambient x =>
    cases hs
    exact iff_of_true (hambient u.shared x hu) (.ambient x)
  | act i x =>
    obtain ⟨p, s, p', hp, hst, rfl⟩ := Program.next_act hs
    exact (hstep u.shared i p x s p' (hthreads i p hp) hu hst).trans
      ⟨fun h => .act hp h, fun h => h i x p rfl hp⟩

/-- What no step of the environment does is done by no step at all exactly if every step of a thread
satisfies the condition under which it is not. -/
theorem Program.always_change_iff {P : Program σ π α χ ε} {D : σ → σ → Prop} {J : σ → Prop}
    {C : StepProp σ π ε} (hrefl : ∀ s, D s s) (hambient : ∀ s x, D s (P.ambient s x))
    (hstep : ∀ s i p x s' p', P.step s i p x = some (s', p') → (D s s' ↔ C s i p x)) :
    (P.machine J).Always (fun w _ w' => D w.shared w'.shared) w es ↔
      (P.machine J).Always (OnSteps C) w es := by
  have hinv : (P.machine J).Invariant fun _ => True := fun _ _ _ _ _ _ => trivial
  apply hinv.always_iff trivial
  intro u e u' _ hs
  cases e with
  | spawn a =>
    cases hs
    exact iff_of_true (hrefl u.shared) (.spawn a)
  | ambient x =>
    cases hs
    exact iff_of_true (hambient u.shared x) (.ambient x)
  | act i x =>
    obtain ⟨p, s, p', hp, hst, rfl⟩ := Program.next_act hs
    exact (hstep u.shared i p x s p' hst).trans ⟨fun h => .act hp h, fun h => h i x p rfl hp⟩

def Event.actor : Event α χ ε → Option Nat
  | .act i _ => some i
  | .spawn _ | .ambient _ => none

/-- What the steps of one thread have added to a quantity of the shared state. -/
def Program.contribution (P : Program σ π α χ ε) (f : σ → Int) (i : Nat) :
    World σ π → List (Event α χ ε) → Int
  | _, [] => 0
  | w, e :: es =>
    match P.next w e with
    | none => 0
    | some w' =>
      (if e.actor = some i then f w'.shared - f w.shared else 0) + P.contribution f i w' es

/-- Whether the thread with a given number holds one unit of a quantity. -/
def World.share (w : World σ π) (holds : π → Bool) (i : Nat) : Int :=
  match w.threads[i]? with
  | some p => (holds p).toInt
  | none => 0

def World.count (w : World σ π) (holds : π → Bool) : Nat := w.threads.countP holds

/-- The quantity counts units: a step adds the unit that its thread takes, and removes the one
that its thread gives back. -/
structure Program.Accounts (P : Program σ π α χ ε) (f : σ → Int) (holds : π → Bool) : Prop where
  start : ∀ s a, holds (P.start s a) = false
  ambient : ∀ s x, f (P.ambient s x) = f s
  step : ∀ s i p e s' p', P.step s i p e = some (s', p') →
    f s' - f s = (holds p').toInt - (holds p).toInt

theorem World.share_of_some {holds : π → Bool} (h : w.threads[i]? = some p) :
    w.share holds i = (holds p).toInt := by
  rw [World.share, h]

/-- The same for the steps that satisfy a condition. -/
structure Program.AccountsUnder (P : Program σ π α χ ε) (C : StepProp σ π ε) (f : σ → Int)
    (holds : π → Bool) : Prop where
  start : ∀ s a, holds (P.start s a) = false
  ambient : ∀ s x, f (P.ambient s x) = f s
  step : ∀ s i p e s' p', C s i p e → P.step s i p e = some (s', p') →
    f s' - f s = (holds p').toInt - (holds p).toInt

theorem Program.Accounts.under (h : P.Accounts f holds) (C : StepProp σ π ε) :
    P.AccountsUnder C f holds where
  start := h.start
  ambient := h.ambient
  step := fun s i p e s' p' _ => h.step s i p e s' p'

theorem Program.AccountsUnder.share_next (h : P.AccountsUnder C f holds)
    (hs : P.next w e = some w') (hC : OnSteps C w e w') (i : Nat) :
    (if e.actor = some i then f w'.shared - f w.shared else 0) =
      w'.share holds i - w.share holds i := by
  cases e with
  | spawn a =>
    cases hs
    rw [if_neg (by rintro ⟨⟩)]
    by_cases hlt : i < w.threads.length
    · simp [World.share, List.getElem?_append_left hlt]
    · by_cases hi : i = w.threads.length
      · simp [World.share, hi, h.start]
      · have hout : w.threads.length < i := by omega
        have hnil : ([P.start w.shared a] : List π)[i - w.threads.length]? = none :=
          List.getElem?_eq_none (by simp; omega)
        simp [World.share, List.getElem?_append_right (Nat.le_of_lt hout), hnil,
          List.getElem?_eq_none (Nat.le_of_lt hout)]
  | ambient x =>
    cases hs
    simp [World.share, Event.actor]
  | act j e =>
    obtain ⟨p, s, p', hp, hst, rfl⟩ := Program.next_act hs
    by_cases hj : j = i
    · subst j
      rw [Event.actor, if_pos rfl, World.share_of_some (List.getElem?_set_self (World.lt_length hp)),
        World.share_of_some hp]
      exact h.step w.shared i p e s p' (hC i e p rfl hp) hst
    · simp [World.share, Event.actor, hj]

/-- Over a whole run a thread adds to the quantity what it holds more at the end. -/
theorem Program.AccountsUnder.contribution (h : P.AccountsUnder C f holds)
    (hC : (P.machine I).Always (OnSteps C) w es) (hr : (P.machine I).run w es = some w') (i : Nat) :
    P.contribution f i w es = w'.share holds i - w.share holds i := by
  induction es generalizing w with
  | nil =>
    cases hr
    exact (Int.sub_self _).symm
  | cons e es ih =>
    obtain ⟨u, hu, hr⟩ := Machine.run_cons_some hr
    obtain ⟨he, hes⟩ := hC u hu
    have hn : P.next w e = some u := hu
    have hshare := h.share_next hn he i
    simp only [Program.contribution, hn, ih hes hr]
    omega

theorem OnSteps.always_true (w : World σ π) (es : List (Event α χ ε)) :
    (P.machine I).Always (OnSteps fun _ _ _ _ => True) w es :=
  Machine.always_of_events fun _ _ _ _ _ _ _ _ _ => trivial

theorem Program.Accounts.contribution (h : P.Accounts f holds)
    (hr : (P.machine I).run w es = some w') (i : Nat) :
    P.contribution f i w es = w'.share holds i - w.share holds i :=
  (h.under fun _ _ _ _ => True).contribution (OnSteps.always_true w es) hr i

theorem World.count_append (s : σ) (ps : List π) (holds : π → Bool) :
    World.count ⟨s, ps ++ [p]⟩ holds = World.count ⟨s, ps⟩ holds + (holds p).toNat := by
  rw [World.count, World.count, List.countP_append, List.countP_singleton]
  cases holds p <;> rfl

theorem World.count_pos {i : Nat} {holds : π → Bool} (h : w.threads[i]? = some p)
    (hp : holds p = true) :
    0 < w.count holds :=
  List.countP_pos_iff.2 ⟨p, List.mem_of_getElem? h, hp⟩

theorem World.count_eq_zero {holds : π → Bool} (h : ∀ p ∈ w.threads, holds p = false) :
    w.count holds = 0 :=
  List.countP_eq_zero.2 fun p hp => by rw [h p hp]; decide

theorem World.count_mono {f g : π → Bool} (h : ∀ p, f p = true → g p = true) :
    w.count f ≤ w.count g :=
  List.countP_mono_left fun p _ => h p

theorem World.count_set (h : w.threads[i]? = some p) (s : σ) (p' : π) (holds : π → Bool) :
    World.count ⟨s, w.threads.set i p'⟩ holds + (holds p).toNat =
      w.count holds + (holds p').toNat := by
  obtain ⟨hi, hp⟩ := List.getElem?_eq_some_iff.1 h
  have hpos : holds p = true → 0 < w.count holds := fun ht => World.count_pos h ht
  rw [World.count] at hpos
  rw [World.count, World.count, List.countP_set hi, hp]
  cases hb : holds p with
  | false => cases hb' : holds p' <;> simp
  | true =>
    have := hpos hb
    cases hb' : holds p' <;> simp <;> omega

/-- What the quantity is beyond the units held does not change. -/
theorem Program.AccountsUnder.count_next (h : P.AccountsUnder C f holds)
    (hs : P.next w e = some w') (hC : OnSteps C w e w') :
    f w'.shared - w'.count holds = f w.shared - w.count holds := by
  cases e with
  | spawn a =>
    cases hs
    rw [World.count_append, h.start]
    rfl
  | ambient x =>
    cases hs
    exact congrArg (· - _) (h.ambient w.shared x)
  | act i e =>
    obtain ⟨p, s, p', hp, hst, rfl⟩ := Program.next_act hs
    have hc := World.count_set hp s p' holds
    have hf := h.step w.shared i p e s p' (hC i e p rfl hp) hst
    have htoInt (b : Bool) : b.toInt = b.toNat := by cases b <;> rfl
    simp only [htoInt] at hf
    change f s - World.count ⟨s, w.threads.set i p'⟩ holds = _
    omega

theorem Program.Accounts.invariant (h : P.Accounts f holds) (I : σ → Prop) (n : Int) :
    (P.machine I).Invariant fun w => f w.shared = n + w.count holds := by
  intro w e w' hw hs hC
  have hn := (h.under fun _ _ _ _ => True).count_next hs fun _ _ _ _ _ => trivial
  change f w.shared = n + w.count holds at hw
  change f w'.shared = n + w'.count holds
  omega

/-- Where a step may rely on its thread's own unit, the quantity is exactly the units held. -/
theorem Program.AccountsUnder.preserves {holds : π → Bool} {f : σ → Int}
    (h : P.AccountsUnder (fun s i p e => C s i p e ∧ (holds p = true → 0 < f s)) f holds)
    (I : σ → Prop) : (P.machine I).Preserves (OnSteps C) fun w => f w.shared = w.count holds := by
  intro w e w' hw hs hC
  change f w.shared = w.count holds at hw
  have hn := h.count_next hs fun i x p he hp =>
    ⟨hC i x p he hp, fun hh => by have := World.count_pos hp hh; omega⟩
  change f w'.shared = w'.count holds
  omega

/-- From the start the quantity is its initial value and one unit for each thread that holds one. -/
theorem Program.Accounts.total (h : P.Accounts f holds) (h₀ : (P.machine I).init w)
    (hr : (P.machine I).run w es = some w') : f w'.shared = f w.shared + w'.count holds := by
  have hw : f w.shared = f w.shared + w.count holds := by
    rw [World.count, h₀.2, List.countP_nil, Int.natCast_zero, Int.add_zero]
  exact (h.invariant I (f w.shared)).run hw hr

/-- How a statement ends for the thread that issues it: it fails without an effect, or it takes
effect and its answer is lost. -/
inductive Outcome where
  | proceed
  | fail
  | lost

/-- The steps of threads that issue one statement after the other and give up when one fails. -/
def statementStep (statement : σ → π → Option (σ × π)) (giveUp : π → π) (s : σ) (_ : Nat) (p : π)
    (x : Outcome) : Option (σ × π) :=
  (statement s p).map fun (s', p') =>
    match x with
    | .proceed => (s', p')
    | .fail => (s, giveUp p)
    | .lost => (s', giveUp p)

/-- A step leaves the state as it is, or is the effect of the statement. -/
theorem statementStep_cases {statement : σ → π → Option (σ × π)} {giveUp : π → π}
    (h : statementStep statement giveUp s i p x = some (s', p')) :
    x = .fail ∧ s' = s ∨ x ≠ .fail ∧ ∃ q, statement s p = some (s', q) := by
  obtain ⟨⟨s₁, q⟩, hst, hx⟩ := Option.map_eq_some_iff.1 h
  cases x with
  | fail =>
    cases hx
    exact .inl ⟨rfl, rfl⟩
  | proceed | lost =>
    cases hx
    exact .inr ⟨nofun, _, hst⟩

/-- A thread has given up after a step, or stands where its statement has brought it. -/
theorem statementStep_thread {statement : σ → π → Option (σ × π)} {giveUp : π → π}
    (h : statementStep statement giveUp s i p x = some (s', p')) :
    p' = giveUp p ∨ statement s p = some (s', p') := by
  obtain ⟨⟨s₁, q⟩, hst, hx⟩ := Option.map_eq_some_iff.1 h
  cases x with
  | proceed =>
    cases hx
    exact .inr hst
  | fail | lost =>
    cases hx
    exact .inl rfl

/-- A number for each step of the threads, as a number for each event of the machine. -/
def perStep (f : σ → π → ε → Nat) (w : World σ π) : Event α χ ε → Nat
  | .act i x =>
    match w.threads[i]? with
    | none => 0
    | some p => f w.shared p x
  | .spawn _ | .ambient _ => 0

theorem perStep_act {f : σ → π → ε → Nat} (h : w.threads[i]? = some p) :
    perStep f w (.act i x : Event α χ ε) = f w.shared p x := by
  rw [perStep, h]

/-- The shared state is in order, or some thread is about to put it in order. -/
def Mending (ok : σ → Prop) (mends : σ → π → Prop) (w : World σ π) : Prop :=
  ok w.shared ∨ ∃ (i : Nat) (p : π), w.threads[i]? = some p ∧ mends w.shared p

/-- A thread other than the given one is about to put a state in order. -/
def World.OthersMend (w : World σ π) (mends : σ → π → Prop) (i : Nat) (s : σ) : Prop :=
  ∃ (j : Nat) (p : π), j ≠ i ∧ w.threads[j]? = some p ∧ mends s p

theorem mending_set_iff {ok : σ → Prop} {mends : σ → π → Prop} (hi : w.threads[i]? = some p) :
    Mending ok mends ⟨s, w.threads.set i p'⟩ ↔ ok s ∨ mends s p' ∨ w.OthersMend mends i s := by
  refine or_congr_right ⟨?_, ?_⟩
  · rintro ⟨j, q, hj, hq⟩
    rcases World.set_cases hi hj with ⟨rfl, rfl⟩ | ⟨hne, hj⟩
    · exact .inl hq
    · exact .inr ⟨j, q, hne, hj, hq⟩
  · rintro (hp' | ⟨j, q, hne, hj, hq⟩)
    · exact ⟨i, p', List.getElem?_set_self (World.lt_length hi), hp'⟩
    · exact ⟨j, q, (List.getElem?_set_ne (Ne.symm hne)).trans hj, hq⟩

/-- While a thread that mends nothing leaves the state as it is, others have to mend it. -/
theorem Mending.others {ok : σ → Prop} {mends : σ → π → Prop} (h : Mending ok mends w)
    (hi : w.threads[i]? = some p) (hp : ¬mends w.shared p) :
    ok w.shared ∨ w.OthersMend mends i w.shared := by
  refine h.imp_right ?_
  rintro ⟨j, q, hj, hq⟩
  refine ⟨j, q, ?_, hj, hq⟩
  rintro rfl
  rw [hi] at hj
  cases hj
  exact hp hq

/-- Threads that can all end without touching the state can be brought to their end together. -/
theorem Program.drain {done : π → Bool} (I : σ → Prop)
    (hend : ∀ s i p, done p = false → ∃ e p', P.step s i p e = some (s, p') ∧ done p' = true)
    (w : World σ π) : ∃ es w', (P.machine I).run w es = some w' ∧ w'.shared = w.shared ∧
      ∀ p ∈ w'.threads, done p = true := by
  induction hn : w.count (fun p => !done p) generalizing w with
  | zero =>
    refine ⟨[], w, rfl, rfl, fun p hp => ?_⟩
    simpa using List.countP_eq_zero.1 hn p hp
  | succ n ih =>
    have hpos : 0 < w.count fun p => !done p := by
      rw [hn]
      exact Nat.succ_pos n
    obtain ⟨p, hp, hnot⟩ := List.countP_pos_iff.1 hpos
    obtain ⟨i, hi⟩ := List.mem_iff_getElem?.1 hp
    rw [Bool.not_eq_true'] at hnot
    obtain ⟨e, p', hstep, hdone⟩ := hend w.shared i p hnot
    have hcount := World.count_set hi w.shared p' (fun p => !done p)
    simp only [hnot, hdone, Bool.not_false, Bool.not_true, Bool.toNat_true, Bool.toNat_false,
      hn, Nat.add_zero, Nat.add_right_cancel_iff] at hcount
    obtain ⟨es, w', hrun, hshared, hall⟩ := ih ⟨w.shared, w.threads.set i p'⟩ hcount
    refine ⟨.act i e :: es, w', ?_, hshared, hall⟩
    have hnext : P.next w (.act i e) = some ⟨w.shared, w.threads.set i p'⟩ := by
      simp [Program.next, hi, hstep]
    rw [Machine.run]
    change (P.next w (.act i e)).bind _ = _
    rw [hnext]
    exact hrun

end Threads
