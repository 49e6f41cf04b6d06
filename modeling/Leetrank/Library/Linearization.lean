import Leetrank.Library.Threads
import Mathlib.Data.List.Nodup

namespace Linearization
set_option autoImplicit true

open EventMachine Threads

/-- An object that does one operation after the other. -/
structure Object (τ ω ρ : Type) where
  apply : τ → ω → τ × ρ

/-- The operations, done one after the other, have these answers. -/
def Object.Legal (O : Object τ ω ρ) : τ → List (ω × ρ) → τ → Prop
  | a, [], b => a = b
  | a, (o, r) :: h, b => (O.apply a o).2 = r ∧ O.Legal (O.apply a o).1 h b

theorem Object.Legal.concat {O : Object τ ω ρ} (h : O.Legal a l b) (ho : O.apply b o = (c, r)) :
    O.Legal a (l ++ [(o, r)]) c := by
  induction l generalizing a with
  | nil =>
    obtain rfl : a = b := h
    exact ⟨congrArg Prod.snd ho, congrArg Prod.fst ho⟩
  | cons x l ih => exact ⟨h.1, ih h.2⟩

/-- How threads that issue one statement after the other are read as callers of an object: the
operation that a thread asks for, and what it has been told in the end. -/
structure Reading (σ π χ τ ω ρ : Type) where
  object : Object τ ω ρ
  statement : σ → π → Option (σ × π)
  giveUp : π → π
  view : σ → τ
  change : χ → ω
  asks : π → Option ω
  answer : π → Option ρ

/-- An operation with its caller, if that is a thread, and its answer. -/
abbrev Entry (ω ρ : Type) : Type := Option Nat × ω × ρ

variable {R : Reading σ π χ τ ω ρ} {P : Program σ π α χ Outcome}

/-- The operation of a thread is done by the statement that has its answer. -/
def Reading.called (R : Reading σ π χ τ ω ρ) (w : World σ π) (i : Nat) : Option (Entry ω ρ) :=
  w.threads[i]?.bind fun p => (R.statement w.shared p).bind fun (_, q) =>
    (R.answer q).bind fun r => (R.asks q).map fun o => (some i, o, r)

def Reading.entry (R : Reading σ π χ τ ω ρ) (w : World σ π) :
    Event α χ Outcome → Option (Entry ω ρ)
  | .spawn _ => none
  | .ambient x => some (none, R.change x, (R.object.apply (R.view w.shared) (R.change x)).2)
  | .act i .proceed | .act i .lost => R.called w i
  | .act _ .fail => none

/-- The operations of a run in the order in which they are done. -/
def Reading.history (R : Reading σ π χ τ ω ρ) (P : Program σ π α χ Outcome) :
    World σ π → List (Event α χ Outcome) → List (Entry ω ρ)
  | _, [] => []
  | w, e :: es =>
    (R.entry w e).toList ++ match P.next w e with
      | none => []
      | some w' => R.history P w' es

/-- A history explains where a run has come: its answers are those of the object, every thread has
been told the answer to what it asked for, an operation is that of a thread which has been told its
answer or has given up, and no thread has two. -/
structure Reading.Explains (R : Reading σ π χ τ ω ρ) (w₀ w : World σ π)
    (h : List (Entry ω ρ)) : Prop where
  legal : R.object.Legal (R.view w₀.shared) (h.map Prod.snd) (R.view w.shared)
  told : ∀ (i : Nat) p r, w.threads[i]? = some p → R.answer p = some r →
    ∃ o, R.asks p = some o ∧ (some i, o, r) ∈ h
  called : ∀ (i : Nat) o r, (some i, o, r) ∈ h → ∃ p, w.threads[i]? = some p ∧
    R.asks p = some o ∧ (R.answer p = some r ∨ ∃ p', p = R.giveUp p')
  once : (h.filterMap Prod.fst).Nodup

/-- Only the statement that has the answer of a thread changes what the object is read from, and it
does what the thread asks for. -/
structure Reading.Atomic (R : Reading σ π χ τ ω ρ) (P : Program σ π α χ Outcome) (G : σ → Prop)
    (L : σ → π → Prop) : Prop where
  step : P.step = statementStep R.statement R.giveUp
  stable : P.Stable (fun _ _ _ _ => True) G fun s _ o => ∀ p, o = some p → L s p
  start : ∀ s a, R.answer (P.start s a) = none
  ambient : ∀ s x, (R.object.apply (R.view s) (R.change x)).1 = R.view (P.ambient s x)
  asks : ∀ s p s' q, R.statement s p = some (s', q) → R.asks q = R.asks p
  reads : ∀ s p s' q, L s p → R.statement s p = some (s', q) → R.answer q = none →
    R.view s' = R.view s
  does : ∀ s p s' q r, G s → L s p → R.statement s p = some (s', q) → R.answer q = some r →
    ∃ o, R.asks p = some o ∧ R.object.apply (R.view s) o = (R.view s', r)
  ends : ∀ s p r, R.answer p = some r → R.statement s p = none
  gaveUp : ∀ p, R.asks (R.giveUp p) = R.asks p ∧ R.answer (R.giveUp p) = none ∧
    ∀ s, R.statement s (R.giveUp p) = none

section
variable {w₀ w w' : World σ π} {hist : List (Entry ω ρ)} {p p' : π} {s : σ}

/-- A step of a thread that does nothing to the object. -/
theorem Reading.Explains.silent (h : R.Explains w₀ w hist) (hp : w.threads[i]? = some p)
    (hnew : ∀ o r, (some i, o, r) ∉ hist) (hview : R.view s = R.view w.shared)
    (hanswer : R.answer p' = none) : R.Explains w₀ ⟨s, w.threads.set i p'⟩ hist where
  legal := by
    rw [hview]
    exact h.legal
  told := by
    intro j q r hj hq
    rcases World.set_cases hp hj with ⟨-, rfl⟩ | ⟨-, hj⟩
    · rw [hanswer] at hq
      cases hq
    · exact h.told j q r hj hq
  called := by
    intro j o r hmem
    obtain ⟨q, hq, hend⟩ := h.called j o r hmem
    have hj : i ≠ j := by
      rintro rfl
      exact hnew o r hmem
    exact ⟨q, (List.getElem?_set_ne hj).trans hq, hend⟩
  once := h.once

/-- A step of a thread that does what the thread has asked for. -/
theorem Reading.Explains.call (h : R.Explains w₀ w hist) (hp : w.threads[i]? = some p)
    (hnew : ∀ o r, (some i, o, r) ∉ hist) (hasks : R.asks p' = some o)
    (ho : R.object.apply (R.view w.shared) o = (R.view s, r))
    (hend : R.answer p' = some r ∨ R.answer p' = none ∧ ∃ q, p' = R.giveUp q) :
    R.Explains w₀ ⟨s, w.threads.set i p'⟩ (hist ++ [(some i, o, r)]) where
  legal := by
    rw [List.map_append]
    exact h.legal.concat ho
  told := by
    intro j q r' hj hq
    rcases World.set_cases hp hj with ⟨rfl, rfl⟩ | ⟨-, hj⟩
    · rcases hend with htold | ⟨hnone, -⟩
      · rw [htold] at hq
        cases hq
        exact ⟨o, hasks, List.mem_append_right hist (List.mem_singleton_self _)⟩
      · rw [hnone] at hq
        cases hq
    · obtain ⟨o', ho', hmem⟩ := h.told j q r' hj hq
      exact ⟨o', ho', List.mem_append_left _ hmem⟩
  called := by
    intro j o' r' hmem
    rcases List.mem_append.1 hmem with hmem | hmem
    · obtain ⟨q, hq, hdone⟩ := h.called j o' r' hmem
      have hj : i ≠ j := by
        rintro rfl
        exact hnew o' r' hmem
      exact ⟨q, (List.getElem?_set_ne hj).trans hq, hdone⟩
    · cases List.mem_singleton.1 hmem
      exact ⟨p', List.getElem?_set_self (World.lt_length hp), hasks, hend.imp_right And.right⟩
  once := by
    rw [List.filterMap_append]
    apply h.once.append (List.nodup_singleton i)
    intro j hj hi
    obtain rfl := List.mem_singleton.1 hi
    obtain ⟨⟨_, o', r'⟩, hmem, rfl⟩ := List.mem_filterMap.1 hj
    exact hnew o' r' hmem

theorem Reading.Explains.started (h : R.Explains w₀ w hist) (hanswer : R.answer p = none) :
    R.Explains w₀ { w with threads := w.threads ++ [p] } hist where
  legal := h.legal
  told := by
    intro i q r hi hr
    by_cases hlt : i < w.threads.length
    · exact h.told i q r ((List.getElem?_append_left hlt).symm.trans hi) hr
    · change (w.threads ++ [p])[i]? = some q at hi
      rw [List.getElem?_append_right (Nat.le_of_not_lt hlt)] at hi
      obtain rfl := List.mem_singleton.1 (List.mem_of_getElem? hi)
      rw [hanswer] at hr
      cases hr
  called := by
    intro i o r hmem
    obtain ⟨q, hq, hend⟩ := h.called i o r hmem
    exact ⟨q, (List.getElem?_append_left (World.lt_length hq)).trans hq, hend⟩
  once := h.once

/-- A change of the environment is an operation without a caller. -/
theorem Reading.Explains.changed (h : R.Explains w₀ w hist)
    (ho : R.object.apply (R.view w.shared) o = (R.view s, r)) :
    R.Explains w₀ { w with shared := s } (hist ++ [(none, o, r)]) where
  legal := by
    rw [List.map_append]
    exact h.legal.concat ho
  told := by
    intro i q r' hi hr
    obtain ⟨o', ho', hmem⟩ := h.told i q r' hi hr
    exact ⟨o', ho', List.mem_append_left _ hmem⟩
  called := by
    intro i o' r' hmem
    rcases List.mem_append.1 hmem with hmem | hmem
    · exact h.called i o' r' hmem
    · cases List.mem_singleton.1 hmem
  once := by
    rw [List.filterMap_append]
    exact (List.append_nil _).symm ▸ h.once

variable {G : σ → Prop} {L : σ → π → Prop}

/-- A thread that has an operation in the history takes no more steps. -/
theorem Reading.Atomic.not_called (hR : R.Atomic P G L) (h : R.Explains w₀ w hist)
    (hp : w.threads[i]? = some p) (hs : R.statement s p = some (s', q)) (o : ω) (r : ρ) :
    (some i, o, r) ∉ hist := by
  intro hmem
  obtain ⟨q, hq, -, hend⟩ := h.called i o r hmem
  rw [hp] at hq
  cases hq
  rcases hend with htold | ⟨p', rfl⟩
  · rw [hR.ends s p r htold] at hs
    cases hs
  · rw [(hR.gaveUp p').2.2 s] at hs
    cases hs

theorem Reading.called_eq (hp : w.threads[i]? = some p)
    (hs : R.statement w.shared p = some (s, q)) :
    R.called w i = (R.answer q).bind fun r => (R.asks q).map fun o => (some i, o, r) := by
  rw [Reading.called, hp, Option.bind_some, hs]
  rfl

/-- The statement of a thread, whose answer may be lost. -/
theorem Reading.Atomic.explains_statement (hR : R.Atomic P G L) (h : R.Explains w₀ w hist)
    (hI : Holds G (fun s _ o => ∀ p, o = some p → L s p) w) (hp : w.threads[i]? = some p)
    (hs : R.statement w.shared p = some (s, q)) (hp' : p' = q ∨ p' = R.giveUp p) :
    R.Explains w₀ ⟨s, w.threads.set i p'⟩ (hist ++ (R.called w i).toList) := by
  have hnew := hR.not_called h hp hs
  have hqasks := hR.asks _ _ _ _ hs
  have hasks : R.asks p' = R.asks p := by
    rcases hp' with rfl | rfl
    · exact hqasks
    · exact (hR.gaveUp p).1
  rw [Reading.called_eq hp hs]
  cases hq : R.answer q with
  | none =>
    have hanswer : R.answer p' = none := by
      rcases hp' with rfl | rfl
      · exact hq
      · exact (hR.gaveUp p).2.1
    rw [Option.bind_none, Option.toList_none, List.append_nil]
    exact h.silent hp hnew (hR.reads _ _ _ _ (hI.2 i p hp) hs hq) hanswer
  | some r =>
    obtain ⟨o, ho, hdoes⟩ := hR.does _ _ _ _ _ hI.1 (hI.2 i p hp) hs hq
    rw [Option.bind_some, hqasks, ho, Option.map_some, Option.toList_some]
    apply h.call hp hnew (hasks.trans ho) hdoes
    rcases hp' with rfl | rfl
    · exact .inl hq
    · exact .inr ⟨(hR.gaveUp p).2.1, p, rfl⟩

theorem Reading.Atomic.explains_step (hR : R.Atomic P G L) (h : R.Explains w₀ w hist)
    (hI : Holds G (fun s _ o => ∀ p, o = some p → L s p) w) (he : P.next w e = some w') :
    R.Explains w₀ w' (hist ++ (R.entry w e).toList) := by
  cases e with
  | spawn a =>
    cases he
    rw [Reading.entry, Option.toList_none, List.append_nil]
    exact h.started (hR.start w.shared a)
  | ambient x =>
    cases he
    rw [Reading.entry, Option.toList_some]
    exact h.changed (Prod.ext (hR.ambient w.shared x) rfl)
  | act i x =>
    obtain ⟨p, s, p', hp, hs, rfl⟩ := Program.next_act he
    rw [hR.step] at hs
    obtain ⟨⟨s', q⟩, hst, hx⟩ := Option.map_eq_some_iff.1 hs
    cases x with
    | fail =>
      cases hx
      rw [Reading.entry, Option.toList_none, List.append_nil]
      exact h.silent hp (hR.not_called h hp hst) rfl (hR.gaveUp p).2.1
    | proceed =>
      cases hx
      exact hR.explains_statement h hI hp hst (.inl rfl)
    | lost =>
      cases hx
      exact hR.explains_statement h hI hp hst (.inr rfl)

theorem Reading.history_cons (he : P.next w e = some w') (es : List (Event α χ Outcome)) :
    R.history P w (e :: es) = (R.entry w e).toList ++ R.history P w' es := by
  rw [Reading.history, he]

/-- The history of a run explains where it has come. -/
theorem Reading.Atomic.explains_run (hR : R.Atomic P G L) (h : R.Explains w₀ w hist)
    (hI : Holds G (fun s _ o => ∀ p, o = some p → L s p) w) (I : σ → Prop)
    (hr : (P.machine I).run w es = some w') : R.Explains w₀ w' (hist ++ R.history P w es) := by
  induction es generalizing w hist with
  | nil =>
    cases hr
    rw [Reading.history, List.append_nil]
    exact h
  | cons e es ih =>
    obtain ⟨u, hu, hr⟩ := Machine.run_cons_some hr
    rw [R.history_cons hu, ← List.append_assoc]
    exact ih (hR.explains_step h hI hu) (hR.stable.invariant I w e u hI hu trivial) hr

theorem Reading.history_append (I : σ → Prop) (hr : (P.machine I).run w es = some w')
    (es' : List (Event α χ Outcome)) :
    R.history P w (es ++ es') = R.history P w es ++ R.history P w' es' := by
  induction es generalizing w with
  | nil =>
    cases hr
    rfl
  | cons e es ih =>
    obtain ⟨u, hu, hr⟩ := Machine.run_cons_some hr
    rw [List.cons_append, R.history_cons hu, R.history_cons hu, ih hr, List.append_assoc]

/-- From a start without threads the history explains every state that the run comes through, and
it only grows on the way: what has been told before a thread is started stands before its
operation. -/
theorem Reading.Atomic.linearizable (hR : R.Atomic P G L) (hG : ∀ s, I s → G s)
    (h₀ : (P.machine I).init w₀) (hr : (P.machine I).run w₀ es = some w) :
    R.Explains w₀ w (R.history P w₀ es) ∧
      ∀ es', R.history P w₀ es <+: R.history P w₀ (es ++ es') := by
  have hnone : ∀ i : Nat, w₀.threads[i]? = none := by
    intro i
    rw [h₀.2, List.getElem?_nil]
  have hstart : R.Explains w₀ w₀ [] := by
    refine ⟨rfl, ?_, nofun, List.nodup_nil⟩
    intro i p r hp
    rw [hnone i] at hp
    cases hp
  have hI : Holds G (fun s _ o => ∀ p, o = some p → L s p) w₀ := by
    refine ⟨hG _ h₀.1, ?_⟩
    intro i p hp
    rw [hnone i] at hp
    cases hp
  exact ⟨hR.explains_run hstart hI I hr, fun es' => ⟨_, (R.history_append I hr es').symm⟩⟩

end

end Linearization
