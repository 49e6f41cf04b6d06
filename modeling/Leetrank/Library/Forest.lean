import Mathlib.Data.List.Count
import Mathlib.Data.List.Nodup
import Mathlib.Logic.Relation

namespace Forest
set_option autoImplicit true

open Relation

inductive Rose (α : Type u) where
  | node (label : α) (children : List (Rose α))

def Rose.label : Rose α → α
  | .node a _ => a

mutual

/-- The labels of a tree, each before those under it. -/
def Rose.flatten : Rose α → List α
  | .node a ts => a :: flattenAll ts

def flattenAll : List (Rose α) → List α
  | [] => []
  | t :: ts => t.flatten ++ flattenAll ts

end

/-- Under every label of the tree stand its children and no others, in their order. -/
inductive Rose.Follows (children : α → List α) : Rose α → Prop where
  | node (hlabels : ts.map Rose.label = children a) (hts : ∀ t ∈ ts, Follows children t) :
      Follows children (.node a ts)

/-- The tree below a reference, where `step` gives what a reference stands for and the references
under it, down to a depth. -/
def unfold (step : α → Option (β × List α)) : Nat → α → Option (Rose β)
  | 0, _ => none
  | depth + 1, a => do
    let (b, as) ← step a
    let ts ← as.mapM (unfold step depth)
    return .node b ts

/-- Each row is a child of one other row at most, and of none that stands below it. -/
structure IsForest (rows : List α) (children : α → List α) : Prop where
  nodup : rows.Nodup
  sublist : ∀ a, (children a).Sublist rows
  mem_of_child : ∀ x a, x ∈ children a → a ∈ rows
  parent_unique : ∀ x a b, x ∈ children a → x ∈ children b → a = b
  acyclic : ∀ a, ¬TransGen (fun x a => x ∈ children a) a a

variable {α : Type u} {β : Type v} {τ : Type w} {rows l : List α} {children : α → List α}
  {ts : List (Rose α)} {t : Rose α} {a b x y : α} {r : α → α → Prop}

theorem flattenAll_eq (ts : List (Rose α)) : flattenAll ts = ts.flatMap Rose.flatten := by
  induction ts with
  | nil => rfl
  | cons t ts ih => rw [flattenAll, ih, List.flatMap_cons]

theorem Rose.Follows.mem_flatten (h : t.Follows children) :
    x ∈ t.flatten ↔ ReflTransGen (fun x a => x ∈ children a) x t.label := by
  induction h with
  | @node a ts hlabels hts ih =>
    rw [Rose.flatten, flattenAll_eq, List.mem_cons, List.mem_flatMap, Rose.label]
    constructor
    · rintro (rfl | ⟨t, ht, hx⟩)
      · exact .refl
      · have hchild : t.label ∈ children a := hlabels ▸ List.mem_map_of_mem ht
        exact ((ih t ht).1 hx).tail hchild
    · intro h
      cases h with
      | refl => exact .inl rfl
      | tail hx hchild =>
        rw [← hlabels] at hchild
        obtain ⟨t, ht, rfl⟩ := List.mem_map.1 hchild
        exact .inr ⟨t, ht, (ih t ht).2 hx⟩

/-- Trees do not overlap if no label of one stands below that of another. -/
theorem nodup_flattenAll (hf : IsForest rows children) (hts : ∀ t ∈ ts, t.Follows children)
    (hnodup : ∀ t ∈ ts, t.flatten.Nodup) (hlabels : (ts.map Rose.label).Nodup)
    (hapart : ∀ a ∈ ts.map Rose.label, ∀ b ∈ ts.map Rose.label,
      a ≠ b → ¬ReflTransGen (fun x a => x ∈ children a) a b) : (flattenAll ts).Nodup := by
  rw [flattenAll_eq, List.nodup_flatMap]
  refine ⟨hnodup, ?_⟩
  apply (List.pairwise_map.1 hlabels).imp_of_mem
  intro s t hs ht hne x hxs hxt
  rw [(hts s hs).mem_flatten] at hxs
  rw [(hts t ht).mem_flatten] at hxt
  have hunique : Relator.RightUnique fun x a => x ∈ children a := hf.parent_unique
  have hs' := List.mem_map_of_mem (f := Rose.label) hs
  have ht' := List.mem_map_of_mem (f := Rose.label) ht
  rcases ReflTransGen.total_of_right_unique hunique hxs hxt with hst | hts
  · exact hapart _ hs' _ ht' hne hst
  · exact hapart _ ht' _ hs' hne.symm hts

/-- Of two different children of one row neither stands below the other. -/
theorem IsForest.siblings_apart (hf : IsForest rows children) (ha : a ∈ children x)
    (hb : b ∈ children x) (hne : a ≠ b) : ¬ReflTransGen (fun x a => x ∈ children a) a b := by
  intro hab
  rcases hab.cases_head with rfl | ⟨p, hp, hpb⟩
  · exact hne rfl
  · obtain rfl := hf.parent_unique a x p ha hp
    exact hf.acyclic x (TransGen.tail' hpb hb)

theorem Rose.Follows.nodup_flatten (hf : IsForest rows children) (h : t.Follows children) :
    t.flatten.Nodup := by
  induction h with
  | @node a ts hlabels hts ih =>
    rw [Rose.flatten, List.nodup_cons]
    constructor
    · rw [flattenAll_eq, List.mem_flatMap]
      rintro ⟨t, ht, ha⟩
      have hchild : t.label ∈ children a := hlabels ▸ List.mem_map_of_mem ht
      exact hf.acyclic a (TransGen.tail' ((hts t ht).mem_flatten.1 ha) hchild)
    · apply nodup_flattenAll hf hts ih
      · exact hlabels ▸ hf.nodup.sublist (hf.sublist a)
      · intro b hb c hc
        rw [hlabels] at hb hc
        exact hf.siblings_apart hb hc

open Classical in
/-- How many elements of a list are reached in steps of a relation. -/
noncomputable def reached (r : α → α → Prop) (l : List α) (a : α) : Nat :=
  l.countP fun z => TransGen r a z

/-- Fewer elements are reached from where a step leads, if nothing leads back there. -/
theorem reached_lt (hy : y ∈ l) (hxy : r x y) (hacyclic : ¬TransGen r y y) :
    reached r l y < reached r l x := by
  classical
  have hsub : reached r l y =
      (l.filter fun z => TransGen r x z).countP fun z => TransGen r y z := by
    rw [reached, List.countP_filter]
    apply List.countP_congr
    intro z _
    rw [Bool.and_eq_true, decide_eq_true_eq, decide_eq_true_eq]
    exact ⟨fun hyz => ⟨hyz, .head hxy hyz⟩, And.left⟩
  rw [hsub, reached, List.countP_eq_length_filter (l := l), List.countP_lt_length_iff]
  exact ⟨y, List.mem_filter.2 ⟨hy, decide_eq_true (.single hxy)⟩, decide_eq_false hacyclic⟩

theorem reached_lt_length (hx : x ∈ l) (hacyclic : ¬TransGen r x x) :
    reached r l x < l.length := by
  classical
  rw [reached, List.countP_lt_length_iff]
  exact ⟨x, hx, decide_eq_false hacyclic⟩

/-- Every row stands below one that is a child of none. -/
theorem IsForest.exists_root (hf : IsForest rows children) (x : α) (hx : x ∈ rows) :
    ∃ a ∈ rows, (∀ b, a ∉ children b) ∧ ReflTransGen (fun x a => x ∈ children a) x a := by
  by_cases hroot : ∀ b, x ∉ children b
  · exact ⟨x, hx, hroot, .refl⟩
  · rw [not_forall] at hroot
    obtain ⟨p, hp⟩ := hroot
    rw [not_not] at hp
    have hmem := hf.mem_of_child x p hp
    have hlt := reached_lt (r := fun x a => x ∈ children a) hmem hp (hf.acyclic p)
    obtain ⟨a, ha, hnone, hpa⟩ := hf.exists_root p hmem
    exact ⟨a, ha, hnone, .head hp hpa⟩
termination_by reached (fun x a => x ∈ children a) rows x

/-- The trees below the rows that are a child of none hold every row once. -/
theorem IsForest.perm_flattenAll (hf : IsForest rows children)
    (hts : ∀ t ∈ ts, t.Follows children) (hnodup : (ts.map Rose.label).Nodup)
    (hroots : ∀ a, a ∈ ts.map Rose.label ↔ a ∈ rows ∧ ∀ b, a ∉ children b) :
    (flattenAll ts).Perm rows := by
  rw [List.perm_ext_iff_of_nodup ?_ hf.nodup]
  · intro x
    rw [flattenAll_eq, List.mem_flatMap]
    constructor
    · rintro ⟨t, ht, hx⟩
      rcases ((hts t ht).mem_flatten.1 hx).cases_head with rfl | ⟨p, hp, -⟩
      · exact ((hroots _).1 (List.mem_map_of_mem ht)).1
      · exact (hf.sublist p).subset hp
    · intro hx
      obtain ⟨a, ha, hnone, hxa⟩ := hf.exists_root x hx
      obtain ⟨t, ht, rfl⟩ := List.mem_map.1 ((hroots a).2 ⟨ha, hnone⟩)
      exact ⟨t, ht, (hts t ht).mem_flatten.2 hxa⟩
  · apply nodup_flattenAll hf hts (fun t ht => (hts t ht).nodup_flatten hf) hnodup
    intro a ha b _ hne hab
    rcases hab.cases_head with rfl | ⟨p, hp, -⟩
    · exact hne rfl
    · exact ((hroots a).1 ha).2 p hp

theorem exists_mapM {f : α → Option τ} {name : β → α} {label : τ → β} {p : τ → Prop} {l : List β}
    (h : ∀ b ∈ l, ∃ t, f (name b) = some t ∧ label t = b ∧ p t) :
    ∃ ts, (l.map name).mapM f = some ts ∧ ts.map label = l ∧ ∀ t ∈ ts, p t := by
  induction l with
  | nil => exact ⟨[], rfl, rfl, fun _ ht => (List.not_mem_nil ht).elim⟩
  | cons b l ih =>
    rw [List.forall_mem_cons] at h
    obtain ⟨t, ht, rfl, hp⟩ := h.1
    obtain ⟨ts, hts, rfl, hps⟩ := ih h.2
    refine ⟨t :: ts, ?_, rfl, List.forall_mem_cons.2 ⟨hp, hps⟩⟩
    rw [List.map_cons, List.mapM_cons, ht, hts]
    rfl

/-- References that lead to one another as the rows do unfold to the tree below a row. -/
theorem IsForest.exists_unfold {step : γ → Option (α × List γ)} {ref : α → γ} {depth : Nat}
    (hf : IsForest rows children)
    (hstep : ∀ a ∈ rows, step (ref a) = some (a, (children a).map ref)) (a : α) (ha : a ∈ rows)
    (hdepth : reached (fun a x => x ∈ children a) rows a < depth) :
    ∃ t, unfold step depth (ref a) = some t ∧ t.label = a ∧ t.Follows children := by
  induction depth generalizing a with
  | zero => exact absurd hdepth (Nat.not_lt_zero _)
  | succ depth ih =>
    have hall : ∀ b ∈ children a,
        ∃ t, unfold step depth (ref b) = some t ∧ t.label = b ∧ t.Follows children := by
      intro b hb
      have hmem := (hf.sublist a).subset hb
      have hacyclic : ¬TransGen (fun a x => x ∈ children a) b b :=
        fun hcycle => hf.acyclic b (transGen_swap.1 hcycle)
      have hlt := reached_lt (r := fun a x => x ∈ children a) hmem hb hacyclic
      exact ih b hmem (by omega)
    obtain ⟨ts, hts, hlabels, hfollows⟩ := exists_mapM hall
    refine ⟨.node a ts, ?_, rfl, .node hlabels hfollows⟩
    rw [unfold, hstep a ha]
    dsimp only [Option.bind_eq_bind, Option.bind_some]
    rw [hts]
    rfl

/-- As deep as there are rows is deep enough. -/
theorem IsForest.exists_forest {step : γ → Option (α × List γ)} {ref : α → γ} {roots : List α}
    (hf : IsForest rows children)
    (hstep : ∀ a ∈ rows, step (ref a) = some (a, (children a).map ref)) (hroots : roots ⊆ rows) :
    ∃ ts, (roots.map ref).mapM (unfold step rows.length) = some ts ∧
      ts.map Rose.label = roots ∧ ∀ t ∈ ts, t.Follows children := by
  apply exists_mapM
  intro a ha
  apply hf.exists_unfold hstep a (hroots ha)
  exact reached_lt_length (hroots ha) fun hcycle => hf.acyclic a (transGen_swap.1 hcycle)

end Forest
