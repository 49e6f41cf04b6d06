import Mathlib.Data.List.Infix

namespace LikePattern
set_option autoImplicit true

/-- The characters of a pattern that do not stand for themselves. -/
def special (c : Char) : Bool := c = '%' || c = '_' || c = '\\'

/-- SQL's `LIKE` for a pattern: `%` is any text, `_` any character, and a backslash takes the next
character as it is. -/
def like : List Char → List Char → Bool
  | [], t => t.isEmpty
  | '%' :: p, t => t.tails.any fun u => like p u
  | '_' :: p, t =>
    match t with
    | [] => false
    | _ :: u => like p u
  | '\\' :: c :: p, t =>
    match t with
    | [] => false
    | d :: u => c = d && like p u
  | c :: p, t =>
    match t with
    | [] => false
    | d :: u => c = d && like p u

/-- A change of the case of letters that leaves the special characters alone. -/
structure CaseFold where
  fold : Char → Char
  fixes : ∀ c, special c = true → fold c = c
  special_fold : ∀ c, special (fold c) = special c

/-- `ILIKE`, which looks at both texts up to the case of letters. -/
def CaseFold.ilike (m : CaseFold) (pattern text : String) : Bool :=
  like (pattern.toList.map m.fold) (text.toList.map m.fold)

theorem like_percent (p t : List Char) :
    like ('%' :: p) t = true ↔ ∃ u, u <:+ t ∧ like p u = true := by
  rw [like, List.any_eq_true]
  simp only [List.mem_tails]

theorem like_literal (hc : special c = false) (p t : List Char) :
    like (c :: p) t = true ↔ ∃ u, t = c :: u ∧ like p u = true := by
  simp only [special, Bool.or_eq_false_iff, decide_eq_false_iff_not] at hc
  obtain ⟨⟨hpercent, hunderscore⟩, hbackslash⟩ := hc
  have hlike : like (c :: p) t = match t with
      | [] => false
      | d :: u => c = d && like p u := by
    rw [like.eq_def]
    split
    next h => exact absurd h (List.cons_ne_nil _ _)
    next h => exact absurd (List.head_eq_of_cons_eq h) hpercent
    next h => exact absurd (List.head_eq_of_cons_eq h) hunderscore
    next h => exact absurd (List.head_eq_of_cons_eq h) hbackslash
    next h =>
      cases h
      rfl
  rw [hlike]
  cases t with
  | nil => simp
  | cons d u =>
    dsimp only
    rw [Bool.and_eq_true, decide_eq_true_eq]
    constructor
    · rintro ⟨rfl, hu⟩
      exact ⟨u, rfl, hu⟩
    · rintro ⟨_, hcons, hu⟩
      cases hcons
      exact ⟨rfl, hu⟩

/-- A text of ordinary characters at the front of a pattern has to be at the front. -/
theorem like_append (hs : ∀ c ∈ s, special c = false) (p t : List Char) :
    like (s ++ p) t = true ↔ ∃ u, t = s ++ u ∧ like p u = true := by
  induction s generalizing t with
  | nil => simp
  | cons c s ih =>
    rw [List.forall_mem_cons] at hs
    rw [List.cons_append, like_literal hs.1]
    constructor
    · rintro ⟨u, rfl, hu⟩
      obtain ⟨v, rfl, hv⟩ := (ih hs.2 u).1 hu
      exact ⟨v, rfl, hv⟩
    · rintro ⟨v, rfl, hv⟩
      exact ⟨s ++ v, rfl, (ih hs.2 _).2 ⟨v, rfl, hv⟩⟩

/-- Between two percent signs a text of ordinary characters is one to search for. -/
theorem like_contains (hs : ∀ c ∈ s, special c = false) (t : List Char) :
    like ('%' :: (s ++ ['%'])) t = true ↔ s <:+: t := by
  rw [like_percent]
  have hall : ∀ u, like ['%'] u = true := by
    intro u
    exact (like_percent [] u).2 ⟨[], List.nil_suffix, rfl⟩
  constructor
  · rintro ⟨u, ⟨front, rfl⟩, hu⟩
    obtain ⟨rest, rfl, -⟩ := (like_append hs _ _).1 hu
    exact ⟨front, rest, List.append_assoc ..⟩
  · rintro ⟨front, rest, rfl⟩
    refine ⟨s ++ rest, ⟨front, (List.append_assoc ..).symm⟩, ?_⟩
    exact (like_append hs _ _).2 ⟨rest, rfl, hall rest⟩

theorem CaseFold.ilike_contains (m : CaseFold) {search : String}
    (hs : ∀ c ∈ search.toList, special c = false) (text : String) :
    m.ilike ("%" ++ search ++ "%") text = true ↔
      search.toList.map m.fold <:+: text.toList.map m.fold := by
  have hpercent : m.fold '%' = '%' := m.fixes '%' (by decide)
  have hfold : ∀ c ∈ search.toList.map m.fold, special c = false := by
    intro c hc
    obtain ⟨d, hd, rfl⟩ := List.mem_map.1 hc
    rw [m.special_fold]
    exact hs d hd
  have hpattern : ("%" ++ search ++ "%").toList.map m.fold =
      '%' :: (search.toList.map m.fold ++ ['%']) := by
    simp only [String.toList_append, List.map_append]
    change m.fold '%' :: _ = _
    rw [hpercent]
    change _ :: (_ ++ [m.fold '%']) = _
    rw [hpercent]
    rfl
  rw [CaseFold.ilike, hpattern, like_contains hfold]

end LikePattern
