import Mathlib.Data.List.Sort
import Leetrank.Strings

namespace Leetrank
set_option autoImplicit true

structure Tag where
  id : String
  name : String
  slug : String
  category : String

/-- A problem of the catalogue with what the list shows of its tags and submissions. -/
structure ProblemRow where
  id : String
  title : String
  slug : String
  difficulty : String
  order : Int
  tags : List Tag
  submissionCount : Nat

/-- The catalogue, and how the database matches a title with `contains` in mode `insensitive`. -/
structure Catalogue where
  problems : List ProblemRow
  containsInsensitive : String → String → Bool

structure ListedTag where
  id : String
  name : String
  slug : String

structure ListedProblem where
  id : String
  title : String
  slug : String
  difficulty : String
  tags : List ListedTag
  submissionCount : Nat

structure ListResult where
  problems : List ListedProblem
  total : Nat
  page : Nat
  limit : Nat

/-- The query parameters of the list, `none` for one that is absent. -/
structure ListRequest where
  difficulty : Option String
  tag : Option String
  topic : Option String
  company : Option String
  search : Option String
  page : Option String
  limit : Option String

variable {db : Catalogue} {r r' : ListRequest}

/-- A parameter read as a number of at least one; what is not a number, or 0, is the default. -/
def countParam (param : Option String) (fallback : Nat) : Nat :=
  match parseInt (param.getD (toString fallback)) with
  | some n => if n = 0 then fallback else (max 1 n).toNat
  | none => fallback

def ListRequest.pageNumber (r : ListRequest) : Nat := countParam r.page 1

def ListRequest.pageSize (r : ListRequest) : Nat := min 50 (countParam r.limit 50)

def ListRequest.cacheable (r : ListRequest) : Bool := (truthy r.search).isNone

def ListRequest.cacheKey (r : ListRequest) : String :=
  let difficulty := r.difficulty.getD ""
  let tag := r.tag.getD ""
  let topic := r.topic.getD ""
  let company := r.company.getD ""
  s!"problems:list:{difficulty}:{tag}:{topic}:" ++ s!"{company}:{r.pageNumber}:{r.pageSize}"

/-- What a problem must have a tag for, one clause for each parameter given. -/
def ListRequest.tagClauses (r : ListRequest) : List (Tag → Bool) :=
  (truthy r.tag).toList.map (fun slug tag => tag.slug == slug) ++
    (truthy r.topic).toList.map (fun slug tag => tag.slug == slug && tag.category == "topic") ++
    (truthy r.company).toList.map fun slug tag => tag.slug == slug && tag.category == "company"

/-- The `where` of the two queries. -/
def ListRequest.selects (r : ListRequest) (db : Catalogue) (p : ProblemRow) : Bool :=
  (truthy r.difficulty).all (p.difficulty == ·) &&
    (truthy r.search).all (db.containsInsensitive p.title ·) &&
    r.tagClauses.all fun clause => p.tags.any clause

def ProblemRow.listed (p : ProblemRow) : ListedProblem where
  id := p.id
  title := p.title
  slug := p.slug
  difficulty := p.difficulty
  tags := p.tags.map fun tag => ⟨tag.id, tag.name, tag.slug⟩
  submissionCount := p.submissionCount

/-- The list without the cache. -/
def ListRequest.compute (r : ListRequest) (db : Catalogue) : ListResult where
  problems :=
    (((db.problems.filter (r.selects db)).insertionSort (·.order ≤ ·.order)).drop
      ((r.pageNumber - 1) * r.pageSize)).take r.pageSize |>.map ProblemRow.listed
  total := (db.problems.filter (r.selects db)).length
  page := r.pageNumber
  limit := r.pageSize

/-- The limit of the trending route, which has its own default and bound. -/
def trendingLimit (limit : Option String) : Nat := min 30 (countParam limit 10)

def trendingKey (limit : Option String) : String := s!"trending:{trendingLimit limit}"

theorem countParam_pos (param : Option String) (h : 0 < fallback) :
    0 < countParam param fallback := by
  rw [countParam]
  split
  · split
    · exact h
    · omega
  · exact h

theorem trendingLimit_bounds (limit : Option String) :
    0 < trendingLimit limit ∧ trendingLimit limit ≤ 30 :=
  ⟨lt_min (by decide) (countParam_pos limit (by decide)), min_le_left _ _⟩

/-- The texts of the four filters as the key has them, `null` being the empty text. -/
def ListRequest.filters (r : ListRequest) : List String :=
  [r.difficulty.getD "", r.tag.getD "", r.topic.getD "", r.company.getD ""]

/-- A filter contains the separator of the key. -/
def ListRequest.HasColon (r : ListRequest) : Prop := ∃ s ∈ r.filters, ':' ∈ s.toList

instance (r : ListRequest) : Decidable r.HasColon :=
  inferInstanceAs (Decidable (∃ s ∈ r.filters, ':' ∈ s.toList))

/-- The filters of the key as one text. -/
def ListRequest.filterText (r : ListRequest) : List Char :=
  (r.difficulty.getD "").toList ++ ':' :: ((r.tag.getD "").toList ++
    ':' :: ((r.topic.getD "").toList ++ ':' :: (r.company.getD "").toList))

theorem ListRequest.cacheKey_toList (r : ListRequest) :
    r.cacheKey.toList = "problems:list:".toList ++ (r.filterText ++
      ':' :: (toString r.pageNumber).toList ++ ':' :: (toString r.pageSize).toList) := by
  have hsep : ":".toList = [':'] := rfl
  unfold ListRequest.cacheKey
  simp only [String.toList_append, hsep, toString]
  simp only [ListRequest.filterText, List.append_assoc, List.cons_append, List.nil_append]

theorem ListRequest.count_filterText (r : ListRequest) :
    r.filterText.count ':' = (r.difficulty.getD "").toList.count ':' +
      ((r.tag.getD "").toList.count ':' + ((r.topic.getD "").toList.count ':' +
        (r.company.getD "").toList.count ':')) + 3 := by
  simp only [ListRequest.filterText, List.count_append, List.count_cons_self]
  omega

theorem ListRequest.hasColon_iff (r : ListRequest) : r.HasColon ↔ 3 < r.filterText.count ':' := by
  rw [r.count_filterText, Nat.lt_add_left_iff_pos]
  simp only [ListRequest.HasColon, ListRequest.filters, List.mem_cons, List.not_mem_nil, or_false,
    exists_eq_or_imp, exists_eq_left, Nat.add_pos_iff_pos_or_pos, List.count_pos_iff]

theorem colon_notMem_toString (n : Nat) : ':' ∉ (toString n).toList :=
  fun h => absurd (isDigit_of_mem_toString h) (by decide)

/-- The key determines the page, its size and the text of the filters. -/
theorem ListRequest.cacheKey_inj (h : r.cacheKey = r'.cacheKey) :
    r.filterText = r'.filterText ∧ r.pageNumber = r'.pageNumber ∧ r.pageSize = r'.pageSize := by
  have hl := congrArg String.toList h
  rw [r.cacheKey_toList, r'.cacheKey_toList, List.append_cancel_left_eq] at hl
  obtain ⟨hl, hlimit⟩ := Text.cut_last (colon_notMem_toString _) (colon_notMem_toString _) hl
  obtain ⟨hl, hpage⟩ := Text.cut_last (colon_notMem_toString _) (colon_notMem_toString _) hl
  exact ⟨hl, toString_inj hpage, toString_inj hlimit⟩

theorem ListRequest.hasColon_congr (h : r.filterText = r'.filterText) :
    r.HasColon ↔ r'.HasColon := by
  rw [r.hasColon_iff, r'.hasColon_iff, h]

/-- Filters without the separator can be read off their text. -/
theorem ListRequest.filters_inj (h : r.filterText = r'.filterText) (hr : ¬r.HasColon) :
    r.filters = r'.filters := by
  have hr' := mt (hasColon_congr h).2 hr
  simp only [ListRequest.HasColon, ListRequest.filters, List.mem_cons, List.not_mem_nil, or_false,
    exists_eq_or_imp, exists_eq_left, not_or] at hr hr'
  obtain ⟨hd, h⟩ := Text.cut_first hr.1 hr'.1 h
  obtain ⟨ht, h⟩ := Text.cut_first hr.2.1 hr'.2.1 h
  obtain ⟨ho, hc⟩ := Text.cut_first hr.2.2.1 hr'.2.2.1 h
  rw [ListRequest.filters, ListRequest.filters, String.toList_inj.1 hd, String.toList_inj.1 ht,
    String.toList_inj.1 ho, String.toList_inj.1 hc]

/-- The problems selected depend on the search and on the four filters only. -/
theorem ListRequest.selects_congr (hf : r.filters = r'.filters)
    (hs : truthy r.search = truthy r'.search) : r.selects db = r'.selects db := by
  simp only [ListRequest.filters, List.cons.injEq, and_true] at hf
  obtain ⟨hd, ht, ho, hc⟩ := hf
  funext p
  rw [ListRequest.selects, ListRequest.selects, ListRequest.tagClauses, ListRequest.tagClauses,
    truthy_congr hd, truthy_congr ht, truthy_congr ho, truthy_congr hc, hs]

theorem ListRequest.compute_congr (h : db.problems.filter (r.selects db) =
    db.problems.filter (r'.selects db)) (hp : r.pageNumber = r'.pageNumber)
    (hl : r.pageSize = r'.pageSize) : r.compute db = r'.compute db := by
  rw [ListRequest.compute, ListRequest.compute, h, hp, hl]

/-- Requests that share a key have the same filters, or select no problem both. -/
def ListRequest.Distinguished (r r' : ListRequest) (db : Catalogue) : Prop :=
  r.cacheKey = r'.cacheKey → r.filters = r'.filters ∨
    ∀ p ∈ db.problems, r.selects db p = false ∧ r'.selects db p = false

theorem ListRequest.compute_eq (hr : r.cacheable) (hr' : r'.cacheable)
    (hd : r.Distinguished r' db) (h : r.cacheKey = r'.cacheKey) : r.compute db = r'.compute db := by
  obtain ⟨-, hp, hl⟩ := ListRequest.cacheKey_inj h
  refine ListRequest.compute_congr ?_ hp hl
  rcases hd h with hf | hnone
  · have hs : truthy r.search = truthy r'.search := by
      rw [Option.isNone_iff_eq_none.1 hr, Option.isNone_iff_eq_none.1 hr']
    rw [ListRequest.selects_congr hf hs]
  · rw [List.filter_eq_nil_iff.2 fun p hp => by simp [(hnone p hp).1],
      List.filter_eq_nil_iff.2 fun p hp => by simp [(hnone p hp).2]]

/-- A request with the separator in a filter selects no problem. -/
def ListRequest.ColonSelectsNothing (r : ListRequest) (db : Catalogue) : Prop :=
  r.HasColon → ∀ p ∈ db.problems, r.selects db p = false

/-- Only the separator in a filter can make the keys of different filters the same. -/
theorem ListRequest.ColonSelectsNothing.distinguished (hc : r.ColonSelectsNothing db)
    (hc' : r'.ColonSelectsNothing db) : r.Distinguished r' db := by
  intro h
  obtain ⟨hf, -, -⟩ := ListRequest.cacheKey_inj h
  by_cases hcolon : r.HasColon
  · have hcolon' := (ListRequest.hasColon_congr hf).1 hcolon
    exact .inr fun p hp => ⟨hc hcolon p hp, hc' hcolon' p hp⟩
  · exact .inl (ListRequest.filters_inj hf hcolon)

end Leetrank
