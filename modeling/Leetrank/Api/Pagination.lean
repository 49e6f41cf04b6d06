import Leetrank.Library.MachineInt
import Leetrank.Library.Paging

namespace Leetrank.Pagination
set_option autoImplicit true

open MachineInt

def digits (cs : List Char) : Option Nat :=
  if cs ≠ [] ∧ cs.all Char.isDigit then some (cs.foldl (fun n c => 10 * n + (c.toNat - 48)) 0)
  else none

/-- `strconv.Atoi`: a sign or none and digits, within the range of a machine integer. -/
def atoi (s : String) : Option Int64 :=
  let value : Option Int :=
    match s.toList with
    | '-' :: cs => (digits cs).map fun n => -Int.ofNat n
    | '+' :: cs => (digits cs).map Int.ofNat
    | cs => (digits cs).map Int.ofNat
  value.bind fun v =>
    if -9223372036854775808 ≤ v ∧ v < 9223372036854775808 then some (Int64.ofInt v) else none

def parseIntOr (s : String) (fallback : Int64) : Int64 :=
  match atoi s with
  | some v => if v > 0 then v else fallback
  | none => fallback

def clamp (v min max : Int64) : Int64 := if v < min then min else if v > max then max else v

/-- The endpoints that list rows by pages. -/
inductive ListEndpoint where
  | submissions
  | problems

def ListEndpoint.defaultLimit : ListEndpoint → Int64
  | .submissions => 20
  | .problems => 50

def ListEndpoint.maxLimit : ListEndpoint → Int64
  | .submissions => 100
  | .problems => 50

/-- The parameters of a query, empty where they are not given. -/
structure PageQuery where
  page : String
  limit : String

def PageQuery.pageNumber (q : PageQuery) : Int64 := parseIntOr q.page 1

def ListEndpoint.limit (e : ListEndpoint) (q : PageQuery) : Int64 :=
  clamp (parseIntOr q.limit e.defaultLimit) 1 e.maxLimit

def ListEndpoint.offset (e : ListEndpoint) (q : PageQuery) : Int64 :=
  (q.pageNumber - 1) * e.limit q

/-- `LIMIT` and `OFFSET` of a query, which the database refuses if they are negative. -/
def selectRows (rows : List α) (limit offset : Int64) : Option (List α) :=
  if limit < 0 ∨ offset < 0 then none
  else some ((rows.drop offset.toInt.toNat).take limit.toInt.toNat)

inductive ListReply (α : Type u) where
  | page (rows : List α) (total : Nat) (page limit : Int64)
  | error (status : Nat) (text : String)

/-- The reply for the rows that the filters leave, in their order. -/
def ListEndpoint.list (e : ListEndpoint) (q : PageQuery) (rows : List α) : ListReply α :=
  match selectRows rows (e.limit q) (e.offset q) with
  | none => .error 500 "Internal server error"
  | some selected => .page selected rows.length q.pageNumber (e.limit q)

variable {e : ListEndpoint} {q : PageQuery} {s : String} {a b v fallback : Int64}

theorem parseIntOr_pos (s : String) (h : 0 < fallback) : 0 < parseIntOr s fallback := by
  unfold parseIntOr
  split
  next =>
    split
    next hv => exact hv
    next => exact h
  next => exact h

theorem clamp_mem (v : Int64) (h : a ≤ b) : a ≤ clamp v a b ∧ clamp v a b ≤ b := by
  simp only [clamp, Int64.le_iff_toInt_le, Int64.lt_iff_toInt_lt, gt_iff_lt] at h ⊢
  split
  next => omega
  next =>
    split
    next => omega
    next => omega

theorem pageNumber_pos (q : PageQuery) : 1 ≤ q.pageNumber.toInt :=
  Int64.lt_iff_toInt_lt.1 (parseIntOr_pos q.page (by decide : (0 : Int64) < 1))

theorem limit_bounds (e : ListEndpoint) (q : PageQuery) :
    1 ≤ (e.limit q).toInt ∧ (e.limit q).toInt ≤ 100 := by
  have hmax : 1 ≤ e.maxLimit ∧ e.maxLimit.toInt ≤ 100 := by
    cases e with
    | submissions | problems => decide
  obtain ⟨hlow, hhigh⟩ := clamp_mem (parseIntOr q.limit e.defaultLimit) hmax.1
  exact ⟨Int64.le_iff_toInt_le.1 hlow, (Int64.le_iff_toInt_le.1 hhigh).trans hmax.2⟩

theorem offset_product_nonneg (e : ListEndpoint) (q : PageQuery) :
    0 ≤ (q.pageNumber.toInt - 1) * (e.limit q).toInt := by
  have hpage := pageNumber_pos q
  have hlimit := limit_bounds e q
  exact Int.mul_nonneg (by omega) (by omega)

/-- The offset is exact as long as the product is in range. -/
theorem offset_exact_iff (e : ListEndpoint) (q : PageQuery) :
    (e.offset q).toInt = (q.pageNumber.toInt - 1) * (e.limit q).toInt ↔
      (q.pageNumber.toInt - 1) * (e.limit q).toInt < 9223372036854775808 := by
  have hpage := pageNumber_pos q
  have hlt := q.pageNumber.toInt_lt
  have hnonneg := offset_product_nonneg e q
  have hone : (1 : Int64).toInt = 1 := rfl
  have hprev : (q.pageNumber - 1).toInt = q.pageNumber.toInt - 1 :=
    toInt_sub_of_fits (by rw [hone, Fits]; omega)
  rw [ListEndpoint.offset, ← hprev, toInt_mul_eq_iff, hprev, Fits]
  omega

theorem selectRows_of_nonneg {limit offset : Int64} (hlimit : 0 ≤ limit.toInt)
    (hoffset : 0 ≤ offset.toInt) (rows : List α) :
    selectRows rows limit offset =
      some ((rows.drop offset.toInt.toNat).take limit.toInt.toNat) := by
  have hzero : (0 : Int64).toInt = 0 := rfl
  refine if_neg ?_
  rw [Int64.lt_iff_toInt_lt, Int64.lt_iff_toInt_lt]
  omega

/-- An exact offset starts the page after the pages before it. -/
theorem list_of_exact (h : (e.offset q).toInt = (q.pageNumber.toInt - 1) * (e.limit q).toInt)
    (rows : List α) : e.list q rows =
      .page (Paging.page (e.limit q).toInt.toNat rows (q.pageNumber.toInt - 1).toNat) rows.length
        q.pageNumber (e.limit q) := by
  have hpage := pageNumber_pos q
  have hlimit : 0 < (e.limit q).toInt := (limit_bounds e q).1
  have hstart : (e.offset q).toInt.toNat =
      (q.pageNumber.toInt - 1).toNat * (e.limit q).toInt.toNat := by
    rw [h, Int.toNat_mul (by omega) (by omega)]
  have hnonneg : 0 ≤ (e.offset q).toInt := h ▸ offset_product_nonneg e q
  have hselect := selectRows_of_nonneg (Int.le_of_lt hlimit) hnonneg rows
  rw [hstart, ← Paging.page] at hselect
  unfold ListEndpoint.list
  rw [hselect]

/-- For every query the offset is what the page asks for, and the rows are those of the page,
exactly if the product of the limit and the number of pages before is in range. -/
theorem offset_safe_iff (e : ListEndpoint) (q : PageQuery) :
    (0 ≤ (e.offset q).toInt ∧
      (e.offset q).toInt = (q.pageNumber.toInt - 1) * (e.limit q).toInt ∧
      ∀ (α : Type) (rows : List α), e.list q rows =
        .page (Paging.page (e.limit q).toInt.toNat rows (q.pageNumber.toInt - 1).toNat) rows.length
          q.pageNumber (e.limit q)) ↔
    (q.pageNumber.toInt - 1) * (e.limit q).toInt < 9223372036854775808 := by
  rw [← offset_exact_iff]
  constructor
  · rintro ⟨_, hexact, _⟩
    exact hexact
  · intro hexact
    refine ⟨?_, hexact, fun α rows => list_of_exact hexact rows⟩
    rw [hexact]
    exact offset_product_nonneg e q

/-- The greatest page that is accepted. -/
def lastPage : PageQuery := ⟨"9223372036854775807", "100"⟩

/-- Its offset wraps around below zero, which the database refuses. -/
theorem offset_wraps :
    ListEndpoint.submissions.offset lastPage = -200 ∧
    ListEndpoint.submissions.list lastPage ["s1", "s2"] = .error 500 "Internal server error" ∧
    ListEndpoint.problems.offset lastPage = -100 ∧
    ListEndpoint.problems.list lastPage ["p1", "p2"] = .error 500 "Internal server error" := by
  refine ⟨by decide, rfl, by decide, rfl⟩

end Leetrank.Pagination
