import Leetrank.Api.Pagination
import Leetrank.Library.LikePattern
import Leetrank.Library.Statements

namespace Leetrank.Problems
set_option autoImplicit true

open LikePattern Pagination Statements

structure TagRow where
  id : String
  name : String
  slug : String
  deriving DecidableEq

structure ProblemRow where
  id : String
  title : String
  slug : String
  difficulty : String
  order : Int

/-- The tables that the list reads: the problems in the order in which the database returns them,
the pairs of `ProblemTag`, and the problems of the submissions. -/
structure ProblemsDb where
  problems : List ProblemRow
  sorted : problems.Pairwise fun a b => a.order ≤ b.order
  tags : List TagRow
  problemTags : List (String × String)
  submissions : List String

/-- The parameters of the query, empty where they are not given. -/
structure ListQuery where
  difficulty : String
  tag : String
  search : String
  paging : PageQuery

/-- The conditions of the `WHERE` clause, with the numbers of their placeholders: `1=1`,
`p.difficulty = $n`, `p.title ILIKE $n`, and that the problem has a tag with `t.slug = $n`. -/
inductive Condition where
  | always
  | difficulty (n : Nat)
  | title (n : Nat)
  | tag (n : Nat)

def Condition.placeholders : Condition → Nat
  | .always => 0
  | .difficulty _ | .title _ | .tag _ => 1

inductive Arg where
  | text (v : String)
  | int (v : Int64)

/-- The conditions with their arguments, and `argIdx` as it is left. -/
def conditions (q : ListQuery) : Counted Condition Arg :=
  let s : Counted Condition Arg := ⟨⟨[.always], []⟩, 1⟩
  let s := if q.difficulty ≠ "" then s.bind (.text q.difficulty) .difficulty else s
  let s := if q.search ≠ "" then s.bind (.text ("%" ++ q.search ++ "%")) .title else s
  if q.tag ≠ "" then s.bind (.text q.tag) .tag else s

def ProblemsDb.hasTag (db : ProblemsDb) (p : ProblemRow) (slug : String) : Bool :=
  db.problemTags.any fun x => x.1 = p.id && db.tags.any fun t => t.id = x.2 && t.slug = slug

section
variable (m : CaseFold)

/-- What a condition asks of a problem; it is no condition if its argument is not a text. -/
def Condition.read (db : ProblemsDb) (args : List Arg) : Condition → Option (ProblemRow → Bool)
  | .always => some fun _ => true
  | .difficulty n =>
    match argument args n with
    | some (.text v) => some fun p => p.difficulty = v
    | _ => none
  | .title n =>
    match argument args n with
    | some (.text v) => some fun p => m.ilike v p.title
    | _ => none
  | .tag n =>
    match argument args n with
    | some (.text v) => some fun p => db.hasTag p v
    | _ => none

/-- The problems that satisfy the conditions; the driver refuses a query with `extra` placeholders
beside theirs unless there is an argument for each. -/
def ProblemsDb.select (db : ProblemsDb) (clauses : List Condition) (args : List Arg)
    (extra : Nat) : Option (List ProblemRow) :=
  if (clauses.map Condition.placeholders).sum + extra ≠ args.length then none
  else (clauses.mapM (Condition.read m db args)).map fun conds =>
    db.problems.filter fun p => conds.all fun cond => cond p

def ProblemsDb.countQuery (db : ProblemsDb) (s : Counted Condition Arg) : Option Nat :=
  (db.select m s.clauses s.args 0).map List.length

/-- The main query, whose limit and offset are read at `argIdx` and after it. -/
def ProblemsDb.listQuery (db : ProblemsDb) (s : Counted Condition Arg) (limit offset : Int64) :
    Option (List ProblemRow) :=
  let listArgs : List Arg := s.args ++ [.int limit, .int offset]
  match argument listArgs s.next, argument listArgs (s.next + 1) with
  | some (.int limit), some (.int offset) =>
    (db.select m s.clauses listArgs 2).bind fun rows => selectRows rows limit offset
  | _, _ => none

structure ProblemListItem where
  id : String
  title : String
  slug : String
  difficulty : String
  tags : List TagRow
  submissionCount : Nat

/-- The rows of the query for the tags of several problems. -/
def ProblemsDb.tagRows (db : ProblemsDb) (ids : List String) : List (String × TagRow) :=
  (db.problemTags.filter fun x => x.1 ∈ ids).flatMap fun x =>
    (db.tags.filter fun t => t.id = x.2).map fun t => (x.1, t)

/-- The map from the problems to their tags, which the rows are appended to one after the other. -/
def tagMap (rows : List (String × TagRow)) : String → Option (List TagRow) :=
  rows.foldl (fun tags x => Function.update tags x.1 (some ((tags x.1).getD [] ++ [x.2])))
    fun _ => none

def ProblemsDb.item (db : ProblemsDb) (p : ProblemRow) (tags : List TagRow) : ProblemListItem :=
  ⟨p.id, p.title, p.slug, p.difficulty, tags, db.submissions.countP fun id => id = p.id⟩

structure ListHeaders where
  cacheControl : String

inductive ProblemsReply where
  | page (headers : ListHeaders) (problems : List ProblemListItem) (total : Nat)
      (page limit : Int64)
  | error (status : Nat) (text : String)

/-- How far the query for the tags gets. That it has broken off after some rows is not looked at. -/
inductive TagsRead where
  | failed
  | upTo (n : Nat)
  | all

def TagsRead.tags (read : TagsRead) (rows : List (String × TagRow)) :
    String → Option (List TagRow) :=
  match read with
  | .failed => fun _ => none
  | .upTo n => tagMap (rows.take n)
  | .all => tagMap rows

def ProblemsDb.list (db : ProblemsDb) (q : ListQuery) (tagsRead : TagsRead) : ProblemsReply :=
  let page := q.paging.pageNumber
  let limit := ListEndpoint.problems.limit q.paging
  let s := conditions q
  match db.countQuery m s with
  | none => .error 500 "Internal server error"
  | some total =>
    match db.listQuery m s limit ((page - 1) * limit) with
    | none => .error 500 "Internal server error"
    | some rows =>
      let tags := tagsRead.tags (db.tagRows (rows.map fun p => p.id))
      let cacheControl :=
        if q.search ≠ "" then "no-store" else "public, max-age=60, stale-while-revalidate=300"
      .page ⟨cacheControl⟩ (rows.map fun p => db.item p ((tags p.id).getD [])) total page limit

/-- The filters of a query, as a property of a problem. -/
def ListQuery.selects (q : ListQuery) (db : ProblemsDb) (p : ProblemRow) : Bool :=
  (q.difficulty = "" || p.difficulty = q.difficulty) &&
    (q.search = "" || m.ilike ("%" ++ q.search ++ "%") p.title) &&
    (q.tag = "" || db.hasTag p q.tag)

end

/-- The tags of a problem. -/
def ProblemsDb.tagsOf (db : ProblemsDb) (id : String) : List TagRow :=
  (db.problemTags.filter fun x => x.1 = id).flatMap fun x => db.tags.filter fun t => t.id = x.2

section

variable {m : CaseFold} {db : ProblemsDb} {q : ListQuery}

/-- The conditions, each with the number that its argument has. -/
def numbered (q : ListQuery) : Statement Condition Arg :=
  let s : Statement Condition Arg := Statement.literal ⟨[], []⟩ .always
  let s := if q.difficulty ≠ "" then s.bind (.text q.difficulty) .difficulty else s
  let s := if q.search ≠ "" then s.bind (.text ("%" ++ q.search ++ "%")) .title else s
  if q.tag ≠ "" then s.bind (.text q.tag) .tag else s

/-- `argIdx` is always the number of the arguments and one. -/
theorem conditions_exact (q : ListQuery) :
    (conditions q).Exact ∧ (conditions q).toStatement = numbered q := by
  have hstart : (⟨⟨[.always], []⟩, 1⟩ : Counted Condition Arg).Exact ∧
      (⟨⟨[.always], []⟩, 1⟩ : Counted Condition Arg).toStatement =
        Statement.literal ⟨[], []⟩ .always := ⟨rfl, rfl⟩
  exact Counted.Exact.bindIf (Counted.Exact.bindIf (Counted.Exact.bindIf hstart _ _) _ _) _ _

theorem numbered_complete (q : ListQuery) : (numbered q).Complete Condition.placeholders := by
  have hstart : (⟨[], []⟩ : Statement Condition Arg).Complete Condition.placeholders := rfl
  unfold numbered
  refine .bindIf (.bindIf (.bindIf (hstart.literal rfl) _ _ ?_) _ _ ?_) _ _ ?_
  · exact fun _ => rfl
  · exact fun _ => rfl
  · exact fun _ => rfl

theorem Condition.read_difficulty (h : argument args n = some (.text v)) :
    Condition.read m db args (.difficulty n) = some fun p => decide (p.difficulty = v) := by
  rw [Condition.read.eq_def]
  dsimp only
  rw [h]

theorem Condition.read_title (h : argument args n = some (.text v)) :
    Condition.read m db args (.title n) = some fun p => m.ilike v p.title := by
  rw [Condition.read.eq_def]
  dsimp only
  rw [h]

theorem Condition.read_tag (h : argument args n = some (.text v)) :
    Condition.read m db args (.tag n) = some fun p => db.hasTag p v := by
  rw [Condition.read.eq_def]
  dsimp only
  rw [h]

/-- Whatever filters are given, each condition is read with the argument that belongs to it. -/
theorem numbered_means (m : CaseFold) (db : ProblemsDb) (q : ListQuery) :
    ∃ conds, (numbered q).Means (Condition.read m db) conds ∧
      ∀ p, (conds.all fun cond => cond p) = q.selects m db p := by
  have hstart : Statement.Means (Condition.read m db) (Statement.literal ⟨[], []⟩ .always)
      [fun _ => true] := (Statement.Means.empty _).literal fun _ => rfl
  have hdifficulty := hstart.bindIf (b := q.difficulty ≠ "") Condition.difficulty
    fun _ _ h => Condition.read_difficulty (v := q.difficulty) h
  have hsearch := hdifficulty.bindIf (b := q.search ≠ "") Condition.title
    fun _ _ h => Condition.read_title (v := "%" ++ q.search ++ "%") h
  have htag := hsearch.bindIf (b := q.tag ≠ "") Condition.tag
    fun _ _ h => Condition.read_tag (v := q.tag) h
  refine ⟨_, htag, fun p => ?_⟩
  rw [ListQuery.selects]
  by_cases hd : q.difficulty = "" <;> by_cases hs : q.search = "" <;> by_cases ht : q.tag = "" <;>
    simp [hd, hs, ht, Bool.and_assoc]

theorem select_eq (m : CaseFold) (db : ProblemsDb) (q : ListQuery) (more : List Arg) :
    db.select m (numbered q).clauses ((numbered q).args ++ more) more.length =
      some (db.problems.filter (q.selects m db)) := by
  obtain ⟨conds, hmeans, hc⟩ := numbered_means m db q
  have hlen : ((numbered q).clauses.map Condition.placeholders).sum =
      (numbered q).args.length := numbered_complete q
  rw [ProblemsDb.select, if_neg (by rw [List.length_append, ← hlen]; omega), hmeans more]
  simp only [Option.map_some, hc]

theorem countQuery_eq (m : CaseFold) (db : ProblemsDb) (q : ListQuery) :
    db.countQuery m (conditions q) = some (db.problems.filter (q.selects m db)).length := by
  have hselect := select_eq m db q []
  rw [List.append_nil, List.length_nil, ← (conditions_exact q).2] at hselect
  rw [ProblemsDb.countQuery, hselect]
  rfl

theorem listQuery_eq (m : CaseFold) (db : ProblemsDb) (q : ListQuery) (limit offset : Int64) :
    db.listQuery m (conditions q) limit offset =
      selectRows (db.problems.filter (q.selects m db)) limit offset := by
  obtain ⟨hexact, hnumbered⟩ := conditions_exact q
  have hselect := select_eq m db q [.int limit, .int offset]
  have hlimit := argument_bound (conditions q).args (.int limit) [.int offset]
  have hoffset := argument_bound ((conditions q).args ++ [.int limit]) (.int offset) []
  rw [List.append_assoc, List.length_append] at hoffset
  simp only [List.singleton_append, List.length_singleton] at hoffset
  rw [ProblemsDb.listQuery, hexact, hlimit, hoffset]
  dsimp only
  rw [List.length_cons, List.length_singleton, ← hnumbered] at hselect
  rw [hselect]
  rfl

theorem tagMap_eq (rows : List (String × TagRow)) (id : String) :
    (tagMap rows id).getD [] = (rows.filter fun x => x.1 = id).map Prod.snd := by
  unfold tagMap
  induction rows using List.reverseRecOn with
  | nil => rfl
  | append_singleton rows x ih =>
    rw [List.foldl_append, List.foldl_cons, List.foldl_nil, List.filter_append, List.map_append]
    by_cases hx : x.1 = id
    · subst hx
      rw [Function.update_self, ih]
      simp
    · rw [Function.update_of_ne (Ne.symm hx), ih]
      simp [hx]

/-- One query for the tags of several problems gives each of them its own. -/
theorem tagRows_of (db : ProblemsDb) {ids : List String} (h : pid ∈ ids) :
    ((db.tagRows ids).filter fun x => x.1 = pid).map Prod.snd = db.tagsOf pid := by
  unfold ProblemsDb.tagRows ProblemsDb.tagsOf
  induction db.problemTags with
  | nil => rfl
  | cons x xs ih =>
    by_cases hx : x.1 = pid
    · have hin : x.1 ∈ ids := hx ▸ h
      rw [List.filter_cons_of_pos (by simpa using hin), List.filter_cons_of_pos (by simpa using hx),
        List.flatMap_cons, List.flatMap_cons, List.filter_append, List.map_append, ih]
      congr 1
      simp [List.filter_map, List.map_map, Function.comp_def, hx]
    · rw [List.filter_cons_of_neg (p := fun x : String × String => decide (x.1 = pid))
        (by simpa using hx), ← ih]
      by_cases hin : x.1 ∈ ids
      · rw [List.filter_cons_of_pos (by simpa using hin), List.flatMap_cons, List.filter_append,
          List.map_append]
        simp [List.filter_map, Function.comp_def, hx]
      · rw [List.filter_cons_of_neg (by simpa using hin)]

/-- What is shown of the tags of the problems with the given ids. -/
def TagsRead.shown (read : TagsRead) (db : ProblemsDb) (ids : List String) (id : String) :
    List TagRow :=
  match read with
  | .failed => []
  | .upTo n =>
    if id ∈ ids then (((db.tagRows ids).take n).filter fun x => x.1 = id).map Prod.snd else []
  | .all => db.tagsOf id

theorem TagsRead.shown_prefix (read : TagsRead) (db : ProblemsDb) (ids : List String)
    (id : String) : read.shown db ids id <+: db.tagsOf id := by
  cases read with
  | failed => exact List.nil_prefix
  | all => exact List.prefix_rfl
  | upTo n =>
    rw [TagsRead.shown]
    split
    · next h =>
      rw [← tagRows_of db h]
      exact ((List.take_prefix n _).filter _).map _
    · exact List.nil_prefix

theorem TagsRead.tags_of_row (read : TagsRead) (db : ProblemsDb) {ids : List String}
    {id : String} (h : id ∈ ids) :
    (read.tags (db.tagRows ids) id).getD [] = read.shown db ids id := by
  cases read with
  | failed => rfl
  | upTo n => rw [TagsRead.tags, TagsRead.shown, if_pos h, tagMap_eq]
  | all => rw [TagsRead.tags, TagsRead.shown, tagMap_eq, tagRows_of db h]

/-- Whatever filters are given, the page is that of the problems that satisfy all of them, in their
order and each with its own tags or the first of them, and the total counts them. -/
theorem problemList_filters (m : CaseFold) (db : ProblemsDb) (q : ListQuery)
    (tagsRead : TagsRead) :
    ∃ tags : String → List TagRow, (∀ id, tags id <+: db.tagsOf id) ∧
      (tagsRead = .all → tags = db.tagsOf) ∧
      db.list m q tagsRead =
        match ListEndpoint.problems.list q.paging (db.problems.filter (q.selects m db)) with
        | .error status text => .error status text
        | .page rows total page limit =>
          .page
            ⟨if q.search ≠ "" then "no-store"
              else "public, max-age=60, stale-while-revalidate=300"⟩
            (rows.map fun p => db.item p (tags p.id)) total page limit := by
  have hlist := listQuery_eq m db q (ListEndpoint.problems.limit q.paging)
    (ListEndpoint.problems.offset q.paging)
  unfold ProblemsDb.list ListEndpoint.list
  rw [ListEndpoint.offset] at hlist ⊢
  simp only [countQuery_eq, hlist]
  cases selectRows (db.problems.filter (q.selects m db)) (ListEndpoint.problems.limit q.paging)
      ((q.paging.pageNumber - 1) * ListEndpoint.problems.limit q.paging) with
  | none => exact ⟨db.tagsOf, fun _ => List.prefix_rfl, fun _ => rfl, rfl⟩
  | some rows =>
    have hall : tagsRead = .all →
        tagsRead.shown db (rows.map fun p => p.id) = db.tagsOf := by
      rintro rfl
      rfl
    refine ⟨_, tagsRead.shown_prefix db (rows.map fun p => p.id), hall, ?_⟩
    dsimp only
    congr 1
    refine List.map_congr_left fun p hp => ?_
    rw [tagsRead.tags_of_row db (List.mem_map_of_mem hp)]

/-- A search for ordinary characters asks whether the title contains them up to case. -/
theorem selects_iff_of_plain (hplain : ∀ c ∈ q.search.toList, special c = false) :
    q.selects m db p = true ↔ (q.difficulty = "" ∨ p.difficulty = q.difficulty) ∧
      q.search.toList.map m.fold <:+: p.title.toList.map m.fold ∧
        (q.tag = "" ∨ db.hasTag p q.tag = true) := by
  have hsearch : (q.search = "" ∨ m.ilike ("%" ++ q.search ++ "%") p.title = true) ↔
      q.search.toList.map m.fold <:+: p.title.toList.map m.fold := by
    rw [m.ilike_contains hplain]
    refine or_iff_right_of_imp fun h => ?_
    rw [h]
    exact List.nil_infix
  simp only [ListQuery.selects, Bool.and_eq_true, Bool.or_eq_true, decide_eq_true_eq, hsearch,
    and_assoc]

end

end Leetrank.Problems
