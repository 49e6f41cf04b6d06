import Leetrank.Admin.LastAdmin
import Leetrank.Library.Linearization
import Leetrank.Web.RateLimit
import Mathlib.Data.Set.Insert
import Mathlib.Order.BooleanAlgebra.Set

namespace Leetrank.Bookmarks
set_option autoImplicit true

open EventMachine Linearization Threads

def TOGGLE_LIMIT_MAX : Nat := 30
def TOGGLE_LIMIT_WINDOW_MS : Nat := 60000

structure Bookmark where
  id : Nat
  userId : String
  problemId : String

def Bookmark.key (b : Bookmark) : String × String := (b.userId, b.problemId)

/-- The bookmarks, each of a user and a problem that exist, whose ids are never given again; and the
limiter of the process. -/
structure BookmarkDb where
  users : List String
  problems : List String
  rows : List Bookmark
  nextId : Nat
  buckets : Buckets
  ids : (rows.map Bookmark.id).Nodup
  keys : (rows.map Bookmark.key).Nodup
  fresh : ∀ b ∈ rows, b.id < nextId
  refers : ∀ b ∈ rows, b.userId ∈ users ∧ b.problemId ∈ problems

def BookmarkDb.findUnique (s : BookmarkDb) (user problem : String) : Option Bookmark :=
  s.rows.find? fun b => b.key = (user, problem)

theorem BookmarkDb.findUnique_eq_none_iff {s : BookmarkDb} {user problem : String} :
    s.findUnique user problem = none ↔ (user, problem) ∉ s.rows.map Bookmark.key := by
  simp only [BookmarkDb.findUnique, List.find?_eq_none, List.mem_map, decide_eq_true_eq, not_exists,
    not_and]

def BookmarkDb.keep (s : BookmarkDb) (kept : Bookmark → Bool) : BookmarkDb :=
  { s with
    rows := s.rows.filter kept
    ids := s.ids.sublist (List.filter_sublist.map _)
    keys := s.keys.sublist (List.filter_sublist.map _)
    fresh := fun b hb => s.fresh b (List.mem_of_mem_filter hb)
    refers := fun b hb => s.refers b (List.mem_of_mem_filter hb) }

/-- A row that is not there cannot be deleted. -/
def BookmarkDb.delete (s : BookmarkDb) (id : Nat) : Option BookmarkDb :=
  if id ∈ s.rows.map Bookmark.id then some (s.keep fun b => b.id ≠ id) else none

/-- A row is created for a user and a problem that are there, and that have no row yet. -/
def BookmarkDb.create (s : BookmarkDb) (user problem : String) : Option BookmarkDb :=
  if h : (user ∈ s.users ∧ problem ∈ s.problems) ∧ s.findUnique user problem = none then
    some { s with
      rows := s.rows ++ [⟨s.nextId, user, problem⟩]
      nextId := s.nextId + 1
      ids := by
        rw [List.map_append, List.map_singleton, ← List.concat_eq_append]
        apply s.ids.concat
        intro hmem
        obtain ⟨b, hb, hid⟩ := List.mem_map.1 hmem
        exact absurd hid (Nat.ne_of_lt (s.fresh b hb))
      keys := by
        rw [List.map_append, List.map_singleton, ← List.concat_eq_append]
        exact s.keys.concat (BookmarkDb.findUnique_eq_none_iff.1 h.2)
      fresh := by
        intro b hb
        rcases List.mem_append.1 hb with hb | hb
        · exact Nat.lt_succ_of_lt (s.fresh b hb)
        · obtain rfl := List.mem_singleton.1 hb
          exact Nat.lt_succ_self _
      refers := by
        intro b hb
        rcases List.mem_append.1 hb with hb | hb
        · exact s.refers b hb
        · obtain rfl := List.mem_singleton.1 hb
          exact h.1 }
  else none

/-- What other routes do to the users and the problems; the bookmarks of one that is deleted go with
it. -/
inductive BookmarkChange where
  | userAdded (id : String)
  | userDeleted (id : String)
  | problemAdded (id : String)
  | problemDeleted (id : String)

def BookmarkDb.change (s : BookmarkDb) : BookmarkChange → BookmarkDb
  | .userAdded id =>
    { s with
      users := id :: s.users
      refers := fun b hb => ⟨List.mem_cons_of_mem _ (s.refers b hb).1, (s.refers b hb).2⟩ }
  | .problemAdded id =>
    { s with
      problems := id :: s.problems
      refers := fun b hb => ⟨(s.refers b hb).1, List.mem_cons_of_mem _ (s.refers b hb).2⟩ }
  | .userDeleted id =>
    { s.keep fun b => b.userId ≠ id with
      users := s.users.filter fun u => u ≠ id
      refers := by
        intro b hb
        obtain ⟨hb, hkept⟩ := List.mem_filter.1 hb
        exact ⟨List.mem_filter.2 ⟨(s.refers b hb).1, hkept⟩, (s.refers b hb).2⟩ }
  | .problemDeleted id =>
    { s.keep fun b => b.problemId ≠ id with
      problems := s.problems.filter fun p => p ≠ id
      refers := by
        intro b hb
        obtain ⟨hb, hkept⟩ := List.mem_filter.1 hb
        exact ⟨(s.refers b hb).1, List.mem_filter.2 ⟨(s.refers b hb).2, hkept⟩⟩ }

inductive BookmarkReply where
  | bookmarked (b : Bool)
  | failed (status : Nat) (error : String) (retryAfter : Option Nat)

def bookmarkFailed : BookmarkReply := .failed 500 "Internal server error" none

/-- The body of a toggle, as JSON and its schema read it. -/
inductive ToggleBody where
  | notJson
  | invalid (message : String)
  | problemId (id : String)

/-- The three requests; the first one asks for a single problem. -/
inductive BookmarkCall where
  | get (problemId : String)
  | post (body : ToggleBody)
  | delete (problemId : Option String)

structure BookmarkRequest where
  session : Option Session
  call : BookmarkCall
  now : Nat

/-- Where a request stands, each time before the statement of that name. -/
inductive BookmarkPc where
  | received
  | checking (user problem : String)
  | toggling (user problem : String)
  | removing (user problem : String)
  | deleting (id : Nat)
  | looking (user problem : String)
  | creating (user problem : String)
  | returned (r : BookmarkReply)

def BookmarkDb.limited (s : BookmarkDb) (user : String) (now : Nat) (next : BookmarkPc) :
    BookmarkDb × BookmarkPc :=
  match memoryCheck s.buckets ("bookmark:" ++ user) TOGGLE_LIMIT_MAX TOGGLE_LIMIT_WINDOW_MS now with
  | (buckets, limit) =>
    ({ s with buckets := buckets },
      if limit.allowed then next
      else .returned (.failed 429 "Too many bookmark toggles. Slow down."
        (some (retryAfterSeconds limit.resetAt now))))

def BookmarkRequest.begin (s : BookmarkDb) (r : BookmarkRequest) : BookmarkDb × BookmarkPc :=
  match r.session with
  | none => (s, .returned (.failed 401 "Unauthorized" none))
  | some session =>
    match r.call with
    | .get problemId => (s, .checking session.userId problemId)
    | .post body =>
      s.limited session.userId r.now <|
        match body with
        | .notJson => .returned (.failed 400 "Invalid JSON body" none)
        | .invalid message => .returned (.failed 400 message none)
        | .problemId id =>
          if id = "" then .returned (.failed 400 "Problem ID is required." none)
          else .toggling session.userId id
    | .delete problemId =>
      s.limited session.userId r.now <|
        match problemId with
        | none => .returned (.failed 400 "Problem ID is required." none)
        | some id =>
          if id = "" then .returned (.failed 400 "Problem ID is required." none)
          else .removing session.userId id

structure BookmarkThread where
  request : BookmarkRequest
  pc : BookmarkPc

/-- The next statement of a request, if its answer arrives. -/
def BookmarkPc.statement (s : BookmarkDb) (r : BookmarkRequest) :
    BookmarkPc → Option (BookmarkDb × BookmarkPc)
  | .received => some (r.begin s)
  | .checking user problem =>
    some (s, .returned (.bookmarked (s.findUnique user problem).isSome))
  | .toggling user problem =>
    some (s, match s.findUnique user problem with
      | some existing => .deleting existing.id
      | none => .looking user problem)
  | .removing user problem =>
    some (s, match s.findUnique user problem with
      | some existing => .deleting existing.id
      | none => .returned (.bookmarked false))
  | .deleting id =>
    some <| match s.delete id with
      | some s' => (s', .returned (.bookmarked false))
      | none => (s, .returned bookmarkFailed)
  | .looking user problem =>
    some (s, if problem ∈ s.problems then .creating user problem
      else .returned (.failed 404 "Problem not found" none))
  | .creating user problem =>
    some <| match s.create user problem with
      | some s' => (s', .returned (.bookmarked true))
      | none => (s, .returned bookmarkFailed)
  | .returned _ => none

def BookmarkThread.statement (s : BookmarkDb) (t : BookmarkThread) :
    Option (BookmarkDb × BookmarkThread) :=
  (t.pc.statement s t.request).map fun (s', pc) => (s', { t with pc := pc })

def BookmarkThread.giveUp (t : BookmarkThread) : BookmarkThread :=
  { t with pc := .returned bookmarkFailed }

/-- Any number of requests of any users, among the changes of other routes. -/
def bookmarkProgram : Program BookmarkDb BookmarkThread BookmarkRequest BookmarkChange Outcome where
  start := fun _ request => ⟨request, .received⟩
  ambient := BookmarkDb.change
  step := statementStep BookmarkThread.statement BookmarkThread.giveUp

def bookmarks : Machine (World BookmarkDb BookmarkThread)
    (Event BookmarkRequest BookmarkChange Outcome) :=
  bookmarkProgram.machine fun _ => True

/-- The problems, and which user has marked which of them. -/
@[ext]
structure Marks where
  problems : Set String
  marked : Set (String × String)

inductive MarkOp where
  | check (user problem : String)
  | toggle (user problem : String)
  | remove (user problem : String)
  | change (c : BookmarkChange)

def Marks.change (m : Marks) : BookmarkChange → Marks
  | .userAdded _ => m
  | .userDeleted id => { m with marked := {k ∈ m.marked | k.1 ≠ id} }
  | .problemAdded id => { m with problems := insert id m.problems }
  | .problemDeleted id => ⟨{p ∈ m.problems | p ≠ id}, {k ∈ m.marked | k.2 ≠ id}⟩

open Classical in
/-- An operation at once, with the new state of the mark; a problem that is not there has none. -/
noncomputable def Marks.apply (m : Marks) : MarkOp → Marks × Option Bool
  | .check user problem => (m, some (decide ((user, problem) ∈ m.marked)))
  | .toggle user problem =>
    if (user, problem) ∈ m.marked then
      ({ m with marked := m.marked \ {(user, problem)} }, some false)
    else if problem ∈ m.problems then
      ({ m with marked := insert (user, problem) m.marked }, some true)
    else (m, none)
  | .remove user problem => ({ m with marked := m.marked \ {(user, problem)} }, some false)
  | .change c => (m.change c, none)

section
variable {m : Marks} {user problem : String}

theorem Marks.apply_check {b : Bool} (h : b = true ↔ (user, problem) ∈ m.marked) :
    m.apply (.check user problem) = (m, some b) := by
  classical
  have hb : decide ((user, problem) ∈ m.marked) = b := by
    rw [Bool.eq_iff_iff, decide_eq_true_iff]
    exact h.symm
  rw [Marks.apply]
  congr 2

theorem Marks.apply_toggle_marked (h : (user, problem) ∈ m.marked) :
    m.apply (.toggle user problem) =
      ({ m with marked := m.marked \ {(user, problem)} }, some false) := by
  rw [Marks.apply, if_pos h]

theorem Marks.apply_toggle_unmarked (h : (user, problem) ∉ m.marked)
    (hproblem : problem ∈ m.problems) : m.apply (.toggle user problem) =
      ({ m with marked := insert (user, problem) m.marked }, some true) := by
  rw [Marks.apply, if_neg h, if_pos hproblem]

theorem Marks.apply_toggle_missing (h : (user, problem) ∉ m.marked)
    (hproblem : problem ∉ m.problems) : m.apply (.toggle user problem) = (m, none) := by
  rw [Marks.apply, if_neg h, if_neg hproblem]

theorem Marks.apply_remove_unmarked (h : (user, problem) ∉ m.marked) :
    m.apply (.remove user problem) = (m, some false) := by
  rw [Marks.apply, Set.sdiff_singleton_eq_self h]

end

def BookmarkDb.marks (s : BookmarkDb) : Marks where
  problems := {p | p ∈ s.problems}
  marked := {k | k ∈ s.rows.map Bookmark.key}

def BookmarkRequest.op (r : BookmarkRequest) : Option MarkOp :=
  r.session.bind fun session =>
    match r.call with
    | .get problemId => some (.check session.userId problemId)
    | .post (.problemId id) => some (.toggle session.userId id)
    | .delete (some id) => some (.remove session.userId id)
    | .post .notJson | .post (.invalid _) | .delete none => none

/-- What a reply says of the mark. -/
def BookmarkReply.answer : BookmarkReply → Option (Option Bool)
  | .bookmarked b => some (some b)
  | .failed status _ _ => if status = 404 then some none else none

def BookmarkPc.answer : BookmarkPc → Option (Option Bool)
  | .returned r => r.answer
  | _ => none

noncomputable def bookmarkReading :
    Reading BookmarkDb BookmarkThread BookmarkChange Marks MarkOp (Option Bool) where
  object := ⟨Marks.apply⟩
  statement := BookmarkThread.statement
  giveUp := BookmarkThread.giveUp
  view := BookmarkDb.marks
  change := MarkOp.change
  asks := fun t => t.request.op
  answer := fun t => t.pc.answer

variable {s s' : BookmarkDb} {r : BookmarkRequest} {pc pc' : BookmarkPc} {user problem : String}
  {id : Nat}

/-- No row of another id comes or changes, but those of new ids. -/
def BookmarkDb.Grows (s s' : BookmarkDb) : Prop :=
  s.nextId ≤ s'.nextId ∧ ∀ b ∈ s'.rows, b ∈ s.rows ∨ s.nextId ≤ b.id

/-- What a request that stands there has found out: an id that it is going to delete is that of the
row of its user and its problem, as long as there is one. -/
def BookmarkPc.Found (s : BookmarkDb) (r : BookmarkRequest) : BookmarkPc → Prop
  | .received | .returned _ => True
  | .checking user problem => r.op = some (.check user problem)
  | .toggling user problem | .looking user problem | .creating user problem =>
    r.op = some (.toggle user problem)
  | .removing user problem => r.op = some (.remove user problem)
  | .deleting id => ∃ user problem,
    (r.op = some (.toggle user problem) ∨ r.op = some (.remove user problem)) ∧
      id < s.nextId ∧ ∀ b ∈ s.rows, b.id = id → b.key = (user, problem)

theorem BookmarkPc.Found.mono (h : pc.Found s r) (hs : s.Grows s') : pc.Found s' r := by
  cases pc with
  | deleting id =>
    obtain ⟨user, problem, hop, hlt, hkey⟩ := h
    refine ⟨user, problem, hop, hlt.trans_le hs.1, ?_⟩
    intro b hb hid
    rcases hs.2 b hb with hold | hnew
    · exact hkey b hold hid
    · omega
  | received => trivial
  | returned => trivial
  | checking => exact h
  | toggling => exact h
  | removing => exact h
  | looking => exact h
  | creating => exact h

theorem BookmarkDb.grows_of_subset (hid : s'.nextId = s.nextId) (hrows : s'.rows ⊆ s.rows) :
    s.Grows s' :=
  ⟨hid.ge, fun _ hb => .inl (hrows hb)⟩

theorem BookmarkDb.change_grows (s : BookmarkDb) (c : BookmarkChange) : s.Grows (s.change c) := by
  cases c with
  | userAdded id => exact grows_of_subset rfl (List.Subset.refl _)
  | problemAdded id => exact grows_of_subset rfl (List.Subset.refl _)
  | userDeleted id => exact grows_of_subset rfl (List.filter_subset_self _)
  | problemDeleted id => exact grows_of_subset rfl (List.filter_subset_self _)

theorem BookmarkDb.findUnique_some (h : s.findUnique user problem = some b) :
    b ∈ s.rows ∧ b.key = (user, problem) := by
  have hkey := List.find?_some h
  exact ⟨List.mem_of_find?_eq_some h, of_decide_eq_true hkey⟩

/-- Where the keys decide which rows are kept, they decide which marks are. -/
theorem BookmarkDb.mem_keep {kept : Bookmark → Bool} {f : String × String → Prop}
    (hf : ∀ b ∈ s.rows, kept b = true ↔ f b.key) (k : String × String) :
    k ∈ (s.keep kept).rows.map Bookmark.key ↔ k ∈ s.rows.map Bookmark.key ∧ f k := by
  constructor
  · intro hk
    obtain ⟨b, hb, rfl⟩ := List.mem_map.1 hk
    obtain ⟨hb, hkept⟩ := List.mem_filter.1 hb
    exact ⟨List.mem_map_of_mem hb, (hf b hb).1 hkept⟩
  · intro ⟨hk, hkept⟩
    obtain ⟨b, hb, rfl⟩ := List.mem_map.1 hk
    exact List.mem_map_of_mem (List.mem_filter.2 ⟨hb, (hf b hb).2 hkept⟩)

theorem BookmarkDb.change_marks (s : BookmarkDb) (c : BookmarkChange) :
    (s.change c).marks = s.marks.change c := by
  cases c with
  | userAdded id => rfl
  | problemAdded id => exact Marks.ext (Set.ext fun p => List.mem_cons) rfl
  | userDeleted id =>
    have hkept : ∀ b ∈ s.rows, decide (b.userId ≠ id) = true ↔ b.key.1 ≠ id :=
      fun b _ => decide_eq_true_iff
    exact Marks.ext rfl (Set.ext (BookmarkDb.mem_keep hkept))
  | problemDeleted id =>
    have hkept : ∀ b ∈ s.rows, decide (b.problemId ≠ id) = true ↔ b.key.2 ≠ id :=
      fun b _ => decide_eq_true_iff
    apply Marks.ext
    · apply Set.ext
      intro p
      exact List.mem_filter.trans (and_congr_right fun _ => decide_eq_true_iff)
    · exact Set.ext (BookmarkDb.mem_keep hkept)

/-- The row that is deleted is the one mark that goes. -/
theorem BookmarkDb.delete_marks (h : s.delete id = some s')
    (hkey : ∀ b ∈ s.rows, b.id = id → b.key = k) :
    k ∈ s.marks.marked ∧ s'.marks = { s.marks with marked := s.marks.marked \ {k} } := by
  rw [BookmarkDb.delete] at h
  split at h
  next hid =>
    cases h
    obtain ⟨b, hb, rfl⟩ := List.mem_map.1 hid
    obtain rfl := hkey b hb rfl
    have hkept : ∀ b' ∈ s.rows, decide (b'.id ≠ b.id) = true ↔ b'.key ≠ b.key := by
      intro b' hb'
      rw [decide_eq_true_iff, not_iff_not]
      exact ⟨hkey b' hb', fun heq => congrArg Bookmark.id
        (List.inj_on_of_nodup_map s.keys hb' hb heq)⟩
    exact ⟨List.mem_map_of_mem hb, Marks.ext rfl (Set.ext (BookmarkDb.mem_keep hkept))⟩
  next => cases h

theorem BookmarkDb.create_marks (h : s.create user problem = some s') :
    (user, problem) ∉ s.marks.marked ∧ problem ∈ s.marks.problems ∧
      s'.marks = { s.marks with marked := insert (user, problem) s.marks.marked } := by
  rw [BookmarkDb.create] at h
  split at h
  next hnew =>
    cases h
    refine ⟨BookmarkDb.findUnique_eq_none_iff.1 hnew.2, hnew.1.2, Marks.ext rfl (Set.ext ?_)⟩
    intro k
    change k ∈ (s.rows ++ [_]).map Bookmark.key ↔ _
    rw [List.map_append, List.mem_append, List.map_singleton, List.mem_singleton]
    exact or_comm
  next => cases h

theorem BookmarkDb.delete_grows (h : s.delete id = some s') : s.Grows s' := by
  rw [BookmarkDb.delete] at h
  split at h
  next =>
    cases h
    exact grows_of_subset rfl (List.filter_subset_self _)
  next => cases h

theorem BookmarkDb.create_grows (h : s.create user problem = some s') : s.Grows s' := by
  rw [BookmarkDb.create] at h
  split at h
  next =>
    cases h
    refine ⟨Nat.le_succ _, ?_⟩
    intro b hb
    rcases List.mem_append.1 hb with hb | hb
    · exact .inl hb
    · obtain rfl := List.mem_singleton.1 hb
      exact .inr (Nat.le_refl _)
  next => cases h

theorem BookmarkDb.Grows.refl (s : BookmarkDb) : s.Grows s :=
  grows_of_subset rfl (List.Subset.refl _)

theorem BookmarkDb.limited_pc (s : BookmarkDb) (user : String) (now : Nat) (next : BookmarkPc) :
    (s.limited user now next).2 = next ∨ ∃ retryAfter, (s.limited user now next).2 =
      .returned (.failed 429 "Too many bookmark toggles. Slow down." (some retryAfter)) := by
  simp only [BookmarkDb.limited]
  split
  next => exact .inl rfl
  next => exact .inr ⟨_, rfl⟩

theorem BookmarkRequest.begin_marks (s : BookmarkDb) (r : BookmarkRequest) :
    s.Grows (r.begin s).1 ∧ (r.begin s).1.marks = s.marks := by
  rw [BookmarkRequest.begin]
  split
  next => exact ⟨.refl s, rfl⟩
  next =>
    split
    next => exact ⟨.refl s, rfl⟩
    next => exact ⟨BookmarkDb.grows_of_subset rfl (List.Subset.refl _), rfl⟩
    next => exact ⟨BookmarkDb.grows_of_subset rfl (List.Subset.refl _), rfl⟩

/-- A request that has begun waits for its first statement on the bookmarks, or has been refused. -/
theorem BookmarkRequest.begin_pc (s s' : BookmarkDb) (r : BookmarkRequest) :
    (r.begin s).2.Found s' r ∧ (r.begin s).2.answer = none := by
  have hlimited (user : String) (next : BookmarkPc)
      (hnext : next.Found s' r ∧ next.answer = none) :
      (s.limited user r.now next).2.Found s' r ∧ (s.limited user r.now next).2.answer = none := by
    rcases s.limited_pc user r.now next with hpc | ⟨n, hpc⟩
    · rw [hpc]
      exact hnext
    · rw [hpc]
      exact ⟨trivial, rfl⟩
  rw [BookmarkRequest.begin]
  split
  next => exact ⟨trivial, rfl⟩
  next session hsession =>
    split
    next problemId hcall =>
      refine ⟨?_, rfl⟩
      rw [BookmarkPc.Found, BookmarkRequest.op, hsession, hcall]
      rfl
    next body hcall =>
      apply hlimited
      split
      next => exact ⟨trivial, rfl⟩
      next => exact ⟨trivial, rfl⟩
      next id =>
        split
        next => exact ⟨trivial, rfl⟩
        next =>
          refine ⟨?_, rfl⟩
          rw [BookmarkPc.Found, BookmarkRequest.op, hsession, hcall]
          rfl
    next problemId hcall =>
      apply hlimited
      split
      next => exact ⟨trivial, rfl⟩
      next id =>
        split
        next => exact ⟨trivial, rfl⟩
        next =>
          refine ⟨?_, rfl⟩
          rw [BookmarkPc.Found, BookmarkRequest.op, hsession, hcall]
          rfl

/-- What a statement of a request leads to: one that has an answer does the operation of the
request, and any other one changes no mark. -/
structure BookmarkPc.Leads (s : BookmarkDb) (r : BookmarkRequest) (s' : BookmarkDb)
    (pc' : BookmarkPc) : Prop where
  grows : s.Grows s'
  found : pc'.Found s' r
  reads : pc'.answer = none → s'.marks = s.marks
  does : ∀ a, pc'.answer = some a → ∃ o, r.op = some o ∧ s.marks.apply o = (s'.marks, a)

theorem BookmarkPc.leads_silent (hgrows : s.Grows s') (hmarks : s'.marks = s.marks)
    (hfound : pc'.Found s' r) (hanswer : pc'.answer = none) : Leads s r s' pc' where
  grows := hgrows
  found := hfound
  reads := fun _ => hmarks
  does := by
    intro a ha
    rw [hanswer] at ha
    cases ha

theorem BookmarkPc.leads_reply {reply : BookmarkReply} (hgrows : s.Grows s')
    (hanswer : reply.answer = some a) (hop : r.op = some o)
    (ho : s.marks.apply o = (s'.marks, a)) : Leads s r s' (.returned reply) where
  grows := hgrows
  found := trivial
  reads := by
    intro hnone
    have hnone : reply.answer = none := hnone
    rw [hanswer] at hnone
    cases hnone
  does := by
    intro a' ha
    have ha : reply.answer = some a' := ha
    rw [hanswer] at ha
    cases ha
    exact ⟨o, hop, ho⟩

theorem BookmarkDb.isSome_findUnique_iff :
    (s.findUnique user problem).isSome = true ↔ (user, problem) ∈ s.marks.marked := by
  rw [Option.isSome_iff_ne_none, ne_eq, BookmarkDb.findUnique_eq_none_iff, not_not]
  rfl

/-- A problem that is not there has no marks. -/
theorem BookmarkDb.not_marked_of_missing (h : problem ∉ s.problems) :
    (user, problem) ∉ s.marks.marked := by
  intro hmem
  obtain ⟨b, hb, hkey⟩ := List.mem_map.1 hmem
  have hid : b.problemId = problem := congrArg Prod.snd hkey
  exact h (hid ▸ (s.refers b hb).2)

theorem BookmarkPc.found_existing (hfind : s.findUnique user problem = some existing)
    (hop : r.op = some (.toggle user problem) ∨ r.op = some (.remove user problem)) :
    (BookmarkPc.deleting existing.id).Found s r := by
  obtain ⟨hmem, hkey⟩ := BookmarkDb.findUnique_some hfind
  refine ⟨user, problem, hop, s.fresh existing hmem, ?_⟩
  intro b hb hid
  rw [List.inj_on_of_nodup_map s.ids hb hmem hid, hkey]

theorem BookmarkPc.statement_leads (h : pc.Found s r) (hs : pc.statement s r = some (s', pc')) :
    Leads s r s' pc' := by
  cases pc with
  | received =>
    obtain ⟨hgrows, hmarks⟩ := r.begin_marks s
    obtain ⟨hfound, hanswer⟩ := r.begin_pc s s'
    rw [Option.some.inj hs] at hgrows hmarks hfound hanswer
    exact leads_silent hgrows hmarks hfound hanswer
  | checking user problem =>
    cases hs
    exact leads_reply (.refl s) rfl h (Marks.apply_check BookmarkDb.isSome_findUnique_iff)
  | toggling user problem =>
    cases hs
    cases hfind : s.findUnique user problem with
    | none => exact leads_silent (.refl s) rfl h rfl
    | some existing => exact leads_silent (.refl s) rfl (found_existing hfind (.inl h)) rfl
  | removing user problem =>
    cases hs
    cases hfind : s.findUnique user problem with
    | none =>
      have hnot : (user, problem) ∉ s.marks.marked := BookmarkDb.findUnique_eq_none_iff.1 hfind
      exact leads_reply (.refl s) rfl h (Marks.apply_remove_unmarked hnot)
    | some existing => exact leads_silent (.refl s) rfl (found_existing hfind (.inr h)) rfl
  | deleting id =>
    obtain ⟨user, problem, hop, -, hkey⟩ := h
    cases hdelete : s.delete id with
    | none =>
      rw [BookmarkPc.statement, hdelete] at hs
      cases hs
      exact leads_silent (.refl s) rfl trivial rfl
    | some s₁ =>
      rw [BookmarkPc.statement, hdelete] at hs
      cases hs
      obtain ⟨hmem, hmarks⟩ := BookmarkDb.delete_marks hdelete hkey
      rcases hop with htoggle | hremove
      · apply leads_reply (BookmarkDb.delete_grows hdelete) rfl htoggle
        rw [Marks.apply_toggle_marked hmem, hmarks]
      · apply leads_reply (BookmarkDb.delete_grows hdelete) rfl hremove
        rw [hmarks]
        rfl
  | looking user problem =>
    cases hs
    split
    next => exact leads_silent (.refl s) rfl h rfl
    next hgone =>
      have hnot : (user, problem) ∉ s.marks.marked := BookmarkDb.not_marked_of_missing hgone
      exact leads_reply (.refl s) rfl h (Marks.apply_toggle_missing hnot hgone)
  | creating user problem =>
    cases hcreate : s.create user problem with
    | none =>
      rw [BookmarkPc.statement, hcreate] at hs
      cases hs
      exact leads_silent (.refl s) rfl trivial rfl
    | some s₁ =>
      rw [BookmarkPc.statement, hcreate] at hs
      cases hs
      obtain ⟨hnot, hproblem, hmarks⟩ := BookmarkDb.create_marks hcreate
      apply leads_reply (BookmarkDb.create_grows hcreate) rfl h
      rw [Marks.apply_toggle_unmarked hnot hproblem, hmarks]
  | returned reply => cases hs

theorem BookmarkThread.statement_eq {t t' : BookmarkThread}
    (h : t.statement s = some (s', t')) :
    t'.request = t.request ∧ t.pc.statement s t.request = some (s', t'.pc) := by
  obtain ⟨⟨s₁, pc⟩, hpc, heq⟩ := Option.map_eq_some_iff.1 h
  cases heq
  exact ⟨rfl, hpc⟩

theorem bookmarks_stable : bookmarkProgram.Stable (fun _ _ _ _ => True) (fun _ => True)
    fun s _ o => ∀ t : BookmarkThread, o = some t → t.pc.Found s t.request where
  start := by
    intro s i request _ _ t ht
    cases ht
    trivial
  ambient := by
    intro s c _
    exact ⟨trivial, fun i o ho t ht => (ho t ht).mono (s.change_grows c)⟩
  step := by
    intro s i t x s' t' _ ht _ hstep
    have hstep : statementStep BookmarkThread.statement BookmarkThread.giveUp s i t x =
      some (s', t') := hstep
    have hgrows : s.Grows s' := by
      rcases statementStep_cases hstep with ⟨-, rfl⟩ | ⟨-, q, hq⟩
      · exact .refl _
      · obtain ⟨-, hpc⟩ := BookmarkThread.statement_eq hq
        exact (BookmarkPc.statement_leads (ht t rfl) hpc).grows
    refine ⟨trivial, ?_, fun j o _ ho t ht => (ho t ht).mono hgrows⟩
    intro q hq
    cases hq
    rcases statementStep_thread hstep with rfl | hq
    · trivial
    · obtain ⟨hrequest, hpc⟩ := BookmarkThread.statement_eq hq
      rw [hrequest]
      exact (BookmarkPc.statement_leads (ht t rfl) hpc).found

theorem bookmarks_atomic : bookmarkReading.Atomic bookmarkProgram (fun _ => True)
    fun s t => t.pc.Found s t.request where
  step := rfl
  stable := bookmarks_stable
  start := fun _ _ => rfl
  ambient := fun s c => (s.change_marks c).symm
  asks := by
    intro s t s' t' hs
    exact congrArg BookmarkRequest.op (BookmarkThread.statement_eq hs).1
  reads := by
    intro s t s' t' hfound hs hanswer
    obtain ⟨-, hpc⟩ := BookmarkThread.statement_eq hs
    exact (BookmarkPc.statement_leads hfound hpc).reads hanswer
  does := by
    intro s t s' t' a _ hfound hs hanswer
    obtain ⟨-, hpc⟩ := BookmarkThread.statement_eq hs
    exact (BookmarkPc.statement_leads hfound hpc).does a hanswer
  ends := by
    intro s t a hanswer
    obtain ⟨request, pc⟩ := t
    cases pc with
    | returned reply => rfl
    | received | checking | toggling | removing | deleting | looking | creating => cases hanswer
  gaveUp := fun t => ⟨rfl, rfl, fun s => rfl⟩

/-- Toggles, removals and checks of any requests, however their statements interleave and whatever
other routes delete meanwhile, are done one after the other: the replies are those of the marks,
each at the place of its request in one order, which does not turn round what one request was told
before another one began; and a request that failed has done its operation once or not at all. -/
theorem bookmarks_linearizable (h₀ : bookmarks.init w₀) (hr : bookmarks.run w₀ es = some w) :
    bookmarkReading.Explains w₀ w (bookmarkReading.history bookmarkProgram w₀ es) ∧
      ∀ es', bookmarkReading.history bookmarkProgram w₀ es <+:
        bookmarkReading.history bookmarkProgram w₀ (es ++ es') :=
  bookmarks_atomic.linearizable (fun _ _ => trivial) h₀ hr

def oneProblem : World BookmarkDb BookmarkThread where
  shared := {
    users := ["ann"]
    problems := ["two-sum"]
    rows := []
    nextId := 0
    buckets := fun _ => none
    ids := List.nodup_nil
    keys := List.nodup_nil
    fresh := nofun
    refers := nofun }
  threads := []

def toggleRequest : BookmarkRequest := ⟨some ⟨"ann", .user⟩, .post (.problemId "two-sum"), 0⟩

/-- Two toggles at once find no bookmark, and the second one fails. -/
def twoToggles : List (Event BookmarkRequest BookmarkChange Outcome) :=
  [.spawn toggleRequest, .spawn toggleRequest] ++
    ([0, 1, 0, 1, 0, 1, 0, 1].map fun i => .act i .proceed)

theorem bookmarks_linearizable_twoToggles : ∃ w,
    w.threads.map (fun t => t.pc.answer) = [some (some true), none] ∧
      bookmarkReading.Explains oneProblem w
        (bookmarkReading.history bookmarkProgram oneProblem twoToggles) := by
  have hrun : (bookmarks.run oneProblem twoToggles).map
      (fun w => w.threads.map fun t => t.pc.answer) = some [some (some true), none] := by
    decide +kernel
  obtain ⟨w, hw, hanswers⟩ := Option.map_eq_some_iff.1 hrun
  exact ⟨w, hanswers, (bookmarks_linearizable ⟨trivial, rfl⟩ hw).1⟩

end Leetrank.Bookmarks
