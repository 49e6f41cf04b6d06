import Leetrank.Library.JsValue
import Leetrank.Library.Statements
import Leetrank.Web.CommentDepth

namespace Leetrank.Sharing
set_option autoImplicit true

open EventMachine Js Statements Threads

/-- What sharing reads of a row of `Submission`. -/
structure SubmissionRow where
  userId : String
  problemId : String
  status : String
  language : String

/-- The random id is the number of the ids that were drawn before it. -/
structure SolutionRow where
  id : Nat
  problemId : String
  userId : String
  submissionId : String
  title : String
  writeup : String
  language : String
  voteCount : Int
  createdAt : Nat
  updatedAt : Nat

/-- The table `SharedSolution` with its primary key and its unique index. -/
structure SolutionTable where
  rows : List SolutionRow
  ids : (rows.map SolutionRow.id).Nodup
  submissions : (rows.map SolutionRow.submissionId).Nodup

def SolutionTable.find (t : SolutionTable) (id : Nat) : Option SolutionRow :=
  t.rows.find? fun r => r.id = id

/-- `INSERT`, which violates a unique constraint if one of the keys exists. -/
def SolutionTable.insert (t : SolutionTable) (row : SolutionRow) : Option SolutionTable :=
  if h : row.id ∉ t.rows.map SolutionRow.id ∧
      row.submissionId ∉ t.rows.map SolutionRow.submissionId then
    some {
      rows := t.rows ++ [row]
      ids := by
        rw [List.map_append, List.map_singleton, ← List.concat_eq_append]
        exact t.ids.concat h.1
      submissions := by
        rw [List.map_append, List.map_singleton, ← List.concat_eq_append]
        exact t.submissions.concat h.2 }
  else none

def SolutionTable.deleteWhere (t : SolutionTable) (f : SolutionRow → Bool) : SolutionTable where
  rows := t.rows.filter fun r => !f r
  ids := t.ids.sublist (List.filter_sublist.map _)
  submissions := t.submissions.sublist (List.filter_sublist.map _)

/-- What an `UPDATE` may set: not the keys, nor what the row says of its submission. -/
inductive Assignment where
  | title (v : String)
  | writeup (v : String)
  | updatedAt (t : Nat)
  | voteCount (n : Int)

def Assignment.apply (r : SolutionRow) : Assignment → SolutionRow
  | .title v => { r with title := v }
  | .writeup v => { r with writeup := v }
  | .updatedAt t => { r with updatedAt := t }
  | .voteCount n => { r with voteCount := n }

def assign (sets : List Assignment) (r : SolutionRow) : SolutionRow := sets.foldl Assignment.apply r

/-- The columns that no `UPDATE` sets. -/
structure SolutionRow.Same (r r' : SolutionRow) : Prop where
  id : r'.id = r.id
  problemId : r'.problemId = r.problemId
  userId : r'.userId = r.userId
  submissionId : r'.submissionId = r.submissionId
  language : r'.language = r.language
  createdAt : r'.createdAt = r.createdAt

theorem SolutionRow.Same.refl (r : SolutionRow) : r.Same r := ⟨rfl, rfl, rfl, rfl, rfl, rfl⟩

theorem same_assign (sets : List Assignment) (r : SolutionRow) : r.Same (assign sets r) := by
  unfold assign
  induction sets generalizing r with
  | nil => exact .refl r
  | cons x sets ih =>
    obtain ⟨hid, hproblem, huser, hsubmission, hlanguage, hcreated⟩ := ih (x.apply r)
    rw [List.foldl_cons]
    cases x with
    | title | writeup | updatedAt | voteCount =>
      exact ⟨hid, hproblem, huser, hsubmission, hlanguage, hcreated⟩

theorem map_assign_if {f : SolutionRow → β} (hf : ∀ r r', r.Same r' → f r' = f r) (id : Nat)
    (sets : List Assignment) (rows : List SolutionRow) :
    (rows.map fun r => if r.id = id then assign sets r else r).map f = rows.map f := by
  rw [List.map_map]
  refine List.map_congr_left fun r _ => ?_
  simp only [Function.comp]
  split
  next => exact hf r _ (same_assign sets r)
  next => rfl

/-- `UPDATE ... WHERE id = ...`. -/
def SolutionTable.assign (t : SolutionTable) (id : Nat) (sets : List Assignment) :
    SolutionTable where
  rows := t.rows.map fun r => if r.id = id then Sharing.assign sets r else r
  ids := (map_assign_if (fun _ _ h => h.id) id sets t.rows).symm ▸ t.ids
  submissions := (map_assign_if (fun _ _ h => h.submissionId) id sets t.rows).symm ▸ t.submissions

/-- `z.string().min(min, short).max(max, long)`. -/
structure TextSchema where
  min : Nat
  max : Nat
  short : String
  long : String

def TextSchema.Accepts (schema : TextSchema) (s : String) : Prop :=
  schema.min ≤ utf16Length s ∧ utf16Length s ≤ schema.max

def TextSchema.parse (schema : TextSchema) : JsonField → Except String String
  | .missing => .error "Required"
  | .other received => .error ("Expected string, received " ++ received)
  | .text s =>
    if utf16Length s < schema.min then .error schema.short
    else if schema.max < utf16Length s then .error schema.long
    else .ok s

def TextSchema.optional (schema : TextSchema) : JsonField → Except String (Option String)
  | .missing => .ok none
  | field => (schema.parse field).map some

def titleSchema : TextSchema :=
  ⟨3, 200, "Title must be at least 3 characters", "Title too long"⟩

def writeupSchema : TextSchema :=
  ⟨100, 20000, "Writeup must be at least 100 characters", "Writeup too long"⟩

/-- The same bounds with the messages that a schema has by default. -/
def TextSchema.plain (schema : TextSchema) : TextSchema where
  min := schema.min
  max := schema.max
  short := "String must contain at least " ++ toString schema.min ++ " character(s)"
  long := "String must contain at most " ++ toString schema.max ++ " character(s)"

/-- The body of a request, as JSON and the schemas see it. -/
inductive SolutionBody where
  | notJson
  | other (received : String)
  | object (submissionId title writeup : JsonField)

structure SharedFields where
  submissionId : String
  title : String
  writeup : String

structure SolutionPatch where
  title : Option String
  writeup : Option String

def submissionIdField : JsonField → Except String String
  | .missing => .error "Required"
  | .other received => .error ("Expected string, received " ++ received)
  | .text s => if s = "" then .error "Submission ID is required" else .ok s

/-- `createSharedSolutionSchema`, with the message of its first issue. -/
def createSharedSolutionSchema : SolutionBody → Except String SharedFields
  | .notJson => .error "Invalid JSON body"
  | .other received => .error ("Expected object, received " ++ received)
  | .object submissionId title writeup => do
    let submissionId ← submissionIdField submissionId
    let title ← titleSchema.parse title
    let writeup ← writeupSchema.parse writeup
    return ⟨submissionId, title, writeup⟩

def updateSharedSolutionSchema : SolutionBody → Except String SolutionPatch
  | .notJson => .error "Invalid JSON body"
  | .other received => .error ("Expected object, received " ++ received)
  | .object _ title writeup => do
    let title ← titleSchema.plain.optional title
    let writeup ← writeupSchema.plain.optional writeup
    return ⟨title, writeup⟩

/-- The clauses of `SET`, with the numbers of their placeholders. -/
inductive SetClause where
  | title (n : Nat)
  | writeup (n : Nat)
  | updatedAt

inductive UpdateArg where
  | text (v : String)
  | solution (id : Nat)

def SetClause.read (now : Nat) (args : List UpdateArg) : SetClause → Option Assignment
  | .title n =>
    match argument args n with
    | some (.text v) => some (.title v)
    | _ => none
  | .writeup n =>
    match argument args n with
    | some (.text v) => some (.writeup v)
    | _ => none
  | .updatedAt => some (.updatedAt now)

/-- The clauses for the fields that are given. -/
def SolutionPatch.sets (patch : SolutionPatch) : Statement SetClause UpdateArg :=
  let s : Statement SetClause UpdateArg := ⟨[], []⟩
  let s := patch.title.elim s fun v => s.bind (.text v) .title
  patch.writeup.elim s fun v => s.bind (.text v) .writeup

/-- The `UPDATE` of a statement, whose row has the id at the place given; the database refuses one
that it cannot read. -/
def SolutionTable.update (t : SolutionTable) (now : Nat) (s : Statement SetClause UpdateArg)
    (place : Nat) : Option SolutionTable :=
  match s.clauses.mapM (SetClause.read now s.args), argument s.args place with
  | some sets, some (.solution id) => some (t.assign id sets)
  | _, _ => none

/-- The table afterwards and the row that is returned. -/
def SolutionTable.updateSolution (t : SolutionTable) (now id : Nat) (patch : SolutionPatch) :
    Option (SolutionTable × Option SolutionRow) :=
  let s := patch.sets
  if s.clauses.isEmpty then some (t, t.find id)
  else
    let s := s.literal .updatedAt
    let args := s.args ++ [.solution id]
    (t.update now ⟨s.clauses, args⟩ args.length).map fun t' => (t', t'.find id)

/-- What a submission's id stands for; it is not used again. -/
inductive SubmissionSlot where
  | unused
  | stored (row : SubmissionRow)
  | deleted

/-- The problems by their slugs, the submissions by their ids, the shared solutions, and the time;
beside them the submissions that were accepted at some time. -/
structure SharingDb where
  problems : String → Option String
  submissions : String → SubmissionSlot
  solutions : SolutionTable
  drawn : Nat
  now : Nat
  accepted : List String

def SharingDb.findSubmission (db : SharingDb) (id : String) : Option SubmissionRow :=
  match db.submissions id with
  | .stored row => some row
  | _ => none

structure CreateSolutionInput where
  problemId : String
  userId : String
  submissionId : String
  title : String
  writeup : String
  language : String

def CreateSolutionInput.row (input : CreateSolutionInput) (id now : Nat) : SolutionRow :=
  ⟨id, input.problemId, input.userId, input.submissionId, input.title, input.writeup,
    input.language, 0, now, now⟩

inductive CreateError where
  | unique
  | foreignKey

/-- `createSolution`, which draws an id; the submission has to be there. -/
def SharingDb.createSolution (db : SharingDb) (input : CreateSolutionInput) :
    SharingDb × Except CreateError SolutionRow :=
  let row := input.row db.drawn db.now
  let drawn := { db with drawn := db.drawn + 1 }
  match db.solutions.insert row with
  | none => (drawn, .error .unique)
  | some solutions =>
    match db.submissions input.submissionId with
    | .stored _ => ({ drawn with solutions := solutions }, .ok row)
    | _ => (drawn, .error .foreignKey)

inductive SharingReply where
  | error (text : String)
  | solution (row : Option SolutionRow)
  | success

structure SharingResponse where
  status : Nat
  body : SharingReply
  retryAfter : Option Nat

def SharingResponse.error (status : Nat) (text : String) : SharingResponse :=
  ⟨status, .error text, none⟩

def sharingFailed : SharingResponse := .error 500 "Internal server error"

/-- The calls of the three routes; a post carries the seconds to wait if the limiter refuses it. -/
inductive SharingCall where
  | post (slug : String) (refused : Option Nat) (body : SolutionBody)
  | patch (id : Nat) (body : SolutionBody)
  | delete (id : Nat)

structure SharingRequest where
  flagged : Bool
  session : Option Session
  call : SharingCall

/-- Where a request stands, each time before its next statement. -/
inductive SharingPc where
  | findProblem (session : Session) (slug : String) (body : SolutionBody)
  | findSubmission (session : Session) (problemId : String) (fields : SharedFields)
  | create (input : CreateSolutionInput)
  | findToPatch (session : Session) (id : Nat) (body : SolutionBody)
  | update (session : Session) (id : Nat) (patch : SolutionPatch)
  | findToDelete (session : Session) (id : Nat)
  | delete (session : Session) (id : Nat)
  | returned (r : SharingResponse)

def SharingRequest.start (req : SharingRequest) : SharingPc :=
  if !req.flagged then .returned (.error 404 "Not found")
  else
    match req.session with
    | none => .returned (.error 401 "Unauthorized")
    | some session =>
      match req.call with
      | .post _ (some retryAfter) _ =>
        .returned ⟨429, .error "Too many solutions posted. Try again later.", some retryAfter⟩
      | .post slug none body => .findProblem session slug body
      | .patch id body => .findToPatch session id body
      | .delete id => .findToDelete session id

/-- The checks of a post on the submission that it has read. -/
def checkSubmission (session : Session) (problemId : String) (fields : SharedFields) :
    Option SubmissionRow → SharingPc
  | none => .returned (.error 404 "Submission not found")
  | some submission =>
    if submission.problemId ≠ problemId then .returned (.error 404 "Submission not found")
    else if submission.userId ≠ session.userId then .returned (.error 403 "Forbidden")
    else if submission.status ≠ "accepted" then
      .returned (.error 400 "Only accepted submissions can be shared as solutions.")
    else
      .create ⟨problemId, session.userId, fields.submissionId, fields.title, fields.writeup,
        submission.language⟩

def createResponse : Except CreateError SolutionRow → SharingResponse
  | .ok row => ⟨201, .solution (some row), none⟩
  | .error .unique => .error 409 "This submission has already been shared."
  | .error .foreignKey => sharingFailed

/-- Only the author may patch. -/
def checkPatch (session : Session) (id : Nat) (body : SolutionBody) : Option SolutionRow → SharingPc
  | none => .returned (.error 404 "Solution not found")
  | some existing =>
    if existing.userId ≠ session.userId then .returned (.error 403 "Forbidden")
    else
      match updateSharedSolutionSchema body with
      | .error text => .returned (.error 400 text)
      | .ok patch => .update session id patch

/-- The author may delete, or an admin. -/
def checkDelete (session : Session) (id : Nat) : Option SolutionRow → SharingPc
  | none => .returned (.error 404 "Solution not found")
  | some existing =>
    if existing.userId ≠ session.userId ∧ session.role ≠ .admin then
      .returned (.error 403 "Forbidden")
    else .delete session id

/-- The next statement of a request, if its answer arrives. -/
def SharingPc.statement (db : SharingDb) : SharingPc → Option (SharingDb × SharingPc)
  | .findProblem session slug body =>
    some (db,
      match db.problems slug with
      | none => .returned (.error 404 "Problem not found")
      | some problemId =>
        match createSharedSolutionSchema body with
        | .error text => .returned (.error 400 text)
        | .ok fields => .findSubmission session problemId fields)
  | .findSubmission session problemId fields =>
    some (db, checkSubmission session problemId fields (db.findSubmission fields.submissionId))
  | .create input =>
    let (db', created) := db.createSolution input
    some (db', .returned (createResponse created))
  | .findToPatch session id body => some (db, checkPatch session id body (db.solutions.find id))
  | .update _ id patch =>
    match db.solutions.updateSolution db.now id patch with
    | none => some (db, .returned sharingFailed)
    | some (solutions, row) =>
      some ({ db with solutions := solutions }, .returned ⟨200, .solution row, none⟩)
  | .findToDelete session id => some (db, checkDelete session id (db.solutions.find id))
  | .delete _ id =>
    some ({ db with solutions := db.solutions.deleteWhere fun r => r.id = id },
      .returned ⟨200, .success, none⟩)
  | .returned _ => none

/-- What happens beside the requests: time passes, problems come and go, submissions are made,
judged and deleted together with their solutions, and votes are counted. -/
inductive SharingChange where
  | elapsed (ms : Nat)
  | problem (slug : String) (id : Option String)
  | submit (id : String) (row : SubmissionRow)
  | judge (id status : String)
  | deleteSubmission (id : String)
  | recount (id : Nat) (voteCount : Int)

def SharingDb.store (db : SharingDb) (id : String) (row : SubmissionRow) : SharingDb :=
  { db with
    submissions := Function.update db.submissions id (.stored row)
    accepted := if row.status = "accepted" then id :: db.accepted else db.accepted }

def SharingDb.change (db : SharingDb) : SharingChange → SharingDb
  | .elapsed ms => { db with now := db.now + ms }
  | .problem slug id => { db with problems := Function.update db.problems slug id }
  | .submit id row =>
    match db.submissions id with
    | .unused => db.store id row
    | _ => db
  | .judge id status =>
    match db.submissions id with
    | .stored row => db.store id { row with status := status }
    | _ => db
  | .deleteSubmission id =>
    match db.submissions id with
    | .stored _ =>
      { db with
        submissions := Function.update db.submissions id .deleted
        solutions := db.solutions.deleteWhere fun r => r.submissionId = id }
    | _ => db
  | .recount id voteCount =>
    { db with solutions := db.solutions.assign id [.voteCount voteCount] }

def sharingProgram : Program SharingDb SharingPc SharingRequest SharingChange Outcome where
  start := fun _ req => req.start
  ambient := SharingDb.change
  step := statementStep SharingPc.statement fun _ => .returned sharingFailed

section

variable {t : SolutionTable} {patch : SolutionPatch}

def SolutionPatch.assignments (patch : SolutionPatch) : List Assignment :=
  (patch.title.map .title).toList ++ (patch.writeup.map .writeup).toList

/-- Whichever fields are given, each clause is read with the text that belongs to it. -/
theorem sets_means (patch : SolutionPatch) (now : Nat) :
    patch.sets.Means (SetClause.read now) patch.assignments := by
  have htitle := (Statement.Means.empty (SetClause.read now)).bindSome patch.title .text .title
    Assignment.title fun v args n h => by
      rw [SetClause.read.eq_def]
      dsimp only
      rw [h]
  have hwriteup := htitle.bindSome patch.writeup .text .writeup
    Assignment.writeup fun v args n h => by
      rw [SetClause.read.eq_def]
      dsimp only
      rw [h]
  exact hwriteup

theorem sets_isEmpty (patch : SolutionPatch) :
    patch.sets.clauses.isEmpty = patch.assignments.isEmpty := by
  obtain ⟨title, writeup⟩ := patch
  cases title with
  | none | some => cases writeup with
    | none | some => rfl

/-- The `UPDATE` sets what the patch gives and the time, and nothing if it gives nothing. -/
theorem updateSolution_eq (t : SolutionTable) (now id : Nat) (patch : SolutionPatch) :
    t.updateSolution now id patch =
      if patch.assignments.isEmpty then some (t, t.find id)
      else
        some (t.assign id (patch.assignments ++ [.updatedAt now]),
          (t.assign id (patch.assignments ++ [.updatedAt now])).find id) := by
  have hmeans : (patch.sets.literal .updatedAt).Means (SetClause.read now)
      (patch.assignments ++ [.updatedAt now]) := (sets_means patch now).literal fun _ => rfl
  have hplace := argument_bound (patch.sets.literal .updatedAt).args (UpdateArg.solution id) []
  unfold SolutionTable.updateSolution
  dsimp only
  rw [sets_isEmpty]
  split
  next => rfl
  next =>
    rw [SolutionTable.update, hmeans, List.length_append, List.length_singleton, hplace]
    rfl

theorem find_some {id : Nat} (h : t.find id = some row) : row ∈ t.rows ∧ row.id = id :=
  ⟨List.mem_of_find?_eq_some h, by simpa using List.find?_some h⟩

theorem insert_some (h : t.insert row = some t') : t'.rows = t.rows ++ [row] := by
  unfold SolutionTable.insert at h
  split at h
  next =>
    cases h
    rfl
  next => cases h

theorem id_unique {row row' : SolutionRow} (h : row ∈ t.rows) (h' : row' ∈ t.rows)
    (hid : row.id = row'.id) : row = row' :=
  List.inj_on_of_nodup_map t.ids h h' hid

end

end Leetrank.Sharing
