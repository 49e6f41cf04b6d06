import Leetrank.Web.Verdict

namespace Leetrank
set_option autoImplicit true

abbrev SubmissionId := String

/-- A row of the `Submission` table, joined with the ordered test cases of its problem. -/
structure Submission where
  status : SubmissionStatus
  code : String
  language : String
  testCases : List TestCase
  runtime : Option Int
  error : Option String
  output : Option String
  createdAt : Int
  deriving DecidableEq

abbrev Db := SubmissionId → Option Submission

def Db.findUnique (db : Db) (id : SubmissionId) : Option Submission := db id

/-- `updateMany` on one id, guarded by the status; returns the number of rows changed. -/
def Db.updateMany (db : Db) (id : SubmissionId) (where_ data : SubmissionStatus) : Nat × Db :=
  match db id with
  | none => (0, db)
  | some row =>
    if row.status = where_ then (1, Function.update db id (some { row with status := data }))
    else (0, db)

def TerminalUpdate.applyTo (u : TerminalUpdate) (row : Submission) : Submission :=
  { row with status := u.status, runtime := u.runtime, error := u.error, output := u.output }

/-- `update` by id throws when the record is missing. -/
def Db.update (db : Db) (id : SubmissionId) (data : TerminalUpdate) : Option Db :=
  (db id).map fun row => Function.update db id (some (data.applyTo row))

def sweepRow (cutoff : Int) (row : Submission) : Submission :=
  if row.status = .judging ∧ row.createdAt < cutoff then
    { row with status := .failed, error := some "judge_timeout" }
  else row

def sweepStuck (db : Db) (cutoff : Int) : Db := fun id => (db id).map (sweepRow cutoff)

def Db.status (db : Db) (id : SubmissionId) : Option SubmissionStatus :=
  (db id).map Submission.status

variable {db db' : Db} {id : SubmissionId}

theorem Db.status_eq_some (h : db.status id = some s) :
    ∃ row, db id = some row ∧ row.status = s :=
  Option.map_eq_some_iff.1 h

theorem Db.status_eq_none : db.status id = none ↔ db id = none :=
  Option.map_eq_none_iff

theorem Db.status_of_row (h : db id = some row) : db.status id = some row.status := by
  rw [Db.status, h, Option.map_some]

@[simp] theorem Db.status_update_self (db : Db) (id : SubmissionId) (row : Submission) :
    Db.status (Function.update db id (some row)) id = some row.status := by
  rw [Db.status, Function.update_self, Option.map_some]

@[simp] theorem Db.status_update_of_ne (h : id' ≠ id) (row : Option Submission) :
    Db.status (Function.update db id row) id' = db.status id' := by
  rw [Db.status, Function.update_of_ne h, Db.status]

/-- A guarded update that finds its status changes that row's status alone. -/
theorem Db.updateMany_hit (h : db.status id = some s) :
    ∃ row, db id = some row ∧
      db.updateMany id s t = (1, Function.update db id (some { row with status := t })) := by
  obtain ⟨row, hrow, hs⟩ := Db.status_eq_some h
  refine ⟨row, hrow, ?_⟩
  simp only [Db.updateMany, hrow, hs, if_true]

theorem Db.updateMany_miss (h : db.status id ≠ some s) :
    db.updateMany id s t = (0, db) := by
  cases hrow : db id with
  | none => simp only [Db.updateMany, hrow]
  | some row =>
    have hs : row.status ≠ s := fun he => h (by rw [Db.status_of_row hrow, he])
    simp only [Db.updateMany, hrow, hs, if_false]

theorem Db.update_eq_some (h : db.update id u = some db') :
    ∃ row, db id = some row ∧ db' = Function.update db id (some (u.applyTo row)) := by
  obtain ⟨row, hrow, rfl⟩ := Option.map_eq_some_iff.1 h
  exact ⟨row, hrow, rfl⟩

theorem Db.update_eq_none : db.update id u = none ↔ db id = none :=
  Option.map_eq_none_iff

theorem sweepStuck_status (db : Db) (cutoff : Int) (id : SubmissionId) :
    (sweepStuck db cutoff).status id = db.status id ∨
      db.status id = some .judging ∧ (sweepStuck db cutoff).status id = some .failed := by
  cases hrow : db id with
  | none =>
    left
    simp only [Db.status, sweepStuck, hrow, Option.map_none]
  | some row =>
    by_cases h : row.status = .judging ∧ row.createdAt < cutoff
    · right
      simp only [Db.status, sweepStuck, hrow, Option.map_some, sweepRow, h, and_self, if_true]
    · left
      simp only [Db.status, sweepStuck, hrow, Option.map_some, sweepRow, h, if_false]

end Leetrank
