import Leetrank.Web.SubmissionStore

namespace Leetrank
set_option autoImplicit true

/-- The worker leaves the time limit of its request open. -/
def Submission.judgeRequest (row : Submission) : JudgeRequest where
  code := row.code
  language := row.language
  testCases := row.testCases
  timeLimit := none

/-- Where a run of the `judge-submission` handler waits for an answer. -/
inductive HandlerPc where
  | reading
  | claiming (request : JudgeRequest)
  | judging (request : JudgeRequest)
  | updating (update : TerminalUpdate)
  | rollingBack (err : String)
  | returned
  | threw (err : String)

/-- What a waiting run is answered: a statement of the database succeeds, throws without an effect,
or is carried out and throws all the same, and the call to the judge ends in some way. -/
inductive Reply where
  | done
  | rejected (message : String)
  | lost (message : String)
  | fetched (outcome : FetchOutcome)
  deriving DecidableEq

def Reply.takesEffect : Reply → Bool
  | .done | .lost _ => true
  | .rejected _ | .fetched _ => false

/-- The run lies between its successful claim and its rollback or final update. -/
def HandlerPc.holding : HandlerPc → Bool
  | .judging _ | .updating _ | .rollingBack _ => true
  | .reading | .claiming _ | .returned | .threw _ => false

def HandlerPc.finished : HandlerPc → Bool
  | .returned | .threw _ => true
  | .reading | .claiming _ | .judging _ | .updating _ | .rollingBack _ => false

def recordNotFound : String := "Record to update not found."

def handlerStep (db : Db) (id : SubmissionId) : HandlerPc → Reply → Option (Db × HandlerPc)
  | .reading, .done =>
    match db.findUnique id with
    | none => some (db, .returned)
    | some row =>
      if row.status = .queued then some (db, .claiming row.judgeRequest) else some (db, .returned)
  | .claiming request, .done =>
    match db.updateMany id .queued .judging with
    | (0, db') => some (db', .returned)
    | (_, db') => some (db', .judging request)
  | .judging _, .fetched outcome =>
    match judgeOutcome (executeCode outcome) with
    | .ok update => some (db, .updating update)
    | .error err => some (db, .rollingBack err)
  | .updating update, .done =>
    -- the one write of the handler without a guard on the status
    match db.update id update with
    | none => some (db, .threw recordNotFound)
    | some db' => some (db', .returned)
  | .rollingBack err, .done => some ((db.updateMany id .judging .queued).2, .threw err)
  | .reading, .rejected message => some (db, .threw message)
  | .claiming _, .rejected message => some (db, .threw message)
  | .updating _, .rejected message => some (db, .threw message)
  | .rollingBack _, .rejected message => some (db, .threw message)
  | .reading, .lost message => some (db, .threw message)
  | .claiming _, .lost message => some ((db.updateMany id .queued .judging).2, .threw message)
  | .updating update, .lost message => some ((db.update id update).getD db, .threw message)
  | .rollingBack _, .lost message => some ((db.updateMany id .judging .queued).2, .threw message)
  | _, _ => none

/-- Everything a reply can do to the row and to the run that waits for it. -/
inductive HandlerStep (db : Db) (id : SubmissionId) :
    HandlerPc → Reply → Db → HandlerPc → Prop where
  | advance (hpc : pc.holding = pc'.holding) (hlive : pc'.finished = false) :
      HandlerStep db id pc r db pc'
  | skip (hpc : pc.holding = false) (hs : db.status id ≠ some .queued) :
      HandlerStep db id pc r db .returned
  | fail (hpc : pc.holding = false) : HandlerStep db id pc r db (.threw err)
  | claim (hrow : db id = some row) (hs : db.status id = some .queued) :
      HandlerStep db id (.claiming request) .done
        (Function.update db id (some { row with status := .judging })) (.judging request)
  | claimLost (hrow : db id = some row) (hs : db.status id = some .queued) :
      HandlerStep db id (.claiming request) (.lost message)
        (Function.update db id (some { row with status := .judging })) (.threw message)
  | reopen (hrow : db id = some row) (hs : db.status id = some .judging)
      (hr : r.takesEffect = true) :
      HandlerStep db id (.rollingBack err) r
        (Function.update db id (some { row with status := .queued })) (.threw err')
  | settle (hrow : db id = some row) (hr : r.takesEffect = true) (hpc : pc'.finished = true) :
      HandlerStep db id (.updating update) r
        (Function.update db id (some (update.applyTo row))) pc'
  | abandon (hpc : pc.holding = true)
      (hr : (∃ m, r = .rejected m) ∨ db.status id ≠ some .judging) :
      HandlerStep db id pc r db (.threw err)

variable {db db' : Db} {id : SubmissionId} {pc pc' : HandlerPc}

theorem handlerStep_reading (h : handlerStep db id .reading r = some (db', pc')) :
    HandlerStep db id .reading r db' pc' := by
  cases r with
  | done =>
    simp only [handlerStep, Db.findUnique] at h
    cases hrow : db id with
    | none =>
      rw [hrow] at h
      cases h
      apply HandlerStep.skip rfl
      rw [Db.status_eq_none.2 hrow]
      simp
    | some row =>
      simp only [hrow] at h
      split at h
      · cases h
        exact .advance rfl rfl
      next hs =>
        cases h
        apply HandlerStep.skip rfl
        rw [Db.status_of_row hrow]
        intro he
        exact hs (Option.some.inj he)
  | rejected | lost =>
    cases h
    exact .fail rfl
  | fetched => cases h

theorem handlerStep_claiming (h : handlerStep db id (.claiming request) r = some (db', pc')) :
    HandlerStep db id (.claiming request) r db' pc' := by
  cases r with
  | done =>
    simp only [handlerStep] at h
    by_cases hs : db.status id = some .queued
    · obtain ⟨row, hrow, hu⟩ := Db.updateMany_hit (t := .judging) hs
      rw [hu] at h
      cases h
      exact .claim hrow hs
    · rw [Db.updateMany_miss hs] at h
      cases h
      exact .skip rfl hs
  | lost message =>
    simp only [handlerStep] at h
    by_cases hs : db.status id = some .queued
    · obtain ⟨row, hrow, hu⟩ := Db.updateMany_hit (t := .judging) hs
      rw [hu] at h
      cases h
      exact .claimLost hrow hs
    · rw [Db.updateMany_miss hs] at h
      cases h
      exact .fail rfl
  | rejected message =>
    cases h
    exact .fail rfl
  | fetched => cases h

theorem handlerStep_judging (h : handlerStep db id (.judging request) r = some (db', pc')) :
    HandlerStep db id (.judging request) r db' pc' := by
  cases r with
  | fetched outcome =>
    simp only [handlerStep] at h
    cases ho : judgeOutcome (executeCode outcome) with
    | ok update =>
      rw [ho] at h
      cases h
      exact .advance rfl rfl
    | error err =>
      rw [ho] at h
      cases h
      exact .advance rfl rfl
  | done | rejected | lost => cases h

theorem Db.status_ne_of_update {db : Db} (h : db.update id new = none) :
    db.status id ≠ some .judging := by
  rw [Db.status_eq_none.2 (Db.update_eq_none.1 h)]
  simp

theorem handlerStep_updating (h : handlerStep db id (.updating update) r = some (db', pc')) :
    HandlerStep db id (.updating update) r db' pc' := by
  cases r with
  | done =>
    simp only [handlerStep] at h
    cases hu : db.update id update with
    | none =>
      rw [hu] at h
      cases h
      exact .abandon rfl (.inr (Db.status_ne_of_update hu))
    | some db₁ =>
      rw [hu] at h
      cases h
      obtain ⟨row, hrow, rfl⟩ := Db.update_eq_some hu
      exact .settle hrow rfl rfl
  | lost message =>
    simp only [handlerStep] at h
    cases hu : db.update id update with
    | none =>
      rw [hu] at h
      cases h
      exact .abandon rfl (.inr (Db.status_ne_of_update hu))
    | some db₁ =>
      rw [hu] at h
      cases h
      obtain ⟨row, hrow, rfl⟩ := Db.update_eq_some hu
      exact .settle hrow rfl rfl
  | rejected message =>
    cases h
    exact .abandon rfl (.inl ⟨message, rfl⟩)
  | fetched => cases h

theorem handlerStep_rollingBack (h : handlerStep db id (.rollingBack err) r = some (db', pc')) :
    HandlerStep db id (.rollingBack err) r db' pc' := by
  cases r with
  | done | lost =>
    simp only [handlerStep] at h
    by_cases hs : db.status id = some .judging
    · obtain ⟨row, hrow, hu⟩ := Db.updateMany_hit (t := .queued) hs
      rw [hu] at h
      cases h
      exact .reopen hrow hs rfl
    · rw [Db.updateMany_miss hs] at h
      cases h
      exact .abandon rfl (.inr hs)
  | rejected message =>
    cases h
    exact .abandon rfl (.inl ⟨message, rfl⟩)
  | fetched => cases h

theorem handlerStep_cases (h : handlerStep db id pc r = some (db', pc')) :
    HandlerStep db id pc r db' pc' := by
  cases pc with
  | reading => exact handlerStep_reading h
  | claiming => exact handlerStep_claiming h
  | judging => exact handlerStep_judging h
  | updating => exact handlerStep_updating h
  | rollingBack => exact handlerStep_rollingBack h
  | returned | threw => cases h

theorem HandlerStep.row_of_ne (h : HandlerStep db id pc r db' pc') (hne : id' ≠ id) :
    db' id' = db id' := by
  cases h with
  | advance | skip | fail | abandon => rfl
  | claim | claimLost | reopen | settle => rw [Function.update_of_ne hne]

theorem HandlerStep.status_of_ne (h : HandlerStep db id pc r db' pc') (hne : id' ≠ id) :
    db'.status id' = db.status id' := by
  rw [Db.status, h.row_of_ne hne, Db.status]

/-- The final update is not guarded: it writes its verdict over any status. -/
theorem handlerStep_final (h : handlerStep db id (.updating update) r = some (db', pc'))
    (hr : r.takesEffect = true) (hs : db.status id = some s) :
    db'.status id = some update.status := by
  obtain ⟨row, hrow, _⟩ := Db.status_eq_some hs
  have hwritten {db₁ : Db} (hu : db.update id update = some db₁) :
      db₁.status id = some update.status := by
    obtain ⟨row, _, rfl⟩ := Db.update_eq_some hu
    exact Db.status_update_self db id _
  cases hu : db.update id update with
  | none =>
    rw [Db.update_eq_none.1 hu] at hrow
    cases hrow
  | some db₁ =>
    cases r with
    | done | lost =>
      simp only [handlerStep, hu] at h
      cases h
      exact hwritten hu
    | rejected | fetched => cases hr

def queuedRow : Submission :=
  ⟨.queued, "print(input())", "python", [⟨"1", "1"⟩], none, none, none, 0⟩

def acceptedReply : FetchOutcome :=
  .response 200 none
    (.json ⟨some [⟨some true, some "1", some "1", some "1", some 12, none⟩], some "accepted"⟩)

def refusedReply : FetchOutcome :=
  .rejected ⟨"TypeError", "fetch failed", none, some "ECONNREFUSED"⟩

end Leetrank
