import Leetrank.Judge.Handler
import Leetrank.Web.JudgeAgreement
import Leetrank.Web.JudgeHandler

namespace Leetrank
set_option autoImplicit true

variable {db : Db} {id : SubmissionId} {row : Submission} {outcome : FetchOutcome}

/-- One run of the handler in which no statement of the database fails, for one end of the call to
the judge. -/
def judgeOnce (db : Db) (id : SubmissionId) (outcome : FetchOutcome) : Option (Db × HandlerPc) :=
  (handlerStep db id .reading .done).bind fun (db, pc) =>
    (handlerStep db id pc .done).bind fun (db, pc) =>
      (handlerStep db id pc (.fetched outcome)).bind fun (db, pc) => handlerStep db id pc .done

def Submission.claimed (row : Submission) : Submission := { row with status := .judging }

theorem handlerStep_read_queued (hrow : db id = some row) (hs : row.status = .queued) :
    handlerStep db id .reading .done = some (db, .claiming row.judgeRequest) := by
  simp only [handlerStep, Db.findUnique, hrow, hs, if_true]

theorem handlerStep_claim_queued (hrow : db id = some row) (hs : row.status = .queued) :
    handlerStep db id (.claiming request) .done =
      some (Function.update db id (some row.claimed), .judging request) := by
  simp only [handlerStep, Db.updateMany, hrow, hs, if_true, Submission.claimed]

theorem judgeOnce_claimed (hrow : db id = some row) (hs : row.status = .queued) :
    judgeOnce db id outcome =
      (handlerStep (Function.update db id (some row.claimed)) id (.judging row.judgeRequest)
        (.fetched outcome)).bind fun (db, pc) => handlerStep db id pc .done := by
  simp only [judgeOnce, handlerStep_read_queued hrow hs, handlerStep_claim_queued hrow hs,
    Option.bind_some]

theorem judgeOnce_verdict (hrow : db id = some row) (hs : row.status = .queued)
    (ho : judgeOutcome (executeCode outcome) = .ok update) :
    ∃ db', judgeOnce db id outcome = some (db', .returned) ∧
      db' id = some (update.applyTo row) := by
  refine ⟨Function.update (Function.update db id (some row.claimed)) id
    (some (update.applyTo row.claimed)), ?_, Function.update_self ..⟩
  rw [judgeOnce_claimed hrow hs]
  simp only [handlerStep, ho, Option.bind_some, Db.update, Function.update_self, Option.map_some]

/-- With the judge unavailable the claim is rolled back and the row is as it was. -/
theorem judgeOnce_unavailable (hrow : db id = some row) (hs : row.status = .queued)
    (ho : judgeOutcome (executeCode outcome) = .error err) :
    ∃ db', judgeOnce db id outcome = some (db', .threw err) ∧ db' id = some row := by
  have hback : { row.claimed with status := .queued } = row := by
    cases row
    cases hs
    rfl
  refine ⟨Function.update (Function.update db id (some row.claimed)) id
    (some { row.claimed with status := .queued }), ?_, ?_⟩
  · rw [judgeOnce_claimed hrow hs]
    simp only [handlerStep, ho, Option.bind_some, Db.updateMany, Function.update_self]
    rfl
  · rw [Function.update_self, hback]

/-- The judge answered, and not that it is too busy, but without results that can be read. -/
def FetchOutcome.Refused : FetchOutcome → Prop
  | .rejected _ => False
  | .response status _ body =>
    if responseOk status then ∃ m, body = .malformed m else status ≠ 429 ∧ status ≠ 503

theorem executeCode_refused (h : outcome.Refused) :
    ∃ m, executeCode outcome = .error (.error m) := by
  cases outcome with
  | rejected => exact h.elim
  | response status text body =>
    cases hs : responseOk status with
    | false => exact ⟨_, by simp only [executeCode, hs, Bool.false_eq_true, if_false]; rfl⟩
    | true =>
      simp only [FetchOutcome.Refused, hs, if_true] at h
      obtain ⟨m, rfl⟩ := h
      exact ⟨m, by simp only [executeCode, hs, if_true]⟩

theorem judgeOnce_total (hrow : db id = some row) (hs : row.status = .queued)
    (outcome : FetchOutcome) : ∃ db' pc, judgeOnce db id outcome = some (db', pc) := by
  cases ho : judgeOutcome (executeCode outcome) with
  | ok update =>
    obtain ⟨db', hrun, _⟩ := judgeOnce_verdict hrow hs ho
    exact ⟨db', .returned, hrun⟩
  | error err =>
    obtain ⟨db', hrun, _⟩ := judgeOnce_unavailable hrow hs ho
    exact ⟨db', .threw err, hrun⟩

theorem judgeOnce_transient (hrow : db id = some row) (hs : row.status = .queued)
    (ht : outcome.transient = true) :
    ∃ db' m, judgeOnce db id outcome =
        some (db', .threw (JudgeError.judgeUnavailable m).text) ∧ db' id = some row := by
  obtain ⟨m, hm⟩ := executeCode_transient ht
  have ho : judgeOutcome (executeCode outcome) = .error (JudgeError.judgeUnavailable m).text := by
    rw [hm]
    rfl
  obtain ⟨db', hrun, hdb⟩ := judgeOnce_unavailable hrow hs ho
  exact ⟨db', m, hrun, hdb⟩

theorem judgeOnce_json (hrow : db id = some row) (hs : row.status = .queued)
    (hok : responseOk status = true) :
    ∃ db', judgeOnce db id (.response status text (.json data)) = some (db', .returned) ∧
      db' id = some ((terminalUpdate ⟨data.resultList, data.status.getD ""⟩).applyTo row) := by
  have ho : judgeOutcome (executeCode (.response status text (.json data))) =
      .ok (terminalUpdate ⟨data.resultList, data.status.getD ""⟩) := by
    rw [executeCode_json hok]
    rfl
  exact judgeOnce_verdict hrow hs ho

theorem judgeOnce_refused (hrow : db id = some row) (hs : row.status = .queued)
    (hr : outcome.Refused) :
    ∃ db' m, executeCode outcome = .error (.error m) ∧
      judgeOnce db id outcome = some (db', .returned) ∧
      db' id = some ((crashUpdate m).applyTo row) := by
  obtain ⟨m, hm⟩ := executeCode_refused hr
  have ho : judgeOutcome (executeCode outcome) = .ok (crashUpdate m) := by
    rw [hm]
    rfl
  obtain ⟨db', hrun, hdb⟩ := judgeOnce_verdict hrow hs ho
  exact ⟨db', m, hm, hrun, hdb⟩

/-- The worker leaves a submission queued and throws while the judge cannot be reached, writes the
verdict of a 2xx reply, and takes any other answer of the judge for an error of the run, whose text
it records. -/
theorem judgeOnce_status (hrow : db id = some row) (hs : row.status = .queued)
    (outcome : FetchOutcome) :
    ∃ db' pc, judgeOnce db id outcome = some (db', pc) ∧
      (outcome.transient = true →
        db' id = some row ∧ ∃ m, pc = .threw (JudgeError.judgeUnavailable m).text) ∧
      (∀ status text data, outcome = .response status text (.json data) →
        responseOk status = true → db' id =
            some ((terminalUpdate ⟨data.resultList, data.status.getD ""⟩).applyTo row) ∧
          pc = .returned) ∧
      (outcome.Refused → ∃ m, executeCode outcome = .error (.error m) ∧
        db' id = some { row with
          status := .runtimeError, runtime := none, error := some m, output := none } ∧
        pc = .returned) := by
  obtain ⟨db', pc, hrun⟩ := judgeOnce_total hrow hs outcome
  refine ⟨db', pc, hrun, ?_, ?_, ?_⟩
  · intro ht
    obtain ⟨_, m, hrun', hdb⟩ := judgeOnce_transient hrow hs ht
    cases hrun.symm.trans hrun'
    exact ⟨hdb, m, rfl⟩
  · rintro status text data rfl hok
    obtain ⟨_, hrun', hdb⟩ := judgeOnce_json hrow hs hok
    cases hrun.symm.trans hrun'
    exact ⟨hdb, rfl⟩
  · intro hr
    obtain ⟨_, m, hm, hrun', hdb⟩ := judgeOnce_refused hrow hs hr
    cases hrun.symm.trans hrun'
    exact ⟨m, hm, hdb, rfl⟩

def judgeAnswer (s : Server) (allowed : Bool) (acquireErr : Option String) (hosts : Nat → Host)
    (row : Submission) : FetchOutcome :=
  let reply := executeHandler s allowed (some row.judgeRequest.body) acquireErr hosts
  .response reply.1 none (.json reply.2.wire)

def crowdedRow : Submission :=
  { queuedRow with testCases := List.replicate 21 ⟨"1", "1"⟩ }

def crowdedDb : Db := fun id => if id = "s1" then some crowdedRow else none

theorem judgeOnce_status_refused :
    ∃ db' pc, judgeOnce crowdedDb "s1" refusedReply = some (db', pc) ∧
      (refusedReply.transient = true →
        db' "s1" = some crowdedRow ∧ ∃ m, pc = .threw (JudgeError.judgeUnavailable m).text) ∧
      (∀ status text data, refusedReply = .response status text (.json data) →
        responseOk status = true → db' "s1" =
            some ((terminalUpdate ⟨data.resultList, data.status.getD ""⟩).applyTo crowdedRow) ∧
          pc = .returned) ∧
      (refusedReply.Refused → ∃ m, executeCode refusedReply = .error (.error m) ∧
        db' "s1" = some { crowdedRow with
          status := .runtimeError, runtime := none, error := some m, output := none } ∧
        pc = .returned) :=
  judgeOnce_status rfl rfl refusedReply

/-- The judge turns a request with 21 tests away, and the worker records a verdict for it. -/
theorem verdict_without_evaluation :
    ¬ ∀ (s : Server) (allowed : Bool) (acquireErr : Option String) (hosts : Nat → Host) (db : Db)
      (id : SubmissionId) (row : Submission) (db' : Db) (pc : HandlerPc) (status : SubmissionStatus),
      db id = some row → row.status = .queued →
        judgeOnce db id (judgeAnswer s allowed acquireErr hosts row) = some (db', pc) →
        db'.status id = some status → status.Terminal →
          (executeHandler s allowed (some row.judgeRequest.body) acquireErr hosts).1 = 200 := by
  intro h
  let hosts : Nat → Host := fun _ => scriptedHost (0, "") (0, "1")
  have hcode : (executeHandler shippedServer true (some crowdedRow.judgeRequest.body) none
      hosts).1 = 400 := by
    decide +kernel
  have hrefused : (judgeAnswer shippedServer true none hosts crowdedRow).Refused := by
    have hok : responseOk 400 = false := by decide
    simp only [judgeAnswer, hcode, FetchOutcome.Refused, hok, Bool.false_eq_true, if_false]
    decide
  have hrow : crowdedDb "s1" = some crowdedRow := rfl
  obtain ⟨db', _, _, hrun, hdb⟩ := judgeOnce_refused hrow rfl hrefused
  have hs := h shippedServer true none hosts crowdedDb "s1" crowdedRow db' .returned .runtimeError
    rfl rfl hrun (Db.status_of_row hdb) (by decide)
  rw [hcode] at hs
  cases hs

end Leetrank
