import Leetrank.Solutions.Sharing

namespace Leetrank.Sharing
set_option autoImplicit true

open EventMachine Js Statements Threads

/-- What is known of a submission that was found: it belongs to the user, the problem and the
language, or is gone. -/
def SubmissionSlot.Fits (userId problemId language : String) : SubmissionSlot → Prop
  | .unused => False
  | .stored row => row.userId = userId ∧ row.problemId = problemId ∧ row.language = language
  | .deleted => True

/-- A row stands for a submission of its user that was accepted on its problem. -/
structure SolutionRow.Backed (db : SharingDb) (r : SolutionRow) : Prop where
  submission : ∃ row, db.submissions r.submissionId = .stored row ∧ row.userId = r.userId ∧
    row.problemId = r.problemId ∧ row.language = r.language
  accepted : r.submissionId ∈ db.accepted
  title : titleSchema.Accepts r.title
  writeup : writeupSchema.Accepts r.writeup
  times : r.createdAt ≤ r.updatedAt ∧ r.updatedAt ≤ db.now

structure SharingDb.Sound (db : SharingDb) : Prop where
  backed : ∀ r ∈ db.solutions.rows, r.Backed db
  drawn : ∀ r ∈ db.solutions.rows, r.id < db.drawn
  accepted : ∀ id row, db.submissions id = .stored row → row.status = "accepted" →
    id ∈ db.accepted

def SharingDb.IsAccepted (db : SharingDb) (id : String) : Prop :=
  ∃ row, db.submissions id = .stored row ∧ row.status = "accepted"

/-- At the start nothing is said to have been accepted but what is, and what was shared. -/
structure SharingStart (db : SharingDb) : Prop where
  sound : db.Sound
  accepted : ∀ id ∈ db.accepted,
    db.IsAccepted id ∨ ∃ r ∈ db.solutions.rows, r.submissionId = id

def sharing : Machine (World SharingDb SharingPc) (Event SharingRequest SharingChange Outcome) :=
  sharingProgram.machine SharingStart

/-- Whatever happens, submissions stay what they are until they are gone, and so do solutions. -/
structure SharingDb.Later (db db' : SharingDb) : Prop where
  submissions : ∀ id userId problemId language,
    (db.submissions id).Fits userId problemId language →
      (db'.submissions id).Fits userId problemId language
  accepted : ∀ id ∈ db.accepted, id ∈ db'.accepted
  drawn : db.drawn ≤ db'.drawn
  now : db.now ≤ db'.now
  rows : ∀ r' ∈ db'.solutions.rows, r'.id < db.drawn →
    ∃ r ∈ db.solutions.rows, r.id = r'.id ∧ r.userId = r'.userId

/-- The user of a row, if it is still there, satisfies a condition. -/
def SharingDb.Authored (db : SharingDb) (id : Nat) (C : String → Prop) : Prop :=
  id < db.drawn ∧ ∀ r ∈ db.solutions.rows, r.id = id → C r.userId

def SolutionPatch.Valid (patch : SolutionPatch) : Prop :=
  (∀ v ∈ patch.title, titleSchema.Accepts v) ∧ ∀ v ∈ patch.writeup, writeupSchema.Accepts v

/-- What a request has checked before its next statement. -/
def Checked (db : SharingDb) : SharingPc → Prop
  | .findSubmission _ _ fields =>
    titleSchema.Accepts fields.title ∧ writeupSchema.Accepts fields.writeup
  | .create input =>
    (db.submissions input.submissionId).Fits input.userId input.problemId input.language ∧
      input.submissionId ∈ db.accepted ∧ titleSchema.Accepts input.title ∧
        writeupSchema.Accepts input.writeup
  | .update session id patch => patch.Valid ∧ db.Authored id fun user => user = session.userId
  | .delete session id =>
    db.Authored id fun user => user = session.userId ∨ session.role = .admin
  | _ => True

/-- What an assignment may set in a table whose rows are sound. -/
def Assignment.Allowed (db : SharingDb) : Assignment → Prop
  | .title v => titleSchema.Accepts v
  | .writeup v => writeupSchema.Accepts v
  | .updatedAt t => t = db.now
  | .voteCount _ => True

section

variable {db db' : SharingDb} {schema : TextSchema}

theorem TextSchema.parse_ok {field : JsonField} (h : schema.parse field = .ok v) :
    schema.Accepts v := by
  unfold TextSchema.parse at h
  split at h
  next => cases h
  next => cases h
  next s =>
    split at h
    next => cases h
    next hmin =>
      split at h
      next => cases h
      next hmax =>
        cases h
        exact ⟨Nat.not_lt.1 hmin, Nat.not_lt.1 hmax⟩

theorem TextSchema.optional_ok {field : JsonField} (h : schema.plain.optional field = .ok o) :
    ∀ v ∈ o, schema.Accepts v := by
  have hparse : ∀ field, (schema.plain.parse field).map some = .ok o →
      ∀ v ∈ o, schema.plain.Accepts v := by
    intro field hmap
    cases hp : schema.plain.parse field with
    | error =>
      rw [hp] at hmap
      cases hmap
    | ok v =>
      rw [hp] at hmap
      cases hmap
      rintro _ ⟨⟩
      exact TextSchema.parse_ok hp
  cases field with
  | missing =>
    cases h
    nofun
  | text s => exact hparse (.text s) h
  | other received => exact hparse (.other received) h

theorem createSharedSolutionSchema_ok (h : createSharedSolutionSchema body = .ok fields) :
    titleSchema.Accepts fields.title ∧ writeupSchema.Accepts fields.writeup := by
  cases body with
  | notJson | other => cases h
  | object submissionId title writeup =>
    obtain ⟨_, -, h⟩ := bind_eq_ok.1 h
    obtain ⟨_, htitle, h⟩ := bind_eq_ok.1 h
    obtain ⟨_, hwriteup, h⟩ := bind_eq_ok.1 h
    cases h
    exact ⟨TextSchema.parse_ok htitle, TextSchema.parse_ok hwriteup⟩

theorem updateSharedSolutionSchema_ok (h : updateSharedSolutionSchema body = .ok patch) :
    patch.Valid := by
  cases body with
  | notJson | other => cases h
  | object submissionId title writeup =>
    obtain ⟨_, htitle, h⟩ := bind_eq_ok.1 h
    obtain ⟨_, hwriteup, h⟩ := bind_eq_ok.1 h
    cases h
    exact ⟨TextSchema.optional_ok htitle, TextSchema.optional_ok hwriteup⟩

theorem SharingDb.Later.refl (db : SharingDb) : db.Later db :=
  ⟨fun _ _ _ _ h => h, fun _ h => h, Nat.le_refl _, Nat.le_refl _, fun r h _ => ⟨r, h, rfl, rfl⟩⟩

theorem SharingDb.Authored.later {id : Nat} {C : String → Prop} (h : db.Authored id C)
    (hl : db.Later db') : db'.Authored id C := by
  refine ⟨h.1.trans_le hl.drawn, ?_⟩
  rintro r' hr' rfl
  obtain ⟨r, hr, hid, huser⟩ := hl.rows r' hr' h.1
  exact huser ▸ h.2 r hr hid

theorem Checked.later (h : Checked db pc) (hl : db.Later db') : Checked db' pc := by
  cases pc with
  | findProblem | findSubmission | findToPatch | findToDelete | returned => exact h
  | create input =>
    obtain ⟨hfits, hacc, htexts⟩ := h
    exact ⟨hl.submissions _ _ _ _ hfits, hl.accepted _ hacc, htexts⟩
  | update session id patch => exact ⟨h.1, h.2.later hl⟩
  | delete session id =>
    have hauthored : db.Authored id fun user => user = session.userId ∨ session.role = .admin := h
    exact hauthored.later hl

theorem SolutionRow.Backed.assign {r : SolutionRow} (h : r.Backed db) {sets : List Assignment}
    (hsets : ∀ x ∈ sets, x.Allowed db) :
    (Sharing.assign sets r).Backed db := by
  unfold Sharing.assign
  induction sets generalizing r with
  | nil => exact h
  | cons x sets ih =>
    rw [List.forall_mem_cons] at hsets
    refine ih ?_ hsets.2
    cases x with
    | title v => exact ⟨h.submission, h.accepted, hsets.1, h.writeup, h.times⟩
    | writeup v => exact ⟨h.submission, h.accepted, h.title, hsets.1, h.times⟩
    | updatedAt t =>
      have ht : t = db.now := hsets.1
      exact ⟨h.submission, h.accepted, h.title, h.writeup, ht ▸ h.times.1.trans h.times.2,
        ht ▸ Nat.le_refl _⟩
    | voteCount n => exact ⟨h.submission, h.accepted, h.title, h.writeup, h.times⟩

theorem SolutionRow.Backed.later {r : SolutionRow} (h : r.Backed db) (hnow : db.now ≤ db'.now)
    (haccepted : ∀ id ∈ db.accepted, id ∈ db'.accepted)
    (hslot : ∀ row, db.submissions r.submissionId = .stored row →
      ∃ row', db'.submissions r.submissionId = .stored row' ∧ row'.userId = row.userId ∧
        row'.problemId = row.problemId ∧ row'.language = row.language) : r.Backed db' := by
  obtain ⟨⟨row, hrow, huser, hproblem, hlanguage⟩, hacc, htitle, hwriteup, hcreated, hupdated⟩ := h
  obtain ⟨row', hrow', huser', hproblem', hlanguage'⟩ := hslot row hrow
  exact ⟨⟨row', hrow', huser'.trans huser, hproblem'.trans hproblem, hlanguage'.trans hlanguage⟩,
    haccepted _ hacc, htitle, hwriteup, hcreated, hupdated.trans hnow⟩

/-- An `UPDATE` of a row. -/
theorem SharingDb.Sound.assign (h : db.Sound) {id : Nat} {sets : List Assignment}
    (hsets : ∀ x ∈ sets, x.Allowed db) :
    SharingDb.Sound { db with solutions := db.solutions.assign id sets } ∧
      db.Later { db with solutions := db.solutions.assign id sets } := by
  have hrows : ∀ r' ∈ (db.solutions.assign id sets).rows, ∃ r ∈ db.solutions.rows,
      r.Same r' ∧ r'.Backed db := by
    intro r' hr'
    obtain ⟨r, hr, rfl⟩ := List.mem_map.1 hr'
    refine ⟨r, hr, ?_⟩
    split
    next => exact ⟨same_assign sets r, (h.backed r hr).assign hsets⟩
    next => exact ⟨.refl r, h.backed r hr⟩
  constructor
  · constructor
    · intro r' hr'
      obtain ⟨r, hr, -, hbacked⟩ := hrows r' hr'
      exact ⟨hbacked.submission, hbacked.accepted, hbacked.title, hbacked.writeup, hbacked.times⟩
    · intro r' hr'
      obtain ⟨r, hr, hsame, -⟩ := hrows r' hr'
      exact hsame.id ▸ h.drawn r hr
    · exact h.accepted
  · refine ⟨fun _ _ _ _ h => h, fun _ h => h, Nat.le_refl _, Nat.le_refl _, fun r' hr' _ => ?_⟩
    obtain ⟨r, hr, hsame, -⟩ := hrows r' hr'
    exact ⟨r, hr, hsame.id.symm, hsame.userId.symm⟩

theorem SharingDb.Sound.delete (h : db.Sound) (f : SolutionRow → Bool) :
    SharingDb.Sound { db with solutions := db.solutions.deleteWhere f } ∧
      db.Later { db with solutions := db.solutions.deleteWhere f } := by
  have hrows : ∀ r ∈ (db.solutions.deleteWhere f).rows, r ∈ db.solutions.rows :=
    fun r hr => (List.mem_filter.1 hr).1
  constructor
  · constructor
    · intro r hr
      exact (h.backed r (hrows r hr)).later (Nat.le_refl _) (fun _ h => h) fun row hrow =>
        ⟨row, hrow, rfl, rfl, rfl⟩
    · exact fun r hr => h.drawn r (hrows r hr)
    · exact h.accepted
  · exact ⟨fun _ _ _ _ h => h, fun _ h => h, Nat.le_refl _, Nat.le_refl _, fun r hr _ =>
      ⟨r, hrows r hr, rfl, rfl⟩⟩

theorem createSolution_cases (db : SharingDb) (input : CreateSolutionInput) :
    (∃ solutions row, db.solutions.insert (input.row db.drawn db.now) = some solutions ∧
        db.submissions input.submissionId = .stored row ∧
        db.createSolution input =
          ({ db with drawn := db.drawn + 1, solutions := solutions },
            .ok (input.row db.drawn db.now))) ∨
      ∃ error, db.createSolution input = ({ db with drawn := db.drawn + 1 }, .error error) := by
  cases hinsert : db.solutions.insert (input.row db.drawn db.now) with
  | none =>
    refine .inr ⟨.unique, ?_⟩
    simp only [SharingDb.createSolution, hinsert]
  | some solutions =>
    cases hslot : db.submissions input.submissionId with
    | unused | deleted =>
      refine .inr ⟨.foreignKey, ?_⟩
      simp only [SharingDb.createSolution, hinsert, hslot]
    | stored row =>
      refine .inl ⟨solutions, row, rfl, rfl, ?_⟩
      simp only [SharingDb.createSolution, hinsert, hslot]

theorem SharingDb.Sound.create (h : db.Sound) (hc : Checked db (.create input)) :
    (db.createSolution input).1.Sound ∧ db.Later (db.createSolution input).1 := by
  obtain ⟨hfits, hacc, htitle, hwriteup⟩ := hc
  obtain ⟨solutions, row, hinsert, hslot, heq⟩ | ⟨error, heq⟩ := createSolution_cases db input
  · have hrows := insert_some hinsert
    rw [heq]
    rw [hslot] at hfits
    have hnew : (input.row db.drawn db.now).Backed db :=
      ⟨⟨row, hslot, hfits⟩, hacc, htitle, hwriteup, Nat.le_refl _, Nat.le_refl _⟩
    have hcases : ∀ r ∈ solutions.rows,
        r ∈ db.solutions.rows ∨ r = input.row db.drawn db.now := by
      intro r hr
      rw [hrows] at hr
      exact (List.mem_append.1 hr).imp_right List.mem_singleton.1
    constructor
    · constructor
      · intro r hr
        have hold : r.Backed db := (hcases r hr).elim (h.backed r) fun hr => hr ▸ hnew
        exact hold.later (Nat.le_refl _) (fun _ h => h) fun row hrow => ⟨row, hrow, rfl, rfl, rfl⟩
      · intro r hr
        rcases hcases r hr with hr | rfl
        · exact Nat.lt_succ_of_lt (h.drawn r hr)
        · exact Nat.lt_succ_self _
      · exact h.accepted
    · refine ⟨fun _ _ _ _ h => h, fun _ h => h, Nat.le_succ _, Nat.le_refl _, fun r hr hlt => ?_⟩
      rcases hcases r hr with hr | rfl
      · exact ⟨r, hr, rfl, rfl⟩
      · exact absurd hlt (Nat.lt_irrefl _)
  · rw [heq]
    constructor
    · constructor
      · exact fun r hr => (h.backed r hr).later (Nat.le_refl _) (fun _ h => h) fun row hrow =>
          ⟨row, hrow, rfl, rfl, rfl⟩
      · exact fun r hr => Nat.lt_succ_of_lt (h.drawn r hr)
      · exact h.accepted
    · exact ⟨fun _ _ _ _ h => h, fun _ h => h, Nat.le_succ _, Nat.le_refl _, fun r hr _ =>
        ⟨r, hr, rfl, rfl⟩⟩

/-- A submission is made, or judged again. -/
theorem SharingDb.Sound.store (h : db.Sound) {id : String} {row : SubmissionRow}
    (hslot : ∀ old, db.submissions id = .stored old → row.userId = old.userId ∧
      row.problemId = old.problemId ∧ row.language = old.language)
    (hnot : db.submissions id ≠ .deleted) :
    (db.store id row).Sound ∧ db.Later (db.store id row) := by
  have hacc : ∀ i ∈ db.accepted, i ∈ (db.store id row).accepted := by
    intro i hi
    unfold SharingDb.store
    dsimp only
    split
    next => exact List.mem_cons_of_mem _ hi
    next => exact hi
  have hkept : ∀ i old, db.submissions i = .stored old →
      ∃ new, (db.store id row).submissions i = .stored new ∧ new.userId = old.userId ∧
        new.problemId = old.problemId ∧ new.language = old.language := by
    intro i old hold
    by_cases hi : i = id
    · subst hi
      exact ⟨row, Function.update_self .., hslot old hold⟩
    · exact ⟨old, (Function.update_of_ne hi _ _).trans hold, rfl, rfl, rfl⟩
  constructor
  · constructor
    · exact fun r hr => (h.backed r hr).later (Nat.le_refl _) hacc fun old => hkept _ old
    · exact h.drawn
    · intro i r hr hstatus
      by_cases hi : i = id
      · subst hi
        have hself : (db.store i row).submissions i = .stored row := Function.update_self ..
        rw [hself] at hr
        cases hr
        unfold SharingDb.store
        rw [if_pos hstatus]
        exact List.mem_cons_self
      · have hother : (db.store id row).submissions i = db.submissions i :=
          Function.update_of_ne hi _ _
        exact hacc i (h.accepted i r (hother ▸ hr) hstatus)
  · refine ⟨?_, hacc, Nat.le_refl _, Nat.le_refl _, fun r hr _ => ⟨r, hr, rfl, rfl⟩⟩
    intro i u p l hfits
    cases hi : db.submissions i with
    | unused =>
      rw [hi] at hfits
      exact hfits.elim
    | stored old =>
      rw [hi] at hfits
      obtain ⟨new, hnew, huser, hproblem, hlanguage⟩ := hkept i old hi
      rw [hnew]
      exact ⟨huser.trans hfits.1, hproblem.trans hfits.2.1, hlanguage.trans hfits.2.2⟩
    | deleted =>
      have hne : i ≠ id := by
        rintro rfl
        exact hnot hi
      have hother : (db.store id row).submissions i = db.submissions i :=
        Function.update_of_ne hne _ _
      rw [hother]
      exact hfits

/-- A submission is deleted together with its solution. -/
theorem SharingDb.Sound.cascade (h : db.Sound) (id : String) :
    SharingDb.Sound { db with
      submissions := Function.update db.submissions id .deleted
      solutions := db.solutions.deleteWhere fun r => r.submissionId = id } ∧
    db.Later { db with
      submissions := Function.update db.submissions id .deleted
      solutions := db.solutions.deleteWhere fun r => r.submissionId = id } := by
  have hrows : ∀ r ∈ (db.solutions.deleteWhere fun r => r.submissionId = id).rows,
      r ∈ db.solutions.rows ∧ r.submissionId ≠ id := by
    intro r hr
    obtain ⟨hr, hne⟩ := List.mem_filter.1 hr
    exact ⟨hr, by simpa using hne⟩
  have hother : ∀ i, i ≠ id →
      Function.update db.submissions id SubmissionSlot.deleted i = db.submissions i :=
    fun i hi => Function.update_of_ne hi _ _
  constructor
  · constructor
    · intro r hr
      obtain ⟨hr, hne⟩ := hrows r hr
      exact (h.backed r hr).later (Nat.le_refl _) (fun _ h => h) fun row hrow =>
        ⟨row, (hother _ hne).trans hrow, rfl, rfl, rfl⟩
    · exact fun r hr => h.drawn r (hrows r hr).1
    · intro i row hi hstatus
      change Function.update db.submissions id SubmissionSlot.deleted i = .stored row at hi
      by_cases hid : i = id
      · rw [hid, Function.update_self] at hi
        cases hi
      · rw [hother i hid] at hi
        exact h.accepted i row hi hstatus
  · refine ⟨?_, fun _ h => h, Nat.le_refl _, Nat.le_refl _, fun r hr _ =>
      ⟨r, (hrows r hr).1, rfl, rfl⟩⟩
    intro i u p l hfits
    change (Function.update db.submissions id SubmissionSlot.deleted i).Fits u p l
    by_cases hid : i = id
    · rw [hid, Function.update_self]
      trivial
    · rw [hother i hid]
      exact hfits

theorem SharingDb.Sound.change (h : db.Sound) (x : SharingChange) :
    (db.change x).Sound ∧ db.Later (db.change x) := by
  unfold SharingDb.change
  cases x with
  | elapsed ms =>
    have hnow : db.now ≤ db.now + ms := Nat.le_add_right ..
    refine ⟨⟨?_, h.drawn, h.accepted⟩, fun _ _ _ _ h => h, fun _ h => h, Nat.le_refl _, hnow,
      fun r hr _ => ⟨r, hr, rfl, rfl⟩⟩
    exact fun r hr => (h.backed r hr).later hnow (fun _ h => h) fun row hrow =>
      ⟨row, hrow, rfl, rfl, rfl⟩
  | problem slug id =>
    refine ⟨⟨?_, h.drawn, h.accepted⟩, fun _ _ _ _ h => h, fun _ h => h, Nat.le_refl _,
      Nat.le_refl _, fun r hr _ => ⟨r, hr, rfl, rfl⟩⟩
    exact fun r hr => (h.backed r hr).later (Nat.le_refl _) (fun _ h => h) fun row hrow =>
      ⟨row, hrow, rfl, rfl, rfl⟩
  | submit id row =>
    dsimp only
    split
    next hslot =>
      exact h.store (fun old hold => nomatch hslot.symm.trans hold) (by rw [hslot]; nofun)
    next => exact ⟨h, .refl db⟩
  | judge id status =>
    dsimp only
    split
    next row hslot =>
      refine h.store (fun old hold => ?_) (by rw [hslot]; nofun)
      cases hslot.symm.trans hold
      exact ⟨rfl, rfl, rfl⟩
    next => exact ⟨h, .refl db⟩
  | deleteSubmission id =>
    dsimp only
    split
    next => exact h.cascade id
    next => exact ⟨h, .refl db⟩
  | recount id voteCount =>
    refine h.assign fun x hx => ?_
    rw [List.mem_singleton.1 hx]
    trivial

theorem SharingDb.Sound.updateSolution (h : db.Sound) {id : Nat} (hpatch : patch.Valid)
    (hu : db.solutions.updateSolution db.now id patch = some (t', row)) :
    SharingDb.Sound { db with solutions := t' } ∧ db.Later { db with solutions := t' } := by
  rw [updateSolution_eq] at hu
  split at hu
  next =>
    cases hu
    exact ⟨h, .refl db⟩
  next =>
    cases hu
    refine h.assign fun x hx => ?_
    rcases List.mem_append.1 hx with hx | hx
    · rcases List.mem_append.1 hx with hx | hx
      · obtain ⟨v, hv, rfl⟩ := Option.map_eq_some_iff.1 (Option.mem_toList.1 hx)
        exact hpatch.1 v hv
      · obtain ⟨v, hv, rfl⟩ := Option.map_eq_some_iff.1 (Option.mem_toList.1 hx)
        exact hpatch.2 v hv
    · rw [List.mem_singleton.1 hx]
      rfl

theorem checked_submission (h : db.Sound) {fields : SharedFields}
    (hf : titleSchema.Accepts fields.title ∧ writeupSchema.Accepts fields.writeup)
    (session : Session) (problemId : String) :
    Checked db
      (checkSubmission session problemId fields (db.findSubmission fields.submissionId)) := by
  unfold SharingDb.findSubmission checkSubmission
  cases hslot : db.submissions fields.submissionId with
  | unused | deleted => trivial
  | stored row =>
    dsimp only
    split
    next => trivial
    next hproblem =>
      split
      next => trivial
      next huser =>
        split
        next => trivial
        next hstatus =>
          refine ⟨?_, h.accepted _ row hslot (not_not.1 hstatus), hf⟩
          rw [hslot]
          exact ⟨not_not.1 huser, not_not.1 hproblem, rfl⟩

theorem authored_of_find (h : db.Sound) {id : Nat} {C : String → Prop}
    (hfind : db.solutions.find id = some existing) (hC : C existing.userId) :
    db.Authored id C := by
  obtain ⟨hmem, rfl⟩ := find_some hfind
  refine ⟨h.drawn existing hmem, fun r hr hid => ?_⟩
  rw [id_unique hr hmem hid]
  exact hC

theorem checked_patch (h : db.Sound) (session : Session) (id : Nat) (body : SolutionBody) :
    Checked db (checkPatch session id body (db.solutions.find id)) := by
  unfold checkPatch
  cases hfind : db.solutions.find id with
  | none => trivial
  | some existing =>
    dsimp only
    split
    next => trivial
    next huser =>
      cases hbody : updateSharedSolutionSchema body with
      | error => trivial
      | ok patch =>
        exact ⟨updateSharedSolutionSchema_ok hbody, authored_of_find h hfind (not_not.1 huser)⟩

theorem checked_delete (h : db.Sound) (session : Session) (id : Nat) :
    Checked db (checkDelete session id (db.solutions.find id)) := by
  unfold checkDelete
  cases hfind : db.solutions.find id with
  | none => trivial
  | some existing =>
    dsimp only
    split
    next => trivial
    next hallowed =>
      refine authored_of_find h hfind (C := fun user => user = session.userId ∨ _) ?_
      rwa [not_and_or, not_not, not_not] at hallowed

theorem statement_spec (h : db.Sound) (hc : Checked db pc)
    (hs : pc.statement db = some (db', pc')) : db'.Sound ∧ db.Later db' ∧ Checked db' pc' := by
  cases pc with
  | findProblem session slug body =>
    cases hs
    refine ⟨h, .refl db, ?_⟩
    cases db.problems slug with
    | none => trivial
    | some problemId =>
      dsimp only
      split
      next => trivial
      next hbody => exact createSharedSolutionSchema_ok hbody
  | findSubmission session problemId fields =>
    cases hs
    exact ⟨h, .refl db, checked_submission h hc session problemId⟩
  | create input =>
    cases hs
    exact ⟨(h.create hc).1, (h.create hc).2, trivial⟩
  | findToPatch session id body =>
    cases hs
    exact ⟨h, .refl db, checked_patch h session id body⟩
  | update session id patch =>
    rw [SharingPc.statement] at hs
    split at hs
    next =>
      cases hs
      exact ⟨h, .refl db, trivial⟩
    next hu =>
      cases hs
      obtain ⟨hsound, hlater⟩ := h.updateSolution hc.1 hu
      exact ⟨hsound, hlater, trivial⟩
  | findToDelete session id =>
    cases hs
    exact ⟨h, .refl db, checked_delete h session id⟩
  | delete session id =>
    cases hs
    obtain ⟨hsound, hlater⟩ := h.delete fun r => r.id = id
    exact ⟨hsound, hlater, trivial⟩
  | returned => cases hs

theorem checked_start (db : SharingDb) (req : SharingRequest) : Checked db req.start := by
  unfold SharingRequest.start
  split
  next => trivial
  next =>
    split
    next => trivial
    next =>
      split
      next => trivial
      next => trivial
      next => trivial
      next => trivial

theorem sharing_stable : sharingProgram.Stable (fun _ _ _ _ => True) SharingDb.Sound
    fun db _ o => ∀ pc, o = some pc → Checked db pc where
  start := by
    rintro db i req - - _ ⟨⟩
    exact checked_start db req
  ambient := by
    intro db x h
    obtain ⟨hsound, hlater⟩ := h.change x
    exact ⟨hsound, fun _ _ hc pc hpc => (hc pc hpc).later hlater⟩
  step := by
    intro db i pc x db' pc' h hc _ hstep
    have hspec : db'.Sound ∧ db.Later db' ∧ Checked db' pc' := by
      obtain ⟨⟨db₁, pc₁⟩, hs, hx⟩ := Option.map_eq_some_iff.1 hstep
      obtain ⟨hsound, hlater, hchecked⟩ := statement_spec h (hc pc rfl) hs
      cases x with
      | proceed =>
        cases hx
        exact ⟨hsound, hlater, hchecked⟩
      | fail =>
        cases hx
        exact ⟨h, .refl db, trivial⟩
      | lost =>
        cases hx
        exact ⟨hsound, hlater, trivial⟩
    obtain ⟨hsound, hlater, hchecked⟩ := hspec
    refine ⟨hsound, ?_, fun _ _ _ hother pc hpc => (hother pc hpc).later hlater⟩
    rintro _ ⟨⟩
    exact hchecked

/-- The assertions hold throughout every run. -/
theorem sharing_holds (h₀ : sharing.init w) : Holds SharingDb.Sound
    (fun db _ o => ∀ pc, o = some pc → Checked db pc) w :=
  holds_start h₀ fun _ hs => ⟨hs.sound, fun _ => nofun⟩

theorem statement_accepted {pc : SharingPc} (hs : pc.statement db = some (db', pc')) :
    db'.accepted = db.accepted := by
  cases pc with
  | findProblem | findSubmission | findToPatch | findToDelete | delete =>
    cases hs
    rfl
  | create input =>
    have hdb : (db.createSolution input).1 = db' := congrArg Prod.fst (Option.some.inj hs)
    rw [← hdb]
    obtain ⟨_, _, -, -, heq⟩ | ⟨_, heq⟩ := createSolution_cases db input
    · rw [heq]
    · rw [heq]
  | update session id patch =>
    rw [SharingPc.statement] at hs
    split at hs
    next =>
      cases hs
      rfl
    next =>
      cases hs
      rfl
  | returned => cases hs

theorem store_accepted {id i : String} {row : SubmissionRow}
    (h : i ∈ (db.store id row).accepted) : i ∈ db.accepted ∨ (db.store id row).IsAccepted i := by
  unfold SharingDb.store at h
  dsimp only at h
  split at h
  next hstatus =>
    rcases List.mem_cons.1 h with rfl | h
    · exact .inr ⟨row, Function.update_self .., hstatus⟩
    · exact .inl h
  next => exact .inl h

theorem change_accepted {x : SharingChange} {i : String} (h : i ∈ (db.change x).accepted) :
    i ∈ db.accepted ∨ (db.change x).IsAccepted i := by
  unfold SharingDb.change at h ⊢
  cases x with
  | elapsed | problem | recount => exact .inl h
  | submit id row =>
    dsimp only at h ⊢
    split at h
    next hslot => exact store_accepted h
    next => exact .inl h
  | judge id status =>
    dsimp only at h ⊢
    split at h
    next hslot => exact store_accepted h
    next => exact .inl h
  | deleteSubmission id =>
    dsimp only at h
    split at h
    next => exact .inl h
    next => exact .inl h

theorem step_accepted {i : String} (hs : sharing.step w x = some w')
    (h : i ∈ w'.shared.accepted) : i ∈ w.shared.accepted ∨ w'.shared.IsAccepted i := by
  cases x with
  | spawn req =>
    cases hs
    exact .inl h
  | ambient x =>
    cases hs
    exact change_accepted h
  | act j x =>
    obtain ⟨pc, db', pc', -, hstep, rfl⟩ := Program.next_act hs
    have hstatement : statementStep SharingPc.statement (fun _ => .returned sharingFailed)
        w.shared j pc x = some (db', pc') := hstep
    rcases statementStep_cases hstatement with ⟨-, rfl⟩ | ⟨-, q, hq⟩
    · exact .inl h
    · exact .inl (statement_accepted hq ▸ h)

/-- What is said to have been accepted was accepted, at some time. -/
theorem accepted_sometime {i : String} (hr : sharing.run w es = some w')
    (h : i ∈ w'.shared.accepted) :
    i ∈ w.shared.accepted ∨ sharing.Sometime (fun w => w.shared.IsAccepted i) w es := by
  by_cases hnow : w'.shared.IsAccepted i
  · exact .inr (.stop hr hnow)
  · refine (Machine.sometime_of_run (I := fun w => i ∈ w.shared.accepted ∧ ¬w.shared.IsAccepted i)
      ?_ hr ⟨h, hnow⟩).imp_left And.left
    rintro u x v hs ⟨hv, hnot⟩
    by_cases hu : u.shared.IsAccepted i
    · exact .inr hu
    · exact .inl ⟨(step_accepted hs hv).resolve_right hnot, hu⟩

/-- What a statement does to the solutions. -/
theorem statement_rows {pc : SharingPc} (hs : pc.statement db = some (db', pc')) :
    db'.solutions = db.solutions ∨
      (∃ input, pc = .create input ∧
        db.solutions.insert (input.row db.drawn db.now) = some db'.solutions) ∨
      (∃ session id patch, pc = .update session id patch ∧
        db'.solutions = db.solutions.assign id (patch.assignments ++ [.updatedAt db.now])) ∨
      ∃ session id, pc = .delete session id ∧
        db'.solutions = db.solutions.deleteWhere fun r => r.id = id := by
  cases pc with
  | findProblem | findSubmission | findToPatch | findToDelete =>
    cases hs
    exact .inl rfl
  | create input =>
    have hdb : (db.createSolution input).1 = db' := congrArg Prod.fst (Option.some.inj hs)
    rw [← hdb]
    obtain ⟨solutions, _, hinsert, -, heq⟩ | ⟨_, heq⟩ := createSolution_cases db input
    · rw [heq]
      exact .inr (.inl ⟨input, rfl, hinsert⟩)
    · rw [heq]
      exact .inl rfl
  | update session id patch =>
    rw [SharingPc.statement, updateSolution_eq] at hs
    split at hs
    next =>
      cases hs
      exact .inl rfl
    next hu =>
      cases hs
      split at hu
      next =>
        cases hu
        exact .inl rfl
      next =>
        cases hu
        exact .inr (.inr (.inl ⟨session, id, patch, rfl, rfl⟩))
  | delete session id =>
    cases hs
    exact .inr (.inr (.inr ⟨session, id, rfl, rfl⟩))
  | returned => cases hs

end

/-- What a step may do to a solution. -/
inductive RowChange (w : World SharingDb SharingPc)
    (x : Event SharingRequest SharingChange Outcome) (w' : World SharingDb SharingPc)
    (r : SolutionRow) : Prop where
  | kept (mem : r ∈ w'.shared.solutions.rows)
  | patched (i : Nat) (answer : Outcome) (session : Session) (patch : SolutionPatch)
      (event : x = .act i answer) (thread : w.threads[i]? = some (.update session r.id patch))
      (author : r.userId = session.userId)
      (mem : assign (patch.assignments ++ [.updatedAt w.shared.now]) r ∈ w'.shared.solutions.rows)
  | deleted (i : Nat) (answer : Outcome) (session : Session)
      (event : x = .act i answer) (thread : w.threads[i]? = some (.delete session r.id))
      (allowed : r.userId = session.userId ∨ session.role = .admin)
  | cascaded (event : x = .ambient (.deleteSubmission r.submissionId))
  | recounted (n : Int) (event : x = .ambient (.recount r.id n))
      (mem : { r with voteCount := n } ∈ w'.shared.solutions.rows)

section

theorem mem_assign {t : SolutionTable} {r : SolutionRow} (h : r ∈ t.rows) (id : Nat)
    (sets : List Assignment) :
    (r.id ≠ id ∧ r ∈ (t.assign id sets).rows) ∨
      r.id = id ∧ assign sets r ∈ (t.assign id sets).rows := by
  have hmem : (if r.id = id then assign sets r else r) ∈ (t.assign id sets).rows :=
    List.mem_map.2 ⟨r, h, rfl⟩
  split at hmem
  next hid => exact .inr ⟨hid, hmem⟩
  next hid => exact .inl ⟨hid, hmem⟩

theorem mem_deleteWhere {t : SolutionTable} {r : SolutionRow} (h : r ∈ t.rows)
    (f : SolutionRow → Bool) : r ∈ (t.deleteWhere f).rows ∨ f r = true := by
  cases hf : f r with
  | true => exact .inr rfl
  | false => exact .inl (List.mem_filter.2 ⟨h, by simp [hf]⟩)

theorem rowChange_ambient {w : World SharingDb SharingPc} {r : SolutionRow}
    (h : r ∈ w.shared.solutions.rows) (x : SharingChange) :
    RowChange w (.ambient x) { w with shared := w.shared.change x } r := by
  cases x with
  | elapsed | problem => exact .kept h
  | submit id row =>
    refine .kept ?_
    unfold SharingDb.change
    dsimp only
    split
    next => exact h
    next => exact h
  | judge id status =>
    refine .kept ?_
    unfold SharingDb.change
    dsimp only
    split
    next => exact h
    next => exact h
  | deleteSubmission id =>
    cases hslot : w.shared.submissions id with
    | unused | deleted =>
      refine .kept ?_
      simp only [SharingDb.change, hslot]
      exact h
    | stored row =>
      rcases mem_deleteWhere h fun r => r.submissionId = id with hmem | hid
      · refine .kept ?_
        simp only [SharingDb.change, hslot]
        exact hmem
      · refine .cascaded ?_
        rw [of_decide_eq_true hid]
  | recount id n =>
    rcases mem_assign h id [.voteCount n] with ⟨-, hmem⟩ | ⟨rfl, hmem⟩
    · exact .kept hmem
    · exact .recounted n rfl hmem

theorem rowChange_act {w : World SharingDb SharingPc} {r : SolutionRow}
    (h : r ∈ w.shared.solutions.rows) (hc : ∀ pc, w.threads[i]? = some pc → Checked w.shared pc)
    (hs : sharing.step w (.act i answer) = some w') : RowChange w (.act i answer) w' r := by
  obtain ⟨pc, db', pc', hpc, hstep, rfl⟩ := Program.next_act hs
  have hstatement : statementStep SharingPc.statement (fun _ => .returned sharingFailed)
      w.shared i pc answer = some (db', pc') := hstep
  rcases statementStep_cases hstatement with ⟨-, rfl⟩ | ⟨-, q, hq⟩
  · exact .kept h
  · obtain hsame | ⟨input, rfl, hinsert⟩ | ⟨session, id, patch, rfl, hassign⟩ |
      ⟨session, id, rfl, hdelete⟩ := statement_rows hq
    · exact .kept (hsame ▸ h)
    · refine .kept ?_
      rw [insert_some hinsert]
      exact List.mem_append_left _ h
    · have hauthor := (hc _ hpc).2.2 r h
      rcases mem_assign h id (patch.assignments ++ [.updatedAt w.shared.now]) with
        ⟨-, hmem⟩ | ⟨rfl, hmem⟩
      · exact .kept (hassign ▸ hmem)
      · exact .patched i answer session patch rfl hpc (hauthor rfl) (hassign ▸ hmem)
    · have hallowed := (hc _ hpc).2 r h
      rcases mem_deleteWhere h fun r => r.id = id with hmem | hid
      · exact .kept (hdelete ▸ hmem)
      · cases of_decide_eq_true hid
        exact .deleted i answer session rfl hpc (hallowed rfl)

def sharedOnce : SharingDb where
  problems := fun _ => some "two-sum"
  submissions := fun id =>
    if id = "s1" then .stored ⟨"ann", "two-sum", "accepted", "go"⟩ else .unused
  solutions := ⟨[⟨0, "two-sum", "ann", "s1", "A hash map", String.ofList (.replicate 100 'a'),
    "go", 1, 5, 5⟩], by decide, by decide⟩
  drawn := 1
  now := 5
  accepted := ["s1"]

theorem utf16Length_replicate (n : Nat) :
    utf16Length (String.ofList (.replicate n 'a')) = n := by
  rw [utf16Length, String.toList_ofList]
  induction n with
  | zero => rfl
  | succ n ih =>
    rw [List.replicate_succ', List.foldl_append, ih]
    rfl

theorem sharedOnce_start : SharingStart sharedOnce where
  sound := by
    refine ⟨?_, ?_, ?_⟩
    · intro r hr
      rw [List.mem_singleton.1 hr]
      have htitle : titleSchema.Accepts "A hash map" := ⟨by decide, by decide⟩
      have hwriteup : writeupSchema.Accepts (String.ofList (.replicate 100 'a')) := by
        rw [TextSchema.Accepts, utf16Length_replicate]
        decide
      exact ⟨⟨_, rfl, rfl, rfl, rfl⟩, by decide, htitle, hwriteup, by decide⟩
    · intro r hr
      rw [List.mem_singleton.1 hr]
      decide
    · intro id row hrow _
      by_cases hid : id = "s1"
      · exact List.mem_singleton.2 hid
      · simp [sharedOnce, hid] at hrow
  accepted := by
    intro id hid
    rw [List.mem_singleton.1 hid]
    exact .inl ⟨_, rfl, rfl⟩

/-- In every run of any number of requests a solution that is there stands for a submission of its
user on its problem, in its language, that was accepted at some time, and no other solution does. -/
theorem sharing_sound (h₀ : sharing.init w) (hr : sharing.run w es = some w')
    (h : r ∈ w'.shared.solutions.rows) : r.Backed w'.shared ∧
      ((∃ r₀ ∈ w.shared.solutions.rows, r₀.submissionId = r.submissionId) ∨
        sharing.Sometime (fun w => w.shared.IsAccepted r.submissionId) w es) ∧
      ∀ r' ∈ w'.shared.solutions.rows, r'.submissionId = r.submissionId → r' = r := by
  have hbacked := ((sharing_stable.invariant _).run (sharing_holds h₀) hr).1.backed r h
  refine ⟨hbacked, ?_, fun r' hr' hsame =>
    List.inj_on_of_nodup_map w'.shared.solutions.submissions hr' h hsame⟩
  rcases accepted_sometime hr hbacked.accepted with hstart | hlater
  · rcases h₀.1.accepted _ hstart with hnow | ⟨r₀, hr₀, hsame⟩
    · refine .inr (Machine.Sometime.start ?_ es)
      exact hnow
    · exact .inl ⟨r₀, hr₀, hsame⟩
  · exact .inr hlater

/-- A second user's submission is accepted and posted, and the author of the first solution changes
its title. -/
def postedAndPatched : List (Event SharingRequest SharingChange Outcome) :=
  [.ambient (.submit "s2" ⟨"bob", "two-sum", "pending", "go"⟩), .ambient (.judge "s2" "accepted"),
    .spawn ⟨true, some ⟨"bob", .user⟩, .post "two-sum" none
      (.object (.text "s2") (.text "Two pointers") (.text (String.ofList (.replicate 100 'b'))))⟩,
    .act 0 .proceed, .act 0 .proceed, .ambient (.elapsed 3), .act 0 .proceed,
    .spawn ⟨true, some ⟨"ann", .user⟩, .patch 0 (.object .missing (.text "One pass") .missing)⟩,
    .act 1 .proceed, .act 1 .proceed]

theorem postedAndPatched_run :
    (sharing.run ⟨sharedOnce, []⟩ postedAndPatched).map (fun w =>
        w.shared.solutions.rows.map fun r => (r.submissionId, r.title)) =
      some [("s1", "One pass"), ("s2", "Two pointers")] := by
  decide +kernel

theorem sharing_sound_posted :
    ∃ w, sharing.run ⟨sharedOnce, []⟩ postedAndPatched = some w ∧
      (w.shared.solutions.rows.map fun r => (r.submissionId, r.title)) =
        [("s1", "One pass"), ("s2", "Two pointers")] ∧
      ∀ r ∈ w.shared.solutions.rows, r.Backed w.shared := by
  obtain ⟨w, hw, hrows⟩ := Option.map_eq_some_iff.1 postedAndPatched_run
  exact ⟨w, hw, hrows, fun r hr => (sharing_sound ⟨sharedOnce_start, rfl⟩ hw hr).1⟩

/-- In every run only its author changes a solution, and nothing but its title, its text and the
time of the change; only its author or an admin deletes it, unless its submission is deleted. -/
theorem sharing_changes (h₀ : sharing.init w) (es) :
    sharing.Always (fun w x w' => ∀ r ∈ w.shared.solutions.rows, RowChange w x w' r) w es := by
  refine (sharing_stable.invariant _).preserves _ |>.always (sharing_holds h₀)
    (Machine.always_of_events fun _ _ _ _ => trivial) ?_
  intro u x u' hu hs _ r hmem
  cases x with
  | spawn req =>
    cases hs
    exact .kept hmem
  | ambient x =>
    cases hs
    exact rowChange_ambient hmem x
  | act i answer => exact rowChange_act hmem (hu.2 i) hs

theorem sharing_changes_patched :
    sharing.Always (fun w x w' => ∀ r ∈ w.shared.solutions.rows, RowChange w x w' r)
      ⟨sharedOnce, []⟩
      [.spawn ⟨true, some ⟨"ann", .user⟩,
          .patch 0 (.object .missing (.text "Two pointers") .missing)⟩,
        .act 0 .proceed, .act 0 .proceed] :=
  sharing_changes ⟨sharedOnce_start, rfl⟩ _

end

end Leetrank.Sharing
