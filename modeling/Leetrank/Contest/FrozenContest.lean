import Leetrank.Contest.Standings

namespace Leetrank
set_option autoImplicit true

open EventMachine Threads

/-- The tables, with the id of the last entry of each user in each contest. -/
structure ContestDb where
  db : RatingDb
  entryIds : String → String → Nat
  nextId : Nat

def RatingDb.findEntry (db : RatingDb) (contestId userId : String) : Option ContestEntry :=
  db.entries.rows.find? fun e => e.contestId = contestId ∧ e.userId = userId

/-- `INSERT`, unless the key exists. -/
def EntryTable.create (t : EntryTable) (e : ContestEntry) : Option EntryTable :=
  if h : (e.contestId, e.userId) ∈ t.rows.map fun e => (e.contestId, e.userId) then none
  else some {
    rows := t.rows ++ [e]
    unique := by
      rw [List.map_append, List.map_singleton, ← List.concat_eq_append]
      exact t.unique.concat h }

def EntryTable.delete (t : EntryTable) (contestId userId : String) : EntryTable where
  rows := t.rows.filter fun e => ¬(e.contestId = contestId ∧ e.userId = userId)
  unique := t.unique.sublist (List.filter_sublist.map _)

/-- The entry of a user who joins now. -/
def ContestDb.createEntry (s : ContestDb) (contestId userId : String) : Option ContestDb :=
  (s.db.entries.create ⟨contestId, userId, 0, none, s.db.now⟩).map fun entries =>
    { db := { s.db with entries := entries }
      entryIds := Function.update s.entryIds contestId
        (Function.update (s.entryIds contestId) userId s.nextId)
      nextId := s.nextId + 1 }

/-- `delete` by id throws where the row is gone, also where the user has another one by now. -/
def ContestDb.deleteEntry (s : ContestDb) (contestId userId : String) (id : Nat) :
    Option ContestDb :=
  if (s.db.findEntry contestId userId).isSome ∧ s.entryIds contestId userId = id then
    some { s with db := { s.db with entries := s.db.entries.delete contestId userId } }
  else none

inductive EntryBody where
  | error (text : String)
  | entry (id : Nat) (score : Int) (rank : Option Nat) (alreadyJoined : Bool)
  | success

structure EntryResponse where
  status : Nat
  body : EntryBody

def EntryResponse.error (status : Nat) (text : String) : EntryResponse := ⟨status, .error text⟩

def entryFailed : EntryResponse := .error 500 "Internal server error"

/-- Where a request to join a contest stands. -/
inductive JoinPc where
  | find
  | select (contestId : String)
  | create (contestId : String)
  | returned (response : EntryResponse)

/-- Where a request to leave a contest stands. -/
inductive LeavePc where
  | find
  | select (contestId : String)
  | delete (contestId : String) (id : Nat)
  | returned (response : EntryResponse)

inductive ContestStatus where
  | upcoming
  | active
  | ended

def ContestStatus.text : ContestStatus → String
  | .upcoming => "upcoming"
  | .active => "active"
  | .ended => "ended"

/-- A request to one of the four routes, each past its check of the session or the admin. -/
inductive ContestCall where
  | finalize (call : FinalizeCall)
  | join (slug userId : String) (pc : JoinPc)
  | leave (slug userId : String) (pc : LeavePc)
  | setStatus (contestId : String) (status : ContestStatus) (settled : Bool)

inductive ContestRequest where
  | finalize (slug : String)
  | join (slug userId : String)
  | leave (slug userId : String)
  | setStatus (contestId : String) (status : ContestStatus)

def ContestRequest.call : ContestRequest → ContestCall
  | .finalize slug => .finalize ⟨slug, .find⟩
  | .join slug userId => .join slug userId .find
  | .leave slug userId => .leave slug userId .find
  | .setStatus contestId status => .setStatus contestId status false

def RatingDb.setStatus (db : RatingDb) (contestId : String) (status : ContestStatus) : RatingDb :=
  { db with
    contests := fun slug => (db.contests slug).map fun c =>
      if c.id = contestId then { c with status := status.text } else c }

def joinStatement (s : ContestDb) (slug userId : String) : JoinPc → Option (ContestDb × JoinPc)
  | .find =>
    match s.db.contests slug with
    | none => some (s, .returned (.error 404 "Contest not found"))
    | some contest =>
      if contest.status = "ended" then some (s, .returned (.error 409 "Contest has ended"))
      else some (s, .select contest.id)
  | .select contestId =>
    match s.db.findEntry contestId userId with
    | some e =>
      some (s, .returned ⟨200, .entry (s.entryIds contestId userId) e.score e.rank true⟩)
    | none => some (s, .create contestId)
  | .create contestId =>
    match s.createEntry contestId userId with
    | none => some (s, .returned entryFailed)
    | some s' => some (s', .returned ⟨201, .entry s.nextId 0 none false⟩)
  | .returned _ => none

def leaveStatement (s : ContestDb) (slug userId : String) : LeavePc → Option (ContestDb × LeavePc)
  | .find =>
    match s.db.contests slug with
    | none => some (s, .returned (.error 404 "Contest not found"))
    | some contest =>
      if contest.status = "ended" then
        some (s, .returned (.error 409
          "Cannot leave an ended contest — entries are part of the record"))
      else some (s, .select contest.id)
  | .select contestId =>
    match s.db.findEntry contestId userId with
    | none => some (s, .returned (.error 404 "Not joined"))
    | some _ => some (s, .delete contestId (s.entryIds contestId userId))
  | .delete contestId id =>
    match s.deleteEntry contestId userId id with
    | none => some (s, .returned entryFailed)
    | some s' => some (s', .returned ⟨200, .success⟩)
  | .returned _ => none

def finalizeEvent : Outcome → FinalizeEvent
  | .proceed => .proceed
  | .fail => .fail
  | .lost => .lost

def contestStep (updateOne : RatingEngine) (s : ContestDb) (i : Nat) (p : ContestCall)
    (x : Outcome) : Option (ContestDb × ContestCall) :=
  match p with
  | .finalize call =>
    (finalizeStep updateOne s.db call.slug call.pc (finalizeEvent x)).map fun (db, pc) =>
      ({ s with db := db }, .finalize ⟨call.slug, pc⟩)
  | .join slug userId pc =>
    (statementStep (joinStatement · slug userId) (fun _ => .returned entryFailed) s i pc x).map
      fun (s', pc') => (s', .join slug userId pc')
  | .leave slug userId pc =>
    (statementStep (leaveStatement · slug userId) (fun _ => .returned entryFailed) s i pc x).map
      fun (s', pc') => (s', .leave slug userId pc')
  | .setStatus contestId status false =>
    match x with
    | .fail => some (s, .setStatus contestId status true)
    | .proceed | .lost =>
      some ({ s with db := s.db.setStatus contestId status }, .setStatus contestId status true)
  | .setStatus _ _ true => none

/-- Any number of requests to the routes, while time goes by. -/
def contestProgram (updateOne : RatingEngine) :
    Program ContestDb ContestCall ContestRequest Nat Outcome where
  start := fun _ r => r.call
  ambient := fun s elapsed => { s with db := { s.db with now := s.db.now + elapsed } }
  step := contestStep updateOne

/-- The routes over tables in which no contest was finalised at first. -/
def contestMachine (updateOne : RatingEngine) :
    Machine (World ContestDb ContestCall) (Event ContestRequest Nat Outcome) :=
  (contestProgram updateOne).machine fun s => s.db.ratingChanges = []

/-- The users who have an entry in the contest. -/
def RatingDb.entrants (db : RatingDb) (contestId : String) : Set String :=
  {user | ∃ e ∈ db.entries.rows, e.contestId = contestId ∧ e.userId = user}

/-- The users who have a rating change of the contest. -/
def RatingDb.rated (db : RatingDb) (contestId : String) : Set String :=
  {user | ∃ c ∈ db.ratingChanges, c.contestId = contestId ∧ c.userId = user}

/-- Once the contest is finalised its entrants are those whose rating it has changed. -/
def RatingDb.Frozen (db : RatingDb) (contestId : String) : Prop :=
  (db.rated contestId).Nonempty → db.entrants contestId = db.rated contestId

/-- The finalisation commits for the entrants there are, and no entry of the contest is created or
deleted once it has. -/
def RespectsFreeze (updateOne : RatingEngine) (contestId : String) (s : ContestDb) :
    ContestCall → Outcome → Prop
  | _, .fail => True
  | .finalize ⟨_, .commit id entries⟩, _ =>
    id = contestId → (s.db.persist id entries (ratingChangesOf updateOne entries)).isSome = true →
      s.db.entrants contestId = {user | ∃ x ∈ entries, x.1.userId = user}
  | .join _ userId (.create id), _ =>
    id = contestId → (s.createEntry id userId).isSome = true → ¬(s.db.rated contestId).Nonempty
  | .leave _ userId (.delete id entryId), _ =>
    id = contestId → (s.deleteEntry id userId entryId).isSome = true →
      ¬(s.db.rated contestId).Nonempty
  | _, _ => True

/-- What a step of a request can do to the entries and the rating changes. -/
inductive ContestMove (updateOne : RatingEngine) (s : ContestDb) :
    ContestCall → Outcome → ContestDb → Prop where
  | quiet (he : ∀ contestId, s'.db.entrants contestId = s.db.entrants contestId)
    (hc : s'.db.ratingChanges = s.db.ratingChanges)
    (hr : ∀ contestId, RespectsFreeze updateOne contestId s p x) : ContestMove updateOne s p x s'
  | commit (hx : x ≠ .fail)
    (h : s.db.persist contestId entries (ratingChangesOf updateOne entries) = some db') :
    ContestMove updateOne s (.finalize ⟨slug, .commit contestId entries⟩) x { s with db := db' }
  | create (hx : x ≠ .fail) (h : s.createEntry contestId userId = some s') :
    ContestMove updateOne s (.join slug userId (.create contestId)) x s'
  | delete (hx : x ≠ .fail) (h : s.deleteEntry contestId userId entryId = some s') :
    ContestMove updateOne s (.leave slug userId (.delete contestId entryId)) x s'

variable {updateOne : RatingEngine} {s s' : ContestDb} {db db' : RatingDb} {contestId id : String}
  {p p' : ContestCall} {w w' w₀ : World ContestDb ContestCall} {i : Nat}

theorem RatingDb.entrants_setRank (db : RatingDb) (id : String) (c : RatingChangeResult)
    (contestId : String) : (db.setRank id c).entrants contestId = db.entrants contestId := by
  have hkey (e : ContestEntry) : (e.setRank id c).contestId = e.contestId ∧
      (e.setRank id c).userId = e.userId :=
    Prod.mk.injEq .. ▸ e.setRank_key id c
  ext user
  constructor
  · rintro ⟨e, he, hid, huser⟩
    obtain ⟨e₀, he₀, rfl⟩ := List.mem_map.1 he
    exact ⟨e₀, he₀, (hkey e₀).1 ▸ hid, (hkey e₀).2 ▸ huser⟩
  · rintro ⟨e, he, hid, huser⟩
    exact ⟨_, List.mem_map_of_mem he, (hkey e).1.trans hid, (hkey e).2.trans huser⟩

/-- A step of a finalisation other than its commit changes neither set. -/
theorem finalizeStep_quiet (h : finalizeStep updateOne db slug pc e = some (db', pc'))
    (hpc : ∀ id entries, pc ≠ .commit id entries) :
    (∀ contestId, db'.entrants contestId = db.entrants contestId) ∧
      db'.ratingChanges = db.ratingChanges := by
  cases finalizeStep_cases h with
  | find | count | read | done | stop => exact ⟨fun _ => rfl, rfl⟩
  | commit | commitLost => exact (hpc _ _ rfl).elim
  | setRank | setRankLost => exact ⟨fun _ => RatingDb.entrants_setRank .., rfl⟩

/-- The commit of a finalisation goes through, or changes nothing. -/
theorem finalizeStep_commit
    (h : finalizeStep updateOne db slug (.commit id entries) e = some (db', pc')) :
    (e ≠ .fail ∧ db.persist id entries (ratingChangesOf updateOne entries) = some db') ∨
      db' = db ∧
        (e = .fail ∨ db.persist id entries (ratingChangesOf updateOne entries) = none) := by
  cases e with
  | fail =>
    cases h
    exact .inr ⟨rfl, .inl rfl⟩
  | proceed =>
    simp only [finalizeStep] at h
    split at h
    next hnone =>
      cases h
      exact .inr ⟨rfl, .inr hnone⟩
    next hsome =>
      cases h
      exact .inl ⟨nofun, hsome⟩
  | lost =>
    simp only [finalizeStep] at h
    cases hp : db.persist id entries (ratingChangesOf updateOne entries) with
    | none =>
      rw [hp] at h
      cases h
      exact .inr ⟨rfl, .inr rfl⟩
    | some db₁ =>
      rw [hp] at h
      cases h
      refine .inl ⟨?_, rfl⟩
      nofun

theorem contestStep_finalize
    (h : contestStep updateOne s i (.finalize call) x = some (s', p')) :
    ContestMove updateOne s (.finalize call) x s' := by
  obtain ⟨⟨db', pc'⟩, hstep, he⟩ := Option.map_eq_some_iff.1 h
  cases he
  obtain ⟨slug, pc⟩ := call
  by_cases hpc : ∃ id entries, pc = .commit id entries
  · obtain ⟨id, entries, rfl⟩ := hpc
    rcases finalizeStep_commit hstep with ⟨hx, hpersist⟩ | ⟨rfl, hquiet⟩
    · refine .commit ?_ hpersist
      rintro rfl
      exact hx rfl
    · refine .quiet (fun _ => rfl) rfl fun contestId => ?_
      cases x with
      | fail => trivial
      | proceed | lost =>
        intro _ hsome
        rw [hquiet.resolve_left nofun] at hsome
        cases hsome
  · simp only [not_exists] at hpc
    obtain ⟨he, hc⟩ := finalizeStep_quiet hstep hpc
    refine .quiet he hc fun contestId => ?_
    cases pc with
    | commit id entries => exact (hpc id entries rfl).elim
    | find | count | read | backfill | returned => cases x <;> trivial

/-- What may fail has gone through, or has changed nothing. -/
theorem attempt_cases {o : Option ContestDb} {failed done : α}
    (h : (match o with
      | none => some (s, failed)
      | some s' => some (s', done)) = some (s', pc')) : o = some s' ∨ s' = s ∧ o = none := by
  cases o with
  | none =>
    cases h
    exact .inr ⟨rfl, rfl⟩
  | some s' =>
    cases h
    exact .inl rfl

/-- A statement of a join creates the entry, or changes nothing. -/
theorem joinStatement_cases (h : joinStatement s slug userId pc = some (s', pc')) :
    (∃ id, pc = .create id ∧ s.createEntry id userId = some s') ∨
      s' = s ∧ ∀ id, pc = .create id → s.createEntry id userId = none := by
  cases pc with
  | find =>
    simp only [joinStatement] at h
    split at h
    next =>
      cases h
      exact .inr ⟨rfl, nofun⟩
    next => split at h <;> cases h <;> exact .inr ⟨rfl, nofun⟩
  | select id =>
    simp only [joinStatement] at h
    split at h <;> cases h <;> exact .inr ⟨rfl, nofun⟩
  | create id =>
    simp only [joinStatement] at h
    rcases attempt_cases h with hsome | ⟨rfl, hnone⟩
    · exact .inl ⟨id, rfl, hsome⟩
    · refine .inr ⟨rfl, ?_⟩
      rintro _ ⟨⟩
      exact hnone
  | returned => cases h

theorem contestStep_join
    (h : contestStep updateOne s i (.join slug userId pc) x = some (s', p')) :
    ContestMove updateOne s (.join slug userId pc) x s' := by
  obtain ⟨⟨s₁, pc₁⟩, hstep, he⟩ := Option.map_eq_some_iff.1 h
  cases he
  rcases statementStep_cases hstep with ⟨rfl, rfl⟩ | ⟨hx, pc₂, hst⟩
  · exact .quiet (fun _ => rfl) rfl fun _ => trivial
  · rcases joinStatement_cases hst with ⟨id, rfl, hcreate⟩ | ⟨rfl, hnone⟩
    · exact .create hx hcreate
    · refine .quiet (fun _ => rfl) rfl fun contestId => ?_
      cases pc with
      | create id =>
        cases x with
        | fail => trivial
        | proceed | lost =>
          intro _ hsome
          rw [hnone id rfl] at hsome
          cases hsome
      | find | select | returned => cases x <;> trivial

/-- A statement of a leave deletes the entry, or changes nothing. -/
theorem leaveStatement_cases (h : leaveStatement s slug userId pc = some (s', pc')) :
    (∃ id entryId, pc = .delete id entryId ∧ s.deleteEntry id userId entryId = some s') ∨
      s' = s ∧ ∀ id entryId, pc = .delete id entryId → s.deleteEntry id userId entryId = none := by
  cases pc with
  | find =>
    simp only [leaveStatement] at h
    split at h
    next =>
      cases h
      exact .inr ⟨rfl, nofun⟩
    next => split at h <;> cases h <;> exact .inr ⟨rfl, nofun⟩
  | select id =>
    simp only [leaveStatement] at h
    split at h <;> cases h <;> exact .inr ⟨rfl, nofun⟩
  | delete id entryId =>
    simp only [leaveStatement] at h
    rcases attempt_cases h with hsome | ⟨rfl, hnone⟩
    · exact .inl ⟨id, entryId, rfl, hsome⟩
    · refine .inr ⟨rfl, ?_⟩
      rintro _ _ ⟨⟩
      exact hnone
  | returned => cases h

theorem contestStep_leave
    (h : contestStep updateOne s i (.leave slug userId pc) x = some (s', p')) :
    ContestMove updateOne s (.leave slug userId pc) x s' := by
  obtain ⟨⟨s₁, pc₁⟩, hstep, he⟩ := Option.map_eq_some_iff.1 h
  cases he
  rcases statementStep_cases hstep with ⟨rfl, rfl⟩ | ⟨hx, pc₂, hst⟩
  · exact .quiet (fun _ => rfl) rfl fun _ => trivial
  · rcases leaveStatement_cases hst with ⟨id, entryId, rfl, hdelete⟩ | ⟨rfl, hnone⟩
    · exact .delete hx hdelete
    · refine .quiet (fun _ => rfl) rfl fun contestId => ?_
      cases pc with
      | delete id entryId =>
        cases x with
        | fail => trivial
        | proceed | lost =>
          intro _ hsome
          rw [hnone id entryId rfl] at hsome
          cases hsome
      | find | select | returned => cases x <;> trivial

theorem contestStep_move (h : contestStep updateOne s i p x = some (s', p')) :
    ContestMove updateOne s p x s' := by
  cases p with
  | finalize call => exact contestStep_finalize h
  | join slug userId pc => exact contestStep_join h
  | leave slug userId pc => exact contestStep_leave h
  | setStatus contestId status settled =>
    have hfree (id : String) :
        RespectsFreeze updateOne id s (.setStatus contestId status settled) x := by
      cases x <;> trivial
    cases settled with
    | true => cases h
    | false => cases x <;> cases h <;> exact .quiet (fun _ => rfl) rfl hfree

/-- An insert makes one entrant more. -/
theorem mem_entrants_createEntry (h : s.createEntry id userId = some s') :
    user ∈ s'.db.entrants contestId ↔
      user ∈ s.db.entrants contestId ∨ contestId = id ∧ user = userId := by
  obtain ⟨entries, hentries, rfl⟩ := Option.map_eq_some_iff.1 h
  rw [EntryTable.create] at hentries
  split at hentries
  next => cases hentries
  next =>
    cases hentries
    constructor
    · rintro ⟨e, he, hid, huser⟩
      rcases List.mem_append.1 he with he | he
      · exact .inl ⟨e, he, hid, huser⟩
      · rw [List.mem_singleton.1 he] at hid huser
        exact .inr ⟨hid.symm, huser.symm⟩
    · rintro (⟨e, he, hid, huser⟩ | ⟨rfl, rfl⟩)
      · exact ⟨e, List.mem_append_left _ he, hid, huser⟩
      · exact ⟨_, List.mem_append_right _ List.mem_cons_self, rfl, rfl⟩

/-- The insert fails for those who have an entry, and for no one else. -/
theorem createEntry_eq_none_iff :
    s.createEntry contestId userId = none ↔ userId ∈ s.db.entrants contestId := by
  rw [ContestDb.createEntry, Option.map_eq_none_iff, EntryTable.create]
  split
  next h =>
    obtain ⟨e, he, hkey⟩ := List.mem_map.1 h
    exact iff_of_true rfl ⟨e, he, congrArg Prod.fst hkey, congrArg Prod.snd hkey⟩
  next h =>
    apply iff_of_false (Option.some_ne_none _)
    rintro ⟨e, he, hid, huser⟩
    exact h (List.mem_map.2 ⟨e, he, Prod.ext hid huser⟩)

/-- The entry that a join creates is that of a new entrant. -/
theorem createEntry_entrants (h : s.createEntry id userId = some s') :
    userId ∉ s.db.entrants id ∧ userId ∈ s'.db.entrants id ∧
      s'.db.ratingChanges = s.db.ratingChanges ∧
      ∀ contestId, contestId ≠ id → s'.db.entrants contestId = s.db.entrants contestId := by
  refine ⟨fun hin => ?_, (mem_entrants_createEntry h).2 (.inr ⟨rfl, rfl⟩), ?_, fun cid hcid => ?_⟩
  · rw [createEntry_eq_none_iff.2 hin] at h
    cases h
  · obtain ⟨entries, -, rfl⟩ := Option.map_eq_some_iff.1 h
    rfl
  · ext user
    exact (mem_entrants_createEntry h).trans (or_iff_left fun hsame => hcid hsame.1)

/-- A deletion makes one entrant less. -/
theorem mem_entrants_deleteEntry (h : s.deleteEntry id userId entryId = some s') :
    user ∈ s'.db.entrants contestId ↔
      user ∈ s.db.entrants contestId ∧ ¬(contestId = id ∧ user = userId) := by
  rw [ContestDb.deleteEntry] at h
  split at h
  next =>
    cases h
    constructor
    · rintro ⟨e, he, rfl, rfl⟩
      obtain ⟨hmem, hkept⟩ := List.mem_filter.1 he
      exact ⟨⟨e, hmem, rfl, rfl⟩, of_decide_eq_true hkept⟩
    · rintro ⟨⟨e, he, rfl, rfl⟩, hother⟩
      exact ⟨e, List.mem_filter.2 ⟨he, decide_eq_true hother⟩, rfl, rfl⟩
  next => cases h

/-- The entry that a leave deletes was that of an entrant. -/
theorem deleteEntry_entrants (h : s.deleteEntry id userId entryId = some s') :
    userId ∈ s.db.entrants id ∧ userId ∉ s'.db.entrants id ∧
      s'.db.ratingChanges = s.db.ratingChanges ∧
      ∀ contestId, contestId ≠ id → s'.db.entrants contestId = s.db.entrants contestId := by
  refine ⟨?_, fun hin => ((mem_entrants_deleteEntry h).1 hin).2 ⟨rfl, rfl⟩, ?_,
    fun cid hcid => ?_⟩
  · rw [ContestDb.deleteEntry] at h
    split at h
    next hfound =>
      obtain ⟨e, he⟩ := Option.isSome_iff_exists.1 hfound.1
      have hkey := List.find?_some he
      rw [decide_eq_true_eq] at hkey
      exact ⟨e, List.mem_of_find?_eq_some he, hkey⟩
    next => cases h
  · rw [ContestDb.deleteEntry] at h
    split at h
    next =>
      cases h
      rfl
    next => cases h
  · ext user
    exact (mem_entrants_deleteEntry h).trans (and_iff_left fun hsame => hcid hsame.1)

/-- The commit rates the users whose entries were read, none of whom was rated before. -/
theorem persist_rated
    (h : db.persist id entries (ratingChangesOf updateOne entries) = some db') :
    (∀ contestId, db'.entrants contestId = db.entrants contestId) ∧
      db'.rated id = db.rated id ∪ {user | ∃ x ∈ entries, x.1.userId = user} ∧
      (∀ x ∈ entries, x.1.userId ∉ db.rated id) ∧
      ∀ contestId, contestId ≠ id → db'.rated contestId = db.rated contestId := by
  obtain ⟨-, hfree, rfl⟩ := persist_eq_some_iff.1 h
  have huser (user : String) : (∃ c ∈ ratingChangesOf updateOne entries, c.userId = user) ↔
      ∃ x ∈ entries, x.1.userId = user := by
    have hmem := ratingChangesOf_userIds updateOne entries
    rw [← List.mem_map, hmem, List.mem_map]
  refine ⟨fun _ => rfl, ?_, fun x hx => ?_, fun contestId hid => ?_⟩
  · ext user
    rw [Set.mem_union, Set.mem_ofPred_eq, ← huser]
    constructor
    · rintro ⟨row, hrow, hid, hu⟩
      rcases List.mem_append.1 hrow with hrow | hrow
      · exact .inl ⟨row, hrow, hid, hu⟩
      · obtain ⟨c, hc, rfl⟩ := List.mem_map.1 hrow
        exact .inr ⟨c, hc, hu⟩
    · rintro (⟨row, hrow, hid, hu⟩ | ⟨c, hc, hu⟩)
      · exact ⟨row, List.mem_append_left _ hrow, hid, hu⟩
      · exact ⟨_, List.mem_append_right _ (List.mem_map_of_mem hc), rfl, hu⟩
  · rintro ⟨row, hrow, hid, hu⟩
    obtain ⟨c, hc, hcu⟩ := (huser x.1.userId).2 ⟨x, hx, rfl⟩
    exact hfree c hc row hrow hid (hu.trans hcu.symm)
  · ext user
    constructor
    · rintro ⟨row, hrow, hcid, hu⟩
      rcases List.mem_append.1 hrow with hrow | hrow
      · exact ⟨row, hrow, hcid, hu⟩
      · obtain ⟨c, hc, rfl⟩ := List.mem_map.1 hrow
        exact (hid hcid.symm).elim
    · rintro ⟨row, hrow, hcid, hu⟩
      exact ⟨row, List.mem_append_left _ hrow, hcid, hu⟩

/-- Entrants may come and go only before the contest is finalised. -/
theorem frozen_changed (hf : s.db.Frozen contestId)
    (hc : s'.db.ratingChanges = s.db.ratingChanges) (hne : s'.db.entrants id ≠ s.db.entrants id)
    (hother : ∀ contestId, contestId ≠ id → s'.db.entrants contestId = s.db.entrants contestId) :
    s'.db.Frozen contestId ↔ (id = contestId → ¬(s.db.rated contestId).Nonempty) := by
  have hrated : s'.db.rated contestId = s.db.rated contestId := by
    rw [RatingDb.rated, hc, RatingDb.rated]
  rw [RatingDb.Frozen, hrated]
  by_cases hid : id = contestId
  · subst hid
    constructor
    · intro h _ hrated
      exact hne ((h hrated).trans (hf hrated).symm)
    · exact fun h hrated => (h rfl hrated).elim
  · refine iff_of_true ?_ fun h => (hid h).elim
    rw [hother contestId (Ne.symm hid)]
    exact hf

/-- The standings are those of the entrants. -/
theorem RatingDb.entrants_eq (db : RatingDb) (contestId : String) :
    db.entrants contestId = {user | ∃ x ∈ db.standings contestId, x.1.userId = user} := by
  ext user
  constructor
  · rintro ⟨e, he, hid, huser⟩
    obtain ⟨x, hx, rfl⟩ := RatingDb.exists_standing he hid
    exact ⟨x, hx, huser⟩
  · rintro ⟨x, hx, huser⟩
    obtain ⟨he, hid⟩ := RatingDb.mem_standings hx
    exact ⟨x.1, he, hid, huser⟩

/-- A finalisation that is about to commit has read some entry. -/
def ContestCall.HasRead : ContestCall → Prop
  | .finalize ⟨_, .commit _ entries⟩ => entries ≠ []
  | _ => True

/-- A step keeps the contest frozen exactly if it respects the freeze. -/
theorem contestMove_frozen (hp : p.HasRead) (hf : s.db.Frozen contestId)
    (h : ContestMove updateOne s p x s') :
    s'.db.Frozen contestId ↔ RespectsFreeze updateOne contestId s p x := by
  cases h with
  | quiet he hc hr =>
    refine iff_of_true ?_ (hr contestId)
    rw [RatingDb.Frozen, RatingDb.rated, hc, he]
    exact hf
  | @commit _ id entries db' slug hx hpersist =>
    obtain ⟨he, hrated, hnew, hother⟩ := persist_rated hpersist
    have hresp : RespectsFreeze updateOne contestId s (.finalize ⟨slug, .commit id entries⟩) x ↔
        (id = contestId → s.db.entrants contestId = {user | ∃ x ∈ entries, x.1.userId = user}) := by
      cases x with
      | fail => exact (hx rfl).elim
      | proceed | lost => simp only [RespectsFreeze, hpersist, Option.isSome_some, forall_const]
    rw [hresp, RatingDb.Frozen]
    by_cases hid : id = contestId
    · subst hid
      obtain ⟨y, hy⟩ := List.exists_mem_of_ne_nil entries hp
      rw [hrated, he]
      by_cases hne : (s.db.rated id).Nonempty
      · -- a second finalisation commits for users whom the first one has not rated
        have hold := hf hne
        refine iff_of_false (fun h => ?_) fun h => ?_
        · have hmem : y.1.userId ∈ s.db.entrants id :=
            (h (hne.mono Set.subset_union_left)).symm ▸ .inr ⟨y, hy, rfl⟩
          exact hnew y hy (hold ▸ hmem)
        · have hmem : y.1.userId ∈ s.db.entrants id := (h rfl).symm ▸ ⟨y, hy, rfl⟩
          exact hnew y hy (hold ▸ hmem)
      · rw [Set.not_nonempty_iff_eq_empty.1 hne, Set.empty_union]
        exact ⟨fun h _ => h ⟨y.1.userId, y, hy, rfl⟩, fun h _ => h rfl⟩
    · refine iff_of_true ?_ fun h => (hid h).elim
      rw [he, hother contestId (Ne.symm hid)]
      exact hf
  | @create _ id userId _ slug hx hcreate =>
    obtain ⟨hnew, hmem, hc, hother⟩ := createEntry_entrants hcreate
    refine (frozen_changed hf hc (fun he => hnew (he ▸ hmem)) hother).trans ?_
    cases x with
    | fail => exact (hx rfl).elim
    | proceed | lost => simp only [RespectsFreeze, hcreate, Option.isSome_some, forall_const]
  | @delete _ id userId entryId _ slug hx hdelete =>
    obtain ⟨hmem, hgone, hc, hother⟩ := deleteEntry_entrants hdelete
    refine (frozen_changed hf hc (fun he => hgone (he ▸ hmem)) hother).trans ?_
    cases x with
    | fail => exact (hx rfl).elim
    | proceed | lost => simp only [RespectsFreeze, hdelete, Option.isSome_some, forall_const]

theorem finalizeStep_hasRead
    (h : finalizeStep updateOne db slug pc e = some (db', .commit id entries)) : entries ≠ [] := by
  cases finalizeStep_cases h with
  | read =>
    rw [finalizeStep] at h
    split at h
    next => cases h
    next hlen =>
      intro hnil
      rw [hnil] at hlen
      exact hlen Nat.two_pos

theorem contestStep_hasRead (h : contestStep updateOne s i p x = some (s', p')) : p'.HasRead := by
  cases p with
  | finalize call =>
    obtain ⟨⟨db', pc'⟩, hstep, he⟩ := Option.map_eq_some_iff.1 h
    cases he
    cases pc' with
    | commit id entries => exact finalizeStep_hasRead hstep
    | find | count | read | backfill | returned => trivial
  | join slug userId pc =>
    obtain ⟨_, _, he⟩ := Option.map_eq_some_iff.1 h
    cases he
    trivial
  | leave slug userId pc =>
    obtain ⟨_, _, he⟩ := Option.map_eq_some_iff.1 h
    cases he
    trivial
  | setStatus contestId status settled =>
    cases settled with
    | true => cases h
    | false => cases x <;> cases h <;> trivial

/-- A contest is frozen in every state of a run exactly if every step respects the freeze. -/
theorem contest_frozen_iff {es : List (Event ContestRequest Nat Outcome)}
    (h₀ : (contestMachine updateOne).init w₀) (contestId : String) :
    (contestMachine updateOne).Always (fun _ _ w => w.shared.db.Frozen contestId) w₀ es ↔
      (contestMachine updateOne).Always
        (OnSteps fun s _ p x => RespectsFreeze updateOne contestId s p x) w₀ es := by
  have hfrozen : w₀.shared.db.Frozen contestId := by
    rintro ⟨user, c, hc, -⟩
    rw [h₀.1] at hc
    cases hc
  refine Program.always_shared_iff (Q := ContestCall.HasRead) (I := fun s => s.db.Frozen contestId)
    ?_ ?_ (fun _ _ h => h) ?_ h₀ hfrozen
  · intro s r
    cases r <;> trivial
  · intro s i p x s' p' h
    exact contestStep_hasRead h
  · intro s i p x s' p' hp hf h
    exact contestMove_frozen hp hf (contestStep_move h)

/-- Two newcomers have entered a contest that is over but whose status is still active. -/
def overdueCup : World ContestDb ContestCall where
  shared := {
    db := { twoContests.shared with
      contests := fun slug => if slug = "spring-cup" then some ⟨"c1", "active", 0⟩ else none }
    entryIds := fun _ _ => 0
    nextId := 4
  }
  threads := []

abbrev ContestTrace := List (Event ContestRequest Nat Outcome)

def cupFinalised : ContestTrace :=
  [.act 0 .proceed, .act 0 .proceed, .act 0 .proceed, .act 0 .proceed]

/-- A user asks to join after the finalisation has committed. -/
def joinsAfter : ContestTrace :=
  .spawn (.finalize "spring-cup") :: cupFinalised ++
    [.spawn (.join "spring-cup" "u3"), .act 1 .proceed]

/-- A user is let in before the finalisation, and the entry is created after it. -/
def joinsAcross : ContestTrace :=
  .spawn (.finalize "spring-cup") :: .spawn (.join "spring-cup" "u3") :: .act 1 .proceed ::
    cupFinalised ++ [.act 1 .proceed, .act 1 .proceed]

theorem RatingDb.mem_rated {db : RatingDb} :
    user ∈ db.rated contestId ↔
      (contestId, user) ∈ db.ratingChanges.map fun c => (c.contestId, c.userId) := by
  simp [RatingDb.rated]

theorem contest_frozen_joinsAfter :
    ∃ w, (contestMachine newcomerEngine).run overdueCup joinsAfter = some w ∧
      w.threads[1]? = some (.join "spring-cup" "u3"
        (.returned (.error 409 "Contest has ended"))) ∧
      (w.shared.db.rated "c1").Nonempty ∧
      w.shared.db.entrants "c1" = w.shared.db.rated "c1" := by
  have h₀ : (contestMachine newcomerEngine).init overdueCup := ⟨rfl, rfl⟩
  have hrespects : (contestMachine newcomerEngine).Always
      (OnSteps fun s _ p x => RespectsFreeze newcomerEngine "c1" s p x) overdueCup joinsAfter := by
    refine Machine.always_cons rfl (.spawn _) ?_
    iterate 3 refine Machine.always_cons rfl (.act rfl trivial) ?_
    refine Machine.always_cons rfl (.act rfl fun _ _ => RatingDb.entrants_eq ..) ?_
    refine Machine.always_cons rfl (.spawn _) ?_
    exact Machine.always_cons rfl (.act rfl trivial) trivial
  have hfrozen := (contest_frozen_iff h₀ "c1").2 hrespects
  have hrun : ∃ u w, (contestMachine newcomerEngine).run overdueCup joinsAfter.dropLast = some u ∧
      (contestMachine newcomerEngine).step u (.act 1 .proceed) = some w ∧
      (contestMachine newcomerEngine).run overdueCup joinsAfter = some w ∧
      w.threads[1]? = some (.join "spring-cup" "u3"
        (.returned (.error 409 "Contest has ended"))) ∧
      w.shared.db.ratingChanges.map (fun c => (c.contestId, c.userId)) =
        [("c1", "u1"), ("c1", "u2")] := ⟨_, _, rfl, rfl, rfl, rfl, rfl⟩
  obtain ⟨u, w, hu, hw, hrun, hrefused, hkeys⟩ := hrun
  have hrated : (w.shared.db.rated "c1").Nonempty :=
    ⟨"u1", RatingDb.mem_rated.2 (hkeys ▸ List.mem_cons_self)⟩
  exact ⟨w, hrun, hrefused, hrated, Machine.Always.last hfrozen hu hw hrated⟩

theorem contest_joined_across :
    ∃ w, (contestMachine newcomerEngine).run overdueCup joinsAcross = some w ∧
      w.threads[1]? = some (.join "spring-cup" "u3"
        (.returned ⟨201, .entry 4 0 none false⟩)) ∧
      (w.shared.db.rated "c1").Nonempty ∧
      w.shared.db.entrants "c1" ≠ w.shared.db.rated "c1" := by
  have hrun : ∃ w, (contestMachine newcomerEngine).run overdueCup joinsAcross = some w ∧
      w.threads[1]? = some (.join "spring-cup" "u3"
        (.returned ⟨201, .entry 4 0 none false⟩)) ∧
      w.shared.db.ratingChanges.map (fun c => (c.contestId, c.userId)) =
        [("c1", "u1"), ("c1", "u2")] ∧
      w.shared.db.entries.rows.getLast? = some ⟨"c1", "u3", 0, none, 0⟩ :=
    ⟨_, rfl, rfl, rfl, rfl⟩
  obtain ⟨w, hrun, hjoined, hkeys, hentry⟩ := hrun
  refine ⟨w, hrun, hjoined, ⟨"u1", RatingDb.mem_rated.2 (hkeys ▸ List.mem_cons_self)⟩, ?_⟩
  intro heq
  have hentrant : "u3" ∈ w.shared.db.entrants "c1" := ⟨_, List.mem_of_getLast? hentry, rfl, rfl⟩
  rw [heq, RatingDb.mem_rated, hkeys] at hentrant
  revert hentrant
  decide

end Leetrank
