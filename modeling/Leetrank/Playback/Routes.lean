import Leetrank.Library.OrderBy
import Leetrank.Playback.Recorder

namespace Leetrank
set_option autoImplicit true

open EventMachine OrderBy

/-- The user of a session, with the role. -/
structure Viewer where
  userId : String
  role : String

structure SubmissionEvent where
  submissionId : String
  row : EventRow

/-- The author of each submission, and the events of all of them. -/
structure PlaybackDb where
  authors : String → Option String
  events : List SubmissionEvent

inductive PlaybackBody where
  | error (text : String)
  | inserted (count : Nat)
  | playback (events : List PlaybackEvent) (count : Nat) (durationMs : ℚ)

structure PlaybackResponse where
  status : Nat
  body : PlaybackBody

def PlaybackResponse.error (status : Nat) (text : String) : PlaybackResponse :=
  ⟨status, .error text⟩

/-- The events of a body that has the shape asked for. -/
def flushSchema (body : Option (List EventRow)) : Option (List EventRow) :=
  body.filter fun events => events.length ≤ MAX_EVENTS_PER_FLUSH ∧
    ∀ ev ∈ events, (isPlaybackEventType ev.type).isSome ∧ ev.ts.isInt ∧ 0 ≤ ev.ts

/-- The insert, which fails as a whole if a time does not fit into its column. -/
def PlaybackDb.createMany (db : PlaybackDb) (submissionId : String) (events : List PlaybackEvent) :
    Option PlaybackDb :=
  if ∀ ev ∈ events, ev.ts ≤ 2147483647 then
    some { db with events := db.events ++ events.map fun ev => ⟨submissionId, ev.row⟩ }
  else none

def postEvents (enabled : Bool) (db : PlaybackDb) (session : Option Viewer) (id : String)
    (body : Option (List EventRow)) : PlaybackDb × PlaybackResponse :=
  if !enabled then (db, .error 404 "Not found")
  else
    match session with
    | none => (db, .error 401 "Unauthorized")
    | some viewer =>
      match db.authors id with
      | none => (db, .error 404 "Submission not found")
      | some userId =>
        if userId ≠ viewer.userId then (db, .error 403 "Forbidden")
        else
          match flushSchema body with
          | none => (db, .error 400 "Invalid request")
          | some events =>
            match serializeEvents events with
            | .error text => (db, .error 400 text)
            | .ok canonical =>
              if canonical.length = 0 then (db, ⟨200, .inserted 0⟩)
              else
                match db.createMany id canonical with
                | none => (db, .error 500 "Internal server error")
                | some db' => (db', ⟨200, .inserted canonical.length⟩)

/-- The answer to a viewer when the query returns the given rows. -/
def getPlayback (enabled : Bool) (db : PlaybackDb) (session : Option Viewer) (id : String)
    (rows : List EventRow) : PlaybackResponse :=
  if !enabled then .error 404 "Not found"
  else
    match session with
    | none => .error 401 "Unauthorized"
    | some viewer =>
      match db.authors id with
      | none => .error 404 "Submission not found"
      | some userId =>
        if userId ≠ viewer.userId ∧ viewer.role ≠ "admin" then .error 403 "Forbidden"
        else
          let events := deserializeEvents rows
          ⟨200, .playback events events.length (durationMs events)⟩

def PlaybackDb.rowsOf (db : PlaybackDb) (id : String) : List EventRow :=
  (db.events.filter fun e => e.submissionId == id).map fun e => e.row

/-- A batch of events that a recorder sends. -/
structure FlushRequest where
  session : Option Viewer
  submissionId : String
  events : List PlaybackEvent

def PlaybackDb.flush (db : PlaybackDb) (r : FlushRequest) : PlaybackDb × PlaybackResponse :=
  postEvents true db r.session r.submissionId (some (r.events.map PlaybackEvent.row))

def PlaybackDb.flushAll (db : PlaybackDb) : List FlushRequest → PlaybackDb
  | [] => db
  | r :: requests => (db.flush r).1.flushAll requests

/-- The events that the route has taken for a submission, in the order of their recording. -/
def recordedStream (db : PlaybackDb) (id : String) : List FlushRequest → List PlaybackEvent
  | [] => []
  | r :: requests =>
    (if r.submissionId = id ∧ (db.flush r).2.status = 200 then r.events else []) ++
      recordedStream (db.flush r).1 id requests

def PlaybackResponse.events (response : PlaybackResponse) : List PlaybackEvent :=
  match response.body with
  | .playback events _ _ => events
  | .error _ | .inserted _ => []

/-- A viewer gets a stream of events, and sees the code that it leads to. -/
structure PlaysBack (response : PlaybackResponse) (stream : List PlaybackEvent) : Prop where
  answer : response = ⟨200, .playback stream stream.length (durationMs stream)⟩
  code : ∀ opts, finalCode response.events opts = finalCode stream opts

/-- The author and the admins may see the playback of a submission. -/
def PlaybackDb.MayView (db : PlaybackDb) (viewer : Viewer) (id : String) : Prop :=
  ∃ userId, db.authors id = some userId ∧ (userId = viewer.userId ∨ viewer.role = "admin")

variable {db db' : PlaybackDb} {r : FlushRequest} {id : String} {viewer : Viewer}
  {requests : List FlushRequest}

theorem flushSchema_row {events : List PlaybackEvent}
    (h : flushSchema (some (events.map PlaybackEvent.row)) = some rows) :
    rows = events.map PlaybackEvent.row ∧ events.length ≤ MAX_EVENTS_PER_FLUSH ∧
      ∀ ev ∈ events, 0 ≤ ev.ts := by
  obtain ⟨hrows, hvalid⟩ := Option.filter_eq_some_iff.1 h
  cases hrows
  rw [decide_eq_true_eq, List.length_map] at hvalid
  exact ⟨rfl, hvalid.1, fun ev hev => (hvalid.2 _ (List.mem_map_of_mem hev)).2.2⟩

theorem createMany_eq_some {events : List PlaybackEvent}
    (h : db.createMany id events = some db') :
    db' = { db with events := db.events ++ events.map fun ev => ⟨id, ev.row⟩ } := by
  rw [PlaybackDb.createMany] at h
  split at h
  next =>
    cases h
    rfl
  next => cases h

/-- A checked batch is stored, unless the insert fails. -/
theorem flush_canonical {events : List PlaybackEvent} {p : PlaybackDb × PlaybackResponse}
    (h : (if (events.map PlaybackEvent.canonical).length = 0 then (db, ⟨200, .inserted 0⟩)
      else
        match db.createMany id (events.map PlaybackEvent.canonical) with
        | none => (db, .error 500 "Internal server error")
        | some db' => (db', ⟨200, .inserted (events.map PlaybackEvent.canonical).length⟩)) = p) :
    p.2.status ≠ 200 ∧ p.1 = db ∨
      p.2.status = 200 ∧
        p.1 = { db with events := db.events ++ events.map fun ev => ⟨id, ev.canonical.row⟩ } := by
  split at h
  next hnil =>
    subst h
    rw [List.length_map, List.length_eq_zero_iff] at hnil
    refine .inr ⟨rfl, ?_⟩
    rw [hnil, List.map_nil, List.append_nil]
  next =>
    split at h
    next =>
      subst h
      exact .inl ⟨nofun, rfl⟩
    next db' hdb' =>
      subst h
      refine .inr ⟨rfl, (createMany_eq_some hdb').trans ?_⟩
      rw [List.map_map]
      rfl

/-- A request stores its events, or is answered with an error and stores nothing. -/
theorem flush_cases (db : PlaybackDb) (r : FlushRequest) :
    (db.flush r).2.status ≠ 200 ∧ (db.flush r).1 = db ∨
      (db.flush r).2.status = 200 ∧
        (db.flush r).1 = { db with
          events := db.events ++ r.events.map fun ev => ⟨r.submissionId, ev.canonical.row⟩ } := by
  generalize hp : db.flush r = p
  unfold PlaybackDb.flush postEvents at hp
  rw [if_neg (by decide)] at hp
  split at hp
  next =>
    subst hp
    exact .inl ⟨nofun, rfl⟩
  next viewer _ =>
    split at hp
    next =>
      subst hp
      exact .inl ⟨nofun, rfl⟩
    next userId _ =>
      split at hp
      next =>
        subst hp
        exact .inl ⟨nofun, rfl⟩
      next =>
        split at hp
        next =>
          subst hp
          exact .inl ⟨nofun, rfl⟩
        next rows hrows =>
          obtain ⟨rfl, hlen, hts⟩ := flushSchema_row hrows
          rw [serializeEvents_row hlen hts] at hp
          exact flush_canonical hp

theorem flush_authors (db : PlaybackDb) (r : FlushRequest) :
    (db.flush r).1.authors = db.authors := by
  rcases flush_cases db r with ⟨-, h⟩ | ⟨-, h⟩ <;> rw [h]

theorem flush_rowsOf (db : PlaybackDb) (r : FlushRequest) (id : String) :
    (db.flush r).1.rowsOf id = db.rowsOf id ++
      (if r.submissionId = id ∧ (db.flush r).2.status = 200 then r.events else []).map
        fun ev => ev.canonical.row := by
  rcases flush_cases db r with ⟨hstatus, h⟩ | ⟨hstatus, h⟩
  · rw [h, if_neg fun hr => hstatus hr.2, List.map_nil, List.append_nil]
  · rw [h, PlaybackDb.rowsOf, List.filter_append, List.map_append]
    congr 1
    rw [List.filter_map, List.map_map]
    by_cases hid : r.submissionId = id
    · rw [if_pos ⟨hid, hstatus⟩]
      simp [Function.comp_def, hid]
    · rw [if_neg fun hr => hid hr.1]
      simp [Function.comp_def, hid]

theorem flushAll_authors (db : PlaybackDb) (requests : List FlushRequest) :
    (db.flushAll requests).authors = db.authors := by
  induction requests generalizing db with
  | nil => rfl
  | cons r requests ih => exact (ih _).trans (flush_authors db r)

/-- The rows of a submission are those of the stream that was recorded for it. -/
theorem flushAll_rowsOf (db : PlaybackDb) (requests : List FlushRequest) (id : String) :
    (db.flushAll requests).rowsOf id = db.rowsOf id ++
      (recordedStream db id requests).map fun ev => ev.canonical.row := by
  induction requests generalizing db with
  | nil => exact (List.append_nil _).symm
  | cons r requests ih =>
    rw [PlaybackDb.flushAll, ih, flush_rowsOf, recordedStream, List.map_append, List.append_assoc]

theorem getPlayback_of_mayView (h : db.MayView viewer id) (rows : List EventRow) :
    getPlayback true db (some viewer) id rows = ⟨200, .playback (deserializeEvents rows)
      (deserializeEvents rows).length (durationMs (deserializeEvents rows))⟩ := by
  obtain ⟨userId, hauthor, hview⟩ := h
  have hallowed : ¬(userId ≠ viewer.userId ∧ viewer.role ≠ "admin") := by
    rintro ⟨hne, hrole⟩
    exact hview.elim hne hrole
  simp only [getPlayback, Bool.not_true, Bool.false_eq_true, if_false, hauthor, hallowed]

theorem playsBack_iff (h : db.MayView viewer id) {rows : List EventRow}
    {stream : List PlaybackEvent} :
    PlaysBack (getPlayback true db (some viewer) id rows) stream ↔
      deserializeEvents rows = stream := by
  rw [getPlayback_of_mayView h]
  constructor
  · rintro ⟨hresponse, -⟩
    cases hresponse
    rfl
  · rintro rfl
    exact ⟨rfl, fun _ => rfl⟩

/-- A recorded stream is played back in order, whatever order the query returns, exactly if its
events with the same time are the same. -/
theorem playback_order_iff (db : PlaybackDb) (requests : List FlushRequest) (id : String)
    (viewer : Viewer) (hnew : db.rowsOf id = []) (hview : db.MayView viewer id)
    (hsorted : (recordedStream db id requests).Pairwise fun a b => a.ts ≤ b.ts) :
    (∀ rows, Ordered (fun row => row.ts) ((db.flushAll requests).rowsOf id) rows →
      PlaysBack (getPlayback true (db.flushAll requests) (some viewer) id rows)
        ((recordedStream db id requests).map PlaybackEvent.canonical)) ↔
      ∀ a ∈ (recordedStream db id requests).map PlaybackEvent.canonical,
        ∀ b ∈ (recordedStream db id requests).map PlaybackEvent.canonical, a.ts = b.ts → a = b := by
  have hmay : (db.flushAll requests).MayView viewer id := by
    rw [PlaybackDb.MayView, flushAll_authors]
    exact hview
  have hrows : (db.flushAll requests).rowsOf id =
      ((recordedStream db id requests).map PlaybackEvent.canonical).map PlaybackEvent.row := by
    rw [flushAll_rowsOf, hnew, List.nil_append, List.map_map]
    rfl
  have hstream : ((recordedStream db id requests).map PlaybackEvent.canonical).Pairwise
      fun a b => a.ts ≤ b.ts := by
    rw [List.pairwise_map]
    exact hsorted.imp fun h => wholeMs_mono h
  have hdecode : ∀ ev ∈ (recordedStream db id requests).map PlaybackEvent.canonical,
      deserializeEvent ev.row = some ev := by
    intro ev hev
    obtain ⟨ev, -, rfl⟩ := List.mem_map.1 hev
    rw [deserializeEvent_row, PlaybackEvent.canonical_canonical]
  have hread : (∀ rows, Ordered (fun row : EventRow => row.ts)
      (((recordedStream db id requests).map PlaybackEvent.canonical).map PlaybackEvent.row) rows →
      rows.filterMap deserializeEvent =
        (recordedStream db id requests).map PlaybackEvent.canonical) ↔
      ∀ l, Ordered PlaybackEvent.ts
        ((recordedStream db id requests).map PlaybackEvent.canonical) l →
        l = (recordedStream db id requests).map PlaybackEvent.canonical :=
    decode_unique_iff (fun _ _ => rfl) hdecode
  rw [← ordered_unique_iff hstream, ← hread, ← hrows]
  refine forall_congr' fun rows => forall_congr' fun hordered => ?_
  rw [playsBack_iff hmay, deserializeEvents_of_sorted hordered.sorted]

/-- A submission that Ann has just made. -/
def annSubmitted : PlaybackDb where
  authors := fun id => if id = "s1" then some "ann" else none
  events := []

def annFlushes (events : List PlaybackEvent) : List FlushRequest :=
  [⟨some ⟨"ann", "user"⟩, "s1", events⟩]

/-- A letter typed at two cursors: one change of the editor makes two edits, the later one first. -/
def typedAtTwoCursors : List PlaybackEvent :=
  [⟨0, .snapshot [97, 98, 99]⟩, ⟨100, .paste ⟨⟨1, 3, 1, 3⟩, [120], 0⟩⟩,
    ⟨100, .paste ⟨⟨1, 1, 1, 1⟩, [120], 0⟩⟩]

/-- What happens to the recorder there. -/
def typesAtTwoCursors : List RecorderEvent :=
  [.mount (some [97, 98, 99]), .elapse 100,
    .content [⟨⟨1, 3, 1, 3⟩, [120], 0⟩, ⟨⟨1, 1, 1, 1⟩, [120], 0⟩], .flush "s1"]

/-- The same letter typed twice. -/
def typedTwice : List PlaybackEvent :=
  [⟨0, .snapshot [97, 98, 99]⟩, ⟨100, .keystroke ⟨⟨1, 3, 1, 3⟩, [120], 0⟩⟩,
    ⟨900, .keystroke ⟨⟨1, 1, 1, 1⟩, [120], 0⟩⟩]

theorem playback_order_typedTwice :
    recordedStream annSubmitted "s1" (annFlushes typedTwice) = typedTwice ∧
      ∀ rows, Ordered (fun row => row.ts)
          ((annSubmitted.flushAll (annFlushes typedTwice)).rowsOf "s1") rows →
        PlaysBack (getPlayback true (annSubmitted.flushAll (annFlushes typedTwice))
          (some ⟨"ann", "user"⟩) "s1" rows)
          ((recordedStream annSubmitted "s1" (annFlushes typedTwice)).map
            PlaybackEvent.canonical) :=
  ⟨by decide +kernel, (playback_order_iff annSubmitted (annFlushes typedTwice) "s1"
    ⟨"ann", "user"⟩ rfl ⟨"ann", rfl, .inl rfl⟩ (by decide +kernel)).2 (by decide +kernel)⟩

theorem playback_swaps_cursors :
    ((recorderMachine DEFAULT_DEBOUNCE_MS).run ⟨1000, 0, false, [], []⟩ typesAtTwoCursors).map
        Recorder.sent = some [("s1", typedAtTwoCursors)] ∧
      ∃ rows, Ordered (fun row => row.ts)
          ((annSubmitted.flushAll (annFlushes typedAtTwoCursors)).rowsOf "s1") rows ∧
        recordedStream annSubmitted "s1" (annFlushes typedAtTwoCursors) = typedAtTwoCursors ∧
        (typedAtTwoCursors.Pairwise fun a b => a.ts ≤ b.ts) ∧
        finalCode typedAtTwoCursors ⟨none, none⟩ = some [120, 97, 98, 120, 99] ∧
        finalCode (getPlayback true (annSubmitted.flushAll (annFlushes typedAtTwoCursors))
          (some ⟨"ann", "user"⟩) "s1" rows).events ⟨none, none⟩ =
            some [120, 97, 120, 98, 99] := by
  have hstream : recordedStream annSubmitted "s1" (annFlushes typedAtTwoCursors) =
      typedAtTwoCursors := by
    decide +kernel
  have hrows : (annSubmitted.flushAll (annFlushes typedAtTwoCursors)).rowsOf "s1" =
      typedAtTwoCursors.map fun ev => ev.canonical.row := by
    rw [flushAll_rowsOf, hstream]
    rfl
  have hmay : (annSubmitted.flushAll (annFlushes typedAtTwoCursors)).MayView
      ⟨"ann", "user"⟩ "s1" := by
    rw [PlaybackDb.MayView, flushAll_authors]
    exact ⟨"ann", rfl, .inl rfl⟩
  -- the edits of one change come back in the other order
  let swapped : List PlaybackEvent :=
    [typedAtTwoCursors[0], typedAtTwoCursors[2], typedAtTwoCursors[1]]
  have hordered : Ordered (fun row => row.ts) (typedAtTwoCursors.map fun ev => ev.canonical.row)
      (swapped.map fun ev => ev.canonical.row) :=
    ⟨(List.Perm.swap ..).cons _, by decide +kernel⟩
  refine ⟨by decide +kernel, _, hrows ▸ hordered, hstream, by decide +kernel, by decide +kernel, ?_⟩
  rw [getPlayback_of_mayView hmay, deserializeEvents_of_sorted hordered.sorted]
  decide +kernel

end Leetrank
