import Leetrank.Admin.LastAdmin
import Leetrank.Solutions.Votes
import Leetrank.Web.CommentDepth

namespace Leetrank
set_option autoImplicit true

open EventMachine InsertionOrder Threads

def VOTE_LIMIT_MAX : Nat := 30
def VOTE_LIMIT_WINDOW_MS : Nat := 60000

structure DiscussionVote where
  id : String
  discussionId : String
  userId : String
  value : VoteValue

/-- The votes on all discussions; a user has at most one on each. -/
structure DiscussionVotes where
  rows : List DiscussionVote
  ids : (rows.map DiscussionVote.id).Nodup
  users : (rows.map fun r => (r.discussionId, r.userId)).Nodup

def DiscussionVotes.find (t : DiscussionVotes) (id user : String) : Option DiscussionVote :=
  t.rows.find? fun r => r.discussionId = id ∧ r.userId = user

theorem DiscussionVotes.not_mem_of_find {t : DiscussionVotes} {id user : String}
    (h : t.find id user = none) :
    (id, user) ∉ t.rows.map fun r => (r.discussionId, r.userId) := by
  intro hmem
  obtain ⟨row, hrow, hkey⟩ := List.mem_map.1 hmem
  have hne := List.find?_eq_none.1 h row hrow
  exact hne (decide_eq_true (Prod.mk.inj hkey))

/-- A row is inserted unless one of its two keys is there already. -/
def DiscussionVotes.create (t : DiscussionVotes) (row : DiscussionVote) : Option DiscussionVotes :=
  if h : row.id ∉ t.rows.map DiscussionVote.id ∧
      t.find row.discussionId row.userId = none then
    some {
      rows := t.rows ++ [row]
      ids := by
        rw [List.map_append, List.map_singleton, ← List.concat_eq_append]
        exact t.ids.concat h.1
      users := by
        rw [List.map_append, List.map_singleton, ← List.concat_eq_append]
        exact t.users.concat (DiscussionVotes.not_mem_of_find h.2) }
  else none

def DiscussionVotes.delete (t : DiscussionVotes) (rowId : String) : DiscussionVotes where
  rows := t.rows.filter fun r => r.id ≠ rowId
  ids := t.ids.sublist (List.filter_sublist.map _)
  users := t.users.sublist (List.filter_sublist.map _)

/-- A row with another value, if it is the one to be updated. -/
def DiscussionVote.updated (rowId : String) (value : VoteValue) (r : DiscussionVote) :
    DiscussionVote :=
  if r.id = rowId then { r with value := value } else r

theorem DiscussionVote.updated_eq (rowId : String) (value : VoteValue) (r : DiscussionVote) :
    r.updated rowId value = { r with value := if r.id = rowId then value else r.value } := by
  rw [DiscussionVote.updated]
  split <;> rfl

def DiscussionVotes.update (t : DiscussionVotes) (rowId : String) (value : VoteValue) :
    DiscussionVotes where
  rows := t.rows.map (DiscussionVote.updated rowId value)
  ids := by
    rw [List.map_map]
    simp only [Function.comp_def, DiscussionVote.updated_eq]
    exact t.ids
  users := by
    rw [List.map_map]
    simp only [Function.comp_def, DiscussionVote.updated_eq]
    exact t.users

/-- `_sum` over the votes on one discussion, `null` read as zero. -/
def DiscussionVotes.sum (t : DiscussionVotes) (id : String) : Int :=
  ((t.rows.filter fun r => r.discussionId = id).map fun r => r.value.toInt).sum

inductive DiscussionVoteReply where
  | voted (id : String) (score userVote : Int)
  | failed (status : Nat) (error : String) (retryAfter : Option Nat)

def discussionVoteFailed : DiscussionVoteReply := .failed 500 "Internal server error" none

/-- A vote that is let through, with the id that a row it creates is given. -/
structure VoteRequest where
  user : String
  value : VoteValue
  newId : String

/-- What becomes of the vote in the table, with what the user is told of it. -/
def DiscussionVotes.toggle (t : DiscussionVotes) (id : String) (r : VoteRequest) :
    Option (DiscussionVotes × Int) :=
  match t.find id r.user with
  | none =>
    (t.create ⟨r.newId, id, r.user, r.value⟩).map fun t' => (t', r.value.toInt)
  | some existing =>
    if existing.value = r.value then some (t.delete existing.id, 0)
    else some (t.update existing.id r.value, r.value.toInt)

def DiscussionVotes.vote (t : DiscussionVotes) (id : String) (r : VoteRequest) :
    DiscussionVotes × DiscussionVoteReply :=
  match t.toggle id r with
  | none => (t, discussionVoteFailed)
  | some (t', userVote) => (t', .voted id (t'.sum id) userVote)

/-- The body of a vote, as JSON and its schema read it. -/
inductive VoteBody where
  | notJson
  | invalid (message : String)
  | value (value : VoteValue)

structure VoteApp where
  discussions : List Discussion
  votes : DiscussionVotes
  buckets : Buckets

/-- The checks before the vote is looked up. -/
def voteGate (s : VoteApp) (session : Option Session) (id : String) (body : VoteBody) (now : Nat) :
    Buckets × Except DiscussionVoteReply (Session × VoteValue) :=
  match session with
  | none => (s.buckets, .error (.failed 401 "Unauthorized" none))
  | some session =>
    match memoryCheck s.buckets ("discussion-vote:" ++ session.userId) VOTE_LIMIT_MAX
        VOTE_LIMIT_WINDOW_MS now with
    | (buckets, limit) =>
      if limit.allowed then
        match body with
        | .notJson => (buckets, .error (.failed 400 "Invalid JSON body" none))
        | .invalid message => (buckets, .error (.failed 400 message none))
        | .value value =>
          if id ∈ s.discussions.map Discussion.id then (buckets, .ok (session, value))
          else (buckets, .error (.failed 404 "Discussion not found" none))
      else
        (buckets, .error (.failed 429 "Too many votes. Slow down."
          (some (retryAfterSeconds limit.resetAt now))))

def postVote (s : VoteApp) (session : Option Session) (id : String) (body : VoteBody) (now : Nat)
    (newId : String) : VoteApp × DiscussionVoteReply :=
  match voteGate s session id body now with
  | (buckets, .error reply) => ({ s with buckets := buckets }, reply)
  | (buckets, .ok (session, value)) =>
    match s.votes.vote id ⟨session.userId, value, newId⟩ with
    | (votes, reply) => ({ s with votes := votes, buckets := buckets }, reply)

/-- A post to the endpoint of a discussion, with its time and the id for a row that it creates. -/
structure VotePost where
  session : Option Session
  id : String
  body : VoteBody
  now : Nat
  newId : String

def VoteApp.post (s : VoteApp) (p : VotePost) : VoteApp :=
  (postVote s p.session p.id p.body p.now p.newId).1

/-- The vote that a post asks for, with its discussion. -/
def VotePost.request (p : VotePost) : Option (String × VoteRequest) :=
  match p.session, p.body with
  | some session, .value value => some (p.id, ⟨session.userId, value, p.newId⟩)
  | _, _ => none

/-- The rule for the vote of one user. -/
def nextVote (current : Option VoteValue) (value : VoteValue) : Option VoteValue :=
  if current = some value then none else some value

/-- The vote that the requests of a user lead to. -/
def ballot (history : List VoteRequest) (user : String) : Option VoteValue :=
  ((history.filter fun r => r.user = user).map VoteRequest.value).foldl nextVote none

def userVoteOf : Option VoteValue → Int
  | none => 0
  | some value => value.toInt

/-- The votes on one discussion as a table of their own. -/
def DiscussionVotes.ballots (t : DiscussionVotes) (id : String) : List (String × VoteValue) :=
  (t.rows.filter fun r => r.discussionId = id).map fun r => (r.userId, r.value)

variable {t t' t₀ : DiscussionVotes} {v v' : VoteTable} {id user : String} {value : VoteValue}
  {r : VoteRequest} {history : List VoteRequest}

theorem ballot_concat (history : List VoteRequest) (r : VoteRequest) (user : String) :
    ballot (history ++ [r]) user =
      if user = r.user then nextVote (ballot history r.user) r.value else ballot history user := by
  rw [ballot, List.filter_append]
  split
  next h =>
    subst h
    simp [ballot]
  next h =>
    simp [ballot, Ne.symm h]

theorem VoteTable.find_eq_some_iff (v : VoteTable) :
    v.find user = some value ↔ (user, value) ∈ v.rows := by
  rw [VoteTable.find, List.lookup_eq_some_iff]
  constructor
  · rintro ⟨l₁, l₂, h, -⟩
    rw [h]
    exact List.mem_append_right l₁ List.mem_cons_self
  · intro h
    obtain ⟨l₁, l₂, hsplit⟩ := List.append_of_mem h
    have husers := v.users
    rw [hsplit, List.map_append, List.nodup_append] at husers
    refine ⟨l₁, l₂, hsplit, fun p hp => ?_⟩
    have hne := husers.2.2 p.1 (List.mem_map_of_mem hp) user List.mem_cons_self
    simpa using hne.symm

theorem VoteTable.find_eq_none_iff (v : VoteTable) :
    v.find user = none ↔ user ∉ v.rows.map Prod.fst := by
  rw [Option.eq_none_iff_forall_ne_some]
  simp only [ne_eq, VoteTable.find_eq_some_iff, List.mem_map, Prod.exists]
  constructor
  · rintro h ⟨u, x, hx, rfl⟩
    exact h x hx
  · rintro h x hx
    exact h ⟨user, x, hx, rfl⟩

theorem VoteTable.rows_insert (h : v.insert user value = some v') :
    v'.rows = v.rows ++ [(user, value)] := by
  unfold VoteTable.insert at h
  split at h
  next => cases h
  next =>
    cases h
    rfl

theorem VoteTable.find_insert (h : v.insert user value = some v') (u : String) :
    v'.find u = if u = user then some value else v.find u := by
  unfold VoteTable.insert at h
  split at h
  next => cases h
  next hnew =>
    cases h
    apply Option.ext
    intro x
    rw [VoteTable.find_eq_some_iff]
    split
    next hu =>
      have habsent : (user, x) ∉ v.rows := fun hx => hnew (List.mem_map_of_mem hx)
      simp [habsent, hu, eq_comm]
    next hu => simp [hu, VoteTable.find_eq_some_iff]

theorem VoteTable.find_delete (v : VoteTable) (user u : String) :
    (v.delete user).find u = if u = user then none else v.find u := by
  apply Option.ext
  intro x
  rw [VoteTable.find_eq_some_iff]
  split
  next hu => simp [VoteTable.delete, hu]
  next hu => simp [VoteTable.delete, hu, VoteTable.find_eq_some_iff]

theorem VoteTable.find_update (h : v.find user ≠ none) (u : String) :
    (v.update user value).find u = if u = user then some value else v.find u := by
  apply Option.ext
  intro x
  rw [VoteTable.find_eq_some_iff, VoteTable.update, List.mem_map]
  split
  next hu =>
    constructor
    · rintro ⟨row, _, hrow⟩
      split at hrow
      next => cases hrow; rfl
      next hne => exact absurd ((congrArg Prod.fst hrow).trans hu) hne
    · intro hx
      cases hx
      obtain ⟨old, hold⟩ := Option.ne_none_iff_exists'.1 h
      refine ⟨(user, old), v.find_eq_some_iff.1 hold, ?_⟩
      rw [if_pos rfl, hu]
  next hu =>
    rw [VoteTable.find_eq_some_iff]
    constructor
    · rintro ⟨row, hrow, heq⟩
      split at heq
      next => exact absurd (congrArg Prod.fst heq).symm hu
      next => exact heq ▸ hrow
    · intro hx
      exact ⟨(u, x), hx, if_neg hu⟩

/-- A toggle of what is there never fails, and changes the vote of its user by the rule. -/
theorem VoteTable.toggle_find (v : VoteTable) (user : String) (value : VoteValue) :
    ∃ v', v.toggle user value (v.find user) =
        some (v', userVoteOf (nextVote (v.find user) value)) ∧
      ∀ u, v'.find u = if u = user then nextVote (v.find user) value else v.find u := by
  cases hfind : v.find user with
  | none =>
    obtain ⟨v', hins⟩ : ∃ v', v.insert user value = some v' :=
      ⟨_, dif_neg (v.find_eq_none_iff.1 hfind)⟩
    refine ⟨v', ?_, fun u => ?_⟩
    · rw [VoteTable.toggle, hins]
      rfl
    · rw [VoteTable.find_insert hins]
      rfl
  | some old =>
    rw [VoteTable.toggle]
    by_cases hold : old = value
    · subst hold
      have hnext : nextVote (some old) old = none := if_pos rfl
      refine ⟨v.delete user, ?_, fun u => ?_⟩
      · rw [if_pos rfl, hnext]
        rfl
      · rw [VoteTable.find_delete, hnext]
    · have hnext : nextVote (some old) value = some value :=
        if_neg fun h => hold (Option.some.inj h)
      refine ⟨v.update user value, ?_, fun u => ?_⟩
      · rw [if_neg hold, hnext]
        rfl
      · rw [VoteTable.find_update (by rw [hfind]; exact Option.some_ne_none old), hnext]

theorem filter_key {f : α → String} {l : List α} {a : α} (hl : (l.map f).Nodup) (ha : a ∈ l) :
    (l.filter fun b => f b = f a) = [a] := by
  obtain ⟨l₁, l₂, rfl⟩ := List.append_of_mem ha
  rw [List.map_append, List.map_cons, List.nodup_append, List.nodup_cons] at hl
  obtain ⟨_, ⟨hafter, _⟩, hbefore⟩ := hl
  have h₁ : (l₁.filter fun b => f b = f a) = [] := by
    rw [List.filter_eq_nil_iff]
    intro b hb
    rw [decide_eq_true_eq]
    exact hbefore (f b) (List.mem_map_of_mem hb) (f a) List.mem_cons_self
  have h₂ : (l₂.filter fun b => f b = f a) = [] := by
    rw [List.filter_eq_nil_iff]
    intro b hb
    rw [decide_eq_true_eq]
    exact fun heq => hafter (heq ▸ List.mem_map_of_mem hb)
  rw [List.filter_append, h₁, List.filter_cons_of_pos (by simp), h₂, List.nil_append]

theorem VoteTable.votes_eq (v : VoteTable) (user : String) :
    (v.rows.filter fun r => r.1 = user).map Prod.snd = (v.find user).toList := by
  cases hfind : v.find user with
  | none =>
    have hnone := v.find_eq_none_iff.1 hfind
    rw [List.filter_eq_nil_iff.2]
    · rfl
    · intro r hr
      rw [decide_eq_true_eq]
      exact fun heq => hnone (heq ▸ List.mem_map_of_mem hr)
  | some value =>
    rw [filter_key v.users (v.find_eq_some_iff.1 hfind)]
    rfl

/-- The row that is found gives the vote that is found among the votes on its discussion. -/
theorem DiscussionVotes.find_eq_some_iff (t : DiscussionVotes) {row : DiscussionVote} :
    t.find id user = some row ↔ row ∈ t.rows ∧ row.discussionId = id ∧ row.userId = user := by
  constructor
  · intro h
    have hkey := List.find?_some h
    rw [decide_eq_true_eq] at hkey
    exact ⟨List.mem_of_find?_eq_some h, hkey⟩
  · rintro ⟨hrow, rfl, rfl⟩
    have hfind := find?_of_key t.users hrow
    rw [DiscussionVotes.find]
    simpa only [Prod.mk.injEq] using hfind

theorem DiscussionVotes.find_of_ballots (h : t.ballots id = v.rows) :
    (t.find id user).map DiscussionVote.value = v.find user := by
  apply Option.ext
  intro x
  rw [Option.map_eq_some_iff, VoteTable.find_eq_some_iff, ← h, DiscussionVotes.ballots,
    List.mem_map]
  simp only [DiscussionVotes.find_eq_some_iff, List.mem_filter, decide_eq_true_eq, Prod.mk.injEq]
  constructor
  · rintro ⟨row, ⟨hrow, hid, huser⟩, hvalue⟩
    exact ⟨row, ⟨hrow, hid⟩, huser, hvalue⟩
  · rintro ⟨row, ⟨hrow, hid⟩, huser, hvalue⟩
    exact ⟨row, ⟨hrow, hid, huser⟩, hvalue⟩

theorem DiscussionVotes.sum_of_ballots (h : t.ballots id = v.rows) : t.sum id = v.sum := by
  rw [DiscussionVotes.sum, VoteTable.sum, ← h, DiscussionVotes.ballots, List.map_map]
  rfl

theorem rows_of_create {row : DiscussionVote} (h : t.create row = some t') :
    t'.rows = t.rows ++ [row] := by
  rw [DiscussionVotes.create] at h
  split at h
  next =>
    cases h
    rfl
  next => cases h

theorem create_rows {row : DiscussionVote} (hnew : row.id ∉ t.rows.map DiscussionVote.id)
    (hfind : t.find row.discussionId row.userId = none) :
    ∃ t', t.create row = some t' ∧ t'.rows = t.rows ++ [row] :=
  ⟨_, dif_pos ⟨hnew, hfind⟩, rfl⟩

/-- On one discussion the row of a vote is told from the others by its user. -/
theorem same_row_iff {row other : DiscussionVote} (hfind : t.find id user = some row)
    (hother : other ∈ t.rows) (hid : other.discussionId = id) :
    other.id = row.id ↔ other.userId = user := by
  obtain ⟨hrow, hrowId, hrowUser⟩ := t.find_eq_some_iff.1 hfind
  constructor
  · intro h
    rw [List.inj_on_of_nodup_map t.ids hother hrow h]
    exact hrowUser
  · intro h
    have hkey : (other.discussionId, other.userId) = (row.discussionId, row.userId) := by
      rw [hid, h, hrowId, hrowUser]
    rw [List.inj_on_of_nodup_map t.users hother hrow hkey]

theorem ballots_delete {row : DiscussionVote} (hfind : t.find id user = some row) :
    (t.delete row.id).ballots id = (t.ballots id).filter fun b => b.1 ≠ user := by
  rw [DiscussionVotes.ballots, DiscussionVotes.ballots, DiscussionVotes.delete, List.filter_map,
    List.filter_filter, List.filter_filter]
  congr 1
  refine List.filter_congr fun other hother => ?_
  by_cases hid : other.discussionId = id
  · have hsame := same_row_iff hfind hother hid
    simp [hid, hsame]
  · simp [hid]

theorem ballots_update {row : DiscussionVote} (hfind : t.find id user = some row) :
    (t.update row.id value).ballots id =
      (t.ballots id).map fun b => if b.1 = user then (user, value) else b := by
  have hthread : ((fun r => decide (r.discussionId = id)) ∘ DiscussionVote.updated row.id value) =
      fun r => decide (r.discussionId = id) := by
    funext r
    rw [Function.comp, DiscussionVote.updated_eq]
  rw [DiscussionVotes.ballots, DiscussionVotes.ballots, DiscussionVotes.update, List.filter_map,
    hthread, List.map_map, List.map_map]
  refine List.map_congr_left fun other hother => ?_
  obtain ⟨hother, hid⟩ := List.mem_filter.1 hother
  have hsame := same_row_iff hfind hother (of_decide_eq_true hid)
  simp only [Function.comp, DiscussionVote.updated_eq, hsame]
  split
  next huser => rw [huser]
  next => rfl

theorem ballots_create {row : DiscussionVote} (hrows : t'.rows = t.rows ++ [row]) :
    t'.ballots row.discussionId = t.ballots row.discussionId ++ [(row.userId, row.value)] := by
  simp [DiscussionVotes.ballots, hrows]

/-- A first vote is a new row in both tables. -/
theorem first_vote_agrees (h : t.ballots id = v.rows)
    (hnew : r.newId ∉ t.rows.map DiscussionVote.id) (hfind : t.find id r.user = none) :
    ∃ t' v', t.toggle id r = some (t', r.value.toInt) ∧
      v.insert r.user r.value = some v' ∧ t'.ballots id = v'.rows := by
  have hnone : v.find r.user = none := by
    rw [← DiscussionVotes.find_of_ballots h, hfind]
    rfl
  let row : DiscussionVote := ⟨r.newId, id, r.user, r.value⟩
  obtain ⟨t', hcreate, hrows⟩ : ∃ t', t.create row = some t' ∧ t'.rows = t.rows ++ [row] :=
    create_rows hnew hfind
  obtain ⟨v', hins⟩ : ∃ v', v.insert r.user r.value = some v' :=
    ⟨_, dif_neg (v.find_eq_none_iff.1 hnone)⟩
  refine ⟨t', v', ?_, hins, ?_⟩
  · rw [DiscussionVotes.toggle, hfind]
    dsimp only
    rw [hcreate]
    rfl
  · rw [VoteTable.rows_insert hins, ← h]
    exact ballots_create hrows

/-- The toggle of a vote does to the votes on its discussion what it does to those on a
solution. -/
theorem toggle_agrees (h : t.ballots id = v.rows)
    (hnew : r.newId ∉ t.rows.map DiscussionVote.id) :
    ∃ t' v' userVote, t.toggle id r = some (t', userVote) ∧
      v.toggle r.user r.value (v.find r.user) = some (v', userVote) ∧
        t'.ballots id = v'.rows := by
  have hvalue : (t.find id r.user).map DiscussionVote.value = v.find r.user :=
    DiscussionVotes.find_of_ballots h
  cases hfind : t.find id r.user with
  | none =>
    obtain ⟨t', v', htoggle, hins, hrows⟩ := first_vote_agrees h hnew hfind
    refine ⟨t', v', r.value.toInt, htoggle, ?_, hrows⟩
    rw [← hvalue, hfind, Option.map_none, VoteTable.toggle, hins]
    rfl
  | some existing =>
    rw [hfind, Option.map_some] at hvalue
    rw [DiscussionVotes.toggle, hfind, ← hvalue, VoteTable.toggle]
    dsimp only
    split
    next =>
      refine ⟨_, _, _, rfl, rfl, ?_⟩
      rw [ballots_delete hfind, h]
      rfl
    next =>
      refine ⟨_, _, _, rfl, rfl, ?_⟩
      rw [ballots_update hfind, h]
      rfl

/-- A toggle makes at most one new row, under the id that the request brings. -/
theorem toggle_ids (h : t.toggle id r = some (t', userVote)) (hrow : row ∈ t'.rows) :
    row.id = r.newId ∨ row.id ∈ t.rows.map DiscussionVote.id := by
  rw [DiscussionVotes.toggle] at h
  split at h
  next hfind =>
    obtain ⟨t₁, hcreate, he⟩ := Option.map_eq_some_iff.1 h
    cases he
    rw [rows_of_create hcreate] at hrow
    rcases List.mem_append.1 hrow with hrow | hrow
    · exact .inr (List.mem_map_of_mem hrow)
    · rw [List.mem_singleton.1 hrow]
      exact .inl rfl
  next existing hfind =>
    split at h
    next =>
      cases h
      exact .inr (List.mem_map_of_mem (List.mem_of_mem_filter hrow))
    next =>
      cases h
      obtain ⟨old, hold, rfl⟩ := List.mem_map.1 hrow
      rw [DiscussionVote.updated_eq]
      exact .inr (List.mem_map.2 ⟨old, hold, rfl⟩)

/-- What the checks let through is the vote that the post asks for. -/
theorem request_of_voteGate {s : VoteApp} {p : VotePost}
    (h : voteGate s p.session p.id p.body p.now = (buckets, .ok (session, value))) :
    p.request = some (p.id, ⟨session.userId, value, p.newId⟩) := by
  obtain ⟨session', id, body, now, newId⟩ := p
  cases session' with
  | none => cases h
  | some session' =>
    simp only [voteGate] at h
    split at h
    · split at h
      · cases h
      · cases h
      · split at h <;> cases h
        rfl
    · cases h

/-- A post that the checks refuse leaves the votes alone. -/
theorem VoteApp.post_cases (s : VoteApp) (p : VotePost) :
    (s.post p).votes = s.votes ∨
      ∃ r, p.request = some (p.id, r) ∧ (s.post p).votes = (s.votes.vote p.id r).1 := by
  unfold VoteApp.post postVote
  split
  next => exact .inl rfl
  next hgate => exact .inr ⟨_, request_of_voteGate hgate, rfl⟩

/-- After any posts on any discussions the votes are those of some of the requests, one after the
other. -/
theorem posts_votes (s : VoteApp) (posts : List VotePost) :
    ∃ history : List (String × VoteRequest), history.Sublist (posts.filterMap VotePost.request) ∧
      (posts.foldl VoteApp.post s).votes =
        history.foldl (fun t x => (t.vote x.1 x.2).1) s.votes := by
  induction posts generalizing s with
  | nil => exact ⟨[], .slnil, rfl⟩
  | cons p posts ih =>
    obtain ⟨history, hsub, hvotes⟩ := ih (s.post p)
    rcases s.post_cases p with hsame | ⟨r, hr, hvote⟩
    · refine ⟨history, ?_, ?_⟩
      · exact hsub.trans ((List.sublist_cons_self p posts).filterMap _)
      · rw [List.foldl_cons, hvotes, hsame]
    · refine ⟨(p.id, r) :: history, ?_, ?_⟩
      · rw [List.filterMap_cons_some hr]
        exact hsub.cons_cons _
      · rw [List.foldl_cons, hvotes, hvote, List.foldl_cons]

/-- The replies to the requests of a history, after which the table is this. -/
def voteAll (id : String) (t : DiscussionVotes) (history : List VoteRequest) :
    DiscussionVotes × List DiscussionVoteReply :=
  history.foldl (fun (t, replies) r => ((t.vote id r).1, replies ++ [(t.vote id r).2])) (t, [])

/-- A request on the solution with nothing in between. -/
def requestAlone (r : VoteRequest) (i : Nat) : List (Event (String × VoteValue) Empty Outcome) :=
  .spawn (r.user, r.value) :: (List.replicate 5 .proceed).map (.act i)

def oneAtATime (history : List VoteRequest) : List (Event (String × VoteValue) Empty Outcome) :=
  history.zipIdx.flatMap fun (r, i) => requestAlone r i

/-- What the endpoint of a solution would have replied. -/
def DiscussionVoteReply.onSolution : DiscussionVoteReply → VotePc
  | .voted _ score userVote => .returned (.voted score userVote)
  | .failed status error _ => .returned (.failed status error)

/-- The ids of the rows that are created differ from each other and from those that are there. -/
def FreshIds (t : DiscussionVotes) (history : List VoteRequest) : Prop :=
  (history.map VoteRequest.newId).Nodup ∧
    ∀ row ∈ t.rows, row.id ∉ history.map VoteRequest.newId

theorem voteAll_concat (id : String) (t : DiscussionVotes) (history : List VoteRequest)
    (r : VoteRequest) : voteAll id t (history ++ [r]) =
      (((voteAll id t history).1.vote id r).1,
        (voteAll id t history).2 ++ [((voteAll id t history).1.vote id r).2]) := by
  rw [voteAll, List.foldl_append]
  rfl

/-- On its own a request toggles the vote, and replies the sum that it stores. -/
theorem run_requestAlone {w : World SolutionDb VotePc} {i : Nat} {userVote : Int}
    (hi : i = w.threads.length)
    (h : w.shared.votes.toggle r.user r.value (w.shared.votes.find r.user) = some (v', userVote)) :
    voteMachine.run w (requestAlone r i) =
      some ⟨⟨v', v'.sum⟩, w.threads ++ [.returned (.voted v'.sum userVote)]⟩ := by
  subst hi
  let w₁ : World SolutionDb VotePc := ⟨w.shared, w.threads ++ [.finding r.user r.value]⟩
  have hthread : w₁.threads[w.threads.length]? = some (.finding r.user r.value) :=
    List.getElem?_concat_length
  have halone : voteProgram.alone w.threads.length w₁.shared (.finding r.user r.value)
      (List.replicate 5 .proceed) =
        some (⟨v', v'.sum⟩, .returned (.voted v'.sum userVote)) := by
    have hwriting : voteProgram.step w.shared w.threads.length
        (.writing r.user r.value (w.shared.votes.find r.user)) .proceed =
          some ({ w.shared with votes := v' }, .summing userVote) := by
      simp only [voteProgram, voteStep, statementStep, VotePc.statement, SolutionDb.toggle, h,
        Option.map_some]
    change voteProgram.alone w.threads.length w.shared (.finding r.user r.value)
      [.proceed, .proceed, .proceed, .proceed, .proceed] = _
    rw [Program.alone_cons rfl, Program.alone_cons rfl, Program.alone_cons hwriting,
      Program.alone_cons rfl, Program.alone_cons rfl]
    rfl
  have hrun := voteProgram.run_alone hthread halone SolutionDb.Exact
  have hset : w₁.threads.set w.threads.length (.returned (.voted v'.sum userVote)) =
      w.threads ++ [.returned (.voted v'.sum userVote)] := by
    simp [w₁]
  rw [hset] at hrun
  exact hrun

/-- The run of a history on both endpoints: the same votes in the same order, which are those that
the rule gives, and the same replies. -/
structure VotesAgree (id : String) (t₀ : DiscussionVotes) (history : List VoteRequest)
    (w : World SolutionDb VotePc) : Prop where
  run : voteMachine.run noVotes (oneAtATime history) = some w
  rows : (voteAll id t₀ history).1.ballots id = w.shared.votes.rows
  rule : ∀ user, w.shared.votes.find user = ballot history user
  count : w.shared.voteCount = w.shared.votes.sum
  threads : w.threads = (voteAll id t₀ history).2.map DiscussionVoteReply.onSolution
  replies : (voteAll id t₀ history).2.length = history.length
  ids : ∀ row ∈ (voteAll id t₀ history).1.rows,
    row.id ∈ history.map VoteRequest.newId ∨ row.id ∈ t₀.rows.map DiscussionVote.id

theorem oneAtATime_concat (history : List VoteRequest) (r : VoteRequest) :
    oneAtATime (history ++ [r]) = oneAtATime history ++ requestAlone r history.length := by
  rw [oneAtATime, List.zipIdx_append, List.flatMap_append]
  simp [oneAtATime]

theorem FreshIds.init (h : FreshIds t (history ++ [r])) : FreshIds t history := by
  rw [FreshIds, List.map_append] at h
  obtain ⟨hnodup, hrows⟩ := h
  refine ⟨(List.nodup_append.1 hnodup).1, fun row hrow hmem => ?_⟩
  exact hrows row hrow (List.mem_append_left _ hmem)

theorem FreshIds.last {w : World SolutionDb VotePc} (hfresh : FreshIds t₀ (history ++ [r]))
    (h : VotesAgree id t₀ history w) :
    r.newId ∉ (voteAll id t₀ history).1.rows.map DiscussionVote.id := by
  rw [FreshIds, List.map_append] at hfresh
  obtain ⟨hnodup, hrows⟩ := hfresh
  intro hmem
  obtain ⟨row, hrow, hid⟩ := List.mem_map.1 hmem
  rcases h.ids row hrow with hold | hold
  · exact (List.nodup_append.1 hnodup).2.2 row.id hold r.newId List.mem_cons_self hid
  · obtain ⟨first, hfirst, hsame⟩ := List.mem_map.1 hold
    refine hrows first hfirst (List.mem_append_right _ ?_)
    rw [hsame, hid]
    exact List.mem_cons_self

/-- The next request gets the same reply on both endpoints: the sum of the votes as they are then,
and the vote that the rule gives its user. -/
theorem VotesAgree.concat {w : World SolutionDb VotePc} (h : VotesAgree id t₀ history w)
    (hnew : r.newId ∉ (voteAll id t₀ history).1.rows.map DiscussionVote.id) :
    ∃ w', VotesAgree id t₀ (history ++ [r]) w' ∧
      ((voteAll id t₀ history).1.vote id r).2 =
        .voted id (((voteAll id t₀ history).1.vote id r).1.sum id)
          (userVoteOf (ballot (history ++ [r]) r.user)) := by
  obtain ⟨t', v', userVote, htoggle, hsolution, hrows⟩ := toggle_agrees h.rows hnew
  obtain ⟨v'', hrule, hfind⟩ := w.shared.votes.toggle_find r.user r.value
  rw [hsolution, Option.some.injEq, Prod.mk.injEq] at hrule
  obtain ⟨rfl, rfl⟩ := hrule
  have hvote : (voteAll id t₀ history).1.vote id r = (t', .voted id (t'.sum id)
      (userVoteOf (nextVote (w.shared.votes.find r.user) r.value))) := by
    rw [DiscussionVotes.vote, htoggle]
  have hlength : history.length = w.threads.length := by
    rw [h.threads, List.length_map, h.replies]
  have hballot (user : String) : ballot (history ++ [r]) user = v'.find user := by
    rw [ballot_concat, hfind, ← h.rule, ← h.rule]
  have hsum := DiscussionVotes.sum_of_ballots hrows
  refine ⟨⟨⟨v', v'.sum⟩, w.threads ++ [.returned (.voted v'.sum
    (userVoteOf (nextVote (w.shared.votes.find r.user) r.value)))]⟩,
      ⟨?_, ?_, ?_, rfl, ?_, ?_, ?_⟩, ?_⟩
  · rw [oneAtATime_concat, Machine.run_append h.run]
    exact run_requestAlone hlength hsolution
  · rw [voteAll_concat, hvote]
    exact hrows
  · exact fun user => (hballot user).symm
  · rw [voteAll_concat, hvote, List.map_append, ← h.threads, ← hsum]
    rfl
  · rw [voteAll_concat, List.length_append, List.length_append, h.replies]
    rfl
  · intro row hrow
    rw [voteAll_concat, hvote] at hrow
    rw [List.map_append]
    rcases toggle_ids htoggle hrow with hid | hid
    · exact .inl (List.mem_append_right _ (hid ▸ List.mem_cons_self))
    · obtain ⟨old, hold, hid⟩ := List.mem_map.1 hid
      rcases h.ids old hold with hmem | hmem
      · exact .inl (List.mem_append_left _ (hid ▸ hmem))
      · exact .inr (hid ▸ hmem)
  · rw [hvote, hballot, hfind, if_pos rfl]

theorem votesAgree_nil (hnone : ∀ row ∈ t₀.rows, row.discussionId ≠ id) :
    VotesAgree id t₀ [] noVotes := by
  refine ⟨rfl, ?_, fun _ => rfl, rfl, rfl, rfl, ?_⟩
  · rw [DiscussionVotes.ballots, List.filter_eq_nil_iff.2]
    · rfl
    · intro row hrow
      rw [decide_eq_true_eq]
      exact hnone row hrow
  · intro row hrow
    exact .inr (List.mem_map_of_mem hrow)

theorem votesAgree (hfresh : FreshIds t₀ history)
    (hnone : ∀ row ∈ t₀.rows, row.discussionId ≠ id) : ∃ w, VotesAgree id t₀ history w := by
  induction history using List.reverseRecOn with
  | nil => exact ⟨noVotes, votesAgree_nil hnone⟩
  | append_singleton history r ih =>
    obtain ⟨w, h⟩ := ih hfresh.init
    obtain ⟨w', h', _⟩ := h.concat (hfresh.last h)
    exact ⟨w', h'⟩

theorem DiscussionVotes.votes_eq (h : t.ballots id = v.rows) (user : String) :
    (t.rows.filter fun row => row.discussionId = id ∧ row.userId = user).map
      DiscussionVote.value = (v.find user).toList := by
  rw [← VoteTable.votes_eq, ← h, DiscussionVotes.ballots, List.filter_map, List.filter_filter,
    List.map_map]
  congr 1
  refine List.filter_congr fun row _ => ?_
  rw [Bool.decide_and, Bool.and_comm]
  rfl

/-- Of whatever requests one after the other, on a discussion without votes, each user is left with
the vote that the rule gives their own ones, each reply has the sum of the votes that are stored
then, and a solution without votes comes to the same votes, count and replies. -/
theorem vote_automaton (hfresh : FreshIds t₀ history)
    (hnone : ∀ row ∈ t₀.rows, row.discussionId ≠ id) :
    (∀ user, ((voteAll id t₀ history).1.rows.filter fun row =>
        row.discussionId = id ∧ row.userId = user).map DiscussionVote.value =
      (ballot history user).toList) ∧
    (voteAll id t₀ history).2.getLast? = history.getLast?.map (fun r =>
      .voted id ((voteAll id t₀ history).1.sum id) (userVoteOf (ballot history r.user))) ∧
    ∃ w, voteMachine.run noVotes (oneAtATime history) = some w ∧
      (∀ user, (w.shared.votes.rows.filter fun row => row.1 = user).map Prod.snd =
        (ballot history user).toList) ∧
      w.shared.voteCount = (voteAll id t₀ history).1.sum id ∧
      w.threads = (voteAll id t₀ history).2.map DiscussionVoteReply.onSolution := by
  obtain ⟨w, h⟩ := votesAgree hfresh hnone
  refine ⟨fun user => ?_, ?_, w, h.run, fun user => ?_, ?_, h.threads⟩
  · rw [DiscussionVotes.votes_eq h.rows, h.rule]
  · induction history using List.reverseRecOn with
    | nil => rfl
    | append_singleton history r _ =>
      obtain ⟨w', h'⟩ := votesAgree hfresh.init hnone
      obtain ⟨_, _, hreply⟩ := h'.concat (hfresh.last h')
      rw [voteAll_concat, List.getLast?_concat, List.getLast?_concat, hreply]
      rfl
  · rw [VoteTable.votes_eq, h.rule]
  · rw [h.count, DiscussionVotes.sum_of_ballots h.rows]

/-- A vote on another discussion. -/
def votesElsewhere : DiscussionVotes where
  rows := [⟨"v0", "e", "a", .down⟩]
  ids := by decide
  users := by decide

/-- One user votes up, down and down again, another one up. -/
def twoUsers : List VoteRequest :=
  [⟨"a", .up, "v1"⟩, ⟨"b", .up, "v2"⟩, ⟨"a", .down, "v3"⟩, ⟨"a", .down, "v4"⟩]

theorem vote_automaton_two_users :
    (voteAll "d" votesElsewhere twoUsers).2.getLast? = some (.voted "d" 1 0) ∧
      ∃ w, voteMachine.run noVotes (oneAtATime twoUsers) = some w ∧ w.shared.voteCount = 1 := by
  have hfresh : FreshIds votesElsewhere twoUsers := ⟨by decide, by decide⟩
  have hnone : ∀ row ∈ votesElsewhere.rows, row.discussionId ≠ "d" := by decide
  obtain ⟨_, hlast, w, hrun, _, hcount, _⟩ := vote_automaton hfresh hnone
  refine ⟨?_, w, hrun, ?_⟩
  · rw [hlast]
    rfl
  · rw [hcount]
    rfl

end Leetrank
