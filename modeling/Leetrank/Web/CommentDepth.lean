import Leetrank.Admin.LastAdmin
import Leetrank.Library.References
import Leetrank.Web.CommentTree

namespace Leetrank
set_option autoImplicit true

open EventMachine InsertionOrder References

/-- Root and two tiers of replies. -/
def MAX_REPLY_DEPTH : Nat := 3

def COMMENT_LIMIT_MAX : Nat := 10
def COMMENT_LIMIT_WINDOW_MS : Nat := 60000

structure Discussion where
  id : String
  userId : String

structure DiscussionComment where
  id : String
  discussionId : String
  userId : String
  parentId : Option String
  body : String

/-- The tables behind the routes, with the keys of their schema. -/
structure DiscussionDb where
  users : List CommentUser
  discussions : List Discussion
  comments : List DiscussionComment
  ids : (comments.map DiscussionComment.id).Nodup
  threads : ∀ c ∈ comments, c.discussionId ∈ discussions.map Discussion.id
  parents : Referential DiscussionComment.id DiscussionComment.parentId comments

def DiscussionDb.findComment (s : DiscussionDb) (id : String) : Option DiscussionComment :=
  s.comments.find? fun c => c.id = id

/-- `INSERT`, unless the id exists or a reference leads nowhere. -/
def DiscussionDb.insert (s : DiscussionDb) (c : DiscussionComment) : Option DiscussionDb :=
  if h : c.id ∉ s.comments.map DiscussionComment.id ∧
      c.discussionId ∈ s.discussions.map Discussion.id ∧
      ∀ p ∈ c.parentId, p ∈ (s.comments ++ [c]).map DiscussionComment.id then
    some { s with
      comments := s.comments ++ [c]
      ids := by
        rw [List.map_append, List.map_singleton, ← List.concat_eq_append]
        exact s.ids.concat h.1
      threads := List.forall_mem_append.2 ⟨s.threads, List.forall_mem_singleton.2 h.2.1⟩
      parents := by
        refine List.forall_mem_append.2 ⟨fun d hd p hp => ?_, List.forall_mem_singleton.2 h.2.2⟩
        rw [List.map_append]
        exact List.mem_append_left _ (s.parents d hd p hp) }
  else none

/-- What is left of the comments when some of them are deleted, and with them their replies. -/
def DiscussionDb.without (s : DiscussionDb) (gone : DiscussionComment → Bool) :
    List DiscussionComment :=
  cascade DiscussionComment.id DiscussionComment.parentId (s.comments.length + 1)
    ((s.comments.filter gone).map DiscussionComment.id) (s.comments.filter fun c => !gone c)

theorem without_sublist (s : DiscussionDb) (gone : DiscussionComment → Bool) :
    (s.without gone).Sublist (s.comments.filter fun c => !gone c) :=
  cascade_sublist _ _ _

theorem without_sublist_comments (s : DiscussionDb) (gone : DiscussionComment → Bool) :
    (s.without gone).Sublist s.comments :=
  (without_sublist s gone).trans List.filter_sublist

theorem referential_without (s : DiscussionDb) (gone : DiscussionComment → Bool) :
    Referential DiscussionComment.id DiscussionComment.parentId (s.without gone) := by
  refine referential_cascade (Nat.lt_succ_of_le (List.length_filter_le _ _)) ?_
  intro c hc p hp
  obtain ⟨d, hd, rfl⟩ := List.mem_map.1 (s.parents c (List.mem_of_mem_filter hc) p hp)
  cases hgone : gone d with
  | true => exact .inl (List.mem_map_of_mem (List.mem_filter.2 ⟨hd, hgone⟩))
  | false => exact .inr (List.mem_map_of_mem (List.mem_filter.2 ⟨hd, by rw [hgone]; rfl⟩))

def DiscussionDb.deleteComment (s : DiscussionDb) (id : String) : DiscussionDb where
  users := s.users
  discussions := s.discussions
  comments := s.without fun c => c.id = id
  ids := s.ids.sublist ((without_sublist_comments s _).map _)
  threads := fun c hc => s.threads c ((without_sublist_comments s _).subset hc)
  parents := referential_without s _

def DiscussionDb.deleteDiscussion (s : DiscussionDb) (id : String) : DiscussionDb where
  users := s.users
  discussions := s.discussions.filter fun d => d.id ≠ id
  comments := s.without fun c => c.discussionId = id
  ids := s.ids.sublist ((without_sublist_comments s _).map _)
  threads := by
    intro c hc
    obtain ⟨hc, hother⟩ := List.mem_filter.1 ((without_sublist s _).subset hc)
    obtain ⟨d, hd, hid⟩ := List.mem_map.1 (s.threads c hc)
    refine List.mem_map.2 ⟨d, List.mem_filter.2 ⟨hd, ?_⟩, hid⟩
    rw [hid]
    simpa using hother
  parents := referential_without s _

/-- A field of a JSON object; `other` is one of another type, whose name it has. -/
inductive JsonField where
  | missing
  | text (s : String)
  | other (received : String)

inductive CommentBody where
  | notJson
  | other (received : String)
  | object (body parentId : JsonField)

/-- The length that JavaScript counts. -/
def utf16Length (s : String) : Nat :=
  s.toList.foldl (fun n c => if c.val ≤ 0xffff then n + 1 else n + 2) 0

def bodyField : JsonField → Except String String
  | .missing => .error "Required"
  | .other received => .error ("Expected string, received " ++ received)
  | .text s =>
    if utf16Length s < 1 then .error "Body is required"
    else if 5000 < utf16Length s then .error "Body too long"
    else .ok s

def parentIdField : JsonField → Except String (Option String)
  | .missing => .ok none
  | .other received => .error ("Expected string, received " ++ received)
  | .text s =>
    if s = "" then .error "String must contain at least 1 character(s)" else .ok (some s)

/-- `createCommentSchema` with the message of its first issue. -/
def createCommentSchema : CommentBody → Except String (String × Option String)
  | .notJson => .error "Invalid JSON body"
  | .other received => .error ("Expected object, received " ++ received)
  | .object body parentId => do
    let text ← bodyField body
    let parent ← parentIdField parentId
    return (text, parent)

inductive DiscussionReply where
  | error (text : String)
  | comment (row : DiscussionComment) (user : CommentUser)
  | success

structure DiscussionResponse where
  status : Nat
  body : DiscussionReply
  retryAfter : Option Nat

def DiscussionResponse.error (status : Nat) (text : String) : DiscussionResponse :=
  ⟨status, .error text, none⟩

def discussionFailed : DiscussionResponse := .error 500 "Internal server error"

def tooDeep : DiscussionResponse :=
  .error 400 ("Replies are limited to " ++ toString MAX_REPLY_DEPTH ++ " levels deep.")

/-- What `POST` checks before it asks the database. -/
def commentGate (buckets : Buckets) (session : Option Session) (body : CommentBody) (now : Nat) :
    Buckets × Except DiscussionResponse (Session × String × Option String) :=
  match session with
  | none => (buckets, .error (.error 401 "Unauthorized"))
  | some session =>
    match memoryCheck buckets ("comment:" ++ session.userId) COMMENT_LIMIT_MAX
        COMMENT_LIMIT_WINDOW_MS now with
    | (buckets, limit) =>
      if limit.allowed then
        match createCommentSchema body with
        | .error message => (buckets, .error (.error 400 message))
        | .ok (text, parentId) => (buckets, .ok (session, text, parentId))
      else
        (buckets, .error ⟨429, .error "Too many comments. Slow down.",
          some (retryAfterSeconds limit.resetAt now)⟩)

/-- The walk up the chain; `left` is what `depth` lacks to the cap. -/
def DiscussionDb.climb (s : DiscussionDb) : Nat → Nat → Option String → Nat
  | 0, depth, _ => depth
  | left + 1, depth, cursorParentId =>
    match truthy cursorParentId with
    | none => depth
    | some id =>
      match s.findComment id with
      | none => depth + 1
      | some next => s.climb left (depth + 1) next.parentId

def DiscussionDb.replyDepth (s : DiscussionDb) (parent : DiscussionComment) : Nat :=
  s.climb (MAX_REPLY_DEPTH - 1) 1 parent.parentId

/-- The refusal of a reply, if there is one. -/
def DiscussionDb.refuseReply (s : DiscussionDb) (id parentId : String) :
    Option DiscussionResponse :=
  match s.findComment parentId with
  | none => some (.error 404 "Parent comment not found")
  | some parent =>
    if parent.discussionId ≠ id then some (.error 404 "Parent comment not found")
    else if MAX_REPLY_DEPTH ≤ s.replyDepth parent then some tooDeep
    else none

/-- The database's part of `POST`; `newId` is the id that the new row is given. -/
def DiscussionDb.reply (s : DiscussionDb) (session : Session) (id text : String)
    (parentId : Option String) (newId : String) : DiscussionDb × DiscussionResponse :=
  if id ∉ s.discussions.map Discussion.id then (s, .error 404 "Discussion not found")
  else
    match (truthy parentId).bind (s.refuseReply id) with
    | some refusal => (s, refusal)
    | none =>
      let row : DiscussionComment := ⟨newId, id, session.userId, parentId, text⟩
      match s.users.find? fun u => u.id = session.userId with
      | none => (s, discussionFailed)
      | some user =>
        match s.insert row with
        | none => (s, discussionFailed)
        | some s' => (s', ⟨201, .comment row user, none⟩)

/-- The tables, and the rate limiter of the process. -/
structure DiscussionApp where
  db : DiscussionDb
  buckets : Buckets

def postComment (s : DiscussionApp) (session : Option Session) (id : String) (body : CommentBody)
    (now : Nat) (newId : String) : DiscussionApp × DiscussionResponse :=
  match commentGate s.buckets session body now with
  | (buckets, .error response) => (⟨s.db, buckets⟩, response)
  | (buckets, .ok (session, text, parentId)) =>
    match s.db.reply session id text parentId newId with
    | (db, response) => (⟨db, buckets⟩, response)

def deleteComment (s : DiscussionApp) (session : Option Session) (id commentId : String) :
    DiscussionApp × DiscussionResponse :=
  match session with
  | none => (s, .error 401 "Unauthorized")
  | some session =>
    match s.db.findComment commentId with
    | none => (s, .error 404 "Comment not found")
    | some comment =>
      if comment.discussionId ≠ id then (s, .error 403 "Forbidden")
      else if comment.userId ≠ session.userId ∧ session.role ≠ .admin then
        (s, .error 403 "Forbidden")
      else ({ s with db := s.db.deleteComment comment.id }, ⟨200, .success, none⟩)

def deleteDiscussion (s : DiscussionApp) (session : Option Session) (id : String) :
    DiscussionApp × DiscussionResponse :=
  match session with
  | none => (s, .error 401 "Unauthorized")
  | some session =>
    match s.db.discussions.find? fun d => d.id = id with
    | none => (s, .error 404 "Discussion not found")
    | some discussion =>
      if discussion.userId ≠ session.userId ∧ session.role ≠ .admin then
        (s, .error 403 "Forbidden")
      else ({ s with db := s.db.deleteDiscussion id }, ⟨200, .success, none⟩)

inductive DiscussionRequest where
  | postComment (session : Option Session) (id : String) (body : CommentBody) (now : Nat)
    (newId : String)
  | deleteComment (session : Option Session) (id commentId : String)
  | deleteDiscussion (session : Option Session) (id : String)

def discussionHandle (s : DiscussionApp) : DiscussionRequest → DiscussionApp × DiscussionResponse
  | .postComment session id body now newId => postComment s session id body now newId
  | .deleteComment session id commentId => deleteComment s session id commentId
  | .deleteDiscussion session id => deleteDiscussion s session id

/-- Requests one after the other, from any discussions without comments. -/
def discussionMachine : Machine DiscussionApp DiscussionRequest where
  init := fun s => s.db.comments = []
  step := fun s r => some (discussionHandle s r).1

abbrev DiscussionDb.AtDepth (s : DiscussionDb) : Nat → DiscussionComment → Prop :=
  References.AtDepth DiscussionComment.id DiscussionComment.parentId s.comments

/-- No comment is too deep, each reply is in the thread of its parent, and no reference is empty. -/
structure DiscussionDb.Sound (s : DiscussionDb) : Prop where
  shallow : Shallow DiscussionComment.id DiscussionComment.parentId MAX_REPLY_DEPTH s.comments
  together : ∀ c ∈ s.comments, ∀ p ∈ s.comments, c.parentId = some p.id →
    p.discussionId = c.discussionId
  named : ∀ c ∈ s.comments, c.parentId ≠ some ""

variable {s s' : DiscussionDb} {c parent : DiscussionComment} {n depth left : Nat}
  {id newId text : String} {parentId : Option String} {session : Session}

theorem DiscussionDb.findComment_of_mem (hc : c ∈ s.comments) : s.findComment c.id = some c :=
  find?_of_key s.ids hc

theorem DiscussionDb.mem_of_findComment (h : s.findComment id = some c) :
    c ∈ s.comments ∧ c.id = id :=
  ⟨List.mem_of_find?_eq_some h, of_decide_eq_true (List.find?_some h :)⟩

/-- The walk counts the ancestors of the parent, as far as it may go. -/
theorem climb_eq (hs : s.Sound) (h : s.AtDepth n c) :
    s.climb left depth c.parentId = depth + min left (n - 1) := by
  induction left generalizing depth n c with
  | zero => rw [DiscussionDb.climb, Nat.zero_min, Nat.add_zero]
  | succ left ih =>
    cases h with
    | root _ hp =>
      rw [hp]
      rfl
    | @reply _ b n hc hp hb =>
      have hnamed : truthy (some b.id) = some b.id := by
        have hne : b.id ≠ "" := fun h => hs.named c hc (h ▸ hp)
        exact Option.filter_some_pos (decide_eq_true hne)
      have hpos := hb.pos
      rw [hp, DiscussionDb.climb, hnamed]
      simp only [s.findComment_of_mem hb.mem]
      rw [ih hb]
      omega

theorem replyDepth_eq (hs : s.Sound) (h : s.AtDepth n c) :
    s.replyDepth c = min MAX_REPLY_DEPTH n := by
  have hpos := h.pos
  rw [DiscussionDb.replyDepth, climb_eq hs h]
  simp only [MAX_REPLY_DEPTH]
  omega

theorem not_too_deep_iff (hs : s.Sound) (h : s.AtDepth n c) :
    ¬MAX_REPLY_DEPTH ≤ s.replyDepth c ↔ n < MAX_REPLY_DEPTH := by
  rw [replyDepth_eq hs h]
  omega

theorem refuseReply_none (hs : s.Sound) (h : s.refuseReply id newId = none) :
    ∃ p n, p ∈ s.comments ∧ p.id = newId ∧ p.discussionId = id ∧ s.AtDepth n p ∧
      n < MAX_REPLY_DEPTH := by
  unfold DiscussionDb.refuseReply at h
  split at h
  next => cases h
  next p hfind =>
    obtain ⟨hp, hid⟩ := DiscussionDb.mem_of_findComment hfind
    obtain ⟨n, _, hdepth⟩ := hs.shallow p hp
    split at h
    next => cases h
    next hthread =>
      split at h
      next => cases h
      next hlow =>
        exact ⟨p, n, hp, hid, not_not.1 hthread, hdepth, (not_too_deep_iff hs hdepth).1 hlow⟩

theorem insert_comments (h : s.insert c = some s') : s'.comments = s.comments ++ [c] := by
  unfold DiscussionDb.insert at h
  split at h
  next =>
    cases h
    rfl
  next => cases h

theorem DiscussionDb.Sound.restrict (hs : s.Sound) (hsub : s'.comments ⊆ s.comments) :
    s'.Sound where
  shallow := hs.shallow.restrict s.ids hsub s'.parents
  together := fun c hc p hp => hs.together c (hsub hc) p (hsub hp)
  named := fun c hc => hs.named c (hsub hc)

/-- A reply that is not refused may be added. -/
theorem DiscussionDb.Sound.insert (hs : s.Sound) (hins : s.insert c = some s')
    (hnamed : c.parentId ≠ some "")
    (hp : ∀ k ∈ c.parentId, ∃ p n, p ∈ s.comments ∧ p.id = k ∧ p.discussionId = c.discussionId ∧
      s.AtDepth n p ∧ n < MAX_REPLY_DEPTH) : s'.Sound := by
  have hcomments := insert_comments hins
  have hkeys := s'.ids
  refine ⟨?_, ?_, ?_⟩
  · rw [hcomments]
    refine hs.shallow.concat (by decide) fun k hk => ?_
    obtain ⟨p, n, _, hid, _, hdepth, hn⟩ := hp k hk
    exact ⟨p, n, hid, hdepth, hn⟩
  · intro d hd q hq hdq
    rw [hcomments] at hd hq hkeys
    have hsub : s.comments ⊆ s.comments ++ [c] := List.subset_append_left _ _
    rcases List.mem_append.1 hd with hd | hd
    · obtain ⟨r, hr, hid⟩ := List.mem_map.1 (s.parents d hd q.id hdq)
      obtain rfl := List.inj_on_of_nodup_map hkeys (hsub hr) hq hid
      exact hs.together d hd r hr hdq
    · obtain rfl := List.mem_singleton.1 hd
      obtain ⟨p, _, hmem, hid, hthread, _, _⟩ := hp q.id hdq
      obtain rfl := List.inj_on_of_nodup_map hkeys (hsub hmem) hq hid
      exact hthread
  · intro d hd
    rw [hcomments] at hd
    rcases List.mem_append.1 hd with hd | hd
    · exact hs.named d hd
    · obtain rfl := List.mem_singleton.1 hd
      exact hnamed

theorem truthy_of_ne (h : parentId ≠ some "") : truthy parentId = parentId := by
  cases parentId with
  | none => rfl
  | some p => exact Option.filter_some_pos (decide_eq_true fun he => h (congrArg some he))

/-- The refusals for the depth are told from the others by how their text begins. -/
theorem error_ne_tooDeep {message : String} (h : message.toList.take 3 ≠ ['R', 'e', 'p']) :
    DiscussionResponse.error 400 message ≠ tooDeep := by
  intro he
  have hbody : DiscussionReply.error message = tooDeep.body :=
    congrArg DiscussionResponse.body he
  injection hbody with hmessage
  apply h
  rw [hmessage]
  decide

theorem received_ne_tooDeep {expected : String} (received : String)
    (hlen : 3 ≤ expected.toList.length) (h : expected.toList.take 3 ≠ ['R', 'e', 'p']) :
    DiscussionResponse.error 400 (expected ++ received) ≠ tooDeep := by
  apply error_ne_tooDeep
  rw [String.toList_append, List.take_append_of_le_length hlen]
  exact h

/-- What a check lets through has a property, and no refusal of it is one for the depth. -/
def Checked (P : β → Prop) : Except String β → Prop
  | .ok x => P x
  | .error message => DiscussionResponse.error 400 message ≠ tooDeep

theorem Checked.bind {x : Except String β} {f : β → Except String γ} (hx : Checked P x)
    (hf : ∀ b, P b → Checked Q (f b)) : Checked Q (x >>= f) := by
  cases x with
  | error message => exact hx
  | ok b => exact hf b hx

theorem bodyField_checked (f : JsonField) : Checked (fun _ => True) (bodyField f) := by
  cases f with
  | missing => exact error_ne_tooDeep (by decide)
  | other received => exact received_ne_tooDeep received (by decide) (by decide)
  | text t =>
    rw [bodyField]
    split
    next => exact error_ne_tooDeep (by decide)
    next =>
      split
      next => exact error_ne_tooDeep (by decide)
      next => trivial

theorem parentIdField_checked (f : JsonField) :
    Checked (fun parentId => parentId ≠ some "") (parentIdField f) := by
  cases f with
  | missing => exact Option.some_ne_none "" ∘ Eq.symm
  | other received => exact received_ne_tooDeep received (by decide) (by decide)
  | text t =>
    rw [parentIdField]
    split
    next => exact error_ne_tooDeep (by decide)
    next hne => exact fun he => hne (Option.some.inj he)

theorem createCommentSchema_checked (body : CommentBody) :
    Checked (fun fields => fields.2 ≠ some "") (createCommentSchema body) := by
  cases body with
  | notJson => exact error_ne_tooDeep (by decide)
  | other received => exact received_ne_tooDeep received (by decide) (by decide)
  | object body parent =>
    apply (bodyField_checked body).bind
    intro text _
    apply (parentIdField_checked parent).bind
    exact fun _ hne => hne

theorem ne_tooDeep_of_status {status : Nat} {reply : DiscussionReply} {retryAfter : Option Nat}
    (h : status ≠ 400) : (⟨status, reply, retryAfter⟩ : DiscussionResponse) ≠ tooDeep :=
  fun he => h (congrArg DiscussionResponse.status he)

/-- The gate lets no empty parent through, and does not refuse anything for its depth. -/
theorem commentGate_spec (buckets : Buckets) (cookie : Option Session) (body : CommentBody)
    (now : Nat) :
    (∀ user text parentId,
      (commentGate buckets cookie body now).2 = .ok (user, text, parentId) → parentId ≠ some "") ∧
      ∀ r, (commentGate buckets cookie body now).2 = .error r → r ≠ tooDeep := by
  have hchecked := createCommentSchema_checked body
  unfold commentGate
  split
  next =>
    refine ⟨nofun, ?_⟩
    rintro r ⟨⟩
    exact ne_tooDeep_of_status (by decide)
  next =>
    dsimp only
    split
    next =>
      split
      next message he =>
        rw [he] at hchecked
        refine ⟨nofun, ?_⟩
        rintro r ⟨⟩
        exact hchecked
      next text parentId hok =>
        rw [hok] at hchecked
        refine ⟨?_, nofun⟩
        rintro user text parentId ⟨⟩
        exact hchecked
    next =>
      refine ⟨nofun, ?_⟩
      rintro r ⟨⟩
      exact ne_tooDeep_of_status (by decide)

theorem refuseReply_tooDeep_iff (hs : s.Sound) (p : String) :
    s.refuseReply id p = some tooDeep ↔
      ∃ parent ∈ s.comments, parent.id = p ∧ parent.discussionId = id ∧
        s.AtDepth MAX_REPLY_DEPTH parent := by
  have hmissing : DiscussionResponse.error 404 "Parent comment not found" ≠ tooDeep :=
    ne_tooDeep_of_status (by decide)
  unfold DiscussionDb.refuseReply
  split
  next hfind =>
    refine iff_of_false (fun h => hmissing (Option.some.inj h)) ?_
    rintro ⟨parent, hmem, rfl, _⟩
    rw [DiscussionDb.findComment_of_mem hmem] at hfind
    cases hfind
  next q hfind =>
    obtain ⟨hq, rfl⟩ := DiscussionDb.mem_of_findComment hfind
    obtain ⟨n, hn, hdepth⟩ := hs.shallow q hq
    have honly : ∀ parent ∈ s.comments, parent.id = q.id → parent = q :=
      fun parent hparent hid => List.inj_on_of_nodup_map s.ids hparent hq hid
    split
    next hthread =>
      refine iff_of_false (fun h => hmissing (Option.some.inj h)) ?_
      rintro ⟨parent, hparent, hid, hdisc, _⟩
      rw [honly parent hparent hid] at hdisc
      exact hthread hdisc
    next hthread =>
      split
      next hdeep =>
        refine iff_of_true rfl ⟨q, hq, rfl, not_not.1 hthread, ?_⟩
        rw [replyDepth_eq hs hdepth] at hdeep
        have hmax : n = MAX_REPLY_DEPTH := by omega
        exact hmax ▸ hdepth
      next hlow =>
        refine iff_of_false nofun ?_
        rintro ⟨parent, hparent, hid, _, hmax⟩
        rw [honly parent hparent hid] at hmax
        exact absurd ((not_too_deep_iff hs hmax).1 hlow) (Nat.lt_irrefl _)

/-- Past the gate only a parent at the greatest depth has a reply refused for its depth. -/
theorem reply_tooDeep_iff (hs : s.Sound) (hp : parentId ≠ some "") :
    (s.reply session id text parentId newId).2 = tooDeep ↔
      id ∈ s.discussions.map Discussion.id ∧ ∃ parent ∈ s.comments, parentId = some parent.id ∧
        parent.discussionId = id ∧ s.AtDepth MAX_REPLY_DEPTH parent := by
  have hrefuse (k : String) (hk : parentId = some k) : s.refuseReply id k = some tooDeep ↔
      ∃ parent ∈ s.comments, parentId = some parent.id ∧ parent.discussionId = id ∧
        s.AtDepth MAX_REPLY_DEPTH parent := by
    rw [refuseReply_tooDeep_iff hs, hk]
    simp only [Option.some.injEq, eq_comm]
  unfold DiscussionDb.reply
  split
  next hmissing =>
    exact iff_of_false (ne_tooDeep_of_status (by decide)) fun h => hmissing h.1
  next hthere =>
    rw [and_iff_right (not_not.1 hthere), truthy_of_ne hp]
    split
    next refusal hbind =>
      obtain ⟨k, hk, hrefusal⟩ := Option.bind_eq_some_iff.1 hbind
      rw [← hrefuse k hk, hrefusal, Option.some.injEq]
    next haccept =>
      refine iff_of_false ?_ ?_
      · dsimp only
        split
        next => exact ne_tooDeep_of_status (by decide)
        next =>
          split
          next => exact ne_tooDeep_of_status (by decide)
          next => exact ne_tooDeep_of_status (by decide)
      · rintro ⟨parent, hparent, hk, hrest⟩
        have hdeep := (hrefuse parent.id hk).2 ⟨parent, hparent, hk, hrest⟩
        rw [hk, Option.bind_some, hdeep] at haccept
        cases haccept

theorem reply_sound (hs : s.Sound) (hp : parentId ≠ some "") :
    (s.reply session id text parentId newId).1.Sound := by
  unfold DiscussionDb.reply
  split
  next => exact hs
  next =>
    rw [truthy_of_ne hp]
    split
    next => exact hs
    next haccept =>
      dsimp only
      split
      next => exact hs
      next =>
        split
        next => exact hs
        next hins =>
          refine hs.insert hins hp fun k hk => ?_
          have hk : parentId = some k := hk
          rw [hk] at haccept
          exact refuseReply_none hs haccept

theorem postComment_sound {a : DiscussionApp} (ha : a.db.Sound) (cookie : Option Session)
    (id : String) (body : CommentBody) (now : Nat) (newId : String) :
    (postComment a cookie id body now newId).1.db.Sound := by
  unfold postComment
  split
  next => exact ha
  next hgate =>
    exact reply_sound ha ((commentGate_spec ..).1 _ _ _ (congrArg Prod.snd hgate))

theorem deleteComment_comments (a : DiscussionApp) (cookie : Option Session)
    (id commentId : String) :
    (deleteComment a cookie id commentId).1.db.comments ⊆ a.db.comments := by
  have hkeep : a.db.comments ⊆ a.db.comments := List.Subset.refl _
  unfold deleteComment
  split
  next => exact hkeep
  next =>
    split
    next => exact hkeep
    next =>
      split
      next => exact hkeep
      next =>
        split
        next => exact hkeep
        next => exact (without_sublist_comments _ _).subset

theorem deleteDiscussion_comments (a : DiscussionApp) (cookie : Option Session) (id : String) :
    (deleteDiscussion a cookie id).1.db.comments ⊆ a.db.comments := by
  have hkeep : a.db.comments ⊆ a.db.comments := List.Subset.refl _
  unfold deleteDiscussion
  split
  next => exact hkeep
  next =>
    split
    next => exact hkeep
    next =>
      split
      next => exact hkeep
      next => exact (without_sublist_comments _ _).subset

theorem sound_invariant : discussionMachine.Invariant fun a => a.db.Sound := by
  rintro a r a' ha hstep -
  cases hstep
  cases r with
  | postComment cookie id body now newId => exact postComment_sound ha cookie id body now newId
  | deleteComment cookie id commentId => exact ha.restrict (deleteComment_comments a cookie id _)
  | deleteDiscussion cookie id => exact ha.restrict (deleteDiscussion_comments a cookie id)

theorem sound_of_empty (h : s.comments = []) : s.Sound := by
  refine ⟨?_, ?_, ?_⟩
  · intro c hc
    rw [h] at hc
    cases hc
  · intro c hc
    rw [h] at hc
    cases hc
  · intro c hc
    rw [h] at hc
    cases hc

/-- In every reachable state no comment is deeper than the cap, replies stay in the thread of their
parent, and a reply that passes the gate is refused for its depth exactly if it goes under a comment
that is as deep as can be. -/
theorem reply_depth_bounded {a : DiscussionApp} (h : discussionMachine.Reachable a) :
    (∀ c ∈ a.db.comments, (∃ n, a.db.AtDepth n c) ∧ ∀ n, a.db.AtDepth n c → n ≤ MAX_REPLY_DEPTH) ∧
    (∀ c ∈ a.db.comments, ∀ k ∈ c.parentId,
      ∃ p ∈ a.db.comments, p.id = k ∧ p.discussionId = c.discussionId) ∧
    ∀ (cookie : Option Session) (id : String) (body : CommentBody) (now : Nat) (newId : String),
      (postComment a cookie id body now newId).2 = tooDeep ↔
        ∃ (user : Session) (text : String) (parent : DiscussionComment),
          (commentGate a.buckets cookie body now).2 = .ok (user, text, some parent.id) ∧
          id ∈ a.db.discussions.map Discussion.id ∧ parent ∈ a.db.comments ∧
          parent.discussionId = id ∧ a.db.AtDepth MAX_REPLY_DEPTH parent := by
  have hs : a.db.Sound := sound_invariant.reachable (fun _ => sound_of_empty) h
  refine ⟨?_, ?_, ?_⟩
  · intro c hc
    obtain ⟨n, hn, hdepth⟩ := hs.shallow c hc
    refine ⟨⟨n, hdepth⟩, fun m hm => ?_⟩
    rw [hm.unique a.db.ids hdepth]
    exact hn
  · intro c hc k hk
    obtain ⟨p, hp, rfl⟩ := List.mem_map.1 (a.db.parents c hc k hk)
    exact ⟨p, hp, rfl, hs.together c hc p hp hk⟩
  · intro cookie id body now newId
    unfold postComment
    split
    next buckets r hgate =>
      have hsnd := congrArg Prod.snd hgate
      refine iff_of_false ((commentGate_spec ..).2 r hsnd) ?_
      rintro ⟨user, text, parent, hok, _⟩
      rw [hsnd] at hok
      cases hok
    next buckets user text parentId hgate =>
      have hsnd := congrArg Prod.snd hgate
      rw [reply_tooDeep_iff hs ((commentGate_spec ..).1 _ _ _ hsnd), hsnd]
      constructor
      · rintro ⟨hid, parent, hparent, rfl, hrest⟩
        exact ⟨user, text, parent, rfl, hid, hparent, hrest⟩
      · rintro ⟨user', text', parent, hok, hid, hparent, hrest⟩
        cases hok
        exact ⟨hid, parent, hparent, rfl, hrest⟩

/-- A discussion of a user's own, without comments. -/
def quietDiscussion : DiscussionApp where
  db := {
    users := [⟨"u", "ann", none⟩]
    discussions := [⟨"d", "u"⟩]
    comments := []
    ids := List.nodup_nil
    threads := fun _ hc => nomatch hc
    parents := fun _ hc => nomatch hc }
  buckets := fun _ => none

def postUnder (parentId : JsonField) (newId : String) : DiscussionRequest :=
  .postComment (some ⟨"u", .user⟩) "d" (.object (.text "hello") parentId) 0 newId

/-- A thread whose second and third comment are deleted with a request for the second one, before it
is as deep as can be again. -/
def deepThread : List DiscussionRequest :=
  [postUnder .missing "a", postUnder (.text "a") "b", postUnder (.text "b") "c",
    .deleteComment (some ⟨"u", .user⟩) "d" "b", postUnder (.text "a") "e",
    postUnder (.text "e") "f"]

theorem reply_depth_bounded_thread :
    ∃ s, discussionMachine.run quietDiscussion deepThread = some s ∧
      s.db.comments.map DiscussionComment.id = ["a", "e", "f"] ∧
      (discussionHandle s (postUnder (.text "f") "g")).2 = tooDeep := by
  refine ⟨_, rfl, rfl, ?_⟩
  refine ((reply_depth_bounded ⟨quietDiscussion, deepThread, rfl, rfl⟩).2.2 _ "d" _ 0 "g").2 ?_
  let a : DiscussionComment := ⟨"a", "d", "u", none, "hello"⟩
  let e : DiscussionComment := ⟨"e", "d", "u", some "a", "hello"⟩
  let f : DiscussionComment := ⟨"f", "d", "u", some "e", "hello"⟩
  have ha : a ∈ [a, e, f] := List.mem_cons_self
  have he : e ∈ [a, e, f] := List.mem_cons_of_mem a List.mem_cons_self
  have hf : f ∈ [a, e, f] := List.mem_cons_of_mem a (List.mem_cons_of_mem e List.mem_cons_self)
  refine ⟨⟨"u", .user⟩, "hello", f, rfl, List.mem_cons_self, hf, rfl, ?_⟩
  exact .reply hf (b := e) rfl (.reply he (b := a) rfl (.root ha rfl))

end Leetrank
