import Leetrank.Library.Threads
import Leetrank.Web.RateLimit

namespace Leetrank
set_option autoImplicit true

open EventMachine Threads

inductive UserRole where
  | user
  | admin
deriving DecidableEq

structure Account where
  username : String
  role : UserRole

/-- What a token says of its user. -/
structure Session where
  userId : String
  role : UserRole

/-- A signed token, which is valid until the second at which it expires. -/
structure Token where
  session : Session
  exp : Nat

/-- The users, the tokens that were issued, the rate limiter, and the time in milliseconds. -/
structure AdminDb where
  users : String → Option Account
  tokens : List Token
  buckets : Buckets
  now : Nat

def AdminDb.IsAdmin (s : AdminDb) (id : String) : Prop := ∃ u, s.users id = some u ∧ u.role = .admin

def AdminDb.HasAdmin (s : AdminDb) : Prop := ∃ id, s.IsAdmin id

def AdminDb.signToken (s : AdminDb) (session : Session) : AdminDb :=
  { s with tokens := s.tokens ++ [⟨session, s.now / 1000 + 15 * 60⟩] }

/-- The session of the token that the cookie of a request carries. -/
def AdminDb.getSession (s : AdminDb) (cookie : Option Nat) : Option Session :=
  (cookie.bind fun k => s.tokens[k]?).bind fun t =>
    if s.now / 1000 < t.exp then some t.session else none

inductive AdminBody where
  | error (text : String)
  | user (id username : String) (role : UserRole)
  | success

structure AdminResponse where
  status : Nat
  body : AdminBody
  retryAfter : Option Nat

def AdminResponse.error (status : Nat) (text : String) : AdminResponse :=
  ⟨status, .error text, none⟩

def adminFailed : AdminResponse := .error 500 "Internal server error"

/-- The guard of the admin routes: it reads the role from the token. -/
def requireAdmin (s : AdminDb) (cookie : Option Nat) : AdminDb × Except AdminResponse Session :=
  match s.getSession cookie with
  | none => (s, .error (.error 401 "Unauthorized"))
  | some session =>
    if session.role ≠ .admin then (s, .error (.error 403 "Forbidden"))
    else
      match memoryCheck s.buckets ("admin:" ++ session.userId) 60 60000 s.now with
      | (buckets, limit) =>
        if limit.allowed then ({ s with buckets := buckets }, .ok session)
        else
          ({ s with buckets := buckets },
            .error ⟨429, .error "Too many admin actions. Slow down.",
              some (retryAfterSeconds limit.resetAt s.now)⟩)

/-- The body of a role change, as JSON and its schema read it. -/
inductive RoleBody where
  | notJson
  | invalid (message : String)
  | role (role : UserRole)

inductive AdminRequest where
  | patchRole (cookie : Option Nat) (id : String) (body : RoleBody)
  | deleteUser (cookie : Option Nat) (id : String)

/-- Where a request stands: before the guard, or before its statement for the session that has
passed it. -/
inductive AdminPc where
  | gate (request : AdminRequest)
  | update (session : Session) (id : String) (role : UserRole)
  | delete (session : Session) (id : String)
  | returned (response : AdminResponse)

def AdminDb.setRole (s : AdminDb) (id : String) (u : Account) (role : UserRole) : AdminDb :=
  { s with users := Function.update s.users id (some { u with role := role }) }

def AdminDb.remove (s : AdminDb) (id : String) : AdminDb :=
  { s with users := Function.update s.users id none }

def adminStatement (s : AdminDb) : AdminPc → Option (AdminDb × AdminPc)
  | .gate (.patchRole cookie id body) =>
    match requireAdmin s cookie with
    | (s', .error response) => some (s', .returned response)
    | (s', .ok session) =>
      if id = session.userId then some (s', .returned (.error 409 "Cannot change your own role"))
      else
        match body with
        | .notJson => some (s', .returned (.error 400 "Invalid JSON body"))
        | .invalid message => some (s', .returned (.error 400 message))
        | .role role => some (s', .update session id role)
  | .gate (.deleteUser cookie id) =>
    match requireAdmin s cookie with
    | (s', .error response) => some (s', .returned response)
    | (s', .ok session) =>
      if id = session.userId then
        some (s', .returned (.error 409 "Cannot delete your own account from the admin panel"))
      else some (s', .delete session id)
  | .update _ id role =>
    match s.users id with
    | none => some (s, .returned (.error 404 "User not found"))
    | some u => some (s.setRole id u role, .returned ⟨200, .user id u.username role, none⟩)
  | .delete _ id =>
    match s.users id with
    | none => some (s, .returned (.error 404 "User not found"))
    | some _ => some (s.remove id, .returned ⟨200, .success, none⟩)
  | .returned _ => none

/-- What goes on besides the requests: time passes, users log in and new ones register. -/
inductive AccountEvent where
  | elapse (ms : Nat)
  | login (id : String)
  | register (id username : String)

def AdminDb.account (s : AdminDb) : AccountEvent → AdminDb
  | .elapse ms => { s with now := s.now + ms }
  | .login id =>
    match s.users id with
    | none => s
    | some u => s.signToken ⟨id, u.role⟩
  | .register id username =>
    match s.users id with
    | none =>
      { s with users := Function.update s.users id (some ⟨username, .user⟩) }.signToken ⟨id, .user⟩
    | some _ => s

/-- Any number of requests by holders of tokens. -/
def adminProgram : Program AdminDb AdminPc AdminRequest AccountEvent Outcome where
  start := fun _ r => .gate r
  ambient := AdminDb.account
  step := statementStep adminStatement fun _ => .returned adminFailed

/-- The requests over a table that has an admin, before anybody has logged in. -/
def adminMachine : Machine (World AdminDb AdminPc) (Event AdminRequest AccountEvent Outcome) :=
  adminProgram.machine fun s => s.HasAdmin ∧ s.tokens = []

/-- When a demotion or a deletion takes effect, the acting user is still an admin, or a third user
is one. -/
def ActsAsAdmin (s : AdminDb) (_ : Nat) : AdminPc → Outcome → Prop
  | _, .fail => True
  | .update session id .user, _ | .delete session id, _ =>
    s.IsAdmin session.userId ∨ ∃ third, third ≠ id ∧ third ≠ session.userId ∧ s.IsAdmin third
  | _, _ => True

/-- A request acts on a user other than the one of its session. -/
def AdminPc.OnOther : AdminPc → Prop
  | .update session id _ | .delete session id => session.userId ≠ id
  | .gate _ | .returned _ => True

variable {s s' : AdminDb} {id : String} {u : Account} {p p' : AdminPc}
  {w w₀ : World AdminDb AdminPc}

theorem requireAdmin_users (s : AdminDb) (cookie : Option Nat) :
    (requireAdmin s cookie).1.users = s.users := by
  unfold requireAdmin
  split
  next => rfl
  next =>
    split
    next => rfl
    next => dsimp only; split <;> rfl

/-- Where only one user has changed, an admin is left among the others or is that one. -/
theorem hasAdmin_iff_of_others {s' : AdminDb}
    (hother : ∀ other ≠ id, s'.IsAdmin other ↔ s.IsAdmin other) :
    s'.HasAdmin ↔ s'.IsAdmin id ∨ ∃ other ≠ id, s.IsAdmin other := by
  constructor
  · rintro ⟨other, h⟩
    by_cases heq : other = id
    · subst heq
      exact .inl h
    · exact .inr ⟨other, heq, (hother other heq).1 h⟩
  · rintro (h | ⟨other, hne, h⟩)
    · exact ⟨id, h⟩
    · exact ⟨other, (hother other hne).2 h⟩

theorem setRole_hasAdmin_iff (role : UserRole) :
    (s.setRole id u role).HasAdmin ↔ role = .admin ∨ ∃ other ≠ id, s.IsAdmin other := by
  have hself : (s.setRole id u role).IsAdmin id ↔ role = .admin := by
    simp [AdminDb.IsAdmin, AdminDb.setRole]
  have hothers (other : String) (h : other ≠ id) :
      (s.setRole id u role).IsAdmin other ↔ s.IsAdmin other := by
    simp only [AdminDb.IsAdmin, AdminDb.setRole, Function.update_of_ne h]
  rw [hasAdmin_iff_of_others hothers, hself]

theorem remove_hasAdmin_iff : (s.remove id).HasAdmin ↔ ∃ other ≠ id, s.IsAdmin other := by
  have hself : ¬(s.remove id).IsAdmin id := by
    simp [AdminDb.IsAdmin, AdminDb.remove]
  have hothers (other : String) (h : other ≠ id) :
      (s.remove id).IsAdmin other ↔ s.IsAdmin other := by
    simp only [AdminDb.IsAdmin, AdminDb.remove, Function.update_of_ne h]
  rw [hasAdmin_iff_of_others hothers, or_iff_right hself]

/-- Users other than the target who are admins: the acting one, or a third one. -/
theorem other_admin_iff (hne : actor ≠ id) :
    (∃ other ≠ id, s.IsAdmin other) ↔
      s.IsAdmin actor ∨ ∃ third, third ≠ id ∧ third ≠ actor ∧ s.IsAdmin third := by
  constructor
  · rintro ⟨other, hother, h⟩
    by_cases hactor : other = actor
    · exact .inl (hactor ▸ h)
    · exact .inr ⟨other, hother, hactor, h⟩
  · rintro (h | ⟨third, hthird, -, h⟩)
    · exact ⟨actor, hne, h⟩
    · exact ⟨third, hthird, h⟩

/-- The guard lets a request through for a user other than its target. -/
theorem gate_cases (h : adminStatement s (.gate r) = some (s', p')) :
    s'.users = s.users ∧ p'.OnOther := by
  cases r with
  | patchRole cookie id body =>
    have husers := requireAdmin_users s cookie
    simp only [adminStatement] at h
    split at h
    next hgate =>
      cases h
      rw [hgate] at husers
      exact ⟨husers, trivial⟩
    next hgate =>
      rw [hgate] at husers
      split at h
      next =>
        cases h
        exact ⟨husers, trivial⟩
      next hne =>
        split at h <;> cases h
        · exact ⟨husers, trivial⟩
        · exact ⟨husers, trivial⟩
        · exact ⟨husers, Ne.symm hne⟩
  | deleteUser cookie id =>
    have husers := requireAdmin_users s cookie
    simp only [adminStatement] at h
    split at h
    next hgate =>
      cases h
      rw [hgate] at husers
      exact ⟨husers, trivial⟩
    next hgate =>
      rw [hgate] at husers
      split at h
      next =>
        cases h
        exact ⟨husers, trivial⟩
      next hne =>
        cases h
        exact ⟨husers, Ne.symm hne⟩

theorem adminStep_onOther
    (h : statementStep adminStatement (fun _ => .returned adminFailed) s i p x = some (s', p')) :
    p'.OnOther := by
  rcases statementStep_thread h with rfl | hst
  · trivial
  · cases p with
    | gate r => exact (gate_cases hst).2
    | update session id role =>
      rw [adminStatement] at hst
      split at hst <;> cases hst <;> trivial
    | delete session id =>
      rw [adminStatement] at hst
      split at hst <;> cases hst <;> trivial
    | returned response => cases hst

/-- Who is not there is not the admin there is. -/
theorem AdminDb.HasAdmin.ne (ha : s.HasAdmin) (hid : s.users id = none) :
    ∃ other ≠ id, s.IsAdmin other := by
  obtain ⟨other, u, hu, hrole⟩ := ha
  refine ⟨other, ?_, u, hu, hrole⟩
  rintro rfl
  rw [hid] at hu
  cases hu

theorem update_hasAdmin_iff (ha : s.HasAdmin)
    (h : adminStatement s (.update session id role) = some (s', p')) :
    s'.HasAdmin ↔ role = .admin ∨ ∃ other ≠ id, s.IsAdmin other := by
  simp only [adminStatement] at h
  split at h
  next hnone =>
    cases h
    exact iff_of_true ha (.inr (ha.ne hnone))
  next u hu =>
    cases h
    exact setRole_hasAdmin_iff role

theorem delete_hasAdmin_iff (ha : s.HasAdmin)
    (h : adminStatement s (.delete session id) = some (s', p')) :
    s'.HasAdmin ↔ ∃ other ≠ id, s.IsAdmin other := by
  simp only [adminStatement] at h
  split at h
  next hnone =>
    cases h
    exact iff_of_true ha (ha.ne hnone)
  next u hu =>
    cases h
    exact remove_hasAdmin_iff

/-- A step leaves an admin exactly if it is taken by one, or while a third user is one. -/
theorem adminStep_hasAdmin (hp : p.OnOther) (ha : s.HasAdmin)
    (h : statementStep adminStatement (fun _ => .returned adminFailed) s i p x = some (s', p')) :
    s'.HasAdmin ↔ ActsAsAdmin s i p x := by
  rcases statementStep_cases h with ⟨rfl, rfl⟩ | ⟨hx, q, hst⟩
  · exact iff_of_true ha trivial
  · cases p with
    | gate r =>
      have husers := (gate_cases hst).1
      refine iff_of_true ?_ (by cases x <;> trivial)
      simpa only [AdminDb.HasAdmin, AdminDb.IsAdmin, husers] using ha
    | update session id role =>
      rw [update_hasAdmin_iff ha hst, other_admin_iff hp]
      cases x with
      | fail => exact (hx rfl).elim
      | proceed | lost => cases role <;> simp [ActsAsAdmin]
    | delete session id =>
      rw [delete_hasAdmin_iff ha hst, other_admin_iff hp]
      cases x with
      | fail => exact (hx rfl).elim
      | proceed | lost => exact Iff.rfl
    | returned response => cases hst

theorem account_hasAdmin (ha : s.HasAdmin) (e : AccountEvent) : (s.account e).HasAdmin := by
  cases e with
  | elapse ms => exact ha
  | login id =>
    rw [AdminDb.account]
    split <;> exact ha
  | register id username =>
    rw [AdminDb.account]
    split
    next hnone =>
      obtain ⟨other, hne, u, hu, hrole⟩ := ha.ne hnone
      exact ⟨other, u, (Function.update_of_ne hne _ _).trans hu, hrole⟩
    next => exact ha

/-- There is an admin in every state of a run exactly if no demotion or deletion takes effect for a
user who is not an admin any more, while no third user is one. -/
theorem admin_remains_iff {es : List (Event AdminRequest AccountEvent Outcome)}
    (h₀ : adminMachine.init w₀) :
    adminMachine.Always (fun _ _ w => w.shared.HasAdmin) w₀ es ↔
      adminMachine.Always (OnSteps ActsAsAdmin) w₀ es := by
  refine Program.always_shared_iff (Q := AdminPc.OnOther) (fun _ _ => trivial) ?_
    (fun _ e ha => account_hasAdmin ha e) ?_ h₀ h₀.1.1
  · intro s i p x s' p' h
    exact adminStep_onOther (i := i) h
  · intro s i p x s' p' hp ha h
    exact adminStep_hasAdmin hp ha h

/-- Two admins and a user. -/
def twoAdmins : World AdminDb AdminPc where
  shared := {
    users := fun id =>
      if id = "a" then some ⟨"ann", .admin⟩
      else if id = "b" then some ⟨"bob", .admin⟩
      else if id = "c" then some ⟨"cid", .user⟩
      else none
    tokens := []
    buckets := fun _ => none
    now := 0
  }
  threads := []

theorem twoAdmins_init : adminMachine.init twoAdmins := ⟨⟨⟨"a", _, rfl, rfl⟩, rfl⟩, rfl⟩

abbrev AdminTrace := List (Event AdminRequest AccountEvent Outcome)

/-- Both log in, and the first one takes the role from the second one. -/
def demotesBob : AdminTrace :=
  [.ambient (.login "a"), .ambient (.login "b"),
    .spawn (.patchRole (some 0) "b" (.role .user)), .act 0 .proceed, .act 0 .proceed]

/-- The second one, whose token still says admin, deletes the user. -/
def thenCidDeleted : AdminTrace :=
  demotesBob ++ [.spawn (.deleteUser (some 1) "c"), .act 1 .proceed, .act 1 .proceed]

/-- The second one, whose token still says admin, takes the role from the first one. -/
def thenAnnDemoted : AdminTrace :=
  demotesBob ++ [.spawn (.patchRole (some 1) "a" (.role .user)), .act 1 .proceed, .act 1 .proceed]

theorem admin_remains_cidDeleted :
    ∃ w, adminMachine.run twoAdmins thenCidDeleted = some w ∧
      w.threads = [.returned ⟨200, .user "b" "bob" .user, none⟩, .returned ⟨200, .success, none⟩] ∧
      w.shared.HasAdmin := by
  have hacts : adminMachine.Always (OnSteps ActsAsAdmin) twoAdmins thenCidDeleted := by
    refine Machine.always_cons rfl (.ambient _) ?_
    refine Machine.always_cons rfl (.ambient _) ?_
    refine Machine.always_cons rfl (.spawn _) ?_
    refine Machine.always_cons rfl (.act rfl trivial) ?_
    refine Machine.always_cons rfl (.act rfl (.inl ⟨_, rfl, rfl⟩)) ?_
    refine Machine.always_cons rfl (.spawn _) ?_
    refine Machine.always_cons rfl (.act rfl trivial) ?_
    refine Machine.always_cons rfl (.act rfl (.inr ⟨"a", by decide, by decide, _, rfl, rfl⟩)) ?_
    trivial
  have hrun : ∃ u w, adminMachine.run twoAdmins thenCidDeleted.dropLast = some u ∧
      adminMachine.step u (.act 1 .proceed) = some w ∧
      adminMachine.run twoAdmins thenCidDeleted = some w ∧
      w.threads = [.returned ⟨200, .user "b" "bob" .user, none⟩,
        .returned ⟨200, .success, none⟩] := ⟨_, _, rfl, rfl, rfl, rfl⟩
  obtain ⟨u, w, hu, hw, hrun, hthreads⟩ := hrun
  have hremains := (admin_remains_iff twoAdmins_init).2 hacts
  exact ⟨w, hrun, hthreads, Machine.Always.last hremains hu hw⟩

theorem admins_demote_each_other :
    ∃ w, adminMachine.run twoAdmins thenAnnDemoted = some w ∧
      w.threads = [.returned ⟨200, .user "b" "bob" .user, none⟩,
        .returned ⟨200, .user "a" "ann" .user, none⟩] ∧
      ¬w.shared.HasAdmin := by
  have hrun : ∃ w, adminMachine.run twoAdmins thenAnnDemoted = some w ∧
      w.threads = [.returned ⟨200, .user "b" "bob" .user, none⟩,
        .returned ⟨200, .user "a" "ann" .user, none⟩] ∧
      w.shared.users = Function.update
        (Function.update twoAdmins.shared.users "b" (some ⟨"bob", .user⟩)) "a"
        (some ⟨"ann", .user⟩) := ⟨_, rfl, rfl, rfl⟩
  obtain ⟨w, hrun, hthreads, husers⟩ := hrun
  refine ⟨w, hrun, hthreads, ?_⟩
  rintro ⟨id, u, hu, hrole⟩
  rw [husers] at hu
  by_cases ha : id = "a"
  · subst ha
    cases hu
    cases hrole
  · rw [Function.update_of_ne ha] at hu
    by_cases hb : id = "b"
    · subst hb
      cases hu
      cases hrole
    · rw [Function.update_of_ne hb] at hu
      simp only [twoAdmins, ha, hb, if_false] at hu
      split at hu
      next =>
        cases hu
        cases hrole
      next => cases hu

end Leetrank
