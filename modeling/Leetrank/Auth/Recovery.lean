import Leetrank.Auth.PasswordReset
import Leetrank.Library.InsertionMap
import Leetrank.Library.Machine
import Mathlib.Data.List.Nodup

namespace Leetrank
set_option autoImplicit true

open EventMachine InsertionOrder

/-- The columns of `User` by which accounts are found, with the hash of the password. -/
structure UserRow where
  id : String
  email : String
  username : String
  password : String
  createdAt : Time

structure ResetTokenRow where
  tokenHash : TokenHash
  userId : String
  expiresAt : Time

/-- The accounts, of which no two have the same id or email, and the reset tokens. -/
structure AccountDb where
  users : List UserRow
  resetTokens : List ResetTokenRow
  ids : (users.map UserRow.id).Nodup
  emails : (users.map UserRow.email).Nodup

/-- The class `[^@\s]`. -/
def emailChar (c : Char) : Bool :=
  c ≠ '@' && !(c.val == 9 || c.val == 10 || c.val == 12 || c.val == 13 || c.val == 32)

/-- The expression `^[^@\s]+@[^@\s]+\.[^@\s]+$`. -/
def emailRe (s : String) : Bool :=
  s.toList.takeWhile emailChar ≠ [] &&
    match s.toList.dropWhile emailChar with
    | '@' :: domain => domain.all emailChar && (domain.drop 1).dropLast.contains '.'
    | _ => false

def usernameRe (s : String) : Bool :=
  3 ≤ s.length && s.length ≤ 30 &&
    s.toList.all fun c => ('a' ≤ c && c ≤ 'z') || c.isDigit || c == '_'

structure RegisterRequest where
  email : String
  username : String
  password : String

inductive RegisterBody where
  | error (text : String)
  | user (id email username role : String) (createdAt : Time)

structure RegisterResponse where
  status : Nat
  body : RegisterBody

/-- The checks of `register` before it asks the database. -/
def RegisterRequest.refusal (req : RegisterRequest) : Option String :=
  if !emailRe (trimSpace req.email) then some "invalid email address"
  else if !usernameRe (trimSpace req.username) then
    some ("username must be 3-30 characters and contain only lowercase letters, " ++
      "numbers, or underscores")
  else if req.password.utf8ByteSize < 8 then some "password must be at least 8 characters"
  else none

/-- The row that a request leads to. -/
def RegisterRequest.row (req : RegisterRequest) (id hash : String) (now : Time) : UserRow :=
  ⟨id, trimSpace req.email, trimSpace req.username, hash, now⟩

def AccountDb.inUse (db : AccountDb) (email username : String) : Prop :=
  ∃ u ∈ db.users, u.email = email ∨ u.username = username

instance (db : AccountDb) (email username : String) : Decidable (db.inUse email username) :=
  inferInstanceAs (Decidable (∃ u ∈ db.users, _))

def AccountDb.insert (db : AccountDb) (row : UserRow) (hid : row.id ∉ db.users.map UserRow.id)
    (hemail : row.email ∉ db.users.map UserRow.email) : AccountDb :=
  { db with
    users := db.users ++ [row]
    ids := by
      rw [List.map_append, List.map_singleton, ← List.concat_eq_append]
      exact db.ids.concat hid
    emails := by
      rw [List.map_append, List.map_singleton, ← List.concat_eq_append]
      exact db.emails.concat hemail }

theorem AccountDb.email_new {db : AccountDb} (h : ¬db.inUse email username) :
    email ∉ db.users.map UserRow.email := by
  intro hmem
  obtain ⟨u, hu, rfl⟩ := List.mem_map.1 hmem
  exact h ⟨u, hu, .inl rfl⟩

/-- `register`, for the id and the hash of the password that are made, and whether the session
tokens can be issued; without a hash the password is too long for one. -/
def AccountDb.register (db : AccountDb) (body : Option RegisterRequest) (id : String)
    (hash : Option String) (now : Time) (issued : Bool) : AccountDb × RegisterResponse :=
  match body with
  | none => (db, ⟨400, .error "invalid JSON body"⟩)
  | some req =>
    match req.refusal with
    | some text => (db, ⟨400, .error text⟩)
    | none =>
      if h : db.inUse (trimSpace req.email) (trimSpace req.username) then
        (db, ⟨409, .error "email or username already in use"⟩)
      else
        match hash with
        | none => (db, ⟨500, .error "internal server error"⟩)
        | some hash =>
          let row := req.row id hash now
          if hid : row.id ∈ db.users.map UserRow.id then
            (db, ⟨500, .error "internal server error"⟩)
          else
            (db.insert row hid (AccountDb.email_new h),
              if issued then ⟨201, .user id row.email row.username "user" now⟩
              else ⟨500, .error "internal server error"⟩)

def passwordResetTTL : Time := hour

structure ForgotResponse where
  status : Nat
  resetToken : Option String

section
variable (m : CaseMap) (hashOpaqueToken : String → TokenHash) (devReturnTokens : Bool)

/-- `forgotPassword` with no failure of the database, for the new token `plain`. -/
def AccountDb.forgotPassword (db : AccountDb) (body : Option String) (plain : String) (now : Time) :
    AccountDb × ForgotResponse :=
  match body with
  | none => (db, ⟨202, none⟩)
  | some email =>
    let email := trimSpace (m.toLower email)
    if !emailRe email then (db, ⟨202, none⟩)
    else
      match db.users.find? fun u => u.email = email with
      | none => (db, ⟨202, none⟩)
      | some u =>
        ({ db with
            resetTokens := db.resetTokens ++
              [⟨hashOpaqueToken plain, u.id, now + passwordResetTTL⟩] },
          ⟨202, if devReturnTokens then some plain else none⟩)

inductive RecoveryEvent where
  | register (body : Option RegisterRequest) (id : String) (hash : Option String) (now : Time)
    (issued : Bool)
  | forgotPassword (body : Option String) (plain : String) (now : Time)

def accountMachine : Machine AccountDb RecoveryEvent where
  init := fun db => db.users = [] ∧ db.resetTokens = []
  step
    | db, .register body id hash now issued => some (db.register body id hash now issued).1
    | db, .forgotPassword body plain now =>
      some (db.forgotPassword m hashOpaqueToken devReturnTokens body plain now).1

/-- A request with the email stores a reset token for the account. -/
def AccountDb.Recovers (db : AccountDb) (email id : String) : Prop :=
  ∀ plain now,
    (db.forgotPassword m hashOpaqueToken devReturnTokens (some email) plain now).1.resetTokens =
      db.resetTokens ++ [⟨hashOpaqueToken plain, id, now + passwordResetTTL⟩]

end

variable {db db' : AccountDb} {m : CaseMap} {hashOpaqueToken : String → TokenHash}
  {devReturnTokens : Bool} {id : String} {hash : Option String}

/-- A registration leaves the accounts as they are, or adds one for an email that has passed the
checks. -/
theorem AccountDb.register_users (db : AccountDb) (req : RegisterRequest) (id : String)
    (hash : Option String) (now : Time) (issued : Bool) :
    (db.register (some req) id hash now issued).1.users = db.users ∨
      emailRe (trimSpace req.email) = true ∧
        ∃ hash', (db.register (some req) id hash now issued).1.users =
          db.users ++ [req.row id hash' now] := by
  unfold AccountDb.register
  dsimp only
  split
  next => exact .inl rfl
  next hok =>
    split
    next => exact .inl rfl
    next =>
      split
      next => exact .inl rfl
      next hash =>
        split
        next => exact .inl rfl
        next =>
          refine .inr ⟨?_, hash, rfl⟩
          by_contra hno
          rw [RegisterRequest.refusal, if_pos (by simpa using hno)] at hok
          cases hok

/-- The account for which a reset token is stored. -/
def AccountDb.resetUser (db : AccountDb) (m : CaseMap) (email : String) : Option UserRow :=
  let email := trimSpace (m.toLower email)
  if emailRe email then db.users.find? fun u => u.email = email else none

theorem AccountDb.forgotPassword_db (db : AccountDb) (email plain : String) (now : Time) :
    (db.forgotPassword m hashOpaqueToken devReturnTokens (some email) plain now).1.users =
        db.users ∧
      (db.forgotPassword m hashOpaqueToken devReturnTokens (some email) plain now).1.resetTokens =
        db.resetTokens ++ ((db.resetUser m email).map fun u =>
          ⟨hashOpaqueToken plain, u.id, now + passwordResetTTL⟩).toList := by
  unfold AccountDb.forgotPassword AccountDb.resetUser
  dsimp only
  cases emailRe (trimSpace (m.toLower email)) with
  | false => exact ⟨rfl, (List.append_nil _).symm⟩
  | true =>
    cases db.users.find? fun u => u.email = trimSpace (m.toLower email) with
    | none => exact ⟨rfl, (List.append_nil _).symm⟩
    | some u => exact ⟨rfl, rfl⟩

theorem AccountDb.recovers_iff (db : AccountDb) (email id : String) :
    db.Recovers m hashOpaqueToken devReturnTokens email id ↔
      ∃ u, db.resetUser m email = some u ∧ u.id = id := by
  have htokens (plain : String) (now : Time) :
      (db.forgotPassword m hashOpaqueToken devReturnTokens (some email) plain now).1.resetTokens =
        db.resetTokens ++ ((db.resetUser m email).map fun u =>
          ⟨hashOpaqueToken plain, u.id, now + passwordResetTTL⟩).toList :=
    (db.forgotPassword_db email plain now).2
  unfold AccountDb.Recovers
  cases hu : db.resetUser m email with
  | none =>
    constructor
    · intro h
      have heq := h "" 0
      rw [htokens, hu] at heq
      exact absurd (congrArg List.length heq) (by simp)
    · rintro ⟨u, ⟨⟩, -⟩
  | some u =>
    constructor
    · intro h
      have heq := h "" 0
      rw [htokens, hu, List.append_cancel_left_eq] at heq
      cases heq
      exact ⟨u, rfl, rfl⟩
    · rintro ⟨v, hv, rfl⟩ plain now
      cases hv
      rw [htokens, hu]
      rfl

/-- No step takes an account away. -/
theorem mem_users_step (h : (accountMachine m hashOpaqueToken devReturnTokens).step db e = some db')
    (hu : u ∈ db.users) : u ∈ db'.users := by
  cases e with
  | register body id hash now issued =>
    cases h
    cases body with
    | none => exact hu
    | some req =>
      rcases db.register_users req id hash now issued with heq | ⟨-, hash', heq⟩
      · rw [heq]
        exact hu
      · rw [heq]
        exact List.mem_append_left _ hu
  | forgotPassword body plain now =>
    cases h
    cases body with
    | none => exact hu
    | some email =>
      rw [(db.forgotPassword_db email plain now).1]
      exact hu

/-- An account can be recovered with the email of its registration exactly if no character of the
email, trimmed, has another one as its lower case. -/
theorem account_recoverable_iff
    (hstored : (db.register (some req) id hash now issued).1.users ≠ db.users)
    (hr : (accountMachine m hashOpaqueToken devReturnTokens).run
      (db.register (some req) id hash now issued).1 es = some db') :
    db'.Recovers m hashOpaqueToken devReturnTokens req.email id ↔
      ∀ c ∈ (trimSpace req.email).toList, m.lower c = c := by
  obtain ⟨hvalid, hash', husers⟩ :=
    (db.register_users req id hash now issued).resolve_left hstored
  have hmem : req.row id hash' now ∈ db'.users := by
    have hinv : (accountMachine m hashOpaqueToken devReturnTokens).Invariant
        fun db => req.row id hash' now ∈ db.users :=
      fun s e t hs ht _ => mem_users_step ht hs
    apply hinv.run ?_ hr
    rw [husers]
    exact List.mem_append_right _ (List.mem_singleton.2 rfl)
  rw [AccountDb.recovers_iff, ← CaseMap.toLower_eq_self_iff, ← CaseMap.trim_toLower]
  constructor
  · rintro ⟨u, hu, hid⟩
    rw [AccountDb.resetUser] at hu
    split at hu
    next =>
      have hemail : u.email = trimSpace (m.toLower req.email) := by
        simpa using List.find?_some hu
      have hsame : u = req.row id hash' now :=
        List.inj_on_of_nodup_map db'.ids (List.mem_of_find?_eq_some hu) hmem hid
      rw [← hemail, hsame]
      rfl
    next => cases hu
  · intro heq
    have hemail : (req.row id hash' now).email = trimSpace req.email := rfl
    have hfound := find?_of_key db'.emails hmem
    rw [hemail] at hfound
    refine ⟨req.row id hash' now, ?_, rfl⟩
    rw [AccountDb.resetUser, heq, if_pos hvalid, hfound]

def noAccounts : AccountDb := ⟨[], [], List.nodup_nil, List.nodup_nil⟩

def registerAnn (email : String) : AccountDb :=
  (noAccounts.register (some ⟨email, "ann", "password1"⟩) "u1" (some "h1") 0 true).1

theorem account_recoverable_ann :
    (registerAnn " ann@x.io ").Recovers goCaseMap (fun plain => plain) true " ann@x.io " "u1" := by
  have hstored : (noAccounts.register (some ⟨" ann@x.io ", "ann", "password1"⟩) "u1" (some "h1") 0
      true).1.users ≠ noAccounts.users := by
    apply ne_of_apply_ne List.length
    decide +kernel
  have hr : (accountMachine goCaseMap (fun plain => plain) true).run (registerAnn " ann@x.io ") [] =
      some (registerAnn " ann@x.io ") := rfl
  have hlower : ((trimSpace " ann@x.io ").toList.all fun c => goCaseMap.lower c == c) = true := by
    decide +kernel
  exact (account_recoverable_iff hstored hr).2 fun c hc =>
    eq_of_beq (List.all_eq_true.1 hlower c hc)

/-- An account whose email has a capital letter gets no token. -/
theorem account_not_recovered :
    ((registerAnn "Ann@x.io").users.map UserRow.email) = ["Ann@x.io"] ∧
      ((registerAnn "Ann@x.io").forgotPassword goCaseMap (fun plain => plain) true
        (some "Ann@x.io") "t1" 0).1.resetTokens.map ResetTokenRow.userId = [] := by
  decide +kernel

end Leetrank
