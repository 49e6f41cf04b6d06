import Leetrank.Auth.KeyStore

namespace Leetrank
set_option autoImplicit true

/-- The value of a claim; numbers of a date count seconds. -/
inductive ClaimValue where
  | text (s : String)
  | number (n : Int)
  | texts (l : List String)
  | other
deriving DecidableEq

/-- The payload of a token: the value of each claim that is there. -/
abbrev JwtPayload := String → Option ClaimValue

def JwtPayload.iss (payload : JwtPayload) (issuer : String) : Bool :=
  payload "iss" = some (.text issuer)

def JwtPayload.aud (payload : JwtPayload) (audience : String) : Bool :=
  match payload "aud" with
  | some (.text a) => a = audience
  | some (.texts l) => audience ∈ l
  | _ => false

/-- At a second the token has not expired and may be used already, and its dates are numbers. -/
def JwtPayload.inTime (payload : JwtPayload) (now : Int) : Bool :=
  (match payload "exp" with
    | none => true
    | some (.number exp) => now < exp
    | some _ => false) &&
  (match payload "nbf" with
    | none => true
    | some (.number nbf) => nbf ≤ now
    | some _ => false) &&
  match payload "iat" with
  | none | some (.number _) => true
  | some _ => false

/-- The checks that a caller of `jwtVerify` can ask for. -/
structure VerifyOptions where
  issuer : Option String := none
  audience : Option String := none

def VerifyOptions.allow (options : VerifyOptions) (payload : JwtPayload) : Bool :=
  options.issuer.all payload.iss && options.audience.all payload.aud

/-- The keys that the web tier verifies with: the set that the identity service publishes, and its
own secret. -/
inductive VerifyKey where
  | jwks
  | secret
deriving DecidableEq

/-- The payload of an access token of the identity service; dates count seconds. -/
structure Claims where
  subject : String
  audience : List String
  issuer : String
  issuedAt : Int
  expiry : Int
  id : String
  role : String

def Claims.text (s : String) : Option ClaimValue := if s = "" then none else some (.text s)

/-- The fields of the struct by their names in JSON; empty ones are left out but for the role. -/
def Claims.payload (claims : Claims) : JwtPayload := fun name =>
  match name with
  | "iss" => Claims.text claims.issuer
  | "sub" => Claims.text claims.subject
  | "aud" => if claims.audience = [] then none else some (.texts claims.audience)
  | "exp" => some (.number claims.expiry)
  | "iat" => some (.number claims.issuedAt)
  | "jti" => Claims.text claims.id
  | "role" => some (.text claims.role)
  | _ => none

/-- What the two tiers use of their libraries for tokens: `jose` in the web tier, where an exception
is `none`, and `go-jose` in the identity service, which signs and verifies with its one key. -/
structure JwtLibraries (Token : Type) where
  decodeProtectedHeader : Token → Option (Option String)
  /-- The payload of a token whose signature verifies under a key. -/
  signed : Token → VerifyKey → Option JwtPayload
  jwtVerify : Token → VerifyKey → VerifyOptions → Int → Option JwtPayload
  newNumericDate : Time → Int
  serialize : Claims → Token
  parseSigned : Token → Option JwtPayload
  validate : JwtPayload → (issuer anyAudience : String) → Time → Bool

/-- The leeway of `go-jose` where its caller does not give one. -/
def defaultLeeway : Time := minute

def JwtPayload.date (payload : JwtPayload) (name : String) : Option Time :=
  match payload name with
  | some (.number n) => some (n * second)
  | _ => none

/-- What the documentation of the libraries says of these functions. -/
structure JwtLibraries.Documented (lib : JwtLibraries Token) : Prop where
  /-- A signed token names its algorithm. -/
  alg : ∀ token key payload, lib.signed token key = some payload →
    ∃ alg, alg ≠ "" ∧ lib.decodeProtectedHeader token = some (some alg)
  /-- The signature and the times are always verified, the issuer and the audience if the caller
  asks for them. -/
  jwtVerify : ∀ token key options now payload,
    lib.jwtVerify token key options now = some payload ↔
      lib.signed token key = some payload ∧ payload.inTime now ∧ options.allow payload
  newNumericDate : ∀ t, lib.newNumericDate t = t / second
  /-- The key that signs is the one that is published, for EdDSA. -/
  serialize : ∀ claims, lib.signed (lib.serialize claims) .jwks = some claims.payload ∧
    lib.decodeProtectedHeader (lib.serialize claims) = some (some "EdDSA")
  parseSigned : ∀ claims, lib.parseSigned (lib.serialize claims) = some claims.payload
  validate : ∀ payload issuer audience now, lib.validate payload issuer audience now ↔
    payload.iss issuer ∧ payload.aud audience ∧
      (payload.date "nbf").all (fun nbf => nbf ≤ now + defaultLeeway) ∧
      (payload.date "exp").all (fun exp => now - defaultLeeway ≤ exp) ∧
      (payload.date "iat").all (fun iat => iat ≤ now + defaultLeeway)

/-- The environment of the web tier. -/
structure WebEnv where
  legacyHs256Fallback : Option String
  nodeEnv : Option String

def legacyFallbackEnabled (env : WebEnv) : Bool :=
  if env.legacyHs256Fallback = some "true" then true else env.nodeEnv ≠ some "production"

/-- What the code reads from a payload that it takes to be of this type, `none` for `undefined`. -/
structure JWTPayload where
  userId : Option ClaimValue
  email : Option ClaimValue
  username : Option ClaimValue
  role : Option ClaimValue

def JwtPayload.asJWTPayload (payload : JwtPayload) : JWTPayload where
  userId := payload "userId"
  email := payload "email"
  username := payload "username"
  role := payload "role"

section
variable {Token : Type} (lib : JwtLibraries Token)

def verifyTokenJwks (env : WebEnv) (token : Token) (now : Int) : Option JWTPayload :=
  match lib.decodeProtectedHeader token with
  | none => none
  | some alg =>
    if alg.getD "" ≠ "" ∧ alg ≠ some "HS256" then
      (lib.jwtVerify token .jwks {} now).map JwtPayload.asJWTPayload
    else if !legacyFallbackEnabled env then none
    else (lib.jwtVerify token .secret {} now).map JwtPayload.asJWTPayload

def getSession (env : WebEnv) (cookie : Option Token) (now : Int) : Option JWTPayload :=
  cookie.bind fun token => verifyTokenJwks lib env token now

def identityIssuer : String := "leetrank-auth"

/-- `Sign` of the identity service, with the random id of the token. -/
def identitySign (sub role audience : String) (ttl now : Time) (jti : String) : Token :=
  lib.serialize {
    subject := sub
    audience := [audience]
    issuer := identityIssuer
    issuedAt := lib.newNumericDate now
    expiry := lib.newNumericDate (now + ttl)
    id := jti
    role := role }

/-- What the identity service reads from a payload, a missing text being empty. -/
structure IdentityClaims where
  subject : String
  role : String

def JwtPayload.textOr (payload : JwtPayload) (name : String) : String :=
  match payload name with
  | some (.text s) => s
  | _ => ""

/-- `Verify` of the identity service, which asks for its issuer and for an audience. -/
def identityVerify (token : Token) (expectedAudience : String) (now : Time) :
    Option IdentityClaims :=
  (lib.parseSigned token).bind fun payload =>
    if lib.validate payload identityIssuer expectedAudience now then
      some ⟨payload.textOr "sub", payload.textOr "role"⟩
    else none

/-- The issuer and the audience that tokens must carry for the web tier. -/
def requiredIssuer : String := "https://identity.leetrank.local"
def requiredAudience : String := "leetrank-web"

/-- The token is accepted exactly if it is one that must be accepted. -/
def AcceptsRequired (env : WebEnv) (token : Token) (now : Int) : Prop :=
  (verifyTokenJwks lib env token now).isSome ↔
    ∃ payload, lib.signed token .jwks = some payload ∧ payload.inTime now ∧
      payload.iss requiredIssuer ∧ payload.aud requiredAudience

/-- The session of a token that was issued for the web tier is that of its subject and role. -/
def SessionAgrees (env : WebEnv) (sub role : String) (ttl issuedAt : Time) (jti : String)
    (now : Int) : Prop :=
  ∀ session, getSession lib env
      (some (identitySign lib sub role requiredAudience ttl issuedAt jti)) now = some session →
    session.userId = some (.text sub) ∧ session.role = some (.text role)

end

variable {Token : Type} {lib : JwtLibraries Token} {env : WebEnv} {token : Token} {now : Int}

theorem JwtLibraries.Documented.isSome_jwtVerify (h : lib.Documented) (token : Token)
    (key : VerifyKey) (now : Int) : (lib.jwtVerify token key {} now).isSome ↔
      ∃ payload, lib.signed token key = some payload ∧ payload.inTime now := by
  rw [Option.isSome_iff_exists]
  refine exists_congr fun payload => (h.jwtVerify token key {} now payload).trans ?_
  exact ⟨fun ⟨hs, ht, _⟩ => ⟨hs, ht⟩, fun ⟨hs, ht⟩ => ⟨hs, ht, rfl⟩⟩

/-- A token with another algorithm than HS256 is accepted for its signature and its times. -/
theorem isSome_verifyTokenJwks (h : lib.Documented)
    (halg : lib.decodeProtectedHeader token ≠ some (some "HS256")) :
    (verifyTokenJwks lib env token now).isSome ↔
      ∃ payload, lib.signed token .jwks = some payload ∧ payload.inTime now := by
  cases hheader : lib.decodeProtectedHeader token with
  | none =>
    rw [verifyTokenJwks, hheader]
    refine iff_of_false nofun ?_
    rintro ⟨payload, hs, -⟩
    obtain ⟨alg, -, halg⟩ := h.alg token .jwks payload hs
    rw [hheader] at halg
    cases halg
  | some alg =>
    rw [verifyTokenJwks, hheader]
    rw [hheader] at halg
    dsimp only
    by_cases hname : alg.getD "" ≠ ""
    · rw [if_pos ⟨hname, fun he => halg (congrArg some he)⟩, Option.isSome_map,
        h.isSome_jwtVerify]
    · rw [if_neg fun hc => hname hc.1]
      have hunsigned (key : VerifyKey) (payload : JwtPayload) :
          lib.signed token key ≠ some payload := by
        intro hs
        obtain ⟨alg', hne, halg'⟩ := h.alg token key payload hs
        rw [hheader] at halg'
        cases halg'
        exact hname hne
      refine iff_of_false ?_ fun ⟨payload, hs, _⟩ => hunsigned .jwks payload hs
      split
      next => exact nofun
      next =>
        rw [Option.isSome_map, h.isSome_jwtVerify]
        exact fun ⟨payload, hs, _⟩ => hunsigned .secret payload hs

theorem acceptsRequired_iff (h : lib.Documented)
    (halg : lib.decodeProtectedHeader token ≠ some (some "HS256")) :
    AcceptsRequired lib env token now ↔
      ∀ payload, lib.signed token .jwks = some payload → payload.inTime now →
        payload.iss requiredIssuer ∧ payload.aud requiredAudience := by
  rw [AcceptsRequired, isSome_verifyTokenJwks h halg]
  constructor
  · intro hiff payload hs ht
    obtain ⟨payload', hs', -, hreq⟩ := hiff.1 ⟨payload, hs, ht⟩
    cases hs.symm.trans hs'
    exact hreq
  · intro hreq
    constructor
    · rintro ⟨payload, hs, ht⟩
      exact ⟨payload, hs, ht, hreq payload hs ht⟩
    · rintro ⟨payload, hs, ht, -⟩
      exact ⟨payload, hs, ht⟩

/-- A token that was issued and has not expired gives a session of its role, which has no user: the
payload names the user in `sub`, and has no `userId`. -/
theorem getSession_identitySign (h : lib.Documented) (env : WebEnv) (sub role audience : String)
    (jti : String) (hnow : now < (issuedAt + ttl) / second) :
    getSession lib env (some (identitySign lib sub role audience ttl issuedAt jti)) now =
      some ⟨none, none, none, some (.text role)⟩ := by
  obtain ⟨hs, hheader⟩ := h.serialize {
    subject := sub
    audience := [audience]
    issuer := identityIssuer
    issuedAt := lib.newNumericDate issuedAt
    expiry := lib.newNumericDate (issuedAt + ttl)
    id := jti
    role := role }
  have hverify := (h.jwtVerify _ .jwks {} now _).2 ⟨hs, ?_, rfl⟩
  · rw [getSession, Option.bind_some, verifyTokenJwks, identitySign, hheader]
    dsimp only
    rw [if_pos (by decide), hverify]
    rfl
  · rw [h.newNumericDate, h.newNumericDate]
    simp [JwtPayload.inTime, Claims.payload, hnow]

/-- The identity service reads back what it has signed. -/
theorem identityVerify_identitySign (h : lib.Documented) (sub role audience jti : String)
    (ttl issuedAt now : Time) :
    identityVerify lib (identitySign lib sub role audience ttl issuedAt jti) audience now =
        some ⟨sub, role⟩ ↔
      now - defaultLeeway ≤ (issuedAt + ttl) / second * second ∧
        issuedAt / second * second ≤ now + defaultLeeway := by
  rw [identityVerify, identitySign, h.parseSigned, Option.bind_some, h.newNumericDate,
    h.newNumericDate]
  simp only [h.validate]
  by_cases hsub : sub = "" <;>
    simp [JwtPayload.iss, JwtPayload.aud, JwtPayload.date, JwtPayload.textOr, Claims.payload,
      Claims.text, identityIssuer, hsub]

/-- A token of another algorithm than HS256 is accepted exactly if it must be, as long as those that
are signed with the identity key and valid by their times carry the issuer and the audience. The
session of a token issued for the web tier is never that of its subject. -/
theorem web_session_iff (h : lib.Documented) (env : WebEnv) (token : Token) (now : Int)
    (halg : lib.decodeProtectedHeader token ≠ some (some "HS256")) :
    (AcceptsRequired lib env token now ↔
      ∀ payload, lib.signed token .jwks = some payload → payload.inTime now →
        payload.iss requiredIssuer ∧ payload.aud requiredAudience) ∧
    ∀ sub role ttl issuedAt jti now', now' < (issuedAt + ttl) / second →
      ¬SessionAgrees lib env sub role ttl issuedAt jti now' := by
  refine ⟨acceptsRequired_iff h halg, ?_⟩
  intro sub role ttl issuedAt jti now' hnow hagrees
  obtain ⟨huser, -⟩ :=
    hagrees _ (getSession_identitySign h env sub role requiredAudience jti hnow)
  cases huser

/-- A token in its decoded form, with the key under which its signature verifies if there is one. -/
structure Jws where
  alg : Option String
  signer : Option VerifyKey
  payload : JwtPayload
  signer_alg : ∀ key, signer = some key → ∃ a, a ≠ "" ∧ alg = some a

/-- The libraries over decoded tokens. -/
def jwsLibraries : JwtLibraries Jws where
  decodeProtectedHeader := fun token => some token.alg
  signed := fun token key => if token.signer = some key then some token.payload else none
  jwtVerify := fun token key options now =>
    if token.signer = some key ∧ token.payload.inTime now ∧ options.allow token.payload then
      some token.payload
    else none
  newNumericDate := fun t => t / second
  serialize := fun claims =>
    ⟨some "EdDSA", some .jwks, claims.payload, fun _ _ => ⟨_, by decide, rfl⟩⟩
  parseSigned := fun token => if token.signer = some .jwks then some token.payload else none
  validate := fun payload issuer audience now =>
    payload.iss issuer && payload.aud audience &&
      (payload.date "nbf").all (fun nbf => nbf ≤ now + defaultLeeway) &&
      (payload.date "exp").all (fun exp => now - defaultLeeway ≤ exp) &&
      (payload.date "iat").all (fun iat => iat ≤ now + defaultLeeway)

theorem jwsLibraries_documented : jwsLibraries.Documented where
  alg := by
    intro token key payload hs
    obtain ⟨hsigner, -⟩ := Option.ite_none_right_eq_some.1 hs
    obtain ⟨alg, hne, halg⟩ := token.signer_alg key hsigner
    exact ⟨alg, hne, congrArg some halg⟩
  jwtVerify := by
    intro token key options now payload
    simp only [jwsLibraries, Option.ite_none_right_eq_some]
    constructor
    · rintro ⟨⟨hs, ht, ho⟩, hp⟩
      cases hp
      exact ⟨⟨hs, rfl⟩, ht, ho⟩
    · rintro ⟨⟨hs, hp⟩, ht, ho⟩
      cases hp
      exact ⟨⟨hs, ht, ho⟩, rfl⟩
  newNumericDate := fun _ => rfl
  serialize := fun _ => ⟨rfl, rfl⟩
  parseSigned := fun _ => rfl
  validate := by
    intro payload issuer audience now
    simp only [jwsLibraries, Bool.and_eq_true, and_assoc]

def webEnv : WebEnv := ⟨none, some "production"⟩

/-- A token of the identity service for another service. -/
def tokenForAnother : Jws := identitySign jwsLibraries "u1" "user" "leetrank" (15 * minute) 0 "j1"

theorem web_session_iff_other :
    (AcceptsRequired jwsLibraries webEnv tokenForAnother 10 ↔
      ∀ payload, jwsLibraries.signed tokenForAnother .jwks = some payload → payload.inTime 10 →
        payload.iss requiredIssuer ∧ payload.aud requiredAudience) ∧
    ¬SessionAgrees jwsLibraries webEnv "u1" "user" (15 * minute) 0 "j1" 10 := by
  obtain ⟨haccepts, hsession⟩ := web_session_iff jwsLibraries_documented webEnv tokenForAnother 10
    (by decide)
  exact ⟨haccepts, hsession "u1" "user" (15 * minute) 0 "j1" 10 (by decide)⟩

/-- The token for another service is accepted; and the session of a token issued for the web tier
has no user. -/
theorem web_session_without_user :
    ¬AcceptsRequired jwsLibraries webEnv tokenForAnother 10 ∧
      getSession jwsLibraries webEnv (some (identitySign jwsLibraries "u1" "user"
          requiredAudience (15 * minute) 0 "j1")) 10 =
        some ⟨none, none, none, some (.text "user")⟩ := by
  refine ⟨?_, getSession_identitySign jwsLibraries_documented webEnv "u1" "user" requiredAudience
    "j1" (by decide)⟩
  intro h
  obtain ⟨payload, hs, -, hiss, -⟩ := h.1 (by decide)
  cases hs
  revert hiss
  decide

end Leetrank
