import Vai.Api
import Vai.Data
import Vai.Proc
/-!
# Auth — who a request comes from and what it may do

`token_exchange_handler` of `server/auth.rs`, `auth_middleware`, `require_repo_permission` and `require_server_admin` of
`server/mod.rs`, `JwtService` of `auth/jwt.rs` and the tables they read (`storage/postgres`).

`jsonwebtoken` and the hash of the API keys are parameters; every call on the database may fail.  `last_used_at` of a
key, the websocket upgrade (it has a check of its own) and the log lines are left out.
-/
namespace Vai
namespace Auth

/-! ## Roles -/

inductive RepoRole where
  | owner | admin | write | read
deriving DecidableEq, Repr

namespace RepoRole

/-- An unknown word is `Read`. -/
def fromDbStr (s : Text) : RepoRole :=
  if s = "owner".toList then .owner
  else if s = "admin".toList then .admin
  else if s = "write".toList then .write
  else .read

def asStr : RepoRole → Text
  | .owner => "owner".toList
  | .admin => "admin".toList
  | .write => "write".toList
  | .read => "read".toList

def rank : RepoRole → Nat
  | .owner => 4
  | .admin => 3
  | .write => 2
  | .read => 1

def max (a b : RepoRole) : RepoRole := if b.rank ≤ a.rank then a else b

end RepoRole

/-! ## Tables -/

structure User where
  id : Uuid
  name : Text
deriving DecidableEq, Repr

structure Session where
  token : Text
  userId : Text
  expiresAt : Nat
deriving DecidableEq, Repr

structure ApiKey where
  id : Text
  name : Text
  keyHash : Text
  revoked : Bool
  userId : Option Uuid
  roleOverride : Option Text
  expiresAt : Option Nat
deriving DecidableEq, Repr

structure Organization where
  id : Uuid
  name : Text
  slug : Text
deriving DecidableEq, Repr

structure Repo where
  id : Uuid
  orgId : Option Uuid
deriving DecidableEq, Repr

/-- A row of `org_members` or of `repo_collaborators`. -/
structure Member where
  of : Uuid
  user : Uuid
  role : Text
deriving DecidableEq, Repr

structure Db where
  users : List User
  sessions : List Session
  apiKeys : List ApiKey
  organizations : List Organization
  orgMembers : List Member
  repos : List Repo
  repoCollaborators : List Member
  refreshTokens : List (Uuid × Text)
deriving DecidableEq, Repr

def memberRole (rows : List Member) (of user : Uuid) : Option Text :=
  (rows.find? (fun m => m.of == of && m.user == user)).map Member.role

namespace Db

/-- `resolve_repo_role`: owners and admins of the organisation have the same role on its repositories; of that and the
direct role the more permissive counts. -/
def resolveRepoRole (db : Db) (userId repoId : Uuid) : Option RepoRole :=
  match db.repos.find? (fun r => r.id == repoId) with
  | none => none
  | some r =>
    let orgDerived := match r.orgId.bind (fun o => memberRole db.orgMembers o userId) with
      | some role => if role = "owner".toList then some RepoRole.owner
                     else if role = "admin".toList then some RepoRole.admin
                     else none
      | none => none
    let direct := (memberRole db.repoCollaborators repoId userId).map RepoRole.fromDbStr
    match orgDerived, direct with
    | some a, some b => some (RepoRole.max a b)
    | some r, none => some r
    | none, some r => some r
    | none, none => none

def findSession (db : Db) (now : Nat) (token : Text) : Option Session :=
  db.sessions.find? (fun s => s.token == token && decide (now < s.expiresAt))

def findUser (db : Db) (id : Uuid) : Option User := db.users.find? (fun u => u.id == id)

/-- The row `validate_key` accepts. -/
def findKey (db : Db) (hashToken : Text → Text) (now : Nat) (token : Text) : Option ApiKey :=
  db.apiKeys.find? (fun k => k.keyHash == hashToken token && !k.revoked && k.expiresAt.all (fun e => decide (now < e)))

end Db

/-! ## Tokens -/

structure TokenClaims where
  sub : Text
  name : Option Text
  repoId : Option Text
  role : Option Text
  iat : Nat
  exp : Nat
deriving DecidableEq, Repr

inductive JwtError where
  | encode (msg : Text)
  | invalid (msg : Text)
  | expired
deriving DecidableEq, Repr

inductive DecodeError where
  | expiredSignature
  | other (msg : Text)
deriving DecidableEq, Repr

/-- `jsonwebtoken`: `encode` under a secret, `decode` under a secret with a leeway, at some time. -/
structure JsonWebToken where
  encode : TokenClaims → Text → Except Text Text
  decode : Text → Text → Nat → Nat → Except DecodeError TokenClaims

/-- What a signed token decodes to under the secret it was signed with, and the dots between its parts. -/
structure JsonWebToken.Lawful (lib : JsonWebToken) : Prop where
  decode_encode : ∀ {claims secret token}, lib.encode claims secret = .ok token → ∀ leeway now,
    lib.decode token secret leeway now = if claims.exp + leeway < now then .error .expiredSignature else .ok claims
  dot_mem : ∀ {claims secret token}, lib.encode claims secret = .ok token → '.' ∈ token

structure JwtService where
  currentSecret : Text
  previousSecret : Option Text
  accessTokenTtl : Nat
  leewaySecs : Nat

/-- The server: its configuration and the two libraries. -/
structure AppState where
  jsonwebtoken : JsonWebToken
  hashToken : Text → Text
  adminKey : Text
  jwtService : JwtService

variable (srv : AppState)

def sign (now : Nat) (sub : Text) (name repoId role : Option Text) : Except JwtError Text :=
  match srv.jsonwebtoken.encode ⟨sub, name, repoId, role, now, now + srv.jwtService.accessTokenTtl⟩
      srv.jwtService.currentSecret with
  | .ok token => .ok token
  | .error msg => .error (.encode msg)

def tryDecode (now : Nat) (token secret : Text) : Except JwtError TokenClaims :=
  match srv.jsonwebtoken.decode token secret srv.jwtService.leewaySecs now with
  | .ok claims => .ok claims
  | .error .expiredSignature => .error .expired
  | .error (.other msg) => .error (.invalid msg)

/-- The previous secret is tried when the token is not valid under the current one. -/
def verify (now : Nat) (token : Text) : Except JwtError TokenClaims :=
  match tryDecode srv now token srv.jwtService.currentSecret with
  | .ok claims => .ok claims
  | .error (.invalid _) =>
    match srv.jwtService.previousSecret with
    | some prev => tryDecode srv now token prev
    | none => .error (.invalid "invalid signature".toList)
  | .error e => .error e

/-! ## `POST /api/auth/token` -/

structure TokenRequest where
  grantType : Text
  sessionToken : Option Text
  apiKey : Option Text
  repoId : Option Uuid
deriving DecidableEq, Repr

structure TokenResponse where
  accessToken : Text
  tokenType : Text
  expiresIn : Nat
  refreshToken : Option Text
deriving DecidableEq, Repr

inductive AuthCall where
  | validateSession | getUser | insertOrg | insertOrgMember | resolveRepoRole | createRefreshToken | validateKey
deriving DecidableEq, Repr

/-- What a request draws from outside: the time, fresh identifiers, and the calls on the database that fail. -/
structure Draw where
  now : Nat
  orgId : Uuid
  random : Text
  fails : AuthCall → Bool

open Proc

/-- A call on the database. -/
def call {α : Type} (fails : AuthCall → Bool) (c : AuthCall) (m : Proc Db StorageError α) : Proc Db StorageError α :=
  if fails c then fail (.database []) else m

def orNotFound {α : Type} (f : Db → Option α) (what : Text) : Proc Db StorageError α := do
  match ← Proc.read f with
  | some a => pure a
  | none => fail (.notFound what)

/-- A missing record is answered with 401. -/
def asUnauthorized (msg : Text) : StorageError → ApiError
  | .notFound _ => .unauthorized msg
  | e => .ofStorage e

def personalSlug (userId : Uuid) : Text := "user-".toList ++ Text.ofNat userId

/-- The row of the slug stays as it is, or a new one is inserted. -/
def upsertOrg (draw : Draw) (name slug : Text) : Proc Db StorageError Organization := fun db =>
  match db.organizations.find? (fun o => o.slug == slug) with
  | some org => (.ok org, db)
  | none =>
    let org := ⟨draw.orgId, name, slug⟩
    (.ok org, { db with organizations := db.organizations ++ [org] })

/-- `ON CONFLICT (org_id, user_id) DO NOTHING`. -/
def insertOwner (orgId userId : Uuid) : Proc Db StorageError Unit := modify fun db =>
  if (memberRole db.orgMembers orgId userId).isSome then db
  else { db with orgMembers := db.orgMembers ++ [⟨orgId, userId, "owner".toList⟩] }

def getOrCreatePersonalOrg (draw : Draw) (userId : Uuid) (userName : Text) : Proc Db StorageError Organization := do
  let org ← call draw.fails .insertOrg (upsertOrg draw userName (personalSlug userId))
  call draw.fails .insertOrgMember (insertOwner org.id userId)
  pure org

def createRefreshToken (draw : Draw) (userId : Uuid) : Proc Db StorageError Text := do
  modify fun db => { db with refreshTokens := db.refreshTokens ++ [(userId, srv.hashToken draw.random)] }
  pure ("rt_".toList ++ draw.random)

/-- `resolve_repo_role`, as a call. -/
def lookupRepoRole (fails : AuthCall → Bool) (userId repoId : Uuid) : Proc Db StorageError (Option RepoRole) :=
  call fails .resolveRepoRole (Proc.read fun db => db.resolveRepoRole userId repoId)

/-- The role that a token for this repository carries. -/
def claimedRole (fails : AuthCall → Bool) (userId : Uuid) : Option Uuid → Proc Db StorageError (Option Text)
  | some repoId => do
    let role ← lookupRepoRole fails userId repoId
    pure (role.map RepoRole.asStr)
  | none => pure none

def badSession : Text := "invalid or expired session token".toList

/-- The `session_exchange` arm. -/
def sessionExchange (draw : Draw) (body : TokenRequest) : Proc Db ApiError TokenResponse := do
  match body.sessionToken with
  | none => fail (.badRequest "session_token is required for session_exchange grant".toList)
  | some sessionToken =>
    let session ← mapErr (asUnauthorized badSession) <| call draw.fails .validateSession <|
      orNotFound (fun db => db.findSession draw.now sessionToken) "invalid or expired session".toList
    match Text.parseNat session.userId with
    | none => fail (.unauthorized badSession)
    | some userUuid =>
      let user ← mapErr (asUnauthorized "session does not correspond to a known user".toList) <|
        call draw.fails .getUser <| orNotFound (fun db => db.findUser userUuid) ("user ".toList ++ Text.ofNat userUuid)
      let _ ← attempt (mapErr ApiError.ofStorage (getOrCreatePersonalOrg draw user.id user.name))
      let role ← mapErr ApiError.ofStorage (claimedRole draw.fails user.id body.repoId)
      let accessToken ← Proc.ofExcept (fun _ => ApiError.internal)
        (sign srv draw.now (Text.ofNat user.id) (some user.name) (body.repoId.map Text.ofNat) role)
      let refreshToken ← mapErr ApiError.ofStorage <| call draw.fails .createRefreshToken <|
        createRefreshToken srv draw user.id
      pure ⟨accessToken, "Bearer".toList, srv.jwtService.accessTokenTtl, some refreshToken⟩

/-- Subject, name and role of the token for an API key: the bootstrap key first. -/
def keySubject (draw : Draw) (apiKey : Text) : Proc Db ApiError (Text × Text × Option Text) := do
  if apiKey = srv.adminKey then
    pure ("admin".toList, "admin".toList, some "admin".toList)
  else
    let key ← mapErr (asUnauthorized "invalid or revoked API key".toList) <| call draw.fails .validateKey <|
      orNotFound (fun db => db.findKey srv.hashToken draw.now apiKey) "invalid or revoked API key".toList
    pure ((key.userId.map Text.ofNat).getD key.id, key.name, key.roleOverride)

/-- The `api_key` arm. -/
def apiKeyExchange (draw : Draw) (body : TokenRequest) : Proc Db ApiError TokenResponse := do
  match body.apiKey with
  | none => fail (.badRequest "api_key is required for api_key grant".toList)
  | some apiKey =>
    let (sub, name, role) ← keySubject srv draw apiKey
    let accessToken ← Proc.ofExcept (fun _ => ApiError.internal)
      (sign srv draw.now sub (some name) (body.repoId.map Text.ofNat) role)
    pure ⟨accessToken, "Bearer".toList, srv.jwtService.accessTokenTtl, none⟩

def tokenExchangeHandler (draw : Draw) (body : TokenRequest) : Proc Db ApiError TokenResponse :=
  if body.grantType = "session_exchange".toList then sessionExchange srv draw body
  else if body.grantType = "api_key".toList then apiKeyExchange srv draw body
  else fail (.badRequest ("unsupported grant_type '".toList ++ body.grantType ++
    "'; accepted: 'session_exchange', 'api_key'".toList))

/-! ## The middleware -/

inductive AuthSource where
  | jwt | apiKey | adminKey
deriving DecidableEq, Repr

structure AgentIdentity where
  keyId : Text
  name : Text
  isAdmin : Bool
  userId : Option Uuid
  roleOverride : Option Text
  jwtRepoScope : Option Uuid
  authSource : AuthSource
deriving DecidableEq, Repr

/-- `auth_middleware`, from the token of the `Authorization` header on. -/
def authMiddleware (draw : Draw) (token : Text) : Proc Db ApiError AgentIdentity := do
  -- a token with a dot is a JWT or nothing
  if '.' ∈ token then
    match verify srv draw.now token with
    | .ok claims =>
      pure
        { keyId := "jwt:".toList ++ claims.sub
          name := claims.name.getD claims.sub
          isAdmin := claims.role == some "admin".toList
          userId := Text.parseNat claims.sub
          roleOverride := claims.role
          jwtRepoScope := claims.repoId.bind Text.parseNat
          authSource := .jwt }
    | .error .expired => fail (.unauthorized "JWT token has expired".toList)
    | .error _ => fail (.unauthorized "invalid JWT token".toList)
  else
    match ← mapErr (fun _ => ApiError.internal) (call draw.fails .validateKey (Proc.read fun db =>
        db.findKey srv.hashToken draw.now token)) with
    | some key => pure ⟨key.id, key.name, false, key.userId, key.roleOverride, none, .apiKey⟩
    | none =>
      if token = srv.adminKey then
        pure ⟨"admin".toList, "admin".toList, true, none, none, none, .adminKey⟩
      else fail (.unauthorized "invalid or revoked API key".toList)

/-! ## Permission checks -/

inductive StorageBackend where
  | local | server
deriving DecidableEq, Repr

def requireRepoPermission (storage : StorageBackend) (fails : AuthCall → Bool) (identity : AgentIdentity)
    (repoId : Uuid) (required : RepoRole) : Proc Db ApiError RepoRole := do
  if identity.isAdmin then pure .owner
  else if storage = .local then pure .owner
  -- the tokens of cloud workers have a repository and no user
  else if identity.roleOverride = some "worker".toList then
    if identity.jwtRepoScope = some repoId then
      if required = .admin ∨ required = .owner then fail (.forbidden "worker role cannot perform this action".toList)
      else pure .write
    else fail (.forbidden "worker token is not scoped to this repo".toList)
  else
    match identity.userId with
    | none => fail (.forbidden
        "this key is not associated with a user; cannot check repo permissions".toList)
    | some userId =>
      match ← mapErr (fun _ => ApiError.internal) (lookupRepoRole fails userId repoId) with
      | none => fail (.forbidden "access denied".toList)
      | some role =>
        let effective := match identity.roleOverride with
          | some cap => if (RepoRole.fromDbStr cap).rank < role.rank then RepoRole.fromDbStr cap else role
          | none => role
        if effective.rank < required.rank then fail (.forbidden "insufficient permissions".toList)
        else pure effective

def requireServerAdmin (identity : AgentIdentity) : Except ApiError Unit :=
  if identity.isAdmin then .ok () else .error (.forbidden "this endpoint requires the bootstrap admin key".toList)

end Auth
end Vai
