import Vai.Escalation
import Vai.Issue
import Vai.Rows
/-!
# Orgs — organisations, repositories and the rows that give roles on them

The organisation, user, repository and collaborator endpoints of `server/admin.rs`, and the `OrgStore` of
`storage/postgres/org.rs` under them.  Every call on the database may fail.  A user, an organisation or a repository that
a row refers to has to be there; the rows of an organisation that is deleted go with it, its repositories stay.

Left out: the local mode of `create_repo_handler`, the seed rows of `versions` and `version_head`, the times of creation.
-/
namespace Vai
namespace Orgs

open Auth Proc

/-! ## Tables -/

/-- The tables of `Auth`, with the columns that only these endpoints read: addresses of users and names of repositories. -/
structure Directory where
  db : Db
  emails : List (Uuid × Text)
  repoNames : List (Uuid × Text)
deriving DecidableEq, Repr

inductive OrgCall where
  | createOrg | getOrgBySlug | deleteOrg | createUser | addMember | updateMember | removeMember | getRepoIdInOrg
  | countReposOwned | getRepoByName | begin | insertRepo | insertCollaborator | commit
deriving DecidableEq, Repr

/-- What a request draws from outside: what the calls of `Auth` draw, a fresh identifier, and the calls that fail. -/
structure Draw where
  auth : Auth.Draw
  id : Uuid
  fails : OrgCall → Bool

/-- A call on the tables of `Auth`. -/
def onDb {ε α : Type} (m : Proc Db ε α) : Proc Directory ε α := fun d => ((m d.db).1, { d with db := (m d.db).2 })

/-- A call on the database. -/
def call {α : Type} (fails : OrgCall → Bool) (c : OrgCall) (m : Proc Directory StorageError α) :
    Proc Directory StorageError α :=
  if fails c then fail (.database []) else m

variable (draw : Draw)

/-! ## Organisations and users -/

def createOrg (name slug : Text) : Proc Directory StorageError Organization := fun d =>
  if d.db.organizations.any fun o => o.slug = slug || o.id = draw.id then
    (.error (.conflict ("slug '".toList ++ slug ++ "' already exists".toList)), d)
  else
    let org := ⟨draw.id, name, slug⟩
    (.ok org, { d with db := { d.db with organizations := d.db.organizations ++ [org] } })

def getOrgBySlug (slug : Text) : Proc Directory StorageError Organization := do
  match ← read fun d : Directory => d.db.organizations.find? fun o => o.slug = slug with
  | some org => pure org
  | none => fail (.notFound ("org with slug '".toList ++ slug ++ "'".toList))

/-- `org_members` refers to `organizations` with `ON DELETE CASCADE`, `repos.org_id` does not refer to it. -/
def deleteOrg (orgId : Uuid) : Proc Directory StorageError Unit := fun d =>
  if d.db.organizations.any fun o => o.id = orgId then
    (.ok (), { d with db := { d.db with
      organizations := d.db.organizations.filter fun o => o.id ≠ orgId
      orgMembers := d.db.orgMembers.filter fun m => m.of ≠ orgId } })
  else (.error (.notFound ("org ".toList ++ Text.ofNat orgId)), d)

def createUser (email name : Text) : Proc Directory StorageError User := fun d =>
  if d.emails.any (fun e => e.2 = email) || d.db.users.any fun u => u.id = draw.id then
    (.error (.conflict ("email '".toList ++ email ++ "' already exists".toList)), d)
  else
    let user := ⟨draw.id, name⟩
    (.ok user, { d with db := { d.db with users := d.db.users ++ [user] }, emails := d.emails ++ [(draw.id, email)] })

/-! ## Rows that give roles

`org_members` and `repo_collaborators` have the same three calls. -/

/-- The primary key, then the rows that the new one refers to. -/
def insertMember (known : Bool) (taken : StorageError) (m : Member) : Proc (List Member) StorageError Member := fun rows =>
  if (memberRole rows m.of m.user).isSome || !known then (.error taken, rows) else (.ok m, rows ++ [m])

def updateMember (absent : StorageError) (m : Member) : Proc (List Member) StorageError Member := fun rows =>
  if (memberRole rows m.of m.user).isSome then
    (.ok m, Rows.updateWhere (fun r => r.of = m.of && r.user = m.user) (fun r => { r with role := m.role }) rows)
  else (.error absent, rows)

def deleteMember (absent : StorageError) (of user : Uuid) : Proc (List Member) StorageError Unit := fun rows =>
  if (memberRole rows of user).isSome then (.ok (), rows.filter fun r => !(r.of = of && r.user = user))
  else (.error absent, rows)

def onOrgMembers {α : Type} (m : Db → Proc (List Member) StorageError α) : Proc Directory StorageError α := fun d =>
  ((m d.db d.db.orgMembers).1, { d with db := { d.db with orgMembers := (m d.db d.db.orgMembers).2 } })

def onCollaborators {α : Type} (m : Db → Proc (List Member) StorageError α) : Proc Directory StorageError α := fun d =>
  ((m d.db d.db.repoCollaborators).1,
    { d with db := { d.db with repoCollaborators := (m d.db d.db.repoCollaborators).2 } })

inductive OrgRole where
  | owner | admin | member
deriving DecidableEq, Repr

def OrgRole.asStr : OrgRole → Text
  | .owner => "owner".toList
  | .admin => "admin".toList
  | .member => "member".toList

def addOrgMember (orgId userId : Uuid) (role : OrgRole) : Proc Directory StorageError Member := onOrgMembers fun db =>
  insertMember ((db.organizations.any fun o => o.id = orgId) && (db.findUser userId).isSome)
    (.conflict ("user ".toList ++ Text.ofNat userId ++ " is already a member of org ".toList ++ Text.ofNat orgId))
    ⟨orgId, userId, role.asStr⟩

def noMembership (orgId userId : Uuid) : StorageError :=
  .notFound ("membership for user ".toList ++ Text.ofNat userId ++ " in org ".toList ++ Text.ofNat orgId)

def updateOrgMember (orgId userId : Uuid) (role : OrgRole) : Proc Directory StorageError Member := onOrgMembers fun _ =>
  updateMember (noMembership orgId userId) ⟨orgId, userId, role.asStr⟩

def removeOrgMember (orgId userId : Uuid) : Proc Directory StorageError Unit := onOrgMembers fun _ =>
  deleteMember (noMembership orgId userId) orgId userId

def addCollaborator (repoId userId : Uuid) (role : RepoRole) : Proc Directory StorageError Member := onCollaborators fun db =>
  insertMember ((db.repos.any fun r => r.id = repoId) && (db.findUser userId).isSome)
    (.conflict ("user ".toList ++ Text.ofNat userId ++ " is already a collaborator on repo ".toList ++ Text.ofNat repoId))
    ⟨repoId, userId, role.asStr⟩

def noCollaborator (repoId userId : Uuid) : StorageError :=
  .notFound ("collaborator ".toList ++ Text.ofNat userId ++ " on repo ".toList ++ Text.ofNat repoId)

def updateCollaborator (repoId userId : Uuid) (role : RepoRole) : Proc Directory StorageError Member :=
  onCollaborators fun _ => updateMember (noCollaborator repoId userId) ⟨repoId, userId, role.asStr⟩

def removeCollaborator (repoId userId : Uuid) : Proc Directory StorageError Unit := onCollaborators fun _ =>
  deleteMember (noCollaborator repoId userId) repoId userId

/-! ## Repositories -/

def Directory.nameOf (d : Directory) (repoId : Uuid) : Option Text :=
  (d.repoNames.find? fun n => n.1 = repoId).map Prod.snd

def getRepoIdInOrg (orgId : Uuid) (repoName : Text) : Proc Directory StorageError Uuid := do
  match ← read fun d : Directory => d.db.repos.find? fun r => r.orgId = some orgId && d.nameOf r.id = some repoName with
  | some r => pure r.id
  | none => fail (.notFound ("repo '".toList ++ repoName ++ "' not found in org".toList))

/-- `get_or_create_personal_org`; the owner that is inserted has to be a user. -/
def getOrCreatePersonalOrg (userId : Uuid) (userName : Text) : Proc Directory StorageError Organization := onDb do
  let org ← Auth.call draw.auth.fails .insertOrg (upsertOrg draw.auth userName (personalSlug userId))
  let user ← read fun db : Db => db.findUser userId
  Auth.call draw.auth.fails .insertOrgMember (if user.isSome then insertOwner org.id userId else fail (.database []))
  pure org

/-- `count_repos_owned_by_user`. -/
def countReposOwned (userId : Uuid) : Proc Directory StorageError Nat :=
  read fun d => d.db.repoCollaborators.countP fun m => m.user = userId && m.role = "admin".toList

/-- The statements of `create_repo_handler` that are in one transaction. -/
def insertRepo (name : Text) (orgId userId : Option Uuid) : Proc Directory ApiError Unit := fun d =>
  if draw.fails .begin then (.error .internal, d)
  else if draw.fails .insertRepo then (.error .internal, d)
  else if d.db.repos.any fun r => r.id = draw.id || (r.orgId = orgId && orgId.isSome && d.nameOf r.id = some name) then
    (.error (.conflict ("repository '".toList ++ name ++ "' is already registered".toList)), d)
  else
    let d₁ := { d with db := { d.db with repos := d.db.repos ++ [⟨draw.id, orgId⟩] }
                       repoNames := d.repoNames ++ [(draw.id, name)] }
    match userId with
    | some u =>
      if draw.fails .insertCollaborator || (d.db.findUser u).isNone then (.error .internal, d)
      else if draw.fails .commit then (.error .internal, d)
      else (.ok (), { d₁ with db := { d₁.db with
        repoCollaborators := d.db.repoCollaborators ++ [⟨draw.id, u, "admin".toList⟩] } })
    | none => if draw.fails .commit then (.error .internal, d) else (.ok (), d₁)

/-! ## Endpoints -/

/-- The configuration that the endpoints read. -/
structure Config where
  auth : AppState
  unicode : IssueDir.Unicode
  storageRoot : Option Path
  maxReposPerUser : Nat

variable (cfg : Config)

/-- The characters of slugs and of names of repositories. -/
def isName (s : Text) : Bool := !s.isEmpty && s.all fun c => cfg.unicode.isAlphanumeric c || c = '-' || c = '_'

structure RepoResponse where
  id : Uuid
  name : Text
  headVersion : Text
  workspaceCount : Nat
deriving DecidableEq, Repr

/-- A user has at most `max_repos_per_user` repositories. -/
def checkQuota (identity : AgentIdentity) : Proc Directory ApiError Unit :=
  match identity.isAdmin, identity.userId with
  | false, some userId => do
    let current ← mapErr (fun _ => ApiError.internal) (call draw.fails .countReposOwned (countReposOwned userId))
    if cfg.maxReposPerUser ≤ current then fail (.forbidden "repo quota exceeded".toList) else pure ()
  | _, _ => pure ()

/-- A failure is logged, and the repository has no organisation. -/
def personalOrgId (identity : AgentIdentity) : Proc Directory ApiError (Option Uuid) :=
  match identity.userId with
  | some userId => do
    match ← attempt (mapErr ApiError.ofStorage (getOrCreatePersonalOrg draw userId identity.name)) with
    | .ok org => pure (some org.id)
    | .error _ => pure none
  | none => pure none

def createRepoHandler (identity : AgentIdentity) (name : Text) : Proc Directory ApiError RepoResponse := do
  if !identity.isAdmin && identity.userId.isNone then
    fail (.forbidden "this key is not associated with a user; cannot create repositories".toList)
  else if cfg.storageRoot.isNone then
    fail (.badRequest "server is not in multi-repo mode; set storage_root in ~/.vai/server.toml".toList)
  else if !isName cfg name then
    fail (.badRequest
      ("repo name must be non-empty and contain only alphanumeric characters, hyphens, and underscores").toList)
  else
    checkQuota draw cfg identity
    let existing ← mapErr (fun _ => ApiError.internal) (call draw.fails .getRepoByName (read fun d : Directory =>
      d.repoNames.any fun n => n.2 = name))
    if existing then fail (.conflict ("repository '".toList ++ name ++ "' is already registered".toList))
    else
      let orgId ← personalOrgId draw identity
      insertRepo draw name orgId identity.userId
      pure ⟨draw.id, name, "v1".toList, 0⟩

/-- An endpoint of the organisations and the users. -/
def asServerAdmin {α : Type} (identity : AgentIdentity) (m : Proc Directory ApiError α) : Proc Directory ApiError α := do
  ofExcept id (requireServerAdmin identity)
  m

def createOrgHandler (identity : AgentIdentity) (name slug : Text) : Proc Directory ApiError Organization :=
  asServerAdmin identity <|
    if !isName cfg slug then
      fail (.badRequest
        "slug must be non-empty and contain only alphanumeric characters, hyphens, and underscores".toList)
    else mapErr .ofStorage (call draw.fails .createOrg (createOrg draw name slug))

/-- The organisation that a path names. -/
def orgOf (slug : Text) : Proc Directory ApiError Organization :=
  mapErr .ofStorage (call draw.fails .getOrgBySlug (getOrgBySlug slug))

def deleteOrgHandler (identity : AgentIdentity) (slug : Text) : Proc Directory ApiError Unit := asServerAdmin identity do
  let org ← orgOf draw slug
  mapErr .ofStorage (call draw.fails .deleteOrg (deleteOrg org.id))

/-- The personal organisation may fail. -/
def createUserHandler (identity : AgentIdentity) (email name : Text) : Proc Directory ApiError User :=
  asServerAdmin identity do
    let user ← mapErr .ofStorage (call draw.fails .createUser (createUser draw email name))
    let _ ← attempt (mapErr ApiError.ofStorage (getOrCreatePersonalOrg draw user.id user.name))
    pure user

def parseOrgRole (s : Text) : Except ApiError OrgRole :=
  if s = "owner".toList then .ok .owner
  else if s = "admin".toList then .ok .admin
  else if s = "member".toList then .ok .member
  else .error (.badRequest
    ("unknown org role `".toList ++ s ++ "`; expected one of: owner, admin, member".toList))

def addOrgMemberHandler (identity : AgentIdentity) (slug : Text) (userId : Uuid) (role : Text) :
    Proc Directory ApiError Member := asServerAdmin identity do
  let role ← ofExcept id (parseOrgRole role)
  let org ← orgOf draw slug
  mapErr .ofStorage (call draw.fails .addMember (addOrgMember org.id userId role))

def updateOrgMemberHandler (identity : AgentIdentity) (slug : Text) (userId : Uuid) (role : Text) :
    Proc Directory ApiError Member := asServerAdmin identity do
  let role ← ofExcept id (parseOrgRole role)
  let org ← orgOf draw slug
  mapErr .ofStorage (call draw.fails .updateMember (updateOrgMember org.id userId role))

def removeOrgMemberHandler (identity : AgentIdentity) (slug : Text) (userId : Uuid) : Proc Directory ApiError Unit :=
  asServerAdmin identity do
    let org ← orgOf draw slug
    mapErr .ofStorage (call draw.fails .removeMember (removeOrgMember org.id userId))

def parseRepoRole (s : Text) : Except ApiError RepoRole :=
  if s = "owner".toList then .ok .owner
  else if s = "admin".toList then .ok .admin
  else if s = "write".toList then .ok .write
  else if s = "read".toList then .ok .read
  else .error (.badRequest
    ("unknown repo role `".toList ++ s ++ "`; expected one of: owner, admin, write, read".toList))

/-- The repository that a path names, for a caller who has a role on it. -/
def repoOf (identity : AgentIdentity) (orgSlug repoName : Text) (required : RepoRole) : Proc Directory ApiError Uuid := do
  let org ← orgOf draw orgSlug
  let repoId ← mapErr ApiError.ofStorage (call draw.fails .getRepoIdInOrg (getRepoIdInOrg org.id repoName))
  let _ ← onDb (requireRepoPermission .server draw.auth.fails identity repoId required)
  pure repoId

/-- Inviting needs no more than `Write`, whatever the role that is given. -/
def addCollaboratorHandler (identity : AgentIdentity) (orgSlug repoName : Text) (userId : Uuid) (role : Text) :
    Proc Directory ApiError Member := do
  let role ← ofExcept id (parseRepoRole role)
  let repoId ← repoOf draw identity orgSlug repoName .write
  mapErr .ofStorage (call draw.fails .addMember (addCollaborator repoId userId role))

def updateCollaboratorHandler (identity : AgentIdentity) (orgSlug repoName : Text) (userId : Uuid) (role : Text) :
    Proc Directory ApiError Member := do
  let role ← ofExcept id (parseRepoRole role)
  let repoId ← repoOf draw identity orgSlug repoName .admin
  mapErr .ofStorage (call draw.fails .updateMember (updateCollaborator repoId userId role))

def removeCollaboratorHandler (identity : AgentIdentity) (orgSlug repoName : Text) (userId : Uuid) :
    Proc Directory ApiError Unit := do
  let repoId ← repoOf draw identity orgSlug repoName .admin
  mapErr .ofStorage (call draw.fails .removeMember (removeCollaborator repoId userId))

/-! ## Requests -/

inductive Request where
  | createRepo (name : Text)
  | createOrg (name slug : Text)
  | deleteOrg (slug : Text)
  | createUser (email name : Text)
  | addOrgMember (slug : Text) (userId : Uuid) (role : Text)
  | updateOrgMember (slug : Text) (userId : Uuid) (role : Text)
  | removeOrgMember (slug : Text) (userId : Uuid)
  | addCollaborator (orgSlug repoName : Text) (userId : Uuid) (role : Text)
  | updateCollaborator (orgSlug repoName : Text) (userId : Uuid) (role : Text)
  | removeCollaborator (orgSlug repoName : Text) (userId : Uuid)
  /-- `POST /api/auth/token`, which has no identity. -/
  | exchange (body : TokenRequest)
deriving DecidableEq, Repr

/-- The tables after a request, however it is answered. -/
def handle (identity : AgentIdentity) (d : Directory) : Request → Directory
  | .createRepo name => (createRepoHandler draw cfg identity name d).2
  | .createOrg name slug => (createOrgHandler draw cfg identity name slug d).2
  | .deleteOrg slug => (deleteOrgHandler draw identity slug d).2
  | .createUser email name => (createUserHandler draw identity email name d).2
  | .addOrgMember slug u role => (addOrgMemberHandler draw identity slug u role d).2
  | .updateOrgMember slug u role => (updateOrgMemberHandler draw identity slug u role d).2
  | .removeOrgMember slug u => (removeOrgMemberHandler draw identity slug u d).2
  | .addCollaborator o n u role => (addCollaboratorHandler draw identity o n u role d).2
  | .updateCollaborator o n u role => (updateCollaboratorHandler draw identity o n u role d).2
  | .removeCollaborator o n u => (removeCollaboratorHandler draw identity o n u d).2
  | .exchange body => (onDb (tokenExchangeHandler cfg.auth draw.auth body) d).2

end Orgs
end Vai
