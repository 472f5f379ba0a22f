import Vai.Api
import Vai.Server
/-!
# Backend — what the server keeps of one repository

The tables of `storage/postgres` (workspaces, events, versions, HEAD, the status of issues), the `FileStore`, and the
scopes of the conflict engine, with the calls the handlers make on them.  The events of other repositories share the
sequence of event ids.

A call fails where `Fails` says so, without effect: calls on the database by what they ask for, calls on the file store
also by a number (the position of the file in its request, or the number of the call inside one merge).  Broadcasts, the
graph tables, escalations and workers are left out: no modelled handler reads them.
-/
namespace Vai

open Proc

/-! ## The id in a URL -/

/-- A workspace id as a URL spells it, with the id it parses to: one id has many spellings.  A text that does not parse
is answered with 404 before anything else happens. -/
structure PathId where
  text : Text
  uuid : Uuid
  parses : Text.parseNat text = some uuid
deriving DecidableEq

namespace PathId

/-- The spelling of the server's own answers. -/
abbrev ofUuid (id : Uuid) : PathId := ⟨Text.ofNat id, id, Text.parseNat_ofNat id⟩

instance : Coe Uuid PathId := ⟨ofUuid⟩
instance (id : Nat) : OfNat PathId id := ⟨ofUuid id⟩
instance : Coe PathId Uuid := ⟨uuid⟩

theorem ext_text {i j : PathId} (h : i.text = j.text) : i = j := by
  obtain ⟨t, n, hi⟩ := i
  obtain ⟨u, m, hj⟩ := j
  obtain rfl : t = u := h
  obtain rfl : n = m := Option.some.inj (hi.symm.trans hj)
  rfl

theorem slash_not_mem_text (id : PathId) : '/' ∉ id.text := fun h => by
  rcases Text.isDigit_of_parseNat id.parses '/' h with h | h <;> exact absurd h (by decide)

end PathId

/-! ## The tables and the store -/

inductive IssueStatus where
  | open | inProgress | resolved | closed
deriving DecidableEq, Repr

/-- What the conflict engine tracks of a workspace. -/
structure WorkspaceScope where
  intent : Text
  writeFiles : Finset Path
  writeEntities : Finset Text
  blastRadius : Finset Text
deriving DecidableEq

structure Backend where
  store : FMap Text Bytes
  workspaces : FMap Uuid WorkspaceMeta
  links : FMap Uuid Uuid
  issues : FMap Uuid IssueStatus
  events : List Event
  foreign : List Nat
  nextEvent : Nat
  versions : List VersionMeta
  head : Option Text
  scopes : FMap Uuid WorkspaceScope

inductive DbCall where
  | getWorkspace
  | createWorkspace
  | updateWorkspace
  | discardWorkspace
  | getIssue
  | updateIssue
  | readHead
  | advanceHead
  | createVersion
  | getVersion
  | listVersions
  | queryEvents
  | append (kind : EventKind)
  | createEscalation
deriving DecidableEq, Repr

structure Fails where
  db : DbCall → Bool
  store : Faults

def Fails.none : Fails := ⟨fun _ => false, noFaults⟩

namespace Backend

/-- A repository as it is registered: version `v1`, and nothing else. -/
def fresh : Backend where
  store := ∅
  workspaces := ∅
  links := ∅
  issues := ∅
  events := []
  foreign := []
  nextEvent := 1
  versions := [⟨versionName 1, none, "initial repository".toList, "system".toList, none⟩]
  head := some (versionName 1)
  scopes := ∅

def currentPrefix : Text := "current/".toList
def blobsPrefix : Text := "blobs/".toList
/-- The handlers put the spelling of the URL into the keys, and the id into the rows. -/
def workspacePrefix (id : PathId) : Text := "workspaces/".toList ++ id.text ++ "/".toList

def currentKey (p : Path) : Text := currentPrefix ++ p
def blobKey (hash : Text) : Text := blobsPrefix ++ hash
def workspaceKey (id : PathId) (p : Path) : Text := workspacePrefix id ++ p

/-- The tree of HEAD, as the store has it. -/
def current (b : Backend) (p : Path) : Option Bytes := b.store.get (currentKey p)

/-- The files of a workspace under a spelling of its id. -/
def overlay (b : Backend) (id : PathId) (p : Path) : Option Bytes := b.store.get (workspaceKey id p)

variable (fails : Fails)

/-- A call on the database. -/
def db (c : DbCall) : Proc Backend StorageError Unit := if fails.db c then fail (.database []) else pure ()

/-- A call on the file store. -/
def files (i : Nat) (op : StoreOp) : Proc Backend StorageError Unit :=
  if fails.store i op then fail (.io []) else pure ()

/-! ## The file store -/

def get (i : Nat) (key : Text) : Proc Backend StorageError Bytes := do
  files fails i (.get key)
  match ← Proc.read (fun b => b.store.get key) with
  | some content => pure content
  | none => fail (.notFound ("file ".toList ++ key))

def put (i : Nat) (key : Text) (content : Bytes) : Proc Backend StorageError Unit := do
  files fails i (.put key)
  modify fun b => { b with store := b.store.insert key content }

/-- The keys under a prefix, each with its content. -/
def list (i : Nat) (pre : Text) : Proc Backend StorageError (List (Text × Bytes)) := do
  files fails i (.list pre)
  Proc.read fun b => b.store.pairs.filter (fun q => pre.isPrefixOf q.1)

/-! ## Tables -/

/-- The row of a workspace; its key is its id. -/
def row (b : Backend) (id : Uuid) : Option WorkspaceMeta := (b.workspaces.get id).map (fun wsMeta => { wsMeta with id })

def getWorkspace (id : Uuid) : Proc Backend StorageError WorkspaceMeta := do
  db fails .getWorkspace
  match ← Proc.read (fun b => b.row id) with
  | some wsMeta => pure wsMeta
  | none => fail (.notFound ("workspace ".toList ++ Text.ofNat id))

/-- The primary key is fresh, or the insertion fails. -/
def createWorkspace (id : Uuid) (intent baseVersion : Text) : Proc Backend StorageError WorkspaceMeta := do
  db fails .createWorkspace
  if ← Proc.read (fun b => (b.workspaces.get id).isSome) then fail (.database [])
  else
    modify fun b => { b with workspaces := b.workspaces.insert id ⟨id, intent, baseVersion, .created, []⟩ }
    getWorkspace fails id

/-- The columns that the update gives, over the row as it is. -/
def updateWorkspace (id : Uuid) (status : Option WorkspaceStatus) (deletedPaths : Option (List Path)) :
    Proc Backend StorageError Unit := do
  let wsMeta ← getWorkspace fails id
  db fails .updateWorkspace
  modify fun b => { b with workspaces := b.workspaces.insert id { wsMeta with
    status := status.getD wsMeta.status
    deletedPaths := deletedPaths.getD wsMeta.deletedPaths } }

/-- Whatever the status was. -/
def discardWorkspace (id : Uuid) : Proc Backend StorageError Unit := do
  db fails .discardWorkspace
  modify fun b => match b.workspaces.get id with
    | some wsMeta => { b with workspaces := b.workspaces.insert id { wsMeta with status := .discarded } }
    | none => b

def append (kind : EventKind) : Proc Backend StorageError Event := do
  db fails (.append kind)
  fun b => (.ok ⟨b.nextEvent, kind⟩, { b with events := b.events ++ [⟨b.nextEvent, kind⟩], nextEvent := b.nextEvent + 1 })

/-- `let _ = events.append(..)`. -/
def record (kind : EventKind) : Proc Backend ApiError PUnit := do
  let _ ← attempt (mapErr ApiError.ofStorage (append fails kind))

def readHead : Proc Backend StorageError (Option Text) := do
  db fails .readHead
  Proc.read head

def advanceHead (versionId : Text) : Proc Backend StorageError Unit := do
  db fails .advanceHead
  modify fun b => { b with head := some versionId }

/-- The version id is unique, and the merge event has to be in the events table. -/
def createVersion (v : VersionMeta) : Proc Backend StorageError Unit := do
  db fails .createVersion
  if ← Proc.read (fun b => b.versions.any (fun u => u.versionId = v.versionId)) then fail (.database [])
  else if ← Proc.read (fun b => v.mergeEventId.any (fun i => i ∉ b.events.map Event.id ∧ i ∉ b.foreign)) then
    fail (.database [])
  else modify fun b => { b with versions := b.versions ++ [v] }

/-- `get_version`, by the id that people read. -/
def getVersion (versionId : Text) : Proc Backend StorageError VersionMeta := do
  db fails .getVersion
  match ← Proc.read (fun b => b.versions.find? (fun v => v.versionId = versionId)) with
  | some version => pure version
  | none => fail (.notFound ("version ".toList ++ versionId))

/-- The status of the issue a workspace is linked to. -/
def linkedIssue (id : Uuid) : Proc Backend StorageError (Option (Uuid × IssueStatus)) := do
  match ← Proc.read (fun b => b.links.get id) with
  | none => pure none
  | some issue =>
    db fails .getIssue
    match ← Proc.read (fun b => b.issues.get issue) with
    | some status => pure (some (issue, status))
    | none => fail (.notFound ("issue ".toList ++ Text.ofNat issue))

/-! ## The conflict engine -/

def updateScope (id : Uuid) (intent : Text) (paths : List Path) (b : Backend) : Backend :=
  let scope := (b.scopes.get id).getD ⟨intent, ∅, ∅, ∅⟩
  { b with scopes := b.scopes.insert id { scope with intent := intent, writeFiles := paths.toFinset } }

def removeScope (id : Uuid) (b : Backend) : Backend := { b with scopes := b.scopes.erase id }

end Backend
end Vai
