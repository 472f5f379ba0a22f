import Vai.Requests
import Vai.EventLog
/-!
# Pull — what clients read of the history

`files_pull_handler` and `build_file_map_at_version` of `server/mod.rs`, after the permission check, with the queries of
`storage/postgres` they are made of.

Both go from version rows to the workspaces merged into them, and from there to the file events of these workspaces, in
the order of their ids.  A pull reads the contents in `current/`, a historical download in `blobs/`.  Content travels
as base64; the model carries the bytes.
-/
namespace Vai
namespace Handlers

open Proc Backend

variable (fails : Fails)

/-! ## Queries -/

/-- `ORDER BY id`. -/
def orderById (events : List Event) : List Event := events.insertionSort (fun a b => a.id ≤ b.id)

def queryByType (eventType : Text) : Proc Backend StorageError (List Event) := do
  db fails .queryEvents
  Proc.read fun b => orderById (b.events.filter (fun e => e.kind.eventType = eventType))

def queryByWorkspace (workspaceId : Uuid) : Proc Backend StorageError (List Event) := do
  db fails .queryEvents
  Proc.read fun b => orderById (b.events.filter (fun e => e.kind.workspaceId = some workspaceId))

def querySinceId (lastId : Nat) : Proc Backend StorageError (List Event) := do
  db fails .queryEvents
  Proc.read fun b => orderById (b.events.filter (fun e => lastId < e.id))

/-- `query_since_id_filtered` by type and workspace: an empty list of workspaces is no filter. -/
def querySinceIdFiltered (lastId : Nat) (eventTypes : List Text) (workspaceIds : List Uuid) :
    Proc Backend StorageError (List Event) := do
  db fails .queryEvents
  Proc.read fun b => orderById (b.events.filter (fun e => lastId < e.id && e.kind.eventType ∈ eventTypes &&
    (workspaceIds.isEmpty || e.kind.workspaceId.any (· ∈ workspaceIds))))

/-- `CAST(SUBSTRING(version_id FROM 2) AS BIGINT)`. -/
def castVersion (v : VersionMeta) : Option Nat := Text.parseNat (v.versionId.drop 1)

/-- The versions after `since` and up to `head`; a version id that is no number makes the query fail. -/
def listVersionsSince (since head : Nat) : Proc Backend StorageError (List VersionMeta) := do
  db fails .listVersions
  if ← Proc.read (fun b => b.versions.all (fun v => (castVersion v).isSome)) then
    Proc.read fun b => (b.versions.filter (fun v => (castVersion v).any (fun n => since < n && n ≤ head))).insertionSort
      (fun v w => (castVersion v).getD 0 ≤ (castVersion w).getD 0)
  else fail (.database [])

/-- `list_versions` with no limit, the newest first. -/
def listVersions : Proc Backend StorageError (List VersionMeta) := do
  db fails .listVersions
  Proc.read fun b => b.versions.reverse

/-- The workspace that a merge event names, looked up among the `MergeCompleted` events. -/
def workspaceOf (mergeEvents : List Event) (mid : Nat) : Option Uuid :=
  (mergeEvents.find? (fun e => e.id = mid)).bind (fun e => e.kind.workspaceId)

/-- `sort_unstable` and `dedup`. -/
def sortDedup (ids : List Uuid) : List Uuid := (ids.insertionSort (· ≤ ·)).dedup

def fileEventTypes : List Text := ["FileAdded".toList, "FileModified".toList, "FileRemoved".toList]

/-! ## `GET /api/repos/:repo/files/pull` -/

inductive ChangeState where
  | added | modified | removed
deriving DecidableEq, Repr

structure PullFileEntry where
  path : Path
  changeType : ChangeState
  content : Option Bytes
deriving DecidableEq, Repr

structure FilesPullResponse where
  baseVersion : Text
  headVersion : Text
  files : List PullFileEntry
deriving DecidableEq, Repr

/-- One event: a modification of a file added in the range leaves it added. -/
def foldChange (changes : FMap Path ChangeState) (e : Event) : FMap Path ChangeState :=
  match e.kind with
  | .fileAdded _ path _ => changes.insert path .added
  | .fileModified _ path _ _ =>
    match changes.get path with
    | some .added => changes
    | _ => changes.insert path .modified
  | .fileRemoved _ path => changes.insert path .removed
  | _ => changes

/-- The entry of a path; its content is left out where it cannot be read. -/
def pullEntry (changes : FMap Path ChangeState) (path : Path × Nat) : Proc Backend ApiError (Option PullFileEntry) :=
  match changes.get path.1 with
  | none => pure none
  | some .removed => pure (some ⟨path.1, .removed, none⟩)
  | some state => do
    let content ← attempt (mapErr ApiError.ofStorage (Backend.get fails path.2 (currentKey path.1)))
    pure (some ⟨path.1, state, content.toOption⟩)

def pullEntries (changes : FMap Path ChangeState) (files : List PullFileEntry) (path : Path × Nat) :
    Proc Backend ApiError (List PullFileEntry) := do
  let entry ← pullEntry fails changes path
  pure (files ++ entry.toList)

def filesPullHandler (env : Env) (since : Text) : Proc Backend ApiError FilesPullResponse := do
  let head ← attempt (mapErr ApiError.ofStorage (readHead fails))
  let headVersion := match head with
    | .ok (some head) => head
    | _ => "unknown".toList
  if parseVersionNumber headVersion ≤ parseVersionNumber since then pure ⟨since, headVersion, []⟩
  else
    let newer ← mapErr ApiError.ofStorage
      (listVersionsSince fails (parseVersionNumber since) (parseVersionNumber headVersion))
    let mergeEventIds := newer.filterMap VersionMeta.mergeEventId
    if mergeEventIds.isEmpty then pure ⟨since, headVersion, []⟩
    else
      let mergeEvents ← mapErr ApiError.ofStorage (queryByType fails "MergeCompleted".toList)
      let workspaceIds := sortDedup (mergeEventIds.filterMap (workspaceOf mergeEvents))
      let events ← mapErr ApiError.ofStorage (querySinceIdFiltered fails 0 fileEventTypes workspaceIds)
      let changes := events.foldl foldChange ∅
      let files ← (env.hashOrder changes.keys).zipIdx.foldlM (pullEntries fails changes) []
      pure ⟨since, headVersion, files.insertionSort (fun f g => f.path ≤ g.path)⟩

/-- What a client does with the response: added and modified files are written, removed ones removed. -/
def applyEntry (tree : Path → Option Bytes) (f : PullFileEntry) : Path → Option Bytes :=
  match f.changeType, f.content with
  | .removed, _ => Function.update tree f.path none
  | _, some c => Function.update tree f.path (some c)
  | _, none => tree

def applyPull (files : List PullFileEntry) (tree : Path → Option Bytes) : Path → Option Bytes := files.foldl applyEntry tree

/-! ## Historical downloads -/

/-- One event of the replay. -/
def foldHash (hashes : FMap Path Text) (e : Event) : FMap Path Text :=
  match e.kind with
  | .fileAdded _ path hash => hashes.insert path hash
  | .fileModified _ path _ hash => hashes.insert path hash
  | .fileRemoved _ path => hashes.erase path
  | _ => hashes

/-- The blob of a path, skipped where it is not found. -/
def fetchBlob (hashes : FMap Path Text) (files : FMap Path Bytes) (path : Path × Nat) :
    Proc Backend ApiError (FMap Path Bytes) :=
  match hashes.get path.1 with
  | none => pure files
  | some hash => do
    match ← attempt (mapErr ApiError.ofStorage (Backend.get fails path.2 (blobKey hash))) with
    | .ok content => pure (files.insert path.1 content)
    | .error _ => pure files

def buildFileMapAtVersion (env : Env) (target : Nat) : Proc Backend ApiError (FMap Path Bytes) := do
  let allVersions ← mapErr ApiError.ofStorage (listVersions fails)
  let targetVersions := allVersions.filter (fun v => parseVersionNumber v.versionId ≤ target)
  let mergeEventIds := targetVersions.filterMap VersionMeta.mergeEventId
  if mergeEventIds.isEmpty then pure ∅
  else
    let mergeEvents ← mapErr ApiError.ofStorage (queryByType fails "MergeCompleted".toList)
    let workspaceIds := sortDedup (mergeEventIds.filterMap (workspaceOf mergeEvents))
    let events ← mapErr ApiError.ofStorage (querySinceIdFiltered fails 0 fileEventTypes workspaceIds)
    let hashes := (orderById events).foldl foldHash ∅
    (env.hashOrder hashes.keys).zipIdx.foldlM (fetchBlob fails hashes) ∅

end Handlers
end Vai
