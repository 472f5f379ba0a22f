import Vai.Scope
import Vai.Sorting
/-!
# IssueStorage — the two backends, as far as issues go

`Storage` has the methods of the storage traits that the handlers of issues and of the work queue call (`storage/mod.rs`);
`Sqlite.storage` and `Postgres.storage` are the implementations of `storage/sqlite.rs` and of `storage/postgres`, for one
repository.

Parameters stand for what the databases do: the collation and `lower` of Postgres, and the order that each gives to rows
which `ORDER BY` leaves open.  Times, and RFC 3339 texts of times, are numbers; ids are compared as their texts are.
-/
namespace Vai

open Proc Rows Sorting

/-! ## Arguments of the traits -/

structure NewIssue where
  title : Text
  description : Text
  priority : IssuePriority
  labels : List Text
  creator : Text
  /-- The JSON, as what it reads back as. -/
  agentSource : Option (Option AgentSource)
  acceptanceCriteria : List Text

structure IssueUpdate where
  title : Option Text
  description : Option Text
  priority : Option IssuePriority
  labels : Option (List Text)
  status : Option IssueStatus
  resolution : Option Text
  workspaceId : Option Uuid
  acceptanceCriteria : Option (List Text)

def IssueUpdate.none : IssueUpdate := ⟨.none, .none, .none, .none, .none, .none, .none, .none⟩

structure IssueFilter where
  status : Option (List IssueStatus)
  priority : Option IssuePriority
  label : Option Text
  creator : Option Text
  blockedBy : Option Uuid

def IssueFilter.none : IssueFilter := ⟨.none, .none, .none, .none, .none⟩

def IssueFilter.onlyOpen : IssueFilter := ⟨some [.open], .none, .none, .none, .none⟩

inductive SortDirection where
  | asc | desc
deriving DecidableEq, Repr

structure SortField where
  column : Text
  direction : SortDirection
deriving DecidableEq, Repr

structure ListQuery where
  page : Nat
  perPage : Nat
  sort : List SortField

namespace ListQuery

/-- `u32::MAX`, for all rows. -/
def allRows : Nat := 4294967295

/-- `ListQuery::default`. -/
def default : ListQuery := ⟨1, allRows, []⟩

/-- What `from_params` lets through, and the default. -/
def Valid (q : ListQuery) : Prop := 1 ≤ q.page ∧ (1 ≤ q.perPage ∧ q.perPage ≤ 100 ∨ q.page = 1 ∧ q.perPage = allRows)

/-- The limit of `sql_limit_offset`, none for all rows. -/
def limit (q : ListQuery) : Option Nat := if q.perPage = allRows then none else some q.perPage

def offset (q : ListQuery) : Nat := (q.page - 1) * q.perPage

/-- The first `limit` items from `offset` on. -/
def slice (q : ListQuery) (items : List Issue) : List Issue :=
  q.limit.elim (items.drop q.offset) (fun n => (items.drop q.offset).take n)

end ListQuery

inductive IssueLinkRelationship where
  | blocks | relatesTo | duplicates
deriving DecidableEq, Repr

structure IssueLink where
  sourceId : Uuid
  targetId : Uuid
  relationship : IssueLinkRelationship
deriving DecidableEq, Repr

/-- The methods of the storage traits, over what a backend keeps of one repository. -/
structure Storage (σ : Type) where
  createIssue : Uuid → Nat → NewIssue → Proc σ StorageError Issue
  getIssue : Uuid → Proc σ StorageError Issue
  listIssues : IssueFilter → ListQuery → Proc σ StorageError (List Issue × Nat)
  updateIssue : Nat → Uuid → IssueUpdate → Proc σ StorageError Issue
  closeIssue : Nat → Uuid → Text → Proc σ StorageError Issue
  createLink : IssueLink → Proc σ StorageError Unit
  listLinks : Uuid → Proc σ StorageError (List IssueLink)
  readHead : Proc σ StorageError (Option Text)
  createWorkspace : Uuid → Text → Text → Option Uuid → Proc σ StorageError WorkspaceMeta
  /-- With the issue of each; the inactive ones are asked for. -/
  listWorkspaces : Bool → Proc σ StorageError (List (WorkspaceMeta × Option Uuid))
  discardWorkspace : Uuid → Proc σ StorageError Unit
  setWorkspaceId : Uuid → Uuid → Proc σ StorageError Unit
  append : EventKind → Proc σ StorageError Unit

/-! ## Orders -/

/-- The order that a database has on texts. -/
structure Collation where
  le : Text → Text → Bool
  isOrder : IsOrder le

/-- The order of the code points. -/
def Collation.binary : Collation := ⟨fun s t => s ≤ t, isOrder_le⟩

inductive SortKey where
  | num (n : Nat)
  | text (t : Text)

/-- The keys of one column are of one kind. -/
def SortKey.le (collation : Collation) : SortKey → SortKey → Bool
  | .num m, .num n => m ≤ n
  | .text s, .text t => collation.le s t
  | .num _, .text _ => true
  | .text _, .num _ => false

/-- The order of a column in a direction. -/
def directed (le : Issue → Issue → Bool) : SortDirection → Issue → Issue → Bool
  | .asc, a, b => le a b
  | .desc, a, b => le b a

def newestFirst (a b : Issue) : Bool := b.createdAt ≤ a.createdAt

/-! ## SQLite -/

def IssueError.toText : IssueError → Text
  | .sqlite => "SQLite error: ".toList
  | .eventLog => "Event log error: ".toList
  | .notFound id => "Issue not found: ".toList ++ Text.ofNat id
  | .invalidTransition before after =>
    "Invalid state transition from ".toList ++ before ++ " to ".toList ++ after
  | .rateLimitExceeded agentId count max' =>
    "Rate limit exceeded: agent ".toList ++ agentId ++ " has created ".toList ++ Text.ofNat count ++
      " issues this hour (max ".toList ++ Text.ofNat max' ++ ")".toList

/-- `.vai/` of a local repository. -/
structure LocalRepo where
  issues : IssueDir
  head : Option Text
  workspaces : FMap Uuid WorkspaceMeta
  /-- The issue in the meta files of the workspaces. -/
  claimed : FMap Uuid Uuid
  active : Option Uuid

inductive LocalCall where
  | issue (c : IssueCall)
  /-- The openings of the store, in the order of one request. -/
  | openIssueStore (nth : Nat)
  | openEventLog
  | listIssues
  | readHead
  | createWorkspaceDir
  | writeMeta
  | logWorkspace
  | setActive
  | updateMeta
  | listWorkspaces
  | logDiscarded
  | removeWorkspace
  | appendEvent
deriving DecidableEq, Repr

def LocalRepo.empty : LocalRepo := ⟨.empty, none, ∅, ∅, none⟩

namespace Sqlite

variable (fails : LocalCall → Bool)

def io (c : LocalCall) : Proc LocalRepo StorageError Unit := if fails c then fail (.io []) else pure ()

def openIssueStore (nth : Nat) : Proc LocalRepo StorageError Unit :=
  if fails (.openIssueStore nth) then fail (.database []) else pure ()

def openEventLog : Proc LocalRepo StorageError Unit := io fails .openEventLog

/-- A call of the issue store. -/
def issues {α : Type} (toStorage : IssueError → StorageError) (m : Proc IssueDir IssueError α) :
    Proc LocalRepo StorageError α := fun s =>
  match m s.issues with
  | (.ok a, d) => (.ok a, { s with issues := d })
  | (.error e, d) => (.error (toStorage e), { s with issues := d })

/-- `.map_err(|e| StorageError::Database(e.to_string()))`. -/
def database (e : IssueError) : StorageError := .database e.toText

def orNotFound (id : Uuid) : IssueError → StorageError
  | .notFound _ => .notFound ("issue ".toList ++ Text.ofNat id)
  | e => database e

def orInvalidTransition : IssueError → StorageError
  | .invalidTransition before after => .invalidTransition (before ++ " → ".toList ++ after)
  | e => database e

/-- The source is written after the issue. -/
def attachSource (source : Option (Option AgentSource)) (created : Issue) : Proc LocalRepo StorageError Issue := do
  match source with
  | some source =>
    issues database (IssueDir.setAgentSource (fun c => fails (.issue c)) created.id source)
    pure { created with agentSource := source }
  | none => pure created

def attachCriteria (criteria : List Text) (created : Issue) : Proc LocalRepo StorageError Issue := do
  if criteria ≠ [] then
    issues database (IssueDir.setAcceptanceCriteria (fun c => fails (.issue c)) created.id criteria)
    pure { created with acceptanceCriteria := criteria }
  else pure created

def createIssue (id : Uuid) (now : Nat) (issue : NewIssue) : Proc LocalRepo StorageError Issue := do
  openIssueStore fails 1
  openEventLog fails
  let created ← issues database
    (IssueDir.create (fun c => fails (.issue c)) id now issue.title issue.description issue.priority issue.labels
      issue.creator .eventLog)
  let created ← attachSource fails issue.agentSource created
  attachCriteria fails issue.acceptanceCriteria created

def getIssue (id : Uuid) : Proc LocalRepo StorageError Issue := do
  openIssueStore fails 0
  issues (orNotFound id) (IssueDir.get (fun c => fails (.issue c)) 0 id)

/-- The label condition of `IssueStore::list`, on the column.  SQLite refuses patterns of more than `maxLikePatternLength`
bytes, so that this is for labels of at most 49996 bytes. -/
def labelMatches (label labels : Text) : Bool :=
  labels = label || sqliteLike (label ++ ",%".toList) labels || sqliteLike ("%,".toList ++ label) labels ||
    sqliteLike ("%,".toList ++ label ++ ",%".toList) labels

/-- The `WHERE` clause of `IssueStore::list`. -/
def selects (filter : IssueFilter) (dependencies : List (Uuid × Uuid)) (r : IssueRow) : Bool :=
  filter.status.all (fun statuses => statuses.isEmpty || r.status ∈ statuses) &&
  filter.priority.all (fun p => r.priority = p) &&
  filter.label.all (fun label => labelMatches label r.labels) &&
  filter.creator.all (fun c => r.creator = c) &&
  filter.blockedBy.all (fun b => (r.id, b) ∈ dependencies)

def sortKey (column : Text) (i : Issue) : SortKey :=
  if column = "created_at".toList then .num i.createdAt
  else if column = "updated_at".toList then .num i.updatedAt
  else if column = "priority".toList then
    match i.priority with
    | .critical => .text "0".toList
    | .high => .text "1".toList
    | .medium => .text "2".toList
    | .low => .text "3".toList
  else if column = "status".toList then .text i.status.asStr
  else if column = "title".toList then .text i.title
  else if column = "creator".toList then .text i.creator
  else if column = "id".toList then .num i.id
  else .text []

def fieldLe (sf : SortField) : Issue → Issue → Bool :=
  directed (fun a b => (sortKey sf.column a).le .binary (sortKey sf.column b)) sf.direction

/-- `IssueStore::list` and `paginate_in_memory`. -/
def listIssues (order : RowOrder Issue) (filter : IssueFilter) (query : ListQuery) :
    Proc LocalRepo StorageError (List Issue × Nat) := do
  openIssueStore fails 0
  if fails .listIssues then fail (.database [])
  else
    let items ← Proc.read fun s =>
      order.orderBy newestFirst ((s.issues.rows.filter (selects filter s.issues.dependencies)).map IssueRow.toIssue)
    pure (query.slice (sortPasses (query.sort.map fieldLe) items), items.length)

/-- The fields of an update that `IssueStore::update` writes. -/
def hasFieldUpdates (update : IssueUpdate) : Bool :=
  update.title.isSome || update.description.isSome || update.priority.isSome || update.labels.isSome

/-- The status transition of an update. -/
def applyStatus (now : Nat) (id : Uuid) (update : IssueUpdate) : Proc LocalRepo StorageError Unit := do
  match update.status with
  | none => pure ()
  | some .inProgress =>
    match update.workspaceId with
    | none => pure ()
    | some wsId =>
      let _ ← issues orInvalidTransition (IssueDir.setInProgress (fun c => fails (.issue c)) id wsId now .eventLog)
  | some .open =>
    let _ ← issues orInvalidTransition (IssueDir.reopen (fun c => fails (.issue c)) id now .eventLog)
  | some .resolved =>
    let _ ← issues orInvalidTransition
      (IssueDir.resolve (fun c => fails (.issue c)) id now update.resolution .eventLog)
  | some .closed =>
    let _ ← issues database
      (IssueDir.close (fun c => fails (.issue c)) id now (update.resolution.getD "closed".toList) .eventLog)

/-- The fields of an update. -/
def applyFields (now : Nat) (id : Uuid) (update : IssueUpdate) : Proc LocalRepo StorageError Unit := do
  if hasFieldUpdates update then
    let _ ← issues database (IssueDir.updateIssue (fun c => fails (.issue c)) id now update.title update.description
      update.priority update.labels .eventLog)

def applyCriteria (id : Uuid) (update : IssueUpdate) : Proc LocalRepo StorageError Unit := do
  match update.acceptanceCriteria with
  | some criteria => issues database (IssueDir.setAcceptanceCriteria (fun c => fails (.issue c)) id criteria)
  | none => pure ()

def updateIssue (now : Nat) (id : Uuid) (update : IssueUpdate) : Proc LocalRepo StorageError Issue := do
  openIssueStore fails 1
  openEventLog fails
  applyFields fails now id update
  applyStatus fails now id update
  applyCriteria fails id update
  issues (orNotFound id) (IssueDir.get (fun c => fails (.issue c)) 3 id)

def closeIssue (now : Nat) (id : Uuid) (resolution : Text) : Proc LocalRepo StorageError Issue := do
  openIssueStore fails 1
  openEventLog fails
  issues (orNotFound id) (IssueDir.close (fun c => fails (.issue c)) id now resolution .eventLog)

/-- `EventStore::append`. -/
def append (kind : EventKind) : Proc LocalRepo StorageError Unit := do
  openEventLog fails
  if fails .appendEvent then fail (.database [])
  else modify fun s => { s with issues := s.issues.logged .eventLog kind }

/-- `workspace::create`, which makes the new workspace the active one. -/
def createWorkspace (id : Uuid) (intent baseVersion : Text) : Proc LocalRepo StorageError WorkspaceMeta := do
  io fails .createWorkspaceDir
  io fails .writeMeta
  let wsMeta : WorkspaceMeta := ⟨id, intent, baseVersion, .created, []⟩
  modify fun s => { s with workspaces := s.workspaces.insert id wsMeta }
  io fails .logWorkspace
  modify fun s => { s with issues := s.issues.logged .eventLog (.workspaceCreated id intent baseVersion) }
  io fails .setActive
  modify fun s => { s with active := some id }
  pure wsMeta

/-- The issue is noted when it can be. -/
def linkIssue (id : Uuid) (issueId : Option Uuid) : Proc LocalRepo StorageError Unit :=
  if issueId.isSome && !fails .updateMeta then modify fun s => { s with claimed := s.claimed.put id issueId } else pure ()

/-- The workspaces that are not inactive, or all. -/
def listed (includeInactive : Bool) (w : WorkspaceMeta) : Bool :=
  includeInactive || (w.status ≠ .discarded && w.status ≠ .merged)

def listWorkspaces (includeInactive : Bool) : Proc LocalRepo StorageError (List (WorkspaceMeta × Option Uuid)) := do
  io fails .listWorkspaces
  Proc.read fun s => ((s.workspaces.pairs.map Prod.snd).filter (listed includeInactive)).map fun w => (w, s.claimed.get w.id)

/-- `workspace::discard`, which removes the workspace. -/
def discardWorkspace (id : Uuid) : Proc LocalRepo StorageError Unit := do
  if ← Proc.read (fun s => (s.workspaces.get id).isNone) then fail (.notFound (Text.ofNat id))
  else
    io fails .logDiscarded
    modify fun s => { s with issues := s.issues.logged .eventLog (.workspaceDiscarded id "discarded by user".toList) }
    io fails .removeWorkspace
    modify fun s => { s with
      workspaces := s.workspaces.erase id
      active := if s.active = some id then none else s.active }

def readHead : Proc LocalRepo StorageError (Option Text) := do
  io fails .readHead
  Proc.read LocalRepo.head

/-- Links and workers are for the server. -/
def storage (order : RowOrder Issue) : Storage LocalRepo where
  createIssue := createIssue fails
  getIssue := getIssue fails
  listIssues := listIssues fails order
  updateIssue := updateIssue fails
  closeIssue := closeIssue fails
  createLink _ := fail (.database
    "Issue links are not supported in local SQLite mode".toList)
  listLinks _ := pure []
  readHead := readHead fails
  createWorkspace id intent baseVersion issueId := do
    let wsMeta ← createWorkspace fails id intent baseVersion
    linkIssue fails id issueId
    pure wsMeta
  listWorkspaces := listWorkspaces fails
  discardWorkspace := discardWorkspace fails
  setWorkspaceId _ _ := pure ()
  append := append fails

end Sqlite

/-! ## Postgres -/

/-- The rows of one repository, and of the workers. -/
structure PgRepo where
  issues : List Issue
  links : List IssueLink
  workspaces : FMap Uuid WorkspaceMeta
  /-- The column `issue_id` of the workspaces. -/
  claimed : FMap Uuid Uuid
  head : Option Text
  workers : FMap Uuid (Option Uuid)
  events : List EventKind

inductive PgCall where
  | insertIssue
  | selectIssue (nth : Nat)
  | listIssues
  | updateIssue
  | closeIssue
  | insertLink
  | listLinks
  | readHead
  | insertWorkspace
  | selectWorkspace
  | listWorkspaces
  | discardWorkspace
  | setWorkspaceId
  | appendEvent
deriving DecidableEq, Repr

def PgRepo.empty : PgRepo := ⟨[], [], ∅, ∅, none, ∅, []⟩

namespace Postgres

variable (fails : PgCall → Bool)

def query (c : PgCall) : Proc PgRepo StorageError Unit := if fails c then fail (.database []) else pure ()

def getIssue (nth : Nat) (id : Uuid) : Proc PgRepo StorageError Issue := do
  query fails (.selectIssue nth)
  match ← Proc.read (fun s => row Issue.id id s.issues) with
  | some i => pure i
  | none => fail (.notFound ("issue ".toList ++ Text.ofNat id))

/-- The row of a new issue. -/
def newIssue (id : Uuid) (now : Nat) (issue : NewIssue) : Issue where
  id := id
  title := issue.title
  description := issue.description
  status := .open
  priority := issue.priority
  labels := issue.labels
  creator := issue.creator
  resolution := none
  agentSource := issue.agentSource.join
  acceptanceCriteria := issue.acceptanceCriteria
  createdAt := now
  updatedAt := now

/-- The primary key is fresh, or the insertion fails. -/
def createIssue (id : Uuid) (now : Nat) (issue : NewIssue) : Proc PgRepo StorageError Issue := do
  query fails .insertIssue
  if ← Proc.read (fun s => s.issues.any (fun i => i.id = id)) then fail (.database [])
  else
    modify fun s => { s with issues := s.issues ++ [newIssue id now issue] }
    getIssue fails 2 id

variable (lower : Text → Text) (collation : Collation) (order : RowOrder Issue)

def labelMatches (label : Text) (labels : List Text) : Bool := labels.any fun l => lower l = lower label

def selects (filter : IssueFilter) (links : List IssueLink) (i : Issue) : Bool :=
  filter.status.all (fun statuses => statuses.isEmpty || i.status ∈ statuses) &&
  filter.priority.all (fun p => i.priority = p) &&
  filter.label.all (fun label => labelMatches lower label i.labels) &&
  filter.creator.all (fun c => i.creator = c) &&
  filter.blockedBy.all (fun b => ⟨b, i.id, .blocks⟩ ∈ links)

/-- The value in a column that the query may name. -/
def sortKey (column : Text) (i : Issue) : Option SortKey :=
  if column = "created_at".toList then some (.num i.createdAt)
  else if column = "updated_at".toList then some (.num i.updatedAt)
  else if column = "priority".toList then some (.text i.priority.asStr)
  else if column = "status".toList then some (.text i.status.asStr)
  else if column = "title".toList then some (.text i.title)
  else if column = "creator".toList then some (.text i.creator)
  else if column = "id".toList then some (.num i.id)
  else none

def columns : List Text := ["created_at", "updated_at", "priority", "status", "title", "creator", "id"].map String.toList

def fieldLe (sf : SortField) : Issue → Issue → Bool :=
  directed (fun a b => match sortKey sf.column a, sortKey sf.column b with
    | some ka, some kb => ka.le collation kb
    | _, _ => true) sf.direction

/-- `sql_order_by`, which drops the columns that it does not know. -/
def orderBy (sort : List SortField) : Issue → Issue → Bool :=
  let fields := sort.filter fun sf => sf.column ∈ columns
  if fields = [] then newestFirst else lexLe (fields.map (fieldLe collation))

/-- Without a limit there is no offset either. -/
def listIssues (filter : IssueFilter) (q : ListQuery) : Proc PgRepo StorageError (List Issue × Nat) := do
  query fails .listIssues
  let items ← Proc.read fun s => s.issues.filter (selects lower filter s.links)
  let sorted := order.orderBy (orderBy collation q.sort) items
  pure (q.limit.elim sorted (fun n => (sorted.drop q.offset).take n), items.length)

/-- The row after an update. -/
def updated (now : Nat) (update : IssueUpdate) (i : Issue) : Issue := { i with
  title := update.title.getD i.title
  description := update.description.getD i.description
  priority := update.priority.getD i.priority
  labels := update.labels.getD i.labels
  status := update.status.getD i.status
  resolution := update.resolution.or i.resolution
  acceptanceCriteria := update.acceptanceCriteria.getD i.acceptanceCriteria
  updatedAt := now }

def updateIssue (now : Nat) (id : Uuid) (update : IssueUpdate) : Proc PgRepo StorageError Issue := do
  let _ ← getIssue fails 1 id
  query fails .updateIssue
  -- the row is still what has been read
  modify fun s => { s with issues := Rows.update Issue.id id (updated now update) s.issues }
  getIssue fails 2 id

def closeIssue (now : Nat) (id : Uuid) (resolution : Text) : Proc PgRepo StorageError Issue := do
  query fails .closeIssue
  modify fun s => { s with issues := Rows.update Issue.id id (fun i =>
    { i with status := .closed, resolution := some resolution, updatedAt := now }) s.issues }
  getIssue fails 2 id

/-- There is one link from an issue to another. -/
def createLink (link : IssueLink) : Proc PgRepo StorageError Unit := do
  query fails .insertLink
  modify fun s => { s with
    links := s.links.filter (fun l => ¬ (l.sourceId = link.sourceId ∧ l.targetId = link.targetId)) ++ [link] }

def listLinks (id : Uuid) : Proc PgRepo StorageError (List IssueLink) := do
  query fails .listLinks
  Proc.read fun s => s.links.filter fun l => l.sourceId = id || l.targetId = id

def readHead : Proc PgRepo StorageError (Option Text) := do
  query fails .readHead
  Proc.read PgRepo.head

def createWorkspace (id : Uuid) (intent baseVersion : Text) (issueId : Option Uuid) :
    Proc PgRepo StorageError WorkspaceMeta := do
  query fails .insertWorkspace
  if ← Proc.read (fun s => (s.workspaces.get id).isSome) then fail (.database [])
  else
    modify fun s => { s with
      workspaces := s.workspaces.insert id ⟨id, intent, baseVersion, .created, []⟩
      claimed := s.claimed.put id issueId }
    query fails .selectWorkspace
    pure ⟨id, intent, baseVersion, .created, []⟩

def listWorkspaces (includeInactive : Bool) : Proc PgRepo StorageError (List (WorkspaceMeta × Option Uuid)) := do
  query fails .listWorkspaces
  Proc.read fun s => ((s.workspaces.pairs.map Prod.snd).filter (Sqlite.listed includeInactive)).map fun w => (w, s.claimed.get w.id)

def discardWorkspace (id : Uuid) : Proc PgRepo StorageError Unit := do
  query fails .discardWorkspace
  modify fun s => { s with
    workspaces := s.workspaces.put id ((s.workspaces.get id).map fun w => { w with status := .discarded }) }

def setWorkspaceId (workerId wsId : Uuid) : Proc PgRepo StorageError Unit := do
  query fails .setWorkspaceId
  if ← Proc.read (fun s => (s.workers.get workerId).isSome) then
    modify fun s => { s with workers := s.workers.insert workerId (some wsId) }
  else fail (.notFound ("agent worker ".toList ++ Text.ofNat workerId))

def append (kind : EventKind) : Proc PgRepo StorageError Unit := do
  query fails .appendEvent
  modify fun s => { s with events := s.events ++ [kind] }

def storage : Storage PgRepo where
  createIssue := createIssue fails
  getIssue := getIssue fails 0
  listIssues := listIssues fails lower collation order
  updateIssue := updateIssue fails
  closeIssue := closeIssue fails
  createLink := createLink fails
  listLinks := listLinks fails
  readHead := readHead fails
  createWorkspace := createWorkspace fails
  listWorkspaces := listWorkspaces fails
  discardWorkspace := discardWorkspace fails
  setWorkspaceId := setWorkspaceId fails
  append := append fails

end Postgres
end Vai
