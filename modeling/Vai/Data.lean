import Vai.Text
import Vai.FMap
/-!
# Data — the records of a vai repository

The types of `graph`, `event_log`, `version`, `workspace`, `diff` and `merge` that the merge engine reads and writes,
under the source's names (`VersionMeta` is `.vai/versions/<id>.toml`, `WorkspaceMeta` a workspace's `meta.toml`,
`ConflictRecord` `.vai/merge/conflicts/<id>.toml`).
Wall-clock fields (`created_at`, `updated_at`, an event's `timestamp`), a workspace's `issue_id` and a version's database
`id` are left out: nothing modelled reads them.

Identifiers (`Uuid`) are numbers, paths are texts relative to the repository root.
-/
namespace Vai

abbrev Uuid := Nat
abbrev Path := Text

/-! ## Entities -/

inductive EntityKind where
  | function | method | struct | enum | trait | impl | module | useStatement
  | classItem | interface | typeAlias | component | hook | exportStatement
  deriving DecidableEq, Repr

def EntityKind.asStr : EntityKind → Text
  | .function => "function".toList
  | .method => "method".toList
  | .struct => "struct".toList
  | .enum => "enum".toList
  | .trait => "trait".toList
  | .impl => "impl".toList
  | .module => "module".toList
  | .useStatement => "use_statement".toList
  | .classItem => "class".toList
  | .interface => "interface".toList
  | .typeAlias => "type_alias".toList
  | .component => "component".toList
  | .hook => "hook".toList
  | .exportStatement => "export_statement".toList

structure Entity where
  id : Text
  kind : EntityKind
  name : Text
  qualifiedName : Text
  filePath : Path
  byteRange : Nat × Nat
  lineRange : Nat × Nat
  parentEntity : Option Text
  deriving DecidableEq, Repr

inductive RelationshipKind where
  | contains | imports | calls | implements | extends
  deriving DecidableEq, Repr

structure Relationship where
  id : Text
  kind : RelationshipKind
  fromEntity : Text
  toEntity : Text
  deriving DecidableEq, Repr

inductive GraphError where
  | language (msg : Text)
  | parse (msg : Text)
  | database (msg : Text)
  deriving DecidableEq, Repr

/-! ## Events -/

inductive ConflictSeverity where
  | low | medium | high
  deriving DecidableEq, Repr

structure EntitySummary where
  id : Text
  kind : Text
  name : Text
  qualifiedName : Text
  filePath : Path
  deriving DecidableEq, Repr

structure ConflictInfo where
  conflictId : Uuid
  entityA : Text
  entityB : Text
  description : Text
  severity : ConflictSeverity
  deriving DecidableEq, Repr

inductive EventKind where
  | repoInitialized (repoId : Uuid) (name : Text)
  | versionCreated (versionId : Text) (parentVersionId : Option Text) (intent : Text)
  | workspaceCreated (workspaceId : Uuid) (intent baseVersion : Text)
  | workspaceSubmitted (workspaceId : Uuid) (changesSummary : Text)
  | workspaceDiscarded (workspaceId : Uuid) (reason : Text)
  | entityAdded (workspaceId : Uuid) (entity : EntitySummary)
  | entityModified (workspaceId : Uuid) (entityId changeDescription : Text)
  | entityRemoved (workspaceId : Uuid) (entityId : Text)
  | fileAdded (workspaceId : Uuid) (path : Path) (hash : Text)
  | fileModified (workspaceId : Uuid) (path : Path) (oldHash newHash : Text)
  | fileRemoved (workspaceId : Uuid) (path : Path)
  | mergeCompleted (workspaceId : Uuid) (newVersionId : Text) (autoResolvedConflicts : Nat)
  | mergeConflictDetected (workspaceId : Uuid) (conflict : ConflictInfo)
  | mergeConflictResolved (conflictId : Uuid) (resolution resolvedBy : Text)
  | rollbackCreated (targetVersionId newVersionId : Text) (entityFilter : Option Text)
  | issueCreated (issueId : Uuid) (title creator priority : Text)
  | issueUpdated (issueId : Uuid) (fieldsChanged : List Text)
  | issueAssigned (issueId : Uuid) (agentId : Text)
  | issueLinkedToWorkspace (issueId workspaceId : Uuid)
  | issueResolved (issueId : Uuid) (resolution : Text) (versionId : Option Text)
  | issueClosed (issueId : Uuid) (resolution : Text)
  | escalationCreated (escalationId : Uuid) (escalationType severity : Text) (workspaceIds : List Text) (summary : Text)
  | escalationResolved (escalationId : Uuid) (resolution resolvedBy : Text)
  | commentCreated (issueId commentId : Uuid) (author authorType : Text) (parentId : Option Uuid) (mentions : List Uuid)
  | repoAgentSecretSet (repoId : Uuid) (key : Text)
  | repoAgentSecretDeleted (repoId : Uuid) (key : Text)
  deriving DecidableEq, Repr

def EventKind.workspaceId : EventKind → Option Uuid
  | .workspaceCreated w _ _ => some w
  | .workspaceSubmitted w _ => some w
  | .workspaceDiscarded w _ => some w
  | .entityAdded w _ => some w
  | .entityModified w _ _ => some w
  | .entityRemoved w _ => some w
  | .fileAdded w _ _ => some w
  | .fileModified w _ _ _ => some w
  | .fileRemoved w _ => some w
  | .mergeCompleted w _ _ => some w
  | .mergeConflictDetected w _ => some w
  | _ => none

structure Event where
  id : Nat
  kind : EventKind
  deriving DecidableEq, Repr

/-! ## Versions and workspaces -/

structure VersionMeta where
  versionId : Text
  parentVersionId : Option Text
  intent : Text
  createdBy : Text
  mergeEventId : Option Nat
  deriving DecidableEq, Repr

inductive WorkspaceStatus where
  | created | active | submitted | merged | discarded
  deriving DecidableEq, Repr

structure WorkspaceMeta where
  id : Uuid
  intent : Text
  baseVersion : Text
  status : WorkspaceStatus
  deletedPaths : List Path
  deriving DecidableEq, Repr

/-! ## Diffs and conflicts -/

inductive FileChangeType where
  | added | modified | deleted
  deriving DecidableEq, Repr

structure FileDiff where
  path : Path
  changeType : FileChangeType
  lines : Nat
  contentHash : Text
  deriving DecidableEq, Repr

inductive EntityChangeType where
  | added | modified | removed
  deriving DecidableEq, Repr

structure EntityChange where
  entityId : Text
  qualifiedName : Text
  kind : EntityKind
  filePath : Path
  changeType : EntityChangeType
  lineRange : Option (Nat × Nat)
  deriving DecidableEq, Repr

structure WorkspaceDiff where
  workspaceId : Uuid
  baseVersion : Text
  fileDiffs : List FileDiff
  entityChanges : List EntityChange
  deriving DecidableEq, Repr

def WorkspaceDiff.isEmpty (d : WorkspaceDiff) : Bool := d.fileDiffs.isEmpty && d.entityChanges.isEmpty

structure ConflictRecord where
  conflictId : Uuid
  workspaceId : Uuid
  filePath : Path
  entityIds : List Text
  description : Text
  severity : ConflictSeverity
  mergeLevel : Nat
  resolved : Bool
  deriving DecidableEq, Repr

structure SubmitResult where
  version : VersionMeta
  filesApplied : Nat
  entitiesChanged : Nat
  autoResolved : Nat
  entityIds : List Text
  deriving DecidableEq, Repr

/-! ## Errors -/

inductive IoErrorKind where
  | notFound | invalidInput | other
  deriving DecidableEq, Repr

structure IoError where
  kind : IoErrorKind
  msg : Text
  deriving DecidableEq, Repr

/-- `merge::MergeError`.  The wrapper variants (`Diff`, `Workspace`, `EventLog`, `Version`, `Repo`) are flattened to the
error they carry.  `panicked` is not a returned error: it marks the call whose indexing or splicing panics. -/
inductive MergeError where
  | io (e : IoError)
  | noActiveWorkspace
  | workspaceNotFound (id : Uuid)
  | versionNotFound (id : Text)
  | graph (e : GraphError)
  | semanticConflicts (count : Nat) (conflicts : List ConflictRecord)
  | emptyWorkspace
  | panicked
  deriving DecidableEq, Repr

/-! ## What the engine takes from outside -/

/-- What the merge engine takes from outside the repository's own code: the tree-sitter parsers behind
`parse_rust_source` and `parse_source_file`, the SHA-256 digest, fresh version-4 UUIDs, the order in which a hash set
of texts or a directory is iterated (any permutation of its elements), and which operations on `.vai/` (`metaFault`)
and on the files (`fsFault`) fail, by the number of operations made before. -/
structure Env where
  parseRustSource : Path → Bytes → Except GraphError (List Entity × List Relationship)
  parseSourceFile : Path → Bytes → Except GraphError (List Entity × List Relationship)
  sha256Hex : Bytes → Text
  newUuid : Nat → Uuid
  hashOrder : List Text → List Text
  hashOrderPerm : ∀ l, (hashOrder l).Perm l
  dirOrder : List Text → List Text
  dirOrderPerm : ∀ l, (dirOrder l).Perm l
  metaFault : Nat → Bool
  fsFault : Nat → Bool

/-- Nothing to parse, every order as it comes, and no faults. -/
def Env.plain : Env where
  parseRustSource _ _ := .ok ([], [])
  parseSourceFile _ _ := .ok ([], [])
  sha256Hex _ := []
  newUuid n := n
  hashOrder l := l
  hashOrderPerm _ := .refl _
  dirOrder l := l
  dirOrderPerm _ := .refl _
  metaFault _ := false
  fsFault _ := false

/-- Some operation on `.vai/` may fail. -/
def Env.Faulty (env : Env) : Prop := ∃ i, env.metaFault i = true

/-- Some operation on the files may fail. -/
def Env.FsFaulty (env : Env) : Prop := ∃ i, env.fsFault i = true

/-- No operation on the disk fails. -/
def Env.Quiet (env : Env) : Prop := (∀ i, env.metaFault i = false) ∧ ∀ i, env.fsFault i = false

theorem Env.Quiet.not_faulty {env : Env} (h : env.Quiet) : ¬ env.Faulty := by
  rintro ⟨i, hi⟩
  rw [h.1 i] at hi
  cases hi

theorem Env.Quiet.not_fsFaulty {env : Env} (h : env.Quiet) : ¬ env.FsFaulty := by
  rintro ⟨i, hi⟩
  rw [h.2 i] at hi
  cases hi

/-- Membership in a hash set does not depend on its iteration order. -/
@[simp] theorem Env.mem_hashOrder (env : Env) {l : List Text} {x : Text} : x ∈ env.hashOrder l ↔ x ∈ l :=
  (env.hashOrderPerm l).mem_iff

end Vai
