import Vai.Backend
/-!
# Handlers — the life of a workspace on the server

`create_workspace_handler`, `discard_workspace_handler` and `submit_workspace_handler` of `server/workspace.rs` on the S3
merge path, after the permission check.

A submit merges in a temporary directory over the file store and flushes; only then it writes to the tables, and what
becomes of these writes is ignored (`let _ = …`).  The handler never looks at the status of the workspace.
-/
namespace Vai
namespace Handlers

open Proc Backend

variable (env : Env) (fails : Fails)

theorem workspacePrefix_cons (id : PathId) :
    workspacePrefix id = 'w' :: ("orkspaces/".toList ++ id.text ++ "/".toList) := rfl

/-- No directory lies inside one whose name begins with another letter. -/
theorem not_prefix_of_ne {c d : Char} (h : c ≠ d) (s t : Text) : ¬ c :: s <+: d :: t :=
  fun hp => h (List.cons_prefix_cons.1 hp).1

/-- Where the server keeps the files of a workspace and of HEAD. -/
def configOf (id : PathId) : S3Config where
  overlayPrefix := workspacePrefix id
  basePrefix := currentPrefix
  overlay_base := by
    rw [workspacePrefix_cons]
    exact ⟨not_prefix_of_ne (by decide) _ _, not_prefix_of_ne (by decide) _ _⟩
  overlay_version := by
    rw [workspacePrefix_cons]
    exact ⟨not_prefix_of_ne (by decide) _ _, not_prefix_of_ne (by decide) _ _⟩
  base_version := by decide

def createWorkspaceHandler (newId : Uuid) (intent : Text) : Proc Backend ApiError WorkspaceMeta := do
  let head ← attempt (mapErr ApiError.ofStorage (readHead fails))
  let head := match head with
    | .ok (some head) => head
    | _ => "unknown".toList
  let ws ← mapErr ApiError.ofStorage (createWorkspace fails newId intent head)
  record fails (.workspaceCreated ws.id ws.intent ws.baseVersion)
  pure ws

/-- An issue that was in progress for the workspace is open again. -/
def reopenIssue (id : Uuid) : Proc Backend ApiError PUnit := do
  match ← attempt (mapErr ApiError.ofStorage (linkedIssue fails id)) with
  | .ok (some (issue, .inProgress)) =>
    let _ ← attempt (mapErr ApiError.ofStorage (do
      db fails .updateIssue
      modify fun b => { b with issues := b.issues.insert issue .open }))
  | _ => pure ()

def discardWorkspaceHandler (id : Uuid) : Proc Backend ApiError PUnit := do
  let _ ← mapErr ApiError.ofStorage (getWorkspace fails id)
  mapErr ApiError.ofStorage (Backend.discardWorkspace fails id)
  modify (removeScope id)
  reopenIssue fails id
  record fails (.workspaceDiscarded id "discarded via API".toList)

/-- `cascade_workspace_teardown`: nothing more when the row cannot be written. -/
def cascadeWorkspaceTeardown (id : Uuid) (reason : Text) : Proc Backend ApiError PUnit := do
  match ← attempt (mapErr ApiError.ofStorage (Backend.discardWorkspace fails id)) with
  | .error _ => pure ()
  | .ok _ =>
    modify (removeScope id)
    record fails (.workspaceDiscarded id reason)

/-- `From<MergeError>`, where the handler does not answer itself.  A panic is no response of the handler; it is counted
among the internal errors. -/
def ofMerge : MergeError → ApiError
  | .emptyWorkspace => .conflict "workspace has no file changes to submit".toList
  | .workspaceNotFound id => .notFound ("Workspace error: Workspace not found: ".toList ++ Text.ofNat id)
  | .noActiveWorkspace => .notFound "Workspace error: No active workspace set".toList
  | _ => .internal

/-- `format!("in {..}")`: one file by name, several by their number. -/
def filesSummary (conflicts : List ConflictRecord) : Text :=
  match (conflicts.map ConflictRecord.filePath).dedup with
  | [p] => "in ".toList ++ p
  | ps => "in ".toList ++ Text.ofNat ps.length ++ " files".toList

/-- An escalation for the conflicts, and its event once the escalation is stored. -/
def escalate (newId : Uuid) (wsMeta : WorkspaceMeta) (count : Nat) (conflicts : List ConflictRecord) :
    Proc Backend ApiError PUnit := do
  match ← attempt (mapErr ApiError.ofStorage (db fails .createEscalation)) with
  | .error _ => pure ()
  | .ok _ =>
    record fails (.escalationCreated newId "MergeConflict".toList "High".toList [Text.ofNat wsMeta.id]
      (Text.ofNat count ++ " unresolvable conflict(s) ".toList ++ filesSummary conflicts ++ " — workspace \"".toList ++
        wsMeta.intent ++ "\" requires manual resolution".toList))

/-- The merge over the file store, with a temporary directory for the engine's own records. -/
def mergeOverStore (id : PathId) (wsMeta : WorkspaceMeta) (currentHead : Text) : Proc Backend MergeError SubmitResult := fun b =>
  let w : World S3 := { fs := S3.new b.store, vai := setupTmpdirForS3Submit wsMeta currentHead, ops := 0 }
  let out := S3.s3Submit env fails.store (configOf id) wsMeta wsMeta.deletedPaths w
  (out.1, { b with store := out.2.fs.store })

/-- `let _ = ..` around a write to the tables. -/
def ignored (m : Proc Backend StorageError Unit) : Proc Backend ApiError PUnit := do
  let _ ← attempt (mapErr ApiError.ofStorage m)

/-- The event the version points at: the stored one, or what the engine's own log has. -/
def mergeEventId (stored : Except ApiError Event) (result : SubmitResult) : Option Nat :=
  match stored with
  | .ok e => some e.id
  | .error _ => result.version.mergeEventId

def summaryOf (result : SubmitResult) : Text :=
  Text.ofNat result.filesApplied ++ " files applied, ".toList ++ Text.ofNat result.entitiesChanged ++
    " entities changed, new version ".toList ++ result.version.versionId

/-- What a merge that went through leaves in the tables. -/
def recordMerge (wsMeta : WorkspaceMeta) (result : SubmitResult) : Proc Backend ApiError PUnit := do
  modify (removeScope wsMeta.id)
  let stored ← attempt (mapErr ApiError.ofStorage (Backend.append fails
    (.mergeCompleted wsMeta.id result.version.versionId result.autoResolved)))
  wsMeta.deletedPaths.forM (fun path => record fails (.fileRemoved wsMeta.id path))
  ignored (createVersion fails { result.version with mergeEventId := mergeEventId stored result })
  ignored (advanceHead fails result.version.versionId)
  ignored (updateWorkspace fails wsMeta.id (some .merged) none)
  record fails (.workspaceSubmitted wsMeta.id (summaryOf result))

def semanticConflictMsg (count : Nat) : Text :=
  "Semantic merge detected ".toList ++ Text.ofNat count ++ " conflict(s) requiring manual resolution; an escalation ".toList ++
    "has been created — run `vai escalations list` to view it".toList

/-- `submit_workspace_handler`. -/
def submitWorkspaceHandler (newId : Uuid) (id : PathId) : Proc Backend ApiError SubmitResult := do
  let wsMeta ← mapErr ApiError.ofStorage (getWorkspace fails id)
  match ← attempt (mapErr ApiError.ofStorage (linkedIssue fails id)) with
  | .ok (some (issue, .closed)) =>
    cascadeWorkspaceTeardown fails wsMeta.id "submit rejected: linked issue is closed".toList
    fail (.conflict ("linked issue ".toList ++ Text.ofNat issue ++ " is closed".toList))
  | _ =>
    let head ← mapErr (fun _ => ApiError.internal) (readHead fails)
    let currentHead := head.getD wsMeta.baseVersion
    match ← mapErr ofMerge (attempt (mergeOverStore env fails id wsMeta currentHead)) with
    | .ok result =>
      recordMerge fails wsMeta result
      pure result
    | .error (.semanticConflicts count conflicts) =>
      escalate fails newId wsMeta count conflicts
      fail (.conflict (semanticConflictMsg count))
    | .error e => fail (ofMerge e)

end Handlers
end Vai
