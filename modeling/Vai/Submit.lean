import Vai.Diff
/-!
# Submit — the merge engine

`submit_with_fs` of `merge/mod.rs` and the two paths below it: `fast_forward_merge`, when HEAD is still the version
the workspace was created from, and `semantic_merge`, which compares each changed file with what HEAD has done to it.
`submit` is the local entry point.

The order of the effects is the source's: snapshots, base files, graph, events, version record, HEAD, workspace.
-/
namespace Vai
namespace Merge

open Proc

variable {φ : Type} (env : Env) (fs : MergeFs φ)

/-! ## What HEAD has changed since a version -/

/-- `result.entry(rel_path).or_insert(content)`. -/
def orInsert (result : FMap Path Bytes) (p : Path) (content : Bytes) : FMap Path Bytes :=
  if (result.get p).isSome then result else result.insert p content

def collectKey (pre : Text) (result : FMap Path Bytes) (key : Text) : Proc φ MergeError (FMap Path Bytes) :=
  match Text.stripPrefix pre key with
  | none => fail .panicked
  | some relPath => do
    let content ← io (fs.readFile key)
    pure (orInsert result relPath content)

def collectVersion (result : FMap Path Bytes) (n : Nat) : Proc φ MergeError (FMap Path Bytes) := do
  let pre := snapshotPrefix (versionName n)
  let keys ← io (fs.listFiles pre)
  keys.foldlM (collectKey fs pre) result

def collectHeadChangedFiles (baseVersion : Text) : Proc (World φ) MergeError (FMap Path Bytes) := do
  let baseN := parseVersionNum baseVersion
  let head ← onVai env VaiDir.readHead
  let headN := parseVersionNum head
  onFs ((List.range' (baseN + 1) (headN - baseN)).foldlM (collectVersion fs) ∅)

/-! ## Shared steps -/

def saveFile (newVersionId : Text) (fd : FileDiff) : Proc φ MergeError PUnit := do
  if ← io (fs.fileExists (baseKey fd.path)) then
    let content ← io (fs.readFile (baseKey fd.path))
    io (fs.writeFile (snapshotKey newVersionId fd.path) content)
  else pure ()

def savePreChangeSnapshot (newVersionId : Text) (d : WorkspaceDiff) : Proc φ MergeError PUnit :=
  d.fileDiffs.forM (saveFile fs newVersionId)

def applyKey (key : Text) : Proc φ MergeError PUnit :=
  match Text.stripPrefix overlayPrefix key with
  | none => fail .panicked
  | some relPath => do
    let content ← io (fs.readFile key)
    io (fs.writeFile (baseKey relPath) content)

def deleteBase (path : Path) : Proc φ MergeError PUnit := io (fs.deleteFile (baseKey path))

def applyOverlay (deletedPaths : List Path) : Proc φ MergeError Nat := do
  let overlayKeys ← io (fs.listFiles overlayPrefix)
  overlayKeys.forM (applyKey fs)
  deletedPaths.forM (deleteBase fs)
  pure overlayKeys.length

def isSupportedSourceFile (p : Path) : Bool :=
  Text.afterLast '.' p ∈ ["rs".toList, "ts".toList, "tsx".toList, "js".toList, "jsx".toList]

/-- One file of the graph update: what cannot be read or parsed is skipped. -/
def updateGraphFile (fd : FileDiff) : Proc (World φ) MergeError PUnit := do
  if isSupportedSourceFile fd.path then
    match ← attempt (onFs (io (fs.readFile (baseKey fd.path)))) with
    | .ok content =>
      let _ ← attempt (onVai env (VaiDir.updateFile env fd.path content))
    | .error _ => pure ()
  else pure ()

def updateGraphForDiff (d : WorkspaceDiff) : Proc (World φ) MergeError PUnit := do
  onVai env (pure ())
  d.fileDiffs.forM (updateGraphFile env fs)

/-- `let _ = log.append(FileRemoved { .. })`. -/
def logRemoved (w : Uuid) (path : Path) : Proc (World φ) MergeError PUnit := do
  let _ ← attempt (onVai env (VaiDir.append (.fileRemoved w path)))

def advanceHeadAndCloseWorkspace (newVersionId : Text) (wsMeta : WorkspaceMeta) : Proc (World φ) MergeError PUnit := do
  onVai env (VaiDir.writeHead newVersionId)
  onVai env (VaiDir.updateMeta { wsMeta with status := .merged })
  let _ ← attempt (onVai env VaiDir.removeActive)

/-- The end both paths share: the events, the version record, HEAD and the workspace. -/
def complete (wsMeta : WorkspaceMeta) (d : WorkspaceDiff) (deletedPaths : List Path) (newVersionId : Text)
    (filesApplied autoResolved : Nat) : Proc (World φ) MergeError SubmitResult := do
  deletedPaths.forM (logRemoved env wsMeta.id)
  let mergeEvent ← onVai env (VaiDir.append (.mergeCompleted wsMeta.id newVersionId autoResolved))
  let _ ← onVai env (VaiDir.append (.versionCreated newVersionId (some wsMeta.baseVersion) wsMeta.intent))
  let version ← onVai env (VaiDir.createVersion newVersionId (some wsMeta.baseVersion) wsMeta.intent "agent".toList
    (some mergeEvent.id))
  advanceHeadAndCloseWorkspace env newVersionId wsMeta
  let entityIds := d.entityChanges.map EntityChange.entityId
  pure { version, filesApplied, entitiesChanged := entityIds.length, autoResolved, entityIds }

/-! ## Fast-forward -/

def fastForwardMerge (wsMeta : WorkspaceMeta) (d : WorkspaceDiff) (deletedPaths : List Path) :
    Proc (World φ) MergeError SubmitResult := do
  let newVersionId ← onVai env (Proc.read VaiDir.nextVersionId)
  onFs (savePreChangeSnapshot fs newVersionId d)
  let filesApplied ← onFs (applyOverlay fs deletedPaths)
  updateGraphForDiff env fs d
  complete env wsMeta d deletedPaths newVersionId filesApplied 0

/-! ## Semantic merge -/

/-- The accumulators of the merge loop. -/
structure Pending where
  mergedFiles : List (Path × Bytes)
  autoResolved : Nat
  conflicts : List ConflictRecord

/-- One changed file: it is merged, applied as it is, or contributes its conflicts. -/
def mergeStep (wsId : Uuid) (headChanged : FMap Path Bytes) (acc : Pending) (fd : FileDiff) :
    Proc φ MergeError Pending := do
  let wsContent ← io (fs.readFile (overlayKey fd.path))
  match headChanged.get fd.path with
  | some baseContent =>
    let headContent := (← Diff.readIfExists fs (baseKey fd.path)).getD []
    match tryMergeFile env acc.conflicts.length fd.path baseContent headContent wsContent wsId with
    | none => fail .panicked
    | some (.autoMerged merged _) =>
      pure { acc with mergedFiles := acc.mergedFiles ++ [(fd.path, merged)], autoResolved := acc.autoResolved + 1 }
    | some (.conflicts records) => pure { acc with conflicts := acc.conflicts ++ records }
  | none => pure { acc with mergedFiles := acc.mergedFiles ++ [(fd.path, wsContent)] }

def mergeFiles (wsId : Uuid) (headChanged : FMap Path Bytes) (d : WorkspaceDiff) : Proc φ MergeError Pending :=
  d.fileDiffs.foldlM (mergeStep env fs wsId headChanged) ⟨[], 0, []⟩

def conflictInfo (c : ConflictRecord) : ConflictInfo :=
  { conflictId := c.conflictId, entityA := c.entityIds[0]?.getD [], entityB := c.entityIds[1]?.getD [],
    description := c.description, severity := c.severity }

/-- Persist the conflicts and refuse the merge. -/
def refuse (wsId : Uuid) (conflicts : List ConflictRecord) : Proc (World φ) MergeError SubmitResult := do
  onVai env (pure ())
  conflicts.forM (fun c => onVai env (VaiDir.storeConflict c))
  conflicts.forM (fun c => Diff.appendEvent env (.mergeConflictDetected wsId (conflictInfo c)))
  fail (.semanticConflicts conflicts.length conflicts)

def writeMerged (q : Path × Bytes) : Proc φ MergeError PUnit := io (fs.writeFile (baseKey q.1) q.2)

def semanticMerge (wsMeta : WorkspaceMeta) (d : WorkspaceDiff) (deletedPaths : List Path) :
    Proc (World φ) MergeError SubmitResult := do
  let headChanged ← collectHeadChangedFiles env fs wsMeta.baseVersion
  let acc ← onFs (mergeFiles env fs wsMeta.id headChanged d)
  if acc.conflicts.isEmpty then
    let newVersionId ← onVai env (Proc.read VaiDir.nextVersionId)
    onFs (savePreChangeSnapshot fs newVersionId d)
    onFs (acc.mergedFiles.forM (writeMerged fs))
    onFs (deletedPaths.forM (deleteBase fs))
    updateGraphForDiff env fs d
    complete env wsMeta d deletedPaths newVersionId acc.mergedFiles.length acc.autoResolved
  else refuse env wsMeta.id acc.conflicts

/-! ## Submit -/

def changesSummary (d : WorkspaceDiff) : Text :=
  Text.ofNat d.fileDiffs.length ++ " file(s), ".toList ++ Text.ofNat d.entityChanges.length ++ " entity change(s)".toList

def submitWithFs (wsMeta : WorkspaceMeta) (deletedPaths : List Path) : Proc (World φ) MergeError SubmitResult := do
  let d ← onFs (Diff.computeWithFs env fs wsMeta.id wsMeta.baseVersion deletedPaths)
  if d.isEmpty then fail .emptyWorkspace
  else
    Diff.recordEvents env d
    onVai env (pure ())
    let _ ← onVai env (VaiDir.append (.workspaceSubmitted wsMeta.id (changesSummary d)))
    let currentHead ← onVai env VaiDir.readHead
    if currentHead = wsMeta.baseVersion then fastForwardMerge env fs wsMeta d deletedPaths
    else semanticMerge env fs wsMeta d deletedPaths

/-- `submit`: the active workspace, with the deletions of its `.vai-deleted` manifest. -/
def submit (fsOf : Uuid → MergeFs φ) : Proc (World φ) MergeError SubmitResult := do
  let wsMeta ← active env
  let deletedPaths ← onVai env (VaiDir.readManifest wsMeta.id)
  submitWithFs env (fsOf wsMeta.id) wsMeta deletedPaths

end Merge
end Vai
