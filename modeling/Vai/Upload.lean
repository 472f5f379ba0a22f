import Vai.Handlers
import Vai.Utf8
/-!
# Upload — files for a workspace

`upload_workspace_files_handler` and `upload_snapshot_handler` of `server/workspace.rs` with the checks they make
(`sanitize_path`, `validate_str_len`, `extract_snapshot_tarball`, the deletion rail), after the permission check.

Both write file by file and check as they go.  `base64`, the gzip and tar readers, `serde_json` on the manifest and the
printing of a percentage are parameters; the overlay on the local disk, a cache of the same files, is left out.
-/
namespace Vai
namespace Handlers

open Proc Backend

/-! ## Checks -/

def maxPathLen : Nat := 1000
def maxFilesPerRequest : Nat := 100
def maxFileSizeBytes : Nat := 10 * 1024 * 1024
def maxSnapshotSizeBytes : Nat := 100 * 1024 * 1024

def validateStrLen (value : Text) (max : Nat) (field : Text) : Except ApiError Unit :=
  let len := (Text.intoBytes value).length
  if max < len then
    .error (.badRequest ("`".toList ++ field ++ "` exceeds maximum length of ".toList ++ Text.ofNat max ++
      " bytes (got ".toList ++ Text.ofNat len ++ " bytes)".toList))
  else .ok ()

/-- `sanitize_path`: no null character and no `..` between slashes; leading slashes are dropped. -/
def sanitizePath (raw : Text) : Option Text :=
  if '\x00' ∈ raw then none
  else
    let trimmed := Text.trimStartMatches '/' raw
    if "..".toList ∈ trimmed.splitOn '/' then none else some trimmed

/-- `replace('\\', "/")`. -/
def slashes (s : Text) : Text := s.map (fun c => if c = '\\' then '/' else c)

/-- `trim_start_matches("./")`. -/
def trimDotSlash : Text → Text
  | '.' :: '/' :: s => trimDotSlash s
  | s => s

/-! ## What the requests are read with -/

inductive TarKind where
  | file | symlink | hardLink | other
deriving DecidableEq, Repr

structure TarEntry where
  kind : TarKind
  path : Except Text Text
  content : Except Text Bytes

structure DeltaManifest where
  baseVersion : Text
  deletedPaths : List Text

structure Codecs where
  base64Decode : Text → Except Text Bytes
  untar : Bytes → Except Text (List (Except Text TarEntry))
  fromSlice : Bytes → Except Text DeltaManifest
  percent : Nat → Nat → Text

variable (env : Env) (fails : Fails) (codecs : Codecs)

/-! ## The end both uploads share -/

/-- One deletion: a new entry of the column, and an event. -/
def noteDeleted (id : Uuid) (merged : List Path) (path : Path) : Proc Backend ApiError (List Path) := do
  record fails (.fileRemoved id path)
  pure (if path ∈ merged then merged else merged ++ [path])

/-- The row gets what has changed: the column of deletions, and a first upload makes the workspace active. -/
def finishUpload (wsMeta : WorkspaceMeta) (touched : Bool) (merged : List Path) : Proc Backend ApiError PUnit :=
  let newStatus := if wsMeta.status = .created ∧ touched then some WorkspaceStatus.active else none
  let deletedChanged := merged ≠ wsMeta.deletedPaths
  if newStatus.isSome ∨ deletedChanged then
    ignored (updateWorkspace fails wsMeta.id newStatus (if deletedChanged then some merged else none))
  else pure ()

/-! ## `POST /api/workspaces/:id/files` -/

structure FileEntry where
  path : Text
  contentBase64 : Text
deriving DecidableEq, Repr

structure UploadFilesRequest where
  files : List FileEntry
  deletedPaths : List Text
deriving DecidableEq, Repr

structure UploadFilesResponse where
  uploaded : Nat
  skipped : Nat
  paths : List Path
deriving DecidableEq, Repr

/-- The path and the content of an entry, or why it is rejected. -/
def checkEntry (entry : FileEntry) : Except ApiError (Path × Bytes) :=
  match codecs.base64Decode entry.contentBase64 with
  | .error e => .error (.badRequest ("base64 decode error for '".toList ++ entry.path ++ "': ".toList ++ e))
  | .ok content =>
    if maxFileSizeBytes < content.length then
      .error (.badRequest ("file '".toList ++ entry.path ++ "' exceeds 10 MiB limit (".toList ++
        Text.ofNat content.length ++ " bytes)".toList))
    else
      match sanitizePath entry.path with
      | none => .error (.badRequest ("invalid path: '".toList ++ entry.path ++ "'".toList))
      | some rel => .ok (slashes rel, content)

/-- What the workspace or else HEAD has at a path; a failed read counts as nothing. -/
def existing (i : Nat) (id : PathId) (path : Path) : Proc Backend ApiError (Option Bytes) := do
  let inOverlay ← attempt (mapErr ApiError.ofStorage (Backend.get fails i (workspaceKey id path)))
  let inCurrent ← attempt (mapErr ApiError.ofStorage (Backend.get fails i (currentKey path)))
  pure (match inOverlay, inCurrent with
    | .ok c, _ => some c
    | .error _, .ok c => some c
    | _, _ => none)

/-- Store one file: the overlay, the blobs of the new and the old content, and the event. -/
def storeFile (i : Nat) (id : PathId) (path : Path) (content : Bytes) : Proc Backend ApiError PUnit := do
  let old ← existing fails i id path
  mapErr (fun _ => ApiError.internal) (put fails i (workspaceKey id path) content)
  ignored (put fails i (blobKey (env.sha256Hex content)) content)
  match old with
  | none => record fails (.fileAdded id path (env.sha256Hex content))
  | some old =>
    ignored (put fails i (blobKey (env.sha256Hex old)) old)
    record fails (.fileModified id path (env.sha256Hex old) (env.sha256Hex content))

def uploadFile (id : PathId) (uploaded : List Path) (entry : FileEntry × Nat) : Proc Backend ApiError (List Path) := do
  let (path, content) ← Proc.ofExcept (fun e => e) (checkEntry codecs entry.1)
  storeFile env fails entry.2 id path content
  pure (uploaded ++ [path])

def deletePath (id : Uuid) (merged : List Path) (raw : Text) : Proc Backend ApiError (List Path) :=
  match sanitizePath raw with
  | none => fail (.badRequest ("invalid deleted path: '".toList ++ raw ++ "'".toList))
  | some rel => noteDeleted fails id merged (slashes rel)

/-- The whole overlay becomes the scope of the workspace. -/
def rescope (id : PathId) (wsMeta : WorkspaceMeta) : Proc Backend ApiError PUnit := do
  let listed ← attempt (mapErr ApiError.ofStorage (Backend.list fails 0 (workspacePrefix id)))
  let keys := match listed with
    | .ok l => l.map Prod.fst
    | .error _ => []
  let paths := (keys.filterMap (Text.stripPrefix (workspacePrefix id))).filter (fun p => p ≠ [])
  modify (updateScope wsMeta.id wsMeta.intent paths)

/-- The checks made before the repository is locked. -/
def checkRequest (body : UploadFilesRequest) : Except ApiError Unit := do
  if maxFilesPerRequest < body.files.length then
    .error (.badRequest ("too many files: ".toList ++ Text.ofNat body.files.length ++ ", maximum is ".toList ++
      Text.ofNat maxFilesPerRequest))
  else
    body.files.forM (fun entry => validateStrLen entry.path maxPathLen "file path".toList)
    body.deletedPaths.forM (fun path => validateStrLen path maxPathLen "deleted_path".toList)

def uploadWorkspaceFilesHandler (id : PathId) (body : UploadFilesRequest) : Proc Backend ApiError UploadFilesResponse := do
  Proc.ofExcept (fun e => e) (checkRequest body)
  let wsMeta ← mapErr ApiError.ofStorage (getWorkspace fails id)
  let uploaded ← body.files.zipIdx.foldlM (uploadFile env fails codecs id) []
  rescope fails id wsMeta
  let merged ← body.deletedPaths.foldlM (deletePath fails wsMeta.id) wsMeta.deletedPaths
  finishUpload fails wsMeta (!uploaded.isEmpty || !body.deletedPaths.isEmpty) merged
  pure ⟨uploaded.length, 0, uploaded⟩

/-! ## `POST /api/workspaces/:id/upload-snapshot` -/

def unsafeLink : ApiError := .badRequest "tarball contains a symlink or hard link, which is not permitted".toList

/-- One entry of the archive. -/
def extractEntry (files : FMap Path Bytes) (entry : Except Text TarEntry) : Except ApiError (FMap Path Bytes) :=
  match entry with
  | .error e => .error (.badRequest ("invalid tarball entry: ".toList ++ e))
  | .ok entry =>
    if entry.kind = .symlink ∨ entry.kind = .hardLink then .error unsafeLink
    else if entry.kind ≠ .file then .ok files
    else
      match entry.path with
      | .error e => .error (.badRequest ("invalid path in tarball: ".toList ++ e))
      | .ok raw =>
        let path := trimDotSlash raw
        match sanitizePath path with
        | none => .error (.badRequest ("tarball contains an unsafe path: '".toList ++ path ++ "'".toList))
        | some rel =>
          let rel := slashes rel
          if rel = [] then .ok files
          else
            match entry.content with
            | .error e => .error (.badRequest ("read tarball entry '".toList ++ rel ++ "': ".toList ++ e))
            | .ok content =>
              if maxFileSizeBytes < content.length then
                .error (.badRequest ("tarball entry '".toList ++ rel ++ "' exceeds 10 MiB per-file limit (".toList ++
                  Text.ofNat content.length ++ " bytes)".toList))
              else .ok (files.insert rel content)

def extractSnapshotTarball (gz : Bytes) : Except ApiError (FMap Path Bytes) :=
  match codecs.untar gz with
  | .error e => .error (.badRequest ("invalid tarball: ".toList ++ e))
  | .ok entries => entries.foldlM extractEntry ∅

def manifestPath : Path := ".vai-delta.json".toList

def isSnapshotPathIgnored (path : Path) : Bool :=
  ".vai/".toList.isPrefixOf path || ".git/".toList.isPrefixOf path || path == ".vai".toList || path == ".git".toList

/-- The files of an archive, and its manifest in delta mode. -/
structure Snapshot where
  files : FMap Path Bytes
  manifest : Option DeltaManifest

def readSnapshot (gz : Bytes) : Except ApiError Snapshot :=
  match extractSnapshotTarball codecs gz with
  | .error e => .error e
  | .ok raw =>
    let files := FMap.filter raw (fun path _ => !isSnapshotPathIgnored path && path != manifestPath)
    match raw.get manifestPath with
    | none => .ok ⟨files, none⟩
    | some bytes =>
      match codecs.fromSlice bytes with
      | .ok manifest => .ok ⟨files, some manifest⟩
      | .error e => .error (.badRequest ("invalid .vai-delta.json: ".toList ++ e))

structure UploadSnapshotResponse where
  added : Nat
  modified : Nat
  deleted : Nat
  unchanged : Nat
  isDelta : Bool
deriving DecidableEq, Repr

/-- The counters of the loop over the archive. -/
structure Tally where
  added : Nat
  modified : Nat
  unchanged : Nat
  uploaded : List Path

/-- `current/` as a map from paths to hashes; a failed listing counts as an empty one. -/
def currentMap : Proc Backend ApiError (FMap Path Text) := do
  match ← attempt (mapErr ApiError.ofStorage (Backend.list fails 0 currentPrefix)) with
  | .error _ => pure ∅
  | .ok l => pure (FMap.ofList ((l.filterMap (fun q => (Text.stripPrefix currentPrefix q.1).map
      (fun rel => (rel, env.sha256Hex q.2)))).filter (fun q => q.1 ≠ [])))

/-- One file of the archive: skipped when HEAD has the same content, else stored with its event. -/
def uploadEntry (id : PathId) (current : FMap Path Text) (files : FMap Path Bytes) (tally : Tally) (path : Path × Nat) :
    Proc Backend ApiError Tally :=
  match files.get path.1 with
  | none => pure tally
  | some content =>
    let newHash := env.sha256Hex content
    let stored (kind : EventKind) (tally : Tally) : Proc Backend ApiError Tally := do
      mapErr (fun _ => ApiError.internal) (put fails path.2 (workspaceKey id path.1) content)
      ignored (put fails path.2 (blobKey newHash) content)
      record fails kind
      pure { tally with uploaded := tally.uploaded ++ [path.1] }
    match current.get path.1 with
    | some oldHash =>
      if oldHash = newHash then pure { tally with unchanged := tally.unchanged + 1 }
      else stored (.fileModified id path.1 oldHash newHash) { tally with modified := tally.modified + 1 }
    | none => stored (.fileAdded id path.1 newHash) { tally with added := tally.added + 1 }

/-- What the upload deletes: what the manifest lists, or what HEAD has and the archive has not. -/
def snapshotDeletions (current : FMap Path Text) (snapshot : Snapshot) : List Path :=
  match snapshot.manifest with
  | some manifest => manifest.deletedPaths.filter (fun p => p ≠ [])
  | none => (env.hashOrder current.keys).filter (fun p => (snapshot.files.get p).isNone)

/-- The rail: more than half of at least three files. -/
def destructive (allowDestructive : Bool) (deleted count : Nat) : Bool :=
  !allowDestructive && decide (0 < deleted) && decide (3 ≤ count) && decide (count < deleted * 2)

def destructiveMsg (deleted count : Nat) : Text :=
  "upload would delete ".toList ++ Text.ofNat deleted ++ " of ".toList ++ Text.ofNat count ++ " files (>".toList ++
    codecs.percent deleted count ++ "% threshold); set ?allow_destructive=true to proceed".toList

def uploadSnapshotHandler (id : PathId) (allowDestructive : Bool) (gz : Bytes) :
    Proc Backend ApiError UploadSnapshotResponse := do
  if maxSnapshotSizeBytes < gz.length then
    fail (.payloadTooLarge ("tarball exceeds 100 MiB limit (".toList ++ Text.ofNat gz.length ++ " bytes)".toList))
  else
    let wsMeta ← mapErr ApiError.ofStorage (getWorkspace fails id)
    let snapshot ← Proc.ofExcept (fun e => e) (readSnapshot codecs gz)
    let current ← currentMap env fails
    let tally ← (env.hashOrder snapshot.files.keys).zipIdx.foldlM (uploadEntry env fails id current snapshot.files)
      ⟨0, 0, 0, []⟩
    let deletedPaths := snapshotDeletions env current snapshot
    if destructive allowDestructive deletedPaths.length current.keys.length then
      fail (.conflict (destructiveMsg codecs deletedPaths.length current.keys.length))
    else
      let merged ← deletedPaths.foldlM (noteDeleted fails id) wsMeta.deletedPaths
      finishUpload fails wsMeta (!tally.uploaded.isEmpty || !deletedPaths.isEmpty) merged
      pure ⟨tally.added, tally.modified, deletedPaths.length, tally.unchanged, snapshot.manifest.isSome⟩

end Handlers
end Vai
