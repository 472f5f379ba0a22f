import Vai.LocalFs
import Vai.Utf8
import Vai.World
/-!
# Remote — the client's working tree

`Session::pull`, `pull_force` and `sync` of `remote/mod.rs` with the walks and the extractor of `remote/tarball.rs`,
`clone` of `clone.rs` and `download` of `agent/mod.rs`, over a local file system.

The server is what it answers (`RemoteAdapter`, as `HttpAdapter` reads it), and `base64`, the gzip and tar readers, the
TOML and JSON writers are parameters.  Mode bits, progress bars and the warning about the active workspace are left out.
-/
namespace Vai
namespace Remote

open Proc FilePath LocalFs

/-! ## What the server answers -/

inductive ChangeKind where
  | added | modified | removed
deriving DecidableEq, Repr

structure FilePullEntry where
  path : Text
  change : ChangeKind
  contentBase64 : Option Text
deriving DecidableEq, Repr

structure IncrementalPullResult where
  headVersion : Text
  files : List FilePullEntry

structure ManifestEntry where
  path : Text
  sha256 : Text
deriving DecidableEq, Repr

structure ManifestResult where
  version : Text
  files : List ManifestEntry

structure FullDownload where
  headVersion : Text
  tarballGz : Bytes
  expectedFileCount : Option Nat

structure VersionFileChange where
  path : Text
  change : ChangeKind
deriving DecidableEq, Repr

inductive RemoteError where
  | server (msg : Text)
  | io (e : FsError)
  | base64 (msg : Text)
  | tarball (msg : Text)
  | localVersionNotFound
  | partialDownload (downloaded expected : Nat)
  | nothingToPush
  | pushWouldDeleteFiles (paths : List Text)
  | mergeConflict (body : Text)
deriving DecidableEq, Repr

structure RemoteAdapter where
  getManifest : Except RemoteError ManifestResult
  pullIncremental : Text → Except RemoteError IncrementalPullResult
  downloadFull : Except RemoteError FullDownload
  getServerHead : Except RemoteError Text
  listVersions : Except RemoteError (List Text)
  getVersionChanges : Text → Except RemoteError (List VersionFileChange)
  downloadFile : Text → Except RemoteError Bytes
  versionPages : Except RemoteError (List VersionMeta)

/-- `fetch_versions_since` of the HTTP adapter, over all its pages. -/
def RemoteAdapter.fetchVersionsSince (adapter : RemoteAdapter) (since : Nat) : Except RemoteError (List VersionMeta) :=
  adapter.versionPages.map (fun l => l.filter (fun m => since < parseVersionNum m.versionId))

inductive EntryKind where
  | file | dir | other
deriving DecidableEq, Repr

structure ArchiveEntry where
  kind : EntryKind
  path : Except Text Text
  content : Bytes

structure ClientEnv where
  sha256Hex : Bytes → Text
  base64Decode : Text → Except Text Bytes
  entries : Bytes → Except Text (List (Except Text ArchiveEntry))
  versionToml : VersionMeta → Bytes

/-! ## Walks over the working tree -/

def ignoreDirs : List Name :=
  [".vai".toList, ".git".toList, "target".toList, "node_modules".toList, "dist".toList, "__pycache__".toList]

def isBuiltinSecretFile (name : Name) : Bool :=
  name == ".env".toList || ".env.".toList.isPrefixOf name || ".pem".toList.isSuffixOf name || ".key".toList.isSuffixOf name ||
    "id_rsa".toList.isPrefixOf name || "id_ed25519".toList.isPrefixOf name

/-- A walk that skips the ignored directories gets to the file. -/
def walked (rel : List Name) : Bool := rel.dropLast.all (fun c => c ∉ ignoreDirs)

/-- The walk of `collect_recursive` also skips the files that look like secrets. -/
def seen (rel : List Name) : Bool := walked rel && !isBuiltinSecretFile (rel.getLastD [])

variable (env : ClientEnv) (adapter : RemoteAdapter) (root : List Name)

def collectLocalHashes (t : Tree) : FMap Text Text :=
  FMap.ofList (((filesBelow root t).filter (fun q => seen q.1 && !q.1.isEmpty)).map
    (fun q => (joinNames q.1, env.sha256Hex q.2)))

/-! ## The files of `.vai/` -/

def vaiDir : Name := ".vai".toList
def headFile : Text := ".vai/head".toList

/-- `read_local_head`. -/
def readLocalHead : Proc Local RemoteError Text := do
  match ← Proc.read (fun s => s.tree.file (root ++ [vaiDir, "head".toList])) with
  | none => fail (.io .notFound)
  | some bytes =>
    match Text.fromUtf8 bytes with
    | none => fail (.io .invalidInput)
    | some raw => pure (Text.trim raw)

def writeHead (version : Text) : Proc Local RemoteError PUnit :=
  mapErr .io (write root headFile (Text.intoBytes (version ++ ['\n'])))

def versionFile (versionId : Text) : Text := ".vai/versions/".toList ++ versionId ++ ".toml".toList

/-- `write_version_metas`. -/
def writeVersionMetas (since : Nat) : Proc Local RemoteError PUnit := do
  let metas ← ofExcept id (adapter.fetchVersionsSince since)
  if metas = [] then pure ⟨⟩
  else
    mapErr .io (createDirAll root [vaiDir, "versions".toList])
    metas.forM (fun m => mapErr .io (write root (versionFile m.versionId) (env.versionToml m)))

/-! ## Pull -/

structure PullOutcome where
  previousVersion : Text
  newVersion : Text
  filesUpdated : List Text
  filesRemoved : List Text
  filesRestored : List Text
  alreadyUpToDate : Bool
  force : Bool
deriving DecidableEq, Repr

/-- One added or modified file of pass 1; an entry without content is skipped. -/
def pullEntry (updated : List Text) (entry : FilePullEntry) : Proc Local RemoteError (List Text) :=
  match entry.contentBase64 with
  | none => pure updated
  | some b64 => do
    let content ← ofExcept .base64 (env.base64Decode b64)
    mapErr .io (install root entry.path content)
    pure (updated ++ [entry.path])

def removeEntry (removed : List Text) (entry : FilePullEntry) : Proc Local RemoteError (List Text) := do
  mapErr .io (discard root entry.path)
  pure (removed ++ [entry.path])

/-- What has changed on the server, the writes first. -/
def applyChanges (files : List FilePullEntry) : Proc Local RemoteError (List Text × List Text) := do
  let updated ← (files.filter (fun e => e.change ≠ .removed)).foldlM (pullEntry env root) []
  let removed ← (files.filter (fun e => e.change = .removed)).foldlM (removeEntry root) []
  pure (updated, removed)

/-- Pass 1, when HEAD has moved. -/
def firstPass (localHead : Text) (result : IncrementalPullResult) : Proc Local RemoteError (List Text × List Text) :=
  if result.headVersion ≠ localHead ∧ result.files ≠ [] then applyChanges env root result.files else pure ([], [])

/-- One file of the manifest in pass 2: written when pass 1 did not and the walk has not seen it. -/
def restoreEntry (localMap : FMap Text Text) (updated restored : List Text) (entry : ManifestEntry) :
    Proc Local RemoteError (List Text) :=
  if entry.path ∈ updated ∨ (localMap.get entry.path).isSome then pure restored
  else do
    let content ← ofExcept id (adapter.downloadFile entry.path)
    mapErr .io (install root entry.path content)
    pure (restored ++ [entry.path])

/-- Pass 2: the files of the manifest that are not there. -/
def restorePass (updated : List Text) : Proc Local RemoteError (List Text) := do
  let manifest ← ofExcept id adapter.getManifest
  let localMap ← Proc.read (fun s => collectLocalHashes env root s.tree)
  manifest.files.foldlM (restoreEntry adapter root localMap updated) []

/-- HEAD and the versions, when HEAD has moved. -/
def finishPull (localHead newVersion : Text) : Proc Local RemoteError PUnit :=
  if newVersion ≠ localHead then do
    writeHead root newVersion
    writeVersionMetas env adapter root (parseVersionNum localHead)
  else pure ⟨⟩

def pull : Proc Local RemoteError PullOutcome := do
  let localHead ← readLocalHead root
  let result ← ofExcept id (adapter.pullIncremental localHead)
  let (updated, removed) ← firstPass env root localHead result
  let restored ← restorePass env adapter root updated
  finishPull env adapter root localHead result.headVersion
  pure ⟨localHead, result.headVersion, updated, removed, restored.insertionSort (· ≤ ·),
    updated.isEmpty && removed.isEmpty && restored.isEmpty && result.headVersion == localHead, false⟩

/-! ## Archives -/

/-- A path that leaves the directory it is unpacked to. -/
def unsafePath (path : Text) : Bool := isAbsolute path || dotDot ∈ components path

/-- One entry of `extract_tarball`: a directory, a file, or something else that is skipped. -/
def extractEntry (dest : List Name) (written : List Text) (entry : Except Text ArchiveEntry) :
    Proc Local RemoteError (List Text) :=
  match entry with
  | .error e => fail (.tarball ("invalid tarball entry: ".toList ++ e))
  | .ok entry =>
    if entry.kind = .other then pure written
    else
      match entry.path with
      | .error e => fail (.tarball ("invalid path in tarball: ".toList ++ e))
      | .ok path =>
        if unsafePath path then fail (.tarball ("unsafe path in tarball: ".toList ++ path))
        else if entry.kind = .dir then do
          mapErr .io (createDirAll dest (components path))
          pure written
        else do
          mapErr .io (createDirAll dest (components path).dropLast)
          mapErr (fun _ => .tarball ("cannot unpack '".toList ++ path ++ "'".toList)) (write dest path entry.content)
          pure (written ++ [joinNames (components path)])

def archiveEntries (gz : Bytes) : Except RemoteError (List (Except Text ArchiveEntry)) :=
  match env.entries gz with
  | .error e => .error (.tarball ("cannot read tarball entries: ".toList ++ e))
  | .ok l => .ok l

def extractTarball (dest : List Name) (gz : Bytes) : Proc Local RemoteError (List Text) := do
  let entries ← ofExcept id (archiveEntries env gz)
  entries.foldlM (extractEntry dest) []

/-- `replace('\\', "/")`. -/
def slashed (s : Text) : Text := s.map (fun c => if c = '\\' then '/' else c)

theorem slashed_of_not_mem {s : Text} (h : '\\' ∉ s) : slashed s = s := by
  have hmap : s.map (fun c => if c = '\\' then '/' else c) = s.map id := by
    refine List.map_congr_left fun c hc => if_neg ?_
    intro he
    exact h (he ▸ hc)
  exact hmap.trans (List.map_id s)

def pathOfEntry (paths : List Text) (entry : Except Text ArchiveEntry) : Except RemoteError (List Text) :=
  match entry with
  | .error e => .error (.tarball ("invalid tarball entry: ".toList ++ e))
  | .ok entry =>
    if entry.kind ≠ .file then .ok paths
    else
      match entry.path with
      | .error e => .error (.tarball ("invalid path in tarball: ".toList ++ e))
      | .ok path => .ok (paths ++ [slashed path])

/-- `tarball_paths`: the files of an archive. -/
def tarballPaths (gz : Bytes) : Except RemoteError (List Text) := do
  let entries ← archiveEntries env gz
  entries.foldlM pathOfEntry []

/-- `remove_stale_local_files`: what the walk finds and the server has not. -/
def removeStaleLocalFiles (serverPaths : List Text) : Proc Local RemoteError (List Text) := do
  let stale ← Proc.read (fun s => ((filesBelow root s.tree).filter (fun q =>
    walked q.1 && joinNames q.1 ∉ serverPaths)).map (fun q => joinNames q.1))
  stale.forM (fun path => mapErr .io (removeFile root path))
  pure stale

/-- The count that the server has declared. -/
def checkCount (expected : Option Nat) (received : Nat) : Except RemoteError PUnit :=
  match expected with
  | some n => if received ≠ n then .error (.partialDownload received n) else .ok ⟨⟩
  | none => .ok ⟨⟩

/-- The server may not say what HEAD is. -/
def writeKnownHead (version : Text) : Proc Local RemoteError PUnit :=
  if version ≠ "unknown".toList then writeHead root version else pure ⟨⟩

def pullForce : Proc Local RemoteError PullOutcome := do
  let head ← attempt (readLocalHead root)
  let localHead := match head with
    | .ok v => v
    | .error _ => []
  let dl ← ofExcept id adapter.downloadFull
  let serverPaths ← ofExcept id (tarballPaths env dl.tarballGz)
  let _ ← ofExcept id (checkCount dl.expectedFileCount serverPaths.length)
  let removed ← removeStaleLocalFiles root serverPaths
  let updated ← extractTarball env root dl.tarballGz
  writeKnownHead root dl.headVersion
  writeVersionMetas env adapter root 0
  pure ⟨localHead, dl.headVersion, updated, removed, [], false, true⟩

/-! ## Sync -/

structure SyncOutcome where
  previousVersion : Text
  newVersion : Text
  filesUpdated : List Text
  filesRemoved : List Text
  alreadyUpToDate : Bool
deriving DecidableEq, Repr

/-- The versions after the local HEAD. -/
def versionsAfter (localHead : Text) (versions : List Text) : Except RemoteError (List Text) :=
  if localHead ∈ versions then .ok (versions.drop (versions.idxOf localHead + 1)) else .error .localVersionNotFound

/-- The changes of one version over those before it; later wins. -/
def collectVersion (changes : FMap Text ChangeKind) (version : Text) : Except RemoteError (FMap Text ChangeKind) := do
  let versionChanges ← adapter.getVersionChanges version
  pure (versionChanges.foldl (fun m fc => m.insert fc.path fc.change) changes)

def collectChanges (versions : List Text) : Except RemoteError (FMap Text ChangeKind) :=
  versions.foldlM (collectVersion adapter) ∅

/-- The paths of one kind, sorted. -/
def pathsWhere (changes : FMap Text ChangeKind) (keep : ChangeKind → Bool) : List Text :=
  ((changes.pairs.filter (fun q => keep q.2)).map Prod.fst).insertionSort (· ≤ ·)

def syncDownload (path : Text) : Proc Local RemoteError PUnit := do
  let content ← ofExcept id (adapter.downloadFile path)
  mapErr .io (install root path content)

def sync : Proc Local RemoteError SyncOutcome := do
  let localHead ← readLocalHead root
  let serverHead ← ofExcept id adapter.getServerHead
  if localHead = serverHead then pure ⟨localHead, localHead, [], [], true⟩
  else
    let allVersions ← ofExcept id adapter.listVersions
    let newVersions ← ofExcept id (versionsAfter localHead allVersions)
    let changes ← ofExcept id (collectChanges adapter newVersions)
    let toDownload := pathsWhere changes (fun k => k ≠ .removed)
    let toRemove := pathsWhere changes (fun k => k = .removed)
    toDownload.forM (syncDownload adapter root)
    toRemove.forM (fun path => mapErr .io (discard root path))
    writeHead root serverHead
    pure ⟨localHead, serverHead, toDownload, toRemove, false⟩

/-! ## Clone -/

inductive CloneError where
  | destExists
  | http (msg : Text)
  | base64 (msg : Text)
  | io (e : FsError)
deriving DecidableEq, Repr

/-- What a server answers to a clone. -/
structure CloneServer where
  repoName : Except CloneError Text
  files : Except CloneError (List Text)
  head : Text
  download : Text → Except CloneError Text

structure CloneResult where
  repoName : Text
  headVersion : Text
  filesDownloaded : Nat
  bytesTransferred : Nat
deriving DecidableEq, Repr

/-- The files `config.toml` and `remote.toml`. -/
structure CloneConfig where
  configToml : Text → Bytes
  remoteToml : Text → Text → Bytes

def cloneFile (server : CloneServer) (total : Nat) (path : Text) : Proc Local CloneError Nat := do
  let b64 ← ofExcept id (server.download path)
  let content ← ofExcept .base64 (env.base64Decode b64)
  mapErr .io (install root path content)
  pure (total + content.length)

def vaiDirs : List (List Name) :=
  [["event_log".toList], ["graph".toList, "entities".toList], ["workspaces".toList], ["versions".toList],
    ["cache".toList, "treesitter".toList]]

/-- The structure of `.vai/`. -/
def writeVai (config : CloneConfig) (repoName head : Text) : Proc Local CloneError PUnit := do
  vaiDirs.forM (fun names => mapErr .io (createDirAll root (vaiDir :: names)))
  mapErr .io (write root ".vai/config.toml".toList (config.configToml repoName))
  mapErr .io (write root headFile (Text.intoBytes (head ++ ['\n'])))
  mapErr .io (write root ".vai/remote.toml".toList (config.remoteToml repoName head))

def clone (config : CloneConfig) (server : CloneServer) : Proc Local CloneError CloneResult := do
  if ← Proc.read (fun s => (s.tree.get root).isSome) then fail .destExists
  else
    let repoName ← ofExcept id server.repoName
    let files ← ofExcept id server.files
    mapErr .io (createDirAll [] root)
    let total ← files.foldlM (cloneFile env root server) 0
    writeVai root config repoName server.head
    pure ⟨repoName, server.head, files.length, total⟩

/-! ## Agent download -/

inductive AgentError where
  | other (msg : Text)
  | partialDownload (downloaded expected : Nat)
  | io (e : FsError)
deriving DecidableEq, Repr

/-- The extractor of the agent is the one of `pull_force` with the agent's errors. -/
def AgentError.ofRemote : RemoteError → AgentError
  | .io e => .io e
  | .tarball msg => .other msg
  | _ => .other []

/-- `extract_tarball_to_dir`: the number of files written. -/
def extractTarballToDir (gz : Bytes) (target : List Name) : Proc Local AgentError Nat :=
  mapErr .ofRemote do
    let written ← extractTarball env target gz
    pure written.length

/-- What an agent's directory and its server give: configuration and state, the archive of each attempt, and the texts
of the two files it writes. -/
structure AgentServer where
  loaded : Tree → Except AgentError PUnit
  fetch : Nat → Except AgentError (Bytes × Option Nat)
  manifestJson : List Text → Bytes
  stateJson : Bytes

structure DownloadResult where
  fileCount : Nat
deriving DecidableEq, Repr

def downloadMaxAttempts : Nat := 3

/-- `if target_dir.exists() { remove_dir_all(target_dir)? }`. -/
def clearTarget (target : List Name) : Proc Local AgentError PUnit := do
  if ← Proc.read (fun s => (s.tree.get target).isSome) then mapErr .io (removeDirAll target) else pure ⟨⟩

/-- One attempt, from an empty directory. -/
def downloadAttempt (server : AgentServer) (target : List Name) (attempt : Nat) :
    Proc Local AgentError (Nat × Option Nat) := do
  clearTarget target
  mapErr .io (createDirAll [] target)
  let (gz, expected) ← ofExcept id (server.fetch attempt)
  let count ← extractTarballToDir env gz target
  pure (count, expected)

/-- `build_file_manifest`. -/
def buildFileManifest (target : List Name) (t : Tree) : List Text :=
  ((filesBelow target t).map (fun q => joinNames q.1)).insertionSort (· ≤ ·)

/-- The manifest and the state, in the agent's own directory. -/
def finishDownload (server : AgentServer) (dir target : List Name) (count : Nat) : Proc Local AgentError DownloadResult := do
  let manifest ← Proc.read (fun s => buildFileManifest target s.tree)
  mapErr (fun _ => .other "cannot write download manifest".toList)
    (write dir ".vai/download-manifest.json".toList (server.manifestJson manifest))
  mapErr (fun _ => .other "cannot write state file".toList) (write dir ".vai/agent-state.json".toList server.stateJson)
  pure ⟨count⟩

/-- The attempts that are left; a count that differs leads to the next one, and the last one cleans up. -/
def downloadAttempts (server : AgentServer) (dir target : List Name) : Nat → Proc Local AgentError DownloadResult
  | 0 => fail (.other "download failed".toList)
  | n + 1 => do
    let (count, expected) ← downloadAttempt env server target (downloadMaxAttempts - n)
    if expected.all (fun e => count = e) then finishDownload server dir target count
    else if n = 0 then do
      let _ ← attempt (mapErr AgentError.io (removeDirAll target))
      fail (.partialDownload count (expected.getD 0))
    else downloadAttempts server dir target n

/-- `agent::download`. -/
def agentDownload (server : AgentServer) (dir target : List Name) : Proc Local AgentError DownloadResult := do
  let loaded ← Proc.read (fun s => server.loaded s.tree)
  ofExcept id loaded
  downloadAttempts env server dir target downloadMaxAttempts

end Remote
end Vai
