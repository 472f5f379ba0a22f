import Vai.Download
import Vai.Rail
/-!
# Push — a working tree becomes a version

`Session::push` of `remote/mod.rs` with `build_full_tarball`, `files_manifest_handler` of `server/mod.rs`, and the clients
of one server.

A push makes four round trips: it reads the manifest, opens a workspace, uploads the working tree as a full snapshot and
submits.  Each request is served as a whole, and between two of them other clients are served.  `write_push_local_events`
keeps a log below `.vai/` for `vai diff`; nothing here reads it, and it is left out.
-/
namespace Vai
namespace Handlers

open Proc Backend Remote

/-! ## `GET /api/repos/:repo/files/manifest` -/

variable (env : Env) (fails : Fails)

def manifestEntry (entries : List ManifestEntry) (entry : (Text × Bytes) × Nat) :
    Proc Backend ApiError (List ManifestEntry) :=
  match Text.stripPrefix currentPrefix entry.1.1 with
  | none => pure entries
  | some rel =>
    if rel = [] then pure entries
    else do
      let content ← mapErr (fun _ => ApiError.internal) (Backend.get fails entry.2 entry.1.1)
      pure (entries ++ [⟨rel, env.sha256Hex content⟩])

def filesManifestHandler : Proc Backend ApiError ManifestResult := do
  let head ← mapErr (fun _ => ApiError.internal) (readHead fails)
  let entries ← mapErr (fun _ => ApiError.internal) (Backend.list fails 0 currentPrefix)
  let files ← entries.zipIdx.foldlM (manifestEntry env fails) []
  pure ⟨head.getD "v0".toList, files.insertionSort (fun e f => e.path ≤ f.path)⟩

end Handlers

namespace Remote

open Proc Backend FilePath LocalFs Handlers

/-! ## What goes over the wire -/

/-- The writer of archives, the path that their reader gives back for a path, and the texts of an error response. -/
structure Wire where
  tarGz : List (Text × Bytes) → Except FsError Bytes
  entryPath : Text → Text
  statusLine : Nat → Text
  bodyText : ApiError → Text

/-- A file as the reader gives it back. -/
def Wire.entry (wire : Wire) (f : Text × Bytes) : Except Text TarEntry := .ok ⟨.file, .ok (wire.entryPath f.1), .ok f.2⟩

/-- What `tar` and `flate2` do: the files of an archive are read back one by one. -/
def Wire.ReadsBack (wire : Wire) (codecs : Codecs) : Prop :=
  ∀ files gz, wire.tarGz files = .ok gz →
    codecs.untar gz = .ok (files.map wire.entry)

def Wire.serverError (wire : Wire) (e : ApiError) : RemoteError :=
  .server (wire.statusLine e.status ++ ": ".toList ++ wire.bodyText e)

/-- `submit_workspace` of the HTTP adapter has an error of its own for a conflict. -/
def Wire.submitError (wire : Wire) (e : ApiError) : RemoteError :=
  if e.status = 409 then .mergeConflict (wire.bodyText e) else wire.serverError e

variable (env : Env) (fails : Fails) (codecs : Codecs) (client : ClientEnv) (wire : Wire) (root : List Name)

/-! ## The archive -/

/-- The files that `append_dir_to_tar` finds, by the paths it writes. -/
def fullFiles (t : Tree) : List (Text × Bytes) :=
  ((filesBelow root t).filter (fun q => seen q.1)).map (fun q => (slashed (joinNames q.1), q.2))

def buildFullTarball (t : Tree) : Except RemoteError Bytes := (wire.tarGz (fullFiles root t)).mapError .io

/-! ## Push -/

structure PushArgs where
  message : Text
  dryRun : Bool
  force : Bool
deriving DecidableEq, Repr

structure PushOutcome where
  version : Text
  filesAdded : Nat
  filesModified : Nat
  filesDeleted : Nat
  deletedPaths : List Text
  filesApplied : Nat
  dryRun : Bool
deriving DecidableEq, Repr

def serverMap (manifest : ManifestResult) : FMap Text Text :=
  FMap.ofList (manifest.files.map (fun e => (e.path, e.sha256)))

def filesModified (server localMap : FMap Text Text) : Nat :=
  (localMap.pairs.filter (fun q => (server.get q.1).any (fun hash => hash ≠ q.2))).length

def filesAdded (server localMap : FMap Text Text) : Nat :=
  (localMap.pairs.filter (fun q => (server.get q.1).isNone)).length

/-- What the server has and the working tree has not. -/
def deletedPaths (server localMap : FMap Text Text) : List Text :=
  (server.keys.filter (fun p => (localMap.get p).isNone)).insertionSort (· ≤ ·)

/-- What the manifest leads to: an error, the report of a dry run, or a push. -/
def planPush (args : PushArgs) (manifest : ManifestResult) (localMap : FMap Text Text) :
    Except RemoteError (Option PushOutcome) :=
  let modified := filesModified (serverMap manifest) localMap
  let added := filesAdded (serverMap manifest) localMap
  let deleted := deletedPaths (serverMap manifest) localMap
  if modified = 0 ∧ added = 0 ∧ deleted = [] then .error .nothingToPush
  else if !args.force && !args.dryRun && !deleted.isEmpty then .error (.pushWouldDeleteFiles deleted)
  else if args.dryRun then .ok (some ⟨manifest.version, added, modified, deleted.length, deleted, 0, true⟩)
  else .ok none

/-- The first round trip. -/
def readPlan (args : PushArgs) : Proc (Backend × Local) RemoteError (Option PushOutcome) := do
  let manifest ← onFst (mapErr wire.serverError (filesManifestHandler env fails))
  let localMap ← Proc.read (fun s => collectLocalHashes client root s.2.tree)
  ofExcept id (planPush args manifest localMap)

/-- The second. -/
def openWorkspace (args : PushArgs) (newId : Uuid) : Proc (Backend × Local) RemoteError Uuid := do
  let ws ← onFst (mapErr wire.serverError (createWorkspaceHandler fails newId args.message))
  pure ws.id

/-- The third; the archive is made now, and `allow_destructive` is never set. -/
def sendSnapshot (workspaceId : Uuid) : Proc (Backend × Local) RemoteError UploadSnapshotResponse := do
  let archive ← Proc.read (fun s => buildFullTarball wire root s.2.tree)
  let gz ← ofExcept id archive
  onFst (mapErr wire.serverError (uploadSnapshotHandler env fails codecs workspaceId false gz))

/-- `if vai_dir.exists()`. -/
def writePushedHead (version : Text) : Proc Local RemoteError PUnit := do
  if ← Proc.read (fun s => (s.tree.get (root ++ [vaiDir])).isSome) then writeHead root version else pure ⟨⟩

/-- The fourth, and the end. -/
def sendSubmit (newId workspaceId : Uuid) (stats : UploadSnapshotResponse) :
    Proc (Backend × Local) RemoteError PushOutcome := do
  let result ← onFst (mapErr wire.submitError (submitWorkspaceHandler env fails newId workspaceId))
  onSnd (writePushedHead root result.version.versionId)
  pure ⟨result.version.versionId, stats.added, stats.modified, stats.deleted, [], result.filesApplied, false⟩

/-- The rest of a push that has a plan. -/
def pushFiles (args : PushArgs) (newIds : Uuid × Uuid) : Proc (Backend × Local) RemoteError PushOutcome := do
  let workspaceId ← openWorkspace fails wire args newIds.1
  let stats ← sendSnapshot env fails codecs wire root workspaceId
  sendSubmit env fails wire root newIds.2 workspaceId stats

/-- `push`, with nobody else at the server; `newIds` are the ids of the workspace and of an escalation. -/
def push (args : PushArgs) (newIds : Uuid × Uuid) : Proc (Backend × Local) RemoteError PushOutcome := do
  match ← readPlan env fails client wire root args with
  | some outcome => pure outcome
  | none => pushFiles env fails codecs wire root args newIds

/-! ## Many clients -/

/-- Where a push stands: the round trip that comes next, or the end. -/
inductive PushPhase where
  | reading
  | opening
  | uploading (workspaceId : Uuid)
  | submitting (workspaceId : Uuid) (stats : UploadSnapshotResponse)
  | returned (outcome : PushOutcome)
deriving DecidableEq, Repr

/-- The next round trip of a push. -/
def pushStep (args : PushArgs) (newIds : Uuid × Uuid) : PushPhase → Proc (Backend × Local) RemoteError PushPhase
  | .reading => do
    match ← readPlan env fails client wire root args with
    | some outcome => pure (.returned outcome)
    | none => pure .opening
  | .opening => do
    let workspaceId ← openWorkspace fails wire args newIds.1
    pure (.uploading workspaceId)
  | .uploading workspaceId => do
    let stats ← sendSnapshot env fails codecs wire root workspaceId
    pure (.submitting workspaceId stats)
  | .submitting workspaceId stats => do
    let outcome ← sendSubmit env fails wire root newIds.2 workspaceId stats
    pure (.returned outcome)
  | .returned outcome => pure (.returned outcome)

/-- A working tree, and the push that was begun there last: its next step, its outcome or its error. -/
structure Clone where
  root : List Name
  files : Local
  push : Option (PushArgs × Except RemoteError PushPhase)

structure Site where
  server : Backend
  clones : Nat → Clone

def Site.setClone (site : Site) (i : Nat) (clone : Clone) : Site :=
  { site with clones := fun j => if j = i then clone else site.clones j }

inductive Move where
  /-- A push is begun; one that has not returned is given up. -/
  | begins (i : Nat) (args : PushArgs)
  /-- The next round trip of a push. -/
  | proceeds (i : Nat) (newIds : Uuid × Uuid)
  /-- A step of a pull or of a sync, or an edit: the server is at most read, and the files become what they may. -/
  | works (i : Nat) (files : Local)

def play (move : Move) (site : Site) : Site :=
  match move with
  | .begins i args => site.setClone i { site.clones i with push := some (args, .ok .reading) }
  | .works i files => site.setClone i { site.clones i with files := files }
  | .proceeds i newIds =>
    match (site.clones i).push with
    | some (args, .ok phase) =>
      let out := pushStep env fails codecs client wire (site.clones i).root args newIds phase
        (site.server, (site.clones i).files)
      { site with server := out.2.1 }.setClone i { site.clones i with files := out.2.2, push := some (args, out.1) }
    | _ => site

/-- One entry of a run: the move, and the state it was made in. -/
structure Turn where
  move : Move
  before : Site

/-- The runs from `site₀`, in any order of moves. -/
inductive Played (site₀ : Site) : List Turn → Site → Prop where
  | start : Played site₀ [] site₀
  | move {l : List Turn} {site : Site} (h : Played site₀ l site) (m : Move) :
      Played site₀ (l ++ [⟨m, site⟩]) (play env fails codecs client wire m site)

/-! ## What the server reads of an archive -/

/-- The path that a file of an archive gets on the server. -/
def Wire.serverPath (wire : Wire) (path : Text) : Option Path :=
  (sanitizePath (trimDotSlash (wire.entryPath path))).map slashes

/-- A file of an archive as the server takes it. -/
def Wire.serverFile (wire : Wire) (f : Text × Bytes) : Option (Path × Bytes) :=
  match wire.serverPath f.1 with
  | none => none
  | some p => if p = [] then none else some (p, f.2)

/-- The files of a working tree by the paths they get on the server. -/
def archive (t : Tree) : FMap Path Bytes := FMap.ofList ((fullFiles root t).filterMap wire.serverFile)

/-- Those that the server keeps. -/
def snapshotFiles (t : Tree) : FMap Path Bytes :=
  FMap.filter (archive wire root t) (fun path _ => !isSnapshotPathIgnored path && path != manifestPath)

/-- The upload of the working tree deletes the path: `current/` has it and the snapshot has not, or a `.vai-delta.json` of
the working tree lists it. -/
def deletes (t : Tree) (b : Backend) (p : Path) : Bool :=
  p ≠ [] && match (archive wire root t).get manifestPath with
    | none => (b.current p).isSome && ((snapshotFiles wire root t).get p).isNone
    | some bytes =>
      match codecs.fromSlice bytes with
      | .ok manifest => p ∈ manifest.deletedPaths
      | .error _ => false

variable {env fails codecs client wire root}

/-- A file of an archive goes to its path, unless that is empty. -/
theorem extractEntry_file {m m' : FMap Path Bytes} {path : Text} {c : Bytes}
    (h : Handlers.extractEntry m (.ok ⟨.file, .ok path, .ok c⟩) = .ok m') : ∃ rel,
      sanitizePath (trimDotSlash path) = some rel ∧ m' = if slashes rel = [] then m else m.insert (slashes rel) c := by
  unfold Handlers.extractEntry at h
  dsimp only at h
  rw [if_neg (by decide), if_neg (by decide)] at h
  cases hrel : sanitizePath (trimDotSlash path) with
  | none =>
    rw [hrel] at h
    cases h
  | some rel =>
    rw [hrel] at h
    dsimp only at h
    refine ⟨rel, rfl, ?_⟩
    split at h
    · rename_i hnil
      rw [if_pos hnil]
      exact (Except.ok.inj h).symm
    · rename_i hne
      rw [if_neg hne]
      split at h
      · cases h
      · exact (Except.ok.inj h).symm

theorem extractEntries_archive : ∀ (files : List (Text × Bytes)) {m raw : FMap Path Bytes},
    (files.map wire.entry).foldlM Handlers.extractEntry m = .ok raw →
      raw = (files.filterMap wire.serverFile).foldl (fun m q => m.insert q.1 q.2) m
  | [], m, raw, h => (Except.ok.inj h).symm
  | f :: files, m, raw, h => by
    rw [List.map_cons, List.foldlM_cons] at h
    cases hm : Handlers.extractEntry m (wire.entry f) with
    | error e =>
      rw [hm] at h
      cases h
    | ok m' =>
      rw [hm] at h
      obtain ⟨rel, hrel, rfl⟩ := extractEntry_file hm
      rw [extractEntries_archive files h, List.filterMap_cons]
      have hfile : wire.serverFile f = if slashes rel = [] then none else some (slashes rel, f.2) := by
        unfold Wire.serverFile Wire.serverPath
        rw [hrel]
        rfl
      rw [hfile]
      split
      · rfl
      · rfl

/-- The files of an archive by the paths they get on the server. -/
def Wire.serverFiles (wire : Wire) (files : List (Text × Bytes)) : FMap Path Bytes :=
  FMap.ofList (files.filterMap wire.serverFile)

/-- The files that the server keeps. -/
def keptFiles (files : FMap Path Bytes) : FMap Path Bytes :=
  FMap.filter files (fun path _ => !isSnapshotPathIgnored path && path != manifestPath)

/-- What the server reads of an archive: its files by their paths, and the delta manifest when there is one. -/
theorem readSnapshot_files (hwire : wire.ReadsBack codecs) {files : List (Text × Bytes)} {gz : Bytes} {snapshot : Snapshot}
    (htar : wire.tarGz files = .ok gz) (hread : readSnapshot codecs gz = .ok snapshot) :
    snapshot.files = keptFiles (wire.serverFiles files) ∧
      match (wire.serverFiles files).get manifestPath with
      | none => snapshot.manifest = none
      | some bytes => ∃ manifest, codecs.fromSlice bytes = .ok manifest ∧ snapshot.manifest = some manifest := by
  unfold readSnapshot extractSnapshotTarball at hread
  rw [hwire _ _ htar] at hread
  dsimp only at hread
  cases hraw : (files.map wire.entry).foldlM Handlers.extractEntry ∅ with
  | error e =>
    rw [hraw] at hread
    cases hread
  | ok raw =>
    rw [hraw] at hread
    obtain rfl : raw = wire.serverFiles files := extractEntries_archive _ hraw
    dsimp only at hread
    cases hman : (wire.serverFiles files).get manifestPath with
    | none =>
      rw [hman] at hread
      cases hread
      exact ⟨rfl, rfl⟩
    | some bytes =>
      rw [hman] at hread
      dsimp only at hread
      split at hread
      · rename_i manifest hslice
        cases hread
        exact ⟨rfl, manifest, hslice, rfl⟩
      · cases hread

theorem tarGz_of_buildFullTarball {t : Tree} {gz : Bytes} (h : buildFullTarball wire root t = .ok gz) :
    wire.tarGz (fullFiles root t) = .ok gz := by
  unfold buildFullTarball at h
  cases htar : wire.tarGz (fullFiles root t) with
  | error e => rw [htar] at h; cases h
  | ok gz' => rw [htar] at h; cases h; rfl

/-- **What the server reads of a working tree**: its files by their paths, and the delta manifest when there is one. -/
theorem readSnapshot_archive (hwire : wire.ReadsBack codecs) {t : Tree} {gz : Bytes} {snapshot : Snapshot}
    (hgz : buildFullTarball wire root t = .ok gz) (hread : readSnapshot codecs gz = .ok snapshot) :
    snapshot.files = snapshotFiles wire root t ∧
      match (archive wire root t).get manifestPath with
      | none => snapshot.manifest = none
      | some bytes => ∃ manifest, codecs.fromSlice bytes = .ok manifest ∧ snapshot.manifest = some manifest :=
  readSnapshot_files hwire (tarGz_of_buildFullTarball hgz) hread

theorem mem_deletions (hwire : wire.ReadsBack codecs) {t : Tree} {gz : Bytes} {snapshot : Snapshot} {b : Backend}
    {p : Path} (hgz : buildFullTarball wire root t = .ok gz) (hread : readSnapshot codecs gz = .ok snapshot) :
    p ∈ snapshotDeletions env (currentHashes env b) snapshot ↔ deletes codecs wire root t b p = true := by
  obtain ⟨hfiles, hman⟩ := readSnapshot_archive hwire hgz hread
  unfold snapshotDeletions deletes
  cases harch : (archive wire root t).get manifestPath with
  | none =>
    rw [harch] at hman
    dsimp only at hman
    rw [hman, hfiles]
    dsimp only
    rw [List.mem_filter, Env.mem_hashOrder, FMap.mem_keys, get_currentHashes]
    by_cases hp : p = []
    · simp [hp]
    · simp [hp]
  | some bytes =>
    rw [harch] at hman
    obtain ⟨manifest, hslice, hman⟩ := hman
    rw [hman]
    dsimp only
    rw [hslice, List.mem_filter]
    simp [and_comm]

/-! ## The round trips -/

theorem openWorkspace_opened (args : PushArgs) (newId : Uuid) (s : Backend × Local) :
    Ends (openWorkspace Fails.none wire args newId) s (fun ws s' => ws = newId ∧ s.1.workspaces.get newId = none ∧
      s' = (recorded (.workspaceCreated newId args.message (opened newId args.message s.1).baseVersion)
        (withRow newId (opened newId args.message s.1) s.1), s.2)) (fun _ _ => True) := by
  refine ends_bind (ends_onFst (ends_mapErr ((createWorkspaceHandler_ends newId args.message s.1).mono ?_ fun _ _ _ =>
    trivial)))
  rintro ws b ⟨hnone, rfl, rfl⟩
  exact ends_pure ⟨rfl, hnone, rfl⟩

theorem row_opened (newId : Uuid) (message : Text) (b : Backend) (kind : EventKind) :
    (recorded kind (withRow newId (opened newId message b) b)).row newId = some (opened newId message b) := by
  show (withRow newId (opened newId message b) b).row newId = _
  rw [row_withRow, if_pos rfl]
  rfl

theorem sendSnapshot_taken (hwire : wire.ReadsBack codecs) {ws : Uuid} {m : WorkspaceMeta} {s : Backend × Local}
    (hrow : s.1.row ws = some m) : Ends (sendSnapshot env Fails.none codecs wire root ws) s
      (fun _ s' => ∃ snapshot, snapshot.files = snapshotFiles wire root s.2.tree ∧ SnapshotTaken env snapshot ws m s.1 s'.1 ∧
        ∀ p, p ∈ snapshotDeletions env (currentHashes env s.1) snapshot ↔ deletes codecs wire root s.2.tree s.1 p = true)
      (fun _ _ => True) := by
  refine ends_bind (ends_read (ends_bind (ends_ofExcept (fun gz hgz => ?_) fun _ _ => trivial)))
  refine ends_onFst (ends_mapErr ((snapshot_taken false gz hrow).mono ?_ fun _ _ _ => trivial))
  rintro _ b' ⟨snapshot, hread, h⟩
  exact ⟨snapshot, (readSnapshot_archive hwire hgz hread).1, h, fun p => mem_deletions hwire hgz hread⟩

theorem sendSubmit_submitted (newId ws : Uuid) (stats : UploadSnapshotResponse) (s : Backend × Local) :
    Ends (sendSubmit env Fails.none wire root newId ws stats) s
      (fun _ s' => ∃ r, Submitted env Fails.none ws s.1 r s'.1) (fun _ _ => True) := by
  refine ends_bind (ends_onFst (ends_mapErr ((submitWorkspaceHandler_ends env Fails.none newId ws s.1).mono
    (fun r b' h => ?_) fun _ _ _ => trivial)))
  refine ends_bind (ends_onSnd ((ends_somehow _ _).mono (fun _ f _ => ?_) fun _ _ _ => trivial))
  exact ends_pure ⟨r, h⟩

end Remote
end Vai
