import Vai.Session
import Vai.Submit
/-!
# FileWorkspaces — plan, submit and pull for either backend

`file_workspace/mod.rs`: a `FileWorkspace` is opened once, with the workspace's record and the deletions of its two
on-disk sources, and then planned, submitted and pulled.  The server is what it answers (`RemoteRepo`).

`list_files("base/")` walks the repository root; the files below `.vai/`, which it lists too, are left out.  So are the
scope history and the issue that a submit resolves, both best effort once it has gone through.
-/
namespace Vai
namespace FileWorkspace

open Proc

/-! ## Answers and errors -/

structure SnapshotInfo where
  added : Nat
  modified : Nat
  deleted : Nat
  isDelta : Bool
  deriving DecidableEq, Repr

structure Applied where
  version : Text
  files : Nat
  entities : Nat
  entityIds : List Text
  intent : Text
  snapshot : Option SnapshotInfo
  deriving DecidableEq, Repr

/-- `FwError`.  The wrapper variants are flattened into `merge`. -/
inductive FwError where
  | merge (e : MergeError)
  | empty
  | workspaceEmpty
  | surprises (plan : Plan)
  | remote (msg : Text)
  deriving DecidableEq, Repr

/-- The errors of `HttpRemoteRepo`. -/
inductive RemoteFailure where
  | workspaceEmpty
  | remote (msg : Text)
  deriving DecidableEq, Repr

def RemoteFailure.toFwError : RemoteFailure → FwError
  | .workspaceEmpty => .workspaceEmpty
  | .remote msg => .remote msg

/-- The answers of a server to the calls of one verb. -/
structure RemoteRepo where
  listHeadFiles : Except RemoteFailure (List Path)
  headVersion : Except RemoteFailure Text
  uploadWorkspace : Uuid → Text → List Path → Except RemoteFailure SnapshotInfo
  submitWorkspace : Uuid → Except RemoteFailure Applied
  downloadFiles : List Path → Except RemoteFailure (List (Path × Bytes))

inductive BackendKind where
  | onDisk
  | onServer (remote : RemoteRepo)

/-! ## Opening -/

/-- A `FileWorkspace`; one that pushes the working tree has no deletions of its own. -/
structure Opened (φ : Type) where
  wsMeta : WorkspaceMeta
  mergeFs : MergeFs φ
  deletedPaths : List Path
  backend : BackendKind
  isPushFromRoot : Bool
  pushed : isPushFromRoot = true → deletedPaths = []

theorem notPushed (D : List Path) (h : false = true) : D = [] := absurd h Bool.false_ne_true

/-- `if seen.insert(path) { result.push(path) }`. -/
def pushNew (result : List Path) (path : Path) : List Path := if path ∈ result then result else result ++ [path]

section

variable {φ : Type} (env : Env)

/-- A step on the repository, with its error wrapped. -/
def engine {α : Type} (m : Proc (World φ) MergeError α) : Proc (World φ) FwError α := mapErr .merge m

def loadDeletedPaths (wsMeta : WorkspaceMeta) : Proc (World φ) FwError (List Path) := do
  let fromManifest ← engine (onVai env (VaiDir.readManifest wsMeta.id))
  pure ((fromManifest ++ wsMeta.deletedPaths).foldl pushNew [])

/-- `open` with `Intent::Existing`. -/
def openExisting (fsOf : Uuid → MergeFs φ) (backend : BackendKind) : Proc (World φ) FwError (Opened φ) := do
  let _ ← engine (onVai env VaiDir.readHead)
  let wsMeta ← engine (active env)
  let deletedPaths ← loadDeletedPaths env wsMeta
  pure { wsMeta, mergeFs := fsOf wsMeta.id, deletedPaths, backend, isPushFromRoot := false, pushed := fun h => nomatch h }

/-- `open` with `Intent::CreateFor` or `Intent::AgentWork` on a server: the workspace `id` exists there, and only there. -/
def openPush (fsOf : Uuid → MergeFs φ) (remote : RemoteRepo) (id : Uuid) (intent : Text) (status : WorkspaceStatus) :
    Proc (World φ) FwError (Opened φ) := do
  let head ← engine (onVai env VaiDir.readHead)
  pure { wsMeta := { id, intent, baseVersion := head, status, deletedPaths := [] }, mergeFs := fsOf id, deletedPaths := [],
         backend := .onServer remote, isPushFromRoot := true, pushed := fun _ => rfl }

/-! ## Plan -/

/-- `k.strip_prefix(prefix).unwrap_or(&k)`. -/
def stripKey (pre key : Text) : Path := (Text.stripPrefix pre key).getD key

/-- The paths of a listing. -/
def listPaths (fs : MergeFs φ) (pre : Text) : Proc (World φ) FwError (List Path) := do
  let keys ← engine (onFs (io (fs.listFiles pre)))
  pure (keys.map (stripKey pre))

/-- A set of paths in the order in which it is iterated. -/
def pathSet (paths : List Path) : List Path := env.hashOrder paths.dedup

variable (fw : Opened φ)

def headOf : BackendKind → Proc (World φ) FwError Text
  | .onServer remote => ofExcept RemoteFailure.toFwError remote.headVersion
  | .onDisk => engine (onVai env VaiDir.readHead)

def drift (head : Text) : List Surprise :=
  if head ≠ fw.wsMeta.baseVersion then [.baseDrifted fw.wsMeta.baseVersion head] else []

/-- The server files that are not among the local ones: base and overlay, less the deletions. -/
def serverOnly (serverFiles localBase localOverlay : List Path) : List Surprise :=
  let allLocal := (localBase ++ localOverlay).filter (· ∉ fw.deletedPaths)
  ((pathSet env serverFiles).filter (· ∉ allLocal)).map .serverHasFileLocalDoesNot

def unpulled : BackendKind → Proc (World φ) FwError (List Surprise)
  | .onServer remote => do
    let serverFiles ← ofExcept RemoteFailure.toFwError remote.listHeadFiles
    let localBase ← listPaths fw.mergeFs basePrefix
    let localOverlay ← listPaths fw.mergeFs overlayPrefix
    pure (serverOnly env fw serverFiles localBase localOverlay)
  | .onDisk => pure []

def recordLocal (d : WorkspaceDiff) : BackendKind → Proc (World φ) FwError Unit
  | .onServer _ => pure ()
  | .onDisk => engine (Diff.recordEvents env d)

/-- `plan_repo_root_push`: the repository root against the server's files. -/
def planRepoRootPush (remote : RemoteRepo) : Proc (World φ) FwError Plan := do
  let serverHead ← ofExcept RemoteFailure.toFwError remote.headVersion
  let serverFiles ← ofExcept RemoteFailure.toFwError remote.listHeadFiles
  let localFiles ← listPaths fw.mergeFs basePrefix
  let sorted (paths : List Path) := paths.insertionSort (· ≤ ·)
  pure { adds := sorted ((pathSet env localFiles).filter (· ∉ serverFiles))
         mods := sorted ((pathSet env localFiles).filter (· ∈ serverFiles))
         dels := [], fileDiffs := [], entityChanges := []
         surprises := drift fw serverHead ++
           (sorted ((pathSet env serverFiles).filter (· ∉ localFiles))).map .serverHasFileLocalDoesNot
         baseVersion := fw.wsMeta.baseVersion, headVersion := serverHead }

/-- The plan of an overlay workspace. -/
def planOverlay : Proc (World φ) FwError Plan := do
  let d ← engine (onFs (Diff.computeWithFs env fw.mergeFs fw.wsMeta.id fw.wsMeta.baseVersion fw.deletedPaths))
  let headVersion ← headOf env fw.backend
  let missing ← unpulled env fw fw.backend
  recordLocal env d fw.backend
  pure { adds := (d.fileDiffs.filter (fun fd => fd.changeType = .added)).map FileDiff.path
         mods := (d.fileDiffs.filter (fun fd => fd.changeType = .modified)).map FileDiff.path
         dels := fw.deletedPaths, fileDiffs := d.fileDiffs, entityChanges := d.entityChanges
         surprises := drift fw headVersion ++ missing
         baseVersion := fw.wsMeta.baseVersion, headVersion }

def Opened.plan : Proc (World φ) FwError Plan :=
  if fw.isPushFromRoot then
    match fw.backend with
    | .onServer remote => planRepoRootPush env fw remote
    | .onDisk => fail (.merge .panicked)
  else planOverlay env fw

/-! ## Submit -/

def Plan.isEmpty (plan : Plan) : Bool :=
  plan.adds.isEmpty && plan.mods.isEmpty && plan.dels.isEmpty && plan.entityChanges.isEmpty

def applied (r : SubmitResult) : Applied :=
  { version := r.version.versionId, files := r.filesApplied, entities := r.entitiesChanged, entityIds := r.entityIds,
    intent := r.version.intent, snapshot := none }

/-- A push leaves no record on disk. -/
def storeSubmitted : Proc (World φ) FwError Unit :=
  if fw.isPushFromRoot then pure ()
  else engine (onVai env (VaiDir.updateMeta { fw.wsMeta with status := .submitted }))

def submitRemote (remote : RemoteRepo) : Proc (World φ) FwError Applied := do
  let snapshot ← ofExcept RemoteFailure.toFwError (remote.uploadWorkspace fw.wsMeta.id fw.wsMeta.baseVersion fw.deletedPaths)
  let submitted ← ofExcept RemoteFailure.toFwError (remote.submitWorkspace fw.wsMeta.id)
  engine (onVai env (VaiDir.writeHead submitted.version))
  storeSubmitted env fw
  pure { submitted with snapshot := some snapshot }

/-- `do_submit`; locally the merge engine opens the workspace again on its own. -/
def doSubmit (fsOf : Uuid → MergeFs φ) (plan : Plan) : Proc (World φ) FwError Applied :=
  if plan.isEmpty then fail .empty
  else
    match fw.backend with
    | .onDisk => do
      let r ← engine (Merge.submit env fsOf)
      pure (applied r)
    | .onServer remote => submitRemote env fw remote

def Opened.submit (fsOf : Uuid → MergeFs φ) : Proc (World φ) FwError Applied := do
  let plan ← fw.plan env
  if plan.surprises.isEmpty then doSubmit env fw fsOf plan else fail (.surprises plan)

def Opened.submitForcingDeletions (fsOf : Uuid → MergeFs φ) : Proc (World φ) FwError Applied := do
  let plan ← fw.plan env
  doSubmit env fw fsOf plan

/-! ## Pull -/

def nothingPulled (version : Text) : Applied :=
  { version, files := 0, entities := 0, entityIds := [], intent := [], snapshot := none }

def writeBase (q : Path × Bytes) : Proc φ MergeError PUnit := io (fw.mergeFs.writeFile (baseKey q.1) q.2)

/-- `do_pull`, with the record that `self.ws_meta` is then; its flag is not read. -/
def doPull (remote : RemoteRepo) (_force : Bool) : Proc (World φ) FwError (Applied × WorkspaceMeta) := do
  let serverHead ← ofExcept RemoteFailure.toFwError remote.headVersion
  let serverFiles ← ofExcept RemoteFailure.toFwError remote.listHeadFiles
  let localBase ← listPaths fw.mergeFs basePrefix
  let localOverlay ← listPaths fw.mergeFs overlayPrefix
  let missing := serverFiles.filter (· ∉ localBase ++ localOverlay)
  if missing.isEmpty then pure (nothingPulled serverHead, fw.wsMeta)
  else
    let downloaded ← ofExcept RemoteFailure.toFwError (remote.downloadFiles missing)
    engine (onFs (downloaded.forM (writeBase fw)))
    let wsMeta := { fw.wsMeta with baseVersion := serverHead }
    engine (onVai env (VaiDir.updateMeta wsMeta))
    engine (onVai env (VaiDir.writeHead serverHead))
    pure ({ nothingPulled serverHead with files := downloaded.length }, wsMeta)

def pullWith (force : Bool) : Proc (World φ) FwError (Applied × WorkspaceMeta) :=
  match fw.backend with
  | .onDisk => pure (nothingPulled fw.wsMeta.baseVersion, fw.wsMeta)
  | .onServer remote => doPull env fw remote force

def Opened.pull : Proc (World φ) FwError (Applied × WorkspaceMeta) := pullWith env fw false

def Opened.pullDiscardingLocal : Proc (World φ) FwError (Applied × WorkspaceMeta) := pullWith env fw true

end

/-! ## The two deletion sources -/

theorem mem_foldl_pushNew (p : Path) : ∀ (paths result : List Path),
    p ∈ paths.foldl pushNew result ↔ p ∈ result ∨ p ∈ paths
  | [], result => by simp
  | q :: paths, result => by
    rw [List.foldl_cons, mem_foldl_pushNew p paths, List.mem_cons, ← or_assoc]
    refine or_congr_left ?_
    unfold pushNew
    split
    · rename_i hq
      exact ⟨.inl, fun h => h.elim id fun h => h ▸ hq⟩
    · simp

end FileWorkspace
end Vai
