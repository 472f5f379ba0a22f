import Vai.MergeFs
/-!
# S3 — the server's file system of the merge engine

`S3MergeFs` of `merge_fs.rs` over a `FileStore`: reads are cached, writes and deletions are buffered until `flush`.

The store is a finite map from paths to bytes that nobody else changes.  Every call on it is numbered, and fails where
`Faults` says so, without effect; what `S3MergeFs` makes of a failure is its own: a failed `get` becomes `NotFound`, a
failed `list` an empty listing, a failed `delete` nothing at all.
-/
namespace Vai

open Proc

/-! ## The file store -/

inductive StoreOp where
  | list (pre : Text)
  | get (path : Text)
  | contains (path : Text)
  | put (path : Text)
  | delete (path : Text)
  deriving DecidableEq, Repr

/-- Which calls on the store fail, by their number and what they ask for. -/
abbrev Faults := Nat → StoreOp → Bool

def noFaults : Faults := fun _ _ => false

structure S3 where
  store : FMap Text Bytes
  calls : Nat
  readCache : FMap Text Bytes
  pendingWrites : FMap Text Bytes
  pendingDeletes : List Text

def versionsPrefix : Text := "versions/".toList
def snapshotDir : Text := "/snapshot/".toList

/-- The key prefixes of one `S3MergeFs`; no two of the three directories overlap. -/
structure S3Config where
  overlayPrefix : Text
  basePrefix : Text
  overlay_base : ¬ overlayPrefix <+: basePrefix ∧ ¬ basePrefix <+: overlayPrefix
  overlay_version : ¬ overlayPrefix <+: versionsPrefix ∧ ¬ versionsPrefix <+: overlayPrefix
  base_version : ¬ basePrefix <+: versionsPrefix ∧ ¬ versionsPrefix <+: basePrefix

namespace S3Config

/-- `s3_prefix`: where a listed directory lies in the store. -/
def rootPrefix (cfg : S3Config) : Root → Text
  | .overlay => cfg.overlayPrefix
  | .base => cfg.basePrefix
  | .snapshot ver => versionsPrefix ++ (ver ++ snapshotDir)

/-- `s3_path`. -/
def path (cfg : S3Config) : Place → Text
  | .overlay p => cfg.overlayPrefix ++ p
  | .base p => cfg.basePrefix ++ p
  | .snapshot ver p => versionsPrefix ++ (ver ++ (snapshotDir ++ p))

end S3Config

namespace S3

/-- `S3MergeFs::new` over a store. -/
def new (store : FMap Text Bytes) : S3 := { store, calls := 0, readCache := ∅, pendingWrites := ∅, pendingDeletes := [] }

variable (fails : Faults)

/-- A call on the store. -/
def call (op : StoreOp) : Proc S3 IoError Unit := fun s =>
  (if fails s.calls op then .error ⟨.other, "storage error".toList⟩ else .ok (), { s with calls := s.calls + 1 })

def storeGet (path : Text) : Proc S3 IoError Bytes := do
  call fails (.get path)
  match ← Proc.read (fun s => s.store.get path) with
  | some c => pure c
  | none => fail ⟨.notFound, path⟩

def storeList (pre : Text) : Proc S3 IoError (List Text) := do
  call fails (.list pre)
  Proc.read (fun s => s.store.keys.filter (fun path => pre.isPrefixOf path))

def storePut (q : Text × Bytes) : Proc S3 IoError PUnit := do
  call fails (.put q.1)
  Proc.modify (fun s => { s with store := s.store.insert q.1 q.2 })

def storeDelete (path : Text) : Proc S3 IoError PUnit := do
  call fails (.delete path)
  Proc.modify (fun s => { s with store := s.store.erase path })

def storeContains (path : Text) : Proc S3 IoError Bool := do
  call fails (.contains path)
  Proc.read (fun s => (s.store.get path).isSome)

/-! ## The five calls -/

variable (cfg : S3Config)

/-- `s3_path` of a key. -/
def s3Path (key : Text) : Proc S3 IoError Text := do
  let pl ← ofExcept id (resolveKey key)
  pure (cfg.path pl)

def readFile (key : Text) : Proc S3 IoError Bytes := do
  let path ← s3Path cfg key
  match ← Proc.read (fun s => s.pendingWrites.get path) with
  | some content => pure content
  | none =>
    if ← Proc.read (fun s => decide (path ∈ s.pendingDeletes)) then fail ⟨.notFound, "deleted: ".toList ++ path⟩
    else
      match ← Proc.read (fun s => s.readCache.get path) with
      | some content => pure content
      | none =>
        let content ← mapErr (fun e => (⟨.notFound, e.msg⟩ : IoError)) (storeGet fails path)
        Proc.modify (fun s => { s with readCache := s.readCache.insert path content })
        pure content

def writeFile (key : Text) (content : Bytes) : Proc S3 IoError Unit := do
  let path ← s3Path cfg key
  Proc.modify (fun s => { s with
    pendingDeletes := s.pendingDeletes.filter (fun q => q ≠ path)
    pendingWrites := s.pendingWrites.insert path content })

/-- One path of the listing: skipped when it is to be deleted, and each key taken once. -/
def pushKey (deletes : List Text) (s3Prefix mergePrefix : Text) (keys : List Text) (path : Text) : List Text :=
  if path ∈ deletes then keys
  else
    match Text.stripPrefix s3Prefix path with
    | some rel => if mergePrefix ++ rel ∈ keys then keys else keys ++ [mergePrefix ++ rel]
    | none => keys

/-- `unwrap_or_default`. -/
def unwrapOrDefault : Except IoError (List Text) → List Text
  | .ok l => l
  | .error _ => []

/-- `list_files`: the store's listing (nothing when that call fails), then the pending writes. -/
def listFiles (pre : Text) : Proc S3 IoError (List Text) := do
  let root ← ofExcept id (resolvePrefix "snapshot prefix must include a version id".toList pre)
  let s3Prefix := cfg.rootPrefix root
  let files := unwrapOrDefault (← attempt (storeList fails s3Prefix))
  let writes ← Proc.read (fun s => s.pendingWrites.keys.filter (fun path => s3Prefix.isPrefixOf path))
  let deletes ← Proc.read (fun s => s.pendingDeletes)
  let keys := writes.foldl (pushKey deletes s3Prefix root.keyPrefix)
    (files.foldl (pushKey deletes s3Prefix root.keyPrefix) [])
  pure (keys.insertionSort (· ≤ ·))

def fileExists (key : Text) : Proc S3 IoError Bool := do
  let path ← s3Path cfg key
  if ← Proc.read (fun s => (s.pendingWrites.get path).isSome) then pure true
  else if ← Proc.read (fun s => decide (path ∈ s.pendingDeletes)) then pure false
  else if ← Proc.read (fun s => (s.readCache.get path).isSome) then pure true
  else mapErr (fun e => (⟨.other, e.msg⟩ : IoError)) (storeContains fails path)

def deleteFile (key : Text) : Proc S3 IoError Unit := do
  let path ← s3Path cfg key
  Proc.modify (fun s => { s with
    pendingWrites := s.pendingWrites.erase path
    readCache := s.readCache.erase path
    pendingDeletes := if path ∈ s.pendingDeletes then s.pendingDeletes else s.pendingDeletes ++ [path] })

end S3

def s3MergeFs (fails : Faults) (cfg : S3Config) : MergeFs S3 where
  readFile := S3.readFile fails cfg
  writeFile := S3.writeFile cfg
  listFiles := S3.listFiles fails cfg
  fileExists := S3.fileExists fails cfg
  deleteFile := S3.deleteFile cfg

namespace S3

/-! ## Flush -/

/-- The pending writes in the order the hash map gives them. -/
def writeList (env : Env) (writes : FMap Text Bytes) : List (Text × Bytes) :=
  (env.hashOrder writes.keys).filterMap (fun path => (writes.get path).map (fun c => (path, c)))

/-- `flush`: both buffers are taken before the first call on the store. -/
def flush (env : Env) (fails : Faults) : Proc S3 IoError Unit := do
  let writes ← Proc.read (fun s => s.pendingWrites)
  let deletes ← Proc.read (fun s => s.pendingDeletes)
  Proc.modify (fun s => { s with pendingWrites := ∅, pendingDeletes := [] })
  (writeList env writes).forM (fun q => mapErr (fun e => (⟨.other, e.msg⟩ : IoError)) (storePut fails q))
  deletes.forM (fun path => do
    let _ ← attempt (storeDelete fails path))

end S3
end Vai
