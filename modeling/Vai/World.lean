import Vai.Graph
import Vai.MergeFs
/-!
# World — a repository as the engine sees it

`VaiDir` is the metadata under `.vai/`: HEAD, the version records, the workspaces with their active pointer and
deletion manifests, the event log, the conflict records and the semantic graph.  The procedures on it are those of
`repo.rs`, `version/mod.rs`, `workspace/mod.rs` and `event_log/mod.rs` that the engine calls.

A `World` puts a file system beside it.  Each call of one of these procedures is one operation on `.vai/` (`onVai`),
which fails, without effect, where `Env.metaFault` says so.
-/
namespace Vai

open Proc

structure VaiDir where
  head : Text
  versions : FMap Text VersionMeta
  workspaces : FMap Uuid WorkspaceMeta
  active : Option Uuid
  deleted : FMap Uuid (List Path)
  log : List Event
  conflicts : FMap Uuid ConflictRecord
  graph : GraphSnapshot

/-! ## Versions

The numbers are those below 2^64; the `u64` parse of the source takes a larger one for 0. -/

/-- `version::parse_version_number`. -/
def parseVersionNumber (id : Text) : Nat := ((Text.stripPrefix ['v'] id).bind Text.parseNat).getD 0

/-- `merge::parse_version_num`. -/
def parseVersionNum (version : Text) : Nat := (Text.parseNat (Text.trimStartMatches 'v' version)).getD 0

@[simp] theorem parseVersionNumber_versionName (n : Nat) : parseVersionNumber (versionName n) = n := by
  unfold parseVersionNumber versionName
  rw [show 'v' :: Text.ofNat n = ['v'] ++ Text.ofNat n from rfl, Text.stripPrefix_append]
  simp

@[simp] theorem parseVersionNum_versionName (n : Nat) : parseVersionNum (versionName n) = n := by
  have h : Text.trimStartMatches 'v' (versionName n) = Text.ofNat n := by
    unfold Text.trimStartMatches versionName
    rw [List.dropWhile_cons_of_pos (by decide)]
    cases hd : Text.ofNat n with
    | nil => rfl
    | cons c t =>
      have hc : c ≠ 'v' := fun hc => Text.not_mem_ofNat (c := 'v') (by decide) n (by rw [hd, hc]; simp)
      simp [hc]
  unfold parseVersionNum
  rw [h]
  simp

namespace VaiDir

variable {ε : Type}

/-- `version::list_versions`, sorted by version number. -/
def listVersions (v : VaiDir) : List VersionMeta :=
  (v.versions.pairs.map Prod.snd).insertionSort (fun a b => parseVersionNumber a.versionId ≤ parseVersionNumber b.versionId)

/-- The highest version number, `0` when there is no version. -/
def maxVersion (v : VaiDir) : Nat := (v.listVersions.map (fun m => parseVersionNumber m.versionId)).foldl max 0

/-- `version::next_version_id`. -/
def nextVersionId (v : VaiDir) : Text := versionName (v.maxVersion + 1)

def readHead : Proc VaiDir MergeError Text := Proc.read VaiDir.head
def writeHead (id : Text) : Proc VaiDir MergeError Unit := Proc.modify (fun v => { v with head := id })

/-- `version::create_version`. -/
def createVersion (versionId : Text) (parent : Option Text) (intent createdBy : Text) (mergeEventId : Option Nat) :
    Proc VaiDir MergeError VersionMeta := fun v =>
  let m : VersionMeta := { versionId, parentVersionId := parent, intent, createdBy, mergeEventId }
  (.ok m, { v with versions := v.versions.insert versionId m })

/-- `version::get_version`. -/
def getVersion (versionId : Text) : Proc VaiDir MergeError VersionMeta := fun v =>
  match v.versions.get versionId with
  | some m => (.ok m, v)
  | none => (.error (.versionNotFound versionId), v)

/-! ## Workspaces -/

/-- `workspace::read_active`. -/
def readActive : Proc VaiDir MergeError Uuid := fun v =>
  match v.active with
  | some id => (.ok id, v)
  | none => (.error .noActiveWorkspace, v)

/-- `workspace::get`. -/
def getWorkspace (id : Uuid) : Proc VaiDir MergeError WorkspaceMeta := fun v =>
  match v.workspaces.get id with
  | some m => (.ok m, v)
  | none => (.error (.workspaceNotFound id), v)

/-- `workspace::update_meta`, an error when the workspace has no directory. -/
def updateMeta (m : WorkspaceMeta) : Proc VaiDir MergeError Unit := fun v =>
  match v.workspaces.get m.id with
  | some _ => (.ok (), { v with workspaces := v.workspaces.insert m.id m })
  | none => (.error (.io ⟨.notFound, "meta.toml".toList⟩), v)

def setActive (id : Uuid) : Proc VaiDir MergeError Unit := Proc.modify (fun v => { v with active := some id })
def removeActive : Proc VaiDir MergeError Unit := Proc.modify (fun v => { v with active := none })

/-- The `.vai-deleted` manifest of a workspace, empty when there is none or it does not parse. -/
def readManifest (id : Uuid) : Proc VaiDir MergeError (List Path) := Proc.read (fun v => (v.deleted.get id).getD [])

/-! ## Event log -/

def nextEventId (log : List Event) : Nat := (log.map Event.id).foldl max 0 + 1

/-- `EventLog::append`. -/
def append (kind : EventKind) : Proc VaiDir MergeError Event := fun v =>
  let e : Event := { id := nextEventId v.log, kind }
  (.ok e, { v with log := v.log ++ [e] })

/-- The log after one more event. -/
def pushEvent (log : List Event) (kind : EventKind) : List Event := log ++ [{ id := nextEventId log, kind }]

/-- The directory after the events `ks`. -/
def logged (v : VaiDir) (ks : List EventKind) : VaiDir := { v with log := ks.foldl pushEvent v.log }

/-- `EventLog::get_by_id`. -/
def getById (v : VaiDir) (id : Nat) : Option Event := v.log.find? (fun e => e.id = id)

/-- `EventLog::query_by_workspace`. -/
def queryByWorkspace (v : VaiDir) (w : Uuid) : List Event := v.log.filter (fun e => e.kind.workspaceId = some w)

/-! ## Conflicts and graph -/

def storeConflict (c : ConflictRecord) : Proc VaiDir MergeError Unit :=
  Proc.modify (fun v => { v with conflicts := v.conflicts.insert c.conflictId c })

/-- `GraphSnapshot::update_file` on the repository's graph. -/
def updateFile (env : Env) (p : Path) (source : Bytes) : Proc VaiDir MergeError Unit := fun v =>
  match v.graph.updateFile env p source with
  | (.ok (), g) => (.ok (), { v with graph := g })
  | (.error e, g) => (.error (.graph e), { v with graph := g })

end VaiDir

/-! ## Worlds -/

structure World (φ : Type) where
  fs : φ
  vai : VaiDir
  ops : Nat

variable {φ α : Type}

/-- A call on the file system. -/
def onFs (m : Proc φ MergeError α) : Proc (World φ) MergeError α := fun w =>
  ((m w.fs).1, { w with fs := (m w.fs).2 })

def ioFault : MergeError := .io ⟨.other, "I/O error".toList⟩

/-- One operation on `.vai/`. -/
def onVai (env : Env) (m : Proc VaiDir MergeError α) : Proc (World φ) MergeError α := fun w =>
  if env.metaFault w.ops then (.error ioFault, { w with ops := w.ops + 1 })
  else ((m w.vai).1, { w with vai := (m w.vai).2, ops := w.ops + 1 })

theorem ends_onFs {m : Proc φ MergeError α} {w : World φ} {Q : α → φ → Prop} {E : MergeError → φ → Prop}
    (h : Ends m w.fs Q E) : Ends (onFs m) w (fun a w' => w'.vai = w.vai ∧ Q a w'.fs)
      (fun e w' => w'.vai = w.vai ∧ E e w'.fs) := by
  unfold Ends onFs at *
  rcases hm : m w.fs with ⟨_ | _, _⟩ <;> rw [hm] at h <;> exact ⟨rfl, h⟩

theorem ends_onVai {env : Env} {m : Proc VaiDir MergeError α} {w : World φ} {Q : α → VaiDir → Prop}
    {E : MergeError → VaiDir → Prop} (h : Ends m w.vai Q E) (hf : env.Faulty → ∀ e, E e w.vai) :
    Ends (onVai env m) w (fun a w' => w'.fs = w.fs ∧ Q a w'.vai) (fun e w' => w'.fs = w.fs ∧ E e w'.vai) := by
  unfold Ends onVai at *
  by_cases hi : env.metaFault w.ops
  · simp only [hi, if_true]
    exact ⟨trivial, hf ⟨w.ops, hi⟩ _⟩
  · simp only [hi]
    rcases hm : m w.vai with ⟨_ | _, _⟩ <;> rw [hm] at h <;> exact ⟨rfl, h⟩

/-- An operation that has nothing to complain about fails only by a fault. -/
theorem ends_onVai_of_ok {env : Env} {m : Proc VaiDir MergeError α} {w : World φ} {a : α} {v : VaiDir}
    (h : m w.vai = (.ok a, v)) :
    Ends (onVai env m) w (fun a' w' => w'.fs = w.fs ∧ a' = a ∧ w'.vai = v) (fun _ _ => env.Faulty) := by
  refine (ends_onVai (Q := fun a' v' => a' = a ∧ v' = v) (E := fun _ _ => env.Faulty)
    (ends_iff.2 ⟨fun a' v' hm => ?_, fun e v' hm => ?_⟩) (fun hf _ => hf)).mono (fun _ _ h => h) (fun _ _ h => h.2)
  · rw [h] at hm
    cases hm
    exact ⟨rfl, rfl⟩
  · rw [h] at hm
    cases hm

theorem onVai_ok {env : Env} {m : Proc VaiDir MergeError α} {w w' : World φ} {a : α} (h : onVai env m w = (.ok a, w')) :
    m w.vai = (.ok a, w'.vai) ∧ w'.fs = w.fs := by
  unfold onVai at h
  split at h
  · cases h
  · have h1 : (m w.vai).1 = .ok a := congrArg Prod.fst h
    have h2 : _ = w' := congrArg Prod.snd h
    rw [← h2]
    exact ⟨Prod.ext h1 rfl, rfl⟩

theorem keeps_onFs {I : World φ → Prop} {m : Proc φ MergeError α}
    (h : ∀ w, I w → I { w with fs := (m w.fs).2 }) : Keeps I (onFs m) := h

theorem keeps_onVai {env : Env} {I : World φ → Prop} {m : Proc VaiDir MergeError α}
    (ht : ∀ w, I w → I { w with ops := w.ops + 1 }) (h : ∀ w, I w → I { w with vai := (m w.vai).2 }) :
    Keeps I (onVai env m) := by
  intro w hw
  unfold onVai
  split
  · exact ht w hw
  · exact ht _ (h w hw)

theorem failsOnly_onFs {P : MergeError → Prop} {m : Proc φ MergeError α} (h : FailsOnly P m) : FailsOnly P (onFs m) := by
  intro w e w' he
  have h1 : (m w.fs).1 = .error e := congrArg Prod.fst he
  exact h w.fs e _ (Prod.ext h1 rfl)

theorem failsOnly_onVai {env : Env} {P : MergeError → Prop} {m : Proc VaiDir MergeError α} (hf : P ioFault)
    (h : FailsOnly P m) : FailsOnly P (onVai env m : Proc (World φ) MergeError α) := by
  intro w e w' he
  unfold onVai at he
  split at he
  · cases he
    exact hf
  · have h1 : (m w.vai).1 = .error e := congrArg Prod.fst he
    exact h w.vai e _ (Prod.ext h1 rfl)

/-! ## The workspace calls -/

/-- `m` is the active workspace. -/
structure VaiDir.IsActive (v : VaiDir) (m : WorkspaceMeta) : Prop where
  active : v.active = some m.id
  record : v.workspaces.get m.id = some m

section

variable (env : Env)

def active : Proc (World φ) MergeError WorkspaceMeta := do
  let id ← onVai env VaiDir.readActive
  onVai env (VaiDir.getWorkspace id)

/-- `workspace::switch`. -/
def switchTo (id : Uuid) : Proc (World φ) MergeError WorkspaceMeta := do
  let m ← onVai env (VaiDir.getWorkspace id)
  if m.status = .discarded ∨ m.status = .merged then fail (.workspaceNotFound id)
  else
    onVai env (VaiDir.setActive id)
    pure m

/-- `workspace::create_with_id`. -/
def createWithId (intent baseVersion : Text) (id : Uuid) : Proc (World φ) MergeError WorkspaceMeta := do
  let m : WorkspaceMeta := { id, intent, baseVersion, status := .created, deletedPaths := [] }
  onVai env (Proc.modify (fun v => { v with workspaces := v.workspaces.insert id m }))
  onVai env (pure ())
  let _ ← onVai env (VaiDir.append (.workspaceCreated id intent baseVersion))
  onVai env (VaiDir.setActive id)
  pure m

end

section

variable {env : Env} {w : World φ} {m : WorkspaceMeta}

/-- A switch that returned has made the workspace the active one; a merged workspace cannot be switched to. -/
theorem switchTo_ok {id : Uuid} {w' : World φ} (h : switchTo env id w = (.ok m, w')) :
    w.vai.workspaces.get id = some m ∧ m.status ≠ .merged ∧ w'.fs = w.fs ∧
      w'.vai = { w.vai with active := some id } := by
  unfold switchTo at h
  obtain ⟨m', w₁, hget, h⟩ := bind_eq_ok.1 h
  obtain ⟨hget, hf₁⟩ := onVai_ok hget
  split at h
  · cases h
  rename_i hst
  obtain ⟨_, w₂, hset, h⟩ := bind_eq_ok.1 h
  obtain ⟨hset, hf₂⟩ := onVai_ok hset
  cases h
  have hv₂ : w'.vai = { w₁.vai with active := some id } := (congrArg Prod.snd hset).symm
  unfold VaiDir.getWorkspace at hget
  split at hget
  · rename_i hm
    have hv₁ : w.vai = w₁.vai := congrArg Prod.snd hget
    have hm' : _ = m := Except.ok.inj (congrArg Prod.fst hget)
    exact ⟨by rw [hm, hm'], fun hmerged => hst (.inr hmerged), hf₂.trans hf₁, by rw [hv₂, hv₁]⟩
  · cases hget

/-- The directory after the workspace `m` was created. -/
def VaiDir.withCreated (v : VaiDir) (m : WorkspaceMeta) : VaiDir :=
  { v.logged [.workspaceCreated m.id m.intent m.baseVersion] with
    workspaces := v.workspaces.insert m.id m
    active := some m.id }

theorem createWithId_spec (w : World φ) (intent baseVersion : Text) (id : Uuid) :
    Ends (createWithId env intent baseVersion id) w (fun m w' => w'.fs = w.fs ∧
      m = { id, intent, baseVersion, status := .created, deletedPaths := [] } ∧ w'.vai = w.vai.withCreated m)
      (fun _ _ => env.Faulty) := by
  unfold createWithId
  refine Ends.bind (ends_onVai_of_ok rfl) (fun _ _ h => h) fun _ w₁ ⟨hf₁, _, hv₁⟩ => ?_
  refine Ends.bind (ends_onVai_of_ok rfl) (fun _ _ h => h) fun _ w₂ ⟨hf₂, _, hv₂⟩ => ?_
  refine Ends.bind (ends_onVai_of_ok rfl) (fun _ _ h => h) fun _ w₃ ⟨hf₃, _, hv₃⟩ => ?_
  refine Ends.bind (ends_onVai_of_ok rfl) (fun _ _ h => h) fun _ w₄ ⟨hf₄, _, hv₄⟩ => ?_
  refine ends_pure ⟨by rw [hf₄, hf₃, hf₂, hf₁], rfl, ?_⟩
  rw [hv₄, hv₃, hv₂, hv₁]
  rfl

theorem active_spec (h : w.vai.IsActive m) : Ends (active env) w
    (fun m' w' => w'.fs = w.fs ∧ m' = m ∧ w'.vai = w.vai) (fun _ _ => env.Faulty) := by
  unfold active
  refine Ends.bind (ends_onVai_of_ok (a := m.id) (v := w.vai) (by simp [VaiDir.readActive, h.active]))
    (fun _ _ h => h) ?_
  rintro _ w₁ ⟨hf, rfl, hv⟩
  refine (ends_onVai_of_ok (a := m) (v := w₁.vai) (by simp [VaiDir.getWorkspace, hv, h.record])).mono ?_ (fun _ _ h => h)
  rintro m' w₂ ⟨hf', rfl, hv'⟩
  exact ⟨hf'.trans hf, rfl, hv'.trans hv⟩

end

/-! ## Directories to start from -/

/-- The record `repo::init` writes. -/
def initialVersion : VersionMeta where
  versionId := versionName 1
  parentVersionId := none
  intent := "initial repository".toList
  createdBy := "system".toList
  mergeEventId := none

/-- `.vai/` after `repo::init`; `graph` is what it has parsed. -/
def VaiDir.init (repoId : Uuid) (name : Text) (graph : GraphSnapshot) : VaiDir where
  head := versionName 1
  versions := FMap.ofList [(versionName 1, initialVersion)]
  workspaces := ∅
  active := none
  deleted := ∅
  log := [{ id := 1, kind := .repoInitialized repoId name }]
  conflicts := ∅
  graph := graph

/-- A repository just initialised, with the workspaces `ms`, the first one active. -/
def VaiDir.withWorkspaces (ms : List WorkspaceMeta) : VaiDir :=
  { VaiDir.init 0 [] ∅ with
    workspaces := FMap.ofList (ms.map fun m => (m.id, m))
    active := ms.head?.map WorkspaceMeta.id }

/-- A workspace that has just been created from version `vK`. -/
def WorkspaceMeta.fresh (id : Uuid) (K : Nat) : WorkspaceMeta :=
  { id, intent := [], baseVersion := versionName K, status := .created, deletedPaths := [] }

end Vai
