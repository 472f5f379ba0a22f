import Vai.World
import Vai.Disk
/-!
# Rollback — undoing a version

`get_version_changes` and `rollback` of `version/mod.rs`.  What a version changed is read back from the event log: the
last file event of its workspace at each path.  `rollback` then removes the files it finds added, copies the others back
from the version's pre-change snapshot, and records a new version on top of HEAD.

`rollback_spec`: the tree a rollback leaves, and what it does to the metadata.
-/
namespace Vai
namespace Version

open Proc

/-! ## The changes of a version -/

inductive ChangeType where
  | added | modified | removed
  deriving DecidableEq, Repr

structure VersionEntityChange where
  entityId : Text
  changeType : ChangeType
  kind : Option Text
  qualifiedName : Option Text
  filePath : Option Path
  changeDescription : Option Text
  deriving DecidableEq, Repr

structure VersionFileChange where
  path : Path
  changeType : ChangeType
  hash : Option Text
  deriving DecidableEq, Repr

structure VersionChanges where
  version : VersionMeta
  entityChanges : List VersionEntityChange
  fileChanges : List VersionFileChange
  deriving DecidableEq, Repr

def entityChange : EventKind → Option VersionEntityChange
  | .entityAdded _ e => some ⟨e.id, .added, some e.kind, some e.qualifiedName, some e.filePath, none⟩
  | .entityModified _ id txt => some ⟨id, .modified, none, none, none, some txt⟩
  | .entityRemoved _ id => some ⟨id, .removed, none, none, none, none⟩
  | _ => none

def fileChange : EventKind → Option VersionFileChange
  | .fileAdded _ p hash => some ⟨p, .added, some hash⟩
  | .fileModified _ p _ newHash => some ⟨p, .modified, some newHash⟩
  | .fileRemoved _ p => some ⟨p, .removed, none⟩
  | _ => none

def insertChange (changes : FMap Path VersionFileChange) (e : Event) : FMap Path VersionFileChange :=
  match fileChange e.kind with
  | some c => changes.insert c.path c
  | none => changes

/-- `file_change_map`: the later event at a path wins. -/
def fileChangeMap (events : List Event) : FMap Path VersionFileChange := events.foldl insertChange ∅

/-- The values of the map, sorted by path. -/
def fileChangesOf (events : List Event) : List VersionFileChange :=
  ((fileChangeMap events).pairs.map Prod.snd).insertionSort (fun a b => a.path ≤ b.path)

section

variable {φ : Type} (env : Env)

def getVersionChanges (versionId : Text) : Proc (World φ) MergeError VersionChanges := do
  let version ← onVai env (VaiDir.getVersion versionId)
  match version.mergeEventId with
  | none => pure ⟨version, [], []⟩
  | some mergeEventId =>
    onVai env (pure ())
    let mergeEvent ← onVai env (Proc.read fun v => v.getById mergeEventId)
    match mergeEvent.bind (fun e => e.kind.workspaceId) with
    | none => pure ⟨version, [], []⟩
    | some workspaceId =>
      let events ← onVai env (Proc.read fun v => v.queryByWorkspace workspaceId)
      pure ⟨version, events.filterMap (fun e => entityChange e.kind), fileChangesOf events⟩

end

/-! ## Rollback -/

structure RollbackResult where
  newVersion : VersionMeta
  filesRestored : Nat
  filesDeleted : Nat
  deriving DecidableEq, Repr

/-- The files of the entities whose name or id matches. -/
def filteredFiles (changes : List VersionEntityChange) (name : Text) : List Path :=
  (changes.filter (fun ec => ec.qualifiedName = some name || Text.containsText ec.entityId name)).filterMap
    VersionEntityChange.filePath

section

variable (env : Env) (versionId : Text)

/-- A file the version added is removed. -/
def removeAdded (p : Path) : Proc Disk IoError Bool := do
  if ← Proc.read (fun d => (d.base.get p).isSome) then
    Disk.tick env
    Proc.modify (fun d => { d with base := d.base.put p none })
    pure true
  else pure false

/-- A file the version modified or removed is copied back from the snapshot, if that has it. -/
def restoreFile (p : Path) : Proc Disk IoError Bool := do
  match ← Proc.read (fun d => (d.snapshot versionId).get p) with
  | some content =>
    Disk.tick env
    Disk.tick env
    Proc.modify (fun d => { d with base := d.base.put p (some content) })
    pure true
  | none => pure false

/-- One file change, with the two counters. -/
def undoChange (allowed : Option (List Path)) (counts : Nat × Nat) (c : VersionFileChange) :
    Proc Disk MergeError (Nat × Nat) := do
  if allowed.any (fun l => c.path ∉ l) then pure counts
  else
    match c.changeType with
    | .added =>
      let done ← io (removeAdded env c.path)
      pure (counts.1, counts.2 + if done then 1 else 0)
    | .modified | .removed =>
      let done ← io (restoreFile env versionId c.path)
      pure (counts.1 + (if done then 1 else 0), counts.2)

def rollback (entityFilter : Option Text) : Proc (World Disk) MergeError RollbackResult := do
  let targetChanges ← getVersionChanges env versionId
  let allowed := entityFilter.map (filteredFiles targetChanges.entityChanges)
  let counts ← onFs (targetChanges.fileChanges.foldlM (undoChange env versionId allowed) (0, 0))
  onVai env (pure ())
  let head ← onVai env VaiDir.readHead
  let newVersionId ← onVai env (Proc.read VaiDir.nextVersionId)
  let _ ← onVai env (VaiDir.append (.rollbackCreated versionId newVersionId entityFilter))
  let intent := "rollback ".toList ++ versionId
  let _ ← onVai env (VaiDir.append (.versionCreated newVersionId (some head) intent))
  let newVersion ← onVai env (VaiDir.createVersion newVersionId (some head) intent "agent".toList none)
  onVai env (VaiDir.writeHead newVersionId)
  pure { newVersion, filesRestored := counts.1, filesDeleted := counts.2 }

end

/-! ## What the log says of a path -/

/-- The last file change of the events at a path. -/
def lastChange (events : List Event) (p : Path) : Option VersionFileChange :=
  events.reverse.findSome? (fun e => (fileChange e.kind).filter (fun c => c.path = p))

theorem get_insertChange (changes : FMap Path VersionFileChange) (e : Event) (p : Path) :
    (insertChange changes e).get p = ((fileChange e.kind).filter (fun c => c.path = p)).or (changes.get p) := by
  unfold insertChange
  cases fileChange e.kind with
  | none => simp
  | some c =>
    simp only [FMap.get_insert, Option.filter_some]
    by_cases hp : p = c.path
    · simp [hp]
    · simp [hp, Ne.symm hp]

theorem get_foldl_insertChange (p : Path) : ∀ (events : List Event) (changes : FMap Path VersionFileChange),
    (events.foldl insertChange changes).get p = (lastChange events p).or (changes.get p)
  | [], changes => by simp [lastChange]
  | e :: events, changes => by
    rw [List.foldl_cons, get_foldl_insertChange p events, get_insertChange]
    simp [lastChange, List.findSome?_append, Option.or_assoc]

@[simp] theorem get_fileChangeMap (events : List Event) (p : Path) : (fileChangeMap events).get p = lastChange events p := by
  rw [fileChangeMap, get_foldl_insertChange]
  simp

theorem path_of_lastChange {events : List Event} {p : Path} {c : VersionFileChange} (h : lastChange events p = some c) :
    c.path = p := by
  obtain ⟨e, -, he⟩ := List.exists_of_findSome?_eq_some h
  simpa using (Option.filter_eq_some_iff.1 he).2

theorem mem_fileChangesOf {events : List Event} {c : VersionFileChange} :
    c ∈ fileChangesOf events ↔ lastChange events c.path = some c := by
  unfold fileChangesOf
  rw [List.mem_insertionSort, List.mem_map]
  constructor
  · rintro ⟨⟨p, c'⟩, hp, rfl⟩
    have h := FMap.mem_pairs.1 hp
    rw [get_fileChangeMap] at h
    rwa [path_of_lastChange h]
  · exact fun h => ⟨(c.path, c), FMap.mem_pairs.2 (by rw [get_fileChangeMap, h]), rfl⟩

theorem nodup_paths_fileChangesOf (events : List Event) : ((fileChangesOf events).map VersionFileChange.path).Nodup := by
  unfold fileChangesOf
  have hperm := ((List.perm_insertionSort (fun a b : VersionFileChange => a.path ≤ b.path)
    ((fileChangeMap events).pairs.map Prod.snd)).map VersionFileChange.path)
  rw [hperm.nodup_iff, List.map_map]
  have hkeys : (fileChangeMap events).pairs.map (VersionFileChange.path ∘ Prod.snd) =
      (fileChangeMap events).pairs.map Prod.fst := by
    refine List.map_congr_left fun ⟨p, c⟩ hp => ?_
    have h := FMap.mem_pairs.1 hp
    rw [get_fileChangeMap] at h
    exact path_of_lastChange h
  rw [hkeys, FMap.map_fst_pairs]
  exact AList.keys_nodup _

/-! ## What a rollback does -/

/-- The events of the workspace that made the version `m`; none when its merge event is not to be found. -/
def eventsOf (v : VaiDir) (m : VersionMeta) : List Event :=
  match (m.mergeEventId.bind v.getById).bind (fun e => e.kind.workspaceId) with
  | some workspaceId => v.queryByWorkspace workspaceId
  | none => []

/-- The file of a change after it has been undone. -/
def undoneAt (d : Disk) (versionId : Text) (c : VersionFileChange) : Option Bytes :=
  match c.changeType with
  | .added => none
  | .modified | .removed => ((d.snapshot versionId).get c.path).or (d.base.get c.path)

/-- The tree after the changes of a version have been undone. -/
def undone (d : Disk) (versionId : Text) (events : List Event) (p : Path) : Option Bytes :=
  match lastChange events p with
  | none => d.base.get p
  | some c => undoneAt d versionId c

section

variable {env : Env} {versionId : Text} {d : Disk} {allowed : Option (List Path)}

/-- `d'` differs from `d` in the base tree only, and there as `tree` says at the paths the filter lets through. -/
structure Rebased (d : Disk) (allowed : Option (List Path)) (tree : Path → Option Bytes) (d' : Disk) : Prop where
  overlay : d'.overlay = d.overlay
  snapshot : d'.snapshot = d.snapshot
  base : ∀ p, d'.base.get p = if allowed.any (fun l => p ∉ l) then d.base.get p else tree p

theorem tick_ends (d : Disk) : Ends (Disk.tick env) d (fun _ d' => d' = { d with ops := d.ops + 1 })
    (fun _ _ => env.FsFaulty) := by
  unfold Ends Disk.tick
  by_cases hi : env.fsFault d.ops
  · simp only [hi, if_true]
    exact ⟨d.ops, hi⟩
  · simp only [hi]
    rfl

theorem removeAdded_spec (p : Path) : Ends (io (removeAdded env p)) d
    (fun _ d' => Rebased d none (fun q => if q = p then none else d.base.get q) d') (fun _ _ => env.FsFaulty) := by
  refine ends_io (ends_bind (ends_read ?_))
  split
  · refine Ends.bind (tick_ends d) (fun _ _ h => h) ?_
    rintro _ d₁ rfl
    refine ends_bind (ends_modify (ends_pure ⟨rfl, rfl, fun q => ?_⟩))
    simp only [FMap.get_put, Option.any_none, Bool.false_eq_true, if_false]
  · rename_i hp
    refine ends_pure ⟨rfl, rfl, fun q => ?_⟩
    simp only [Option.any_none, Bool.false_eq_true, if_false]
    by_cases hq : q = p
    · rw [if_pos hq, hq, Option.not_isSome_iff_eq_none.1 hp]
    · rw [if_neg hq]

theorem restoreFile_spec (p : Path) : Ends (io (restoreFile env versionId p)) d
    (fun _ d' => Rebased d none (fun q => if q = p then ((d.snapshot versionId).get p).or (d.base.get p)
      else d.base.get q) d') (fun _ _ => env.FsFaulty) := by
  refine ends_io (ends_bind (ends_read ?_))
  cases hs : (d.snapshot versionId).get p with
  | none =>
    refine ends_pure ⟨rfl, rfl, fun q => ?_⟩
    by_cases hq : q = p <;> simp [hq]
  | some content =>
    refine Ends.bind (tick_ends d) (fun _ _ h => h) ?_
    rintro _ d₁ rfl
    refine Ends.bind (tick_ends _) (fun _ _ h => h) ?_
    rintro _ d₂ rfl
    refine ends_bind (ends_modify (ends_pure ⟨rfl, rfl, fun q => ?_⟩))
    simp only [FMap.get_put, Option.some_or, Option.any_none, Bool.false_eq_true, if_false]

theorem undoChange_spec (counts : Nat × Nat) (c : VersionFileChange) :
    Ends (undoChange env versionId allowed counts c) d (fun _ d' => Rebased d allowed
      (fun q => if q = c.path then undoneAt d versionId c else d.base.get q) d') (fun _ _ => env.FsFaulty) := by
  unfold undoChange
  split
  · rename_i hno
    refine ends_pure ⟨rfl, rfl, fun q => ?_⟩
    by_cases hq : q = c.path
    · rw [hq, if_pos hno]
    · simp only [hq, if_false, ite_self]
  · rename_i hyes
    have hany : ∀ {o d'}, Rebased d none (fun q => if q = c.path then o else d.base.get q) d' →
        Rebased d allowed (fun q => if q = c.path then o else d.base.get q) d' := by
      intro o d' h
      refine ⟨h.overlay, h.snapshot, fun q => ?_⟩
      have hb := h.base q
      simp only [Option.any_none, Bool.false_eq_true, if_false] at hb
      rw [hb]
      by_cases hq : q = c.path
      · rw [hq, if_neg hyes]
      · simp only [hq, if_false, ite_self]
    unfold undoneAt
    cases c.changeType with
    | added => exact Ends.bind (removeAdded_spec c.path) (fun _ _ h => h) fun _ d' h => ends_pure (hany h)
    | modified => exact Ends.bind (restoreFile_spec c.path) (fun _ _ h => h) fun _ d' h => ends_pure (hany h)
    | removed => exact Ends.bind (restoreFile_spec c.path) (fun _ _ h => h) fun _ d' h => ends_pure (hany h)

theorem undoneAt_congr {d d' : Disk} {c : VersionFileChange} (hs : d'.snapshot = d.snapshot)
    (hb : d'.base.get c.path = d.base.get c.path) : undoneAt d' versionId c = undoneAt d versionId c := by
  unfold undoneAt
  rw [hs, hb]

theorem undoChanges_spec (d : Disk) (events : List Event) (counts : Nat × Nat) :
    Ends ((fileChangesOf events).foldlM (undoChange env versionId allowed) counts) d
      (fun _ d' => Rebased d allowed (undone d versionId events) d') (fun _ _ => env.FsFaulty) := by
  refine (ends_foldlM (fun pre _ d' => Rebased d allowed (fun p =>
    if p ∈ pre.map VersionFileChange.path then undone d versionId events p else d.base.get p) d')
    (fileChangesOf events) [] counts d ⟨rfl, rfl, fun p => by simp⟩ ?_).mono ?_ (fun _ _ h => h)
  · intro pre c post counts d₁ hlist h₁
    simp only [List.nil_append] at hlist
    have hnd := nodup_paths_fileChangesOf events
    rw [hlist, List.map_append, List.map_cons] at hnd
    -- the path is new: the file is still as it was at the start
    have hnew : c.path ∉ pre.map VersionFileChange.path := fun h =>
      (List.disjoint_of_nodup_append hnd) h List.mem_cons_self
    have hlast : lastChange events c.path = some c := mem_fileChangesOf.1 (by rw [hlist]; simp)
    refine (undoChange_spec counts c).mono (fun _ d₂ h₂ => ⟨h₂.overlay.trans h₁.overlay, h₂.snapshot.trans h₁.snapshot,
      fun p => ?_⟩) (fun _ _ h => h)
    rw [h₂.base]
    by_cases hal : allowed.any (fun l => p ∉ l)
    · rw [if_pos hal, if_pos hal, h₁.base, if_pos hal]
    rw [if_neg hal, if_neg hal]
    by_cases hp : p = c.path
    · rw [if_pos hp, if_pos (by simp [hp]), hp, undone, hlast]
      exact undoneAt_congr h₁.snapshot (by rw [h₁.base, if_neg (hp ▸ hal), if_neg hnew])
    · rw [if_neg hp, h₁.base, if_neg hal]
      simp only [List.map_append, List.map_cons, List.map_nil, List.mem_append, List.mem_singleton, hp, or_false]
  · intro _ d' h
    refine ⟨h.overlay, h.snapshot, fun p => ?_⟩
    rw [h.base]
    congr 1
    simp only [List.nil_append]
    split
    · rfl
    · rename_i hp
      unfold undone
      cases hl : lastChange events p with
      | none => rfl
      | some c =>
        have hc := path_of_lastChange hl
        exact absurd (List.mem_map.2 ⟨c, mem_fileChangesOf.2 (by rw [hc, hl]), hc⟩) hp

end

section

variable {env : Env} {versionId : Text} {w : World Disk} {m : VersionMeta}

theorem getVersionChanges_spec {φ : Type} {w : World φ} (hm : w.vai.versions.get versionId = some m) :
    Ends (getVersionChanges env versionId) w (fun changes w' => w'.fs = w.fs ∧ w'.vai = w.vai ∧
      changes.fileChanges = fileChangesOf (eventsOf w.vai m) ∧
      changes.entityChanges = (eventsOf w.vai m).filterMap (fun e => entityChange e.kind)) (fun _ _ => env.Faulty) := by
  have hnil : fileChangesOf [] = [] := rfl
  unfold getVersionChanges
  refine Ends.bind (ends_onVai_of_ok (a := m) (v := w.vai) (by simp [VaiDir.getVersion, hm])) (fun _ _ h => h) ?_
  rintro _ w₁ ⟨hf₁, rfl, hv₁⟩
  unfold eventsOf
  rename_i m
  cases hid : m.mergeEventId with
  | none => exact ends_pure ⟨hf₁, hv₁, by simp [hnil], by simp⟩
  | some id =>
    refine Ends.bind (ends_onVai_of_ok rfl) (fun _ _ h => h) fun _ w₂ ⟨hf₂, _, hv₂⟩ => ?_
    refine Ends.bind (ends_onVai_of_ok rfl) (fun _ _ h => h) ?_
    rintro e w₃ ⟨hf₃, rfl, hv₃⟩
    have hv : w₃.vai = w.vai := by rw [hv₃, hv₂, hv₁]
    have hf : w₃.fs = w.fs := by rw [hf₃, hf₂, hf₁]
    rw [hv₂, hv₁]
    simp only [Option.bind_some]
    cases hws : (w.vai.getById id).bind (fun e => e.kind.workspaceId) with
    | none => exact ends_pure ⟨hf, hv, hnil.symm, rfl⟩
    | some ws =>
      refine Ends.bind (ends_onVai_of_ok rfl) (fun _ _ h => h) ?_
      rintro evs w₄ ⟨hf₄, rfl, hv₄⟩
      exact ends_pure ⟨hf₄.trans hf, hv₄.trans hv, by rw [hv], by rw [hv]⟩

/-- The record of a rollback. -/
def rollbackRecord (versionId : Text) (v : VaiDir) : VersionMeta :=
  { versionId := v.nextVersionId, parentVersionId := some v.head, intent := "rollback ".toList ++ versionId,
    createdBy := "agent".toList, mergeEventId := none }

/-- The directory after a rollback. -/
def rolledBack (versionId : Text) (entityFilter : Option Text) (v : VaiDir) : VaiDir :=
  { v.logged [.rollbackCreated versionId v.nextVersionId entityFilter,
      .versionCreated v.nextVersionId (some v.head) ("rollback ".toList ++ versionId)] with
    versions := v.versions.insert v.nextVersionId (rollbackRecord versionId v)
    head := v.nextVersionId }

/-- The tree after a rollback: at the paths the filter lets through, the changes that the log has of the version are
undone. -/
def restored (w : World Disk) (versionId : Text) (m : VersionMeta) (entityFilter : Option Text) (p : Path) : Option Bytes :=
  let allowed := entityFilter.map (filteredFiles ((eventsOf w.vai m).filterMap (fun e => entityChange e.kind)))
  if allowed.any (fun l => p ∉ l) then w.fs.base.get p else undone w.fs versionId (eventsOf w.vai m) p

/-- **What a rollback does**: a new version on top of HEAD, and the restored tree. -/
theorem rollback_spec (hm : w.vai.versions.get versionId = some m) (entityFilter : Option Text) :
    Ends (rollback env versionId entityFilter) w
      (fun _ w' => w'.vai = rolledBack versionId entityFilter w.vai ∧ w'.fs.overlay = w.fs.overlay ∧
        w'.fs.snapshot = w.fs.snapshot ∧
        ∀ p, w'.fs.base.get p = restored w versionId m entityFilter p)
      (fun _ _ => env.FsFaulty ∨ env.Faulty) := by
  unfold rollback
  refine Ends.bind (getVersionChanges_spec hm) (fun _ _ h => .inr h) fun changes w₁ ⟨hf₁, hv₁, hch, hech⟩ => ?_
  simp only [hch, hech]
  refine Ends.bind (ends_onFs (undoChanges_spec w₁.fs _ _)) (fun _ _ h => .inl h.2) fun counts w₂ ⟨hv₂, h₂⟩ => ?_
  refine Ends.bind (ends_onVai_of_ok rfl) (fun _ _ h => .inr h) fun _ w₃ ⟨hf₃, _, hv₃⟩ => ?_
  refine Ends.bind (ends_onVai_of_ok rfl) (fun _ _ h => .inr h) ?_
  rintro head w₄ ⟨hf₄, rfl, hv₄⟩
  refine Ends.bind (ends_onVai_of_ok rfl) (fun _ _ h => .inr h) ?_
  rintro id w₅ ⟨hf₅, rfl, hv₅⟩
  refine Ends.bind (ends_onVai_of_ok rfl) (fun _ _ h => .inr h) fun _ w₆ ⟨hf₆, _, hv₆⟩ => ?_
  refine Ends.bind (ends_onVai_of_ok rfl) (fun _ _ h => .inr h) fun _ w₇ ⟨hf₇, _, hv₇⟩ => ?_
  refine Ends.bind (ends_onVai_of_ok rfl) (fun _ _ h => .inr h) fun _ w₈ ⟨hf₈, _, hv₈⟩ => ?_
  refine Ends.bind (ends_onVai_of_ok rfl) (fun _ _ h => .inr h) fun _ w₉ ⟨hf₉, _, hv₉⟩ => ?_
  have hf : w₉.fs = w₂.fs := by rw [hf₉, hf₈, hf₇, hf₆, hf₅, hf₄, hf₃]
  refine ends_pure ⟨?_, by rw [hf, h₂.overlay, hf₁], by rw [hf, h₂.snapshot, hf₁], fun p => ?_⟩
  · rw [hv₉, hv₈, hv₇, hv₆, hv₅, hv₄, hv₃, hv₂, hv₁]
    rfl
  · rw [hf, h₂.base, hf₁]
    rfl

theorem rollback_found {entityFilter : Option Text} {r : RollbackResult} {w' : World Disk}
    (h : rollback env versionId entityFilter w = (.ok r, w')) : ∃ m, w.vai.versions.get versionId = some m := by
  cases hm : w.vai.versions.get versionId with
  | some m => exact ⟨m, rfl⟩
  | none =>
    unfold rollback at h
    obtain ⟨changes, w₁, hget, -⟩ := bind_eq_ok.1 h
    unfold getVersionChanges at hget
    obtain ⟨m, w₂, hm', -⟩ := bind_eq_ok.1 hget
    have := (onVai_ok hm').1
    rw [VaiDir.getVersion, hm] at this
    cases this

theorem rollback_dir {entityFilter : Option Text} {r : RollbackResult} {w' : World Disk}
    (h : rollback env versionId entityFilter w = (.ok r, w')) : w'.vai = rolledBack versionId entityFilter w.vai := by
  obtain ⟨m, hm⟩ := rollback_found h
  exact ((rollback_spec hm entityFilter).ok h).1

end

end Version
end Vai
