import Vai.PullSpec
import Vai.Rollback
/-!
# VersionDetail — the changes of a version, on the server

`get_version_handler` of `server/version.rs`, after the permission check.  It reads the same events of the same workspace
as `version::get_version_changes`, but keeps an entry for every file event where the other keeps the last one at each path.

`getVersionHandler_agrees_iff`: the two file lists are the same, up to order, exactly when no path has two file events.
-/
namespace Vai
namespace Handlers

open Proc Backend Version

variable (fails : Fails)

/-- The workspace that was merged into a version, with its events. -/
def mergedEvents (version : VersionMeta) : Proc Backend ApiError (Option (Uuid × List Event)) :=
  match version.mergeEventId with
  | none => pure none
  | some mergeEventId => do
    let mergeEvents ← mapErr ApiError.ofStorage (queryByType fails "MergeCompleted".toList)
    match workspaceOf mergeEvents mergeEventId with
    | none => pure none
    | some workspaceId => do
      let events ← mapErr ApiError.ofStorage (queryByWorkspace fails workspaceId)
      pure (some (workspaceId, events))

/-- What a list of events comes to; no event is left out. -/
def detailOf (version : VersionMeta) (events : List Event) : VersionChanges :=
  ⟨version, events.filterMap (fun e => entityChange e.kind), events.filterMap (fun e => fileChange e.kind)⟩

def getVersionHandler (id : Text) : Proc Backend ApiError VersionChanges := do
  let version ← mapErr ApiError.ofStorage (getVersion fails id)
  let found ← mergedEvents fails version
  match found with
  | none => pure (detailOf version [])
  | some (_, events) => pure (detailOf version events)

/-! ## One history, read twice -/

section

variable {fails} {b b' : Backend} {v : VaiDir} {m : VersionMeta}

/-- The tables of the server and the files of a repository have the same events, and both the version `m`, which is merged
from a workspace if it has a merge event. -/
structure SameHistory (b : Backend) (v : VaiDir) (m : VersionMeta) : Prop where
  log : v.log = b.events
  sorted : b.events.Pairwise (fun e f => e.id < f.id)
  server : b.versions.find? (fun u => u.versionId = m.versionId) = some m
  files : v.versions.get m.versionId = some m
  merged : ∀ mid, m.mergeEventId = some mid → ∃ e ∈ b.events, e.id = mid ∧ isMerge e.kind = true

theorem orderById_sorted (h : b.events.Pairwise (fun e f => e.id < f.id)) (q : Event → Bool) :
    orderById (b.events.filter q) = b.events.filter q :=
  List.Pairwise.insertionSort_eq ((h.filter q).imp fun h => Nat.le_of_lt h)

/-- In a log in the order of its ids, an event is found under its id. -/
theorem find_sorted {events : List Event} (h : events.Pairwise (fun e f => e.id < f.id)) {e : Event} (he : e ∈ events) :
    events.find? (fun f => f.id = e.id) = some e := by
  have hnodup : (events.map Event.id).Nodup := List.pairwise_map.2 (h.imp fun h => Nat.ne_of_lt h)
  cases hf : events.find? (fun f => f.id = e.id) with
  | none =>
    have hnone := List.find?_eq_none.1 hf e he
    simp at hnone
  | some f =>
    have hid := List.find?_some hf
    rw [decide_eq_true_eq] at hid
    rw [List.inj_on_of_nodup_map hnodup (List.mem_of_find?_eq_some hf) he hid]

theorem mergeEvents_sorted (h : b.events.Pairwise (fun e f => e.id < f.id)) :
    orderById (b.events.filter (fun e => e.kind.eventType = "MergeCompleted".toList)) =
      b.events.filter (fun e => isMerge e.kind) := by
  rw [orderById_sorted h]
  congr 1
  funext e
  rw [Bool.eq_iff_iff, decide_eq_true_eq, eventType_eq_merge]

theorem queryByType_ends (t : Text) (b : Backend) : Ends (queryByType fails t) b
    (fun l b' => b' = b ∧ l = orderById (b.events.filter (fun e => e.kind.eventType = t))) (fun _ b' => b' = b) := by
  unfold queryByType Backend.db
  split
  · exact ends_fail rfl
  · exact ends_bind (ends_pure (ends_read ⟨rfl, rfl⟩))

theorem queryByWorkspace_ends (i : Uuid) (b : Backend) : Ends (queryByWorkspace fails i) b
    (fun l b' => b' = b ∧ l = orderById (b.events.filter (fun e => e.kind.workspaceId = some i))) (fun _ b' => b' = b) := by
  unfold queryByWorkspace Backend.db
  split
  · exact ends_fail rfl
  · exact ends_bind (ends_pure (ends_read ⟨rfl, rfl⟩))

theorem getVersion_ends (id : Text) (b : Backend) : Ends (getVersion fails id) b
    (fun m b' => b' = b ∧ b.versions.find? (fun u => u.versionId = id) = some m) (fun _ b' => b' = b) := by
  unfold getVersion Backend.db
  split
  · exact ends_fail rfl
  · refine ends_bind (ends_pure (ends_bind (ends_read ?_)))
    cases hf : b.versions.find? (fun u => u.versionId = id) with
    | none => exact ends_fail rfl
    | some m => exact ends_pure ⟨rfl, rfl⟩

theorem mergedEvents_ends (hsorted : b.events.Pairwise (fun e f => e.id < f.id))
    (hmerged : ∀ mid, m.mergeEventId = some mid → ∃ e ∈ b.events, e.id = mid ∧ isMerge e.kind = true) :
    Ends (mergedEvents fails m) b (fun found b' => b' = b ∧
      (found = none ∧ m.mergeEventId = none ∨ ∃ mid e i, m.mergeEventId = some mid ∧ e ∈ b.events ∧ e.id = mid ∧
        isMerge e.kind = true ∧ e.kind.workspaceId = some i ∧
        found = some (i, b.events.filter (fun e => e.kind.workspaceId = some i)))) (fun _ _ => True) := by
  unfold mergedEvents
  cases hid : m.mergeEventId with
  | none => exact ends_pure ⟨rfl, .inl ⟨rfl, rfl⟩⟩
  | some mid =>
    obtain ⟨e, he, rfl, hmerge⟩ := hmerged mid hid
    refine Ends.bind (ends_mapErr ((queryByType_ends _ b).mono (fun _ _ h => h) fun _ _ _ => trivial)) (fun _ _ h => h) ?_
    rintro _ _ ⟨rfl, rfl⟩
    rw [mergeEvents_sorted hsorted, workspaceOf_sorted hsorted he hmerge]
    obtain ⟨i, hi⟩ : ∃ i, e.kind.workspaceId = some i := by
      unfold isMerge at hmerge
      cases hk : e.kind <;> rw [hk] at hmerge <;> first | exact ⟨_, rfl⟩ | cases hmerge
    rw [hi]
    dsimp only
    refine Ends.bind (ends_mapErr ((queryByWorkspace_ends i _).mono (fun _ _ h => h) fun _ _ _ => trivial))
      (fun _ _ h => h) ?_
    rintro _ _ ⟨rfl, rfl⟩
    exact ends_pure ⟨rfl, .inr ⟨e.id, e, i, rfl, he, rfl, hmerge, hi, by rw [orderById_sorted hsorted]⟩⟩

/-- **What the handler answers**: a change for every event of the version's workspace. -/
theorem getVersionHandler_spec (h : SameHistory b v m) : Ends (getVersionHandler fails m.versionId) b
    (fun changes _ => changes = detailOf m (eventsOf v m)) (fun _ _ => True) := by
  unfold getVersionHandler
  refine Ends.bind (ends_mapErr ((getVersion_ends m.versionId b).mono (fun _ _ h => h) fun _ _ _ => trivial))
    (fun _ _ h => h) ?_
  rintro m' _ ⟨rfl, hm'⟩
  have hrow := h.server
  rw [hm'] at hrow
  cases hrow
  refine Ends.bind (mergedEvents_ends h.sorted h.merged) (fun _ _ h => h) ?_
  rintro found _ ⟨rfl, ⟨rfl, hnone⟩ | ⟨mid, e, i, hid, he, rfl, -, hi, rfl⟩⟩
  · refine ends_pure ?_
    unfold eventsOf
    rw [hnone]
    rfl
  · refine ends_pure ?_
    unfold eventsOf
    have hfind : v.getById e.id = some e := by
      unfold VaiDir.getById
      rw [h.log, find_sorted h.sorted he]
    rw [hid, Option.bind_some, hfind, Option.bind_some, hi]
    unfold VaiDir.queryByWorkspace
    rw [h.log]

/-! ## Every event, or the last one at each path -/

theorem mem_fileChangesOf_of_nodup {events : List Event} {c : VersionFileChange}
    (hnodup : ((events.filterMap (fun e => fileChange e.kind)).map VersionFileChange.path).Nodup) :
    c ∈ fileChangesOf events ↔ c ∈ events.filterMap (fun e => fileChange e.kind) := by
  rw [mem_fileChangesOf]
  have hfound : ∀ {c'}, lastChange events c.path = some c' → c' ∈ events.filterMap (fun e => fileChange e.kind) := by
    intro c' hlast
    obtain ⟨e, he, hc'⟩ := List.exists_of_findSome?_eq_some hlast
    exact List.mem_filterMap.2 ⟨e, List.mem_reverse.1 he, (Option.filter_eq_some_iff.1 hc').1⟩
  constructor
  · exact hfound
  · intro hmem
    obtain ⟨e, he, hc⟩ := List.mem_filterMap.1 hmem
    cases hlast : lastChange events c.path with
    | none =>
      have hnone := List.findSome?_eq_none_iff.1 hlast e (List.mem_reverse.2 he)
      rw [hc] at hnone
      simp at hnone
    | some c' => rw [List.inj_on_of_nodup_map hnodup (hfound hlast) hmem (path_of_lastChange hlast)]

/-- The two folds agree, up to order, exactly when no path has two file events. -/
theorem perm_fileChangesOf_iff (events : List Event) :
    (events.filterMap (fun e => fileChange e.kind)).Perm (fileChangesOf events) ↔
      ((events.filterMap (fun e => fileChange e.kind)).map VersionFileChange.path).Nodup := by
  constructor
  · intro h
    exact (h.map VersionFileChange.path).nodup_iff.2 (nodup_paths_fileChangesOf events)
  · intro hnodup
    refine (List.perm_ext_iff_of_nodup hnodup.of_map (nodup_paths_fileChangesOf events).of_map).2 fun c => ?_
    exact (mem_fileChangesOf_of_nodup hnodup).symm

/-- **When the server's version detail is the local one**: the file changes that the handler lists are, up to order, those
of `get_version_changes` on the same events if and only if no path has two file events of the version's workspace. -/
theorem getVersionHandler_agrees_iff {φ : Type} {env : Env} {w w' : World φ} {changes changes' : VersionChanges}
    (h : SameHistory b w.vai m) (hserver : getVersionHandler fails m.versionId b = (.ok changes, b'))
    (hlocal : getVersionChanges env m.versionId w = (.ok changes', w')) :
    changes.fileChanges.Perm changes'.fileChanges ↔
      (((eventsOf w.vai m).filterMap (fun e => fileChange e.kind)).map VersionFileChange.path).Nodup := by
  have hdetail : changes = detailOf m (eventsOf w.vai m) := (getVersionHandler_spec h).ok hserver
  obtain ⟨-, -, hchanges, -⟩ := (getVersionChanges_spec h.files).ok hlocal
  rw [hdetail, hchanges]
  exact perm_fileChangesOf_iff _

end

/-! ## A file that is deleted -/

/-- Version `v2`, merged from workspace 1 with these file events. -/
def mergedVersion (n : Nat) : VersionMeta :=
  { versionId := versionName 2, parentVersionId := some (versionName 1), intent := [], createdBy := [], mergeEventId := some n }

/-- The tables after the events, numbered from one, and the merge. -/
def historyOf (kinds : List EventKind) : Backend :=
  { fresh with
    events := (kinds ++ [EventKind.mergeCompleted 1 (versionName 2) 0]).mapIdx fun k kind => ⟨k + 1, kind⟩
    versions := fresh.versions ++ [mergedVersion (kinds.length + 1)] }

/-- The directory with the same events. -/
def directoryOf (kinds : List EventKind) : World Disk where
  fs := { base := ∅, overlay := fun _ => ∅, snapshot := fun _ => ∅, ops := 0 }
  vai := { VaiDir.init 0 [] ∅ with
    log := (historyOf kinds).events
    versions := FMap.ofList [(versionName 2, mergedVersion (kinds.length + 1))] }
  ops := 0

theorem same_historyOf (kinds : List EventKind) :
    SameHistory (historyOf kinds) (directoryOf kinds).vai (mergedVersion (kinds.length + 1)) where
  log := rfl
  sorted := by
    refine List.pairwise_iff_getElem.2 fun j k hj hk hlt => ?_
    simp only [historyOf, List.getElem_mapIdx]
    omega
  server := rfl
  files := rfl
  merged mid hid := by
    cases hid
    refine ⟨⟨kinds.length + 1, .mergeCompleted 1 (versionName 2) 0⟩, ?_, rfl, rfl⟩
    refine List.mem_mapIdx.2 ⟨kinds.length, by simp, ?_⟩
    simp

/-- The two answers for version `v2`. -/
def detailOnServer (kinds : List EventKind) : Except ApiError VersionChanges × Backend :=
  getVersionHandler Fails.none (versionName 2) (historyOf kinds)

def detailOnDisk (kinds : List EventKind) : Except MergeError VersionChanges × World Disk :=
  getVersionChanges Env.plain (versionName 2) (directoryOf kinds)

/-- One event a path: the same list. -/
theorem getVersionHandler_agrees_iff_once : ∃ changes b' changes' w',
    detailOnServer [.fileAdded 1 ['a'] ['x'], .fileRemoved 1 ['b']] = (.ok changes, b') ∧
    detailOnDisk [.fileAdded 1 ['a'] ['x'], .fileRemoved 1 ['b']] = (.ok changes', w') ∧
    changes.fileChanges.Perm changes'.fileChanges := by
  have hserver : (detailOnServer [.fileAdded 1 ['a'] ['x'], .fileRemoved 1 ['b']]).1.isOk := by decide +kernel
  have hlocal : (detailOnDisk [.fileAdded 1 ['a'] ['x'], .fileRemoved 1 ['b']]).1.isOk := by decide +kernel
  rcases hs : detailOnServer [.fileAdded 1 ['a'] ['x'], .fileRemoved 1 ['b']] with ⟨e | changes, b'⟩
  · rw [hs] at hserver
    cases hserver
  rcases hl : detailOnDisk [.fileAdded 1 ['a'] ['x'], .fileRemoved 1 ['b']] with ⟨e | changes', w'⟩
  · rw [hl] at hlocal
    cases hlocal
  exact ⟨changes, b', changes', w', rfl, rfl,
    (getVersionHandler_agrees_iff (same_historyOf [.fileAdded 1 ['a'] ['x'], .fileRemoved 1 ['b']]) hs hl).2
      (by decide +kernel)⟩

/-- A deletion is noted when it is uploaded and again when it is submitted: the server lists it twice. -/
theorem deletion_is_listed_twice : ∃ changes b' changes' w',
    detailOnServer [.fileRemoved 1 ['a'], .fileRemoved 1 ['a']] = (.ok changes, b') ∧
    detailOnDisk [.fileRemoved 1 ['a'], .fileRemoved 1 ['a']] = (.ok changes', w') ∧
    changes.fileChanges = [⟨['a'], .removed, none⟩, ⟨['a'], .removed, none⟩] ∧
    changes'.fileChanges = [⟨['a'], .removed, none⟩] ∧ ¬ changes.fileChanges.Perm changes'.fileChanges := by
  have hserver : (detailOnServer [.fileRemoved 1 ['a'], .fileRemoved 1 ['a']]).1.map VersionChanges.fileChanges =
      .ok [⟨['a'], .removed, none⟩, ⟨['a'], .removed, none⟩] := by decide +kernel
  have hlocal : (detailOnDisk [.fileRemoved 1 ['a'], .fileRemoved 1 ['a']]).1.map VersionChanges.fileChanges =
      .ok [⟨['a'], .removed, none⟩] := by decide +kernel
  rcases hs : detailOnServer [.fileRemoved 1 ['a'], .fileRemoved 1 ['a']] with ⟨e | changes, b'⟩
  · rw [hs] at hserver
    cases hserver
  rcases hl : detailOnDisk [.fileRemoved 1 ['a'], .fileRemoved 1 ['a']] with ⟨e | changes', w'⟩
  · rw [hl] at hlocal
    cases hlocal
  rw [hs] at hserver
  rw [hl] at hlocal
  have htwice : changes.fileChanges = _ := Except.ok.inj hserver
  have honce : changes'.fileChanges = _ := Except.ok.inj hlocal
  refine ⟨changes, b', changes', w', rfl, rfl, htwice, honce, fun hperm => ?_⟩
  have hlength := hperm.length_eq
  rw [htwice, honce] at hlength
  cases hlength

end Handlers
end Vai
