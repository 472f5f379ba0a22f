import Vai.Upload
/-!
# Kept — what the handlers keep

An invariant of the backend that survives every single write (`Survives`) is kept by whole requests, whichever of their
calls fail.  The rows of the workspaces are looked at on their own: what is written there depends on what was read.
-/
namespace Vai
namespace Handlers

open Proc Backend

variable {env : Env} {fails : Fails} {codecs : Codecs} {id : Uuid} {I : Backend → Prop}

/-! ## Single calls -/

@[simp] theorem ignored_apply (m : Proc Backend StorageError Unit) (b : Backend) : ignored m b = (.ok ⟨⟩, (m b).2) := by
  unfold ignored
  rw [bind_apply, attempt_apply]
  unfold mapErr
  rcases m b with ⟨_ | _, _⟩ <;> rfl

/-- The backend with one more event. -/
def recorded (kind : EventKind) (b : Backend) : Backend :=
  { b with events := b.events ++ [⟨b.nextEvent, kind⟩], nextEvent := b.nextEvent + 1 }

@[simp] theorem record_apply (kind : EventKind) (b : Backend) :
    record fails kind b = (.ok ⟨⟩, if fails.db (.append kind) then b else recorded kind b) := by
  unfold record
  rw [bind_apply, attempt_apply]
  unfold mapErr append Backend.db
  by_cases h : fails.db (.append kind) = true
  · rw [if_pos h, if_pos h]
    rfl
  · rw [if_neg h, if_neg h]
    rfl

theorem row_id {b : Backend} {wsMeta : WorkspaceMeta} (h : b.row id = some wsMeta) : wsMeta.id = id := by
  obtain ⟨m, -, rfl⟩ := Option.map_eq_some_iff.1 h
  rfl

/-- The backend with a row written. -/
def withRow (id : Uuid) (wsMeta : WorkspaceMeta) (b : Backend) : Backend :=
  { b with workspaces := b.workspaces.insert id wsMeta }

theorem row_withRow (id : Uuid) (wsMeta : WorkspaceMeta) (b : Backend) (i : Uuid) :
    (withRow id wsMeta b).row i = if i = id then some { wsMeta with id := id } else b.row i := by
  unfold Backend.row withRow
  rw [FMap.get_insert]
  by_cases h : i = id
  · rw [if_pos h, if_pos h, h]
    rfl
  · rw [if_neg h, if_neg h]

theorem getWorkspace_ends (id : Uuid) (b : Backend) : Ends (mapErr ApiError.ofStorage (getWorkspace fails id)) b
    (fun wsMeta b' => b.row id = some wsMeta ∧ b' = b)
    (fun e b' => b' = b ∧ (e = .internal ∧ fails.db .getWorkspace = true ∨ b.row id = none)) := by
  unfold getWorkspace Backend.db
  apply ends_mapErr
  by_cases h : fails.db .getWorkspace = true
  · rw [if_pos h]
    exact ends_bind (ends_fail ⟨rfl, .inl ⟨rfl, h⟩⟩)
  · rw [if_neg h]
    apply ends_bind_of_ok (pure_apply () b)
    apply ends_bind_of_ok (read_apply _ b)
    cases hr : b.row id with
    | none => exact ends_fail ⟨rfl, .inr rfl⟩
    | some wsMeta => exact ends_pure ⟨rfl, rfl⟩

/-- The row as an update leaves it. -/
def updatedRow (status : Option WorkspaceStatus) (deletedPaths : Option (List Path)) (wsMeta : WorkspaceMeta) :
    WorkspaceMeta :=
  { wsMeta with status := status.getD wsMeta.status, deletedPaths := deletedPaths.getD wsMeta.deletedPaths }

theorem updateWorkspace_state (id : Uuid) (status : Option WorkspaceStatus) (deletedPaths : Option (List Path))
    (b : Backend) : (updateWorkspace fails id status deletedPaths b).2 = b ∨ ∃ wsMeta, b.row id = some wsMeta ∧
      (updateWorkspace fails id status deletedPaths b).2 = withRow id (updatedRow status deletedPaths wsMeta) b := by
  unfold updateWorkspace getWorkspace Backend.db
  by_cases hget : fails.db .getWorkspace = true
  · rw [if_pos hget]
    exact .inl rfl
  rw [if_neg hget]
  by_cases hupd : fails.db .updateWorkspace = true
  · rw [if_pos hupd]
    cases hr : b.row id <;> refine .inl ?_ <;> simp [bind_apply, hr]
  · rw [if_neg hupd]
    cases hr : b.row id with
    | none => exact .inl (by simp [bind_apply, hr])
    | some wsMeta => exact .inr ⟨wsMeta, rfl, by simp [bind_apply, hr]; rfl⟩

theorem updateWorkspace_apply {b : Backend} (hget : fails.db .getWorkspace = false)
    (hupd : fails.db .updateWorkspace = false) {wsMeta : WorkspaceMeta} (hrow : b.row id = some wsMeta)
    (status : Option WorkspaceStatus) (deletedPaths : Option (List Path)) :
    updateWorkspace fails id status deletedPaths b = (.ok (), withRow id (updatedRow status deletedPaths wsMeta) b) := by
  have hg : getWorkspace fails id b = (.ok wsMeta, b) := by
    unfold getWorkspace Backend.db
    rw [hget, bind_apply, if_neg (by decide), pure_apply]
    dsimp only
    rw [bind_apply, read_apply]
    dsimp only
    rw [hrow]
    rfl
  unfold updateWorkspace Backend.db
  rw [bind_of_ok hg, hupd]
  rfl

/-! ## Invariants -/

/-- The invariant survives every write to the tables but those to the rows of the workspaces. -/
structure Records (I : Backend → Prop) : Prop where
  events : ∀ b kind, I b → I (recorded kind b)
  scopes : ∀ b S, I b → I { b with scopes := S }
  issues : ∀ b S, I b → I { b with issues := S }
  versions : ∀ b l, I b → I { b with versions := l }
  head : ∀ b v, I b → I { b with head := v }

/-- And every write to the file store. -/
structure Survives (I : Backend → Prop) : Prop extends Records I where
  store : ∀ b S, I b → I { b with store := S }

/-- The keys that an upload to a workspace writes. -/
def UploadKey (id : PathId) (key : Text) : Prop := (∃ p, key = workspaceKey id p) ∨ ∃ hash, key = blobKey hash

/-- Or the writes of an upload only. -/
structure Uploadable (I : Backend → Prop) (id : PathId) : Prop extends Records I where
  file : ∀ b key c, UploadKey id key → I b → I { b with store := b.store.insert key c }

theorem Survives.uploadable (hI : Survives I) (id : PathId) : Uploadable I id :=
  ⟨hI.toRecords, fun b _ _ _ h => hI.store b _ h⟩

theorem keeps_db (c : DbCall) : Keeps I (Backend.db fails c) := by
  unfold Backend.db
  exact keeps_ite (keeps_fail _ _) (keeps_pure _ _)

theorem keeps_files (i : Nat) (op : StoreOp) : Keeps I (Backend.files fails i op) := by
  unfold Backend.files
  exact keeps_ite (keeps_fail _ _) (keeps_pure _ _)

theorem keeps_get (i : Nat) (key : Text) : Keeps I (Backend.get fails i key) := by
  refine (keeps_files i _).bind fun _ => (keeps_read _ _).bind fun o => ?_
  cases o
  · exact keeps_fail _ _
  · exact keeps_pure _ _

theorem keeps_list (i : Nat) (pre : Text) : Keeps I (Backend.list fails i pre) :=
  (keeps_files i _).bind fun _ => keeps_read _ _

theorem keeps_existing (i : Nat) (id : PathId) (path : Path) : Keeps I (existing fails i id path) :=
  ((keeps_get _ _).mapErr _).attempt.bind fun _ => ((keeps_get _ _).mapErr _).attempt.bind fun _ => keeps_pure _ _

theorem keeps_getWorkspace : Keeps I (getWorkspace fails id) := by
  refine (keeps_db _).bind fun _ => (keeps_read _ _).bind fun o => ?_
  cases o
  · exact keeps_fail _ _
  · exact keeps_pure _ _

theorem keeps_ignored {m : Proc Backend StorageError Unit} (h : Keeps I m) : Keeps I (ignored m) :=
  (h.mapErr _).attempt.bind fun _ => keeps_pure _ _

theorem keeps_updateWorkspace {status : Option WorkspaceStatus} {deletedPaths : Option (List Path)}
    (h : ∀ b wsMeta, b.row id = some wsMeta → I b → I (withRow id (updatedRow status deletedPaths wsMeta) b)) :
    Keeps I (updateWorkspace fails id status deletedPaths) := by
  intro b hb
  rcases @updateWorkspace_state fails id status deletedPaths b with he | ⟨wsMeta, hrow, he⟩
  · rw [he]
    exact hb
  · rw [he]
    exact h b wsMeta hrow hb

section Tables

variable (hI : Records I)

include hI

theorem keeps_record (kind : EventKind) : Keeps I (record fails kind) := by
  intro b hb
  rw [record_apply]
  split
  · exact hb
  · exact hI.events b kind hb

theorem keeps_append (kind : EventKind) : Keeps I (Backend.append fails kind) :=
  (keeps_db _).bind fun _ b hb => hI.events b kind hb

theorem keeps_createVersion (v : VersionMeta) : Keeps I (createVersion fails v) := by
  refine (keeps_db _).bind fun _ => (keeps_read _ _).bind fun _ => keeps_ite (keeps_fail _ _) ?_
  exact (keeps_read _ _).bind fun _ => keeps_ite (keeps_fail _ _) (keeps_modify fun b h => hI.versions b _ h)

theorem keeps_advanceHead (v : Text) : Keeps I (advanceHead fails v) :=
  (keeps_db _).bind fun _ => keeps_modify fun b h => hI.head b _ h

theorem keeps_removeScope : Keeps I (modify (removeScope id) : Proc Backend ApiError Unit) :=
  keeps_modify fun b h => hI.scopes b _ h

theorem keeps_rescope (id : PathId) (wsMeta : WorkspaceMeta) : Keeps I (rescope fails id wsMeta) :=
  ((keeps_list _ _).mapErr _).attempt.bind fun _ => keeps_modify fun b h => hI.scopes b _ h

theorem keeps_noteDeleted (merged : List Path) (path : Path) : Keeps I (noteDeleted fails id merged path) :=
  (keeps_record hI _).bind fun _ => keeps_pure _ _

theorem keeps_deletePath (merged : List Path) (raw : Text) : Keeps I (deletePath fails id merged raw) := by
  unfold deletePath
  split
  · exact keeps_fail _ _
  · exact keeps_noteDeleted hI _ _

end Tables

section Uploads

variable {id : PathId} (hI : Uploadable I id)

include hI

/-! ## Uploads -/

theorem keeps_put {key : Text} (hkey : UploadKey id key) (i : Nat) (content : Bytes) : Keeps I (put fails i key content) :=
  (keeps_files i _).bind fun _ => keeps_modify fun b h => hI.file b key content hkey h

theorem keeps_putFile (i : Nat) (p : Path) (content : Bytes) : Keeps I (put fails i (workspaceKey id p) content) :=
  keeps_put hI (.inl ⟨p, rfl⟩) i content

theorem keeps_putBlob (i : Nat) (hash : Text) (content : Bytes) : Keeps I (put fails i (blobKey hash) content) :=
  keeps_put hI (.inr ⟨hash, rfl⟩) i content

theorem keeps_storeFile (i : Nat) (path : Path) (content : Bytes) : Keeps I (storeFile env fails i id path content) := by
  refine (keeps_existing _ _ _).bind fun old => ((keeps_putFile hI _ _ _).mapErr _).bind fun _ =>
    (keeps_ignored (keeps_putBlob hI _ _ _)).bind fun _ => ?_
  cases old
  · exact keeps_record hI.toRecords _
  · exact (keeps_ignored (keeps_putBlob hI _ _ _)).bind fun _ => keeps_record hI.toRecords _

theorem keeps_uploadFile (uploaded : List Path) (entry : FileEntry × Nat) :
    Keeps I (uploadFile env fails codecs id uploaded entry) :=
  (keeps_ofExcept _ _ _).bind fun _ => (keeps_storeFile hI _ _ _).bind fun _ => keeps_pure _ _

theorem keeps_uploadEntry (current : FMap Path Text) (files : FMap Path Bytes) (tally : Tally) (q : Path × Nat) :
    Keeps I (uploadEntry env fails id current files tally q) := by
  have hstored : ∀ c kind (t : Tally), Keeps I (do
      mapErr (fun _ => ApiError.internal) (put fails q.2 (workspaceKey id q.1) c)
      ignored (put fails q.2 (blobKey (env.sha256Hex c)) c)
      record fails kind
      pure t) := fun c kind t =>
    ((keeps_putFile hI _ _ _).mapErr _).bind fun _ => (keeps_ignored (keeps_putBlob hI _ _ _)).bind fun _ =>
      (keeps_record hI.toRecords _).bind fun _ => keeps_pure _ _
  unfold uploadEntry
  cases files.get q.1 with
  | none => exact keeps_pure _ _
  | some c =>
    dsimp only
    cases current.get q.1 with
    | none => exact hstored _ _ _
    | some _ => exact keeps_ite (keeps_pure _ _) (hstored _ _ _)

end Uploads

theorem keeps_currentMap : Keeps I (currentMap env fails) := by
  refine ((keeps_list _ _).mapErr _).attempt.bind fun r => ?_
  cases r
  · exact keeps_pure _ _
  · exact keeps_pure _ _

/-- The last step of an upload: a row that is as it was read gets a new status only from `created`. -/
theorem keeps_finishUpload {wsMeta : WorkspaceMeta} {touched : Bool} {merged : List Path}
    (h : ∀ b m status deletedPaths, b.row wsMeta.id = some m →
      (status = none ∨ wsMeta.status = .created ∧ status = some .active) →
      (deletedPaths = none ∨ deletedPaths = some merged) → I b →
      I (withRow wsMeta.id (updatedRow status deletedPaths m) b)) : Keeps I (finishUpload fails wsMeta touched merged) := by
  unfold finishUpload
  apply keeps_ite
  · apply keeps_ignored
    refine keeps_updateWorkspace fun b m hrow hb => h b m _ _ hrow ?_ ?_ hb
    · by_cases hc : wsMeta.status = .created ∧ touched = true
      · rw [if_pos hc]
        exact .inr ⟨hc.1, rfl⟩
      · rw [if_neg hc]
        exact .inl rfl
    · by_cases hc : merged ≠ wsMeta.deletedPaths
      · rw [if_pos hc]
        exact .inr rfl
      · rw [if_neg hc]
        exact .inl rfl
  · exact keeps_pure _ _

/-! ## Rows that are made and closed -/

theorem keeps_create (hrecord : ∀ i s v, Keeps I (record fails (.workspaceCreated i s v))) {newId : Uuid} {intent : Text}
    (hrow : ∀ b v, b.workspaces.get newId = none → I b → I (withRow newId ⟨newId, intent, v, .created, []⟩ b)) :
    Keeps I (createWorkspaceHandler fails newId intent) := by
  refine Keeps.bind (Keeps.attempt (Keeps.mapErr ((keeps_db _).bind fun _ => keeps_read _ _) _)) fun head => ?_
  refine Keeps.bind (Keeps.mapErr ((keeps_db _).bind fun _ => ?_) _) fun ws =>
    (hrecord _ _ _).bind fun _ => keeps_pure _ _
  rw [keeps_iff_ends]
  intro b hb
  apply ends_bind_of_ok (read_apply _ b)
  cases hr : b.workspaces.get newId with
  | some m => exact ends_fail hb
  | none => exact ends_bind_of_ok (modify_apply _ b) (keeps_getWorkspace.ends (hrow b _ hr hb))

theorem discardWorkspace_apply (id : Uuid) (b : Backend) : Backend.discardWorkspace fails id b =
    if fails.db .discardWorkspace then (.error (.database []), b)
    else (.ok (), match b.workspaces.get id with
      | some wsMeta => withRow id { wsMeta with status := .discarded } b
      | none => b) := by
  unfold Backend.discardWorkspace Backend.db
  by_cases h : fails.db .discardWorkspace = true
  · rw [if_pos h, if_pos h]
    rfl
  · rw [if_neg h, if_neg h]
    rfl

theorem keeps_discardWorkspace (hrow : ∀ b m, b.workspaces.get id = some m → I b →
    I (withRow id { m with status := .discarded } b)) : Keeps I (Backend.discardWorkspace fails id) := by
  intro b hb
  rw [discardWorkspace_apply]
  split
  · exact hb
  · show I (match b.workspaces.get id with
      | some wsMeta => withRow id { wsMeta with status := .discarded } b
      | none => b)
    cases hr : b.workspaces.get id with
    | none => exact hb
    | some m => exact hrow b m hr hb

/-! ## Submits -/

theorem keeps_escalate (hI : Records I) (newId : Uuid) (wsMeta : WorkspaceMeta) (count : Nat)
    (conflicts : List ConflictRecord) : Keeps I (escalate fails newId wsMeta count conflicts) := by
  refine ((keeps_db _).mapErr _).attempt.bind fun r => ?_
  cases r
  · exact keeps_pure _ _
  · exact keeps_record hI _

theorem keeps_cascade (hI : Records I) (hdiscard : Keeps I (Backend.discardWorkspace fails id)) (reason : Text) :
    Keeps I (cascadeWorkspaceTeardown fails id reason) := by
  refine (hdiscard.mapErr _).attempt.bind fun r => ?_
  cases r
  · exact keeps_pure _ _
  · exact (keeps_removeScope hI).bind fun _ => keeps_record hI _

/-- The records of a merge before the row is closed. -/
def recordVersion (fails : Fails) (wsMeta : WorkspaceMeta) (result : SubmitResult) : Proc Backend ApiError PUnit := do
  modify (removeScope wsMeta.id)
  let stored ← attempt (mapErr ApiError.ofStorage (Backend.append fails
    (.mergeCompleted wsMeta.id result.version.versionId result.autoResolved)))
  wsMeta.deletedPaths.forM (fun path => record fails (.fileRemoved wsMeta.id path))
  ignored (createVersion fails { result.version with mergeEventId := mergeEventId stored result })
  ignored (advanceHead fails result.version.versionId)

theorem recordMerge_eq (wsMeta : WorkspaceMeta) (result : SubmitResult) : recordMerge fails wsMeta result = (do
    recordVersion fails wsMeta result
    ignored (updateWorkspace fails wsMeta.id (some .merged) none)
    record fails (.workspaceSubmitted wsMeta.id (summaryOf result))) := by
  unfold recordMerge recordVersion
  simp only [bind_assoc]

/-- The backend after events that the database takes or not. -/
def recordedAll (fails : Fails) (kinds : List EventKind) (b : Backend) : Backend :=
  kinds.foldl (fun b kind => if fails.db (.append kind) then b else recorded kind b) b

theorem forM_record (fails : Fails) (f : Path → EventKind) : ∀ (l : List Path) (b : Backend),
    (l.forM (fun p => record fails (f p)) : Proc Backend ApiError PUnit) b = (.ok ⟨⟩, recordedAll fails (l.map f) b)
  | [], b => rfl
  | p :: l, b => by
    show (record fails (f p) >>= fun _ => l.forM (fun p => record fails (f p))) b = _
    rw [bind_apply, record_apply]
    exact forM_record fails f l _

/-- The backend with the version of a merge on record. -/
def versioned (fails : Fails) (wsMeta : WorkspaceMeta) (result : SubmitResult) (b : Backend) : Backend :=
  (recordVersion fails wsMeta result b).2

theorem recordVersion_apply (wsMeta : WorkspaceMeta) (result : SubmitResult) (b : Backend) :
    recordVersion fails wsMeta result b = (.ok ⟨⟩, versioned fails wsMeta result b) := by
  unfold versioned recordVersion
  rw [bind_apply, modify_apply]
  dsimp only
  rw [bind_apply, attempt_apply]
  dsimp only
  rw [bind_apply, forM_record]
  rfl

/-- The backend with the row of the workspace closed and the event of the submit. -/
def concluded (fails : Fails) (wsMeta : WorkspaceMeta) (result : SubmitResult) (b : Backend) : Backend :=
  (record fails (.workspaceSubmitted wsMeta.id (summaryOf result))
    (updateWorkspace fails wsMeta.id (some .merged) none b).2).2

theorem recordMerge_apply (wsMeta : WorkspaceMeta) (result : SubmitResult) (b : Backend) :
    recordMerge fails wsMeta result b = (.ok ⟨⟩, concluded fails wsMeta result (versioned fails wsMeta result b)) := by
  rw [recordMerge_eq, bind_apply, recordVersion_apply]
  dsimp only
  rw [bind_apply, ignored_apply]
  dsimp only
  unfold concluded
  rw [record_apply]

theorem keeps_versioned (hI : Records I) (wsMeta : WorkspaceMeta) (result : SubmitResult) {b : Backend} (hb : I b) :
    I (versioned fails wsMeta result b) := by
  have hk : Keeps I (recordVersion fails wsMeta result) :=
    (keeps_removeScope hI).bind fun _ => ((keeps_append hI _).mapErr _).attempt.bind fun _ =>
      (keeps_forM (fun _ => keeps_record hI _) _).bind fun _ => (keeps_ignored (keeps_createVersion hI _)).bind fun _ =>
        keeps_ignored (keeps_advanceHead hI _)
  exact hk b hb

theorem keeps_concluded (hI : Records I) {wsMeta : WorkspaceMeta} (result : SubmitResult) {b : Backend} (hb : I b)
    (hrow : ∀ b m, b.row wsMeta.id = some m → I b → I (withRow wsMeta.id (updatedRow (some .merged) none m) b)) :
    I (concluded fails wsMeta result b) :=
  keeps_record hI _ _ (keeps_updateWorkspace hrow b hb)

theorem recordMerge_store (wsMeta : WorkspaceMeta) (result : SubmitResult) (b : Backend) :
    (recordMerge fails wsMeta result b).2.store = b.store := by
  have hI : Records (fun b' => b'.store = b.store) :=
    ⟨fun _ _ h => h, fun _ _ h => h, fun _ _ h => h, fun _ _ h => h, fun _ _ h => h⟩
  rw [recordMerge_apply]
  exact keeps_concluded hI result (keeps_versioned hI wsMeta result rfl) fun _ _ _ h => h

end Handlers
end Vai
