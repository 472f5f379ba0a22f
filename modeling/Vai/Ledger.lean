import Vai.UploadSpec
import Vai.Pull
import Vai.Replay
/-!
# Ledger — files and their events

Every file of a workspace and every deletion in its row has an event, and every event of a stored file its blob.  This
holds after every request (`handle_moves`), rejected ones included, as long as no call fails.
-/
namespace Vai
namespace Handlers

open Proc Backend Replay

variable {env : Env} {fails : Fails} {codecs : Codecs} {id : PathId} {b b' b₀ : Backend}

/-! ## The logs -/

/-- What a file event says: whose it is, the path, and the hash of what is there now. -/
def entryOf (e : Event) : Option (LogEntry Uuid Path (Option Text)) :=
  match e.kind with
  | .fileAdded w p hash => some ⟨w, p, some hash⟩
  | .fileModified w p _ hash => some ⟨w, p, some hash⟩
  | .fileRemoved w p => some ⟨w, p, none⟩
  | _ => none

def fileLog (b : Backend) : List (LogEntry Uuid Path (Option Text)) := b.events.filterMap entryOf

def isMerge : EventKind → Bool
  | .mergeCompleted .. => true
  | _ => false

def mergeLog (b : Backend) : List Event := b.events.filter (fun e => isMerge e.kind)

theorem eventType_eq_merge (kind : EventKind) : kind.eventType = "MergeCompleted".toList ↔ isMerge kind = true := by
  unfold EventKind.eventType isMerge
  cases kind <;> simp only [String.toList_inj, String.reduceEq, Bool.false_eq_true]

theorem eventType_mem_files (e : Event) : e.kind.eventType ∈ fileEventTypes ↔ (entryOf e).isSome = true := by
  unfold EventKind.eventType fileEventTypes entryOf
  cases e.kind <;> simp only [List.mem_cons, String.toList_inj, String.reduceEq, List.not_mem_nil, or_false, or_true,
    Option.isSome_some, Option.isSome_none, Bool.false_eq_true]

/-- The deletions in the row of a workspace. -/
def deleted (b : Backend) (i : Uuid) : List Path := ((b.row i).map WorkspaceMeta.deletedPaths).getD []

/-- The ids of the events grow, and the next one is larger than all of them. -/
structure Numbered (b : Backend) : Prop where
  sorted : b.events.Pairwise (fun e f => e.id < f.id)
  bound : ∀ e ∈ b.events, 0 < e.id ∧ e.id < b.nextEvent
  pos : 0 < b.nextEvent

theorem numbered_fresh : Numbered fresh := ⟨.nil, fun _ h => absurd h List.not_mem_nil, Nat.one_pos⟩

theorem survives_numbered : Survives Numbered where
  store _ _ h := ⟨h.sorted, h.bound, h.pos⟩
  events b kind h := by
    refine ⟨List.pairwise_append.2 ⟨h.sorted, List.pairwise_singleton _ _, fun e he f hf => ?_⟩, fun e he => ?_,
      Nat.succ_pos _⟩
    · rw [List.mem_singleton.1 hf]
      exact (h.bound e he).2
    · show 0 < e.id ∧ e.id < b.nextEvent + 1
      rcases List.mem_append.1 he with he | he
      · exact ⟨(h.bound e he).1, Nat.lt_succ_of_lt (h.bound e he).2⟩
      · rw [List.mem_singleton.1 he]
        exact ⟨h.pos, Nat.lt_succ_self _⟩
  scopes _ _ h := ⟨h.sorted, h.bound, h.pos⟩
  issues _ _ h := ⟨h.sorted, h.bound, h.pos⟩
  versions _ _ h := ⟨h.sorted, h.bound, h.pos⟩
  head _ _ h := ⟨h.sorted, h.bound, h.pos⟩

/-! ## Requests that touch no file -/

/-- Nothing has changed of what the history of the files is read from. -/
structure Quiet (b b' : Backend) : Prop where
  store : b'.store = b.store
  versions : b'.versions = b.versions
  head : b'.head = b.head
  fileLog : fileLog b' = fileLog b
  mergeLog : mergeLog b' = mergeLog b
  deleted : ∀ i, deleted b' i = deleted b i

theorem quiet_refl (b : Backend) : Quiet b b := ⟨rfl, rfl, rfl, rfl, rfl, fun _ => rfl⟩

theorem Quiet.current (h : Quiet b b') (p : Path) : b'.current p = b.current p :=
  congrArg (FMap.get · (currentKey p)) h.store

/-- An event that is neither of a file nor of a merge. -/
def Aside (kind : EventKind) : Prop := (∀ i, entryOf ⟨i, kind⟩ = none) ∧ isMerge kind = false

theorem fileLog_recorded (kind : EventKind) (b : Backend) :
    fileLog (recorded kind b) = fileLog b ++ (entryOf ⟨b.nextEvent, kind⟩).toList := by
  unfold fileLog recorded
  rw [List.filterMap_append]
  cases h : entryOf ⟨b.nextEvent, kind⟩ <;> simp [h]

theorem mergeLog_recorded (kind : EventKind) (b : Backend) :
    mergeLog (recorded kind b) = mergeLog b ++ if isMerge kind then [⟨b.nextEvent, kind⟩] else [] := by
  unfold mergeLog recorded
  rw [List.filter_append, List.filter_singleton]
  cases isMerge kind <;> rfl

theorem Quiet.recorded {kind : EventKind} (h : Quiet b₀ b) (hk : Aside kind) : Quiet b₀ (recorded kind b) := by
  refine ⟨h.store, h.versions, h.head, ?_, ?_, h.deleted⟩
  · rw [fileLog_recorded, hk.1, Option.toList_none, List.append_nil, h.fileLog]
  · rw [mergeLog_recorded, hk.2, h.mergeLog]
    exact List.append_nil _

theorem Quiet.withRow {id : Uuid} {wsMeta : WorkspaceMeta} (h : Quiet b₀ b) (hd : wsMeta.deletedPaths = Handlers.deleted b id) :
    Quiet b₀ (withRow id wsMeta b) := by
  refine ⟨h.store, h.versions, h.head, h.fileLog, h.mergeLog, fun i => ?_⟩
  refine Eq.trans ?_ (h.deleted i)
  by_cases hi : i = id
  · rw [hi, ← hd]
    unfold Handlers.deleted
    rw [row_withRow, if_pos rfl]
    rfl
  · unfold Handlers.deleted
    rw [row_withRow, if_neg hi]

theorem quiet_record {kind : EventKind} (hk : Aside kind) : Keeps (Quiet b₀) (record fails kind) := by
  intro b hb
  rw [record_apply]
  split
  · exact hb
  · exact hb.recorded hk

theorem quiet_discardWorkspace {id : Uuid} : Keeps (Quiet b₀) (Backend.discardWorkspace fails id) := by
  refine keeps_discardWorkspace fun b m hr hb => hb.withRow ?_
  unfold deleted Backend.row
  rw [hr]
  rfl

theorem quiet_removeScope {id : Uuid} : Keeps (Quiet b₀) (modify (removeScope id) : Proc Backend ApiError Unit) :=
  keeps_modify fun _ h => ⟨h.store, h.versions, h.head, h.fileLog, h.mergeLog, h.deleted⟩

theorem quiet_create (newId : Uuid) (intent : Text) : Keeps (Quiet b₀) (createWorkspaceHandler fails newId intent) := by
  refine keeps_create (fun _ _ _ => quiet_record ⟨fun _ => rfl, rfl⟩) fun b v hr hb => hb.withRow ?_
  unfold deleted Backend.row
  rw [hr]
  rfl

theorem quiet_issues (b : Backend) (S : FMap Uuid IssueStatus) (h : Quiet b₀ b) : Quiet b₀ { b with issues := S } :=
  ⟨h.store, h.versions, h.head, h.fileLog, h.mergeLog, h.deleted⟩

theorem quiet_discard {id : Uuid} : Keeps (Quiet b₀) (discardWorkspaceHandler fails id) :=
  (keeps_getWorkspace.mapErr _).bind fun _ => (quiet_discardWorkspace.mapErr _).bind fun _ =>
    quiet_removeScope.bind fun _ => (keeps_reopenIssue quiet_issues).bind fun _ => quiet_record ⟨fun _ => rfl, rfl⟩

theorem quiet_cascade {id : Uuid} (reason : Text) : Keeps (Quiet b₀) (cascadeWorkspaceTeardown fails id reason) := by
  refine (quiet_discardWorkspace.mapErr _).attempt.bind fun r => ?_
  cases r with
  | error _ => exact keeps_pure _ _
  | ok _ => exact quiet_removeScope.bind fun _ => quiet_record ⟨fun _ => rfl, rfl⟩

theorem quiet_escalate (newId : Uuid) (wsMeta : WorkspaceMeta) (count : Nat) (conflicts : List ConflictRecord) :
    Keeps (Quiet b₀) (escalate fails newId wsMeta count conflicts) := by
  refine ((keeps_db _).mapErr _).attempt.bind fun r => ?_
  cases r with
  | error _ => exact keeps_pure _ _
  | ok _ => exact quiet_record ⟨fun _ => rfl, rfl⟩

theorem quiet_concluded (wsMeta : WorkspaceMeta) (result : SubmitResult) (b : Backend) :
    Quiet b (concluded fails wsMeta result b) := by
  refine quiet_record ⟨fun _ => rfl, rfl⟩ _ (keeps_updateWorkspace (fun b₁ m hrow h => h.withRow ?_) b (quiet_refl b))
  unfold deleted
  rw [hrow]
  rfl

theorem denied_quiet {newId : Uuid} (h : Denied env Fails.none newId id b b') : Quiet b b' := by
  cases h with
  | unread _ => exact quiet_refl b
  | closed _ => exact quiet_cascade _ b (quiet_refl b)
  | refused _ hrow hm => rw [mergeOverStore_error hm]; exact quiet_refl b
  | escalated _ hrow hm n cs => rw [mergeOverStore_error hm]; exact quiet_escalate _ _ _ _ b (quiet_refl b)

/-! ## The ledger -/

/-- Files and deletions are in the log, and what the log says was stored is in the store. -/
structure Ledger (env : Env) (b : Backend) : Prop where
  written : ∀ (i : PathId) p, (b.overlay i p).isSome → ∃ hash, ⟨i, p, some hash⟩ ∈ fileLog b
  present : ∀ i p hash, ⟨i, p, some hash⟩ ∈ fileLog b → ∃ j : PathId, j.uuid = i ∧ (b.overlay j p).isSome
  removed : ∀ i p, p ∈ deleted b i → ⟨i, p, none⟩ ∈ fileLog b
  blobs : ∀ i p hash, ⟨i, p, some hash⟩ ∈ fileLog b → ∃ c, b.blob hash = some c ∧ env.sha256Hex c = hash

theorem ledger_fresh (env : Env) : Ledger env fresh where
  written _ _ h := by cases h
  present _ _ _ h := by cases h
  removed _ _ h := by cases h
  blobs _ _ _ h := by cases h

theorem Ledger.quiet (h : Ledger env b) (hq : Quiet b b') : Ledger env b' := by
  have hov : ∀ i p, b'.overlay i p = b.overlay i p := fun i p => congrArg (FMap.get · (workspaceKey i p)) hq.store
  have hbl : ∀ hash, b'.blob hash = b.blob hash := fun hash => congrArg (FMap.get · (blobKey hash)) hq.store
  constructor
  · intro i p hp
    rw [hov] at hp
    rw [hq.fileLog]
    exact h.written i p hp
  · intro i p hash hp
    rw [hq.fileLog] at hp
    simp only [hov]
    exact h.present i p hash hp
  · intro i p hp
    rw [hq.deleted] at hp
    rw [hq.fileLog]
    exact h.removed i p hp
  · intro i p hash hp
    rw [hq.fileLog] at hp
    rw [hbl]
    exact h.blobs i p hash hp

/-! ## Uploads -/

/-- What an upload to `id` leaves alone. -/
structure Uploaded (id : PathId) (b b' : Backend) : Prop where
  current : ∀ p, b'.current p = b.current p
  overlay : ∀ i p, i ≠ id → b'.overlay i p = b.overlay i p
  versions : b'.versions = b.versions
  head : b'.head = b.head
  fileLog : ∃ l, fileLog b' = fileLog b ++ l ∧ ∀ e ∈ l, e.owner = id
  mergeLog : mergeLog b' = mergeLog b
  deleted : ∀ i : Uuid, i ≠ id.uuid → deleted b' i = deleted b i

theorem uploaded_refl (id : PathId) (b : Backend) : Uploaded id b b :=
  ⟨fun _ => rfl, fun _ _ _ => rfl, rfl, rfl, ⟨[], (List.append_nil _).symm, fun _ h => absurd h List.not_mem_nil⟩, rfl,
    fun _ _ => rfl⟩

/-- The invariant of an upload to `id`, and the row it has read. -/
structure Uploading (env : Env) (id : PathId) (b₀ b : Backend) : Prop where
  ledger : Ledger env b
  uploaded : Uploaded id b₀ b
  workspaces : b.workspaces = b₀.workspaces

theorem Uploading.row (h : Uploading env id b₀ b) (i : Uuid) : b.row i = b₀.row i := by
  unfold Backend.row
  rw [h.workspaces]

theorem Uploading.wrote {p : Path} {c : Bytes} (h : Uploading env id b₀ b) (hw : Wrote env id p c b b') :
    Uploading env id b₀ b' := by
  obtain ⟨kind, hk, hev⟩ := hw.event
  have hentry : entryOf ⟨b.nextEvent, kind⟩ = some ⟨id, p, some (env.sha256Hex c)⟩ := by
    rcases hk with rfl | ⟨old, rfl⟩ <;> rfl
  have hmerge : isMerge kind = false := by rcases hk with rfl | ⟨old, rfl⟩ <;> rfl
  have hlog : fileLog b' = fileLog b ++ [⟨id, p, some (env.sha256Hex c)⟩] := by
    unfold fileLog
    rw [hev, List.filterMap_append, List.filterMap_cons, hentry]
    rfl
  have hdel : ∀ i, deleted b' i = deleted b i := fun i => by
    unfold deleted Backend.row
    rw [hw.workspaces]
  refine ⟨?_, ?_, hw.workspaces.trans h.workspaces⟩
  · constructor
    · intro i q hq
      rw [hw.overlay] at hq
      rw [hlog]
      by_cases hi : i = id ∧ q = p
      · exact ⟨_, List.mem_append_right _ (List.mem_singleton.2 (by rw [hi.1, hi.2]))⟩
      · rw [if_neg hi] at hq
        obtain ⟨hash, hm⟩ := h.ledger.written i q hq
        exact ⟨hash, List.mem_append_left _ hm⟩
    · intro i q hash hm
      rw [hlog] at hm
      simp only [hw.overlay]
      rcases List.mem_append.1 hm with hm | hm
      · obtain ⟨j, hj, hov⟩ := h.ledger.present i q hash hm
        refine ⟨j, hj, ?_⟩
        split
        · rfl
        · exact hov
      · cases List.mem_singleton.1 hm
        exact ⟨id, rfl, by rw [if_pos ⟨rfl, rfl⟩]; rfl⟩
    · intro i q hq
      rw [hdel] at hq
      rw [hlog]
      exact List.mem_append_left _ (h.ledger.removed i q hq)
    · intro i q hash hm
      rw [hlog] at hm
      have hold : ∀ hash, (∃ c', b.blob hash = some c' ∧ env.sha256Hex c' = hash) →
          ∃ c', b'.blob hash = some c' ∧ env.sha256Hex c' = hash := by
        rintro hash ⟨c', hc', hs⟩
        rcases hw.blob hash with he | he
        · exact ⟨c', he.trans hc', hs⟩
        · exact he
      rcases List.mem_append.1 hm with hm | hm
      · exact hold hash (h.ledger.blobs i q hash hm)
      · cases List.mem_singleton.1 hm
        exact hw.blobs
  · obtain ⟨l, hl, hown⟩ := h.uploaded.fileLog
    refine ⟨fun q => (hw.current q).trans (h.uploaded.current q), fun i q hi => ?_, hw.versions.trans h.uploaded.versions,
      hw.head.trans h.uploaded.head, ⟨l ++ [⟨id, p, some (env.sha256Hex c)⟩], ?_, fun e he => ?_⟩, ?_, fun i hi => ?_⟩
    · rw [hw.overlay, if_neg (fun h => hi h.1)]
      exact h.uploaded.overlay i q hi
    · rw [hlog, hl, List.append_assoc]
    · rcases List.mem_append.1 he with he | he
      · exact hown e he
      · rw [List.mem_singleton.1 he]
    · refine Eq.trans ?_ h.uploaded.mergeLog
      unfold mergeLog
      rw [hev, List.filter_append]
      simp [hmerge]
    · rw [hdel]
      exact h.uploaded.deleted i hi

theorem Uploading.noted {p : Path} (h : Uploading env id b₀ b) : Uploading env id b₀ (recorded (.fileRemoved id p) b) := by
  have hlog : fileLog (recorded (.fileRemoved id p) b) = fileLog b ++ [⟨id, p, none⟩] := fileLog_recorded _ _
  have hmem : ∀ i q (hash : Text), ⟨i, q, some hash⟩ ∈ fileLog b ++ [⟨id, p, none⟩] → ⟨i, q, some hash⟩ ∈ fileLog b := by
    intro i q hash hm
    rcases List.mem_append.1 hm with hm | hm
    · exact hm
    · cases List.mem_singleton.1 hm
  refine ⟨⟨fun i q hq => ?_, fun i q hash hm => ?_, fun i q hq => ?_, fun i q hash hm => ?_⟩, ?_, h.workspaces⟩
  · obtain ⟨hash, hm⟩ := h.ledger.written i q hq
    exact ⟨hash, by rw [hlog]; exact List.mem_append_left _ hm⟩
  · rw [hlog] at hm
    exact h.ledger.present i q hash (hmem i q hash hm)
  · rw [hlog]
    exact List.mem_append_left _ (h.ledger.removed i q hq)
  · rw [hlog] at hm
    exact h.ledger.blobs i q hash (hmem i q hash hm)
  · obtain ⟨l, hl, hown⟩ := h.uploaded.fileLog
    refine ⟨h.uploaded.current, h.uploaded.overlay, h.uploaded.versions, h.uploaded.head,
      ⟨l ++ [⟨id, p, none⟩], by rw [hlog, hl, List.append_assoc], fun e he => ?_⟩, ?_, h.uploaded.deleted⟩
    · rcases List.mem_append.1 he with he | he
      · exact hown e he
      · rw [List.mem_singleton.1 he]
    · rw [mergeLog_recorded]
      exact (List.append_nil _).trans h.uploaded.mergeLog

/-- Every path of the list has an event of its deletion. -/
def Noted (id : Uuid) (merged : List Path) (b : Backend) : Prop := ∀ p ∈ merged, ⟨id, p, none⟩ ∈ fileLog b

theorem Uploading.finished {wsMeta : WorkspaceMeta} {merged : List Path} (h : Uploading env id b₀ b)
    (hid : wsMeta.id = id.uuid) (hn : Noted id merged b) (hf : Finished wsMeta merged b b') : Ledger env b' ∧ Uploaded id b₀ b' := by
  obtain ⟨⟨rows, hrest⟩, hother, status, hrow⟩ := hf
  rw [hid] at hother hrow
  have hdel : ∀ i, i ≠ id.uuid → deleted b' i = deleted b i := fun i hi => by
    unfold deleted
    rw [hother i hi]
  have hown : deleted b' id = merged := by
    unfold deleted
    rw [hrow]
    rfl
  have hlog : fileLog b' = fileLog b := by rw [hrest]; rfl
  constructor
  · refine ⟨fun i p hp => ?_, fun i p hash hm => ?_, fun i p hp => ?_, fun i p hash hm => ?_⟩
    · rw [hlog]
      refine h.ledger.written i p ?_
      rw [hrest] at hp
      exact hp
    · rw [hlog] at hm
      rw [hrest]
      exact h.ledger.present i p hash hm
    · rw [hlog]
      by_cases hi : i = id.uuid
      · rw [hi, hown] at hp
        rw [hi]
        exact hn p hp
      · rw [hdel i hi] at hp
        exact h.ledger.removed i p hp
    · rw [hlog] at hm
      rw [hrest]
      exact h.ledger.blobs i p hash hm
  · have hu := h.uploaded
    refine ⟨?_, ?_, ?_, ?_, ?_, ?_, fun i hi => (hdel i hi).trans (hu.deleted i hi)⟩
    · rw [hrest]
      exact hu.current
    · rw [hrest]
      exact hu.overlay
    · rw [hrest]
      exact hu.versions
    · rw [hrest]
      exact hu.head
    · rw [hlog]
      exact hu.fileLog
    · rw [hrest]
      exact hu.mergeLog

theorem noteDeleted_uploading (merged : List Path) (p : Path) (h : Uploading env id b₀ b) (hn : Noted id merged b)
    {i : Uuid} (hi : i = id.uuid) {E : ApiError → Backend → Prop} : Ends (noteDeleted Fails.none i merged p) b
      (fun merged' b' => Uploading env id b₀ b' ∧ Noted id merged' b') E := by
  rw [hi]
  unfold Ends
  rw [noteDeleted_apply]
  refine ⟨h.noted, fun q hq => ?_⟩
  rw [fileLog_recorded]
  have hcase : q ∈ merged ∨ q = p := by
    split at hq
    · exact .inl hq
    · exact (List.mem_append.1 hq).imp_right List.mem_singleton.1
  rcases hcase with hq | rfl
  · exact List.mem_append_left _ (hn q hq)
  · exact List.mem_append_right _ (List.mem_singleton.2 rfl)

theorem deletions_finished {wsMeta : WorkspaceMeta} {α β : Type} (step : List Path → β → Proc Backend ApiError (List Path))
    (hstep : ∀ merged a b, Uploading env id b₀ b → Noted id merged b → Ends (step merged a) b
      (fun merged' b' => Uploading env id b₀ b' ∧ Noted id merged' b') (fun _ b' => Uploading env id b₀ b'))
    (l : List β) (touched : Bool) (answer : α) (h : Uploading env id b₀ b)
    (hrow : b₀.row id = some wsMeta) : Ends (do
      let merged ← l.foldlM step wsMeta.deletedPaths
      finishUpload Fails.none wsMeta touched merged
      pure answer) b (fun _ b' => Ledger env b' ∧ Uploaded id b₀ b')
      (fun _ b' => Ledger env b' ∧ Uploaded id b₀ b') := by
  have hn : Noted id wsMeta.deletedPaths b := by
    intro p hp
    refine h.ledger.removed id p ?_
    unfold deleted
    rw [h.row, hrow]
    exact hp
  refine (ends_foldlM (fun _ merged b => Uploading env id b₀ b ∧ Noted id merged b) l [] _ b ⟨h, hn⟩
    fun _ a _ merged b _ hJ => hstep merged a b hJ.1 hJ.2).bind (fun _ _ h => ⟨h.ledger, h.uploaded⟩) ?_
  rintro merged b₁ ⟨h₁, hn₁⟩
  obtain ⟨b₂, hrun, hfin⟩ := finishUpload_finished ((h₁.row _).trans (row_id hrow ▸ hrow)) touched merged
  exact ends_bind_of_ok hrun (ends_pure (h₁.finished (row_id hrow) hn₁ hfin))

/-- **An upload keeps the ledger and touches nothing but its workspace**, whether it is rejected or not. -/
theorem upload_ledger (hb : Ledger env b) (req : UploadRequest) : Ends (upload env Fails.none codecs id req) b
    (fun _ b' => Ledger env b' ∧ Uploaded id b b') (fun _ b' => Ledger env b' ∧ Uploaded id b b') := by
  have h₀ : Uploading env id b b := ⟨hb, uploaded_refl id b, rfl⟩
  cases req with
  | files body =>
    refine Ends.bind (R := fun _ b' => Ledger env b' ∧ Uploaded id b b') (F := fun _ b' => Ledger env b' ∧ Uploaded id b b')
      ?_ (fun _ _ h => h) fun _ _ h => ends_pure h
    unfold uploadWorkspaceFilesHandler
    refine ends_bind (ends_ofExcept (fun _ _ => ?_) fun _ _ => ⟨hb, h₀.uploaded⟩)
    refine (getWorkspace_ends id b).bind (fun _ b' h => by rw [h.1]; exact ⟨hb, h₀.uploaded⟩) ?_
    rintro wsMeta b₀ ⟨hrow, rfl⟩
    have hid := row_id hrow
    refine (ends_foldlM (E := fun _ b => Uploading env id b₀ b) (fun _ _ b => Uploading env id b₀ b) _ [] [] b₀
      h₀ fun _ entry _ uploaded b _ hJ => ?_).bind (fun _ _ h => ⟨h.ledger, h.uploaded⟩) fun uploaded b₁ h₁ => ?_
    · unfold uploadFile
      refine ends_bind (ends_ofExcept (fun q _ => ?_) fun _ _ => hJ)
      obtain ⟨b', hrun, hw⟩ := @storeFile_wrote env id q.1 q.2 entry.2 b
      exact ends_bind_of_ok hrun (ends_pure (hJ.wrote hw))
    · refine ends_bind_of_ok (rescope_apply id wsMeta b₁) (deletions_finished _ (fun merged raw b h hn => ?_) _ _ _ ?_ hrow)
      · unfold deletePath
        split
        · exact ends_fail h
        · exact noteDeleted_uploading merged _ h hn hid
      · exact ⟨h₁.ledger.quiet ⟨rfl, rfl, rfl, rfl, rfl, fun _ => rfl⟩, ⟨h₁.uploaded.current, h₁.uploaded.overlay,
          h₁.uploaded.versions, h₁.uploaded.head, h₁.uploaded.fileLog, h₁.uploaded.mergeLog, h₁.uploaded.deleted⟩,
          h₁.workspaces⟩
  | snapshot allow gz =>
    refine Ends.bind (R := fun _ b' => Ledger env b' ∧ Uploaded id b b') (F := fun _ b' => Ledger env b' ∧ Uploaded id b b')
      ?_ (fun _ _ h => h) fun _ _ h => ends_pure h
    unfold uploadSnapshotHandler
    split
    · exact ends_fail ⟨hb, h₀.uploaded⟩
    refine (getWorkspace_ends id b).bind (fun _ b' h => by rw [h.1]; exact ⟨hb, h₀.uploaded⟩) ?_
    rintro wsMeta b₀ ⟨hrow, rfl⟩
    have hid := row_id hrow
    refine ends_bind (ends_ofExcept (fun snapshot _ => ?_) fun _ _ => ⟨hb, h₀.uploaded⟩)
    apply ends_bind_of_ok (currentMap_apply b₀)
    rw [if_neg (by decide)]
    refine (ends_foldlM (E := fun _ _ => False) (fun _ _ b => Uploading env id b₀ b) _ [] _ b₀ h₀
      fun _ q _ tally b _ hJ => ?_).bind (fun _ _ h => h.elim) fun tally b₁ h₁ => ?_
    · obtain ⟨t, b', hrun, hcase⟩ := @uploadEntry_wrote env id _ snapshot.files tally q b
      unfold Ends
      rw [hrun]
      rcases hcase with ⟨-, rfl⟩ | ⟨c, -, -, hw⟩
      · exact hJ
      · exact hJ.wrote hw
    · dsimp only
      split
      · exact ends_fail ⟨h₁.ledger, h₁.uploaded⟩
      · exact deletions_finished _ (fun merged p b h hn => noteDeleted_uploading merged p h hn rfl) _ _ _ h₁ hrow

end Handlers
end Vai
