import Vai.UploadRejected
import Vai.Verdict
import Vai.Buffered
/-!
# HandlerSpec — the handlers when nothing fails

What a submit does to the server's tables and to its file store, as long as no call on them fails: the store gets the
tree of the merge and nothing else, and the tables the version, HEAD, the closed workspace and the events.
-/
namespace Vai
namespace Handlers

open Proc Backend

variable {env : Env} {codecs : Codecs} {id : PathId} {b b' : Backend} {wsMeta : WorkspaceMeta}

/-! ## Keys -/

theorem workspaceKey_injective {i j : PathId} {p q : Path} (h : workspaceKey i p = workspaceKey j q) : i = j ∧ p = q := by
  unfold workspaceKey workspacePrefix at h
  simp only [List.append_assoc] at h
  have h := List.append_cancel_left h
  have hi : Text.splitOnce '/' (i.text ++ '/' :: p) = some (i.text, p) := Text.splitOnce_append p i.slash_not_mem_text
  have hj : Text.splitOnce '/' (j.text ++ '/' :: q) = some (j.text, q) := Text.splitOnce_append q j.slash_not_mem_text
  have he : some (i.text, p) = some (j.text, q) := by
    rw [← hi, ← hj]
    exact congrArg _ h
  rw [Option.some.injEq, Prod.mk.injEq] at he
  exact ⟨PathId.ext_text he.1, he.2⟩

theorem workspaceKey_ne_currentKey (i : PathId) (p q : Path) : workspaceKey i p ≠ currentKey q := by
  unfold workspaceKey
  rw [workspacePrefix_cons]
  intro h
  cases h

theorem workspaceKey_ne_blobKey (i : PathId) (p : Path) (hash : Text) : workspaceKey i p ≠ blobKey hash := by
  unfold workspaceKey
  rw [workspacePrefix_cons]
  intro h
  cases h

theorem currentKey_ne_blobKey (p : Path) (hash : Text) : currentKey p ≠ blobKey hash := fun h => by cases h

theorem currentKey_injective {p q : Path} (h : currentKey p = currentKey q) : p = q := List.append_cancel_left h

theorem blobKey_injective {h h' : Text} (he : blobKey h = blobKey h') : h = h' := List.append_cancel_left he

theorem blobKey_ne_slot (id : PathId) (hash : Text) (k : Slot) : blobKey hash ≠ (configOf id).path k.place := by
  cases k with
  | overlay p => exact (workspaceKey_ne_blobKey id p hash).symm
  | base p => exact (currentKey_ne_blobKey p hash).symm
  | snapshot n p => exact fun h => by cases h

/-- Nor is a file of another workspace, or of the same under another spelling. -/
theorem workspaceKey_ne_slot {i id : PathId} (hi : i ≠ id) (p : Path) (k : Slot) :
    workspaceKey i p ≠ (configOf id).path k.place := by
  cases k with
  | overlay q => exact fun h => hi (workspaceKey_injective h).1
  | base q => exact workspaceKey_ne_currentKey i p q
  | snapshot n q =>
    unfold workspaceKey
    rw [workspacePrefix_cons]
    exact fun h => by cases h

/-! ## The merge -/

/-- The files that a merge of the workspace works on. -/
def filesIn (b : Backend) (id : PathId) : Files := S3.filesOf (configOf id) b.store

@[simp] theorem filesIn_base (b : Backend) (id : PathId) (p : Path) : filesIn b id (.base p) = b.current p := rfl
@[simp] theorem filesIn_overlay (b : Backend) (id : PathId) (p : Path) : filesIn b id (.overlay p) = b.overlay id p := rfl

/-- HEAD as the merge sees it. -/
def headOf (b : Backend) (wsMeta : WorkspaceMeta) : Text := b.head.getD wsMeta.baseVersion

/-- The tree that a submit of this row under this spelling of its id leaves. -/
def mergedTree (env : Env) (b : Backend) (id : PathId) (wsMeta : WorkspaceMeta) : Path → Option Bytes :=
  Merge.tree env wsMeta (filesIn b id) wsMeta.deletedPaths (setupTmpdirForS3Submit wsMeta (headOf b wsMeta))

/-- The merge goes through. -/
def MergeAccepted (env : Env) (b : Backend) (id : PathId) (wsMeta : WorkspaceMeta) : Prop :=
  Merge.Accepted env wsMeta (filesIn b id) wsMeta.deletedPaths (setupTmpdirForS3Submit wsMeta (headOf b wsMeta))

/-- The store after a merge: the tree, and the snapshot of what it replaced. -/
structure Stored (env : Env) (id : PathId) (wsMeta : WorkspaceMeta) (b : Backend) (S : FMap Text Bytes) : Prop where
  current : ∀ p, S.get (currentKey p) = mergedTree env b id wsMeta p
  overlay : ∀ i p, S.get (workspaceKey i p) = b.overlay i p
  blobs : ∀ hash, S.get (blobKey hash) = b.store.get (blobKey hash)

def nextVersion (head : Text) : Text := versionName (parseVersionNumber head + 1)

theorem stored_of_flushed {S : FMap Text Bytes} {n : Nat}
    (h : S3.Flushed (configOf id) b.store
      ((filesIn b id).submitted n wsMeta.deletedPaths (mergedTree env b id wsMeta)) S) : Stored env id wsMeta b S where
  current p := h.slots (.base p)
  overlay i p := by
    by_cases hi : i = id
    · subst i
      exact h.slots (.overlay p)
    · exact h.rest _ (workspaceKey_ne_slot hi p)
  blobs hash := h.rest _ (blobKey_ne_slot id hash)

/-- The files that a merge of this row leaves. -/
def submittedFiles (env : Env) (b : Backend) (id : PathId) (wsMeta : WorkspaceMeta) : Files :=
  (filesIn b id).submitted (parseVersionNumber (headOf b wsMeta) + 1) wsMeta.deletedPaths (mergedTree env b id wsMeta)

/-- **A merge over the store**: it stores the files of the merge, or is refused and stores nothing, or something has
failed; as long as no failure hides a stored file. -/
theorem mergeOverStore_flushes {fails : Fails} (id : PathId) (wsMeta : WorkspaceMeta) (hh : S3.Harmless fails.store b.store) :
    Ends (mergeOverStore env fails id wsMeta (headOf b wsMeta)) b
      (fun r b' => MergeAccepted env b id wsMeta ∧ r.version.versionId = nextVersion (headOf b wsMeta) ∧
        ∃ S, b' = { b with store := S } ∧ S3.Flushed (configOf id) b.store (submittedFiles env b id wsMeta) S)
      (fun _ b' => (S3.AnyFault fails.store ∨ env.Faulty) ∨ b' = b ∧ ¬ MergeAccepted env b id wsMeta) := by
  let w : World S3 := { fs := S3.new b.store, vai := setupTmpdirForS3Submit wsMeta (headOf b wsMeta), ops := 0 }
  have hspec := @S3.s3Submit_ends env fails.store (configOf id) b.store wsMeta w hh rfl
    (tmpdir_active wsMeta (headOf b wsMeta)) wsMeta.deletedPaths
  unfold Ends mergeOverStore
  dsimp only
  rcases hr : S3.s3Submit env fails.store (configOf id) wsMeta wsMeta.deletedPaths w with ⟨e | r, w'⟩
  · rcases hspec.error hr with hf | ⟨⟨L, hL, -⟩, href⟩
    · exact .inl hf
    · refine .inr ⟨?_, href.notAccepted⟩
      show { b with store := w'.fs.store } = b
      rw [hL.store]
  · obtain ⟨hacc, hfl, w₁, hmerged⟩ := hspec.ok hr
    have hmax : (setupTmpdirForS3Submit wsMeta (headOf b wsMeta)).maxVersion = parseVersionNumber (headOf b wsMeta) :=
      Merge.tmpdir_maxVersion _ _
    refine ⟨hacc, ?_, _, rfl, ?_⟩
    · rw [hmerged.version]
      show versionName ((setupTmpdirForS3Submit wsMeta (headOf b wsMeta)).maxVersion + 1) = _
      rw [hmax]
      rfl
    · unfold submittedFiles
      rw [← hmax]
      exact hfl

theorem mergeOverStore_ends {fails : Fails} (id : PathId) (wsMeta : WorkspaceMeta) (hh : S3.Harmless fails.store b.store) :
    Ends (mergeOverStore env fails id wsMeta (headOf b wsMeta)) b
      (fun r b' => MergeAccepted env b id wsMeta ∧ r.version.versionId = nextVersion (headOf b wsMeta) ∧
        ∃ S, b' = { b with store := S } ∧ Stored env id wsMeta b S)
      (fun _ b' => (S3.AnyFault fails.store ∨ env.Faulty) ∨ b' = b ∧ ¬ MergeAccepted env b id wsMeta) :=
  (mergeOverStore_flushes id wsMeta hh).mono (fun _ _ ⟨hacc, hver, S, hb, hS⟩ => ⟨hacc, hver, S, hb, stored_of_flushed hS⟩)
    fun _ _ h => h

/-- When nothing fails on the store, a merge that ends with an error has done nothing. -/
theorem mergeOverStore_error {wsMeta : WorkspaceMeta} {head : Text} {e : MergeError} {b₁ : Backend}
    (h : mergeOverStore env Fails.none id wsMeta head b = (.error e, b₁)) : b₁ = b := by
  let w : World S3 := { fs := S3.new b.store, vai := setupTmpdirForS3Submit wsMeta head, ops := 0 }
  have hends := @S3.s3Submit_error env noFaults (configOf id) b.store wsMeta wsMeta.deletedPaths w rfl
  unfold mergeOverStore at h
  dsimp only at h
  rcases hr : S3.s3Submit env Fails.none.store (configOf id) wsMeta wsMeta.deletedPaths w with ⟨e' | r, w'⟩
  · rw [hr] at h
    rcases hends.error hr with hs | ⟨_, _, _, _, _, _, _, _, i, hi⟩
    · refine (congrArg Prod.snd h).symm.trans ?_
      show { b with store := w'.fs.store } = b
      rw [hs]
    · cases hi
  · rw [hr] at h
    cases h

/-! ## A submit -/

/-- The issue of the workspace is known to be closed. -/
def IssueClosed (b : Backend) (id : Uuid) : Prop := ∃ issue, b.links.get id = some issue ∧ b.issues.get issue = some .closed

variable {fails : Fails}

theorem linkedIssue_apply (id : Uuid) (b : Backend) : ∃ r, linkedIssue fails id b = (r, b) ∧
    ((∃ issue, r = .ok (some (issue, .closed))) ↔ IssueClosed b id ∧ fails.db .getIssue = false) := by
  unfold linkedIssue Backend.db
  rw [bind_apply, read_apply]
  dsimp only
  cases hl : b.links.get id with
  | none =>
    refine ⟨_, rfl, iff_of_false (fun ⟨_, h⟩ => by cases h) ?_⟩
    rintro ⟨⟨issue, h, -⟩, -⟩
    rw [hl] at h
    cases h
  | some issue =>
    dsimp only
    by_cases hf : fails.db .getIssue = true
    · rw [if_pos hf]
      refine ⟨_, rfl, iff_of_false (fun ⟨_, h⟩ => by cases h) (fun h => ?_)⟩
      rw [hf] at h
      cases h.2
    · rw [if_neg hf, bind_apply, pure_apply]
      dsimp only
      rw [bind_apply, read_apply]
      dsimp only
      have hclosed : IssueClosed b id ↔ b.issues.get issue = some .closed := by
        unfold IssueClosed
        simp [hl]
      rw [hclosed]
      cases b.issues.get issue with
      | none => exact ⟨_, rfl, iff_of_false (fun ⟨_, h⟩ => by cases h) (fun h => by cases h.1)⟩
      | some status =>
        refine ⟨_, rfl, ?_⟩
        constructor
        · rintro ⟨i, h⟩
          cases h
          exact ⟨rfl, by simpa using hf⟩
        · rintro ⟨h, -⟩
          cases h
          exact ⟨issue, rfl⟩

theorem keeps_reopenIssue {i : Uuid} {I : Backend → Prop} (hI : ∀ b S, I b → I { b with issues := S }) :
    Keeps I (reopenIssue fails i) := by
  refine Keeps.bind (Keeps.attempt (Keeps.mapErr ?_ _)) fun r => ?_
  · intro b hb
    obtain ⟨r, hr, -⟩ := @linkedIssue_apply fails i b
    rw [hr]
    exact hb
  · split
    · refine Keeps.bind (Keeps.attempt (Keeps.mapErr ((keeps_db _).bind fun _ => ?_) _)) fun _ => keeps_pure _ _
      exact keeps_modify fun b h => hI b _ h
    · exact keeps_pure _ _

/-- The request gets as far as its merge. -/
structure Merges (fails : Fails) (id : Uuid) (b : Backend) : Prop where
  getWorkspace : fails.db .getWorkspace = false
  issueOpen : ¬ (IssueClosed b id ∧ fails.db .getIssue = false)
  readHead : fails.db .readHead = false

/-- A submit that is not accepted: the row or HEAD could not be read, the issue is closed, or the merge is refused. -/
inductive Denied (env : Env) (fails : Fails) (newId : Uuid) (id : PathId) (b : Backend) : Backend → Prop where
  | unread (h : ¬ Merges fails id b ∨ b.row id = none) : Denied env fails newId id b b
  | closed (h : IssueClosed b id ∧ fails.db .getIssue = false) :
      Denied env fails newId id b (cascadeWorkspaceTeardown fails id "submit rejected: linked issue is closed".toList b).2
  | refused {wsMeta : WorkspaceMeta} {e : MergeError} {b₁ : Backend} (h : Merges fails id b) (hrow : b.row id = some wsMeta)
      (hm : mergeOverStore env fails id wsMeta (headOf b wsMeta) b = (.error e, b₁)) : Denied env fails newId id b b₁
  | escalated {wsMeta : WorkspaceMeta} {e : MergeError} {b₁ : Backend} (h : Merges fails id b)
      (hrow : b.row id = some wsMeta) (hm : mergeOverStore env fails id wsMeta (headOf b wsMeta) b = (.error e, b₁))
      (count : Nat) (conflicts : List ConflictRecord) :
      Denied env fails newId id b (escalate fails newId wsMeta count conflicts b₁).2

/-- A submit that goes through: the merge, and then its records. -/
structure Submitted (env : Env) (fails : Fails) (id : PathId) (b : Backend) (r : SubmitResult) (b' : Backend) : Prop
    extends Merges fails id b where
  merged : ∃ wsMeta b₁, b.row id = some wsMeta ∧ mergeOverStore env fails id wsMeta (headOf b wsMeta) b = (.ok r, b₁) ∧
    b' = (recordMerge fails wsMeta r b₁).2

theorem getWorkspace_fails (h : fails.db .getWorkspace = true) (id : Uuid) (b : Backend) :
    mapErr ApiError.ofStorage (getWorkspace fails id) b = (.error .internal, b) := by
  unfold getWorkspace Backend.db
  rw [if_pos h]
  rfl

theorem escalate_ok (newId : Uuid) (wsMeta : WorkspaceMeta) (count : Nat) (conflicts : List ConflictRecord) (b : Backend) :
    ∃ b', escalate fails newId wsMeta count conflicts b = (.ok ⟨⟩, b') := by
  unfold escalate
  rw [bind_apply, attempt_apply]
  dsimp only
  rcases (mapErr ApiError.ofStorage (Backend.db fails DbCall.createEscalation) b) with ⟨_ | _, b₁⟩
  · exact ⟨b₁, rfl⟩
  · exact ⟨_, record_apply _ _⟩

theorem cascade_ok (id : Uuid) (reason : Text) (b : Backend) :
    ∃ b', cascadeWorkspaceTeardown fails id reason b = (.ok ⟨⟩, b') := by
  unfold cascadeWorkspaceTeardown
  rw [bind_apply, attempt_apply]
  dsimp only
  rcases (mapErr ApiError.ofStorage (Backend.discardWorkspace fails id) b) with ⟨_ | _, b₁⟩
  · exact ⟨b₁, rfl⟩
  · exact ⟨_, record_apply _ _⟩

/-- The handler from the merge on, when the linked issue is not closed. -/
def submitOpen (env : Env) (fails : Fails) (newId : Uuid) (id : PathId) (wsMeta : WorkspaceMeta) : Proc Backend ApiError SubmitResult := do
  let head ← mapErr (fun _ => ApiError.internal) (readHead fails)
  let currentHead := head.getD wsMeta.baseVersion
  match ← mapErr ofMerge (attempt (mergeOverStore env fails id wsMeta currentHead)) with
  | .ok result =>
    recordMerge fails wsMeta result
    pure result
  | .error (.semanticConflicts count conflicts) =>
    escalate fails newId wsMeta count conflicts
    fail (.conflict (semanticConflictMsg count))
  | .error e => fail (ofMerge e)

/-- **What a submit comes to**, whichever calls fail. -/
theorem submitWorkspaceHandler_ends (env : Env) (fails : Fails) (newId : Uuid) (id : PathId) (b : Backend) :
    Ends (submitWorkspaceHandler env fails newId id) b (fun r b' => Submitted env fails id b r b')
      (fun _ b' => Denied env fails newId id b b') := by
  unfold submitWorkspaceHandler
  by_cases hget : fails.db .getWorkspace = true
  · apply ends_bind
    unfold Ends
    rw [getWorkspace_fails hget]
    exact .unread (.inl fun h => absurd (hget.symm.trans h.getWorkspace) (by decide))
  refine (getWorkspace_ends id b).bind ?_ ?_
  · rintro e b' ⟨rfl, ⟨-, hfail⟩ | hnone⟩
    · exact absurd hfail hget
    · exact .unread (.inr hnone)
  rintro wsMeta b₀ ⟨hrow, rfl⟩
  obtain ⟨issue, hissue, hclosed⟩ := @linkedIssue_apply fails id b₀
  have hattempt : attempt (mapErr ApiError.ofStorage (linkedIssue fails id)) b₀ =
      (.ok (issue.mapError ApiError.ofStorage), b₀) := by
    rw [attempt_apply]
    unfold mapErr
    rw [hissue]
    cases issue <;> rfl
  apply ends_bind_of_ok hattempt
  by_cases hc : ∃ i, issue = .ok (some (i, .closed))
  · obtain ⟨i, rfl⟩ := hc
    obtain ⟨b', hb'⟩ := @cascade_ok fails wsMeta.id "submit rejected: linked issue is closed".toList b₀
    refine ends_bind_of_ok hb' (ends_fail ?_)
    have hD := @Denied.closed env fails newId id b₀ (hclosed.1 ⟨i, rfl⟩)
    rw [← row_id hrow, hb'] at hD
    exact hD
  have hrest : Ends (submitOpen env fails newId id wsMeta) b₀ (fun r b' => Submitted env fails id b₀ r b')
      (fun _ b' => Denied env fails newId id b₀ b') := by
    unfold submitOpen
    by_cases hhead : fails.db .readHead = true
    · unfold readHead Backend.db
      rw [if_pos hhead]
      exact ends_bind (ends_fail (.unread (.inl fun h => absurd (hhead.symm.trans h.readHead) (by decide))))
    have hread : mapErr (fun _ => ApiError.internal) (readHead fails) b₀ = (.ok b₀.head, b₀) := by
      unfold readHead Backend.db
      rw [if_neg hhead]
      rfl
    apply ends_bind_of_ok hread
    have hmerges : Merges fails id b₀ := ⟨by simpa using hget, fun h => hc (hclosed.2 h), by simpa using hhead⟩
    rcases hm : mergeOverStore env fails id wsMeta (headOf b₀ wsMeta) b₀ with ⟨e | r, b₁⟩
    · have hatt : mapErr ofMerge (attempt (mergeOverStore env fails id wsMeta (b₀.head.getD wsMeta.baseVersion))) b₀ =
          (.ok (.error e), b₁) := by
        unfold mapErr
        rw [attempt_apply, show b₀.head.getD wsMeta.baseVersion = headOf b₀ wsMeta from rfl, hm]
      apply ends_bind_of_ok hatt
      cases e with
      | semanticConflicts count conflicts =>
        obtain ⟨b₂, hb₂⟩ := @escalate_ok fails newId wsMeta count conflicts b₁
        refine ends_bind_of_ok hb₂ (ends_fail ?_)
        have hD := @Denied.escalated env fails newId id b₀ wsMeta _ b₁ hmerges hrow hm count conflicts
        rw [hb₂] at hD
        exact hD
      | _ => exact ends_fail (.refused hmerges hrow hm)
    · have hatt : mapErr ofMerge (attempt (mergeOverStore env fails id wsMeta (b₀.head.getD wsMeta.baseVersion))) b₀ =
          (.ok (.ok r), b₁) := by
        unfold mapErr
        rw [attempt_apply, show b₀.head.getD wsMeta.baseVersion = headOf b₀ wsMeta from rfl, hm]
      apply ends_bind_of_ok hatt
      apply ends_bind_of_ok (recordMerge_apply wsMeta r b₁)
      exact ends_pure ⟨hmerges, wsMeta, b₁, hrow, hm, by rw [recordMerge_apply]⟩
  cases issue with
  | error e => exact hrest
  | ok o =>
    rcases o with _ | ⟨i, _ | _ | _ | _⟩
    · exact hrest
    · exact hrest
    · exact hrest
    · exact hrest
    · exact absurd ⟨i, rfl⟩ hc

/-- The tree a submit leaves, when nothing fails. -/
theorem Submitted.stored {r : SubmitResult} (h : Submitted env fails id b r b') (hh : S3.Harmless fails.store b.store) :
    ∃ wsMeta, b.row id = some wsMeta ∧ MergeAccepted env b id wsMeta ∧ r.version.versionId = nextVersion (headOf b wsMeta) ∧
      Stored env id wsMeta b b'.store := by
  obtain ⟨wsMeta, b₁, hrow, hm, rfl⟩ := h.merged
  obtain ⟨hacc, hver, S, rfl, hS⟩ := (mergeOverStore_ends id wsMeta hh).ok hm
  refine ⟨wsMeta, hrow, hacc, hver, ?_⟩
  rw [recordMerge_store]
  exact hS

/-! ## A new workspace -/

theorem record_none (kind : EventKind) (b : Backend) : record Fails.none kind b = (.ok ⟨⟩, recorded kind b) := rfl

theorem createWorkspace_ends (newId : Uuid) (intent v : Text) (b : Backend) :
    Ends (createWorkspace Fails.none newId intent v) b
      (fun ws b' => b.workspaces.get newId = none ∧ ws = ⟨newId, intent, v, .created, []⟩ ∧ b' = withRow newId ws b)
      (fun _ b' => b' = b) := by
  refine ends_bind_of_ok (pure_apply () b) (ends_bind_of_ok (read_apply _ b) ?_)
  cases hr : b.workspaces.get newId with
  | some m => exact ends_fail rfl
  | none =>
    apply ends_bind_of_ok (modify_apply _ b)
    apply ends_bind_of_ok (pure_apply () _)
    apply ends_bind_of_ok (read_apply _ _)
    have hnew : (withRow newId ⟨newId, intent, v, .created, []⟩ b).row newId = some ⟨newId, intent, v, .created, []⟩ := by
      rw [row_withRow, if_pos rfl]
    unfold withRow at hnew
    rw [hnew]
    exact ends_pure ⟨rfl, rfl, rfl⟩

/-- A new row is based on HEAD. -/
def opened (newId : Uuid) (intent : Text) (b : Backend) : WorkspaceMeta :=
  ⟨newId, intent, b.head.getD "unknown".toList, .created, []⟩

/-- **A new workspace**: its row, where there was none, and its event. -/
theorem createWorkspaceHandler_ends (newId : Uuid) (intent : Text) (b : Backend) :
    Ends (createWorkspaceHandler Fails.none newId intent) b
      (fun ws b' => b.workspaces.get newId = none ∧ ws = opened newId intent b ∧
        b' = recorded (.workspaceCreated newId intent ws.baseVersion) (withRow newId ws b)) (fun _ b' => b' = b) := by
  have hrest : ∀ v, Ends (do
      let ws ← mapErr ApiError.ofStorage (createWorkspace Fails.none newId intent v)
      record Fails.none (.workspaceCreated ws.id ws.intent ws.baseVersion)
      pure ws) b (fun ws b' => b.workspaces.get newId = none ∧ ws = ⟨newId, intent, v, .created, []⟩ ∧
        b' = recorded (.workspaceCreated newId intent ws.baseVersion) (withRow newId ws b)) (fun _ b' => b' = b) := by
    intro v
    refine Ends.bind (ends_mapErr (createWorkspace_ends newId intent v b)) (fun _ _ h => h) ?_
    rintro ws b' ⟨hnone, rfl, rfl⟩
    exact ends_bind_of_ok (record_none _ _) (ends_pure ⟨hnone, rfl, rfl⟩)
  have hhead : attempt (mapErr ApiError.ofStorage (readHead Fails.none)) b = (.ok (.ok b.head), b) := rfl
  apply ends_bind_of_ok hhead
  unfold opened
  cases b.head with
  | none => exact hrest _
  | some head => exact hrest head

/-! ## Invariants of whole requests -/

/-- A whole upload, from what its last step does to a row that was read. -/
theorem keeps_upload {I : Backend → Prop} (hI : Uploadable I id) (hfinish : ∀ b wsMeta, I b → b.row id = some wsMeta →
    ∀ touched merged, Keeps I (finishUpload fails wsMeta touched merged)) (req : UploadRequest) :
    Keeps I (upload env fails codecs id req) := by
  cases req with
  | files body =>
    refine Keeps.bind ((keeps_ofExcept _ _ _).bind fun _ => ?_) fun _ => keeps_pure _ _
    rw [keeps_iff_ends]
    intro b hb
    refine (getWorkspace_ends id b).bind (fun e b' h => by rw [h.1]; exact hb) ?_
    rintro wsMeta b₀ ⟨hrow, rfl⟩
    refine Keeps.ends ?_ hb
    refine (keeps_foldlM (fun _ _ => keeps_uploadFile hI _ _) _ _).bind fun _ => ?_
    refine (keeps_rescope hI.toRecords _ _).bind fun _ => ?_
    refine (keeps_foldlM (fun _ _ => keeps_deletePath hI.toRecords _ _) _ _).bind fun _ => ?_
    exact (hfinish b₀ wsMeta hb hrow _ _).bind fun _ => keeps_pure _ _
  | snapshot allow gz =>
    refine Keeps.bind (keeps_ite (keeps_fail _ _) ?_) fun _ => keeps_pure _ _
    rw [keeps_iff_ends]
    intro b hb
    refine (getWorkspace_ends id b).bind (fun e b' h => by rw [h.1]; exact hb) ?_
    rintro wsMeta b₀ ⟨hrow, rfl⟩
    refine Keeps.ends ?_ hb
    refine (keeps_ofExcept _ _ _).bind fun _ => keeps_currentMap.bind fun _ => ?_
    refine (keeps_foldlM (fun _ _ => keeps_uploadEntry hI _ _ _ _) _ _).bind fun _ => ?_
    refine keeps_ite (keeps_fail _ _) ?_
    refine (keeps_foldlM (fun _ _ => keeps_noteDeleted hI.toRecords _ _) _ _).bind fun _ => ?_
    exact (hfinish b₀ wsMeta hb hrow _ _).bind fun _ => keeps_pure _ _

theorem keeps_denied {I : Backend → Prop} (hI : Survives I) (hdiscard : Keeps I (Backend.discardWorkspace fails id))
    {newId : Uuid} (h : Denied env fails newId id b b') (hb : I b) : I b' := by
  have hstore : ∀ {wsMeta : WorkspaceMeta} {e : MergeError} {b₁ : Backend},
      mergeOverStore env fails id wsMeta (headOf b wsMeta) b = (.error e, b₁) → I b₁ := by
    intro wsMeta e b₁ hm
    obtain rfl : _ = b₁ := congrArg Prod.snd hm
    exact hI.store b _ hb
  cases h with
  | unread _ => exact hb
  | closed _ => exact keeps_cascade hI.toRecords hdiscard _ b hb
  | refused _ hrow hm => exact hstore hm
  | escalated _ hrow hm n cs => exact keeps_escalate hI.toRecords _ _ _ _ _ (hstore hm)

theorem keeps_submitted {I : Backend → Prop} (hI : Survives I)
    (hrow : ∀ b i m, b.row i = some m → I b → I (withRow i (updatedRow (some .merged) none m) b)) {r : SubmitResult}
    (h : Submitted env fails id b r b') (hb : I b) : I b' := by
  obtain ⟨wsMeta, b₁, -, hm, rfl⟩ := h.merged
  obtain rfl : _ = b₁ := congrArg Prod.snd hm
  rw [recordMerge_apply]
  exact keeps_concluded hI.toRecords r (keeps_versioned hI.toRecords wsMeta r (hI.store b _ hb)) fun b m => hrow b _ m

theorem keeps_submit {I : Backend → Prop} (hI : Survives I) (hdiscard : Keeps I (Backend.discardWorkspace fails id))
    (hrow : ∀ b i m, b.row i = some m → I b → I (withRow i (updatedRow (some .merged) none m) b)) (newId : Uuid) :
    Keeps I (submitWorkspaceHandler env fails newId id) := by
  rw [keeps_iff_ends]
  intro b hb
  exact (submitWorkspaceHandler_ends env fails newId id b).mono (fun _ _ h => keeps_submitted hI hrow h hb)
    fun _ _ h => keeps_denied hI hdiscard h hb

end Handlers
end Vai
