import Vai.VersionDetail
import Vai.WorkspaceFile
import Vai.DownloadExact
/-!
# VersionDiff — a version against its parent, on the server

`get_version_diff_handler` of `server/version.rs`, after the permission check: for every file event of the workspace merged
into a version, a patch from the old text to the new one.  The old text is looked up by its hash.  An event of a
modification has the hash from the time of its upload; for a removal, the handler takes the last hash that any other
workspace has left in the log, merged or not, before or after.  Where this finds no text, it reads the snapshot that the
merge has saved, and then the one on the disk.

`versionSides_parent_iff`: when the old sides are those of the parent version.
-/
namespace Vai
namespace Handlers

open Proc Backend Replay Version

/-! ## `GET /api/versions/:id/diff` -/

structure FileChangeHashes where
  path : Path
  changeType : ChangeType
  newHash : Option Text
  oldHash : Option Text
  deriving DecidableEq, Repr

/-- A file of the response, before its two texts are made into a patch. -/
structure FileSides where
  path : Path
  changeType : ChangeType
  old : Option Text
  new : Option Text
  deriving DecidableEq, Repr

structure VersionDiffFile where
  path : Path
  changeType : Text
  diff : Text
  deriving DecidableEq, Repr

structure VersionDiffResponse where
  versionId : Text
  baseVersionId : Text
  files : List VersionDiffFile
  deriving DecidableEq, Repr

variable (fails : Fails) (disk : ServerDisk)

def fileHashes : EventKind → Option FileChangeHashes
  | .fileAdded _ p hash => some ⟨p, .added, some hash, none⟩
  | .fileModified _ p oldHash newHash => some ⟨p, .modified, some newHash, some oldHash⟩
  | .fileRemoved _ p => some ⟨p, .removed, none, none⟩
  | _ => none

/-- `path_to_hash`: the events of the workspace itself are skipped. -/
def noteHash (workspaceId : Uuid) (hashes : FMap Path Text) (e : Event) : FMap Path Text :=
  if e.kind.workspaceId = some workspaceId then hashes else foldHash hashes e

def withOldHash (hashes : FMap Path Text) (fc : FileChangeHashes) : FileChangeHashes :=
  if fc.changeType = .removed ∧ fc.oldHash.isNone then { fc with oldHash := hashes.get fc.path } else fc

/-- The removed files get a hash from the rest of the log. -/
def resolveRemoved (workspaceId : Uuid) (changes : List FileChangeHashes) : Proc Backend ApiError (List FileChangeHashes) :=
  if changes.any (fun fc => fc.changeType = .removed) then do
    let allEvents ← mapErr ApiError.ofStorage (querySinceId fails 0)
    pure (changes.map (withOldHash (allEvents.foldl (noteHash workspaceId) ∅)))
  else pure changes

/-- A text of the file store; what cannot be read is none. -/
def readText (i : Nat) (key : Text) : Proc Backend ApiError (Option Text) := do
  let found ← attempt (mapErr ApiError.ofStorage (Backend.get fails i key))
  pure (found.toOption.bind Text.fromUtf8)

def readBlob (i : Nat) : Option Text → Proc Backend ApiError (Option Text)
  | none => pure none
  | some hash => readText fails i (blobKey hash)

/-- `read_to_string` of what exists on the disk. -/
def diskText (found : Option (Except Text Bytes)) : Option Text := found.bind (fun r => r.toOption.bind Text.fromUtf8)

/-- Where the server's store has the snapshot of a version. -/
def savedKey (versionId : Text) (p : Path) : Text := versionsPrefix ++ (versionId ++ (snapshotDir ++ p))

def readOld (i : Nat) (id : Text) (fc : FileChangeHashes) : Proc Backend ApiError (Option Text) := do
  match ← readBlob fails i fc.oldHash with
  | some old => pure (some old)
  | none => do
    let saved ← readText fails i (savedKey id fc.path)
    pure (saved.or (diskText (disk.snapshot id fc.path)))

def readNew (i : Nat) (workspaceId : Uuid) (fc : FileChangeHashes) : Proc Backend ApiError (Option Text) := do
  match ← readBlob fails i fc.newHash with
  | some new => pure (some new)
  | none =>
    if fc.newHash.isSome then do
      let uploaded ← readText fails i (workspaceKey workspaceId fc.path)
      pure (uploaded.or (diskText (disk.overlay workspaceId fc.path)))
    else pure none

def fileSides (id : Text) (workspaceId : Uuid) (q : FileChangeHashes × Nat) : Proc Backend ApiError FileSides := do
  let old ← readOld fails disk q.2 id q.1
  let new ← readNew fails disk q.2 workspaceId q.1
  pure ⟨q.1.path, q.1.changeType, old, new⟩

/-- The version, and the two sides of its files. -/
def versionSides (id : Text) : Proc Backend ApiError (VersionMeta × List FileSides) := do
  let version ← mapErr ApiError.ofStorage (getVersion fails id)
  match ← mergedEvents fails version with
  | none => pure (version, [])
  | some (workspaceId, events) => do
    let changes ← resolveRemoved fails workspaceId (events.filterMap (fun e => fileHashes e.kind))
    let sides ← changes.zipIdx.mapM (fileSides fails disk id workspaceId)
    pure (version, sides)

def changeName : ChangeType → Text
  | .added => "added".toList
  | .modified => "modified".toList
  | .removed => "removed".toList

/-- The patch of a file; `createPatch` writes it. -/
def patchOf (createPatch : Text → Text → Text) : Option Text → Option Text → Text
  | none, some new => createPatch [] new
  | some old, none => createPatch old []
  | some old, some new => createPatch old new
  | none, none => []

def diffFile (createPatch : Text → Text → Text) (f : FileSides) : VersionDiffFile :=
  ⟨f.path, changeName f.changeType, patchOf createPatch f.old f.new⟩

def getVersionDiffHandler (createPatch : Text → Text → Text) (id : Text) (base : Option Text) :
    Proc Backend ApiError VersionDiffResponse := do
  let (version, sides) ← versionSides fails disk id
  pure ⟨id, (base.or version.parentVersionId).getD [], sides.map (diffFile createPatch)⟩

/-! ## The old hash of a removed file -/

section

variable {env : Env} {codecs : Codecs} {disk} {b b' : Backend} {l : List Served} {s : Served} {m : VersionMeta} {i id : Uuid}
variable {p : Path} {fc : FileChangeHashes}

/-- Whoever else has file events. -/
def others (b : Backend) (i : Uuid) : List Uuid := ((fileLog b).map LogEntry.owner).filter (fun w => w ≠ i)

theorem workspaceId_of_entry_none {e : Event} (h : entryOf e = none) (hashes : FMap Path Text) : foldHash hashes e = hashes := by
  unfold entryOf at h
  unfold foldHash
  cases hk : e.kind <;> rw [hk] at h <;> first | rfl | cases h

theorem foldl_noteHash (b : Backend) (i : Uuid) : b.events.foldl (noteHash i) ∅ = (fileEvents b (others b i)).foldl foldHash ∅ := by
  have hscan : ∀ (events : List Event) (hashes : FMap Path Text), (∀ e ∈ events, e ∈ b.events) →
      events.foldl (noteHash i) hashes =
        (events.filter (fun e => (entryOf e).any (fun a => a.owner ∈ others b i))).foldl foldHash hashes := by
    intro events
    induction events with
    | nil => exact fun _ _ => rfl
    | cons e events ih =>
      intro hashes hin
      rw [List.foldl_cons, ih _ fun e' he' => hin e' (List.mem_cons_of_mem e he')]
      cases hent : entryOf e with
      | none =>
        have hskip : noteHash i hashes e = hashes := by
          unfold noteHash
          rw [workspaceId_of_entry_none hent, ite_self]
        rw [hskip, List.filter_cons_of_neg (by simp [hent])]
      | some a =>
        have howner : a.owner ∈ (fileLog b).map LogEntry.owner :=
          List.mem_map_of_mem (List.mem_filterMap.2 ⟨e, hin e List.mem_cons_self, hent⟩)
        have hmem : a.owner ∈ others b i ↔ a.owner ≠ i := by
          unfold others
          rw [List.mem_filter, decide_eq_true_eq]
          exact and_iff_right howner
        unfold noteHash
        rw [workspaceId_of_entry hent]
        by_cases ho : a.owner = i
        · rw [if_pos (congrArg some ho), List.filter_cons_of_neg]
          simpa [hent, hmem] using ho
        · rw [if_neg fun h => ho (Option.some.inj h), List.filter_cons_of_pos, List.foldl_cons]
          simpa [hent, hmem] using ho
  exact hscan b.events ∅ fun _ h => h

/-- The old hash of a change: that of its event, and for a removal the last one that another workspace has left. -/
def oldHashOf (b : Backend) (i : Uuid) (fc : FileChangeHashes) : Option Text :=
  if fc.changeType = .removed then (latest (others b i) fc.path (fileLog b)).join else fc.oldHash

/-- What the events of a workspace come to. -/
def recordedOf (b : Backend) (i : Uuid) : List FileChangeHashes :=
  (b.events.filter (fun e => e.kind.workspaceId = some i)).filterMap (fun e => fileHashes e.kind)

theorem oldHash_of_removed (h : fc ∈ recordedOf b i) (hr : fc.changeType = .removed) : fc.oldHash = none := by
  obtain ⟨e, -, he⟩ := List.mem_filterMap.1 h
  unfold fileHashes at he
  split at he <;> cases he
  · cases hr
  · cases hr
  · rfl

theorem withOldHash_eq (h : fc ∈ recordedOf b i) :
    withOldHash (b.events.foldl (noteHash i) ∅) fc = { fc with oldHash := oldHashOf b i fc } := by
  unfold withOldHash oldHashOf
  by_cases hr : fc.changeType = .removed
  · rw [if_pos ⟨hr, by rw [oldHash_of_removed h hr]; rfl⟩, if_pos hr, foldl_noteHash, get_hashes]
  · rw [if_neg fun hc => hr hc.1, if_neg hr]

theorem resolveRemoved_ends (hn : Numbered b) : Ends (resolveRemoved Fails.none i (recordedOf b i)) b
    (fun changes b' => b' = b ∧ changes = (recordedOf b i).map (fun fc => { fc with oldHash := oldHashOf b i fc }))
    (fun _ _ => False) := by
  unfold resolveRemoved
  split
  · have hall : orderById (b.events.filter (fun e => 0 < e.id)) = b.events := by
      rw [orderById_filter hn, List.filter_eq_self.2 fun e he => decide_eq_true (hn.bound e he).1]
    refine ends_bind (ends_mapErr (ends_bind (ends_pure (ends_read ?_))))
    refine ends_pure ⟨rfl, ?_⟩
    rw [hall]
    exact List.map_congr_left fun fc hfc => withOldHash_eq hfc
  · rename_i hnone
    refine ends_pure ⟨rfl, (List.map_id _).symm.trans (List.map_congr_left fun fc hfc => ?_)⟩
    have hr : fc.changeType ≠ .removed := fun hr => hnone (List.any_eq_true.2 ⟨fc, hfc, decide_eq_true hr⟩)
    rw [oldHashOf, if_neg hr]
    rfl

/-! ## What is read -/

/-- The text stored under a hash. -/
def blobText (b : Backend) (hash : Option Text) : Option Text := (hash.bind b.blob).bind Text.fromUtf8

/-- The file that the snapshot of a version has, in the store. -/
def saved (b : Backend) (versionId : Text) (p : Path) : Option Bytes := b.store.get (savedKey versionId p)

def oldSide (disk : ServerDisk) (b : Backend) (id : Text) (fc : FileChangeHashes) : Option Text :=
  (blobText b fc.oldHash).or (((saved b id fc.path).bind Text.fromUtf8).or (diskText (disk.snapshot id fc.path)))

def newSide (disk : ServerDisk) (b : Backend) (i : Uuid) (fc : FileChangeHashes) : Option Text :=
  (blobText b fc.newHash).or (if fc.newHash.isSome then
    ((b.overlay i fc.path).bind Text.fromUtf8).or (diskText (disk.overlay i fc.path)) else none)

def sidesOf (disk : ServerDisk) (b : Backend) (versionId : Text) (i : Uuid) (fc : FileChangeHashes) : FileSides :=
  ⟨fc.path, fc.changeType, oldSide disk b versionId fc, newSide disk b i fc⟩

theorem readText_apply (k : Nat) (key : Text) (b : Backend) :
    readText Fails.none k key b = (.ok ((b.store.get key).bind Text.fromUtf8), b) := by
  obtain ⟨r, hr, ho⟩ := attempt_get_none k key b
  unfold readText
  rw [bind_of_ok hr, ← ho]
  rfl

theorem readBlob_apply (k : Nat) (hash : Option Text) (b : Backend) :
    readBlob Fails.none k hash b = (.ok (blobText b hash), b) := by
  cases hash with
  | none => rfl
  | some hash => exact readText_apply k (blobKey hash) b

theorem fileSides_apply (disk : ServerDisk) (versionId : Text) (i : Uuid) (q : FileChangeHashes × Nat) (b : Backend) :
    fileSides Fails.none disk versionId i q b = (.ok (sidesOf disk b versionId i q.1), b) := by
  have hold : readOld Fails.none disk q.2 versionId q.1 b = (.ok (oldSide disk b versionId q.1), b) := by
    unfold readOld oldSide
    rw [bind_of_ok (readBlob_apply q.2 q.1.oldHash b)]
    cases blobText b q.1.oldHash with
    | some old => rfl
    | none =>
      dsimp only
      rw [bind_of_ok (readText_apply q.2 (savedKey versionId q.1.path) b)]
      rfl
  have hnew : readNew Fails.none disk q.2 i q.1 b = (.ok (newSide disk b i q.1), b) := by
    unfold readNew newSide
    rw [bind_of_ok (readBlob_apply q.2 q.1.newHash b)]
    cases blobText b q.1.newHash with
    | some new => rfl
    | none =>
      dsimp only
      split
      · rw [bind_of_ok (readText_apply q.2 (workspaceKey i q.1.path) b)]
        rfl
      · rfl
  unfold fileSides
  rw [bind_of_ok hold, bind_of_ok hnew]
  rfl

/-! ## The history of the repository -/

/-- The workspace that a version comes from. -/
def sourceOf (b : Backend) (m : VersionMeta) : Option Uuid := m.mergeEventId.bind (workspaceOf (mergeLog b))

theorem Chronicle.merged (h : Chronicle b) (hm : m ∈ b.versions) :
    ∀ mid, m.mergeEventId = some mid → ∃ e ∈ b.events, e.id = mid ∧ isMerge e.kind = true := by
  intro mid hmid
  have hrow := List.mem_map_of_mem (f := fun v : VersionMeta => (v.versionId, v.mergeEventId)) hm
  rw [h.versions, List.mem_cons, List.mem_mapIdx] at hrow
  rcases hrow with he | ⟨k, hk, he⟩
  · have hnone : m.mergeEventId = none := congrArg Prod.snd he
    rw [hmid] at hnone
    cases hnone
  · rw [hmid] at he
    have hid : (mergeLog b)[k].id = mid := Option.some.inj (congrArg Prod.snd he)
    have hin := List.mem_filter.1 (List.getElem_mem hk)
    exact ⟨(mergeLog b)[k], hin.1, hid, hin.2⟩

/-- **What the handler answers**, in terms of the log and the store. -/
theorem versionSides_ends (disk : ServerDisk) (h : Chronicle b) (versionId : Text) :
    Ends (versionSides Fails.none disk versionId) b (fun r b' => b' = b ∧ r.1 ∈ b.versions ∧ r.1.versionId = versionId ∧
      (sourceOf b r.1 = none ∧ r.2 = [] ∨ ∃ i, sourceOf b r.1 = some i ∧ r.2 = (recordedOf b i).map fun fc =>
        sidesOf disk b versionId i { fc with oldHash := oldHashOf b i fc }))
      (fun _ _ => True) := by
  unfold versionSides
  refine Ends.bind (ends_mapErr ((getVersion_ends versionId b).mono (fun _ _ h => h) fun _ _ _ => trivial))
    (fun _ _ h => h) ?_
  rintro m b ⟨rfl, hfind⟩
  have hm : m ∈ b.versions := List.mem_of_find?_eq_some hfind
  have hid : m.versionId = versionId := by simpa using List.find?_some hfind
  refine Ends.bind (mergedEvents_ends h.numbered.sorted (h.merged hm)) (fun _ _ h => h) ?_
  rintro found b ⟨rfl, ⟨rfl, hnone⟩ | ⟨mid, e, i, hmid, he, rfl, hmerge, hi, rfl⟩⟩
  · refine ends_pure ⟨rfl, hm, hid, .inl ⟨?_, rfl⟩⟩
    unfold sourceOf
    rw [hnone]
    rfl
  · have hsource : sourceOf b m = some i := by
      unfold sourceOf
      rw [hmid, Option.bind_some, workspaceOf_mem h.numbered (List.mem_filter.2 ⟨he, hmerge⟩), hi]
    dsimp only
    refine Ends.bind (resolveRemoved_ends h.numbered) (fun _ _ h => h.elim) ?_
    rintro changes b ⟨rfl, rfl⟩
    have hrun := mapM_of_ok (f := fileSides Fails.none disk versionId i) (s := b)
      (l := ((recordedOf b i).map fun fc => { fc with oldHash := oldHashOf b i fc }).zipIdx)
      fun q _ => fileSides_apply disk versionId i q b
    refine ends_bind_of_ok hrun (ends_pure ⟨rfl, hm, hid, .inr ⟨i, hsource, ?_⟩⟩)
    have hfst : (fun q : FileChangeHashes × Nat => sidesOf disk b versionId i q.1) = sidesOf disk b versionId i ∘ Prod.fst :=
      rfl
    rw [hfst, ← List.map_map, List.zipIdx_map_fst, List.map_map]
    rfl

/-! ## What a merge saves -/

theorem savedKey_ne_uploadKey {id : PathId} {key : Text} (h : UploadKey id key) (versionId : Text) (p : Path) : savedKey versionId p ≠ key := by
  rcases h with ⟨q, rfl⟩ | ⟨hash, rfl⟩
  · unfold workspaceKey
    rw [workspacePrefix_cons]
    exact fun h => by cases h
  · exact fun h => by cases h

/-- The snapshots in the store are what they were. -/
def SavedSame (b₀ b : Backend) : Prop := ∀ versionId p, saved b versionId p = saved b₀ versionId p

theorem uploadable_savedSame (b₀ : Backend) (id : PathId) : Uploadable (SavedSame b₀) id where
  events _ _ h := h
  scopes _ _ h := h
  issues _ _ h := h
  versions _ _ h := h
  head _ _ h := h
  file b key c hkey h versionId p := by
    refine (FMap.get_insert b.store key c (savedKey versionId p)).trans ?_
    rw [if_neg (savedKey_ne_uploadKey hkey versionId p)]
    exact h versionId p

theorem savedSame_upload (b₀ : Backend) (id : PathId) (req : UploadRequest) :
    Keeps (SavedSame b₀) (upload env Fails.none codecs id req) :=
  keeps_upload (uploadable_savedSame b₀ id) (fun _ _ _ _ _ _ => keeps_finishUpload fun _ _ _ _ _ _ _ h => h) req

/-- A submit saves what HEAD has, for the version it makes, or leaves the snapshots alone. -/
theorem saved_submit (hb : Chronicle b) (newId : Uuid) (id : PathId) :
    Ends (handle env codecs (quietly (.submit newId id))) b
      (fun _ b' => ∀ n p c, saved b' (versionName n) p = some c →
        saved b (versionName n) p = some c ∨ n = headNumber b + 1 ∧ b.current p = some c)
      (fun _ b' => ∀ n p c, saved b' (versionName n) p = some c →
        saved b (versionName n) p = some c ∨ n = headNumber b + 1 ∧ b.current p = some c) := by
  refine Ends.bind ((submitWorkspaceHandler_ends env Fails.none newId id b).mono (fun r b' h => ?_) fun _ b' h => ?_)
    (fun _ _ h => h) fun _ _ h => ends_pure h
  · obtain ⟨wsMeta, b₁, hrow, hm, rfl⟩ := h.merged
    obtain ⟨-, -, S, rfl, hS⟩ := (mergeOverStore_flushes id wsMeta (S3.harmless_noFaults _)).ok hm
    intro n p c hc
    unfold saved at hc
    rw [recordMerge_store] at hc
    have hslot : (submittedFiles env b id wsMeta) (.snapshot n p) = some c := (hS.slots (.snapshot n p)).symm.trans hc
    have hnumber : parseVersionNumber (headOf b wsMeta) = headNumber b := by
      unfold headOf
      rw [hb.head, Option.getD_some, parseVersionNumber_versionName]
    unfold submittedFiles Files.submitted at hslot
    rw [hnumber] at hslot
    dsimp only at hslot
    split at hslot
    · rename_i hnew
      exact .inr ⟨hnew.1, hslot⟩
    · exact .inl hslot
  · intro n p c hc
    refine .inl ?_
    have hstore := (denied_quiet h).store
    unfold saved at hc ⊢
    rwa [hstore] at hc

/-- The snapshot of a version has files of the version before. -/
def Snapped (l : List Served) (b : Backend) : Prop := ∀ n p c, saved b (versionName n) p = some c →
  ∃ k, n = k + 1 ∧ 1 ≤ k ∧ k ≤ headNumber b ∧ treeAt l (versionName k) p = some c

theorem Snapped.step (h : History env l b) (hs : Snapped l b) (request : Request) :
    Snapped (l ++ [serve env codecs (quietly request) b]) (serve env codecs (quietly request) b).after := by
  obtain ⟨hnext, hmoves⟩ := @History.step env codecs b l h request
  have hgrown : headNumber b ≤ headNumber (serve env codecs (quietly request) b).after := by
    cases hmoves with
    | quiet hq => rw [headNumber, headNumber, hq.mergeLog]
    | uploaded hu => rw [headNumber, headNumber, hu.mergeLog]
    | published _ _ _ hp => rw [hp.headNumber]; exact Nat.le_succ _
  have hsaved : ∀ n p c, saved (serve env codecs (quietly request) b).after (versionName n) p = some c →
      saved b (versionName n) p = some c ∨ n = headNumber b + 1 ∧ b.current p = some c := by
    intro n p c hc
    cases hmoves with
    | quiet hq =>
      unfold saved at hc ⊢
      rw [hq.store] at hc
      exact .inl hc
    | @uploaded id req _ =>
      refine .inl ?_
      rw [← hc]
      exact (@savedSame_upload env codecs b id req b (fun _ _ => rfl) _ _).symm
    | @published newId id _ _ _ _ _ =>
      exact after_of_ends (c := quietly (.submit newId id)) (saved_submit h.chronicle newId id) n p c hc
  intro n p c hc
  rcases hsaved n p c hc with hold | ⟨rfl, hcur⟩
  · obtain ⟨k, hk, hone, hle, htree⟩ := hs n p c hold
    exact ⟨k, hk, hone, hle.trans hgrown, by rw [h.treeAt_old hone hle, htree]⟩
  · exact ⟨headNumber b, rfl, one_le_headNumber b, hgrown, by rw [h.treeAt_old (one_le_headNumber b) le_rfl, h.atHead, hcur]⟩

/-- **A run in which nothing fails keeps its snapshots true.** -/
theorem snapped_run (h : Ran env codecs (fun _ c _ => c.fails = Fails.none) fresh l b) : History env l b ∧ Snapped l b := by
  induction h with
  | start =>
    refine ⟨history_fresh env, fun n p c hc => ?_⟩
    cases hc
  | @step l b hran c hc ih =>
    obtain ⟨request, fails⟩ := c
    obtain rfl : fails = Fails.none := hc
    exact ⟨(ih.1.step request).1, ih.2.step ih.1 request⟩

/-! ## Against the parent -/

/-- The text of a file in a version. -/
def textAt (l : List Served) (versionId : Text) (p : Path) : Option Text := (treeAt l versionId p).bind Text.fromUtf8

/-- The text of a file in the parent of a version. -/
def parentText (l : List Served) (m : VersionMeta) (p : Path) : Option Text := m.parentVersionId.bind fun parent => textAt l parent p

/-- The parent has the text that is stored under the old hash; and if there is none, the text that HEAD had when the
version `v(n+1)` was merged, where the merge has saved the file, or else what the disk has. -/
structure Recalls (disk : ServerDisk) (l : List Served) (b : Backend) (m : VersionMeta) (n : Nat) (i : Uuid)
    (fc : FileChangeHashes) : Prop where
  hashed : ∀ old, blobText b (oldHashOf b i fc) = some old → parentText l m fc.path = some old
  kept : blobText b (oldHashOf b i fc) = none → parentText l m fc.path =
    (if (saved b (versionName (n + 1)) fc.path).isSome then textAt l (versionName n) fc.path else none).or
      (diskText (disk.snapshot (versionName (n + 1)) fc.path))

theorem recalls_iff (hs : Snapped l b) (disk : ServerDisk) (m : VersionMeta) (n : Nat) (i : Uuid) (fc : FileChangeHashes) :
    Recalls disk l b m n i fc ↔
      oldSide disk b (versionName (n + 1)) { fc with oldHash := oldHashOf b i fc } = parentText l m fc.path := by
  have hsaved : (saved b (versionName (n + 1)) fc.path).bind Text.fromUtf8 =
      if (saved b (versionName (n + 1)) fc.path).isSome then textAt l (versionName n) fc.path else none := by
    cases hc : saved b (versionName (n + 1)) fc.path with
    | none => rfl
    | some c =>
      obtain ⟨k, hk, -, -, htree⟩ := hs (n + 1) fc.path c hc
      obtain rfl : n = k := Nat.succ.inj hk
      unfold textAt
      rw [htree]
      rfl
  unfold oldSide
  dsimp only
  rw [hsaved]
  cases hb : blobText b (oldHashOf b i fc) with
  | some old =>
    rw [Option.some_or]
    constructor
    · exact fun h => (h.hashed old hb).symm
    · intro h
      refine ⟨fun old' hold => ?_, fun hnone => ?_⟩
      · rw [← h, ← hb, hold]
      · rw [hb] at hnone
        cases hnone
  | none =>
    rw [Option.none_or]
    constructor
    · exact fun h => (h.kept hb).symm
    · intro h
      refine ⟨fun old' hold => ?_, fun _ => h.symm⟩
      rw [hb] at hold
      cases hold

/-- **When a diff shows the parent's content**: in a history in which nothing fails, every file that the diff of a version
lists as modified or removed has the text of the parent version on its old side exactly when each of these events recalls
that text. -/
theorem versionSides_parent_iff {n : Nat} {sides : List FileSides}
    (h : Ran env codecs (fun _ c _ => c.fails = Fails.none) fresh l b)
    (hrun : versionSides Fails.none disk (versionName (n + 1)) b = (.ok (m, sides), b')) :
    (∀ f ∈ sides, f.changeType ≠ .added → f.old = parentText l m f.path) ↔
      ∀ i, sourceOf b m = some i → ∀ fc ∈ recordedOf b i, fc.changeType ≠ .added → Recalls disk l b m n i fc := by
  obtain ⟨hh, hs⟩ := snapped_run h
  obtain ⟨-, -, -, ⟨hnone, hsides⟩ | ⟨i, hi, hsides⟩⟩ := (versionSides_ends disk hh.chronicle _).ok hrun
  · have hempty : sides = [] := hsides
    rw [hempty, hnone]
    simp
  · have hmap : sides = (recordedOf b i).map fun fc =>
      sidesOf disk b (versionName (n + 1)) i { fc with oldHash := oldHashOf b i fc } := hsides
    rw [hmap, List.forall_mem_map]
    constructor
    · intro hshow j hj fc hfc hchange
      obtain rfl : i = j := Option.some.inj (hi.symm.trans hj)
      exact (recalls_iff hs disk m n i fc).2 (hshow fc hfc hchange)
    · intro hrecall fc hfc hchange
      exact (recalls_iff hs disk m n i fc).1 (hrecall i hi fc hfc hchange)

end

/-! ## A file that is removed -/

/-- Version `v2` has the file `a`, and workspace 2 is merged after these calls as version `v3`, which removes it. -/
def removal (between : List Call) : List Served × Backend :=
  serveAll hashed twoLetters ([quietly (.create 1 "add a".toList), quietly (addFile 1 ['a']), quietly (.submit 9 1),
    quietly (.create 2 "remove a".toList), quietly (deleteFile 2 ['a'])] ++ between ++
    [quietly (.submit 9 2)]) [] fresh

/-- The version row of `v3`, whose merge event has this id. -/
def removalRow (mid : Nat) : VersionMeta :=
  ⟨versionName 3, some (versionName 2), "remove a".toList, "agent".toList, some mid⟩

theorem ran_removal (between : List Call)
    (h : Meets hashed twoLetters (fun _ c _ => c.fails = Fails.none) ([quietly (.create 1 "add a".toList),
      quietly (addFile 1 ['a']), quietly (.submit 9 1), quietly (.create 2 "remove a".toList),
      quietly (deleteFile 2 ['a'])] ++ between ++ [quietly (.submit 9 2)]) [] fresh) :
    Ran hashed twoLetters (fun _ c _ => c.fails = Fails.none) fresh (removal between).1 (removal between).2 :=
  ran_serveAll _ .start h

/-- The diff of `v3`. -/
def removalSides (between : List Call) : Except ApiError (VersionMeta × List FileSides) × Backend :=
  versionSides Fails.none emptyDisk (versionName 3) (removal between).2

/-- What it shows as the old side. -/
def oldSides (sides : List FileSides) : List (Path × ChangeType × Option Text) :=
  sides.map fun f => (f.path, f.changeType, f.old)

/-- Nobody else touches the file: the diff of `v3` shows what it was in `v2`. -/
theorem versionSides_parent_iff_alone : ∃ m sides b', removalSides [] = (.ok (m, sides), b') ∧
    oldSides sides = [(['a'], .removed, some ['a']), (['a'], .removed, some ['a'])] ∧
    ∀ f ∈ sides, f.changeType ≠ .added → f.old = parentText (removal []).1 m f.path := by
  have hran := ran_removal [] ⟨rfl, rfl, rfl, rfl, rfl, rfl, trivial⟩
  have hm : (removalSides []).1.map Prod.fst = .ok (removalRow 7) := by decide +kernel
  have hsides : (removalSides []).1.map (fun r => oldSides r.2) =
      .ok [(['a'], .removed, some ['a']), (['a'], .removed, some ['a'])] := by decide +kernel
  rcases hrun : removalSides [] with ⟨e | ⟨m, sides⟩, b'⟩
  · rw [hrun] at hm
    cases hm
  rw [hrun] at hm hsides
  obtain rfl : m = removalRow 7 := Except.ok.inj hm
  have hsource : sourceOf (removal []).2 (removalRow 7) = some 2 := by decide +kernel
  have hold : ∀ fc ∈ recordedOf (removal []).2 2, oldSide emptyDisk (removal []).2 (versionName 3)
      { fc with oldHash := oldHashOf (removal []).2 2 fc } = parentText (removal []).1 (removalRow 7) fc.path := by
    decide +kernel
  refine ⟨_, sides, b', rfl, Except.ok.inj hsides, (versionSides_parent_iff hran hrun).2 fun i hi fc hfc _ => ?_⟩
  obtain rfl : 2 = i := Option.some.inj (hsource.symm.trans hi)
  exact (recalls_iff (snapped_run hran).2 emptyDisk _ 2 2 fc).2 (hold fc hfc)

/-- A third workspace uploads other content for it. -/
def uploadElsewhere : List Call := [quietly (.create 3 "b".toList), quietly (.upload 3 (.files ⟨[⟨['a'], "Yg==".toList⟩], []⟩))]

/-- The third workspace is not merged, and still its content is shown as what `v3` has removed. -/
theorem unmerged_upload_is_shown : ∃ m sides b',
    Ran hashed twoLetters (fun _ c _ => c.fails = Fails.none) fresh (removal uploadElsewhere).1 (removal uploadElsewhere).2 ∧
    removalSides uploadElsewhere = (.ok (m, sides), b') ∧
    oldSides sides = [(['a'], .removed, some ['b']), (['a'], .removed, some ['b'])] ∧
    parentText (removal uploadElsewhere).1 m ['a'] = some ['a'] := by
  have hm : (removalSides uploadElsewhere).1.map Prod.fst = .ok (removalRow 9) := by decide +kernel
  have hsides : (removalSides uploadElsewhere).1.map (fun r => oldSides r.2) =
      .ok [(['a'], .removed, some ['b']), (['a'], .removed, some ['b'])] := by decide +kernel
  rcases hrun : removalSides uploadElsewhere with ⟨e | ⟨m, sides⟩, b'⟩
  · rw [hrun] at hm
    cases hm
  rw [hrun] at hm hsides
  obtain rfl : m = removalRow 9 := Except.ok.inj hm
  exact ⟨_, sides, b', ran_removal _ ⟨rfl, rfl, rfl, rfl, rfl, rfl, rfl, rfl, trivial⟩, rfl, Except.ok.inj hsides,
    by decide +kernel⟩

end Handlers
end Vai
