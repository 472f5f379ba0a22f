import Vai.Ledger
/-!
# Chronicle — versions, and the workspaces they come from

The versions of a repository are `v1`, `v2`, … up to HEAD, each later one merged from a workspace that its merge event
names.  `Chronicle` keeps this along a history, with the tree each version had when it was created.
-/
namespace Vai
namespace Handlers

open Proc Backend Replay

variable {env : Env} {codecs : Codecs} {id : PathId} {b b' : Backend} {wsMeta : WorkspaceMeta} {result : SubmitResult}

/-! ## The records of a merge -/

/-- Removals are appended to the log of the files, and to nothing else. -/
structure Removals (id : Uuid) (D : List Path) (b b' : Backend) : Prop where
  rest : ∃ events next, b' = { b with events := events, nextEvent := next }
  mono : ∀ e ∈ b.events, e ∈ b'.events
  fileLog : fileLog b' = fileLog b ++ D.map (fun p => ⟨id, p, none⟩)
  mergeLog : mergeLog b' = mergeLog b

theorem removals_recordedAll (id : Uuid) : ∀ (D : List Path) (b : Backend),
    Removals id D b (recordedAll Fails.none (D.map (.fileRemoved id)) b)
  | [], b => ⟨⟨b.events, b.nextEvent, rfl⟩, fun _ h => h, (List.append_nil _).symm, rfl⟩
  | p :: D, b => by
    have ih := removals_recordedAll id D (recorded (.fileRemoved id p) b)
    obtain ⟨events, next, hrest⟩ := ih.rest
    refine ⟨⟨events, next, hrest⟩, fun e he => ih.mono e (List.mem_append_left _ he), ?_, ?_⟩
    · refine ih.fileLog.trans ?_
      rw [fileLog_recorded, List.append_assoc]
      rfl
    · refine ih.mergeLog.trans ?_
      rw [mergeLog_recorded]
      exact List.append_nil _

theorem createVersion_none {v : VersionMeta} (hid : ∀ u ∈ b.versions, u.versionId ≠ v.versionId) {mid : Nat}
    (hm : v.mergeEventId = some mid) (hev : ∃ e ∈ b.events, e.id = mid) :
    createVersion Fails.none v b = (.ok (), { b with versions := b.versions ++ [v] }) := by
  have h₁ : b.versions.any (fun u => u.versionId = v.versionId) = false := by simpa using hid
  have h₂ : v.mergeEventId.any (fun i => i ∉ b.events.map Event.id ∧ i ∉ b.foreign) = false := by
    obtain ⟨e, he, hi⟩ := hev
    have : mid ∈ b.events.map Event.id := List.mem_map.2 ⟨e, he, hi⟩
    rw [hm]
    exact decide_eq_false (fun h => h.1 this)
  unfold createVersion
  rw [bind_apply]
  show (Proc.read (fun b => b.versions.any (fun u => u.versionId = v.versionId)) >>= _) b = _
  rw [bind_apply, read_apply, h₁]
  show (Proc.read (fun b => v.mergeEventId.any (fun i => i ∉ b.events.map Event.id ∧ i ∉ b.foreign)) >>= _) b = _
  rw [bind_apply, read_apply, h₂]
  rfl

/-- The version row of a merge. -/
def mergeRow (result : SubmitResult) (mid : Nat) : VersionMeta := { result.version with mergeEventId := some mid }

theorem versioned_none (hid : ∀ u ∈ b.versions, u.versionId ≠ result.version.versionId) :
    ∃ b₁, Removals wsMeta.id wsMeta.deletedPaths
        (recorded (.mergeCompleted wsMeta.id result.version.versionId result.autoResolved) (removeScope wsMeta.id b)) b₁ ∧
      versioned Fails.none wsMeta result b = { b₁ with
        versions := b.versions ++ [mergeRow result b.nextEvent]
        head := some result.version.versionId } := by
  have hR := removals_recordedAll wsMeta.id wsMeta.deletedPaths
    (recorded (.mergeCompleted wsMeta.id result.version.versionId result.autoResolved) (removeScope wsMeta.id b))
  refine ⟨_, hR, ?_⟩
  unfold versioned recordVersion
  rw [bind_apply, modify_apply]
  dsimp only
  rw [bind_apply, attempt_apply]
  dsimp only
  rw [bind_apply, forM_record]
  dsimp only
  rw [bind_apply, ignored_apply]
  dsimp only
  rw [ignored_apply]
  show (advanceHead Fails.none result.version.versionId (createVersion Fails.none (mergeRow result b.nextEvent) (recordedAll
    Fails.none (wsMeta.deletedPaths.map (.fileRemoved wsMeta.id))
    (recorded (.mergeCompleted wsMeta.id result.version.versionId result.autoResolved) (removeScope wsMeta.id b)))).2).2 = _
  obtain ⟨events, next, hrest⟩ := hR.rest
  have hversions : (recordedAll Fails.none (wsMeta.deletedPaths.map (.fileRemoved wsMeta.id))
      (recorded (.mergeCompleted wsMeta.id result.version.versionId result.autoResolved)
        (removeScope wsMeta.id b))).versions = b.versions := by
    rw [hrest]
    rfl
  have hnew : ∀ u ∈ (recordedAll Fails.none (wsMeta.deletedPaths.map (.fileRemoved wsMeta.id))
      (recorded (.mergeCompleted wsMeta.id result.version.versionId result.autoResolved)
        (removeScope wsMeta.id b))).versions, u.versionId ≠ (mergeRow result b.nextEvent).versionId := by
    rw [hversions]
    exact hid
  rw [createVersion_none hnew rfl ⟨⟨b.nextEvent, .mergeCompleted wsMeta.id result.version.versionId result.autoResolved⟩,
    hR.mono _ (List.mem_append_right _ List.mem_cons_self), rfl⟩, hversions]
  rfl

/-- What a submit that is accepted leaves. -/
structure Published (env : Env) (id : PathId) (wsMeta : WorkspaceMeta) (b b' : Backend) : Prop where
  current : ∀ p, b'.current p = mergedTree env b id wsMeta p
  overlay : ∀ i p, b'.overlay i p = b.overlay i p
  blob : ∀ hash, b'.blob hash = b.blob hash
  head : b'.head = some (nextVersion (headOf b wsMeta))
  versions : ∃ v, b'.versions = b.versions ++ [v] ∧ v.versionId = nextVersion (headOf b wsMeta) ∧
    v.mergeEventId = some b.nextEvent
  fileLog : fileLog b' = fileLog b ++ wsMeta.deletedPaths.map (fun p => ⟨wsMeta.id, p, none⟩)
  mergeLog : ∃ kind, mergeLog b' = mergeLog b ++ [⟨b.nextEvent, kind⟩] ∧ kind.workspaceId = some wsMeta.id
  deleted : ∀ i, deleted b' i = deleted b i

theorem submitted_published {r : SubmitResult} (h : Submitted env Fails.none id b r b')
    (hid : ∀ wsMeta, b.row id = some wsMeta → ∀ u ∈ b.versions, u.versionId ≠ nextVersion (headOf b wsMeta)) :
    ∃ wsMeta, b.row id = some wsMeta ∧ MergeAccepted env b id wsMeta ∧ Published env id wsMeta b b' := by
  obtain ⟨wsMeta, b₁, hrow, hm, rfl⟩ := h.merged
  obtain ⟨hacc, hver, S, rfl, hS⟩ := (mergeOverStore_ends id wsMeta (S3.harmless_noFaults _)).ok hm
  refine ⟨wsMeta, hrow, hacc, ?_⟩
  have hnew : ∀ u ∈ b.versions, u.versionId ≠ r.version.versionId := by
    rw [hver]
    exact hid wsMeta hrow
  obtain ⟨b₂, hR, hb₂⟩ := @versioned_none { b with store := S } wsMeta r hnew
  obtain ⟨events, next, hrest⟩ := hR.rest
  have hstore : b₂.store = S := by rw [hrest]; rfl
  have hrows : b₂.workspaces = b.workspaces := by rw [hrest]; rfl
  have hq := @quiet_concluded Fails.none wsMeta r (versioned Fails.none wsMeta r { b with store := S })
  rw [recordMerge_apply]
  generalize concluded Fails.none wsMeta r (versioned Fails.none wsMeta r { b with store := S }) = b₃ at hq
  rw [hb₂] at hq
  have hst : b₃.store = S := hq.store.trans hstore
  constructor
  · intro p
    unfold Backend.current
    rw [hst]
    exact hS.current p
  · intro i p
    unfold Backend.overlay
    rw [hst]
    exact hS.overlay i p
  · intro hash
    unfold Backend.blob
    rw [hst]
    exact hS.blobs hash
  · rw [hq.head, ← hver]
  · exact ⟨mergeRow r b.nextEvent, hq.versions, hver, rfl⟩
  · refine hq.fileLog.trans (hR.fileLog.trans ?_)
    rw [fileLog_recorded]
    exact congrArg (· ++ _) (List.append_nil _)
  · exact ⟨_, hq.mergeLog.trans (hR.mergeLog.trans (mergeLog_recorded _ _)), rfl⟩
  · intro i
    refine (hq.deleted i).trans ?_
    show ((b₂.row i).map WorkspaceMeta.deletedPaths).getD [] = _
    unfold Backend.row
    rw [hrows]
    rfl

/-! ## The tree of a merge, path by path -/

theorem mergedTree_of_deleted {p : Path} (h : p ∈ wsMeta.deletedPaths) : mergedTree env b id wsMeta p = none := if_pos h

theorem mergedTree_of_not_overlay {p : Path} (h : p ∉ wsMeta.deletedPaths) (ho : b.overlay id p = none) :
    mergedTree env b id wsMeta p = b.current p := by
  unfold mergedTree Merge.tree
  rw [if_neg h, filesIn_overlay, ho, if_neg (by decide)]
  rfl

theorem mergedTree_of_overlay {p : Path} (hacc : MergeAccepted env b id wsMeta) (h : p ∉ wsMeta.deletedPaths)
    (ho : (b.overlay id p).isSome) : (mergedTree env b id wsMeta p).isSome := by
  obtain ⟨c, hc⟩ := hacc.merges p ho
  unfold mergedTree Merge.tree
  rw [if_neg h, filesIn_overlay, if_pos ho, hc]
  rfl

theorem latest_of_deleted (h : Published env id wsMeta b b') {owners : List Uuid} (hmem : wsMeta.id ∈ owners)
    {p : Path} (hp : p ∈ wsMeta.deletedPaths) : latest owners p (fileLog b') = some none := by
  rw [h.fileLog, latest_append]
  cases hl : latest owners p (wsMeta.deletedPaths.map (fun p => (⟨wsMeta.id, p, none⟩ : LogEntry Uuid Path (Option Text)))) with
  | none => exact absurd rfl (latest_eq_none.1 hl ⟨wsMeta.id, p, none⟩ (List.mem_map.2 ⟨p, hp, rfl⟩) hmem)
  | some v =>
    obtain ⟨e, he, -, -, rfl⟩ := exists_of_latest hl
    obtain ⟨q, -, rfl⟩ := List.mem_map.1 he
    rfl

theorem latest_of_kept (h : Published env id wsMeta b b') (owners : List Uuid) {p : Path}
    (hp : p ∉ wsMeta.deletedPaths) : latest owners p (fileLog b') = latest owners p (fileLog b) := by
  rw [h.fileLog, latest_append, latest_eq_none.2, Option.none_or]
  intro e he _ hk
  obtain ⟨q, hq, rfl⟩ := List.mem_map.1 he
  exact hp (hk ▸ hq)

/-- The owners with the new one at the end are the owners with it in front. -/
theorem latest_concat_owner (i : Uuid) (ids : List Uuid) (p : Path) (log : List (LogEntry Uuid Path (Option Text))) :
    latest (ids ++ [i]) p log = latest (i :: ids) p log :=
  latest_congr (fun w => by simp [or_comm]) log

/-! ## Versions -/

/-- The number of HEAD. -/
def headNumber (b : Backend) : Nat := (mergeLog b).length + 1

theorem one_le_headNumber (b : Backend) : 1 ≤ headNumber b := Nat.succ_pos _

/-- The workspaces merged after version `n`. -/
def mergedSince (b : Backend) (n : Nat) : List Uuid := ((mergeLog b).drop (n - 1)).filterMap (fun e => e.kind.workspaceId)

/-- The workspaces merged up to version `n`. -/
def mergedUpTo (b : Backend) (n : Nat) : List Uuid := ((mergeLog b).take (n - 1)).filterMap (fun e => e.kind.workspaceId)

/-- The versions go from `v1` to HEAD, and each but the first belongs to a merge event. -/
structure Chronicle (b : Backend) : Prop where
  numbered : Numbered b
  head : b.head = some (versionName (headNumber b))
  versions : b.versions.map (fun v => (v.versionId, v.mergeEventId)) =
    (versionName 1, none) :: (mergeLog b).mapIdx (fun k e => (versionName (k + 2), some e.id))

theorem chronicle_fresh : Chronicle fresh := ⟨numbered_fresh, rfl, rfl⟩

theorem Chronicle.congr (h : Chronicle b) (hn : Numbered b') (hm : mergeLog b' = mergeLog b) (hh : b'.head = b.head)
    (hv : b'.versions = b.versions) : Chronicle b' := by
  refine ⟨hn, ?_, ?_⟩
  · unfold headNumber
    rw [hh, hm]
    exact h.head
  · rw [hv, hm]
    exact h.versions

theorem Chronicle.mem_versions (h : Chronicle b) {v : VersionMeta} (hv : v ∈ b.versions) :
    ∃ n, 1 ≤ n ∧ n ≤ headNumber b ∧ v.versionId = versionName n := by
  have hmem := List.mem_map_of_mem (f := fun v : VersionMeta => (v.versionId, v.mergeEventId)) hv
  rw [h.versions, List.mem_cons, List.mem_mapIdx] at hmem
  rcases hmem with he | ⟨k, hk, he⟩
  · exact ⟨1, le_rfl, Nat.succ_le_succ (Nat.zero_le _), congrArg Prod.fst he⟩
  · refine ⟨k + 2, by omega, ?_, (congrArg Prod.fst he).symm⟩
    unfold headNumber
    omega

theorem Chronicle.nextVersion (h : Chronicle b) (wsMeta : WorkspaceMeta) :
    nextVersion (headOf b wsMeta) = versionName (headNumber b + 1) := by
  unfold Handlers.nextVersion headOf
  rw [h.head, Option.getD_some, parseVersionNumber_versionName]

theorem Chronicle.nextVersion_new (h : Chronicle b) (wsMeta : WorkspaceMeta) :
    ∀ u ∈ b.versions, u.versionId ≠ Handlers.nextVersion (headOf b wsMeta) := by
  intro u hu he
  obtain ⟨n, -, hn, hv⟩ := h.mem_versions hu
  rw [h.nextVersion, hv] at he
  have := versionName_injective he
  omega

theorem Published.headNumber (h : Published env id wsMeta b b') : headNumber b' = headNumber b + 1 := by
  obtain ⟨kind, hm, -⟩ := h.mergeLog
  unfold Handlers.headNumber
  rw [hm, List.length_append]
  rfl

theorem Chronicle.published (h : Chronicle b) (hn : Numbered b') (hp : Published env id wsMeta b b') : Chronicle b' := by
  obtain ⟨kind, hm, -⟩ := hp.mergeLog
  obtain ⟨v, hv, hid, hmid⟩ := hp.versions
  refine ⟨hn, ?_, ?_⟩
  · rw [hp.head, h.nextVersion, hp.headNumber]
  · rw [hv, hm, List.map_append, h.versions, List.mapIdx_append, List.cons_append]
    simp only [List.map_cons, List.map_nil, List.mapIdx_cons, List.mapIdx_nil, hid, hmid, h.nextVersion]
    congr 4
    unfold Handlers.headNumber
    congr 1
    omega

theorem mergedSince_published (h : Published env id wsMeta b b') {n : Nat} (hn : n ≤ headNumber b) :
    mergedSince b' n = mergedSince b n ++ [wsMeta.id] := by
  obtain ⟨kind, hm, hk⟩ := h.mergeLog
  unfold headNumber at hn
  unfold mergedSince
  rw [hm, List.drop_append_of_le_length (by omega), List.filterMap_append]
  congr 1
  simp [hk]

theorem mergedSince_head (b : Backend) : mergedSince b (headNumber b) = [] := by
  unfold mergedSince headNumber
  rw [Nat.add_sub_cancel, List.drop_length]
  rfl

/-- A version has come from the workspace. -/
def Merged (id : Uuid) (b : Backend) : Prop := id ∈ mergedSince b 1

theorem merged_of_mem_since {i : Uuid} {n : Nat} (h : i ∈ mergedSince b n) : Merged i b := by
  obtain ⟨e, he, hw⟩ := List.mem_filterMap.1 h
  exact List.mem_filterMap.2 ⟨e, List.mem_of_mem_drop he, hw⟩

theorem merged_of_mem_upTo {i : Uuid} {n : Nat} (h : i ∈ mergedUpTo b n) : Merged i b := by
  obtain ⟨e, he, hw⟩ := List.mem_filterMap.1 h
  exact List.mem_filterMap.2 ⟨e, List.mem_of_mem_take he, hw⟩

theorem mergedUpTo_published (h : Published env id wsMeta b b') {n : Nat} (hn : n ≤ headNumber b) :
    mergedUpTo b' n = mergedUpTo b n := by
  obtain ⟨kind, hm, -⟩ := h.mergeLog
  unfold headNumber at hn
  unfold mergedUpTo
  rw [hm, List.take_append_of_le_length (by omega)]

theorem mergedUpTo_head (h : Published env id wsMeta b b') :
    mergedUpTo b' (headNumber b') = mergedUpTo b (headNumber b) ++ [wsMeta.id] := by
  obtain ⟨kind, hm, hk⟩ := h.mergeLog
  unfold mergedUpTo headNumber
  rw [Nat.add_sub_cancel, Nat.add_sub_cancel, List.take_length, List.take_length, hm, List.filterMap_append]
  congr 1
  simp [hk]

/-! ## What a request does -/

theorem numbered_withRow {i : Uuid} {wsMeta : WorkspaceMeta} (h : Numbered b) : Numbered (withRow i wsMeta b) :=
  ⟨h.sorted, h.bound, h.pos⟩

theorem numbered_discardWorkspace {i : Uuid} {fails : Fails} : Keeps Numbered (Backend.discardWorkspace fails i) :=
  keeps_discardWorkspace fun _ _ _ hb => numbered_withRow hb

theorem numbered_handle (c : Call) : Keeps Numbered (handle env codecs c) := by
  have hI := survives_numbered
  unfold handle
  cases c.request with
  | create newId intent =>
    exact Keeps.bind (keeps_create (fun _ _ _ => keeps_record hI.toRecords _) fun _ _ _ h => numbered_withRow h)
      fun _ => keeps_pure _ _
  | upload id req =>
    exact keeps_upload (hI.uploadable id) (fun _ _ _ _ _ _ => keeps_finishUpload fun _ _ _ _ _ _ _ h => numbered_withRow h) req
  | submit newId id =>
    exact Keeps.bind (keeps_submit hI numbered_discardWorkspace (fun _ _ _ _ h => numbered_withRow h) newId)
      fun _ => keeps_pure _ _
  | discard id =>
    exact (keeps_getWorkspace.mapErr _).bind fun _ => (numbered_discardWorkspace.mapErr _).bind fun _ =>
      (keeps_removeScope hI.toRecords).bind fun _ => (keeps_reopenIssue hI.issues).bind fun _ =>
        keeps_record hI.toRecords _
  | issue id issue status => exact keeps_modify fun b h => ⟨h.sorted, h.bound, h.pos⟩
  | elsewhere =>
    exact keeps_modify fun b h => ⟨h.sorted, fun e he => ⟨(h.bound e he).1, Nat.lt_succ_of_lt (h.bound e he).2⟩,
      Nat.succ_pos _⟩

/-- What a request comes to when nothing fails: an accepted submit, an upload, or nothing as far as files go. -/
inductive Moves (env : Env) (b b' : Backend) : Request → Prop where
  | quiet {r : Request} (h : Quiet b b') : Moves env b b' r
  | uploaded {id : PathId} {req : UploadRequest} (h : Uploaded id b b') : Moves env b b' (.upload id req)
  | published {newId : Uuid} {id : PathId} {wsMeta : WorkspaceMeta} (hopen : ¬ IssueClosed b id) (hrow : b.row id = some wsMeta)
      (hacc : MergeAccepted env b id wsMeta) (h : Published env id wsMeta b b') : Moves env b b' (.submit newId id)

theorem Ledger.published (h : Ledger env b) (hp : Published env id wsMeta b b') : Ledger env b' := by
  have hstored : ∀ i p (hash : Text), ⟨i, p, some hash⟩ ∈ fileLog b' ↔ ⟨i, p, some hash⟩ ∈ fileLog b := by
    intro i p hash
    rw [hp.fileLog, List.mem_append, or_iff_left]
    intro hm
    obtain ⟨q, -, hq⟩ := List.mem_map.1 hm
    cases hq
  constructor
  · intro i p hp'
    rw [hp.overlay] at hp'
    obtain ⟨hash, hm⟩ := h.written i p hp'
    exact ⟨hash, (hstored i p hash).2 hm⟩
  · intro i p hash hm
    simp only [hp.overlay]
    exact h.present i p hash ((hstored i p hash).1 hm)
  · intro i p hd
    rw [hp.deleted] at hd
    rw [hp.fileLog]
    exact List.mem_append_left _ (h.removed i p hd)
  · intro i p hash hm
    rw [hp.blob]
    exact h.blobs i p hash ((hstored i p hash).1 hm)

theorem after_of_ends {c : Call} {P : Backend → Prop} (h : Ends (handle env codecs c) b (fun _ => P) (fun _ => P)) :
    P (serve env codecs c b).after := by
  unfold serve Ends at *
  rcases hr : handle env codecs c b with ⟨_ | _, _⟩ <;> rw [hr] at h <;> exact h

/-- **What a request comes to**, and that it keeps the ledger. -/
theorem handle_moves {request : Request} (hb : Chronicle b) (hl : Ledger env b) :
    Moves env b (serve env codecs (quietly request) b).after request ∧
      Ledger env (serve env codecs (quietly request) b).after := by
  have hquiet : ∀ {b'}, Quiet b b' → Moves env b b' request ∧ Ledger env b' := fun h => ⟨.quiet h, hl.quiet h⟩
  cases request with
  | create newId intent =>
    exact hquiet (((quiet_create newId intent).bind fun _ => keeps_pure _ _) b (quiet_refl b))
  | upload id req =>
    obtain ⟨hl', hu⟩ := after_of_ends (c := quietly (.upload id req)) (@upload_ledger env codecs id b hl req)
    exact ⟨.uploaded hu, hl'⟩
  | submit newId id =>
    refine after_of_ends (c := quietly (.submit newId id)) (P := fun b' => Moves env b b' _ ∧ Ledger env b') ?_
    refine Ends.bind ((submitWorkspaceHandler_ends env Fails.none newId id b).mono (fun _ b' h => ?_) fun _ b' h =>
      hquiet (denied_quiet h)) (fun _ _ h => h) fun _ _ h => ends_pure h
    obtain ⟨wsMeta, hrow, hacc, hp⟩ := submitted_published h fun wsMeta _ => hb.nextVersion_new wsMeta
    exact ⟨.published (fun hc => h.issueOpen ⟨hc, rfl⟩) hrow hacc hp, hl.published hp⟩
  | discard id => exact hquiet (quiet_discard b (quiet_refl b))
  | issue id issue status => exact hquiet ⟨rfl, rfl, rfl, rfl, rfl, fun _ => rfl⟩
  | elsewhere => exact hquiet ⟨rfl, rfl, rfl, rfl, rfl, fun _ => rfl⟩

/-! ## Histories -/

/-- The states of a history of a repository. -/
def states (l : List Served) : List Backend := fresh :: l.map Served.after

/-- The tree of a version: what `current/` held right after the version was created. -/
def treeAt (l : List Served) (version : Text) : Path → Option Bytes :=
  match (states l).find? (fun b => b.head = some version) with
  | some b => b.current
  | none => fun _ => none

variable {l : List Served} {s : Served} {version : Text}

theorem states_concat (l : List Served) (s : Served) : states (l ++ [s]) = states l ++ [s.after] := by
  unfold states
  rw [List.map_append]
  rfl

theorem treeAt_of_seen (h : ∃ b ∈ states l, b.head = some version) : treeAt (l ++ [s]) version = treeAt l version := by
  unfold treeAt
  rw [states_concat, List.find?_append]
  cases hf : (states l).find? (fun b => b.head = some version) with
  | some b => rfl
  | none =>
    obtain ⟨b, hb, hv⟩ := h
    have := List.find?_eq_none.1 hf b hb
    simp [hv] at this

theorem treeAt_of_new (h : ∀ b ∈ states l, b.head ≠ some version) (hs : s.after.head = some version) :
    treeAt (l ++ [s]) version = s.after.current := by
  have hnone : (states l).find? (fun b => b.head = some version) = none :=
    List.find?_eq_none.2 fun b hb => by simpa using h b hb
  have hlast : [s.after].find? (fun b => b.head = some version) = some s.after := by simp [hs]
  unfold treeAt
  rw [states_concat, List.find?_append, hnone, hlast]
  rfl

/-- What holds along the histories in which nothing fails. -/
structure History (env : Env) (l : List Served) (b : Backend) : Prop where
  chronicle : Chronicle b
  ledger : Ledger env b
  seen : ∀ n, 1 ≤ n → n ≤ headNumber b → ∃ s ∈ states l, s.head = some (versionName n)
  heads : ∀ s ∈ states l, ∃ n, n ≤ headNumber b ∧ s.head = some (versionName n)
  atHead : treeAt l (versionName (headNumber b)) = b.current

theorem history_fresh (env : Env) : History env [] fresh := by
  refine ⟨chronicle_fresh, ledger_fresh env, fun n h₁ hn => ?_, fun s hs => ⟨1, le_rfl, ?_⟩, rfl⟩
  · obtain rfl : n = 1 := le_antisymm hn h₁
    exact ⟨fresh, List.mem_singleton_self _, rfl⟩
  · rw [List.mem_singleton.1 hs]
    rfl

theorem History.treeAt_old (h : History env l b) {n : Nat} (h₁ : 1 ≤ n) (hn : n ≤ headNumber b) (s : Served) :
    treeAt (l ++ [s]) (versionName n) = treeAt l (versionName n) := treeAt_of_seen (h.seen n h₁ hn)

theorem History.treeAt_next (h : History env l b) (hp : Published env id wsMeta b s.after) :
    treeAt (l ++ [s]) (versionName (headNumber b + 1)) = s.after.current := by
  refine treeAt_of_new (fun b' hb' he => ?_) (by rw [hp.head, h.chronicle.nextVersion])
  obtain ⟨n, hn, hv⟩ := h.heads b' hb'
  rw [hv, Option.some.injEq] at he
  have := versionName_injective he
  omega

theorem History.same (h : History env l b) (hl : Ledger env s.after) (hn : Numbered s.after)
    (hm : mergeLog s.after = mergeLog b) (hh : s.after.head = b.head) (hv : s.after.versions = b.versions)
    (hc : ∀ p, s.after.current p = b.current p) : History env (l ++ [s]) s.after := by
  have hnum : headNumber s.after = headNumber b := by unfold headNumber; rw [hm]
  refine ⟨h.chronicle.congr hn hm hh hv, hl, fun n h₁ hle => ?_, fun s' hs' => ?_, ?_⟩
  · obtain ⟨s', hs', he⟩ := h.seen n h₁ (hnum ▸ hle)
    exact ⟨s', by rw [states_concat]; exact List.mem_append_left _ hs', he⟩
  · rw [states_concat] at hs'
    rw [hnum]
    rcases List.mem_append.1 hs' with hs' | hs'
    · exact h.heads s' hs'
    · rw [List.mem_singleton.1 hs', hh]
      exact ⟨headNumber b, le_rfl, h.chronicle.head⟩
  · rw [hnum, h.treeAt_old (one_le_headNumber b) le_rfl, h.atHead]
    exact (funext hc).symm

theorem History.published (h : History env l b) (hl : Ledger env s.after) (hn : Numbered s.after)
    (hp : Published env id wsMeta b s.after) : History env (l ++ [s]) s.after := by
  have hc := h.chronicle.published hn hp
  refine ⟨hc, hl, fun n h₁ hle => ?_, fun s' hs' => ?_, by rw [hp.headNumber]; exact h.treeAt_next hp⟩
  · rw [states_concat]
    rw [hp.headNumber] at hle
    rcases Nat.lt_or_ge n (headNumber b + 1) with hlt | hge
    · obtain ⟨s', hs', he⟩ := h.seen n h₁ (by omega)
      exact ⟨s', List.mem_append_left _ hs', he⟩
    · refine ⟨s.after, List.mem_append_right _ (List.mem_singleton_self _), ?_⟩
      rw [hc.head, hp.headNumber, show n = headNumber b + 1 by omega]
  · rw [states_concat] at hs'
    rcases List.mem_append.1 hs' with hs' | hs'
    · obtain ⟨n, hle, he⟩ := h.heads s' hs'
      exact ⟨n, by rw [hp.headNumber]; omega, he⟩
    · rw [List.mem_singleton.1 hs']
      exact ⟨headNumber s.after, le_rfl, hc.head⟩

/-- **One request more.** -/
theorem History.step (h : History env l b) (request : Request) :
    History env (l ++ [serve env codecs (quietly request) b]) (serve env codecs (quietly request) b).after ∧
      Moves env b (serve env codecs (quietly request) b).after request := by
  obtain ⟨hmoves, hl⟩ := @handle_moves env codecs b request h.chronicle h.ledger
  have hn : Numbered (serve env codecs (quietly request) b).after :=
    numbered_handle (quietly request) b h.chronicle.numbered
  refine ⟨?_, hmoves⟩
  cases hmoves with
  | quiet hq => exact h.same hl hn hq.mergeLog hq.head hq.versions hq.current
  | uploaded hu => exact h.same hl hn hu.mergeLog hu.head hu.versions hu.current
  | published _ _ _ hp => exact h.published hl hn hp

end Handlers
end Vai
