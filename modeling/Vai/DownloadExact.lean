import Vai.PullExact
/-!
# DownloadExact — a historical download brings back the tree

A download replays the file events of the workspaces merged up to a version, in the order of their ids, and fetches the
blobs of the last hashes.  What a merge writes is what its workspace uploaded last only as long as no other merged
workspace has an event for the path after that, and the merge takes the uploaded bytes as they are (`Taken`); and an upload
to a merged workspace must say what the versions have (`Repeats`).  In the histories in which every request is of this
kind, every download of every version is exact (`download_exact`).
-/
namespace Vai
namespace Handlers

open Proc Backend Replay

variable {env : Env} {codecs : Codecs} {id : PathId} {b b' : Backend} {wsMeta : WorkspaceMeta} {l : List Served} {s : Served}
variable {B : Text → Option Bytes}

/-- What the replay for some workspaces finds at a path, in the blobs `B`. -/
def replayed (B : Text → Option Bytes) (b : Backend) (ids : List Uuid) (p : Path) : Option Bytes :=
  (latest ids p (fileLog b)).join.bind B

/-- A workspace that has merged before deletes no file of the versions since.  Of a path that it does not delete:
- where another merged workspace has an event after its last, the merge leaves the file as HEAD has it;
- where its last word is a deletion, it has no such file, and nor has HEAD;
- where its last word is an upload, the merge leaves the uploaded content. -/
structure Taken (env : Env) (l : List Served) (b : Backend) (id : PathId) (wsMeta : WorkspaceMeta) : Prop where
  again : ∀ n, 1 ≤ n → n ≤ headNumber b → wsMeta.id ∈ mergedUpTo b n → ∀ p ∈ wsMeta.deletedPaths,
    treeAt l (versionName n) p = none
  overtaken : ∀ p ∉ wsMeta.deletedPaths, ∀ e ∈ newer wsMeta.id p (fileLog b), e.key = p →
    e.owner ∈ mergedUpTo b (headNumber b) → (b.overlay id p).isSome → mergedTree env b id wsMeta p = b.current p
  stray : ∀ p ∉ wsMeta.deletedPaths, (∀ e ∈ newer wsMeta.id p (fileLog b), e.key = p →
    e.owner ∉ mergedUpTo b (headNumber b)) → latest [wsMeta.id] p (fileLog b) = some none →
      b.overlay id p = none ∧ b.current p = none
  bytes : ∀ p ∉ wsMeta.deletedPaths, (∀ e ∈ newer wsMeta.id p (fileLog b), e.key = p →
    e.owner ∉ mergedUpTo b (headNumber b)) → ∀ hash, latest [wsMeta.id] p (fileLog b) = some (some hash) →
      mergedTree env b id wsMeta p = b.blob hash

/-- The upload says of every path what all versions have that were created since the workspace was merged. -/
def Repeats (l : List Served) (i : Uuid) (b b' : Backend) : Prop := ∀ p v, latest [i] p (recordedFiles b b') = some v →
  ∀ n, 1 ≤ n → n ≤ headNumber b → i ∈ mergedUpTo b n → treeAt l (versionName n) p = v.bind b'.blob

/-- Nothing fails, uploads to merged workspaces repeat the versions, and the merges take what was uploaded last. -/
def DownloadSafe (env : Env) (codecs : Codecs) (l : List Served) (c : Call) (b : Backend) : Prop :=
  c.fails = Fails.none ∧ match c.request with
    | .upload id _ => Merged id.uuid b → Repeats l id.uuid b (serve env codecs c b).after
    | .submit _ id => ¬ IssueClosed b id.uuid → ∀ wsMeta, b.row id.uuid = some wsMeta → MergeAccepted env b id wsMeta →
        Taken env l b id wsMeta
    | _ => True

/-- The replay of every version is its tree. -/
def Rebuilt (B : Text → Option Bytes) (l : List Served) (b : Backend) : Prop := ∀ n, 1 ≤ n → n ≤ headNumber b → ∀ p,
  replayed B b (mergedUpTo b n) p = treeAt l (versionName n) p

theorem Rebuilt.same (h : History env l b) (hr : Rebuilt B l b) (hm : mergeLog s.after = mergeLog b)
    (hlog : ∀ n p, latest (mergedUpTo b n) p (fileLog s.after) = latest (mergedUpTo b n) p (fileLog b)) :
    Rebuilt B (l ++ [s]) s.after := by
  intro n h₁ hn p
  unfold headNumber at hn
  rw [hm] at hn
  have hids : mergedUpTo s.after n = mergedUpTo b n := by unfold mergedUpTo; rw [hm]
  unfold replayed
  rw [hids, hlog, h.treeAt_old h₁ hn]
  exact hr n h₁ hn p

/-- An upload to a merged workspace is replayed, and changes nothing. -/
theorem Rebuilt.uploaded (h : History env l b) (hl : Ledger env s.after) (hb : Rebuilt B l b) (hu : Uploaded id b s.after)
    (hB : ∀ hash c, s.after.blob hash = some c → B hash = some c)
    (hno : Merged id.uuid b → Repeats l id.uuid b s.after) : Rebuilt B (l ++ [s]) s.after := by
  obtain ⟨l', hl', hown⟩ := hu.fileLog
  intro n h₁ hn p
  unfold headNumber at hn
  rw [hu.mergeLog] at hn
  have hids : mergedUpTo s.after n = mergedUpTo b n := by unfold mergedUpTo; rw [hu.mergeLog]
  rw [h.treeAt_old h₁ hn]
  have hold := hb n h₁ hn p
  unfold replayed at hold ⊢
  rw [hids]
  by_cases hmem : id.uuid ∈ mergedUpTo b n
  · have hp := hno (merged_of_mem_upTo hmem) p
    rw [recordedFiles_eq hl'] at hp
    rw [hl', latest_append, latest_of_owner hmem hown]
    rcases hlast : latest [id.uuid] p l' with _ | _ | hash
    · exact hold
    · exact (hp none hlast n h₁ hn hmem).symm
    · obtain ⟨e, he, ho, rfl, hv⟩ := exists_of_latest hlast
      obtain ⟨owner, key, value⟩ := e
      obtain rfl : value = some hash := hv
      obtain ⟨c, hc, -⟩ := hl.blobs owner key hash (hl' ▸ List.mem_append_right _ he)
      rw [hp _ hlast n h₁ hn hmem]
      exact (hB hash c hc).trans hc.symm
  · rw [hl', latest_append_of_others fun e he hm => hmem (hown e he ▸ hm)]
    exact hold

theorem replayed_old (hb : Rebuilt B l b) (hp : Published env id wsMeta b b') (ht : Taken env l b id wsMeta) {n : Nat}
    (h₁ : 1 ≤ n) (hn : n ≤ headNumber b) (p : Path) :
    replayed B b' (mergedUpTo b' n) p = replayed B b (mergedUpTo b n) p := by
  have hold := hb n h₁ hn p
  unfold replayed at hold ⊢
  rw [mergedUpTo_published hp hn]
  by_cases hd : p ∈ wsMeta.deletedPaths
  · by_cases hm : wsMeta.id ∈ mergedUpTo b n
    · rw [latest_of_deleted hp hm hd, hold, ht.again n h₁ hn hm p hd]
      rfl
    · rw [hp.fileLog, latest_append_of_others]
      intro e he
      obtain ⟨q, -, rfl⟩ := List.mem_map.1 he
      exact hm
  · rw [latest_of_kept hp _ hd]

theorem replayed_next (hl : Ledger env b) (hid : wsMeta.id = id.uuid) (hp : Published env id wsMeta b b')
    (ht : Taken env l b id wsMeta) (hB : ∀ hash c, b.blob hash = some c → B hash = some c)
    (hcur : ∀ p, replayed B b (mergedUpTo b (headNumber b)) p = b.current p) (p : Path) :
    replayed B b' (mergedUpTo b' (headNumber b')) p = b'.current p := by
  rw [hp.current, mergedUpTo_head hp]
  by_cases hd : p ∈ wsMeta.deletedPaths
  · unfold replayed
    rw [latest_of_deleted hp (List.mem_append_right _ (List.mem_singleton_self _)) hd, mergedTree_of_deleted hd]
    rfl
  have hcur := hcur p
  unfold replayed at hcur ⊢
  rw [latest_of_kept hp _ hd, latest_concat_owner, latest_cons]
  cases hnew : latest (mergedUpTo b (headNumber b)) p (newer wsMeta.id p (fileLog b)) with
  | some v =>
    -- the last word is another workspace's, and the same as before
    rw [Option.some_or, ← latest_of_newer hnew, hcur]
    by_cases hover : (b.overlay id p).isSome
    · obtain ⟨e, he, hown, hkey, -⟩ := exists_of_latest hnew
      exact (ht.overtaken p hd e he hkey hown hover).symm
    · exact (mergedTree_of_not_overlay hd (Option.not_isSome_iff_eq_none.1 hover)).symm
  | none =>
    have hlast : ∀ e ∈ newer wsMeta.id p (fileLog b), e.key = p → e.owner ∉ mergedUpTo b (headNumber b) :=
      fun e he hkey hown => latest_eq_none.1 hnew e he hown hkey
    rw [Option.none_or]
    rcases hown : latest [wsMeta.id] p (fileLog b) with _ | _ | hash
    · -- the workspace has never had the file
      have hover : b.overlay id p = none := by
        by_contra hsome
        obtain ⟨hash, hw⟩ := hl.written id p (Option.isSome_iff_ne_none.2 hsome)
        exact latest_eq_none.1 hown _ hw (List.mem_singleton.2 hid.symm) rfl
      rw [newer_of_none hown] at hnew
      rw [hnew] at hcur
      rw [mergedTree_of_not_overlay hd hover]
      exact hcur
    · obtain ⟨hover, hnone⟩ := ht.stray p hd hlast hown
      rw [mergedTree_of_not_overlay hd hover, hnone]
      rfl
    · obtain ⟨⟨owner, key, value⟩, he, -, rfl, rfl⟩ := exists_of_latest hown
      obtain ⟨c, hc, -⟩ := hl.blobs owner key hash he
      rw [ht.bytes key hd hlast hash hown, hc]
      exact hB hash c hc

theorem Rebuilt.published (h : History env l b) (hb : Rebuilt B l b) (hid : wsMeta.id = id.uuid)
    (hp : Published env id wsMeta b s.after) (ht : Taken env l b id wsMeta)
    (hB : ∀ hash c, b.blob hash = some c → B hash = some c) : Rebuilt B (l ++ [s]) s.after := by
  intro n h₁ hn p
  rw [hp.headNumber] at hn
  rcases Nat.lt_or_ge n (headNumber b + 1) with hlt | hge
  · have hle : n ≤ headNumber b := by omega
    rw [replayed_old hb hp ht h₁ hle, h.treeAt_old h₁ hle]
    exact hb n h₁ hle p
  · obtain rfl : n = headNumber b + 1 := by omega
    rw [h.treeAt_next hp, ← hp.headNumber]
    refine replayed_next h.ledger hid hp ht hB (fun p => ?_) p
    rw [hb _ (one_le_headNumber b) le_rfl, h.atHead]

/-- One request more. -/
theorem Rebuilt.step (h : History env l b) (hb : Rebuilt B l b) (hB : ∀ hash c, b.blob hash = some c → B hash = some c)
    {request : Request} (hB' : ∀ hash c, (serve env codecs (quietly request) b).after.blob hash = some c → B hash = some c)
    (hc : DownloadSafe env codecs l (quietly request) b) :
    History env (l ++ [serve env codecs (quietly request) b]) (serve env codecs (quietly request) b).after ∧
      Rebuilt B (l ++ [serve env codecs (quietly request) b]) (serve env codecs (quietly request) b).after := by
  obtain ⟨hnext, hmoves⟩ := @History.step env codecs b l h request
  have hc := hc.2
  refine ⟨hnext, ?_⟩
  cases hmoves with
  | quiet hq => exact hb.same h hq.mergeLog fun n p => by rw [hq.fileLog]
  | uploaded hu => exact hb.uploaded h hnext.ledger hu hB' hc
  | published hopen hrow hacc hp => exact hb.published h (row_id hrow) hp (hc hopen _ hrow hacc) hB

theorem mem_states_of_ran {P : List Served → Call → Backend → Prop} (h : Ran env codecs P fresh l b) : b ∈ states l := by
  cases h with
  | start => exact List.mem_singleton_self _
  | step _ c =>
    rw [states_concat]
    exact List.mem_append_right _ (List.mem_singleton_self _)

theorem downloadSafe_run (h : Ran env codecs (DownloadSafe env codecs) fresh l b)
    (hB : ∀ s ∈ states l, ∀ hash c, s.blob hash = some c → B hash = some c) : History env l b ∧ Rebuilt B l b := by
  induction h with
  | start =>
    refine ⟨history_fresh env, fun n h₁ hn p => ?_⟩
    obtain rfl : n = 1 := le_antisymm hn h₁
    exact rfl
  | @step l b hran c hc ih =>
    obtain ⟨request, fails⟩ := c
    obtain rfl : fails = Fails.none := hc.1
    rw [states_concat] at hB
    obtain ⟨hh, hb⟩ := ih fun s hs => hB s (List.mem_append_left _ hs)
    exact hb.step hh (hB b (List.mem_append_left _ (mem_states_of_ran hran)))
      (hB _ (List.mem_append_right _ (List.mem_singleton_self _))) hc

/-- **Historical download is exact**: in the histories whose submits fit the replay, the file map rebuilt for any version
is what `current/` held right after the version was created, as long as every blob ever stored is still there. -/
theorem download_exact (h : Ran env codecs (DownloadSafe env codecs) fresh l b)
    (hblobs : ∀ s ∈ states l, ∀ hash c, s.blob hash = some c → b.blob hash = some c) {v : VersionMeta}
    (hv : v ∈ b.versions) : ∃ files, buildFileMapAtVersion Fails.none env (parseVersionNumber v.versionId) b =
      (.ok files, b) ∧ ∀ p, files.get p = treeAt l v.versionId p := by
  obtain ⟨hh, hb⟩ := downloadSafe_run h hblobs
  obtain ⟨n, h₁, hn, hid⟩ := hh.chronicle.mem_versions hv
  obtain ⟨files, hrun, hget⟩ := buildFileMapAtVersion_spec env hh.chronicle h₁
  rw [hid, parseVersionNumber_versionName]
  exact ⟨files, hrun, fun p => (hget p).trans (hb n h₁ hn p)⟩

/-! ## Two histories -/

theorem downloadSafe_upload {req : UploadRequest} (h : ¬ Merged id.uuid b) :
    DownloadSafe env codecs l (quietly (.upload id req)) b := ⟨rfl, fun hm => absurd hm h⟩

/-- The workspace is new, nobody has overtaken it, and the merge takes its files as they are. -/
theorem downloadSafe_submit {newId : Uuid} (hnot : ¬ Merged id.uuid b)
    (h : ∀ wsMeta ∈ b.row id.uuid, ∀ p ∈ (fileLog b).map LogEntry.key, p ∉ wsMeta.deletedPaths →
      ((b.overlay id p).isSome → latest (mergedUpTo b (headNumber b)) p (newer wsMeta.id p (fileLog b)) = none) ∧
        ∀ v ∈ latest [wsMeta.id] p (fileLog b), v ≠ none ∧ mergedTree env b id wsMeta p = v.bind b.blob) :
    DownloadSafe env codecs l (quietly (.submit newId id)) b := by
  refine ⟨rfl, fun _ wsMeta hrow _ => ?_⟩
  have hword : ∀ p ∉ wsMeta.deletedPaths, ∀ v, latest [wsMeta.id] p (fileLog b) = some v →
      v ≠ none ∧ mergedTree env b id wsMeta p = v.bind b.blob := by
    intro p hp v hv
    obtain ⟨e, he, -, rfl, -⟩ := exists_of_latest hv
    exact (h wsMeta hrow _ (List.mem_map_of_mem he) hp).2 v hv
  refine ⟨fun n _ _ hm => ?_, fun p hp e he hkey hown hover => ?_, fun p hp _ hv => absurd rfl (hword p hp _ hv).1,
    fun p hp _ hash hv => (hword p hp _ hv).2⟩
  · rw [row_id hrow] at hm
    exact absurd (merged_of_mem_upTo hm) hnot
  · subst hkey
    have hmem := List.mem_map_of_mem (f := LogEntry.key) ((List.rtakeWhile_suffix _ _).subset he)
    exact absurd rfl (latest_eq_none.1 ((h wsMeta hrow _ hmem hp).1 hover) e he hown)

theorem blobs_kept {s b : Backend} (h : ∀ q ∈ s.store.pairs, blobsPrefix <+: q.1 → b.store.get q.1 = some q.2) {hash : Text}
    {c : Bytes} (hc : s.blob hash = some c) : b.blob hash = some c :=
  h (blobKey hash, c) (FMap.mem_pairs.2 hc) (List.prefix_append _ _)

theorem download_exact_crossing :
    let h := serveAll hashed oneLetter crossing [] fresh
    h.2.head = some (versionName 4) ∧ ∃ v ∈ h.2.versions, v.versionId = versionName 3 ∧
      ∃ files, buildFileMapAtVersion Fails.none hashed (parseVersionNumber v.versionId) h.2 = (.ok files, h.2) ∧
        ∀ p, files.get p = treeAt h.1 v.versionId p := by
  intro h
  have hmeets : Meets hashed oneLetter (DownloadSafe hashed oneLetter) crossing [] fresh :=
    ⟨⟨rfl, trivial⟩, ⟨rfl, trivial⟩, downloadSafe_upload (by decide +kernel), downloadSafe_upload (by decide +kernel),
      downloadSafe_submit (by decide +kernel) (by decide +kernel),
      downloadSafe_submit (by decide +kernel) (by decide +kernel), ⟨rfl, trivial⟩, downloadSafe_upload (by decide +kernel),
      downloadSafe_submit (by decide +kernel) (by decide +kernel), trivial⟩
  have hblobs : ∀ s ∈ states h.1, ∀ q ∈ s.store.pairs, blobsPrefix <+: q.1 → h.2.store.get q.1 = some q.2 := by
    decide +kernel
  have hv : (⟨versionName 3, some (versionName 1), "add a".toList, "agent".toList, some 7⟩ : VersionMeta) ∈ h.2.versions := by
    decide +kernel
  refine ⟨by decide +kernel, _, hv, rfl, download_exact (ran_serveAll crossing .start hmeets) ?_ hv⟩
  exact fun s hs hash c hc => blobs_kept (hblobs s hs) hc

/-- `base64` on two texts. -/
def twoLetters : Codecs := { oneLetter with base64Decode := fun s => .ok (if s = "YQ==".toList then [97] else [98]) }

/-- Two workspaces upload `a`, and the first to upload is the last to be merged: the download of its version has the other
one's content. -/
theorem download_mixes_versions :
    let h := serveAll hashed twoLetters [quietly (.create 1 "a".toList), quietly (.create 2 "b".toList),
      quietly (addFile 1 "a".toList), quietly (.upload 2 (.files ⟨[⟨"a".toList, "Yg==".toList⟩], []⟩)),
      quietly (.submit 9 2), quietly (.submit 9 1), quietly (.create 3 "c".toList), quietly (addFile 3 "c".toList),
      quietly (.submit 9 3)] [] fresh
    Ran hashed twoLetters (fun _ c _ => c.fails = Fails.none) fresh h.1 h.2 ∧ h.2.head = some (versionName 4) ∧
      (∀ s ∈ states h.1, ∀ hash c, s.blob hash = some c → h.2.blob hash = some c) ∧
      treeAt h.1 (versionName 3) "a".toList = some [97] ∧
      ((buildFileMapAtVersion Fails.none hashed 3 h.2).1.toOption.bind (fun files => files.get "a".toList)) = some [98] := by
  intro h
  have hblobs : ∀ s ∈ states h.1, ∀ q ∈ s.store.pairs, blobsPrefix <+: q.1 → h.2.store.get q.1 = some q.2 := by
    decide +kernel
  refine ⟨ran_serveAll _ .start ⟨rfl, rfl, rfl, rfl, rfl, rfl, rfl, rfl, rfl, trivial⟩, by decide +kernel, ?_,
    by decide +kernel, by decide +kernel⟩
  exact fun s hs hash c hc => blobs_kept (hblobs s hs) hc

end Handlers
end Vai
