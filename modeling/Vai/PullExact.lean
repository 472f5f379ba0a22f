import Vai.PullSpec
/-!
# PullExact — a pull brings a client to HEAD

A pull folds file events in the order of their ids, while HEAD changes in the order of the merges.  Where a workspace that
merges later uploaded earlier, the last event can be a deletion of a file that HEAD has.  What keeps the two orders
together is `InOrder` for a submit, and `Harmless` for an upload to a workspace that is merged already: as long as every
request meets them, every pull since every version is exact (`pull_exact`).
-/
namespace Vai
namespace Handlers

open Proc Backend Replay

variable {env : Env} {codecs : Codecs} {id : PathId} {b b' : Backend} {wsMeta : WorkspaceMeta} {l : List Served} {s : Served}

/-- What the last word on a path says of the trees before and now.  A file that is there no more is reported without
content, and the client does nothing. -/
def Agrees (last : Option (Option Text)) (old new : Option Bytes) : Prop :=
  match last with
  | none => old = new
  | some none => new = none
  | some (some _) => new = none → old = none

/-- At every version the files of HEAD follow from its tree and the events of the workspaces merged since. -/
def Followed (l : List Served) (b : Backend) : Prop := ∀ n, 1 ≤ n → n ≤ headNumber b → ∀ p,
  Agrees (latest (mergedSince b n) p (fileLog b)) (treeAt l (versionName n) p) (b.current p)

/-! ## What keeps the orders together -/

/-- Every deletion of the path by one of these workspaces is followed by an upload of it by one of them. -/
def Restored (ids : List Uuid) (p : Path) (log : List (LogEntry Uuid Path (Option Text))) : Prop := ∀ l₁ e l₂,
  log = l₁ ++ e :: l₂ → e.owner ∈ ids → e.key = p → e.value = none → ∃ e' ∈ l₂, e'.owner ∈ ids ∧ e'.key = p ∧ e'.value ≠ none

/-- The order of the events of a workspace against those of the merged ones, where it is to be submitted.
- It has uploaded the files that it keeps after it deleted them.
- Where HEAD lacks such a file, whoever has deleted it since the workspace uploaded it was merged no later than somebody
  who has uploaded it again.
- A file that it has deleted, although neither its files nor its row say so, is not in HEAD.
- Where it has uploaded a file that the submit does not find under its spelling of the id, and HEAD lacks it, the file was
  deleted later by the workspaces merged since each version that had it. -/
structure InOrder (l : List Served) (b : Backend) (id : PathId) (wsMeta : WorkspaceMeta) : Prop where
  uploaded : ∀ p ∉ wsMeta.deletedPaths, (b.overlay id p).isSome → latest [wsMeta.id] p (fileLog b) ≠ some none
  restored : ∀ p ∉ wsMeta.deletedPaths, (b.overlay id p).isSome → b.current p = none → ∀ n ≤ headNumber b,
    Restored (mergedSince b n) p (newer wsMeta.id p (fileLog b))
  stray : ∀ p ∉ wsMeta.deletedPaths, b.overlay id p = none → latest [wsMeta.id] p (fileLog b) = some none →
    b.current p = none
  elsewhere : ∀ p ∉ wsMeta.deletedPaths, b.overlay id p = none → b.current p = none → ∀ hash,
    latest [wsMeta.id] p (fileLog b) = some (some hash) → ∀ n, 1 ≤ n → n ≤ headNumber b →
      (treeAt l (versionName n) p).isSome → ∃ e ∈ newer wsMeta.id p (fileLog b), e.owner ∈ mergedSince b n ∧ e.key = p

/-- The file events that a request records. -/
def recordedFiles (b b' : Backend) : List (LogEntry Uuid Path (Option Text)) := (fileLog b').drop (fileLog b).length

/-- Of the files that HEAD has, the upload deletes none in the end; and of the others it leaves none uploaded that a
version had since which the workspace was merged. -/
def Harmless (l : List Served) (i : Uuid) (b b' : Backend) : Prop := ∀ p,
  match latest [i] p (recordedFiles b b') with
  | none => True
  | some none => b.current p = none
  | some (some _) => b.current p = none → ∀ n, 1 ≤ n → n ≤ headNumber b → i ∈ mergedSince b n →
      treeAt l (versionName n) p = none

/-- Nothing fails, uploads to merged workspaces are harmless, and submits are in order. -/
def PullSafe (env : Env) (codecs : Codecs) (l : List Served) (c : Call) (b : Backend) : Prop :=
  c.fails = Fails.none ∧ match c.request with
    | .upload id _ => Merged id.uuid b → Harmless l id.uuid b (serve env codecs c b).after
    | .submit _ id => ¬ IssueClosed b id.uuid → ∀ wsMeta, b.row id.uuid = some wsMeta → MergeAccepted env b id wsMeta →
        InOrder l b id wsMeta
    | _ => True

theorem Restored.latest_ne {ids : List Uuid} {p : Path} {log : List (LogEntry Uuid Path (Option Text))}
    (h : Restored ids p log) : latest ids p log ≠ some none := by
  intro hlast
  obtain ⟨l₁, e, l₂, hlog, ho, hk, hv, hafter⟩ := split_of_latest hlast
  obtain ⟨e', he', ho', hk', -⟩ := h l₁ e l₂ hlog ho hk hv
  exact hafter e' he' ho' hk'

theorem recordedFiles_eq {l' : List (LogEntry Uuid Path (Option Text))} (h : fileLog b' = fileLog b ++ l') :
    recordedFiles b b' = l' := by
  unfold recordedFiles
  rw [h, List.drop_left]

theorem latest_of_owner {i : Uuid} {ids : List Uuid} {p : Path} {log : List (LogEntry Uuid Path (Option Text))}
    (hmem : i ∈ ids) (hown : ∀ e ∈ log, e.owner = i) : latest ids p log = latest [i] p log := by
  induction log with
  | nil => rfl
  | cons e log ih =>
    have he := hown e List.mem_cons_self
    rw [latest, latest, ih fun e' he' => hown e' (List.mem_cons_of_mem _ he'), he]
    simp [hmem]

theorem Followed.same (h : History env l b) (hf : Followed l b) (hm : mergeLog s.after = mergeLog b)
    (hc : ∀ p, s.after.current p = b.current p)
    (hlog : ∀ n p, latest (mergedSince b n) p (fileLog s.after) = latest (mergedSince b n) p (fileLog b)) :
    Followed (l ++ [s]) s.after := by
  intro n h₁ hn p
  unfold headNumber at hn
  rw [hm] at hn
  have hids : mergedSince s.after n = mergedSince b n := by unfold mergedSince; rw [hm]
  rw [hids, hlog, hc, h.treeAt_old h₁ hn]
  exact hf n h₁ hn p

/-- An upload to a merged workspace is reported, and says nothing wrong. -/
theorem Followed.uploaded (h : History env l b) (hf : Followed l b) (hu : Uploaded id b s.after)
    (hno : Merged id.uuid b → Harmless l id.uuid b s.after) : Followed (l ++ [s]) s.after := by
  obtain ⟨l', hl', hown⟩ := hu.fileLog
  intro n h₁ hn p
  unfold headNumber at hn
  rw [hu.mergeLog] at hn
  have hids : mergedSince s.after n = mergedSince b n := by unfold mergedSince; rw [hu.mergeLog]
  rw [hids, hu.current, h.treeAt_old h₁ hn]
  have hag := hf n h₁ hn p
  by_cases hmem : id.uuid ∈ mergedSince b n
  · have hp := hno (merged_of_mem_since hmem) p
    rw [recordedFiles_eq hl'] at hp
    rw [hl', latest_append, latest_of_owner hmem hown]
    rcases hlast : latest [id.uuid] p l' with _ | _ | hash
    · exact hag
    · rw [hlast] at hp
      exact hp
    · rw [hlast] at hp
      exact fun hnone => hp hnone n h₁ hn hmem
  · rw [hl', latest_append_of_others fun e he hm => hmem (hown e he ▸ hm)]
    exact hag

theorem agrees_published (hl : Ledger env b) (hacc : MergeAccepted env b id wsMeta) (hid : wsMeta.id = id.uuid)
    (hp : Published env id wsMeta b b') (ho : InOrder l b id wsMeta) {n : Nat} (h₁ : 1 ≤ n) (hn : n ≤ headNumber b) {p : Path}
    (hag : Agrees (latest (mergedSince b n) p (fileLog b)) (treeAt l (versionName n) p) (b.current p)) :
    Agrees (latest (mergedSince b n ++ [wsMeta.id]) p (fileLog b')) (treeAt l (versionName n) p) (b'.current p) := by
  rw [hp.current]
  by_cases hd : p ∈ wsMeta.deletedPaths
  · rw [latest_of_deleted hp (List.mem_append_right _ (List.mem_singleton_self _)) hd]
    exact mergedTree_of_deleted hd
  rw [latest_of_kept hp _ hd, latest_concat_owner, latest_cons]
  cases hover : b.overlay id p with
  | some c =>
    have hsome : (b.overlay id p).isSome := by rw [hover]; rfl
    -- the merge leaves a file, so the last word must not be a deletion
    have hmerged := mergedTree_of_overlay hacc hd hsome
    have hword : latest [wsMeta.id] p (fileLog b) ≠ none := by
      obtain ⟨hash, hw⟩ := hl.written id p hsome
      exact fun hnone => latest_eq_none.1 hnone _ hw (List.mem_singleton.2 hid.symm) rfl
    have hkept : latest (mergedSince b n) p (newer wsMeta.id p (fileLog b)) ≠ some none := by
      intro hlast
      rw [latest_of_newer hlast] at hag
      exact (ho.restored p hd hsome hag n hn).latest_ne hlast
    rcases hlast : (latest (mergedSince b n) p (newer wsMeta.id p (fileLog b))).or (latest [wsMeta.id] p (fileLog b))
      with _ | _ | hash
    · exact absurd (Option.or_eq_none_iff.1 hlast).2 hword
    · rcases Option.or_eq_some_iff.1 hlast with hlast | hlast
      · exact absurd hlast hkept
      · exact absurd hlast.2 (ho.uploaded p hd hsome)
    · intro hnone
      rw [hnone] at hmerged
      cases hmerged
  | none =>
    rw [mergedTree_of_not_overlay hd hover]
    cases hnew : latest (mergedSince b n) p (newer wsMeta.id p (fileLog b)) with
    | some v =>
      rw [latest_of_newer hnew] at hag
      exact hag
    | none =>
      rw [Option.none_or]
      rcases hown : latest [wsMeta.id] p (fileLog b) with _ | _ | hash
      · rw [newer_of_none hown] at hnew
        rw [hnew] at hag
        exact hag
      · exact ho.stray p hd hover hown
      · intro hnone
        by_contra hold
        obtain ⟨e, he, hown', hkey⟩ := ho.elsewhere p hd hover hnone hash hown n h₁ hn (Option.isSome_iff_ne_none.2 hold)
        exact latest_eq_none.1 hnew e he hown' hkey

theorem Followed.published (h : History env l b) (hf : Followed l b) (hacc : MergeAccepted env b id wsMeta)
    (hid : wsMeta.id = id.uuid) (hp : Published env id wsMeta b s.after) (ho : InOrder l b id wsMeta) :
    Followed (l ++ [s]) s.after := by
  intro n h₁ hn p
  rw [hp.headNumber] at hn
  rcases Nat.lt_or_ge n (headNumber b + 1) with hlt | hge
  · have hle : n ≤ headNumber b := by omega
    rw [mergedSince_published hp hle, h.treeAt_old h₁ hle]
    exact agrees_published h.ledger hacc hid hp ho h₁ hle (hf n h₁ hle p)
  · obtain rfl : n = headNumber b + 1 := by omega
    rw [h.treeAt_next hp, ← hp.headNumber, mergedSince_head, latest_no_owners]
    exact rfl

/-- One request more. -/
theorem Followed.step (h : History env l b) (hf : Followed l b) {request : Request}
    (hc : PullSafe env codecs l (quietly request) b) :
    History env (l ++ [serve env codecs (quietly request) b]) (serve env codecs (quietly request) b).after ∧
      Followed (l ++ [serve env codecs (quietly request) b]) (serve env codecs (quietly request) b).after := by
  obtain ⟨hnext, hmoves⟩ := @History.step env codecs b l h request
  have hc := hc.2
  refine ⟨hnext, ?_⟩
  cases hmoves with
  | quiet hq => exact hf.same h hq.mergeLog hq.current fun n p => by rw [hq.fileLog]
  | uploaded hu => exact hf.uploaded h hu hc
  | published hopen hrow hacc hp => exact hf.published h hacc (row_id hrow) hp (hc hopen _ hrow hacc)

theorem pullSafe_run (h : Ran env codecs (PullSafe env codecs) fresh l b) : History env l b ∧ Followed l b := by
  induction h with
  | start =>
    refine ⟨history_fresh env, fun n h₁ hn p => ?_⟩
    obtain rfl : n = 1 := le_antisymm hn h₁
    exact rfl
  | @step l b _ c hc ih =>
    obtain ⟨request, fails⟩ := c
    obtain rfl : fails = Fails.none := hc.1
    exact ih.2.step ih.1 hc

/-- **Incremental pull is exact**: in the histories that are safe for pulls, the response since any version turns its tree
into `current/` at HEAD, reports no file of HEAD as removed, and nothing but paths of workspaces merged since. -/
theorem pull_exact (h : Ran env codecs (PullSafe env codecs) fresh l b) {v : VersionMeta} (hv : v ∈ b.versions) :
    ∃ r, filesPullHandler Fails.none env v.versionId b = (.ok r, b) ∧
      applyPull r.files (treeAt l v.versionId) = b.current ∧
      (∀ f ∈ r.files, f.changeType = .removed → b.current f.path = none) ∧
      ∀ f ∈ r.files, ∃ e ∈ fileLog b, e.key = f.path ∧ e.owner ∈ mergedSince b (parseVersionNumber v.versionId) := by
  obtain ⟨hh, hf⟩ := pullSafe_run h
  obtain ⟨n, h₁, hn, hid⟩ := hh.chronicle.mem_versions hv
  obtain ⟨files, hrun, hrep⟩ := filesPullHandler_spec env hh.chronicle h₁ hn
  rw [hid, parseVersionNumber_versionName]
  refine ⟨_, hrun, funext fun p => ?_, fun f hmem hr => ?_, fun f hmem => ?_⟩
  · rw [applyPull_reported hrep]
    have hag := hf n h₁ hn p
    rcases hlast : latest (mergedSince b n) p (fileLog b) with _ | _ | hash
    · rw [hlast] at hag
      exact hag
    · rw [hlast] at hag
      exact hag.symm
    · rw [hlast] at hag
      cases hcur : b.current p with
      | some c => rfl
      | none => exact hag hcur
  · have htells := (hrep.told f hmem).1
    have hag := hf n h₁ hn f.path
    rw [hr] at htells
    generalize latest (mergedSince b n) f.path (fileLog b) = o at htells hag
    cases htells
    exact hag
  · have htells := (hrep.told f hmem).1
    cases hlast : latest (mergedSince b n) f.path (fileLog b) with
    | none =>
      rw [hlast] at htells
      cases htells
    | some v =>
      obtain ⟨e, he, hown, hkey, -⟩ := exists_of_latest hlast
      exact ⟨e, he, hkey, hown⟩

/-! ## Two histories -/

instance (id : Uuid) (b : Backend) : Decidable (Merged id b) := inferInstanceAs (Decidable (id ∈ mergedSince b 1))

theorem pullSafe_upload {req : UploadRequest} (h : ¬ Merged id.uuid b) :
    PullSafe env codecs l (quietly (.upload id req)) b := ⟨rfl, fun hm => absurd hm h⟩

/-- All deletions so far are those of the row, and all uploads of the workspace are found. -/
theorem pullSafe_submit {newId : Uuid} (hdel : ∀ e ∈ fileLog b, e.value = none → e.key ∈ deleted b id.uuid)
    (hfound : ∀ e ∈ fileLog b, e.owner = id.uuid → e.value ≠ none → (b.overlay id e.key).isSome) :
    PullSafe env codecs l (quietly (.submit newId id)) b := by
  refine ⟨rfl, fun _ wsMeta hrow _ => ?_⟩
  have hrows : deleted b id.uuid = wsMeta.deletedPaths := by
    unfold deleted
    rw [hrow]
    rfl
  have hno : ∀ p ∉ wsMeta.deletedPaths, ∀ e ∈ fileLog b, e.key = p → e.value ≠ none := by
    rintro p hp e he rfl hv
    exact hp (hrows ▸ hdel e he hv)
  have hlast : ∀ p ∉ wsMeta.deletedPaths, latest [wsMeta.id] p (fileLog b) ≠ some none := by
    intro p hp hlast
    obtain ⟨e, he, -, hkey, hv⟩ := exists_of_latest hlast
    exact hno p hp e he hkey hv
  refine ⟨fun p hp _ => hlast p hp, fun p hp _ _ n _ l₁ e l₂ hlog _ hkey hv => ?_, fun p hp _ h => absurd h (hlast p hp),
    fun p _ hover _ hash h => ?_⟩
  · have hmem : e ∈ newer wsMeta.id p (fileLog b) := hlog ▸ List.mem_append_right _ List.mem_cons_self
    exact absurd hv (hno p hp e ((List.rtakeWhile_suffix _ _).subset hmem) hkey)
  · obtain ⟨e, he, hown, rfl, hv⟩ := exists_of_latest h
    have := hfound e he ((List.mem_singleton.1 hown).trans (row_id hrow)) (by rw [hv]; exact fun h => by cases h)
    rw [hover] at this
    cases this

def addFile (id : PathId) (path : Text) : Request := .upload id (.files ⟨[⟨path, "YQ==".toList⟩], []⟩)

def deleteFile (id : PathId) (path : Text) : Request := .upload id (.files ⟨[], [path]⟩)

/-- Two workspaces merge in the other order than they upload, and a third one deletes a file. -/
def crossing : List Call :=
  [quietly (.create 1 "add a".toList), quietly (.create 2 "add b".toList), quietly (addFile 1 "a".toList),
    quietly (addFile 2 "b".toList), quietly (.submit 9 2), quietly (.submit 9 1), quietly (.create 3 "delete a".toList),
    quietly (deleteFile 3 "a".toList), quietly (.submit 9 3)]

theorem pull_exact_crossing :
    let h := serveAll hashed oneLetter crossing [] fresh
    h.2.head = some (versionName 4) ∧ h.2.current "a".toList = none ∧ ∃ v ∈ h.2.versions, v.versionId = versionName 2 ∧
      ∃ r, filesPullHandler Fails.none hashed v.versionId h.2 = (.ok r, h.2) ∧
        applyPull r.files (treeAt h.1 v.versionId) = h.2.current ∧
        (∀ f ∈ r.files, f.changeType = .removed → h.2.current f.path = none) ∧
        ∀ f ∈ r.files, ∃ e ∈ fileLog h.2, e.key = f.path ∧ e.owner ∈ mergedSince h.2 (parseVersionNumber v.versionId) := by
  intro h
  have hmeets : Meets hashed oneLetter (PullSafe hashed oneLetter) crossing [] fresh :=
    ⟨⟨rfl, trivial⟩, ⟨rfl, trivial⟩, pullSafe_upload (by decide +kernel), pullSafe_upload (by decide +kernel),
      pullSafe_submit (by decide +kernel) (by decide +kernel), pullSafe_submit (by decide +kernel) (by decide +kernel),
      ⟨rfl, trivial⟩, pullSafe_upload (by decide +kernel), pullSafe_submit (by decide +kernel) (by decide +kernel), trivial⟩
  have hv : (⟨versionName 2, some (versionName 1), "add b".toList, "agent".toList, some 5⟩ : VersionMeta) ∈ h.2.versions := by
    decide +kernel
  exact ⟨by decide +kernel, by decide +kernel, _, hv, rfl, pull_exact (ran_serveAll crossing .start hmeets) hv⟩

/-- A workspace that adds `a`, merged after one that deletes `a` but uploaded before it: the pull since `v1` reports `a`,
which HEAD has, as removed. -/
theorem pull_removes_file_of_head :
    let h := serveAll hashed oneLetter [quietly (.create 1 "add a".toList), quietly (.create 2 "add b".toList),
      quietly (addFile 1 "a".toList), quietly (.upload 2 (.files ⟨[⟨"b".toList, "YQ==".toList⟩], ["a".toList]⟩)),
      quietly (.submit 9 2), quietly (.submit 9 1)] [] fresh
    Ran hashed oneLetter (fun _ c _ => c.fails = Fails.none) fresh h.1 h.2 ∧
      (∃ v ∈ h.2.versions, v.versionId = versionName 1) ∧ h.2.current "a".toList = some [97] ∧
      ∃ r, (filesPullHandler Fails.none hashed (versionName 1) h.2).1 = .ok r ∧
        (∃ f ∈ r.files, f.path = "a".toList ∧ f.changeType = .removed) ∧
        applyPull r.files (treeAt h.1 (versionName 1)) "a".toList = none := by
  intro h
  have hpull : (filesPullHandler Fails.none hashed (versionName 1) h.2).1.toOption = some ⟨versionName 1, versionName 3,
      [⟨"a".toList, .removed, none⟩, ⟨"b".toList, .added, some [97]⟩]⟩ := by decide +kernel
  refine ⟨ran_serveAll _ .start ⟨rfl, rfl, rfl, rfl, rfl, rfl, trivial⟩, by decide +kernel, by decide +kernel, ?_⟩
  cases hr : (filesPullHandler Fails.none hashed (versionName 1) h.2).1 with
  | error e =>
    rw [hr] at hpull
    cases hpull
  | ok r =>
    rw [hr] at hpull
    obtain rfl := Option.some.inj hpull
    exact ⟨_, rfl, ⟨_, List.mem_cons_self, rfl, rfl⟩, rfl⟩

end Handlers
end Vai
