import Vai.HandlerSpec
/-!
# WorkspaceFile — a file through a workspace

`get_workspace_file_handler` of `server/workspace.rs`, after the permission check.  It looks for a file in four places: the
workspace in the file store, its overlay on the server's disk, `current/`, and the repository root on the disk.  It does
not look at the deletions of the workspace.

The store and the overlay on the disk are keyed by the id as the URL spells it, the row by the id it parses to: a submit
under another spelling reads other files.

`getWorkspaceFileHandler_shows_iff`: it shows what a submit on an unmoved HEAD would leave exactly when a deleted file is
in none of the four places, the disk has nothing to add, and the files under the two spellings agree.
-/
namespace Vai
namespace Handlers

open Proc Backend

/-- The server's own disk: at a path there is nothing, a file, or something that cannot be read. -/
structure ServerDisk where
  overlay : PathId → Path → Option (Except Text Bytes)
  repoRoot : Path → Option (Except Text Bytes)
  snapshot : Text → Path → Option (Except Text Bytes)

structure FileDownloadResponse where
  path : Path
  content : Bytes
  size : Nat
  foundIn : Text
  deriving DecidableEq, Repr

variable (fails : Fails) (disk : ServerDisk)

def fileResponse (path : Path) (foundIn : Text) (bytes : Bytes) : FileDownloadResponse :=
  { path, content := bytes, size := bytes.length, foundIn }

/-- A file that exists on the disk. -/
def readDisk (path : Path) (foundIn : Text) (found : Except Text Bytes) : Proc Backend ApiError FileDownloadResponse :=
  match found with
  | .ok bytes => pure (fileResponse path foundIn bytes)
  | .error _ => fail .internal

/-- The base of the workspace: `current/`, and then the repository root. -/
def baseFile (raw rel : Path) : Proc Backend ApiError FileDownloadResponse := do
  match ← attempt (mapErr ApiError.ofStorage (Backend.get fails 0 (currentKey (slashes rel)))) with
  | .ok bytes => pure (fileResponse (slashes rel) "base".toList bytes)
  | .error _ =>
    match disk.repoRoot rel with
    | some found => readDisk (slashes rel) "base".toList found
    | none => fail (.notFound ("file not found: '".toList ++ raw ++ "'".toList))

def workspaceFile (id : PathId) (raw rel : Path) : Proc Backend ApiError FileDownloadResponse := do
  match ← attempt (mapErr ApiError.ofStorage (Backend.get fails 0 (workspaceKey id (slashes rel)))) with
  | .ok bytes => pure (fileResponse (slashes rel) "overlay".toList bytes)
  | .error _ =>
    match disk.overlay id rel with
    | some found => readDisk (slashes rel) "overlay".toList found
    | none => baseFile fails disk raw rel

def getWorkspaceFileHandler (id : PathId) (path : Text) : Proc Backend ApiError FileDownloadResponse := do
  let _ ← mapErr ApiError.ofStorage (getWorkspace fails id)
  match sanitizePath path with
  | none => fail (.badRequest ("invalid path: '".toList ++ path ++ "'".toList))
  | some rel => workspaceFile fails disk id path rel

/-! ## The four places -/

section

variable {disk} {env : Env} {b : Backend} {wsMeta : WorkspaceMeta} {id name : PathId} {raw rel : Path}

/-- What is found first. -/
def firstFound (disk : ServerDisk) (b : Backend) (id : PathId) (rel : Path) : Option (Except Text Bytes) :=
  ((b.overlay id (slashes rel)).map .ok).or ((disk.overlay id rel).or
    (((b.current (slashes rel)).map .ok).or (disk.repoRoot rel)))

/-- The answer is the file, or 404 if there is none. -/
def Shows (answer : Except ApiError FileDownloadResponse) (file : Option Bytes) : Prop :=
  (∀ c, file = some c → ∃ r, answer = .ok r ∧ r.content = c) ∧ (file = none ↔ ∃ e, answer = .error e ∧ e.status = 404)

theorem readStore_ends (i : Nat) (key : Text) (b : Backend) :
    Ends (attempt (mapErr ApiError.ofStorage (Backend.get Fails.none i key))) b
      (fun r b' => b' = b ∧ b.store.get key = r.toOption) (fun _ _ => False) := by
  apply ends_attempt
  refine ends_mapErr (ends_bind (ends_pure (ends_bind (ends_read ?_))))
  cases hget : b.store.get key with
  | none => exact ends_fail ⟨rfl, rfl⟩
  | some c => exact ends_pure ⟨rfl, rfl⟩

/-- An answer is what is found first, or the error for it. -/
def Finds (found : Option (Except Text Bytes)) (e : ApiError) : Prop :=
  found = none ∧ e.status = 404 ∨ (∃ t, found = some (.error t)) ∧ e = .internal

theorem readDisk_ends (path : Path) (foundIn : Text) (found : Except Text Bytes) (b : Backend) :
    Ends (readDisk path foundIn found) b (fun r _ => some found = some (.ok r.content)) (fun e _ => Finds (some found) e) := by
  cases found with
  | ok bytes => exact ends_pure rfl
  | error t => exact ends_fail (.inr ⟨⟨t, rfl⟩, rfl⟩)

theorem workspaceFile_ends (disk : ServerDisk) (b : Backend) (id : PathId) (raw rel : Path) :
    Ends (workspaceFile Fails.none disk id raw rel) b (fun r _ => firstFound disk b id rel = some (.ok r.content))
      (fun e _ => Finds (firstFound disk b id rel) e) := by
  unfold workspaceFile firstFound
  refine Ends.bind (readStore_ends 0 (workspaceKey id (slashes rel)) b) (fun _ _ h => h.elim) ?_
  rintro stored b ⟨rfl, hoverlay⟩
  have hover : b.overlay id (slashes rel) = stored.toOption := hoverlay
  rw [hover]
  cases stored with
  | ok bytes => exact ends_pure rfl
  | error _ =>
    dsimp only
    cases hdisk : disk.overlay id rel with
    | some found => exact readDisk_ends _ _ found b
    | none =>
      unfold baseFile
      refine Ends.bind (readStore_ends 0 (currentKey (slashes rel)) b) (fun _ _ h => h.elim) ?_
      rintro base b ⟨rfl, hbase⟩
      have hcurrent : b.current (slashes rel) = base.toOption := hbase
      rw [hcurrent]
      cases base with
      | ok bytes => exact ends_pure rfl
      | error _ =>
        dsimp only
        cases hroot : disk.repoRoot rel with
        | some found => exact readDisk_ends _ _ found b
        | none => exact ends_fail (.inl ⟨rfl, rfl⟩)

theorem shows_iff {answer : Except ApiError FileDownloadResponse} {found : Option (Except Text Bytes)} {file : Option Bytes}
    (hok : ∀ r, answer = .ok r → found = some (.ok r.content)) (herror : ∀ e, answer = .error e → Finds found e) :
    Shows answer file ↔ found = file.map .ok := by
  cases answer with
  | ok r =>
    rw [hok r rfl]
    cases file with
    | none => simp [Shows]
    | some c => simp [Shows]
  | error e =>
    rcases herror e rfl with ⟨hnone, he⟩ | ⟨⟨t, ht⟩, rfl⟩
    · rw [hnone]
      cases file <;> simp [Shows, he]
    · rw [ht]
      cases file <;> simp [Shows, ApiError.internal]

/-! ## Against a submit -/

/-- What a submit on an unmoved HEAD leaves at a path that the workspace does not delete. -/
def leftAt (b : Backend) (name : PathId) (p : Path) : Option Bytes := (b.overlay name p).or (b.current p)

theorem mergedTree_unmoved (hhead : headOf b wsMeta = wsMeta.baseVersion) (p : Path) :
    mergedTree env b name wsMeta p = if p ∈ wsMeta.deletedPaths then none else leftAt b name p := by
  refine (Merge.tree_of_eq (by rw [Merge.tmpdir_head, hhead]) p).trans ?_
  unfold leftAt
  show (if p ∈ wsMeta.deletedPaths then none else if (b.overlay name p).isSome then b.overlay name p else b.current p) = _
  cases b.overlay name p <;> rfl

/-- A deleted file is nowhere.  Of a path that is not deleted, the file that is found under `id` is what the submit under
`name` leaves: its own file, or that of `current/`; and where the submit leaves none, none is found. -/
structure NothingElse (disk : ServerDisk) (b : Backend) (id name : PathId) (wsMeta : WorkspaceMeta) (rel : Path) : Prop where
  deleted : slashes rel ∈ wsMeta.deletedPaths → b.overlay id (slashes rel) = none ∧ disk.overlay id rel = none ∧
    b.current (slashes rel) = none ∧ disk.repoRoot rel = none
  stored : slashes rel ∉ wsMeta.deletedPaths → ∀ c, b.overlay id (slashes rel) = some c → leftAt b name (slashes rel) = some c
  cached : slashes rel ∉ wsMeta.deletedPaths → b.overlay id (slashes rel) = none → ∀ found,
    disk.overlay id rel = some found → ∃ c, found = .ok c ∧ leftAt b name (slashes rel) = some c
  base : slashes rel ∉ wsMeta.deletedPaths → b.overlay id (slashes rel) = none → disk.overlay id rel = none → ∀ c c',
    b.current (slashes rel) = some c → b.overlay name (slashes rel) = some c' → c' = c
  root : slashes rel ∉ wsMeta.deletedPaths → b.overlay id (slashes rel) = none → disk.overlay id rel = none →
    b.current (slashes rel) = none → disk.repoRoot rel = (b.overlay name (slashes rel)).map .ok

theorem firstFound_iff (disk : ServerDisk) (hhead : headOf b wsMeta = wsMeta.baseVersion) (id name : PathId) (rel : Path) :
    firstFound disk b id rel = (mergedTree env b name wsMeta (slashes rel)).map .ok ↔
      NothingElse disk b id name wsMeta rel := by
  rw [mergedTree_unmoved hhead]
  unfold firstFound
  by_cases hdel : slashes rel ∈ wsMeta.deletedPaths
  · rw [if_pos hdel]
    constructor
    · intro h
      simp only [Option.map_none, Option.or_eq_none_iff, Option.map_eq_none_iff] at h
      exact ⟨fun _ => h, fun hno => absurd hdel hno, fun hno => absurd hdel hno, fun hno => absurd hdel hno,
        fun hno => absurd hdel hno⟩
    · intro h
      obtain ⟨ho, hd, hc, hr⟩ := h.deleted hdel
      simp [ho, hd, hc, hr]
  rw [if_neg hdel]
  cases ho : b.overlay id (slashes rel) with
  | some c =>
    constructor
    · intro h
      refine ⟨fun hin => absurd hin hdel, fun _ c' hc' => ?_, fun _ hnone => ?_, fun _ hnone => ?_, fun _ hnone => ?_⟩
      · obtain rfl : c = c' := Option.some.inj (ho.symm.trans hc')
        obtain ⟨d, hd, hcd⟩ := Option.map_eq_some_iff.1 h.symm
        cases hcd
        exact hd
      all_goals exact nomatch ho.symm.trans hnone
    · intro h
      rw [h.stored hdel c ho]
      rfl
  | none =>
    cases hd : disk.overlay id rel with
    | some found =>
      constructor
      · intro h
        refine ⟨fun hin => absurd hin hdel, fun _ c hc => (nomatch ho.symm.trans hc), fun _ _ found' hf => ?_,
          fun _ _ hnone => (nomatch hd.symm.trans hnone), fun _ _ hnone => (nomatch hd.symm.trans hnone)⟩
        obtain rfl : found = found' := Option.some.inj (hd.symm.trans hf)
        obtain ⟨c, hc, hfound⟩ := Option.map_eq_some_iff.1 h.symm
        exact ⟨c, hfound.symm, hc⟩
      · intro h
        obtain ⟨c, rfl, hc⟩ := h.cached hdel ho found hd
        rw [hc]
        rfl
    | none =>
      unfold leftAt
      cases hc : b.current (slashes rel) with
      | some c =>
        constructor
        · intro h
          refine ⟨fun hin => absurd hin hdel, fun _ c hc => (nomatch ho.symm.trans hc), fun _ _ found hf =>
            (nomatch hd.symm.trans hf), fun _ _ _ d c' hd' hc' => ?_, fun _ _ _ hnone => (nomatch hc.symm.trans hnone)⟩
          obtain rfl : c = d := Option.some.inj (hc.symm.trans hd')
          rw [hc'] at h
          cases h
          rfl
        · intro h
          cases hn : b.overlay name (slashes rel) with
          | none => rfl
          | some c' => rw [h.base hdel ho hd c c' hc hn]; rfl
      | none =>
        constructor
        · intro h
          refine ⟨fun hin => absurd hin hdel, fun _ c hc => (nomatch ho.symm.trans hc), fun _ _ found hf =>
            (nomatch hd.symm.trans hf), fun _ _ _ d c' hd' => (nomatch hc.symm.trans hd'), fun _ _ _ _ => ?_⟩
          simpa using h
        · intro h
          rw [h.root hdel ho hd hc]
          simp

/-- **When a workspace shows its own view**: a file is answered as a submit on an unmoved HEAD would leave it, and with 404
exactly where that leaves none, if and only if a deleted file is in none of the four places, the server's disk has no
file that the store does not account for, and what is found under the one spelling of the id is what the submit under the
other leaves. -/
theorem getWorkspaceFileHandler_shows_iff (env : Env) (disk : ServerDisk) (hrow : b.row name.uuid = some wsMeta)
    (hid : id.uuid = name.uuid) (hhead : headOf b wsMeta = wsMeta.baseVersion) (hpath : sanitizePath raw = some rel) :
    Shows (getWorkspaceFileHandler Fails.none disk id raw b).1 (mergedTree env b name wsMeta (slashes rel)) ↔
      NothingElse disk b id name wsMeta rel := by
  have hends : Ends (getWorkspaceFileHandler Fails.none disk id raw) b
      (fun r _ => firstFound disk b id rel = some (.ok r.content))
      (fun e _ => Finds (firstFound disk b id rel) e) := by
    unfold getWorkspaceFileHandler
    refine Ends.bind (R := fun _ b' => b' = b) (F := fun _ _ => False) ?_ (fun _ _ h => h.elim) ?_
    · refine (getWorkspace_ends id.uuid b).mono (fun _ _ h => h.2) fun e b' h => ?_
      rcases h.2 with ⟨-, hf⟩ | hnone
      · cases hf
      · rw [hid, hrow] at hnone
        cases hnone
    · rintro _ b rfl
      rw [hpath]
      exact workspaceFile_ends disk b id raw rel
  rw [← @firstFound_iff env _ _ disk hhead id name rel]
  refine shows_iff (fun r hr => ?_) fun e he => ?_
  · exact hends.ok (Prod.ext hr rfl)
  · exact hends.error (Prod.ext he rfl)

end

/-! ## A file that is deleted -/

/-- Version `v1` has the file `a`, and workspace 1 has uploaded these files and deletions. -/
def uploadedTo (body : UploadFilesRequest) : Backend :=
  (uploadWorkspaceFilesHandler Env.plain Fails.none oneLetter 1 body
    { oneWorkspace with store := FMap.ofList [(currentKey ['a'], [1])] }).2

def emptyDisk : ServerDisk := ⟨fun _ _ => none, fun _ => none, fun _ _ => none⟩

/-- The row after the upload of the deletion of `a`. -/
def deletingRow : WorkspaceMeta := { WorkspaceMeta.fresh 1 1 with status := .active, deletedPaths := [['a']] }

/-- A new file is shown. -/
theorem getWorkspaceFileHandler_shows_iff_new : ∃ wsMeta, (uploadedTo ⟨[⟨['b'], "YQ==".toList⟩], []⟩).row 1 = some wsMeta ∧
    Shows (getWorkspaceFileHandler Fails.none emptyDisk 1 ['b'] (uploadedTo ⟨[⟨['b'], "YQ==".toList⟩], []⟩)).1
      (mergedTree Env.plain (uploadedTo ⟨[⟨['b'], "YQ==".toList⟩], []⟩) 1 wsMeta ['b']) := by
  have hrow : (uploadedTo ⟨[⟨['b'], "YQ==".toList⟩], []⟩).row 1 = some { WorkspaceMeta.fresh 1 1 with status := .active } := by
    decide +kernel
  have hpath : sanitizePath ['b'] = some ['b'] := by decide +kernel
  refine ⟨_, hrow, (@getWorkspaceFileHandler_shows_iff _ _ 1 1 _ _ Env.plain emptyDisk hrow rfl (by decide +kernel)
    hpath).2 ?_⟩
  have hover : (uploadedTo ⟨[⟨['b'], "YQ==".toList⟩], []⟩).overlay 1 ['b'] = some [97] := by decide +kernel
  refine ⟨fun h => absurd h List.not_mem_nil, fun _ c hc => ?_, fun _ hnone => (nomatch hover.symm.trans hnone),
    fun _ hnone => (nomatch hover.symm.trans hnone), fun _ hnone => (nomatch hover.symm.trans hnone)⟩
  show Option.or _ _ = some c
  rw [show _ = some c from hc]
  rfl

/-- A deleted file is still served from `current/`. -/
theorem deleted_file_is_served : (uploadedTo ⟨[], [['a']]⟩).row 1 = some deletingRow ∧
    (getWorkspaceFileHandler Fails.none emptyDisk 1 ['a'] (uploadedTo ⟨[], [['a']]⟩)).1 =
      .ok (fileResponse ['a'] "base".toList [1]) ∧
    mergedTree Env.plain (uploadedTo ⟨[], [['a']]⟩) 1 deletingRow ['a'] = none ∧
    ¬ Shows (getWorkspaceFileHandler Fails.none emptyDisk 1 ['a'] (uploadedTo ⟨[], [['a']]⟩)).1
      (mergedTree Env.plain (uploadedTo ⟨[], [['a']]⟩) 1 deletingRow ['a']) := by
  have hserved : (getWorkspaceFileHandler Fails.none emptyDisk 1 ['a'] (uploadedTo ⟨[], [['a']]⟩)).1 =
      .ok (fileResponse ['a'] "base".toList [1]) := by decide +kernel
  have hgone : mergedTree Env.plain (uploadedTo ⟨[], [['a']]⟩) 1 deletingRow ['a'] = none :=
    (mergedTree_unmoved (by decide +kernel) _).trans (if_pos (List.mem_singleton_self _))
  refine ⟨by decide +kernel, hserved, hgone, fun h => ?_⟩
  obtain ⟨e, he, -⟩ := h.2.1 hgone
  rw [hserved] at he
  cases he

end Handlers
end Vai
