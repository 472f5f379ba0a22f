import Vai.Rail
import Vai.FilePath
/-!
# Keys — where the file store puts what a client names

`FilesystemFileStore::resolve` and the `FileStore` of the SQLite backend join a key to a directory and leave it to the
operating system to follow its `..`.  Two things let one through: the backslashes of a sanitised path become slashes
afterwards, and the deleted paths of a delta manifest are not sanitised at all.

`keys_inside_iff` says which paths lead outside the four directories of a repository: those that climb above their start.
-/
namespace Vai
namespace Handlers

open Proc Backend FilePath

variable {env : Env} {fails : Fails} {codecs : Codecs} {id : PathId} {b b₁ b' : Backend} {wsMeta : WorkspaceMeta} {p : Path}

/-! ## Directories -/

/-- Where a store keeps the files of a repository. -/
inductive StoreRoot where
  | filesystem (storageRoot : List Name) (repoId : Uuid)
  | sqlite (vaiDir : List Name)

def StoreRoot.base : StoreRoot → List Name
  | .filesystem root repoId => root ++ [Text.ofNat repoId]
  | .sqlite vaiDir => vaiDir ++ ["files".toList]

/-- `resolve`, with `..` followed. -/
def StoreRoot.resolve (root : StoreRoot) (key : Text) : List Name := FilePath.resolve root.base key

/-- The directories of a repository that a request for one workspace may use. -/
def keyDirs (id : PathId) : List (List Name) :=
  [["workspaces".toList, id.text], ["current".toList], ["versions".toList], ["blobs".toList]]

/-- The key lies in one of these directories, wherever the store is. -/
def StaysInside (id : PathId) (key : Text) : Prop := ∀ root : StoreRoot, ∃ d ∈ keyDirs id, root.base ++ d <+: root.resolve key

/-! ## Keys of a request -/

def snapshotFileKey (version : Text) (p : Path) : Text := versionsPrefix ++ (version ++ (snapshotDir ++ p))

/-- The paths that an upload stores, each with its content. -/
def sentFiles (env : Env) (codecs : Codecs) (b : Backend) : UploadRequest → List (Path × Bytes)
  | .files body => body.files.filterMap (fun entry => (checkEntry codecs entry).toOption)
  | .snapshot _ gz =>
    match readSnapshot codecs gz with
    | .ok snapshot => snapshot.files.pairs.filter (fun q => (currentHashes env b).get q.1 ≠ some (env.sha256Hex q.2))
    | .error _ => []

/-- The paths that an upload deletes by name. -/
def sentDeletions (codecs : Codecs) : UploadRequest → List Path
  | .files body => body.deletedPaths.filterMap (fun raw => (sanitizePath raw).map slashes)
  | .snapshot _ gz =>
    match readSnapshot codecs gz with
    | .ok ⟨_, some manifest⟩ => manifest.deletedPaths.filter (fun p => p ≠ [])
    | _ => []

/-- What the upload and the submit make of a path that is stored: it is looked up and written in the workspace and in
HEAD, its content has a blob, and the submit keeps what it replaces. -/
def fileKeys (env : Env) (id : PathId) (version : Text) (q : Path × Bytes) : List Text :=
  [workspaceKey id q.1, currentKey q.1, snapshotFileKey version q.1, blobKey (env.sha256Hex q.2)]

/-- And of a path that is deleted. -/
def deletionKeys (version : Text) (p : Path) : List Text := [currentKey p, snapshotFileKey version p]

def derivedKeys (env : Env) (codecs : Codecs) (id : PathId) (version : Text) (b : Backend) (req : UploadRequest) : List Text :=
  (sentFiles env codecs b req).flatMap (fileKeys env id version) ++
    (sentDeletions codecs req).flatMap (deletionKeys version)

/-! ## Where a key leads -/

/-- The levels that a path climbs above its start. -/
def upsOf (p : Path) : Nat := (climb (components p)).ups

/-- The path climbs out of one directory, straight into one of the four. -/
def EntersAgain (id : PathId) (p : Path) : Prop := upsOf p = 1 ∧ ∃ d ∈ keyDirs id, d <+: (climb (components p)).names

instance : Decidable (EntersAgain id p) :=
  inferInstanceAs (Decidable (upsOf p = 1 ∧ ∃ d ∈ keyDirs id, d <+: (climb (components p)).names))

theorem dot_not_mem_text (id : PathId) : '.' ∉ id.text := fun h => by
  rcases Text.isDigit_of_parseNat id.parses '.' h with h | h <;> exact absurd h (by decide)

theorem components_text (id : PathId) : components id.text = [id.text] := by
  apply components_name id.slash_not_mem_text
  · intro h
    have := id.parses
    rw [h] at this
    cases this
  · intro h
    exact dot_not_mem_text id (h ▸ List.mem_singleton.2 rfl)

theorem components_currentKey (p : Path) : components (currentKey p) = "current".toList :: components p :=
  components_append "current".toList p

theorem components_workspaceKey (id : PathId) (p : Path) :
    components (workspaceKey id p) = "workspaces".toList :: id.text :: components p := by
  have hkey : workspaceKey id p = "workspaces".toList ++ '/' :: (id.text ++ '/' :: p) := by
    unfold workspaceKey workspacePrefix
    simp
  rw [hkey, components_append, components_append, components_text]
  rfl

theorem components_snapshotFileKey (n : Nat) (p : Path) : components (snapshotFileKey (versionName n) p) =
    "versions".toList :: versionName n :: "snapshot".toList :: components p := by
  have hkey : snapshotFileKey (versionName n) p =
      "versions".toList ++ '/' :: (versionName n ++ '/' :: ("snapshot".toList ++ '/' :: p)) := by
    unfold snapshotFileKey versionsPrefix snapshotDir
    simp
  have hname : components (versionName n) = [versionName n] := by
    apply components_name
    · intro h
      rcases List.mem_cons.1 h with h | h
      · cases h
      · exact absurd (Text.isDigit_of_mem_ofNat h) (by decide)
    · exact List.cons_ne_nil _ _
    · intro h
      cases (List.cons.inj h).1
  rw [hkey, components_append, components_append, components_append, hname]
  rfl

/-- A key of plain names and a path leads up from these names as far as the path climbs. -/
theorem resolve_of_components {root : StoreRoot} {key : Text} {names : List Name} (hrel : isAbsolute key = false)
    (hkey : components key = names ++ components p) (hnames : dotDot ∉ names) :
    root.resolve key = Climb.reach (climb (components p)) (root.base ++ names) := by
  unfold StoreRoot.resolve FilePath.resolve
  rw [hrel, hkey, walk_append, walk_names _ hnames, walk_eq]
  rfl

theorem resolve_currentKey (root : StoreRoot) (p : Path) :
    root.resolve (currentKey p) = Climb.reach (climb (components p)) (root.base ++ ["current".toList]) :=
  resolve_of_components rfl (components_currentKey p) (by decide)

theorem resolve_workspaceKey (root : StoreRoot) (id : PathId) (p : Path) : root.resolve (workspaceKey id p) =
    Climb.reach (climb (components p)) (root.base ++ ["workspaces".toList, id.text]) := by
  refine resolve_of_components ?_ (components_workspaceKey id p) ?_
  · unfold workspaceKey
    rw [workspacePrefix_cons]
    rfl
  · intro h
    simp only [List.mem_cons, List.not_mem_nil, or_false] at h
    rcases h with h | h
    · exact absurd h (by decide)
    · exact dot_not_mem_text id (h ▸ List.mem_cons_self)

theorem resolve_snapshotFileKey (root : StoreRoot) (n : Nat) (p : Path) : root.resolve (snapshotFileKey (versionName n) p) =
    Climb.reach (climb (components p)) (root.base ++ ["versions".toList, versionName n, "snapshot".toList]) := by
  refine resolve_of_components rfl (components_snapshotFileKey n p) ?_
  intro h
  simp only [List.mem_cons, List.not_mem_nil, or_false] at h
  rcases h with h | h | h
  · exact absurd h (by decide)
  · cases (List.cons.inj h).1
  · exact absurd h (by decide)

theorem reach_of_ups {c : Climb} (h : c.ups = 0) (dir : List Name) : Climb.reach c dir = dir ++ c.names := by
  unfold Climb.reach
  rw [h, Nat.sub_zero, List.take_length]

/-- A path that never climbs above its start stays where its key puts it. -/
theorem inside_of_level {key : Text} {d names : List Name} (hup : upsOf p = 0) (hd : d ∈ keyDirs id) (hpre : d <+: names)
    (hkey : ∀ root : StoreRoot, root.resolve key = Climb.reach (climb (components p)) (root.base ++ names)) :
    StaysInside id key := by
  intro root
  refine ⟨d, hd, ?_⟩
  rw [hkey root, reach_of_ups hup]
  exact ((List.prefix_append_right_inj _).2 hpre).trans (List.prefix_append _ _)

/-- A path that climbs leads back into HEAD only if it climbs one level and enters one of the directories. -/
theorem currentKey_inside_iff : StaysInside id (currentKey p) ↔ upsOf p = 0 ∨ EntersAgain id p := by
  constructor
  · intro h
    have hroot : ∀ root : StoreRoot, ∃ d ∈ keyDirs id, root.base ++ d <+:
        (root.base ++ ["current".toList]).take (root.base.length + 1 - upsOf p) ++ (climb (components p)).names := by
      intro root
      obtain ⟨d, hd, hpre⟩ := h root
      rw [resolve_currentKey] at hpre
      unfold Climb.reach at hpre
      rw [List.length_append] at hpre
      exact ⟨d, hd, hpre⟩
    rcases hup : upsOf p with _ | _ | k
    · exact .inl rfl
    · obtain ⟨d, hd, hpre⟩ := hroot (.sqlite [])
      rw [hup] at hpre
      exact .inr ⟨hup, d, hd, (List.prefix_append_right_inj ["files".toList]).1 hpre⟩
    · -- a store under a directory that the path does not name
      exfalso
      obtain ⟨x, hx⟩ := Infinite.exists_notMem_finset (climb (components p)).names.toFinset
      rw [List.mem_toFinset] at hx
      obtain ⟨d, -, hd⟩ := hroot (.sqlite [x])
      obtain ⟨d', -, hd'⟩ := hroot (.filesystem [x] 0)
      rw [hup] at hd hd'
      cases k with
      | zero =>
        have h₁ : "files".toList :: d <+: (climb (components p)).names := (List.prefix_append_right_inj [x]).1 hd
        have h₂ : Text.ofNat 0 :: d' <+: (climb (components p)).names := (List.prefix_append_right_inj [x]).1 hd'
        cases hnames : (climb (components p)).names with
        | nil =>
          rw [hnames] at h₁
          exact absurd h₁ (by simp)
        | cons y ys =>
          rw [hnames] at h₁ h₂
          have := (List.cons_prefix_cons.1 h₁).1.trans (List.cons_prefix_cons.1 h₂).1.symm
          exact absurd this (by decide)
      | succ k =>
        have hzero : ([x] ++ ["files".toList]).length + 1 - (k + 1 + 1 + 1) = 0 := by
          simp
        have hd : x :: ("files".toList :: d) <+: (climb (components p)).names := by
          have := hd
          unfold StoreRoot.base at this
          rw [hzero] at this
          exact this
        exact hx (hd.subset List.mem_cons_self)
  · rintro (h | ⟨hup, d, hd, hpre⟩)
    · exact inside_of_level h (d := ["current".toList]) (by simp [keyDirs]) (List.prefix_refl _) (resolve_currentKey · p)
    · intro root
      refine ⟨d, hd, ?_⟩
      rw [resolve_currentKey]
      unfold Climb.reach
      rw [show (climb (components p)).ups = 1 from hup, List.length_append, List.length_singleton, Nat.add_sub_cancel,
        List.take_left' rfl]
      exact (List.prefix_append_right_inj _).2 hpre

/-- Two levels up from a snapshot is still under `versions/`. -/
theorem snapshotFileKey_inside (n : Nat) (h : upsOf p ≤ 1) : StaysInside id (snapshotFileKey (versionName n) p) := by
  intro root
  refine ⟨["versions".toList], by simp [keyDirs], ?_⟩
  rw [resolve_snapshotFileKey]
  unfold Climb.reach
  have hlen : (root.base ++ ["versions".toList, versionName n, "snapshot".toList]).length - upsOf p =
      (root.base ++ ["versions".toList]).length + (2 - upsOf p) := by
    simp only [List.length_append, List.length_cons, List.length_nil]
    omega
  have hsplit : root.base ++ ["versions".toList, versionName n, "snapshot".toList] =
      (root.base ++ ["versions".toList]) ++ [versionName n, "snapshot".toList] := by simp
  rw [show (climb (components p)).ups = upsOf p from rfl, hlen, hsplit, List.take_length_add_append, List.append_assoc]
  exact List.prefix_append _ _

/-- None of the directories of a repository is called like a workspace. -/
theorem keyDirs_ne_text : ∀ d ∈ keyDirs id, ∀ rest, ¬ d <+: id.text :: rest := by
  have hletter : ∀ w ∈ ["workspaces".toList, "current".toList, "versions".toList, "blobs".toList],
      w.all (fun c => c == '+' || c.isDigit) = false := by decide
  have hword : ∀ w ∈ ["workspaces".toList, "current".toList, "versions".toList, "blobs".toList], w ≠ id.text := by
    rintro w hw rfl
    have hall : id.text.all (fun c => c == '+' || c.isDigit) = true :=
      List.all_eq_true.2 fun c hc => by simpa using Text.isDigit_of_parseNat id.parses c hc
    rw [hletter _ hw] at hall
    cases hall
  intro d hd rest hpre
  simp only [keyDirs, List.mem_cons, List.not_mem_nil, or_false] at hd
  rcases hd with rfl | rfl | rfl | rfl <;> exact hword _ (by simp) (List.cons_prefix_cons.1 hpre).1

/-- No path that climbs leads back into the workspace and back into HEAD. -/
theorem workspaceKey_inside (hws : StaysInside id (workspaceKey id p)) (hcur : StaysInside id (currentKey p)) :
    upsOf p = 0 := by
  rcases currentKey_inside_iff.1 hcur with h | ⟨hup, d, hd, hpre⟩
  · exact h
  · exfalso
    obtain ⟨d', hd', hpre'⟩ := hws (.sqlite [])
    rw [resolve_workspaceKey] at hpre'
    unfold Climb.reach at hpre'
    rw [show (climb (components p)).ups = 1 from hup] at hpre'
    have hpre' : d' <+: "workspaces".toList :: (climb (components p)).names :=
      (List.prefix_append_right_inj ["files".toList]).1 hpre'
    have hid : [id.text] <+: (climb (components p)).names := by
      simp only [keyDirs, List.mem_cons, List.not_mem_nil, or_false] at hd'
      rcases hd' with rfl | rfl | rfl | rfl
      · exact (List.cons_prefix_cons.1 hpre').2
      · exact absurd (List.cons_prefix_cons.1 hpre').1 (by decide)
      · exact absurd (List.cons_prefix_cons.1 hpre').1 (by decide)
      · exact absurd (List.cons_prefix_cons.1 hpre').1 (by decide)
    obtain ⟨rest, hrest⟩ := hid
    rw [← hrest] at hpre
    exact keyDirs_ne_text d hd rest hpre

/-- A blob is a file of `blobs/`. -/
theorem blobKey_inside {hash : Text} (hslash : '/' ∉ hash) (hdots : '.' ∉ hash) : StaysInside id (blobKey hash) := by
  have hnone : dotDot ∉ components hash := by
    unfold components
    rw [List.splitOn_eq_singleton hslash]
    intro h
    rw [List.mem_filter, List.mem_singleton] at h
    exact hdots (h.1 ▸ List.mem_cons_self)
  intro root
  refine ⟨["blobs".toList], by simp [keyDirs], ?_⟩
  have hkey : components (blobKey hash) = ["blobs".toList] ++ components hash := components_append "blobs".toList hash
  unfold StoreRoot.resolve FilePath.resolve
  rw [hkey, show isAbsolute (blobKey hash) = false from rfl, walk_append, walk_names _ hnone,
    walk_names _ (by decide)]
  exact List.prefix_append _ _


/-! ## What the requests change in the store -/

/-- The store is as it was but for the keys of `K`. -/
def Frame (K : Text → Prop) (S : FMap Text Bytes) (b : Backend) : Prop := ∀ key, ¬ K key → b.store.get key = S.get key

section Frames

variable {K : Text → Prop} {S : FMap Text Bytes}

theorem records_frame (K : Text → Prop) (S : FMap Text Bytes) : Records (Frame K S) where
  events _ _ h := h
  scopes _ _ h := h
  issues _ _ h := h
  versions _ _ h := h
  head _ _ h := h

theorem frame_put {i : Nat} {key : Text} {content : Bytes} (hK : K key) : Keeps (Frame K S) (put fails i key content) := by
  refine (keeps_files i _).bind fun _ => keeps_modify fun b hb other hother => ?_
  show FMap.get (b.store.insert key content) other = _
  rw [FMap.get_insert]
  by_cases h : other = key
  · rw [h] at hother
    exact absurd hK hother
  · rw [if_neg h]
    exact hb other hother

theorem frame_finishUpload (wsMeta : WorkspaceMeta) (touched : Bool) (merged : List Path) :
    Keeps (Frame K S) (finishUpload fails wsMeta touched merged) := keeps_finishUpload fun _ _ _ _ _ _ _ h => h

variable (hblob : ∀ c, K (blobKey (env.sha256Hex c)))

include hblob

theorem frame_storeFile {i : Nat} {content : Bytes} (hK : K (workspaceKey id p)) :
    Keeps (Frame K S) (storeFile env fails i id p content) := by
  refine (keeps_existing _ _ _).bind fun old => ((frame_put hK).mapErr _).bind fun _ =>
    (keeps_ignored (frame_put (hblob _))).bind fun _ => ?_
  cases old
  · exact keeps_record (records_frame K S) _
  · exact (keeps_ignored (frame_put (hblob _))).bind fun _ => keeps_record (records_frame K S) _

theorem frame_uploadFile {entry : FileEntry × Nat} (uploaded : List Path)
    (hK : ∀ q, checkEntry codecs entry.1 = .ok q → K (workspaceKey id q.1)) :
    Keeps (Frame K S) (uploadFile env fails codecs id uploaded entry) := by
  unfold uploadFile
  cases h : checkEntry codecs entry.1 with
  | error e => exact keeps_fail _ _
  | ok q => exact (frame_storeFile hblob (hK q h)).bind fun _ => keeps_pure _ _

theorem frame_uploadEntry {current : FMap Path Text} {files : FMap Path Bytes} {q : Path × Nat} (tally : Tally)
    (hK : ∀ c, files.get q.1 = some c → current.get q.1 ≠ some (env.sha256Hex c) → K (workspaceKey id q.1)) :
    Keeps (Frame K S) (uploadEntry env fails id current files tally q) := by
  have hstored : K (workspaceKey id q.1) → ∀ c kind (t : Tally), Keeps (Frame K S) (do
      mapErr (fun _ => ApiError.internal) (put fails q.2 (workspaceKey id q.1) c)
      ignored (put fails q.2 (blobKey (env.sha256Hex c)) c)
      record fails kind
      pure t) := fun hq c kind t =>
    ((frame_put hq).mapErr _).bind fun _ => (keeps_ignored (frame_put (hblob _))).bind fun _ =>
      (keeps_record (records_frame K S) _).bind fun _ => keeps_pure _ _
  unfold uploadEntry
  cases hf : files.get q.1 with
  | none => exact keeps_pure _ _
  | some c =>
    dsimp only
    cases hc : current.get q.1 with
    | none => exact hstored (hK c hf (by rw [hc]; exact fun h => by cases h)) _ _ _
    | some old =>
      dsimp only
      split
      · exact keeps_pure _ _
      · rename_i hne
        exact hstored (hK c hf (by rw [hc]; exact fun h => hne (Option.some.inj h))) _ _ _

theorem frame_upload {req : UploadRequest} (hK : ∀ q ∈ sentFiles env codecs b req, K (workspaceKey id q.1)) :
    Frame K b.store (upload env Fails.none codecs id req b).2 := by
  have hstart : Frame K b.store b := fun _ _ => rfl
  have hends : Ends (upload env Fails.none codecs id req) b (fun _ b' => Frame K b.store b')
      (fun _ b' => Frame K b.store b') := by
    cases req with
    | files body =>
      have hfiles : ∀ q ∈ body.files.zipIdx, ∀ uploaded, Keeps (Frame K b.store)
          (uploadFile env Fails.none codecs id uploaded q) := by
        intro q hq uploaded
        refine frame_uploadFile hblob uploaded fun r hr => hK r ?_
        exact List.mem_filterMap.2 ⟨q.1, List.fst_mem_of_mem_zipIdx hq, by rw [hr]; rfl⟩
      refine Ends.bind (R := fun _ b' => Frame K b.store b') (F := fun _ b' => Frame K b.store b') ?_ (fun _ _ h => h)
        fun _ _ h => ends_pure h
      refine ends_bind (ends_ofExcept (fun _ _ => ?_) fun _ _ => hstart)
      refine (getWorkspace_ends id.uuid b).bind (fun _ _ h => h.1 ▸ hstart) ?_
      rintro wsMeta b₀ ⟨hrow, rfl⟩
      rw [row_id hrow]
      refine Keeps.ends ?_ hstart
      refine (keeps_foldlM_mem hfiles _).bind fun _ => (keeps_rescope (records_frame K _) _ _).bind fun _ => ?_
      refine (keeps_foldlM (fun _ _ => keeps_deletePath (records_frame K _) _ _) _ _).bind fun _ => ?_
      exact (frame_finishUpload _ _ _).bind fun _ => keeps_pure _ _
    | snapshot allow gz =>
      refine Ends.bind (R := fun _ b' => Frame K b.store b') (F := fun _ b' => Frame K b.store b') ?_ (fun _ _ h => h)
        fun _ _ h => ends_pure h
      unfold uploadSnapshotHandler
      split
      · exact ends_fail hstart
      refine (getWorkspace_ends id.uuid b).bind (fun _ _ h => h.1 ▸ hstart) ?_
      rintro wsMeta b₀ ⟨hrow, rfl⟩
      refine ends_bind (ends_ofExcept (fun snapshot hread => ?_) fun _ _ => hstart)
      apply ends_bind_of_ok (currentMap_apply b₀)
      rw [if_neg (by decide)]
      have hentries : ∀ q ∈ (env.hashOrder snapshot.files.keys).zipIdx, ∀ tally, Keeps (Frame K b₀.store)
          (uploadEntry env Fails.none id (currentHashes env b₀) snapshot.files tally q) := by
        intro q _ tally
        refine frame_uploadEntry hblob tally fun c hc hne => hK (q.1, c) ?_
        simp only [sentFiles, hread]
        exact List.mem_filter.2 ⟨FMap.mem_pairs.2 hc, by simpa using hne⟩
      refine Keeps.ends ((keeps_foldlM_mem hentries _).bind fun _ => keeps_ite (keeps_fail _ _) ?_) hstart
      refine (keeps_foldlM (fun _ _ => keeps_noteDeleted (records_frame K _) _ _) _ _).bind fun _ => ?_
      exact (frame_finishUpload _ _ _).bind fun _ => keeps_pure _ _
  rcases hrun : upload env Fails.none codecs id req b with ⟨e | r, b'⟩
  · exact hends.error hrun
  · exact hends.ok hrun

end Frames

/-- A submit writes and deletes files of HEAD and of the snapshot of its version, at the paths of the workspace. -/
theorem touched_of_submitted {r : SubmitResult} (h : Submitted env Fails.none id b r b') {key : Text}
    (hkey : b'.store.get key ≠ b.store.get key) : ∃ m p, b.row id.uuid = some m ∧
      (p ∈ m.deletedPaths ∨ (b.overlay id p).isSome) ∧ key ∈ deletionKeys r.version.versionId p := by
  obtain ⟨m, b₁, hrow, hm, rfl⟩ := h.merged
  obtain ⟨hacc, hver, S, rfl, hS⟩ := (mergeOverStore_flushes id m (S3.harmless_noFaults _)).ok hm
  rw [recordMerge_store] at hkey
  have hkey : S.get key ≠ b.store.get key := hkey
  by_cases hslot : ∃ k : Slot, key = (configOf id).path k.place
  · obtain ⟨k, rfl⟩ := hslot
    rw [hS.slots k] at hkey
    cases k with
    | overlay p => exact absurd rfl hkey
    | base p =>
      refine ⟨m, p, hrow, ?_, List.mem_cons_self⟩
      by_contra hno
      rw [not_or, Option.not_isSome_iff_eq_none] at hno
      exact hkey (mergedTree_of_not_overlay hno.1 hno.2)
    | snapshot n p =>
      by_cases hc : n = parseVersionNumber (headOf b m) + 1 ∧ (p ∈ m.deletedPaths ∨ (filesIn b id (.overlay p)).isSome) ∧
          (filesIn b id (.base p)).isSome
      · obtain ⟨rfl, hp, -⟩ := hc
        rw [filesIn_overlay] at hp
        refine ⟨m, p, hrow, hp, ?_⟩
        rw [hver]
        exact List.mem_cons_of_mem _ List.mem_cons_self
      · exact absurd (if_neg hc) hkey
  · push Not at hslot
    exact absurd (hS.rest key hslot) hkey

/-! ## Which paths stay inside -/

/-- The digests are written in hexadecimal digits. -/
def HexDigests (env : Env) : Prop := ∀ c, ∀ x ∈ env.sha256Hex c, x ∈ "0123456789abcdef".toList

/-- No path of the request climbs above its start; one that is deleted may climb one level and enter one of the four
directories by its name. -/
def Level (env : Env) (codecs : Codecs) (id : PathId) (b : Backend) (req : UploadRequest) : Prop :=
  (∀ q ∈ sentFiles env codecs b req, upsOf q.1 = 0) ∧ ∀ p ∈ sentDeletions codecs req, upsOf p = 0 ∨ EntersAgain id p

/-- The paths that the server has, in HEAD or in the workspace. -/
def Known (id : PathId) (b : Backend) (p : Path) : Prop :=
  (b.current p).isSome ∨ (b.overlay id p).isSome ∨ ∃ m, b.row id.uuid = some m ∧ p ∈ m.deletedPaths

theorem fileKeys_inside_iff (hhex : HexDigests env) (n : Nat) (q : Path × Bytes) :
    (∀ key ∈ fileKeys env id (versionName n) q, StaysInside id key) ↔ upsOf q.1 = 0 := by
  constructor
  · intro h
    exact workspaceKey_inside (h _ List.mem_cons_self) (h _ (List.mem_cons_of_mem _ List.mem_cons_self))
  · intro hup key hkey
    simp only [fileKeys, List.mem_cons, List.not_mem_nil, or_false] at hkey
    rcases hkey with rfl | rfl | rfl | rfl
    · exact inside_of_level hup (d := ["workspaces".toList, id.text]) (by simp [keyDirs]) (List.prefix_refl _)
        (resolve_workspaceKey · id q.1)
    · exact currentKey_inside_iff.2 (.inl hup)
    · exact snapshotFileKey_inside n (by omega)
    · have hslash : '/' ∉ "0123456789abcdef".toList := by decide
      have hdot : '.' ∉ "0123456789abcdef".toList := by decide
      exact blobKey_inside (fun h => hslash (hhex q.2 _ h)) fun h => hdot (hhex q.2 _ h)

theorem deletionKeys_inside_iff (n : Nat) (p : Path) :
    (∀ key ∈ deletionKeys (versionName n) p, StaysInside id key) ↔ upsOf p = 0 ∨ EntersAgain id p := by
  constructor
  · exact fun h => currentKey_inside_iff.1 (h _ List.mem_cons_self)
  · intro h key hkey
    simp only [deletionKeys, List.mem_cons, List.not_mem_nil, or_false] at hkey
    rcases hkey with rfl | rfl
    · exact currentKey_inside_iff.2 h
    · apply snapshotFileKey_inside n
      rcases h with h | h
      · omega
      · exact Nat.le_of_eq h.1

theorem sentDeletions_of_asked {req : UploadRequest} (hp : p ∈ askedPaths env codecs b req) :
    p ∈ sentDeletions codecs req ∨ (b.current p).isSome := by
  cases req with
  | files body => exact .inl hp
  | snapshot allow gz =>
    unfold askedPaths at hp
    unfold sentDeletions
    cases hread : readSnapshot codecs gz with
    | error e => simp [hread] at hp
    | ok snapshot =>
      obtain ⟨files, _ | manifest⟩ := snapshot
      · simp only [hread, snapshotDeletions, List.mem_filter, (env.hashOrderPerm _).mem_iff] at hp
        exact .inr (mem_currentPaths.1 ((keys_currentHashes env b).mem_iff.1 hp.1)).2
      · simp only [hread, snapshotDeletions] at hp
        simp only [hread]
        exact .inl hp

/-- **The keys of an accepted upload and its submit stay inside the directories of the repository exactly when no path
climbs above its start**; and these are the keys that the two requests write and delete, besides those of paths that
the server has already. -/
theorem keys_inside_iff (hhex : HexDigests env) (hrow : b.row id.uuid = some wsMeta) {req : UploadRequest}
    (hup : upload env Fails.none codecs id req b = (.ok ⟨⟩, b₁)) {newId : Uuid} {r : SubmitResult}
    (hsub : submitWorkspaceHandler env Fails.none newId id b₁ = (.ok r, b')) :
    ((∀ key ∈ derivedKeys env codecs id r.version.versionId b req, StaysInside id key) ↔ Level env codecs id b req) ∧
      ∀ key, b'.store.get key ≠ b.store.get key →
        key ∈ derivedKeys env codecs id r.version.versionId b req ∨ (∃ c, key = blobKey (env.sha256Hex c)) ∨
          ∃ p, Known id b p ∧ key ∈ deletionKeys r.version.versionId p := by
  have hsubmitted := (submitWorkspaceHandler_ends env Fails.none newId id b₁).ok hsub
  obtain ⟨m, hm, hacc, hver, -⟩ := hsubmitted.stored (S3.harmless_noFaults _)
  refine ⟨?_, fun key hkey => ?_⟩
  · rw [hver]
    unfold Level nextVersion derivedKeys
    simp only [List.mem_append, List.mem_flatMap, or_imp, forall_and, forall_exists_index, and_imp]
    constructor
    · rintro ⟨hfiles, hdel⟩
      exact ⟨fun q hq => (fileKeys_inside_iff hhex _ q).1 fun key hkey => hfiles key q hq hkey,
        fun p hp => (deletionKeys_inside_iff _ p).1 fun key hkey => hdel key p hp hkey⟩
    · rintro ⟨hfiles, hdel⟩
      exact ⟨fun key q hq hkey => (fileKeys_inside_iff hhex _ q).2 (hfiles q hq) key hkey,
        fun key p hp hkey => (deletionKeys_inside_iff _ p).2 (hdel p hp) key hkey⟩
  · let K : Text → Prop := fun key =>
      (∃ q ∈ sentFiles env codecs b req, key = workspaceKey id q.1) ∨ ∃ c, key = blobKey (env.sha256Hex c)
    have hframe : Frame K b.store b₁ := by
      have := @frame_upload env codecs id b K (fun c => .inr ⟨c, rfl⟩) req fun q hq => .inl ⟨q, hq, rfl⟩
      rw [hup] at this
      exact this
    have hfile : ∀ q ∈ sentFiles env codecs b req, ∀ key ∈ fileKeys env id r.version.versionId q,
        key ∈ derivedKeys env codecs id r.version.versionId b req := fun q hq key hkey =>
      List.mem_append_left _ (List.mem_flatMap.2 ⟨q, hq, hkey⟩)
    by_cases hstep : b₁.store.get key = b.store.get key
    · rw [← hstep] at hkey
      obtain ⟨m', p, hm', hp, hkeys⟩ := touched_of_submitted hsubmitted hkey
      rcases hp with hp | hp
      · obtain ⟨m₁, hm₁, hdel⟩ := ((@upload_collected env codecs id b wsMeta hrow req).ok hup).row
        rw [row_id hrow, hm'] at hm₁
        cases hm₁
        rcases (hdel p).1 hp with hp | ⟨req', hreq', -, hasked⟩
        · exact .inr (.inr ⟨p, .inr (.inr ⟨wsMeta, hrow, hp⟩), hkeys⟩)
        · rw [List.mem_singleton.1 hreq'] at hasked
          rcases sentDeletions_of_asked hasked with hp | hp
          · exact .inl (List.mem_append_right _ (List.mem_flatMap.2 ⟨p, hp, hkeys⟩))
          · exact .inr (.inr ⟨p, .inl hp, hkeys⟩)
      · by_cases hover : (b.overlay id p).isSome
        · exact .inr (.inr ⟨p, .inr (.inl hover), hkeys⟩)
        · -- the file has come with the upload
          have hK : K (workspaceKey id p) := by
            by_contra hno
            have : b₁.overlay id p = b.overlay id p := hframe _ hno
            rw [← this] at hover
            exact hover hp
          rcases hK with ⟨q, hq, hqp⟩ | ⟨c, hc⟩
          · obtain rfl := (workspaceKey_injective hqp).2
            refine .inl (hfile q hq key ?_)
            simp only [deletionKeys, fileKeys, List.mem_cons, List.not_mem_nil, or_false] at hkeys ⊢
            rcases hkeys with h | h
            · exact .inr (.inl h)
            · exact .inr (.inr (.inl h))
          · exact absurd hc (workspaceKey_ne_blobKey _ _ _)
    · have hK : K key := by
        by_contra hno
        exact hstep (hframe key hno)
      rcases hK with ⟨q, hq, rfl⟩ | hblob
      · exact .inl (hfile q hq _ List.mem_cons_self)
      · exact .inr (.inl hblob)

/-! ## Two uploads -/

/-- Digests of one hexadecimal digit for each byte. -/
def hexed : Env :=
  { Env.plain with sha256Hex := fun c => c.map fun x => "0123456789abcdef".toList.getD (x.toNat % 16) '0' }

theorem hexDigests_hexed : HexDigests hexed := by
  have hdigit : ∀ i < 16, "0123456789abcdef".toList.getD i '0' ∈ "0123456789abcdef".toList := by decide
  intro c x hx
  obtain ⟨y, -, rfl⟩ := List.mem_map.1 hx
  exact hdigit _ (Nat.mod_lt _ (by decide))

/-- An upload of one file. -/
def sendsFile (path : String) : UploadRequest := .files ⟨[⟨path.toList, "YQ==".toList⟩], []⟩

theorem keys_inside_iff_plain_file : ∃ r b₁ b',
    upload hexed Fails.none oneLetter 1 (sendsFile "src/a") oneWorkspace = (.ok ⟨⟩, b₁) ∧
    submitWorkspaceHandler hexed Fails.none 9 1 b₁ = (.ok r, b') ∧
    ∀ key ∈ derivedKeys hexed oneLetter 1 r.version.versionId oneWorkspace (sendsFile "src/a"), StaysInside 1 key := by
  have hrow : (oneWorkspace.row 1).isSome = true := by decide +kernel
  obtain ⟨m, hm⟩ := Option.isSome_iff_exists.1 hrow
  have hok : (upload hexed Fails.none oneLetter 1 (sendsFile "src/a") oneWorkspace).1.isOk = true ∧
      (submitWorkspaceHandler hexed Fails.none 9 1
        (upload hexed Fails.none oneLetter 1 (sendsFile "src/a") oneWorkspace).2).1.isOk = true := by decide +kernel
  have hlevel : Level hexed oneLetter 1 oneWorkspace (sendsFile "src/a") := by
    unfold Level
    decide +kernel
  rcases hup : upload hexed Fails.none oneLetter 1 (sendsFile "src/a") oneWorkspace with ⟨e | ⟨⟩, b₁⟩
  · rw [hup] at hok
    cases hok.1
  rcases hsub : submitWorkspaceHandler hexed Fails.none 9 1 b₁ with ⟨e | r, b'⟩
  · rw [hup, hsub] at hok
    cases hok.2
  exact ⟨r, b₁, b', rfl, hsub, (keys_inside_iff hexDigests_hexed hm hup hsub).1.2 hlevel⟩

/-- A path without a slash in it passes the check, and its backslashes then lead out of the repository. -/
theorem backslashes_lead_outside :
    (upload hexed Fails.none oneLetter 1 (sendsFile "a\\..\\..\\..\\..\\x") oneWorkspace).1.isOk = true ∧
      (submitWorkspaceHandler hexed Fails.none 9 1
        (upload hexed Fails.none oneLetter 1 (sendsFile "a\\..\\..\\..\\..\\x") oneWorkspace).2).1.isOk = true ∧
      (StoreRoot.filesystem ["srv".toList] 7).resolve (workspaceKey 1 "a/../../../../x".toList) = ["srv".toList, "x".toList] ∧
      ∃ key ∈ derivedKeys hexed oneLetter 1 (versionName 2) oneWorkspace (sendsFile "a\\..\\..\\..\\..\\x"),
        ¬ StaysInside 1 key := by
  refine ⟨by decide +kernel, by decide +kernel, by decide +kernel, workspaceKey 1 "a/../../../../x".toList,
    by decide +kernel, fun h => ?_⟩
  have hout : ∀ d ∈ keyDirs 1, ¬ (StoreRoot.filesystem ["srv".toList] 7).base ++ d <+:
      (StoreRoot.filesystem ["srv".toList] 7).resolve (workspaceKey 1 "a/../../../../x".toList) := by decide +kernel
  obtain ⟨d, hd, hpre⟩ := h (.filesystem ["srv".toList] 7)
  exact hout d hd hpre

end Handlers
end Vai
