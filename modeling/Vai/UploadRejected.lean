import Vai.Kept
/-!
# UploadRejected — what a rejected upload leaves behind

An upload that is answered with a 4xx error should change nothing.  Files are stored and logged one by one before the
later ones are checked, and the deletions and the rail are looked at last, so it changes nothing exactly when it is
rejected before the first file is stored (`rejected_untouched_iff`).
-/
namespace Vai
namespace Handlers

open Proc Backend

variable {env : Env} {fails : Fails} {codecs : Codecs} {id : PathId} {b b' : Backend}

/-- The database takes every event. -/
def Fails.Appends (fails : Fails) : Prop := ∀ kind, fails.db (.append kind) = false

theorem record_appends (ha : Fails.Appends fails) (kind : EventKind) (b : Backend) :
    record fails kind b = (.ok ⟨⟩, recorded kind b) := by
  rw [record_apply, ha kind]
  rfl

/-! ## The event log only grows -/

/-- At least `n` events. -/
def Grown (n : Nat) (b : Backend) : Prop := n ≤ b.events.length

variable {n : Nat}

theorem survives_grown : Survives (Grown n) where
  store _ _ h := h
  events b kind h := by
    show n ≤ (b.events ++ [_]).length
    rw [List.length_append]
    exact Nat.le_add_right_of_le h
  scopes _ _ h := h
  issues _ _ h := h
  versions _ _ h := h
  head _ _ h := h

theorem grown_finishUpload (wsMeta : WorkspaceMeta) (touched : Bool) (merged : List Path) :
    Keeps (Grown n) (finishUpload fails wsMeta touched merged) := keeps_finishUpload fun _ _ _ _ _ _ _ h => h

/-! ## A stored file leaves an event -/

theorem get_state (i : Nat) (key : Text) (b : Backend) : (Backend.get fails i key b).2 = b := by
  unfold Backend.get files
  by_cases h : fails.store i (.get key) = true
  · rw [if_pos h]
    rfl
  · rw [if_neg h]
    rw [bind_of_ok (pure_apply () b), bind_of_ok (read_apply _ b)]
    cases b.store.get key <;> rfl

theorem mapErr_state {α ε ε' : Type} (g : ε' → ε) (m : Proc Backend ε' α) (b : Backend) : (mapErr g m b).2 = (m b).2 := by
  unfold mapErr
  rcases m b with ⟨_ | _, _⟩ <;> rfl

theorem existing_apply (i : Nat) (path : Path) (b : Backend) : ∃ old, existing fails i id path b = (.ok old, b) := by
  unfold existing
  rw [bind_apply, attempt_apply]
  simp only [mapErr_state, get_state]
  rw [bind_apply, attempt_apply]
  simp only [mapErr_state, get_state]
  exact ⟨_, rfl⟩

theorem record_ends (ha : Fails.Appends fails) (kind : EventKind) (hb : Grown n b) {E : ApiError → Backend → Prop} :
    Ends (record fails kind) b (fun _ b' => Grown (n + 1) b') E := by
  unfold Ends
  rw [record_appends ha]
  show n + 1 ≤ (b.events ++ [_]).length
  rw [List.length_append]
  exact Nat.add_le_add_right hb 1

theorem ignored_ends {m : Proc Backend StorageError Unit} (h : Keeps (Grown n) m) (hb : Grown n b)
    {E : ApiError → Backend → Prop} : Ends (ignored m) b (fun _ b' => Grown n b') E := by
  unfold Ends
  rw [ignored_apply]
  exact h b hb

/-- A file that is stored leaves an event; one that cannot be stored is an internal error. -/
theorem storeFile_ends (ha : Fails.Appends fails) (i : Nat) (path : Path) (content : Bytes) (hb : Grown n b) :
    Ends (storeFile env fails i id path content) b (fun _ b' => Grown (n + 1) b') (fun e _ => e = .internal) := by
  obtain ⟨old, hold⟩ := @existing_apply fails id i path b
  apply ends_bind_of_ok hold
  have hput := (@keeps_putFile fails _ id (survives_grown.uploadable id) i path content).ends hb
  refine (ends_mapErr (hput.mono (fun _ _ h => h) fun _ _ _ => rfl)).bind (fun _ _ h => h) fun _ b₁ h₁ => ?_
  refine (ignored_ends (keeps_putBlob (survives_grown.uploadable id) _ _ _) h₁).bind (fun _ _ h => h) fun _ b₂ h₂ => ?_
  cases old with
  | none => exact record_ends ha _ h₂
  | some old =>
    refine (ignored_ends (keeps_putBlob (survives_grown.uploadable id) _ _ _) h₂).bind (fun _ _ h => h) fun _ b₃ h₃ => ?_
    exact record_ends ha _ h₃

theorem uploadFile_ends (ha : Fails.Appends fails) (uploaded : List Path) (entry : FileEntry × Nat) (hb : Grown n b) :
    Ends (uploadFile env fails codecs id uploaded entry) b
      (fun _ b' => Grown (n + 1) b' ∧ ∃ q, checkEntry codecs entry.1 = .ok q)
      (fun e b' => e = .internal ∨ checkEntry codecs entry.1 = .error e ∧ b' = b) := by
  unfold uploadFile
  cases hc : checkEntry codecs entry.1 with
  | error e => exact ends_bind (ends_fail (.inr ⟨rfl, rfl⟩))
  | ok q =>
    apply ends_bind_of_ok (pure_apply q b)
    refine ((storeFile_ends ha entry.2 q.1 q.2 hb).mono (fun _ _ h => h) fun _ _ h => .inl h).bind (fun _ _ h => h) ?_
    exact fun _ _ h => ends_pure ⟨h, q, rfl⟩

/-! ## The two handlers -/

inductive UploadRequest where
  | files (body : UploadFilesRequest)
  | snapshot (allowDestructive : Bool) (gz : Bytes)

/-- An upload of either kind, its answer apart. -/
def upload (env : Env) (fails : Fails) (codecs : Codecs) (id : PathId) : UploadRequest → Proc Backend ApiError PUnit
  | .files body => do let _ ← uploadWorkspaceFilesHandler env fails codecs id body
  | .snapshot allowDestructive gz => do let _ ← uploadSnapshotHandler env fails codecs id allowDestructive gz

/-- What an upload may change is as it was. -/
structure Untouched (id : PathId) (b b' : Backend) : Prop where
  overlay : ∀ p, b'.overlay id p = b.overlay id p
  events : b'.events = b.events
  row : b'.row id = b.row id
  scopes : ∀ w, b'.scopes.get w = b.scopes.get w

theorem untouched_refl (id : PathId) (b : Backend) : Untouched id b b := ⟨fun _ => rfl, rfl, rfl, fun _ => rfl⟩

theorem not_untouched_of_grown (h : Grown (b.events.length + 1) b') : ¬ Untouched id b b' := by
  intro hu
  unfold Grown at h
  rw [hu.events] at h
  omega

/-- The paths the listing of a workspace gives. -/
def listedPaths (fails : Fails) (id : PathId) (b : Backend) : List Path :=
  let keys := if fails.store 0 (.list (workspacePrefix id)) then []
    else (b.store.pairs.filter (fun q => (workspacePrefix id).isPrefixOf q.1)).map Prod.fst
  (keys.filterMap (Text.stripPrefix (workspacePrefix id))).filter (fun p => p ≠ [])

theorem rescope_apply (id : PathId) (wsMeta : WorkspaceMeta) (b : Backend) : rescope fails id wsMeta b =
    (.ok (), updateScope wsMeta.id wsMeta.intent (listedPaths fails id b) b) := by
  unfold rescope Backend.list Backend.files listedPaths
  rw [bind_apply, attempt_apply]
  unfold mapErr
  by_cases h : fails.store 0 (.list (workspacePrefix id)) = true
  · simp only [if_pos h]
    rfl
  · simp only [if_neg h]
    rfl

/-- The conflict engine knows the workspace under its intent and with the files that the listing gives. -/
def Tracked (fails : Fails) (id : PathId) (b : Backend) (wsMeta : WorkspaceMeta) : Prop :=
  ∃ s, b.scopes.get wsMeta.id = some s ∧ s.intent = wsMeta.intent ∧
    s.writeFiles = (listedPaths fails id b).toFinset

theorem rescope_untouched_iff (id : PathId) (wsMeta : WorkspaceMeta) (b : Backend) :
    Untouched id b (rescope fails id wsMeta b).2 ↔ Tracked fails id b wsMeta := by
  rw [rescope_apply]
  have hget : ∀ w, (updateScope wsMeta.id wsMeta.intent (listedPaths fails id b) b).scopes.get w =
      if w = wsMeta.id then some { (b.scopes.get wsMeta.id).getD ⟨wsMeta.intent, ∅, ∅, ∅⟩ with
        intent := wsMeta.intent, writeFiles := (listedPaths fails id b).toFinset } else b.scopes.get w :=
    fun w => FMap.get_insert _ _ _ _
  constructor
  · intro hu
    have h := hu.scopes wsMeta.id
    rw [hget, if_pos rfl] at h
    exact ⟨_, h.symm, rfl, rfl⟩
  · rintro ⟨s, hs, hintent, hfiles⟩
    refine ⟨fun _ => rfl, rfl, rfl, fun w => ?_⟩
    rw [hget]
    split
    · rename_i hw
      rw [hw, hs, Option.getD_some, ← hintent, ← hfiles]
    · rfl

/-- Before the first file: the request is rejected as a whole, its workspace is not there, its first file is rejected,
or it has no file, its first deleted path is rejected, and the conflict engine learns nothing new. -/
def FilesRejectedFirst (fails : Fails) (codecs : Codecs) (id : PathId) (body : UploadFilesRequest) (b : Backend) : Prop :=
  (∃ e, checkRequest body = .error e) ∨ b.row id = none ∨
    (∃ entry rest e, body.files = entry :: rest ∧ checkEntry codecs entry = .error e) ∨
    (body.files = [] ∧ (∃ raw rest, body.deletedPaths = raw :: rest ∧ sanitizePath raw = none) ∧
      ∃ wsMeta, b.row id = some wsMeta ∧ Tracked fails id b wsMeta)

theorem finishUpload_ends (wsMeta : WorkspaceMeta) (touched : Bool) (merged : List Path) (b : Backend)
    {E : ApiError → Backend → Prop} : Ends (finishUpload fails wsMeta touched merged) b (fun _ _ => True) E := by
  unfold finishUpload
  dsimp only
  split_ifs
  all_goals first
    | exact ends_pure trivial
    | (unfold Ends; rw [ignored_apply]; trivial)

theorem noteDeleted_ends {i : Uuid} (ha : Fails.Appends fails) (merged : List Path) (path : Path) (hb : Grown n b)
    {E : ApiError → Backend → Prop} : Ends (noteDeleted fails i merged path) b (fun _ b' => Grown (n + 1) b') E :=
  (record_ends ha _ hb).bind (fun _ _ h => h) fun _ _ h => ends_pure h

theorem grown_ends {α : Type} {m : Proc Backend ApiError α} (hk : Keeps (Grown (n + 1)) m) (hb : Grown (n + 1) b')
    (hn : b.events.length = n) {C : Prop} (hC : ¬ C) :
    Ends m b' (fun _ _ => True) (fun e s => e = .internal ∨ (Untouched id b s ↔ C)) := by
  refine (hk.ends hb).mono (fun _ _ _ => trivial) fun e s hs => .inr (iff_of_false ?_ hC)
  rw [← hn] at hs
  exact not_untouched_of_grown hs

theorem deletions_ends (ha : Fails.Appends fails) {body : UploadFilesRequest} {wsMeta : WorkspaceMeta}
    (hreq : checkRequest body = .ok ()) (hfiles : body.files = []) (hrow : b.row id = some wsMeta) :
    Ends (do
      let merged ← body.deletedPaths.foldlM (deletePath fails wsMeta.id) wsMeta.deletedPaths
      finishUpload fails wsMeta (!([] : List Path).isEmpty || !body.deletedPaths.isEmpty) merged
      pure (⟨0, 0, []⟩ : UploadFilesResponse)) (rescope fails id wsMeta b).2 (fun _ _ => True)
      (fun e b' => e = .internal ∨ (Untouched id b b' ↔ FilesRejectedFirst fails codecs id body b)) := by
  have hclean : FilesRejectedFirst fails codecs id body b ↔
      (∃ raw rest, body.deletedPaths = raw :: rest ∧ sanitizePath raw = none) ∧ Tracked fails id b wsMeta := by
    constructor
    · rintro (⟨e, he⟩ | hnone | ⟨entry, rest, e, hf, -⟩ | ⟨-, hdel, m, hm, ht⟩)
      · rw [hreq] at he; cases he
      · rw [hrow] at hnone; cases hnone
      · rw [hfiles] at hf; cases hf
      · obtain rfl : wsMeta = m := Option.some.inj (hrow.symm.trans hm)
        exact ⟨hdel, ht⟩
    · rintro ⟨hdel, ht⟩
      exact .inr (.inr (.inr ⟨hfiles, hdel, wsMeta, hrow, ht⟩))
  cases hd : body.deletedPaths with
  | nil =>
    refine (finishUpload_ends _ _ _ _).bind (fun _ _ h => h) fun _ _ _ => ends_pure trivial
  | cons raw rest =>
    rw [List.foldlM_cons]
    cases hs : sanitizePath raw with
    | none =>
      have hstep : deletePath fails wsMeta.id wsMeta.deletedPaths raw = fail (.badRequest
          ("invalid deleted path: '".toList ++ raw ++ "'".toList)) := by
        unfold deletePath
        rw [hs]
      rw [hstep]
      refine ends_bind (ends_bind (ends_fail (.inr ?_)))
      rw [hclean, rescope_untouched_iff]
      exact ⟨fun h => ⟨⟨raw, rest, hd, hs⟩, h⟩, fun h => h.2⟩
    | some rel =>
      have hbad : ¬ FilesRejectedFirst fails codecs id body b := by
        rw [hclean]
        rintro ⟨⟨raw', rest', hd', hs'⟩, -⟩
        rw [hd] at hd'
        cases hd'
        rw [hs] at hs'
        cases hs'
      have hstep : deletePath fails wsMeta.id wsMeta.deletedPaths raw =
          noteDeleted fails wsMeta.id wsMeta.deletedPaths (slashes rel) := by
        unfold deletePath
        rw [hs]
      have hb₀ : Grown b.events.length (rescope fails id wsMeta b).2 :=
        keeps_rescope survives_grown.toRecords id wsMeta b (Nat.le_refl _)
      rw [hstep, bind_assoc]
      refine (noteDeleted_ends ha _ _ hb₀).bind (fun _ _ h => h) fun merged b₁ h₁ => ?_
      exact grown_ends ((keeps_foldlM (fun _ _ => keeps_deletePath survives_grown.toRecords _ _) _ _).bind fun _ =>
        (grown_finishUpload _ _ _).bind fun _ => keeps_pure _ _) h₁ rfl hbad

theorem files_ends (ha : Fails.Appends fails) (body : UploadFilesRequest) (b : Backend) :
    Ends (uploadWorkspaceFilesHandler env fails codecs id body) b (fun _ _ => True)
      (fun e b' => e = .internal ∨ (Untouched id b b' ↔ FilesRejectedFirst fails codecs id body b)) := by
  unfold uploadWorkspaceFilesHandler
  cases hreq : checkRequest body with
  | error e => exact ends_bind (ends_fail (.inr (iff_of_true (untouched_refl id b) (.inl ⟨e, hreq⟩))))
  | ok _ =>
    apply ends_bind_of_ok (pure_apply () b)
    refine (getWorkspace_ends id b).bind ?_ ?_
    · rintro e b' ⟨rfl, ⟨h, -⟩ | hnone⟩
      · exact .inl h
      · exact .inr (iff_of_true (untouched_refl id b') (.inr (.inl hnone)))
    · intro wsMeta b₀ ⟨hrow, hb₀⟩
      subst b₀
      cases hfiles : body.files with
      | nil =>
        apply ends_bind_of_ok (pure_apply ([] : List Path) b)
        apply ends_bind_of_ok (rescope_apply id wsMeta b)
        have h := @deletions_ends fails codecs id b ha body wsMeta hreq hfiles hrow
        rw [rescope_apply] at h
        exact h
      | cons entry rest =>
        rw [List.zipIdx_cons, List.foldlM_cons, bind_assoc]
        refine (uploadFile_ends ha [] (entry, 0) (Nat.le_refl _)).bind ?_ fun uploaded b₁ h₁ => ?_
        · rintro e b' (h | ⟨hc, rfl⟩)
          · exact .inl h
          · exact .inr (iff_of_true (untouched_refl id b') (.inr (.inr (.inl ⟨entry, rest, e, hfiles, hc⟩))))
        · obtain ⟨h₁, q, hq⟩ := h₁
          have hbad : ¬ FilesRejectedFirst fails codecs id body b := by
            rintro (⟨e, he⟩ | hnone | ⟨entry', rest', e, hf, he⟩ | ⟨hnil, -⟩)
            · rw [hreq] at he; cases he
            · rw [hrow] at hnone; cases hnone
            · rw [hfiles] at hf
              cases hf
              rw [hq] at he
              cases he
            · rw [hfiles] at hnil; cases hnil
          -- whatever is rejected now, the event of the first file is there
          exact grown_ends ((keeps_foldlM (fun _ _ => keeps_uploadFile (survives_grown.uploadable _) _ _) _ _).bind fun _ =>
            (keeps_rescope survives_grown.toRecords _ _).bind fun _ =>
            (keeps_foldlM (fun _ _ => keeps_deletePath survives_grown.toRecords _ _) _ _).bind fun _ =>
            (grown_finishUpload _ _ _).bind fun _ => keeps_pure _ _) h₁ rfl hbad

/-! ## Snapshots -/

/-- The hashes of HEAD's files, by path. -/
def currentHashes (env : Env) (b : Backend) : FMap Path Text :=
  FMap.ofList (((b.store.pairs.filter (fun q => currentPrefix.isPrefixOf q.1)).filterMap
    (fun q => (Text.stripPrefix currentPrefix q.1).map (fun rel => (rel, env.sha256Hex q.2)))).filter (fun q => q.1 ≠ []))

theorem currentMap_apply (b : Backend) : currentMap env fails b =
    (.ok (if fails.store 0 (.list currentPrefix) then ∅ else currentHashes env b), b) := by
  unfold currentMap Backend.list Backend.files currentHashes
  rw [bind_apply, attempt_apply]
  unfold mapErr
  by_cases h : fails.store 0 (.list currentPrefix) = true
  · simp only [if_pos h]
    rfl
  · simp only [if_neg h]
    rfl

/-- HEAD has the file with the same hash. -/
def Unchanged (env : Env) (current : FMap Path Text) (files : FMap Path Bytes) (p : Path) : Prop :=
  ∀ c, files.get p = some c → current.get p = some (env.sha256Hex c)

theorem stored_ends (ha : Fails.Appends fails) (i : Nat) (path : Path) (content : Bytes) (kind : EventKind) (tally : Tally)
    (hb : Grown n b) : Ends (do
      mapErr (fun _ => ApiError.internal) (put fails i (workspaceKey id path) content)
      ignored (put fails i (blobKey (env.sha256Hex content)) content)
      record fails kind
      pure tally) b (fun _ b' => Grown (n + 1) b') (fun e _ => e = .internal) := by
  have hput := (@keeps_putFile fails _ id (survives_grown.uploadable id) i path content).ends hb
  refine (ends_mapErr (hput.mono (fun _ _ h => h) fun _ _ _ => rfl)).bind (fun _ _ h => h) fun _ b₁ h₁ => ?_
  refine (ignored_ends (keeps_putBlob (survives_grown.uploadable id) _ _ _) h₁).bind (fun _ _ h => h) fun _ b₂ h₂ => ?_
  exact (record_ends ha _ h₂).bind (fun _ _ h => h) fun _ _ h => ends_pure h

theorem uploadEntry_unchanged {current : FMap Path Text} {files : FMap Path Bytes} {q : Path × Nat}
    (h : Unchanged env current files q.1) (tally : Tally) (b : Backend) :
    ∃ tally', uploadEntry env fails id current files tally q b = (.ok tally', b) := by
  unfold uploadEntry
  cases hf : files.get q.1 with
  | none => exact ⟨_, rfl⟩
  | some c =>
    simp only [h c hf, if_true]
    exact ⟨_, rfl⟩

theorem uploadEntry_ends (ha : Fails.Appends fails) {current : FMap Path Text} {files : FMap Path Bytes} {q : Path × Nat}
    (h : ¬ Unchanged env current files q.1) (tally : Tally) (hb : Grown n b) :
    Ends (uploadEntry env fails id current files tally q) b (fun _ b' => Grown (n + 1) b') (fun e _ => e = .internal) := by
  unfold Unchanged at h
  push Not at h
  obtain ⟨c, hf, hne⟩ := h
  unfold uploadEntry
  simp only [hf]
  cases hc : current.get q.1 with
  | none => exact stored_ends ha _ _ _ _ _ hb
  | some old =>
    have hold : ¬ old = env.sha256Hex c := fun he => hne (by rw [hc, he])
    simp only [if_neg hold]
    exact stored_ends ha _ _ _ _ _ hb

/-- The loop over the archive: nothing has happened as long as every file is HEAD's, and then an event is there. -/
theorem entries_ends (ha : Fails.Appends fails) (current : FMap Path Text) (files : FMap Path Bytes) (l : List (Path × Nat))
    (tally : Tally) (b : Backend) : Ends (l.foldlM (uploadEntry env fails id current files) tally) b
      (fun _ b' => (∀ q ∈ l, Unchanged env current files q.1) ∧ b' = b ∨
        (∃ q ∈ l, ¬ Unchanged env current files q.1) ∧ Grown (b.events.length + 1) b') (fun e _ => e = .internal) := by
  refine ends_foldlM (fun pre (_ : Tally) b' => (∀ q ∈ pre, Unchanged env current files q.1) ∧ b' = b ∨
    (∃ q ∈ pre, ¬ Unchanged env current files q.1) ∧ Grown (b.events.length + 1) b') l [] tally b
    (.inl ⟨fun _ h => absurd h List.not_mem_nil, rfl⟩) ?_
  rintro pre q post tally' s - (⟨hpre, rfl⟩ | ⟨⟨x, hx, hne⟩, hs⟩)
  · by_cases hq : Unchanged env current files q.1
    · obtain ⟨t, ht⟩ := @uploadEntry_unchanged env fails id current files q hq tally' s
      unfold Ends
      rw [ht]
      refine .inl ⟨fun x hx => ?_, rfl⟩
      rcases List.mem_append.1 hx with hx | hx
      · exact hpre x hx
      · rw [List.mem_singleton.1 hx]
        exact hq
    · refine (uploadEntry_ends ha hq tally' (Nat.le_refl _)).mono (fun _ _ h => .inr ⟨⟨q, by simp, hq⟩, h⟩) fun _ _ h => h
  · have hmem : ∃ q' ∈ pre ++ [q], ¬ Unchanged env current files q'.1 := ⟨x, List.mem_append_left _ hx, hne⟩
    by_cases hq : Unchanged env current files q.1
    · obtain ⟨t, ht⟩ := @uploadEntry_unchanged env fails id current files q hq tally' s
      unfold Ends
      rw [ht]
      exact .inr ⟨hmem, hs⟩
    · exact (uploadEntry_ends ha hq tally' hs).mono (fun _ _ h => .inr ⟨hmem, Nat.le_of_succ_le h⟩) fun _ _ h => h

/-- Before the first file: the archive is too large or cannot be read, its workspace is not there, or every file in it is
HEAD's. -/
def SnapshotRejectedFirst (env : Env) (codecs : Codecs) (id : PathId) (gz : Bytes) (b : Backend) : Prop :=
  maxSnapshotSizeBytes < gz.length ∨ b.row id = none ∨ (∃ e, readSnapshot codecs gz = .error e) ∨
    ∃ snapshot, readSnapshot codecs gz = .ok snapshot ∧ ∀ p, Unchanged env (currentHashes env b) snapshot.files p

theorem mem_zipIdx_hashOrder {files : FMap Path Bytes} {P : Path → Prop} (hP : ∀ p, files.get p = none → P p) :
    (∀ q ∈ (env.hashOrder files.keys).zipIdx, P q.1) ↔ ∀ p, P p := by
  constructor
  · intro h p
    cases hf : files.get p with
    | none => exact hP p hf
    | some c =>
      have hp : p ∈ env.hashOrder files.keys := (env.mem_hashOrder).2 (FMap.mem_keys.2 (by rw [hf]; rfl))
      obtain ⟨i, hi, hget⟩ := List.mem_iff_getElem.1 hp
      exact h (p, i) (List.mk_mem_zipIdx_iff_getElem?.2 (by rw [List.getElem?_eq_getElem hi, hget]))
  · exact fun h q _ => h q.1

theorem snapshot_ends (ha : Fails.Appends fails) (allow : Bool) (gz : Bytes) (b : Backend) :
    Ends (uploadSnapshotHandler env fails codecs id allow gz) b (fun _ _ => True)
      (fun e b' => e = .internal ∨ (Untouched id b b' ↔ SnapshotRejectedFirst env codecs id gz b)) := by
  unfold uploadSnapshotHandler
  by_cases hlarge : maxSnapshotSizeBytes < gz.length
  · rw [if_pos hlarge]
    exact ends_fail (.inr (iff_of_true (untouched_refl id b) (.inl hlarge)))
  rw [if_neg hlarge]
  refine (getWorkspace_ends id b).bind ?_ ?_
  · rintro e b' ⟨rfl, ⟨h, -⟩ | hnone⟩
    · exact .inl h
    · exact .inr (iff_of_true (untouched_refl id b') (.inr (.inl hnone)))
  intro wsMeta b₀ ⟨hrow, hb₀⟩
  subst b₀
  cases hread : readSnapshot codecs gz with
  | error e =>
    exact ends_bind (ends_fail (.inr (iff_of_true (untouched_refl id b) (.inr (.inr (.inl ⟨e, hread⟩))))))
  | ok snapshot =>
    apply ends_bind_of_ok (pure_apply snapshot b)
    apply ends_bind_of_ok (currentMap_apply b)
    generalize hcur : (if fails.store 0 (.list currentPrefix) = true then ∅ else currentHashes env b) = current
    refine (entries_ends ha _ _ _ _ b).bind (fun _ _ h => .inl h) fun tally b₁ h₁ => ?_
    dsimp only
    split
    · -- the rail: HEAD was listed, so what it has decides
      rename_i hrail
      obtain rfl : current = currentHashes env b := by
        by_cases hf : fails.store 0 (.list currentPrefix) = true
        · rw [if_pos hf] at hcur
          rw [← hcur] at hrail
          simp [destructive] at hrail
        · rw [if_neg hf] at hcur
          exact hcur.symm
      have hfirst : SnapshotRejectedFirst env codecs id gz b ↔
          ∀ q ∈ (env.hashOrder snapshot.files.keys).zipIdx, Unchanged env (currentHashes env b) snapshot.files q.1 := by
        rw [mem_zipIdx_hashOrder fun p hp c hc => by rw [hp] at hc; cases hc]
        constructor
        · rintro (h | h | ⟨e, h⟩ | ⟨s, h, hall⟩)
          · exact absurd h hlarge
          · rw [hrow] at h; cases h
          · rw [hread] at h; cases h
          · obtain rfl : snapshot = s := Except.ok.inj (hread.symm.trans h)
            exact hall
        · exact fun h => .inr (.inr (.inr ⟨snapshot, hread, h⟩))
      refine ends_fail (.inr ?_)
      rw [hfirst]
      rcases h₁ with ⟨hall, rfl⟩ | ⟨⟨q, hq, hne⟩, hg⟩
      · exact iff_of_true (untouched_refl id b₁) hall
      · exact iff_of_false (not_untouched_of_grown hg) (fun h => hne (h q hq))
    · refine (ends_foldlM (fun _ _ _ => True) _ [] _ b₁ trivial ?_).bind (fun _ _ h => h) fun merged b₂ _ => ?_
      · intro pre p post merged s _ _
        exact (noteDeleted_ends ha merged p (Nat.zero_le _)).mono (fun _ _ _ => trivial) fun _ _ h => h
      · exact (finishUpload_ends _ _ _ _).bind (fun _ _ h => h) fun _ _ _ => ends_pure trivial

/-! ## The main result -/

/-- The upload is rejected before its first file is stored. -/
def UploadRequest.RejectedFirst (env : Env) (fails : Fails) (codecs : Codecs) (id : PathId) (b : Backend) :
    UploadRequest → Prop
  | .files body => FilesRejectedFirst fails codecs id body b
  | .snapshot _ gz => SnapshotRejectedFirst env codecs id gz b

/-- **A rejected upload changes nothing exactly when it is rejected before its first file is stored.** -/
theorem rejected_untouched_iff (ha : Fails.Appends fails) {req : UploadRequest} {e : ApiError}
    (h : upload env fails codecs id req b = (.error e, b')) (he : 400 ≤ e.status ∧ e.status < 500) :
    Untouched id b b' ↔ req.RejectedFirst env fails codecs id b := by
  have hne : e ≠ .internal := by
    rintro rfl
    exact absurd he.2 (by decide)
  cases req with
  | files body =>
    have hends := Ends.bind (f := fun _ => pure PUnit.unit) (Q := fun _ _ => True)
      (@files_ends env fails codecs id ha body b) (fun _ _ h => h) fun _ _ _ => ends_pure trivial
    exact (hends.error h).resolve_left hne
  | snapshot allow gz =>
    have hends := Ends.bind (f := fun _ => pure PUnit.unit) (Q := fun _ _ => True)
      (@snapshot_ends env fails codecs id ha allow gz b) (fun _ _ h => h) fun _ _ _ => ends_pure trivial
    exact (hends.error h).resolve_left hne

/-! ## Two requests -/

/-- `base64` on one good and one bad text. -/
def oneLetter : Codecs where
  base64Decode s := if s = "YQ==".toList then .ok [97] else .error "Invalid symbol 42, offset 0.".toList
  untar _ := .error "failed to fill whole buffer".toList
  fromSlice _ := .error "EOF while parsing a value at line 1 column 0".toList
  percent _ _ := "100".toList

/-- A new repository with the workspace 1. -/
def oneWorkspace : Backend := { fresh with workspaces := FMap.ofList [(1, .fresh 1 1)] }

/-- A request whose only file is not base64. -/
def badFile : UploadFilesRequest := ⟨[⟨"b".toList, "*".toList⟩], []⟩

theorem rejected_untouched_iff_first_file : ∃ e b', upload Env.plain Fails.none oneLetter 1 (.files badFile) oneWorkspace =
    (.error e, b') ∧ (400 ≤ e.status ∧ e.status < 500) ∧ Untouched 1 oneWorkspace b' := by
  have hbad : checkEntry oneLetter ⟨"b".toList, "*".toList⟩ = .error (.badRequest
      "base64 decode error for 'b': Invalid symbol 42, offset 0.".toList) := by decide +kernel
  have hrun : ∃ e b', upload Env.plain Fails.none oneLetter 1 (.files badFile) oneWorkspace = (.error e, b') ∧
      (400 ≤ e.status ∧ e.status < 500) := ⟨_, _, rfl, by decide +kernel⟩
  obtain ⟨e, b', h, he⟩ := hrun
  exact ⟨e, b', h, he, (rejected_untouched_iff (fun _ => rfl) h he).2 (.inr (.inr (.inl ⟨_, [], _, rfl, hbad⟩)))⟩

/-- A request with a good file and then a bad one is rejected, and the good file stays. -/
theorem rejected_upload_keeps_first_file :
    let body : UploadFilesRequest := ⟨[⟨"a".toList, "YQ==".toList⟩, ⟨"b".toList, "*".toList⟩], []⟩
    ∃ e b', upload Env.plain Fails.none oneLetter 1 (.files body) oneWorkspace = (.error e, b') ∧
      (400 ≤ e.status ∧ e.status < 500) ∧ ¬ Untouched 1 oneWorkspace b' := by
  refine ⟨_, _, rfl, by decide +kernel, not_untouched_of_grown ?_⟩
  unfold Grown
  decide +kernel

end Handlers
end Vai
