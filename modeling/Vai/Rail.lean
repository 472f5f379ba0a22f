import Vai.SnapshotWins
import Vai.Chronicle
import Vai.Once
/-!
# Rail — how much the uploads of a workspace may delete

The rail of `upload_snapshot_handler` compares what one snapshot deletes with what HEAD has.  The deletions of a
workspace pile up in its row, over snapshots and over file uploads, which have no rail, and the submit makes them all.
`rail_holds_iff` says which sequences of uploads leave half of HEAD standing.
-/
namespace Vai
namespace Handlers

open Proc Backend

variable {env : Env} {codecs : Codecs} {id : PathId} {b b' b₀ : Backend} {wsMeta : WorkspaceMeta}

/-! ## The files of HEAD -/

/-- The paths of `current/` that are counted. -/
def currentPaths (b : Backend) : List Path :=
  (b.store.keys.filterMap (Text.stripPrefix currentPrefix)).filter (fun p => p ≠ [])

theorem mem_currentPaths {p : Path} : p ∈ currentPaths b ↔ p ≠ [] ∧ (b.current p).isSome := by
  unfold currentPaths Backend.current
  simp only [List.mem_filter, List.mem_filterMap, FMap.mem_keys, Text.stripPrefix_eq_some, decide_eq_true_eq]
  constructor
  · rintro ⟨⟨key, hkey, rfl⟩, hne⟩
    exact ⟨hne, hkey⟩
  · rintro ⟨hne, hkey⟩
    exact ⟨⟨currentKey p, hkey, rfl⟩, hne⟩

theorem nodup_currentPaths (b : Backend) : (currentPaths b).Nodup := by
  apply List.Nodup.filter
  apply List.Nodup.filterMap _ b.store.keys_nodup
  intro key key' p h h'
  rw [Option.mem_def, Text.stripPrefix_eq_some] at h h'
  rw [h, h']

theorem perm_currentPaths (h : ∀ p, b'.current p = b.current p) : (currentPaths b').Perm (currentPaths b) := by
  rw [List.perm_ext_iff_of_nodup (nodup_currentPaths b') (nodup_currentPaths b)]
  intro p
  rw [mem_currentPaths, mem_currentPaths, h]

theorem keys_currentHashes (env : Env) (b : Backend) : (currentHashes env b).keys.Perm (currentPaths b) := by
  rw [List.perm_ext_iff_of_nodup (currentHashes env b).keys_nodup (nodup_currentPaths b)]
  intro p
  rw [FMap.mem_keys, mem_currentPaths, get_currentHashes]
  by_cases hp : p = [] <;> simp [hp]

/-! ## What an upload asks for -/

/-- The paths that an upload asks to delete. -/
def askedPaths (env : Env) (codecs : Codecs) (b : Backend) : UploadRequest → List Path
  | .files body => body.deletedPaths.filterMap (fun raw => (sanitizePath raw).map slashes)
  | .snapshot _ gz =>
    match readSnapshot codecs gz with
    | .ok snapshot => snapshotDeletions env (currentHashes env b) snapshot
    | .error _ => []

/-- The checks that an upload has to pass: those of its files and paths, and for a snapshot the rail. -/
def accepts (env : Env) (codecs : Codecs) (b : Backend) : UploadRequest → Bool
  | .files body => (checkRequest body).isOk && body.files.all (fun e => (checkEntry codecs e).isOk) &&
      body.deletedPaths.all (fun raw => (sanitizePath raw).isSome)
  | .snapshot allowDestructive gz => decide (gz.length ≤ maxSnapshotSizeBytes) && (readSnapshot codecs gz).isOk &&
      !destructive allowDestructive (askedPaths env codecs b (.snapshot allowDestructive gz)).length (currentPaths b).length

/-- The deletions of the uploads that pass their checks. -/
def Asked (env : Env) (codecs : Codecs) (b : Backend) (reqs : List UploadRequest) (p : Path) : Prop :=
  ∃ req ∈ reqs, accepts env codecs b req = true ∧ p ∈ askedPaths env codecs b req

instance (reqs : List UploadRequest) (p : Path) : Decidable (Asked env codecs b reqs p) :=
  inferInstanceAs (Decidable (∃ req ∈ reqs, accepts env codecs b req = true ∧ p ∈ askedPaths env codecs b req))

/-- The deletions of a snapshot, in some order, are a matter of the tree alone. -/
theorem perm_snapshotDeletions (h : ∀ p, b'.current p = b.current p) (snapshot : Snapshot) :
    (snapshotDeletions env (currentHashes env b') snapshot).Perm (snapshotDeletions env (currentHashes env b) snapshot) := by
  unfold snapshotDeletions
  cases snapshot.manifest with
  | some _ => exact .refl _
  | none =>
    apply List.Perm.filter
    have hkeys := (keys_currentHashes env b').trans ((perm_currentPaths h).trans (keys_currentHashes env b).symm)
    exact (env.hashOrderPerm _).trans (hkeys.trans (env.hashOrderPerm _).symm)

theorem perm_askedPaths (h : ∀ p, b'.current p = b.current p) (req : UploadRequest) :
    (askedPaths env codecs b' req).Perm (askedPaths env codecs b req) := by
  cases req with
  | files body => exact .refl _
  | snapshot allow gz =>
    simp only [askedPaths]
    cases readSnapshot codecs gz with
    | error _ => exact .refl _
    | ok snapshot => exact perm_snapshotDeletions h snapshot

theorem accepts_congr (h : ∀ p, b'.current p = b.current p) (req : UploadRequest) :
    accepts env codecs b' req = accepts env codecs b req := by
  cases req with
  | files body => rfl
  | snapshot allow gz =>
    simp only [accepts, (perm_askedPaths h _).length_eq, (perm_currentPaths h).length_eq]

theorem asked_congr (h : ∀ p, b'.current p = b.current p) (reqs : List UploadRequest) (p : Path) :
    Asked env codecs b' reqs p ↔ Asked env codecs b reqs p := by
  unfold Asked
  simp only [accepts_congr h, (perm_askedPaths h _).mem_iff]

/-! ## One upload -/

/-- The tree and the rows are as they were. -/
structure Beside (b b' : Backend) : Prop where
  current : ∀ p, b'.current p = b.current p
  workspaces : b'.workspaces = b.workspaces

theorem beside_refl (b : Backend) : Beside b b := ⟨fun _ => rfl, rfl⟩

theorem Beside.wrote {p : Path} {c : Bytes} (h : Beside b₀ b) (hw : Wrote env id p c b b') : Beside b₀ b' :=
  ⟨fun q => (hw.current q).trans (h.current q), hw.workspaces.trans h.workspaces⟩

theorem Beside.row (h : Beside b b') (i : Uuid) : b'.row i = b.row i := by
  unfold Backend.row
  rw [h.workspaces]

/-- The tree is as it was, and the row of the workspace has the deletions `D` besides its own. -/
structure Collected (wsMeta : WorkspaceMeta) (D : Path → Prop) (b b' : Backend) : Prop where
  current : ∀ p, b'.current p = b.current p
  row : ∃ m, b'.row wsMeta.id = some m ∧ ∀ p, p ∈ m.deletedPaths ↔ p ∈ wsMeta.deletedPaths ∨ D p

theorem Beside.collected {i : Uuid} (h : Beside b b') (hrow : b.row i = some wsMeta) {D : Path → Prop} (hD : ∀ p, ¬ D p) :
    Collected wsMeta D b b' := by
  refine ⟨h.current, wsMeta, ?_, fun p => ?_⟩
  · rw [h.row, row_id hrow]
    exact hrow
  · simp [hD p]

/-- The end of an upload: the deletions it has noted are in the row. -/
theorem finish_collected {i : Uuid} (h : Beside b b') (hrow : b.row i = some wsMeta) {merged : List Path} {D : Path → Prop}
    (hm : ∀ p, p ∈ merged ↔ p ∈ wsMeta.deletedPaths ∨ D p) (touched : Bool) {α : Type} (answer : α)
    {E : ApiError → Backend → Prop} : Ends (do
      finishUpload Fails.none wsMeta touched merged
      pure answer) b' (fun _ s => Collected wsMeta D b s) E := by
  have hrow' : b'.row wsMeta.id = some wsMeta := by
    rw [h.row, row_id hrow]
    exact hrow
  obtain ⟨b₁, hrun, hfin⟩ := finishUpload_finished hrow' touched merged
  apply ends_bind_of_ok hrun
  apply ends_pure
  obtain ⟨rows, hrest⟩ := hfin.rest
  obtain ⟨status, hrow₁⟩ := hfin.row
  refine ⟨fun p => ?_, _, hrow₁, hm⟩
  rw [hrest]
  exact h.current p

/-- The loop over the files of a request: all of them pass their checks, or one does not. -/
theorem uploadFiles_beside (files : List FileEntry) (b : Backend) :
    Ends (files.zipIdx.foldlM (uploadFile env Fails.none codecs id) []) b
      (fun _ b' => Beside b b' ∧ files.all (fun e => (checkEntry codecs e).isOk) = true)
      (fun _ b' => Beside b b' ∧ files.all (fun e => (checkEntry codecs e).isOk) = false) := by
  refine (ends_foldlM (fun pre _ b' => Beside b b' ∧ ∀ e ∈ pre, (checkEntry codecs e.1).isOk = true) files.zipIdx [] []
    b ⟨beside_refl b, by simp⟩ ?_).mono (fun _ b' h => ⟨h.1, ?_⟩) (fun _ _ h => h)
  · intro pre q post uploaded s hsplit hs
    unfold uploadFile
    refine ends_bind (ends_ofExcept (fun r hr => ?_) fun e he => ⟨hs.1, ?_⟩)
    · obtain ⟨s', hrun, hw⟩ := @storeFile_wrote env id r.1 r.2 q.2 s
      refine ends_bind_of_ok hrun (ends_pure ⟨hs.1.wrote hw, fun e he => ?_⟩)
      rcases List.mem_append.1 he with he | he
      · exact hs.2 e he
      · rw [List.mem_singleton.1 he, hr]
        rfl
    · rw [← Bool.not_eq_true, List.all_eq_true]
      intro hall
      have hq : q ∈ files.zipIdx := by
        rw [List.nil_append] at hsplit
        rw [hsplit]
        simp
      have := hall q.1 (List.fst_mem_of_mem_zipIdx hq)
      rw [he] at this
      cases this
  · rw [List.all_eq_true]
    intro e he
    obtain ⟨i, hi⟩ := List.mem_iff_getElem?.1 he
    exact h.2 (e, i) (by rw [List.nil_append]; exact List.mk_mem_zipIdx_iff_getElem?.2 hi)

theorem deletePaths_recorded (id : Uuid) (raws merged : List Path) (b : Backend) :
    Ends (raws.foldlM (deletePath Fails.none id) merged) b
      (fun merged' b' => Beside b b' ∧ raws.all (fun raw => (sanitizePath raw).isSome) = true ∧
        ∀ p, p ∈ merged' ↔ p ∈ merged ∨ p ∈ raws.filterMap (fun raw => (sanitizePath raw).map slashes))
      (fun _ b' => Beside b b' ∧ raws.all (fun raw => (sanitizePath raw).isSome) = false) := by
  refine (ends_foldlM (fun pre merged' b' => Beside b b' ∧ (∀ raw ∈ pre, (sanitizePath raw).isSome = true) ∧
    ∀ p, p ∈ merged' ↔ p ∈ merged ∨ p ∈ pre.filterMap (fun raw => (sanitizePath raw).map slashes)) raws [] merged b
    ⟨beside_refl b, by simp, by simp⟩ ?_).mono (fun _ b' h => ⟨h.1, ?_, h.2.2⟩) (fun _ _ h => h)
  · intro pre raw post merged' s hsplit hs
    unfold deletePath
    cases hraw : sanitizePath raw with
    | none =>
      refine ends_fail ⟨hs.1, ?_⟩
      rw [← Bool.not_eq_true, List.all_eq_true]
      intro hall
      have := hall raw (by rw [List.nil_append] at hsplit; rw [hsplit]; simp)
      rw [hraw] at this
      cases this
    | some rel =>
      show Ends (noteDeleted Fails.none id merged' (slashes rel)) s _ _
      unfold Ends
      rw [noteDeleted_apply]
      refine ⟨⟨hs.1.current, hs.1.workspaces⟩, fun r hr => ?_, fun p => ?_⟩
      · rcases List.mem_append.1 hr with hr | hr
        · exact hs.2.1 r hr
        · rw [List.mem_singleton.1 hr, hraw]
          rfl
      · rw [List.filterMap_append, List.mem_append, ← or_assoc, ← hs.2.2]
        simp only [List.filterMap_cons, hraw, Option.map_some, List.filterMap_nil, List.mem_singleton]
        split
        · rename_i hmem
          exact ⟨.inl, fun h => h.elim (fun h => h) fun h => h ▸ hmem⟩
        · rw [List.mem_append, List.mem_singleton]
  · rw [List.all_eq_true]
    exact h.2.1

/-- **One upload**, accepted or not: the row gets the deletions it asks for when it passes its checks, and none else. -/
theorem upload_collected (hrow : b.row id.uuid = some wsMeta) (req : UploadRequest) :
    Ends (upload env Fails.none codecs id req) b
      (fun _ b' => Collected wsMeta (Asked env codecs b [req]) b b')
      (fun _ b' => Collected wsMeta (Asked env codecs b [req]) b b') := by
  have hno : accepts env codecs b req = false → ∀ p, ¬ Asked env codecs b [req] p := by
    intro hacc p hp
    obtain ⟨r, hr, hr', -⟩ := hp
    rw [List.mem_singleton.1 hr, hacc] at hr'
    cases hr'
  have hyes : accepts env codecs b req = true → ∀ p, Asked env codecs b [req] p ↔ p ∈ askedPaths env codecs b req := by
    intro hacc p
    constructor
    · rintro ⟨r, hr, -, hp⟩
      rw [← List.mem_singleton.1 hr]
      exact hp
    · exact fun hp => ⟨req, List.mem_singleton.2 rfl, hacc, hp⟩
  cases req with
  | files body =>
    refine Ends.bind (R := fun _ b' => Collected wsMeta (Asked env codecs b [.files body]) b b') (F := fun _ b' =>
      Collected wsMeta (Asked env codecs b [.files body]) b b') ?_ (fun _ _ h => h) fun _ _ h => ends_pure h
    unfold uploadWorkspaceFilesHandler
    refine ends_bind (ends_ofExcept (fun _ hreq => ?_) fun e hreq => ?_)
    · refine (getWorkspace_ends id b).bind (fun e b' h => ?_) ?_
      · rcases h.2 with ⟨-, h⟩ | h
        · cases h
        · rw [hrow] at h
          cases h
      rintro m b₁ ⟨hm, rfl⟩
      obtain rfl : wsMeta = m := Option.some.inj (hrow.symm.trans hm)
      refine (uploadFiles_beside body.files b₁).bind (fun e b' h => h.1.collected hrow (hno ?_)) fun uploaded b₂ h₂ => ?_
      · simp [accepts, h.2]
      apply ends_bind_of_ok (rescope_apply id wsMeta b₂)
      have h₃ : Beside b₁ (updateScope wsMeta.id wsMeta.intent (listedPaths Fails.none id b₂) b₂) :=
        ⟨h₂.1.current, h₂.1.workspaces⟩
      refine (deletePaths_recorded wsMeta.id body.deletedPaths wsMeta.deletedPaths _).bind (fun e b' h => ?_) fun merged b₄ h₄ => ?_
      · refine Beside.collected ⟨fun p => (h.1.current p).trans (h₃.current p), h.1.workspaces.trans h₃.workspaces⟩ hrow
          (hno ?_)
        simp [accepts, h.2]
      · have hacc : accepts env codecs b₁ (.files body) = true := by
          simp only [accepts, hreq, h₂.2, h₄.2.1]
          rfl
        refine finish_collected ⟨fun p => (h₄.1.current p).trans (h₃.current p), h₄.1.workspaces.trans h₃.workspaces⟩ hrow
          (fun p => ?_) _ _
        rw [h₄.2.2, hyes hacc]
        rfl
    · exact (beside_refl b).collected hrow (hno (by simp [accepts, hreq, Except.isOk, Except.toBool]))
  | snapshot allow gz =>
    refine Ends.bind (R := fun _ b' => Collected wsMeta (Asked env codecs b [.snapshot allow gz]) b b') (F := fun _ b' =>
      Collected wsMeta (Asked env codecs b [.snapshot allow gz]) b b') ?_ (fun _ _ h => h) fun _ _ h => ends_pure h
    unfold uploadSnapshotHandler
    split
    · rename_i hsize
      exact ends_fail ((beside_refl b).collected hrow (hno (by simp [accepts, hsize])))
    rename_i hsize
    refine (getWorkspace_ends id b).bind (fun e b' h => ?_) ?_
    · rcases h.2 with ⟨-, h⟩ | h
      · cases h
      · rw [hrow] at h
        cases h
    rintro m b₁ ⟨hm, rfl⟩
    obtain rfl : wsMeta = m := Option.some.inj (hrow.symm.trans hm)
    refine ends_bind (ends_ofExcept (fun snapshot hread => ?_) fun e hread => ?_)
    · apply ends_bind_of_ok (currentMap_apply b₁)
      rw [if_neg (by decide)]
      have hasked : askedPaths env codecs b₁ (.snapshot allow gz) = snapshotDeletions env (currentHashes env b₁) snapshot := by
        simp only [askedPaths, hread]
      refine (entries_entered _ _ _ _ b₁).bind (fun _ _ h => h.elim) fun tally b₂ h₂ => ?_
      have hbeside : Beside b₁ b₂ := ⟨h₂.current, h₂.workspaces⟩
      dsimp only
      rw [(keys_currentHashes env b₁).length_eq]
      split
      · rename_i hrail
        exact ends_fail (hbeside.collected hrow (hno (by simp [accepts, hasked, hrail])))
      · rename_i hrail
        refine (deletions_recorded _ _ _ b₂).bind (fun _ _ h => h.elim) fun merged b₃ h₃ => ?_
        refine finish_collected ⟨fun p => ?_, h₃.2.2.1.trans hbeside.workspaces⟩ hrow (fun p => ?_) _ _
        · unfold Backend.current
          rw [h₃.2.1]
          exact hbeside.current p
        · rw [h₃.1, hyes, hasked]
          simp [accepts, hasked, hrail, hread, Nat.not_lt.1 hsize, Except.isOk, Except.toBool]
    · exact (beside_refl b₁).collected hrow (hno (by simp [accepts, hread, Except.isOk, Except.toBool]))

/-! ## A sequence of uploads, and the submit -/

/-- The uploads to one workspace, one after another. -/
def uploads (env : Env) (codecs : Codecs) (id : PathId) : List UploadRequest → Backend → Backend
  | [], b => b
  | req :: reqs, b => uploads env codecs id reqs (serve env codecs (quietly (.upload id req)) b).after

theorem uploads_collected : ∀ (reqs : List UploadRequest) {b : Backend} {wsMeta : WorkspaceMeta},
    b.row id.uuid = some wsMeta → Collected wsMeta (Asked env codecs b reqs) b (uploads env codecs id reqs b)
  | [], b, wsMeta, hrow => (beside_refl b).collected hrow fun p ⟨_, hmem, _⟩ => by cases hmem
  | req :: reqs, b, wsMeta, hrow => by
    have hstep : Collected wsMeta (Asked env codecs b [req]) b (serve env codecs (quietly (.upload id req)) b).after := by
      have h := @upload_collected env codecs id b wsMeta hrow req
      show Collected _ _ b (upload env Fails.none codecs id req b).2
      rcases hrun : upload env Fails.none codecs id req b with ⟨e | r, b₁⟩
      · exact h.error hrun
      · exact h.ok hrun
    obtain ⟨m, hm, hdel⟩ := hstep.row
    have hmid := row_id hm
    rw [row_id hrow] at hm hmid
    have ih := uploads_collected reqs hm
    obtain ⟨m', hm', hdel'⟩ := ih.row
    refine ⟨fun p => (ih.current p).trans (hstep.current p), m', ?_, fun p => ?_⟩
    · rw [hmid] at hm'
      rw [row_id hrow]
      exact hm'
    · rw [hdel', hdel, asked_congr hstep.current, or_assoc]
      unfold Asked
      simp only [List.mem_cons, List.not_mem_nil, or_false, exists_eq_or_imp, exists_eq_left]

/-- The files of `current/` that are gone. -/
def removed (b b' : Backend) : List Path := (currentPaths b).filter (fun p => (b'.current p).isNone)

/-- At least half of the files of `current/` are still there. -/
def HalfStands (b b' : Backend) : Prop := 2 * (removed b b').length ≤ (currentPaths b).length

instance : Decidable (HalfStands b b') := inferInstanceAs (Decidable (_ ≤ _))

/-- A submit removes the files of HEAD that its row deletes, and no others. -/
theorem current_of_submitted {r : SubmitResult} (h : Submitted env Fails.none id b r b') :
    ∃ m, b.row id.uuid = some m ∧ ∀ p, (b.current p).isSome → (b'.current p = none ↔ p ∈ m.deletedPaths) := by
  obtain ⟨m, hrow, hacc, -, hstored⟩ := h.stored (S3.harmless_noFaults _)
  refine ⟨m, hrow, fun p hp => ?_⟩
  have hcur : b'.current p = mergedTree env b id m p := hstored.current p
  rw [hcur]
  constructor
  · intro hnone
    by_contra hdel
    cases ho : b.overlay id p with
    | none =>
      rw [mergedTree_of_not_overlay hdel ho] at hnone
      rw [hnone] at hp
      cases hp
    | some c =>
      have := mergedTree_of_overlay hacc hdel (by rw [ho]; rfl)
      rw [hnone] at this
      cases this
  · exact fun hdel => if_pos hdel

theorem removed_of_submitted {r : SubmitResult} (h : Submitted env Fails.none id b r b') :
    ∃ m, b.row id.uuid = some m ∧ removed b b' = (currentPaths b).filter (fun p => p ∈ m.deletedPaths) := by
  obtain ⟨m, hrow, hcur⟩ := current_of_submitted h
  refine ⟨m, hrow, List.filter_congr fun p hp => ?_⟩
  rw [Bool.eq_iff_iff, Option.isNone_iff_eq_none, decide_eq_true_iff]
  exact hcur p (mem_currentPaths.1 hp).2

/-- **The rail holds over a whole workspace exactly when the deletions of its uploads add up to at most half of HEAD**:
whatever is uploaded to a new workspace, a submit that is refused removes nothing, and one that goes through leaves half
of `current/` standing if and only if the accepted uploads, taken together, ask to delete at most half of it. -/
theorem rail_holds_iff {name : PathId} (hrow : b.row id.uuid = some wsMeta) (hname : name.uuid = id.uuid)
    (hnew : wsMeta.deletedPaths = []) (reqs : List UploadRequest) (newId : Uuid) {out : Except ApiError SubmitResult} (hsub : submitWorkspaceHandler env Fails.none newId name
      (uploads env codecs id reqs b) = (out, b')) :
    (∀ e, out = .error e → HalfStands (uploads env codecs id reqs b) b') ∧
      (∀ r, out = .ok r → (HalfStands (uploads env codecs id reqs b) b' ↔
        2 * ((currentPaths b).filter (fun p => Asked env codecs b reqs p)).length ≤ (currentPaths b).length)) := by
  have hends := submitWorkspaceHandler_ends env Fails.none newId name (uploads env codecs id reqs b)
  have hcol := @uploads_collected env codecs id reqs b wsMeta hrow
  constructor
  · rintro e rfl
    have hstore := (denied_quiet (hends.error hsub)).store
    have hnone : removed (uploads env codecs id reqs b) b' = [] := by
      apply List.filter_eq_nil_iff.2
      intro p hp
      have hcur : b'.current p = (uploads env codecs id reqs b).current p := by
        unfold Backend.current
        rw [hstore]
      have hsome := (mem_currentPaths.1 hp).2
      rw [hcur]
      simpa [Option.isSome_iff_ne_none] using hsome
    unfold HalfStands
    rw [hnone]
    exact Nat.zero_le _
  · rintro r rfl
    obtain ⟨m, hm, hremoved⟩ := removed_of_submitted (hends.ok hsub)
    obtain ⟨m', hm', hdel⟩ := hcol.row
    rw [row_id hrow, ← hname] at hm'
    obtain rfl : m' = m := Option.some.inj (hm'.symm.trans hm)
    have hperm := perm_currentPaths hcol.current
    have hcount : (removed (uploads env codecs id reqs b) b').length =
        ((currentPaths b).filter (fun p => Asked env codecs b reqs p)).length := by
      rw [hremoved, (hperm.filter _).length_eq]
      congr 1
      apply List.filter_congr
      intro p _
      rw [decide_eq_decide, hdel, hnew]
      simp
    unfold HalfStands
    rw [hcount, hperm.length_eq]

/-! ## Four files -/

/-- HEAD has the files `a`, `b`, `c` and `d`, and workspace 2 is new. -/
def fourFiles : Backend := (serveAll hashed oneLetter [quietly (.create 1 "add four files".toList),
  quietly (.upload 1 (.files ⟨["a", "b", "c", "d"].map fun p => ⟨p.toList, "YQ==".toList⟩, []⟩)),
  quietly (.submit 9 1), quietly (.create 2 "clean up".toList)] [] fresh).2

/-- An upload of no files that deletes paths. -/
def deletesOnly (paths : List String) : UploadRequest := .files ⟨[], paths.map String.toList⟩

theorem fourFiles_row : ∃ m, fourFiles.row 2 = some m ∧ m.deletedPaths = [] := by
  have h : (fourFiles.row 2).any (fun m => m.deletedPaths = []) = true := by decide +kernel
  obtain ⟨m, hrow, hnew⟩ := (Option.any_eq_true _ _).1 h
  exact ⟨m, hrow, of_decide_eq_true hnew⟩

/-- Two of four files may go. -/
theorem rail_holds_iff_two_of_four : ∃ r b', submitWorkspaceHandler hashed Fails.none 9 2
      (uploads hashed oneLetter 2 [deletesOnly ["a"], deletesOnly ["b"]] fourFiles) = (.ok r, b') ∧
    HalfStands (uploads hashed oneLetter 2 [deletesOnly ["a"], deletesOnly ["b"]] fourFiles) b' := by
  obtain ⟨m, hrow, hnew⟩ := fourFiles_row
  have hok : (submitWorkspaceHandler hashed Fails.none 9 2
      (uploads hashed oneLetter 2 [deletesOnly ["a"], deletesOnly ["b"]] fourFiles)).1.isOk = true := by decide +kernel
  have hhalf : 2 * ((currentPaths fourFiles).filter (fun p => Asked hashed oneLetter fourFiles
      [deletesOnly ["a"], deletesOnly ["b"]] p)).length ≤ (currentPaths fourFiles).length := by decide +kernel
  rcases hsub : submitWorkspaceHandler hashed Fails.none 9 2
      (uploads hashed oneLetter 2 [deletesOnly ["a"], deletesOnly ["b"]] fourFiles) with ⟨e | r, b'⟩
  · rw [hsub] at hok
    cases hok
  · exact ⟨r, b', rfl, ((@rail_holds_iff _ _ 2 _ _ _ 2 hrow rfl hnew _ 9 _ hsub).2 r rfl).2 hhalf⟩

/-- No rail stands in the way of an upload of deleted paths: three of the four files are gone. -/
theorem deleted_paths_wipe_current : 3 ≤ (currentPaths fourFiles).length ∧
    (submitWorkspaceHandler hashed Fails.none 9 2
      (uploads hashed oneLetter 2 [deletesOnly ["a", "b", "c"]] fourFiles)).1.isOk = true ∧
    ¬ HalfStands (uploads hashed oneLetter 2 [deletesOnly ["a", "b", "c"]] fourFiles)
      (submitWorkspaceHandler hashed Fails.none 9 2
        (uploads hashed oneLetter 2 [deletesOnly ["a", "b", "c"]] fourFiles)).2 := by
  decide +kernel

end Handlers
end Vai
