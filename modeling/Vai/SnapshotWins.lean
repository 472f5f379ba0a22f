import Vai.UploadSpec
import Vai.Requests
/-!
# SnapshotWins — the tree after a full snapshot is submitted

A full snapshot of a tree should make the workspace that tree.  It stores the files that differ from HEAD and deletes
what HEAD has and the tree has not, on top of what the workspace already holds: overlay files that the tree has as HEAD
has them, or has not at all, stay, and a deletion is never taken back.  `snapshot_wins_iff` says which workspaces come
out as the tree all the same.
-/
namespace Vai
namespace Handlers

open Proc Backend

variable {env : Env} {codecs : Codecs} {id : PathId} {b b' : Backend} {wsMeta : WorkspaceMeta} {T : FMap Path Bytes}

theorem get_currentHashes (env : Env) (b : Backend) (p : Path) :
    (currentHashes env b).get p = if p = [] then none else (b.current p).map env.sha256Hex := by
  unfold currentHashes
  generalize hl : ((b.store.pairs.filter (fun q => currentPrefix.isPrefixOf q.1)).filterMap
    (fun q => (Text.stripPrefix currentPrefix q.1).map (fun rel => (rel, env.sha256Hex q.2)))).filter (fun q => q.1 ≠ []) = l
  have hmem : ∀ q h, (q, h) ∈ l ↔ q ≠ [] ∧ (b.current q).map env.sha256Hex = some h := by
    intro q h
    rw [← hl]
    simp only [List.mem_filter, List.mem_filterMap, Prod.exists, FMap.mem_pairs, Option.map_eq_some_iff, Prod.mk.injEq,
      Text.stripPrefix_eq_some, decide_eq_true_eq]
    constructor
    · rintro ⟨⟨key, c, ⟨hc, -⟩, rel, rfl, rfl, rfl⟩, hne⟩
      exact ⟨hne, c, hc, rfl⟩
    · rintro ⟨hne, c, hc, rfl⟩
      exact ⟨⟨currentKey q, c, ⟨hc, by simp [currentKey]⟩, q, rfl, rfl, rfl⟩, hne⟩
  refine (FMap.get_ofList_of_mem_iff (f := fun q => if q = [] then none else (b.current q).map env.sha256Hex) ?_ p)
  intro q h
  rw [hmem]
  by_cases hq : q = [] <;> simp [hq]

/-! ## What the snapshot leaves -/

/-- The overlay after the files `done` of an archive. -/
def overlaid (env : Env) (current : FMap Path Text) (files : FMap Path Bytes) (done : List Path) (O : Path → Option Bytes)
    (p : Path) : Option Bytes :=
  match files.get p with
  | some c => if p ∈ done ∧ current.get p ≠ some (env.sha256Hex c) then some c else O p
  | none => O p

/-- The loop over the archive, as far as the tree of a submit depends on it. -/
structure Entered (env : Env) (current : FMap Path Text) (files : FMap Path Bytes) (id : PathId) (done : List Path)
    (b b' : Backend) : Prop where
  overlay : ∀ p, b'.overlay id p = overlaid env current files done (b.overlay id) p
  others : ∀ i p, i ≠ id → b'.overlay i p = b.overlay i p
  current : ∀ p, b'.current p = b.current p
  workspaces : b'.workspaces = b.workspaces
  head : b'.head = b.head

theorem entered_nil (env : Env) (current : FMap Path Text) (files : FMap Path Bytes) (id : PathId) (b : Backend) :
    Entered env current files id [] b b := by
  refine ⟨fun p => ?_, fun _ _ _ => rfl, fun _ => rfl, rfl, rfl⟩
  unfold overlaid
  cases files.get p <;> simp

theorem Entered.unchanged {current : FMap Path Text} {files : FMap Path Bytes} {done : List Path} {q : Path} {b₀ : Backend}
    (h : Entered env current files id done b₀ b) (hu : Unchanged env current files q) :
    Entered env current files id (done ++ [q]) b₀ b := by
  refine ⟨fun p => ?_, h.others, h.current, h.workspaces, h.head⟩
  rw [h.overlay]
  unfold overlaid
  cases hf : files.get p with
  | none => rfl
  | some c =>
    have hiff : p ∈ done ∧ current.get p ≠ some (env.sha256Hex c) ↔
        p ∈ done ++ [q] ∧ current.get p ≠ some (env.sha256Hex c) := by
      refine and_congr_left fun hne => ⟨List.mem_append_left _, fun hp => ?_⟩
      rcases List.mem_append.1 hp with hp | hp
      · exact hp
      · rw [List.mem_singleton.1 hp] at hf hne
        exact absurd (hu c hf) hne
    simp only [hiff]

theorem Entered.wrote {current : FMap Path Text} {files : FMap Path Bytes} {done : List Path} {q : Path} {b₀ : Backend}
    {c : Bytes} (h : Entered env current files id done b₀ b) (hf : files.get q = some c)
    (hne : current.get q ≠ some (env.sha256Hex c)) (hw : Wrote env id q c b b') :
    Entered env current files id (done ++ [q]) b₀ b' := by
  refine ⟨fun p => ?_, fun i p hi => ?_, fun p => (hw.current p).trans (h.current p), hw.workspaces.trans h.workspaces,
    hw.head.trans h.head⟩
  case refine_2 =>
    rw [hw.overlay, if_neg (fun h => hi h.1)]
    exact h.others i p hi
  rw [hw.overlay, h.overlay]
  unfold overlaid
  by_cases hp : p = q
  · subst p
    rw [hf]
    simp [hne]
  · rw [if_neg (fun h => hp h.2)]
    cases files.get p <;> simp [hp]

theorem entries_entered (current : FMap Path Text) (files : FMap Path Bytes) (l : List (Path × Nat)) (tally : Tally)
    (b : Backend) : Ends (l.foldlM (uploadEntry env Fails.none id current files) tally) b
      (fun _ b' => Entered env current files id (l.map Prod.fst) b b') (fun _ _ => False) := by
  refine ends_foldlM (fun pre (_ : Tally) b' => Entered env current files id (pre.map Prod.fst) b b') l [] tally b
    (entered_nil ..) ?_
  intro pre q post t s _ hs
  obtain ⟨t', b', hrun, hcase⟩ := @uploadEntry_wrote env id current files t q s
  unfold Ends
  rw [hrun, List.map_append]
  rcases hcase with ⟨hu, rfl⟩ | ⟨c, hf, hne, hw⟩
  · exact hs.unchanged hu
  · exact hs.wrote hf hne hw

theorem deletions_recorded (i : Uuid) (l merged : List Path) (b : Backend) :
    Ends (l.foldlM (noteDeleted Fails.none i) merged) b (fun merged' b' => (∀ p, p ∈ merged' ↔ p ∈ merged ∨ p ∈ l) ∧
      b'.store = b.store ∧ b'.workspaces = b.workspaces ∧ b'.head = b.head) (fun _ _ => False) := by
  refine ends_foldlM (fun pre merged' b' => (∀ p, p ∈ merged' ↔ p ∈ merged ∨ p ∈ pre) ∧
      b'.store = b.store ∧ b'.workspaces = b.workspaces ∧ b'.head = b.head) l [] merged b
    ⟨fun p => by simp, rfl, rfl, rfl⟩ ?_
  intro pre q post merged' s _ hs
  unfold Ends
  rw [noteDeleted_apply]
  refine ⟨fun p => ?_, hs.2⟩
  rw [List.mem_append, List.mem_singleton, ← or_assoc, ← hs.1]
  split
  · rename_i hq
    exact ⟨.inl, fun h => h.elim (fun h => h) fun h => h ▸ hq⟩
  · rw [List.mem_append, List.mem_singleton]

/-- The workspace after a snapshot that was accepted. -/
structure SnapshotTaken (env : Env) (snapshot : Snapshot) (id : PathId) (wsMeta : WorkspaceMeta) (b b' : Backend) : Prop where
  overlay : ∀ p, b'.overlay id p = match snapshot.files.get p with
    | some c => if (currentHashes env b).get p = some (env.sha256Hex c) then b.overlay id p else some c
    | none => b.overlay id p
  others : ∀ i p, i ≠ id → b'.overlay i p = b.overlay i p
  current : ∀ p, b'.current p = b.current p
  head : b'.head = b.head
  row : ∃ status D, b'.row wsMeta.id = some { wsMeta with status := status, deletedPaths := D } ∧
    ∀ p, p ∈ D ↔ p ∈ wsMeta.deletedPaths ∨ p ∈ snapshotDeletions env (currentHashes env b) snapshot

theorem snapshot_taken (allow : Bool) (gz : Bytes) (hrow : b.row id = some wsMeta) :
    Ends (uploadSnapshotHandler env Fails.none codecs id allow gz) b
      (fun _ b' => ∃ snapshot, readSnapshot codecs gz = .ok snapshot ∧ SnapshotTaken env snapshot id wsMeta b b')
      (fun _ _ => True) := by
  have hid := row_id hrow
  unfold uploadSnapshotHandler
  split
  · exact ends_fail trivial
  refine (getWorkspace_ends id b).bind (fun _ _ _ => trivial) ?_
  rintro m b₀ ⟨hm, rfl⟩
  obtain rfl : wsMeta = m := Option.some.inj (hrow.symm.trans hm)
  refine ends_bind (ends_ofExcept (fun snapshot hread => ?_) fun _ _ => trivial)
  apply ends_bind_of_ok (currentMap_apply b₀)
  rw [if_neg (by decide)]
  refine (entries_entered _ _ _ _ b₀).bind (fun _ _ h => h.elim) fun tally b₁ h₁ => ?_
  dsimp only
  split
  · exact ends_fail trivial
  refine (deletions_recorded _ _ _ b₁).bind (fun _ _ h => h.elim) fun merged b₂ ⟨hmerged, hstore, hrows, hhead⟩ => ?_
  have hrow₂ : b₂.row wsMeta.id = some wsMeta := by
    unfold Backend.row at hrow ⊢
    rw [hrows, h₁.workspaces, hid]
    exact hrow
  obtain ⟨b₃, hrun, hfin⟩ := finishUpload_finished hrow₂ (!tally.uploaded.isEmpty ||
    !(snapshotDeletions env (currentHashes env b₀) snapshot).isEmpty) merged
  refine ends_bind_of_ok hrun (ends_pure ⟨snapshot, hread, ?_⟩)
  obtain ⟨rows, rfl⟩ := hfin.rest
  obtain ⟨status, hrow₃⟩ := hfin.row
  refine ⟨fun p => ?_, fun i p hi => ?_, fun p => ?_, hhead.trans h₁.head, status, merged, hrow₃, hmerged⟩
  · have hov := h₁.overlay p
    show b₂.store.get (workspaceKey id p) = _
    rw [hstore]
    refine hov.trans ?_
    unfold overlaid
    cases hf : snapshot.files.get p with
    | none => rfl
    | some c =>
      have hp : p ∈ ((env.hashOrder snapshot.files.keys).zipIdx).map Prod.fst := by
        rw [List.zipIdx_map_fst, Env.mem_hashOrder, FMap.mem_keys, hf]
        rfl
      simp only [hp, true_and]
      by_cases hh : (currentHashes env b₀).get p = some (env.sha256Hex c) <;> simp [hh]
  · show b₂.store.get (workspaceKey i p) = _
    rw [hstore]
    exact h₁.others i p hi
  · show b₂.store.get (currentKey p) = _
    rw [hstore]
    exact h₁.current p

/-- The workspace after a full snapshot of `T`. -/
structure SnapshotLeft (env : Env) (T : FMap Path Bytes) (id : PathId) (wsMeta : WorkspaceMeta) (b b' : Backend) : Prop where
  overlay : ∀ p, b'.overlay id p = match T.get p with
    | some c => if (currentHashes env b).get p = some (env.sha256Hex c) then b.overlay id p else some c
    | none => b.overlay id p
  others : ∀ i p, i ≠ id → b'.overlay i p = b.overlay i p
  current : ∀ p, b'.current p = b.current p
  head : b'.head = b.head
  row : ∃ status D, b'.row wsMeta.id = some { wsMeta with status := status, deletedPaths := D } ∧
    ∀ p, p ∈ D ↔ p ∈ wsMeta.deletedPaths ∨ T.get p = none ∧ ((currentHashes env b).get p).isSome

theorem snapshot_left {gz : Bytes} (hread : readSnapshot codecs gz = .ok ⟨T, none⟩) (hrow : b.row id = some wsMeta) :
    Ends (upload env Fails.none codecs id (.snapshot true gz)) b (fun _ b' => SnapshotLeft env T id wsMeta b b')
      (fun _ _ => True) := by
  refine (snapshot_taken true gz hrow).bind (fun _ _ h => h) ?_
  rintro _ b' ⟨snapshot, hread', h⟩
  obtain rfl : ⟨T, none⟩ = snapshot := Except.ok.inj (hread.symm.trans hread')
  obtain ⟨status, D, hrow', hD⟩ := h.row
  refine ends_pure ⟨h.overlay, h.others, h.current, h.head, status, D, hrow', fun p => ?_⟩
  rw [hD]
  unfold snapshotDeletions
  rw [List.mem_filter, Env.mem_hashOrder, FMap.mem_keys, Option.isNone_iff_eq_none, and_comm]

/-! ## The submit -/

/-- On the fast-forward path the overlay is laid over HEAD, and then the deletions are made. -/
theorem mergedTree_of_head (hhead : headOf b wsMeta = wsMeta.baseVersion) (p : Path) : mergedTree env b id wsMeta p =
    if p ∈ wsMeta.deletedPaths then none else (b.overlay id p).or (b.current p) := by
  unfold mergedTree
  rw [Merge.tree_of_eq hhead]
  split
  · rfl
  · rw [filesIn_overlay, filesIn_base]
    cases b.overlay id p <;> rfl

/-- The workspace, submitted under the spelling `name`, has nothing left over that a full snapshot of `T` sent to `id` does
not overwrite: no file of `T` is deleted; a file of `T` that the snapshot does not store where the submit looks, since HEAD
has its hash or the spellings differ, is there with the same content all the same; and every other path is deleted, or a
file of HEAD's (which the snapshot deletes), or nowhere. -/
structure Overwritten (env : Env) (T : FMap Path Bytes) (id name : PathId) (wsMeta : WorkspaceMeta) (b : Backend) : Prop where
  kept : ∀ p c, T.get p = some c → p ∉ wsMeta.deletedPaths ∧
    (name ≠ id ∨ p ≠ [] ∧ (b.current p).map env.sha256Hex = some (env.sha256Hex c) →
      (b.overlay name p).or (b.current p) = some c)
  gone : ∀ p, T.get p = none → p ∈ wsMeta.deletedPaths ∨ p ≠ [] ∧ (b.current p).isSome ∨
    b.overlay name p = none ∧ b.current p = none

theorem overwritten_iff {name : PathId} : Overwritten env T id name wsMeta b ↔ ∀ p,
    (∀ c, T.get p = some c → p ∉ wsMeta.deletedPaths ∧ (name ≠ id ∨ p ≠ [] ∧
      (b.current p).map env.sha256Hex = some (env.sha256Hex c) → (b.overlay name p).or (b.current p) = some c)) ∧
    (T.get p = none → p ∈ wsMeta.deletedPaths ∨ p ≠ [] ∧ (b.current p).isSome ∨
      b.overlay name p = none ∧ b.current p = none) :=
  ⟨fun h p => ⟨h.kept p, h.gone p⟩, fun h => ⟨fun p => (h p).1, fun p => (h p).2⟩⟩

theorem SnapshotLeft.overlay_name {b₁ : Backend} (h : SnapshotLeft env T id wsMeta b b₁) (name : PathId) (p : Path) :
    b₁.overlay name p = match T.get p with
      | some c => if name ≠ id ∨ p ≠ [] ∧ (b.current p).map env.sha256Hex = some (env.sha256Hex c)
          then b.overlay name p else some c
      | none => b.overlay name p := by
  by_cases hn : name = id
  · subst name
    rw [h.overlay, get_currentHashes]
    cases T.get p with
    | none => rfl
    | some c => by_cases hp : p = [] <;> simp [hp]
  · rw [h.others name p hn]
    cases T.get p with
    | none => rfl
    | some c => exact (if_pos (.inl hn)).symm

/-- **The last full snapshot wins exactly where the workspace has nothing left over**: from any state the earlier uploads
have led to, with the workspace based on HEAD, the submit leaves the tree of the snapshot iff the snapshot overwrites all
that the workspace holds. -/
theorem snapshot_wins_iff {name : PathId} {gz : Bytes} {newId : Uuid} {r : SubmitResult} {b₁ b₂ : Backend}
    (hname : name.uuid = id.uuid) (hrow : b.row id = some wsMeta) (hhead : b.head = some wsMeta.baseVersion)
    (hread : readSnapshot codecs gz = .ok ⟨T, none⟩)
    (hup : upload env Fails.none codecs id (.snapshot true gz) b = (.ok ⟨⟩, b₁))
    (hsub : submitWorkspaceHandler env Fails.none newId name b₁ = (.ok r, b₂)) :
    (∀ p, b₂.current p = T.get p) ↔ Overwritten env T id name wsMeta b := by
  have hleft := (snapshot_left hread hrow).ok hup
  obtain ⟨status, D, hrow₁, hD⟩ := hleft.row
  obtain ⟨m, hm, -, -, hstored⟩ := ((submitWorkspaceHandler_ends env Fails.none newId name b₁).ok hsub).stored
    (S3.harmless_noFaults _)
  rw [hname] at hm
  rw [row_id hrow] at hrow₁
  obtain rfl : _ = m := Option.some.inj (hrow₁.symm.trans hm)
  have hcur : ∀ p, b₂.current p = if p ∈ D then none else (b₁.overlay name p).or (b.current p) := by
    intro p
    refine (hstored.current p).trans ?_
    rw [mergedTree_of_head (by unfold headOf; rw [hleft.head, hhead]; rfl), hleft.current]
  rw [overwritten_iff]
  refine forall_congr' fun p => ?_
  rw [hcur, hleft.overlay_name]
  have hDp := hD p
  rw [get_currentHashes] at hDp
  cases hT : T.get p with
  | none =>
    have hin : p ∈ D ↔ p ∈ wsMeta.deletedPaths ∨ p ≠ [] ∧ (b.current p).isSome := by
      rw [hDp, hT]
      by_cases hp : p = [] <;> simp [hp]
    simp only [hin]
    by_cases hd : p ∈ wsMeta.deletedPaths ∨ p ≠ [] ∧ (b.current p).isSome
    · rw [if_pos hd]
      simp only [reduceCtorEq, false_implies, implies_true, true_and, true_iff]
      exact fun _ => hd.imp_right .inl
    · rw [if_neg hd]
      rw [not_or] at hd
      simp [hd.1, hd.2]
  | some c =>
    have hin : p ∈ D ↔ p ∈ wsMeta.deletedPaths := by rw [hDp, hT]; simp
    have hone : ∀ {P : Bytes → Prop} {Q : Prop}, P c ↔ (∀ c', some c = some c' → P c') ∧ (some c = none → Q) :=
      ⟨fun h => ⟨fun _ he => Option.some.inj he ▸ h, fun he => by cases he⟩, fun h => h.1 c rfl⟩
    rw [← hone]
    simp only [hin]
    by_cases hd : p ∈ wsMeta.deletedPaths
    · rw [if_pos hd]
      exact iff_of_false (fun h => by cases h) (fun h => h.1 hd)
    rw [if_neg hd]
    by_cases hskip : name ≠ id ∨ p ≠ [] ∧ (b.current p).map env.sha256Hex = some (env.sha256Hex c)
    · rw [if_pos hskip]
      exact ⟨fun h => ⟨hd, fun _ => h⟩, fun h => h.2 hskip⟩
    · rw [if_neg hskip]
      exact iff_of_true rfl ⟨hd, fun h => absurd h hskip⟩

/-! ## Two workspaces -/

theorem oneWorkspace_empty (key : Text) : oneWorkspace.store.get key = none := FMap.get_empty key

/-- The first upload of a workspace is a snapshot with one file. -/
theorem snapshot_wins_iff_first_upload : ∃ T r b₁ b₂, readSnapshot (snapshotOf [97]) [] = .ok ⟨T, none⟩ ∧
    upload hashed Fails.none (snapshotOf [97]) 1 (.snapshot true []) oneWorkspace = (.ok ⟨⟩, b₁) ∧
    submitWorkspaceHandler hashed Fails.none 9 1 b₁ = (.ok r, b₂) ∧ T.get ['a'] = some [97] ∧
    ∀ p, b₂.current p = T.get p := by
  have hup : (upload hashed Fails.none (snapshotOf [97]) 1 (.snapshot true []) oneWorkspace).1 = .ok ⟨⟩ := by decide +kernel
  have hsub : (submitWorkspaceHandler hashed Fails.none 9 1
      (upload hashed Fails.none (snapshotOf [97]) 1 (.snapshot true []) oneWorkspace).2).1.isOk = true := by decide +kernel
  rcases hr : submitWorkspaceHandler hashed Fails.none 9 1
      (upload hashed Fails.none (snapshotOf [97]) 1 (.snapshot true []) oneWorkspace).2 with ⟨e | r, b₂⟩
  · rw [hr] at hsub
    cases hsub
  obtain ⟨T, hT, hget⟩ : ∃ T, readSnapshot (snapshotOf [97]) [] = .ok ⟨T, none⟩ ∧ T.get ['a'] = some [97] :=
    ⟨_, rfl, by decide +kernel⟩
  refine ⟨T, r, _, b₂, hT, Prod.ext hup rfl, hr, hget, ?_⟩
  have hrow : oneWorkspace.row 1 = some (.fresh 1 1) := by decide +kernel
  refine (@snapshot_wins_iff hashed (snapshotOf [97]) 1 _ _ _ 1 _ _ _ _ _ rfl hrow rfl hT (Prod.ext hup rfl) hr).2 ⟨fun p c _ => ⟨List.not_mem_nil, ?_⟩, fun p _ => ?_⟩
  · rintro (hname | ⟨-, h⟩)
    · exact absurd rfl hname
    · rw [show oneWorkspace.current p = none from oneWorkspace_empty _] at h
      cases h
  · exact .inr (.inr ⟨oneWorkspace_empty _, oneWorkspace_empty _⟩)

/-- HEAD has the file `a`. -/
def oneHeadFile : Backend := { oneWorkspace with store := FMap.ofList [(currentKey ['a'], [98])] }

/-- A workspace changes a file of HEAD's and takes the change back with a full snapshot of HEAD; the submit makes the
change. -/
theorem reverted_file_stays_changed :
    let change : UploadFilesRequest := ⟨[⟨"a".toList, "YQ==".toList⟩], []⟩
    let run := serveAll hashed (snapshotOf [98]) [quietly (.upload 1 (.files change)),
      quietly (.upload 1 (.snapshot true [])), quietly (.submit 9 1)] [] oneHeadFile
    oneHeadFile.row 1 = some (.fresh 1 1) ∧ oneHeadFile.head = some (WorkspaceMeta.fresh 1 1).baseVersion ∧
      run.1.map Served.answer = [.ok ⟨⟩, .ok ⟨⟩, .ok ⟨⟩] ∧
      (∃ T, readSnapshot (snapshotOf [98]) [] = .ok ⟨T, none⟩ ∧ T.get ['a'] = some [98]) ∧
      run.2.current ['a'] = some [97] := by
  intro change run
  exact ⟨by decide +kernel, by decide +kernel, by decide +kernel, ⟨_, rfl, by decide +kernel⟩, by decide +kernel⟩

end Handlers
end Vai
