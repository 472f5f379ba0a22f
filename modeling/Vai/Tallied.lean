import Vai.Rail
/-!
# Tallied — what a snapshot upload answers

The counters of `upload_snapshot_handler` over the files of an archive, and when the handler accepts at all: both are
matters of the archive and of the tree of HEAD (`snapshot_answered`).
-/
namespace Vai
namespace Handlers

open Proc Backend

variable {env : Env} {codecs : Codecs} {id : Uuid} {b : Backend} {wsMeta : WorkspaceMeta}

/-- The archive has the file and HEAD has none. -/
def isAdded (current : FMap Path Text) (files : FMap Path Bytes) (p : Path) : Bool :=
  (files.get p).isSome && (current.get p).isNone

/-- Both have it, with another hash. -/
def isModified (env : Env) (current : FMap Path Text) (files : FMap Path Bytes) (p : Path) : Bool :=
  (files.get p).any (fun c => (current.get p).any (fun hash => hash ≠ env.sha256Hex c))

theorem uploadEntry_counts (current : FMap Path Text) (files : FMap Path Bytes) (tally : Tally) (q : Path × Nat)
    (b : Backend) : Ends (uploadEntry env Fails.none id current files tally q) b
      (fun t _ => t.added = tally.added + (isAdded current files q.1).toNat ∧
        t.modified = tally.modified + (isModified env current files q.1).toNat) (fun _ _ => False) := by
  unfold uploadEntry isAdded isModified
  cases hf : files.get q.1 with
  | none => exact ends_pure ⟨rfl, rfl⟩
  | some c =>
    cases hc : current.get q.1 with
    | none => exact ⟨rfl, rfl⟩
    | some old =>
      by_cases hold : old = env.sha256Hex c
      · simp only [if_pos hold]
        exact ends_pure ⟨rfl, by simp [hold]⟩
      · simp only [if_neg hold]
        exact ⟨rfl, by simp [hold]⟩

theorem entries_counts (current : FMap Path Text) (files : FMap Path Bytes) (l : List (Path × Nat)) (b : Backend) :
    Ends (l.foldlM (uploadEntry env Fails.none id current files) ⟨0, 0, 0, []⟩) b
      (fun t _ => t.added = (l.map Prod.fst).countP (isAdded current files) ∧
        t.modified = (l.map Prod.fst).countP (isModified env current files)) (fun _ _ => False) := by
  refine ends_foldlM (fun pre (t : Tally) _ => t.added = (pre.map Prod.fst).countP (isAdded current files) ∧
    t.modified = (pre.map Prod.fst).countP (isModified env current files)) l [] _ b ⟨rfl, rfl⟩ ?_
  intro pre q post t s _ hs
  refine (uploadEntry_counts current files t q s).mono (fun t' _ h => ?_) fun _ _ h => h
  have hcount : ∀ p : Path → Bool, ((pre ++ [q]).map Prod.fst).countP p =
      (pre.map Prod.fst).countP p + (p q.1).toNat := by
    intro p
    cases hp : p q.1 <;> simp [List.countP_append, hp]
  rw [hcount, hcount, h.1, h.2, hs.1, hs.2]
  exact ⟨rfl, rfl⟩

/-- What the answer says of an archive. -/
structure Answers (env : Env) (snapshot : Snapshot) (b : Backend) (r : UploadSnapshotResponse) : Prop where
  added : r.added = snapshot.files.keys.countP (isAdded (currentHashes env b) snapshot.files)
  modified : r.modified = snapshot.files.keys.countP (isModified env (currentHashes env b) snapshot.files)
  deleted : r.deleted = (snapshotDeletions env (currentHashes env b) snapshot).length

/-- **The answer of the handler**, which answers exactly to what it accepts. -/
theorem snapshot_answered (allow : Bool) (gz : Bytes) (hrow : b.row id = some wsMeta) :
    Ends (uploadSnapshotHandler env Fails.none codecs id allow gz) b
      (fun r _ => accepts env codecs b (.snapshot allow gz) = true ∧
        ∃ snapshot, readSnapshot codecs gz = .ok snapshot ∧ Answers env snapshot b r)
      (fun _ _ => accepts env codecs b (.snapshot allow gz) = false) := by
  unfold uploadSnapshotHandler
  split
  · rename_i hsize
    exact ends_fail (by simp [accepts, hsize])
  rename_i hsize
  refine (getWorkspace_ends id b).bind (fun e b' h => ?_) ?_
  · rcases h.2 with ⟨-, h⟩ | h
    · cases h
    · rw [hrow] at h
      cases h
  rintro m b₁ ⟨hm, rfl⟩
  obtain rfl : wsMeta = m := Option.some.inj (hrow.symm.trans hm)
  refine ends_bind (ends_ofExcept (fun snapshot hread => ?_) fun e hread => ?_)
  · apply ends_bind_of_ok (currentMap_apply b₁)
    rw [if_neg (by decide)]
    have hasked : askedPaths env codecs b₁ (.snapshot allow gz) = snapshotDeletions env (currentHashes env b₁) snapshot := by
      simp only [askedPaths, hread]
    have hloop := (@entries_counts env id (currentHashes env b₁) snapshot.files
      (env.hashOrder snapshot.files.keys).zipIdx b₁).and (entries_entered _ _ _ _ b₁)
    refine hloop.bind (fun _ _ h => h.1.elim) ?_
    rintro tally b₂ ⟨hcounts, h₂⟩
    rw [List.zipIdx_map_fst] at hcounts
    dsimp only
    rw [(keys_currentHashes env b₁).length_eq]
    split
    · rename_i hrail
      exact ends_fail (by simp [accepts, hasked, hrail])
    · rename_i hrail
      refine (deletions_recorded _ _ _ b₂).bind (fun _ _ h => h.elim) fun merged b₃ h₃ => ?_
      have hrow₃ : b₃.row wsMeta.id = some wsMeta := by
        unfold Backend.row at hrow ⊢
        rw [h₃.2.2.1, h₂.workspaces, row_id hm]
        exact hrow
      obtain ⟨b₄, hrun, -⟩ := finishUpload_finished hrow₃ (!tally.uploaded.isEmpty ||
        !(snapshotDeletions env (currentHashes env b₁) snapshot).isEmpty) merged
      refine ends_bind_of_ok hrun (ends_pure ⟨?_, snapshot, hread, ?_, ?_, rfl⟩)
      · simp [accepts, hasked, hrail, hread, Nat.not_lt.1 hsize, Except.isOk, Except.toBool]
      · rw [hcounts.1, (env.hashOrderPerm _).countP_eq]
      · rw [hcounts.2, (env.hashOrderPerm _).countP_eq]
  · simp [accepts, hread, Except.isOk, Except.toBool]

end Handlers
end Vai
