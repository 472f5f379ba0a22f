import Vai.HandlerSpec
/-!
# UploadSpec — uploads when nothing fails

What a stored file, a noted deletion and the end of an upload leave, field by field.
-/
namespace Vai

namespace Backend

/-- The content stored under a hash. -/
def blob (b : Backend) (hash : Text) : Option Bytes := b.store.get (blobKey hash)

end Backend

namespace Handlers

open Proc Backend

variable {env : Env} {codecs : Codecs} {id : PathId} {b b' : Backend} {p : Path} {c : Bytes}

/-! ## A stored file -/

/-- The event of a stored file: its path, and the hash of what is there now. -/
def FileKind (id : Uuid) (p : Path) (hash : Text) (kind : EventKind) : Prop :=
  kind = .fileAdded id p hash ∨ ∃ old, kind = .fileModified id p old hash

/-- The backend after a file is stored, with the blob of what it replaces. -/
def stored (env : Env) (id : PathId) (p : Path) (c : Bytes) (old : Option Bytes) (kind : EventKind) (b : Backend) : Backend :=
  let S := (b.store.insert (workspaceKey id p) c).insert (blobKey (env.sha256Hex c)) c
  recorded kind { b with store := match old with
    | none => S
    | some old => S.insert (blobKey (env.sha256Hex old)) old }

/-- What storing a file changes. -/
structure Wrote (env : Env) (id : PathId) (p : Path) (c : Bytes) (b b' : Backend) : Prop where
  overlay : ∀ i q, b'.overlay i q = if i = id ∧ q = p then some c else b.overlay i q
  current : ∀ q, b'.current q = b.current q
  blob : ∀ hash, b'.blob hash = b.blob hash ∨ ∃ c', b'.blob hash = some c' ∧ env.sha256Hex c' = hash
  blobs : ∃ c', b'.blob (env.sha256Hex c) = some c' ∧ env.sha256Hex c' = env.sha256Hex c
  event : ∃ kind, FileKind id p (env.sha256Hex c) kind ∧ b'.events = b.events ++ [⟨b.nextEvent, kind⟩]
  nextEvent : b'.nextEvent = b.nextEvent + 1
  workspaces : b'.workspaces = b.workspaces
  versions : b'.versions = b.versions
  head : b'.head = b.head

theorem stored_wrote (old : Option Bytes) {kind : EventKind} (hk : FileKind id p (env.sha256Hex c) kind) (b : Backend) :
    Wrote env id p c b (stored env id p c old kind b) := by
  have hget : ∀ key, (stored env id p c old kind b).store.get key =
      if ∃ o, old = some o ∧ key = blobKey (env.sha256Hex o) then old
      else if key = blobKey (env.sha256Hex c) then some c
      else if key = workspaceKey id p then some c else b.store.get key := by
    intro key
    unfold stored
    cases old with
    | none => simp [recorded, FMap.get_insert]
    | some o => simp [recorded, FMap.get_insert]
  refine ⟨fun i q => ?_, fun q => ?_, fun hash => ?_, ?_, ⟨kind, hk, rfl⟩, rfl, rfl, rfl, rfl⟩
  · unfold Backend.overlay
    rw [hget, if_neg (fun ⟨o, _, h⟩ => workspaceKey_ne_blobKey _ _ _ h), if_neg (workspaceKey_ne_blobKey _ _ _)]
    by_cases h : i = id ∧ q = p
    · rw [if_pos h, if_pos (by rw [h.1, h.2])]
    · rw [if_neg h, if_neg (fun he => h (workspaceKey_injective he))]
  · unfold Backend.current
    rw [hget, if_neg (fun ⟨o, _, h⟩ => currentKey_ne_blobKey _ _ h), if_neg (currentKey_ne_blobKey _ _),
      if_neg (workspaceKey_ne_currentKey _ _ _).symm]
  · unfold Backend.blob
    rw [hget]
    by_cases ho : ∃ o, old = some o ∧ blobKey hash = blobKey (env.sha256Hex o)
    · obtain ⟨o, rfl, h⟩ := ho
      rw [if_pos ⟨o, rfl, h⟩]
      exact .inr ⟨o, rfl, (blobKey_injective h).symm⟩
    · rw [if_neg ho]
      by_cases hc : blobKey hash = blobKey (env.sha256Hex c)
      · rw [if_pos hc]
        exact .inr ⟨c, rfl, (blobKey_injective hc).symm⟩
      · rw [if_neg hc, if_neg (workspaceKey_ne_blobKey _ _ _).symm]
        exact .inl rfl
  · unfold Backend.blob
    rw [hget]
    by_cases ho : ∃ o, old = some o ∧ blobKey (env.sha256Hex c) = blobKey (env.sha256Hex o)
    · obtain ⟨o, rfl, h⟩ := ho
      rw [if_pos ⟨o, rfl, h⟩]
      exact ⟨o, rfl, (blobKey_injective h).symm⟩
    · rw [if_neg ho, if_pos rfl]
      exact ⟨c, rfl, rfl⟩

theorem storeFile_wrote (i : Nat) (b : Backend) :
    ∃ b', storeFile env Fails.none i id p c b = (.ok ⟨⟩, b') ∧ Wrote env id p c b b' := by
  obtain ⟨old, hold⟩ := @existing_apply Fails.none id i p b
  unfold storeFile
  rw [bind_of_ok hold]
  cases old with
  | none => exact ⟨_, rfl, stored_wrote none (.inl rfl) b⟩
  | some old => exact ⟨_, rfl, stored_wrote (some old) (.inr ⟨_, rfl⟩) b⟩

/-- One file of an archive: nothing happens where HEAD has its hash, else it is stored. -/
theorem uploadEntry_wrote (current : FMap Path Text) (files : FMap Path Bytes) (tally : Tally) (q : Path × Nat)
    (b : Backend) : ∃ t b', uploadEntry env Fails.none id current files tally q b = (.ok t, b') ∧
      (Unchanged env current files q.1 ∧ b' = b ∨
        ∃ c, files.get q.1 = some c ∧ current.get q.1 ≠ some (env.sha256Hex c) ∧ Wrote env id q.1 c b b') := by
  by_cases hu : Unchanged env current files q.1
  · obtain ⟨t, ht⟩ := @uploadEntry_unchanged env Fails.none id current files q hu tally b
    exact ⟨t, b, ht, .inl ⟨hu, rfl⟩⟩
  unfold Unchanged at hu
  push Not at hu
  obtain ⟨c, hf, hne⟩ := hu
  unfold uploadEntry
  simp only [hf]
  cases hc : current.get q.1 with
  | none =>
    exact ⟨_, _, rfl, .inr ⟨c, rfl, by simp, stored_wrote none (.inl rfl) b⟩⟩
  | some old =>
    have hold : ¬ old = env.sha256Hex c := fun he => hne (by rw [hc, he])
    simp only [if_neg hold]
    exact ⟨_, _, rfl, .inr ⟨c, rfl, by simpa using hold, stored_wrote none (.inr ⟨_, rfl⟩) b⟩⟩

/-! ## The end of an upload -/

theorem noteDeleted_apply (id : Uuid) (merged : List Path) (p : Path) (b : Backend) : noteDeleted Fails.none id merged p b =
    (.ok (if p ∈ merged then merged else merged ++ [p]), recorded (.fileRemoved id p) b) := rfl

/-- Only rows differ, and only that of the workspace, in its status and its deletions. -/
structure Finished (wsMeta : WorkspaceMeta) (merged : List Path) (b b' : Backend) : Prop where
  rest : ∃ rows, b' = { b with workspaces := rows }
  other : ∀ i, i ≠ wsMeta.id → b'.row i = b.row i
  row : ∃ status, b'.row wsMeta.id = some { wsMeta with status := status, deletedPaths := merged }

theorem finishUpload_finished {wsMeta : WorkspaceMeta} (hrow : b.row wsMeta.id = some wsMeta) (touched : Bool)
    (merged : List Path) : ∃ b', finishUpload Fails.none wsMeta touched merged b = (.ok ⟨⟩, b') ∧
      Finished wsMeta merged b b' := by
  unfold finishUpload
  generalize (if wsMeta.status = .created ∧ touched = true then some WorkspaceStatus.active else none) = status
  by_cases h : status.isSome = true ∨ merged ≠ wsMeta.deletedPaths
  · rw [if_pos h]
    rw [ignored_apply, updateWorkspace_apply rfl rfl hrow]
    refine ⟨_, rfl, ⟨_, rfl⟩, fun i hi => ?_, ?_⟩
    · rw [row_withRow, if_neg hi]
    · rw [row_withRow, if_pos rfl]
      unfold updatedRow
      by_cases hm : merged ≠ wsMeta.deletedPaths
      · rw [if_pos hm]
        exact ⟨_, rfl⟩
      · rw [if_neg hm, ← not_not.1 hm]
        exact ⟨_, rfl⟩
  · rw [if_neg h]
    rw [not_or, not_not] at h
    refine ⟨b, rfl, ⟨_, rfl⟩, fun _ _ => rfl, wsMeta.status, ?_⟩
    rw [hrow, h.2]

end Handlers
end Vai
