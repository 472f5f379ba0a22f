import Vai.Server
/-!
# Buffered — a merge on the server before it is flushed

The engine works on buffers: whatever fails in it, the file store is as it was (`submitWithFs_store`).  Only the flush
writes, and it writes nothing but what the engine has left pending.
-/
namespace Vai
namespace Merge

open Proc

/-- The calls of `fs` that only look keep `I`. -/
structure ReadsKeep {φ : Type} (fs : MergeFs φ) (I : φ → Prop) : Prop where
  readFile : ∀ key, Keeps I (fs.readFile key)
  listFiles : ∀ pre, Keeps I (fs.listFiles pre)
  fileExists : ∀ key, Keeps I (fs.fileExists key)

variable {φ : Type} {env : Env} {fs : MergeFs φ} {I : φ → Prop}

theorem keeps_io {α : Type} {m : Proc φ IoError α} (h : Keeps I m) : Keeps I (io m) := h.mapErr _

theorem readIfExists_keeps (h : ReadsKeep fs I) (key : Text) : Keeps I (Diff.readIfExists fs key) := by
  unfold Diff.readIfExists
  refine Keeps.bind (keeps_io (h.fileExists _)) fun there => ?_
  split
  · exact Keeps.bind (keeps_io (h.readFile _)) fun _ => keeps_pure I _
  · exact keeps_pure I _

theorem overlayStep_keeps (h : ReadsKeep fs I) (acc : Diff.Changes) (key : Text) :
    Keeps I (Diff.overlayStep env fs acc key) := by
  unfold Diff.overlayStep
  split
  · exact keeps_fail I _
  · refine Keeps.bind (keeps_io (h.readFile _)) fun _ => Keeps.bind (keeps_io (h.fileExists _)) fun _ => ?_
    split
    · refine Keeps.bind (readIfExists_keeps h _) fun _ => Keeps.bind (keeps_ofExcept I _ _) fun _ => keeps_pure I _
    · exact keeps_pure I _

theorem deletedStep_keeps (h : ReadsKeep fs I) (acc : Diff.Changes) (p : Path) :
    Keeps I (Diff.deletedStep env fs acc p) := by
  unfold Diff.deletedStep
  refine Keeps.bind (keeps_io (h.fileExists _)) fun _ => ?_
  split
  · split
    · refine Keeps.bind (keeps_io (h.readFile _)).attempt fun r => ?_
      cases r with
      | error _ => exact keeps_pure I _
      | ok base =>
        simp only
        split
        · exact keeps_pure I _
        · exact keeps_pure I _
    · exact keeps_pure I _
  · exact keeps_pure I _

theorem computeWithFs_keeps (h : ReadsKeep fs I) (ws : Uuid) (b : Text) (D : List Path) :
    Keeps I (Diff.computeWithFs env fs ws b D) := by
  unfold Diff.computeWithFs
  refine Keeps.bind (keeps_io (h.listFiles _)) fun keys => ?_
  refine Keeps.bind (keeps_foldlM (overlayStep_keeps h) keys _) fun acc => ?_
  exact Keeps.bind (keeps_foldlM (deletedStep_keeps h) D acc) fun _ => keeps_pure I _

theorem collectVersion_keeps (h : ReadsKeep fs I) (r : FMap Path Bytes) (n : Nat) : Keeps I (collectVersion fs r n) := by
  unfold collectVersion
  refine Keeps.bind (keeps_io (h.listFiles _)) fun keys => keeps_foldlM (fun r' key => ?_) keys r
  unfold collectKey
  split
  · exact keeps_fail I _
  · exact Keeps.bind (keeps_io (h.readFile _)) fun _ => keeps_pure I _

theorem mergeFiles_keeps (h : ReadsKeep fs I) (ws : Uuid) (H : FMap Path Bytes) (d : WorkspaceDiff) :
    Keeps I (mergeFiles env fs ws H d) := by
  unfold mergeFiles
  refine keeps_foldlM (fun acc fd => ?_) d.fileDiffs _
  unfold mergeStep
  refine Keeps.bind (keeps_io (h.readFile _)) fun c => ?_
  cases H.get fd.path with
  | none => exact keeps_pure I _
  | some b =>
    refine Keeps.bind (readIfExists_keeps h _) fun o => ?_
    dsimp only
    split
    · exact keeps_fail I _
    · exact keeps_pure I _
    · exact keeps_pure I _

/-- All calls of `fs` keep `I`. -/
structure CallsKeep {φ : Type} (fs : MergeFs φ) (I : φ → Prop) : Prop extends ReadsKeep fs I where
  writeFile : ∀ key content, Keeps I (fs.writeFile key content)
  deleteFile : ∀ key, Keeps I (fs.deleteFile key)

/-- The file system is in a state of `I`. -/
def OnFs (I : φ → Prop) (w : World φ) : Prop := I w.fs

theorem keeps_onFs_of {α : Type} {p : Proc φ MergeError α} (h : Keeps I p) : Keeps (OnFs I) (onFs p) :=
  keeps_onFs fun w hw => h w.fs hw

theorem keeps_onVai_fs {α : Type} (p : Proc VaiDir MergeError α) : Keeps (OnFs I) (onVai env p) :=
  keeps_onVai (fun _ h => h) (fun _ h => h)

theorem recordEvents_keeps (d : WorkspaceDiff) : Keeps (OnFs I) (Diff.recordEvents env d) := by
  have happend : ∀ k, Keeps (OnFs I) (Diff.appendEvent env k) := fun k => (keeps_onVai_fs _).bind fun _ => keeps_pure _ _
  refine Keeps.bind ((keeps_onVai_fs _).bind fun _ => keeps_onVai_fs _) fun m => ?_
  split
  · exact keeps_pure _ _
  · exact (keeps_onVai_fs _).bind fun _ => (keeps_forM happend _).bind fun _ => (keeps_forM happend _).bind fun _ =>
      keeps_onVai_fs _

theorem savePreChangeSnapshot_keeps (h : CallsKeep fs I) (v : Text) (d : WorkspaceDiff) :
    Keeps I (savePreChangeSnapshot fs v d) := by
  refine keeps_forM (fun fd => ?_) _
  refine Keeps.bind (keeps_io (h.fileExists _)) fun there => ?_
  split
  · exact Keeps.bind (keeps_io (h.readFile _)) fun c => keeps_io (h.writeFile _ _)
  · exact keeps_pure _ _

theorem applyOverlay_keeps (h : CallsKeep fs I) (D : List Path) : Keeps I (applyOverlay fs D) := by
  refine Keeps.bind (keeps_io (h.listFiles _)) fun keys => ?_
  refine Keeps.bind (keeps_forM (fun key => ?_) _) fun _ => ?_
  · unfold applyKey
    split
    · exact keeps_fail _ _
    · exact Keeps.bind (keeps_io (h.readFile _)) fun c => keeps_io (h.writeFile _ _)
  · exact Keeps.bind (keeps_forM (fun p => keeps_io (h.deleteFile _)) _) fun _ => keeps_pure _ _

theorem updateGraphForDiff_keeps (h : CallsKeep fs I) (d : WorkspaceDiff) : Keeps (OnFs I) (updateGraphForDiff env fs d) := by
  refine Keeps.bind (keeps_onVai_fs _) fun _ => keeps_forM (fun fd => ?_) _
  unfold updateGraphFile
  split
  · refine Keeps.bind (keeps_onFs_of (keeps_io (h.readFile _))).attempt fun r => ?_
    cases r with
    | error _ => exact keeps_pure _ _
    | ok c => exact (keeps_onVai_fs _).attempt.bind fun _ => keeps_pure _ _
  · exact keeps_pure _ _

theorem complete_keeps (m : WorkspaceMeta) (d : WorkspaceDiff) (D : List Path) (v : Text) (n k : Nat) :
    Keeps (OnFs I) (complete env m d D v n k) := by
  refine Keeps.bind (keeps_forM (fun p => ?_) _) fun _ => ?_
  · exact (keeps_onVai_fs _).attempt.bind fun _ => keeps_pure _ _
  · refine Keeps.bind (keeps_onVai_fs _) fun _ => Keeps.bind (keeps_onVai_fs _) fun _ => Keeps.bind (keeps_onVai_fs _) fun _ => ?_
    refine Keeps.bind ?_ fun _ => keeps_pure _ _
    exact Keeps.bind (keeps_onVai_fs _) fun _ => Keeps.bind (keeps_onVai_fs _) fun _ =>
      (keeps_onVai_fs _).attempt.bind fun _ => keeps_pure _ _

theorem semanticMerge_keeps (h : CallsKeep fs I) (m : WorkspaceMeta) (d : WorkspaceDiff) (D : List Path) :
    Keeps (OnFs I) (semanticMerge env fs m d D) := by
  refine Keeps.bind ?_ fun H => Keeps.bind (keeps_onFs_of (mergeFiles_keeps h.toReadsKeep m.id H d)) fun acc => ?_
  · refine Keeps.bind (keeps_onVai_fs _) fun _ => keeps_onFs_of ?_
    exact keeps_foldlM (collectVersion_keeps h.toReadsKeep) _ _
  split
  · refine Keeps.bind (keeps_onVai_fs _) fun v => Keeps.bind (keeps_onFs_of (savePreChangeSnapshot_keeps h v d)) fun _ => ?_
    refine Keeps.bind (keeps_onFs_of (keeps_forM (fun q => keeps_io (h.writeFile _ _)) _)) fun _ => ?_
    refine Keeps.bind (keeps_onFs_of (keeps_forM (fun q => keeps_io (h.deleteFile _)) _)) fun _ => ?_
    exact Keeps.bind (updateGraphForDiff_keeps h d) fun _ => complete_keeps m d D v _ _
  · refine Keeps.bind (keeps_onVai_fs _) fun _ => Keeps.bind (keeps_forM (fun c => keeps_onVai_fs _) _) fun _ => ?_
    refine Keeps.bind (keeps_forM (fun c => ?_) _) fun _ => keeps_fail _ _
    exact (keeps_onVai_fs _).bind fun _ => keeps_pure _ _

/-- Whatever the calls of the file system keep, a submit keeps. -/
theorem submitWithFs_keeps (h : CallsKeep fs I) (m : WorkspaceMeta) (D : List Path) :
    Keeps (OnFs I) (submitWithFs env fs m D) := by
  refine Keeps.bind (keeps_onFs_of (computeWithFs_keeps h.toReadsKeep m.id m.baseVersion D)) fun d => ?_
  split
  · exact keeps_fail _ _
  refine Keeps.bind (recordEvents_keeps d) fun _ => Keeps.bind (keeps_onVai_fs _) fun _ => ?_
  refine Keeps.bind (keeps_onVai_fs _) fun _ => Keeps.bind (keeps_onVai_fs _) fun head => ?_
  split
  · refine Keeps.bind (keeps_onVai_fs _) fun v => Keeps.bind (keeps_onFs_of (savePreChangeSnapshot_keeps h v d)) fun _ => ?_
    refine Keeps.bind (keeps_onFs_of (applyOverlay_keeps h D)) fun n => ?_
    exact Keeps.bind (updateGraphForDiff_keeps h d) fun _ => complete_keeps m d D v n 0
  · exact semanticMerge_keeps h m d D

end Merge

namespace S3

open Proc Merge

variable {env : Env} {fails : Faults} {cfg : S3Config} {S : FMap Text Bytes} {m : WorkspaceMeta} {D : List Path}

theorem call_keeps (op : StoreOp) : Keeps (fun s => s.store = S) (call fails op) := by
  intro s hs
  unfold call
  split
  · exact hs
  · exact hs

theorem s3Path_bind_keeps {α : Type} {I : S3 → Prop} (key : Text) {f : Text → Proc S3 IoError α} (h : ∀ p, Keeps I (f p)) :
    Keeps I (s3Path cfg key >>= f) :=
  ((keeps_ofExcept _ _ _).bind fun _ => keeps_pure _ _).bind h

/-- No call of `S3MergeFs` writes to the store. -/
theorem s3MergeFs_callsKeep (fails : Faults) (cfg : S3Config) (S : FMap Text Bytes) :
    CallsKeep (s3MergeFs fails cfg) (fun s => s.store = S) where
  readFile key := by
    refine s3Path_bind_keeps key fun path => (keeps_read _ _).bind fun o => ?_
    cases o with
    | some c => exact keeps_pure _ _
    | none =>
      refine (keeps_read _ _).bind fun d => ?_
      split
      · exact keeps_fail _ _
      refine (keeps_read _ _).bind fun o => ?_
      cases o with
      | some c => exact keeps_pure _ _
      | none =>
        refine Keeps.bind (Keeps.mapErr ((call_keeps _).bind fun _ => (keeps_read _ _).bind fun o => ?_) _) fun c => ?_
        · cases o with
          | some c => exact keeps_pure _ _
          | none => exact keeps_fail _ _
        · exact Keeps.bind (fun _ h => h) fun _ => keeps_pure _ _
  listFiles pre := by
    refine (keeps_ofExcept _ _ _).bind fun root => Keeps.bind (Keeps.attempt ?_) fun r => ?_
    · exact (call_keeps _).bind fun _ => keeps_read _ _
    · exact (keeps_read _ _).bind fun _ => (keeps_read _ _).bind fun _ => keeps_pure _ _
  fileExists key := by
    refine s3Path_bind_keeps key fun path => (keeps_read _ _).bind fun c => ?_
    split
    · exact keeps_pure _ _
    refine (keeps_read _ _).bind fun c => ?_
    split
    · exact keeps_pure _ _
    refine (keeps_read _ _).bind fun c => ?_
    split
    · exact keeps_pure _ _
    · exact ((call_keeps _).bind fun _ => keeps_read _ _).mapErr _
  writeFile key c := s3Path_bind_keeps key fun path _ h => h
  deleteFile key := s3Path_bind_keeps key fun path _ h => h

/-- **The engine leaves the store as it is**, however it ends. -/
theorem submitWithFs_store {w : World S3} (hw : w.fs.store = S) :
    (submitWithFs env (s3MergeFs fails cfg) m D w).2.fs.store = S :=
  submitWithFs_keeps (s3MergeFs_callsKeep fails cfg S) m D w hw

/-- A submit that ends with an error has left the store as it was, or has stopped at a `put` of the flush. -/
theorem s3Submit_error {w : World S3} (hw : w.fs.store = S) : Ends (s3Submit env fails cfg m D) w (fun _ _ => True)
    (fun _ w' => w'.fs.store = S ∨ ∃ r w₁ pre q post, submitWithFs env (s3MergeFs fails cfg) m D w = (.ok r, w₁) ∧
      writeList env w₁.fs.pendingWrites = pre ++ q :: post ∧ w'.fs.store = putAll S pre ∧
      ∃ i, fails i (.put q.1) = true) := by
  have hstore := @submitWithFs_store env fails cfg S m D w hw
  unfold s3Submit
  rcases hr : submitWithFs env (s3MergeFs fails cfg) m D w with ⟨e | r, w₁⟩
  · rw [hr] at hstore
    apply ends_bind
    unfold Ends
    rw [hr]
    exact .inl hstore
  · rw [hr] at hstore
    apply ends_bind_of_ok hr
    refine (ends_onFs (ends_io (E := fun _ s' => Drained w₁.fs s' ∧ ∃ pre q post, writeList env w₁.fs.pendingWrites =
      pre ++ q :: post ∧ s'.store = putAll w₁.fs.store pre ∧ ∃ i, fails i (.put q.1) = true)
      (flush_spec env fails w₁.fs))).bind ?_ fun _ _ _ => ends_pure trivial
    rintro e w₂ ⟨-, -, pre, q, post, hl, hs, hi⟩
    refine .inr ⟨r, w₁, pre, q, post, rfl, hl, ?_, hi⟩
    rw [hs, show w₁.fs.store = S from hstore]

end S3
end Vai
