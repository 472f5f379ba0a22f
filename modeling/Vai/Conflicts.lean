import Vai.Submit
import Vai.Disk
/-!
# Conflicts — what a refused merge leaves behind

`semantic_merge` decides every changed file before it writes the first one.  Over any file system at all, faults
included, a merge that returns `SemanticConflicts` has made no write and no deletion, and has changed nothing of `.vai/`
but the conflict records and the event log.

The writes of a run are put on record by `MergeFs.traced`; the loop's decisions are laid beside the diff, entry by entry
(`Decided`).
-/
namespace Vai

open Proc

variable {φ : Type}

/-- A call that changes the files. -/
inductive FsWrite where
  | writeFile (key : Text)
  | deleteFile (key : Text)
  deriving DecidableEq, Repr

/-- `fs` with its writes and deletions on record. -/
def MergeFs.traced (fs : MergeFs φ) : MergeFs (φ × List FsWrite) where
  readFile key := fun s => ((fs.readFile key s.1).1, (fs.readFile key s.1).2, s.2)
  writeFile key c := fun s => ((fs.writeFile key c s.1).1, (fs.writeFile key c s.1).2, s.2 ++ [.writeFile key])
  listFiles pre := fun s => ((fs.listFiles pre s.1).1, (fs.listFiles pre s.1).2, s.2)
  fileExists key := fun s => ((fs.fileExists key s.1).1, (fs.fileExists key s.1).2, s.2)
  deleteFile key := fun s => ((fs.deleteFile key s.1).1, (fs.deleteFile key s.1).2, s.2 ++ [.deleteFile key])

namespace Merge

/-- `e` is not the answer of a conflicted merge. -/
def NoConflicts (e : MergeError) : Prop := ∀ n cs, e ≠ .semanticConflicts n cs

/-- What the loop does with one changed file. -/
inductive Decision where
  | pushed (content : Bytes)
  | clashed (conflicts : List ConflictRecord)
  deriving DecidableEq, Repr

def pushedOf : FileDiff × Decision → Option (Path × Bytes)
  | (fd, .pushed c) => some (fd.path, c)
  | (_, .clashed _) => none

def clashesOf : FileDiff × Decision → List ConflictRecord
  | (_, .pushed _) => []
  | (_, .clashed cs) => cs

/-- The decisions `outs`, one for each entry of the diff, account for the pending list and the conflicts. -/
structure Decided (fds : List FileDiff) (acc : Pending) (outs : List (FileDiff × Decision)) : Prop where
  entries : outs.map Prod.fst = fds
  mergedFiles : acc.mergedFiles = outs.filterMap pushedOf
  conflicts : acc.conflicts = outs.flatMap clashesOf
  clashed : ∀ fd cs, (fd, .clashed cs) ∈ outs → cs ≠ [] ∧ ∀ c ∈ cs, c.filePath = fd.path

section Reads

variable {fs : MergeFs φ} {env : Env} {t : List FsWrite} {s : φ × List FsWrite}

/-- A call of the traced file system other than a write or a deletion. -/
theorem ends_io_reads {α : Type} {m : Proc (φ × List FsWrite) IoError α} (hm : ∀ s, (m s).2.2 = s.2) (hs : s.2 = t) :
    Ends (io m) s (fun _ s' => s'.2 = t) (fun e _ => NoConflicts e) := by
  refine ends_io (ends_iff.2 ⟨fun a s' h => ?_, fun e s' h => by simp [NoConflicts]⟩)
  rw [← hs, ← hm s, h]

theorem collectVersion_reads (hs : s.2 = t) (r : FMap Path Bytes) (n : Nat) :
    Ends (collectVersion fs.traced r n) s (fun _ s' => s'.2 = t) (fun e _ => NoConflicts e) := by
  unfold collectVersion
  refine Ends.bind (ends_io_reads (fun _ => rfl) hs) (fun _ _ h => h) fun keys s₁ h₁ => ?_
  refine ends_foldlM (fun _ _ s => s.2 = t) keys [] r s₁ h₁ fun _ key _ r' s₂ _ h₂ => ?_
  unfold collectKey
  split
  · exact ends_fail (by simp [NoConflicts])
  · refine Ends.bind (ends_io_reads (fun _ => rfl) h₂) (fun _ _ h => h) fun c s₃ h₃ => ?_
    exact ends_pure h₃

theorem collectHeadChangedFiles_reads (env : Env) (fs : MergeFs φ) (w : World (φ × List FsWrite)) (b : Text) :
    Ends (collectHeadChangedFiles env fs.traced b) w (fun _ w' => w'.fs.2 = w.fs.2 ∧ w'.vai = w.vai)
      (fun e _ => NoConflicts e) := by
  unfold collectHeadChangedFiles
  refine Ends.bind (R := fun _ w' => w'.fs = w.fs ∧ w'.vai = w.vai) (F := fun e _ => NoConflicts e) ?_ (fun _ _ h => h)
    fun head w₁ ⟨hf₁, hv₁⟩ => ?_
  · unfold Ends onVai
    by_cases hi : env.metaFault w.ops
    · simp [hi, NoConflicts, ioFault]
    · simp only [hi]
      exact ⟨rfl, rfl⟩
  · refine (ends_onFs (ends_foldlM (E := fun e _ => NoConflicts e) (fun _ _ s => s.2 = w.fs.2) _ [] ∅ w₁.fs (by rw [hf₁])
      fun _ n _ r s _ hs => collectVersion_reads hs r n)).mono ?_ (fun _ _ h => h.2)
    exact fun _ w₂ ⟨hv₂, hs⟩ => ⟨hs, hv₂.trans hv₁⟩

theorem readIfExists_reads (hs : s.2 = t) (key : Text) :
    Ends (Diff.readIfExists fs.traced key) s (fun _ s' => s'.2 = t) (fun e _ => NoConflicts e) := by
  unfold Diff.readIfExists
  refine Ends.bind (ends_io_reads (fun _ => rfl) hs) (fun _ _ h => h) fun there s₁ h₁ => ?_
  split
  · refine Ends.bind (ends_io_reads (fun _ => rfl) h₁) (fun _ _ h => h) fun c s₂ h₂ => ?_
    exact ends_pure h₂
  · exact ends_pure h₁

end Reads

section Loop

variable {fs : MergeFs φ} {env : Env} {t : List FsWrite} {s : φ × List FsWrite} {acc : Pending} {fds : List FileDiff}
variable {outs : List (FileDiff × Decision)}

theorem Decided.push (h : Decided fds acc outs) (fd : FileDiff) (c : Bytes) (k : Nat) :
    Decided (fds ++ [fd]) { acc with mergedFiles := acc.mergedFiles ++ [(fd.path, c)], autoResolved := k }
      (outs ++ [(fd, .pushed c)]) where
  entries := by simp [h.entries]
  mergedFiles := by simp [h.mergedFiles, pushedOf]
  conflicts := by simp [h.conflicts, clashesOf]
  clashed fd' cs hm := by
    rcases List.mem_append.1 hm with hm | hm
    · exact h.clashed fd' cs hm
    · simp at hm

theorem Decided.clash (h : Decided fds acc outs) (fd : FileDiff) {cs : List ConflictRecord} (hne : cs ≠ [])
    (hp : ∀ c ∈ cs, c.filePath = fd.path) :
    Decided (fds ++ [fd]) { acc with conflicts := acc.conflicts ++ cs } (outs ++ [(fd, .clashed cs)]) where
  entries := by simp [h.entries]
  mergedFiles := by simp [h.mergedFiles, pushedOf]
  conflicts := by simp [h.conflicts, clashesOf]
  clashed fd' cs' hm := by
    rcases List.mem_append.1 hm with hm | hm
    · exact h.clashed fd' cs' hm
    · simp only [List.mem_singleton, Prod.mk.injEq, Decision.clashed.injEq] at hm
      obtain ⟨rfl, rfl⟩ := hm
      exact ⟨hne, hp⟩

theorem mergeStep_decides (hs : s.2 = t) (h : Decided fds acc outs) (ws : Uuid) (H : FMap Path Bytes) (fd : FileDiff) :
    Ends (mergeStep env fs.traced ws H acc fd) s (fun acc' s' => s'.2 = t ∧ ∃ outs', Decided (fds ++ [fd]) acc' outs')
      (fun e _ => NoConflicts e) := by
  unfold mergeStep
  refine Ends.bind (ends_io_reads (fun _ => rfl) hs) (fun _ _ h => h) fun c s₁ h₁ => ?_
  cases H.get fd.path with
  | none => exact ends_pure ⟨h₁, _, h.push fd c _⟩
  | some b =>
    refine Ends.bind (readIfExists_reads h₁ _) (fun _ _ h => h) fun o s₂ h₂ => ?_
    cases ht : tryMergeFile env acc.conflicts.length fd.path b (o.getD []) c ws with
    | none =>
      simp only [ht]
      exact ends_fail (by simp [NoConflicts])
    | some r =>
      simp only [ht]
      cases r with
      | autoMerged merged level => exact ends_pure ⟨h₂, _, h.push fd merged _⟩
      | conflicts cs =>
        -- here it matters that the analysis never answers with an empty list
        obtain ⟨hne, hab⟩ := tryMergeFile_conflicts ht
        exact ends_pure ⟨h₂, _, h.clash fd hne (fun c hc => (hab c hc).1)⟩

theorem mergeFiles_decides (env : Env) (fs : MergeFs φ) (hs : s.2 = t) (ws : Uuid) (H : FMap Path Bytes) (d : WorkspaceDiff) :
    Ends (mergeFiles env fs.traced ws H d) s (fun acc s' => s'.2 = t ∧ ∃ outs, Decided d.fileDiffs acc outs)
      (fun e _ => NoConflicts e) := by
  have h0 : Decided [] ⟨[], 0, []⟩ [] := ⟨rfl, rfl, rfl, fun _ _ h => by simp at h⟩
  refine ends_foldlM (fun pre acc s => s.2 = t ∧ ∃ outs, Decided pre acc outs) d.fileDiffs [] ⟨[], 0, []⟩ s
    ⟨hs, [], h0⟩ ?_
  rintro pre fd post acc s - ⟨hs, outs, h⟩
  exact mergeStep_decides hs h ws H fd

/-- A path without a decision is neither in conflict nor pending. -/
theorem undecided (outs : List (FileDiff × Decision)) {p : Path}
    (hcl : ∀ fd cs, (fd, .clashed cs) ∈ outs → ∀ c ∈ cs, c.filePath = fd.path)
    (hp : p ∉ outs.map (fun q => q.1.path)) :
    p ∉ (outs.flatMap clashesOf).map ConflictRecord.filePath ∧ p ∉ (outs.filterMap pushedOf).map Prod.fst := by
  constructor
  · intro hc
    obtain ⟨c, hc', rfl⟩ := List.mem_map.1 hc
    obtain ⟨⟨fd, _ | cs⟩, hq, hcq⟩ := List.mem_flatMap.1 hc'
    · cases hcq
    · exact hp (List.mem_map.2 ⟨_, hq, (hcl fd cs hq c hcq).symm⟩)
  · intro hm
    obtain ⟨q, hq, rfl⟩ := List.mem_map.1 hm
    obtain ⟨⟨fd, c | _⟩, ho, hoq⟩ := List.mem_filterMap.1 hq
    · cases hoq
      exact hp (List.mem_map.2 ⟨_, ho, rfl⟩)
    · cases hoq

/-- A path the diff lists once is in conflict or pending, not both, and pending only once. -/
theorem Decided.once (h : Decided fds acc outs) {p : Path} (hp : (fds.map FileDiff.path).count p = 1) :
    (p ∈ acc.conflicts.map ConflictRecord.filePath ∧ p ∉ acc.mergedFiles.map Prod.fst) ∨
      (p ∉ acc.conflicts.map ConflictRecord.filePath ∧ (acc.mergedFiles.map Prod.fst).count p = 1) := by
  rw [← h.entries, List.map_map] at hp
  obtain ⟨q, hq, hqp⟩ := List.mem_map.1 (List.one_le_count_iff.1 (le_of_eq hp.symm))
  obtain ⟨o₁, o₂, rfl⟩ := List.append_of_mem hq
  simp only [List.map_append, List.map_cons, List.count_append, List.count_cons, hqp, beq_self_eq_true, if_true] at hp
  -- the entry found is the only one: the decisions around it are about other paths
  have h₁ := undecided o₁ (p := p) (fun fd cs hm => (h.clashed fd cs (by simp [hm])).2)
    (List.count_eq_zero.1 (by simp only [Function.comp_def] at hp; omega))
  have h₂ := undecided o₂ (p := p) (fun fd cs hm => (h.clashed fd cs (by simp [hm])).2)
    (List.count_eq_zero.1 (by simp only [Function.comp_def] at hp; omega))
  rw [h.conflicts, h.mergedFiles]
  obtain ⟨fd, c | cs⟩ := q
  · refine .inr ⟨?_, ?_⟩
    · simp only [List.flatMap_append, List.flatMap_cons, List.map_append, List.mem_append, clashesOf, List.map_nil,
        List.not_mem_nil, h₁.1, h₂.1, or_self, not_false_eq_true]
    · have hfd : fd.path = p := hqp
      simp [pushedOf, hfd, List.count_eq_zero.2 h₁.2, List.count_eq_zero.2 h₂.2]
  · refine .inl ⟨?_, ?_⟩
    · obtain ⟨hne, hab⟩ := h.clashed fd cs hq
      obtain ⟨c, hc⟩ := List.exists_mem_of_ne_nil cs hne
      refine List.mem_map.2 ⟨c, List.mem_flatMap.2 ⟨_, hq, hc⟩, ?_⟩
      rw [hab c hc]
      exact hqp
    · simp only [List.filterMap_append, List.filterMap_cons, List.map_append, List.mem_append, pushedOf, h₁.2, h₂.2,
        or_self, not_false_eq_true]

end Loop

/-! ## The refusal -/

section Refuse

variable {env : Env}

/-- `v` with other conflict records and another event log. -/
def OnlyConflicts (v v' : VaiDir) : Prop := ∃ conflicts log, v' = { v with conflicts := conflicts, log := log }

theorem OnlyConflicts.store {v v' : VaiDir} (h : OnlyConflicts v v') (c : ConflictRecord) :
    OnlyConflicts v (VaiDir.storeConflict c v').2 := by
  obtain ⟨cf, lg, rfl⟩ := h
  exact ⟨_, _, rfl⟩

theorem OnlyConflicts.append {v v' : VaiDir} (h : OnlyConflicts v v') (k : EventKind) :
    OnlyConflicts v (VaiDir.append k v').2 := by
  obtain ⟨cf, lg, rfl⟩ := h
  exact ⟨_, _, rfl⟩

/-- Whichever way it ends, the refusal writes conflict records and events only. -/
theorem refuse_keeps (env : Env) (s : φ) (v : VaiDir) (ws : Uuid) (cs : List ConflictRecord) :
    Keeps (fun w : World φ => w.fs = s ∧ OnlyConflicts v w.vai) (refuse env ws cs) := by
  unfold refuse
  refine Keeps.bind (keeps_onVai (fun _ h => h) (fun _ h => h)) fun _ => ?_
  refine Keeps.bind (keeps_forM (fun c => keeps_onVai (fun _ h => h) fun w h => ⟨h.1, h.2.store c⟩) cs) fun _ => ?_
  refine Keeps.bind (keeps_forM (fun c => ?_) cs) fun _ => keeps_fail _ _
  unfold Diff.appendEvent
  exact Keeps.bind (keeps_onVai (fun _ h => h) fun w h => ⟨h.1, h.2.append _⟩) fun _ => keeps_pure _ _

/-- `P` allows every error but the two answers that the engine itself gives. -/
def Plain (P : MergeError → Prop) : Prop := ∀ e, NoConflicts e → e ≠ .emptyWorkspace → P e

theorem plain_noConflicts : Plain NoConflicts := fun _ h _ => h

variable {P : MergeError → Prop}

theorem Plain.io (hP : Plain P) (e : IoError) : P (.io e) := hP _ (by simp [NoConflicts]) (by simp)

theorem onVai_fails (hP : Plain P) {α : Type} {m : Proc VaiDir MergeError α} (h : ∀ v, (m v).1.isOk) :
    FailsOnly P (onVai env m : Proc (World φ) MergeError α) := by
  refine failsOnly_onVai (hP.io _) fun v e v' he => ?_
  have := h v
  rw [he] at this
  cases this

theorem io_fails (hP : Plain P) {α : Type} (m : Proc φ IoError α) : FailsOnly P (io m) := failsOnly_mapErr hP.io m

/-- The refusal answers with its own list, unless `.vai/` fails. -/
theorem refuse_answer (hP : Plain P) (env : Env) (ws : Uuid) (cs : List ConflictRecord) :
    FailsOnly (fun e => P e ∨ e = .semanticConflicts cs.length cs)
      (refuse env ws cs : Proc (World φ) MergeError SubmitResult) := by
  unfold refuse
  refine FailsOnly.bind ((onVai_fails hP fun _ => rfl).mono fun _ => .inl) fun _ => ?_
  refine FailsOnly.bind (failsOnly_forM (fun c => (onVai_fails hP fun _ => rfl).mono fun _ => .inl) cs) fun _ => ?_
  refine FailsOnly.bind (failsOnly_forM (fun c => ?_) cs) fun _ => failsOnly_fail (.inr rfl)
  exact FailsOnly.bind ((onVai_fails hP fun _ => rfl).mono fun _ => .inl) fun _ => failsOnly_pure _ _

/-- What follows the decision answers neither with conflicts nor that there is nothing to submit. -/
theorem complete_fails (hP : Plain P) (m : WorkspaceMeta) (d : WorkspaceDiff) (D : List Path) (id : Text)
    (applied auto : Nat) : FailsOnly P (complete env m d D id applied auto : Proc (World φ) MergeError SubmitResult) := by
  unfold complete
  refine FailsOnly.bind (failsOnly_forM (fun p => ?_) D) fun _ => ?_
  · exact FailsOnly.bind (failsOnly_attempt _ _) fun _ => failsOnly_pure _ _
  refine FailsOnly.bind (onVai_fails hP fun _ => rfl) fun e => ?_
  refine FailsOnly.bind (onVai_fails hP fun _ => rfl) fun _ => ?_
  refine FailsOnly.bind (onVai_fails hP fun _ => rfl) fun v => ?_
  refine FailsOnly.bind ?_ fun _ => failsOnly_pure _ _
  unfold advanceHeadAndCloseWorkspace
  refine FailsOnly.bind (onVai_fails hP fun _ => rfl) fun _ => ?_
  refine FailsOnly.bind (failsOnly_onVai (hP.io _) fun v e v' he => ?_) fun _ => ?_
  · unfold VaiDir.updateMeta at he
    split at he <;> cases he
    exact hP.io _
  · exact FailsOnly.bind (failsOnly_attempt _ _) fun _ => failsOnly_pure _ _

theorem savePreChangeSnapshot_fails (hP : Plain P) (fs : MergeFs φ) (id : Text) (d : WorkspaceDiff) :
    FailsOnly P (savePreChangeSnapshot fs id d) := by
  refine failsOnly_forM (fun fd => ?_) d.fileDiffs
  unfold saveFile
  refine FailsOnly.bind (io_fails hP _) fun there => ?_
  split
  · exact FailsOnly.bind (io_fails hP _) fun c => io_fails hP _
  · exact failsOnly_pure _ _

theorem updateGraphForDiff_fails (hP : Plain P) (env : Env) (fs : MergeFs φ) (d : WorkspaceDiff) :
    FailsOnly P (updateGraphForDiff env fs d) := by
  unfold updateGraphForDiff
  refine FailsOnly.bind (onVai_fails hP fun _ => rfl) fun _ => failsOnly_forM (fun fd => ?_) _
  unfold updateGraphFile
  split
  · refine FailsOnly.bind (failsOnly_attempt _ _) fun r => ?_
    cases r with
    | ok c => exact FailsOnly.bind (failsOnly_attempt _ _) fun _ => failsOnly_pure _ _
    | error e => exact failsOnly_pure _ _
  · exact failsOnly_pure _ _

/-- The part of `semantic_merge` that applies what it has merged. -/
theorem apply_fails (hP : Plain P) (env : Env) (fs : MergeFs φ) (m : WorkspaceMeta) (d : WorkspaceDiff) (D : List Path)
    (acc : Pending) : FailsOnly P (do
      let newVersionId ← onVai env (Proc.read VaiDir.nextVersionId)
      onFs (savePreChangeSnapshot fs newVersionId d)
      onFs (acc.mergedFiles.forM (writeMerged fs))
      onFs (D.forM (deleteBase fs))
      updateGraphForDiff env fs d
      complete env m d D newVersionId acc.mergedFiles.length acc.autoResolved) := by
  refine FailsOnly.bind (onVai_fails hP fun _ => rfl) fun id => ?_
  refine FailsOnly.bind (failsOnly_onFs (savePreChangeSnapshot_fails hP fs id d)) fun _ => ?_
  refine FailsOnly.bind (failsOnly_onFs (failsOnly_forM (fun q => io_fails hP _) _)) fun _ => ?_
  refine FailsOnly.bind (failsOnly_onFs (failsOnly_forM (fun p => io_fails hP _) _)) fun _ => ?_
  exact FailsOnly.bind (updateGraphForDiff_fails hP env fs d) fun _ => complete_fails hP m d D id _ _

theorem fastForwardMerge_fails (hP : Plain P) (env : Env) (fs : MergeFs φ) (m : WorkspaceMeta) (d : WorkspaceDiff)
    (D : List Path) : FailsOnly P (fastForwardMerge env fs m d D) := by
  unfold fastForwardMerge
  refine FailsOnly.bind (onVai_fails hP fun _ => rfl) fun id => ?_
  refine FailsOnly.bind (failsOnly_onFs (savePreChangeSnapshot_fails hP fs id d)) fun _ => ?_
  refine FailsOnly.bind (failsOnly_onFs ?_) fun n => ?_
  · unfold applyOverlay
    refine FailsOnly.bind (io_fails hP _) fun keys => ?_
    refine FailsOnly.bind (failsOnly_forM (fun key => ?_) keys) fun _ => ?_
    · unfold applyKey
      split
      · exact failsOnly_fail (hP _ (by simp [NoConflicts]) (by simp))
      · exact FailsOnly.bind (io_fails hP _) fun c => io_fails hP _
    · exact FailsOnly.bind (failsOnly_forM (fun p => io_fails hP _) D) fun _ => failsOnly_pure _ _
  · exact FailsOnly.bind (updateGraphForDiff_fails hP env fs d) fun _ => complete_fails hP m d D id _ _

end Refuse

/-- **A conflicted merge changes nothing but the conflict records and the log**, over any file system: nothing is
written or deleted, HEAD, the version records and the workspaces stay, the conflict list is not empty, and each entry of
the diff has either clashed or been pushed once. -/
theorem semanticMerge_conflicts (env : Env) (fs : MergeFs φ) (m : WorkspaceMeta) (d : WorkspaceDiff) (D : List Path)
    {w w' : World (φ × List FsWrite)} {n : Nat} {cs : List ConflictRecord}
    (h : semanticMerge env fs.traced m d D w = (.error (.semanticConflicts n cs), w')) :
    w'.fs.2 = w.fs.2 ∧ OnlyConflicts w.vai w'.vai ∧ n = cs.length ∧ cs ≠ [] ∧
      ∃ H acc w₁ s₂ outs, collectHeadChangedFiles env fs.traced m.baseVersion w = (.ok H, w₁) ∧
        mergeFiles env fs.traced m.id H d w₁.fs = (.ok acc, s₂) ∧ acc.conflicts = cs ∧ Decided d.fileDiffs acc outs ∧
        ∀ p, (d.fileDiffs.map FileDiff.path).count p = 1 →
          (p ∈ cs.map ConflictRecord.filePath ∧ p ∉ acc.mergedFiles.map Prod.fst) ∨
          (p ∉ cs.map ConflictRecord.filePath ∧ (acc.mergedFiles.map Prod.fst).count p = 1) := by
  unfold semanticMerge at h
  have hcollect := collectHeadChangedFiles_reads env fs w m.baseVersion
  rw [bind_apply] at h
  rcases hc : collectHeadChangedFiles env fs.traced m.baseVersion w with ⟨e | H, w₁⟩ <;> rw [hc] at h
  · cases h
    exact absurd rfl (hcollect.error hc n cs)
  obtain ⟨ht₁, hv₁⟩ := hcollect.ok hc
  have hloop := mergeFiles_decides env fs (s := w₁.fs) rfl m.id H d
  simp only [bind_apply, onFs] at h
  rcases hm : mergeFiles env fs.traced m.id H d w₁.fs with ⟨e | acc, s₂⟩ <;> rw [hm] at h
  · cases h
    exact absurd rfl (hloop.error hm n cs)
  obtain ⟨ht₂, outs, hout⟩ := hloop.ok hm
  simp only at h
  split at h
  · exact absurd rfl (apply_fails plain_noConflicts env fs.traced m d D acc _ _ _ h n cs)
  · rename_i hne
    obtain hno | heq := refuse_answer plain_noConflicts env m.id acc.conflicts _ _ _ h
    · exact absurd rfl (hno n cs)
    cases heq
    have hkeep := refuse_keeps env s₂ w₁.vai m.id acc.conflicts { w₁ with fs := s₂ } ⟨rfl, _, _, rfl⟩
    rw [h] at hkeep
    obtain ⟨hs, honly⟩ := hkeep
    simp only at hs
    refine ⟨by rw [hs, ht₂, ht₁], by rwa [hv₁] at honly, rfl, fun hnil => hne (by rw [hnil]; rfl), H, acc, w₁, s₂, outs, rfl,
      hm, rfl, hout, fun p hp => hout.once hp⟩

/-- HEAD, at `v2`, and a workspace from `v1` have rewritten the same file. -/
def rivals : World (Disk × List FsWrite) where
  fs := ({ base := FMap.ofList [(['a'], [2])], overlay := fun _ => FMap.ofList [(['a'], [3])],
            snapshot := fun _ => FMap.ofList [(['a'], [1])], ops := 0 }, [])
  vai := { head := versionName 2, versions := ∅, workspaces := ∅, active := none, deleted := ∅, log := [],
           conflicts := ∅, graph := ∅ }
  ops := 0

def rival : WorkspaceMeta :=
  { id := 1, intent := [], baseVersion := versionName 1, status := .active, deletedPaths := [] }

def rivalDiff : WorkspaceDiff :=
  { workspaceId := 1, baseVersion := versionName 1, fileDiffs := [⟨['a'], .modified, 1, []⟩], entityChanges := [] }

theorem semanticMerge_conflicts_rivals : ∃ n cs w',
    semanticMerge Env.plain (diskMergeFs Env.plain 1).traced rival rivalDiff [] rivals =
      (.error (.semanticConflicts n cs), w') ∧ w'.fs.2 = [] ∧ cs ≠ [] := by
  have hrun : (match (semanticMerge Env.plain (diskMergeFs Env.plain 1).traced rival rivalDiff [] rivals).1 with
    | .error (.semanticConflicts _ _) => true
    | _ => false) = true := by decide +kernel
  rcases hr : semanticMerge Env.plain (diskMergeFs Env.plain 1).traced rival rivalDiff [] rivals with ⟨e | r, w'⟩
  · rw [hr] at hrun
    cases e with
    | semanticConflicts n cs =>
      obtain ⟨ht, -, -, hne, -⟩ := semanticMerge_conflicts Env.plain (diskMergeFs Env.plain 1) rival rivalDiff [] hr
      exact ⟨n, cs, w', rfl, ht, hne⟩
    | _ => cases hrun
  · rw [hr] at hrun
    cases hrun

/-- `rivals`, and the workspace has a file `b` in its overlay that it also lists as deleted. -/
def rivalsDeleting : World (Disk × List FsWrite) where
  fs := ({ base := FMap.ofList [(['a'], [2]), (['b'], [4])], overlay := fun _ => FMap.ofList [(['a'], [3]), (['b'], [5])],
            snapshot := fun _ => FMap.ofList [(['a'], [1])], ops := 0 }, [])
  vai := rivals.vai
  ops := 0

/-- The records of a refusal. -/
def recordsOf : Except MergeError SubmitResult → Option (List ConflictRecord)
  | .error (.semanticConflicts _ cs) => some cs
  | _ => none

theorem refused_of_recordsOf {σ : Type} {x : Except MergeError SubmitResult × σ} {cs : List ConflictRecord}
    (h : recordsOf x.1 = some cs) : ∃ n w', x = (.error (.semanticConflicts n cs), w') := by
  obtain ⟨e | a, w'⟩ := x
  · cases e with
    | semanticConflicts n cs' =>
      cases h
      exact ⟨n, w', rfl⟩
    | _ => cases h
  · cases h

theorem ok_of_any {α ε σ : Type} {x : Except ε α × σ} {p : α → Bool} (h : x.1.toOption.any p = true) :
    ∃ a s, x = (.ok a, s) ∧ p a = true := by
  obtain ⟨e | a, s⟩ := x
  · cases h
  · exact ⟨a, s, rfl, h⟩

/-- The diff lists `b` twice, and both entries are put into the pending list. -/
theorem semanticMerge_conflicts_twice : ∃ d s₁ n cs w' H w₁ acc s₂,
    Diff.computeWithFs Env.plain (diskMergeFs Env.plain 1).traced 1 (versionName 1) [['b']] rivalsDeleting.fs = (.ok d, s₁) ∧
      semanticMerge Env.plain (diskMergeFs Env.plain 1).traced rival d [['b']] rivalsDeleting =
        (.error (.semanticConflicts n cs), w') ∧
      collectHeadChangedFiles Env.plain (diskMergeFs Env.plain 1).traced rival.baseVersion rivalsDeleting = (.ok H, w₁) ∧
      mergeFiles Env.plain (diskMergeFs Env.plain 1).traced rival.id H d w₁.fs = (.ok acc, s₂) ∧
      ['b'] ∈ d.fileDiffs.map FileDiff.path ∧ ['b'] ∉ cs.map ConflictRecord.filePath ∧
      (acc.mergedFiles.map Prod.fst).count ['b'] = 2 := by
  let fs := (diskMergeFs Env.plain 1).traced
  have hrun : ((Diff.computeWithFs Env.plain fs 1 (versionName 1) [['b']] rivalsDeleting.fs).1.toOption.any fun d =>
      (recordsOf (semanticMerge Env.plain fs rival d [['b']] rivalsDeleting).1).any fun cs =>
      (collectHeadChangedFiles Env.plain fs rival.baseVersion rivalsDeleting).1.toOption.any fun H =>
      (mergeFiles Env.plain fs rival.id H d
        (collectHeadChangedFiles Env.plain fs rival.baseVersion rivalsDeleting).2.fs).1.toOption.any fun acc =>
      decide (['b'] ∈ d.fileDiffs.map FileDiff.path ∧ ['b'] ∉ cs.map ConflictRecord.filePath ∧
        (acc.mergedFiles.map Prod.fst).count ['b'] = 2)) = true := by decide +kernel
  obtain ⟨d, s₁, hd, hrun⟩ := ok_of_any hrun
  obtain ⟨cs, hcs, hrun⟩ := (Option.any_eq_true _ _).1 hrun
  obtain ⟨n, w', hm⟩ := refused_of_recordsOf hcs
  obtain ⟨H, w₁, hc, hrun⟩ := ok_of_any hrun
  rw [hc] at hrun
  obtain ⟨acc, s₂, hl, hrun⟩ := ok_of_any hrun
  exact ⟨d, s₁, n, cs, w', H, w₁, acc, s₂, hd, hm, hc, hl, of_decide_eq_true hrun⟩

end Merge
end Vai
