import Vai.SubmitSpec
import Vai.Disk
/-!
# Landed — a submit that went through, on the disk

`submitWithFs_spec` at `DiskMergeFs`, field by field: the base tree, the overlays, the snapshots and the metadata after
a successful submit (`Landed`).  `AtVersion` is a repository at version `vK`: HEAD is the highest version, and no
snapshot of a later one exists.  A submit takes a repository from `vK` to `v(K+1)`.
-/
namespace Vai

open Proc

/-! ## The version number a directory is at -/

theorem foldl_max_le {n : Nat} : ∀ (l : List Nat) (k : Nat), l.foldl max k ≤ n ↔ k ≤ n ∧ ∀ x ∈ l, x ≤ n
  | [], k => by simp
  | x :: l, k => by
    rw [List.foldl_cons, foldl_max_le l]
    simp only [Nat.max_le, List.mem_cons, forall_eq_or_imp, and_assoc]

theorem VaiDir.maxVersion_le {v : VaiDir} {n : Nat} :
    v.maxVersion ≤ n ↔ ∀ id m, v.versions.get id = some m → parseVersionNumber m.versionId ≤ n := by
  unfold maxVersion listVersions
  rw [foldl_max_le]
  simp only [Nat.zero_le, true_and, List.mem_map, List.mem_insertionSort, forall_exists_index, and_imp]
  constructor
  · exact fun h id m hm => h _ m (id, m) (FMap.mem_pairs.2 hm) rfl rfl
  · rintro h _ _ ⟨id, m⟩ hp rfl rfl
    exact h id m (FMap.mem_pairs.1 hp)

/-- The records under their own names. -/
def VaiDir.Keyed (v : VaiDir) : Prop := ∀ id m, v.versions.get id = some m → m.versionId = id

theorem VaiDir.le_maxVersion {v : VaiDir} {id : Text} {m : VersionMeta} (h : v.versions.get id = some m) :
    parseVersionNumber m.versionId ≤ v.maxVersion := VaiDir.maxVersion_le.1 le_rfl id m h

theorem VaiDir.maxVersion_insert {v : VaiDir} {m : VersionMeta} (hm : m.versionId = v.nextVersionId) (v' : VaiDir)
    (hv : v'.versions = v.versions.insert m.versionId m) : v'.maxVersion = v.maxVersion + 1 := by
  have hnum : parseVersionNumber m.versionId = v.maxVersion + 1 := by
    rw [hm, nextVersionId, parseVersionNumber_versionName]
  refine le_antisymm (maxVersion_le.2 fun id m' hget => ?_) ?_
  · rw [hv, FMap.get_insert] at hget
    split at hget
    · cases hget
      exact le_of_eq hnum
    · exact (le_maxVersion hget).trans (Nat.le_succ _)
  · rw [← hnum]
    have hget : v'.versions.get m.versionId = some m := by rw [hv, FMap.get_insert, if_pos rfl]
    exact le_maxVersion hget

/-! ## Repositories at a version -/

/-- A repository whose HEAD is the version `vK`, the highest there is. -/
structure AtVersion (w : World Disk) (K : Nat) : Prop where
  head : w.vai.head = versionName K
  highest : w.vai.maxVersion = K
  fresh : ∀ n p, K < n → (w.fs.snapshot (versionName n)).get p = none

/-- A disk with the base files `T`, the overlays `O` and no snapshots. -/
def Disk.ofTree (T : List (Path × Bytes)) (O : Uuid → List (Path × Bytes)) : Disk where
  base := FMap.ofList T
  overlay := fun i => FMap.ofList (O i)
  snapshot := fun _ => ∅
  ops := 0

namespace Merge

variable {env : Env} {m : WorkspaceMeta} {D : List Path} {r : SubmitResult} {w w' : World Disk}

/-- What a submit of the active workspace `m` with the deletions `D` has done. -/
structure Landed (env : Env) (m : WorkspaceMeta) (D : List Path) (r : SubmitResult) (w w' : World Disk) : Prop where
  accepted : Accepted env m (w.fs.files m.id) D w.vai
  base : ∀ p, w'.fs.base.get p = tree env m (w.fs.files m.id) D w.vai p
  overlay : ∀ i p, (w'.fs.overlay i).get p = (w.fs.overlay i).get p
  snapshot : ∀ n p, (w'.fs.snapshot (versionName n)).get p =
    if n = w.vai.maxVersion + 1 ∧ (p ∈ D ∨ ((w.fs.overlay m.id).get p).isSome) ∧ (w.fs.base.get p).isSome
    then w.fs.base.get p else (w.fs.snapshot (versionName n)).get p
  version : r.version.versionId = w.vai.nextVersionId
  dir : ∃ l d R a g, Lists l (w.fs.overlay m.id).get ∧ d.fileDiffs = Diff.fileDiffs env (w.fs.files m.id) l D ∧
    d.workspaceId = m.id ∧ (R = D ∨ env.Faulty) ∧ w'.vai = submittedDir m w.vai d R r.autoResolved a g

theorem disk_contract (env : Env) (i : Uuid) (d : Disk) :
    (diskMergeFs env i).Contract (Disk.Rep i d) (env.FsFaulty ∨ env.Faulty) :=
  (diskMergeFs_contract env i d).mono Or.inl

theorem submitWithFs_landed (ha : w.vai.IsActive m)
    (h : submitWithFs env (diskMergeFs env m.id) m D w = (.ok r, w')) : Landed env m D r w w' := by
  obtain ⟨hacc, hm, -⟩ := (submitWithFs_spec (disk_contract env m.id w.fs) Or.inr (Disk.rep_self m.id w.fs) ha D).ok h
  have hrep := hm.files
  refine ⟨hacc, fun p => congrFun hrep.files (.base p), fun i p => ?_, fun n p => congrFun hrep.files (.snapshot n p),
    hm.version, hm.dir⟩
  by_cases hi : i = m.id
  · rw [hi]
    exact congrFun hrep.files (.overlay p)
  · rw [hrep.overlays i hi]

theorem submitWithFs_succeeds (hq : env.Quiet) (ha : w.vai.IsActive m)
    (hacc : Accepted env m (w.fs.files m.id) D w.vai) :
    ∃ r w', submitWithFs env (diskMergeFs env m.id) m D w = (.ok r, w') := by
  have hspec := submitWithFs_spec (disk_contract env m.id w.fs) Or.inr (Disk.rep_self m.id w.fs) ha D
  obtain ⟨r, w', hrun, -⟩ := hspec.exists_ok fun e w' he => by
    rcases he with (hf | hf) | href
    · exact hq.not_fsFaulty hf
    · exact hq.not_faulty hf
    · exact href.2.notAccepted hacc
  exact ⟨r, w', hrun⟩

/-! ## What a landed submit has done to the metadata -/

theorem Landed.head (h : Landed env m D r w w') : w'.vai.head = versionName (w.vai.maxVersion + 1) := by
  obtain ⟨l, d, R, a, g, -, -, -, -, hv⟩ := h.dir
  rw [hv]
  rfl

theorem Landed.versions (h : Landed env m D r w w') :
    ∃ e, w'.vai.versions = w.vai.versions.insert w.vai.nextVersionId (newRecord m w.vai.nextVersionId e) := by
  obtain ⟨l, d, R, a, g, -, -, -, -, hv⟩ := h.dir
  rw [hv]
  simp only [submittedDir, closed, VaiDir.logged, Diff.recorded_versions]
  exact ⟨_, rfl⟩

theorem Landed.maxVersion (h : Landed env m D r w w') : w'.vai.maxVersion = w.vai.maxVersion + 1 := by
  obtain ⟨e, he⟩ := h.versions
  exact VaiDir.maxVersion_insert (m := newRecord m w.vai.nextVersionId e) rfl w'.vai he

theorem Landed.workspaces (h : Landed env m D r w w') (i : Uuid) : w'.vai.workspaces.get i =
    if i = m.id then some { m with status := .merged } else w.vai.workspaces.get i := by
  obtain ⟨l, d, R, a, g, -, -, -, -, hv⟩ := h.dir
  rw [hv]
  simp only [submittedDir, closed, VaiDir.logged, FMap.get_insert]
  split
  · rfl
  · rename_i hi
    exact Diff.recorded_workspaces d m w.vai i hi

/-! ## Two workspaces to start with -/

/-- The workspaces 1 and 2, both from `v1`, with their overlays `O₁` and `O₂` over the tree `T`. -/
def pairStart (T O₁ O₂ : List (Path × Bytes)) : World Disk where
  fs := Disk.ofTree T (fun i => if i = 1 then O₁ else O₂)
  vai := VaiDir.withWorkspaces [.fresh 1 1, .fresh 2 1]
  ops := 0

theorem pairStart_active (T O₁ O₂ : List (Path × Bytes)) : (pairStart T O₁ O₂).vai.IsActive (.fresh 1 1) := by
  have h : (VaiDir.withWorkspaces [.fresh 1 1, .fresh 2 1]).workspaces.get 1 = some (.fresh 1 1) := by decide +kernel
  exact ⟨rfl, h⟩

/-- The first workspace is submitted, and the second becomes the active one. -/
def firstSubmit : Proc (World Disk) MergeError SubmitResult := do
  let r ← submitWithFs Env.plain (diskMergeFs Env.plain 1) (.fresh 1 1) []
  let _ ← switchTo Env.plain 2
  pure r

theorem firstSubmit_ok {T O₁ O₂ : List (Path × Bytes)} {r : SubmitResult} {w₂ : World Disk}
    (h : firstSubmit (pairStart T O₁ O₂) = (.ok r, w₂)) : ∃ w₁,
      submitWithFs Env.plain (diskMergeFs Env.plain 1) (.fresh 1 1) [] (pairStart T O₁ O₂) = (.ok r, w₁) ∧
      switchTo Env.plain 2 w₁ = (.ok (.fresh 2 1), w₂) := by
  unfold firstSubmit at h
  obtain ⟨r', w₁, hA, h⟩ := bind_eq_ok.1 h
  obtain ⟨B, w₂', hsw, h⟩ := bind_eq_ok.1 h
  cases h
  have hB := (switchTo_ok hsw).1
  rw [(submitWithFs_landed (pairStart_active T O₁ O₂) hA).workspaces, if_neg (by decide)] at hB
  have h2 : (VaiDir.withWorkspaces [.fresh 1 1, .fresh 2 1]).workspaces.get 2 = some (.fresh 2 1) := by decide +kernel
  cases h2.symm.trans hB
  exact ⟨w₁, hA, hsw⟩

/-- Both are submitted, one after the other. -/
def bothSubmits : Proc (World Disk) MergeError SubmitResult := do
  let _ ← firstSubmit
  submitWithFs Env.plain (diskMergeFs Env.plain 2) (.fresh 2 1) []

theorem bothSubmits_ok (T O₁ O₂ : List (Path × Bytes)) (h : (bothSubmits (pairStart T O₁ O₂)).1.isOk) :
    ∃ w₁ w₂ w₃ r₁ r₂,
      submitWithFs Env.plain (diskMergeFs Env.plain 1) (.fresh 1 1) [] (pairStart T O₁ O₂) = (.ok r₁, w₁) ∧
      switchTo Env.plain 2 w₁ = (.ok (.fresh 2 1), w₂) ∧
      submitWithFs Env.plain (diskMergeFs Env.plain 2) (.fresh 2 1) [] w₂ = (.ok r₂, w₃) := by
  rcases hr : bothSubmits (pairStart T O₁ O₂) with ⟨e | r₂, w₃⟩
  · rw [hr] at h; cases h
  unfold bothSubmits at hr
  obtain ⟨r₁, w₂, hA, hB⟩ := bind_eq_ok.1 hr
  obtain ⟨w₁, hA, hsw⟩ := firstSubmit_ok hA
  exact ⟨w₁, w₂, w₃, r₁, r₂, hA, hsw, hB⟩

end Merge

end Vai
