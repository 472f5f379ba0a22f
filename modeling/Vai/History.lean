import Vai.Landed
import Vai.Rollback
/-!
# History — the version records of a repository over whole runs

A run starts with `repo::init` and goes on with submits that succeed, rollbacks that succeed, and whatever leaves HEAD
and the version records alone (edits of overlays, new workspaces, switches, diffs).  The records are always `v1..vn` and
HEAD is `vn`, since `next_version_id` looks at the records and every command that adds one moves HEAD to it.

The parents are another matter: `rollback` records HEAD, both merge paths record the workspace's base version.  The chain
of parents is whole exactly in the runs that submit no workspace from behind HEAD (`Run.linear_iff`).
-/
namespace Vai

open Proc

/-- `w` is reached by a run; `ff` says whether every workspace submitted on the way started from the HEAD it met. -/
inductive Run (env : Env) : Bool → World Disk → Prop where
  | init (fs : Disk) (repoId : Uuid) (name : Text) (graph : GraphSnapshot) (ops : Nat) :
      Run env true { fs, vai := VaiDir.init repoId name graph, ops }
  | edit {ff : Bool} {w w' : World Disk} (h : Run env ff w) (hhead : w'.vai.head = w.vai.head)
      (hver : w'.vai.versions = w.vai.versions) : Run env ff w'
  | submit {ff : Bool} {w w' : World Disk} {m : WorkspaceMeta} {D : List Path} {r : SubmitResult} (h : Run env ff w)
      (ha : w.vai.IsActive m) (hs : Merge.submitWithFs env (diskMergeFs env m.id) m D w = (.ok r, w')) :
      Run env (ff && decide (m.baseVersion = w.vai.head)) w'
  | rollback {ff : Bool} {w w' : World Disk} {id : Text} {entityFilter : Option Text} {r : Version.RollbackResult}
      (h : Run env ff w) (hs : Version.rollback env id entityFilter w = (.ok r, w')) : Run env ff w'

/-- The version records are `v1..vn`, each under its own name, and HEAD is `vn`. -/
structure VaiDir.Numbered (v : VaiDir) (n : Nat) : Prop where
  pos : 1 ≤ n
  records : ∀ id, (v.versions.get id).isSome ↔ ∃ k, 1 ≤ k ∧ k ≤ n ∧ id = versionName k
  keyed : ∀ id m, v.versions.get id = some m → m.versionId = id
  head : v.head = versionName n

/-- The parent of each version is the version before it. -/
def VaiDir.Chained (v : VaiDir) (n : Nat) : Prop :=
  ∀ k, 1 < k → k ≤ n → ∃ m, v.versions.get (versionName k) = some m ∧ m.parentVersionId = some (versionName (k - 1))

variable {env : Env} {v v' : VaiDir} {n : Nat}

theorem VaiDir.Numbered.maxVersion (h : v.Numbered n) : v.maxVersion = n := by
  refine le_antisymm (maxVersion_le.2 fun id m hm => ?_) ?_
  · obtain ⟨k, -, hk, hid⟩ := (h.records id).1 (by rw [hm]; rfl)
    rw [h.keyed id m hm, hid, parseVersionNumber_versionName]
    exact hk
  · obtain ⟨m, hm⟩ := Option.isSome_iff_exists.1 ((h.records _).2 ⟨n, h.pos, le_rfl, rfl⟩)
    have hle := le_maxVersion hm
    rwa [h.keyed _ m hm, parseVersionNumber_versionName] at hle

section Step

variable {m : VersionMeta} (h : v.Numbered n) (hm : m.versionId = v.nextVersionId)
variable (hver : v'.versions = v.versions.insert v.nextVersionId m)
include h hver

theorem VaiDir.Numbered.get_next (id : Text) :
    v'.versions.get id = if id = versionName (n + 1) then some m else v.versions.get id := by
  rw [hver, FMap.get_insert, nextVersionId, h.maxVersion]

include hm in
/-- One more version, and HEAD on it. -/
theorem VaiDir.Numbered.next (hhead : v'.head = v.nextVersionId) : v'.Numbered (n + 1) where
  pos := by omega
  records id := by
    rw [h.get_next hver]
    split
    · rename_i hid
      simp only [Option.isSome_some, true_iff]
      exact ⟨n + 1, by omega, le_rfl, hid⟩
    · rename_i hid
      rw [h.records]
      constructor
      · rintro ⟨k, h1, hk, rfl⟩
        exact ⟨k, h1, by omega, rfl⟩
      · rintro ⟨k, h1, hk, rfl⟩
        have hne : k ≠ n + 1 := fun he => hid (by rw [he])
        exact ⟨k, h1, by omega, rfl⟩
  keyed id m' hm' := by
    rw [h.get_next hver] at hm'
    split at hm'
    · rename_i hid
      cases hm'
      rw [hid, hm, nextVersionId, h.maxVersion]
    · exact h.keyed id m' hm'
  head := by rw [hhead, nextVersionId, h.maxVersion]

/-- The chain goes on where the new version's parent is HEAD, and breaks for good where it is not. -/
theorem VaiDir.Numbered.chained_next :
    v'.Chained (n + 1) ↔ v.Chained n ∧ m.parentVersionId = some v.head := by
  constructor
  · intro hc
    refine ⟨fun k h1 hk => ?_, ?_⟩
    · obtain ⟨m', hm', hp⟩ := hc k h1 (by omega)
      rw [h.get_next hver, if_neg (fun he => absurd (versionName_injective he) (by omega))] at hm'
      exact ⟨m', hm', hp⟩
    · obtain ⟨m', hm', hp⟩ := hc (n + 1) (by have := h.pos; omega) le_rfl
      rw [h.get_next hver, if_pos rfl] at hm'
      cases hm'
      rw [hp, h.head, Nat.add_sub_cancel]
  · rintro ⟨hc, hp⟩ k h1 hk
    rw [h.get_next hver]
    by_cases hkn : k = n + 1
    · rw [hkn, if_pos rfl]
      exact ⟨m, rfl, by rw [hp, h.head, Nat.add_sub_cancel]⟩
    · rw [if_neg (fun he => hkn (versionName_injective he))]
      exact hc k h1 (by omega)

end Step

theorem numbered_init (repoId : Uuid) (name : Text) (graph : GraphSnapshot) :
    (VaiDir.init repoId name graph).Numbered 1 where
  pos := le_rfl
  records id := by
    have hget : (VaiDir.init repoId name graph).versions.get id =
        if id = versionName 1 then some _ else FMap.get ∅ id := FMap.get_insert _ _ _ _
    rw [hget]
    split
    · rename_i hid
      simp only [Option.isSome_some, true_iff]
      exact ⟨1, le_rfl, le_rfl, hid⟩
    · rename_i hid
      simp only [FMap.get_empty, Option.isSome_none, Bool.false_eq_true, false_iff]
      rintro ⟨k, h1, hk, rfl⟩
      exact hid (by rw [show k = 1 by omega])
  keyed id m hm := by
    cases List.mem_singleton.1 (FMap.get_ofList_mem hm)
    rfl
  head := rfl

/-- **The version history of every run**: the records are `v1..vn` and HEAD is `vn`; the parents form a chain exactly
when every workspace submitted on the way started from the HEAD it met. -/
theorem Run.linear_iff {ff : Bool} {w : World Disk} (h : Run env ff w) :
    ∃ n, w.vai.Numbered n ∧ (w.vai.Chained n ↔ ff = true) := by
  induction h with
  | init fs repoId name graph ops =>
    exact ⟨1, numbered_init repoId name graph, fun _ => rfl, fun _ k h1 hk => absurd hk (by omega)⟩
  | @edit ff w w' _ hhead hver ih =>
    obtain ⟨n, hn, hc⟩ := ih
    refine ⟨n, ⟨hn.pos, by rw [hver]; exact hn.records, by rw [hver]; exact hn.keyed, by rw [hhead, hn.head]⟩, ?_⟩
    unfold VaiDir.Chained at *
    rw [hver]
    exact hc
  | @submit ff w w' m D r _ ha hs ih =>
    obtain ⟨n, hn, hc⟩ := ih
    have hl := Merge.submitWithFs_landed ha hs
    obtain ⟨e, hver⟩ := hl.versions
    refine ⟨n + 1, hn.next rfl hver hl.head, ?_⟩
    rw [hn.chained_next hver, hc]
    simp [Merge.newRecord]
  | @rollback ff w w' id entityFilter r _ hs ih =>
    obtain ⟨n, hn, hc⟩ := ih
    have hdir := Version.rollback_dir hs
    have hver : w'.vai.versions = w.vai.versions.insert w.vai.nextVersionId (Version.rollbackRecord id w.vai) := by
      rw [hdir]
      rfl
    refine ⟨n + 1, hn.next rfl hver (by rw [hdir]; rfl), ?_⟩
    rw [hn.chained_next hver, hc]
    simp [Version.rollbackRecord]

/-! ## Two runs -/

theorem run_pairStart (T O₁ O₂ : List (Path × Bytes)) : Run Env.plain true (Merge.pairStart T O₁ O₂) :=
  .edit (.init (Disk.ofTree T fun i => if i = 1 then O₁ else O₂) 0 [] ∅ 0) rfl rfl

/-- Workspace 1 is submitted from `v1`, at `v1`. -/
theorem Run.linear_iff_one_submit : ∃ w, Run Env.plain true w ∧ w.vai.head = versionName 2 ∧
    ∃ n, w.vai.Numbered n ∧ w.vai.Chained n := by
  rcases hr : Merge.firstSubmit (Merge.pairStart [] [(['a'], [1])] []) with ⟨e | r, w₂⟩
  · have hok : (Merge.firstSubmit (Merge.pairStart [] [(['a'], [1])] [])).1.isOk := by decide +kernel
    rw [hr] at hok
    cases hok
  obtain ⟨w₁, hA, -⟩ := Merge.firstSubmit_ok hr
  have hact := Merge.pairStart_active [] [(['a'], [1])] []
  have hrun : Run Env.plain true w₁ := .submit (run_pairStart [] [(['a'], [1])] []) hact hA
  obtain ⟨n, hn, hc⟩ := hrun.linear_iff
  exact ⟨w₁, hrun, (Merge.submitWithFs_landed hact hA).head, n, hn, hc.2 rfl⟩

/-- Workspace 2, from `v1` as well, makes `v3`: its parent is `v1`, not `v2`. -/
theorem parent_of_merged_version : ∃ ff w m, Run Env.plain ff w ∧ w.vai.head = versionName 3 ∧
    w.vai.versions.get (versionName 3) = some m ∧ m.parentVersionId = some (versionName 1) ∧ ¬ w.vai.Chained 3 := by
  obtain ⟨w₁, w₂, w₃, r₁, r₂, hA, hsw, hB⟩ := Merge.bothSubmits_ok [] [(['b'], [1])] [(['a'], [2])] (by decide +kernel)
  obtain ⟨hrec, -, hfs, hv⟩ := switchTo_ok hsw
  have hact := Merge.pairStart_active [] [(['b'], [1])] [(['a'], [2])]
  have hact₂ : w₂.vai.IsActive (.fresh 2 1) := ⟨by rw [hv]; rfl, by rw [hv]; exact hrec⟩
  have hl₂ := Merge.submitWithFs_landed hact₂ hB
  have hmax : w₂.vai.maxVersion = 2 := by rw [hv]; exact (Merge.submitWithFs_landed hact hA).maxVersion
  have hrun := (Run.submit (run_pairStart _ _ _) hact hA).edit (show w₂.vai.head = w₁.vai.head by rw [hv]) (by rw [hv])
  obtain ⟨e, hver⟩ := hl₂.versions
  have hget : w₃.vai.versions.get (versionName 3) = some (Merge.newRecord (.fresh 2 1) w₂.vai.nextVersionId e) := by
    rw [hver, FMap.get_insert, if_pos (by rw [VaiDir.nextVersionId, hmax])]
  refine ⟨_, w₃, _, .submit hrun hact₂ hB, by rw [hl₂.head, hmax], hget, rfl, fun hc => ?_⟩
  obtain ⟨m, hm, hp⟩ := hc 3 (by omega) le_rfl
  cases hget.symm.trans hm
  exact absurd (versionName_injective (Option.some.inj hp)) (by decide)

end Vai
