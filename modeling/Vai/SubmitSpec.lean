import Vai.SubmitSteps
/-!
# SubmitSpec — what a submit does

The specification of `submit_with_fs` over any file system that meets the contract (`submitWithFs_spec`).  A submit is
accepted or refused by the files it finds, the deletion list and HEAD alone (`Accepted`, `Refused`); an accepted one
ends with the merged tree, the snapshot of what it replaced, and the directory of the closed workspace (`Merged`); a
call may also fail where the file system or `.vai/` does.
-/
namespace Vai

theorem VaiDir.nextVersionId_congr {v v' : VaiDir} (h : v'.versions = v.versions) : v'.nextVersionId = v.nextVersionId := by
  unfold nextVersionId maxVersion listVersions
  rw [h]

namespace Diff

@[simp] theorem recorded_head (d : WorkspaceDiff) (m : WorkspaceMeta) (v : VaiDir) : (recorded d m v).head = v.head := by
  unfold recorded; split <;> rfl

@[simp] theorem recorded_versions (d : WorkspaceDiff) (m : WorkspaceMeta) (v : VaiDir) :
    (recorded d m v).versions = v.versions := by
  unfold recorded; split <;> rfl

@[simp] theorem recorded_graph (d : WorkspaceDiff) (m : WorkspaceMeta) (v : VaiDir) :
    (recorded d m v).graph = v.graph := by
  unfold recorded; split <;> rfl

@[simp] theorem recorded_deleted (d : WorkspaceDiff) (m : WorkspaceMeta) (v : VaiDir) :
    (recorded d m v).deleted = v.deleted := by
  unfold recorded; split <;> rfl

theorem recorded_workspaces (d : WorkspaceDiff) (m : WorkspaceMeta) (v : VaiDir) (i : Uuid) (hi : i ≠ m.id) :
    (recorded d m v).workspaces.get i = v.workspaces.get i := by
  unfold recorded
  split
  · rw [FMap.get_insert, if_neg hi]
  · rfl

theorem recorded_isSome {d : WorkspaceDiff} {m : WorkspaceMeta} {v : VaiDir} (h : v.IsActive m) :
    ((recorded d m v).workspaces.get m.id).isSome := by
  unfold recorded
  split
  · rw [FMap.get_insert, if_pos rfl]; rfl
  · rw [h.record]; rfl

theorem map_path_fileDiffs (env : Env) (V : Files) (l D : List Path) :
    (fileDiffs env V l D).map FileDiff.path = l ++ D.filter (fun p => (V (.base p)).isSome) := by
  unfold fileDiffs
  rw [List.map_append, List.map_map, List.map_map]
  have h1 : (FileDiff.path ∘ overlayDiff env V) = id := rfl
  have h2 : (FileDiff.path ∘ deletedEntry) = id := rfl
  rw [h1, h2, List.map_id, List.map_id]

end Diff

namespace Merge

open Proc

section

variable (env : Env) (m : WorkspaceMeta) (V : Files) (D : List Path) (v : VaiDir)

/-- A path the diff lists: an overlay file, or a listed deletion of a file that exists. -/
def Changed (p : Path) : Prop := (V (.overlay p)).isSome ∨ p ∈ D ∧ (V (.base p)).isSome

/-- The files HEAD has changed since the workspace's base version, with their content there; none on the fast-forward
path. -/
def mergeBase : Path → Option Bytes :=
  if v.head = m.baseVersion then fun _ => none
  else headChanged V (parseVersionNum m.baseVersion) (parseVersionNum v.head)

/-- The tree of a merge: deletions last, overlay files as their fate says, everything else as it was. -/
def tree (p : Path) : Option Bytes :=
  if p ∈ D then none
  else if (V (.overlay p)).isSome then (fate env m.id V (mergeBase m V v) p).join
  else V (.base p)

/-- What it takes for a submit to go through. -/
structure Accepted : Prop where
  parses : Diff.Parses env V
  nonempty : ∃ p, Changed V D p
  overlay : v.head ≠ m.baseVersion → ∀ p ∈ D, (V (.base p)).isSome → (V (.overlay p)).isSome
  merges : ∀ p, (V (.overlay p)).isSome → ∃ c, fate env m.id V (mergeBase m V v) p = some (some c)

/-- The submits that are refused with conflicts. -/
structure Conflicted : Prop where
  parses : Diff.Parses env V
  free : ∀ p, Changed V D p → ¬ Stuck env m.id V (mergeBase m V v) p
  clashes : ∃ p, (V (.overlay p)).isSome ∧ fate env m.id V (mergeBase m V v) p = some none

/-- A submit that does not go through ends with conflicts exactly when it should, and then names the right files. -/
structure Refused (e : MergeError) : Prop where
  notAccepted : ¬ Accepted env m V D v
  conflicted : (∃ n cs, e = .semanticConflicts n cs) ↔ Conflicted env m V D v
  named : ∀ n cs, e = .semanticConflicts n cs → ∀ q, q ∈ cs.map ConflictRecord.filePath ↔
    (V (.overlay q)).isSome ∧ fate env m.id V (mergeBase m V v) q = some none

/-- The directory a submit leaves, from the diff `d`. -/
def submittedDir (d : WorkspaceDiff) (R : List Path) (auto : Nat) (a : Option Uuid)
    (g : GraphSnapshot) : VaiDir :=
  closed m R v.nextVersionId auto a
    { (Diff.recorded d m v).logged [.workspaceSubmitted m.id (changesSummary d)] with graph := g }

/-- What a submit that went through has answered and left. -/
structure Merged {φ : Type} (rep : φ → Files → Prop) (r : SubmitResult) (w' : World φ) : Prop where
  files : rep w'.fs (V.submitted (v.maxVersion + 1) D (tree env m V D v))
  version : r.version.versionId = v.nextVersionId
  counts : ∃ l, Lists l (fun p => V (.overlay p)) ∧
    r.filesApplied = (if v.head = m.baseVersion then l.length
      else l.length + (D.filter (fun p => (V (.base p)).isSome)).length) ∧
    r.autoResolved = (l ++ D.filter (fun p => (V (.base p)).isSome)).countP (fun p => (mergeBase m V v p).isSome)
  dir : ∃ l d R a g, Lists l (fun p => V (.overlay p)) ∧ d.fileDiffs = Diff.fileDiffs env V l D ∧
    d.workspaceId = m.id ∧ (R = D ∨ env.Faulty) ∧ w'.vai = submittedDir m v d R r.autoResolved a g

end

variable {φ : Type} {env : Env} {fs : MergeFs φ} {U : Path → Prop} {rep : φ → Files → Prop} {may : Prop} {V : Files}
variable {D l : List Path}
variable {m : WorkspaceMeta} {v : VaiDir} {w : World φ} {d : WorkspaceDiff}

theorem mem_diff (hl : Lists l (fun p => V (.overlay p))) {p : Path} :
    p ∈ l ++ D.filter (fun p => (V (.base p)).isSome) ↔ Changed V D p := by
  rw [List.mem_append, hl.2, List.mem_filter]
  rfl

/-- The snapshot of the listed paths is the snapshot of what the submit replaces. -/
theorem snapped_withBase (hl : Lists l (fun p => V (.overlay p))) (n : Nat) (t : Path → Option Bytes) :
    (V.snapped n (l ++ D.filter (fun p => (V (.base p)).isSome))).withBase t = V.submitted n D t := by
  funext k
  cases k with
  | overlay p => rfl
  | base p => rfl
  | snapshot j p =>
    simp only [Files.withBase, Files.snapped, Files.submitted, mem_diff hl, Changed]
    by_cases hb : (V (.base p)).isSome
    · simp only [hb, and_true, or_comm]
    · simp only [hb, and_false, Bool.false_eq_true]

theorem fate_of_none {H : Path → Option Bytes} {ws : Uuid} {p : Path} (h : H p = none) :
    fate env ws V H p = some (V (.overlay p)) := by
  simp [fate, h]

theorem mergeBase_of_eq (h : v.head = m.baseVersion) (p : Path) : mergeBase m V v p = none := by
  rw [mergeBase, if_pos h]

/-- On the fast-forward path the tree is the overlay over the base, minus the deletions. -/
theorem tree_of_eq (h : v.head = m.baseVersion) (p : Path) : tree env m V D v p =
    if p ∈ D then none else if (V (.overlay p)).isSome then V (.overlay p) else V (.base p) := by
  simp only [tree, fate_of_none (mergeBase_of_eq (V := V) h p), Option.join_some]

/-! ## The two paths -/

/-- The paths of a diff are those of the overlay and of the deletion list. -/
theorem within_diff (hl : Lists l (fun p => V (.overlay p))) (hd : d.fileDiffs = Diff.fileDiffs env V l D)
    (hu : V.Within D U) : ∀ p ∈ d.fileDiffs.map FileDiff.path, U p := by
  intro p hp
  rw [hd, Diff.map_path_fileDiffs, mem_diff hl] at hp
  exact hp.elim (hu.overlay p) fun h => hu.deleted p h.1

theorem fastForwardMerge_spec (C : fs.ContractOn U rep may) (hf : env.Faulty → may) (h : rep w.fs V)
    (hm : (w.vai.workspaces.get m.id).isSome) (hl : Lists l (fun p => V (.overlay p)))
    (hd : d.fileDiffs = Diff.fileDiffs env V l D) (hu : V.Within D U) (hhead : v.head = m.baseVersion)
    (hv : w.vai.versions = v.versions) : Ends (fastForwardMerge env fs m d D) w
      (fun r w' => rep w'.fs (V.submitted (v.maxVersion + 1) D (tree env m V D v)) ∧
        r.version.versionId = v.nextVersionId ∧ r.filesApplied = l.length ∧ r.autoResolved = 0 ∧
        ∃ R a g, (R = D ∨ env.Faulty) ∧ w'.vai = closed m R v.nextVersionId 0 a { w.vai with graph := g } ∧
          (¬ may → g = (d.fileDiffs.map FileDiff.path).foldl (regraph env (tree env m V D v)) w.vai.graph))
      (fun _ _ => may) := by
  have hid : w.vai.nextVersionId = v.nextVersionId := VaiDir.nextVersionId_congr hv
  have hus := within_diff hl hd hu
  unfold fastForwardMerge
  refine Ends.bind (ends_onVai_of_ok rfl) (fun _ _ h => hf h) ?_
  rintro id w₁ ⟨hf₁, rfl, hv₁⟩
  refine Ends.bind (ends_onFs (savePreChangeSnapshot_spec C (V := V) (by rwa [hf₁]) (w.vai.maxVersion + 1) d hus))
    (fun _ _ h => h.2) fun _ w₂ ⟨hv₂, h₂⟩ => ?_
  refine Ends.bind (ends_onFs (applyOverlay_spec C h₂ hu.overlay hu.deleted)) (fun _ _ h => h.2) ?_
  rintro count w₃ ⟨hv₃, ⟨l', hl', rfl⟩, h₃⟩
  have htree : (fun p => (if p ∈ D then none else if (V (.overlay p)).isSome then V (.overlay p) else V (.base p))) =
      tree env m V D v := funext fun p => (tree_of_eq hhead p).symm
  refine Ends.bind (updateGraphForDiff_spec C hf h₃ d hus) (fun _ _ h => hf h) fun _ w₄ ⟨h₄, g, hg, hgm⟩ => ?_
  have hw : w₃.vai = w.vai := by rw [hv₃, hv₂, hv₁]
  rw [hw] at hg hgm
  refine (complete_spec (by rw [hg]; exact hm) d D _ _ _).mono ?_ (fun _ _ h => hf h)
  rintro r w₅ ⟨hf₅, ha, hr, hid₅, R, a, hR, hv₅⟩
  have hmax : w.vai.maxVersion = v.maxVersion := by unfold VaiDir.maxVersion VaiDir.listVersions; rw [hv]
  refine ⟨?_, hid₅.trans hid, ha.trans (hl'.perm hl).length_eq, hr, R, a, g, hR, ?_, fun hm => ?_⟩
  · rw [hf₅, ← snapped_withBase hl, ← Diff.map_path_fileDiffs env, ← hd, ← hmax]
    refine Files.withBase_subst (rep w₄.fs) h₄ (fun p => ?_)
    rw [tree_of_eq hhead p]
    rfl
  · rw [hv₅, hg, hid]
  · rw [hgm hm, ← htree]
    rfl

theorem refuse_spec (ws : Uuid) (w : World φ) (cs : List ConflictRecord) : Ends (refuse env ws cs) w
    (fun _ _ => False) (fun e w' => env.Faulty ∨ w'.fs = w.fs ∧ e = .semanticConflicts cs.length cs) := by
  unfold refuse
  refine Ends.bind (ends_onVai_of_ok rfl) (fun _ _ h => .inl h) fun _ w₁ ⟨hf₁, _, _⟩ => ?_
  refine Ends.bind (ends_forM (E := fun _ _ => env.Faulty) (fun _ w' => w'.fs = w.fs) cs [] w₁ hf₁
    (fun _ c _ w' _ hw' => (ends_onVai_of_ok (m := VaiDir.storeConflict c) rfl).mono (fun _ _ h => h.1.trans hw')
      (fun _ _ h => h))) (fun _ _ h => .inl h) fun _ w₂ hf₂ => ?_
  refine Ends.bind (ends_forM (E := fun _ _ => env.Faulty) (fun _ w' => w'.fs = w.fs) cs [] w₂ hf₂
    (fun _ c _ w' _ hw' => (Diff.appendEvent_spec w' _).mono (fun _ _ h => h.1.trans hw') (fun _ _ h => h)))
    (fun _ _ h => .inl h) fun _ w₃ hf₃ => ?_
  exact ends_fail (.inr ⟨hf₃, rfl⟩)

section Loop

variable {H : Path → Option Bytes} {ws : Uuid} {ps : List Path} {acc : Pending}

theorem MergedTo.fates (h : MergedTo env ws V H ps acc) (hnil : acc.conflicts = []) :
    ∀ p ∈ ps, ∃ c, fate env ws V H p = some (some c) := by
  intro p hp
  rcases hft : fate env ws V H p with _ | _ | c
  · exact absurd hft (h.returned p hp)
  · have := (h.conflicts p).2 ⟨hp, hft⟩
    rw [hnil] at this
    cases this
  · exact ⟨c, rfl⟩

theorem MergedTo.map_fst (h : MergedTo env ws V H ps acc) (hf : ∀ p ∈ ps, ∃ c, fate env ws V H p = some (some c)) :
    acc.mergedFiles.map Prod.fst = ps := by
  rw [h.mergedFiles, List.map_filterMap]
  conv => rhs; rw [← List.filterMap_some (l := ps)]
  refine List.filterMap_congr (fun p hp => ?_)
  obtain ⟨c, hc⟩ := hf p hp
  rw [hc]
  rfl

theorem MergedTo.autoResolved_eq (h : MergedTo env ws V H ps acc)
    (hf : ∀ p ∈ ps, ∃ c, fate env ws V H p = some (some c)) : acc.autoResolved = ps.countP (fun p => (H p).isSome) := by
  rw [h.autoResolved]
  refine List.countP_congr (fun p hp => ?_)
  obtain ⟨c, hc⟩ := hf p hp
  simp [hc]

theorem MergedTo.content (h : MergedTo env ws V H ps acc) : ∀ q ∈ acc.mergedFiles, (fate env ws V H q.1).join = some q.2 := by
  intro q hq
  rw [h.mergedFiles] at hq
  obtain ⟨p, _, hpq⟩ := List.mem_filterMap.1 hq
  obtain ⟨c, hc, rfl⟩ := Option.map_eq_some_iff.1 hpq
  exact hc

end Loop

/-- On the fast-forward path nothing stands in the way of a diff that parses. -/
theorem accepted_of_head (hp : Diff.Parses env V) (hne : ∃ p, Changed V D p) (hhead : v.head = m.baseVersion) :
    Accepted env m V D v := by
  refine ⟨hp, hne, fun hn => absurd hhead hn, fun p hov => ?_⟩
  obtain ⟨c, hc⟩ := Option.isSome_iff_exists.1 hov
  exact ⟨c, by rw [fate_of_none (mergeBase_of_eq hhead p), hc]⟩

theorem accepted_of_mergedTo (hp : Diff.Parses env V) (hne : ∃ p, Changed V D p) (hl : Lists l (fun p => V (.overlay p)))
    {acc : Pending} (hacc : MergedTo env m.id V (mergeBase m V v) (l ++ D.filter (fun p => (V (.base p)).isSome)) acc)
    (hnil : acc.conflicts = []) : Accepted env m V D v :=
  ⟨hp, hne, fun _ p hpD hb => hacc.overlay p ((mem_diff hl).2 (.inr ⟨hpD, hb⟩)),
    fun p hov => hacc.fates hnil p ((mem_diff hl).2 (.inl hov))⟩

/-- A submit whose loop stops at a file is refused, and not with conflicts. -/
theorem refused_of_stuck (hhead : v.head ≠ m.baseVersion) {p : Path} (hch : Changed V D p)
    (hst : Stuck env m.id V (mergeBase m V v) p) {e : MergeError} (hno : ∀ n cs, e ≠ .semanticConflicts n cs) :
    Refused env m V D v e := by
  refine ⟨fun hA => ?_, ⟨fun ⟨n, cs, h⟩ => absurd h (hno n cs), fun hC => absurd hst (hC.free p hch)⟩,
    fun n cs h => absurd h (hno n cs)⟩
  have hov : (V (.overlay p)).isSome := hch.elim id (fun hb => hA.overlay hhead p hb.1 hb.2)
  rcases hst with hn | hn
  · rw [hn] at hov; cases hov
  · obtain ⟨c, hc⟩ := hA.merges p hov
    rw [hn] at hc; cases hc

/-- A submit whose loop ends with conflicts is refused with these. -/
theorem refused_of_conflicts (hp : Diff.Parses env V) (hl : Lists l (fun p => V (.overlay p))) {acc : Pending}
    (hacc : MergedTo env m.id V (mergeBase m V v) (l ++ D.filter (fun p => (V (.base p)).isSome)) acc)
    (hcs : acc.conflicts ≠ []) (n : Nat) : Refused env m V D v (.semanticConflicts n acc.conflicts) := by
  have hq : ∀ q, q ∈ acc.conflicts.map ConflictRecord.filePath ↔
      (V (.overlay q)).isSome ∧ fate env m.id V (mergeBase m V v) q = some none := fun q => by
    rw [hacc.conflicts q]
    exact ⟨fun h => ⟨hacc.overlay q h.1, h.2⟩, fun h => ⟨(mem_diff hl).2 (.inl h.1), h.2⟩⟩
  obtain ⟨c, hc⟩ := List.exists_mem_of_ne_nil _ hcs
  have hcf := (hq c.filePath).1 (List.mem_map_of_mem hc)
  refine ⟨fun hA => ?_, ⟨fun _ => ⟨hp, fun p hch hst => ?_, c.filePath, hcf⟩, fun _ => ⟨_, _, rfl⟩⟩, ?_⟩
  · obtain ⟨c', hc'⟩ := hA.merges c.filePath hcf.1
    rw [hcf.2] at hc'; cases hc'
  · rcases hst with hn | hn
    · have := hacc.overlay p ((mem_diff hl).2 hch)
      rw [hn] at this; cases this
    · exact hacc.returned p ((mem_diff hl).2 hch) hn
  · intro n cs he
    cases he
    exact hq

/-- The part of `semantic_merge` after the loop, when nothing is in conflict, and what `k` does from there. -/
theorem applyMerged_spec (C : fs.ContractOn U rep may) (h : rep w.fs V) (hl : Lists l (fun p => V (.overlay p)))
    (hd : d.fileDiffs = Diff.fileDiffs env V l D) (hu : V.Within D U) {acc : Pending} (n : Nat)
    (hacc : MergedTo env m.id V (mergeBase m V v) (l ++ D.filter (fun p => (V (.base p)).isSome)) acc)
    (hfst : acc.mergedFiles.map Prod.fst = l ++ D.filter (fun p => (V (.base p)).isSome))
    {k : Proc (World φ) MergeError SubmitResult} {Q : SubmitResult → World φ → Prop} {E : MergeError → World φ → Prop}
    (hE : ∀ e w', may → E e w')
    (hk : ∀ w', w'.vai = w.vai → rep w'.fs (V.submitted n D (tree env m V D v)) → Ends k w' Q E) :
    Ends (do
      onFs (savePreChangeSnapshot fs (versionName n) d)
      onFs (acc.mergedFiles.forM (writeMerged fs))
      onFs (D.forM (deleteBase fs))
      k) w Q E := by
  have hus := within_diff hl hd hu
  refine Ends.bind (ends_onFs (savePreChangeSnapshot_spec C h n d hus)) (fun _ _ h => hE _ _ h.2) fun _ w₁ ⟨hv₁, h₁⟩ => ?_
  rw [← Files.withBase_base (V.snapped _ _)] at h₁
  refine Ends.bind (ends_onFs (writeMerged_spec C (f := fun p => (fate env m.id V (mergeBase m V v) p).join) h₁
    acc.mergedFiles (by rwa [hfst, ← Diff.map_path_fileDiffs env, ← hd]) hacc.content)) (fun _ _ h => hE _ _ h.2) fun _ w₂ ⟨hv₂, h₂⟩ => ?_
  refine Ends.bind (ends_onFs (deleteBase_spec C h₂ hu.deleted)) (fun _ _ h => hE _ _ h.2) fun _ w₃ ⟨hv₃, h₃⟩ => ?_
  refine hk w₃ (by rw [hv₃, hv₂, hv₁]) ?_
  rw [← snapped_withBase hl, ← Diff.map_path_fileDiffs env, ← hd]
  refine Files.withBase_subst (rep w₃.fs) h₃ (fun p => ?_)
  by_cases hpD : p ∈ D
  · simp only [tree, hpD, if_true]
  · have hmem : p ∈ acc.mergedFiles.map Prod.fst ↔ (V (.overlay p)).isSome := by
      rw [hfst, mem_diff hl]
      simp [Changed, hpD]
    by_cases hov : (V (.overlay p)).isSome
    · rw [tree, if_neg hpD, if_pos hov, if_neg hpD, if_pos (hmem.2 hov)]
    · rw [tree, if_neg hpD, if_neg hov, if_neg hpD, if_neg (fun h => hov (hmem.1 h))]
      rfl

theorem semanticMerge_spec (C : fs.ContractOn U rep may) (hf : env.Faulty → may) (h : rep w.fs V)
    (hm : (w.vai.workspaces.get m.id).isSome) (hl : Lists l (fun p => V (.overlay p)))
    (hd : d.fileDiffs = Diff.fileDiffs env V l D) (hu : V.Within D U) (hhead : v.head ≠ m.baseVersion)
    (hv : w.vai.versions = v.versions) (hw : w.vai.head = v.head) (hp : Diff.Parses env V) (hne : ∃ p, Changed V D p) :
    Ends (semanticMerge env fs m d D) w
      (fun r w' => Accepted env m V D v ∧ rep w'.fs (V.submitted (v.maxVersion + 1) D (tree env m V D v)) ∧
        r.version.versionId = v.nextVersionId ∧
        r.filesApplied = l.length + (D.filter (fun p => (V (.base p)).isSome)).length ∧
        r.autoResolved = (l ++ D.filter (fun p => (V (.base p)).isSome)).countP (fun p => (mergeBase m V v p).isSome) ∧
        ∃ R a g, (R = D ∨ env.Faulty) ∧
          w'.vai = closed m R v.nextVersionId r.autoResolved a { w.vai with graph := g } ∧
          (¬ may → g = (d.fileDiffs.map FileDiff.path).foldl (regraph env (tree env m V D v)) w.vai.graph))
      (fun e w' => may ∨ rep w'.fs V ∧ Refused env m V D v e) := by
  have hid : w.vai.nextVersionId = v.nextVersionId := VaiDir.nextVersionId_congr hv
  have hps : d.fileDiffs.map FileDiff.path = l ++ D.filter (fun p => (V (.base p)).isSome) := by
    rw [hd, Diff.map_path_fileDiffs]
  have hus := within_diff hl hd hu
  unfold semanticMerge
  refine Ends.bind (collectHeadChangedFiles_spec C h hu.snapshot m.baseVersion) (fun _ _ h => .inl (h.elim hf id)) ?_
  rintro H w₁ ⟨hv₁, h₁, hH⟩
  have hHb : H.get = mergeBase m V v := by
    funext p
    rw [hH p, mergeBase, if_neg hhead, hw]
  refine Ends.bind (ends_onFs (mergeFiles_spec C h₁ m.id H d hus)) (fun e _ he => he.2.imp_right ?_)
    fun acc w₂ ⟨hv₂, h₂, hacc⟩ => ?_
  · rintro ⟨hs, ⟨p, hpm, hst⟩, hno⟩
    rw [hHb] at hst
    rw [hps, mem_diff hl] at hpm
    exact ⟨hs, refused_of_stuck hhead hpm hst hno⟩
  · rw [hHb, hps] at hacc
    split
    · rename_i hnil
      have hfate := hacc.fates (List.isEmpty_iff.1 hnil)
      have hfst := hacc.map_fst hfate
      have hA : Accepted env m V D v := accepted_of_mergedTo hp hne hl hacc (List.isEmpty_iff.1 hnil)
      refine Ends.bind (ends_onVai_of_ok rfl) (fun _ _ h => .inl (hf h)) ?_
      rintro id w₃ ⟨hf₃, rfl, hv₃⟩
      have hww : w₂.vai = w.vai := by rw [hv₂, hv₁]
      have hnid : w₂.vai.nextVersionId = v.nextVersionId := by rw [hww, hid]
      rw [hnid]
      refine applyMerged_spec C (by rwa [hf₃]) hl hd hu (v.maxVersion + 1) hacc hfst (fun _ _ h => .inl h)
        fun w₆ hv₆ h₆ => ?_
      refine Ends.bind (updateGraphForDiff_spec C hf h₆ d hus) (fun _ _ h => .inl (hf h)) fun _ w₇ ⟨h₇, g, hg, hgm⟩ => ?_
      rw [hv₆, hv₃, hww] at hg hgm
      refine (complete_spec (by rw [hg]; exact hm) d D _ _ _).mono ?_ (fun _ _ h => .inl (hf h))
      rintro r w₈ ⟨hf₈, ha, hr, hid₈, R, a, hR, hv₈⟩
      refine ⟨hA, by rwa [hf₈], hid₈, ?_, hr.trans (hacc.autoResolved_eq hfate), R, a, g, hR, by rw [hv₈, hg, hr], hgm⟩
      rw [ha, ← List.length_map (f := Prod.fst), hfst, List.length_append]
    · rename_i hnil
      refine (refuse_spec m.id w₂ acc.conflicts).mono (fun _ _ h => h.elim) (fun e _ he => he.imp hf fun he => ?_)
      rw [he.1, he.2]
      refine ⟨h₂, ?_⟩
      exact refused_of_conflicts hp hl hacc (fun h => hnil (List.isEmpty_iff.2 h)) _

/-! ## The whole submit -/

theorem isEmpty_iff (hl : Lists l (fun p => V (.overlay p))) (hd : d.fileDiffs = Diff.fileDiffs env V l D)
    (he : d.fileDiffs = [] → d.entityChanges = []) : d.isEmpty = true ↔ ¬ ∃ p, Changed V D p := by
  have hmap : d.fileDiffs = [] ↔ l ++ D.filter (fun p => (V (.base p)).isSome) = [] := by
    rw [← Diff.map_path_fileDiffs env, ← hd, List.map_eq_nil_iff]
  have hnil : d.isEmpty = true ↔ d.fileDiffs = [] := by
    unfold WorkspaceDiff.isEmpty
    rw [Bool.and_eq_true, List.isEmpty_iff, List.isEmpty_iff]
    exact ⟨fun h => h.1, fun h => ⟨h, he h⟩⟩
  rw [hnil, hmap, List.eq_nil_iff_forall_not_mem]
  constructor
  · rintro h ⟨p, hp⟩
    exact h p ((mem_diff hl).2 hp)
  · exact fun h p hp => h ⟨p, (mem_diff hl).1 hp⟩

/-- What a submit that went through has made of the graph. -/
def Regraphed (env : Env) (m : WorkspaceMeta) (V : Files) (D : List Path) (v : VaiDir) (g : GraphSnapshot) : Prop :=
  ∃ l, Lists l (fun p => V (.overlay p)) ∧
    g = (l ++ D.filter (fun p => (V (.base p)).isSome)).foldl (regraph env (tree env m V D v)) v.graph

/-- **What `submit_with_fs` does**, over any file system that meets the contract at its paths: a submit that ends well was accepted,
has merged, and has updated the graph unless something failed; one that fails was refused, with the files as they were,
or the file system or `.vai/` has failed. -/
theorem submitWithFs_specOn (C : fs.ContractOn U rep may) (hf : env.Faulty → may) (h : rep w.fs V) (ha : w.vai.IsActive m)
    (hu : V.Within D U) : Ends (submitWithFs env fs m D) w
      (fun r w' => Accepted env m V D w.vai ∧ Merged env m V D w.vai rep r w' ∧
        (¬ may → Regraphed env m V D w.vai w'.vai.graph))
      (fun e w' => may ∨ rep w'.fs V ∧ Refused env m V D w.vai e) := by
  unfold submitWithFs
  refine Ends.bind (ends_onFs (Diff.computeWithFs_spec C h m.id m.baseVersion hu)) ?_ ?_
  · rintro e w₁ ⟨-, hm | ⟨h₁, hnp, g, rfl⟩⟩
    · exact .inl hm
    · exact .inr ⟨h₁, fun hA => hnp hA.parses, ⟨by simp, fun hC => absurd hC.parses hnp⟩, by simp⟩
  rintro d w₁ ⟨hv₁, h₁, hp, hwid, hemp, l, hl, hd⟩
  have hne := isEmpty_iff hl hd hemp
  split
  · rename_i he
    have hnone := hne.1 he
    refine ends_fail (.inr ⟨h₁, fun hA => hnone hA.nonempty, ⟨by simp, fun hC => ?_⟩, by simp⟩)
    obtain ⟨p, hov, _⟩ := hC.clashes
    exact absurd ⟨p, .inl hov⟩ hnone
  · rename_i he
    have hch : ∃ p, Changed V D p := Classical.not_not.1 (fun h => he (hne.2 h))
    refine Ends.bind (Diff.recordEvents_spec d (m := m) (by rwa [hv₁])) (fun _ _ h => .inl (hf h)) ?_
    rintro _ w₂ ⟨hf₂, hv₂⟩
    refine Ends.bind (ends_onVai_of_ok rfl) (fun _ _ h => .inl (hf h)) fun _ w₃ ⟨hf₃, _, hv₃⟩ => ?_
    refine Ends.bind (ends_onVai_of_ok rfl) (fun _ _ h => .inl (hf h)) fun _ w₄ ⟨hf₄, _, hv₄⟩ => ?_
    refine Ends.bind (ends_onVai_of_ok rfl) (fun _ _ h => .inl (hf h)) ?_
    rintro head w₅ ⟨hf₅, rfl, hv₅⟩
    have hfs : w₅.fs = w₁.fs := by rw [hf₅, hf₄, hf₃, hf₂]
    have hvai : w₅.vai = (Diff.recorded d m w.vai).logged [.workspaceSubmitted m.id (changesSummary d)] := by
      rw [hv₅, hv₄, hv₃, hv₂, hv₁]
      rfl
    have hhd : w₅.vai.head = w.vai.head := by rw [hvai]; exact Diff.recorded_head d m w.vai
    have hver : w₅.vai.versions = w.vai.versions := by rw [hvai]; exact Diff.recorded_versions d m w.vai
    have hws : (w₅.vai.workspaces.get m.id).isSome := by rw [hvai]; exact Diff.recorded_isSome ha
    have hgraph : ∀ g, g = (d.fileDiffs.map FileDiff.path).foldl (regraph env (tree env m V D w.vai)) w₅.vai.graph →
        g = (l ++ D.filter (fun p => (V (.base p)).isSome)).foldl (regraph env (tree env m V D w.vai)) w.vai.graph := by
      rintro g rfl
      have hg : w₅.vai.graph = w.vai.graph := by rw [hvai]; exact Diff.recorded_graph d m w.vai
      rw [hd, Diff.map_path_fileDiffs, hg]
    rw [← hv₅, hhd]
    split
    · rename_i hhead
      refine (fastForwardMerge_spec C hf (by rwa [hfs]) hws hl hd hu hhead hver).mono ?_ (fun _ _ h => .inl h)
      rintro r w₆ ⟨h₆, hid, happ, hauto, R, a, g, hR, hv₆, hgm⟩
      have hzero : r.autoResolved =
          (l ++ D.filter (fun p => (V (.base p)).isSome)).countP (fun p => (mergeBase m V w.vai p).isSome) := by
        rw [hauto]
        simp [mergeBase_of_eq hhead]
      exact ⟨accepted_of_head hp hch hhead, ⟨h₆, hid, ⟨l, hl, by rw [if_pos hhead, happ], hzero⟩,
        l, d, R, a, g, hl, hd, hwid, hR, by rw [hv₆, hvai, hauto]; rfl⟩, fun hm => ⟨l, hl, by rw [hv₆]; exact hgraph g (hgm hm)⟩⟩
    · rename_i hhead
      refine (semanticMerge_spec C hf (by rwa [hfs]) hws hl hd hu hhead hver hhd hp hch).mono ?_ (fun _ _ h => h)
      rintro r w₆ ⟨hA, h₆, hid, happ, hauto, R, a, g, hR, hv₆, hgm⟩
      exact ⟨hA, ⟨h₆, hid, ⟨l, hl, by rw [if_neg hhead, happ], hauto⟩, l, d, R, a, g, hl, hd, hwid, hR,
        by rw [hv₆, hvai]; rfl⟩, fun hm => ⟨l, hl, by rw [hv₆]; exact hgraph g (hgm hm)⟩⟩

theorem submitWithFs_spec (C : fs.Contract rep may) (hf : env.Faulty → may) (h : rep w.fs V) (ha : w.vai.IsActive m)
    (D : List Path) : Ends (submitWithFs env fs m D) w
      (fun r w' => Accepted env m V D w.vai ∧ Merged env m V D w.vai rep r w' ∧
        (¬ may → Regraphed env m V D w.vai w'.vai.graph))
      (fun e w' => may ∨ rep w'.fs V ∧ Refused env m V D w.vai e) :=
  submitWithFs_specOn C hf h ha (V.within_all D)

end Merge
end Vai
