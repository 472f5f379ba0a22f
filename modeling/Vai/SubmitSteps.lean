import Vai.Submit
/-!
# SubmitSteps — what each step of the engine does

One specification per step of `submit_with_fs`, over any file system that meets the contract: which map the step leaves,
what it answers, and when it can fail.  The loops carry the part of the map already written as their invariant.
-/
namespace Vai

/-! ## Maps with a new tree, or with a snapshot saved -/

namespace Files

/-- The files `V` with the base tree `g`. -/
def withBase (V : Files) (g : Path → Option Bytes) : Files
  | .base p => g p
  | k => V k

/-- The files `V` after the existing ones of the paths `l` were saved as snapshot `n`. -/
def snapped (V : Files) (n : Nat) (l : List Path) : Files
  | .snapshot m p => if m = n ∧ p ∈ l ∧ (V (.base p)).isSome then V (.base p) else V (.snapshot m p)
  | k => V k

/-- What a submit leaves: the new base tree, and as snapshot `n` the files that the overlay or a deletion replaced. -/
def submitted (V : Files) (n : Nat) (D : List Path) (tree : Path → Option Bytes) : Files
  | .overlay p => V (.overlay p)
  | .base p => tree p
  | .snapshot m p =>
    if m = n ∧ (p ∈ D ∨ (V (.overlay p)).isSome) ∧ (V (.base p)).isSome then V (.base p) else V (.snapshot m p)

theorem withBase_base (V : Files) : V.withBase (fun p => V (.base p)) = V := by
  funext k
  cases k <;> rfl

theorem withBase_subst {V : Files} (P : Files → Prop) {g g' : Path → Option Bytes} (h : P (V.withBase g))
    (hg : ∀ p, g' p = g p) : P (V.withBase g') := by
  rwa [funext hg]

theorem set_withBase (V : Files) (g : Path → Option Bytes) (p : Path) (c : Option Bytes) :
    (V.withBase g).set (.base p) c = V.withBase (fun q => if q = p then c else g q) := by
  funext k
  rw [set_apply]
  cases k <;> simp [withBase]

theorem snapped_nil (V : Files) (n : Nat) : V.snapped n [] = V := by
  funext k
  cases k <;> simp [snapped]

theorem set_snapped (V : Files) (n : Nat) (l : List Path) (p : Path) {c : Bytes} (hc : V (.base p) = some c) :
    (V.snapped n l).set (.snapshot n p) (some c) = V.snapped n (l ++ [p]) := by
  funext k
  rw [set_apply]
  cases k with
  | overlay q => simp [snapped]
  | base q => simp [snapped]
  | snapshot m q =>
    by_cases hq : m = n ∧ q = p
    · obtain ⟨rfl, rfl⟩ := hq
      simp [snapped, hc]
    · by_cases hm : m = n
      · have hqp : q ≠ p := fun h => hq ⟨hm, h⟩
        simp [snapped, hm, hqp]
      · simp [snapped, hm]

theorem snapped_append_of_none (V : Files) (n : Nat) (l : List Path) (p : Path) (hn : V (.base p) = none) :
    V.snapped n (l ++ [p]) = V.snapped n l := by
  funext k
  cases k with
  | overlay q => rfl
  | base q => rfl
  | snapshot m q =>
    by_cases hq : q = p
    · subst hq
      simp [snapped, hn]
    · simp [snapped, hq]

end Files

namespace Merge

open Proc

variable {φ : Type} {env : Env} {fs : MergeFs φ} {U : Path → Prop} {rep : φ → Files → Prop} {may : Prop} {s : φ} {V : Files}

/-! ## What HEAD has changed -/

/-- The content of a file in the first snapshot after version `b` up to version `h`: what it was at version `b`, if a
later version has replaced it. -/
def headChanged (V : Files) (b h : Nat) (p : Path) : Option Bytes :=
  (List.range' (b + 1) (h - b)).findSome? (fun n => V (.snapshot n p))

theorem get_orInsert (r : FMap Path Bytes) (p : Path) (c : Bytes) (q : Path) :
    (orInsert r p c).get q = (r.get q).or (if q = p then some c else none) := by
  unfold orInsert
  by_cases hp : (r.get p).isSome
  · rw [if_pos hp]
    obtain ⟨c', hc'⟩ := Option.isSome_iff_exists.1 hp
    by_cases hq : q = p
    · subst hq; simp [hc']
    · simp [hq]
  · rw [if_neg hp, FMap.get_insert]
    by_cases hq : q = p
    · subst hq
      simp [Option.not_isSome_iff_eq_none.1 hp]
    · simp [hq]

theorem collectVersion_spec (C : fs.ContractOn U rep may) (h : rep s V) (hu : ∀ n p, (V (.snapshot n p)).isSome → U p)
    (r : FMap Path Bytes) (n : Nat) :
    Ends (collectVersion fs r n) s (fun r' s' => rep s' V ∧ ∀ p, r'.get p = (r.get p).or (V (.snapshot n p)))
      (fun _ _ => may) := by
  unfold collectVersion
  refine Ends.bind (C.snapshots h n) (fun _ _ h => h) ?_
  rintro _ s₁ ⟨h₁, l, rfl, hl⟩
  rw [List.foldlM_map]
  refine (ends_foldlM (fun pre (r' : FMap Path Bytes) s => rep s V ∧ ∀ p, r'.get p = (r.get p).or
    (if p ∈ pre then V (.snapshot n p) else none)) l [] r s₁ ⟨h₁, by simp⟩ ?_).mono ?_ (fun _ _ h => h)
  · rintro pre p post r' s hlist ⟨hs, hr⟩
    have hsome := (hl.2 p).1 (mem_of_split hlist)
    obtain ⟨c, hc⟩ := Option.isSome_iff_exists.1 hsome
    unfold collectKey
    rw [snapshotKey, Text.stripPrefix_append]
    refine Ends.bind (C.read_of_some hs (.snapshot n p) (hu n p hsome) hc) (fun _ _ h => h) ?_
    rintro c' s' ⟨hs', hc'⟩
    refine ends_pure ⟨hs', fun q => ?_⟩
    rw [get_orInsert, hr q, hc']
    by_cases hq : q = p
    · subst hq
      by_cases hpre : q ∈ pre <;> simp [hpre, hc]
    · by_cases hpre : q ∈ pre <;> simp [hpre, hq]
  · rintro r' s' ⟨hs', hr⟩
    refine ⟨hs', fun p => ?_⟩
    rw [hr p]
    by_cases hp : p ∈ l
    · simp [hp]
    · have : V (.snapshot n p) = none := Option.not_isSome_iff_eq_none.1 (fun h => hp ((hl.2 p).2 h))
      simp [this]

theorem collectHeadChangedFiles_spec (C : fs.ContractOn U rep may) {w : World φ} (h : rep w.fs V)
    (hu : ∀ n p, (V (.snapshot n p)).isSome → U p) (b : Text) :
    Ends (collectHeadChangedFiles env fs b) w
      (fun r w' => w'.vai = w.vai ∧ rep w'.fs V ∧
        ∀ p, r.get p = headChanged V (parseVersionNum b) (parseVersionNum w.vai.head) p)
      (fun _ _ => env.Faulty ∨ may) := by
  unfold collectHeadChangedFiles
  refine Ends.bind (ends_onVai_of_ok (a := w.vai.head) (v := w.vai) rfl) (fun _ _ h => .inl h) ?_
  rintro head w₁ ⟨hf, rfl, hv⟩
  refine (ends_onFs (ends_foldlM (E := fun _ _ => may) (fun pre (r : FMap Path Bytes) s => rep s V ∧
    ∀ p, r.get p = pre.findSome? (fun n => V (.snapshot n p))) _ [] ∅ w₁.fs ⟨by rwa [hf], by simp⟩ ?_)).mono ?_
    (fun _ _ h => .inr h.2)
  · intro pre n post r s _ ⟨hs, hr⟩
    refine (collectVersion_spec C hs hu r n).mono (fun r' s' ⟨hs', hr'⟩ => ⟨hs', fun p => ?_⟩) (fun _ _ h => h)
    rw [hr' p, hr p, List.findSome?_append]
    simp
  · rintro r w₂ ⟨hv₂, hs, hr⟩
    exact ⟨hv₂.trans hv, hs, hr⟩

/-! ## Snapshots, base files, deletions -/

theorem savePreChangeSnapshot_spec (C : fs.ContractOn U rep may) (h : rep s V) (n : Nat) (d : WorkspaceDiff)
    (hu : ∀ p ∈ d.fileDiffs.map FileDiff.path, U p) :
    Ends (savePreChangeSnapshot fs (versionName n) d) s
      (fun _ s' => rep s' (V.snapped n (d.fileDiffs.map FileDiff.path))) (fun _ _ => may) := by
  unfold savePreChangeSnapshot
  refine (ends_forM (fun pre s => rep s (V.snapped n (pre.map FileDiff.path))) d.fileDiffs [] s
    (by rwa [List.map_nil, Files.snapped_nil]) ?_).mono (fun _ _ h => h) (fun _ _ h => h)
  intro pre fd post s hlist hs
  have hfd : U fd.path := hu _ (List.mem_map_of_mem (mem_of_split hlist))
  unfold saveFile
  have hb : V.snapped n (pre.map FileDiff.path) (.base fd.path) = V (.base fd.path) := rfl
  refine Ends.bind (C.there hs (.base fd.path) hfd) (fun _ _ h => h) fun there s₁ ⟨h₁, ht⟩ => ?_
  rw [List.map_append, List.map_cons, List.map_nil]
  rw [hb] at ht
  cases hc : V (.base fd.path) with
  | none =>
    rw [hc] at ht
    rw [ht, Files.snapped_append_of_none V n _ _ hc]
    exact ends_pure h₁
  | some c =>
    rw [hc] at ht
    rw [ht, ← Files.set_snapped V n _ _ hc]
    refine Ends.bind (C.read_of_some h₁ (.base fd.path) hfd (hb.trans hc)) (fun _ _ h => h) fun c' s₂ ⟨h₂, hc'⟩ => ?_
    rw [hc']
    exact C.write h₂ (.snapshot n fd.path) hfd c

theorem deleteBase_spec (C : fs.ContractOn U rep may) {g : Path → Option Bytes} (h : rep s (V.withBase g)) {D : List Path}
    (hu : ∀ p ∈ D, U p) :
    Ends (D.forM (deleteBase fs)) s (fun _ s' => rep s' (V.withBase (fun p => if p ∈ D then none else g p)))
      (fun _ _ => may) := by
  refine (ends_forM (fun pre s => rep s (V.withBase (fun p => if p ∈ pre then none else g p))) D [] s
    (by simpa using h) ?_).mono (fun _ _ h => h) (fun _ _ h => h)
  intro pre p post s hlist hs
  refine (C.delete hs (.base p) (hu p (mem_of_split hlist))).mono (fun _ s' h' => ?_) (fun _ _ h => h)
  rw [Files.set_withBase] at h'
  refine Files.withBase_subst (rep s') h' (fun q => ?_)
  by_cases hq : q = p <;> simp [hq]

theorem writeMerged_spec (C : fs.ContractOn U rep may) {g f : Path → Option Bytes} (h : rep s (V.withBase g))
    (l : List (Path × Bytes)) (hu : ∀ p ∈ l.map Prod.fst, U p) (hl : ∀ q ∈ l, f q.1 = some q.2) :
    Ends (l.forM (writeMerged fs)) s
      (fun _ s' => rep s' (V.withBase (fun p => if p ∈ l.map Prod.fst then f p else g p))) (fun _ _ => may) := by
  refine (ends_forM (fun pre s => rep s (V.withBase (fun p => if p ∈ pre.map Prod.fst then f p else g p))) l [] s
    (by simpa using h) ?_).mono (fun _ _ h => h) (fun _ _ h => h)
  intro pre q post s hlist hs
  have hmem := mem_of_split hlist
  have hq : f q.1 = some q.2 := hl q hmem
  refine (C.write hs (.base q.1) (hu _ (List.mem_map_of_mem hmem)) q.2).mono (fun _ s' h' => ?_) (fun _ _ h => h)
  rw [Files.set_withBase] at h'
  refine Files.withBase_subst (rep s') h' (fun p => ?_)
  by_cases hp : p = q.1
  · simp [hp, hq]
  · rw [if_neg hp]
    simp only [List.map_append, List.mem_append, List.map_cons, List.map_nil, List.mem_singleton, hp, or_false]

theorem applyOverlay_spec (C : fs.ContractOn U rep may) (h : rep s V) {D : List Path}
    (hu : ∀ p, (V (.overlay p)).isSome → U p) (hD : ∀ p ∈ D, U p) : Ends (applyOverlay fs D) s
    (fun count s' => (∃ l, Lists l (fun p => V (.overlay p)) ∧ count = l.length) ∧ rep s' (V.withBase (fun p =>
      if p ∈ D then none else if (V (.overlay p)).isSome then V (.overlay p) else V (.base p)))) (fun _ _ => may) := by
  unfold applyOverlay
  refine Ends.bind (C.overlays h) (fun _ _ h => h) ?_
  rintro _ s₁ ⟨h₁, l, rfl, hl⟩
  have hrep : rep s₁ (V.withBase (fun p => V (.base p))) := by rwa [Files.withBase_base]
  rw [List.forM_eq_forM, List.forM_map]
  refine Ends.bind (R := fun _ s' => rep s' (V.withBase (fun p => if p ∈ l then V (.overlay p) else V (.base p))))
    (F := fun _ _ => may) ?_ (fun _ _ h => h) fun _ s₂ h₂ => ?_
  · refine (ends_forM (fun pre s => rep s (V.withBase (fun p => if p ∈ pre then V (.overlay p) else V (.base p)))) l [] s₁
      (by simpa using hrep) ?_).mono (fun _ _ h => h) (fun _ _ h => h)
    intro pre p post s hlist hs
    have hsome := (hl.2 p).1 (mem_of_split hlist)
    have hp := hu p hsome
    obtain ⟨c, hc⟩ := Option.isSome_iff_exists.1 hsome
    unfold applyKey
    rw [overlayKey, Text.stripPrefix_append]
    refine Ends.bind (C.read_of_some hs (.overlay p) hp hc) (fun _ _ h => h) ?_
    rintro c' s' ⟨hs', hc'⟩
    refine (C.write hs' (.base p) hp c').mono (fun _ s'' h' => ?_) (fun _ _ h => h)
    rw [Files.set_withBase] at h'
    refine Files.withBase_subst (rep s'') h' (fun q => ?_)
    by_cases hq : q = p
    · simp [hq, hc, hc']
    · simp [hq]
  · refine Ends.bind (deleteBase_spec C h₂ hD) (fun _ _ h => h) fun _ s₃ h₃ => ?_
    refine ends_pure ⟨⟨l, hl, by simp⟩, ?_⟩
    refine Files.withBase_subst (rep s₃) h₃ (fun p => ?_)
    by_cases hp : p ∈ l
    · simp only [hp, (hl.2 p).1 hp, if_true]
    · rw [if_neg (fun h => hp ((hl.2 p).2 h)), if_neg hp]

/-! ## The merge loop -/

/-- What becomes of an overlay file, `H` giving the files HEAD has changed: merged to a content, in conflict
(`some none`), or the end of the process (`none`). -/
def fate (env : Env) (w : Uuid) (V : Files) (H : Path → Option Bytes) (p : Path) : Option (Option Bytes) :=
  match H p with
  | none => some (V (.overlay p))
  | some b => (tryMergeFile env 0 p b ((V (.base p)).getD []) ((V (.overlay p)).getD []) w).map FileMergeResult.merged

/-- The pending list, the counter and the conflicts after the paths `ps`. -/
structure MergedTo (env : Env) (w : Uuid) (V : Files) (H : Path → Option Bytes) (ps : List Path) (acc : Pending) :
    Prop where
  overlay : ∀ p ∈ ps, (V (.overlay p)).isSome
  returned : ∀ p ∈ ps, fate env w V H p ≠ none
  mergedFiles : acc.mergedFiles = ps.filterMap (fun p => (fate env w V H p).join.map (fun c => (p, c)))
  autoResolved : acc.autoResolved = ps.countP (fun p => (H p).isSome && (fate env w V H p).join.isSome)
  conflicts : ∀ q, q ∈ acc.conflicts.map ConflictRecord.filePath ↔ q ∈ ps ∧ fate env w V H q = some none

/-- The loop cannot get past this path: it has no overlay file, or its analysis panics. -/
def Stuck (env : Env) (w : Uuid) (V : Files) (H : Path → Option Bytes) (p : Path) : Prop :=
  V (.overlay p) = none ∨ fate env w V H p = none

section MergeLoop

variable {ws : Uuid} {H : FMap Path Bytes} {ps : List Path} {acc : Pending} {p : Path} {c : Bytes}

theorem mergedTo_merge {H : Path → Option Bytes} (h : MergedTo env ws V H ps acc) (hp : (V (.overlay p)).isSome)
    (hf : fate env ws V H p = some (some c)) (k : Nat) (hk : k = if (H p).isSome then 1 else 0) :
    MergedTo env ws V H (ps ++ [p])
      { acc with mergedFiles := acc.mergedFiles ++ [(p, c)], autoResolved := acc.autoResolved + k } where
  overlay q hq := by
    rcases List.mem_append.1 hq with hq | hq
    · exact h.overlay q hq
    · rw [List.mem_singleton.1 hq]; exact hp
  returned q hq := by
    rcases List.mem_append.1 hq with hq | hq
    · exact h.returned q hq
    · rw [List.mem_singleton.1 hq, hf]; simp
  mergedFiles := by simp [h.mergedFiles, List.filterMap_append, hf]
  autoResolved := by
    simp only [h.autoResolved, List.countP_append, List.countP_singleton, hf, hk]
    simp
  conflicts q := by
    simp only [h.conflicts q, List.mem_append, List.mem_singleton]
    constructor
    · rintro ⟨hq, hc⟩; exact ⟨.inl hq, hc⟩
    · rintro ⟨hq | rfl, hc⟩
      · exact ⟨hq, hc⟩
      · rw [hf] at hc; cases hc

theorem mergedTo_conflict {H : Path → Option Bytes} (h : MergedTo env ws V H ps acc) (hp : (V (.overlay p)).isSome)
    (hf : fate env ws V H p = some none) {cs : List ConflictRecord} (hcs : cs ≠ []) (hab : About p ws cs) :
    MergedTo env ws V H (ps ++ [p]) { acc with conflicts := acc.conflicts ++ cs } where
  overlay q hq := by
    rcases List.mem_append.1 hq with hq | hq
    · exact h.overlay q hq
    · rw [List.mem_singleton.1 hq]; exact hp
  returned q hq := by
    rcases List.mem_append.1 hq with hq | hq
    · exact h.returned q hq
    · rw [List.mem_singleton.1 hq, hf]; simp
  mergedFiles := by simp [h.mergedFiles, List.filterMap_append, hf]
  autoResolved := by simp [h.autoResolved, List.countP_append, hf]
  conflicts q := by
    have hmap : q ∈ cs.map ConflictRecord.filePath ↔ q = p := by
      simp only [List.mem_map]
      constructor
      · rintro ⟨c, hc, rfl⟩; exact (hab c hc).1
      · rintro rfl
        obtain ⟨c, hc⟩ := List.exists_mem_of_ne_nil cs hcs
        exact ⟨c, hc, (hab c hc).1⟩
    simp only [List.map_append, List.mem_append, h.conflicts q, hmap, List.mem_singleton]
    constructor
    · rintro (⟨hq, hc⟩ | rfl)
      · exact ⟨.inl hq, hc⟩
      · exact ⟨.inr rfl, hf⟩
    · rintro ⟨hq | rfl, hc⟩
      · exact .inl ⟨hq, hc⟩
      · exact .inr rfl

theorem mergeStep_spec (C : fs.ContractOn U rep may) (h : rep s V) (hacc : MergedTo env ws V H.get ps acc) {fd : FileDiff}
    (hu : U fd.path) :
    Ends (mergeStep env fs ws H acc fd) s
      (fun acc' s' => rep s' V ∧ MergedTo env ws V H.get (ps ++ [fd.path]) acc')
      (fun e s' => may ∨ rep s' V ∧ Stuck env ws V H.get fd.path ∧ ∀ n cs, e ≠ .semanticConflicts n cs) := by
  unfold mergeStep
  refine Ends.bind (F := fun e s' => rep s' V ∧ (may ∨ V (.overlay fd.path) = none) ∧
      ∀ n cs, e ≠ .semanticConflicts n cs)
    (ends_io ((C.readFile h (.overlay fd.path) hu).mono (fun _ _ h => h) (fun _ _ h => ⟨h.1, h.2, by simp⟩)))
    (fun e s' he => ?_) fun c s₁ ⟨h₁, hc⟩ => ?_
  · exact he.2.1.imp_right (fun hn => ⟨he.1, .inl hn, he.2.2⟩)
  have hov : (V (.overlay fd.path)).isSome := by rw [hc]; rfl
  cases hH : H.get fd.path with
  | none =>
    have hf : fate env ws V H.get fd.path = some (some c) := by simp [fate, hH, hc]
    exact ends_pure ⟨h₁, mergedTo_merge hacc hov hf 0 (by simp [hH])⟩
  | some b =>
    refine Ends.bind (Diff.readIfExists_spec C h₁ (.base fd.path) hu) (fun _ _ h => .inl h) fun o s₂ ⟨h₂, ho⟩ => ?_
    have hf : fate env ws V H.get fd.path = (tryMergeFile env acc.conflicts.length fd.path b
        ((V (.base fd.path)).getD []) c ws).map FileMergeResult.merged := by
      rw [tryMergeFile_merged env _ 0]
      simp [fate, hH, hc]
    rw [ho]
    cases ht : tryMergeFile env acc.conflicts.length fd.path b ((V (.base fd.path)).getD []) c ws with
    | none =>
      rw [ht] at hf
      simp only [ht]
      exact ends_fail (.inr ⟨h₂, .inr hf, by simp⟩)
    | some r =>
      rw [ht] at hf
      simp only [ht]
      cases r with
      | autoMerged m l => exact ends_pure ⟨h₂, mergedTo_merge hacc hov hf 1 (by simp [hH])⟩
      | conflicts cs =>
        obtain ⟨hne, hab⟩ := tryMergeFile_conflicts ht
        exact ends_pure ⟨h₂, mergedTo_conflict hacc hov hf hne hab⟩

/-- The merge loop either decides every changed file or stops at one it cannot get past. -/
theorem mergeFiles_spec (C : fs.ContractOn U rep may) (h : rep s V) (ws : Uuid) (H : FMap Path Bytes) (d : WorkspaceDiff)
    (hu : ∀ p ∈ d.fileDiffs.map FileDiff.path, U p) :
    Ends (mergeFiles env fs ws H d) s
      (fun acc s' => rep s' V ∧ MergedTo env ws V H.get (d.fileDiffs.map FileDiff.path) acc)
      (fun e s' => may ∨ rep s' V ∧ (∃ p ∈ d.fileDiffs.map FileDiff.path, Stuck env ws V H.get p) ∧
        ∀ n cs, e ≠ .semanticConflicts n cs) := by
  have h0 : MergedTo env ws V H.get [] ⟨[], 0, []⟩ := ⟨by simp, by simp, by simp, by simp, by simp⟩
  refine (ends_foldlM (fun pre acc s => rep s V ∧ MergedTo env ws V H.get (pre.map FileDiff.path) acc) d.fileDiffs []
    ⟨[], 0, []⟩ s ⟨h, h0⟩ ?_).mono (fun _ _ h => h) (fun _ _ h => h)
  intro pre fd post acc s hlist ⟨hs, hacc⟩
  have hmem : fd.path ∈ d.fileDiffs.map FileDiff.path := List.mem_map_of_mem (mem_of_split hlist)
  refine (mergeStep_spec C hs hacc (hu _ hmem)).mono (fun acc' s' h' => by simpa using h') (fun e _ he => ?_)
  exact he.imp_right (fun hk => ⟨hk.1, ⟨fd.path, hmem, hk.2.1⟩, hk.2.2⟩)

end MergeLoop

/-! ## The graph -/

/-- The graph update at one path, when the tree is `t`. -/
def regraph (env : Env) (t : Path → Option Bytes) (g : GraphSnapshot) (p : Path) : GraphSnapshot :=
  match t p with
  | some c => if isSupportedSourceFile p then (g.updateFile env p c).2 else g
  | none => g

theorem ends_updateFile (v : VaiDir) (p : Path) (c : Bytes) :
    Ends (VaiDir.updateFile env p c) v (fun _ v' => v' = { v with graph := (v.graph.updateFile env p c).2 })
      (fun _ v' => v' = { v with graph := (v.graph.updateFile env p c).2 }) := by
  unfold Ends VaiDir.updateFile
  rcases v.graph.updateFile env p c with ⟨_ | _, g⟩ <;> rfl

theorem updateGraphFile_spec (C : fs.ContractOn U rep may) (hf : env.Faulty → may) {w : World φ} (h : rep w.fs V)
    {fd : FileDiff} (hu : U fd.path) : Ends (updateGraphFile env fs fd) w
      (fun _ w' => rep w'.fs V ∧ ∃ g, w'.vai = { w.vai with graph := g } ∧
        (¬ may → g = regraph env (fun p => V (.base p)) w.vai.graph fd.path)) (fun _ _ => env.Faulty) := by
  unfold updateGraphFile regraph
  split
  · rename_i hsup
    -- both steps are best effort: an error of either is swallowed
    refine Ends.bind (R := fun r w' => rep w'.fs V ∧ w'.vai = w.vai ∧
        (∀ c, r = .ok c → V (.base fd.path) = some c) ∧ ∀ e, r = .error e → may ∨ V (.base fd.path) = none)
      (F := fun _ _ => False) (ends_attempt ((ends_onFs (C.read h (.base fd.path) hu)).mono
        (fun c _ h => ⟨h.2.1, h.1, by rintro _ ⟨⟩; exact h.2.2, by rintro _ ⟨⟩⟩)
        (fun e _ h => ⟨h.2.1, h.1, by rintro _ ⟨⟩, by rintro _ ⟨⟩; exact h.2.2⟩)))
      (fun _ _ h => h.elim) fun r w₁ ⟨h₁, hv₁, hok, herr⟩ => ?_
    cases r with
    | error e =>
      refine ends_pure ⟨h₁, w.vai.graph, hv₁, fun hm => ?_⟩
      simp only [(herr e rfl).resolve_left hm]
    | ok content =>
      refine Ends.bind (R := fun _ w' => rep w'.fs V ∧ ∃ g, w'.vai = { w.vai with graph := g } ∧
          (¬ may → g = (w.vai.graph.updateFile env fd.path content).2)) (F := fun _ _ => False)
        (ends_attempt ?_) (fun _ _ h => h.elim) fun _ w₂ ⟨h₂, g, hg, hgm⟩ => ends_pure ⟨h₂, g, hg, fun hm => ?_⟩
      · refine (ends_onVai (E := fun _ v => ∃ g, v = { w.vai with graph := g } ∧
            (¬ may → g = (w.vai.graph.updateFile env fd.path content).2)) ((ends_updateFile _ _ _).mono (fun _ v h => h)
            (fun _ v h => ⟨_, by rw [h, hv₁], fun _ => rfl⟩))
          (fun hfault _ => ⟨w.vai.graph, hv₁, fun hm => absurd (hf hfault) hm⟩)).mono ?_ ?_
        · rintro _ w₂ ⟨hf₂, hg₂⟩
          exact ⟨by rwa [hf₂], _, by rw [hg₂, hv₁], fun _ => rfl⟩
        · rintro _ w₂ ⟨hf₂, hg₂⟩
          exact ⟨by rwa [hf₂], hg₂⟩
      · simp only [hok content rfl, hgm hm]
  · refine ends_pure ⟨h, w.vai.graph, rfl, fun _ => ?_⟩
    split <;> rfl

theorem updateGraphForDiff_spec (C : fs.ContractOn U rep may) (hf : env.Faulty → may) {w : World φ} (h : rep w.fs V)
    (d : WorkspaceDiff) (hu : ∀ p ∈ d.fileDiffs.map FileDiff.path, U p) : Ends (updateGraphForDiff env fs d) w
      (fun _ w' => rep w'.fs V ∧ ∃ g, w'.vai = { w.vai with graph := g } ∧
        (¬ may → g = (d.fileDiffs.map FileDiff.path).foldl (regraph env (fun p => V (.base p))) w.vai.graph))
      (fun _ _ => env.Faulty) := by
  unfold updateGraphForDiff
  refine Ends.bind (ends_onVai_of_ok rfl) (fun _ _ h => h) fun _ w₁ ⟨hf₁, _, hv₁⟩ => ?_
  refine (ends_forM (fun pre (w' : World φ) => rep w'.fs V ∧ ∃ g, w'.vai = { w.vai with graph := g } ∧
    (¬ may → g = (pre.map FileDiff.path).foldl (regraph env (fun p => V (.base p))) w.vai.graph)) d.fileDiffs [] w₁
    ⟨by rwa [hf₁], w.vai.graph, hv₁, fun _ => rfl⟩ ?_).mono (fun _ _ h => h) (fun _ _ h => h)
  intro pre fd _ w₂ hlist ⟨h₂, g₂, hg₂, hm₂⟩
  have hfd : U fd.path := hu _ (List.mem_map_of_mem (mem_of_split hlist))
  refine (updateGraphFile_spec C hf h₂ hfd).mono ?_ (fun _ _ h => h)
  rintro _ w₃ ⟨h₃, g₃, hg₃, hm₃⟩
  refine ⟨h₃, g₃, by rw [hg₃, hg₂], fun hm => ?_⟩
  rw [hm₃ hm, hg₂, hm₂ hm, List.map_append, List.foldl_append]
  rfl

/-! ## The shared end -/

def removedEvent (w : Uuid) (p : Path) : EventKind := .fileRemoved w p

def newRecord (m : WorkspaceMeta) (newVersionId : Text) (mergeEventId : Nat) : VersionMeta :=
  { versionId := newVersionId, parentVersionId := some m.baseVersion, intent := m.intent, createdBy := "agent".toList,
    mergeEventId := some mergeEventId }

/-- The directory after the shared end: the removals `R` logged, the version recorded, HEAD advanced, the workspace
merged, and the active pointer `a`. -/
def closed (m : WorkspaceMeta) (R : List Path) (newVersionId : Text) (autoResolved : Nat) (a : Option Uuid) (v : VaiDir) :
    VaiDir :=
  let v₁ := v.logged (R.map (removedEvent m.id))
  { v₁.logged [.mergeCompleted m.id newVersionId autoResolved,
      .versionCreated newVersionId (some m.baseVersion) m.intent] with
    head := newVersionId
    versions := v.versions.insert newVersionId (newRecord m newVersionId (VaiDir.nextEventId v₁.log))
    workspaces := v.workspaces.insert m.id { m with status := .merged }
    active := a }

theorem logRemoved_spec (w : World φ) (ws : Uuid) (p : Path) : Ends (logRemoved env ws p) w
    (fun _ w' => w'.fs = w.fs ∧ (w'.vai = w.vai.logged [removedEvent ws p] ∨ env.Faulty ∧ w'.vai = w.vai))
    (fun _ _ => False) := by
  refine Ends.bind (R := fun _ w' => w'.fs = w.fs ∧ (w'.vai = w.vai.logged [removedEvent ws p] ∨ env.Faulty ∧
    w'.vai = w.vai)) (F := fun _ _ => False) (ends_attempt ?_) (fun _ _ h => h.elim) fun _ w' h => ends_pure h
  have happ : Ends (VaiDir.append (removedEvent ws p)) w.vai (fun _ v => v = w.vai.logged [removedEvent ws p])
      (fun _ v => env.Faulty ∧ v = w.vai) := by exact rfl
  refine (ends_onVai happ (fun hf _ => ⟨hf, rfl⟩)).mono ?_ ?_
  · exact fun _ w' ⟨hf, hv⟩ => ⟨hf, .inl hv⟩
  · exact fun _ w' ⟨hf, hv⟩ => ⟨hf, .inr hv⟩

theorem logRemovals_spec (w : World φ) (ws : Uuid) (D : List Path) : Ends (D.forM (logRemoved env ws)) w
    (fun _ w' => w'.fs = w.fs ∧ ∃ R, (R = D ∨ env.Faulty) ∧ w'.vai = w.vai.logged (R.map (removedEvent ws)))
    (fun _ _ => False) := by
  refine (ends_forM (fun pre w' => w'.fs = w.fs ∧ ∃ R, (R = pre ∨ env.Faulty) ∧
    w'.vai = w.vai.logged (R.map (removedEvent ws))) D [] w ⟨rfl, [], .inl rfl, rfl⟩ ?_).mono (fun _ _ h => h)
    (fun _ _ h => h)
  intro pre p post w₁ _ ⟨hf₁, R, hR, hv₁⟩
  refine (logRemoved_spec w₁ ws p).mono (fun _ w₂ ⟨hf₂, hv₂⟩ => ⟨hf₂.trans hf₁, ?_⟩) (fun _ _ h => h)
  rcases hv₂ with hv₂ | ⟨hfault, hv₂⟩
  · refine ⟨R ++ [p], hR.imp_left (fun h => by rw [h]), ?_⟩
    rw [hv₂, hv₁]
    simp [VaiDir.logged]
  · exact ⟨R, .inr hfault, hv₂.trans hv₁⟩

theorem complete_spec {w : World φ} {m : WorkspaceMeta} (hm : (w.vai.workspaces.get m.id).isSome) (d : WorkspaceDiff)
    (D : List Path) (id : Text) (applied auto : Nat) : Ends (complete env m d D id applied auto) w
    (fun r w' => w'.fs = w.fs ∧ r.filesApplied = applied ∧ r.autoResolved = auto ∧ r.version.versionId = id ∧
      ∃ R a, (R = D ∨ env.Faulty) ∧ w'.vai = closed m R id auto a w.vai)
    (fun _ _ => env.Faulty) := by
  unfold complete
  refine Ends.bind (logRemovals_spec w m.id D) (fun _ _ h => h.elim) ?_
  rintro _ w₁ ⟨hf₁, R, hR, hv₁⟩
  refine Ends.bind (ends_onVai_of_ok rfl) (fun _ _ h => h) ?_
  rintro e w₂ ⟨hf₂, rfl, hv₂⟩
  refine Ends.bind (ends_onVai_of_ok rfl) (fun _ _ h => h) ?_
  rintro _ w₃ ⟨hf₃, -, hv₃⟩
  refine Ends.bind (ends_onVai_of_ok rfl) (fun _ _ h => h) ?_
  rintro version w₄ ⟨hf₄, rfl, hv₄⟩
  unfold advanceHeadAndCloseWorkspace
  rw [bind_assoc]
  refine Ends.bind (ends_onVai_of_ok rfl) (fun _ _ h => h) ?_
  rintro _ w₅ ⟨hf₅, -, hv₅⟩
  obtain ⟨m', hm'⟩ := Option.isSome_iff_exists.1 hm
  have hm₅ : w₅.vai.workspaces.get m.id = some m' := by
    rw [hv₅, hv₄, hv₃, hv₂, hv₁]
    exact hm'
  rw [bind_assoc]
  refine Ends.bind (ends_onVai_of_ok (a := ()) (v := { w₅.vai with
    workspaces := w₅.vai.workspaces.insert m.id { m with status := .merged } }) (by simp [VaiDir.updateMeta, hm₅]))
    (fun _ _ h => h) ?_
  rintro _ w₆ ⟨hf₆, -, hv₆⟩
  have hfs : w₆.fs = w.fs := by rw [hf₆, hf₅, hf₄, hf₃, hf₂, hf₁]
  have hv : w₆.vai = closed m R id auto w₆.vai.active w.vai := by
    rw [hv₆, hv₅, hv₄, hv₃, hv₂, hv₁]
    rfl
  have hrem : Ends VaiDir.removeActive w₆.vai (fun _ v => v = { w₆.vai with active := none }) (fun _ v => v = w₆.vai) := by
    exact rfl
  rw [bind_assoc]
  refine Ends.bind (R := fun _ w' => w'.fs = w.fs ∧ ∃ a, w'.vai = closed m R id auto a w.vai) (F := fun _ _ => False)
    (ends_attempt ((ends_onVai hrem (fun _ _ => rfl)).mono (fun _ w₇ h₇ => ⟨h₇.1.trans hfs, none, ?_⟩)
      (fun _ w₇ h₇ => ⟨h₇.1.trans hfs, w₆.vai.active, h₇.2.trans hv⟩)))
    (fun _ _ h => h.elim) ?_
  · rw [h₇.2, hv]
    rfl
  · rintro _ w₇ ⟨hf₇, a, hv₇⟩
    exact ends_pure ⟨hf₇, rfl, rfl, rfl, R, a, hR, hv₇⟩

end Merge
end Vai
