import Vai.FileWorkspaces
import Vai.DiffExact
/-!
# PlanExact — the plan and the submit that follows it

`FileWorkspace::open` takes the deletions of a workspace from two places, the `.vai-deleted` manifest and the field
`deleted_paths` of `meta.toml`, and `plan` shows their union.  `merge::submit` opens the workspace again and reads the
manifest alone.  `submit_as_planned_iff`: a submit does what its plan says exactly when the field names no file that the
manifest does not.

What a submit writes is read off the record of its calls (`MergeFs.traced`).
-/
namespace Vai
namespace Merge

open Proc

/-! ## What a fast-forward writes -/

section Writes

variable {φ α : Type} {env : Env} {fs : MergeFs φ} {rep : φ → Files → Prop} {may : Prop} {V : Files} {D : List Path}
variable {X : Path → Prop} {s : φ × List FsWrite} {w : World (φ × List FsWrite)} {m : WorkspaceMeta} {d : WorkspaceDiff}

/-- The base files written so far are those of `X`. -/
def Wrote (X : Path → Prop) (s : φ × List FsWrite) : Prop := ∀ p, .writeFile (baseKey p) ∈ s.2 ↔ X p

theorem ends_traced {p : Proc φ IoError α} {p' : Proc (φ × List FsWrite) IoError α} {Q : α → φ → Prop}
    {E : IoError → φ → Prop} (h₁ : (p' s).1 = (p s.1).1) (h₂ : (p' s).2.1 = (p s.1).2) (h : Ends p s.1 Q E) :
    Ends p' s (fun a s' => Q a s'.1) (fun e s' => E e s'.1) := by
  refine ends_iff.2 ⟨fun a s' hr => ?_, fun e s' hr => ?_⟩
  · rw [hr] at h₁ h₂
    exact h.ok (Prod.ext h₁.symm h₂.symm)
  · rw [hr] at h₁ h₂
    exact h.error (Prod.ext h₁.symm h₂.symm)

theorem traced_contract (C : fs.Contract rep may) : fs.traced.Contract (fun s V => rep s.1 V) may where
  readFile h k hk := ends_traced rfl rfl (C.readFile h k hk)
  writeFile h k c hk := ends_traced rfl rfl (C.writeFile h k c hk)
  deleteFile h k hk := ends_traced rfl rfl (C.deleteFile h k hk)
  fileExists h k hk := ends_traced rfl rfl (C.fileExists h k hk)
  listOverlay h := ends_traced rfl rfl (C.listOverlay h)
  listSnapshot h n := ends_traced rfl rfl (C.listSnapshot h n)

theorem keeps_reads {p : Proc (φ × List FsWrite) IoError α} (hp : ∀ s, (p s).2.2 = s.2) : Keeps (Wrote X) (io p) := by
  refine Keeps.mapErr (fun s hs q => ?_) _
  rw [hp]
  exact hs q

theorem keeps_call {p : Proc (φ × List FsWrite) IoError α} {c : FsWrite} (hp : ∀ s, (p s).2.2 = s.2 ++ [c])
    (hc : ∀ q, .writeFile (baseKey q) ≠ c) : Keeps (Wrote X) (io p) := by
  refine Keeps.mapErr (fun s hs q => ?_) _
  rw [hp, List.mem_append, List.mem_singleton]
  exact ⟨fun h => (hs q).1 (h.resolve_right (hc q)), fun h => .inl ((hs q).2 h)⟩

theorem readIfExists_wrote (key : Text) : Keeps (Wrote X) (Diff.readIfExists fs.traced key) := by
  unfold Diff.readIfExists
  refine Keeps.bind (keeps_reads fun _ => rfl) fun there => ?_
  split
  · exact Keeps.bind (keeps_reads fun _ => rfl) fun _ => keeps_pure _ _
  · exact keeps_pure _ _

theorem computeWithFs_wrote (i : Uuid) (b : Text) (D : List Path) :
    Keeps (Wrote X) (Diff.computeWithFs env fs.traced i b D) := by
  unfold Diff.computeWithFs
  refine Keeps.bind (keeps_reads fun _ => rfl) fun keys => ?_
  refine Keeps.bind (keeps_foldlM (fun acc key => ?_) keys _) fun acc => ?_
  · unfold Diff.overlayStep
    split
    · exact keeps_fail _ _
    · refine Keeps.bind (keeps_reads fun _ => rfl) fun c => Keeps.bind (keeps_reads fun _ => rfl) fun there => ?_
      refine keeps_ite ?_ (keeps_pure _ _)
      exact Keeps.bind (readIfExists_wrote _) fun base => Keeps.bind (keeps_ofExcept _ _ _) fun _ => keeps_pure _ _
  refine Keeps.bind (keeps_foldlM (fun acc p => ?_) D _) fun acc => keeps_pure _ _
  unfold Diff.deletedStep
  refine Keeps.bind (keeps_reads fun _ => rfl) fun there => keeps_ite (keeps_ite ?_ (keeps_pure _ _)) (keeps_pure _ _)
  refine Keeps.bind (Keeps.attempt (keeps_reads fun _ => rfl)) fun r => ?_
  cases r with
  | error e => exact keeps_pure _ _
  | ok base =>
    dsimp only
    split <;> exact keeps_pure _ _

theorem savePreChangeSnapshot_wrote (n : Nat) (d : WorkspaceDiff) :
    Keeps (Wrote X) (savePreChangeSnapshot fs.traced (versionName n) d) := by
  refine keeps_forM (fun fd => ?_) _
  unfold saveFile
  refine Keeps.bind (keeps_reads fun _ => rfl) fun there => keeps_ite ?_ (keeps_pure _ _)
  refine Keeps.bind (keeps_reads fun _ => rfl) fun c => keeps_call (fun _ => rfl) fun q h => ?_
  have hkey : baseKey q = snapshotKey (versionName n) fd.path := FsWrite.writeFile.inj h
  cases hkey

theorem applyOverlay_wrote (C : fs.Contract rep may) (h : rep s.1 V) (hX : Wrote X s) (D : List Path) :
    Ends (applyOverlay fs.traced D) s (fun _ s' => Wrote (fun p => X p ∨ (V (.overlay p)).isSome) s') (fun _ _ => True) := by
  unfold applyOverlay
  refine Ends.bind ((traced_contract C).overlays h |>.and ((keeps_reads fun _ => rfl).ends hX)) (fun _ _ _ => trivial) ?_
  rintro _ s₁ ⟨⟨-, l, rfl, hl⟩, h₁⟩
  rw [List.forM_eq_forM, List.forM_map]
  refine Ends.bind (R := fun _ s' => Wrote (fun p => X p ∨ p ∈ l) s') (F := fun _ _ => True) ?_ (fun _ _ h => h)
    fun _ s₂ h₂ => ?_
  · refine (ends_forM (E := fun _ _ => True) (fun pre s => Wrote (fun p => X p ∨ p ∈ pre) s) l [] s₁ (by simpa using h₁)
      ?_).mono (fun _ _ h => h) (fun _ _ h => h)
    intro pre p post s _ hs
    unfold applyKey
    rw [overlayKey, Text.stripPrefix_append]
    refine Ends.bind ((keeps_reads fun _ => rfl).ends hs) (fun _ _ _ => trivial) fun c s' hs' => ?_
    refine ends_io (ends_iff.2 ⟨fun _ s'' hr => ?_, fun _ _ _ => trivial⟩)
    have htrace : s''.2 = s'.2 ++ [.writeFile (baseKey p)] := congrArg (fun r => r.2.2) hr.symm
    intro q
    have hkey : baseKey q = baseKey p ↔ q = p := by simp [baseKey]
    rw [htrace, List.mem_append, List.mem_singleton, hs' q, FsWrite.writeFile.injEq, hkey]
    simp only [List.mem_append, List.mem_singleton, or_assoc]
  · have hdel : Keeps (Wrote fun p => X p ∨ p ∈ l) (D.forM (deleteBase fs.traced)) :=
      keeps_forM (fun p => keeps_call (fun _ => rfl) fun q h => by cases h) D
    refine Ends.bind (hdel.ends h₂) (fun _ _ _ => trivial) fun _ s₃ h₃ => ends_pure fun p => ?_
    exact (h₃ p).trans (or_congr_right (hl.2 p))

theorem keeps_onFs_wrote {p : Proc (φ × List FsWrite) MergeError α} (h : Keeps (Wrote X) p) :
    Keeps (fun w : World (φ × List FsWrite) => Wrote X w.fs) (onFs p) := keeps_onFs fun w hw => h w.fs hw

theorem keeps_onVai_wrote (env : Env) (p : Proc VaiDir MergeError α) :
    Keeps (fun w : World (φ × List FsWrite) => Wrote X w.fs) (onVai env p) := keeps_onVai (fun _ h => h) fun _ h => h

theorem updateGraphForDiff_wrote (env : Env) (d : WorkspaceDiff) :
    Keeps (fun w : World (φ × List FsWrite) => Wrote X w.fs) (updateGraphForDiff env fs.traced d) := by
  unfold updateGraphForDiff
  refine Keeps.bind (keeps_onVai_wrote env _) fun _ => keeps_forM (fun fd => ?_) _
  unfold updateGraphFile
  refine keeps_ite ?_ (keeps_pure _ _)
  refine Keeps.bind (Keeps.attempt (keeps_onFs_wrote (keeps_reads fun _ => rfl))) fun r => ?_
  cases r with
  | error e => exact keeps_pure _ _
  | ok c => exact Keeps.bind (Keeps.attempt (keeps_onVai_wrote env _)) fun _ => keeps_pure _ _

theorem complete_wrote (env : Env) (m : WorkspaceMeta) (d : WorkspaceDiff) (D : List Path) (id : Text) (n k : Nat) :
    Keeps (fun w : World (φ × List FsWrite) => Wrote X w.fs) (complete env m d D id n k) := by
  unfold complete
  refine Keeps.bind (keeps_forM (fun p => ?_) D) fun _ => ?_
  · exact Keeps.bind (Keeps.attempt (keeps_onVai_wrote env _)) fun _ => keeps_pure _ _
  refine Keeps.bind (keeps_onVai_wrote env _) fun e => Keeps.bind (keeps_onVai_wrote env _) fun _ => ?_
  refine Keeps.bind (keeps_onVai_wrote env _) fun version => Keeps.bind ?_ fun _ => keeps_pure _ _
  unfold advanceHeadAndCloseWorkspace
  refine Keeps.bind (keeps_onVai_wrote env _) fun _ => Keeps.bind (keeps_onVai_wrote env _) fun _ => ?_
  exact Keeps.bind (Keeps.attempt (keeps_onVai_wrote env _)) fun _ => keeps_pure _ _

theorem recordEvents_wrote (env : Env) (d : WorkspaceDiff) :
    Keeps (fun w : World (φ × List FsWrite) => Wrote X w.fs) (Diff.recordEvents env d) := by
  have hevents : ∀ ks : List EventKind,
      Keeps (fun w : World (φ × List FsWrite) => Wrote X w.fs) (ks.forM (Diff.appendEvent env)) :=
    fun ks => keeps_forM (fun k => Keeps.bind (keeps_onVai_wrote env _) fun _ => keeps_pure _ _) ks
  unfold Diff.recordEvents
  refine Keeps.bind (Keeps.bind (keeps_onVai_wrote env _) fun _ => keeps_onVai_wrote env _) fun m => ?_
  refine keeps_ite (keeps_pure _ _) (Keeps.bind (keeps_onVai_wrote env _) fun _ => ?_)
  exact Keeps.bind (hevents _) fun _ => Keeps.bind (hevents _) fun _ => keeps_onVai_wrote env _

/-- **What a fast-forward writes**: the overlay files. -/
theorem fastForwardMerge_wrote (C : fs.Contract rep may) (h : rep w.fs.1 V) (hX : Wrote X w.fs) :
    Ends (fastForwardMerge env fs.traced m d D) w
      (fun _ w' => Wrote (fun p => X p ∨ (V (.overlay p)).isSome) w'.fs) (fun _ _ => True) := by
  unfold fastForwardMerge
  refine Ends.bind (ends_onVai_of_ok rfl) (fun _ _ _ => trivial) ?_
  rintro _ w₁ ⟨hf₁, rfl, -⟩
  have hsaved := ends_onFs ((savePreChangeSnapshot_spec (s := w₁.fs) (traced_contract C) (by rw [hf₁]; exact h)
    (w.vai.maxVersion + 1) d fun _ _ => trivial).and ((savePreChangeSnapshot_wrote (w.vai.maxVersion + 1) d).ends (by rw [hf₁]; exact hX)))
  refine Ends.bind hsaved (fun _ _ _ => trivial) fun _ w₂ ⟨_, h₂, hX₂⟩ => ?_
  refine Ends.bind (ends_onFs (applyOverlay_wrote C h₂ hX₂ D)) (fun _ _ _ => trivial) fun n w₃ ⟨_, hX₃⟩ => ?_
  refine Ends.bind ((updateGraphForDiff_wrote env d).ends hX₃) (fun _ _ _ => trivial) fun _ w₄ hX₄ => ?_
  exact ((complete_wrote env m d D _ n 0).ends hX₄).mono (fun _ _ h => h) fun _ _ _ => trivial

theorem submitWithFs_wrote (C : fs.Contract rep may) (h : rep w.fs.1 V) (ha : w.vai.IsActive m)
    (hhead : w.vai.head = m.baseVersion) (hX : Wrote X w.fs) :
    Ends (submitWithFs env fs.traced m D) w
      (fun _ w' => Wrote (fun p => X p ∨ (V (.overlay p)).isSome) w'.fs) (fun _ _ => True) := by
  unfold submitWithFs
  refine Ends.bind (ends_onFs ((Diff.computeWithFs_spec (traced_contract C) h m.id m.baseVersion (V.within_all D)).and
    ((computeWithFs_wrote m.id m.baseVersion D).ends hX))) (fun _ _ _ => trivial) fun d w₁ ⟨hv₁, ⟨h₁, _⟩, hX₁⟩ => ?_
  split
  · exact ends_fail trivial
  refine Ends.bind (Diff.recordEvents_spec d (m := m) (by rwa [hv₁])) (fun _ _ _ => trivial) fun _ w₂ ⟨hf₂, hv₂⟩ => ?_
  refine Ends.bind (ends_onVai_of_ok rfl) (fun _ _ _ => trivial) fun _ w₃ ⟨hf₃, _, hv₃⟩ => ?_
  refine Ends.bind (ends_onVai_of_ok rfl) (fun _ _ _ => trivial) fun _ w₄ ⟨hf₄, _, hv₄⟩ => ?_
  refine Ends.bind (ends_onVai_of_ok rfl) (fun _ _ _ => trivial) ?_
  rintro head w₅ ⟨hf₅, rfl, -⟩
  have hfs : w₅.fs = w₁.fs := by rw [hf₅, hf₄, hf₃, hf₂]
  have hunmoved : w₄.vai.head = m.baseVersion := by
    rw [hv₄, hv₃, hv₂, hv₁, ← hhead]
    exact Diff.recorded_head d m w.vai
  rw [if_pos hunmoved]
  exact fastForwardMerge_wrote C (by rw [hfs]; exact h₁) (by rw [hfs]; exact hX₁)

end Writes

end Merge

namespace FileWorkspace

open Proc

/-! ## What is opened and planned -/

section Plan

variable {φ : Type} {env : Env} {fsOf : Uuid → MergeFs φ} {rep : φ → Files → Prop} {may : Prop} {V : Files}
variable {w w₀ : World φ} {m : WorkspaceMeta} {fw : Opened φ} {backend : BackendKind}

/-- The deletions that a workspace is opened with. -/
def deletions (m : WorkspaceMeta) (v : VaiDir) : List Path := ((v.deleted.get m.id).getD [] ++ m.deletedPaths).foldl pushNew []

theorem mem_deletions {v : VaiDir} {p : Path} :
    p ∈ deletions m v ↔ p ∈ (v.deleted.get m.id).getD [] ∨ p ∈ m.deletedPaths := by
  unfold deletions
  rw [mem_foldl_pushNew]
  simp

theorem engine_ok {α : Type} {p : Proc (World φ) MergeError α} {a : α} {w' : World φ} (h : engine p w = (.ok a, w')) :
    p w = (.ok a, w') := by
  unfold engine mapErr at h
  rcases hp : p w with ⟨e | a', w₁⟩ <;> rw [hp] at h <;> cases h
  rfl

theorem ends_engine {α : Type} {p : Proc (World φ) MergeError α} {Q : α → World φ → Prop} {E : MergeError → World φ → Prop}
    (h : Ends p w Q E) : Ends (engine p) w Q (fun _ _ => True) :=
  ends_mapErr (h.mono (fun _ _ h => h) fun _ _ _ => trivial)

theorem openExisting_spec (ha : w.vai.IsActive m) (backend : BackendKind) :
    Ends (openExisting env fsOf backend) w (fun fw w' => w'.fs = w.fs ∧ w'.vai = w.vai ∧ fw.wsMeta = m ∧
      fw.mergeFs = fsOf m.id ∧ fw.deletedPaths = deletions m w.vai ∧ fw.backend = backend ∧ fw.isPushFromRoot = false)
      (fun _ _ => True) := by
  unfold openExisting
  refine Ends.bind (ends_engine (ends_onVai_of_ok rfl)) (fun _ _ h => h) fun _ w₁ ⟨hf₁, _, hv₁⟩ => ?_
  refine Ends.bind (ends_engine (active_spec (m := m) (by rw [hv₁]; exact ha))) (fun _ _ h => h) ?_
  rintro m' w₂ ⟨hf₂, rfl, hv₂⟩
  have hfs : w₂.fs = w.fs := hf₂.trans hf₁
  have hvai : w₂.vai = w.vai := hv₂.trans hv₁
  unfold loadDeletedPaths
  refine Ends.bind (R := fun D w' => w'.fs = w.fs ∧ w'.vai = w.vai ∧ D = deletions m' w.vai) (F := fun _ _ => True)
    (Ends.bind (ends_engine (ends_onVai_of_ok rfl)) (fun _ _ h => h) ?_) (fun _ _ h => h) ?_
  · rintro _ w₃ ⟨hf₃, rfl, hv₃⟩
    refine ends_pure ⟨hf₃.trans hfs, hv₃.trans hvai, ?_⟩
    rw [hvai]
    rfl
  · rintro D w₃ ⟨hf₃, hv₃, rfl⟩
    exact ends_pure ⟨hf₃, hv₃, rfl, rfl, rfl, rfl, rfl⟩

/-- A plan shows the diff, the deletions and whether HEAD has moved. -/
structure Shows (env : Env) (fw : Opened φ) (V : Files) (v : VaiDir) (d : WorkspaceDiff) (pl : Plan) : Prop where
  adds : ∀ p, p ∈ pl.adds ↔ (V (.overlay p)).isSome ∧ V (.base p) = none
  mods : ∀ p, p ∈ pl.mods ↔ (V (.overlay p)).isSome ∧ (V (.base p)).isSome
  dels : pl.dels = fw.deletedPaths
  surprises : pl.surprises = drift fw v.head

theorem mem_changed {l D : List Path} {d : WorkspaceDiff} (hl : Lists l (fun p => V (.overlay p)))
    (hd : d.fileDiffs = Diff.fileDiffs env V l D) (k : FileChangeType) (p : Path) :
    p ∈ (d.fileDiffs.filter (fun fd => fd.changeType = k)).map FileDiff.path ↔
      ((V (.overlay p)).isSome ∧ k = if (V (.base p)).isSome then .modified else .added) ∨
      (p ∈ D ∧ (V (.base p)).isSome) ∧ k = .deleted := by
  rw [← @Diff.mem_fileDiffs env V l D hl p k, ← hd, List.mem_map]
  refine exists_congr fun fd => ?_
  rw [List.mem_filter, decide_eq_true_eq, and_assoc, and_comm (a := fd.changeType = k)]

theorem planOverlay_spec (C : fw.mergeFs.Contract rep may) (h : rep w.fs V) (ha : w.vai.IsActive fw.wsMeta)
    (hb : fw.backend = .onDisk) :
    Ends (planOverlay env fw) w (fun pl w' => rep w'.fs V ∧ ∃ d, w'.vai = Diff.recorded d fw.wsMeta w.vai ∧
      Shows env fw V w.vai d pl) (fun _ _ => True) := by
  unfold planOverlay
  rw [hb]
  refine Ends.bind (ends_engine (ends_onFs (Diff.computeWithFs_spec C h _ _ (V.within_all _)))) (fun _ _ h => h) ?_
  rintro d w₁ ⟨hv₁, h₁, -, -, -, l, hl, hd⟩
  refine Ends.bind (R := fun head w' => w'.fs = w₁.fs ∧ head = w.vai.head ∧ w'.vai = w.vai) (F := fun _ _ => True) ?_
    (fun _ _ h => h) ?_
  · refine (ends_engine (ends_onVai_of_ok rfl)).mono (fun head w' h => ?_) fun _ _ h => h
    exact ⟨h.1, h.2.1.trans (by rw [hv₁]), h.2.2.trans hv₁⟩
  rintro _ w₂ ⟨hf₂, rfl, hv₂⟩
  refine Ends.bind (R := fun missing w' => missing = [] ∧ w' = w₂) (F := fun _ _ => True) (ends_pure ⟨rfl, rfl⟩)
    (fun _ _ h => h) ?_
  rintro _ _ ⟨rfl, rfl⟩
  refine Ends.bind (ends_engine (Diff.recordEvents_spec d (m := fw.wsMeta) (by rw [hv₂]; exact ha))) (fun _ _ h => h)
    fun _ w₃ ⟨hf₃, hv₃⟩ => ?_
  refine ends_pure ⟨by rw [hf₃, hf₂]; exact h₁, d, by rw [hv₃, hv₂], fun p => ?_, fun p => ?_, rfl, List.append_nil _⟩
  · refine (mem_changed hl hd .added p).trans ?_
    cases V (.base p) <;> simp
  · refine (mem_changed hl hd .modified p).trans ?_
    cases V (.base p) <;> simp

end Plan

/-! ## A submit against its plan -/

section Submit

variable {env : Env} {w w₀ w₁ w₂ : World (Disk × List FsWrite)} {m : WorkspaceMeta} {fw : Opened (Disk × List FsWrite)}
variable {pl : Plan} {a : Applied}

/-- The disk of a workspace, with its writes on record. -/
def tracedDisk (env : Env) (i : Uuid) : MergeFs (Disk × List FsWrite) := (diskMergeFs env i).traced

/-- What is written and removed between two trees is what the plan shows. -/
structure AsPlanned (pl : Plan) (before after : Path → Option Bytes) (writes : List FsWrite) : Prop where
  removed : ∀ p, (before p).isSome ∧ after p = none ↔ p ∈ pl.dels ∧ (before p).isSome
  added : ∀ p, .writeFile (baseKey p) ∈ writes ∧ before p = none ↔ p ∈ pl.adds
  modified : ∀ p, .writeFile (baseKey p) ∈ writes ∧ (before p).isSome ↔ p ∈ pl.mods

theorem active_recorded {φ : Type} {w : World φ} (ha : w.vai.IsActive m) (d : WorkspaceDiff) :
    ∃ m', (Diff.recorded d m w.vai).IsActive m' ∧ m'.id = m.id ∧ m'.baseVersion = m.baseVersion := by
  unfold Diff.recorded
  by_cases hc : m.status = .created
  · rw [if_pos hc]
    exact ⟨{ m with status := .active }, ⟨ha.active, by rw [FMap.get_insert, if_pos rfl]⟩, rfl, rfl⟩
  · rw [if_neg hc]
    exact ⟨m, ha, rfl, rfl⟩

theorem planOverlay_keeps (env : Env) {X : Path → Prop} {i : Uuid} (hfs : fw.mergeFs = tracedDisk env i)
    (hb : fw.backend = .onDisk) :
    Keeps (fun w : World (Disk × List FsWrite) => Merge.Wrote X w.fs) (planOverlay env fw) := by
  unfold planOverlay
  rw [hb, hfs]
  refine Keeps.bind (Keeps.mapErr (Merge.keeps_onFs_wrote (Merge.computeWithFs_wrote _ _ _)) _) fun d => ?_
  refine Keeps.bind (Keeps.mapErr (Merge.keeps_onVai_wrote env _) _) fun head => ?_
  refine Keeps.bind (keeps_pure _ _) fun missing => ?_
  exact Keeps.bind (Keeps.mapErr (Merge.recordEvents_wrote env d) _) fun _ => keeps_pure _ _

/-- **What `merge::submit` does on an unmoved HEAD**: it applies the overlay and the deletions of the manifest. -/
theorem mergeSubmit_spec {V : Files} {d₀ : Disk} (hrep : Disk.Rep m.id d₀ w.fs.1 V) (ha : w.vai.IsActive m)
    (hhead : w.vai.head = m.baseVersion) (hnew : Merge.Wrote (fun _ => False) w.fs) :
    Ends (Merge.submit env (tracedDisk env)) w (fun _ w' =>
      (∀ p, w'.fs.1.base.get p = Diff.overlaid V ((w.vai.deleted.get m.id).getD []) p) ∧
      ∀ p, .writeFile (baseKey p) ∈ w'.fs.2 ↔ (V (.overlay p)).isSome) (fun _ _ => True) := by
  have C : (diskMergeFs env m.id).Contract (Disk.Rep m.id d₀) (env.FsFaulty ∨ env.Faulty) :=
    (diskMergeFs_contract env m.id d₀).mono .inl
  unfold Merge.submit
  refine Ends.bind (active_spec ha) (fun _ _ _ => trivial) ?_
  rintro m' w₁ ⟨hf₁, rfl, hv₁⟩
  refine Ends.bind (ends_onVai_of_ok rfl) (fun _ _ _ => trivial) ?_
  rintro _ w₂ ⟨hf₂, rfl, hv₂⟩
  have hvai : w₂.vai = w.vai := hv₂.trans hv₁
  have hfs : w₂.fs = w.fs := hf₂.trans hf₁
  have hact : w₂.vai.IsActive m' := by rw [hvai]; exact ha
  have hhead₂ : w₂.vai.head = m'.baseVersion := by rw [hvai]; exact hhead
  have hrep₂ : Disk.Rep m'.id d₀ w₂.fs.1 V := by rw [hfs]; exact hrep
  dsimp only
  rw [hv₁]
  refine ((Merge.submitWithFs_spec (Merge.traced_contract C) .inr hrep₂ hact _).and
    (Merge.submitWithFs_wrote C hrep₂ hact hhead₂ (by rw [hfs]; exact hnew))).mono
    (fun r w' h => ⟨fun p => ?_, fun p => ?_⟩) fun _ _ _ => trivial
  · refine (congrFun h.1.2.1.files.files (.base p)).trans ?_
    exact Merge.tree_of_eq hhead₂ p
  · exact (h.2 p).trans (or_iff_right id)

/-- What a local submit that went through has shown and done. -/
theorem submit_spec {V : Files} (hrep : Disk.Rep m.id w.fs.1 w.fs.1 V) (ha : w.vai.IsActive m) (hnew : w.fs.2 = [])
    (hopen : openExisting env (tracedDisk env) .onDisk w = (.ok fw, w₀)) (hplan : fw.plan env w₀ = (.ok pl, w₁))
    (hsubmit : fw.submit env (tracedDisk env) w₀ = (.ok a, w₂)) :
    (∃ d, Shows env fw V w.vai d pl) ∧ fw.deletedPaths = deletions m w.vai ∧
      (∀ p, w₂.fs.1.base.get p = Diff.overlaid V ((w.vai.deleted.get m.id).getD []) p) ∧
      ∀ p, .writeFile (baseKey p) ∈ w₂.fs.2 ↔ (V (.overlay p)).isSome := by
  obtain ⟨hf₀, hv₀, rfl, hfs, hD, hb, hpush⟩ := (openExisting_spec ha .onDisk).ok hopen
  have hoverlay : fw.plan env = planOverlay env fw := by
    unfold Opened.plan
    rw [hpush, if_neg Bool.false_ne_true]
  rw [hoverlay] at hplan
  have C : fw.mergeFs.Contract (fun s V => Disk.Rep fw.wsMeta.id w.fs.1 s.1 V) env.FsFaulty := by
    rw [hfs]
    exact Merge.traced_contract (diskMergeFs_contract env fw.wsMeta.id w.fs.1)
  obtain ⟨hrep₁, d, hv₁, hshows⟩ := (planOverlay_spec C (by rw [hf₀]; exact hrep) (by rw [hv₀]; exact ha) hb).ok hplan
  have hstart : Merge.Wrote (fun _ => False) w₀.fs := fun p => by rw [hf₀, hnew]; simp
  have hwrote := ((planOverlay_keeps env hfs hb).ends hstart).ok hplan
  rw [hv₀] at hv₁ hshows
  refine ⟨⟨d, hshows⟩, hD, ?_⟩
  -- the submit makes the same plan, and goes on only because HEAD has not moved
  unfold Opened.submit at hsubmit
  rw [hoverlay, bind_of_ok hplan] at hsubmit
  split at hsubmit
  · rename_i hempty
    have hhead : w.vai.head = fw.wsMeta.baseVersion := by
      rw [hshows.surprises] at hempty
      unfold drift at hempty
      by_contra hne
      rw [if_pos hne] at hempty
      cases hempty
    unfold doSubmit at hsubmit
    split at hsubmit
    · cases hsubmit
    rw [hb] at hsubmit
    obtain ⟨r, w', hr, hpure⟩ := bind_eq_ok.1 hsubmit
    cases hpure
    obtain ⟨m', ha', hid, hbase⟩ := active_recorded ha d
    have hdone := (@mergeSubmit_spec env _ _ _ _ (by rw [hid]; exact hrep₁) (by rw [hv₁]; exact ha')
      (by rw [hv₁, Diff.recorded_head, hhead, hbase]) hwrote).ok (engine_ok hr)
    rw [hv₁, Diff.recorded_deleted, hid] at hdone
    exact hdone
  · cases hsubmit

/-- **When a submit is what the plan shows**: a local submit on an unmoved HEAD removes the existing files of `Plan::dels`
and writes those of `Plan::adds` and `Plan::mods` exactly when every path that stands in `meta.toml` only has no file. -/
theorem submit_as_planned_iff (ha : w.vai.IsActive m) (hnew : w.fs.2 = [])
    (hopen : openExisting env (tracedDisk env) .onDisk w = (.ok fw, w₀)) (hplan : fw.plan env w₀ = (.ok pl, w₁))
    (hsubmit : fw.submit env (tracedDisk env) w₀ = (.ok a, w₂)) :
    AsPlanned pl w.fs.1.base.get w₂.fs.1.base.get w₂.fs.2 ↔
      ∀ p ∈ m.deletedPaths, p ∉ (w.vai.deleted.get m.id).getD [] → w.fs.1.base.get p = none := by
  obtain ⟨⟨d, hshows⟩, hD, htree, hwrites⟩ := submit_spec (Disk.rep_self m.id w.fs.1) ha hnew hopen hplan hsubmit
  have hdels : ∀ p, p ∈ pl.dels ↔ p ∈ (w.vai.deleted.get m.id).getD [] ∨ p ∈ m.deletedPaths := fun p => by
    rw [hshows.dels, hD, mem_deletions]
  have hgone : ∀ p, (w.fs.1.base.get p).isSome → (w₂.fs.1.base.get p = none ↔ p ∈ (w.vai.deleted.get m.id).getD []) := by
    intro p hp
    rw [htree p, Diff.overlaid]
    by_cases hman : p ∈ (w.vai.deleted.get m.id).getD []
    · simp [hman]
    · rw [if_neg hman]
      refine ⟨fun hnone => ?_, fun h => absurd h hman⟩
      split at hnone
      · rename_i hov
        rw [hnone] at hov
        cases hov
      · have hbase : w.fs.1.base.get p = none := hnone
        rw [hbase] at hp
        cases hp
  constructor
  · intro h p hmeta hman
    by_contra hne
    have hsome : (w.fs.1.base.get p).isSome := Option.isSome_iff_ne_none.2 hne
    have hremoved := ((h.removed p).2 ⟨(hdels p).2 (.inr hmeta), hsome⟩).2
    exact hman ((hgone p hsome).1 hremoved)
  · intro h
    refine ⟨fun p => ?_, fun p => ?_, fun p => ?_⟩
    · constructor
      · exact fun hp => ⟨(hdels p).2 (.inl ((hgone p hp.1).1 hp.2)), hp.1⟩
      · rintro ⟨hdel, hsome⟩
        refine ⟨hsome, (hgone p hsome).2 ?_⟩
        by_contra hman
        have hnone := h p (((hdels p).1 hdel).resolve_left hman) hman
        rw [hnone] at hsome
        cases hsome
    · rw [hwrites p, hshows.adds p]
      exact Iff.rfl
    · rw [hwrites p, hshows.mods p]
      exact Iff.rfl

end Submit

/-! ## Two workspaces -/

/-- A repository with the files `a` and `b`, in which workspace 1 rewrites `b` and names `field` in `meta.toml` and
`manifest` in `.vai-deleted`. -/
def twoSources (field manifest : List Path) : World (Disk × List FsWrite) where
  fs := ({ base := FMap.ofList [(['a'], [1]), (['b'], [2])], overlay := fun _ => FMap.ofList [(['b'], [3])],
            snapshot := fun _ => ∅, ops := 0 }, [])
  vai := { VaiDir.withWorkspaces [{ WorkspaceMeta.fresh 1 1 with deletedPaths := field }] with
           deleted := FMap.ofList [(1, manifest)] }
  ops := 0

/-- Workspace 1 of it, as it is opened. -/
def openedTwo (field deletedPaths : List Path) : Opened (Disk × List FsWrite) :=
  { wsMeta := { WorkspaceMeta.fresh 1 1 with deletedPaths := field }, mergeFs := tracedDisk Env.plain 1, deletedPaths,
    backend := .onDisk, isPushFromRoot := false, pushed := notPushed deletedPaths }

theorem open_twoSources (field manifest : List Path) :
    openExisting Env.plain (tracedDisk Env.plain) .onDisk (twoSources field manifest) =
      (.ok (openedTwo field ((manifest ++ field).foldl pushNew [])), { twoSources field manifest with ops := 4 }) := rfl

theorem active_twoSources (field manifest : List Path) :
    (twoSources field manifest).vai.IsActive { WorkspaceMeta.fresh 1 1 with deletedPaths := field } := ⟨rfl, rfl⟩

/-- What is planned and submitted of it. -/
def planTwo (field manifest : List Path) : Except FwError Plan × World (Disk × List FsWrite) :=
  (openedTwo field ((manifest ++ field).foldl pushNew [])).plan Env.plain { twoSources field manifest with ops := 4 }

def submitTwo (field manifest : List Path) : Except FwError Applied × World (Disk × List FsWrite) :=
  (openedTwo field ((manifest ++ field).foldl pushNew [])).submit Env.plain (tracedDisk Env.plain)
    { twoSources field manifest with ops := 4 }

/-- A deletion that both sources have is planned and made. -/
theorem submit_as_planned_iff_agreeing : ∃ pl w₁ a w₂, planTwo [['a']] [['a']] = (.ok pl, w₁) ∧
    submitTwo [['a']] [['a']] = (.ok a, w₂) ∧
    AsPlanned pl (twoSources [['a']] [['a']]).fs.1.base.get w₂.fs.1.base.get w₂.fs.2 := by
  have hplan : (planTwo [['a']] [['a']]).1.isOk := by decide +kernel
  have hsubmit : (submitTwo [['a']] [['a']]).1.isOk := by decide +kernel
  rcases hp : planTwo [['a']] [['a']] with ⟨e | pl, w₁⟩
  · rw [hp] at hplan
    cases hplan
  rcases hs : submitTwo [['a']] [['a']] with ⟨e | a, w₂⟩
  · rw [hs] at hsubmit
    cases hsubmit
  refine ⟨pl, w₁, a, w₂, rfl, rfl, ?_⟩
  exact (submit_as_planned_iff (active_twoSources _ _) rfl (open_twoSources _ _) hp hs).2
    fun p hp hno => absurd hp hno

/-- A deletion that only `meta.toml` has is planned and not made. -/
theorem deletion_in_meta_is_kept : ∃ pl w₁ a w₂, planTwo [['a']] [] = (.ok pl, w₁) ∧
    submitTwo [['a']] [] = (.ok a, w₂) ∧ pl.dels = [['a']] ∧ w₂.fs.1.base.get ['a'] = some [1] ∧
    ¬ AsPlanned pl (twoSources [['a']] []).fs.1.base.get w₂.fs.1.base.get w₂.fs.2 := by
  have hplan : (planTwo [['a']] []).1.map Plan.dels = .ok [['a']] := by decide +kernel
  have hsubmit : (submitTwo [['a']] []).1.isOk := by decide +kernel
  have hkept : (submitTwo [['a']] []).2.fs.1.base.get ['a'] = some [1] := by decide +kernel
  rcases hp : planTwo [['a']] [] with ⟨e | pl, w₁⟩
  · rw [hp] at hplan
    cases hplan
  rcases hs : submitTwo [['a']] [] with ⟨e | a, w₂⟩
  · rw [hs] at hsubmit
    cases hsubmit
  rw [hp] at hplan
  rw [hs] at hkept
  have hdels : pl.dels = [['a']] := Except.ok.inj hplan
  refine ⟨pl, w₁, a, w₂, rfl, rfl, hdels, hkept, fun h => ?_⟩
  have hgone := ((h.removed ['a']).2 ⟨by rw [hdels]; exact List.mem_singleton_self _, rfl⟩).2
  rw [hkept] at hgone
  cases hgone

end FileWorkspace
end Vai
