import Vai.MergeFs
/-!
# Disk — the local file system of the merge engine

`DiskMergeFs` of `merge_fs.rs`.  A disk holds the repository root, one overlay per workspace and one snapshot directory
per version, each a finite map from relative paths to bytes: directories are not represented, so a path names a file or
nothing, and creating the parents of a file has no effect of its own.  `read_dir` lists in the order `Env.dirOrder`
gives.  Reading, writing, listing and removing are one operation each, which fails without effect where `Env.fsFault`
says so; `Path::exists` answers and never fails.

`diskMergeFs_contract`: the disk is the plain map its engine believes in, and no call for one workspace reaches the
overlay of another.
-/
namespace Vai

open Proc

structure Disk where
  base : FMap Path Bytes
  overlay : Uuid → FMap Path Bytes
  snapshot : Text → FMap Path Bytes
  ops : Nat

namespace Disk

variable (ws : Uuid)

def get (d : Disk) : Place → Option Bytes
  | .overlay p => (d.overlay ws).get p
  | .base p => d.base.get p
  | .snapshot ver p => (d.snapshot ver).get p

def put (d : Disk) (pl : Place) (c : Option Bytes) : Disk :=
  match pl with
  | .overlay p => { d with overlay := Function.update d.overlay ws ((d.overlay ws).put p c) }
  | .base p => { d with base := d.base.put p c }
  | .snapshot ver p => { d with snapshot := Function.update d.snapshot ver ((d.snapshot ver).put p c) }

def paths (d : Disk) : Root → List Path
  | .overlay => (d.overlay ws).keys
  | .base => d.base.keys
  | .snapshot ver => (d.snapshot ver).keys

/-- One operation of the operating system. -/
def tick (env : Env) : Proc Disk IoError Unit := fun d =>
  (if env.fsFault d.ops then .error ⟨.other, "I/O error".toList⟩ else .ok (), { d with ops := d.ops + 1 })

def readFile (env : Env) (key : Text) : Proc Disk IoError Bytes := do
  let pl ← ofExcept id (resolveKey key)
  tick env
  match ← Proc.read (fun d => d.get ws pl) with
  | some c => pure c
  | none => fail ⟨.notFound, "No such file or directory".toList⟩

def writeFile (env : Env) (key : Text) (content : Bytes) : Proc Disk IoError Unit := do
  let pl ← ofExcept id (resolveKey key)
  tick env
  Proc.modify (fun d => d.put ws pl (some content))

def listFiles (env : Env) (pre : Text) : Proc Disk IoError (List Text) := do
  let root ← ofExcept id (resolvePrefix "snapshot prefix must include a version id (e.g. 'snapshot/v2/')".toList pre)
  tick env
  let l ← Proc.read (fun d => env.dirOrder (d.paths ws root))
  pure (l.map (root.keyPrefix ++ ·))

def fileExists (key : Text) : Proc Disk IoError Bool := do
  let pl ← ofExcept id (resolveKey key)
  Proc.read (fun d => (d.get ws pl).isSome)

def deleteFile (env : Env) (key : Text) : Proc Disk IoError Unit := do
  let pl ← ofExcept id (resolveKey key)
  if ← Proc.read (fun d => (d.get ws pl).isSome) then
    tick env
    Proc.modify (fun d => d.put ws pl none)
  else pure ()

end Disk

/-- `DiskMergeFs::new` for the workspace `ws`. -/
def diskMergeFs (env : Env) (ws : Uuid) : MergeFs Disk where
  readFile := Disk.readFile ws env
  writeFile := Disk.writeFile ws env
  listFiles := Disk.listFiles ws env
  fileExists := Disk.fileExists ws
  deleteFile := Disk.deleteFile ws env

namespace Disk

variable {ws : Uuid} {env : Env} {d d₀ : Disk} {V : Files}

/-- The files the engine sees of a disk. -/
def files (ws : Uuid) (d : Disk) : Files := fun k => d.get ws k.place

theorem get_put (d : Disk) (pl q : Place) (c : Option Bytes) :
    (d.put ws pl c).get ws q = if q = pl then c else d.get ws q := by
  cases pl <;> cases q <;> simp only [put, get, Place.overlay.injEq, Place.base.injEq, Place.snapshot.injEq, reduceCtorEq,
    if_false, Function.update_self, FMap.get_put]
  rename_i ver p ver' p'
  by_cases hv : ver' = ver
  · subst hv; simp [FMap.get_put]
  · simp [hv]

theorem mem_paths_overlay (p : Path) : p ∈ d.paths ws .overlay ↔ (d.files ws (.overlay p)).isSome := FMap.mem_keys
theorem mem_paths_snapshot (n : Nat) (p : Path) :
    p ∈ d.paths ws (.snapshot (versionName n)) ↔ (d.files ws (.snapshot n p)).isSome := FMap.mem_keys

theorem nodup_paths (d : Disk) (r : Root) : (d.paths ws r).Nodup := by
  cases r <;> exact AList.keys_nodup _

/-- The disk `d` holds the files `V`; what the workspace's engine cannot address is as on `d₀`. -/
structure Rep (ws : Uuid) (d₀ d : Disk) (V : Files) : Prop where
  files : d.files ws = V
  overlays : ∀ i, i ≠ ws → d.overlay i = d₀.overlay i
  snapshots : ∀ ver, (∀ n, ver ≠ versionName n) → d.snapshot ver = d₀.snapshot ver

theorem rep_self (ws : Uuid) (d : Disk) : Rep ws d d (d.files ws) := ⟨rfl, fun _ _ => rfl, fun _ _ => rfl⟩

theorem Rep.put (h : Rep ws d₀ d V) (k : Slot) (c : Option Bytes) : Rep ws d₀ (d.put ws k.place c) (V.set k c) where
  files := by
    funext j
    rw [Disk.files, get_put, Files.set_apply]
    by_cases hj : j = k
    · simp [hj]
    · rw [if_neg hj, if_neg (fun hp => hj (Slot.place_injective hp)), ← h.files]
      rfl
  overlays i hi := by
    rw [← h.overlays i hi]
    cases k
    · exact Function.update_of_ne hi _ _
    · rfl
    · rfl
  snapshots ver hv := by
    rw [← h.snapshots ver hv]
    cases k with
    | overlay p => rfl
    | base p => rfl
    | snapshot n p => exact Function.update_of_ne (hv n) _ _

theorem tick_spec (h : Rep ws d₀ d V) : Ends (tick env) d (fun _ d' => Rep ws d₀ d' V)
    (fun _ d' => Rep ws d₀ d' V ∧ env.FsFaulty) := by
  have h' : Rep ws d₀ { d with ops := d.ops + 1 } V := ⟨h.files, h.overlays, h.snapshots⟩
  unfold Ends tick
  by_cases hi : env.fsFault d.ops
  · simp only [hi, if_true]
    exact ⟨h', d.ops, hi⟩
  · simp only [hi]
    exact h'

theorem listFiles_spec (h : Rep ws d₀ d V) (pre : Text) (r : Root)
    (hr : resolvePrefix "snapshot prefix must include a version id (e.g. 'snapshot/v2/')".toList pre = .ok r) :
    Ends (listFiles ws env pre) d (fun keys d' => Rep ws d₀ d' V ∧ ∃ l : List Path, keys = l.map (r.keyPrefix ++ ·) ∧
      l.Nodup ∧ ∀ p, p ∈ l ↔ p ∈ d'.paths ws r) (fun _ _ => env.FsFaulty) := by
  unfold listFiles
  rw [hr]
  refine ends_bind (ends_pure ?_)
  refine Ends.bind (tick_spec h) (fun _ _ h => h.2) fun _ d₁ h₁ => ?_
  refine ends_bind (ends_read (ends_pure ⟨h₁, _, rfl, ?_, fun p => (env.dirOrderPerm _).mem_iff⟩))
  exact ((env.dirOrderPerm _).nodup_iff).2 (nodup_paths d₁ r)

end Disk

/-- **The disk is the map the engine believes in.** -/
theorem diskMergeFs_contract (env : Env) (ws : Uuid) (d₀ : Disk) :
    (diskMergeFs env ws).Contract (Disk.Rep ws d₀) env.FsFaulty where
  readFile {d V} h k _ := by
    show Ends (Disk.readFile ws env k.key) d _ _
    unfold Disk.readFile
    rw [Slot.resolve_bind]
    refine Ends.bind (Disk.tick_spec h) (fun _ _ h => ⟨h.1, .inl h.2⟩) fun _ d₁ h₁ => ?_
    refine ends_bind (ends_read ?_)
    have hk : d₁.get ws k.place = V k := congrFun h₁.files k
    rw [hk]
    cases hc : V k with
    | none => exact ends_fail ⟨h₁, .inr rfl⟩
    | some c => exact ends_pure ⟨h₁, rfl⟩
  writeFile {d V} h k c _ := by
    show Ends (Disk.writeFile ws env k.key c) d _ _
    unfold Disk.writeFile
    rw [Slot.resolve_bind]
    refine Ends.bind (Disk.tick_spec h) (fun _ _ h => h.2) fun _ d₁ h₁ => ?_
    exact ends_modify (h₁.put k (some c))
  deleteFile {d V} h k _ := by
    show Ends (Disk.deleteFile ws env k.key) d _ _
    unfold Disk.deleteFile
    rw [Slot.resolve_bind]
    refine ends_bind (ends_read ?_)
    have hk : d.get ws k.place = V k := congrFun h.files k
    rw [hk]
    split
    · refine Ends.bind (Disk.tick_spec h) (fun _ _ h => h.2) fun _ d₁ h₁ => ?_
      exact ends_modify (h₁.put k none)
    · rename_i hn
      have hset : V.set k none = V := by
        funext j
        rw [Files.set_apply]
        split
        · subst j; exact (Option.not_isSome_iff_eq_none.1 hn).symm
        · rfl
      exact ends_pure (by rwa [hset])
  fileExists {d V} h k _ := by
    show Ends (Disk.fileExists ws k.key) d _ _
    unfold Disk.fileExists
    rw [Slot.resolve_bind]
    exact ends_read ⟨h, by rw [← h.files]; rfl⟩
  listOverlay {d V} h := by
    refine (Disk.listFiles_spec h overlayPrefix .overlay rfl).mono ?_ (fun _ _ h => h)
    rintro keys d' ⟨h', l, hk, hnd, hl⟩
    exact ⟨h', l, hk, hnd, fun p => by rw [hl, Disk.mem_paths_overlay, h'.files]⟩
  listSnapshot {d V} h n := by
    refine (Disk.listFiles_spec h (snapshotPrefix (versionName n)) (.snapshot (versionName n))
      (resolvePrefix_snapshot (slash_not_mem_versionName n) (by simp [versionName]) _)).mono ?_ (fun _ _ h => h)
    rintro keys d' ⟨h', l, hk, hnd, hl⟩
    exact ⟨h', l, hk, hnd, fun p => by rw [hl, Disk.mem_paths_snapshot, h'.files]⟩

end Vai
