import Vai.PlanExact
/-!
# ServerFiles — a workspace against the server's files

With a server behind it, a `FileWorkspace` compares the server's file list with its own base directory and overlay: in
`plan`, to find files it has not pulled, and in `pull`, to download what it lacks.

`plan_surprises_iff`: in a workspace that is up to date the plan reports surprises exactly when the workspace deletes a file
that the server has.  `pull_reaches_iff`: a pull brings the base directory to the server's version exactly when nothing
but whole files is missing there.
-/
namespace Vai
namespace FileWorkspace

open Proc

variable {env : Env} {i : Uuid} {d₀ : Disk} {V : Files} {w w' : World Disk} {fw : Opened Disk} {remote : RemoteRepo}

/-! ## Listings -/

theorem stripKey_append (pre : Text) (p : Path) : stripKey pre (pre ++ p) = p := by
  unfold stripKey
  rw [Text.stripPrefix_append]
  rfl

theorem listPaths_spec (h : Disk.Rep i d₀ w.fs V) (pre : Text) (r : Root) (hpre : r.keyPrefix = pre)
    (hr : resolvePrefix "snapshot prefix must include a version id (e.g. 'snapshot/v2/')".toList pre = .ok r) :
    Ends (listPaths (diskMergeFs env i) pre) w (fun paths w' => w'.vai = w.vai ∧ Disk.Rep i d₀ w'.fs V ∧
      ∀ p, p ∈ paths ↔ p ∈ w'.fs.paths i r) (fun _ _ => True) := by
  unfold listPaths
  refine Ends.bind (ends_engine (ends_onFs (ends_io (E := fun _ _ => env.FsFaulty) (Disk.listFiles_spec h pre r hr))))
    (fun _ _ _ => trivial) ?_
  rintro _ w₁ ⟨hv₁, h₁, l, rfl, -, hl⟩
  refine ends_pure ⟨hv₁, h₁, fun p => ?_⟩
  have hstrip : (l.map (r.keyPrefix ++ ·)).map (stripKey pre) = l := by
    rw [List.map_map, ← hpre]
    conv => rhs; rw [← List.map_id l]
    exact List.map_congr_left fun p _ => stripKey_append _ p
  rw [hstrip]
  exact hl p

theorem listBase_spec (h : Disk.Rep i d₀ w.fs V) :
    Ends (listPaths (diskMergeFs env i) basePrefix) w (fun paths w' => w'.vai = w.vai ∧ Disk.Rep i d₀ w'.fs V ∧
      ∀ p, p ∈ paths ↔ (V (.base p)).isSome) (fun _ _ => True) := by
  refine (listPaths_spec h basePrefix .base rfl rfl).mono (fun paths w' hw => ⟨hw.1, hw.2.1, fun p => ?_⟩) fun _ _ h => h
  rw [hw.2.2 p, ← hw.2.1.files]
  exact FMap.mem_keys

theorem listOverlay_spec (h : Disk.Rep i d₀ w.fs V) :
    Ends (listPaths (diskMergeFs env i) overlayPrefix) w (fun paths w' => w'.vai = w.vai ∧ Disk.Rep i d₀ w'.fs V ∧
      ∀ p, p ∈ paths ↔ (V (.overlay p)).isSome) (fun _ _ => True) := by
  refine (listPaths_spec h overlayPrefix .overlay rfl rfl).mono (fun paths w' hw => ⟨hw.1, hw.2.1, fun p => ?_⟩)
    fun _ _ h => h
  rw [hw.2.2 p, Disk.mem_paths_overlay, hw.2.1.files]

theorem mem_pathSet {paths : List Path} {p : Path} : p ∈ pathSet env paths ↔ p ∈ paths := by
  unfold pathSet
  rw [Env.mem_hashOrder, List.mem_dedup]

theorem nodup_pathSet (env : Env) (paths : List Path) : (pathSet env paths).Nodup :=
  (env.hashOrderPerm _).nodup_iff.2 (List.nodup_dedup paths)

/-! ## Surprises -/

section Surprises

variable {files : List Path} {head : Text} {pl : Plan} {p : Path}

/-- The server files among `local`, one surprise each for those that are not. -/
theorem count_missing {missing : List Path} (hnodup : missing.Nodup) (hp : p ∈ missing) :
    (missing.map Surprise.serverHasFileLocalDoesNot).count (.serverHasFileLocalDoesNot p) = 1 := by
  rw [List.count_map_of_injective _ _ (fun _ _ h => Surprise.serverHasFileLocalDoesNot.inj h)]
  exact List.count_eq_one_of_mem hnodup hp

theorem count_drift (fw : Opened Disk) (head : Text) (p : Path) :
    (drift fw head).count (.serverHasFileLocalDoesNot p) = 0 := by
  unfold drift
  split <;> simp

/-- The workspace has the file and does not delete it; a push looks at the base directory only. -/
def Known (fw : Opened Disk) (V : Files) (p : Path) : Prop :=
  ((V (.base p)).isSome ∨ fw.isPushFromRoot = false ∧ (V (.overlay p)).isSome) ∧ p ∉ fw.deletedPaths

/-- The surprises of a plan: whether HEAD has moved, and the server files that are not known, once each. -/
structure Reports (fw : Opened Disk) (V : Files) (head : Text) (files : List Path) (pl : Plan) (missing : List Path) :
    Prop where
  surprises : pl.surprises = drift fw head ++ missing.map .serverHasFileLocalDoesNot
  once : missing.Nodup
  mem : ∀ p, p ∈ missing ↔ p ∈ files ∧ ¬ Known fw V p

variable (hfs : fw.mergeFs = diskMergeFs env fw.wsMeta.id) (hhead : remote.headVersion = .ok head)
variable (hfiles : remote.listHeadFiles = .ok files) (h : Disk.Rep fw.wsMeta.id d₀ w.fs V)
include hfs hhead hfiles h

theorem planRepoRootPush_spec (hpush : fw.isPushFromRoot = true) :
    Ends (planRepoRootPush env fw remote) w (fun pl _ => ∃ missing, Reports fw V head files pl missing) (fun _ _ => True) := by
  unfold planRepoRootPush
  rw [hhead, hfiles, hfs]
  refine ends_bind (ends_pure (ends_bind (ends_pure ?_)))
  refine Ends.bind (listBase_spec h) (fun _ _ h => h) fun localFiles w₁ ⟨_, _, hmem⟩ => ?_
  refine ends_pure ⟨_, rfl, ?_, fun p => ?_⟩
  · exact (List.perm_insertionSort _ _).nodup_iff.2 ((nodup_pathSet env files).filter _)
  · rw [List.mem_insertionSort, List.mem_filter, mem_pathSet, decide_eq_true_eq, hmem p]
    simp [Known, hpush, fw.pushed hpush]

theorem planOverlay_remote (hpush : fw.isPushFromRoot = false) (hb : fw.backend = .onServer remote) :
    Ends (planOverlay env fw) w (fun pl _ => ∃ missing, Reports fw V head files pl missing) (fun _ _ => True) := by
  unfold planOverlay
  rw [hb, hfs]
  refine Ends.bind (ends_engine (ends_onFs (Diff.computeWithFs_spec (diskMergeFs_contract env fw.wsMeta.id d₀) h _ _
    (Files.within_all _ _))))
    (fun _ _ h => h) ?_
  rintro d w₁ ⟨-, h₁, -⟩
  refine Ends.bind (R := fun v w' => v = head ∧ w' = w₁) (F := fun _ _ => True)
    (by dsimp only [headOf]; rw [hhead]; exact ends_pure ⟨rfl, rfl⟩) (fun _ _ h => h) ?_
  rintro _ _ ⟨rfl, rfl⟩
  refine Ends.bind (R := fun surprises _ => ∃ missing : List Path, surprises = missing.map .serverHasFileLocalDoesNot ∧
    missing.Nodup ∧ ∀ p, p ∈ missing ↔ p ∈ files ∧ ¬ Known fw V p) (F := fun _ _ => True) ?_ (fun _ _ h => h) ?_
  · dsimp only [unpulled]
    rw [hfiles, hfs]
    refine ends_bind (ends_pure (Ends.bind (listBase_spec h₁) (fun _ _ h => h) fun localBase w₂ ⟨_, h₂, hbase⟩ => ?_))
    refine Ends.bind (listOverlay_spec h₂) (fun _ _ h => h) fun localOverlay w₃ ⟨_, _, hoverlay⟩ => ?_
    refine ends_pure ⟨_, rfl, (nodup_pathSet env files).filter _, fun p => ?_⟩
    rw [List.mem_filter, mem_pathSet, decide_eq_true_eq, List.mem_filter, List.mem_append, hbase p, hoverlay p,
      decide_eq_true_eq]
    simp [Known, hpush]
  · rintro _ w₂ ⟨missing, rfl, honce, hmem⟩
    exact ends_bind (ends_pure (ends_pure ⟨missing, rfl, honce, hmem⟩))

theorem plan_remote (hb : fw.backend = .onServer remote) :
    Ends (fw.plan env) w (fun pl _ => ∃ missing, Reports fw V head files pl missing) (fun _ _ => True) := by
  unfold Opened.plan
  cases hpush : fw.isPushFromRoot with
  | true =>
    rw [if_pos rfl, hb]
    exact planRepoRootPush_spec hfs hhead hfiles h hpush
  | false =>
    rw [if_neg Bool.false_ne_true]
    exact planOverlay_remote hfs hhead hfiles h hpush hb

omit hfs hhead hfiles h

/-- The base version is the server's HEAD, and the base directory has the server's files. -/
structure InSync (fw : Opened Disk) (head : Text) (files : List Path) (V : Files) : Prop where
  head : fw.wsMeta.baseVersion = head
  files : ∀ p, (V (.base p)).isSome ↔ p ∈ files

/-- Only a plan's surprises make a submit answer with surprises. -/
theorem doSubmit_fails (env : Env) (fw : Opened Disk) (fsOf : Uuid → MergeFs Disk) (pl : Plan) :
    FailsOnly (fun e => ∀ pl', e ≠ .surprises pl') (doSubmit env fw fsOf pl) := by
  have hengine : ∀ {α : Type} (p : Proc (World Disk) MergeError α),
      FailsOnly (fun e => ∀ pl', e ≠ .surprises pl') (engine p) := fun p => failsOnly_mapErr (fun e pl' h => by cases h) p
  have hremote : ∀ {α : Type} (r : Except RemoteFailure α), FailsOnly (fun e => ∀ pl', e ≠ .surprises pl')
      (ofExcept RemoteFailure.toFwError r : Proc (World Disk) FwError α) := by
    intro α r
    cases r with
    | ok a => exact failsOnly_pure _ _
    | error e => exact failsOnly_fail fun pl' h => by cases e <;> cases h
  unfold doSubmit
  split
  · exact failsOnly_fail fun pl' h => by cases h
  · cases fw.backend with
    | onDisk => exact (hengine _).bind fun _ => failsOnly_pure _ _
    | onServer remote =>
      refine (hremote _).bind fun snapshot => (hremote _).bind fun submitted => (hengine _).bind fun _ => ?_
      refine FailsOnly.bind ?_ fun _ => failsOnly_pure _ _
      unfold storeSubmitted
      split
      · exact failsOnly_pure _ _
      · exact hengine _

/-- **When surprises are real.**  An up-to-date workspace is planned without a surprise and not refused for one, and every
server file that is in neither base, overlay nor deletion list is reported once, if and only if an up-to-date workspace
deletes no file that the server has. -/
theorem plan_surprises_iff (fsOf : Uuid → MergeFs Disk) (hfs : fw.mergeFs = diskMergeFs env fw.wsMeta.id)
    (hb : fw.backend = .onServer remote) (hhead : remote.headVersion = .ok head)
    (hfiles : remote.listHeadFiles = .ok files) (hplan : fw.plan env w = (.ok pl, w')) :
    ((InSync fw head files (w.fs.files fw.wsMeta.id) →
        pl.surprises = [] ∧ ∀ pl', (fw.submit env fsOf w).1 ≠ .error (.surprises pl')) ∧
      ∀ p ∈ files, w.fs.base.get p = none → (w.fs.overlay fw.wsMeta.id).get p = none → p ∉ fw.deletedPaths →
        pl.surprises.count (.serverHasFileLocalDoesNot p) = 1) ↔
    (InSync fw head files (w.fs.files fw.wsMeta.id) → ∀ p ∈ fw.deletedPaths, p ∉ files) := by
  obtain ⟨missing, hsurprises, honce, hmem⟩ := (plan_remote hfs hhead hfiles (Disk.rep_self _ w.fs) hb).ok hplan
  constructor
  · intro hreal hsync p hdel hp
    have hnone := (hreal.1 hsync).1
    rw [hsurprises, List.append_eq_nil_iff, List.map_eq_nil_iff] at hnone
    have hin : p ∈ missing := (hmem p).2 ⟨hp, fun hk => hk.2 hdel⟩
    rw [hnone.2] at hin
    cases hin
  · intro hkeeps
    refine ⟨fun hsync => ?_, fun p hp hbase hover hdel => ?_⟩
    · have hempty : missing = [] := List.eq_nil_iff_forall_not_mem.2 fun p hp => by
        obtain ⟨hfile, hunknown⟩ := (hmem p).1 hp
        exact hunknown ⟨.inl ((hsync.files p).2 hfile), fun hdel => hkeeps hsync p hdel hfile⟩
      have hnone : pl.surprises = [] := by
        rw [hsurprises, hempty, drift, hsync.head]
        simp
      refine ⟨hnone, fun pl' hrefused => ?_⟩
      have hgo : pl.surprises.isEmpty = true := by
        rw [hnone]
        rfl
      unfold Opened.submit at hrefused
      rw [bind_of_ok hplan, if_pos hgo] at hrefused
      exact doSubmit_fails env fw fsOf pl w' _ _ (Prod.ext hrefused rfl) pl' rfl
    · rw [hsurprises, List.count_append, count_drift, Nat.zero_add]
      refine count_missing honce ((hmem p).2 ⟨hp, fun hk => ?_⟩)
      rcases hk.1 with hs | ⟨-, hs⟩
      · have hb : w.fs.files fw.wsMeta.id (.base p) = none := hbase
        rw [hb] at hs
        cases hs
      · have ho : w.fs.files fw.wsMeta.id (.overlay p) = none := hover
        rw [ho] at hs
        cases hs

end Surprises

/-! ## Pull -/

section Pull

variable {m m' : WorkspaceMeta} {w₀ : World Disk} {v : Text} {S : Path → Option Bytes} {force : Bool} {a : Applied} {p : Path}

/-- The server is at version `v` with the files `S`, lists them, and sends what it is asked for. -/
structure Serves (remote : RemoteRepo) (v : Text) (S : Path → Option Bytes) : Prop where
  head : remote.headVersion = .ok v
  files : ∃ files, remote.listHeadFiles = .ok files ∧ ∀ p, p ∈ files ↔ (S p).isSome
  sends : ∀ paths l, remote.downloadFiles paths = .ok l → l.map Prod.fst = paths ∧ ∀ q ∈ l, S q.1 = some q.2

/-- A file of the server is neither in the base directory nor in the overlay. -/
def Lacks (V : Files) (S : Path → Option Bytes) (p : Path) : Prop :=
  (S p).isSome ∧ V (.base p) = none ∧ V (.overlay p) = none

/-- The base directory after a pull: what was not there at all has been downloaded. -/
def pulled (V : Files) (S : Path → Option Bytes) (p : Path) : Option Bytes :=
  if V (.base p) = none ∧ V (.overlay p) = none then S p else V (.base p)

/-- **What a pull does**: nothing when no file is lacking; otherwise the lacking files arrive and the version is recorded. -/
theorem doPull_spec (hserves : Serves remote v S) (hfs : fw.mergeFs = diskMergeFs env i) (hi : fw.wsMeta.id = i)
    (hrecord : (w.vai.workspaces.get i).isSome) (h : Disk.Rep i d₀ w.fs V) :
    Ends (doPull env fw remote force) w (fun r w' => r.1.version = v ∧ Disk.Rep i d₀ w'.fs (V.withBase (pulled V S)) ∧
      ((¬ ∃ p, Lacks V S p) ∧ r.2 = fw.wsMeta ∧ w'.vai = w.vai ∨
        (∃ p, Lacks V S p) ∧ r.2 = { fw.wsMeta with baseVersion := v } ∧ w'.vai = { w.vai with
          workspaces := w.vai.workspaces.insert i { fw.wsMeta with baseVersion := v }, head := v })) (fun _ _ => True) := by
  obtain ⟨files, hlist, hfiles⟩ := hserves.files
  unfold doPull
  rw [hserves.head, hlist, hfs]
  refine ends_bind (ends_pure (ends_bind (ends_pure ?_)))
  refine Ends.bind (listBase_spec h) (fun _ _ h => h) fun localBase w₁ ⟨hv₁, h₁, hbase⟩ => ?_
  refine Ends.bind (listOverlay_spec h₁) (fun _ _ h => h) fun localOverlay w₂ ⟨hv₂, h₂, hoverlay⟩ => ?_
  have hmissing : ∀ p, p ∈ files.filter (· ∉ localBase ++ localOverlay) ↔ Lacks V S p := by
    intro p
    rw [List.mem_filter, decide_eq_true_eq, List.mem_append, hbase p, hoverlay p, hfiles p, Lacks]
    simp
  have hvai : w₂.vai = w.vai := hv₂.trans hv₁
  dsimp only
  split
  · rename_i hnone
    have hno : ¬ ∃ p, Lacks V S p := by
      rintro ⟨p, hp⟩
      have hin := (hmissing p).2 hp
      rw [List.isEmpty_iff.1 hnone] at hin
      cases hin
    refine ends_pure ⟨rfl, ?_, .inl ⟨hno, rfl, hvai⟩⟩
    refine Files.withBase_subst (Disk.Rep i d₀ w₂.fs) (g := fun p => V (.base p)) (by rwa [Files.withBase_base]) fun p => ?_
    unfold pulled
    split
    · rename_i hp
      rw [hp.1]
      cases hs : S p with
      | none => rfl
      | some c => exact absurd ⟨p, by rw [hs]; rfl, hp⟩ hno
    · rfl
  · rename_i hsome
    have hlack : ∃ p, Lacks V S p := by
      obtain ⟨p, hp⟩ := List.exists_mem_of_ne_nil _ fun he => hsome (List.isEmpty_iff.2 he)
      exact ⟨p, (hmissing p).1 hp⟩
    cases hdown : remote.downloadFiles (files.filter (· ∉ localBase ++ localOverlay)) with
    | error e => exact ends_fail trivial
    | ok l =>
      obtain ⟨hpaths, hsends⟩ := hserves.sends _ l hdown
      refine ends_bind (ends_pure ?_)
      have hwrite := Merge.writeMerged_spec (diskMergeFs_contract env i d₀) (g := fun p => V (.base p)) (f := S)
        (by rw [Files.withBase_base]; exact h₂) l (fun _ _ => trivial) hsends
      have hwritten : Ends (l.forM (writeBase fw)) w₂.fs (fun _ s => Disk.Rep i d₀ s (V.withBase (pulled V S)))
          (fun _ _ => env.FsFaulty) := by
        have hcalls : writeBase fw = Merge.writeMerged (diskMergeFs env i) := by
          funext q
          rw [writeBase, hfs]
          rfl
        rw [hcalls]
        refine hwrite.mono (fun _ s hs => Files.withBase_subst (Disk.Rep i d₀ s) hs fun p => ?_) fun _ _ h => h
        rw [hpaths]
        unfold pulled
        by_cases hp : Lacks V S p
        · rw [if_pos hp.2, if_pos ((hmissing p).2 hp)]
        · rw [if_neg fun h => hp ((hmissing p).1 h)]
          split
          · rename_i hnone
            rw [hnone.1]
            cases hs : S p with
            | none => rfl
            | some c => exact absurd ⟨by rw [hs]; rfl, hnone⟩ hp
          · rfl
      refine Ends.bind (R := fun _ w' => w'.vai = w.vai ∧ Disk.Rep i d₀ w'.fs (V.withBase (pulled V S))) (F := fun _ _ => True)
        ((ends_engine (ends_onFs hwritten)).mono (fun _ _ hw => ⟨hw.1.trans hvai, hw.2⟩) fun _ _ h => h) (fun _ _ h => h)
        fun _ w₃ ⟨hv₃, h₃⟩ => ?_
      obtain ⟨old, hold⟩ := Option.isSome_iff_exists.1 hrecord
      have hupdate : VaiDir.updateMeta { fw.wsMeta with baseVersion := v } w₃.vai = (.ok (), { w.vai with
          workspaces := w.vai.workspaces.insert i { fw.wsMeta with baseVersion := v } }) := by
        unfold VaiDir.updateMeta
        dsimp only
        rw [hv₃, hi, hold]
      refine Ends.bind (ends_engine (ends_onVai_of_ok hupdate)) (fun _ _ h => h) fun _ w₄ ⟨hf₄, _, hv₄⟩ => ?_
      refine Ends.bind (ends_engine (ends_onVai_of_ok rfl)) (fun _ _ h => h) fun _ w₅ ⟨hf₅, _, hv₅⟩ => ?_
      refine ends_pure ⟨rfl, by rw [hf₅, hf₄]; exact h₃, .inr ⟨hlack, rfl, ?_⟩⟩
      rw [hv₅, hv₄]

/-- What a pull to version `v` with the files `S` has to reach. -/
structure Reaches (i : Uuid) (v : Text) (S : Path → Option Bytes) (force : Bool) (before : Disk) (a : Applied)
    (m' : WorkspaceMeta) (w' : World Disk) : Prop where
  version : a.version = v
  files : ∀ p, (before.overlay i).get p = none → w'.fs.base.get p = S p
  gone : ∀ p, S p = none → w'.fs.base.get p = none
  record : m'.baseVersion = v ∧ (w'.vai.workspaces.get i).map WorkspaceMeta.baseVersion = some v
  head : w'.vai.head = v
  discard : force = true → ∀ p c, (w'.fs.overlay i).get p = some c → S p = some c

/-- The server's changes are files that the workspace does not have at all. -/
structure OnlyNew (i : Uuid) (v : Text) (S : Path → Option Bytes) (force : Bool) (w : World Disk) (m : WorkspaceMeta) :
    Prop where
  kept : ∀ p c, w.fs.base.get p = some c → (w.fs.overlay i).get p = none → S p = some c
  removed : ∀ p, S p = none → w.fs.base.get p = none
  current : (¬ ∃ p, Lacks (w.fs.files i) S p) → m.baseVersion = v ∧ w.vai.head = v
  discard : force = true → ∀ p c, (w.fs.overlay i).get p = some c → S p = some c

/-- **When a pull reaches the server's version**: exactly when no file of the base directory has changed or gone on the
server, a pull without a new file finds the version recorded already, and a discarding one finds nothing to discard. -/
theorem pull_reaches_iff (hserves : Serves remote v S) (ha : w.vai.IsActive m)
    (hopen : openExisting env (diskMergeFs env) (.onServer remote) w = (.ok fw, w₀))
    (hpull : pullWith env fw force w₀ = (.ok (a, m'), w')) :
    Reaches m.id v S force w.fs a m' w' ↔ OnlyNew m.id v S force w m := by
  obtain ⟨hf₀, hv₀, rfl, hfs, -, hb, -⟩ := (openExisting_spec ha (.onServer remote)).ok hopen
  have hactive : w.vai.workspaces.get fw.wsMeta.id = some fw.wsMeta := ha.record
  unfold pullWith at hpull
  rw [hb] at hpull
  have hrep₀ : Disk.Rep fw.wsMeta.id w.fs w₀.fs (w.fs.files fw.wsMeta.id) := by
    rw [hf₀]
    exact Disk.rep_self _ _
  obtain ⟨hversion, hrep, hcase⟩ := (doPull_spec hserves hfs rfl (by rw [hv₀, hactive]; rfl) hrep₀).ok hpull
  rw [hv₀] at hcase
  have hbase : ∀ p, w'.fs.base.get p = pulled (w.fs.files fw.wsMeta.id) S p := fun p => congrFun hrep.files (.base p)
  have hoverlay : ∀ p, (w'.fs.overlay fw.wsMeta.id).get p = (w.fs.overlay fw.wsMeta.id).get p :=
    fun p => congrFun hrep.files (.overlay p)
  have hkeeps : ∀ {p : Path} {c : Bytes}, w.fs.base.get p = some c → w'.fs.base.get p = some c := by
    intro p c hc
    have hsome : w.fs.files fw.wsMeta.id (.base p) = some c := hc
    have hthere : w.fs.files fw.wsMeta.id (.base p) ≠ none := by simp [hsome]
    rw [hbase p, pulled, if_neg fun h => hthere h.1, hsome]
  constructor
  · intro h
    refine ⟨fun p c hc hover => ?_, fun p hp => ?_, fun hnone => ?_, fun hforce p c hc => ?_⟩
    · rw [← h.files p hover, hkeeps hc]
    · cases hc : w.fs.base.get p with
      | none => rfl
      | some c =>
        have hgone := h.gone p hp
        rw [hkeeps hc] at hgone
        cases hgone
    · rcases hcase with ⟨-, hm, hv⟩ | ⟨hlack, -, -⟩
      · exact ⟨hm ▸ h.record.1, hv ▸ h.head⟩
      · exact absurd hlack hnone
    · exact h.discard hforce p c ((hoverlay p).trans hc)
  · intro h
    have hrecorded : (m'.baseVersion = v ∧ (w'.vai.workspaces.get fw.wsMeta.id).map WorkspaceMeta.baseVersion = some v) ∧
        w'.vai.head = v := by
      rcases hcase with ⟨hnone, hm, hv⟩ | ⟨-, hm, hv⟩
      · obtain ⟨hrecord, hhead⟩ := h.current hnone
        rw [hv, show m' = fw.wsMeta from hm, hactive]
        exact ⟨⟨hrecord, congrArg some hrecord⟩, hhead⟩
      · rw [hv, show m' = { fw.wsMeta with baseVersion := v } from hm]
        have hnew : FMap.get (w.vai.workspaces.insert fw.wsMeta.id { fw.wsMeta with baseVersion := v }) fw.wsMeta.id =
            some { fw.wsMeta with baseVersion := v } := (FMap.get_insert _ _ _ _).trans (if_pos rfl)
        exact ⟨⟨rfl, congrArg (Option.map WorkspaceMeta.baseVersion) hnew⟩, rfl⟩
    refine ⟨hversion, fun p hover => ?_, fun p hp => ?_, hrecorded.1, hrecorded.2, fun hforce p c hc => ?_⟩
    · cases hc : w.fs.base.get p with
      | some c => rw [hkeeps hc, h.kept p c hc hover]
      | none => exact (hbase p).trans (if_pos ⟨hc, hover⟩)
    · rw [hbase p, pulled]
      split
      · exact hp
      · exact h.removed p hp
    · exact h.discard hforce p c ((hoverlay p).symm.trans hc)

end Pull

/-! ## A server of files -/

/-- The file endpoint, for one path after the other. -/
def download (l : List (Path × Bytes)) : List Path → Except RemoteFailure (List (Path × Bytes))
  | [] => .ok []
  | p :: paths =>
    match l.lookup p with
    | none => .error (.remote ("download ".toList ++ p ++ ": 404".toList))
    | some c => (download l paths).map ((p, c) :: ·)

/-- A server at version `v` with the files `l`. -/
def serverWith (v : Text) (l : List (Path × Bytes)) : RemoteRepo where
  listHeadFiles := .ok (l.map Prod.fst)
  headVersion := .ok v
  uploadWorkspace _ _ _ := .error .workspaceEmpty
  submitWorkspace _ := .error .workspaceEmpty
  downloadFiles := download l

theorem download_spec {l : List (Path × Bytes)} : ∀ {paths : List Path} {got : List (Path × Bytes)},
    download l paths = .ok got → got.map Prod.fst = paths ∧ ∀ q ∈ got, l.lookup q.1 = some q.2
  | [], _, h => by
    cases h
    simp
  | p :: paths, got, h => by
    unfold download at h
    cases hp : l.lookup p with
    | none =>
      rw [hp] at h
      cases h
    | some c =>
      rw [hp] at h
      dsimp only at h
      cases hrest : download l paths with
      | error e =>
        rw [hrest] at h
        cases h
      | ok rest =>
        rw [hrest] at h
        cases h
        obtain ⟨hmap, hsend⟩ := download_spec hrest
        refine ⟨by rw [List.map_cons, hmap], fun q hq => ?_⟩
        rcases List.mem_cons.1 hq with rfl | hq
        · exact hp
        · exact hsend q hq

theorem serves_serverWith (v : Text) (l : List (Path × Bytes)) : Serves (serverWith v l) v fun p => l.lookup p where
  head := rfl
  files := ⟨_, rfl, fun p => by
    rw [List.lookup_isSome_iff, List.mem_map]
    exact exists_congr fun q => and_congr_right fun _ => by rw [beq_iff_eq, eq_comm]⟩
  sends _ _ h := download_spec h

/-- A clone at version `v1` with the file `a`, in which workspace 1 deletes the files `D`. -/
def clone (D : List Path) : World Disk where
  fs := { base := FMap.ofList [(['a'], [1])], overlay := fun _ => ∅, snapshot := fun _ => ∅, ops := 0 }
  vai := { VaiDir.withWorkspaces [.fresh 1 1] with deleted := FMap.ofList [(1, D)] }
  ops := 0

/-- Workspace 1 of it, as it is opened. -/
def openedClone (remote : RemoteRepo) (D : List Path) : Opened Disk :=
  { wsMeta := .fresh 1 1, mergeFs := diskMergeFs Env.plain 1, deletedPaths := D, backend := .onServer remote,
    isPushFromRoot := false, pushed := notPushed D }

theorem open_clone (remote : RemoteRepo) (D : List Path) :
    openExisting Env.plain (diskMergeFs Env.plain) (.onServer remote) (clone D) =
      (.ok (openedClone remote ((D ++ []).foldl pushNew [])), { clone D with ops := 4 }) := rfl

theorem active_clone (D : List Path) : (clone D).vai.IsActive (.fresh 1 1) := ⟨rfl, rfl⟩

theorem inSync_clone (remote : RemoteRepo) (D : List Path) :
    InSync (openedClone remote D) (versionName 1) [['a']] ((clone D).fs.files 1) where
  head := rfl
  files p := by
    have hget : (clone D).fs.files 1 (.base p) = if p = ['a'] then some [1] else none := FMap.get_insert ∅ ['a'] [1] p
    rw [hget, List.mem_singleton]
    split <;> simp [*]

/-- The plan of the clone against a server that has its file. -/
def planClone (D : List Path) : Except FwError Plan × World Disk :=
  (openedClone (serverWith (versionName 1) [(['a'], [1])]) D).plan Env.plain (clone D)

/-- Nothing deleted, nothing reported. -/
theorem plan_surprises_iff_clone : ∃ pl w', planClone [] = (.ok pl, w') ∧ pl.surprises = [] := by
  have hplan : (planClone []).1.isOk := by decide +kernel
  rcases hp : planClone [] with ⟨e | pl, w'⟩
  · rw [hp] at hplan
    cases hplan
  refine ⟨pl, w', rfl, ?_⟩
  have hsound := (plan_surprises_iff (diskMergeFs Env.plain) rfl rfl rfl rfl hp).2 fun _ p hp => absurd hp List.not_mem_nil
  exact (hsound.1 (inSync_clone _ _)).1

/-- A deleted file is reported as one that has not been pulled, and the submit is refused. -/
theorem deleted_file_is_surprise : InSync (openedClone (serverWith (versionName 1) [(['a'], [1])]) [['a']]) (versionName 1)
      [['a']] ((clone [['a']]).fs.files 1) ∧
    ∃ pl w', planClone [['a']] = (.ok pl, w') ∧ pl.surprises = [.serverHasFileLocalDoesNot ['a']] ∧
      ((openedClone (serverWith (versionName 1) [(['a'], [1])]) [['a']]).submit Env.plain (diskMergeFs Env.plain)
        (clone [['a']])).1 = .error (.surprises pl) := by
  refine ⟨inSync_clone _ _, ?_⟩
  have hplan : (planClone [['a']]).1.map Plan.surprises = .ok [.serverHasFileLocalDoesNot ['a']] := by decide +kernel
  rcases hp : planClone [['a']] with ⟨e | pl, w'⟩
  · rw [hp] at hplan
    cases hplan
  rw [hp] at hplan
  have hsurprises : pl.surprises = [.serverHasFileLocalDoesNot ['a']] := Except.ok.inj hplan
  refine ⟨pl, w', rfl, hsurprises, ?_⟩
  unfold Opened.submit
  rw [bind_of_ok hp, hsurprises]
  rfl

/-- A pull of the clone from a server at version `v2`. -/
def pullClone (l : List (Path × Bytes)) : Except FwError (Applied × WorkspaceMeta) × World Disk :=
  (openedClone (serverWith (versionName 2) l) []).pull Env.plain { clone [] with ops := 4 }

/-- A new file arrives, and so does the version. -/
theorem pull_reaches_iff_new : ∃ a m' w', pullClone [(['a'], [1]), (['b'], [2])] = (.ok (a, m'), w') ∧
    Reaches 1 (versionName 2) (fun p => List.lookup p [(['a'], [1]), (['b'], [2])]) false (clone []).fs a m' w' := by
  have hpull : (pullClone [(['a'], [1]), (['b'], [2])]).1.isOk := by decide +kernel
  rcases hp : pullClone [(['a'], [1]), (['b'], [2])] with ⟨e | ⟨a, m'⟩, w'⟩
  · rw [hp] at hpull
    cases hpull
  refine ⟨a, m', w', rfl, (pull_reaches_iff (serves_serverWith _ _) (active_clone []) (open_clone _ []) hp).2 ?_⟩
  have hget : ∀ p, (clone []).fs.base.get p = if p = ['a'] then some [1] else none := FMap.get_insert ∅ ['a'] [1]
  refine ⟨fun p c hc _ => ?_, fun p hp => ?_, fun hnone => ?_, fun h => absurd h Bool.false_ne_true⟩
  · rw [hget p] at hc
    split at hc
    · rename_i hpa
      rw [hpa, ← hc]
      rfl
    · cases hc
  · rw [hget p]
    split
    · rename_i hpa
      rw [hpa] at hp
      cases hp
    · rfl
  · exact absurd ⟨['b'], rfl, rfl, rfl⟩ hnone

/-- A file that has changed on the server keeps its content, and the base version stays what it was. -/
theorem changed_file_is_not_pulled : ∃ a m' w', pullClone [(['a'], [2])] = (.ok (a, m'), w') ∧
    a.version = versionName 2 ∧ w'.fs.base.get ['a'] = some [1] ∧ m'.baseVersion = versionName 1 ∧
    w'.vai.head = versionName 1 := by
  have hpull : (pullClone [(['a'], [2])]).1.map (fun r => (r.1.version, r.2.baseVersion)) =
      .ok (versionName 2, versionName 1) := by decide +kernel
  have hkept : (pullClone [(['a'], [2])]).2.fs.base.get ['a'] = some [1] := by decide +kernel
  have hhead : (pullClone [(['a'], [2])]).2.vai.head = versionName 1 := by decide +kernel
  rcases hp : pullClone [(['a'], [2])] with ⟨e | ⟨a, m'⟩, w'⟩
  · rw [hp] at hpull
    cases hpull
  rw [hp] at hpull hkept hhead
  have hboth : (a.version, m'.baseVersion) = (versionName 2, versionName 1) := Except.ok.inj hpull
  exact ⟨a, m', w', rfl, (Prod.mk.inj hboth).1, hkept, (Prod.mk.inj hboth).2, hhead⟩

end FileWorkspace
end Vai
