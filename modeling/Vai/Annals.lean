import Vai.Session
import Vai.History
import Vai.Undo
import Vai.Steps
/-!
# Annals — the runs of a repository, and what every version changed

A repository is initialised, and then workspaces are created, switched to, edited, planned and submitted, and versions
are rolled back, in any order.  Beside the repository an `Annals` keeps, for every version, the tree before and after it.

Two things hold in every run (`Kept`): the pre-change snapshot of a submitted version has the files that the version
changed, and the workspace behind a merge event stays merged.  So the events that `get_version_changes` reads for a
version are fixed when the version is made (`Grown.versionEvents`).
-/
namespace Vai

open Proc

/-- What a version has made of the tree. -/
structure Made where
  before : FMap Path Bytes
  after : FMap Path Bytes

/-- A repository, with what each of its versions `v1, v2, ..` has made of the tree. -/
structure Annals where
  world : World Disk
  made : List Made

namespace Annals

inductive Act where
  | create (intent : Text) (i : Uuid)
  | switch (i : Uuid)
  | overlay (i : Uuid) (files : FMap Path Bytes)
  | manifest (i : Uuid) (deletedPaths : List Path)
  | plan (deletedPaths : List Path)
  | submit (deletedPaths : List Path)
  | rollback (versionId : Text) (entityFilter : Option Text)

/-- The repository after a call that went through. -/
def went {α : Type} (r : Except MergeError α × World Disk) : Option (World Disk) := r.1.toOption.map fun _ => r.2

def during (s : Annals) (w : World Disk) : Annals := { s with world := w }

/-- A new version. -/
def onto (s : Annals) (w : World Disk) : Annals := { world := w, made := s.made ++ [⟨s.world.fs.base, w.fs.base⟩] }

/-- `workspace::active`, where there is one. -/
def activeMeta (v : VaiDir) : Option WorkspaceMeta := v.active.bind v.workspaces.get

section

variable (env : Env)

/-- The id of a new workspace is new. -/
def createStep (intent : Text) (i : Uuid) (s : Annals) : Option Annals :=
  if (s.world.vai.workspaces.get i).isSome then none
  else (went (createWithId env intent s.world.vai.head i s.world)).map s.during

def planStep (deletedPaths : List Path) (s : Annals) : Option Annals :=
  (activeMeta s.world.vai).map fun m => s.during (FileWorkspace.plan env m deletedPaths s.world).2

def submitStep (deletedPaths : List Path) (s : Annals) : Option Annals :=
  (activeMeta s.world.vai).bind fun m =>
    (went (Merge.submitWithFs env (diskMergeFs env m.id) m deletedPaths s.world)).map s.onto

def step : Act → Annals → Option Annals
  | .create intent i, s => createStep env intent i s
  | .switch i, s => (went (switchTo env i s.world)).map s.during
  | .overlay i files, s =>
    some (s.during { s.world with fs := { s.world.fs with overlay := Function.update s.world.fs.overlay i files } })
  | .manifest i deletedPaths, s =>
    some (s.during { s.world with vai := { s.world.vai with deleted := s.world.vai.deleted.insert i deletedPaths } })
  | .plan deletedPaths, s => planStep env deletedPaths s
  | .submit deletedPaths, s => submitStep env deletedPaths s
  | .rollback versionId entityFilter, s => (went (Version.rollback env versionId entityFilter s.world)).map s.onto

end

/-- A repository just initialised in the tree `T`. -/
def start (T : List (Path × Bytes)) (repoId : Uuid) (name : Text) (graph : GraphSnapshot) : Annals where
  world := { fs := Disk.ofTree T fun _ => [], vai := VaiDir.init repoId name graph, ops := 0 }
  made := [⟨FMap.ofList T, FMap.ofList T⟩]

/-! ## What a step does -/

/-- No workspace that is merged has one of these events. -/
def Foreign (v : VaiDir) (later : List Event) : Prop :=
  ∀ e ∈ later, ∀ i m, e.kind.workspaceId = some i → v.workspaces.get i = some m → m.status ≠ .merged

/-- Between two versions: no version is made, no file of one is touched, and merged workspaces stay as they are. -/
structure Still (w w' : World Disk) : Prop where
  head : w'.vai.head = w.vai.head
  versions : w'.vai.versions = w.vai.versions
  snapshot : ∀ n p, (w'.fs.snapshot (versionName n)).get p = (w.fs.snapshot (versionName n)).get p
  log : ∃ later, w'.vai.log = w.vai.log ++ later ∧ Foreign w.vai later
  merged : ∀ i m, w.vai.workspaces.get i = some m → m.status = .merged → w'.vai.workspaces.get i = some m
  keyed : (∀ i m, w.vai.workspaces.get i = some m → m.id = i) → ∀ i m, w'.vai.workspaces.get i = some m → m.id = i
  active : (∀ m, activeMeta w.vai = some m → m.status ≠ .merged) → ∀ m, activeMeta w'.vai = some m → m.status ≠ .merged

theorem Still.of_vai {w w' : World Disk} (hv : w'.vai = w.vai)
    (hs : ∀ n p, (w'.fs.snapshot (versionName n)).get p = (w.fs.snapshot (versionName n)).get p) : Still w w' := by
  refine ⟨by rw [hv], by rw [hv], hs, ⟨[], by simp [hv], fun e he => absurd he List.not_mem_nil⟩, ?_, ?_, ?_⟩ <;> rw [hv]
  · exact fun i m h _ => h
  · exact id
  · exact id

theorem went_eq_some {α : Type} {r : Except MergeError α × World Disk} {w : World Disk} :
    went r = some w ↔ ∃ a, r = (.ok a, w) := by
  rcases r with ⟨e | a, w'⟩ <;> simp [went, Except.toOption]

theorem pushEvents_eq : ∀ (ks : List EventKind) (log : List Event),
    ∃ later, ks.foldl VaiDir.pushEvent log = log ++ later ∧ later.map Event.kind = ks
  | [], log => ⟨[], by simp, rfl⟩
  | k :: ks, log => by
    obtain ⟨later, hlater, hkinds⟩ := pushEvents_eq ks (VaiDir.pushEvent log k)
    refine ⟨⟨VaiDir.nextEventId log, k⟩ :: later, ?_, by rw [List.map_cons, hkinds]⟩
    rw [List.foldl_cons, hlater, VaiDir.pushEvent, List.append_assoc]
    rfl

theorem foreign_of_kinds {v : VaiDir} {later : List Event} {ks : List EventKind} {m : WorkspaceMeta}
    (hk : later.map Event.kind = ks) (hks : ∀ k ∈ ks, ∀ i, k.workspaceId = some i → i = m.id)
    (hm : v.workspaces.get m.id = some m) (hst : m.status ≠ .merged) : Foreign v later := by
  intro e he i m' hi hget
  have hid := hks e.kind (hk ▸ List.mem_map_of_mem he) i hi
  rw [hid, hm] at hget
  cases hget
  exact hst

theorem workspaceId_events {d : WorkspaceDiff} {k : EventKind} (hk : k ∈ Diff.events d) :
    k.workspaceId = some d.workspaceId := by
  rcases List.mem_append.1 hk with hk | hk
  · obtain ⟨fd, -, rfl⟩ := List.mem_map.1 hk
    unfold Diff.fileEvent
    split <;> rfl
  · obtain ⟨ec, -, rfl⟩ := List.mem_map.1 hk
    unfold Diff.entityEvent
    split <;> rfl

theorem isActive_of_activeMeta {v : VaiDir} {m : WorkspaceMeta} (hkey : ∀ i m, v.workspaces.get i = some m → m.id = i)
    (h : activeMeta v = some m) : v.IsActive m := by
  obtain ⟨i, hi, hm⟩ := Option.bind_eq_some_iff.1 h
  have hid := hkey i m hm
  subst hid
  exact ⟨hi, hm⟩

/-! ## The steps between two versions -/

section

variable {env : Env} {w w' : World Disk} {m : WorkspaceMeta}

theorem still_create {intent : Text} {i : Uuid} (hnew : w.vai.workspaces.get i = none)
    (h : createWithId env intent w.vai.head i w = (.ok m, w')) : Still w w' := by
  obtain ⟨hf, rfl, hv⟩ := (createWithId_spec w intent w.vai.head i).ok h
  refine ⟨by rw [hv]; rfl, by rw [hv]; rfl, fun n p => by rw [hf], ?_, ?_, ?_, ?_⟩
  · refine ⟨_, by rw [hv]; rfl, fun e he j m hj hget _ => ?_⟩
    rw [List.mem_singleton.1 he] at hj
    cases hj
    rw [hnew] at hget
    cases hget
  · intro j m hj _
    have hne : j ≠ i := by
      rintro rfl
      rw [hnew] at hj
      cases hj
    rw [hv]
    exact (FMap.get_insert _ _ _ _).trans ((if_neg hne).trans hj)
  · intro hkey j m hj
    rw [hv] at hj
    have hget := (FMap.get_insert _ _ _ _).symm.trans hj
    split at hget
    · rename_i hji
      cases hget
      exact hji.symm
    · exact hkey j m hget
  · intro _ m hm
    rw [hv] at hm
    obtain ⟨j, hj, hget⟩ := Option.bind_eq_some_iff.1 hm
    cases hj
    have hget := (FMap.get_insert _ _ _ _).symm.trans hget
    rw [if_pos rfl] at hget
    cases hget
    simp

theorem still_switch {i : Uuid} (h : switchTo env i w = (.ok m, w')) : Still w w' := by
  obtain ⟨hget, hst, hf, hv⟩ := switchTo_ok h
  refine ⟨by rw [hv], by rw [hv], fun n p => by rw [hf], ⟨[], by rw [hv]; simp, fun e he => absurd he List.not_mem_nil⟩,
    fun j m hj _ => by rw [hv]; exact hj, fun hkey j m hj => hkey j m (by rwa [hv] at hj), fun _ m' hm' => ?_⟩
  rw [hv] at hm'
  obtain ⟨j, hj, hget'⟩ := Option.bind_eq_some_iff.1 hm'
  cases hj
  cases hget.symm.trans hget'
  exact hst

theorem still_plan (hq : env.Quiet) (ha : w.vai.IsActive m) (hst : m.status ≠ .merged) (D : List Path) :
    Still w (FileWorkspace.plan env m D w).2 := by
  obtain ⟨hfiles, hdir⟩ := Session.plan_dir hq ha D
  generalize (FileWorkspace.plan env m D w).2 = w' at hfiles hdir
  have hsnap : ∀ n p, (w'.fs.snapshot (versionName n)).get p = (w.fs.snapshot (versionName n)).get p :=
    fun n p => congrFun hfiles (.snapshot n p)
  rcases hdir with hv | ⟨l, D', d, hid, -, hv⟩
  · exact .of_vai hv hsnap
  by_cases hc : m.status = .created
  · rw [Diff.recorded, if_pos hc] at hv
    obtain ⟨later, hlater, hkinds⟩ := pushEvents_eq (Diff.events d) w.vai.log
    have hget : ∀ j, w'.vai.workspaces.get j = if j = m.id then some { m with status := .active } else
        w.vai.workspaces.get j := fun j => by rw [hv]; exact FMap.get_insert _ _ _ _
    refine ⟨by rw [hv]; rfl, by rw [hv]; rfl, hsnap, ⟨later, by rw [hv]; exact hlater, ?_⟩, ?_, ?_, ?_⟩
    · refine foreign_of_kinds hkinds (fun k hk i hi => ?_) ha.record hst
      rw [workspaceId_events hk, hid] at hi
      exact (Option.some.inj hi).symm
    · intro j m' hj hmerged
      have hne : j ≠ m.id := by
        rintro rfl
        cases ha.record.symm.trans hj
        exact hst hmerged
      rw [hget, if_neg hne, hj]
    · intro hkey j m' hj
      rw [hget] at hj
      split at hj
      · rename_i hjm
        cases hj
        exact hjm.symm
      · exact hkey j m' hj
    · intro _ m' hm'
      obtain ⟨j, hj, hm'⟩ := Option.bind_eq_some_iff.1 hm'
      have hact : w'.vai.active = w.vai.active := by rw [hv]; rfl
      rw [hact, ha.active] at hj
      cases hj
      rw [hget, if_pos rfl] at hm'
      cases hm'
      simp
  · rw [Diff.recorded, if_neg hc] at hv
    exact .of_vai hv hsnap

end

/-! ## The steps that make a version -/

section

variable {env : Env} {w w' : World Disk} {m : WorkspaceMeta} {D : List Path} {r : SubmitResult}

theorem complete_inactive (hq : env.Quiet) {d : WorkspaceDiff} {id : Text} {n k : Nat}
    (h : Merge.complete env m d D id n k w = (.ok r, w')) : w'.vai.active = none := by
  unfold Merge.complete at h
  obtain ⟨_, w₁, _, h⟩ := bind_eq_ok.1 h
  obtain ⟨_, w₂, _, h⟩ := bind_eq_ok.1 h
  obtain ⟨_, w₃, _, h⟩ := bind_eq_ok.1 h
  obtain ⟨_, w₄, _, h⟩ := bind_eq_ok.1 h
  obtain ⟨_, w₅, hadv, h⟩ := bind_eq_ok.1 h
  cases h
  unfold Merge.advanceHeadAndCloseWorkspace at hadv
  obtain ⟨_, w₆, _, hadv⟩ := bind_eq_ok.1 hadv
  obtain ⟨_, w₇, _, hadv⟩ := bind_eq_ok.1 hadv
  obtain ⟨_, w₈, hrem, hadv⟩ := bind_eq_ok.1 hadv
  cases hadv
  have hw : w' = (onVai env VaiDir.removeActive w₇).2 := (congrArg Prod.snd hrem).symm
  rw [hw, onVai, if_neg (by simp [hq.1])]
  rfl

theorem submit_inactive (hq : env.Quiet) (h : Merge.submitWithFs env (diskMergeFs env m.id) m D w = (.ok r, w')) :
    w'.vai.active = none := by
  unfold Merge.submitWithFs at h
  obtain ⟨d, w₁, _, h⟩ := bind_eq_ok.1 h
  split at h
  · cases h
  obtain ⟨_, w₂, _, h⟩ := bind_eq_ok.1 h
  obtain ⟨_, w₃, _, h⟩ := bind_eq_ok.1 h
  obtain ⟨_, w₄, _, h⟩ := bind_eq_ok.1 h
  obtain ⟨head, w₅, _, h⟩ := bind_eq_ok.1 h
  split at h
  · unfold Merge.fastForwardMerge at h
    obtain ⟨_, w₆, _, h⟩ := bind_eq_ok.1 h
    obtain ⟨_, w₇, _, h⟩ := bind_eq_ok.1 h
    obtain ⟨_, w₈, _, h⟩ := bind_eq_ok.1 h
    obtain ⟨_, w₉, _, h⟩ := bind_eq_ok.1 h
    exact complete_inactive hq h
  · unfold Merge.semanticMerge at h
    obtain ⟨headChanged, w₆, _, h⟩ := bind_eq_ok.1 h
    obtain ⟨acc, w₇, _, h⟩ := bind_eq_ok.1 h
    split at h
    · obtain ⟨_, w₈, _, h⟩ := bind_eq_ok.1 h
      obtain ⟨_, w₉, _, h⟩ := bind_eq_ok.1 h
      obtain ⟨_, w₁₀, _, h⟩ := bind_eq_ok.1 h
      obtain ⟨_, w₁₁, _, h⟩ := bind_eq_ok.1 h
      obtain ⟨_, w₁₂, _, h⟩ := bind_eq_ok.1 h
      exact complete_inactive hq h
    · unfold Merge.refuse at h
      obtain ⟨_, w₈, _, h⟩ := bind_eq_ok.1 h
      obtain ⟨_, w₉, _, h⟩ := bind_eq_ok.1 h
      obtain ⟨_, w₁₀, _, h⟩ := bind_eq_ok.1 h
      cases h

theorem submittedDir_pushed (m : WorkspaceMeta) (v : VaiDir) (d : WorkspaceDiff) (D : List Path) (auto : Nat)
    (a : Option Uuid) (g : GraphSnapshot) : ∃ log, log = (Merge.submitKinds m d D).foldl VaiDir.pushEvent v.log ∧
      (Merge.submittedDir m v d D auto a g).log =
        [.mergeCompleted m.id v.nextVersionId auto, .versionCreated v.nextVersionId (some m.baseVersion) m.intent].foldl
          VaiDir.pushEvent log ∧
      (Merge.submittedDir m v d D auto a g).versions =
        v.versions.insert v.nextVersionId (Merge.newRecord m v.nextVersionId (VaiDir.nextEventId log)) := by
  have hrec : (Diff.recorded d m v).log = (if m.status = .created then Diff.events d else []).foldl VaiDir.pushEvent v.log := by
    unfold Diff.recorded
    split <;> rfl
  refine ⟨_, rfl, ?_⟩
  simp only [Merge.submitKinds, List.foldl_append, ← hrec]
  exact ⟨rfl, by simp only [Merge.submittedDir, Merge.closed, VaiDir.logged, Diff.recorded_versions]⟩

theorem workspaceId_submitKinds {d : WorkspaceDiff} (hid : d.workspaceId = m.id) {k : EventKind}
    (hk : k ∈ Merge.submitKinds m d D) : k.workspaceId = some m.id := by
  unfold Merge.submitKinds at hk
  rcases List.mem_append.1 hk with hk | hk
  · rcases List.mem_append.1 hk with hk | hk
    · split at hk
      · rw [workspaceId_events hk, hid]
      · cases hk
    · rw [List.mem_singleton.1 hk]
      rfl
  · obtain ⟨q, -, rfl⟩ := List.mem_map.1 hk
    rfl

/-- The log of a landed submit: the events of its workspace, among them the merge event that the version's record
names. -/
theorem landed_log (hl : Merge.Landed env m D r w w') : ∃ later id,
    w'.vai.log = w.vai.log ++ later ∧ (∀ e ∈ later, ∀ i, e.kind.workspaceId = some i → i = m.id) ∧
    w'.vai.versions = w.vai.versions.insert w.vai.nextVersionId (Merge.newRecord m w.vai.nextVersionId id) ∧
    w'.vai.getById id = some ⟨id, .mergeCompleted m.id w.vai.nextVersionId r.autoResolved⟩ := by
  obtain ⟨l, d, R, a, g, -, -, hid, -, hv⟩ := hl.dir
  obtain ⟨log, hlog, hdir, hver⟩ := submittedDir_pushed m w.vai d R r.autoResolved a g
  obtain ⟨later, hlater, hkinds⟩ := pushEvents_eq (Merge.submitKinds m d R) w.vai.log
  rw [← hlog] at hlater
  have hfull : w'.vai.log = log ++ [⟨VaiDir.nextEventId log, .mergeCompleted m.id w.vai.nextVersionId r.autoResolved⟩,
      ⟨VaiDir.nextEventId (VaiDir.pushEvent log (.mergeCompleted m.id w.vai.nextVersionId r.autoResolved)),
        .versionCreated w.vai.nextVersionId (some m.baseVersion) m.intent⟩] := by
    rw [hv, hdir]
    simp [VaiDir.pushEvent]
  refine ⟨_, VaiDir.nextEventId log, by rw [hfull, hlater, List.append_assoc], fun e he i hi => ?_, by rw [hv, hver], ?_⟩
  · rcases List.mem_append.1 he with he | he
    · have hk := workspaceId_submitKinds hid (hkinds ▸ List.mem_map_of_mem he : e.kind ∈ Merge.submitKinds m d R)
      rw [hk] at hi
      exact (Option.some.inj hi).symm
    · rcases List.mem_cons.1 he with rfl | he
      · exact (Option.some.inj hi).symm
      · rw [List.mem_singleton.1 he] at hi
        cases hi
  · -- every event before it has a smaller number
    unfold VaiDir.getById
    rw [hfull, List.find?_append, List.find?_eq_none.2 fun e he => by
      simpa using Nat.ne_of_lt (VaiDir.id_lt_nextEventId he)]
    simp

end

/-! ## What every run keeps -/

/-- The events that `get_version_changes` reads for a version. -/
def versionEvents (v : VaiDir) (id : Text) : List Event :=
  match v.versions.get id with
  | some rec => Version.eventsOf v rec
  | none => []

theorem versionEvents_of_get {v : VaiDir} {id : Text} {rec : VersionMeta} (h : v.versions.get id = some rec) :
    versionEvents v id = Version.eventsOf v rec := by
  unfold versionEvents
  rw [h]

/-- The merge event of every record is in the log, and its workspace is merged. -/
def Traced (v : VaiDir) : Prop := ∀ id rec e, v.versions.get id = some rec → rec.mergeEventId = some e →
  ∃ ev i m, v.getById e = some ev ∧ ev.kind.workspaceId = some i ∧ v.workspaces.get i = some m ∧ m.status = .merged

structure Kept (s : Annals) : Prop where
  numbered : s.world.vai.Numbered s.made.length
  fresh : ∀ n p, s.made.length < n → (s.world.fs.snapshot (versionName n)).get p = none
  keyed : ∀ i m, s.world.vai.workspaces.get i = some m → m.id = i
  active : ∀ m, activeMeta s.world.vai = some m → m.status ≠ .merged
  traced : Traced s.world.vai
  replaced : ∀ k t rec, s.made[k]? = some t → s.world.vai.versions.get (versionName (k + 1)) = some rec →
    rec.mergeEventId.isSome → ∀ p, t.before.get p ≠ t.after.get p →
      (s.world.fs.snapshot (versionName (k + 1))).get p = t.before.get p

/-- What each step does to the records and the log that it finds. -/
structure Grown (v v' : VaiDir) : Prop where
  versions : ∀ id rec, v.versions.get id = some rec → v'.versions.get id = some rec
  log : ∃ later, v'.log = v.log ++ later ∧ Foreign v later
  merged : ∀ i m, v.workspaces.get i = some m → m.status = .merged → v'.workspaces.get i = some m

theorem getById_append {v v' : VaiDir} {later : List Event} (h : v'.log = v.log ++ later) {id : Nat} {e : Event}
    (he : v.getById id = some e) : v'.getById id = some e := by
  unfold VaiDir.getById at he ⊢
  rw [h, List.find?_append, he]
  rfl

theorem Grown.eventsOf {v v' : VaiDir} (h : Grown v v') (ht : Traced v) {id : Text} {rec : VersionMeta}
    (hrec : v.versions.get id = some rec) : Version.eventsOf v' rec = Version.eventsOf v rec := by
  obtain ⟨later, hlater, hforeign⟩ := h.log
  unfold Version.eventsOf
  cases hid : rec.mergeEventId with
  | none => rfl
  | some e =>
    obtain ⟨ev, i, m, hev, hi, hm, hst⟩ := ht id rec e hrec hid
    rw [Option.bind_some, Option.bind_some, hev, getById_append hlater hev, Option.bind_some, hi]
    dsimp only
    unfold VaiDir.queryByWorkspace
    have hnone : later.filter (fun e => decide (e.kind.workspaceId = some i)) = [] :=
      List.filter_eq_nil_iff.2 fun e he => by simpa using fun hei => hforeign e he i m hei hm hst
    rw [hlater, List.filter_append, hnone, List.append_nil]

theorem Grown.versionEvents {v v' : VaiDir} (h : Grown v v') (ht : Traced v) {id : Text}
    (hid : (v.versions.get id).isSome) : versionEvents v' id = versionEvents v id := by
  obtain ⟨rec, hrec⟩ := Option.isSome_iff_exists.1 hid
  rw [versionEvents_of_get hrec, versionEvents_of_get (h.versions id rec hrec), h.eventsOf ht hrec]

theorem Grown.traced {v v' : VaiDir} (h : Grown v v') (ht : Traced v) {id : Text} {rec : VersionMeta} {e : Nat}
    (hrec : v.versions.get id = some rec) (he : rec.mergeEventId = some e) : ∃ ev i m, v'.getById e = some ev ∧
      ev.kind.workspaceId = some i ∧ v'.workspaces.get i = some m ∧ m.status = .merged := by
  obtain ⟨later, hlater, -⟩ := h.log
  obtain ⟨ev, i, m, hev, hi, hm, hst⟩ := ht id rec e hrec he
  exact ⟨ev, i, m, getById_append hlater hev, hi, h.merged i m hm hst, hst⟩

/-- A step that makes a version: a submit or a rollback. -/
inductive Makes (env : Env) (w w' : World Disk) : Prop where
  | submit (m : WorkspaceMeta) (D : List Path) (r : SubmitResult) (ha : w.vai.IsActive m) (hst : m.status ≠ .merged)
      (hl : Merge.Landed env m D r w w') (hoff : w'.vai.active = none)
  | rollback (id : Text) (entityFilter : Option Text) (hv : w'.vai = Version.rolledBack id entityFilter w.vai)
      (hs : w'.fs.snapshot = w.fs.snapshot)

section

variable {env : Env} {w w' : World Disk} {s s' : Annals} {a : Act}

/-- **What a step can do.** -/
theorem step_cases (hq : env.Quiet) (hk : Kept s) (h : step env a s = some s') :
    (∃ w, s' = s.during w ∧ Still s.world w) ∨ ∃ w, s' = s.onto w ∧ Makes env s.world w := by
  cases a with
  | create intent i =>
    have h : createStep env intent i s = some s' := h
    unfold createStep at h
    split at h
    · cases h
    rename_i hnew
    obtain ⟨w, hw, rfl⟩ := Option.map_eq_some_iff.1 h
    obtain ⟨m, hm⟩ := went_eq_some.1 hw
    exact .inl ⟨w, rfl, still_create (Option.not_isSome_iff_eq_none.1 hnew) hm⟩
  | «switch» i =>
    obtain ⟨w, hw, rfl⟩ := Option.map_eq_some_iff.1 h
    obtain ⟨m, hm⟩ := went_eq_some.1 hw
    exact .inl ⟨w, rfl, still_switch hm⟩
  | overlay i files =>
    obtain rfl := Option.some.inj h
    exact .inl ⟨_, rfl, .of_vai rfl fun _ _ => rfl⟩
  | manifest i D =>
    obtain rfl := Option.some.inj h
    exact .inl ⟨_, rfl, rfl, rfl, fun _ _ => rfl, ⟨[], by simp, fun e he => absurd he List.not_mem_nil⟩,
      fun _ _ h _ => h, id, id⟩
  | plan D =>
    obtain ⟨m, hm, rfl⟩ := Option.map_eq_some_iff.1 h
    exact .inl ⟨_, rfl, still_plan hq (isActive_of_activeMeta hk.keyed hm) (hk.active m hm) D⟩
  | submit D =>
    obtain ⟨m, hm, h⟩ := Option.bind_eq_some_iff.1 h
    obtain ⟨w, hw, rfl⟩ := Option.map_eq_some_iff.1 h
    obtain ⟨r, hr⟩ := went_eq_some.1 hw
    have ha := isActive_of_activeMeta hk.keyed hm
    exact .inr ⟨w, rfl, .submit m D r ha (hk.active m hm) (Merge.submitWithFs_landed ha hr) (submit_inactive hq hr)⟩
  | rollback id f =>
    obtain ⟨w, hw, rfl⟩ := Option.map_eq_some_iff.1 h
    obtain ⟨r, hr⟩ := went_eq_some.1 hw
    obtain ⟨m, hm⟩ := Version.rollback_found hr
    obtain ⟨hv, -, hs, -⟩ := (Version.rollback_spec hm f).ok hr
    exact .inr ⟨w, rfl, .rollback id f hv hs⟩

theorem Still.grown (h : Still w w') : Grown w.vai w'.vai := by
  refine ⟨fun id rec hrec => ?_, h.log, h.merged⟩
  rw [h.versions]
  exact hrec

theorem Kept.next_new (hk : Kept s) : s.world.vai.versions.get s.world.vai.nextVersionId = none := by
  refine Option.not_isSome_iff_eq_none.1 fun hsome => ?_
  obtain ⟨k, -, hk', hid⟩ := (hk.numbered.records _).1 hsome
  rw [VaiDir.nextVersionId, hk.numbered.maxVersion] at hid
  have := versionName_injective hid
  omega

theorem Makes.grown (hk : Kept s) (h : Makes env s.world w) : Grown s.world.vai w.vai := by
  have hinsert : ∀ {v' : VaiDir} {m : VersionMeta}, v'.versions = s.world.vai.versions.insert s.world.vai.nextVersionId m →
      ∀ id rec, s.world.vai.versions.get id = some rec → v'.versions.get id = some rec := by
    intro v' m hv id rec hrec
    rw [hv, FMap.get_insert, if_neg, hrec]
    rintro rfl
    rw [hk.next_new] at hrec
    cases hrec
  cases h with
  | submit m D r ha hst hl hoff =>
    obtain ⟨later, e, hlog, hown, hver, -⟩ := landed_log hl
    refine ⟨hinsert hver, ⟨later, hlog, fun ev he i m' hi hget => ?_⟩, fun i m' hget hmerged => ?_⟩
    · rw [hown ev he i hi, ha.record] at hget
      cases hget
      exact hst
    · rw [hl.workspaces, if_neg, hget]
      rintro rfl
      rw [ha.record] at hget
      cases hget
      exact hst hmerged
  | rollback id f hv hs =>
    obtain ⟨later, hlater, hkinds⟩ := pushEvents_eq [.rollbackCreated id s.world.vai.nextVersionId f,
      .versionCreated s.world.vai.nextVersionId (some s.world.vai.head) ("rollback ".toList ++ id)] s.world.vai.log
    refine ⟨hinsert (by rw [hv]; rfl), ⟨later, by rw [hv]; exact hlater, fun ev he i m' hi _ => ?_⟩,
      fun i m' hget _ => by rw [hv]; exact hget⟩
    have hmem := hkinds ▸ List.mem_map_of_mem (f := Event.kind) he
    rcases List.mem_cons.1 hmem with hk' | hk'
    · rw [hk'] at hi
      cases hi
    · rw [List.mem_singleton.1 hk'] at hi
      cases hi

theorem grown_step (hq : env.Quiet) (hk : Kept s) (h : step env a s = some s') : Grown s.world.vai s'.world.vai := by
  rcases step_cases hq hk h with ⟨w, rfl, hw⟩ | ⟨w, rfl, hw⟩
  · exact hw.grown
  · exact hw.grown hk

theorem Kept.still (hk : Kept s) (h : Still s.world w) : Kept (s.during w) := by
  have hvers : ∀ id, w.vai.versions.get id = s.world.vai.versions.get id := fun id => by rw [h.versions]
  refine ⟨⟨hk.numbered.pos, fun id => ?_, fun id m hm => hk.numbered.keyed id m ((hvers id).symm.trans hm), ?_⟩,
    fun n p hn => (h.snapshot n p).trans (hk.fresh n p hn), h.keyed hk.keyed, h.active hk.active, fun id rec e hrec he => ?_,
    fun k t rec ht hrec hm p hp => ?_⟩
  · exact (iff_of_eq (congrArg (fun o => o.isSome = true) (hvers id))).trans (hk.numbered.records id)
  · exact h.head.trans hk.numbered.head
  · exact h.grown.traced hk.traced ((hvers id).symm.trans hrec) he
  · exact (h.snapshot _ p).trans (hk.replaced k t rec ht ((hvers _).symm.trans hrec) hm p hp)

theorem Kept.makes (hk : Kept s) (h : Makes env s.world w) : Kept (s.onto w) := by
  have hgrown := h.grown hk
  have hlen : (s.onto w).made.length = s.made.length + 1 := by simp [onto]
  cases h with
  | submit m D r ha hst hl hoff =>
    obtain ⟨later, e, hlog, hown, hver, hev⟩ := landed_log hl
    have hget := hk.numbered.get_next hver
    have hsnap : ∀ n p, n ≤ s.made.length → (w.fs.snapshot (versionName n)).get p =
        (s.world.fs.snapshot (versionName n)).get p := by
      intro n p hn
      rw [hl.snapshot, if_neg]
      rw [hk.numbered.maxVersion]
      omega
    refine ⟨hlen ▸ hk.numbered.next rfl hver (hl.head.trans (by rw [VaiDir.nextVersionId])), fun n p hn => ?_,
      fun i m' hi => ?_, fun m' hm' => ?_, fun id rec e' hrec he' => ?_, fun k t rec ht hrec hm p hp => ?_⟩
    · rw [hlen] at hn
      refine (hl.snapshot n p).trans ((if_neg ?_).trans (hk.fresh n p (by omega)))
      rw [hk.numbered.maxVersion]
      omega
    · have hi := (hl.workspaces i).symm.trans hi
      split at hi
      · rename_i him
        cases hi
        exact him.symm
      · exact hk.keyed i m' hi
    · have hnone : activeMeta (s.onto w).world.vai = none := by
        unfold activeMeta
        rw [show (s.onto w).world.vai.active = none from hoff]
        rfl
      rw [hnone] at hm'
      cases hm'
    · have hrec := (hget id).symm.trans hrec
      split at hrec
      · cases hrec
        cases he'
        exact ⟨_, m.id, { m with status := .merged }, hev, rfl, (hl.workspaces m.id).trans (if_pos rfl), rfl⟩
      · exact hgrown.traced hk.traced hrec he'
    · rcases Nat.lt_or_ge k s.made.length with hlt | hge
      · have ht : s.made[k]? = some t := by
          rwa [onto, List.getElem?_append_left hlt] at ht
        have hrec := (hget _).symm.trans hrec
        rw [if_neg (fun he => by have := versionName_injective he; omega)] at hrec
        exact (hsnap _ p (by omega)).trans (hk.replaced k t rec ht hrec hm p hp)
      · obtain ⟨rfl, rfl⟩ : k = s.made.length ∧ t = ⟨s.world.fs.base, w.fs.base⟩ := by
          have hlt := (List.getElem?_eq_some_iff.1 ht).1
          rw [hlen] at hlt
          obtain rfl : k = s.made.length := by omega
          rw [onto, List.getElem?_concat_length] at ht
          exact ⟨rfl, (Option.some.inj ht).symm⟩
        -- the submit has changed the file, so it was in the overlay or among the deletions
        have htouched : p ∈ D ∨ ((s.world.fs.overlay m.id).get p).isSome := by
          by_contra hno
          obtain ⟨hD, hov⟩ := not_or.1 hno
          exact hp ((hl.base p).trans ((if_neg hD).trans (if_neg hov))).symm
        refine (hl.snapshot _ p).trans ?_
        rw [hk.numbered.maxVersion]
        cases s.world.fs.base.get p with
        | some b => exact if_pos ⟨rfl, htouched, by simp⟩
        | none => exact (if_neg (by simp)).trans (hk.fresh _ p (by omega))
  | rollback id f hv hs =>
    have hver : w.vai.versions = s.world.vai.versions.insert s.world.vai.nextVersionId
        (Version.rollbackRecord id s.world.vai) := by
      rw [hv]
      rfl
    have hget := hk.numbered.get_next hver
    refine ⟨hlen ▸ hk.numbered.next rfl hver (congrArg VaiDir.head hv), fun n p hn => ?_, fun i m' hi => ?_, fun m' hm' => ?_,
      fun id' rec e' hrec he' => ?_, fun k t rec ht hrec hm p hp => ?_⟩
    · rw [hlen] at hn
      rw [show (s.onto w).world.fs.snapshot = s.world.fs.snapshot from hs]
      exact hk.fresh n p (by omega)
    · exact hk.keyed i m' (by rw [← hi, show (s.onto w).world.vai = _ from hv]; rfl)
    · exact hk.active m' (by rw [← hm', show (s.onto w).world.vai = _ from hv]; rfl)
    · have hrec := (hget id').symm.trans hrec
      split at hrec
      · cases hrec
        cases he'
      · exact hgrown.traced hk.traced hrec he'
    · have hrec := (hget _).symm.trans hrec
      split at hrec
      · cases hrec
        cases hm
      · rename_i hne
        have hlt : k < s.made.length := by
          have hlt := (List.getElem?_eq_some_iff.1 ht).1
          rw [hlen] at hlt
          rcases Nat.lt_or_ge k s.made.length with h | h
          · exact h
          · exact absurd (by rw [show k = s.made.length by omega]) hne
        have ht : s.made[k]? = some t := by
          rwa [onto, List.getElem?_append_left hlt] at ht
        rw [show (s.onto w).world.fs.snapshot = s.world.fs.snapshot from hs]
        exact hk.replaced k t rec ht hrec hm p hp

theorem kept_start (T : List (Path × Bytes)) (repoId : Uuid) (name : Text) (graph : GraphSnapshot) :
    Kept (start T repoId name graph) := by
  refine ⟨numbered_init repoId name graph, fun _ _ _ => rfl, fun i m h => ?_, fun m h => ?_, fun id rec e hrec he => ?_,
    fun k t rec ht hrec hm p hp => ?_⟩
  · cases h
  · cases h
  · cases List.mem_singleton.1 (FMap.get_ofList_mem hrec)
    cases he
  · cases List.mem_singleton.1 (List.mem_of_getElem? ht)
    exact absurd rfl hp

theorem kept_step (hq : env.Quiet) (hk : Kept s) (h : step env a s = some s') : Kept s' := by
  rcases step_cases hq hk h with ⟨w, rfl, hw⟩ | ⟨w, rfl, hw⟩
  · exact hk.still hw
  · exact hk.makes hw

/-- **What holds in every run.** -/
theorem kept_run (hq : env.Quiet) {s₀ : Annals} (h₀ : Kept s₀) {l : List (Steps.Turn Act Annals)}
    (h : Steps.Ran (step env) s₀ l s) : Kept s := by
  induction h with
  | start => exact h₀
  | next _ a hs ih => exact kept_step hq ih hs

end

end Annals
end Vai
