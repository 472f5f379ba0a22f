import Vai.FilteredRollback
/-!
# RollbackImpact — which later versions a rollback would touch

`analyze_rollback_impact` of `version/mod.rs`: it compares the changes that the event log has of a version with those
that it has of every later one.  A version made by a rollback has no merge event, so the log has no changes of it, and it
is never listed, whatever files it has brought back.

`impact_exact`: in the runs in which every version, when it is made, has just its own changes in the log, the list is
exact, and where it is empty a rollback leaves what came later alone.
-/
namespace Vai
namespace Version

open Proc

inductive RiskLevel where
  | low | medium | high
  deriving DecidableEq, Repr

structure ImpactItem where
  versionId : Text
  intent : Text
  overlappingEntities : List Text
  overlappingFiles : List Path
  risk : RiskLevel
  deriving DecidableEq, Repr

structure ImpactAnalysis where
  targetVersion : VersionMeta
  targetChanges : VersionChanges
  downstreamImpacts : List ImpactItem
  deriving DecidableEq, Repr

/-- The item of a later version with these changes, when it has something in common with the target. -/
def impactItem (targetEntityIds : List Text) (targetFilePaths : List Path) (version : VersionMeta)
    (entityChanges : List VersionEntityChange) (fileChanges : List VersionFileChange) : Option ImpactItem :=
  let overlappingEntities := (entityChanges.filter (fun ec => ec.entityId ∈ targetEntityIds)).map
    (fun ec => ec.qualifiedName.getD ec.entityId)
  let overlappingFiles := (fileChanges.filter (fun fc => fc.path ∈ targetFilePaths)).map VersionFileChange.path
  if overlappingEntities.isEmpty && overlappingFiles.isEmpty then none
  else some { versionId := version.versionId, intent := version.intent, overlappingEntities, overlappingFiles,
              risk := if overlappingEntities.isEmpty then .low else .high }

section

variable {φ : Type} (env : Env)

/-- One version of the list. -/
def impactStep (targetNum : Nat) (targetEntityIds : List Text) (targetFilePaths : List Path) (items : List ImpactItem)
    (version : VersionMeta) : Proc (World φ) MergeError (List ImpactItem) :=
  if parseVersionNumber version.versionId ≤ targetNum then pure items
  else do
    let changes ← getVersionChanges env version.versionId
    pure (items ++ (impactItem targetEntityIds targetFilePaths version changes.entityChanges changes.fileChanges).toList)

def analyzeRollbackImpact (versionId : Text) : Proc (World φ) MergeError ImpactAnalysis := do
  let targetChanges ← getVersionChanges env versionId
  let targetNum := parseVersionNumber versionId
  let targetEntityIds := targetChanges.entityChanges.map VersionEntityChange.entityId
  let targetFilePaths := targetChanges.fileChanges.map VersionFileChange.path
  let allVersions ← onVai env (Proc.read VaiDir.listVersions)
  let downstreamImpacts ← allVersions.foldlM (impactStep env targetNum targetEntityIds targetFilePaths) []
  pure { targetVersion := targetChanges.version, targetChanges, downstreamImpacts }

end

/-! ## What the analysis lists -/

theorem versionId_of_impactItem {ids : List Text} {paths : List Path} {m : VersionMeta} {ecs : List VersionEntityChange}
    {fcs : List VersionFileChange} {item : ImpactItem} (h : impactItem ids paths m ecs fcs = some item) :
    item.versionId = m.versionId := by
  unfold impactItem at h
  dsimp only at h
  split at h
  · cases h
  · cases h
    rfl

theorem isSome_impactItem {ids : List Text} {paths : List Path} {m : VersionMeta} {ecs : List VersionEntityChange}
    {fcs : List VersionFileChange} : (impactItem ids paths m ecs fcs).isSome ↔
      (∃ ec ∈ ecs, ec.entityId ∈ ids) ∨ ∃ fc ∈ fcs, fc.path ∈ paths := by
  have hnil : ∀ {α β : Type} (l : List α) (p : α → Bool) (f : α → β), ((l.filter p).map f).isEmpty = false ↔ ∃ x ∈ l, p x = true := by
    intro α β l p f
    rw [List.isEmpty_eq_false_iff, ne_eq, List.map_eq_nil_iff, List.filter_eq_nil_iff]
    simp
  have hecs := hnil ecs (fun ec => decide (ec.entityId ∈ ids)) (fun ec => ec.qualifiedName.getD ec.entityId)
  have hfcs := hnil fcs (fun fc => decide (fc.path ∈ paths)) VersionFileChange.path
  simp only [decide_eq_true_eq] at hecs hfcs
  rw [← hecs, ← hfcs]
  unfold impactItem
  dsimp only
  split
  · rename_i hboth
    obtain ⟨h₁, h₂⟩ := Bool.and_eq_true_iff.1 hboth
    simp [h₁, h₂]
  · rename_i hboth
    simpa [Bool.and_eq_true_iff, -List.isEmpty_iff, imp_iff_not_or] using hboth

section

variable {φ : Type} {env : Env} {w : World φ} {m : VersionMeta}

/-- The ids and the paths that the log has of a version. -/
def idsOf (v : VaiDir) (m : VersionMeta) : List Text :=
  ((eventsOf v m).filterMap (fun e => entityChange e.kind)).map VersionEntityChange.entityId

def pathsOf (v : VaiDir) (m : VersionMeta) : List Path := (fileChangesOf (eventsOf v m)).map VersionFileChange.path

/-- What a later version has in common with the version `m`. -/
def itemOf (v : VaiDir) (m later : VersionMeta) : Option ImpactItem :=
  impactItem (idsOf v m) (pathsOf v m) later ((eventsOf v later).filterMap (fun e => entityChange e.kind))
    (fileChangesOf (eventsOf v later))

def impactsOf (v : VaiDir) (m : VersionMeta) : List ImpactItem :=
  (v.listVersions.filter (fun later => ¬ parseVersionNumber later.versionId ≤ parseVersionNumber m.versionId)).filterMap
    (itemOf v m)

theorem isSome_itemOf {v : VaiDir} {later : VersionMeta} : (itemOf v m later).isSome ↔
    (∃ id ∈ idsOf v later, id ∈ idsOf v m) ∨ ∃ p ∈ pathsOf v later, p ∈ pathsOf v m := by
  unfold itemOf
  rw [isSome_impactItem]
  simp only [idsOf, pathsOf, List.mem_map, exists_exists_and_eq_and]

theorem get_of_mem_listVersions {v : VaiDir} (hkey : v.Keyed) {later : VersionMeta} :
    later ∈ v.listVersions ↔ v.versions.get later.versionId = some later := by
  unfold VaiDir.listVersions
  rw [List.mem_insertionSort, List.mem_map]
  constructor
  · rintro ⟨⟨id, later'⟩, hpair, rfl⟩
    have hget := FMap.mem_pairs.1 hpair
    rw [hkey id later' hget]
    exact hget
  · exact fun h => ⟨(later.versionId, later), FMap.mem_pairs.2 h, rfl⟩

/-- **What the analysis answers**; it changes nothing. -/
theorem analyzeRollbackImpact_ends (hkey : w.vai.Keyed) (hm : w.vai.versions.get m.versionId = some m) :
    Ends (analyzeRollbackImpact env m.versionId) w
      (fun a w' => a.downstreamImpacts = impactsOf w.vai m ∧ w'.vai = w.vai ∧ w'.fs = w.fs) (fun _ _ => env.Faulty) := by
  unfold analyzeRollbackImpact
  refine Ends.bind (getVersionChanges_spec hm) (fun _ _ h => h) fun target w₁ ⟨hf₁, hv₁, hfiles, hentities⟩ => ?_
  refine Ends.bind (ends_onVai_of_ok rfl) (fun _ _ h => h) ?_
  rintro _ w₂ ⟨hf₂, rfl, hv₂⟩
  rw [hv₁] at hv₂ ⊢
  rw [hf₁] at hf₂
  refine Ends.bind (ends_foldlM (fun pre (items : List ImpactItem) w' => items = (pre.filter (fun later =>
      ¬ parseVersionNumber later.versionId ≤ parseVersionNumber m.versionId)).filterMap (itemOf w.vai m) ∧
      w'.vai = w.vai ∧ w'.fs = w.fs) w.vai.listVersions [] [] w₂ ⟨rfl, hv₂, hf₂⟩ ?_) (fun _ _ h => h)
    fun items w₃ ⟨hitems, hv₃, hf₃⟩ => ends_pure ⟨hitems, hv₃, hf₃⟩
  intro pre later post items w' hlist ⟨hitems, hv', hf'⟩
  unfold impactStep
  by_cases hle : parseVersionNumber later.versionId ≤ parseVersionNumber m.versionId
  · rw [if_pos hle]
    refine ends_pure ⟨?_, hv', hf'⟩
    rw [hitems, List.filter_append, List.filter_cons_of_neg (by simpa using hle)]
    simp
  · rw [if_neg hle]
    have hmem : later ∈ w.vai.listVersions := by
      rw [List.nil_append] at hlist
      rw [hlist]
      simp
    have hget : w'.vai.versions.get later.versionId = some later := by
      rw [hv']
      exact (get_of_mem_listVersions hkey).1 hmem
    refine Ends.bind (getVersionChanges_spec hget) (fun _ _ h => h) fun changes w₄ ⟨hf₄, hv₄, hfcs, hecs⟩ => ?_
    refine ends_pure ⟨?_, hv₄.trans hv', hf₄.trans hf'⟩
    rw [hitems, List.filter_append, List.filter_cons_of_pos (by simpa using hle), hfcs, hecs, hv', hfiles, hentities,
      List.filterMap_append]
    congr 1

end

end Version

/-! ## What the versions of a run have in common -/

namespace Annals

open Proc Steps

def ChangedFile (t : Made) (p : Path) : Prop := t.before.get p ≠ t.after.get p

def ChangedEntity (env : Env) (t : Made) (id : Text) : Prop :=
  ∃ p, ∃ ec ∈ entityChangesAt env p (t.before.get p) (t.after.get p), ec.entityId = id

/-- The two versions have changed one file, or one entity. -/
def Shares (env : Env) (t t' : Made) : Prop :=
  (∃ p, ChangedFile t p ∧ ChangedFile t' p) ∨ ∃ id, ChangedEntity env t id ∧ ChangedEntity env t' id

/-- For every version the analysis lists just the later versions that share a change with it, and where there are none,
a rollback leaves every file alone that a later version has changed. -/
def ImpactExact (env : Env) (s : Annals) : Prop := ∀ k t, s.made[k]? = some t →
  ∃ a w, Version.analyzeRollbackImpact env (versionName (k + 1)) s.world = (.ok a, w) ∧
    (∀ id, id ∈ a.downstreamImpacts.map Version.ImpactItem.versionId ↔
      ∃ k' t', k < k' ∧ s.made[k']? = some t' ∧ id = versionName (k' + 1) ∧ Shares env t t') ∧
    (a.downstreamImpacts = [] → ∃ r w', Version.rollback env (versionName (k + 1)) none s.world = (.ok r, w') ∧
      ∀ k' t', k < k' → s.made[k']? = some t' → ∀ p, ChangedFile t' p → w'.fs.base.get p = s.world.fs.base.get p)

/-- The log has of a version just the files and the entities that it changed. -/
structure Recorded (env : Env) (v : VaiDir) (id : Text) (t : Made) : Prop where
  files : ∀ p, (recordedChange v id p).isSome ↔ ChangedFile t p
  entities : ∀ x, x ∈ ((versionEvents v id).filterMap (fun e => Version.entityChange e.kind)).map
    Version.VersionEntityChange.entityId ↔ ChangedEntity env t x

/-- A version that the step makes is recorded. -/
def Records (env : Env) (a : Act) (s : Annals) : Prop := ∀ s', step env a s = some s' → ∀ t,
  s'.made = s.made ++ [t] → Recorded env s'.world.vai (versionName s'.made.length) t

section

variable {env : Env} {s s' : Annals} {k k' : Nat} {t t' : Made}

/-- Nothing is recorded of a rollback. -/
theorem recorded_rollback_iff {v : VaiDir} {id : Text} (hnone : versionEvents v id = []) :
    Recorded env v id t ↔ ∀ p, t.before.get p = t.after.get p := by
  have hfiles : ∀ p, recordedChange v id p = none := fun p => by
    unfold recordedChange
    rw [hnone]
    rfl
  constructor
  · intro h p
    by_contra hne
    have hsome := (h.files p).2 hne
    rw [hfiles] at hsome
    cases hsome
  · intro hsame
    refine ⟨fun p => ?_, fun x => ?_⟩
    · rw [hfiles]
      exact ⟨fun h => absurd h (by simp), fun h => absurd (hsame p) h⟩
    · rw [hnone]
      refine ⟨fun h => absurd h List.not_mem_nil, ?_⟩
      rintro ⟨p, ec, hec, -⟩
      rw [hsame, entityChangesAt_self] at hec
      cases hec

/-- Every version of a run is recorded. -/
def AllRecorded (env : Env) (s : Annals) : Prop := ∀ k t, s.made[k]? = some t →
  Recorded env s.world.vai (versionName (k + 1)) t

theorem Grown.recorded {v v' : VaiDir} (hg : Grown v v') (ht : Traced v) {id : Text} (hid : (v.versions.get id).isSome)
    (h : Recorded env v id t) : Recorded env v' id t := by
  have he := hg.versionEvents ht hid
  refine ⟨fun p => ?_, fun x => ?_⟩
  · rw [← h.files p, recordedChange, recordedChange, he]
  · rw [← h.entities x, he]

theorem allRecorded_start (T : List (Path × Bytes)) (repoId : Uuid) (name : Text) (graph : GraphSnapshot) :
    AllRecorded env (start T repoId name graph) := by
  intro k t ht
  have hlt := (List.getElem?_eq_some_iff.1 ht).1
  have hk : k = 0 := Nat.lt_one_iff.1 hlt
  subst hk
  obtain rfl := Option.some.inj ht
  refine (recorded_rollback_iff ?_).2 fun _ => rfl
  have hget : (start T repoId name graph).world.vai.versions.get (versionName 1) = some initialVersion :=
    (FMap.get_insert _ _ _ _).trans (if_pos rfl)
  rw [versionEvents_of_get hget]
  rfl

/-- **One step**: a version that is recorded stays so. -/
theorem allRecorded_step (hq : env.Quiet) {a : Act} (hk : Kept s) (hall : AllRecorded env s) (hrec : Records env a s)
    (h : step env a s = some s') : AllRecorded env s' := by
  have hg := grown_step hq hk h
  have hold : ∀ k t, s.made[k]? = some t → Recorded env s'.world.vai (versionName (k + 1)) t :=
    fun k t ht => hg.recorded hk.traced (hk.get_version ht) (hall k t ht)
  intro k t ht
  rcases step_cases hq hk h with ⟨w, rfl, -⟩ | ⟨w, rfl, -⟩
  · exact hold k t ht
  · rcases Nat.lt_or_ge k s.made.length with hlt | hge
    · exact hold k t (by rwa [onto, List.getElem?_append_left hlt] at ht)
    · have hlt := (List.getElem?_eq_some_iff.1 ht).1
      have hlen : (s.onto w).made.length = s.made.length + 1 := by simp [onto]
      obtain rfl : k = s.made.length := by omega
      rw [onto, List.getElem?_concat_length] at ht
      obtain rfl := Option.some.inj ht
      have hnew := hrec _ h _ rfl
      rwa [hlen] at hnew

theorem mem_pathsOf {v : VaiDir} {m : VersionMeta} {id : Text} (hm : v.versions.get id = some m) {p : Path} :
    p ∈ Version.pathsOf v m ↔ (recordedChange v id p).isSome := by
  unfold Version.pathsOf recordedChange
  rw [versionEvents_of_get hm, Option.isSome_map, List.mem_map]
  constructor
  · rintro ⟨c, hc, rfl⟩
    rw [Version.mem_fileChangesOf.1 hc]
    rfl
  · intro h
    obtain ⟨c, hc⟩ := Option.isSome_iff_exists.1 h
    have hp := Version.path_of_lastChange hc
    exact ⟨c, Version.mem_fileChangesOf.2 (by rw [hp, hc]), hp⟩

/-- The recorded changes of two versions meet where the versions share a change. -/
theorem isSome_itemOf_iff_shares (hall : AllRecorded env s) (ht : s.made[k]? = some t) (ht' : s.made[k']? = some t')
    {m m' : VersionMeta} (hm : s.world.vai.versions.get (versionName (k + 1)) = some m)
    (hm' : s.world.vai.versions.get (versionName (k' + 1)) = some m') :
    (Version.itemOf s.world.vai m m').isSome ↔ Shares env t t' := by
  have hids : ∀ {k : Nat} {t : Made} {m : VersionMeta}, s.made[k]? = some t →
      s.world.vai.versions.get (versionName (k + 1)) = some m →
      ∀ x, x ∈ Version.idsOf s.world.vai m ↔ ChangedEntity env t x := by
    intro k t m ht hm x
    rw [← (hall k t ht).entities x, versionEvents_of_get hm]
    rfl
  have hpaths : ∀ {k : Nat} {t : Made} {m : VersionMeta}, s.made[k]? = some t →
      s.world.vai.versions.get (versionName (k + 1)) = some m →
      ∀ p, p ∈ Version.pathsOf s.world.vai m ↔ ChangedFile t p := by
    intro k t m ht hm p
    rw [mem_pathsOf hm, (hall k t ht).files p]
  rw [Version.isSome_itemOf, or_comm]
  refine or_congr ?_ ?_
  · exact exists_congr fun p => by rw [hpaths ht' hm', hpaths ht hm, and_comm]
  · exact exists_congr fun x => by rw [hids ht' hm', hids ht hm, and_comm]

theorem Kept.keyedVersions (hk : Kept s) : s.world.vai.Keyed := fun id m h => hk.numbered.keyed id m h

theorem mem_impactsOf (hk : Kept s) (hall : AllRecorded env s) (ht : s.made[k]? = some t) {m : VersionMeta}
    (hm : s.world.vai.versions.get (versionName (k + 1)) = some m) (id : Text) :
    id ∈ (Version.impactsOf s.world.vai m).map Version.ImpactItem.versionId ↔
      ∃ k' t', k < k' ∧ s.made[k']? = some t' ∧ id = versionName (k' + 1) ∧ Shares env t t' := by
  have hmid := hk.numbered.keyed _ m hm
  unfold Version.impactsOf
  simp only [List.mem_map, List.mem_filterMap, List.mem_filter, decide_eq_true_eq, Version.get_of_mem_listVersions hk.keyedVersions,
    hmid, parseVersionNumber_versionName]
  constructor
  · rintro ⟨item, ⟨m', ⟨hm', hlater⟩, hitem⟩, rfl⟩
    obtain ⟨n, hn, hlen, hid⟩ := (hk.numbered.records m'.versionId).1 (by rw [hm']; rfl)
    obtain ⟨k', rfl⟩ : ∃ k', n = k' + 1 := ⟨n - 1, by omega⟩
    rw [hid, parseVersionNumber_versionName] at hlater
    have hlt : k' < s.made.length := by omega
    refine ⟨k', s.made[k'], by omega, List.getElem?_eq_getElem hlt, ?_, ?_⟩
    · rw [Version.versionId_of_impactItem hitem, hid]
    · refine (isSome_itemOf_iff_shares hall ht (List.getElem?_eq_getElem hlt) hm (by rw [← hid]; exact hm')).1 ?_
      rw [hitem]
      rfl
  · rintro ⟨k', t', hlt, ht', rfl, hshare⟩
    obtain ⟨m', hm'⟩ := Option.isSome_iff_exists.1 (hk.get_version ht')
    have hmid' := hk.numbered.keyed _ m' hm'
    obtain ⟨item, hitem⟩ := Option.isSome_iff_exists.1 ((isSome_itemOf_iff_shares hall ht ht' hm hm').2 hshare)
    refine ⟨item, ⟨m', ⟨by rw [hmid']; exact hm', ?_⟩, hitem⟩, ?_⟩
    · rw [hmid', parseVersionNumber_versionName]
      omega
    · rw [Version.versionId_of_impactItem hitem, hmid']

theorem impact_of_recorded (hq : env.Quiet) (hk : Kept s) (hall : AllRecorded env s) : ImpactExact env s := by
  intro k t ht
  obtain ⟨m, hm⟩ := Option.isSome_iff_exists.1 (hk.get_version ht)
  have hmid := hk.numbered.keyed _ m hm
  have hends := @Version.analyzeRollbackImpact_ends _ env _ _ hk.keyedVersions (by rw [hmid]; exact hm)
  rw [hmid] at hends
  obtain ⟨a, w, hrun, ha, -⟩ := hends.exists_ok fun e w' he => hq.not_faulty he
  have hlist := mem_impactsOf hk hall ht hm
  rw [← ha] at hlist
  refine ⟨a, w, hrun, hlist, fun hnil => ?_⟩
  have hroll := @Version.rollback_spec env _ _ _ hm none
  obtain ⟨r, w', hrun', -, -, -, hbase⟩ := hroll.exists_ok fun e w' he => by
    rcases he with hf | hf
    · exact hq.not_fsFaulty hf
    · exact hq.not_faulty hf
  refine ⟨r, w', hrun', fun k' t' hlt ht' p hp => ?_⟩
  have hnot : ¬ ChangedFile t p := by
    intro hc
    have hmem := (hlist (versionName (k' + 1))).2 ⟨k', t', hlt, ht', rfl, .inl ⟨p, hc, hp⟩⟩
    rw [hnil] at hmem
    cases hmem
  have hnone : Version.lastChange (Version.eventsOf s.world.vai m) p = none := by
    have hrec := (hall k t ht).files p
    rw [recordedChange, versionEvents_of_get hm, Option.isSome_map] at hrec
    exact Option.not_isSome_iff_eq_none.1 fun h => hnot (hrec.1 h)
  rw [hbase p]
  unfold Version.restored Version.undone
  rw [hnone]
  rfl

/-- **When the impact analysis misses nothing.**  In every run in which each version, when it is made, has in the log
just the files and the entities it has changed, the analysis is exact in the state reached, and an empty list means that
a rollback leaves what came later in place. -/
theorem impact_exact (hq : env.Quiet) {T : List (Path × Bytes)} {repoId : Uuid} {name : Text} {graph : GraphSnapshot}
    {l : List (Turn Act Annals)} (hrun : Ran (step env) (start T repoId name graph) l s)
    (hrec : ∀ turn ∈ l, Records env turn.action turn.before) : ImpactExact env s := by
  have hstep : ∀ (a : Act) (s s' : Annals), (Kept s ∧ AllRecorded env s) → Records env a s → step env a s = some s' →
      Kept s' ∧ AllRecorded env s' :=
    fun a s s' hs hr h => ⟨kept_step hq hs.1 h, allRecorded_step hq hs.1 hs.2 hr h⟩
  obtain ⟨hk, hall⟩ := hrun.keeps hstep ⟨kept_start T repoId name graph, allRecorded_start T repoId name graph⟩ hrec
  exact impact_of_recorded hq hk hall

end

/-! ## The record of a submit -/

section

variable {env : Env} {m : WorkspaceMeta} {D : List Path} {r : SubmitResult} {w w' : World Disk}

/-- The files that the log has of a submitted version: the deletions, the overlay of a workspace that is recorded only
now, and what was recorded of the workspace before. -/
theorem recordedChange_submit (hq : env.Quiet) (hl : Merge.Landed env m D r w w') (p : Path) :
    (recordedChange w'.vai r.version.versionId p).isSome ↔
      p ∈ D ∨ (m.status = .created ∧ ((w.fs.overlay m.id).get p).isSome) ∨
        (Version.lastChange (w.vai.queryByWorkspace m.id) p).isSome := by
  obtain ⟨l, d, rec, hlist, hd, hrec, hlast⟩ := Merge.lastChange_submitted hq hl (Merge.Idle.refl m.id w')
  unfold recordedChange
  rw [versionEvents_of_get hrec, Option.isSome_map, hlast]
  by_cases hD : p ∈ D
  · obtain ⟨c, hc, -⟩ := Version.lastKind_removals m.id hD
    simp [hc, hD]
  obtain ⟨hnew, hold⟩ := Merge.lastKind_events hd hD
  rw [Version.lastKind_removals_none m.id hD, Option.none_or]
  by_cases hc : m.status = .created
  · rw [if_pos hc]
    by_cases hov : ((w.fs.overlay m.id).get p).isSome
    · obtain ⟨c, hlate, -⟩ := hnew ((hlist.2 p).2 hov)
      simp [hlate, hc, hov]
    · rw [hold fun h => hov ((hlist.2 p).1 h)]
      simp [hD, hov]
  · simp [Version.lastKind, hc, hD]

end

/-! ## Two submits, and a rollback -/

/-- The last version of a run is recorded, if it changes the file `a.rs` and the function `a` only. -/
def recordsOne (s : Annals) : Bool :=
  match s.made.getLast? with
  | some t =>
    let events := versionEvents s.world.vai (versionName s.made.length)
    decide ((Version.fileChangesOf events).map Version.VersionFileChange.path = [fileA]) &&
    decide ((events.filterMap (fun e => Version.entityChange e.kind)).map Version.VersionEntityChange.entityId =
      ["a.rs::a".toList]) &&
    decide (t.before.get fileA ≠ t.after.get fileA) &&
    (t.before.pairs.map Prod.fst ++ t.after.pairs.map Prod.fst).all (fun p => decide (p = fileA)) &&
    decide ((entityChangesAt parsed fileA (t.before.get fileA) (t.after.get fileA)).map EntityChange.entityId =
      ["a.rs::a".toList])
  | none => false

theorem recorded_of_recordsOne {s : Annals} {t : Made} (h : recordsOne s = true) (ht : s.made.getLast? = some t)
    (hk : Kept s) : Recorded parsed s.world.vai (versionName s.made.length) t := by
  unfold recordsOne at h
  rw [ht] at h
  simp only [Bool.and_eq_true, decide_eq_true_eq, List.all_eq_true] at h
  obtain ⟨⟨⟨⟨hfiles, hids⟩, hne⟩, honly⟩, hentities⟩ := h
  have hother : ∀ p, p ≠ fileA → t.before.get p = none ∧ t.after.get p = none := fun p hp =>
    ⟨get_of_not_mem fun hm => hp (honly p (List.mem_append_left _ hm)),
      get_of_not_mem fun hm => hp (honly p (List.mem_append_right _ hm))⟩
  obtain ⟨m, hm⟩ := Option.isSome_iff_exists.1 ((hk.numbered.records _).2 ⟨s.made.length, hk.numbered.pos, le_rfl, rfl⟩)
  have hpaths := hfiles
  rw [versionEvents_of_get hm] at hpaths
  refine ⟨fun p => ?_, fun x => ?_⟩
  · rw [← mem_pathsOf hm, Version.pathsOf, hpaths, List.mem_singleton]
    constructor
    · rintro rfl
      exact hne
    · intro hc
      by_contra hp
      exact hc ((hother p hp).1.trans (hother p hp).2.symm)
  · rw [hids]
    constructor
    · intro hx
      rw [← hentities] at hx
      obtain ⟨ec, hec, hx⟩ := List.mem_map.1 hx
      exact ⟨fileA, ec, hec, hx⟩
    · rintro ⟨p, ec, hec, rfl⟩
      by_cases hp : p = fileA
      · subst hp
        rw [← hentities]
        exact List.mem_map_of_mem hec
      · rw [(hother p hp).1, (hother p hp).2, entityChangesAt_self] at hec
        cases hec

/-- The step of a turn makes no version, or one that is recorded. -/
def turnRecords (turn : Turn Act Annals) : Bool :=
  match step parsed turn.action turn.before with
  | some s' => decide (s'.made.length = turn.before.made.length) || recordsOne s'
  | none => true

theorem records_of_turnRecords {turn : Turn Act Annals} (hk : Kept turn.before) (h : turnRecords turn = true) :
    Records parsed turn.action turn.before := by
  intro s' hs t ht
  unfold turnRecords at h
  rw [hs] at h
  rcases Bool.or_eq_true_iff.1 h with hsame | hone
  · have hlen : s'.made.length = turn.before.made.length + 1 := by rw [ht]; simp
    have := of_decide_eq_true hsame
    omega
  · exact recorded_of_recordsOne hone (by rw [ht]; simp) (kept_step quiet_parsed hk hs)

/-- A function is added and rewritten: the second version is listed for the first. -/
theorem impact_exact_rewritten : ∃ l s a w, Ran (step parsed) (start [] 0 [] ∅) l s ∧
    Version.analyzeRollbackImpact parsed (versionName 2) s.world = (.ok a, w) ∧
    versionName 3 ∈ a.downstreamImpacts.map Version.ImpactItem.versionId := by
  obtain ⟨l, s, hr, hrun⟩ := run_of (submission 1 Merge.onlyA ++ submission 2 rewrittenA) (by decide +kernel)
  have hchecked : (runOf (submission 1 Merge.onlyA ++ submission 2 rewrittenA)).map (fun r => r.1.all turnRecords) = some true := by
    decide +kernel
  rw [hr, Option.map_some, Option.some_inj, List.all_eq_true] at hchecked
  have hkept := hrun.before (fun _ _ _ hk hs => kept_step quiet_parsed hk hs) (kept_start [] 0 [] ∅)
  have hexact := impact_exact quiet_parsed hrun fun turn ht => records_of_turnRecords (hkept turn ht) (hchecked turn ht)
  have hold : (s.made[1]?).map (fun t => decide (t.before.get fileA ≠ t.after.get fileA)) = some true :=
    at_end hr (fun s => (s.made[1]?).map (fun t => decide (t.before.get fileA ≠ t.after.get fileA))) (by decide +kernel)
  have hnew : (s.made[2]?).map (fun t => decide (t.before.get fileA ≠ t.after.get fileA)) = some true :=
    at_end hr (fun s => (s.made[2]?).map (fun t => decide (t.before.get fileA ≠ t.after.get fileA))) (by decide +kernel)
  obtain ⟨t, ht, hc⟩ := Option.map_eq_some_iff.1 hold
  obtain ⟨t', ht', hc'⟩ := Option.map_eq_some_iff.1 hnew
  obtain ⟨a, w, hrun', hlist, -⟩ := hexact 1 t ht
  exact ⟨l, s, a, w, hrun, hrun', (hlist _).2 ⟨2, t', by omega, ht', rfl,
    .inl ⟨fileA, (decide_eq_true_iff.1 hc : t.before.get fileA ≠ _), (decide_eq_true_iff.1 hc' : t'.before.get fileA ≠ _)⟩⟩⟩

/-- The file is added, rewritten, and deleted by a rollback of the first version.  For the second version nothing is
listed, and yet a rollback of it brings the file back. -/
theorem rollback_version_is_never_listed : ∃ l s, Ran (step parsed) (start [] 0 [] ∅) l s ∧
    (Version.analyzeRollbackImpact parsed (versionName 3) s.world).1.map Version.ImpactAnalysis.downstreamImpacts = .ok [] ∧
    s.world.fs.base.get fileA = none ∧
    (Version.rollback parsed (versionName 3) none s.world).2.fs.base.get fileA = some Merge.onlyA ∧
    ¬ ImpactExact parsed s := by
  obtain ⟨l, s, hr, hrun⟩ := run_of (submission 1 Merge.onlyA ++ submission 2 rewrittenA ++
    [.rollback (versionName 2) none]) (by decide +kernel)
  have hlist := at_end hr (fun s => (Version.analyzeRollbackImpact parsed (versionName 3) s.world).1.map
    Version.ImpactAnalysis.downstreamImpacts) (x := .ok []) (by decide +kernel)
  have hnow := at_end hr (fun s => s.world.fs.base.get fileA) (x := none) (by decide +kernel)
  have hback := at_end hr (fun s => (Version.rollback parsed (versionName 3) none s.world).2.fs.base.get fileA)
    (x := some Merge.onlyA) (by decide +kernel)
  have hmade := at_end hr (fun s => (s.made[2]?).isSome) (x := true) (by decide +kernel)
  have hdel := at_end hr (fun s => (s.made[3]?).map (fun t => decide (t.before.get fileA ≠ t.after.get fileA)))
    (x := some true) (by decide +kernel)
  refine ⟨l, s, hrun, hlist, hnow, hback, fun hexact => ?_⟩
  obtain ⟨t, ht⟩ := Option.isSome_iff_exists.1 hmade
  obtain ⟨t', ht', hc'⟩ := Option.map_eq_some_iff.1 hdel
  obtain ⟨a, w, hrun', -, hsafe⟩ := hexact 2 t ht
  have hnil : a.downstreamImpacts = [] := by
    rw [hrun'] at hlist
    exact Except.ok.inj hlist
  obtain ⟨r, w', hroll, hkeep⟩ := hsafe hnil
  have hsame := hkeep 3 t' (by omega) ht' fileA (decide_eq_true_iff.1 hc' : t'.before.get fileA ≠ _)
  have hw : w' = (Version.rollback parsed (versionName 3) none s.world).2 := (congrArg Prod.snd hroll).symm
  rw [hw, hback, hnow] at hsame
  cases hsame

end Annals
end Vai
