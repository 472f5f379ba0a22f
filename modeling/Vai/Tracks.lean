import Vai.Landed
import Vai.Rollback
/-!
# Tracks — the graph and the tree

The graph tracks the tree when its entities are those of the supported source files, each parsed at its current content.
A submit parses again every file of its diff that it can read afterwards, so a file it deletes keeps its entities; a
rollback changes files and does not touch the graph.  `tracks_iff`: these are the only ways to lose track.
-/
namespace Vai

open Merge (isSupportedSourceFile tree regraph Changed)
open GraphSnapshot (Sourced parsed)

section
variable (env : Env)

/-- The entities of a file, none when it is absent. -/
def entitiesAt (p : Path) : Option Bytes → FMap Text Entity
  | some c => parsed env p c
  | none => ∅

/-- The rows of the graph are the entities of the supported source files of the tree. -/
def GraphSnapshot.Tracks (g : GraphSnapshot) (t : Path → Option Bytes) : Prop :=
  ∀ i e, g.entities.get i = some e ↔ ∃ p, isSupportedSourceFile p ∧ (entitiesAt env p (t p)).get i = some e

/-- The repository's graph tracks its base tree. -/
def World.Tracks (w : World Disk) : Prop := w.vai.graph.Tracks env w.fs.base.get

/-! ## Runs -/

inductive TreeOp where
  | submit (m : WorkspaceMeta) (D : List Path)
  | rollback (id : Text) (entityFilter : Option Text)
  | edit

/-- A submit or rollback that succeeds, or anything that leaves the tree and the graph alone. -/
inductive TreeStep : TreeOp → World Disk → World Disk → Prop where
  | submit {m : WorkspaceMeta} {D : List Path} {r : SubmitResult} {w w' : World Disk} (ha : w.vai.IsActive m)
      (hs : Merge.submitWithFs env (diskMergeFs env m.id) m D w = (.ok r, w')) : TreeStep (.submit m D) w w'
  | rollback {id : Text} {entityFilter : Option Text} {r : Version.RollbackResult} {w w' : World Disk}
      (hs : Version.rollback env id entityFilter w = (.ok r, w')) : TreeStep (.rollback id entityFilter) w w'
  | edit {w w' : World Disk} (hbase : ∀ p, w'.fs.base.get p = w.fs.base.get p) (hgraph : w'.vai.graph = w.vai.graph) :
      TreeStep .edit w w'

/-- The steps of a run from `w`, each with the state after it. -/
inductive TreeRun : World Disk → List (TreeOp × World Disk) → Prop where
  | nil {w : World Disk} : TreeRun w []
  | cons {op : TreeOp} {w w' : World Disk} {rest : List (TreeOp × World Disk)} (h : TreeStep env op w w')
      (hr : TreeRun w' rest) : TreeRun w ((op, w') :: rest)

/-- A submit deletes no supported source file that has entities; a rollback changes the entities of none. -/
def TreeOp.Clean (w : World Disk) : TreeOp → Prop
  | .submit _ D => ∀ p ∈ D, isSupportedSourceFile p → ∀ i, (entitiesAt env p (w.fs.base.get p)).get i = none
  | .rollback id entityFilter => ∀ rec, w.vai.versions.get id = some rec → ∀ p, isSupportedSourceFile p →
    ∀ i, (entitiesAt env p (Version.restored w id rec entityFilter p)).get i = (entitiesAt env p (w.fs.base.get p)).get i
  | .edit => True

/-- Every step of the run is clean. -/
def CleanRun : World Disk → List (TreeOp × World Disk) → Prop
  | _, [] => True
  | w, s :: rest => s.1.Clean env w ∧ CleanRun s.2 rest

end

variable {env : Env} {g : GraphSnapshot} {t t' : Path → Option Bytes}

theorem get_entitiesAt (hi : env.EntityIds) {p : Path} {o : Option Bytes} {i : Text} {e : Entity}
    (h : (entitiesAt env p o).get i = some e) : e.id = i ∧ e.filePath = p := by
  cases o with
  | none => simp [entitiesAt] at h
  | some c =>
    obtain ⟨hid, r, hr, he⟩ := GraphSnapshot.get_parsed h
    exact ⟨hid, hi.filePath hr e he⟩

/-- Under the parsers' promises only the entity's own file matters. -/
theorem GraphSnapshot.tracks_iff_filePath (hi : env.EntityIds) : g.Tracks env t ↔ ∀ i e, g.entities.get i = some e ↔
    isSupportedSourceFile e.filePath ∧ (entitiesAt env e.filePath (t e.filePath)).get i = some e := by
  have key : ∀ i e, (∃ p, isSupportedSourceFile p ∧ (entitiesAt env p (t p)).get i = some e) ↔
      isSupportedSourceFile e.filePath ∧ (entitiesAt env e.filePath (t e.filePath)).get i = some e := by
    intro i e
    constructor
    · rintro ⟨p, hp, h⟩
      rw [(get_entitiesAt hi h).2]
      exact ⟨hp, h⟩
    · exact fun h => ⟨e.filePath, h⟩
  unfold GraphSnapshot.Tracks
  simp only [key]

theorem GraphSnapshot.Tracks.sourced (hi : env.EntityIds) (h : g.Tracks env t) : Sourced env g := by
  intro i e he
  obtain ⟨p, -, hp⟩ := (h i e).1 he
  cases ht : t p with
  | none =>
    rw [ht] at hp
    simp [entitiesAt] at hp
  | some c =>
    rw [ht] at hp
    obtain ⟨hid, r, hr, her⟩ := GraphSnapshot.get_parsed hp
    exact ⟨hid, c, r, by rwa [hi.filePath hr e her], her⟩

/-! ## The graph update of a submit -/

theorem sourced_regraph (hi : env.EntityIds) (hs : Sourced env g) (p : Path) : Sourced env (regraph env t g p) := by
  unfold regraph
  split
  · split
    · exact GraphSnapshot.sourced_updateFile hi hs p _
    · exact hs
  · exact hs

theorem get_regraph (hi : env.EntityIds) (hs : Sourced env g) (p : Path) (i : Text) (e : Entity) :
    (regraph env t g p).entities.get i = some e ↔
      if e.filePath = p ∧ isSupportedSourceFile p ∧ (t p).isSome then (entitiesAt env p (t p)).get i = some e
      else g.entities.get i = some e := by
  unfold regraph
  cases ht : t p with
  | none => simp
  | some c =>
    simp only [Option.isSome_some, and_true, entitiesAt]
    by_cases hsup : isSupportedSourceFile p
    · -- rows stand under their own id on both sides
      have hown := GraphSnapshot.sourced_updateFile hi hs p c
      rw [if_pos hsup]
      by_cases hid : e.id = i
      · subst hid
        have hu := GraphSnapshot.holds_updateFile hi hs (p := p) (c := c) (e := e)
        unfold GraphSnapshot.Holds at hu
        rw [hu]
        simp [hsup]
      · constructor
        · exact fun h => absurd (hown i e h).1 hid
        · intro h
          split at h
          · exact absurd (GraphSnapshot.get_parsed h).1 hid
          · exact absurd (hs i e h).1 hid
    · rw [if_neg hsup]
      simp [hsup]

/-- The update over a list of paths: the supported ones that are there are parsed again. -/
theorem get_foldl_regraph (hi : env.EntityIds) : ∀ (ps : List Path) {g : GraphSnapshot}, Sourced env g →
    ∀ i e, (ps.foldl (regraph env t) g).entities.get i = some e ↔
      if e.filePath ∈ ps ∧ isSupportedSourceFile e.filePath ∧ (t e.filePath).isSome
      then (entitiesAt env e.filePath (t e.filePath)).get i = some e else g.entities.get i = some e
  | [], g, _, i, e => by simp
  | p :: ps, g, hs, i, e => by
    rw [List.foldl_cons, get_foldl_regraph hi ps (sourced_regraph hi hs p), get_regraph hi hs]
    by_cases hp : e.filePath = p
    · subst hp
      by_cases hc : isSupportedSourceFile e.filePath ∧ (t e.filePath).isSome
      · simp [hc.1, hc.2]
      · by_cases hm : e.filePath ∈ ps <;> simp [hc, hm]
    · by_cases hc : isSupportedSourceFile e.filePath ∧ (t e.filePath).isSome
      · simp [hc.1, hc.2, hp]
      · simp [hc, hp]

/-- **A graph update that reads only what is there loses track exactly of the files that went.** -/
theorem tracks_foldl_regraph (hi : env.EntityIds) (h : g.Tracks env t) {ps : List Path}
    (hsame : ∀ p, p ∉ ps → t' p = t p) :
    (ps.foldl (regraph env t') g).Tracks env t' ↔
      ∀ p, isSupportedSourceFile p → t' p = none → ∀ i, (entitiesAt env p (t p)).get i = none := by
  have hfold := get_foldl_regraph (t := t') hi ps (h.sourced hi)
  rw [GraphSnapshot.tracks_iff_filePath hi] at h ⊢
  constructor
  · intro h' p hsup hnone i
    cases he : (entitiesAt env p (t p)).get i with
    | none => rfl
    | some e =>
      obtain ⟨-, rfl⟩ := get_entitiesAt hi he
      have hg := (h i e).2 ⟨hsup, he⟩
      have hg' := (hfold i e).2 (by rwa [if_neg (by simp [hnone])])
      have := ((h' i e).1 hg').2
      rw [hnone] at this
      simp [entitiesAt] at this
  · intro hcond i e
    rw [hfold]
    by_cases hsup : isSupportedSourceFile e.filePath
    · by_cases hm : e.filePath ∈ ps
      · cases ht : t' e.filePath with
        | some c => simp [hm, hsup]
        | none =>
          simp only [hm, hsup, Option.isSome_none, Bool.false_eq_true, and_false, if_false, true_and, entitiesAt]
          rw [h i e]
          simp [hcond e.filePath hsup ht i]
      · rw [if_neg (fun hc => hm hc.1), h i e, hsame _ hm]
    · rw [if_neg (fun hc => hsup hc.2.1), h i e]
      simp [hsup]

/-! ## The steps -/

/-- **A submit keeps track exactly when it deletes no supported source file that has entities.** -/
theorem tracks_submit (hq : env.Quiet) (hi : env.EntityIds) {m : WorkspaceMeta} {D : List Path} {r : SubmitResult}
    {w w' : World Disk} (ha : w.vai.IsActive m)
    (hs : Merge.submitWithFs env (diskMergeFs env m.id) m D w = (.ok r, w')) (h : w.Tracks env) :
    w'.Tracks env ↔ TreeOp.Clean env w (.submit m D) := by
  obtain ⟨hacc, hm, hg⟩ :=
    (Merge.submitWithFs_spec (Merge.disk_contract env m.id w.fs) Or.inr (Disk.rep_self m.id w.fs) ha D).ok hs
  have hno : ¬ (env.FsFaulty ∨ env.Faulty) := fun hf => hf.elim hq.not_fsFaulty hq.not_faulty
  obtain ⟨l, hl, hgraph⟩ := hg hno
  have hbase : w'.fs.base.get = tree env m (w.fs.files m.id) D w.vai := funext fun p => congrFun hm.files.files (.base p)
  have hmem : ∀ p, p ∈ l ++ D.filter (fun p => (w.fs.files m.id (.base p)).isSome) ↔ Changed (w.fs.files m.id) D p :=
    fun p => Merge.mem_diff hl
  have hsame : ∀ p, p ∉ l ++ D.filter (fun p => (w.fs.files m.id (.base p)).isSome) →
      tree env m (w.fs.files m.id) D w.vai p = w.fs.base.get p := by
    intro p hp
    rw [hmem, Changed, not_or, not_and] at hp
    unfold tree
    by_cases hD : p ∈ D
    · rw [if_pos hD]
      exact (Option.not_isSome_iff_eq_none.1 (hp.2 hD)).symm
    · rw [if_neg hD, if_neg hp.1]
      rfl
  unfold World.Tracks at h ⊢
  rw [hbase, hgraph, tracks_foldl_regraph hi h hsame]
  unfold TreeOp.Clean
  constructor
  · intro hc p hD hsup
    exact hc p hsup (by rw [tree, if_pos hD])
  · intro hc p hsup hnone i
    by_cases hD : p ∈ D
    · exact hc p hD hsup i
    · -- a file that is not deleted is gone only if it was not there
      rw [tree, if_neg hD] at hnone
      split at hnone
      · rename_i hov
        obtain ⟨c, hf⟩ := hacc.merges p hov
        rw [hf] at hnone
        cases hnone
      · have hb : w.fs.base.get p = none := hnone
        rw [hb]
        exact FMap.get_empty i

/-- **A rollback keeps track exactly when it changes the entities of no supported source file.** -/
theorem tracks_rollback (hi : env.EntityIds) {id : Text} {entityFilter : Option Text} {r : Version.RollbackResult}
    {w w' : World Disk} (hs : Version.rollback env id entityFilter w = (.ok r, w')) (h : w.Tracks env) :
    w'.Tracks env ↔ TreeOp.Clean env w (.rollback id entityFilter) := by
  obtain ⟨rec, hrec⟩ : ∃ rec, w.vai.versions.get id = some rec := by
    unfold Version.rollback Version.getVersionChanges at hs
    obtain ⟨_, _, hget, -⟩ := Proc.bind_eq_ok.1 hs
    obtain ⟨_, _, hget', -⟩ := Proc.bind_eq_ok.1 hget
    have hv := (onVai_ok hget').1
    unfold VaiDir.getVersion at hv
    cases hr : w.vai.versions.get id with
    | none =>
      rw [hr] at hv
      cases hv
    | some rec => exact ⟨rec, rfl⟩
  obtain ⟨hvai, -, -, hbase⟩ := (Version.rollback_spec hrec entityFilter).ok hs
  have hgraph : w'.vai.graph = w.vai.graph := by
    rw [hvai]
    rfl
  have htree : w'.fs.base.get = Version.restored w id rec entityFilter := funext hbase
  unfold World.Tracks at h ⊢
  rw [hgraph, htree]
  rw [GraphSnapshot.tracks_iff_filePath hi] at h ⊢
  unfold TreeOp.Clean
  constructor
  · intro h' rec' hrec' p hsup i
    rw [hrec] at hrec'
    cases hrec'
    apply Option.ext
    intro e
    constructor
    · intro he
      obtain ⟨-, rfl⟩ := get_entitiesAt hi he
      exact ((h i e).1 ((h' i e).2 ⟨hsup, he⟩)).2
    · intro he
      obtain ⟨-, rfl⟩ := get_entitiesAt hi he
      exact ((h' i e).1 ((h i e).2 ⟨hsup, he⟩)).2
  · intro hc i e
    rw [h i e]
    constructor
    · exact fun ⟨hsup, he⟩ => ⟨hsup, by rw [hc rec hrec _ hsup]; exact he⟩
    · exact fun ⟨hsup, he⟩ => ⟨hsup, by rw [← hc rec hrec _ hsup]; exact he⟩

theorem tracks_step (hq : env.Quiet) (hi : env.EntityIds) {op : TreeOp} {w w' : World Disk} (hs : TreeStep env op w w')
    (h : w.Tracks env) : w'.Tracks env ↔ op.Clean env w := by
  cases hs with
  | submit ha hs => exact tracks_submit hq hi ha hs h
  | rollback hs => exact tracks_rollback hi hs h
  | edit hbase hgraph =>
    have hb : w'.fs.base.get = w.fs.base.get := funext hbase
    unfold World.Tracks at h ⊢
    rw [hgraph, hb]
    exact ⟨fun _ => trivial, fun _ => h⟩

/-- **The graph tracks the tree in every state of a run exactly when no submit of the run deletes a supported source
file that has entities, and no rollback of it changes the entities of one.** -/
theorem tracks_iff (hq : env.Quiet) (hi : env.EntityIds) {w : World Disk} {steps : List (TreeOp × World Disk)}
    (hr : TreeRun env w steps) (h : w.Tracks env) : (∀ s ∈ steps, s.2.Tracks env) ↔ CleanRun env w steps := by
  induction hr with
  | nil => exact ⟨fun _ => trivial, fun _ s hs => absurd hs List.not_mem_nil⟩
  | cons hstep _ ih =>
    have hone := tracks_step hq hi hstep h
    constructor
    · intro hall
      have hw := hall _ List.mem_cons_self
      exact ⟨hone.1 hw, (ih hw).1 (fun s hs => hall s (List.mem_cons_of_mem _ hs))⟩
    · rintro ⟨hc, hrest⟩ s hs
      have hw := hone.2 hc
      rcases List.mem_cons.1 hs with rfl | hs
      · exact hw
      · exact (ih hw).2 hrest s hs

/-! ## One file -/

/-- A parser that finds one function in every file. -/
def oneFunction : Env :=
  { Env.plain with
    parseSourceFile := fun p _ => .ok ([⟨p, .function, "main".toList, "main".toList, p, (0, 1), (1, 1), none⟩], []) }

theorem oneFunction_quiet : oneFunction.Quiet := ⟨fun _ => rfl, fun _ => rfl⟩

theorem oneFunction_entityIds : oneFunction.EntityIds := by
  constructor
  · intro p c r h e he
    cases h
    rw [List.mem_singleton.1 he]
  · intro p c r p' c' r' h h' e he e' he' hid
    cases h
    cases h'
    rw [List.mem_singleton.1 he, List.mem_singleton.1 he'] at hid
    exact hid

def mainRs : Path := "main.rs".toList

/-- `main.rs` and a text file, parsed, and the workspace 1. -/
def parsedStart : World Disk where
  fs := Disk.ofTree [(mainRs, [1]), (['a'], [2])] (fun _ => [])
  vai := { VaiDir.withWorkspaces [.fresh 1 1] with graph := (GraphSnapshot.updateFile oneFunction mainRs [1] ∅).2 }
  ops := 0

theorem parsedStart_active : parsedStart.vai.IsActive (.fresh 1 1) := by
  have h : (VaiDir.withWorkspaces [.fresh 1 1]).workspaces.get 1 = some (.fresh 1 1) := by decide +kernel
  exact ⟨rfl, h⟩

theorem sourced_empty : Sourced env ∅ := by
  intro i e h
  have : (∅ : FMap Text Entity).get i = some e := h
  simp at this

theorem parsedStart_base (p : Path) :
    parsedStart.fs.base.get p = if p = ['a'] then some [2] else if p = mainRs then some [1] else none := by
  show (FMap.ofList [(mainRs, [1]), (['a'], [2])]).get p = _
  unfold FMap.ofList
  simp only [List.foldl_cons, List.foldl_nil, FMap.get_insert, FMap.get_empty]

theorem parsedStart_tracks : parsedStart.Tracks oneFunction := by
  unfold World.Tracks
  rw [GraphSnapshot.tracks_iff_filePath oneFunction_entityIds]
  have htree : parsedStart.vai.graph = regraph oneFunction parsedStart.fs.base.get ∅ mainRs := by
    unfold regraph
    rw [parsedStart_base, if_neg (by decide), if_pos rfl]
    rfl
  intro i e
  rw [htree, get_regraph oneFunction_entityIds sourced_empty]
  by_cases hp : e.filePath = mainRs
  · have hsup : isSupportedSourceFile mainRs = true := by decide
    rw [if_pos ⟨hp, hsup, by rw [parsedStart_base, if_neg (by decide), if_pos rfl]; rfl⟩, hp]
    simp [hsup]
  · rw [if_neg (fun h => hp h.1), parsedStart_base, if_neg hp]
    have hempty : (∅ : GraphSnapshot).entities.get i = none := FMap.get_empty i
    rw [hempty]
    by_cases ha : e.filePath = ['a']
    · have hsup : isSupportedSourceFile ['a'] = false := by decide
      simp [ha, hsup]
    · simp [ha, entitiesAt]

/-- A submit of the workspace that deletes `D`. -/
theorem parsedStart_submits {D : List Path} (hD : ∃ p ∈ D, (parsedStart.fs.base.get p).isSome) : ∃ r w',
    Merge.submitWithFs oneFunction (diskMergeFs oneFunction 1) (.fresh 1 1) D parsedStart = (.ok r, w') := by
  apply Merge.submitWithFs_succeeds oneFunction_quiet parsedStart_active
  have hov : ∀ p, ¬ (parsedStart.fs.files 1 (.overlay p)).isSome := by
    intro p
    have : parsedStart.fs.files 1 (.overlay p) = none := FMap.get_empty p
    rw [this]
    simp
  obtain ⟨p, hp, hb⟩ := hD
  exact Merge.accepted_of_head (fun q hq => absurd hq (hov q)) ⟨p, .inr ⟨hp, hb⟩⟩ rfl

/-- Deleting the text file keeps track. -/
theorem tracks_iff_text_file_deleted : ∃ w', TreeRun oneFunction parsedStart [(.submit (.fresh 1 1) [['a']], w')] ∧
    w'.Tracks oneFunction := by
  obtain ⟨r, w', hs⟩ := parsedStart_submits (D := [['a']]) ⟨['a'], by simp, by rw [parsedStart_base]; rfl⟩
  have hrun : TreeRun oneFunction parsedStart [(.submit (.fresh 1 1) [['a']], w')] :=
    .cons (.submit parsedStart_active hs) .nil
  have hclean : CleanRun oneFunction parsedStart [(.submit (.fresh 1 1) [['a']], w')] := by
    refine ⟨fun p hp hsup => ?_, trivial⟩
    rw [List.mem_singleton.1 hp] at hsup
    exact absurd hsup (by decide)
  exact ⟨w', hrun, (tracks_iff oneFunction_quiet oneFunction_entityIds hrun parsedStart_tracks).2 hclean _
    List.mem_cons_self⟩

/-- Deleting `main.rs` leaves its function in the graph. -/
theorem deleted_file_stays_in_graph : ∃ w', TreeRun oneFunction parsedStart [(.submit (.fresh 1 1) [mainRs], w')] ∧
    ¬ w'.Tracks oneFunction := by
  obtain ⟨r, w', hs⟩ := parsedStart_submits (D := [mainRs]) ⟨mainRs, by simp, by
    rw [parsedStart_base, if_neg (by decide), if_pos rfl]; rfl⟩
  refine ⟨w', .cons (.submit parsedStart_active hs) .nil, fun h => ?_⟩
  have hc := (tracks_submit oneFunction_quiet oneFunction_entityIds parsedStart_active hs parsedStart_tracks).1 h
  have hnone := hc mainRs (by simp) (by decide) mainRs
  rw [parsedStart_base, if_neg (by decide), if_pos rfl] at hnone
  exact absurd hnone (by decide)

end Vai
