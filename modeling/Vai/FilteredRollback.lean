import Vai.Annals
import Vai.EntityMerge
/-!
# FilteredRollback — a rollback of one entity

With an entity filter `rollback` goes over the files in which the name matches a recorded change.  Of the three kinds of
entity events only `EntityAdded` carries a qualified name and a file, and the name is looked for in the ids as well,
which are hashes.  `filtered_rollback_iff` says when the files it restores are those in which the version has changed an
entity of that name.
-/
namespace Vai
namespace Annals

open Proc Steps

/-! ## The entities a version changed -/

/-- The entity changes of one file between two trees. -/
def entityChangesAt (env : Env) (p : Path) (before after : Option Bytes) : List EntityChange :=
  if Merge.isRustPath p then
    match after, before with
    | some content, _ => ((Diff.computeEntityDiff env p content before).toOption).getD []
    | none, some base =>
      match env.parseRustSource p base with
      | .ok (entities, _) => entities.map (fun e => Diff.change p e .removed none)
      | .error _ => []
    | none, none => []
  else []

/-- The version has added, modified or removed an entity of that name in the file. -/
def ChangedIn (env : Env) (t : Made) (name : Text) (p : Path) : Prop :=
  ∃ ec ∈ entityChangesAt env p (t.before.get p) (t.after.get p), ec.qualifiedName = name

theorem overlayChange_self (p : Path) (content : Bytes) (e : Entity) : Diff.overlayChange p content content e (some e) = none := by
  unfold Diff.overlayChange
  simp

theorem entityChangesAt_self (env : Env) (p : Path) (o : Option Bytes) : entityChangesAt env p o o = [] := by
  unfold entityChangesAt
  split
  · cases o with
    | none => rfl
    | some content =>
      dsimp only
      unfold Diff.computeEntityDiff
      cases hparse : env.parseRustSource p content with
      | error e => rfl
      | ok r =>
        obtain ⟨ents, rels⟩ := r
        have hchanged : (env.hashOrder (Merge.ids ents)).filterMap (fun id => (Merge.byId ents id).bind (fun e =>
            Diff.overlayChange p content content e (Merge.byId ents id))) = [] := by
          refine List.filterMap_eq_nil_iff.2 fun id _ => ?_
          cases Merge.byId ents id with
          | none => rfl
          | some e => exact overlayChange_self p content e
        have hremoved : (env.hashOrder (Merge.ids ents)).filterMap (fun id =>
            if id ∈ Merge.ids ents then none
            else (Merge.byId ents id).map (fun e => Diff.change p e .removed none)) = [] := by
          refine List.filterMap_eq_nil_iff.2 fun id hid => ?_
          rw [if_pos ((env.hashOrderPerm _).mem_iff.1 hid)]
        simp only [hparse]
        exact List.append_eq_nil_iff.2 ⟨hchanged, hremoved⟩
  · rfl

theorem ChangedIn.ne {env : Env} {t : Made} {name : Text} {p : Path} (h : ChangedIn env t name p) :
    t.before.get p ≠ t.after.get p := by
  obtain ⟨ec, hec, -⟩ := h
  intro he
  rw [he, entityChangesAt_self] at hec
  cases hec

/-! ## The files a filter lets through -/

/-- The version has an event of an added entity in the file, with that name or with the name inside its id. -/
def Selected (v : VaiDir) (id name : Text) (p : Path) : Prop :=
  ∃ e ∈ versionEvents v id, ∃ i entity, e.kind = .entityAdded i entity ∧ entity.filePath = p ∧
    (entity.qualifiedName = name ∨ Text.containsText entity.id name = true)

theorem mem_filteredFiles {v : VaiDir} {id name : Text} {p : Path} :
    p ∈ Version.filteredFiles ((versionEvents v id).filterMap (fun e => Version.entityChange e.kind)) name ↔
      Selected v id name p := by
  unfold Version.filteredFiles Selected
  simp only [List.mem_filterMap, List.mem_filter]
  constructor
  · rintro ⟨ec, ⟨⟨e, he, hec⟩, hname⟩, hp⟩
    unfold Version.entityChange at hec
    split at hec <;> cases hec
    · rename_i i entity hk
      exact ⟨e, he, i, entity, hk, Option.some.inj hp, by simpa using hname⟩
    · cases hp
    · cases hp
  · rintro ⟨e, he, i, entity, hk, rfl, hname⟩
    refine ⟨_, ⟨⟨e, he, by rw [hk]; rfl⟩, ?_⟩, rfl⟩
    simpa using hname

/-- What the log says has become of a file in a version. -/
def recordedChange (v : VaiDir) (id : Text) (p : Path) : Option Version.ChangeType :=
  (Version.lastChange (versionEvents v id) p).map Version.VersionFileChange.changeType

/-- Undoing the recorded change of a file that was `before` and is `now` brings it back. -/
def Recalls (before now : Option Bytes) : Option Version.ChangeType → Prop
  | none => now = before
  | some .added => before = none
  | some _ => before.isSome ∨ now = none

/-- Undoing the recorded change of a file that is `now` leaves it as it is. -/
def Spares (snapshot now : Option Bytes) : Option Version.ChangeType → Prop
  | none => True
  | some .added => now = none
  | some _ => snapshot = none ∨ snapshot = now

/-- The filter lets the right files of the version through, and these are recorded as what they are. -/
structure Fits (env : Env) (s : Annals) (id : Text) (t : Made) (name : Text) : Prop where
  found : ∀ p, ChangedIn env t name p → Selected s.world.vai id name p →
    Recalls (t.before.get p) (s.world.fs.base.get p) (recordedChange s.world.vai id p)
  missed : ∀ p, ChangedIn env t name p → ¬ Selected s.world.vai id name p → s.world.fs.base.get p = t.before.get p
  spared : ∀ p, ¬ ChangedIn env t name p → Selected s.world.vai id name p →
    Spares ((s.world.fs.snapshot id).get p) (s.world.fs.base.get p) (recordedChange s.world.vai id p)

section

variable {env : Env} {s : Annals} {id name : Text} {p : Path} {before : Option Bytes}

theorem undone_eq_iff_recalls (hsnap : (recordedChange s.world.vai id p).isSome → (s.world.fs.snapshot id).get p = before) :
    Version.undone s.world.fs id (versionEvents s.world.vai id) p = before ↔
      Recalls before (s.world.fs.base.get p) (recordedChange s.world.vai id p) := by
  unfold recordedChange at hsnap ⊢
  unfold Version.undone
  cases hc : Version.lastChange (versionEvents s.world.vai id) p with
  | none => rfl
  | some c =>
    have hp := Version.path_of_lastChange hc
    have hs := hsnap (by rw [hc]; rfl)
    have hkept : (before.or (s.world.fs.base.get p) = before) ↔ (before.isSome ∨ s.world.fs.base.get p = none) := by
      cases before <;> simp
    simp only [Version.undoneAt, Option.map_some, hp, hs]
    cases c.changeType with
    | added => exact eq_comm
    | modified => exact hkept
    | removed => exact hkept

theorem undone_eq_iff_spares : Version.undone s.world.fs id (versionEvents s.world.vai id) p = s.world.fs.base.get p ↔
    Spares ((s.world.fs.snapshot id).get p) (s.world.fs.base.get p) (recordedChange s.world.vai id p) := by
  unfold recordedChange Version.undone
  cases hc : Version.lastChange (versionEvents s.world.vai id) p with
  | none => simp [Spares]
  | some c =>
    have hp := Version.path_of_lastChange hc
    have hkept : ((s.world.fs.snapshot id).get p).or (s.world.fs.base.get p) = s.world.fs.base.get p ↔
        ((s.world.fs.snapshot id).get p = none ∨ (s.world.fs.snapshot id).get p = s.world.fs.base.get p) := by
      cases (s.world.fs.snapshot id).get p <;> simp
    simp only [Version.undoneAt, Option.map_some, hp]
    cases c.changeType with
    | added => exact eq_comm
    | modified => exact hkept
    | removed => exact hkept

end

/-! ## The rollback of a version -/

section

variable {env : Env} {s : Annals} {k : Nat} {t : Made}

theorem Kept.get_version (hk : Kept s) (ht : s.made[k]? = some t) :
    (s.world.vai.versions.get (versionName (k + 1))).isSome := by
  have hlt := (List.getElem?_eq_some_iff.1 ht).1
  exact (hk.numbered.records _).2 ⟨k + 1, by omega, hlt, rfl⟩

/-- A version that a file event is recorded for has a snapshot of the files it changed. -/
theorem Kept.snapshot_of_recorded (hk : Kept s) (ht : s.made[k]? = some t) {p : Path}
    (hne : t.before.get p ≠ t.after.get p) (hr : (recordedChange s.world.vai (versionName (k + 1)) p).isSome) :
    (s.world.fs.snapshot (versionName (k + 1))).get p = t.before.get p := by
  obtain ⟨rec, hrec⟩ := Option.isSome_iff_exists.1 (hk.get_version ht)
  refine hk.replaced k t rec ht hrec ?_ p hne
  unfold recordedChange at hr
  rw [versionEvents_of_get hrec] at hr
  unfold Version.eventsOf at hr
  cases hid : rec.mergeEventId with
  | some e => rfl
  | none =>
    rw [hid] at hr
    cases hr

theorem filtered_rollback_ends (hq : env.Quiet) (hk : Kept s) (ht : s.made[k]? = some t) (name : Text) :
    ∃ r w, Version.rollback env (versionName (k + 1)) (some name) s.world = (.ok r, w) ∧ ∀ p,
      (Selected s.world.vai (versionName (k + 1)) name p → w.fs.base.get p =
        Version.undone s.world.fs (versionName (k + 1)) (versionEvents s.world.vai (versionName (k + 1))) p) ∧
      (¬ Selected s.world.vai (versionName (k + 1)) name p → w.fs.base.get p = s.world.fs.base.get p) := by
  obtain ⟨rec, hrec⟩ := Option.isSome_iff_exists.1 (hk.get_version ht)
  have hspec := @Version.rollback_spec env _ _ _ hrec (some name)
  obtain ⟨r, w, hrun, -, -, -, hbase⟩ := hspec.exists_ok fun e w' he => by
    rcases he with hf | hf
    · exact hq.not_fsFaulty hf
    · exact hq.not_faulty hf
  refine ⟨r, w, hrun, fun p => ?_⟩
  rw [hbase p, ← mem_filteredFiles, versionEvents_of_get hrec]
  unfold Version.restored
  simp only [Option.map_some, Option.any_some, decide_eq_true_eq]
  exact ⟨fun hin => if_neg (not_not.2 hin), fun hout => if_pos hout⟩

/-- **When a rollback with an entity filter restores what the filter names.**  In every run and for every version, the
files in which the version has changed an entity of that name get back what they had before the version, and no other
file changes, if and only if every such file has an event of an added entity that the name selects and is recorded as
what it is, and undoing the other selected files leaves them alone. -/
theorem filtered_rollback_iff (hq : env.Quiet) {T : List (Path × Bytes)} {repoId : Uuid} {repoName : Text}
    {graph : GraphSnapshot} {l : List (Turn Act Annals)} (hrun : Ran (step env) (start T repoId repoName graph) l s)
    (ht : s.made[k]? = some t) (name : Text) :
    (∃ r w, Version.rollback env (versionName (k + 1)) (some name) s.world = (.ok r, w) ∧ ∀ p,
      (ChangedIn env t name p → w.fs.base.get p = t.before.get p) ∧
      (¬ ChangedIn env t name p → w.fs.base.get p = s.world.fs.base.get p)) ↔
    Fits env s (versionName (k + 1)) t name := by
  have hk := kept_run hq (kept_start T repoId repoName graph) hrun
  obtain ⟨r, w, hroll, hbase⟩ := filtered_rollback_ends hq hk ht name
  have hrecalls : ∀ p, ChangedIn env t name p → (Version.undone s.world.fs (versionName (k + 1))
      (versionEvents s.world.vai (versionName (k + 1))) p = t.before.get p ↔ Recalls (t.before.get p)
        (s.world.fs.base.get p) (recordedChange s.world.vai (versionName (k + 1)) p)) :=
    fun p hp => undone_eq_iff_recalls (hk.snapshot_of_recorded ht hp.ne)
  constructor
  · rintro ⟨r', w', hroll', hprop⟩
    cases hroll.symm.trans hroll'
    refine ⟨fun p hc hsel => ?_, fun p hc hsel => ?_, fun p hc hsel => ?_⟩
    · rw [← hrecalls p hc, ← (hbase p).1 hsel]
      exact (hprop p).1 hc
    · rw [← (hbase p).2 hsel]
      exact (hprop p).1 hc
    · rw [← undone_eq_iff_spares, ← (hbase p).1 hsel]
      exact (hprop p).2 hc
  · intro hfits
    refine ⟨r, w, hroll, fun p => ⟨fun hc => ?_, fun hc => ?_⟩⟩
    · by_cases hsel : Selected s.world.vai (versionName (k + 1)) name p
      · rw [(hbase p).1 hsel]
        exact (hrecalls p hc).2 (hfits.found p hc hsel)
      · rw [(hbase p).2 hsel]
        exact hfits.missed p hc hsel
    · by_cases hsel : Selected s.world.vai (versionName (k + 1)) name p
      · rw [(hbase p).1 hsel]
        exact undone_eq_iff_spares.2 (hfits.spared p hc hsel)
      · exact (hbase p).2 hsel

end

/-! ## A function that is added, and then rewritten -/

def rewrittenA : Bytes := Text.intoBytes "fn a() {5}".toList

/-- The trees of the two files. -/
def bodyTrees : List (Bytes × SyntaxNode) :=
  [(Merge.onlyA, Merge.fileNode 9 [Merge.functionNode 0 9]), (rewrittenA, Merge.fileNode 10 [Merge.functionNode 0 10])]

theorem bodyTrees_wellFormed : ∀ q ∈ bodyTrees, RustSource.WellFormed q.2 ∧ q.2.endByte ≤ q.1.length := by
  simp [bodyTrees, RustSource.WellFormed, RustSource.InOrder, RustSource.itemKinds, Merge.fileNode, Merge.functionNode,
    SyntaxNode.startByte, SyntaxNode.endByte, SyntaxNode.field]
  decide +kernel

def bodyParser : RustSource.TreeSitter := .ofTable bodyTrees bodyTrees_wellFormed

def parsed : Env := Merge.parsingEnv bodyParser

theorem quiet_parsed : parsed.Quiet := ⟨fun _ => rfl, fun _ => rfl⟩

def fileA : Path := "a.rs".toList

/-- A workspace is created, writes a file, and is submitted. -/
def submission (i : Uuid) (content : Bytes) : List Act :=
  [.create [] i, .overlay i (FMap.ofList [(fileA, content)]), .submit []]

def runOf (actions : List Act) : Option (List (Turn Act Annals) × Annals) :=
  trace (step parsed) actions (start [] 0 [] ∅)

theorem run_of (actions : List Act) (h : (runOf actions).isSome) : ∃ l s, runOf actions = some (l, s) ∧
    Ran (step parsed) (start [] 0 [] ∅) l s := by
  obtain ⟨⟨l, s⟩, hr⟩ := Option.isSome_iff_exists.1 h
  exact ⟨l, s, hr, ran_of_trace hr⟩

theorem at_end {actions : List Act} {l : List (Turn Act Annals)} {s : Annals} (hr : runOf actions = some (l, s))
    {β : Type} (f : Annals → β) {x : β} (h : (runOf actions).map (fun r => f r.2) = some x) : f s = x := by
  rw [hr] at h
  exact Option.some.inj h

theorem get_of_not_mem {m : FMap Path Bytes} {p : Path} (h : p ∉ m.pairs.map Prod.fst) : m.get p = none := by
  rw [FMap.map_fst_pairs, FMap.mem_keys] at h
  exact Option.not_isSome_iff_eq_none.1 h

/-- A new function is taken back with its file. -/
theorem filtered_rollback_iff_added : ∃ l s r w, Ran (step parsed) (start [] 0 [] ∅) l s ∧
    s.world.fs.base.get fileA = some Merge.onlyA ∧
    Version.rollback parsed (versionName 2) (some ['a']) s.world = (.ok r, w) ∧ w.fs.base.get fileA = none := by
  obtain ⟨l, s, hr, hrun⟩ := run_of (submission 1 Merge.onlyA) (by decide +kernel)
  have hnow : s.world.fs.base.get fileA = some Merge.onlyA := at_end hr (fun s => s.world.fs.base.get fileA) (by decide +kernel)
  have hbefore : (s.made[1]?).map (fun t => t.before.pairs) = some [] :=
    at_end hr (fun s => (s.made[1]?).map (fun t => t.before.pairs)) (by decide +kernel)
  have hafter : (s.made[1]?).map (fun t => t.after.pairs) = some [(fileA, Merge.onlyA)] :=
    at_end hr (fun s => (s.made[1]?).map (fun t => t.after.pairs)) (by decide +kernel)
  have hevents : (versionEvents s.world.vai (versionName 2)).filterMap (fun e => Version.entityChange e.kind) =
      [⟨"a.rs::a".toList, .added, some "function".toList, some ['a'], some fileA, none⟩] :=
    at_end hr (fun s => (versionEvents s.world.vai (versionName 2)).filterMap (fun e => Version.entityChange e.kind))
      (by decide +kernel)
  have hrecorded : recordedChange s.world.vai (versionName 2) fileA = some .added :=
    at_end hr (fun s => recordedChange s.world.vai (versionName 2) fileA) (by decide +kernel)
  obtain ⟨t, ht, hpairs⟩ := Option.map_eq_some_iff.1 hbefore
  rw [ht, Option.map_some, Option.some_inj] at hafter
  have hnone : ∀ p, t.before.get p = none := fun p => get_of_not_mem (by rw [hpairs]; exact List.not_mem_nil)
  have hselected : ∀ p, Selected s.world.vai (versionName 2) ['a'] p ↔ p = fileA := by
    intro p
    rw [← mem_filteredFiles, hevents, show Version.filteredFiles _ ['a'] = [fileA] by decide +kernel, List.mem_singleton]
  have honly : ∀ p, ChangedIn parsed t ['a'] p → p = fileA := by
    intro p hp
    by_contra hne
    refine hp.ne ((hnone p).trans (get_of_not_mem ?_).symm)
    rw [hafter]
    simpa using hne
  have hchanged : ChangedIn parsed t ['a'] fileA := by
    have hget : t.after.get fileA = some Merge.onlyA := FMap.mem_pairs.1 (by rw [hafter]; simp)
    unfold ChangedIn
    rw [hnone, hget]
    decide +kernel
  obtain ⟨r, w, hroll, hbase⟩ := (filtered_rollback_iff quiet_parsed hrun ht ['a']).2
    ⟨fun p hp _ => by rw [honly p hp, hrecorded]; exact hnone fileA,
      fun p hp hno => absurd ((hselected p).2 (honly p hp)) hno,
      fun p hp hsel => absurd ((hselected p).1 hsel ▸ hchanged) hp⟩
  exact ⟨l, s, r, w, hrun, hnow, hroll, ((hbase fileA).1 hchanged).trans (hnone fileA)⟩

/-- The function is rewritten, and nothing brings the file back. -/
theorem modified_entity_is_not_restored : ∃ l s t, Ran (step parsed) (start [] 0 [] ∅) l s ∧ s.made[2]? = some t ∧
    ChangedIn parsed t ['a'] fileA ∧ ¬ ∃ r w, Version.rollback parsed (versionName 3) (some ['a']) s.world = (.ok r, w) ∧
      ∀ p, (ChangedIn parsed t ['a'] p → w.fs.base.get p = t.before.get p) ∧
        (¬ ChangedIn parsed t ['a'] p → w.fs.base.get p = s.world.fs.base.get p) := by
  obtain ⟨l, s, hr, hrun⟩ := run_of (submission 1 Merge.onlyA ++ submission 2 rewrittenA) (by decide +kernel)
  have hnow : s.world.fs.base.get fileA = some rewrittenA := at_end hr (fun s => s.world.fs.base.get fileA) (by decide +kernel)
  have hbefore : (s.made[2]?).map (fun t => t.before.get fileA) = some (some Merge.onlyA) :=
    at_end hr (fun s => (s.made[2]?).map (fun t => t.before.get fileA)) (by decide +kernel)
  have hafter : (s.made[2]?).map (fun t => t.after.get fileA) = some (some rewrittenA) :=
    at_end hr (fun s => (s.made[2]?).map (fun t => t.after.get fileA)) (by decide +kernel)
  have hevents : Version.filteredFiles ((versionEvents s.world.vai (versionName 3)).filterMap
      (fun e => Version.entityChange e.kind)) ['a'] = [] :=
    at_end hr (fun s => Version.filteredFiles ((versionEvents s.world.vai (versionName 3)).filterMap
      (fun e => Version.entityChange e.kind)) ['a']) (by decide +kernel)
  obtain ⟨t, ht, hold⟩ := Option.map_eq_some_iff.1 hbefore
  rw [ht, Option.map_some, Option.some_inj] at hafter
  have hchanged : ChangedIn parsed t ['a'] fileA := by
    unfold ChangedIn
    rw [hold, hafter]
    decide +kernel
  refine ⟨l, s, t, hrun, ht, hchanged, ?_⟩
  rintro ⟨r, w, hroll, hprop⟩
  obtain ⟨r', w', hroll', hbase⟩ := filtered_rollback_ends quiet_parsed (kept_run quiet_parsed (kept_start [] 0 [] ∅) hrun) ht ['a']
  cases hroll.symm.trans hroll'
  have hsame := (hbase fileA).2 (by rw [← mem_filteredFiles, hevents]; exact List.not_mem_nil)
  have hback := (hprop fileA).1 hchanged
  rw [hsame, hnow, hold] at hback
  exact absurd hback (by decide +kernel)

end Annals
end Vai
