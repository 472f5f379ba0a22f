import Vai.IssueSpec
import Vai.Steps
/-!
# IssueParity — the two issue stores answer alike

A run makes the same calls on the SQLite store and on the Postgres store, both empty at first, with the same new ids and
at the same times.  `Agrees` compares what they answer, up to `updated_at`, and that a call that fails has changed neither.

`Meets` is where they do agree.  The transitions are checked by the local store alone, and a call that asks for a status
has more effects there; labels are one text there and are matched by `LIKE`; priorities are sorted by rank there and by
name in Postgres, whose `ORDER BY` is also all there is between issues that it does not tell apart.
-/
namespace Vai
namespace IssueParity

open Proc Rows Sorting Steps

/-- An issue, but for `updated_at`. -/
def undated (i : Issue) : Issue := { i with updatedAt := 0 }

inductive Call where
  | create (id : Uuid) (now : Nat) (issue : NewIssue)
  | get (id : Uuid)
  | list (filter : IssueFilter) (query : ListQuery)
  | update (now : Nat) (id : Uuid) (update : IssueUpdate)
  | close (now : Nat) (id : Uuid) (resolution : Text)

inductive Answer where
  | issue (i : Issue)
  | issues (items : List Issue) (total : Nat)
deriving DecidableEq

def Answer.undated : Answer → Answer
  | .issue i => .issue (IssueParity.undated i)
  | .issues items total => .issues (items.map IssueParity.undated) total

/-- A call of `IssueStore`. -/
def call {σ : Type} (st : Storage σ) : Call → Proc σ StorageError Answer
  | .create id now issue => do return .issue (← st.createIssue id now issue)
  | .get id => do return .issue (← st.getIssue id)
  | .list filter query => do
    let r ← st.listIssues filter query
    return .issues r.1 r.2
  | .update now id update => do return .issue (← st.updateIssue now id update)
  | .close now id resolution => do return .issue (← st.closeIssue now id resolution)

structure Stores where
  lite : LocalRepo
  pg : PgRepo

def Stores.empty : Stores := ⟨.empty, .empty⟩

/-- The matching and the orders of the databases. -/
structure Databases where
  lower : Text → Text
  collation : Collation
  lite : RowOrder Issue
  pg : RowOrder Issue

variable (dbs : Databases)

def liteCall (c : Call) (s : Stores) : Except StorageError Answer × LocalRepo :=
  call (Sqlite.storage Sqlite.noFault dbs.lite) c s.lite

def pgCall (c : Call) (s : Stores) : Except StorageError Answer × PgRepo :=
  call (Postgres.storage Postgres.noFault dbs.lower dbs.collation dbs.pg) c s.pg

/-- A new id is one that no issue has. -/
def Call.fresh : Call → Stores → Bool
  | .create id _ _, s => (row IssueRow.id id s.lite.issues.rows).isNone && (row Issue.id id s.pg.issues).isNone
  | _, _ => true

def step (c : Call) (s : Stores) : Option Stores :=
  if c.fresh s then some ⟨(liteCall dbs c s).2, (pgCall dbs c s).2⟩ else none

/-- **The stores answer alike, and a call that fails has changed neither.** -/
def Agrees (c : Call) (s : Stores) : Prop :=
  (liteCall dbs c s).1.map Answer.undated = (pgCall dbs c s).1.map Answer.undated ∧
  ∀ e, (liteCall dbs c s).1 = .error e → (liteCall dbs c s).2 = s.lite ∧ (pgCall dbs c s).2 = s.pg

/-! ## Where they agree -/

/-- The issues of the SQLite store that a filter selects. -/
def selected (filter : IssueFilter) (s : Stores) : List Issue :=
  (s.lite.issues.rows.filter (Sqlite.selects filter s.lite.issues.dependencies)).map IssueRow.toIssue

/-- An issue as Postgres has it. -/
def counterpart (s : Stores) (i : Issue) : Issue := (row Issue.id i.id s.pg.issues).getD i

structure ListMeets (filter : IssueFilter) (q : ListQuery) (s : Stores) : Prop where
  valid : q.Valid
  /-- The label is found in the same issues. -/
  labels : ∀ label, filter.label = some label → ∀ i ∈ s.pg.issues,
    Sqlite.labelMatches label (joinLabels i.labels) = Postgres.labelMatches dbs.lower label i.labels
  /-- Each column sorts the selected issues in the same way. -/
  orders : ∀ sf ∈ q.sort, sf.column ∈ Postgres.columns → ∀ a ∈ selected filter s, ∀ b ∈ selected filter s,
    Sqlite.fieldLe sf a b = Postgres.fieldLe dbs.collation sf (counterpart s a) (counterpart s b)
  /-- The columns, where there are any, tell the selected issues apart. -/
  apart : (∃ sf ∈ q.sort, sf.column ∈ Postgres.columns) → ∀ a ∈ selected filter s, ∀ b ∈ selected filter s,
    (∀ sf ∈ q.sort, sf.column ∈ Postgres.columns → Sqlite.fieldLe sf a b = true ∧ Sqlite.fieldLe sf b a = true) → a.id = b.id

/-- The status that is asked for is allowed, and the resolution is what both make of it. -/
def StatusMeets (u : IssueUpdate) (i : Issue) : Prop :=
  Sqlite.accepts u i.status = true ∧ match u.status with
    | some .inProgress => (u.workspaceId = none → i.status = .inProgress) ∧ u.resolution.or i.resolution = i.resolution
    | some .resolved => u.resolution.or i.resolution = some "resolved".toList
    | some .closed => u.resolution.or i.resolution = some (u.resolution.getD "closed".toList)
    | _ => u.resolution.or i.resolution = i.resolution

def UpdateMeets (u : IssueUpdate) : Option Issue → Prop
  | some i => (∀ labels, u.labels = some labels → KeptLabels labels) ∧ StatusMeets u i
  | none => Sqlite.hasFieldUpdates u = false ∧ (u.status = none ∨ u.status = some .inProgress ∧ u.workspaceId = none)

/-- The condition on a call. -/
def Meets : Call → Stores → Prop
  | .create _ now issue, s => KeptLabels issue.labels ∧ ∀ i ∈ s.pg.issues, i.createdAt ≠ now
  | .list filter query, s => ListMeets dbs filter query s
  | .update _ id u, s => UpdateMeets u (row Issue.id id s.pg.issues)
  | _, _ => True

/-! ## The two stores side by side -/

structure Sim (s : Stores) : Prop where
  issues : s.pg.issues.map undated = s.lite.issues.rows.map fun r => undated r.toIssue
  ids : (s.pg.issues.map Issue.id).Nodup
  times : (s.pg.issues.map Issue.createdAt).Nodup
  dependencies : s.lite.issues.dependencies = []
  links : s.pg.links = []

variable {dbs} {s : Stores}

theorem sim_empty : Sim .empty := ⟨rfl, List.nodup_nil, List.nodup_nil, rfl, rfl⟩

theorem Sim.rows_eq (h : Sim s) (id : Uuid) :
    (row Issue.id id s.pg.issues).map undated = (row IssueRow.id id s.lite.issues.rows).map fun r => undated r.toIssue := by
  have hpg : (row Issue.id id (s.pg.issues.map undated)) = (row Issue.id id s.pg.issues).map undated := row_map
  have hlite : row Issue.id id (s.lite.issues.rows.map fun r => undated r.toIssue) =
      (row IssueRow.id id s.lite.issues.rows).map fun r => undated r.toIssue := row_map
  rw [← hpg, ← hlite, h.issues]

theorem Sim.row_some (h : Sim s) {id : Uuid} {i : Issue} (hi : row Issue.id id s.pg.issues = some i) :
    ∃ r, row IssueRow.id id s.lite.issues.rows = some r ∧ undated i = undated r.toIssue := by
  have hrow := h.rows_eq id
  rw [hi] at hrow
  cases hr : row IssueRow.id id s.lite.issues.rows with
  | none =>
    rw [hr] at hrow
    cases hrow
  | some r =>
    rw [hr] at hrow
    exact ⟨r, rfl, Option.some.inj hrow⟩

theorem Sim.row_none (h : Sim s) {id : Uuid} (hi : row Issue.id id s.pg.issues = none) :
    row IssueRow.id id s.lite.issues.rows = none := by
  have hrow := h.rows_eq id
  rw [hi] at hrow
  cases hr : row IssueRow.id id s.lite.issues.rows with
  | none => rfl
  | some r =>
    rw [hr] at hrow
    cases hrow

theorem id_of_undated {i j : Issue} (h : undated i = undated j) : i.id = j.id := by
  have hid : (undated i).id = (undated j).id := congrArg Issue.id h
  exact hid

theorem Sim.rowIds (h : Sim s) : s.lite.issues.rows.map IssueRow.id = s.pg.issues.map Issue.id := by
  have hids := congrArg (List.map Issue.id) h.issues
  rw [List.map_map, List.map_map] at hids
  exact hids.symm

/-- Both stores write to one issue. -/
theorem Sim.wrote (h : Sim s) {id : Uuid} {i : Issue} {r : IssueRow} (hi : row Issue.id id s.pg.issues = some i)
    (hr : row IssueRow.id id s.lite.issues.rows = some r) {f : IssueRow → IssueRow} {f' : Issue → Issue}
    {links : List (Uuid × Uuid)} {events : List EventKind} (hid : ∀ i, (f' i).id = i.id)
    (htime : ∀ i, (f' i).createdAt = i.createdAt) (heq : undated (f' i) = undated (f r).toIssue) :
    Sim ⟨Sqlite.wrote id f links events s.lite, { s.pg with issues := update Issue.id id f' s.pg.issues }⟩ where
  issues := by
    refine map_update_eq h.issues (fun a b hab => id_of_undated hab) fun a ha b hb hka hkb _ => ?_
    have hids : (s.lite.issues.rows.map IssueRow.id).Nodup := h.rowIds ▸ h.ids
    rw [eq_of_key h.ids ha (mem_of_row hi) (hka.trans (key_of_row hi).symm),
      eq_of_key hids hb (mem_of_row hr) (hkb.trans (key_of_row hr).symm)]
    exact heq
  ids := by
    rw [show (update Issue.id id f' s.pg.issues).map Issue.id = s.pg.issues.map Issue.id from map_key_update hid]
    exact h.ids
  times := by
    have htimes : (update Issue.id id f' s.pg.issues).map Issue.createdAt = s.pg.issues.map Issue.createdAt :=
      map_updateWhere (fun i _ => htime i) s.pg.issues
    rw [htimes]
    exact h.times
  dependencies := h.dependencies
  links := h.links

/-! ## The calls -/

theorem call_issue {σ : Type} {m : Proc σ StorageError Issue} {t t' : σ} {r : Except StorageError Issue} (h : m t = (r, t')) :
    (do return Answer.issue (← m) : Proc σ StorageError Answer) t = (r.map Answer.issue, t') := by
  rw [bind_apply, h]
  cases r <;> rfl

theorem agrees_issue {c : Call} {i : Issue} {r : IssueRow} {t : LocalRepo} {t' : PgRepo}
    (hlite : liteCall dbs c s = ((.ok r.toIssue : Except StorageError Issue).map Answer.issue, t))
    (hpg : pgCall dbs c s = ((.ok i : Except StorageError Issue).map Answer.issue, t'))
    (heq : undated i = undated r.toIssue) : Agrees dbs c s := by
  refine ⟨?_, fun e he => ?_⟩
  · rw [hlite, hpg]
    simp [Except.map, Answer.undated, heq]
  · rw [hlite] at he
    cases he

theorem agrees_missing {c : Call} {e : StorageError}
    (hlite : liteCall dbs c s = ((.error e : Except StorageError Issue).map Answer.issue, s.lite))
    (hpg : pgCall dbs c s = ((.error e : Except StorageError Issue).map Answer.issue, s.pg)) : Agrees dbs c s := by
  refine ⟨?_, fun e _ => ?_⟩
  · rw [hlite, hpg]
  · exact ⟨congrArg Prod.snd hlite, congrArg Prod.snd hpg⟩

theorem create_agrees (h : Sim s) {id : Uuid} {now : Nat} {issue : NewIssue} (hfresh : (Call.create id now issue).fresh s)
    (hmeets : Meets dbs (.create id now issue) s) :
    Agrees dbs (.create id now issue) s ∧
      Sim ⟨(liteCall dbs (.create id now issue) s).2, (pgCall dbs (.create id now issue) s).2⟩ := by
  simp only [Call.fresh, Bool.and_eq_true, Option.isNone_iff_eq_none] at hfresh
  have hlite := call_issue (@Sqlite.createIssue_noFault s.lite id now hfresh.1 issue)
  have hpg := call_issue (@Postgres.createIssue_noFault s.pg id now hfresh.2 issue)
  have hlabels : (Postgres.newIssue id now issue).toRow.toIssue = Postgres.newIssue id now issue :=
    toIssue_toRow_iff.2 hmeets.1
  refine ⟨⟨?_, fun e he => ?_⟩, ?_⟩
  · rw [show liteCall dbs (.create id now issue) s = _ from hlite, show pgCall dbs (.create id now issue) s = _ from hpg]
  · rw [show liteCall dbs (.create id now issue) s = _ from hlite] at he
    cases he
  · rw [show liteCall dbs (.create id now issue) s = _ from hlite, show pgCall dbs (.create id now issue) s = _ from hpg]
    refine ⟨?_, ?_, ?_, h.dependencies, h.links⟩
    · simp only [List.map_append, List.map_cons, List.map_nil, hlabels, h.issues]
    · rw [List.map_append, List.nodup_append]
      refine ⟨h.ids, List.nodup_singleton _, fun a ha b hb => ?_⟩
      obtain ⟨i, hi, rfl⟩ := List.mem_map.1 ha
      rw [List.map_singleton, List.mem_singleton] at hb
      rw [hb]
      exact row_eq_none.1 hfresh.2 i hi
    · rw [List.map_append, List.nodup_append]
      refine ⟨h.times, List.nodup_singleton _, fun a ha b hb => ?_⟩
      obtain ⟨i, hi, rfl⟩ := List.mem_map.1 ha
      rw [List.map_singleton, List.mem_singleton] at hb
      rw [hb]
      exact hmeets.2 i hi

theorem get_agrees (h : Sim s) (id : Uuid) :
    Agrees dbs (.get id) s ∧ Sim ⟨(liteCall dbs (.get id) s).2, (pgCall dbs (.get id) s).2⟩ := by
  have hlite := call_issue (Sqlite.getIssue_noFault id s.lite)
  have hpg := call_issue (Postgres.getIssue_noFault 0 id s.pg)
  have hsim : Sim ⟨(liteCall dbs (.get id) s).2, (pgCall dbs (.get id) s).2⟩ := by
    rw [show liteCall dbs (.get id) s = _ from hlite, show pgCall dbs (.get id) s = _ from hpg]
    exact h
  refine ⟨?_, hsim⟩
  cases hi : row Issue.id id s.pg.issues with
  | none =>
    rw [h.row_none hi] at hlite
    rw [hi] at hpg
    exact agrees_missing hlite hpg
  | some i =>
    obtain ⟨r, hr, heq⟩ := h.row_some hi
    rw [hr] at hlite
    rw [hi] at hpg
    exact agrees_issue (r := r) hlite hpg heq

theorem close_agrees (h : Sim s) (now : Nat) (id : Uuid) (resolution : Text) :
    Agrees dbs (.close now id resolution) s ∧
      Sim ⟨(liteCall dbs (.close now id resolution) s).2, (pgCall dbs (.close now id resolution) s).2⟩ := by
  cases hi : row Issue.id id s.pg.issues with
  | none =>
    have hlite := call_issue (Sqlite.closeIssue_missing now (h.row_none hi) resolution)
    have hpg := call_issue (Postgres.closeIssue_missing now hi resolution)
    refine ⟨agrees_missing hlite hpg, ?_⟩
    rw [show liteCall dbs (.close now id resolution) s = _ from hlite,
      show pgCall dbs (.close now id resolution) s = _ from hpg]
    exact h
  | some i =>
    obtain ⟨r, hr, heq⟩ := h.row_some hi
    have hlite := call_issue (Sqlite.closeIssue_noFault now hr resolution)
    have hpg := call_issue (Postgres.closeIssue_noFault now hi resolution)
    have hclosed : undated (Postgres.closed now resolution i) =
        undated (IssueDir.moved now .closed (fun _ => some resolution) r).toIssue := by
      unfold undated at heq ⊢
      simp only [Issue.mk.injEq] at heq
      simp only [Postgres.closed, IssueDir.moved, IssueRow.toIssue, Issue.mk.injEq] at heq ⊢
      simp [heq]
    refine ⟨agrees_issue hlite hpg hclosed, ?_⟩
    rw [show liteCall dbs (.close now id resolution) s = _ from hlite,
      show pgCall dbs (.close now id resolution) s = _ from hpg]
    exact h.wrote hi hr (fun _ => rfl) (fun _ => rfl) hclosed

/-- The fields that are not given keep their values, written or not. -/
theorem fieldsWritten_eq (now : Nat) (u : IssueUpdate) (r : IssueRow) : ∃ at', Sqlite.fieldsWritten now u r r =
    { r with
      title := u.title.getD r.title
      description := u.description.getD r.description
      priority := u.priority.getD r.priority
      labels := joinLabels (u.labels.getD (splitLabels r.labels))
      updatedAt := at' } := by
  unfold Sqlite.fieldsWritten
  by_cases hfields : Sqlite.hasFieldUpdates u = true
  · rw [if_pos hfields]
    exact ⟨now, rfl⟩
  · rw [if_neg hfields]
    simp only [Sqlite.hasFieldUpdates, Bool.or_eq_true, not_or, Bool.not_eq_true, Option.isSome_eq_false_iff,
      Option.isNone_iff_eq_none] at hfields
    obtain ⟨⟨⟨ht, hd⟩, hp⟩, hl⟩ := hfields
    exact ⟨r.updatedAt, by simp [ht, hd, hp, hl, joinLabels_splitLabels]⟩

theorem statusWritten_eq {u : IssueUpdate} {i : Issue} (hmeets : StatusMeets u i) (now : Nat) {r : IssueRow}
    (hstatus : i.status = r.status) (hresolution : i.resolution = r.resolution) :
    ∃ at', Sqlite.statusWritten now u r =
      { r with status := u.status.getD r.status, resolution := u.resolution.or r.resolution, updatedAt := at' } := by
  obtain ⟨-, hmeets⟩ := hmeets
  rw [hstatus, hresolution] at hmeets
  unfold Sqlite.statusWritten
  cases hu : u.status with
  | none =>
    simp only [hu] at hmeets
    exact ⟨r.updatedAt, by simp [hmeets]⟩
  | some status =>
    cases status with
    | inProgress =>
      simp only [hu] at hmeets
      cases hws : u.workspaceId with
      | none => exact ⟨r.updatedAt, by simp [hmeets.2, ← hmeets.1 hws]⟩
      | some w => exact ⟨now, by simp [hmeets.2, IssueDir.moved]⟩
    | «open» =>
      simp only [hu] at hmeets
      exact ⟨now, by simp [hmeets, IssueDir.moved]⟩
    | resolved =>
      simp only [hu] at hmeets
      exact ⟨now, by simp [hmeets, IssueDir.moved]⟩
    | closed =>
      simp only [hu] at hmeets
      exact ⟨now, by simp [hmeets, IssueDir.moved]⟩

/-- **The two rows after an update that meets its condition.** -/
theorem updated_agree {u : IssueUpdate} {i : Issue} {r : IssueRow} (heq : undated i = undated r.toIssue)
    (hmeets : UpdateMeets u (some i)) (now : Nat) :
    undated (Postgres.updated now u i) = undated (Sqlite.updated now u r r).toIssue := by
  simp only [undated, IssueRow.toIssue, Issue.mk.injEq] at heq
  obtain ⟨hid, htitle, hdescription, hstatus, hpriority, hlabels, hcreator, hresolution, hsource, hcriteria, hcreated, -⟩ := heq
  obtain ⟨at₁, hfields⟩ := fieldsWritten_eq now u r
  obtain ⟨at₂, hwritten⟩ := statusWritten_eq hmeets.2 now (r := Sqlite.fieldsWritten now u r r)
    (by rw [hfields]; exact hstatus) (by rw [hfields]; exact hresolution)
  have hkept : KeptLabels (u.labels.getD (splitLabels r.labels)) := by
    cases hu : u.labels with
    | none => exact keptLabels_splitLabels r.labels
    | some labels => exact hmeets.1 labels hu
  unfold Sqlite.updated
  rw [hwritten, hfields]
  simp only [undated, Postgres.updated, IssueRow.toIssue, Sqlite.criteriaWritten, splitLabels_joinLabels_iff.2 hkept,
    hid, htitle, hdescription, hstatus, hpriority, hlabels, hcreator, hresolution, hsource, hcriteria, hcreated]

theorem update_agrees (h : Sim s) {now : Nat} {id : Uuid} {u : IssueUpdate} (hmeets : Meets dbs (.update now id u) s) :
    Agrees dbs (.update now id u) s ∧
      Sim ⟨(liteCall dbs (.update now id u) s).2, (pgCall dbs (.update now id u) s).2⟩ := by
  have hmeets : UpdateMeets u (row Issue.id id s.pg.issues) := hmeets
  cases hi : row Issue.id id s.pg.issues with
  | none =>
    rw [hi] at hmeets
    have hlite := call_issue (Sqlite.updateIssue_missing now (h.row_none hi) hmeets.1 hmeets.2)
    have hpg := call_issue (Postgres.updateIssue_missing now hi u)
    refine ⟨agrees_missing hlite hpg, ?_⟩
    rw [show liteCall dbs (.update now id u) s = _ from hlite, show pgCall dbs (.update now id u) s = _ from hpg]
    exact h
  | some i =>
    rw [hi] at hmeets
    obtain ⟨r, hr, heq⟩ := h.row_some hi
    have hstatus : i.status = r.status := by
      have := congrArg Issue.status heq
      exact this
    obtain ⟨links, hlite⟩ := Sqlite.updateIssue_noFault now hr (u := u) (hstatus ▸ hmeets.2.1)
    have hlite := call_issue hlite
    have hpg := call_issue (Postgres.updateIssue_noFault now hi u)
    have hupdated := updated_agree heq hmeets now
    refine ⟨agrees_issue hlite hpg hupdated, ?_⟩
    rw [show liteCall dbs (.update now id u) s = _ from hlite, show pgCall dbs (.update now id u) s = _ from hpg]
    exact h.wrote hi hr (fun _ => rfl) (fun _ => rfl) hupdated

/-! ## Lists -/

theorem Sim.counterpart (h : Sim s) {r : IssueRow} (hr : r ∈ s.lite.issues.rows) :
    counterpart s r.toIssue ∈ s.pg.issues ∧ undated (counterpart s r.toIssue) = undated r.toIssue := by
  have hids : (s.lite.issues.rows.map IssueRow.id).Nodup := h.rowIds ▸ h.ids
  have hrow := h.rows_eq r.id
  rw [row_of_mem hids hr] at hrow
  cases hi : row Issue.id r.id s.pg.issues with
  | none =>
    rw [hi] at hrow
    cases hrow
  | some i =>
    rw [hi] at hrow
    have hcounterpart : IssueParity.counterpart s r.toIssue = i := by
      unfold IssueParity.counterpart
      rw [show row Issue.id r.toIssue.id s.pg.issues = some i from hi]
      rfl
    rw [hcounterpart]
    exact ⟨mem_of_row hi, Option.some.inj hrow⟩

theorem Sim.map_counterpart (h : Sim s) :
    s.lite.issues.rows.map (fun r => IssueParity.counterpart s r.toIssue) = s.pg.issues := by
  have hids : (s.lite.issues.rows.map fun r => IssueParity.counterpart s r.toIssue).map Issue.id =
      s.pg.issues.map Issue.id := by
    rw [List.map_map, ← h.rowIds]
    exact List.map_congr_left fun r hr => id_of_undated (h.counterpart hr).2
  refine eq_of_map_key h.ids (fun i hi => ?_) hids
  obtain ⟨r, hr, rfl⟩ := List.mem_map.1 hi
  exact (h.counterpart hr).1

/-- Both filters select the same issues. -/
theorem Sim.selected (h : Sim s) {filter : IssueFilter} {q : ListQuery} (hmeets : ListMeets dbs filter q s) :
    s.pg.issues.filter (Postgres.selects dbs.lower filter s.pg.links) =
      (selected filter s).map (IssueParity.counterpart s) := by
  have hselects : ∀ r ∈ s.lite.issues.rows, Postgres.selects dbs.lower filter s.pg.links (IssueParity.counterpart s r.toIssue) =
      Sqlite.selects filter s.lite.issues.dependencies r := by
    intro r hr
    obtain ⟨hmem, heq⟩ := h.counterpart hr
    have hlabels := hmeets.labels
    generalize IssueParity.counterpart s r.toIssue = i at hmem heq
    simp only [undated, IssueRow.toIssue, Issue.mk.injEq] at heq
    have hmatch : ∀ label, filter.label = some label →
        Postgres.labelMatches dbs.lower label i.labels = Sqlite.labelMatches label r.labels := by
      intro label hlabel
      rw [← hlabels label hlabel i hmem, heq.2.2.2.2.2.1, joinLabels_splitLabels]
    unfold Postgres.selects Sqlite.selects
    rw [h.dependencies, h.links, heq.2.2.2.1, heq.2.2.2.2.1, heq.2.2.2.2.2.2.1]
    cases hlabel : filter.label with
    | none =>
      cases filter.blockedBy <;> simp
    | some label =>
      have hm := hmatch label hlabel
      cases filter.blockedBy <;> simp [hm]
  unfold IssueParity.selected
  conv_lhs => rw [← h.map_counterpart]
  rw [List.filter_map, List.map_map]
  refine congrArg _ (List.filter_congr fun r hr => ?_)
  exact hselects r hr

theorem isOrder_sortKey (collation : Collation) : IsOrder (SortKey.le collation) where
  total a b := by
    cases a with
    | num m =>
      cases b with
      | num n => simpa [SortKey.le] using Nat.le_total m n
      | text t => exact Or.inl rfl
    | text t =>
      cases b with
      | num n => exact Or.inr rfl
      | text u => exact collation.isOrder.total t u
  trans a b c hab hbc := by
    cases a with
    | num m =>
      cases c with
      | num n =>
        cases b with
        | num k => simp only [SortKey.le, decide_eq_true_eq] at hab hbc ⊢; omega
        | text t => cases hbc
      | text t => rfl
    | text t =>
      cases b with
      | num k => cases hab
      | text u =>
        cases c with
        | num n => cases hbc
        | text v => exact collation.isOrder.trans t u v hab hbc

theorem isOrder_directed {le : Issue → Issue → Bool} (h : IsOrder le) (direction : SortDirection) :
    IsOrder (directed le direction) := by
  cases direction with
  | asc => exact h
  | desc => exact isOrder_swap h

theorem isOrder_newestFirst : IsOrder newestFirst where
  total a b := by simpa [newestFirst] using Nat.le_total b.createdAt a.createdAt
  trans a b c := by
    simp only [newestFirst, decide_eq_true_eq]
    omega

theorem isOrder_liteField (sf : SortField) : IsOrder (Sqlite.fieldLe sf) :=
  isOrder_directed (isOrder_key (isOrder_sortKey .binary) (Sqlite.sortKey sf.column)) sf.direction

theorem sortKey_isSome (column : Text) (i : Issue) : (Postgres.sortKey column i).isSome = decide (column ∈ Postgres.columns) := by
  unfold Postgres.sortKey Postgres.columns
  simp only [List.map_cons, List.map_nil, List.mem_cons, List.not_mem_nil, or_false]
  split_ifs <;> simp_all

theorem isOrder_pgField {sf : SortField} (hsf : sf.column ∈ Postgres.columns) (collation : Collation) :
    IsOrder (Postgres.fieldLe collation sf) := by
  have hkey : ∀ i, ∃ key, Postgres.sortKey sf.column i = some key := fun i =>
    Option.isSome_iff_exists.1 (by rw [sortKey_isSome]; simpa using hsf)
  choose key hkey using hkey
  unfold Postgres.fieldLe
  simp only [hkey]
  exact isOrder_directed (isOrder_key (isOrder_sortKey collation) key) sf.direction

theorem liteField_unknown {sf : SortField} (hsf : sf.column ∉ Postgres.columns) (a b : Issue) : Sqlite.fieldLe sf a b = true := by
  have hkey : ∀ i, Sqlite.sortKey sf.column i = .text [] := by
    intro i
    simp only [Postgres.columns, List.map_cons, List.map_nil, List.mem_cons, List.not_mem_nil, or_false, not_or] at hsf
    simp only [Sqlite.sortKey, hsf, if_false]
  unfold Sqlite.fieldLe
  cases sf.direction <;> simp [directed, hkey, SortKey.le, Collation.binary]

theorem isOrder_orderBy (collation : Collation) (sort : List SortField) : IsOrder (Postgres.orderBy collation sort) := by
  unfold Postgres.orderBy
  by_cases hfields : sort.filter (fun sf => sf.column ∈ Postgres.columns) = []
  · simp only [hfields, if_true]
    exact isOrder_newestFirst
  · simp only [hfields, if_false]
    refine isOrder_lexLe fun le hle => ?_
    obtain ⟨sf, hsf, rfl⟩ := List.mem_map.1 hle
    exact isOrder_pgField (by simpa using (List.mem_filter.1 hsf).2) collation

theorem orderBy_of_lexRel {sort : List SortField} {f : Issue → Issue} {a b : Issue}
    (horders : ∀ sf ∈ sort, sf.column ∈ Postgres.columns →
      Sqlite.fieldLe sf a b = Postgres.fieldLe dbs.collation sf (f a) (f b) ∧
      Sqlite.fieldLe sf b a = Postgres.fieldLe dbs.collation sf (f b) (f a))
    (hnewest : newestFirst a b = true → newestFirst (f a) (f b) = true)
    (h : lexRel (fun a b => newestFirst a b = true) (sort.map Sqlite.fieldLe) a b) :
    Postgres.orderBy dbs.collation sort (f a) (f b) = true := by
  have hlex : lexLe ((sort.filter fun sf => sf.column ∈ Postgres.columns).map (Postgres.fieldLe dbs.collation)) (f a) (f b) =
      true ∧ (sort.filter (fun sf => sf.column ∈ Postgres.columns) = [] → newestFirst a b = true) := by
    induction sort with
    | nil => exact ⟨rfl, fun _ => h⟩
    | cons sf sort ih =>
      have hrest := fun h => ih (fun sf' hsf' => horders sf' (List.mem_cons_of_mem _ hsf')) h
      by_cases hsf : sf.column ∈ Postgres.columns
      · obtain ⟨hab, hba⟩ := horders sf List.mem_cons_self hsf
        rw [List.filter_cons_of_pos (by simpa using hsf), List.map_cons, lexLe_cons, ← hab, ← hba]
        exact ⟨⟨h.1, fun hle => (hrest (h.2 hle)).1⟩, fun hnil => by cases hnil⟩
      · rw [List.filter_cons_of_neg (by simpa using hsf)]
        exact hrest (h.2 (liteField_unknown hsf b a))
  unfold Postgres.orderBy
  by_cases hfields : sort.filter (fun sf => sf.column ∈ Postgres.columns) = []
  · simp only [hfields, if_true]
    exact hnewest (hlex.2 hfields)
  · simp only [hfields, if_false]
    exact hlex.1

/-- **Both backends sort what they have selected in the same way.** -/
theorem Sim.sorted (h : Sim s) {filter : IssueFilter} {q : ListQuery} (hmeets : ListMeets dbs filter q s) :
    (sortPasses (q.sort.map Sqlite.fieldLe) (dbs.lite.orderBy newestFirst (IssueParity.selected filter s))).map
        (IssueParity.counterpart s) =
      dbs.pg.orderBy (Postgres.orderBy dbs.collation q.sort)
        ((IssueParity.selected filter s).map (IssueParity.counterpart s)) := by
  have hpartner : ∀ a ∈ IssueParity.selected filter s, IssueParity.counterpart s a ∈ s.pg.issues ∧
      undated (IssueParity.counterpart s a) = undated a := by
    intro a ha
    obtain ⟨r, hr, rfl⟩ := List.mem_map.1 ha
    exact h.counterpart (List.mem_filter.1 hr).1
  have hcreated : ∀ a ∈ IssueParity.selected filter s, (IssueParity.counterpart s a).createdAt = a.createdAt := by
    intro a ha
    have heq : (undated (IssueParity.counterpart s a)).createdAt = (undated a).createdAt :=
      congrArg Issue.createdAt (hpartner a ha).2
    exact heq
  have hperm : (sortPasses (q.sort.map Sqlite.fieldLe)
      (dbs.lite.orderBy newestFirst (IssueParity.selected filter s))).Perm (IssueParity.selected filter s) :=
    (perm_sortPasses _ _).trans (dbs.lite.perm _ _)
  have hlite : (sortPasses (q.sort.map Sqlite.fieldLe) (dbs.lite.orderBy newestFirst (IssueParity.selected filter s))).Pairwise
      (lexRel (fun a b => newestFirst a b = true) (q.sort.map Sqlite.fieldLe)) := by
    refine pairwise_sortPasses (fun le hle => ?_) (dbs.lite.sorted _ _ isOrder_newestFirst)
    obtain ⟨sf, _, rfl⟩ := List.mem_map.1 hle
    exact isOrder_liteField sf
  have hpg := dbs.pg.sorted (Postgres.orderBy dbs.collation q.sort)
    ((IssueParity.selected filter s).map (IssueParity.counterpart s)) (isOrder_orderBy dbs.collation q.sort)
  refine @List.Perm.eq_of_pairwise _ (fun a b => Postgres.orderBy dbs.collation q.sort a b = true) _ _ ?_ ?_ hpg
    ((hperm.map _).trans (dbs.pg.perm _ _).symm)
  · -- what the order leaves together has been created at one time, or is of one id
    intro a' b' ha' hb' hab hba
    obtain ⟨a, ha, rfl⟩ := List.mem_map.1 ((hperm.map _).mem_iff.1 ha')
    obtain ⟨b, hb, rfl⟩ := List.mem_map.1 ((dbs.pg.perm _ _).mem_iff.1 hb')
    unfold Postgres.orderBy at hab hba
    by_cases hfields : q.sort.filter (fun sf => sf.column ∈ Postgres.columns) = []
    · simp only [hfields, if_true, newestFirst, decide_eq_true_eq] at hab hba
      exact eq_of_key h.times (hpartner a ha).1 (hpartner b hb).1 (Nat.le_antisymm hba hab)
    · simp only [hfields, if_false] at hab hba
      obtain ⟨sf₀, hsf₀⟩ := List.exists_mem_of_ne_nil _ hfields
      have hknown : ∃ sf ∈ q.sort, sf.column ∈ Postgres.columns :=
        ⟨sf₀, (List.mem_filter.1 hsf₀).1, by simpa using (List.mem_filter.1 hsf₀).2⟩
      have hties := lexLe_antisymm hab hba
      have hids : a.id = b.id := hmeets.apart hknown a ha b hb fun sf hsf hcol => by
        have htie := hties _ (List.mem_map_of_mem (List.mem_filter.2 ⟨hsf, by simpa using hcol⟩))
        rw [hmeets.orders sf hsf hcol a ha b hb, hmeets.orders sf hsf hcol b hb a ha]
        exact htie
      refine eq_of_key h.ids (hpartner a ha).1 (hpartner b hb).1 ?_
      rw [id_of_undated (hpartner a ha).2, id_of_undated (hpartner b hb).2, hids]
  · rw [List.pairwise_map]
    refine hlite.imp_of_mem fun {a b} ha hb hlex => ?_
    have ha := hperm.mem_iff.1 ha
    have hb := hperm.mem_iff.1 hb
    refine orderBy_of_lexRel (fun sf hsf hcol =>
      ⟨hmeets.orders sf hsf hcol a ha b hb, hmeets.orders sf hsf hcol b hb a ha⟩) (fun hnewest => ?_) hlex
    simpa [newestFirst, hcreated a ha, hcreated b hb] using hnewest

theorem offset_of_all {q : ListQuery} (hvalid : q.Valid) (hlimit : q.limit = none) : q.offset = 0 := by
  have hall : q.perPage = ListQuery.allRows := by
    unfold ListQuery.limit at hlimit
    by_contra hne
    simp [hne] at hlimit
  obtain ⟨-, ⟨-, hle⟩ | ⟨hpage, -⟩⟩ := hvalid
  · rw [hall] at hle
    exact absurd hle (by decide)
  · simp [ListQuery.offset, hpage]

theorem list_agrees (h : Sim s) {filter : IssueFilter} {q : ListQuery} (hmeets : ListMeets dbs filter q s) :
    Agrees dbs (.list filter q) s ∧
      Sim ⟨(liteCall dbs (.list filter q) s).2, (pgCall dbs (.list filter q) s).2⟩ := by
  have hpage : ∀ items : List Issue, (q.slice items).map (IssueParity.counterpart s) =
      q.limit.elim (items.map (IssueParity.counterpart s))
        (fun n => ((items.map (IssueParity.counterpart s)).drop q.offset).take n) := by
    intro items
    unfold ListQuery.slice
    cases hlimit : q.limit with
    | none => simp [offset_of_all hmeets.valid hlimit]
    | some n => simp
  have hmem : ∀ a ∈ q.slice (sortPasses (q.sort.map Sqlite.fieldLe)
      (dbs.lite.orderBy newestFirst (IssueParity.selected filter s))),
      undated (IssueParity.counterpart s a) = undated a := by
    intro a ha
    have hin : a ∈ sortPasses (q.sort.map Sqlite.fieldLe) (dbs.lite.orderBy newestFirst (IssueParity.selected filter s)) := by
      unfold ListQuery.slice at ha
      cases hlimit : q.limit with
      | none =>
        rw [hlimit] at ha
        exact List.mem_of_mem_drop ha
      | some n =>
        rw [hlimit] at ha
        exact List.mem_of_mem_drop (List.mem_of_mem_take ha)
    rw [(perm_sortPasses _ _).mem_iff, (dbs.lite.perm _ _).mem_iff] at hin
    obtain ⟨r, hr, rfl⟩ := List.mem_map.1 hin
    exact (h.counterpart (List.mem_filter.1 hr).1).2
  refine ⟨⟨?_, fun e he => ?_⟩, h⟩
  · have hpg : (pgCall dbs (.list filter q) s).1 = .ok (.issues
        (q.limit.elim (dbs.pg.orderBy (Postgres.orderBy dbs.collation q.sort)
            (s.pg.issues.filter (Postgres.selects dbs.lower filter s.pg.links)))
          (fun n => ((dbs.pg.orderBy (Postgres.orderBy dbs.collation q.sort)
            (s.pg.issues.filter (Postgres.selects dbs.lower filter s.pg.links))).drop q.offset).take n))
        (s.pg.issues.filter (Postgres.selects dbs.lower filter s.pg.links)).length) := rfl
    have hlite : (liteCall dbs (.list filter q) s).1 = .ok (.issues
        (q.slice (sortPasses (q.sort.map Sqlite.fieldLe)
          (dbs.lite.orderBy newestFirst (IssueParity.selected filter s))))
        (dbs.lite.orderBy newestFirst (IssueParity.selected filter s)).length) := rfl
    rw [hpg, hlite, h.selected hmeets, ← h.sorted hmeets, ← hpage]
    simp only [Except.map, Answer.undated, List.map_map, List.length_map, (dbs.lite.perm _ _).length_eq]
    refine congrArg Except.ok (congrArg (Answer.issues · _) (List.map_congr_left fun a ha => ?_))
    exact (hmem a ha).symm
  · cases he

/-- **One call that meets its condition.** -/
theorem step_agrees (h : Sim s) {c : Call} (hmeets : Meets dbs c s) {s' : Stores} (hstep : step dbs c s = some s') :
    Agrees dbs c s ∧ Sim s' := by
  unfold step at hstep
  by_cases hfresh : c.fresh s = true
  · rw [if_pos hfresh] at hstep
    cases hstep
    cases c with
    | create id now issue => exact create_agrees h hfresh hmeets
    | get id => exact get_agrees h id
    | list filter q => exact list_agrees h hmeets
    | update now id u => exact update_agrees h hmeets
    | close now id resolution => exact close_agrees h now id resolution
  · rw [if_neg hfresh] at hstep
    cases hstep

/-- **In a run whose calls all meet their conditions the two stores answer alike, call by call, and a call that fails has
changed neither.** -/
theorem stores_agree (dbs : Databases) {l : List (Turn Call Stores)} {s : Stores} (h : Ran (step dbs) .empty l s)
    (hmeets : ∀ t ∈ l, Meets dbs t.action t.before) : ∀ t ∈ l, Agrees dbs t.action t.before := by
  intro t ht
  obtain ⟨l₁, l₂, rfl⟩ := List.append_of_mem ht
  have hbefore : Sim t.before := h.earlier.keeps (fun c s s' hs hc hstep => (step_agrees hs hc hstep).2) sim_empty
    fun t' ht' => hmeets t' (List.mem_append_left _ ht')
  obtain ⟨s', hs'⟩ := h.made t ht
  exact (step_agrees hbefore (hmeets t ht) hs').1

/-! ## Runs -/

instance decidableKeptLabels (labels : List Text) : Decidable (KeptLabels labels) :=
  inferInstanceAs (Decidable (labels ≠ [[]] ∧ ∀ l ∈ labels, ',' ∉ l))

instance decidableValid (q : ListQuery) : Decidable q.Valid :=
  inferInstanceAs (Decidable (1 ≤ q.page ∧ (1 ≤ q.perPage ∧ q.perPage ≤ 100 ∨ q.page = 1 ∧ q.perPage = ListQuery.allRows)))

instance decidableListMeets (dbs : Databases) (filter : IssueFilter) (q : ListQuery) (s : Stores) :
    Decidable (ListMeets dbs filter q s) :=
  decidable_of_iff (q.Valid ∧ (∀ label ∈ filter.label, ∀ i ∈ s.pg.issues,
      Sqlite.labelMatches label (joinLabels i.labels) = Postgres.labelMatches dbs.lower label i.labels) ∧
      (∀ sf ∈ q.sort, sf.column ∈ Postgres.columns → ∀ a ∈ selected filter s, ∀ b ∈ selected filter s,
        Sqlite.fieldLe sf a b = Postgres.fieldLe dbs.collation sf (counterpart s a) (counterpart s b)) ∧
      ((∃ sf ∈ q.sort, sf.column ∈ Postgres.columns) → ∀ a ∈ selected filter s, ∀ b ∈ selected filter s,
        (∀ sf ∈ q.sort, sf.column ∈ Postgres.columns → Sqlite.fieldLe sf a b = true ∧ Sqlite.fieldLe sf b a = true) →
        a.id = b.id))
    ⟨fun h => ⟨h.1, h.2.1, h.2.2.1, h.2.2.2⟩, fun h => ⟨h.valid, h.labels, h.orders, h.apart⟩⟩

instance decidableStatusMeets (u : IssueUpdate) (i : Issue) : Decidable (StatusMeets u i) := by
  unfold StatusMeets
  refine @instDecidableAnd _ _ _ ?_
  split <;> infer_instance

instance decidableUpdateMeets (u : IssueUpdate) : (i : Option Issue) → Decidable (UpdateMeets u i)
  | some i => inferInstanceAs (Decidable ((∀ labels ∈ u.labels, KeptLabels labels) ∧ StatusMeets u i))
  | none => inferInstanceAs (Decidable (Sqlite.hasFieldUpdates u = false ∧
      (u.status = none ∨ u.status = some .inProgress ∧ u.workspaceId = none)))

instance decidableMeets (dbs : Databases) : (c : Call) → (s : Stores) → Decidable (Meets dbs c s)
  | .create _ now issue, s => inferInstanceAs (Decidable (KeptLabels issue.labels ∧ ∀ i ∈ s.pg.issues, i.createdAt ≠ now))
  | .get _, _ => inferInstanceAs (Decidable True)
  | .list filter query, s => inferInstanceAs (Decidable (ListMeets dbs filter query s))
  | .update _ id u, s => inferInstanceAs (Decidable (UpdateMeets u (row Issue.id id s.pg.issues)))
  | .close .., _ => inferInstanceAs (Decidable True)

/-- Both databases order texts by code points and leave equal rows as they come. -/
def plain : Databases := ⟨fun t => t, .binary, .stable, .stable⟩

def task (title : String) (priority : IssuePriority) : NewIssue :=
  ⟨title.toList, [], priority, ["bug".toList, "ui".toList], "alice".toList, none, []⟩

/-- Two issues are created and one is claimed, and the issues are listed by priority and by label. -/
theorem stores_agree_claimed : ∃ (l : List (Turn Call Stores)) (s : Stores), Ran (step plain) .empty l s ∧ l.length = 5 ∧
    ∀ t ∈ l, Agrees plain t.action t.before := by
  have hrun : ∃ r ∈ trace (step plain)
      [.create 1 10 (task "a" .low), .create 2 20 (task "b" .high),
        .update 30 1 { IssueUpdate.none with status := some .inProgress, workspaceId := some 9 },
        .list { IssueFilter.none with label := some "bug".toList } ⟨1, 25, [⟨"priority".toList, .asc⟩]⟩, .get 3] .empty,
      (∀ t ∈ r.1, Meets plain t.action t.before) ∧ r.1.length = 5 := by
    decide +kernel
  obtain ⟨r, htrace, hmeets, hlength⟩ := hrun
  exact ⟨r.1, r.2, ran_of_trace htrace, hlength, stores_agree plain (ran_of_trace htrace) hmeets⟩

/-- An issue is closed and is to be opened again: Postgres opens it, SQLite refuses. -/
theorem closed_issue_reopens : ∃ (l : List (Turn Call Stores)) (s : Stores), Ran (step plain) .empty l s ∧
    ¬ ∀ t ∈ l, Agrees plain t.action t.before := by
  have hrun : ∃ r ∈ trace (step plain)
      [.create 1 10 (task "a" .low), .close 20 1 "wontfix".toList,
        .update 30 1 { IssueUpdate.none with status := some .open }] .empty,
      ∃ t ∈ r.1, (liteCall plain t.action t.before).1.isOk = false ∧ (pgCall plain t.action t.before).1.isOk = true := by
    decide +kernel
  obtain ⟨r, htrace, t, ht, hlite, hpg⟩ := hrun
  refine ⟨r.1, r.2, ran_of_trace htrace, fun h => ?_⟩
  have hagrees := (h t ht).1
  generalize (liteCall plain t.action t.before).1 = a at hlite hagrees
  generalize (pgCall plain t.action t.before).1 = b at hpg hagrees
  cases a with
  | ok _ => cases hlite
  | error _ =>
    cases b with
    | ok _ => cases hagrees
    | error _ => cases hpg

end IssueParity
end Vai
