import Vai.ClaimQueue
/-!
# ClaimFaults — what a failed claim leaves

Every call of a claim can fail.  Before the workspace is stored nothing has been written; after it nothing is taken back.
`Faulty` is what both backends do with faults, `claimWork_ends` follows the handler through its calls, and `claim_ends` the
local command.
-/
namespace Vai
namespace WorkQueue

open Proc Rows
open IssueDir (Unicode isActive)
open Auth (RepoRole)

/-- What is kept of the workspaces, the issues and the workers. -/
structure View (σ : Type) where
  workspaces : σ → FMap Uuid WorkspaceMeta
  issues : σ → List Issue
  workers : σ → FMap Uuid (Option Uuid)

def pgView : View PgRepo := ⟨PgRepo.workspaces, PgRepo.issues, PgRepo.workers⟩

/-- There are no workers here. -/
def localView : View LocalRepo := ⟨LocalRepo.workspaces, fun r => r.issues.rows.map IssueRow.toIssue, fun _ => ∅⟩

section Leaves

variable {σ : Type} {v : View σ} {s s' : Site σ}

/-- No new workspace, no other status, no scope and no link of a worker. -/
structure LeavesNothing (v : View σ) (s s' : Site σ) : Prop where
  workspaces : ∀ id, (v.workspaces s.store).get id = none → (v.workspaces s'.store).get id = none
  statuses : ∀ id, (row Issue.id id (v.issues s'.store)).map Issue.status = (row Issue.id id (v.issues s.store)).map Issue.status
  engine : s'.engine = s.engine
  workers : ∀ w, (v.workers s'.store).get w = (v.workers s.store).get w

theorem leavesNothing_self : LeavesNothing v s s := ⟨fun _ h => h, fun _ => rfl, rfl, fun _ => rfl⟩

theorem not_leavesNothing {wsId : Uuid} (hfresh : (v.workspaces s.store).get wsId = none)
    (hmade : ((v.workspaces s'.store).get wsId).isSome = true) : ¬ LeavesNothing v s s' := by
  intro h
  rw [h.workspaces wsId hfresh] at hmade
  cases hmade

/-- Errors leave nothing, where they are those before `C` and those after it leave a workspace. -/
theorem leavesNothing_iff {ε α : Type} {m : Proc (Site σ) ε α} {wsId : Uuid} {Reaches Rest : Prop}
    (hfresh : (v.workspaces s.store).get wsId = none)
    (h : Ends m s (fun _ _ => Reaches → Rest) (fun _ s' => ¬ Reaches ∧ s' = s ∨
      Reaches ∧ ¬ Rest ∧ ((v.workspaces s'.store).get wsId).isSome = true)) :
    (∀ e s', m s = (.error e, s') → LeavesNothing v s s') ↔ (Reaches → Rest) := by
  constructor
  · intro hleaves
    rcases hm : m s with ⟨e | a, s'⟩
    · intro hreaches
      rcases h.error hm with hno | hmade
      · exact absurd hreaches hno.1
      · exact absurd (hleaves e s' hm) (not_leavesNothing hfresh hmade.2.2)
    · exact h.ok hm
  · intro hrest e s' hm
    rcases h.error hm with hno | hmade
    · rw [hno.2]
      exact leavesNothing_self
    · exact absurd (hrest hmade.1) hmade.2.1

end Leaves

/-! ## The handler -/

section Handler

variable {σ : Type} {st : Storage σ} {v : View σ}

/-- A storage with faults, as far as a claim goes. -/
structure Faulty (st : Storage σ) (v : View σ) where
  /-- The issue can be read. -/
  reads : Prop
  /-- The workspace can be stored. -/
  stores : Prop
  /-- What follows in `create_workspace` works, and so does the update of the issue. -/
  confirms : Prop
  updates : Prop
  getIssue : ∀ id t, Ends (st.getIssue id) t (fun i t' => t' = t ∧ reads ∧ row Issue.id id (v.issues t) = some i)
    (fun _ t' => t' = t ∧ ¬ (reads ∧ ∃ i, row Issue.id id (v.issues t) = some i))
  readHead : ∀ t, (st.readHead t).2 = t
  createWorkspace : ∀ id intent base issueId t, (v.workspaces t).get id = none →
    Ends (st.createWorkspace id intent base issueId) t
      (fun ws t' => stores ∧ confirms ∧ ws.id = id ∧ v.issues t' = v.issues t ∧ ((v.workspaces t').get id).isSome = true)
      (fun _ t' => ¬ stores ∧ t' = t ∨ stores ∧ ¬ confirms ∧ ((v.workspaces t').get id).isSome = true)
  updateIssue : ∀ now id ws t i, row Issue.id id (v.issues t) = some i → i.status = .open →
    Ends (st.updateIssue now id { IssueUpdate.none with status := some .inProgress, workspaceId := some ws }) t
      (fun _ _ => updates) (fun _ t' => ¬ updates ∧ v.workspaces t' = v.workspaces t)

variable {unicode : Unicode} {check : RepoRole → Except ApiError RepoRole} {broken : Bool} {s : Site σ}

/-- The issue passes the guards. -/
def Passes (unicode : Unicode) (broken : Bool) (s : Site σ) (i : Issue) : Prop :=
  i.status = .open ∧ unpredicted unicode broken s i = false ∧ ∀ p ∈ s.engine.allScopes, (prediction unicode s i).meets p.2 = false

/-- The request comes to the insertion of the workspace, and that works. -/
def Faulty.Reaches (F : Faulty st v) (unicode : Unicode) (check : RepoRole → Except ApiError RepoRole) (broken : Bool)
    (issueId : Text) (s : Site σ) : Prop :=
  (∃ role, check .write = .ok role) ∧ F.reads ∧ F.stores ∧
    ∃ id i, Text.parseNat issueId = some id ∧ row Issue.id id (v.issues s.store) = some i ∧ Passes unicode broken s i

theorem ends_onStore {α : Type} {m : Proc σ StorageError α} {Q : α → Site σ → Prop} {E : StorageError → Site σ → Prop}
    (h : Ends m s.store (fun a t => Q a { s with store := t }) (fun e t => E e { s with store := t })) :
    Ends (onStore m) s Q E := by
  unfold Ends onStore at *
  rcases hm : m s.store with ⟨_ | _, _⟩ <;> rw [hm] at h <;> exact h

theorem guards_ends (i : Issue) : Ends (guards unicode broken i) s
    (fun r s' => s' = s ∧ r = (i, prediction unicode s i) ∧ Passes unicode broken s i)
    (fun _ s' => s' = s ∧ ¬ Passes unicode broken s i) := by
  by_cases h : Passes unicode broken s i
  · exact ends_of_ok (guards_ok h.1 h.2.1 h.2.2) ⟨rfl, rfl, h⟩
  · obtain ⟨e, he⟩ := guards_error h
    exact ends_of_error he ⟨rfl, h⟩

theorem orInternal_bind {α β : Type} {m : Proc σ StorageError α} {f : α → Proc (Site σ) ApiError β} {Q : β → Site σ → Prop}
    {E : ApiError → Site σ → Prop} (h : Ends m s.store (fun a t => Ends (f a) { s with store := t } Q E)
      (fun _ t => E .internal { s with store := t })) : Ends (orInternal m >>= f) s Q E :=
  ends_bind (ends_mapErr (ends_onStore h))

theorem eligible_ends (F : Faulty st v) (issueId : Text) (s : Site σ) :
    Ends (eligible unicode st broken issueId) s
      (fun r s' => s' = s ∧ F.reads ∧ ∃ id, Text.parseNat issueId = some id ∧
        row Issue.id id (v.issues s.store) = some r.1 ∧ Passes unicode broken s r.1)
      (fun _ s' => s' = s ∧ ¬ (F.reads ∧ ∃ id i, Text.parseNat issueId = some id ∧
        row Issue.id id (v.issues s.store) = some i ∧ Passes unicode broken s i)) := by
  unfold eligible
  cases hnamed : Text.parseNat issueId with
  | none =>
    refine ends_fail ⟨rfl, fun h => ?_⟩
    obtain ⟨-, id, i, hid, -⟩ := h
    cases hid
  | some id =>
    have hget : Ends (mapErr issueError (onStore (st.getIssue id))) s
        (fun i s' => s' = s ∧ F.reads ∧ row Issue.id id (v.issues s.store) = some i)
        (fun _ s' => s' = s ∧ ¬ (F.reads ∧ ∃ i, row Issue.id id (v.issues s.store) = some i)) :=
      ends_mapErr (ends_onStore ((F.getIssue id s.store).mono (fun i t h => by rw [h.1]; exact ⟨rfl, h.2⟩)
        (fun e t h => by rw [h.1]; exact ⟨rfl, h.2⟩)))
    refine hget.bind (fun _ s' h => ⟨h.1, fun hpast => ?_⟩) (fun i s' h => ?_)
    · obtain ⟨hreads, id', i, hid, hrow, -⟩ := hpast
      cases hid
      exact h.2 ⟨hreads, i, hrow⟩
    · obtain ⟨rfl, hreads, hrow⟩ := h
      refine (guards_ends i).mono (fun r s' h => ?_) (fun _ s' h => ⟨h.1, fun hpast => ?_⟩)
      · obtain ⟨rfl, rfl, hpasses⟩ := h
        exact ⟨rfl, hreads, id, rfl, hrow, hpasses⟩
      · obtain ⟨-, id', i', hid, hrow', hpasses⟩ := hpast
        cases hid
        cases hrow.symm.trans hrow'
        exact h.2 hpasses

theorem afterUpdate_ends {worker : Option Uuid} {issue : Issue} {ws : WorkspaceMeta} {p : ScopePrediction}
    {E : ApiError → Site σ → Prop} : Ends (afterUpdate st worker issue ws p) s (fun _ _ => True) E := by
  have hnoted : ∀ s : Site σ, ∃ r s', (do
      attemptStore (st.append (.workspaceCreated ws.id ws.intent ws.baseVersion))
      attemptStore (st.append (.issueLinkedToWorkspace issue.id ws.id))
      pure ⟨issue.id, ws.id, issue.title, p⟩ : Proc (Site σ) ApiError ClaimResult) s = (.ok r, s') :=
    fun s => ⟨_, _, noted_apply st issue ws _ s⟩
  cases worker with
  | none =>
    obtain ⟨r, s', h⟩ := hnoted s
    exact ends_of_ok h trivial
  | some w =>
    obtain ⟨r, s', h⟩ := hnoted { s with store := (st.setWorkspaceId w ws.id s.store).2 }
    exact ends_of_ok ((bind_of_ok (attemptStore_apply (st.setWorkspaceId w ws.id) s) _).trans h) trivial

/-- What follows the guards. -/
def afterGuards (st : Storage σ) (wsId : Uuid) (now : Nat) (worker : Option Uuid) (issue : Issue) (p : ScopePrediction) :
    Proc (Site σ) ApiError ClaimResult := do
  let head ← attempt (mapErr ApiError.ofStorage (onStore st.readHead))
  let ws ← orInternal (st.createWorkspace wsId issue.title (head.toOption.join.getD "unknown".toList) (some issue.id))
  let _ ← orInternal (st.updateIssue now issue.id
    { IssueUpdate.none with status := some .inProgress, workspaceId := some ws.id })
  afterUpdate st worker issue ws p

theorem afterGuards_ends (F : Faulty st v) {wsId : Uuid} (hfresh : (v.workspaces s.store).get wsId = none) (now : Nat)
    (worker : Option Uuid) {issue : Issue} (p : ScopePrediction) (hrow : row Issue.id issue.id (v.issues s.store) = some issue)
    (hopen : issue.status = .open) :
    Ends (afterGuards st wsId now worker issue p) s (fun _ _ => F.stores ∧ F.confirms ∧ F.updates)
      (fun _ s' => ¬ F.stores ∧ s' = s ∨
        F.stores ∧ ¬ (F.confirms ∧ F.updates) ∧ ((v.workspaces s'.store).get wsId).isSome = true) := by
  unfold afterGuards
  have hhead : Ends (attempt (mapErr ApiError.ofStorage (onStore st.readHead))) s (fun _ s' => s' = s) (fun _ _ => False) := by
    refine ends_of_ok (attempt_apply _ s) ?_
    have hsame := F.readHead s.store
    unfold mapErr onStore
    rcases hread : st.readHead s.store with ⟨_ | _, t⟩ <;> rw [hread] at hsame <;> cases hsame <;> rfl
  refine hhead.bind (fun _ _ h => h.elim) (fun head s' h => ?_)
  obtain rfl := h
  refine orInternal_bind ((F.createWorkspace wsId issue.title _ _ s'.store hfresh).mono (fun ws t h => ?_) (fun _ t h => ?_))
  · obtain ⟨hstores, hconfirms, hid, hissues, hmade⟩ := h
    have hrow' : row Issue.id issue.id (v.issues t) = some issue := by
      rw [hissues]
      exact hrow
    refine orInternal_bind ((F.updateIssue now issue.id ws.id t issue hrow' hopen).mono (fun i t' h => ?_) (fun _ t' h => ?_))
    · exact afterUpdate_ends.mono (fun _ _ _ => ⟨hstores, hconfirms, h⟩) (fun _ _ h => h)
    · refine .inr ⟨hstores, fun hrest => h.1 hrest.2, ?_⟩
      dsimp only
      rw [h.2]
      exact hmade
  · rcases h with ⟨hno, rfl⟩ | ⟨hstores, hno, hmade⟩
    · exact .inl ⟨hno, rfl⟩
    · exact .inr ⟨hstores, fun hrest => hno hrest.1, hmade⟩

theorem claimWork_ends (F : Faulty st v) {wsId : Uuid} (hfresh : (v.workspaces s.store).get wsId = none) (now : Nat)
    (body : ClaimWorkRequest) :
    Ends (claimWork unicode st check broken wsId now body) s
      (fun _ _ => F.Reaches unicode check broken body.issueId s → F.confirms ∧ F.updates)
      (fun _ s' => ¬ F.Reaches unicode check broken body.issueId s ∧ s' = s ∨
        F.Reaches unicode check broken body.issueId s ∧ ¬ (F.confirms ∧ F.updates) ∧
          ((v.workspaces s'.store).get wsId).isSome = true) := by
  have hstart : claimWork unicode st check broken wsId now body = (permit check .write >>= fun _ =>
      eligible unicode st broken body.issueId >>= fun r =>
        afterGuards st wsId now (body.workerId.bind Text.parseNat) r.1 r.2) := rfl
  rw [hstart]
  cases hrole : check .write with
  | error e =>
    refine ends_bind (ends_of_error (permit_error hrole s) (.inl ⟨fun h => ?_, rfl⟩))
    obtain ⟨⟨role, hrole'⟩, -⟩ := h
    rw [hrole] at hrole'
    cases hrole'
  | ok role =>
    refine ends_bind_of_ok (permit_ok hrole s) ?_
    refine (eligible_ends F body.issueId s).bind (fun _ s' h => .inl ⟨fun hreaches => h.2 ⟨hreaches.2.1, hreaches.2.2.2⟩, h.1⟩)
      (fun r s' h => ?_)
    obtain ⟨rfl, hreads, id, hnamed, hrow, hpasses⟩ := h
    have hid := key_of_row hrow
    rw [← hid] at hrow
    refine (afterGuards_ends F hfresh now _ r.2 hrow hpasses.1).mono (fun _ _ h _ => h.2) (fun _ s' h => ?_)
    rcases h with ⟨hno, rfl⟩ | ⟨hstores, hno, hmade⟩
    · exact .inl ⟨fun hreaches => hno hreaches.2.2.1, rfl⟩
    · refine .inr ⟨⟨⟨role, hrole⟩, hreads, hstores, id, r.1, hnamed, ?_, hpasses⟩, hno, hmade⟩
      rw [← hid]
      exact hrow

end Handler
/-! ## Postgres -/

section Postgres

variable (fails : PgCall → Bool) {t : PgRepo}

theorem ends_query (c : PgCall) : Ends (Postgres.query fails c) t (fun _ t' => t' = t ∧ fails c = false)
    (fun _ t' => t' = t ∧ fails c = true) := by
  unfold Postgres.query
  cases hc : fails c with
  | false => exact ends_pure ⟨rfl, rfl⟩
  | true => exact ends_fail ⟨rfl, rfl⟩

theorem pg_getIssue_ends (nth : Nat) (id : Uuid) : Ends (Postgres.getIssue fails nth id) t
    (fun i t' => t' = t ∧ fails (.selectIssue nth) = false ∧ row Issue.id id t.issues = some i)
    (fun _ t' => t' = t ∧ ¬ (fails (.selectIssue nth) = false ∧ ∃ i, row Issue.id id t.issues = some i)) := by
  unfold Postgres.getIssue
  refine (ends_query fails _).bind (fun _ t' h => ⟨h.1, fun hok => ?_⟩) (fun _ t' h => ?_)
  · rw [h.2] at hok
    cases hok.1
  · obtain ⟨rfl, hok⟩ := h
    refine ends_bind (ends_read ?_)
    cases hrow : row Issue.id id t'.issues with
    | some i => exact ends_pure ⟨rfl, hok, rfl⟩
    | none =>
      refine ends_fail ⟨rfl, fun h => ?_⟩
      obtain ⟨-, i, hi⟩ := h
      cases hi

theorem pg_createWorkspace_ends (id : Uuid) (intent base : Text) (issueId : Option Uuid) (hfresh : t.workspaces.get id = none) :
    Ends (Postgres.createWorkspace fails id intent base issueId) t
      (fun ws t' => fails .insertWorkspace = false ∧ fails .selectWorkspace = false ∧ ws.id = id ∧ t'.issues = t.issues ∧
        (t'.workspaces.get id).isSome = true)
      (fun _ t' => ¬ fails .insertWorkspace = false ∧ t' = t ∨
        fails .insertWorkspace = false ∧ ¬ fails .selectWorkspace = false ∧ (t'.workspaces.get id).isSome = true) := by
  unfold Postgres.createWorkspace
  refine (ends_query fails _).bind (fun _ t' h => .inl ⟨by simp [h.2], h.1⟩) (fun _ t' h => ?_)
  obtain ⟨rfl, hinsert⟩ := h
  refine ends_bind (ends_read ?_)
  rw [hfresh]
  refine ends_bind (ends_modify ?_)
  have hmade : (FMap.get (t'.workspaces.insert id (⟨id, intent, base, .created, []⟩ : WorkspaceMeta)) id).isSome = true := by
    rw [FMap.get_insert, if_pos rfl]
    rfl
  refine (ends_query fails .selectWorkspace).bind (fun _ t'' h => .inr ⟨hinsert, by simp [h.2], ?_⟩) (fun _ t'' h => ?_)
  · rw [h.1]
    exact hmade
  · rw [h.1]
    exact ends_pure ⟨hinsert, h.2, rfl, rfl, hmade⟩

theorem pg_updateIssue_ends (now : Nat) (id : Uuid) (u : IssueUpdate) {i : Issue} (hrow : row Issue.id id t.issues = some i) :
    Ends (Postgres.updateIssue fails now id u) t
      (fun _ _ => fails (.selectIssue 1) = false ∧ fails .updateIssue = false ∧ fails (.selectIssue 2) = false)
      (fun _ t' => ¬ (fails (.selectIssue 1) = false ∧ fails .updateIssue = false ∧ fails (.selectIssue 2) = false) ∧
        t'.workspaces = t.workspaces) := by
  unfold Postgres.updateIssue
  refine (pg_getIssue_ends fails 1 id).bind (fun _ t' h => ⟨fun hok => h.2 ⟨hok.1, i, hrow⟩, by rw [h.1]⟩) (fun _ t' h => ?_)
  obtain ⟨rfl, hselect, -⟩ := h
  refine (ends_query fails _).bind (fun _ t'' h => ⟨by simp [h.2], by rw [h.1]⟩) (fun _ t'' h => ?_)
  obtain ⟨rfl, hupdate⟩ := h
  refine ends_bind (ends_modify ?_)
  have hlast : row Issue.id id (Rows.update Issue.id id (Postgres.updated now u) t''.issues) = some (Postgres.updated now u i) := by
    rw [@row_update _ _ Issue.id _ _ _ (Postgres.updated now u) (fun _ => rfl), if_pos rfl, hrow]
    rfl
  refine (pg_getIssue_ends fails 2 id).mono (fun _ t' h => ⟨hselect, hupdate, h.2.1⟩) (fun _ t' h => ⟨fun hok => ?_, by rw [h.1]⟩)
  exact h.2 ⟨hok.2.2, _, hlast⟩

def pgFaulty (lower : Text → Text) (collation : Collation) (order : Sorting.RowOrder Issue) :
    Faulty (Postgres.storage fails lower collation order) pgView where
  reads := fails (.selectIssue 0) = false
  stores := fails .insertWorkspace = false
  confirms := fails .selectWorkspace = false
  updates := fails (.selectIssue 1) = false ∧ fails .updateIssue = false ∧ fails (.selectIssue 2) = false
  getIssue id t := pg_getIssue_ends fails 0 id
  readHead t := by
    have h : (Postgres.readHead fails t).2 = t := by
      unfold Postgres.readHead Postgres.query
      cases fails .readHead <;> rfl
    exact h
  createWorkspace id intent base issueId t hfresh := pg_createWorkspace_ends fails id intent base issueId hfresh
  updateIssue now id ws t i hrow _ := pg_updateIssue_ends fails now id _ hrow

end Postgres

/-! ## SQLite -/

section Dir

variable (fails : IssueCall → Bool) {d : IssueDir}

theorem dir_call_ends (c : IssueCall) : Ends (IssueDir.call fails c) d (fun _ d' => d' = d ∧ fails c = false)
    (fun _ d' => d' = d ∧ fails c = true) := by
  unfold IssueDir.call
  cases hc : fails c with
  | false => exact ends_pure ⟨rfl, rfl⟩
  | true => exact ends_fail ⟨rfl, rfl⟩

theorem dir_get_ends (nth : Nat) (id : Uuid) : Ends (IssueDir.get fails nth id) d
    (fun i d' => d' = d ∧ fails (.select nth) = false ∧ (row IssueRow.id id d.rows).map IssueRow.toIssue = some i)
    (fun _ d' => d' = d ∧ ¬ (fails (.select nth) = false ∧ ∃ r, row IssueRow.id id d.rows = some r)) := by
  unfold IssueDir.get
  refine (dir_call_ends fails _).bind (fun _ d' h => ⟨h.1, fun hok => ?_⟩) (fun _ d' h => ?_)
  · rw [h.2] at hok
    cases hok.1
  · obtain ⟨rfl, hok⟩ := h
    refine ends_bind (ends_read ?_)
    cases hrow : row IssueRow.id id d'.rows with
    | some r => exact ends_pure ⟨rfl, hok, rfl⟩
    | none =>
      refine ends_fail ⟨rfl, fun h => ?_⟩
      obtain ⟨-, r, hr⟩ := h
      cases hr

/-- The calls of `set_in_progress` work. -/
structure Moves (fails : IssueCall → Bool) : Prop where
  selectBefore : fails (.select 1) = false
  update : fails .update = false
  link : fails .link = false
  append : fails .append = false
  selectAfter : fails (.select 2) = false

theorem setInProgress_ends {id : Uuid} {r : IssueRow} (hrow : row IssueRow.id id d.rows = some r) (hopen : r.status = .open)
    (ws : Uuid) (now : Nat) (log : LogDir) : Ends (IssueDir.setInProgress fails id ws now log) d
      (fun _ d' => Moves fails ∧ ∃ r', row IssueRow.id id d'.rows = some r') (fun _ _ => ¬ Moves fails) := by
  have hno : ∀ {c : Bool}, c = true → ¬ c = false := fun h => by simp [h]
  unfold IssueDir.setInProgress IssueDir.transition
  refine (dir_get_ends fails 1 id).bind (fun _ _ h hmoves => h.2 ⟨hmoves.selectBefore, r, hrow⟩) (fun existing d₁ h => ?_)
  obtain ⟨rfl, hbefore, hexisting⟩ := h
  rw [hrow] at hexisting
  cases hexisting
  have hactive : isActive r.toIssue.status = true := by
    have hstatus : r.toIssue.status = .open := hopen
    rw [hstatus]
    rfl
  rw [if_pos hactive]
  unfold IssueDir.updateRow
  refine ends_bind ((dir_call_ends fails .update).bind (fun _ _ h hmoves => hno h.2 hmoves.update) (fun _ d₂ h => ?_))
  obtain ⟨rfl, hupdate⟩ := h
  refine ends_modify ?_
  have hmoved : row IssueRow.id id (update IssueRow.id id (IssueDir.moved now .inProgress fun x => x) d₂.rows) =
      some (IssueDir.moved now .inProgress (fun x => x) r) := by
    rw [row_update (f := IssueDir.moved now .inProgress fun x => x) (fun _ => rfl), if_pos rfl, hrow]
    rfl
  unfold Option.forM IssueDir.linkWorkspace
  refine ends_bind ((dir_call_ends fails .link).bind (fun _ _ h hmoves => hno h.2 hmoves.link) (fun _ d₃ h => ?_))
  obtain ⟨rfl, hlink⟩ := h
  refine ends_modify ?_
  unfold IssueDir.append
  cases happend : fails .append with
  | true => exact ends_bind (ends_fail fun hmoves => hno happend hmoves.append)
  | false =>
    refine ends_bind (ends_modify ?_)
    let r' := IssueDir.moved now .inProgress (fun x => x) r
    refine (dir_get_ends fails 2 id).mono (fun _ d' h => ⟨⟨hbefore, hupdate, hlink, happend, h.2.1⟩, r', ?_⟩)
      (fun _ _ h hmoves => h.2 ⟨hmoves.selectAfter, r', ?_⟩)
    · rw [h.1]
      cases log <;> exact hmoved
    · cases log <;> exact hmoved

end Dir

section Sqlite

variable (fails : LocalCall → Bool) {t : LocalRepo}

theorem ends_io (c : LocalCall) : Ends (Sqlite.io fails c) t (fun _ t' => t' = t ∧ fails c = false)
    (fun _ t' => t' = t ∧ ¬ fails c = false) := by
  unfold Sqlite.io
  cases hc : fails c with
  | false => exact ends_pure ⟨rfl, rfl⟩
  | true => exact ends_fail ⟨rfl, by simp⟩

theorem ends_openIssueStore (nth : Nat) : Ends (Sqlite.openIssueStore fails nth) t
    (fun _ t' => t' = t ∧ fails (.openIssueStore nth) = false) (fun _ t' => t' = t ∧ ¬ fails (.openIssueStore nth) = false) := by
  unfold Sqlite.openIssueStore
  cases hc : fails (.openIssueStore nth) with
  | false => exact ends_pure ⟨rfl, rfl⟩
  | true => exact ends_fail ⟨rfl, by simp⟩

theorem ends_issues {α : Type} {g : IssueError → StorageError} {m : Proc IssueDir IssueError α} {Q : α → LocalRepo → Prop}
    {E : StorageError → LocalRepo → Prop} (h : Ends m t.issues (fun a d => Q a { t with issues := d })
      (fun e d => E (g e) { t with issues := d })) : Ends (Sqlite.issues g m) t Q E := by
  unfold Ends Sqlite.issues at *
  rcases hm : m t.issues with ⟨_ | _, _⟩ <;> rw [hm] at h <;> exact h

theorem lite_row {id : Uuid} {i : Issue} (hrow : row Issue.id id (localView.issues t) = some i) :
    ∃ r, row IssueRow.id id t.issues.rows = some r ∧ r.toIssue = i := by
  have h : row Issue.id id (localView.issues t) = (row IssueRow.id id t.issues.rows).map IssueRow.toIssue := row_map
  rw [h] at hrow
  exact Option.map_eq_some_iff.1 hrow

/-- The first read of an issue works. -/
def Reads (fails : LocalCall → Bool) : Prop := fails (.openIssueStore 0) = false ∧ fails (.issue (.select 0)) = false

theorem lite_get_ends (id : Uuid) : Ends (IssueDir.get (fun c => fails (.issue c)) 0 id) t.issues
    (fun i d => d = t.issues ∧ fails (.issue (.select 0)) = false ∧ row Issue.id id (localView.issues t) = some i)
    (fun _ d => d = t.issues ∧ ¬ (fails (.issue (.select 0)) = false ∧ ∃ i, row Issue.id id (localView.issues t) = some i)) := by
  have hrow : row Issue.id id (localView.issues t) = (row IssueRow.id id t.issues.rows).map IssueRow.toIssue := row_map
  rw [hrow]
  refine (dir_get_ends _ 0 id).mono (fun _ _ h => h) (fun _ _ h => ⟨h.1, fun hok => h.2 ⟨hok.1, ?_⟩⟩)
  obtain ⟨-, i, hi⟩ := hok
  obtain ⟨r, hr, -⟩ := Option.map_eq_some_iff.1 hi
  exact ⟨r, hr⟩

theorem lite_getIssue_ends (id : Uuid) : Ends (Sqlite.getIssue fails id) t
    (fun i t' => t' = t ∧ Reads fails ∧ row Issue.id id (localView.issues t) = some i)
    (fun _ t' => t' = t ∧ ¬ (Reads fails ∧ ∃ i, row Issue.id id (localView.issues t) = some i)) := by
  unfold Sqlite.getIssue
  refine (ends_openIssueStore fails 0).bind (fun _ _ h => ⟨h.1, fun hok => h.2 hok.1.1⟩) (fun _ t' h => ?_)
  obtain ⟨rfl, hopen⟩ := h
  refine ends_issues ((lite_get_ends fails id).mono (fun i d h => ?_) (fun _ d h => ?_))
  · obtain ⟨rfl, hselect, hrow⟩ := h
    exact ⟨rfl, ⟨hopen, hselect⟩, hrow⟩
  · obtain ⟨rfl, hno⟩ := h
    exact ⟨rfl, fun hok => hno ⟨hok.1.2, hok.2⟩⟩

/-- The new workspace can be written. -/
def Stores (fails : LocalCall → Bool) : Prop := fails .createWorkspaceDir = false ∧ fails .writeMeta = false

/-- What `workspace::create` does after that works. -/
def Confirms (fails : LocalCall → Bool) : Prop := fails .logWorkspace = false ∧ fails .setActive = false

theorem lite_createWorkspace_ends (id : Uuid) (intent base : Text) : Ends (Sqlite.createWorkspace fails id intent base) t
    (fun ws t' => Stores fails ∧ Confirms fails ∧ ws.id = id ∧ t'.issues.rows = t.issues.rows ∧
      (t'.workspaces.get id).isSome = true)
    (fun _ t' => ¬ Stores fails ∧ t' = t ∨ Stores fails ∧ ¬ Confirms fails ∧ (t'.workspaces.get id).isSome = true) := by
  unfold Sqlite.createWorkspace
  refine (ends_io fails _).bind (fun _ _ h => .inl ⟨fun hok => h.2 hok.1, h.1⟩) (fun _ t' h => ?_)
  obtain ⟨rfl, hdir⟩ := h
  refine (ends_io fails _).bind (fun _ _ h => .inl ⟨fun hok => h.2 hok.2, h.1⟩) (fun _ t' h => ?_)
  obtain ⟨rfl, hmeta⟩ := h
  have hmade : (FMap.get (t'.workspaces.insert id (⟨id, intent, base, .created, []⟩ : WorkspaceMeta)) id).isSome = true := by
    rw [FMap.get_insert, if_pos rfl]
    rfl
  refine ends_bind (ends_modify ?_)
  refine (ends_io fails _).bind (fun _ _ h => .inr ⟨⟨hdir, hmeta⟩, fun hok => h.2 hok.1, ?_⟩) (fun _ t₁ h => ?_)
  · rw [h.1]
    exact hmade
  · obtain ⟨rfl, hlog⟩ := h
    refine ends_bind (ends_modify ?_)
    refine (ends_io fails _).bind (fun _ _ h => .inr ⟨⟨hdir, hmeta⟩, fun hok => h.2 hok.2, ?_⟩) (fun _ t₂ h => ?_)
    · rw [h.1]
      exact hmade
    · obtain ⟨rfl, hactive⟩ := h
      refine ends_bind (ends_modify ?_)
      exact ends_pure ⟨⟨hdir, hmeta⟩, ⟨hlog, hactive⟩, rfl, rfl, hmade⟩

theorem ends_linkIssue (id : Uuid) (issueId : Option Uuid) : Ends (Sqlite.linkIssue fails id issueId) t
    (fun _ t' => t'.issues.rows = t.issues.rows ∧ t'.workspaces = t.workspaces) (fun _ _ => False) := by
  unfold Sqlite.linkIssue
  split
  · exact ends_modify ⟨rfl, rfl⟩
  · exact ends_pure ⟨rfl, rfl⟩

/-- The update of a claimed issue works. -/
structure Updates (fails : LocalCall → Bool) : Prop where
  openIssueStore : fails (.openIssueStore 1) = false
  openEventLog : fails .openEventLog = false
  moves : Moves fun c => fails (.issue c)
  selectLast : fails (.issue (.select 3)) = false

theorem lite_updateIssue_ends (now : Nat) (id ws : Uuid) {i : Issue} (hrow : row Issue.id id (localView.issues t) = some i)
    (hopen : i.status = .open) : Ends (Sqlite.updateIssue fails now id
      { IssueUpdate.none with status := some .inProgress, workspaceId := some ws }) t
      (fun _ _ => Updates fails) (fun _ t' => ¬ Updates fails ∧ t'.workspaces = t.workspaces) := by
  obtain ⟨r, hr, rfl⟩ := lite_row hrow
  unfold Sqlite.updateIssue
  refine (ends_openIssueStore fails 1).bind (fun _ _ h => ⟨fun hok => h.2 hok.openIssueStore, by rw [h.1]⟩) (fun _ t₁ h => ?_)
  obtain ⟨rfl, hstore⟩ := h
  refine (ends_io fails .openEventLog).bind (fun _ _ h => ⟨fun hok => h.2 hok.openEventLog, by rw [h.1]⟩) (fun _ t₂ h => ?_)
  obtain ⟨rfl, hlog⟩ := h
  refine ends_bind (ends_pure ?_)
  refine ends_bind (ends_bind (ends_issues ((setInProgress_ends _ hr hopen ws now .eventLog).mono (fun _ d h => ?_)
    (fun _ d h => ?_))))
  · obtain ⟨hmoves, r', hr'⟩ := h
    refine ends_pure (ends_bind (ends_pure ?_))
    refine ends_issues ((dir_get_ends _ 3 id).mono (fun _ _ h => ⟨hstore, hlog, hmoves, h.2.1⟩) (fun _ _ h => ⟨fun hok => ?_, rfl⟩))
    exact h.2 ⟨hok.selectLast, r', hr'⟩
  · exact ⟨fun hok => h hok.moves, rfl⟩

def liteFaulty (order : Sorting.RowOrder Issue) : Faulty (Sqlite.storage fails order) localView where
  reads := Reads fails
  stores := Stores fails
  confirms := Confirms fails
  updates := Updates fails
  getIssue id t := lite_getIssue_ends fails id
  readHead t := by
    have h : (Sqlite.readHead fails t).2 = t := by
      unfold Sqlite.readHead Sqlite.io
      cases fails .readHead <;> rfl
    exact h
  createWorkspace id intent base issueId t _ := by
    refine (lite_createWorkspace_ends fails id intent base).bind (fun _ _ h => h) (fun ws t' h => ?_)
    refine ends_bind ((ends_linkIssue fails id issueId).mono (fun _ t'' hlinked => ends_pure ?_) (fun _ _ hno => hno.elim))
    obtain ⟨hstores, hconfirms, hid, hrows, hmade⟩ := h
    refine ⟨hstores, hconfirms, hid, congrArg (List.map IssueRow.toIssue) (hlinked.1.trans hrows), ?_⟩
    have hsame : localView.workspaces t'' = t'.workspaces := hlinked.2
    rw [hsame]
    exact hmade
  updateIssue now id ws t i hrow hopen := lite_updateIssue_ends fails now id ws hrow hopen

end Sqlite

/-! ## The local command -/

section Local

variable {unicode : Unicode} {broken : Bool} {s : Site LocalRepo} (fails : LocalCall → Bool)

theorem ends_onLocal {ε α : Type} {g : ε → WorkQueueError} {m : Proc LocalRepo ε α} {Q : α → Site LocalRepo → Prop}
    {E : WorkQueueError → Site LocalRepo → Prop} (h : Ends m s.store (fun a t => Q a { s with store := t })
      (fun e t => E (g e) { s with store := t })) : Ends (onLocal g m) s Q E := by
  unfold Ends onLocal at *
  rcases hm : m s.store with ⟨_ | _, _⟩ <;> rw [hm] at h <;> exact h

theorem ends_onIssues {α : Type} {m : Proc IssueDir IssueError α} {Q : α → Site LocalRepo → Prop}
    {E : WorkQueueError → Site LocalRepo → Prop}
    (h : Ends m s.store.issues (fun a d => Q a { s with store := { s.store with issues := d } })
      (fun e d => E (.issue e) { s with store := { s.store with issues := d } })) : Ends (onIssues m) s Q E := by
  unfold Ends onIssues at *
  rcases hm : m s.store.issues with ⟨_ | _, _⟩ <;> rw [hm] at h <;> exact h

/-- The command comes to the new workspace, and writes it. -/
def LocallyReaches (unicode : Unicode) (broken : Bool) (issueId : Uuid) (s : Site LocalRepo) : Prop :=
  Reads fails ∧ (∃ i, row Issue.id issueId (localView.issues s.store) = some i ∧ Passes unicode broken s i) ∧
    (fails .readHead = false ∧ s.store.head ≠ none) ∧ Stores fails

/-- What it does after that works. -/
def Finishes : Prop := Confirms fails ∧ fails .openEventLog = false ∧ Moves fun c => fails (.issue c)

/-- What follows the guards. -/
def afterLocalGuards (fails : LocalCall → Bool) (issueId wsId : Uuid) (now : Nat) (title : Text) (p : ScopePrediction) :
    Proc (Site LocalRepo) WorkQueueError ClaimResult := do
  match ← onLocal (fun _ => .io) (Sqlite.readHead fails) with
  | none => fail .io
  | some head =>
    let ws ← onLocal (fun _ => .workspace) (Sqlite.createWorkspace fails wsId title head)
    onLocal (fun _ => .eventLog) (Sqlite.openEventLog fails)
    let _ ← onIssues (IssueDir.setInProgress (fun c => fails (.issue c)) issueId ws.id now .vaiDir)
    pure ⟨issueId, ws.id, title, p⟩

theorem afterLocalGuards_ends {issueId : Uuid} {i : Issue} (hrow : row Issue.id issueId (localView.issues s.store) = some i)
    (hopen : i.status = .open) (wsId : Uuid) (now : Nat) (title : Text) (p : ScopePrediction) :
    Ends (afterLocalGuards fails issueId wsId now title p) s (fun _ _ => Finishes fails)
      (fun _ s' => ¬ ((fails .readHead = false ∧ s.store.head ≠ none) ∧ Stores fails) ∧ s' = s ∨
        ((fails .readHead = false ∧ s.store.head ≠ none) ∧ Stores fails) ∧ ¬ Finishes fails ∧
          ((localView.workspaces s'.store).get wsId).isSome = true) := by
  unfold afterLocalGuards Sqlite.readHead
  refine ends_bind (ends_onLocal ((ends_io fails .readHead).bind (fun _ _ h => ?_) (fun _ t h => ?_)))
  · obtain ⟨rfl, hno⟩ := h
    exact .inl ⟨fun hok => hno hok.1.1, rfl⟩
  · obtain ⟨rfl, hread⟩ := h
    refine ends_read ?_
    cases hhead : s.store.head with
    | none => exact ends_fail (.inl ⟨fun hok => hok.1.2 rfl, rfl⟩)
    | some head =>
      have hpast : fails .readHead = false ∧ some head ≠ none := ⟨hread, by simp⟩
      refine ends_bind (ends_onLocal ((lite_createWorkspace_ends fails wsId title head).mono (fun ws t h => ?_) (fun _ t h => ?_)))
      · obtain ⟨hstores, hconfirms, hid, hrows, hmade⟩ := h
        refine ends_bind (ends_onLocal ((ends_io fails .openEventLog).mono (fun _ t' h => ?_) (fun _ t' h => ?_)))
        · obtain ⟨rfl, hlog⟩ := h
          obtain ⟨r, hr, rfl⟩ := lite_row hrow
          rw [← hrows] at hr
          refine ends_bind (ends_onIssues ((setInProgress_ends _ hr hopen ws.id now .vaiDir).mono (fun _ _ h => ?_)
            (fun _ _ h => ?_)))
          · exact ends_pure ⟨hconfirms, hlog, h.1⟩
          · exact .inr ⟨⟨hpast, hstores⟩, fun hok => h hok.2.2, hmade⟩
        · obtain ⟨rfl, hno⟩ := h
          exact .inr ⟨⟨hpast, hstores⟩, fun hok => hno hok.2.1, hmade⟩
      · rcases h with ⟨hno, rfl⟩ | ⟨hstores, hno, hmade⟩
        · exact .inl ⟨fun hok => hno hok.2, rfl⟩
        · exact .inr ⟨⟨hpast, hstores⟩, fun hok => hno hok.1, hmade⟩

theorem claim_ends (issueId wsId : Uuid) (now : Nat) :
    Ends (claim unicode fails broken issueId wsId now) s
      (fun _ _ => LocallyReaches fails unicode broken issueId s → Finishes fails)
      (fun _ s' => ¬ LocallyReaches fails unicode broken issueId s ∧ s' = s ∨
        LocallyReaches fails unicode broken issueId s ∧ ¬ Finishes fails ∧
          ((localView.workspaces s'.store).get wsId).isSome = true) := by
  unfold claim
  refine ends_bind (ends_onLocal ((ends_openIssueStore fails 0).mono (fun _ t h => ?_) (fun _ t h => ?_)))
  · obtain ⟨rfl, hstore⟩ := h
    refine ends_bind (ends_onIssues ((lite_get_ends fails issueId).mono (fun i d h => ?_) (fun _ d h => ?_)))
    · obtain ⟨rfl, hselect, hrow⟩ := h
      have hone : ∀ {b : Bool} {P : Prop}, (Passes unicode b s i → P) →
          (∃ j, row Issue.id issueId (localView.issues s.store) = some j ∧ Passes unicode b s j) → P := by
        intro b P hP hj
        obtain ⟨j, hrow', hpasses⟩ := hj
        cases hrow.symm.trans hrow'
        exact hP hpasses
      by_cases hopen : i.status = .open
      · rw [if_neg (by simp [hopen])]
        cases hbroken : broken with
        | true =>
          rw [if_pos rfl]
          refine ends_fail (.inl ⟨fun hreaches => hone (fun hpasses => ?_) hreaches.2.1, rfl⟩)
          cases hpasses.2.1
        | false =>
          rw [if_neg (by simp)]
          refine ends_bind (ends_read ?_)
          cases hp : predictScope unicode s.graph (i.title ++ ' ' :: i.description) with
          | error e =>
            refine ends_bind (ends_fail (.inl ⟨fun hreaches => hone (fun hpasses => ?_) hreaches.2.1, rfl⟩))
            have hpredicted := hpasses.2.1
            unfold unpredicted at hpredicted
            rw [hp] at hpredicted
            cases hpredicted
          | ok p =>
            have hpredicted : unpredicted unicode false s i = false := by
              unfold unpredicted
              rw [hp]
              rfl
            have hprediction : p = prediction unicode s i := by
              unfold prediction
              rw [hp]
              rfl
            rw [hprediction]
            refine ends_bind (ends_pure ?_)
            refine ends_bind (ends_read ?_)
            by_cases hany : (s.engine.allScopes.any fun p => (prediction unicode s i).meets p.2) = true
            · rw [if_pos hany]
              refine ends_fail (.inl ⟨fun hreaches => hone (fun hpasses => ?_) hreaches.2.1, rfl⟩)
              obtain ⟨p, hp, hmeets⟩ := List.any_eq_true.1 hany
              rw [hpasses.2.2 p hp] at hmeets
              cases hmeets
            · have hpasses : Passes unicode false s i :=
                ⟨hopen, hpredicted, fun p hp => by simpa using fun h => hany (List.any_eq_true.2 ⟨p, hp, h⟩)⟩
              rw [if_neg hany]
              have hguarded : LocallyReaches fails unicode false issueId s ↔
                  (fails .readHead = false ∧ s.store.head ≠ none) ∧ Stores fails :=
                ⟨fun h => h.2.2, fun h => ⟨⟨hstore, hselect⟩, ⟨i, hrow, hpasses⟩, h⟩⟩
              rw [hguarded]
              exact (afterLocalGuards_ends fails hrow hopen wsId now i.title _).mono (fun _ _ h _ => h) (fun _ _ h => h)
      · rw [if_pos hopen]
        exact ends_fail (.inl ⟨fun hreaches => hone (fun hpasses => hopen hpasses.1) hreaches.2.1, rfl⟩)
    · obtain ⟨rfl, hno⟩ := h
      refine .inl ⟨fun hreaches => ?_, rfl⟩
      obtain ⟨hreads, hrow, -⟩ := hreaches
      obtain ⟨i, hrow, -⟩ := hrow
      exact hno ⟨hreads.2, i, hrow⟩
  · obtain ⟨rfl, hno⟩ := h
    exact .inl ⟨fun hreaches => hno hreaches.1.1, rfl⟩

end Local

/-! ## Exactly when -/

variable (unicode : Unicode) (check : RepoRole → Except ApiError RepoRole) (broken : Bool) (wsId : Uuid) (now : Nat)

/-- **A failed claim leaves nothing exactly when no call fails after the insertion of the workspace**: for the handler over
Postgres, for the handler over SQLite, and for the local command. -/
theorem failed_claim_leaves_nothing_iff :
    (∀ (fails : PgCall → Bool) (lower : Text → Text) (collation : Collation) (order : Sorting.RowOrder Issue)
      (s : Site PgRepo) (body : ClaimWorkRequest), s.store.workspaces.get wsId = none →
      ((∀ e s', claimWork unicode (Postgres.storage fails lower collation order) check broken wsId now body s = (.error e, s') →
          LeavesNothing pgView s s') ↔
        ((pgFaulty fails lower collation order).Reaches unicode check broken body.issueId s →
          fails .selectWorkspace = false ∧ fails (.selectIssue 1) = false ∧ fails .updateIssue = false ∧
            fails (.selectIssue 2) = false))) ∧
    (∀ (fails : LocalCall → Bool) (order : Sorting.RowOrder Issue) (s : Site LocalRepo) (body : ClaimWorkRequest),
      s.store.workspaces.get wsId = none →
      ((∀ e s', claimWork unicode (Sqlite.storage fails order) check broken wsId now body s = (.error e, s') →
          LeavesNothing localView s s') ↔
        ((liteFaulty fails order).Reaches unicode check broken body.issueId s → Confirms fails ∧ Updates fails))) ∧
    (∀ (fails : LocalCall → Bool) (s : Site LocalRepo) (issueId : Uuid), s.store.workspaces.get wsId = none →
      ((∀ e s', claim unicode fails broken issueId wsId now s = (.error e, s') → LeavesNothing localView s s') ↔
        (LocallyReaches fails unicode broken issueId s → Finishes fails))) := by
  refine ⟨fun fails lower collation order s body hfresh => ?_, fun fails order s body hfresh => ?_,
    fun fails s issueId hfresh => ?_⟩
  · exact leavesNothing_iff hfresh (claimWork_ends (pgFaulty fails lower collation order) hfresh now body)
  · exact leavesNothing_iff hfresh (claimWork_ends (liteFaulty fails order) hfresh now body)
  · exact leavesNothing_iff hfresh (claim_ends fails issueId wsId now)

/-- The issue cannot be written. -/
def updateFails (c : PgCall) : Bool := c = .updateIssue

def schemaRequest : ClaimWorkRequest := ⟨"1".toList, none⟩

abbrev updateFailsStorage : Storage PgRepo := Postgres.storage updateFails (fun t => t) .binary .stable

/-- The workspace stays, and the issue stays open. -/
theorem failed_claim_leaves_workspace : ¬ ∀ e s',
    claimWork ascii updateFailsStorage everyone false 7 20 schemaRequest behind = (.error e, s') → LeavesNothing pgView behind s' := by
  have herror : (claimWork ascii updateFailsStorage everyone false 7 20 schemaRequest behind).1 = .error .internal := by
    decide +kernel
  have hmade : ((pgView.workspaces (claimWork ascii updateFailsStorage everyone false 7 20 schemaRequest behind).2.store).get
      7).isSome = true := by decide +kernel
  intro h
  exact not_leavesNothing (by rfl) hmade (h _ _ (Prod.ext herror rfl))

theorem failed_claim_leaves_nothing_updateFails :
    (∀ e s', claimWork ascii updateFailsStorage everyone false 7 20 schemaRequest behind = (.error e, s') →
      LeavesNothing pgView behind s') ↔
    ((pgFaulty updateFails (fun t => t) .binary .stable).Reaches ascii everyone false schemaRequest.issueId behind →
      updateFails .selectWorkspace = false ∧ updateFails (.selectIssue 1) = false ∧ updateFails .updateIssue = false ∧
        updateFails (.selectIssue 2) = false) :=
  (failed_claim_leaves_nothing_iff ascii everyone false 7 20).1 updateFails (fun t => t) .binary .stable behind schemaRequest
    (by rfl)

end WorkQueue
end Vai
