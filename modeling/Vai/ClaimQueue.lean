import Vai.WorkQueue
/-!
# ClaimQueue — what the queue lists and what can be claimed

`Backed` is what both backends do, without faults, in terms of their issues and links; what follows from it holds for
each.  `claim_iff` and `listed_iff` say when a claim succeeds and when the queue lists an issue: the same but for the
permission, for the links that block the issue, which only the queue looks at, and for the predictions, of which the queue
needs one for each open issue that is not blocked.
-/
namespace Vai
namespace WorkQueue

open Proc Rows
open IssueDir (Unicode)
open Auth (RepoRole)

/-- A storage by the issues and the links that it keeps, when no call fails. -/
structure Backed {σ : Type} (st : Storage σ) where
  issues : σ → List Issue
  links : σ → List IssueLink
  /-- The ids that a new workspace can have. -/
  free : σ → Uuid → Prop
  listAll : ∀ s, ∃ r, st.listIssues .none .default s = (.ok r, s) ∧ r.1.Perm (issues s)
  listOpen : ∀ s, ∃ r, st.listIssues .onlyOpen .default s = (.ok r, s) ∧
    r.1.Perm ((issues s).filter fun i => i.status = .open)
  getIssue : ∀ id s, st.getIssue id s =
    ((row Issue.id id (issues s)).elim (.error (.notFound ("issue ".toList ++ Text.ofNat id))) .ok, s)
  listLinks : ∀ id s, st.listLinks id s = (.ok ((links s).filter fun l => l.sourceId = id || l.targetId = id), s)
  readHead : ∀ s, (st.readHead s).2 = s
  createWorkspace : ∀ s id intent base issueId, free s id → ∃ ws s', st.createWorkspace id intent base issueId s = (.ok ws, s') ∧
    ws.id = id ∧ issues s' = issues s
  setInProgress : ∀ s now id ws i, row Issue.id id (issues s) = some i → i.status = .open → ∃ i' s',
    st.updateIssue now id { IssueUpdate.none with status := some .inProgress, workspaceId := some ws } s = (.ok i', s') ∧
    ∀ j ∈ issues s', j.id = id → j.status = .inProgress
  setWorkspaceId : ∀ s w ws, issues (st.setWorkspaceId w ws s).2 = issues s
  append : ∀ s kind, issues (st.append kind s).2 = issues s

/-! ## The backends -/

theorem perm_allRows {order : Sorting.RowOrder Issue} (le : Issue → Issue → Bool) (items : List Issue) :
    (ListQuery.default.slice (order.orderBy le items)).Perm items := by
  have h : ListQuery.default.slice (order.orderBy le items) = order.orderBy le items := rfl
  rw [h]
  exact order.perm le items

theorem sqlite_selects_all (dependencies : List (Uuid × Uuid)) : Sqlite.selects .none dependencies = fun _ => true := by
  funext r
  simp [Sqlite.selects, IssueFilter.none]

theorem sqlite_selects_open (dependencies : List (Uuid × Uuid)) :
    Sqlite.selects .onlyOpen dependencies = fun r => decide (r.status = .open) := by
  funext r
  simp [Sqlite.selects, IssueFilter.onlyOpen]

theorem postgres_selects_all (lower : Text → Text) (links : List IssueLink) :
    Postgres.selects lower .none links = fun _ => true := by
  funext i
  simp [Postgres.selects, IssueFilter.none]

theorem postgres_selects_open (lower : Text → Text) (links : List IssueLink) :
    Postgres.selects lower .onlyOpen links = fun i => decide (i.status = .open) := by
  funext i
  simp [Postgres.selects, IssueFilter.onlyOpen]

theorem sqlite_setInProgress {s : LocalRepo} {id : Uuid} {i : Issue}
    (hrow : row Issue.id id (s.issues.rows.map IssueRow.toIssue) = some i) (hopen : i.status = .open) (now : Nat) (ws : Uuid) :
    ∃ i' s', Sqlite.updateIssue Sqlite.noFault now id
        { IssueUpdate.none with status := some .inProgress, workspaceId := some ws } s = (.ok i', s') ∧
      ∀ j ∈ s'.issues.rows.map IssueRow.toIssue, j.id = id → j.status = .inProgress := by
  have hrow' : row Issue.id id (s.issues.rows.map IssueRow.toIssue) =
      (row IssueRow.id id s.issues.rows).map IssueRow.toIssue := row_map
  rw [hrow'] at hrow
  obtain ⟨r, hr, rfl⟩ := Option.map_eq_some_iff.1 hrow
  have haccepts : Sqlite.accepts { IssueUpdate.none with status := some .inProgress, workspaceId := some ws } r.status =
      true := by
    have hstatus : r.status = .open := hopen
    rw [hstatus]
    rfl
  obtain ⟨links, hupdate⟩ := Sqlite.updateIssue_noFault now hr haccepts
  refine ⟨_, _, hupdate, fun j hj hid => ?_⟩
  obtain ⟨r', hr', rfl⟩ := List.mem_map.1 hj
  rcases mem_update.1 hr' with ⟨_, hne⟩ | ⟨r₀, _, _, rfl⟩
  · exact absurd hid hne
  · rfl

theorem postgres_setInProgress {s : PgRepo} {id : Uuid} {i : Issue} (hrow : row Issue.id id s.issues = some i) (now : Nat)
    (ws : Uuid) :
    ∃ i' s', Postgres.updateIssue Postgres.noFault now id
        { IssueUpdate.none with status := some .inProgress, workspaceId := some ws } s = (.ok i', s') ∧
      ∀ j ∈ s'.issues, j.id = id → j.status = .inProgress := by
  refine ⟨_, _, Postgres.updateIssue_noFault now hrow _, fun j hj hid => ?_⟩
  rcases mem_update.1 hj with ⟨_, hne⟩ | ⟨j₀, _, _, rfl⟩
  · exact absurd hid hne
  · rfl

theorem postgres_createWorkspace {s : PgRepo} {id : Uuid} (hfree : s.workspaces.get id = none) (intent base : Text)
    (issueId : Option Uuid) :
    Postgres.createWorkspace Postgres.noFault id intent base issueId s = (.ok ⟨id, intent, base, .created, []⟩,
      { s with workspaces := s.workspaces.insert id ⟨id, intent, base, .created, []⟩, claimed := s.claimed.put id issueId }) := by
  have h : Postgres.createWorkspace Postgres.noFault id intent base issueId s = (if (s.workspaces.get id).isSome then
      (fail (.database []) : Proc PgRepo StorageError WorkspaceMeta)
    else do
      modify fun s => { s with
        workspaces := s.workspaces.insert id ⟨id, intent, base, .created, []⟩
        claimed := s.claimed.put id issueId }
      Postgres.query Postgres.noFault .selectWorkspace
      pure ⟨id, intent, base, .created, []⟩) s := rfl
  rw [h, hfree]
  rfl

theorem postgres_setWorkspaceId (s : PgRepo) (w ws : Uuid) :
    (Postgres.setWorkspaceId Postgres.noFault w ws s).2.issues = s.issues := by
  have h : Postgres.setWorkspaceId Postgres.noFault w ws s = (if (s.workers.get w).isSome then
      (modify fun s => { s with workers := s.workers.insert w (some ws) } : Proc PgRepo StorageError Unit)
    else fail (.notFound ("agent worker ".toList ++ Text.ofNat w))) s := rfl
  rw [h]
  split <;> rfl

/-- The local backend has no links. -/
def sqliteBacked (order : Sorting.RowOrder Issue) : Backed (Sqlite.storage Sqlite.noFault order) where
  issues s := s.issues.rows.map IssueRow.toIssue
  links _ := []
  free _ _ := True
  listAll s := ⟨_, rfl, by
    refine (@perm_allRows order newestFirst _).trans ?_
    rw [sqlite_selects_all, List.filter_true]⟩
  listOpen s := ⟨_, rfl, by
    refine (@perm_allRows order newestFirst _).trans ?_
    rw [sqlite_selects_open, List.filter_map]
    exact .refl _⟩
  getIssue id s := by
    rw [show row Issue.id id (s.issues.rows.map IssueRow.toIssue) = (row IssueRow.id id s.issues.rows).map IssueRow.toIssue
      from row_map]
    exact Sqlite.getIssue_noFault id s
  listLinks _ _ := rfl
  readHead _ := rfl
  createWorkspace s id intent base issueId _ := by cases issueId <;> exact ⟨_, _, rfl, rfl, rfl⟩
  setInProgress s now id ws i hrow hopen := sqlite_setInProgress hrow hopen now ws
  setWorkspaceId _ _ _ := rfl
  append _ _ := rfl

def postgresBacked (lower : Text → Text) (collation : Collation) (order : Sorting.RowOrder Issue) :
    Backed (Postgres.storage Postgres.noFault lower collation order) where
  issues s := s.issues
  links s := s.links
  free s id := s.workspaces.get id = none
  listAll s := ⟨_, rfl, by
    refine (order.perm _ (s.issues.filter (Postgres.selects lower .none s.links))).trans ?_
    rw [postgres_selects_all, List.filter_true]⟩
  listOpen s := ⟨_, rfl, by
    refine (order.perm _ (s.issues.filter (Postgres.selects lower .onlyOpen s.links))).trans ?_
    rw [postgres_selects_open]⟩
  getIssue id s := Postgres.getIssue_noFault 0 id s
  listLinks _ _ := rfl
  readHead _ := rfl
  createWorkspace s id intent base issueId hfree := ⟨_, _, postgres_createWorkspace hfree intent base issueId, rfl, rfl⟩
  setInProgress s now id ws i hrow _ := postgres_setInProgress hrow now ws
  setWorkspaceId s w ws := postgres_setWorkspaceId s w ws
  append _ _ := rfl

/-! ## Claims -/

section Queue

variable {σ : Type} {st : Storage σ} (B : Backed st) (unicode : Unicode) (check : RepoRole → Except ApiError RepoRole)
  (broken : Bool)

def prediction (s : Site σ) (i : Issue) : ScopePrediction :=
  (predictScope unicode s.graph (i.title ++ ' ' :: i.description)).toOption.getD .empty

/-- There is no prediction for the issue: the graph cannot be opened, or SQLite refuses a query. -/
def unpredicted (s : Site σ) (i : Issue) : Bool :=
  broken || (predictScope unicode s.graph (i.title ++ ' ' :: i.description)).toOption.isNone

/-- `i` is the issue of the request; it is open, its scope is predicted, and no workspace is in the way. -/
structure Claimable (s : Site σ) (issueId : Text) (i : Issue) : Prop where
  named : Text.parseNat issueId = some i.id
  stored : i ∈ B.issues s.store
  isOpen : i.status = .open
  predicted : unpredicted unicode broken s i = false
  uncontested : ∀ p ∈ s.engine.allScopes, (prediction unicode s i).meets p.2 = false

/-- An issue whose status is not an end blocks it. -/
def Blocked (s : Site σ) (id : Uuid) : Prop :=
  ∃ l ∈ B.links s.store, l.relationship = .blocks ∧ l.targetId = id ∧
    ∃ j ∈ B.issues s.store, j.id = l.sourceId ∧ j.status ≠ .closed ∧ j.status ≠ .resolved

/-- There is a prediction for every issue that the queue asks one for. -/
def Answered (s : Site σ) : Prop :=
  ∀ i ∈ B.issues s.store, i.status = .open → ¬ Blocked B s i.id → unpredicted unicode broken s i = false

/-- The request is answered with a workspace. -/
def Claimed (st : Storage σ) (wsId : Uuid) (now : Nat) (body : ClaimWorkRequest) (s : Site σ) : Prop :=
  (claimWork unicode st check broken wsId now body s).1.isOk = true

/-- The queue lists the issue as available. -/
def Listed (st : Storage σ) (issueId : Text) (s : Site σ) : Prop :=
  ∃ q, (getWorkQueue unicode st check broken s).1 = .ok q ∧ ∃ w ∈ q.availableWork, Text.parseNat issueId = some w.issueId

variable {B unicode check broken} {s : Site σ} {issueId : Text}

theorem onStore_same {α : Type} {m : Proc σ StorageError α} {r : Except StorageError α} (h : m s.store = (r, s.store)) :
    onStore m s = (r, s) := by
  unfold onStore
  rw [h]

theorem predict_apply (i : Issue) (s : Site σ) : predict unicode broken i s =
    (if unpredicted unicode broken s i then .error .internal else .ok (prediction unicode s i), s) := by
  unfold predict unpredicted prediction
  cases broken with
  | true => rfl
  | false =>
    rw [if_neg Bool.false_ne_true, bind_apply, read_apply]
    dsimp only
    cases predictScope unicode s.graph (i.title ++ ' ' :: i.description) <;> rfl

theorem guards_apply (i : Issue) (s : Site σ) : guards unicode broken i s =
    (if i.status ≠ .open then .error (.conflict (staleMessage i.id))
      else if unpredicted unicode broken s i then .error .internal
      else if (s.engine.allScopes.any fun p => (prediction unicode s i).meets p.2) = true then
        .error (.conflict (contestedMessage i.id))
      else .ok (i, prediction unicode s i), s) := by
  unfold guards
  split
  · rfl
  · have hpredict := @predict_apply σ unicode broken i s
    cases hnone : unpredicted unicode broken s i with
    | true =>
      rw [hnone] at hpredict
      rw [bind_apply, hpredict]
      rfl
    | false =>
      rw [hnone] at hpredict
      rw [bind_of_ok hpredict, bind_apply, read_apply]
      dsimp only
      cases s.engine.allScopes.any fun p => (prediction unicode s i).meets p.2 <;> rfl

theorem uncontested_iff {i : Issue} : (s.engine.allScopes.any fun p => (prediction unicode s i).meets p.2) = true ↔
    ¬ ∀ p ∈ s.engine.allScopes, (prediction unicode s i).meets p.2 = false := by
  simp [List.any_eq_true]

theorem guards_ok {i : Issue} (hopen : i.status = .open) (hpredicted : unpredicted unicode broken s i = false)
    (hscopes : ∀ p ∈ s.engine.allScopes, (prediction unicode s i).meets p.2 = false) :
    guards unicode broken i s = (.ok (i, prediction unicode s i), s) := by
  rw [guards_apply, if_neg (not_not_intro hopen), if_neg (by simp [hpredicted]), if_neg (mt uncontested_iff.1 (not_not_intro hscopes))]

theorem guards_error {i : Issue} (h : ¬ (i.status = .open ∧ unpredicted unicode broken s i = false ∧
    ∀ p ∈ s.engine.allScopes, (prediction unicode s i).meets p.2 = false)) :
    ∃ e, guards unicode broken i s = (.error e, s) := by
  rw [guards_apply]
  by_cases hopen : i.status = .open
  · rw [if_neg (not_not_intro hopen)]
    cases hpredicted : unpredicted unicode broken s i with
    | true => exact ⟨_, rfl⟩
    | false =>
      rw [if_neg (by simp), if_pos (uncontested_iff.2 fun hscopes => h ⟨hopen, hpredicted, hscopes⟩)]
      exact ⟨_, rfl⟩
  · rw [if_pos hopen]
    exact ⟨_, rfl⟩

theorem getIssue_store (B : Backed st) (id : Uuid) (s : Site σ) : mapErr issueError (onStore (st.getIssue id)) s =
    ((row Issue.id id (B.issues s.store)).elim
      (.error (issueError (.notFound ("issue ".toList ++ Text.ofNat id)))) .ok, s) := by
  have hget := onStore_same (B.getIssue id s.store)
  unfold mapErr
  rw [hget]
  cases row Issue.id id (B.issues s.store) <;> rfl

theorem eligible_ok (hkeys : ((B.issues s.store).map Issue.id).Nodup) {i : Issue} (h : Claimable B unicode broken s issueId i) :
    eligible unicode st broken issueId s = (.ok (i, prediction unicode s i), s) := by
  have hget := getIssue_store B i.id s
  rw [row_of_mem hkeys h.stored] at hget
  unfold eligible
  rw [h.named]
  exact (bind_of_ok hget _).trans (guards_ok h.isOpen h.predicted h.uncontested)

theorem eligible_error (h : ¬ ∃ i, Claimable B unicode broken s issueId i) :
    ∃ e, eligible unicode st broken issueId s = (.error e, s) := by
  unfold eligible
  cases hnamed : Text.parseNat issueId with
  | none => exact ⟨_, rfl⟩
  | some id =>
    have hget := getIssue_store B id s
    cases hrow : row Issue.id id (B.issues s.store) with
    | none =>
      rw [hrow] at hget
      refine ⟨issueError (.notFound ("issue ".toList ++ Text.ofNat id)), ?_⟩
      dsimp only
      rw [bind_apply, hget]
      rfl
    | some i =>
      rw [hrow] at hget
      have hguards : ∃ e, guards unicode broken i s = (.error e, s) := by
        refine guards_error fun ⟨hopen, hpredicted, hscopes⟩ => h ⟨i, ?_, mem_of_row hrow, hopen, hpredicted, hscopes⟩
        rw [key_of_row hrow]
        exact hnamed
      obtain ⟨e, he⟩ := hguards
      exact ⟨e, (bind_of_ok hget _).trans he⟩

theorem permit_ok {role role' : RepoRole} (h : check role = .ok role') (s : Site σ) : permit check role s = (.ok (), s) := by
  unfold permit
  rw [h]
  rfl

theorem permit_error {role : RepoRole} {e : ApiError} (h : check role = .error e) (s : Site σ) :
    permit check role s = (.error e, s) := by
  unfold permit
  rw [h]
  rfl

theorem orInternal_ok {α : Type} {m : Proc σ StorageError α} {a : α} {t : σ} (h : m s.store = (.ok a, t)) :
    orInternal m s = (.ok a, { s with store := t }) := by
  unfold orInternal mapErr onStore
  rw [h]

theorem attemptStore_apply {α : Type} (m : Proc σ StorageError α) (s : Site σ) :
    attemptStore m s = (.ok ⟨⟩, { s with store := (m s.store).2 }) := by
  have h : (mapErr ApiError.ofStorage (onStore m) s).2 = { s with store := (m s.store).2 } := by
    unfold mapErr onStore
    rcases m s.store with ⟨_ | _, _⟩ <;> rfl
  unfold attemptStore
  rw [bind_of_ok (attempt_apply _ s), h]
  rfl

/-- After the update of the issue. -/
def afterUpdate (st : Storage σ) (worker : Option Uuid) (issue : Issue) (ws : WorkspaceMeta) (prediction : ScopePrediction) :
    Proc (Site σ) ApiError ClaimResult := do
  match worker with
  | some workerId => attemptStore (st.setWorkspaceId workerId ws.id)
  | none => pure ()
  attemptStore (st.append (.workspaceCreated ws.id ws.intent ws.baseVersion))
  attemptStore (st.append (.issueLinkedToWorkspace issue.id ws.id))
  pure ⟨issue.id, ws.id, issue.title, prediction⟩

/-- The workspace's two events, of which neither has to be written. -/
def noted (st : Storage σ) (issue : Issue) (ws : WorkspaceMeta) (t : σ) : σ :=
  (st.append (.issueLinkedToWorkspace issue.id ws.id) (st.append (.workspaceCreated ws.id ws.intent ws.baseVersion) t).2).2

theorem noted_apply (st : Storage σ) (issue : Issue) (ws : WorkspaceMeta) (result : ClaimResult) (s : Site σ) :
    (do
      attemptStore (st.append (.workspaceCreated ws.id ws.intent ws.baseVersion))
      attemptStore (st.append (.issueLinkedToWorkspace issue.id ws.id))
      pure result : Proc (Site σ) ApiError ClaimResult) s = (.ok result, { s with store := noted st issue ws s.store }) := by
  rw [bind_of_ok (attemptStore_apply _ s), bind_of_ok (attemptStore_apply _ _)]
  rfl

theorem afterUpdate_apply (B : Backed st) (worker : Option Uuid) (issue : Issue) (ws : WorkspaceMeta) (prediction : ScopePrediction)
    (s : Site σ) : ∃ s', afterUpdate st worker issue ws prediction s = (.ok ⟨issue.id, ws.id, issue.title, prediction⟩, s') ∧
      B.issues s'.store = B.issues s.store := by
  have hnoted : ∀ t, B.issues (noted st issue ws t) = B.issues t := fun t => by
    unfold noted
    rw [B.append, B.append]
  cases worker with
  | none => exact ⟨_, noted_apply st issue ws _ s, hnoted _⟩
  | some w =>
    refine ⟨_, (bind_of_ok (attemptStore_apply (st.setWorkspaceId w ws.id) s) _).trans (noted_apply st issue ws _ _), ?_⟩
    exact (hnoted _).trans (B.setWorkspaceId _ _ _)

/-- **What can be claimed is claimed, and is in progress then.** -/
theorem claim_ok (hkeys : ((B.issues s.store).map Issue.id).Nodup) {wsId : Uuid} (hfree : B.free s.store wsId) (now : Nat)
    {body : ClaimWorkRequest} {i : Issue} (h : Claimable B unicode broken s body.issueId i) {role : RepoRole}
    (hrole : check .write = .ok role) :
    ∃ result s', claimWork unicode st check broken wsId now body s = (.ok result, s') ∧
      ∀ j ∈ B.issues s'.store, j.id = i.id → j.status = .inProgress := by
  have heligible := eligible_ok hkeys h
  have hhead : ∃ head, attempt (mapErr ApiError.ofStorage (onStore st.readHead)) s = (.ok head, s) := by
    have hsame : (onStore st.readHead s).2 = s := by
      unfold onStore
      rw [B.readHead]
    unfold attempt mapErr
    rcases hread : onStore st.readHead s with ⟨_ | _, t⟩ <;> rw [hread] at hsame <;> cases hsame <;> exact ⟨_, rfl⟩
  obtain ⟨head, hhead⟩ := hhead
  obtain ⟨ws, t₁, hcreate, hws, hissues⟩ := B.createWorkspace s.store wsId i.title
    (head.toOption.join.getD "unknown".toList) (some i.id) hfree
  have hrow : row Issue.id i.id (B.issues t₁) = some i := by
    rw [hissues]
    exact row_of_mem hkeys h.stored
  obtain ⟨i', t₂, hupdate, hdone⟩ := B.setInProgress t₁ now i.id ws.id i hrow h.isOpen
  obtain ⟨s', hafter, hsame⟩ := afterUpdate_apply B (body.workerId.bind Text.parseNat) i ws (prediction unicode s i)
    { s with store := t₂ }
  refine ⟨⟨i.id, ws.id, i.title, prediction unicode s i⟩, s', ?_, fun j hj hid => hdone j (hsame ▸ hj) hid⟩
  have hcreate' := orInternal_ok hcreate
  have hupdate' := @orInternal_ok σ { s with store := t₁ } _ _ _ _ hupdate
  unfold claimWork
  rw [bind_of_ok (permit_ok hrole s), bind_of_ok heligible]
  dsimp only
  rw [bind_of_ok hhead, bind_of_ok hcreate', bind_of_ok hupdate']
  exact hafter

theorem claim_iff (hkeys : ((B.issues s.store).map Issue.id).Nodup) {wsId : Uuid} (hfree : B.free s.store wsId) (now : Nat)
    (body : ClaimWorkRequest) :
    Claimed unicode check broken st wsId now body s ↔
      (∃ role, check .write = .ok role) ∧ ∃ i, Claimable B unicode broken s body.issueId i := by
  constructor
  · intro h
    unfold Claimed at h
    cases hrole : check .write with
    | error e =>
      unfold claimWork at h
      rw [bind_apply, permit_error hrole] at h
      cases h
    | ok role =>
      refine ⟨⟨role, rfl⟩, ?_⟩
      by_contra hno
      obtain ⟨e, he⟩ := eligible_error hno
      unfold claimWork at h
      rw [bind_of_ok (permit_ok hrole s), bind_apply, he] at h
      cases h
  · intro h
    obtain ⟨⟨role, hrole⟩, i, hi⟩ := h
    obtain ⟨result, s', hclaim, -⟩ := claim_ok hkeys hfree now hi hrole
    unfold Claimed
    rw [hclaim]
    rfl

/-! ## The listing -/

theorem openBlockers_ne_nil {B : Backed st} {s : Site σ} {statusOf : FMap Uuid IssueStatus}
    (hstatus : ∀ id status, statusOf.get id = some status ↔ ∃ j ∈ B.issues s.store, j.id = id ∧ j.status = status) (id : Uuid) :
    openBlockers statusOf id ((B.links s.store).filter fun l => l.sourceId = id || l.targetId = id) ≠ [] ↔ Blocked B s id := by
  rw [Ne, List.eq_nil_iff_forall_not_mem, not_forall_not]
  unfold openBlockers Blocked
  simp only [List.mem_filter, List.mem_map, Bool.and_eq_true, Bool.or_eq_true, decide_eq_true_eq, Option.any_eq_true]
  constructor
  · intro h
    obtain ⟨b, ⟨l, ⟨⟨hl, -⟩, hblocks, htarget⟩, rfl⟩, status, hget, hne⟩ := h
    obtain ⟨j, hj, hid, rfl⟩ := (hstatus l.sourceId status).1 hget
    exact ⟨l, hl, hblocks, htarget, j, hj, hid, hne⟩
  · intro h
    obtain ⟨l, hl, hblocks, htarget, j, hj, hid, hne⟩ := h
    exact ⟨l.sourceId, ⟨l, ⟨⟨hl, .inr htarget⟩, hblocks, htarget⟩, rfl⟩, j.status, (hstatus l.sourceId j.status).2
      ⟨j, hj, hid, rfl⟩, hne⟩

/-- The statuses that the handler looks up are those of the issues. -/
theorem statusOf_get (hkeys : ((B.issues s.store).map Issue.id).Nodup) {all : List Issue} (hperm : all.Perm (B.issues s.store))
    (id : Uuid) (status : IssueStatus) : (FMap.ofList (all.map fun i => (i.id, i.status))).get id = some status ↔
      ∃ j ∈ B.issues s.store, j.id = id ∧ j.status = status := by
  have hbinding : ∀ k v, (k, v) ∈ all.map (fun i => (i.id, i.status)) ↔
      (row Issue.id k (B.issues s.store)).map Issue.status = some v := by
    intro k v
    rw [List.mem_map]
    constructor
    · intro h
      obtain ⟨i, hi, hpair⟩ := h
      cases hpair
      rw [row_of_mem hkeys (hperm.mem_iff.1 hi)]
      rfl
    · intro h
      obtain ⟨i, hrow, rfl⟩ := Option.map_eq_some_iff.1 h
      exact ⟨i, hperm.mem_iff.2 (mem_of_row hrow), by rw [key_of_row hrow]⟩
  rw [FMap.get_ofList_of_mem_iff hbinding, Option.map_eq_some_iff]
  constructor
  · intro h
    obtain ⟨j, hrow, rfl⟩ := h
    exact ⟨j, mem_of_row hrow, key_of_row hrow, rfl⟩
  · intro h
    obtain ⟨j, hj, rfl, rfl⟩ := h
    exact ⟨j, row_of_mem hkeys hj, rfl⟩

theorem listLinks_store (B : Backed st) (id : Uuid) (s : Site σ) :
    attempt (mapErr ApiError.ofStorage (onStore (st.listLinks id))) s =
      (.ok (.ok ((B.links s.store).filter fun l => l.sourceId = id || l.targetId = id)), s) := by
  have hlinks := onStore_same (B.listLinks id s.store)
  unfold attempt mapErr
  rw [hlinks]

/-- What becomes of one issue of the queue. -/
def queuedAs (statusOf : FMap Uuid IssueStatus) (titleOf : FMap Uuid Text) (links : List IssueLink) (unpredicted : Bool)
    (i : Issue) (p : ScopePrediction) (scopes : List (Uuid × WorkspaceScope)) : Except ApiError (AvailableWork ⊕ BlockedWork) :=
  let blockers := openBlockers statusOf i.id (links.filter fun l => l.sourceId = i.id || l.targetId = i.id)
  if blockers ≠ [] then .ok (.inr ⟨i.id, i.title, i.priority.asStr, blockers,
    "Blocked by: ".toList ++ ", ".toList.intercalate (blockers.filterMap fun b => titleOf.get b)⟩)
  else if unpredicted then .error .internal
  else .ok (placed i p scopes)

theorem queueOne_apply (B : Backed st) (statusOf : FMap Uuid IssueStatus) (titleOf : FMap Uuid Text)
    (scopes : List (Uuid × WorkspaceScope)) (i : Issue) (s : Site σ) :
    queueOne unicode st broken statusOf titleOf scopes i s =
      (queuedAs statusOf titleOf (B.links s.store) (unpredicted unicode broken s i) i (prediction unicode s i) scopes, s) := by
  unfold queueOne queuedAs
  rw [bind_of_ok (listLinks_store B i.id s)]
  split
  · rename_i h
    exact Prod.ext (if_pos h).symm rfl
  · rename_i h
    have hstay : (if unpredicted unicode broken s i then .error .internal else .ok (placed i (prediction unicode s i) scopes) :
        Except ApiError (AvailableWork ⊕ BlockedWork)) = queuedAs statusOf titleOf (B.links s.store)
          (unpredicted unicode broken s i) i (prediction unicode s i) scopes := (if_neg h).symm
    rw [bind_apply, predict_apply]
    refine Prod.ext (Eq.trans ?_ hstay) ?_
    · cases unpredicted unicode broken s i <;> rfl
    · cases unpredicted unicode broken s i <;> rfl

/-- An issue that is not blocked by a link goes where its prediction says. -/
theorem queuedAs_free {statusOf : FMap Uuid IssueStatus} {titleOf : FMap Uuid Text}
    (hstatus : ∀ id status, statusOf.get id = some status ↔ ∃ j ∈ B.issues s.store, j.id = id ∧ j.status = status)
    (scopes : List (Uuid × WorkspaceScope)) {i : Issue} (h : ¬ Blocked B s i.id) (unpredicted : Bool) (p : ScopePrediction) :
    queuedAs statusOf titleOf (B.links s.store) unpredicted i p scopes =
      if unpredicted then .error .internal else .ok (placed i p scopes) :=
  if_neg (mt (openBlockers_ne_nil hstatus i.id).1 h)

theorem queuedAs_blocked {statusOf : FMap Uuid IssueStatus} (titleOf : FMap Uuid Text) (unpredicted : Bool)
    (hstatus : ∀ id status, statusOf.get id = some status ↔ ∃ j ∈ B.issues s.store, j.id = id ∧ j.status = status)
    {i : Issue} (h : Blocked B s i.id) :
    ∃ b, ∀ p scopes, queuedAs statusOf titleOf (B.links s.store) unpredicted i p scopes = .ok (.inr b) :=
  ⟨_, fun _ _ => if_pos ((openBlockers_ne_nil hstatus i.id).2 h)⟩

theorem placed_eq_inl {i : Issue} {p : ScopePrediction} {scopes : List (Uuid × WorkspaceScope)} {w : AvailableWork} :
    placed i p scopes = .inl w ↔ (∀ q ∈ scopes, p.meets q.2 = false) ∧ w = ⟨i.id, i.title, i.priority.asStr, p⟩ := by
  unfold placed
  dsimp only
  split
  · rename_i h
    have hfree : ∀ q ∈ scopes, p.meets q.2 = false := by simpa [List.filter_eq_nil_iff] using h
    rw [Sum.inl.injEq]
    exact ⟨fun hw => ⟨hfree, hw.symm⟩, fun hw => hw.2.symm⟩
  · rename_i h
    constructor
    · intro hw
      cases hw
    · intro hw
      exact absurd (List.filter_eq_nil_iff.2 fun q hq => by simp [hw.1 q hq]) h

theorem getWorkQueue_apply {role : RepoRole} (hrole : check .read = .ok role) {r r' : List Issue × Nat}
    (hopen : st.listIssues .onlyOpen .default s.store = (.ok r, s.store))
    (hall : st.listIssues .none .default s.store = (.ok r', s.store)) :
    getWorkQueue unicode st check broken s = (do
      let placed ← r.1.mapM (queueOne unicode st broken (FMap.ofList (r'.1.map fun i => (i.id, i.status)))
        (FMap.ofList (r'.1.map fun i => (i.id, i.title))) s.engine.allScopes)
      pure {
        availableWork := (placed.filterMap Sum.getLeft?).insertionSort fun w w' => availableLe r'.1 w w' = true
        blockedWork := (placed.filterMap Sum.getRight?).insertionSort fun w w' =>
          priorityRank w.priority ≤ priorityRank w'.priority } : Proc (Site σ) ApiError WorkQueue) s := by
  have h₁ := orInternal_ok hopen
  have h₂ := orInternal_ok hall
  unfold getWorkQueue
  rw [bind_of_ok (permit_ok hrole s), bind_of_ok h₁, bind_of_ok h₂]
  rfl

/-- What is available has no blocker, is predicted, and is not in the way of a workspace. -/
theorem queuedAs_inl {statusOf : FMap Uuid IssueStatus} {titleOf : FMap Uuid Text} {links : List IssueLink}
    {scopes : List (Uuid × WorkspaceScope)} {i : Issue} {p : ScopePrediction} {w : AvailableWork} {unpredicted : Bool}
    (h : queuedAs statusOf titleOf links unpredicted i p scopes = .ok (.inl w)) :
    unpredicted = false ∧ (∀ q ∈ scopes, p.meets q.2 = false) ∧ w.issueId = i.id := by
  unfold queuedAs at h
  dsimp only at h
  split at h
  · cases h
  · cases unpredicted with
    | true => cases h
    | false =>
      have hinl : placed i p scopes = .inl w := by
        injection h
      obtain ⟨hfree, rfl⟩ := placed_eq_inl.1 hinl
      exact ⟨rfl, hfree, rfl⟩

/-- Calls that only read have all been answered where their list has. -/
theorem ok_of_mapM {σ ε α β : Type} {f : α → Proc σ ε β} {s : σ} (hsame : ∀ a, (f a s).2 = s) :
    ∀ {l : List α} {bs : List β} {s' : σ}, l.mapM f s = (.ok bs, s') → ∀ a ∈ l, ∃ b, f a s = (.ok b, s)
  | [], _, _, _, a, ha => absurd ha List.not_mem_nil
  | a :: l, bs, s', h, a', ha' => by
    rw [List.mapM_cons] at h
    obtain ⟨b, s₁, ha, h⟩ := bind_eq_ok.1 h
    obtain ⟨bs', s₂, hl, -⟩ := bind_eq_ok.1 h
    have hs₁ : s₁ = s := by
      rw [← hsame a, ha]
    rw [hs₁] at ha hl
    rcases List.mem_cons.1 ha' with rfl | ha'
    · exact ⟨b, ha⟩
    · exact ok_of_mapM hsame hl a' ha'

theorem listed_one (B : Backed st) (h : Listed unicode check broken st issueId s) : (∃ role, check .read = .ok role) ∧
    ∃ i ∈ B.issues s.store, i.status = .open ∧ Text.parseNat issueId = some i.id ∧
    ∃ (all : List Issue) (titleOf : FMap Uuid Text) (w : AvailableWork), all.Perm (B.issues s.store) ∧
      queuedAs (FMap.ofList (all.map fun i => (i.id, i.status))) titleOf (B.links s.store) (unpredicted unicode broken s i) i
        (prediction unicode s i) s.engine.allScopes = .ok (.inl w) := by
  obtain ⟨r, hopen, hpermOpen⟩ := B.listOpen s.store
  obtain ⟨r', hall, hpermAll⟩ := B.listAll s.store
  obtain ⟨q, hq, w, hw, hnamed⟩ := h
  cases hrole : check .read with
  | error e =>
    unfold getWorkQueue at hq
    rw [bind_apply, permit_error hrole] at hq
    cases hq
  | ok role =>
    rw [getWorkQueue_apply hrole hopen hall] at hq
    obtain ⟨placed, s₁, hmapM, hpure⟩ := bind_eq_ok.1 (Prod.ext hq rfl)
    cases hpure
    obtain ⟨-, hplaced⟩ := mem_of_mapM (fun i => by rw [queueOne_apply B]) hmapM
    rw [List.mem_insertionSort, List.mem_filterMap] at hw
    obtain ⟨x, hx, hleft⟩ := hw
    obtain rfl := Sum.getLeft?_eq_some_iff.1 hleft
    obtain ⟨i, hi, hone⟩ := (hplaced _).1 hx
    rw [hpermOpen.mem_iff, List.mem_filter, decide_eq_true_iff] at hi
    rw [queueOne_apply B] at hone
    injection hone with hone _
    rw [(queuedAs_inl hone).2.2] at hnamed
    exact ⟨⟨role, rfl⟩, i, hi.1, hi.2, hnamed, r'.1, _, w, hpermAll, hone⟩

/-- A queue that answers has a prediction for every issue that needs one. -/
theorem answered_of_listed (hkeys : ((B.issues s.store).map Issue.id).Nodup)
    (h : Listed unicode check broken st issueId s) : Answered B unicode broken s := by
  obtain ⟨r, hopen, hpermOpen⟩ := B.listOpen s.store
  obtain ⟨r', hall, hpermAll⟩ := B.listAll s.store
  obtain ⟨⟨role, hrole⟩, -⟩ := listed_one B h
  obtain ⟨q, hq, -⟩ := h
  rw [getWorkQueue_apply hrole hopen hall] at hq
  obtain ⟨placed, s₁, hmapM, -⟩ := bind_eq_ok.1 (Prod.ext hq rfl)
  intro i hi hisOpen hfree
  have hmem : i ∈ r.1 := by
    rw [hpermOpen.mem_iff, List.mem_filter, decide_eq_true_iff]
    exact ⟨hi, hisOpen⟩
  obtain ⟨x, hx⟩ := ok_of_mapM (fun i => by rw [queueOne_apply B]) hmapM i hmem
  rw [queueOne_apply B, queuedAs_free (statusOf_get hkeys hpermAll) _ hfree] at hx
  cases hnone : unpredicted unicode broken s i with
  | false => rfl
  | true =>
    rw [hnone] at hx
    cases hx

/-- **What the queue lists is what can be claimed and is not blocked**, where it answers. -/
theorem listed_iff (hkeys : ((B.issues s.store).map Issue.id).Nodup) :
    Listed unicode check broken st issueId s ↔
      (∃ role, check .read = .ok role) ∧ Answered B unicode broken s ∧ ∃ i, Claimable B unicode broken s issueId i ∧ ¬ Blocked B s i.id := by
  constructor
  · intro h
    have hanswered := answered_of_listed hkeys h
    obtain ⟨hrole, i, hstored, hisOpen, hnamed, all, titleOf, w, hperm, hone⟩ := listed_one B h
    have hstatus := statusOf_get hkeys hperm
    refine ⟨hrole, hanswered, i, ?_⟩
    obtain ⟨hpredicted, huncontested, -⟩ := queuedAs_inl hone
    refine ⟨⟨hnamed, hstored, hisOpen, hpredicted, huncontested⟩, fun hblocked => ?_⟩
    obtain ⟨b, hb⟩ := queuedAs_blocked titleOf (unpredicted unicode broken s i) hstatus hblocked
    rw [hb] at hone
    cases hone
  · intro h
    obtain ⟨⟨role, hrole⟩, hanswered, i, hi, hblocked⟩ := h
    obtain ⟨r, hopen, hpermOpen⟩ := B.listOpen s.store
    obtain ⟨r', hall, hpermAll⟩ := B.listAll s.store
    have hstatus := statusOf_get hkeys hpermAll
    have happly : getWorkQueue unicode st check broken s = _ := getWorkQueue_apply hrole hopen hall
    generalize FMap.ofList (r'.1.map fun i => (i.id, i.title)) = titleOf at happly
    generalize FMap.ofList (r'.1.map fun i => (i.id, i.status)) = statusOf at happly hstatus
    have hone : ∀ j, ∃ x, j ∈ r.1 → queuedAs statusOf titleOf (B.links s.store) (unpredicted unicode broken s j) j
        (prediction unicode s j) s.engine.allScopes = .ok x := by
      intro j
      by_cases hj : Blocked B s j.id
      · obtain ⟨b, hb⟩ := queuedAs_blocked titleOf (unpredicted unicode broken s j) hstatus hj
        exact ⟨_, fun _ => hb _ _⟩
      · refine ⟨placed j (prediction unicode s j) s.engine.allScopes, fun hmem => ?_⟩
        rw [hpermOpen.mem_iff, List.mem_filter, decide_eq_true_iff] at hmem
        rw [queuedAs_free hstatus _ hj, hanswered j hmem.1 hmem.2 hj]
        rfl
    choose place hplace using hone
    have hmapM : r.1.mapM (queueOne unicode st broken statusOf titleOf s.engine.allScopes) s = _ :=
      mapM_of_ok fun j hj => by rw [queueOne_apply B, hplace j hj]
    rw [bind_of_ok hmapM] at happly
    unfold Listed
    rw [happly]
    refine ⟨_, rfl, ⟨i.id, i.title, i.priority.asStr, prediction unicode s i⟩, ?_, hi.named⟩
    rw [List.mem_insertionSort, List.mem_filterMap]
    have hmem : i ∈ r.1 := by
      rw [hpermOpen.mem_iff, List.mem_filter, decide_eq_true_iff]
      exact ⟨hi.stored, hi.isOpen⟩
    refine ⟨place i, List.mem_map.2 ⟨i, hmem, rfl⟩, ?_⟩
    have heq := (hplace i hmem).symm.trans (queuedAs_free hstatus _ hblocked _ _)
    rw [hi.predicted, placed_eq_inl.2 ⟨hi.uncontested, rfl⟩] at heq
    injection heq with heq
    rw [heq]
    rfl

/-- **What is claimed is not listed any more.** -/
theorem not_listed_of_claimed (hkeys : ((B.issues s.store).map Issue.id).Nodup) {wsId : Uuid} (hfree : B.free s.store wsId)
    {now : Nat} {body : ClaimWorkRequest} (h : Claimed unicode check broken st wsId now body s) :
    ¬ Listed unicode check broken st body.issueId (claimWork unicode st check broken wsId now body s).2 := by
  obtain ⟨⟨role, hrole⟩, i, hi⟩ := (claim_iff hkeys hfree now body).1 h
  obtain ⟨result, s', hclaim, hdone⟩ := claim_ok hkeys hfree now hi hrole
  rw [hclaim]
  intro hlisted
  obtain ⟨-, j, hj, hisOpen, hnamed, -⟩ := listed_one B hlisted
  have hid : j.id = i.id := Option.some_injective _ (hnamed.symm.trans hi.named)
  have hstatus := hdone j hj hid
  rw [hisOpen] at hstatus
  cases hstatus

/-- **A claim agrees with the queue exactly when no issue that could be claimed is blocked by a link, and the queue has a
prediction for every issue that needs one** (for a caller who may claim if and only if the queue can be read).  What has
been claimed is not listed any more, in any case. -/
theorem claim_agrees_with_queue (B : Backed st) (unicode : Unicode) (check : RepoRole → Except ApiError RepoRole)
    (broken : Bool) {s : Site σ} (hkeys : ((B.issues s.store).map Issue.id).Nodup) {wsId : Uuid} (hfree : B.free s.store wsId)
    (now : Nat) (body : ClaimWorkRequest) :
    ((Claimed unicode check broken st wsId now body s ↔ Listed unicode check broken st body.issueId s) ↔
      ∀ i, Claimable B unicode broken s body.issueId i → ((∃ role, check .write = .ok role) ↔
        (∃ role, check .read = .ok role) ∧ Answered B unicode broken s ∧ ¬ Blocked B s i.id)) ∧
    (Claimed unicode check broken st wsId now body s →
      ¬ Listed unicode check broken st body.issueId (claimWork unicode st check broken wsId now body s).2) := by
  refine ⟨?_, not_listed_of_claimed hkeys hfree⟩
  rw [claim_iff hkeys hfree now body, listed_iff hkeys]
  have hone : ∀ i j, Claimable B unicode broken s body.issueId i → Claimable B unicode broken s body.issueId j → i.id = j.id :=
    fun i j hi hj => Option.some_injective _ (hi.named.symm.trans hj.named)
  constructor
  · intro h i hi
    constructor
    · intro hwrite
      obtain ⟨hread, hanswered, j, hj, hfree⟩ := h.1 ⟨hwrite, i, hi⟩
      exact ⟨hread, hanswered, hone j i hj hi ▸ hfree⟩
    · exact fun hread => (h.2 ⟨hread.1, hread.2.1, i, hi, hread.2.2⟩).1
  · intro h
    constructor
    · intro hclaim
      obtain ⟨hwrite, i, hi⟩ := hclaim
      obtain ⟨hread, hanswered, hfree⟩ := (h i hi).1 hwrite
      exact ⟨hread, hanswered, i, hi, hfree⟩
    · intro hlisted
      obtain ⟨hread, hanswered, i, hi, hfree⟩ := hlisted
      exact ⟨(h i hi).2 ⟨hread, hanswered, hfree⟩, i, hi⟩

end Queue

/-! ## An issue with an open blocker -/

def ascii : Unicode := ⟨Char.isAlphanum, fun t => t.map Char.toLower⟩

def everyone : RepoRole → Except ApiError RepoRole := .ok

abbrev pgStorage : Storage PgRepo := Postgres.storage Postgres.noFault (fun t => t) .binary .stable

def issueNamed (id : Uuid) (title : String) : Issue :=
  ⟨id, title.toList, [], .open, .medium, [], "ann".toList, none, none, [], 10, 10⟩

/-- Issue 1 blocks issue 2. -/
def behind : Site PgRepo :=
  ⟨{ PgRepo.empty with issues := [issueNamed 1 "schema", issueNamed 2 "rollout"], links := [⟨1, 2, .blocks⟩] }, none, ∅⟩

def rollout : ClaimWorkRequest := ⟨"2".toList, none⟩

/-- The blocked issue is claimed. -/
theorem blocked_issue_is_claimed : ¬ (Claimed ascii everyone false pgStorage 7 20 rollout behind ↔
    Listed ascii everyone false pgStorage rollout.issueId behind) := by
  have hclaimed : (claimWork ascii pgStorage everyone false 7 20 rollout behind).1.isOk = true := by decide +kernel
  have hqueue : (getWorkQueue ascii pgStorage everyone false behind).1.toOption.map
      (fun q => q.availableWork.map AvailableWork.issueId) = some [1] := by decide +kernel
  intro h
  obtain ⟨q, hq, w, hw, hnamed⟩ := h.1 hclaimed
  rw [hq] at hqueue
  have hids : q.availableWork.map AvailableWork.issueId = [1] := Option.some_injective _ hqueue
  have hid : w.issueId ∈ q.availableWork.map AvailableWork.issueId := List.mem_map_of_mem hw
  rw [hids, List.mem_singleton] at hid
  rw [hid] at hnamed
  revert hnamed
  decide +kernel

theorem claim_agrees_with_queue_behind :
    (Claimed ascii everyone false pgStorage 7 20 rollout behind ↔
      Listed ascii everyone false pgStorage rollout.issueId behind) ↔
    ∀ i, Claimable (postgresBacked (fun t => t) .binary .stable) ascii false behind rollout.issueId i →
      ((∃ role, everyone .write = .ok role) ↔ (∃ role, everyone .read = .ok role) ∧
        Answered (postgresBacked (fun t => t) .binary .stable) ascii false behind ∧
        ¬ Blocked (postgresBacked (fun t => t) .binary .stable) behind i.id) :=
  (claim_agrees_with_queue (postgresBacked (fun t => t) .binary .stable) ascii everyone false (by decide) (by rfl) 20
    rollout).1

end WorkQueue
end Vai
