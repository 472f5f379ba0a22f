import Vai.IssueStorage
/-!
# IssueSpec — what the operations on issues do when no step fails

One equation for each method of the two backends.  A method that succeeds though steps of it may fail does the same as
without faults (`Within`), so these say what every successful call does.
-/
namespace Vai

open Proc Rows Sorting

namespace IssueDir

/-- The issue's rows under `f`, and more events. -/
def applied (id : Uuid) (f : IssueRow → IssueRow) (links : List (Uuid × Uuid)) (events : List EventKind) (d : IssueDir) :
    IssueDir :=
  { d with
    rows := update IssueRow.id id f d.rows
    workspaceLinks := links
    eventLog := d.eventLog ++ events }

theorem applied_applied {id : Uuid} {f g : IssueRow → IssueRow} {links links' : List (Uuid × Uuid)}
    {events events' : List EventKind} {d : IssueDir} (hf : ∀ r, (f r).id = r.id) :
    applied id g links' events' (applied id f links events d) = applied id (fun r => g (f r)) links' (events ++ events') d := by
  unfold applied
  simp only [@update_update _ _ IssueRow.id _ _ _ _ _ hf, List.append_assoc]

theorem updateRow_noFault (id : Uuid) (f : IssueRow → IssueRow) (d : IssueDir) :
    updateRow noFault id f d = (.ok (), applied id f d.workspaceLinks [] d) := by
  have h : updateRow noFault id f d = (.ok (), { d with rows := update IssueRow.id id f d.rows }) := rfl
  rw [h]
  simp [applied]

end IssueDir

namespace Sqlite

open IssueDir (applied rewritten moved changedFields edited isActive)

def noFault : LocalCall → Bool := fun _ => false

section Issues

variable {α : Type} {m m' : Proc IssueDir IssueError α} {s : LocalRepo} {d : IssueDir} (g : IssueError → StorageError)

theorem issues_ok {a : α} (h : m s.issues = (.ok a, d)) : issues g m s = (.ok a, { s with issues := d }) := by
  unfold issues
  rw [h]

theorem issues_error {e : IssueError} (h : m s.issues = (.error e, d)) :
    issues g m s = (.error (g e), { s with issues := d }) := by
  unfold issues
  rw [h]

end Issues

variable {s : LocalRepo} {id : Uuid} (now : Nat)

/-! ## Creation -/

theorem update_append_new {rows : List IssueRow} {r : IssueRow} (hfresh : row IssueRow.id r.id rows = none)
    (f : IssueRow → IssueRow) : update IssueRow.id r.id f (rows ++ [r]) = rows ++ [f r] := by
  have hnone : updateWhere (fun r' => decide (r'.id = r.id)) f rows = rows :=
    updateWhere_of_none f fun r' hr' => by simpa using row_eq_none.1 hfresh r' hr'
  unfold updateWhere at hnone
  unfold update updateWhere
  rw [List.map_append, hnone]
  simp

/-- The repository with a new issue behind these rows. -/
def newest (rows : List IssueRow) (i : Issue) (s : LocalRepo) : LocalRepo :=
  { s with issues := { s.issues with rows := rows ++ [i.toRow] } }

theorem updateRow_newest {rows : List IssueRow} {i : Issue} (i' : Issue) {f : IssueRow → IssueRow}
    (hfresh : row IssueRow.id i.id rows = none) (hf : f i.toRow = i'.toRow) :
    issues database (IssueDir.updateRow IssueDir.noFault i.id f) (newest rows i s) = (.ok (), newest rows i' s) := by
  have hrows : update IssueRow.id i.id f (rows ++ [i.toRow]) = rows ++ [i'.toRow] := by
    rw [← hf]
    exact update_append_new (r := i.toRow) hfresh f
  rw [issues_ok database (IssueDir.updateRow_noFault i.id f (newest rows i s).issues)]
  simp only [applied, newest, hrows, List.append_nil]

theorem attachSource_newest {rows : List IssueRow} {i : Issue} (hfresh : row IssueRow.id i.id rows = none)
    (hsource : i.agentSource = none) (source : Option (Option AgentSource)) :
    attachSource noFault source i (newest rows i s) =
      (.ok { i with agentSource := source.join }, newest rows { i with agentSource := source.join } s) := by
  cases source with
  | none =>
    have hi : { i with agentSource := (none : Option (Option AgentSource)).join } = i := by
      rw [Option.join_none, ← hsource]
    rw [hi]
    rfl
  | some source =>
    exact bind_of_ok (updateRow_newest { i with agentSource := source }
      (f := fun r => { r with agentSource := source }) hfresh rfl) _

theorem attachCriteria_newest {rows : List IssueRow} {i : Issue} (hfresh : row IssueRow.id i.id rows = none)
    (hcriteria : i.acceptanceCriteria = []) (criteria : List Text) :
    attachCriteria noFault criteria i (newest rows i s) =
      (.ok { i with acceptanceCriteria := criteria }, newest rows { i with acceptanceCriteria := criteria } s) := by
  unfold attachCriteria
  by_cases hc : criteria = []
  · have hi : { i with acceptanceCriteria := criteria } = i := by
      rw [hc, ← hcriteria]
    rw [if_neg (by simp [hc]), hi]
    rfl
  · rw [if_pos hc]
    exact bind_of_ok (updateRow_newest { i with acceptanceCriteria := criteria }
      (f := fun r => { r with acceptanceCriteria := criteria }) hfresh rfl) _

theorem createIssue_noFault (hfresh : row IssueRow.id id s.issues.rows = none) (issue : NewIssue) :
    createIssue noFault id now issue s = (.ok (Postgres.newIssue id now issue),
      { s with issues := { s.issues with
        rows := s.issues.rows ++ [(Postgres.newIssue id now issue).toRow]
        eventLog := s.issues.eventLog ++ [.issueCreated id issue.title issue.creator issue.priority.asStr] } }) := by
  have hcreate := issues_ok database (@IssueDir.create_noFault id s.issues now issue.title issue.description issue.priority
    issue.labels issue.creator .eventLog hfresh)
  have hstart : createIssue noFault id now issue s = (issues database (IssueDir.create IssueDir.noFault id now issue.title
      issue.description issue.priority issue.labels issue.creator .eventLog) >>= fun created =>
        attachSource noFault issue.agentSource created >>= attachCriteria noFault issue.acceptanceCriteria) s := rfl
  rw [hstart, bind_of_ok hcreate]
  have hsource := @attachSource_newest { s with issues := { s.issues with
      eventLog := s.issues.eventLog ++ [.issueCreated id issue.title issue.creator issue.priority.asStr] } }
    s.issues.rows (Issue.new id now issue.title issue.description issue.priority issue.labels issue.creator none) hfresh rfl
    issue.agentSource
  refine (bind_of_ok hsource _).trans ?_
  exact attachCriteria_newest (by exact hfresh) rfl issue.acceptanceCriteria

/-! ## Updates -/

/-- What an update makes of the row that it finds as `r`. -/
def fieldsWritten (now : Nat) (u : IssueUpdate) (r : IssueRow) : IssueRow → IssueRow :=
  if hasFieldUpdates u then IssueDir.written now (edited u.title u.description u.priority u.labels r.toIssue) else fun r' => r'

def fieldEvents (id : Uuid) (u : IssueUpdate) (r : IssueRow) : List EventKind :=
  if hasFieldUpdates u ∧ changedFields r.toIssue (edited u.title u.description u.priority u.labels r.toIssue) ≠ [] then
    [.issueUpdated id (changedFields r.toIssue (edited u.title u.description u.priority u.labels r.toIssue))]
  else []

/-- The transitions that the local store allows. -/
def accepts (u : IssueUpdate) (status : IssueStatus) : Bool := match u.status with
  | some .inProgress => u.workspaceId.isNone || isActive status
  | some .open => status = .inProgress
  | some .resolved => isActive status
  | _ => true

def statusWritten (now : Nat) (u : IssueUpdate) (r : IssueRow) : IssueRow := match u.status with
  | none => r
  | some .inProgress => if u.workspaceId.isSome then moved now .inProgress (fun x => x) r else r
  | some .open => moved now .open (fun x => x) r
  | some .resolved => moved now .resolved (fun _ => some "resolved".toList) r
  | some .closed => moved now .closed (fun _ => some (u.resolution.getD "closed".toList)) r

def statusEvents (id : Uuid) (u : IssueUpdate) : List EventKind := match u.status with
  | none => []
  | some .inProgress => (u.workspaceId.map (EventKind.issueLinkedToWorkspace id)).toList
  | some .open => [.issueUpdated id ["status".toList]]
  | some .resolved => [.issueResolved id "resolved".toList u.resolution]
  | some .closed => [.issueClosed id (u.resolution.getD "closed".toList)]

def criteriaWritten (u : IssueUpdate) (r : IssueRow) : IssueRow :=
  { r with acceptanceCriteria := u.acceptanceCriteria.getD r.acceptanceCriteria }

/-- The row that an update leaves. -/
def updated (now : Nat) (u : IssueUpdate) (r : IssueRow) (r' : IssueRow) : IssueRow :=
  criteriaWritten u (statusWritten now u (fieldsWritten now u r r'))

theorem id_fieldsWritten (now : Nat) (u : IssueUpdate) (r r' : IssueRow) : (fieldsWritten now u r r').id = r'.id := by
  unfold fieldsWritten
  split <;> rfl

theorem id_statusWritten (now : Nat) (u : IssueUpdate) (r : IssueRow) : (statusWritten now u r).id = r.id := by
  unfold statusWritten
  split <;> try rfl
  split <;> rfl

theorem status_fieldsWritten (now : Nat) (u : IssueUpdate) (r r' : IssueRow) :
    (fieldsWritten now u r r').status = r'.status := by
  unfold fieldsWritten
  split <;> rfl

/-- The repository after writes to the issue's row, with their events. -/
def wrote (id : Uuid) (f : IssueRow → IssueRow) (links : List (Uuid × Uuid)) (events : List EventKind) (s : LocalRepo) :
    LocalRepo := { s with issues := applied id f links events s.issues }

theorem wrote_wrote {f g : IssueRow → IssueRow} {links links' : List (Uuid × Uuid)} {events events' : List EventKind}
    (hf : ∀ r, (f r).id = r.id) :
    wrote id g links' events' (wrote id f links events s) = wrote id (fun r => g (f r)) links' (events ++ events') s := by
  unfold wrote
  rw [IssueDir.applied_applied hf]

theorem wrote_self : wrote id (fun r => r) s.issues.workspaceLinks [] s = s := by
  unfold wrote applied
  rw [update_self, List.append_nil]

theorem row_wrote {f : IssueRow → IssueRow} {links : List (Uuid × Uuid)} {events : List EventKind}
    (hf : ∀ r, (f r).id = r.id) {r : IssueRow} (hrow : row IssueRow.id id s.issues.rows = some r) :
    row IssueRow.id id (wrote id f links events s).issues.rows = some (f r) := by
  have h : (wrote id f links events s).issues.rows = update IssueRow.id id f s.issues.rows := rfl
  rw [h, row_update hf, if_pos rfl, hrow]
  rfl

theorem applyFields_noFault {r : IssueRow} (hrow : row IssueRow.id id s.issues.rows = some r) (u : IssueUpdate) :
    applyFields noFault now id u s =
      (.ok (), wrote id (fieldsWritten now u r) s.issues.workspaceLinks (fieldEvents id u r) s) := by
  unfold applyFields fieldsWritten fieldEvents
  by_cases hfields : hasFieldUpdates u = true
  · have hupdate := issues_ok database (@IssueDir.updateIssue_noFault id s.issues now u.title u.description u.priority
      u.labels .eventLog r hrow)
    rw [if_pos hfields, if_pos hfields]
    refine (bind_of_ok hupdate _).trans ?_
    by_cases hchanged : changedFields r.toIssue (edited u.title u.description u.priority u.labels r.toIssue) = []
    · simp only [hchanged, if_true, ne_eq, not_true_eq_false, and_false, if_false, wrote, applied, List.append_nil]
      rfl
    · simp only [hchanged, if_false, hfields, ne_eq, not_false_eq_true, and_self, if_true, wrote, applied]
      rfl
  · simp only [hfields, false_and, if_false, Bool.false_eq_true]
    rw [wrote_self]
    rfl

theorem transition_wrote {g : IssueError → StorageError} (allowed : IssueStatus → Bool) {after : IssueStatus}
    {resolution : Option Text → Option Text} (workspaceId : Option Uuid) {kind : EventKind} {r : IssueRow}
    (hrow : row IssueRow.id id s.issues.rows = some r) (hallowed : allowed r.status = true) :
    issues g (IssueDir.transition IssueDir.noFault id now allowed after resolution workspaceId kind .eventLog) s =
      (.ok (moved now after resolution r).toIssue, wrote id (moved now after resolution)
        (workspaceId.elim s.issues.workspaceLinks (fun w => s.issues.workspaceLinks.insert (id, w))) [kind] s) :=
  issues_ok g (IssueDir.transition_noFault hrow hallowed)

theorem applyStatus_noFault {r : IssueRow} (hrow : row IssueRow.id id s.issues.rows = some r) {u : IssueUpdate}
    (haccepts : accepts u r.status = true) :
    ∃ links, applyStatus noFault now id u s = (.ok (), wrote id (statusWritten now u) links (statusEvents id u) s) := by
  unfold applyStatus
  have hwritten : statusWritten now u = fun r => statusWritten now u r := rfl
  rw [hwritten]
  unfold statusWritten statusEvents
  unfold accepts at haccepts
  cases hstatus : u.status with
  | none => exact ⟨_, by rw [wrote_self]; rfl⟩
  | some status =>
    cases status with
    | inProgress =>
      simp only [hstatus] at haccepts
      cases hws : u.workspaceId with
      | none => exact ⟨_, by simp only [Option.isSome_none, Bool.false_eq_true, if_false, Option.map_none, Option.toList_none]
                             rw [wrote_self]
                             rfl⟩
      | some w =>
        have hallowed : isActive r.status = true := by simpa [hws] using haccepts
        exact ⟨_, bind_of_ok (transition_wrote now isActive (some w) hrow hallowed) _⟩
    | «open» =>
      simp only [hstatus] at haccepts
      exact ⟨_, bind_of_ok (transition_wrote now _ none hrow haccepts) _⟩
    | resolved =>
      simp only [hstatus] at haccepts
      exact ⟨_, bind_of_ok (transition_wrote now _ none hrow haccepts) _⟩
    | closed => exact ⟨_, bind_of_ok (transition_wrote now (fun _ => true) none hrow rfl) _⟩

theorem applyCriteria_noFault (id : Uuid) (u : IssueUpdate) (s : LocalRepo) :
    applyCriteria noFault id u s = (.ok (), wrote id (criteriaWritten u) s.issues.workspaceLinks [] s) := by
  unfold applyCriteria criteriaWritten
  cases u.acceptanceCriteria with
  | none => exact (congrArg (Prod.mk _) wrote_self).symm
  | some criteria => exact issues_ok database (IssueDir.updateRow_noFault id _ s.issues)

theorem updateIssue_noFault {r : IssueRow} (hrow : row IssueRow.id id s.issues.rows = some r) {u : IssueUpdate}
    (haccepts : accepts u r.status = true) :
    ∃ links, updateIssue noFault now id u s =
      (.ok (updated now u r r).toIssue, wrote id (updated now u r) links (fieldEvents id u r ++ statusEvents id u) s) := by
  have hfields := applyFields_noFault now hrow u
  have hrow₁ : row IssueRow.id id (wrote id (fieldsWritten now u r) s.issues.workspaceLinks (fieldEvents id u r) s).issues.rows =
    some (fieldsWritten now u r r) := row_wrote (fun r' => id_fieldsWritten now u r r') hrow
  obtain ⟨links, hstatus⟩ := applyStatus_noFault now hrow₁ (u := u) (by rw [status_fieldsWritten]; exact haccepts)
  rw [wrote_wrote fun r' => id_fieldsWritten now u r r'] at hstatus
  have hids : ∀ r', (statusWritten now u (fieldsWritten now u r r')).id = r'.id := fun r' => by
    rw [id_statusWritten, id_fieldsWritten]
  have hcriteria := applyCriteria_noFault id u
    (wrote id (fun r' => statusWritten now u (fieldsWritten now u r r')) links (fieldEvents id u r ++ statusEvents id u) s)
  rw [wrote_wrote hids, List.append_nil] at hcriteria
  have hlast : row IssueRow.id id (wrote id (updated now u r) links (fieldEvents id u r ++ statusEvents id u) s).issues.rows =
    some (updated now u r r) := row_wrote (f := updated now u r) hids hrow
  refine ⟨links, ?_⟩
  have hget : ∀ s₁ : LocalRepo, row IssueRow.id id s₁.issues.rows = some (updated now u r r) →
      IssueDir.get IssueDir.noFault 3 id s₁.issues = (.ok (updated now u r r).toIssue, s₁.issues) := by
    intro s₁ hs₁
    rw [IssueDir.get_noFault, hs₁]
    rfl
  have hstart : updateIssue noFault now id u s = (applyFields noFault now id u >>= fun _ => applyStatus noFault now id u >>=
      fun _ => applyCriteria noFault id u >>= fun _ => issues (orNotFound id) (IssueDir.get IssueDir.noFault 3 id)) s := rfl
  rw [hstart, bind_of_ok hfields, bind_of_ok hstatus, bind_of_ok hcriteria]
  exact issues_ok (orNotFound id) (hget _ hlast)

/-- An update that leaves the fields and the status is tried on an issue that is not there. -/
theorem updateIssue_missing (hrow : row IssueRow.id id s.issues.rows = none) {u : IssueUpdate}
    (hfields : hasFieldUpdates u = false)
    (hstatus : u.status = none ∨ u.status = some .inProgress ∧ u.workspaceId = none) :
    updateIssue noFault now id u s = (.error (.notFound ("issue ".toList ++ Text.ofNat id)), s) := by
  have h₁ : applyFields noFault now id u s = (.ok (), s) := by
    unfold applyFields
    rw [if_neg (by simp [hfields])]
    rfl
  have h₂ : applyStatus noFault now id u s = (.ok (), s) := by
    unfold applyStatus
    rcases hstatus with h | ⟨h, hws⟩
    · rw [h]
      rfl
    · rw [h, hws]
      rfl
  have h₃ : applyCriteria noFault id u s = (.ok (), s) := by
    have hself : update IssueRow.id id (criteriaWritten u) s.issues.rows = s.issues.rows :=
      updateWhere_of_none _ fun r hr => by simpa using row_eq_none.1 hrow r hr
    rw [applyCriteria_noFault]
    simp only [wrote, applied, hself, List.append_nil]
  have hget : IssueDir.get IssueDir.noFault 3 id s.issues = (.error (.notFound id), s.issues) := by
    rw [IssueDir.get_noFault, hrow]
    rfl
  have hstart : updateIssue noFault now id u s = (applyFields noFault now id u >>= fun _ => applyStatus noFault now id u >>=
      fun _ => applyCriteria noFault id u >>= fun _ => issues (orNotFound id) (IssueDir.get IssueDir.noFault 3 id)) s := rfl
  rw [hstart, bind_of_ok h₁, bind_of_ok h₂, bind_of_ok h₃]
  exact issues_error (orNotFound id) hget

theorem closeIssue_noFault {r : IssueRow} (hrow : row IssueRow.id id s.issues.rows = some r) (resolution : Text) :
    closeIssue noFault now id resolution s = (.ok (moved now .closed (fun _ => some resolution) r).toIssue,
      wrote id (moved now .closed (fun _ => some resolution)) s.issues.workspaceLinks [.issueClosed id resolution] s) :=
  transition_wrote now (fun _ => true) none hrow rfl

theorem closeIssue_missing (hrow : row IssueRow.id id s.issues.rows = none) (resolution : Text) :
    closeIssue noFault now id resolution s = (.error (.notFound ("issue ".toList ++ Text.ofNat id)), s) :=
  issues_error (orNotFound id) (IssueDir.transition_missing hrow)

theorem getIssue_noFault (id : Uuid) (s : LocalRepo) :
    getIssue noFault id s = (((row IssueRow.id id s.issues.rows).map IssueRow.toIssue).elim
      (.error (.notFound ("issue ".toList ++ Text.ofNat id))) .ok, s) := by
  cases hrow : row IssueRow.id id s.issues.rows with
  | none =>
    refine issues_error (orNotFound id) (?_ : IssueDir.get IssueDir.noFault 0 id s.issues = (.error (.notFound id), s.issues))
    rw [IssueDir.get_noFault, hrow]
    rfl
  | some r =>
    refine issues_ok (orNotFound id) (?_ : IssueDir.get IssueDir.noFault 0 id s.issues = (.ok r.toIssue, s.issues))
    rw [IssueDir.get_noFault, hrow]
    rfl

end Sqlite

/-! ## Postgres -/

namespace Postgres

def noFault : PgCall → Bool := fun _ => false

variable {s : PgRepo} {id : Uuid} (now : Nat)

theorem getIssue_noFault (nth : Nat) (id : Uuid) (s : PgRepo) :
    getIssue noFault nth id s =
      ((row Issue.id id s.issues).elim (.error (.notFound ("issue ".toList ++ Text.ofNat id))) .ok, s) := by
  have hquery : query noFault (.selectIssue nth) s = (.ok ⟨⟩, s) := rfl
  unfold getIssue
  rw [bind_of_ok hquery, bind_apply, read_apply]
  cases row Issue.id id s.issues <;> rfl

theorem createIssue_noFault (hfresh : row Issue.id id s.issues = none) (issue : NewIssue) :
    createIssue noFault id now issue s =
      (.ok (newIssue id now issue), { s with issues := s.issues ++ [newIssue id now issue] }) := by
  have hnone : s.issues.any (fun i => i.id = id) = false := by
    simpa using row_eq_none.1 hfresh
  have hlast : row Issue.id id (s.issues ++ [newIssue id now issue]) = some (newIssue id now issue) := by
    unfold row at hfresh ⊢
    rw [List.find?_append, hfresh]
    simp [newIssue]
  have h : createIssue noFault id now issue s = (if s.issues.any (fun i => i.id = id) then
      (fail (.database []) : Proc PgRepo StorageError Issue)
    else modify (fun s => { s with issues := s.issues ++ [newIssue id now issue] }) >>= fun _ => getIssue noFault 2 id) s := rfl
  rw [h, hnone]
  refine (getIssue_noFault 2 id { s with issues := s.issues ++ [newIssue id now issue] }).trans ?_
  rw [hlast]
  rfl

theorem updateIssue_noFault {i : Issue} (hrow : row Issue.id id s.issues = some i) (u : IssueUpdate) :
    updateIssue noFault now id u s =
      (.ok (updated now u i), { s with issues := Rows.update Issue.id id (updated now u) s.issues }) := by
  have hget : getIssue noFault 1 id s = (.ok i, s) := by
    rw [getIssue_noFault, hrow]
    rfl
  have hlast : row Issue.id id (Rows.update Issue.id id (updated now u) s.issues) = some (updated now u i) := by
    rw [row_update (f := updated now u) (fun _ => rfl), if_pos rfl, hrow]
    rfl
  unfold updateIssue
  rw [bind_of_ok hget]
  refine (getIssue_noFault 2 id { s with issues := Rows.update Issue.id id (updated now u) s.issues }).trans ?_
  rw [hlast]
  rfl

theorem updateIssue_missing (hrow : row Issue.id id s.issues = none) (u : IssueUpdate) :
    updateIssue noFault now id u s = (.error (.notFound ("issue ".toList ++ Text.ofNat id)), s) := by
  have hget : getIssue noFault 1 id s = (.error (.notFound ("issue ".toList ++ Text.ofNat id)), s) := by
    rw [getIssue_noFault, hrow]
    rfl
  unfold updateIssue
  rw [bind_apply, hget]

/-- The row of a closed issue. -/
def closed (now : Nat) (resolution : Text) (i : Issue) : Issue :=
  { i with status := .closed, resolution := some resolution, updatedAt := now }

theorem closeIssue_noFault {i : Issue} (hrow : row Issue.id id s.issues = some i) (resolution : Text) :
    closeIssue noFault now id resolution s =
      (.ok (closed now resolution i), { s with issues := Rows.update Issue.id id (closed now resolution) s.issues }) := by
  have hlast : row Issue.id id (Rows.update Issue.id id (closed now resolution) s.issues) =
      some (closed now resolution i) := by
    rw [row_update (f := closed now resolution) (fun _ => rfl), if_pos rfl, hrow]
    rfl
  refine (getIssue_noFault 2 id { s with issues := Rows.update Issue.id id (closed now resolution) s.issues }).trans ?_
  rw [hlast]
  rfl

theorem closeIssue_missing (hrow : row Issue.id id s.issues = none) (resolution : Text) :
    closeIssue noFault now id resolution s = (.error (.notFound ("issue ".toList ++ Text.ofNat id)), s) := by
  have hself : Rows.update Issue.id id (closed now resolution) s.issues = s.issues :=
    updateWhere_of_none _ fun i hi => by simpa using row_eq_none.1 hrow i hi
  refine (getIssue_noFault 2 id { s with issues := Rows.update Issue.id id (closed now resolution) s.issues }).trans ?_
  rw [hself, hrow]
  rfl

end Postgres
end Vai
