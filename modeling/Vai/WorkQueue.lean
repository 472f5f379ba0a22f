import Vai.Auth
import Vai.IssueSpec
/-!
# WorkQueue — listing and claiming issues (`server/work_queue.rs`, `work_queue/mod.rs`)

`Site` is what a request for one repository reads and writes: its storage, its graph, and the conflict engine, of which
the server has one for all repositories.  The handlers are for any `Storage`; `claim` is the one of the local command.

`check` is what `require_repo_permission` answers for the caller, `broken` whether the database of the graph cannot be
opened, and texts of ids are their digits.  Broadcasts are left out.
-/
namespace Vai

open Proc
open IssueDir (Unicode)

structure Site (σ : Type) where
  store : σ
  graph : Option GraphSnapshot
  engine : ConflictEngine

structure AvailableWork where
  issueId : Uuid
  title : Text
  priority : Text
  predictedScope : ScopePrediction
deriving DecidableEq, Repr

structure BlockedWork where
  issueId : Uuid
  title : Text
  priority : Text
  blockedBy : List Uuid
  reason : Text
deriving DecidableEq, Repr

structure WorkQueue where
  availableWork : List AvailableWork
  blockedWork : List BlockedWork
deriving DecidableEq, Repr

structure ClaimWorkRequest where
  issueId : Text
  workerId : Option Text
deriving DecidableEq, Repr

structure ClaimResult where
  issueId : Uuid
  workspaceId : Uuid
  intent : Text
  predictedScope : ScopePrediction
deriving DecidableEq, Repr

def priorityRank (priority : Text) : Nat :=
  if priority = "critical".toList then 0
  else if priority = "high".toList then 1
  else if priority = "medium".toList then 2
  else if priority = "low".toList then 3
  else 4

namespace WorkQueue

section Handlers

variable {σ : Type} (unicode : Unicode) (st : Storage σ) (check : Auth.RepoRole → Except ApiError Auth.RepoRole) (broken : Bool)

/-- A call on the storage of the repository. -/
def onStore {α : Type} (m : Proc σ StorageError α) : Proc (Site σ) StorageError α := fun s =>
  ((m s.store).1, { s with store := (m s.store).2 })

def permit (role : Auth.RepoRole) : Proc (Site σ) ApiError Unit := do
  let _ ← ofExcept (fun e => e) (check role)

/-- A call whose error is an internal one. -/
def orInternal {α : Type} (m : Proc σ StorageError α) : Proc (Site σ) ApiError α :=
  mapErr (fun _ => ApiError.internal) (onStore m)

/-- `predict_scope` for an issue. -/
def predict (i : Issue) : Proc (Site σ) ApiError ScopePrediction :=
  if broken then fail .internal
  else do
    let graph ← Proc.read Site.graph
    ofExcept (fun _ => .internal) (predictScope unicode graph (i.title ++ ' ' :: i.description))

/-- The issues that block an issue by a link, and have a status that is not an end. -/
def openBlockers (statusOf : FMap Uuid IssueStatus) (id : Uuid) (links : List IssueLink) : List Uuid :=
  ((links.filter fun l => l.relationship = .blocks && l.targetId = id).map IssueLink.sourceId).filter fun b =>
    (statusOf.get b).any fun s => s ≠ .closed && s ≠ .resolved

/-- Where an open issue goes. -/
def placed (i : Issue) (prediction : ScopePrediction) (scopes : List (Uuid × WorkspaceScope)) : AvailableWork ⊕ BlockedWork :=
  let meeting := scopes.filter fun p => prediction.meets p.2
  if meeting = [] then .inl ⟨i.id, i.title, i.priority.asStr, prediction⟩
  else .inr ⟨i.id, i.title, i.priority.asStr, meeting.map Prod.fst, "; ".toList.intercalate (meeting.map fun p =>
    "workspace ".toList ++ Text.ofNat p.1 ++ " is modifying related code (intent: \"".toList ++ p.2.intent ++ "\")".toList)⟩

/-- One issue of the queue. -/
def queueOne (statusOf : FMap Uuid IssueStatus) (titleOf : FMap Uuid Text) (scopes : List (Uuid × WorkspaceScope))
    (i : Issue) : Proc (Site σ) ApiError (AvailableWork ⊕ BlockedWork) := do
  let links ← attempt (mapErr ApiError.ofStorage (onStore (st.listLinks i.id)))
  let blockers := openBlockers statusOf i.id (links.toOption.getD [])
  if blockers ≠ [] then
    pure (.inr ⟨i.id, i.title, i.priority.asStr, blockers,
      "Blocked by: ".toList ++ ", ".toList.intercalate (blockers.filterMap fun b => titleOf.get b)⟩)
  else
    let prediction ← predict unicode broken i
    pure (placed i prediction scopes)

def availableLe (all : List Issue) (w w' : AvailableWork) : Bool :=
  let rest := fun (id : Uuid) => if (all.find? (fun i => i.id = id)).any (fun i => i.acceptanceCriteria ≠ []) then 0 else 1
  priorityRank w.priority < priorityRank w'.priority ||
    priorityRank w.priority = priorityRank w'.priority && (rest w.issueId ≤ rest w'.issueId : Bool)

/-- `get_work_queue_handler`. -/
def getWorkQueue : Proc (Site σ) ApiError WorkQueue := do
  permit check .read
  let openIssues ← orInternal (st.listIssues .onlyOpen .default)
  let all ← orInternal (st.listIssues .none .default)
  let statusOf := FMap.ofList (all.1.map fun i => (i.id, i.status))
  let titleOf := FMap.ofList (all.1.map fun i => (i.id, i.title))
  let scopes ← Proc.read fun s => s.engine.allScopes
  let placed ← openIssues.1.mapM (queueOne unicode st broken statusOf titleOf scopes)
  pure {
    availableWork := (placed.filterMap Sum.getLeft?).insertionSort fun w w' => availableLe all.1 w w' = true
    blockedWork := (placed.filterMap Sum.getRight?).insertionSort fun w w' =>
      priorityRank w.priority ≤ priorityRank w'.priority }

def staleMessage (id : Uuid) : Text :=
  "Issue ".toList ++ Text.ofNat id ++ " is no longer open — refresh the work queue and try again".toList

def contestedMessage (id : Uuid) : Text :=
  "Issue ".toList ++ Text.ofNat id ++
    " conflicts with active workspaces — refresh the work queue and try again".toList

def issueError : StorageError → ApiError
  | .notFound what => .notFound (StorageError.notFound what).toText
  | _ => .internal

/-- The guards of a claim, which come before anything is written. -/
def guards (issue : Issue) : Proc (Site σ) ApiError (Issue × ScopePrediction) := do
  if issue.status ≠ .open then fail (.conflict (staleMessage issue.id))
  else
    let prediction ← predict unicode broken issue
    if ← Proc.read (fun s => s.engine.allScopes.any fun p => prediction.meets p.2) then
      fail (.conflict (contestedMessage issue.id))
    else pure (issue, prediction)

/-- The issue that a request names, past the guards. -/
def eligible (issueId : Text) : Proc (Site σ) ApiError (Issue × ScopePrediction) := do
  match Text.parseNat issueId with
  | none => fail (.badRequest ("invalid issue_id: ".toList ++ issueId))
  | some id => guards unicode broken (← mapErr issueError (onStore (st.getIssue id)))

/-- `let _ = ..`. -/
def attemptStore {α : Type} (m : Proc σ StorageError α) : Proc (Site σ) ApiError PUnit := do
  let _ ← attempt (mapErr ApiError.ofStorage (onStore m))

/-- `claim_work_handler`; `wsId` is the id of the new workspace. -/
def claimWork (wsId : Uuid) (now : Nat) (body : ClaimWorkRequest) : Proc (Site σ) ApiError ClaimResult := do
  permit check .write
  let (issue, prediction) ← eligible unicode st broken body.issueId
  let head ← attempt (mapErr ApiError.ofStorage (onStore st.readHead))
  let base := head.toOption.join.getD "unknown".toList
  let ws ← orInternal (st.createWorkspace wsId issue.title base (some issue.id))
  let _ ← orInternal (st.updateIssue now issue.id
    { IssueUpdate.none with status := some .inProgress, workspaceId := some ws.id })
  match body.workerId.bind Text.parseNat with
  | some workerId => attemptStore (st.setWorkspaceId workerId ws.id)
  | none => pure ()
  attemptStore (st.append (.workspaceCreated ws.id ws.intent ws.baseVersion))
  attemptStore (st.append (.issueLinkedToWorkspace issue.id ws.id))
  pure ⟨issue.id, ws.id, issue.title, prediction⟩

end Handlers

/-! ## The local command -/

inductive WorkQueueError where
  | graph
  | issue (e : IssueError)
  | workspace
  | eventLog
  | io
  | issueNotOpen (id : Uuid)
  | issueConflicting (id : Uuid)
deriving DecidableEq, Repr

section Local

variable (unicode : Unicode) (fails : LocalCall → Bool) (broken : Bool)

/-- A call on `.vai/`, with what its error becomes. -/
def onLocal {ε α : Type} (f : ε → WorkQueueError) (m : Proc LocalRepo ε α) : Proc (Site LocalRepo) WorkQueueError α := fun s =>
  match m s.store with
  | (.ok a, r) => (.ok a, { s with store := r })
  | (.error e, r) => (.error (f e), { s with store := r })

/-- A call of the issue store. -/
def onIssues {α : Type} (m : Proc IssueDir IssueError α) : Proc (Site LocalRepo) WorkQueueError α := fun s =>
  match m s.store.issues with
  | (.ok a, d) => (.ok a, { s with store := { s.store with issues := d } })
  | (.error e, d) => (.error (.issue e), { s with store := { s.store with issues := d } })

/-- `work_queue::claim`, which opens the event log in `.vai` itself. -/
def claim (issueId wsId : Uuid) (now : Nat) : Proc (Site LocalRepo) WorkQueueError ClaimResult := do
  onLocal (fun _ => .issue .sqlite) (Sqlite.openIssueStore fails 0)
  let issue ← onIssues (IssueDir.get (fun c => fails (.issue c)) 0 issueId)
  if issue.status ≠ .open then fail (.issueNotOpen issueId)
  else if broken then fail .graph
  else
    let graph ← Proc.read Site.graph
    let prediction ← ofExcept (fun _ => .graph) (predictScope unicode graph (issue.title ++ ' ' :: issue.description))
    if ← Proc.read (fun s => s.engine.allScopes.any fun p => prediction.meets p.2) then fail (.issueConflicting issueId)
    else
      match ← onLocal (fun _ => .io) (Sqlite.readHead fails) with
      | none => fail .io
      | some head =>
        let ws ← onLocal (fun _ => .workspace) (Sqlite.createWorkspace fails wsId issue.title head)
        onLocal (fun _ => .eventLog) (Sqlite.openEventLog fails)
        let _ ← onIssues (IssueDir.setInProgress (fun c => fails (.issue c)) issueId ws.id now .vaiDir)
        pure ⟨issueId, ws.id, issue.title, prediction⟩

end Local

end WorkQueue
end Vai
