import Vai.Upload
import Vai.WorkQueue
/-!
# IssueHandlers — creating, updating and closing issues on a server (`server/issue.rs`)

`create_issue_handler`, `update_issue_handler` and `close_issue_handler`, over the storage of a server's one repository.
Each changes the issue through the storage, and then appends its event to the event store, whatever comes of that.
Broadcasts, the worker that is spawned for a new issue and the one that a close tears down are left out.
-/
namespace Vai

open Proc
open Handlers (validateStrLen)
open IssueDir (Unicode)

structure CreateIssueRequest where
  title : Text
  description : Text
  priority : Text
  labels : List Text
  creator : Text
  createdByAgent : Option Text
  source : Option AgentSource
  maxPerHour : Nat
  blockedBy : List Text
  acceptanceCriteria : List Text

structure UpdateIssueRequest where
  title : Option Text
  description : Option Text
  priority : Option Text
  labels : Option (List Text)
  acceptanceCriteria : Option (List Text)
  blockedBy : List Text

structure CloseIssueRequest where
  resolution : Text

structure IssueResponse where
  issue : Issue
  possibleDuplicateOf : Option Uuid
  linkedWorkspaceIds : List Uuid
  blockedBy : List Uuid
  blocking : List Uuid
deriving DecidableEq, Repr

namespace IssueServer

/-! ## Checks -/

def maxIssueTitleLen : Nat := 500
def maxIssueBodyLen : Nat := 50 * 1024
def maxLabelLen : Nat := 100
def maxLabelsPerIssue : Nat := 20

def validateLabels (labels : List Text) : Except ApiError Unit :=
  if maxLabelsPerIssue < labels.length then
    .error (.badRequest ("too many labels: ".toList ++ Text.ofNat labels.length ++ ", maximum is ".toList ++
      Text.ofNat maxLabelsPerIssue))
  else labels.forM fun label => validateStrLen label maxLabelLen "label".toList

def parsePriority (p : Text) : Except ApiError IssuePriority :=
  match IssuePriority.fromDbStr p with
  | some priority => .ok priority
  | none => .error (.badRequest ("unknown priority `".toList ++ p ++ "`".toList))

def parseIssueId (id : Text) : Except ApiError Uuid :=
  match Text.parseNat id with
  | some issueId => .ok issueId
  | none => .error (.badRequest ("invalid issue ID `".toList ++ id ++ "`".toList))

section Handlers

variable {σ : Type} (unicode : Unicode) (st : Storage σ) (check : Auth.RepoRole → Except ApiError Auth.RepoRole)

open WorkQueue (onStore permit attemptStore)

/-- A check of the request. -/
def checked {α : Type} (r : Except ApiError α) : Proc (Site σ) ApiError α := ofExcept (fun e => e) r

/-- A call on the storage, with its error as the storage has it. -/
def onStorage {α : Type} (m : Proc σ StorageError α) : Proc (Site σ) ApiError α := mapErr ApiError.ofStorage (onStore m)

/-! ## Parts of the handlers -/

/-- `find_similar_open_issue` over the listed issues. -/
def findSimilarOpenIssue (issues : List Issue) (title : Text) : Option Uuid :=
  if IssueDir.tokenizeTitle unicode title = [] then none
  else (issues.find? (fun i => IssueDir.isActive i.status &&
    IssueDir.similar (IssueDir.tokenizeTitle unicode title) (IssueDir.tokenizeTitle unicode i.title))).map Issue.id

/-- The issues of an agent in the last hour, as a `u32`. -/
def agentCount (now : Nat) (agentId : Text) (issues : List Issue) : Nat :=
  issues.countP (fun i => i.creator = agentId && now < i.createdAt + 3600000000000) % 4294967296

def hourlyMessage (agentId : Text) (count max : Nat) : Text :=
  "agent `".toList ++ agentId ++ "` has created ".toList ++ Text.ofNat count ++ " issues in the last hour (limit: ".toList ++
    Text.ofNat max ++ ")".toList

/-- The creator of a new issue, its source and the issue that it may duplicate; an agent is below its limit. -/
def creation (now : Nat) (body : CreateIssueRequest) : Proc (Site σ) ApiError (Text × Option AgentSource × Option Uuid) := do
  match body.createdByAgent with
  | some agentId =>
    let all ← onStorage (st.listIssues .none .default)
    if body.maxPerHour ≤ agentCount now agentId all.1 then
      fail ⟨429, hourlyMessage agentId (agentCount now agentId all.1) body.maxPerHour⟩
    else pure (agentId, some (body.source.getD ⟨"unknown".toList, "null".toList⟩), findSimilarOpenIssue unicode all.1 body.title)
  | none => pure (body.creator, none, none)

/-- One blocker of a request, which exists. -/
def blocker (text : Text) : Proc (Site σ) ApiError Uuid := do
  match Text.parseNat text with
  | none => fail (.badRequest ("invalid blocker ID `".toList ++ text ++ "`".toList))
  | some id =>
    let _ ← mapErr (fun _ => ApiError.badRequest ("blocker issue `".toList ++ Text.ofNat id ++ "` not found".toList))
      (onStore (st.getIssue id))
    pure id

/-- `blocks` links from the blockers to the issue. -/
def linkBlockers (blockerIds : List Uuid) (issueId : Uuid) : Proc (Site σ) ApiError PUnit :=
  blockerIds.forM fun b => attemptStore (st.createLink ⟨b, issueId, .blocks⟩)

/-- `linked_workspace_ids`. -/
def linkedWorkspaceIds (issueId : Uuid) : Proc (Site σ) ApiError (List Uuid) := do
  let listed ← attempt (onStorage (st.listWorkspaces true))
  pure (((listed.toOption.getD []).filter fun w => w.2 = some issueId).map fun w => w.1.id)

/-- `links_for_issue`: what blocks the issue, and what it blocks. -/
def linksForIssue (issueId : Uuid) : Proc (Site σ) ApiError (List Uuid × List Uuid) := do
  let listed ← attempt (onStorage (st.listLinks issueId))
  let blocks := (listed.toOption.getD []).filter fun l => l.relationship = .blocks
  pure ((blocks.filter fun l => l.targetId = issueId).map IssueLink.sourceId,
    (blocks.filter fun l => l.targetId ≠ issueId && l.sourceId = issueId).map IssueLink.targetId)

/-- The answer for an issue that was there before. -/
def respond (issueId : Uuid) (issue : Issue) : Proc (Site σ) ApiError IssueResponse := do
  let linked ← linkedWorkspaceIds st issueId
  let links ← linksForIssue st issueId
  pure ⟨issue, none, linked, links.1, links.2⟩

/-! ## The handlers -/

/-- `create_issue_handler`; `id` is the id of the new issue. -/
def createIssueHandler (id : Uuid) (now : Nat) (body : CreateIssueRequest) : Proc (Site σ) ApiError IssueResponse := do
  permit check .write
  checked (validateStrLen body.title maxIssueTitleLen "title".toList)
  checked (validateStrLen body.description maxIssueBodyLen "description".toList)
  checked (validateLabels body.labels)
  let priority ← checked (parsePriority body.priority)
  let origin ← creation unicode st now body
  let blockerIds ← body.blockedBy.mapM (blocker st)
  let issue ← onStorage (st.createIssue id now ⟨body.title, body.description, priority, body.labels, origin.1,
    origin.2.1.map some, body.acceptanceCriteria⟩)
  attemptStore (st.append (.issueCreated issue.id issue.title issue.creator issue.priority.asStr))
  linkBlockers st blockerIds issue.id
  pure ⟨issue, origin.2.2, [], blockerIds, []⟩

/-- The names of the fields that a request gives. -/
def fieldsChanged (body : UpdateIssueRequest) : List Text :=
  [body.title.map fun _ => "title", body.description.map fun _ => "description", body.priority.map fun _ => "priority",
    body.labels.map fun _ => "labels", body.acceptanceCriteria.map fun _ => "acceptance_criteria"].reduceOption.map String.toList

/-- The update of a request, with its priority. -/
def issueUpdate (body : UpdateIssueRequest) (priority : Option IssuePriority) : IssueUpdate :=
  { IssueUpdate.none with
    title := body.title
    description := body.description
    priority := priority
    labels := body.labels
    acceptanceCriteria := body.acceptanceCriteria }

/-- The priority of a request, if it gives one. -/
def givenPriority : Option Text → Except ApiError (Option IssuePriority)
  | some p => (parsePriority p).map some
  | none => .ok none

/-- `update_issue_handler`. -/
def updateIssueHandler (now : Nat) (id : Text) (body : UpdateIssueRequest) : Proc (Site σ) ApiError IssueResponse := do
  permit check .write
  checked (body.title.forM fun title => validateStrLen title maxIssueTitleLen "title".toList)
  checked (body.description.forM fun desc => validateStrLen desc maxIssueBodyLen "description".toList)
  checked (body.labels.forM validateLabels)
  let issueId ← checked (parseIssueId id)
  let priority ← checked (givenPriority body.priority)
  let blockerIds ← body.blockedBy.mapM (blocker st)
  let issue ← onStorage (st.updateIssue now issueId (issueUpdate body priority))
  linkBlockers st blockerIds issueId
  attemptStore (st.append (.issueUpdated issueId (fieldsChanged body)))
  respond st issueId issue

/-- `cascade_workspace_teardown`: a workspace that cannot be discarded is left. -/
def cascadeWorkspaceTeardown (reason : Text) (ws : Uuid) : Proc (Site σ) ApiError PUnit := do
  match ← attempt (onStorage (st.discardWorkspace ws)) with
  | .error _ => pure ()
  | .ok _ =>
    modify fun s => { s with engine := s.engine.removeWorkspace ws }
    attemptStore (st.append (.workspaceDiscarded ws reason))

/-- The workspaces of an issue that are created or active. -/
def activeWorkspaces (issueId : Uuid) : Proc (Site σ) ApiError (List Uuid) := do
  let listed ← attempt (onStorage (st.listWorkspaces false))
  pure (((listed.toOption.getD []).filter fun w =>
    w.2 = some issueId && (w.1.status = .created || w.1.status = .active)).map fun w => w.1.id)

/-- `close_issue_handler`. -/
def closeIssueHandler (now : Nat) (id : Text) (body : CloseIssueRequest) : Proc (Site σ) ApiError IssueResponse := do
  permit check .write
  let issueId ← checked (parseIssueId id)
  let issue ← onStorage (st.closeIssue now issueId body.resolution)
  attemptStore (st.append (.issueClosed issueId body.resolution))
  let active ← activeWorkspaces st issueId
  active.forM (cascadeWorkspaceTeardown st "linked issue closed".toList)
  respond st issueId issue

end Handlers
end IssueServer
end Vai
