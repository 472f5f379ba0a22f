import Vai.Backend
import Vai.Workers
/-!
# Reconcile — dead workers, orphaned workspaces, and the handlers they meet

`reconcile_once` and `sweep_orphaned_workspaces` of `server/worker_registry.rs`, statement by statement, with the handlers
that they run beside: claim, submit and close under the repository lock, the worker's heartbeat and done report, and an
issue's resolution.  Any number of passes goes on at once.  A pass acts on what it has read, and its three writes are
unconditional.  What the merge does with the files is left out.

`keeps_iff_finds`: a statement undoes finished work exactly where it finds a merged workspace, a closed or resolved issue, or a
worker that has ended.
-/
namespace Vai
namespace Reconcile

open Steps Workers

/-! ## Tables -/

structure WorkspaceRow where
  repoId : Uuid
  status : WorkspaceStatus
  issueId : Option Uuid
  createdAt : Time
deriving DecidableEq, Repr

structure IssueRow where
  repoId : Uuid
  status : IssueStatus
deriving DecidableEq, Repr

/-- The task of one `reconcile_once`. -/
inductive Pass where
  /-- The stale workers that are still to be seen to. -/
  | reaping (stale : List AgentWorker)
  /-- The workspace was found, with this issue. -/
  | discarding (worker : AgentWorker) (wsId : Uuid) (issueId : Option Uuid) (stale : List AgentWorker)
  | reopening (worker : AgentWorker) (issueId : Uuid) (stale : List AgentWorker)
  | marking (worker : AgentWorker) (stale : List AgentWorker)
  /-- Workspace, repository and issue of the orphans that are still to be swept. -/
  | sweeping (orphans : List (Uuid × Uuid × Uuid))
  | sweepReopening (repoId issueId : Uuid) (orphans : List (Uuid × Uuid × Uuid))
  | ended
deriving DecidableEq, Repr

/-- The handler that holds the repository lock. -/
inductive Handler where
  /-- A claim: the issue was open. -/
  | claiming (repoId issueId : Uuid) (worker : Option Uuid)
  | claimed (repoId issueId wsId : Uuid) (worker : Option Uuid)
  | linking (wsId : Uuid) (worker : Option Uuid)
  /-- A submit: the linked issue was not closed. -/
  | submitting (repoId wsId : Uuid)
  /-- A submit: it was. -/
  | rejecting (repoId wsId : Uuid)
  /-- A close: the issue is closed. -/
  | closing (repoId issueId : Uuid)
  /-- `cascade_workspace_teardown` for these. -/
  | cascading (repoId : Uuid) (wsIds : List Uuid)
  | tearing (repoId wsId : Uuid) (wsIds : List Uuid)
  | terminating (worker repoId : Uuid) (wsIds : List Uuid)
deriving DecidableEq, Repr

structure Tables where
  workspaces : FMap Uuid WorkspaceRow
  issues : FMap Uuid IssueRow
  workers : List AgentWorker
  passes : List Pass
  handler : Option Handler

def getWorkspace (repoId id : Uuid) (s : Tables) : Option WorkspaceRow :=
  (s.workspaces.get id).filter (fun w => w.repoId = repoId)

def setWorkspaceStatus (repoId id : Uuid) (status : WorkspaceStatus) (s : Tables) : Tables :=
  match getWorkspace repoId id s with
  | some w => { s with workspaces := s.workspaces.insert id { w with status := status } }
  | none => s

/-- Whatever the status was. -/
def discardWorkspace (repoId id : Uuid) (s : Tables) : Tables := setWorkspaceStatus repoId id .discarded s

/-- `update_issue` with this status, whatever it was; also `close_issue`. -/
def updateIssueStatus (repoId id : Uuid) (status : IssueStatus) (s : Tables) : Tables :=
  match (s.issues.get id).filter (fun i => i.repoId = repoId) with
  | some i => { s with issues := s.issues.insert id { i with status := status } }
  | none => s

def markWorkerDone (id : Uuid) (reason : WorkerDoneReason) (s : Tables) : Tables :=
  { s with workers := markDone id reason s.workers }

/-- A claim that names its worker. -/
def linkWorker (worker : Option Uuid) (wsId : Uuid) (s : Tables) : Tables :=
  match worker with
  | some w => { s with workers := setWorkspaceId w wsId s.workers }
  | none => s

def WorkspaceStatus.active (status : WorkspaceStatus) : Bool := status = .created || status = .active

def listOrphanedIssueWorkspaces (staleSecs now : Time) (s : Tables) : List (Uuid × Uuid × Uuid) :=
  s.workspaces.pairs.filterMap fun x =>
    if WorkspaceStatus.active x.2.status ∧ x.2.createdAt + staleSecs < now ∧ (getWorkerByWorkspace x.1 s.workers).isNone then
      x.2.issueId.map fun issueId => (x.1, x.2.repoId, issueId)
    else none

/-- The workspaces that a close discards. -/
def linkedActive (repoId issueId : Uuid) (s : Tables) : List Uuid :=
  (s.workspaces.pairs.filter fun x =>
    x.2.repoId = repoId && x.2.issueId = some issueId && WorkspaceStatus.active x.2.status).map Prod.fst

/-! ## Steps -/

inductive Step where
  /-- A pass has listed the stale workers. -/
  | begin (now : Time)
  /-- The next statement of a pass, which succeeds or fails. -/
  | pass (i : Nat) (ok : Bool) (now : Time)
  | claim (repoId issueId : Uuid) (worker : Option Uuid)
  | submit (repoId wsId : Uuid)
  | close (repoId issueId : Uuid)
  /-- The next statement of the handler; `newId` is a claim's workspace. -/
  | handler (ok : Bool) (newId : Uuid) (now : Time)
  | resolve (repoId issueId : Uuid)
  | heartbeat (worker : Uuid) (now : Time)
  | done (worker : Uuid) (reason : WorkerDoneReason)
deriving DecidableEq, Repr

def onlyIf (ok : Bool) (write : Tables → Tables) (s : Tables) : Tables := if ok then write s else s

section

variable (staleSecs : Time)

/-- What a pass does next: the write, and where it goes. -/
def passStep (ok : Bool) (now : Time) (s : Tables) : Pass → Option ((Tables → Tables) × Pass)
  | .reaping (w :: stale) =>
    match w.workspaceId with
    | none => some (id, .marking w stale)
    | some wsId =>
      match if ok then getWorkspace w.repoId wsId s else none with
      | some row => some (id, .discarding w wsId row.issueId stale)
      | none => some (id, .marking w stale)
  | .reaping [] => some (id, if ok then .sweeping (listOrphanedIssueWorkspaces staleSecs now s) else .ended)
  | .discarding w wsId issueId stale =>
    some (onlyIf ok (discardWorkspace w.repoId wsId),
      match if ok then issueId else none with
      | some issueId => .reopening w issueId stale
      | none => .marking w stale)
  | .reopening w issueId stale => some (onlyIf ok (updateIssueStatus w.repoId issueId .open), .marking w stale)
  | .marking w stale => some (onlyIf ok (markWorkerDone w.id .terminated), .reaping stale)
  | .sweeping ((wsId, repoId, issueId) :: rest) =>
    some (onlyIf ok (discardWorkspace repoId wsId), if ok then .sweepReopening repoId issueId rest else .sweeping rest)
  | .sweeping [] => some (id, .ended)
  | .sweepReopening repoId issueId rest => some (onlyIf ok (updateIssueStatus repoId issueId .open), .sweeping rest)
  | .ended => none

/-- What the handler does next: the write, and where it goes. -/
def handlerStep (ok : Bool) (newId : Uuid) (now : Time) (s : Tables) : Handler → (Tables → Tables) × Option Handler
  | .claiming repoId issueId worker =>
    if ok ∧ (s.workspaces.get newId).isNone then
      (fun s => { s with workspaces := s.workspaces.insert newId ⟨repoId, .created, some issueId, now⟩ },
        some (.claimed repoId issueId newId worker))
    else (id, none)
  | .claimed repoId issueId wsId worker =>
    (onlyIf ok (updateIssueStatus repoId issueId .inProgress), if ok then some (.linking wsId worker) else none)
  | .linking wsId worker =>
    (onlyIf ok (linkWorker worker wsId), none)
  | .submitting repoId wsId => (onlyIf ok (setWorkspaceStatus repoId wsId .merged), none)
  | .rejecting repoId wsId =>
    (onlyIf ok (discardWorkspace repoId wsId), if ok then some (.tearing repoId wsId []) else none)
  | .closing repoId issueId => (id, if ok then some (.cascading repoId (linkedActive repoId issueId s)) else none)
  | .cascading repoId (wsId :: rest) =>
    (onlyIf ok (discardWorkspace repoId wsId), some (if ok then .tearing repoId wsId rest else .cascading repoId rest))
  | .cascading _ [] => (id, none)
  | .tearing repoId wsId rest =>
    (id, some (match if ok then getWorkerByWorkspace wsId s.workers else none with
      | some w => .terminating w.id repoId rest
      | none => .cascading repoId rest))
  | .terminating worker repoId rest =>
    (onlyIf ok (markWorkerDone worker .terminated), some (.cascading repoId rest))

def step : Step → Tables → Option Tables
  | .begin now, s => some { s with passes := s.passes ++ [.reaping (listStaleWorkers staleSecs now s.workers)] }
  | .pass i ok now, s =>
    (s.passes[i]?).bind fun p => (passStep staleSecs ok now s p).map fun r =>
      { r.1 s with passes := s.passes.set i r.2 }
  | .claim repoId issueId worker, s =>
    if s.handler = none ∧ s.issues.get issueId = some ⟨repoId, .open⟩ then
      some { s with handler := some (.claiming repoId issueId worker) }
    else none
  | .submit repoId wsId, s =>
    if s.handler = none then
      (getWorkspace repoId wsId s).map fun w =>
        { s with handler := some (
            if (w.issueId.bind s.issues.get).any (fun i => i.repoId = repoId && i.status = .closed) then .rejecting repoId wsId
            else .submitting repoId wsId) }
    else none
  | .close repoId issueId, s =>
    if s.handler = none then some { updateIssueStatus repoId issueId .closed s with handler := some (.closing repoId issueId) }
    else none
  | .handler ok newId now, s =>
    s.handler.map fun h => { (handlerStep ok newId now s h).1 s with handler := (handlerStep ok newId now s h).2 }
  | .resolve repoId issueId, s => some (updateIssueStatus repoId issueId .resolved s)
  | .heartbeat worker now, s => some { s with workers := updateHeartbeat worker now s.workers }
  | .done worker reason, s => some (markWorkerDone worker reason s)

end

/-! ## Finished work -/

/-- No merged workspace becomes discarded. -/
def MergedStay (m m' : FMap Uuid WorkspaceRow) : Prop :=
  ∀ id w w', m.get id = some w → w.status = .merged → m'.get id = some w' → w'.status ≠ .discarded

/-- No closed or resolved issue becomes open. -/
def FinishedStay (m m' : FMap Uuid IssueRow) : Prop :=
  ∀ id x x', m.get id = some x → x.status = .closed ∨ x.status = .resolved → m'.get id = some x' → x'.status ≠ .open

/-- No worker that has ended changes its state. -/
def EndedStay (l l' : List AgentWorker) : Prop :=
  ∀ (i : Nat) (w w' : AgentWorker), l[i]? = some w → w.state.live = false → l'[i]? = some w' → w'.state = w.state

/-- A statement of the reconciler or of the orphan sweep. -/
def Step.isPass : Step → Bool
  | .pass _ _ _ => true
  | _ => false

/-- The step undoes no finished work; only the passes are held to the issues. -/
structure Keeps (a : Step) (s s' : Tables) : Prop where
  merged : MergedStay s.workspaces s'.workspaces
  finished : a.isPass = true → FinishedStay s.issues s'.issues
  ended : EndedStay s.workers s'.workers

/-- The workspace that is discarded is not merged. -/
def NotMerged (repoId id : Uuid) (s : Tables) : Prop := ∀ w ∈ getWorkspace repoId id s, w.status ≠ .merged

/-- The issue that is reopened is not finished. -/
def NotFinished (repoId id : Uuid) (s : Tables) : Prop :=
  ∀ x ∈ s.issues.get id, x.repoId = repoId → x.status ≠ .closed ∧ x.status ≠ .resolved

/-- The worker that is marked has not ended, or not otherwise. -/
def NotEnded (id : Uuid) (state : WorkerState) (s : Tables) : Prop :=
  ∀ w ∈ s.workers, w.id = id → w.state.live = false → w.state = state

/-- What the next statement of a pass must find. -/
def Pass.Finds (s : Tables) : Pass → Prop
  | .discarding w wsId _ _ => NotMerged w.repoId wsId s
  | .reopening w issueId _ => NotFinished w.repoId issueId s
  | .marking w _ => NotEnded w.id .dead s
  | .sweeping ((wsId, repoId, _) :: _) => NotMerged repoId wsId s
  | .sweepReopening repoId issueId _ => NotFinished repoId issueId s
  | _ => True

/-- What the next statement of the handler must find. -/
def Handler.Finds (s : Tables) : Handler → Prop
  | .rejecting repoId wsId => NotMerged repoId wsId s
  | .terminating worker _ _ => NotEnded worker .dead s
  | _ => True

/-- What a write finds: a workspace to discard that is not merged, an issue to reopen that is not closed or resolved, a worker
to mark that has not ended in another state. -/
def Step.Finds : Step → Tables → Prop
  | .pass i ok _, s => ok = true → ∀ p ∈ s.passes[i]?, p.Finds s
  | .handler ok _ _, s => ok = true → ∀ h ∈ s.handler, h.Finds s
  | .done worker reason, s => NotEnded worker reason.state s
  | _, _ => True

/-! ## Writes -/

variable {staleSecs : Time} {s s' : Tables}

theorem get_setWorkspaceStatus (repoId id : Uuid) (status : WorkspaceStatus) (s : Tables) (j : Uuid) :
    (setWorkspaceStatus repoId id status s).workspaces.get j =
      if j = id then (s.workspaces.get id).map (fun w => if w.repoId = repoId then { w with status := status } else w)
      else s.workspaces.get j := by
  unfold setWorkspaceStatus getWorkspace
  cases hw : s.workspaces.get id with
  | none =>
    simp only [Option.filter_none, Option.map_none]
    split
    · rename_i hj
      rw [hj]
      exact hw
    · rfl
  | some w =>
    by_cases hrepo : w.repoId = repoId
    · simp only [Option.filter_some, hrepo, decide_true, if_true, FMap.get_insert, Option.map_some]
    · simp only [Option.filter_some, hrepo, decide_false, Bool.false_eq_true, if_false, Option.map_some]
      split
      · rename_i hj
        rw [hj]
        exact hw
      · rfl

theorem get_updateIssueStatus (repoId id : Uuid) (status : IssueStatus) (s : Tables) (j : Uuid) :
    (updateIssueStatus repoId id status s).issues.get j =
      if j = id then (s.issues.get id).map (fun x => if x.repoId = repoId then { x with status := status } else x)
      else s.issues.get j := by
  unfold updateIssueStatus
  cases hx : s.issues.get id with
  | none =>
    simp only [Option.filter_none, Option.map_none]
    split
    · rename_i hj
      rw [hj]
      exact hx
    · rfl
  | some x =>
    by_cases hrepo : x.repoId = repoId
    · simp only [Option.filter_some, hrepo, decide_true, if_true, FMap.get_insert, Option.map_some]
    · simp only [Option.filter_some, hrepo, decide_false, Bool.false_eq_true, if_false, Option.map_some]
      split
      · rename_i hj
        rw [hj]
        exact hx
      · rfl

@[simp] theorem setWorkspaceStatus_issues (repoId id : Uuid) (status : WorkspaceStatus) (s : Tables) :
    (setWorkspaceStatus repoId id status s).issues = s.issues := by
  unfold setWorkspaceStatus
  split <;> rfl

@[simp] theorem setWorkspaceStatus_workers (repoId id : Uuid) (status : WorkspaceStatus) (s : Tables) :
    (setWorkspaceStatus repoId id status s).workers = s.workers := by
  unfold setWorkspaceStatus
  split <;> rfl

@[simp] theorem setWorkspaceStatus_handler (repoId id : Uuid) (status : WorkspaceStatus) (s : Tables) :
    (setWorkspaceStatus repoId id status s).handler = s.handler := by
  unfold setWorkspaceStatus
  split <;> rfl

@[simp] theorem updateIssueStatus_workspaces (repoId id : Uuid) (status : IssueStatus) (s : Tables) :
    (updateIssueStatus repoId id status s).workspaces = s.workspaces := by
  unfold updateIssueStatus
  split <;> rfl

@[simp] theorem updateIssueStatus_workers (repoId id : Uuid) (status : IssueStatus) (s : Tables) :
    (updateIssueStatus repoId id status s).workers = s.workers := by
  unfold updateIssueStatus
  split <;> rfl

@[simp] theorem updateIssueStatus_handler (repoId id : Uuid) (status : IssueStatus) (s : Tables) :
    (updateIssueStatus repoId id status s).handler = s.handler := by
  unfold updateIssueStatus
  split <;> rfl

theorem mergedStay_refl (m : FMap Uuid WorkspaceRow) : MergedStay m m := by
  intro id w w' hw hmerged hw'
  obtain rfl : w = w' := Option.some.inj (hw.symm.trans hw')
  rw [hmerged]
  decide

theorem finishedStay_refl (m : FMap Uuid IssueRow) : FinishedStay m m := by
  intro id x x' hx hdone hx'
  obtain rfl : x = x' := Option.some.inj (hx.symm.trans hx')
  rcases hdone with hdone | hdone <;> rw [hdone] <;> decide

theorem endedStay_refl (l : List AgentWorker) : EndedStay l l := by
  intro i w w' hw _ hw'
  obtain rfl : w = w' := Option.some.inj (hw.symm.trans hw')
  rfl

theorem mergedStay_discard (repoId id : Uuid) (s : Tables) :
    MergedStay s.workspaces (discardWorkspace repoId id s).workspaces ↔ NotMerged repoId id s := by
  constructor
  · intro h w hw hmerged
    obtain ⟨hget, hrepo⟩ := Option.filter_eq_some_iff.1 hw
    refine h id w { w with status := .discarded } hget hmerged ?_ rfl
    unfold discardWorkspace
    rw [get_setWorkspaceStatus, if_pos rfl, hget, Option.map_some, if_pos (of_decide_eq_true hrepo)]
  · intro h j w w' hw hmerged hw'
    unfold discardWorkspace at hw'
    rw [get_setWorkspaceStatus] at hw'
    split at hw'
    · rename_i hj
      rw [hj] at hw
      rw [hw, Option.map_some] at hw'
      by_cases hrepo : w.repoId = repoId
      · exact absurd hmerged (h w (Option.filter_eq_some_iff.2 ⟨hw, decide_eq_true hrepo⟩))
      · rw [if_neg hrepo] at hw'
        obtain rfl := Option.some.inj hw'
        rw [hmerged]
        decide
    · exact mergedStay_refl s.workspaces j w w' hw hmerged hw'

theorem finishedStay_reopen (repoId id : Uuid) (s : Tables) :
    FinishedStay s.issues (updateIssueStatus repoId id .open s).issues ↔ NotFinished repoId id s := by
  constructor
  · intro h x hx hrepo
    have hget : (updateIssueStatus repoId id .open s).issues.get id = some { x with status := .open } := by
      rw [get_updateIssueStatus, if_pos rfl, Option.mem_def.1 hx, Option.map_some, if_pos hrepo]
    exact ⟨fun hdone => h id x _ hx (.inl hdone) hget rfl, fun hdone => h id x _ hx (.inr hdone) hget rfl⟩
  · intro h j x x' hx hdone hx'
    rw [get_updateIssueStatus] at hx'
    split at hx'
    · rename_i hj
      rw [hj] at hx
      rw [hx, Option.map_some] at hx'
      by_cases hrepo : x.repoId = repoId
      · have hnot := h x hx hrepo
        exact absurd hdone (not_or.2 hnot)
      · rw [if_neg hrepo] at hx'
        obtain rfl := Option.some.inj hx'
        rcases hdone with hdone | hdone <;> rw [hdone] <;> decide
    · exact finishedStay_refl s.issues j x x' hx hdone hx'

theorem getElem?_updateWorker (id : Uuid) (set : AgentWorker → AgentWorker) (l : List AgentWorker) (i : Nat) :
    (updateWorker id set l)[i]? = l[i]?.map fun w => if w.id = id then set w else w :=
  List.getElem?_map

theorem endedStay_markDone (id : Uuid) (reason : WorkerDoneReason) (s : Tables) :
    EndedStay s.workers (markDone id reason s.workers) ↔ NotEnded id reason.state s := by
  unfold markDone
  constructor
  · intro h w hw hid hend
    obtain ⟨i, hi⟩ := List.mem_iff_getElem?.1 hw
    have hset : (updateWorker id (fun w => { w with state := reason.state }) s.workers)[i]? =
        some { w with state := reason.state } := by
      rw [getElem?_updateWorker, hi, Option.map_some, if_pos hid]
    exact (h i w _ hi hend hset).symm
  · intro h i w w' hi hend hi'
    rw [getElem?_updateWorker, hi, Option.map_some] at hi'
    obtain rfl := Option.some.inj hi'
    split
    · exact (h w (List.mem_of_getElem? hi) ‹_› hend).symm
    · rfl

theorem endedStay_updateWorker (id : Uuid) (set : AgentWorker → AgentWorker) (hset : ∀ w, (set w).state = w.state)
    (l : List AgentWorker) : EndedStay l (updateWorker id set l) := by
  intro i w w' hi _ hi'
  rw [getElem?_updateWorker, hi, Option.map_some] at hi'
  obtain rfl := Option.some.inj hi'
  split
  · exact hset w
  · rfl

/-! ## Passes -/

/-- No finished work is undone from the one state to the other. -/
def Stays (s s' : Tables) : Prop :=
  MergedStay s.workspaces s'.workspaces ∧ FinishedStay s.issues s'.issues ∧ EndedStay s.workers s'.workers

theorem stays_refl (s : Tables) : Stays s s :=
  ⟨mergedStay_refl _, finishedStay_refl _, endedStay_refl _⟩

theorem stays_discard (repoId id : Uuid) (s : Tables) : Stays s (discardWorkspace repoId id s) ↔ NotMerged repoId id s := by
  unfold Stays
  rw [mergedStay_discard]
  unfold discardWorkspace
  rw [setWorkspaceStatus_issues, setWorkspaceStatus_workers]
  exact ⟨fun h => h.1, fun h => ⟨h, finishedStay_refl _, endedStay_refl _⟩⟩

theorem stays_reopen (repoId id : Uuid) (s : Tables) :
    Stays s (updateIssueStatus repoId id .open s) ↔ NotFinished repoId id s := by
  unfold Stays
  rw [finishedStay_reopen, updateIssueStatus_workspaces, updateIssueStatus_workers]
  exact ⟨fun h => h.2.1, fun h => ⟨mergedStay_refl _, h, endedStay_refl _⟩⟩

theorem stays_mark (id : Uuid) (reason : WorkerDoneReason) (s : Tables) :
    Stays s (markWorkerDone id reason s) ↔ NotEnded id reason.state s := by
  unfold Stays markWorkerDone
  rw [endedStay_markDone]
  exact ⟨fun h => h.2.2, fun h => ⟨mergedStay_refl _, finishedStay_refl _, h⟩⟩

theorem stays_onlyIf {ok : Bool} {write : Tables → Tables} {P : Prop} (h : Stays s (write s) ↔ P) :
    Stays s (onlyIf ok write s) ↔ (ok = true → P) := by
  cases ok with
  | true => exact h.trans ⟨fun hP _ => hP, fun hP => hP rfl⟩
  | false => exact ⟨fun _ hok => absurd hok Bool.false_ne_true, fun _ => stays_refl s⟩

/-- What the next statement of a pass writes, and what it must find. -/
theorem passStep_cases {ok : Bool} {now : Time} {p next : Pass} {write : Tables → Tables}
    (h : passStep staleSecs ok now s p = some (write, next)) :
    (write = id ∧ p.Finds s) ∨
    (∃ repoId wsId, write = onlyIf ok (discardWorkspace repoId wsId) ∧ (p.Finds s ↔ NotMerged repoId wsId s)) ∨
    (∃ repoId issueId, write = onlyIf ok (updateIssueStatus repoId issueId .open) ∧ (p.Finds s ↔ NotFinished repoId issueId s)) ∨
    ∃ worker, write = onlyIf ok (markWorkerDone worker .terminated) ∧ (p.Finds s ↔ NotEnded worker .dead s) := by
  cases p with
  | reaping stale =>
    left
    refine ⟨?_, trivial⟩
    cases stale with
    | nil => exact (congrArg Prod.fst (Option.some.inj h)).symm
    | cons w stale =>
      unfold passStep at h
      dsimp only at h
      split at h
      · exact (congrArg Prod.fst (Option.some.inj h)).symm
      · split at h <;> exact (congrArg Prod.fst (Option.some.inj h)).symm
  | discarding w wsId issueId stale =>
    exact .inr (.inl ⟨_, _, (congrArg Prod.fst (Option.some.inj h)).symm, Iff.rfl⟩)
  | reopening w issueId stale =>
    exact .inr (.inr (.inl ⟨_, _, (congrArg Prod.fst (Option.some.inj h)).symm, Iff.rfl⟩))
  | marking w stale =>
    exact .inr (.inr (.inr ⟨_, (congrArg Prod.fst (Option.some.inj h)).symm, Iff.rfl⟩))
  | sweeping orphans =>
    cases orphans with
    | nil => exact .inl ⟨(congrArg Prod.fst (Option.some.inj h)).symm, trivial⟩
    | cons x orphans =>
      obtain ⟨wsId, repoId, issueId⟩ := x
      exact .inr (.inl ⟨_, _, (congrArg Prod.fst (Option.some.inj h)).symm, Iff.rfl⟩)
  | sweepReopening repoId issueId orphans =>
    exact .inr (.inr (.inl ⟨_, _, (congrArg Prod.fst (Option.some.inj h)).symm, Iff.rfl⟩))
  | ended => cases h

/-- A statement of a pass undoes nothing exactly if it finds what it must. -/
theorem stays_pass {ok : Bool} {now : Time} {p next : Pass} {write : Tables → Tables}
    (h : passStep staleSecs ok now s p = some (write, next)) : Stays s (write s) ↔ (ok = true → p.Finds s) := by
  obtain ⟨rfl, hfinds⟩ | ⟨repoId, wsId, rfl, hfinds⟩ | ⟨repoId, issueId, rfl, hfinds⟩ | ⟨worker, rfl, hfinds⟩ := passStep_cases h
  · exact ⟨fun _ _ => hfinds, fun _ => stays_refl s⟩
  · rw [hfinds]
    exact stays_onlyIf (stays_discard repoId wsId s)
  · rw [hfinds]
    exact stays_onlyIf (stays_reopen repoId issueId s)
  · rw [hfinds]
    exact stays_onlyIf (stays_mark worker .terminated s)

/-! ## Handlers -/

/-- The workspaces that the cascade of a close is still to discard. -/
def Handler.listed : Handler → List Uuid
  | .cascading _ wsIds => wsIds
  | .tearing _ _ wsIds => wsIds
  | .terminating _ _ wsIds => wsIds
  | _ => []

/-- **What a close lists is not merged while it holds the lock.** -/
def Listed (s : Tables) : Prop :=
  ∀ h ∈ s.handler, ∀ id ∈ h.listed, ∀ w, s.workspaces.get id = some w → w.status ≠ .merged

/-- Nothing is merged. -/
def NoMerge (m m' : FMap Uuid WorkspaceRow) : Prop :=
  ∀ id w', m'.get id = some w' → w'.status = .merged → ∃ w, m.get id = some w ∧ w.status = .merged

theorem noMerge_refl (m : FMap Uuid WorkspaceRow) : NoMerge m m := fun _ w' hw' hmerged => ⟨w', hw', hmerged⟩

theorem noMerge_discard (repoId id : Uuid) (s : Tables) : NoMerge s.workspaces (discardWorkspace repoId id s).workspaces := by
  intro j w' hw' hmerged
  unfold discardWorkspace at hw'
  rw [get_setWorkspaceStatus] at hw'
  split at hw'
  · rename_i hj
    obtain ⟨w, hw, rfl⟩ := Option.map_eq_some_iff.1 hw'
    split at hmerged
    · cases hmerged
    · exact ⟨w, by rw [hj]; exact hw, hmerged⟩
  · exact ⟨w', hw', hmerged⟩

theorem noMerge_onlyIf {ok : Bool} {write : Tables → Tables} (h : NoMerge s.workspaces (write s).workspaces) :
    NoMerge s.workspaces (onlyIf ok write s).workspaces := by
  cases ok with
  | true => exact h
  | false => exact noMerge_refl _

theorem noMerge_updateIssueStatus (repoId id : Uuid) (status : IssueStatus) (s : Tables) :
    NoMerge s.workspaces (updateIssueStatus repoId id status s).workspaces := by
  rw [updateIssueStatus_workspaces]
  exact noMerge_refl _

theorem noMerge_pass {ok : Bool} {now : Time} {p next : Pass} {write : Tables → Tables}
    (h : passStep staleSecs ok now s p = some (write, next)) : NoMerge s.workspaces (write s).workspaces := by
  obtain ⟨rfl, -⟩ | ⟨repoId, wsId, rfl, -⟩ | ⟨repoId, issueId, rfl, -⟩ | ⟨worker, rfl, -⟩ := passStep_cases h
  · exact noMerge_refl _
  · exact noMerge_onlyIf (noMerge_discard repoId wsId s)
  · exact noMerge_onlyIf (noMerge_updateIssueStatus repoId issueId .open s)
  · exact noMerge_onlyIf (noMerge_refl _)

theorem handler_pass {ok : Bool} {now : Time} {p next : Pass} {write : Tables → Tables}
    (h : passStep staleSecs ok now s p = some (write, next)) : (write s).handler = s.handler := by
  have honly : ∀ write : Tables → Tables, (write s).handler = s.handler → (onlyIf ok write s).handler = s.handler := by
    intro write hwrite
    cases ok with
    | true => exact hwrite
    | false => rfl
  obtain ⟨rfl, -⟩ | ⟨repoId, wsId, rfl, -⟩ | ⟨repoId, issueId, rfl, -⟩ | ⟨worker, rfl, -⟩ := passStep_cases h
  · rfl
  · exact honly _ (setWorkspaceStatus_handler _ _ _ _)
  · exact honly _ (updateIssueStatus_handler _ _ _ _)
  · exact honly _ rfl

theorem Listed.of_noMerge (h : Listed s) (hm : NoMerge s.workspaces s'.workspaces)
    (hhandler : ∀ h' ∈ s'.handler, ∀ id ∈ h'.listed, ∃ h ∈ s.handler, id ∈ h.listed) : Listed s' := by
  intro h' hh' id hid w' hw' hmerged
  obtain ⟨w, hw, hwas⟩ := hm id w' hw' hmerged
  obtain ⟨h₀, hh₀, hid₀⟩ := hhandler h' hh' id hid
  exact h h₀ hh₀ id hid₀ w hw hwas

theorem active_of_linkedActive {repoId issueId id : Uuid} (h : id ∈ linkedActive repoId issueId s) :
    ∀ w, s.workspaces.get id = some w → w.status ≠ .merged := by
  intro w hw hmerged
  obtain ⟨x, hx, rfl⟩ := List.mem_map.1 h
  obtain ⟨hmem, htest⟩ := List.mem_filter.1 hx
  obtain ⟨j, row⟩ := x
  have hrow : s.workspaces.get j = some row := FMap.mem_pairs.1 hmem
  obtain rfl : row = w := Option.some.inj (hrow.symm.trans hw)
  have hactive : WorkspaceStatus.active row.status = true := (Bool.and_eq_true_iff.1 htest).2
  rw [hmerged] at hactive
  cases hactive

/-- As `Stays`, but for the issues. -/
def Holds (s s' : Tables) : Prop := MergedStay s.workspaces s'.workspaces ∧ EndedStay s.workers s'.workers

theorem holds_refl (s : Tables) : Holds s s := ⟨mergedStay_refl _, endedStay_refl _⟩

theorem holds_onlyIf {ok : Bool} {write : Tables → Tables} {P : Prop} (h : Holds s (write s) ↔ P) :
    Holds s (onlyIf ok write s) ↔ (ok = true → P) := by
  cases ok with
  | true => exact h.trans ⟨fun hP _ => hP, fun hP => hP rfl⟩
  | false => exact ⟨fun _ hok => absurd hok Bool.false_ne_true, fun _ => holds_refl s⟩

theorem holds_discard (repoId id : Uuid) (s : Tables) : Holds s (discardWorkspace repoId id s) ↔ NotMerged repoId id s := by
  unfold Holds
  rw [mergedStay_discard]
  unfold discardWorkspace
  rw [setWorkspaceStatus_workers]
  exact ⟨fun h => h.1, fun h => ⟨h, endedStay_refl _⟩⟩

theorem holds_updateIssueStatus (repoId id : Uuid) (status : IssueStatus) (s : Tables) :
    Holds s (updateIssueStatus repoId id status s) := by
  unfold Holds
  rw [updateIssueStatus_workspaces, updateIssueStatus_workers]
  exact holds_refl s

theorem holds_merged (repoId id : Uuid) (s : Tables) : Holds s (setWorkspaceStatus repoId id .merged s) := by
  unfold Holds
  rw [setWorkspaceStatus_workers]
  refine ⟨fun j w w' hw hmerged hw' => ?_, endedStay_refl _⟩
  rw [get_setWorkspaceStatus] at hw'
  split at hw'
  · obtain ⟨x, hx, rfl⟩ := Option.map_eq_some_iff.1 hw'
    rename_i hj
    rw [hj, hx] at hw
    obtain rfl := Option.some.inj hw
    split
    · exact fun hd => nomatch hd
    · rw [hmerged]
      decide
  · exact mergedStay_refl s.workspaces j w w' hw hmerged hw'

theorem holds_create {newId : Uuid} {row : WorkspaceRow} (hnew : (s.workspaces.get newId).isNone) :
    Holds s { s with workspaces := s.workspaces.insert newId row } := by
  refine ⟨fun j w w' hw hmerged hw' => ?_, endedStay_refl _⟩
  dsimp only at hw'
  rw [FMap.get_insert] at hw'
  split at hw'
  · rename_i hj
    rw [hj] at hw
    rw [hw] at hnew
    cases hnew
  · exact mergedStay_refl s.workspaces j w w' hw hmerged hw'

theorem holds_link (worker : Option Uuid) (wsId : Uuid) (s : Tables) :
    Holds s (linkWorker worker wsId s) := by
  cases worker with
  | none => exact holds_refl s
  | some w => exact ⟨mergedStay_refl _, endedStay_updateWorker w (fun x => { x with workspaceId := some wsId }) (fun _ => rfl) _⟩

theorem holds_true {ok : Bool} {s' : Tables} (h : Holds s s') : Holds s s' ↔ (ok = true → True) :=
  ⟨fun _ _ => trivial, fun _ => h⟩

/-- A statement of a handler undoes nothing exactly if it finds what it must. -/
theorem holds_handler {ok : Bool} {newId : Uuid} {now : Time} {h : Handler}
    (hlisted : ∀ id ∈ h.listed, ∀ w, s.workspaces.get id = some w → w.status ≠ .merged) :
    Holds s ((handlerStep ok newId now s h).1 s) ↔ (ok = true → h.Finds s) := by
  cases h with
  | claiming repoId issueId worker =>
    refine holds_true ?_
    unfold handlerStep
    dsimp only
    split
    · exact holds_create (And.right ‹_›)
    · exact holds_refl s
  | claimed repoId issueId wsId worker =>
    exact holds_onlyIf ⟨fun _ => trivial, fun _ => holds_updateIssueStatus _ _ _ _⟩
  | linking wsId worker => exact holds_onlyIf ⟨fun _ => trivial, fun _ => holds_link worker wsId s⟩
  | submitting repoId wsId => exact holds_onlyIf ⟨fun _ => trivial, fun _ => holds_merged repoId wsId s⟩
  | rejecting repoId wsId => exact holds_onlyIf (holds_discard repoId wsId s)
  | closing repoId issueId => exact holds_true (holds_refl s)
  | cascading repoId wsIds =>
    cases wsIds with
    | nil => exact holds_true (holds_refl s)
    | cons wsId rest =>
      refine holds_onlyIf ⟨fun _ => trivial, fun _ => (holds_discard repoId wsId s).2 fun w hw => ?_⟩
      exact hlisted wsId List.mem_cons_self w (Option.filter_eq_some_iff.1 hw).1
  | tearing repoId wsId rest => exact holds_true (holds_refl s)
  | terminating worker repoId rest =>
    refine holds_onlyIf ⟨fun hstay => (endedStay_markDone _ _ _).1 hstay.2, fun hfinds => ⟨mergedStay_refl _, ?_⟩⟩
    exact (endedStay_markDone worker .terminated s).2 hfinds

theorem listed_handler {ok : Bool} {newId : Uuid} {now : Time} {h : Handler} (hs : s.handler = some h) (hlisted : Listed s) :
    Listed { (handlerStep ok newId now s h).1 s with handler := (handlerStep ok newId now s h).2 } := by
  cases h with
  | claiming repoId issueId worker =>
    unfold handlerStep
    dsimp only
    split
    · intro h' hh' id hid
      obtain rfl := Option.some.inj hh'
      cases hid
    · intro h' hh'
      cases hh'
  | claimed repoId issueId wsId worker =>
    intro h' hh' id hid
    cases ok with
    | true =>
      obtain rfl := Option.some.inj hh'
      cases hid
    | false => cases hh'
  | linking wsId worker =>
    intro h' hh'
    cases hh'
  | submitting repoId wsId =>
    intro h' hh'
    cases hh'
  | rejecting repoId wsId =>
    intro h' hh' id hid
    cases ok with
    | true =>
      obtain rfl := Option.some.inj hh'
      cases hid
    | false => cases hh'
  | closing repoId issueId =>
    intro h' hh' id hid
    cases ok with
    | true =>
      obtain rfl := Option.some.inj hh'
      exact active_of_linkedActive hid
    | false => cases hh'
  | cascading repoId wsIds =>
    cases wsIds with
    | nil =>
      intro h' hh'
      cases hh'
    | cons wsId rest =>
      refine hlisted.of_noMerge (noMerge_onlyIf (noMerge_discard repoId wsId s)) fun h' hh' id hid => ⟨_, hs, ?_⟩
      cases ok <;> obtain rfl := Option.some.inj hh' <;> exact List.mem_cons_of_mem wsId hid
  | tearing repoId wsId rest =>
    refine hlisted.of_noMerge (noMerge_refl _) fun h' hh' id hid => ⟨_, hs, ?_⟩
    obtain rfl := Option.some.inj hh'
    split at hid <;> exact hid
  | terminating worker repoId rest =>
    refine hlisted.of_noMerge (noMerge_onlyIf (noMerge_refl _)) fun h' hh' id hid => ⟨_, hs, ?_⟩
    obtain rfl := Option.some.inj hh'
    exact hid

/-! ## Runs -/

theorem keeps_of_holds {a : Step} (ha : a.isPass = false) : Keeps a s s' ↔ Holds s s' :=
  ⟨fun h => ⟨h.merged, h.ended⟩, fun h => ⟨h.1, fun he => absurd (ha.symm.trans he) Bool.false_ne_true, h.2⟩⟩

/-- **A step undoes no finished work exactly if it finds what it must.** -/
theorem keeps_iff_finds {a : Step} (hlisted : Listed s) (hs : step staleSecs a s = some s') : Keeps a s s' ↔ a.Finds s := by
  cases a with
  | begin now =>
    obtain rfl := Option.some.inj hs
    exact (keeps_of_holds rfl).trans ⟨fun _ => trivial, fun _ => holds_refl s⟩
  | pass i ok now =>
    obtain ⟨p, hp, hs⟩ := Option.bind_eq_some_iff.1 hs
    obtain ⟨⟨write, next⟩, hstep, rfl⟩ := Option.map_eq_some_iff.1 hs
    have hkeeps : Keeps (.pass i ok now) s { write s with passes := s.passes.set i next } ↔ Stays s (write s) :=
      ⟨fun h => ⟨h.merged, h.finished rfl, h.ended⟩, fun h => ⟨h.1, fun _ => h.2.1, h.2.2⟩⟩
    rw [hkeeps, stays_pass hstep]
    refine ⟨fun h hok p' hp' => ?_, fun h hok => h hok p hp⟩
    obtain rfl : p = p' := Option.some.inj (hp.symm.trans hp')
    exact h hok
  | claim repoId issueId worker =>
    unfold step at hs
    dsimp only at hs
    split at hs
    · obtain rfl := Option.some.inj hs
      exact (keeps_of_holds rfl).trans ⟨fun _ => trivial, fun _ => holds_refl s⟩
    · cases hs
  | submit repoId wsId =>
    unfold step at hs
    dsimp only at hs
    split at hs
    · obtain ⟨w, -, rfl⟩ := Option.map_eq_some_iff.1 hs
      exact (keeps_of_holds rfl).trans ⟨fun _ => trivial, fun _ => holds_refl s⟩
    · cases hs
  | close repoId issueId =>
    unfold step at hs
    dsimp only at hs
    split at hs
    · obtain rfl := Option.some.inj hs
      refine (keeps_of_holds rfl).trans ⟨fun _ => trivial, fun _ => ?_⟩
      exact holds_updateIssueStatus repoId issueId .closed s
    · cases hs
  | handler ok newId now =>
    obtain ⟨h, hh, rfl⟩ := Option.map_eq_some_iff.1 hs
    have hholds : Holds s ((handlerStep ok newId now s h).1 s) ↔ (ok = true → h.Finds s) := holds_handler (hlisted h hh)
    refine (keeps_of_holds rfl).trans (hholds.trans ⟨fun hf hok h' hh' => ?_, fun hf hok => hf hok h hh⟩)
    obtain rfl : h = h' := Option.some.inj (hh.symm.trans hh')
    exact hf hok
  | resolve repoId issueId =>
    obtain rfl := Option.some.inj hs
    refine (keeps_of_holds rfl).trans ⟨fun _ => trivial, fun _ => ?_⟩
    exact holds_updateIssueStatus repoId issueId .resolved s
  | heartbeat worker now =>
    obtain rfl := Option.some.inj hs
    refine (keeps_of_holds rfl).trans ⟨fun _ => trivial, fun _ => ⟨mergedStay_refl _, ?_⟩⟩
    exact endedStay_updateWorker worker (fun w => { w with lastHeartbeatAt := some now }) (fun _ => rfl) _
  | done worker reason =>
    obtain rfl := Option.some.inj hs
    refine (keeps_of_holds rfl).trans (Iff.trans ⟨fun h => h.2, fun h => ⟨mergedStay_refl _, h⟩⟩ ?_)
    exact endedStay_markDone worker reason s

/-- What a close lists stays unmerged, whatever the passes do. -/
theorem listed_step (a : Step) (s s' : Tables) (hlisted : Listed s) (hs : step staleSecs a s = some s') : Listed s' := by
  have hsame : ∀ t : Tables, t.handler = s.handler → NoMerge s.workspaces t.workspaces → Listed t := by
    intro t hhandler hm
    refine hlisted.of_noMerge hm fun h hh id hid => ⟨h, ?_, hid⟩
    rw [← hhandler]
    exact hh
  have hnone : ∀ (t : Tables) (h : Handler), t.handler = some h → h.listed = [] → Listed t := by
    intro t h hhandler hnil h' hh' id hid
    obtain rfl : h = h' := Option.some.inj (hhandler.symm.trans hh')
    rw [hnil] at hid
    cases hid
  cases a with
  | begin now =>
    obtain rfl := Option.some.inj hs
    exact hsame _ rfl (noMerge_refl _)
  | pass i ok now =>
    obtain ⟨p, -, hs⟩ := Option.bind_eq_some_iff.1 hs
    obtain ⟨⟨write, next⟩, hstep, rfl⟩ := Option.map_eq_some_iff.1 hs
    exact hsame _ (handler_pass hstep) (noMerge_pass hstep)
  | claim repoId issueId worker =>
    unfold step at hs
    dsimp only at hs
    split at hs
    · obtain rfl := Option.some.inj hs
      exact hnone _ _ rfl rfl
    · cases hs
  | submit repoId wsId =>
    unfold step at hs
    dsimp only at hs
    split at hs
    · obtain ⟨w, -, rfl⟩ := Option.map_eq_some_iff.1 hs
      refine hnone _ _ rfl ?_
      split <;> rfl
    · cases hs
  | close repoId issueId =>
    unfold step at hs
    dsimp only at hs
    split at hs
    · obtain rfl := Option.some.inj hs
      exact hnone _ _ rfl rfl
    · cases hs
  | handler ok newId now =>
    obtain ⟨h, hh, rfl⟩ := Option.map_eq_some_iff.1 hs
    exact listed_handler hh hlisted
  | resolve repoId issueId =>
    obtain rfl := Option.some.inj hs
    exact hsame _ (updateIssueStatus_handler _ _ _ _) (noMerge_updateIssueStatus _ _ _ _)
  | heartbeat worker now =>
    obtain rfl := Option.some.inj hs
    exact hsame _ rfl (noMerge_refl _)
  | done worker reason =>
    obtain rfl := Option.some.inj hs
    exact hsame _ rfl (noMerge_refl _)

end Reconcile
end Vai
