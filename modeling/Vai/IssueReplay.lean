import Vai.OneEvent
import Vai.Steps
/-!
# IssueReplay — the statuses of issues from the event log

A local operation writes the status of an issue into its row, and an event into the log that its caller has opened: the
one in `.vai/event_log`, or the one in `.vai`, which `work_queue::claim` and the commands of the CLI open.  `replay` folds
the events of `.vai/event_log`.

`replay_in_sync_iff`: it gives the stored statuses all through a run exactly when every operation of the run writes to
`.vai/event_log` or leaves the status as it was.
-/
namespace Vai
namespace IssueReplay

open Proc Rows Steps
open IssueDir (Unicode)
open IssueServer (ReadOnly readOnly_read readOnly_ofExcept readOnly_openIssueStore readOnly_io readOnly_get issues_createWorkspace)

/-! ## The fold -/

/-- The status that an event gives an issue. -/
def statusGiven : EventKind → Option (Uuid × IssueStatus)
  | .issueCreated id _ _ _ => some (id, .open)
  | .issueLinkedToWorkspace id _ => some (id, .inProgress)
  | .issueUpdated id fieldsChanged => if "status".toList ∈ fieldsChanged then some (id, .open) else none
  | .issueResolved id _ _ => some (id, .resolved)
  | .issueClosed id _ => some (id, .closed)
  | _ => none

def replayStep (statuses : FMap Uuid IssueStatus) (kind : EventKind) : FMap Uuid IssueStatus :=
  (statusGiven kind).elim statuses fun p => statuses.insert p.1 p.2

def replay (log : List EventKind) : FMap Uuid IssueStatus := log.foldl replayStep ∅

/-- The status of an issue, as its row has it. -/
def statusOf (d : IssueDir) (id : Uuid) : Option IssueStatus := (row IssueRow.id id d.rows).map IssueRow.status

/-- The log in `.vai/event_log` gives the stored status of every issue. -/
def InSync (d : IssueDir) : Prop := ∀ id, (replay d.eventLog).get id = statusOf d id

theorem inSync_empty : InSync .empty := fun _ => rfl

theorem get_replay_given {log : List EventKind} {kind : EventKind} {id : Uuid} {status : IssueStatus}
    (h : statusGiven kind = some (id, status)) (j : Uuid) :
    (replay (log ++ [kind])).get j = if j = id then some status else (replay log).get j := by
  unfold replay replayStep
  rw [List.foldl_append, List.foldl_cons, List.foldl_nil, h]
  exact FMap.get_insert _ _ _ _

theorem replay_other {log : List EventKind} {kind : EventKind} (h : statusGiven kind = none) :
    replay (log ++ [kind]) = replay log := by
  unfold replay replayStep
  rw [List.foldl_append, List.foldl_cons, List.foldl_nil, h]
  rfl

/-! ## Local operations -/

/-- The operations, with the log that the caller has opened; a claim opens it itself. -/
inductive LocalOp where
  | create (id : Uuid) (now : Nat) (title description : Text) (priority : IssuePriority) (labels : List Text) (creator : Text)
      (log : LogDir)
  | createByAgent (id : Uuid) (now : Nat) (title description : Text) (priority : IssuePriority) (labels : List Text)
      (agentId : Text) (source : AgentSource) (maxPerHour : Nat) (log : LogDir)
  | claim (id wsId : Uuid) (now : Nat)
  | setInProgress (id wsId : Uuid) (now : Nat) (log : LogDir)
  | reopen (id : Uuid) (now : Nat) (log : LogDir)
  | resolve (id : Uuid) (now : Nat) (versionId : Option Text) (log : LogDir)
  | close (id : Uuid) (now : Nat) (resolution : Text) (log : LogDir)

namespace LocalOp

def id : LocalOp → Uuid
  | create id .. => id
  | createByAgent id .. => id
  | claim id .. => id
  | setInProgress id .. => id
  | reopen id .. => id
  | resolve id .. => id
  | close id .. => id

/-- The status that an operation gives its issue. -/
def status : LocalOp → IssueStatus
  | create .. => .open
  | createByAgent .. => .open
  | claim .. => .inProgress
  | setInProgress .. => .inProgress
  | reopen .. => .open
  | resolve .. => .resolved
  | close .. => .closed

/-- The log that an operation writes its event to. -/
def log : LocalOp → LogDir
  | create _ _ _ _ _ _ _ log => log
  | createByAgent _ _ _ _ _ _ _ _ _ log => log
  | claim .. => .vaiDir
  | setInProgress _ _ _ log => log
  | reopen _ _ log => log
  | resolve _ _ _ log => log
  | close _ _ _ log => log

end LocalOp

section Run

variable (unicode : Unicode)

/-- One call of an operation: with what fails in it, and whether the graph can be read. -/
structure Call where
  op : LocalOp
  fails : LocalCall → Bool
  broken : Bool

def Call.run (c : Call) : Proc (Site LocalRepo) WorkQueue.WorkQueueError Unit :=
  let fails := fun x => c.fails (.issue x)
  match c.op with
  | .create id now title description priority labels creator log => do
    let _ ← WorkQueue.onIssues (IssueDir.create fails id now title description priority labels creator log)
  | .createByAgent id now title description priority labels agentId source maxPerHour log => do
    let _ ← WorkQueue.onIssues
      (IssueDir.createByAgent fails unicode id now title description priority labels agentId source maxPerHour log)
  | .claim id wsId now => do
    let _ ← WorkQueue.claim unicode c.fails c.broken id wsId now
  | .setInProgress id wsId now log => do
    let _ ← WorkQueue.onIssues (IssueDir.setInProgress fails id wsId now log)
  | .reopen id now log => do
    let _ ← WorkQueue.onIssues (IssueDir.reopen fails id now log)
  | .resolve id now versionId log => do
    let _ ← WorkQueue.onIssues (IssueDir.resolve fails id now versionId log)
  | .close id now resolution log => do
    let _ ← WorkQueue.onIssues (IssueDir.close fails id now resolution log)

/-- A successful operation. -/
def step (c : Call) (s : Site LocalRepo) : Option (Site LocalRepo) :=
  if (c.run unicode s).1.isOk then some (c.run unicode s).2 else none

/-- The event goes where it is read from, or tells nothing new. -/
def Meets (c : Call) (s : Site LocalRepo) : Prop :=
  c.op.log = .eventLog ∨ statusOf s.store.issues c.op.id = some c.op.status

end Run

/-! ## What an operation tells -/

/-- An issue gets a status, which is told in a log. -/
structure Told (id : Uuid) (status : IssueStatus) (log : LogDir) (d d' : IssueDir) : Prop where
  statuses : ∀ j, statusOf d' j = if j = id then some status else statusOf d j
  replayed : ∀ j, (replay d'.eventLog).get j = if log = .eventLog ∧ j = id then some status else (replay d.eventLog).get j

section Told

variable {id : Uuid} {status : IssueStatus} {log : LogDir} {d d' : IssueDir} {kind : EventKind}

theorem rows_logged : (IssueDir.logged log kind d).rows = d.rows := by
  cases log <;> rfl

theorem told_logged (hkind : statusGiven kind = some (id, status)) (hlog : d'.eventLog = d.eventLog)
    (hrows : ∀ j, statusOf d' j = if j = id then some status else statusOf d j) :
    Told id status log d (IssueDir.logged log kind d') := by
  constructor
  · intro j
    rw [← hrows j]
    unfold statusOf
    rw [rows_logged]
  · intro j
    cases log with
    | eventLog =>
      have hevents : (IssueDir.logged .eventLog kind d').eventLog = d.eventLog ++ [kind] := by
        rw [← hlog]
        rfl
      rw [hevents, get_replay_given hkind]
      simp
    | vaiDir =>
      have hevents : (IssueDir.logged .vaiDir kind d').eventLog = d.eventLog := hlog
      rw [hevents]
      simp

theorem statusOf_new {r : IssueRow} (hfresh : row IssueRow.id r.id d.rows = none) (limits : FMap (Text × Nat) Nat) (j : Uuid) :
    statusOf { d with rows := d.rows ++ [r], rateLimits := limits } j = if j = r.id then some r.status else statusOf d j := by
  unfold statusOf row at *
  rw [List.find?_append]
  by_cases hj : j = r.id
  · rw [if_pos hj, hj, hfresh]
    simp
  · rw [if_neg hj]
    have hne : ¬ r.id = j := fun h => hj h.symm
    simp [hne]

theorem told_create {now : Nat} {title description : Text} {priority : IssuePriority} {labels : List Text} {creator : Text}
    {f : IssueCall → Bool} {i : Issue}
    (h : IssueDir.create f id now title description priority labels creator log d = (.ok i, d')) : Told id .open log d d' := by
  have h' := IssueDir.within_create _ _ _ _ _ _ _ _ _ _ _ _ h
  have hfresh := IssueDir.fresh_of_create h'
  rw [IssueDir.create_noFault hfresh] at h'
  cases h'
  exact told_logged rfl rfl fun j => statusOf_new (r := (Issue.new id now title description priority labels creator none).toRow)
    hfresh _ j

theorem told_createByAgent {unicode : Unicode} {now : Nat} {title description : Text} {priority : IssuePriority}
    {labels : List Text} {agentId : Text} {source : AgentSource} {maxPerHour : Nat} {f : IssueCall → Bool}
    {r : Issue × Option Uuid}
    (h : IssueDir.createByAgent f unicode id now title description priority labels agentId source maxPerHour log d = (.ok r, d')) :
    Told id .open log d d' := by
  obtain ⟨hfresh, limits, rfl⟩ := IssueDir.createByAgent_ok (IssueDir.within_createByAgent _ _ _ _ _ _ _ _ _ _ _ _ _ _ _ h)
  exact told_logged rfl rfl fun j =>
    statusOf_new (r := (Issue.new id now title description priority labels agentId (some source)).toRow) hfresh limits j

theorem told_transition {now : Nat} {allowed : IssueStatus → Bool} {resolution : Option Text → Option Text} {ws : Option Uuid}
    {f : IssueCall → Bool} {i : Issue} (hkind : statusGiven kind = some (id, status))
    (h : IssueDir.transition f id now allowed status resolution ws kind log d = (.ok i, d')) : Told id status log d d' := by
  obtain ⟨r, hrow, -, -, rfl⟩ := IssueDir.transition_ok (IssueDir.within_transition _ _ _ _ _ _ _ _ _ _ _ _ h)
  refine told_logged hkind rfl fun j => ?_
  unfold statusOf
  rw [row_update (f := IssueDir.moved now status resolution) (fun _ => rfl)]
  by_cases hj : j = id
  · rw [if_pos hj, if_pos hj, hrow]
    rfl
  · rw [if_neg hj, if_neg hj]

theorem Told.of_other (h : Told id status log (d.logged .eventLog kind) d') (hkind : statusGiven kind = none) :
    Told id status log d d' := by
  refine ⟨h.statuses, fun j => ?_⟩
  have hreplayed := h.replayed j
  have hevents : (d.logged .eventLog kind).eventLog = d.eventLog ++ [kind] := rfl
  rwa [hevents, replay_other hkind] at hreplayed

end Told

/-! ## Successful operations -/

section Step

variable {id : Uuid} {status : IssueStatus} {log : LogDir}

theorem onIssues_ok {α : Type} {m : Proc IssueDir IssueError α} {s s' : Site LocalRepo} {a : α}
    (h : WorkQueue.onIssues m s = (.ok a, s')) : m s.store.issues = (.ok a, s'.store.issues) := by
  unfold WorkQueue.onIssues at h
  rcases hm : m s.store.issues with ⟨_ | a', d⟩ <;> rw [hm] at h <;> cases h
  rfl

theorem onLocal_ok {ε α : Type} {f : ε → WorkQueue.WorkQueueError} {m : Proc LocalRepo ε α} {s s' : Site LocalRepo} {a : α}
    (h : WorkQueue.onLocal f m s = (.ok a, s')) : m s.store = (.ok a, s'.store) := by
  unfold WorkQueue.onLocal at h
  rcases hm : m s.store with ⟨_ | a', r⟩ <;> rw [hm] at h <;> cases h
  rfl

theorem readOnly_onIssues {α : Type} {m : Proc IssueDir IssueError α} (h : ReadOnly m) : ReadOnly (WorkQueue.onIssues m) := by
  intro s
  have hs := h s.store.issues
  unfold WorkQueue.onIssues
  rcases hm : m s.store.issues with ⟨_ | _, d⟩ <;> rw [hm] at hs <;> obtain rfl : d = s.store.issues := hs <;> rfl

theorem readOnly_onLocal {ε α : Type} {f : ε → WorkQueue.WorkQueueError} {m : Proc LocalRepo ε α} (h : ReadOnly m) :
    ReadOnly (WorkQueue.onLocal f m) := by
  intro s
  have hs := h s.store
  unfold WorkQueue.onLocal
  rcases hm : m s.store with ⟨_ | _, r⟩ <;> rw [hm] at hs <;> obtain rfl : r = s.store := hs <;> rfl

variable {unicode : Unicode}

/-- A claim creates a workspace, whose event gives no issue a status, and then links the issue. -/
theorem told_claim {fails : LocalCall → Bool} {broken : Bool} {wsId : Uuid} {now : Nat} {s s' : Site LocalRepo} {r : ClaimResult}
    (h : WorkQueue.claim unicode fails broken id wsId now s = (.ok r, s')) :
    Told id .inProgress .vaiDir s.store.issues s'.store.issues := by
  unfold WorkQueue.claim at h
  obtain ⟨_, -, h⟩ := (readOnly_onLocal (readOnly_openIssueStore fails 0)).bind_ok h
  obtain ⟨issue, -, h⟩ := (readOnly_onIssues (readOnly_get _ 0 id)).bind_ok h
  split at h
  · cases h
  split at h
  · cases h
  obtain ⟨graph, -, h⟩ := (readOnly_read _).bind_ok h
  obtain ⟨prediction, -, h⟩ := (readOnly_ofExcept _ _).bind_ok h
  obtain ⟨meets, -, h⟩ := (readOnly_read _).bind_ok h
  split at h
  · cases h
  obtain ⟨head, -, h⟩ := (readOnly_onLocal ((readOnly_io fails .readHead).bind fun _ => readOnly_read _)).bind_ok h
  cases head with
  | none => cases h
  | some head =>
    obtain ⟨ws, s₁, hcreate, h⟩ := bind_eq_ok.1 h
    obtain ⟨-, hevent⟩ := issues_createWorkspace fails (onLocal_ok hcreate)
    obtain ⟨_, -, h⟩ := (readOnly_onLocal (readOnly_io fails .openEventLog)).bind_ok h
    obtain ⟨_, s₂, hset, h⟩ := bind_eq_ok.1 h
    cases h
    have hd := onIssues_ok hset
    rw [hevent] at hd
    exact (told_transition rfl hd).of_other rfl

/-- **What an operation tells**, in the log that it opens. -/
theorem step_told {c : Call} {s s' : Site LocalRepo} (h : step unicode c s = some s') :
    Told c.op.id c.op.status c.op.log s.store.issues s'.store.issues := by
  unfold step at h
  split at h
  · rename_i hok
    obtain ⟨u, hu⟩ : ∃ u, c.run unicode s = (.ok u, s') := by
      rw [← Option.some.inj h]
      rcases hr : c.run unicode s with ⟨e | u, s₁⟩
      · rw [hr] at hok
        cases hok
      · exact ⟨u, rfl⟩
    obtain ⟨op, fails, broken⟩ := c
    cases op with
    | create =>
      obtain ⟨_, _, hm, hpure⟩ := bind_eq_ok.1 hu
      cases hpure
      exact told_create (onIssues_ok hm)
    | createByAgent =>
      obtain ⟨_, _, hm, hpure⟩ := bind_eq_ok.1 hu
      cases hpure
      exact told_createByAgent (onIssues_ok hm)
    | claim =>
      obtain ⟨_, _, hm, hpure⟩ := bind_eq_ok.1 hu
      cases hpure
      exact told_claim hm
    | setInProgress =>
      obtain ⟨_, _, hm, hpure⟩ := bind_eq_ok.1 hu
      cases hpure
      exact told_transition rfl (onIssues_ok hm)
    | reopen =>
      obtain ⟨_, _, hm, hpure⟩ := bind_eq_ok.1 hu
      cases hpure
      exact told_transition rfl (onIssues_ok hm)
    | resolve =>
      obtain ⟨_, _, hm, hpure⟩ := bind_eq_ok.1 hu
      cases hpure
      exact told_transition rfl (onIssues_ok hm)
    | close =>
      obtain ⟨_, _, hm, hpure⟩ := bind_eq_ok.1 hu
      cases hpure
      exact told_transition rfl (onIssues_ok hm)
  · cases h

/-! ## Runs -/

/-- A told status is replayed where it is told in the log that is read, or was the status before. -/
theorem Told.inSync_iff {d d' : IssueDir} (h : Told id status log d d') (hsync : InSync d) :
    InSync d' ↔ log = .eventLog ∨ statusOf d id = some status := by
  constructor
  · intro hsync'
    by_cases hlog : log = .eventLog
    · exact .inl hlog
    · have hid := hsync' id
      rw [h.replayed id, if_neg fun hl => hlog hl.1, h.statuses id, if_pos rfl, hsync id] at hid
      exact .inr hid
  · intro hmeets j
    rw [h.replayed j, h.statuses j, hsync j]
    by_cases hj : j = id
    · subst hj
      rcases hmeets with hlog | hstatus
      · rw [if_pos ⟨hlog, rfl⟩, if_pos rfl]
      · rw [hstatus, ite_self, ite_self]
    · rw [if_neg fun hl => hj hl.2, if_neg hj]

theorem inSync_step_iff {c : Call} {s s' : Site LocalRepo} (hsync : InSync s.store.issues) (h : step unicode c s = some s') :
    InSync s'.store.issues ↔ Meets c s := (step_told h).inSync_iff hsync

/-- **When the log in `.vai/event_log` tells the statuses**: it gives them before and after every operation of a run
exactly when each operation writes its event to it, or leaves the status of its issue as it was. -/
theorem replay_in_sync_iff {s₀ s : Site LocalRepo} {l : List (Turn Call (Site LocalRepo))} (h₀ : InSync s₀.store.issues)
    (h : Ran (step unicode) s₀ l s) :
    ((∀ t ∈ l, InSync t.before.store.issues) ∧ InSync s.store.issues) ↔ ∀ t ∈ l, Meets t.action t.before := by
  constructor
  · intro hsync
    induction h with
    | start => exact fun t ht => absurd ht List.not_mem_nil
    | next hran c hs ih =>
      have hbefore : InSync _ := hsync.1 _ (List.mem_append_right _ (List.mem_singleton.2 rfl))
      intro t ht
      rcases List.mem_append.1 ht with ht | ht
      · exact ih ⟨fun t ht => hsync.1 t (List.mem_append_left _ ht), hbefore⟩ t ht
      · rw [List.mem_singleton.1 ht]
        exact (inSync_step_iff hbefore hs).1 hsync.2
  · intro hmeets
    induction h with
    | start => exact ⟨fun t ht => absurd ht List.not_mem_nil, h₀⟩
    | next hran c hs ih =>
      have hbefore := ih fun t ht => hmeets t (List.mem_append_left _ ht)
      refine ⟨fun t ht => ?_, (inSync_step_iff hbefore.2 hs).2 (hmeets _ (List.mem_append_right _ (List.mem_singleton.2 rfl)))⟩
      rcases List.mem_append.1 ht with ht | ht
      · exact hbefore.1 t ht
      · rw [List.mem_singleton.1 ht]
        exact hbefore.2

end Step

/-! ## A claimed issue -/

def noFault (op : LocalOp) : Call := ⟨op, Sqlite.noFault, false⟩

/-- A new repository at its first version. -/
def fresh : Site LocalRepo := ⟨{ LocalRepo.empty with head := some "v1".toList }, none, ∅⟩

def schemaCreated : Call := noFault (.create 1 20 "schema".toList [] .medium [] "cli".toList .eventLog)

def worked : List Call :=
  [schemaCreated, noFault (.setInProgress 1 7 21 .eventLog), noFault (.resolve 1 22 none .eventLog)]

def claimed : List Call := [schemaCreated, noFault (.claim 1 7 21)]

/-- Worked on and resolved through `.vai/event_log`, the issue is told as it is stored. -/
theorem replay_in_sync_iff_worked : ∃ r, trace (step WorkQueue.ascii) worked fresh = some r ∧
    ((∀ t ∈ r.1, InSync t.before.store.issues) ∧ InSync r.2.store.issues) ∧
    statusOf r.2.store.issues 1 = some .resolved := by
  have hrun : (trace (step WorkQueue.ascii) worked fresh).any (fun r =>
      r.1.all (fun t => t.action.op.log == .eventLog) && statusOf r.2.store.issues 1 == some .resolved) = true := by
    decide +kernel
  cases hr : trace (step WorkQueue.ascii) worked fresh with
  | none =>
    rw [hr] at hrun
    cases hrun
  | some r =>
    rw [hr, Option.any_some, Bool.and_eq_true, List.all_eq_true, beq_iff_eq] at hrun
    refine ⟨r, rfl, (replay_in_sync_iff inSync_empty (ran_of_trace hr)).2 fun t ht => ?_, hrun.2⟩
    exact .inl (beq_iff_eq.1 (hrun.1 t ht))

/-- A claimed issue is in progress, and its events still say that it is open. -/
theorem claimed_issue_replays_open : ∃ r, trace (step WorkQueue.ascii) claimed fresh = some r ∧
    Ran (step WorkQueue.ascii) fresh r.1 r.2 ∧ InSync fresh.store.issues ∧ statusOf r.2.store.issues 1 = some .inProgress ∧
    (replay r.2.store.issues.eventLog).get 1 = some .open ∧ ¬ InSync r.2.store.issues := by
  have hrun : (trace (step WorkQueue.ascii) claimed fresh).any (fun r =>
      statusOf r.2.store.issues 1 == some .inProgress && (replay r.2.store.issues.eventLog).get 1 == some .open) = true := by
    decide +kernel
  cases hr : trace (step WorkQueue.ascii) claimed fresh with
  | none =>
    rw [hr] at hrun
    cases hrun
  | some r =>
    rw [hr, Option.any_some, Bool.and_eq_true, beq_iff_eq, beq_iff_eq] at hrun
    refine ⟨r, rfl, ran_of_trace hr, inSync_empty, hrun.1, hrun.2, fun hsync => ?_⟩
    have hid := hsync 1
    rw [hrun.1, hrun.2] at hid
    cases hid

end IssueReplay
end Vai
