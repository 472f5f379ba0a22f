import Vai.Backend
import Vai.Rows
/-!
# Issue — the issues of a local repository (`issue/mod.rs`)

`IssueDir` is what `.vai/` holds of issues: the tables of `issues.db`, and the two event logs that the callers open, in
`.vai/event_log` and in `.vai` itself.  An operation on the store is handed the log that it appends to.

The status and the priority of a row are columns that only `as_str` writes, and are kept as what they stand for; the JSON
of `agent_source` and of `acceptance_criteria` as what it reads back as.  The id of a new issue and the time (in
nanoseconds) are given with each call.  A step of a call fails where `fails` has it so, without effect.
-/
namespace Vai

open Proc Rows

inductive IssuePriority where
  | critical | high | medium | low
deriving DecidableEq, Repr

namespace IssuePriority

def asStr : IssuePriority → Text
  | .critical => "critical".toList
  | .high => "high".toList
  | .medium => "medium".toList
  | .low => "low".toList

def fromDbStr (s : Text) : Option IssuePriority :=
  if s = "critical".toList then some .critical
  else if s = "high".toList then some .high
  else if s = "medium".toList then some .medium
  else if s = "low".toList then some .low
  else none

@[simp] theorem fromDbStr_asStr (p : IssuePriority) : fromDbStr p.asStr = some p := by
  cases p <;> rfl

end IssuePriority

namespace IssueStatus

def asStr : IssueStatus → Text
  | .open => "open".toList
  | .inProgress => "in_progress".toList
  | .resolved => "resolved".toList
  | .closed => "closed".toList

def fromDbStr (s : Text) : Option IssueStatus :=
  if s = "open".toList then some .open
  else if s = "in_progress".toList then some .inProgress
  else if s = "resolved".toList then some .resolved
  else if s = "closed".toList then some .closed
  else none

@[simp] theorem fromDbStr_asStr (s : IssueStatus) : fromDbStr s.asStr = some s := by
  cases s <;> rfl

end IssueStatus

/-- Where an issue comes from that an agent has created; `details` is JSON. -/
structure AgentSource where
  sourceType : Text
  details : Text
deriving DecidableEq, Repr

structure Issue where
  id : Uuid
  title : Text
  description : Text
  status : IssueStatus
  priority : IssuePriority
  labels : List Text
  creator : Text
  resolution : Option Text
  agentSource : Option AgentSource
  acceptanceCriteria : List Text
  createdAt : Nat
  updatedAt : Nat
deriving DecidableEq, Repr

inductive IssueError where
  | sqlite
  | eventLog
  | notFound (id : Uuid)
  | invalidTransition (before after : Text)
  | rateLimitExceeded (agentId : Text) (count max : Nat)
deriving DecidableEq, Repr

/-! ## The store -/

/-- A row of `issues`. -/
structure IssueRow where
  id : Uuid
  title : Text
  description : Text
  status : IssueStatus
  priority : IssuePriority
  /-- The labels, joined by commas. -/
  labels : Text
  creator : Text
  resolution : Option Text
  agentSource : Option AgentSource
  acceptanceCriteria : List Text
  createdAt : Nat
  updatedAt : Nat
deriving DecidableEq, Repr

/-- `labels.join(",")`. -/
def joinLabels (labels : List Text) : Text := [','].intercalate labels

/-- The labels as `row_to_issue` reads them. -/
def splitLabels (s : Text) : List Text := if s = [] then [] else s.splitOn ','

/-- The labels that the column keeps. -/
def KeptLabels (labels : List Text) : Prop := labels ≠ [[]] ∧ ∀ l ∈ labels, ',' ∉ l

theorem not_mem_of_mem_splitOn {c : Char} {l : Text} : ∀ {s : Text}, l ∈ s.splitOn c → c ∉ l
  | [], h => by
    rw [List.splitOn_nil, List.mem_singleton] at h
    simp [h]
  | x :: s, h => by
    rw [List.splitOn_cons_eq_if_modifyHead] at h
    by_cases hx : x = c
    · simp only [hx, beq_self_eq_true, if_true, List.mem_cons] at h
      rcases h with rfl | h
      · simp
      · exact not_mem_of_mem_splitOn h
    · obtain ⟨l₀, ls, hs⟩ := List.exists_cons_of_ne_nil (List.splitOn_ne_nil c s)
      simp only [beq_iff_eq, hx, if_false, hs, List.modifyHead_cons, List.mem_cons] at h
      have hrest : ∀ l ∈ l₀ :: ls, c ∉ l := fun l hl => not_mem_of_mem_splitOn (s := s) (hs ▸ hl)
      rcases h with rfl | h
      · have hl₀ := hrest l₀ List.mem_cons_self
        simp [hl₀, Ne.symm hx]
      · exact hrest l (List.mem_cons_of_mem _ h)

theorem joinLabels_eq_nil {labels : List Text} : joinLabels labels = [] ↔ labels = [] ∨ labels = [[]] := by
  unfold joinLabels
  match labels with
  | [] => simp
  | [l] => simp
  | l :: m :: t => simp [List.intercalate_cons_cons]

/-- **The column keeps the labels exactly where none has a comma and they are not the empty one alone.** -/
theorem splitLabels_joinLabels_iff {labels : List Text} : splitLabels (joinLabels labels) = labels ↔ KeptLabels labels := by
  unfold splitLabels
  by_cases hempty : joinLabels labels = []
  · rw [if_pos hempty]
    rcases joinLabels_eq_nil.1 hempty with rfl | rfl
    · simp [KeptLabels]
    · simp [KeptLabels]
  · have hne : labels ≠ [] ∧ labels ≠ [[]] := not_or.1 (mt joinLabels_eq_nil.2 hempty)
    rw [if_neg hempty]
    constructor
    · intro h
      exact ⟨hne.2, fun l hl => not_mem_of_mem_splitOn (s := joinLabels labels) (h.symm ▸ hl)⟩
    · intro h
      exact List.splitOn_intercalate ',' h.2 hne.1

theorem joinLabels_splitLabels (s : Text) : joinLabels (splitLabels s) = s := by
  unfold splitLabels
  split
  · next h => rw [h]; rfl
  · exact List.intercalate_splitOn ','

theorem keptLabels_splitLabels (s : Text) : KeptLabels (splitLabels s) := by
  rw [← splitLabels_joinLabels_iff, joinLabels_splitLabels]

/-- `row_to_issue`. -/
def IssueRow.toIssue (r : IssueRow) : Issue :=
  { r with labels := splitLabels r.labels }

/-- An issue as it is created. -/
def Issue.new (id : Uuid) (now : Nat) (title description : Text) (priority : IssuePriority) (labels : List Text)
    (creator : Text) (source : Option AgentSource) : Issue :=
  ⟨id, title, description, .open, priority, labels, creator, none, source, [], now, now⟩

/-- The row that is inserted for an issue. -/
def Issue.toRow (i : Issue) : IssueRow :=
  { i with labels := joinLabels i.labels }

theorem toIssue_toRow_iff {i : Issue} : i.toRow.toIssue = i ↔ KeptLabels i.labels := by
  rw [← splitLabels_joinLabels_iff]
  constructor
  · intro h
    exact congrArg Issue.labels h
  · intro h
    simp only [IssueRow.toIssue, Issue.toRow, h]

/-- The log in `.vai/event_log`, or the one in `.vai`. -/
inductive LogDir where
  | eventLog
  | vaiDir
deriving DecidableEq, Repr

structure IssueDir where
  rows : List IssueRow
  workspaceLinks : List (Uuid × Uuid)
  /-- `agent_rate_limits`, by agent and hour. -/
  rateLimits : FMap (Text × Nat) Nat
  dependencies : List (Uuid × Uuid)
  eventLog : List EventKind
  vaiLog : List EventKind

inductive IssueCall where
  | countAgent
  | findSimilar
  | insert
  /-- The reads of the issue, in the order of one call. -/
  | select (nth : Nat)
  | update
  | link
  | append
deriving DecidableEq, Repr

namespace IssueDir

def empty : IssueDir where
  rows := []
  workspaceLinks := []
  rateLimits := ∅
  dependencies := []
  eventLog := []
  vaiLog := []

/-- What `.vai/` holds after one more event. -/
def logged (log : LogDir) (kind : EventKind) (d : IssueDir) : IssueDir := match log with
  | .eventLog => { d with eventLog := d.eventLog ++ [kind] }
  | .vaiDir => { d with vaiLog := d.vaiLog ++ [kind] }

variable (fails : IssueCall → Bool)

def call (c : IssueCall) : Proc IssueDir IssueError Unit := if fails c then fail .sqlite else pure ()

/-- `EventLog::append`. -/
def append (log : LogDir) (kind : EventKind) : Proc IssueDir IssueError Unit :=
  if fails .append then fail .eventLog else modify (logged log kind)

/-- `IssueStore::get`. -/
def get (nth : Nat) (id : Uuid) : Proc IssueDir IssueError Issue := do
  call fails (.select nth)
  match ← Proc.read (fun d => row IssueRow.id id d.rows) with
  | some r => pure r.toIssue
  | none => fail (.notFound id)

/-- `INSERT INTO issues`; the primary key is fresh, or it fails. -/
def insertRow (r : IssueRow) : Proc IssueDir IssueError Unit := do
  call fails .insert
  if ← Proc.read (fun d => d.rows.any (fun r' => r'.id = r.id)) then fail .sqlite
  else modify fun d => { d with rows := d.rows ++ [r] }

def updateRow (id : Uuid) (f : IssueRow → IssueRow) : Proc IssueDir IssueError Unit := do
  call fails .update
  modify fun d => { d with rows := update IssueRow.id id f d.rows }

/-- `INSERT OR IGNORE INTO issue_workspace_links`. -/
def linkWorkspace (id workspaceId : Uuid) : Proc IssueDir IssueError Unit := do
  call fails .link
  modify fun d => { d with workspaceLinks := d.workspaceLinks.insert (id, workspaceId) }

/-! ## Creation -/

def create (id : Uuid) (now : Nat) (title description : Text) (priority : IssuePriority) (labels : List Text)
    (creator : Text) (log : LogDir) : Proc IssueDir IssueError Issue := do
  let issue := Issue.new id now title description priority labels creator none
  insertRow fails issue.toRow
  append fails log (.issueCreated id title creator priority.asStr)
  pure issue

/-- `is_alphanumeric` and `to_lowercase` of the standard library. -/
structure Unicode where
  isAlphanumeric : Char → Bool
  toLowercase : Text → Text

/-- Stop words excluded from title tokenization. -/
def stopWords : List Text :=
  ["a", "an", "and", "are", "as", "at", "be", "but", "by", "for", "from", "has", "have", "in", "is", "it", "its", "of",
   "on", "or", "that", "the", "this", "to", "was", "will", "with"].map String.toList

section Similar

variable (unicode : Unicode)

def tokenizeTitle (title : Text) : List Text :=
  ((((title.splitOnP (fun c => !unicode.isAlphanumeric c)).filter (· ≠ [])).map unicode.toLowercase).filter
    (· ∉ stopWords)).dedup

/-- `jaccard_similarity(a, b) >= 0.5`, for lists without repetition. -/
def similar (a b : List Text) : Bool := (a ∪ b).length ≤ 2 * (a ∩ b).length

/-- The statuses of the issues that a new one may duplicate. -/
def isActive (s : IssueStatus) : Bool := s = .open || s = .inProgress

def findSimilarOpenIssue (title : Text) (rows : List IssueRow) : Option Uuid :=
  if tokenizeTitle unicode title = [] then none
  else (rows.find? (fun r => isActive r.status && similar (tokenizeTitle unicode title) (tokenizeTitle unicode r.title))).map
    IssueRow.id

/-- `current_hour_bucket`. -/
def hourBucket (now : Nat) : Nat := now / 3600000000000

/-- `increment_agent_rate_limit`: the count with this call. -/
def incrementAgentRateLimit (agentId : Text) (now : Nat) : Proc IssueDir IssueError Nat := do
  call fails .countAgent
  let count ← Proc.read fun d => ((d.rateLimits.get (agentId, hourBucket now)).getD 0) + 1
  modify fun d => { d with rateLimits := d.rateLimits.insert (agentId, hourBucket now) count }
  pure count

def createByAgent (id : Uuid) (now : Nat) (title description : Text) (priority : IssuePriority) (labels : List Text)
    (agentId : Text) (source : AgentSource) (maxPerHour : Nat) (log : LogDir) :
    Proc IssueDir IssueError (Issue × Option Uuid) := do
  let count ← incrementAgentRateLimit fails agentId now
  if maxPerHour < count then
    -- the call does not count
    modify fun d => { d with rateLimits := d.rateLimits.insert (agentId, hourBucket now) (count - 1) }
    fail (.rateLimitExceeded agentId count maxPerHour)
  else
    call fails .findSimilar
    let possibleDuplicate ← Proc.read fun d => findSimilarOpenIssue unicode title d.rows
    let issue := Issue.new id now title description priority labels agentId (some source)
    insertRow fails issue.toRow
    append fails log (.issueCreated id title agentId priority.asStr)
    pure (issue, possibleDuplicate)

end Similar

def setAgentSource (id : Uuid) (source : Option AgentSource) : Proc IssueDir IssueError Unit :=
  updateRow fails id fun r => { r with agentSource := source }

def setAcceptanceCriteria (id : Uuid) (criteria : List Text) : Proc IssueDir IssueError Unit :=
  updateRow fails id fun r => { r with acceptanceCriteria := criteria }

/-! ## Updates -/

/-- The fields of `new` that differ from `old`. -/
def changedFields (old new : Issue) : List Text :=
  (if new.title ≠ old.title then ["title".toList] else []) ++
  (if new.description ≠ old.description then ["description".toList] else []) ++
  (if new.priority ≠ old.priority then ["priority".toList] else []) ++
  (if new.labels ≠ old.labels then ["labels".toList] else [])

/-- The fields as a caller gives them; what is not given stays. -/
def edited (title description : Option Text) (priority : Option IssuePriority) (labels : Option (List Text)) (i : Issue) :
    Issue :=
  { i with
    title := title.getD i.title
    description := description.getD i.description
    priority := priority.getD i.priority
    labels := labels.getD i.labels }

/-- The row with the fields of `new`. -/
def written (now : Nat) (new : Issue) (r : IssueRow) : IssueRow :=
  { r with
    title := new.title
    description := new.description
    priority := new.priority
    labels := joinLabels new.labels
    updatedAt := now }

def updateIssue (id : Uuid) (now : Nat) (title description : Option Text) (priority : Option IssuePriority)
    (labels : Option (List Text)) (log : LogDir) : Proc IssueDir IssueError Issue := do
  let existing ← get fails 1 id
  let new := edited title description priority labels existing
  updateRow fails id (written now new)
  if changedFields existing new ≠ [] then append fails log (.issueUpdated id (changedFields existing new))
  get fails 2 id

/-- One transition: from the statuses in `allowed`, with the workspace that it links, if any, and its event. -/
def transition (id : Uuid) (now : Nat) (allowed : IssueStatus → Bool) (after : IssueStatus)
    (resolution : Option Text → Option Text) (workspaceId : Option Uuid) (kind : EventKind) (log : LogDir) :
    Proc IssueDir IssueError Issue := do
  let existing ← get fails 1 id
  if allowed existing.status then
    updateRow fails id fun r => { r with status := after, resolution := resolution r.resolution, updatedAt := now }
    workspaceId.forM (linkWorkspace fails id)
    append fails log kind
    get fails 2 id
  else fail (.invalidTransition existing.status.asStr after.asStr)

def setInProgress (id workspaceId : Uuid) (now : Nat) (log : LogDir) : Proc IssueDir IssueError Issue :=
  transition fails id now isActive .inProgress (fun r => r) (some workspaceId) (.issueLinkedToWorkspace id workspaceId) log

def reopen (id : Uuid) (now : Nat) (log : LogDir) : Proc IssueDir IssueError Issue :=
  transition fails id now (· = .inProgress) .open (fun r => r) none (.issueUpdated id ["status".toList]) log

def resolve (id : Uuid) (now : Nat) (versionId : Option Text) (log : LogDir) : Proc IssueDir IssueError Issue :=
  transition fails id now isActive .resolved (fun _ => some "resolved".toList) none
    (.issueResolved id "resolved".toList versionId) log

/-- From any status. -/
def close (id : Uuid) (now : Nat) (resolution : Text) (log : LogDir) : Proc IssueDir IssueError Issue :=
  transition fails id now (fun _ => true) .closed (fun _ => some resolution) none (.issueClosed id resolution) log

/-! ## What the operations do -/

def noFault : IssueCall → Bool := fun _ => false

theorem within_call (c : IssueCall) : Within (call fails c) (call noFault c) := by
  unfold call
  cases fails c
  · exact within_refl _
  · exact within_fail _ _

theorem within_append (log : LogDir) (kind : EventKind) : Within (append fails log kind) (append noFault log kind) := by
  unfold append
  cases fails .append
  · exact within_refl _
  · exact within_fail _ _

theorem within_get (nth : Nat) (id : Uuid) : Within (get fails nth id) (get noFault nth id) :=
  (within_call fails _).bind fun _ => within_refl _

theorem within_insertRow (r : IssueRow) : Within (insertRow fails r) (insertRow noFault r) :=
  (within_call fails _).bind fun _ => within_refl _

theorem within_updateRow (id : Uuid) (f : IssueRow → IssueRow) : Within (updateRow fails id f) (updateRow noFault id f) :=
  (within_call fails _).bind fun _ => within_refl _

theorem within_linkWorkspace (id w : Uuid) : Within (linkWorkspace fails id w) (linkWorkspace noFault id w) :=
  (within_call fails _).bind fun _ => within_refl _

theorem within_create (id : Uuid) (now : Nat) (title description : Text) (priority : IssuePriority) (labels : List Text)
    (creator : Text) (log : LogDir) : Within (create fails id now title description priority labels creator log)
      (create noFault id now title description priority labels creator log) :=
  (within_insertRow fails _).bind fun _ => (within_append fails _ _).bind fun _ => within_refl _

theorem within_createByAgent (unicode : Unicode) (id : Uuid) (now : Nat) (title description : Text)
    (priority : IssuePriority) (labels : List Text) (agentId : Text) (source : AgentSource) (maxPerHour : Nat)
    (log : LogDir) :
    Within (createByAgent fails unicode id now title description priority labels agentId source maxPerHour log)
      (createByAgent noFault unicode id now title description priority labels agentId source maxPerHour log) := by
  have hcount : Within (incrementAgentRateLimit fails agentId now) (incrementAgentRateLimit noFault agentId now) :=
    (within_call fails _).bind fun _ => within_refl _
  refine hcount.bind fun count => within_ite (within_refl _) ?_
  refine (within_call fails _).bind fun _ => (within_refl _).bind fun _ => ?_
  exact (within_insertRow fails _).bind fun _ => (within_append fails _ _).bind fun _ => within_refl _

theorem within_transition (id : Uuid) (now : Nat) (allowed : IssueStatus → Bool) (after : IssueStatus)
    (resolution : Option Text → Option Text) (workspaceId : Option Uuid) (kind : EventKind) (log : LogDir) :
    Within (transition fails id now allowed after resolution workspaceId kind log)
      (transition noFault id now allowed after resolution workspaceId kind log) := by
  have hlink : Within (workspaceId.forM (linkWorkspace fails id)) (workspaceId.forM (linkWorkspace noFault id)) := by
    cases workspaceId with
    | none => exact within_refl _
    | some w => exact within_linkWorkspace fails id w
  refine (within_get fails _ _).bind fun existing => within_ite ?_ (within_refl _)
  refine (within_updateRow fails _ _).bind fun _ => hlink.bind fun _ => (within_append fails _ _).bind fun _ => ?_
  exact within_get fails _ _

theorem within_updateIssue (id : Uuid) (now : Nat) (title description : Option Text) (priority : Option IssuePriority)
    (labels : Option (List Text)) (log : LogDir) : Within (updateIssue fails id now title description priority labels log)
      (updateIssue noFault id now title description priority labels log) := by
  refine (within_get fails _ _).bind fun existing => (within_updateRow fails _ _).bind fun _ => ?_
  exact within_ite ((within_append fails _ _).bind fun _ => within_get fails _ _) (within_get fails _ _)

section NoFault

variable {id : Uuid} {d : IssueDir}

theorem get_noFault (nth : Nat) (id : Uuid) (d : IssueDir) :
    get noFault nth id d = (((row IssueRow.id id d.rows).map IssueRow.toIssue).elim (.error (.notFound id)) .ok, d) := by
  have h : get noFault nth id d = (match row IssueRow.id id d.rows with
      | some r => (pure r.toIssue : Proc IssueDir IssueError Issue)
      | none => fail (.notFound id)) d := rfl
  rw [h]
  cases row IssueRow.id id d.rows <;> rfl

theorem insertRow_noFault {r : IssueRow} (hfresh : row IssueRow.id r.id d.rows = none) :
    insertRow noFault r d = (.ok (), { d with rows := d.rows ++ [r] }) := by
  have hnone : d.rows.any (fun r' => r'.id = r.id) = false := by
    simpa using row_eq_none.1 hfresh
  have h : insertRow noFault r d = (if d.rows.any (fun r' => r'.id = r.id) then
      (fail .sqlite : Proc IssueDir IssueError Unit) else modify fun d => { d with rows := d.rows ++ [r] }) d := rfl
  rw [h, hnone]
  rfl

theorem insertRow_taken {r : IssueRow} (r' : IssueRow) (htaken : row IssueRow.id r.id d.rows = some r') :
    insertRow noFault r d = (.error .sqlite, d) := by
  have hsome : d.rows.any (fun r' => r'.id = r.id) = true := by
    simpa using ⟨r', mem_of_row htaken, key_of_row htaken⟩
  have h : insertRow noFault r d = (if d.rows.any (fun r' => r'.id = r.id) then
      (fail .sqlite : Proc IssueDir IssueError Unit) else modify fun d => { d with rows := d.rows ++ [r] }) d := rfl
  rw [h, hsome]
  rfl

theorem create_noFault {now : Nat} {title description : Text} {priority : IssuePriority} {labels : List Text}
    {creator : Text} {log : LogDir} (hfresh : row IssueRow.id id d.rows = none) :
    create noFault id now title description priority labels creator log d =
      (.ok (Issue.new id now title description priority labels creator none),
        logged log (.issueCreated id title creator priority.asStr)
          { d with rows := d.rows ++ [(Issue.new id now title description priority labels creator none).toRow] }) :=
  bind_of_ok (insertRow_noFault (r := (Issue.new id now title description priority labels creator none).toRow) hfresh) _

theorem fresh_of_create {now : Nat} {title description : Text} {priority : IssuePriority} {labels : List Text}
    {creator : Text} {log : LogDir} {issue : Issue} {d' : IssueDir}
    (h : create noFault id now title description priority labels creator log d = (.ok issue, d')) :
    row IssueRow.id id d.rows = none := by
  cases hrow : row IssueRow.id id d.rows with
  | none => rfl
  | some r =>
    have htaken := insertRow_taken (r := (Issue.new id now title description priority labels creator none).toRow) r hrow
    obtain ⟨_, _, hinsert, -⟩ := bind_eq_ok.1 h
    rw [htaken] at hinsert
    cases hinsert

theorem createByAgent_ok {unicode : Unicode} {now : Nat} {title description : Text} {priority : IssuePriority}
    {labels : List Text} {agentId : Text} {source : AgentSource} {maxPerHour : Nat} {log : LogDir}
    {r : Issue × Option Uuid} {d' : IssueDir}
    (h : createByAgent noFault unicode id now title description priority labels agentId source maxPerHour log d =
      (.ok r, d')) :
    row IssueRow.id id d.rows = none ∧ ∃ limits, d' =
      logged log (.issueCreated id title agentId priority.asStr)
        { d with
          rows := d.rows ++ [(Issue.new id now title description priority labels agentId (some source)).toRow]
          rateLimits := limits } := by
  obtain ⟨count, d₁, hcount, h⟩ := bind_eq_ok.1 h
  cases hcount
  split at h
  · obtain ⟨_, _, _, h⟩ := bind_eq_ok.1 h
    cases h
  · obtain ⟨_, d₂, hsimilar, h⟩ := bind_eq_ok.1 h
    cases hsimilar
    obtain ⟨_, d₃, hread, h⟩ := bind_eq_ok.1 h
    cases hread
    obtain ⟨_, d₄, hinsert, h⟩ := bind_eq_ok.1 h
    cases hrow : row IssueRow.id id d.rows with
    | none =>
      rw [insertRow_noFault (by exact hrow)] at hinsert
      cases hinsert
      cases h
      exact ⟨rfl, _, rfl⟩
    | some r' =>
      rw [insertRow_taken r' (by exact hrow)] at hinsert
      cases hinsert

/-- The row after an update of its fields. -/
def rewritten (now : Nat) (title description : Option Text) (priority : Option IssuePriority) (labels : Option (List Text))
    (r : IssueRow) : IssueRow := written now (edited title description priority labels r.toIssue) r

theorem updateIssue_noFault {now : Nat} {title description : Option Text} {priority : Option IssuePriority}
    {labels : Option (List Text)} {log : LogDir} {r : IssueRow} (hrow : row IssueRow.id id d.rows = some r) :
    updateIssue noFault id now title description priority labels log d =
      (.ok (rewritten now title description priority labels r).toIssue,
        if changedFields r.toIssue (edited title description priority labels r.toIssue) = [] then
          { d with rows := update IssueRow.id id (written now (edited title description priority labels r.toIssue)) d.rows }
        else
          logged log (.issueUpdated id (changedFields r.toIssue (edited title description priority labels r.toIssue)))
            { d with rows := update IssueRow.id id (written now (edited title description priority labels r.toIssue)) d.rows }) := by
  have hget : get noFault 1 id d = (.ok r.toIssue, d) := by
    rw [get_noFault, hrow]
    rfl
  have hagain : row IssueRow.id id
      (update IssueRow.id id (written now (edited title description priority labels r.toIssue)) d.rows) =
      some (rewritten now title description priority labels r) := by
    rw [row_update (f := written now (edited title description priority labels r.toIssue)) (fun _ => rfl), if_pos rfl, hrow]
    rfl
  have hlast : ∀ d' : IssueDir,
      d'.rows = update IssueRow.id id (written now (edited title description priority labels r.toIssue)) d.rows →
      get noFault 2 id d' = (.ok (rewritten now title description priority labels r).toIssue, d') := by
    intro d' hd'
    rw [get_noFault, hd', hagain]
    rfl
  unfold updateIssue
  rw [bind_of_ok hget]
  by_cases hchanged : changedFields r.toIssue (edited title description priority labels r.toIssue) = []
  · rw [if_pos hchanged, if_neg (by simp [hchanged])]
    exact hlast _ rfl
  · rw [if_neg hchanged, if_pos hchanged]
    refine (hlast (logged log _ _) ?_)
    cases log <;> rfl

theorem updateIssue_missing {now : Nat} {title description : Option Text} {priority : Option IssuePriority}
    {labels : Option (List Text)} {log : LogDir} (hrow : row IssueRow.id id d.rows = none) :
    updateIssue noFault id now title description priority labels log d = (.error (.notFound id), d) := by
  have hget : get noFault 1 id d = (.error (.notFound id), d) := by
    rw [get_noFault, hrow]
    rfl
  unfold updateIssue
  rw [bind_apply, hget]

/-- What a transition makes of the row. -/
def moved (now : Nat) (after : IssueStatus) (resolution : Option Text → Option Text) (r : IssueRow) : IssueRow :=
  { r with status := after, resolution := resolution r.resolution, updatedAt := now }

section Transition

variable {now : Nat} {allowed : IssueStatus → Bool} {after : IssueStatus} {resolution : Option Text → Option Text}
  {workspaceId : Option Uuid} {kind : EventKind} {log : LogDir}

theorem transition_noFault {r : IssueRow} (hrow : row IssueRow.id id d.rows = some r) (hallowed : allowed r.status = true) :
    transition noFault id now allowed after resolution workspaceId kind log d =
      (.ok (moved now after resolution r).toIssue,
        logged log kind { d with
          rows := update IssueRow.id id (moved now after resolution) d.rows
          workspaceLinks := workspaceId.elim d.workspaceLinks (fun w => d.workspaceLinks.insert (id, w)) }) := by
  have hagain : row IssueRow.id id (update IssueRow.id id (moved now after resolution) d.rows) =
      some (moved now after resolution r) := by
    rw [row_update (f := moved now after resolution) (fun _ => rfl), if_pos rfl, hrow]
    rfl
  have hget : get noFault 1 id d = (.ok r.toIssue, d) := by
    rw [get_noFault, hrow]
    rfl
  have hlast : ∀ d' : IssueDir, d'.rows = update IssueRow.id id (moved now after resolution) d.rows →
      get noFault 2 id d' = (.ok (moved now after resolution r).toIssue, d') := by
    intro d' hd'
    rw [get_noFault, hd', hagain]
    rfl
  have hmiddle : transition noFault id now allowed after resolution workspaceId kind log d =
      get noFault 2 id (logged log kind { d with
          rows := update IssueRow.id id (moved now after resolution) d.rows
          workspaceLinks := workspaceId.elim d.workspaceLinks (fun w => d.workspaceLinks.insert (id, w)) }) := by
    unfold transition
    rw [bind_of_ok hget]
    have hstatus : allowed r.toIssue.status = true := hallowed
    rw [if_pos hstatus]
    cases workspaceId <;> rfl
  rw [hmiddle, hlast]
  cases log <;> rfl

theorem transition_refused {r : IssueRow} (hrow : row IssueRow.id id d.rows = some r) (hallowed : allowed r.status = false) :
    transition noFault id now allowed after resolution workspaceId kind log d =
      (.error (.invalidTransition r.status.asStr after.asStr), d) := by
  have hget : get noFault 1 id d = (.ok r.toIssue, d) := by
    rw [get_noFault, hrow]
    rfl
  unfold transition
  rw [bind_of_ok hget]
  have hstatus : allowed r.toIssue.status = false := hallowed
  rw [if_neg (by simp [hstatus])]
  rfl

theorem transition_missing (hrow : row IssueRow.id id d.rows = none) :
    transition noFault id now allowed after resolution workspaceId kind log d = (.error (.notFound id), d) := by
  have hget : get noFault 1 id d = (.error (.notFound id), d) := by
    rw [get_noFault, hrow]
    rfl
  unfold transition
  rw [bind_apply, hget]

theorem transition_ok {issue : Issue} {d' : IssueDir}
    (h : transition noFault id now allowed after resolution workspaceId kind log d = (.ok issue, d')) :
    ∃ r, row IssueRow.id id d.rows = some r ∧ allowed r.status = true ∧ issue = (moved now after resolution r).toIssue ∧
      d' = logged log kind { d with
        rows := update IssueRow.id id (moved now after resolution) d.rows
        workspaceLinks := workspaceId.elim d.workspaceLinks (fun w => d.workspaceLinks.insert (id, w)) } := by
  cases hrow : row IssueRow.id id d.rows with
  | none =>
    rw [transition_missing hrow] at h
    cases h
  | some r =>
    cases hallowed : allowed r.status with
    | false =>
      rw [transition_refused hrow hallowed] at h
      cases h
    | true =>
      rw [transition_noFault hrow hallowed] at h
      cases h
      exact ⟨r, rfl, hallowed, rfl, rfl⟩

end Transition
end NoFault

end IssueDir
end Vai
