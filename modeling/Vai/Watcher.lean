import Vai.Limiter
import Vai.IssueStorage
/-!
# Watcher — discoveries and the issues they become (`watcher/mod.rs`, `storage/postgres/watcher.rs`)

A watcher submits what it has discovered.  A paused watcher is turned away, and one over its hourly limit; a discovery
whose key an earlier one has made an issue of is recorded as a duplicate; any other becomes an issue where the policy of
the watcher has it so.  `submitDiscovery` does all of it on a local repository; the server prepares a discovery, creates the
issue through the storage and records the outcome (`submitDiscoveryHandler`), on both backends.

The clock is a parameter, by the number of the reading: every reading of a procedure is one of its own.  So are the JSON
texts of an event, and `{:.2}`.  Ids are given with each call.  A step fails where `fails` has it so, without effect.
-/
namespace Vai

open Proc
open IssueDir (Unicode hourBucket)

/-- Policy controlling whether and how discoveries auto-create issues. -/
structure IssueCreationPolicy where
  autoCreate : Bool
  maxPerHour : Nat
  requireApprovalAbove : Option Text
deriving DecidableEq, Repr

namespace IssueCreationPolicy

def default : IssueCreationPolicy := ⟨false, 5, some "medium".toList⟩

def priorityRank (s : Text) : Nat :=
  if s = "low".toList then 0
  else if s = "medium".toList then 1
  else if s = "high".toList then 2
  else if s = "critical".toList then 3
  else 1

def shouldAutoCreate (policy : IssueCreationPolicy) (priority : IssuePriority) : Bool :=
  policy.autoCreate && policy.requireApprovalAbove.all fun threshold =>
    priorityRank priority.asStr ≤ priorityRank threshold

end IssueCreationPolicy

inductive WatcherStatus where
  | active | paused
deriving DecidableEq, Repr

structure Watcher where
  agentId : Text
  issueCreationPolicy : IssueCreationPolicy
  status : WatcherStatus
  lastDiscoveryAt : Option Nat
  discoveryCount : Nat
deriving DecidableEq, Repr

inductive DiscoveryEventKind where
  | testFailureDiscovered (suite testName failureOutput : Text) (version : Option Text)
  | securityVulnerabilityDiscovered (source severity : Text) (affectedEntities : List Text)
  | codeQualityIssueDiscovered (rule entity description : Text)
  | performanceRegressionDiscovered (metric : Text) (baseline current : Float) (version : Option Text)
  | dependencyUpdateAvailable (package currentVersion availableVersion : Text)

/-- What the program takes from outside: the clock (in nanoseconds), case and classes of characters, and the texts of an
event. -/
structure WatcherEnv where
  clock : Nat → Nat
  unicode : Unicode
  json : DiscoveryEventKind → Text
  pretty : DiscoveryEventKind → Text
  /-- `{:.2}`. -/
  fixed2 : Float → Text

namespace DiscoveryEventKind

def eventType : DiscoveryEventKind → Text
  | testFailureDiscovered _ _ _ _ => "test_failure".toList
  | securityVulnerabilityDiscovered _ _ _ => "security_vulnerability".toList
  | codeQualityIssueDiscovered _ _ _ => "code_quality".toList
  | performanceRegressionDiscovered _ _ _ _ => "performance_regression".toList
  | dependencyUpdateAvailable _ _ _ => "dependency_update".toList

def defaultTitle (env : WatcherEnv) : DiscoveryEventKind → Text
  | testFailureDiscovered suite testName _ _ => "Test failure: ".toList ++ suite ++ '/' :: testName
  | securityVulnerabilityDiscovered source severity _ =>
    "Security vulnerability (".toList ++ severity ++ ") from ".toList ++ source
  | codeQualityIssueDiscovered rule entity _ => "Code quality: ".toList ++ rule ++ " in ".toList ++ entity
  | performanceRegressionDiscovered metric baseline current _ =>
    "Performance regression: ".toList ++ metric ++ " (".toList ++ env.fixed2 baseline ++ " → ".toList ++
      env.fixed2 current ++ ")".toList
  | dependencyUpdateAvailable package _ availableVersion =>
    "Dependency update available: ".toList ++ package ++ " → ".toList ++ availableVersion

def severityPriority (severity : Text) : IssuePriority :=
  if severity = "critical".toList then .critical
  else if severity = "high".toList then .high
  else if severity = "low".toList then .low
  else .medium

def regressionPriority (baseline current : Float) : IssuePriority :=
  if baseline > 0.0 then
    if (current - baseline).abs / baseline > 0.5 then .high
    else if (current - baseline).abs / baseline > 0.2 then .medium
    else .low
  else .medium

def defaultPriority (env : WatcherEnv) : DiscoveryEventKind → IssuePriority
  | securityVulnerabilityDiscovered _ severity _ => severityPriority (env.unicode.toLowercase severity)
  | performanceRegressionDiscovered _ baseline current _ => regressionPriority baseline current
  | testFailureDiscovered _ _ _ _ => .medium
  | codeQualityIssueDiscovered _ _ _ => .low
  | dependencyUpdateAvailable _ _ _ => .low

/-- Two events with the same key, of the same watcher, describe the same ongoing problem. -/
def dedupKey : DiscoveryEventKind → Text
  | testFailureDiscovered suite testName _ _ => "test_failure::".toList ++ suite ++ "::".toList ++ testName
  | securityVulnerabilityDiscovered source _ _ => "security::".toList ++ source
  | codeQualityIssueDiscovered rule entity _ => "quality::".toList ++ rule ++ "::".toList ++ entity
  | performanceRegressionDiscovered metric _ _ _ => "perf::".toList ++ metric
  | dependencyUpdateAvailable package _ _ => "dep::".toList ++ package

end DiscoveryEventKind

/-- A row of `discovery_records`. -/
structure DiscoveryRow where
  id : Uuid
  agentId : Text
  eventType : Text
  eventJson : Text
  dedupKey : Text
  receivedAt : Nat
  createdIssueId : Option Uuid
  suppressed : Bool
deriving DecidableEq, Repr

structure DiscoveryRecord where
  id : Uuid
  agentId : Text
  event : DiscoveryEventKind
  receivedAt : Nat
  createdIssueId : Option Uuid
  suppressed : Bool

structure DiscoveryOutcome where
  record : DiscoveryRecord
  issueId : Option Uuid
  /-- Suppressed because a similar open issue already exists. -/
  suppressed : Bool
  message : Text

structure DiscoveryPreparation where
  recordId : Uuid
  dedupKey : Text
  receivedAt : Nat
  /-- If some, the event is a duplicate: the existing open issue. -/
  suppressedWithIssueId : Option Uuid
  shouldCreateIssue : Bool
  priority : IssuePriority

inductive WatcherError where
  | sqlite
  | issue (e : IssueError)
  | notFound (what : Text)
  | alreadyExists (agentId : Text)
  | rateLimitExceeded (agentId : Text) (count max : Nat)
deriving DecidableEq, Repr

def WatcherError.toText : WatcherError → Text
  | .sqlite => "SQLite error: ".toList
  | .issue e => "Issue error: ".toList ++ e.toText
  | .notFound what => "Watcher not found: ".toList ++ what
  | .alreadyExists agentId => "Watcher already registered: ".toList ++ agentId
  | .rateLimitExceeded agentId count max' =>
    "Rate limit exceeded: watcher ".toList ++ agentId ++ " has submitted ".toList ++ Text.ofNat count ++
      " discoveries this hour (max ".toList ++ Text.ofNat max' ++ ")".toList

/-! ## The store -/

/-- The tables of one repository. -/
structure WatcherDb where
  watchers : FMap Text Watcher
  /-- `watcher_rate_limits`, by agent and hour. -/
  rateLimits : FMap (Text × Nat) Nat
  discoveries : List DiscoveryRow

def WatcherDb.empty : WatcherDb := ⟨∅, ∅, []⟩

/-- The tables of the watchers, the repository, and how often the clock has been read. -/
structure Watching (σ : Type) where
  db : WatcherDb
  repo : σ
  readings : Nat

inductive WatcherCall where
  | get
  | limit (c : LimitCall)
  | agentLimit (c : LimitCall)
  | find
  | insert
  | stats
  | register
  | setStatus
  | issue (c : IssueCall)
deriving DecidableEq, Repr

namespace Watching

variable {σ : Type} (env : WatcherEnv)

/-- `watcher_rate_limits`. -/
def limiter : Limiter (Watching σ) Text where
  counters s := s.db.rateLimits
  setCounters m s := { s with db := { s.db with rateLimits := m } }
  bucket s := hourBucket (env.clock s.readings)
  tick s := { s with readings := s.readings + 1 }
  counters_set _ _ := rfl
  bucket_set _ _ := rfl
  counters_tick _ := rfl

/-- `agent_rate_limits`. -/
def agentLimiter : Limiter (Watching LocalRepo) Text where
  counters s := s.repo.issues.rateLimits
  setCounters m s := { s with repo := { s.repo with issues := { s.repo.issues with rateLimits := m } } }
  bucket s := hourBucket (env.clock s.readings)
  tick s := { s with readings := s.readings + 1 }
  counters_set _ _ := rfl
  bucket_set _ _ := rfl
  counters_tick _ := rfl

/-- `Utc::now`. -/
def now {ε : Type} : Proc (Watching σ) ε Nat := fun s => (.ok (env.clock s.readings), { s with readings := s.readings + 1 })

/-- A call on the repository. -/
def onRepo {ε α : Type} (m : Proc σ ε α) : Proc (Watching σ) ε α := fun s =>
  ((m s.repo).1, { s with repo := (m s.repo).2 })

/-- A call on the issues of a local repository. -/
def onIssues {ε α : Type} (m : Proc IssueDir ε α) : Proc (Watching LocalRepo) ε α := fun s =>
  ((m s.repo.issues).1, { s with repo := { s.repo with issues := (m s.repo.issues).2 } })

end Watching

open Watching

/-- The issue of the newest row of the key that is not suppressed and has one. -/
def activeDiscovery (order : Sorting.RowOrder DiscoveryRow) (dedupKey agentId : Text) (rows : List DiscoveryRow) :
    Option Uuid :=
  (order.orderBy (fun a b => b.receivedAt ≤ a.receivedAt) (rows.filter fun r =>
    r.agentId = agentId && r.dedupKey = dedupKey && !r.suppressed && r.createdIssueId.isSome)).head?.bind
      DiscoveryRow.createdIssueId

/-- The row of `agent_id` after one more discovery. -/
def counted (receivedAt : Nat) (w : Watcher) : Watcher :=
  { w with lastDiscoveryAt := some receivedAt, discoveryCount := w.discoveryCount + 1 }

/-- Why a paused watcher is turned away. -/
def pausedMessage (agentId : Text) : Text := agentId ++ " is paused — resume before submitting discoveries".toList

def issueDescription (env : WatcherEnv) (agentId : Text) (event : DiscoveryEventKind) : Text :=
  "Automatically created by watcher `".toList ++ agentId ++ "`.\n\n**Event type:** ".toList ++ event.eventType ++
    "\n\n**Details:**\n```json\n".toList ++ env.pretty event ++ "\n```".toList

def duplicateMessage (issueId : Uuid) : Text :=
  "Suppressed duplicate: issue ".toList ++ Text.ofNat issueId ++ " already tracks this problem".toList

def createdMessage (issueId : Uuid) : Text := "Discovery recorded; issue ".toList ++ Text.ofNat issueId ++ " created".toList

def uncreatedMessage : Text := "Discovery recorded; auto-create disabled by policy".toList

namespace WatcherStore

variable {σ : Type} (env : WatcherEnv) (fails : WatcherCall → Bool) (order : Sorting.RowOrder DiscoveryRow)

def call (c : WatcherCall) : Proc (Watching σ) WatcherError Unit := if fails c then fail .sqlite else pure ()

def register (watcher : Watcher) : Proc (Watching σ) WatcherError Unit := do
  call fails .register
  if ← Proc.read (fun s => (s.db.watchers.get watcher.agentId).isSome) then fail (.alreadyExists watcher.agentId)
  else modify fun s => { s with db := { s.db with watchers := s.db.watchers.insert watcher.agentId watcher } }

def get (agentId : Text) : Proc (Watching σ) WatcherError Watcher := do
  call fails .get
  match ← Proc.read (fun s => s.db.watchers.get agentId) with
  | some w => pure w
  | none => fail (.notFound agentId)

def setStatus (agentId : Text) (status : WatcherStatus) : Proc (Watching σ) WatcherError Unit := do
  call fails .setStatus
  match ← Proc.read (fun s => s.db.watchers.get agentId) with
  | some w => modify fun s => { s with db := { s.db with watchers := s.db.watchers.insert agentId { w with status := status } } }
  | none => fail (.notFound agentId)

def pause (agentId : Text) : Proc (Watching σ) WatcherError Unit := setStatus fails agentId .paused

def resume (agentId : Text) : Proc (Watching σ) WatcherError Unit := setStatus fails agentId .active

def findActiveDiscovery (dedupKey agentId : Text) : Proc (Watching σ) WatcherError (Option Uuid) := do
  call fails .find
  Proc.read fun s => activeDiscovery order dedupKey agentId s.db.discoveries

/-- `increment_rate_limit`, and `decrement_rate_limit` over the maximum. -/
def checkRate (watcher : Watcher) (agentId : Text) : Proc (Watching σ) WatcherError Unit :=
  (limiter env).check (fun c => fails (.limit c)) .sqlite true agentId watcher.issueCreationPolicy.maxPerHour
    fun count => .rateLimitExceeded agentId count watcher.issueCreationPolicy.maxPerHour

/-- Steps 1 and 2 of a submission: the watcher is active, and below its limit. -/
def checked (agentId : Text) : Proc (Watching σ) WatcherError Watcher := do
  let watcher ← get fails agentId
  if watcher.status = .paused then fail (.notFound (pausedMessage agentId))
  else
    checkRate env fails watcher agentId
    pure watcher

/-- Step 3, and what the policy says. -/
def weighed (recordId : Uuid) (agentId : Text) (event : DiscoveryEventKind) (watcher : Watcher) :
    Proc (Watching σ) WatcherError DiscoveryPreparation := do
  let receivedAt ← now env
  let existing ← findActiveDiscovery fails order event.dedupKey agentId
  pure ⟨recordId, event.dedupKey, receivedAt, existing,
    watcher.issueCreationPolicy.shouldAutoCreate (event.defaultPriority env), event.defaultPriority env⟩

def prepareDiscovery (recordId : Uuid) (agentId : Text) (event : DiscoveryEventKind) :
    Proc (Watching σ) WatcherError DiscoveryPreparation := do
  let watcher ← checked env fails agentId
  weighed env fails order recordId agentId event watcher

/-- `INSERT INTO discovery_records`; the primary key is fresh, or it fails. -/
def insertDiscovery (r : DiscoveryRow) : Proc (Watching σ) WatcherError Unit := do
  call fails .insert
  if ← Proc.read (fun s => s.db.discoveries.any (fun r' => r'.id = r.id)) then fail .sqlite
  else modify fun s => { s with db := { s.db with discoveries := s.db.discoveries ++ [r] } }

def updateWatcherStats (agentId : Text) (receivedAt : Nat) : Proc (Watching σ) WatcherError Unit := do
  call fails .stats
  modify fun s => { s with db := { s.db with
    watchers := s.db.watchers.put agentId ((s.db.watchers.get agentId).map (counted receivedAt)) } }

def recordDiscovery (agentId : Text) (event : DiscoveryEventKind) (recordId : Uuid) (dedupKey : Text) (receivedAt : Nat)
    (createdIssueId : Option Uuid) (suppressed : Bool) : Proc (Watching σ) WatcherError DiscoveryRecord := do
  insertDiscovery fails ⟨recordId, agentId, event.eventType, env.json event, dedupKey, receivedAt, createdIssueId, suppressed⟩
  updateWatcherStats fails agentId receivedAt
  pure ⟨recordId, agentId, event, receivedAt, createdIssueId, suppressed⟩

/-- `IssueStore::create_by_agent`, once the agent is below its limit. -/
def insertByAgent (id : Uuid) (title description : Text) (priority : IssuePriority) (labels : List Text) (agentId : Text)
    (source : AgentSource) (log : LogDir) : Proc (Watching LocalRepo) IssueError (Issue × Option Uuid) := do
  onIssues (IssueDir.call (fun c => fails (.issue c)) .findSimilar)
  let possibleDuplicate ← Proc.read fun s => IssueDir.findSimilarOpenIssue env.unicode title s.repo.issues.rows
  let created ← now env
  let issue := Issue.new id created title description priority labels agentId (some source)
  onIssues (IssueDir.insertRow (fun c => fails (.issue c)) issue.toRow)
  onIssues (IssueDir.append (fun c => fails (.issue c)) log (.issueCreated id title agentId priority.asStr))
  pure (issue, possibleDuplicate)

/-- `IssueStore::create_by_agent`, with each of its readings of the clock. -/
def createByAgent (id : Uuid) (title description : Text) (priority : IssuePriority) (labels : List Text) (agentId : Text)
    (source : AgentSource) (maxPerHour : Nat) (log : LogDir) :
    Proc (Watching LocalRepo) IssueError (Issue × Option Uuid) := do
  (agentLimiter env).check (fun c => fails (.agentLimit c)) .sqlite true agentId maxPerHour
    fun count => .rateLimitExceeded agentId count maxPerHour
  insertByAgent env fails id title description priority labels agentId source log

/-- The call of `create_by_agent` for a discovery. -/
def createFor (issueId : Uuid) (agentId : Text) (event : DiscoveryEventKind) (maxPerHour : Nat) (log : LogDir) :
    Proc (Watching LocalRepo) IssueError (Issue × Option Uuid) :=
  createByAgent env fails issueId (event.defaultTitle env) (issueDescription env agentId event) (event.defaultPriority env)
    [event.eventType, "watcher".toList] agentId ⟨event.eventType, env.json event⟩ maxPerHour log

/-- An agent over its limit gets no issue. -/
def ofCreated : Except IssueError (Issue × Option Uuid) → Proc (Watching LocalRepo) WatcherError (Option Uuid)
  | .ok created => pure (some created.1.id)
  | .error (.rateLimitExceeded _ _ _) => pure none
  | .error e => fail (.issue e)

/-- Step 4: the issue, where the policy has one created and the agent is below its own limit. -/
def autoCreate (issueId : Uuid) (agentId : Text) (event : DiscoveryEventKind) (prep : DiscoveryPreparation)
    (maxPerHour : Nat) (log : LogDir) : Proc (Watching LocalRepo) WatcherError (Option Uuid) := do
  if prep.shouldCreateIssue then
    let r ← mapErr .issue (attempt (createFor env fails issueId agentId event maxPerHour log))
    ofCreated r
  else pure none

/-- What is said of a discovery that is no duplicate. -/
def recordedMessage (createdIssueId : Option Uuid) (shouldCreate : Bool) : Text :=
  match createdIssueId with
  | some id => createdMessage id
  | none => if shouldCreate then "Discovery recorded; issue creation rate-limited".toList else uncreatedMessage

/-- The rest of a submission: a duplicate is recorded, and anything else becomes an issue. -/
def settled (recordId issueId : Uuid) (agentId : Text) (event : DiscoveryEventKind) (log : LogDir) (watcher : Watcher)
    (prep : DiscoveryPreparation) : Proc (Watching LocalRepo) WatcherError DiscoveryOutcome := do
  match prep.suppressedWithIssueId with
  | some existing =>
    let record ← recordDiscovery env fails agentId event recordId prep.dedupKey prep.receivedAt (some existing) true
    pure ⟨record, none, true, duplicateMessage existing⟩
  | none =>
    let created ← autoCreate env fails issueId agentId event prep watcher.issueCreationPolicy.maxPerHour log
    let record ← recordDiscovery env fails agentId event recordId prep.dedupKey prep.receivedAt created false
    pure ⟨record, created, false, recordedMessage created prep.shouldCreateIssue⟩

/-- `submit_discovery`, which begins like `prepare_discovery`. -/
def submitDiscovery (recordId issueId : Uuid) (agentId : Text) (event : DiscoveryEventKind) (log : LogDir) :
    Proc (Watching LocalRepo) WatcherError DiscoveryOutcome := do
  let watcher ← checked env fails agentId
  let prep ← weighed env fails order recordId agentId event watcher
  settled env fails recordId issueId agentId event log watcher prep

end WatcherStore

/-! ## The storage traits -/

/-- The methods of `WatcherStore` in `storage/mod.rs` that a submission calls. -/
structure WatcherStorage (σ : Type) where
  prepareDiscovery : Uuid → Text → DiscoveryEventKind → Proc (Watching σ) StorageError DiscoveryPreparation
  recordDiscovery : Text → DiscoveryEventKind → Uuid → Text → Nat → Option Uuid → Bool →
    Proc (Watching σ) StorageError DiscoveryRecord

def watcherNotFound (agentId : Text) : Text := "watcher '".toList ++ agentId ++ "' not found".toList

variable {σ : Type} (env : WatcherEnv) (fails : WatcherCall → Bool) (order : Sorting.RowOrder DiscoveryRow)

namespace Sqlite

/-- The errors of a preparation. -/
def watcherError : WatcherError → StorageError
  | .notFound id => .notFound (watcherNotFound id)
  | e@(.rateLimitExceeded _ _ _) => .rateLimitExceeded e.toText
  | e => .database e.toText

def watchers : WatcherStorage σ where
  prepareDiscovery recordId agentId event :=
    mapErr watcherError (WatcherStore.prepareDiscovery env fails order recordId agentId event)
  recordDiscovery agentId event recordId dedupKey receivedAt createdIssueId suppressed :=
    mapErr (fun e => .database e.toText)
      (WatcherStore.recordDiscovery env fails agentId event recordId dedupKey receivedAt createdIssueId suppressed)

end Sqlite

namespace Postgres

def watcherQuery (c : WatcherCall) : Proc (Watching σ) StorageError Unit :=
  if fails c then fail (.database []) else pure ()

def getWatcher (agentId : Text) : Proc (Watching σ) StorageError Watcher := do
  watcherQuery fails .get
  match ← Proc.read (fun s => s.db.watchers.get agentId) with
  | some w => pure w
  | none => fail (.notFound (watcherNotFound agentId))

def limitMessage (agentId : Text) (count max : Nat) : Text :=
  "watcher ".toList ++ agentId ++ " has submitted ".toList ++ Text.ofNat count ++ " discoveries this hour (max ".toList ++
    Text.ofNat max ++ ")".toList

/-- Steps 1 and 2: what is rolled back is the counter of the bucket that was raised. -/
def checkedWatcher (agentId : Text) : Proc (Watching σ) StorageError Watcher := do
  let watcher ← getWatcher fails agentId
  if watcher.status = .paused then fail (.notFound (pausedMessage agentId))
  else
    (limiter env).check (fun c => fails (.limit c)) (.database []) false agentId watcher.issueCreationPolicy.maxPerHour
      fun count => .rateLimitExceeded (limitMessage agentId count watcher.issueCreationPolicy.maxPerHour)
    pure watcher

def prepareDiscovery (recordId : Uuid) (agentId : Text) (event : DiscoveryEventKind) :
    Proc (Watching σ) StorageError DiscoveryPreparation := do
  let watcher ← checkedWatcher env fails agentId
  watcherQuery fails .find
  let existing ← Proc.read fun s => activeDiscovery order event.dedupKey agentId s.db.discoveries
  let receivedAt ← now env
  pure ⟨recordId, event.dedupKey, receivedAt, existing,
    watcher.issueCreationPolicy.shouldAutoCreate (event.defaultPriority env), event.defaultPriority env⟩

def recordDiscovery (agentId : Text) (event : DiscoveryEventKind) (recordId : Uuid) (dedupKey : Text) (receivedAt : Nat)
    (createdIssueId : Option Uuid) (suppressed : Bool) : Proc (Watching σ) StorageError DiscoveryRecord := do
  watcherQuery fails .insert
  if ← Proc.read (fun s => s.db.discoveries.any (fun r => r.id = recordId)) then fail (.database [])
  else
    modify fun s => { s with db := { s.db with discoveries := s.db.discoveries ++
      [⟨recordId, agentId, event.eventType, env.json event, dedupKey, receivedAt, createdIssueId, suppressed⟩] } }
    watcherQuery fails .stats
    modify fun s => { s with db := { s.db with
      watchers := s.db.watchers.put agentId ((s.db.watchers.get agentId).map (counted receivedAt)) } }
    pure ⟨recordId, agentId, event, receivedAt, createdIssueId, suppressed⟩

def watchers : WatcherStorage σ where
  prepareDiscovery := prepareDiscovery env fails order
  recordDiscovery := recordDiscovery env fails

end Postgres

/-! ## `POST /api/discoveries` -/

structure DiscoveryOutcomeResponse where
  status : Nat
  recordId : Uuid
  agentId : Text
  eventType : Text
  receivedAt : Nat
  createdIssueId : Option Uuid
  suppressed : Bool
  message : Text
deriving DecidableEq, Repr

namespace DiscoveryServer

variable (W : WatcherStorage σ) (st : Storage σ)

def prepareError : StorageError → ApiError
  | e@(.notFound _) => .notFound e.toText
  | e@(.rateLimitExceeded _) => ⟨429, e.toText⟩
  | _ => .internal

/-- Record the outcome, and answer. -/
def answer (agentId : Text) (event : DiscoveryEventKind) (prep : DiscoveryPreparation) (createdIssueId : Option Uuid)
    (suppressed : Bool) (status : Nat) (message : Text) : Proc (Watching σ) ApiError DiscoveryOutcomeResponse := do
  let record ← mapErr (fun _ => ApiError.internal)
    (W.recordDiscovery agentId event prep.recordId prep.dedupKey prep.receivedAt createdIssueId suppressed)
  pure ⟨status, record.id, record.agentId, event.eventType, record.receivedAt, record.createdIssueId, suppressed, message⟩

/-- The issue of a discovery; when it cannot be created there is none. -/
def createIssue (issueId : Uuid) (agentId : Text) (event : DiscoveryEventKind) (prep : DiscoveryPreparation) :
    Proc (Watching σ) StorageError (Option Uuid) := do
  if prep.shouldCreateIssue then
    let created ← now env
    match ← attempt (onRepo (st.createIssue issueId created
      ⟨event.defaultTitle env, issueDescription env agentId event, prep.priority, [event.eventType, "watcher".toList], agentId,
        some (some ⟨event.eventType, env.json event⟩), []⟩)) with
    | .ok issue =>
      let _ ← attempt (onRepo (st.append (.issueCreated issue.id issue.title agentId issue.priority.asStr)))
      pure (some issue.id)
    | .error _ => pure none
  else pure none

def recordedMessage (createdIssueId : Option Uuid) (shouldCreate : Bool) : Text :=
  match createdIssueId with
  | some id => createdMessage id
  | none => if shouldCreate then "Discovery recorded; issue creation failed or rate-limited".toList else uncreatedMessage

/-- `submit_discovery_handler`, once the caller may write. -/
def submitDiscoveryHandler (recordId issueId : Uuid) (agentId : Text) (event : DiscoveryEventKind) :
    Proc (Watching σ) ApiError DiscoveryOutcomeResponse := do
  let prep ← mapErr prepareError (W.prepareDiscovery recordId agentId event)
  match prep.suppressedWithIssueId with
  | some existing => answer W agentId event prep (some existing) true 200 (duplicateMessage existing)
  | none =>
    let created ← mapErr (fun _ => ApiError.internal) (createIssue env st issueId agentId event prep)
    answer W agentId event prep created false 201 (recordedMessage created prep.shouldCreateIssue)

end DiscoveryServer
end Vai
