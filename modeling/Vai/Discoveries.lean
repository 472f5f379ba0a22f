import Vai.IssueParity
import Vai.Watcher
/-!
# Discoveries — which discoveries are suppressed

A run of a repository, on either backend: discoveries, submitted to the local store or to the server, watchers that come,
pause and resume, and whatever else happens to the issues in between.  No step fails.

`tracked_iff`: the rows that suppress a discovery are those of the earlier ones that created an issue.  What has become of
the issue since makes no difference, so a discovery is suppressed exactly while its issue is active only as long as the
issue is (`suppressed_while_active_iff`).
-/
namespace Vai
namespace Discoveries

open Proc Rows Steps
open IssueParity (Databases)

/-- The backend of a repository. -/
inductive Host where
  | sqlite | postgres
deriving DecidableEq, Repr

def Host.Repo : Host → Type
  | .sqlite => LocalRepo
  | .postgres => PgRepo

def Host.issues : (h : Host) → h.Repo → List Issue
  | .sqlite, r => r.issues.rows.map IssueRow.toIssue
  | .postgres, r => r.issues

/-- How a discovery is submitted: to the local store, with the event log that is open, or to the server. -/
inductive Via where
  | store (log : LogDir)
  | server
deriving DecidableEq, Repr

structure Submission where
  recordId : Uuid
  issueId : Uuid
  agentId : Text
  event : DiscoveryEventKind

/-- What is said of a discovery. -/
structure Report where
  suppressed : Bool
  /-- The issue that was created for it. -/
  created : Option Uuid
deriving DecidableEq, Repr

def Report.ofOutcome (o : DiscoveryOutcome) : Report := ⟨o.suppressed, o.issueId⟩

def Report.ofResponse (r : DiscoveryOutcomeResponse) : Report :=
  ⟨r.suppressed, if r.suppressed then none else r.createdIssueId⟩

/-- The clock and the texts, and the orders of the databases. -/
structure Setting where
  env : WatcherEnv
  rows : Sorting.RowOrder DiscoveryRow
  dbs : Databases

def noFault : WatcherCall → Bool := fun _ => false

variable (x : Setting)

def answered {ε α σ : Type} (report : α → Report) (r : Except ε α × σ) : Option Report × σ := (r.1.toOption.map report, r.2)

def submitted (log : LogDir) (sub : Submission) (s : Watching LocalRepo) : Option Report × Watching LocalRepo :=
  answered .ofOutcome
    (WatcherStore.submitDiscovery x.env noFault x.rows sub.recordId sub.issueId sub.agentId sub.event log s)

def served {σ : Type} (W : WatcherStorage σ) (st : Storage σ) (sub : Submission) (s : Watching σ) :
    Option Report × Watching σ :=
  answered .ofResponse (DiscoveryServer.submitDiscoveryHandler x.env W st sub.recordId sub.issueId sub.agentId sub.event s)

/-- What a discovery is answered, none if it is turned away, and what it leaves; the store is of local repositories. -/
def discover : (h : Host) → Via → Submission → Watching h.Repo → Option (Option Report × Watching h.Repo)
  | .sqlite, .store log, sub, s => some (submitted x log sub s)
  | .sqlite, .server, sub, s =>
    some (served x (Sqlite.watchers x.env noFault x.rows) (Sqlite.storage Sqlite.noFault x.dbs.lite) sub s)
  | .postgres, .store _, _, _ => none
  | .postgres, .server, sub, s =>
    some (served x (Postgres.watchers x.env noFault x.rows)
      (Postgres.storage Postgres.noFault x.dbs.lower x.dbs.collation x.dbs.pg) sub s)

inductive Act (h : Host) where
  | discover (via : Via) (sub : Submission)
  | register (watcher : Watcher)
  | pause (agentId : Text)
  | resume (agentId : Text)
  /-- Whatever else is done to the repository. -/
  | change (f : h.Repo → h.Repo)

/-- A new record has a new id. -/
def step (h : Host) : Act h → Watching h.Repo → Option (Watching h.Repo)
  | .discover via sub, s => if s.db.discoveries.any (fun r => r.id = sub.recordId) then none
    else (discover x h via sub s).map Prod.snd
  | .register watcher, s => some (WatcherStore.register noFault watcher s).2
  | .pause agentId, s => some (WatcherStore.pause noFault agentId s).2
  | .resume agentId, s => some (WatcherStore.resume noFault agentId s).2
  | .change f, s => some { s with repo := f s.repo }

/-- The watcher is there, it is not paused and below its limit. -/
def Passes : (h : Host) → Text → Watching h.Repo → Prop
  | .sqlite, agentId, s => (WatcherStore.checked x.env noFault agentId s).1.isOk = true
  | .postgres, agentId, s => (Postgres.checkedWatcher x.env noFault agentId s).1.isOk = true

/-- A discovery of the watcher with this key, and what it is answered. -/
def Answered (h : Host) (agentId dedupKey : Text) (r : Report) (t : Turn (Act h) (Watching h.Repo)) : Prop :=
  ∃ via sub s', t.action = .discover via sub ∧ sub.agentId = agentId ∧ sub.event.dedupKey = dedupKey ∧
    discover x h via sub t.before = some (some r, s')

/-- It created the issue. -/
def Created (h : Host) (agentId dedupKey : Text) (id : Uuid) (t : Turn (Act h) (Watching h.Repo)) : Prop :=
  ∃ r, Answered x h agentId dedupKey r t ∧ r.created = some id

/-- The issue is open or in progress. -/
def ActiveIn (issues : List Issue) (id : Uuid) : Prop := ∃ i ∈ issues, i.id = id ∧ IssueDir.isActive i.status = true

def Active (h : Host) (id : Uuid) (s : Watching h.Repo) : Prop := ActiveIn (h.issues s.repo) id

/-! ## One discovery -/

/-- A row that suppresses the discoveries of the watcher with this key. -/
def Tracks (agentId dedupKey : Text) (r : DiscoveryRow) : Prop :=
  r.agentId = agentId ∧ r.dedupKey = dedupKey ∧ r.suppressed = false ∧ r.createdIssueId.isSome

def Tracked {σ : Type} (agentId dedupKey : Text) (s : Watching σ) : Prop := ∃ r ∈ s.db.discoveries, Tracks agentId dedupKey r

theorem isSome_activeDiscovery {order : Sorting.RowOrder DiscoveryRow} {dedupKey agentId : Text} {rows : List DiscoveryRow} :
    (activeDiscovery order dedupKey agentId rows).isSome ↔ ∃ r ∈ rows, Tracks agentId dedupKey r := by
  have hmem : ∀ r, r ∈ order.orderBy (fun a b => b.receivedAt ≤ a.receivedAt) (rows.filter fun r =>
      r.agentId = agentId && r.dedupKey = dedupKey && !r.suppressed && r.createdIssueId.isSome) ↔
      r ∈ rows ∧ Tracks agentId dedupKey r := by
    intro r
    rw [(order.perm _ _).mem_iff, List.mem_filter]
    simp [Tracks, and_assoc]
  unfold activeDiscovery
  cases hrows : order.orderBy (fun a b => b.receivedAt ≤ a.receivedAt) (rows.filter fun r =>
      r.agentId = agentId && r.dedupKey = dedupKey && !r.suppressed && r.createdIssueId.isSome) with
  | nil =>
    rw [hrows] at hmem
    simp only [List.head?_nil, Option.bind_none, Option.isSome_none, Bool.false_eq_true, false_iff]
    rintro ⟨r, hr, ht⟩
    exact List.not_mem_nil ((hmem r).2 ⟨hr, ht⟩)
  | cons r l =>
    have hr := (hmem r).1 (hrows ▸ List.mem_cons_self)
    simp only [List.head?_cons, Option.bind_some]
    exact ⟨fun _ => ⟨r, hr.1, hr.2⟩, fun _ => hr.2.2.2.2⟩

/-- What one discovery is answered, and what it adds to the rows; an issue that it creates is one of `issues`. -/
inductive Outcome {σ : Type} (agentId dedupKey : Text) (passes : Prop) (issues : σ → List Issue) (s s' : Watching σ) :
    Option Report → Prop where
  | turnedAway (h : ¬ passes) (hrows : s'.db.discoveries = s.db.discoveries) : Outcome agentId dedupKey passes issues s s' none
  | failed (h : passes) (ht : ¬ Tracked agentId dedupKey s) (hrows : s'.db.discoveries = s.db.discoveries) :
    Outcome agentId dedupKey passes issues s s' none
  | duplicate (h : passes) (ht : Tracked agentId dedupKey s) (row : DiscoveryRow) (hsuppressed : row.suppressed = true)
    (hrows : s'.db.discoveries = s.db.discoveries ++ [row]) :
    Outcome agentId dedupKey passes issues s s' (some ⟨true, none⟩)
  | recorded (h : passes) (ht : ¬ Tracked agentId dedupKey s) (row : DiscoveryRow) (hagent : row.agentId = agentId)
    (hkey : row.dedupKey = dedupKey) (hsuppressed : row.suppressed = false)
    (hrows : s'.db.discoveries = s.db.discoveries ++ [row])
    (hactive : ∀ id, row.createdIssueId = some id → ActiveIn (issues s'.repo) id) :
    Outcome agentId dedupKey passes issues s s' (some ⟨false, row.createdIssueId⟩)

section Steps

variable {x} {σ : Type} {agentId : Text} {event : DiscoveryEventKind} {recordId : Uuid} {D : List DiscoveryRow}

theorem keeps_limiter {ε : Type} {fails : LimitCall → Bool} {db : ε} {again : Bool} {max : Nat} {excess : Nat → ε} :
    Keeps (fun s : Watching σ => s.db.discoveries = D) ((Watching.limiter x.env).check fails db again agentId max excess) :=
  Limiter.keeps_check (fun _ _ hs => hs) (fun _ hs => hs)

theorem keeps_checked : Keeps (fun s : Watching σ => s.db.discoveries = D) (WatcherStore.checked x.env noFault agentId) := by
  have hget : Keeps (fun s : Watching σ => s.db.discoveries = D) (WatcherStore.get noFault agentId) := by
    refine Keeps.bind (keeps_pure _ _) fun _ => (keeps_read _ _).bind fun w => ?_
    cases w
    · exact keeps_fail _ _
    · exact keeps_pure _ _
  exact hget.bind fun w => keeps_ite (keeps_fail _ _) (keeps_limiter.bind fun _ => keeps_pure _ _)

theorem keeps_checkedWatcher :
    Keeps (fun s : Watching σ => s.db.discoveries = D) (Postgres.checkedWatcher x.env noFault agentId) := by
  have hget : Keeps (fun s : Watching σ => s.db.discoveries = D) (Postgres.getWatcher noFault agentId) := by
    refine Keeps.bind (keeps_pure _ _) fun _ => (keeps_read _ _).bind fun w => ?_
    cases w
    · exact keeps_fail _ _
    · exact keeps_pure _ _
  exact hget.bind fun w => keeps_ite (keeps_fail _ _) (keeps_limiter.bind fun _ => keeps_pure _ _)

/-- The watcher tables after one more row. -/
def withRow (row : DiscoveryRow) (s : Watching σ) : Watching σ := { s with db := { s.db with
  discoveries := s.db.discoveries ++ [row]
  watchers := s.db.watchers.put row.agentId ((s.db.watchers.get row.agentId).map (counted row.receivedAt)) } }

theorem recordDiscovery_ok {s : Watching σ} (hfresh : s.db.discoveries.any (fun r => r.id = recordId) = false)
    (key : Text) (receivedAt : Nat) (created : Option Uuid) (suppressed : Bool) :
    WatcherStore.recordDiscovery x.env noFault agentId event recordId key receivedAt created suppressed s =
      (.ok ⟨recordId, agentId, event, receivedAt, created, suppressed⟩,
        withRow ⟨recordId, agentId, event.eventType, x.env.json event, key, receivedAt, created, suppressed⟩ s) := by
  have hinsert : WatcherStore.insertDiscovery noFault
      ⟨recordId, agentId, event.eventType, x.env.json event, key, receivedAt, created, suppressed⟩ s =
      (.ok (), { s with db := { s.db with discoveries := s.db.discoveries ++
        [⟨recordId, agentId, event.eventType, x.env.json event, key, receivedAt, created, suppressed⟩] } }) := by
    have h : WatcherStore.insertDiscovery noFault
        ⟨recordId, agentId, event.eventType, x.env.json event, key, receivedAt, created, suppressed⟩ s =
        (if s.db.discoveries.any (fun r => r.id = recordId) then (fail .sqlite : Proc (Watching σ) WatcherError Unit)
          else modify fun s => { s with db := { s.db with discoveries := s.db.discoveries ++
            [⟨recordId, agentId, event.eventType, x.env.json event, key, receivedAt, created, suppressed⟩] } }) s := rfl
    rw [h, hfresh]
    rfl
  unfold WatcherStore.recordDiscovery
  rw [bind_of_ok hinsert]
  rfl

theorem weighed_apply (w : Watcher) (s : Watching σ) :
    WatcherStore.weighed x.env noFault x.rows recordId agentId event w s =
      (.ok ⟨recordId, event.dedupKey, x.env.clock s.readings,
        activeDiscovery x.rows event.dedupKey agentId s.db.discoveries,
        w.issueCreationPolicy.shouldAutoCreate (event.defaultPriority x.env), event.defaultPriority x.env⟩,
        { s with readings := s.readings + 1 }) := rfl

theorem keeps_createFor {maxPerHour : Nat} {log : LogDir} {issueId : Uuid} :
    Keeps (fun s : Watching LocalRepo => s.db.discoveries = D)
      (WatcherStore.createFor x.env noFault issueId agentId event maxPerHour log) := by
  have hcheck : ∀ {fails : LimitCall → Bool} {excess : Nat → IssueError},
      Keeps (fun s : Watching LocalRepo => s.db.discoveries = D)
        ((Watching.agentLimiter x.env).check fails .sqlite true agentId maxPerHour excess) :=
    Limiter.keeps_check (fun _ _ hs => hs) (fun _ hs => hs)
  refine hcheck.bind fun _ => Keeps.bind (fun _ hs => hs) fun _ => (keeps_read _ _).bind fun _ => ?_
  refine Keeps.bind (fun _ hs => hs) fun _ => Keeps.bind (fun _ hs => hs) fun _ => ?_
  exact Keeps.bind (fun _ hs => hs) fun _ => keeps_pure _ _

theorem keeps_autoCreate {prep : DiscoveryPreparation} {maxPerHour : Nat} {log : LogDir} {issueId : Uuid} :
    Keeps (fun s : Watching LocalRepo => s.db.discoveries = D)
      (WatcherStore.autoCreate x.env noFault issueId agentId event prep maxPerHour log) := by
  refine keeps_ite ((keeps_createFor.attempt.mapErr _).bind fun r => ?_) (keeps_pure _ _)
  unfold WatcherStore.ofCreated
  split
  · exact keeps_pure _ _
  · exact keeps_pure _ _
  · exact keeps_fail _ _

theorem insertRow_ok {r : IssueRow} {d d' : IssueDir} (h : IssueDir.insertRow IssueDir.noFault r d = (.ok (), d')) :
    d' = { d with rows := d.rows ++ [r] } := by
  cases hrow : row IssueRow.id r.id d.rows with
  | none =>
    rw [IssueDir.insertRow_noFault hrow] at h
    cases h
    rfl
  | some r' =>
    rw [IssueDir.insertRow_taken r' hrow] at h
    cases h

theorem active_of_createFor {maxPerHour : Nat} {log : LogDir} {issueId : Uuid} {r : Issue × Option Uuid}
    {s s' : Watching LocalRepo}
    (h : WatcherStore.createFor x.env noFault issueId agentId event maxPerHour log s = (.ok r, s')) :
    ActiveIn (Host.issues .sqlite s'.repo) r.1.id := by
  obtain ⟨_, s₁, _, h⟩ := bind_eq_ok.1 h
  obtain ⟨_, s₂, _, h⟩ := bind_eq_ok.1 h
  obtain ⟨_, s₃, _, h⟩ := bind_eq_ok.1 h
  obtain ⟨created, s₄, _, h⟩ := bind_eq_ok.1 h
  obtain ⟨_, s₅, hinsert, h⟩ := bind_eq_ok.1 h
  obtain ⟨_, s₆, hlog, h⟩ := bind_eq_ok.1 h
  cases h
  cases hlog
  have hok := (Prod.mk.inj hinsert).1
  have hstate := (Prod.mk.inj hinsert).2
  have hrows := insertRow_ok (Prod.ext hok rfl)
  have hlast : (Issue.new issueId created (event.defaultTitle x.env) (issueDescription x.env agentId event)
      (event.defaultPriority x.env) [event.eventType, "watcher".toList] agentId
      (some ⟨event.eventType, x.env.json event⟩)).toRow ∈ s₅.repo.issues.rows := by
    rw [← hstate]
    exact (congrArg IssueDir.rows hrows).symm ▸ List.mem_append_right _ (List.mem_singleton.2 rfl)
  refine ⟨_, List.mem_map_of_mem (f := IssueRow.toIssue) (a := (Issue.new issueId created (event.defaultTitle x.env)
    (issueDescription x.env agentId event) (event.defaultPriority x.env) [event.eventType, "watcher".toList] agentId
    (some ⟨event.eventType, x.env.json event⟩)).toRow) ?_, rfl, rfl⟩
  cases log <;> exact hlast

theorem active_of_autoCreate {prep : DiscoveryPreparation} {maxPerHour : Nat} {log : LogDir} {issueId id : Uuid}
    {s s' : Watching LocalRepo}
    (h : WatcherStore.autoCreate x.env noFault issueId agentId event prep maxPerHour log s = (.ok (some id), s')) :
    ActiveIn (Host.issues .sqlite s'.repo) id := by
  unfold WatcherStore.autoCreate at h
  split at h
  · obtain ⟨r, s₁, hattempt, h⟩ := bind_eq_ok.1 h
    unfold mapErr at hattempt
    rw [attempt_apply] at hattempt
    rcases hcreate : WatcherStore.createFor x.env noFault issueId agentId event maxPerHour log s with ⟨e | r', s₂⟩
    · rw [hcreate] at hattempt
      cases hattempt
      cases e <;> cases h
    · rw [hcreate] at hattempt
      cases hattempt
      cases h
      exact active_of_createFor hcreate
  · cases h

theorem outcome_submitted {sub : Submission} {s : Watching LocalRepo} (log : LogDir)
    (hfresh : s.db.discoveries.any (fun r => r.id = sub.recordId) = false) :
    Outcome sub.agentId sub.event.dedupKey (Passes x .sqlite sub.agentId s) (Host.issues .sqlite) s (submitted x log sub s).2
      (submitted x log sub s).1 := by
  have hkept := @keeps_checked x LocalRepo sub.agentId s.db.discoveries s rfl
  have hpasses : Passes x .sqlite sub.agentId s ↔ (WatcherStore.checked x.env noFault sub.agentId s).1.isOk = true := Iff.rfl
  unfold submitted WatcherStore.submitDiscovery WatcherStore.settled
  rcases hchecked : WatcherStore.checked x.env noFault sub.agentId s with ⟨e | w, s₁⟩
  · rw [hchecked] at hkept hpasses
    rw [bind_apply, hchecked]
    exact .turnedAway (fun h => by cases hpasses.1 h) hkept
  · rw [hchecked] at hkept hpasses
    have hpass := hpasses.2 rfl
    have htracked := @isSome_activeDiscovery x.rows sub.event.dedupKey sub.agentId s.db.discoveries
    rw [bind_of_ok hchecked, bind_of_ok (weighed_apply w s₁)]
    dsimp only at hkept ⊢
    rw [hkept]
    cases hactive : activeDiscovery x.rows sub.event.dedupKey sub.agentId s.db.discoveries with
    | some existing =>
      rw [hactive] at htracked
      dsimp only
      rw [bind_of_ok (recordDiscovery_ok (by exact hkept ▸ hfresh) _ _ _ _)]
      exact .duplicate hpass (htracked.1 rfl) ⟨sub.recordId, sub.agentId, sub.event.eventType, x.env.json sub.event,
        sub.event.dedupKey, x.env.clock s₁.readings, some existing, true⟩ rfl (congrArg (· ++ [_]) hkept)
    | none =>
      rw [hactive] at htracked
      have huntracked : ¬ Tracked sub.agentId sub.event.dedupKey s := fun ht => by cases htracked.2 ht
      dsimp only
      have hauto := fun prep => @keeps_autoCreate x sub.agentId sub.event s.db.discoveries prep
        w.issueCreationPolicy.maxPerHour log sub.issueId { s₁ with readings := s₁.readings + 1 } hkept
      rw [bind_apply]
      generalize hcreated : WatcherStore.autoCreate x.env noFault sub.issueId sub.agentId sub.event _
        w.issueCreationPolicy.maxPerHour log { s₁ with readings := s₁.readings + 1 } = r
      rcases r with ⟨e | c, s₂⟩
      · have hrows := hcreated ▸ hauto _
        exact .failed hpass huntracked hrows
      · have hrows := hcreated ▸ hauto _
        dsimp only
        rw [bind_of_ok (recordDiscovery_ok (by exact hrows ▸ hfresh) _ _ _ _)]
        exact .recorded hpass huntracked ⟨sub.recordId, sub.agentId, sub.event.eventType, x.env.json sub.event,
          sub.event.dedupKey, x.env.clock s₁.readings, c, false⟩ rfl rfl rfl (congrArg (· ++ [_]) hrows) fun id hid => by
            have hid : c = some id := hid
            rw [hid] at hcreated
            exact (active_of_autoCreate hcreated : ActiveIn (Host.issues .sqlite s₂.repo) id)

/-- What the storage of the issues does, when nothing fails. -/
structure Creates (st : Storage σ) (issues : σ → List Issue) : Prop where
  created : ∀ id now issue s i s', st.createIssue id now issue s = (.ok i, s') → ActiveIn (issues s') i.id
  append : ∀ kind s, issues (st.append kind s).2 = issues s

theorem create_taken {id : Uuid} {now : Nat} {title description creator : Text} {priority : IssuePriority}
    {labels : List Text} {log : LogDir} {d : IssueDir} {r : IssueRow} (hrow : row IssueRow.id id d.rows = some r) :
    IssueDir.create IssueDir.noFault id now title description priority labels creator log d = (.error .sqlite, d) := by
  have hinsert := IssueDir.insertRow_taken (r := (Issue.new id now title description priority labels creator none).toRow) r hrow
  unfold IssueDir.create
  rw [bind_apply, hinsert]

theorem creates_sqlite (order : Sorting.RowOrder Issue) :
    Creates (Sqlite.storage Sqlite.noFault order) (Host.issues .sqlite) where
  created id now issue s i s' h := by
    have hcall : (Sqlite.storage Sqlite.noFault order).createIssue id now issue s =
        Sqlite.createIssue Sqlite.noFault id now issue s := rfl
    rw [hcall] at h
    cases hrow : row IssueRow.id id s.issues.rows with
    | none =>
      rw [Sqlite.createIssue_noFault now hrow issue] at h
      cases h
      exact ⟨_, List.mem_map_of_mem (List.mem_append_right _ List.mem_cons_self), rfl, rfl⟩
    | some r =>
      obtain ⟨_, s₁, hopen, h⟩ := bind_eq_ok.1 h
      cases hopen
      obtain ⟨_, s₂, hlog, h⟩ := bind_eq_ok.1 h
      cases hlog
      obtain ⟨_, s₃, hcreate, h⟩ := bind_eq_ok.1 h
      unfold Sqlite.issues at hcreate
      rw [show IssueDir.create (fun c => Sqlite.noFault (.issue c)) id now issue.title issue.description issue.priority
        issue.labels issue.creator .eventLog s.issues = _ from create_taken hrow] at hcreate
      cases hcreate
  append kind s := rfl

theorem creates_postgres (lower : Text → Text) (collation : Collation) (order : Sorting.RowOrder Issue) :
    Creates (Postgres.storage Postgres.noFault lower collation order) (Host.issues .postgres) where
  created id now issue s i s' h := by
    have hcall : (Postgres.storage Postgres.noFault lower collation order).createIssue id now issue s =
        Postgres.createIssue Postgres.noFault id now issue s := rfl
    rw [hcall] at h
    cases hrow : row Issue.id id s.issues with
    | none =>
      rw [Postgres.createIssue_noFault now hrow issue] at h
      cases h
      exact ⟨_, List.mem_append_right _ List.mem_cons_self, rfl, rfl⟩
    | some j =>
      have htaken : s.issues.any (fun i => i.id = id) = true := by
        simpa using ⟨j, mem_of_row hrow, key_of_row hrow⟩
      have hstart : Postgres.createIssue Postgres.noFault id now issue s = (if s.issues.any (fun i => i.id = id) then
          (fail (.database []) : Proc PgRepo StorageError Issue)
        else modify (fun s => { s with issues := s.issues ++ [Postgres.newIssue id now issue] }) >>= fun _ =>
          Postgres.getIssue Postgres.noFault 2 id) s := rfl
      rw [hstart, htaken] at h
      cases h
  append kind s := rfl

theorem createIssue_ok (x : Setting) {st : Storage σ} {issues : σ → List Issue} (hst : Creates st issues) (issueId : Uuid)
    (agentId : Text) (event : DiscoveryEventKind) (prep : DiscoveryPreparation) (s : Watching σ) :
    ∃ c s', DiscoveryServer.createIssue x.env st issueId agentId event prep s = (.ok c, s') ∧
      s'.db.discoveries = s.db.discoveries ∧ ∀ id, c = some id → ActiveIn (issues s'.repo) id := by
  unfold DiscoveryServer.createIssue
  by_cases hshould : prep.shouldCreateIssue = true
  · rw [if_pos hshould]
    have hnow : (Watching.now x.env : Proc (Watching σ) StorageError Nat) s =
        (.ok (x.env.clock s.readings), { s with readings := s.readings + 1 }) := rfl
    rw [bind_of_ok hnow, bind_apply, attempt_apply]
    dsimp only [Watching.onRepo]
    generalize hcreate : st.createIssue issueId (x.env.clock s.readings) _ s.repo = r
    rcases r with ⟨e | issue, repo⟩
    · exact ⟨none, _, rfl, rfl, fun _ h => by cases h⟩
    · refine ⟨some issue.id, _, rfl, rfl, fun id h => ?_⟩
      cases h
      have hactive := hst.created _ _ _ _ _ _ hcreate
      rw [← hst.append] at hactive
      exact hactive
  · rw [if_neg hshould]
    exact ⟨none, s, rfl, rfl, fun _ h => by cases h⟩

/-- What the storage of the watchers does, when nothing fails; `passes` are the checks. -/
structure Lawful (x : Setting) (W : WatcherStorage σ) (passes : Text → Watching σ → Prop) : Prop where
  refused : ∀ recordId agentId event s, ¬ passes agentId s → ∃ e s',
    W.prepareDiscovery recordId agentId event s = (.error e, s') ∧ s'.db.discoveries = s.db.discoveries
  prepared : ∀ recordId agentId event s, passes agentId s → ∃ receivedAt should priority s',
    W.prepareDiscovery recordId agentId event s = (.ok ⟨recordId, event.dedupKey, receivedAt,
      activeDiscovery x.rows event.dedupKey agentId s.db.discoveries, should, priority⟩, s') ∧
    s'.db.discoveries = s.db.discoveries
  recorded : ∀ agentId event recordId key receivedAt created suppressed s,
    s.db.discoveries.any (fun r => r.id = recordId) = false →
    W.recordDiscovery agentId event recordId key receivedAt created suppressed s =
      (.ok ⟨recordId, agentId, event, receivedAt, created, suppressed⟩,
        withRow ⟨recordId, agentId, event.eventType, x.env.json event, key, receivedAt, created, suppressed⟩ s)

theorem lawful_sqlite : Lawful x (Sqlite.watchers x.env noFault x.rows)
    fun agentId (s : Watching σ) => (WatcherStore.checked x.env noFault agentId s).1.isOk = true where
  refused recordId agentId event s h := by
    have hkept := @keeps_checked x σ agentId s.db.discoveries s rfl
    rcases hchecked : WatcherStore.checked x.env noFault agentId s with ⟨e | w, s₁⟩
    · rw [hchecked] at hkept
      have hprepare : WatcherStore.prepareDiscovery x.env noFault x.rows recordId agentId event s = (.error e, s₁) := by
        unfold WatcherStore.prepareDiscovery
        rw [bind_apply, hchecked]
      exact ⟨_, s₁, mapErr_of_error hprepare, hkept⟩
    · rw [hchecked] at h
      exact absurd rfl h
  prepared recordId agentId event s h := by
    have hkept := @keeps_checked x σ agentId s.db.discoveries s rfl
    rcases hchecked : WatcherStore.checked x.env noFault agentId s with ⟨e | w, s₁⟩
    · rw [hchecked] at h
      cases h
    · rw [hchecked] at hkept
      have hprepare : WatcherStore.prepareDiscovery x.env noFault x.rows recordId agentId event s =
          (.ok ⟨recordId, event.dedupKey, x.env.clock s₁.readings,
            activeDiscovery x.rows event.dedupKey agentId s.db.discoveries,
            w.issueCreationPolicy.shouldAutoCreate (event.defaultPriority x.env), event.defaultPriority x.env⟩,
            { s₁ with readings := s₁.readings + 1 }) := by
        unfold WatcherStore.prepareDiscovery
        rw [bind_of_ok hchecked, weighed_apply]
        dsimp only at hkept
        rw [hkept]
      exact ⟨_, _, _, _, mapErr_of_ok hprepare, hkept⟩
  recorded agentId event recordId key receivedAt created suppressed s hfresh :=
    mapErr_of_ok (recordDiscovery_ok hfresh key receivedAt created suppressed)

theorem lawful_postgres : Lawful x (Postgres.watchers x.env noFault x.rows)
    fun agentId (s : Watching σ) => (Postgres.checkedWatcher x.env noFault agentId s).1.isOk = true where
  refused recordId agentId event s h := by
    have hkept := @keeps_checkedWatcher x σ agentId s.db.discoveries s rfl
    rcases hchecked : Postgres.checkedWatcher x.env noFault agentId s with ⟨e | w, s₁⟩
    · rw [hchecked] at hkept
      have hprepare : Postgres.prepareDiscovery x.env noFault x.rows recordId agentId event s = (.error e, s₁) := by
        unfold Postgres.prepareDiscovery
        rw [bind_apply, hchecked]
      exact ⟨_, s₁, hprepare, hkept⟩
    · rw [hchecked] at h
      exact absurd rfl h
  prepared recordId agentId event s h := by
    have hkept := @keeps_checkedWatcher x σ agentId s.db.discoveries s rfl
    rcases hchecked : Postgres.checkedWatcher x.env noFault agentId s with ⟨e | w, s₁⟩
    · rw [hchecked] at h
      cases h
    · rw [hchecked] at hkept
      have hprepare : Postgres.prepareDiscovery x.env noFault x.rows recordId agentId event s =
          (.ok ⟨recordId, event.dedupKey, x.env.clock s₁.readings,
            activeDiscovery x.rows event.dedupKey agentId s₁.db.discoveries,
            w.issueCreationPolicy.shouldAutoCreate (event.defaultPriority x.env), event.defaultPriority x.env⟩,
            { s₁ with readings := s₁.readings + 1 }) := by
        unfold Postgres.prepareDiscovery
        rw [bind_of_ok hchecked]
        rfl
      dsimp only at hkept
      rw [hkept] at hprepare
      exact ⟨_, _, _, _, hprepare, hkept⟩
  recorded agentId event recordId key receivedAt created suppressed s hfresh := by
    have hquery : Postgres.watcherQuery noFault .insert s = (.ok (), s) := rfl
    have hnew : ¬ s.db.discoveries.any (fun r => decide (r.id = recordId)) = true := by
      rw [hfresh]
      exact Bool.false_ne_true
    have h : Postgres.recordDiscovery x.env noFault agentId event recordId key receivedAt created suppressed s =
        (.ok ⟨recordId, agentId, event, receivedAt, created, suppressed⟩,
          withRow ⟨recordId, agentId, event.eventType, x.env.json event, key, receivedAt, created, suppressed⟩ s) := by
      unfold Postgres.recordDiscovery
      rw [bind_of_ok hquery, bind_apply, read_apply]
      dsimp only
      rw [if_neg hnew]
      rfl
    exact h

theorem outcome_served {W : WatcherStorage σ} {st : Storage σ} {passes : Text → Watching σ → Prop}
    {issues : σ → List Issue} (hW : Lawful x W passes) (hst : Creates st issues) {sub : Submission} {s : Watching σ}
    (hfresh : s.db.discoveries.any (fun r => r.id = sub.recordId) = false) :
    Outcome sub.agentId sub.event.dedupKey (passes sub.agentId s) issues s (served x W st sub s).2 (served x W st sub s).1 := by
  unfold served DiscoveryServer.submitDiscoveryHandler
  by_cases hpass : passes sub.agentId s
  · obtain ⟨receivedAt, should, priority, s₁, hprepare, hkept⟩ := hW.prepared sub.recordId sub.agentId sub.event s hpass
    have htracked := @isSome_activeDiscovery x.rows sub.event.dedupKey sub.agentId s.db.discoveries
    rw [bind_of_ok (mapErr_of_ok hprepare)]
    cases hactive : activeDiscovery x.rows sub.event.dedupKey sub.agentId s.db.discoveries with
    | some existing =>
      rw [hactive] at htracked
      dsimp only
      unfold DiscoveryServer.answer
      rw [bind_of_ok (mapErr_of_ok (hW.recorded _ _ _ _ _ _ _ _ (by exact hkept ▸ hfresh)))]
      exact .duplicate hpass (htracked.1 rfl) ⟨sub.recordId, sub.agentId, sub.event.eventType, x.env.json sub.event,
        sub.event.dedupKey, receivedAt, some existing, true⟩ rfl (congrArg (· ++ [_]) hkept)
    | none =>
      rw [hactive] at htracked
      have huntracked : ¬ Tracked sub.agentId sub.event.dedupKey s := fun ht => by cases htracked.2 ht
      obtain ⟨c, s₂, hcreate, hrows, hactive⟩ := createIssue_ok x hst sub.issueId sub.agentId sub.event
        ⟨sub.recordId, sub.event.dedupKey, receivedAt, none, should, priority⟩ s₁
      rw [hkept] at hrows
      dsimp only
      rw [bind_of_ok (mapErr_of_ok hcreate)]
      unfold DiscoveryServer.answer
      rw [bind_of_ok (mapErr_of_ok (hW.recorded _ _ _ _ _ _ _ _ (by exact hrows ▸ hfresh)))]
      exact .recorded hpass huntracked ⟨sub.recordId, sub.agentId, sub.event.eventType, x.env.json sub.event,
        sub.event.dedupKey, receivedAt, c, false⟩ rfl rfl rfl (congrArg (· ++ [_]) hrows) hactive
  · obtain ⟨e, s₁, hprepare, hkept⟩ := hW.refused sub.recordId sub.agentId sub.event s hpass
    rw [bind_apply, mapErr_of_error hprepare]
    exact .turnedAway hpass hkept

/-- **What a discovery does, however it is submitted.** -/
theorem outcome_discover {h : Host} {via : Via} {sub : Submission} {s : Watching h.Repo} {r : Option Report × Watching h.Repo}
    (hfresh : s.db.discoveries.any (fun r => r.id = sub.recordId) = false) (hr : discover x h via sub s = some r) :
    Outcome sub.agentId sub.event.dedupKey (Passes x h sub.agentId s) h.issues s r.2 r.1 := by
  cases h with
  | sqlite =>
    cases via with
    | store log =>
      cases hr
      exact outcome_submitted log hfresh
    | server =>
      cases hr
      exact outcome_served lawful_sqlite (creates_sqlite _) hfresh
  | postgres =>
    cases via with
    | store log => cases hr
    | server =>
      cases hr
      exact outcome_served lawful_postgres (creates_postgres _ _ _) hfresh

end Steps

/-! ## Runs -/

variable {x} {h : Host}

theorem keeps_register {σ : Type} {D : List DiscoveryRow} (w : Watcher) :
    Keeps (fun s : Watching σ => s.db.discoveries = D) (WatcherStore.register noFault w) :=
  Keeps.bind (keeps_pure _ _) fun _ => (keeps_read _ _).bind fun _ => keeps_ite (keeps_fail _ _) (keeps_modify fun _ hs => hs)

theorem keeps_setStatus {σ : Type} {D : List DiscoveryRow} (agentId : Text) (status : WatcherStatus) :
    Keeps (fun s : Watching σ => s.db.discoveries = D) (WatcherStore.setStatus noFault agentId status) := by
  refine Keeps.bind (keeps_pure _ _) fun _ => (keeps_read _ _).bind fun w => ?_
  cases w
  · exact keeps_fail _ _
  · exact keeps_modify fun _ hs => hs

theorem not_created {a : Act h} {s : Watching h.Repo} {agentId dedupKey : Text} {id : Uuid}
    (ha : ∀ via sub, a ≠ .discover via sub) : ¬ Created x h agentId dedupKey id ⟨a, s⟩ := by
  rintro ⟨r, ⟨via, sub, s', haction, -⟩, -⟩
  exact ha via sub haction

theorem tracked_of_rows {σ : Type} {s s' : Watching σ} (hrows : s'.db.discoveries = s.db.discoveries) {agentId dedupKey : Text} :
    Tracked agentId dedupKey s' ↔ Tracked agentId dedupKey s := by
  unfold Tracked
  rw [hrows]

theorem discover_of_step {via : Via} {sub : Submission} {s s' : Watching h.Repo}
    (hs : step x h (.discover via sub) s = some s') : s.db.discoveries.any (fun r => r.id = sub.recordId) = false ∧
      ∃ r, discover x h via sub s = some r ∧ r.2 = s' := by
  have h' : (if s.db.discoveries.any (fun r => r.id = sub.recordId) then none
    else (discover x h via sub s).map Prod.snd) = some s' := hs
  split at h'
  · cases h'
  · next hfresh => exact ⟨Bool.eq_false_iff.2 hfresh, Option.map_eq_some_iff.1 h'⟩

/-- One step makes a key tracked exactly where it creates an issue for it. -/
theorem tracked_step {a : Act h} {s s' : Watching h.Repo} (hs : step x h a s = some s') (agentId dedupKey : Text) :
    Tracked agentId dedupKey s' ↔ Tracked agentId dedupKey s ∨ ∃ id, Created x h agentId dedupKey id ⟨a, s⟩ := by
  have hother : s'.db.discoveries = s.db.discoveries → (∀ via sub, a ≠ .discover via sub) →
      (Tracked agentId dedupKey s' ↔ Tracked agentId dedupKey s ∨ ∃ id, Created x h agentId dedupKey id ⟨a, s⟩) := by
    intro hrows ha
    rw [tracked_of_rows hrows]
    exact ⟨.inl, fun ht => ht.elim (fun ht => ht) fun hc => absurd hc.choose_spec (not_created ha)⟩
  cases a with
  | discover via sub =>
    obtain ⟨hfresh, r, hr, rfl⟩ := discover_of_step hs
    have hout := outcome_discover hfresh hr
    have hcreated : ∀ id, Created x h agentId dedupKey id ⟨.discover via sub, s⟩ ↔
        sub.agentId = agentId ∧ sub.event.dedupKey = dedupKey ∧ ∃ report, r.1 = some report ∧ report.created = some id := by
      intro id
      constructor
      · rintro ⟨report, ⟨via', sub', s', haction, hagent, hkey, hreport⟩, hid⟩
        cases haction
        rw [hr] at hreport
        cases hreport
        exact ⟨hagent, hkey, report, rfl, hid⟩
      · rintro ⟨hagent, hkey, report, hreport, hid⟩
        exact ⟨report, ⟨via, sub, r.2, rfl, hagent, hkey, by rw [hr, ← hreport]⟩, hid⟩
    simp only [hcreated]
    generalize hreport : r.1 = report at hout
    cases hout with
    | turnedAway hp hrows =>
      rw [tracked_of_rows hrows]
      refine ⟨.inl, fun h => h.resolve_right ?_⟩
      rintro ⟨_, _, _, _, hnone, -⟩
      cases hnone
    | failed hp ht hrows =>
      rw [tracked_of_rows hrows]
      refine ⟨.inl, fun h => h.resolve_right ?_⟩
      rintro ⟨_, _, _, _, hnone, -⟩
      cases hnone
    | duplicate hp ht row hsuppressed hrows =>
      unfold Tracked
      rw [hrows]
      constructor
      · rintro ⟨r', hr', htracks⟩
        rcases List.mem_append.1 hr' with hr' | hr'
        · exact .inl ⟨r', hr', htracks⟩
        · rw [List.mem_singleton.1 hr'] at htracks
          rw [htracks.2.2.1] at hsuppressed
          cases hsuppressed
      · rintro (⟨r', hr', htracks⟩ | ⟨id, -, -, report, hsome, hid⟩)
        · exact ⟨r', List.mem_append_left _ hr', htracks⟩
        · cases hsome
          cases hid
    | recorded hp ht row hagent hkey hsuppressed hrows hactive =>
      unfold Tracked
      rw [hrows]
      constructor
      · rintro ⟨r', hr', htracks⟩
        rcases List.mem_append.1 hr' with hr' | hr'
        · exact .inl ⟨r', hr', htracks⟩
        · rw [List.mem_singleton.1 hr'] at htracks
          obtain ⟨id, hid⟩ := Option.isSome_iff_exists.1 htracks.2.2.2
          exact .inr ⟨id, hagent.symm.trans htracks.1, hkey.symm.trans htracks.2.1, _, rfl, hid⟩
      · rintro (⟨r', hr', htracks⟩ | ⟨id, ha, hk, report, hsome, hid⟩)
        · exact ⟨r', List.mem_append_left _ hr', htracks⟩
        · cases hsome
          exact ⟨row, List.mem_append_right _ (List.mem_singleton.2 rfl), hagent.trans ha, hkey.trans hk, hsuppressed,
            Option.isSome_iff_exists.2 ⟨id, hid⟩⟩
  | register w =>
    cases hs
    exact hother (keeps_register w s rfl) fun _ _ h => by cases h
  | pause agentId =>
    cases hs
    exact hother (keeps_setStatus agentId .paused s rfl) fun _ _ h => by cases h
  | resume agentId =>
    cases hs
    exact hother (keeps_setStatus agentId .active s rfl) fun _ _ h => by cases h
  | change f =>
    cases hs
    exact hother rfl fun _ _ h => by cases h

/-- **The rows that suppress a discovery are those of the earlier discoveries that created an issue.** -/
theorem tracked_iff {s₀ s : Watching h.Repo} {l : List (Turn (Act h) (Watching h.Repo))} (hrun : Ran (step x h) s₀ l s)
    (h₀ : s₀.db.discoveries = []) (agentId dedupKey : Text) :
    Tracked agentId dedupKey s ↔ ∃ t ∈ l, ∃ id, Created x h agentId dedupKey id t := by
  induction hrun with
  | start =>
    constructor
    · rintro ⟨r, hr, -⟩
      rw [h₀] at hr
      exact absurd hr List.not_mem_nil
    · rintro ⟨t, ht, -⟩
      exact absurd ht List.not_mem_nil
  | next hrun a hs ih =>
    rw [tracked_step hs, ih]
    constructor
    · rintro (⟨t, ht, hc⟩ | hc)
      · exact ⟨t, List.mem_append_left _ ht, hc⟩
      · exact ⟨_, List.mem_append_right _ (List.mem_singleton.2 rfl), hc⟩
    · rintro ⟨t, ht, hc⟩
      rcases List.mem_append.1 ht with ht | ht
      · exact .inl ⟨t, ht, hc⟩
      · rw [List.mem_singleton.1 ht] at hc
        exact .inr hc

/-- A discovery that passes is suppressed exactly where its key is tracked. -/
theorem suppressed_iff_tracked {via : Via} {sub : Submission} {s s' : Watching h.Repo}
    (hs : step x h (.discover via sub) s = some s') (hp : Passes x h sub.agentId s) :
    (∃ r, Answered x h sub.agentId sub.event.dedupKey r ⟨.discover via sub, s⟩ ∧ r.suppressed = true) ↔
      Tracked sub.agentId sub.event.dedupKey s := by
  obtain ⟨hfresh, r, hr, rfl⟩ := discover_of_step hs
  have hout := outcome_discover hfresh hr
  have hanswered : ∀ report, Answered x h sub.agentId sub.event.dedupKey report ⟨.discover via sub, s⟩ ↔ r.1 = some report := by
    intro report
    constructor
    · rintro ⟨via', sub', s', haction, -, -, hreport⟩
      cases haction
      rw [hr] at hreport
      cases hreport
      rfl
    · intro hreport
      exact ⟨via, sub, r.2, rfl, rfl, rfl, by rw [hr, ← hreport]⟩
  simp only [hanswered]
  generalize hreport : r.1 = report at hout
  cases hout with
  | turnedAway hn _ => exact absurd hp hn
  | failed _ ht _ =>
    refine ⟨fun h => ?_, fun h => absurd h ht⟩
    obtain ⟨_, hnone, -⟩ := h
    cases hnone
  | duplicate _ ht _ _ _ => exact ⟨fun _ => ht, fun _ => ⟨_, rfl, rfl⟩⟩
  | recorded _ ht _ _ _ _ _ _ =>
    refine ⟨fun h => ?_, fun h => absurd h ht⟩
    obtain ⟨report, hsome, hsuppressed⟩ := h
    cases hsome
    cases hsuppressed

/-- **In every run, a discovery that passes the checks is suppressed exactly while an issue of the same watcher and key is
open or in progress, if and only if no earlier one created an issue, or one of these issues still is.** -/
theorem suppressed_while_active_iff {s₀ s : Watching h.Repo} {l₁ l₂ : List (Turn (Act h) (Watching h.Repo))}
    {t : Turn (Act h) (Watching h.Repo)} (hrun : Ran (step x h) s₀ (l₁ ++ t :: l₂) s) (h₀ : s₀.db.discoveries = [])
    {via : Via} {sub : Submission} (ht : t.action = .discover via sub) (hp : Passes x h sub.agentId t.before) :
    ((∃ r, Answered x h sub.agentId sub.event.dedupKey r t ∧ r.suppressed = true) ↔
      ∃ t' ∈ l₁, ∃ id, Created x h sub.agentId sub.event.dedupKey id t' ∧ Active h id t.before) ↔
    ((∃ t' ∈ l₁, ∃ id, Created x h sub.agentId sub.event.dedupKey id t') →
      ∃ t' ∈ l₁, ∃ id, Created x h sub.agentId sub.event.dedupKey id t' ∧ Active h id t.before) := by
  obtain ⟨a, before⟩ := t
  obtain rfl : a = .discover via sub := ht
  obtain ⟨s', hs⟩ := hrun.made _ (List.mem_append_right _ List.mem_cons_self)
  rw [suppressed_iff_tracked hs hp, tracked_iff hrun.earlier h₀]
  constructor
  · exact fun h => h.1
  · intro h
    refine ⟨h, fun hactive => ?_⟩
    obtain ⟨t', ht', id, hc, -⟩ := hactive
    exact ⟨t', ht', id, hc⟩

/-! ## A test that fails again -/

/-- A test failure, as JSON. -/
def flakyJson : Text := "\x7b\"type\":\"test_failure_discovered\",\"suite\":\"unit\",\"test_name\":\"parses\",".toList ++
  "\"failure_output\":\"assertion failed\",\"version\":null\x7d".toList

def flakyPretty : Text := "\x7b\n  \"type\": \"test_failure_discovered\",\n  \"suite\": \"unit\",\n".toList ++
  "  \"test_name\": \"parses\",\n  \"failure_output\": \"assertion failed\",\n  \"version\": null\n\x7d".toList

def plain : Setting where
  env := ⟨fun n => n, ⟨Char.isAlphanum, fun t => t.map Char.toLower⟩, fun _ => flakyJson, fun _ => flakyPretty, fun _ => []⟩
  rows := .stable
  dbs := IssueParity.plain

/-- The failure of a test, submitted by its watcher. -/
def failure (recordId issueId : Uuid) : Submission :=
  ⟨recordId, issueId, "ci".toList, .testFailureDiscovered "unit".toList "parses".toList "assertion failed".toList none⟩

def ci : Watcher := ⟨"ci".toList, ⟨true, 5, none⟩, .active, none, 0⟩

def initial : Watching LocalRepo := ⟨.empty, .empty, 0⟩

def watched : Watching LocalRepo := (WatcherStore.register noFault ci initial).2

def reported : Watching LocalRepo := (submitted plain .eventLog (failure 1 10) watched).2

/-- The issue is closed. -/
def fixed (r : LocalRepo) : LocalRepo :=
  { r with issues := (IssueDir.close IssueDir.noFault 10 7 "fixed".toList .eventLog r.issues).2 }

def repaired : Watching LocalRepo := { reported with repo := fixed reported.repo }

def upToReport : List (Turn (Act .sqlite) (Watching LocalRepo)) :=
  [⟨.register ci, initial⟩, ⟨.discover (.store .eventLog) (failure 1 10), watched⟩]

theorem submits {s : Watching LocalRepo} {sub : Submission}
    (hfresh : s.db.discoveries.any (fun r => r.id = sub.recordId) = false) :
    step plain .sqlite (.discover (.store .eventLog) sub) s = some (submitted plain .eventLog sub s).2 := by
  have h : step plain .sqlite (.discover (.store .eventLog) sub) s = if s.db.discoveries.any (fun r => r.id = sub.recordId)
    then none else some (submitted plain .eventLog sub s).2 := rfl
  rw [h, hfresh]
  rfl

theorem ran_upToReport : Ran (step plain .sqlite) initial upToReport reported := by
  have hfirst : Ran (step plain .sqlite) initial [⟨.register ci, initial⟩] watched := Ran.start.next (Act.register ci) rfl
  exact hfirst.next (.discover (.store .eventLog) (failure 1 10)) (submits (by decide +kernel))

theorem reported_created : Created plain .sqlite "ci".toList (failure 1 10).event.dedupKey 10
    ⟨.discover (.store .eventLog) (failure 1 10), watched⟩ := by
  have h : (submitted plain .eventLog (failure 1 10) watched).1 = some ⟨false, some 10⟩ := by decide +kernel
  exact ⟨_, ⟨_, _, reported, rfl, rfl, rfl, congrArg some (Prod.ext h rfl)⟩, rfl⟩

theorem passes_failure {s : Watching LocalRepo} (h : (WatcherStore.checked plain.env noFault "ci".toList s).1.isOk = true)
    (recordId issueId : Uuid) : Passes plain .sqlite (failure recordId issueId).agentId s := h

/-- While the issue is open, the same failure is suppressed, and it should be. -/
theorem suppressed_while_active_iff_open :
    (∃ r, Answered plain .sqlite "ci".toList (failure 2 11).event.dedupKey r
      ⟨.discover (.store .eventLog) (failure 2 11), reported⟩ ∧ r.suppressed = true) ↔
    ∃ t' ∈ upToReport, ∃ id, Created plain .sqlite "ci".toList (failure 2 11).event.dedupKey id t' ∧
      Active .sqlite id reported := by
  have hrun : Ran (step plain .sqlite) initial
      (upToReport ++ ⟨.discover (.store .eventLog) (failure 2 11), reported⟩ :: [])
      (submitted plain .eventLog (failure 2 11) reported).2 :=
    ran_upToReport.next (.discover (.store .eventLog) (failure 2 11)) (submits (by decide +kernel))
  have hactive : Active .sqlite 10 reported := by
    have h : (Host.issues .sqlite reported.repo).any (fun i => i.id = 10 && IssueDir.isActive i.status) = true := by
      decide +kernel
    simpa [Active, ActiveIn] using h
  refine (suppressed_while_active_iff hrun rfl rfl (passes_failure (by decide +kernel) 2 11)).2 fun _ => ?_
  exact ⟨_, List.mem_cons_of_mem _ List.mem_cons_self, 10, reported_created, hactive⟩

/-- The issue has been closed, and the failure that reappears is suppressed all the same. -/
theorem closed_issue_still_suppresses :
    ¬ ∀ (x : Setting) (h : Host) (s₀ s : Watching h.Repo) (l₁ l₂ : List (Turn (Act h) (Watching h.Repo)))
      (t : Turn (Act h) (Watching h.Repo)), Ran (step x h) s₀ (l₁ ++ t :: l₂) s → s₀.db.discoveries = [] →
      ∀ via sub, t.action = .discover via sub → Passes x h sub.agentId t.before →
        ((∃ r, Answered x h sub.agentId sub.event.dedupKey r t ∧ r.suppressed = true) ↔
          ∃ t' ∈ l₁, ∃ id, Created x h sub.agentId sub.event.dedupKey id t' ∧ Active h id t.before) := by
  intro hclaim
  have hrun : Ran (step plain .sqlite) initial
      ((upToReport ++ [⟨.change fixed, reported⟩]) ++ ⟨.discover (.store .eventLog) (failure 2 11), repaired⟩ :: [])
      (submitted plain .eventLog (failure 2 11) repaired).2 :=
    (ran_upToReport.next (.change fixed) rfl).next (.discover (.store .eventLog) (failure 2 11)) (submits (by decide +kernel))
  have hsuppressed : (submitted plain .eventLog (failure 2 11) repaired).1 = some ⟨true, none⟩ := by decide +kernel
  have hiff := hclaim plain .sqlite _ _ _ _ _ hrun rfl _ _ rfl (passes_failure (by decide +kernel) 2 11)
  obtain ⟨t', -, id, -, i, hi, -, hstatus⟩ := hiff.1
    ⟨_, ⟨_, _, _, rfl, rfl, rfl, congrArg some (Prod.ext hsuppressed rfl)⟩, rfl⟩
  have hclosed : (Host.issues .sqlite repaired.repo).all (fun i => !IssueDir.isActive i.status) = true := by decide +kernel
  have := List.all_eq_true.1 hclosed i hi
  rw [hstatus] at this
  cases this

end Discoveries
end Vai
