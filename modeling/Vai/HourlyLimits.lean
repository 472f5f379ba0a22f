import Vai.Steps
import Vai.Watcher
/-!
# HourlyLimits — what the hourly counters count

A run of a local repository: discoveries that are submitted or prepared, issues that agents create, and whatever else
happens in between.  The clock is any function of the readings, and any step may fail.  A watcher, or an agent, has one
maximum throughout.

`checks` are the comparisons that an action makes, each with the state that it is made in.  `counters_exact_iff`: in every
state of a run the counters are those of the checks that have passed, within the maximum, and a check that does not pass
leaves its table as it was, if and only if every check of the run is clean.
-/
namespace Vai
namespace HourlyLimits

open Proc Steps

/-- The two tables of counters. -/
inductive Table where
  | watchers | agents
deriving DecidableEq, Repr

variable (env : WatcherEnv) (rows : Sorting.RowOrder DiscoveryRow) (max : Text → Nat)

def Table.limiter : Table → Limiter (Watching LocalRepo) Text
  | .watchers => Watching.limiter env
  | .agents => Watching.agentLimiter env

inductive Act where
  | submit (fails : WatcherCall → Bool) (recordId issueId : Uuid) (agentId : Text) (event : DiscoveryEventKind) (log : LogDir)
  | prepare (fails : WatcherCall → Bool) (recordId : Uuid) (agentId : Text) (event : DiscoveryEventKind)
  | record (fails : WatcherCall → Bool) (agentId : Text) (event : DiscoveryEventKind) (recordId : Uuid) (dedupKey : Text)
    (receivedAt : Nat) (createdIssueId : Option Uuid) (suppressed : Bool)
  | createByAgent (fails : WatcherCall → Bool) (id : Uuid) (title description : Text) (priority : IssuePriority)
    (labels : List Text) (agentId : Text) (source : AgentSource) (log : LogDir)
  | register (fails : WatcherCall → Bool) (watcher : Watcher)
  | pause (fails : WatcherCall → Bool) (agentId : Text)
  | resume (fails : WatcherCall → Bool) (agentId : Text)
  /-- Whatever else is done to the repository. -/
  | change (f : LocalRepo → LocalRepo)

/-- Only the counters stay. -/
def changed (f : LocalRepo → LocalRepo) (r : LocalRepo) : LocalRepo :=
  { f r with issues := { (f r).issues with rateLimits := r.issues.rateLimits } }

/-- A watcher is registered with its maximum. -/
def step : Act → Watching LocalRepo → Option (Watching LocalRepo)
  | .submit fails recordId issueId agentId event log, s =>
    some (WatcherStore.submitDiscovery env fails rows recordId issueId agentId event log s).2
  | .prepare fails recordId agentId event, s =>
    some (WatcherStore.prepareDiscovery env fails rows recordId agentId event s).2
  | .record fails agentId event recordId dedupKey receivedAt createdIssueId suppressed, s =>
    some (WatcherStore.recordDiscovery env fails agentId event recordId dedupKey receivedAt createdIssueId suppressed s).2
  | .createByAgent fails id title description priority labels agentId source log, s =>
    some (WatcherStore.createByAgent env fails id title description priority labels agentId source (max agentId) log s).2
  | .register fails watcher, s =>
    if watcher.issueCreationPolicy.maxPerHour = max watcher.agentId then some (WatcherStore.register fails watcher s).2 else none
  | .pause fails agentId, s => some (WatcherStore.pause fails agentId s).2
  | .resume fails agentId, s => some (WatcherStore.resume fails agentId s).2
  | .change f, s => some { s with repo := changed f s.repo }

/-- A comparison of a counter with the maximum, and the state that it begins in. -/
structure Check where
  table : Table
  fails : LimitCall → Bool
  agentId : Text
  state : Watching LocalRepo

/-- The check of a discovery: of a watcher that is there, and not paused. -/
def watcherChecks (fails : WatcherCall → Bool) (agentId : Text) (s : Watching LocalRepo) : List Check :=
  match (WatcherStore.get fails agentId s).1 with
  | .ok w => if w.status = .paused then [] else [⟨.watchers, fun c => fails (.limit c), agentId, s⟩]
  | .error _ => []

/-- The check of the issue that is to be created for a discovery. -/
def issueChecks (fails : WatcherCall → Bool) (recordId : Uuid) (agentId : Text) (event : DiscoveryEventKind)
    (s : Watching LocalRepo) : List Check :=
  match (WatcherStore.prepareDiscovery env fails rows recordId agentId event s).1 with
  | .ok prep => if prep.suppressedWithIssueId = none ∧ prep.shouldCreateIssue = true then
      [⟨.agents, fun c => fails (.agentLimit c), agentId,
        (WatcherStore.prepareDiscovery env fails rows recordId agentId event s).2⟩] else []
  | .error _ => []

def checks : Act → Watching LocalRepo → List Check
  | .submit fails recordId _ agentId event _, s =>
    watcherChecks fails agentId s ++ issueChecks env rows fails recordId agentId event s
  | .prepare fails _ agentId _, s => watcherChecks fails agentId s
  | .createByAgent fails _ _ _ _ _ agentId _ _, s => [⟨.agents, fun c => fails (.agentLimit c), agentId, s⟩]
  | .record _ _ _ _ _ _ _ _, _ | .register _ _, _ | .pause _ _, _ | .resume _ _, _ | .change _, _ => []

/-- The check passes. -/
def Check.Passes (c : Check) : Prop := (c.table.limiter env).Passes c.fails c.agentId (max c.agentId) c.state

instance (c : Check) : Decidable (c.Passes env max) :=
  inferInstanceAs (Decidable (c.fails .raise = false ∧ c.fails .count = false ∧
    (c.table.limiter env).count (c.agentId, (c.table.limiter env).bucket c.state) c.state < max c.agentId))

/-- The hour that the clock shows at the check. -/
def Check.hour (c : Check) : Nat := (c.table.limiter env).bucket c.state

/-- The checks of the table that the agent has passed in the hour. -/
def passed (tb : Table) (y : Text × Nat) (cs : List Check) : Nat :=
  cs.countP fun c => c.table = tb ∧ (c.agentId, c.hour env) = y ∧ c.Passes env max

def allChecks (l : List (Turn Act (Watching LocalRepo))) : List Check := l.flatMap fun t => checks env rows t.action t.before

/-- The counters of a table, by agent and hour. -/
def count (tb : Table) (y : Text × Nat) (s : Watching LocalRepo) : Nat := (tb.limiter env).count y s

/-- What the limits promise of a run and of the state that it leads to. -/
structure Exact (l : List (Turn Act (Watching LocalRepo))) (s : Watching LocalRepo) : Prop where
  counted : ∀ tb y, count env tb y s = passed env max tb y (allChecks env rows l)
  within : ∀ tb y, count env tb y s ≤ max y.1
  kept : ∀ t ∈ l, ∀ s', step env rows max t.action t.before = some s' → ∀ tb,
    (∀ c ∈ checks env rows t.action t.before, c.table = tb → ¬ c.Passes env max) →
    ∀ y, count env tb y s' = count env tb y t.before

/-- A counter that is raised is also read, and a refusal lowers it in the same hour. -/
def Check.Clean (c : Check) : Prop := (c.table.limiter env).Clean c.fails true c.agentId (max c.agentId) c.state

def Meets (t : Turn Act (Watching LocalRepo)) : Prop := ∀ c ∈ checks env rows t.action t.before, c.Clean env max

/-! ## What leaves a table alone -/

variable {env} {rows} {max} {tb : Table} {ε α β : Type}

/-- `m` does not touch the counters of the table. -/
def Leaves (env : WatcherEnv) (tb : Table) (m : Proc (Watching LocalRepo) ε α) : Prop :=
  ∀ C, Keeps (fun s => (tb.limiter env).counters s = C) m

theorem Leaves.count {m : Proc (Watching LocalRepo) ε α} (h : Leaves env tb m) (s : Watching LocalRepo) (y : Text × Nat) :
    count env tb y (m s).2 = count env tb y s := by
  unfold HourlyLimits.count Limiter.count
  rw [h _ s rfl]

/-- What comes after a procedure that leaves the table alone does not change its counters. -/
theorem count_bind {m : Proc (Watching LocalRepo) ε α} {f : α → Proc (Watching LocalRepo) ε β} (hf : ∀ a, Leaves env tb (f a))
    (s : Watching LocalRepo) (y : Text × Nat) : count env tb y ((m >>= f) s).2 = count env tb y (m s).2 := by
  rw [bind_apply]
  rcases m s with ⟨_ | a, s'⟩
  · rfl
  · exact (hf a).count s' y

/-! ## What the steps keep -/

/-- A property that the clock, the discoveries and the issues have no part in. -/
structure Stable (I : Watching LocalRepo → Prop) : Prop where
  tick : ∀ s n, I s → I { s with readings := n }
  rows : ∀ s rows, I s → I { s with db := { s.db with discoveries := rows } }
  stats : ∀ s agentId n, I s → I { s with db := { s.db with
    watchers := s.db.watchers.put agentId ((s.db.watchers.get agentId).map (counted n)) } }
  repo : ∀ s d, d.rateLimits = s.repo.issues.rateLimits → I s → I { s with repo := { s.repo with issues := d } }

theorem stable_counters (tb : Table) (C : FMap (Text × Nat) Nat) : Stable fun s => (tb.limiter env).counters s = C where
  tick s n hs := by cases tb <;> exact hs
  rows s rows hs := by cases tb <;> exact hs
  stats s agentId n hs := by cases tb <;> exact hs
  repo s d hd hs := by
    cases tb
    · exact hs
    · exact hd.trans hs

section Procedures

variable (fails : WatcherCall → Bool) {agentId : Text} {event : DiscoveryEventKind} {recordId issueId : Uuid} {log : LogDir}
  {I : Watching LocalRepo → Prop} (hI : Stable I)

theorem keeps_call (c : WatcherCall) : Keeps I (WatcherStore.call fails c) := by
  unfold WatcherStore.call
  exact keeps_ite (keeps_fail _ _) (keeps_pure _ _)

theorem keeps_get : Keeps I (WatcherStore.get fails agentId) := by
  refine (keeps_call fails _).bind fun _ => (keeps_read _ _).bind fun w => ?_
  cases w
  · exact keeps_fail _ _
  · exact keeps_pure _ _

include hI

theorem keeps_weighed (w : Watcher) : Keeps I (WatcherStore.weighed env fails rows recordId agentId event w) := by
  refine Keeps.bind (fun s hs => hI.tick s _ hs) fun _ => Keeps.bind ?_ fun _ => keeps_pure _ _
  exact (keeps_call fails _).bind fun _ => keeps_read _ _

theorem keeps_recordDiscovery {dedupKey : Text} {receivedAt : Nat} {createdIssueId : Option Uuid} {suppressed : Bool} :
    Keeps I (WatcherStore.recordDiscovery env fails agentId event recordId dedupKey receivedAt createdIssueId suppressed) := by
  have hinsert : ∀ r, Keeps I (WatcherStore.insertDiscovery fails r) := fun r =>
    (keeps_call fails _).bind fun _ => (keeps_read _ _).bind fun _ =>
      keeps_ite (keeps_fail _ _) (keeps_modify fun s hs => hI.rows s _ hs)
  have hstats : Keeps I (WatcherStore.updateWatcherStats fails agentId receivedAt) :=
    (keeps_call fails _).bind fun _ => keeps_modify fun s hs => hI.stats s _ _ hs
  exact (hinsert _).bind fun _ => hstats.bind fun _ => keeps_pure _ _

theorem keeps_onIssues {m : Proc IssueDir ε α} (h : ∀ C, Keeps (fun d => d.rateLimits = C) m) : Keeps I (Watching.onIssues m) :=
  fun s hs => hI.repo s _ (h _ s.repo.issues rfl) hs

theorem keeps_insertByAgent {id : Uuid} {title description : Text} {priority : IssuePriority} {labels : List Text}
    {source : AgentSource} :
    Keeps I (WatcherStore.insertByAgent env fails id title description priority labels agentId source log) := by
  have hcall : ∀ (f : IssueCall → Bool) c C, Keeps (fun d : IssueDir => d.rateLimits = C) (IssueDir.call f c) := fun f c C => by
    unfold IssueDir.call
    exact keeps_ite (keeps_fail _ _) (keeps_pure _ _)
  have hinsert : ∀ (f : IssueCall → Bool) r C, Keeps (fun d : IssueDir => d.rateLimits = C) (IssueDir.insertRow f r) :=
    fun f r C => (hcall f _ C).bind fun _ => (keeps_read _ _).bind fun _ =>
      keeps_ite (keeps_fail _ _) (keeps_modify fun _ hd => hd)
  have happend : ∀ (f : IssueCall → Bool) kind C, Keeps (fun d : IssueDir => d.rateLimits = C) (IssueDir.append f log kind) :=
    fun f kind C => by
      unfold IssueDir.append
      exact keeps_ite (keeps_fail _ _) (keeps_modify fun _ hd => by cases log <;> exact hd)
  refine (keeps_onIssues hI (hcall _ _)).bind fun _ => (keeps_read _ _).bind fun _ => ?_
  refine Keeps.bind (fun s hs => hI.tick s _ hs) fun _ => (keeps_onIssues hI (hinsert _ _)).bind fun _ => ?_
  exact (keeps_onIssues hI (happend _ _)).bind fun _ => keeps_pure _ _

omit hI in
theorem keeps_ofCreated (r : Except IssueError (Issue × Option Uuid)) : Keeps I (WatcherStore.ofCreated r) := by
  unfold WatcherStore.ofCreated
  split
  · exact keeps_pure _ _
  · exact keeps_pure _ _
  · exact keeps_fail _ _

/-- The check of the agents keeps it. -/
def AgentsKeep (env : WatcherEnv) (I : Watching LocalRepo → Prop) : Prop :=
  ∀ f k n (excess : Nat → IssueError), Keeps I ((Watching.agentLimiter env).check f .sqlite true k n excess)

/-- The check of the watchers keeps it. -/
def WatchersKeep (env : WatcherEnv) (I : Watching LocalRepo → Prop) : Prop :=
  ∀ f k n (excess : Nat → WatcherError), Keeps I ((Watching.limiter env).check f .sqlite true k n excess)

theorem keeps_createByAgent (hagents : AgentsKeep env I) {id : Uuid} {title description : Text} {priority : IssuePriority}
    {labels : List Text} {source : AgentSource} {n : Nat} :
    Keeps I (WatcherStore.createByAgent env fails id title description priority labels agentId source n log) :=
  (hagents _ _ _ _).bind fun _ => keeps_insertByAgent fails hI

theorem keeps_settled (hagents : AgentsKeep env I) {prep : DiscoveryPreparation} {w : Watcher} :
    Keeps I (WatcherStore.settled env fails recordId issueId agentId event log w prep) := by
  have hauto : Keeps I (WatcherStore.autoCreate env fails issueId agentId event prep w.issueCreationPolicy.maxPerHour log) :=
    keeps_ite (((keeps_createByAgent fails hI hagents).attempt.mapErr _).bind keeps_ofCreated) (keeps_pure _ _)
  unfold WatcherStore.settled
  cases prep.suppressedWithIssueId with
  | some existing => exact (keeps_recordDiscovery fails hI).bind fun _ => keeps_pure _ _
  | none => exact hauto.bind fun _ => (keeps_recordDiscovery fails hI).bind fun _ => keeps_pure _ _

theorem keeps_prepareDiscovery (hwatchers : WatchersKeep env I) :
    Keeps I (WatcherStore.prepareDiscovery env fails rows recordId agentId event) := by
  have hchecked : Keeps I (WatcherStore.checked env fails agentId) :=
    (keeps_get fails).bind fun w => keeps_ite (keeps_fail _ _) ((hwatchers _ _ _ _).bind fun _ => keeps_pure _ _)
  exact hchecked.bind fun w => keeps_weighed fails hI w

theorem keeps_submitDiscovery (hwatchers : WatchersKeep env I) (hagents : AgentsKeep env I) :
    Keeps I (WatcherStore.submitDiscovery env fails rows recordId issueId agentId event log) := by
  have hchecked : Keeps I (WatcherStore.checked env fails agentId) :=
    (keeps_get fails).bind fun w => keeps_ite (keeps_fail _ _) ((hwatchers _ _ _ _).bind fun _ => keeps_pure _ _)
  exact hchecked.bind fun w => (keeps_weighed fails hI w).bind fun prep => keeps_settled fails hI hagents

end Procedures

theorem leaves_register (fails : WatcherCall → Bool) (w : Watcher) : Leaves env tb (WatcherStore.register fails w) :=
  fun _ => (keeps_call fails _).bind fun _ => (keeps_read _ _).bind fun _ => keeps_ite (keeps_fail _ _)
    (keeps_modify fun s hs => by cases tb <;> exact hs)

theorem leaves_setStatus (fails : WatcherCall → Bool) (agentId : Text) (status : WatcherStatus) :
    Leaves env tb (WatcherStore.setStatus fails agentId status) := by
  refine fun _ => (keeps_call fails _).bind fun _ => (keeps_read _ _).bind fun w => ?_
  cases w
  · exact keeps_fail _ _
  · exact keeps_modify fun s hs => by cases tb <;> exact hs

theorem watchersKeep (C : FMap (Text × Nat) Nat) : WatchersKeep env fun s => (Table.agents.limiter env).counters s = C :=
  fun _ _ _ _ => Limiter.keeps_check (fun _ _ hs => hs) (fun _ hs => hs)

theorem agentsKeep (C : FMap (Text × Nat) Nat) : AgentsKeep env fun s => (Table.watchers.limiter env).counters s = C :=
  fun _ _ _ _ => Limiter.keeps_check (fun _ _ hs => hs) (fun _ hs => hs)

/-! ## One action -/

theorem passed_append (y : Text × Nat) (cs cs' : List Check) :
    passed env max tb y (cs ++ cs') = passed env max tb y cs + passed env max tb y cs' := List.countP_append

theorem passed_eq_zero {y : Text × Nat} {cs : List Check} (h : ∀ c ∈ cs, c.table = tb → ¬ c.Passes env max) :
    passed env max tb y cs = 0 := by
  refine List.countP_eq_zero.2 fun c hc hp => ?_
  have hp := of_decide_eq_true hp
  exact h c hc hp.1 hp.2.2

/-- From `s` to `s'` the table counts what has passed, exactly where its checks are clean. -/
def Sound (env : WatcherEnv) (max : Text → Nat) (tb : Table) (cs : List Check) (s s' : Watching LocalRepo) : Prop :=
  (∀ y, count env tb y s' = count env tb y s + passed env max tb y cs) ↔ ∀ c ∈ cs, c.table = tb → c.Clean env max

theorem sound_of_same {cs : List Check} {s s' : Watching LocalRepo} (hcs : ∀ c ∈ cs, c.table ≠ tb)
    (hsame : ∀ y, count env tb y s' = count env tb y s) : Sound env max tb cs s s' := by
  constructor
  · exact fun _ c hc htb => absurd htb (hcs c hc)
  · intro _ y
    rw [hsame, passed_eq_zero fun c hc htb => absurd htb (hcs c hc), Nat.add_zero]

theorem Sound.congr {cs : List Check} {s s' s'' : Watching LocalRepo} (h : Sound env max tb cs s s')
    (hsame : ∀ y, count env tb y s'' = count env tb y s') : Sound env max tb cs s s'' := by
  unfold Sound at *
  simp only [hsame]
  exact h

theorem Sound.append {cs cs' : List Check} {s s' : Watching LocalRepo} (h : Sound env max tb cs s s')
    (hcs' : ∀ c ∈ cs', c.table ≠ tb) : Sound env max tb (cs ++ cs') s s' := by
  unfold Sound at *
  have hzero : ∀ y, passed env max tb y cs' = 0 := fun y => passed_eq_zero fun c hc htb => absurd htb (hcs' c hc)
  simp only [passed_append, hzero, Nat.add_zero, h, List.forall_mem_append]
  exact ⟨fun h => ⟨h, fun c hc htb => absurd htb (hcs' c hc)⟩, And.left⟩

theorem Sound.append_right {cs cs' : List Check} {s s' : Watching LocalRepo} (h : Sound env max tb cs' s s')
    (hcs : ∀ c ∈ cs, c.table ≠ tb) : Sound env max tb (cs ++ cs') s s' := by
  unfold Sound at *
  have hzero : ∀ y, passed env max tb y cs = 0 := fun y => passed_eq_zero fun c hc htb => absurd htb (hcs c hc)
  simp only [passed_append, hzero, Nat.zero_add, h, List.forall_mem_append]
  exact ⟨fun h => ⟨fun c hc htb => absurd htb (hcs c hc), h⟩, And.right⟩

/-- One check, before and after which the table is left alone. -/
theorem sound_check {c : Check} {s s' : Watching LocalRepo} {db : ε} {excess : Nat → ε}
    (hstart : ∀ y, count env c.table y c.state = count env c.table y s)
    (hend : ∀ y, count env c.table y s' = count env c.table y
      ((c.table.limiter env).check c.fails db true c.agentId (max c.agentId) excess c.state).2) :
    Sound env max c.table [c] s s' := by
  have hpassed : ∀ y, passed env max c.table y [c] = if (c.agentId, c.hour env) = y ∧ c.Passes env max then 1 else 0 := by
    intro y
    unfold passed
    rw [List.countP_singleton]
    simp
  have hexact : Limiter.Exact (c.table.limiter env) c.fails c.agentId (max c.agentId) c.state _ ↔ _ :=
    @Limiter.check_exact_iff _ ε _ _ _ c.state c.agentId c.fails db true (max c.agentId) excess
  unfold Sound
  simp only [List.forall_mem_singleton, true_implies]
  refine Iff.trans ?_ hexact
  unfold Limiter.Exact
  refine forall_congr' fun y => ?_
  have hcount : ∀ s, (c.table.limiter env).count y s = count env c.table y s := fun _ => rfl
  rw [hcount, hcount, ← hend, hstart, hpassed]
  by_cases hp : c.Passes env max
  · have hp' : (c.table.limiter env).Passes c.fails c.agentId (max c.agentId) c.state := hp
    by_cases hy : (c.agentId, c.hour env) = y
    · subst hy
      simp [hp, hp', Check.hour]
    · have hy' : ¬ y = (c.agentId, (c.table.limiter env).bucket c.state) := fun h => hy h.symm
      simp [hp', hy, hy']
  · have hp' : ¬ (c.table.limiter env).Passes c.fails c.agentId (max c.agentId) c.state := hp
    simp [hp, hp']

section Actions

variable {fails : WatcherCall → Bool} {agentId : Text} {event : DiscoveryEventKind} {recordId issueId : Uuid} {log : LogDir}

theorem table_watcherChecks {s : Watching LocalRepo} : ∀ c ∈ watcherChecks fails agentId s, c.table ≠ .agents := by
  unfold watcherChecks
  intro c hc
  cases hget : (WatcherStore.get fails agentId s).1 with
  | error e =>
    rw [hget] at hc
    cases hc
  | ok w =>
    rw [hget] at hc
    dsimp only at hc
    split at hc
    · cases hc
    · rw [List.mem_singleton.1 hc]
      exact fun h => by cases h

theorem table_issueChecks {s : Watching LocalRepo} :
    ∀ c ∈ issueChecks env rows fails recordId agentId event s, c.table ≠ .watchers := by
  unfold issueChecks
  intro c hc
  cases hprepare : (WatcherStore.prepareDiscovery env fails rows recordId agentId event s).1 with
  | error e =>
    rw [hprepare] at hc
    cases hc
  | ok prep =>
    rw [hprepare] at hc
    dsimp only at hc
    split at hc
    · rw [List.mem_singleton.1 hc]
      exact fun h => by cases h
    · cases hc

/-- The watchers that are registered have their maximum. -/
def Fixed (max : Text → Nat) (s : Watching LocalRepo) : Prop :=
  ∀ agentId w, s.db.watchers.get agentId = some w → w.issueCreationPolicy.maxPerHour = max agentId

theorem get_apply (s : Watching LocalRepo) : WatcherStore.get fails agentId s = if fails .get = true then (.error .sqlite, s)
    else ((s.db.watchers.get agentId).elim (.error (.notFound agentId)) .ok, s) := by
  unfold WatcherStore.get WatcherStore.call
  cases fails .get with
  | true => rfl
  | false =>
    have h : (if false = true then fail .sqlite else pure () : Proc (Watching LocalRepo) WatcherError Unit) s = (.ok (), s) := rfl
    rw [bind_of_ok h, bind_apply, read_apply]
    dsimp only
    cases s.db.watchers.get agentId <;> rfl

theorem get_ok {s : Watching LocalRepo} {w : Watcher} (h : (WatcherStore.get fails agentId s).1 = .ok w) :
    s.db.watchers.get agentId = some w ∧ WatcherStore.get fails agentId s = (.ok w, s) := by
  rw [get_apply] at h ⊢
  split at h
  · cases h
  · next hfails =>
    rw [if_neg hfails]
    cases hw : s.db.watchers.get agentId with
    | none =>
      rw [hw] at h
      cases h
    | some w' =>
      rw [hw] at h
      cases h
      exact ⟨rfl, rfl⟩

theorem get_error {s : Watching LocalRepo} {e : WatcherError} (h : (WatcherStore.get fails agentId s).1 = .error e) :
    WatcherStore.get fails agentId s = (.error e, s) := by
  rw [get_apply] at h ⊢
  split at h
  · next hfails =>
    rw [if_pos hfails]
    exact Prod.ext h rfl
  · next hfails =>
    rw [if_neg hfails]
    exact Prod.ext h rfl

theorem sound_checked {s : Watching LocalRepo} (hfixed : Fixed max s) {rest : Watcher → Proc (Watching LocalRepo) WatcherError α}
    (hrest : ∀ w, Leaves env .watchers (rest w)) : Sound env max .watchers (watcherChecks fails agentId s) s
      ((WatcherStore.checked env fails agentId >>= rest) s).2 := by
  have hafter := fun y => @count_bind env .watchers WatcherError Watcher α (WatcherStore.checked env fails agentId) rest hrest s y
  unfold watcherChecks
  cases hget : (WatcherStore.get fails agentId s).1 with
  | error e =>
    have hchecked : WatcherStore.checked env fails agentId s = (.error e, s) := by
      unfold WatcherStore.checked
      rw [bind_apply, get_error hget]
    refine sound_of_same (fun c hc => absurd hc List.not_mem_nil) fun y => ?_
    rw [hafter, hchecked]
  | ok w =>
    obtain ⟨hw, hget⟩ := get_ok hget
    dsimp only
    by_cases hpaused : w.status = .paused
    · have hchecked : WatcherStore.checked env fails agentId s = (.error (.notFound (pausedMessage agentId)), s) := by
        unfold WatcherStore.checked
        rw [bind_of_ok hget, if_pos hpaused]
        rfl
      rw [if_pos hpaused]
      refine sound_of_same (fun c hc => absurd hc List.not_mem_nil) fun y => ?_
      rw [hafter, hchecked]
    · have hchecked : WatcherStore.checked env fails agentId s =
          (WatcherStore.checkRate env fails w agentId >>= fun _ => pure w) s := by
        unfold WatcherStore.checked
        rw [bind_of_ok hget, if_neg hpaused]
      have hcheck : ∀ y, count env .watchers y ((WatcherStore.checked env fails agentId >>= rest) s).2 =
          count env .watchers y ((Watching.limiter env).check (fun c => fails (.limit c)) WatcherError.sqlite true agentId
            (max agentId) (fun count => .rateLimitExceeded agentId count (max agentId)) s).2 := by
        intro y
        rw [hafter, hchecked, count_bind fun _ _ => keeps_pure _ _]
        unfold WatcherStore.checkRate
        rw [hfixed agentId w hw]
      rw [if_neg hpaused]
      exact sound_check (c := ⟨.watchers, fun c => fails (.limit c), agentId, s⟩) (fun _ => rfl) hcheck

theorem sound_createByAgent {id : Uuid} {title description : Text} {priority : IssuePriority} {labels : List Text}
    {source : AgentSource} (s : Watching LocalRepo) {s' : Watching LocalRepo}
    (hstart : ∀ y, count env .agents y s' = count env .agents y s) :
    Sound env max .agents [⟨.agents, fun c => fails (.agentLimit c), agentId, s'⟩] s
      (WatcherStore.createByAgent env fails id title description priority labels agentId source (max agentId) log s').2 :=
  sound_check (c := ⟨.agents, fun c => fails (.agentLimit c), agentId, s'⟩) hstart fun y =>
    count_bind (fun _ C => keeps_insertByAgent fails (stable_counters _ C)) s' y

theorem checked_ok {s s' : Watching LocalRepo} {w : Watcher} (h : WatcherStore.checked env fails agentId s = (.ok w, s')) :
    s.db.watchers.get agentId = some w := by
  obtain ⟨w', s₁, hget, h⟩ := bind_eq_ok.1 h
  obtain ⟨hw, hsame⟩ := get_ok (congrArg Prod.fst hget)
  rw [hget] at hsame
  cases hsame
  split at h
  · cases h
  · obtain ⟨_, s₂, _, h⟩ := bind_eq_ok.1 h
    cases h
    exact hw

theorem sound_settled {prep : DiscoveryPreparation} {w : Watcher} {s s' : Watching LocalRepo}
    (hmax : w.issueCreationPolicy.maxPerHour = max agentId) (hnew : prep.suppressedWithIssueId = none)
    (hshould : prep.shouldCreateIssue = true) (hstart : ∀ y, count env .agents y s' = count env .agents y s) :
    Sound env max .agents [⟨.agents, fun c => fails (.agentLimit c), agentId, s'⟩] s
      (WatcherStore.settled env fails recordId issueId agentId event log w prep s').2 := by
  have hcreate : ∀ y, count env .agents y (WatcherStore.autoCreate env fails issueId agentId event prep
      w.issueCreationPolicy.maxPerHour log s').2 =
      count env .agents y (WatcherStore.createFor env fails issueId agentId event (max agentId) log s').2 := by
    intro y
    unfold WatcherStore.autoCreate
    rw [if_pos hshould, count_bind fun r _ => keeps_ofCreated r, hmax]
    rfl
  have hsound : Sound env max .agents [⟨.agents, fun c => fails (.agentLimit c), agentId, s'⟩] s
      (WatcherStore.createFor env fails issueId agentId event (max agentId) log s').2 := sound_createByAgent s hstart
  refine hsound.congr fun y => ?_
  unfold WatcherStore.settled
  rw [hnew]
  dsimp only
  rw [count_bind fun _ C => (keeps_recordDiscovery fails (stable_counters _ C)).bind fun _ => keeps_pure _ _, hcreate]

theorem count_settled {prep : DiscoveryPreparation} {w : Watcher} {s' : Watching LocalRepo}
    (h : ¬ (prep.suppressedWithIssueId = none ∧ prep.shouldCreateIssue = true)) (y : Text × Nat) :
    count env .agents y (WatcherStore.settled env fails recordId issueId agentId event log w prep s').2 =
      count env .agents y s' := by
  have hleaves : Leaves env .agents (WatcherStore.settled env fails recordId issueId agentId event log w prep) := fun C => by
    unfold WatcherStore.settled
    cases hnew : prep.suppressedWithIssueId with
    | some existing => exact (keeps_recordDiscovery fails (stable_counters _ C)).bind fun _ => keeps_pure _ _
    | none =>
      have hshould : ¬ prep.shouldCreateIssue = true := fun hs => h ⟨hnew, hs⟩
      have hauto : WatcherStore.autoCreate env fails issueId agentId event prep w.issueCreationPolicy.maxPerHour log =
          pure none := by
        unfold WatcherStore.autoCreate
        rw [if_neg hshould]
      rw [hauto]
      exact (keeps_pure _ _).bind fun _ => (keeps_recordDiscovery fails (stable_counters _ C)).bind fun _ => keeps_pure _ _
  exact hleaves.count s' y

theorem sound_issueChecks {s : Watching LocalRepo} (hfixed : Fixed max s) :
    Sound env max .agents (issueChecks env rows fails recordId agentId event s) s
      (WatcherStore.submitDiscovery env fails rows recordId issueId agentId event log s).2 := by
  have hprepare : Leaves env .agents (WatcherStore.prepareDiscovery env fails rows recordId agentId event) :=
    fun C => keeps_prepareDiscovery fails (stable_counters _ C) (watchersKeep C)
  have hleaves := hprepare.count s
  have hnone : ∀ s', (∀ y, count env .agents y s' = count env .agents y s) → Sound env max .agents [] s s' :=
    fun s' h => sound_of_same (fun c hc => absurd hc List.not_mem_nil) h
  unfold issueChecks WatcherStore.submitDiscovery WatcherStore.prepareDiscovery at *
  rcases hchecked : WatcherStore.checked env fails agentId s with ⟨e | w, s₁⟩
  · rw [bind_apply, hchecked] at hleaves ⊢
    rw [bind_apply, hchecked]
    exact hnone _ hleaves
  · rw [bind_of_ok hchecked] at hleaves ⊢
    rw [bind_of_ok hchecked]
    have hmax := hfixed agentId w (checked_ok hchecked)
    rcases hweighed : WatcherStore.weighed env fails rows recordId agentId event w s₁ with ⟨e | prep, s₂⟩
    · rw [hweighed] at hleaves
      rw [bind_apply, hweighed]
      exact hnone _ hleaves
    · rw [hweighed] at hleaves
      rw [bind_of_ok hweighed]
      dsimp only at hleaves ⊢
      by_cases hissue : prep.suppressedWithIssueId = none ∧ prep.shouldCreateIssue = true
      · rw [if_pos hissue]
        exact sound_settled hmax hissue.1 hissue.2 hleaves
      · rw [if_neg hissue]
        exact hnone _ fun y => (count_settled hissue y).trans (hleaves y)

/-- **An action moves each table by what has passed, exactly where its checks of the table are clean.** -/
theorem sound_step {a : Act} {s s' : Watching LocalRepo} (hfixed : Fixed max s) (hs : step env rows max a s = some s')
    (tb : Table) : Sound env max tb (checks env rows a s) s s' := by
  have hsame : checks env rows a s = [] → (∀ y, count env tb y s' = count env tb y s) →
      Sound env max tb (checks env rows a s) s s' := fun hnil h =>
    sound_of_same (fun c hc => absurd (hnil ▸ hc) List.not_mem_nil) h
  cases a with
  | submit fails recordId issueId agentId event log =>
    cases hs
    cases tb with
    | watchers =>
      refine Sound.append (sound_checked hfixed fun w C => ?_) table_issueChecks
      exact (keeps_weighed fails (stable_counters _ C) w).bind fun prep =>
        keeps_settled fails (stable_counters _ C) (agentsKeep C)
    | agents => exact Sound.append_right (sound_issueChecks hfixed) table_watcherChecks
  | prepare fails recordId agentId event =>
    cases hs
    cases tb with
    | watchers => exact sound_checked hfixed fun w C => keeps_weighed fails (stable_counters _ C) w
    | agents =>
      have hleaves : Leaves env .agents (WatcherStore.prepareDiscovery env fails rows recordId agentId event) :=
        fun C => keeps_prepareDiscovery fails (stable_counters _ C) (watchersKeep C)
      exact sound_of_same table_watcherChecks (hleaves.count s)
  | record fails agentId event recordId dedupKey receivedAt createdIssueId suppressed =>
    cases hs
    have hleaves : Leaves env tb (WatcherStore.recordDiscovery env fails agentId event recordId dedupKey receivedAt
        createdIssueId suppressed) := fun C => keeps_recordDiscovery fails (stable_counters _ C)
    exact hsame rfl (hleaves.count s)
  | createByAgent fails id title description priority labels agentId source log =>
    cases hs
    cases tb with
    | watchers =>
      have hleaves : Leaves env .watchers (WatcherStore.createByAgent env fails id title description priority labels agentId
          source (max agentId) log) := fun C => keeps_createByAgent fails (stable_counters _ C) (agentsKeep C)
      refine sound_of_same (fun c hc => ?_) (hleaves.count s)
      rw [List.mem_singleton.1 hc]
      exact fun h => by cases h
    | agents => exact sound_createByAgent s fun _ => rfl
  | register fails watcher =>
    have h' : (if watcher.issueCreationPolicy.maxPerHour = max watcher.agentId then
      some (WatcherStore.register fails watcher s).2 else none) = some s' := hs
    split at h'
    · cases h'
      exact hsame rfl ((leaves_register fails watcher).count s)
    · cases h'
  | pause fails agentId =>
    cases hs
    exact hsame rfl ((leaves_setStatus fails agentId .paused).count s)
  | resume fails agentId =>
    cases hs
    exact hsame rfl ((leaves_setStatus fails agentId .active).count s)
  | change f =>
    cases hs
    exact hsame rfl fun y => by cases tb <;> rfl

end Actions

/-! ## Runs -/

theorem stable_fixed : Stable (Fixed max) where
  tick _ _ hs := hs
  rows _ _ hs := hs
  repo _ _ _ hs := hs
  stats s a n hs := by
    intro agentId w hw
    have hw : (s.db.watchers.put a ((s.db.watchers.get a).map (counted n))).get agentId = some w := hw
    rw [FMap.get_put] at hw
    split at hw
    · next h =>
      obtain ⟨w₀, hw₀, rfl⟩ := Option.map_eq_some_iff.1 hw
      exact h ▸ hs a w₀ hw₀
    · exact hs agentId w hw

theorem fixed_insert {s : Watching LocalRepo} {agentId : Text} {w : Watcher} (hs : Fixed max s)
    (hw : w.issueCreationPolicy.maxPerHour = max agentId) :
    Fixed max { s with db := { s.db with watchers := s.db.watchers.insert agentId w } } := by
  intro a w' hw'
  have hw' : FMap.get (s.db.watchers.insert agentId w) a = some w' := hw'
  rw [FMap.get_insert] at hw'
  split at hw'
  · next h =>
    cases hw'
    rw [h]
    exact hw
  · exact hs a w' hw'

theorem fixed_setStatus (fails : WatcherCall → Bool) (agentId : Text) (status : WatcherStatus) :
    Keeps (Fixed max) (WatcherStore.setStatus fails agentId status) := by
  intro s hs
  unfold WatcherStore.setStatus WatcherStore.call
  cases fails .setStatus with
  | true => exact hs
  | false =>
    have h : (if false = true then fail .sqlite else pure () : Proc (Watching LocalRepo) WatcherError Unit) s = (.ok (), s) := rfl
    rw [bind_of_ok h, bind_apply, read_apply]
    dsimp only
    cases hget : s.db.watchers.get agentId with
    | none => exact hs
    | some w => exact fixed_insert hs (hs agentId w hget)

theorem fixed_step {a : Act} {s s' : Watching LocalRepo} (hfixed : Fixed max s) (hs : step env rows max a s = some s') :
    Fixed max s' := by
  have hwatchers : WatchersKeep env (Fixed max) := fun _ _ _ _ => Limiter.keeps_check (fun _ _ hs => hs) (fun _ hs => hs)
  have hagents : AgentsKeep env (Fixed max) := fun _ _ _ _ => Limiter.keeps_check (fun _ _ hs => hs) (fun _ hs => hs)
  cases a with
  | submit fails recordId issueId agentId event log =>
    cases hs
    exact keeps_submitDiscovery fails stable_fixed hwatchers hagents s hfixed
  | prepare fails recordId agentId event =>
    cases hs
    exact keeps_prepareDiscovery fails stable_fixed hwatchers s hfixed
  | record fails agentId event recordId dedupKey receivedAt createdIssueId suppressed =>
    cases hs
    exact keeps_recordDiscovery fails stable_fixed s hfixed
  | createByAgent fails id title description priority labels agentId source log =>
    cases hs
    exact keeps_createByAgent fails stable_fixed hagents s hfixed
  | register fails watcher =>
    have h' : (if watcher.issueCreationPolicy.maxPerHour = max watcher.agentId then
      some (WatcherStore.register fails watcher s).2 else none) = some s' := hs
    split at h'
    · next hmax =>
      cases h'
      refine Keeps.bind (keeps_call fails _) (fun _ => (keeps_read _ _).bind fun _ => keeps_ite (keeps_fail _ _) ?_) s hfixed
      exact keeps_modify fun s hs => fixed_insert hs hmax
    · cases h'
  | pause fails agentId =>
    cases hs
    exact fixed_setStatus fails agentId .paused s hfixed
  | resume fails agentId =>
    cases hs
    exact fixed_setStatus fails agentId .active s hfixed
  | change f =>
    cases hs
    exact hfixed

theorem length_watcherChecks (fails : WatcherCall → Bool) (agentId : Text) (s : Watching LocalRepo) :
    (watcherChecks fails agentId s).length ≤ 1 := by
  unfold watcherChecks
  cases (WatcherStore.get fails agentId s).1 with
  | error e => exact Nat.zero_le 1
  | ok w =>
    dsimp only
    split
    · exact Nat.zero_le 1
    · exact le_refl 1

theorem length_issueChecks (fails : WatcherCall → Bool) (recordId : Uuid) (agentId : Text) (event : DiscoveryEventKind)
    (s : Watching LocalRepo) : (issueChecks env rows fails recordId agentId event s).length ≤ 1 := by
  unfold issueChecks
  cases (WatcherStore.prepareDiscovery env fails rows recordId agentId event s).1 with
  | error e => exact Nat.zero_le 1
  | ok prep =>
    dsimp only
    split
    · exact le_refl 1
    · exact Nat.zero_le 1

theorem passed_le_one {a : Act} {s : Watching LocalRepo} (tb : Table) (y : Text × Nat) :
    passed env max tb y (checks env rows a s) ≤ 1 := by
  have hlength : ∀ cs : List Check, passed env max tb y cs ≤ cs.length := fun cs => List.countP_le_length
  have hnil : passed env max tb y [] ≤ 1 := Nat.zero_le 1
  cases a with
  | submit fails recordId issueId agentId event log =>
    have happend := @passed_append env max tb y (watcherChecks fails agentId s)
      (issueChecks env rows fails recordId agentId event s)
    have hw := (hlength _).trans (length_watcherChecks fails agentId s)
    have hi := (hlength _).trans (@length_issueChecks env rows fails recordId agentId event s)
    cases tb with
    | watchers =>
      have hzero : passed env max .watchers y (issueChecks env rows fails recordId agentId event s) = 0 :=
        passed_eq_zero fun c hc htb => absurd htb (table_issueChecks c hc)
      have h : passed env max .watchers y (checks env rows (.submit fails recordId issueId agentId event log) s) ≤ 1 := by
        refine happend.le.trans ?_
        omega
      exact h
    | agents =>
      have hzero : passed env max .agents y (watcherChecks fails agentId s) = 0 :=
        passed_eq_zero fun c hc htb => absurd htb (table_watcherChecks c hc)
      have h : passed env max .agents y (checks env rows (.submit fails recordId issueId agentId event log) s) ≤ 1 := by
        refine happend.le.trans ?_
        omega
      exact h
  | prepare fails recordId agentId event => exact (hlength _).trans (length_watcherChecks fails agentId s)
  | createByAgent => exact hlength _
  | record => exact hnil
  | register => exact hnil
  | pause => exact hnil
  | resume => exact hnil
  | change => exact hnil

theorem count_check {a : Act} {s : Watching LocalRepo} : ∀ c ∈ checks env rows a s, ∀ y,
    count env c.table y c.state = count env c.table y s := by
  have hw : ∀ fails agentId, ∀ c ∈ watcherChecks fails agentId s, ∀ y,
      count env c.table y c.state = count env c.table y s := by
    intro fails agentId c hc y
    unfold watcherChecks at hc
    cases hget : (WatcherStore.get fails agentId s).1 with
    | error e =>
      rw [hget] at hc
      cases hc
    | ok w =>
      rw [hget] at hc
      dsimp only at hc
      split at hc
      · cases hc
      · rw [List.mem_singleton.1 hc]
  intro c hc y
  cases a with
  | submit fails recordId issueId agentId event log =>
    rcases List.mem_append.1 hc with hc | hc
    · exact hw fails agentId c hc y
    · have hleaves : Leaves env .agents (WatcherStore.prepareDiscovery env fails rows recordId agentId event) :=
        fun C => keeps_prepareDiscovery fails (stable_counters _ C) (watchersKeep C)
      unfold issueChecks at hc
      cases hprepare : (WatcherStore.prepareDiscovery env fails rows recordId agentId event s).1 with
      | error e =>
        rw [hprepare] at hc
        cases hc
      | ok prep =>
        rw [hprepare] at hc
        dsimp only at hc
        split at hc
        · rw [List.mem_singleton.1 hc]
          exact hleaves.count s y
        · cases hc
  | prepare fails recordId agentId event => exact hw fails agentId c hc y
  | createByAgent => rw [List.mem_singleton.1 hc]
  | record => cases hc
  | register => cases hc
  | pause => cases hc
  | resume => cases hc
  | change => cases hc

variable {l : List (Turn Act (Watching LocalRepo))} {a : Act} {s s' : Watching LocalRepo}

theorem allChecks_concat : allChecks env rows (l ++ [⟨a, s⟩]) = allChecks env rows l ++ checks env rows a s := by
  simp [allChecks]

/-- What is kept over one more action. -/
theorem Exact.next (h : Exact env rows max l s) (hfixed : Fixed max s) (hs : step env rows max a s = some s')
    (hmeets : Meets env rows max ⟨a, s⟩) : Exact env rows max (l ++ [⟨a, s⟩]) s' := by
  have hmoved : ∀ tb y, count env tb y s' = count env tb y s + passed env max tb y (checks env rows a s) := fun tb =>
    (sound_step hfixed hs tb).2 fun c hc _ => hmeets c hc
  refine ⟨fun tb y => ?_, fun tb y => ?_, fun t ht s'' hs'' tb hrefused y => ?_⟩
  · rw [allChecks_concat, passed_append, hmoved, h.counted]
  · rw [hmoved]
    by_cases hzero : passed env max tb y (checks env rows a s) = 0
    · rw [hzero]
      exact h.within tb y
    · obtain ⟨c, hc, hp⟩ := List.countP_pos_iff.1 (Nat.pos_of_ne_zero hzero)
      obtain ⟨rfl, rfl, hpass⟩ := of_decide_eq_true hp
      have hbelow : count env c.table (c.agentId, c.hour env) c.state < max c.agentId := hpass.2.2
      rw [count_check c hc] at hbelow
      have hone := @passed_le_one env rows max a s c.table (c.agentId, c.hour env)
      dsimp only
      omega
  · rcases List.mem_append.1 ht with ht | ht
    · exact h.kept t ht s'' hs'' tb hrefused y
    · rw [List.mem_singleton.1 ht] at hs'' hrefused ⊢
      obtain rfl : s'' = s' := Option.some.inj (hs''.symm.trans hs)
      rw [hmoved, passed_eq_zero hrefused, Nat.add_zero]

/-- **In every state of a run the counters are those of the checks that have passed, within the maximum, and no check that
does not pass moves them, if and only if every check of the run is clean.** -/
theorem counters_exact_iff {s₀ : Watching LocalRepo} (hrun : Ran (step env rows max) s₀ l s)
    (hempty : ∀ tb y, count env tb y s₀ = 0) (hfixed : Fixed max s₀) :
    (∀ l₁ s₁, l₁ <+: l → Ran (step env rows max) s₀ l₁ s₁ → Exact env rows max l₁ s₁) ↔
      ∀ t ∈ l, Meets env rows max t := by
  induction hrun with
  | start =>
    refine ⟨fun _ t ht => absurd ht List.not_mem_nil, fun _ l₁ s₁ hl₁ hrun₁ => ?_⟩
    obtain rfl := List.prefix_nil.1 hl₁
    obtain rfl := hrun₁.unique .start
    refine ⟨hempty, fun tb y => ?_, fun t ht => absurd ht List.not_mem_nil⟩
    rw [hempty]
    exact Nat.zero_le _
  | @next l s s' hrun a hs ih =>
    have hfixed' : Fixed max s := @Ran.keeps _ _ _ _ _ _ (Fixed max) (fun _ _ => True)
      (fun _ _ _ h _ hs => fixed_step h hs) hfixed hrun fun _ _ => trivial
    constructor
    · intro h t ht
      have hbefore := h l s (List.prefix_append _ _) hrun
      have hafter := h _ s' (List.prefix_refl _) (hrun.next a hs)
      rcases List.mem_append.1 ht with ht | ht
      · exact ih.1 (fun l₁ s₁ hl₁ => h l₁ s₁ (hl₁.trans (List.prefix_append _ _))) t ht
      · rw [List.mem_singleton.1 ht]
        intro c hc
        refine (sound_step hfixed' hs c.table).1 (fun y => ?_) c hc rfl
        rw [hafter.counted, allChecks_concat, passed_append, hbefore.counted]
    · intro h l₁ s₁ hl₁ hrun₁
      have hbefore := ih.2 fun t ht => h t (List.mem_append_left _ ht)
      rcases List.prefix_concat_iff.1 hl₁ with rfl | hl₁
      · obtain rfl := hrun₁.unique (hrun.next a hs)
        exact (hbefore l s (List.prefix_refl _) hrun).next hfixed' hs
          (h _ (List.mem_append_right _ (List.mem_singleton.2 rfl)))
      · exact hbefore l₁ s₁ hl₁ hrun₁

/-! ## Two issues of one agent -/

/-- The steps that fail. -/
def Act.fails : Act → WatcherCall → Bool
  | .submit fails _ _ _ _ _ | .prepare fails _ _ _ | .record fails _ _ _ _ _ _ _ | .createByAgent fails _ _ _ _ _ _ _ _
  | .register fails _ | .pause fails _ | .resume fails _ => fails
  | .change _ => fun _ => false

/-- The texts of an event do not matter to an agent. -/
def envAt (clock : Nat → Nat) : WatcherEnv :=
  ⟨clock, ⟨Char.isAlphanum, fun t => t.map Char.toLower⟩, fun _ => [], fun _ => [], fun _ => []⟩

/-- An issue of the agent `bot`. -/
def byBot (id : Uuid) : Act :=
  .createByAgent (fun _ => false) id "slow query".toList "".toList .low [] "bot".toList ⟨"profiler".toList, "null".toList⟩ .vaiDir

def once : Text → Nat := fun _ => 1

def unused : Watching LocalRepo := ⟨.empty, .empty, 0⟩

/-- The state after an issue of `bot`. -/
def afterBot (clock : Nat → Nat) (id : Uuid) (s : Watching LocalRepo) : Watching LocalRepo :=
  (WatcherStore.createByAgent (envAt clock) (fun _ => false) id "slow query".toList "".toList .low [] "bot".toList
    ⟨"profiler".toList, "null".toList⟩ 1 .vaiDir s).2

def twoByBot (clock : Nat → Nat) : List (Turn Act (Watching LocalRepo)) :=
  [⟨byBot 1, unused⟩, ⟨byBot 2, afterBot clock 1 unused⟩]

theorem ran_twoByBot (clock : Nat → Nat) : Ran (step (envAt clock) .stable once) unused (twoByBot clock)
    (afterBot clock 2 (afterBot clock 1 unused)) := by
  have hfirst : Ran (step (envAt clock) .stable once) unused [⟨byBot 1, unused⟩] (afterBot clock 1 unused) :=
    Ran.start.next (byBot 1) rfl
  exact hfirst.next (byBot 2) rfl

theorem count_unused (env : WatcherEnv) (tb : Table) (y : Text × Nat) : count env tb y unused = 0 := by
  cases tb <;> rfl

theorem fixed_unused : Fixed once unused := by
  intro agentId w hw
  cases hw

/-- While the clock stands still, the second issue is refused and the counter stays at the first. -/
theorem counters_exact_iff_standing : Exact (envAt fun _ => 0) .stable once (twoByBot fun _ => 0)
    (afterBot (fun _ => 0) 2 (afterBot (fun _ => 0) 1 unused)) := by
  refine (counters_exact_iff (ran_twoByBot fun _ => 0) (count_unused _) fixed_unused).2 (fun t ht c hc => ?_) _ _
    (List.prefix_refl _) (ran_twoByBot fun _ => 0)
  have hc' : c.table = .agents ∧ c.fails = fun _ => false := by
    simp only [twoByBot, List.mem_cons, List.not_mem_nil, or_false] at ht
    rcases ht with rfl | rfl
    · rw [List.mem_singleton.1 hc]
      exact ⟨rfl, rfl⟩
    · rw [List.mem_singleton.1 hc]
      exact ⟨rfl, rfl⟩
  obtain ⟨tb, f, k, s⟩ := c
  obtain ⟨rfl, rfl⟩ := hc'
  exact ⟨fun _ => rfl, fun _ _ => ⟨rfl, fun _ => rfl⟩⟩

/-- An hour ends between the fourth reading of the clock and the third. -/
def hourEnds (n : Nat) : Nat := if n < 3 then 0 else 3600000000000

theorem monotone_hourEnds : Monotone hourEnds := by
  intro m n h
  unfold hourEnds
  split
  · exact Nat.zero_le _
  · next hm => rw [if_neg fun hn => hm (lt_of_le_of_lt h hn)]

/-- The second issue is refused as the hour ends: the counter of the hour before stays above the maximum. -/
theorem refused_as_the_hour_ends :
    ¬ ∀ (env : WatcherEnv) (rows : Sorting.RowOrder DiscoveryRow) (max : Text → Nat) (s₀ s : Watching LocalRepo)
      (l : List (Turn Act (Watching LocalRepo))), Monotone env.clock → (∀ tb y, count env tb y s₀ = 0) → Fixed max s₀ →
      Ran (step env rows max) s₀ l s → (∀ t ∈ l, t.action.fails = fun _ => false) → Exact env rows max l s := by
  intro h
  have hexact := h (envAt hourEnds) .stable once unused _ _ monotone_hourEnds (count_unused _) fixed_unused
    (ran_twoByBot hourEnds) (by
      intro t ht
      simp only [twoByBot, List.mem_cons, List.not_mem_nil, or_false] at ht
      rcases ht with rfl | rfl <;> rfl)
  have htwo : count (envAt hourEnds) .agents ("bot".toList, 0) (afterBot hourEnds 2 (afterBot hourEnds 1 unused)) = 2 := by
    decide +kernel
  have hwithin := hexact.within .agents ("bot".toList, 0)
  rw [htwo] at hwithin
  exact absurd hwithin (by decide)

end HourlyLimits
end Vai
