import Vai.Data
import Vai.Steps
/-!
# Workers — the rows of `agent_workers`, and the cap on them

`storage/postgres/worker.rs`, and `spawn_if_capacity` of `server/worker_registry.rs` with any number of calls at once.
A call counts the live rows and inserts its own later, in another statement; in between it waits for the vault.

`cap_kept`: where a call finds room only if there is room beside the calls that have counted and not inserted, the live
rows of a repository never exceed the cap, or the number there was.
-/
namespace Vai
namespace Workers

open Steps

/-! ## Rows -/

inductive WorkerState where
  | spawning | running | completed | failed | dead
deriving DecidableEq, Repr

def WorkerState.live : WorkerState → Bool
  | .spawning | .running => true
  | .completed | .failed | .dead => false

inductive WorkerDoneReason where
  | completed | failed | terminated
deriving DecidableEq, Repr

/-- The state that `mark_done` writes. -/
def WorkerDoneReason.state : WorkerDoneReason → WorkerState
  | .completed => .completed
  | .failed => .failed
  | .terminated => .dead

/-- Seconds. -/
abbrev Time := Nat

structure AgentWorker where
  id : Uuid
  repoId : Uuid
  machineId : Option Text
  state : WorkerState
  workspaceId : Option Uuid
  lastHeartbeatAt : Option Time
  startedAt : Time
deriving DecidableEq, Repr

def createWorker (id repoId : Uuid) (now : Time) (rows : List AgentWorker) : List AgentWorker :=
  rows ++ [⟨id, repoId, none, .spawning, none, none, now⟩]

def countRunningWorkers (repoId : Uuid) (rows : List AgentWorker) : Nat :=
  rows.countP (fun w => w.repoId = repoId && w.state.live)

/-- `UPDATE agent_workers SET … WHERE id = id`. -/
def updateWorker (id : Uuid) (set : AgentWorker → AgentWorker) (rows : List AgentWorker) : List AgentWorker :=
  rows.map fun w => if w.id = id then set w else w

def setMachineId (id : Uuid) (machineId : Text) : List AgentWorker → List AgentWorker :=
  updateWorker id fun w => { w with machineId := some machineId }

def updateHeartbeat (id : Uuid) (now : Time) : List AgentWorker → List AgentWorker :=
  updateWorker id fun w => { w with lastHeartbeatAt := some now }

def setWorkspaceId (id workspaceId : Uuid) : List AgentWorker → List AgentWorker :=
  updateWorker id fun w => { w with workspaceId := some workspaceId }

/-- Whatever the state was. -/
def markDone (id : Uuid) (reason : WorkerDoneReason) : List AgentWorker → List AgentWorker :=
  updateWorker id fun w => { w with state := reason.state }

def listStaleWorkers (staleSecs : Time) (now : Time) (rows : List AgentWorker) : List AgentWorker :=
  rows.filter fun w => w.state.live && w.lastHeartbeatAt.getD w.startedAt + staleSecs < now

/-- The first of them. -/
def getWorkerByWorkspace (workspaceId : Uuid) (rows : List AgentWorker) : Option AgentWorker :=
  rows.find? fun w => w.workspaceId = some workspaceId && w.state.live

theorem countRunningWorkers_createWorker (id repoId : Uuid) (now : Time) (rows : List AgentWorker) (repo : Uuid) :
    countRunningWorkers repo (createWorker id repoId now rows) =
      countRunningWorkers repo rows + if repoId = repo then 1 else 0 := by
  unfold countRunningWorkers createWorker
  rw [List.countP_append, List.countP_singleton]
  simp [WorkerState.live]

/-- An update that brings no row to life, and moves none to another repository. -/
theorem countRunningWorkers_updateWorker_le {id : Uuid} {set : AgentWorker → AgentWorker}
    (hset : ∀ w, (set w).repoId = w.repoId ∧ ((set w).state.live = true → w.state.live = true)) (rows : List AgentWorker)
    (repo : Uuid) : countRunningWorkers repo (updateWorker id set rows) ≤ countRunningWorkers repo rows := by
  unfold countRunningWorkers updateWorker
  rw [List.countP_map]
  refine List.countP_mono_left fun w _ hw => ?_
  simp only [Function.comp_apply] at hw
  split at hw
  · simp only [Bool.and_eq_true, decide_eq_true_eq, (hset w).1] at hw ⊢
    exact ⟨hw.1, (hset w).2 hw.2⟩
  · exact hw

theorem countRunningWorkers_markDone_le (id : Uuid) (reason : WorkerDoneReason) (rows : List AgentWorker) (repo : Uuid) :
    countRunningWorkers repo (markDone id reason rows) ≤ countRunningWorkers repo rows := by
  unfold markDone
  refine @countRunningWorkers_updateWorker_le id (fun w => { w with state := reason.state }) (fun w => ⟨rfl, ?_⟩) rows repo
  intro hlive
  cases reason <;> cases hlive

theorem countRunningWorkers_setMachineId_le (id : Uuid) (machineId : Text) (rows : List AgentWorker) (repo : Uuid) :
    countRunningWorkers repo (setMachineId id machineId rows) ≤ countRunningWorkers repo rows := by
  unfold setMachineId
  exact @countRunningWorkers_updateWorker_le id (fun w => { w with machineId := some machineId })
    (fun w => ⟨rfl, fun hlive => hlive⟩) rows repo

/-! ## Calls of `spawn_if_capacity` -/

inductive Phase where
  | started
  /-- Cloud agents are enabled. -/
  | allowed
  /-- There was room. -/
  | counted
  /-- There is an API key. -/
  | keyed
  | inserted (worker : Uuid)
  /-- It has returned. -/
  | ended
deriving DecidableEq, Repr

structure Call where
  repoId : Uuid
  fallbackKey : Text
  phase : Phase
deriving DecidableEq, Repr

structure Registry where
  rows : List AgentWorker
  /-- The repositories with `cloud_agent_enabled`. -/
  enabled : List Uuid
  calls : List Call

inductive Step where
  | call (repoId : Uuid) (fallbackKey : Text)
  | check (i : Nat)
  | count (i : Nat)
  /-- The vault's secrets. -/
  | secrets (i : Nat) (vault : List (Text × Text))
  | insert (i : Nat) (id : Uuid) (now : Time)
  /-- The provider's machine. -/
  | provision (i : Nat) (machineId : Text)
  /-- A statement, the vault or the provider fails. -/
  | fail (i : Nat)
  | setEnabled (repos : List Uuid)
  | markDone (id : Uuid) (reason : WorkerDoneReason)
deriving DecidableEq, Repr

/-- Call `i` is in this phase and goes to the next. -/
def Registry.go (s : Registry) (i : Nat) (phase : Phase) (next : Call → Phase) : Option Registry :=
  (s.calls[i]?).bind fun c =>
    if c.phase = phase then some { s with calls := s.calls.set i { c with phase := next c } } else none

section

variable (cap : Nat)

def step : Step → Registry → Option Registry
  | .call repoId fallbackKey, s => some { s with calls := s.calls ++ [⟨repoId, fallbackKey, .started⟩] }
  | .check i, s => s.go i .started fun c => if c.repoId ∈ s.enabled then .allowed else .ended
  | .count i, s => s.go i .allowed fun c => if cap ≤ countRunningWorkers c.repoId s.rows then .ended else .counted
  | .secrets i vault, s => s.go i .counted fun c =>
    if vault.any (fun x => x.1 = "ANTHROPIC_API_KEY".toList) || !c.fallbackKey.isEmpty then .keyed else .ended
  | .insert i id now, s =>
    if s.rows.any (fun w => w.id = id) then none
    else (s.calls[i]?).bind fun c =>
      (s.go i .keyed fun _ => .inserted id).map fun s => { s with rows := createWorker id c.repoId now s.rows }
  | .provision i machineId, s =>
    match s.calls[i]? with
    | some ⟨_, _, .inserted id⟩ =>
      (s.go i (.inserted id) fun _ => .ended).map fun s => { s with rows := setMachineId id machineId s.rows }
    | _ => none
  | .fail i, s => (s.calls[i]?).map fun c => { s with calls := s.calls.set i { c with phase := .ended } }
  | .setEnabled repos, s => some { s with enabled := repos }
  | .markDone id reason, s => some { s with rows := markDone id reason s.rows }

/-- The call has found room, and has not taken it. -/
def Call.Pending (repo : Uuid) (c : Call) : Bool := c.repoId = repo && (c.phase = .counted || c.phase = .keyed)

def Registry.pending (repo : Uuid) (s : Registry) : Nat := s.calls.countP (Call.Pending repo)

/-- A call that finds room finds room for itself and for those that have found it before. -/
def Meets (repo : Uuid) : Step → Registry → Prop
  | .count i, s => ∀ c ∈ s.calls[i]?, c.repoId = repo → countRunningWorkers repo s.rows < cap →
    countRunningWorkers repo s.rows + s.pending repo < cap
  | _, _ => True

end

/-! ## The cap -/

variable {cap : Nat} {repo : Uuid} {s s' : Registry}

/-- Live rows and the rows that calls are still to insert. -/
def Registry.load (repo : Uuid) (s : Registry) : Nat := countRunningWorkers repo s.rows + s.pending repo

/-- A call that goes on changes the load as it is pending before and after. -/
theorem load_set (repo : Uuid) {i : Nat} {c : Call} (hc : s.calls[i]? = some c) (c' : Call) :
    Registry.load repo { s with calls := s.calls.set i c' } + (if c.Pending repo then 1 else 0) =
      s.load repo + if c'.Pending repo then 1 else 0 := by
  obtain ⟨hi, rfl⟩ := List.getElem?_eq_some_iff.1 hc
  have hone : (if (s.calls[i]).Pending repo then 1 else 0) ≤ s.calls.countP (Call.Pending repo) := by
    split
    · exact List.countP_pos_iff.2 ⟨s.calls[i], List.getElem_mem hi, ‹_›⟩
    · exact Nat.zero_le _
  unfold Registry.load Registry.pending
  dsimp only
  rw [List.countP_set hi]
  omega

theorem go_cases {i : Nat} {phase : Phase} {next : Call → Phase} (h : s.go i phase next = some s') :
    ∃ c, s.calls[i]? = some c ∧ c.phase = phase ∧ s' = { s with calls := s.calls.set i { c with phase := next c } } := by
  unfold Registry.go at h
  obtain ⟨c, hc, h⟩ := Option.bind_eq_some_iff.1 h
  split at h
  · exact ⟨c, hc, ‹_›, (Option.some.inj h).symm⟩
  · cases h

/-- A call that goes on and does not find room adds nothing to the load. -/
theorem load_set_le {i : Nat} {c c' : Call} (hc : s.calls[i]? = some c)
    (hpending : c'.Pending repo = true → c.Pending repo = true) :
    Registry.load repo { s with calls := s.calls.set i c' } ≤ s.load repo := by
  have hset := load_set repo hc c'
  by_cases hc' : c'.Pending repo = true
  · rw [if_pos hc', if_pos (hpending hc')] at hset
    exact (Nat.add_right_cancel hset).le
  · rw [if_neg hc'] at hset
    omega

theorem load_count {i bound : Nat} (hcap : cap ≤ bound) (h : s.load repo ≤ bound) (hmeets : Meets cap repo (.count i) s)
    (hs : step cap (.count i) s = some s') : s'.load repo ≤ bound := by
  obtain ⟨c, hc, hphase, rfl⟩ := go_cases hs
  by_cases hroom : c.repoId = repo ∧ countRunningWorkers repo s.rows < cap
  · have hload : s.load repo < cap := hmeets c hc hroom.1 hroom.2
    have hset := load_set repo hc
      { c with phase := if cap ≤ countRunningWorkers c.repoId s.rows then .ended else .counted }
    have hone : ∀ c' : Call, (if c'.Pending repo then 1 else 0) ≤ 1 := by
      intro c'
      split <;> decide
    have := hone { c with phase := if cap ≤ countRunningWorkers c.repoId s.rows then .ended else .counted }
    omega
  · refine (load_set_le hc fun hpending => absurd ?_ hroom).trans h
    simp only [Call.Pending, Bool.and_eq_true, decide_eq_true_eq] at hpending
    obtain ⟨rfl, hphase⟩ := hpending
    by_cases hfull : cap ≤ countRunningWorkers c.repoId s.rows
    · rw [if_pos hfull] at hphase
      simp at hphase
    · exact ⟨rfl, Nat.lt_of_not_le hfull⟩

theorem load_insert {i : Nat} {id : Uuid} {now : Time} (hs : step cap (.insert i id now) s = some s') :
    s'.load repo ≤ s.load repo := by
  unfold step at hs
  dsimp only at hs
  split at hs
  · cases hs
  · obtain ⟨c, hc, hs⟩ := Option.bind_eq_some_iff.1 hs
    obtain ⟨t, ht, rfl⟩ := Option.map_eq_some_iff.1 hs
    obtain ⟨c', hc', hphase, rfl⟩ := go_cases ht
    obtain rfl : c' = c := Option.some.inj (hc'.symm.trans hc)
    have hset := load_set repo hc { c' with phase := .inserted id }
    have hcreate := countRunningWorkers_createWorker id c'.repoId now s.rows repo
    have hnot : Call.Pending repo { c' with phase := .inserted id } = false := by simp [Call.Pending]
    have hwas : c'.Pending repo = decide (c'.repoId = repo) := by simp [Call.Pending, hphase]
    simp only [hnot, hwas, decide_eq_true_eq, Bool.false_eq_true, if_false] at hset
    unfold Registry.load at hset ⊢
    dsimp only at hset ⊢
    rw [hcreate]
    unfold Registry.pending at hset ⊢
    dsimp only at hset ⊢
    omega

theorem load_rows_le {rows : List AgentWorker} (h : countRunningWorkers repo rows ≤ countRunningWorkers repo s.rows) :
    Registry.load repo { s with rows := rows } ≤ s.load repo :=
  Nat.add_le_add_right h _

/-- **Every step that meets its condition keeps the load within its bound.** -/
theorem load_step {bound : Nat} (hcap : cap ≤ bound) {a : Step} (h : s.load repo ≤ bound) (hmeets : Meets cap repo a s)
    (hs : step cap a s = some s') : s'.load repo ≤ bound := by
  cases a with
  | call repoId fallbackKey =>
    obtain rfl := Option.some.inj hs
    unfold Registry.load Registry.pending at h ⊢
    dsimp only
    rw [List.countP_append, List.countP_singleton]
    simpa [Call.Pending] using h
  | check i =>
    obtain ⟨c, hc, -, rfl⟩ := go_cases hs
    refine (load_set_le hc fun hpending => ?_).trans h
    simp only [Call.Pending, Bool.and_eq_true] at hpending
    split at hpending <;> simp at hpending
  | count i => exact load_count hcap h hmeets hs
  | secrets i vault =>
    obtain ⟨c, hc, hphase, rfl⟩ := go_cases hs
    refine (load_set_le hc fun hpending => ?_).trans h
    simp only [Call.Pending, Bool.and_eq_true] at hpending ⊢
    exact ⟨hpending.1, by simp [hphase]⟩
  | insert i id now => exact (load_insert hs).trans h
  | provision i machineId =>
    unfold step at hs
    dsimp only at hs
    split at hs
    · obtain ⟨t, ht, rfl⟩ := Option.map_eq_some_iff.1 hs
      obtain ⟨c, hc, -, rfl⟩ := go_cases ht
      refine (load_rows_le (countRunningWorkers_setMachineId_le _ _ _ _)).trans ((load_set_le hc fun hpending => ?_).trans h)
      simp [Call.Pending] at hpending
    · cases hs
  | fail i =>
    obtain ⟨c, hc, rfl⟩ := Option.map_eq_some_iff.1 hs
    refine (load_set_le hc fun hpending => ?_).trans h
    simp [Call.Pending] at hpending
  | setEnabled repos =>
    obtain rfl := Option.some.inj hs
    exact h
  | markDone id reason =>
    obtain rfl := Option.some.inj hs
    exact (load_rows_le (countRunningWorkers_markDone_le _ _ _ _)).trans h

/-- **The cap is kept where no call counts past another's place**: from any rows, with any number of calls, terminations and
failures in any order. -/
theorem cap_kept (cap : Nat) (repo : Uuid) {s₀ : Registry} (hcalls : s₀.calls = []) {l : List (Turn Step Registry)}
    (hran : Ran (step cap) s₀ l s) (hmeets : ∀ t ∈ l, Meets cap repo t.action t.before) :
    countRunningWorkers repo s.rows ≤ max cap (countRunningWorkers repo s₀.rows) := by
  have hstart : s₀.load repo ≤ max cap (countRunningWorkers repo s₀.rows) := by
    unfold Registry.load Registry.pending
    rw [hcalls]
    exact le_max_right _ _
  have hload := hran.keeps (fun a r r' hr hmeets hs => load_step (le_max_left _ _) hr hmeets hs) hstart hmeets
  exact (Nat.le_add_right _ _).trans hload

instance decidableMeets (cap : Nat) (repo : Uuid) : (a : Step) → (s : Registry) → Decidable (Meets cap repo a s)
  | .count i, s => inferInstanceAs (Decidable (∀ c ∈ s.calls[i]?, c.repoId = repo →
      countRunningWorkers repo s.rows < cap → countRunningWorkers repo s.rows + s.pending repo < cap))
  | .call _ _, _ => isTrue trivial
  | .check _, _ => isTrue trivial
  | .secrets _ _, _ => isTrue trivial
  | .insert _ _ _, _ => isTrue trivial
  | .provision _ _, _ => isTrue trivial
  | .fail _, _ => isTrue trivial
  | .setEnabled _, _ => isTrue trivial
  | .markDone _ _, _ => isTrue trivial

/-- Repository `1` has two live workers, and no call. -/
def twoWorkers : Registry where
  rows := [⟨10, 1, none, .spawning, none, none, 0⟩, ⟨11, 1, none, .spawning, none, none, 0⟩]
  enabled := [1]
  calls := []

/-- Two calls, the second after the first has inserted its row. -/
def inTurn : List Step :=
  [.call 1 "k".toList, .call 1 "k".toList, .check 0, .check 1, .count 0, .secrets 0 [], .insert 0 12 5, .count 1, .provision 0 []]

theorem cap_kept_inTurn :
    ∃ (l : List (Turn Step Registry)) (s : Registry), Ran (step 3) twoWorkers l s ∧
      (∀ t ∈ l, Meets 3 1 t.action t.before) ∧ countRunningWorkers 1 s.rows = 3 ∧
      countRunningWorkers 1 s.rows ≤ max 3 (countRunningWorkers 1 twoWorkers.rows) := by
  have hrun : ∃ r ∈ trace (step 3) inTurn twoWorkers,
      (∀ t ∈ r.1, Meets 3 1 t.action t.before) ∧ countRunningWorkers 1 r.2.rows = 3 := by
    decide +kernel
  obtain ⟨r, htrace, hmeets, hthree⟩ := hrun
  exact ⟨r.1, r.2, ran_of_trace htrace, hmeets, hthree, cap_kept 3 1 rfl (ran_of_trace htrace) hmeets⟩

/-- Two calls that both count before either inserts. -/
def atOnce : List Step :=
  [.call 1 "k".toList, .call 1 "k".toList, .check 0, .check 1, .count 0, .count 1, .secrets 0 [], .secrets 1 [], .insert 0 12 5,
   .insert 1 13 5]

/-- **Two calls at once exceed the cap.** -/
theorem cap_exceeded :
    ∃ (l : List (Turn Step Registry)) (s : Registry), Ran (step 3) twoWorkers l s ∧
      ¬ countRunningWorkers 1 s.rows ≤ max 3 (countRunningWorkers 1 twoWorkers.rows) := by
  have hrun : ∃ r ∈ trace (step 3) atOnce twoWorkers,
      ¬ countRunningWorkers 1 r.2.rows ≤ max 3 (countRunningWorkers 1 twoWorkers.rows) := by
    decide +kernel
  obtain ⟨r, htrace, hmore⟩ := hrun
  exact ⟨r.1, r.2, ran_of_trace htrace, hmore⟩

end Workers
end Vai
