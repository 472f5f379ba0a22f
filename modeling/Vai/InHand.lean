import Vai.Reconcile
/-!
# InHand — what a pass has listed and is still to act on

A pass of the reconciler lists first and writes later.  What it has listed is in its hands until then: a stale worker, the
workspace of that worker, the issue of that workspace.  `Meets` says of each operation that it finishes nothing that is in
the hands of a pass, and of each listing that it takes nothing in hand that is finished; nothing is asked of the writes of a
pass.

`reconcile_keeps_iff`: the runs of such operations are those in which no finished work is undone and none can be by what is
under way.
-/
namespace Vai
namespace Reconcile

open Steps Workers

/-! ## In the hands of a pass -/

/-- Repository and workspace of the workers that have one. -/
def heldBy (l : List AgentWorker) : List (Uuid × Uuid) := l.filterMap fun w => w.workspaceId.map fun wsId => (w.repoId, wsId)

/-- Repository and issue of a workspace. -/
def issueOf (s : Tables) (x : Uuid × Uuid) : Option (Uuid × Uuid) :=
  (getWorkspace x.1 x.2 s).bind fun row => row.issueId.map fun issueId => (x.1, issueId)

/-- The workers that a pass is still to see to. -/
def Pass.unread : Pass → List AgentWorker
  | .reaping stale => stale
  | .discarding _ _ _ stale => stale
  | .reopening _ _ stale => stale
  | .marking _ stale => stale
  | _ => []

/-- The workers it is still to mark. -/
def Pass.workers : Pass → List AgentWorker
  | .discarding w _ _ stale => w :: stale
  | .reopening w _ stale => w :: stale
  | .marking w stale => w :: stale
  | p => p.unread

/-- The workspaces it is still to discard. -/
def Pass.workspaces : Pass → List (Uuid × Uuid)
  | .discarding w wsId _ stale => (w.repoId, wsId) :: heldBy stale
  | .sweeping orphans => orphans.map fun o => (o.2.1, o.1)
  | .sweepReopening _ _ orphans => orphans.map fun o => (o.2.1, o.1)
  | p => heldBy p.unread

/-- The issues it is still to open. -/
def Pass.issues (s : Tables) : Pass → List (Uuid × Uuid)
  | .discarding w _ issueId stale => issueId.toList.map (fun i => (w.repoId, i)) ++ (heldBy stale).filterMap (issueOf s)
  | .reopening w issueId stale => (w.repoId, issueId) :: (heldBy stale).filterMap (issueOf s)
  | .sweeping orphans => orphans.map Prod.snd
  | .sweepReopening repoId issueId orphans => (repoId, issueId) :: orphans.map Prod.snd
  | p => (heldBy p.unread).filterMap (issueOf s)

/-- The worker that the teardown of a submit or a close is to mark. -/
def Handler.marks : Handler → Option Uuid
  | .terminating worker _ _ => some worker
  | _ => none

/-- A pass or a teardown is to mark this worker. -/
def Held (worker : Uuid) (s : Tables) : Prop :=
  (∃ p ∈ s.passes, ∃ w ∈ p.workers, w.id = worker) ∨ s.handler.bind Handler.marks = some worker

/-! ## The operations -/

/-- A merge is not of a workspace that a pass has in hand; a claim's new workspace is not one, unless its issue is open. -/
def Handler.Meets (newId : Uuid) (s : Tables) : Handler → Prop
  | .submitting repoId wsId => (getWorkspace repoId wsId s).isSome → ∀ p ∈ s.passes, (repoId, wsId) ∉ p.workspaces
  | .claiming repoId issueId _ =>
    (s.workspaces.get newId).isNone → ∀ p ∈ s.passes, (repoId, newId) ∈ heldBy p.unread → NotFinished repoId issueId s
  | _ => True

/-- The issue is not in the hands of a pass. -/
def Free (repoId issueId : Uuid) (s : Tables) : Prop :=
  (∃ x ∈ s.issues.get issueId, x.repoId = repoId) → ∀ p ∈ s.passes, (repoId, issueId) ∉ p.issues s

/-- What an operation must find; the writes of a pass need nothing. -/
def Meets (staleSecs : Time) : Step → Tables → Prop
  | .begin now, s => ∀ x ∈ heldBy (listStaleWorkers staleSecs now s.workers),
    NotMerged x.1 x.2 s ∧ ∀ y ∈ issueOf s x, NotFinished y.1 y.2 s
  | .pass i ok now, s => ok = true → s.passes[i]? = some (.reaping []) →
    ∀ o ∈ listOrphanedIssueWorkspaces staleSecs now s, NotFinished o.2.1 o.2.2 s
  | .submit repoId wsId, s => ∀ w ∈ getWorkspace repoId wsId s,
    (w.issueId.bind s.issues.get).any (fun i => i.repoId = repoId && i.status = .closed) = true → w.status ≠ .merged
  | .handler ok newId _, s => ok = true → ∀ h ∈ s.handler, h.Meets newId s
  | .close repoId issueId, s => Free repoId issueId s
  | .resolve repoId issueId, s => Free repoId issueId s
  | .done worker reason, s => ∀ w ∈ s.workers, w.id = worker →
    (w.state.live = true ∨ w.state = reason.state) ∧ (reason.state = .dead ∨ ¬ Held worker s)
  | .claim _ _ _, _ => True
  | .heartbeat _ _, _ => True

/-- A write on what a task has in hand, and none that lists anew. -/
def Step.OnHand (s : Tables) : Step → Prop
  | .pass i ok _ => ok = true ∧ s.passes[i]? ≠ some (.reaping [])
  | .handler ok _ _ => ok = true ∧ ∃ h ∈ s.handler, (∃ repoId wsId, h = .rejecting repoId wsId) ∨
    ∃ worker repoId rest, h = .terminating worker repoId rest
  | _ => False

/-- The writes that are under way undo finished work. -/
inductive Undoes (staleSecs : Time) : Tables → Prop where
  | now {a : Step} {s s' : Tables} (ha : a.OnHand s) (hs : step staleSecs a s = some s') (h : ¬ Keeps a s s') : Undoes staleSecs s
  | later {a : Step} {s s' : Tables} (ha : a.OnHand s) (hs : step staleSecs a s = some s') (h : Undoes staleSecs s') :
    Undoes staleSecs s

/-! ## What a task may have in hand -/

/-- Nothing finished is in the hands of the pass. -/
structure Pass.Safe (s : Tables) (p : Pass) : Prop where
  workers : ∀ w ∈ p.workers, NotEnded w.id .dead s
  workspaces : ∀ x ∈ p.workspaces, NotMerged x.1 x.2 s
  issues : ∀ x ∈ p.issues s, NotFinished x.1 x.2 s

/-- No task has finished work in hand. -/
structure Safe (s : Tables) : Prop where
  ids : (s.workers.map AgentWorker.id).Nodup
  passes : ∀ p ∈ s.passes, p.Safe s
  handler : ∀ h ∈ s.handler, h.Finds s
  listed : Listed s

/-- What is not finished in the one state is not finished in the other. -/
structure Spares (s s' : Tables) : Prop where
  workers : ∀ id, NotEnded id .dead s → NotEnded id .dead s'
  workspaces : ∀ repoId id, NotMerged repoId id s → NotMerged repoId id s'
  issues : ∀ repoId id, NotFinished repoId id s → NotFinished repoId id s'
  links : ∀ x, issueOf s' x = issueOf s x

variable {staleSecs : Time} {s s' : Tables}

theorem spares_refl (s : Tables) : Spares s s := ⟨fun _ h => h, fun _ _ h => h, fun _ _ h => h, fun _ => rfl⟩

theorem Pass.issues_congr (h : ∀ x, issueOf s' x = issueOf s x) (p : Pass) : p.issues s' = p.issues s := by
  have hlinks : issueOf s' = issueOf s := funext h
  cases p <;> simp only [Pass.issues, hlinks]

theorem Pass.Safe.spared {p : Pass} (h : p.Safe s) (hs : Spares s s') : p.Safe s' where
  workers w hw := hs.workers _ (h.workers w hw)
  workspaces x hx := hs.workspaces _ _ (h.workspaces x hx)
  issues x hx := hs.issues _ _ (h.issues x (by rwa [← Pass.issues_congr hs.links]))

/-! ### Writes -/

theorem getWorkspace_setWorkspaceStatus (repoId id : Uuid) (status : WorkspaceStatus) (s : Tables) (r i : Uuid) :
    getWorkspace r i (setWorkspaceStatus repoId id status s) =
      if r = repoId ∧ i = id then (getWorkspace r i s).map (fun w => { w with status := status }) else getWorkspace r i s := by
  unfold getWorkspace
  rw [get_setWorkspaceStatus]
  by_cases hi : i = id
  · rw [if_pos hi, hi]
    cases hw : s.workspaces.get id with
    | none => simp
    | some w =>
      by_cases hrepo : w.repoId = repoId
      · by_cases hr : r = repoId
        · simp [Option.filter_some, hrepo, hr]
        · have hne : ¬ repoId = r := fun h => hr h.symm
          simp [Option.filter_some, hrepo, hr, hne]
      · by_cases hr : r = repoId
        · simp [Option.filter_some, hrepo, hr]
        · simp [hrepo, hr]
  · rw [if_neg hi, if_neg fun h => hi h.2]

theorem setWorkspaceStatus_passes (repoId id : Uuid) (status : WorkspaceStatus) (s : Tables) :
    (setWorkspaceStatus repoId id status s).passes = s.passes := by
  unfold setWorkspaceStatus
  split <;> rfl

theorem updateIssueStatus_passes (repoId id : Uuid) (status : IssueStatus) (s : Tables) :
    (updateIssueStatus repoId id status s).passes = s.passes := by
  unfold updateIssueStatus
  split <;> rfl

theorem issueOf_setWorkspaceStatus (repoId id : Uuid) (status : WorkspaceStatus) (s : Tables) (x : Uuid × Uuid) :
    issueOf (setWorkspaceStatus repoId id status s) x = issueOf s x := by
  unfold issueOf
  rw [getWorkspace_setWorkspaceStatus]
  split
  · cases getWorkspace x.1 x.2 s <;> rfl
  · rfl

theorem issueOf_updateIssueStatus (repoId id : Uuid) (status : IssueStatus) (s : Tables) (x : Uuid × Uuid) :
    issueOf (updateIssueStatus repoId id status s) x = issueOf s x := by
  unfold issueOf getWorkspace
  rw [updateIssueStatus_workspaces]

theorem notMerged_set {status : WorkspaceStatus} (hne : status ≠ .merged) (repoId id : Uuid) {r i : Uuid}
    (h : NotMerged r i s) : NotMerged r i (setWorkspaceStatus repoId id status s) := by
  intro w hw
  rw [getWorkspace_setWorkspaceStatus] at hw
  split at hw
  · obtain ⟨_, -, rfl⟩ := Option.map_eq_some_iff.1 hw
    exact hne
  · exact h w hw

theorem notMerged_of_set {status : WorkspaceStatus} {repoId id r i : Uuid} (hfinds : NotMerged repoId id s)
    (h : NotMerged r i (setWorkspaceStatus repoId id status s)) : NotMerged r i s := by
  by_cases hx : r = repoId ∧ i = id
  · rw [hx.1, hx.2]
    exact hfinds
  · intro w hw
    refine h w ?_
    rw [getWorkspace_setWorkspaceStatus, if_neg hx]
    exact hw

theorem notFinished_set {status : IssueStatus} (hne : status ≠ .closed ∧ status ≠ .resolved) (repoId id : Uuid) {r i : Uuid}
    (h : NotFinished r i s) : NotFinished r i (updateIssueStatus repoId id status s) := by
  intro x hx hrepo
  rw [Option.mem_def, get_updateIssueStatus] at hx
  split at hx
  · rename_i hi
    obtain ⟨y, hy, rfl⟩ := Option.map_eq_some_iff.1 hx
    split
    · exact hne
    · rename_i hother
      rw [if_neg hother] at hrepo
      exact h y (by rw [hi]; exact hy) hrepo
  · exact h x hx hrepo

theorem notFinished_of_set {status : IssueStatus} {repoId id r i : Uuid} (hfinds : NotFinished repoId id s)
    (h : NotFinished r i (updateIssueStatus repoId id status s)) : NotFinished r i s := by
  intro x hx hrepo
  by_cases hi : i = id
  · by_cases hr : x.repoId = repoId
    · exact hfinds x (by rw [← hi]; exact hx) hr
    · refine h x ?_ hrepo
      rw [Option.mem_def, get_updateIssueStatus, if_pos hi, ← hi, Option.mem_def.1 hx, Option.map_some, if_neg hr]
  · refine h x ?_ hrepo
    rw [Option.mem_def, get_updateIssueStatus, if_neg hi]
    exact hx

theorem notEnded_mark {worker : Uuid} {reason : WorkerDoneReason} {id : Uuid} (hne : reason.state = .dead ∨ id ≠ worker)
    (h : NotEnded id .dead s) : NotEnded id .dead (markWorkerDone worker reason s) := by
  intro w hw hid hend
  obtain ⟨w, hmem, rfl⟩ := List.mem_map.1 hw
  by_cases hworker : w.id = worker
  · rw [if_pos hworker] at hid ⊢
    exact hne.resolve_right fun hne => hne (hid.symm.trans hworker)
  · rw [if_neg hworker] at hid hend ⊢
    exact h w hmem hid hend

theorem notEnded_of_mark {worker : Uuid} {reason : WorkerDoneReason} {id : Uuid} (hfinds : NotEnded worker .dead s)
    (h : NotEnded id .dead (markWorkerDone worker reason s)) : NotEnded id .dead s := by
  intro w hw hid hend
  by_cases hworker : w.id = worker
  · exact hfinds w hw hworker hend
  · refine h w (List.mem_map.2 ⟨w, hw, ?_⟩) hid hend
    rw [if_neg hworker]

theorem spares_discard (repoId id : Uuid) (s : Tables) : Spares s (discardWorkspace repoId id s) where
  workers i h := by unfold discardWorkspace NotEnded; rwa [setWorkspaceStatus_workers]
  workspaces _ _ h := notMerged_set (by decide) repoId id h
  issues _ _ h := by unfold discardWorkspace NotFinished; rwa [setWorkspaceStatus_issues]
  links x := issueOf_setWorkspaceStatus _ _ _ _ x

theorem spared_discard {repoId id : Uuid} (h : NotMerged repoId id s) : Spares (discardWorkspace repoId id s) s where
  workers i h := by unfold discardWorkspace NotEnded at h; rwa [setWorkspaceStatus_workers] at h
  workspaces _ _ h' := notMerged_of_set h h'
  issues _ _ h := by unfold discardWorkspace NotFinished at h; rwa [setWorkspaceStatus_issues] at h
  links x := (issueOf_setWorkspaceStatus _ _ _ _ x).symm

theorem spares_reopen (repoId id : Uuid) {status : IssueStatus} (hne : status ≠ .closed ∧ status ≠ .resolved) (s : Tables) :
    Spares s (updateIssueStatus repoId id status s) where
  workers i h := by unfold NotEnded; rwa [updateIssueStatus_workers]
  workspaces _ _ h := by unfold NotMerged getWorkspace; rwa [updateIssueStatus_workspaces]
  issues _ _ h := notFinished_set hne repoId id h
  links x := issueOf_updateIssueStatus _ _ _ _ x

theorem spared_reopen {repoId id : Uuid} {status : IssueStatus} (h : NotFinished repoId id s) :
    Spares (updateIssueStatus repoId id status s) s where
  workers i h := by unfold NotEnded at h; rwa [updateIssueStatus_workers] at h
  workspaces _ _ h := by unfold NotMerged getWorkspace at h; rwa [updateIssueStatus_workspaces] at h
  issues _ _ h' := notFinished_of_set h h'
  links x := (issueOf_updateIssueStatus _ _ _ _ x).symm

theorem spares_mark (worker : Uuid) (s : Tables) : Spares s (markWorkerDone worker .terminated s) where
  workers _ h := notEnded_mark (.inl rfl) h
  workspaces _ _ h := h
  issues _ _ h := h
  links _ := rfl

theorem spared_mark {worker : Uuid} (h : NotEnded worker .dead s) : Spares (markWorkerDone worker .terminated s) s where
  workers _ h' := notEnded_of_mark h h'
  workspaces _ _ h := h
  issues _ _ h := h
  links _ := rfl

theorem spares_updateWorker (id : Uuid) {set : AgentWorker → AgentWorker} (hid : ∀ w, (set w).id = w.id)
    (hstate : ∀ w, (set w).state = w.state) (s : Tables) : Spares s { s with workers := updateWorker id set s.workers } where
  workers i h := by
    intro w hw hwid hend
    obtain ⟨w, hmem, rfl⟩ := List.mem_map.1 hw
    split at hwid
    · rw [if_pos ‹_›, hstate] at hend ⊢
      exact h w hmem ((hid w).symm.trans hwid) hend
    · rw [if_neg ‹_›] at hend ⊢
      exact h w hmem hwid hend
  workspaces _ _ h := h
  issues _ _ h := h
  links _ := rfl

theorem spares_onlyIf {ok : Bool} {write : Tables → Tables} (h : Spares s (write s)) : Spares s (onlyIf ok write s) := by
  cases ok with
  | true => exact h
  | false => exact spares_refl s

/-! ### The statements of a pass -/

theorem Pass.Safe.subset {p q : Pass} (h : p.Safe s) (hw : q.workers ⊆ p.workers) (hws : q.workspaces ⊆ p.workspaces)
    (hi : q.issues s ⊆ p.issues s) : q.Safe s :=
  ⟨fun w hm => h.workers w (hw hm), fun x hx => h.workspaces x (hws hx), fun x hx => h.issues x (hi hx)⟩

theorem heldBy_subset (w : AgentWorker) (l : List AgentWorker) : heldBy l ⊆ heldBy (w :: l) :=
  ((List.sublist_cons_self w l).filterMap _).subset

theorem heldBy_cons {w : AgentWorker} {wsId : Uuid} (hws : w.workspaceId = some wsId) (l : List AgentWorker) :
    heldBy (w :: l) = (w.repoId, wsId) :: heldBy l := by
  unfold heldBy
  rw [List.filterMap_cons, hws]
  rfl

theorem heldBy_cons_none {w : AgentWorker} (hws : w.workspaceId = none) (l : List AgentWorker) : heldBy (w :: l) = heldBy l := by
  unfold heldBy
  rw [List.filterMap_cons, hws]
  rfl

theorem issues_read {w : AgentWorker} {wsId : Uuid} {row : WorkspaceRow} (hws : w.workspaceId = some wsId)
    (hrow : getWorkspace w.repoId wsId s = some row) (stale : List AgentWorker) :
    (Pass.reaping (w :: stale)).issues s = (Pass.discarding w wsId row.issueId stale).issues s := by
  have hissue : issueOf s (w.repoId, wsId) = row.issueId.map fun i => (w.repoId, i) := by
    unfold issueOf
    rw [hrow]
    rfl
  show (heldBy (w :: stale)).filterMap (issueOf s) = _
  rw [heldBy_cons hws, List.filterMap_cons, hissue]
  cases h : row.issueId <;> simp [Pass.issues]

theorem issues_unread {w : AgentWorker} (h : ∀ wsId, w.workspaceId = some wsId → getWorkspace w.repoId wsId s = none)
    (stale : List AgentWorker) : (Pass.reaping (w :: stale)).issues s = (Pass.marking w stale).issues s := by
  show (heldBy (w :: stale)).filterMap (issueOf s) = (heldBy stale).filterMap (issueOf s)
  cases hws : w.workspaceId with
  | none => rw [heldBy_cons_none hws]
  | some wsId =>
    have hissue : issueOf s (w.repoId, wsId) = none := by
      unfold issueOf
      rw [h wsId hws]
      rfl
    rw [heldBy_cons hws, List.filterMap_cons, hissue]

/-- A statement takes in hand what it lists, and nothing else. -/
theorem safe_next {ok : Bool} {now : Time} {p next : Pass} {write : Tables → Tables}
    (h : passStep staleSecs ok now s p = some (write, next)) (hp : p.Safe s)
    (hnew : ok = true → p = .reaping [] → ∀ o ∈ listOrphanedIssueWorkspaces staleSecs now s, NotFinished o.2.1 o.2.2 s) :
    next.Safe s := by
  cases p with
  | reaping stale =>
    cases stale with
    | nil =>
      obtain rfl := congrArg Prod.snd (Option.some.inj h)
      cases ok with
      | false => exact ⟨by simp [Pass.workers, Pass.unread], by simp [Pass.workspaces, Pass.unread, heldBy], by
          simp [Pass.issues, Pass.unread, heldBy]⟩
      | true =>
        refine ⟨by simp [Pass.workers, Pass.unread], fun x hx => ?_, fun x hx => ?_⟩
        · obtain ⟨o, ho, rfl⟩ := List.mem_map.1 hx
          obtain ⟨y, hy, ho⟩ := List.mem_filterMap.1 ho
          split at ho
          · rename_i hactive
            obtain ⟨i, -, rfl⟩ := Option.map_eq_some_iff.1 ho
            intro row hrow hmerged
            obtain rfl : y.2 = row := Option.some.inj ((FMap.mem_pairs.1 hy).symm.trans (Option.filter_eq_some_iff.1 hrow).1)
            have := hactive.1
            rw [hmerged] at this
            cases this
          · cases ho
        · obtain ⟨o, ho, rfl⟩ := List.mem_map.1 hx
          exact hnew rfl rfl o ho
    | cons w stale =>
      have hmarking : (Pass.marking w stale).Safe s :=
        hp.subset (List.Subset.refl _) (heldBy_subset w stale)
          (((List.sublist_cons_self w stale).filterMap _).filterMap _).subset
      unfold passStep at h
      dsimp only at h
      split at h
      · obtain rfl := congrArg Prod.snd (Option.some.inj h)
        exact hmarking
      · rename_i wsId hws
        split at h
        · rename_i row hrow
          obtain rfl := congrArg Prod.snd (Option.some.inj h)
          have hread : getWorkspace w.repoId wsId s = some row := by
            split at hrow
            · exact hrow
            · cases hrow
          refine hp.subset (List.Subset.refl _) ?_ (by rw [issues_read hws hread]; exact List.Subset.refl _)
          show (w.repoId, wsId) :: heldBy stale ⊆ heldBy (w :: stale)
          rw [heldBy_cons hws]
          exact List.Subset.refl _
        · obtain rfl := congrArg Prod.snd (Option.some.inj h)
          exact hmarking
  | discarding w wsId issueId stale =>
    obtain rfl := congrArg Prod.snd (Option.some.inj h)
    have hmarking : (Pass.marking w stale).Safe s :=
      hp.subset (List.Subset.refl _) (List.subset_cons_self _ _) (List.subset_append_right _ _)
    split
    · rename_i i hi
      split at hi
      · rw [hi] at hp
        exact hp.subset (List.Subset.refl _) (List.subset_cons_self _ _) (List.Subset.refl _)
      · cases hi
    · exact hmarking
  | reopening w issueId stale =>
    obtain rfl := congrArg Prod.snd (Option.some.inj h)
    exact hp.subset (List.Subset.refl _) (List.Subset.refl _) (List.subset_cons_self _ _)
  | marking w stale =>
    obtain rfl := congrArg Prod.snd (Option.some.inj h)
    exact hp.subset (List.subset_cons_self _ _) (List.Subset.refl _) (List.Subset.refl _)
  | sweeping orphans =>
    cases orphans with
    | nil =>
      obtain rfl := congrArg Prod.snd (Option.some.inj h)
      exact hp.subset (List.Subset.refl _) (List.Subset.refl _) (List.Subset.refl _)
    | cons x orphans =>
      obtain ⟨wsId, repoId, issueId⟩ := x
      obtain rfl := congrArg Prod.snd (Option.some.inj h)
      cases ok with
      | true => exact hp.subset (List.Subset.refl _) (List.subset_cons_self _ _) (List.Subset.refl _)
      | false => exact hp.subset (List.Subset.refl _) (List.subset_cons_self _ _) (List.subset_cons_self _ _)
  | sweepReopening repoId issueId orphans =>
    obtain rfl := congrArg Prod.snd (Option.some.inj h)
    exact hp.subset (List.Subset.refl _) (List.Subset.refl _) (List.subset_cons_self _ _)
  | ended => cases h

theorem safe_of_next {now : Time} {p next : Pass} {write : Tables → Tables}
    (h : passStep staleSecs true now s p = some (write, next)) (hp : p.Finds s) (hnext : next.Safe s) : p.Safe s := by
  cases p with
  | reaping stale =>
    cases stale with
    | nil => exact ⟨by simp [Pass.workers, Pass.unread], by simp [Pass.workspaces, Pass.unread, heldBy], by
        simp [Pass.issues, Pass.unread, heldBy]⟩
    | cons w stale =>
      unfold passStep at h
      dsimp only at h
      split at h
      · rename_i hws
        obtain rfl := congrArg Prod.snd (Option.some.inj h)
        refine hnext.subset (List.Subset.refl _) ?_ (by
          rw [issues_unread fun i hi => by rw [hws] at hi; cases hi]; exact List.Subset.refl _)
        show heldBy (w :: stale) ⊆ heldBy stale
        rw [heldBy_cons_none hws]
        exact List.Subset.refl _
      · rename_i wsId hws
        rw [if_pos rfl] at h
        split at h
        · rename_i row hrow
          obtain rfl := congrArg Prod.snd (Option.some.inj h)
          refine hnext.subset (List.Subset.refl _) ?_ (by rw [issues_read hws hrow]; exact List.Subset.refl _)
          show heldBy (w :: stale) ⊆ (w.repoId, wsId) :: heldBy stale
          rw [heldBy_cons hws]
          exact List.Subset.refl _
        · rename_i hrow
          obtain rfl := congrArg Prod.snd (Option.some.inj h)
          refine ⟨hnext.workers, fun x hx => ?_, fun x hx => hnext.issues x ?_⟩
          · have hx : x ∈ (w.repoId, wsId) :: heldBy stale := by
              rw [← heldBy_cons hws]
              exact hx
            rcases List.mem_cons.1 hx with rfl | hx
            · intro row hget
              rw [hrow] at hget
              cases hget
            · exact hnext.workspaces x hx
          · rwa [← issues_unread fun i hi => by rw [hws] at hi; obtain rfl := Option.some.inj hi; exact hrow]
  | discarding w wsId issueId stale =>
    obtain rfl := congrArg Prod.snd (Option.some.inj h)
    refine ⟨fun x hx => ?_, fun x hx => ?_, fun x hx => ?_⟩
    · cases issueId <;> exact hnext.workers x hx
    · rcases List.mem_cons.1 hx with rfl | hrest
      · exact hp
      · cases issueId <;> exact hnext.workspaces x hrest
    · cases issueId <;> exact hnext.issues x hx
  | reopening w issueId stale =>
    obtain rfl := congrArg Prod.snd (Option.some.inj h)
    refine ⟨hnext.workers, hnext.workspaces, fun x hx => ?_⟩
    rcases List.mem_cons.1 hx with rfl | hx
    · exact hp
    · exact hnext.issues x hx
  | marking w stale =>
    obtain rfl := congrArg Prod.snd (Option.some.inj h)
    refine ⟨fun x hx => ?_, hnext.workspaces, hnext.issues⟩
    rcases List.mem_cons.1 hx with rfl | hx
    · exact hp
    · exact hnext.workers x hx
  | sweeping orphans =>
    cases orphans with
    | nil => exact ⟨by simp [Pass.workers, Pass.unread], by simp [Pass.workspaces], by simp [Pass.issues]⟩
    | cons x orphans =>
      obtain ⟨wsId, repoId, issueId⟩ := x
      obtain rfl := congrArg Prod.snd (Option.some.inj h)
      refine ⟨hnext.workers, fun x hx => ?_, hnext.issues⟩
      rcases List.mem_cons.1 hx with rfl | hx
      · exact hp
      · exact hnext.workspaces x hx
  | sweepReopening repoId issueId orphans =>
    obtain rfl := congrArg Prod.snd (Option.some.inj h)
    refine ⟨hnext.workers, hnext.workspaces, fun x hx => ?_⟩
    rcases List.mem_cons.1 hx with rfl | hx
    · exact hp
    · exact hnext.issues x hx
  | ended => cases h

/-- What is finished when a statement of a pass is made stays so, unless the statement undoes it. -/
theorem spares_pass {ok : Bool} {now : Time} {p next : Pass} {write : Tables → Tables}
    (h : passStep staleSecs ok now s p = some (write, next)) :
    Spares s (write s) ∧ (ok = true → p.Finds s → Spares (write s) s) := by
  obtain ⟨rfl, -⟩ | ⟨repoId, wsId, rfl, hfinds⟩ | ⟨repoId, issueId, rfl, hfinds⟩ | ⟨worker, rfl, hfinds⟩ := passStep_cases h
  · exact ⟨spares_refl s, fun _ _ => spares_refl s⟩
  · refine ⟨spares_onlyIf (spares_discard repoId wsId s), fun hok hp => ?_⟩
    rw [hok]
    exact spared_discard (hfinds.1 hp)
  · refine ⟨spares_onlyIf (spares_reopen repoId issueId (by decide) s), fun hok hp => ?_⟩
    rw [hok]
    exact spared_reopen (hfinds.1 hp)
  · refine ⟨spares_onlyIf (spares_mark worker s), fun hok hp => ?_⟩
    rw [hok]
    exact spared_mark (hfinds.1 hp)

/-! ### Operations -/

theorem spares_of_tables (hworkers : s'.workers = s.workers) (hworkspaces : s'.workspaces = s.workspaces)
    (hissues : s'.issues = s.issues) : Spares s s' where
  workers _ h := by unfold NotEnded; rwa [hworkers]
  workspaces _ _ h := by unfold NotMerged getWorkspace; rwa [hworkspaces]
  issues _ _ h := by unfold NotFinished; rwa [hissues]
  links _ := by unfold issueOf getWorkspace; rw [hworkspaces]

theorem Spares.trans {t : Tables} (h : Spares s s') (h' : Spares s' t) : Spares s t :=
  ⟨fun _ hs => h'.workers _ (h.workers _ hs), fun _ _ hs => h'.workspaces _ _ (h.workspaces _ _ hs),
    fun _ _ hs => h'.issues _ _ (h.issues _ _ hs), fun x => (h'.links x).trans (h.links x)⟩

theorem Handler.Finds.spared {h : Handler} (hfinds : h.Finds s) (hs : Spares s s') : h.Finds s' := by
  cases h with
  | rejecting repoId wsId => exact hs.workspaces repoId wsId hfinds
  | terminating worker repoId wsIds => exact hs.workers worker hfinds
  | _ => trivial

theorem ids_updateWorker (id : Uuid) {set : AgentWorker → AgentWorker} (hid : ∀ w, (set w).id = w.id) (l : List AgentWorker) :
    (updateWorker id set l).map AgentWorker.id = l.map AgentWorker.id := by
  unfold updateWorker
  rw [List.map_map]
  refine List.map_congr_left fun w _ => ?_
  rw [Function.comp_apply]
  split
  · exact hid w
  · rfl

theorem ids_mark (worker : Uuid) (reason : WorkerDoneReason) (s : Tables) :
    (markWorkerDone worker reason s).workers.map AgentWorker.id = s.workers.map AgentWorker.id := by
  refine ids_updateWorker worker ?_ s.workers
  exact fun _ => rfl

theorem ids_discard (repoId id : Uuid) (s : Tables) :
    (discardWorkspace repoId id s).workers.map AgentWorker.id = s.workers.map AgentWorker.id := by
  unfold discardWorkspace
  rw [setWorkspaceStatus_workers]

theorem ids_onlyIf {ok : Bool} {write : Tables → Tables}
    (h : (write s).workers.map AgentWorker.id = s.workers.map AgentWorker.id) :
    (onlyIf ok write s).workers.map AgentWorker.id = s.workers.map AgentWorker.id := by
  cases ok with
  | true => exact h
  | false => rfl

theorem ids_pass {ok : Bool} {now : Time} {p next : Pass} {write : Tables → Tables}
    (h : passStep staleSecs ok now s p = some (write, next)) :
    (write s).workers.map AgentWorker.id = s.workers.map AgentWorker.id := by
  obtain ⟨rfl, -⟩ | ⟨repoId, wsId, rfl, -⟩ | ⟨repoId, issueId, rfl, -⟩ | ⟨worker, rfl, -⟩ := passStep_cases h
  · rfl
  · exact ids_onlyIf (ids_discard repoId wsId s)
  · exact ids_onlyIf (by rw [updateIssueStatus_workers])
  · exact ids_onlyIf (ids_mark worker .terminated s)

theorem notEnded_of_live (hids : (s.workers.map AgentWorker.id).Nodup) {w : AgentWorker} (hw : w ∈ s.workers)
    (hlive : w.state.live = true) (state : WorkerState) : NotEnded w.id state s := by
  intro w' hw' hid hend
  obtain rfl : w' = w := List.inj_on_of_nodup_map hids hw' hw hid
  rw [hlive] at hend
  cases hend

theorem Safe.spared (hs : Safe s) (hspares : Spares s s')
    (hids : s'.workers.map AgentWorker.id = s.workers.map AgentWorker.id) (hlisted : Listed s')
    (hpasses : ∀ p ∈ s'.passes, p ∈ s.passes ∨ p.Safe s') (hhandler : ∀ h ∈ s'.handler, h ∈ s.handler ∨ h.Finds s') : Safe s' where
  ids := by rw [hids]; exact hs.ids
  passes p hp := (hpasses p hp).elim (fun h => (hs.passes p h).spared hspares) id
  handler h hh := (hhandler h hh).elim (fun h' => (hs.handler h h').spared hspares) id
  listed := hlisted

theorem safe_begin {now : Time} (hs : Safe s) (hm : Meets staleSecs (.begin now) s)
    (hlisted : Listed { s with passes := s.passes ++ [.reaping (listStaleWorkers staleSecs now s.workers)] }) :
    Safe { s with passes := s.passes ++ [.reaping (listStaleWorkers staleSecs now s.workers)] } := by
  have hspares : Spares s { s with passes := s.passes ++ [.reaping (listStaleWorkers staleSecs now s.workers)] } :=
    spares_of_tables rfl rfl rfl
  refine hs.spared hspares rfl hlisted (fun p hp => ?_) fun h hh => .inl hh
  rcases List.mem_append.1 hp with hp | hp
  · exact .inl hp
  · obtain rfl := List.mem_singleton.1 hp
    refine .inr (Pass.Safe.spared (s := s) ⟨fun w hw => ?_, fun x hx => (hm x hx).1, fun y hy => ?_⟩ hspares)
    · obtain ⟨hmem, hstale⟩ := List.mem_filter.1 hw
      exact notEnded_of_live hs.ids hmem (Bool.and_eq_true_iff.1 hstale).1 .dead
    · obtain ⟨x, hx, hy⟩ := List.mem_filterMap.1 hy
      exact (hm x hx).2 y hy

theorem safe_pass {i : Nat} {ok : Bool} {now : Time} (hs : Safe s) (hm : Meets staleSecs (.pass i ok now) s)
    (h : step staleSecs (.pass i ok now) s = some s') (hlisted : Listed s') : Safe s' := by
  obtain ⟨p, hp, h⟩ := Option.bind_eq_some_iff.1 h
  obtain ⟨⟨write, next⟩, hstep, rfl⟩ := Option.map_eq_some_iff.1 h
  have hspares : Spares s { write s with passes := s.passes.set i next } :=
    (spares_pass hstep).1.trans (spares_of_tables rfl rfl rfl)
  refine hs.spared hspares (ids_pass hstep) hlisted (fun q hq => ?_) fun h hh => .inl ?_
  · refine (List.mem_or_eq_of_mem_set hq).imp_right fun hq => ?_
    rw [hq]
    refine (safe_next hstep (hs.passes p (List.mem_of_getElem? hp)) fun hok hnil => ?_).spared hspares
    exact hm hok (by rw [hp, hnil])
  · rw [← handler_pass hstep]
    exact hh

theorem notFinished_finish {status : IssueStatus} {repoId issueId : Uuid} (hfree : Free repoId issueId s) {p : Pass}
    (hp : p ∈ s.passes) (hsafe : p.Safe s) : p.Safe (updateIssueStatus repoId issueId status s) where
  workers w hw := by
    unfold NotEnded
    rw [updateIssueStatus_workers]
    exact hsafe.workers w hw
  workspaces x hx := by
    unfold NotMerged getWorkspace
    rw [updateIssueStatus_workspaces]
    exact hsafe.workspaces x hx
  issues x hx := by
    rw [Pass.issues_congr fun x => issueOf_updateIssueStatus repoId issueId status s x] at hx
    intro row hrow hrepo
    rw [Option.mem_def, get_updateIssueStatus] at hrow
    split at hrow
    · rename_i hid
      obtain ⟨y, hy, rfl⟩ := Option.map_eq_some_iff.1 hrow
      split at hrepo
      · rename_i hyrepo
        -- the issue that is finished would be one that the pass has in hand
        have hx' : x = (repoId, issueId) := Prod.ext (hrepo.symm.trans hyrepo) hid
        rw [hx'] at hx
        exact absurd hx (hfree ⟨y, hy, hyrepo⟩ p hp)
      · rename_i hother
        rw [if_neg hother]
        exact hsafe.issues x hx y (by rw [hid]; exact hy) hrepo
    · exact hsafe.issues x hx row hrow hrepo

theorem safe_finish {status : IssueStatus} {repoId issueId : Uuid} {next : Option Handler} (hs : Safe s)
    (hfree : Free repoId issueId s) (hnext : ∀ h ∈ next, h ∈ s.handler ∨ h.Finds s)
    (hlisted : Listed { updateIssueStatus repoId issueId status s with handler := next }) :
    Safe { updateIssueStatus repoId issueId status s with handler := next } where
  ids := by
    show ((updateIssueStatus repoId issueId status s).workers.map AgentWorker.id).Nodup
    rw [updateIssueStatus_workers]
    exact hs.ids
  passes p hp := by
    have hp : p ∈ s.passes := by rw [← updateIssueStatus_passes repoId issueId status]; exact hp
    exact (notFinished_finish hfree hp (hs.passes p hp)).spared (spares_of_tables rfl rfl rfl)
  handler h hh := by
    have hfinds : h.Finds s := (hnext h hh).elim (hs.handler h) id
    cases h with
    | rejecting repoId' wsId =>
      show NotMerged repoId' wsId _
      unfold NotMerged getWorkspace
      dsimp only
      rw [updateIssueStatus_workspaces]
      exact hfinds
    | terminating worker repoId' wsIds =>
      show NotEnded worker .dead _
      unfold NotEnded
      dsimp only
      rw [updateIssueStatus_workers]
      exact hfinds
    | _ => trivial
  listed := hlisted

theorem safe_done {worker : Uuid} {reason : WorkerDoneReason} (hs : Safe s) (hm : Meets staleSecs (.done worker reason) s)
    (hlisted : Listed (markWorkerDone worker reason s)) : Safe (markWorkerDone worker reason s) := by
  -- a worker that is to be marked is the one that reports only if it reports that it has been terminated
  have hheld : ∀ id, (id = worker → Held worker s) → NotEnded id .dead s → NotEnded id .dead (markWorkerDone worker reason s) := by
    intro id hid h
    by_cases hdead : reason.state = .dead ∨ id ≠ worker
    · exact notEnded_mark hdead h
    · obtain ⟨hdead, hself⟩ := not_or.1 hdead
      have hself := not_not.1 hself
      intro w hw hwid hend
      obtain ⟨w, hmem, rfl⟩ := List.mem_map.1 hw
      have hrow : w.id = worker := by
        rw [← hself, ← hwid]
        split <;> rfl
      exact absurd (hid hself) ((hm w hmem hrow).2.resolve_left hdead)
  refine ⟨?_, fun p hp => ⟨fun w hw => ?_, (hs.passes p hp).workspaces, (hs.passes p hp).issues⟩, fun h hh => ?_, hlisted⟩
  · rw [ids_mark]
    exact hs.ids
  · exact hheld w.id (fun hid => .inl ⟨p, hp, w, hw, hid⟩) ((hs.passes p hp).workers w hw)
  · have hfinds := hs.handler h hh
    cases h with
    | rejecting repoId wsId => exact hfinds
    | terminating id repoId wsIds => exact hheld id (fun hid => .inr (by rw [← hid]; exact Option.bind_eq_some_iff.2 ⟨_, hh, rfl⟩)) hfinds
    | _ => trivial

/-- An issue in the hands of a pass was so before, or is that of a workspace it is still to read. -/
theorem Pass.mem_issues {p : Pass} {x : Uuid × Uuid} (h : x ∈ p.issues s') :
    x ∈ p.issues s ∨ ∃ y ∈ heldBy p.unread, issueOf s' y = some x := by
  cases p with
  | reaping stale => exact .inr (List.mem_filterMap.1 h)
  | discarding w wsId issueId stale =>
    exact (List.mem_append.1 h).imp (fun h => List.mem_append_left _ h) fun h => List.mem_filterMap.1 h
  | reopening w issueId stale =>
    exact (List.mem_cons.1 h).imp (fun h => by rw [h]; exact List.mem_cons_self) fun h => List.mem_filterMap.1 h
  | marking w stale => exact .inr (List.mem_filterMap.1 h)
  | sweeping orphans => exact .inl h
  | sweepReopening repoId issueId orphans => exact .inl h
  | ended => exact .inl h

theorem Pass.mem_issues_of_held {p : Pass} {x y : Uuid × Uuid} (hy : y ∈ heldBy p.unread) (hx : issueOf s y = some x) :
    x ∈ p.issues s := by
  have hmem : x ∈ (heldBy p.unread).filterMap (issueOf s) := List.mem_filterMap.2 ⟨y, hy, hx⟩
  cases p with
  | reaping stale => exact hmem
  | discarding w wsId issueId stale => exact List.mem_append_right _ hmem
  | reopening w issueId stale => exact List.mem_cons_of_mem _ hmem
  | marking w stale => exact hmem
  | sweeping orphans => cases hmem
  | sweepReopening repoId issueId orphans => cases hmem
  | ended => cases hmem

/-- A claim's workspace is new, and its issue is not finished if a pass comes upon it. -/
theorem safe_claiming {newId : Uuid} {now : Time} {repoId issueId : Uuid} {worker : Option Uuid} (hs : Safe s)
    (hm : ∀ p ∈ s.passes, (repoId, newId) ∈ heldBy p.unread → NotFinished repoId issueId s) {s' : Tables}
    (hs' : s' = { s with workspaces := s.workspaces.insert newId ⟨repoId, .created, some issueId, now⟩,
                         handler := some (.claimed repoId issueId newId worker) }) (hlisted : Listed s') : Safe s' := by
  have hget : ∀ r i, getWorkspace r i s' = if i = newId then
      (if repoId = r then some ⟨repoId, .created, some issueId, now⟩ else none) else getWorkspace r i s := by
    intro r i
    rw [hs']
    unfold getWorkspace
    dsimp only
    rw [FMap.get_insert]
    split
    · rw [Option.filter_some]
      by_cases hr : repoId = r
      · rw [if_pos hr, if_pos (decide_eq_true hr)]
      · rw [if_neg hr, if_neg fun h => hr (of_decide_eq_true h)]
    · rfl
  refine ⟨?_, fun p hp => ?_, fun h hh => ?_, hlisted⟩
  · rw [hs']
    exact hs.ids
  · have hp : p ∈ s.passes := by rw [hs'] at hp; exact hp
    have hissues : s'.issues = s.issues := by rw [hs']
    have hworkers : s'.workers = s.workers := by rw [hs']
    have hsafe := hs.passes p hp
    have hspared : ∀ x : Uuid × Uuid, NotFinished x.1 x.2 s → NotFinished x.1 x.2 s' := by
      intro x hx
      unfold NotFinished
      rwa [hissues]
    refine ⟨fun w hw => ?_, fun x hx => ?_, fun x hx => hspared x ?_⟩
    · unfold NotEnded
      rw [hworkers]
      exact hsafe.workers w hw
    · intro row hrow
      rw [Option.mem_def, hget] at hrow
      split at hrow
      · split at hrow
        · obtain rfl := Option.some.inj hrow
          exact fun h => nomatch h
        · cases hrow
      · exact hsafe.workspaces x hx row hrow
    · rcases Pass.mem_issues (s := s) hx with hx | ⟨y, hy, hx⟩
      · exact hsafe.issues x hx
      · unfold issueOf at hx
        rw [hget] at hx
        split at hx
        · rename_i hid
          split at hx
          · rename_i hrepo
            obtain rfl := Option.some.inj hx
            rw [← hrepo]
            refine hm p hp ?_
            rw [← hid, hrepo]
            exact hy
          · cases hx
        · exact hsafe.issues x (Pass.mem_issues_of_held hy hx)
  · rw [hs'] at hh
    obtain rfl := Option.some.inj hh
    trivial

theorem safe_merge {repoId wsId : Uuid} (hs : Safe s)
    (hm : (getWorkspace repoId wsId s).isSome → ∀ p ∈ s.passes, (repoId, wsId) ∉ p.workspaces)
    (hlisted : Listed { setWorkspaceStatus repoId wsId .merged s with handler := none }) :
    Safe { setWorkspaceStatus repoId wsId .merged s with handler := none } where
  ids := by
    show ((setWorkspaceStatus repoId wsId .merged s).workers.map AgentWorker.id).Nodup
    rw [setWorkspaceStatus_workers]
    exact hs.ids
  passes p hp := by
    have hp : p ∈ s.passes := by rw [← setWorkspaceStatus_passes repoId wsId .merged]; exact hp
    have hsafe := hs.passes p hp
    refine Pass.Safe.spared (s := setWorkspaceStatus repoId wsId .merged s) ⟨fun w hw => ?_, fun x hx => ?_, fun x hx => ?_⟩
      (spares_of_tables rfl rfl rfl)
    · unfold NotEnded
      rw [setWorkspaceStatus_workers]
      exact hsafe.workers w hw
    · intro w hw
      rw [Option.mem_def, getWorkspace_setWorkspaceStatus] at hw
      split at hw
      · rename_i hid
        obtain ⟨row, hrow, -⟩ := Option.map_eq_some_iff.1 hw
        rw [hid.1, hid.2] at hrow
        have hx' : x = (repoId, wsId) := Prod.ext hid.1 hid.2
        rw [hx'] at hx
        exact absurd hx (hm (by rw [hrow]; rfl) p hp)
      · exact hsafe.workspaces x hx w hw
    · rw [Pass.issues_congr fun x => issueOf_setWorkspaceStatus repoId wsId .merged s x] at hx
      unfold NotFinished
      rw [setWorkspaceStatus_issues]
      exact hsafe.issues x hx
  handler h hh := by cases hh
  listed := hlisted

theorem safe_write (write : Tables → Tables) {next : Option Handler} (hs : Safe s) (hspares : Spares s (write s))
    (hids : (write s).workers.map AgentWorker.id = s.workers.map AgentWorker.id) (hpasses : (write s).passes = s.passes)
    (hnext : ∀ h ∈ next, h.Finds s) (hlisted : Listed { write s with handler := next }) :
    Safe { write s with handler := next } := by
  have hspares : Spares s { write s with handler := next } := hspares.trans (spares_of_tables rfl rfl rfl)
  refine hs.spared hspares hids hlisted (fun p hp => .inl ?_) fun h hh => .inr ((hnext h hh).spared hspares)
  rw [← hpasses]
  exact hp

theorem onlyIf_passes {ok : Bool} {write : Tables → Tables} (h : (write s).passes = s.passes) :
    (onlyIf ok write s).passes = s.passes := by
  cases ok with
  | true => exact h
  | false => rfl

theorem safe_handler {ok : Bool} {newId : Uuid} {now : Time} {h : Handler} (hs : Safe s) (hh : s.handler = some h)
    (hm : ok = true → h.Meets newId s)
    (hlisted : Listed { (handlerStep ok newId now s h).1 s with handler := (handlerStep ok newId now s h).2 }) :
    Safe { (handlerStep ok newId now s h).1 s with handler := (handlerStep ok newId now s h).2 } := by
  have hdiscard : ∀ repoId wsId, (onlyIf ok (discardWorkspace repoId wsId) s).passes = s.passes := fun repoId wsId =>
    onlyIf_passes (setWorkspaceStatus_passes repoId wsId .discarded s)
  cases h with
  | claiming repoId issueId worker =>
    unfold handlerStep at hlisted ⊢
    dsimp only at hlisted ⊢
    split
    · rename_i hnew
      rw [if_pos hnew] at hlisted
      exact safe_claiming hs (hm hnew.1 hnew.2) rfl hlisted
    · rename_i hnew
      rw [if_neg hnew] at hlisted
      exact safe_write id hs (spares_refl s) rfl rfl (fun h hh => by cases hh) hlisted
  | claimed repoId issueId wsId worker =>
    refine safe_write _ hs (spares_onlyIf (spares_reopen repoId issueId (by decide) s)) (ids_onlyIf ?_)
      (onlyIf_passes (updateIssueStatus_passes _ _ _ s)) (fun h hh => ?_) hlisted
    · rw [updateIssueStatus_workers]
    · cases ok with
      | true =>
        obtain rfl := Option.some.inj hh
        trivial
      | false => cases hh
  | linking wsId worker =>
    refine safe_write _ hs (spares_onlyIf ?_) (ids_onlyIf ?_) (onlyIf_passes ?_) (fun h hh => by cases hh) hlisted
    · cases worker with
      | none => exact spares_refl s
      | some w =>
        refine spares_updateWorker w ?_ ?_ s
        · exact fun _ => rfl
        · exact fun _ => rfl
    · cases worker with
      | none => rfl
      | some w =>
        refine ids_updateWorker w ?_ s.workers
        exact fun _ => rfl
    · cases worker <;> rfl
  | submitting repoId wsId =>
    cases ok with
    | true => exact safe_merge hs (hm rfl) hlisted
    | false => exact safe_write id hs (spares_refl s) rfl rfl (fun h hh => by cases hh) hlisted
  | rejecting repoId wsId =>
    refine safe_write _ hs (spares_onlyIf (spares_discard repoId wsId s)) (ids_onlyIf (ids_discard repoId wsId s))
      (hdiscard repoId wsId) (fun h hh => ?_) hlisted
    cases ok with
    | true =>
      obtain rfl := Option.some.inj hh
      trivial
    | false => cases hh
  | closing repoId issueId =>
    refine safe_write id hs (spares_refl s) rfl rfl (fun h hh => ?_) hlisted
    cases ok with
    | true =>
      obtain rfl := Option.some.inj hh
      trivial
    | false => cases hh
  | cascading repoId wsIds =>
    cases wsIds with
    | nil => exact safe_write id hs (spares_refl s) rfl rfl (fun h hh => by cases hh) hlisted
    | cons wsId rest =>
      refine safe_write _ hs (spares_onlyIf (spares_discard repoId wsId s)) (ids_onlyIf (ids_discard repoId wsId s))
        (hdiscard repoId wsId) (fun h hh => ?_) hlisted
      obtain rfl := Option.some.inj hh
      cases ok <;> trivial
  | tearing repoId wsId rest =>
    refine safe_write id hs (spares_refl s) rfl rfl (fun h hh => ?_) hlisted
    obtain rfl := Option.some.inj hh
    split
    · rename_i w hw
      split at hw
      · -- the worker that is found is live
        have hlive := List.find?_some hw
        exact notEnded_of_live hs.ids (List.mem_of_find?_eq_some hw) (Bool.and_eq_true_iff.1 hlive).2 .dead
      · cases hw
    · trivial
  | terminating worker repoId rest =>
    refine safe_write _ hs (spares_onlyIf (spares_mark worker s)) (ids_onlyIf (ids_mark worker .terminated s))
      (onlyIf_passes rfl) (fun h hh => ?_) hlisted
    obtain rfl := Option.some.inj hh
    trivial

/-- **An operation that meets its condition puts nothing finished in the hands of a task.** -/
theorem safe_step (a : Step) (hs : Safe s) (hm : Meets staleSecs a s) (h : step staleSecs a s = some s') : Safe s' := by
  have hlisted : Listed s' := listed_step a s s' hs.listed h
  cases a with
  | begin now =>
    obtain rfl := Option.some.inj h
    exact safe_begin hs hm hlisted
  | pass i ok now => exact safe_pass hs hm h hlisted
  | claim repoId issueId worker =>
    unfold step at h
    dsimp only at h
    split at h
    · obtain rfl := Option.some.inj h
      refine safe_write id hs (spares_refl s) rfl rfl (fun h hh => ?_) hlisted
      obtain rfl := Option.some.inj hh
      trivial
    · cases h
  | submit repoId wsId =>
    unfold step at h
    dsimp only at h
    split at h
    · obtain ⟨w, hw, rfl⟩ := Option.map_eq_some_iff.1 h
      refine safe_write id hs (spares_refl s) rfl rfl (fun h hh => ?_) hlisted
      obtain rfl := Option.some.inj hh
      split
      · rename_i hclosed
        intro row hrow
        obtain rfl : w = row := Option.some.inj (hw.symm.trans hrow)
        exact hm w hw hclosed
      · trivial
    · cases h
  | close repoId issueId =>
    unfold step at h
    dsimp only at h
    split at h
    · obtain rfl := Option.some.inj h
      refine safe_finish hs hm (fun h hh => .inr ?_) hlisted
      obtain rfl := Option.some.inj hh
      trivial
    · cases h
  | handler ok newId now =>
    obtain ⟨h₀, hh, rfl⟩ := Option.map_eq_some_iff.1 h
    exact safe_handler hs hh (fun hok => hm hok h₀ hh) hlisted
  | resolve repoId issueId =>
    obtain rfl := Option.some.inj h
    refine safe_finish hs hm (fun h hh => .inl ?_) hlisted
    rw [← updateIssueStatus_handler repoId issueId .resolved s]
    exact hh
  | heartbeat worker now =>
    obtain rfl := Option.some.inj h
    refine hs.spared ?_ ?_ hlisted (fun p hp => .inl hp) fun h hh => .inl hh
    · refine spares_updateWorker worker ?_ ?_ s
      · exact fun _ => rfl
      · exact fun _ => rfl
    · refine ids_updateWorker worker ?_ s.workers
      exact fun _ => rfl
  | done worker reason =>
    obtain rfl := Option.some.inj h
    exact safe_done hs hm hlisted

/-! ## What a task in whose hands it is does to finished work -/

theorem Pass.Safe.finds {p : Pass} (h : p.Safe s) : p.Finds s := by
  cases p with
  | discarding w wsId issueId stale => exact h.workspaces _ List.mem_cons_self
  | reopening w issueId stale => exact h.issues _ List.mem_cons_self
  | marking w stale => exact h.workers _ List.mem_cons_self
  | sweeping orphans =>
    cases orphans with
    | nil => trivial
    | cons x orphans => exact h.workspaces _ List.mem_cons_self
  | sweepReopening repoId issueId orphans => exact h.issues _ List.mem_cons_self
  | reaping stale => trivial
  | ended => trivial

theorem Safe.finds {a : Step} (hs : Safe s) (hm : Meets staleSecs a s) : a.Finds s := by
  cases a with
  | pass i ok now => exact fun _ p hp => (hs.passes p (List.mem_of_getElem? hp)).finds
  | handler ok newId now => exact fun _ h hh => hs.handler h hh
  | done worker reason =>
    intro w hw hid hend
    refine (hm w hw hid).1.resolve_left fun hlive => ?_
    rw [hend] at hlive
    cases hlive
  | _ => trivial

theorem Step.OnHand.meets {a : Step} (h : a.OnHand s) : Meets staleSecs a s := by
  cases a with
  | pass i ok now => exact fun _ hnil => absurd hnil h.2
  | handler ok newId now =>
    intro _ h' hh'
    obtain ⟨-, h₀, hh₀, hwrite⟩ := h
    obtain rfl : h₀ = h' := Option.some.inj (hh₀.symm.trans hh')
    obtain ⟨repoId, wsId, rfl⟩ | ⟨worker, repoId, rest, rfl⟩ := hwrite <;> trivial
  | _ => exact h.elim

theorem not_undoes (hs : Safe s) : ¬ Undoes staleSecs s := by
  intro h
  induction h with
  | now ha hstep hnot => exact hnot ((keeps_iff_finds hs.listed hstep).2 (hs.finds (ha.meets : Meets staleSecs _ _)))
  | later ha hstep _ ih => exact ih (safe_step _ hs ha.meets hstep)

/-- How far a pass is from listing anew, or from its end. -/
def Pass.left : Pass → Nat
  | .reaping stale => 4 * stale.length
  | .discarding _ _ _ stale => 4 * stale.length + 3
  | .reopening _ _ stale => 4 * stale.length + 2
  | .marking _ stale => 4 * stale.length + 1
  | .sweeping orphans => 2 * orphans.length
  | .sweepReopening _ _ orphans => 2 * orphans.length + 1
  | .ended => 0

theorem exists_passStep (staleSecs : Time) {p : Pass} (hnot : ¬ p.Safe s) :
    p ≠ .reaping [] ∧ ∃ write next, passStep staleSecs true 0 s p = some (write, next) ∧ next.left < p.left := by
  cases p with
  | reaping stale =>
    cases stale with
    | nil => exact absurd ⟨by simp [Pass.workers, Pass.unread], by simp [Pass.workspaces, Pass.unread, heldBy], by
        simp [Pass.issues, Pass.unread, heldBy]⟩ hnot
    | cons w stale =>
      refine ⟨nofun, ?_⟩
      unfold passStep
      dsimp only
      split
      · exact ⟨_, _, rfl, by simp only [Pass.left, List.length_cons]; omega⟩
      · split <;> exact ⟨_, _, rfl, by simp only [Pass.left, List.length_cons]; omega⟩
  | discarding w wsId issueId stale =>
    refine ⟨nofun, _, _, rfl, ?_⟩
    cases issueId <;> simp only [Pass.left, if_true] <;> omega
  | reopening w issueId stale => exact ⟨nofun, _, _, rfl, by simp only [Pass.left]; omega⟩
  | marking w stale => exact ⟨nofun, _, _, rfl, by simp only [Pass.left]; omega⟩
  | sweeping orphans =>
    cases orphans with
    | nil => exact absurd ⟨by simp [Pass.workers, Pass.unread], by simp [Pass.workspaces], by simp [Pass.issues]⟩ hnot
    | cons x orphans =>
      exact ⟨nofun, _, _, rfl, by simp only [Pass.left, if_true, List.length_cons]; omega⟩
  | sweepReopening repoId issueId orphans => exact ⟨nofun, _, _, rfl, by simp only [Pass.left]; omega⟩
  | ended => exact absurd ⟨by simp [Pass.workers, Pass.unread], by simp [Pass.workspaces, Pass.unread, heldBy], by
      simp [Pass.issues, Pass.unread, heldBy]⟩ hnot

/-- **A pass that has finished work in hand undoes it**, by induction on what it is still to do. -/
theorem undoes_of_pass {i : Nat} {p : Pass} (hlisted : Listed s) (hp : s.passes[i]? = some p) (hnot : ¬ p.Safe s) :
    Undoes staleSecs s := by
  induction hn : p.left using Nat.strongRecOn generalizing s p with
  | _ n ih =>
    obtain ⟨hne, write, next, hstep, hleft⟩ := exists_passStep staleSecs hnot
    have hs : step staleSecs (.pass i true 0) s = some { write s with passes := s.passes.set i next } := by
      show (s.passes[i]?).bind (fun p => (passStep staleSecs true 0 s p).map fun r =>
        { r.1 s with passes := s.passes.set i r.2 }) = _
      rw [hp, Option.bind_some, hstep]
      rfl
    have hhand : Step.OnHand s (.pass i true 0) := ⟨rfl, fun h => hne (Option.some.inj (hp.symm.trans h))⟩
    by_cases hkeeps : Keeps (.pass i true 0) s { write s with passes := s.passes.set i next }
    · have hfinds : p.Finds s := (keeps_iff_finds hlisted hs).1 hkeeps rfl p hp
      have hwritten : Spares { write s with passes := s.passes.set i next } (write s) := spares_of_tables rfl rfl rfl
      have hspares : Spares { write s with passes := s.passes.set i next } s := hwritten.trans ((spares_pass hstep).2 rfl hfinds)
      refine .later hhand hs (ih next.left (by omega) (listed_step _ _ _ hlisted hs) ?_ ?_ rfl)
      · exact List.getElem?_set_self (List.getElem?_eq_some_iff.1 hp).1
      · exact fun hnext => hnot (safe_of_next hstep hfinds (hnext.spared hspares))
    · exact .now hhand hs hkeeps

theorem undoes_of_handler {h : Handler} (hlisted : Listed s) (hh : s.handler = some h) (hnot : ¬ h.Finds s) :
    Undoes staleSecs s := by
  have hs : step staleSecs (.handler true 0 0) s =
      some { (handlerStep true 0 0 s h).1 s with handler := (handlerStep true 0 0 s h).2 } := by
    show s.handler.map (fun h => { (handlerStep true 0 0 s h).1 s with handler := (handlerStep true 0 0 s h).2 }) = _
    rw [hh]
    rfl
  have hhand : Step.OnHand s (.handler true 0 0) := by
    refine ⟨rfl, h, hh, ?_⟩
    cases h with
    | rejecting repoId wsId => exact .inl ⟨_, _, rfl⟩
    | terminating worker repoId rest => exact .inr ⟨_, _, _, rfl⟩
    | _ => exact absurd trivial hnot
  exact .now hhand hs fun hkeeps => hnot ((keeps_iff_finds hlisted hs).1 hkeeps rfl h hh)

section

variable (hlisted : Listed s') (hnot : ¬ Undoes staleSecs s')
include hlisted hnot

theorem passes_safe {p : Pass} (hp : p ∈ s'.passes) : p.Safe s' := by
  by_contra hunsafe
  obtain ⟨i, hi⟩ := List.mem_iff_getElem?.1 hp
  exact hnot (undoes_of_pass hlisted hi hunsafe)

theorem handler_finds {h : Handler} (hh : s'.handler = some h) : h.Finds s' := by
  by_contra hunsafe
  exact hnot (undoes_of_handler hlisted hh hunsafe)

/-- An issue that is finished is in no pass's hands. -/
theorem free_of_kept {repoId issueId : Uuid} {status : IssueStatus} (hstatus : status = .closed ∨ status = .resolved)
    (hp : s'.passes = s.passes) (hi : s'.issues = (updateIssueStatus repoId issueId status s).issues)
    (hlinks : ∀ x, issueOf s' x = issueOf s x) : Free repoId issueId s := by
  rintro ⟨row, hrow, hrepo⟩ p hmem hheld
  have hsafe := (passes_safe hlisted hnot (by rw [hp]; exact hmem)).issues (repoId, issueId) (by rwa [Pass.issues_congr hlinks])
  have hget : s'.issues.get issueId = some { row with status := status } := by
    rw [hi, get_updateIssueStatus, if_pos rfl, hrow, Option.map_some, if_pos hrepo]
  have hnone := hsafe _ hget hrepo
  exact hstatus.elim hnone.1 hnone.2

theorem meets_handler_of_kept {ok : Bool} {newId : Uuid} {now : Time}
    (h : step staleSecs (.handler ok newId now) s = some s') : Meets staleSecs (.handler ok newId now) s := by
  have hpasses : ∀ p ∈ s'.passes, p.Safe s' := fun p hp => passes_safe hlisted hnot hp
  intro hok h' hh'
  obtain ⟨h₀, hh₀, rfl⟩ := Option.map_eq_some_iff.1 h
  obtain rfl : h₀ = h' := Option.some.inj (hh₀.symm.trans hh')
  rw [hok] at hpasses
  cases h₀ with
  | submitting repoId wsId =>
    intro hsome p hp hheld
    obtain ⟨row, hrow⟩ := Option.isSome_iff_exists.1 hsome
    have hp : p ∈ (setWorkspaceStatus repoId wsId .merged s).passes := by rwa [setWorkspaceStatus_passes]
    refine (hpasses p hp).workspaces (repoId, wsId) hheld { row with status := .merged } ?_ rfl
    show getWorkspace repoId wsId (setWorkspaceStatus repoId wsId .merged s) = _
    rw [getWorkspace_setWorkspaceStatus, if_pos ⟨rfl, rfl⟩, hrow]
    rfl
  | claiming repoId issueId worker =>
    intro hnew p hp hheld
    unfold handlerStep at hpasses
    dsimp only at hpasses
    rw [if_pos ⟨rfl, hnew⟩] at hpasses
    refine (hpasses p hp).issues (repoId, issueId) (Pass.mem_issues_of_held hheld ?_)
    unfold issueOf getWorkspace
    dsimp only
    rw [FMap.get_insert, if_pos rfl, Option.filter_some, if_pos (decide_eq_true rfl)]
    rfl
  | _ => trivial

theorem meets_done_of_kept {worker : Uuid} {reason : WorkerDoneReason} (h : step staleSecs (.done worker reason) s = some s')
    (hfinds : (Step.done worker reason).Finds s) : Meets staleSecs (.done worker reason) s := by
  obtain rfl := Option.some.inj h
  intro w hw hid
  refine ⟨?_, ?_⟩
  · cases hlive : w.state.live with
    | true => exact .inl rfl
    | false => exact .inr (hfinds w hw hid hlive)
  · by_contra hheld
    obtain ⟨hdead, hheld⟩ := not_or.1 hheld
    have hmarked : ¬ NotEnded worker .dead (markWorkerDone worker reason s) := by
      intro hmarked
      refine hdead (hmarked { w with state := reason.state } (List.mem_map.2 ⟨w, hw, if_pos hid⟩) hid ?_)
      cases reason <;> rfl
    obtain ⟨p, hp, w', hw', rfl⟩ | hmarks := not_not.1 hheld
    · exact hmarked ((passes_safe hlisted hnot hp).workers w' hw')
    · obtain ⟨h, hh, hmarks⟩ := Option.bind_eq_some_iff.1 hmarks
      cases h with
      | terminating id repoId rest =>
        obtain rfl := Option.some.inj hmarks
        exact hmarked (handler_finds hlisted hnot hh)
      | _ => cases hmarks

/-- A step that keeps finished work, and after which none can be undone, meets the condition. -/
theorem meets_of_kept {a : Step} (h : step staleSecs a s = some s') (hfinds : a.Finds s) : Meets staleSecs a s := by
  cases a with
  | begin now =>
    obtain rfl := Option.some.inj h
    have hsafe := passes_safe hlisted hnot (p := .reaping (listStaleWorkers staleSecs now s.workers))
      (List.mem_append_right _ List.mem_cons_self)
    exact fun x hx => ⟨hsafe.workspaces x hx, fun y hy => hsafe.issues y (List.mem_filterMap.2 ⟨x, hx, hy⟩)⟩
  | pass i ok now =>
    intro hok hnil o ho
    obtain ⟨p, hp, h⟩ := Option.bind_eq_some_iff.1 h
    obtain rfl : p = .reaping [] := Option.some.inj (hp.symm.trans hnil)
    rw [hok] at h
    obtain rfl := Option.some.inj h
    have hlt : i < s.passes.length := (List.getElem?_eq_some_iff.1 hp).1
    have hsafe := passes_safe hlisted hnot (p := .sweeping (listOrphanedIssueWorkspaces staleSecs now s)) (List.mem_set hlt _)
    exact hsafe.issues o.2 (List.mem_map_of_mem ho)
  | submit repoId wsId =>
    intro w hw hclosed
    unfold step at h
    dsimp only at h
    split at h
    · rw [Option.mem_def.1 hw, Option.map_some, if_pos hclosed] at h
      obtain rfl := Option.some.inj h
      exact handler_finds hlisted hnot (h := .rejecting repoId wsId) rfl w hw
    · cases h
  | close repoId issueId =>
    unfold step at h
    dsimp only at h
    split at h
    · obtain rfl := Option.some.inj h
      exact free_of_kept hlisted hnot (.inl rfl) (updateIssueStatus_passes _ _ _ s) rfl
        (issueOf_updateIssueStatus repoId issueId .closed s)
    · cases h
  | resolve repoId issueId =>
    obtain rfl := Option.some.inj h
    exact free_of_kept hlisted hnot (.inr rfl) (updateIssueStatus_passes _ _ _ s) rfl
      (issueOf_updateIssueStatus repoId issueId .resolved s)
  | handler ok newId now => exact meets_handler_of_kept hlisted hnot h
  | done worker reason => exact meets_done_of_kept hlisted hnot h hfinds
  | _ => trivial

end

/-! ## Runs -/

/-- **Finished work is kept in a run, and by what is under way, exactly if every operation meets its condition**: from any
tables in which nothing is under way, with any number of passes and in any order of their statements and the other
operations. -/
theorem reconcile_keeps_iff (staleSecs : Time) {s₀ : Tables} (hpasses : s₀.passes = []) (hidle : s₀.handler = none)
    (hids : (s₀.workers.map AgentWorker.id).Nodup) {l : List (Turn Step Tables)} (hran : Ran (step staleSecs) s₀ l s) :
    (∀ t ∈ l, ∀ s', step staleSecs t.action t.before = some s' →
      Keeps t.action t.before s' ∧ ¬ Undoes staleSecs s') ↔ ∀ t ∈ l, Meets staleSecs t.action t.before := by
  have hstart : Safe s₀ := by
    refine ⟨hids, fun p hp => ?_, fun h hh => ?_, fun h hh => ?_⟩
    · rw [hpasses] at hp
      cases hp
    · rw [hidle] at hh
      cases hh
    · rw [hidle] at hh
      cases hh
  have hlisted := hran.before listed_step hstart.listed
  constructor
  · intro h t ht
    obtain ⟨s', hs⟩ := hran.made t ht
    have hbefore := hlisted t ht
    obtain ⟨hkeeps, hnot⟩ := h t ht s' hs
    exact meets_of_kept (listed_step _ _ _ hbefore hs) hnot hs ((keeps_iff_finds hbefore hs).1 hkeeps)
  · intro h t ht s' hs
    obtain ⟨l₁, l₂, rfl⟩ := List.append_of_mem ht
    have hsafe : Safe t.before := hran.earlier.keeps (fun a _ _ hs hm hstep => safe_step a hs hm hstep) hstart
      fun t' ht' => h t' (List.mem_append_left _ ht')
    have hmeets := h t ht
    exact ⟨(keeps_iff_finds hsafe.listed hs).2 (hsafe.finds hmeets), not_undoes (safe_step _ hsafe hmeets hs)⟩

instance decidableNotMerged (repoId id : Uuid) (s : Tables) : Decidable (NotMerged repoId id s) :=
  inferInstanceAs (Decidable (∀ w ∈ getWorkspace repoId id s, w.status ≠ .merged))

instance decidableNotFinished (repoId id : Uuid) (s : Tables) : Decidable (NotFinished repoId id s) :=
  inferInstanceAs (Decidable (∀ x ∈ s.issues.get id, x.repoId = repoId → x.status ≠ .closed ∧ x.status ≠ .resolved))

/-- Worker `7` has claimed issue `3` with workspace `5`. -/
def claimedByWorker : Tables where
  workspaces := FMap.ofList [(5, ⟨1, .active, some 3, 0⟩)]
  issues := FMap.ofList [(3, ⟨1, .inProgress⟩)]
  workers := [⟨7, 1, none, .spawning, some 5, none, 0⟩]
  passes := []
  handler := none

/-- The worker goes silent, and a pass sees to it. -/
def silent : List Step := [.begin 1000, .pass 0 true 1000, .pass 0 true 1000, .pass 0 true 1000, .pass 0 true 1000]

/-- As `Meets`, of the two steps of this run. -/
def meetsHere (a : Step) (s : Tables) : Bool :=
  match a with
  | .begin now => (heldBy (listStaleWorkers 900 now s.workers)).all fun x =>
    decide (NotMerged x.1 x.2 s ∧ ∀ y ∈ issueOf s x, NotFinished y.1 y.2 s)
  | .pass i _ _ => s.passes[i]? ≠ some (.reaping [])
  | _ => false

theorem meets_of_meetsHere {a : Step} (h : meetsHere a s = true) : Meets 900 a s := by
  cases a with
  | begin now => exact fun x hx => of_decide_eq_true (List.all_eq_true.1 h x hx)
  | pass i ok now => exact fun _ hnil => absurd hnil (of_decide_eq_true h)
  | _ => cases h

theorem reconcile_keeps_silent :
    ∃ (l : List (Turn Step Tables)) (s : Tables), Ran (step 900) claimedByWorker l s ∧
      s.issues.get 3 = some ⟨1, .open⟩ ∧ s.workspaces.get 5 = some ⟨1, .discarded, some 3, 0⟩ ∧
      ∀ t ∈ l, ∀ s', step 900 t.action t.before = some s' → Keeps t.action t.before s' := by
  have hrun : ∃ r ∈ trace (step 900) silent claimedByWorker, (∀ t ∈ r.1, meetsHere t.action t.before = true) ∧
      r.2.issues.get 3 = some ⟨1, .open⟩ ∧ r.2.workspaces.get 5 = some ⟨1, .discarded, some 3, 0⟩ := by
    decide +kernel
  obtain ⟨r, htrace, hmeets, hissue, hws⟩ := hrun
  have hkeeps := (reconcile_keeps_iff 900 rfl rfl (by decide) (ran_of_trace htrace)).2 fun t ht =>
    meets_of_meetsHere (hmeets t ht)
  exact ⟨r.1, r.2, ran_of_trace htrace, hissue, hws, fun t ht s' hs => (hkeeps t ht s' hs).1⟩

/-- The worker submits, the workspace is merged and the issue closed; then it goes silent without reporting. -/
def submittedThenSilent : List Step :=
  [.submit 1 5, .handler true 0 0, .close 1 3, .handler true 0 0, .handler true 0 0, .begin 1000, .pass 0 true 1000,
   .pass 0 true 1000, .pass 0 true 1000]

/-- **A pass discards a merged workspace and opens its closed issue.** -/
theorem reconcile_undoes :
    ∃ (l : List (Turn Step Tables)) (s : Tables), Ran (step 900) claimedByWorker l s ∧
      s.workspaces.get 5 = some ⟨1, .discarded, some 3, 0⟩ ∧ s.issues.get 3 = some ⟨1, .open⟩ ∧
      ∃ t ∈ l, t.before.workspaces.get 5 = some ⟨1, .merged, some 3, 0⟩ ∧ t.before.issues.get 3 = some ⟨1, .closed⟩ ∧
        ∃ s', step 900 t.action t.before = some s' ∧ ¬ Keeps t.action t.before s' := by
  have hrun : ∃ r ∈ trace (step 900) submittedThenSilent claimedByWorker,
      r.2.workspaces.get 5 = some ⟨1, .discarded, some 3, 0⟩ ∧ r.2.issues.get 3 = some ⟨1, .open⟩ ∧
      ∃ t ∈ r.1, t.before.workspaces.get 5 = some ⟨1, .merged, some 3, 0⟩ ∧ t.before.issues.get 3 = some ⟨1, .closed⟩ ∧
        ∃ s' ∈ step 900 t.action t.before, s'.workspaces.get 5 = some ⟨1, .discarded, some 3, 0⟩ := by
    decide +kernel
  obtain ⟨r, htrace, hws, hissue, t, ht, hmerged, hclosed, s', hs, hgone⟩ := hrun
  exact ⟨r.1, r.2, ran_of_trace htrace, hws, hissue, t, ht, hmerged, hclosed, s', hs,
    fun hkeeps => hkeeps.merged 5 _ _ hmerged rfl hgone rfl⟩

end Reconcile
end Vai
