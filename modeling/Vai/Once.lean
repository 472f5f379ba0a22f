import Vai.HandlerSpec
import Vai.Requests
/-!
# Once — one version from one workspace

A submit never looks at the status of its workspace: a merged or a discarded workspace is merged again, if the engine
finds something to merge.  In the histories in which there is nothing to merge whenever a submit comes for a closed
workspace, no workspace is submitted twice or after it was discarded (`submitted_once`).
-/
namespace Vai
namespace Handlers

open Proc Backend

variable {env : Env} {fails : Fails} {codecs : Codecs} {id w : Uuid} {b b' : Backend}

/-- The row says that the workspace is merged or discarded. -/
def Closed (id : Uuid) (b : Backend) : Prop :=
  ∃ wsMeta, b.row id = some wsMeta ∧ (wsMeta.status = .merged ∨ wsMeta.status = .discarded)

instance (id : Uuid) (b : Backend) : Decidable (Closed id b) :=
  match h : b.row id with
  | none => .isFalse (fun ⟨_, hm, _⟩ => by rw [h] at hm; cases hm)
  | some wsMeta => decidable_of_iff (wsMeta.status = .merged ∨ wsMeta.status = .discarded)
      ⟨fun hs => ⟨wsMeta, h, hs⟩, fun ⟨_, hm, hs⟩ => by rw [h] at hm; cases hm; exact hs⟩

theorem survives_closed : Survives (Closed w) where
  store _ _ h := h
  events _ _ h := h
  scopes _ _ h := h
  issues _ _ h := h
  versions _ _ h := h
  head _ _ h := h

theorem closed_withRow {wsMeta : WorkspaceMeta} (h : Closed w b)
    (hs : w = id → wsMeta.status = .merged ∨ wsMeta.status = .discarded) : Closed w (withRow id wsMeta b) := by
  obtain ⟨m, hm, hstatus⟩ := h
  unfold Closed
  rw [row_withRow]
  by_cases hw : w = id
  · rw [if_pos hw]
    exact ⟨_, rfl, hs hw⟩
  · rw [if_neg hw]
    exact ⟨m, hm, hstatus⟩

theorem closed_of_withRow {wsMeta : WorkspaceMeta} (hs : wsMeta.status = .merged ∨ wsMeta.status = .discarded) :
    Closed id (withRow id wsMeta b) := by
  unfold Closed
  rw [row_withRow, if_pos rfl]
  exact ⟨_, rfl, hs⟩

/-! ## A closed workspace stays closed -/

theorem closed_discardWorkspace : Keeps (Closed w) (Backend.discardWorkspace fails id) :=
  keeps_discardWorkspace fun _ _ _ hb => closed_withRow hb fun _ => .inr rfl

theorem closed_create (newId : Uuid) (intent : Text) : Keeps (Closed w) (createWorkspaceHandler fails newId intent) := by
  refine keeps_create (fun _ _ _ => keeps_record survives_closed.toRecords _) fun b v hr hb => closed_withRow hb ?_
  rintro rfl
  obtain ⟨m, hm, -⟩ := hb
  unfold Backend.row at hm
  rw [hr] at hm
  cases hm

theorem closed_discard : Keeps (Closed w) (discardWorkspaceHandler fails id) :=
  (keeps_getWorkspace.mapErr _).bind fun _ => (closed_discardWorkspace.mapErr _).bind fun _ =>
    (keeps_removeScope survives_closed.toRecords).bind fun _ => (keeps_reopenIssue survives_closed.issues).bind fun _ =>
      keeps_record survives_closed.toRecords _

theorem closed_finishUpload {wsMeta : WorkspaceMeta} {touched : Bool} {merged : List Path}
    (h : w = wsMeta.id → wsMeta.status = .merged ∨ wsMeta.status = .discarded) :
    Keeps (Closed w) (finishUpload fails wsMeta touched merged) := by
  apply keeps_finishUpload
  intro b m status deletedPaths hrow hstatus _ hb
  apply closed_withRow hb
  intro hw
  -- the row was closed when it was read, so the status is left as it is
  have hnone : status = none := by
    rcases hstatus with hs | ⟨hs, -⟩
    · exact hs
    · rcases h hw with hc | hc <;> rw [hc] at hs <;> cases hs
  subst hnone
  obtain ⟨m', hm', hs⟩ := hb
  rw [hw, hrow] at hm'
  cases hm'
  exact hs

theorem Closed.of_row {wsMeta : WorkspaceMeta} (h : Closed w b) (hrow : b.row id = some wsMeta) (hw : w = wsMeta.id) :
    wsMeta.status = .merged ∨ wsMeta.status = .discarded := by
  obtain ⟨m, hm, hs⟩ := h
  rw [hw, row_id hrow, hrow] at hm
  cases hm
  exact hs

theorem closed_upload (id : PathId) (req : UploadRequest) : Keeps (Closed w) (upload env fails codecs id req) :=
  keeps_upload (survives_closed.uploadable id) (fun _ _ hb hrow _ _ => closed_finishUpload (hb.of_row hrow)) req

/-- **No request opens a closed workspace.** -/
theorem closed_handle (c : Call) : Keeps (Closed w) (handle env codecs c) := by
  unfold handle
  cases c.request with
  | create newId intent => exact (closed_create _ _).bind fun _ => keeps_pure _ _
  | upload id req => exact closed_upload id req
  | submit newId id =>
    refine Keeps.bind (keeps_submit survives_closed closed_discardWorkspace ?_ newId) fun _ => keeps_pure _ _
    exact fun _ _ _ _ hb => closed_withRow hb fun _ => .inl rfl
  | discard id => exact closed_discard
  | issue id issue status => exact keeps_modify fun b h => h
  | elsewhere => exact keeps_modify fun b h => h

/-! ## A submit and a discard close it -/

/-- The workspace has a row. -/
def HasRow (id : Uuid) (b : Backend) : Prop := (b.row id).isSome

theorem survives_hasRow : Survives (HasRow w) where
  store _ _ h := h
  events _ _ h := h
  scopes _ _ h := h
  issues _ _ h := h
  versions _ _ h := h
  head _ _ h := h

theorem submitted_closes {id : PathId} {r : SubmitResult} (h : Submitted env fails id b r b') (hupd : fails.db .updateWorkspace = false) :
    Closed id b' := by
  obtain ⟨wsMeta, b₁, hrow, hm, rfl⟩ := h.merged
  have h₁ : HasRow id b₁ := by
    obtain rfl : _ = b₁ := congrArg Prod.snd hm
    exact survives_hasRow.store b _ (by rw [HasRow, hrow]; rfl)
  obtain ⟨m, hm⟩ := Option.isSome_iff_exists.1 (keeps_versioned survives_hasRow.toRecords wsMeta r h₁)
  rw [recordMerge_apply]
  unfold concluded
  rw [row_id hrow, updateWorkspace_apply h.getWorkspace hupd hm]
  exact keeps_record survives_closed.toRecords _ _ (closed_of_withRow (.inl rfl))

theorem discard_closes : Ends (discardWorkspaceHandler fails id) b (fun _ b' => Closed id b') (fun _ _ => True) := by
  refine (getWorkspace_ends id b).bind (fun _ _ _ => trivial) ?_
  rintro wsMeta b₀ ⟨hrow, rfl⟩
  have hdiscard : Ends (mapErr ApiError.ofStorage (Backend.discardWorkspace fails id)) b₀ (fun _ b' => Closed id b')
      (fun _ _ => True) := by
    obtain ⟨m, hm, -⟩ := Option.map_eq_some_iff.1 hrow
    apply ends_mapErr
    unfold Ends
    rw [discardWorkspace_apply, hm]
    by_cases hf : fails.db .discardWorkspace = true
    · rw [if_pos hf]
      trivial
    · rw [if_neg hf]
      exact closed_of_withRow (.inr rfl)
  refine hdiscard.bind (fun _ _ _ => trivial) fun _ b₁ h₁ => ?_
  refine (Keeps.ends ?_ h₁).mono (fun _ _ h => h) fun _ _ _ => trivial
  exact (keeps_removeScope survives_closed.toRecords).bind fun _ => (keeps_reopenIssue survives_closed.issues).bind fun _ =>
    keeps_record survives_closed.toRecords _

/-! ## Histories -/

/-- The files of the workspace cannot be merged into HEAD: one does not parse, none is left to merge, a listed deletion
has no overlay file although HEAD has moved, or an overlay file conflicts. -/
def Unmergeable (env : Env) (b : Backend) (id : PathId) (wsMeta : WorkspaceMeta) : Prop :=
  let V := filesIn b id
  let H := Merge.mergeBase wsMeta V (setupTmpdirForS3Submit wsMeta (headOf b wsMeta))
  ¬ Diff.Parses env V ∨ (∀ p, ¬ Merge.Changed V wsMeta.deletedPaths p) ∨
    (headOf b wsMeta ≠ wsMeta.baseVersion ∧ ∃ p ∈ wsMeta.deletedPaths, (b.current p).isSome ∧ b.overlay id p = none) ∨
    ∃ p, (b.overlay id p).isSome ∧ ∀ c, Merge.fate env wsMeta.id V H p ≠ some (some c)

theorem Unmergeable.not_accepted {id : PathId} {wsMeta : WorkspaceMeta} (h : Unmergeable env b id wsMeta) :
    ¬ MergeAccepted env b id wsMeta := by
  intro hacc
  rcases h with h | h | ⟨hhead, p, hp, hcur, hov⟩ | ⟨p, hov, hfate⟩
  · exact h hacc.parses
  · exact hacc.nonempty.elim h
  · have hsome : (b.overlay id p).isSome := hacc.overlay hhead p hp hcur
    rw [hov] at hsome
    cases hsome
  · obtain ⟨c, hc⟩ := hacc.merges p hov
    exact hfate c hc

/-- There is nothing to submit: the workspace or HEAD cannot be read, the issue of the workspace is closed, or its files
cannot be merged (and no failure hides a stored file from the merge). -/
def Idle (env : Env) (fails : Fails) (id : PathId) (b : Backend) : Prop :=
  (fails.db .getWorkspace = true ∨ fails.db .readHead = true) ∨ IssueClosed b id ∧ fails.db .getIssue = false ∨
    S3.Harmless fails.store b.store ∧ ∀ wsMeta, b.row id = some wsMeta → Unmergeable env b id wsMeta

theorem Idle.not_submitted {id : PathId} (h : Idle env fails id b) {r : SubmitResult} : ¬ Submitted env fails id b r b' := by
  intro hs
  rcases h with (hf | hf) | hc | ⟨hh, hno⟩
  · rw [hs.getWorkspace] at hf
    cases hf
  · rw [hs.readHead] at hf
    cases hf
  · exact hs.issueOpen hc
  · obtain ⟨wsMeta, b₁, hrow, hm, -⟩ := hs.merged
    exact (hno wsMeta hrow).not_accepted ((mergeOverStore_ends id wsMeta hh).ok hm).1

/-- A submit whose update of the row fails, of a workspace with something to submit. -/
def Loses (env : Env) (c : Call) (b : Backend) (i : Uuid) : Prop :=
  ∃ newId id, c.request = .submit newId id ∧ id.uuid = i ∧ c.fails.db .updateWorkspace = true ∧ ¬ Idle env c.fails id b

/-- Where a submit comes for a workspace whose row says that it is closed, or does not say so because its update has
failed in an earlier submit (`lost`), there is nothing to submit. -/
def Guarded (env : Env) (codecs : Codecs) : (lost : Uuid → Prop) → List Call → Backend → Prop
  | _, [], _ => True
  | lost, c :: cs, b =>
    (∀ newId id, c.request = .submit newId id → Closed id b ∨ lost id → Idle env c.fails id b) ∧
      Guarded env codecs (fun i => lost i ∨ Loses env c b i) cs (serve env codecs c b).after

def Served.Submits (i : Uuid) (s : Served) : Prop :=
  s.answer = .ok ⟨⟩ ∧ ∃ newId id, s.request = .submit newId id ∧ id.uuid = i

/-- A submit or a discard that succeeds. -/
def Served.Closes (id : Uuid) (s : Served) : Prop := s.Submits id ∨ s.answer = .ok ⟨⟩ ∧ s.request = .discard id

theorem serve_submits {c : Call} (h : (serve env codecs c b).Submits w) : ∃ newId id, c.request = .submit newId id ∧
    id.uuid = w ∧ ∃ r, Submitted env c.fails id b r (serve env codecs c b).after := by
  obtain ⟨hok, newId, id, hreq, hid⟩ := h
  have hreq : c.request = .submit newId id := hreq
  refine ⟨newId, id, hreq, hid, ?_⟩
  have hok : (handle env codecs c b).1 = .ok ⟨⟩ := hok
  have hends : Ends (handle env codecs c) b (fun _ b' => ∃ r, Submitted env c.fails id b r b') (fun _ _ => True) := by
    unfold handle
    rw [hreq]
    exact ((submitWorkspaceHandler_ends env c.fails newId id b).mono (fun r _ h => ⟨r, h⟩) fun _ _ _ => trivial).bind
      (fun _ _ h => h) fun _ _ h => ends_pure h
  exact hends.ok (Prod.ext hok rfl)

/-- What was closed has a row that says so, or that was lost. -/
theorem serve_closes {c : Call} (h : (serve env codecs c b).Closes w) :
    Closed w (serve env codecs c b).after ∨ Loses env c b w := by
  rcases h with h | ⟨hok, hreq⟩
  · obtain ⟨newId, id, hreq, rfl, r, hs⟩ := serve_submits h
    by_cases hupd : c.fails.db .updateWorkspace = true
    · exact .inr ⟨newId, id, hreq, rfl, hupd, fun hidle => hidle.not_submitted hs⟩
    · exact .inl (submitted_closes hs (by simpa using hupd))
  · have hreq : c.request = .discard w := hreq
    have hok : (handle env codecs c b).1 = .ok ⟨⟩ := hok
    have hends : Ends (handle env codecs c) b (fun _ b' => Closed w b') (fun _ _ => True) := by
      unfold handle
      rw [hreq]
      exact discard_closes
    exact .inl (hends.ok (Prod.ext hok rfl))

/-- The history goes on as it should when all that it has closed says so or was lost. -/
theorem pairwise_serveAll {lost : Uuid → Prop} {cs : List Call} {l : List Served} (hg : Guarded env codecs lost cs b)
    (hclosed : ∀ s ∈ l, s.Closes id → Closed id b ∨ lost id)
    (hl : l.Pairwise (fun s t => s.Closes id → ¬ t.Submits id)) :
    (serveAll env codecs cs l b).1.Pairwise (fun s t => s.Closes id → ¬ t.Submits id) := by
  induction cs generalizing lost l b with
  | nil => exact hl
  | cons c cs ih =>
    obtain ⟨hc, hcs⟩ := hg
    refine ih hcs (fun s hs hclose => ?_) ?_
    · rcases List.mem_append.1 hs with hs | hs
      · exact (hclosed s hs hclose).imp (fun h => closed_handle c b h) .inl
      · rw [List.mem_singleton.1 hs] at hclose
        exact (serve_closes hclose).imp_right .inr
    · refine List.pairwise_append.2 ⟨hl, List.pairwise_singleton _ _, fun s hs t ht hclose hsub => ?_⟩
      rw [List.mem_singleton.1 ht] at hsub
      obtain ⟨newId, name, hreq, rfl, r, hr⟩ := serve_submits hsub
      exact (hc newId name hreq (hclosed s hs hclose)).not_submitted hr

/-- **A workspace is submitted at most once, and never after it was discarded**, in every history in which there is
nothing to submit whenever a submit comes for a closed workspace. -/
theorem submitted_once {b₀ : Backend} {cs : List Call} (h : Guarded env codecs (fun _ => False) cs b₀) (id : Uuid) :
    (serveAll env codecs cs [] b₀).1.Pairwise (fun s t => s.Closes id → ¬ t.Submits id) :=
  pairwise_serveAll h (fun _ hs => absurd hs List.not_mem_nil) .nil

/-! ## Two histories -/

/-- What `agent::submit` asks the server for: the work directory as a snapshot, and the submit. -/
def agentSubmit (id : Uuid) : List Call := [quietly (.upload id (.snapshot true [])), quietly (.submit 9 id)]

/-- An agent creates a workspace and submits it. -/
theorem submitted_once_one_file :
    let calls := quietly (.create 1 "add a".toList) :: agentSubmit 1
    (∃ s ∈ (serveAll hashed (snapshotOf [97]) calls [] fresh).1, s.Submits 1) ∧
      (serveAll hashed (snapshotOf [97]) calls [] fresh).1.Pairwise (fun s t => s.Closes 1 → ¬ t.Submits 1) := by
  intro calls
  have hmeets : Guarded hashed (snapshotOf [97]) (fun _ => False) calls fresh := by
    refine ⟨fun _ _ h => (by cases h), fun _ _ h => (by cases h), ?_, trivial⟩
    rintro newId id h (hc | (h | h) | h)
    · cases h
      exact absurd hc (by decide +kernel)
    · exact h.elim
    · obtain ⟨_, _, hreq, -⟩ := h
      cases hreq
    · obtain ⟨_, _, hreq, -⟩ := h
      cases hreq
  refine ⟨?_, submitted_once hmeets 1⟩
  refine ⟨serve hashed (snapshotOf [97]) (quietly (.submit 9 1))
    (serveAll hashed (snapshotOf [97]) (calls.take 2) [] fresh).2, ?_, ?_, 9, _, rfl, rfl⟩
  · exact List.mem_append_right _ List.mem_cons_self
  · decide +kernel

/-- A client that submits again after its close step has failed gets a second version from the same files, and a
discarded workspace can be submitted. -/
theorem submitted_twice_and_after_discard :
    let retried := serveAll hashed (snapshotOf [97])
      (quietly (.create 1 "add a".toList) :: agentSubmit 1 ++ agentSubmit 1) [] fresh
    let discarded := serveAll hashed (snapshotOf [97])
      [quietly (.create 1 "add a".toList), quietly (.upload 1 (.snapshot true [])), quietly (.discard 1), quietly (.submit 9 1)]
      [] fresh
    ¬ retried.1.Pairwise (fun s t => s.Closes 1 → ¬ t.Submits 1) ∧ retried.2.head = some (versionName 3) ∧
      ¬ discarded.1.Pairwise (fun s t => s.Closes 1 → ¬ t.Submits 1) ∧ discarded.2.head = some (versionName 2) := by
  intro retried discarded
  have hpick : ∀ {l : List Served} {i j : Nat} (hi : i < j) (hj : j < l.length),
      l[i].Closes 1 → l[j].Submits 1 → ¬ l.Pairwise (fun s t => s.Closes 1 → ¬ t.Submits 1) := by
    intro l i j hi hj hclose hsub hp
    exact List.pairwise_iff_getElem.1 hp i j _ hj hi hclose hsub
  refine ⟨?_, by decide +kernel, ?_, by decide +kernel⟩
  · refine hpick (i := 2) (j := 4) (by decide) (by decide +kernel) (.inl ⟨by decide +kernel, 9, _, rfl, rfl⟩) ⟨by decide +kernel, 9, _, rfl, rfl⟩
  · refine hpick (i := 2) (j := 3) (by decide) (by decide +kernel) (.inr ⟨by decide +kernel, rfl⟩) ⟨by decide +kernel, 9, _, rfl, rfl⟩

end Handlers
end Vai
