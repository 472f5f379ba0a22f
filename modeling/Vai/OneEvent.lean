import Vai.ClaimFaults
import Vai.Discoveries
import Vai.IssueHandlers
/-!
# OneEvent — the events of one request

A request that creates, updates, closes or claims an issue calls the storage, which in SQLite appends an event of its own
to `.vai/event_log`, and then appends an event to the event store, which in SQLite is the same log.  `Journal` is what a
storage does to its log, and `Done` a request that succeeds.

`one_event_iff`: the log gains one event of the request's kind exactly when one of the two is appended and the other is not.
-/
namespace Vai
namespace IssueServer

open Proc Rows
open WorkQueue (onStore permit attemptStore)
open IssueDir (Unicode)

/-! ## Counting -/

section Counting

variable {τ ε α β : Type} {c : τ → Nat} {n : Nat}

def ReadOnly (m : Proc τ ε α) : Prop := ∀ s, (m s).2 = s

theorem readOnly_pure (a : α) : ReadOnly (pure a : Proc τ ε α) := fun _ => rfl
theorem readOnly_fail (e : ε) : ReadOnly (fail e : Proc τ ε α) := fun _ => rfl
theorem readOnly_read (f : τ → α) : ReadOnly (Proc.read f : Proc τ ε α) := fun _ => rfl

theorem readOnly_ofExcept {ε' : Type} (g : ε' → ε) (r : Except ε' α) : ReadOnly (ofExcept g r : Proc τ ε α) := by
  cases r <;> exact fun _ => rfl

theorem ReadOnly.attempt {m : Proc τ ε α} (h : ReadOnly m) : ReadOnly (attempt m) := h

theorem ReadOnly.mapErr {ε' : Type} {m : Proc τ ε' α} (h : ReadOnly m) (g : ε' → ε) : ReadOnly (mapErr g m) := by
  intro s
  have hs := h s
  unfold Proc.mapErr
  rcases hm : m s with ⟨_ | _, _⟩ <;> rw [hm] at hs <;> exact hs

theorem ReadOnly.bind {m : Proc τ ε α} {f : α → Proc τ ε β} (hm : ReadOnly m) (hf : ∀ a, ReadOnly (f a)) :
    ReadOnly (m >>= f) := by
  intro s
  have hs := hm s
  rw [bind_apply]
  rcases hms : m s with ⟨_ | a, s'⟩ <;> rw [hms] at hs
  · exact hs
  · exact (hf a s').trans hs

theorem ReadOnly.mapM {γ : Type} {f : γ → Proc τ ε α} (h : ∀ a, ReadOnly (f a)) : ∀ l : List γ, ReadOnly (l.mapM f)
  | [] => readOnly_pure _
  | a :: l => by
    rw [List.mapM_cons]
    exact (h a).bind fun _ => (ReadOnly.mapM h l).bind fun _ => readOnly_pure _

theorem ReadOnly.bind_ok {m : Proc τ ε α} {f : α → Proc τ ε β} (hm : ReadOnly m) {s s' : τ} {b : β}
    (h : (m >>= f) s = (.ok b, s')) : ∃ a, m s = (.ok a, s) ∧ f a s = (.ok b, s') := by
  obtain ⟨a, s₁, hms, hf⟩ := bind_eq_ok.1 h
  have hs := hm s
  rw [hms] at hs
  obtain rfl : s₁ = s := hs
  exact ⟨a, hms, hf⟩

/-- Where `m` succeeds, the count has grown by `n`. -/
def Adds (c : τ → Nat) (n : Nat) (m : Proc τ ε α) : Prop := ∀ s a s', m s = (.ok a, s') → c s' = c s + n

theorem ReadOnly.adds {m : Proc τ ε α} (h : ReadOnly m) : Adds c 0 m := by
  intro s a s' hm
  have hs := h s
  rw [hm] at hs
  rw [← hs]
  rfl

theorem Adds.bind {k : Nat} {m : Proc τ ε α} {f : α → Proc τ ε β} (hm : Adds c k m) (hf : ∀ a, Adds c n (f a)) :
    Adds c (k + n) (m >>= f) := by
  intro s b s' h
  obtain ⟨a, s₁, h₁, h₂⟩ := bind_eq_ok.1 h
  rw [hf a s₁ b s' h₂, hm s a s₁ h₁, Nat.add_assoc]

theorem Adds.followed {m : Proc τ ε α} {f : α → Proc τ ε β} (hm : Adds c n m) (hf : ∀ a, Adds c 0 (f a)) :
    Adds c n (m >>= f) := hm.bind hf

theorem Adds.preceded {m : Proc τ ε α} {f : α → Proc τ ε β} (hm : Adds c 0 m) (hf : ∀ a, Adds c n (f a)) :
    Adds c n (m >>= f) := by
  have h := hm.bind hf
  rwa [Nat.zero_add] at h

theorem ReadOnly.adds_bind {m : Proc τ ε α} {f : α → Proc τ ε β} (hm : ReadOnly m) (hf : ∀ a, Adds c n (f a)) :
    Adds c n (m >>= f) := by
  intro s b s' h
  obtain ⟨a, -, h₂⟩ := hm.bind_ok h
  exact hf a s b s' h₂

theorem Adds.mapErr {ε' : Type} {m : Proc τ ε' α} (h : Adds c n m) (g : ε' → ε) : Adds c n (mapErr g m) := by
  intro s a s' hm
  unfold Proc.mapErr at hm
  rcases hms : m s with ⟨_ | a', s₁⟩ <;> rw [hms] at hm <;> cases hm
  exact h s _ _ hms

theorem adds_forM {γ : Type} {f : γ → Proc τ ε PUnit} (h : ∀ a, Adds c 0 (f a)) : ∀ l : List γ, Adds c 0 (l.forM f)
  | [] => (readOnly_pure _).adds
  | a :: l => (h a).bind fun _ => adds_forM h l

end Counting

/-! ## What a storage writes to its log -/

inductive IssueEvent where
  | created | updated | linked | closed
deriving DecidableEq, Repr

def IssueEvent.is : IssueEvent → EventKind → Bool
  | .created, .issueCreated _ _ _ _ => true
  | .updated, .issueUpdated _ _ => true
  | .linked, .issueLinkedToWorkspace _ _ => true
  | .closed, .issueClosed _ _ => true
  | _, _ => false

/-- Events that are of no issue. -/
def Beside (l : List EventKind) : Prop := ∀ k : IssueEvent, l.countP k.is = 0

/-- What the calls of a storage do to its log: `writes` when the store of the issues appends events of its own, `changes`
those of an update, and `appends` when the event store takes what is appended. -/
structure Journal {σ : Type} (st : Storage σ) where
  log : σ → List EventKind
  writes : Bool
  appends : Bool
  changes : σ → Uuid → IssueUpdate → List EventKind
  getIssue : ∀ id, ReadOnly (st.getIssue id)
  listIssues : ∀ filter q, ReadOnly (st.listIssues filter q)
  listLinks : ∀ id, ReadOnly (st.listLinks id)
  listWorkspaces : ∀ b, ReadOnly (st.listWorkspaces b)
  readHead : ReadOnly st.readHead
  createLink : ∀ l s, log (st.createLink l s).2 = log s
  setWorkspaceId : ∀ w ws s, log (st.setWorkspaceId w ws s).2 = log s
  createIssue : ∀ id now issue s i s', st.createIssue id now issue s = (.ok i, s') → log s' = log s ++
    if writes then [.issueCreated id issue.title issue.creator issue.priority.asStr] else []
  updateIssue : ∀ now id u s i s', st.updateIssue now id u s = (.ok i, s') → log s' = log s ++ changes s id u
  closeIssue : ∀ now id resolution s i s', st.closeIssue now id resolution s = (.ok i, s') → log s' = log s ++
    if writes then [.issueClosed id resolution] else []
  linked : ∀ s id ws, changes s id { IssueUpdate.none with status := some .inProgress, workspaceId := some ws } =
    if writes then [.issueLinkedToWorkspace id ws] else []
  createWorkspace : ∀ id intent base issueId s ws s', st.createWorkspace id intent base issueId s = (.ok ws, s') →
    ∃ l, log s' = log s ++ l ∧ Beside l
  discardWorkspace : ∀ id s, ∃ l, log (st.discardWorkspace id s).2 = log s ++ l ∧ Beside l
  append : ∀ kind s, log (st.append kind s).2 = log s ++ if appends then [kind] else []

/-! ## The handlers -/

section Handlers

variable {σ : Type} {unicode : Unicode} {st : Storage σ} {check : Auth.RepoRole → Except ApiError Auth.RepoRole}
  {broken : Bool} {c : σ → Nat} {n : Nat}

theorem readOnly_onStore {α : Type} {m : Proc σ StorageError α} (h : ReadOnly m) : ReadOnly (onStore m) := by
  intro s
  have hs : (onStore m s).2 = { s with store := (m s.store).2 } := rfl
  rw [hs, h s.store]

theorem readOnly_permit (role : Auth.RepoRole) : ReadOnly (permit (σ := σ) check role) :=
  (readOnly_ofExcept _ _).bind fun _ => readOnly_pure _

theorem adds_onStore {α : Type} {m : Proc σ StorageError α} (h : Adds c n m) :
    Adds (fun s : Site σ => c s.store) n (onStore m) := by
  intro s a s' hm
  unfold onStore at hm
  have hm₁ : (m s.store).1 = .ok a := congrArg Prod.fst hm
  have hm₂ : s' = { s with store := (m s.store).2 } := (congrArg Prod.snd hm).symm
  rw [hm₂]
  exact h s.store a _ (Prod.ext hm₁ rfl)

theorem adds_attemptStore {α : Type} {m : Proc σ StorageError α} (h : ∀ t, c (m t).2 = c t + n) :
    Adds (fun s : Site σ => c s.store) n (attemptStore m) := by
  intro s a s' hm
  rw [WorkQueue.attemptStore_apply] at hm
  cases hm
  exact h s.store

/-- How many events of a kind the log has. -/
def Journal.count (J : Journal st) (k : IssueEvent) (t : σ) : Nat := (J.log t).countP k.is

theorem Journal.count_append (J : Journal st) (k : IssueEvent) {t t' : σ} {l : List EventKind} (h : J.log t' = J.log t ++ l) :
    J.count k t' = J.count k t + l.countP k.is := by
  unfold Journal.count
  rw [h, List.countP_append]

variable (J : Journal st) (k : IssueEvent)

theorem countP_own {k : IssueEvent} {kind : EventKind} (h : k.is kind = true) (b : Bool) :
    (if b then [kind] else []).countP k.is = b.toNat := by
  cases b <;> simp [h]

theorem countP_other {k : IssueEvent} {kind : EventKind} (h : k.is kind = false) (b : Bool) :
    (if b then [kind] else []).countP k.is = 0 := by
  cases b <;> simp [h]

variable {k} in
theorem Journal.adds_own {kind : EventKind} (h : k.is kind = true) :
    Adds (fun s : Site σ => J.count k s.store) J.appends.toNat (attemptStore (st.append kind)) :=
  adds_attemptStore fun t => by rw [J.count_append k (J.append kind t), countP_own h]

variable {k} in
theorem Journal.adds_other {kind : EventKind} (h : k.is kind = false) :
    Adds (fun s : Site σ => J.count k s.store) 0 (attemptStore (st.append kind)) :=
  adds_attemptStore fun t => by rw [J.count_append k (J.append kind t), countP_other h]

theorem Journal.adds_createLink (l : IssueLink) : Adds (fun s : Site σ => J.count k s.store) 0 (attemptStore (st.createLink l)) :=
  adds_attemptStore fun t => by
    unfold Journal.count
    rw [J.createLink]
    rfl

include J in
theorem readOnly_blocker (text : Text) : ReadOnly (blocker st text) := by
  unfold blocker
  split
  · exact readOnly_fail _
  · exact ((readOnly_onStore (J.getIssue _)).mapErr _).bind fun _ => readOnly_pure _

include J in
theorem readOnly_creation (now : Nat) (body : CreateIssueRequest) : ReadOnly (creation unicode st now body) := by
  unfold creation
  split
  · refine ((readOnly_onStore (J.listIssues _ _)).mapErr _).bind fun all => ?_
    split
    · exact readOnly_fail _
    · exact readOnly_pure _
  · exact readOnly_pure _

include J in
theorem readOnly_respond (issueId : Uuid) (issue : Issue) : ReadOnly (respond st issueId issue) := by
  have hlinked : ReadOnly (linkedWorkspaceIds st issueId) :=
    ((readOnly_onStore (J.listWorkspaces _)).mapErr _).attempt.bind fun _ => readOnly_pure _
  have hlinks : ReadOnly (linksForIssue st issueId) :=
    ((readOnly_onStore (J.listLinks _)).mapErr _).attempt.bind fun _ => readOnly_pure _
  exact hlinked.bind fun _ => hlinks.bind fun _ => readOnly_pure _

theorem readOnly_checked {α : Type} (r : Except ApiError α) : ReadOnly (checked (σ := σ) r) := readOnly_ofExcept _ r

theorem onStorage_ok {α : Type} {m : Proc σ StorageError α} {s s' : Site σ} {a : α} (h : onStorage m s = (.ok a, s')) :
    ∃ a' t, m s.store = (.ok a', t) ∧ s' = { s with store := t } := by
  unfold onStorage mapErr onStore at h
  rcases hm : m s.store with ⟨_ | a', t⟩ <;> rw [hm] at h <;> cases h
  exact ⟨_, _, rfl, rfl⟩

theorem Journal.adds_linkBlockers (blockerIds : List Uuid) (issueId : Uuid) :
    Adds (fun s : Site σ => J.count k s.store) 0 (linkBlockers st blockerIds issueId) :=
  adds_forM (fun _ => J.adds_createLink k _) _

/-- A new issue: the event of the store, and the one that is appended. -/
theorem createIssueHandler_adds (id : Uuid) (now : Nat) (body : CreateIssueRequest) :
    Adds (fun s : Site σ => J.count .created s.store) (J.writes.toNat + J.appends.toNat)
      (createIssueHandler unicode st check id now body) := by
  have hcreate : ∀ issue, Adds (J.count .created) J.writes.toNat (st.createIssue id now issue) := by
    intro issue s i s' h
    rw [J.count_append .created (J.createIssue _ _ _ _ _ _ h), countP_own rfl]
  unfold createIssueHandler
  refine (readOnly_permit _).adds_bind fun _ => (readOnly_checked _).adds_bind fun _ => (readOnly_checked _).adds_bind fun _ => ?_
  refine (readOnly_checked _).adds_bind fun _ => (readOnly_checked _).adds_bind fun priority => ?_
  refine (readOnly_creation J now body).adds_bind fun origin => ?_
  refine (ReadOnly.mapM (readOnly_blocker J) _).adds_bind fun blockerIds => ?_
  refine ((adds_onStore (hcreate _)).mapErr _).bind fun issue => ?_
  refine (J.adds_own rfl).followed fun _ => ?_
  exact (J.adds_linkBlockers .created _ _).followed fun _ => (readOnly_pure _).adds

/-- An update: the events of the store, which depend on what it changes, and the one that is appended. -/
theorem updateIssueHandler_count {now : Nat} {id : Text} {body : UpdateIssueRequest} {s s' : Site σ} {r : IssueResponse}
    (h : updateIssueHandler st check now id body s = (.ok r, s')) :
    ∃ issueId priority, parseIssueId id = .ok issueId ∧ givenPriority body.priority = .ok priority ∧
      J.count .updated s'.store = J.count .updated s.store +
        (J.changes s.store issueId (issueUpdate body priority)).countP IssueEvent.updated.is + J.appends.toNat := by
  have hchecked : ∀ {α : Type} {r : Except ApiError α} {a : α} {t : Site σ}, checked r t = (.ok a, t) → r = .ok a := by
    intro α r a t hr
    cases r <;> cases hr
    rfl
  unfold updateIssueHandler at h
  obtain ⟨_, -, h⟩ := (readOnly_permit _).bind_ok h
  obtain ⟨_, -, h⟩ := (readOnly_checked _).bind_ok h
  obtain ⟨_, -, h⟩ := (readOnly_checked _).bind_ok h
  obtain ⟨_, -, h⟩ := (readOnly_checked _).bind_ok h
  obtain ⟨issueId, hid, h⟩ := (readOnly_checked _).bind_ok h
  obtain ⟨priority, hpriority, h⟩ := (readOnly_checked _).bind_ok h
  obtain ⟨blockerIds, -, h⟩ := (ReadOnly.mapM (readOnly_blocker J) _).bind_ok h
  refine ⟨issueId, priority, hchecked hid, hchecked hpriority, ?_⟩
  obtain ⟨issue, s₁, hupdate, hrest⟩ := bind_eq_ok.1 h
  have hone : J.count .updated s₁.store = J.count .updated s.store +
      (J.changes s.store issueId (issueUpdate body priority)).countP IssueEvent.updated.is := by
    obtain ⟨i, t, hstore, rfl⟩ := onStorage_ok hupdate
    exact J.count_append .updated (J.updateIssue _ _ _ _ _ _ hstore)
  have hadds : Adds (fun s : Site σ => J.count .updated s.store) J.appends.toNat
      (linkBlockers st blockerIds issueId >>= fun _ => attemptStore (st.append (.issueUpdated issueId (fieldsChanged body))) >>=
        fun _ => respond st issueId issue) := by
    refine (J.adds_linkBlockers .updated _ _).preceded fun _ => ?_
    refine (J.adds_own rfl).followed fun _ => ?_
    exact (readOnly_respond J _ _).adds
  rw [← hone]
  exact hadds _ _ _ hrest

/-- The workspaces of a closed issue are discarded, which is an event of theirs. -/
theorem adds_cascade (reason : Text) (ws : Uuid) :
    Adds (fun s : Site σ => J.count .closed s.store) 0 (cascadeWorkspaceTeardown st reason ws) := by
  have hdiscard : Adds (fun s : Site σ => J.count .closed s.store) 0
      (attempt (onStorage (st.discardWorkspace ws)) : Proc (Site σ) ApiError _) := by
    intro s a s' h
    obtain ⟨l, hlog, hl⟩ := J.discardWorkspace ws s.store
    have hstate : s' = { s with store := (st.discardWorkspace ws s.store).2 } := by
      refine (congrArg Prod.snd h).symm.trans ?_
      unfold onStorage attempt mapErr onStore
      rcases st.discardWorkspace ws s.store with ⟨_ | _, _⟩ <;> rfl
    rw [hstate]
    have hcount := J.count_append .closed hlog
    rw [hl .closed] at hcount
    exact hcount
  unfold cascadeWorkspaceTeardown
  refine hdiscard.preceded fun r => ?_
  cases r with
  | error e => exact (readOnly_pure _).adds
  | ok _ =>
    have hengine : Adds (fun s : Site σ => J.count .closed s.store) 0
        (modify fun s => { s with engine := s.engine.removeWorkspace ws } : Proc (Site σ) ApiError Unit) := by
      intro s a s' h
      cases h
      rfl
    exact hengine.preceded fun _ => J.adds_other rfl

/-- A closed issue: the event of the store, and the one that is appended. -/
theorem closeIssueHandler_adds (now : Nat) (id : Text) (body : CloseIssueRequest) :
    Adds (fun s : Site σ => J.count .closed s.store) (J.writes.toNat + J.appends.toNat) (closeIssueHandler st check now id body) := by
  have hclose : ∀ issueId, Adds (J.count .closed) J.writes.toNat (st.closeIssue now issueId body.resolution) := by
    intro issueId s i s' h
    rw [J.count_append .closed (J.closeIssue _ _ _ _ _ _ h), countP_own rfl]
  have hactive : ∀ issueId, ReadOnly (activeWorkspaces st issueId) := fun issueId =>
    ((readOnly_onStore (J.listWorkspaces _)).mapErr _).attempt.bind fun _ => readOnly_pure _
  unfold closeIssueHandler
  refine (readOnly_permit _).adds_bind fun _ => (readOnly_checked _).adds_bind fun issueId => ?_
  refine ((adds_onStore (hclose issueId)).mapErr _).bind fun issue => ?_
  refine (J.adds_own rfl).followed fun _ => ?_
  refine (hactive issueId).adds_bind fun active => ?_
  exact (adds_forM (fun _ => adds_cascade J _ _) active).followed fun _ => (readOnly_respond J _ _).adds

/-- A claimed issue: the event of the store, and the one that is appended. -/
theorem claimWork_adds (wsId : Uuid) (now : Nat) (body : ClaimWorkRequest) :
    Adds (fun s : Site σ => J.count .linked s.store) (J.writes.toNat + J.appends.toNat)
      (WorkQueue.claimWork unicode st check broken wsId now body) := by
  have hstart : WorkQueue.claimWork unicode st check broken wsId now body = (permit check .write >>= fun _ =>
      WorkQueue.eligible unicode st broken body.issueId >>= fun r =>
        WorkQueue.afterGuards st wsId now (body.workerId.bind Text.parseNat) r.1 r.2) := rfl
  have hpredict : ∀ issue, ReadOnly (WorkQueue.predict (σ := σ) unicode broken issue) := by
    intro issue
    unfold WorkQueue.predict
    split
    · exact readOnly_fail _
    · exact (readOnly_read _).bind fun _ => readOnly_ofExcept _ _
  have hguards : ∀ issue, ReadOnly (WorkQueue.guards (σ := σ) unicode broken issue) := by
    intro issue
    unfold WorkQueue.guards
    split
    · exact readOnly_fail _
    · refine (hpredict issue).bind fun _ => (readOnly_read _).bind fun contested => ?_
      split
      · exact readOnly_fail _
      · exact readOnly_pure _
  have heligible : ReadOnly (WorkQueue.eligible unicode st broken body.issueId) := by
    unfold WorkQueue.eligible
    split
    · exact readOnly_fail _
    · exact ((readOnly_onStore (J.getIssue _)).mapErr _).bind hguards
  rw [hstart]
  refine (readOnly_permit _).adds_bind fun _ => heligible.adds_bind fun r => ?_
  unfold WorkQueue.afterGuards
  refine ((readOnly_onStore J.readHead).mapErr _).attempt.adds_bind fun head => ?_
  have hworkspace : ∀ intent base issueId, Adds (J.count .linked) 0 (st.createWorkspace wsId intent base issueId) := by
    intro intent base issueId s ws s' h
    obtain ⟨l, hlog, hl⟩ := J.createWorkspace _ _ _ _ _ _ _ h
    rw [J.count_append .linked hlog, hl .linked]
  have hlink : ∀ issueId ws, Adds (J.count .linked) J.writes.toNat (st.updateIssue now issueId
      { IssueUpdate.none with status := some .inProgress, workspaceId := some ws }) := by
    intro issueId ws s i s' h
    rw [J.count_append .linked (J.updateIssue _ _ _ _ _ _ h), J.linked, countP_own rfl]
  refine ((adds_onStore (hworkspace _ _ _)).mapErr _).preceded fun ws => ?_
  refine ((adds_onStore (hlink _ _)).mapErr _).bind fun _ => ?_
  have hworker : ∀ w, Adds (fun s : Site σ => J.count .linked s.store) 0 (attemptStore (st.setWorkspaceId w ws.id)) := fun w =>
    adds_attemptStore fun t => by
      unfold Journal.count
      rw [J.setWorkspaceId]
      rfl
  have hnoted : Adds (fun s : Site σ => J.count .linked s.store) J.appends.toNat (do
      attemptStore (st.append (.workspaceCreated ws.id ws.intent ws.baseVersion))
      attemptStore (st.append (.issueLinkedToWorkspace r.1.id ws.id))
      pure ⟨r.1.id, ws.id, r.1.title, r.2⟩ : Proc (Site σ) ApiError ClaimResult) :=
    (J.adds_other rfl).preceded fun _ => (J.adds_own rfl).followed fun _ => (readOnly_pure _).adds
  unfold WorkQueue.afterUpdate
  cases body.workerId.bind Text.parseNat with
  | some w => exact (hworker w).preceded fun _ => hnoted
  | none => exact hnoted

end Handlers

/-! ## SQLite -/

section Sqlite

open Sqlite

variable (fails : LocalCall → Bool)

theorem issues_eq_ok {α : Type} {g : IssueError → StorageError} {m : Proc IssueDir IssueError α} {s s' : LocalRepo} {a : α}
    (h : issues g m s = (.ok a, s')) : ∃ d, m s.issues = (.ok a, d) ∧ s' = { s with issues := d } := by
  unfold issues at h
  rcases hm : m s.issues with ⟨_ | a', d⟩ <;> rw [hm] at h <;> cases h
  exact ⟨d, rfl, rfl⟩

theorem readOnly_openIssueStore (nth : Nat) : ReadOnly (openIssueStore fails nth) := by
  unfold openIssueStore
  split
  · exact readOnly_fail _
  · exact readOnly_pure _

theorem readOnly_io (c : LocalCall) : ReadOnly (Sqlite.io fails c) := by
  unfold Sqlite.io
  split
  · exact readOnly_fail _
  · exact readOnly_pure _

theorem readOnly_issues {α : Type} {g : IssueError → StorageError} {m : Proc IssueDir IssueError α} (h : ReadOnly m) :
    ReadOnly (issues g m) := by
  intro s
  have hs := h s.issues
  unfold issues
  rcases hm : m s.issues with ⟨_ | _, d⟩ <;> rw [hm] at hs <;> obtain rfl : d = s.issues := hs <;> rfl

theorem readOnly_get (f : IssueCall → Bool) (nth : Nat) (id : Uuid) : ReadOnly (IssueDir.get f nth id) := by
  have hcall : ReadOnly (IssueDir.call f (.select nth)) := by
    unfold IssueDir.call
    split
    · exact readOnly_fail _
    · exact readOnly_pure _
  unfold IssueDir.get
  refine hcall.bind fun _ => (readOnly_read _).bind fun r => ?_
  cases r with
  | none => exact readOnly_fail _
  | some r => exact readOnly_pure _

theorem eventLog_updateRow {g : IssueError → StorageError} {f : IssueCall → Bool} {id : Uuid} {w : IssueRow → IssueRow}
    {s s' : LocalRepo} (h : issues g (IssueDir.updateRow f id w) s = (.ok (), s')) : s'.issues.eventLog = s.issues.eventLog := by
  obtain ⟨d, hd, rfl⟩ := issues_eq_ok h
  obtain ⟨_, d₁, hcall, hmod⟩ := bind_eq_ok.1 hd
  unfold IssueDir.call at hcall
  split at hcall
  · cases hcall
  · cases hcall
    cases hmod
    rfl

theorem eventLog_createIssue {id : Uuid} {now : Nat} {issue : NewIssue} {s s' : LocalRepo} {i : Issue}
    (h : createIssue fails id now issue s = (.ok i, s')) : s'.issues.eventLog = s.issues.eventLog ++
      [.issueCreated id issue.title issue.creator issue.priority.asStr] := by
  unfold createIssue at h
  obtain ⟨_, -, h⟩ := (readOnly_openIssueStore fails 1).bind_ok h
  obtain ⟨_, -, h⟩ := (readOnly_io fails .openEventLog).bind_ok h
  obtain ⟨created, s₁, hcreate, h⟩ := bind_eq_ok.1 h
  obtain ⟨sourced, s₂, hsource, hcriteria⟩ := bind_eq_ok.1 h
  have h₁ : s₁.issues.eventLog = s.issues.eventLog ++ [.issueCreated id issue.title issue.creator issue.priority.asStr] := by
    obtain ⟨d, hd, rfl⟩ := issues_eq_ok hcreate
    have hd' := IssueDir.within_create _ _ _ _ _ _ _ _ _ _ _ _ hd
    rw [IssueDir.create_noFault (IssueDir.fresh_of_create hd')] at hd'
    cases hd'
    rfl
  have h₂ : s₂.issues.eventLog = s₁.issues.eventLog := by
    cases hs : issue.agentSource with
    | none =>
      rw [hs] at hsource
      cases hsource
      rfl
    | some source =>
      rw [hs] at hsource
      obtain ⟨_, _, hset, hpure⟩ := bind_eq_ok.1 hsource
      cases hpure
      exact eventLog_updateRow hset
  have h₃ : s'.issues.eventLog = s₂.issues.eventLog := by
    unfold attachCriteria at hcriteria
    split at hcriteria
    · obtain ⟨_, _, hset, hpure⟩ := bind_eq_ok.1 hcriteria
      cases hpure
      exact eventLog_updateRow hset
    · cases hcriteria
      rfl
  rw [h₃, h₂, h₁]

theorem eventLog_transition {g : IssueError → StorageError} {f : IssueCall → Bool} {id : Uuid} {now : Nat}
    {allowed : IssueStatus → Bool} {after : IssueStatus} {resolution : Option Text → Option Text} {ws : Option Uuid}
    {kind : EventKind} {s s' : LocalRepo} {i : Issue}
    (h : issues g (IssueDir.transition f id now allowed after resolution ws kind .eventLog) s = (.ok i, s')) :
    s'.issues.eventLog = s.issues.eventLog ++ [kind] := by
  obtain ⟨d, hd, rfl⟩ := issues_eq_ok h
  obtain ⟨r, -, -, -, rfl⟩ := IssueDir.transition_ok (IssueDir.within_transition _ _ _ _ _ _ _ _ _ _ _ _ hd)
  rfl

/-- The events of an update of a row: of its fields, and of its status. -/
def liteChanges (s : LocalRepo) (id : Uuid) (u : IssueUpdate) : List EventKind :=
  (row IssueRow.id id s.issues.rows).elim [] (fieldEvents id u) ++ statusEvents id u

theorem eventLog_applyFields {now : Nat} {id : Uuid} {u : IssueUpdate} {s s' : LocalRepo}
    (h : applyFields fails now id u s = (.ok (), s')) : s'.issues.eventLog = s.issues.eventLog ++
      (row IssueRow.id id s.issues.rows).elim [] (fieldEvents id u) := by
  unfold applyFields at h
  split at h
  · rename_i hfields
    obtain ⟨_, s₁, hupdate, hpure⟩ := bind_eq_ok.1 h
    cases hpure
    obtain ⟨d, hd, rfl⟩ := issues_eq_ok hupdate
    have hd' := IssueDir.within_updateIssue _ _ _ _ _ _ _ _ _ _ _ hd
    cases hrow : row IssueRow.id id s.issues.rows with
    | none =>
      rw [IssueDir.updateIssue_missing hrow] at hd'
      cases hd'
    | some r =>
      rw [IssueDir.updateIssue_noFault hrow] at hd'
      cases hd'
      dsimp only [Option.elim]
      unfold fieldEvents
      by_cases hchanged : IssueDir.changedFields r.toIssue (IssueDir.edited u.title u.description u.priority u.labels r.toIssue) = []
      · rw [if_pos hchanged, if_neg (fun h => h.2 hchanged), List.append_nil]
      · rw [if_neg hchanged, if_pos ⟨hfields, hchanged⟩]
        rfl
  · rename_i hfields
    cases h
    cases row IssueRow.id id s.issues.rows with
    | none => simp
    | some r => simp [fieldEvents, hfields]

theorem eventLog_applyStatus {now : Nat} {id : Uuid} {u : IssueUpdate} {s s' : LocalRepo}
    (h : applyStatus fails now id u s = (.ok (), s')) : s'.issues.eventLog = s.issues.eventLog ++ statusEvents id u := by
  have hstep : ∀ {g : IssueError → StorageError} {allowed : IssueStatus → Bool} {after : IssueStatus}
      {resolution : Option Text → Option Text} {ws : Option Uuid} {kind : EventKind},
      (issues g (IssueDir.transition (fun c => fails (.issue c)) id now allowed after resolution ws kind .eventLog) >>=
        fun _ => pure ()) s = (.ok (), s') → s'.issues.eventLog = s.issues.eventLog ++ [kind] := by
    intro g allowed after resolution ws kind h
    obtain ⟨_, _, htrans, hpure⟩ := bind_eq_ok.1 h
    cases hpure
    exact eventLog_transition htrans
  unfold applyStatus at h
  unfold statusEvents
  cases hstatus : u.status with
  | none =>
    rw [hstatus] at h
    cases h
    simp
  | some status =>
    rw [hstatus] at h
    cases status with
    | inProgress =>
      cases hws : u.workspaceId with
      | none =>
        rw [hws] at h
        cases h
        simp
      | some w =>
        rw [hws] at h
        exact hstep h
    | «open» => exact hstep h
    | resolved => exact hstep h
    | closed => exact hstep h

theorem eventLog_updateIssue {now : Nat} {id : Uuid} {u : IssueUpdate} {s s' : LocalRepo} {i : Issue}
    (h : updateIssue fails now id u s = (.ok i, s')) : s'.issues.eventLog = s.issues.eventLog ++ liteChanges s id u := by
  unfold updateIssue at h
  obtain ⟨_, -, h⟩ := (readOnly_openIssueStore fails 1).bind_ok h
  obtain ⟨_, -, h⟩ := (readOnly_io fails .openEventLog).bind_ok h
  obtain ⟨_, s₁, hfields, h⟩ := bind_eq_ok.1 h
  obtain ⟨_, s₂, hstatus, h⟩ := bind_eq_ok.1 h
  obtain ⟨_, s₃, hcriteria, hget⟩ := bind_eq_ok.1 h
  have h₃ : s₃.issues.eventLog = s₂.issues.eventLog := by
    cases hc : u.acceptanceCriteria with
    | none =>
      unfold applyCriteria at hcriteria
      rw [hc] at hcriteria
      cases hcriteria
      rfl
    | some criteria =>
      unfold applyCriteria at hcriteria
      rw [hc] at hcriteria
      exact eventLog_updateRow hcriteria
  have h₄ : s' = s₃ := by
    have hsame := readOnly_issues (g := orNotFound id) (readOnly_get (fun c => fails (.issue c)) 3 id) s₃
    rw [hget] at hsame
    exact hsame
  rw [h₄, h₃, eventLog_applyStatus fails hstatus, eventLog_applyFields fails hfields, List.append_assoc]
  rfl

theorem readOnly_listIssues (order : Sorting.RowOrder Issue) (filter : IssueFilter) (q : ListQuery) :
    ReadOnly (Sqlite.listIssues fails order filter q) := by
  refine (readOnly_openIssueStore fails 0).bind fun _ => ?_
  split
  · exact readOnly_fail _
  · exact (readOnly_read _).bind fun _ => readOnly_pure _

theorem eventLog_closeIssue {now : Nat} {id : Uuid} {resolution : Text} {s s' : LocalRepo} {i : Issue}
    (h : closeIssue fails now id resolution s = (.ok i, s')) :
    s'.issues.eventLog = s.issues.eventLog ++ [.issueClosed id resolution] := by
  obtain ⟨_, -, h⟩ := (readOnly_openIssueStore fails 1).bind_ok h
  obtain ⟨_, -, h⟩ := (readOnly_io fails .openEventLog).bind_ok h
  exact eventLog_transition h

theorem liteChanges_linked (s : LocalRepo) (id ws : Uuid) : liteChanges s id
    { IssueUpdate.none with status := some .inProgress, workspaceId := some ws } = [.issueLinkedToWorkspace id ws] := by
  unfold liteChanges
  cases row IssueRow.id id s.issues.rows <;> rfl

theorem issues_createWorkspace {id : Uuid} {intent base : Text} {s s' : LocalRepo} {ws : WorkspaceMeta}
    (h : Sqlite.createWorkspace fails id intent base s = (.ok ws, s')) :
    ws.id = id ∧ s'.issues = s.issues.logged .eventLog (.workspaceCreated id intent base) := by
  obtain ⟨_, -, h⟩ := (readOnly_io fails .createWorkspaceDir).bind_ok h
  obtain ⟨_, -, h⟩ := (readOnly_io fails .writeMeta).bind_ok h
  obtain ⟨_, _, hmod, h⟩ := bind_eq_ok.1 h
  cases hmod
  obtain ⟨_, -, h⟩ := (readOnly_io fails .logWorkspace).bind_ok h
  obtain ⟨_, _, hmod, h⟩ := bind_eq_ok.1 h
  cases hmod
  obtain ⟨_, -, h⟩ := (readOnly_io fails .setActive).bind_ok h
  obtain ⟨_, _, hmod, h⟩ := bind_eq_ok.1 h
  cases hmod
  cases h
  exact ⟨rfl, rfl⟩

theorem eventLog_createWorkspace {order : Sorting.RowOrder Issue} {id : Uuid} {intent base : Text} {issueId : Option Uuid}
    {s s' : LocalRepo} {ws : WorkspaceMeta}
    (h : (Sqlite.storage fails order).createWorkspace id intent base issueId s = (.ok ws, s')) :
    s'.issues.eventLog = s.issues.eventLog ++ [.workspaceCreated id intent base] := by
  obtain ⟨_, s₁, hmake, h⟩ := bind_eq_ok.1 h
  obtain ⟨_, s₂, hlink, hpure⟩ := bind_eq_ok.1 h
  cases hpure
  have hissues : s'.issues = s₁.issues := by
    unfold linkIssue at hlink
    split at hlink <;> cases hlink <;> rfl
  rw [hissues, (issues_createWorkspace fails hmake).2]
  rfl

theorem eventLog_discardWorkspace (id : Uuid) (s : LocalRepo) :
    ∃ l, (discardWorkspace fails id s).2.issues.eventLog = s.issues.eventLog ++ l ∧ Beside l := by
  have hnone : ∃ l : List EventKind, s.issues.eventLog = s.issues.eventLog ++ l ∧ Beside l :=
    ⟨[], (List.append_nil _).symm, fun _ => rfl⟩
  have hone : ∃ l : List EventKind, s.issues.eventLog ++ [.workspaceDiscarded id "discarded by user".toList] =
      s.issues.eventLog ++ l ∧ Beside l := ⟨_, rfl, fun k => by cases k <;> rfl⟩
  have hstart : discardWorkspace fails id s = (if (s.workspaces.get id).isNone then
      fail (.notFound (Text.ofNat id)) else do
        Sqlite.io fails .logDiscarded
        modify fun s => { s with issues := s.issues.logged .eventLog (.workspaceDiscarded id "discarded by user".toList) }
        Sqlite.io fails .removeWorkspace
        modify fun s => { s with
          workspaces := s.workspaces.erase id
          active := if s.active = some id then none else s.active } : Proc LocalRepo StorageError Unit) s := rfl
  rw [hstart]
  split
  · exact hnone
  · unfold Sqlite.io
    cases fails .logDiscarded with
    | true => exact hnone
    | false => cases fails .removeWorkspace <;> exact hone

/-- The event store takes an event where it can be opened and written. -/
def liteAppends : Bool := !fails .openEventLog && !fails .appendEvent

theorem eventLog_append (kind : EventKind) (s : LocalRepo) : (Sqlite.append fails kind s).2.issues.eventLog =
    s.issues.eventLog ++ if liteAppends fails then [kind] else [] := by
  unfold Sqlite.append Sqlite.openEventLog Sqlite.io liteAppends
  cases fails .openEventLog with
  | true => exact (List.append_nil _).symm
  | false =>
    cases fails .appendEvent with
    | true => exact (List.append_nil _).symm
    | false => rfl

def liteJournal (order : Sorting.RowOrder Issue) : Journal (Sqlite.storage fails order) where
  log s := s.issues.eventLog
  writes := true
  appends := liteAppends fails
  changes := liteChanges
  getIssue _ := (readOnly_openIssueStore fails 0).bind fun _ => readOnly_issues (readOnly_get _ _ _)
  listIssues := readOnly_listIssues fails order
  listLinks _ := readOnly_pure _
  listWorkspaces _ := (readOnly_io fails _).bind fun _ => readOnly_read _
  readHead := (readOnly_io fails _).bind fun _ => readOnly_read _
  createLink _ _ := rfl
  setWorkspaceId _ _ _ := rfl
  createIssue _ _ _ _ _ _ h := eventLog_createIssue fails h
  updateIssue _ _ _ _ _ _ h := eventLog_updateIssue fails h
  closeIssue _ _ _ _ _ _ h := eventLog_closeIssue fails h
  linked := liteChanges_linked
  createWorkspace _ _ _ _ _ _ _ h := ⟨_, eventLog_createWorkspace fails h, fun k => by cases k <;> rfl⟩
  discardWorkspace := eventLog_discardWorkspace fails
  append := eventLog_append fails

end Sqlite

/-! ## Postgres -/

section Postgres

open Postgres

variable (fails : PgCall → Bool)

theorem readOnly_query (c : PgCall) : ReadOnly (query fails c) := by
  unfold query
  split
  · exact readOnly_fail _
  · exact readOnly_pure _

theorem readOnly_getIssue (nth : Nat) (id : Uuid) : ReadOnly (Postgres.getIssue fails nth id) := by
  unfold Postgres.getIssue
  refine (readOnly_query fails _).bind fun _ => (readOnly_read _).bind fun i => ?_
  cases i with
  | none => exact readOnly_fail _
  | some i => exact readOnly_pure _

/-- The tables of the issues are written, and the events are not. -/
def Untold {α : Type} (m : Proc PgRepo StorageError α) : Prop := ∀ E, Keeps (fun s => s.events = E) m

theorem ReadOnly.untold {α : Type} {m : Proc PgRepo StorageError α} (h : ReadOnly m) : Untold m := by
  intro E s hs
  rw [h s]
  exact hs

theorem Untold.bind {α β : Type} {m : Proc PgRepo StorageError α} {f : α → Proc PgRepo StorageError β} (hm : Untold m)
    (hf : ∀ a, Untold (f a)) : Untold (m >>= f) := fun E => (hm E).bind fun a => hf a E

theorem untold_modify {f : PgRepo → PgRepo} (h : ∀ s, (f s).events = s.events) :
    Untold (modify f : Proc PgRepo StorageError Unit) := fun _ s hs => (h s).trans hs

theorem Untold.events {α : Type} {m : Proc PgRepo StorageError α} (h : Untold m) (s : PgRepo) : (m s).2.events = s.events :=
  h _ s rfl

theorem Untold.of_ok {α : Type} {m : Proc PgRepo StorageError α} (h : Untold m) {s s' : PgRepo} {a : α}
    (hm : m s = (.ok a, s')) : s'.events = s.events ++ [] := by
  have := h.events s
  rw [hm] at this
  rw [List.append_nil]
  exact this

theorem untold_createIssue (id : Uuid) (now : Nat) (issue : NewIssue) : Untold (Postgres.createIssue fails id now issue) := by
  unfold Postgres.createIssue
  refine (readOnly_query fails _).untold.bind fun _ => (readOnly_read _).untold.bind fun taken => ?_
  split
  · exact (readOnly_fail _).untold
  · exact Untold.bind (untold_modify fun _ => rfl) fun _ => (readOnly_getIssue fails _ _).untold

theorem untold_updateIssue (now : Nat) (id : Uuid) (u : IssueUpdate) : Untold (Postgres.updateIssue fails now id u) :=
  (readOnly_getIssue fails _ _).untold.bind fun _ => (readOnly_query fails _).untold.bind fun _ =>
    Untold.bind (untold_modify fun _ => rfl) fun _ => (readOnly_getIssue fails _ _).untold

theorem untold_closeIssue (now : Nat) (id : Uuid) (resolution : Text) : Untold (Postgres.closeIssue fails now id resolution) :=
  (readOnly_query fails _).untold.bind fun _ => Untold.bind (untold_modify fun _ => rfl) fun _ => (readOnly_getIssue fails _ _).untold

theorem untold_createLink (l : IssueLink) : Untold (Postgres.createLink fails l) :=
  (readOnly_query fails _).untold.bind fun _ => untold_modify fun _ => rfl

theorem untold_createWorkspace (id : Uuid) (intent base : Text) (issueId : Option Uuid) :
    Untold (Postgres.createWorkspace fails id intent base issueId) := by
  unfold Postgres.createWorkspace
  refine (readOnly_query fails _).untold.bind fun _ => (readOnly_read _).untold.bind fun taken => ?_
  split
  · exact (readOnly_fail _).untold
  · exact Untold.bind (untold_modify fun _ => rfl) fun _ => (readOnly_query fails _).untold.bind fun _ => (readOnly_pure _).untold

theorem untold_discardWorkspace (id : Uuid) : Untold (Postgres.discardWorkspace fails id) :=
  (readOnly_query fails _).untold.bind fun _ => untold_modify fun _ => rfl

theorem untold_setWorkspaceId (w ws : Uuid) : Untold (Postgres.setWorkspaceId fails w ws) := by
  unfold Postgres.setWorkspaceId
  refine (readOnly_query fails _).untold.bind fun _ => (readOnly_read _).untold.bind fun known => ?_
  split
  · exact untold_modify fun _ => rfl
  · exact (readOnly_fail _).untold

theorem events_append (kind : EventKind) (s : PgRepo) :
    (Postgres.append fails kind s).2.events = s.events ++ if !fails .appendEvent then [kind] else [] := by
  unfold Postgres.append query
  cases fails .appendEvent with
  | true => exact (List.append_nil _).symm
  | false => rfl

def pgJournal (lower : Text → Text) (collation : Collation) (order : Sorting.RowOrder Issue) :
    Journal (Postgres.storage fails lower collation order) where
  log := PgRepo.events
  writes := false
  appends := !fails .appendEvent
  changes _ _ _ := []
  getIssue := readOnly_getIssue fails 0
  listIssues _ _ := (readOnly_query fails _).bind fun _ => (readOnly_read _).bind fun _ => readOnly_pure _
  listLinks _ := (readOnly_query fails _).bind fun _ => readOnly_read _
  listWorkspaces _ := (readOnly_query fails _).bind fun _ => readOnly_read _
  readHead := (readOnly_query fails _).bind fun _ => readOnly_read _
  createLink l := (untold_createLink fails l).events
  setWorkspaceId w ws := (untold_setWorkspaceId fails w ws).events
  createIssue _ _ _ _ _ _ h := (untold_createIssue fails _ _ _).of_ok h
  updateIssue _ _ _ _ _ _ h := (untold_updateIssue fails _ _ _).of_ok h
  closeIssue _ _ _ _ _ _ h := (untold_closeIssue fails _ _ _).of_ok h
  linked _ _ _ := rfl
  createWorkspace _ _ _ _ _ _ _ h := ⟨[], (untold_createWorkspace fails _ _ _ _).of_ok h, fun _ => rfl⟩
  discardWorkspace id s := ⟨[], ((untold_discardWorkspace fails id).events s).trans (List.append_nil _).symm, fun _ => rfl⟩
  append := events_append fails

end Postgres

/-! ## Discoveries -/

section Discoveries

variable {σ : Type}

/-- What the tables of the watchers do to the repository: nothing. -/
structure Aside (W : WatcherStorage σ) : Prop where
  prepared : ∀ recordId agentId event R, Keeps (fun s : Watching σ => s.repo = R) (W.prepareDiscovery recordId agentId event)
  recorded : ∀ agentId event recordId key receivedAt created suppressed s record s',
    W.recordDiscovery agentId event recordId key receivedAt created suppressed s = (.ok record, s') →
      s'.repo = s.repo ∧ record.createdIssueId = created

variable (env : WatcherEnv) (fails : WatcherCall → Bool) (order : Sorting.RowOrder DiscoveryRow) {R : σ}

theorem repo_limiter {ε : Type} {f : LimitCall → Bool} {db : ε} {again : Bool} {agentId : Text} {max : Nat} {excess : Nat → ε} :
    Keeps (fun s : Watching σ => s.repo = R) ((Watching.limiter env).check f db again agentId max excess) :=
  Limiter.keeps_check (fun _ _ hs => hs) (fun _ hs => hs)

theorem repo_call (c : WatcherCall) : Keeps (fun s : Watching σ => s.repo = R) (WatcherStore.call fails c) :=
  keeps_ite (keeps_fail _ _) (keeps_pure _ _)

theorem repo_checked (agentId : Text) : Keeps (fun s : Watching σ => s.repo = R) (WatcherStore.checked env fails agentId) := by
  have hget : Keeps (fun s : Watching σ => s.repo = R) (WatcherStore.get fails agentId) := by
    refine (repo_call fails _).bind fun _ => (keeps_read _ _).bind fun w => ?_
    cases w
    · exact keeps_fail _ _
    · exact keeps_pure _ _
  exact hget.bind fun w => keeps_ite (keeps_fail _ _) ((repo_limiter env).bind fun _ => keeps_pure _ _)

theorem repo_prepareDiscovery (recordId : Uuid) (agentId : Text) (event : DiscoveryEventKind) :
    Keeps (fun s : Watching σ => s.repo = R) (WatcherStore.prepareDiscovery env fails order recordId agentId event) := by
  have hnow : Keeps (fun s : Watching σ => s.repo = R) (Watching.now env : Proc (Watching σ) WatcherError Nat) := fun _ hs => hs
  refine (repo_checked env fails agentId).bind fun w => hnow.bind fun _ => ?_
  exact ((repo_call fails _).bind fun _ => keeps_read _ _).bind fun _ => keeps_pure _ _

theorem repo_recordDiscovery (agentId : Text) (event : DiscoveryEventKind) (recordId : Uuid) (key : Text) (receivedAt : Nat)
    (created : Option Uuid) (suppressed : Bool) : Keeps (fun s : Watching σ => s.repo = R)
      (WatcherStore.recordDiscovery env fails agentId event recordId key receivedAt created suppressed) := by
  have hinsert : ∀ r, Keeps (fun s : Watching σ => s.repo = R) (WatcherStore.insertDiscovery fails r) := fun r =>
    (repo_call fails _).bind fun _ => (keeps_read _ _).bind fun taken => keeps_ite (keeps_fail _ _) (keeps_modify fun _ hs => hs)
  have hstats : Keeps (fun s : Watching σ => s.repo = R) (WatcherStore.updateWatcherStats fails agentId receivedAt) :=
    (repo_call fails _).bind fun _ => keeps_modify fun _ hs => hs
  exact (hinsert _).bind fun _ => hstats.bind fun _ => keeps_pure _ _

theorem ok_of_mapErr {τ ε ε' α : Type} {g : ε' → ε} {m : Proc τ ε' α} {s s' : τ} {a : α} (h : mapErr g m s = (.ok a, s')) :
    m s = (.ok a, s') := by
  unfold mapErr at h
  rcases hm : m s with ⟨_ | _, _⟩ <;> rw [hm] at h <;> cases h
  rfl

theorem createdIssueId_recordDiscovery {agentId : Text} {event : DiscoveryEventKind} {recordId : Uuid} {key : Text}
    {receivedAt : Nat} {created : Option Uuid} {suppressed : Bool} {s s' : Watching σ} {record : DiscoveryRecord}
    (h : WatcherStore.recordDiscovery env fails agentId event recordId key receivedAt created suppressed s = (.ok record, s')) :
    s'.repo = s.repo ∧ record.createdIssueId = created := by
  constructor
  · have hkeeps := repo_recordDiscovery (R := s.repo) env fails agentId event recordId key receivedAt created suppressed s rfl
    rw [h] at hkeeps
    exact hkeeps
  · obtain ⟨_, s₁, -, h⟩ := bind_eq_ok.1 h
    obtain ⟨_, s₂, -, h⟩ := bind_eq_ok.1 h
    cases h
    rfl

theorem aside_sqlite : Aside (Sqlite.watchers env fails order : WatcherStorage σ) :=
  ⟨fun recordId agentId event _ => (repo_prepareDiscovery env fails order recordId agentId event).mapErr _,
    fun _ _ _ _ _ _ _ _ _ _ h => createdIssueId_recordDiscovery env fails (ok_of_mapErr h)⟩

theorem repo_watcherQuery (c : WatcherCall) : Keeps (fun s : Watching σ => s.repo = R) (Postgres.watcherQuery fails c) :=
  keeps_ite (keeps_fail _ _) (keeps_pure _ _)

theorem repo_checkedWatcher (agentId : Text) :
    Keeps (fun s : Watching σ => s.repo = R) (Postgres.checkedWatcher env fails agentId) := by
  have hget : Keeps (fun s : Watching σ => s.repo = R) (Postgres.getWatcher fails agentId) := by
    refine (repo_watcherQuery fails _).bind fun _ => (keeps_read _ _).bind fun w => ?_
    cases w
    · exact keeps_fail _ _
    · exact keeps_pure _ _
  exact hget.bind fun w => keeps_ite (keeps_fail _ _) ((repo_limiter env).bind fun _ => keeps_pure _ _)

theorem createdIssueId_pgDiscovery {agentId : Text} {event : DiscoveryEventKind} {recordId : Uuid} {key : Text}
    {receivedAt : Nat} {created : Option Uuid} {suppressed : Bool} {s s' : Watching σ} {record : DiscoveryRecord}
    (h : Postgres.recordDiscovery env fails agentId event recordId key receivedAt created suppressed s = (.ok record, s')) :
    s'.repo = s.repo ∧ record.createdIssueId = created := by
  have hquery : ∀ c, ReadOnly (Postgres.watcherQuery (σ := σ) fails c) := fun c => by
    unfold Postgres.watcherQuery
    split
    · exact readOnly_fail _
    · exact readOnly_pure _
  unfold Postgres.recordDiscovery at h
  obtain ⟨_, -, h⟩ := (hquery _).bind_ok h
  obtain ⟨taken, -, h⟩ := (readOnly_read _).bind_ok h
  split at h
  · cases h
  · obtain ⟨_, s₁, hmod, h⟩ := bind_eq_ok.1 h
    cases hmod
    obtain ⟨_, -, h⟩ := (hquery _).bind_ok h
    obtain ⟨_, s₂, hmod, h⟩ := bind_eq_ok.1 h
    cases hmod
    cases h
    exact ⟨rfl, rfl⟩

theorem aside_postgres : Aside (Postgres.watchers env fails order : WatcherStorage σ) := by
  constructor
  · intro recordId agentId event R
    have hnow : Keeps (fun s : Watching σ => s.repo = R) (Watching.now env : Proc (Watching σ) StorageError Nat) := fun _ hs => hs
    refine (repo_checkedWatcher env fails agentId).bind fun w => (repo_watcherQuery fails _).bind fun _ => ?_
    exact (keeps_read _ _).bind fun _ => hnow.bind fun _ => keeps_pure _ _
  · intro _ _ _ _ _ _ _ _ _ _ h
    exact createdIssueId_pgDiscovery env fails h

theorem discoveryIssue_count {st : Storage σ} (J : Journal st) {issueId : Uuid} {agentId : Text} {event : DiscoveryEventKind}
    {prep : DiscoveryPreparation} {s s' : Watching σ} {created : Option Uuid}
    (h : DiscoveryServer.createIssue env st issueId agentId event prep s = (.ok created, s')) (hissue : created.isSome) :
    J.count .created s'.repo = J.count .created s.repo + (J.writes.toNat + J.appends.toNat) := by
  unfold DiscoveryServer.createIssue at h
  split at h
  · obtain ⟨created, s₁, hnow, h⟩ := bind_eq_ok.1 h
    cases hnow
    obtain ⟨answer, s₂, hcreate, h⟩ := bind_eq_ok.1 h
    cases answer with
    | error e =>
      cases h
      cases hissue
    | ok issue =>
      obtain ⟨_, s₃, happend, h⟩ := bind_eq_ok.1 h
      cases h
      have h₂ : ∃ new : NewIssue, J.count .created s₂.repo = J.count .created s.repo +
          (if J.writes then [EventKind.issueCreated issueId new.title new.creator new.priority.asStr] else []).countP
            IssueEvent.created.is := by
        refine ⟨⟨event.defaultTitle env, issueDescription env agentId event, prep.priority, [event.eventType, "watcher".toList],
          agentId, some (some ⟨event.eventType, env.json event⟩), []⟩, J.count_append .created (J.createIssue issueId
          (env.clock s.readings) _ s.repo issue s₂.repo (Prod.ext ?_ ?_))⟩
        · exact Except.ok.inj (congrArg Prod.fst hcreate)
        · exact congrArg (fun p => p.2.repo) hcreate
      have h₃ : J.count .created s'.repo = J.count .created s₂.repo + J.appends.toNat := by
        have hrepo : s'.repo = (st.append (.issueCreated issue.id issue.title agentId issue.priority.asStr) s₂.repo).2 :=
          (congrArg (fun p => p.2.repo) happend).symm
        rw [hrepo, J.count_append .created (J.append _ _), countP_own rfl]
      obtain ⟨new, h₂⟩ := h₂
      rw [h₃, h₂, countP_own rfl, Nat.add_assoc]
  · cases h
    cases hissue

/-- The issue of a discovery: the event of the store, and the one that is appended. -/
theorem submitDiscoveryHandler_count {W : WatcherStorage σ} (hW : Aside W) {st : Storage σ} (J : Journal st)
    {recordId issueId : Uuid} {agentId : Text} {event : DiscoveryEventKind} {s s' : Watching σ} {r : DiscoveryOutcomeResponse}
    (h : DiscoveryServer.submitDiscoveryHandler env W st recordId issueId agentId event s = (.ok r, s'))
    (hnew : r.suppressed = false) (hissue : r.createdIssueId.isSome) :
    J.count .created s'.repo = J.count .created s.repo + (J.writes.toNat + J.appends.toNat) := by
  unfold DiscoveryServer.submitDiscoveryHandler at h
  obtain ⟨prep, s₁, hprep, h⟩ := bind_eq_ok.1 h
  have h₁ : s₁.repo = s.repo := by
    have hkeeps := hW.prepared recordId agentId event s.repo s rfl
    rw [ok_of_mapErr hprep] at hkeeps
    exact hkeeps
  cases hsup : prep.suppressedWithIssueId with
  | some existing =>
    rw [hsup] at h
    obtain ⟨record, s₂, -, h⟩ := bind_eq_ok.1 h
    cases h
    cases hnew
  | none =>
    rw [hsup] at h
    obtain ⟨created, s₂, hcreate, h⟩ := bind_eq_ok.1 h
    obtain ⟨record, s₃, hrecord, h⟩ := bind_eq_ok.1 h
    obtain ⟨h₃, hid⟩ := hW.recorded _ _ _ _ _ _ _ _ _ _ (ok_of_mapErr hrecord)
    cases h
    dsimp only at hissue
    rw [hid] at hissue
    rw [h₃, discoveryIssue_count env J (ok_of_mapErr hcreate) hissue, h₁]

end Discoveries

/-! ## One operation, one event -/

/-- The requests that change issues; what an update gives is told. -/
inductive Request where
  | create
  | update (id : Text) (body : UpdateIssueRequest)
  | close
  | claim
  | discover

def Request.event : Request → IssueEvent
  | .create => .created
  | .update _ _ => .updated
  | .close => .closed
  | .claim => .linked
  | .discover => .created

/-- A request that succeeds, by what the storage is before and after; of the discoveries those that create an issue. -/
inductive Done {σ : Type} (st : Storage σ) : Request → σ → σ → Prop where
  | create {unicode : Unicode} {check : Auth.RepoRole → Except ApiError Auth.RepoRole} {id : Uuid} {now : Nat}
      {body : CreateIssueRequest} {s s' : Site σ} {r : IssueResponse}
      (h : createIssueHandler unicode st check id now body s = (.ok r, s')) : Done st .create s.store s'.store
  | update {check : Auth.RepoRole → Except ApiError Auth.RepoRole} {now : Nat} {id : Text} {body : UpdateIssueRequest}
      {s s' : Site σ} {r : IssueResponse} (h : updateIssueHandler st check now id body s = (.ok r, s')) :
      Done st (.update id body) s.store s'.store
  | close {check : Auth.RepoRole → Except ApiError Auth.RepoRole} {now : Nat} {id : Text} {body : CloseIssueRequest}
      {s s' : Site σ} {r : IssueResponse} (h : closeIssueHandler st check now id body s = (.ok r, s')) :
      Done st .close s.store s'.store
  | claim {unicode : Unicode} {check : Auth.RepoRole → Except ApiError Auth.RepoRole} {broken : Bool} {wsId : Uuid} {now : Nat}
      {body : ClaimWorkRequest} {s s' : Site σ} {r : ClaimResult}
      (h : WorkQueue.claimWork unicode st check broken wsId now body s = (.ok r, s')) : Done st .claim s.store s'.store
  | discover {env : WatcherEnv} {W : WatcherStorage σ} {f : WatcherCall → Bool} {order : Sorting.RowOrder DiscoveryRow}
      (hW : W = Sqlite.watchers env f order ∨ W = Postgres.watchers env f order) {recordId issueId : Uuid} {agentId : Text}
      {event : DiscoveryEventKind} {s s' : Watching σ} {r : DiscoveryOutcomeResponse}
      (h : DiscoveryServer.submitDiscoveryHandler env W st recordId issueId agentId event s = (.ok r, s'))
      (hnew : r.suppressed = false) (hissue : r.createdIssueId.isSome) : Done st .discover s.repo s'.repo

/-- One more event of a kind. -/
def Gains {σ : Type} (log : σ → List EventKind) (k : IssueEvent) (t t' : σ) : Prop :=
  (log t').countP k.is = (log t).countP k.is + 1

/-- An update that leaves the title, the description, the priority and the labels as they are. -/
def Request.Silent (t : LocalRepo) : Request → Prop
  | .update id body => ∀ issueId priority r, parseIssueId id = .ok issueId → givenPriority body.priority = .ok priority →
    row IssueRow.id issueId t.issues.rows = some r →
    IssueDir.changedFields r.toIssue (IssueDir.edited body.title body.description priority body.labels r.toIssue) = []
  | _ => False

/-- How many events of its kind the store of the issues appends for a request. -/
def Request.own {σ : Type} {st : Storage σ} (J : Journal st) (t : σ) : Request → Nat
  | .update id body => (parseIssueId id).toOption.elim 0 fun issueId => (givenPriority body.priority).toOption.elim 0
    fun priority => (J.changes t issueId (issueUpdate body priority)).countP IssueEvent.updated.is
  | _ => J.writes.toNat

theorem own_update {σ : Type} {st : Storage σ} (J : Journal st) (t : σ) {id : Text} {body : UpdateIssueRequest} {issueId : Uuid}
    {priority : Option IssuePriority} (hid : parseIssueId id = .ok issueId)
    (hpriority : givenPriority body.priority = .ok priority) : (Request.update id body).own J t =
      (J.changes t issueId (issueUpdate body priority)).countP IssueEvent.updated.is := by
  simp only [Request.own, hid, hpriority, Except.toOption, Option.elim]

theorem Done.count {σ : Type} {st : Storage σ} (J : Journal st) {r : Request} {t t' : σ} (h : Done st r t t') :
    J.count r.event t' = J.count r.event t + (r.own J t + J.appends.toNat) := by
  cases h with
  | create h => exact createIssueHandler_adds J _ _ _ _ _ _ h
  | update h =>
    obtain ⟨issueId, priority, hid, hpriority, hcount⟩ := updateIssueHandler_count J h
    rw [own_update J _ hid hpriority]
    exact hcount.trans (Nat.add_assoc _ _ _)
  | close h => exact closeIssueHandler_adds J _ _ _ _ _ _ h
  | claim h => exact claimWork_adds J _ _ _ _ _ _ h
  | discover hW h hnew hissue =>
    rcases hW with rfl | rfl
    · exact submitDiscoveryHandler_count _ (aside_sqlite _ _ _) J h hnew hissue
    · exact submitDiscoveryHandler_count _ (aside_postgres _ _ _) J h hnew hissue

theorem changedFields_edited_none {u : IssueUpdate} (h : ¬ Sqlite.hasFieldUpdates u = true) (i : Issue) :
    IssueDir.changedFields i (IssueDir.edited u.title u.description u.priority u.labels i) = [] := by
  simp only [Sqlite.hasFieldUpdates, Bool.or_eq_true, not_or, Option.not_isSome_iff_eq_none] at h
  obtain ⟨⟨⟨htitle, hdesc⟩, hpriority⟩, hlabels⟩ := h
  simp [IssueDir.changedFields, IssueDir.edited, htitle, hdesc, hpriority, hlabels]

/-- In SQLite a request has one event of the store's own, but for the silent updates. -/
theorem own_lite (fails : LocalCall → Bool) (order : Sorting.RowOrder Issue) (r : Request) (t : LocalRepo) :
    r.Silent t ∧ r.own (liteJournal fails order) t = 0 ∨ ¬ r.Silent t ∧ r.own (liteJournal fails order) t = 1 := by
  cases r with
  | update id body =>
    cases hid : parseIssueId id with
    | error e =>
      refine .inl ⟨fun i p r hi => ?_, ?_⟩
      · rw [hid] at hi
        cases hi
      · simp only [Request.own, hid, Except.toOption, Option.elim]
    | ok issueId =>
      cases hpriority : givenPriority body.priority with
      | error e =>
        refine .inl ⟨fun i p r _ hp => ?_, ?_⟩
        · rw [hpriority] at hp
          cases hp
        · simp only [Request.own, hid, hpriority, Except.toOption, Option.elim]
      | ok priority =>
        have hchanges : (liteJournal fails order).changes t issueId (issueUpdate body priority) =
            (row IssueRow.id issueId t.issues.rows).elim [] (Sqlite.fieldEvents issueId (issueUpdate body priority)) ++ [] := rfl
        rw [own_update _ t hid hpriority, hchanges, List.append_nil]
        have hsilent : (Request.update id body).Silent t ↔ ∀ r, row IssueRow.id issueId t.issues.rows = some r →
            IssueDir.changedFields r.toIssue
              (IssueDir.edited body.title body.description priority body.labels r.toIssue) = [] := by
          constructor
          · intro h r hr
            exact h issueId priority r hid hpriority hr
          · intro h i p r hi hp hr
            rw [hid] at hi
            rw [hpriority] at hp
            cases hi
            cases hp
            exact h r hr
        rw [hsilent]
        cases row IssueRow.id issueId t.issues.rows with
        | none => exact .inl ⟨fun r hr => (by cases hr), rfl⟩
        | some r =>
          dsimp only [Option.elim]
          by_cases hchanged : IssueDir.changedFields r.toIssue
              (IssueDir.edited body.title body.description priority body.labels r.toIssue) = []
          · refine .inl ⟨fun r' hr => ?_, ?_⟩
            · cases hr
              exact hchanged
            · unfold Sqlite.fieldEvents
              rw [if_neg fun h => h.2 hchanged]
              rfl
          · refine .inr ⟨fun h => hchanged (h r rfl), ?_⟩
            have hfields : Sqlite.hasFieldUpdates (issueUpdate body priority) = true :=
              by_contra fun hno => hchanged (changedFields_edited_none hno _)
            unfold Sqlite.fieldEvents
            rw [if_pos ⟨hfields, hchanged⟩]
            rfl
  | _ => exact .inr ⟨fun h => h, rfl⟩

/-- **When one operation is one event**: in SQLite, where the store appends an event itself unless the request is a silent
update, exactly when the event store appends none in the first case and one in the other; in Postgres exactly when the
event store appends. -/
theorem one_event_iff (r : Request) :
    (∀ (fails : LocalCall → Bool) (order : Sorting.RowOrder Issue) (t t' : LocalRepo), Done (Sqlite.storage fails order) r t t' →
      (Gains (fun s => s.issues.eventLog) r.event t t' ↔ (r.Silent t ↔ liteAppends fails = true))) ∧
    (∀ (fails : PgCall → Bool) (lower : Text → Text) (collation : Collation) (order : Sorting.RowOrder Issue) (t t' : PgRepo),
      Done (Postgres.storage fails lower collation order) r t t' →
      (Gains PgRepo.events r.event t t' ↔ fails .appendEvent = false)) := by
  constructor
  · intro fails order t t' h
    have hcount := h.count (liteJournal fails order)
    have hgains : Gains (fun s : LocalRepo => s.issues.eventLog) r.event t t' ↔
        r.own (liteJournal fails order) t + (liteAppends fails).toNat = 1 := by
      unfold Gains
      exact ⟨fun hg => Nat.add_left_cancel (hcount.symm.trans hg), fun hone => hcount.trans (congrArg _ hone)⟩
    rw [hgains]
    rcases own_lite fails order r t with ⟨hs, ho⟩ | ⟨hs, ho⟩
    · rw [ho]
      cases liteAppends fails <;> simp [hs]
    · rw [ho]
      cases liteAppends fails <;> simp [hs]
  · intro fails lower collation order t t' h
    have hcount := h.count (pgJournal fails lower collation order)
    have hown : r.own (pgJournal fails lower collation order) t = 0 := by
      cases r with
      | update id body =>
        cases hid : parseIssueId id with
        | error e => simp only [Request.own, hid, Except.toOption, Option.elim]
        | ok issueId =>
          cases hpriority : givenPriority body.priority with
          | error e => simp only [Request.own, hid, hpriority, Except.toOption, Option.elim]
          | ok priority => exact own_update _ t hid hpriority
      | _ => rfl
    rw [hown] at hcount
    have hgains : Gains PgRepo.events r.event t t' ↔ 0 + (!fails .appendEvent).toNat = 1 := by
      unfold Gains
      exact ⟨fun hg => Nat.add_left_cancel (hcount.symm.trans hg), fun hone => hcount.trans (congrArg _ hone)⟩
    rw [hgains]
    cases fails .appendEvent <;> simp

/-! ## A new issue on either backend -/

def newTask : CreateIssueRequest where
  title := "schema".toList
  description := []
  priority := "medium".toList
  labels := []
  creator := "api".toList
  createdByAgent := none
  source := none
  maxPerHour := 20
  blockedBy := []
  acceptanceCriteria := []

/-- The issue of a request is created, and this is left. -/
def createdOn {σ : Type} (st : Storage σ) (t : σ) : Except ApiError IssueResponse × Site σ :=
  createIssueHandler WorkQueue.ascii st WorkQueue.everyone 1 20 newTask ⟨t, none, ∅⟩

theorem done_createdOn {σ : Type} {st : Storage σ} {t : σ} (h : (createdOn st t).1.isOk = true) :
    Done st .create t (createdOn st t).2.store := by
  rcases hr : createdOn st t with ⟨e | r, s'⟩
  · rw [hr] at h
    cases h
  · exact .create hr

/-- In Postgres the one event is the one that is appended. -/
theorem one_event_iff_postgres : Gains PgRepo.events .created PgRepo.empty (createdOn WorkQueue.pgStorage PgRepo.empty).2.store :=
  ((one_event_iff .create).2 Postgres.noFault (fun t => t) .binary .stable _ _ (done_createdOn (by decide +kernel))).2 rfl

/-- In SQLite the creation of an issue is in the log twice. -/
theorem created_issue_is_logged_twice :
    Done (Sqlite.storage Sqlite.noFault .stable) .create LocalRepo.empty
      (createdOn (Sqlite.storage Sqlite.noFault .stable) LocalRepo.empty).2.store ∧
    (createdOn (Sqlite.storage Sqlite.noFault .stable) LocalRepo.empty).2.store.issues.eventLog =
      [.issueCreated 1 "schema".toList "api".toList "medium".toList,
        .issueCreated 1 "schema".toList "api".toList "medium".toList] ∧
    ¬ Gains (fun s => s.issues.eventLog) .created LocalRepo.empty
      (createdOn (Sqlite.storage Sqlite.noFault .stable) LocalRepo.empty).2.store := by
  have hlog : (createdOn (Sqlite.storage Sqlite.noFault .stable) LocalRepo.empty).2.store.issues.eventLog =
      [.issueCreated 1 "schema".toList "api".toList "medium".toList,
        .issueCreated 1 "schema".toList "api".toList "medium".toList] := by decide +kernel
  refine ⟨done_createdOn (by decide +kernel), hlog, fun h => ?_⟩
  unfold Gains at h
  dsimp only at h
  rw [hlog] at h
  revert h
  decide

end IssueServer
end Vai
