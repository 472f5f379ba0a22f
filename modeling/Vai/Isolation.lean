import Vai.ClaimFaults
import Vai.Upload
/-!
# Isolation — one conflict engine for all repositories

The scopes of every repository are in one engine, by workspace, and their paths are relative to their repositories.  A
listing, a claim and the overlaps of an upload look at all of them: `answer_eq` says that they are the same in two states
that agree on the repository as long as no scope of another one is met, `undisturbed_of_alone` that such a scope shows.
-/
namespace Vai
namespace WorkQueue

open Proc Rows
open IssueDir (Unicode)
open Auth (RepoRole)

/-! ## The overlaps of an upload -/

/-- What one workspace is told of another one. -/
structure OverlapNotification where
  workspaceId : Uuid
  severity : Text
  yourWorkspace : Uuid
  otherWorkspace : Uuid
  otherIntent : Text
  overlappingFiles : List Path
  overlappingEntities : List Text
  recommendation : Text
deriving DecidableEq

/-- Both workspaces are told, the uploading one first. -/
def notifications (intent : Text) (o : OverlapResult) : List OverlapNotification :=
  [⟨o.yourWorkspace, o.level.asStr, o.yourWorkspace, o.otherWorkspace, o.otherIntent, o.overlappingFiles,
      o.overlappingEntities, o.recommendation⟩,
    ⟨o.otherWorkspace, o.level.asStr, o.otherWorkspace, o.yourWorkspace, intent, o.overlappingFiles,
      o.overlappingEntities, o.recommendation⟩]

/-- The paths of an overlay, from the keys of the repository. -/
def overlayPaths (id : Uuid) (keys : List Text) : List Path :=
  (keys.filterMap (Text.stripPrefix (Backend.workspacePrefix id))).filter (fun p => p ≠ [])

/-- The overlap detection of `upload_workspace_files_handler`. -/
def detectOverlaps {σ : Type} (v : View σ) (id : Uuid) (keys : List Text) (s : Site σ) : List OverlapNotification × ConflictEngine :=
  match (v.workspaces s.store).get id with
  | none => ([], s.engine)
  | some wsMeta =>
    let (overlaps, engine) := s.engine.updateScope id wsMeta.intent (overlayPaths id keys)
    (overlaps.flatMap (notifications wsMeta.intent), engine)

/-- Nothing that one workspace writes is written or reached by the other. -/
def Apart (a b : WorkspaceScope) : Prop :=
  Disjoint a.writeFiles b.writeFiles ∧ Disjoint a.writeEntities b.writeEntities ∧
    Disjoint a.writeEntities b.blastRadius ∧ Disjoint b.writeEntities a.blastRadius

theorem sort_eq_nil {s : Finset Text} : s.sort (· ≤ ·) = [] ↔ s = ∅ := by
  rw [← List.length_eq_zero_iff, Finset.length_sort, Finset.card_eq_zero]

theorem classifyOverlap_none_iff {idA idB : Uuid} {a b : WorkspaceScope} :
    (classifyOverlap idA idB a b).level = .none ↔ Apart a b := by
  have hreferential : (a.writeEntities.filter fun x => x ∈ b.blastRadius ∧ x ∉ b.writeEntities) ∪
      (b.writeEntities.filter fun x => x ∈ a.blastRadius ∧ x ∉ a.writeEntities) = ∅ ↔
      (∀ x ∈ a.writeEntities, x ∈ b.blastRadius → x ∈ b.writeEntities) ∧
        ∀ x ∈ b.writeEntities, x ∈ a.blastRadius → x ∈ a.writeEntities := by
    simp only [Finset.union_eq_empty, Finset.filter_eq_empty_iff, not_and, not_not]
  have hshort : ∀ l : List Text, l = [] → ¬ 1 < l.length := fun l hl => by simp [hl]
  unfold Apart classifyOverlap
  dsimp only
  rw [Finset.disjoint_iff_inter_eq_empty, Finset.disjoint_iff_inter_eq_empty]
  by_cases hshared : a.writeEntities ∩ b.writeEntities = ∅
  · have hnone : ∀ x ∈ a.writeEntities, x ∉ b.writeEntities := Finset.disjoint_left.1 (Finset.disjoint_iff_inter_eq_empty.2 hshared)
    have hreach : (a.writeEntities.filter fun x => x ∈ b.blastRadius ∧ x ∉ b.writeEntities) ∪
        (b.writeEntities.filter fun x => x ∈ a.blastRadius ∧ x ∉ a.writeEntities) = ∅ ↔
        Disjoint a.writeEntities b.blastRadius ∧ Disjoint b.writeEntities a.blastRadius := by
      rw [hreferential, Finset.disjoint_left, Finset.disjoint_left]
      constructor
      · intro h
        exact ⟨fun x hx hb => hnone x hx (h.1 x hx hb), fun x hx ha => hnone x (h.2 x hx ha) hx⟩
      · intro h
        exact ⟨fun x hx hb => absurd hb (h.1 hx), fun x hx ha => absurd ha (h.2 hx)⟩
    rw [if_neg (hshort _ (sort_eq_nil.2 hshared)), if_neg (not_not_intro (sort_eq_nil.2 hshared))]
    split
    · rename_i h
      rw [Ne, sort_eq_nil, hreach] at h
      simp [h]
    · rename_i h
      rw [not_not, sort_eq_nil, hreach] at h
      split
      · rename_i hfiles
        rw [Ne, sort_eq_nil] at hfiles
        simp [hfiles]
      · rename_i hfiles
        rw [not_not, sort_eq_nil] at hfiles
        simp [hfiles, hshared, h]
  · have hne : ¬ (a.writeEntities ∩ b.writeEntities).sort (· ≤ ·) = [] := mt sort_eq_nil.1 hshared
    split
    · simp [hshared]
    · simp [hshared]

/-! ## The scopes that are looked at -/

theorem pairwise_allScopes (e : ConflictEngine) : e.allScopes.Pairwise fun p q => p.1 ≤ q.1 :=
  haveI : Std.Total fun p q : Uuid × WorkspaceScope => p.1 ≤ q.1 := ⟨fun p q => le_total p.1 q.1⟩
  haveI : IsTrans (Uuid × WorkspaceScope) fun p q => p.1 ≤ q.1 := ⟨fun _ _ _ => le_trans⟩
  List.pairwise_insertionSort _ _

theorem nodup_allScopes (e : ConflictEngine) : e.allScopes.Nodup := by
  have hkeys : (e.pairs.map Prod.fst).Nodup := by
    rw [FMap.map_fst_pairs]
    exact e.keys_nodup
  unfold ConflictEngine.allScopes
  rw [(List.perm_insertionSort _ _).nodup_iff]
  exact hkeys.of_map

/-- Engines that agree on what passes a test list the same of it. -/
theorem allScopes_filter_eq {e e' : ConflictEngine} {p : Uuid × WorkspaceScope → Bool}
    (h : ∀ id sc, p (id, sc) = true → (FMap.get e id = some sc ↔ FMap.get e' id = some sc)) :
    e.allScopes.filter p = e'.allScopes.filter p := by
  have hmem : ∀ q, q ∈ e.allScopes.filter p ↔ q ∈ e'.allScopes.filter p := by
    intro q
    obtain ⟨id, sc⟩ := q
    rw [List.mem_filter, List.mem_filter, ConflictEngine.mem_allScopes, ConflictEngine.mem_allScopes]
    exact ⟨fun hq => ⟨(h id sc hq.2).1 hq.1, hq.2⟩, fun hq => ⟨(h id sc hq.2).2 hq.1, hq.2⟩⟩
  have hperm : (e.allScopes.filter p).Perm (e'.allScopes.filter p) :=
    (List.perm_ext_iff_of_nodup ((nodup_allScopes e).filter p) ((nodup_allScopes e').filter p)).2 hmem
  refine List.Perm.eq_of_pairwise ?_ ((pairwise_allScopes e).filter p) ((pairwise_allScopes e').filter p) hperm
  intro q q' hq hq' hle hge
  obtain ⟨id, sc⟩ := q
  obtain ⟨id', sc'⟩ := q'
  have hid : id = id' := le_antisymm hle hge
  rw [hmem, List.mem_filter, ConflictEngine.mem_allScopes] at hq
  rw [List.mem_filter, ConflictEngine.mem_allScopes, ← hid, hq.1] at hq'
  rw [hid, Option.some_injective _ hq'.1]

/-! ## What belongs to the repository -/

section Isolation

variable {σ : Type} {st : Storage σ} (B : Backed st) (v : View σ) (unicode : Unicode)
  (check : RepoRole → Except ApiError RepoRole) (broken : Bool)

/-- The workspace is one of the repository. -/
def owned (v : View σ) (s : Site σ) (id : Uuid) : Bool := ((v.workspaces s.store).get id).isSome

/-- The states agree on everything that belongs to the repository. -/
structure Agree (v : View σ) (s s' : Site σ) : Prop where
  store : s.store = s'.store
  graph : s.graph = s'.graph
  scopes : ∀ id, owned v s id = true → FMap.get s.engine id = FMap.get s'.engine id

/-- The state without the scopes of the other repositories. -/
def alone (v : View σ) (s : Site σ) : Site σ := { s with engine := FMap.filter s.engine fun id _ => owned v s id }

inductive Request where
  | listing
  | claim (wsId : Uuid) (now : Nat) (body : ClaimWorkRequest)
  | upload (id : Uuid) (keys : List Text)

inductive Answer (σ : Type) where
  | listing (r : Except ApiError WorkQueue)
  | claim (r : Except ApiError ClaimResult) (after : σ)
  | upload (overlaps : List OverlapNotification)

/-- The response to a request of the repository, and what it makes of its storage. -/
def answer (st : Storage σ) : Request → Site σ → Answer σ
  | .listing, s => .listing (getWorkQueue unicode st check broken s).1
  | .claim wsId now body, s =>
    .claim (claimWork unicode st check broken wsId now body s).1 (claimWork unicode st check broken wsId now body s).2.store
  | .upload id keys, s => .upload (detectOverlaps v id keys s).1

/-- No scope of another repository meets what the request is about: the issues that can be available, in a queue that
answers, the issue that could be claimed but for these scopes, the new scope of the workspace. -/
def Undisturbed : Request → Site σ → Prop
  | .listing, s => (∃ role, check .read = .ok role) → Answered B unicode broken s → ∀ i ∈ B.issues s.store,
    i.status = .open → ¬ Blocked B s i.id →
    ∀ p ∈ s.engine.allScopes, owned v s p.1 = false → (prediction unicode s i).meets p.2 = false
  | .claim _ _ body, s => (∃ role, check .write = .ok role) → ∀ id i, Text.parseNat body.issueId = some id →
    row Issue.id id (B.issues s.store) = some i → i.status = .open → unpredicted unicode broken s i = false →
    (∀ p ∈ s.engine.allScopes, owned v s p.1 = true → (prediction unicode s i).meets p.2 = false) →
    ∀ p ∈ s.engine.allScopes, owned v s p.1 = false → (prediction unicode s i).meets p.2 = false
  | .upload id keys, s => ∀ wsMeta, (v.workspaces s.store).get id = some wsMeta →
    ∀ p ∈ s.engine.allScopes, owned v s p.1 = false →
      Apart (s.engine.withFiles id wsMeta.intent (overlayPaths id keys)) p.2

variable {B v unicode check broken} {s s' : Site σ}

theorem Agree.owned_eq (h : Agree v s s') (id : Uuid) : owned v s' id = owned v s id := by
  unfold owned
  rw [h.store]

theorem Agree.symm (h : Agree v s s') : Agree v s' s :=
  ⟨h.store.symm, h.graph.symm, fun id hid => (h.scopes id (h.owned_eq id ▸ hid)).symm⟩

theorem Agree.trans {s'' : Site σ} (h : Agree v s s') (h' : Agree v s' s'') : Agree v s s'' :=
  ⟨h.store.trans h'.store, h.graph.trans h'.graph, fun id hid =>
    (h.scopes id hid).trans (h'.scopes id (by rw [h.owned_eq]; exact hid))⟩

theorem get_alone (id : Uuid) : FMap.get (alone v s).engine id = if owned v s id = true then FMap.get s.engine id else none := by
  have hfilter : ∀ sc, FMap.get (alone v s).engine id = some sc ↔ FMap.get s.engine id = some sc ∧ owned v s id = true :=
    fun sc => FMap.get_filter
  refine Option.ext fun sc => ?_
  rw [hfilter]
  split
  · rename_i h
    simp [h]
  · rename_i h
    simp [h]

theorem agree_alone (v : View σ) (s : Site σ) : Agree v s (alone v s) :=
  ⟨rfl, rfl, fun id hid => by rw [get_alone, if_pos hid]⟩

theorem owned_of_alone {p : Uuid × WorkspaceScope} (h : p ∈ (alone v s).engine.allScopes) :
    owned v s p.1 = true ∧ p ∈ s.engine.allScopes := by
  obtain ⟨id, sc⟩ := p
  rw [ConflictEngine.mem_allScopes, get_alone] at h
  split at h
  · rename_i hid
    exact ⟨hid, ConflictEngine.mem_allScopes.2 h⟩
  · cases h

theorem undisturbed_alone (req : Request) : Undisturbed B v unicode check broken req (alone v s) := by
  have hforeign : ∀ p ∈ (alone v s).engine.allScopes, owned v (alone v s) p.1 = false → False := by
    intro p hp hno
    have hid := (owned_of_alone hp).1
    rw [(agree_alone v s).owned_eq, hid] at hno
    cases hno
  cases req with
  | listing => exact fun _ _ _ _ _ _ p hp hno => (hforeign p hp hno).elim
  | claim _ _ body => exact fun _ _ _ _ _ _ _ _ p hp hno => (hforeign p hp hno).elim
  | upload id keys => exact fun _ _ p hp hno => (hforeign p hp hno).elim

/-- What the repository sees of the scopes is the same where the others do not pass the test. -/
theorem Agree.scopes_eq (h : Agree v s s') {p : Uuid × WorkspaceScope → Bool}
    (hs : ∀ q ∈ s.engine.allScopes, owned v s q.1 = false → p q = false)
    (hs' : ∀ q ∈ s'.engine.allScopes, owned v s q.1 = false → p q = false) :
    s.engine.allScopes.filter p = s'.engine.allScopes.filter p := by
  refine allScopes_filter_eq fun id sc hp => ?_
  cases hid : owned v s id with
  | true => rw [h.scopes id hid]
  | false =>
    constructor
    · intro hget
      rw [hs (id, sc) (ConflictEngine.mem_allScopes.2 hget) hid] at hp
      cases hp
    · intro hget
      rw [hs' (id, sc) (ConflictEngine.mem_allScopes.2 hget) hid] at hp
      cases hp

/-! ## The listing -/

/-- The calls of a list end with the one error that they have, where one of them does. -/
theorem internal_of_mapM {α β : Type} {f : α → Proc (Site σ) ApiError β} {s : Site σ} (hsame : ∀ a, (f a s).2 = s)
    (herr : ∀ a e, (f a s).1 = .error e → e = .internal) :
    ∀ {l : List α}, (∃ a ∈ l, (f a s).1 = .error .internal) → (l.mapM f s).1 = .error .internal
  | [], h => by
    obtain ⟨a, ha, -⟩ := h
    exact absurd ha List.not_mem_nil
  | a :: l, h => by
    have hs := hsame a
    rw [List.mapM_cons, bind_apply]
    rcases hfa : f a s with ⟨e | b, t⟩
    · exact congrArg Except.error (herr a e (by rw [hfa]))
    · rw [hfa] at hs
      obtain rfl : s = t := hs.symm
      have hrest : ∃ a ∈ l, (f a s).1 = .error .internal := by
        obtain ⟨a', ha', he⟩ := h
        rcases List.mem_cons.1 ha' with rfl | ha'
        · rw [hfa] at he
          cases he
        · exact ⟨a', ha', he⟩
      dsimp only
      rw [fst_bind_pure, internal_of_mapM hsame herr hrest]
      rfl

/-- Without a prediction that it needs the queue is an internal error. -/
theorem getWorkQueue_unanswered (hkeys : ((B.issues s.store).map Issue.id).Nodup) {role : RepoRole}
    (hrole : check .read = .ok role) (h : ¬ Answered B unicode broken s) :
    (getWorkQueue unicode st check broken s).1 = .error .internal := by
  obtain ⟨r, hopen, hpermOpen⟩ := B.listOpen s.store
  obtain ⟨r', hall, hpermAll⟩ := B.listAll s.store
  have hstatus := statusOf_get hkeys hpermAll
  unfold Answered at h
  push Not at h
  obtain ⟨i, hi, hisOpen, hfree, hnone⟩ := h
  rw [getWorkQueue_apply hrole hopen hall, fst_bind_pure, internal_of_mapM (fun i => by rw [queueOne_apply B])]
  · rfl
  · intro j e he
    rw [queueOne_apply B] at he
    dsimp only at he
    by_cases hblocked : Blocked B s j.id
    · obtain ⟨b, hb⟩ := queuedAs_blocked (FMap.ofList (r'.1.map fun i => (i.id, i.title)))
        (unpredicted unicode broken s j) hstatus hblocked
      rw [hb] at he
      cases he
    · rw [queuedAs_free hstatus _ hblocked] at he
      cases hnone : unpredicted unicode broken s j with
      | false =>
        rw [hnone] at he
        cases he
      | true =>
        rw [hnone] at he
        exact (Except.error.inj he).symm
  · refine ⟨i, by rw [hpermOpen.mem_iff, List.mem_filter, decide_eq_true_iff]; exact ⟨hi, hisOpen⟩, ?_⟩
    rw [queueOne_apply B]
    dsimp only
    rw [queuedAs_free hstatus _ hfree, if_pos (by simpa using hnone)]

theorem Agree.prediction_eq (h : Agree v s s') (i : Issue) : prediction unicode s' i = prediction unicode s i := by
  unfold prediction
  rw [h.graph]

theorem Agree.unpredicted_eq (h : Agree v s s') (i : Issue) :
    unpredicted unicode broken s' i = unpredicted unicode broken s i := by
  unfold unpredicted
  rw [h.graph]

theorem Agree.answered (h : Agree v s s') : Answered B unicode broken s' ↔ Answered B unicode broken s := by
  unfold Answered Blocked
  simp only [h.unpredicted_eq, h.store]

theorem listing_eq (hkeys : ((B.issues s.store).map Issue.id).Nodup) (h : Agree v s s')
    (hplaced : (∃ role, check .read = .ok role) → Answered B unicode broken s → ∀ i ∈ B.issues s.store, i.status = .open →
      ¬ Blocked B s i.id →
      placed i (prediction unicode s i) s.engine.allScopes = placed i (prediction unicode s i) s'.engine.allScopes) :
    (getWorkQueue unicode st check broken s).1 = (getWorkQueue unicode st check broken s').1 := by
  cases hrole : check .read with
  | error e =>
    unfold getWorkQueue
    rw [bind_apply, bind_apply, permit_error hrole, permit_error hrole]
  | ok role =>
    by_cases hanswered : Answered B unicode broken s
    · obtain ⟨r, hopen, hpermOpen⟩ := B.listOpen s.store
      obtain ⟨r', hall, hpermAll⟩ := B.listAll s.store
      have hstatus := statusOf_get hkeys hpermAll
      rw [getWorkQueue_apply hrole hopen hall, getWorkQueue_apply hrole (h.store ▸ hopen) (h.store ▸ hall)]
      rw [fst_bind_pure, fst_bind_pure]
      refine congrArg _ (mapM_same (fun i => by rw [queueOne_apply B]) (fun i => by rw [queueOne_apply B]) fun i hi => ?_)
      rw [hpermOpen.mem_iff, List.mem_filter, decide_eq_true_iff] at hi
      rw [queueOne_apply B, queueOne_apply B, ← h.store, h.prediction_eq, h.unpredicted_eq]
      by_cases hblocked : Blocked B s i.id
      · obtain ⟨b, hb⟩ := queuedAs_blocked (FMap.ofList (r'.1.map fun i => (i.id, i.title)))
          (unpredicted unicode broken s i) hstatus hblocked
        rw [hb, hb]
      · rw [queuedAs_free hstatus _ hblocked, queuedAs_free hstatus _ hblocked,
          hplaced ⟨role, hrole⟩ hanswered i hi.1 hi.2 hblocked]
    · have hkeys' : ((B.issues s'.store).map Issue.id).Nodup := h.store ▸ hkeys
      rw [getWorkQueue_unanswered hkeys hrole hanswered, getWorkQueue_unanswered hkeys' hrole (mt h.answered.1 hanswered)]

/-! ## Claims -/

/-- What the procedure answers, and leaves in the storage, depends on the storage alone. -/
def StoreOnly {ε α : Type} (m : Proc (Site σ) ε α) : Prop :=
  ∀ s s', s.store = s'.store → (m s).1 = (m s').1 ∧ (m s).2.store = (m s').2.store

theorem storeOnly_pure {ε α : Type} (a : α) : StoreOnly (pure a : Proc (Site σ) ε α) := fun _ _ h => ⟨rfl, h⟩

theorem storeOnly_onStore {α : Type} (m : Proc σ StorageError α) : StoreOnly (onStore m) := fun s s' h => by
  unfold onStore
  rw [h]
  exact ⟨rfl, rfl⟩

theorem StoreOnly.mapErr {ε ε' α : Type} {m : Proc (Site σ) ε' α} (h : StoreOnly m) (g : ε' → ε) : StoreOnly (mapErr g m) := by
  intro s s' hs
  have hm := h s s' hs
  unfold Proc.mapErr
  rcases hms : m s with ⟨_ | _, _⟩ <;> rcases hms' : m s' with ⟨_ | _, _⟩ <;> rw [hms, hms'] at hm <;> cases hm.1 <;>
    exact ⟨rfl, hm.2⟩

theorem StoreOnly.attempt {ε α : Type} {m : Proc (Site σ) ε α} (h : StoreOnly m) : StoreOnly (attempt m) := by
  intro s s' hs
  have hm := h s s' hs
  rw [attempt_apply, attempt_apply, hm.1]
  exact ⟨rfl, hm.2⟩

theorem StoreOnly.bind {ε α β : Type} {m : Proc (Site σ) ε α} {f : α → Proc (Site σ) ε β} (hm : StoreOnly m)
    (hf : ∀ a, StoreOnly (f a)) : StoreOnly (m >>= f) := by
  intro s s' hs
  have h := hm s s' hs
  rw [bind_apply, bind_apply]
  rcases hms : m s with ⟨_ | a, t⟩ <;> rcases hms' : m s' with ⟨_ | a', t'⟩ <;> rw [hms, hms'] at h <;> cases h.1
  · exact ⟨rfl, h.2⟩
  · exact hf a t t' h.2

theorem storeOnly_attemptStore {α : Type} (m : Proc σ StorageError α) : StoreOnly (attemptStore m) :=
  ((storeOnly_onStore m).mapErr _).attempt.bind fun _ => storeOnly_pure _

theorem storeOnly_afterUpdate (worker : Option Uuid) (issue : Issue) (ws : WorkspaceMeta) (p : ScopePrediction) :
    StoreOnly (afterUpdate st worker issue ws p) := by
  unfold afterUpdate
  have hnoted : ∀ r : ClaimResult, StoreOnly (do
      attemptStore (st.append (.workspaceCreated ws.id ws.intent ws.baseVersion))
      attemptStore (st.append (.issueLinkedToWorkspace issue.id ws.id))
      pure r : Proc (Site σ) ApiError ClaimResult) :=
    fun r => (storeOnly_attemptStore _).bind fun _ => (storeOnly_attemptStore _).bind fun _ => storeOnly_pure r
  cases worker with
  | none => exact hnoted _
  | some w => exact (storeOnly_attemptStore _).bind fun _ => hnoted _

theorem storeOnly_afterGuards (wsId : Uuid) (now : Nat) (worker : Option Uuid) (issue : Issue) (p : ScopePrediction) :
    StoreOnly (afterGuards st wsId now worker issue p) := by
  refine ((storeOnly_onStore _).mapErr _).attempt.bind fun head => ?_
  refine ((storeOnly_onStore _).mapErr _).bind fun ws => ?_
  exact ((storeOnly_onStore _).mapErr _).bind fun _ => storeOnly_afterUpdate worker issue ws p

theorem afterGuards_internal (wsId : Uuid) (now : Nat) (worker : Option Uuid) (issue : Issue) (p : ScopePrediction) :
    FailsOnly (fun e => e = ApiError.internal) (afterGuards st wsId now worker issue p) := by
  have hattempt : ∀ {α : Type} (m : Proc σ StorageError α), FailsOnly (fun e => e = ApiError.internal) (attemptStore m) :=
    fun m => (failsOnly_attempt _ _).bind fun _ => failsOnly_pure _ _
  have hnoted : ∀ (ws : WorkspaceMeta) (r : ClaimResult), FailsOnly (fun e => e = ApiError.internal) (do
      attemptStore (st.append (.workspaceCreated ws.id ws.intent ws.baseVersion))
      attemptStore (st.append (.issueLinkedToWorkspace issue.id ws.id))
      pure r : Proc (Site σ) ApiError ClaimResult) :=
    fun ws r => (hattempt _).bind fun _ => (hattempt _).bind fun _ => failsOnly_pure _ r
  have hinternal : ∀ {α : Type} (m : Proc σ StorageError α), FailsOnly (fun e => e = ApiError.internal) (orInternal m) :=
    fun m => failsOnly_mapErr (P := fun e => e = ApiError.internal) (fun _ => rfl) _
  refine (failsOnly_attempt _ _).bind fun head => (hinternal _).bind fun ws => (hinternal _).bind fun _ => ?_
  cases worker with
  | none => exact hnoted ws _
  | some w => exact (hattempt _).bind fun _ => hnoted ws _

theorem claimWork_start (wsId : Uuid) (now : Nat) (body : ClaimWorkRequest) :
    claimWork unicode st check broken wsId now body = (permit check .write >>= fun _ =>
      eligible unicode st broken body.issueId >>= fun r =>
        afterGuards st wsId now (body.workerId.bind Text.parseNat) r.1 r.2) := rfl

theorem claim_eq (h : Agree v s s') (wsId : Uuid) (now : Nat) {body : ClaimWorkRequest}
    (hmeets : (∃ role, check .write = .ok role) → ∀ id i, Text.parseNat body.issueId = some id →
      row Issue.id id (B.issues s.store) = some i → i.status = .open → unpredicted unicode broken s i = false →
      (s.engine.allScopes.any fun p => (prediction unicode s i).meets p.2) =
        s'.engine.allScopes.any fun p => (prediction unicode s i).meets p.2) :
    (claimWork unicode st check broken wsId now body s).1 = (claimWork unicode st check broken wsId now body s').1 ∧
      (claimWork unicode st check broken wsId now body s).2.store = (claimWork unicode st check broken wsId now body s').2.store := by
  rw [claimWork_start]
  cases hrole : check .write with
  | error e =>
    rw [bind_apply, bind_apply, permit_error hrole, permit_error hrole]
    exact ⟨rfl, h.store⟩
  | ok role =>
    rw [bind_of_ok (permit_ok hrole s), bind_of_ok (permit_ok hrole s')]
    unfold eligible
    cases hnamed : Text.parseNat body.issueId with
    | none => exact ⟨rfl, h.store⟩
    | some id =>
      have hget := getIssue_store B id s
      have hget' := getIssue_store B id s'
      rw [← h.store] at hget'
      cases hrow : row Issue.id id (B.issues s.store) with
      | none =>
        rw [hrow] at hget hget'
        dsimp only
        rw [bind_bind, bind_apply, bind_apply, hget, hget']
        exact ⟨rfl, h.store⟩
      | some i =>
        rw [hrow] at hget hget'
        dsimp only
        have hguards : ∃ r, guards unicode broken i s = (r, s) ∧ guards unicode broken i s' = (r, s') := by
          rw [guards_apply, guards_apply, h.prediction_eq, h.unpredicted_eq]
          by_cases hopen : i.status = .open
          · cases hpredicted : unpredicted unicode broken s i with
            | true => exact ⟨_, rfl, rfl⟩
            | false => exact ⟨_, rfl, by rw [hmeets ⟨role, hrole⟩ id i hnamed hrow hopen hpredicted]⟩
          · exact ⟨_, rfl, by rw [if_pos hopen, if_pos hopen]⟩
        obtain ⟨r, hs, hs'⟩ := hguards
        rw [bind_bind, bind_of_ok hget, bind_of_ok hget', bind_apply, bind_apply, hs, hs']
        cases r with
        | error e => exact ⟨rfl, h.store⟩
        | ok r => exact storeOnly_afterGuards wsId now _ r.1 r.2 s s' h.store

/-! ## Overlaps -/

/-- The other workspaces whose scopes overlap. -/
def overlapping (e : ConflictEngine) (id : Uuid) (updated : WorkspaceScope) : List (Uuid × WorkspaceScope) :=
  e.allScopes.filter fun p => (classifyOverlap id p.1 updated p.2).level ≠ .none && p.1 ≠ id

theorem updateScope_fst (e : ConflictEngine) (id : Uuid) (intent : Text) (paths : List Path) :
    (e.updateScope id intent paths).1 = ((overlapping e id (e.withFiles id intent paths)).map fun p =>
      classifyOverlap id p.1 (e.withFiles id intent paths) p.2).insertionSort fun r r' => r'.level.rank ≤ r.level.rank := by
  unfold ConflictEngine.updateScope overlapping
  dsimp only
  rw [List.filter_map, List.filter_filter]
  rfl

theorem mem_detectOverlaps {id : Uuid} {keys : List Text} {wsMeta : WorkspaceMeta}
    (hmeta : (v.workspaces s.store).get id = some wsMeta) {n : OverlapNotification} :
    n ∈ (detectOverlaps v id keys s).1 ↔ ∃ p ∈ overlapping s.engine id (s.engine.withFiles id wsMeta.intent (overlayPaths id keys)),
      n ∈ notifications wsMeta.intent
        (classifyOverlap id p.1 (s.engine.withFiles id wsMeta.intent (overlayPaths id keys)) p.2) := by
  unfold detectOverlaps
  rw [hmeta]
  dsimp only
  rw [List.mem_flatMap, updateScope_fst]
  simp only [List.mem_insertionSort, List.mem_map]
  constructor
  · intro h
    obtain ⟨o, ⟨p, hp, rfl⟩, hn⟩ := h
    exact ⟨p, hp, hn⟩
  · intro h
    obtain ⟨p, hp, hn⟩ := h
    exact ⟨_, ⟨p, hp, rfl⟩, hn⟩

theorem overlaps_eq (h : Agree v s s') {id : Uuid} {keys : List Text}
    (hs : Undisturbed B v unicode check broken (.upload id keys) s)
    (hs' : Undisturbed B v unicode check broken (.upload id keys) s') :
    (detectOverlaps v id keys s).1 = (detectOverlaps v id keys s').1 := by
  unfold detectOverlaps
  rw [← h.store]
  cases hmeta : (v.workspaces s.store).get id with
  | none => rfl
  | some wsMeta =>
    have hupdated : s'.engine.withFiles id wsMeta.intent (overlayPaths id keys) =
        s.engine.withFiles id wsMeta.intent (overlayPaths id keys) := by
      have hid : owned v s id = true := by
        unfold owned
        rw [hmeta]
        rfl
      unfold ConflictEngine.withFiles
      rw [h.scopes id hid]
    have hmeta' : (v.workspaces s'.store).get id = some wsMeta := by
      rw [← h.store]
      exact hmeta
    dsimp only
    rw [updateScope_fst, updateScope_fst, hupdated]
    have hoverlapping : overlapping s.engine id (s.engine.withFiles id wsMeta.intent (overlayPaths id keys)) =
        overlapping s'.engine id (s.engine.withFiles id wsMeta.intent (overlayPaths id keys)) := by
      refine h.scopes_eq (fun q hq hno => ?_) (fun q hq hno => ?_)
      · rw [classifyOverlap_none_iff.2 (hs wsMeta hmeta q hq hno)]
        rfl
      · have hapart := hs' wsMeta hmeta' q hq (by rw [h.owned_eq]; exact hno)
        rw [hupdated] at hapart
        rw [classifyOverlap_none_iff.2 hapart]
        rfl
    rw [hoverlapping]

/-! ## Two states -/

/-- **What no other repository disturbs is the same in every state that agrees on the repository.** -/
theorem answer_eq (hkeys : ((B.issues s.store).map Issue.id).Nodup) (h : Agree v s s') {req : Request}
    (hs : Undisturbed B v unicode check broken req s) (hs' : Undisturbed B v unicode check broken req s') :
    answer v unicode check broken st req s = answer v unicode check broken st req s' := by
  have hpredict : ∀ i, prediction unicode s' i = prediction unicode s i := h.prediction_eq
  cases req with
  | listing =>
    refine congrArg Answer.listing (listing_eq hkeys h fun hread hanswered i hi hopen hblocked => ?_)
    have hblocked' : ¬ Blocked B s' i.id := by
      unfold Blocked at hblocked ⊢
      rw [← h.store]
      exact hblocked
    have hscopes := @Agree.scopes_eq _ _ _ _ h (fun q => (prediction unicode s i).meets q.2) (fun q hq hno =>
      hs hread hanswered i hi hopen hblocked q hq hno) (fun q hq hno => by
        rw [← hpredict]
        exact hs' hread (h.answered.2 hanswered) i (h.store ▸ hi) hopen hblocked' q hq (by rw [h.owned_eq]; exact hno))
    unfold placed
    rw [hscopes]
  | claim wsId now body =>
    have hclaim : _ ∧ _ := @claim_eq _ st B v unicode check broken _ _ h wsId now body ?_
    · exact congrArg₂ Answer.claim hclaim.1 hclaim.2
    · intro hwrite id i hnamed hrow hopen hpredicted
      have hrow' : row Issue.id id (B.issues s'.store) = some i := h.store ▸ hrow
      -- a scope of the repository meets the prediction in both states, or in neither
      have hown : ∀ {t t' : Site σ}, Agree v t t' → (∀ p ∈ t.engine.allScopes, owned v t p.1 = true →
          (prediction unicode s i).meets p.2 = false) → ∀ p ∈ t'.engine.allScopes, owned v t' p.1 = true →
          (prediction unicode s i).meets p.2 = false := by
        intro t t' htt' hfree p hp hid
        obtain ⟨id', sc⟩ := p
        rw [htt'.owned_eq] at hid
        rw [ConflictEngine.mem_allScopes, ← htt'.scopes id' hid, ← ConflictEngine.mem_allScopes] at hp
        exact hfree (id', sc) hp hid
      have hnone : ∀ {t : Site σ}, (∀ p ∈ t.engine.allScopes, owned v t p.1 = true → (prediction unicode s i).meets p.2 = false) →
          (∀ p ∈ t.engine.allScopes, owned v t p.1 = false → (prediction unicode s i).meets p.2 = false) →
          (t.engine.allScopes.any fun p => (prediction unicode s i).meets p.2) = false := by
        intro t hmine hothers
        rw [List.any_eq_false]
        intro p hp
        cases hid : owned v t p.1 with
        | true => simp [hmine p hp hid]
        | false => simp [hothers p hp hid]
      by_cases hmine : ∀ p ∈ s.engine.allScopes, owned v s p.1 = true → (prediction unicode s i).meets p.2 = false
      · have hmine' := hown h hmine
        rw [hnone hmine (hs hwrite id i hnamed hrow hopen hpredicted hmine)]
        have hothers' := hs' hwrite id i hnamed hrow' hopen ((h.unpredicted_eq i).trans hpredicted) (by rw [hpredict]; exact hmine')
        rw [hpredict] at hothers'
        exact (hnone hmine' hothers').symm
      · have hmine' := mt (hown h.symm) hmine
        have hsome : ∀ {t : Site σ}, (¬ ∀ p ∈ t.engine.allScopes, owned v t p.1 = true →
            (prediction unicode s i).meets p.2 = false) →
            (t.engine.allScopes.any fun p => (prediction unicode s i).meets p.2) = true := by
          intro t hno
          push Not at hno
          obtain ⟨p, hp, -, hmeets⟩ := hno
          exact List.any_eq_true.2 ⟨p, hp, by simpa using hmeets⟩
        rw [hsome hmine, hsome hmine']
  | upload id keys => exact congrArg Answer.upload (overlaps_eq h hs hs')

theorem ends_classifyOverlap (idA idB : Uuid) (a b : WorkspaceScope) :
    (classifyOverlap idA idB a b).yourWorkspace = idA ∧ (classifyOverlap idA idB a b).otherWorkspace = idB := by
  unfold classifyOverlap
  dsimp only
  split_ifs <;> exact ⟨rfl, rfl⟩

/-- The blocked issues of the queue are those that are queued as blocked. -/
theorem mem_blockedWork (B : Backed st) {role : RepoRole} (hrole : check .read = .ok role) {r r' : List Issue × Nat}
    (hopen : st.listIssues .onlyOpen .default s.store = (.ok r, s.store))
    (hall : st.listIssues .none .default s.store = (.ok r', s.store)) {q : WorkQueue}
    (hq : (getWorkQueue unicode st check broken s).1 = .ok q) (e : BlockedWork) : e ∈ q.blockedWork ↔
      ∃ j ∈ r.1, queuedAs (FMap.ofList (r'.1.map fun i => (i.id, i.status))) (FMap.ofList (r'.1.map fun i => (i.id, i.title)))
        (B.links s.store) (unpredicted unicode broken s j) j (prediction unicode s j) s.engine.allScopes = .ok (.inr e) := by
  rw [getWorkQueue_apply hrole hopen hall] at hq
  obtain ⟨placed, s₁, hmapM, hpure⟩ := bind_eq_ok.1 (Prod.ext hq rfl)
  cases hpure
  obtain ⟨-, hplaced⟩ := mem_of_mapM (fun i => by rw [queueOne_apply B]) hmapM
  rw [List.mem_insertionSort, List.mem_filterMap]
  constructor
  · intro h
    obtain ⟨x, hx, hright⟩ := h
    obtain rfl := Sum.getRight?_eq_some_iff.1 hright
    obtain ⟨j, hj, hone⟩ := (hplaced _).1 hx
    rw [queueOne_apply B] at hone
    injection hone with hone _
    exact ⟨j, hj, hone⟩
  · intro h
    obtain ⟨j, hj, hone⟩ := h
    exact ⟨.inr e, (hplaced _).2 ⟨j, hj, by rw [queueOne_apply B, hone]⟩, rfl⟩

theorem getWorkQueue_ok (hkeys : ((B.issues s.store).map Issue.id).Nodup) {role : RepoRole} (hrole : check .read = .ok role)
    (hanswered : Answered B unicode broken s) : ∃ q, (getWorkQueue unicode st check broken s).1 = .ok q := by
  obtain ⟨r, hopen, hpermOpen⟩ := B.listOpen s.store
  obtain ⟨r', hall, hpermAll⟩ := B.listAll s.store
  have hstatus := statusOf_get hkeys hpermAll
  have hone : ∀ j, ∃ x, j ∈ r.1 → queuedAs (FMap.ofList (r'.1.map fun i => (i.id, i.status)))
      (FMap.ofList (r'.1.map fun i => (i.id, i.title))) (B.links s.store) (unpredicted unicode broken s j) j
        (prediction unicode s j) s.engine.allScopes = .ok x := by
    intro j
    by_cases hj : Blocked B s j.id
    · obtain ⟨b, hb⟩ := queuedAs_blocked (FMap.ofList (r'.1.map fun i => (i.id, i.title)))
        (unpredicted unicode broken s j) hstatus hj
      exact ⟨_, fun _ => hb _ _⟩
    · refine ⟨placed j (prediction unicode s j) s.engine.allScopes, fun hmem => ?_⟩
      rw [hpermOpen.mem_iff, List.mem_filter, decide_eq_true_iff] at hmem
      rw [queuedAs_free hstatus _ hj, hanswered j hmem.1 hmem.2 hj]
      rfl
  choose place hplace using hone
  rw [getWorkQueue_apply hrole hopen hall, fst_bind_pure, mapM_of_ok fun j hj => by rw [queueOne_apply B, hplace j hj]]
  exact ⟨_, rfl⟩

theorem placed_inr {i : Issue} {p : ScopePrediction} {scopes : List (Uuid × WorkspaceScope)} {e : BlockedWork}
    (h : placed i p scopes = .inr e) : e.issueId = i.id ∧ e.blockedBy = (scopes.filter fun q => p.meets q.2).map Prod.fst := by
  unfold placed at h
  dsimp only at h
  split at h
  · cases h
  · cases h
    exact ⟨rfl, rfl⟩

theorem queuedAs_id {statusOf : FMap Uuid IssueStatus} {titleOf : FMap Uuid Text} {links : List IssueLink}
    {scopes : List (Uuid × WorkspaceScope)} {i : Issue} {p : ScopePrediction} {e : BlockedWork} {unpredicted : Bool}
    (h : queuedAs statusOf titleOf links unpredicted i p scopes = .ok (.inr e)) : e.issueId = i.id := by
  unfold queuedAs at h
  dsimp only at h
  split at h
  · cases h
    rfl
  · cases unpredicted with
    | true => cases h
    | false =>
      have hinr : placed i p scopes = .inr e := by
        injection h
      exact (placed_inr hinr).1

/-! ## What the answer shows -/

theorem undisturbed_listing (hkeys : ((B.issues s.store).map Issue.id).Nodup)
    (h : answer v unicode check broken st .listing s = answer v unicode check broken st .listing (alone v s)) :
    Undisturbed B v unicode check broken .listing s := by
  intro hread hanswered i hi hisOpen hblocked p hp hno
  by_contra hmeets
  obtain ⟨role, hrole⟩ := hread
  obtain ⟨r, hopen, hpermOpen⟩ := B.listOpen s.store
  obtain ⟨r', hall, hpermAll⟩ := B.listAll s.store
  have hstatus := statusOf_get hkeys hpermAll
  have hmem : ∀ j, j ∈ r.1 ↔ j ∈ B.issues s.store ∧ j.status = .open := fun j => by
    rw [hpermOpen.mem_iff, List.mem_filter, decide_eq_true_iff]
  obtain ⟨q, hq⟩ := getWorkQueue_ok hkeys hrole hanswered
  have hq' : (getWorkQueue unicode st check broken (alone v s)).1 = .ok q := by
    injection h with h
    rw [← h, hq]
  -- the entry of the issue names the workspace
  have hmeeting : p ∈ s.engine.allScopes.filter fun q => (prediction unicode s i).meets q.2 :=
    List.mem_filter.2 ⟨hp, by simpa using hmeets⟩
  have hinr : ∃ e, placed i (prediction unicode s i) s.engine.allScopes = .inr e := by
    cases hplaced : placed i (prediction unicode s i) s.engine.allScopes with
    | inl w => exact absurd ((placed_eq_inl.1 hplaced).1 p hp) hmeets
    | inr e => exact ⟨e, rfl⟩
  obtain ⟨e, he⟩ := hinr
  have hnames : p.1 ∈ e.blockedBy := by
    rw [(placed_inr he).2]
    exact List.mem_map_of_mem hmeeting
  have hlisted : e ∈ q.blockedWork := (mem_blockedWork B hrole hopen hall hq e).2
    ⟨i, (hmem i).2 ⟨hi, hisOpen⟩, by rw [queuedAs_free hstatus _ hblocked, hanswered i hi hisOpen hblocked, he]; rfl⟩
  obtain ⟨j, hj, hone⟩ := (mem_blockedWork B (s := alone v s) hrole hopen hall hq' e).1 hlisted
  have hid : j.id = i.id := (queuedAs_id hone).symm.trans (placed_inr he).1
  obtain rfl := eq_of_key hkeys ((hmem j).1 hj).1 hi hid
  have hpredicted : unpredicted unicode broken (alone v s) j = false := hanswered j hi hisOpen hblocked
  have hfree : queuedAs _ (FMap.ofList (r'.1.map fun i => (i.id, i.title))) _ false j _ _ = _ :=
    queuedAs_free hstatus (alone v s).engine.allScopes hblocked false (prediction unicode s j)
  rw [hpredicted] at hone
  have hplaced : placed j (prediction unicode s j) (alone v s).engine.allScopes = .inr e := by
    have hsame := hfree.symm.trans hone
    injection hsame
  rw [(placed_inr hplaced).2] at hnames
  obtain ⟨p', hp', hid'⟩ := List.mem_map.1 hnames
  have howned := (owned_of_alone (List.mem_of_mem_filter hp')).1
  rw [hid', hno] at howned
  cases howned

theorem undisturbed_claim {wsId : Uuid} {now : Nat} {body : ClaimWorkRequest}
    (h : answer v unicode check broken st (.claim wsId now body) s =
      answer v unicode check broken st (.claim wsId now body) (alone v s)) :
    Undisturbed B v unicode check broken (.claim wsId now body) s := by
  intro hwrite id i hnamed hrow hisOpen hpredicted hmine p hp hno
  by_contra hmeets
  obtain ⟨role, hrole⟩ := hwrite
  have hget := getIssue_store B id s
  have hget' := getIssue_store B id (alone v s)
  have hrow' : row Issue.id id (B.issues (alone v s).store) = some i := hrow
  rw [hrow] at hget
  rw [hrow'] at hget'
  have hguards : guards unicode broken i s = (.error (.conflict (contestedMessage i.id)), s) := by
    rw [guards_apply, if_neg (not_not_intro hisOpen), if_neg (by simp [hpredicted]), if_pos (uncontested_iff.2 fun hall => hmeets (hall p hp))]
  have hguards' : guards unicode broken i (alone v s) = (.ok (i, prediction unicode s i), alone v s) := by
    refine guards_ok hisOpen hpredicted fun p' hp' => ?_
    obtain ⟨howned, hp''⟩ := owned_of_alone hp'
    exact hmine p' hp'' howned
  have hs : (claimWork unicode st check broken wsId now body s).1 = .error (.conflict (contestedMessage i.id)) := by
    rw [claimWork_start, bind_of_ok (permit_ok hrole s)]
    unfold eligible
    rw [hnamed]
    dsimp only
    rw [bind_bind, bind_of_ok hget, bind_apply, hguards]
  have hs' : (claimWork unicode st check broken wsId now body (alone v s)).1 =
      (afterGuards st wsId now (body.workerId.bind Text.parseNat) i (prediction unicode s i) (alone v s)).1 := by
    rw [claimWork_start, bind_of_ok (permit_ok hrole _)]
    unfold eligible
    rw [hnamed]
    dsimp only
    rw [bind_bind, bind_of_ok hget', bind_of_ok hguards']
  have hrefused : (afterGuards st wsId now (body.workerId.bind Text.parseNat) i (prediction unicode s i) (alone v s)).1 =
      .error (.conflict (contestedMessage i.id)) := by
    injection h with h
    rw [← hs', ← h, hs]
  have hinternal := afterGuards_internal wsId now _ i _ (alone v s) _ _ (Prod.ext hrefused rfl)
  cases hinternal

theorem undisturbed_upload {id : Uuid} {keys : List Text}
    (h : answer v unicode check broken st (.upload id keys) s =
      answer v unicode check broken st (.upload id keys) (alone v s)) :
    Undisturbed B v unicode check broken (.upload id keys) s := by
  intro wsMeta hmeta p hp hno
  by_contra hapart
  have hid : p.1 ≠ id := by
    intro heq
    unfold owned at hno
    rw [heq, hmeta] at hno
    cases hno
  have hlevel : (classifyOverlap id p.1 (s.engine.withFiles id wsMeta.intent (overlayPaths id keys)) p.2).level ≠ .none :=
    mt classifyOverlap_none_iff.1 hapart
  have hover : p ∈ overlapping s.engine id (s.engine.withFiles id wsMeta.intent (overlayPaths id keys)) := by
    unfold overlapping
    rw [List.mem_filter]
    exact ⟨hp, by simp [hlevel, hid]⟩
  have htold := (mem_detectOverlaps hmeta).2 ⟨p, hover, List.mem_cons_self⟩
  injection h with h
  rw [h] at htold
  obtain ⟨p', hp', hn⟩ := (mem_detectOverlaps (s := alone v s) (by exact hmeta)).1 htold
  unfold overlapping at hp'
  rw [List.mem_filter] at hp'
  have howned := (owned_of_alone hp'.1).1
  have hne : p'.1 ≠ id := by
    have hboth := hp'.2
    simp only [ne_eq, decide_not, Bool.and_eq_true, Bool.not_eq_true', decide_eq_false_iff_not] at hboth
    exact hboth.2
  rcases List.mem_cons.1 hn with heq | hn
  · have hother := congrArg OverlapNotification.otherWorkspace heq
    dsimp only at hother
    rw [(ends_classifyOverlap _ _ _ _).2, (ends_classifyOverlap _ _ _ _).2] at hother
    rw [← hother, hno] at howned
    cases howned
  · have hyours := congrArg OverlapNotification.workspaceId (List.mem_singleton.1 hn)
    dsimp only at hyours
    rw [(ends_classifyOverlap _ _ _ _).1, (ends_classifyOverlap _ _ _ _).2] at hyours
    exact hne hyours.symm

/-- **A scope of another repository that is met shows in the answer.** -/
theorem undisturbed_of_alone (hkeys : ((B.issues s.store).map Issue.id).Nodup) {req : Request}
    (h : answer v unicode check broken st req s = answer v unicode check broken st req (alone v s)) :
    Undisturbed B v unicode check broken req s := by
  cases req with
  | listing => exact undisturbed_listing hkeys h
  | claim wsId now body => exact undisturbed_claim h
  | upload id keys => exact undisturbed_upload h

/-- **Two states that agree on a repository give it the same answer, which is the one it gets alone, exactly when neither is
disturbed by a scope of another repository.** -/
theorem repositories_do_not_interfere_iff (B : Backed st) (v : View σ) (unicode : Unicode)
    (check : RepoRole → Except ApiError RepoRole) (broken : Bool) {s s' : Site σ} (hkeys : ((B.issues s.store).map Issue.id).Nodup)
    (h : Agree v s s') (req : Request) :
    answer v unicode check broken st req s = answer v unicode check broken st req s' ∧
        answer v unicode check broken st req s = answer v unicode check broken st req (alone v s) ↔
      Undisturbed B v unicode check broken req s ∧ Undisturbed B v unicode check broken req s' := by
  have hkeys' : ((B.issues s'.store).map Issue.id).Nodup := h.store ▸ hkeys
  have halone : answer v unicode check broken st req (alone v s) = answer v unicode check broken st req (alone v s') :=
    @answer_eq _ _ B _ _ _ _ (alone v s) _ hkeys (((agree_alone v s).symm.trans h).trans (agree_alone v s')) _
      (undisturbed_alone req) (undisturbed_alone req)
  constructor
  · intro hsame
    exact ⟨undisturbed_of_alone hkeys hsame.2, undisturbed_of_alone hkeys' (hsame.1.symm.trans (hsame.2.trans halone))⟩
  · intro hfree
    exact ⟨answer_eq hkeys h hfree.1 hfree.2, answer_eq hkeys (agree_alone v s) hfree.1 (undisturbed_alone req)⟩

end Isolation

/-! ## Two repositories with a file of one name -/

def schemaEntity : Entity :=
  ⟨"schema".toList, .function, "schema".toList, "schema".toList, "src/schema.rs".toList, (0, 9), (1, 2), none⟩

/-- Issue 1 is about `src/schema.rs`. -/
def mine : Site PgRepo := ⟨behind.store, some ⟨FMap.ofList [("schema".toList, schemaEntity)], ∅⟩, ∅⟩

/-- Workspace 8 of another repository has written its own `src/schema.rs`. -/
def beside : Site PgRepo :=
  { mine with engine := FMap.ofList [(8, ⟨"cleanup".toList, {"src/schema.rs".toList}, ∅, ∅⟩)] }

theorem agree_beside : Agree pgView beside mine :=
  ⟨rfl, rfl, fun id hid => by
    have hnone : owned pgView beside id = false := by
      unfold owned
      exact congrArg Option.isSome (FMap.get_empty id)
    rw [hnone] at hid
    cases hid⟩

/-- The claim is refused for the other repository's workspace. -/
theorem other_repository_refuses_claim : ¬ ∀ (req : Request) (s s' : Site PgRepo), Agree pgView s s' →
    answer pgView ascii everyone false pgStorage req s = answer pgView ascii everyone false pgStorage req s' := by
  have hrefused : (claimWork ascii pgStorage everyone false 7 20 schemaRequest beside).1.isOk = false := by decide +kernel
  have hclaimed : (claimWork ascii pgStorage everyone false 7 20 schemaRequest mine).1.isOk = true := by decide +kernel
  intro h
  have hsame := h (.claim 7 20 schemaRequest) beside mine agree_beside
  injection hsame with hsame
  rw [hsame, hclaimed] at hrefused
  cases hrefused

theorem repositories_do_not_interfere_beside :
    answer pgView ascii everyone false pgStorage (.claim 7 20 schemaRequest) beside =
        answer pgView ascii everyone false pgStorage (.claim 7 20 schemaRequest) mine ∧
      answer pgView ascii everyone false pgStorage (.claim 7 20 schemaRequest) beside =
        answer pgView ascii everyone false pgStorage (.claim 7 20 schemaRequest) (alone pgView beside) ↔
    Undisturbed (postgresBacked (fun t => t) .binary .stable) pgView ascii everyone false (.claim 7 20 schemaRequest) beside ∧
      Undisturbed (postgresBacked (fun t => t) .binary .stable) pgView ascii everyone false (.claim 7 20 schemaRequest) mine :=
  repositories_do_not_interfere_iff (postgresBacked (fun t => t) .binary .stable) pgView ascii everyone false (by decide)
    agree_beside (.claim 7 20 schemaRequest)

end WorkQueue
end Vai
