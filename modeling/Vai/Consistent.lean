import Vai.Ledger
/-!
# Consistent — a submit in which calls fail

A submit writes the tree first, key by key, and then its records, each of which may fail unnoticed.  `Consistent` is what
the server should be in afterwards: as before with an error, or with the tree, HEAD and the version of the merge.
`Sound` says which failures leave it so.
-/
namespace Vai

open Proc

/-! ## The version of a merge -/

namespace Merge

variable {φ : Type} {env : Env} {fs : MergeFs φ}

theorem yields_onVai {α : Type} {P : α → Prop} {p : Proc VaiDir MergeError α} (h : Yields P p) :
    Yields P (onVai env p : Proc (World φ) MergeError α) := by
  intro w a w' ha
  unfold onVai at ha
  split at ha
  · cases ha
  · have hfst : (p w.vai).1 = .ok a := congrArg Prod.fst ha
    exact h w.vai a (p w.vai).2 (Prod.ext hfst rfl)

theorem complete_parent (m : WorkspaceMeta) (d : WorkspaceDiff) (D : List Path) (v : Text) (n k : Nat) :
    Yields (fun r => r.version.parentVersionId = some m.baseVersion)
      (complete env m d D v n k : Proc (World φ) MergeError SubmitResult) := by
  refine yields_bind fun _ => yields_bind fun e => yields_bind fun _ => ?_
  refine Yields.bind (Q := fun version => version.parentVersionId = some m.baseVersion) (yields_onVai ?_) fun version hv => ?_
  · intro v version v' h
    cases h
    rfl
  · exact yields_bind fun _ => yields_pure hv

/-- The parent of a merge's version is the version its workspace was created from. -/
theorem submitWithFs_parent (m : WorkspaceMeta) (D : List Path) :
    Yields (fun r => r.version.parentVersionId = some m.baseVersion) (submitWithFs env fs m D) := by
  refine yields_bind fun d => ?_
  split
  · exact yields_fail _ _
  refine yields_bind fun _ => yields_bind fun _ => yields_bind fun _ => yields_bind fun head => ?_
  split
  · exact yields_bind fun v => yields_bind fun _ => yields_bind fun n => yields_bind fun _ => complete_parent m d D v n 0
  · refine yields_bind fun H => yields_bind fun acc => ?_
    split
    · exact yields_bind fun v => yields_bind fun _ => yields_bind fun _ => yields_bind fun _ => yields_bind fun _ =>
        complete_parent m d D v _ _
    · exact yields_bind fun _ => yields_bind fun _ => yields_bind fun _ => yields_fail _ _

end Merge

/-! ## A flush that stops -/

namespace S3

open Merge

variable {env : Env} {fails : Faults} {cfg : S3Config} {S : FMap Text Bytes} {m : WorkspaceMeta} {D : List Path}
variable {w : World S3}

/-- After a submit that ends with an error each file is as it was, or as the merge has it and the `put` of another one has
failed. -/
theorem s3Submit_stopped (hl : ListsFaithfully fails S) (hw : w.fs = new S) (ha : w.vai.IsActive m) (D : List Path) :
    Ends (s3Submit env fails cfg m D) w (fun _ _ => True) (fun _ w' => ∀ p,
      w'.fs.store.get (cfg.path (.base p)) = S.get (cfg.path (.base p)) ∨
      (∃ c, w'.fs.store.get (cfg.path (.base p)) = some c ∧ tree env m (filesOf cfg S) D w.vai p = some c) ∧
        ∃ i key, fails i (.put key) = true ∧ key ≠ cfg.path (.base p)) := by
  have hrep : Rep cfg S w.fs (filesOf cfg S) := by rw [hw]; exact rep_new cfg S
  have C : (s3MergeFs fails cfg).Contract (Rep cfg S) (AnyFault fails ∨ env.Faulty) :=
    (s3MergeFs_contract hl).mono .inl
  have hspec := submitWithFs_spec C .inr hrep ha D
  refine (@s3Submit_error env fails cfg S m D w (by rw [hw]; rfl)).mono (fun _ _ h => h) fun _ w' h p => ?_
  rcases h with hs | ⟨r, w₁, pre, q, post, hrun, hlist, hs, i, hi⟩
  · exact .inl (by rw [hs])
  obtain ⟨-, hmerged, -⟩ := hspec.ok hrun
  obtain ⟨L, hL, hV, -⟩ := hmerged.files
  have hmem : ∀ q' ∈ pre, w₁.fs.pendingWrites.get q'.1 = some q'.2 := fun q' hq' =>
    (@mem_writeList env _ _).1 (by rw [hlist]; exact List.mem_append_left _ hq')
  rw [hs, get_putAll (f := w₁.fs.pendingWrites.get) _ pre S hmem]
  by_cases hp : cfg.path (.base p) ∈ pre.map Prod.fst
  · rw [if_pos hp]
    obtain ⟨q', hq', hkey⟩ := List.mem_map.1 hp
    have hwrite := hmem q' hq'
    rw [hkey] at hwrite
    refine .inr ⟨⟨q'.2, hwrite, ?_⟩, i, q.1, hi, fun he => ?_⟩
    · refine (hV (.base p)).trans ?_
      rw [← hL.live]
      exact live_of_write hwrite
    · have hnodup := nodup_writeList env w₁.fs.pendingWrites
      rw [hlist, List.map_append, List.map_cons] at hnodup
      exact (List.nodup_append.1 hnodup).2.2 _ hp _ List.mem_cons_self he.symm
  · exact .inl (if_neg hp)

end S3

namespace Handlers

open Backend

variable {env : Env} {fails : Fails} {id : PathId} {newId : Uuid} {b b' b₁ : Backend} {wsMeta : WorkspaceMeta} {r : SubmitResult}

/-! ## The records of a merge, as far as they are made -/

theorem recordedAll_rest (fails : Fails) : ∀ (kinds : List EventKind) (b : Backend),
    (∃ events next, recordedAll fails kinds b = { b with events := events, nextEvent := next }) ∧
      ∀ e ∈ b.events, e ∈ (recordedAll fails kinds b).events
  | [], b => ⟨⟨_, _, rfl⟩, fun _ h => h⟩
  | kind :: kinds, b => by
    by_cases hf : fails.db (.append kind) = true
    · have hstep : recordedAll fails (kind :: kinds) b = recordedAll fails kinds b := by
        unfold recordedAll
        rw [List.foldl_cons, if_pos hf]
      rw [hstep]
      exact recordedAll_rest fails kinds b
    · have hstep : recordedAll fails (kind :: kinds) b = recordedAll fails kinds (recorded kind b) := by
        unfold recordedAll
        rw [List.foldl_cons, if_neg hf]
      obtain ⟨⟨events, next, hrest⟩, hmono⟩ := recordedAll_rest fails kinds (recorded kind b)
      rw [hstep]
      exact ⟨⟨events, next, hrest⟩, fun e he => hmono e (List.mem_append_left _ he)⟩

/-- The event that a version row points at is in the table. -/
def KnownEvent (b : Backend) (mid : Option Nat) : Prop := ∀ k ∈ mid, k ∈ b.events.map Event.id ∨ k ∈ b.foreign

theorem createVersion_state (v : VersionMeta) (b : Backend) : (createVersion fails v b).2.head = b.head ∧
    ((fails.db .createVersion = false ∧ (∀ u ∈ b.versions, u.versionId ≠ v.versionId) ∧ KnownEvent b v.mergeEventId ∧
        (createVersion fails v b).2.versions = b.versions ++ [v]) ∨
      ¬ (fails.db .createVersion = false ∧ (∀ u ∈ b.versions, u.versionId ≠ v.versionId) ∧ KnownEvent b v.mergeEventId) ∧
        (createVersion fails v b).2.versions = b.versions) := by
  have hused : b.versions.any (fun u => u.versionId = v.versionId) = true ↔
      ¬ ∀ u ∈ b.versions, u.versionId ≠ v.versionId := by simp
  have hknown : v.mergeEventId.any (fun i => i ∉ b.events.map Event.id ∧ i ∉ b.foreign) = true ↔
      ¬ KnownEvent b v.mergeEventId := by
    unfold KnownEvent
    cases v.mergeEventId with
    | none => simp
    | some k => simp only [Option.any_some, decide_eq_true_eq, Option.mem_some_iff, forall_eq', not_or]
  unfold createVersion Backend.db
  by_cases hf : fails.db .createVersion = true
  · rw [if_pos hf]
    exact ⟨rfl, .inr ⟨fun h => absurd (hf.symm.trans h.1) (by decide), rfl⟩⟩
  rw [if_neg hf, bind_of_ok (pure_apply () b), bind_of_ok (read_apply _ b)]
  by_cases hu : b.versions.any (fun u => u.versionId = v.versionId) = true
  · rw [if_pos hu]
    exact ⟨rfl, .inr ⟨fun h => hused.1 hu h.2.1, rfl⟩⟩
  rw [if_neg hu, bind_of_ok (read_apply _ b)]
  by_cases hk : v.mergeEventId.any (fun i => i ∉ b.events.map Event.id ∧ i ∉ b.foreign) = true
  · rw [if_pos hk]
    exact ⟨rfl, .inr ⟨fun h => hknown.1 hk h.2.2, rfl⟩⟩
  · rw [if_neg hk]
    exact ⟨rfl, .inl ⟨by simpa using hf, by_contra fun h => hu (hused.2 h), by_contra fun h => hk (hknown.2 h), rfl⟩⟩

/-- The event that the version of a merge points at, and the tables when the version is written. -/
def mergeEventOf (fails : Fails) (wsMeta : WorkspaceMeta) (r : SubmitResult) (b : Backend) : Option Nat :=
  if fails.db (.append (.mergeCompleted wsMeta.id r.version.versionId r.autoResolved)) then r.version.mergeEventId
  else some b.nextEvent

def beforeVersion (fails : Fails) (wsMeta : WorkspaceMeta) (r : SubmitResult) (b : Backend) : Backend :=
  recordedAll fails (wsMeta.deletedPaths.map (.fileRemoved wsMeta.id))
    (if fails.db (.append (.mergeCompleted wsMeta.id r.version.versionId r.autoResolved)) then removeScope wsMeta.id b
      else recorded (.mergeCompleted wsMeta.id r.version.versionId r.autoResolved) (removeScope wsMeta.id b))

theorem beforeVersion_rest (wsMeta : WorkspaceMeta) (r : SubmitResult) (b : Backend) :
    ∃ events next, beforeVersion fails wsMeta r b = { removeScope wsMeta.id b with events := events, nextEvent := next } := by
  obtain ⟨⟨events, next, hrest⟩, -⟩ := recordedAll_rest fails (wsMeta.deletedPaths.map (.fileRemoved wsMeta.id))
    (if fails.db (.append (.mergeCompleted wsMeta.id r.version.versionId r.autoResolved)) then removeScope wsMeta.id b
      else recorded (.mergeCompleted wsMeta.id r.version.versionId r.autoResolved) (removeScope wsMeta.id b))
  refine ⟨events, next, hrest.trans ?_⟩
  split <;> rfl

theorem knownEvent_of_stored
    (h : fails.db (.append (.mergeCompleted wsMeta.id r.version.versionId r.autoResolved)) = false) :
    KnownEvent (beforeVersion fails wsMeta r b) (mergeEventOf fails wsMeta r b) := by
  obtain ⟨-, hmono⟩ := recordedAll_rest fails (wsMeta.deletedPaths.map (.fileRemoved wsMeta.id))
    (recorded (.mergeCompleted wsMeta.id r.version.versionId r.autoResolved) (removeScope wsMeta.id b))
  unfold KnownEvent beforeVersion mergeEventOf
  rw [h, if_neg (by decide), if_neg (by decide)]
  intro k hk
  cases hk
  exact .inl (List.mem_map.2 ⟨_, hmono _ (List.mem_append_right _ (List.mem_singleton_self _)), rfl⟩)

/-- A version row is written. -/
structure RowWritten (fails : Fails) (wsMeta : WorkspaceMeta) (r : SubmitResult) (b : Backend) : Prop where
  createVersion : fails.db .createVersion = false
  unused : ∀ u ∈ b.versions, u.versionId ≠ r.version.versionId
  event : KnownEvent (beforeVersion fails wsMeta r b) (mergeEventOf fails wsMeta r b)

/-- **What is left of the records of a merge**, whichever of them fail. -/
theorem recordMerge_state (wsMeta : WorkspaceMeta) (r : SubmitResult) (b : Backend) :
    (recordMerge fails wsMeta r b).2.head = (if fails.db .advanceHead then b.head else some r.version.versionId) ∧
    (RowWritten fails wsMeta r b ∧ (recordMerge fails wsMeta r b).2.versions =
        b.versions ++ [{ r.version with mergeEventId := mergeEventOf fails wsMeta r b }] ∨
      ¬ RowWritten fails wsMeta r b ∧ (recordMerge fails wsMeta r b).2.versions = b.versions) := by
  have hrun : versioned fails wsMeta r b = (advanceHead fails r.version.versionId (createVersion fails
      { r.version with mergeEventId := mergeEventOf fails wsMeta r b } (beforeVersion fails wsMeta r b)).2).2 := by
    unfold versioned recordVersion beforeVersion mergeEventOf Backend.append Backend.db
    rw [bind_of_ok (modify_apply _ b)]
    by_cases hf : fails.db (.append (.mergeCompleted wsMeta.id r.version.versionId r.autoResolved)) = true
    · simp only [if_pos hf]
      rw [bind_apply, attempt_apply]
      dsimp only
      rw [bind_of_ok (forM_record fails _ _ _), bind_of_ok (ignored_apply _ _), ignored_apply]
      rfl
    · simp only [if_neg hf]
      rw [bind_apply, attempt_apply]
      dsimp only
      rw [bind_of_ok (forM_record fails _ _ _), bind_of_ok (ignored_apply _ _), ignored_apply]
      rfl
  obtain ⟨events, next, hrest⟩ := @beforeVersion_rest fails wsMeta r b
  have hhead : (beforeVersion fails wsMeta r b).head = b.head := by rw [hrest]; rfl
  have hversions : (beforeVersion fails wsMeta r b).versions = b.versions := by rw [hrest]; rfl
  obtain ⟨hch, hcv⟩ := @createVersion_state fails { r.version with mergeEventId := mergeEventOf fails wsMeta r b }
    (beforeVersion fails wsMeta r b)
  have hadvance : ∀ b, (advanceHead fails r.version.versionId b).2.head =
      (if fails.db .advanceHead then b.head else some r.version.versionId) ∧
      (advanceHead fails r.version.versionId b).2.versions = b.versions := by
    intro b
    unfold advanceHead Backend.db
    by_cases hf : fails.db .advanceHead = true
    · rw [if_pos hf, if_pos hf]
      exact ⟨rfl, rfl⟩
    · rw [if_neg hf, if_neg hf]
      exact ⟨rfl, rfl⟩
  have hq := @quiet_concluded fails wsMeta r (versioned fails wsMeta r b)
  rw [recordMerge_apply]
  refine ⟨?_, ?_⟩
  · rw [hq.head, hrun, (hadvance _).1, hch, hhead]
  · rw [hq.versions, hrun, (hadvance _).2]
    rw [hversions] at hcv
    exact hcv.imp (fun ⟨h₁, h₂, h₃, hv⟩ => ⟨⟨h₁, h₂, h₃⟩, hv⟩) fun ⟨hn, hv⟩ =>
      ⟨fun h => hn ⟨h.createVersion, h.unused, h.event⟩, hv⟩

/-! ## Consistency -/

/-- After a submit: an error and nothing changed, or the merged tree with HEAD at the new version, whose row has the
previous HEAD as its parent. -/
def Consistent (env : Env) (id : PathId) (b : Backend) (out : Except ApiError SubmitResult × Backend) : Prop :=
  match out.1 with
  | .error _ => (∀ p, out.2.current p = b.current p) ∧ out.2.versions = b.versions ∧ out.2.head = b.head
  | .ok r => (∃ wsMeta, b.row id = some wsMeta ∧ ∀ p, out.2.current p = mergedTree env b id wsMeta p) ∧
      out.2.head = some r.version.versionId ∧
      ∃ v ∈ out.2.versions, v.versionId = r.version.versionId ∧ v.parentVersionId = b.head

/-- Where a `put` fails, the merge changes no other file of `current/`. -/
def PutsAlone (env : Env) (fails : Fails) (id : PathId) (b : Backend) (wsMeta : WorkspaceMeta) : Prop :=
  ∀ i key, fails.store i (.put key) = true → ∀ p, key ≠ currentKey p → (mergedTree env b id wsMeta p).isSome →
    mergedTree env b id wsMeta p = b.current p

/-- The result of the engine when nothing fails on the store. -/
def engineResult (env : Env) (id : PathId) (b : Backend) (wsMeta : WorkspaceMeta) : Option SubmitResult :=
  (mergeOverStore env Fails.none id wsMeta (headOf b wsMeta) b).1.toOption

/-- The version can point at an event: the merge event is stored, or the table happens to have an event with the id that
the engine's own log gave it. -/
def EventStored (env : Env) (fails : Fails) (id : PathId) (b : Backend) (wsMeta : WorkspaceMeta) : Prop :=
  (∀ n, fails.db (.append (.mergeCompleted wsMeta.id (nextVersion (headOf b wsMeta)) n)) = false) ∨
    fails.store = noFaults ∧ ∃ r, engineResult env id b wsMeta = some r ∧
      (fails.db (.append (.mergeCompleted wsMeta.id r.version.versionId r.autoResolved)) = false ∨
        KnownEvent (beforeVersion fails wsMeta r b) r.version.mergeEventId)

/-- The row of the version is written, and its parent is HEAD. -/
structure RowFollows (env : Env) (fails : Fails) (id : PathId) (b : Backend) (wsMeta : WorkspaceMeta) : Prop where
  head : b.head = some wsMeta.baseVersion
  createVersion : fails.db .createVersion = false
  unused : ∀ u ∈ b.versions, u.versionId ≠ nextVersion (headOf b wsMeta)
  event : EventStored env fails id b wsMeta

/-- The merge of this row leaves the server consistent. -/
structure Lands (env : Env) (fails : Fails) (id : PathId) (b : Backend) (wsMeta : WorkspaceMeta) : Prop where
  harmless : S3.Harmless fails.store b.store
  puts : PutsAlone env fails id b wsMeta
  records : MergeAccepted env b id wsMeta → fails.db .advanceHead = false ∧ (RowFollows env fails id b wsMeta ∨
    ∃ u ∈ b.versions, u.versionId = nextVersion (headOf b wsMeta) ∧ u.parentVersionId = b.head)

/-- The failures that leave the server consistent: the request does not get as far as its merge, or the merge lands. -/
def Sound (env : Env) (fails : Fails) (id : PathId) (b : Backend) : Prop :=
  Merges fails id b → ∀ wsMeta, b.row id = some wsMeta → Lands env fails id b wsMeta

/-- A merge that ends with an error has changed nothing but the store, and no file of `current/`. -/
theorem mergeOverStore_stopped {e : MergeError} (hl : S3.ListsFaithfully fails.store b.store)
    (hputs : PutsAlone env fails id b wsMeta) (h : mergeOverStore env fails id wsMeta (headOf b wsMeta) b = (.error e, b₁)) :
    (∀ p, b₁.current p = b.current p) ∧ b₁.versions = b.versions ∧ b₁.head = b.head := by
  let w : World S3 := { fs := S3.new b.store, vai := setupTmpdirForS3Submit wsMeta (headOf b wsMeta), ops := 0 }
  have hends := @S3.s3Submit_stopped env fails.store (configOf id) b.store wsMeta w hl rfl
    (tmpdir_active wsMeta (headOf b wsMeta)) wsMeta.deletedPaths
  unfold mergeOverStore at h
  dsimp only at h
  rcases hr : S3.s3Submit env fails.store (configOf id) wsMeta wsMeta.deletedPaths w with ⟨e' | r, w'⟩
  · rw [hr] at h
    obtain rfl : { b with store := w'.fs.store } = b₁ := congrArg Prod.snd h
    refine ⟨fun p => ?_, rfl, rfl⟩
    rcases hends.error hr p with hs | ⟨⟨c, hc, htree⟩, i, key, hi, hne⟩
    · exact hs
    · have htree : mergedTree env b id wsMeta p = some c := htree
      refine hc.trans ?_
      rw [← htree]
      exact hputs i key hi p hne (by rw [htree]; rfl)
  · rw [hr] at h
    cases h

theorem mergeOverStore_parent (h : mergeOverStore env fails id wsMeta (headOf b wsMeta) b = (.ok r, b₁)) :
    r.version.parentVersionId = some wsMeta.baseVersion := by
  let w : World S3 := { fs := S3.new b.store, vai := setupTmpdirForS3Submit wsMeta (headOf b wsMeta), ops := 0 }
  have hyields : Yields (fun r => r.version.parentVersionId = some wsMeta.baseVersion)
      (S3.s3Submit env fails.store (configOf id) wsMeta wsMeta.deletedPaths) :=
    (Merge.submitWithFs_parent wsMeta wsMeta.deletedPaths).bind fun r hr => yields_bind fun _ => yields_pure hr
  have hfst : (S3.s3Submit env fails.store (configOf id) wsMeta wsMeta.deletedPaths w).1 = .ok r :=
    congrArg Prod.fst h
  exact hyields w r _ (Prod.ext hfst rfl)

theorem mergeOverStore_of_noFaults (h : fails.store = noFaults) (head : Text) :
    mergeOverStore env fails id wsMeta head = mergeOverStore env Fails.none id wsMeta head := by
  unfold mergeOverStore
  rw [h]
  rfl

theorem recordedAll_store (fails : Fails) (S : FMap Text Bytes) : ∀ (kinds : List EventKind) (b : Backend),
    recordedAll fails kinds { b with store := S } = { recordedAll fails kinds b with store := S }
  | [], _ => rfl
  | kind :: kinds, b => by
    unfold recordedAll
    rw [List.foldl_cons, List.foldl_cons]
    by_cases hf : fails.db (.append kind) = true
    · rw [if_pos hf, if_pos hf]
      exact recordedAll_store fails S kinds b
    · rw [if_neg hf, if_neg hf]
      exact recordedAll_store fails S kinds (recorded kind b)

theorem knownEvent_store (S : FMap Text Bytes) (mid : Option Nat) :
    KnownEvent (beforeVersion fails wsMeta r { b with store := S }) mid ↔ KnownEvent (beforeVersion fails wsMeta r b) mid := by
  have hb : beforeVersion fails wsMeta r { b with store := S } = { beforeVersion fails wsMeta r b with store := S } := by
    unfold beforeVersion
    refine Eq.trans ?_ (recordedAll_store fails S _ _)
    split <;> rfl
  rw [hb]
  rfl

theorem lands_consistent (hrow : b.row id = some wsMeta) (hL : Lands env fails id b wsMeta)
    (hm : mergeOverStore env fails id wsMeta (headOf b wsMeta) b = (.ok r, b₁)) :
    Consistent env id b (.ok r, (recordMerge fails wsMeta r b₁).2) := by
  obtain ⟨hacc, hver, S, rfl, hS⟩ := (mergeOverStore_ends id wsMeta hL.harmless).ok hm
  obtain ⟨hadvance, hfollow⟩ := hL.records hacc
  obtain ⟨hhead, hversions⟩ := @recordMerge_state fails wsMeta r { b with store := S }
  refine ⟨⟨wsMeta, hrow, fun p => ?_⟩, ?_, ?_⟩
  · unfold Backend.current
    rw [recordMerge_store]
    exact hS.current p
  · rw [hhead, hadvance]
    rfl
  rcases hfollow with hfollow | ⟨u, hu, huid, hup⟩
  · have hwritten : RowWritten fails wsMeta r { b with store := S } := by
      refine ⟨hfollow.createVersion, by rw [hver]; exact hfollow.unused, ?_⟩
      rcases hfollow.event with hev | ⟨hnone, r', hr', hev⟩
      · exact knownEvent_of_stored (by rw [hver]; exact hev _)
      · have heq : r' = r := by
          unfold engineResult at hr'
          rw [← mergeOverStore_of_noFaults hnone, hm] at hr'
          exact (Option.some.inj hr').symm
        subst r'
        by_cases hf : fails.db (.append (.mergeCompleted wsMeta.id r.version.versionId r.autoResolved)) = true
        · have hmid : mergeEventOf fails wsMeta r { b with store := S } = r.version.mergeEventId := if_pos hf
          rw [hmid, knownEvent_store]
          exact hev.resolve_left fun h => absurd (hf.symm.trans h) (by decide)
        · exact knownEvent_of_stored (by simpa using hf)
    have hnew := (hversions.resolve_right fun h => h.1 hwritten).2
    refine ⟨{ r.version with mergeEventId := mergeEventOf fails wsMeta r { b with store := S } }, ?_, rfl, ?_⟩
    · rw [hnew]
      exact List.mem_append_right _ (List.mem_singleton_self _)
    · rw [hfollow.head]
      exact mergeOverStore_parent hm
  · refine ⟨u, ?_, huid.trans hver.symm, hup⟩
    rcases hversions with ⟨-, hv⟩ | ⟨-, hv⟩
    · rw [hv]
      exact List.mem_append_left _ hu
    · rw [hv]
      exact hu

theorem denied_consistent (hs : Sound env fails id b) (h : Denied env fails newId id b b') (e : ApiError) :
    Consistent env id b (.error e, b') := by
  have hquiet : ∀ {b₀ b'}, Quiet b₀ b' → (∀ p, b₀.current p = b.current p) ∧ b₀.versions = b.versions ∧
      b₀.head = b.head → Consistent env id b (.error e, b') := fun hq h =>
    ⟨fun p => (hq.current p).trans (h.1 p), hq.versions.trans h.2.1, hq.head.trans h.2.2⟩
  cases h with
  | unread _ => exact hquiet (quiet_refl b) ⟨fun _ => rfl, rfl, rfl⟩
  | closed _ => exact hquiet (quiet_cascade _ b (quiet_refl b)) ⟨fun _ => rfl, rfl, rfl⟩
  | refused hmerges hrow hm =>
    have hL := hs hmerges _ hrow
    exact hquiet (quiet_refl _) (mergeOverStore_stopped hL.harmless.lists hL.puts hm)
  | escalated hmerges hrow hm n cs =>
    have hL := hs hmerges _ hrow
    exact hquiet (quiet_escalate _ _ _ _ _ (quiet_refl _)) (mergeOverStore_stopped hL.harmless.lists hL.puts hm)

theorem nextVersion_ne_head (b : Backend) (wsMeta : WorkspaceMeta) : b.head ≠ some (nextVersion (headOf b wsMeta)) := by
  intro h
  have hhead : headOf b wsMeta = nextVersion (headOf b wsMeta) := by
    conv => lhs; rw [headOf, h]
    rfl
  have := congrArg parseVersionNumber hhead
  rw [nextVersion, parseVersionNumber_versionName] at this
  omega

/-- What a consistent server says of the records, when only calls on the database fail. -/
theorem records_of_consistent (hnone : fails.store = noFaults)
    (hm : mergeOverStore env fails id wsMeta (headOf b wsMeta) b = (.ok r, b₁))
    (h : Consistent env id b (.ok r, (recordMerge fails wsMeta r b₁).2)) :
    fails.db .advanceHead = false ∧ (RowFollows env fails id b wsMeta ∨
      ∃ u ∈ b.versions, u.versionId = nextVersion (headOf b wsMeta) ∧ u.parentVersionId = b.head) := by
  have hharmless : S3.Harmless fails.store b.store := by rw [hnone]; exact S3.harmless_noFaults _
  have hparent := mergeOverStore_parent hm
  obtain ⟨-, hver, S, rfl, -⟩ := (mergeOverStore_ends id wsMeta hharmless).ok hm
  obtain ⟨hhead, hversions⟩ := @recordMerge_state fails wsMeta r { b with store := S }
  obtain ⟨-, hhead', v, hv, hvid, hvp⟩ := h
  have hadvance : fails.db .advanceHead = false := by
    by_contra hf
    rw [Bool.not_eq_false] at hf
    rw [hf, if_pos rfl] at hhead
    exact nextVersion_ne_head b wsMeta ((hhead.symm.trans hhead').trans (by rw [hver]))
  refine ⟨hadvance, ?_⟩
  rcases hversions with ⟨hwritten, hnew⟩ | ⟨-, hsame⟩
  · have hrow : v = { r.version with mergeEventId := mergeEventOf fails wsMeta r { b with store := S } } := by
      rw [hnew] at hv
      rcases List.mem_append.1 hv with hv | hv
      · exact absurd hvid (hwritten.unused v hv)
      · exact List.mem_singleton.1 hv
    refine .inl ⟨?_, hwritten.createVersion, by rw [← hver]; exact hwritten.unused, .inr ⟨hnone, r, ?_, ?_⟩⟩
    · rw [← hvp, hrow]
      exact hparent
    · unfold engineResult
      rw [← mergeOverStore_of_noFaults hnone, hm]
      rfl
    · by_cases hf : fails.db (.append (.mergeCompleted wsMeta.id r.version.versionId r.autoResolved)) = true
      · have hmid : mergeEventOf fails wsMeta r { b with store := S } = r.version.mergeEventId := if_pos hf
        have hevent := hwritten.event
        rw [hmid, knownEvent_store] at hevent
        exact .inr hevent
      · exact .inl (by simpa using hf)
  · rw [hsame] at hv
    exact .inr ⟨v, hv, hvid.trans hver, hvp⟩

/-- **Tree, versions and HEAD stay consistent** under the failures that are sound, and when only calls on the database
fail, under no others. -/
theorem submit_consistent (env : Env) (fails : Fails) (newId : Uuid) (id : PathId) (b : Backend) :
    (Sound env fails id b → Consistent env id b (submitWorkspaceHandler env fails newId id b)) ∧
      (fails.store = noFaults → ¬ env.Faulty →
        Consistent env id b (submitWorkspaceHandler env fails newId id b) → Sound env fails id b) := by
  have hends := submitWorkspaceHandler_ends env fails newId id b
  unfold Ends at hends
  constructor
  · intro hs
    rcases hrun : submitWorkspaceHandler env fails newId id b with ⟨e | r, b'⟩
    · rw [hrun] at hends
      exact denied_consistent hs hends e
    · rw [hrun] at hends
      obtain ⟨wsMeta, b₁, hrow, hm, rfl⟩ := hends.merged
      exact lands_consistent hrow (hs hends.toMerges wsMeta hrow) hm
  · intro hnone hq hc hmerges wsMeta hrow
    have hharmless : S3.Harmless fails.store b.store := by rw [hnone]; exact S3.harmless_noFaults _
    have hputs : PutsAlone env fails id b wsMeta := by
      intro i key hi
      rw [hnone] at hi
      cases hi
    refine ⟨hharmless, hputs, fun hacc => ?_⟩
    have hok : ∀ {e b₁}, mergeOverStore env fails id wsMeta (headOf b wsMeta) b ≠ (.error e, b₁) := by
      intro e b₁ hm
      rcases (mergeOverStore_ends id wsMeta hharmless).error hm with (⟨i, op, hi⟩ | hfaulty) | ⟨-, hno⟩
      · rw [hnone] at hi
        cases hi
      · exact hq hfaulty
      · exact hno hacc
    rcases hrun : submitWorkspaceHandler env fails newId id b with ⟨e | r, b'⟩
    · rw [hrun] at hends
      cases hends with
      | unread h =>
        rcases h with h | h
        · exact absurd hmerges h
        · rw [hrow] at h
          cases h
      | closed h => exact absurd h hmerges.issueOpen
      | refused _ hrow' hm =>
        obtain rfl := Option.some.inj (hrow.symm.trans hrow')
        exact absurd hm hok
      | escalated _ hrow' hm =>
        obtain rfl := Option.some.inj (hrow.symm.trans hrow')
        exact absurd hm hok
    · rw [hrun] at hends hc
      obtain ⟨m, b₁, hrow', hm, rfl⟩ := hends.merged
      obtain rfl := Option.some.inj (hrow.symm.trans hrow')
      exact records_of_consistent hnone hm hc

/-! ## Failures -/

/-- A workspace with the files `a` and `b`, uploaded to a new repository. -/
def twoFiles : Backend := (serveAll hashed oneLetter [quietly (.create 1 "add a and b".toList),
  quietly (.upload 1 (.files ⟨[⟨"a".toList, "YQ==".toList⟩, ⟨"b".toList, "YQ==".toList⟩], []⟩))] [] fresh).2

/-- One call on the database fails. -/
def failsAt (c : DbCall) : Fails := ⟨fun d => d = c, noFaults⟩

/-- The `put` of `current/a` fails. -/
def failsPut : Fails := ⟨fun _ => false, fun _ op => op = .put (currentKey "a".toList)⟩

theorem not_consistent_of_no_row {out : Except ApiError SubmitResult × Backend} (hok : out.1.isOk = true)
    (hrows : ∀ v ∈ out.2.versions, some v.versionId ≠ out.2.head) : ¬ Consistent env id b out := by
  obtain ⟨e | r, b'⟩ := out
  · cases hok
  · intro hc
    obtain ⟨-, hhead, v, hv, hid, -⟩ := hc
    apply hrows v hv
    rw [hid]
    exact hhead.symm

theorem not_consistent_of_written {out : Except ApiError SubmitResult × Backend} (hfail : out.1.isOk = false)
    {p : Path} (hfile : out.2.current p ≠ b.current p) : ¬ Consistent env id b out := by
  obtain ⟨e | r, b'⟩ := out
  · intro hc
    exact hfile (hc.1 p)
  · cases hfail

-- The definition would start to run the handler on these inputs.
attribute [local irreducible] Consistent

theorem sound_of_open_row : Sound hashed (failsAt .updateWorkspace) 1 twoFiles := by
  have hstate : ∀ wsMeta ∈ twoFiles.row 1, twoFiles.head = some wsMeta.baseVersion ∧
      ∀ u ∈ twoFiles.versions, u.versionId ≠ nextVersion (headOf twoFiles wsMeta) := by decide +kernel
  have hadvance : (failsAt .updateWorkspace).db .advanceHead = false := by decide
  have hcreate : (failsAt .updateWorkspace).db .createVersion = false := by decide
  have happend : ∀ k, (failsAt .updateWorkspace).db (.append k) = false := fun k => by simp [failsAt]
  intro _ wsMeta hrow
  obtain ⟨hhead, hunused⟩ := hstate wsMeta hrow
  exact ⟨S3.harmless_noFaults _, fun _ _ h => (by cases h),
    fun _ => ⟨hadvance, .inl ⟨hhead, hcreate, hunused, .inl fun n => happend _⟩⟩⟩

/-- The row of the workspace is not closed, and all else is as it should be. -/
theorem submit_consistent_open_row : Sound hashed (failsAt .updateWorkspace) 1 twoFiles ∧
    Consistent hashed 1 twoFiles (submitWorkspaceHandler hashed (failsAt .updateWorkspace) 9 1 twoFiles) :=
  ⟨sound_of_open_row, (submit_consistent hashed (failsAt .updateWorkspace) 9 1 twoFiles).1 sound_of_open_row⟩

/-- A version that is not written leaves a response of 200 and a HEAD without a row, and a `put` that fails after another
one leaves an error and a half-written tree. -/
theorem submit_leaves_half :
    ¬ Consistent hashed 1 twoFiles (submitWorkspaceHandler hashed (failsAt .createVersion) 9 1 twoFiles) ∧
      ¬ Consistent hashed 1 twoFiles (submitWorkspaceHandler hashed failsPut 9 1 twoFiles) := by
  have hanswered : (submitWorkspaceHandler hashed (failsAt .createVersion) 9 1 twoFiles).1.isOk = true := by
    decide +kernel
  have hrows : ∀ v ∈ (submitWorkspaceHandler hashed (failsAt .createVersion) 9 1 twoFiles).2.versions,
      some v.versionId ≠ (submitWorkspaceHandler hashed (failsAt .createVersion) 9 1 twoFiles).2.head := by
    decide +kernel
  have hrefused : (submitWorkspaceHandler hashed failsPut 9 1 twoFiles).1.isOk = false := by decide +kernel
  have hwritten : (submitWorkspaceHandler hashed failsPut 9 1 twoFiles).2.current "b".toList ≠
      twoFiles.current "b".toList := by decide +kernel
  exact ⟨not_consistent_of_no_row hanswered hrows, not_consistent_of_written hrefused hwritten⟩

end Handlers
end Vai
