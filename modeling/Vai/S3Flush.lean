import Vai.S3Spec
/-!
# S3Flush — flushing the buffers

What `flush` leaves, whichever calls on the store fail.  When it returns `Ok` the store is the map the buffers held, up
to deletions that the store refused (`flush_store`).  When it returns an error, a `put` has failed: the store has the
writes put before it and nothing else, and both buffers are gone (`flush_spec`), so that flushing again brings nothing
back.
-/
namespace Vai
namespace S3

open Proc

variable {env : Env} {fails : Faults} {S₀ : FMap Text Bytes} {s : S3} {L : Text → Option Bytes}

/-- A store after the writes `l`. -/
def putAll (S : FMap Text Bytes) (l : List (Text × Bytes)) : FMap Text Bytes := l.foldl (fun m q => m.insert q.1 q.2) S

theorem get_putAll {f : Text → Option Bytes} (path : Text) : ∀ (l : List (Text × Bytes)) (S : FMap Text Bytes),
    (∀ q ∈ l, f q.1 = some q.2) → (putAll S l).get path = if path ∈ l.map Prod.fst then f path else S.get path
  | [], S, _ => by simp [putAll]
  | q :: l, S, h => by
    have ih := get_putAll path l (S.insert q.1 q.2) (fun r hr => h r (List.mem_cons_of_mem _ hr))
    rw [putAll, List.foldl_cons, ← putAll, ih, FMap.get_insert, List.map_cons]
    by_cases hl : path ∈ l.map Prod.fst
    · rw [if_pos hl, if_pos (List.mem_cons_of_mem _ hl)]
    · rw [if_neg hl]
      by_cases hq : path = q.1
      · rw [if_pos hq, if_pos (by simp [hq]), hq, h q List.mem_cons_self]
      · rw [if_neg hq, if_neg (fun hm => (List.mem_cons.1 hm).elim hq hl)]

theorem mem_writeList {writes : FMap Text Bytes} {q : Text × Bytes} :
    q ∈ writeList env writes ↔ writes.get q.1 = some q.2 := by
  unfold writeList
  simp only [List.mem_filterMap, Env.mem_hashOrder, FMap.mem_keys, Option.map_eq_some_iff]
  constructor
  · rintro ⟨path, -, c, hc, rfl⟩
    exact hc
  · intro h
    exact ⟨q.1, by rw [h]; rfl, q.2, h, rfl⟩

theorem mem_map_writeList {writes : FMap Text Bytes} {path : Text} :
    path ∈ (writeList env writes).map Prod.fst ↔ (writes.get path).isSome := by
  simp only [List.mem_map, Prod.exists, exists_and_right, exists_eq_right, mem_writeList, Option.isSome_iff_exists]

theorem nodup_writeList (env : Env) (writes : FMap Text Bytes) : ((writeList env writes).map Prod.fst).Nodup := by
  have hkeys : (writeList env writes).map Prod.fst = env.hashOrder writes.keys := by
    unfold writeList
    rw [List.map_filterMap]
    conv => rhs; rw [← List.filterMap_some (l := env.hashOrder writes.keys)]
    refine List.filterMap_congr fun path hp => ?_
    rw [Env.mem_hashOrder, FMap.mem_keys] at hp
    obtain ⟨c, hc⟩ := Option.isSome_iff_exists.1 hp
    rw [hc]
    rfl
  rw [hkeys]
  exact (env.hashOrderPerm _).nodup_iff.2 writes.keys_nodup

/-- The states of a flush: the buffers are gone, the cache is untouched. -/
structure Drained (s s' : S3) : Prop where
  writes : s'.pendingWrites = ∅
  deletes : s'.pendingDeletes = []
  cache : s'.readCache = s.readCache

theorem Drained.tick {s₀ : S3} (h : Drained s₀ s) : Drained s₀ { s with calls := s.calls + 1 } :=
  ⟨h.writes, h.deletes, h.cache⟩

theorem storePut_spec (s₀ : S3) (q : Text × Bytes) (h : Drained s₀ s) : Ends (storePut fails q) s
    (fun _ s' => Drained s₀ s' ∧ s'.store = s.store.insert q.1 q.2)
    (fun _ s' => Drained s₀ s' ∧ s'.store = s.store ∧ ∃ i, fails i (.put q.1) = true) := by
  refine Ends.bind (call_ends fails (.put q.1) s) ?_ ?_
  · rintro _ _ ⟨rfl, hi⟩
    exact ⟨h.tick, rfl, hi⟩
  · rintro _ _ rfl
    exact ends_modify ⟨⟨h.writes, h.deletes, h.cache⟩, rfl⟩

theorem storeDelete_spec (s₀ : S3) (path : Text) (h : Drained s₀ s) : Ends (storeDelete fails path) s
    (fun _ s' => Drained s₀ s' ∧ s'.store = s.store.erase path)
    (fun _ s' => Drained s₀ s' ∧ s'.store = s.store ∧ ∃ i, fails i (.delete path) = true) := by
  refine Ends.bind (call_ends fails (.delete path) s) ?_ ?_
  · rintro _ _ ⟨rfl, hi⟩
    exact ⟨h.tick, rfl, hi⟩
  · rintro _ _ rfl
    exact ends_modify ⟨⟨h.writes, h.deletes, h.cache⟩, rfl⟩

/-- The store after the pending deletions `D` of a store `S`, some of them refused. -/
def DeletedFrom (fails : Faults) (S : FMap Text Bytes) (D : List Text) (S' : FMap Text Bytes) : Prop :=
  ∀ path, S'.get path = S.get path ∧ (path ∈ D → S.get path = none ∨ ∃ i, fails i (.delete path) = true) ∨
    path ∈ D ∧ S'.get path = none

/-- **What a flush leaves.** -/
theorem flush_spec (env : Env) (fails : Faults) (s : S3) : Ends (flush env fails) s
    (fun _ s' => Drained s s' ∧
      DeletedFrom fails (putAll s.store (writeList env s.pendingWrites)) s.pendingDeletes s'.store)
    (fun _ s' => Drained s s' ∧ ∃ pre q post, writeList env s.pendingWrites = pre ++ q :: post ∧
      s'.store = putAll s.store pre ∧ ∃ i, fails i (.put q.1) = true) := by
  unfold flush
  refine ends_bind (ends_read (ends_bind (ends_read (ends_bind (ends_modify ?_)))))
  refine Ends.bind (ends_forM (fun pre s' => Drained s s' ∧ s'.store = putAll s.store pre)
    (writeList env s.pendingWrites) [] _ ⟨⟨rfl, rfl, rfl⟩, rfl⟩ ?_) (fun _ _ h => h) fun _ s₁ ⟨h₁, hs₁⟩ => ?_
  · intro pre q post s₂ hl ⟨h₂, hs₂⟩
    refine ends_mapErr ((storePut_spec s q h₂).mono (fun _ s₃ ⟨h₃, hs₃⟩ => ⟨h₃, ?_⟩)
      (fun _ s₃ ⟨h₃, hs₃, hi⟩ => ⟨h₃, pre, q, post, hl, hs₃.trans hs₂, hi⟩))
    rw [hs₃, hs₂, putAll, putAll, List.foldl_append]
    rfl
  · refine (ends_forM (fun pre s' => Drained s s' ∧ DeletedFrom fails s₁.store pre s'.store) s.pendingDeletes [] s₁
      ⟨h₁, fun path => .inl ⟨rfl, by simp⟩⟩ ?_).mono (fun _ s' h => ⟨h.1, ?_⟩) (fun _ _ h => h)
    · intro pre path post s₂ _ ⟨h₂, hs₂⟩
      refine Ends.bind (R := fun _ s' => Drained s s' ∧ DeletedFrom fails s₁.store (pre ++ [path]) s'.store)
        (F := fun _ _ => False) (ends_attempt ((storeDelete_spec s path h₂).mono ?_ ?_)) (fun _ _ h => h.elim)
        fun _ s₃ h₃ => ends_pure h₃
      · rintro _ s₃ ⟨h₃, hs₃⟩
        refine ⟨h₃, fun p => ?_⟩
        rw [hs₃, FMap.get_erase]
        by_cases hp : p = path
        · rw [if_pos hp]
          exact .inr ⟨by simp [hp], rfl⟩
        · rw [if_neg hp]
          simpa [hp] using hs₂ p
      · rintro _ s₃ ⟨h₃, hs₃, hi⟩
        refine ⟨h₃, fun p => ?_⟩
        rw [hs₃]
        by_cases hp : p = path
        · subst hp
          rcases hs₂ p with hp | ⟨-, hp⟩
          · exact .inl ⟨hp.1, fun _ => .inr hi⟩
          · exact .inr ⟨by simp, hp⟩
        · simpa [hp] using hs₂ p
    · rw [List.nil_append] at hs₁
      rw [← hs₁]
      exact h.2

theorem get_putAll_writeList (env : Env) (s : S3) (path : Text) :
    (putAll s.store (writeList env s.pendingWrites)).get path = (s.pendingWrites.get path).or (s.store.get path) := by
  rw [get_putAll (f := s.pendingWrites.get) path _ _ (fun q hq => mem_writeList.1 hq)]
  simp only [mem_map_writeList]
  cases s.pendingWrites.get path <;> simp

/-- **A flush that returns `Ok` makes the store the map the buffers held**, where no deletion of a stored file fails. -/
theorem flush_store (h : Holds S₀ s L) (hdel : ∀ i path, fails i (.delete path) = true → S₀.get path = none) :
    Ends (flush env fails) s (fun _ s' => ∀ path, s'.store.get path = L path) (fun _ _ => AnyFault fails) := by
  refine (flush_spec env fails s).mono (fun _ s' ⟨_, hs⟩ path => ?_) (fun _ s' ⟨_, pre, q, post, _, _, i, hi⟩ => ⟨i, _, hi⟩)
  rw [← h.live path]
  have hput := get_putAll_writeList env s path
  rcases hs path with ⟨hsame, href⟩ | ⟨hd, hnone⟩
  · rw [hsame]
    by_cases hd : path ∈ s.pendingDeletes
    · rw [live_of_delete (h.disjoint path hd) hd]
      rcases href hd with hn | ⟨i, hi⟩
      · exact hn
      · rw [hput, h.disjoint path hd, h.store, hdel i path hi]
        rfl
    · rw [hput, S3.live, if_neg hd]
  · rw [hnone, live_of_delete (h.disjoint path hd) hd]

/-! ## After a failed flush -/

theorem flush_empty (env : Env) (fails : Faults) (hw : s.pendingWrites = ∅) (hd : s.pendingDeletes = []) :
    flush env fails s = (.ok (), s) := by
  have hl : writeList env s.pendingWrites = [] := by
    refine List.eq_nil_iff_forall_not_mem.2 (fun q hq => ?_)
    have := mem_writeList.1 hq
    rw [hw, FMap.get_empty] at this
    cases this
  have hs : { s with pendingWrites := ∅, pendingDeletes := [] } = s := by rw [← hw, ← hd]
  simp only [flush, bind_apply, read_apply, modify_apply, hl, hd, hs]
  rfl

/-- **A failed flush drops what it had not put**: the store has the writes before the `put` that failed and no deletion,
nothing is pending any more, and whatever is flushed later from this state changes nothing. -/
theorem flush_error_drops (env env' : Env) (fails fails' : Faults) (s s' : S3) (e : IoError)
    (h : flush env fails s = (.error e, s')) :
    (∃ pre q post, writeList env s.pendingWrites = pre ++ q :: post ∧ (∃ i, fails i (.put q.1) = true) ∧
      s'.store = putAll s.store pre) ∧
    s'.pendingWrites = ∅ ∧ s'.pendingDeletes = [] ∧ flush env' fails' s' = (.ok (), s') := by
  obtain ⟨hd, pre, q, post, hl, hs, hi⟩ := (flush_spec env fails s).error h
  exact ⟨⟨pre, q, post, hl, hi, hs⟩, hd.writes, hd.deletes, flush_empty env' fails' hd.writes hd.deletes⟩

/-- One pending write over an empty store. -/
def oneWrite : S3 := { new ∅ with pendingWrites := FMap.ofList [("current/a".toList, [1])] }

/-- The first call on the store fails. -/
def firstFails : Faults := fun i _ => i = 0

theorem flush_oneWrite_error :
    ∃ e, flush Env.plain firstFails oneWrite = (.error e, (flush Env.plain firstFails oneWrite).2) := by
  have h : (flush Env.plain firstFails oneWrite).1.isOk = false := by decide +kernel
  rcases hr : flush Env.plain firstFails oneWrite with ⟨e | u, s'⟩
  · exact ⟨e, rfl⟩
  · rw [hr] at h
    cases h

theorem flush_error_drops_one_write : ∃ e s', flush Env.plain firstFails oneWrite = (.error e, s') ∧
    s'.pendingWrites = ∅ ∧ flush Env.plain noFaults s' = (.ok (), s') := by
  obtain ⟨e, he⟩ := flush_oneWrite_error
  obtain ⟨-, hw, -, hf⟩ := flush_error_drops Env.plain Env.plain firstFails noFaults oneWrite _ e he
  exact ⟨e, _, he, hw, hf⟩

/-- After a failed flush a later one does not bring the store where the first would have. -/
theorem later_flush_does_not_recover :
    ¬ ∀ (env : Env) (fails : Faults) (s s' : S3) (e : IoError), flush env fails s = (.error e, s') →
      (∀ path, s'.live path = s.live path) ∧
        ∀ path, (flush env noFaults s').2.store.get path = (flush env noFaults s).2.store.get path := by
  intro h
  obtain ⟨e, he⟩ := flush_oneWrite_error
  have hstore := (h Env.plain firstFails oneWrite _ e he).2 "current/a".toList
  have h1 : (flush Env.plain noFaults (flush Env.plain firstFails oneWrite).2).2.store.get "current/a".toList = none := by
    decide +kernel
  have h2 : (flush Env.plain noFaults oneWrite).2.store.get "current/a".toList = some [1] := by decide +kernel
  rw [h1, h2] at hstore
  cases hstore

end S3
end Vai
