import Vai.S3
/-!
# S3Spec — the buffers of `S3MergeFs` are a map

`Holds S₀ s L`: over a store that still has its content `S₀`, the state `s` amounts to the map `L` from store paths to
bytes — pending writes first, then the store without the pending deletions — and its read cache agrees with the store.
Each of the five calls answers as `L` and keeps or updates `L` as the call says; `flush` makes the store equal to `L`.
-/
namespace Vai
namespace S3

open Proc

/-- The content of a path: what is pending, else what the store has. -/
def live (s : S3) (path : Text) : Option Bytes :=
  (s.pendingWrites.get path).or (if path ∈ s.pendingDeletes then none else s.store.get path)

structure Holds (S₀ : FMap Text Bytes) (s : S3) (L : Text → Option Bytes) : Prop where
  store : s.store = S₀
  cache : ∀ path c, s.readCache.get path = some c → S₀.get path = some c
  disjoint : ∀ path ∈ s.pendingDeletes, s.pendingWrites.get path = none
  live : ∀ path, s.live path = L path

def AnyFault (fails : Faults) : Prop := ∃ i op, fails i op = true

theorem not_anyFault_noFaults : ¬ AnyFault noFaults := by
  rintro ⟨i, op, h⟩
  cases h

variable {fails : Faults} {cfg : S3Config} {S₀ : FMap Text Bytes} {s : S3} {L : Text → Option Bytes}

theorem holds_new (S₀ : FMap Text Bytes) : Holds S₀ (new S₀) S₀.get := by
  refine ⟨rfl, fun path c h => ?_, by simp [new], fun path => ?_⟩
  · rw [show (new S₀).readCache = ∅ from rfl, FMap.get_empty] at h
    cases h
  · rw [S3.live, show (new S₀).pendingWrites = ∅ from rfl, FMap.get_empty]
    rfl

theorem live_of_write {path : Text} {c : Bytes} (h : s.pendingWrites.get path = some c) : s.live path = some c := by
  rw [S3.live, h]
  rfl

theorem live_of_delete {path : Text} (h : s.pendingWrites.get path = none) (hd : path ∈ s.pendingDeletes) :
    s.live path = none := by
  rw [S3.live, h, if_pos hd]
  rfl

theorem live_of_clean {path : Text} (h : s.pendingWrites.get path = none) (hd : path ∉ s.pendingDeletes) :
    s.live path = s.store.get path := by
  rw [S3.live, h, if_neg hd]
  rfl

theorem call_ends (fails : Faults) (op : StoreOp) (s : S3) : Ends (call fails op) s
    (fun _ s' => s' = { s with calls := s.calls + 1 })
    (fun _ s' => s' = { s with calls := s.calls + 1 } ∧ ∃ i, fails i op = true) := by
  unfold Ends call
  by_cases hi : fails s.calls op
  · simp only [hi, if_true]
    exact ⟨trivial, s.calls, hi⟩
  · simp only [hi]
    rfl

theorem call_spec (h : Holds S₀ s L) (op : StoreOp) : Ends (call fails op) s (fun _ s' => Holds S₀ s' L)
    (fun _ s' => Holds S₀ s' L ∧ ∃ i, fails i op = true) := by
  have h' : Holds S₀ { s with calls := s.calls + 1 } L := ⟨h.store, h.cache, h.disjoint, h.live⟩
  exact (call_ends fails op s).mono (fun _ _ hs => hs ▸ h') (fun _ _ hs => ⟨hs.1 ▸ h', hs.2⟩)

theorem s3Path_bind {α : Type} {key : Text} {pl : Place} (hk : resolveKey key = .ok pl) (f : Text → Proc S3 IoError α) :
    (s3Path cfg key >>= f) = f (cfg.path pl) := by
  rw [s3Path, hk]
  rfl

/-! ## Reading -/

section

variable {key : Text} {pl : Place}

theorem readFile_spec (h : Holds S₀ s L) (hk : resolveKey key = .ok pl) : Ends (readFile fails cfg key) s
    (fun c s' => Holds S₀ s' L ∧ L (cfg.path pl) = some c)
    (fun e s' => Holds S₀ s' L ∧ e.kind = .notFound ∧ (AnyFault fails ∨ L (cfg.path pl) = none)) := by
  unfold readFile
  rw [s3Path_bind hk]
  refine ends_bind (ends_read ?_)
  cases hw : s.pendingWrites.get (cfg.path pl) with
  | some c => exact ends_pure ⟨h, by rw [← h.live, live_of_write hw]⟩
  | none =>
    refine ends_bind (ends_read ?_)
    by_cases hd : cfg.path pl ∈ s.pendingDeletes
    · rw [decide_eq_true hd, if_pos rfl]
      exact ends_fail ⟨h, rfl, .inr (by rw [← h.live, live_of_delete hw hd])⟩
    · rw [decide_eq_false hd, if_neg (by simp)]
      have hlive : L (cfg.path pl) = S₀.get (cfg.path pl) := by rw [← h.live, live_of_clean hw hd, h.store]
      refine ends_bind (ends_read ?_)
      cases hc : s.readCache.get (cfg.path pl) with
      | some c => exact ends_pure ⟨h, by rw [hlive, h.cache _ c hc]⟩
      | none =>
        refine Ends.bind (ends_mapErr (E := fun e s' => Holds S₀ s' L ∧ e.kind = .notFound ∧
          (AnyFault fails ∨ L (cfg.path pl) = none)) (Q := fun c s' => Holds S₀ s' L ∧ L (cfg.path pl) = some c) ?_)
          (fun _ _ h => h) fun c s₂ ⟨h₂, hc₂⟩ => ?_
        · unfold storeGet
          refine Ends.bind (call_spec h (.get (cfg.path pl))) (fun _ _ ⟨hs, i, hi⟩ => ⟨hs, rfl, .inl ⟨i, _, hi⟩⟩)
            fun _ s₁ h₁ => ends_bind (ends_read ?_)
          rw [h₁.store, ← hlive]
          cases hL : L (cfg.path pl) with
          | none => exact ends_fail ⟨h₁, rfl, .inr rfl⟩
          | some c => exact ends_pure ⟨h₁, rfl⟩
        · refine ends_bind (ends_modify (ends_pure ⟨⟨h₂.store, fun path c' hp => ?_, h₂.disjoint, h₂.live⟩, hc₂⟩))
          rw [FMap.get_insert] at hp
          split at hp
          · subst path; rw [← hlive, hc₂, hp]
          · exact h₂.cache path c' hp

theorem fileExists_spec (h : Holds S₀ s L) (hk : resolveKey key = .ok pl) : Ends (fileExists fails cfg key) s
    (fun b s' => Holds S₀ s' L ∧ b = (L (cfg.path pl)).isSome) (fun _ s' => Holds S₀ s' L ∧ AnyFault fails) := by
  unfold fileExists
  rw [s3Path_bind hk]
  refine ends_bind (ends_read ?_)
  cases hw : s.pendingWrites.get (cfg.path pl) with
  | some c => exact ends_pure ⟨h, by rw [← h.live, live_of_write hw]; rfl⟩
  | none =>
    rw [if_neg (by simp)]
    refine ends_bind (ends_read ?_)
    by_cases hd : cfg.path pl ∈ s.pendingDeletes
    · rw [decide_eq_true hd, if_pos rfl]
      exact ends_pure ⟨h, by rw [← h.live, live_of_delete hw hd]; rfl⟩
    · rw [decide_eq_false hd, if_neg (by simp)]
      have hlive : L (cfg.path pl) = S₀.get (cfg.path pl) := by rw [← h.live, live_of_clean hw hd, h.store]
      refine ends_bind (ends_read ?_)
      cases hc : s.readCache.get (cfg.path pl) with
      | some c => exact ends_pure ⟨h, by rw [hlive, h.cache _ c hc]; rfl⟩
      | none =>
        rw [if_neg (by simp)]
        refine ends_mapErr ?_
        unfold storeContains
        refine Ends.bind (call_spec h (.contains (cfg.path pl))) (fun _ _ ⟨hs, i, hi⟩ => ⟨hs, i, _, hi⟩) fun _ s₁ h₁ => ?_
        exact ends_read ⟨h₁, by rw [h₁.store, hlive]⟩

/-! ## Writing -/

theorem writeFile_spec (h : Holds S₀ s L) (hk : resolveKey key = .ok pl) (c : Bytes) : Ends (writeFile cfg key c) s
    (fun _ s' => Holds S₀ s' (Function.update L (cfg.path pl) (some c))) (fun _ _ => False) := by
  unfold writeFile
  rw [s3Path_bind hk]
  refine ends_modify ⟨h.store, h.cache, fun path hp => ?_, fun path => ?_⟩
  · obtain ⟨hp, hne⟩ := List.mem_filter.1 hp
    rw [FMap.get_insert, if_neg (by simpa using hne)]
    exact h.disjoint path hp
  · by_cases hp : path = cfg.path pl
    · subst hp
      rw [Function.update_self]
      exact live_of_write (by rw [FMap.get_insert, if_pos rfl])
    · rw [Function.update_of_ne hp, ← h.live]
      simp [S3.live, FMap.get_insert, hp]

theorem deleteFile_spec (h : Holds S₀ s L) (hk : resolveKey key = .ok pl) : Ends (deleteFile cfg key) s
    (fun _ s' => Holds S₀ s' (Function.update L (cfg.path pl) none)) (fun _ _ => False) := by
  unfold deleteFile
  rw [s3Path_bind hk]
  have hmem : ∀ path, (path ∈ if cfg.path pl ∈ s.pendingDeletes then s.pendingDeletes
      else s.pendingDeletes ++ [cfg.path pl]) ↔ path ∈ s.pendingDeletes ∨ path = cfg.path pl := fun path => by
    split
    · rename_i hin
      exact ⟨.inl, fun h => h.elim id (fun h => h ▸ hin)⟩
    · simp
  refine ends_modify ⟨h.store, fun path c hp => ?_, fun path hp => ?_, fun path => ?_⟩
  · rw [FMap.get_erase] at hp
    split at hp
    · cases hp
    · exact h.cache path c hp
  · rw [FMap.get_erase]
    split
    · rfl
    · exact h.disjoint path (((hmem path).1 hp).resolve_right ‹_›)
  · by_cases hp : path = cfg.path pl
    · subst hp
      rw [Function.update_self]
      exact live_of_delete (by rw [FMap.get_erase, if_pos rfl]) ((hmem _).2 (.inr rfl))
    · rw [Function.update_of_ne hp, ← h.live]
      simp only [S3.live, FMap.get_erase, hmem path, hp, or_false, if_false]

end

/-! ## Listing -/

theorem mem_foldl_pushKey (deletes : List Text) (sp mp : Text) (k : Text) : ∀ (paths keys : List Text),
    k ∈ paths.foldl (pushKey deletes sp mp) keys ↔
      k ∈ keys ∨ ∃ rel, k = mp ++ rel ∧ sp ++ rel ∈ paths ∧ sp ++ rel ∉ deletes
  | [], keys => by simp
  | path :: paths, keys => by
    rw [List.foldl_cons, mem_foldl_pushKey deletes sp mp k paths]
    have hstep : k ∈ pushKey deletes sp mp keys path ↔
        k ∈ keys ∨ ∃ rel, k = mp ++ rel ∧ sp ++ rel = path ∧ sp ++ rel ∉ deletes := by
      unfold pushKey
      by_cases hd : path ∈ deletes
      · rw [if_pos hd]
        refine ⟨.inl, fun h => h.elim id ?_⟩
        rintro ⟨rel, -, rfl, hn⟩
        exact absurd hd hn
      · rw [if_neg hd]
        cases hs : Text.stripPrefix sp path with
        | none =>
          refine ⟨.inl, fun h => h.elim id ?_⟩
          rintro ⟨rel, -, rfl, -⟩
          rw [Text.stripPrefix_append] at hs
          cases hs
        | some rel =>
          obtain rfl := Text.stripPrefix_eq_some.1 hs
          have hone : (∃ rel', k = mp ++ rel' ∧ sp ++ rel' = sp ++ rel ∧ sp ++ rel' ∉ deletes) ↔ k = mp ++ rel := by
            constructor
            · rintro ⟨rel', rfl, he, -⟩
              rw [List.append_cancel_left he]
            · rintro rfl
              exact ⟨rel, rfl, rfl, hd⟩
          rw [hone]
          simp only
          split
          · rename_i hin
            exact ⟨.inl, fun h => h.elim id (fun h => h ▸ hin)⟩
          · simp
    rw [hstep, or_assoc, ← exists_or]
    refine or_congr Iff.rfl (exists_congr fun rel => ?_)
    rw [List.mem_cons]
    tauto

theorem nodup_foldl_pushKey (deletes : List Text) (sp mp : Text) : ∀ (paths keys : List Text), keys.Nodup →
    (paths.foldl (pushKey deletes sp mp) keys).Nodup
  | [], _, h => h
  | path :: paths, keys, h => by
    refine nodup_foldl_pushKey deletes sp mp paths _ ?_
    unfold pushKey
    split
    · exact h
    · split
      · split
        · exact h
        · rename_i hn
          exact List.nodup_append.2 ⟨h, by simp, by
            rintro a ha b hb rfl
            exact hn (List.mem_singleton.1 hb ▸ ha)⟩
      · exact h

/-- The keys of one directory of the map `L`, sorted and without repetition. -/
structure Listing (cfg : S3Config) (L : Text → Option Bytes) (root : Root) (keys : List Text) : Prop where
  nodup : keys.Nodup
  sorted : keys.Pairwise (· ≤ ·)
  mem : ∀ k, k ∈ keys ↔ ∃ rel, k = root.keyPrefix ++ rel ∧ (L (cfg.rootPrefix root ++ rel)).isSome

/-- A listing is right unless the store's own listing fails on a directory with something in it. -/
theorem listFiles_spec (h : Holds S₀ s L) {pre : Text} {root : Root}
    (hr : resolvePrefix "snapshot prefix must include a version id".toList pre = .ok root)
    (hfail : ∀ i, fails i (.list (cfg.rootPrefix root)) = true → ∀ rel, S₀.get (cfg.rootPrefix root ++ rel) = none) :
    Ends (listFiles fails cfg pre) s (fun keys s' => Holds S₀ s' L ∧ Listing cfg L root keys) (fun _ _ => False) := by
  unfold listFiles
  rw [hr]
  refine ends_bind (ends_pure ?_)
  -- what the store's listing contributes, whether the call fails or not
  refine Ends.bind (R := fun r s' => Holds S₀ s' L ∧ ∀ rel,
      cfg.rootPrefix root ++ rel ∈ unwrapOrDefault r ↔ (S₀.get (cfg.rootPrefix root ++ rel)).isSome)
    (F := fun _ _ => False) (ends_attempt ?_) (fun _ _ h => h.elim) fun r s₁ ⟨h₁, hfiles⟩ => ?_
  · unfold storeList
    refine Ends.bind (call_spec h (.list (cfg.rootPrefix root))) (fun _ s' ⟨hs, i, hi⟩ => ⟨hs, fun rel => ?_⟩)
      fun _ s₁ h₁ => ends_read ⟨h₁, fun rel => ?_⟩
    · rw [hfail i hi rel]
      simp [unwrapOrDefault]
    · simp only [unwrapOrDefault, List.mem_filter, FMap.mem_keys, h₁.store]
      simp
  · refine ends_bind (ends_read (ends_bind (ends_read (ends_pure ⟨h₁, ?_, ?_, fun k => ?_⟩))))
    · exact (List.perm_insertionSort _ _).nodup_iff.2
        (nodup_foldl_pushKey _ _ _ _ _ (nodup_foldl_pushKey _ _ _ _ _ List.nodup_nil))
    · exact List.pairwise_insertionSort _ _
    · rw [(List.perm_insertionSort _ _).mem_iff, mem_foldl_pushKey, mem_foldl_pushKey]
      simp only [List.not_mem_nil, false_or]
      rw [← exists_or]
      refine exists_congr fun rel => ?_
      rw [hfiles rel, ← and_or_left, ← or_and_right, ← h₁.live]
      refine and_congr_right fun _ => ?_
      rw [List.mem_filter, FMap.mem_keys]
      have hpre : (cfg.rootPrefix root).isPrefixOf (cfg.rootPrefix root ++ rel) = true := by simp
      rw [hpre]
      cases hw : s₁.pendingWrites.get (cfg.rootPrefix root ++ rel) with
      | some c =>
        have hd : cfg.rootPrefix root ++ rel ∉ s₁.pendingDeletes := fun hd => by
          rw [h₁.disjoint _ hd] at hw
          cases hw
        rw [live_of_write hw]
        simp [hd]
      | none =>
        by_cases hd : cfg.rootPrefix root ++ rel ∈ s₁.pendingDeletes
        · rw [live_of_delete hw hd]
          simp [hd]
        · rw [live_of_clean hw hd, h₁.store]
          simp [hd]

end S3
end Vai
