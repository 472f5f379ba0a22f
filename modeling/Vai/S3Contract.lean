import Vai.S3Map
/-!
# S3Contract — the merge engine over `S3MergeFs`

`S3MergeFs` meets the contract of the engine as long as the store's listing does not fail on a directory that holds
something: every other failure of the store becomes an error of the call, never a wrong answer.
-/
namespace Vai
namespace S3

open Proc

variable {fails : Faults} {cfg : S3Config} {S₀ : FMap Text Bytes} {s : S3} {V : Files} {env : Env}

theorem named_place : ∀ k : Slot, k.place.Named
  | .overlay _ => trivial
  | .base _ => trivial
  | .snapshot n _ => slash_not_mem_versionName n

theorem path_place_injective {k j : Slot} (h : cfg.path k.place = cfg.path j.place) : k = j :=
  Slot.place_injective (cfg.path_injective (named_place k) (named_place j) h)

/-- The state `s` holds the files `V` over a store of content `S₀`; outside of the slots nothing has changed. -/
def Rep (cfg : S3Config) (S₀ : FMap Text Bytes) (s : S3) (V : Files) : Prop :=
  ∃ L, Holds S₀ s L ∧ (∀ k : Slot, V k = L (cfg.path k.place)) ∧
    ∀ path, (∀ k : Slot, path ≠ cfg.path k.place) → L path = S₀.get path

/-- The files the engine sees of a store. -/
def filesOf (cfg : S3Config) (S : FMap Text Bytes) : Files := fun k => S.get (cfg.path k.place)

theorem rep_new (cfg : S3Config) (S : FMap Text Bytes) : Rep cfg S (new S) (filesOf cfg S) :=
  ⟨S.get, holds_new S, fun _ => rfl, fun _ _ => rfl⟩

theorem rep_update {L : Text → Option Bytes} {s' : S3} {k : Slot} {c : Option Bytes}
    (hs : Holds S₀ s' (Function.update L (cfg.path k.place) c)) (hV : ∀ k : Slot, V k = L (cfg.path k.place))
    (hrest : ∀ path, (∀ k : Slot, path ≠ cfg.path k.place) → L path = S₀.get path) : Rep cfg S₀ s' (V.set k c) := by
  refine ⟨_, hs, fun j => ?_, fun path hp => ?_⟩
  · rw [Files.set_apply]
    by_cases hj : j = k
    · rw [if_pos hj, hj, Function.update_self]
    · rw [if_neg hj, Function.update_of_ne (fun h => hj (path_place_injective h)), hV]
  · rw [Function.update_of_ne (hp k), hrest path hp]

theorem exists_map_of_prefix (pre : Text) : ∀ (keys : List Text), (∀ k ∈ keys, ∃ rel, k = pre ++ rel) →
    ∃ l : List Text, keys = l.map (pre ++ ·)
  | [], _ => ⟨[], rfl⟩
  | k :: keys, h => by
    obtain ⟨rel, rfl⟩ := h k List.mem_cons_self
    obtain ⟨l, rfl⟩ := exists_map_of_prefix pre keys (fun k hk => h k (List.mem_cons_of_mem _ hk))
    exact ⟨rel :: l, rfl⟩

/-- The keys of a directory, as the engine strips them. -/
theorem Listing.paths {L : Text → Option Bytes} {root : Root} {keys : List Text} (h : Listing cfg L root keys) :
    ∃ l, keys = l.map (root.keyPrefix ++ ·) ∧ Lists l (fun rel => L (cfg.rootPrefix root ++ rel)) := by
  obtain ⟨l, hl⟩ := exists_map_of_prefix root.keyPrefix keys (fun k hk => by
    obtain ⟨rel, hrel, -⟩ := (h.mem k).1 hk
    exact ⟨rel, hrel⟩)
  refine ⟨l, hl, ?_, fun p => ?_⟩
  · have := h.nodup
    rw [hl] at this
    exact this.of_map _
  · have hk := h.mem (root.keyPrefix ++ p)
    rw [hl, List.mem_map] at hk
    constructor
    · intro hp
      obtain ⟨rel, hrel, hs⟩ := hk.1 ⟨p, hp, rfl⟩
      rwa [← List.append_cancel_left hrel] at hs
    · intro hs
      obtain ⟨rel, hrel, he⟩ := hk.2 ⟨p, rfl, hs⟩
      rwa [← List.append_cancel_left he]

/-- The store's listing fails only on directories with nothing in them. -/
def ListsFaithfully (fails : Faults) (S : FMap Text Bytes) : Prop :=
  ∀ i pre, fails i (.list pre) = true → ∀ rel, S.get (pre ++ rel) = none

/-- **`S3MergeFs` is the map the engine believes in**, unless a listing fails where there is something to list. -/
theorem s3MergeFs_contract (hl : ListsFaithfully fails S₀) :
    (s3MergeFs fails cfg).Contract (Rep cfg S₀) (AnyFault fails) where
  readFile {s V} h k _ := by
    obtain ⟨L, hL, hV, hrest⟩ := h
    refine (readFile_spec hL k.resolveKey_key).mono ?_ ?_
    · exact fun c s' ⟨hs, hc⟩ => ⟨⟨L, hs, hV, hrest⟩, by rw [hV, hc]⟩
    · exact fun e s' ⟨hs, _, he⟩ => ⟨⟨L, hs, hV, hrest⟩, by rwa [hV]⟩
  writeFile {s V} h k c _ := by
    obtain ⟨L, hL, hV, hrest⟩ := h
    exact (writeFile_spec hL k.resolveKey_key c).mono (fun _ s' hs => rep_update hs hV hrest) (fun _ _ h => h.elim)
  deleteFile {s V} h k _ := by
    obtain ⟨L, hL, hV, hrest⟩ := h
    exact (deleteFile_spec hL k.resolveKey_key).mono (fun _ s' hs => rep_update hs hV hrest) (fun _ _ h => h.elim)
  fileExists {s V} h k _ := by
    obtain ⟨L, hL, hV, hrest⟩ := h
    refine (fileExists_spec hL k.resolveKey_key).mono ?_ (fun _ _ h => h.2)
    exact fun b s' ⟨hs, hb⟩ => ⟨⟨L, hs, hV, hrest⟩, by rw [hV, hb]⟩
  listOverlay {s V} h := by
    obtain ⟨L, hL, hV, hrest⟩ := h
    have hp : resolvePrefix "snapshot prefix must include a version id".toList overlayPrefix = .ok .overlay := rfl
    refine (listFiles_spec hL hp (fun i hi => hl i _ hi)).mono ?_ (fun _ _ h => h.elim)
    rintro keys s' ⟨hs, hkeys⟩
    obtain ⟨l, hk, hlist⟩ := hkeys.paths
    exact ⟨⟨L, hs, hV, hrest⟩, l, hk, hlist.1, fun p => by simp only [hlist.2, hV]; rfl⟩
  listSnapshot {s V} h n := by
    obtain ⟨L, hL, hV, hrest⟩ := h
    refine (listFiles_spec hL (resolvePrefix_snapshot (slash_not_mem_versionName n) (by simp [versionName]) _)
      (fun i hi => hl i _ hi)).mono ?_ (fun _ _ h => h.elim)
    rintro keys s' ⟨hs, hkeys⟩
    obtain ⟨l, hk, hlist⟩ := hkeys.paths
    refine ⟨⟨L, hs, hV, hrest⟩, l, hk, hlist.1, fun p => ?_⟩
    simp only [hlist.2, hV]
    simp [S3Config.rootPrefix, S3Config.path, Slot.place]

/-- The store after a flush of the files `V`. -/
structure Flushed (cfg : S3Config) (S₀ : FMap Text Bytes) (V : Files) (S : FMap Text Bytes) : Prop where
  slots : ∀ k : Slot, S.get (cfg.path k.place) = V k
  rest : ∀ path, (∀ k : Slot, path ≠ cfg.path k.place) → S.get path = S₀.get path

/-- A flush that returns `Ok` stores the files, where no deletion of a stored file fails. -/
theorem flush_rep (h : Rep cfg S₀ s V) (hdel : ∀ i path, fails i (.delete path) = true → S₀.get path = none) :
    Ends (flush env fails) s (fun _ s' => Flushed cfg S₀ V s'.store) (fun _ _ => AnyFault fails) := by
  obtain ⟨L, hL, hV, hrest⟩ := h
  refine (flush_store hL hdel).mono (fun _ s' hs => ⟨fun k => ?_, fun path hp => ?_⟩) (fun _ _ h => h)
  · rw [hs, hV]
  · rw [hs, hrest path hp]

/-- Two stores that hold the same files over the same content are the same. -/
theorem Flushed.unique {S S' : FMap Text Bytes} (h : Flushed cfg S₀ V S) (h' : Flushed cfg S₀ V S') (path : Text) :
    S.get path = S'.get path := by
  by_cases hp : ∃ k : Slot, path = cfg.path k.place
  · obtain ⟨k, rfl⟩ := hp
    rw [h.slots, h'.slots]
  · have hne : ∀ k : Slot, path ≠ cfg.path k.place := fun k hk => hp ⟨k, hk⟩
    rw [h.rest path hne, h'.rest path hne]

end S3
end Vai
