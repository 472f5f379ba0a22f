import Vai.S3Flush
/-!
# S3Map — `S3MergeFs` against a plain map of keys

The abstract file system is a finite map from keys to bytes with immediate effect (`PlainMap.step`).  A store amounts to
such a map (`S3Config.logical`): every path in one of the three directories has one key (`keyOf`), and every key one
path.  Running any sequence of calls on both gives the same answers, and a flush then makes the store equal to the map —
as long as the keys have the documented format and only whole directories are listed: a prefix such as
`snapshot/v1/src/` is taken for a version called `v1/src`, and `base/src/` for no directory at all.
-/
namespace Vai

open Proc

/-! ## Keys and places -/

def Place.key : Place → Text
  | .overlay p => overlayKey p
  | .base p => baseKey p
  | .snapshot ver p => snapshotKey ver p

/-- The places that keys lead to: a version has no slash. -/
def Place.Named : Place → Prop
  | .snapshot ver _ => '/' ∉ ver
  | _ => True

theorem resolveKey_key : ∀ {pl : Place}, pl.Named → resolveKey pl.key = .ok pl
  | .overlay p, _ => resolveKey_overlay p
  | .base p, _ => resolveKey_base p
  | .snapshot _ p, h => resolveKey_snapshot h p

theorem key_of_resolveKey {k : Text} {pl : Place} (h : resolveKey k = .ok pl) : pl.key = k ∧ pl.Named := by
  unfold resolveKey at h
  split at h
  · rename_i rel hs
    cases h
    exact ⟨(Text.stripPrefix_eq_some.1 hs).symm, trivial⟩
  · split at h
    · rename_i rel hs
      cases h
      exact ⟨(Text.stripPrefix_eq_some.1 hs).symm, trivial⟩
    · split at h
      · rename_i rest hs
        split at h
        · rename_i ver rel hv
          cases h
          obtain ⟨rfl, hn⟩ := Text.splitOnce_eq_some.1 hv
          refine ⟨?_, hn⟩
          rw [Text.stripPrefix_eq_some.1 hs]
          simp [Place.key, snapshotKey, snapshotPrefix]
        · cases h
      · cases h

namespace S3Config

variable (cfg : S3Config)

/-- The key of a store path, if it lies in one of the directories. -/
def keyOf (path : Text) : Option Text :=
  match Text.stripPrefix cfg.overlayPrefix path with
  | some rel => some (overlayKey rel)
  | none =>
    match Text.stripPrefix cfg.basePrefix path with
    | some rel => some (baseKey rel)
    | none =>
      match Text.stripPrefix versionsPrefix path with
      | some rest =>
        match Text.splitOnce '/' rest with
        | some (ver, rest) => (Text.stripPrefix "snapshot/".toList rest).map (snapshotKey ver)
        | none => none
      | none => none

/-- Two directories that do not overlap have no path in common. -/
theorem stripPrefix_disjoint {a b : Text} (h : ¬ a <+: b ∧ ¬ b <+: a) (rel : Text) :
    Text.stripPrefix a (b ++ rel) = none := by
  rw [Text.stripPrefix_eq_none]
  intro hp
  rcases List.prefix_or_prefix_of_prefix hp (List.prefix_append b rel) with h1 | h1
  · exact h.1 h1
  · exact h.2 h1

theorem keyOf_path : ∀ {pl : Place}, pl.Named → cfg.keyOf (cfg.path pl) = some pl.key
  | .overlay p, _ => by rw [keyOf, path, Text.stripPrefix_append]; rfl
  | .base p, _ => by
    rw [keyOf, path, stripPrefix_disjoint cfg.overlay_base]
    simp only [Text.stripPrefix_append]
    rfl
  | .snapshot ver p, h => by
    rw [keyOf, path, stripPrefix_disjoint cfg.overlay_version]
    simp only [stripPrefix_disjoint cfg.base_version, Text.stripPrefix_append]
    have hsplit : Text.splitOnce '/' (ver ++ (snapshotDir ++ p)) = some (ver, "snapshot/".toList ++ p) :=
      Text.splitOnce_append _ h
    simp only [hsplit, Text.stripPrefix_append]
    rfl

theorem path_of_keyOf {path k : Text} (h : cfg.keyOf path = some k) :
    ∃ pl, resolveKey k = .ok pl ∧ cfg.path pl = path := by
  unfold keyOf at h
  split at h
  · rename_i rel hs
    cases h
    exact ⟨.overlay rel, resolveKey_overlay rel, (Text.stripPrefix_eq_some.1 hs).symm⟩
  · split at h
    · rename_i rel hs
      cases h
      exact ⟨.base rel, resolveKey_base rel, (Text.stripPrefix_eq_some.1 hs).symm⟩
    · split at h
      · rename_i rest hs
        split at h
        · rename_i ver rest' hv
          obtain ⟨rel, hrel, rfl⟩ := Option.map_eq_some_iff.1 h
          obtain ⟨rfl, hn⟩ := Text.splitOnce_eq_some.1 hv
          refine ⟨.snapshot ver rel, resolveKey_snapshot hn rel, ?_⟩
          rw [Text.stripPrefix_eq_some.1 hs, Text.stripPrefix_eq_some.1 hrel]
          rfl
        · cases h
      · cases h

theorem path_injective {pl pl' : Place} (h : pl.Named) (h' : pl'.Named) (he : cfg.path pl = cfg.path pl') : pl = pl' := by
  have hk := cfg.keyOf_path h
  rw [he, cfg.keyOf_path h'] at hk
  have h1 := resolveKey_key h
  rw [← Option.some.inj hk, resolveKey_key h'] at h1
  exact (Except.ok.inj h1).symm

/-- The map from keys to bytes that a store amounts to. -/
def logical (S : FMap Text Bytes) : FMap Text Bytes :=
  FMap.ofList (S.pairs.filterMap (fun q => (cfg.keyOf q.1).map (fun k => (k, q.2))))

/-- What the store holds for a key. -/
def atKey (S : FMap Text Bytes) (k : Text) : Option Bytes :=
  match resolveKey k with
  | .ok pl => S.get (cfg.path pl)
  | .error _ => none

theorem get_logical (S : FMap Text Bytes) (k : Text) : (cfg.logical S).get k = cfg.atKey S k := by
  have hof : cfg.logical S = S3.putAll ∅ (S.pairs.filterMap (fun q => (cfg.keyOf q.1).map (fun k => (k, q.2)))) := rfl
  have hmem : ∀ k c, (k, c) ∈ S.pairs.filterMap (fun q => (cfg.keyOf q.1).map (fun k => (k, q.2))) ↔
      ∃ path, S.get path = some c ∧ cfg.keyOf path = some k := fun k c => by
    simp only [List.mem_filterMap, Option.map_eq_some_iff, Prod.mk.injEq, Prod.exists, FMap.mem_pairs]
    constructor
    · rintro ⟨path, c', hc, k', hk, rfl, rfl⟩
      exact ⟨path, hc, hk⟩
    · rintro ⟨path, hc, hk⟩
      exact ⟨path, c, hc, k, hk, rfl, rfl⟩
  rw [hof, S3.get_putAll (f := cfg.atKey S) k _ _ (fun q hq => ?_), FMap.get_empty]
  · by_cases hk : k ∈ (S.pairs.filterMap (fun q => (cfg.keyOf q.1).map (fun k => (k, q.2)))).map Prod.fst
    · rw [if_pos hk]
    · rw [if_neg hk]
      cases ha : cfg.atKey S k with
      | none => rfl
      | some c =>
        refine absurd (List.mem_map.2 ⟨(k, c), (hmem k c).2 ?_, rfl⟩) hk
        unfold atKey at ha
        split at ha
        · rename_i pl hpl
          obtain ⟨hkey, hnamed⟩ := key_of_resolveKey hpl
          exact ⟨cfg.path pl, ha, by rw [cfg.keyOf_path hnamed, hkey]⟩
        · cases ha
  · obtain ⟨path, hc, hk⟩ := (hmem q.1 q.2).1 hq
    obtain ⟨pl, hpl, rfl⟩ := cfg.path_of_keyOf hk
    rw [atKey, hpl]
    exact hc

end S3Config

/-! ## The two file systems, call by call -/

inductive Call where
  | readFile (key : Text)
  | writeFile (key : Text) (content : Bytes)
  | listFiles (pre : Text)
  | fileExists (key : Text)
  | deleteFile (key : Text)
  deriving DecidableEq, Repr

/-- What a call answers; of an error only its kind. -/
inductive Answer where
  | content (c : Bytes)
  | done
  | keys (l : List Text)
  | there (b : Bool)
  | error (kind : IoErrorKind)
  deriving DecidableEq, Repr

def Answer.of {α : Type} (f : α → Answer) : Except IoError α → Answer
  | .ok a => f a
  | .error e => .error e.kind

namespace PlainMap

/-- A prefix names a directory, with or without slashes at its end. -/
def dirPrefix (pre : Text) : Text := Text.trimEndMatches '/' pre ++ ['/']

def list (M : FMap Text Bytes) (pre : Text) : List Text :=
  (M.keys.filter (fun k => (dirPrefix pre).isPrefixOf k)).insertionSort (· ≤ ·)

def step (M : FMap Text Bytes) : Call → Answer × FMap Text Bytes
  | .readFile key => ((M.get key).elim (.error .notFound) .content, M)
  | .writeFile key content => (.done, M.insert key content)
  | .listFiles pre => (.keys (list M pre), M)
  | .fileExists key => (.there (M.get key).isSome, M)
  | .deleteFile key => (.done, M.erase key)

end PlainMap

def S3.step (fails : Faults) (cfg : S3Config) (s : S3) : Call → Answer × S3
  | .readFile key => ((S3.readFile fails cfg key s).map (Answer.of .content) id)
  | .writeFile key content => ((S3.writeFile cfg key content s).map (Answer.of (fun _ => .done)) id)
  | .listFiles pre => ((S3.listFiles fails cfg pre s).map (Answer.of .keys) id)
  | .fileExists key => ((S3.fileExists fails cfg key s).map (Answer.of .there) id)
  | .deleteFile key => ((S3.deleteFile cfg key s).map (Answer.of (fun _ => .done)) id)

/-- The answers to a sequence of calls, and the state after them. -/
def runCalls {σ : Type} (step : σ → Call → Answer × σ) : List Call → σ → List Answer × σ
  | [], s => ([], s)
  | c :: cs, s => ((step s c).1 :: (runCalls step cs (step s c).2).1, (runCalls step cs (step s c).2).2)

/-! ## Refinement -/

namespace S3

variable {cfg : S3Config} {S₀ : FMap Text Bytes} {s : S3} {M : FMap Text Bytes}

/-- The state `s` over the store content `S₀` stands for the map `M`. -/
structure StandsFor (cfg : S3Config) (S₀ : FMap Text Bytes) (s : S3) (M : FMap Text Bytes) : Prop where
  holds : ∃ L, Holds S₀ s L ∧ (∀ k pl, resolveKey k = .ok pl → M.get k = L (cfg.path pl)) ∧
    ∀ path, cfg.keyOf path = none → L path = S₀.get path

theorem standsFor_new (cfg : S3Config) (S : FMap Text Bytes) : StandsFor cfg S (new S) (cfg.logical S) where
  holds := ⟨S.get, holds_new S, fun k pl h => by rw [S3Config.get_logical, S3Config.atKey, h], fun _ _ => rfl⟩

/-- A change of one key is a change of its path. -/
theorem StandsFor.put (h : StandsFor cfg S₀ s M) {k : Text} {pl : Place} (hk : resolveKey k = .ok pl) (c : Option Bytes)
    {s' : S3} (hs : ∀ L, Holds S₀ s L → Holds S₀ s' (Function.update L (cfg.path pl) c)) :
    StandsFor cfg S₀ s' (M.put k c) where
  holds := by
    obtain ⟨L, hL, hM, hrest⟩ := h.holds
    obtain ⟨hkey, hnamed⟩ := key_of_resolveKey hk
    refine ⟨_, hs L hL, fun k' pl' hk' => ?_, fun path hp => ?_⟩
    · obtain ⟨hkey', hnamed'⟩ := key_of_resolveKey hk'
      rw [FMap.get_put]
      by_cases he : k' = k
      · subst he
        rw [hk] at hk'
        cases hk'
        rw [if_pos rfl, Function.update_self]
      · rw [if_neg he, Function.update_of_ne, hM k' pl' hk']
        intro hpath
        exact he (by rw [← hkey', ← hkey, cfg.path_injective hnamed' hnamed hpath])
    · rw [Function.update_of_ne, hrest path hp]
      rintro rfl
      rw [cfg.keyOf_path hnamed] at hp
      cases hp

/-- The roots whose directory holds exactly the keys under it. -/
def Whole : Root → Prop
  | .snapshot ver => '/' ∉ ver
  | _ => True

/-- Under such a root, the keys are the paths of the store's directory. -/
theorem resolveKey_append (cfg : S3Config) : ∀ {root : Root}, Whole root → ∀ rel,
    ∃ pl, resolveKey (root.keyPrefix ++ rel) = .ok pl ∧ cfg.path pl = cfg.rootPrefix root ++ rel
  | .overlay, _, rel => ⟨.overlay rel, resolveKey_overlay rel, rfl⟩
  | .base, _, rel => ⟨.base rel, resolveKey_base rel, rfl⟩
  | .snapshot ver, h, rel => ⟨.snapshot ver rel, resolveKey_snapshot h rel, by simp [S3Config.path, S3Config.rootPrefix]⟩

theorem list_eq {L : Text → Option Bytes} (hM : ∀ k pl, resolveKey k = .ok pl → M.get k = L (cfg.path pl))
    {root : Root} (hw : Whole root) {pre : Text} (hd : root.keyPrefix = PlainMap.dirPrefix pre) {keys : List Text}
    (hl : Listing cfg L root keys) : keys = PlainMap.list M pre := by
  have hnd : (PlainMap.list M pre).Nodup :=
    (List.perm_insertionSort _ _).nodup_iff.2 ((AList.keys_nodup M).filter _)
  have hperm : keys.Perm (PlainMap.list M pre) := by
    refine (List.perm_ext_iff_of_nodup hl.nodup hnd).2 (fun k => ?_)
    rw [hl.mem, PlainMap.list, (List.perm_insertionSort _ _).mem_iff, List.mem_filter, FMap.mem_keys, ← hd,
      List.isPrefixOf_iff_prefix]
    constructor
    · rintro ⟨rel, rfl, hs⟩
      obtain ⟨pl, hpl, hpath⟩ := resolveKey_append cfg hw rel
      exact ⟨by rw [hM _ pl hpl, hpath]; exact hs, List.prefix_append _ _⟩
    · rintro ⟨hs, rel, rfl⟩
      obtain ⟨pl, hpl, hpath⟩ := resolveKey_append cfg hw rel
      exact ⟨rel, rfl, by rw [← hpath, ← hM _ pl hpl]; exact hs⟩
  exact hperm.eq_of_pairwise (fun a b _ _ => le_antisymm) hl.sorted (List.pairwise_insertionSort _ _)

/-- The documented format of keys: `overlay/{path}`, `base/{path}` or `snapshot/{version}/{path}`. -/
def LogicalKey (key : Text) : Prop :=
  (∃ p, key = overlayKey p) ∨ (∃ p, key = baseKey p) ∨ ∃ ver p, '/' ∉ ver ∧ key = snapshotKey ver p

/-- The prefix of a whole directory: the overlay, the base, or the snapshot of one version (with any slashes after it). -/
def WholePrefix (pre : Text) : Prop :=
  (pre = overlayPrefix ∨ pre = "overlay".toList) ∨ (pre = basePrefix ∨ pre = "base".toList) ∨
    ∃ ver n, '/' ∉ ver ∧ ver ≠ [] ∧ pre = snapshotsPrefix ++ (ver ++ List.replicate n '/')

def WellFormed : Call → Prop
  | .readFile key | .writeFile key _ | .fileExists key | .deleteFile key => LogicalKey key
  | .listFiles pre => WholePrefix pre

theorem LogicalKey.resolves {key : Text} : LogicalKey key → ∃ pl, resolveKey key = .ok pl
  | .inl ⟨p, h⟩ => ⟨.overlay p, h ▸ resolveKey_overlay p⟩
  | .inr (.inl ⟨p, h⟩) => ⟨.base p, h ▸ resolveKey_base p⟩
  | .inr (.inr ⟨ver, p, hv, h⟩) => ⟨.snapshot ver p, h ▸ resolveKey_snapshot hv p⟩

theorem trimEndMatches_replicate {c : Char} {s : Text} (n : Nat) (h : c ∉ s) :
    Text.trimEndMatches c (s ++ List.replicate n c) = s := by
  have hs := Text.trimEndMatches_of_not_mem h
  unfold Text.trimEndMatches at hs ⊢
  rw [List.reverse_append, List.reverse_replicate, List.dropWhile_append_of_pos (by simp)]
  exact hs

/-- The prefix of a whole directory is read as that directory. -/
theorem WholePrefix.resolves {pre : Text} (h : WholePrefix pre) (msg : Text) :
    ∃ root, resolvePrefix msg pre = .ok root ∧ Whole root ∧ root.keyPrefix = PlainMap.dirPrefix pre := by
  rcases h with h | h | ⟨ver, n, hv, hne, rfl⟩
  · refine ⟨.overlay, by rw [resolvePrefix, if_pos h], trivial, ?_⟩
    rcases h with rfl | rfl <;> decide
  · refine ⟨.base, ?_, trivial, ?_⟩
    · rcases h with rfl | rfl <;> rfl
    · rcases h with rfl | rfl <;> decide
  · have htrim : Text.trimEndMatches '/' (ver ++ List.replicate n '/') = ver := trimEndMatches_replicate n hv
    have hno : ∀ q : Text, q.head? ≠ some 's' → snapshotsPrefix ++ (ver ++ List.replicate n '/') ≠ q := by
      rintro q hq rfl
      exact hq rfl
    refine ⟨.snapshot ver, ?_, hv, ?_⟩
    · rw [resolvePrefix, if_neg (not_or.2 ⟨hno _ (by decide), hno _ (by decide)⟩),
        if_neg (not_or.2 ⟨hno _ (by decide), hno _ (by decide)⟩), Text.stripPrefix_append]
      simp only [htrim, if_neg hne]
    · rw [PlainMap.dirPrefix, Text.trimEndMatches_append_of_ne_nil _ _ (by rwa [htrim]), htrim]
      simp [Root.keyPrefix, snapshotPrefix]

/-- **One call**: the same answer, and states that still stand for one another. -/
theorem step_refines (h : StandsFor cfg S₀ s M) (c : Call) (hc : WellFormed c) :
    (step noFaults cfg s c).1 = (PlainMap.step M c).1 ∧
      StandsFor cfg S₀ (step noFaults cfg s c).2 (PlainMap.step M c).2 := by
  obtain ⟨L, hL, hM, hrest⟩ := h.holds
  have hsame : ∀ s', Holds S₀ s' L → StandsFor cfg S₀ s' M := fun s' hs' => ⟨L, hs', hM, hrest⟩
  cases c with
  | readFile key =>
    obtain ⟨pl, hk⟩ := LogicalKey.resolves hc
    have hspec : Ends (readFile noFaults cfg key) s _ _ := readFile_spec hL hk
    simp only [step, PlainMap.step]
    rcases hr : readFile noFaults cfg key s with ⟨e | c, s'⟩
    · obtain ⟨hs', hkind, hf | hn⟩ := hspec.error hr
      · exact absurd hf not_anyFault_noFaults
      · exact ⟨by rw [hM key pl hk, hn]; exact congrArg Answer.error hkind, hsame s' hs'⟩
    · obtain ⟨hs', hc⟩ := hspec.ok hr
      exact ⟨by rw [hM key pl hk, hc]; rfl, hsame s' hs'⟩
  | writeFile key content =>
    obtain ⟨pl, hk⟩ := LogicalKey.resolves hc
    simp only [step, PlainMap.step]
    rcases hr : writeFile cfg key content s with ⟨e | u, s'⟩
    · exact ((writeFile_spec hL hk content).error hr).elim
    · exact ⟨rfl, h.put hk (some content) (fun L hL => (writeFile_spec hL hk content).ok hr)⟩
  | listFiles pre =>
    obtain ⟨root, hp, hwhole, hdir⟩ := WholePrefix.resolves hc "snapshot prefix must include a version id".toList
    have hspec : Ends (listFiles noFaults cfg pre) s _ _ := listFiles_spec hL hp (fun i hi => by cases hi)
    simp only [step, PlainMap.step]
    rcases hr : listFiles noFaults cfg pre s with ⟨e | keys, s'⟩
    · exact (hspec.error hr).elim
    · obtain ⟨hs', hlist⟩ := hspec.ok hr
      exact ⟨congrArg Answer.keys (list_eq hM hwhole hdir hlist), hsame s' hs'⟩
  | fileExists key =>
    obtain ⟨pl, hk⟩ := LogicalKey.resolves hc
    have hspec : Ends (fileExists noFaults cfg key) s _ _ := fileExists_spec hL hk
    simp only [step, PlainMap.step]
    rcases hr : fileExists noFaults cfg key s with ⟨e | b, s'⟩
    · exact absurd (hspec.error hr).2 not_anyFault_noFaults
    · obtain ⟨hs', hb⟩ := hspec.ok hr
      exact ⟨by rw [hM key pl hk, ← hb]; rfl, hsame s' hs'⟩
  | deleteFile key =>
    obtain ⟨pl, hk⟩ := LogicalKey.resolves hc
    simp only [step, PlainMap.step]
    rcases hr : deleteFile cfg key s with ⟨e | u, s'⟩
    · exact ((deleteFile_spec hL hk).error hr).elim
    · exact ⟨rfl, h.put hk none (fun L hL => (deleteFile_spec hL hk).ok hr)⟩

/-- **A run of calls**, by induction on the calls. -/
theorem run_refines : ∀ (calls : List Call) {s : S3} {M : FMap Text Bytes}, StandsFor cfg S₀ s M →
    (∀ c ∈ calls, WellFormed c) →
      (runCalls (step noFaults cfg) calls s).1 = (runCalls PlainMap.step calls M).1 ∧
        StandsFor cfg S₀ (runCalls (step noFaults cfg) calls s).2 (runCalls PlainMap.step calls M).2
  | [], _, _, h, _ => ⟨rfl, h⟩
  | c :: calls, s, M, h, hc => by
    obtain ⟨h1, h2⟩ := step_refines h c (hc c List.mem_cons_self)
    obtain ⟨h3, h4⟩ := run_refines calls h2 (fun c' hc' => hc c' (List.mem_cons_of_mem _ hc'))
    exact ⟨by rw [runCalls, runCalls, h1, h3], h4⟩

/-- The store of a flushed state: the map under the three directories, and the rest as it was. -/
theorem StandsFor.flush (h : StandsFor cfg S₀ s M) (env : Env) :
    ∃ s', S3.flush env noFaults s = (.ok (), s') ∧
      ∀ path, s'.store.get path = (cfg.keyOf path).elim (S₀.get path) M.get := by
  obtain ⟨L, hL, hM, hrest⟩ := h.holds
  have hflush : Ends (S3.flush env noFaults) s _ _ := flush_store hL (fun i path hi => by cases hi)
  obtain ⟨⟨⟩, s', hs', hstore⟩ := hflush.exists_ok (fun _ _ => not_anyFault_noFaults)
  refine ⟨s', hs', fun path => ?_⟩
  rw [hstore path]
  cases hk : cfg.keyOf path with
  | none => exact hrest path hk
  | some k =>
    obtain ⟨pl, hpl, rfl⟩ := cfg.path_of_keyOf hk
    exact (hM k pl hpl).symm

/-- **`S3MergeFs` is a plain map**, in every run over keys of the documented format that lists directories as a whole:
each call is answered as by the map the store amounts to, and a flush then makes the store that map. -/
theorem s3MergeFs_refines_map (cfg : S3Config) (env : Env) (store : FMap Text Bytes) (calls : List Call)
    (hcalls : ∀ c ∈ calls, WellFormed c) :
    (runCalls (step noFaults cfg) calls (new store)).1 = (runCalls PlainMap.step calls (cfg.logical store)).1 ∧
    ∃ s', S3.flush env noFaults (runCalls (step noFaults cfg) calls (new store)).2 = (.ok (), s') ∧
      ∀ path, s'.store.get path = (cfg.keyOf path).elim (store.get path)
        (runCalls PlainMap.step calls (cfg.logical store)).2.get := by
  obtain ⟨h1, h2⟩ := run_refines calls (standsFor_new cfg store) hcalls
  exact ⟨h1, h2.flush env⟩

/-- The prefixes the server uses for the workspace `7`. -/
def serverConfig : S3Config where
  overlayPrefix := "workspaces/7/".toList
  basePrefix := "current/".toList
  overlay_base := by decide
  overlay_version := by decide
  base_version := by decide

/-- A snapshot of version 1 with one file in a directory. -/
def snapshotStore : FMap Text Bytes := FMap.ofList [("versions/v1/snapshot/src/a.rs".toList, [1])]

theorem s3MergeFs_refines_map_run :
    (∀ c ∈ [Call.writeFile "base/a".toList [1], .listFiles "snapshot/v1/".toList, .deleteFile "base/a".toList], WellFormed c) ∧
    ∃ s', S3.flush Env.plain noFaults (runCalls (step noFaults serverConfig) [Call.writeFile "base/a".toList [1],
      .listFiles "snapshot/v1/".toList, .deleteFile "base/a".toList] (new snapshotStore)).2 = (.ok (), s') ∧
      s'.store.get "current/a".toList = none := by
  have hw : ∀ c ∈ [Call.writeFile "base/a".toList [1], .listFiles "snapshot/v1/".toList, .deleteFile "base/a".toList],
      WellFormed c := by
    intro c hc
    simp only [List.mem_cons, List.not_mem_nil, or_false] at hc
    rcases hc with rfl | rfl | rfl
    · exact .inr (.inl ⟨"a".toList, rfl⟩)
    · exact .inr (.inr ⟨"v1".toList, 1, by decide, by decide, rfl⟩)
    · exact .inr (.inl ⟨"a".toList, rfl⟩)
  obtain ⟨-, s', hs', hstore⟩ := s3MergeFs_refines_map serverConfig Env.plain snapshotStore _ hw
  refine ⟨hw, s', hs', ?_⟩
  rw [hstore]
  decide

/-- Listing a directory inside a snapshot misses the live keys in it. -/
theorem listFiles_misses_snapshot_directory :
    (runCalls (step noFaults serverConfig) [.listFiles "snapshot/v1/src/".toList] (new snapshotStore)).1 = [.keys []] ∧
    (runCalls PlainMap.step [.listFiles "snapshot/v1/src/".toList] (serverConfig.logical snapshotStore)).1 =
      [.keys ["snapshot/v1/src/a.rs".toList]] := by
  decide

end S3

end Vai
