import Vai.ClientPaths
import Vai.LocalPlain
/-!
# Converge — a pull and a sync come to HEAD

A clone has the tree of an earlier version.  A sync folds the changes of the versions since then into one map, the later
ones winning; a pull is sent the net changes, and restores what is missing.  Both write first and remove afterwards.

`pull_and_sync_converge`: when they end well both have the tree of HEAD.  They end well just when no file to be written
has a file above it or a directory at its place, and no file that is gone is a directory now (`Smooth`): a file that
became a directory stops them, and so does a directory that became a file.
-/
namespace Vai
namespace Remote

open Proc FilePath LocalFs

/-! ## Histories -/

/-- The files of a version: none of them lies above another one, and none in `.vai/`. -/
structure FileTree where
  files : FMap Text Bytes
  paths : ∀ p, (files.get p).isSome → isFilePath p = true ∧ (components p).head? ≠ some vaiDir
  flat : ∀ p p', (files.get p).isSome → (files.get p').isSome → components p <+: components p' → p = p'

def FileTree.get (T : FileTree) (p : Text) : Option Bytes := T.files.get p

/-- What happens to a file from one tree to the next one. -/
def changeOf (T T' : FileTree) (p : Text) : Option ChangeKind :=
  match T.get p, T'.get p with
  | none, none => none
  | none, some _ => some .added
  | some _, none => some .removed
  | some c, some c' => if c = c' then none else some .modified

/-- The versions of a repository around the one that a clone is at. -/
structure History where
  older : List Text
  localHead : Text
  base : FileTree
  since : List (Text × FileTree)
  nodup : (older ++ localHead :: since.map Prod.fst).Nodup
  trimmed : ∀ v ∈ since.map Prod.fst, Text.trim v = v

def History.headVersion (h : History) : Text := (h.since.map Prod.fst).getLastD h.localHead
def History.headTree (h : History) : FileTree := (h.since.map Prod.snd).getLastD h.base
def History.trees (h : History) : List FileTree := h.base :: h.since.map Prod.snd

/-- The changes of each version over the one before it. -/
def ExactChanges (adapter : RemoteAdapter) : FileTree → List (Text × FileTree) → Prop
  | _, [] => True
  | T, (v, T') :: rest =>
    (∃ l, adapter.getVersionChanges v = .ok l ∧ ∀ p k, ⟨p, k⟩ ∈ l ↔ changeOf T T' p = some k) ∧ ExactChanges adapter T' rest

/-- The answers of a server are those of its history. -/
structure Exact (env : ClientEnv) (adapter : RemoteAdapter) (h : History) : Prop where
  serverHead : adapter.getServerHead = .ok h.headVersion
  versions : adapter.listVersions = .ok (h.older ++ h.localHead :: h.since.map Prod.fst)
  changes : ExactChanges adapter h.base h.since
  net : ∃ files, adapter.pullIncremental h.localHead = .ok ⟨h.headVersion, files⟩ ∧
    (∀ p k, (∃ e ∈ files, e.path = p ∧ e.change = k) ↔ changeOf h.base h.headTree p = some k) ∧
    ∀ e ∈ files, e.change ≠ .removed → ∃ b64 c, e.contentBase64 = some b64 ∧ env.base64Decode b64 = .ok c ∧
      h.headTree.get e.path = some c
  manifest : ∃ m, adapter.getManifest = .ok m ∧ ∀ p, (∃ e ∈ m.files, e.path = p) ↔ (h.headTree.get p).isSome
  download : ∀ p c, h.headTree.get p = some c → adapter.downloadFile p = .ok c
  pages : ∃ metas, adapter.versionPages = .ok metas

/-! ## Clones -/

/-- The working tree has the files of a version. -/
def Mirrors (root : List Name) (T : FileTree) (t : Tree) : Prop :=
  ∀ p, isPlain p = true → (components p).head? ≠ some vaiDir → t.file (root ++ components p) = T.get p

/-- The directories of `.vai/`, as `clone` makes them. -/
structure Metadata (root : List Name) (t : Tree) : Prop where
  vai : t.get (root ++ [vaiDir]) = some .dir
  versions : t.get (root ++ [vaiDir, "versions".toList]) = some .dir
  head : t.get (root ++ [vaiDir, "head".toList]) ≠ some .dir
  file : ∀ name, t.get (root ++ [vaiDir, "versions".toList, name]) ≠ some .dir

structure IsClone (root : List Name) (h : History) (t : Tree) : Prop where
  head : headIn root t = some h.localHead
  mirrors : Mirrors root h.base t
  metadata : Metadata root t

structure Converged (root : List Name) (h : History) (t : Tree) : Prop where
  head : headIn root t = some h.headVersion
  mirrors : Mirrors root h.headTree t

/-- Nothing is in the way of a file that HEAD has and the clone has not, and no file that is gone at HEAD is a directory,
here or at HEAD. -/
structure Smooth (root : List Name) (h : History) (t : Tree) : Prop where
  writes : ∀ p, (h.headTree.get p).isSome → h.headTree.get p ≠ h.base.get p → Clear root t p
  removals : ∀ p, (∃ T ∈ h.trees, (T.get p).isSome) → h.headTree.get p = none →
    t.get (root ++ components p) ≠ some .dir ∧ ∀ w, (h.headTree.get w).isSome → ¬ components p <+: components w

variable {env : ClientEnv} {adapter : RemoteAdapter} {root : List Name} {h : History} {s s' : Local}

/-! ## Changes -/

theorem changeOf_eq_none {T T' : FileTree} {p : Text} : changeOf T T' p = none ↔ T'.get p = T.get p := by
  unfold changeOf
  cases T.get p <;> cases T'.get p
  · simp
  · simp
  · simp
  · simp [eq_comm]

theorem changeOf_eq_removed {T T' : FileTree} {p : Text} {k : ChangeKind} (hk : changeOf T T' p = some k) :
    k = .removed ↔ T'.get p = none := by
  unfold changeOf at hk
  cases hT : T.get p <;> cases hT' : T'.get p <;> rw [hT, hT'] at hk
  · cases hk
  · cases hk
    simp
  · cases hk
    simp
  · dsimp only at hk
    split at hk
    · cases hk
    · cases hk
      simp

theorem collectVersion_exact {T T' : FileTree} {v : Text} {l : List VersionFileChange}
    (hl : adapter.getVersionChanges v = .ok l) (hexact : ∀ p k, ⟨p, k⟩ ∈ l ↔ changeOf T T' p = some k)
    (m : FMap Text ChangeKind) : ∃ m', collectVersion adapter m v = .ok m' ∧
      ∀ p, m'.get p = (changeOf T T' p).or (m.get p) := by
  refine ⟨l.foldl (fun m fc => m.insert fc.path fc.change) m, ?_, fun p => ?_⟩
  · unfold collectVersion
    rw [hl]
    rfl
  · have hmap : l.foldl (fun m fc => m.insert fc.path fc.change) m =
        (l.map (fun fc => (fc.path, fc.change))).foldl (fun m q => m.insert q.1 q.2) m := by
      rw [List.foldl_map]
    rw [hmap, FMap.get_foldl_insert, FMap.get_ofList_of_mem_iff (f := changeOf T T')]
    intro p k
    rw [← hexact p k, List.mem_map]
    constructor
    · rintro ⟨fc, hfc, he⟩
      cases he
      exact hfc
    · exact fun hmem => ⟨⟨p, k⟩, hmem, rfl⟩

/-- What the versions since then come to: a file that is the same in all of them is not named, and any other one is
named with its last change. -/
theorem collectChanges_exact : ∀ (since : List (Text × FileTree)) (T : FileTree) (m : FMap Text ChangeKind),
    ExactChanges adapter T since → ∃ m', (since.map Prod.fst).foldlM (collectVersion adapter) m = .ok m' ∧
      ∀ p, ((∀ T' ∈ since.map Prod.snd, T'.get p = T.get p) ∧ m'.get p = m.get p) ∨
        ((∃ T' ∈ since.map Prod.snd, T'.get p ≠ T.get p) ∧
          ∃ k, m'.get p = some k ∧ (k = .removed ↔ ((since.map Prod.snd).getLastD T).get p = none))
  | [], T, m, _ => ⟨m, rfl, fun p => .inl ⟨by simp, rfl⟩⟩
  | (v, T') :: rest, T, m, ⟨⟨l, hl, hexact⟩, hrest⟩ => by
    obtain ⟨m₁, hstep, hm₁⟩ := collectVersion_exact hl hexact m
    obtain ⟨m₂, hfold, hm₂⟩ := collectChanges_exact rest T' m₁ hrest
    refine ⟨m₂, ?_, fun p => ?_⟩
    · rw [List.map_cons, List.foldlM_cons, hstep]
      exact hfold
    simp only [List.map_cons, List.forall_mem_cons, List.exists_mem_cons_iff, List.getLastD_cons]
    rcases hm₂ p with ⟨hsame, hget⟩ | ⟨hdiff, k, hget, hk⟩
    · have hlast : ((rest.map Prod.snd).getLastD T').get p = T'.get p := by
        rcases List.mem_cons.1 (List.getLastD_mem_cons (l := rest.map Prod.snd) (a := T')) with heq | hmem
        · rw [heq]
        · exact hsame _ hmem
      cases hc : changeOf T T' p with
      | none =>
        have he := changeOf_eq_none.1 hc
        refine .inl ⟨⟨he, fun T'' hT'' => (hsame T'' hT'').trans he⟩, ?_⟩
        rw [hget, hm₁, hc]
        rfl
      | some k =>
        refine .inr ⟨.inl fun he => ?_, k, ?_, ?_⟩
        · rw [changeOf_eq_none.2 he] at hc
          cases hc
        · rw [hget, hm₁, hc]
          rfl
        · rw [hlast]
          exact changeOf_eq_removed hc
    · refine .inr ⟨?_, k, hget, hk⟩
      by_cases he : T'.get p = T.get p
      · rw [he] at hdiff
        exact .inr hdiff
      · exact .inl he

/-- A version since then has another content of the file. -/
def History.Changed (h : History) (p : Text) : Prop := ∃ T ∈ h.since.map Prod.snd, T.get p ≠ h.base.get p

theorem changed_of_headTree_ne {p : Text} (hne : h.headTree.get p ≠ h.base.get p) : h.Changed p := by
  rcases List.mem_cons.1 (List.getLastD_mem_cons (l := h.since.map Prod.snd) (a := h.base)) with heq | hmem
  · exact absurd (by unfold History.headTree; rw [heq]) hne
  · exact ⟨_, hmem, hne⟩

theorem exists_tree_of_changed {p : Text} (hc : h.Changed p) : ∃ T ∈ h.trees, (T.get p).isSome := by
  obtain ⟨T, hT, hne⟩ := hc
  cases hget : T.get p with
  | some c => exact ⟨T, List.mem_cons_of_mem _ hT, by rw [hget]; rfl⟩
  | none =>
    refine ⟨h.base, List.mem_cons_self, ?_⟩
    rw [hget] at hne
    exact Option.isSome_iff_ne_none.2 hne.symm

theorem changed_of_gone {p : Text} (hsome : ∃ T ∈ h.trees, (T.get p).isSome) (hgone : h.headTree.get p = none) :
    h.Changed p := by
  obtain ⟨T, hT, hsome⟩ := hsome
  by_cases he : h.headTree.get p = h.base.get p
  · rcases List.mem_cons.1 hT with rfl | hT
    · rw [← he, hgone] at hsome
      cases hsome
    · refine ⟨T, hT, fun he' => ?_⟩
      rw [he', ← he, hgone] at hsome
      cases hsome
  · exact changed_of_headTree_ne he

theorem mem_pathsWhere {m : FMap Text ChangeKind} {keep : ChangeKind → Bool} {p : Text} :
    p ∈ pathsWhere m keep ↔ ∃ k, m.get p = some k ∧ keep k = true := by
  unfold pathsWhere
  rw [List.mem_insertionSort, List.mem_map]
  constructor
  · rintro ⟨⟨p', k⟩, hmem, rfl⟩
    obtain ⟨hpair, hkeep⟩ := List.mem_filter.1 hmem
    exact ⟨k, FMap.mem_pairs.1 hpair, hkeep⟩
  · rintro ⟨k, hget, hkeep⟩
    exact ⟨(p, k), List.mem_filter.2 ⟨FMap.mem_pairs.2 hget, hkeep⟩, rfl⟩

/-- A sync downloads the files that have changed and that HEAD has, and removes those that it has not. -/
theorem sync_changes (hx : Exact env adapter h) : ∃ m, collectChanges adapter (h.since.map Prod.fst) = .ok m ∧
    (∀ p, p ∈ pathsWhere m (fun k => k ≠ .removed) ↔ h.Changed p ∧ (h.headTree.get p).isSome) ∧
    ∀ p, p ∈ pathsWhere m (fun k => k = .removed) ↔ h.Changed p ∧ h.headTree.get p = none := by
  obtain ⟨m, hm, hget⟩ := collectChanges_exact h.since h.base ∅ hx.changes
  refine ⟨m, hm, fun p => ?_, fun p => ?_⟩ <;> rw [mem_pathsWhere] <;> rcases hget p with ⟨hsame, hnone⟩ | ⟨hdiff, k, hk, hrem⟩
  · rw [hnone]
    exact ⟨fun ⟨_, hk, _⟩ => (nomatch hk), fun ⟨⟨T, hT, hne⟩, _⟩ => absurd (hsame T hT) hne⟩
  · rw [hk]
    refine ⟨fun ⟨k', hk', hkeep⟩ => ⟨hdiff, ?_⟩, fun ⟨_, hsome⟩ => ⟨k, rfl, decide_eq_true fun he => ?_⟩⟩
    · cases hk'
      rw [Option.isSome_iff_ne_none]
      exact fun hnone => of_decide_eq_true hkeep (hrem.2 hnone)
    · have hnone : h.headTree.get p = none := hrem.1 he
      rw [hnone] at hsome
      cases hsome
  · rw [hnone]
    exact ⟨fun ⟨_, hk, _⟩ => (nomatch hk), fun ⟨⟨T, hT, hne⟩, _⟩ => absurd (hsame T hT) hne⟩
  · rw [hk]
    refine ⟨fun ⟨k', hk', hkeep⟩ => ⟨hdiff, ?_⟩, fun ⟨_, hnone⟩ => ⟨k, rfl, decide_eq_true (hrem.2 hnone)⟩⟩
    cases hk'
    exact hrem.1 (of_decide_eq_true hkeep)

theorem headVersion_mem {v : Text × FileTree} (hmem : v ∈ h.since) : h.headVersion ∈ h.since.map Prod.fst := by
  unfold History.headVersion
  cases hs : h.since with
  | nil =>
    rw [hs] at hmem
    exact absurd hmem List.not_mem_nil
  | cons v rest =>
    rw [List.map_cons, List.getLastD_cons]
    exact List.getLastD_mem_cons

theorem headVersion_ne {v : Text × FileTree} (hmem : v ∈ h.since) : h.headVersion ≠ h.localHead := by
  intro he
  have hnodup := (List.nodup_append.1 h.nodup).2.1
  rw [List.nodup_cons] at hnodup
  exact hnodup.1 (he ▸ headVersion_mem hmem)

theorem versionsAfter_exact (h : History) :
    versionsAfter h.localHead (h.older ++ h.localHead :: h.since.map Prod.fst) = .ok (h.since.map Prod.fst) := by
  have hfresh : h.localHead ∉ h.older := fun hmem => (List.nodup_append.1 h.nodup).2.2 _ hmem _ List.mem_cons_self rfl
  unfold versionsAfter
  rw [if_pos (List.mem_append_right _ List.mem_cons_self), List.idxOf_append_of_notMem hfresh, List.idxOf_cons_self]
  simp

/-! ## The files of `.vai/` -/

theorem trim_newline (v : Text) : Text.trim (v ++ ['\n']) = Text.trim v := by
  unfold Text.trim
  rw [List.dropWhile_append]
  split
  · rename_i hempty
    rw [List.isEmpty_iff.1 hempty]
    decide
  · unfold Text.trimEnd
    rw [List.reverse_append, List.reverse_singleton, List.singleton_append, List.dropWhile_cons_of_pos (by decide)]

/-- The files and directories of `.vai/` are the same. -/
structure KeptVai (root : List Name) (s s' : Local) : Prop where
  file : ∀ q, s'.tree.file (root ++ vaiDir :: q) = s.tree.file (root ++ vaiDir :: q)
  dirs : ∀ q, s'.tree.get (root ++ vaiDir :: q) = some .dir ↔ s.tree.get (root ++ vaiDir :: q) = some .dir

theorem KeptVai.trans {s₁ s₂ s₃ : Local} (h : KeptVai root s₁ s₂) (h' : KeptVai root s₂ s₃) : KeptVai root s₁ s₃ :=
  ⟨fun q => (h'.file q).trans (h.file q), fun q => (h'.dirs q).trans (h.dirs q)⟩

theorem metadata_of_dirs (hm : Metadata root s.tree)
    (h : ∀ q, s'.tree.get (root ++ vaiDir :: q) = some .dir ↔ s.tree.get (root ++ vaiDir :: q) = some .dir) :
    Metadata root s'.tree :=
  ⟨(h []).2 hm.vai, (h _).2 hm.versions, fun hd => hm.head ((h _).1 hd), fun name hd => hm.file name ((h _).1 hd)⟩

theorem ne_of_outside {p : Text} (hp : (components p).head? ≠ some vaiDir) (q : List Name) :
    root ++ vaiDir :: q ≠ root ++ components p := by
  intro he
  rw [← List.append_cancel_left he] at hp
  exact hp rfl

theorem filled_keptVai {T : Text → Option Bytes} {ps : List Text} (h : Filled root T s ps s')
    (hps : ∀ p ∈ ps, (components p).head? ≠ some vaiDir) : KeptVai root s s' := by
  refine ⟨fun q => h.rest _ fun p hp => ne_of_outside (hps p hp) q, fun q => ?_⟩
  rw [h.dirs]
  refine ⟨fun hd => hd.elim id ?_, .inl⟩
  rintro ⟨p, hp, a, ha, -, he⟩
  rw [← List.append_cancel_left he] at ha
  obtain ⟨b, hb⟩ := ha
  exact absurd (by rw [← hb]; rfl) (hps p hp)

theorem emptied_keptVai {rs : List Text} (h : Emptied root s rs s')
    (hrs : ∀ p ∈ rs, (components p).head? ≠ some vaiDir) : KeptVai root s s' :=
  ⟨fun q => h.rest _ fun p hp => ne_of_outside (hrs p hp) q, fun _ => h.dirs _⟩

theorem isFilePath_headFile : isFilePath headFile = true := by decide

theorem writeHead_ends (hm : Metadata root s.tree) (v : Text) : Ends (writeHead root v) s
    (fun _ s' => Metadata root s'.tree ∧ ∀ q, s'.tree.file q =
      if q = root ++ [vaiDir, "head".toList] then some (Text.intoBytes (v ++ ['\n'])) else s.tree.file q)
    (fun _ _ => False) := by
  obtain ⟨s', hrun⟩ : ∃ s', write root headFile (Text.intoBytes (v ++ ['\n'])) s = (.ok ⟨⟩, s') :=
    write_ok isFilePath_headFile hm.vai hm.head
  have hwrote := ((write_ends root headFile _ s).ok hrun).1
  rw [resolve_headFile] at hwrote
  refine ends_mapErr (ends_of_ok hrun ⟨metadata_of_dirs hm fun q => ?_, hwrote.put.file⟩)
  rw [hwrote.get]
  split
  · rename_i hq
    rw [hq]
    exact ⟨fun he => (nomatch he), fun hd => absurd hd hm.head⟩
  · exact Iff.rfl

theorem isFilePath_versionFile {since : Nat} {v : Text} (hv : since < parseVersionNum v) :
    isFilePath (versionFile v) = true ∧ components (versionFile v) = [vaiDir, "versions".toList, v ++ ".toml".toList] := by
  have hcs : components (versionFile v) = [vaiDir, "versions".toList, v ++ ".toml".toList] := by
    rw [versionFile_eq, components_joinNames (isName_versionFile hv)]
  refine ⟨isFilePath_iff.2 ⟨?_, ?_⟩, hcs⟩
  · rw [versionFile_eq]
    exact isPlain_joinNames (isName_versionFile hv) (by simp)
  · rw [hcs]
    intro c hc
    simp only [List.mem_cons, List.not_mem_nil, or_false] at hc
    rcases hc with rfl | rfl | rfl
    · decide
    · decide
    · rw [List.mem_append, not_or]
      exact ⟨not_mem_of_newer hv (by decide) (by decide) rfl, by decide⟩

theorem writeVersionMetas_ends (hm : Metadata root s.tree) {metas : List VersionMeta} (hpages : adapter.versionPages = .ok metas)
    (since : Nat) : Ends (writeVersionMetas env adapter root since) s
      (fun _ s' => ∀ q, ¬ root ++ [vaiDir, "versions".toList] <+: q → s'.tree.file q = s.tree.file q) (fun _ _ => False) := by
  refine ends_bind (ends_ofExcept (fun new hnew => ?_) fun e he => ?_)
  · split
    · exact ends_pure fun _ _ => rfl
    have hdirs : createDirAll root [vaiDir, "versions".toList] s = (.ok ⟨⟩, s) := by
      refine createDirAll_of_dirs (by decide) fun a hne ha => ?_
      rcases List.prefix_cons_iff.1 ha with rfl | ⟨a', rfl, ha'⟩
      · exact absurd rfl hne
      · rcases List.prefix_cons_iff.1 ha' with rfl | ⟨a'', rfl, ha''⟩
        · exact hm.vai
        · rw [List.prefix_nil.1 ha'']
          exact hm.versions
    refine Ends.bind (R := fun _ s' => s' = s) (ends_mapErr (ends_of_ok hdirs rfl)) (fun _ _ h => h) ?_
    rintro _ s₀ rfl
    refine (ends_forM (fun _ s' => Metadata root s'.tree ∧
      ∀ q, ¬ root ++ [vaiDir, "versions".toList] <+: q → s'.tree.file q = s₀.tree.file q) new [] _ ⟨hm, fun _ _ => rfl⟩ ?_).mono
      (fun _ _ h => h.2) fun _ _ h => h
    intro pre m post s₁ hsplit ⟨hm₁, hrest⟩
    obtain ⟨hpath, hcs⟩ := isFilePath_versionFile (newer_of_fetched hnew (m := m) (by
      rw [← List.nil_append new, hsplit]
      exact List.mem_append_right _ List.mem_cons_self))
    obtain ⟨s₂, hrun⟩ : ∃ s₂, write root (versionFile m.versionId) (env.versionToml m) s₁ = (.ok ⟨⟩, s₂) :=
      write_ok hpath (by rw [hcs]; exact hm₁.versions) (by rw [hcs]; exact hm₁.file _)
    have hwrote := ((write_ends root _ _ s₁).ok hrun).1
    rw [resolve_of_isPlain (isFilePath_iff.1 hpath).1, hcs] at hwrote
    refine ends_mapErr (ends_of_ok hrun ⟨metadata_of_dirs hm₁ fun q => ?_, fun q hq => ?_⟩)
    · rw [hwrote.get]
      split
      · rename_i he
        rw [he]
        exact ⟨fun he => (nomatch he), fun hd => absurd hd (hm₁.file _)⟩
      · exact Iff.rfl
    · rw [hwrote.put.file, if_neg, hrest q hq]
      rintro rfl
      exact hq ((List.prefix_append_right_inj root).2 ⟨[m.versionId ++ ".toml".toList], rfl⟩)
  · unfold RemoteAdapter.fetchVersionsSince at he
    rw [hpages] at he
    cases he

/-! ## Writes, and then removals -/

variable {ps rs : List Text} {s₁ s₂ : Local}

theorem mirrors_of_phases (hmirrors : Mirrors root h.base s.tree) (hfilled : Filled root h.headTree.get s ps s₁)
    (hemptied : Emptied root s₁ rs s₂) (hps : ∀ p ∈ ps, isPlain p = true)
    (hrs : ∀ r ∈ rs, isPlain r = true ∧ h.headTree.get r = none)
    (hall : ∀ p, h.headTree.get p ≠ h.base.get p → p ∈ ps ∨ p ∈ rs) : Mirrors root h.headTree s₂.tree := by
  intro p hp hvai
  have hne : ∀ p', isPlain p' = true → p ≠ p' → root ++ components p ≠ root ++ components p' := fun p' hp' hne he =>
    hne (eq_of_components hp hp' (List.append_cancel_left he))
  by_cases hr : p ∈ rs
  · rw [hemptied.removed p hr, (hrs p hr).2]
  rw [hemptied.rest _ fun r hmem => hne r (hrs r hmem).1 fun he => hr (he ▸ hmem)]
  by_cases hw : p ∈ ps
  · exact hfilled.written p hw
  rw [hfilled.rest _ fun w hmem => hne w (hps w hmem) fun he => hw (he ▸ hmem), hmirrors p hp hvai]
  by_contra hdiff
  rcases hall p fun he => hdiff he.symm with hmem | hmem
  · exact hw hmem
  · exact hr hmem

/-- HEAD is written last, and the files of the working tree stay. -/
theorem converged_of_head (hmirrors : Mirrors root h.headTree s.tree) (hv : Text.trim h.headVersion = h.headVersion)
    (hfile : ∀ q, ¬ root ++ [vaiDir, "versions".toList] <+: q → s'.tree.file q =
      if q = root ++ [vaiDir, "head".toList] then some (Text.intoBytes (h.headVersion ++ ['\n'])) else s.tree.file q) :
    Converged root h s'.tree := by
  refine ⟨?_, fun p hp hvai => ?_⟩
  · unfold headIn
    rw [hfile _ (by rw [List.prefix_append_right_inj]; decide), if_pos rfl, Option.bind_some, Text.fromUtf8_intoBytes,
      Option.map_some, trim_newline, hv]
  · rw [hfile, if_neg (ne_of_outside hvai _).symm, hmirrors p hp hvai]
    rintro ⟨b, hb⟩
    rw [List.append_assoc] at hb
    exact ne_of_outside hvai _ hb

theorem beside_of_flat {T : FileTree} {p p' : Text} (hp : (T.get p).isSome) (hp' : (T.get p').isSome) : Beside p p' := by
  rintro (hle | hle)
  · exact T.flat p p' hp hp' hle
  · exact (T.flat p' p hp' hp hle).symm

/-! ## Sync -/

theorem root_dir (hm : Metadata root s.tree) : s.tree.get root = some .dir :=
  s.tree.dir_above [vaiDir] (by simp) (by rw [hm.vai]; rfl)

/-- The downloads of a sync succeed just when nothing is in their way. -/
theorem downloads_end (hx : Exact env adapter h) (hc : IsClone root h s.tree) {ps : List Text}
    (hps : ∀ p ∈ ps, (h.headTree.get p).isSome) : Ends (ps.forM (syncDownload adapter root)) s
      (fun _ s' => Filled root h.headTree.get s ps s' ∧ ∀ p ∈ ps, Clear root s.tree p)
      (fun _ _ => ∃ p ∈ ps, ¬ Clear root s.tree p) := by
  refine ends_forM (fun pre s' => Filled root h.headTree.get s pre s' ∧ ∀ p ∈ pre, Clear root s.tree p) ps [] s
    ⟨filled_nil s, by simp⟩ ?_
  intro pre p post s₁ hsplit ⟨hfilled, hclear⟩
  rw [List.nil_append] at hsplit
  have hmem : ∀ x ∈ pre ++ [p], x ∈ ps := by
    intro x hx
    rw [hsplit]
    simp only [List.mem_append, List.mem_cons] at hx ⊢
    tauto
  have hpath : ∀ x ∈ pre ++ [p], isFilePath x = true := fun x hx => (h.headTree.paths x (hps x (hmem x hx))).1
  obtain ⟨c, hget⟩ := Option.isSome_iff_exists.1 (hps p (hmem p (by simp)))
  refine ends_bind (ends_ofExcept (fun content hcontent => ?_) fun e he => ?_)
  · rw [hx.download p c hget] at hcontent
    cases hcontent
    refine ends_mapErr ((hfilled.install_ends (root_dir hc.metadata) (fun x hx => (isFilePath_iff.1 (hpath x
      (List.mem_append_left _ hx))).1) (fun x hx => beside_of_flat (hps x (hmem x (List.mem_append_left _ hx)))
      (hps p (hmem p (by simp)))) (hpath p (by simp)) hget).mono (fun _ _ hq => ⟨hq.1, fun x hx => ?_⟩) fun _ _ he => ?_)
    · rcases List.mem_append.1 hx with hx | hx
      · exact hclear x hx
      · rw [List.mem_singleton.1 hx]
        exact hq.2
    · exact ⟨p, hmem p (by simp), he⟩
  · rw [hx.download p c hget] at he
    cases he

theorem discards_end {rs : List Text} (hrs : ∀ r ∈ rs, isFilePath r = true) :
    Ends (rs.forM (fun path => mapErr RemoteError.io (discard root path))) s
      (fun _ s' => Emptied root s rs s' ∧ ∀ r ∈ rs, s.tree.get (root ++ components r) ≠ some .dir)
      (fun _ _ => ∃ r ∈ rs, s.tree.get (root ++ components r) = some .dir) := by
  refine ends_forM (fun pre s' => Emptied root s pre s' ∧ ∀ r ∈ pre, s.tree.get (root ++ components r) ≠ some .dir) rs [] s
    ⟨emptied_nil s, by simp⟩ ?_
  intro pre r post s₁ hsplit ⟨hemptied, hplace⟩
  have hmem : r ∈ rs := by
    rw [← List.nil_append rs, hsplit]
    exact List.mem_append_right _ List.mem_cons_self
  refine ends_mapErr ((hemptied.discard_ends (hrs r hmem)).mono (fun _ _ hq => ⟨hq.1, fun x hx => ?_⟩) fun _ _ he =>
    ⟨r, hmem, he⟩)
  rcases List.mem_append.1 hx with hx | hx
  · exact hplace x hx
  · rw [List.mem_singleton.1 hx]
    exact hq.2

/-- What a sync downloads, and what it removes. -/
structure Sorted (h : History) (ps rs : List Text) : Prop where
  writes : ∀ p, p ∈ ps ↔ h.Changed p ∧ (h.headTree.get p).isSome
  removals : ∀ p, p ∈ rs ↔ h.Changed p ∧ h.headTree.get p = none

theorem Sorted.paths (hps : Sorted h ps rs) : (∀ p ∈ ps, isFilePath p = true ∧ (components p).head? ≠ some vaiDir) ∧
    ∀ r ∈ rs, isFilePath r = true ∧ (components r).head? ≠ some vaiDir := by
  refine ⟨fun p hp => h.headTree.paths p ((hps.writes p).1 hp).2, fun r hr => ?_⟩
  obtain ⟨T, -, hT⟩ := exists_tree_of_changed ((hps.removals r).1 hr).1
  exact T.paths r hT

/-- A file that HEAD has, and whose place is taken in the clone, is one that has changed. -/
theorem not_smooth_of_blocked (hc : IsClone root h s.tree) {p : Text} (hp : (h.headTree.get p).isSome)
    (hblocked : ¬ Clear root s.tree p) : ¬ Smooth root h s.tree := by
  intro hsmooth
  by_cases he : h.headTree.get p = h.base.get p
  · obtain ⟨hpath, hvai⟩ := h.headTree.paths p hp
    refine hblocked (clear_of_file ?_)
    rw [hc.mirrors p (isFilePath_iff.1 hpath).1 hvai, ← he]
    exact hp
  · exact hblocked (hsmooth.writes p hp he)

theorem not_smooth_of_dir (hps : Sorted h ps rs) (hfilled : Filled root h.headTree.get s ps s₁) {r : Text} (hr : r ∈ rs)
    (hdir : s₁.tree.get (root ++ components r) = some .dir) : ¬ Smooth root h s.tree := by
  intro hsmooth
  obtain ⟨hch, hnone⟩ := (hps.removals r).1 hr
  obtain ⟨hplace, hbelow⟩ := hsmooth.removals r (exists_tree_of_changed hch) hnone
  rcases (hfilled.dirs _).1 hdir with hdir | ⟨p, hp, a, ha, -, he⟩
  · exact hplace hdir
  · rw [← List.append_cancel_left he] at ha
    exact hbelow p ((hps.writes p).1 hp).2 ha

theorem smooth_of_done (hc : IsClone root h s.tree) (hps : Sorted h ps rs) (hfilled : Filled root h.headTree.get s ps s₁)
    (hclear : ∀ p ∈ ps, Clear root s.tree p) (hplace : ∀ r ∈ rs, s₁.tree.get (root ++ components r) ≠ some .dir) :
    Smooth root h s.tree := by
  refine ⟨fun p hp hne => hclear p ((hps.writes p).2 ⟨changed_of_headTree_ne hne, hp⟩), fun r hr hgone => ?_⟩
  have hmem := (hps.removals r).2 ⟨changed_of_gone hr hgone, hgone⟩
  have hnot : s.tree.get (root ++ components r) ≠ some .dir := fun hdir => hplace r hmem ((hfilled.dirs _).2 (.inl hdir))
  refine ⟨hnot, fun w hw hle => ?_⟩
  obtain ⟨hpath, hvai⟩ := h.headTree.paths w hw
  have hplain := (isFilePath_iff.1 hpath).1
  have hlt : components r ≠ components w := by
    intro he
    rw [eq_of_components (isFilePath_iff.1 (hps.paths.2 r hmem).1).1 hplain he] at hgone
    rw [hgone] at hw
    cases hw
  by_cases hch : h.Changed w
  · exact hplace r hmem ((hfilled.dirs _).2 (.inr ⟨w, (hps.writes w).2 ⟨hch, hw⟩, components r, hle, hlt, rfl⟩))
  · -- an unchanged file below the path is one of the clone's files
    have hsame : h.headTree.get w = h.base.get w := by_contra fun hne => hch (changed_of_headTree_ne hne)
    have hfile := hc.mirrors w hplain hvai
    rw [← hsame] at hfile
    obtain ⟨c, hget⟩ := Option.isSome_iff_exists.1 hw
    rw [hget] at hfile
    refine hnot (s.tree.dir_of_prefix ((List.prefix_append_right_inj root).2 hle) (fun he => hlt (List.append_cancel_left he)) ?_)
    rw [Tree.file_eq_some.1 hfile]
    rfl

theorem readLocalHead_ok {v : Text} (hv : headIn root s.tree = some v) : readLocalHead root s = (.ok v, s) := by
  rcases hrun : readLocalHead root s with ⟨e | v', s'⟩
  · unfold headIn at hv
    unfold readLocalHead at hrun
    rw [bind_of_ok (read_apply _ s)] at hrun
    cases hfile : s.tree.file (root ++ [vaiDir, "head".toList]) with
    | none =>
      rw [hfile] at hv
      cases hv
    | some bytes =>
      rw [hfile, Option.bind_some] at hv
      rw [hfile] at hrun
      dsimp only at hrun
      cases hutf : Text.fromUtf8 bytes with
      | none =>
        rw [hutf] at hv
        cases hv
      | some raw =>
        rw [hutf] at hrun
        cases hrun
  · obtain ⟨rfl, hv'⟩ := (readLocalHead_ends s).ok hrun
    rw [hv] at hv'
    cases hv'
    rfl

theorem sync_ends (hx : Exact env adapter h) (hc : IsClone root h s.tree) : Ends (sync adapter root) s
    (fun _ s' => Converged root h s'.tree ∧ Smooth root h s.tree) (fun _ _ => ¬ Smooth root h s.tree) := by
  refine ends_bind_of_ok (readLocalHead_ok hc.head) ?_
  rw [hx.serverHead]
  refine ends_bind_of_ok rfl ?_
  by_cases hsince : h.since = []
  · have hhead : h.headVersion = h.localHead := by
      unfold History.headVersion
      rw [hsince]
      rfl
    have htree : h.headTree = h.base := by
      unfold History.headTree
      rw [hsince]
      rfl
    rw [if_pos hhead.symm]
    refine ends_pure ⟨⟨hhead ▸ hc.head, htree ▸ hc.mirrors⟩, fun p _ hne => ?_, fun p hsome hgone => ?_⟩
    · rw [htree] at hne
      exact absurd rfl hne
    · obtain ⟨T, hT, -⟩ := changed_of_gone hsome hgone
      rw [hsince] at hT
      exact absurd hT List.not_mem_nil
  · obtain ⟨v, hv⟩ := List.exists_mem_of_ne_nil _ hsince
    rw [if_neg (headVersion_ne hv).symm, hx.versions]
    refine ends_bind_of_ok rfl ?_
    rw [versionsAfter_exact]
    refine ends_bind_of_ok rfl ?_
    obtain ⟨m, hm, hwrites, hremovals⟩ := sync_changes hx
    rw [hm]
    refine ends_bind_of_ok rfl ?_
    have hps : Sorted h (pathsWhere m fun k => k ≠ .removed) (pathsWhere m fun k => k = .removed) := ⟨hwrites, hremovals⟩
    refine Ends.bind (downloads_end hx hc fun p hp => ((hps.writes p).1 hp).2) (fun _ _ he => ?_) ?_
    · obtain ⟨p, hp, hblocked⟩ := he
      exact not_smooth_of_blocked hc ((hps.writes p).1 hp).2 hblocked
    rintro _ s₁ ⟨hfilled, hclear⟩
    refine Ends.bind (discards_end fun r hr => (hps.paths.2 r hr).1) (fun _ _ he => ?_) ?_
    · obtain ⟨r, hr, hdir⟩ := he
      exact not_smooth_of_dir hps hfilled hr hdir
    rintro _ s₂ ⟨hemptied, hplace⟩
    have hkept := (filled_keptVai hfilled fun p hp => (hps.paths.1 p hp).2).trans
      (emptied_keptVai hemptied fun r hr => (hps.paths.2 r hr).2)
    refine (writeHead_ends (metadata_of_dirs hc.metadata hkept.dirs) h.headVersion).bind (fun _ _ he => he.elim) ?_
    rintro _ s₃ ⟨-, hfile⟩
    refine ends_pure ⟨converged_of_head ?_ ?_ fun q _ => hfile q, smooth_of_done hc hps hfilled hclear hplace⟩
    · refine mirrors_of_phases hc.mirrors hfilled hemptied (fun p hp => (isFilePath_iff.1 (hps.paths.1 p hp).1).1)
        (fun r hr => ⟨(isFilePath_iff.1 (hps.paths.2 r hr).1).1, ((hps.removals r).1 hr).2⟩) fun p hne => ?_
      rw [hps.writes, hps.removals]
      have hch := changed_of_headTree_ne hne
      cases hget : h.headTree.get p with
      | none => exact .inr ⟨hch, rfl⟩
      | some c => exact .inl ⟨hch, rfl⟩
    · exact h.trimmed _ (headVersion_mem hv)

/-! ## Pull -/

theorem entries_end {files : List FilePullEntry} (hc : IsClone root h s.tree)
    (hfiles : ∀ e ∈ files, ∃ b64 c, e.contentBase64 = some b64 ∧ env.base64Decode b64 = .ok c ∧ h.headTree.get e.path = some c) :
    Ends (files.foldlM (pullEntry env root) []) s
      (fun _ s' => Filled root h.headTree.get s (files.map FilePullEntry.path) s' ∧ ∀ e ∈ files, Clear root s.tree e.path)
      (fun _ _ => ∃ e ∈ files, ¬ Clear root s.tree e.path) := by
  have hget : ∀ e ∈ files, (h.headTree.get e.path).isSome := by
    intro e he
    obtain ⟨_, c, -, -, hc⟩ := hfiles e he
    rw [hc]
    rfl
  refine ends_foldlM (fun pre (_ : List Text) s' => Filled root h.headTree.get s (pre.map FilePullEntry.path) s' ∧
    ∀ e ∈ pre, Clear root s.tree e.path) files [] [] s ⟨filled_nil s, by simp⟩ ?_
  intro pre e post updated s₁ hsplit ⟨hfilled, hclear⟩
  rw [List.nil_append] at hsplit
  have hpre : ∀ x ∈ pre, x ∈ files := fun x hx => hsplit ▸ List.mem_append_left _ hx
  have hmem : e ∈ files := hsplit ▸ List.mem_append_right _ List.mem_cons_self
  have hsome : ∀ p ∈ pre.map FilePullEntry.path, (h.headTree.get p).isSome := by
    intro p hp
    obtain ⟨x, hx, rfl⟩ := List.mem_map.1 hp
    exact hget x (hpre x hx)
  obtain ⟨b64, c, hb64, hdecode, hcontent⟩ := hfiles e hmem
  unfold pullEntry
  rw [hb64]
  dsimp only
  rw [hdecode]
  refine ends_bind_of_ok rfl (Ends.bind (ends_mapErr (hfilled.install_ends (root_dir hc.metadata)
    (fun p hp => (isFilePath_iff.1 (h.headTree.paths p (hsome p hp)).1).1) (fun p hp => beside_of_flat (hsome p hp)
    (hget e hmem)) (h.headTree.paths e.path (hget e hmem)).1 hcontent)) (fun _ _ he => ⟨e, hmem, he⟩) ?_)
  rintro _ s₂ ⟨hfilled', hclear'⟩
  refine ends_pure ⟨by rw [List.map_append]; exact hfilled', fun x hx => ?_⟩
  rcases List.mem_append.1 hx with hx | hx
  · exact hclear x hx
  · rw [List.mem_singleton.1 hx]
    exact hclear'

theorem removals_end {files : List FilePullEntry} (hfiles : ∀ e ∈ files, isFilePath e.path = true) :
    Ends (files.foldlM (removeEntry root) []) s (fun _ s' => Emptied root s (files.map FilePullEntry.path) s')
      (fun _ _ => ∃ e ∈ files, s.tree.get (root ++ components e.path) = some .dir) := by
  refine ends_foldlM (fun pre (_ : List Text) s' => Emptied root s (pre.map FilePullEntry.path) s') files [] [] s
    (emptied_nil s) ?_
  intro pre e post removed s₁ hsplit hemptied
  have hmem : e ∈ files := by
    rw [← List.nil_append files, hsplit]
    exact List.mem_append_right _ List.mem_cons_self
  refine Ends.bind (ends_mapErr (hemptied.discard_ends (hfiles e hmem))) (fun _ _ he => ⟨e, hmem, he⟩) ?_
  rintro _ s₂ ⟨hemptied', -⟩
  refine ends_pure ?_
  rw [List.map_append]
  exact hemptied'

/-- Pass 1 comes to the tree of HEAD, or something is in its way. -/
theorem firstPass_converges {files : List FilePullEntry} (hc : IsClone root h s.tree)
    (hnet : ∀ p k, (∃ e ∈ files, e.path = p ∧ e.change = k) ↔ changeOf h.base h.headTree p = some k)
    (hcontent : ∀ e ∈ files, e.change ≠ .removed → ∃ b64 c, e.contentBase64 = some b64 ∧ env.base64Decode b64 = .ok c ∧
      h.headTree.get e.path = some c) :
    Ends (firstPass env root h.localHead ⟨h.headVersion, files⟩) s
      (fun _ s' => (Mirrors root h.headTree s'.tree ∧ KeptVai root s s') ∧
        ∀ p, (h.headTree.get p).isSome → h.headTree.get p ≠ h.base.get p → Clear root s.tree p)
      (fun _ _ => ∃ p, (h.headTree.get p).isSome ∧ h.headTree.get p ≠ h.base.get p ∧ ¬ Clear root s.tree p) := by
  have hchange : ∀ e ∈ files, changeOf h.base h.headTree e.path = some e.change := fun e he =>
    (hnet e.path e.change).1 ⟨e, he, rfl, rfl⟩
  have hdiff : ∀ e ∈ files, h.headTree.get e.path ≠ h.base.get e.path := by
    intro e he heq
    have := hchange e he
    rw [changeOf_eq_none.2 heq] at this
    cases this
  unfold firstPass
  by_cases hnew : h.headVersion ≠ h.localHead ∧ files ≠ []
  · rw [if_pos hnew]
    have hw : ∀ e ∈ files.filter (fun e => e.change ≠ .removed), e ∈ files ∧ (h.headTree.get e.path).isSome := by
      intro e he
      obtain ⟨hmem, hkind⟩ := List.mem_filter.1 he
      obtain ⟨_, c, -, -, hget⟩ := hcontent e hmem (of_decide_eq_true hkind)
      exact ⟨hmem, by rw [hget]; rfl⟩
    have hr : ∀ e ∈ files.filter (fun e => e.change = .removed), h.headTree.get e.path = none ∧
        (h.base.get e.path).isSome := by
      intro e he
      obtain ⟨hmem, hkind⟩ := List.mem_filter.1 he
      have hnone := (changeOf_eq_removed (hchange e hmem)).1 (of_decide_eq_true hkind)
      refine ⟨hnone, Option.isSome_iff_ne_none.2 fun hbase => hdiff e hmem ?_⟩
      rw [hnone, hbase]
    refine Ends.bind (entries_end hc fun e he => hcontent e (hw e he).1 (of_decide_eq_true (List.mem_filter.1 he).2)) ?_ ?_
    · rintro _ _ ⟨e, he, hblocked⟩
      exact ⟨e.path, (hw e he).2, hdiff e (hw e he).1, hblocked⟩
    rintro updated s₁ ⟨hfilled, hclear⟩
    refine Ends.bind (removals_end fun e he => (h.base.paths e.path (hr e he).2).1) ?_ ?_
    · rintro _ _ ⟨e, he, hdir⟩
      -- a file of the clone is no directory, and a path below it would not have been written
      obtain ⟨hpath, hvai⟩ := h.base.paths e.path (hr e he).2
      obtain ⟨c, hbase⟩ := Option.isSome_iff_exists.1 (hr e he).2
      have hfile := (hc.mirrors e.path (isFilePath_iff.1 hpath).1 hvai).trans hbase
      rcases (hfilled.dirs _).1 hdir with hdir | ⟨p, hp, a, ha, hlt, heq⟩
      · rw [Tree.file_of_dir hdir] at hfile
        cases hfile
      · obtain ⟨w, hmem, rfl⟩ := List.mem_map.1 hp
        have heq := List.append_cancel_left heq
        have hnone := (hclear w hmem).above a ha hlt
        rw [← heq, hfile] at hnone
        cases hnone
    rintro removed s₂ hemptied
    have hps : ∀ p ∈ (files.filter (fun e => e.change ≠ .removed)).map FilePullEntry.path, (h.headTree.get p).isSome := by
      intro p hp
      obtain ⟨e, he, rfl⟩ := List.mem_map.1 hp
      exact (hw e he).2
    have hrs : ∀ p ∈ (files.filter (fun e => e.change = .removed)).map FilePullEntry.path,
        h.headTree.get p = none ∧ (h.base.get p).isSome := by
      intro p hp
      obtain ⟨e, he, rfl⟩ := List.mem_map.1 hp
      exact hr e he
    have hmem : ∀ p, h.headTree.get p ≠ h.base.get p → ∃ e ∈ files, e.path = p := by
      intro p hne
      cases hk : changeOf h.base h.headTree p with
      | none => exact absurd (changeOf_eq_none.1 hk) hne
      | some k =>
        obtain ⟨e, he, hp, -⟩ := (hnet p k).2 hk
        exact ⟨e, he, hp⟩
    refine ends_pure ⟨⟨?_, ?_⟩, fun p hp hne => ?_⟩
    · refine mirrors_of_phases hc.mirrors hfilled hemptied (fun p hp => (isFilePath_iff.1 (h.headTree.paths p (hps p hp)).1).1)
        (fun p hp => ⟨(isFilePath_iff.1 (h.base.paths p (hrs p hp).2).1).1, (hrs p hp).1⟩) fun p hne => ?_
      obtain ⟨e, he, rfl⟩ := hmem p hne
      by_cases hkind : e.change = .removed
      · exact .inr (List.mem_map.2 ⟨e, List.mem_filter.2 ⟨he, decide_eq_true hkind⟩, rfl⟩)
      · exact .inl (List.mem_map.2 ⟨e, List.mem_filter.2 ⟨he, decide_eq_true hkind⟩, rfl⟩)
    · exact (filled_keptVai hfilled fun p hp => (h.headTree.paths p (hps p hp)).2).trans
        (emptied_keptVai hemptied fun p hp => (h.base.paths p (hrs p hp).2).2)
    · obtain ⟨e, he, rfl⟩ := hmem p hne
      refine hclear e (List.mem_filter.2 ⟨he, decide_eq_true fun hkind => ?_⟩)
      rw [(changeOf_eq_removed (hchange e he)).1 hkind] at hp
      cases hp
  · rw [if_neg hnew]
    have hsame : ∀ p, h.headTree.get p = h.base.get p := by
      intro p
      by_contra hne
      obtain ⟨T, hT, -⟩ := changed_of_headTree_ne hne
      obtain ⟨v, hv, -⟩ := List.mem_map.1 hT
      have hempty : files = [] := by_contra fun hfiles => hnew ⟨headVersion_ne hv, hfiles⟩
      cases hk : changeOf h.base h.headTree p with
      | none => exact hne (changeOf_eq_none.1 hk)
      | some k =>
        obtain ⟨e, he, -⟩ := (hnet p k).2 hk
        rw [hempty] at he
        exact absurd he List.not_mem_nil
    refine ends_pure ⟨⟨fun p hp hvai => ?_, fun _ => rfl, fun _ => Iff.rfl⟩, fun p _ hne => absurd (hsame p) hne⟩
    rw [hsame]
    exact hc.mirrors p hp hvai

theorem restorePass_converges (hx : Exact env adapter h) (hm : Metadata root s.tree) (hmirrors : Mirrors root h.headTree s.tree)
    (updated : List Text) : Ends (restorePass env adapter root updated) s
      (fun _ s' => Mirrors root h.headTree s'.tree ∧ KeptVai root s s') (fun _ _ => False) := by
  obtain ⟨manifest, hman, hfiles⟩ := hx.manifest
  unfold restorePass
  rw [hman]
  refine ends_bind_of_ok rfl (ends_bind (ends_read ?_))
  have hloop := ends_foldlM (f := restoreEntry adapter root (collectLocalHashes env root s.tree) updated)
    (E := fun _ _ => False) (fun _ (_ : List Text) s' => ∃ ps, Filled root h.headTree.get s ps s' ∧
      ∀ p ∈ ps, (h.headTree.get p).isSome) manifest.files [] [] s ⟨[], filled_nil s, by simp⟩ ?_
  · refine hloop.mono (fun _ s' ⟨ps, hfilled, hps⟩ => ⟨fun p hp hvai => ?_, ?_⟩) fun _ _ he => he
    · by_cases hmem : p ∈ ps
      · exact hfilled.written p hmem
      · rw [hfilled.rest, hmirrors p hp hvai]
        intro p' hp' he
        have hplain := (isFilePath_iff.1 (h.headTree.paths p' (hps p' hp')).1).1
        exact hmem (eq_of_components hp hplain (List.append_cancel_left he) ▸ hp')
    · exact filled_keptVai hfilled fun p hp => (h.headTree.paths p (hps p hp)).2
  · intro pre e post restored s₁ hsplit ⟨ps, hfilled, hps⟩
    unfold restoreEntry
    split
    · exact ends_pure ⟨ps, hfilled, hps⟩
    have hsome : (h.headTree.get e.path).isSome := (hfiles e.path).1 ⟨e, by
      rw [← List.nil_append manifest.files, hsplit]
      exact List.mem_append_right _ List.mem_cons_self, rfl⟩
    obtain ⟨c, hget⟩ := Option.isSome_iff_exists.1 hsome
    obtain ⟨hpath, hvai⟩ := h.headTree.paths e.path hsome
    have hinstall : Ends (mapErr RemoteError.io (install root e.path c)) s₁ _ (fun _ _ => ¬ Clear root s.tree e.path) :=
      ends_mapErr (hfilled.install_ends (root_dir hm) (fun p hp => (isFilePath_iff.1 (h.headTree.paths p (hps p hp)).1).1)
        (fun p hp => beside_of_flat (hps p hp) hsome) hpath hget)
    rw [hx.download e.path c hget]
    refine ends_bind_of_ok rfl (hinstall.bind (fun _ _ hblocked => hblocked (clear_of_file ?_)) fun _ s₂ hq => ?_)
    · rw [hmirrors e.path (isFilePath_iff.1 hpath).1 hvai]
      exact hsome
    · refine ends_pure ⟨ps ++ [e.path], hq.1, fun p hp => ?_⟩
      rcases List.mem_append.1 hp with hp | hp
      · exact hps p hp
      · rw [List.mem_singleton.1 hp]
        exact hsome

theorem pull_ends (hx : Exact env adapter h) (hc : IsClone root h s.tree) : Ends (pull env adapter root) s
    (fun _ s' => Converged root h s'.tree ∧
      ∀ p, (h.headTree.get p).isSome → h.headTree.get p ≠ h.base.get p → Clear root s.tree p)
    (fun _ _ => ¬ Smooth root h s.tree) := by
  obtain ⟨files, hpull, hnet, hcontent⟩ := hx.net
  obtain ⟨metas, hpages⟩ := hx.pages
  refine ends_bind_of_ok (readLocalHead_ok hc.head) ?_
  rw [hpull]
  refine ends_bind_of_ok rfl ?_
  refine (firstPass_converges hc hnet hcontent).bind ?_ ?_
  · rintro _ _ ⟨p, hp, hne, hblocked⟩ hsmooth
    exact hblocked (hsmooth.writes p hp hne)
  rintro ⟨updated, removed⟩ s₁ ⟨⟨hmirrors₁, hkept₁⟩, hclear⟩
  have hm₁ := metadata_of_dirs hc.metadata hkept₁.dirs
  refine (restorePass_converges hx hm₁ hmirrors₁ updated).bind (fun _ _ he => he.elim) ?_
  rintro restored s₂ ⟨hmirrors₂, hkept₂⟩
  have hm₂ := metadata_of_dirs hm₁ hkept₂.dirs
  have hfinish : Ends (finishPull env adapter root h.localHead h.headVersion) s₂ (fun _ s' => Converged root h s'.tree)
      (fun _ _ => False) := by
    unfold finishPull
    by_cases hnew : h.headVersion ≠ h.localHead
    · rw [if_pos hnew]
      refine (writeHead_ends hm₂ h.headVersion).bind (fun _ _ he => he) ?_
      rintro _ s₃ ⟨hm₃, hfile₃⟩
      refine (writeVersionMetas_ends hm₃ hpages _).mono (fun _ s₄ hfile₄ => ?_) fun _ _ he => he
      refine converged_of_head hmirrors₂ (h.trimmed _ ?_) fun q hq => (hfile₄ q hq).trans (hfile₃ q)
      rcases hsince : h.since with _ | ⟨v, rest⟩
      · exact absurd (by unfold History.headVersion; rw [hsince]; rfl) hnew
      · exact hsince ▸ headVersion_mem (v := v) (by rw [hsince]; exact List.mem_cons_self)
    · rw [if_neg hnew]
      refine ends_pure ⟨?_, hmirrors₂⟩
      unfold headIn
      rw [hkept₂.file, hkept₁.file, not_not.1 hnew]
      exact hc.head
  exact hfinish.bind (fun _ _ he => he.elim) fun _ s₃ hconv => ends_pure ⟨hconv, hclear⟩

/-! ## The main result -/

theorem isOk_of_ends {ε α : Type} {m : Proc Local ε α} {Q : α → Local → Prop} {P : Prop} (hends : Ends m s Q (fun _ _ => ¬ P))
    (hP : P) : (m s).1.isOk = true := by
  rcases hm : m s with ⟨e | a, s'⟩
  · exact absurd hP (hends.error hm)
  · rfl

/-- **A pull and a sync that end well have come to HEAD, and both end well just when the change is smooth.** -/
theorem pull_and_sync_converge (hx : Exact env adapter h) (hc : IsClone root h s.tree) :
    (∀ out s', pull env adapter root s = (.ok out, s') → Converged root h s'.tree) ∧
    (∀ out s', sync adapter root s = (.ok out, s') → Converged root h s'.tree) ∧
    ((pull env adapter root s).1.isOk = true ∧ (sync adapter root s).1.isOk = true ↔ Smooth root h s.tree) := by
  have hpull := pull_ends hx hc
  have hsync := sync_ends hx hc
  refine ⟨fun out s' hrun => (hpull.ok hrun).1, fun out s' hrun => (hsync.ok hrun).1, fun hok => ?_, fun hsmooth => ?_⟩
  · rcases hrun : sync adapter root s with ⟨e | out, s'⟩
    · rw [hrun] at hok
      cases hok.2
    · exact (hsync.ok hrun).2
  · exact ⟨isOk_of_ends hpull hsmooth, isOk_of_ends hsync hsmooth⟩

/-! ## A file that is moved -/

/-- A tree with one file, which is empty. -/
def FileTree.single (p : Text) (hp : isFilePath p = true ∧ (components p).head? ≠ some vaiDir) : FileTree where
  files := AList.insert p [] ∅
  paths q hq := by
    rw [FMap.get_insert] at hq
    split at hq
    · rename_i he
      exact he ▸ hp
    · cases hq
  flat q q' hq hq' _ := by
    rw [FMap.get_insert] at hq hq'
    split at hq
    · rename_i he
      split at hq'
      · rename_i he'
        rw [he, he']
      · cases hq'
    · cases hq

theorem FileTree.get_single {p : Text} (hp : isFilePath p = true ∧ (components p).head? ≠ some vaiDir) (q : Text) :
    (FileTree.single p hp).get q = if q = p then some [] else none := FMap.get_insert ∅ p [] q

section Moved

variable (p q : Text) (hp : isFilePath p = true ∧ (components p).head? ≠ some vaiDir)
  (hq : isFilePath q = true ∧ (components q).head? ≠ some vaiDir)

/-- From `v1` to `v2` the file `p` becomes the file `q`. -/
def moved : History where
  older := []
  localHead := "v1".toList
  base := FileTree.single p hp
  since := [("v2".toList, FileTree.single q hq)]
  nodup := (by decide : ["v1".toList, "v2".toList].Nodup)
  trimmed := (by decide : ∀ v ∈ ["v2".toList], Text.trim v = v)

def movingServer : RemoteAdapter where
  getManifest := .ok ⟨"v2".toList, [⟨q, []⟩]⟩
  pullIncremental _ := .ok ⟨"v2".toList, [⟨p, .removed, none⟩, ⟨q, .added, some []⟩]⟩
  downloadFull := .error (.server [])
  getServerHead := .ok "v2".toList
  listVersions := .ok ["v1".toList, "v2".toList]
  getVersionChanges _ := .ok [⟨p, .removed⟩, ⟨q, .added⟩]
  downloadFile _ := .ok []
  versionPages := .ok []

theorem changeOf_moved (hne : p ≠ q) (x : Text) (k : ChangeKind) :
    changeOf (FileTree.single p hp) (FileTree.single q hq) x = some k ↔ x = p ∧ k = .removed ∨ x = q ∧ k = .added := by
  unfold changeOf
  rw [FileTree.get_single, FileTree.get_single]
  by_cases hxp : x = p
  · have hxq : x ≠ q := fun he => hne (hxp.symm.trans he)
    rw [if_pos hxp, if_neg hxq]
    simp [hxp, hne, eq_comm]
  · rw [if_neg hxp]
    by_cases hxq : x = q
    · rw [if_pos hxq]
      simp [hxq, hne.symm, eq_comm]
    · rw [if_neg hxq]
      simp [hxp, hxq]

variable {p q hp hq}

theorem exact_moved (hne : p ≠ q) : Exact sampleClient (movingServer p q) (moved p q hp hq) where
  serverHead := rfl
  versions := rfl
  changes := by
    refine ⟨⟨_, rfl, fun x k => Iff.trans ?_ (changeOf_moved p q hp hq hne x k).symm⟩, trivial⟩
    simp
  net := by
    refine ⟨_, rfl, fun x k => ?_, fun e he hkind => ?_⟩
    · refine Iff.trans ?_ (changeOf_moved p q hp hq hne x k).symm
      simp [eq_comm]
    · rcases List.mem_cons.1 he with rfl | he
      · exact absurd rfl hkind
      · rw [List.mem_singleton.1 he]
        exact ⟨[], [], rfl, rfl, (FileTree.get_single hq q).trans (if_pos rfl)⟩
  manifest := by
    refine ⟨_, rfl, fun x => ?_⟩
    have hget : (moved p q hp hq).headTree.get x = if x = q then some [] else none := FileTree.get_single hq x
    rw [hget]
    by_cases hxq : x = q <;> simp [hxq, eq_comm]
  download := by
    intro x c hget
    have hget' : (moved p q hp hq).headTree.get x = if x = q then some [] else none := FileTree.get_single hq x
    rw [hget'] at hget
    split at hget
    · cases hget
      rfl
    · cases hget
  pages := ⟨[], rfl⟩

theorem mem_keys_of_get {t : Tree} {k : List Name} (hne : k ≠ []) {n : Node} (hget : t.get k = some n) : k ∈ t.nodes.keys := by
  unfold LocalFs.Tree.get nodeAt at hget
  rw [if_neg hne] at hget
  exact FMap.mem_keys.2 (by rw [hget]; rfl)

/-- A clone whose tree has the file `p` and the files of `.vai/`, and no directory deep in there. -/
theorem isClone_moved {t : Tree} (hhead : headIn root t = some "v1".toList) (hfile : t.file (root ++ components p) = some [])
    (honly : ∀ k ∈ t.nodes.keys, (t.file k).isSome → k = root ++ components p ∨ root ++ [vaiDir] <+: k)
    (hvai : t.get (root ++ [vaiDir]) = some .dir) (hversions : t.get (root ++ [vaiDir, "versions".toList]) = some .dir)
    (hmeta : t.get (root ++ [vaiDir, "head".toList]) ≠ some .dir)
    (hdepth : ∀ k ∈ t.nodes.keys, t.get k = some .dir → k.length < root.length + 3) :
    IsClone root (moved p q hp hq) t := by
  refine ⟨hhead, fun x hx hout => ?_, hvai, hversions, hmeta, fun name hdir => ?_⟩
  · have hbase : (moved p q hp hq).base.get x = if x = p then some [] else none := FileTree.get_single hp x
    rw [hbase]
    by_cases hxp : x = p
    · rw [if_pos hxp, hxp]
      exact hfile
    · rw [if_neg hxp]
      by_contra hsome
      obtain ⟨c, hc⟩ := Option.ne_none_iff_exists'.1 hsome
      have hget := Tree.file_eq_some.1 hc
      rcases honly _ (mem_keys_of_get (fun he => by rw [he] at hget; cases hget) hget) (by rw [hc]; rfl) with he | ⟨b, hb⟩
      · exact hxp (eq_of_components hx (isFilePath_iff.1 hp.1).1 (List.append_cancel_left he))
      · rw [List.append_assoc] at hb
        exact ne_of_outside hout _ hb
  · have hlen := hdepth _ (mem_keys_of_get (by simp) hdir) hdir
    simp at hlen

end Moved

/-- A clone at `v1` with the file `a`. -/
def cloneWithFile : Local :=
  ⟨planted [("/repo/.vai/head".toList, Text.intoBytes "v1\n".toList), ("/repo/.vai/versions/v1.toml".toList, []),
    ("/repo/a".toList, [])], []⟩

attribute [local irreducible] Remote.pull Remote.sync

theorem isClone_cloneWithFile {q : Text} {hp hq} : IsClone ["repo".toList] (moved "a".toList q hp hq) cloneWithFile.tree := by
  apply isClone_moved <;> decide +kernel

/-- From the file `a` to the file `b`. -/
theorem pull_and_sync_converge_moved : Smooth ["repo".toList]
    (moved "a".toList "b".toList (by decide) (by decide)) cloneWithFile.tree :=
  (@pull_and_sync_converge sampleClient (movingServer "a".toList "b".toList) _ _ _ (exact_moved (by decide))
    isClone_cloneWithFile).2.2.1 ⟨by decide +kernel, by decide +kernel⟩

/-- A file becomes a directory, or a directory a file. -/
def History.KindChanges (h : History) : Prop :=
  ∃ p w, (h.base.get p).isSome ∧ (h.headTree.get w).isSome ∧ p ≠ w ∧
    (components p <+: components w ∨ components w <+: components p)

/-- **A file that becomes a directory makes a pull fail**: `a` is replaced by `a/b`. -/
theorem pull_fails_on_directory : ¬ ∀ (env : ClientEnv) (adapter : RemoteAdapter) (root : List Name) (h : History) (s : Local),
    Exact env adapter h → IsClone root h s.tree →
    (∀ out s', pull env adapter root s = (.ok out, s') → Converged root h s'.tree) ∧
    (∀ out s', sync adapter root s = (.ok out, s') → Converged root h s'.tree) ∧
    (h.KindChanges → (pull env adapter root s).1.isOk = true ∧ (sync adapter root s).1.isOk = true) := by
  intro hall
  have hrun := (hall sampleClient (movingServer "a".toList "a/b".toList) ["repo".toList]
    (moved "a".toList "a/b".toList (by decide) (by decide)) cloneWithFile (exact_moved (by decide)) isClone_cloneWithFile).2.2
  have hkind : (moved "a".toList "a/b".toList (by decide) (by decide)).KindChanges :=
    ⟨"a".toList, "a/b".toList, by decide +kernel, by decide +kernel, by decide, .inl (by decide)⟩
  have hfails : (pull sampleClient (movingServer "a".toList "a/b".toList) ["repo".toList] cloneWithFile).1.isOk = false := by
    decide +kernel
  have hok := (hrun hkind).1
  rw [hfails] at hok
  cases hok

end Remote
end Vai
