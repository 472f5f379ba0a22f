import Vai.Unpack
/-!
# PullForce — what a forced pull destroys

`pull_force` makes the working tree equal to the server's archive.  Two things it is not to destroy: the files that a push
never sends, and, when the archive turns out to be bad, anything at all.

`pull_force_frame_iff`: `remove_stale_recursive` skips the ignored directories but not the files that look like secrets,
so these survive exactly when the archive has them.  `failed_pull_force_iff`: the stale files are removed after the first
read, which does not look at everything that the second one rejects.
-/
namespace Vai
namespace Remote

open Proc FilePath LocalFs

variable {env : ClientEnv} {adapter : RemoteAdapter} {root : List Name} {s s' : Local} {dl : FullDownload}

/-! ## The archive decides -/

/-- `pull_force` from the first read of the archive to the end of the second. -/
def replaceTree (env : ClientEnv) (root : List Name) (dl : FullDownload) : Proc Local RemoteError (List Text × List Text) := do
  let serverPaths ← ofExcept id (tarballPaths env dl.tarballGz)
  let _ ← ofExcept id (checkCount dl.expectedFileCount serverPaths.length)
  let removed ← removeStaleLocalFiles root serverPaths
  let updated ← extractTarball env root dl.tarballGz
  pure (removed, updated)

/-- The archive passes the first read, with these names and as many as the server has declared. -/
structure Accepted (env : ClientEnv) (dl : FullDownload) (serverPaths : List Text) : Prop where
  paths : tarballPaths env dl.tarballGz = .ok serverPaths
  count : ∀ n, dl.expectedFileCount = some n → serverPaths.length = n

def entriesOf (env : ClientEnv) (gz : Bytes) : List (Except Text ArchiveEntry) :=
  match env.entries gz with
  | .ok l => l
  | .error _ => []

/-- The entries that are unpacked over the tree without the stale files. -/
def unpacked (env : ClientEnv) (root : List Name) (dl : FullDownload) (serverPaths : List Text) (s : Local) :
    List (Except Text ArchiveEntry) :=
  unpackable root (entriesOf env dl.tarballGz) (removeStaleLocalFiles root serverPaths s).2

/-- The files then. -/
def replaced (env : ClientEnv) (root : List Name) (dl : FullDownload) (serverPaths : List Text) (s : Local)
    (p : List Name) : Option Bytes :=
  ((contents root (unpacked env root dl serverPaths s)).get p).or
    (if isStale root serverPaths p then none else s.tree.file p)

theorem checkCount_ends (expected : Option Nat) (received : Nat) :
    Ends (ofExcept id (checkCount expected received)) s (fun _ s' => s' = s ∧ ∀ n, expected = some n → received = n)
      (fun _ s' => s' = s ∧ ¬ ∀ n, expected = some n → received = n) := by
  unfold checkCount
  cases expected with
  | none => exact ends_pure ⟨rfl, fun n h => nomatch h⟩
  | some n =>
    dsimp only
    by_cases hn : received = n
    · rw [if_neg (not_not.2 hn)]
      exact ends_pure ⟨rfl, fun m hm => hn.trans (Option.some.inj hm)⟩
    · rw [if_pos hn]
      exact ends_fail ⟨rfl, fun h => hn (h n rfl)⟩

theorem archiveEntries_of_paths {gz : Bytes} {serverPaths : List Text} (h : tarballPaths env gz = .ok serverPaths) :
    archiveEntries env gz = .ok (entriesOf env gz) := by
  unfold tarballPaths archiveEntries at h
  unfold archiveEntries entriesOf
  cases he : env.entries gz with
  | error e =>
    rw [he] at h
    cases h
  | ok l => rfl

/-- **What becomes of the files**: all or nothing of the archive, or the entries before the first bad one. -/
theorem replaceTree_ends (hnul : NulFree s.tree) : Ends (replaceTree env root dl) s
    (fun _ s' => ∃ serverPaths, Accepted env dl serverPaths ∧
      unpacked env root dl serverPaths s = entriesOf env dl.tarballGz ∧
      ∀ p, s'.tree.file p = replaced env root dl serverPaths s p)
    (fun _ s' => (∀ serverPaths, ¬ Accepted env dl serverPaths) ∧ s' = s ∨
      ∃ serverPaths, Accepted env dl serverPaths ∧ unpacked env root dl serverPaths s ≠ entriesOf env dl.tarballGz ∧
        ∀ p, s'.tree.file p = replaced env root dl serverPaths s p) := by
  refine ends_bind (ends_ofExcept (fun serverPaths hpaths => ?_) fun e he => .inl ⟨fun paths h => ?_, rfl⟩)
  · refine (checkCount_ends _ _).bind (fun _ s₁ h => .inl ⟨fun paths hacc => h.2 ?_, h.1⟩) ?_
    · rw [← Except.ok.inj (hacc.paths.symm.trans hpaths)]
      exact hacc.count
    rintro _ s₀ ⟨rfl, hcount⟩
    have hacc : Accepted env dl serverPaths := ⟨hpaths, hcount⟩
    obtain ⟨removed, s₁, hrun, hfiles⟩ := (@removeStale_ends root s₀ hnul serverPaths).exists_ok fun _ _ h => h
    refine ends_bind_of_ok hrun ?_
    have hs₁ : (removeStaleLocalFiles root serverPaths s₀).2 = s₁ := by rw [hrun]
    have hextract : Ends (extractTarball env root dl.tarballGz) s₁
        (fun _ s' => unpackable root (entriesOf env dl.tarballGz) s₁ = entriesOf env dl.tarballGz ∧ ∀ p, s'.tree.file p =
          ((contents root (unpackable root (entriesOf env dl.tarballGz) s₁)).get p).or (s₁.tree.file p))
        (fun _ s' => unpackable root (entriesOf env dl.tarballGz) s₁ ≠ entriesOf env dl.tarballGz ∧ ∀ p, s'.tree.file p =
          ((contents root (unpackable root (entriesOf env dl.tarballGz) s₁)).get p).or (s₁.tree.file p)) := by
      unfold extractTarball
      rw [archiveEntries_of_paths hpaths]
      exact unpacked_files _ _ _
    refine hextract.bind (fun _ s₂ h => .inr ⟨serverPaths, hacc, ?_⟩) fun _ s₂ h => ends_pure ⟨serverPaths, hacc, ?_⟩
    all_goals
      unfold replaced unpacked
      rw [hs₁]
      refine ⟨h.1, fun p => ?_⟩
      rw [h.2 p, hfiles p]
  · rw [h.paths] at he
    cases he

/-! ## The rest -/

/-- Files have been written that are the client's own, and no others. -/
def Own (root : List Name) (s s' : Local) : Prop :=
  ∀ p, s'.tree.file p = s.tree.file p ∨ OwnFile root p ∧ (s'.tree.file p).isSome

theorem own_write {path : Text} {content : Bytes} (h : OwnFile root (resolve root path)) :
    Keeps (Own root s) (write root path content) := by
  refine keeps_write fun f f' hf hput p => ?_
  rw [hput.file p]
  by_cases hp : p = resolve root path
  · rw [if_pos hp]
    exact .inr ⟨hp ▸ h, rfl⟩
  · rw [if_neg hp]
    exact hf p

theorem own_finish (version : Text) : Keeps (Own root s) (do
    writeKnownHead root version
    writeVersionMetas env adapter root 0 : Proc Local RemoteError PUnit) := by
  have hhead : Keeps (Own root s) (writeKnownHead root version) :=
    keeps_ite ((own_write (.inl (resolve_headFile root))).mapErr _) (keeps_pure _ _)
  refine hhead.bind fun _ => keeps_ofExcept_bind fun metas hmetas => keeps_ite (keeps_pure _ _) ?_
  have hdirs : Keeps (Own root s) (createDirAll root [vaiDir, "versions".toList]) :=
    keeps_createDirAll (fun f f' hf hsame p => by rw [hsame.file p]; exact hf p) _ _
  refine (hdirs.mapErr _).bind fun _ => keeps_forM_mem fun m hm => (own_write (.inr ?_)).mapErr _
  rw [resolve_versionFile (newer_of_fetched hmetas hm), List.prefix_append_right_inj]
  exact ⟨[m.versionId ++ ".toml".toList], rfl⟩

/-- After the archive nothing fails because of it, and only the client's own files are written. -/
theorem pullForce_apply (s : Local) : ∃ localHead, pullForce env adapter root s =
    (match adapter.downloadFull with
      | .error e => fail e
      | .ok dl => do
        let files ← replaceTree env root dl
        writeKnownHead root dl.headVersion
        writeVersionMetas env adapter root 0
        pure ⟨localHead, dl.headVersion, files.2, files.1, [], false, true⟩ : Proc Local RemoteError PullOutcome) s := by
  have hhead : ∃ r, attempt (readLocalHead root) s = (.ok r, s) := by
    rw [attempt_apply]
    rcases hrun : readLocalHead root s with ⟨e | v, s'⟩
    · rw [(readLocalHead_ends s).error hrun]
      exact ⟨_, rfl⟩
    · rw [((readLocalHead_ends s).ok hrun).1]
      exact ⟨_, rfl⟩
  obtain ⟨r, hr⟩ := hhead
  unfold pullForce
  simp only [bind_of_ok hr]
  cases adapter.downloadFull with
  | error e => exact ⟨[], rfl⟩
  | ok dl =>
    rw [bind_of_ok (show ofExcept id (Except.ok dl) s = (.ok dl, s) from rfl)]
    unfold replaceTree
    simp only [bind_assoc, pure_bind]
    exact ⟨_, rfl⟩

/-- A forced pull: nothing happens, the archive fails, or it is unpacked. -/
theorem pullForce_ends (hnul : NulFree s.tree) : Ends (pullForce env adapter root) s
    (fun _ s' => ∃ dl serverPaths s₁, adapter.downloadFull = .ok dl ∧ Accepted env dl serverPaths ∧
      unpacked env root dl serverPaths s = entriesOf env dl.tarballGz ∧
      (∀ p, s₁.tree.file p = replaced env root dl serverPaths s p) ∧ Own root s₁ s')
    (fun _ s' => (∀ dl, adapter.downloadFull = .ok dl → ∀ serverPaths, ¬ Accepted env dl serverPaths) ∧ s' = s ∨
      ∃ dl serverPaths s₁, adapter.downloadFull = .ok dl ∧ Accepted env dl serverPaths ∧
        (∀ p, s₁.tree.file p = replaced env root dl serverPaths s p) ∧ Own root s₁ s') := by
  obtain ⟨localHead, happly⟩ := @pullForce_apply env adapter root s
  unfold Ends
  rw [happly]
  cases hdl : adapter.downloadFull with
  | error e => exact .inl ⟨fun dl h => (nomatch h), rfl⟩
  | ok dl =>
    refine Ends.bind (replaceTree_ends hnul) (fun _ s' h => ?_) ?_
    · rcases h with ⟨hno, rfl⟩ | ⟨serverPaths, hacc, -, hfiles⟩
      · exact .inl ⟨fun dl' h => Except.ok.inj h ▸ hno, rfl⟩
      · exact .inr ⟨dl, serverPaths, s', rfl, hacc, hfiles, fun p => .inl rfl⟩
    · rintro files s₁ ⟨serverPaths, hacc, hall, hfiles⟩
      have hfinish := (@own_finish env adapter root s₁ dl.headVersion).ends
        (fun p => .inl rfl)
      rw [← bind_assoc]
      refine hfinish.bind (fun _ s' h => .inr ⟨dl, serverPaths, s₁, rfl, hacc, hfiles, h⟩) fun _ s' h => ?_
      exact ends_pure ⟨dl, serverPaths, s₁, rfl, hacc, hall, hfiles, h⟩

/-! ## The frame -/

/-- The files of an archive, by the names they are unpacked to. -/
def archiveNames (env : ClientEnv) (gz : Bytes) : List (List Name) :=
  (entriesOf env gz).filterMap (fun entry => (unpacks [] entry).map Prod.fst)

/-- A file that was there and is gone is one that the hasher sees. -/
def RemovesSeen (env : ClientEnv) (adapter : RemoteAdapter) (root : List Name) (s : Local) : Prop :=
  ∀ p, (s.tree.file p).isSome → (pullForce env adapter root s).2.tree.file p = none →
    ∃ rel, p = root ++ rel ∧ seen rel = true

/-- The hasher sees the files of the archive, as far as it would. -/
def SeesArchive (env : ClientEnv) (root : List Name) (dl : FullDownload) (t : Tree) : Prop :=
  ∀ p, ((collectLocalHashes env root t).get p).isSome ↔
    walkFinds p = true ∧ components p ∈ archiveNames env dl.tarballGz

/-- Every file that looks like a secret, outside the ignored directories, is in the archive: the first read has its name,
or the second one gets as far as to unpack it. -/
def SecretsSent (env : ClientEnv) (root : List Name) (dl : FullDownload) (serverPaths : List Text) (s : Local) : Prop :=
  ∀ rel, (s.tree.file (root ++ rel)).isSome → walked rel = true → isBuiltinSecretFile (rel.getLastD []) = true →
    joinNames rel ∈ serverPaths ∨ ((contents root (unpacked env root dl serverPaths s)).get (root ++ rel)).isSome

/-- A file that is kept for its name is one that the archive has under that name, not under one with backslashes. -/
def NamesSent (env : ClientEnv) (root : List Name) (dl : FullDownload) (serverPaths : List Text) (t : Tree) : Prop :=
  ∀ rel, rel ≠ [] → (t.file (root ++ rel)).isSome → seen rel = true → joinNames rel ∈ serverPaths →
    rel ∈ archiveNames env dl.tarballGz

theorem not_ownFile {rel : List Name} (h : walked rel = true) : ¬ OwnFile root (root ++ rel) := by
  have hfirst : ∀ l : List Name, [vaiDir] <+: l → 2 ≤ l.length → walked l = false := by
    rintro l ⟨l', rfl⟩ hlen
    cases l' with
    | nil => simp at hlen
    | cons x l' =>
      unfold walked
      rw [List.singleton_append, List.dropLast_cons_of_ne_nil (by simp), List.all_cons]
      have hvai : decide (vaiDir ∉ ignoreDirs) = false := by decide
      rw [hvai, Bool.false_and]
  rintro (he | hpre)
  · rw [List.append_cancel_left he] at h
    exact absurd h (by decide)
  · obtain ⟨l, rfl⟩ := (List.prefix_append_right_inj root).1 hpre
    have := hfirst ([vaiDir, "versions".toList] ++ l) ⟨"versions".toList :: l, rfl⟩ (by simp)
    rw [this] at h
    cases h

/-- The client's own files aside, nothing changes after the archive. -/
theorem Own.file {s₁ : Local} (h : Own root s₁ s') {rel : List Name} (hrel : walked rel = true) :
    s'.tree.file (root ++ rel) = s₁.tree.file (root ++ rel) := (h _).resolve_right fun ho => not_ownFile hrel ho.1

theorem walked_of_seen {rel : List Name} (h : seen rel = true) : walked rel = true := (Bool.and_eq_true_iff.1 h).1

theorem contents_isSome {l : List (Except Text ArchiveEntry)} {rel : List Name} :
    ((contents root l).get (root ++ rel)).isSome ↔ rel ∈ l.filterMap (fun entry => (unpacks [] entry).map Prod.fst) := by
  have hunpacks : ∀ entry : Except Text ArchiveEntry,
      unpacks root entry = (unpacks [] entry).map (fun q => (root ++ q.1, q.2)) := by
    intro entry
    unfold unpacks
    cases entry with
    | error e => rfl
    | ok entry =>
      dsimp only
      cases entry.path with
      | error e => rfl
      | ok path =>
        dsimp only
        split <;> rfl
  unfold contents
  constructor
  · intro h
    obtain ⟨c, hc⟩ := Option.isSome_iff_exists.1 h
    obtain ⟨entry, hmem, hentry⟩ := List.mem_filterMap.1 (FMap.get_ofList_mem hc)
    rw [hunpacks] at hentry
    obtain ⟨q, hq, he⟩ := Option.map_eq_some_iff.1 hentry
    refine List.mem_filterMap.2 ⟨entry, hmem, ?_⟩
    rw [hq, ← List.append_cancel_left (congrArg Prod.fst he)]
    rfl
  · intro h
    obtain ⟨entry, hmem, hentry⟩ := List.mem_filterMap.1 h
    obtain ⟨q, hq, rfl⟩ := Option.map_eq_some_iff.1 hentry
    refine FMap.isSome_get_ofList (v := q.2) (List.mem_filterMap.2 ⟨entry, hmem, ?_⟩)
    rw [hunpacks, hq]
    rfl

theorem replaced_eq_none {serverPaths : List Text} {p : List Name} (hp : (s.tree.file p).isSome) :
    replaced env root dl serverPaths s p = none ↔
      isStale root serverPaths p = true ∧ (contents root (unpacked env root dl serverPaths s)).get p = none := by
  obtain ⟨c, hc⟩ := Option.isSome_iff_exists.1 hp
  unfold replaced
  rw [Option.or_eq_none_iff, hc, and_comm]
  cases isStale root serverPaths p <;> simp

/-- Where the archive is unpacked, as far as it is: the removed files are those that are stale and do not come back. -/
theorem removesSeen_iff {serverPaths : List Text} {s₁ : Local} (hfiles : ∀ p, s₁.tree.file p = replaced env root dl serverPaths s p)
    (hown : Own root s₁ (pullForce env adapter root s).2) :
    RemovesSeen env adapter root s ↔ SecretsSent env root dl serverPaths s := by
  constructor
  · intro h rel hsome hwalked hsecret
    by_contra hnot
    rw [not_or, Option.not_isSome_iff_eq_none] at hnot
    have hgone : (pullForce env adapter root s).2.tree.file (root ++ rel) = none := by
      rw [hown.file hwalked, hfiles, replaced_eq_none hsome, isStale_append, hwalked]
      exact ⟨by simpa using hnot.1, hnot.2⟩
    obtain ⟨rel', he, hseen⟩ := h (root ++ rel) hsome hgone
    rw [← List.append_cancel_left he] at hseen
    unfold seen at hseen
    rw [hsecret] at hseen
    simp at hseen
  · intro h p hsome hnone
    have hgone : s₁.tree.file p = none := by
      rcases hown p with he | ⟨-, hp⟩
      · rw [← he]
        exact hnone
      · rw [hnone] at hp
        cases hp
    rw [hfiles, replaced_eq_none hsome] at hgone
    obtain ⟨rel, rfl, hwalked, hnames⟩ := isStale_eq_true.1 hgone.1
    refine ⟨rel, rfl, ?_⟩
    unfold seen
    rw [hwalked, Bool.true_and, Bool.not_eq_true']
    by_contra hsecret
    rcases h rel hsome hwalked (by simpa using hsecret) with hmem | hthere
    · exact hnames hmem
    · rw [hgone.2] at hthere
      cases hthere

theorem seesArchive_iff {serverPaths : List Text} {s₁ : Local} (hall : unpacked env root dl serverPaths s = entriesOf env dl.tarballGz)
    (hfiles : ∀ p, s₁.tree.file p = replaced env root dl serverPaths s p) (hown : Own root s₁ s') :
    SeesArchive env root dl s'.tree ↔ NamesSent env root dl serverPaths s.tree := by
  have hsees : ∀ p, walkFinds p = true → (((collectLocalHashes env root s'.tree).get p).isSome ↔
      components p ∈ archiveNames env dl.tarballGz ∨
        joinNames (components p) ∈ serverPaths ∧ (s.tree.file (root ++ components p)).isSome) := by
    intro p hp
    have hwalked := walked_of_seen (Bool.and_eq_true_iff.1 hp).2
    rw [get_localMap, if_pos hp, Option.isSome_map, hown.file hwalked, hfiles]
    unfold replaced
    rw [Option.isSome_or, Bool.or_eq_true, contents_isSome, hall, isStale_append, hwalked, Bool.true_and]
    refine or_congr Iff.rfl ?_
    by_cases hmem : joinNames (components p) ∈ serverPaths <;> simp [hmem]
  constructor
  · intro h rel hne hsome hseen hmem
    have hnames := Tree.isName_of_file (Option.isSome_iff_exists.1 hsome).choose_spec
    have hp : walkFinds (joinNames rel) = true := by
      unfold walkFinds
      rw [isPlain_joinNames hnames hne, components_joinNames hnames, hseen]
      rfl
    have hcs := components_joinNames hnames
    have := (h (joinNames rel)).1 ((hsees _ hp).2 (.inr (by rw [hcs]; exact ⟨hmem, hsome⟩)))
    rw [hcs] at this
    exact this.2
  · intro h p
    by_cases hp : walkFinds p = true
    · rw [hsees p hp, and_iff_right hp]
      refine or_iff_left_of_imp fun hkept => ?_
      obtain ⟨hplain, hseen⟩ := Bool.and_eq_true_iff.1 hp
      exact h _ (isPlain_iff.1 hplain).2.1 hkept.2 hseen hkept.1
    · rw [get_localMap, if_neg hp]
      simp [hp]

/-- **A forced pull destroys what a push never sends, unless the archive has it**: for every working tree and every answer
of the server, a forced pull removes only files that the hasher sees if and only if the archive is rejected by the first
read or has every secret file that the walk gets to; and after success the hasher sees exactly the files of the archive that
it would if and only if no local file was kept for a name that the archive spells with a backslash. -/
theorem pull_force_frame_iff (hnul : NulFree s.tree) :
    (RemovesSeen env adapter root s ↔ ∀ dl serverPaths, adapter.downloadFull = .ok dl → Accepted env dl serverPaths →
      SecretsSent env root dl serverPaths s) ∧
    ∀ dl outcome s', adapter.downloadFull = .ok dl → pullForce env adapter root s = (.ok outcome, s') →
      (SeesArchive env root dl s'.tree ↔
        ∀ serverPaths, Accepted env dl serverPaths → NamesSent env root dl serverPaths s.tree) := by
  have hends := @pullForce_ends env adapter root s hnul
  have honly : ∀ {dl dl' : FullDownload} {paths paths' : List Text}, adapter.downloadFull = .ok dl → Accepted env dl paths →
      adapter.downloadFull = .ok dl' → Accepted env dl' paths' → dl' = dl ∧ paths' = paths := by
    intro dl dl' paths paths' hdl hacc hdl' hacc'
    obtain rfl : dl' = dl := Except.ok.inj (hdl'.symm.trans hdl)
    exact ⟨rfl, Except.ok.inj (hacc'.paths.symm.trans hacc.paths)⟩
  constructor
  · have hcases : (∀ dl, adapter.downloadFull = .ok dl → ∀ serverPaths, ¬ Accepted env dl serverPaths) ∧
        (pullForce env adapter root s).2 = s ∨
        ∃ dl serverPaths s₁, adapter.downloadFull = .ok dl ∧ Accepted env dl serverPaths ∧
          (∀ p, s₁.tree.file p = replaced env root dl serverPaths s p) ∧ Own root s₁ (pullForce env adapter root s).2 := by
      rcases hrun : pullForce env adapter root s with ⟨e | outcome, s'⟩
      · exact hends.error hrun
      · obtain ⟨dl, serverPaths, s₁, hdl, hacc, -, hfiles, hown⟩ := hends.ok hrun
        exact .inr ⟨dl, serverPaths, s₁, hdl, hacc, hfiles, hown⟩
    rcases hcases with ⟨hno, hsame⟩ | ⟨dl, serverPaths, s₁, hdl, hacc, hfiles, hown⟩
    · refine iff_of_true (fun p hsome hnone => ?_) fun dl paths hdl hacc => absurd hacc (hno dl hdl paths)
      rw [hsame] at hnone
      rw [hnone] at hsome
      cases hsome
    · rw [removesSeen_iff hfiles hown]
      refine ⟨fun h dl' paths hdl' hacc' => ?_, fun h => h dl serverPaths hdl hacc⟩
      obtain ⟨rfl, rfl⟩ := honly hdl hacc hdl' hacc'
      exact h
  · intro dl' outcome s' hdl' hok
    obtain ⟨dl, serverPaths, s₁, hdl, hacc, hall, hfiles, hown⟩ := hends.ok hok
    obtain rfl : dl' = dl := Except.ok.inj (hdl'.symm.trans hdl)
    rw [seesArchive_iff hall hfiles hown]
    refine ⟨fun h paths hacc' => ?_, fun h => h serverPaths hacc⟩
    obtain ⟨-, rfl⟩ := honly hdl hacc hdl hacc'
    exact h

/-! ## An archive and a clone -/

/-- A reader that finds these files in an archive. -/
def archiveClient (l : List (Text × Bytes)) : ClientEnv :=
  { sampleClient with entries := fun _ => .ok (l.map (fun f => .ok ⟨.file, .ok f.1, f.2⟩)) }

/-- A server that has an archive of that many files. -/
def archiveServer (n : Nat) : RemoteAdapter :=
  { sampleServer [] with downloadFull := .ok ⟨"v2".toList, [], some n⟩, versionPages := .ok [] }

/-- A clone with these files. -/
def forcedClone (l : List (Text × Bytes)) : Local :=
  ⟨planted ((".vai/head".toList, Text.intoBytes "v1\n".toList) :: l |>.map (fun f => ("/repo/".toList ++ f.1, f.2))), []⟩

def forcedPull (sent l : List (Text × Bytes)) : Except RemoteError PullOutcome × Local :=
  pullForce (archiveClient sent) (archiveServer sent.length) ["repo".toList] (forcedClone l)

theorem mem_keys_of_file {t : Tree} {p : List Name} {c : Bytes} (h : t.file p = some c) : p ∈ t.nodes.keys := by
  have hget := Tree.file_eq_some.1 h
  unfold LocalFs.Tree.get nodeAt at hget
  split at hget
  · cases hget
  · exact FMap.mem_keys.2 (by rw [hget]; rfl)

theorem nulFree_of_keys {t : Tree} (h : ∀ p ∈ t.nodes.keys, ∀ name ∈ p, '\x00' ∉ name) : NulFree t :=
  fun p _ hc => h p (mem_keys_of_file hc)

theorem accepted_archive {sent : List (Text × Bytes)} {dl : FullDownload} {serverPaths : List Text}
    (hacc : Accepted (archiveClient sent) dl serverPaths) :
    tarballPaths (archiveClient sent) [] = .ok serverPaths := hacc.paths

attribute [local irreducible] pullForce

/-- The secret file is in the archive too, and so it stays. -/
def secretKept : List (Text × Bytes) := [("a".toList, [1]), (".env".toList, [2])]

theorem pull_force_frame_iff_kept : (forcedPull secretKept [("b".toList, [3]), (".env".toList, [4])]).1.isOk = true ∧
    RemovesSeen (archiveClient secretKept) (archiveServer 2) ["repo".toList]
      (forcedClone [("b".toList, [3]), (".env".toList, [4])]) := by
  have hnul : NulFree (forcedClone [("b".toList, [3]), (".env".toList, [4])]).tree := nulFree_of_keys (by decide +kernel)
  refine ⟨by decide +kernel, (pull_force_frame_iff hnul).1.2 fun dl serverPaths hdl hacc rel hsome hwalked hsecret => .inl ?_⟩
  have hpaths : serverPaths = ["a".toList, ".env".toList] := by
    have := accepted_archive hacc
    exact (Except.ok.inj this).symm
  have hall : ∀ q ∈ filesBelow ["repo".toList] (forcedClone [("b".toList, [3]), (".env".toList, [4])]).tree,
      walked q.1 = true → isBuiltinSecretFile (q.1.getLastD []) = true → joinNames q.1 ∈ ["a".toList, ".env".toList] := by
    decide +kernel
  obtain ⟨c, hc⟩ := Option.isSome_iff_exists.1 hsome
  rw [hpaths]
  exact hall (rel, c) (mem_filesBelow.2 hc) hwalked hsecret

/-- **A forced pull deletes `.env`**: the archive has the file `a` only. -/
theorem pull_force_deletes_env : ¬ ∀ (env : ClientEnv) (adapter : RemoteAdapter) (root : List Name) (s : Local),
    NulFree s.tree → RemovesSeen env adapter root s ∧ ∀ dl outcome s', adapter.downloadFull = .ok dl →
      pullForce env adapter root s = (.ok outcome, s') → SeesArchive env root dl s'.tree := by
  intro h
  have hnul : NulFree (forcedClone [(".env".toList, [4])]).tree := nulFree_of_keys (by decide +kernel)
  have hremoves := (h (archiveClient [("a".toList, [1])]) (archiveServer 1) ["repo".toList]
    (forcedClone [(".env".toList, [4])]) hnul).1
  have hbefore : ((forcedClone [(".env".toList, [4])]).tree.file (["repo".toList] ++ [".env".toList])).isSome = true := by
    decide +kernel
  have hafter : (forcedPull [("a".toList, [1])] [(".env".toList, [4])]).2.tree.file
      (["repo".toList] ++ [".env".toList]) = none := by decide +kernel
  obtain ⟨rel, he, hseen⟩ := hremoves _ hbefore hafter
  rw [← List.append_cancel_left he] at hseen
  exact absurd hseen (by decide)

/-! ## A bad archive -/

/-- Every file that was there is there with its content. -/
def Intact (s s' : Local) : Prop := ∀ p c, s.tree.file p = some c → s'.tree.file p = some c

/-- The entries before the first bad one bring the files that they are unpacked over as they are, and the other files are
not stale. -/
structure Harmless (env : ClientEnv) (root : List Name) (dl : FullDownload) (serverPaths : List Text) (s : Local) :
    Prop where
  same : ∀ p c c', s.tree.file p = some c → (contents root (unpacked env root dl serverPaths s)).get p = some c' → c' = c
  kept : ∀ p, (s.tree.file p).isSome → (contents root (unpacked env root dl serverPaths s)).get p = none →
    isStale root serverPaths p = false

/-- **A forced pull that fails because of its archive leaves the files as they were exactly when the first read finds the
fault, or when there was nothing to lose**: no file is stale, and none has another content in an entry before the bad
one. -/
theorem failed_pull_force_iff (hnul : NulFree s.tree) (hdl : adapter.downloadFull = .ok dl) {e : RemoteError}
    (hcause : (replaceTree env root dl s).1 = .error e) (hfails : pullForce env adapter root s = (.error e, s')) :
    Intact s s' ↔ ∀ serverPaths, Accepted env dl serverPaths → Harmless env root dl serverPaths s := by
  have hsame : s' = (replaceTree env root dl s).2 := by
    obtain ⟨localHead, happly⟩ := @pullForce_apply env adapter root s
    rw [hdl] at happly
    dsimp only at happly
    rw [happly, bind_apply] at hfails
    rcases hrun : replaceTree env root dl s with ⟨e' | r, s₁⟩
    · rw [hrun] at hfails
      exact (congrArg Prod.snd hfails).symm
    · rw [hrun] at hcause
      cases hcause
  have hrun : replaceTree env root dl s = (.error e, (replaceTree env root dl s).2) := Prod.ext hcause rfl
  have hends := (replaceTree_ends hnul).error hrun
  rw [← hsame] at hends
  rcases hends with ⟨hno, rfl⟩ | ⟨serverPaths, hacc, -, hfiles⟩
  · exact iff_of_true (fun p c h => h) fun paths hacc => absurd hacc (hno paths)
  · have hiff : Intact s s' ↔ Harmless env root dl serverPaths s := by
      unfold replaced at hfiles
      constructor
      · intro h
        refine ⟨fun p c c' hc hc' => ?_, fun p hsome hnone => ?_⟩
        · have := h p c hc
          rw [hfiles, hc'] at this
          exact Option.some.inj this
        · obtain ⟨c, hc⟩ := Option.isSome_iff_exists.1 hsome
          have := h p c hc
          rw [hfiles, hnone] at this
          by_contra hstale
          rw [if_pos (by simpa using hstale)] at this
          cases this
      · intro h p c hc
        rw [hfiles]
        cases hc' : (contents root (unpacked env root dl serverPaths s)).get p with
        | some c' =>
          rw [h.same p c c' hc hc']
          rfl
        | none =>
          rw [h.kept p (by rw [hc]; rfl) hc']
          exact hc
    rw [hiff]
    refine ⟨fun h paths hacc' => ?_, fun h => h serverPaths hacc⟩
    rw [Except.ok.inj (hacc'.paths.symm.trans hacc.paths)]
    exact h

attribute [local irreducible] replaceTree

/-- An archive with a path that leads out of the directory. -/
def badArchive : List (Text × Bytes) := [("b".toList, [1]), ("../x".toList, [2])]

def unsafeError : RemoteError := .tarball ("unsafe path in tarball: ".toList ++ "../x".toList)

/-- The clone has the file that comes first, with its content. -/
theorem failed_pull_force_iff_same : (forcedPull badArchive [("b".toList, [1])]).1 = .error unsafeError ∧
    Intact (forcedClone [("b".toList, [1])]) (forcedPull badArchive [("b".toList, [1])]).2 := by
  have hnul : NulFree (forcedClone [("b".toList, [1])]).tree := nulFree_of_keys (by decide +kernel)
  have hout : (forcedPull badArchive [("b".toList, [1])]).1 = .error unsafeError := by decide +kernel
  have hrun : forcedPull badArchive [("b".toList, [1])] = (.error unsafeError, (forcedPull badArchive [("b".toList, [1])]).2) :=
    Prod.ext hout rfl
  have hcause : (replaceTree (archiveClient badArchive) ["repo".toList] ⟨"v2".toList, [], some 2⟩
      (forcedClone [("b".toList, [1])])).1 = .error unsafeError := by decide +kernel
  have hiff := @failed_pull_force_iff (archiveClient badArchive) (archiveServer 2) ["repo".toList] _ _ _ hnul rfl _ hcause hrun
  refine ⟨hout, hiff.2 fun serverPaths hacc => ?_⟩
  obtain rfl : serverPaths = ["b".toList, "../x".toList] := (Except.ok.inj (accepted_archive hacc)).symm
  have hsame : ∀ k ∈ (forcedClone [("b".toList, [1])]).tree.nodes.keys,
      ((contents ["repo".toList] (unpacked (archiveClient badArchive) ["repo".toList] ⟨"v2".toList, [], some 2⟩
        ["b".toList, "../x".toList] (forcedClone [("b".toList, [1])]))).get k).all
        (fun c => (forcedClone [("b".toList, [1])]).tree.file k = some c) = true := by decide +kernel
  have hkept : ∀ k ∈ (forcedClone [("b".toList, [1])]).tree.nodes.keys,
      (forcedClone [("b".toList, [1])]).tree.file k = none ∨
        (contents ["repo".toList] (unpacked (archiveClient badArchive) ["repo".toList] ⟨"v2".toList, [], some 2⟩
          ["b".toList, "../x".toList] (forcedClone [("b".toList, [1])]))).get k ≠ none ∨
        isStale ["repo".toList] ["b".toList, "../x".toList] k = false := by decide +kernel
  refine ⟨fun p c c' hc hc' => ?_, fun p hsome hnone => ?_⟩
  · have := hsame p (mem_keys_of_file hc)
    rw [hc', hc] at this
    simpa [eq_comm] using this
  · obtain ⟨c, hc⟩ := Option.isSome_iff_exists.1 hsome
    rcases hkept p (mem_keys_of_file hc) with h | h | h
    · rw [hc] at h
      cases h
    · exact absurd hnone h
    · exact h

/-- **A bad path is found too late**: the stale file `a` is gone when the archive is rejected. -/
theorem failed_pull_force_loses_file : ¬ ∀ (env : ClientEnv) (adapter : RemoteAdapter) (root : List Name) (s s' : Local)
    (dl : FullDownload) (e : RemoteError), NulFree s.tree → adapter.downloadFull = .ok dl →
    (replaceTree env root dl s).1 = .error e → pullForce env adapter root s = (.error e, s') → Intact s s' := by
  intro h
  have hnul : NulFree (forcedClone [("a".toList, [3])]).tree := nulFree_of_keys (by decide +kernel)
  have hout : (forcedPull badArchive [("a".toList, [3])]).1 = .error unsafeError := by decide +kernel
  have hrun : forcedPull badArchive [("a".toList, [3])] = (.error unsafeError, (forcedPull badArchive [("a".toList, [3])]).2) :=
    Prod.ext hout rfl
  have hcause : (replaceTree (archiveClient badArchive) ["repo".toList] ⟨"v2".toList, [], some 2⟩
      (forcedClone [("a".toList, [3])])).1 = .error unsafeError := by decide +kernel
  have hintact := h (archiveClient badArchive) (archiveServer 2) ["repo".toList] _ _ _ _ hnul rfl hcause hrun
  have hbefore : (forcedClone [("a".toList, [3])]).tree.file ["repo".toList, "a".toList] = some [3] := by decide +kernel
  have hafter : (forcedPull badArchive [("a".toList, [3])]).2.tree.file ["repo".toList, "a".toList] = none := by
    decide +kernel
  rw [hintact _ _ hbefore] at hafter
  cases hafter

end Remote
end Vai
