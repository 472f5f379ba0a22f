import Vai.ClientPaths
/-!
# PullFrame — what a pull leaves alone

Pass 1 of a pull writes and removes what the server reports.  Pass 2 restores the files of the manifest that are not
there, and asks `collect_local_hashes` which ones are: a walk that skips the ignored directories and the files that look
like secrets, and that spells a path in one way only.  A file that the walk does not see is taken for absent.

`pull_frame`: a pull changes and removes what the server reports and nothing else, as long as every file of the manifest
that is there is one that the walk can see.
-/
namespace Vai
namespace Remote

open Proc FilePath LocalFs

variable {env : ClientEnv} {adapter : RemoteAdapter} {root : List Name} {s s' : Local}

/-! ## What the server reports -/

/-- The changes since a version, when HEAD has moved. -/
def pullReports (adapter : RemoteAdapter) (localHead : Text) : List FilePullEntry :=
  match adapter.pullIncremental localHead with
  | .error _ => []
  | .ok result => if result.headVersion = localHead then [] else result.files

def pullManifest (adapter : RemoteAdapter) : List ManifestEntry :=
  match adapter.getManifest with
  | .error _ => []
  | .ok manifest => manifest.files

/-- The file is reported as added or modified. -/
def ReportedWritten (adapter : RemoteAdapter) (root : List Name) (localHead : Text) (p : List Name) : Prop :=
  ∃ e ∈ pullReports adapter localHead, e.change ≠ .removed ∧ resolve root e.path = p

def ReportedRemoved (adapter : RemoteAdapter) (root : List Name) (localHead : Text) (p : List Name) : Prop :=
  ∃ e ∈ pullReports adapter localHead, e.change = .removed ∧ resolve root e.path = p

/-- The entries that pass 1 writes. -/
def pullWritten (adapter : RemoteAdapter) (localHead : Text) : List FilePullEntry :=
  ((pullReports adapter localHead).filter (fun e => e.change ≠ .removed)).filter (fun e => e.contentBase64.isSome)

def Written (adapter : RemoteAdapter) (root : List Name) (localHead : Text) (p : List Name) : Prop :=
  ∃ e ∈ pullWritten adapter localHead, resolve root e.path = p

/-- The client's own files: `.vai/head` and the version files. -/
def OwnFile (root : List Name) (p : List Name) : Prop :=
  p = root ++ [vaiDir, "head".toList] ∨ root ++ [vaiDir, "versions".toList] <+: p

/-- What a pull may do to the files of the working tree, from the version in `.vai/head`. -/
structure PullFrame (env : ClientEnv) (adapter : RemoteAdapter) (root : List Name) (localHead : Text) (s : Local) :
    Prop where
  changes : ∀ p c c', s.tree.file p = some c → (pull env adapter root s).2.tree.file p = some c' → c' ≠ c →
    ReportedWritten adapter root localHead p ∨ OwnFile root p
  removes : ∀ p c, s.tree.file p = some c → (pull env adapter root s).2.tree.file p = none →
    ReportedRemoved adapter root localHead p
  /-- From the tree that pass 1 leaves, pass 2 writes where there is no file. -/
  restores : ∀ result updated removed s₁, adapter.pullIncremental localHead = .ok result →
    firstPass env root localHead result s = (.ok (updated, removed), s₁) →
    ∀ p ∈ touchedSince s₁ (restorePass env adapter root updated s₁).2, s₁.tree.file p = none

/-- The walk of `collect_local_hashes` finds the file, if it is there, under this name. -/
def walkFinds (path : Text) : Bool := isPlain path && seen (components path)

/-- Every file of the manifest that pass 1 does not write under this name, but that is there, is one that the walk finds
and that is not reported as removed. -/
def Spared (adapter : RemoteAdapter) (root : List Name) (localHead : Text) (t : Tree) : Prop :=
  ∀ m ∈ pullManifest adapter, m.path ∉ (pullWritten adapter localHead).map FilePullEntry.path →
    (t.file (resolve root m.path)).isSome ∨ Written adapter root localHead (resolve root m.path) →
    walkFinds m.path = true ∧ ¬ ReportedRemoved adapter root localHead (resolve root m.path)

/-! ## The walk -/

theorem get_localMap (t : Tree) (path : Text) : (collectLocalHashes env root t).get path =
    if walkFinds path = true then (t.file (root ++ components path)).map env.sha256Hex else none := by
  refine FMap.get_ofList_of_mem_iff (f := fun path => if walkFinds path = true then
    (t.file (root ++ components path)).map env.sha256Hex else none) (fun path hash => ?_) path
  unfold walkFinds
  rw [List.mem_map]
  constructor
  · rintro ⟨q, hq, he⟩
    cases he
    obtain ⟨hmem, hseen⟩ := List.mem_filter.1 hq
    rw [Bool.and_eq_true, Bool.not_eq_true', List.isEmpty_eq_false_iff] at hseen
    have hfile := mem_filesBelow.1 hmem
    have hnames := Tree.isName_of_file hfile
    rw [components_joinNames hnames, hfile, isPlain_joinNames hnames hseen.2, hseen.1]
    rfl
  · intro h
    split at h
    · rename_i hfinds
      obtain ⟨hplain, hseen⟩ := Bool.and_eq_true_iff.1 hfinds
      obtain ⟨c, hc, rfl⟩ := Option.map_eq_some_iff.1 h
      obtain ⟨hs, hne, -⟩ := isPlain_iff.1 hplain
      refine ⟨(components path, c), List.mem_filter.2 ⟨mem_filesBelow.2 hc, ?_⟩, Prod.ext hs.symm rfl⟩
      rw [Bool.and_eq_true, Bool.not_eq_true', List.isEmpty_eq_false_iff]
      exact ⟨hseen, hne⟩
    · cases h

theorem get_localMap_isSome {t : Tree} {path : Text} : ((collectLocalHashes env root t).get path).isSome ↔
    walkFinds path = true ∧ (t.file (resolve root path)).isSome := by
  rw [get_localMap]
  by_cases hfinds : walkFinds path = true
  · rw [if_pos hfinds, Option.isSome_map, resolve_of_isPlain (Bool.and_eq_true_iff.1 hfinds).1]
    simp [hfinds]
  · simp [hfinds]

/-! ## Pass 1 -/

theorem pullReports_of_ok {localHead : Text} {result : IncrementalPullResult}
    (hres : adapter.pullIncremental localHead = .ok result) :
    pullReports adapter localHead = if result.headVersion = localHead then [] else result.files := by
  unfold pullReports
  rw [hres]

theorem reportedWritten_of_written {localHead : Text} {p : List Name} (h : Written adapter root localHead p) :
    ReportedWritten adapter root localHead p := by
  obtain ⟨e, he, hp⟩ := h
  obtain ⟨hmem, hkind⟩ := List.mem_filter.1 (List.mem_filter.1 he).1
  exact ⟨e, hmem, of_decide_eq_true hkind, hp⟩

theorem pullEntries_ends (files : List FilePullEntry) (s : Local) : Ends (files.foldlM (pullEntry env root) []) s
    (fun updated s' => updated = (files.filter (fun e => e.contentBase64.isSome)).map FilePullEntry.path ∧
      ∀ p ∈ updated, (s'.tree.file (resolve root p)).isSome) (fun _ _ => True) := by
  refine ends_foldlM (fun pre (updated : List Text) s' =>
    updated = (pre.filter (fun e => e.contentBase64.isSome)).map FilePullEntry.path ∧
      ∀ p ∈ updated, (s'.tree.file (resolve root p)).isSome) files [] [] s ⟨rfl, by simp⟩ ?_
  intro pre e post updated s₁ _ ⟨hupdated, hthere⟩
  unfold pullEntry
  cases hc : e.contentBase64 with
  | none => exact ends_pure ⟨by simp [hupdated, hc], hthere⟩
  | some b64 =>
    refine ends_bind (ends_ofExcept (fun content _ => ?_) fun _ _ => trivial)
    refine Ends.bind (ends_mapErr ((install_ends root e.path content s₁).mono (fun _ _ h => h) fun _ _ _ => trivial))
      (fun _ _ h => h) fun _ s₂ hput => ends_pure ⟨by simp [hupdated, hc], fun p hp => ?_⟩
    rw [hput.file]
    split
    · rfl
    · rename_i hne
      rcases List.mem_append.1 hp with hp | hp
      · exact hthere p hp
      · exact absurd (congrArg (resolve root) (List.mem_singleton.1 hp)) hne

theorem firstPass_framed {localHead : Text} {result : IncrementalPullResult} {N W : List Name → Prop} {s₀ : Local}
    (hres : adapter.pullIncremental localHead = .ok result) (hN : ∀ p, Written adapter root localHead p → N p)
    (hW : ∀ p, Written adapter root localHead p → W p) :
    Keeps (Framed N W (ReportedRemoved adapter root localHead) s₀) (firstPass env root localHead result) := by
  unfold firstPass
  by_cases hnew : result.headVersion ≠ localHead ∧ result.files ≠ []
  swap
  · rw [if_neg hnew]
    exact keeps_pure _ _
  rw [if_pos hnew]
  have hrep : pullReports adapter localHead = result.files := by
    rw [pullReports_of_ok hres, if_neg hnew.1]
  refine Keeps.bind (keeps_foldlM_mem (fun e he updated => ?_) _) fun _ =>
    Keeps.bind (keeps_foldlM_mem (fun e he removed => ?_) _) fun _ => keeps_pure _ _
  · rw [← hrep] at he
    unfold pullEntry
    cases hc : e.contentBase64 with
    | none => exact keeps_pure _ _
    | some b64 =>
      have hwritten : Written adapter root localHead (resolve root e.path) :=
        ⟨e, List.mem_filter.2 ⟨he, by rw [hc]; rfl⟩, rfl⟩
      refine keeps_ofExcept_bind fun content _ => ?_
      exact ((framed_install (fun _ => hN _ hwritten) fun _ => hW _ hwritten).mapErr _).bind fun _ => keeps_pure _ _
  · obtain ⟨hmem, hkind⟩ := List.mem_filter.1 he
    rw [← hrep] at hmem
    exact ((framed_discard ⟨e, hmem, of_decide_eq_true hkind, rfl⟩).mapErr _).bind fun _ => keeps_pure _ _

theorem firstPass_creates {localHead : Text} {result : IncrementalPullResult}
    (hres : adapter.pullIncremental localHead = .ok result) (s : Local) : Ends (firstPass env root localHead result) s
    (fun _ s' => Framed (Written adapter root localHead) (fun _ => True) (ReportedRemoved adapter root localHead) s s')
    (fun _ s' => Framed (Written adapter root localHead) (fun _ => True) (ReportedRemoved adapter root localHead) s s') :=
  (firstPass_framed hres (fun _ h => h) fun _ _ => trivial).ends (framed_refl s)

/-- Pass 1 tells what it has written, and that is there unless it is also reported as removed. -/
theorem firstPass_ends {localHead : Text} {result : IncrementalPullResult}
    (hres : adapter.pullIncremental localHead = .ok result) (s : Local) : Ends (firstPass env root localHead result) s
    (fun r s' => r.1 = (pullWritten adapter localHead).map FilePullEntry.path ∧
      ∀ p, Written adapter root localHead p → ¬ ReportedRemoved adapter root localHead p → (s'.tree.file p).isSome)
    (fun _ _ => True) := by
  unfold firstPass
  by_cases hnew : result.headVersion ≠ localHead ∧ result.files ≠ []
  · rw [if_pos hnew]
    have hrep : pullReports adapter localHead = result.files := by
      rw [pullReports_of_ok hres, if_neg hnew.1]
    refine (pullEntries_ends _ s).bind (fun _ _ h => h) fun updated s₁ ⟨hupdated, hthere⟩ => ?_
    have hwritten : updated = (pullWritten adapter localHead).map FilePullEntry.path := by
      unfold pullWritten
      rw [hrep]
      exact hupdated
    refine Ends.bind (Keeps.ends (keeps_foldlM_mem (fun e he removed => ?_) _) (framed_refl s₁) : Ends _ s₁
      (fun _ s' => Framed (fun _ => True) (fun _ => True) (ReportedRemoved adapter root localHead) s₁ s') _)
      (fun _ _ _ => trivial) fun removed s₂ h₂ => ends_pure ⟨hwritten, ?_⟩
    · obtain ⟨hmem, hkind⟩ := List.mem_filter.1 he
      rw [← hrep] at hmem
      exact ((framed_discard ⟨e, hmem, of_decide_eq_true hkind, rfl⟩).mapErr _).bind fun _ => keeps_pure _ _
    · rintro p ⟨e, he, rfl⟩ hkept
      rw [hwritten] at hthere
      obtain ⟨c, hc⟩ := Option.isSome_iff_exists.1 (hthere e.path (List.mem_map.2 ⟨e, he, rfl⟩))
      cases hfile : s₂.tree.file (resolve root e.path) with
      | none => exact absurd (h₂.removes _ c hc hfile) hkept
      | some c => rfl
  · rw [if_neg hnew]
    have hnone : pullWritten adapter localHead = [] := by
      unfold pullWritten
      rw [pullReports_of_ok hres]
      split
      · rfl
      · rename_i hne
        rw [not_and, not_not] at hnew
        rw [hnew hne]
        rfl
    refine ends_pure ⟨by rw [hnone]; rfl, ?_⟩
    rintro p ⟨e, he, -⟩
    rw [hnone] at he
    exact absurd he List.not_mem_nil

/-! ## Pass 2 -/

theorem pullManifest_of_ok {manifest : ManifestResult} (h : adapter.getManifest = .ok manifest) :
    pullManifest adapter = manifest.files := by
  unfold pullManifest
  rw [h]

/-- What pass 2 takes for absent is absent, now and before pass 1. -/
theorem absent_of_spared {localHead : Text} {s₁ : Local} (hspared : Spared adapter root localHead s.tree)
    (h₁ : Framed (Written adapter root localHead) (fun _ => True) (ReportedRemoved adapter root localHead) s s₁)
    {m : ManifestEntry} (hm : m ∈ pullManifest adapter)
    (hnew : m.path ∉ (pullWritten adapter localHead).map FilePullEntry.path)
    (hunseen : ¬ ((collectLocalHashes env root s₁.tree).get m.path).isSome) :
    s.tree.file (resolve root m.path) = none ∧ s₁.tree.file (resolve root m.path) = none := by
  rw [get_localMap_isSome, not_and] at hunseen
  cases hs : s.tree.file (resolve root m.path) with
  | some c =>
    have hsp := hspared m hm hnew (.inl (by rw [hs]; rfl))
    have hnone := Option.not_isSome_iff_eq_none.1 (hunseen hsp.1)
    exact absurd (h₁.removes _ c hs hnone) hsp.2
  | none =>
    refine ⟨rfl, Option.not_isSome_iff_eq_none.1 fun hsome => ?_⟩
    have hsp := hspared m hm hnew (.inr (h₁.creates _ hs hsome))
    exact hunseen hsp.1 hsome

theorem keeps_restorePass {I : Local → Prop} {updated : List Text} {s₁ : Local} (h₁ : I s₁)
    (hinstall : ∀ m ∈ pullManifest adapter, m.path ∉ updated →
      ¬ ((collectLocalHashes env root s₁.tree).get m.path).isSome → ∀ content, Keeps I (install root m.path content)) :
    Ends (restorePass env adapter root updated) s₁ (fun _ s' => I s') (fun _ s' => I s') := by
  refine ends_bind (ends_ofExcept (fun manifest hman => ?_) fun _ _ => h₁)
  refine ends_bind (ends_read (Keeps.ends (keeps_foldlM_mem (fun m hm restored => ?_) _) h₁))
  rw [← pullManifest_of_ok hman] at hm
  unfold restoreEntry
  split
  · exact keeps_pure _ _
  · rename_i hskip
    rw [not_or] at hskip
    exact keeps_ofExcept_bind fun content _ => ((hinstall m hm hskip.1 hskip.2 content).mapErr _).bind fun _ => keeps_pure _ _

theorem restorePass_writes {updated : List Text} (s₁ : Local) : Ends (restorePass env adapter root updated) s₁
    (fun _ s' => ∀ m ∈ pullManifest adapter, m.path ∉ updated →
      ¬ ((collectLocalHashes env root s₁.tree).get m.path).isSome → resolve root m.path ∈ touchedSince s₁ s')
    (fun _ _ => True) := by
  refine ends_bind (ends_ofExcept (fun manifest hman => ?_) fun _ _ => trivial)
  rw [pullManifest_of_ok hman]
  refine ends_bind (ends_read ?_)
  refine (foldlM_later (T := fun m s' => ManifestEntry.path m ∉ updated →
    ¬ ((collectLocalHashes env root s₁.tree).get m.path).isSome → resolve root m.path ∈ touchedSince s₁ s')
    (fun m s₂ s₃ h hs hnew hunseen => hs.touchedSince (h hnew hunseen)) [] (fun m _ restored s₂ hs₂ => ?_)
    (later_refl s₁)).mono (fun _ _ h => h.2) fun _ _ h => h
  unfold restoreEntry
  split
  · rename_i hskip
    exact ends_pure ⟨later_refl s₂, fun hnew hunseen => absurd hskip (not_or.2 ⟨hnew, hunseen⟩)⟩
  · refine ends_bind (ends_ofExcept (fun content _ => ?_) fun _ _ => trivial)
    have hinstall : Ends (install root m.path content) s₂ _ _ := (install_later s₂).and (install_ends root m.path content s₂)
    refine Ends.bind (ends_mapErr (hinstall.mono (fun _ _ h => h) fun _ _ _ => trivial)) (fun _ _ h => h) fun _ s₃ h₃ => ?_
    exact ends_pure ⟨h₃.1.1, fun _ _ => h₃.2.touchedSince hs₂⟩

/-! ## The whole pull -/

theorem framed_writeHead {N W R : List Name → Prop} {s₀ : Local} (hN : ∀ p, N p) (hW : ∀ p, OwnFile root p → W p) (v : Text) :
    Keeps (Framed N W R s₀) (writeHead root v) := by
  refine (framed_write (fun _ => hN _) fun _ => hW _ (.inl ?_)).mapErr _
  exact resolve_headFile root

theorem framed_finishPull {N W R : List Name → Prop} {s₀ : Local} (hN : ∀ p, N p) (hW : ∀ p, OwnFile root p → W p)
    (localHead newVersion : Text) : Keeps (Framed N W R s₀) (finishPull env adapter root localHead newVersion) := by
  refine keeps_ite ((framed_writeHead hN hW _).bind fun _ => keeps_ofExcept_bind fun metas hmetas => ?_) (keeps_pure _ _)
  refine keeps_ite (keeps_pure _ _) (((framed_createDirAll _ _).mapErr _).bind fun _ => keeps_forM_mem fun m hm => ?_)
  refine (framed_write (fun _ => hN _) fun _ => hW _ (.inr ?_)).mapErr _
  rw [resolve_versionFile (newer_of_fetched hmetas hm), List.prefix_append_right_inj]
  exact ⟨[m.versionId ++ ".toml".toList], rfl⟩

theorem pull_framed {localHead : Text} (hhead : headIn root s.tree = some localHead)
    (hspared : Spared adapter root localHead s.tree) : Ends (pull env adapter root) s
      (fun _ s' => Framed (fun _ => True) (fun p => ReportedWritten adapter root localHead p ∨ OwnFile root p)
        (ReportedRemoved adapter root localHead) s s')
      (fun _ s' => Framed (fun _ => True) (fun p => ReportedWritten adapter root localHead p ∨ OwnFile root p)
        (ReportedRemoved adapter root localHead) s s') := by
  refine (readLocalHead_ends s).bind (fun _ s' h => by rw [h]; exact framed_refl s) ?_
  rintro v s₀ ⟨rfl, hv⟩
  cases hhead.symm.trans hv
  refine ends_bind (ends_ofExcept (fun result hres => ?_) fun _ _ => framed_refl s₀)
  have hframed : Ends (firstPass env root localHead result) s₀ _ _ := Keeps.ends (firstPass_framed hres
    (fun _ _ => trivial) fun p h => (.inl (reportedWritten_of_written h) : _ ∨ OwnFile root p)) (framed_refl s₀)
  refine Ends.bind ((firstPass_ends hres s₀).and ((firstPass_creates hres s₀).and hframed)) (fun _ _ h => h.2.2) ?_
  rintro ⟨updated, removed⟩ s₁ ⟨⟨hupdated, -⟩, hwritten, h₁⟩
  refine Ends.bind (keeps_restorePass h₁ fun m hm hnew hunseen content => ?_) (fun _ _ h => h) fun restored s₂ h₂ => ?_
  · rw [show updated = _ from hupdated] at hnew
    have habsent := absent_of_spared hspared hwritten hm hnew hunseen
    refine framed_install (fun _ => trivial) fun hsome => ?_
    rw [habsent.1] at hsome
    cases hsome
  · refine ((framed_finishPull (fun _ => trivial) (fun _ h => .inr h) _ _).ends h₂).bind (fun _ _ h => h) fun _ _ h => ?_
    exact ends_pure h

theorem restores_of_spared {localHead : Text} (hspared : Spared adapter root localHead s.tree)
    {result : IncrementalPullResult} {updated removed : List Text} {s₁ : Local}
    (hres : adapter.pullIncremental localHead = .ok result)
    (hpass : firstPass env root localHead result s = (.ok (updated, removed), s₁)) :
    ∀ p ∈ touchedSince s₁ (restorePass env adapter root updated s₁).2, s₁.tree.file p = none := by
  have hupdated : updated = _ := ((firstPass_ends hres s).ok hpass).1
  have h₁ := (firstPass_creates hres s).ok hpass
  have hpass₂ : Ends (restorePass env adapter root updated) s₁
      (fun _ s' => ∀ p ∈ touchedSince s₁ s', s₁.tree.file p = none)
      (fun _ s' => ∀ p ∈ touchedSince s₁ s', s₁.tree.file p = none) := by
    refine keeps_restorePass ?_ fun m hm hnew hunseen content => ?_
    · unfold touchedSince
      rw [List.drop_length]
      exact fun _ h => absurd h List.not_mem_nil
    · rw [hupdated] at hnew
      have habsent := absent_of_spared hspared h₁ hm hnew hunseen
      refine keeps_install (fun s₂ s₃ h hs => ?_) fun s₂ s₃ h hs p hp => ?_
      · rw [touchedSince_same hs]
        exact h
      · rcases mem_touchedSince_put hs hp with hp | rfl
        · exact h p hp
        · exact habsent.2
  exact finished_of_ends hpass₂

theorem pull_eq_ok {out : PullOutcome} (h : pull env adapter root s = (.ok out, s')) :
    ∃ localHead result updated removed restored s₁ s₂, headIn root s.tree = some localHead ∧
      adapter.pullIncremental localHead = .ok result ∧
      firstPass env root localHead result s = (.ok (updated, removed), s₁) ∧
      restorePass env adapter root updated s₁ = (.ok restored, s₂) := by
  obtain ⟨localHead, s₀, hread, h₁⟩ := bind_eq_ok.1 h
  obtain ⟨rfl, hhead⟩ := (readLocalHead_ends s).ok hread
  obtain ⟨result, s₁, hres, h₂⟩ := bind_eq_ok.1 h₁
  obtain ⟨⟨updated, removed⟩, s₂, hpass, h₃⟩ := bind_eq_ok.1 h₂
  obtain ⟨restored, s₃, hrestore, -⟩ := bind_eq_ok.1 h₃
  cases hr : adapter.pullIncremental localHead with
  | error e =>
    rw [hr] at hres
    cases hres
  | ok result' =>
    rw [hr] at hres
    cases hres
    exact ⟨localHead, result, updated, removed, restored, s₂, s₃, hhead, hr, hpass, hrestore⟩

/-- **A pull changes and removes what the server reports, and restores what is absent**, when every file of the manifest
that is there is one that the walk finds.  And when the pull ends well, it does so just then, but for files that the
manifest lists and the same answer reports as removed. -/
theorem pull_frame (env : ClientEnv) (adapter : RemoteAdapter) (root : List Name) (s : Local) :
    (headIn root s.tree = none → (pull env adapter root s).2 = s) ∧
    ∀ localHead, headIn root s.tree = some localHead →
      (Spared adapter root localHead s.tree → PullFrame env adapter root localHead s) ∧
      ((pull env adapter root s).1.isOk = true → PullFrame env adapter root localHead s →
        ∀ m ∈ pullManifest adapter, m.path ∉ (pullWritten adapter localHead).map FilePullEntry.path →
          (s.tree.file (resolve root m.path)).isSome ∨ Written adapter root localHead (resolve root m.path) →
          ¬ ReportedRemoved adapter root localHead (resolve root m.path) → walkFinds m.path = true) := by
  refine ⟨fun hnone => ?_, fun localHead hhead => ⟨fun hspared => ?_, fun hok hframe m hm hnew hthere hkept => ?_⟩⟩
  · have hread : Ends (pull env adapter root) s (fun _ s' => s' = s) (fun _ s' => s' = s) := by
      refine (readLocalHead_ends s).bind (fun _ _ h => h) fun v _ h => ?_
      rw [hnone] at h
      cases h.2
    exact finished_of_ends hread
  · have hrun := finished_of_ends (@pull_framed env adapter root s _ hhead hspared)
    exact ⟨hrun.changes, hrun.removes, fun _ _ _ _ hres hpass => restores_of_spared hspared hres hpass⟩
  · rcases hp : pull env adapter root s with ⟨e | out, s'⟩
    · rw [hp] at hok
      cases hok
    obtain ⟨v, result, updated, removed, restored, s₁, s₂, hv, hres, hpass, hrestore⟩ := pull_eq_ok hp
    cases hhead.symm.trans hv
    obtain ⟨hupdated, hwritten⟩ := (firstPass_ends hres s).ok hpass
    have h₁ := (firstPass_creates hres s).ok hpass
    have hfile : (s₁.tree.file (resolve root m.path)).isSome := by
      rcases hthere with hthere | hthere
      · obtain ⟨c, hc⟩ := Option.isSome_iff_exists.1 hthere
        cases hf : s₁.tree.file (resolve root m.path) with
        | none => exact absurd (h₁.removes _ c hc hf) hkept
        | some c => rfl
      · exact hwritten _ hthere hkept
    by_contra hfinds
    have hunseen : ¬ ((collectLocalHashes env root s₁.tree).get m.path).isSome := by
      rw [get_localMap_isSome]
      exact fun h => hfinds h.1
    have hmem := (restorePass_writes s₁).ok hrestore m hm (by rw [show updated = _ from hupdated]; exact hnew) hunseen
    have hnone := hframe.restores result updated removed s₁ hres hpass (resolve root m.path) (by rw [hrestore]; exact hmem)
    rw [hnone] at hfile
    cases hfile

/-- A server that still is at `v1` and has one file, which is empty. -/
def quietServer (path : Text) : RemoteAdapter where
  getManifest := .ok ⟨"v1".toList, [⟨path, []⟩]⟩
  pullIncremental _ := .ok ⟨"v1".toList, []⟩
  downloadFull := .error (.server [])
  getServerHead := .ok "v1".toList
  listVersions := .ok ["v1".toList]
  getVersionChanges _ := .ok []
  downloadFile _ := .ok []
  versionPages := .ok []

/-- A clone at `v1` with one file that was edited. -/
def editedClone (path : Text) : Local :=
  ⟨planted [("/repo/.vai/head".toList, Text.intoBytes "v1\n".toList), (path, [1])], []⟩

attribute [local irreducible] Remote.pull restorePass

theorem pull_frame_source : PullFrame sampleClient (quietServer "src/a".toList) ["repo".toList] "v1".toList
    (editedClone "/repo/src/a".toList) :=
  ((pull_frame sampleClient (quietServer "src/a".toList) ["repo".toList] (editedClone "/repo/src/a".toList)).2
    "v1".toList (by decide +kernel)).1 (by unfold Spared Written ReportedRemoved; decide +kernel)

/-- **A pull replaces a file that looks like a secret**: nothing has changed on the server, and `.env` is overwritten. -/
theorem pull_replaces_env : ¬ ∀ (env : ClientEnv) (adapter : RemoteAdapter) (root : List Name) (localHead : Text)
    (s : Local), headIn root s.tree = some localHead → PullFrame env adapter root localHead s := by
  intro h
  have hframe := h sampleClient (quietServer ".env".toList) ["repo".toList] "v1".toList (editedClone "/repo/.env".toList)
    (by decide +kernel)
  have hbefore : (editedClone "/repo/.env".toList).tree.file ["repo".toList, ".env".toList] = some [1] := by decide +kernel
  have hafter : (Remote.pull sampleClient (quietServer ".env".toList) ["repo".toList]
      (editedClone "/repo/.env".toList)).2.tree.file ["repo".toList, ".env".toList] = some [] := by decide +kernel
  rcases hframe.changes _ _ _ hbefore hafter (by decide) with ⟨e, he, -⟩ | hown
  · have hnone : pullReports (quietServer ".env".toList) "v1".toList = [] := by decide +kernel
    rw [hnone] at he
    exact absurd he List.not_mem_nil
  · have hother : ¬ OwnFile ["repo".toList] ["repo".toList, ".env".toList] := by
      unfold OwnFile
      decide +kernel
    exact hother hown

end Remote
end Vai
