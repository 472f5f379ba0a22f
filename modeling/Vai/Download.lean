import Vai.Pull
import Vai.LocalPlain
import Vai.ClientPaths
/-!
# Download — an archive of HEAD and its count

`files_download_handler` of `server/mod.rs`, and the agent that unpacks what it sends.  The server skips a file of
`current/` that it cannot read, and declares as many files as it has read; the agent compares that number with the files
it has unpacked.

`accepted_download_iff`: the count always matches.  An accepted download has every file of `current/` just when every one
of them was read.
-/
namespace Vai
namespace Handlers

open Proc Backend

/-! ## `GET /api/repos/:repo/files/download` -/

variable (fails : Fails)

/-- One key of `current/`, skipped where it cannot be read. -/
def readCurrent (files : FMap Path Bytes) (entry : (Text × Bytes) × Nat) : Proc Backend ApiError (FMap Path Bytes) :=
  let rel := (Text.stripPrefix currentPrefix entry.1.1).getD entry.1.1
  if rel = [] then pure files
  else do
    match ← attempt (mapErr ApiError.ofStorage (Backend.get fails entry.2 entry.1.1)) with
    | .ok content => pure (files.insert rel content)
    | .error _ => pure files

def readEntries (entries : List (Text × Bytes)) : Proc Backend ApiError (FMap Path Bytes) :=
  if entries.isEmpty then
    fail (.badRequest "repository has no files in current/ — run `vai remote migrate` to seed storage".toList)
  else entries.zipIdx.foldlM (readCurrent fails) ∅

/-- The files of HEAD. -/
def currentFiles : Proc Backend ApiError (FMap Path Bytes) := do
  let entries ← mapErr (fun _ => ApiError.internal) (Backend.list fails 0 currentPrefix)
  readEntries fails entries

structure FilesDownloadResponse where
  body : Bytes
  filename : Text
  head : Text
  expectedFiles : Nat
deriving DecidableEq, Repr

def filesAt (env : Env) (requested headVersion : Text) : Proc Backend ApiError (FMap Path Bytes) :=
  if parseVersionNumber requested < parseVersionNumber headVersion then
    buildFileMapAtVersion fails env (parseVersionNumber requested)
  else currentFiles fails

/-- The entries of the archive, by path. -/
def sortedFiles (files : FMap Path Bytes) : List (Text × Bytes) := files.pairs.insertionSort (fun f g => f.1 ≤ g.1)

/-- The handler; `tarGz` writes an archive. -/
def filesDownloadHandler (env : Env) (tarGz : List (Text × Bytes) → Except Text Bytes) (repoName : Text)
    (version : Option Text) : Proc Backend ApiError FilesDownloadResponse := do
  let head ← attempt (mapErr ApiError.ofStorage (readHead fails))
  let headVersion := match head with
    | .ok (some head) => head
    | _ => "unknown".toList
  let files ← filesAt fails env (version.getD headVersion) headVersion
  let body ← Proc.ofExcept (fun _ => ApiError.internal) (tarGz (sortedFiles files))
  pure ⟨body, repoName ++ "-".toList ++ headVersion ++ ".tar.gz".toList, headVersion, (sortedFiles files).length⟩

/-! ## The files that are read -/

/-- The keys of `current/`, in the order of the listing. -/
def listing (b : Backend) : List (Text × Bytes) := b.store.pairs.filter (fun q => currentPrefix.isPrefixOf q.1)

/-- Among these calls, one for the file does not fail. -/
def ReadIn (calls : List ((Text × Bytes) × Nat)) (p : Path) : Prop :=
  ∃ c i, ((currentKey p, c), i) ∈ calls ∧ fails.store i (.get (currentKey p)) = false

variable {fails} {b : Backend}

theorem mem_listing {key : Text} {c : Bytes} : (key, c) ∈ listing b ↔ ∃ p, key = currentKey p ∧ b.current p = some c := by
  unfold listing
  rw [List.mem_filter, FMap.mem_pairs, List.isPrefixOf_iff_prefix]
  constructor
  · rintro ⟨hget, p, rfl⟩
    exact ⟨p, rfl, hget⟩
  · rintro ⟨p, rfl, hget⟩
    exact ⟨hget, List.prefix_append _ _⟩

theorem stripPrefix_currentKey (p : Path) : (Text.stripPrefix currentPrefix (currentKey p)).getD (currentKey p) = p := by
  unfold currentKey
  rw [Text.stripPrefix_append]
  rfl

theorem readIn_append {calls : List ((Text × Bytes) × Nat)} {p p' : Path} {c : Bytes} {i : Nat} :
    ReadIn fails (calls ++ [((currentKey p, c), i)]) p' ↔
      ReadIn fails calls p' ∨ p' = p ∧ fails.store i (.get (currentKey p)) = false := by
  constructor
  · rintro ⟨c', j, hmem, hj⟩
    rcases List.mem_append.1 hmem with hmem | hmem
    · exact .inl ⟨c', j, hmem, hj⟩
    · have he := List.mem_singleton.1 hmem
      have hkey : p' = p := List.append_cancel_left (congrArg (fun q => q.1.1) he)
      subst hkey
      cases he
      exact .inr ⟨rfl, hj⟩
  · rintro (⟨c', j, hmem, hj⟩ | ⟨rfl, hi⟩)
    · exact ⟨c', j, List.mem_append_left _ hmem, hj⟩
    · exact ⟨c, i, List.mem_append_right _ (List.mem_singleton.2 rfl), hi⟩

/-- What the loop has read: the files whose call did not fail. -/
def HasRead (fails : Fails) (b : Backend) (calls : List ((Text × Bytes) × Nat)) (files : FMap Path Bytes) : Prop :=
  ∀ p c, files.get p = some c ↔ p ≠ [] ∧ b.current p = some c ∧ ReadIn fails calls p

theorem get_ends (i : Nat) (key : Text) (b : Backend) : Ends (Backend.get fails i key) b
    (fun c b' => b' = b ∧ b.store.get key = some c ∧ fails.store i (.get key) = false)
    (fun _ b' => b' = b ∧ (b.store.get key = none ∨ fails.store i (.get key) = true)) := by
  unfold Backend.get Backend.files
  split
  · rename_i hf
    exact ends_fail ⟨rfl, .inr hf⟩
  · rename_i hf
    refine ends_bind (ends_pure (ends_bind (ends_read ?_)))
    cases b.store.get key with
    | none => exact ends_fail ⟨rfl, .inl rfl⟩
    | some c => exact ends_pure ⟨rfl, rfl, by simpa using hf⟩

theorem readCurrent_ends {calls : List ((Text × Bytes) × Nat)} {files : FMap Path Bytes} (h : HasRead fails b calls files)
    {p : Path} {c : Bytes} {i : Nat} (hp : b.current p = some c) :
    Ends (readCurrent fails files ((currentKey p, c), i)) b
      (fun files' b' => b' = b ∧ HasRead fails b (calls ++ [((currentKey p, c), i)]) files') (fun _ _ => False) := by
  unfold readCurrent
  simp only [stripPrefix_currentKey]
  split
  · rename_i hnil
    refine ends_pure ⟨rfl, fun p' c' => ?_⟩
    rw [h p' c', readIn_append]
    refine and_congr_right fun hne => and_congr_right fun _ => (or_iff_left fun he => ?_).symm
    exact hne (he.1.trans hnil)
  · rename_i hne
    refine ends_bind (ends_attempt (ends_mapErr ((get_ends i (currentKey p) b).mono ?_ ?_)))
    · rintro content _ ⟨rfl, hget, hi⟩
      cases hp.symm.trans hget
      refine ends_pure ⟨rfl, fun p' c' => ?_⟩
      rw [FMap.get_insert, readIn_append]
      by_cases hpp : p' = p
      · subst hpp
        rw [if_pos rfl, hp]
        exact ⟨fun he => ⟨hne, he, .inr ⟨rfl, hi⟩⟩, fun he => he.2.1⟩
      · rw [if_neg hpp, h p' c', or_iff_left fun he => hpp he.1]
    · rintro _ _ ⟨rfl, hget | hi⟩
      · cases hp.symm.trans hget
      · refine ends_pure ⟨rfl, fun p' c' => ?_⟩
        rw [h p' c', readIn_append, or_iff_left fun he => ?_]
        rw [hi] at he
        cases he.2

/-- **The files of HEAD, as they are sent**: those whose call does not fail. -/
theorem currentFiles_ends (b : Backend) : Ends (currentFiles fails) b
    (fun files _ => HasRead fails b (listing b).zipIdx files) (fun _ _ => True) := by
  unfold currentFiles Backend.list Backend.files
  refine ends_bind (ends_mapErr (ends_bind ?_))
  split
  · exact ends_fail trivial
  · refine ends_pure (ends_read ?_)
    unfold readEntries
    split
    · exact ends_fail trivial
    · have hloop := ends_foldlM (f := readCurrent fails) (E := fun _ _ => True)
        (fun pre files b' => b' = b ∧ HasRead fails b pre files) (listing b).zipIdx [] ∅ b ⟨rfl, ?_⟩ ?_
      · exact hloop.mono (fun _ _ h => h.2) fun _ _ h => h
      · intro p c
        rw [FMap.get_empty]
        refine ⟨fun he => (nomatch he), ?_⟩
        rintro ⟨-, -, _, _, hmem, -⟩
        exact absurd hmem List.not_mem_nil
      · rintro pre ⟨⟨key, c⟩, i⟩ post files b' hsplit ⟨rfl, hread⟩
        have hmem : (key, c) ∈ listing b' := List.fst_mem_of_mem_zipIdx (x := ((key, c), i)) (mem_of_split hsplit)
        obtain ⟨p, rfl, hp⟩ := mem_listing.1 hmem
        exact (readCurrent_ends hread hp).mono (fun _ _ h => h) fun _ _ h => h.elim

theorem readHead_same (b : Backend) : Ends (readHead fails) b (fun _ b' => b' = b) (fun _ b' => b' = b) := by
  unfold readHead db
  refine ends_bind ?_
  split
  · exact ends_fail rfl
  · exact ends_pure (ends_read rfl)

/-- A request without a version is served from HEAD, and the count is that of the files read. -/
theorem filesDownloadHandler_ends (env : Env) (tarGz : List (Text × Bytes) → Except Text Bytes) (repoName : Text)
    (b : Backend) : Ends (filesDownloadHandler fails env tarGz repoName none) b
      (fun r _ => ∃ files, HasRead fails b (listing b).zipIdx files ∧ tarGz (sortedFiles files) = .ok r.body ∧
        r.expectedFiles = (sortedFiles files).length) (fun _ _ => True) := by
  refine ends_bind (ends_attempt (ends_mapErr ((readHead_same b).mono (fun head b' hb => ?_) fun e b' hb => ?_)))
  all_goals
    subst hb
    dsimp only
    unfold filesAt
    rw [Option.getD_none, if_neg (lt_irrefl _)]
    refine (currentFiles_ends b').bind (fun _ _ _ => trivial) fun files _ hread => ?_
    exact ends_bind (ends_ofExcept (fun body hbody => ends_pure ⟨files, hread, hbody, rfl⟩) fun _ _ => trivial)

theorem mem_sortedFiles {files : FMap Path Bytes} {p : Path} {c : Bytes} :
    (p, c) ∈ sortedFiles files ↔ files.get p = some c := by
  unfold sortedFiles
  rw [List.mem_insertionSort, FMap.mem_pairs]

end Handlers

namespace Remote

open Proc FilePath LocalFs Handlers

/-! ## The agent -/

/-- What `tar` and `flate2` do: the files of an archive are read back, each at the same place. -/
def TarFaithful (tarGz : List (Text × Bytes) → Except Text Bytes)
    (entries : Bytes → Except Text (List (Except Text ArchiveEntry))) : Prop :=
  ∀ files gz, tarGz files = .ok gz → ∃ l, entries gz = .ok l ∧
    List.Forall₂ (fun f e => ∃ path, e = .ok ⟨.file, .ok path, f.2⟩ ∧ components path = components f.1) files l

/-- A response as `fetch_files_tarball` reads it. -/
def fetched : Except ApiError FilesDownloadResponse → Except AgentError (Bytes × Option Nat)
  | .ok r => .ok (r.body, some r.expectedFiles)
  | .error e => .error (.other ("server returned ".toList ++ Text.ofNat e.status ++ ": ".toList ++ e.message))

/-- An agent whose attempts are served from some states, with the faults there. -/
def servedFrom (env : Env) (tarGz : List (Text × Bytes) → Except Text Bytes) (repoName : Text)
    (states : Nat → Backend × Fails) (agent : AgentServer) : AgentServer :=
  { agent with fetch := fun i => fetched (filesDownloadHandler (states i).2 env tarGz repoName none (states i).1).1 }

/-- The two files that the agent writes next to what it downloads. -/
def AgentFile (dir : List Name) (q : List Name) : Prop :=
  q = dir ++ [vaiDir, "download-manifest.json".toList] ∨ q = dir ++ [vaiDir, "agent-state.json".toList]

variable {client : ClientEnv} {dir target : List Name} {s s' : Local}

/-- What an archive leaves in a directory. -/
structure Unpacked (dest : List Name) (files : List (Text × Bytes)) (s s' : Local) : Prop where
  there : ∀ f ∈ files, (s'.tree.file (dest ++ components f.1)).isSome
  came : ∀ q c, s'.tree.file q = some c → s.tree.file q = some c ∨ ∃ f ∈ files, q = dest ++ components f.1 ∧ f.2 = c
  kept : ∀ q, (s.tree.file q).isSome → (s'.tree.file q).isSome

theorem extractEntry_ends {path : Text} {content : Bytes} (written : List Text) (s : Local) :
    Ends (extractEntry target written (.ok ⟨.file, .ok path, content⟩)) s
      (fun written' s' => written'.length = written.length + 1 ∧
        ∀ q, s'.tree.file q = if q = target ++ components path then some content else s.tree.file q) (fun _ _ => True) := by
  unfold extractEntry
  dsimp only
  rw [if_neg (by decide)]
  split
  · exact ends_fail trivial
  rename_i hsafe
  rw [unsafePath, Bool.or_eq_true, not_or, Bool.not_eq_true, decide_eq_true_iff] at hsafe
  rw [if_neg (by decide)]
  refine Ends.bind (ends_mapErr ((createDirAll_ends _ _ s).mono (fun _ _ h => h) fun _ _ _ => trivial)) (fun _ _ h => h)
    fun _ s₁ h₁ => ?_
  refine Ends.bind (ends_mapErr ((write_ends target path content s₁).mono (fun _ _ h => h) fun _ _ _ => trivial))
    (fun _ _ h => h) fun _ s₂ h₂ => ends_pure ⟨by simp, fun q => ?_⟩
  rw [h₂.1.put.file, h₁.file, resolve_of_plain hsafe.1 hsafe.2]

theorem extractEntries_ends {files : List (Text × Bytes)} {l : List (Except Text ArchiveEntry)}
    (h : List.Forall₂ (fun f e => ∃ path, e = .ok ⟨.file, .ok path, f.2⟩ ∧ components path = components f.1) files l) :
    ∀ (written : List Text) (s : Local), Ends (l.foldlM (extractEntry target) written) s
      (fun written' s' => written'.length = written.length + files.length ∧ Unpacked target files s s')
      (fun _ _ => True) := by
  induction h with
  | nil => exact fun written s => ends_pure ⟨rfl, by simp, fun _ _ h => .inl h, fun _ h => h⟩
  | @cons f e files l he _ ih =>
    obtain ⟨path, rfl, hcs⟩ := he
    intro written s
    rw [List.foldlM_cons]
    refine (extractEntry_ends written s).bind (fun _ _ h => h) fun written₁ s₁ ⟨hlen, hfile⟩ => ?_
    rw [hcs] at hfile
    refine (ih written₁ s₁).mono (fun written₂ s₂ ⟨hlen', h₂⟩ => ⟨?_, ?_, ?_, ?_⟩) fun _ _ h => h
    · rw [hlen', hlen, List.length_cons]
      omega
    · intro g hg
      rcases List.mem_cons.1 hg with rfl | hg
      · exact h₂.kept _ (by rw [hfile, if_pos rfl]; rfl)
      · exact h₂.there g hg
    · intro q c hq
      rcases h₂.came q c hq with hq | ⟨g, hg, hgq⟩
      · rw [hfile] at hq
        split at hq
        · rename_i he
          cases hq
          exact .inr ⟨f, List.mem_cons_self, he, rfl⟩
        · exact .inl hq
      · exact .inr ⟨g, List.mem_cons_of_mem _ hg, hgq⟩
    · intro q hq
      apply h₂.kept
      rw [hfile]
      split
      · rfl
      · exact hq

theorem clearTarget_ends (target : List Name) (s : Local) : Ends (clearTarget target) s
    (fun _ s' => ∀ q, target <+: q → s'.tree.file q = none) (fun _ _ => True) := by
  refine ends_bind (ends_read ?_)
  split
  · refine ends_mapErr ?_
    unfold removeDirAll
    by_cases h : target ≠ [] ∧ s.tree.get target = some .dir
    · refine ends_of_ok (dif_pos h) fun q hq => ?_
      unfold Tree.file
      dsimp only
      rw [Tree.get_prune, if_pos hq]
    · exact ends_of_error (dif_neg h) trivial
  · rename_i hnone
    refine ends_pure fun q hq => ?_
    cases hfile : s.tree.file q with
    | none => rfl
    | some c =>
      have hget := Tree.file_eq_some.1 hfile
      by_cases he : target = q
      · rw [he, hget] at hnone
        exact absurd rfl hnone
      · rw [s.tree.dir_of_prefix hq he (by rw [hget]; rfl)] at hnone
        exact absurd rfl hnone

theorem downloadAttempt_ends {server : AgentServer} {i : Nat} {gz : Bytes} {expected : Option Nat}
    (hfetch : server.fetch i = .ok (gz, expected)) {files : List (Text × Bytes)} {l : List (Except Text ArchiveEntry)}
    (hentries : client.entries gz = .ok l)
    (h : List.Forall₂ (fun f e => ∃ path, e = .ok ⟨.file, .ok path, f.2⟩ ∧ components path = components f.1) files l)
    (s : Local) : Ends (downloadAttempt client server target i) s
      (fun r s' => r = (files.length, expected) ∧ (∀ f ∈ files, (s'.tree.file (target ++ components f.1)).isSome) ∧
        ∀ q c, target <+: q → s'.tree.file q = some c → ∃ f ∈ files, q = target ++ components f.1 ∧ f.2 = c)
      (fun _ _ => True) := by
  refine (clearTarget_ends target s).bind (fun _ _ h => h) fun _ s₁ hclear => ?_
  refine Ends.bind (ends_mapErr ((createDirAll_ends target [] s₁).mono (fun _ _ h => h) fun _ _ _ => trivial))
    (fun _ _ h => h) fun _ s₂ hdug => ?_
  rw [hfetch]
  refine ends_bind_of_ok rfl ?_
  have hunpack : Ends (extractTarballToDir client gz target) s₂
      (fun n s' => n = files.length ∧ Unpacked target files s₂ s') (fun _ _ => True) := by
    unfold extractTarballToDir extractTarball archiveEntries
    rw [hentries]
    refine ends_mapErr (Ends.bind (ends_bind_of_ok rfl (extractEntries_ends h [] s₂)) (fun _ _ h => h) fun written s₃ h₃ => ?_)
    exact ends_pure ⟨by simpa using h₃.1, h₃.2⟩
  refine hunpack.bind (fun _ _ h => h) ?_
  rintro count s₃ ⟨rfl, h₃⟩
  refine ends_pure ⟨rfl, h₃.there, fun q c hq hc => ?_⟩
  rcases h₃.came q c hc with hold | hnew
  · rw [hdug.file, hclear q hq] at hold
    cases hold
  · exact hnew

theorem downloadAttempt_fails {server : AgentServer} {i : Nat} {e : AgentError} (hfetch : server.fetch i = .error e)
    (s : Local) : Ends (downloadAttempt client server target i) s (fun _ _ => False) (fun _ _ => True) := by
  refine (clearTarget_ends target s).bind (fun _ _ h => h) fun _ s₁ _ => ?_
  refine Ends.bind (ends_mapErr ((createDirAll_ends target [] s₁).mono (fun _ _ h => h) fun _ _ _ => trivial))
    (fun _ _ h => h) fun _ s₂ _ => ?_
  rw [hfetch]
  exact ends_bind (ends_fail trivial)

theorem finishDownload_ends (server : AgentServer) (count : Nat) (s : Local) :
    Ends (finishDownload server dir target count) s
      (fun _ s' => ∀ q, ¬ AgentFile dir q → s'.tree.file q = s.tree.file q) (fun _ _ => True) := by
  have hmanifest : resolve dir ".vai/download-manifest.json".toList = dir ++ [vaiDir, "download-manifest.json".toList] :=
    resolve_of_plain rfl (by decide) dir
  have hstate : resolve dir ".vai/agent-state.json".toList = dir ++ [vaiDir, "agent-state.json".toList] :=
    resolve_of_plain rfl (by decide) dir
  refine ends_bind (ends_read ?_)
  refine Ends.bind (ends_mapErr ((write_ends dir _ _ s).mono (fun _ _ h => h.1.put.file) fun _ _ _ => trivial))
    (fun _ _ h => h) fun _ s₁ h₁ => ?_
  refine Ends.bind (ends_mapErr ((write_ends dir _ _ s₁).mono (fun _ _ h => h.1.put.file) fun _ _ _ => trivial))
    (fun _ _ h => h) fun _ s₂ h₂ => ends_pure fun q hq => ?_
  rw [h₂, hstate, if_neg fun he => hq (.inr he), h₁, hmanifest, if_neg fun he => hq (.inl he)]

variable {env : Env} {tarGz : List (Text × Bytes) → Except Text Bytes} {repoName : Text}
  {states : Nat → Backend × Fails} {agent : AgentServer}

/-- **The first answer is accepted or an error**: the count that is checked is the count that is sent. -/
theorem agentDownload_ends (htar : TarFaithful tarGz client.entries) (s : Local) :
    Ends (agentDownload client (servedFrom env tarGz repoName states agent) dir target) s
      (fun _ s' => ∃ files, HasRead (states 1).2 (states 1).1 (listing (states 1).1).zipIdx files ∧
        (∀ f ∈ sortedFiles files, ¬ AgentFile dir (target ++ components f.1) →
          (s'.tree.file (target ++ components f.1)).isSome) ∧
        ∀ q c, target <+: q → ¬ AgentFile dir q → s'.tree.file q = some c →
          ∃ f ∈ sortedFiles files, q = target ++ components f.1 ∧ f.2 = c) (fun _ _ => True) := by
  refine ends_bind (ends_read (ends_bind (ends_ofExcept (fun _ _ => ?_) fun _ _ => trivial)))
  rcases hrun : filesDownloadHandler (states 1).2 env tarGz repoName none (states 1).1 with ⟨e | r, b'⟩
  · -- the first answer is an error, and so is the download
    have hfetch : (servedFrom env tarGz repoName states agent).fetch 1 = fetched (.error e) :=
      congrArg fetched (congrArg Prod.fst hrun)
    exact (downloadAttempt_fails hfetch s).bind (fun _ _ h => h) fun _ _ h => h.elim
  · obtain ⟨files, hread, htgz, hcount⟩ := (filesDownloadHandler_ends env tarGz repoName (states 1).1).ok hrun
    obtain ⟨l, hentries, hl⟩ := htar _ _ htgz
    have hfetch : (servedFrom env tarGz repoName states agent).fetch 1 = .ok (r.body, some r.expectedFiles) :=
      congrArg fetched (congrArg Prod.fst hrun)
    refine (downloadAttempt_ends hfetch hentries hl s).bind (fun _ _ h => h) ?_
    rintro _ s₁ ⟨rfl, hthere, hcame⟩
    dsimp only
    rw [if_pos (by simp [hcount])]
    refine (finishDownload_ends _ _ s₁).mono (fun _ s₂ hsame => ⟨files, hread, fun f hf hown => ?_, fun q c hq hown hc => ?_⟩)
      fun _ _ h => h
    · rw [hsame _ hown]
      exact hthere f hf
    · rw [hsame q hown] at hc
      exact hcame q c hq hc

/-! ## The main result -/

/-- Every file of `current/` is in the directory, the agent's own files apart. -/
def HoldsCurrent (dir target : List Name) (b : Backend) (t : Tree) : Prop :=
  ∀ p c, p ≠ [] → b.current p = some c → ¬ AgentFile dir (target ++ components p) → t.file (target ++ components p) = some c

/-- Every file of `current/` is read, under one of the paths that lead to it, and such paths have one content. -/
def ReadsCurrent (dir target : List Name) (b : Backend) (fails : Fails) : Prop :=
  ∀ p c, p ≠ [] → b.current p = some c → ¬ AgentFile dir (target ++ components p) →
    (∃ p', p' ≠ [] ∧ components p' = components p ∧ ReadIn fails (listing b).zipIdx p') ∧
    ∀ p' c', p' ≠ [] → b.current p' = some c' → components p' = components p → c' = c

/-- **An accepted download is complete just when every file of `current/` was read.** -/
theorem accepted_download_iff (htar : TarFaithful tarGz client.entries) {r : DownloadResult}
    (hok : agentDownload client (servedFrom env tarGz repoName states agent) dir target s = (.ok r, s')) :
    HoldsCurrent dir target (states 1).1 s'.tree ↔ ReadsCurrent dir target (states 1).1 (states 1).2 := by
  obtain ⟨files, hread, hthere, hcame⟩ := (agentDownload_ends htar s).ok hok
  constructor
  · intro hholds p c hp hc hown
    refine ⟨?_, fun p' c' hp' hc' hcs => ?_⟩
    · obtain ⟨f, hf, hq, rfl⟩ := hcame _ c (List.prefix_append _ _) hown (hholds p c hp hc hown)
      obtain ⟨hne, -, hin⟩ := (hread f.1 f.2).1 (mem_sortedFiles.1 hf)
      exact ⟨f.1, hne, (List.append_cancel_left hq).symm, hin⟩
    · have h' := hholds p' c' hp' hc' (by rw [hcs]; exact hown)
      rw [hcs, hholds p c hp hc hown] at h'
      exact (Option.some.inj h').symm
  · intro hreads p c hp hc hown
    obtain ⟨⟨p', hne, hcs, c', i, hmem, hi⟩, hone⟩ := hreads p c hp hc hown
    obtain ⟨p'', hkey, hc''⟩ := mem_listing.1 (List.fst_mem_of_mem_zipIdx hmem)
    cases List.append_cancel_left hkey
    have hf : (p', c') ∈ sortedFiles files := mem_sortedFiles.2 ((hread p' c').2 ⟨hne, hc'', c', i, hmem, hi⟩)
    have hsome := hthere _ hf (by rw [hcs]; exact hown)
    rw [hcs] at hsome
    obtain ⟨d, hd⟩ := Option.isSome_iff_exists.1 hsome
    obtain ⟨g, hg, hq, rfl⟩ := hcame _ d (List.prefix_append _ _) hown hd
    obtain ⟨hgne, hgc, -⟩ := (hread g.1 g.2).1 (mem_sortedFiles.1 hg)
    rw [hd, hone g.1 g.2 hgne hgc (List.append_cancel_left hq).symm]

/-- An archiver that knows one list of files. -/
def archiver (files l : List (Text × Bytes)) : Except Text Bytes :=
  if l = files then .ok [0x1f, 0x8b] else .error "cannot append".toList

def unarchiver (files : List (Text × Bytes)) : ClientEnv :=
  { sampleClient with
    entries := fun gz => if gz = [0x1f, 0x8b] then .ok (files.map (fun f => .ok ⟨.file, .ok f.1, f.2⟩))
      else .error "invalid gzip header".toList }

theorem archiver_faithful (files : List (Text × Bytes)) : TarFaithful (archiver files) (unarchiver files).entries := by
  intro l gz hl
  unfold archiver at hl
  split at hl
  · rename_i he
    cases hl
    refine ⟨files.map (fun f : Text × Bytes => .ok ⟨.file, .ok f.1, f.2⟩), rfl, ?_⟩
    rw [List.forall₂_map_right_iff, he]
    exact List.forall₂_same.2 fun f _ => ⟨f.1, rfl, rfl⟩
  · cases hl

/-- A repository with two files, and an agent that has been set up. -/
def twoFiles : Backend :=
  { Backend.fresh with store := FMap.ofList [(Backend.currentKey "a".toList, [1]), (Backend.currentKey "b".toList, [2])] }

def sampleAgent : AgentServer where
  loaded _ := .ok ⟨⟩
  fetch _ := .error (.other [])
  manifestJson _ := []
  stateJson := []

def agentDir : Local := ⟨planted [("/agent/.vai/agent.toml".toList, [])], []⟩

/-- The call for one key fails. -/
def failsAt (key : Text) : Fails := ⟨fun _ => false, fun _ op => op = .get key⟩

theorem twoFiles_current {p : Path} {c : Bytes} (h : twoFiles.current p = some c) :
    p = "a".toList ∧ c = [1] ∨ p = "b".toList ∧ c = [2] := by
  have hmem := FMap.get_ofList_mem (l := [(Backend.currentKey "a".toList, [1]), (Backend.currentKey "b".toList, [2])]) h
  simp only [List.mem_cons, Prod.mk.injEq, List.not_mem_nil, or_false] at hmem
  exact hmem.imp (fun he => ⟨List.append_cancel_left he.1, he.2⟩) fun he => ⟨List.append_cancel_left he.1, he.2⟩

theorem twoFiles_read : ReadsCurrent ["agent".toList] ["agent".toList, "work".toList] twoFiles Fails.none := by
  intro p c _ hc _
  refine ⟨⟨p, ?_⟩, fun p' c' _ hc' hcs => ?_⟩
  · rcases twoFiles_current hc with ⟨rfl, -⟩ | ⟨rfl, -⟩
    · exact ⟨by decide, rfl, [1], 1, by decide +kernel, rfl⟩
    · exact ⟨by decide, rfl, [2], 0, by decide +kernel, rfl⟩
  · rcases twoFiles_current hc with ⟨rfl, rfl⟩ | ⟨rfl, rfl⟩ <;> rcases twoFiles_current hc' with ⟨rfl, rfl⟩ | ⟨rfl, rfl⟩
    · rfl
    · exact absurd hcs (by decide)
    · exact absurd hcs (by decide)
    · rfl

/-- The agent's run on `twoFiles`, with the archive it is sent. -/
def sampleDownload (sent : List (Text × Bytes)) (fails : Fails) : Except AgentError DownloadResult × Local :=
  agentDownload (unarchiver sent) (servedFrom Env.plain (archiver sent) [] (fun _ => (twoFiles, fails)) sampleAgent)
    ["agent".toList] ["agent".toList, "work".toList] agentDir

attribute [local irreducible] agentDownload

theorem accepted_download_iff_two : HoldsCurrent ["agent".toList] ["agent".toList, "work".toList] twoFiles
    (sampleDownload [("a".toList, [1]), ("b".toList, [2])] Fails.none).2.tree := by
  have hok : sampleDownload [("a".toList, [1]), ("b".toList, [2])] Fails.none =
      (.ok ⟨2⟩, (sampleDownload [("a".toList, [1]), ("b".toList, [2])] Fails.none).2) := Prod.ext (by decide +kernel) rfl
  exact (accepted_download_iff (archiver_faithful _) hok).2 twoFiles_read

/-- **A file that cannot be read is missing from an accepted download**: one of two files is sent, and one is expected. -/
theorem lost_file_is_accepted : ¬ ∀ (client : ClientEnv) (env : Env) (tarGz : List (Text × Bytes) → Except Text Bytes)
    (states : Nat → Backend × Fails) (agent : AgentServer) (dir target : List Name) (s s' : Local) (r : DownloadResult),
    TarFaithful tarGz client.entries →
    agentDownload client (servedFrom env tarGz [] states agent) dir target s = (.ok r, s') →
    HoldsCurrent dir target (states 1).1 s'.tree := by
  intro h
  have hok : sampleDownload [("b".toList, [2])] (failsAt (Backend.currentKey "a".toList)) =
      (.ok ⟨1⟩, (sampleDownload [("b".toList, [2])] (failsAt (Backend.currentKey "a".toList))).2) :=
    Prod.ext (by decide +kernel) rfl
  have hholds := h _ _ _ _ _ _ _ _ _ _ (archiver_faithful _) hok "a".toList [1] (by decide) (by decide +kernel)
    (by unfold AgentFile; decide +kernel)
  have hlost : (sampleDownload [("b".toList, [2])] (failsAt (Backend.currentKey "a".toList))).2.tree.file
      ["agent".toList, "work".toList, "a".toList] = none := by decide +kernel
  exact absurd (hlost.symm.trans hholds) (by decide)

end Remote
end Vai
