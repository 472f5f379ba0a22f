import Vai.Remote
/-!
# ClientPaths — where a command of the client writes

`pull`, `sync` and `clone` join the paths of the server to the directory and write there; `pull_force` and the agent's
download unpack an archive, and refuse an entry that is absolute or has `..` in it.

`commands_stay_inside`: the first three touch files inside their directory only, as long as every path that the server
sends stays there; the other two always do.
-/
namespace Vai
namespace Remote

open Proc FilePath LocalFs

variable {env : ClientEnv} {adapter : RemoteAdapter} {root : List Name} {t : Tree} {s s' : Local}

/-! ## Commands -/

/-- What a client can be asked to do in a directory. -/
inductive Command where
  | pull (adapter : RemoteAdapter)
  | sync (adapter : RemoteAdapter)
  | pullForce (adapter : RemoteAdapter)
  | clone (config : CloneConfig) (server : CloneServer)
  | agentDownload (server : AgentServer) (dir : List Name)

/-- Whether a procedure has ended well, and the state it leaves. -/
def finished {ε α : Type} (m : Proc Local ε α) (s : Local) : Bool × Local := ((m s).1.isOk, (m s).2)

def Command.run (env : ClientEnv) (root : List Name) : Command → Local → Bool × Local
  | .pull adapter => finished (Remote.pull env adapter root)
  | .sync adapter => finished (Remote.sync adapter root)
  | .pullForce adapter => finished (Remote.pullForce env adapter root)
  | .clone config server => finished (Remote.clone env root config server)
  | .agentDownload server dir => finished (Remote.agentDownload env server dir root)

/-- The files of a command: those of its directory, and for an agent also those of its own `.vai/`. -/
def Command.Home (root : List Name) : Command → List Name → Prop
  | .agentDownload _ dir, p => root <+: p ∨ dir ++ [vaiDir] <+: p
  | _, p => root <+: p

/-! ## The paths that a server sends -/

/-- The version in `.vai/head`. -/
def headIn (root : List Name) (t : Tree) : Option Text :=
  ((t.file (root ++ [vaiDir, "head".toList])).bind Text.fromUtf8).map Text.trim

/-- The changes that `sync` finds. -/
def syncChanges (adapter : RemoteAdapter) (localHead : Text) : Except RemoteError (FMap Text ChangeKind) := do
  let serverHead ← adapter.getServerHead
  if localHead = serverHead then pure ∅
  else
    let allVersions ← adapter.listVersions
    let newVersions ← versionsAfter localHead allVersions
    collectChanges adapter newVersions

/-- The files that a pull is asked to write: those that come with a content, and those of the manifest. -/
def pullWrites (adapter : RemoteAdapter) (localHead : Text) : List Text :=
  match adapter.pullIncremental localHead with
  | .error _ => []
  | .ok result =>
    (if result.headVersion = localHead then []
      else (result.files.filter (fun e => e.change ≠ .removed ∧ e.contentBase64.isSome)).map FilePullEntry.path) ++
    match adapter.getManifest with
    | .error _ => []
    | .ok manifest => manifest.files.map ManifestEntry.path

def pullRemovals (adapter : RemoteAdapter) (localHead : Text) : List Text :=
  match adapter.pullIncremental localHead with
  | .error _ => []
  | .ok result =>
    if result.headVersion = localHead then []
    else (result.files.filter (fun e => e.change = .removed)).map FilePullEntry.path

def syncPaths (adapter : RemoteAdapter) (keep : ChangeKind → Bool) (localHead : Text) : List Text :=
  match syncChanges adapter localHead with
  | .error _ => []
  | .ok changes => pathsWhere changes keep

/-- The paths at which the server has the client write. -/
def Command.writes (root : List Name) (t : Tree) : Command → List Text
  | .pull adapter => (headIn root t).toList.flatMap (pullWrites adapter)
  | .sync adapter => (headIn root t).toList.flatMap (syncPaths adapter fun k => k ≠ .removed)
  | .clone _ server =>
    match server.files with
    | .ok files => files
    | .error _ => []
  | _ => []

/-- And at which it has the client remove a file. -/
def Command.removals (root : List Name) (t : Tree) : Command → List Text
  | .pull adapter => (headIn root t).toList.flatMap (pullRemovals adapter)
  | .sync adapter => (headIn root t).toList.flatMap (syncPaths adapter fun k => k = .removed)
  | _ => []

/-- Every path to be written stays in the directory, and every path to be removed does or leads to no file. -/
structure Command.Contained (root : List Name) (t : Tree) (c : Command) : Prop where
  writes : ∀ w ∈ c.writes root t, Stays root w
  removals : ∀ r ∈ c.removals root t, Stays root r ∨ t.file (resolve root r) = none

/-! ## The client's own files -/

theorem readLocalHead_ends (s : Local) : Ends (readLocalHead root) s (fun v s' => s' = s ∧ headIn root s.tree = some v)
    (fun _ s' => s' = s) := by
  unfold readLocalHead headIn
  refine ends_bind (ends_read ?_)
  cases s.tree.file (root ++ [vaiDir, "head".toList]) with
  | none => exact ends_fail rfl
  | some bytes =>
    dsimp only [Option.bind_some]
    cases Text.fromUtf8 bytes with
    | none => exact ends_fail rfl
    | some raw => exact ends_pure ⟨rfl, rfl⟩

theorem resolve_headFile (root : List Name) : resolve root headFile = root ++ [vaiDir, "head".toList] :=
  resolve_of_plain rfl (by decide) root

/-- The name of a version that is newer than another one is made of `v`, digits and a sign. -/
theorem not_mem_of_newer {since : Nat} {v : Text} (h : since < parseVersionNum v) {c : Char} (hv : c ≠ 'v') (hsign : c ≠ '+')
    (hdigit : c.isDigit = false) : c ∉ v := by
  unfold parseVersionNum at h
  cases hn : Text.parseNat (Text.trimStartMatches 'v' v) with
  | none =>
    rw [hn] at h
    cases h
  | some n =>
    intro hmem
    rw [← List.takeWhile_append_dropWhile (p := fun c => decide (c = 'v')) (l := v), List.mem_append] at hmem
    rcases hmem with hmem | hmem
    · have hc := List.mem_takeWhile_imp hmem
      exact hv (of_decide_eq_true hc)
    · rcases Text.isDigit_of_parseNat hn c hmem with h' | h'
      · exact hsign h'
      · rw [hdigit] at h'
        cases h'

theorem newer_of_fetched {since : Nat} {metas : List VersionMeta} (hmetas : adapter.fetchVersionsSince since = .ok metas)
    {m : VersionMeta} (hm : m ∈ metas) : since < parseVersionNum m.versionId := by
  unfold RemoteAdapter.fetchVersionsSince at hmetas
  cases hp : adapter.versionPages with
  | error e =>
    rw [hp] at hmetas
    cases hmetas
  | ok l =>
    rw [hp] at hmetas
    cases hmetas
    simpa using (List.mem_filter.1 hm).2

theorem versionFile_eq (v : Text) : versionFile v = joinNames [vaiDir, "versions".toList, v ++ ".toml".toList] := by
  unfold versionFile joinNames
  simp [List.intercalate, List.intersperse, vaiDir]

theorem isName_versionFile {since : Nat} {v : Text} (h : since < parseVersionNum v) :
    ∀ c ∈ [vaiDir, "versions".toList, v ++ ".toml".toList], isName c = true := by
  have hslash : '/' ∉ v ++ ".toml".toList := by
    rw [List.mem_append, not_or]
    exact ⟨not_mem_of_newer h (by decide) (by decide) rfl, by decide⟩
  have hlong : 5 ≤ (v ++ ".toml".toList).length := by simp
  intro c hc
  simp only [List.mem_cons, List.not_mem_nil, or_false] at hc
  rcases hc with rfl | rfl | rfl
  · decide
  · decide
  · refine isName_iff.2 ⟨fun he => ?_, hslash, fun he => ?_, fun he => ?_⟩
    all_goals
      rw [he] at hlong
      exact absurd hlong (by decide)

theorem resolve_versionFile {since : Nat} {v : Text} (h : since < parseVersionNum v) :
    resolve root (versionFile v) = root ++ [vaiDir, "versions".toList, v ++ ".toml".toList] := by
  rw [versionFile_eq]
  exact resolve_joinNames (isName_versionFile h) root

theorem syncChanges_of_steps {localHead serverHead : Text} {all new : List Text} {changes : FMap Text ChangeKind}
    (hserver : adapter.getServerHead = .ok serverHead) (hne : localHead ≠ serverHead) (hall : adapter.listVersions = .ok all)
    (hnew : versionsAfter localHead all = .ok new) (hch : collectChanges adapter new = .ok changes) :
    syncChanges adapter localHead = .ok changes := by
  unfold syncChanges
  rw [hserver]
  show (if localHead = serverHead then _ else _) = _
  rw [if_neg hne, hall]
  show (do
    let newVersions ← versionsAfter localHead all
    collectChanges adapter newVersions) = _
  rw [hnew]
  exact hch

/-! ## Commands stay inside -/

section Confined

variable {H : List Name → Prop} {s₀ : Local}

theorem confined_applyChanges {files : List FilePullEntry}
    (hw : ∀ e ∈ files, e.change ≠ .removed → e.contentBase64.isSome → H (resolve root e.path))
    (hr : ∀ e ∈ files, e.change = .removed → H (resolve root e.path) ∨ s₀.tree.file (resolve root e.path) = none) :
    Keeps (Confined H s₀) (applyChanges env root files) := by
  refine Keeps.bind (keeps_foldlM_mem (fun e he updated => ?_) _) fun _ =>
    Keeps.bind (keeps_foldlM_mem (fun e he removed => ?_) _) fun _ => keeps_pure _ _
  · obtain ⟨hmem, hkind⟩ := List.mem_filter.1 he
    unfold pullEntry
    cases hc : e.contentBase64 with
    | none => exact keeps_pure _ _
    | some b64 =>
      refine keeps_ofExcept_bind fun content _ => ?_
      exact ((confined_install (hw e hmem (by simpa using hkind) (by rw [hc]; rfl))).mapErr _).bind fun _ => keeps_pure _ _
  · obtain ⟨hmem, hkind⟩ := List.mem_filter.1 he
    exact ((confined_discard (hr e hmem (by simpa using hkind))).mapErr _).bind fun _ => keeps_pure _ _

theorem confined_restore {files : List ManifestEntry} (h : ∀ e ∈ files, H (resolve root e.path))
    (localMap : FMap Text Text) (updated : List Text) :
    Keeps (Confined H s₀) (files.foldlM (restoreEntry adapter root localMap updated) []) := by
  refine keeps_foldlM_mem (fun e he restored => keeps_ite (keeps_pure _ _) ?_) _
  exact keeps_ofExcept_bind fun content _ => ((confined_install (h e he)).mapErr _).bind fun _ => keeps_pure _ _

variable (hroot : ∀ p, root <+: p → H p)

include hroot

theorem confined_writeHead (v : Text) : Keeps (Confined H s₀) (writeHead root v) := by
  refine (confined_write (hroot _ ?_)).mapErr _
  rw [resolve_headFile]
  exact List.prefix_append _ _

theorem confined_writeVersionMetas (since : Nat) : Keeps (Confined H s₀) (writeVersionMetas env adapter root since) := by
  refine keeps_ofExcept_bind fun metas hmetas => keeps_ite (keeps_pure _ _) ?_
  refine ((confined_createDirAll _ _).mapErr _).bind fun _ => keeps_forM_mem fun m hm => ?_
  refine (confined_write (hroot _ ?_)).mapErr _
  rw [resolve_versionFile (newer_of_fetched hmetas hm)]
  exact List.prefix_append _ _

theorem confined_finishPull (localHead newVersion : Text) :
    Keeps (Confined H s₀) (finishPull env adapter root localHead newVersion) :=
  keeps_ite ((confined_writeHead hroot _).bind fun _ => confined_writeVersionMetas hroot _) (keeps_pure _ _)

/-- What is unpacked stays in its directory, whatever the archive holds. -/
theorem confined_extractTarball (gz : Bytes) : Keeps (Confined H s₀) (extractTarball env root gz) := by
  refine keeps_ofExcept_bind fun entries _ => keeps_foldlM_mem (fun entry _ written => ?_) _
  unfold extractEntry
  cases entry with
  | error e => exact keeps_fail _ _
  | ok entry =>
    refine keeps_ite (keeps_pure _ _) ?_
    cases entry.path with
    | error e => exact keeps_fail _ _
    | ok path =>
      dsimp only
      split
      · exact keeps_fail _ _
      · rename_i hsafe
        have hinside : root <+: resolve root path := by
          unfold unsafePath at hsafe
          rw [Bool.or_eq_true, not_or, Bool.not_eq_true, decide_eq_true_iff] at hsafe
          rw [resolve_of_plain hsafe.1 hsafe.2]
          exact List.prefix_append _ _
        refine keeps_ite (((confined_createDirAll _ _).mapErr _).bind fun _ => keeps_pure _ _) ?_
        exact ((confined_createDirAll _ _).mapErr _).bind fun _ =>
          ((confined_write (hroot _ hinside)).mapErr _).bind fun _ => keeps_pure _ _

theorem confined_removeStaleLocalFiles (serverPaths : List Text) :
    Keeps (Confined H s₀) (removeStaleLocalFiles root serverPaths) := by
  intro s hs
  refine (Keeps.bind (keeps_forM_mem fun path hpath => (confined_removeFile (hroot _ ?_)).mapErr _) fun _ =>
    keeps_pure _ _ : Keeps (Confined H s₀) _) s hs
  obtain ⟨q, hq, rfl⟩ := List.mem_map.1 hpath
  rw [resolve_joinNames (Tree.isName_of_file (mem_filesBelow.1 (List.mem_filter.1 hq).1))]
  exact List.prefix_append _ _

theorem confined_downloadAttempt {server : AgentServer} (i : Nat) :
    Keeps (Confined H s₀) (downloadAttempt env server root i) := by
  have hremove : Keeps (Confined H s₀) (mapErr AgentError.io (removeDirAll root)) :=
    (confined_removeDirAll hroot).mapErr _
  refine Keeps.bind ((keeps_read _ _).bind fun _ => keeps_ite hremove (keeps_pure _ _)) fun _ => ?_
  refine ((confined_createDirAll _ _).mapErr _).bind fun _ => (keeps_ofExcept _ _ _).bind fun gz => ?_
  exact (((confined_extractTarball hroot _).bind fun _ => keeps_pure _ _).mapErr _).bind fun _ => keeps_pure _ _

theorem confined_downloadAttempts {server : AgentServer} {dir : List Name} (hdir : ∀ p, dir ++ [vaiDir] <+: p → H p) :
    ∀ n, Keeps (Confined H s₀) (downloadAttempts env server dir root n)
  | 0 => keeps_fail _ _
  | n + 1 => by
    have hmanifest : H (resolve dir ".vai/download-manifest.json".toList) := by
      rw [resolve_of_plain rfl (by decide)]
      exact hdir _ ((List.prefix_append_right_inj dir).2 (by decide))
    have hstate : H (resolve dir ".vai/agent-state.json".toList) := by
      rw [resolve_of_plain rfl (by decide)]
      exact hdir _ ((List.prefix_append_right_inj dir).2 (by decide))
    refine (confined_downloadAttempt hroot _).bind fun r => keeps_ite ?_ (keeps_ite ?_ (confined_downloadAttempts hdir n))
    · exact (keeps_read _ _).bind fun _ => ((confined_write hmanifest).mapErr _).bind fun _ =>
        ((confined_write hstate).mapErr _).bind fun _ => keeps_pure _ _
    · exact (((confined_removeDirAll hroot).mapErr _).attempt).bind fun _ => keeps_fail _ _

end Confined

theorem confined_start {H : List Name → Prop} (hs : s.touched = []) : Confined H s s :=
  ⟨(by rw [hs]; exact fun _ h => absurd h List.not_mem_nil), fun _ _ => rfl⟩

/-- The head is read, and the rest keeps what it starts with. -/
theorem confined_after_head {H : List Name → Prop} {α : Type} {f : Text → Proc Local RemoteError α} (hs : s.touched = [])
    (hf : ∀ v, headIn root s.tree = some v → Keeps (Confined H s) (f v)) :
    Ends (readLocalHead root >>= f) s (fun _ s' => Confined H s s') (fun _ s' => Confined H s s') := by
  refine (readLocalHead_ends s).bind (fun _ _ h => by rw [h]; exact confined_start hs) ?_
  rintro v s₁ ⟨rfl, hv⟩
  exact (hf v hv).ends (confined_start hs)

theorem pull_confined (hs : s.touched = []) (hc : (Command.pull adapter).Contained root s.tree) :
    Ends (pull env adapter root) s (fun _ s' => Confined (root <+: ·) s s') (fun _ s' => Confined (root <+: ·) s s') := by
  refine confined_after_head hs fun localHead hhead => keeps_ofExcept_bind fun result hres => ?_
  have hw := hc.writes
  have hr := hc.removals
  simp only [Command.writes, Command.removals, hhead, Option.toList_some, List.flatMap_singleton, pullWrites, pullRemovals,
    hres, stays_iff] at hw hr
  refine Keeps.bind ?_ fun r => Keeps.bind ?_ fun _ => (confined_finishPull (fun _ h => h) _ _).bind fun _ => keeps_pure _ _
  · unfold firstPass
    split
    · rename_i hnew
      rw [if_neg hnew.1] at hw hr
      refine confined_applyChanges (fun e he hk hcont => hw _ (List.mem_append_left _ ?_)) fun e he hk => hr _ ?_
      · exact List.mem_map.2 ⟨e, List.mem_filter.2 ⟨he, by simp [hk, hcont]⟩, rfl⟩
      · exact List.mem_map.2 ⟨e, List.mem_filter.2 ⟨he, by simp [hk]⟩, rfl⟩
    · exact keeps_pure _ _
  · refine keeps_ofExcept_bind fun manifest hman => (keeps_read _ _).bind fun localMap => ?_
    refine confined_restore (fun e he => hw _ (List.mem_append_right _ ?_)) _ _
    rw [hman]
    exact List.mem_map.2 ⟨e, he, rfl⟩

theorem sync_confined (hs : s.touched = []) (hc : (Command.sync adapter).Contained root s.tree) :
    Ends (sync adapter root) s (fun _ s' => Confined (root <+: ·) s s') (fun _ s' => Confined (root <+: ·) s s') := by
  refine confined_after_head hs fun localHead hhead => keeps_ofExcept_bind fun serverHead hserver => ?_
  have hw := hc.writes
  have hr := hc.removals
  simp only [Command.writes, Command.removals, hhead, Option.toList_some, List.flatMap_singleton, syncPaths, stays_iff]
    at hw hr
  split
  · exact keeps_pure _ _
  rename_i hne
  refine keeps_ofExcept_bind fun all hall => keeps_ofExcept_bind fun new hnew => keeps_ofExcept_bind fun changes hch => ?_
  have hsync := syncChanges_of_steps hserver hne hall hnew hch
  rw [hsync] at hw hr
  refine (keeps_forM_mem fun path hpath => keeps_ofExcept_bind fun _ _ => (confined_install (hw path hpath)).mapErr _).bind
    fun _ => ?_
  refine (keeps_forM_mem fun path hpath => (confined_discard (hr path hpath)).mapErr _).bind fun _ => ?_
  exact (confined_writeHead (fun _ h => h) _).bind fun _ => keeps_pure _ _

theorem pullForce_confined (hs : s.touched = []) : Ends (pullForce env adapter root) s
    (fun _ s' => Confined (root <+: ·) s s') (fun _ s' => Confined (root <+: ·) s s') := by
  have hhead : Keeps (Confined (root <+: ·) s) (readLocalHead root) := by
    refine keeps_iff_ends.2 fun s' hs' => (readLocalHead_ends s').mono (fun _ _ h => ?_) fun _ _ h => ?_
    · rw [h.1]
      exact hs'
    · rw [h]
      exact hs'
  refine Keeps.ends ?_ (confined_start hs)
  refine hhead.attempt.bind fun _ => (keeps_ofExcept _ _ _).bind fun dl => (keeps_ofExcept _ _ _).bind fun paths =>
    (keeps_ofExcept _ _ _).bind fun _ => ?_
  refine (confined_removeStaleLocalFiles (fun _ h => h) _).bind fun _ => ?_
  refine (confined_extractTarball (fun _ h => h) _).bind fun _ => ?_
  refine Keeps.bind (keeps_ite (confined_writeHead (fun _ h => h) _) (keeps_pure _ _)) fun _ => ?_
  exact (confined_writeVersionMetas (fun _ h => h) _).bind fun _ => keeps_pure _ _

theorem clone_confined {config : CloneConfig} {server : CloneServer} (hs : s.touched = [])
    (hc : (Command.clone config server).Contained root s.tree) : Ends (clone env root config server) s
      (fun _ s' => Confined (root <+: ·) s s') (fun _ s' => Confined (root <+: ·) s s') := by
  have hw := hc.writes
  simp only [Command.writes, stays_iff] at hw
  have hown : ∀ name : Text, isAbsolute name = false → dotDot ∉ components name → root <+: resolve root name := by
    intro name hrel hdots
    rw [resolve_of_plain hrel hdots]
    exact List.prefix_append _ _
  refine Keeps.ends ((keeps_read _ _).bind fun there => keeps_ite (keeps_fail _ _) ?_) (confined_start hs)
  refine (keeps_ofExcept _ _ _).bind fun repoName => keeps_ofExcept_bind fun files hfiles => ?_
  rw [hfiles] at hw
  refine ((confined_createDirAll _ _).mapErr _).bind fun _ => Keeps.bind (keeps_foldlM_mem (fun path hpath total => ?_) _)
    fun total => Keeps.bind ?_ fun _ => keeps_pure _ _
  · exact (keeps_ofExcept _ _ _).bind fun _ => (keeps_ofExcept _ _ _).bind fun _ =>
      ((confined_install (hw path hpath)).mapErr _).bind fun _ => keeps_pure _ _
  · refine (keeps_forM (fun names => (confined_createDirAll _ _).mapErr _) _).bind fun _ => ?_
    refine ((confined_write (hown _ rfl (by decide))).mapErr _).bind fun _ => ?_
    refine ((confined_write (hown _ rfl (by decide))).mapErr _).bind fun _ => ?_
    exact (confined_write (hown _ rfl (by decide))).mapErr _

theorem finished_of_ends {ε α : Type} {m : Proc Local ε α} {P : Local → Prop}
    (h : Ends m s (fun _ s' => P s') (fun _ s' => P s')) : P (finished m s).2 := by
  show P (m s).2
  rcases hm : m s with ⟨e | a, s'⟩
  · exact h.error hm
  · exact h.ok hm

/-- A command stays inside when the paths that it is sent do, whichever way it ends. -/
theorem Command.confined {c : Command} (hs : s.touched = []) (hc : c.Contained root s.tree) :
    Confined (c.Home root) s (c.run env root s).2 := by
  cases c with
  | pull adapter => exact finished_of_ends (pull_confined hs hc)
  | sync adapter => exact finished_of_ends (sync_confined hs hc)
  | pullForce adapter => exact finished_of_ends (pullForce_confined hs)
  | clone config server => exact finished_of_ends (clone_confined hs hc)
  | agentDownload server dir =>
    apply finished_of_ends
    refine Keeps.ends ((keeps_read _ _).bind fun loaded => (keeps_ofExcept _ _ _).bind fun _ => ?_) (confined_start hs)
    exact confined_downloadAttempts (fun _ h => .inl h) (fun _ h => .inr h) _

/-! ## What a command that ends well has touched -/

/-- The file was touched, or it lies inside. -/
def Reached (root : List Name) (path : Text) (s : Local) : Prop :=
  resolve root path ∈ s.touched ∨ root <+: resolve root path

theorem reached_mono (path : Text) (s s' : Local) (h : Reached root path s) (hs : Later s s') : Reached root path s' :=
  h.imp_left hs.mem

/-- The file was touched if the path led to one at the start. -/
def Gone (root : List Name) (s₀ : Local) (path : Text) (s : Local) : Prop :=
  LeadsToFile root path s₀.tree → resolve root path ∈ s.touched

theorem gone_mono (s₀ : Local) (path : Text) (s s' : Local) (h : Gone root s₀ path s) (hs : Later s s') :
    Gone root s₀ path s' := fun hl => hs.mem (h hl)

theorem discard_gone {s₀ : Local} {path : Text} (hs : Later s₀ s) : Ends (mapErr RemoteError.io (discard root path)) s
    (fun _ s' => Later s s' ∧ Gone root s₀ path s') (fun _ _ => True) := by
  refine ends_mapErr ((discard_later s).mono (fun _ s' h => ⟨h.1, fun hl => ?_⟩) fun _ _ _ => trivial)
  rcases hl.later hs with hl | hmem
  · exact h.2 hl
  · exact h.1.mem hmem

theorem install_touches {ε : Type} (g : FsError → ε) (path : Text) (content : Bytes) (s : Local) :
    Ends (mapErr g (install root path content)) s (fun _ s' => Later s s' ∧ resolve root path ∈ s'.touched)
      (fun _ _ => True) := ends_mapErr ((install_later s).mono (fun _ _ h => h) fun _ _ _ => trivial)

theorem inside_of_localMap {t : Tree} {path : Text} (h : ((collectLocalHashes env root t).get path).isSome) :
    root <+: resolve root path := by
  obtain ⟨hash, hget⟩ := Option.isSome_iff_exists.1 h
  obtain ⟨q, hq, he⟩ := List.mem_map.1 (FMap.get_ofList_mem hget)
  cases he
  rw [resolve_joinNames (Tree.isName_of_file (mem_filesBelow.1 (List.mem_filter.1 hq).1))]
  exact List.prefix_append _ _

theorem later_writeHead (s₀ : Local) (v : Text) : Keeps (Later s₀) (writeHead root v) := (later_write _ _ _).mapErr _

theorem later_finishPull (s₀ : Local) (localHead v : Text) : Keeps (Later s₀) (finishPull env adapter root localHead v) := by
  refine keeps_ite ((later_writeHead s₀ v).bind fun _ => (keeps_ofExcept _ _ _).bind fun metas => ?_) (keeps_pure _ _)
  refine keeps_ite (keeps_pure _ _) (((later_createDirAll _ _).mapErr _).bind fun _ => keeps_forM (fun m => ?_) _)
  exact (later_write _ _ _).mapErr _

/-- Pass 1 writes every entry that comes with a content, and tells which. -/
theorem pullEntries_reached (files : List FilePullEntry) : Ends (files.foldlM (pullEntry env root) []) s
    (fun updated s' => Later s s' ∧ (∀ e ∈ files, e.contentBase64.isSome → Reached root e.path s') ∧
      ∀ p ∈ updated, Reached root p s') (fun _ _ => True) := by
  refine ends_foldlM (fun pre (updated : List Text) s' => Later s s' ∧
    (∀ e ∈ pre, e.contentBase64.isSome → Reached root e.path s') ∧ ∀ p ∈ updated, Reached root p s') files [] [] s
    ⟨later_refl s, by simp, by simp⟩ ?_
  intro pre e post updated s₁ _ ⟨hlater, hpre, hupdated⟩
  unfold pullEntry
  cases hc : e.contentBase64 with
  | none =>
    refine ends_pure ⟨hlater, fun e' he' hsome => ?_, hupdated⟩
    rcases List.mem_append.1 he' with he' | he'
    · exact hpre e' he' hsome
    · rw [List.mem_singleton.1 he', hc] at hsome
      cases hsome
  | some b64 =>
    refine ends_bind (ends_ofExcept (fun content _ => ?_) fun _ _ => trivial)
    refine (install_touches RemoteError.io e.path content s₁).bind (fun _ _ h => h) fun _ s₂ h₂ =>
      ends_pure ⟨hlater.trans h₂.1, ?_, ?_⟩
    · intro e' he' hsome
      rcases List.mem_append.1 he' with he' | he'
      · exact reached_mono _ s₁ s₂ (hpre e' he' hsome) h₂.1
      · rw [List.mem_singleton.1 he']
        exact .inl h₂.2
    · intro p hp
      rcases List.mem_append.1 hp with hp | hp
      · exact reached_mono _ s₁ s₂ (hupdated p hp) h₂.1
      · rw [List.mem_singleton.1 hp]
        exact .inl h₂.2

theorem applyChanges_reached (files : List FilePullEntry) : Ends (applyChanges env root files) s
    (fun r s' => Later s s' ∧ (∀ e ∈ files, e.change ≠ .removed → e.contentBase64.isSome → Reached root e.path s') ∧
      (∀ e ∈ files, e.change = .removed → Gone root s e.path s') ∧ ∀ p ∈ r.1, Reached root p s') (fun _ _ => True) := by
  refine (pullEntries_reached _).bind (fun _ _ h => h) fun updated s₁ ⟨hlater, hwritten, hupdated⟩ => ?_
  refine Ends.bind (foldlM_later (T := fun e s' => Gone root s (FilePullEntry.path e) s') (fun e => gone_mono s e.path) []
    (fun e _ removed s₂ hs₂ => ?_) hlater) (fun _ _ h => h) fun removed s₂ ⟨hlater', hgone⟩ => ends_pure ⟨?_, ?_, ?_, ?_⟩
  · exact (discard_gone hs₂).bind (fun _ _ h => h) fun _ _ h => ends_pure h
  · exact hlater.trans hlater'
  · exact fun e he hk hc => reached_mono _ s₁ s₂ (hwritten e (List.mem_filter.2 ⟨he, by simpa using hk⟩) hc) hlater'
  · exact fun e he hk => hgone e (List.mem_filter.2 ⟨he, by simpa using hk⟩)
  · exact fun p hp => reached_mono _ s₁ s₂ (hupdated p hp) hlater'

theorem restorePass_reached {updated : List Text} (hupdated : ∀ p ∈ updated, Reached root p s) :
    Ends (restorePass env adapter root updated) s (fun _ s' => Later s s' ∧
      ∀ manifest, adapter.getManifest = .ok manifest → ∀ e ∈ manifest.files, Reached root e.path s') (fun _ _ => True) := by
  refine ends_bind (ends_ofExcept (fun manifest hman => ?_) fun _ _ => trivial)
  refine ends_bind (ends_read ?_)
  refine (foldlM_later (T := fun e s' => Reached root (ManifestEntry.path e) s') (fun e => reached_mono e.path) []
    (fun e _ restored s₂ hs₂ => ?_) (later_refl s)).mono (fun _ _ h => ⟨h.1, fun manifest' hman' => ?_⟩) fun _ _ h => h
  · unfold restoreEntry
    split
    · rename_i hskip
      refine ends_pure ⟨later_refl _, ?_⟩
      rcases hskip with hskip | hskip
      · exact reached_mono _ s s₂ (hupdated _ hskip) hs₂
      · exact .inr (inside_of_localMap hskip)
    · refine ends_bind (ends_ofExcept (fun content _ => ?_) fun _ _ => trivial)
      exact (install_touches RemoteError.io e.path content s₂).bind (fun _ _ h => h) fun _ _ h => ends_pure ⟨h.1, .inl h.2⟩
  · rw [hman] at hman'
    cases hman'
    exact h.2

/-- A command has done all that it was asked to. -/
structure Command.Done (root : List Name) (c : Command) (s s' : Local) : Prop where
  writes : ∀ w ∈ c.writes root s.tree, Reached root w s'
  removals : ∀ r ∈ c.removals root s.tree, Gone root s r s'

theorem pull_done : Ends (pull env adapter root) s (fun _ s' => (Command.pull adapter).Done root s s') (fun _ _ => True) := by
  refine (readLocalHead_ends s).bind (fun _ _ _ => trivial) ?_
  rintro localHead s₀ ⟨rfl, hhead⟩
  refine ends_bind (ends_ofExcept (fun result hres => ?_) fun _ _ => trivial)
  have hfirst : Ends (firstPass env root localHead result) s₀ (fun r s' => Later s₀ s' ∧
      (result.headVersion ≠ localHead → (∀ e ∈ result.files, e.change ≠ .removed → e.contentBase64.isSome →
        Reached root e.path s') ∧ ∀ e ∈ result.files, e.change = .removed → Gone root s₀ e.path s') ∧
      ∀ p ∈ r.1, Reached root p s') (fun _ _ => True) := by
    unfold firstPass
    by_cases hnew : result.headVersion ≠ localHead ∧ result.files ≠ []
    · rw [if_pos hnew]
      exact (applyChanges_reached _).mono (fun _ _ h => ⟨h.1, fun _ => ⟨h.2.1, h.2.2.1⟩, h.2.2.2⟩) fun _ _ h => h
    · rw [if_neg hnew]
      refine ends_pure ⟨later_refl _, fun hne => ?_, fun _ h => absurd h List.not_mem_nil⟩
      rw [not_and, not_not] at hnew
      rw [hnew hne]
      exact ⟨fun _ h => absurd h List.not_mem_nil, fun _ h => absurd h List.not_mem_nil⟩
  refine hfirst.bind (fun _ _ h => h) ?_
  rintro ⟨updated, removed⟩ s₁ ⟨hlater, hchanges, hupdated⟩
  refine Ends.bind (restorePass_reached hupdated) (fun _ _ h => h) fun restored s₂ ⟨hlater', hmanifest⟩ => ?_
  refine ((later_finishPull s₂ localHead result.headVersion).ends (later_refl s₂)).bind (fun _ _ _ => trivial)
    fun _ s₃ h₃ => ends_pure ⟨fun w hw => ?_, fun r hr => ?_⟩
  · simp only [Command.writes, hhead, Option.toList_some, List.flatMap_singleton, pullWrites, hres, List.mem_append] at hw
    rcases hw with hw | hw
    · by_cases hnew : result.headVersion = localHead
      · rw [if_pos hnew] at hw
        exact absurd hw List.not_mem_nil
      · rw [if_neg hnew] at hw
        obtain ⟨e, he, rfl⟩ := List.mem_map.1 hw
        obtain ⟨hmem, hkind⟩ := List.mem_filter.1 he
        have hkind := of_decide_eq_true hkind
        exact reached_mono _ s₁ s₃ ((hchanges hnew).1 e hmem hkind.1 hkind.2) (hlater'.trans h₃)
    · cases hman : adapter.getManifest with
      | error e =>
        rw [hman] at hw
        exact absurd hw List.not_mem_nil
      | ok manifest =>
        rw [hman] at hw
        obtain ⟨e, he, rfl⟩ := List.mem_map.1 hw
        exact reached_mono _ s₂ s₃ (hmanifest manifest hman e he) h₃
  · simp only [Command.removals, hhead, Option.toList_some, List.flatMap_singleton, pullRemovals, hres] at hr
    by_cases hnew : result.headVersion = localHead
    · rw [if_pos hnew] at hr
      exact absurd hr List.not_mem_nil
    · rw [if_neg hnew] at hr
      obtain ⟨e, he, rfl⟩ := List.mem_map.1 hr
      obtain ⟨hmem, hkind⟩ := List.mem_filter.1 he
      exact gone_mono s₀ _ s₁ s₃ ((hchanges hnew).2 e hmem (of_decide_eq_true hkind)) (hlater'.trans h₃)

theorem sync_done : Ends (sync adapter root) s (fun _ s' => (Command.sync adapter).Done root s s') (fun _ _ => True) := by
  refine (readLocalHead_ends s).bind (fun _ _ _ => trivial) ?_
  rintro localHead s₀ ⟨rfl, hhead⟩
  refine ends_bind (ends_ofExcept (fun serverHead hserver => ?_) fun _ _ => trivial)
  by_cases hne : localHead = serverHead
  · rw [if_pos hne]
    have hnone : syncChanges adapter localHead = .ok ∅ := by
      unfold syncChanges
      rw [hserver]
      show (if localHead = serverHead then _ else _) = _
      rw [if_pos hne]
      rfl
    refine ends_pure ⟨?_, ?_⟩
    all_goals
      simp only [Command.writes, Command.removals, hhead, Option.toList_some, List.flatMap_singleton, syncPaths, hnone]
      exact fun _ h => absurd h List.not_mem_nil
  rw [if_neg hne]
  refine ends_bind (ends_ofExcept (fun all hall => ?_) fun _ _ => trivial)
  refine ends_bind (ends_ofExcept (fun new hnew => ?_) fun _ _ => trivial)
  refine ends_bind (ends_ofExcept (fun changes hch => ?_) fun _ _ => trivial)
  have hsync := syncChanges_of_steps hserver hne hall hnew hch
  refine Ends.bind (forM_later (T := fun path s' => Reached root path s') reached_mono (fun path _ s₁ _ => ?_)
    (later_refl s₀)) (fun _ _ h => h) fun _ s₁ ⟨hlater, hwritten⟩ => ?_
  · refine ends_bind (ends_ofExcept (fun content _ => ?_) fun _ _ => trivial)
    exact (install_touches RemoteError.io path content s₁).mono (fun _ _ h => ⟨h.1, .inl h.2⟩) fun _ _ h => h
  refine Ends.bind (forM_later (T := fun path s' => Gone root s₀ path s') (gone_mono s₀) (fun path _ s₂ hs₂ =>
    discard_gone hs₂) hlater) (fun _ _ h => h) fun _ s₂ ⟨hlater', hgone⟩ => ?_
  refine ((later_writeHead s₂ serverHead).ends (later_refl s₂)).bind (fun _ _ _ => trivial) fun _ s₃ h₃ =>
    ends_pure ⟨fun w hw => ?_, fun r hr => ?_⟩
  · simp only [Command.writes, hhead, Option.toList_some, List.flatMap_singleton, syncPaths, hsync] at hw
    exact reached_mono w s₁ s₃ (hwritten w hw) (hlater'.trans h₃)
  · simp only [Command.removals, hhead, Option.toList_some, List.flatMap_singleton, syncPaths, hsync] at hr
    exact gone_mono s₀ r s₂ s₃ (hgone r hr) h₃

theorem clone_done {config : CloneConfig} {server : CloneServer} : Ends (clone env root config server) s
    (fun _ s' => (Command.clone config server).Done root s s') (fun _ _ => True) := by
  refine ends_bind (ends_read ?_)
  split
  · exact ends_fail trivial
  refine ends_bind (ends_ofExcept (fun repoName _ => ?_) fun _ _ => trivial)
  refine ends_bind (ends_ofExcept (fun files hfiles => ?_) fun _ _ => trivial)
  refine (((later_createDirAll [] root).mapErr CloneError.io).ends (later_refl s)).bind (fun _ _ _ => trivial) fun _ s₁ h₁ => ?_
  refine Ends.bind (foldlM_later (T := fun path s' => Reached root path s') reached_mono 0 (fun path _ total s₂ _ => ?_)
    h₁) (fun _ _ h => h) fun total s₂ ⟨_, hwritten⟩ => ?_
  · refine ends_bind (ends_ofExcept (fun b64 _ => ?_) fun _ _ => trivial)
    refine ends_bind (ends_ofExcept (fun content _ => ?_) fun _ _ => trivial)
    exact (install_touches CloneError.io path content s₂).bind (fun _ _ h => h) fun _ _ h => ends_pure ⟨h.1, .inl h.2⟩
  · have hvai : Keeps (Later s₂) (writeVai root config repoName server.head) := by
      refine (keeps_forM (fun names => (later_createDirAll _ _).mapErr _) _).bind fun _ => ?_
      exact ((later_write _ _ _).mapErr _).bind fun _ => ((later_write _ _ _).mapErr _).bind fun _ => (later_write _ _ _).mapErr _
    refine (hvai.ends (later_refl s₂)).bind (fun _ _ _ => trivial) fun _ s₃ h₃ => ends_pure ⟨fun w hw => ?_, ?_⟩
    · simp only [Command.writes, hfiles] at hw
      exact reached_mono w s₂ s₃ (hwritten w hw) h₃
    · exact fun _ h => absurd h List.not_mem_nil

theorem finished_ok {ε α : Type} {m : Proc Local ε α} {P : Local → Prop}
    (h : Ends m s (fun _ s' => P s') (fun _ _ => True)) (hok : (finished m s).1 = true) : P (finished m s).2 := by
  unfold finished at hok ⊢
  rcases hm : m s with ⟨e | a, s'⟩
  · rw [hm] at hok
    cases hok
  · exact h.ok hm

/-- A command that ends well has touched every file that it was sent, except inside. -/
theorem Command.done {c : Command} (hok : (c.run env root s).1 = true) : c.Done root s (c.run env root s).2 := by
  cases c with
  | pull adapter => exact finished_ok pull_done hok
  | sync adapter => exact finished_ok sync_done hok
  | pullForce adapter => exact ⟨fun _ h => absurd h List.not_mem_nil, fun _ h => absurd h List.not_mem_nil⟩
  | clone config server => exact finished_ok clone_done hok
  | agentDownload server dir => exact ⟨fun _ h => absurd h List.not_mem_nil, fun _ h => absurd h List.not_mem_nil⟩

/-! ## The main result -/

theorem Command.home_iff {c : Command} {path : List Name} {w : Text} (hw : w ∈ c.writes root t ∨ w ∈ c.removals root t) :
    c.Home root path ↔ root <+: path := by
  cases c with
  | agentDownload server dir => rcases hw with hw | hw <;> exact absurd hw List.not_mem_nil
  | _ => exact Iff.rfl

/-- **A command touches files inside only when the paths it is sent stay inside**, however it ends.  And when it ends
well, it has touched what it was sent: it stayed inside just when those paths do. -/
theorem commands_stay_inside (c : Command) (hs : s.touched = []) :
    (c.Contained root s.tree → ∀ p ∈ (c.run env root s).2.touched, c.Home root p) ∧
    ((c.run env root s).1 = true → (∀ p ∈ (c.run env root s).2.touched, c.Home root p) →
      (∀ w ∈ c.writes root s.tree, Stays root w) ∧
      ∀ r ∈ c.removals root s.tree, Stays root r ∨ ¬ LeadsToFile root r s.tree) := by
  refine ⟨fun hc => (Command.confined hs hc).touched, fun hok hhome => ⟨fun w hw => ?_, fun r hr => ?_⟩⟩
  · rw [stays_iff]
    rcases (Command.done hok).writes w hw with hmem | hin
    · exact (Command.home_iff (.inl hw)).1 (hhome _ hmem)
    · exact hin
  · by_cases hl : LeadsToFile root r s.tree
    · rw [stays_iff]
      exact .inl ((Command.home_iff (.inr hr)).1 (hhome _ ((Command.done hok).removals r hr hl)))
    · exact .inr hl

/-- The client of the examples below: empty contents only. -/
def sampleClient : ClientEnv where
  sha256Hex _ := "e3b0c44298fc1c149afbf4c8996fb92427ae41e4649b934ca495991b7852b855".toList
  base64Decode s := if s = [] then .ok [] else .error "Invalid symbol".toList
  entries _ := .ok []
  versionToml _ := []

/-- A server at `v2` that sends one new file. -/
def sampleServer (path : Text) : RemoteAdapter where
  getManifest := .ok ⟨"v2".toList, [⟨path, []⟩]⟩
  pullIncremental _ := .ok ⟨"v2".toList, [⟨path, .added, some []⟩]⟩
  downloadFull := .error (.server [])
  getServerHead := .ok "v2".toList
  listVersions := .ok ["v1".toList, "v2".toList]
  getVersionChanges _ := .ok [⟨path, .added⟩]
  downloadFile _ := .ok []
  versionPages := .ok []

/-- A clone at `v1` in the directory `/repo`. -/
def sampleClone : Local := ⟨planted [("/repo/.vai/head".toList, Text.intoBytes "v1\n".toList)], []⟩

theorem sampleClone_untouched : sampleClone.touched = [] := rfl

attribute [local irreducible] Command.run

/-- A pull of a plain path. -/
theorem commands_stay_inside_plain :
    ((Command.pull (sampleServer "src/a".toList)).run sampleClient ["repo".toList] sampleClone).2.touched ≠ [] ∧
    ∀ p ∈ ((Command.pull (sampleServer "src/a".toList)).run sampleClient ["repo".toList] sampleClone).2.touched,
      ["repo".toList] <+: p :=
  ⟨by decide +kernel, (commands_stay_inside (s := sampleClone) (.pull (sampleServer "src/a".toList))
    sampleClone_untouched).1 ⟨by decide +kernel, by decide +kernel⟩⟩

/-- **A path with `..` leads a pull out of its directory**: the file `/notes` is written. -/
theorem dots_lead_a_pull_outside : ¬ ∀ (env : ClientEnv) (root : List Name) (c : Command) (s : Local), s.touched = [] →
    ∀ p ∈ (c.run env root s).2.touched, c.Home root p := by
  intro h
  have hmem : ["notes".toList] ∈ ((Command.pull (sampleServer "../notes".toList)).run sampleClient ["repo".toList]
      sampleClone).2.touched := by decide +kernel
  have hin : ["repo".toList] <+: ["notes".toList] := h sampleClient ["repo".toList]
    (.pull (sampleServer "../notes".toList)) sampleClone sampleClone_untouched ["notes".toList] hmem
  exact absurd hin (by decide)

end Remote
end Vai
