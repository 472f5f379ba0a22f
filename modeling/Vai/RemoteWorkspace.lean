import Vai.PushGuard
/-!
# RemoteWorkspace — the uploads of a workspace

`upload_snapshot` of `remote_workspace.rs` with `build_full_tarball`, `build_delta_tarball` and `append_dir_to_tar`: the
path of `vai workspace submit` and of the agents.  A small repository is sent as a whole, and of a large one only the
overlay, with a `.vai-delta.json` that lists what was deleted.

The walk of `append_dir_to_tar` is a second one, beside the one that `push` makes (`fullFiles`), and skips other
directories.  `archive_secrets_iff` says which files get out under a name that looks like a secret.
-/
namespace Vai
namespace RemoteWorkspace

open Proc Backend FilePath LocalFs Handlers Remote

/-! ## The archives -/

/-- What the uploads of a workspace are made with: the wire, the JSON writer for the manifest, and
`VAI_DELTA_THRESHOLD_BYTES`. -/
structure Uplink where
  wire : Wire
  toVec : DeltaManifest → Bytes
  deltaThreshold : Nat

variable (env : Env) (fails : Fails) (codecs : Codecs) (link : Uplink)

def skippedDirs : List Name := [".vai".toList, ".git".toList, "target".toList, "node_modules".toList]

/-- The walk gets to the file. -/
def reached (rel : List Name) : Bool := rel.dropLast.all (fun c => c ∉ skippedDirs)

/-- The files that `append_dir_to_tar` finds below `base`, by the paths it writes. -/
def appendDirToTar (base : List Name) (t : Tree) : List (Text × Bytes) :=
  ((filesBelow base t).filter (fun q => reached q.1)).map (fun q => (slashed (joinNames q.1), q.2))

def buildFullTarball (repoDir : List Name) (t : Tree) : Except FsError Bytes :=
  link.wire.tarGz (appendDirToTar repoDir t)

def buildDeltaTarball (overlayDir : List Name) (manifest : DeltaManifest) (t : Tree) : Except FsError Bytes :=
  link.wire.tarGz (appendDirToTar overlayDir t ++ [(manifestPath, link.toVec manifest)])

/-- The bytes that the walk counts; the source stops counting above the threshold. -/
def dirUncompressedSize (dir : List Name) (t : Tree) : Nat :=
  (((filesBelow dir t).filter (fun q => reached q.1)).map (fun q => q.2.length)).sum

/-! ## The upload -/

inductive RemoteWorkspaceError where
  | serverError (status : Nat) (body : Text)
  | io (e : FsError)
deriving DecidableEq, Repr

/-- What is uploaded: the working directory, the overlay beside it, and what was deleted. -/
structure Changes where
  repoDir : List Name
  overlayDir : List Name
  manifest : DeltaManifest

def buildTarball (useDelta : Bool) (changes : Changes) (t : Tree) : Except FsError Bytes :=
  if useDelta then buildDeltaTarball link changes.overlayDir changes.manifest t else buildFullTarball link changes.repoDir t

/-- The upload in one of the modes; `allow_destructive` is never set. -/
def uploadIn (useDelta : Bool) (workspaceId : Uuid) (changes : Changes) (t : Tree) :
    Proc Backend RemoteWorkspaceError UploadSnapshotResponse := do
  let gz ← ofExcept .io (buildTarball link useDelta changes t)
  mapErr (fun e => .serverError e.status (link.wire.bodyText e)) (uploadSnapshotHandler env fails codecs workspaceId false gz)

def uploadSnapshot (workspaceId : Uuid) (changes : Changes) (t : Tree) :
    Proc Backend RemoteWorkspaceError UploadSnapshotResponse :=
  uploadIn env fails codecs link (decide (link.deltaThreshold < dirUncompressedSize changes.repoDir t)) workspaceId changes t

/-! ## Secrets -/

/-- `Path::file_name`. -/
def fileName (path : Text) : Name := (components path).getLastD []

/-- The ways out of the machine. -/
inductive Outgoing where
  | push (root : List Name)
  | full (repoDir : List Name)
  | delta (overlayDir : List Name) (manifest : DeltaManifest)

namespace Outgoing

/-- The directory that is packed. -/
def base : Outgoing → List Name
  | .push root => root
  | .full repoDir => repoDir
  | .delta overlayDir _ => overlayDir

/-- The walk takes the file: both skip directories, and the one of `push` also the files that look like secrets. -/
def takes : Outgoing → List Name → Bool
  | .push _, rel => seen rel
  | _, rel => reached rel

def archive (t : Tree) : Outgoing → Option Bytes
  | .push root => (Remote.buildFullTarball link.wire root t).toOption
  | .full repoDir => (buildFullTarball link repoDir t).toOption
  | .delta overlayDir manifest => (buildDeltaTarball link overlayDir manifest t).toOption

/-- What is handed to the archiver. -/
def entries (t : Tree) : Outgoing → List (Text × Bytes)
  | .push root => fullFiles root t
  | .full repoDir => appendDirToTar repoDir t
  | .delta overlayDir manifest => appendDirToTar overlayDir t ++ [(manifestPath, link.toVec manifest)]

end Outgoing

/-- No entry of the archive has the name of a secret. -/
def KeepsSecrets (codecs : Codecs) (gz : Bytes) : Prop :=
  ∀ entries, codecs.untar gz = .ok entries → ∀ e, .ok e ∈ entries → ∀ path, e.path = .ok path →
    isBuiltinSecretFile (fileName path) = false

/-- `tar` may spell a path otherwise, but gives back the name of the file. -/
def KeepsNames (wire : Wire) : Prop :=
  ∀ files gz, wire.tarGz files = .ok gz → ∀ f ∈ files, fileName (wire.entryPath f.1) = fileName f.1

/-- The parts of a path, with backslashes read as slashes. -/
def parts (rel : List Name) : List Name := rel.flatMap (fun c => components (slashed c))

variable {env fails codecs link}

theorem components_slashed_joinNames : ∀ rel : List Name, components (slashed (joinNames rel)) = parts rel
  | [] => rfl
  | c :: cs => by
    have ih := components_slashed_joinNames cs
    by_cases hcs : cs = []
    · subst hcs
      simp [parts, joinNames]
    · have hslash : slashed (c ++ '/' :: joinNames cs) = slashed c ++ '/' :: slashed (joinNames cs) := by
        simp [slashed]
      rw [joinNames_cons c hcs, hslash, components_append, ih]
      rfl

theorem tarGz_of_archive {o : Outgoing} {t : Tree} {gz : Bytes} (h : o.archive link t = some gz) :
    link.wire.tarGz (o.entries link t) = .ok gz := by
  cases o with
  | push root =>
    simp only [Outgoing.archive, Remote.buildFullTarball] at h
    cases hgz : link.wire.tarGz (fullFiles root t) with
    | error e => rw [hgz] at h; cases h
    | ok gz' => rw [hgz] at h; cases h; exact hgz
  | full repoDir =>
    simp only [Outgoing.archive, buildFullTarball] at h
    cases hgz : link.wire.tarGz (appendDirToTar repoDir t) with
    | error e => rw [hgz] at h; cases h
    | ok gz' => rw [hgz] at h; cases h; exact hgz
  | delta overlayDir manifest =>
    simp only [Outgoing.archive, buildDeltaTarball] at h
    cases hgz : link.wire.tarGz (appendDirToTar overlayDir t ++ [(manifestPath, link.toVec manifest)]) with
    | error e => rw [hgz] at h; cases h
    | ok gz' => rw [hgz] at h; cases h; exact hgz

/-- The entries of an archive: what the walk takes, and a manifest, which is no secret. -/
theorem secret_entry_iff (o : Outgoing) (t : Tree) :
    (∀ f ∈ o.entries link t, isBuiltinSecretFile (fileName f.1) = false) ↔
      ∀ rel c, t.file (o.base ++ rel) = some c → o.takes rel = true →
        isBuiltinSecretFile ((parts rel).getLastD []) = false := by
  have hwalk : ∀ (base : List Name) (takes : List Name → Bool),
      (∀ f ∈ ((filesBelow base t).filter (fun q => takes q.1)).map (fun q => (slashed (joinNames q.1), q.2)),
        isBuiltinSecretFile (fileName f.1) = false) ↔
      ∀ rel c, t.file (base ++ rel) = some c → takes rel = true →
        isBuiltinSecretFile ((parts rel).getLastD []) = false := by
    intro base takes
    simp only [List.forall_mem_map, List.mem_filter, Prod.forall, mem_filesBelow, and_imp, fileName,
      components_slashed_joinNames]
  cases o with
  | push root => exact hwalk root seen
  | full repoDir => exact hwalk repoDir reached
  | delta overlayDir manifest =>
    have hmanifest : isBuiltinSecretFile (fileName manifestPath) = false := by decide
    simp only [Outgoing.entries, List.forall_mem_append, List.forall_mem_singleton, hmanifest, and_true]
    exact hwalk overlayDir reached

/-- **What gets out**: an archive has no entry with the name of a secret if and only if the walk takes no file that has
one, with backslashes read as slashes.  The walk of `push` skips the secrets by their own names; the one of the workspace
uploads takes every file outside of four directories. -/
theorem archive_secrets_iff (hwire : link.wire.ReadsBack codecs) (hnames : KeepsNames link.wire) (o : Outgoing) (t : Tree)
    {gz : Bytes} (hgz : o.archive link t = some gz) :
    KeepsSecrets codecs gz ↔ ∀ rel c, t.file (o.base ++ rel) = some c → o.takes rel = true →
      isBuiltinSecretFile ((parts rel).getLastD []) = false := by
  have htar := tarGz_of_archive hgz
  rw [← secret_entry_iff]
  unfold KeepsSecrets
  rw [hwire _ _ htar]
  constructor
  · intro h f hf
    have := h _ rfl ⟨.file, .ok (link.wire.entryPath f.1), .ok f.2⟩ (List.mem_map.2 ⟨f, hf, rfl⟩) _ rfl
    rw [hnames _ _ htar f hf] at this
    exact this
  · intro h entries he e hmem path hpath
    cases he
    obtain ⟨f, hf, hfe⟩ := List.mem_map.1 hmem
    cases hfe
    cases hpath
    rw [hnames _ _ htar f hf]
    exact h f hf

/-- A working tree with a secret. -/
def withEnv : Tree := workTree [("a".toList, [1]), (".env".toList, [2])]

/-- The archives that are made of it, by an archiver that keeps the paths. -/
def envArchives : List (List (Text × Bytes)) := [fullFiles ["repo".toList] withEnv, appendDirToTar ["repo".toList] withEnv]

def envLink : Uplink := ⟨wireOf envArchives, fun _ => [], 500 * 1024⟩

theorem wireOf_keepsNames (known : List (List (Text × Bytes))) : KeepsNames (wireOf known) := fun _ _ _ _ _ => rfl

theorem archive_secrets_iff_push : ∃ gz, (Outgoing.push ["repo".toList]).archive envLink withEnv = some gz ∧
    KeepsSecrets (codecsOf envArchives) gz := by
  have hgz : (Outgoing.push ["repo".toList]).archive envLink withEnv = some [] := by decide +kernel
  refine ⟨[], hgz, ?_⟩
  refine (archive_secrets_iff (wireOf_readsBack envArchives) (wireOf_keepsNames envArchives) _ _ hgz).2 ?_
  intro rel c hfile htakes
  have hfiles : ∀ q ∈ filesBelow ["repo".toList] withEnv, seen q.1 = true →
      isBuiltinSecretFile ((parts q.1).getLastD []) = false := by decide +kernel
  exact hfiles (rel, c) (mem_filesBelow.2 hfile) htakes

/-- **A workspace upload sends the secrets**: the full archive has the file `.env`. -/
theorem full_upload_sends_env : ¬ ∀ (codecs : Codecs) (link : Uplink), link.wire.ReadsBack codecs → KeepsNames link.wire →
    ∀ (o : Outgoing) (t : Tree) (gz : Bytes), o.archive link t = some gz → KeepsSecrets codecs gz := by
  intro h
  have hgz : (Outgoing.full ["repo".toList]).archive envLink withEnv = some [0] := by decide +kernel
  have hkeeps := h (codecsOf envArchives) envLink (wireOf_readsBack envArchives) (wireOf_keepsNames envArchives) _ _ _ hgz
  have hfile : (".env".toList, [2]) ∈ appendDirToTar ["repo".toList] withEnv := by decide +kernel
  have hsecret := hkeeps _ rfl ⟨.file, .ok ".env".toList, .ok [2]⟩ (List.mem_map.2 ⟨_, hfile, rfl⟩) _ rfl
  exact absurd hsecret (by decide)

end RemoteWorkspace
end Vai
