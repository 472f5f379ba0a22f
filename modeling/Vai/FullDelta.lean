import Vai.RemoteWorkspace
import Vai.PlainWire
import Vai.Tallied
/-!
# FullDelta — two ways to upload one change

`upload_snapshot` of `remote_workspace.rs` sends the working directory or the overlay, by the size of the repository.  The
server takes from the first what is not there as deleted, and from the second what its manifest lists.

`full_delta_iff` says when both leave the same tree to a workspace, whatever the workspace held before: the deletions have
to be the same, and elsewhere the changed files.  For names without backslashes that is a matter of two things, a
`.vai-delta.json` in the working directory and the deleted paths that HEAD does not have (`agrees_iff`).
-/
namespace Vai
namespace RemoteWorkspace

open Proc Backend FilePath LocalFs Handlers Remote

/-- The tree of a workspace: its files over those of HEAD, without the deleted ones. -/
def effective (ws : Uuid) (b : Backend) (p : Path) : Option Bytes :=
  if (b.row ws).any (fun m => p ∈ m.deletedPaths) then none else (b.overlay ws p).or (b.current p)

/-- An upload of these files to a server with the tree `C` deletes the path. -/
def DeletedBy (codecs : Codecs) (files : FMap Path Bytes) (C : Path → Option Bytes) (p : Path) : Prop :=
  p ≠ [] ∧ match files.get manifestPath with
    | none => (C p).isSome ∧ (keptFiles files).get p = none
    | some bytes => ∃ manifest, codecs.fromSlice bytes = .ok manifest ∧ p ∈ manifest.deletedPaths

/-- The file that an upload brings to a path, when it is another one than that of HEAD. -/
def change (env : Env) (files : FMap Path Bytes) (C : Path → Option Bytes) (p : Path) : Option Bytes :=
  ((keptFiles files).get p).filter (fun c => (C p).map env.sha256Hex ≠ some (env.sha256Hex c))

variable {env : Env} {codecs : Codecs} {link : Uplink} {changes : Changes} {t : Tree} {b : Backend} {ws : Uuid}

/-! ## One upload -/

theorem ne_nil_of_serverFiles {wire : Wire} {files : List (Text × Bytes)} {p : Path} {c : Bytes}
    (h : (wire.serverFiles files).get p = some c) : p ≠ [] := by
  obtain ⟨f, -, hf⟩ := List.mem_filterMap.1 (FMap.get_ofList_mem h)
  exact (serverFile_eq_some.1 hf).2.1

theorem get_keptFiles {files : FMap Path Bytes} {p : Path} {c : Bytes} : (keptFiles files).get p = some c ↔
    files.get p = some c ∧ isSnapshotPathIgnored p = false ∧ p ≠ manifestPath := by
  unfold keptFiles
  rw [FMap.get_filter]
  simp

theorem change_nil {wire : Wire} (files : List (Text × Bytes)) (C : Path → Option Bytes) :
    change env (wire.serverFiles files) C [] = none := by
  unfold change
  cases hfile : (keptFiles (wire.serverFiles files)).get [] with
  | none => rfl
  | some c => exact absurd rfl (ne_nil_of_serverFiles (get_keptFiles.1 hfile).1)

theorem upload_effective (hwire : link.wire.ReadsBack codecs) {files : List (Text × Bytes)} {gz : Bytes} {m : WorkspaceMeta}
    (htar : link.wire.tarGz files = .ok gz) (hrow : b.row ws = some m) (allow : Bool) :
    Ends (uploadSnapshotHandler env Fails.none codecs ws allow gz) b
      (fun _ b' => ∀ p,
        (p ∈ m.deletedPaths ∨ DeletedBy codecs (link.wire.serverFiles files) b.current p → effective ws b' p = none) ∧
        (p ∉ m.deletedPaths → ¬ DeletedBy codecs (link.wire.serverFiles files) b.current p → effective ws b' p =
          ((change env (link.wire.serverFiles files) b.current p).or (b.overlay ws p)).or (b.current p)))
      (fun _ _ => True) := by
  refine (snapshot_taken allow gz hrow).mono ?_ fun _ _ h => h
  rintro _ b' ⟨snapshot, hread, htaken⟩ p
  obtain ⟨hfiles, hman⟩ := readSnapshot_files hwire htar hread
  obtain ⟨status, D, hrow', hD⟩ := htaken.row
  have hid : m.id = ws := row_id hrow
  rw [hid] at hrow'
  have hdeleted : p ∈ snapshotDeletions env (currentHashes env b) snapshot ↔
      DeletedBy codecs (link.wire.serverFiles files) b.current p := by
    unfold snapshotDeletions DeletedBy
    cases hget : (link.wire.serverFiles files).get manifestPath with
    | none =>
      rw [hget] at hman
      dsimp only at hman
      rw [hman, hfiles]
      dsimp only
      rw [List.mem_filter, Env.mem_hashOrder, FMap.mem_keys, get_currentHashes]
      by_cases hp : p = []
      · simp [hp]
      · simp [hp]
    | some bytes =>
      rw [hget] at hman
      obtain ⟨manifest, hslice, hman⟩ := hman
      rw [hman]
      dsimp only
      rw [hslice, List.mem_filter]
      simp [and_comm]
  have hover : b'.overlay ws p = (change env (link.wire.serverFiles files) b.current p).or (b.overlay ws p) := by
    have h := htaken.overlay p
    rw [hfiles, get_currentHashes] at h
    rw [h]
    unfold change
    cases hfile : (keptFiles (link.wire.serverFiles files)).get p with
    | none => rfl
    | some c =>
      rw [if_neg (ne_nil_of_serverFiles (get_keptFiles.1 hfile).1)]
      by_cases hhash : (b.current p).map env.sha256Hex = some (env.sha256Hex c)
      · simp [hhash, Option.filter]
      · simp [hhash, Option.filter]
  have hmem : p ∈ D ↔ p ∈ m.deletedPaths ∨ DeletedBy codecs (link.wire.serverFiles files) b.current p := by
    rw [hD, hdeleted]
  unfold effective
  rw [hrow', hover, htaken.current]
  exact ⟨fun h => if_pos (decide_eq_true (hmem.2 h)), fun h₁ h₂ => if_neg fun h =>
    (hmem.1 (of_decide_eq_true h)).elim h₁ h₂⟩

/-! ## The two modes -/

/-- What is handed to the archiver. -/
def sentFiles (link : Uplink) (useDelta : Bool) (changes : Changes) (t : Tree) : List (Text × Bytes) :=
  if useDelta then appendDirToTar changes.overlayDir t ++ [(manifestPath, link.toVec changes.manifest)]
  else appendDirToTar changes.repoDir t

theorem buildTarball_eq (useDelta : Bool) : buildTarball link useDelta changes t =
    link.wire.tarGz (sentFiles link useDelta changes t) := by
  cases useDelta <;> rfl

theorem uploadIn_ok {useDelta : Bool} {r : UploadSnapshotResponse} {b' : Backend} :
    uploadIn env Fails.none codecs link useDelta ws changes t b = (.ok r, b') ↔
      ∃ gz, link.wire.tarGz (sentFiles link useDelta changes t) = .ok gz ∧
        uploadSnapshotHandler env Fails.none codecs ws false gz b = (.ok r, b') := by
  unfold uploadIn
  rw [buildTarball_eq, bind_eq_ok]
  constructor
  · rintro ⟨gz, b₁, hgz, hup⟩
    cases htar : link.wire.tarGz (sentFiles link useDelta changes t) with
    | error e =>
      rw [htar] at hgz
      cases hgz
    | ok gz' =>
      rw [htar] at hgz
      cases hgz
      refine ⟨gz, rfl, ?_⟩
      unfold mapErr at hup
      rcases hrun : uploadSnapshotHandler env Fails.none codecs ws false gz b with ⟨e | r', b''⟩
      · rw [hrun] at hup
        cases hup
      · rw [hrun] at hup
        cases hup
        rfl
  · rintro ⟨gz, htar, hup⟩
    refine ⟨gz, b, by rw [htar]; rfl, ?_⟩
    unfold mapErr
    rw [hup]

/-- What `tar`, `flate2` and `serde_json` do: what was packed and written is read again. -/
structure Uplink.Faithful (link : Uplink) (codecs : Codecs) (manifest : DeltaManifest) : Prop where
  readsBack : link.wire.ReadsBack codecs
  plain : link.wire.KeepsPlain
  json : codecs.fromSlice (link.toVec manifest) = .ok manifest

theorem serverPath_manifest (hlink : link.Faithful codecs changes.manifest) : link.wire.serverPath manifestPath = some manifestPath := by
  have hnames : ∀ c ∈ [manifestPath], isName c = true := by decide
  have h := serverPath_joinNames hlink.plain hnames (by decide) (by decide)
  exact h

theorem get_deltaFiles (hlink : link.Faithful codecs changes.manifest) (p : Path) :
    (link.wire.serverFiles (sentFiles link true changes t)).get p =
      if p = manifestPath then some (link.toVec changes.manifest)
      else (link.wire.serverFiles (appendDirToTar changes.overlayDir t)).get p := by
  have hfile : link.wire.serverFile (manifestPath, link.toVec changes.manifest) =
      some (manifestPath, link.toVec changes.manifest) :=
    serverFile_eq_some.2 ⟨serverPath_manifest hlink, by decide, rfl⟩
  unfold Wire.serverFiles sentFiles FMap.ofList
  rw [if_pos rfl, List.filterMap_append, List.foldl_append, List.filterMap_cons, hfile]
  exact FMap.get_insert ..

theorem get_keptFiles_delta (hlink : link.Faithful codecs changes.manifest) (p : Path) :
    (keptFiles (link.wire.serverFiles (sentFiles link true changes t))).get p =
      (keptFiles (link.wire.serverFiles (appendDirToTar changes.overlayDir t))).get p := by
  apply Option.ext
  intro c
  rw [get_keptFiles, get_keptFiles, get_deltaFiles hlink]
  constructor
  · rintro ⟨hget, hig, hne⟩
    rw [if_neg hne] at hget
    exact ⟨hget, hig, hne⟩
  · rintro ⟨hget, hig, hne⟩
    rw [if_neg hne]
    exact ⟨hget, hig, hne⟩

theorem change_delta (hlink : link.Faithful codecs changes.manifest) (C : Path → Option Bytes) (p : Path) :
    change env (link.wire.serverFiles (sentFiles link true changes t)) C p =
      change env (link.wire.serverFiles (appendDirToTar changes.overlayDir t)) C p := by
  unfold change
  rw [get_keptFiles_delta hlink]

theorem deletedBy_delta (hlink : link.Faithful codecs changes.manifest) (C : Path → Option Bytes) (p : Path) :
    DeletedBy codecs (link.wire.serverFiles (sentFiles link true changes t)) C p ↔
      p ≠ [] ∧ p ∈ changes.manifest.deletedPaths := by
  unfold DeletedBy
  rw [get_deltaFiles hlink, if_pos rfl]
  refine and_congr_right fun _ => ?_
  dsimp only
  rw [hlink.json]
  constructor
  · rintro ⟨manifest, hman, hp⟩
    cases hman
    exact hp
  · exact fun hp => ⟨_, rfl, hp⟩

/-! ## The main result -/

/-- Both modes leave the same tree to every workspace of a server with the tree `C` that accepts them. -/
def SameTree (env : Env) (codecs : Codecs) (link : Uplink) (changes : Changes) (t : Tree) (C : Path → Option Bytes) : Prop :=
  ∀ (b : Backend) (ws : Uuid), (∀ p, b.current p = C p) → ∀ r r' b₁ b₂,
    uploadIn env Fails.none codecs link false ws changes t b = (.ok r, b₁) →
    uploadIn env Fails.none codecs link true ws changes t b = (.ok r', b₂) →
    ∀ p, effective ws b₁ p = effective ws b₂ p

/-- The full upload deletes the listed paths and no others, and both bring the same changes elsewhere. -/
structure Agrees (env : Env) (codecs : Codecs) (link : Uplink) (changes : Changes) (t : Tree) (C : Path → Option Bytes) :
    Prop where
  deleted : ∀ p, DeletedBy codecs (link.wire.serverFiles (appendDirToTar changes.repoDir t)) C p ↔
    p ≠ [] ∧ p ∈ changes.manifest.deletedPaths
  changed : ∀ p, p ∉ changes.manifest.deletedPaths →
    change env (link.wire.serverFiles (appendDirToTar changes.repoDir t)) C p =
      change env (link.wire.serverFiles (appendDirToTar changes.overlayDir t)) C p

theorem row_of_upload {gz : Bytes} {r : UploadSnapshotResponse} {b' : Backend}
    (h : uploadSnapshotHandler env Fails.none codecs ws false gz b = (.ok r, b')) : ∃ m, b.row ws = some m := by
  unfold uploadSnapshotHandler at h
  split at h
  · cases h
  · obtain ⟨m, b₁, hm, -⟩ := bind_eq_ok.1 h
    exact ⟨m, ((getWorkspace_ends ws b).ok hm).1⟩

theorem uploadIn_effective (hlink : link.Faithful codecs changes.manifest) {useDelta : Bool} {m : WorkspaceMeta} {r : UploadSnapshotResponse}
    {b' : Backend} (hrow : b.row ws = some m)
    (hup : uploadIn env Fails.none codecs link useDelta ws changes t b = (.ok r, b')) (p : Path) :
    let files := link.wire.serverFiles (sentFiles link useDelta changes t)
    (p ∈ m.deletedPaths ∨ DeletedBy codecs files b.current p → effective ws b' p = none) ∧
      (p ∉ m.deletedPaths → ¬ DeletedBy codecs files b.current p → effective ws b' p =
        ((change env files b.current p).or (b.overlay ws p)).or (b.current p)) := by
  obtain ⟨gz, htar, hrun⟩ := uploadIn_ok.1 hup
  exact (upload_effective hlink.readsBack htar hrow false).ok hrun p

/-- The server with a workspace that holds one file. -/
def holding (b : Backend) (ws : Uuid) (m : WorkspaceMeta) (p : Path) (x : Bytes) : Backend :=
  { b with store := b.store.insert (workspaceKey ws p) x, workspaces := b.workspaces.insert ws { m with deletedPaths := [] } }

theorem current_holding (m : WorkspaceMeta) (p : Path) (x : Bytes) (q : Path) :
    (holding b ws m p x).current q = b.current q := by
  unfold Backend.current holding
  rw [FMap.get_insert, if_neg (workspaceKey_ne_currentKey ws p q).symm]

theorem overlay_holding (m : WorkspaceMeta) (p : Path) (x : Bytes) : (holding b ws m p x).overlay ws p = some x := by
  unfold Backend.overlay holding
  rw [FMap.get_insert, if_pos rfl]

theorem row_holding (m : WorkspaceMeta) (p : Path) (x : Bytes) :
    (holding b ws m p x).row ws = some { m with id := ws, deletedPaths := [] } := by
  unfold Backend.row holding
  rw [FMap.get_insert, if_pos rfl]
  rfl

theorem uploadIn_holding {useDelta : Bool} {r : UploadSnapshotResponse} {b' : Backend}
    (hup : uploadIn env Fails.none codecs link useDelta ws changes t b = (.ok r, b')) (m : WorkspaceMeta) (p : Path)
    (x : Bytes) : ∃ r' b'', uploadIn env Fails.none codecs link useDelta ws changes t (holding b ws m p x) = (.ok r', b'') := by
  obtain ⟨gz, htar, hrun⟩ := uploadIn_ok.1 hup
  obtain ⟨m₀, hrow⟩ := row_of_upload hrun
  have hacc := ((snapshot_answered false gz hrow).ok hrun).1
  rcases hrun' : uploadSnapshotHandler env Fails.none codecs ws false gz (holding b ws m p x) with ⟨e | r', b''⟩
  · have hden := (snapshot_answered false gz (row_holding m p x)).error hrun'
    rw [accepts_congr (current_holding m p x), hacc] at hden
    cases hden
  · exact ⟨r', b'', uploadIn_ok.2 ⟨gz, htar, hrun'⟩⟩

theorem eq_of_getD {o o' : Option Bytes} (h : ∀ x, o.getD x = o'.getD x) : o = o' := by
  have hlonger : ∀ c : Bytes, c ≠ c ++ [0] := fun c he => by
    have := congrArg List.length he
    simp at this
  cases o with
  | none =>
    cases o' with
    | none => rfl
    | some c => exact absurd (h (c ++ [0])).symm (hlonger c)
  | some c =>
    cases o' with
    | none => exact absurd (h (c ++ [0])) (hlonger c)
    | some c' => exact congrArg some (h [])

/-- **Full and delta uploads mean the same exactly when they delete the same paths and bring the same changes**: for a
server that accepts both, the effective tree of every workspace comes out the same if and only if the full upload deletes
the listed paths and no others, and everywhere else the archives bring the same files that differ from HEAD's. -/
theorem full_delta_iff (hlink : link.Faithful codecs changes.manifest) {r r' : UploadSnapshotResponse} {b₁ b₂ : Backend}
    (hfull : uploadIn env Fails.none codecs link false ws changes t b = (.ok r, b₁))
    (hdelta : uploadIn env Fails.none codecs link true ws changes t b = (.ok r', b₂)) :
    SameTree env codecs link changes t b.current ↔ Agrees env codecs link changes t b.current := by
  constructor
  · intro hsame
    obtain ⟨gz, -, hrun⟩ := uploadIn_ok.1 hfull
    obtain ⟨m, -⟩ := row_of_upload hrun
    -- a workspace that holds some file at the path tells a deletion and a change apart
    have hheld : ∀ p x,
        (DeletedBy codecs (link.wire.serverFiles (appendDirToTar changes.repoDir t)) b.current p ↔
          p ≠ [] ∧ p ∈ changes.manifest.deletedPaths) ∧
        (¬ (p ≠ [] ∧ p ∈ changes.manifest.deletedPaths) →
          (change env (link.wire.serverFiles (appendDirToTar changes.repoDir t)) b.current p).getD x =
            (change env (link.wire.serverFiles (appendDirToTar changes.overlayDir t)) b.current p).getD x) := by
      intro p x
      obtain ⟨r₃, b₃, h₃⟩ := uploadIn_holding hfull m p x
      obtain ⟨r₄, b₄, h₄⟩ := uploadIn_holding hdelta m p x
      have heq := hsame _ ws (current_holding m p x) _ _ _ _ h₃ h₄ p
      have hf := uploadIn_effective hlink (row_holding m p x) h₃ p
      have hd := uploadIn_effective hlink (row_holding m p x) h₄ p
      have hcur : (holding b ws m p x).current = b.current := funext (current_holding m p x)
      simp only [hcur, overlay_holding, deletedBy_delta hlink, change_delta hlink, List.not_mem_nil, false_or,
        not_false_eq_true, forall_const] at hf hd
      have hnone : ∀ o : Option Bytes, (o.or (some x)).or (b.current p) = some (o.getD x) := by
        intro o
        cases o <;> rfl
      simp only [hnone] at hf hd
      have hiff : DeletedBy codecs (link.wire.serverFiles (appendDirToTar changes.repoDir t)) b.current p ↔
          p ≠ [] ∧ p ∈ changes.manifest.deletedPaths := by
        constructor
        · intro hdel
          by_contra hnot
          rw [hf.1 hdel, hd.2 hnot] at heq
          cases heq
        · intro hdel
          by_contra hnot
          rw [hf.2 hnot, hd.1 hdel] at heq
          cases heq
      refine ⟨hiff, fun hnot => ?_⟩
      rw [hf.2 fun h => hnot (hiff.1 h), hd.2 hnot] at heq
      exact Option.some.inj heq
    refine ⟨fun p => (hheld p []).1, fun p hp => eq_of_getD fun x => (hheld p x).2 fun h => hp h.2⟩
  · intro hagrees b' ws' hcur r₃ r₄ b₃ b₄ h₃ h₄ p
    obtain ⟨gz, -, hrun⟩ := uploadIn_ok.1 h₃
    obtain ⟨m, hrow⟩ := row_of_upload hrun
    have hf := uploadIn_effective hlink hrow h₃ p
    have hd := uploadIn_effective hlink hrow h₄ p
    have hcur' : b'.current = b.current := funext hcur
    simp only [hcur', deletedBy_delta hlink, change_delta hlink] at hf hd
    have hdel : DeletedBy codecs (link.wire.serverFiles (sentFiles link false changes t)) b.current p ↔
        p ≠ [] ∧ p ∈ changes.manifest.deletedPaths := hagrees.deleted p
    simp only [hdel] at hf
    by_cases hm : p ∈ m.deletedPaths ∨ p ≠ [] ∧ p ∈ changes.manifest.deletedPaths
    · rw [hf.1 hm, hd.1 hm]
    · obtain ⟨hm₁, hm₂⟩ := not_or.1 hm
      rw [hf.2 hm₁ hm₂, hd.2 hm₁ hm₂]
      have hchange : change env (link.wire.serverFiles (sentFiles link false changes t)) b.current p =
          change env (link.wire.serverFiles (appendDirToTar changes.overlayDir t)) b.current p := by
        by_cases hp : p = []
        · rw [hp, change_nil, change_nil]
        · exact hagrees.changed p fun h => hm₂ ⟨hp, h⟩
      rw [hchange]

/-! ## Names without backslashes -/

/-- HEAD has paths that the walk gets to and the server keeps, and the working directory is HEAD with the changes made. -/
structure CheckedOut (changes : Changes) (t : Tree) (C : Path → Option Bytes) : Prop where
  paths : ∀ p, (C p).isSome → isPlain p = true ∧ reached (components p) = true ∧ isSnapshotPathIgnored p = false
  files : ∀ p, isPlain p = true → reached (components p) = true → t.file (changes.repoDir ++ components p) =
    if p ∈ changes.manifest.deletedPaths then none else (t.file (changes.overlayDir ++ components p)).or (C p)

section Plain

variable {C : Path → Option Bytes}

/-- The files of the working directory, as the server gets them. -/
theorem CheckedOut.get (hlink : link.Faithful codecs changes.manifest) (hout : CheckedOut changes t C)
    (hrepo : Carried reached changes.repoDir t) (hoverlay : Carried reached changes.overlayDir t) (p : Path) :
    (link.wire.serverFiles (appendDirToTar changes.repoDir t)).get p =
      if p ∈ changes.manifest.deletedPaths then none
      else ((link.wire.serverFiles (appendDirToTar changes.overlayDir t)).get p).or (C p) := by
  have hW := get_serverFiles hlink.plain hrepo p
  have hO := get_serverFiles hlink.plain hoverlay p
  refine hW.trans ?_
  rw [show (link.wire.serverFiles (appendDirToTar changes.overlayDir t)).get p = _ from hO]
  by_cases hp : isPlain p = true ∧ reached (components p) = true
  · rw [if_pos hp, if_pos hp, hout.files p hp.1 hp.2]
  · rw [if_neg hp, if_neg hp]
    cases hC : C p with
    | none => simp
    | some c =>
      have := hout.paths p (by rw [hC]; rfl)
      exact absurd ⟨this.1, this.2.1⟩ hp

/-- A path that was not deleted gets the same change from both. -/
theorem CheckedOut.change_eq (hlink : link.Faithful codecs changes.manifest) (hout : CheckedOut changes t C)
    (hrepo : Carried reached changes.repoDir t) (hoverlay : Carried reached changes.overlayDir t) {p : Path}
    (hp : p ∉ changes.manifest.deletedPaths) :
    change env (link.wire.serverFiles (appendDirToTar changes.repoDir t)) C p =
      change env (link.wire.serverFiles (appendDirToTar changes.overlayDir t)) C p := by
  have hget := hout.get hlink hrepo hoverlay p
  rw [if_neg hp] at hget
  apply Option.ext
  intro c
  unfold change
  simp only [Option.filter_eq_some_iff, get_keptFiles, hget]
  cases hO : (link.wire.serverFiles (appendDirToTar changes.overlayDir t)).get p with
  | some c' => simp
  | none =>
    cases hC : C p with
    | none => simp
    | some c' =>
      simp only [Option.none_or, Option.some.injEq, reduceCtorEq, false_and, iff_false, not_and]
      rintro ⟨rfl, -⟩
      simp

/-- **Without backslashes it is a matter of two things**: a `.vai-delta.json` in the working directory, which makes the
full upload a delta of its own, and the listed paths that HEAD does not have. -/
theorem agrees_iff (hlink : link.Faithful codecs changes.manifest) (hout : CheckedOut changes t C)
    (hrepo : Carried reached changes.repoDir t) (hoverlay : Carried reached changes.overlayDir t) :
    Agrees env codecs link changes t C ↔ match t.file (changes.repoDir ++ [manifestPath]) with
      | none => ∀ p ∈ changes.manifest.deletedPaths, p ≠ [] → (C p).isSome
      | some bytes => ∀ p, p ≠ [] → ((∃ manifest, codecs.fromSlice bytes = .ok manifest ∧ p ∈ manifest.deletedPaths) ↔
          p ∈ changes.manifest.deletedPaths) := by
  have hget := hout.get hlink hrepo hoverlay
  have hman : (link.wire.serverFiles (appendDirToTar changes.repoDir t)).get manifestPath =
      t.file (changes.repoDir ++ [manifestPath]) := by
    have h := get_serverFiles hlink.plain hrepo manifestPath
    rw [if_pos (by decide)] at h
    exact h
  have hagrees : Agrees env codecs link changes t C ↔
      ∀ p, DeletedBy codecs (link.wire.serverFiles (appendDirToTar changes.repoDir t)) C p ↔
        p ≠ [] ∧ p ∈ changes.manifest.deletedPaths :=
    ⟨fun h => h.deleted, fun h => ⟨h, fun p hp => hout.change_eq hlink hrepo hoverlay hp⟩⟩
  rw [hagrees]
  unfold DeletedBy
  rw [hman]
  cases hfile : t.file (changes.repoDir ++ [manifestPath]) with
  | some bytes =>
    dsimp only
    refine forall_congr' fun p => ?_
    rw [and_congr_right_iff]
  | none =>
    dsimp only
    rw [hfile] at hman
    constructor
    · exact fun h p hp hne => ((h p).2 ⟨hne, hp⟩).2.1
    · intro h p
      refine and_congr_right fun hne => ⟨fun ⟨hC, hkept⟩ => ?_, fun hp => ⟨h p hp hne, ?_⟩⟩
      · by_contra hp
        obtain ⟨c, hc⟩ : ∃ c, (link.wire.serverFiles (appendDirToTar changes.repoDir t)).get p = some c := by
          rw [hget, if_neg hp, ← Option.isSome_iff_exists, Option.isSome_or, hC, Bool.or_true]
        have hpm : p ≠ manifestPath := by
          rintro rfl
          rw [hman] at hc
          cases hc
        rw [get_keptFiles.2 ⟨hc, (hout.paths p hC).2.2, hpm⟩] at hkept
        cases hkept
      · cases hkept : (keptFiles (link.wire.serverFiles (appendDirToTar changes.repoDir t))).get p with
        | none => rfl
        | some c =>
          have := (get_keptFiles.1 hkept).1
          rw [hget, if_pos hp] at this
          cases this

theorem checkedOut_of (hnil : b.current [] = none)
    (hpaths : ∀ p ∈ currentPaths b, isPlain p = true ∧ reached (components p) = true ∧ isSnapshotPathIgnored p = false)
    (hrepo : ∀ q ∈ filesBelow changes.repoDir t, reached q.1 = true → joinNames q.1 ∉ changes.manifest.deletedPaths ∧
      (t.file (changes.overlayDir ++ q.1)).or (b.current (joinNames q.1)) = some q.2)
    (hover : ∀ q ∈ filesBelow changes.overlayDir t, reached q.1 = true →
      joinNames q.1 ∈ changes.manifest.deletedPaths ∨ (t.file (changes.repoDir ++ q.1)).isSome = true)
    (hhead : ∀ p ∈ currentPaths b, p ∈ changes.manifest.deletedPaths ∨
      (t.file (changes.repoDir ++ components p)).isSome = true) : CheckedOut changes t b.current := by
  have hmem : ∀ p, (b.current p).isSome → p ∈ currentPaths b := by
    intro p hp
    refine mem_currentPaths.2 ⟨?_, hp⟩
    rintro rfl
    rw [hnil] at hp
    cases hp
  refine ⟨fun p hp => hpaths p (hmem p hp), fun p hplain hreached => ?_⟩
  have hjoin := (isPlain_iff.1 hplain).1
  cases hfile : t.file (changes.repoDir ++ components p) with
  | some c =>
    obtain ⟨hdel, hsome⟩ := hrepo (components p, c) (mem_filesBelow.2 hfile) hreached
    dsimp only at hdel hsome
    rw [← hjoin] at hdel hsome
    rw [if_neg hdel, hsome]
  | none =>
    by_cases hdel : p ∈ changes.manifest.deletedPaths
    · rw [if_pos hdel]
    · rw [if_neg hdel]
      have hO : t.file (changes.overlayDir ++ components p) = none := by
        cases hO : t.file (changes.overlayDir ++ components p) with
        | none => rfl
        | some c =>
          rcases hover (components p, c) (mem_filesBelow.2 hO) hreached with h | h
          · dsimp only at h
            rw [← hjoin] at h
            exact absurd h hdel
          · dsimp only at h
            rw [hfile] at h
            cases h
      have hC : b.current p = none := by
        cases hC : b.current p with
        | none => rfl
        | some c =>
          rcases hhead p (hmem p (by rw [hC]; rfl)) with h | h
          · exact absurd h hdel
          · rw [hfile] at h
            cases h
      rw [hO, hC]
      rfl

end Plain

/-- The overlay is inside of the working directory. -/
def someChanges : Changes :=
  ⟨["repo".toList], ["repo".toList, ".vai".toList, "workspaces".toList, "1".toList, "overlay".toList], ⟨"v1".toList, []⟩⟩

/-- A repository with the files of a list and the workspace 1. -/
def serverOf (files : List (Text × Bytes)) : Backend :=
  { oneWorkspace with store := FMap.ofList (files.map (fun f => (currentKey f.1, f.2))) }

/-- An uplink that knows the archives of a tree, and three manifests. -/
def linkOf (t : Tree) : Uplink where
  wire := wireOf [appendDirToTar someChanges.repoDir t, appendDirToTar someChanges.overlayDir t ++ [(manifestPath, [6])]]
  toVec _ := [6]
  deltaThreshold := 500 * 1024

/-- The bytes `[5]` are a manifest that lists `a`, and `[6]` one that lists nothing. -/
def codecsFor (t : Tree) : Codecs :=
  { codecsOf [appendDirToTar someChanges.repoDir t, appendDirToTar someChanges.overlayDir t ++ [(manifestPath, [6])]] with
    fromSlice := fun bytes =>
      if bytes = [5] then .ok ⟨"v1".toList, ["a".toList]⟩
      else if bytes = [6] then .ok someChanges.manifest
      else .error "expected value at line 1 column 1".toList }

theorem linkOf_faithful (t : Tree) : (linkOf t).Faithful (codecsFor t) someChanges.manifest :=
  ⟨fun files gz h => wireOf_readsBack _ files gz h, fun _ _ => rfl, rfl⟩

/-- The file `a` was changed. -/
def changedTree : Tree := planted [("/repo/a".toList, [2]), ("/repo/.vai/workspaces/1/overlay/a".toList, [2])]

/-- The upload of a tree in one of the modes, to a server that has the files of a list. -/
def uploadOf (useDelta : Bool) (t : Tree) (files : List (Text × Bytes)) :
    Except RemoteWorkspaceError UploadSnapshotResponse × Backend :=
  uploadIn hashed Fails.none (codecsFor t) (linkOf t) useDelta 1 someChanges t (serverOf files)

attribute [local irreducible] uploadIn uploadOf

theorem full_delta_iff_changed :
    uploadOf false changedTree [("a".toList, [1])] = (.ok ⟨0, 1, 0, 0, false⟩, (uploadOf false changedTree [("a".toList, [1])]).2) ∧
    uploadOf true changedTree [("a".toList, [1])] = (.ok ⟨0, 1, 0, 0, true⟩, (uploadOf true changedTree [("a".toList, [1])]).2) ∧
    SameTree hashed (codecsFor changedTree) (linkOf changedTree) someChanges changedTree
      (serverOf [("a".toList, [1])]).current := by
  have hfull : uploadOf false changedTree [("a".toList, [1])] =
      (.ok ⟨0, 1, 0, 0, false⟩, (uploadOf false changedTree [("a".toList, [1])]).2) := Prod.ext (by decide +kernel) rfl
  have hdelta : uploadOf true changedTree [("a".toList, [1])] =
      (.ok ⟨0, 1, 0, 0, true⟩, (uploadOf true changedTree [("a".toList, [1])]).2) := Prod.ext (by decide +kernel) rfl
  have hout : CheckedOut someChanges changedTree (serverOf [("a".toList, [1])]).current :=
    checkedOut_of (by decide +kernel) (by decide +kernel) (by decide +kernel) (by decide +kernel) (by decide +kernel)
  have hrepo : ∀ q ∈ filesBelow someChanges.repoDir changedTree, reached q.1 = true →
      '\\' ∉ joinNames q.1 ∧ '\x00' ∉ joinNames q.1 := by decide +kernel
  have hover : ∀ q ∈ filesBelow someChanges.overlayDir changedTree, reached q.1 = true →
      '\\' ∉ joinNames q.1 ∧ '\x00' ∉ joinNames q.1 := by decide +kernel
  have hman : changedTree.file (someChanges.repoDir ++ [manifestPath]) = none := by decide +kernel
  refine ⟨hfull, hdelta, ?_⟩
  unfold uploadOf at hfull hdelta
  refine (full_delta_iff (linkOf_faithful changedTree) hfull hdelta).2 ?_
  refine (agrees_iff (linkOf_faithful changedTree) hout (fun rel c hfile => hrepo (rel, c) (mem_filesBelow.2 hfile))
    fun rel c hfile => hover (rel, c) (mem_filesBelow.2 hfile)).2 ?_
  rw [hman]
  exact fun p hp => absurd hp List.not_mem_nil

/-- A checked out `.vai-delta.json` that lists the file `a`, and no change at all. -/
def listingTree : Tree := planted [("/repo/a".toList, [1]), ("/repo/.vai-delta.json".toList, [5])]

def listingFiles : List (Text × Bytes) := [("a".toList, [1]), (".vai-delta.json".toList, [5])]

/-- **A file of the repository decides the mode**: with a `.vai-delta.json` in it, the full upload of an unchanged working
directory deletes the file `a`, and the delta upload does not. -/
theorem checked_out_manifest_deletes : ¬ ∀ (env : Env) (codecs : Codecs) (link : Uplink) (changes : Changes) (t : Tree)
    (C : Path → Option Bytes), link.Faithful codecs changes.manifest → CheckedOut changes t C →
    SameTree env codecs link changes t C := by
  intro h
  have hout : CheckedOut someChanges listingTree (serverOf listingFiles).current :=
    checkedOut_of (by decide +kernel) (by decide +kernel) (by decide +kernel) (by decide +kernel) (by decide +kernel)
  have hfull : uploadOf false listingTree listingFiles =
      (.ok ⟨0, 0, 1, 1, true⟩, (uploadOf false listingTree listingFiles).2) := Prod.ext (by decide +kernel) rfl
  have hdelta : uploadOf true listingTree listingFiles =
      (.ok ⟨0, 0, 0, 0, true⟩, (uploadOf true listingTree listingFiles).2) := Prod.ext (by decide +kernel) rfl
  have hgone : effective 1 (uploadOf false listingTree listingFiles).2 "a".toList = none := by decide +kernel
  have hkept : effective 1 (uploadOf true listingTree listingFiles).2 "a".toList = some [1] := by decide +kernel
  have hsame := h hashed (codecsFor listingTree) (linkOf listingTree) someChanges listingTree _
    (linkOf_faithful listingTree) hout
  have heq : effective 1 (uploadOf false listingTree listingFiles).2 "a".toList =
      effective 1 (uploadOf true listingTree listingFiles).2 "a".toList := by
    unfold uploadOf at hfull hdelta ⊢
    exact hsame (serverOf listingFiles) 1 (fun _ => rfl) _ _ _ _ hfull hdelta "a".toList
  rw [hgone, hkept] at heq
  cases heq

end RemoteWorkspace
end Vai
