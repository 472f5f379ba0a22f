import Vai.PushRevert
import Vai.PlainWire
import Vai.PullFrame
import Vai.Tallied
/-!
# PushExact — a push, its dry run and the push after it

Three walks decide what belongs to a working tree: `collect_local_hashes`, on which the dry run and the question whether
there is anything to push rest, `append_dir_to_tar`, and `extract_snapshot_tarball` on the server, which normalises the
paths once more, leaves `.vai` and `.git` out and takes `.vai-delta.json` for the manifest of a delta.

`push_exact_iff`: the dry run tells what the server answers and the next push finds nothing to do if and only if the
walks agree.  Without a `.vai-delta.json` that means that every file the hasher sees has a path without backslashes that
the server does not ignore.
-/
namespace Vai

namespace FMap

variable {κ β : Type} [DecidableEq κ]

theorem length_filter_pairs (m : FMap κ β) {f : κ × β → Bool} {g : κ → Bool}
    (h : ∀ k v, m.get k = some v → f (k, v) = g k) : (m.pairs.filter f).length = (m.keys.filter g).length := by
  rw [← map_fst_pairs, List.filter_map, List.length_map]
  congr 1
  refine List.filter_congr fun q hq => ?_
  exact h q.1 q.2 (mem_pairs.1 hq)

end FMap

namespace Remote

open Proc Backend FilePath LocalFs Handlers

variable {env : Env} {codecs : Codecs} {client : ClientEnv} {wire : Wire} {root : List Name} {args : PushArgs}
  {newIds : Uuid × Uuid} {b : Backend} {files : Local} {t : Tree}

/-! ## The walks agree -/

/-- What the working tree has, what the server takes of it and what it deletes, against the tree of HEAD: the deletions
are the files that only HEAD has, each once, and a file that is sent is the one that was hashed. -/
structure Agreed (env : Env) (seenFiles : FMap Text Text) (sent : FMap Path Bytes) (current : FMap Path Text)
    (deleted : List Path) : Prop where
  nodup : deleted.Nodup
  deletes : ∀ p, p ∈ deleted ↔ (current.get p).isSome ∧ seenFiles.get p = none
  sends : ∀ p hash, seenFiles.get p = some hash → (((sent.get p).map env.sha256Hex).or (current.get p)) = some hash
  extra : ∀ p c, sent.get p = some c → seenFiles.get p = none → current.get p = some (env.sha256Hex c)

/-- The hash at a path after the upload is submitted. -/
def hashAfter (env : Env) (sent : FMap Path Bytes) (current : FMap Path Text) (deleted : List Path) (p : Path) :
    Option Text :=
  if p ∈ deleted then none else ((sent.get p).map env.sha256Hex).or (current.get p)

section Counts

variable {seenFiles : FMap Text Text} {sent : FMap Path Bytes} {current : FMap Path Text} {deleted : List Path}

theorem filesAdded_eq (server localMap : FMap Text Text) :
    filesAdded server localMap = (localMap.keys.filter (fun p => (server.get p).isNone)).length :=
  FMap.length_filter_pairs _ fun _ _ _ => rfl

theorem filesModified_eq (server localMap : FMap Text Text) : filesModified server localMap =
    (localMap.keys.filter (fun p => (server.get p).any (fun hash => localMap.get p ≠ some hash))).length := by
  refine FMap.length_filter_pairs _ fun p hash hp => ?_
  rw [hp]
  cases server.get p with
  | none => rfl
  | some old => simp [eq_comm]

theorem perm_deletedPaths (server localMap : FMap Text Text) :
    (deletedPaths server localMap).Perm (server.keys.filter (fun p => (localMap.get p).isNone)) :=
  List.perm_insertionSort _ _

theorem mem_deletedPaths {server localMap : FMap Text Text} {p : Text} :
    p ∈ deletedPaths server localMap ↔ (server.get p).isSome ∧ localMap.get p = none := by
  rw [(perm_deletedPaths server localMap).mem_iff, List.mem_filter, FMap.mem_keys, Option.isNone_iff_eq_none]

theorem nodup_deletedPaths (server localMap : FMap Text Text) : (deletedPaths server localMap).Nodup :=
  (perm_deletedPaths server localMap).nodup_iff.2 (server.keys_nodup.filter _)

/-- The counts of the dry run are those of the server. -/
structure Tells (env : Env) (seenFiles : FMap Text Text) (sent : FMap Path Bytes) (current : FMap Path Text)
    (deleted : List Path) : Prop where
  added : filesAdded current seenFiles = sent.keys.countP (isAdded current sent)
  modified : filesModified current seenFiles = sent.keys.countP (isModified env current sent)
  deleted : (deletedPaths current seenFiles).length = deleted.length

/-- Two counts over lists without duplicates are equal when the same elements are counted. -/
theorem countP_eq_of_mem_iff {α : Type} {l l' : List α} {f g : α → Bool} (hl : l.Nodup) (hl' : l'.Nodup)
    (h : ∀ a, a ∈ l ∧ f a = true ↔ a ∈ l' ∧ g a = true) : (l.filter f).length = l'.countP g := by
  rw [List.countP_eq_length_filter]
  refine ((List.perm_ext_iff_of_nodup (hl.filter _) (hl'.filter _)).2 fun a => ?_).length_eq
  rw [List.mem_filter, List.mem_filter, h]

theorem Agreed.tells (h : Agreed env seenFiles sent current deleted) : Tells env seenFiles sent current deleted := by
  have hsent : ∀ p c, sent.get p = some c → seenFiles.get p = none → (current.get p).isSome := by
    intro p c hc hnone
    rw [h.extra p c hc hnone]
    rfl
  constructor
  · rw [filesAdded_eq]
    refine countP_eq_of_mem_iff seenFiles.keys_nodup sent.keys_nodup fun p => ?_
    unfold isAdded
    rw [FMap.mem_keys, FMap.mem_keys]
    cases hcur : current.get p with
    | some old => simp
    | none =>
      cases hseen : seenFiles.get p with
      | some hash =>
        have := h.sends p hash hseen
        rw [hcur] at this
        cases hc : sent.get p with
        | none => rw [hc] at this; cases this
        | some c => simp
      | none =>
        cases hc : sent.get p with
        | none => simp
        | some c =>
          have := hsent p c hc hseen
          rw [hcur] at this
          cases this
  · rw [filesModified_eq]
    refine countP_eq_of_mem_iff seenFiles.keys_nodup sent.keys_nodup fun p => ?_
    unfold isModified
    rw [FMap.mem_keys, FMap.mem_keys]
    cases hcur : current.get p with
    | none => simp
    | some old =>
      cases hseen : seenFiles.get p with
      | some hash =>
        have := h.sends p hash hseen
        rw [hcur] at this
        cases hc : sent.get p with
        | none =>
          rw [hc] at this
          simp [Option.some.inj this]
        | some c =>
          rw [hc] at this
          obtain rfl : env.sha256Hex c = hash := Option.some.inj this
          simp [eq_comm (a := old)]
      | none =>
        cases hc : sent.get p with
        | none => simp
        | some c =>
          have := h.extra p c hc hseen
          rw [hcur] at this
          simp [Option.some.inj this]
  · refine ((List.perm_ext_iff_of_nodup (nodup_deletedPaths _ _) h.nodup).2 fun p => ?_).length_eq
    rw [mem_deletedPaths, h.deletes]

theorem Agreed.after (h : Agreed env seenFiles sent current deleted) (p : Path) :
    seenFiles.get p = hashAfter env sent current deleted p := by
  unfold hashAfter
  cases hseen : seenFiles.get p with
  | some hash =>
    rw [if_neg fun hp => absurd (((h.deletes p).1 hp).2.symm.trans hseen) (by simp), h.sends p hash hseen]
  | none =>
    split
    · rfl
    · rename_i hp
      rw [h.deletes, hseen, and_iff_left rfl, Option.not_isSome_iff_eq_none] at hp
      rw [hp]
      cases hc : sent.get p with
      | none => rfl
      | some c =>
        have := h.extra p c hc hseen
        rw [hp] at this
        cases this

theorem Tells.agreed (h : Tells env seenFiles sent current deleted)
    (hafter : ∀ p, seenFiles.get p = hashAfter env sent current deleted p) : Agreed env seenFiles sent current deleted := by
  -- what only HEAD has is deleted, and there are no other deletions
  have hsub : deletedPaths current seenFiles ⊆ deleted := by
    intro p hp
    obtain ⟨hsome, hnone⟩ := mem_deletedPaths.1 hp
    by_contra hnot
    rw [hafter, hashAfter, if_neg hnot, Option.or_eq_none_iff] at hnone
    rw [hnone.2] at hsome
    cases hsome
  have hperm : (deletedPaths current seenFiles).Perm deleted :=
    ((nodup_deletedPaths current seenFiles).subperm hsub).perm_of_length_le h.deleted.ge
  have hdeletes : ∀ p, p ∈ deleted ↔ (current.get p).isSome ∧ seenFiles.get p = none := fun p => by
    rw [← hperm.mem_iff, mem_deletedPaths]
  have hsends : ∀ p hash, seenFiles.get p = some hash →
      ((sent.get p).map env.sha256Hex).or (current.get p) = some hash := by
    intro p hash hp
    have hnot : p ∉ deleted := fun hdel => absurd (((hdeletes p).1 hdel).2.symm.trans hp) (by simp)
    rw [hafter, hashAfter, if_neg hnot] at hp
    exact hp
  refine ⟨hperm.nodup_iff.1 (nodup_deletedPaths _ _), hdeletes, hsends, fun p c hc hnone => ?_⟩
  have hdel : p ∈ deleted := by
    by_contra hnot
    rw [hafter, hashAfter, if_neg hnot, hc] at hnone
    cases hnone
  obtain ⟨old, hold⟩ := Option.isSome_iff_exists.1 ((hdeletes p).1 hdel).1
  -- a file that was changed is counted, and so it was seen
  by_contra hne
  have hmods : (seenFiles.keys.filter (fun p => (current.get p).any (fun hash => seenFiles.get p ≠ some hash))) ⊆
      sent.keys.filter (isModified env current sent) := by
    intro q hq
    obtain ⟨hkey, hdiff⟩ := List.mem_filter.1 hq
    obtain ⟨hash, hhash⟩ := Option.isSome_iff_exists.1 (FMap.mem_keys.1 hkey)
    have hq' := hsends q hash hhash
    rw [List.mem_filter, FMap.mem_keys]
    unfold isModified
    cases hcur : current.get q with
    | none => simp [hcur] at hdiff
    | some old =>
      cases hs : sent.get q with
      | none =>
        rw [hs, hcur] at hq'
        simp [hcur, hhash, Option.some.inj hq'] at hdiff
      | some c =>
        rw [hs] at hq'
        obtain rfl : env.sha256Hex c = hash := Option.some.inj hq'
        rw [hcur, hhash] at hdiff
        simpa [eq_comm (a := old)] using hdiff
  have hlen := h.modified
  rw [filesModified_eq, List.countP_eq_length_filter] at hlen
  have hmodPerm := ((seenFiles.keys_nodup.filter _).subperm hmods).perm_of_length_le hlen.ge
  have hp : p ∈ sent.keys.filter (isModified env current sent) := by
    rw [List.mem_filter, FMap.mem_keys, hc]
    refine ⟨rfl, ?_⟩
    unfold isModified
    rw [hc, hold]
    rw [hold] at hne
    simpa using fun he => hne (congrArg some he)
  have hkey := (List.mem_filter.1 (hmodPerm.mem_iff.2 hp)).1
  rw [FMap.mem_keys, hnone] at hkey
  cases hkey

theorem agreed_iff : Agreed env seenFiles sent current deleted ↔
    Tells env seenFiles sent current deleted ∧ ∀ p, seenFiles.get p = hashAfter env sent current deleted p :=
  ⟨fun h => ⟨h.tells, h.after⟩, fun h => h.1.agreed h.2⟩

end Counts

/-! ## The plan -/

theorem nothingToPush_iff {manifest : ManifestResult} {localMap : FMap Text Text} :
    planPush args manifest localMap = .error .nothingToPush ↔ ∀ p, localMap.get p = (serverMap manifest).get p := by
  have hsame : (filesModified (serverMap manifest) localMap = 0 ∧ filesAdded (serverMap manifest) localMap = 0 ∧
      deletedPaths (serverMap manifest) localMap = []) ↔ ∀ p, localMap.get p = (serverMap manifest).get p := by
    rw [filesModified_eq, filesAdded_eq, List.length_eq_zero_iff, List.length_eq_zero_iff, List.filter_eq_nil_iff,
      List.filter_eq_nil_iff, List.eq_nil_iff_forall_not_mem, ← forall_and, ← forall_and]
    refine forall_congr' fun p => ?_
    rw [mem_deletedPaths, FMap.mem_keys]
    cases localMap.get p with
    | none => cases (serverMap manifest).get p <;> simp
    | some hash => cases (serverMap manifest).get p <;> simp
  rw [← hsame]
  unfold planPush
  dsimp only
  constructor
  · intro h
    split at h
    · assumption
    · split at h
      · cases h
      · split at h <;> cases h
  · exact fun h => if_pos h

/-- The plan is made from the tree of HEAD and the working tree, and nothing changes. -/
theorem readPlan_apply (s : Backend × Local) : ∃ manifest,
    (∀ p, (serverMap manifest).get p = (currentHashes env s.1).get p) ∧
    ∀ args, readPlan env Fails.none client wire root args s =
      (planPush args manifest (collectLocalHashes client root s.2.tree), s) := by
  obtain ⟨manifest, b', hrun, rfl, hman⟩ := (@filesManifestHandler_ends env s.1).exists_ok fun _ _ h => h
  refine ⟨manifest, get_serverMap hman, fun args => ?_⟩
  have hfirst : onFst (mapErr wire.serverError (filesManifestHandler env Fails.none)) s = (.ok manifest, s) := by
    unfold onFst mapErr
    rw [hrun]
  unfold readPlan
  rw [bind_of_ok hfirst, bind_of_ok (read_apply _ s)]
  cases planPush args manifest (collectLocalHashes client root s.2.tree) <;> rfl

theorem planPush_dry {message : Text} {force : Bool} {manifest : ManifestResult} {localMap : FMap Text Text}
    (hne : planPush ⟨message, true, force⟩ manifest localMap ≠ .error .nothingToPush) :
    planPush ⟨message, true, force⟩ manifest localMap = .ok (some ⟨manifest.version,
      filesAdded (serverMap manifest) localMap, filesModified (serverMap manifest) localMap,
      (deletedPaths (serverMap manifest) localMap).length, deletedPaths (serverMap manifest) localMap, 0, true⟩) := by
  unfold planPush at hne ⊢
  dsimp only at hne ⊢
  split
  · rename_i hnone
    exact absurd (if_pos hnone) hne
  · rw [if_neg (by simp)]
    rfl

theorem push_of_plan {s : Backend × Local} {plan : Except RemoteError (Option PushOutcome)} :
    readPlan env Fails.none client wire root args s = (plan, s) →
    push env Fails.none codecs client wire root args newIds s =
      match plan with
      | .error e => (.error e, s)
      | .ok (some outcome) => (.ok outcome, s)
      | .ok none => pushFiles env Fails.none codecs wire root args newIds s := by
  intro h
  unfold push
  rw [bind_apply, h]
  cases plan with
  | error e => rfl
  | ok plan => cases plan <;> rfl

/-- No push finds anything to do exactly when the hasher sees the tree of HEAD. -/
theorem push_nothing_iff (s : Backend × Local) :
    (∀ args newIds, (push env Fails.none codecs client wire root args newIds s).1 = .error .nothingToPush) ↔
      ∀ p, (collectLocalHashes client root s.2.tree).get p = (currentHashes env s.1).get p := by
  obtain ⟨manifest, hget, hplan⟩ := @readPlan_apply env client wire root s
  simp only [← hget]
  constructor
  · intro h
    have hdry := h ⟨[], true, false⟩ (0, 0)
    rw [push_of_plan (hplan _)] at hdry
    rw [← @nothingToPush_iff ⟨[], true, false⟩]
    by_contra hne
    rw [planPush_dry hne] at hdry
    cases hdry
  · intro h args newIds
    rw [push_of_plan (hplan args), nothingToPush_iff.2 h]

theorem push_dry_reports {s : Backend × Local} {outcome : PushOutcome} {message : Text} {force : Bool}
    {manifest : ManifestResult} (hplan : ∀ args, readPlan env Fails.none client wire root args s =
      (planPush args manifest (collectLocalHashes client root s.2.tree), s))
    (hne : ¬ ∀ p, (collectLocalHashes client root s.2.tree).get p = (serverMap manifest).get p) :
    (∃ report, push env Fails.none codecs client wire root ⟨message, true, force⟩ newIds s = (.ok report, s) ∧
      report.filesAdded = outcome.filesAdded ∧ report.filesModified = outcome.filesModified ∧
        report.filesDeleted = outcome.filesDeleted) ↔
      filesAdded (serverMap manifest) (collectLocalHashes client root s.2.tree) = outcome.filesAdded ∧
      filesModified (serverMap manifest) (collectLocalHashes client root s.2.tree) = outcome.filesModified ∧
      (deletedPaths (serverMap manifest) (collectLocalHashes client root s.2.tree)).length = outcome.filesDeleted := by
  rw [← @nothingToPush_iff ⟨message, true, force⟩] at hne
  rw [push_of_plan (hplan _), planPush_dry hne]
  dsimp only
  constructor
  · rintro ⟨report, hreport, h⟩
    cases hreport
    exact h
  · exact fun h => ⟨_, rfl, h⟩

/-! ## The rest of a push -/

theorem serverPath_of_read (hwire : wire.ReadsBack codecs) {l : List (Text × Bytes)} {gz : Bytes} {snapshot : Snapshot}
    (htar : wire.tarGz l = .ok gz) (hread : readSnapshot codecs gz = .ok snapshot) :
    ∀ f ∈ l, (wire.serverPath f.1).isSome := by
  have hloop : ∀ (l : List (Text × Bytes)) (m raw : FMap Path Bytes),
      (l.map wire.entry).foldlM Handlers.extractEntry m = .ok raw → ∀ f ∈ l, (wire.serverPath f.1).isSome := by
    intro l
    induction l with
    | nil => exact fun _ _ _ f hf => absurd hf List.not_mem_nil
    | cons g l ih =>
      intro m raw h f hf
      rw [List.map_cons, List.foldlM_cons] at h
      cases hm : Handlers.extractEntry m (wire.entry g) with
      | error e =>
        rw [hm] at h
        cases h
      | ok m' =>
        rw [hm] at h
        rcases List.mem_cons.1 hf with rfl | hf
        · obtain ⟨rel, hrel, -⟩ := extractEntry_file hm
          unfold Wire.serverPath
          rw [hrel]
          rfl
        · exact ih m' raw h f hf
  unfold readSnapshot extractSnapshotTarball at hread
  rw [hwire _ _ htar] at hread
  dsimp only at hread
  cases hraw : (l.map wire.entry).foldlM Handlers.extractEntry ∅ with
  | error e =>
    rw [hraw] at hread
    cases hread
  | ok raw => exact hloop l ∅ raw hraw

/-- What the outcome tells, and what becomes of the working tree. -/
theorem pushFiles_told {s : Backend × Local} :
    Ends (pushFiles env Fails.none codecs wire root args newIds) s
      (fun outcome s' => (∃ gz snapshot, buildFullTarball wire root s.2.tree = .ok gz ∧
          readSnapshot codecs gz = .ok snapshot ∧
          outcome.filesAdded = snapshot.files.keys.countP (isAdded (currentHashes env s.1) snapshot.files) ∧
          outcome.filesModified = snapshot.files.keys.countP (isModified env (currentHashes env s.1) snapshot.files) ∧
          outcome.filesDeleted = (snapshotDeletions env (currentHashes env s.1) snapshot).length) ∧
        ∀ q, q ≠ root ++ [vaiDir, "head".toList] → s'.2.tree.file q = s.2.tree.file q) (fun _ _ => True) := by
  refine (openWorkspace_opened args newIds.1 s).bind (fun _ _ h => h) ?_
  rintro ws s₁ ⟨rfl, -, hs₁⟩
  have hrow : s₁.1.row newIds.1 = some (opened newIds.1 args.message s.1) := by
    rw [hs₁]
    exact row_opened _ _ _ _
  have hcur : currentHashes env s₁.1 = currentHashes env s.1 := by rw [hs₁]; rfl
  have hfiles : s₁.2 = s.2 := by rw [hs₁]
  refine ends_bind (ends_bind (ends_read (ends_bind (ends_ofExcept (fun gz hgz => ?_) fun _ _ => trivial))))
  refine ends_onFst (ends_mapErr ((snapshot_answered false gz hrow).mono ?_ fun _ _ _ => trivial))
  rintro stats b₂ ⟨-, snapshot, hread, hanswers⟩
  refine ends_bind (ends_onFst ((ends_somehow _ _).mono (fun result b₃ _ => ?_) fun _ _ _ => trivial))
  have hhead : Keeps (fun f : Local => ∀ q, q ≠ root ++ [vaiDir, "head".toList] → f.tree.file q = s.2.tree.file q)
      (writePushedHead root result.version.versionId) := by
    refine (keeps_read _ _).bind fun _ => keeps_ite (Keeps.mapErr (keeps_write fun f f' hf hput q hq => ?_) _) (keeps_pure _ _)
    rw [hput.file q, resolve_headFile, if_neg hq, hf q hq]
  refine ends_bind (ends_onSnd ((hhead.ends ?_).mono (fun _ f hf => ends_pure ?_) fun _ _ _ => trivial))
  · intro q _
    rw [hfiles]
  · rw [hfiles] at hgz
    rw [← hcur]
    exact ⟨⟨gz, snapshot, hgz, hread, hanswers.added, hanswers.modified, hanswers.deleted⟩, hf⟩

/-- `.vai/head` is nothing that the hasher sees. -/
theorem get_localMap_frame {t t' : Tree} (h : ∀ q, q ≠ root ++ [vaiDir, "head".toList] → t'.file q = t.file q) (p : Text) :
    (collectLocalHashes client root t').get p = (collectLocalHashes client root t).get p := by
  rw [get_localMap, get_localMap]
  by_cases hfinds : walkFinds p = true
  · rw [if_pos hfinds, if_pos hfinds, h]
    intro he
    have hseen := (Bool.and_eq_true_iff.1 hfinds).2
    rw [List.append_cancel_left he] at hseen
    exact absurd hseen (by decide)
  · rw [if_neg hfinds, if_neg hfinds]

theorem hashes_after (hwire : wire.ReadsBack codecs) {b' : Backend} {gz : Bytes} {snapshot : Snapshot}
    (hgz : buildFullTarball wire root t = .ok gz) (hread : readSnapshot codecs gz = .ok snapshot)
    (hcur : ∀ p, b'.current p = pushedTree env codecs wire root t b p) (p : Path) : (currentHashes env b').get p =
      hashAfter env snapshot.files (currentHashes env b) (snapshotDeletions env (currentHashes env b) snapshot) p := by
  have hdel : p ∈ snapshotDeletions env (currentHashes env b) snapshot ↔ deletes codecs wire root t b p = true :=
    mem_deletions hwire hgz hread
  have hfiles := (readSnapshot_archive hwire hgz hread).1
  unfold hashAfter
  rw [get_currentHashes, get_currentHashes, hcur, hfiles]
  simp only [hdel]
  unfold pushedTree
  by_cases hp : p = []
  · have hnone : (snapshotFiles wire root t).get p = none := by
      cases hfile : (snapshotFiles wire root t).get p with
      | none => rfl
      | some c => exact absurd hp (ne_nil_of_archive (get_snapshotFiles hfile))
    rw [if_pos hp, if_pos hp, hnone]
    simp
  · rw [if_neg hp, if_neg hp]
    split
    · rfl
    · cases (snapshotFiles wire root t).get p with
      | none => rfl
      | some c =>
        dsimp only
        split
        · rename_i hsame
          exact hsame
        · rfl

/-! ## The main result -/

/-- The push did what its dry run says, and the next one finds nothing to do. -/
structure PushedExactly (env : Env) (codecs : Codecs) (client : ClientEnv) (wire : Wire) (root : List Name) (b : Backend)
    (files : Local) (outcome : PushOutcome) (s' : Backend × Local) : Prop where
  dry : ∀ message force newIds, ∃ report,
    push env Fails.none codecs client wire root ⟨message, true, force⟩ newIds (b, files) = (.ok report, (b, files)) ∧
      report.filesAdded = outcome.filesAdded ∧ report.filesModified = outcome.filesModified ∧
        report.filesDeleted = outcome.filesDeleted
  again : ∀ args newIds, (push env Fails.none codecs client wire root args newIds s').1 = .error .nothingToPush

/-- The walks agree on a working tree: every file that the hasher sees has a path without backslashes that the server does
not ignore; and with a `.vai-delta.json` the deletions that it lists are those that the hasher finds, and what it leaves
out is as on the server. -/
def WalksAgree (env : Env) (codecs : Codecs) (client : ClientEnv) (wire : Wire) (root : List Name) (t : Tree)
    (b : Backend) : Prop :=
  match (archive wire root t).get manifestPath with
  | none => ∀ rel c, t.file (root ++ rel) = some c → seen rel = true →
      '\\' ∉ joinNames rel ∧ isSnapshotPathIgnored (joinNames rel) = false
  | some bytes => ∀ manifest, codecs.fromSlice bytes = .ok manifest →
      Agreed env (collectLocalHashes client root t) (snapshotFiles wire root t) (currentHashes env b)
        (manifest.deletedPaths.filter (fun p => p ≠ []))

theorem Agreed.congr {seenFiles : FMap Text Text} {sent : FMap Path Bytes} {current current' : FMap Path Text}
    {deleted : List Path} (hget : ∀ p, current'.get p = current.get p) (h : Agreed env seenFiles sent current deleted) :
    Agreed env seenFiles sent current' deleted := by
  constructor
  · exact h.nodup
  · simpa only [hget] using h.deletes
  · simpa only [hget] using h.sends
  · simpa only [hget] using h.extra

theorem isAdded_congr {current current' : FMap Path Text} (hget : ∀ p, current'.get p = current.get p)
    (sent : FMap Path Bytes) : isAdded current' sent = isAdded current sent := by
  funext p
  unfold isAdded
  rw [hget]

theorem isModified_congr {current current' : FMap Path Text} (hget : ∀ p, current'.get p = current.get p)
    (sent : FMap Path Bytes) : isModified env current' sent = isModified env current sent := by
  funext p
  unfold isModified
  rw [hget]

theorem exact_iff_agreed (hwire : wire.ReadsBack codecs) (hnew : ∀ p, b.overlay newIds.1 p = none)
    {message : Text} {force : Bool} {outcome : PushOutcome} {s' : Backend × Local}
    (hok : push env Fails.none codecs client wire root ⟨message, false, force⟩ newIds (b, files) = (.ok outcome, s')) :
    ∃ gz snapshot, buildFullTarball wire root files.tree = .ok gz ∧ readSnapshot codecs gz = .ok snapshot ∧
      (PushedExactly env codecs client wire root b files outcome s' ↔
        Agreed env (collectLocalHashes client root files.tree) snapshot.files (currentHashes env b)
          (snapshotDeletions env (currentHashes env b) snapshot)) := by
  obtain ⟨manifest, hget, hplan⟩ := @readPlan_apply env client wire root (b, files)
  have hlive : ∃ plan, planPush ⟨message, false, force⟩ manifest (collectLocalHashes client root files.tree) = .ok plan ∧
      plan = none := by
    rw [push_of_plan (hplan _)] at hok
    cases hp : planPush ⟨message, false, force⟩ manifest (collectLocalHashes client root files.tree) with
    | error e =>
      rw [show planPush _ _ (collectLocalHashes client root (b, files).2.tree) = _ from hp] at hok
      cases hok
    | ok plan =>
      refine ⟨plan, rfl, Option.not_isSome_iff_eq_none.1 fun hsome => ?_⟩
      have := ((readPlan_ends (b, files)).ok ((hplan _).trans (by rw [show planPush _ _ _ = _ from hp]))).2.1 hsome
      cases this
  obtain ⟨-, hlive, rfl⟩ := hlive
  have hne : ¬ ∀ p, (collectLocalHashes client root files.tree).get p = (serverMap manifest).get p := by
    rw [← @nothingToPush_iff ⟨message, false, force⟩, hlive]
    exact fun h => nomatch h
  rw [push_of_plan ((hplan _).trans (by rw [show planPush _ _ _ = _ from hlive]))] at hok
  obtain ⟨⟨gz, snapshot, hgz, hread, hadded, hmodified, hdeleted⟩, hframe⟩ := pushFiles_told.ok hok
  have hcur := (pushFiles_ends (s := (b, files)) hwire hnew).ok hok
  refine ⟨gz, snapshot, hgz, hread, ?_⟩
  have hagain := @push_nothing_iff env codecs client wire root s'
  simp only [get_localMap_frame hframe, hashes_after hwire hgz hread hcur] at hagain
  have hdry := fun message force newIds =>
    @push_dry_reports env codecs client wire root newIds (b, files) outcome message force manifest hplan hne
  have hcounts : (filesAdded (serverMap manifest) (collectLocalHashes client root files.tree) = outcome.filesAdded ∧
      filesModified (serverMap manifest) (collectLocalHashes client root files.tree) = outcome.filesModified ∧
      (deletedPaths (serverMap manifest) (collectLocalHashes client root files.tree)).length = outcome.filesDeleted) ↔
      Tells env (collectLocalHashes client root files.tree) snapshot.files (serverMap manifest)
        (snapshotDeletions env (currentHashes env b) snapshot) := by
    rw [hadded, hmodified, hdeleted, ← isAdded_congr hget, ← isModified_congr hget]
    exact ⟨fun h => ⟨h.1, h.2.1, h.2.2⟩, fun h => ⟨h.added, h.modified, h.deleted⟩⟩
  have hafter : ∀ p, hashAfter env snapshot.files (serverMap manifest)
      (snapshotDeletions env (currentHashes env b) snapshot) p = hashAfter env snapshot.files (currentHashes env b)
      (snapshotDeletions env (currentHashes env b) snapshot) p := by
    intro p
    unfold hashAfter
    rw [hget]
  have hagreed : Agreed env (collectLocalHashes client root files.tree) snapshot.files (currentHashes env b)
      (snapshotDeletions env (currentHashes env b) snapshot) ↔ Agreed env (collectLocalHashes client root files.tree)
      snapshot.files (serverMap manifest) (snapshotDeletions env (currentHashes env b) snapshot) :=
    ⟨fun h => h.congr hget, fun h => h.congr fun p => (hget p).symm⟩
  rw [hagreed, agreed_iff, ← hcounts]
  simp only [hafter]
  rw [← hagain]
  exact ⟨fun h => ⟨(hdry [] false (0, 0)).1 (h.dry _ _ _), h.again⟩, fun h => ⟨fun _ _ _ => (hdry _ _ _).2 h.1, h.2⟩⟩

theorem backslash_not_mem_archive {p : Path} {c : Bytes} (h : (archive wire root t).get p = some c) : '\\' ∉ p := by
  obtain ⟨f, -, hf⟩ := List.mem_filterMap.1 (FMap.get_ofList_mem h)
  obtain ⟨q, -, rfl⟩ := Option.map_eq_some_iff.1 (serverFile_eq_some.1 hf).1
  exact backslash_not_mem_slashes q

/-- Without a manifest the deletions are what is not sent, and so all that is seen is sent. -/
theorem agreed_full_iff {seenFiles : FMap Text Text} {snapshot : Snapshot} {current : FMap Path Text}
    (hman : snapshot.manifest = none) :
    Agreed env seenFiles snapshot.files current (snapshotDeletions env current snapshot) ↔
      ∀ p, seenFiles.get p = (snapshot.files.get p).map env.sha256Hex := by
  have hmem : ∀ p, p ∈ snapshotDeletions env current snapshot ↔
      (current.get p).isSome ∧ snapshot.files.get p = none := by
    intro p
    unfold snapshotDeletions
    rw [hman]
    dsimp only
    rw [List.mem_filter, Env.mem_hashOrder, FMap.mem_keys, Option.isNone_iff_eq_none]
  constructor
  · intro h p
    rw [h.after p, hashAfter]
    cases hfile : snapshot.files.get p with
    | some c =>
      rw [if_neg fun hp => absurd (((hmem p).1 hp).2.symm.trans hfile) (by simp)]
      rfl
    | none =>
      split
      · rfl
      · rename_i hp
        rw [hmem, hfile, and_iff_left rfl, Option.not_isSome_iff_eq_none] at hp
        rw [hp]
        rfl
  · intro h
    have hnone : ∀ p, seenFiles.get p = none ↔ snapshot.files.get p = none := fun p => by
      rw [h p, Option.map_eq_none_iff]
    refine ⟨?_, fun p => by rw [hmem, hnone], fun p hash hp => ?_, fun p c hc hp => ?_⟩
    · unfold snapshotDeletions
      rw [hman]
      exact ((env.hashOrderPerm _).nodup_iff.2 current.keys_nodup).filter _
    · rw [← h p, hp]
      rfl
    · rw [hnone, hc] at hp
      cases hp

/-- The hasher and the server take the same files of a working tree without a manifest. -/
theorem sameFiles_iff (hkeeps : wire.KeepsPlain) (hsha : client.sha256Hex = env.sha256Hex)
    (hman : (archive wire root t).get manifestPath = none)
    (hsent : ∀ f ∈ fullFiles root t, (wire.serverPath f.1).isSome) :
    (∀ p, (collectLocalHashes client root t).get p = ((snapshotFiles wire root t).get p).map env.sha256Hex) ↔
      ∀ rel c, t.file (root ++ rel) = some c → seen rel = true →
        '\\' ∉ joinNames rel ∧ isSnapshotPathIgnored (joinNames rel) = false := by
  constructor
  · intro h rel c hfile hseen
    have hnames := Tree.isName_of_file hfile
    by_cases hrel : rel = []
    · rw [hrel]
      exact ⟨List.not_mem_nil, by decide⟩
    have hfinds : walkFinds (joinNames rel) = true := by
      unfold walkFinds
      rw [isPlain_joinNames hnames hrel, components_joinNames hnames, hseen]
      rfl
    have hp := h (joinNames rel)
    rw [get_localMap, if_pos hfinds, components_joinNames hnames, hfile] at hp
    obtain ⟨c', hc', -⟩ := Option.map_eq_some_iff.1 hp.symm
    refine ⟨backslash_not_mem_archive (get_snapshotFiles hc'), ?_⟩
    have hkept := (FMap.get_filter.1 hc').2
    rw [Bool.and_eq_true, Bool.not_eq_true'] at hkept
    exact hkept.1
  · intro h p
    have hcarried : Carried seen root t := by
      intro rel c hfile hseen
      have hnames := Tree.isName_of_file hfile
      have hback := (h rel c hfile hseen).1
      refine ⟨hback, fun hnul => ?_⟩
      have hpath := hsent (slashed (joinNames rel), c) (mem_walkFiles.2 ⟨rel, hfile, hseen, rfl⟩)
      unfold Wire.serverPath at hpath
      rw [slashed_of_not_mem hback, hkeeps rel hnames, trimDotSlash_joinNames hnames] at hpath
      unfold sanitizePath at hpath
      rw [if_pos hnul] at hpath
      cases hpath
    have hget : (archive wire root t).get p =
        if isPlain p = true ∧ seen (components p) = true then t.file (root ++ components p) else none :=
      get_serverFiles hkeeps hcarried p
    -- nothing that was sent is left out
    have hkept : (snapshotFiles wire root t).get p = (archive wire root t).get p := by
      cases hfile : (archive wire root t).get p with
      | none =>
        cases hs : (snapshotFiles wire root t).get p with
        | none => rfl
        | some c =>
          rw [get_snapshotFiles hs] at hfile
          cases hfile
      | some c =>
        refine FMap.get_filter.2 ⟨hfile, ?_⟩
        have hpman : p ≠ manifestPath := by
          rintro rfl
          rw [hman] at hfile
          cases hfile
        rw [hget] at hfile
        split at hfile
        · rename_i hp
          have hignored := (h _ _ hfile hp.2).2
          rw [← (isPlain_iff.1 hp.1).1] at hignored
          simp [hignored, hpman]
        · cases hfile
    rw [hkept, hget, get_localMap, hsha]
    unfold walkFinds
    simp only [Bool.and_eq_true]
    split <;> rfl

/-- **A push is what its dry run says and leaves nothing to do, exactly when the walks agree on the working tree**: whatever
the server has, the dry run of a live push that returned would have told what the server answered, and the next push of the
same tree finds nothing to push, if and only if `WalksAgree`. -/
theorem push_exact_iff (hwire : wire.ReadsBack codecs) (hkeeps : wire.KeepsPlain)
    (hsha : client.sha256Hex = env.sha256Hex) (hnew : ∀ p, b.overlay newIds.1 p = none) {message : Text} {force : Bool}
    {outcome : PushOutcome} {s' : Backend × Local}
    (hok : push env Fails.none codecs client wire root ⟨message, false, force⟩ newIds (b, files) = (.ok outcome, s')) :
    PushedExactly env codecs client wire root b files outcome s' ↔ WalksAgree env codecs client wire root files.tree b := by
  obtain ⟨gz, snapshot, hgz, hread, hexact⟩ := exact_iff_agreed hwire hnew hok
  obtain ⟨hfiles, hman⟩ := readSnapshot_archive hwire hgz hread
  rw [hexact]
  unfold WalksAgree
  cases harch : (archive wire root files.tree).get manifestPath with
  | none =>
    rw [harch] at hman
    rw [agreed_full_iff hman, hfiles]
    exact sameFiles_iff hkeeps hsha harch (serverPath_of_read hwire (tarGz_of_buildFullTarball hgz) hread)
  | some bytes =>
    rw [harch] at hman
    obtain ⟨manifest, hslice, hman⟩ := hman
    dsimp only
    unfold snapshotDeletions
    rw [hman, hfiles, hslice]
    exact ⟨fun h m hm => Except.ok.inj hm ▸ h, fun h => h manifest rfl⟩

/-! ## Two working trees -/

/-- HEAD has the file `a`. -/
def onlyA : Backend := { fresh with store := FMap.ofList [(currentKey "a".toList, [1])] }

/-- The archives of a working tree. -/
def sentOnce (l : List (Text × Bytes)) : List (List (Text × Bytes)) := [fullFiles ["repo".toList] (workTree l)]

def cloneOf (l : List (Text × Bytes)) : Local := ⟨workTree l, []⟩

def forcedPush (l : List (Text × Bytes)) : Except RemoteError PushOutcome × Backend × Local :=
  push hashed Fails.none (codecsOf (sentOnce l)) pushClient (wireOf (sentOnce l)) ["repo".toList] ⟨"change".toList, false, true⟩
    (3, 9) (onlyA, cloneOf l)

theorem wireOf_keepsPlain (known : List (List (Text × Bytes))) : (wireOf known).KeepsPlain := fun _ _ => rfl

theorem overlay_onlyA (p : Path) : onlyA.overlay 3 p = none := overlay_eq_none (by decide +kernel) p

attribute [local irreducible] push

/-- A changed file and a new one. -/
def plainFiles : List (Text × Bytes) := [("a".toList, [3]), ("x".toList, [2])]

theorem walksAgree_plain : WalksAgree hashed (codecsOf (sentOnce plainFiles)) pushClient (wireOf (sentOnce plainFiles))
    ["repo".toList] (cloneOf plainFiles).tree onlyA := by
  have hman : (archive (wireOf (sentOnce plainFiles)) ["repo".toList] (cloneOf plainFiles).tree).get manifestPath = none := by
    decide +kernel
  unfold WalksAgree
  rw [hman]
  intro rel c hfile _
  have hall : ∀ q ∈ filesBelow ["repo".toList] (cloneOf plainFiles).tree,
      '\\' ∉ joinNames q.1 ∧ isSnapshotPathIgnored (joinNames q.1) = false := by decide +kernel
  exact hall (rel, c) (mem_filesBelow.2 hfile)

attribute [local irreducible] WalksAgree

theorem push_exact_iff_plain : (forcedPush plainFiles).1 = .ok ⟨"v2".toList, 1, 1, 0, [], 2, false⟩ ∧
    PushedExactly hashed (codecsOf (sentOnce plainFiles)) pushClient (wireOf (sentOnce plainFiles)) ["repo".toList] onlyA
      (cloneOf plainFiles) ⟨"v2".toList, 1, 1, 0, [], 2, false⟩ (forcedPush plainFiles).2 := by
  have hout : (forcedPush plainFiles).1 = .ok ⟨"v2".toList, 1, 1, 0, [], 2, false⟩ := by decide +kernel
  have hok : forcedPush plainFiles = (.ok ⟨"v2".toList, 1, 1, 0, [], 2, false⟩, (forcedPush plainFiles).2) :=
    Prod.ext hout rfl
  have hsha : pushClient.sha256Hex = hashed.sha256Hex := rfl
  have hiff := push_exact_iff (wireOf_readsBack (sentOnce plainFiles)) (wireOf_keepsPlain _) hsha overlay_onlyA hok
  exact ⟨hout, hiff.2 walksAgree_plain⟩

/-- A `.git` that is a file, as in a worktree. -/
def gitFile : List (Text × Bytes) := [("a".toList, [3]), (".git".toList, [2])]

/-- **A file that is named like an ignored directory is pushed again and again**: the dry run tells of it, the server leaves
it out, and the next push has the same file to push. -/
theorem push_never_done : ¬ ∀ (env : Env) (codecs : Codecs) (client : ClientEnv) (wire : Wire) (root : List Name)
    (b : Backend) (files : Local) (message : Text) (newIds : Uuid × Uuid) (outcome : PushOutcome) (s' : Backend × Local),
    wire.ReadsBack codecs → wire.KeepsPlain → client.sha256Hex = env.sha256Hex → (∀ p, b.overlay newIds.1 p = none) →
    push env Fails.none codecs client wire root ⟨message, false, true⟩ newIds (b, files) = (.ok outcome, s') →
    PushedExactly env codecs client wire root b files outcome s' := by
  intro h
  have hok : forcedPush gitFile = (.ok ⟨"v2".toList, 0, 1, 0, [], 1, false⟩, (forcedPush gitFile).2) :=
    Prod.ext (by decide +kernel) rfl
  have hexact := h hashed _ pushClient _ ["repo".toList] onlyA (cloneOf gitFile) "change".toList (3, 9) _ _
    (wireOf_readsBack (sentOnce gitFile)) (wireOf_keepsPlain _) rfl overlay_onlyA hok
  have hseen := (push_nothing_iff _).1 hexact.again ".git".toList
  have hlocal : (collectLocalHashes pushClient ["repo".toList] (forcedPush gitFile).2.2.tree).get ".git".toList =
      some (hashed.sha256Hex [2]) := by decide +kernel
  have hserver : (currentHashes hashed (forcedPush gitFile).2.1).get ".git".toList = none := by decide +kernel
  rw [hlocal, hserver] at hseen
  cases hseen

end Remote
end Vai
