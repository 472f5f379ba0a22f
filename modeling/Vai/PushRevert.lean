import Vai.PushGuard
/-!
# PushRevert — what a push does to the work of others

A push sends the whole working tree, and the server compares it with HEAD, not with the version the clone was made from:
a file that was not touched locally but has changed on the server counts as a modification.  `push_keeps_iff` says which
paths a push leaves as they are on the server.
-/
namespace Vai
namespace Remote

open Proc Backend FilePath LocalFs Handlers

variable {env : Env} {codecs : Codecs} {client : ClientEnv} {wire : Wire} {root : List Name} {args : PushArgs}
  {newIds : Uuid × Uuid}

/-! ## A whole push -/

theorem readPlan_ends (s : Backend × Local) : Ends (readPlan env Fails.none client wire root args) s
    (fun plan s' => s' = s ∧ (plan.isSome ↔ args.dryRun = true)) (fun _ _ => True) := by
  have hsame : Ends (filesManifestHandler env Fails.none) s.1 (fun _ b' => b' = s.1) (fun _ b' => b' = s.1) :=
    (keeps_manifest (fun b => b = s.1) _).ends rfl
  refine ends_bind (ends_onFst (ends_mapErr (hsame.mono (fun manifest b' hb => ?_) fun _ _ _ => trivial)))
  refine ends_bind (ends_read (ends_ofExcept (fun plan hplan => ⟨Prod.ext hb rfl, ?_⟩) fun _ _ => trivial))
  unfold planPush at hplan
  dsimp only at hplan
  split at hplan
  · cases hplan
  · split at hplan
    · cases hplan
    · split at hplan
      · rename_i hdry
        cases hplan
        exact ⟨fun _ => hdry, fun _ => rfl⟩
      · rename_i hdry
        cases hplan
        exact ⟨fun h => (nomatch h), fun h => absurd h hdry⟩

/-- The tree after a push: the deletions of the upload, and the files of the snapshot that HEAD has otherwise. -/
def pushedTree (env : Env) (codecs : Codecs) (wire : Wire) (root : List Name) (t : Tree) (b : Backend) (p : Path) :
    Option Bytes :=
  if deletes codecs wire root t b p then none
  else
    match (snapshotFiles wire root t).get p with
    | some c => if (b.current p).map env.sha256Hex = some (env.sha256Hex c) then b.current p else some c
    | none => b.current p

theorem ne_nil_of_archive {t : Tree} {p : Path} {c : Bytes} (h : (archive wire root t).get p = some c) : p ≠ [] := by
  obtain ⟨f, -, hf⟩ := List.mem_filterMap.1 (FMap.get_ofList_mem h)
  unfold Wire.serverFile at hf
  split at hf
  · cases hf
  · split at hf
    · cases hf
    · rename_i hne
      cases hf
      exact hne

theorem get_snapshotFiles {t : Tree} {p : Path} {c : Bytes} (h : (snapshotFiles wire root t).get p = some c) :
    (archive wire root t).get p = some c := (FMap.get_filter.1 h).1

theorem deletes_congr {b b' : Backend} {t : Tree} {p : Path} (h : b'.current p = b.current p) :
    deletes codecs wire root t b' p = deletes codecs wire root t b p := by
  unfold deletes
  rw [h]

/-- **What the rest of a push leaves on the server**, for a workspace id that has no files yet. -/
theorem pushFiles_ends (hwire : wire.ReadsBack codecs) {s : Backend × Local} (hnew : ∀ p, s.1.overlay newIds.1 p = none) :
    Ends (pushFiles env Fails.none codecs wire root args newIds) s
      (fun _ s' => ∀ p, s'.1.current p = pushedTree env codecs wire root s.2.tree s.1 p) (fun _ _ => True) := by
  refine (openWorkspace_opened args newIds.1 s).bind (fun _ _ h => h) ?_
  rintro ws s₁ ⟨rfl, -, hs₁⟩
  have hrow : s₁.1.row newIds.1 = some (opened newIds.1 args.message s.1) := by
    rw [hs₁]
    exact row_opened _ _ _ _
  have hstore : s₁.1.store = s.1.store := by rw [hs₁]; rfl
  have hhead : s₁.1.head = s.1.head := by rw [hs₁]; rfl
  have hfiles : s₁.2 = s.2 := by rw [hs₁]
  have hcur : ∀ p, s₁.1.current p = s.1.current p := fun p => by unfold Backend.current; rw [hstore]
  have hempty : ∀ p, s₁.1.overlay newIds.1 p = none := fun p => by unfold Backend.overlay; rw [hstore]; exact hnew p
  refine (sendSnapshot_taken hwire hrow).bind (fun _ _ h => h) ?_
  rintro stats s₂ ⟨snapshot, hsnap, htaken, hdel⟩
  rw [hfiles] at hsnap hdel
  obtain ⟨status, D, hrow₂, hD⟩ := htaken.row
  refine (sendSubmit_submitted newIds.2 newIds.1 stats s₂).mono ?_ fun _ _ h => h
  rintro _ s₃ ⟨r, hsub⟩ p
  obtain ⟨m, hm, -, -, hstored⟩ := hsub.stored (S3.harmless_noFaults _)
  obtain rfl : _ = m := Option.some.inj (hrow₂.symm.trans hm)
  -- HEAD is still what the workspace is based on
  have hbase : headOf s₂.1 { opened newIds.1 args.message s.1 with status := status, deletedPaths := D } =
      (opened newIds.1 args.message s.1).baseVersion := by
    unfold headOf opened
    rw [htaken.head, hhead]
    cases s.1.head <;> rfl
  have hdeleted : p ∈ D ↔ deletes codecs wire root s.2.tree s.1 p = true := by
    rw [hD, hdel, deletes_congr (hcur p)]
    exact or_iff_right List.not_mem_nil
  refine (hstored.current p).trans ?_
  rw [mergedTree_of_head hbase, htaken.current, hcur]
  unfold pushedTree
  simp only [hdeleted]
  congr 1
  have hover := htaken.overlay p
  rw [hsnap, hempty, get_currentHashes, hcur] at hover
  rw [hover]
  cases hfile : (snapshotFiles wire root s.2.tree).get p with
  | none => rfl
  | some c =>
    rw [if_neg (ne_nil_of_archive (get_snapshotFiles hfile))]
    dsimp only
    split
    · rfl
    · rfl

theorem push_ends (hwire : wire.ReadsBack codecs) {s : Backend × Local} (hnew : ∀ p, s.1.overlay newIds.1 p = none) :
    Ends (push env Fails.none codecs client wire root args newIds) s
      (fun _ s' => ∀ p, s'.1.current p =
        if args.dryRun then s.1.current p else pushedTree env codecs wire root s.2.tree s.1 p) (fun _ _ => True) := by
  refine (readPlan_ends s).bind (fun _ _ h => h) ?_
  rintro plan _ ⟨rfl, hdry⟩
  cases plan with
  | some outcome => exact ends_pure fun p => (if_pos (hdry.1 rfl)).symm
  | none =>
    refine (pushFiles_ends hwire hnew).mono (fun _ s' h p => ?_) fun _ _ h => h
    rw [if_neg fun hd => absurd (hdry.2 hd) (by decide)]
    exact h p

/-! ## The main result -/

/-- The working tree has at the path what a version had: the files that go there are that one. -/
def Unedited (wire : Wire) (root : List Name) (t : Tree) (tree : Path → Option Bytes) (p : Path) : Prop :=
  ∀ c, tree p = some c ↔ ∃ rel, t.file (root ++ rel) = some c ∧ wire.serverPath (slashed (joinNames rel)) = some p

theorem unedited_iff {t : Tree} {tree : Path → Option Bytes} {p : Path} : Unedited wire root t tree p ↔
    (∀ q ∈ filesBelow root t, wire.serverPath (slashed (joinNames q.1)) = some p → tree p = some q.2) ∧
      ((tree p).isSome → ∃ q ∈ filesBelow root t, wire.serverPath (slashed (joinNames q.1)) = some p) := by
  constructor
  · refine fun h => ⟨fun q hq hp => (h q.2).2 ⟨q.1, mem_filesBelow.1 hq, hp⟩, fun hsome => ?_⟩
    obtain ⟨c, hc⟩ := Option.isSome_iff_exists.1 hsome
    obtain ⟨rel, hrel, hp⟩ := (h c).1 hc
    exact ⟨(rel, c), mem_filesBelow.2 hrel, hp⟩
  · rintro ⟨hfiles, hsome⟩ c
    constructor
    · intro hc
      obtain ⟨q, hq, hp⟩ := hsome (by rw [hc]; rfl)
      rw [hfiles q hq hp] at hc
      cases hc
      exact ⟨q.1, mem_filesBelow.1 hq, hp⟩
    · rintro ⟨rel, hrel, hp⟩
      exact hfiles (rel, c) (mem_filesBelow.2 hrel) hp

instance (t : Tree) (tree : Path → Option Bytes) (p : Path) : Decidable (Unedited wire root t tree p) :=
  decidable_of_iff _ unedited_iff.symm

/-- HEAD has at the path what the version had, as far as the snapshot goes: the upload deletes nothing there, and what it
sends has the hash of what HEAD has. -/
def UpToDate (env : Env) (codecs : Codecs) (wire : Wire) (root : List Name) (t : Tree) (tree : Path → Option Bytes)
    (b : Backend) (p : Path) : Prop :=
  if deletes codecs wire root t b p then b.current p = none
  else ((snapshotFiles wire root t).get p).isSome → (b.current p).map env.sha256Hex = (tree p).map env.sha256Hex

/-- A file of the snapshot at a path that was not edited is that of the version. -/
theorem Unedited.file {t : Tree} {tree : Path → Option Bytes} {p : Path} (h : Unedited wire root t tree p) {c : Bytes}
    (hc : (snapshotFiles wire root t).get p = some c) : tree p = some c := by
  obtain ⟨f, hf, hserver⟩ := List.mem_filterMap.1 (FMap.get_ofList_mem (get_snapshotFiles hc))
  obtain ⟨q, hq, rfl⟩ := List.mem_map.1 hf
  unfold Wire.serverFile at hserver
  split at hserver
  · cases hserver
  · rename_i path hpath
    split at hserver
    · cases hserver
    · cases hserver
      exact (h q.2).2 ⟨q.1, mem_filesBelow.1 (List.mem_filter.1 hq).1, hpath⟩

theorem pushedTree_eq_iff {t : Tree} {tree : Path → Option Bytes} {b : Backend} {p : Path}
    (h : Unedited wire root t tree p) :
    pushedTree env codecs wire root t b p = b.current p ↔ UpToDate env codecs wire root t tree b p := by
  unfold pushedTree UpToDate
  split
  · exact eq_comm
  · cases hfile : (snapshotFiles wire root t).get p with
    | none => simp
    | some c =>
      dsimp only
      rw [h.file hfile]
      simp only [Option.map_some, Option.isSome_some, forall_const]
      split
      · rename_i hhash
        exact iff_of_true rfl hhash
      · rename_i hhash
        exact iff_of_false (fun he => hhash (by rw [← he]; rfl)) hhash

/-- **A push reverts the work of others unless HEAD still has what the clone has**: whatever the version it was made from,
a push that returns leaves every path that was not edited locally as it was on the server if and only if it is a dry run or
each of these paths is up to date. -/
theorem push_keeps_iff (hwire : wire.ReadsBack codecs) {tree : Path → Option Bytes} {b : Backend} {files : Local}
    (hnew : ∀ p, b.overlay newIds.1 p = none) {outcome : PushOutcome} {s' : Backend × Local}
    (hok : push env Fails.none codecs client wire root args newIds (b, files) = (.ok outcome, s')) :
    (∀ p, Unedited wire root files.tree tree p → s'.1.current p = b.current p) ↔
      args.dryRun = true ∨ ∀ p, Unedited wire root files.tree tree p →
        UpToDate env codecs wire root files.tree tree b p := by
  have hcur := (push_ends hwire (s := (b, files)) hnew).ok hok
  by_cases hdry : args.dryRun = true
  · refine iff_of_true (fun p _ => ?_) (.inl hdry)
    rw [hcur, if_pos hdry]
  · rw [or_iff_right hdry]
    refine forall_congr' fun p => forall_congr' fun hp => ?_
    rw [hcur, if_neg hdry]
    exact pushedTree_eq_iff hp

/-! ## Two versions -/

/-- Three working trees that are sent: the first version, the next one, and the clone's. -/
def sentTrees (next : List (Text × Bytes)) : List (List (Text × Bytes)) :=
  [[("a".toList, [1])], next, [("a".toList, [1]), ("x".toList, [2])]].map
    (fun files => fullFiles ["repo".toList] (workTree files))

/-- A version from the `k`-th of them. -/
def publishes (id : Uuid) (k : Nat) : List Handlers.Call :=
  [quietly (.create id "change".toList), quietly (.upload id (.snapshot false (List.replicate k 0))),
    quietly (.submit 9 id)]

/-- The version `v2` with the file `a`, from which the clone is made. -/
def madeFrom (next : List (Text × Bytes)) : List Served × Backend :=
  serveAll hashed (codecsOf (sentTrees next)) (publishes 1 0) [] fresh

/-- The version `v3`. -/
def movedTo (next : List (Text × Bytes)) : List Served × Backend :=
  serveAll hashed (codecsOf (sentTrees next)) (publishes 2 1) [] (madeFrom next).2

/-- The clone, with a new file `x`. -/
def staleClone : Local :=
  ⟨workTree [("a".toList, [1]), ("x".toList, [2]), (".vai/head".toList, Text.intoBytes "v2\n".toList)], []⟩

def stalePush (next : List (Text × Bytes)) : Except RemoteError PushOutcome × Backend × Local :=
  push hashed Fails.none (codecsOf (sentTrees next)) pushClient (wireOf (sentTrees next)) ["repo".toList] careful (3, 9)
    ((movedTo next).2, staleClone)

theorem ran_madeFrom (next : List (Text × Bytes)) :
    Ran hashed (codecsOf (sentTrees next)) (fun _ c _ => c.fails = Fails.none)
      fresh (madeFrom next).1 (madeFrom next).2 :=
  ran_serveAll _ .start ⟨rfl, rfl, rfl, trivial⟩

theorem ran_movedTo (next : List (Text × Bytes)) :
    Ran hashed (codecsOf (sentTrees next)) (fun _ c _ => c.fails = Fails.none)
      (madeFrom next).2 (movedTo next).1 (movedTo next).2 :=
  ran_serveAll _ .start ⟨rfl, rfl, rfl, trivial⟩

attribute [local irreducible] push serveAll

/-- The next version has the file `x` too. -/
def sameA : List (Text × Bytes) := [("a".toList, [1]), ("x".toList, [5])]

theorem overlay_eq_none {b : Backend} {id : Uuid} (h : ∀ key ∈ b.store.keys, ¬ workspacePrefix id <+: key) (p : Path) :
    b.overlay id p = none := by
  by_contra hne
  exact h (workspaceKey id p) (FMap.mem_keys.2 (Option.isSome_iff_ne_none.2 hne)) (List.prefix_append _ _)

theorem upToDate_sameA {p : Path} (h : Unedited (wireOf (sentTrees sameA)) ["repo".toList] staleClone.tree
    (madeFrom sameA).2.current p) : UpToDate hashed (codecsOf (sentTrees sameA)) (wireOf (sentTrees sameA))
      ["repo".toList] staleClone.tree (madeFrom sameA).2.current (movedTo sameA).2 p := by
  have hfull : (archive (wireOf (sentTrees sameA)) ["repo".toList] staleClone.tree).get manifestPath = none := by
    decide +kernel
  have hin : ∀ p ∈ currentPaths (movedTo sameA).2,
      deletes (codecsOf (sentTrees sameA)) (wireOf (sentTrees sameA)) ["repo".toList] staleClone.tree
        (movedTo sameA).2 p = false := by decide +kernel
  have hdel : deletes (codecsOf (sentTrees sameA)) (wireOf (sentTrees sameA)) ["repo".toList] staleClone.tree
      (movedTo sameA).2 p = false := by
    by_cases hp : p ∈ currentPaths (movedTo sameA).2
    · exact hin p hp
    · rw [mem_currentPaths, not_and_or, not_not, Bool.not_eq_true] at hp
      unfold deletes
      rw [hfull]
      rcases hp with hp | hp <;> simp [hp]
  unfold UpToDate
  rw [hdel, if_neg (by decide)]
  intro hsome
  have hkeys : ∀ q ∈ (snapshotFiles (wireOf (sentTrees sameA)) ["repo".toList] staleClone.tree).keys,
      q = "a".toList ∨ q = "x".toList := by decide +kernel
  rcases hkeys p (FMap.mem_keys.2 hsome) with rfl | rfl
  · decide +kernel
  · -- the clone has changed `x`
    have hx := (h [2]).2 ⟨["x".toList], by decide +kernel, by decide +kernel⟩
    have hnone : (madeFrom sameA).2.current "x".toList = none := by decide +kernel
    rw [hnone] at hx
    cases hx

/-- Both have a new file `x`, and nothing else has changed. -/
theorem push_keeps_iff_same_file : (stalePush sameA).1.isOk = true ∧
    ∀ p, Unedited (wireOf (sentTrees sameA)) ["repo".toList] staleClone.tree (madeFrom sameA).2.current p →
      (stalePush sameA).2.1.current p = (movedTo sameA).2.current p := by
  have hnew : ∀ key ∈ (movedTo sameA).2.store.keys, ¬ workspacePrefix 3 <+: key := by decide +kernel
  have hok : stalePush sameA = (.ok ⟨"v4".toList, 0, 1, 0, [], 1, false⟩, (stalePush sameA).2) :=
    Prod.ext (by decide +kernel) rfl
  refine ⟨by rw [hok]; rfl, (push_keeps_iff (wireOf_readsBack (sentTrees sameA)) ?_ hok).2
    (.inr fun p hp => upToDate_sameA hp)⟩
  exact overlay_eq_none hnew

/-- The next version has changed the file `a`. -/
def otherA : List (Text × Bytes) := [("a".toList, [3])]

/-- **A push reverts a change that was made since the clone's version**: `a` was not touched in the clone, and is again
what it was. -/
theorem push_reverts_change : ¬ ∀ (env : Env) (codecs : Codecs) (client : ClientEnv) (wire : Wire) (root : List Name)
    (args : PushArgs) (newIds : Uuid × Uuid) (lK l : List Served) (bK b : Backend) (vK : Text) (files : Local)
    (outcome : PushOutcome) (s' : Backend × Local), wire.ReadsBack codecs →
    Ran env codecs (fun _ c _ => c.fails = Fails.none) fresh lK bK →
      Ran env codecs (fun _ c _ => c.fails = Fails.none) bK l b →
    bK.head = some vK → headIn root files.tree = some vK → (∀ p, b.overlay newIds.1 p = none) →
    push env Fails.none codecs client wire root args newIds (b, files) = (.ok outcome, s') →
    ∀ p, Unedited wire root files.tree bK.current p → s'.1.current p = b.current p := by
  intro h
  have hhead : (madeFrom otherA).2.head = some "v2".toList := by decide +kernel
  have hlocal : headIn ["repo".toList] staleClone.tree = some "v2".toList := by decide +kernel
  have hnew : ∀ key ∈ (movedTo otherA).2.store.keys, ¬ workspacePrefix 3 <+: key := by decide +kernel
  have hok : stalePush otherA = (.ok ⟨"v4".toList, 1, 1, 0, [], 2, false⟩, (stalePush otherA).2) :=
    Prod.ext (by decide +kernel) rfl
  have hun : Unedited (wireOf (sentTrees otherA)) ["repo".toList] staleClone.tree
    (madeFrom otherA).2.current "a".toList := by
    decide +kernel
  have hkept := h hashed _ pushClient _ ["repo".toList] careful (3, 9) _ _ _ _ _ _ _ _
    (wireOf_readsBack (sentTrees otherA)) (ran_madeFrom otherA) (ran_movedTo otherA) hhead hlocal
    (overlay_eq_none hnew) hok "a".toList hun
  have hbefore : (movedTo otherA).2.current "a".toList = some [3] := by decide +kernel
  have hafter : (stalePush otherA).2.1.current "a".toList = some [1] := by decide +kernel
  rw [hbefore, hafter] at hkept
  exact absurd hkept (by decide)

end Remote
end Vai
