import Vai.Order
import Vai.Verdict
/-!
# Agree — one submit, locally and on the server

The same workspace submitted through `DiskMergeFs` in its repository, a tree of directories, and through `S3MergeFs` in
the temporary directory the server sets up.  Where no path lies above another both runs are the engine over the plain map
of the files, so the backends, the order of the listings and what the two directories hold besides HEAD make no
difference.  The iteration order of the hash sets does: the two processes hash with seeds of their own, and a file merged
by entity substitution can come out in two ways, or panic in only one of them.

`submits_agree_iff`: the two submits agree exactly when the two orders do not tell a difference.
-/
namespace Vai
namespace Merge

open Proc

/-! ## Agreement -/

/-- The same success with the same version and counts, the same conflicting files, or failures of another kind. -/
def SameOutcome : Except MergeError SubmitResult → Except MergeError SubmitResult → Prop
  | .ok a, .ok b => a.version.versionId = b.version.versionId ∧ a.filesApplied = b.filesApplied ∧
      a.autoResolved = b.autoResolved
  | .error e, .error e' => (NoConflicts e ∧ NoConflicts e') ∨ ∃ n cs n' cs', e = .semanticConflicts n cs ∧
      e' = .semanticConflicts n' cs' ∧ ∀ p, p ∈ cs.map ConflictRecord.filePath ↔ p ∈ cs'.map ConflictRecord.filePath
  | _, _ => False

/-- The iteration orders of `e₁` and `e₂` make the same of the submit: it does not get to the merge, both panic, or
neither does and it is refused for a conflict or merges every file it keeps to the same content. -/
def Unanimous (e₁ e₂ : Env) (m : WorkspaceMeta) (V : Files) (D : List Path) (v : VaiDir) : Prop :=
  Dropped e₁ m V D v ∨ (Panics e₁ m V v ∧ Panics e₂ m V v) ∨
    (¬ Panics e₁ m V v ∧ ¬ Panics e₂ m V v ∧ (Clashes e₁ m V v ∨ ∀ p, p ∉ D → (V (.overlay p)).isSome →
      fate e₁ m.id V (mergeBase m V v) p = fate e₂ m.id V (mergeBase m V v) p))

section Agreement

variable {e₁ e₂ : Env} {m : WorkspaceMeta} {V V₁ V₂ : Files} {D : List Path} {v₁ v₂ : VaiDir}
variable {r₁ r₂ : Except MergeError SubmitResult}

theorem mergeBase_congr (hh : v₂.head = v₁.head) : mergeBase m V v₂ = mergeBase m V v₁ := by
  unfold mergeBase
  rw [hh]

theorem computeEntityDiff_ok_iff (env : Env) (p : Path) (c : Bytes) (b : Option Bytes) :
    (∃ r, Diff.computeEntityDiff env p c b = .ok r) ↔
      (env.parseRustSource p c).isOk ∧ ∀ base, b = some base → (env.parseRustSource p base).isOk := by
  unfold Diff.computeEntityDiff
  cases hc : env.parseRustSource p c with
  | error e =>
    constructor
    · rintro ⟨_, hr⟩
      cases hr
    · exact fun h => nomatch h.1
  | ok r =>
    cases b with
    | none =>
      refine ⟨fun _ => ⟨rfl, fun _ h => ?_⟩, fun _ => ⟨_, rfl⟩⟩
      cases h
    | some base =>
      cases hb : env.parseRustSource p base with
      | error e =>
        constructor
        · rintro ⟨_, hr⟩
          simp only [hb] at hr
          cases hr
        · intro h
          have := h.2 base rfl
          rw [hb] at this
          cases this
      | ok r' =>
        simp only [hb]
        refine ⟨fun _ => ⟨rfl, fun base' h => ?_⟩, fun _ => ⟨_, rfl⟩⟩
        cases h
        rw [hb]
        rfl

theorem parses_congr (hp : e₁.parseRustSource = e₂.parseRustSource) : Diff.Parses e₁ V ↔ Diff.Parses e₂ V := by
  simp only [Diff.Parses, Diff.ParsesAt, computeEntityDiff_ok_iff, hp]

theorem fate_clash_iff (hp : e₁.parseRustSource = e₂.parseRustSource) (H : Path → Option Bytes) (i : Uuid) (p : Path) :
    fate e₁ i V H p = some none ↔ fate e₂ i V H p = some none := by
  unfold fate
  cases H p with
  | none => rfl
  | some b => exact tryMergeFile_clash_iff _ _ hp p b i 0

theorem dropped_congr (hp : e₁.parseRustSource = e₂.parseRustSource) (hh : v₂.head = v₁.head) :
    Dropped e₂ m V D v₂ ↔ Dropped e₁ m V D v₁ := by
  unfold Dropped
  rw [parses_congr hp, hh]

theorem panics_congr (hh : v₂.head = v₁.head) : Panics e₂ m V v₂ ↔ Panics e₂ m V v₁ := by
  unfold Panics
  rw [mergeBase_congr hh]

theorem clashes_congr (hp : e₁.parseRustSource = e₂.parseRustSource) (hh : v₂.head = v₁.head) :
    Clashes e₂ m V v₂ ↔ Clashes e₁ m V v₁ := by
  unfold Clashes
  rw [mergeBase_congr hh]
  simp only [fate_clash_iff hp]

theorem tree_eq_iff (hA₁ : ¬ Panics e₁ m V v₁ ∧ ¬ Clashes e₁ m V v₁) (hA₂ : ¬ Panics e₂ m V v₁ ∧ ¬ Clashes e₂ m V v₁) :
    (∀ p, tree e₁ m V D v₁ p = tree e₂ m V D v₁ p) ↔ ∀ p, p ∉ D → (V (.overlay p)).isSome →
      fate e₁ m.id V (mergeBase m V v₁) p = fate e₂ m.id V (mergeBase m V v₁) p := by
  have hfate : ∀ e, ¬ Panics e m V v₁ ∧ ¬ Clashes e m V v₁ → ∀ p, (V (.overlay p)).isSome →
      ∃ c, fate e m.id V (mergeBase m V v₁) p = some (some c) := by
    intro e he p hov
    rcases hf : fate e m.id V (mergeBase m V v₁) p with _ | _ | c
    · exact absurd ⟨p, hov, hf⟩ he.1
    · exact absurd ⟨p, hov, hf⟩ he.2
    · exact ⟨c, rfl⟩
  constructor
  · intro h p hpD hov
    have ht := h p
    rw [tree, if_neg hpD, if_pos hov, tree, if_neg hpD, if_pos hov] at ht
    obtain ⟨c₁, hc₁⟩ := hfate e₁ hA₁ p hov
    obtain ⟨c₂, hc₂⟩ := hfate e₂ hA₂ p hov
    rw [hc₁, hc₂] at ht ⊢
    exact congrArg some ht
  · intro h p
    unfold tree
    by_cases hpD : p ∈ D
    · rw [if_pos hpD, if_pos hpD]
    · rw [if_neg hpD, if_neg hpD]
      by_cases hov : (V (.overlay p)).isSome
      · rw [if_pos hov, if_pos hov, h p hpD hov]
      · rw [if_neg hov, if_neg hov]

theorem not_unanimous (hd : ¬ Dropped e₁ m V D v₁) (h : ¬ (Panics e₁ m V v₁ ↔ Panics e₂ m V v₁)) :
    ¬ Unanimous e₁ e₂ m V D v₁ := by
  rintro (hd' | ⟨h₁, h₂⟩ | ⟨h₁, h₂, -⟩)
  · exact hd hd'
  · exact h ⟨fun _ => h₂, fun _ => h₁⟩
  · exact h ⟨fun h' => absurd h' h₁, fun h' => absurd h' h₂⟩

theorem merged_agree_iff {a b : SubmitResult} {l l' : List Path} (hh : v₂.head = v₁.head)
    (hmax : v₂.maxVersion = v₁.maxVersion) (hl : Lists l (fun p => V (.overlay p))) (hl' : Lists l' (fun p => V (.overlay p)))
    (hid : a.version.versionId = v₁.nextVersionId) (hid' : b.version.versionId = v₂.nextVersionId)
    (happ : a.filesApplied = if v₁.head = m.baseVersion then l.length
      else l.length + (D.filter (fun p => (V (.base p)).isSome)).length)
    (happ' : b.filesApplied = if v₂.head = m.baseVersion then l'.length
      else l'.length + (D.filter (fun p => (V (.base p)).isSome)).length)
    (hauto : a.autoResolved =
      (l ++ D.filter (fun p => (V (.base p)).isSome)).countP (fun p => (mergeBase m V v₁ p).isSome))
    (hauto' : b.autoResolved =
      (l' ++ D.filter (fun p => (V (.base p)).isSome)).countP (fun p => (mergeBase m V v₂ p).isSome)) :
    (SameOutcome (.ok a) (.ok b) ∧ V.submitted (v₁.maxVersion + 1) D (tree e₁ m V D v₁) =
      V.submitted (v₂.maxVersion + 1) D (tree e₂ m V D v₂)) ↔ ∀ p, tree e₁ m V D v₁ p = tree e₂ m V D v₁ p := by
  have hperm := hl.perm hl'
  have htree : tree e₂ m V D v₂ = tree e₂ m V D v₁ := by
    funext p
    unfold tree
    rw [mergeBase_congr hh]
  have hsame : SameOutcome (.ok a) (.ok b) := by
    refine ⟨?_, ?_, ?_⟩
    · rw [hid, hid', VaiDir.nextVersionId, VaiDir.nextVersionId, hmax]
    · rw [happ, happ', hh, hperm.length_eq]
    · rw [hauto, hauto', mergeBase_congr hh]
      exact (hperm.append_right _).countP_eq _
  rw [htree, hmax]
  constructor
  · exact fun h p => congrFun h.2 (.base p)
  · exact fun h => ⟨hsame, by rw [funext h]⟩

theorem verdicts_agree_iff (hp : e₁.parseRustSource = e₂.parseRustSource) (hh : v₂.head = v₁.head)
    (hmax : v₂.maxVersion = v₁.maxVersion) (h₁ : Verdict e₁ m V D v₁ r₁ V₁) (h₂ : Verdict e₂ m V D v₂ r₂ V₂) :
    (SameOutcome r₁ r₂ ∧ V₁ = V₂) ↔ Unanimous e₁ e₂ m V D v₁ := by
  have hD := dropped_congr (m := m) (V := V) (D := D) hp hh
  have hP : Panics e₂ m V v₂ ↔ Panics e₂ m V v₁ := panics_congr hh
  have hC := clashes_congr (m := m) (V := V) hp hh
  have hclash : ∀ n cs, ¬ NoConflicts (.semanticConflicts n cs) := fun n cs h => h n cs rfl
  cases h₁ with
  | failed h e he hr hV =>
    cases h₂ with
    | failed h' e' he' hr' hV' =>
      subst hr hr' hV hV'
      refine ⟨fun _ => ?_, fun _ => ⟨.inl ⟨he, he'⟩, rfl⟩⟩
      rw [hD, hP] at h'
      rcases h with h | h
      · exact .inl h
      · exact h'.elim .inl fun h' => .inr (.inl ⟨h, h'⟩)
    | refused hd' hp' _ n cs _ hr' _ =>
      subst hr hr'
      rw [hD] at hd'
      rw [hP] at hp'
      have hpan := h.resolve_left hd'
      refine ⟨fun ⟨hs, _⟩ => ?_, fun hu => absurd hu (not_unanimous hd' fun h => hp' (h.1 hpan))⟩
      rcases hs with hs | ⟨n', cs', _, _, hs, _⟩
      · exact absurd hs.2 (hclash n cs)
      · exact absurd hs (he n' cs')
    | merged hd' hp' _ _ _ hr' =>
      subst hr hr'
      rw [hD] at hd'
      rw [hP] at hp'
      exact ⟨fun hs => hs.1.elim, fun hu => absurd hu (not_unanimous hd' fun h' => hp' (h'.1 (h.resolve_left hd')))⟩
  | refused hd hp₁ hc n cs hcs hr hV =>
    cases h₂ with
    | failed h' e' he' hr' hV' =>
      subst hr hr'
      rw [hD, hP] at h'
      have hpan := h'.resolve_left hd
      refine ⟨fun ⟨hs, _⟩ => ?_, fun hu => absurd hu (not_unanimous hd fun h => hp₁ (h.2 hpan))⟩
      rcases hs with hs | ⟨_, _, n', cs', _, hs, _⟩
      · exact absurd hs.1 (hclash n cs)
      · exact absurd hs (he' n' cs')
    | refused hd' hp' hc' n' cs' hcs' hr' hV' =>
      subst hr hr' hV hV'
      rw [hP] at hp'
      refine ⟨fun _ => .inr (.inr ⟨hp₁, hp', .inl hc⟩), fun _ => ⟨.inr ⟨n, cs, n', cs', rfl, rfl, fun q => ?_⟩, rfl⟩⟩
      rw [hcs, hcs', mergeBase_congr hh, fate_clash_iff hp]
    | merged _ _ hc' => exact absurd (hC.2 hc) hc'
  | merged hd hp₁ hc a l hr hl hid happ hauto hV =>
    cases h₂ with
    | failed h' e' he' hr' hV' =>
      subst hr hr'
      rw [hD, hP] at h'
      exact ⟨fun hs => hs.1.elim, fun hu => absurd hu (not_unanimous hd fun h => hp₁ (h.2 (h'.resolve_left hd)))⟩
    | refused _ _ hc' => exact absurd (hC.1 hc') hc
    | merged hd' hp' hc' b l' hr' hl' hid' happ' hauto' hV' =>
      subst hr hr' hV hV'
      rw [hP] at hp'
      have hc₂ : ¬ Clashes e₂ m V v₁ := fun h => hc ((clashes_congr hp rfl).1 h)
      rw [merged_agree_iff hh hmax hl hl' hid hid' happ happ' hauto hauto', tree_eq_iff ⟨hp₁, hc⟩ ⟨hp', hc₂⟩]
      constructor
      · exact fun h => .inr (.inr ⟨hp₁, hp', .inr h⟩)
      · rintro (h | ⟨h, -⟩ | ⟨-, -, h | h⟩)
        · exact absurd h hd
        · exact absurd h hp₁
        · exact absurd h hc
        · exact h

end Agreement

/-! ## The same submit, twice -/

/-- The paths of the deletion list, and of the files of the workspace, of HEAD and of the snapshots. -/
def Known (V : Files) (D : List Path) (p : Path) : Prop := p ∈ D ∨ ∃ k : Slot, k.path = p ∧ (V k).isSome

/-- The repository `w` and the store `S` hold the same overlay, base and snapshot files for the workspace `m`, no path
lies above another, and HEAD is the highest version. -/
structure Corresponding (m : WorkspaceMeta) (D : List Path) (root : List FilePath.Name) (w : World LocalFs.Local)
    (cfg : S3Config) (S : FMap Text Bytes) : Prop where
  active : w.vai.IsActive m
  paths : LocalFs.RepoPaths (Known (S3.filesOf cfg S) D)
  files : LocalFs.Rep (Known (S3.filesOf cfg S) D) root m.id w.fs (S3.filesOf cfg S)
  highest : w.vai.maxVersion = parseVersionNumber w.vai.head

/-- The local submit and the one on the server have the same outcome, and leave the same files. -/
def Agree (e₁ e₂ : Env) (m : WorkspaceMeta) (D : List Path) (root : List FilePath.Name) (w : World LocalFs.Local)
    (cfg : S3Config) (S : FMap Text Bytes) : Prop :=
  let here := submitWithFs e₁ (LocalFs.diskMergeFs e₁ root m.id) m D w
  let there := S3.s3Submit e₂ noFaults cfg m D (serverWorld S m w.vai.head)
  SameOutcome here.1 there.1 ∧ LocalFs.filesAt root m.id here.2.fs = S3.filesOf cfg there.2.fs.store

section

variable {e₁ e₂ : Env} {m : WorkspaceMeta} {D : List Path} {root : List FilePath.Name} {w : World LocalFs.Local}
variable {cfg : S3Config} {S : FMap Text Bytes}

theorem Agree.base (h : Agree e₁ e₂ m D root w cfg S) (p : Path) :
    LocalFs.filesAt root m.id (submitWithFs e₁ (LocalFs.diskMergeFs e₁ root m.id) m D w).2.fs (.base p) =
      (S3.s3Submit e₂ noFaults cfg m D (serverWorld S m w.vai.head)).2.fs.store.get (cfg.path (.base p)) :=
  congrFun h.2 (.base p)

theorem within_known (V : Files) (D : List Path) : V.Within D (Known V D) where
  overlay p hp := .inr ⟨.overlay p, rfl, hp⟩
  deleted _ hp := .inl hp
  snapshot n p hp := .inr ⟨.snapshot n p, rfl, hp⟩

theorem Corresponding.here (h : Corresponding m D root w cfg S) (env : Env) :
    Ran env m D (S3.filesOf cfg S) w.vai (submitWithFs env (LocalFs.diskMergeFs env root m.id) m D w).1
      (LocalFs.filesAt root m.id (submitWithFs env (LocalFs.diskMergeFs env root m.id) m D w).2.fs) :=
  .disk h.paths h.files (within_known _ D) h.active h.highest

/-- **When a local submit and a submit on the server agree**: exactly when the iteration orders of the two processes make
the same of it. -/
theorem submits_agree_iff (h₁ : ¬ e₁.Faulty) (h₂ : ¬ e₂.Faulty) (hp : e₁.parseRustSource = e₂.parseRustSource)
    (h : Corresponding m D root w cfg S) :
    Agree e₁ e₂ m D root w cfg S ↔ Unanimous e₁ e₂ m (S3.filesOf cfg S) D w.vai :=
  verdicts_agree_iff hp (tmpdir_head m w.vai.head) ((tmpdir_maxVersion m w.vai.head).trans h.highest.symm)
    ((h.here e₁).verdict h₁) ((Ran.server cfg S w.vai.head).verdict h₂)

/-- With one iteration order the two file systems make no difference. -/
theorem Corresponding.agree_self (h : Corresponding m D root w cfg S) (h₁ : ¬ e₁.Faulty) : Agree e₁ e₁ m D root w cfg S := by
  refine (verdicts_agree_iff rfl (tmpdir_head m w.vai.head) ((tmpdir_maxVersion m w.vai.head).trans h.highest.symm)
    ((h.here e₁).verdict h₁) ((Ran.server cfg S w.vai.head).verdict h₁)).2 ?_
  by_cases hpan : Panics e₁ m (S3.filesOf cfg S) w.vai
  · exact .inr (.inl ⟨hpan, hpan⟩)
  · exact .inr (.inr ⟨hpan, hpan, .inr fun _ _ _ => rfl⟩)

end

/-! ## Two states that correspond -/

/-- A store with the files `L`. -/
def storeOf (cfg : S3Config) (L : List (Slot × Bytes)) : FMap Text Bytes :=
  L.foldl (fun S q => S.insert (cfg.path q.1.place) q.2) ∅

/-- A repository at the root of the file system, in which the files `L` of workspace `i` have been written. -/
def repositoryOf (i : Uuid) (L : List (Slot × Bytes)) : LocalFs.Local :=
  ((L.forM fun q => LocalFs.install [] (LocalFs.physical i q.1.place) q.2 : Proc LocalFs.Local LocalFs.FsError PUnit)
    ⟨.empty, []⟩).2

/-- The map with the files `L`. -/
def filesFrom (L : List (Slot × Bytes)) : Files := L.foldl (fun V q => V.set q.1 (some q.2)) fun _ => none

theorem filesOf_storeOf (cfg : S3Config) (L : List (Slot × Bytes)) : S3.filesOf cfg (storeOf cfg L) = filesFrom L := by
  suffices ∀ (L : List (Slot × Bytes)) (S : FMap Text Bytes) (V : Files), S3.filesOf cfg S = V →
      S3.filesOf cfg (L.foldl (fun S q => S.insert (cfg.path q.1.place) q.2) S) =
        L.foldl (fun V q => V.set q.1 (some q.2)) V from this L ∅ _ rfl
  intro L
  induction L with
  | nil => exact fun _ _ h => h
  | cons q L ih =>
    intro S V h
    refine ih _ _ (funext fun k => ?_)
    dsimp only
    rw [S3.filesOf, FMap.get_insert, Files.set_apply]
    by_cases hk : k = q.1
    · rw [hk, if_pos rfl, if_pos rfl]
    · rw [if_neg fun hpa => hk (S3.path_place_injective hpa), if_neg hk]
      exact congrFun h k

theorem repositoryOf_rep {U : Path → Prop} (hU : LocalFs.RepoPaths U) (i : Uuid) {L : List (Slot × Bytes)}
    (hL : ∀ q ∈ L, U q.1.path) : LocalFs.Rep U [] i (repositoryOf i L) (filesFrom L) := by
  have hends : Ends (L.forM fun q => LocalFs.install [] (LocalFs.physical i q.1.place) q.2) ⟨.empty, []⟩
      (fun _ s => LocalFs.Rep U [] i s (filesFrom L)) (fun _ _ => False) := by
    refine ends_forM (fun pre s => LocalFs.Rep U [] i s (filesFrom pre)) L [] _ (LocalFs.rep_empty hU) fun pre q post s hl hs => ?_
    refine (LocalFs.install_rep hU hs (hL q (mem_of_split hl)) q.2).mono (fun _ s' hs' => ?_) fun _ _ h => h
    unfold filesFrom at hs' ⊢
    rwa [List.foldl_append]
  obtain ⟨_, s', hrun, hs'⟩ := hends.exists_ok fun _ _ h => h
  unfold repositoryOf
  rw [hrun]
  exact hs'

/-- The metadata at `v2`, with the workspace 7 from `v1`. -/
def behindVai : VaiDir :=
  { VaiDir.withWorkspaces [.fresh 7 1] with
    head := versionName 2
    versions := FMap.ofList [(versionName 1, initialVersion), (versionName 2, newRecord (.fresh 1 1) (versionName 2) 2)] }

/-- A repository behind which HEAD has moved, with the files `L`. -/
def behindStart (L : List (Slot × Bytes)) : World LocalFs.Local := { fs := repositoryOf 7 L, vai := behindVai, ops := 0 }

theorem behindStart_vai (L : List (Slot × Bytes)) : (behindStart L).vai = behindVai := rfl

theorem isSome_filesFrom {L : List (Slot × Bytes)} {k : Slot} : (filesFrom L k).isSome ↔ k ∈ L.map Prod.fst := by
  suffices ∀ (L : List (Slot × Bytes)) (V : Files), ((L.foldl (fun V q => V.set q.1 (some q.2)) V) k).isSome ↔
      (V k).isSome ∨ k ∈ L.map Prod.fst from (this L _).trans (by simp)
  intro L
  induction L with
  | nil => simp
  | cons q L ih =>
    intro V
    rw [List.foldl_cons, ih, Files.set_apply, List.map_cons, List.mem_cons]
    by_cases hk : k = q.1
    · simp [hk]
    · rw [if_neg hk, or_iff_right hk]

theorem behindStart_corresponding {L : List (Slot × Bytes)} {p : Path} (hL : ∀ q ∈ L, q.1.path = p)
    (hp : LocalFs.isRepoPath p = true) :
    Corresponding (.fresh 7 1) [] [] (behindStart L) S3.serverConfig (storeOf S3.serverConfig L) := by
  have hone : ∀ q, Known (filesFrom L) [] q → q = p := fun q hq => by
    obtain hq | ⟨k, rfl, hk⟩ := hq
    · cases hq
    · obtain ⟨x, hx, rfl⟩ := List.mem_map.1 (isSome_filesFrom.1 hk)
      exact hL x hx
  have hU : LocalFs.RepoPaths (Known (filesFrom L) []) :=
    ⟨fun q hq => by rw [hone q hq]; exact hp, fun q q' hq hq' _ => by rw [hone q hq, hone q' hq']⟩
  have hmem : ∀ q ∈ L, Known (filesFrom L) [] q.1.path := fun q hq =>
    .inr ⟨q.1, rfl, isSome_filesFrom.2 (List.mem_map_of_mem hq)⟩
  refine ⟨⟨rfl, ?_⟩, ?_, ?_, ?_⟩
  · have h : (VaiDir.withWorkspaces [.fresh 7 1]).workspaces.get 7 = some (.fresh 7 1) := by decide +kernel
    exact h
  · rwa [filesOf_storeOf]
  · rw [filesOf_storeOf]
    exact repositoryOf_rep hU 7 hmem
  · show behindVai.maxVersion = parseVersionNumber (versionName 2)
    decide +kernel

def rustFile : Path := "a.rs".toList
def comment (c : UInt8) : Bytes := [47, 47, 32, c]
/-- The text `fn f(){}` and, on the next line, `fn g(){}`. -/
def twoFunctions : Bytes := [102, 110, 32, 102, 40, 41, 123, 125, 10, 102, 110, 32, 103, 40, 41, 123, 125]

def function (name : Text) (start line : Nat) : Entity :=
  { id := name, kind := .function, name, qualifiedName := name, filePath := rustFile, byteRange := (start, start + 8),
    lineRange := (line, line), parentEntity := none }

/-- A process that finds the two functions, and iterates its hash sets in the given order. -/
def ordered (order : List Text → List Text) (h : ∀ l, (order l).Perm l) : Env :=
  { Env.plain with
    parseRustSource := fun _ c =>
      .ok (if c = twoFunctions then [function ['f'] 0 1, function ['g'] 9 2] else [], [])
    hashOrder := order
    hashOrderPerm := h }

def inOrder : Env := ordered id (fun _ => .refl _)
def inReverse : Env := ordered List.reverse List.reverse_perm

theorem fate_new_file (e : Env) (q : Path × Bytes) (p : Path) :
    fate e 7 (filesFrom [(.overlay q.1, q.2)]) (mergeBase (.fresh 7 1) (filesFrom [(.overlay q.1, q.2)]) behindVai) p =
      some (filesFrom [(.overlay q.1, q.2)] (.overlay p)) := by
  refine fate_of_none ?_
  have hne : behindVai.head ≠ (WorkspaceMeta.fresh 7 1).baseVersion := by decide +kernel
  rw [mergeBase, if_neg hne]
  refine List.findSome?_eq_none_iff.2 fun n _ => ?_
  show Files.set (fun _ => none) (.overlay q.1) (some q.2) (.snapshot n p) = none
  rw [Files.set_apply, if_neg (by simp)]

def newFile : List (Slot × Bytes) := [(.overlay ['b'], [1])]

/-- A new file is the same in both orders. -/
theorem submits_agree_iff_new_file : Agree inOrder inReverse (.fresh 7 1) [] [] (behindStart newFile) S3.serverConfig
    (storeOf S3.serverConfig newFile) := by
  have hq : ∀ e : Env, (∀ i, e.metaFault i = false) → ¬ e.Faulty := fun e he ⟨i, hi⟩ => absurd hi (by rw [he i]; decide)
  have hpan : ∀ e, ¬ Panics e (.fresh 7 1) (filesFrom newFile) behindVai := by
    rintro e ⟨p, -, hf⟩
    exact absurd ((fate_new_file e (['b'], [1]) p).symm.trans hf) (by simp)
  have hcorr := behindStart_corresponding (L := newFile) (p := ['b']) (by simp [newFile, Slot.path]) (by decide +kernel)
  refine (submits_agree_iff (hq inOrder fun _ => rfl) (hq inReverse fun _ => rfl) rfl hcorr).2 ?_
  rw [filesOf_storeOf, behindStart_vai]
  refine .inr (.inr ⟨hpan _, hpan _, .inr fun p _ _ => ?_⟩)
  exact (fate_new_file _ (['b'], [1]) p).trans (fate_new_file _ (['b'], [1]) p).symm

/-- HEAD has rewritten the one line of a file, and the workspace has put two functions in its place. -/
def twoFunctionsFiles : List (Slot × Bytes) :=
  [(.base rustFile, comment 50), (.snapshot 2 rustFile, comment 49), (.overlay rustFile, twoFunctions)]

def fThenG : Bytes := comment 50 ++ [10] ++ [102, 110, 32, 102, 40, 41, 123, 125, 10, 102, 110, 32, 103, 40, 41, 123, 125, 10]
def gThenF : Bytes := comment 50 ++ [10] ++ [102, 110, 32, 103, 40, 41, 123, 125, 10, 102, 110, 32, 102, 40, 41, 123, 125, 10]

/-- The two functions are new to HEAD, and are appended to its file in the order the hash set gives. -/
theorem functions_in_two_orders : ¬ inOrder.Faulty ∧ ¬ inReverse.Faulty ∧
    inOrder.parseRustSource = inReverse.parseRustSource ∧
    Corresponding (.fresh 7 1) [] [] (behindStart twoFunctionsFiles) S3.serverConfig
      (storeOf S3.serverConfig twoFunctionsFiles) ∧
    ¬ Agree inOrder inReverse (.fresh 7 1) [] [] (behindStart twoFunctionsFiles) S3.serverConfig
      (storeOf S3.serverConfig twoFunctionsFiles) := by
  have hq : ∀ e : Env, (∀ i, e.metaFault i = false) → ¬ e.Faulty := fun e he ⟨i, hi⟩ => absurd hi (by rw [he i]; decide)
  have hcorr := behindStart_corresponding (L := twoFunctionsFiles) (p := rustFile)
    (by simp [twoFunctionsFiles, Slot.path]) (by decide +kernel)
  refine ⟨hq _ fun _ => rfl, hq _ fun _ => rfl, rfl, hcorr, fun h => ?_⟩
  -- on one order the server does what the repository does
  have here := (hcorr.agree_self (hq inOrder fun _ => rfl)).base rustFile
  have there := h.base rustFile
  rw [behindStart_vai] at here there
  have hfg : (S3.s3Submit inOrder noFaults S3.serverConfig (.fresh 7 1) [] (serverWorld
      (storeOf S3.serverConfig twoFunctionsFiles) (.fresh 7 1) behindVai.head)).2.fs.store.get
      (S3.serverConfig.path (.base rustFile)) = some fThenG := by decide +kernel
  have hgf : (S3.s3Submit inReverse noFaults S3.serverConfig (.fresh 7 1) [] (serverWorld
      (storeOf S3.serverConfig twoFunctionsFiles) (.fresh 7 1) behindVai.head)).2.fs.store.get
      (S3.serverConfig.path (.base rustFile)) = some gThenF := by decide +kernel
  have hsame : some fThenG = some gThenF := hfg.symm.trans ((here.symm.trans there).trans hgf)
  exact absurd hsame (by decide +kernel)

end Merge
end Vai
