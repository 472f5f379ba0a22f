import Vai.Conflicts
import Vai.Handlers
import Vai.Landed
import Vai.LocalMergeFs
import Vai.Server
/-!
# Verdict — a submit on a disk or on the server

A submit runs in a repository on a disk, through `DiskMergeFs`, or on the server, through `S3MergeFs` in a temporary
directory (`Ran`).  Either way it is the engine over the plain map of the files: without faults the files, HEAD and the
deletion list decide what it comes to (`Verdict`).  On a disk this takes paths in normal form, of which none lies above
another or in the way of one; the server takes any text for a path.

`Shared` is what all the workspaces of a repository have in common: the tree, the snapshots and HEAD.
-/
namespace Vai
namespace Merge

open Proc

/-! ## What a submit comes to -/

section

variable (env : Env) (m : WorkspaceMeta) (V : Files) (D : List Path) (v : VaiDir)

/-- The submit does not get to the decisions on its files, or stops at a deletion. -/
def Dropped : Prop :=
  ¬ Diff.Parses env V ∨ (¬ ∃ p, Changed V D p) ∨
    v.head ≠ m.baseVersion ∧ ∃ p ∈ D, (V (.base p)).isSome ∧ V (.overlay p) = none

/-- The analysis of some overlay file panics. -/
def Panics : Prop := ∃ p, (V (.overlay p)).isSome ∧ fate env m.id V (mergeBase m V v) p = none

/-- Some overlay file is in conflict with HEAD. -/
def Clashes : Prop := ∃ p, (V (.overlay p)).isSome ∧ fate env m.id V (mergeBase m V v) p = some none

/-- The answer `r` and the files `V'` of a submit. -/
inductive Verdict (r : Except MergeError SubmitResult) (V' : Files) : Prop where
  | failed (h : Dropped env m V D v ∨ Panics env m V v) (e : MergeError) (he : NoConflicts e) (hr : r = .error e)
      (hV : V' = V)
  | refused (hd : ¬ Dropped env m V D v) (hp : ¬ Panics env m V v) (hc : Clashes env m V v) (n : Nat)
      (cs : List ConflictRecord) (hcs : ∀ q, q ∈ cs.map ConflictRecord.filePath ↔
        (V (.overlay q)).isSome ∧ fate env m.id V (mergeBase m V v) q = some none)
      (hr : r = .error (.semanticConflicts n cs)) (hV : V' = V)
  | merged (hd : ¬ Dropped env m V D v) (hp : ¬ Panics env m V v) (hc : ¬ Clashes env m V v) (a : SubmitResult)
      (l : List Path) (hr : r = .ok a) (hl : Lists l (fun p => V (.overlay p)))
      (hid : a.version.versionId = v.nextVersionId)
      (happ : a.filesApplied = if v.head = m.baseVersion then l.length
        else l.length + (D.filter (fun p => (V (.base p)).isSome)).length)
      (hauto : a.autoResolved =
        (l ++ D.filter (fun p => (V (.base p)).isSome)).countP (fun p => (mergeBase m V v p).isSome))
      (hV : V' = V.submitted (v.maxVersion + 1) D (tree env m V D v))

end

section

variable {env : Env} {m : WorkspaceMeta} {V : Files} {D : List Path} {v : VaiDir}

theorem accepted_iff : Accepted env m V D v ↔
    ¬ Dropped env m V D v ∧ ¬ Panics env m V v ∧ ¬ Clashes env m V v := by
  constructor
  · intro h
    refine ⟨?_, ?_, ?_⟩
    · rintro (hp | hne | ⟨hhead, p, hpD, hb, ho⟩)
      · exact hp h.parses
      · exact hne h.nonempty
      · have := h.overlay hhead p hpD hb
        rw [ho] at this
        cases this
    · rintro ⟨p, hov, hf⟩
      obtain ⟨c, hc⟩ := h.merges p hov
      rw [hf] at hc
      cases hc
    · rintro ⟨p, hov, hf⟩
      obtain ⟨c, hc⟩ := h.merges p hov
      rw [hf] at hc
      cases hc
  · rintro ⟨hd, hp, hc⟩
    refine ⟨Classical.not_not.1 fun h => hd (.inl h), Classical.not_not.1 fun h => hd (.inr (.inl h)),
      fun hhead p hpD hb => ?_, fun p hov => ?_⟩
    · cases ho : V (.overlay p) with
      | none => exact absurd (.inr (.inr ⟨hhead, p, hpD, hb, ho⟩)) hd
      | some _ => rfl
    · rcases hf : fate env m.id V (mergeBase m V v) p with _ | _ | c
      · exact absurd ⟨p, hov, hf⟩ hp
      · exact absurd ⟨p, hov, hf⟩ hc
      · exact ⟨c, rfl⟩

theorem conflicted_iff : Conflicted env m V D v ↔
    ¬ Dropped env m V D v ∧ ¬ Panics env m V v ∧ Clashes env m V v := by
  constructor
  · intro h
    refine ⟨?_, fun ⟨p, hov, hf⟩ => h.free p (.inl hov) (.inr hf), h.clashes⟩
    rintro (hp | hne | ⟨-, p, hpD, hb, ho⟩)
    · exact hp h.parses
    · obtain ⟨p, hov, -⟩ := h.clashes
      exact hne ⟨p, .inl hov⟩
    · exact h.free p (.inr ⟨hpD, hb⟩) (.inl ho)
  · rintro ⟨hd, hp, q, hq, hfq⟩
    -- a clash means that HEAD has moved
    have hhead : v.head ≠ m.baseVersion := fun hh => by
      rw [fate_of_none (mergeBase_of_eq hh q)] at hfq
      rw [Option.some.inj hfq] at hq
      cases hq
    refine ⟨Classical.not_not.1 fun h => hd (.inl h), fun p hch hst => ?_, q, hq, hfq⟩
    have hov : (V (.overlay p)).isSome := by
      rcases hch with hov | ⟨hpD, hb⟩
      · exact hov
      · cases ho : V (.overlay p) with
        | none => exact absurd (.inr (.inr ⟨hhead, p, hpD, hb, ho⟩)) hd
        | some _ => rfl
    rcases hst with ho | hf
    · rw [ho] at hov
      cases hov
    · exact hp ⟨p, hov, hf⟩

theorem verdict_of_refused {e : MergeError} (h : Refused env m V D v e) : Verdict env m V D v (.error e) V := by
  by_cases hC : Conflicted env m V D v
  · obtain ⟨n, cs, rfl⟩ := h.conflicted.2 hC
    obtain ⟨hd, hp, hc⟩ := conflicted_iff.1 hC
    exact .refused hd hp hc n cs (h.named n cs rfl) rfl rfl
  · refine .failed ?_ e (fun n cs he => hC (h.conflicted.1 ⟨n, cs, he⟩)) rfl rfl
    by_contra hno
    rw [not_or] at hno
    by_cases hc : Clashes env m V v
    · exact hC (conflicted_iff.2 ⟨hno.1, hno.2, hc⟩)
    · exact h.notAccepted (accepted_iff.2 ⟨hno.1, hno.2, hc⟩)

theorem verdict_of_merged {φ : Type} {rep : φ → Files → Prop} {r : SubmitResult} {w' : World φ}
    (hacc : Accepted env m V D v) (h : Merged env m V D v rep r w') :
    Verdict env m V D v (.ok r) (V.submitted (v.maxVersion + 1) D (tree env m V D v)) := by
  obtain ⟨hd, hp, hc⟩ := accepted_iff.1 hacc
  obtain ⟨l, hl, happ, hauto⟩ := h.counts
  exact .merged hd hp hc r l rfl hl h.version happ hauto rfl

end

/-! ## The two backends -/

theorem tmpdir_head (m : WorkspaceMeta) (head : Text) : (setupTmpdirForS3Submit m head).head = head := rfl

theorem tmpdir_maxVersion (m : WorkspaceMeta) (head : Text) :
    (setupTmpdirForS3Submit m head).maxVersion = parseVersionNumber head := by
  have hget : ∀ id, (setupTmpdirForS3Submit m head).versions.get id = if id = head then some _ else FMap.get ∅ id :=
    fun id => FMap.get_insert _ _ _ _
  refine le_antisymm (VaiDir.maxVersion_le.2 fun id r hr => ?_) ?_
  · rw [hget] at hr
    split at hr
    · cases hr
      exact le_rfl
    · cases hr
  · have h := VaiDir.le_maxVersion ((hget head).trans (if_pos rfl))
    exact h

/-- The server beside the store `S`, with the temporary directory of a submit. -/
def serverWorld (S : FMap Text Bytes) (m : WorkspaceMeta) (head : Text) : World S3 :=
  { fs := S3.new S, vai := setupTmpdirForS3Submit m head, ops := 0 }

/-- A submit that the code has run, on the files `V` with the metadata `v`: its answer, and the files it leaves.  On a disk
the paths of `U` are those of the submit, and HEAD is the highest version. -/
inductive Ran (env : Env) (m : WorkspaceMeta) (D : List Path) :
    Files → VaiDir → Except MergeError SubmitResult → Files → Prop where
  | disk {U : Path → Prop} {root : List FilePath.Name} {w : World LocalFs.Local} {V : Files} (hU : LocalFs.RepoPaths U)
      (h : LocalFs.Rep U root m.id w.fs V) (hw : V.Within D U) (ha : w.vai.IsActive m)
      (hmax : w.vai.maxVersion = parseVersionNumber w.vai.head) :
      Ran env m D V w.vai (submitWithFs env (LocalFs.diskMergeFs env root m.id) m D w).1
        (LocalFs.filesAt root m.id (submitWithFs env (LocalFs.diskMergeFs env root m.id) m D w).2.fs)
  | server (cfg : S3Config) (S : FMap Text Bytes) (head : Text) :
      Ran env m D (S3.filesOf cfg S) (setupTmpdirForS3Submit m head)
        (S3.s3Submit env noFaults cfg m D (serverWorld S m head)).1
        (S3.filesOf cfg (S3.s3Submit env noFaults cfg m D (serverWorld S m head)).2.fs.store)

section Ran

variable {env : Env} {m : WorkspaceMeta} {D : List Path} {V V' : Files} {v : VaiDir}
variable {r : Except MergeError SubmitResult}

theorem Ran.highest (h : Ran env m D V v r V') : v.maxVersion = parseVersionNumber v.head := by
  cases h with
  | disk _ _ _ _ hmax => exact hmax
  | server cfg S head => exact tmpdir_maxVersion m head

/-- A submit goes through as the map of the files has it, or is refused and leaves them alone, or something has failed. -/
theorem Ran.spec (h : Ran env m D V v r V') :
    (∃ a, r = .ok a ∧ Accepted env m V D v ∧ V' = V.submitted (v.maxVersion + 1) D (tree env m V D v) ∧
      a.version.versionId = v.nextVersionId ∧ Verdict env m V D v r V') ∨
    (∃ e, r = .error e) ∧ (env.Faulty ∨ V' = V ∧ Verdict env m V D v r V' ∧ ¬ Accepted env m V D v) := by
  cases h with
  | @disk U root w V hU h hw ha hmax =>
    have C : (LocalFs.diskMergeFs env root m.id).ContractOn U (LocalFs.Rep U root m.id) env.Faulty :=
      (LocalFs.diskMergeFs_contract hU).mono False.elim
    have hspec := submitWithFs_specOn C id h ha hw
    rcases hr : submitWithFs env (LocalFs.diskMergeFs env root m.id) m D w with ⟨e | a, w'⟩
    · refine .inr ⟨⟨e, rfl⟩, (hspec.error hr).imp_right fun ⟨hrep, href⟩ => ?_⟩
      have hV : LocalFs.filesAt root m.id w'.fs = V := hrep.files
      refine ⟨hV, ?_, href.notAccepted⟩
      rw [hV]
      exact verdict_of_refused href
    · obtain ⟨hacc, hm, -⟩ := hspec.ok hr
      have hV : LocalFs.filesAt root m.id w'.fs = _ := hm.files.files
      refine .inl ⟨a, rfl, hacc, hV, hm.version, ?_⟩
      rw [hV]
      exact verdict_of_merged hacc hm
  | server cfg S head =>
    have hspec : Ends (S3.s3Submit env noFaults cfg m D) (serverWorld S m head) _ _ :=
      S3.s3Submit_ends (S3.harmless_noFaults S) rfl (tmpdir_active m head) D
    rcases hr : S3.s3Submit env noFaults cfg m D (serverWorld S m head) with ⟨e | a, w'⟩
    · refine .inr ⟨⟨e, rfl⟩, ?_⟩
      rcases hspec.error hr with (hany | hf) | ⟨⟨L, hL, -⟩, href⟩
      · exact absurd hany S3.not_anyFault_noFaults
      · exact .inl hf
      · have hV : S3.filesOf cfg w'.fs.store = S3.filesOf cfg S := by rw [hL.store]
        refine .inr ⟨hV, ?_, href.notAccepted⟩
        rw [hV]
        exact verdict_of_refused href
    · obtain ⟨hacc, hfl, w₁, hm⟩ := hspec.ok hr
      have hV : S3.filesOf cfg w'.fs.store = _ := funext hfl.slots
      refine .inl ⟨a, rfl, hacc, hV, hm.version, ?_⟩
      rw [hV]
      exact verdict_of_merged hacc hm

/-- **Without faults the map of the files decides.** -/
theorem Ran.verdict (h : Ran env m D V v r V') (hf : ¬ env.Faulty) : Verdict env m V D v r V' := by
  rcases h.spec with ⟨_, _, _, _, _, hv⟩ | ⟨-, hfault | ⟨-, hv, -⟩⟩
  · exact hv
  · exact absurd hfault hf
  · exact hv

variable {a : SubmitResult}

theorem Ran.accepted (h : Ran env m D V v (.ok a) V') : Accepted env m V D v := by
  rcases h.spec with ⟨_, _, hacc, _⟩ | ⟨⟨_, he⟩, -⟩
  · exact hacc
  · cases he

theorem Ran.files (h : Ran env m D V v (.ok a) V') :
    V' = V.submitted (v.maxVersion + 1) D (tree env m V D v) := by
  rcases h.spec with ⟨_, _, _, hV, _⟩ | ⟨⟨_, he⟩, -⟩
  · exact hV
  · cases he

theorem Ran.version (h : Ran env m D V v (.ok a) V') : a.version.versionId = v.nextVersionId := by
  rcases h.spec with ⟨_, hr, _, _, hver, _⟩ | ⟨⟨_, he⟩, -⟩
  · cases hr
    exact hver
  · cases he

/-- Without faults an acceptable submit goes through. -/
theorem Ran.succeeds (h : Ran env m D V v r V') (hf : ¬ env.Faulty) (hacc : Accepted env m V D v) : ∃ a, r = .ok a := by
  rcases h.spec with ⟨a, ha, _⟩ | ⟨-, hfault | ⟨-, -, hno⟩⟩
  · exact ⟨a, ha⟩
  · exact absurd hfault hf
  · exact absurd hacc hno

end Ran

/-! ## What workspaces share -/

/-- The tree, the snapshots and HEAD of a repository. -/
structure Shared where
  base : Path → Option Bytes
  snapshot : Nat → Path → Option Bytes
  head : Text

/-- The files of a workspace without its overlay. -/
def sharedOf (V : Files) (head : Text) : Shared where
  base p := V (.base p)
  snapshot n p := V (.snapshot n p)
  head := head

/-- A repository at the version `vK`: there are no snapshots of later versions. -/
structure Shared.AtVersion (s : Shared) (K : Nat) : Prop where
  head : s.head = versionName K
  fresh : ∀ n p, K < n → s.snapshot n p = none

section

variable {env : Env} {m : WorkspaceMeta} {D : List Path} {V V' : Files} {v : VaiDir} {a : SubmitResult} {K : Nat}

theorem Ran.base (h : Ran env m D V v (.ok a) V') (p : Path) : V' (.base p) = tree env m V D v p := by
  rw [h.files]
  rfl

theorem Ran.maxVersion (h : Ran env m D V v (.ok a) V') (hK : (sharedOf V v.head).AtVersion K) : v.maxVersion = K := by
  rw [h.highest, show v.head = versionName K from hK.head, parseVersionNumber_versionName]

/-- The files that were there before are saved as they were. -/
theorem Ran.snapshot (h : Ran env m D V v (.ok a) V') (hK : (sharedOf V v.head).AtVersion K) (n : Nat) (p : Path) :
    V' (.snapshot n p) = if n = K + 1 ∧ (p ∈ D ∨ (V (.overlay p)).isSome) ∧ (V (.base p)).isSome then V (.base p)
      else V (.snapshot n p) := by
  rw [h.files, h.maxVersion hK]
  rfl

/-- **A submit takes a repository from `vK` to `v(K+1)`.** -/
theorem Ran.atVersion (h : Ran env m D V v (.ok a) V') (hK : (sharedOf V v.head).AtVersion K) :
    (sharedOf V' a.version.versionId).AtVersion (K + 1) where
  head := by
    show a.version.versionId = _
    rw [h.version, VaiDir.nextVersionId, h.maxVersion hK]
  fresh n p hn := by
    show V' (.snapshot n p) = none
    rw [h.snapshot hK, if_neg (by omega)]
    exact hK.fresh n p (by omega)

/-- There is something to merge against once HEAD has moved. -/
theorem Ran.moved (h : Ran env m D V v (.ok a) V') (hK : (sharedOf V v.head).AtVersion K) :
    a.version.versionId ≠ versionName K := by
  rw [show a.version.versionId = versionName (K + 1) from (h.atVersion hK).head]
  exact fun he => absurd (versionName_injective he) (by omega)

end

/-! ## Two workspaces on the server -/

/-- A submit on the server of a workspace from `v1`. -/
def servedSubmit (i : Uuid) (head : Nat) (D : List Path) (S : FMap Text Bytes) : Except MergeError SubmitResult × World S3 :=
  S3.s3Submit Env.plain noFaults (Handlers.configOf i) (.fresh i 1) D (serverWorld S (.fresh i 1) (versionName head))

/-- The files of a workspace on the server. -/
def servedFiles (i : Uuid) (S : FMap Text Bytes) : Files := S3.filesOf (Handlers.configOf i) S

theorem servedSubmit_ran {i : Uuid} {head : Nat} {D : List Path} {S : FMap Text Bytes}
    (hok : (servedSubmit i head D S).1.isOk) : ∃ a, Ran Env.plain (.fresh i 1) D (servedFiles i S)
      (setupTmpdirForS3Submit (.fresh i 1) (versionName head)) (.ok a)
      (servedFiles i (servedSubmit i head D S).2.fs.store) := by
  have hran : Ran Env.plain (.fresh i 1) D (servedFiles i S) (setupTmpdirForS3Submit (.fresh i 1) (versionName head))
      (servedSubmit i head D S).1 (servedFiles i (servedSubmit i head D S).2.fs.store) :=
    .server (Handlers.configOf i) S (versionName head)
  cases hr : (servedSubmit i head D S).1 with
  | error e =>
    rw [hr] at hok
    cases hok
  | ok a =>
    rw [hr] at hran
    exact ⟨a, hran⟩

theorem served_atVersion (i : Uuid) {L : List (Text × Bytes)} (hL : ∀ q ∈ L, q.1.head? ≠ some 'v') :
    (sharedOf (servedFiles i (FMap.ofList L)) (versionName 1)).AtVersion 1 where
  head := rfl
  fresh n p _ := by
    cases hget : servedFiles i (FMap.ofList L) (.snapshot n p) with
    | none => exact hget
    | some c => exact absurd rfl (hL _ (FMap.get_ofList_mem hget))

end Merge
end Vai
