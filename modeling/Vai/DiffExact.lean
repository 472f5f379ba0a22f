import Vai.Conflicts
import Vai.Server
/-!
# DiffExact — the diff of a workspace and the tree it becomes

`compute_with_fs` walks the overlay and the deletion list one after the other and looks at neither while it walks the
other, nor at the contents.  `computeWithFs_exact_iff` says for which workspaces its entries are exactly the files that a
fast-forward changes: no overlay file is a copy of its base file or listed as deleted, and no file is listed twice.
-/
namespace Vai
namespace Diff

open Proc Merge

/-! ## A diff and two trees -/

/-- What has become of a file. -/
def changeOf : Option Bytes → Option Bytes → Option FileChangeType
  | none, none => none
  | none, some _ => some .added
  | some _, none => some .deleted
  | some b, some c => if b = c then none else some .modified

@[simp] theorem changeOf_self (o : Option Bytes) : changeOf o o = none := by
  cases o <;> simp [changeOf]

theorem changeOf_eq_none {o o' : Option Bytes} : changeOf o o' = none ↔ o = o' := by
  cases o <;> cases o' <;> simp [changeOf]

/-- The entries are the files in which two trees differ, once each, with what has become of them. -/
structure Exact (before after : Path → Option Bytes) (ds : List FileDiff) : Prop where
  once : (ds.map FileDiff.path).Nodup
  entries : ∀ p k, (∃ fd ∈ ds, fd.path = p ∧ fd.changeType = k) ↔ changeOf (before p) (after p) = some k

theorem Exact.nil_iff {before after : Path → Option Bytes} {ds : List FileDiff} (h : Exact before after ds) :
    ds = [] ↔ ∀ p, after p = before p := by
  constructor
  · rintro rfl p
    refine (changeOf_eq_none.1 ?_).symm
    cases hk : changeOf (before p) (after p) with
    | none => rfl
    | some k =>
      obtain ⟨fd, hfd, -⟩ := (h.entries p k).2 hk
      cases hfd
  · intro hsame
    refine List.eq_nil_iff_forall_not_mem.2 fun fd hfd => ?_
    have hk := (h.entries fd.path fd.changeType).1 ⟨fd, hfd, rfl, rfl⟩
    rw [hsame, changeOf_self] at hk
    cases hk

/-! ## The entries of a workspace -/

section

variable (V : Files) (D : List Path)

/-- The tree that `apply_overlay` leaves. -/
def overlaid (p : Path) : Option Bytes :=
  if p ∈ D then none else if (V (.overlay p)).isSome then V (.overlay p) else V (.base p)

/-- No overlay file is deleted or equal to its base file, and no file is deleted twice. -/
structure Clean : Prop where
  fresh : ∀ p c, V (.overlay p) = some c → p ∉ D ∧ V (.base p) ≠ some c
  once : ∀ p, (V (.base p)).isSome → D.count p ≤ 1

end

variable {env : Env} {V : Files} {l D : List Path} {p : Path}

/-- The entries at a path: one for the overlay file, one for the deletion. -/
theorem mem_fileDiffs (hl : Lists l (fun p => V (.overlay p))) (p : Path) (k : FileChangeType) :
    (∃ fd ∈ fileDiffs env V l D, fd.path = p ∧ fd.changeType = k) ↔
      ((V (.overlay p)).isSome ∧ k = if (V (.base p)).isSome then .modified else .added) ∨
      (p ∈ D ∧ (V (.base p)).isSome) ∧ k = .deleted := by
  unfold fileDiffs
  constructor
  · rintro ⟨fd, hfd, rfl, rfl⟩
    rcases List.mem_append.1 hfd with hfd | hfd
    · obtain ⟨q, hq, rfl⟩ := List.mem_map.1 hfd
      exact .inl ⟨(hl.2 q).1 hq, rfl⟩
    · obtain ⟨q, hq, rfl⟩ := List.mem_map.1 hfd
      exact .inr ⟨List.mem_filter.1 hq, rfl⟩
  · rintro (⟨hov, rfl⟩ | ⟨hdel, rfl⟩)
    · exact ⟨_, List.mem_append_left _ (List.mem_map_of_mem ((hl.2 p).2 hov)), rfl, rfl⟩
    · exact ⟨_, List.mem_append_right _ (List.mem_map_of_mem (List.mem_filter.2 hdel)), rfl, rfl⟩

theorem nodup_fileDiffs (hl : Lists l (fun p => V (.overlay p))) :
    ((fileDiffs env V l D).map FileDiff.path).Nodup ↔
      ∀ p, (V (.base p)).isSome → ((V (.overlay p)).isSome → p ∉ D) ∧ D.count p ≤ 1 := by
  have hcount : ∀ p, (V (.base p)).isSome → (D.filter fun p => (V (.base p)).isSome).count p = D.count p :=
    fun p hp => List.count_filter hp
  rw [map_path_fileDiffs, List.nodup_append]
  constructor
  · rintro ⟨-, hD, hdisj⟩ p hp
    refine ⟨fun hov hpD => ?_, ?_⟩
    · exact hdisj p ((hl.2 p).2 hov) p (List.mem_filter.2 ⟨hpD, hp⟩) rfl
    · rw [← hcount p hp]
      exact List.nodup_iff_count_le_one.1 hD p
  · intro h
    refine ⟨hl.1, List.nodup_iff_count_le_one.2 fun p => ?_, ?_⟩
    · by_cases hp : (V (.base p)).isSome
      · rw [hcount p hp]
        exact (h p hp).2
      · have hnot : p ∉ D.filter fun p => (V (.base p)).isSome := fun hm => hp (List.mem_filter.1 hm).2
        rw [List.count_eq_zero.2 hnot]
        exact Nat.zero_le 1
    · rintro p hp _ hpD rfl
      obtain ⟨hpD, hb⟩ := List.mem_filter.1 hpD
      exact (h p hb).1 ((hl.2 p).1 hp) hpD

/-- **The entries are exact** for the clean workspaces, and for no others. -/
theorem exact_fileDiffs_iff (hl : Lists l (fun p => V (.overlay p))) :
    Exact (fun p => V (.base p)) (overlaid V D) (fileDiffs env V l D) ↔ Clean V D := by
  constructor
  · intro h
    have hnodup := (nodup_fileDiffs hl).1 h.once
    refine ⟨fun p c hc => ?_, fun p hp => (hnodup p hp).2⟩
    have hov : (V (.overlay p)).isSome := by rw [hc]; rfl
    -- the overlay entry says that something is there afterwards, and something else than before
    have hk := (h.entries p _).1 ((mem_fileDiffs hl p _).2 (.inl ⟨hov, rfl⟩))
    have hD : p ∉ D := by
      intro hD
      cases hb : V (.base p) with
      | none => simp [overlaid, hD, hb, changeOf] at hk
      | some b => exact (hnodup p (by rw [hb]; rfl)).1 hov hD
    refine ⟨hD, fun hb => ?_⟩
    simp [overlaid, hD, hc, hb] at hk
  · intro h
    refine ⟨(nodup_fileDiffs hl).2 fun p hp => ⟨fun hov => ?_, h.once p hp⟩, fun p k => ?_⟩
    · obtain ⟨c, hc⟩ := Option.isSome_iff_exists.1 hov
      exact (h.fresh p c hc).1
    rw [mem_fileDiffs hl]
    cases hc : V (.overlay p) with
    | none =>
      by_cases hD : p ∈ D
      · cases hb : V (.base p) <;> simp [overlaid, hD, changeOf, eq_comm]
      · simp [overlaid, hD, hc]
    | some c =>
      obtain ⟨hD, hne⟩ := h.fresh p c hc
      cases hb : V (.base p) with
      | none => simp [overlaid, hD, hc, changeOf, eq_comm]
      | some b =>
        have hbc : b ≠ c := fun he => hne (by rw [hb, he])
        simp [overlaid, hD, hc, changeOf, hbc, eq_comm]

end Diff

namespace Merge

open Proc

variable {φ : Type} {env : Env} {fs : MergeFs φ} {U : Path → Prop} {rep : φ → Files → Prop} {may : Prop} {V : Files}
variable {D : List Path} {m : WorkspaceMeta} {w : World φ} {d : WorkspaceDiff} {s : φ}

/-! ## The refusal of an empty workspace -/

theorem plain_notEmpty : Plain (· ≠ .emptyWorkspace) := fun _ _ h => h

theorem recordEvents_fails {P : MergeError → Prop} (hP : Plain P) (env : Env) (d : WorkspaceDiff) :
    FailsOnly P (Diff.recordEvents env d : Proc (World φ) MergeError Unit) := by
  have hevents : ∀ ks : List EventKind, FailsOnly P (ks.forM (Diff.appendEvent env) : Proc (World φ) MergeError PUnit) :=
    fun ks => failsOnly_forM (fun k => (onVai_fails hP fun _ => rfl).bind fun _ => failsOnly_pure _ _) ks
  unfold Diff.recordEvents
  refine FailsOnly.bind ?_ fun m => ?_
  · refine FailsOnly.bind (failsOnly_onVai (hP.io _) fun v e v' he => ?_) fun id =>
      failsOnly_onVai (hP.io _) fun v e v' he => ?_
    · unfold VaiDir.readActive at he
      split at he <;> cases he
      exact hP _ (by simp [NoConflicts]) (by simp)
    · unfold VaiDir.getWorkspace at he
      split at he <;> cases he
      exact hP _ (by simp [NoConflicts]) (by simp)
  · split
    · exact failsOnly_pure _ _
    · refine FailsOnly.bind (onVai_fails hP fun _ => rfl) fun _ => ?_
      refine FailsOnly.bind (hevents _) fun _ => FailsOnly.bind (hevents _) fun _ => ?_
      refine failsOnly_onVai (hP.io _) fun v e v' he => ?_
      unfold VaiDir.updateMeta at he
      split at he <;> cases he
      exact hP.io _

theorem ends_of_fails {α : Type} {P : MergeError → Prop} {p : Proc (World φ) MergeError α} {Q : α → World φ → Prop}
    {E : MergeError → World φ → Prop} (hP : FailsOnly P p) (h : Ends p w Q E) : Ends p w Q (fun e _ => P e) :=
  ends_iff.2 ⟨fun _ _ hr => h.ok hr, fun e w' hr => hP w e w' hr⟩

/-- A submit on an unmoved HEAD answers that there is nothing to submit exactly when the diff it computes is empty. -/
theorem submitWithFs_empty_iff (ha : w.vai.IsActive m) (hhead : w.vai.head = m.baseVersion)
    (hdiff : Diff.computeWithFs env fs m.id m.baseVersion D w.fs = (.ok d, s)) :
    (submitWithFs env fs m D w).1 = .error .emptyWorkspace ↔ d.isEmpty = true := by
  have hends : Ends (submitWithFs env fs m D) w (fun _ _ => ¬ d.isEmpty = true)
      (fun e _ => e = .emptyWorkspace ↔ d.isEmpty = true) := by
    have hrun : onFs (Diff.computeWithFs env fs m.id m.baseVersion D) w = (.ok d, { w with fs := s }) := by
      unfold onFs
      rw [hdiff]
    unfold submitWithFs
    refine ends_bind_of_ok hrun ?_
    split
    · rename_i he
      exact ends_fail (by simp [he])
    rename_i he
    have hne : ∀ (e : MergeError) (_ : World φ), e ≠ .emptyWorkspace → (e = .emptyWorkspace ↔ d.isEmpty = true) :=
      fun e _ h => ⟨fun h' => absurd h' h, fun h' => absurd h' he⟩
    have hvai : ∀ {α : Type} {p : Proc VaiDir MergeError α}, (∀ v, (p v).1.isOk) →
        FailsOnly (· ≠ .emptyWorkspace) (onVai env p : Proc (World φ) MergeError α) := onVai_fails plain_notEmpty
    refine Ends.bind (ends_of_fails (recordEvents_fails plain_notEmpty env d) (Diff.recordEvents_spec d ha)) hne
      fun _ w₁ ⟨_, hv₁⟩ => ?_
    refine Ends.bind (ends_of_fails (hvai fun _ => rfl) (ends_onVai_of_ok rfl)) hne fun _ w₂ ⟨_, _, hv₂⟩ => ?_
    refine Ends.bind (ends_of_fails (hvai fun _ => rfl) (ends_onVai_of_ok rfl)) hne fun _ w₃ ⟨_, _, hv₃⟩ => ?_
    refine Ends.bind (ends_of_fails (hvai fun _ => rfl) (ends_onVai_of_ok rfl)) hne fun head w₄ ⟨_, hh, _⟩ => ?_
    have hunmoved : head = m.baseVersion := by
      rw [hh, hv₃, hv₂, hv₁, ← hhead]
      exact Diff.recorded_head d m w.vai
    rw [if_pos hunmoved]
    refine ends_iff.2 ⟨fun _ _ _ => he, fun e w' hr => hne e w' ?_⟩
    exact fastForwardMerge_fails plain_notEmpty env fs m d D _ e w' hr
  unfold Ends at hends
  rcases hr : submitWithFs env fs m D w with ⟨e | r, w'⟩ <;> rw [hr] at hends
  · simpa using hends
  · simpa using hends

theorem exact_computed_iff (C : fs.ContractOn U rep may) (h : rep s V) (hu : V.Within D U) {s' : φ} {i : Uuid} {b : Text}
    (hdiff : Diff.computeWithFs env fs i b D s = (.ok d, s')) :
    Diff.Exact (fun p => V (.base p)) (Diff.overlaid V D) d.fileDiffs ↔ Diff.Clean V D := by
  obtain ⟨-, -, -, -, l, hl, hd⟩ := (Diff.computeWithFs_spec C h i b hu).ok hdiff
  rw [hd]
  exact Diff.exact_fileDiffs_iff hl

/-- A server with the file `a`, which workspace 7 has as `c`. -/
def serverOver (c : Bytes) : World S3 := S3.serverStart 1 [(S3.baseFile, [1]), (S3.overlayFile, c)]

/-- The files of the workspace. -/
def filesOver (c : Bytes) : Files := S3.filesOf S3.serverConfig (serverOver c).fs.store

/-- The diff of the workspace. -/
def diffOver (c : Bytes) : Except MergeError WorkspaceDiff × S3 :=
  Diff.computeWithFs Env.plain (s3MergeFs noFaults S3.serverConfig) 7 (versionName 1) [] (serverOver c).fs

theorem clean_filesOver {c : Bytes} (h : c ≠ [1]) : Diff.Clean (filesOver c) [] := by
  refine ⟨fun p c' hc => ⟨by simp, fun hb => h ?_⟩, fun p _ => by simp⟩
  have hc := FMap.get_ofList_mem hc
  have hb := FMap.get_ofList_mem hb
  simp only [List.mem_cons, Prod.mk.injEq, List.not_mem_nil, or_false] at hc hb
  rcases hc with ⟨hc, -⟩ | ⟨-, hc⟩
  · cases hc
  · rcases hb with ⟨-, hb⟩ | ⟨hb, -⟩
    · rw [← hc, hb]
    · cases hb

end Merge
end Vai
