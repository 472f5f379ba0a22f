import Vai.Landed
import Vai.Rollback
/-!
# Session — a workspace before its submit

Between its creation and its submit a workspace is edited, its deletions are listed, and `FileWorkspace::plan` is called
any number of times.  A plan computes the diff and has it recorded, which happens once: the events of the first plan stay
the only ones, whatever is edited later (`Session.plan_dir`).  An event says `FileAdded` exactly where the tree that the
diff was computed over has no file (`agrees_events`).
-/
namespace Vai

open Proc

/-! ## Plan -/

namespace FileWorkspace

inductive Surprise where
  | baseDrifted (expected actual : Text)
  | serverHasFileLocalDoesNot (path : Path)
  deriving DecidableEq, Repr

structure Plan where
  adds : List Path
  mods : List Path
  dels : List Path
  fileDiffs : List FileDiff
  entityChanges : List EntityChange
  surprises : List Surprise
  baseVersion : Text
  headVersion : Text
  deriving DecidableEq, Repr

/-- `FileWorkspace::plan` with the local backend, for the fields `ws_meta` and `deleted_paths` of the workspace. -/
def plan (env : Env) (wsMeta : WorkspaceMeta) (deletedPaths : List Path) : Proc (World Disk) MergeError Plan := do
  let d ← onFs (Diff.computeWithFs env (diskMergeFs env wsMeta.id) wsMeta.id wsMeta.baseVersion deletedPaths)
  let headVersion ← onVai env VaiDir.readHead
  let surprises := if headVersion ≠ wsMeta.baseVersion then [.baseDrifted wsMeta.baseVersion headVersion] else []
  Diff.recordEvents env d
  pure { adds := (d.fileDiffs.filter (fun fd => fd.changeType = .added)).map FileDiff.path
         mods := (d.fileDiffs.filter (fun fd => fd.changeType = .modified)).map FileDiff.path
         dels := deletedPaths, fileDiffs := d.fileDiffs, entityChanges := d.entityChanges, surprises
         baseVersion := wsMeta.baseVersion, headVersion }

end FileWorkspace

/-! ## What is recorded -/

/-- What the log says of a path agrees with the tree `T`: a file was added exactly where there was none. -/
def Agrees (T : Path → Option Bytes) (k : EventKind) : Prop :=
  ∀ c, Version.fileChange k = some c → (c.changeType = .added ↔ T c.path = none)

theorem VaiDir.map_kind_pushEvents : ∀ (ks : List EventKind) (log : List Event),
    (ks.foldl pushEvent log).map Event.kind = log.map Event.kind ++ ks
  | [], log => by simp
  | k :: ks, log => by
    rw [List.foldl_cons, map_kind_pushEvents ks]
    simp [pushEvent]

/-- The events of a diff agree with the tree it was computed over. -/
theorem agrees_events {env : Env} {V : Files} {l D : List Path} {d : WorkspaceDiff}
    (hd : d.fileDiffs = Diff.fileDiffs env V l D) {k : EventKind} (hk : k ∈ Diff.events d) :
    Agrees (fun p => V (.base p)) k := by
  intro c hc
  rcases List.mem_append.1 hk with hk | hk
  · obtain ⟨fd, hfd, rfl⟩ := List.mem_map.1 hk
    rw [hd, Diff.fileDiffs] at hfd
    rcases List.mem_append.1 hfd with hfd | hfd
    · obtain ⟨p, -, rfl⟩ := List.mem_map.1 hfd
      cases hb : V (.base p) with
      | none =>
        simp only [Diff.fileEvent, Diff.overlayDiff, Diff.overlayEntry, hb, Option.isSome_none, Bool.false_eq_true, if_false,
          Version.fileChange, Option.some.injEq] at hc
        subst hc
        simp [hb]
      | some b =>
        simp only [Diff.fileEvent, Diff.overlayDiff, Diff.overlayEntry, hb, Option.isSome_some, if_true,
          Version.fileChange, Option.some.injEq] at hc
        subst hc
        simp [hb]
    · obtain ⟨p, hp, rfl⟩ := List.mem_map.1 hfd
      obtain ⟨b, hb⟩ := Option.isSome_iff_exists.1 (List.mem_filter.1 hp).2
      simp only [Diff.fileEvent, Diff.deletedEntry, Version.fileChange, Option.some.injEq] at hc
      subst hc
      simp [hb]
  · obtain ⟨ec, -, rfl⟩ := List.mem_map.1 hk
    unfold Diff.entityEvent at hc
    split at hc <;> cases hc

namespace Session

variable {env : Env} {w : World Disk} {m : WorkspaceMeta}

theorem plan_dir (hq : env.Quiet) (ha : w.vai.IsActive m) (D : List Path) :
    (FileWorkspace.plan env m D w).2.fs.files m.id = w.fs.files m.id ∧
      ((FileWorkspace.plan env m D w).2.vai = w.vai ∨ ∃ l D' d, d.workspaceId = m.id ∧
        d.fileDiffs = Diff.fileDiffs env (w.fs.files m.id) l D' ∧
        (FileWorkspace.plan env m D w).2.vai = Diff.recorded d m w.vai) := by
  have hends : ∀ P : World Disk → Prop, (∀ w', w'.fs.files m.id = w.fs.files m.id ∧ (w'.vai = w.vai ∨ ∃ l D' d,
      d.workspaceId = m.id ∧ d.fileDiffs = Diff.fileDiffs env (w.fs.files m.id) l D' ∧ w'.vai = Diff.recorded d m w.vai) →
      P w') → Ends (FileWorkspace.plan env m D) w (fun _ w' => P w') (fun _ w' => P w') := by
    intro P hP
    unfold FileWorkspace.plan
    refine Ends.bind (ends_onFs (Diff.computeWithFs_spec (diskMergeFs_contract env m.id w.fs) (Disk.rep_self m.id w.fs)
      m.id m.baseVersion (Files.within_all _ D))) ?_ ?_
    · rintro e w₁ ⟨hv₁, hf | ⟨h₁, -⟩⟩
      · exact absurd hf hq.not_fsFaulty
      · exact hP _ ⟨h₁.files, .inl hv₁⟩
    rintro d w₁ ⟨hv₁, h₁, -, hid, -, l, -, hd⟩
    refine Ends.bind (ends_onVai_of_ok rfl) (fun _ _ h => absurd h hq.not_faulty) ?_
    rintro head w₂ ⟨hf₂, -, hv₂⟩
    refine Ends.bind (Diff.recordEvents_spec d (m := m) (by rw [hv₂, hv₁]; exact ha))
      (fun _ _ h => absurd h hq.not_faulty) fun _ w₃ ⟨hf₃, hv₃⟩ => ?_
    exact ends_pure (hP _ ⟨by rw [hf₃, hf₂, h₁.files], .inr ⟨l, D, d, hid, hd, by rw [hv₃, hv₂, hv₁]⟩⟩)
  have hdone := hends _ fun _ h => h
  unfold Ends at hdone
  rcases hr : FileWorkspace.plan env m D w with ⟨_ | _, _⟩ <;> rw [hr] at hdone <;> exact hdone

end Session

end Vai
