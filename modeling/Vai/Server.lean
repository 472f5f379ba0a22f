import Vai.SubmitSpec
import Vai.S3Contract
/-!
# Server — a submit on the server

The submit handler of `server/workspace.rs` in S3 mode: a temporary `.vai/` that knows HEAD and the workspace, the
merge engine over `S3MergeFs`, and a flush once the engine has returned `Ok`.

`S3MergeFs` turns a failed listing into an empty one, and `flush` ignores failed deletions.  As long as no failure hides
a stored file in one of these two ways, a submit that succeeds has stored what it would have stored without any failure
(`s3Submit_faults`); a listing that hides a snapshot makes the merge overwrite HEAD.
-/
namespace Vai

open Proc

/-- `setup_tmpdir_for_s3_submit`: a stub record of HEAD is the only version. -/
def setupTmpdirForS3Submit (wsMeta : WorkspaceMeta) (currentHead : Text) : VaiDir where
  head := currentHead
  versions := FMap.ofList [(currentHead, ⟨currentHead, none, "placeholder".toList, "server".toList, none⟩)]
  workspaces := FMap.ofList [(wsMeta.id, wsMeta)]
  active := some wsMeta.id
  deleted := ∅
  log := []
  conflicts := ∅
  graph := ∅

theorem tmpdir_active (m : WorkspaceMeta) (head : Text) : (setupTmpdirForS3Submit m head).IsActive m :=
  ⟨rfl, (FMap.get_insert _ _ _ _).trans (if_pos rfl)⟩

namespace S3

open Merge

/-- The engine over `S3MergeFs`, then the flush. -/
def s3Submit (env : Env) (fails : Faults) (cfg : S3Config) (wsMeta : WorkspaceMeta) (deletedPaths : List Path) :
    Proc (World S3) MergeError SubmitResult := do
  let r ← submitWithFs env (s3MergeFs fails cfg) wsMeta deletedPaths
  onFs (io (flush env fails))
  pure r

variable {env : Env} {fails : Faults} {cfg : S3Config} {S : FMap Text Bytes} {m : WorkspaceMeta} {D : List Path}
variable {w : World S3}

/-- No failure hides a stored file: a listing fails only on a directory with nothing in it, a deletion only on a path
that is not there. -/
structure Harmless (fails : Faults) (S : FMap Text Bytes) : Prop where
  lists : ListsFaithfully fails S
  deletes : ∀ i path, fails i (.delete path) = true → S.get path = none

theorem harmless_noFaults (S : FMap Text Bytes) : Harmless noFaults S where
  lists _ _ h := by cases h
  deletes _ _ h := by cases h

/-- A submit on the server stores the merged tree, or is refused and stores nothing, or something has failed: a call on
the store, or the temporary directory. -/
theorem s3Submit_ends (hh : Harmless fails S) (hw : w.fs = new S) (ha : w.vai.IsActive m)
    (D : List Path) : Ends (s3Submit env fails cfg m D) w
      (fun r w' => Accepted env m (filesOf cfg S) D w.vai ∧ Flushed cfg S ((filesOf cfg S).submitted (w.vai.maxVersion + 1) D
        (tree env m (filesOf cfg S) D w.vai)) w'.fs.store ∧
        ∃ w₁, Merged env m (filesOf cfg S) D w.vai (Rep cfg S) r w₁)
      (fun e w' => (AnyFault fails ∨ env.Faulty) ∨
        Rep cfg S w'.fs (filesOf cfg S) ∧ Refused env m (filesOf cfg S) D w.vai e) := by
  unfold s3Submit
  have hrep : Rep cfg S w.fs (filesOf cfg S) := by rw [hw]; exact rep_new cfg S
  have C : (s3MergeFs fails cfg).Contract (Rep cfg S) (AnyFault fails ∨ env.Faulty) :=
    (s3MergeFs_contract hh.lists).mono .inl
  refine Ends.bind (submitWithFs_spec C .inr hrep ha D) (fun _ _ h => h) ?_
  rintro r w₁ ⟨hacc, hmerged, -⟩
  refine Ends.bind (ends_onFs (ends_io (E := fun _ _ => AnyFault fails) (flush_rep hmerged.files hh.deletes)))
    (fun _ _ h => .inl (.inl h.2)) fun _ w₂ ⟨_, hfl⟩ => ?_
  exact ends_pure ⟨hacc, hfl, w₁, hmerged⟩

/-- **What a submit on the server does**: it stores the merged tree, or is refused and stores nothing, or a call on the
store has failed. -/
theorem s3Submit_spec (hm : ¬ env.Faulty) (hh : Harmless fails S) (hw : w.fs = new S) (ha : w.vai.IsActive m)
    (D : List Path) : Ends (s3Submit env fails cfg m D) w
      (fun r w' => Accepted env m (filesOf cfg S) D w.vai ∧ Flushed cfg S ((filesOf cfg S).submitted (w.vai.maxVersion + 1) D
        (tree env m (filesOf cfg S) D w.vai)) w'.fs.store ∧
        ∃ w₁, Merged env m (filesOf cfg S) D w.vai (Rep cfg S) r w₁)
      (fun e w' => AnyFault fails ∨ Rep cfg S w'.fs (filesOf cfg S) ∧ Refused env m (filesOf cfg S) D w.vai e) :=
  (s3Submit_ends hh hw ha D).mono (fun _ _ h => h) (fun _ _ h => h.imp_left (Or.resolve_right · hm))

/-- **A failure of the store is never mistaken for absence** where it hides no stored file: a submit and flush that
succeed leave the store exactly as they would have without any failure. -/
theorem s3Submit_faults (hm : ¬ env.Faulty) (hh : Harmless fails S) (hw : w.fs = new S) (ha : w.vai.IsActive m)
    {r : SubmitResult} {w' : World S3} (h : s3Submit env fails cfg m D w = (.ok r, w')) :
    ∃ r₀ w₀, s3Submit env noFaults cfg m D w = (.ok r₀, w₀) ∧ ∀ path, w'.fs.store.get path = w₀.fs.store.get path := by
  obtain ⟨hacc, hfl, -⟩ := (s3Submit_spec hm hh hw ha D).ok h
  have hspec : Ends (s3Submit env noFaults cfg m D) w _ _ := s3Submit_spec hm (harmless_noFaults S) hw ha D
  obtain ⟨r₀, w₀, hrun, -, hfl₀, -⟩ := hspec.exists_ok fun e w' he => by
    rcases he with hf | ⟨-, href⟩
    · exact not_anyFault_noFaults hf
    · exact href.notAccepted hacc
  exact ⟨r₀, w₀, hrun, fun path => hfl.unique hfl₀ path⟩

/-- The temporary directory of workspace 7, from `v1`, beside the store `S`. -/
def serverStart (head : Nat) (S : List (Text × Bytes)) : World S3 where
  fs := new (FMap.ofList S)
  vai := setupTmpdirForS3Submit (.fresh 7 1) (versionName head)
  ops := 0

def baseFile : Text := "current/a".toList
def overlayFile : Text := "workspaces/7/a".toList
def snapshotFile : Text := "versions/v2/snapshot/a".toList
def absentFile : Text := "current/z".toList

/-- The file `a` is rewritten, and the deletion of a file that is not there fails. -/
theorem s3Submit_faults_absent_file : ∃ r w' r₀ w₀,
    s3Submit Env.plain (fun _ op => op = .delete absentFile) serverConfig (.fresh 7 1) [['z']]
      (serverStart 1 [(baseFile, [2]), (overlayFile, [3])]) = (.ok r, w') ∧
    s3Submit Env.plain noFaults serverConfig (.fresh 7 1) [['z']]
      (serverStart 1 [(baseFile, [2]), (overlayFile, [3])]) = (.ok r₀, w₀) ∧
    ∀ path, w'.fs.store.get path = w₀.fs.store.get path := by
  have hok : (s3Submit Env.plain (fun _ op => op = .delete absentFile) serverConfig (.fresh 7 1) [['z']]
    (serverStart 1 [(baseFile, [2]), (overlayFile, [3])])).1.isOk := by decide +kernel
  rcases hr : s3Submit Env.plain (fun _ op => op = .delete absentFile) serverConfig (.fresh 7 1) [['z']]
    (serverStart 1 [(baseFile, [2]), (overlayFile, [3])]) with ⟨e | r, w'⟩
  · rw [hr] at hok; cases hok
  have habs : (FMap.ofList [(baseFile, [2]), (overlayFile, [3])] : FMap Text Bytes).get absentFile = none := by decide +kernel
  have hh : Harmless (fun _ op => op = .delete absentFile) (FMap.ofList [(baseFile, [2]), (overlayFile, [3])]) := by
    refine ⟨fun i pre h => ?_, fun i path h => ?_⟩
    · exact absurd (of_decide_eq_true h) (by simp)
    · have hp : path = absentFile := by simpa using of_decide_eq_true h
      rw [hp, habs]
  have hm : ¬ Env.plain.Faulty := fun ⟨i, hi⟩ => by cases hi
  obtain ⟨r₀, w₀, hrun, hstore⟩ := s3Submit_faults hm hh rfl (tmpdir_active (.fresh 7 1) (versionName 1)) hr
  exact ⟨r, w', r₀, w₀, rfl, hrun, hstore⟩

/-- HEAD and the workspace have rewritten the same file, which is a conflict; with the snapshot of `v2` hidden by a failed
listing the submit succeeds and overwrites what HEAD has. -/
theorem failed_listing_overwrites_head :
    let w := serverStart 2 [(baseFile, [2]), (overlayFile, [3]), (snapshotFile, [1])]
    let hidden := s3Submit Env.plain (fun _ op => op = .list (serverConfig.rootPrefix (.snapshot (versionName 2))))
      serverConfig (.fresh 7 1) [] w
    let clear := s3Submit Env.plain noFaults serverConfig (.fresh 7 1) [] w
    hidden.1.isOk = true ∧ hidden.2.fs.store.get baseFile = some [3] ∧
      clear.1.isOk = false ∧ clear.2.fs.store.get baseFile = some [2] := by
  decide +kernel

/-- A deletion that fails in the flush is not reported, and the file stays. -/
example :
    let w := serverStart 1 [(baseFile, [2])]
    let silent := s3Submit Env.plain (fun _ op => op = .delete baseFile) serverConfig (.fresh 7 1) [['a']] w
    let clear := s3Submit Env.plain noFaults serverConfig (.fresh 7 1) [['a']] w
    silent.1.isOk = true ∧ silent.2.fs.store.get baseFile = some [2] ∧
      clear.1.isOk = true ∧ clear.2.fs.store.get baseFile = none := by
  decide +kernel

end S3
end Vai
