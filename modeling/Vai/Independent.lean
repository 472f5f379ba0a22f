import Vai.Verdict
/-!
# Independent — a workspace whose files nobody else has touched

While a workspace waits, other workspaces are submitted, none of them touching a file that it changes or deletes
(`Advance`).  Its own submit then goes through `semantic_merge`, and one would expect the tree of a fast-forward from
HEAD (`overlaid`).  The snapshots of all versions in between say nothing about its files, so each overlay file is taken
as it is; but the loop also reads the overlay of every *deleted* file, where there is usually none, and fails.
-/
namespace Vai
namespace Merge

/-- A repository has come from one state to another by submits that go through and touch no path of `P`.  What else
happens in it, the workspaces being edited, created and switched, is not seen in the states. -/
inductive Advance (P : Path → Prop) (s : Shared) : Shared → Prop where
  | here : Advance P s s
  | submit {env : Env} {m : WorkspaceMeta} {D : List Path} {V V' : Files} {v : VaiDir} {a : SubmitResult}
      (h : Advance P s (sharedOf V v.head)) (hrun : Ran env m D V v (.ok a) V') (hd : ∀ p, Changed V D p → ¬ P p) :
      Advance P s (sharedOf V' a.version.versionId)

/-- The files a workspace changes or deletes. -/
def Touches (V : Files) (D : List Path) (p : Path) : Prop := p ∈ D ∨ (V (.overlay p)).isSome

/-- The tree of HEAD, overwritten by the overlay, minus the deletions: what a fast-forward makes of it. -/
def overlaid (V : Files) (D : List Path) (p : Path) : Option Bytes :=
  if p ∈ D then none else if (V (.overlay p)).isSome then V (.overlay p) else V (.base p)

variable {env : Env} {P : Path → Prop} {K : Nat} {W : WorkspaceMeta} {D : List Path} {V V' : Files} {v : VaiDir}
variable {s s₀ : Shared} {r : Except MergeError SubmitResult}

/-- No snapshot after version `vK` holds a file of `P`. -/
theorem Advance.inv (h : Advance P s₀ s) (h0 : s₀.AtVersion K) :
    ∃ n, s.AtVersion (K + n) ∧ ∀ k p, K < k → P p → s.snapshot k p = none := by
  induction h with
  | here => exact ⟨0, h0, fun k p hk _ => h0.fresh k p hk⟩
  | @submit env m D V V' v a _ hrun hd ih =>
    obtain ⟨n, hn, hP⟩ := ih
    refine ⟨n + 1, hrun.atVersion hn, fun k p hk hp => ?_⟩
    show V' (.snapshot k p) = none
    rw [hrun.snapshot hn, if_neg]
    · exact hP k p hk hp
    · rintro ⟨-, hch, hb⟩
      exact hd p (hch.elim (fun hD => .inr ⟨hD, hb⟩) (fun ho => .inl ho)) hp

/-- What nobody has touched is not taken for changed by HEAD. -/
theorem Advance.mergeBase_none (h : Advance P s₀ (sharedOf V v.head)) (h0 : s₀.AtVersion K)
    (hbase : W.baseVersion = versionName K) {p : Path} (hp : P p) : mergeBase W V v p = none := by
  obtain ⟨n, hn, hP⟩ := h.inv h0
  unfold mergeBase
  split
  · rfl
  · rw [headChanged, hbase, parseVersionNum_versionName, List.findSome?_eq_none_iff]
    intro k hk
    exact hP k p (by rw [List.mem_range'_1] at hk; omega) hp

theorem Advance.tree_eq (h : Advance (Touches V D) s₀ (sharedOf V v.head)) (h0 : s₀.AtVersion K)
    (hbase : W.baseVersion = versionName K) (p : Path) : tree env W V D v p = overlaid V D p := by
  unfold tree overlaid
  split
  · rfl
  · split
    · rename_i hov
      rw [fate_of_none (h.mergeBase_none h0 hbase (.inr hov))]
      rfl
    · rfl

/-- A server with the file `b` in workspace 1, and another file. -/
def besideB (key : Text) (c : Bytes) : List (Text × Bytes) := [("workspaces/1/b".toList, [1]), (key, c)]

/-- The files of workspace 2 once workspace 1 has been submitted. -/
def waiting (L : List (Text × Bytes)) : Files := servedFiles 2 (servedSubmit 1 1 [] (FMap.ofList L)).2.fs.store

/-- And the metadata of its own submit. -/
def waitingVai : VaiDir := setupTmpdirForS3Submit (.fresh 2 1) (versionName 2)

/-- Workspace 1 creates the file `b` and is submitted while workspace 2 waits. -/
theorem exists_advance {key : Text} {c : Bytes} {D : List Path}
    (hok : (servedSubmit 1 1 [] (FMap.ofList (besideB key c))).1.isOk) (hv : key.head? ≠ some 'v')
    (hkey : ∀ p, (Handlers.configOf 1).path (.overlay p) ≠ key) (hD : ¬ Touches (waiting (besideB key c)) D ['b']) :
    Advance (Touches (waiting (besideB key c)) D) (sharedOf (servedFiles 1 (FMap.ofList (besideB key c))) (versionName 1))
      (sharedOf (waiting (besideB key c)) (versionName 2)) := by
  have hL : ∀ q ∈ besideB key c, q.1.head? ≠ some 'v' := by
    intro q hq
    rcases List.mem_pair.1 hq with rfl | rfl
    · decide
    · exact hv
  obtain ⟨a, ha⟩ := servedSubmit_ran hok
  have hver : a.version.versionId = versionName 2 := (ha.atVersion (served_atVersion 1 hL)).head
  have hadv := Advance.submit (P := Touches (waiting (besideB key c)) D) Advance.here ha fun p hp => ?_
  · rw [hver] at hadv
    exact hadv
  · obtain ⟨c', hc⟩ := Option.isSome_iff_exists.1 (hp.resolve_right fun h => by cases h.1)
    rcases List.mem_pair.1 (FMap.get_ofList_mem hc) with h | h
    · cases h
      exact hD
    · exact absurd (congrArg Prod.fst h) (hkey p)

end Merge
end Vai
