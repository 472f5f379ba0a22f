import Vai.Data
/-!
# Hunks — the textual level of the merge

`split_lines`, `lcs_indices`, `compute_hunks`, `hunks_overlap` and `apply_two_hunk_sets` of `merge/mod.rs`.  The
dynamic-programming table of `lcs_indices` is built row by row from the last one, as the source fills it.

`apply_two_hunk_sets` indexes `base[pos..hunk.base_start]`, which panics when the range is not inside the list; the
model answers `none` there.
-/
namespace Vai
namespace Merge

/-- A contiguous range of base lines replaced by `newLines`. -/
structure Hunk where
  baseStart : Nat
  baseEnd : Nat
  newLines : List Text
  deriving DecidableEq, Repr

def splitLines (content : Bytes) : List Text :=
  let s := Text.fromUtf8Lossy content
  if s = [] then [] else Text.lines s

/-- Row `i` of the table, from the line `x = a[i]`, the lines `b` and row `i + 1`. -/
def lcsRow (x : Text) : List Text → List Nat → List Nat
  | [], _ => [0]
  | y :: b, next =>
    let row := lcsRow x b next.tail
    (if x = y then 1 + next.tail.headD 0 else max (next.headD 0) (row.headD 0)) :: row

/-- `dp[i][j]`, the length of the longest common subsequence of `a[i..]` and `b[j..]`, as the list of its rows. -/
def lcsTable : List Text → List Text → List (List Nat)
  | [], b => [List.replicate (b.length + 1) 0]
  | x :: a, b =>
    let rows := lcsTable a b
    lcsRow x b (rows.headD []) :: rows

/-- The walk through the table, from `(i, j)` on: the lines left on both sides and the rows from `i` on, each from
column `j` on. -/
def lcsWalk : Nat → Nat → Nat → List Text → List Text → List (List Nat) → List (Nat × Nat)
  | 0, _, _, _, _, _ => []
  | fuel + 1, i, j, x :: a, y :: b, rows =>
    if x = y then (i, j) :: lcsWalk fuel (i + 1) (j + 1) a b (rows.tail.map List.tail)
    else if (rows.tail.headD []).headD 0 ≥ (rows.headD []).tail.headD 0 then
      lcsWalk fuel (i + 1) j a (y :: b) rows.tail
    else lcsWalk fuel i (j + 1) (x :: a) b (rows.map List.tail)
  | _ + 1, _, _, _, _, _ => []

def lcsIndices (a b : List Text) : List (Nat × Nat) := lcsWalk (a.length + b.length) 0 0 a b (lcsTable a b)

/-- The loop of `compute_hunks` over the common lines, and the trailing change after the last of them. -/
def hunksFrom (base modified : List Text) (basePos modPos : Nat) : List (Nat × Nat) → List Hunk
  | [] =>
    if basePos < base.length ∨ modPos < modified.length then
      [⟨basePos, base.length, modified.drop modPos⟩]
    else []
  | (bi, mi) :: pairs =>
    let rest := hunksFrom base modified (bi + 1) (mi + 1) pairs
    if bi > basePos ∨ mi > modPos then ⟨basePos, bi, (modified.take mi).drop modPos⟩ :: rest else rest

def computeHunks (base modified : List Text) : List Hunk :=
  (hunksFrom base modified 0 0 (lcsIndices base modified)).filter
    (fun h => h.baseStart < h.baseEnd || !h.newLines.isEmpty)

/-- Two ranges overlap when they share a base line; two insertions, when they are at the same place. -/
def hunkOverlaps (a b : Hunk) : Bool :=
  if a.baseStart < a.baseEnd ∧ b.baseStart < b.baseEnd then
    a.baseStart < b.baseEnd && b.baseStart < a.baseEnd
  else if a.baseStart = a.baseEnd ∧ b.baseStart = b.baseEnd ∧ a.baseStart = b.baseStart then
    !a.newLines.isEmpty && !b.newLines.isEmpty
  else false

def hunksOverlap (a b : List Hunk) : Bool := a.any (fun ha => b.any (hunkOverlaps ha))

/-- The loop of `apply_two_hunk_sets` over the sorted hunks, from base line `pos` on. -/
def spliceHunks (base : List Text) : Nat → List Hunk → Option (List Text)
  | pos, [] => slice base pos base.length
  | pos, h :: l => do
    let kept ← slice base pos h.baseStart
    let rest ← spliceHunks base (if h.baseEnd > pos then h.baseEnd else pos) l
    return kept ++ h.newLines ++ rest

def endsWithNewline (b : Bytes) : Bool := b.getLast? == some 10

def applyTwoHunkSets (base : List Text) (headRaw wsRaw : Bytes) (headHunks wsHunks : List Hunk) : Option Bytes :=
  if headHunks.isEmpty then some wsRaw
  else if wsHunks.isEmpty then some headRaw
  else do
    let all := (headHunks ++ wsHunks).insertionSort (fun a b => a.baseStart ≤ b.baseStart)
    let resultLines ← spliceHunks base 0 all
    let out := Text.intoBytes (['\n'].intercalate resultLines)
    let hadNewline := endsWithNewline headRaw || endsWithNewline wsRaw
    return if hadNewline && !endsWithNewline out then out ++ [10] else out

end Merge
end Vai
