import Vai.Edits
import Vai.Sorting
import Vai.TryMerge
/-!
# HunkSpec — what the hunks of two sides are, and when the merge loop stays inside the base

The hunks of one side are edits that lie apart in the base and, applied alone, give that side back
(`splice_computeHunks`).  `hunks_overlap` compares replacements with replacements and insertions with insertions; an
insertion inside the other side's replaced range passes it, and then the loop of `apply_two_hunk_sets` slices backwards
(`level1_in_range_iff`).
-/
namespace Vai
namespace Merge

open Sorting (IsOrder isOrder_key isOrder_le)

/-! ## Common lines -/

/-- Pairs of places, both going up from `(i, j)` and below `(n, m)`. -/
def Matching (n m : Nat) : Nat → Nat → List (Nat × Nat) → Prop
  | i, j, [] => i ≤ n ∧ j ≤ m
  | i, j, (p, q) :: l => i ≤ p ∧ p < n ∧ j ≤ q ∧ q < m ∧ Matching n m (p + 1) (q + 1) l

theorem Matching.weaken {n m : Nat} : ∀ {l : List (Nat × Nat)} {i j i' j' : Nat}, Matching n m i' j' l → i ≤ i' →
    j ≤ j' → Matching n m i j l
  | [], _, _, _, _, h, hi, hj => ⟨le_trans hi h.1, le_trans hj h.2⟩
  | (_, _) :: _, _, _, _, _, h, hi, hj => ⟨le_trans hi h.1, h.2.1, le_trans hj h.2.2.1, h.2.2.2⟩

theorem Matching.ge {n m : Nat} : ∀ {l : List (Nat × Nat)} {i j : Nat}, Matching n m i j l → ∀ p ∈ l, i ≤ p.1 ∧ j ≤ p.2
  | [], _, _, _, _, hp => absurd hp List.not_mem_nil
  | (p, q) :: l, i, j, h, r, hr => by
    rcases List.mem_cons.1 hr with rfl | hr
    · exact ⟨h.1, h.2.2.1⟩
    · have := Matching.ge h.2.2.2.2 r hr
      have := h.1
      have := h.2.2.1
      omega

theorem Matching.lt {n m : Nat} : ∀ {l : List (Nat × Nat)} {i j : Nat}, Matching n m i j l → ∀ p ∈ l, p.1 < n ∧ p.2 < m
  | [], _, _, _, _, hp => absurd hp List.not_mem_nil
  | (p, q) :: l, i, j, h, r, hr => by
    rcases List.mem_cons.1 hr with rfl | hr
    · exact ⟨h.2.1, h.2.2.2.1⟩
    · exact Matching.lt h.2.2.2.2 r hr

/-- The walk goes up on both sides, whatever the table holds, and pairs equal lines. -/
theorem lcsWalk_matching : ∀ (fuel i j : Nat) (a b : List Text) (rows : List (List Nat)),
    Matching (i + a.length) (j + b.length) i j (lcsWalk fuel i j a b rows) ∧
      ∀ p ∈ lcsWalk fuel i j a b rows, a[p.1 - i]? = b[p.2 - j]?
  | 0, i, j, a, b, rows => ⟨⟨by omega, by omega⟩, by simp [lcsWalk]⟩
  | fuel + 1, i, j, [], b, rows => by unfold lcsWalk; exact ⟨⟨by simp, by omega⟩, by simp⟩
  | fuel + 1, i, j, x :: a, [], rows => by unfold lcsWalk; exact ⟨⟨by omega, by simp⟩, by simp⟩
  | fuel + 1, i, j, x :: a, y :: b, rows => by
    unfold lcsWalk
    by_cases hxy : x = y
    · rw [if_pos hxy]
      obtain ⟨hm, he⟩ := lcsWalk_matching fuel (i + 1) (j + 1) a b (rows.tail.map List.tail)
      rw [show i + 1 + a.length = i + (x :: a).length by rw [List.length_cons]; omega,
        show j + 1 + b.length = j + (y :: b).length by rw [List.length_cons]; omega] at hm
      refine ⟨⟨le_rfl, by simp, le_rfl, by simp, hm⟩, ?_⟩
      rintro ⟨p, q⟩ hpq
      rcases List.mem_cons.1 hpq with hpq | hpq
      · cases hpq
        simp [hxy]
      · have hge := hm.ge _ hpq
        have h := he _ hpq
        rw [show p - i = p - (i + 1) + 1 by have := hge.1; simp at this; omega,
          show q - j = q - (j + 1) + 1 by have := hge.2; simp at this; omega]
        simpa using h
    · rw [if_neg hxy]
      by_cases hdp : (rows.tail.headD []).headD 0 ≥ (rows.headD []).tail.headD 0
      · rw [if_pos hdp]
        obtain ⟨hm, he⟩ := lcsWalk_matching fuel (i + 1) j a (y :: b) rows.tail
        rw [show i + 1 + a.length = i + (x :: a).length by rw [List.length_cons]; omega] at hm
        refine ⟨hm.weaken (Nat.le_succ i) le_rfl, fun p hp => ?_⟩
        have hge := (hm.ge p hp).1
        rw [show p.1 - i = p.1 - (i + 1) + 1 by omega, List.getElem?_cons_succ]
        exact he p hp
      · rw [if_neg hdp]
        obtain ⟨hm, he⟩ := lcsWalk_matching fuel i (j + 1) (x :: a) b (rows.map List.tail)
        rw [show j + 1 + b.length = j + (y :: b).length by rw [List.length_cons]; omega] at hm
        refine ⟨hm.weaken le_rfl (Nat.le_succ j), fun p hp => ?_⟩
        have hge := (hm.ge p hp).2
        rw [show p.2 - j = p.2 - (j + 1) + 1 by omega, List.getElem?_cons_succ]
        exact he p hp

theorem lcsIndices_matching (a b : List Text) : Matching a.length b.length 0 0 (lcsIndices a b) := by
  unfold lcsIndices
  simpa using (lcsWalk_matching (a.length + b.length) 0 0 a b (lcsTable a b)).1

theorem lcsIndices_eq (a b : List Text) : ∀ p ∈ lcsIndices a b, a[p.1]? = b[p.2]? := by
  unfold lcsIndices
  simpa using (lcsWalk_matching (a.length + b.length) 0 0 a b (lcsTable a b)).2

/-! ## Hunks as edits -/

def Hunk.edit (h : Hunk) : Edit Text := ⟨h.baseStart, h.baseEnd, h.newLines⟩

theorem spliceHunks_eq (base : List Text) : ∀ (l : List Hunk) (pos : Nat),
    spliceHunks base pos l = Edit.splice base pos (l.map Hunk.edit)
  | [], _ => rfl
  | h :: l, pos => by
    rw [spliceHunks, List.map_cons, Edit.splice, spliceHunks_eq base l]
    rfl

/-- `compute_hunks` over any kind of line. -/
def editsFrom {β : Type} (baseLen : Nat) (modified : List β) (basePos modPos : Nat) : List (Nat × Nat) → List (Edit β)
  | [] =>
    if basePos < baseLen ∨ modPos < modified.length then [⟨basePos, baseLen, modified.drop modPos⟩] else []
  | (bi, mi) :: pairs =>
    let rest := editsFrom baseLen modified (bi + 1) (mi + 1) pairs
    if bi > basePos ∨ mi > modPos then ⟨basePos, bi, (modified.take mi).drop modPos⟩ :: rest else rest

section Edits

variable {β γ : Type}

theorem editsFrom_map (f : β → γ) (n : Nat) (modified : List β) : ∀ (pairs : List (Nat × Nat)) (i j : Nat),
    editsFrom n (modified.map f) i j pairs = (editsFrom n modified i j pairs).map (Edit.map f)
  | [], i, j => by
    unfold editsFrom
    rw [List.length_map]
    split <;> simp [Edit.map]
  | (p, q) :: pairs, i, j => by
    unfold editsFrom
    dsimp only
    rw [editsFrom_map f n modified pairs]
    split <;> simp [Edit.map, ← List.map_take]

/-- The edits lie apart in the base, each changes something, and none is before `i`. -/
theorem editsFrom_apart {n : Nat} {modified : List β} : ∀ {pairs : List (Nat × Nat)} {i j : Nat},
    Matching n modified.length i j pairs →
    (∀ e ∈ editsFrom n modified i j pairs, i ≤ e.start ∧ e.start ≤ e.stop ∧ e.stop ≤ n ∧
      (e.start < e.stop ∨ e.new ≠ [])) ∧
    (editsFrom n modified i j pairs).Pairwise (fun a b => a.stop < b.start)
  | [], i, j, h => by
    unfold editsFrom
    split
    · rename_i hc
      refine ⟨fun e he => ?_, by simp⟩
      rw [List.mem_singleton] at he
      subst he
      refine ⟨le_rfl, h.1, le_rfl, hc.imp id fun hj hn => ?_⟩
      exact absurd (List.drop_eq_nil_iff.1 hn) (by omega)
    · simp
  | (p, q) :: pairs, i, j, h => by
    obtain ⟨hip, hpn, hjq, hqm, hrest⟩ := h
    obtain ⟨hall, hpw⟩ := editsFrom_apart hrest
    have hlate : ∀ e ∈ editsFrom n modified (p + 1) (q + 1) pairs, p < e.start := fun e he => (hall e he).1
    unfold editsFrom
    dsimp only
    split
    · rename_i hc
      refine ⟨fun e he => ?_, List.pairwise_cons.2 ⟨hlate, hpw⟩⟩
      rcases List.mem_cons.1 he with rfl | he
      · refine ⟨le_rfl, hip, le_of_lt hpn, hc.imp id fun hj hn => ?_⟩
        have := List.drop_eq_nil_iff.1 hn
        rw [List.length_take] at this
        omega
      · exact ⟨by have := hlate e he; omega, (hall e he).2⟩
    · exact ⟨fun e he => ⟨by have := hlate e he; omega, (hall e he).2⟩, hpw⟩

/-- Applied alone, the edits of a matching of equal lines give the other list. -/
theorem splice_editsFrom {base modified : List β} : ∀ {pairs : List (Nat × Nat)} {i j : Nat},
    Matching base.length modified.length i j pairs → (∀ p ∈ pairs, base[p.1]? = modified[p.2]?) → ∀ pos, pos ≤ i →
    Edit.splice base pos (editsFrom base.length modified i j pairs) =
      some ((base.take i).drop pos ++ modified.drop j)
  | [], i, j, h, _, pos, hpos => by
    unfold editsFrom
    split
    · rename_i hc
      have hs : (slice base pos i) = some ((base.take i).drop pos) := Edit.slice_eq_some.2 ⟨hpos, h.1, rfl⟩
      have he : slice base base.length base.length = some [] := Edit.slice_eq_some.2 ⟨le_rfl, le_rfl, by simp⟩
      have hnext : (if base.length > pos then base.length else pos) = base.length := by
        have := h.1
        split <;> omega
      rw [Edit.splice, hs]
      dsimp only
      rw [hnext, Edit.splice, he]
      simp
    · rename_i hc
      have hi : i = base.length := by have := h.1; omega
      rw [Edit.splice, Edit.slice_eq_some.2 ⟨by omega, le_rfl, rfl⟩, hi,
        show modified.drop j = [] from List.drop_eq_nil_of_le (by omega), List.append_nil]
  | (p, q) :: pairs, i, j, h, heq, pos, hpos => by
    obtain ⟨hip, hpn, hjq, hqm, hrest⟩ := h
    have ih := splice_editsFrom hrest fun x hx => heq x (List.mem_cons_of_mem _ hx)
    have hline : base[p]? = modified[q]? := heq (p, q) List.mem_cons_self
    rw [List.getElem?_eq_getElem hpn, List.getElem?_eq_getElem hqm, Option.some.injEq] at hline
    -- the paired line ends what is kept of the base and begins what is left of the other list
    have hkeep : ∀ k, k ≤ p → (base.take (p + 1)).drop k = (base.take p).drop k ++ [base[p]] := fun k hk => by
      rw [List.take_add_one, List.getElem?_eq_getElem hpn, Option.toList_some, List.drop_append_of_le_length]
      rw [List.length_take]
      omega
    have hleft : modified.drop q = modified[q] :: modified.drop (q + 1) := List.drop_eq_getElem_cons hqm
    unfold editsFrom
    dsimp only
    split
    · have hs : slice base pos i = some ((base.take i).drop pos) := Edit.slice_eq_some.2 ⟨hpos, by omega, rfl⟩
      have hnext : (if p > pos then p else pos) = p := by split <;> omega
      have hmid : modified.drop j = (modified.take q).drop j ++ modified.drop q := by
        rw [← List.drop_append_of_le_length (by rw [List.length_take]; omega), List.take_append_drop]
      rw [Edit.splice, hs]
      dsimp only
      rw [hnext, ih p (by omega), hkeep p le_rfl, hmid, hleft, hline]
      simp
    · rename_i hc
      have hpi : p = i := by omega
      have hqj : q = j := by omega
      subst hpi hqj
      rw [ih pos (by omega), hkeep pos hpos, hleft, hline]
      simp

theorem mem_of_mem_editsFrom {n : Nat} {modified : List β} : ∀ {pairs : List (Nat × Nat)} {i j : Nat},
    ∀ e ∈ editsFrom n modified i j pairs, ∀ x ∈ e.new, x ∈ modified
  | [], i, j, e, he, x, hx => by
    unfold editsFrom at he
    split at he
    · rw [List.mem_singleton] at he
      subst he
      exact List.mem_of_mem_drop hx
    · exact absurd he List.not_mem_nil
  | (p, q) :: pairs, i, j, e, he, x, hx => by
    unfold editsFrom at he
    dsimp only at he
    split at he
    · rcases List.mem_cons.1 he with rfl | he
      · exact List.mem_of_mem_take (List.mem_of_mem_drop hx)
      · exact mem_of_mem_editsFrom e he x hx
    · exact mem_of_mem_editsFrom e he x hx

theorem editsFrom_diagonal (modified : List β) : ∀ (d i : Nat), i + d = modified.length →
    editsFrom modified.length modified i i ((List.range' i d).map (fun k => (k, k))) = []
  | 0, i, hd => by
    unfold editsFrom
    simp [show modified.length ≤ i by omega]
  | d + 1, i, hd => by
    rw [List.range'_succ, List.map_cons]
    unfold editsFrom
    dsimp only
    rw [if_neg (by omega)]
    exact editsFrom_diagonal modified d (i + 1) (by omega)

end Edits

/-- The edits `compute_hunks` finds, over any kind of line. -/
def diffEdits {β : Type} (baseLen : Nat) (modified : List β) (pairs : List (Nat × Nat)) : List (Edit β) :=
  editsFrom baseLen modified 0 0 pairs

theorem hunksFrom_edit (base modified : List Text) : ∀ (pairs : List (Nat × Nat)) (i j : Nat),
    (hunksFrom base modified i j pairs).map Hunk.edit = editsFrom base.length modified i j pairs
  | [], i, j => by
    unfold hunksFrom editsFrom
    split <;> rfl
  | (p, q) :: pairs, i, j => by
    unfold hunksFrom editsFrom
    dsimp only
    rw [← hunksFrom_edit base modified pairs]
    split <;> rfl

/-- No hunk of the loop is a no-op, so that the last filter keeps them all. -/
theorem computeHunks_eq (base modified : List Text) :
    computeHunks base modified = hunksFrom base modified 0 0 (lcsIndices base modified) := by
  have hall := (editsFrom_apart (lcsIndices_matching base modified)).1
  rw [← hunksFrom_edit] at hall
  unfold computeHunks
  refine List.filter_eq_self.2 fun h hh => ?_
  have hne := (hall h.edit (List.mem_map_of_mem hh)).2.2.2
  rw [Bool.or_eq_true, decide_eq_true_iff]
  refine hne.imp id fun hn => ?_
  rw [Bool.not_eq_true', List.isEmpty_eq_false_iff]
  exact hn

theorem map_edit_computeHunks (base modified : List Text) :
    (computeHunks base modified).map Hunk.edit = diffEdits base.length modified (lcsIndices base modified) := by
  rw [computeHunks_eq, hunksFrom_edit]
  rfl

theorem mem_computeHunks {base modified : List Text} {h : Hunk} (hh : h ∈ computeHunks base modified) :
    h.baseStart ≤ h.baseEnd ∧ h.baseEnd ≤ base.length ∧ (h.baseStart < h.baseEnd ∨ h.newLines ≠ []) := by
  have he : h.edit ∈ (computeHunks base modified).map Hunk.edit := List.mem_map_of_mem hh
  rw [map_edit_computeHunks] at he
  exact ((editsFrom_apart (lcsIndices_matching base modified)).1 _ he).2

theorem mem_of_mem_newLines {base modified : List Text} {h : Hunk} (hh : h ∈ computeHunks base modified) :
    ∀ l ∈ h.newLines, l ∈ modified := by
  have he : h.edit ∈ (computeHunks base modified).map Hunk.edit := List.mem_map_of_mem hh
  rw [map_edit_computeHunks] at he
  exact mem_of_mem_editsFrom _ he

theorem computeHunks_apart (base modified : List Text) :
    (computeHunks base modified).Pairwise (fun a b => a.baseEnd < b.baseStart) := by
  have h := (editsFrom_apart (lcsIndices_matching base modified)).2
  have hmap := map_edit_computeHunks base modified
  unfold diffEdits at hmap
  rw [← hmap, List.pairwise_map] at h
  exact h

/-- **One side's hunks, applied alone, give that side.** -/
theorem splice_computeHunks (base modified : List Text) :
    Edit.splice base 0 ((computeHunks base modified).map Hunk.edit) = some modified := by
  rw [map_edit_computeHunks, diffEdits,
    splice_editsFrom (lcsIndices_matching base modified) (lcsIndices_eq base modified) 0 le_rfl]
  simp

theorem computeHunks_eq_nil {base modified : List Text} : computeHunks base modified = [] ↔ modified = base := by
  constructor
  · intro h
    have hs := splice_computeHunks base modified
    rw [h, List.map_nil, Edit.splice, Edit.slice_eq_some.2 ⟨Nat.zero_le _, le_rfl, rfl⟩] at hs
    simpa using hs.symm
  · rintro rfl
    have hwalk : ∀ (fuel i : Nat) (a : List Text) (rows : List (List Nat)), a.length ≤ fuel →
        lcsWalk fuel i i a a rows = (List.range' i a.length).map (fun k => (k, k)) := by
      intro fuel
      induction fuel with
      | zero =>
        intro i a rows hl
        rw [List.length_eq_zero_iff.1 (Nat.le_zero.1 hl)]
        rfl
      | succ fuel ih =>
        intro i a rows hl
        cases a with
        | nil => rfl
        | cons x a =>
          rw [lcsWalk, if_pos rfl, ih (i + 1) a _ (Nat.le_of_succ_le_succ hl), List.length_cons, List.range'_succ,
            List.map_cons]
    have hnil : diffEdits modified.length modified (lcsIndices modified modified) = [] := by
      unfold diffEdits lcsIndices
      rw [hwalk _ 0 modified _ (Nat.le_add_left _ _)]
      exact editsFrom_diagonal modified modified.length 0 (Nat.zero_add _)
    rw [← map_edit_computeHunks] at hnil
    exact List.map_eq_nil_iff.1 hnil

/-! ## The hunks of two sides -/

theorem either_of_pairwise {α : Type} {R : α → α → Prop} {l : List α} (h : l.Pairwise R) {a b : α} (ha : a ∈ l)
    (hb : b ∈ l) (hab : a ≠ b) : R a b ∨ R b a := by
  have hsymm : Std.Symm (fun a b => R a b ∨ R b a) := ⟨fun _ _ h => h.symm⟩
  exact (h.imp (S := fun a b => R a b ∨ R b a) .inl).forall ha hb hab

/-- All hunks in the order of the merge loop. -/
def sortedHunks (headHunks wsHunks : List Hunk) : List Hunk :=
  (headHunks ++ wsHunks).insertionSort (fun a b => a.baseStart ≤ b.baseStart)

/-- No side inserts inside a range the other replaces, and the workspace not at its start either. -/
def InsertionsApart (headHunks wsHunks : List Hunk) : Prop :=
  ∀ h ∈ headHunks, ∀ w ∈ wsHunks,
    (h.baseStart = h.baseEnd → ¬ (w.baseStart < h.baseStart ∧ h.baseStart < w.baseEnd)) ∧
    (w.baseStart = w.baseEnd → ¬ (h.baseStart ≤ w.baseStart ∧ w.baseStart < h.baseEnd))

/-- What the two hunk lists of a file are, whatever the contents. -/
structure Sides (len : Nat) (headHunks wsHunks : List Hunk) : Prop where
  head : ∀ h ∈ headHunks, h.baseStart ≤ h.baseEnd ∧ h.baseEnd ≤ len ∧ (h.baseStart < h.baseEnd ∨ h.newLines ≠ [])
  ws : ∀ h ∈ wsHunks, h.baseStart ≤ h.baseEnd ∧ h.baseEnd ≤ len ∧ (h.baseStart < h.baseEnd ∨ h.newLines ≠ [])
  headApart : headHunks.Pairwise (fun a b => a.baseEnd < b.baseStart)
  wsApart : wsHunks.Pairwise (fun a b => a.baseEnd < b.baseStart)

theorem sides_computeHunks (base head ws : List Text) :
    Sides base.length (computeHunks base head) (computeHunks base ws) where
  head := fun _ => mem_computeHunks
  ws := fun _ => mem_computeHunks
  headApart := computeHunks_apart base head
  wsApart := computeHunks_apart base ws

theorem hunkOverlaps_eq_false {a b : Hunk} : hunkOverlaps a b = false ↔
    (a.baseStart < a.baseEnd → b.baseStart < b.baseEnd → ¬ (a.baseStart < b.baseEnd ∧ b.baseStart < a.baseEnd)) ∧
    (a.baseStart = a.baseEnd → b.baseStart = b.baseEnd → a.baseStart = b.baseStart → a.newLines = [] ∨ b.newLines = []) := by
  unfold hunkOverlaps
  by_cases h1 : a.baseStart < a.baseEnd ∧ b.baseStart < b.baseEnd
  · rw [if_pos h1]
    simp only [Bool.and_eq_false_iff, decide_eq_false_iff_not]
    constructor
    · intro h
      exact ⟨fun _ _ => by tauto, fun ha => by omega⟩
    · intro h
      have := h.1 h1.1 h1.2
      tauto
  · rw [if_neg h1]
    by_cases h2 : a.baseStart = a.baseEnd ∧ b.baseStart = b.baseEnd ∧ a.baseStart = b.baseStart
    · rw [if_pos h2, Bool.and_eq_false_iff]
      simp only [Bool.not_eq_false', List.isEmpty_iff]
      exact ⟨fun h => ⟨fun ha hb => absurd ⟨ha, hb⟩ h1, fun _ _ _ => h⟩, fun h => h.2 h2.1 h2.2.1 h2.2.2⟩
    · rw [if_neg h2]
      simp only [true_iff]
      exact ⟨fun ha hb => absurd ⟨ha, hb⟩ h1, fun ha hb hab => absurd ⟨ha, hb, hab⟩ h2⟩

theorem hunksOverlap_eq_false {a b : List Hunk} :
    hunksOverlap a b = false ↔ ∀ x ∈ a, ∀ y ∈ b, hunkOverlaps x y = false := by
  simp [hunksOverlap]

section Sides

variable {len : Nat} {hh wh : List Hunk} (hs : Sides len hh wh) (hno : hunksOverlap hh wh = false)
include hs hno

/-- Hunks of the two sides that start together: an insertion and a replacement. -/
theorem Sides.unlike {h w : Hunk} (hh' : h ∈ hh) (hw : w ∈ wh) (he : h.baseStart = w.baseStart) :
    h.baseStart = h.baseEnd ↔ ¬ w.baseStart = w.baseEnd := by
  obtain ⟨hrep, hins⟩ := hunkOverlaps_eq_false.1 (hunksOverlap_eq_false.1 hno h hh' w hw)
  have h1 := hs.head h hh'
  have h2 := hs.ws w hw
  constructor
  · intro ha hb
    rcases hins ha hb he with hn | hn
    · exact absurd hn (h1.2.2.resolve_left (by omega))
    · exact absurd hn (h2.2.2.resolve_left (by omega))
  · intro hb
    by_contra ha
    exact hrep (by omega) (by omega) ⟨by omega, by omega⟩

omit hno in
/-- The merge loop takes the hunks by their start, of two that start together HEAD's first. -/
theorem Sides.sorted : (sortedHunks hh wh).Pairwise (fun a b => a.baseStart ≤ b.baseStart ∧
    (b.baseStart ≤ a.baseStart → a.baseEnd < b.baseStart ∨ a ∈ hh ∧ b ∈ wh)) := by
  have hR : (hh ++ wh).Pairwise (fun a b => a.baseEnd < b.baseStart ∨ a ∈ hh ∧ b ∈ wh) :=
    List.pairwise_append.2 ⟨hs.headApart.imp .inl, hs.wsApart.imp .inl, fun a ha b hb => .inr ⟨ha, hb⟩⟩
  have hle : IsOrder (fun a b : Hunk => decide (a.baseStart ≤ b.baseStart)) := isOrder_key isOrder_le Hunk.baseStart
  have h := Sorting.pairwise_insertionSort hle hR
  unfold sortedHunks
  simpa only [decide_eq_true_iff] using h

omit hs hno in
theorem mem_sortedHunks {h : Hunk} : h ∈ sortedHunks hh wh ↔ h ∈ hh ∨ h ∈ wh := by
  rw [sortedHunks, List.mem_insertionSort, List.mem_append]

omit hno in
theorem Sides.within : Edit.Within len ((sortedHunks hh wh).map Hunk.edit) := by
  intro e he
  obtain ⟨h, hm, rfl⟩ := List.mem_map.1 he
  rcases mem_sortedHunks.1 hm with hm | hm
  · exact ⟨(hs.head h hm).1, (hs.head h hm).2.1⟩
  · exact ⟨(hs.ws h hm).1, (hs.ws h hm).2.1⟩

omit hno in
theorem Sides.headApart_of_lt {a b : Hunk} (ha : a ∈ hh) (hb : b ∈ hh) (hlt : a.baseStart < b.baseStart) :
    a.baseEnd < b.baseStart := by
  have hne : a ≠ b := fun h => by rw [h] at hlt; omega
  have hboth := either_of_pairwise hs.headApart ha hb hne
  have := hs.head b hb
  omega

omit hno in
theorem Sides.wsApart_of_lt {a b : Hunk} (ha : a ∈ wh) (hb : b ∈ wh) (hlt : a.baseStart < b.baseStart) :
    a.baseEnd < b.baseStart := by
  have hne : a ≠ b := fun h => by rw [h] at hlt; omega
  have hboth := either_of_pairwise hs.wsApart ha hb hne
  have := hs.ws b hb
  omega

/-- **The loop stays inside the base exactly when the insertions are apart from the other side's replacements.** -/
theorem Sides.inRange_iff :
    Edit.InRange len 0 ((sortedHunks hh wh).map Hunk.edit) ↔ InsertionsApart hh wh := by
  have hsort := hs.sorted
  rw [Edit.inRange_iff hs.within (Nat.zero_le _), List.pairwise_map]
  constructor
  · rintro ⟨-, hpw⟩ h hm w hw
    -- the two hunks come in one order or the other, and each order forbids the bad cases
    have hpw' : (sortedHunks hh wh).Pairwise (fun a b => a.baseEnd ≤ b.baseStart) := hpw
    have hboth : h ≠ w → _ := either_of_pairwise (hsort.and hpw') (mem_sortedHunks.2 (.inl hm))
      (mem_sortedHunks.2 (.inr hw))
    refine ⟨fun hins hin => ?_, fun hins hin => ?_⟩
    · have hne : h ≠ w := fun he => by rw [he] at hin; omega
      rcases hboth hne with hb | hb <;> omega
    · have hne : h ≠ w := fun he => by rw [he] at hin; omega
      rcases hboth hne with hb | hb
      · omega
      · rcases hb.1.2 hin.1 with hlt | hside
        · omega
        · have := hs.unlike hno hside.1 hw rfl
          tauto
  · intro hapart
    refine ⟨fun e _ => Nat.zero_le _, hsort.imp_of_mem fun {a b} ha hb hab => ?_⟩
    change a.baseEnd ≤ b.baseStart
    rw [mem_sortedHunks] at ha hb
    by_cases htie : b.baseStart ≤ a.baseStart
    · rcases hab.2 htie with hlt | hside
      · exact le_of_lt hlt
      · have hun := hs.unlike hno hside.1 hside.2 (le_antisymm hab.1 htie)
        have hap := (hapart a hside.1 b hside.2).2
        have := hs.head a hside.1
        omega
    · have hlt : a.baseStart < b.baseStart := Nat.lt_of_not_le htie
      rcases ha with ha | ha <;> rcases hb with hb | hb
      · exact le_of_lt (hs.headApart_of_lt ha hb hlt)
      · have hov := (hunkOverlaps_eq_false.1 (hunksOverlap_eq_false.1 hno a ha b hb)).1
        have hap := (hapart a ha b hb).2
        have := hs.head a ha
        have := hs.ws b hb
        omega
      · have hov := (hunkOverlaps_eq_false.1 (hunksOverlap_eq_false.1 hno b hb a ha)).1
        have hap := (hapart b hb a ha).1
        have := hs.head b hb
        have := hs.ws a ha
        omega
      · exact le_of_lt (hs.wsApart_of_lt ha hb hlt)

end Sides

/-! ## Level 1 -/

/-- The merged lines as bytes, with a last newline when a side had one. -/
def joinLines (hadNewline : Bool) (resultLines : List Text) : Bytes :=
  let out := Text.intoBytes (['\n'].intercalate resultLines)
  if hadNewline && !endsWithNewline out then out ++ [10] else out

theorem applyTwoHunkSets_eq {base : List Text} {headRaw wsRaw : Bytes} {hh wh : List Hunk} (h1 : hh ≠ []) (h2 : wh ≠ []) :
    applyTwoHunkSets base headRaw wsRaw hh wh = (Edit.splice base 0 ((sortedHunks hh wh).map Hunk.edit)).map
      (joinLines (endsWithNewline headRaw || endsWithNewline wsRaw)) := by
  unfold applyTwoHunkSets
  rw [if_neg (by simpa [List.isEmpty_iff] using h1), if_neg (by simpa [List.isEmpty_iff] using h2), ← spliceHunks_eq]
  unfold sortedHunks
  dsimp only
  cases spliceHunks base 0 ((hh ++ wh).insertionSort fun a b => a.baseStart ≤ b.baseStart) <;> rfl

theorem isSome_applyTwoHunkSets {base : List Text} {headRaw wsRaw : Bytes} {hh wh : List Hunk} (h1 : hh ≠ [])
    (h2 : wh ≠ []) : (applyTwoHunkSets base headRaw wsRaw hh wh).isSome ↔
      Edit.InRange base.length 0 ((sortedHunks hh wh).map Hunk.edit) := by
  rw [applyTwoHunkSets_eq h1 h2, Option.isSome_map, Edit.isSome_splice]

/-- What `try_merge_file` does with hunks that do not overlap. -/
theorem tryMergeFile_level1 (env : Env) (n : Nat) (p : Path) {base head ws : Bytes} (w : Uuid)
    (hno : hunksOverlap (computeHunks (splitLines base) (splitLines head))
      (computeHunks (splitLines base) (splitLines ws)) = false) :
    tryMergeFile env n p base head ws w = (applyTwoHunkSets (splitLines base) head ws
      (computeHunks (splitLines base) (splitLines head)) (computeHunks (splitLines base) (splitLines ws))).map
        (FileMergeResult.autoMerged · 1) := by
  unfold tryMergeFile
  dsimp only
  rw [hno, Bool.not_false, if_pos rfl]

/-- **When level 1 stays inside the base**: for hunks that do not overlap, every slice the loop takes is in range and
`try_merge_file` returns exactly when no side inserts inside a range the other replaces, and the workspace not at the
start of one either. -/
theorem level1_in_range_iff (env : Env) (n : Nat) (p : Path) (base head ws : Bytes) (w : Uuid)
    (hno : hunksOverlap (computeHunks (splitLines base) (splitLines head))
      (computeHunks (splitLines base) (splitLines ws)) = false) :
    (Edit.InRange (splitLines base).length 0 ((sortedHunks (computeHunks (splitLines base) (splitLines head))
        (computeHunks (splitLines base) (splitLines ws))).map Hunk.edit) ∧
      (tryMergeFile env n p base head ws w).isSome) ↔
    InsertionsApart (computeHunks (splitLines base) (splitLines head)) (computeHunks (splitLines base) (splitLines ws)) := by
  have hs := sides_computeHunks (splitLines base) (splitLines head) (splitLines ws)
  rw [← hs.inRange_iff hno, tryMergeFile_level1 env n p w hno, Option.isSome_map]
  refine ⟨And.left, fun h => ⟨h, ?_⟩⟩
  by_cases h1 : computeHunks (splitLines base) (splitLines head) = []
  · simp [applyTwoHunkSets, h1]
  · by_cases h2 : computeHunks (splitLines base) (splitLines ws) = []
    · simp [applyTwoHunkSets, h1, h2]
    · exact (isSome_applyTwoHunkSets h1 h2).2 h

def threeLines : Bytes := Text.intoBytes "a\nb\nc\n".toList

/-- HEAD deletes the whole file, the workspace adds a line in the middle: no overlap is seen, and the loop panics. -/
theorem insertion_inside_deletion_panics :
    hunksOverlap (computeHunks (splitLines threeLines) (splitLines []))
      (computeHunks (splitLines threeLines) (splitLines (Text.intoBytes "a\nx\nb\nc\n".toList))) = false ∧
    tryMergeFile Env.plain 0 "f.txt".toList threeLines [] (Text.intoBytes "a\nx\nb\nc\n".toList) 0 = none := by
  decide +kernel

theorem level1_in_range_iff_ends :
    (Edit.InRange (splitLines threeLines).length 0 ((sortedHunks
        (computeHunks (splitLines threeLines) (splitLines (Text.intoBytes "A\nb\nc\n".toList)))
        (computeHunks (splitLines threeLines) (splitLines (Text.intoBytes "a\nb\nC\n".toList)))).map Hunk.edit) ∧
      (tryMergeFile Env.plain 0 "f.txt".toList threeLines (Text.intoBytes "A\nb\nc\n".toList)
        (Text.intoBytes "a\nb\nC\n".toList) 0).isSome) ↔
    InsertionsApart (computeHunks (splitLines threeLines) (splitLines (Text.intoBytes "A\nb\nc\n".toList)))
      (computeHunks (splitLines threeLines) (splitLines (Text.intoBytes "a\nb\nC\n".toList))) :=
  level1_in_range_iff Env.plain 0 "f.txt".toList threeLines (Text.intoBytes "A\nb\nc\n".toList)
    (Text.intoBytes "a\nb\nC\n".toList) 0 (by decide +kernel)

end Merge
end Vai
