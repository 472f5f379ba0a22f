import Vai.HunkSpec
import Vai.Lcs
/-!
# HunkExact — the diff of two files of lines

The walk of `lcs_indices` takes an equal pair wherever it stands on one, and otherwise goes where the table has more left:
it is as long as the table says (`length_lcsWalk`), so that no common subsequence is longer (`lcsIndices_longest`).

Before the pair it takes next, the lines at which it stands differ (`Greedy`).  A hunk so begins with a line that is not
the one it puts there, and none is a no-op (`computeHunks_exact`).
-/
namespace Vai
namespace Merge

/-! ## A longest common subsequence -/

theorem lcsRow_table (x : Text) (a b : List Text) :
    lcsRow x b (b.tails.map (Lcs.best a)) = b.tails.map (Lcs.best (x :: a)) := by
  induction b with
  | nil =>
    rw [List.tails, List.map_singleton, List.map_singleton, Lcs.best_nil_right (x :: a)]
    rfl
  | cons y b ih =>
    have hnext : ((y :: b).tails.map (Lcs.best a)).tail = b.tails.map (Lcs.best a) := rfl
    unfold lcsRow
    dsimp only
    rw [hnext, ih, Lcs.headD_row, Lcs.headD_row, Lcs.headD_row, List.tails_cons, List.map_cons]
    congr 1
    by_cases hxy : x = y
    · rw [if_pos hxy, hxy, Lcs.best_cons_self]
    · rw [if_neg hxy, Lcs.best_cons_of_ne hxy]

/-- What `lcs_indices` fills in is the table. -/
theorem lcsTable_eq (a b : List Text) : lcsTable a b = Lcs.table a b := by
  induction a with
  | nil => rw [lcsTable, Lcs.table_nil]
  | cons x a ih =>
    unfold lcsTable
    dsimp only
    rw [ih, Lcs.headD_table, lcsRow_table, Lcs.table_cons]

/-- **The walk is as long as the table says.** -/
theorem length_lcsWalk : ∀ (fuel i j : Nat) (a b : List Text), a.length + b.length ≤ fuel →
    (lcsWalk fuel i j a b (Lcs.table a b)).length = Lcs.best a b
  | 0, i, j, a, b, hf => by
    have ha : a = [] := List.length_eq_zero_iff.1 (by omega)
    rw [ha, Lcs.best_nil_left]
    rfl
  | fuel + 1, i, j, [], b, _ => by
    rw [Lcs.best_nil_left]
    rfl
  | fuel + 1, i, j, x :: a, [], _ => by
    rw [Lcs.best_nil_right]
    rfl
  | fuel + 1, i, j, x :: a, y :: b, hf => by
    rw [List.length_cons, List.length_cons] at hf
    have hbelow : (Lcs.table (x :: a) (y :: b)).tail = Lcs.table a (y :: b) := rfl
    have hdown : ((Lcs.table a (y :: b)).headD []).headD 0 = Lcs.best a (y :: b) := by
      rw [Lcs.headD_table, Lcs.headD_row]
    have hright : ((Lcs.table (x :: a) (y :: b)).headD []).tail.headD 0 = Lcs.best (x :: a) b := Lcs.headD_row (x :: a) b
    unfold lcsWalk
    rw [hbelow, hdown, hright, Lcs.map_tail_table, Lcs.map_tail_table]
    by_cases hxy : x = y
    · rw [if_pos hxy, List.length_cons, length_lcsWalk fuel (i + 1) (j + 1) a b (by omega), hxy, Lcs.best_cons_self,
        Nat.add_comm]
    · rw [if_neg hxy, Lcs.best_cons_of_ne hxy]
      split
      · rename_i hge
        rw [length_lcsWalk fuel (i + 1) j a (y :: b) (by rw [List.length_cons]; omega), max_eq_left hge]
      · rename_i hlt
        rw [length_lcsWalk fuel i (j + 1) (x :: a) b (by rw [List.length_cons]; omega), max_eq_right (by omega)]

theorem length_lcsIndices (a b : List Text) : (lcsIndices a b).length = Lcs.best a b := by
  unfold lcsIndices
  rw [lcsTable_eq]
  exact length_lcsWalk (a.length + b.length) 0 0 a b le_rfl

theorem Matching.pairwise {n m : Nat} : ∀ {l : List (Nat × Nat)} {i j : Nat}, Matching n m i j l →
    l.Pairwise fun p q => p.1 < q.1 ∧ p.2 < q.2
  | [], _, _, _ => List.Pairwise.nil
  | (p, q) :: l, i, j, h => by
    obtain ⟨-, -, -, -, hrest⟩ := h
    refine List.pairwise_cons.2 ⟨fun r hr => ?_, Matching.pairwise hrest⟩
    have hge := Matching.ge hrest r hr
    exact ⟨by omega, by omega⟩

/-- **`lcs_indices` answers with a longest common subsequence**: pairs of equal lines that go up on both sides, and no
common subsequence is longer. -/
theorem lcsIndices_longest (a b : List Text) :
    ((lcsIndices a b).Pairwise fun p q => p.1 < q.1 ∧ p.2 < q.2) ∧
    (∀ p ∈ lcsIndices a b, ∃ line, a[p.1]? = some line ∧ b[p.2]? = some line) ∧
    ∀ c : List Text, c.Sublist a → c.Sublist b → c.length ≤ (lcsIndices a b).length := by
  have hmatching := lcsIndices_matching a b
  refine ⟨hmatching.pairwise, fun p hp => ?_, fun c ha hb => ?_⟩
  · have hlt := (hmatching.lt p hp).1
    have hline := lcsIndices_eq a b p hp
    rw [List.getElem?_eq_getElem hlt] at hline ⊢
    exact ⟨a[p.1], rfl, hline.symm⟩
  · rw [length_lcsIndices]
    exact Lcs.length_le_best a b ha hb

/-! ## The hunks -/

/-- The lines at two places, where there are some, are not equal. -/
def Differ (a b : List Text) (i j : Nat) : Prop := ∀ line, a[i]? = some line → b[j]? ≠ some line

/-- Before each pair, and after the last, either nothing is skipped or the first lines that are skipped differ. -/
def Greedy (a b : List Text) : Nat → Nat → List (Nat × Nat) → Prop
  | i, j, [] => Differ a b i j
  | i, j, (p, q) :: pairs => ((p = i ∧ q = j) ∨ Differ a b i j) ∧ Greedy a b (p + 1) (q + 1) pairs

theorem Greedy.skip {a b : List Text} {i j i' j' : Nat} : ∀ {pairs : List (Nat × Nat)}, Greedy a b i' j' pairs →
    Differ a b i j → Greedy a b i j pairs
  | [], _, hu => hu
  | _ :: _, h, hu => ⟨Or.inr hu, h.2⟩

theorem differ_of_length {a b : List Text} {i j : Nat} (h : a.length ≤ i ∨ b.length ≤ j) : Differ a b i j := by
  intro line ha hb
  obtain ⟨hi, -⟩ := List.getElem?_eq_some_iff.1 ha
  obtain ⟨hj, -⟩ := List.getElem?_eq_some_iff.1 hb
  omega

theorem differ_of_ne {a b s t : List Text} {x y : Text} {i j : Nat} (ha : a.drop i = x :: s) (hb : b.drop j = y :: t)
    (hne : x ≠ y) : Differ a b i j := by
  intro line hx hy
  have hx' : a[i]? = some x := by rw [← List.head?_drop, ha, List.head?_cons]
  have hy' : b[j]? = some y := by rw [← List.head?_drop, hb, List.head?_cons]
  rw [hx'] at hx
  rw [hy'] at hy
  exact hne (Option.some.inj (hx.trans hy.symm))

/-- Whatever the table holds, the walk takes an equal pair where it stands on one. -/
theorem greedy_lcsWalk {a b : List Text} : ∀ (fuel i j : Nat) (s t : List Text) (rows : List (List Nat)),
    s.length + t.length ≤ fuel → a.drop i = s → b.drop j = t → Greedy a b i j (lcsWalk fuel i j s t rows)
  | 0, i, j, s, t, rows, hf, hs, ht => by
    have hnil : s = [] := List.length_eq_zero_iff.1 (by omega)
    exact differ_of_length (Or.inl (List.drop_eq_nil_iff.1 (hs.trans hnil)))
  | fuel + 1, i, j, [], t, rows, _, hs, _ =>
    differ_of_length (Or.inl (List.drop_eq_nil_iff.1 hs))
  | fuel + 1, i, j, x :: s, [], rows, _, _, ht =>
    differ_of_length (Or.inr (List.drop_eq_nil_iff.1 ht))
  | fuel + 1, i, j, x :: s, y :: t, rows, hf, hs, ht => by
    rw [List.length_cons, List.length_cons] at hf
    have hs' : a.drop (i + 1) = s := by rw [← List.drop_drop, hs, List.drop_succ_cons, List.drop_zero]
    have ht' : b.drop (j + 1) = t := by rw [← List.drop_drop, ht, List.drop_succ_cons, List.drop_zero]
    unfold lcsWalk
    by_cases hxy : x = y
    · rw [if_pos hxy]
      exact ⟨Or.inl ⟨rfl, rfl⟩, greedy_lcsWalk fuel (i + 1) (j + 1) s t _ (by omega) hs' ht'⟩
    · have hdiffer := differ_of_ne hs ht hxy
      rw [if_neg hxy]
      split
      · exact (greedy_lcsWalk fuel (i + 1) j s (y :: t) _ (by rw [List.length_cons]; omega) hs' ht).skip hdiffer
      · exact (greedy_lcsWalk fuel i (j + 1) (x :: s) t _ (by rw [List.length_cons]; omega) hs ht').skip hdiffer

theorem greedy_lcsIndices (a b : List Text) : Greedy a b 0 0 (lcsIndices a b) :=
  greedy_lcsWalk (a.length + b.length) 0 0 a b _ le_rfl List.drop_zero List.drop_zero

/-- Ranges that begin with lines that differ are not the same, unless both are empty. -/
theorem ne_of_differ {a b : List Text} {i j k m : Nat} (hu : Differ a b i j) (hik : i ≤ k) (hk : k ≤ a.length)
    (hne : i < k ∨ (b.take m).drop j ≠ []) : (b.take m).drop j ≠ (a.take k).drop i := by
  intro heq
  have hlen : ((a.take k).drop i).length = k - i := by
    rw [List.length_drop, List.length_take]
    omega
  have hlt : i < k := by
    rcases hne with h | h
    · exact h
    · rw [heq, ← List.length_pos_iff, hlen] at h
      omega
  have ha : ((a.take k).drop i)[0]? = a[i]? := by
    rw [List.getElem?_drop, Nat.add_zero, List.getElem?_take_of_lt hlt]
  have hb : ((b.take m).drop j)[0]? = some a[i] := by
    rw [heq, ha, List.getElem?_eq_getElem]
  refine hu a[i] (List.getElem?_eq_getElem _) ?_
  rw [List.getElem?_drop, Nat.add_zero, List.getElem?_take] at hb
  split at hb
  · exact hb
  · cases hb

theorem editsFrom_change {base modified : List Text} : ∀ {pairs : List (Nat × Nat)} {i j : Nat},
    Matching base.length modified.length i j pairs → Greedy base modified i j pairs →
    ∀ e ∈ editsFrom base.length modified i j pairs, e.new ≠ (base.take e.stop).drop e.start
  | [], i, j, hm, hg, e, he => by
    unfold editsFrom at he
    split at he
    · rename_i hc
      rw [List.mem_singleton] at he
      subst he
      have hall : modified.drop j = (modified.take modified.length).drop j := by rw [List.take_length]
      have hne : i < base.length ∨ (modified.take modified.length).drop j ≠ [] := by
        refine hc.imp id fun hj hn => ?_
        rw [List.take_length] at hn
        exact absurd (List.drop_eq_nil_iff.1 hn) (by omega)
      dsimp only
      rw [hall]
      exact ne_of_differ hg hm.1 le_rfl hne
    · cases he
  | (p, q) :: pairs, i, j, hm, hg, e, he => by
    obtain ⟨hip, hpn, hjq, hqm, hrest⟩ := hm
    unfold editsFrom at he
    dsimp only at he
    split at he
    · rename_i hc
      rcases List.mem_cons.1 he with rfl | he
      · have hu : Differ base modified i j := hg.1.resolve_left (by omega)
        refine ne_of_differ hu hip (le_of_lt hpn) (hc.imp id fun hj hn => ?_)
        have := List.drop_eq_nil_iff.1 hn
        rw [List.length_take] at this
        omega
      · exact editsFrom_change hrest hg.2 e he
    · exact editsFrom_change hrest hg.2 e he

/-- After an edit comes one of the pairs, and then the next edit. -/
theorem editsFrom_separated {n : Nat} {modified : List Text} : ∀ {pairs : List (Nat × Nat)} {i j : Nat},
    Matching n modified.length i j pairs →
    (editsFrom n modified i j pairs).Pairwise fun a b => ∃ k, (a.stop, k) ∈ pairs ∧ a.stop < b.start
  | [], i, j, _ => by
    unfold editsFrom
    split
    · exact List.pairwise_singleton _ _
    · exact List.Pairwise.nil
  | (p, q) :: pairs, i, j, h => by
    obtain ⟨-, -, -, -, hrest⟩ := h
    have hlate : ∀ e ∈ editsFrom n modified (p + 1) (q + 1) pairs, p < e.start := fun e he =>
      ((editsFrom_apart hrest).1 e he).1
    have ih := (editsFrom_separated hrest).imp fun {a b} hab =>
      show ∃ k, (a.stop, k) ∈ (p, q) :: pairs ∧ a.stop < b.start from
        hab.imp fun k hk => ⟨List.mem_cons_of_mem _ hk.1, hk.2⟩
    unfold editsFrom
    dsimp only
    split
    · exact List.pairwise_cons.2 ⟨fun e he => ⟨q, List.mem_cons_self, hlate e he⟩, ih⟩
    · exact ih

theorem computeHunks_change {base modified : List Text} {h : Hunk} (hh : h ∈ computeHunks base modified) :
    h.newLines ≠ (base.take h.baseEnd).drop h.baseStart := by
  have he : h.edit ∈ (computeHunks base modified).map Hunk.edit := List.mem_map_of_mem hh
  rw [map_edit_computeHunks] at he
  exact editsFrom_change (lcsIndices_matching base modified) (greedy_lcsIndices base modified) _ he

theorem computeHunks_separated (base modified : List Text) : (computeHunks base modified).Pairwise fun a b =>
    ∃ j, (a.baseEnd, j) ∈ lcsIndices base modified ∧ a.baseEnd < b.baseStart := by
  have h := editsFrom_separated (lcsIndices_matching base modified)
  have hmap := map_edit_computeHunks base modified
  unfold diffEdits at hmap
  rw [← hmap, List.pairwise_map] at h
  exact h

theorem simultaneous_computeHunks (base modified : List Text) :
    Edit.simultaneous base ((computeHunks base modified).map Hunk.edit) = modified := by
  have hin := (Edit.isSome_splice base ((computeHunks base modified).map Hunk.edit) 0).1
    (by rw [splice_computeHunks]; rfl)
  have hwithin : Edit.Within base.length ((computeHunks base modified).map Hunk.edit) := by
    intro e he
    obtain ⟨h, hh, rfl⟩ := List.mem_map.1 he
    exact ⟨(mem_computeHunks hh).1, (mem_computeHunks hh).2.1⟩
  have hsplice := Edit.splice_eq_simultaneous hwithin hin
  rw [splice_computeHunks] at hsplice
  exact (Option.some.inj hsplice).symm

/-- **`compute_hunks` is a diff**: put into the base all at once the hunks give the other side; they lie in the base, in
order, with a line between two of them that both sides have, and none is a no-op.  Between equal files there are none. -/
theorem computeHunks_exact (base modified : List Text) :
    Edit.simultaneous base ((computeHunks base modified).map Hunk.edit) = modified ∧
    (∀ h ∈ computeHunks base modified, h.baseStart ≤ h.baseEnd ∧ h.baseEnd ≤ base.length ∧
      h.newLines ≠ (base.take h.baseEnd).drop h.baseStart) ∧
    ((computeHunks base modified).Pairwise fun a b => ∃ i j line, a.baseEnd ≤ i ∧ i < b.baseStart ∧
      (i, j) ∈ lcsIndices base modified ∧ base[i]? = some line ∧ modified[j]? = some line) ∧
    computeHunks base base = [] := by
  refine ⟨simultaneous_computeHunks base modified, fun h hh => ?_, ?_, computeHunks_eq_nil.2 rfl⟩
  · exact ⟨(mem_computeHunks hh).1, (mem_computeHunks hh).2.1, computeHunks_change hh⟩
  · refine (computeHunks_separated base modified).imp fun {a b} hab => ?_
    obtain ⟨j, hj, hlt⟩ := hab
    have hlen := ((lcsIndices_matching base modified).lt _ hj).1
    have hline := lcsIndices_eq base modified _ hj
    rw [List.getElem?_eq_getElem hlen] at hline
    exact ⟨a.baseEnd, j, base[a.baseEnd], le_rfl, hlt, hj, List.getElem?_eq_getElem hlen, hline.symm⟩

end Merge
end Vai
