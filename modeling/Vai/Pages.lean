import Vai.Sorting
/-!
# Pages — pages of listings that may differ

Every page is cut out of a listing of the rows in an order that may leave rows together, and the listing may be another
one for each page.  The pages have every row once whatever the listings are, exactly where the order cuts the rows at each
end of a page (`pages_perm_iff`).  Rows that are sought among the rows of the pages are all on the first one, whatever the
listings are, exactly where no more rows than a page has may come up to them (`first_page_iff`).
-/
namespace Vai
namespace Pages

open Sorting

variable {α : Type} {le : α → α → Bool} {rows s t : List α} {p : Nat}

/-- The rows in the order of `le`; rows that it leaves together come in some order. -/
def Listing (le : α → α → Bool) (rows s : List α) : Prop := s.Perm rows ∧ s.Pairwise fun a b => le a b = true

/-- The `k`th page, from 0, of `p` rows each. -/
def pageOf (p k : Nat) (s : List α) : List α := (s.drop (k * p)).take p

/-- Some `i` rows are strictly before all others. -/
def Cut (le : α → α → Bool) (rows : List α) (i : Nat) : Prop :=
  ∃ A B : List α, (A ++ B).Perm rows ∧ A.length = i ∧ ∀ a ∈ A, ∀ b ∈ B, le b a = false

theorem exists_listing (h : IsOrder le) (rows : List α) : ∃ s, Listing le rows s :=
  ⟨RowOrder.stable.orderBy le rows, RowOrder.stable.perm le rows, RowOrder.stable.sorted le rows h⟩

/-! ## The pages of one listing -/

theorem take_append_pageOf (p k : Nat) (s : List α) : s.take (k * p) ++ pageOf p k s = s.take ((k + 1) * p) := by
  unfold pageOf
  rw [Nat.add_mul, Nat.one_mul, List.take_add]

theorem pageOf_of_length_le {k : Nat} (h : s.length ≤ k * p) : pageOf p k s = [] := by
  unfold pageOf
  rw [List.drop_eq_nil_of_le h, List.take_nil]

theorem length_pageOf_le (p k : Nat) (s : List α) : (pageOf p k s).length ≤ p := List.length_take_le _ _

theorem length_flatMap_pageOf_le (p T : Nat) (s : Nat → List α) :
    ((List.range T).flatMap fun k => pageOf p k (s k)).length ≤ T * p := by
  induction T with
  | zero => simp
  | succ T ih =>
    rw [List.range_succ, List.flatMap_append, List.length_append, List.flatMap_singleton, Nat.add_mul, Nat.one_mul]
    have := length_pageOf_le p T (s T)
    omega

/-! ## Where the order cuts -/

/-- What comes first with `q` is what `q` holds of. -/
theorem eq_filter_append {q : α → Bool} (h : s.Pairwise fun a b => q b = true → q a = true) :
    s = s.filter q ++ s.filter fun a => !q a := by
  induction s with
  | nil => rfl
  | cons a s ih =>
    rw [List.pairwise_cons] at h
    cases hq : q a with
    | true =>
      rw [List.filter_cons_of_pos hq, List.filter_cons_of_neg (by simp [hq]), List.cons_append, ← ih h.2]
    | false =>
      have hnone : ∀ b ∈ s, q b = false := fun b hb => by
        rw [Bool.eq_false_iff]
        intro hqb
        rw [h.1 b hb hqb] at hq
        cases hq
      have hempty : s.filter q = [] := List.filter_eq_nil_iff.2 fun b hb => by rw [hnone b hb]; simp
      have hall : s.filter (fun a => !q a) = s := List.filter_eq_self.2 fun b hb => by rw [hnone b hb]; rfl
      rw [List.filter_cons_of_neg (by simp [hq]), List.filter_cons_of_pos (by simp [hq]), hempty, hall, List.nil_append]

open Classical in
/-- **A cut is the same in every listing.** -/
theorem take_of_cut {A B : List α} (hs : Listing le rows s) (hperm : (A ++ B).Perm rows)
    (hcut : ∀ a ∈ A, ∀ b ∈ B, le b a = false) (hle : ∀ a b, le a b = true ∨ le b a = true) :
    (s.take A.length).Perm A := by
  have hapart : ∀ b ∈ B, b ∉ A := fun b hb hA => by
    have hrefl := (hle b b).elim id id
    rw [hcut b hA b hb] at hrefl
    cases hrefl
  have hmem : ∀ x ∈ s, x ∉ A → x ∈ B := fun x hx hA =>
    (List.mem_append.1 (hperm.mem_iff.2 (hs.1.mem_iff.1 hx))).resolve_left hA
  have hfirst : s.Pairwise fun a b => decide (b ∈ A) = true → decide (a ∈ A) = true := by
    refine hs.2.imp_of_mem fun {a b} ha _ hab hb => ?_
    rw [decide_eq_true_iff] at hb ⊢
    by_contra hA
    rw [hcut b hb a (hmem a ha hA)] at hab
    cases hab
  have hfilter : (s.filter fun a => decide (a ∈ A)).Perm A := by
    have hA : A.filter (fun a => decide (a ∈ A)) = A := List.filter_eq_self.2 fun a ha => by simpa using ha
    have hB : B.filter (fun a => decide (a ∈ A)) = [] := List.filter_eq_nil_iff.2 fun b hb => by simpa using hapart b hb
    have h := (hs.1.trans hperm.symm).filter fun a => decide (a ∈ A)
    rwa [List.filter_append, hA, hB, List.append_nil] at h
  have hsplit := eq_filter_append hfirst
  rw [hsplit, ← hfilter.length_eq, List.take_left' rfl]
  exact hfilter

theorem cut_of_lt (h : IsOrder le) (hs : Listing le rows s) {i : Nat} (hi : i + 1 < s.length)
    (hlt : le s[i + 1] s[i] = false) : Cut le rows (i + 1) := by
  refine ⟨s.take (i + 1), s.drop (i + 1), by rw [List.take_append_drop]; exact hs.1, by
    rw [List.length_take]; omega, fun a ha b hb => ?_⟩
  rw [List.mem_take_iff_getElem] at ha
  rw [List.mem_drop_iff_getElem] at hb
  obtain ⟨m, hm, rfl⟩ := ha
  obtain ⟨n, hn, rfl⟩ := hb
  have hsorted := List.pairwise_iff_getElem.1 hs.2
  have hrefl : ∀ x, le x x = true := fun x => (h.total x x).elim id id
  have hleft : le s[m] s[i] = true := by
    rcases Nat.lt_or_ge m i with hmi | hmi
    · exact hsorted m i _ _ hmi
    · have : m = i := by omega
      subst this
      exact hrefl _
  have hright : le s[i + 1] s[i + 1 + n] = true := by
    rcases Nat.eq_zero_or_pos n with rfl | hn'
    · exact hrefl _
    · exact hsorted (i + 1) (i + 1 + n) _ _ (by omega)
  rw [Bool.eq_false_iff]
  intro hback
  have := h.trans _ _ _ hright (h.trans _ _ _ hback hleft)
  rw [hlt] at this
  cases this

/-- Two neighbours that the order leaves together, the other way round. -/
def swapped (s : List α) (i : Nat) (x y : α) : List α := s.take i ++ y :: x :: s.drop (i + 2)

theorem eq_take_cons_cons {i : Nat} (hi : i + 1 < s.length) : s = s.take i ++ s[i] :: s[i + 1] :: s.drop (i + 2) := by
  have h1 : s.drop i = s[i] :: s.drop (i + 1) := List.drop_eq_getElem_cons (by omega)
  have h2 : s.drop (i + 1) = s[i + 1] :: s.drop (i + 2) := List.drop_eq_getElem_cons hi
  rw [← h2, ← h1, List.take_append_drop]

theorem listing_swapped (hs : Listing le rows s) {i : Nat} (hi : i + 1 < s.length)
    (htie : le s[i + 1] s[i] = true) : Listing le rows (swapped s i s[i] s[i + 1]) := by
  have heq := eq_take_cons_cons hi
  have hle := List.pairwise_iff_getElem.1 hs.2 i (i + 1) (by omega) hi (by omega)
  generalize s[i] = x at *
  generalize s[i + 1] = y at *
  refine ⟨?_, ?_⟩
  · refine List.Perm.trans ?_ hs.1
    unfold swapped
    conv_rhs => rw [heq]
    exact List.Perm.append_left _ (List.Perm.swap x y _)
  · have hsorted := hs.2
    rw [heq, List.pairwise_append, List.pairwise_cons, List.pairwise_cons] at hsorted
    obtain ⟨h1, ⟨hx, hy, h2⟩, h3⟩ := hsorted
    unfold swapped
    rw [List.pairwise_append, List.pairwise_cons, List.pairwise_cons]
    refine ⟨h1, ⟨?_, fun b hb => hx b (List.mem_cons_of_mem _ hb), h2⟩, fun a ha b hb => ?_⟩
    · intro b hb
      rcases List.mem_cons.1 hb with rfl | hb
      · exact htie
      · exact hy b hb
    · refine h3 a ha b ?_
      simp only [List.mem_cons] at hb ⊢
      tauto

theorem mem_pageOf {k m : Nat} {x : α} (hx : s[m]? = some x) (h1 : k * p ≤ m) (h2 : m < (k + 1) * p) : x ∈ pageOf p k s := by
  refine List.mem_of_getElem? (i := m - k * p) ?_
  rw [Nat.add_mul, Nat.one_mul] at h2
  unfold pageOf
  rw [List.getElem?_take, if_pos (by omega), List.getElem?_drop, show k * p + (m - k * p) = m by omega, hx]

theorem getElem?_swapped {i : Nat} (hi : i ≤ s.length) (x y : α) : (swapped s i x y)[i + 1]? = some x := by
  have hlength : (s.take i).length = i := List.length_take_of_le hi
  unfold swapped
  rw [List.getElem?_append_right (by omega), hlength, show i + 1 - i = 1 by omega]
  rfl

/-! ## The pages of several listings -/

theorem take_perm (h : IsOrder le) (hs : Listing le rows s) (ht : Listing le rows t) {i : Nat}
    (hcut : i < rows.length → 0 < i → Cut le rows i) : (s.take i).Perm (t.take i) := by
  rcases Nat.eq_zero_or_pos i with rfl | hpos
  · simp
  by_cases hi : i < rows.length
  · obtain ⟨A, B, hperm, rfl, hAB⟩ := hcut hi hpos
    exact (take_of_cut hs hperm hAB h.total).trans (take_of_cut ht hperm hAB h.total).symm
  · rw [List.take_of_length_le (by rw [hs.1.length_eq]; omega), List.take_of_length_le (by rw [ht.1.length_eq]; omega)]
    exact hs.1.trans ht.1.symm

theorem pageOf_perm (h : IsOrder le) (hs : Listing le rows s) (ht : Listing le rows t)
    (hcuts : ∀ k, 0 < k → k * p < rows.length → Cut le rows (k * p)) (k : Nat) : (pageOf p k s).Perm (pageOf p k t) := by
  have htake : ∀ k, (s.take (k * p)).Perm (t.take (k * p)) := fun k =>
    take_perm h hs ht fun hlt hpos => hcuts k (Nat.pos_of_mul_pos_right hpos) hlt
  have hnext := htake (k + 1)
  rw [← take_append_pageOf, ← take_append_pageOf] at hnext
  exact (List.perm_append_left_iff _).1 (hnext.trans ((htake k).symm.append_right _))

/-- **The pages have every row once**, whatever listings they are cut from, where the order cuts the rows at every end of a
page. -/
theorem pages_perm_iff (h : IsOrder le) (hrows : rows.Nodup) (p T : Nat) :
    (∀ s : Nat → List α, (∀ k, Listing le rows (s k)) →
      ((List.range T).flatMap fun k => pageOf p k (s k)).Perm rows) ↔
      rows.length ≤ T * p ∧ ∀ k, 0 < k → k * p < rows.length → Cut le rows (k * p) := by
  obtain ⟨s₀, hs₀⟩ := exists_listing h rows
  have hlength := hs₀.1.length_eq
  constructor
  · intro hall
    have hle : rows.length ≤ T * p := by
      rw [← (hall (fun _ => s₀) fun _ => hs₀).length_eq]
      exact length_flatMap_pageOf_le p T _
    refine ⟨hle, fun k hk hlt => ?_⟩
    have hkT : k < T := Nat.lt_of_mul_lt_mul_right (hlt.trans_le hle)
    have hp : 0 < p := Nat.pos_of_ne_zero fun hp => by
      rw [hp, Nat.mul_zero] at hlt hle
      omega
    obtain ⟨k, rfl⟩ : ∃ k', k = k' + 1 := ⟨k - 1, by omega⟩
    obtain ⟨i, hi⟩ : ∃ i, (k + 1) * p = i + 1 := ⟨(k + 1) * p - 1, by have := Nat.mul_pos hk hp; omega⟩
    have his : i + 1 < s₀.length := by omega
    rw [hi]
    cases htie : le s₀[i + 1] s₀[i] with
    | false => exact cut_of_lt h hs₀ his htie
    | true =>
      -- the row at the end of the page is also on the next one, from another listing
      have hperm := hall (fun j => if j = k + 1 then swapped s₀ i s₀[i] s₀[i + 1] else s₀) fun j => by
        split
        · exact listing_swapped hs₀ his htie
        · exact hs₀
      have hnodup := (hperm.nodup_iff.2 hrows)
      rw [List.nodup_flatMap] at hnodup
      have hdisjoint := List.pairwise_iff_getElem.1 hnodup.2 k (k + 1) (by simp; omega) (by simp; omega) (by omega)
      simp only [List.getElem_range, Function.onFun, if_true, show k ≠ k + 1 by omega, if_false] at hdisjoint
      rw [Nat.add_mul, Nat.one_mul] at hi
      refine absurd ?_ (hdisjoint (a := s₀[i]) ?_)
      · exact mem_pageOf (getElem?_swapped (by omega) _ _) (by rw [Nat.add_mul]; omega) (by
          rw [Nat.add_mul, Nat.add_mul]; omega)
      · exact mem_pageOf (List.getElem?_eq_getElem _) (by omega) (by rw [Nat.add_mul]; omega)
  · rintro ⟨hle, hcuts⟩ s hs
    have hsame : ∀ j, ((List.range j).flatMap fun k => pageOf p k (s k)).Perm (s₀.take (j * p)) := by
      intro j
      induction j with
      | zero => simp
      | succ j ih =>
        rw [List.range_succ, List.flatMap_append, List.flatMap_singleton, ← take_append_pageOf]
        exact ih.append (pageOf_perm h (hs j) hs₀ hcuts j)
    refine (hsame T).trans ?_
    rw [List.take_of_length_le (by omega)]
    exact hs₀.1

open Classical in
theorem exists_listing_late (h : IsOrder le) {b : α} (hb : b ∈ rows) :
    ∃ u v, Listing le rows (u ++ b :: v) ∧ u.length + 1 = rows.countP fun a => le a b := by
  obtain ⟨s, hs⟩ := exists_listing h rows
  have hbs : b ∈ s.filter fun a => le a b :=
    List.mem_filter.2 ⟨hs.1.mem_iff.2 hb, (h.total b b).elim id id⟩
  refine ⟨(s.filter fun a => le a b).erase b, s.filter fun a => !le a b, ⟨?_, ?_⟩, ?_⟩
  · refine List.perm_middle.trans ?_
    rw [← List.cons_append]
    exact ((List.perm_cons_erase hbs).symm.append_right _).trans ((List.filter_append_perm _ _).trans hs.1)
  · have hfirst : ∀ a ∈ (s.filter fun a => le a b).erase b, le a b = true := fun a ha =>
      (List.mem_filter.1 (List.mem_of_mem_erase ha)).2
    have hrest : ∀ a ∈ s.filter (fun a => !le a b), le b a = true := fun a ha => by
      have := (List.mem_filter.1 ha).2
      rw [Bool.not_eq_true'] at this
      exact (h.total a b).resolve_left (by simp [this])
    rw [List.pairwise_append, List.pairwise_cons]
    refine ⟨(hs.2.sublist List.filter_sublist).sublist List.erase_sublist,
      ⟨hrest, hs.2.sublist List.filter_sublist⟩, fun a ha c hc => ?_⟩
    rcases List.mem_cons.1 hc with rfl | hc
    · exact hfirst a ha
    · exact h.trans a b c (hfirst a ha) (hrest c hc)
  · rw [List.length_erase_of_mem hbs, ← hs.1.countP_eq, List.countP_eq_length_filter]
    have := List.length_pos_of_mem hbs
    omega

/-- **The rows sought are on the first page**, whatever the listing is, where no more rows than a page has may come up to
one of them. -/
theorem first_page_iff (h : IsOrder le) (p : Nat) (f : α → Bool) :
    (∀ s, Listing le rows s → ∀ b ∈ s.drop p, f b = false) ↔
      ∀ b ∈ rows, f b = true → (rows.countP fun a => le a b) ≤ p := by
  constructor
  · intro hall b hb hf
    obtain ⟨u, v, hs, hlength⟩ := exists_listing_late h hb
    by_contra hlt
    have hmem : b ∈ (u ++ b :: v).drop p := by
      rw [List.drop_append_of_le_length (by omega)]
      exact List.mem_append_right _ List.mem_cons_self
    rw [hall _ hs b hmem] at hf
    cases hf
  · intro hall s hs b hb
    rw [Bool.eq_false_iff]
    intro hf
    obtain ⟨m, hm, hbm⟩ := List.mem_drop_iff_getElem.1 hb
    have hle := hall b (hs.1.mem_iff.1 (List.mem_of_mem_drop hb)) hf
    rw [← hs.1.countP_eq] at hle
    -- it and all before it come up to it
    have hfirst : (s.take (p + m + 1)).countP (fun a => le a b) = (s.take (p + m + 1)).length := by
      rw [List.countP_eq_length]
      intro a ha
      obtain ⟨n, hn, rfl⟩ := List.mem_take_iff_getElem.1 ha
      rw [← hbm]
      rcases Nat.lt_or_ge n (p + m) with hlt | hge
      · exact List.pairwise_iff_getElem.1 hs.2 n (p + m) _ _ hlt
      · have : n = p + m := by omega
        subst this
        exact (h.total _ _).elim id id
    have hcount := (List.take_sublist (p + m + 1) s).countP_le (p := fun a => le a b)
    rw [hfirst, List.length_take_of_le (by omega)] at hcount
    omega

/-! ## Orders that leave nothing together -/

theorem listing_unique (hs : Listing le rows s) (ht : Listing le rows t)
    (hanti : ∀ a ∈ rows, ∀ b ∈ rows, le a b = true → le b a = true → a = b) : s = t := by
  have hboth : ∀ a b, a ∈ s → b ∈ t → le a b = true → le b a = true → a = b := fun a b ha hb =>
    hanti a (hs.1.mem_iff.1 ha) b (ht.1.mem_iff.1 hb)
  exact List.Perm.eq_of_pairwise hboth hs.2 ht.2 (hs.1.trans ht.1.symm)

theorem cut_of_antisymm (h : IsOrder le) (hrows : rows.Nodup)
    (hanti : ∀ a ∈ rows, ∀ b ∈ rows, le a b = true → le b a = true → a = b) {i : Nat} (hpos : 0 < i)
    (hi : i < rows.length) : Cut le rows i := by
  obtain ⟨s, hs⟩ := exists_listing h rows
  have hlength := hs.1.length_eq
  obtain ⟨i, rfl⟩ : ∃ j, i = j + 1 := ⟨i - 1, by omega⟩
  have his : i + 1 < s.length := by omega
  refine cut_of_lt h hs his ?_
  rw [Bool.eq_false_iff]
  intro hback
  have hsorted := List.pairwise_iff_getElem.1 hs.2 i (i + 1) (by omega) his (by omega)
  have heq := hanti _ (hs.1.mem_iff.1 (List.getElem_mem _)) _ (hs.1.mem_iff.1 (List.getElem_mem _)) hsorted hback
  have := (hs.1.nodup_iff.2 hrows).getElem_inj_iff.1 heq
  omega

end Pages
end Vai
